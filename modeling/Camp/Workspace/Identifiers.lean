import Camp.Coordination.Documents
import Camp.SshTransfer.Commands
import Camp.Wire.Codec
import Camp.Wire.Sha256
import Camp.Wire.Text
import Camp.Wire.Words

/-!
# Workspace identifiers

The identifier of a workspace is made of the name of its capsule and of a digest. It is written to
the journal as JSON, and made again from what the journal gives back.
-/

namespace Camp.Workspace

open Wire Wire.Utf8 Wire.Words SshTransfer List

section Model

/-- The Unicode tables. -/
structure Runes where
  lower : Char → Char
  letterOrDigit : Char → Bool
  letterOrDigit_ascii : ∀ c, c.toNat < 0x80 → letterOrDigit c = c.isAlphanum

variable (runes : Runes)

def toLower (value : Bytes) : List Char := (text (symbols value)).map runes.lower

/-- `dash` says that the last character written is a dash. -/
def sanitizeFrom (dash : Bool) : List Char → List Char
  | [] => []
  | c :: rest =>
    if runes.letterOrDigit c then c :: sanitizeFrom false rest
    else if dash then sanitizeFrom true rest
    else '-' :: sanitizeFrom true rest

def sanitize (value : Bytes) : List Char := sanitizeFrom runes false (toLower runes value)

def slug (capsule : Bytes) : Bytes :=
  let trimmed := encode (trim (· == '-') (sanitize runes capsule))
  (if trimmed = [] then lit "capsule" else trimmed).take 24

def identity (capsule lineage root : Bytes) : Bytes := capsule ++ 0 :: lineage ++ 0 :: root

/-- The first six bytes of the digest. -/
def fingerprint (capsule lineage root : Bytes) : Bytes :=
  Sha256.hexText ((Sha256.digest (identity capsule lineage root)).take 6)

def deterministicID (capsule lineage root : Bytes) : Bytes :=
  lit "camp-" ++ slug runes capsule ++ lit "-" ++ fingerprint capsule lineage root

end Model

section Words

variable (runes : Runes)
variable {w cs t : List Char} {b : Char} {ws : List (List Char)}

/-- The words of a name: its longest runs of letters and digits. -/
def words (value : Bytes) : List (List Char) := fields (fun c => !runes.letterOrDigit c) (toLower runes value)

def title (value : Bytes) : List Char := ['-'].intercalate (words runes value)

variable {runes}

theorem not_letterOrDigit_dash : runes.letterOrDigit '-' = false := runes.letterOrDigit_ascii '-' (by decide)

theorem sanitizeFrom_word {w rest : List Char} (hWord : ∀ c ∈ w, runes.letterOrDigit c = true)
    (hw : w ≠ []) (dash : Bool) :
    sanitizeFrom runes dash (w ++ rest) = w ++ sanitizeFrom runes false rest := by
  induction w generalizing dash with
  | nil => exact absurd rfl hw
  | cons c w ih =>
    rw [cons_append, sanitizeFrom, if_pos (hWord c mem_cons_self), cons_append]
    rcases w with _ | ⟨d, w⟩
    · rfl
    · rw [ih (fun x hx => hWord x (mem_cons_of_mem _ hx)) (cons_ne_nil _ _)]

/-- What `sanitizeFrom` writes after a dash: the words, and then dashes. -/
structure Squeezed (runes : Runes) (cs : List Char) (ws : List (List Char)) (t : List Char) : Prop where
  fields_eq : fields (fun c => !runes.letterOrDigit c) cs = ws
  words : ∀ w ∈ ws, w ≠ [] ∧ ∀ c ∈ w, runes.letterOrDigit c = true
  written : sanitizeFrom runes true cs = ['-'].intercalate ws ++ t
  dashes : ∀ c ∈ t, c = '-'

theorem Squeezed.nil : Squeezed runes [] [] [] := ⟨rfl, by simp, rfl, by simp⟩

theorem Squeezed.word (hWord : ∀ c ∈ w, runes.letterOrDigit c = true) (hw : w ≠ []) :
    Squeezed runes w [w] [] where
  fields_eq := fields_word (fun c hc => by rw [hWord c hc]; rfl) hw
  words := by simpa using ⟨hw, hWord⟩
  written := by simpa [sanitizeFrom] using @sanitizeFrom_word runes w [] hWord hw true
  dashes := by simp

theorem Squeezed.gap (hb : runes.letterOrDigit b = false) (h : Squeezed runes cs ws t) :
    Squeezed runes (b :: cs) ws t where
  fields_eq := (fields_blank_append (s := [b]) (by simp [hb])).trans h.fields_eq
  words := h.words
  written := by
    rw [sanitizeFrom, hb]
    exact h.written
  dashes := h.dashes

theorem Squeezed.cons (hWord : ∀ c ∈ w, runes.letterOrDigit c = true) (hw : w ≠ [])
    (hb : runes.letterOrDigit b = false) (h : Squeezed runes cs ws t) :
    ∃ t, Squeezed runes (w ++ b :: cs) (w :: ws) t := by
  have hFields : fields (fun c => !runes.letterOrDigit c) (w ++ b :: cs) = w :: ws := by
    rw [fields_append_cons (by rw [hb]; rfl), fields_word (fun c hc => by rw [hWord c hc]; rfl) hw, h.fields_eq]
    rfl
  have hWords : ∀ v ∈ w :: ws, v ≠ [] ∧ ∀ c ∈ v, runes.letterOrDigit c = true := by
    simpa using ⟨⟨hw, hWord⟩, h.words⟩
  have hWritten : sanitizeFrom runes true (w ++ b :: cs) = w ++ '-' :: (['-'].intercalate ws ++ t) := by
    rw [sanitizeFrom_word hWord hw, sanitizeFrom, hb, h.written.symm]
    rfl
  cases ws with
  | nil => exact ⟨'-' :: t, hFields, hWords, by simp [hWritten], by simpa using h.dashes⟩
  | cons v l => exact ⟨t, hFields, hWords, by simp [hWritten], h.dashes⟩

-- By the words of the text, not by its characters: a word is written as it stands.
theorem exists_squeezed (cs : List Char) : ∃ ws t, Squeezed runes cs ws t := by
  induction hLength : cs.length using Nat.strong_induction_on generalizing cs with
  | _ n ih =>
    have hSplit := takeWhile_append_dropWhile (p := runes.letterOrDigit) (l := cs)
    have hWord : ∀ c ∈ cs.takeWhile runes.letterOrDigit, runes.letterOrDigit c = true :=
        fun c hc => mem_takeWhile_imp hc
    generalize cs.takeWhile runes.letterOrDigit = w at hSplit hWord
    rcases hRest : cs.dropWhile runes.letterOrDigit with _ | ⟨b, rest⟩
    · rw [hRest, append_nil] at hSplit
      subst hSplit
      by_cases hw : w = []
      · subst hw
        exact ⟨[], [], .nil⟩
      · exact ⟨[w], [], .word hWord hw⟩
    · have hb : runes.letterOrDigit b = false := by
        have hHead := head_dropWhile_not runes.letterOrDigit (l := cs) (by rw [hRest]; exact cons_ne_nil _ _)
        simpa [hRest] using hHead
      rw [hRest] at hSplit
      subst hSplit
      obtain ⟨ws, t, h⟩ := ih rest.length (by simp at hLength; omega) rest rfl
      by_cases hw : w = []
      · exact ⟨ws, t, hw ▸ h.gap hb⟩
      · obtain ⟨t, h⟩ := h.cons hWord hw hb
        exact ⟨w :: ws, t, h⟩

theorem sanitizeFrom_false (cs : List Char) :
    ∃ s, (∀ c ∈ s, c = '-') ∧ sanitizeFrom runes false cs = s ++ sanitizeFrom runes true cs := by
  cases cs with
  | nil => exact ⟨[], by simp, rfl⟩
  | cons c cs =>
    cases hLetter : runes.letterOrDigit c with
    | true => exact ⟨[], by simp, by simp [sanitizeFrom, hLetter]⟩
    | false => exact ⟨['-'], by simp, by simp [sanitizeFrom, hLetter]⟩

theorem trim_sanitize (value : Bytes) : trim (· == '-') (sanitize runes value) = title runes value := by
  obtain ⟨ws, t, h⟩ := @exists_squeezed runes (toLower runes value)
  obtain ⟨s, hDashes, hFirst⟩ := @sanitizeFrom_false runes (toLower runes value)
  have hPlain (c : Char) (hc : runes.letterOrDigit c = true) : (c == '-') = false := by
    rw [beq_eq_false_iff_ne]
    rintro rfl
    rw [not_letterOrDigit_dash] at hc
    cases hc
  have hWords : ∀ w ∈ ws, w ≠ [] ∧ ∀ c ∈ w, (c == '-') = false := fun w hw =>
    ⟨(h.words w hw).1, fun c hc => hPlain c ((h.words w hw).2 c hc)⟩
  rw [title, words, h.fields_eq, sanitize, hFirst, h.written, ← append_assoc]
  exact trim_intercalate hWords (fun c hc => by simp [hDashes c hc]) (fun c hc => by simp [h.dashes c hc])

theorem mem_title {value : Bytes} {c : Char} (h : c ∈ title runes value) : runes.letterOrDigit c = true ∨ c = '-' := by
  obtain ⟨ws, t, hSqueezed⟩ := @exists_squeezed runes (toLower runes value)
  rw [title, words, hSqueezed.fields_eq] at h
  rcases mem_of_mem_intercalate h with h | ⟨w, hw, h⟩
  · exact .inr h
  · exact .inl ((hSqueezed.words w hw).2 c h)

end Words

section Usable

variable {runes : Runes}
variable {b : UInt8}
variable {capsule : Bytes}

/-- A text of the journal as it is read back. -/
def reloaded (value : Bytes) : Bytes := Codec.string.canon value

theorem toLower_reloaded (value : Bytes) : toLower runes (reloaded value) = toLower runes value := by
  have hText : text (symbols (Utf8.sanitize value)) = text (symbols value) := by rw [symbols_sanitize, text_map_some]
  exact congrArg (List.map runes.lower) hText

theorem slug_reloaded (capsule : Bytes) : slug runes (reloaded capsule) = slug runes capsule := by
  rw [slug, slug, sanitize, sanitize, toLower_reloaded]

theorem reloaded_eq_self {value : Bytes} : reloaded value = value ↔ none ∉ symbols value := by
  constructor
  · intro h
    rw [← h, reloaded, Codec.string, symbols_sanitize]
    simp
  · intro h
    have hValid : (symbols value).all Option.isSome = true := by
      rw [all_eq_true]
      intro c hc
      exact Option.isSome_iff_ne_none.mpr fun hNone => h (hNone ▸ hc)
    exact (eq_encode_of_symbols (symbols_eq_map_some hValid)).symm

theorem symbols_identity (capsule lineage root : Bytes) : symbols (identity capsule lineage root) =
    symbols capsule ++ some '\x00' :: (symbols lineage ++ some '\x00' :: symbols root) := by
  have hZero (s t : Bytes) : symbols (s ++ 0 :: t) = symbols s ++ some '\x00' :: symbols t := by
    rw [symbols_append (show Breaks (0 :: t) from rfl), symbols_cons, rune_ascii (by decide)]
    rfl
  rw [identity, append_assoc, cons_append, hZero, hZero]

/-- A name that is not valid UTF-8 is another one after it is read back. -/
theorem identity_reloaded (capsule lineage root : Bytes) :
    identity (reloaded capsule) (reloaded lineage) (reloaded root) = identity capsule lineage root ↔
      ∀ name ∈ [capsule, lineage, root], none ∉ symbols name := by
  simp only [forall_mem_cons, not_mem_nil, false_imp_iff, implies_true, and_true]
  constructor
  · intro h
    have hReloaded (name : Bytes) : none ∉ symbols (reloaded name) := reloaded_eq_self.mp (Utf8.sanitize_sanitize name)
    have hNone : none ∉ symbols (identity (reloaded capsule) (reloaded lineage) (reloaded root)) := by
      rw [symbols_identity]
      simp [hReloaded]
    rw [h, symbols_identity] at hNone
    simpa using hNone
  · rintro ⟨hCapsule, hLineage, hRoot⟩
    rw [reloaded_eq_self.mpr hCapsule, reloaded_eq_self.mpr hLineage, reloaded_eq_self.mpr hRoot]

theorem length_fingerprint (capsule lineage root : Bytes) : (fingerprint capsule lineage root).length = 12 := by
  rw [fingerprint, Sha256.length_hexText]
  simp [Sha256.digest, Sha256.bigEndian]

theorem length_deterministicID (capsule lineage root : Bytes) :
    (deterministicID runes capsule lineage root).length ≤ 42 := by
  have hSlug : (slug runes capsule).length ≤ 24 := length_take_le _ _
  rw [deterministicID, length_append, length_append, length_append, length_fingerprint]
  have hFirst : (lit "camp-").length = 5 := rfl
  have hDash : (lit "-").length = 1 := rfl
  omega

theorem encode_eq_nil {cs : List Char} : encode cs = [] ↔ cs = [] := by
  rw [← encode_injective.eq_iff (b := [])]
  rfl

theorem ascii_slug_iff (capsule : Bytes) :
    (∀ b ∈ slug runes capsule, b.toNat < 0x80) ↔ ∀ c ∈ (title runes capsule).take 24, c.toNat < 0x80 := by
  simp only [slug, trim_sanitize, encode_eq_nil]
  split_ifs with hEmpty
  · rw [hEmpty]
    exact iff_of_true (by decide +kernel) (by simp)
  · exact ascii_take_encode 24 _

theorem alphanumeric_of_char (hb : b.toNat < 0x80) (h : (Char.ofNat b.toNat).isAlphanum = true) :
    alphanumeric b = true := by
  have hTable : ∀ n < 0x80, (Char.ofNat n).isAlphanum = true → alphanumeric (UInt8.ofNat n) = true := by decide +kernel
  rw [← UInt8.ofNat_toNat (x := b)]
  exact hTable b.toNat hb h

theorem slug_alphanumeric (h : ∀ b ∈ slug runes capsule, b.toNat < 0x80) :
    ∀ b ∈ slug runes capsule, alphanumeric b = true ∨ b = 45 := by
  intro b hb
  have hAscii := h b hb
  simp only [slug, trim_sanitize] at hb
  split_ifs at hb
  · revert hb
    clear hAscii
    revert b
    decide +kernel
  · have hTitle := ascii_mem_encode hAscii (mem_of_mem_take hb)
    rcases mem_title hTitle with hLetter | hDash
    · rw [runes.letterOrDigit_ascii _ (by rwa [toNat_charOfNat (.inl (by omega))])] at hLetter
      exact .inl (alphanumeric_of_char hAscii hLetter)
    · right
      have hNat := congrArg Char.toNat hDash
      rw [toNat_charOfNat (.inl (by omega))] at hNat
      exact UInt8.toNat_inj.mp hNat

theorem fingerprint_alphanumeric {lineage root : Bytes} (h : b ∈ fingerprint capsule lineage root) :
    alphanumeric b = true := by
  have hDigit (n : Nat) (hn : n < 16) : alphanumeric (Sha256.hexDigit n) = true := by
    revert n
    decide
  obtain ⟨n, hn, rfl⟩ := Sha256.digit_of_mem_hexText h
  exact hDigit n hn

theorem ascii_of_alphanumeric (h : alphanumeric b = true ∨ b = 95 ∨ b = 45) : b.toNat < 0x80 := by
  simp only [alphanumeric, Bool.or_eq_true, Bool.and_eq_true, decide_eq_true_eq,
    UInt8.le_iff_toNat_le, ← UInt8.toNat_inj] at h
  simp at h
  omega

theorem deterministicID_eq (capsule lineage root : Bytes) : deterministicID runes capsule lineage root =
    99 :: (lit "amp-" ++ slug runes capsule ++ lit "-" ++ fingerprint capsule lineage root) := rfl

theorem workspaceIDPattern_iff (capsule lineage root : Bytes) :
    workspaceIDPattern (deterministicID runes capsule lineage root) = true ↔
      ∀ b ∈ slug runes capsule, b.toNat < 0x80 := by
  rw [deterministicID_eq, workspaceIDPattern, Bool.and_eq_true, all_eq_true]
  constructor
  · rintro ⟨-, h⟩ b hb
    have hMember := h b (by simp [hb])
    exact ascii_of_alphanumeric (by simpa [or_assoc] using hMember)
  · refine fun h => ⟨rfl, fun b hb => ?_⟩
    simp only [mem_append] at hb
    rcases hb with ((hb | hb) | hb) | hb
    · revert hb b
      decide +kernel
    · rcases slug_alphanumeric h b hb with hLetter | rfl
      · simp [hLetter]
      · rfl
    · revert hb b
      decide +kernel
    · simp [fingerprint_alphanumeric hb]

theorem devPodHost_eq_ok {id host : Bytes} :
    devPodHost id = .ok host ↔ workspaceIDPattern id = true ∧ host = id ++ lit ".devpod" := by
  unfold devPodHost
  cases workspaceIDPattern id <;> simp [Program.Checks.refuse, pure, Except.pure, bind, Except.bind, eq_comm]

theorem reloaded_of_ascii {capsule lineage root : Bytes} (h : ∀ b ∈ slug runes capsule, b.toNat < 0x80) :
    reloaded (deterministicID runes capsule lineage root) = deterministicID runes capsule lineage root := by
  apply sanitize_ascii
  intro b hb
  simp only [deterministicID, mem_append] at hb
  rcases hb with ((hb | hb) | hb) | hb
  · revert hb b
    decide +kernel
  · exact h b hb
  · revert hb b
    decide +kernel
  · exact ascii_of_alphanumeric (.inl (fingerprint_alphanumeric hb))

/-- What is wanted of an identifier: a host can be named by it, it is short, and the journal gives
back both the identifier and the names it was made of. -/
structure Usable (runes : Runes) (capsule lineage root : Bytes) : Prop where
  host : ∃ host, devPodHost (deterministicID runes capsule lineage root) = .ok host
  short : (deterministicID runes capsule lineage root).length ≤ 42
  kept : reloaded (deterministicID runes capsule lineage root) = deterministicID runes capsule lineage root
  recomputed : deterministicID runes (reloaded capsule) (reloaded lineage) (reloaded root) =
    reloaded (deterministicID runes capsule lineage root)

/-- The names are valid UTF-8, up to two texts with the same first six bytes of their digests. -/
theorem deterministicID_usable_iff (runes : Runes) (capsule lineage root : Bytes) :
    Usable runes capsule lineage root ↔
      (∀ c ∈ (title runes capsule).take 24, c.toNat < 0x80) ∧
      ((∀ name ∈ [capsule, lineage, root], none ∉ symbols name) ∨
        identity (reloaded capsule) (reloaded lineage) (reloaded root) ≠ identity capsule lineage root ∧
          fingerprint (reloaded capsule) (reloaded lineage) (reloaded root) = fingerprint capsule lineage root) := by
  have hFingerprint : (identity (reloaded capsule) (reloaded lineage) (reloaded root) = identity capsule lineage root ∨
      identity (reloaded capsule) (reloaded lineage) (reloaded root) ≠ identity capsule lineage root ∧
        fingerprint (reloaded capsule) (reloaded lineage) (reloaded root) = fingerprint capsule lineage root) ↔
      fingerprint (reloaded capsule) (reloaded lineage) (reloaded root) = fingerprint capsule lineage root := by
    constructor
    · rintro (hSame | ⟨-, h⟩)
      · rw [fingerprint, hSame, fingerprint]
      · exact h
    · intro h
      exact (em _).imp_right fun hOther => ⟨hOther, h⟩
  have hRecomputed : deterministicID runes (reloaded capsule) (reloaded lineage) (reloaded root) =
        deterministicID runes capsule lineage root ↔
      fingerprint (reloaded capsule) (reloaded lineage) (reloaded root) = fingerprint capsule lineage root := by
    rw [deterministicID, deterministicID, slug_reloaded, append_cancel_left_eq]
  rw [← ascii_slug_iff, ← identity_reloaded, hFingerprint]
  constructor
  · rintro ⟨⟨host, hHost⟩, -, hKept, hAgain⟩
    exact ⟨(workspaceIDPattern_iff ..).mp (devPodHost_eq_ok.mp hHost).1, hRecomputed.mp (hAgain.trans hKept)⟩
  · rintro ⟨hAscii, hDigest⟩
    have hKept := @reloaded_of_ascii runes capsule lineage root hAscii
    have hPattern := (workspaceIDPattern_iff capsule lineage root).mpr hAscii
    exact ⟨⟨_, devPodHost_eq_ok.mpr ⟨hPattern, rfl⟩⟩, length_deterministicID .., hKept,
      (hRecomputed.mpr hDigest).trans hKept.symm⟩

/-- The tables up to U+00FF. -/
def latin : Runes where
  lower c := if (0x41 ≤ c.toNat && c.toNat ≤ 0x5A) || (0xC0 ≤ c.toNat && c.toNat ≤ 0xDE && c.toNat != 0xD7) then
    Char.ofNat (c.toNat + 32) else c
  letterOrDigit c := c.isAlphanum || c.toNat == 0xAA || c.toNat == 0xB5 || c.toNat == 0xBA ||
    (0xC0 ≤ c.toNat && c.toNat ≤ 0xFF && c.toNat != 0xD7 && c.toNat != 0xF7)
  letterOrDigit_ascii c hc := by
    have h (n : Nat) (hn : 0x80 ≤ n) : (c.toNat == n) = false := by
      rw [beq_eq_false_iff_ne]
      omega
    simp [h 0xAA, h 0xB5, h 0xBA, show ¬ 0xC0 ≤ c.toNat by omega]

theorem deterministicID_unusable : (Lineage.pointerKey ⟨lit "main"⟩ (lit "größe")).isOk = true ∧
    workspaceIDPattern (deterministicID latin (lit "größe") (lit "main") (lit "/srv/camp")) = false := by
  decide +kernel

end Usable

end Camp.Workspace
