import Camp.HaulKit.Manifest
import Camp.Wire.Text

/-!
# The chunks of a kit

An archive is cut into chunks that are named after it, and put together again from them. The
directory of the chunks is made anew, and is removed when the cutting fails.
-/

namespace Camp.HaulKit

open Wire Wire.Utf8 Program Program.Checks List Program.Paths

section Model

inductive Node where
  | regular (body : Bytes)
  | other
  deriving DecidableEq

/-- What is at the path of the archive, in the directory of the chunks, and at the path of the output. -/
structure Disk where
  archive : Option Node
  directory : Option (List (Bytes × Node))
  output : Option Bytes
  deriving DecidableEq

inductive Trouble where
  | notExist
  | exist
  | nameTooLong
  | notRegular
  | invalidChunks (reason : String)
  deriving DecidableEq

def nameMax : Nat := 255

def nameable (path : Path) : Bool := (base path).length ≤ nameMax

def openRegular : Option Node → Except Trouble Bytes
  | none => .error .notExist
  | some .other => .error .notRegular
  | some (.regular body) => .ok body

def sixDigits (n : Nat) : Bytes := (numeral n).leftpad 6 48

def chunkName (archive : Path) (index : UInt32) :
    Bytes := base archive ++ (lit ".part-" ++ sixDigits index.toNat)

structure Piece where
  identity : ChunkIdentity
  body : Bytes
  deriving DecidableEq

def piece (name : UInt32 → Bytes) (index : UInt32) (body : Bytes) : Piece :=
  ⟨⟨index, name index, sha256Hex body, Int64.ofNat body.length⟩, body⟩

def syncPublish (pieces : List Piece) (name : Bytes) : Except Trouble Unit := do
  refuse (nameMax < name.length) .nameTooLong
  refuse ((pieces.map (·.identity.name)).contains name) .exist

def splitLoop (name : UInt32 → Bytes) (chunkSize : Nat) :
    Nat → UInt32 → Bytes → List Piece → Except Trouble (List Piece)
  | 0, _, _, pieces => .ok pieces
  | fuel + 1, index, source, pieces =>
    let written := source.take chunkSize
    if written = [] then .ok pieces
    else do
      syncPublish pieces (name index)
      if written.length < chunkSize then .ok (pieces ++ [piece name index written])
      else splitLoop name chunkSize fuel (index + 1) (source.drop chunkSize) (pieces ++ [piece name index written])

def filesOf (pieces : List Piece) : List (Bytes × Node) := pieces.map fun p => (p.identity.name, .regular p.body)

/-- The chunks of a source, unless there are none. -/
def cut (archive : Path) (chunkSize : Nat) (body : Bytes) : Except Trouble (List Piece) := do
  let pieces ← splitLoop (chunkName archive) chunkSize (body.length + 1) 0 body []
  refuse pieces.isEmpty (.invalidChunks "empty archive")
  pure pieces

def split (archive directory : Path) (chunkSize : Int) (d : Disk) : Except Trouble (List ChunkIdentity) × Disk :=
  if chunkSize ≤ 0 ∨ defaultChunkSize < chunkSize ∨ !rooted archive ∨ !rooted directory then
    (.error (.invalidChunks "invalid split request"), d)
  else
    match openRegular d.archive with
    | .error t => (.error t, d)
    | .ok body =>
      if d.directory.isSome then (.error .exist, d)
      else
        match cut archive chunkSize.toNat body with
        | .error t => (.error t, d)
        | .ok pieces => (.ok (pieces.map (·.identity)), { d with directory := some (filesOf pieces) })

def readChunk (files : List (Bytes × Node)) (c : ChunkIdentity) : Except Trouble Bytes := do
  let body ← openRegular (files.lookup c.name)
  let written := body.take (c.length + 1)
  refuse (written.length != c.length || sha256Hex written != c.sha256) (.invalidChunks "chunk size or digest mismatch")
  pure written

def checkChunk (maxChunkSize : Int) (before : List ChunkIdentity) (c : ChunkIdentity) : Except Trouble Unit := do
  refuse (c.index != UInt32.ofNat before.length || !safeRelativeName c.name || !validSHA256 c.sha256 || c.size ≤ 0 ||
    maxChunkSize < c.size.toInt) (.invalidChunks "malformed chunk identity")
  refuse ((before.map (·.name)).contains c.name) (.invalidChunks "duplicate chunk")

def reassembleLoop (files : List (Bytes × Node)) (maxChunkSize : Int) :
    List ChunkIdentity → List ChunkIdentity → Bytes → Except Trouble Bytes
  | _, [], out => .ok out
  | before, c :: rest, out => do
    checkChunk maxChunkSize before c
    let written ← readChunk files c
    reassembleLoop files maxChunkSize (before ++ [c]) rest (out ++ written)

def reassemble (directory : Path) (chunks : List ChunkIdentity) (output : Path)
    (maxChunkSize : Int) (d : Disk) :
    Except Trouble Unit × Disk :=
  if !rooted directory ∨ !rooted output ∨ maxChunkSize ≤ 0 ∨
    defaultChunkSize < maxChunkSize ∨ chunks.isEmpty then
    (.error (.invalidChunks "invalid reassembly request"), d)
  else
    match reassembleLoop (d.directory.getD []) maxChunkSize [] chunks [] with
    | .error t => (.error t, d)
    | .ok body =>
      if !nameable output then (.error .nameTooLong, d)
      else if d.output.isSome then (.error .exist, d)
      else (.ok (), { d with output := some body })

end Model

section Names

variable {b : UInt8} {i : UInt32}

theorem readNumeral_sixDigits (n : Nat) : readNumeral (sixDigits n) = n := by
  have hZero : (replicate (6 - (numeral n).length) (48 : UInt8)).map (fun b => Char.ofNat b.toNat) =
      replicate (6 - (numeral n).length) '0' := by
    rw [map_replicate]
    rfl
  rw [sixDigits, List.leftpad, readNumeral, map_append, hZero, Nat.ofDigitChars_append,
    Nat.ofDigitChars_replicate_zero, Nat.mul_zero]
  exact readNumeral_numeral n

theorem digit_of_mem_sixDigits {n : Nat} (h : b ∈ sixDigits n) : 48 ≤ b.toNat ∧ b.toNat ≤ 57 := by
  rcases mem_append.mp h with h | h
  · rw [eq_of_mem_replicate h]
    decide
  · exact digit_of_mem_numeral h

variable {archive : Path}

theorem chunkName_injective {j : UInt32} (h : chunkName archive i = chunkName archive j) : i = j := by
  have hDigits := append_cancel_left (append_cancel_left h)
  have hNat : i.toNat = j.toNat := by
    rw [← readNumeral_sixDigits i.toNat, hDigits, readNumeral_sixDigits]
  exact UInt32.toNat_inj.mp hNat

theorem plain_of_mem_suffix (h : b ∈ lit ".part-" ++ sixDigits i.toNat) : 32 ≤ b.toNat ∧ b.toNat < 127 ∧ b ≠ slash := by
  rcases mem_append.mp h with h | h
  · clear * - h
    revert b
    decide +kernel
  · have hDigit := digit_of_mem_sixDigits h
    refine ⟨by omega, by omega, ?_⟩
    rintro rfl
    exact absurd hDigit (by decide)

theorem hasControl_printable {s : Bytes} (h : ∀ b ∈ s, 32 ≤ b.toNat ∧ b.toNat < 127) : hasControl s = false := by
  induction s with
  | nil => rfl
  | cons b s ih =>
    obtain ⟨hLow, hHigh⟩ := h b mem_cons_self
    have hSelf : isControl (Char.ofNat b.toNat) = false := by
      unfold isControl
      rw [toNat_charOfNat (by omega)]
      simp only [Bool.or_eq_false_iff, Bool.and_eq_false_iff, decide_eq_false_iff_not]
      omega
    have hRest := ih fun c hc => h c (mem_cons_of_mem _ hc)
    unfold hasControl at hRest ⊢
    rw [symbols_cons, rune_ascii (by omega)]
    simpa [text, hSelf] using hRest

theorem hasControl_chunkName (i : UInt32) : hasControl (chunkName archive i) = hasControl (base archive) := by
  have hBreaks : Breaks (lit ".part-" ++ sixDigits i.toNat) := rfl
  have hSuffix : hasControl (lit ".part-" ++ sixDigits i.toNat) = false := by
    apply hasControl_printable
    intro b hb
    exact ⟨(plain_of_mem_suffix hb).1, (plain_of_mem_suffix hb).2.1⟩
  unfold hasControl at hSuffix ⊢
  rw [chunkName, symbols_append hBreaks, text, map_append, any_append]
  rw [text] at hSuffix
  rw [hSuffix, Bool.or_false]
  rfl

theorem base_plain {name : Path} (h : Plain name) : base name = name := by
  obtain ⟨hNonempty, -, -, hSlash⟩ := h
  have hParts : parts name = [name] := by
    simpa [glue] using parts_glue (by simpa using hSlash) (cons_ne_nil name [])
  rw [base, if_neg hNonempty, hParts]
  simp [hNonempty]

theorem plain_chunkName (h : Plain (base archive)) (i : UInt32) : Plain (chunkName archive i) := by
  obtain ⟨hNonempty, -, -, hSlash⟩ := h
  have hLong : 3 ≤ (chunkName archive i).length := by
    have hLength : (lit ".part-").length = 6 := rfl
    simp only [chunkName, length_append]
    omega
  refine ⟨?_, ?_, ?_, ?_⟩
  · intro hEq
    rw [hEq] at hLong
    exact absurd hLong (by decide)
  · intro hEq
    rw [hEq] at hLong
    exact absurd hLong (by decide)
  · intro hEq
    rw [hEq] at hLong
    exact absurd hLong (by decide)
  · intro hMem
    rcases mem_append.mp hMem with hMem | hMem
    · exact hSlash hMem
    · exact (plain_of_mem_suffix hMem).2.2 rfl

theorem safeRelativeName_chunkName (h : Plain (base archive)) (i : UInt32) :
    safeRelativeName (chunkName archive i) = !hasControl (base archive) := by
  have hPlain := plain_chunkName h i
  have hDot : chunkName archive i ≠ lit "." := hPlain.2.1
  have hDots : chunkName archive i ≠ lit ".." := hPlain.2.2.1
  unfold safeRelativeName
  rw [base_plain hPlain, hasControl_chunkName]
  simp [hPlain.1, hDot, hDots]

theorem validSHA256_sha256Hex (m : Bytes) : validSHA256 (sha256Hex m) = true := by
  have hDigit (n : Nat) (hn : n < 16) : (48 ≤ Sha256.hexDigit n && Sha256.hexDigit n ≤ 57) ||
      (97 ≤ Sha256.hexDigit n && Sha256.hexDigit n ≤ 102) := by
    revert n
    decide
  have hLength : (sha256Hex m).length = 64 := by
    have hHex (t : Bytes) : (Sha256.hexText t).length = 2 * t.length := by
      simp [Sha256.hexText, Nat.mul_comm]
    have hWord (w : Nat) : (Sha256.bigEndian w 4).length = 4 := by simp [Sha256.bigEndian]
    simp [sha256Hex, hHex, Sha256.digest, hWord]
  rw [validSHA256, hLength]
  simp only [beq_self_eq_true, Bool.true_and, all_eq_true]
  intro b hb
  obtain ⟨a, -, hDigits⟩ := mem_flatMap.mp hb
  have ha := a.toNat_lt
  rcases mem_pair.mp hDigits with rfl | rfl
  · exact hDigit _ (by omega)
  · exact hDigit _ (by omega)

end Names

section Cutting

/-- The pieces of a source: each of the given size, but for a last one that may be shorter. -/
def slices (size : Nat) : Nat → Bytes → List Bytes
  | 0, _ => []
  | fuel + 1, source =>
    if source = [] then [] else source.take size :: slices size fuel (source.drop size)

variable {size fuel : Nat} {source : Bytes}

theorem slices_flatten (hSize : 0 < size) (hFuel : source.length ≤ fuel) :
    (slices size fuel source).flatten = source := by
  induction fuel generalizing source with
  | zero =>
    have hNil : source = [] := eq_nil_of_length_eq_zero (by omega)
    rw [hNil]
    rfl
  | succ fuel ih =>
    rw [slices]
    split_ifs with hNil
    · rw [hNil]
      rfl
    · have hDrop : (source.drop size).length ≤ fuel := by
        rw [length_drop]
        omega
      rw [flatten_cons, ih hDrop, take_append_drop]

theorem slices_lengths (hSize : 0 < size) (hFuel : source.length ≤ fuel) (hSource : source ≠ []) :
    ∃ last, 0 < last ∧ last ≤ size ∧
      (slices size fuel source).map List.length = replicate ((source.length - 1) / size) size ++ [last] := by
  induction fuel generalizing source with
  | zero => exact absurd (eq_nil_of_length_eq_zero (by omega)) hSource
  | succ fuel ih =>
    have hPos := length_pos_iff.mpr hSource
    rw [slices, if_neg hSource]
    by_cases hDrop : source.drop size = []
    · have hShort : source.length ≤ size := drop_eq_nil_iff.mp hDrop
      have hNone : slices size fuel [] = [] := by
        cases fuel <;> rfl
      refine ⟨source.length, hPos, hShort, ?_⟩
      rw [hDrop, hNone, take_of_length_le hShort, Nat.div_eq_of_lt (by omega)]
      rfl
    · have hLong : size < source.length := by
        by_contra hShort
        exact hDrop (drop_eq_nil_iff.mpr (by omega))
      have hRest : (source.drop size).length = source.length - size := length_drop
      obtain ⟨last, hLast, hLe, hMap⟩ := ih (by omega) hDrop
      refine ⟨last, hLast, hLe, ?_⟩
      have hCount : (source.length - 1) / size = (source.length - size - 1) / size + 1 := by
        rw [← Nat.add_div_right _ hSize]
        congr 1
        omega
      rw [map_cons, hMap, hRest, hCount, length_take_of_le hLong.le, replicate_succ]
      rfl

theorem length_slices (hSize : 0 < size) (hFuel : source.length ≤ fuel) (hSource : source ≠ []) :
    (slices size fuel source).length = (source.length - 1) / size + 1 := by
  obtain ⟨last, -, -, hMap⟩ := slices_lengths hSize hFuel hSource
  simpa using congrArg List.length hMap

theorem length_of_mem_slices (hSize : 0 < size) (hFuel : source.length ≤ fuel) {body : Bytes}
    (h : body ∈ slices size fuel source) : 0 < body.length ∧ body.length ≤ size := by
  have hSource : source ≠ [] := by
    rintro rfl
    cases fuel <;> cases h
  obtain ⟨last, hLast, hLe, hMap⟩ := slices_lengths hSize hFuel hSource
  have hMem : body.length ∈ (slices size fuel source).map List.length := mem_map_of_mem h
  rw [hMap] at hMem
  rcases mem_append.mp hMem with hMem | hMem
  · rw [eq_of_mem_replicate hMem]
    exact ⟨hSize, le_rfl⟩
  · rw [mem_singleton.mp hMem]
    exact ⟨hLast, hLe⟩

variable {name : UInt32 → Bytes}

def numbered (name : UInt32 → Bytes) : Nat → List Bytes → List Piece
  | _, [] => []
  | i, body :: rest => piece name (UInt32.ofNat i) body :: numbered name (i + 1) rest

theorem splitLoop_eq_ok {i : Nat} {before out : List Piece} (hSize : 0 < size) (hFuel : source.length < fuel) :
    splitLoop name size fuel (UInt32.ofNat i) source before = .ok out ↔
      scan (fun before p => syncPublish before p.identity.name) before
      (numbered name i (slices size fuel source)) = .ok () ∧
      out = before ++ numbered name i (slices size fuel source) := by
  induction fuel generalizing i source before with
  | zero => omega
  | succ fuel ih =>
    rw [splitLoop, slices]
    by_cases hNil : source = []
    · simp [hNil, numbered, scan, eq_comm]
    · have hPos := length_pos_iff.mpr hNil
      have hTake : source.take size ≠ [] := by
        simp [hNil]
        omega
      have hDrop : (source.drop size).length < fuel := by
        rw [length_drop]
        omega
      have hNext : UInt32.ofNat i + 1 = UInt32.ofNat (i + 1) := by
        rw [UInt32.ofNat_add]
        rfl
      -- a short piece is the last one, so going on would end at once
      have hLast : (if (source.take size).length < size then
            .ok (before ++ [piece name (UInt32.ofNat i) (source.take size)])
          else splitLoop name size fuel (UInt32.ofNat i + 1) (source.drop size)
            (before ++ [piece name (UInt32.ofNat i) (source.take size)])) =
          splitLoop name size fuel (UInt32.ofNat (i + 1)) (source.drop size)
            (before ++ [piece name (UInt32.ofNat i) (source.take size)]) := by
        split_ifs with hShort
        · have hEnd : source.drop size = [] := by
            rw [length_take] at hShort
            exact drop_eq_nil_iff.mpr (by omega)
          rw [hEnd]
          cases fuel with
          | zero => omega
          | succ fuel => simp [splitLoop]
        · rw [hNext]
      simp only [if_neg hTake, if_neg hNil, hLast, andThen_eq_ok, ih hDrop, numbered,
        scan, and_assoc, append_assoc,
        singleton_append]
      rfl

theorem syncPublish_eq_ok {pieces : List Piece} {target : Bytes} :
    syncPublish pieces target = .ok () ↔ target.length ≤ nameMax ∧ target ∉ pieces.map (·.identity.name) := by
  simp [syncPublish]

theorem names_numbered (i : Nat) (bodies : List Bytes) :
    (numbered name i bodies).map (·.identity.name) = (List.range' i bodies.length).map fun k =>
    name (UInt32.ofNat k) := by
  induction bodies generalizing i with
  | nil => rfl
  | cons body bodies ih => simp [numbered, piece, ih, range'_succ]

theorem bodies_numbered (i : Nat) (bodies : List Bytes) : (numbered name i bodies).map (·.body) = bodies := by
  induction bodies generalizing i with
  | nil => rfl
  | cons body bodies ih => simp [numbered, piece, ih]

theorem nodup_numbers (hName : Function.Injective name) (n : Nat) :
    ((List.range' 0 n).map fun k => name (UInt32.ofNat k)).Nodup ↔ n ≤ 2 ^ 32 := by
  constructor
  · intro h
    by_contra hMany
    have hSame := inj_on_of_nodup_map h (mem_range'_1.mpr ⟨Nat.zero_le 0, by omega⟩)
      (mem_range'_1.mpr ⟨Nat.zero_le (2 ^ 32), by omega⟩) rfl
    omega
  · intro hFew
    refine Nodup.map_on ?_ nodup_range'
    intro a ha b hb hEq
    have hNumber := congrArg UInt32.toNat (hName hEq)
    rw [mem_range'_1] at ha hb
    rwa [UInt32.toNat_ofNat_of_lt' (by show a < 2 ^ 32; omega), UInt32.toNat_ofNat_of_lt' (by show b < 2 ^ 32; omega)]
      at hNumber

theorem scan_syncPublish (hName : Function.Injective name) (bodies : List Bytes) :
    scan (fun before p => syncPublish before p.identity.name) [] (numbered name 0 bodies) = .ok () ↔
      bodies.length ≤ 2 ^ 32 ∧ ∀ k < bodies.length, (name (UInt32.ofNat k)).length ≤ nameMax := by
  have hNames : (∀ p ∈ numbered name 0 bodies, p.identity.name.length ≤ nameMax) ↔
      ∀ k < bodies.length, (name (UInt32.ofNat k)).length ≤ nameMax := by
    rw [← forall_mem_map (f := fun p : Piece => p.identity.name) (P := fun target => target.length ≤ nameMax),
      names_numbered]
    simp
  rw [scan_eq_ok, ← nodup_numbers hName, ← names_numbered, ← hNames, ← forall_split_mem, ← forall_split_fresh]
  simp only [syncPublish_eq_ok, nil_append, forall_and, and_comm]

end Cutting

section Joining

variable {files : List (Bytes × Node)} {maxChunkSize : Int} {c : ChunkIdentity} {chunks before : List ChunkIdentity}
variable {body : Bytes} {ids : List ChunkIdentity}

def Intact (files : List (Bytes × Node)) (c : ChunkIdentity) (body : Bytes) : Prop :=
  files.lookup c.name = some (.regular body) ∧ body.length = c.length ∧ sha256Hex body = c.sha256

theorem exists_bodies :
    (∃ bodies, Forall₂ (Intact files) chunks bodies) ↔ ∀ c ∈ chunks, ∃ body, Intact files c body := by
  induction chunks with
  | nil => simp
  | cons c chunks ih =>
    rw [forall_mem_cons, ← ih]
    simp only [forall₂_cons_left_iff]
    constructor
    · rintro ⟨_, body, bodies, hBody, hBodies, -⟩
      exact ⟨⟨body, hBody⟩, bodies, hBodies⟩
    · rintro ⟨⟨body, hBody⟩, bodies, hBodies⟩
      exact ⟨_, body, bodies, hBody, hBodies, rfl⟩

theorem openRegular_eq_ok {node : Option Node} : openRegular node = .ok body ↔ node = some (.regular body) := by
  rcases node with _ | _ | b <;> simp [openRegular]

theorem readChunk_eq_ok : readChunk files c = .ok body ↔ Intact files c body := by
  have hWhole (b : Bytes) (h : (b.take (c.length + 1)).length = c.length) : b.take (c.length + 1) = b := by
    rw [length_take] at h
    exact take_of_length_le (by omega)
  unfold readChunk Intact
  rw [bind_eq_ok]
  simp only [openRegular_eq_ok, andThen_eq_ok, refuse_eq_ok, Bool.or_eq_false_iff, bne_eq_false_iff_eq]
  constructor
  · rintro ⟨b, hFile, ⟨hLength, hDigest⟩, hBody⟩
    cases hBody
    have hTake := hWhole b hLength
    rw [hTake] at hLength hDigest ⊢
    exact ⟨hFile, hLength, hDigest⟩
  · rintro ⟨hFile, hLength, hDigest⟩
    have hTake : body.take (c.length + 1) = body := take_of_length_le (by omega)
    refine ⟨body, hFile, ?_⟩
    rw [hTake]
    exact ⟨⟨hLength, hDigest⟩, rfl⟩

theorem reassembleLoop_eq_ok {out result : Bytes} :
    reassembleLoop files maxChunkSize before chunks out = .ok result ↔
      scan (checkChunk maxChunkSize) before chunks = .ok () ∧
        ∃ bodies, Forall₂ (Intact files) chunks bodies ∧ result = out ++ bodies.flatten := by
  induction chunks generalizing before out with
  | nil => simp [reassembleLoop, scan, eq_comm]
  | cons c chunks ih =>
    rw [reassembleLoop, scan, andThen_eq_ok, andThen_eq_ok, bind_eq_ok]
    simp only [readChunk_eq_ok, ih, forall₂_cons_left_iff]
    constructor
    · rintro ⟨hCheck, body, hBody, hScan, bodies, hBodies, rfl⟩
      exact ⟨⟨hCheck, hScan⟩, body :: bodies, ⟨body, bodies, hBody, hBodies, rfl⟩, by simp⟩
    · rintro ⟨⟨hCheck, hScan⟩, _, ⟨body, bodies, hBody, hBodies, rfl⟩, rfl⟩
      exact ⟨hCheck, body, hBody, hScan, bodies, hBodies, by simp⟩

def wellFormed (maxChunkSize : Int) (c : ChunkIdentity) : Bool :=
  safeRelativeName c.name && validSHA256 c.sha256 && (0 : Int) < c.size.toInt && c.size.toInt ≤ maxChunkSize

theorem checkChunk_eq_ok :
    checkChunk maxChunkSize before c = .ok () ↔
      c.index = UInt32.ofNat before.length ∧ wellFormed maxChunkSize c ∧ c.name ∉ before.map (·.name) := by
  have hSize : c.size ≤ 0 ↔ ¬ (0 : Int) < c.size.toInt := by
    rw [Int64.le_iff_toInt_le, not_lt]
    rfl
  simp only [checkChunk, wellFormed, andThen_eq_ok, refuse_eq_ok, Bool.or_eq_false_iff, bne_eq_false_iff_eq, hSize]
  simp [and_assoc]

theorem scan_checkChunk :
    scan (checkChunk maxChunkSize) [] chunks = .ok () ↔
      (∀ front c back, chunks = front ++ c :: back → c.index = UInt32.ofNat front.length) ∧
        (∀ c ∈ chunks, wellFormed maxChunkSize c) ∧ (chunks.map (·.name)).Nodup := by
  rw [scan_eq_ok, ← forall_split_mem, ← forall_split_fresh]
  simp only [checkChunk_eq_ok, nil_append, forall_and]

def InOrder (chunks : List ChunkIdentity) : Prop :=
  ∀ front c back, chunks = front ++ c :: back → c.index = UInt32.ofNat front.length

theorem isPrefix_of_inOrder (hAll : InOrder chunks) (hCount : chunks.length ≤ 2 ^ 32) (hMem : ∀ c ∈ ids, c ∈ chunks)
    (hIds : InOrder ids) (hNames : (ids.map (·.name)).Nodup) : ids <+: chunks := by
  induction ids using List.reverseRecOn with
  | nil => exact nil_prefix
  | append_singleton front c ih =>
    rw [map_append, nodup_append] at hNames
    obtain ⟨rest, hRest⟩ := ih (fun c hc => hMem c (mem_append_left _ hc))
      (fun a b d hSplit => hIds a b (d ++ [c]) (by rw [hSplit]; simp)) hNames.1
    have hc := hMem c (by simp)
    -- the chunk is not among the ones before it, so it is among the rest
    have hcRest : c ∈ rest := by
      rw [← hRest] at hc
      refine (mem_append.mp hc).resolve_left ?_
      intro hFront
      exact hNames.2.2 c.name (mem_map_of_mem hFront) c.name (by simp) rfl
    obtain ⟨between, back, rfl⟩ := append_of_mem hcRest
    have hHere := hIds front c [] rfl
    rw [hAll (front ++ between) c back (by rw [← hRest, append_assoc])] at hHere
    have hNumber := congrArg UInt32.toNat hHere
    rw [← hRest] at hCount
    simp only [length_append, length_cons] at hCount hNumber
    rw [UInt32.toNat_ofNat_of_lt' (by show _ < 2 ^ 32; omega),
      UInt32.toNat_ofNat_of_lt' (by show _ < 2 ^ 32; omega)] at hNumber
    have hNone : between = [] := eq_nil_of_length_eq_zero (by omega)
    exact ⟨back, by rw [← hRest, hNone]; simp⟩

theorem InOrder.isPrefix (hAll : InOrder chunks) (h : ids <+: chunks) : InOrder ids := by
  obtain ⟨rest, rfl⟩ := h
  rintro front c back rfl
  exact hAll front c (back ++ rest) (by simp)

end Joining

/-- An archive to be cut: a regular file that is not empty, at an absolute path, so that the last
component of the path names an entry of a directory. -/
structure Job where
  archive : Path
  directory : Path
  output : Path
  chunkSize : Nat
  body : Bytes
  absolute : rooted archive ∧ rooted directory ∧ rooted output
  named : Plain (base archive)
  nonempty : body ≠ []
  permitted : 0 < chunkSize ∧ chunkSize ≤ defaultChunkSize

namespace Job

variable (j : Job)
variable {p : Piece}

/-- Neither the directory of the chunks nor the output is there. -/
def start : Disk := ⟨some (.regular j.body), none, none⟩

def bodies : List Bytes := slices j.chunkSize (j.body.length + 1) j.body

def pieces : List Piece := numbered (chunkName j.archive) 0 j.bodies

def chunks : List ChunkIdentity := j.pieces.map (·.identity)

def count : Nat := (j.body.length - 1) / j.chunkSize + 1

def Fits : Prop := j.count ≤ 2 ^ 32 ∧ ∀ i < j.count, (chunkName j.archive (UInt32.ofNat i)).length ≤ nameMax

instance : Decidable j.Fits := inferInstanceAs (Decidable (_ ∧ _))

variable {j}

theorem length_bodies : j.bodies.length = j.count := length_slices j.permitted.1 (Nat.le_succ _) j.nonempty

theorem length_chunks : j.chunks.length = j.count := by
  have hBodies := congrArg List.length (@bodies_numbered (chunkName j.archive) 0 j.bodies)
  simpa [chunks, pieces, length_bodies] using hBodies

theorem chunks_ne_nil : j.chunks ≠ [] := by
  intro hNil
  have hCount := length_chunks (j := j)
  rw [hNil] at hCount
  cases hCount

theorem cut_eq_ok {pieces : List Piece} :
    cut j.archive j.chunkSize j.body = .ok pieces ↔ j.Fits ∧ pieces = j.pieces := by
  have hZero : (0 : UInt32) = UInt32.ofNat 0 := rfl
  have hSome : j.pieces ≠ [] := fun hNil => chunks_ne_nil (map_eq_nil_iff.mpr hNil)
  rw [cut, bind_eq_ok]
  simp only [hZero, splitLoop_eq_ok j.permitted.1 (Nat.lt_succ_self _), andThen_eq_ok, refuse_eq_ok]
  rw [scan_syncPublish fun _ _ => chunkName_injective, ← bodies, length_bodies]
  constructor
  · rintro ⟨out, ⟨hFits, rfl⟩, -, hOut⟩
    cases hOut
    exact ⟨hFits, rfl⟩
  · rintro ⟨hFits, rfl⟩
    exact ⟨j.pieces, ⟨hFits, rfl⟩, by simpa using hSome, rfl⟩

def cutDisk (j : Job) : Disk := { j.start with directory := some (filesOf j.pieces) }

theorem split_eq_ok {cs : List ChunkIdentity} {d : Disk} :
    split j.archive j.directory j.chunkSize j.start = (.ok cs, d) ↔ j.Fits ∧ cs = j.chunks ∧ d = j.cutDisk := by
  have hRequest : ¬ ((j.chunkSize : Int) ≤ 0 ∨ (defaultChunkSize : Int) < j.chunkSize ∨ !rooted j.archive ∨
      !rooted j.directory) := by
    have hSize := j.permitted
    simp only [j.absolute.1, j.absolute.2.1, Bool.not_true, Bool.false_eq_true, or_false]
    omega
  have hBody : openRegular j.start.archive = .ok j.body := rfl
  have hNone : j.start.directory.isSome = false := rfl
  rw [split, if_neg hRequest, hBody]
  simp only [hNone, Bool.false_eq_true, if_false, Int.toNat_natCast]
  cases hCut : cut j.archive j.chunkSize j.body with
  | error t =>
    have hUnfit : ¬ j.Fits := by
      intro hFits
      rw [cut_eq_ok.mpr ⟨hFits, rfl⟩] at hCut
      cases hCut
    simp [hUnfit]
  | ok pieces =>
    obtain ⟨hFits, rfl⟩ := cut_eq_ok.mp hCut
    simp [hFits, chunks, cutDisk, eq_comm]

theorem inOrder_chunks : InOrder j.chunks := by
  have hIndex (i : Nat) (bodies : List Bytes) (front : List ChunkIdentity)
      (c : ChunkIdentity) (back : List ChunkIdentity)
      (h : (numbered (chunkName j.archive) i bodies).map (·.identity) = front ++ c :: back) :
      c.index = UInt32.ofNat (i + front.length) := by
    induction bodies generalizing i front with
    | nil => simp [numbered] at h
    | cons body bodies ih =>
      cases front with
      | nil =>
        cases h
        rfl
      | cons a front =>
        rw [ih (i + 1) front (List.cons.inj h).2, length_cons]
        congr 1
        omega
  intro front c back h
  simpa using hIndex 0 j.bodies front c back h

theorem mem_pieces (h : p ∈ j.pieces) :
    (∃ i, p = piece (chunkName j.archive) i p.body) ∧ 0 < p.body.length ∧ p.body.length ≤ j.chunkSize := by
  have hPiece (i : Nat) (bodies : List Bytes) (h : p ∈ numbered (chunkName j.archive) i bodies) :
      (∃ i, p = piece (chunkName j.archive) i p.body) ∧ p.body ∈ bodies := by
    induction bodies generalizing i with
    | nil => cases h
    | cons body bodies ih =>
      rcases mem_cons.mp h with rfl | h
      · exact ⟨⟨_, rfl⟩, mem_cons_self⟩
      · exact ⟨(ih (i + 1) h).1, mem_cons_of_mem _ (ih (i + 1) h).2⟩
  obtain ⟨hSelf, hBody⟩ := hPiece 0 j.bodies h
  exact ⟨hSelf, length_of_mem_slices j.permitted.1 (Nat.le_succ _) hBody⟩

theorem toInt_size (h : p ∈ j.pieces) : p.identity.size.toInt = p.body.length := by
  obtain ⟨⟨i, hp⟩, -, hLe⟩ := mem_pieces h
  have hBound := j.permitted.2
  have hLimit : defaultChunkSize = 268435456 := rfl
  rw [hp]
  exact Int64.toInt_ofNat_of_lt (by omega)

theorem length_identity (h : p ∈ j.pieces) : p.identity.length = p.body.length := by
  rw [ChunkIdentity.length, toInt_size h, Int.toNat_natCast]

theorem wellFormed_iff {c : ChunkIdentity} (h : c ∈ j.chunks) :
    wellFormed j.chunkSize c = !hasControl (base j.archive) := by
  obtain ⟨p, hp, rfl⟩ := mem_map.mp h
  obtain ⟨⟨i, hSelf⟩, hPos, hLe⟩ := mem_pieces hp
  have hName : p.identity.name = chunkName j.archive i := by rw [hSelf]; rfl
  have hDigest : p.identity.sha256 = sha256Hex p.body := by rw [hSelf]; rfl
  rw [wellFormed, hName, hDigest, safeRelativeName_chunkName j.named, validSHA256_sha256Hex, toInt_size hp]
  simp [hPos, hLe]

theorem nodup_names (h : j.Fits) : (j.chunks.map (·.name)).Nodup := by
  have hNames := @names_numbered (chunkName j.archive) 0 j.bodies
  rw [length_bodies] at hNames
  rw [chunks, map_map]
  have hNodup := (@nodup_numbers (chunkName j.archive) (fun _ _ => chunkName_injective) j.count).mpr h.1
  rwa [← hNames] at hNodup

theorem intact_identity {files : List (Bytes × Node)} {body : Bytes} (hp : p ∈ j.pieces) :
    Intact files p.identity body ↔
      files.lookup p.identity.name = some (.regular body) ∧ body.length = p.body.length ∧
      sha256Hex body = sha256Hex p.body := by
  obtain ⟨⟨i, hSelf⟩, -, -⟩ := mem_pieces hp
  have hDigest : p.identity.sha256 = sha256Hex p.body := by rw [hSelf]; rfl
  rw [Intact, length_identity hp, hDigest]

theorem intact_filesOf (h : j.Fits) : Forall₂ (Intact (filesOf j.pieces)) j.chunks j.bodies := by
  have hLookup (pieces : List Piece) (hNames : (pieces.map (·.identity.name)).Nodup) (p : Piece) (hp : p ∈ pieces) :
      (filesOf pieces).lookup p.identity.name = some (.regular p.body) := by
    induction pieces with
    | nil => cases hp
    | cons q pieces ih =>
      rw [map_cons, nodup_cons] at hNames
      rcases mem_cons.mp hp with rfl | hp
      · simp [filesOf]
      · have hOther : p.identity.name ≠ q.identity.name := by
          intro hEq
          exact hNames.1 (hEq ▸ mem_map_of_mem hp)
        rw [← ih hNames.2 hp]
        simp [filesOf, lookup_cons, beq_eq_false_iff_ne.mpr hOther]
  have hBodies : j.bodies = j.pieces.map (·.body) := (bodies_numbered 0 j.bodies).symm
  have hNames := nodup_names h
  rw [chunks, map_map] at hNames
  rw [hBodies, chunks, forall₂_map_left_iff, forall₂_map_right_iff, forall₂_same]
  intro p hp
  exact (intact_identity hp).mpr ⟨hLookup j.pieces hNames p hp, rfl, rfl⟩

theorem flatten_bodies : j.bodies.flatten = j.body := slices_flatten j.permitted.1 (Nat.le_succ _)

theorem map_length_chunks :
    ∃ last, 0 < last ∧ last ≤ j.chunkSize ∧
      j.chunks.map ChunkIdentity.length = replicate (j.count - 1) j.chunkSize ++ [last] := by
  obtain ⟨last, hPos, hLe, hMap⟩ := slices_lengths j.permitted.1 (Nat.le_succ _) j.nonempty
  refine ⟨last, hPos, hLe, ?_⟩
  have hLengths : j.chunks.map ChunkIdentity.length = j.pieces.map fun p => p.body.length := by
    rw [chunks, map_map]
    exact map_congr_left fun p hp => length_identity hp
  have hBodies : (j.pieces.map fun p => p.body.length) = j.bodies.map List.length := by
    rw [← bodies_numbered 0 j.bodies, map_map]
    rfl
  rw [hLengths, hBodies]
  exact hMap

theorem scan_checkChunk_of_mem (h : j.Fits) {ids : List ChunkIdentity} (hNonempty : ids ≠ [])
    (hMem : ∀ c ∈ ids, c ∈ j.chunks) :
    scan (checkChunk j.chunkSize) [] ids = .ok () ↔ hasControl (base j.archive) = false ∧ ids <+: j.chunks := by
  rw [scan_checkChunk]
  constructor
  · rintro ⟨hOrder, hForm, hNames⟩
    obtain ⟨c, hc⟩ := exists_mem_of_ne_nil ids hNonempty
    have hCount : j.chunks.length ≤ 2 ^ 32 := length_chunks.trans_le h.1
    have hSelf := hForm c hc
    rw [wellFormed_iff (hMem c hc)] at hSelf
    exact ⟨by simpa using hSelf, isPrefix_of_inOrder inOrder_chunks hCount hMem hOrder hNames⟩
  · rintro ⟨hControl, hFirst⟩
    refine ⟨inOrder_chunks.isPrefix hFirst, ?_, ?_⟩
    · intro c hc
      rw [wellFormed_iff (hMem c hc), hControl]
      rfl
    · exact (nodup_names h).sublist (hFirst.sublist.map _)

end Job

section Requests

variable {directory output : Path} {maxChunkSize : Nat} {ids : List ChunkIdentity} {d d' : Disk}

theorem reassemble_eq_ok (hPaths : rooted directory ∧ rooted output)
    (hSize : 0 < maxChunkSize ∧ maxChunkSize ≤ defaultChunkSize) (hOutput : d.output = none) :
    reassemble directory ids output maxChunkSize d = (.ok (), d') ↔
      ids ≠ [] ∧ nameable output = true ∧ scan (checkChunk maxChunkSize) [] ids = .ok () ∧
        ∃ bodies, List.Forall₂ (Intact (d.directory.getD [])) ids bodies ∧
        d' = { d with output := some bodies.flatten } := by
  by_cases hNil : ids = []
  · simp [reassemble, hNil]
  have hRequest : ¬ (!rooted directory ∨ !rooted output ∨ (maxChunkSize : Int) ≤ 0 ∨
      (defaultChunkSize : Int) < maxChunkSize ∨ ids.isEmpty) := by
    simp only [hPaths.1, hPaths.2, Bool.not_true, Bool.false_eq_true, List.isEmpty_iff, hNil, false_or, or_false]
    omega
  have hResult (result : Bytes) : reassembleLoop (d.directory.getD []) maxChunkSize [] ids [] = .ok result ↔ _ :=
    reassembleLoop_eq_ok
  simp only [List.nil_append] at hResult
  rw [reassemble, if_neg hRequest]
  cases hLoop : reassembleLoop (d.directory.getD []) maxChunkSize [] ids [] with
  | error t =>
    simp only [hLoop, reduceCtorEq, false_iff] at hResult
    simp only [Prod.mk.injEq, reduceCtorEq, false_and, false_iff]
    rintro ⟨-, -, hScan, bodies, hBodies, -⟩
    exact hResult bodies.flatten ⟨hScan, bodies, hBodies, rfl⟩
  | ok body =>
    simp only [hLoop, Except.ok.injEq] at hResult
    cases hName : nameable output with
    | false => simp
    | true =>
      simp only [hOutput, Option.isSome_none, Bool.not_true, Bool.false_eq_true, if_false, Prod.mk.injEq, true_and]
      constructor
      · rintro rfl
        obtain ⟨hScan, bodies, hBodies, hBody⟩ := (hResult body).mp rfl
        exact ⟨hNil, hScan, bodies, hBodies, by rw [hBody]⟩
      · rintro ⟨-, hScan, bodies, hBodies, rfl⟩
        rw [(hResult bodies.flatten).mpr ⟨hScan, bodies, hBodies, rfl⟩]

theorem reassemble_error {size : Int} (h : (reassemble directory ids output size d).1 ≠ .ok ()) :
    (reassemble directory ids output size d).2 = d := by
  rw [reassemble] at h ⊢
  split_ifs at h ⊢
  · rfl
  · split <;> rfl
  · split <;> rfl
  · split at h
    · rfl
    · exact absurd rfl h

namespace Job

variable {j : Job}

theorem reassemble_chunks (h : j.Fits) :
    reassemble j.directory j.chunks j.output j.chunkSize j.cutDisk =
    (.ok (), { j.cutDisk with output := some j.body }) ↔
      nameable j.output = true ∧ hasControl (base j.archive) = false := by
  rw [reassemble_eq_ok j.absolute.2 j.permitted rfl, scan_checkChunk_of_mem h chunks_ne_nil fun _ => id]
  constructor
  · rintro ⟨-, hName, ⟨hControl, -⟩, -⟩
    exact ⟨hName, hControl⟩
  · rintro ⟨hName, hControl⟩
    refine ⟨chunks_ne_nil, hName, ⟨hControl, prefix_rfl⟩, j.bodies, intact_filesOf h, ?_⟩
    rw [flatten_bodies]

theorem reassemble_some (h : j.Fits) {ids : List ChunkIdentity} {files : List (Bytes × Node)}
    (hMem : ∀ c ∈ ids, c ∈ j.chunks) :
    (reassemble j.directory ids j.output j.chunkSize { j.cutDisk with directory := some files }).1 = .ok () ↔
      nameable j.output = true ∧ hasControl (base j.archive) = false ∧ ids ≠ [] ∧ ids <+: j.chunks ∧
        ∀ c ∈ ids, ∃ body, Intact files c body := by
  have hOk (d' : Disk) :
      reassemble j.directory ids j.output j.chunkSize { j.cutDisk with directory := some files } = (.ok (), d') ↔ _ :=
    reassemble_eq_ok j.absolute.2 j.permitted rfl
  rw [← exists_bodies]
  constructor
  · intro hFirst
    obtain ⟨hNonempty, hName, hScan, bodies, hBodies, -⟩ := (hOk _).mp (Prod.ext hFirst rfl)
    obtain ⟨hControl, hPrefix⟩ := (scan_checkChunk_of_mem h hNonempty hMem).mp hScan
    exact ⟨hName, hControl, hNonempty, hPrefix, bodies, hBodies⟩
  · rintro ⟨hName, hControl, hNonempty, hPrefix, bodies, hBodies⟩
    have hScan := (scan_checkChunk_of_mem h hNonempty hMem).mpr ⟨hControl, hPrefix⟩
    rw [(hOk _).mpr ⟨hNonempty, hName, hScan, bodies, hBodies, rfl⟩]

end Job

end Requests

/-- Cutting succeeds if there is a number and a name for every chunk. The chunks give the archive
back if its name has no control character, under a name that a file can have. What else is put together is a first
part of the
chunks, each as it was stated; otherwise nothing is left. -/
theorem split_reassemble (j : Job) :
    ((∃ chunks d, split j.archive j.directory j.chunkSize j.start = (.ok chunks, d)) ↔ j.Fits) ∧
      ∀ chunks d, split j.archive j.directory j.chunkSize j.start = (.ok chunks, d) →
        (∃ last, 0 < last ∧ last ≤ j.chunkSize ∧
          chunks.map ChunkIdentity.length = replicate (j.count - 1) j.chunkSize ++ [last]) ∧
        (reassemble j.directory chunks j.output j.chunkSize d = (.ok (), { d with output := some j.body }) ↔
          nameable j.output = true ∧ hasControl (base j.archive) = false) ∧
        ∀ ids files, (∀ c ∈ ids, c ∈ chunks) →
          ((reassemble j.directory ids j.output j.chunkSize { d with directory := some files }).1 = .ok () ↔
            nameable j.output = true ∧ hasControl (base j.archive) = false ∧ ids ≠ [] ∧ ids <+: chunks ∧
              ∀ c ∈ ids, ∃ body, Intact files c body) ∧
          ((reassemble j.directory ids j.output j.chunkSize { d with directory := some files }).1 ≠ .ok () →
            (reassemble j.directory ids j.output j.chunkSize { d with directory := some files }).2 =
              { d with directory := some files }) := by
  constructor
  · constructor
    · rintro ⟨chunks, d, hSplit⟩
      exact (Job.split_eq_ok.mp hSplit).1
    · intro hFits
      exact ⟨_, _, Job.split_eq_ok.mpr ⟨hFits, rfl, rfl⟩⟩
  intro chunks d hSplit
  obtain ⟨hFits, rfl, rfl⟩ := Job.split_eq_ok.mp hSplit
  refine ⟨Job.map_length_chunks, ?_, ?_⟩
  · exact Job.reassemble_chunks hFits
  · intro ids files hMem
    exact ⟨Job.reassemble_some hFits hMem, reassemble_error⟩

def twoBytes (name : Bytes) (hNamed : Plain (base (slash :: name))) : Job where
  archive := slash :: name
  directory := lit "/chunks"
  output := lit "/output"
  chunkSize := 1
  body := [1, 2]
  absolute := ⟨rfl, by decide, by decide⟩
  named := hNamed
  nonempty := by decide
  permitted := by decide

theorem split_reassemble_kit :
    ∃ chunks d, split (lit "/kit") (lit "/chunks") 1 ⟨some (.regular [1, 2]), none, none⟩ = (.ok chunks, d) ∧
      reassemble (lit "/chunks") chunks (lit "/output") 1 d = (.ok (), { d with output := some [1, 2] }) := by
  obtain ⟨hSplit, hRest⟩ := split_reassemble (twoBytes (lit "kit") (by decide))
  obtain ⟨chunks, d, hOk⟩ := hSplit.mpr (by decide +kernel)
  exact ⟨chunks, d, hOk, (hRest chunks d hOk).2.1.mpr (by decide +kernel)⟩

/-- A name with a control character is given to chunks that are then refused, a long name leaves
no room for the number, and the first chunk is taken without the last one. -/
theorem split_refused_or_shortened :
    (∃ j : Job, split j.archive j.directory j.chunkSize j.start = (.ok j.chunks, j.cutDisk) ∧
      reassemble j.directory j.chunks j.output j.chunkSize j.cutDisk ≠
      (.ok (), { j.cutDisk with output := some j.body })) ∧
    (∃ j : Job, ∀ chunks d, split j.archive j.directory j.chunkSize j.start ≠ (.ok chunks, d)) ∧
    ∃ j : Job, split j.archive j.directory j.chunkSize j.start = (.ok j.chunks, j.cutDisk) ∧ j.chunks.length = 2 ∧
      (reassemble j.directory (j.chunks.take 1) j.output j.chunkSize j.cutDisk).1 = .ok () := by
  refine ⟨⟨twoBytes [107, 1] (by decide), ?_, ?_⟩, ⟨twoBytes (replicate 250 107) (by decide +kernel), ?_⟩,
    ⟨twoBytes (lit "kit") (by decide), ?_, ?_, ?_⟩⟩
  · exact Job.split_eq_ok.mpr ⟨by decide +kernel, rfl, rfl⟩
  · rw [ne_eq, Job.reassemble_chunks (by decide +kernel)]
    decide +kernel
  · intro chunks d hSplit
    exact absurd (Job.split_eq_ok.mp hSplit).1 (by decide +kernel)
  · exact Job.split_eq_ok.mpr ⟨by decide +kernel, rfl, rfl⟩
  · rw [Job.length_chunks]
    decide
  · have hFits : (twoBytes (lit "kit") (by decide)).Fits := by decide +kernel
    refine (Job.reassemble_some hFits fun c hc => mem_of_mem_take hc).mpr
      ⟨by decide +kernel, by decide +kernel, ?_, take_prefix 1 _, ?_⟩
    · intro hNil
      have hCount := congrArg List.length hNil
      rw [length_take, Job.length_chunks] at hCount
      exact absurd hCount (by decide)
    · intro c hc
      obtain ⟨i, hi, rfl⟩ := getElem_of_mem (mem_of_mem_take hc)
      exact ⟨_, (Job.intact_filesOf hFits).get hi (by simpa [← (Job.intact_filesOf hFits).length_eq] using hi)⟩

end Camp.HaulKit
