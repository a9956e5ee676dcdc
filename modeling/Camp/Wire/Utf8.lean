import Mathlib.Tactic

/-!
# Byte strings and their UTF-8 reading

A string is a list of bytes. Reading it yields symbols: a code point for each
well-formed sequence, and no code point for each byte that starts none. Text
is what is left when every such byte becomes the replacement character.
-/

namespace Wire.Utf8

open List

variable {n : Nat} {s : Bytes}
variable {cs : List Char} {b : UInt8}

abbrev Bytes := List UInt8

instance lawfulBEq_bytes : LawfulBEq Bytes := inferInstance

def replacement : Char := Char.ofNat 0xFFFD

def isTail (b : UInt8) : Bool := 0x80 ≤ b.toNat && b.toNat < 0xC0

/-- The range of the second byte of a three or four byte sequence: it excludes
overlong forms, surrogates and values above the last code point. -/
def secondOk (lead second : UInt8) : Bool :=
  let low := if lead.toNat = 0xE0 then 0xA0 else if lead.toNat = 0xF0 then 0x90 else 0x80
  let high := if lead.toNat = 0xED then 0xA0 else if lead.toNat = 0xF4 then 0x90 else 0xC0
  low ≤ second.toNat && second.toNat < high

/-- One symbol, with the bytes that follow it. A malformed sequence costs one byte. -/
def rune (lead : UInt8) (rest : Bytes) : Option Char × Bytes :=
  let n := lead.toNat
  if n < 0x80 then (some (Char.ofNat n), rest)
  else if 0xC2 ≤ n ∧ n < 0xE0 then
    match rest with
    | b :: tail =>
      if isTail b then (some (Char.ofNat (n % 32 * 64 + b.toNat % 64)), tail) else (none, rest)
    | [] => (none, rest)
  else if 0xE0 ≤ n ∧ n < 0xF0 then
    match rest with
    | b :: c :: tail =>
      if secondOk lead b && isTail c then
        (some (Char.ofNat (n % 16 * 4096 + b.toNat % 64 * 64 + c.toNat % 64)), tail)
      else (none, rest)
    | _ => (none, rest)
  else if 0xF0 ≤ n ∧ n < 0xF5 then
    match rest with
    | b :: c :: d :: tail =>
      if secondOk lead b && isTail c && isTail d then
        (some (Char.ofNat (n % 8 * 262144 + b.toNat % 64 * 4096 + c.toNat % 64 * 64 + d.toNat % 64)), tail)
      else (none, rest)
    | _ => (none, rest)
  else (none, rest)

def symbolsFuel : Nat → Bytes → List (Option Char)
  | 0, _ => []
  | _ + 1, [] => []
  | fuel + 1, lead :: rest => (rune lead rest).1 :: symbolsFuel fuel (rune lead rest).2

def symbols (s : Bytes) : List (Option Char) := symbolsFuel s.length s

def text (syms : List (Option Char)) : List Char := syms.map (·.getD replacement)

def encodeNat (n : Nat) : Bytes :=
  if n < 0x80 then [UInt8.ofNat n]
  else if n < 0x800 then [UInt8.ofNat (0xC0 + n / 64), UInt8.ofNat (0x80 + n % 64)]
  else if n < 0x10000 then
    [UInt8.ofNat (0xE0 + n / 4096), UInt8.ofNat (0x80 + n / 64 % 64), UInt8.ofNat (0x80 + n % 64)]
  else
    [UInt8.ofNat (0xF0 + n / 262144), UInt8.ofNat (0x80 + n / 4096 % 64),
      UInt8.ofNat (0x80 + n / 64 % 64), UInt8.ofNat (0x80 + n % 64)]

def encode (cs : List Char) : Bytes := cs.flatMap fun c => encodeNat c.toNat

/-- The bytes of a source literal. -/
def lit (s : String) : Bytes := encode s.toList

def sanitize (s : Bytes) : Bytes := encode (text (symbols s))

theorem char_range (c : Char) :
    c.toNat < 0xD800 ∨ (0xDFFF < c.toNat ∧ c.toNat < 0x110000) := c.valid

theorem toNat_ofNat_of_lt (h : n < 256) : (UInt8.ofNat n).toNat = n := by
  rw [UInt8.toNat_ofNat']
  omega

theorem toNat_charOfNat (h : n < 0xD800 ∨ (0xDFFF < n ∧ n < 0x110000)) : (Char.ofNat n).toNat = n := by
  have hValid : n.isValidChar := h
  rw [Char.ofNat, dif_pos hValid]
  rfl

theorem rune_one (h : n < 0x80) (rest : Bytes) : rune (UInt8.ofNat n) rest = (some (Char.ofNat n), rest) := by
  have hLead : (UInt8.ofNat n).toNat = n := toNat_ofNat_of_lt (by omega)
  simp [rune, hLead, h]

theorem rune_two (hLow : 0x80 ≤ n) (hHigh : n < 0x800) (rest : Bytes) :
    rune (UInt8.ofNat (0xC0 + n / 64)) (UInt8.ofNat (0x80 + n % 64) :: rest) =
      (some (Char.ofNat n), rest) := by
  have hLead := toNat_ofNat_of_lt (show 0xC0 + n / 64 < 256 by omega)
  have hTail := toNat_ofNat_of_lt (show 0x80 + n % 64 < 256 by omega)
  have hValue : (0xC0 + n / 64) % 32 * 64 + (0x80 + n % 64) % 64 = n := by omega
  have hOk : isTail (UInt8.ofNat (0x80 + n % 64)) = true := by
    rw [isTail, hTail, Bool.and_eq_true, decide_eq_true_iff, decide_eq_true_iff]
    omega
  rw [rune, hLead]
  rw [if_neg (by omega), if_pos (by omega)]
  simp only [hOk, if_true, hTail, hValue]

theorem rune_three (hLow : 0x800 ≤ n) (hHigh : n < 0x10000) (hScalar : n < 0xD800 ∨ 0xDFFF < n) (rest : Bytes) :
    rune (UInt8.ofNat (0xE0 + n / 4096))
      (UInt8.ofNat (0x80 + n / 64 % 64) :: UInt8.ofNat (0x80 + n % 64) :: rest) =
      (some (Char.ofNat n), rest) := by
  have hLead := toNat_ofNat_of_lt (show 0xE0 + n / 4096 < 256 by omega)
  have hSecond := toNat_ofNat_of_lt (show 0x80 + n / 64 % 64 < 256 by omega)
  have hTail := toNat_ofNat_of_lt (show 0x80 + n % 64 < 256 by omega)
  have hValue : (0xE0 + n / 4096) % 16 * 4096 + (0x80 + n / 64 % 64) % 64 * 64 +
      (0x80 + n % 64) % 64 = n := by omega
  have hOk : (secondOk (UInt8.ofNat (0xE0 + n / 4096)) (UInt8.ofNat (0x80 + n / 64 % 64)) &&
      isTail (UInt8.ofNat (0x80 + n % 64))) = true := by
    simp only [secondOk, isTail, hLead, hSecond, hTail, Bool.and_eq_true, decide_eq_true_iff]
    split_ifs <;> omega
  rw [rune, hLead]
  rw [if_neg (by omega), if_neg (by omega), if_pos (by omega)]
  simp only [hOk, if_true, hSecond, hTail, hValue]

theorem rune_four (hLow : 0x10000 ≤ n) (hHigh : n < 0x110000) (rest : Bytes) :
    rune (UInt8.ofNat (0xF0 + n / 262144))
      (UInt8.ofNat (0x80 + n / 4096 % 64) :: UInt8.ofNat (0x80 + n / 64 % 64) ::
        UInt8.ofNat (0x80 + n % 64) :: rest) = (some (Char.ofNat n), rest) := by
  have hLead := toNat_ofNat_of_lt (show 0xF0 + n / 262144 < 256 by omega)
  have hSecond := toNat_ofNat_of_lt (show 0x80 + n / 4096 % 64 < 256 by omega)
  have hThird := toNat_ofNat_of_lt (show 0x80 + n / 64 % 64 < 256 by omega)
  have hTail := toNat_ofNat_of_lt (show 0x80 + n % 64 < 256 by omega)
  have hValue : (0xF0 + n / 262144) % 8 * 262144 + (0x80 + n / 4096 % 64) % 64 * 4096 +
      (0x80 + n / 64 % 64) % 64 * 64 + (0x80 + n % 64) % 64 = n := by omega
  have hOk : (secondOk (UInt8.ofNat (0xF0 + n / 262144)) (UInt8.ofNat (0x80 + n / 4096 % 64)) &&
      isTail (UInt8.ofNat (0x80 + n / 64 % 64)) && isTail (UInt8.ofNat (0x80 + n % 64))) = true := by
    simp only [secondOk, isTail, hLead, hSecond, hThird, hTail, Bool.and_eq_true, decide_eq_true_iff]
    split_ifs <;> omega
  rw [rune, hLead]
  rw [if_neg (by omega), if_neg (by omega), if_neg (by omega), if_pos (by omega)]
  simp only [hOk, if_true, hSecond, hThird, hTail, hValue]

theorem rune_encodeChar (c : Char) (rest : Bytes) :
    ∃ lead tail, encodeNat c.toNat ++ rest = lead :: tail ∧ rune lead tail = (some c, rest) := by
  have hRange := char_range c
  have hChar : Char.ofNat c.toNat = c := Char.ofNat_toNat c
  unfold encodeNat
  split_ifs with hOne hTwo hThree
  · exact ⟨_, _, rfl, (rune_one hOne rest).trans (by rw [hChar])⟩
  · exact ⟨_, _, rfl, (rune_two (Nat.le_of_not_lt hOne) hTwo rest).trans (by rw [hChar])⟩
  · exact ⟨_, _, rfl, (rune_three (Nat.le_of_not_lt hTwo) hThree (by omega) rest).trans (by rw [hChar])⟩
  · exact ⟨_, _, rfl, (rune_four (Nat.le_of_not_lt hThree) (by omega) rest).trans (by rw [hChar])⟩

theorem encode_of_rune {lead : UInt8} {rest tail : Bytes} {c : Char}
    (h : rune lead rest = (some c, tail)) : lead :: rest = encodeNat c.toNat ++ tail := by
  have byte (m : Nat) (b : UInt8) (hm : m = b.toNat) : UInt8.ofNat m = b := by
    rw [hm, UInt8.ofNat_toNat]
  have hLead := lead.toNat_lt
  unfold rune at h
  dsimp only at h
  split_ifs at h with hOne hTwo hThree hFour
  · obtain ⟨rfl, rfl⟩ : Char.ofNat lead.toNat = c ∧ rest = tail := by simpa using h
    rw [toNat_charOfNat (by omega), encodeNat, if_pos hOne, byte _ lead rfl]
    rfl
  · split at h
    · rename_i b bs
      have hb := b.toNat_lt
      split_ifs at h with hOk
      · obtain ⟨rfl, rfl⟩ : Char.ofNat _ = c ∧ bs = tail := by simpa using h
        simp only [isTail, Bool.and_eq_true, decide_eq_true_iff] at hOk
        rw [toNat_charOfNat (by omega), encodeNat, if_neg (by omega), if_pos (by omega),
          byte _ lead (by omega), byte _ b (by omega)]
        rfl
      · cases h
    · cases h
  · split at h
    · rename_i b d bs
      have hb := b.toNat_lt
      have hd := d.toNat_lt
      split_ifs at h with hOk
      · obtain ⟨rfl, rfl⟩ : Char.ofNat _ = c ∧ bs = tail := by simpa using h
        simp only [secondOk, isTail, Bool.and_eq_true, decide_eq_true_iff] at hOk
        have hRange : lead.toNat % 16 * 4096 + b.toNat % 64 * 64 + d.toNat % 64 < 0xD800 ∨
            0xDFFF < lead.toNat % 16 * 4096 + b.toNat % 64 * 64 + d.toNat % 64 := by
          split_ifs at hOk <;> omega
        have hLow : 0x800 ≤ lead.toNat % 16 * 4096 + b.toNat % 64 * 64 + d.toNat % 64 := by
          split_ifs at hOk <;> omega
        have hSecond : 0x80 ≤ b.toNat ∧ b.toNat < 0xC0 := by split_ifs at hOk <;> omega
        rw [toNat_charOfNat (by omega), encodeNat, if_neg (by omega), if_neg (by omega), if_pos (by omega),
          byte _ lead (by omega), byte _ b (by omega), byte _ d (by omega)]
        rfl
      · cases h
    · cases h
  · split at h
    · rename_i b d e bs
      have hb := b.toNat_lt
      split_ifs at h with hOk
      · obtain ⟨rfl, rfl⟩ : Char.ofNat _ = c ∧ bs = tail := by simpa using h
        simp only [secondOk, isTail, Bool.and_eq_true, decide_eq_true_iff] at hOk
        have hLow : 0x10000 ≤ lead.toNat % 8 * 262144 + b.toNat % 64 * 4096 +
            d.toNat % 64 * 64 + e.toNat % 64 := by split_ifs at hOk <;> omega
        have hHigh : lead.toNat % 8 * 262144 + b.toNat % 64 * 4096 +
            d.toNat % 64 * 64 + e.toNat % 64 < 0x110000 := by split_ifs at hOk <;> omega
        have hSecond : 0x80 ≤ b.toNat ∧ b.toNat < 0xC0 := by split_ifs at hOk <;> omega
        rw [toNat_charOfNat (by omega), encodeNat, if_neg (by omega), if_neg (by omega), if_neg (by omega),
          byte _ lead (by omega), byte _ b (by omega), byte _ d (by omega), byte _ e (by omega)]
        rfl
      · cases h
    · cases h
  · cases h

theorem encodeNat_length_pos (n : Nat) : 0 < (encodeNat n).length := by
  unfold encodeNat
  split_ifs <;> simp

theorem symbolsFuel_encode (cs : List Char) (fuel : Nat) (hFuel : (encode cs).length ≤ fuel) :
    symbolsFuel fuel (encode cs) = cs.map some := by
  induction cs generalizing fuel with
  | nil => cases fuel <;> rfl
  | cons c cs ih =>
    obtain ⟨lead, tail, hSplit, hRune⟩ := rune_encodeChar c (encode cs)
    have hEncode : encode (c :: cs) = lead :: tail := hSplit
    have hLength := congrArg List.length hSplit
    have hPositive := encodeNat_length_pos c.toNat
    rw [hEncode] at hFuel ⊢
    simp only [length_append, length_cons] at hLength hFuel
    cases fuel with
    | zero => omega
    | succ fuel =>
      simp only [symbolsFuel, hRune, map_cons]
      rw [ih fuel (by omega)]

@[simp] theorem symbols_encode (cs : List Char) : symbols (encode cs) = cs.map some :=
  symbolsFuel_encode cs _ le_rfl

theorem rune_rest_length (lead : UInt8) (rest : Bytes) : (rune lead rest).2.length ≤ rest.length := by
  unfold rune
  dsimp only
  split_ifs
  · exact le_rfl
  · split
    · split_ifs <;> simp
    · exact le_rfl
  · split
    · split_ifs <;> simp
      omega
    · exact le_rfl
  · split
    · split_ifs <;> simp
      omega
    · exact le_rfl
  · exact le_rfl

theorem eq_encode_of_symbolsFuel (fuel : Nat) (s : Bytes) (cs : List Char) (hFuel : s.length ≤ fuel)
    (h : symbolsFuel fuel s = cs.map some) : s = encode cs := by
  induction fuel generalizing s cs with
  | zero =>
    obtain rfl : s = [] := length_eq_zero_iff.mp (by omega)
    cases cs with
    | nil => rfl
    | cons c cs => cases h
  | succ fuel ih =>
    cases s with
    | nil =>
      cases cs with
      | nil => rfl
      | cons c cs => cases h
    | cons lead rest =>
      cases cs with
      | nil => cases h
      | cons c cs =>
        simp only [symbolsFuel, map_cons, List.cons.injEq] at h
        have hRest := rune_rest_length lead rest
        simp only [length_cons] at hFuel
        have hTail := ih (rune lead rest).2 cs (by omega) h.2
        have hRune : rune lead rest = (some c, (rune lead rest).2) := Prod.ext h.1 rfl
        rw [encode_of_rune hRune, hTail]
        rfl

theorem eq_encode_of_symbols (h : symbols s = cs.map some) :
    s = encode cs := eq_encode_of_symbolsFuel _ s cs le_rfl h

@[simp] theorem text_map_some (cs : List Char) : text (cs.map some) = cs := by
  simp [text]

theorem symbols_eq_map_some (h : (symbols s).all Option.isSome = true) : symbols s = (text (symbols s)).map some := by
  rw [text, map_map]
  refine (map_id _).symm.trans (map_congr_left fun symbol hSymbol => ?_)
  obtain ⟨c, rfl⟩ := Option.isSome_iff_exists.mp (all_eq_true.mp h symbol hSymbol)
  rfl

theorem encode_injective : Function.Injective encode := by
  intro a b h
  have hSymbols := congrArg (fun s => text (symbols s)) h
  simpa using hSymbols

@[simp] theorem symbols_sanitize (s : Bytes) : symbols (sanitize s) = (text (symbols s)).map some :=
  symbols_encode _

@[simp] theorem sanitize_sanitize (s : Bytes) : sanitize (sanitize s) = sanitize s := by
  rw [sanitize, symbols_sanitize, text_map_some, sanitize]

@[simp] theorem sanitize_encode (cs : List Char) : sanitize (encode cs) = encode cs := by
  rw [sanitize, symbols_encode, text_map_some]

theorem sanitize_eq_nil : sanitize s = [] ↔ s = [] := by
  constructor
  · intro h
    cases s with
    | nil => rfl
    | cons lead rest =>
      have hPos := encodeNat_length_pos ((rune lead rest).1.getD replacement).toNat
      simp only [sanitize, symbols, length_cons, symbolsFuel, text, map_cons, encode,
        flatMap_cons, append_eq_nil_iff] at h
      rw [h.1] at hPos
      cases hPos
  · rintro rfl
    rfl

@[simp] theorem encode_append (a b : List Char) : encode (a ++ b) = encode a ++ encode b :=
  flatMap_append

theorem eq_sanitize_of_symbols {t : Bytes} (h : symbols s = symbols (sanitize t)) : s = sanitize t :=
  eq_encode_of_symbols (h.trans (symbols_sanitize t))

theorem encode_ascii (h : ∀ b ∈ s, b.toNat < 0x80) : encode (s.map fun b => Char.ofNat b.toNat) = s := by
  induction s with
  | nil => rfl
  | cons b s ih =>
    have hb : b.toNat < 0x80 := h b mem_cons_self
    have hHead : encodeNat (Char.ofNat b.toNat).toNat = [b] := by
      rw [toNat_charOfNat (.inl (by omega)), encodeNat, if_pos hb, UInt8.ofNat_toNat]
    have hTail := ih fun b' hMem => h b' (mem_cons_of_mem _ hMem)
    rw [map_cons, encode, flatMap_cons, hHead, ← encode, hTail]
    rfl

theorem sanitize_ascii (h : ∀ b ∈ s, b.toNat < 0x80) : sanitize s = s := by
  rw [← encode_ascii h, sanitize_encode]

theorem ascii_mem_encodeNat (hb : b.toNat < 0x80) (hRange : n < 0x110000) (h : b ∈ encodeNat n) : n = b.toNat := by
  have byte (m : Nat) (hm : m < 256) (hEq : b = UInt8.ofNat m) : m = b.toNat := by
    rw [hEq, toNat_ofNat_of_lt hm]
  unfold encodeNat at h
  split_ifs at h <;> simp only [mem_cons, not_mem_nil, or_false] at h
  · exact byte n (by omega) h
  · rcases h with h | h <;> have := byte _ (by omega) h <;> omega
  · rcases h with h | h | h <;> have := byte _ (by omega) h <;> omega
  · rcases h with h | h | h | h <;> have := byte _ (by omega) h <;> omega

theorem ascii_mem_encode (hb : b.toNat < 0x80) (h : b ∈ encode cs) : Char.ofNat b.toNat ∈ cs := by
  obtain ⟨c, hc, hByte⟩ := mem_flatMap.mp h
  have hRange := char_range c
  have hNat := ascii_mem_encodeNat hb (by omega) hByte
  rwa [← hNat, Char.ofNat_toNat]

theorem ascii_take_encode (n : Nat) (cs : List Char) :
    (∀ b ∈ (encode cs).take n, b.toNat < 0x80) ↔ ∀ c ∈ cs.take n, c.toNat < 0x80 := by
  induction cs generalizing n with
  | nil => simp [encode]
  | cons c cs ih =>
    cases n with
    | zero => simp
    | succ n =>
      rw [encode, flatMap_cons, ← encode, take_succ_cons, forall_mem_cons]
      by_cases hc : c.toNat < 0x80
      · have hOne : (UInt8.ofNat c.toNat).toNat < 0x80 := by rwa [toNat_ofNat_of_lt (by omega)]
        rw [encodeNat, if_pos hc, singleton_append, take_succ_cons, forall_mem_cons, ih]
        exact ⟨fun h => ⟨hc, h.2⟩, fun h => ⟨hOne, h.2⟩⟩
      · have hRange := char_range c
        rcases hBytes : encodeNat c.toNat with _ | ⟨b, rest⟩
        · exact absurd (encodeNat_length_pos c.toNat) (by simp [hBytes])
        · have hb : ¬ b.toNat < 0x80 := fun hb => by
            have hNat := ascii_mem_encodeNat hb (by omega) (hBytes ▸ mem_cons_self)
            omega
          rw [cons_append, take_succ_cons, forall_mem_cons]
          exact ⟨fun h => absurd h.1 hb, fun h => absurd h.1 hc⟩

end Wire.Utf8
