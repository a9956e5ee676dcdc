import Camp.Wire.Utf8

/-!
# ASCII in byte strings

An ASCII byte is a symbol of its own, wherever it stands. Making a string text keeps its
ASCII bytes in their places, and a front that is text stays as it is.
-/

namespace Wire.Utf8

open List

def Breaks : Bytes → Prop
  | [] => True
  | b :: _ => isTail b = false

theorem isTail_of_secondOk {lead second : UInt8} (h : secondOk lead second) : isTail second := by
  unfold secondOk at h
  unfold isTail
  simp only [Bool.and_eq_true, decide_eq_true_eq] at h ⊢
  split_ifs at h <;> omega

theorem rune_append {t : Bytes} (h : Breaks t) (lead : UInt8) (rest : Bytes) :
    rune lead (rest ++ t) = ((rune lead rest).1, (rune lead rest).2 ++ t) := by
  have hSecond (b : UInt8) (hb : isTail b = false) : secondOk lead b = false := by
    by_contra hOk
    rw [Bool.not_eq_false] at hOk
    rw [isTail_of_secondOk hOk] at hb
    cases hb
  unfold rune
  dsimp only
  split_ifs with h₁ h₂ h₃ h₄
  · rfl
  · rcases rest with _ | ⟨b, rest⟩
    · rcases t with _ | ⟨b, t⟩
      · rfl
      · simp only [Breaks] at h
        simp [h]
    · simp only [cons_append]
      split_ifs <;> rfl
  · rcases rest with _ | ⟨b, _ | ⟨c, rest⟩⟩
    · rcases t with _ | ⟨b, _ | ⟨c, t⟩⟩
      · rfl
      · rfl
      · simp [hSecond b h]
    · rcases t with _ | ⟨c, t⟩
      · rfl
      · simp only [Breaks] at h
        simp [h]
    · simp only [cons_append]
      split_ifs <;> rfl
  · rcases rest with _ | ⟨b, _ | ⟨c, _ | ⟨d, rest⟩⟩⟩
    · rcases t with _ | ⟨b, _ | ⟨c, _ | ⟨d, t⟩⟩⟩
      · rfl
      · rfl
      · rfl
      · simp [hSecond b h]
    · rcases t with _ | ⟨c, _ | ⟨d, t⟩⟩
      · rfl
      · rfl
      · simp only [Breaks] at h
        simp [h]
    · rcases t with _ | ⟨d, t⟩
      · rfl
      · simp only [Breaks] at h
        simp [h]
    · simp only [cons_append]
      split_ifs <;> rfl
  · rfl

theorem symbolsFuel_of_le {fuel : Nat} {s : Bytes} (h : s.length ≤ fuel) : symbolsFuel fuel s = symbols s := by
  unfold symbols
  induction fuel using Nat.strong_induction_on generalizing s with
  | _ fuel ih =>
    rcases s with _ | ⟨lead, rest⟩
    · cases fuel <;> rfl
    · rcases fuel with _ | fuel
      · simp at h
      · have hRest := rune_rest_length lead rest
        simp only [length_cons] at h ⊢
        rw [symbolsFuel, symbolsFuel, ih fuel (by omega) (by omega),
          ← ih rest.length (by omega) hRest]

theorem symbols_cons (lead : UInt8) (rest : Bytes) :
    symbols (lead :: rest) = (rune lead rest).1 :: symbols (rune lead rest).2 := by
  unfold symbols
  rw [length_cons, symbolsFuel, symbolsFuel_of_le (rune_rest_length lead rest)]
  rfl

theorem symbols_append {s t : Bytes} (h : Breaks t) : symbols (s ++ t) = symbols s ++ symbols t := by
  induction hLength : s.length using Nat.strong_induction_on generalizing s with
  | _ n ih =>
    rcases s with _ | ⟨lead, rest⟩
    · rfl
    · have hRest := rune_rest_length lead rest
      rw [length_cons] at hLength
      rw [cons_append, symbols_cons, symbols_cons, rune_append h]
      rw [ih _ (by omega) rfl]
      rfl

theorem rune_ascii {b : UInt8} (h : b.toNat < 0x80) (rest : Bytes) :
    rune b rest = (some (Char.ofNat b.toNat), rest) := by
  unfold rune
  rw [if_pos h]

section Numerals

variable {n : Nat}

def numeral (n : Nat) : Bytes := (Nat.toDigits 10 n).map fun c => UInt8.ofNat c.toNat

def readNumeral (s : Bytes) : Nat := Nat.ofDigitChars 10 (s.map fun b => Char.ofNat b.toNat) 0

theorem digit_of_mem_toDigits {c : Char} (h : c ∈ Nat.toDigits 10 n) : 48 ≤ c.toNat ∧ c.toNat ≤ 57 := by
  have hDigit := Nat.isDigit_of_mem_toDigits (by omega) (by omega) h
  simp only [Char.isDigit, Bool.and_eq_true, decide_eq_true_eq] at hDigit
  exact ⟨hDigit.1, hDigit.2⟩

theorem digit_of_mem_numeral {b : UInt8} (h : b ∈ numeral n) : 48 ≤ b.toNat ∧ b.toNat ≤ 57 := by
  obtain ⟨c, hc, rfl⟩ := mem_map.mp h
  have hDigit := digit_of_mem_toDigits hc
  rwa [toNat_ofNat_of_lt (by omega)]

theorem numeral_ne_nil (n : Nat) : numeral n ≠ [] := by
  unfold numeral
  simp [Nat.toDigits_ne_nil]

theorem readNumeral_numeral (n : Nat) : readNumeral (numeral n) = n := by
  have hBack : ∀ c ∈ Nat.toDigits 10 n, Char.ofNat (UInt8.ofNat c.toNat).toNat = c := by
    intro c hc
    have hDigit := digit_of_mem_toDigits hc
    rw [toNat_ofNat_of_lt (by omega), Char.ofNat_toNat]
  have hDigits : (numeral n).map (fun b => Char.ofNat b.toNat) = Nat.toDigits 10 n := by
    rw [numeral, map_map]
    exact (map_congr_left hBack).trans (map_id _)
  rw [readNumeral, hDigits]
  simp [Nat.ofDigitChars_toDigits]

theorem numeral_injective {m : Nat} (h : numeral m = numeral n) : m = n := by
  rw [← readNumeral_numeral m, h, readNumeral_numeral]

end Numerals

end Wire.Utf8
