import Camp.Wire.JsonRoundTrip

/-!
# How long a document is

An escape takes six bytes at most, so a string grows to six times its length and its quotes. A
string that holds arbitrary bytes is made valid first, and cut where a character ends.
-/

namespace Wire

namespace Utf8

def valid (s : Bytes) : Bool := (symbols s).all Option.isSome

theorem exists_encode_of_valid {s : Bytes} (h : valid s = true) : ∃ cs, s = encode cs :=
  ⟨text (symbols s), eq_encode_of_symbols (symbols_eq_map_some h)⟩

/-- One replacement character for each run of bytes that are no character. -/
def validText (run : Bool) : List (Option Char) → List Char
  | [] => []
  | some c :: rest => c :: validText false rest
  | none :: rest => if run then validText true rest else replacement :: validText true rest

/-- Bytes are taken off the end until what is left is valid. -/
def trimInvalid : Nat → Bytes → Bytes
  | 0, s => s
  | fuel + 1, s => if valid s then s else trimInvalid fuel s.dropLast

theorem trimInvalid_length (fuel : Nat) (s : Bytes) : (trimInvalid fuel s).length ≤ s.length := by
  induction fuel generalizing s with
  | zero => exact le_rfl
  | succ fuel ih =>
    rw [trimInvalid]
    split_ifs
    · exact le_rfl
    · have hShorter := ih s.dropLast
      rw [List.length_dropLast] at hShorter
      omega

theorem trimInvalid_valid (fuel : Nat) (s : Bytes) (hFuel : s.length ≤ fuel) : valid (trimInvalid fuel s) = true := by
  induction fuel generalizing s with
  | zero =>
    rw [List.length_eq_zero_iff.mp (Nat.le_zero.mp hFuel)]
    rfl
  | succ fuel ih =>
    rw [trimInvalid]
    split_ifs with h
    · exact h
    · exact ih s.dropLast (by rw [List.length_dropLast]; omega)

theorem length_le_encode (cs : List Char) : cs.length ≤ (encode cs).length := by
  induction cs with
  | nil => exact Nat.zero_le _
  | cons c cs ih =>
    have hFirst := encodeNat_length_pos c.toNat
    have hCons : encode (c :: cs) = encodeNat c.toNat ++ encode cs := List.flatMap_cons
    rw [hCons, List.length_append, List.length_cons]
    omega

end Utf8

namespace Json

open Utf8 List

theorem encode_length_hexDigit : ∀ n < 16, (encodeNat (hexDigit n).toNat).length = 1 := by decide

theorem encode_hexEscape_length {n : Nat} (h : n < 0x80) :
    (encode ['\\', 'u', '0', '0', hexDigit (n / 16), hexDigit (n % 16)]).length = 6 := by
  have hHigh := encode_length_hexDigit (n / 16) (by omega)
  have hLow := encode_length_hexDigit (n % 16) (by omega)
  have hStart : (encode ['\\', 'u', '0', '0']).length = 4 := by decide
  have hSplit : encode ['\\', 'u', '0', '0', hexDigit (n / 16), hexDigit (n % 16)] =
      encode ['\\', 'u', '0', '0'] ++ (encodeNat (hexDigit (n / 16)).toNat ++ encodeNat (hexDigit (n % 16)).toNat) := by
    simp only [encode, flatMap_cons, flatMap_nil, append_assoc, append_nil]
  rw [hSplit, length_append, length_append, hStart, hHigh, hLow]

theorem encode_escape_length (c : Char) : (encode (escape (some c))).length ≤ 6 * (encodeNat c.toNat).length := by
  have hPos := encodeNat_length_pos c.toNat
  have hFixed (written : List Char) (h : (encode written).length ≤ 6) :
      (encode written).length ≤ 6 * (encodeNat c.toNat).length := by omega
  unfold escape
  dsimp only
  -- The seven characters with an escape of two characters.
  iterate 7
    split
    · exact hFixed _ (by decide)
  split
  · rename_i hControl
    refine hFixed _ (encode_hexEscape_length ?_).le
    rcases hControl with h | rfl | rfl | rfl
    · omega
    all_goals decide
  iterate 2
    split
    · exact hFixed _ (by decide)
  simp only [encode, flatMap_singleton]
  omega

theorem encode_quote_length (syms : List (Option Char)) :
    (encode (quote syms)).length = (encode (syms.flatMap escape)).length + 2 := by
  have hCons : encode (quote syms) = encodeNat 34 ++ encode (syms.flatMap escape ++ ['"']) := flatMap_cons
  have hEnds : (encodeNat 34).length = 1 ∧ (encode ['"']).length = 1 := by decide
  rw [hCons, encode_append, length_append, length_append, hEnds.1, hEnds.2]
  omega

theorem toBytes_str_length_le (cs : List Char) :
    (toBytes (.str (cs.map some))).length ≤ 6 * (encode cs).length + 2 := by
  rw [toBytes, render, encode_quote_length]
  suffices h : (encode ((cs.map some).flatMap escape)).length ≤ 6 * (encode cs).length by omega
  induction cs with
  | nil => exact le_rfl
  | cons c cs ih =>
    have hFirst := encode_escape_length c
    have hCons : encode (c :: cs) = encodeNat c.toNat ++ encode cs := flatMap_cons
    rw [map_cons, flatMap_cons, encode_append, hCons, length_append, length_append]
    omega

theorem length_le_toBytes_str (syms : List (Option Char)) : syms.length ≤ (toBytes (.str syms)).length := by
  have hEscapes : syms.length ≤ (syms.flatMap escape).length := by
    induction syms with
    | nil => exact le_rfl
    | cons symbol syms ih =>
      have hFirst := escape_length_pos symbol
      rw [flatMap_cons, length_append, length_cons]
      omega
  have hBytes := length_le_encode (syms.flatMap escape)
  rw [toBytes, render, encode_quote_length]
  omega

def memberLength (m : List (Option Char) × Json) : Nat := (encode (quote m.1)).length + (toBytes m.2).length + 2

theorem encode_renderMember_length (m : List (Option Char) × Json) :
    (encode (renderMember m)).length + 1 = memberLength m := by
  obtain ⟨name, j⟩ := m
  have hColon : encode (':' :: render j) = 58 :: encode (render j) := rfl
  rw [renderMember, encode_append, hColon, length_append, length_cons, memberLength, toBytes]
  dsimp only
  omega

theorem encode_renderMembers_length (ms : List (List (Option Char) × Json)) :
    (encode (renderMembers ms)).length = (ms.map memberLength).sum + 1 := by
  induction ms with
  | nil => rfl
  | cons m ms ih =>
    have hComma : encode (',' :: (renderMember m ++ renderMembers ms)) = 44 ::
        encode (renderMember m ++ renderMembers ms) := rfl
    have hMember := encode_renderMember_length m
    rw [renderMembers, hComma, encode_append, length_cons, length_append, ih, map_cons, sum_cons]
    omega

theorem toBytes_obj_length (m : List (Option Char) × Json) (ms : List (List (Option Char) × Json)) :
    (toBytes (.obj (m :: ms))).length = ((m :: ms).map memberLength).sum + 1 := by
  have hBrace : encode ('{' :: (renderMember m ++ renderMembers ms)) = 123 ::
      encode (renderMember m ++ renderMembers ms) := rfl
  have hMember := encode_renderMember_length m
  rw [toBytes, render, hBrace, encode_append, length_cons, length_append,
    encode_renderMembers_length, map_cons,
    sum_cons]
  omega

end Json

end Wire
