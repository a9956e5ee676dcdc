import Camp.Wire.Utf8

/-!
# SHA-256

The digest of FIPS 180-4 and its lowercase hexadecimal text. A word is a number
below `2 ^ 32`.
-/

namespace Wire.Sha256

open Utf8

/-- The words that a round adds: the fractional parts of the cube roots of the
first 64 primes. -/
def constants : List Nat :=
  [0x428a2f98, 0x71374491, 0xb5c0fbcf, 0xe9b5dba5, 0x3956c25b, 0x59f111f1, 0x923f82a4, 0xab1c5ed5,
   0xd807aa98, 0x12835b01, 0x243185be, 0x550c7dc3, 0x72be5d74, 0x80deb1fe, 0x9bdc06a7, 0xc19bf174,
   0xe49b69c1, 0xefbe4786, 0x0fc19dc6, 0x240ca1cc, 0x2de92c6f, 0x4a7484aa, 0x5cb0a9dc, 0x76f988da,
   0x983e5152, 0xa831c66d, 0xb00327c8, 0xbf597fc7, 0xc6e00bf3, 0xd5a79147, 0x06ca6351, 0x14292967,
   0x27b70a85, 0x2e1b2138, 0x4d2c6dfc, 0x53380d13, 0x650a7354, 0x766a0abb, 0x81c2c92e, 0x92722c85,
   0xa2bfe8a1, 0xa81a664b, 0xc24b8b70, 0xc76c51a3, 0xd192e819, 0xd6990624, 0xf40e3585, 0x106aa070,
   0x19a4c116, 0x1e376c08, 0x2748774c, 0x34b0bcb5, 0x391c0cb3, 0x4ed8aa4a, 0x5b9cca4f, 0x682e6ff3,
   0x748f82ee, 0x78a5636f, 0x84c87814, 0x8cc70208, 0x90befffa, 0xa4506ceb, 0xbef9a3f7, 0xc67178f2]

structure State where
  a : Nat
  b : Nat
  c : Nat
  d : Nat
  e : Nat
  f : Nat
  g : Nat
  h : Nat

def State.initial : State :=
  ⟨0x6a09e667, 0xbb67ae85, 0x3c6ef372, 0xa54ff53a, 0x510e527f, 0x9b05688c, 0x1f83d9ab, 0x5be0cd19⟩

def sum (x y : Nat) : Nat := (x + y) % 4294967296

def rotr (x n : Nat) : Nat := x >>> n ||| x <<< (32 - n) % 4294967296

def State.add (s t : State) : State :=
  ⟨sum s.a t.a, sum s.b t.b, sum s.c t.c, sum s.d t.d, sum s.e t.e, sum s.f t.f, sum s.g t.g,
    sum s.h t.h⟩

def round (s : State) (constant word : Nat) : State :=
  let t₁ := (s.h + (rotr s.e 6 ^^^ rotr s.e 11 ^^^ rotr s.e 25) +
    ((s.e &&& s.f) ^^^ ((4294967295 ^^^ s.e) &&& s.g)) + constant + word) % 4294967296
  let t₂ := (rotr s.a 2 ^^^ rotr s.a 13 ^^^ rotr s.a 22) +
    ((s.a &&& s.b) ^^^ (s.a &&& s.c) ^^^ (s.b &&& s.c))
  ⟨sum t₁ t₂, s.a, s.b, s.c, sum s.d t₁, s.e, s.f, s.g⟩

def following (w : List Nat) : Nat :=
  let early := w.getD 1 0
  let late := w.getD 14 0
  ((rotr late 17 ^^^ rotr late 19 ^^^ late >>> 10) + w.getD 9 0 +
    (rotr early 7 ^^^ rotr early 18 ^^^ early >>> 3) + w.getD 0 0) % 4294967296

/-- A round for each constant; the schedule is a window of sixteen words. -/
def rounds : List Nat → List Nat → State → State
  | [], _, s => s
  | constant :: rest, w, s =>
    rounds rest (w.tail ++ [following w]) (round s constant (w.headD 0))

def compress (s : State) (block : List Nat) : State := s.add (rounds constants block s)

def bigEndian (n width : Nat) : Bytes :=
  (List.range width).reverse.map fun i => UInt8.ofNat (n / 256 ^ i % 256)

def pad (m : Bytes) : Bytes :=
  m ++ 0x80 :: List.replicate ((119 - m.length % 64) % 64) 0 ++ bigEndian (m.length * 8) 8

def words : Bytes → List Nat
  | a :: b :: c :: d :: rest =>
    (((a.toNat * 256 + b.toNat) * 256 + c.toNat) * 256 + d.toNat) :: words rest
  | _ => []

def blocks : Nat → List Nat → State → State
  | 0, _, s => s
  | n + 1, w, s => blocks n (w.drop 16) (compress s (w.take 16))

def digest (m : Bytes) : Bytes :=
  let s := blocks ((pad m).length / 64) (words (pad m)) .initial
  [s.a, s.b, s.c, s.d, s.e, s.f, s.g, s.h].flatMap fun w => bigEndian w 4

def hexDigit (n : Nat) : UInt8 := UInt8.ofNat (if n < 10 then 48 + n else 87 + n)

def hexText (m : Bytes) : Bytes :=
  m.flatMap fun b => [hexDigit (b.toNat / 16), hexDigit (b.toNat % 16)]

end Wire.Sha256

namespace Wire

open Utf8

theorem Sha256.digit_of_mem_hexText {m : Bytes} {b : UInt8} (h : b ∈ Sha256.hexText m) :
    ∃ n < 16, b = Sha256.hexDigit n := by
  obtain ⟨a, -, hDigits⟩ := List.mem_flatMap.mp h
  have ha := a.toNat_lt
  rcases List.mem_pair.mp hDigits with rfl | rfl
  · exact ⟨_, by omega, rfl⟩
  · exact ⟨_, by omega, rfl⟩

theorem Sha256.length_hexText (m : Bytes) : (Sha256.hexText m).length = 2 * m.length := by
  unfold Sha256.hexText
  rw [List.length_flatMap]
  simp [Nat.mul_comm]

def sha256Hex (m : Bytes) : Bytes := Sha256.hexText (Sha256.digest m)

theorem sha256Hex_ne_nil (m : Bytes) : sha256Hex m ≠ [] := List.cons_ne_nil _ _

example : sha256Hex (Utf8.lit "abc") =
    Utf8.lit "ba7816bf8f01cfea414140de5dae2223b00361a396177a9cb410ff61f20015ad" := by
  decide

end Wire
