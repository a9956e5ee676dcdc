import Mathlib.Data.ENat.Basic

/-!
# Readers of bytes

A reader is asked for some bytes at a time. It hands out at most as many, and may report an error
along with them; the end of its input is one.
-/

namespace Program

inductive ReadError (ε : Type) where
  | eof
  | failed (cause : ε)
  deriving DecidableEq

def ReadError.map {ε ε' : Type} (f : ε → ε') : ReadError ε → ReadError ε'
  | eof => eof
  | failed cause => failed (f cause)

structure Chunk (ε : Type) where
  bytes : List UInt8
  error : Option (ReadError ε)

structure ByteReader (σ ε : Type) where
  read : σ → Nat → Chunk ε × σ
  within : ∀ s size, (read s size).1.bytes.length ≤ size

namespace ByteReader

variable {σ ε : Type} (r : ByteReader σ ε)

/-- What a sequence of reads hands out, with the given sizes of the buffers. -/
def run : List Nat → σ → List (Chunk ε) × σ
  | [], s => ([], s)
  | size :: sizes, s =>
    ((r.read s size).1 :: (run sizes (r.read s size).2).1, (run sizes (r.read s size).2).2)

theorem run_append (sizes sizes' : List Nat) (s : σ) : r.run (sizes ++ sizes') s =
    ((r.run sizes s).1 ++ (r.run sizes' (r.run sizes s).2).1, (r.run sizes' (r.run sizes s).2).2) := by
  induction sizes generalizing s with
  | nil => rfl
  | cons size sizes ih => simp only [List.cons_append, run, ih]

end ByteReader

section Total

variable {ε : Type}

def total (chunks : List (Chunk ε)) : Nat := (chunks.map (·.bytes.length)).sum

@[simp] theorem total_nil : total ([] : List (Chunk ε)) = 0 := rfl

@[simp] theorem total_cons (c : Chunk ε) (chunks : List (Chunk ε)) :
    total (c :: chunks) = c.bytes.length + total chunks := by
  simp [total]

@[simp] theorem total_append (chunks chunks' : List (Chunk ε)) :
    total (chunks ++ chunks') = total chunks + total chunks' := by
  simp [total]

end Total

/-- How much input a reader still has; it may be endless. -/
structure Content {σ ε : Type} (r : ByteReader σ ε) (left : σ → ℕ∞) : Prop where
  spent : ∀ s size, left s = (r.read s size).1.bytes.length + left (r.read s size).2
  ended : ∀ s size, (r.read s size).1.error = some .eof → left (r.read s size).2 = 0

end Program
