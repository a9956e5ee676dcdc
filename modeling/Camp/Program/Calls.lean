import Camp.Program.Prog

/-!
# Calls to a service

A service says what its calls do to the world. A call takes effect, fails without effect,
or the process stops before it. Nobody else changes the world.
-/

namespace Program.Calls

/-- What the calls do, and how a call fails for no reason in the world. -/
structure Service (W T : Type) {C : Type} (V : C → Type) where
  perform : (call : C) → W → Except T (V call) × W
  failed : T

abbrev signature (T : Type) {C : Type} (V : C → Type) : Signature where
  Op := C
  Answer call := Except T (V call)

inductive Fault where
  | none
  | fail
  | crash
  deriving DecidableEq

abbrev Act (T ε : Type) {C : Type} (V : C → Type) (α : Type) := ExceptT ε (Prog (signature T V)) α

section Machine

variable {W T C ε : Type} {V : C → Type}

def step (S : Service W T V) (call : C) (w : W) : Fault → Option (Except T (V call)) × W
  | .none => (some (S.perform call w).1, (S.perform call w).2)
  | .fail => (some (.error S.failed), w)
  | .crash => (none, w)

def machine (S : Service W T V) : Machine (signature T V) W where
  Choice := Fault
  calm := .none
  step call fault w := step S call w fault

def sys (explain : T → ε) (call : C) : Act T ε V (V call) :=
  ExceptT.mk ((fun r => r.mapError explain) <$> Prog.perform (S := signature T V) call)

end Machine

section Rules

open Machine

variable {W T C ε : Type} {V : C → Type} {S : Service W T V} {w : W}

theorem ends_sys {allow : C → Fault → W → Prop} {explain : T → ε} {call : C} {post : Outcome ε (V call) → W → Prop}
    (hFail : allow call .fail w → post (some (.error (explain S.failed))) w) (hCrash : post none w)
    (hDone : post (some ((S.perform call w).1.mapError explain)) (S.perform call w).2) :
    (machine S).Ends allow (sys explain call) post w := by
  intro fault hAllow
  cases fault with
  | none => exact hDone
  | fail => exact hFail hAllow
  | crash => exact hCrash

end Rules

end Program.Calls
