import Camp.Program.Calls

/-!
# Calls while others act

Before each call of a program its neighbours make moves of their own. A call takes effect,
or fails for no reason in the world, which the world may take note of.
-/

namespace Program.Neighbours

open Calls (signature Act sys)

structure Service (W T : Type) {C : Type} (V : C → Type) (N : Type) where
  perform : (call : C) → W → Except T (V call) × W
  move : N → W → W
  note : C → W → W
  failed : T

/-- What happens at a call: the moves of the others before it, and whether it fails. -/
structure Turn (N : Type) where
  moves : List N
  fails : Bool
  deriving DecidableEq

section Machine

variable {W T C N ε α β : Type} {V : C → Type}

def Service.moved (S : Service W T V N) (moves : List N) (w : W) : W := moves.foldl (fun w m => S.move m w) w

def machine (S : Service W T V N) : Machine (signature T V) W where
  Choice := Turn N
  calm := ⟨[], false⟩
  step call turn w :=
    let w' := S.moved turn.moves w
    if turn.fails then (some (.error S.failed), S.note call w')
    else (some (S.perform call w').1, (S.perform call w').2)

/-- However the calls fail and whatever moves the others make, the program returns like this. -/
def Among (S : Service W T V N) (p : Act T ε V α) (post : Except ε α → W → Prop) (w : W) : Prop :=
  (machine S).wp (fun _ _ _ => True) (fun _ => True) p.run post w

end Machine

section Rules

open Machine

variable {W T C N ε α β : Type} {V : C → Type} {S : Service W T V N} {w : W}
  {p : Act T ε V α} {f : α → Act T ε V β}
variable {post : Except ε α → W → Prop}
variable {mid : Except ε α → W → Prop}

theorem Among.run (h : Among S p post w) {turns : List (Turn N)} {r : Except ε α} {w' : W}
    (hRun : (machine S).run p.run turns w = (some r, w')) : post r w' :=
  (run_of_wp h (respects_all (fun _ _ _ => trivial) p.run turns)).1 r w' hRun

theorem Among.mono {post' : Except ε α → W → Prop} (h : Among S p post w) (hPost : ∀ r w, post r w → post' r w) :
    Among S p post' w := wp_mono h hPost fun _ => id

theorem among_pure {a : α} (h : post (.ok a) w) :
    Among S (pure a : Act T ε V α) post w := h

theorem among_throw {e : ε} (h : post (.error e) w) :
    Among S (throw e : Act T ε V α) post w := h

theorem Among.bind {post : Except ε β → W → Prop} (h : Among S p mid w)
    (hError : ∀ e w, mid (.error e) w → post (.error e) w) (hOk : ∀ a w, mid (.ok a) w → Among S (f a) post w) :
    Among S (p >>= f) post w := by
  unfold Among
  rw [ExceptT.run_bind, wp_bind]
  refine wp_mono h ?_ fun _ => id
  rintro (e | a) w' hr
  · exact hError e w' hr
  · exact hOk a w' hr

theorem Among.catching {g : Except ε α → Act T ε V β} {post : Except ε β → W → Prop} (h : Among S p mid w)
    (hThen : ∀ r w, mid r w → Among S (g r) post w) : Among S (catching p >>= g) post w := by
  have hCatch : Among S (Program.catching p) (fun r w => ∃ r', r = .ok r' ∧ mid r' w) w := by
    unfold Among Program.catching
    rw [ExceptT.run_mk, wp_bind]
    exact wp_mono h (fun r w hr => ⟨r, rfl, hr⟩) fun _ => id
  refine hCatch.bind ?_ ?_
  · rintro e w ⟨_, h, -⟩
    cases h
  · rintro r w ⟨_, h, hMid⟩
    cases h
    exact hThen r w hMid

theorem among_sys {I : W → Prop} (hStable : ∀ m w, I w → I (S.move m w)) (hI : I w) {explain : T → ε}
    {call : C} {post : Except ε (V call) → W → Prop}
    (hFails : ∀ w, I w → post (.error (explain S.failed)) (S.note call w))
    (hActs : ∀ w, I w → post ((S.perform call w).1.mapError explain) (S.perform call w).2) :
    Among S (sys explain call) post w := by
  rintro ⟨moves, fails⟩ -
  have hMoved : I (S.moved moves w) := by
    induction moves generalizing w with
    | nil => exact hI
    | cons m moves ih => exact ih (hStable m w hI)
  cases fails with
  | true => exact hFails _ hMoved
  | false => exact hActs _ hMoved

end Rules

end Program.Neighbours
