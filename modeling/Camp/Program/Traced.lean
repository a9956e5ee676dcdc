import Camp.Program.Calls

/-!
# Calls that may be answered in any way

Every call of a program is answered as the other side likes, and all that is kept of the
world is the trace: the calls with their answers. A monitor reads the trace event by event.
-/

namespace Program.Traced

open Calls (signature Act sys)

abbrev Event (T : Type) {C : Type} (V : C → Type) := (c : C) × Except T (V c)

section Machine

variable {T C ε α β : Type} {V : C → Type} [Inhabited T]
variable {post : Except ε α → List (Event T V) → Prop}
variable {mid : Except ε α → List (Event T V) → Prop}

def machine (T : Type) {C : Type} (V : C → Type) [Inhabited T] : Machine (signature T V) (List (Event T V)) where
  Choice := (c : C) → Except T (V c)
  calm _ := .error default
  step c answer trace := (some (answer c), trace ++ [⟨c, answer c⟩])

/-- However the calls are answered, the program returns like this. -/
def Always (p : Act T ε V α) (post : Except ε α → List (Event T V) → Prop) (trace : List (Event T V)) : Prop :=
  (machine T V).wp (fun _ _ _ => True) (fun _ => True) p.run post trace

variable {p : Act T ε V α} {f : α → Act T ε V β} {trace : List (Event T V)}

theorem Always.run (h : Always p post trace) {answers : List ((c : C) → Except T (V c))} {r : Except ε α}
    {trace' : List (Event T V)} (hRun : (machine T V).run p.run answers trace = (some r, trace')) : post r trace' :=
  (Machine.run_of_wp h (Machine.respects_all (fun _ _ _ => trivial) p.run answers)).1 r trace' hRun

theorem always_pure {a : α} (h : post (.ok a) trace) :
    Always (pure a : Act T ε V α) post trace := h

theorem always_throw {e : ε} (h : post (.error e) trace) :
    Always (throw e : Act T ε V α) post trace := h

theorem Always.bind {post : Except ε β → List (Event T V) → Prop} (h : Always p mid trace)
    (hError : ∀ e t, mid (.error e) t → post (.error e) t) (hOk : ∀ a t, mid (.ok a) t → Always (f a) post t) :
    Always (p >>= f) post trace := by
  unfold Always
  rw [ExceptT.run_bind, Machine.wp_bind]
  refine Machine.wp_mono h ?_ fun _ => id
  rintro (e | a) t hr
  · exact hError e t hr
  · exact hOk a t hr

theorem Always.catching {g : Except ε α → Act T ε V β} {post : Except ε β → List (Event T V) → Prop}
    (h : Always p mid trace) (hThen : ∀ r t, mid r t → Always (g r) post t) : Always (catching p >>= g) post trace := by
  have hCatch : Always (Program.catching p) (fun r t => ∃ r', r = .ok r' ∧ mid r' t) trace := by
    unfold Always Program.catching
    rw [ExceptT.run_mk, Machine.wp_bind]
    exact Machine.wp_mono h (fun r t hr => ⟨r, rfl, hr⟩) fun _ => id
  refine hCatch.bind ?_ ?_
  · rintro e t ⟨_, h, -⟩
    cases h
  · rintro r t ⟨_, h, hMid⟩
    cases h
    exact hThen r t hMid

theorem always_sys {explain : T → ε} {c : C} {post : Except ε (V c) → List (Event T V) → Prop}
    (h : ∀ r, post (r.mapError explain) (trace ++ [⟨c, r⟩])) : Always (sys explain c) post trace :=
  fun answer _ => h (answer c)

end Machine

section Monitor

variable {E S : Type} {advance : S → E → Option S}

/-- The state of a monitor after a trace, unless an event was out of order. -/
def monitor (advance : S → E → Option S) (s : S) (trace : List E) : Option S := trace.foldlM advance s

theorem monitor_append (s : S) (trace trace' : List E) :
    monitor advance s (trace ++ trace') = (monitor advance s trace).bind fun s' => monitor advance s' trace' := by
  unfold monitor
  rw [List.foldlM_append]
  rfl

theorem monitor_snoc {s s' : S} {trace : List E} (h : monitor advance s trace = some s') (e : E) :
    monitor advance s (trace ++ [e]) = advance s' e := by
  rw [monitor_append, h]
  show ([e]).foldlM advance s' = _
  simp

end Monitor

end Program.Traced
