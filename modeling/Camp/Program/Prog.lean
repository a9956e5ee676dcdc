import Mathlib.Tactic

/-!
# Programs over an operation signature

A program calls operations and continues with their answers. A machine gives
the operations a world: under a choice of the environment an operation is
answered, or the process stops with the world as the operation left it.
-/

namespace Program

open List

structure Signature where
  Op : Type
  Answer : Op → Type

inductive Prog (S : Signature) (α : Type) where
  | done (a : α)
  | call (op : S.Op) (next : S.Answer op → Prog S α)

namespace Prog

variable {S : Signature} {α β γ : Type}

def bind : Prog S α → (α → Prog S β) → Prog S β
  | done a, f => f a
  | call op next, f => call op fun answer => (next answer).bind f

instance : Monad (Prog S) where
  pure := done
  bind := bind

def perform (op : S.Op) : Prog S (S.Answer op) := call op done

@[simp] theorem pure_eq (a : α) : (pure a : Prog S α) = done a := rfl

@[simp] theorem done_bind (a : α) (f : α → Prog S β) : done a >>= f = f a := rfl

@[simp] theorem call_bind (op : S.Op) (next : S.Answer op → Prog S α) (f : α → Prog S β) :
    call op next >>= f = call op fun answer => next answer >>= f := rfl

@[simp] theorem perform_bind (op : S.Op) (f : S.Answer op → Prog S β) :
    perform op >>= f = call op f := rfl

end Prog

structure Machine (S : Signature) (W : Type) where
  Choice : Type
  calm : Choice
  step : (op : S.Op) → Choice → W → Option (S.Answer op) × W

namespace Machine

variable {S : Signature} {W α β ε : Type} (M : Machine S W)
variable {p : Prog S α} {choices : List M.Choice}
variable {post : α → W → Prop} {w' : W}

def run : Prog S α → List M.Choice → W → Option α × W
  | .done a, _, w => (some a, w)
  | .call op next, choices, w =>
    match M.step op (choices.headD M.calm) w with
    | (some answer, w') => run (next answer) choices.tail w'
    | (none, w') => (none, w')

def Respects (allow : S.Op → M.Choice → W → Prop) : Prog S α → List M.Choice → W → Prop
  | .done _, _, _ => True
  | .call op next, choices, w =>
    allow op (choices.headD M.calm) w ∧
      match M.step op (choices.headD M.calm) w with
      | (some answer, w') => Respects allow (next answer) choices.tail w'
      | (none, _) => True

/-- Every execution with allowed choices ends in `post`, or stops in `stop`. -/
def wp (allow : S.Op → M.Choice → W → Prop) (stop : W → Prop) : Prog S α → (α → W → Prop) → W → Prop
  | .done a, post, w => post a w
  | .call op next, post, w => ∀ choice, allow op choice w →
    match M.step op choice w with
    | (some answer, w') => wp allow stop (next answer) post w'
    | (none, w') => stop w'

variable {M} {allow : S.Op → M.Choice → W → Prop} {stop : W → Prop} {w : W}

theorem wp_call (op : S.Op) (next : S.Answer op → Prog S α) (post : α → W → Prop) :
    M.wp allow stop (.call op next) post w ↔ ∀ choice, allow op choice w →
      (∀ answer w', M.step op choice w = (some answer, w') → M.wp allow stop (next answer) post w') ∧
      ∀ w', M.step op choice w = (none, w') → stop w' := by
  rw [wp]
  refine forall₂_congr fun choice _ => ?_
  rcases M.step op choice w with ⟨_ | answer, w'⟩ <;> simp

theorem wp_bind (p : Prog S α) (f : α → Prog S β) (post : β → W → Prop) :
    M.wp allow stop (p >>= f) post w ↔
      M.wp allow stop p (fun a w' => M.wp allow stop (f a) post w') w := by
  induction p generalizing w with
  | done a => rfl
  | call op next ih => simp only [Prog.call_bind, wp_call, ih]

theorem wp_mono {stop' : W → Prop} {post' : α → W → Prop} (hp : M.wp allow stop p post w)
    (h : ∀ a w', post a w' → post' a w') (hStop : ∀ w', stop w' → stop' w') : M.wp allow stop' p post' w := by
  induction p generalizing w with
  | done a => exact h a w hp
  | call op next ih =>
    rw [wp_call] at hp ⊢
    intro choice hAllow
    obtain ⟨hAnswer, hNone⟩ := hp choice hAllow
    exact ⟨fun answer w' hStep => ih answer (hAnswer answer w' hStep),
      fun w' hStep => hStop w' (hNone w' hStep)⟩

theorem run_of_wp (hp : M.wp allow stop p post w) (hChoices : M.Respects allow p choices w) :
    (∀ a w', M.run p choices w = (some a, w') → post a w') ∧
      ∀ w', M.run p choices w = (none, w') → stop w' := by
  induction p generalizing w choices with
  | done a =>
    refine ⟨fun a' w' h => ?_, fun w' h => ?_⟩ <;> cases h
    exact hp
  | call op next ih =>
    rw [Respects] at hChoices
    have hStep := (wp_call ..).mp hp (choices.headD M.calm) hChoices.1
    rw [run]
    rcases h : M.step op (choices.headD M.calm) w with ⟨_ | answer, w'⟩
    · refine ⟨fun a w'' hRun => ?_, fun w'' hRun => ?_⟩ <;> cases hRun
      exact hStep.2 w' h
    · rw [h] at hChoices
      exact ih answer (hStep.1 answer w' h) hChoices.2

theorem respects_of_forall (hChoices : ∀ choice ∈ choices, ∀ op w, allow op choice w)
    (hCalm : ∀ op w, allow op M.calm w) (p : Prog S α) : M.Respects allow p choices w := by
  induction p generalizing w choices with
  | done a => exact trivial
  | call op next ih =>
    have hHead : allow op (choices.headD M.calm) w := by
      cases choices with
      | nil => exact hCalm op w
      | cons choice choices => exact hChoices choice mem_cons_self op w
    rw [Respects]
    refine ⟨hHead, ?_⟩
    rcases M.step op (choices.headD M.calm) w with ⟨_ | answer, w'⟩
    · exact trivial
    · exact ih answer fun choice hMem => hChoices choice (mem_of_mem_tail hMem)

theorem stop_of_respects (hChoices : M.Respects allow p choices w) (hStop : M.run p choices w = (none, w')) :
    ∃ op choice w₁, allow op choice w₁ ∧ M.step op choice w₁ = (none, w') := by
  induction p generalizing w choices with
  | done a => cases hStop
  | call op next ih =>
    rw [Respects] at hChoices
    rw [run] at hStop
    rcases hStep : M.step op (choices.headD M.calm) w with ⟨_ | answer, w₁⟩
    · rw [hStep] at hStop
      cases hStop
      exact ⟨op, _, w, hChoices.1, hStep⟩
    · rw [hStep] at hChoices hStop
      exact ih answer hChoices.2 hStop

/-- What a run that stops has met can be told from its last state. -/
theorem respects_of_stop
    (hAnswer : ∀ op choice w₁ answer w₂, M.step op choice w₁ = (some answer, w₂) → allow op choice w₁)
    (hStop : ∀ op choice w₁, M.step op choice w₁ = (none, w') → allow op choice w₁)
    (hRun : M.run p choices w = (none, w')) : M.Respects allow p choices w := by
  induction p generalizing w choices with
  | done a => cases hRun
  | call op next ih =>
    rw [run] at hRun
    rw [Respects]
    rcases hStep : M.step op (choices.headD M.calm) w with ⟨_ | answer, w₁⟩
    · rw [hStep] at hRun
      cases hRun
      exact ⟨hStop _ _ _ hStep, trivial⟩
    · rw [hStep] at hRun
      exact ⟨hAnswer _ _ _ _ _ hStep, ih answer hRun⟩

theorem respects_all (hAllow : ∀ op choice w, allow op choice w) (p : Prog S α)
    (choices : List M.Choice) : M.Respects allow p choices w :=
  respects_of_forall (fun choice _ op => hAllow op choice) (fun op => hAllow op M.calm) p

theorem respects_calm (hCalm : ∀ op w, allow op M.calm w) (p : Prog S α) : M.Respects allow p [] w :=
  respects_of_forall (by simp) hCalm p

theorem run_call_calm (op : S.Op) (next : S.Answer op → Prog S α) :
    M.run (.call op next) [] w =
      match M.step op M.calm w with
      | (some answer, w') => M.run (next answer) [] w'
      | (none, w') => (none, w') := by
  rw [run]
  rfl

theorem run_bind_calm (p : Prog S α) (f : α → Prog S β) :
    M.run (p >>= f) [] w =
      match M.run p [] w with
      | (some a, w') => M.run (f a) [] w'
      | (none, w') => (none, w') := by
  induction p generalizing w with
  | done a => rfl
  | call op next ih =>
    rw [Prog.call_bind, run_call_calm, run_call_calm]
    rcases M.step op M.calm w with ⟨_ | answer, w'⟩
    · rfl
    · exact ih answer

end Machine

/-- The outcome of a program that may fail: nothing if the process stops. -/
abbrev Outcome (ε α : Type) := Option (Except ε α)

def catching {S : Signature} {ε α : Type} (p : ExceptT ε (Prog S) α) :
    ExceptT ε (Prog S) (Except ε α) := ExceptT.mk do
  return .ok (← p.run)

namespace Machine

variable {S : Signature} {W α β ε : Type} (M : Machine S W)
variable {p : ExceptT ε (Prog S) α} {a : α} {w' : W}
variable {post : Outcome ε α → W → Prop} {f : α → ExceptT ε (Prog S) β}

/-- Every execution with allowed choices has an outcome and a world in `post`. -/
def Ends (allow : S.Op → M.Choice → W → Prop) (p : ExceptT ε (Prog S) α) (post : Outcome ε α → W → Prop) (w : W) :
    Prop :=
  M.wp allow (post none) p.run (fun r => post (some r)) w

def calmly (p : ExceptT ε (Prog S) α) (w : W) : Outcome ε α × W := M.run p.run [] w

def after (allow : S.Op → M.Choice → W → Prop) (f : α → ExceptT ε (Prog S) β) (post : Outcome ε β → W → Prop) :
    Outcome ε α → W → Prop
  | none, w => post none w
  | some (.error e), w => post (some (.error e)) w
  | some (.ok a), w => M.Ends allow (f a) post w

variable {M} {allow : S.Op → M.Choice → W → Prop} {w : W}

theorem Ends.run (hp : M.Ends allow p post w) {choices : List M.Choice} (hChoices : M.Respects allow p.run choices w) :
    post (M.run p.run choices w).1 (M.run p.run choices w).2 := by
  obtain ⟨hSome, hNone⟩ := run_of_wp hp hChoices
  rcases h : M.run p.run choices w with ⟨_ | r, w'⟩
  · exact hNone w' h
  · exact hSome r w' h

theorem Ends.mono {post' : Outcome ε α → W → Prop} (hp : M.Ends allow p post w) (h : ∀ r w', post r w' → post' r w') :
    M.Ends allow p post' w :=
  wp_mono hp (fun r w' => h (some r) w') (h none)

theorem ends_bind (p : ExceptT ε (Prog S) α) (f : α → ExceptT ε (Prog S) β)
    (post : Outcome ε β → W → Prop) : M.Ends allow (p >>= f) post w ↔ M.Ends allow p (M.after allow f post) w := by
  unfold Ends
  rw [ExceptT.run_bind, wp_bind]
  refine iff_of_eq (congrArg (fun q => M.wp allow (post none) p.run q w) ?_)
  funext r w'
  cases r <;> rfl

theorem Ends.bind {post : Outcome ε β → W → Prop} (h : M.Ends allow p (M.after allow f post) w) :
    M.Ends allow (p >>= f) post w :=
  (ends_bind p f post).mpr h

def MayBreak (post : Outcome ε α → W → Prop) (w : W) : Prop :=
  post none w ∧ ∀ e, post (some (.error e)) w

theorem after_ok (f : α → ExceptT ε (Prog S) β) (post : Outcome ε β → W → Prop) (a : α) :
    M.after allow f post (some (.ok a)) w ↔ M.Ends allow (f a) post w := Iff.rfl

theorem ends_lift (r : Except ε α) (post : Outcome ε α → W → Prop) :
    M.Ends allow (liftM r) post w ↔ post (some r) w := by
  cases r <;> rfl

theorem calmly_bind (p : ExceptT ε (Prog S) α) (f : α → ExceptT ε (Prog S) β) :
    M.calmly (p >>= f) w =
      match M.calmly p w with
      | (none, w') => (none, w')
      | (some (.error e), w') => (some (.error e), w')
      | (some (.ok a), w') => M.calmly (f a) w' := by
  unfold calmly
  rw [ExceptT.run_bind, run_bind_calm]
  rcases M.run p.run [] w with ⟨_ | r, w'⟩
  · rfl
  · cases r <;> rfl

theorem calmly_bind_ok (h : M.calmly p w = (some (.ok a), w')) (f : α → ExceptT ε (Prog S) β) :
    M.calmly (p >>= f) w = M.calmly (f a) w' := by
  rw [calmly_bind, h]

theorem calmly_bind_error {e : ε} (h : M.calmly p w = (some (.error e), w')) (f : α → ExceptT ε (Prog S) β) :
    M.calmly (p >>= f) w = (some (.error e), w') := by
  rw [calmly_bind, h]

@[simp] theorem calmly_pure (a : α) :
    M.calmly (pure a : ExceptT ε (Prog S) α) w = (some (.ok a), w) := rfl

@[simp] theorem calmly_lift (r : Except ε α) :
    M.calmly (liftM r : ExceptT ε (Prog S) α) w = (some r, w) := by
  cases r <;> rfl

/-- Some execution whose choices are in `P` has this outcome and leaves this world. -/
def MayEnd (M : Machine S W) (P : M.Choice → Prop) (p : ExceptT ε (Prog S) α) (w : W)
    (r : Outcome ε α) (w' : W) : Prop :=
  ∃ choices : List M.Choice, (∀ choice ∈ choices, P choice) ∧ M.run p.run choices w = (r, w')

theorem run_after {p : Prog S α} (h : M.run p [] w = (some a, w')) (choices : List M.Choice) : ∃ n, ∀ f : α → Prog S β,
      M.run (p >>= f) (replicate n M.calm ++ choices) w = M.run (f a) choices w' := by
  induction p generalizing w with
  | done b =>
    cases h
    exact ⟨0, fun _ => rfl⟩
  | call op next ih =>
    rw [run_call_calm] at h
    rcases hStep : M.step op M.calm w with ⟨_ | answer, w₁⟩
    · rw [hStep] at h
      cases h
    · rw [hStep] at h
      obtain ⟨n, hn⟩ := ih answer h
      refine ⟨n + 1, fun f => ?_⟩
      rw [Prog.call_bind, replicate_succ, cons_append, run]
      show (match M.step op M.calm w with | (some answer, w') => _ | (none, w') => _) = _
      rw [hStep]
      exact hn f

theorem MayEnd.bind {P : M.Choice → Prop} {r : Outcome ε β} {w₁ : W} (hp : M.calmly p w = (some (.ok a), w₁))
    (hCalm : P M.calm) (h : M.MayEnd P (f a) w₁ r w') : M.MayEnd P (p >>= f) w r w' := by
  obtain ⟨choices, hChoices, hRun⟩ := h
  obtain ⟨n, hn⟩ : ∃ n, ∀ g : Except ε α → Prog S (Except ε β), _ := run_after hp choices
  refine ⟨replicate n M.calm ++ choices, fun choice hMem => ?_, ?_⟩
  · rcases mem_append.mp hMem with hMem | hMem
    · exact (eq_of_mem_replicate hMem) ▸ hCalm
    · exact hChoices choice hMem
  · rw [ExceptT.run_bind, hn]
    exact hRun

/-- From related worlds the program has the same outcome and leaves related worlds. -/
def Agrees (M : Machine S W) (R : W → W → Prop) (p : ExceptT ε (Prog S) α) : Prop :=
  ∀ w w', R w w' → (M.calmly p w).1 = (M.calmly p w').1 ∧ R (M.calmly p w).2 (M.calmly p w').2

section Agrees

variable {R : W → W → Prop}

theorem agrees_pure (a : α) : M.Agrees R (pure a : ExceptT ε (Prog S) α) := fun _ _ h => ⟨rfl, h⟩

theorem agrees_throw (e : ε) : M.Agrees R (throw e : ExceptT ε (Prog S) α) := fun _ _ h => ⟨rfl, h⟩

theorem agrees_lift (r : Except ε α) : M.Agrees R (liftM r : ExceptT ε (Prog S) α) := by
  intro w w' h
  rw [calmly_lift, calmly_lift]
  exact ⟨rfl, h⟩

theorem Agrees.bind {p : ExceptT ε (Prog S) α} {f : α → ExceptT ε (Prog S) β} (hp : M.Agrees R p)
    (hf : ∀ a, M.Agrees R (f a)) : M.Agrees R (p >>= f) := by
  intro w w' h
  obtain ⟨hOutcome, hWorld⟩ := hp w w' h
  rw [calmly_bind, calmly_bind]
  generalize M.calmly p w = x at *
  generalize M.calmly p w' = y at *
  obtain ⟨r, w₁⟩ := x
  obtain ⟨r', w₂⟩ := y
  cases hOutcome
  match r with
  | none => exact ⟨rfl, hWorld⟩
  | some (.error e) => exact ⟨rfl, hWorld⟩
  | some (.ok a) => exact hf a w₁ w₂ hWorld

end Agrees

section Catching

variable {p : ExceptT ε (Prog S) α}
variable {mid : Outcome ε α → W → Prop} {post : Outcome ε β → W → Prop}

theorem Ends.catching {post : Outcome ε (Except ε α) → W → Prop}
    (h : M.Ends allow p (fun r w' => post (r.map .ok) w') w) : M.Ends allow (Program.catching p) post w := by
  unfold Program.catching Ends
  rw [ExceptT.run_mk, wp_bind]
  exact h

theorem Ends.andThen {f : α → ExceptT ε (Prog S) β} (h : M.Ends allow p mid w) (hStop : ∀ w, mid none w → post none w)
    (hError : ∀ e w, mid (some (.error e)) w → post (some (.error e)) w)
    (hOk : ∀ a w, mid (some (.ok a)) w → M.Ends allow (f a) post w) : M.Ends allow (p >>= f) post w := by
  refine Ends.bind (h.mono ?_)
  rintro (_ | e | a) w' hr
  · exact hStop w' hr
  · exact hError e w' hr
  · exact hOk a w' hr

theorem Ends.caught {g : Except ε α → ExceptT ε (Prog S) β} (h : M.Ends allow p mid w)
    (hStop : ∀ w, mid none w → post none w) (hThen : ∀ r w, mid (some r) w → M.Ends allow (g r) post w) :
    M.Ends allow (Program.catching p >>= g) post w := by
  refine Ends.bind (Ends.catching (h.mono ?_))
  rintro (_ | r) w' hr
  · exact hStop w' hr
  · exact hThen r w' hr

theorem calmly_catching (p : ExceptT ε (Prog S) α) :
    M.calmly (catching p) w = ((M.calmly p w).1.map .ok, (M.calmly p w).2) := by
  unfold catching calmly
  rw [ExceptT.run_mk, run_bind_calm]
  rcases M.run p.run [] w with ⟨_ | r, w'⟩ <;> rfl

theorem agrees_catching {R : W → W → Prop} (h : M.Agrees R p) : M.Agrees R (catching p) := by
  intro w w' hR
  obtain ⟨hOutcome, hWorld⟩ := h w w' hR
  rw [calmly_catching, calmly_catching, hOutcome]
  exact ⟨rfl, hWorld⟩

end Catching

end Machine

/-- Errors as the program builds them: a sentinel, a message, a message about
another error, or two errors. Messages keep their format and their arguments. -/
inductive Failure (κ : Type) where
  | sentinel (kind : κ)
  | message (format : String) (args : List (List UInt8))
  | wrap (format : String) (args : List (List UInt8)) (cause : Failure κ)
  | join (first second : Failure κ)
  deriving DecidableEq

def Failure.is {κ : Type} [DecidableEq κ] (kind : κ) : Failure κ → Bool
  | .sentinel k => k = kind
  | .message _ _ => false
  | .wrap _ _ cause => cause.is kind
  | .join first second => first.is kind || second.is kind

end Program
