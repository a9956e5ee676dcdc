import Camp.Program.Prog
import Mathlib.Logic.Relation

/-!
# Programs that run at the same time

Any number of programs share a world and their operations interleave. A program
is judged alone: between its operations the world changes as its neighbours may
change it, and its own operations keep to what it promises. What the programs
promise then holds in every run of all of them.
-/

namespace Program

open Relation Function

/-- An operation that was performed. There is no answer if the process stopped in it. -/
structure Deed (S : Signature) (W : Type) where
  op : S.Op
  answer : Option (S.Answer op)
  before : W
  after : W

namespace Machine

variable {S : Signature} {W α β ε : Type} (M : Machine S W)
variable {p : Prog S α} {post : List (Deed S W) → α → W → Prop}

def deed (op : S.Op) (choice : M.Choice) (w : W) : Deed S W :=
  ⟨op, (M.step op choice w).1, w, (M.step op choice w).2⟩

/-- Among neighbours that change the world by `rely`, every operation of the
program is a deed in `guar` after those before it, and its result is in `post`
after all its deeds. -/
def among (rely : W → W → Prop) (guar : List (Deed S W) → Deed S W → Prop) :
    Prog S α → (List (Deed S W) → α → W → Prop) → List (Deed S W) → W → Prop
  | .done a, post, deeds, w => post deeds a w
  | .call op next, post, deeds, w => ∀ w₁, rely w w₁ → ∀ choice,
    guar deeds (M.deed op choice w₁) ∧ ∀ answer, (M.step op choice w₁).1 = some answer →
      among rely guar (next answer) post (deeds ++ [M.deed op choice w₁]) (M.step op choice w₁).2

variable {M} {rely : W → W → Prop} {guar : List (Deed S W) → Deed S W → Prop}
  {deeds : List (Deed S W)} {w : W}

theorem among_bind (p : Prog S α) (f : α → Prog S β) (post : List (Deed S W) → β → W → Prop) :
    M.among rely guar (p >>= f) post deeds w ↔
      M.among rely guar p (fun deeds a w => M.among rely guar (f a) post deeds w) deeds w := by
  induction p generalizing deeds w with
  | done a => rfl
  | call op next ih => simp only [Prog.call_bind, among, ih]

theorem among_mono {post' : List (Deed S W) → α → W → Prop} (hp : M.among rely guar p post deeds w)
    (h : ∀ deeds a w, post deeds a w → post' deeds a w) : M.among rely guar p post' deeds w := by
  induction p generalizing deeds w with
  | done a => exact h deeds a w hp
  | call op next ih =>
    intro w₁ hRely choice
    obtain ⟨hGuar, hNext⟩ := hp w₁ hRely choice
    exact ⟨hGuar, fun answer hAnswer => ih answer (hNext answer hAnswer)⟩

theorem among_calmer {rely' : W → W → Prop} (hRely : ∀ w w', rely' w w' → rely w w')
    (hp : M.among rely guar p post deeds w) : M.among rely' guar p post deeds w := by
  induction p generalizing deeds w with
  | done a => exact hp
  | call op next ih =>
    intro w₁ hw₁ choice
    obtain ⟨hGuar, hNext⟩ := hp w₁ (hRely w w₁ hw₁) choice
    exact ⟨hGuar, fun answer hAnswer => ih answer (hNext answer hAnswer)⟩

theorem among_stable (hTrans : ∀ w₁ w₂ w₃, rely w₁ w₂ → rely w₂ w₃ → rely w₁ w₃)
    (hPost : ∀ deeds a w w', rely w w' → post deeds a w → post deeds a w') {w' : W} (hw : rely w w')
    (hp : M.among rely guar p post deeds w) : M.among rely guar p post deeds w' := by
  cases p with
  | done a => exact hPost deeds a w w' hw hp
  | call op next => exact fun w₁ hw₁ => hp w₁ (hTrans w w' w₁ hw hw₁)

end Machine

structure Thread (S : Signature) (W C α : Type) where
  call : C
  deeds : List (Deed S W)
  /-- What is left to run, unless the process has stopped. -/
  rest : Option (Prog S α)

structure Pool (S : Signature) (W ι C α : Type) where
  world : W
  thread : ι → Option (Thread S W C α)

namespace Pool

variable {S : Signature} {W ι C α : Type} [DecidableEq ι]

def start (w : W) : Pool S W ι C α := ⟨w, fun _ => none⟩

/-- A call begins, or one that is running performs its next operation. -/
inductive Step (M : Machine S W) (program : C → Prog S α) : Pool S W ι C α → Pool S W ι C α → Prop
  | begin {P : Pool S W ι C α} {i : ι} (c : C) (h : P.thread i = none) :
      Step M program P ⟨P.world, update P.thread i (some ⟨c, [], some (program c)⟩)⟩
  | act {P : Pool S W ι C α} {i : ι} {c : C} {deeds : List (Deed S W)} {op : S.Op}
      {next : S.Answer op → Prog S α} (choice : M.Choice)
      (h : P.thread i = some ⟨c, deeds, some (.call op next)⟩) :
      Step M program P ⟨(M.step op choice P.world).2, update P.thread i
        (some ⟨c, deeds ++ [M.deed op choice P.world], (M.step op choice P.world).1.map next⟩)⟩

def result (P : Pool S W ι C α) (i : ι) : Option α :=
  match P.thread i with
  | some ⟨_, _, some (.done a)⟩ => some a
  | _ => none

omit [DecidableEq ι] in
theorem rest_of_result {P : Pool S W ι C α} {i : ι} {t : Thread S W C α} {a : α}
    (hThread : P.thread i = some t) (h : P.result i = some a) : t.rest = some (.done a) := by
  unfold result at h
  rw [hThread] at h
  split at h
  · rename_i hSome
    cases hSome
    cases h
    rfl
  · cases h

inductive Event (ι C Choice : Type) where
  | begin (i : ι) (c : C)
  | act (i : ι) (choice : Choice)

/-- The pool after an event. An event that cannot happen changes nothing. -/
def next (M : Machine S W) (program : C → Prog S α) (P : Pool S W ι C α) :
    Event ι C M.Choice → Pool S W ι C α
  | .begin i c =>
    match P.thread i with
    | none => ⟨P.world, update P.thread i (some ⟨c, [], some (program c)⟩)⟩
    | some _ => P
  | .act i choice =>
    match P.thread i with
    | some ⟨c, deeds, some (.call op next)⟩ =>
      ⟨(M.step op choice P.world).2, update P.thread i
        (some ⟨c, deeds ++ [M.deed op choice P.world], (M.step op choice P.world).1.map next⟩)⟩
    | _ => P

def exec (M : Machine S W) (program : C → Prog S α) (events : List (Event ι C M.Choice))
    (P : Pool S W ι C α) : Pool S W ι C α := events.foldl (next M program) P

theorem run_exec (M : Machine S W) (program : C → Prog S α) (events : List (Event ι C M.Choice))
    (P : Pool S W ι C α) : ReflTransGen (Step M program) P (exec M program events P) := by
  induction events generalizing P with
  | nil => exact .refl
  | cons event events ih =>
    have hNext : ReflTransGen (Step M program) P (next M program P event) := by
      unfold next
      split
      · split
        · rename_i hFree
          exact .single (.begin _ hFree)
        · exact .refl
      · split
        · rename_i hThread
          exact .single (.act _ hThread)
        · exact .refl
    exact hNext.trans (ih _)

end Pool

theorem snoc_cases {β : Type} {xs earlier later : List β} {x d : β}
    (h : xs ++ [x] = earlier ++ d :: later) :
    (earlier = xs ∧ d = x) ∨ ∃ later', xs = earlier ++ d :: later' := by
  induction later using List.reverseRecOn with
  | nil =>
    obtain ⟨rfl, hLast⟩ := List.append_inj' h rfl
    cases hLast
    exact .inl ⟨rfl, rfl⟩
  | append_singleton later last _ =>
    rw [← List.cons_append, ← List.append_assoc] at h
    exact .inr ⟨later, (List.append_inj' h rfl).1⟩

/-- Each call, judged alone, keeps its promise, and the others rely on no more. -/
structure Discipline {S : Signature} {W C α : Type} (M : Machine S W) (program : C → Prog S α)
    (rely : W → W → Prop) (guar : C → List (Deed S W) → Deed S W → Prop)
    (post : C → List (Deed S W) → α → W → Prop) : Prop where
  refl : ∀ w, rely w w
  trans : ∀ w₁ w₂ w₃, rely w₁ w₂ → rely w₂ w₃ → rely w₁ w₃
  tolerated : ∀ c deeds d, guar c deeds d → rely d.before d.after
  stable : ∀ c deeds a w w', rely w w' → post c deeds a w → post c deeds a w'
  kept : ∀ c w, M.among rely (guar c) (program c) (post c) [] w

namespace Discipline

variable {S : Signature} {W ι C α : Type} [DecidableEq ι] {M : Machine S W} {program : C → Prog S α}
  {rely : W → W → Prop} {guar : C → List (Deed S W) → Deed S W → Prop}
  {post : C → List (Deed S W) → α → W → Prop}
variable {P : Pool S W ι C α} {w : W}

structure Kept (M : Machine S W) (rely : W → W → Prop)
    (guar : C → List (Deed S W) → Deed S W → Prop) (post : C → List (Deed S W) → α → W → Prop) (w : W)
    (t : Thread S W C α) : Prop where
  deeds : ∀ earlier d later, t.deeds = earlier ++ d :: later → guar t.call earlier d
  rest : ∀ p, t.rest = some p → M.among rely (guar t.call) p (post t.call) t.deeds w

theorem kept_of_step (h : Discipline M program rely guar post) {P' : Pool S W ι C α} (hStep : P.Step M program P')
    (hKept : ∀ i t, P.thread i = some t → Kept M rely guar post P.world t) :
    rely P.world P'.world ∧ ∀ i t, P'.thread i = some t → Kept M rely guar post P'.world t := by
  cases hStep with
  | @begin i c hFree =>
    refine ⟨h.refl _, fun j t hThread => ?_⟩
    by_cases hj : j = i
    · subst hj
      cases (update_self j _ P.thread).symm.trans hThread
      refine ⟨fun earlier d later hSplit => ?_, fun p hp => ?_⟩
      · exact absurd hSplit.symm (by simp)
      · cases hp
        exact h.kept c P.world
    · exact hKept j t ((update_of_ne hj _ P.thread).symm.trans hThread)
  | @act i c deeds op next choice hActs =>
    obtain ⟨hDeeds, hRest⟩ := hKept i _ hActs
    obtain ⟨hGuar, hNext⟩ := hRest _ rfl P.world (h.refl _) choice
    have hRely := h.tolerated c _ _ hGuar
    refine ⟨hRely, fun j t hThread => ?_⟩
    by_cases hj : j = i
    · subst hj
      cases (update_self j _ P.thread).symm.trans hThread
      constructor
      · intro earlier d later hSplit
        rcases snoc_cases hSplit with ⟨rfl, rfl⟩ | ⟨later', hOld⟩
        · exact hGuar
        · exact hDeeds earlier d later' hOld
      · intro p hp
        obtain ⟨answer, hAnswer, rfl⟩ := Option.map_eq_some_iff.mp hp
        exact hNext answer hAnswer
    · obtain ⟨hDeeds', hRest'⟩ :=
        hKept j t ((update_of_ne hj _ P.thread).symm.trans hThread)
      exact ⟨hDeeds', fun p hp =>
        Machine.among_stable h.trans (h.stable t.call) hRely (hRest' p hp)⟩

theorem kept_of_run (h : Discipline M program rely guar post)
    (hRun : ReflTransGen (Pool.Step M program) (Pool.start w) P) :
    rely w P.world ∧ ∀ i t, P.thread i = some t → Kept M rely guar post P.world t := by
  induction hRun with
  | refl => exact ⟨h.refl w, nofun⟩
  | tail hRun hStep ih =>
    obtain ⟨hRely, hKept⟩ := kept_of_step h hStep ih.2
    exact ⟨h.trans _ _ _ ih.1 hRely, hKept⟩

theorem invariant_of_run (h : Discipline M program rely guar post) {inv : W → Prop}
    (hInv : ∀ c deeds d, guar c deeds d → inv d.before → inv d.after)
    (hRun : ReflTransGen (Pool.Step M program) (Pool.start w) P) (hStart : inv w) : inv P.world := by
  induction hRun with
  | refl => exact hStart
  | tail hRun hStep ih =>
    cases hStep with
    | begin c hFree => exact ih
    | act choice hActs =>
      obtain ⟨hGuar, -⟩ := ((kept_of_run h hRun).2 _ _ hActs).rest _ rfl _ (h.refl _) choice
      exact hInv _ _ _ hGuar ih

theorem guar_of_run (h : Discipline M program rely guar post)
    (hRun : ReflTransGen (Pool.Step M program) (Pool.start w) P) {i : ι} {t : Thread S W C α}
    (hThread : P.thread i = some t) {d : Deed S W} (hd : d ∈ t.deeds) :
    ∃ earlier later, t.deeds = earlier ++ d :: later ∧ guar t.call earlier d := by
  obtain ⟨earlier, later, hSplit⟩ := List.append_of_mem hd
  exact ⟨earlier, later, hSplit, ((kept_of_run h hRun).2 i t hThread).deeds earlier d later hSplit⟩

theorem post_of_run (h : Discipline M program rely guar post)
    (hRun : ReflTransGen (Pool.Step M program) (Pool.start w) P) {i : ι} {t : Thread S W C α}
    (hThread : P.thread i = some t) {a : α} (ha : t.rest = some (.done a)) : post t.call t.deeds a P.world :=
  ((kept_of_run h hRun).2 i t hThread).rest _ ha

end Discipline

namespace Machine

variable {S : Signature} {W α β ε : Type} (M : Machine S W)
variable {p : ExceptT ε (Prog S) α}

/-- What is said of the deeds, the result and the world in the end. -/
abbrev Post (S : Signature) (W ε α : Type) := List (Deed S W) → Except ε α → W → Prop

def Acts (rely : W → W → Prop) (guar : List (Deed S W) → Deed S W → Prop) (p : ExceptT ε (Prog S) α)
    (post : Post S W ε α) (deeds : List (Deed S W)) (w : W) : Prop :=
  M.among rely guar p.run post deeds w

variable {M} {rely : W → W → Prop} {guar : List (Deed S W) → Deed S W → Prop}
  {deeds : List (Deed S W)} {w : W}

theorem Acts.mono {post post' : Post S W ε α} (hp : M.Acts rely guar p post deeds w)
    (h : ∀ deeds r w, post deeds r w → post' deeds r w) :
    M.Acts rely guar p post' deeds w := among_mono hp h

theorem Acts.calmer {rely' : W → W → Prop} {post : Post S W ε α}
    (hp : M.Acts rely guar p post deeds w) (hRely : ∀ w w', rely' w w' → rely w w') :
    M.Acts rely' guar p post deeds w :=
  among_calmer hRely hp

theorem Acts.bind {p : ExceptT ε (Prog S) α} {f : α → ExceptT ε (Prog S) β}
    {post : Post S W ε β}
    (h : M.Acts rely guar p (fun deeds r w =>
      match r with
      | .ok a => M.Acts rely guar (f a) post deeds w
      | .error e => post deeds (.error e) w) deeds w) : M.Acts rely guar (p >>= f) post deeds w := by
  unfold Acts at h ⊢
  rw [ExceptT.run_bind, among_bind]
  refine among_mono h fun deeds r w hr => ?_
  cases r <;> exact hr

theorem acts_lift (r : Except ε α) (post : Post S W ε α) :
    M.Acts rely guar (liftM r) post deeds w ↔ post deeds r w := by
  cases r <;> rfl

theorem Acts.catching {post : Post S W ε (Except ε α)}
    (h : M.Acts rely guar p (fun deeds r w => post deeds (.ok r) w) deeds w) :
    M.Acts rely guar (Program.catching p) post deeds w := by
  unfold Program.catching Acts
  rw [ExceptT.run_mk, among_bind]
  exact h

section Steps

variable {f : α → ExceptT ε (Prog S) β} {post : Post S W ε β}

theorem acts_lift_bind {r : Except ε α} (hError : ∀ e, r = .error e → post deeds (.error e) w)
    (hf : ∀ a, r = .ok a → M.Acts rely guar (f a) post deeds w) :
    M.Acts rely guar (liftM r >>= f) post deeds w := by
  cases r with
  | error e => exact hError e rfl
  | ok a => exact hf a rfl

theorem acts_guard {c : Prop} [Decidable c] {e : ε} {q : ExceptT ε (Prog S) β}
    (hThrow : c → post deeds (.error e) w) (hq : ¬ c → M.Acts rely guar q post deeds w) :
    M.Acts rely guar (if c then throw e >>= f else q) post deeds w := by
  split_ifs with hc
  · exact hThrow hc
  · exact hq hc

theorem Acts.catching_bind {f : Except ε α → ExceptT ε (Prog S) β}
    (h : M.Acts rely guar p (fun deeds r w => M.Acts rely guar (f r) post deeds w) deeds w) :
    M.Acts rely guar (Program.catching p >>= f) post deeds w :=
  Acts.bind (Acts.catching h)

end Steps

section Trace

def trace (M : Machine S W) : Prog S α → List M.Choice → W → List (Deed S W)
  | .done _, _, _ => []
  | .call op next, choices, w =>
    M.deed op (choices.headD M.calm) w ::
      match M.step op (choices.headD M.calm) w with
      | (some answer, w') => trace M (next answer) choices.tail w'
      | (none, _) => []

theorem among_run {p : Prog S α} {post : List (Deed S W) → α → W → Prop}
    (hp : M.among Eq guar p post deeds w) (choices : List M.Choice) :
    (∀ earlier d later, M.trace p choices w = earlier ++ d :: later → guar (deeds ++ earlier) d) ∧
      ∀ a w', M.run p choices w = (some a, w') → post (deeds ++ M.trace p choices w) a w' := by
  induction p generalizing deeds w choices with
  | done a =>
    constructor
    · intro earlier d later h
      simp [trace] at h
    · intro a' w' h
      cases h
      rw [trace, List.append_nil]
      exact hp
  | call op next ih =>
    obtain ⟨hGuar, hNext⟩ := hp w rfl (choices.headD M.calm)
    rw [trace, run]
    rcases hStep : M.step op (choices.headD M.calm) w with ⟨_ | answer, w₁⟩
    · constructor
      · intro earlier d later h
        cases earlier with
        | nil =>
          cases h
          simpa using hGuar
        | cons e earlier => simp at h
      · intro a w' h
        cases h
    · rw [hStep] at hNext
      obtain ⟨hDeeds, hPost⟩ := ih answer (hNext answer rfl) choices.tail
      constructor
      · intro earlier d later h
        cases earlier with
        | nil =>
          cases h
          simpa using hGuar
        | cons e earlier =>
          rw [List.cons_append] at h
          injection h with hHead hTail
          subst hHead
          simpa using hDeeds earlier d later hTail
      · intro a w' h
        simpa using hPost a w' h

end Trace

end Machine

end Program
