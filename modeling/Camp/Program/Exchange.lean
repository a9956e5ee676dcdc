import Camp.Program.Concurrent

/-!
# Requests to a service

A request is sent and answered, or the connection drops and nobody knows whether it
took effect, or it never leaves. Besides, a program asks local collaborators, whose
answers are not of its making.
-/

namespace Program.Exchange

open Machine

variable {Q R I E W α β ε : Type} {V : I → Type}

inductive Lost (E : Type) where
  | unsent (cause : E)
  | dropped (cause : E)

/-- What becomes of a request. Where that is open, `took` says whether it took effect. -/
inductive Fate (R E : Type) where
  | unsent (cause : E)
  | dropped (cause : E) (took : Bool)
  | answered (response : R) (took : Bool)

/-- What requests do, and the answers that say they did nothing. -/
structure Service (Q R W : Type) where
  effect : Q → W → W
  refuses : R → Bool

inductive Op (Q I : Type) where
  | send (request : Q)
  | consult (about : I)

abbrev signature (Q R E : Type) {I : Type} (V : I → Type) : Signature where
  Op := Op Q I
  Answer
    | .send _ => Except (Lost E) R
    | .consult i => V i

def Fate.answer : Fate R E → Except (Lost E) R
  | .unsent cause => .error (.unsent cause)
  | .dropped cause _ => .error (.dropped cause)
  | .answered response _ => .ok response

def Fate.takes (refuses : R → Bool) : Fate R E → Bool
  | .unsent _ => false
  | .dropped _ took => took
  | .answered response took => took && !refuses response

def Definite (S : Service Q R W) : Except (Lost E) R → Prop
  | .error (.unsent _) => True
  | .error (.dropped _) => False
  | .ok response => S.refuses response = true

def machine (S : Service Q R W) [Inhabited R] [∀ i, Inhabited (V i)] :
    Machine (signature Q R E V) W where
  Choice := Fate R E × (∀ i, V i)
  calm := (.answered default true, fun _ => default)
  step
    | .send q, (fate, _), w =>
      (some fate.answer, if fate.takes S.refuses then S.effect q w else w)
    | .consult i, (_, values), w => (some (values i), w)

def exchanged : Deed (signature Q R E V) W → Option (Q × Except (Lost E) R)
  | ⟨.send q, some answer, _, _⟩ => some (q, answer)
  | _ => none

structure Sends (S : Service Q R W) (q : Q) (answer : Except (Lost E) R)
    (d : Deed (signature Q R E V) W) : Prop where
  exchanged : exchanged d = some (q, answer)
  definite : Definite S answer → d.after = d.before
  effect : d.after = d.before ∨ d.after = S.effect q d.before

section Acts

variable {S : Service Q R W} [Inhabited R] [∀ i, Inhabited (V i)] {rely : W → W → Prop}
  {deeds : List (Deed (signature Q R E V) W)} {w : W}
variable {q : Q} {i : I} {p : ExceptT ε (Prog (signature Q R E V)) α} {f : α → ExceptT ε (Prog (signature Q R E V)) β}
  {post : List (Deed (signature Q R E V) W) → Except ε β → Prop} {r : Except ε α} {e : ε} {result : Except ε α → Prop}

theorem sends_deed (q : Q) (fate : Fate R E) (values : ∀ i, V i) (w : W) :
    Sends S q fate.answer ((machine S).deed (.send q) (fate, values) w) where
  exchanged := rfl
  definite hDefinite := by
    show (if fate.takes S.refuses then S.effect q w else w) = w
    rw [if_neg]
    cases fate with
    | unsent cause => exact Bool.false_ne_true
    | dropped cause took => exact hDefinite.elim
    | answered response took =>
      have hRefuses : S.refuses response = true := hDefinite
      simp [Fate.takes, hRefuses]
  effect := by
    show (if fate.takes S.refuses then S.effect q w else w) = w ∨ _
    by_cases hTakes : fate.takes S.refuses = true
    · exact .inr (if_pos hTakes)
    · exact .inl (if_neg hTakes)

def send (q : Q) : ExceptT ε (Prog (signature Q R E V)) (Except (Lost E) R) :=
  ExceptT.mk do return .ok (← Prog.perform (S := signature Q R E V) (.send q))

def consult (i : I) : ExceptT ε (Prog (signature Q R E V)) (V i) :=
  ExceptT.mk do return .ok (← Prog.perform (S := signature Q R E V) (.consult i))

/-- The world is whatever the neighbours make of it, and nothing is promised. -/
abbrev Anyhow (S : Service Q R W) (p : ExceptT ε (Prog (signature Q R E V)) α)
    (post : List (Deed (signature Q R E V) W) → Except ε α → Prop)
    (deeds : List (Deed (signature Q R E V) W)) (w : W) : Prop :=
  (machine S).Acts (fun _ _ => True) (fun _ _ => True) p (fun deeds r _ => post deeds r) deeds w

theorem anyhow_send {post : List (Deed (signature Q R E V) W) → Except ε _ → Prop}
    (h : ∀ d answer, Sends S q answer d → post (deeds ++ [d]) (.ok answer)) : Anyhow S (send q) post deeds w := by
  rintro w₁ - ⟨fate, values⟩
  refine ⟨trivial, fun answer hAnswer => ?_⟩
  cases hAnswer
  exact h _ _ (sends_deed q fate values w₁)

theorem anyhow_consult {post : List (Deed (signature Q R E V) W) → Except ε (V i) → Prop}
    (h : ∀ d value, exchanged d = none → d.after = d.before → post (deeds ++ [d]) (.ok value)) :
    Anyhow S (consult i) post deeds w := by
  rintro w₁ - ⟨fate, values⟩
  refine ⟨trivial, fun answer hAnswer => ?_⟩
  cases hAnswer
  exact h _ _ rfl rfl

theorem Anyhow.bind {p : ExceptT ε (Prog (signature Q R E V)) α}
    {f : α → ExceptT ε (Prog (signature Q R E V)) β}
    {post : List (Deed (signature Q R E V) W) → Except ε β → Prop}
    (h : Anyhow S p (fun deeds r =>
      match r with
      | .ok a => ∀ w, Anyhow S (f a) post deeds w
      | .error e => post deeds (.error e)) deeds w) : Anyhow S (p >>= f) post deeds w := by
  refine Acts.bind (Acts.mono h ?_)
  rintro deeds (e | a) w hr
  · exact hr
  · exact hr w

theorem anyhow_send_bind {f : Except (Lost E) R → ExceptT ε (Prog (signature Q R E V)) β}
    (h : ∀ d answer, Sends S q answer d → ∀ w, Anyhow S (f answer) post (deeds ++ [d]) w) :
    Anyhow S (send q >>= f) post deeds w :=
  Anyhow.bind (anyhow_send fun d answer hSends => h d answer hSends)

theorem anyhow_catching_bind {f : Except ε α → ExceptT ε (Prog (signature Q R E V)) β}
    (h : Anyhow S p (fun deeds r => ∀ w, Anyhow S (f r) post deeds w) deeds w) :
    Anyhow S (catching p >>= f) post deeds w :=
  Anyhow.bind (Acts.catching h)

/-- Every deed of the program, and its result, are as described. -/
def Does (S : Service Q R W) (P : Deed (signature Q R E V) W → Prop)
    (p : ExceptT ε (Prog (signature Q R E V)) α) (post : Except ε α → Prop) : Prop :=
  ∀ deeds w, Anyhow S p (fun deeds' r => (∃ more, deeds' = deeds ++ more ∧ ∀ d ∈ more, P d) ∧ post r)
    deeds w

variable {P : Deed (signature Q R E V) W → Prop}

theorem Does.anyhow {post : List (Deed (signature Q R E V) W) → Except ε α → Prop} (hp : Does S P p result)
    (h : ∀ more r, (∀ d ∈ more, P d) → result r → post (deeds ++ more) r) : Anyhow S p post deeds w := by
  refine Acts.mono (hp deeds w) ?_
  rintro _ r _ ⟨⟨more, rfl, hMore⟩, hResult⟩
  exact h more r hMore hResult

theorem does_return {post : Except ε α → Prop} (hp : p = liftM r) (h : post r) : Does S P p post := by
  intro deeds w
  subst hp
  exact (acts_lift r _).mpr ⟨⟨[], by simp⟩, h⟩

theorem does_pure {a : α} {post : Except ε α → Prop} (h : post (.ok a)) :
    Does S P (pure a : ExceptT ε (Prog (signature Q R E V)) α) post :=
  does_return (r := .ok a) rfl h

theorem does_throw {post : Except ε α → Prop} (h : post (.error e)) :
    Does S P (throw e : ExceptT ε (Prog (signature Q R E V)) α) post :=
  does_return (r := .error e) rfl h

theorem does_lift {post : Except ε α → Prop} (h : post r) :
    Does S P (liftM r : ExceptT ε (Prog (signature Q R E V)) α) post :=
  does_return rfl h

theorem does_send {post : Except ε _ → Prop} (hDeed : ∀ d answer, Sends S q answer d → P d)
    (h : ∀ answer, post (.ok answer)) : Does S P (send q) post := by
  intro deeds w
  refine anyhow_send fun d answer hSends => ⟨⟨[d], rfl, ?_⟩, h answer⟩
  rintro _ (_ | ⟨_, ⟨⟩⟩)
  exact hDeed d answer hSends

theorem does_consult {post : Except ε (V i) → Prop} (hDeed : ∀ d, exchanged d = none → d.after = d.before → P d)
    (h : ∀ value, post (.ok value)) : Does S P (consult i) post := by
  intro deeds w
  refine anyhow_consult fun d value hNone hSame => ⟨⟨[d], rfl, ?_⟩, h value⟩
  rintro _ (_ | ⟨_, ⟨⟩⟩)
  exact hDeed d hNone hSame

theorem Does.bind {post : Except ε β → Prop} (hp : Does S P p result)
    (hError : ∀ e, result (.error e) → post (.error e)) (hf : ∀ a, result (.ok a) → Does S P (f a) post) :
    Does S P (p >>= f) post := by
  intro deeds w
  refine Anyhow.bind (hp.anyhow ?_)
  rintro more (e | a) hMore hResult
  · exact ⟨⟨more, rfl, hMore⟩, hError e hResult⟩
  · intro w₁
    refine (hf a hResult).anyhow fun more' r hMore' hr => ⟨⟨more ++ more', ?_, ?_⟩, hr⟩
    · exact List.append_assoc ..
    · intro d hd
      exact (List.mem_append.mp hd).elim (hMore d) (hMore' d)

theorem Does.lift_bind {post : Except ε β → Prop} (hError : ∀ e, r = .error e → post (.error e))
    (hf : ∀ a, r = .ok a → Does S P (f a) post) : Does S P (liftM r >>= f) post :=
  (does_lift rfl : Does S P _ fun r' => r' = r).bind (fun e h => hError e h.symm) fun a h => hf a h.symm

theorem does_send_bind {f : Except (Lost E) R → ExceptT ε (Prog (signature Q R E V)) β} {post : Except ε β → Prop}
    (hDeed : ∀ d answer, Sends S q answer d → P d) (hf : ∀ answer, Does S P (f answer) post) :
    Does S P (send q >>= f) post :=
  (does_send hDeed nofun : Does S P _ fun r => ∀ e, r ≠ .error e).bind (fun e h => absurd rfl (h e))
    fun answer _ => hf answer

theorem does_consult_bind {f : V i → ExceptT ε (Prog (signature Q R E V)) β} {post : Except ε β → Prop}
    (hDeed : ∀ d, exchanged d = none → d.after = d.before → P d) (hf : ∀ value, Does S P (f value) post) :
    Does S P (consult i >>= f) post :=
  (does_consult hDeed nofun : Does S P _ fun r => ∀ e, r ≠ .error e).bind (fun e h => absurd rfl (h e))
    fun value _ => hf value

theorem does_guard {c : Prop} [Decidable c] {p : ExceptT ε (Prog (signature Q R E V)) β} {post : Except ε β → Prop}
    (hThrow : c → post (.error e)) (hp : ¬ c → Does S P p post) : Does S P (if c then throw e >>= f else p) post := by
  split_ifs with hc
  · exact does_throw (hThrow hc)
  · exact hp hc

theorem Does.catching {post : Except ε (Except ε α) → Prop} (hp : Does S P p result)
    (h : ∀ r, result r → post (.ok r)) : Does S P (Program.catching p) post := by
  intro deeds w
  refine Acts.catching (hp.anyhow fun more r hMore hr => ?_)
  exact ⟨⟨more, rfl, hMore⟩, h r hr⟩

end Acts

end Program.Exchange
