import Camp.Program.Concurrent

/-!
# A store of versioned objects

A write makes a new version of an object, and a revision names one version of
its object for ever. Writes and deletions are conditional on the version that is
there. They may be reported as ambiguous, and may then have happened or not.
-/

namespace Program.Objects

open List Function Machine

/-- The versions of an object: those of the past, oldest first, and the one that
is there. -/
structure Shelf (B : Type) where
  gone : List B
  current : Option B
  deriving DecidableEq

namespace Shelf

variable {B : Type} (s : Shelf B)

def empty : Shelf B := ⟨[], none⟩

def written : List B := s.gone ++ s.current.toList

def put (b : B) : Shelf B := ⟨s.written, some b⟩

def delete : Shelf B := ⟨s.written, none⟩

@[simp] theorem written_put (b : B) : (s.put b).written = s.written ++ [b] := rfl

@[simp] theorem written_delete : s.delete.written = s.written := append_nil _

@[simp] theorem current_put (b : B) : (s.put b).current = some b := rfl

@[simp] theorem current_delete : s.delete.current = none := rfl

variable {s}

theorem written_current {b : B} (h : s.current = some b) : s.written[s.gone.length]? = some b := by
  simp [written, h]

end Shelf

abbrev Bucket (K B : Type) := K → Shelf B

inductive StoreError where
  | notFound
  | conflict
  | ambiguous
  | integrity
  | unavailable
  deriving DecidableEq

inductive Condition (R : Type) where
  | absent
  | revision (r : R)
  deriving DecidableEq

/-- What is particular to a store: how it names versions, how it compares
immutable objects, and what it reports of an object, in more or less detail. -/
structure Service (K R B D F V : Type) where
  label : K → Nat → R
  label_injective : ∀ k, Injective (label k)
  digest : B → D
  report : F → B → V
  plain : F
  /-- A write on the revision of an object that is gone is reported as a missing object. -/
  reportsMissing : Bool
  /-- An immutable write looks for the object before it reads its source. -/
  looksFirst : Bool

/-- The operations. `attempt` changes nothing but may fail, and `fetch` reads an object with
what is reported of it. -/
inductive Op (K R B D P : Type) where
  | attempt (what : P)
  | get (k : K)
  | head (k : K)
  | fetch (k : K)
  | putImmutable (k : K) (source : B) (expected : D)
  | putConditional (k : K) (body : B) (condition : Condition R)
  | deleteConditional (k : K) (r : R)

variable {K R B D F V P : Type}

abbrev Op.Value (V : Type) : Op K R B D P → Type
  | .attempt _ => Unit
  | .get _ => B × R
  | .head _ => V × R
  | .fetch _ => B × V × R
  | .putImmutable _ _ _ => V × R
  | .putConditional _ _ _ => R
  | .deleteConditional _ _ => Unit

def Op.lost : Op K R B D P → StoreError
  | .attempt _ | .get _ | .head _ | .fetch _ => .unavailable
  | _ => .ambiguous

abbrev signature (K R B D V P : Type) : Signature where
  Op := Op K R B D P
  Answer op := Except StoreError (op.Value V)

section Perform

variable [DecidableEq K] [DecidableEq R] [DecidableEq D] (S : Service K R B D F V) (o : Bucket K B)

def put (k : K) (b : B) : Bucket K B := update o k ((o k).put b)

def delete (k : K) : Bucket K B := update o k (o k).delete

/-- The revision of the version that is there, or that is written next. -/
def revision (k : K) : R := S.label k (o k).gone.length

def refusal (k : K) : Condition R → Option StoreError
  | .absent => if (o k).current.isSome then some .conflict else none
  | .revision r =>
    if (o k).current.isNone then some (if S.reportsMissing then .notFound else .conflict)
    else if revision S o k = r then none
    else some .conflict

def perform (detail : F) : (op : Op K R B D P) → Except StoreError (op.Value V) × Bucket K B
  | .attempt _ => (.ok (), o)
  | .get k =>
    match (o k).current with
    | none => (.error .notFound, o)
    | some b => (.ok (b, revision S o k), o)
  | .head k =>
    match (o k).current with
    | none => (.error .notFound, o)
    | some b => (.ok (S.report detail b, revision S o k), o)
  | .fetch k =>
    match (o k).current with
    | none => (.error .notFound, o)
    | some b => (.ok (b, S.report detail b, revision S o k), o)
  | .putImmutable k source expected =>
    if !S.looksFirst && S.digest source ≠ expected then (.error .integrity, o)
    else match (o k).current with
      | none =>
        if S.digest source ≠ expected then (.error .integrity, o)
        else (.ok (S.report detail source, revision S (put o k source) k), put o k source)
      | some b =>
        if S.digest b = expected then (.ok (S.report detail b, revision S o k), o)
        else (.error .conflict, o)
  | .putConditional k body condition =>
    match refusal S o k condition with
    | some e => (.error e, o)
    | none => (.ok (revision S (put o k body) k), put o k body)
  | .deleteConditional k r =>
    match (o k).current with
    | none => (.error .notFound, o)
    | some _ => if revision S o k = r then (.ok (), delete o k) else (.error .conflict, o)

end Perform

/-- The operation is answered, fails without effect, loses its outcome, or the
process stops in it; in the last two cases it may have happened. -/
inductive Reply (F : Type) where
  | answers (detail : F)
  | fails
  | loses (happened : Bool)
  | stops (happened : Bool)

section Machine

variable [DecidableEq K] [DecidableEq R] [DecidableEq D] (S : Service K R B D F V)

def machine (P : Type) : Machine (signature K R B D V P) (Bucket K B) where
  Choice := Reply F
  calm := .answers S.plain
  step op
    | .answers detail, o => (some (perform S o detail op).1, (perform S o detail op).2)
    | .fails, o => (some (.error .unavailable), o)
    | .loses happened, o =>
      (some (.error op.lost), if happened then (perform S o S.plain op).2 else o)
    | .stops happened, o => (none, if happened then (perform S o S.plain op).2 else o)

end Machine

def Grows (o o' : Bucket K B) : Prop := ∀ k, (o k).written <+: (o' k).written

theorem Grows.refl (o : Bucket K B) : Grows o o := fun _ => prefix_refl _

theorem Grows.trans {o₁ o₂ o₃ : Bucket K B} (h : Grows o₁ o₂) (h' : Grows o₂ o₃) : Grows o₁ o₃ :=
  fun k => (h k).trans (h' k)

theorem Grows.version {o o' : Bucket K B} (h : Grows o o') {k : K} {n : Nat} {b : B}
    (hVersion : (o k).written[n]? = some b) : (o' k).written[n]? = some b := by
  obtain ⟨tail, hTail⟩ := h k
  rw [← hTail, List.getElem?_append_left (List.getElem?_eq_some_iff.mp hVersion).1]
  exact hVersion

def Names (S : Service K R B D F V) (o : Bucket K B) (k : K) (r : R) (b : B) : Prop :=
  ∃ n, S.label k n = r ∧ (o k).written[n]? = some b

/-- The version that is there has this revision and this content. -/
def Stored (S : Service K R B D F V) (o : Bucket K B) (k : K) (b : B) (r : R) : Prop :=
  (o k).current = some b ∧ revision S o k = r

section Names

variable {S : Service K R B D F V} {o o' : Bucket K B} {k : K} {r : R} {b b' : B}

theorem Names.grows (h : Names S o k r b) (hGrows : Grows o o') : Names S o' k r b := by
  obtain ⟨n, hLabel, hVersion⟩ := h
  exact ⟨n, hLabel, hGrows.version hVersion⟩

theorem Stored.names (h : Stored S o k b r) : Names S o k r b :=
  ⟨_, h.2, Shelf.written_current h.1⟩

theorem Names.eq (h : Names S o k r b) (h' : Names S o k r b') : b = b' := by
  obtain ⟨n, hLabel, hVersion⟩ := h
  obtain ⟨n', hLabel', hVersion'⟩ := h'
  cases S.label_injective k (hLabel.trans hLabel'.symm)
  exact Option.some.inj (hVersion.symm.trans hVersion')

theorem Names.eq_of_stored (h : Names S o k r b) (hGrows : Grows o o') (h' : Stored S o' k b' r) :
    b' = b := h'.names.eq (h.grows hGrows)

end Names

def Met (S : Service K R B D F V) (o : Bucket K B) (k : K) : Condition R → Prop
  | .absent => (o k).current = none
  | .revision r => ∃ b, Stored S o k b r

theorem met_of_refusal [DecidableEq R] {S : Service K R B D F V} {o : Bucket K B} {k : K}
    {condition : Condition R} (h : refusal S o k condition = none) : Met S o k condition := by
  cases condition with
  | absent => simpa [refusal, Met] using h
  | revision r =>
    cases hCurrent : (o k).current with
    | none => simp [refusal, hCurrent] at h
    | some b =>
      simp only [refusal, hCurrent] at h
      exact ⟨b, hCurrent, by simpa using h⟩

variable [DecidableEq K]

theorem grows_put (o : Bucket K B) (k : K) (b : B) : Grows o (put o k b) := by
  intro k'
  by_cases h : k' = k
  · subst h
    rw [put, update_self, Shelf.written_put]
    exact prefix_append _ _
  · rw [put, update_of_ne h]

theorem grows_delete (o : Bucket K B) (k : K) : Grows o (delete o k) := by
  intro k'
  by_cases h : k' = k
  · subst h
    rw [delete, update_self, Shelf.written_delete]
  · rw [delete, update_of_ne h]

section Ages

/-- No version is forgotten or changed, and none comes back. -/
structure Ages (o o' : Bucket K B) : Prop where
  written : ∀ k, (o k).written <+: (o' k).written
  gone : ∀ k, (o k).gone <+: (o' k).gone

omit [DecidableEq K] in
theorem Ages.refl (o : Bucket K B) : Ages o o := ⟨fun _ => prefix_rfl, fun _ => prefix_rfl⟩

omit [DecidableEq K] in
theorem Ages.trans {o₁ o₂ o₃ : Bucket K B} (h : Ages o₁ o₂) (h' : Ages o₂ o₃) : Ages o₁ o₃ :=
  ⟨fun k => (h.written k).trans (h'.written k), fun k => (h.gone k).trans (h'.gone k)⟩

instance : IsPreorder (Bucket K B) Grows where
  refl := Grows.refl
  trans _ _ _ := Grows.trans

instance : IsPreorder (Bucket K B) Ages where
  refl := Ages.refl
  trans _ _ _ := Ages.trans

omit [DecidableEq K] in
theorem Ages.grows {o o' : Bucket K B} (h : Ages o o') : Grows o o' := h.written

theorem ages_update {o : Bucket K B} {k : K} {s : Shelf B} (hWritten : (o k).written <+: s.written)
    (hGone : (o k).gone <+: s.gone) : Ages o (update o k s) := by
  constructor <;> intro k' <;> by_cases h : k' = k
  · subst h
    rwa [update_self]
  · rw [update_of_ne h]
  · subst h
    rwa [update_self]
  · rw [update_of_ne h]

theorem ages_put (o : Bucket K B) (k : K) (b : B) : Ages o (put o k b) :=
  ages_update (prefix_append _ _) (prefix_append _ _)

theorem ages_delete (o : Bucket K B) (k : K) : Ages o (delete o k) := by
  apply ages_update
  · rw [Shelf.written_delete]
  · exact prefix_append _ _

variable {S : Service K R B D F V} {o o₀ o₁ o₂ : Bucket K B} {k : K} {r : R} {b b' : B}

theorem ages_perform [DecidableEq R] [DecidableEq D] (detail : F) (op : Op K R B D P) :
    Ages o (perform S o detail op).2 := by
  have hSame := Ages.refl o
  unfold perform
  split
  · exact hSame
  · split <;> exact hSame
  · split <;> exact hSame
  · split <;> exact hSame
  · split
    · exact hSame
    · split
      · split
        · exact hSame
        · exact ages_put o _ _
      · split <;> exact hSame
  · split
    · exact hSame
    · exact ages_put o _ _
  · split
    · exact hSame
    · split_ifs
      · exact ages_delete o _
      · exact hSame

theorem ages_step [DecidableEq R] [DecidableEq D] (op : Op K R B D P) (reply : Reply F) :
    Ages o ((machine S P).step op reply o).2 := by
  have hPerform := ages_perform (S := S) (o := o) S.plain op
  rcases reply with detail | _ | happened | happened
  · exact ages_perform detail op
  · exact Ages.refl o
  · cases happened
    · exact Ages.refl o
    · exact hPerform
  · cases happened
    · exact Ages.refl o
    · exact hPerform

omit [DecidableEq K] in
theorem Stored.between (h₀ : Stored S o₀ k b r) (h₀₁ : Ages o₀ o₁) (h₁₂ : Ages o₁ o₂)
    (h₂ : Stored S o₂ k b' r) : Stored S o₁ k b r := by
  have hLabel := S.label_injective k (h₀.2.trans h₂.2.symm)
  have hGone : (o₁ k).gone.length = (o₀ k).gone.length :=
    le_antisymm ((h₁₂.gone k).length_le.trans hLabel.ge) (h₀₁.gone k).length_le
  have hWritten : (o₁ k).written[(o₁ k).gone.length]? = some b := by
    rw [hGone]
    exact h₀₁.grows.version (Shelf.written_current h₀.1)
  refine ⟨?_, ?_⟩
  · cases hCurrent : (o₁ k).current with
    | none => simp [Shelf.written, hCurrent] at hWritten
    | some c => simpa [Shelf.written, hCurrent] using hWritten
  · rw [revision, hGone]
    exact h₀.2

omit [DecidableEq K] in
theorem not_stored_of_gone (h : (o₀ k).gone.length < (o₁ k).gone.length) :
    ¬ Stored S o₁ k b (revision S o₀ k) := by
  rintro ⟨-, hRevision⟩
  exact h.ne' (S.label_injective k hRevision)

end Ages

section Rules

variable [DecidableEq R] [DecidableEq D] {S : Service K R B D F V} {ε : Type}
  {explain : StoreError → ε} {o : Bucket K B} {k : K}

def ask (explain : StoreError → ε) (op : Op K R B D P) :
    ExceptT ε (Prog (signature K R B D V P)) (op.Value V) :=
  ExceptT.mk do
    match ← Prog.perform op with
    | .ok value => pure (.ok value)
    | .error e => pure (.error (explain e))

theorem calmly_ask (op : Op K R B D P) :
    (machine S P).calmly (ask explain op) o =
      (some ((perform S o S.plain op).1.mapError explain), (perform S o S.plain op).2) := by
  unfold ask Machine.calmly
  rw [ExceptT.run_mk, Prog.perform_bind, Machine.run_call_calm]
  have hStep : (machine S P).step op (machine S P).calm o =
      (some (perform S o S.plain op).1, (perform S o S.plain op).2) := rfl
  rw [hStep]
  generalize perform S o S.plain op = outcome
  obtain ⟨_ | _, _⟩ := outcome <;> rfl

variable {rely : Bucket K B → Bucket K B → Prop}
  {guar : List (Deed (signature K R B D V P) (Bucket K B)) →
    Deed (signature K R B D V P) (Bucket K B) → Prop}
  {deeds : List (Deed (signature K R B D V P) (Bucket K B))}

theorem acts_ask (op : Op K R B D P)
    (post : Post (signature K R B D V P) (Bucket K B) ε (op.Value V)) :
    (machine S P).Acts rely guar (ask explain op) post deeds o ↔
      ∀ o₁, rely o o₁ → ∀ reply : Reply F, guar deeds ((machine S P).deed op reply o₁) ∧
        ∀ answer, ((machine S P).step op reply o₁).1 = some answer →
          post (deeds ++ [(machine S P).deed op reply o₁]) (answer.mapError explain)
            ((machine S P).step op reply o₁).2 := by
  refine forall₂_congr fun o₁ _ => forall_congr' fun reply => and_congr_right fun _ => ?_
  refine forall₂_congr fun answer _ => ?_
  cases answer <;> rfl

def Idle (guar : List (Deed (signature K R B D V P) (Bucket K B)) →
    Deed (signature K R B D V P) (Bucket K B) → Prop) : Prop :=
  ∀ deeds op answer o, guar deeds ⟨op, answer, o, o⟩

section Each

variable {op : Op K R B D P}

theorem acts_answers {post : Post (signature K R B D V P) (Bucket K B) ε (op.Value V)}
    (hIdle : Idle guar)
    (hFails : ∀ o₁ e, rely o o₁ → e = .unavailable ∨ e = op.lost →
      post (deeds ++ [⟨op, some (.error e), o₁, o₁⟩]) (.error (explain e)) o₁)
    (hAnswers : ∀ o₁ detail, rely o o₁ → ∀ answer o₂, perform S o₁ detail op = (answer, o₂) →
      (∀ told, guar deeds ⟨op, told, o₁, o₂⟩) ∧
      post (deeds ++ [⟨op, some answer, o₁, o₂⟩]) (answer.mapError explain) o₂ ∧
      post (deeds ++ [⟨op, some (.error op.lost), o₁, o₂⟩]) (.error (explain op.lost)) o₂) :
    (machine S P).Acts rely guar (ask explain op) post deeds o := by
  rw [acts_ask]
  intro o₁ hRely reply
  rcases reply with detail | _ | happened | happened
  · obtain ⟨hGuar, hPost, -⟩ := hAnswers o₁ detail hRely _ _ rfl
    refine ⟨hGuar _, fun answer hAnswer => ?_⟩
    cases hAnswer
    exact hPost
  · refine ⟨hIdle .., fun answer hAnswer => ?_⟩
    cases hAnswer
    exact hFails o₁ .unavailable hRely (.inl rfl)
  · cases happened with
    | false =>
      refine ⟨hIdle .., fun answer hAnswer => ?_⟩
      cases hAnswer
      exact hFails o₁ op.lost hRely (.inr rfl)
    | true =>
      obtain ⟨hGuar, -, hPost⟩ := hAnswers o₁ S.plain hRely _ _ rfl
      refine ⟨hGuar _, fun answer hAnswer => ?_⟩
      cases hAnswer
      exact hPost
  · cases happened with
    | false => exact ⟨hIdle .., nofun⟩
    | true => exact ⟨(hAnswers o₁ S.plain hRely _ _ rfl).1 none, nofun⟩

end Each

theorem Acts.attempt {what : P}
    {post : Post (signature K R B D V P) (Bucket K B) ε Unit}
    (hIdle : Idle guar)
    (h : ∀ o₁ answer, rely o o₁ →
      post (deeds ++ [⟨.attempt what, some answer, o₁, o₁⟩]) (answer.mapError explain) o₁) :
    (machine S P).Acts rely guar (ask explain (.attempt what)) post deeds o := by
  refine acts_answers hIdle (fun o₁ e hRely _ => h o₁ (.error e) hRely) ?_
  rintro o₁ detail hRely _ _ ⟨⟩
  exact ⟨fun _ => hIdle .., h o₁ _ hRely, h o₁ (.error .unavailable) hRely⟩

theorem Acts.get
    {post : Post (signature K R B D V P) (Bucket K B) ε (B × R)}
    (hIdle : Idle guar)
    (hError : ∀ o₁ e, rely o o₁ → (e = .notFound → (o₁ k).current = none) →
      post (deeds ++ [⟨.get k, some (.error e), o₁, o₁⟩]) (.error (explain e)) o₁)
    (hOk : ∀ o₁ b r, rely o o₁ → Stored S o₁ k b r →
      post (deeds ++ [⟨.get k, some (.ok (b, r)), o₁, o₁⟩]) (.ok (b, r)) o₁) :
    (machine S P).Acts rely guar (ask explain (.get k)) post deeds o := by
  refine acts_answers hIdle (fun o₁ e hRely he => hError o₁ e hRely ?_) ?_
  · rintro rfl
    rcases he with he | he <;> cases he
  · intro o₁ detail hRely answer o₂ hPerform
    have hLost := hError o₁ .unavailable hRely nofun
    cases hCurrent : (o₁ k).current with
    | none =>
      simp only [perform, hCurrent] at hPerform
      cases hPerform
      exact ⟨fun _ => hIdle .., hError o₁ .notFound hRely fun _ => hCurrent, hLost⟩
    | some b =>
      simp only [perform, hCurrent] at hPerform
      cases hPerform
      exact ⟨fun _ => hIdle .., hOk o₁ b _ hRely ⟨hCurrent, rfl⟩, hLost⟩

theorem Acts.head
    {post : Post (signature K R B D V P) (Bucket K B) ε (V × R)}
    (hIdle : Idle guar)
    (hError : ∀ o₁ e, rely o o₁ → (e = .notFound → (o₁ k).current = none) →
      post (deeds ++ [⟨.head k, some (.error e), o₁, o₁⟩]) (.error (explain e)) o₁)
    (hOk : ∀ o₁ b r detail, rely o o₁ → Stored S o₁ k b r →
      post (deeds ++ [⟨.head k, some (.ok (S.report detail b, r)), o₁, o₁⟩])
        (.ok (S.report detail b, r)) o₁) :
    (machine S P).Acts rely guar (ask explain (.head k)) post deeds o := by
  refine acts_answers hIdle (fun o₁ e hRely he => hError o₁ e hRely ?_) ?_
  · rintro rfl
    rcases he with he | he <;> cases he
  · intro o₁ detail hRely answer o₂ hPerform
    have hLost := hError o₁ .unavailable hRely nofun
    cases hCurrent : (o₁ k).current with
    | none =>
      simp only [perform, hCurrent] at hPerform
      cases hPerform
      exact ⟨fun _ => hIdle .., hError o₁ .notFound hRely fun _ => hCurrent, hLost⟩
    | some b =>
      simp only [perform, hCurrent] at hPerform
      cases hPerform
      exact ⟨fun _ => hIdle .., hOk o₁ b _ detail hRely ⟨hCurrent, rfl⟩, hLost⟩

theorem Acts.putConditional {body : B} {condition : Condition R}
    {post : Post (signature K R B D V P) (Bucket K B) ε R}
    (hIdle : Idle guar)
    (hError : ∀ o₁ e, rely o o₁ →
      post (deeds ++ [⟨.putConditional k body condition, some (.error e), o₁, o₁⟩])
        (.error (explain e)) o₁)
    (hDone : ∀ o₁, rely o o₁ → Met S o₁ k condition → let o₂ := put o₁ k body
      (∀ told, guar deeds ⟨.putConditional k body condition, told, o₁, o₂⟩) ∧
      post (deeds ++ [⟨.putConditional k body condition, some (.ok (revision S o₂ k)), o₁, o₂⟩])
        (.ok (revision S o₂ k)) o₂ ∧
      post (deeds ++ [⟨.putConditional k body condition, some (.error .ambiguous), o₁, o₂⟩])
        (.error (explain .ambiguous)) o₂) :
    (machine S P).Acts rely guar (ask explain (.putConditional k body condition)) post deeds o := by
  refine acts_answers hIdle (fun o₁ e hRely _ => hError o₁ e hRely) ?_
  intro o₁ detail hRely answer o₂ hPerform
  cases hRefusal : refusal S o₁ k condition with
  | none =>
    simp only [perform, hRefusal] at hPerform
    cases hPerform
    exact hDone o₁ hRely (met_of_refusal hRefusal)
  | some e =>
    simp only [perform, hRefusal] at hPerform
    cases hPerform
    exact ⟨fun _ => hIdle .., hError o₁ e hRely, hError o₁ .ambiguous hRely⟩

theorem Acts.deleteConditional {r : R}
    {post : Post (signature K R B D V P) (Bucket K B) ε Unit}
    (hIdle : Idle guar)
    (hError : ∀ o₁ e, rely o o₁ →
      post (deeds ++ [⟨.deleteConditional k r, some (.error e), o₁, o₁⟩]) (.error (explain e)) o₁)
    (hDone : ∀ o₁ b, rely o o₁ → Stored S o₁ k b r → let o₂ := delete o₁ k
      (∀ told, guar deeds ⟨.deleteConditional k r, told, o₁, o₂⟩) ∧
      post (deeds ++ [⟨.deleteConditional k r, some (.ok ()), o₁, o₂⟩]) (.ok ()) o₂ ∧
      post (deeds ++ [⟨.deleteConditional k r, some (.error .ambiguous), o₁, o₂⟩])
        (.error (explain .ambiguous)) o₂) :
    (machine S P).Acts rely guar (ask explain (.deleteConditional k r)) post deeds o := by
  refine acts_answers hIdle (fun o₁ e hRely _ => hError o₁ e hRely) ?_
  intro o₁ detail hRely answer o₂ hPerform
  have hKept (e : StoreError) : (∀ told, guar deeds ⟨.deleteConditional k r, told, o₁, o₁⟩) ∧ _ ∧ _ :=
    ⟨fun _ => hIdle .., hError o₁ e hRely, hError o₁ .ambiguous hRely⟩
  cases hCurrent : (o₁ k).current with
  | none =>
    simp only [perform, hCurrent] at hPerform
    cases hPerform
    exact hKept .notFound
  | some b =>
    simp only [perform, hCurrent] at hPerform
    split_ifs at hPerform with hRevision
    · cases hPerform
      exact hDone o₁ b hRely ⟨hCurrent, hRevision⟩
    · cases hPerform
      exact hKept .conflict

theorem Acts.putImmutable {source : B} {expected : D}
    {post : Post (signature K R B D V P) (Bucket K B) ε (V × R)}
    (hIdle : Idle guar)
    (hError : ∀ o₁ e, rely o o₁ →
      post (deeds ++ [⟨.putImmutable k source expected, some (.error e), o₁, o₁⟩])
        (.error (explain e)) o₁)
    (hThere : ∀ o₁ b r detail, rely o o₁ → Stored S o₁ k b r → S.digest b = expected →
      post (deeds ++ [⟨.putImmutable k source expected, some (.ok (S.report detail b, r)), o₁, o₁⟩])
        (.ok (S.report detail b, r)) o₁)
    (hDone : ∀ o₁ detail, rely o o₁ → (o₁ k).current = none → S.digest source = expected →
      let o₂ := put o₁ k source
      (∀ told, guar deeds ⟨.putImmutable k source expected, told, o₁, o₂⟩) ∧
      post (deeds ++ [⟨.putImmutable k source expected,
        some (.ok (S.report detail source, revision S o₂ k)), o₁, o₂⟩])
        (.ok (S.report detail source, revision S o₂ k)) o₂ ∧
      post (deeds ++ [⟨.putImmutable k source expected, some (.error .ambiguous), o₁, o₂⟩])
        (.error (explain .ambiguous)) o₂) :
    (machine S P).Acts rely guar (ask explain (.putImmutable k source expected)) post deeds o := by
  refine acts_answers hIdle (fun o₁ e hRely _ => hError o₁ e hRely) ?_
  intro o₁ detail hRely answer o₂ hPerform
  have hKept (e : StoreError) :
      (∀ told, guar deeds ⟨.putImmutable k source expected, told, o₁, o₁⟩) ∧ _ ∧ _ :=
    ⟨fun _ => hIdle .., hError o₁ e hRely, hError o₁ .ambiguous hRely⟩
  rw [perform] at hPerform
  cases hCurrent : (o₁ k).current with
  | none =>
    simp only [hCurrent] at hPerform
    split_ifs at hPerform with hFirst hSource
    · cases hPerform
      exact hKept .integrity
    · cases hPerform
      exact hKept .integrity
    · cases hPerform
      exact hDone o₁ detail hRely hCurrent (not_not.mp hSource)
  | some b =>
    simp only [hCurrent] at hPerform
    split_ifs at hPerform with hFirst hSame
    · cases hPerform
      exact hKept .integrity
    · cases hPerform
      exact ⟨fun _ => hIdle .., hThere o₁ b _ detail hRely ⟨hCurrent, rfl⟩ hSame,
        hError o₁ .ambiguous hRely⟩
    · cases hPerform
      exact hKept .conflict

end Rules

end Program.Objects
