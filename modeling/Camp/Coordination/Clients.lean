import Camp.Coordination.Leases
import Camp.Coordination.Generations

/-!
# Clients of the object store

Any number of calls on pointers, leases and generations run at the same time, for any
capsules and lineages. Here is what a call learns when it reads a document: the
revision it was told names that document for ever.
-/

namespace Camp.Coordination

open Wire Wire.Utf8 Program Program.Objects Program.Machine

inductive Call where
  | acquire (rounds : Nat) (capsule : Bytes) (lineage : Lineage) (owner : LeaseOwner)
      (observed : Option PointerRecord) (now : Time) (ttl : Int64)
  | acquireBranchFrom (rounds : Nat) (capsule : Bytes) (lineage : Lineage) (owner : LeaseOwner)
      (source : PointerRecord) (now : Time) (ttl : Int64)
  | revalidateLease (token : LeaseToken) (now : Time)
  | renew (token : LeaseToken) (now : Time) (ttl : Int64)
  | release (token : LeaseToken)
  | create (next : LatestPointer)
  | compareAndSwap (expected : PointerRecord) (next : LatestPointer)
  | selectHistorical (expected : PointerRecord) (historical : LatestPointer)
  | putAndVerify (metadata : GenerationMetadata) (source : Option Bytes)
  deriving DecidableEq

inductive Result where
  | token (token : LeaseToken)
  | record (record : PointerRecord)
  | generation (record : GenerationRecord)
  | nothing
  deriving DecidableEq

namespace Call

def remote : Call → Remote Result
  | acquire rounds capsule lineage owner observed now ttl => do
    return .token (← Leases.acquire rounds capsule lineage owner observed now ttl)
  | acquireBranchFrom rounds capsule lineage owner source now ttl => do
    return .token (← Leases.acquireBranchFrom rounds capsule lineage owner source now ttl)
  | revalidateLease token now => do
    Leases.revalidate token now
    return .nothing
  | renew token now ttl => do return .token (← Leases.renew token now ttl)
  | release token => do
    Leases.release token
    return .nothing
  | create next => do return .record (← Pointers.create next)
  | compareAndSwap expected next => do return .record (← Pointers.compareAndSwap expected next)
  | selectHistorical expected historical => do
    return .record (← Pointers.selectHistorical expected historical)
  | putAndVerify metadata source => do
    return .generation (← Generations.putAndVerify metadata source)

def program (c : Call) : Prog RemoteSignature (Except Error Result) := c.remote.run

end Call

abbrev storeMachine (S : ObjectStore) : Machine RemoteSignature Bucket := machine S Probe

abbrev StoreDeed := Deed RemoteSignature Bucket

abbrev StorePost := Post RemoteSignature Bucket Error

/-- Calls in progress, each under a name of its own, over one store. -/
abbrev Clients (ι : Type) := Pool RemoteSignature Bucket ι Call (Except Error Result)

def Clients.Run (S : ObjectStore) {ι : Type} [DecidableEq ι] (o : Bucket) (P : Clients ι) : Prop :=
  Relation.ReflTransGen (Pool.Step (storeMachine S) Call.program) (Pool.start o) P

def Holds {α : Type} [Wired α] (S : ObjectStore) (o : Bucket) (key : Bytes) (document : α)
    (revision : Bytes) : Prop :=
  ∃ body, Stored S o key body revision ∧ unmarshal body = some document

def Quiet (deeds : List StoreDeed) : Prop := ∀ d ∈ deeds, d.after = d.before

theorem Quiet.append {deeds more : List StoreDeed} (h : Quiet deeds) (h' : Quiet more) :
    Quiet (deeds ++ more) := by
  intro d hd
  rcases List.mem_append.mp hd with hd | hd
  · exact h d hd
  · exact h' d hd

/-- A document was read: its revision names it from then on. -/
structure Saw {α : Type} [Wired α] (S : ObjectStore) (o : Bucket) (deeds : List StoreDeed)
    (key : Bytes) (document : α) (revision : Bytes) : Prop where
  named : ∃ body, Names S o key revision body ∧ unmarshal body = some document
  seen : ∃ d ∈ deeds, Holds S d.before key document revision

namespace Saw

variable {α : Type} [Wired α] {S : ObjectStore} {o o' : Bucket} {deeds : List StoreDeed}
  {key revision : Bytes} {document : α}

theorem holds {body : Bytes} (h : Saw S o deeds key document revision) (hGrows : Grows o o')
    (hStored : Stored S o' key body revision) : Holds S o' key document revision := by
  obtain ⟨⟨body', hNames, hBody⟩, -⟩ := h
  cases hNames.eq_of_stored hGrows hStored
  exact ⟨body, hStored, hBody⟩

end Saw

section Rules

variable {S : ObjectStore} {guar : List StoreDeed → StoreDeed → Prop} {deeds : List StoreDeed} {o : Bucket}
variable {α : Type} {more : List StoreDeed} {key capsule : Bytes} {lineage : Lineage}

/-- Between two instants the call read the store while it was in `p`. -/
def Glimpsed (rely : Bucket → Bucket → Prop) (o : Bucket) (more : List StoreDeed) (o₁ : Bucket)
    (p : Bucket → Prop) : Prop :=
  ∃ d ∈ more, rely o d.before ∧ rely d.before o₁ ∧ p d.before

theorem Glimpsed.saw [Wired α] {o₁ : Bucket} {revision : Bytes} {document : α}
    (h : Glimpsed Grows o more o₁ (Holds S · key document revision)) : Saw S o₁ more key document revision := by
  obtain ⟨d, hd, -, hGrows, body, hStored, hBody⟩ := h
  exact ⟨⟨body, hStored.names.grows hGrows, hBody⟩, d, hd, body, hStored, hBody⟩

/-- The deeds ask for the document first. If all goes well, what they are told is in `p`. -/
def Told (key : Bytes) (more : List StoreDeed) (p : Bytes → Prop) : Prop :=
  ∃ answer o₁ rest, more = ⟨.get key, some answer, o₁, o₁⟩ :: rest ∧
    ∀ text revision, answer = .ok (text, revision) →
      (∀ d ∈ rest, ∃ value, d.answer = some (.ok value)) → p text

theorem Told.mono {p q : Bytes → Prop} (h : Told key more p) (hpq : ∀ text, p text → q text) : Told key more q := by
  obtain ⟨answer, o₁, rest, rfl, hText⟩ := h
  exact ⟨answer, o₁, rest, rfl, fun text revision hAnswer hRest => hpq text (hText text revision hAnswer hRest)⟩

/-- What `readJSON` makes of a text. -/
def Readable {α : Type} [Wired α] (text : Bytes) (document : α) : Prop :=
  text.length ≤ maxCoordinationDocumentSize ∧ unmarshal text = some document

section Looking

variable {rely : Bucket → Bucket → Prop} [IsPreorder Bucket rely]
variable {α : Type}

theorem acts_lookJSON [Wired α] {key : Bytes} {post : StorePost (α × Bytes)} (hIdle : Idle guar)
    (hError : ∀ more o₁ e, Quiet more → rely o o₁ →
      (e.is .notFound → Glimpsed rely o more o₁ fun o' => (o' key).current = none) →
      Told key more (fun text => ∀ document : α, ¬ Readable text document) →
      post (deeds ++ more) (.error e) o₁)
    (hOk : ∀ more o₁ document revision, Quiet more → rely o o₁ →
      Glimpsed rely o more o₁ (Holds S · key document revision) →
      Told key more (fun text => ∀ document', Readable text document' → document' = document) →
      post (deeds ++ more) (.ok (document, revision)) o₁) :
    (storeMachine S).Acts rely guar (readJSON α key) post deeds o := by
  have hQuiet₁ {a : StoreDeed} (ha : a.after = a.before) : Quiet [a] := by simpa [Quiet] using ha
  apply Acts.bind
  apply Acts.get hIdle
  · intro o₁ e hRely hAbsent
    refine hError _ o₁ _ (hQuiet₁ rfl) hRely (fun hNotFound => ?_) ⟨_, o₁, [], rfl, by simp⟩
    have hKind : e = .notFound := by cases e <;> first | rfl | cases hNotFound
    exact ⟨_, List.mem_cons_self, hRely, refl_of rely o₁, hAbsent hKind⟩
  · intro o₁ body revision hRely hStored
    apply Acts.bind
    apply Acts.attempt hIdle
    intro o₂ read hRely₂
    have hRely' := trans_of rely hRely hRely₂
    rw [List.append_assoc]
    have hQuiet := (hQuiet₁ (a := ⟨.get key, some (.ok (body, revision)), o₁, o₁⟩) rfl).append
      (hQuiet₁ (a := ⟨.attempt .readBody, some read, o₂, o₂⟩) rfl)
    rcases read with _ | _
    · exact hError _ o₂ _ hQuiet hRely' nofun ⟨_, o₁, _, rfl, by simp⟩
    · apply Acts.bind
      apply Acts.attempt hIdle
      intro o₃ closed hRely₃
      have hRely'' := trans_of rely hRely' hRely₃
      rw [List.append_assoc]
      have hQuiet := hQuiet.append
        (hQuiet₁ (a := ⟨.attempt .closeBody, some closed, o₃, o₃⟩) rfl)
      rcases closed with _ | _
      · exact hError _ o₃ _ hQuiet hRely'' nofun ⟨_, o₁, _, rfl, by simp⟩
      · dsimp only [Except.mapError]
        split_ifs with hSize
        · refine hError _ o₃ _ hQuiet hRely'' nofun ⟨_, o₁, _, rfl, ?_⟩
          rintro _ _ ⟨⟩ _ document ⟨hShort, -⟩
          omega
        · cases hBody : (unmarshal body : Option α) with
          | none =>
            refine hError _ o₃ _ hQuiet hRely'' nofun ⟨_, o₁, _, rfl, ?_⟩
            rintro _ _ ⟨⟩ _ document ⟨-, hDocument⟩
            cases hBody.symm.trans hDocument
          | some document =>
            refine hOk _ o₃ document revision hQuiet hRely'' ?_ ⟨_, o₁, _, rfl, ?_⟩
            · exact ⟨_, List.mem_cons_self, hRely, trans_of rely hRely₂ hRely₃, body, hStored, hBody⟩
            · rintro _ _ ⟨⟩ _ document' ⟨-, hDocument⟩
              exact Option.some.inj (hDocument.symm.trans hBody)

theorem acts_lookChecked {β : Type} [Wired α] {key : Except Error Bytes} {check : α → Except Error Unit}
    {make : α → Bytes → β} {post : StorePost β} (hIdle : Idle guar)
    (hError : ∀ more o₁ e, Quiet more → rely o o₁ →
      (e.is .notFound → key = .error e ∨ (∃ document, check document = .error e) ∨
        ∃ k, key = .ok k ∧ Glimpsed rely o more o₁ fun o' => (o' k).current = none) →
      (∀ k, key = .ok k → Told k more fun text => ∀ document, Readable text document →
        check document ≠ .ok ()) →
      post (deeds ++ more) (.error e) o₁)
    (hOk : ∀ more o₁ k document revision, Quiet more → rely o o₁ → key = .ok k →
      Glimpsed rely o more o₁ (Holds S · k document revision) → check document = .ok () →
      Told k more (fun text => ∀ document', Readable text document' → document' = document) →
      post (deeds ++ more) (.ok (make document revision)) o₁) :
    (storeMachine S).Acts rely guar (readChecked key check make) post deeds o := by
  apply Acts.bind
  rw [acts_lift]
  cases key with
  | error e => simpa using hError [] o e nofun (refl_of rely o) (fun _ => .inl rfl) nofun
  | ok k =>
    apply Acts.bind
    apply acts_lookJSON hIdle
    · intro more o₁ e hQuiet hRely hAbsent hTold
      refine hError more o₁ e hQuiet hRely (fun hNotFound => .inr (.inr ⟨k, rfl, hAbsent hNotFound⟩)) ?_
      rintro _ ⟨⟩
      exact hTold.mono fun text hText document hDocument => absurd hDocument (hText document)
    · intro more o₁ document revision hQuiet hRely hHolds hTold
      apply Acts.bind
      rw [acts_lift]
      cases hCheck : check document with
      | error e =>
        refine hError more o₁ e hQuiet hRely (fun _ => .inr (.inl ⟨document, hCheck⟩)) ?_
        rintro _ ⟨⟩
        refine hTold.mono fun text hText document' hDocument hValid => ?_
        rw [hText document' hDocument, hCheck] at hValid
        cases hValid
      | ok _ => exact hOk more o₁ k document revision hQuiet hRely rfl hHolds hCheck hTold

end Looking

theorem acts_readChecked {β : Type} [Wired α] {key : Except Error Bytes} {check : α → Except Error Unit}
    {make : α → Bytes → β} {post : StorePost β} (hIdle : Idle guar)
    (hError : ∀ more o₁ e, Quiet more → Grows o o₁ → post (deeds ++ more) (.error e) o₁)
    (hOk : ∀ more o₁ k document revision, Quiet more → Grows o o₁ → key = .ok k →
      Saw S o₁ more k document revision → check document = .ok () →
      post (deeds ++ more) (.ok (make document revision)) o₁) :
    (storeMachine S).Acts Grows guar (readChecked key check make) post deeds o := by
  apply acts_lookChecked hIdle
  · intro more o₁ e hQuiet hGrows _ _
    exact hError more o₁ e hQuiet hGrows
  · intro more o₁ k document revision hQuiet hGrows hKey hHolds hCheck _
    exact hOk more o₁ k document revision hQuiet hGrows hKey hHolds.saw hCheck

theorem acts_readPointer {post : StorePost PointerRecord} (hIdle : Idle guar)
    (hError : ∀ more o₁ e, Quiet more → Grows o o₁ → post (deeds ++ more) (.error e) o₁)
    (hOk : ∀ more o₁ key record, Quiet more → Grows o o₁ → lineage.pointerKey capsule = .ok key →
      Saw S o₁ more key record.pointer record.revision →
      validatePointer record.pointer capsule lineage = .ok () →
      post (deeds ++ more) (.ok record) o₁) :
    (storeMachine S).Acts Grows guar (Pointers.read capsule lineage) post deeds o :=
  acts_readChecked hIdle hError fun more o₁ key pointer revision =>
    hOk more o₁ key ⟨pointer, revision⟩

theorem acts_readLease {post : StorePost LeaseToken} (hIdle : Idle guar)
    (hError : ∀ more o₁ e, Quiet more → Grows o o₁ → post (deeds ++ more) (.error e) o₁)
    (hOk : ∀ more o₁ key token, Quiet more → Grows o o₁ → lineage.leaseKey capsule = .ok key →
      Saw S o₁ more key token.lease token.revision →
      validateLease token.lease capsule lineage = .ok () →
      post (deeds ++ more) (.ok token) o₁) :
    (storeMachine S).Acts Grows guar (Leases.read capsule lineage) post deeds o :=
  acts_readChecked hIdle hError fun more o₁ key lease revision =>
    hOk more o₁ key ⟨lease, revision⟩

def Reads (S : ObjectStore) {α : Type} (p : Remote α) : Prop :=
  ∀ (guar : List StoreDeed → StoreDeed → Prop) (deeds : List StoreDeed) (o : Bucket)
    (post : StorePost α), Idle guar →
    (∀ more o₁ r, Quiet more → Grows o o₁ → post (deeds ++ more) r o₁) →
    (storeMachine S).Acts Grows guar p post deeds o

namespace Reads

variable {α β : Type}
variable {p : Remote α}

theorem lift (r : Except Error α) : Reads S (liftM r : Remote α) := by
  intro guar deeds o post _ h
  rw [acts_lift]
  simpa using h [] o r nofun (Grows.refl o)

theorem pure (a : α) : Reads S (Pure.pure a : Remote α) := lift (.ok a)

theorem throw (e : Error) : Reads S (MonadExcept.throw e : Remote α) := lift (.error e)

theorem bind {f : α → Remote β} (hp : Reads S p) (hf : ∀ a, Reads S (f a)) : Reads S (p >>= f) := by
  intro guar deeds o post hIdle h
  apply Acts.bind
  apply hp guar deeds o _ hIdle
  rintro more o₁ (e | a) hQuiet hGrows
  · exact h more o₁ _ hQuiet hGrows
  · apply hf a guar (deeds ++ more) o₁ post hIdle
    intro more' o₂ r hQuiet' hGrows'
    rw [List.append_assoc]
    exact h (more ++ more') o₂ r (hQuiet.append hQuiet') (hGrows.trans hGrows')

theorem catching (hp : Reads S p) : Reads S (Program.catching p) := by
  intro guar deeds o post hIdle h
  apply Acts.catching
  apply hp guar deeds o _ hIdle
  intro more o₁ r hQuiet hGrows
  exact h more o₁ (.ok r) hQuiet hGrows

theorem readChecked [Wired α] (key : Except Error Bytes) (check : α → Except Error Unit)
    (make : α → Bytes → β) : Reads S (Coordination.readChecked key check make) := by
  intro guar deeds o post hIdle h
  apply acts_readChecked hIdle
  · intro more o₁ e hQuiet hGrows
    exact h more o₁ _ hQuiet hGrows
  · intro more o₁ k document revision hQuiet hGrows _ _ _
    exact h more o₁ _ hQuiet hGrows

theorem revalidate (observed : PointerRecord) : Reads S (Pointers.revalidate observed) := by
  apply bind (catching (readChecked _ _ _))
  rintro (e | current)
  · dsimp only
    split_ifs
    · exact throw _
    · exact throw _
  · dsimp only
    split_ifs
    · exact throw _
    · exact pure _

end Reads

end Rules

end Camp.Coordination
