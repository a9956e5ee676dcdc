import Camp.Coordination.Exclusion

/-!
# A lease is taken on a pointer that was observed

The pointer is looked at again after the lease was written. When it is no longer as the
caller observed it the lease is given back, and the error of the call says so if that
did not work.
-/

namespace Camp.Coordination

open Wire Wire.Utf8 Program Program.Objects Program.Machine List

section Errors

def Never (kind : Sentinel) {α : Type} (x : Except Error α) : Prop :=
  ∀ e, x = .error e → e.is kind = false

variable {kind : Sentinel} {α β : Type}

theorem never_ok (a : α) : Never kind (.ok a : Except Error α) := nofun

theorem never_error {e : Error} (h : e.is kind = false) : Never kind (.error e : Except Error α) := by
  rintro _ ⟨⟩
  exact h

theorem Never.bind {x : Except Error α} {f : α → Except Error β} (hx : Never kind x)
    (hf : ∀ a, Never kind (f a)) : Never kind (x >>= f) := by
  cases x with
  | error e =>
    rintro _ ⟨⟩
    exact hx e rfl
  | ok a => exact hf a

theorem Never.ite {p : Prop} [Decidable p] {x y : Except Error α} (hx : Never kind x)
    (hy : Never kind y) : Never kind (if p then x else y) := by
  split
  · exact hx
  · exact hy

theorem never_key (file : String) (l : Lineage) (capsule : Bytes) :
    Never kind (l.key file capsule) := by
  have hSegment (name : String) (value : Bytes) : Never kind (validateObjectKeySegment name value) :=
    (never_ok ()).ite (never_error rfl)
  exact (hSegment _ _).bind fun _ => (hSegment _ _).bind fun _ => never_ok _

theorem never_validateGenerationRef (g : GenerationRef) :
    Never .notFound (validateGenerationRef g) := by
  have hInvalid {format : String} : Never .notFound (throw (invalid format []) : Except Error Unit) :=
    never_error rfl
  unfold validateGenerationRef
  refine Never.ite (hInvalid.bind fun _ => ?_) ?_ <;> exact (never_ok ()).ite hInvalid

theorem never_validatePointer (pointer : LatestPointer) (capsule : Bytes) (lineage : Lineage) :
    Never .notFound (validatePointer pointer capsule lineage) := by
  have hInvalid {format : String} {args : List Bytes} :
      Never .notFound (throw (invalid format args) : Except Error Unit) := never_error rfl
  have hObjectKey (g : GenerationRef) : Never .notFound (generationObjectKey capsule lineage g) :=
    (never_key _ _ _).bind fun _ => (never_validateGenerationRef g).bind fun _ => never_ok _
  have hParent (child : GenerationRef) (parent : Option GenerationRef) :
      Never .notFound (validateGenerationParent child parent) := by
    cases parent with
    | none => exact never_ok ()
    | some parent =>
      exact (never_validateGenerationRef parent).bind fun _ => hInvalid.ite (never_ok ())
  have hChecks : Never .notFound (do
      let _ ← lineage.pointerKey capsule
      validateGenerationRef pointer.generation
      validateGenerationParent pointer.generation pointer.parent
      let wantObjectKey ← generationObjectKey capsule lineage pointer.generation
      if pointer.objectKey ≠ wantObjectKey || pointer.size < 0 || pointer.createdAt.isZero ||
          pointer.sessionID.isEmpty then
        throw (invalid "pointer lacks required publication metadata: %w" [])) :=
    (never_key _ _ _).bind fun _ => (never_validateGenerationRef _).bind fun _ =>
      (hParent _ _).bind fun _ => (hObjectKey _).bind fun _ => hInvalid.ite (never_ok ())
  unfold validatePointer
  exact (hInvalid.bind fun _ => hChecks).ite hChecks

end Errors

section Pointer

variable {S : ObjectStore} {capsule key : Bytes} {lineage : Lineage} {o : Bucket}

/-- The pointer of the lineage is as it was observed: the same version, with the same document,
or none. -/
def AsObserved (S : ObjectStore) (o : Bucket) (capsule : Bytes) (lineage : Lineage) :
    Option PointerRecord → Prop
  | none => ∃ key, lineage.pointerKey capsule = .ok key ∧ (o key).current = none
  | some record => ∃ key document, lineage.pointerKey capsule = .ok key ∧
      Holds S o key document record.revision ∧ documentsEqual document record.pointer

theorem AsObserved.between {o₀ o₁ o₂ : Bucket} {record : PointerRecord}
    (h₀ : AsObserved S o₀ capsule lineage (some record)) (h₀₁ : Ages o₀ o₁) (h₁₂ : Ages o₁ o₂)
    (h₂ : AsObserved S o₂ capsule lineage (some record)) :
    AsObserved S o₁ capsule lineage (some record) := by
  obtain ⟨key, document, hKey, ⟨body, hStored, hBody⟩, hEqual⟩ := h₀
  obtain ⟨key', -, hKey', ⟨body', hStored', -⟩, -⟩ := h₂
  cases hKey.symm.trans hKey'
  exact ⟨key, document, hKey, ⟨body, hStored.between h₀₁ h₁₂ hStored', hBody⟩, hEqual⟩

variable {guar : List StoreDeed → StoreDeed → Prop} {deeds : List StoreDeed}

theorem acts_lookPointer {post : StorePost PointerRecord}
    (hIdle : Idle guar)
    (hError : ∀ more o₁ e, Quiet more → Ages o o₁ →
      (e.is .notFound → Glimpsed Ages o more o₁ (AsObserved S · capsule lineage none)) →
      post (deeds ++ more) (.error e) o₁)
    (hOk : ∀ more o₁ record, Quiet more → Ages o o₁ →
      Glimpsed Ages o more o₁ (fun o' => ∃ key, lineage.pointerKey capsule = .ok key ∧
        Holds S o' key record.pointer record.revision) →
      post (deeds ++ more) (.ok record) o₁) :
    (storeMachine S).Acts Ages guar (Pointers.read capsule lineage) post deeds o := by
  apply acts_lookChecked hIdle
  · intro more o₁ e hQuiet hAges hAbsent _
    refine hError more o₁ e hQuiet hAges fun hNotFound => ?_
    rcases hAbsent hNotFound with hKey | ⟨document, hCheck⟩ | ⟨k, hKey, d, hd, hBefore, hAfter, hNone⟩
    · rw [never_key _ lineage capsule e hKey] at hNotFound
      cases hNotFound
    · rw [never_validatePointer _ _ _ e hCheck] at hNotFound
      cases hNotFound
    · exact ⟨d, hd, hBefore, hAfter, k, hKey, hNone⟩
  · intro more o₁ k document revision hQuiet hAges hKey hHolds _ _
    obtain ⟨d, hd, hBefore, hAfter, hHolds⟩ := hHolds
    exact hOk more o₁ ⟨document, revision⟩ hQuiet hAges ⟨d, hd, hBefore, hAfter, k, hKey, hHolds⟩

theorem acts_lookAgain {observed : PointerRecord}
    {post : StorePost Unit} (hIdle : Idle guar)
    (hError : ∀ more o₁ e, Quiet more → Ages o o₁ → post (deeds ++ more) (.error e) o₁)
    (hOk : ∀ more o₁, Quiet more → Ages o o₁ →
      Glimpsed Ages o more o₁
        (AsObserved S · observed.pointer.capsule observed.pointer.lineage (some observed)) →
      post (deeds ++ more) (.ok ()) o₁) :
    (storeMachine S).Acts Ages guar (Pointers.revalidate observed) post deeds o := by
  apply Acts.catching_bind
  apply acts_lookPointer hIdle
  · intro more o₁ e hQuiet hAges _
    dsimp only
    split_ifs
    · exact hError more o₁ _ hQuiet hAges
    · exact hError more o₁ _ hQuiet hAges
  · rintro more o₁ ⟨pointer, revision⟩ hQuiet hAges ⟨d, hd, hBefore, hAfter, key, hKey, hHolds⟩
    dsimp only
    split_ifs with hSame
    · exact hError more o₁ _ hQuiet hAges
    · simp only [Bool.or_eq_true, decide_eq_true_eq, Bool.not_eq_true', not_or, not_not,
        Bool.not_eq_false] at hSame
      obtain ⟨rfl, hEqual⟩ := hSame
      exact hOk more o₁ hQuiet hAges ⟨d, hd, hBefore, hAfter, key, pointer, hKey, hHolds, hEqual⟩

theorem acts_observationErr {observed : Option PointerRecord}
    {post : StorePost (Option Error)} (hIdle : Idle guar)
    (hObserved : ∀ record, observed = some record →
      record.pointer.capsule = capsule ∧ record.pointer.lineage = lineage)
    (hChanged : ∀ more o₁ reason, Quiet more → Ages o o₁ → post (deeds ++ more) (.ok (some reason)) o₁)
    (hSame : ∀ more o₁, Quiet more → Ages o o₁ →
      Glimpsed Ages o more o₁ (AsObserved S · capsule lineage observed) →
      post (deeds ++ more) (.ok none) o₁) :
    (storeMachine S).Acts Ages guar (Leases.observationErr capsule lineage observed) post deeds o := by
  cases observed with
  | none =>
    apply Acts.catching_bind
    apply acts_lookPointer hIdle
    · intro more o₁ e hQuiet hAges hAbsent
      dsimp only
      split_ifs with hNotFound
      · exact hSame more o₁ hQuiet hAges (hAbsent hNotFound)
      · exact hChanged more o₁ _ hQuiet hAges
    · intro more o₁ record hQuiet hAges _
      exact hChanged more o₁ _ hQuiet hAges
  | some observed =>
    obtain ⟨rfl, rfl⟩ := hObserved observed rfl
    apply Acts.catching_bind
    apply acts_lookAgain hIdle
    · intro more o₁ e hQuiet hAges
      dsimp only
      split_ifs
      · exact hChanged more o₁ _ hQuiet hAges
      · exact hChanged more o₁ _ hQuiet hAges
    · intro more o₁ hQuiet hAges hGlimpsed
      exact hSame more o₁ hQuiet hAges hGlimpsed

end Pointer

section Lease

variable {S : ObjectStore} {capsule key : Bytes} {lineage : Lineage} {o o₀ o₁ : Bucket}
  {deeds more : List StoreDeed} {token : LeaseToken}

/-- The calls of the other clients only make the store older. -/
def Ageing (_ : List StoreDeed) (d : StoreDeed) : Prop := Ages d.before d.after

theorem idle_ageing : Idle (Ageing : List StoreDeed → StoreDeed → Prop) :=
  fun _ _ _ o => Ages.refl o

def LeaseWritten (S : ObjectStore) (o : Bucket) (token : LeaseToken) : Prop :=
  ∃ key body, token.lease.lineage.leaseKey token.lease.capsule = .ok key ∧
    Names S o key token.revision body ∧
    (marshal token.lease = some body ∨ unmarshal body = some token.lease)

theorem LeaseWritten.ages (h : LeaseWritten S o token) (hAges : Ages o o₁) :
    LeaseWritten S o₁ token := by
  obtain ⟨key, body, hKey, hNames, hBody⟩ := h
  exact ⟨key, body, hKey, hNames.grows hAges.grows, hBody⟩

def ReportsRelease (e : Error) : Prop :=
  ∃ reason cause, e = .join reason (.wrap "release acquired lease: %w" [] cause)

def Withdrawn (deeds : List StoreDeed) (o : Bucket) : Prop :=
  ∀ d ∈ deeds, ∀ key body condition, d.op = .putConditional key body condition →
    d.after ≠ d.before → (d.after key).gone.length < (o key).gone.length

theorem Withdrawn.ages (h : Withdrawn deeds o) (hAges : Ages o o₁) : Withdrawn deeds o₁ := by
  intro d hd key body condition hOp hWrote
  exact (h d hd key body condition hOp hWrote).trans_le (hAges.gone key).length_le

theorem withdrawn_of_quiet (h : Quiet deeds) : Withdrawn deeds o :=
  fun d hd _ _ _ _ hWrote => absurd (h d hd) hWrote

/-- The deeds have written under this key only, and what they wrote is not forgotten. -/
def WroteAt (key : Bytes) (deeds : List StoreDeed) (o : Bucket) : Prop :=
  ∀ d ∈ deeds, d.after ≠ d.before →
    (∃ body condition, d.op = .putConditional key body condition) ∧
      (d.after key).gone.length < (o key).written.length

theorem WroteAt.ages (h : WroteAt key deeds o) (hAges : Ages o o₁) : WroteAt key deeds o₁ := by
  intro d hd hWrote
  obtain ⟨hOp, hLength⟩ := h d hd hWrote
  exact ⟨hOp, hLength.trans_le (hAges.written key).length_le⟩

theorem wroteAt_of_quiet (h : Quiet deeds) : WroteAt key deeds o :=
  fun d hd hWrote => absurd (h d hd) hWrote

theorem WroteAt.append (h : WroteAt key deeds o) (h' : WroteAt key more o) :
    WroteAt key (deeds ++ more) o := by
  intro d hd
  rcases mem_append.mp hd with hd | hd
  · exact h d hd
  · exact h' d hd

theorem wroteAt_put (o : Bucket) (key body : Bytes) (condition : Condition Bytes)
    (told : Option (RemoteSignature.Answer (.putConditional key body condition))) :
    WroteAt key [⟨.putConditional key body condition, told, o, put o key body⟩] (put o key body) := by
  intro d hd _
  cases mem_singleton.mp hd
  refine ⟨⟨body, condition, rfl⟩, ?_⟩
  simp [put, Shelf.put, Shelf.written]

/-- The text that is read back is the lease that was to be written. -/
def Shows (lease : WriterLease) (text : Bytes) : Prop :=
  ∃ current, Readable text current ∧ validateLease current lease.capsule lease.lineage = .ok () ∧
    documentsEqual current lease = true

/-- The write `d` of the lease was reported as ambiguous, and it is all that the call may
have changed. The lease was then read back: that failed, or another document was there. -/
def Unsettled (deeds : List StoreDeed) (d : StoreDeed) : Prop :=
  ∃ earlier later lease key body condition o₁ o₂, deeds = earlier ++ d :: later ∧ Quiet earlier ∧ Quiet later ∧
    d = ⟨.putConditional key body condition, some (.error .ambiguous), o₁, o₂⟩ ∧
    lease.lineage.leaseKey lease.capsule = .ok key ∧ marshal lease = some body ∧
    Told key later fun text => ¬ Shows lease text

theorem Unsettled.eq_of_changed {d d' : StoreDeed} (h : Unsettled deeds d) (hd : d' ∈ deeds)
    (hChanged : d'.after ≠ d'.before) : d' = d := by
  obtain ⟨earlier, later, _, _, _, _, _, _, rfl, hEarlier, hLater, -⟩ := h
  rcases mem_append.mp hd with hd | hd
  · exact absurd (hEarlier d' hd) hChanged
  · rcases mem_cons.mp hd with hd | hd
    · exact hd
    · exact absurd (hLater d' hd) hChanged

/-- A call that fails has withdrawn what it wrote, or says what it does not know. -/
def Excused (deeds : List StoreDeed) (e : Error) (o : Bucket) : Prop :=
  Withdrawn deeds o ∨ ReportsRelease e ∨ e = plainly .ambiguous ∧ ∃ d, Unsettled deeds d

theorem Excused.ages {e : Error} (h : Excused deeds e o) (hAges : Ages o o₁) :
    Excused deeds e o₁ := h.imp_left fun hWithdrawn => hWithdrawn.ages hAges

theorem excused_of_quiet (h : Quiet deeds) (e : Error) : Excused deeds e o :=
  .inl (withdrawn_of_quiet h)

/-- The result of an acquisition: the lease was written before the pointer was seen to be as
observed, or there is an excuse. -/
def Acquired (S : ObjectStore) (o₀ : Bucket) (seen : Bucket → Prop) (deeds : List StoreDeed) :
    Except Error LeaseToken → Bucket → Prop
  | .ok token, o => (∃ key, token.lease.lineage.leaseKey token.lease.capsule = .ok key ∧
      WroteAt key deeds o) ∧ Glimpsed Ages o₀ deeds o fun o' => LeaseWritten S o' token ∧ seen o'
  | .error e, o => Excused deeds e o

theorem acts_releaseAcquired (hKey : token.lease.lineage.leaseKey token.lease.capsule = .ok key)
    {post : StorePost Unit}
    (hFailed : ∀ deeds e o₁, post deeds (.error (.wrap "release acquired lease: %w" [] e)) o₁)
    (hDone : ∀ told o₁, Ages o o₁ →
      post (deeds ++ [⟨.deleteConditional key token.revision, told, o₁, delete o₁ key⟩]) (.ok ())
        (delete o₁ key)) :
    (storeMachine S).Acts Ages Ageing (Leases.releaseAcquiredLease token) post deeds o := by
  apply Acts.bind
  rw [acts_lift, hKey]
  apply Acts.catching_bind
  have hError (deeds : List StoreDeed) (e : Error) (o₁ : Bucket) :
      (storeMachine S).Acts Ages Ageing (if e.is .conflict || e.is .notFound then
        throw (.wrap "release acquired lease: %w" [] (.join (.sentinel .leaseLost) e))
      else throw (.wrap "release acquired lease: %w" [] e) : Remote Unit) post deeds o₁ := by
    split_ifs
    · exact hFailed ..
    · exact hFailed ..
  unfold deleteConditional
  split_ifs
  · exact hError ..
  · apply Acts.deleteConditional idle_ageing
    · intro o₁ e _
      exact hError ..
    · intro o₁ body hAges _
      exact ⟨fun _ => ages_delete o₁ key, hDone _ o₁ hAges, hError ..⟩

theorem acts_withdraw (hKey : token.lease.lineage.leaseKey token.lease.capsule = .ok key)
    (hWrote : WroteAt key deeds o) (reason : Error) (seen : Bucket → Prop) :
    (storeMachine S).Acts Ages Ageing (Leases.giveBack token reason) (Acquired S o₀ seen) deeds o := by
  apply Acts.catching_bind
  apply acts_releaseAcquired hKey
  · intro deeds e o₁
    exact .inr (.inl ⟨_, _, rfl⟩)
  · intro told o₁ hAges
    refine .inl fun d hd key' body condition hOp hChanged => ?_
    rcases mem_append.mp hd with hd | hd
    · obtain ⟨⟨body', condition', hOp'⟩, hLength⟩ := hWrote d hd hChanged
      cases hOp.symm.trans hOp'
      have hGone : (delete o₁ key key).gone = (o₁ key).written := by simp [delete, Shelf.delete]
      rw [hGone]
      exact hLength.trans_le (hAges.written key).length_le
    · cases mem_singleton.mp hd
      cases hOp

theorem acts_finish {observed : Option PointerRecord}
    (hObserved : ∀ record, observed = some record →
      record.pointer.capsule = capsule ∧ record.pointer.lineage = lineage)
    (hKey : token.lease.lineage.leaseKey token.lease.capsule = .ok key)
    (hWrote : WroteAt key deeds o) (hWritten : LeaseWritten S o token) (hStart : Ages o₀ o) :
    (storeMachine S).Acts Ages Ageing (Leases.finishAcquire capsule lineage token observed)
      (Acquired S o₀ (AsObserved S · capsule lineage observed)) deeds o := by
  apply Acts.bind
  apply acts_observationErr idle_ageing hObserved
  · intro more o₁ reason hQuiet hAges
    exact acts_withdraw hKey ((hWrote.ages hAges).append (wroteAt_of_quiet hQuiet)) reason _
  · intro more o₁ hQuiet hAges hGlimpsed
    obtain ⟨d, hd, hBefore, hAfter, hSame⟩ := hGlimpsed
    refine ⟨⟨key, hKey, (hWrote.ages hAges).append (wroteAt_of_quiet hQuiet)⟩, d, ?_⟩
    exact ⟨mem_append_right _ hd, hStart.trans hBefore, hAfter, hWritten.ages hBefore, hSame⟩

theorem acts_reconcile {expected : WriterLease}
    {post : StorePost (Option LeaseToken)}
    (hKey : expected.lineage.leaseKey expected.capsule = .ok key)
    (hMissed : ∀ more o₁, Quiet more → Told key more (fun text => ¬ Shows expected text) →
      post (deeds ++ more) (.ok none) o₁)
    (hFound : ∀ more o₁ token, Quiet more → Ages o o₁ →
      token.lease.lineage.leaseKey token.lease.capsule = .ok key → LeaseWritten S o₁ token →
      post (deeds ++ more) (.ok (some token)) o₁) :
    (storeMachine S).Acts Ages Ageing (Leases.reconcileLease expected) post deeds o := by
  apply Acts.catching_bind
  apply acts_lookChecked idle_ageing
  · intro more o₁ e hQuiet _ _ hTold
    refine hMissed more o₁ hQuiet ((hTold key hKey).mono ?_)
    rintro text hText ⟨current, hReadable, hValid, -⟩
    exact hText current hReadable hValid
  · intro more o₁ k lease revision hQuiet hAges hKey' hGlimpsed hValid hTold
    cases hKey.symm.trans hKey'
    obtain ⟨hCapsule, hLineage⟩ := identity_of_validateLease hValid
    obtain ⟨d, hd, hBefore, hAfter, body, hStored, hBody⟩ := hGlimpsed
    have hOwnKey : lease.lineage.leaseKey lease.capsule = .ok key := by
      rw [hCapsule, hLineage]
      exact hKey
    dsimp only
    split_ifs with hEqual
    · refine hFound more o₁ ⟨lease, revision⟩ hQuiet hAges hOwnKey ?_
      exact ⟨key, body, hOwnKey, hStored.names.grows hAfter.grows, .inr hBody⟩
    · refine hMissed more o₁ hQuiet (hTold.mono ?_)
      rintro text hText ⟨current, hReadable, -, hSame⟩
      rw [hText current hReadable] at hSame
      exact hEqual hSame

end Lease

namespace Leases.Acquisition

variable {S : ObjectStore} {a : Leases.Acquisition} {o o₀ : Bucket} {deeds : List StoreDeed}
variable {condition : Condition Bytes}

structure Fitting (a : Leases.Acquisition) : Prop where
  key : a.lineage.leaseKey a.capsule = .ok a.key
  leaseKey : a.lease.lineage.leaseKey a.lease.capsule = .ok a.key
  body : marshal a.lease = some a.body
  observed : ∀ record, a.observed = some record →
    record.pointer.capsule = a.capsule ∧ record.pointer.lineage = a.lineage

abbrev Outcome (S : ObjectStore) (a : Leases.Acquisition) (o₀ : Bucket) :
    StorePost LeaseToken :=
  Acquired S o₀ (AsObserved S · a.capsule a.lineage a.observed)

theorem Fitting.acts_ambiguous (h : a.Fitting) (hQuiet : Quiet deeds) {o₁ o₂ : Bucket}
    (hWrote : WroteAt a.key (deeds ++ [⟨.putConditional a.key a.body condition, some (.error .ambiguous), o₁, o₂⟩]) o)
    (hStart : Ages o₀ o) (refused : Remote LeaseToken) :
    (storeMachine S).Acts Ages Ageing (a.settle (plainly .ambiguous) refused) (a.Outcome S o₀)
      (deeds ++ [⟨.putConditional a.key a.body condition, some (.error .ambiguous), o₁, o₂⟩]) o := by
  unfold settle
  rw [if_pos (by rfl)]
  apply Acts.bind
  apply acts_reconcile h.leaseKey
  · intro more _ hMore hTold
    refine .inr (.inr ⟨rfl, ⟨.putConditional a.key a.body condition, some (.error .ambiguous), o₁, o₂⟩, ?_⟩)
    exact ⟨deeds, more, a.lease, a.key, a.body, condition, o₁, o₂, by simp, hQuiet, hMore, rfl, h.leaseKey,
      h.body, hTold⟩
  · intro more o₁ token hMore hAges hKey hWritten
    exact acts_finish h.observed hKey ((hWrote.ages hAges).append (wroteAt_of_quiet hMore)) hWritten
      (hStart.trans hAges)

theorem Fitting.acts_settle (h : a.Fitting) (hQuiet : Quiet deeds) {o₁ : Bucket} (hStart : Ages o₀ o) {e : StoreError}
    {refused : Remote LeaseToken}
    (hRefused : (storeMachine S).Acts Ages Ageing refused (a.Outcome S o₀)
      (deeds ++ [⟨.putConditional a.key a.body condition, some (.error e), o₁, o₁⟩]) o) :
    (storeMachine S).Acts Ages Ageing (a.settle (plainly e) refused) (a.Outcome S o₀)
      (deeds ++ [⟨.putConditional a.key a.body condition, some (.error e), o₁, o₁⟩]) o := by
  have hStill : Quiet (deeds ++ [⟨.putConditional a.key a.body condition, some (.error e), o₁, o₁⟩]) :=
    hQuiet.append (by simp [Quiet])
  by_cases hAmbiguous : e = .ambiguous
  · subst hAmbiguous
    exact h.acts_ambiguous hQuiet (wroteAt_of_quiet hStill) hStart refused
  · have hNot : (plainly e).is .ambiguous = false := by cases e <;> first | rfl | contradiction
    unfold settle
    rw [if_neg (by simp [hNot])]
    split_ifs
    · exact hRefused
    · exact excused_of_quiet hStill _

theorem Fitting.acts_put (h : a.Fitting) (hQuiet : Quiet deeds) (hStart : Ages o₀ o)
    {refused : Error → Remote LeaseToken}
    (hRefused : ∀ e deeds o₁, Quiet deeds → Ages o₀ o₁ →
      (storeMachine S).Acts Ages Ageing (refused e) (a.Outcome S o₀) deeds o₁) :
    (storeMachine S).Acts Ages Ageing (do
      match ← catching (putConditional a.key a.body condition) with
      | .ok revision => finishAcquire a.capsule a.lineage ⟨a.lease, revision⟩ a.observed
      | .error e => a.settle e (refused e)) (a.Outcome S o₀) deeds o := by
  apply Acts.catching_bind
  unfold putConditional
  split_ifs
  · -- the empty revision: the store is not asked
    exact excused_of_quiet hQuiet _
  · apply Acts.putConditional idle_ageing
    · intro o₁ e hAges
      have hStill : Quiet (deeds ++ [⟨.putConditional a.key a.body condition, some (.error e), o₁, o₁⟩]) :=
        hQuiet.append (by simp [Quiet])
      exact h.acts_settle hQuiet (hStart.trans hAges) (hRefused _ _ o₁ hStill (hStart.trans hAges))
    · intro o₁ hAges _
      have hPut := ages_put o₁ a.key a.body
      have hWrote (told) := (wroteAt_of_quiet hQuiet).append (wroteAt_put o₁ a.key a.body condition told)
      have hLater := (hStart.trans hAges).trans hPut
      refine ⟨fun _ => hPut, acts_finish h.observed h.leaseKey (hWrote _) ?_ hLater,
        h.acts_ambiguous hQuiet (hWrote _) hLater _⟩
      have hStored : Stored S (put o₁ a.key a.body) a.key a.body _ := ⟨by simp [put], rfl⟩
      exact ⟨a.key, a.body, h.leaseKey, hStored.names, .inl h.body⟩

theorem Fitting.acts_takeOver (h : a.Fitting) (hQuiet : Quiet deeds) (hStart : Ages o₀ o) {current : LeaseToken}
    {retry : Remote LeaseToken}
    (hRetry : ∀ deeds o₁, Quiet deeds → Ages o₀ o₁ →
      (storeMachine S).Acts Ages Ageing retry (a.Outcome S o₀) deeds o₁) :
    (storeMachine S).Acts Ages Ageing (a.takeOver current retry) (a.Outcome S o₀) deeds o := by
  unfold takeOver
  split_ifs
  · exact excused_of_quiet hQuiet _
  · apply h.acts_put hQuiet hStart
    intro e deeds o₁ hQuiet hStart
    apply Acts.bind
    apply Acts.attempt idle_ageing
    rintro o₂ (_ | _) hAges
    · exact excused_of_quiet (hQuiet.append (by simp [Quiet])) _
    · exact hRetry _ o₂ (hQuiet.append (by simp [Quiet])) (hStart.trans hAges)

theorem Fitting.acts_loop (h : a.Fitting) (rounds : Nat) (hQuiet : Quiet deeds) (hStart : Ages o₀ o) :
    (storeMachine S).Acts Ages Ageing (a.loop rounds) (a.Outcome S o₀) deeds o := by
  induction rounds generalizing deeds o with
  | zero => exact excused_of_quiet hQuiet _
  | succ rounds ih =>
    apply h.acts_put hQuiet hStart
    intro _ deeds o₁ hQuiet hStart
    apply Acts.catching_bind
    apply acts_lookChecked idle_ageing
    · intro more o₂ e hMore hAges _ _
      dsimp only
      split_ifs
      · exact ih (hQuiet.append hMore) (hStart.trans hAges)
      · exact excused_of_quiet (hQuiet.append hMore) _
    · intro more o₂ _ _ _ hMore hAges _ _ _ _
      exact h.acts_takeOver (hQuiet.append hMore) (hStart.trans hAges) fun _ _ => ih

end Leases.Acquisition

section Calls

variable {S : ObjectStore} {o : Bucket} {deeds : List StoreDeed} {rounds : Nat} {capsule : Bytes}
  {lineage : Lineage} {owner : LeaseOwner} {now : Time} {ttl : Int64}

theorem acts_takeLease {observed : Option PointerRecord} {opened : Option GenerationRef}
    (hObserved : ∀ record, observed = some record →
      record.pointer.capsule = capsule ∧ record.pointer.lineage = lineage) (hQuiet : Quiet deeds) :
    (storeMachine S).Acts Ages Ageing
      (Leases.acquireLease rounds capsule lineage owner observed opened now ttl)
      (Acquired S o (AsObserved S · capsule lineage observed)) deeds o := by
  have hRefused (e : Error) : Excused deeds e o := excused_of_quiet hQuiet e
  apply Acts.bind
  rw [acts_lift]
  cases hKey : lineage.leaseKey capsule with
  | error e => exact hRefused e
  | ok key =>
    dsimp only
    split
    · exact hRefused _
    · apply Acts.bind
      rw [acts_lift]
      cases validateOpened opened with
      | error e => exact hRefused e
      | ok _ =>
        dsimp only
        split
        · exact hRefused _
        · split
          · exact hRefused _
          · rename_i body hBody
            have hFitting : Leases.Acquisition.Fitting
                ⟨capsule, lineage, observed, now, key, _, body⟩ := ⟨hKey, hKey, hBody, hObserved⟩
            exact hFitting.acts_loop rounds hQuiet (Ages.refl o)

theorem acts_about {α : Type} {format : String} {p : Remote α}
    {post : StorePost α}
    (h : (storeMachine S).Acts Ages Ageing p
      (fun deeds r o => post deeds (r.mapError (.wrap format [])) o) deeds o) :
    (storeMachine S).Acts Ages Ageing (Leases.about format p) post deeds o := by
  apply Acts.catching_bind
  refine h.mono fun deeds r o hr => ?_
  cases r <;> exact hr

theorem acts_acquireObserved {observed : Option PointerRecord} (hQuiet : Quiet deeds) :
    (storeMachine S).Acts Ages Ageing (Leases.acquire rounds capsule lineage owner observed now ttl)
      (Acquired S o (AsObserved S · capsule lineage observed)) deeds o := by
  cases observed with
  | none => exact acts_takeLease (fun _ => nofun) hQuiet
  | some record =>
    unfold Leases.acquire
    dsimp only
    split
    · exact excused_of_quiet hQuiet _
    · cases hValid : validatePointer record.pointer capsule lineage with
      | error e => exact excused_of_quiet hQuiet _
      | ok _ =>
        refine acts_takeLease (fun _ hRecord => ?_) hQuiet
        cases hRecord
        exact identity_of_validatePointer hValid

/-- A branch is taken while it has no pointer and its source is as observed. -/
def BranchAsObserved (S : ObjectStore) (o : Bucket) (capsule : Bytes) (lineage : Lineage)
    (source : PointerRecord) : Prop :=
  AsObserved S o capsule lineage none ∧
    AsObserved S o source.pointer.capsule source.pointer.lineage (some source)

theorem acts_acquireBranchObserved {source : PointerRecord} (hQuiet : Quiet deeds) :
    (storeMachine S).Acts Ages Ageing
      (Leases.acquireBranchFrom rounds capsule lineage owner source now ttl)
      (Acquired S o (BranchAsObserved S · capsule lineage source)) deeds o := by
  unfold Leases.acquireBranchFrom
  split
  · exact excused_of_quiet hQuiet _
  apply Acts.bind
  apply acts_about
  rw [acts_lift]
  cases validatePointer source.pointer capsule source.pointer.lineage with
  | error e => exact excused_of_quiet hQuiet _
  | ok _ =>
    apply Acts.bind
    apply acts_about
    apply acts_lookAgain idle_ageing
    · intro more o₁ e hMore _
      exact excused_of_quiet (hQuiet.append hMore) _
    · -- the source before the lease is taken
      rintro more o₁ hMore hAges₁ ⟨d₀, -, -, hLate₀, hSource₀⟩
      apply Acts.bind
      have hNone : ∀ record, (none : Option PointerRecord) = some record →
          record.pointer.capsule = capsule ∧ record.pointer.lineage = lineage := fun _ => nofun
      refine (acts_takeLease hNone (hQuiet.append hMore)).mono ?_
      rintro deeds (e | token) o₂ hAcquired
      · exact hAcquired
      obtain ⟨⟨key, hKey, hWrote⟩, d₁, hd₁, hEarly₁, hLate₁, hWritten, hAbsent⟩ := hAcquired
      apply Acts.catching_bind
      apply acts_lookAgain idle_ageing
      · intro more' o₃ e hMore' hAges₃
        exact acts_withdraw hKey ((hWrote.ages hAges₃).append (wroteAt_of_quiet hMore')) _ _
      · -- and the source after it: in between it was the same
        rintro more' o₃ hMore' hAges₃ ⟨d₂, -, hEarly₂, -, hSource₂⟩
        refine ⟨⟨key, hKey, (hWrote.ages hAges₃).append (wroteAt_of_quiet hMore')⟩, d₁, ?_⟩
        refine ⟨mem_append_left _ hd₁, hAges₁.trans hEarly₁, hLate₁.trans hAges₃, hWritten, hAbsent, ?_⟩
        exact hSource₀.between (hLate₀.trans hEarly₁) (hLate₁.trans hEarly₂) hSource₂

theorem among_ageing {α : Type} (p : Prog RemoteSignature α)
    {post : List StoreDeed → α → Bucket → Prop} (hPost : ∀ deeds a o, post deeds a o) :
    (storeMachine S).among Ages Ageing p post deeds o := by
  induction p generalizing deeds o with
  | done a => exact hPost deeds a o
  | call op next ih => exact fun o₁ _ reply => ⟨ages_step op reply, fun answer _ => ih answer⟩

namespace Call

/-- The pointers are as the caller observed them before it took the lease. -/
def Fresh (S : ObjectStore) (o : Bucket) : Call → Prop
  | acquire _ capsule lineage _ observed _ _ => AsObserved S o capsule lineage observed
  | acquireBranchFrom _ capsule lineage _ source _ _ => BranchAsObserved S o capsule lineage source
  | _ => True

def Acquires : Call → Prop
  | acquire .. => True
  | acquireBranchFrom .. => True
  | _ => False

def Conclusion (S : ObjectStore) (c : Call) (deeds : List StoreDeed) (r : Except Error Result)
    (o : Bucket) : Prop :=
  c.Acquires →
    (∀ token, r = .ok (.token token) → ∃ d ∈ deeds, LeaseWritten S d.before token ∧ c.Fresh S d.before) ∧
    ∀ e, r = .error e → Excused deeds e o

theorem conclusion_of_acquired {c : Call} {o₀ : Bucket} {seen : Bucket → Prop}
    (hSeen : ∀ o, seen o → c.Fresh S o) {p : Remote LeaseToken}
    (h : (storeMachine S).Acts Ages Ageing p (Acquired S o₀ seen) deeds o) :
    (storeMachine S).Acts Ages Ageing (do return .token (← p)) (c.Conclusion S) deeds o := by
  apply Acts.bind
  refine h.mono ?_
  rintro deeds (e | token) o₁ hAcquired
  · refine fun _ => ⟨nofun, fun e' he => ?_⟩
    cases he
    exact hAcquired
  · refine fun _ => ⟨fun token' hToken => ?_, nofun⟩
    cases hToken
    obtain ⟨-, d, hd, -, -, hWritten, hSame⟩ := hAcquired
    exact ⟨d, hd, hWritten, hSeen _ hSame⟩

theorem ageing_discipline (S : ObjectStore) :
    Discipline (storeMachine S) program Ages (fun _ => Ageing) (Conclusion S) where
  refl := Ages.refl
  trans _ _ _ := Ages.trans
  tolerated _ _ _ h := h
  stable c deeds r o o' hAges h hAcquires :=
    ⟨(h hAcquires).1, fun e he => ((h hAcquires).2 e he).ages hAges⟩
  kept c o := by
    have hOther (c : Call) (hNot : ¬ c.Acquires) :
        (storeMachine S).among Ages Ageing c.program (c.Conclusion S) [] o :=
      among_ageing _ fun _ _ _ hAcquires => absurd hAcquires hNot
    cases c with
    | acquire => exact conclusion_of_acquired (fun _ h => h) (acts_acquireObserved nofun)
    | acquireBranchFrom => exact conclusion_of_acquired (fun _ h => h) (acts_acquireBranchObserved nofun)
    | _ => exact hOther _ id

end Call

end Calls

/-- Among any clients and whatever becomes of their operations: a lease is returned only if
at some instant after it was written the pointers were as the caller observed them. And
when the call fails, a lease that it has written is there no longer, or the error tells that
it could not be given back, or it is the error of the write itself, which was reported as
ambiguous and not found when the call read the lease back. -/
theorem acquire_observes_or_withdraws {ι : Type} [DecidableEq ι] {S : ObjectStore} {o : Bucket}
    {P : Clients ι} (hRun : P.Run S o) {i : ι} {t : Thread RemoteSignature Bucket Call (Except Error Result)}
    (hThread : P.thread i = some t) (hAcquires : t.call.Acquires) :
    (∀ token, P.result i = some (.ok (.token token)) →
      ∃ d ∈ t.deeds, LeaseWritten S d.before token ∧ t.call.Fresh S d.before) ∧
    ∀ e, P.result i = some (.error e) → ∀ d ∈ t.deeds, ∀ key body condition,
      d.op = .putConditional key body condition → d.after ≠ d.before →
        (∀ b, ¬ Stored S P.world key b (revision S d.after key)) ∨ ReportsRelease e ∨
          e = plainly .ambiguous ∧ Unsettled t.deeds d := by
  constructor
  · intro token hResult
    have hPost := (Call.ageing_discipline S).post_of_run hRun hThread (Pool.rest_of_result hThread hResult)
    exact (hPost hAcquires).1 token rfl
  · intro e hResult d hd key body condition hOp hWrote
    have hPost := (Call.ageing_discipline S).post_of_run hRun hThread (Pool.rest_of_result hThread hResult)
    rcases (hPost hAcquires).2 e rfl with hWithdrawn | hReports | ⟨he, d', hUnsettled⟩
    · exact .inl fun b => not_stored_of_gone (hWithdrawn d hd key body condition hOp hWrote)
    · exact .inr (.inl hReports)
    · cases hUnsettled.eq_of_changed hd hWrote
      exact .inr (.inr ⟨he, hUnsettled⟩)

theorem acquire_observes_sample : (sampleTakeOver.thread 1).isSome ∧
    ∀ t, sampleTakeOver.thread 1 = some t → ∃ d ∈ t.deeds,
      LeaseWritten sampleStore d.before sampleToken ∧
        AsObserved sampleStore d.before (lit "c") ⟨lit "main"⟩ none := by
  refine ⟨by decide +kernel, fun t hThread => ?_⟩
  have hCall : (sampleTakeOver.thread 1).map (·.call) = some (sampleAcquire "b" 3) := by decide +kernel
  rw [hThread] at hCall
  have hCall : t.call = sampleAcquire "b" 3 := Option.some.inj hCall
  have hRun : sampleTakeOver.Run sampleStore fun _ => Shelf.empty := Pool.run_exec ..
  have hAcquires : t.call.Acquires := by
    rw [hCall]
    trivial
  obtain ⟨d, hd, hWritten, hFresh⟩ :=
    (acquire_observes_or_withdraws hRun hThread hAcquires).1 sampleToken (by decide +kernel)
  rw [hCall] at hFresh
  exact ⟨d, hd, hWritten, hFresh⟩

/-- The outcome of the lease write gets lost, and the lease cannot be read back. -/
def sampleLost : Clients (Fin 1) :=
  Pool.exec (storeMachine sampleStore) Call.program
    [.begin (Fin.last 0) (sampleAcquire "a" 1), .act (Fin.last 0) (.loses true), .act (Fin.last 0) .fails]
    (Pool.start fun _ => Shelf.empty)

/-- Then the lease stays, and the error does not tell of a release. -/
theorem lost_write_keeps_lease : ∃ t d key body condition,
    sampleLost.thread 0 = some t ∧ t.call.Acquires ∧ d ∈ t.deeds ∧
      d.op = .putConditional key body condition ∧ d.after ≠ d.before ∧
      Stored sampleStore sampleLost.world key body (revision sampleStore d.after key) ∧
      sampleLost.result 0 = some (.error (plainly .ambiguous)) ∧
      ¬ ReportsRelease (plainly .ambiguous) := by
  have hReport : ¬ ReportsRelease (plainly .ambiguous) := by
    rintro ⟨reason, cause, h⟩
    cases h
  refine ⟨_, _, _, _, _, rfl, trivial, mem_cons_self, rfl, ?_, ?_, by decide, hReport⟩
  · intro hSame
    exact absurd (congrFun hSame (lit "c/leases/writer.json")) (by decide)
  · exact ⟨by decide +kernel, by decide +kernel⟩

end Camp.Coordination
