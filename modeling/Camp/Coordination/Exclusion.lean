import Camp.Coordination.Promises
import Camp.Coordination.Calm

/-!
# Leases exclude one another

Over every interleaving of any number of calls, whatever becomes of their
operations, at most one session holds the lease of a lineage, no session replaces
or removes a lease of another one that has not expired, and holders touch only
leases of their own session.
-/

namespace Camp.Coordination

open Wire Wire.Utf8 Program Program.Objects Program.Machine Relation

variable {S : ObjectStore} {o : Bucket}

theorem Holds.eq {α : Type} [Wired α] {key revision revision' : Bytes} {a b : α}
    (ha : Holds S o key a revision) (hb : Holds S o key b revision') : a = b := by
  obtain ⟨body, ⟨hCurrent, -⟩, hBody⟩ := ha
  obtain ⟨body', ⟨hCurrent', -⟩, hBody'⟩ := hb
  cases hCurrent.symm.trans hCurrent'
  exact Option.some.inj (hBody.symm.trans hBody')

section Passes

def Passes (S : ObjectStore) (o : Bucket) (token : LeaseToken) (now : Time) : Prop :=
  ((storeMachine S).calmly (Leases.revalidate token now) o).1 = some (.ok ())

theorem holds_of_readHeld {disappeared stale : String} {token current : LeaseToken}
    (h : ((storeMachine S).calmly (Leases.readHeld disappeared stale token) o).1 =
      some (.ok current)) :
    ∃ (key : Bytes) (lease : WriterLease), token.lease.lineage.leaseKey token.lease.capsule = .ok key ∧
      Holds S o key lease token.revision ∧ lease.sessionID = token.lease.sessionID := by
  unfold Leases.readHeld at h
  rw [calmly_bind, calmly_catching, Leases.read, calmly_readChecked] at h
  cases hFetch : fetchChecked S o (token.lease.lineage.leaseKey token.lease.capsule)
      (validateLease · token.lease.capsule token.lease.lineage) LeaseToken.mk with
  | error e =>
    rw [hFetch] at h
    dsimp only [Option.map_some] at h
    split at h <;> cases h
  | ok found =>
    rw [hFetch] at h
    dsimp only [Option.map_some] at h
    obtain ⟨key, lease, revision, hKey, hHolds, -, rfl⟩ := fetchChecked_eq_ok hFetch
    split at h
    · cases h
    · rename_i hSame
      simp only [Bool.or_eq_true, decide_eq_true_eq, Bool.not_eq_true', not_or, not_not,
        Bool.not_eq_false] at hSame
      obtain ⟨hRevision, hEqual⟩ := hSame
      cases hRevision
      obtain ⟨body, hStored, hBody⟩ := hHolds
      exact ⟨key, lease, hKey, ⟨body, hStored, hBody⟩, sessionID_of_documentsEqual hBody hEqual⟩

theorem Passes.holds {token : LeaseToken} {now : Time} (h : Passes S o token now) :
    ∃ (key : Bytes) (lease : WriterLease), token.lease.lineage.leaseKey token.lease.capsule = .ok key ∧
      Holds S o key lease token.revision ∧ lease.sessionID = token.lease.sessionID := by
  unfold Passes Leases.revalidate at h
  split at h
  · cases h
  · rw [calmly_bind] at h
    generalize hRead : (storeMachine S).calmly (Leases.readHeld _ _ token) o = outcome at h
    obtain ⟨_ | (e | current), o'⟩ := outcome
    · cases h
    · cases h
    · exact holds_of_readHeld (congrArg Prod.fst hRead)

end Passes

namespace Call

/-- For whom a call acquires, and by which clock. -/
def acquirer : Call → Option (LeaseOwner × Time)
  | acquire _ _ _ owner _ now _ => some (owner, now)
  | acquireBranchFrom _ _ _ owner _ now _ => some (owner, now)
  | _ => none

def held : Call → Option LeaseToken
  | renew token _ _ => some token
  | release token => some token
  | _ => none

end Call

section Deeds

variable {d : StoreDeed} {key revision : Bytes} {capsule : Bytes} {lineage : Lineage}
  {old : WriterLease}
variable {c : Call}

theorem Rights.Allows.changed {R : Rights} (h : R.Allows S d)
    (hOld : Holds S d.before key old revision) (hChanged : d.after key ≠ d.before key) :
    (R.mayReplace old ∧ ∀ new : WriterLease, ∀ revision', Holds S d.after key new revision' →
      new.sessionID = sanitize R.session) ∨
    (R.mayRemove old ∧ (d.after key).current = none) := by
  have hSame (o' : Bucket) (key' : Bytes) (s : Objects.Shelf Bytes) (h : Function.update o' key' s key ≠ o' key) :
      key = key' := by
    by_contra hNe
    exact h (Function.update_of_ne hNe _ _)
  cases h with
  | idle op answer o => exact absurd rfl hChanged
  | create hKey hFree hSession hBody =>
    cases hSame _ _ _ hChanged
    obtain ⟨body, ⟨hCurrent, -⟩, -⟩ := hOld
    cases hFree.symm.trans hCurrent
  | @replace _ _ o' key' body _ old' lease hKey hOld' hMay hSession hBody =>
    cases hSame _ _ _ hChanged
    cases hOld.eq hOld'
    refine .inl ⟨hMay, fun new revision' hNew => ?_⟩
    obtain ⟨body', ⟨hCurrent, -⟩, hBody'⟩ := hNew
    have hPut : (put o' key body key).current = some body := by simp [put]
    cases hCurrent.symm.trans hPut
    cases hBody'.symm.trans (unmarshal_marshal hBody)
    rw [← hSession]
    rfl
  | @remove _ _ o' key' _ old' hKey hOld' hMay =>
    cases hSame _ _ _ hChanged
    cases hOld.eq hOld'
    exact .inr ⟨hMay, by simp [delete]⟩

theorem Change.Allows.lease {c : Change} (h : c.Allows S d)
    (hKey : lineage.leaseKey capsule = .ok key) : d.after key = d.before key := by
  cases h with
  | idle op answer o => rfl
  | write hPointer hValid hBody hFinds hLaw =>
    exact Function.update_of_ne (Lineage.pointerKey_ne_leaseKey hPointer hKey).symm _ _

/-- How an operation of the call may change a lease. It is replaced by one of another session,
and removed or replaced for another session, only by an acquirer by whose clock it has expired. -/
structure Respected (S : ObjectStore) (c : Call) (d : StoreDeed) (key : Bytes) (old : WriterLease) :
    Prop where
  replaced : ∀ new : WriterLease, ∀ revision, Holds S d.after key new revision →
    new.sessionID ≠ old.sessionID →
      ∃ owner now, c.acquirer = some (owner, now) ∧ old.expiresAt.after now = false
  acquired : ∀ owner now, c.acquirer = some (owner, now) →
    old.sessionID = sanitize owner.sessionID ∨ old.expiresAt.after now = false
  held : ∀ token, c.held = some token → old.sessionID = token.lease.sessionID

theorem respected_of_acquirer {owner : LeaseOwner} {now : Time} {capsule : Bytes} {lineage : Lineage}
    (h : (Rights.acquirer capsule lineage owner now).Allows S d) (hAcquirer : c.acquirer = some (owner, now))
    (hHeld : c.held = none) (hOld : Holds S d.before key old revision) (hChanged : d.after key ≠ d.before key) :
    Respected S c d key old := by
  constructor
  · intro new revision' hNew hOther
    rcases h.changed hOld hChanged with ⟨hExpired, -⟩ | ⟨-, hGone⟩
    · exact ⟨owner, now, hAcquirer, hExpired⟩
    · obtain ⟨body, ⟨hCurrent, -⟩, -⟩ := hNew
      cases hGone.symm.trans hCurrent
  · intro owner' now' hSame
    cases hAcquirer.symm.trans hSame
    rcases h.changed hOld hChanged with ⟨hExpired, -⟩ | ⟨hOwn, -⟩
    · exact .inr hExpired
    · exact .inl hOwn
  · intro token hToken
    cases hHeld.symm.trans hToken

theorem respected_of_holder {token : LeaseToken} (h : (Rights.holder token).Allows S d)
    (hAcquirer : c.acquirer = none) (hHeld : ∀ token', c.held = some token' → token' = token)
    (hOld : Holds S d.before key old revision) (hChanged : d.after key ≠ d.before key) : Respected S c d key old := by
  obtain ⟨body, hStored, hBody⟩ := hOld
  have hOwn : old.sessionID = token.lease.sessionID := by
    rcases h.changed ⟨body, hStored, hBody⟩ hChanged with ⟨hMay, -⟩ | ⟨hMay, -⟩
    · exact hMay
    · exact hMay
  constructor
  · intro new revision' hNew hOther
    rcases h.changed ⟨body, hStored, hBody⟩ hChanged with ⟨-, hSession⟩ | ⟨-, hGone⟩
    · have hNewSession : new.sessionID = sanitize token.lease.sessionID := hSession new _ hNew
      rw [← hOwn, sanitize_sessionID hBody] at hNewSession
      exact absurd hNewSession hOther
    · obtain ⟨body', ⟨hCurrent, -⟩, -⟩ := hNew
      cases hGone.symm.trans hCurrent
  · intro owner now hSame
    cases hAcquirer.symm.trans hSame
  · intro token' hToken
    rw [hHeld token' hToken]
    exact hOwn

theorem respected_of_guar {earlier : List StoreDeed} (h : c.guar S earlier d)
    (hKey : lineage.leaseKey capsule = .ok key) (hOld : Holds S d.before key old revision)
    (hChanged : d.after key ≠ d.before key) : Respected S c d key old := by
  cases c with
  | acquire => exact respected_of_acquirer h rfl rfl hOld hChanged
  | acquireBranchFrom => exact respected_of_acquirer h rfl rfl hOld hChanged
  | revalidateLease token now => exact respected_of_holder h rfl nofun hOld hChanged
  | renew token now ttl =>
    refine respected_of_holder h rfl (fun token' hToken => ?_) hOld hChanged
    cases hToken
    rfl
  | release token =>
    refine respected_of_holder h rfl (fun token' hToken => ?_) hOld hChanged
    cases hToken
    rfl
  | create => exact absurd (Change.Allows.lease h hKey) hChanged
  | compareAndSwap => exact absurd (Change.Allows.lease h hKey) hChanged
  | selectHistorical => exact absurd (Change.Allows.lease h hKey) hChanged
  | putAndVerify => exact absurd (Deposits.elsewhere h (not_generationKey_lease hKey)) hChanged

end Deeds

/-- At every instant of every run the tokens that pass `Revalidate` for one lineage
are of one session. An operation that changes a lease is of a holder or an acquirer of
its own session, or of an acquirer by whose clock the lease has expired; and it puts a
lease of the same session in its place, or the lease has expired by that clock. -/
theorem lease_exclusion {ι : Type} [DecidableEq ι] {P : Clients ι} (hRun : P.Run S o)
    {capsule : Bytes} {lineage : Lineage} :
    (∀ token token' now now', token.lease.capsule = capsule → token.lease.lineage = lineage →
      token'.lease.capsule = capsule → token'.lease.lineage = lineage →
      Passes S P.world token now → Passes S P.world token' now' →
      token.lease.sessionID = token'.lease.sessionID) ∧
    ∀ i thread key old revision, P.thread i = some thread → ∀ d ∈ thread.deeds,
      lineage.leaseKey capsule = .ok key → Holds S d.before key old revision →
      d.after key ≠ d.before key → Respected S thread.call d key old := by
  constructor
  · rintro token token' now now' rfl rfl hCapsule hLineage hPasses hPasses'
    obtain ⟨key, lease, hKey, hHolds, hSession⟩ := hPasses.holds
    obtain ⟨key', lease', hKey', hHolds', hSession'⟩ := hPasses'.holds
    rw [hCapsule, hLineage] at hKey'
    cases hKey.symm.trans hKey'
    rw [← hSession, ← hSession', hHolds.eq hHolds']
  · intro i thread key old revision hThread d hd hKey hOld hChanged
    obtain ⟨_, _, -, hGuar⟩ := (discipline S).guar_of_run hRun hThread hd
    exact respected_of_guar hGuar hKey hOld hChanged

section Sample

theorem ones_injective (_ : Bytes) : Function.Injective fun n : Nat => List.replicate (n + 1) (49 : UInt8) := by
  intro n m h
  simpa using congrArg List.length h

def sampleStore : ObjectStore where
  label _ n := List.replicate (n + 1) 49
  label_injective := ones_injective
  digest b := ⟨.ofNat b.length, b⟩
  report _ b := ⟨.ofNat b.length, b⟩
  plain := true
  reportsMissing := false
  looksFirst := false

def sampleOwner (session : String) : LeaseOwner := ⟨lit session, lit "host"⟩

def second (n : Nat) : Time := ⟨n * 1000000000, 0⟩

def sampleAcquire (session : String) (now : Nat) : Call :=
  .acquire 1 (lit "c") ⟨lit "main"⟩ (sampleOwner session) none (second now) 1000000000

/-- One session takes the lease, and another one takes it over when it has expired. -/
def sampleTakeOver : Clients (Fin 2) :=
  Pool.exec (storeMachine sampleStore) Call.program
    [.begin 0 (sampleAcquire "a" 1), .act 0 (.answers true), .act 0 (.answers true),
      .begin 1 (sampleAcquire "b" 3), .act 1 (.answers true), .act 1 (.answers true),
      .act 1 (.answers true), .act 1 (.answers true), .act 1 (.answers true),
      .act 1 (.answers true)]
    (Pool.start fun _ => Shelf.empty)

def sampleToken : LeaseToken where
  lease :=
    { schemaVersion := 1
      capsule := lit "c"
      lineage := ⟨lit "main"⟩
      sessionID := lit "b"
      machine := lit "host"
      openedGeneration := none
      createdAt := second 3
      heartbeatAt := second 3
      expiresAt := second 4 }
  revision := [49, 49]

/-- The lease of the first session is replaced by an operation of the second one. -/
theorem lease_exclusion_sample : sampleTakeOver.result 1 = some (.ok (.token sampleToken)) ∧
    Passes sampleStore sampleTakeOver.world sampleToken (second 3) ∧
    (∀ token now, token.lease.capsule = lit "c" → token.lease.lineage = ⟨lit "main"⟩ →
      Passes sampleStore sampleTakeOver.world token now → token.lease.sessionID = lit "b") ∧
    ((sampleTakeOver.thread 1).any fun t => t.deeds.any fun d =>
      (d.before (lit "c/leases/writer.json")).current.isSome &&
        (d.after (lit "c/leases/writer.json")).current != (d.before (lit "c/leases/writer.json")).current) = true ∧
    ∀ t old revision, sampleTakeOver.thread 1 = some t → ∀ d ∈ t.deeds,
      Holds sampleStore d.before (lit "c/leases/writer.json") old revision →
      d.after (lit "c/leases/writer.json") ≠ d.before (lit "c/leases/writer.json") →
      Respected sampleStore t.call d (lit "c/leases/writer.json") old := by
  have hRun : sampleTakeOver.Run sampleStore fun _ => Shelf.empty := Pool.run_exec ..
  have hPasses : Passes sampleStore sampleTakeOver.world sampleToken (second 3) := by
    unfold Passes
    decide +kernel
  refine ⟨by decide +kernel, hPasses, ?_, by decide +kernel, ?_⟩
  · intro token now hCapsule hLineage hToken
    exact (lease_exclusion hRun).1 token sampleToken now (second 3) hCapsule hLineage rfl rfl hToken hPasses
  · intro t old revision hThread d hd hOld hChanged
    have hKey : Lineage.leaseKey ⟨lit "main"⟩ (lit "c") = .ok (lit "c/leases/writer.json") := by decide
    exact (lease_exclusion hRun).2 1 t _ old revision hThread d hd hKey hOld hChanged

end Sample

end Camp.Coordination
