import Camp.Coordination.Clients

/-!
# What a call may do to a lease

Every operation of a lease call leaves the store as it is, or changes the lease
of its own lineage: it creates one where there is none, replaces one that it may
replace, or removes one of its own session.
-/

namespace Camp.Coordination

open Wire Wire.Utf8 Program Program.Objects Program.Machine

variable {lease : WriterLease}
variable {body : Bytes}

theorem sanitize_sessionID (h : unmarshal body = some lease) : sanitize lease.sessionID = lease.sessionID := by
  obtain ⟨j, -, hDec⟩ := Option.bind_eq_some_iff.mp h
  clear h
  cases j with
  | null =>
    cases hDec
    rfl
  | obj ms =>
    change (Record.fields : Fields WriterLease WriterLease).read ms = some lease at hDec
    dsimp only [Record.fields] at hDec
    obtain ⟨g, expiresAt, hExpiresAt, -, rfl⟩ := Fields.exists_of_read hDec
    obtain ⟨g, heartbeatAt, hHeartbeatAt, -, rfl⟩ := Fields.exists_of_read hExpiresAt
    obtain ⟨g, createdAt, hCreatedAt, -, rfl⟩ := Fields.exists_of_read hHeartbeatAt
    obtain ⟨g, openedGeneration, hOpenedGeneration, -, rfl⟩ := Fields.exists_of_read hCreatedAt
    obtain ⟨g, machine, hMachine, -, rfl⟩ := Fields.exists_of_read hOpenedGeneration
    obtain ⟨g, sessionID, hIdentity, hSession, rfl⟩ := Fields.exists_of_read hMachine
    obtain ⟨g, lineage, hLineage, -, rfl⟩ := Fields.exists_of_read hIdentity
    obtain ⟨g, capsule, hCapsule, -, rfl⟩ := Fields.exists_of_read hLineage
    obtain ⟨g, schemaVersion, hSchemaVersion, -, rfl⟩ := Fields.exists_of_read hCapsule
    cases hSchemaVersion
    show sanitize sessionID = sessionID
    rcases hSession with rfl | ⟨j, hString⟩
    · rfl
    · cases j <;> cases hString
      · rfl
      · exact sanitize_encode _
  | _ => cases hDec

theorem lookup_sessionID {ms : List Member}
    (h : (Record.fields : Fields WriterLease WriterLease).write lease = some ms) :
    lookup "sessionId".toList ms = some (.str (symbols lease.sessionID)) := by
  dsimp only [Record.fields] at h
  obtain ⟨ms, h, hExpires⟩ := Fields.lookup_of_write "sessionId".toList h (by decide)
  obtain ⟨ms, h, hHeartbeat⟩ := Fields.lookup_of_write "sessionId".toList h (by decide)
  obtain ⟨ms, h, hCreated⟩ := Fields.lookup_of_write "sessionId".toList h (by decide)
  obtain ⟨ms, h, hOpened⟩ := Fields.lookup_of_write "sessionId".toList h (by decide)
  obtain ⟨ms, h, hMachine⟩ := Fields.lookup_of_write "sessionId".toList h (by decide)
  obtain ⟨j, hSession, hFound⟩ := Fields.lookup_of_write_field h
  cases hSession
  rw [hExpires, hHeartbeat, hCreated, hOpened, hMachine]
  exact hFound

theorem sessionID_of_documentsEqual {current : WriterLease} (h : unmarshal body = some current)
    (hEqual : documentsEqual current lease) : current.sessionID = lease.sessionID := by
  obtain ⟨text, hCurrent, hLease⟩ := documentsEqual_iff.mp hEqual
  obtain ⟨j, hEnc, rfl⟩ := Option.map_eq_some_iff.mp hCurrent
  obtain ⟨j', hEnc', hText⟩ := Option.map_eq_some_iff.mp hLease
  cases Json.toBytes_injective hText
  obtain ⟨ms, hWrite, rfl⟩ := Option.map_eq_some_iff.mp hEnc
  obtain ⟨ms', hWrite', hSame⟩ := Option.map_eq_some_iff.mp hEnc'
  cases hSame
  have hSymbols := (lookup_sessionID hWrite).symm.trans (lookup_sessionID hWrite')
  have hText : symbols lease.sessionID = symbols (sanitize current.sessionID) := by
    rw [sanitize_sessionID h]
    exact (Json.str.inj (Option.some.inj hSymbols)).symm
  rw [eq_sanitize_of_symbols hText, sanitize_sessionID h]

structure Rights where
  capsule : Bytes
  lineage : Lineage
  session : Bytes
  mayReplace : WriterLease → Prop
  mayRemove : WriterLease → Prop

inductive Rights.Allows (S : ObjectStore) (R : Rights) : StoreDeed → Prop
  | idle (op : RemoteSignature.Op) (answer : Option (RemoteSignature.Answer op)) (o : Bucket) :
      Allows S R ⟨op, answer, o, o⟩
  | create {op : RemoteSignature.Op} {answer : Option (RemoteSignature.Answer op)} {o : Bucket}
      {key body : Bytes} {lease : WriterLease} (hKey : R.lineage.leaseKey R.capsule = .ok key)
      (hFree : (o key).current = none) (hSession : lease.sessionID = R.session)
      (hBody : marshal lease = some body) : Allows S R ⟨op, answer, o, put o key body⟩
  | replace {op : RemoteSignature.Op} {answer : Option (RemoteSignature.Answer op)} {o : Bucket}
      {key body revision : Bytes} {old lease : WriterLease}
      (hKey : R.lineage.leaseKey R.capsule = .ok key) (hOld : Holds S o key old revision)
      (hMay : R.mayReplace old) (hSession : lease.sessionID = R.session)
      (hBody : marshal lease = some body) : Allows S R ⟨op, answer, o, put o key body⟩
  | remove {op : RemoteSignature.Op} {answer : Option (RemoteSignature.Answer op)} {o : Bucket}
      {key revision : Bytes} {old : WriterLease} (hKey : R.lineage.leaseKey R.capsule = .ok key)
      (hOld : Holds S o key old revision) (hMay : R.mayRemove old) :
      Allows S R ⟨op, answer, o, delete o key⟩

namespace Rights

variable {S : ObjectStore} {R : Rights} {deeds : List StoreDeed} {o o' : Bucket}
variable {key : Bytes} {token : LeaseToken}
variable {body : Bytes} {post : StorePost Unit} {now : Time}

theorem idle : Idle fun _ => R.Allows S := fun _ => .idle

theorem grows_of_allows {d : StoreDeed} (h : R.Allows S d) : Grows d.before d.after := by
  cases h with
  | idle op answer o => exact Grows.refl o
  | create => exact grows_put _ _ _
  | replace => exact grows_put _ _ _
  | remove => exact grows_delete _ _

/-- The revision of the token names a lease that the call may remove. -/
structure Owns (S : ObjectStore) (R : Rights) (o : Bucket) (key : Bytes) (token : LeaseToken) :
    Prop where
  ownKey : R.lineage.leaseKey R.capsule = .ok key
  tokenKey : token.lease.lineage.leaseKey token.lease.capsule = .ok key
  named : ∃ body lease, Names S o key token.revision body ∧ unmarshal body = some lease ∧
    R.mayRemove lease

theorem Owns.grows (h : R.Owns S o key token) (hGrows : Grows o o') : R.Owns S o' key token := by
  obtain ⟨hKey, hTokenKey, body, lease, hNames, hBody, hMay⟩ := h
  exact ⟨hKey, hTokenKey, body, lease, hNames.grows hGrows, hBody, hMay⟩

theorem Owns.remove (h : R.Owns S o key token) (hGrows : Grows o o') (hStored : Stored S o' key body token.revision)
    (op : RemoteSignature.Op) (answer : Option (RemoteSignature.Answer op)) :
    R.Allows S ⟨op, answer, o', delete o' key⟩ := by
  obtain ⟨hKey, -, body', lease, hNames, hBody, hMay⟩ := h
  cases hNames.eq_of_stored hGrows hStored
  exact .remove hKey ⟨body, hStored, hBody⟩ hMay

def Earned (S : ObjectStore) (R : Rights) (_ : List StoreDeed) :
    Except Error LeaseToken → Bucket → Prop
  | .ok token, o => ∃ key, R.Owns S o key token
  | .error _, _ => True

theorem acts_deleteConditional {revision : Bytes}
    (hRemove : ∀ o₁ body, Grows o o₁ → Stored S o₁ key body revision → ∀ op answer,
      R.Allows S ⟨op, answer, o₁, delete o₁ key⟩) (hPost : ∀ deeds r o₁, post deeds r o₁) :
    (storeMachine S).Acts Grows (fun _ => R.Allows S)
      (deleteConditional key revision) post deeds o := by
  unfold deleteConditional
  split_ifs
  · exact hPost ..
  · apply Acts.deleteConditional idle
    · intro o₁ e _
      exact hPost ..
    · intro o₁ body hGrows hStored
      exact ⟨fun told => hRemove o₁ body hGrows hStored _ told, hPost .., hPost ..⟩

theorem acts_putConditional {condition : Condition Bytes} {post : StorePost Bytes}
    (hAllowed : ∀ o₁, Grows o o₁ → Met S o₁ key condition → ∀ op answer,
      R.Allows S ⟨op, answer, o₁, put o₁ key body⟩) (hPost : ∀ deeds r o₁, post deeds r o₁) :
    (storeMachine S).Acts Grows (fun _ => R.Allows S)
      (putConditional key body condition) post deeds o := by
  unfold putConditional
  split_ifs
  · exact hPost ..
  · apply Acts.putConditional idle
    · intro o₁ e _
      exact hPost ..
    · intro o₁ hGrows hMet
      exact ⟨hAllowed o₁ hGrows hMet _, hPost .., hPost ..⟩

theorem acts_releaseAcquiredLease (h : R.Owns S o key token) (hPost : ∀ deeds r o₁, post deeds r o₁) :
    (storeMachine S).Acts Grows (fun _ => R.Allows S)
      (Leases.releaseAcquiredLease token) post deeds o := by
  apply Acts.bind
  rw [acts_lift, h.tokenKey]
  apply Acts.catching_bind
  apply acts_deleteConditional
  · intro o₁ body hGrows hStored
    exact h.remove hGrows hStored
  · rintro deeds (e | _) o₁
    · dsimp only
      split_ifs
      · exact hPost ..
      · exact hPost ..
    · exact hPost ..

theorem acts_giveBack {reason : Error} (h : R.Owns S o key token) :
    (storeMachine S).Acts Grows (fun _ => R.Allows S)
      (Leases.giveBack token reason) (R.Earned S) deeds o := by
  apply Acts.catching_bind
  apply acts_releaseAcquiredLease h
  rintro deeds (e | _) o₁
  · exact trivial
  · exact trivial

theorem reads_observationErr (capsule : Bytes) (lineage : Lineage)
    (observed : Option PointerRecord) : Reads S (Leases.observationErr capsule lineage observed) := by
  cases observed with
  | none =>
    apply (Reads.readChecked _ _ _).catching.bind
    rintro (e | current)
    · dsimp only
      split_ifs
      · exact Reads.pure _
      · exact Reads.pure _
    · exact Reads.pure _
  | some observed =>
    apply (Reads.revalidate observed).catching.bind
    rintro (e | _)
    · dsimp only
      split_ifs
      · exact Reads.pure _
      · exact Reads.pure _
    · exact Reads.pure _

theorem acts_finishAcquire {capsule : Bytes} {lineage : Lineage} {observed : Option PointerRecord}
    (h : R.Owns S o key token) :
    (storeMachine S).Acts Grows (fun _ => R.Allows S)
      (Leases.finishAcquire capsule lineage token observed) (R.Earned S) deeds o := by
  apply Acts.bind
  apply reads_observationErr _ _ _ _ _ _ _ idle
  rintro more o₁ (e | (_ | reason)) _ hGrows
  · exact trivial
  · exact ⟨key, h.grows hGrows⟩
  · exact acts_giveBack (h.grows hGrows)

theorem acts_reconcileLease {expected : WriterLease}
    {post : StorePost (Option LeaseToken)}
    (hKey : expected.lineage.leaseKey expected.capsule = .ok key)
    (hMissed : ∀ deeds o₁, Grows o o₁ → post deeds (.ok none) o₁)
    (hFound : ∀ deeds o₁ token body, Grows o o₁ →
      token.lease.lineage.leaseKey token.lease.capsule = .ok key →
      Names S o₁ key token.revision body → unmarshal body = some token.lease →
      token.lease.sessionID = expected.sessionID → post deeds (.ok (some token)) o₁) :
    (storeMachine S).Acts Grows (fun _ => R.Allows S)
      (Leases.reconcileLease expected) post deeds o := by
  apply Acts.catching_bind
  apply acts_readLease idle
  · intro more o₁ e _ hGrows
    exact hMissed _ o₁ hGrows
  · intro more o₁ key' token _ hGrows hKey' hSaw hValid
    cases hKey.symm.trans hKey'
    obtain ⟨hCapsule, hLineage⟩ := identity_of_validateLease hValid
    dsimp only
    split_ifs with hEqual
    · obtain ⟨body, hNames, hBody⟩ := hSaw.named
      refine hFound _ o₁ token body hGrows ?_ hNames hBody (sessionID_of_documentsEqual hBody hEqual)
      rw [hCapsule, hLineage]
      exact hKey
    · exact hMissed _ o₁ hGrows

structure Fits (R : Rights) (a : Leases.Acquisition) : Prop where
  capsule : a.capsule = R.capsule
  lineage : a.lineage = R.lineage
  key : R.lineage.leaseKey R.capsule = .ok a.key
  leaseKey : a.lease.lineage.leaseKey a.lease.capsule = .ok a.key
  session : a.lease.sessionID = R.session
  body : marshal a.lease = some a.body
  mayReplace : ∀ old : WriterLease, old.expiresAt.after a.now = false → R.mayReplace old
  mayRemove : ∀ own : WriterLease, own.sessionID = sanitize R.session → R.mayRemove own

namespace Fits

variable {a : Leases.Acquisition}

theorem owns_put (h : R.Fits a) (o : Bucket) :
    R.Owns S (put o a.key a.body) a.key ⟨a.lease, revision S (put o a.key a.body) a.key⟩ := by
  refine ⟨h.key, h.leaseKey, a.body, canon a.lease, ?_, unmarshal_marshal h.body, ?_⟩
  · have hStored : Stored S (put o a.key a.body) a.key a.body _ := ⟨by simp [put], rfl⟩
    exact hStored.names
  · apply h.mayRemove
    rw [← h.session]
    rfl

theorem owns_found (h : R.Fits a) {token : LeaseToken} {body : Bytes}
    (hKey : token.lease.lineage.leaseKey token.lease.capsule = .ok a.key)
    (hNames : Names S o a.key token.revision body) (hBody : unmarshal body = some token.lease)
    (hSession : token.lease.sessionID = a.lease.sessionID) : R.Owns S o a.key token := by
  refine ⟨h.key, hKey, body, token.lease, hNames, hBody, h.mayRemove _ ?_⟩
  rw [← h.session, ← hSession, sanitize_sessionID hBody]

theorem acts_settle (h : R.Fits a) {e : Error} {refused : Remote LeaseToken}
    (hRefused : (storeMachine S).Acts Grows (fun _ => R.Allows S) refused (R.Earned S) deeds o) :
    (storeMachine S).Acts Grows (fun _ => R.Allows S)
      (a.settle e refused) (R.Earned S) deeds o := by
  unfold Leases.Acquisition.settle
  split_ifs
  · apply Acts.bind
    apply acts_reconcileLease h.leaseKey
    · intro deeds o₁ _
      exact trivial
    · intro deeds o₁ token body _ hKey hNames hBody hSession
      exact acts_finishAcquire (h.owns_found hKey hNames hBody hSession)
  · exact hRefused
  · exact trivial

theorem acts_put (h : R.Fits a) {condition : Condition Bytes} {refused : Error → Remote LeaseToken}
    (hAllowed : ∀ o₁, Grows o o₁ → Met S o₁ a.key condition → ∀ op answer,
      R.Allows S ⟨op, answer, o₁, put o₁ a.key a.body⟩)
    (hRefused : ∀ e deeds o₁, Grows o o₁ →
      (storeMachine S).Acts Grows (fun _ => R.Allows S) (refused e) (R.Earned S) deeds o₁) :
    (storeMachine S).Acts Grows (fun _ => R.Allows S) (do
      match ← catching (putConditional a.key a.body condition) with
      | .ok revision => Leases.finishAcquire a.capsule a.lineage ⟨a.lease, revision⟩ a.observed
      | .error e => a.settle e (refused e)) (R.Earned S) deeds o := by
  apply Acts.catching_bind
  unfold putConditional
  split_ifs
  · exact h.acts_settle (hRefused _ _ o (Grows.refl o))
  · apply Acts.putConditional idle
    · intro o₁ e hGrows
      exact h.acts_settle (hRefused _ _ o₁ hGrows)
    · intro o₁ hGrows hMet
      refine ⟨hAllowed o₁ hGrows hMet _, acts_finishAcquire (h.owns_put o₁), ?_⟩
      exact h.acts_settle (hRefused _ _ _ (hGrows.trans (grows_put _ _ _)))

theorem acts_takeOver (h : R.Fits a) {current : LeaseToken} {retry : Remote LeaseToken}
    {seen : List StoreDeed} (hSaw : Saw S o seen a.key current.lease current.revision)
    (hRetry : ∀ deeds o₁, (storeMachine S).Acts Grows (fun _ => R.Allows S)
      retry (R.Earned S) deeds o₁) :
    (storeMachine S).Acts Grows (fun _ => R.Allows S)
      (a.takeOver current retry) (R.Earned S) deeds o := by
  unfold Leases.Acquisition.takeOver
  split_ifs with hHeld
  · exact trivial
  · apply h.acts_put
    · rintro o₁ hGrows ⟨body, hStored⟩ op answer
      exact .replace h.key (hSaw.holds hGrows hStored) (h.mayReplace _ (by simpa using hHeld))
        h.session h.body
    · intro e deeds o₁ _
      apply Acts.bind
      apply Acts.attempt idle
      rintro o₂ (_ | _) _
      · exact trivial
      · exact hRetry ..

theorem acts_loop (h : R.Fits a) (rounds : Nat) :
    (storeMachine S).Acts Grows (fun _ => R.Allows S) (a.loop rounds) (R.Earned S) deeds o := by
  induction rounds generalizing deeds o with
  | zero => exact trivial
  | succ rounds ih =>
    apply h.acts_put
    · intro o₁ _ hMet op answer
      exact .create h.key hMet h.session h.body
    · intro _ deeds o₁ _
      apply Acts.catching_bind
      apply acts_readLease idle
      · intro more o₂ e _ _
        dsimp only
        split_ifs
        · exact ih
        · exact trivial
      · intro more o₂ key token _ _ hKey hSaw _
        rw [h.lineage, h.capsule, h.key] at hKey
        cases hKey
        exact h.acts_takeOver hSaw fun _ _ => ih

end Fits

/-- An acquirer replaces what has expired and removes what it has written. -/
def acquirer (capsule : Bytes) (lineage : Lineage) (owner : LeaseOwner) (now : Time) : Rights where
  capsule := capsule
  lineage := lineage
  session := owner.sessionID
  mayReplace old := old.expiresAt.after now = false
  mayRemove own := own.sessionID = sanitize owner.sessionID

/-- A holder replaces and removes leases of its own session. -/
def holder (token : LeaseToken) : Rights where
  capsule := token.lease.capsule
  lineage := token.lease.lineage
  session := token.lease.sessionID
  mayReplace old := old.sessionID = token.lease.sessionID
  mayRemove own := own.sessionID = token.lease.sessionID

section Acquire

variable {rounds : Nat} {capsule : Bytes} {lineage : Lineage} {owner : LeaseOwner} {now : Time}
  {ttl : Int64}
variable {observed : Option PointerRecord}

theorem acts_acquireLease {opened : Option GenerationRef} :
    (storeMachine S).Acts Grows (fun _ => (acquirer capsule lineage owner now).Allows S)
      (Leases.acquireLease rounds capsule lineage owner observed opened now ttl)
      ((acquirer capsule lineage owner now).Earned S) deeds o := by
  apply Acts.bind
  rw [acts_lift]
  cases hKey : lineage.leaseKey capsule with
  | error e => exact trivial
  | ok key =>
    dsimp only
    split
    · exact trivial
    · apply Acts.bind
      rw [acts_lift]
      cases validateOpened opened with
      | error e => exact trivial
      | ok _ =>
        dsimp only
        split
        · exact trivial
        · split
          · exact trivial
          · rename_i body hBody
            apply Fits.acts_loop
            exact ⟨rfl, rfl, hKey, hKey, rfl, hBody, fun _ h => h, fun _ h => h⟩

theorem acts_acquire :
    (storeMachine S).Acts Grows (fun _ => (acquirer capsule lineage owner now).Allows S)
      (Leases.acquire rounds capsule lineage owner observed now ttl)
      ((acquirer capsule lineage owner now).Earned S) deeds o := by
  cases observed with
  | none => exact acts_acquireLease
  | some record =>
    unfold Leases.acquire
    dsimp only
    split
    · exact trivial
    · cases validatePointer record.pointer capsule lineage with
      | error e => exact trivial
      | ok _ => exact acts_acquireLease

theorem reads_about {α : Type} {format : String} {p : Remote α} (h : Reads S p) :
    Reads S (Leases.about format p) := by
  apply h.catching.bind
  rintro (e | a)
  · exact Reads.throw _
  · exact Reads.pure a

theorem acts_acquireBranchFrom {source : PointerRecord} :
    (storeMachine S).Acts Grows (fun _ => (acquirer capsule lineage owner now).Allows S)
      (Leases.acquireBranchFrom rounds capsule lineage owner source now ttl)
      ((acquirer capsule lineage owner now).Earned S) deeds o := by
  unfold Leases.acquireBranchFrom
  split
  · exact trivial
  · apply Acts.bind
    apply reads_about (Reads.lift _) _ _ _ _ idle
    rintro more o₁ (e | _) _ _
    · exact trivial
    · apply Acts.bind
      apply reads_about (Reads.revalidate source) _ _ _ _ idle
      rintro more o₁ (e | _) _ _
      · exact trivial
      · apply Acts.bind
        apply acts_acquireLease.mono
        rintro deeds (e | token) o₂ hEarned
        · exact trivial
        · obtain ⟨key, hOwns⟩ := hEarned
          apply Acts.bind
          apply (Reads.revalidate source).catching _ _ _ _ idle
          rintro more o₃ (e | (e | _)) _ hGrows
          · exact trivial
          · exact acts_giveBack (hOwns.grows hGrows)
          · exact ⟨key, hOwns.grows hGrows⟩

end Acquire

theorem acts_readHeld {disappeared stale : String} {post : StorePost LeaseToken}
    (hError : ∀ deeds e o₁, post deeds (.error e) o₁)
    (hOk : ∀ deeds o₁ key current seen, token.lease.lineage.leaseKey token.lease.capsule = .ok key →
      Saw S o₁ seen key current token.revision → current.sessionID = token.lease.sessionID →
      post deeds (.ok ⟨current, token.revision⟩) o₁) :
    (storeMachine S).Acts Grows (fun _ => R.Allows S)
      (Leases.readHeld disappeared stale token) post deeds o := by
  apply Acts.catching_bind
  apply acts_readLease idle
  · intro more o₁ e _ _
    dsimp only
    split
    · exact hError ..
    · exact hError ..
  · intro more o₁ key current _ _ hKey hSaw _
    dsimp only
    split
    · exact hError ..
    · rename_i hHeld
      simp only [Bool.or_eq_true, decide_eq_true_eq, Bool.not_eq_true', not_or, not_not,
        Bool.not_eq_false] at hHeld
      obtain ⟨hRevision, hEqual⟩ := hHeld
      obtain ⟨body, -, hBody⟩ := hSaw.named
      obtain ⟨lease, revision⟩ := current
      cases hRevision
      exact hOk _ o₁ key lease more hKey hSaw (sessionID_of_documentsEqual hBody hEqual)

theorem acts_revalidate :
    (storeMachine S).Acts Grows (fun _ => R.Allows S)
      (Leases.revalidate token now) (fun _ _ _ => True)
      deeds o := by
  unfold Leases.revalidate
  split
  · exact trivial
  · apply Acts.bind
    apply acts_readHeld
    · intro deeds e o₁
      exact trivial
    · intro deeds o₁ key current seen _ _ _
      dsimp only
      split
      · exact trivial
      · exact trivial

theorem acts_renew {ttl : Int64} :
    (storeMachine S).Acts Grows (fun _ => (holder token).Allows S) (Leases.renew token now ttl)
      (fun _ _ _ => True) deeds o := by
  unfold Leases.renew
  split
  · exact trivial
  · dsimp only
    split
    · exact trivial
    · apply Acts.bind
      apply acts_readHeld
      · intro deeds e o₁
        exact trivial
      · intro deeds o₁ key current seen hKey hSaw hSession
        dsimp only
        split
        · exact trivial
        · rename_i body hBody
          apply Acts.bind
          rw [acts_lift, hKey]
          have hAllowed (o₂ : Bucket) (hGrows : Grows o₁ o₂)
              (hMet : Met S o₂ key (.revision token.revision)) (op : RemoteSignature.Op)
              (answer : Option (RemoteSignature.Answer op)) :
              (holder token).Allows S ⟨op, answer, o₂, put o₂ key body⟩ := by
            obtain ⟨stored, hStored⟩ := hMet
            refine .replace hKey (hSaw.holds hGrows hStored) hSession ?_ hBody
            rfl
          apply Acts.catching_bind
          apply acts_putConditional hAllowed
          rintro deeds (e | revision) o₂
          · dsimp only
            split
            · apply Acts.bind
              apply acts_reconcileLease
              · exact hKey
              · intro deeds o₃ _
                dsimp only
                split
                · exact trivial
                · exact trivial
              · intro deeds o₃ reconciled stored _ _ _ _ _
                exact trivial
            · split
              · exact trivial
              · exact trivial
          · exact trivial

theorem acts_release :
    (storeMachine S).Acts Grows (fun _ => (holder token).Allows S) (Leases.release token)
      (fun _ _ _ => True) deeds o := by
  apply Acts.bind
  apply acts_readHeld
  · intro deeds e o₁
    exact trivial
  · intro deeds o₁ key current seen hKey hSaw hSession
    apply Acts.bind
    rw [acts_lift, hKey]
    apply Acts.catching_bind
    apply acts_deleteConditional
    · intro o₂ body hGrows hStored op answer
      exact .remove hKey (hSaw.holds hGrows hStored) hSession
    · rintro deeds (e | _) o₂
      · dsimp only
        split
        · apply Acts.catching_bind
          apply Acts.head idle
          · intro o₃ readErr _ _
            dsimp only
            split
            · exact trivial
            · split
              · exact trivial
              · exact trivial
          · intro o₃ body revision detail _ _
            dsimp only
            split
            · exact trivial
            · exact trivial
        · split
          · exact trivial
          · exact trivial
      · exact trivial

end Rights

end Camp.Coordination
