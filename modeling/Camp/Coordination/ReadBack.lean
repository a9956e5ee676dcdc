import Camp.Program.Steady
import Camp.Coordination.Calm
import Camp.Coordination.Deposits

/-!
# What was written can be read back

A call that has returned, while no other client wrote, is followed by a read. The
documents pass through JSON, so the read returns what was written if JSON keeps the
document as it is and its text is not too long to be read.
-/

namespace Camp.Coordination

open Wire Wire.Utf8 Program Program.Objects Program.Machine

variable {S : ObjectStore}

section Runs

variable {S : ObjectStore} {α β : Type} {o o' : Bucket} {choices : List (Reply Bool)}
variable {explain : StoreError → Error} {op : RemoteSignature.Op}
variable {a : α} {p : Remote α}

def Answered (reply : Reply Bool) : Prop := ∃ detail, reply = .answers detail

def AllAnswered (choices : List (Reply Bool)) : Prop := ∀ reply ∈ choices, Answered reply

theorem AllAnswered.suffix {rest : List (Reply Bool)} (h : AllAnswered choices)
    (hRest : rest <:+ choices) : AllAnswered rest := fun reply hReply => h reply (hRest.mem hReply)

theorem AllAnswered.head (h : AllAnswered choices) : Answered (choices.headD (.answers S.plain)) := by
  cases choices with
  | nil => exact ⟨_, rfl⟩
  | cons reply choices => exact h reply List.mem_cons_self

theorem run_lift {r : Except Error α}
    (h : (storeMachine S).run (liftM r : Remote α).run choices o = (some (.ok a), o')) : r = .ok a ∧ o' = o := by
  cases r <;> cases h
  exact ⟨rfl, rfl⟩

theorem run_guard {p : Prop} [Decidable p] {e : Error} {f : Unit → Remote α}
    (h : (storeMachine S).run (if p then throw e >>= f else f () : Remote α).run choices o = (some (.ok a), o')) :
    ¬ p ∧ (storeMachine S).run (f ()).run choices o = (some (.ok a), o') := by
  split_ifs at h with hp
  · cases h
  · exact ⟨hp, h⟩

theorem run_ask {r : Except Error (op.Value ObjectMeta)}
    (h : (storeMachine S).run (ask explain op : Remote _).run choices o = (some r, o')) :
    (∃ detail, r = (perform S o detail op).1.mapError explain ∧ o' = (perform S o detail op).2) ∨
      (¬ AllAnswered choices ∧ ∃ e, r = .error e ∧ (o' = o ∨ o' = (perform S o S.plain op).2)) := by
  have hStep : ∃ answer, (storeMachine S).step op (choices.headD (.answers S.plain)) o = (some answer, o') ∧
      r = answer.mapError explain := by
    obtain ⟨answer, o₁, hStep, hDone⟩ := run_call_inv h
    cases answer <;> cases hDone <;> exact ⟨_, hStep, rfl⟩
  obtain ⟨answer, hStep, rfl⟩ := hStep
  have hNot (hReply : ∀ detail, choices.headD (.answers S.plain) ≠ .answers detail) :
      ¬ AllAnswered choices := by
    intro hAll
    obtain ⟨detail, h⟩ := hAll.head (S := S)
    exact hReply detail h
  cases hReply : choices.headD (.answers S.plain) with
  | answers detail =>
    rw [hReply] at hStep
    cases hStep
    exact .inl ⟨detail, rfl, rfl⟩
  | fails =>
    rw [hReply] at hStep hNot
    cases hStep
    exact .inr ⟨hNot nofun, _, rfl, .inl rfl⟩
  | loses happened =>
    rw [hReply] at hStep hNot
    refine .inr ⟨hNot nofun, ?_⟩
    cases happened <;> cases hStep
    · exact ⟨_, rfl, .inl rfl⟩
    · exact ⟨_, rfl, .inr rfl⟩
  | stops happened =>
    rw [hReply] at hStep
    cases hStep

def Looks (S : ObjectStore) (p : Remote α) : Prop :=
  ∀ choices o r o', (storeMachine S).run p.run choices o = (some r, o') → o' = o

theorem looks_lift (r : Except Error α) : Looks S (liftM r : Remote α) := by
  intro choices o _ o' h
  cases r <;> cases h <;> rfl

theorem looks_pure (a : α) : Looks S (pure a : Remote α) := looks_lift (.ok a)

theorem looks_throw (e : Error) : Looks S (throw e : Remote α) := looks_lift (.error e)

theorem Looks.bind {f : α → Remote β} (hp : Looks S p) (hf : ∀ a, Looks S (f a)) : Looks S (p >>= f) := by
  intro choices o r o' h
  rw [ExceptT.run_bind] at h
  obtain ⟨r', o₁, rest, -, hRunP, hRunF⟩ := run_bind_inv h
  rw [← hp choices o r' o₁ hRunP]
  cases r' with
  | error e =>
    cases hRunF
    rfl
  | ok a => exact hf a rest o₁ r o' hRunF

theorem Looks.catching (hp : Looks S p) : Looks S (Program.catching p) := by
  intro choices o r o' h
  obtain ⟨r', -, hRun⟩ := run_catching_inv h
  exact hp choices o r' o' hRun

theorem looks_ask (hOp : ∀ o detail, (perform S o detail op).2 = o) : Looks S (ask explain op) := by
  intro choices o r o' h
  rcases run_ask h with ⟨detail, -, rfl⟩ | ⟨-, e, -, rfl | rfl⟩
  · exact hOp o detail
  · rfl
  · exact hOp o _

theorem perform_get (o : Bucket) (detail : Bool) (k : Bytes) :
    (perform (P := Probe) S o detail (.get k)).2 = o := by
  simp only [perform]
  cases (o k).current <;> rfl

theorem looks_readJSON [Wired α] (key : Bytes) : Looks S (readJSON α key) := by
  refine (looks_ask fun o detail => perform_get o detail key).bind fun found => ?_
  refine (looks_ask fun _ _ => rfl).bind fun _ => (looks_ask fun _ _ => rfl).bind fun _ => ?_
  dsimp only
  split_ifs
  · exact looks_throw _
  · cases (unmarshal found.1 : Option α)
    · exact looks_throw _
    · exact looks_pure _

theorem looks_readChecked [Wired α] (key : Except Error Bytes) (check : α → Except Error Unit)
    (make : α → Bytes → β) : Looks S (readChecked key check make) :=
  (looks_lift key).bind fun key => (looks_readJSON key).bind fun _ =>
    (looks_lift _).bind fun _ => looks_pure _

theorem looks_revalidate (observed : PointerRecord) : Looks S (Pointers.revalidate observed) := by
  refine (looks_readChecked _ _ _).catching.bind fun r => ?_
  rcases r with e | current
  · dsimp only
    split_ifs
    · exact looks_throw _
    · exact looks_throw _
  · dsimp only
    split_ifs
    · exact looks_throw _
    · exact looks_pure _

theorem steady_ask (hOp : ∀ o detail, perform S o detail op = perform S o S.plain op) :
    (storeMachine S).Steady (ask explain op : Remote _) := by
  intro choices o a o' h
  rw [calmly_ask]
  rcases run_ask h with ⟨detail, hResult, rfl⟩ | ⟨-, e, hResult, -⟩
  · rw [hOp o detail] at hResult ⊢
    rw [← hResult]
  · cases hResult

theorem steady_readChecked [Wired α] (key : Except Error Bytes) (check : α → Except Error Unit)
    (make : α → Bytes → β) : (storeMachine S).Steady (readChecked key check make) := by
  have hGet (k : Bytes) (o : Bucket) (detail : Bool) :
      perform (P := Probe) S o detail (.get k) = perform S o S.plain (.get k) := by
    simp only [perform]
  have hRead (k : Bytes) : (storeMachine S).Steady (readJSON α k) := by
    refine (steady_ask (hGet k)).bind fun found => ?_
    refine (steady_ask fun _ _ => rfl).bind fun _ => (steady_ask fun _ _ => rfl).bind fun _ => ?_
    dsimp only
    split_ifs
    · exact (fails_throw _).steady
    · cases (unmarshal found.1 : Option α)
      · exact (fails_throw _).steady
      · exact steady_pure _
  exact (steady_lift key).bind fun k => (hRead k).bind fun _ => (steady_lift _).bind fun _ => steady_pure _

end Runs

section Documents

variable {S : ObjectStore} {α β : Type} [Wired α] {o : Bucket}

/-- JSON keeps the document as it is, and its text can be read. -/
def Survives (a : α) : Prop :=
  canon a = a ∧ ∀ body, marshal a = some body → body.length ≤ maxCoordinationDocumentSize

theorem calmly_readChecked_iff {key body revision : Bytes} {a : α} {check : α → Except Error Unit}
    {make : α → Bytes → β} (hMake : ∀ b, make b revision = make a revision → b = a)
    (hBody : marshal a = some body) (hStored : Stored S o key body revision) (hCheck : check a = .ok ()) :
    (storeMachine S).calmly (readChecked (.ok key) check make) o = (some (.ok (make a revision)), o) ↔
      Survives a := by
  have hText : unmarshal body = some (canon a) := unmarshal_marshal hBody
  obtain ⟨hCurrent, rfl⟩ := hStored
  rw [calmly_readChecked]
  have hFetch (hSize : body.length ≤ maxCoordinationDocumentSize) :
      fetch α S o key = .ok (canon a, revision S o key) := by
    unfold fetch
    simp [hCurrent, hText, Nat.not_lt.mpr hSize]
  constructor
  · intro h
    have hOk : fetchChecked S o (.ok key) check make = .ok (make a (revision S o key)) :=
      Option.some.inj (Prod.mk.inj h).1
    obtain ⟨found, hFound, hRest⟩ := Checks.bind_eq_ok.mp (show (fetch α S o key >>= _) = _ from hOk)
    obtain ⟨_, -, hSame⟩ := Checks.bind_eq_ok.mp hRest
    have hSize : body.length ≤ maxCoordinationDocumentSize := by
      by_contra hLong
      unfold fetch at hFound
      simp [hCurrent, Nat.lt_of_not_le hLong] at hFound
    cases (hFetch hSize).symm.trans hFound
    refine ⟨hMake _ (Except.ok.inj hSame), fun text hMarshal => ?_⟩
    cases hBody.symm.trans hMarshal
    exact hSize
  · rintro ⟨hCanon, hSize⟩
    have hRead : fetchChecked S o (.ok key) check make = .ok (make a (revision S o key)) := by
      show (fetch α S o key >>= _) = _
      rw [hFetch (hSize body hBody), hCanon]
      show (check a >>= _) = _
      rw [hCheck]
      rfl
    rw [hRead]

end Documents

section Writes

variable {S : ObjectStore} {o o' : Bucket} {choices : List (Reply Bool)} {key body : Bytes}
  {condition : Condition Bytes}

theorem run_putConditional {revision : Bytes}
    (h : (storeMachine S).run (putConditional key body condition).run choices o = (some (.ok revision), o')) :
    Stored S o' key body revision := by
  unfold putConditional at h
  split_ifs at h
  · cases h
  · rcases run_ask h with ⟨detail, hResult, rfl⟩ | ⟨-, e, hResult, -⟩
    · cases hRefusal : refusal S o key condition with
      | none =>
        simp only [perform, hRefusal, Except.mapError] at hResult ⊢
        cases hResult
        exact ⟨by simp [put], rfl⟩
      | some e =>
        simp only [perform, hRefusal, Except.mapError] at hResult
        cases hResult
    · cases hResult

theorem refusal_ne_ambiguous {e : StoreError} (h : refusal S o key condition = some e) :
    e ≠ .ambiguous := by
  rintro rfl
  cases condition with
  | absent =>
    simp only [refusal] at h
    split_ifs at h
    cases h
  | revision r =>
    simp only [refusal] at h
    split_ifs at h <;> cases h

theorem run_putConditional_error {e : Error} (hAll : AllAnswered choices)
    (h : (storeMachine S).run (putConditional key body condition).run choices o = (some (.error e), o')) :
    e.is .ambiguous = false := by
  unfold putConditional at h
  split_ifs at h
  · cases h
    rfl
  · rcases run_ask h with ⟨detail, hResult, -⟩ | ⟨hNot, -⟩
    · cases hRefusal : refusal S o key condition with
      | none =>
        simp only [perform, hRefusal, Except.mapError] at hResult
        cases hResult
      | some refused =>
        simp only [perform, hRefusal, Except.mapError] at hResult
        cases hResult
        have hOther := refusal_ne_ambiguous hRefusal
        cases refused <;> first | rfl | contradiction
    · exact absurd hAll hNot

end Writes

namespace Pointers

variable {S : ObjectStore} {o o' : Bucket} {choices : List (Reply Bool)} {next : LatestPointer}
  {record : PointerRecord}
variable {expected : PointerRecord}

def ReadsBack (S : ObjectStore) (o : Bucket) (next : LatestPointer) (record : PointerRecord) : Prop :=
  (storeMachine S).calmly (read next.capsule next.lineage) o = (some (.ok record), o)

/-- The pointer was written, or it was found when the outcome of the write got lost. -/
def Landed (S : ObjectStore) (o : Bucket) (choices : List (Reply Bool)) (next : LatestPointer)
    (record : PointerRecord) : Prop :=
  (∃ key body, next.lineage.pointerKey next.capsule = .ok key ∧ marshal next = some body ∧
      Stored S o key body record.revision ∧ record.pointer = next) ∨
    (¬ AllAnswered choices ∧ ReadsBack S o next record)

theorem run_reconcile {e : Error} {found : Option PointerRecord}
    (h : (storeMachine S).run (reconcile next e).run choices o = (some (.ok found), o')) :
    (∀ record, found = some record → e.is .ambiguous ∧ ReadsBack S o' next record) := by
  rintro record rfl
  unfold reconcile at h
  split_ifs at h with hAmbiguous
  · refine ⟨hAmbiguous, ?_⟩
    obtain ⟨r, o₁, rest, -, hRead, hRest⟩ := run_bind_ok h
    obtain ⟨r, hSame, hRead⟩ := run_catching_inv hRead
    cases hSame
    cases r with
    | error e => cases hRest
    | ok reconciled =>
      dsimp only at hRest
      split_ifs at hRest
      · cases hRest
        have hCalm := steady_readChecked _ _ _ _ _ _ _ hRead
        have hLooks := looks_readChecked _ _ _ _ _ _ _ hRead
        rw [hLooks] at hCalm ⊢
        exact hCalm
      · cases hRest
  · cases h

theorem run_write {key body : Bytes} {condition : Condition Bytes} {refused : Error → Error}
    (hKey : next.lineage.pointerKey next.capsule = .ok key) (hBody : marshal next = some body)
    (h : (storeMachine S).run (write key body condition next refused).run choices o =
      (some (.ok record), o')) : Landed S o' choices next record := by
  obtain ⟨r, o₁, rest, -, hPut, hRest⟩ := run_bind_ok h
  obtain ⟨r, hSame, hPut⟩ := run_catching_inv hPut
  cases hSame
  cases r with
  | ok revision =>
    cases hRest
    exact .inl ⟨key, body, hKey, hBody, run_putConditional hPut, rfl⟩
  | error e =>
    obtain ⟨found, o₂, rest', -, hReconcile, hRest⟩ := run_bind_ok hRest
    cases found with
    | none => cases hRest
    | some reconciled =>
      cases hRest
      obtain ⟨hAmbiguous, hReads⟩ := run_reconcile hReconcile record rfl
      refine .inr ⟨fun hAll => ?_, hReads⟩
      rw [run_putConditional_error hAll hPut] at hAmbiguous
      cases hAmbiguous

theorem Landed.suffix {rest : List (Reply Bool)} (h : Landed S o rest next record)
    (hRest : rest <:+ choices) : Landed S o choices next record :=
  h.imp_right fun ⟨hNot, hReads⟩ => ⟨fun hAll => hNot (hAll.suffix hRest), hReads⟩

theorem run_create (h : (storeMachine S).run (create next).run choices o = (some (.ok record), o')) :
    validatePointer next next.capsule next.lineage = .ok () ∧ Landed S o' choices next record := by
  obtain ⟨_, o₁, rest, hSuffix, hChecked, hRest⟩ := run_bind_ok h
  obtain ⟨hValid, -⟩ := run_lift hChecked
  refine ⟨hValid, ?_⟩
  obtain ⟨key, o₂, rest', hSuffix', hKeyed, hWrite⟩ := run_bind_ok (run_guard hRest).2
  obtain ⟨hKey, -⟩ := run_lift hKeyed
  cases hBody : marshal next with
  | none =>
    rw [hBody] at hWrite
    cases hWrite
  | some body =>
    rw [hBody] at hWrite
    exact (run_write hKey hBody hWrite).suffix (hSuffix'.trans hSuffix)

theorem run_replace {marshalFormat format : String}
    (h : (storeMachine S).run (replace marshalFormat format expected next).run choices o = (some (.ok record), o')) :
    Landed S o' choices next record := by
  obtain ⟨_, o₁, rest, hSuffix, -, hRest⟩ := run_bind_ok h
  cases hBody : marshal next with
  | none =>
    rw [hBody] at hRest
    cases hRest
  | some body =>
    rw [hBody] at hRest
    obtain ⟨key, o₂, rest', hSuffix', hKeyed, hWrite⟩ := run_bind_ok hRest
    obtain ⟨hKey, -⟩ := run_lift hKeyed
    exact (run_write hKey hBody hWrite).suffix (hSuffix'.trans hSuffix)

theorem run_compareAndSwap
    (h : (storeMachine S).run (compareAndSwap expected next).run choices o = (some (.ok record), o')) :
    validatePointer next next.capsule next.lineage = .ok () ∧ Landed S o' choices next record := by
  obtain ⟨_, o₁, rest, hSuffix, hChecked, hRest⟩ := run_bind_ok h
  obtain ⟨hValid, -⟩ := run_lift hChecked
  have hNext : validatePointer next next.capsule next.lineage = .ok () := by
    obtain ⟨_, -, hValid⟩ := Checks.bind_eq_ok.mp hValid
    split_ifs at hValid
    · cases hValid
    · obtain ⟨hCapsule, hLineage⟩ := identity_of_validatePointer hValid
      rw [hCapsule, hLineage]
      exact hValid
  exact ⟨hNext, (run_replace (run_guard (run_guard hRest).2).2).suffix hSuffix⟩

theorem Landed.readsBack (hValid : validatePointer next next.capsule next.lineage = .ok ())
    (h : Landed S o choices next record) :
    (Survives next → ReadsBack S o next record) ∧
      (AllAnswered choices → ReadsBack S o next record → Survives next) := by
  rcases h with ⟨key, body, hKey, hBody, hStored, hPointer⟩ | ⟨hNot, hReads⟩
  · have hRecord : record = ⟨next, record.revision⟩ := by rw [← hPointer]
    have hIff : ReadsBack S o next record ↔ Survives next := by
      rw [hRecord]
      unfold ReadsBack read
      rw [hKey]
      exact calmly_readChecked_iff (fun _ h => (PointerRecord.mk.inj h).1) hBody hStored hValid
    exact ⟨hIff.mpr, fun _ => hIff.mp⟩
  · exact ⟨fun _ => hReads, fun hAll => absurd hAll hNot⟩

end Pointers

namespace Leases

variable {S : ObjectStore} {o o' : Bucket} {choices : List (Reply Bool)} {token : LeaseToken}
variable {lease : WriterLease} {capsule : Bytes} {lineage : Lineage} {observed : Option PointerRecord}
variable {rounds : Nat} {owner : LeaseOwner} {now : Time} {ttl : Int64}

def proposed (capsule : Bytes) (lineage : Lineage) (owner : LeaseOwner) (opened : Option GenerationRef)
    (now : Time) (ttl : Int64) : WriterLease where
  schemaVersion := schemaVersion
  capsule := capsule
  lineage := lineage
  sessionID := owner.sessionID
  machine := owner.machine
  openedGeneration := opened
  createdAt := now
  heartbeatAt := now
  expiresAt := now.add ttl.toInt

def ReadsBack (S : ObjectStore) (o : Bucket) (lease : WriterLease) (token : LeaseToken) : Prop :=
  (storeMachine S).calmly (read lease.capsule lease.lineage) o = (some (.ok token), o)

/-- The lease was written, or it was found when the outcome of the write got lost. -/
def Landed (S : ObjectStore) (o : Bucket) (choices : List (Reply Bool)) (lease : WriterLease)
    (token : LeaseToken) : Prop :=
  (∃ key body, lease.lineage.leaseKey lease.capsule = .ok key ∧ marshal lease = some body ∧
      Stored S o key body token.revision ∧ token.lease = lease) ∨
    (¬ AllAnswered choices ∧ ReadsBack S o lease token)

theorem Landed.suffix {rest : List (Reply Bool)} (h : Landed S o rest lease token) (hRest : rest <:+ choices) :
    Landed S o choices lease token :=
  h.imp_right fun ⟨hNot, hReads⟩ => ⟨fun hAll => hNot (hAll.suffix hRest), hReads⟩

theorem run_reconcileLease
    (h : (storeMachine S).run (reconcileLease lease).run choices o = (some (.ok (some token)), o')) :
    ReadsBack S o' lease token := by
  obtain ⟨r, o₁, rest, -, hRead, hRest⟩ := run_bind_ok h
  obtain ⟨r, hSame, hRead⟩ := run_catching_inv hRead
  cases hSame
  cases r with
  | error e => cases hRest
  | ok current =>
    dsimp only at hRest
    split_ifs at hRest
    · cases hRest
      have hCalm := steady_readChecked _ _ _ _ _ _ _ hRead
      have hLooks := looks_readChecked _ _ _ _ _ _ _ hRead
      rw [hLooks] at hCalm ⊢
      exact hCalm
    · cases hRest

theorem looks_observationErr (capsule : Bytes) (lineage : Lineage) (observed : Option PointerRecord) :
    Looks S (observationErr capsule lineage observed) := by
  cases observed with
  | none =>
    refine (looks_readChecked _ _ _).catching.bind fun r => ?_
    rcases r with e | current
    · dsimp only
      split_ifs
      · exact looks_pure _
      · exact looks_pure _
    · exact looks_pure _
  | some observed =>
    refine (looks_revalidate observed).catching.bind fun r => ?_
    rcases r with e | _
    · dsimp only
      split_ifs
      · exact looks_pure _
      · exact looks_pure _
    · exact looks_pure _

theorem fails_giveBack (reason : Error) : (storeMachine S).Fails (giveBack token reason) := by
  refine Fails.bind fun r => ?_
  rcases r with e | _
  · exact fails_throw _
  · exact fails_throw _

theorem run_finishAcquire {returned : LeaseToken}
    (h : (storeMachine S).run (finishAcquire capsule lineage token observed).run choices o =
      (some (.ok returned), o')) : returned = token ∧ o' = o := by
  obtain ⟨r, o₁, rest, -, hObserved, hRest⟩ := run_bind_ok h
  have hSame := looks_observationErr _ _ _ _ _ _ _ hObserved
  cases r with
  | none =>
    cases hRest
    exact ⟨rfl, hSame⟩
  | some reason => exact absurd hRest (fails_giveBack reason _ _ _ _)

namespace Acquisition

variable {a : Acquisition}

theorem run_settle {e : Error} {refused : Remote LeaseToken} {all : List (Reply Bool)}
    (hAnswered : AllAnswered all → e.is .ambiguous = false)
    (hRefused : (storeMachine S).run refused.run choices o = (some (.ok token), o') →
      Landed S o' all a.lease token)
    (h : (storeMachine S).run (a.settle e refused).run choices o = (some (.ok token), o')) :
    Landed S o' all a.lease token := by
  unfold settle at h
  split_ifs at h with hAmbiguous hConflict
  · obtain ⟨found, o₁, rest, -, hReconcile, hRest⟩ := run_bind_ok h
    cases found with
    | none => cases hRest
    | some reconciled =>
      obtain ⟨rfl, rfl⟩ := run_finishAcquire hRest
      refine .inr ⟨fun hAll => ?_, run_reconcileLease hReconcile⟩
      rw [hAnswered hAll] at hAmbiguous
      cases hAmbiguous
  · exact hRefused h
  · cases h

theorem run_put {condition : Condition Bytes} {refused : Error → Remote LeaseToken}
    (hKey : a.lease.lineage.leaseKey a.lease.capsule = .ok a.key) (hBody : marshal a.lease = some a.body)
    (hRefused : ∀ e choices o, (storeMachine S).run (refused e).run choices o = (some (.ok token), o') →
      Landed S o' choices a.lease token)
    (h : (storeMachine S).run (do
      match ← catching (putConditional a.key a.body condition) with
      | .ok revision => finishAcquire a.capsule a.lineage ⟨a.lease, revision⟩ a.observed
      | .error e => a.settle e (refused e) : Remote LeaseToken).run choices o = (some (.ok token), o')) :
    Landed S o' choices a.lease token := by
  obtain ⟨r, o₁, rest, hSuffix, hPut, hRest⟩ := run_bind_ok h
  obtain ⟨r, hSame, hPut⟩ := run_catching_inv hPut
  cases hSame
  cases r with
  | ok revision =>
    obtain ⟨rfl, rfl⟩ := run_finishAcquire hRest
    exact .inl ⟨a.key, a.body, hKey, hBody, run_putConditional hPut, rfl⟩
  | error e =>
    exact run_settle (fun hAll => run_putConditional_error hAll hPut)
      (fun hRun => (hRefused e rest o₁ hRun).suffix hSuffix) hRest

theorem run_takeOver {current : LeaseToken} {retry : Remote LeaseToken}
    (hKey : a.lease.lineage.leaseKey a.lease.capsule = .ok a.key) (hBody : marshal a.lease = some a.body)
    (hRetry : ∀ choices o, (storeMachine S).run retry.run choices o = (some (.ok token), o') →
      Landed S o' choices a.lease token)
    (h : (storeMachine S).run (a.takeOver current retry).run choices o = (some (.ok token), o')) :
    Landed S o' choices a.lease token := by
  unfold takeOver at h
  obtain ⟨-, hPut⟩ := run_guard h
  refine run_put hKey hBody (fun e choices o hRun => ?_) hPut
  obtain ⟨_, o₁, rest, hSuffix, -, hRest⟩ := run_bind_ok hRun
  exact (hRetry rest o₁ hRest).suffix hSuffix

theorem run_loop (hKey : a.lease.lineage.leaseKey a.lease.capsule = .ok a.key)
    (hBody : marshal a.lease = some a.body) (rounds : Nat)
    (h : (storeMachine S).run (a.loop rounds).run choices o = (some (.ok token), o')) :
    Landed S o' choices a.lease token := by
  induction rounds generalizing choices o with
  | zero => cases h
  | succ rounds ih =>
    refine run_put hKey hBody (fun _ choices o hRun => ?_) h
    obtain ⟨r, o₁, rest, hSuffix, hRead, hRest⟩ := run_bind_ok hRun
    obtain ⟨r, hSame, -⟩ := run_catching_inv hRead
    cases hSame
    refine Landed.suffix ?_ hSuffix
    cases r with
    | error readErr =>
      dsimp only at hRest
      split_ifs at hRest
      · exact ih hRest
      · cases hRest
    | ok current => exact run_takeOver hKey hBody (fun _ _ => ih) hRest

end Acquisition

theorem run_acquireLease {opened : Option GenerationRef}
    (h : (storeMachine S).run (acquireLease rounds capsule lineage owner observed opened now ttl).run
      choices o = (some (.ok token), o')) :
    validateLease (proposed capsule lineage owner opened now ttl) capsule lineage = .ok () ∧
      Landed S o' choices (proposed capsule lineage owner opened now ttl) token := by
  obtain ⟨key, o₁, rest, hSuffix, hKeyed, hRest⟩ := run_bind_ok h
  obtain ⟨hKey, -⟩ := run_lift hKeyed
  obtain ⟨hOwner, hRest⟩ := run_guard hRest
  obtain ⟨_, o₂, rest', hSuffix', hOpenedRun, hRest⟩ := run_bind_ok hRest
  obtain ⟨hOpened, -⟩ := run_lift hOpenedRun
  obtain ⟨hExpiry, hRest⟩ := run_guard hRest
  simp only [Bool.or_eq_true, decide_eq_true_eq, not_or] at hOwner
  constructor
  · have hBounds : ¬ (owner.sessionID.isEmpty || owner.machine.isEmpty || now.isZero ||
        now.after now || !(now.add ttl.toInt).after now) = true := by
      simp only [Bool.or_eq_true, not_or]
      exact ⟨⟨hOwner.1, by simp [Time.after]⟩, hExpiry⟩
    unfold validateLease proposed
    simp only [ne_eq, not_true_eq_false, decide_false, Bool.or_self, Bool.false_eq_true, if_false,
      hKey, hBounds]
    exact hOpened
  · refine Landed.suffix ?_ (hSuffix'.trans hSuffix)
    dsimp only at hRest
    cases hBody : marshal (proposed capsule lineage owner opened now ttl) with
    | none =>
      rw [← proposed, hBody] at hRest
      cases hRest
    | some body =>
      rw [← proposed, hBody] at hRest
      exact Acquisition.run_loop (a := ⟨_, _, _, _, _, _, _⟩) hKey hBody rounds hRest

theorem run_acquire
    (h : (storeMachine S).run (acquire rounds capsule lineage owner observed now ttl).run choices o =
      (some (.ok token), o')) :
    (storeMachine S).run (acquireLease rounds capsule lineage owner observed
      (observed.map (·.pointer.generation)) now ttl).run choices o = (some (.ok token), o') := by
  cases observed with
  | none => exact h
  | some record =>
    unfold acquire at h
    obtain ⟨-, hRest⟩ := run_guard h
    cases hValid : validatePointer record.pointer capsule lineage with
    | error e =>
      rw [hValid] at hRest
      cases hRest
    | ok _ =>
      rw [hValid] at hRest
      exact hRest

theorem Landed.readsBack (hValid : validateLease lease lease.capsule lease.lineage = .ok ())
    (h : Landed S o choices lease token) :
    (Survives lease → ReadsBack S o lease token) ∧
      (AllAnswered choices → ReadsBack S o lease token → Survives lease) := by
  rcases h with ⟨key, body, hKey, hBody, hStored, hLease⟩ | ⟨hNot, hReads⟩
  · have hToken : token = ⟨lease, token.revision⟩ := by rw [← hLease]
    have hIff : ReadsBack S o lease token ↔ Survives lease := by
      rw [hToken]
      unfold ReadsBack read
      rw [hKey]
      exact calmly_readChecked_iff (fun _ h => (LeaseToken.mk.inj h).1) hBody hStored hValid
    exact ⟨hIff.mpr, fun _ => hIff.mp⟩
  · exact ⟨fun _ => hReads, fun hAll => absurd hAll hNot⟩

end Leases

namespace Generations

variable {S : ObjectStore} {o o' : Bucket} {metadata : GenerationMetadata} {record : GenerationRecord}
variable {body archive : Bytes} {identifies : Bool}

/-- The document under the key with its bytes, as `readJSONWithBytes` finds it. -/
def fetchWithBytes (α : Type) [Wired α] (S : ObjectStore) (o : Bucket) (key : Bytes) :
    Except Error (Bytes × α × ObjectMeta × Bytes) :=
  match (o key).current with
  | none => .error (plainly .notFound)
  | some body =>
    if maxCoordinationDocumentSize < body.length then
      .error (invalid "coordination object %q exceeds size limit: %w" [key])
    else match unmarshal body with
      | none => .error (invalid "decode coordination object %q: %v: %w" [key])
      | some document => .ok (body, document, S.report S.plain body, revision S o key)

theorem calmly_readJSONWithBytes {α : Type} [Wired α] (key : Bytes) :
    (storeMachine S).calmly (readJSONWithBytes α key) o = (some (fetchWithBytes α S o key), o) := by
  unfold readJSONWithBytes fetchWithBytes
  rw [calmly_bind, calmly_ask]
  cases hCurrent : (o key).current with
  | none =>
    simp only [perform, hCurrent]
    rfl
  | some body =>
    simp only [perform, hCurrent, Except.mapError]
    rw [calmly_bind, calmly_ask]
    simp only [perform, Except.mapError]
    rw [calmly_bind, calmly_ask]
    simp only [perform, Except.mapError]
    split_ifs
    · rfl
    · cases (unmarshal body : Option α) <;> rfl

/-- The metadata that a publication returned is what the readers find. -/
structure ReadsBack (S : ObjectStore) (identifies : Bool) (o : Bucket) (metadata : GenerationMetadata)
    (record : GenerationRecord) : Prop where
  read : ∃ object, (storeMachine S).calmly
    (readMetadata metadata.capsule metadata.lineage metadata.generation) o =
      (some (.ok (record.metadata, object)), o)
  resolved : ∃ found, (storeMachine S).calmly
    (resolveExactGeneration identifies metadata.capsule metadata.lineage metadata.generation) o =
      (some (.ok found), o) ∧ found.metadata = record.metadata

theorem validateStored_of_deposited (h : Deposited S metadata record o) :
    validateStoredGenerationMetadata (markVerified metadata) metadata.capsule metadata.lineage
      metadata.generation = .ok () := by
  have hValid : validateGenerationMetadata (markVerified metadata) metadata.capsule metadata.lineage
      metadata.generation = .ok () := h.valid
  unfold validateStoredGenerationMetadata
  rw [hValid]
  show (if !metadata.verified.localHaulLoadable || !true then _ else _) = _
  rw [h.loadable]
  rfl

theorem calmly_identify {name want : String} {key : Bytes} (hBody : (o key).current = some body) :
    (storeMachine S).calmly (identify name want key (S.report S.plain body, revision S o key)) o =
      (some (.ok (fingerprint key (S.report S.plain body, revision S o key))), o) := by
  have hIdentity : (storeMachine S).calmly (sourceIdentity key) o =
      (some (.ok (fingerprint key (S.report S.plain body, revision S o key))), o) := by
    unfold sourceIdentity
    rw [calmly_bind, calmly_ask]
    simp only [perform, hBody, Except.mapError]
    rfl
  unfold identify
  rw [calmly_bind, calmly_catching, hIdentity]
  simp [fingerprint]

theorem calmly_fingerprints (identifies : Bool) (metadata : GenerationMetadata) {sidecar : Bytes}
    (hArchive : (o metadata.objectKey).current = some archive)
    (hSidecar : (o metadata.metadataKey).current = some sidecar) :
    let archive := (S.report S.plain archive, revision S o metadata.objectKey)
    let sidecar := (S.report S.plain sidecar, revision S o metadata.metadataKey)
    (storeMachine S).calmly (fingerprints identifies metadata archive sidecar) o =
      (some (.ok (fingerprint metadata.objectKey archive, fingerprint metadata.metadataKey sidecar)), o) := by
  unfold fingerprints
  cases identifies with
  | false => rfl
  | true =>
    dsimp only
    rw [if_pos rfl, calmly_bind_ok (calmly_identify hArchive), calmly_bind_ok (calmly_identify hSidecar),
      calmly_pure]

theorem calmly_resolveExactGeneration (hReport : ∀ bytes, S.report S.plain bytes = describe bytes)
    (hNamed : describe archive = namedBy metadata) (h : Deposited S metadata record o)
    (hFound : fetchWithBytes GenerationMetadata S o metadata.metadataKey =
      .ok (body, markVerified metadata, describe body, revision S o metadata.metadataKey))
    (hArchive : (o metadata.objectKey).current = some archive)
    (hSidecar : (o metadata.metadataKey).current = some body) :
    let archive := (describe archive, revision S o metadata.objectKey)
    let sidecar := (describe body, revision S o metadata.metadataKey)
    (storeMachine S).calmly
      (resolveExactGeneration identifies metadata.capsule metadata.lineage metadata.generation) o =
        (some (.ok ⟨markVerified metadata, body, archive, sidecar,
          fingerprint metadata.objectKey archive, fingerprint metadata.metadataKey sidecar⟩), o) := by
  obtain ⟨hObjectKey, hMetadataKey, hRef⟩ := keys_of_validateGenerationMetadata h.valid
  have hSize : (describe archive).size = (markVerified metadata).size := congrArg ObjectMeta.size hNamed
  have hDigest : (describe archive).sha256 = (markVerified metadata).generation.archiveSHA256 :=
    congrArg ObjectMeta.sha256 hNamed
  have hVerified : (storeMachine S).calmly (verifyArchive (markVerified metadata) (describe archive)) o =
      (some (.ok ()), o) := by
    have hNonempty : (describe archive).sha256 ≠ [] := by
      intro hEmpty
      have hLength : (markVerified metadata).generation.archiveSHA256.length = 64 :=
        (hex_of_validateGenerationRef hRef).1
      rw [← hDigest, hEmpty] at hLength
      cases hLength
    unfold verifyArchive
    rw [if_neg (not_not.mpr hSize), if_neg hNonempty, if_neg (not_not.mpr hDigest), calmly_pure]
  have hPrints := calmly_fingerprints (S := S) identifies (markVerified metadata) hArchive hSidecar
  simp only [hReport] at hPrints
  change (storeMachine S).calmly (fingerprints identifies (markVerified metadata)
    (describe archive, revision S o metadata.objectKey)
    (describe body, revision S o metadata.metadataKey)) o = _ at hPrints
  unfold resolveExactGeneration
  rw [hObjectKey, hMetadataKey, calmly_bind, calmly_lift]
  dsimp only
  rw [calmly_bind, calmly_lift]
  dsimp only
  rw [calmly_bind, calmly_readJSONWithBytes, hFound]
  dsimp only
  rw [calmly_bind, calmly_lift, validateStored_of_deposited h]
  dsimp only
  rw [calmly_bind, calmly_ask]
  simp only [perform, hArchive, Except.mapError, hReport]
  rw [calmly_bind_ok hVerified]
  simp only [show (describe body).size = .ofNat body.length from rfl,
    show (describe body).sha256 = sha256Hex body from rfl, ne_eq, not_true_eq_false, if_false]
  rw [calmly_bind_ok hPrints]
  rfl

theorem readsBack_iff (hHonest : Honest S) (hPlain : S.plain = true) (h : Deposited S metadata record o)
    (hApart : NoCollision o metadata) :
    ReadsBack S identifies o metadata record ↔ Survives (markVerified metadata) := by
  obtain ⟨archive, hArchive, hNamed⟩ := h.archive hHonest
  obtain ⟨body, text, hBody, hText, hSame⟩ := h.sidecar hHonest
  have hWritten : text ∈ (o metadata.metadataKey).written := by simp [Shelf.written, hText]
  cases hApart text hWritten body hBody hSame
  obtain ⟨hObjectKey, hMetadataKey, hRef⟩ := keys_of_validateGenerationMetadata h.valid
  have hRead : unmarshal body = some (canon (markVerified metadata)) := unmarshal_marshal hBody
  have hReport (bytes : Bytes) : S.report S.plain bytes = describe bytes := by
    rw [hHonest.report, hPlain]
    rfl
  have hFetch (hSize : body.length ≤ maxCoordinationDocumentSize) :
      fetchWithBytes GenerationMetadata S o metadata.metadataKey =
        .ok (body, canon (markVerified metadata), describe body, revision S o metadata.metadataKey) := by
    unfold fetchWithBytes
    simp [hText, hRead, Nat.not_lt.mpr hSize, hReport]
  constructor
  · rintro ⟨⟨object, hRun⟩, -⟩
    unfold readMetadata at hRun
    rw [hMetadataKey, calmly_bind, calmly_lift] at hRun
    dsimp only at hRun
    rw [calmly_bind, calmly_readJSONWithBytes] at hRun
    have hSize : body.length ≤ maxCoordinationDocumentSize := by
      by_contra hLong
      unfold fetchWithBytes at hRun
      simp [hText, Nat.lt_of_not_le hLong] at hRun
    rw [hFetch hSize] at hRun
    dsimp only at hRun
    rw [calmly_bind, calmly_lift] at hRun
    cases hCheck : validateStoredGenerationMetadata (canon (markVerified metadata)) metadata.capsule
        metadata.lineage metadata.generation with
    | error e =>
      rw [hCheck] at hRun
      cases hRun
    | ok _ =>
      rw [hCheck] at hRun
      have hCanon : canon (markVerified metadata) = record.metadata := by
        have hResult := congrArg Prod.fst hRun
        simp only [calmly_pure, Option.some.injEq, Except.ok.injEq, Prod.mk.injEq] at hResult
        exact hResult.1
      refine ⟨hCanon.trans h.returned, fun text hMarshal => ?_⟩
      cases hBody.symm.trans hMarshal
      exact hSize
  · rintro ⟨hCanon, hSize⟩
    have hStored := validateStored_of_deposited h
    have hFound := hFetch (hSize body hBody)
    rw [hCanon] at hFound
    constructor
    · refine ⟨(describe body, revision S o metadata.metadataKey), ?_⟩
      unfold readMetadata
      rw [hMetadataKey, calmly_bind, calmly_lift]
      dsimp only
      rw [calmly_bind, calmly_readJSONWithBytes, hFound]
      dsimp only
      rw [calmly_bind, calmly_lift, hStored, h.returned]
      rfl
    · exact ⟨_, calmly_resolveExactGeneration hReport hNamed h hFound hArchive hText, h.returned.symm⟩

end Generations

theorem Generations.run_putAndVerify {o o' : Bucket} {choices : List (Reply Bool)} {metadata : GenerationMetadata}
    {source : Option Bytes} {record : GenerationRecord}
    (h : (storeMachine S).run (putAndVerify metadata source).run choices o = (some (.ok record), o')) :
    Deposited S metadata record o' := by
  have hActs : (storeMachine S).Acts Rely (Deposits S metadata) (putAndVerify metadata source)
      (fun _ r o₁ => ∀ record, r = .ok record → Deposited S metadata record o₁) [] o := acts_putAndVerify
  have hCalm (o₁ o₂ : Bucket) (hSame : o₁ = o₂) : Rely o₁ o₂ := hSame ▸ Rely.refl _
  exact (among_run (hActs.calmer hCalm) choices).2 _ _ h record rfl

/-- After a call that returned while no other client wrote, a read returns what the call
returned if JSON keeps the document as it is and its text is at most as long as a read
allows; and this is needed, unless the outcome of the write got lost and the document
was read back before. -/
theorem written_reads_back (hHonest : Honest S) (hPlain : S.plain = true) (identifies : Bool) :
    (∀ next choices o record o',
      (storeMachine S).run (Pointers.create next).run choices o = (some (.ok record), o') →
        (Survives next → Pointers.ReadsBack S o' next record) ∧
        (AllAnswered choices → Pointers.ReadsBack S o' next record → Survives next)) ∧
    (∀ expected next choices o record o',
      (storeMachine S).run (Pointers.compareAndSwap expected next).run choices o =
          (some (.ok record), o') →
        (Survives next → Pointers.ReadsBack S o' next record) ∧
        (AllAnswered choices → Pointers.ReadsBack S o' next record → Survives next)) ∧
    (∀ rounds capsule lineage owner observed now ttl choices o token o',
      (storeMachine S).run (Leases.acquire rounds capsule lineage owner observed now ttl).run choices o =
          (some (.ok token), o') →
        let lease := Leases.proposed capsule lineage owner (observed.map (·.pointer.generation)) now ttl
        (Survives lease → Leases.ReadsBack S o' lease token) ∧
        (AllAnswered choices → Leases.ReadsBack S o' lease token → Survives lease)) ∧
    ∀ metadata source choices o record o',
      (storeMachine S).run (Generations.putAndVerify metadata source).run choices o =
          (some (.ok record), o') →
        NoCollision o' metadata →
        (Generations.ReadsBack S identifies o' metadata record ↔ Survives (markVerified metadata)) := by
  refine ⟨fun next choices o record o' h => ?_, fun expected next choices o record o' h => ?_,
    fun rounds capsule lineage owner observed now ttl choices o token o' h => ?_,
    fun metadata source choices o record o' h hApart => ?_⟩
  · obtain ⟨hValid, hLanded⟩ := Pointers.run_create h
    exact hLanded.readsBack hValid
  · obtain ⟨hValid, hLanded⟩ := Pointers.run_compareAndSwap h
    exact hLanded.readsBack hValid
  · obtain ⟨hValid, hLanded⟩ := Leases.run_acquireLease (Leases.run_acquire h)
    exact hLanded.readsBack hValid
  · exact Generations.readsBack_iff hHonest hPlain (Generations.run_putAndVerify h) hApart

section Sample

/-- A store that names versions by tallies and always reports digests. -/
def reportingStore : ObjectStore := { honestStore with plain := true }

theorem honest_reportingStore : Honest reportingStore := ⟨fun _ => rfl, fun _ _ => rfl⟩

def lonePointer (capsule : Bytes) : LatestPointer where
  schemaVersion := 1
  capsule := capsule
  lineage := ⟨lit "main"⟩
  generation := ⟨1, List.replicate 64 48⟩
  parent := none
  objectKey := capsule ++ lit "/generations/1-" ++ List.replicate 64 48 ++ lit ".tar.zst"
  size := 7
  createdAt := ⟨1000000000, 0⟩
  tools := ⟨lit "d", lit "h"⟩
  sessionID := lit "s"

def sampleCreated (capsule : Bytes) : Bucket :=
  ((storeMachine reportingStore).calmly (Pointers.create (lonePointer capsule)) fun _ => Shelf.empty).2

theorem written_reads_back_sample :
    (storeMachine reportingStore).calmly (Pointers.create (lonePointer (lit "c"))) (fun _ => Shelf.empty) =
        (some (.ok ⟨lonePointer (lit "c"), [49]⟩), sampleCreated (lit "c")) ∧
      Pointers.ReadsBack reportingStore (sampleCreated (lit "c")) (lonePointer (lit "c"))
        ⟨lonePointer (lit "c"), [49]⟩ := by
  have hReturned : ((storeMachine reportingStore).calmly (Pointers.create (lonePointer (lit "c")))
      fun _ => Shelf.empty).1 = some (.ok ⟨lonePointer (lit "c"), [49]⟩) := by decide
  have hCreated : (storeMachine reportingStore).calmly (Pointers.create (lonePointer (lit "c")))
      (fun _ => Shelf.empty) = (some (.ok ⟨lonePointer (lit "c"), [49]⟩), sampleCreated (lit "c")) :=
    Prod.ext hReturned rfl
  have hSurvives : Survives (lonePointer (lit "c")) := by
    refine ⟨by decide, fun body hBody => ?_⟩
    have hLength : ((marshal (lonePointer (lit "c"))).getD []).length ≤ 1000 := by decide +kernel
    rw [hBody] at hLength
    exact hLength.trans (by decide)
  exact ⟨hCreated, ((written_reads_back honest_reportingStore rfl true).1 _ [] _ _ _ hCreated).1 hSurvives⟩

/-- A capsule whose name is no text: the pointer is created, and cannot be read. -/
theorem created_pointer_is_unreadable :
    (((storeMachine reportingStore).calmly (Pointers.create (lonePointer [0xFF]))
        fun _ => Shelf.empty).1 = some (.ok ⟨lonePointer [0xFF], [49]⟩)) ∧
      ((storeMachine reportingStore).calmly (Pointers.read [0xFF] ⟨lit "main"⟩)
        (sampleCreated [0xFF])).1 =
          some (.error (invalid "pointer identity or schema mismatch: %w" [])) := by
  decide +kernel

end Sample

end Camp.Coordination
