import Camp.Domain.Validation

/-!
# Entries of the journal

An intent announces a transition and a fact answers it. A fact carries the
snapshot that holds from then on: the caller's candidate, except where a
concurrent recorder owns the data.
-/

namespace Camp.Journal

open Wire Wire.Utf8

structure IntentRecord where
  id : Bytes
  sessionID : Bytes
  transition : Open Transition
  attempt : Int64
  timestamp : Time
  input : Raw
  deriving DecidableEq

instance : Record IntentRecord where
  fields := (Fields.none IntentRecord.mk)
    |>.field "id" (·.id)
    |>.field "sessionId" (·.sessionID)
    |>.field "transition" (·.transition)
    |>.field "attempt" (·.attempt)
    |>.field "timestamp" (·.timestamp)
    |>.fieldOmit "input" (·.input)
  apart := by decide +kernel
  view_view _ := by simp

structure PointerCommit where
  pointer : LatestPointer
  revision : Bytes
  deriving DecidableEq

instance : Record PointerCommit where
  fields := (Fields.none PointerCommit.mk)
    |>.field "pointer" (·.pointer)
    |>.field "revision" (·.revision)
  apart := by decide +kernel
  view_view _ := by simp

structure FactRecord where
  intentID : Bytes
  sessionID : Bytes
  transition : Open Transition
  timestamp : Time
  output : Raw
  pointer : Option PointerCommit
  deriving DecidableEq

instance : Record FactRecord where
  fields := (Fields.none FactRecord.mk)
    |>.field "intentId" (·.intentID)
    |>.field "sessionId" (·.sessionID)
    |>.field "transition" (·.transition)
    |>.field "timestamp" (·.timestamp)
    |>.fieldOmit "output" (·.output)
    |>.fieldOmit "pointer" (·.pointer)
  apart := by decide +kernel
  view_view _ := by simp

inductive EntryKind where
  | intent
  | fact
  deriving DecidableEq

instance : Named EntryKind where
  name
    | .intent => "intent"
    | .fact => "fact"
  all := [.intent, .fact]
  mem_all e := by cases e <;> decide
  nodup := by decide

structure Envelope where
  kind : Open EntryKind
  intent : Option IntentRecord
  fact : Option FactRecord
  snapshot : Option JournalSnapshot
  deriving DecidableEq

instance : Record Envelope where
  fields := (Fields.none Envelope.mk)
    |>.field "kind" (·.kind)
    |>.fieldOmit "intent" (·.intent)
    |>.fieldOmit "fact" (·.fact)
    |>.fieldOmit "snapshot" (·.snapshot)
  apart := by decide +kernel
  view_view _ := by simp

def validateSessionID (sessionID : Bytes) : Except Error Unit :=
  if isSegment sessionID then .ok ()
  else .error (.message "invalid journal session id %q" [sessionID])

def validateIntent (intent : IntentRecord) : Except Error Unit := do
  validateSessionID intent.sessionID
  if intent.id.isEmpty || containsSeparator intent.id || intent.transition.toBytes.isEmpty ||
      intent.attempt < 1 || intent.timestamp.isZero then
    throw (.message "invalid journal intent" [])
  if !intent.input.isEmpty && !intent.input.valid then
    throw (.message "invalid journal intent input" [])

def validateFact (fact : FactRecord) (snapshotID : Bytes) : Except Error Unit := do
  validateSessionID fact.sessionID
  if fact.sessionID ≠ snapshotID || fact.intentID.isEmpty || fact.transition.toBytes.isEmpty ||
      fact.timestamp.isZero then
    throw (.message "invalid journal fact" [])
  if !fact.output.isEmpty && !fact.output.valid then
    throw (.message "invalid journal fact output" [])

/-- The snapshot of a fact, out of the journal's own and the recorder's candidate. -/
def composeFactSnapshot (current candidate : JournalSnapshot) (transition : Open Transition) :
    JournalSnapshot :=
  let candidate := { candidate with executionBinding := current.executionBinding }
  match transition with
  | .known .leaseRenewed => { current with lease := candidate.lease }
  | .known .servingContentRefreshed => { current with services := candidate.services }
  | .known .serviceStart | .known .serviceRestart =>
    if current.services ≠ candidate.services then { current with services := candidate.services }
    else { candidate with lease := current.lease }
  | .known .registrySnapshotSealed =>
    { candidate with lease := current.lease, services := current.services }
  | .known .workspaceMirrored | .known .workspaceImagesInventoried | .known .rootSnapshotStable
  | .known .generationUploaded | .known .pointerCommitted => { candidate with lease := current.lease }
  | _ => candidate

def completePointerCommit (snapshot : JournalSnapshot) : Option PointerCommit → Bool
  | none => false
  | some commit =>
    let pointer := commit.pointer
    !commit.revision.isEmpty && pointer.schemaVersion == schemaVersion &&
      !pointer.capsule.isEmpty && pointer.capsule == snapshot.capsule &&
      pointer.lineage == snapshot.lineage && !pointer.lineage.branch.isEmpty &&
      pointer.generation.generation != 0 && pointer.generation.archiveSHA256.length == 64 &&
      !pointer.objectKey.isEmpty && 0 ≤ pointer.size && !pointer.createdAt.isZero &&
      !pointer.sessionID.isEmpty

def reduceFact (snapshot : JournalSnapshot) (fact : FactRecord) : Except Error JournalSnapshot :=
  if fact.transition = .known .pointerCommitted then
    match fact.pointer with
    | some commit =>
      if completePointerCommit snapshot (some commit) then
        .ok { snapshot with
          currentBase := some commit.pointer.generation
          currentPointer := some commit.pointer
          expectedPointerRevision := commit.revision
          updatedAt := fact.timestamp }
      else .error (.message "PointerCommitted fact lacks complete pointer" [])
    | none => .error (.message "PointerCommitted fact lacks complete pointer" [])
  else .ok { snapshot with updatedAt := fact.timestamp }

theorem reduceFact_eq_ok {snapshot reduced : JournalSnapshot} {fact : FactRecord}
    (h : reduceFact snapshot fact = .ok reduced) : ∃ base pointer revision,
      reduced = { snapshot with
        currentBase := base
        currentPointer := pointer
        expectedPointerRevision := revision
        updatedAt := fact.timestamp } := by
  unfold reduceFact at h
  split_ifs at h
  · split at h
    · split_ifs at h
      cases h
      exact ⟨_, _, _, rfl⟩
    · cases h
  · cases h
    exact ⟨_, _, _, rfl⟩

end Camp.Journal
