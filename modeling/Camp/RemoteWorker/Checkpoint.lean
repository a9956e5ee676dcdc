import Camp.Program.Traced
import Camp.Domain.Session
import Camp.HaulKit.Manifest
import Camp.Registry.Sealing
import Camp.RemoteWorker.Protocol

/-!
# The remote checkpoint

The checkpoint takes the registry's write barrier, cuts the registry under it, releases it
and builds and publishes a kit. The steps are those of a runtime that may answer each of them
in any way. A monitor follows the barrier through the trace of a run.
-/

namespace Camp.RemoteWorker.Checkpoint

open Wire Wire.Utf8 Program Program.Traced Program.Checks List
open Program.Calls (Act sys)
open HaulKit (StoreIdentity ChunkIdentity)
open Registry (RegistryReference)

section Receipts

structure ServiceCheckpointEvidence where
  token : Bytes
  services : List ServiceUnitRecord
  deriving DecidableEq

structure Snapshot where
  root : Bytes
  references : List RegistryReference
  deriving DecidableEq

structure ArchiveInfo where
  path : Bytes
  sha256 : Bytes
  size : Int64
  deriving DecidableEq

structure Artifact where
  manifestPath : Bytes
  manifestSHA256 : Bytes
  archivePath : Bytes
  sha256 : Bytes
  size : Int64
  chunks : List ChunkIdentity
  deriving DecidableEq

structure CheckpointReceipt where
  schemaVersion : UInt32
  status : Bytes
  sessionID : Bytes
  attemptID : Bytes
  services : ServiceCheckpointEvidence
  registry : Snapshot
  images : ImageInventory
  root : ArchiveInfo
  store : StoreIdentity
  kit : Artifact
  allowList : List Bytes
  deriving DecidableEq

def noReceipt : CheckpointReceipt where
  schemaVersion := 0
  status := []
  sessionID := []
  attemptID := []
  services := ⟨[], []⟩
  registry := ⟨[], []⟩
  images := ⟨0, Time.zero, none⟩
  root := ⟨[], [], 0⟩
  store := ⟨[], [], none⟩
  kit := ⟨[], [], [], [], 0, []⟩
  allowList := []

abbrev Failure := String

inductive Error where
  | message (text : String)
  | wrap (format : String) (cause : Failure)
  | join (e : Error) (cause : Failure)
  deriving DecidableEq

def protocolSchemaVersion : UInt32 := 1

def checkpointAllowList (attemptID : Bytes) (chunks : List ChunkIdentity) : List Bytes :=
  sortOn bytewise ((attemptID ++ lit "/camp-hauler-kit.json") :: chunks.map fun chunk => attemptID ++ 47 :: chunk.name)

def unsafeExposure (attemptID item : Bytes) : Bool :=
  item.head? == some 47 || item.contains 92 || lit ".." <:+: item || [47] <:+ item || Paths.clean item != item ||
    !((attemptID ++ [47]) <+: item) || lit ".tar.zst" <:+ item

def validateCheckpointAllowList (attemptID : Bytes) (chunks : List ChunkIdentity) (allow : List Bytes) :
    Except Error Unit := do
  refuse (!safeSegment attemptID) (.message "remote checkpoint allow-list attempt is unsafe")
  refuse (allow != checkpointAllowList attemptID chunks)
    (.message "remote checkpoint fileserver allow-list differs from immutable manifest and chunks")
  refuse (allow.any (unsafeExposure attemptID))
    (.message "remote checkpoint fileserver allow-list contains an unsafe exposure")

def incompleteReceipt (request : Request) (receipt : CheckpointReceipt) : Bool :=
  receipt.schemaVersion != protocolSchemaVersion || receipt.status != lit "prepared" ||
    receipt.sessionID != request.sessionID || request.checkpoint.all (·.attemptID != receipt.attemptID) ||
    receipt.services.token == [] || receipt.registry.root == [] || receipt.root.path == [] || receipt.root.size ≤ 0 ||
    !validDigest receipt.root.sha256 || !validDigest receipt.store.indexSHA256 || receipt.store.haulerVersion == [] ||
    receipt.kit.manifestPath == [] || !validDigest receipt.kit.manifestSHA256 || !validDigest receipt.kit.sha256 ||
    receipt.kit.size ≤ 0 || receipt.kit.chunks == []

def validateCheckpointReceipt (request : Request) (receipt : CheckpointReceipt) : Except Error Unit := do
  refuse (incompleteReceipt request receipt) (.message "remote checkpoint receipt identity is incomplete")
  validateCheckpointAllowList receipt.attemptID receipt.kit.chunks receipt.allowList

end Receipts

section Model

inductive Call where
  | verify
  | observe
  | quiesce
  | releaseBarrier (services : ServiceCheckpointEvidence)
  | cutRegistry (services : ServiceCheckpointEvidence)
  | inventory (cut : Snapshot)
  | archiveRoot (cut : Snapshot)
  | buildStore (root : ArchiveInfo) (images : ImageInventory)
  | buildKit (root : ArchiveInfo) (store : StoreIdentity)
  | publish (receipt : CheckpointReceipt)
  | resume (services : ServiceCheckpointEvidence)

abbrev Answer : Call → Type
  | .verify | .releaseBarrier _ | .resume _ => Unit
  | .observe => CheckpointReceipt × Bool
  | .quiesce => ServiceCheckpointEvidence
  | .cutRegistry _ => Snapshot
  | .inventory _ => ImageInventory
  | .archiveRoot _ => ArchiveInfo
  | .buildStore _ _ => StoreIdentity
  | .buildKit _ _ => Artifact
  | .publish _ => CheckpointReceipt

abbrev Step (α : Type) := Act Failure Error Answer α

def call (format : String) (c : Call) : Step (Answer c) := sys (.wrap format) c

def resuming (request : CheckpointRequest) (services : ServiceCheckpointEvidence) (receipt : CheckpointReceipt) :
    Step CheckpointReceipt := do
  if request.close then return receipt
  else
    call "resume exact remote services: %w" (.resume services)
    return receipt

def underBarrier (services : ServiceCheckpointEvidence) : Step (Snapshot × ImageInventory) := do
  let cut ← call "create immutable remote registry cut: %w" (.cutRegistry services)
  let images ← call "inventory remote tagged images: %w" (.inventory cut)
  call "release remote registry write barrier: %w" (.releaseBarrier services)
  return (cut, images)

def deferredRelease (services : ServiceCheckpointEvidence) (e : Error) :
    Step Unit := sys e.join (Call.releaseBarrier services)

/-- What fails before the barrier is released is followed by the deferred release. -/
def releasing {α : Type} (services : ServiceCheckpointEvidence) (p : Step α) : Step α := do
  match ← catching p with
  | .ok a => return a
  | .error e =>
    deferredRelease services e
    throw e

/-- The receipt after `Publish`: the runtime may return none of its own. -/
def acceptPublished (request : Request) (receipt published : CheckpointReceipt) : Except Error Unit := do
  if published = noReceipt then return ()
  else
    validateCheckpointReceipt request published
    refuse (published != receipt) (.message "published remote checkpoint receipt differs from prepared attempt")

def publishing (request : Request) (checkpoint : CheckpointRequest) (services : ServiceCheckpointEvidence)
    (cut : Snapshot) (images : ImageInventory) : Step CheckpointReceipt := do
  let root ← call "archive remote workspace root: %w" (.archiveRoot cut)
  let store ← call "build and validate remote Hauler store: %w" (.buildStore root images)
  let kit ← call "build and verify return Camp Hauler Kit v1: %w" (.buildKit root store)
  let receipt : CheckpointReceipt :=
    { schemaVersion := protocolSchemaVersion
      status := lit "prepared"
      sessionID := request.sessionID
      attemptID := checkpoint.attemptID
      services, registry := cut, images, root, store, kit
      allowList := checkpointAllowList checkpoint.attemptID kit.chunks }
  liftM (validateCheckpointReceipt request receipt)
  let published ← call "durably publish remote checkpoint receipt: %w" (.publish receipt)
  liftM (acceptPublished request receipt published)
  resuming checkpoint services receipt

def prepare (request : Request) (checkpoint : CheckpointRequest) : Step CheckpointReceipt := do
  let services ← call "establish remote registry write barrier: %w" .quiesce
  if services.token = [] ∨ services.services.length ≠ 2 then
    throw (.message "remote checkpoint service evidence is incomplete")
  else
    let (cut, images) ← releasing services (underBarrier services)
    publishing request checkpoint services cut images

def checkpoint (request : Request) : Step CheckpointReceipt :=
  match request.checkpoint with
  | none => throw (.message "remote checkpoint dependencies or request are incomplete")
  | some checkpoint => do
    call "verify remote checkpoint authority: %w" .verify
    let (observed, ok) ← call "observe remote checkpoint attempt: %w" .observe
    if ok then
      liftM (validateCheckpointReceipt request observed)
      resuming checkpoint observed.services observed
    else prepare request checkpoint

end Model

section Discipline

/-- What is known of the barrier: not taken yet, held with or without an attempt to release it,
or released. -/
inductive Barrier where
  | free
  | held (services : ServiceCheckpointEvidence) (tried : Bool)
  | released
  deriving DecidableEq

abbrev Event := Traced.Event Failure Answer

/-- The barrier is taken once and released once; the cut and the inventory are made while it is
held, the rest after it was released. Services are not resumed while it is held. -/
def Barrier.advance (b : Barrier) : Event → Option Barrier
  | ⟨.verify, _⟩ | ⟨.observe, _⟩ | ⟨.quiesce, .error _⟩ => some b
  | ⟨.quiesce, .ok services⟩ => if b = .free then some (.held services false) else none
  | ⟨.releaseBarrier services, .ok ()⟩ =>
    match b with
    | .held s _ => if s = services then some .released else none
    | _ => none
  | ⟨.releaseBarrier services, .error _⟩ =>
    match b with
    | .held s _ => if s = services then some (.held s true) else none
    | _ => none
  | ⟨.cutRegistry _, _⟩ | ⟨.inventory _, _⟩ =>
    match b with
    | .held .. => some b
    | _ => none
  | ⟨.archiveRoot _, _⟩ | ⟨.buildStore _ _, _⟩ | ⟨.buildKit _ _, _⟩ | ⟨.publish _, _⟩ =>
    if b = .released then some b else none
  | ⟨.resume _, _⟩ =>
    match b with
    | .held .. => none
    | _ => some b

/-- No event is out of order, and a barrier that was taken is released, or its release was tried. -/
def Disciplined (trace : List Event) : Prop :=
  ∃ b, monitor Barrier.advance .free trace = some b ∧ ∀ services, b ≠ .held services false

/-- A receipt that is returned was observed or published and is valid, and the services were
resumed unless the session is closed. -/
def Justified (request : Request) (trace : List Event) : Except Error CheckpointReceipt → Prop
  | .error _ => True
  | .ok receipt =>
    (⟨.observe, .ok (receipt, true)⟩ ∈ trace ∨ ∃ published, ⟨.publish receipt, .ok published⟩ ∈ trace) ∧
      validateCheckpointReceipt request receipt = .ok () ∧
      ∀ checkpoint, request.checkpoint = some checkpoint → checkpoint.close = false →
        ∃ services, ⟨.resume services, .ok ()⟩ ∈ trace

def ServiceCheckpointEvidence.Complete (services : ServiceCheckpointEvidence) : Prop :=
  services.token ≠ [] ∧ services.services.length = 2

/-- Whenever the services were stopped, the evidence for it is complete. -/
def CompleteEvidence (trace : List Event) : Prop :=
  ∀ services, ⟨.quiesce, .ok services⟩ ∈ trace → services.Complete

/-- The barrier is in this state, and all evidence is complete so far. -/
structure At (b : Barrier) (trace : List Event) : Prop where
  state : monitor Barrier.advance .free trace = some b
  complete : CompleteEvidence trace

def Fine (request : Request) (r : Except Error CheckpointReceipt) (trace : List Event) : Prop :=
  (Disciplined trace ∧ Justified request trace r) ∧ CompleteEvidence trace

/-- Either all is well, or the evidence is incomplete and the barrier stays. -/
def Ended (request : Request) (r : Except Error CheckpointReceipt) (trace : List Event) : Prop :=
  Fine request r trace ∨ ¬ Disciplined trace ∧ ¬ CompleteEvidence trace

variable {request : Request} {trace : List Event} {b b' : Barrier} {c : Call} {services : ServiceCheckpointEvidence}

theorem At.snoc (h : At b trace) (hc : c ≠ .quiesce) {r : Except Failure (Answer c)}
    (hNext : b.advance ⟨c, r⟩ = some b') : At b' (trace ++ [⟨c, r⟩]) where
  state := (monitor_snoc h.state _).trans hNext
  complete services hMem := by
    rcases mem_append.mp hMem with hOld | hNew
    · exact h.complete services hOld
    · cases mem_singleton.mp hNew
      exact absurd rfl hc

theorem At.release {tried : Bool} (h : At (.held services tried) trace) (r : Except Failure Unit) :
    At (if r.toBool then .released else .held services true) (trace ++ [⟨.releaseBarrier services, r⟩]) := by
  refine At.snoc (c := .releaseBarrier services) h nofun ?_
  cases r with
  | ok u => exact if_pos rfl
  | error e => exact if_pos rfl

/-- The barrier is not held without an attempt to release it. -/
def Barrier.Settled (b : Barrier) : Prop := ∀ services, b ≠ .held services false

theorem At.failed (h : At b trace) (hSettled : b.Settled) (e : Error) : Ended request (.error e) trace :=
  .inl ⟨⟨⟨b, h.state, hSettled⟩, trivial⟩, h.complete⟩

theorem settled_free : Barrier.free.Settled := nofun

theorem settled_released : Barrier.released.Settled := nofun

theorem always_step {format : String} (c : Call) (h : At b trace) (hc : c ≠ .quiesce)
    (hNext : ∀ r, b.advance ⟨c, r⟩ = some b) :
    Always (call format c) (fun r t => At b t ∧ (∀ a, r = .ok a → ⟨c, .ok a⟩ ∈ t) ∧ trace ⊆ t) trace := by
  refine always_sys fun r => ⟨h.snoc hc (hNext r), fun a ha => ?_, subset_append_left _ _⟩
  cases r with
  | error e => cases ha
  | ok a' =>
    cases ha
    simp

theorem always_resuming {checkpoint : CheckpointRequest} {receipt : CheckpointReceipt} (h : At b trace)
    (hSettled : b.Settled) (hNext : ∀ r, b.advance ⟨.resume services, r⟩ = some b)
    (hRequest : request.checkpoint = some checkpoint) (hValid : validateCheckpointReceipt request receipt = .ok ())
    (hSource : ⟨.observe, .ok (receipt, true)⟩ ∈ trace ∨ ∃ published, ⟨.publish receipt, .ok published⟩ ∈ trace) :
    Always (resuming checkpoint services receipt) (Ended request) trace := by
  unfold resuming
  by_cases hClose : checkpoint.close = true
  · rw [if_pos hClose]
    refine always_pure (.inl ⟨⟨⟨b, h.state, hSettled⟩, hSource, hValid, fun checkpoint' hSame hOpen => ?_⟩, h.complete⟩)
    cases hRequest.symm.trans hSame
    rw [hClose] at hOpen
    cases hOpen
  · rw [if_neg hClose]
    refine (always_step (.resume services) h nofun hNext).bind (fun e t hr => hr.1.failed hSettled e) ?_
    rintro ⟨⟩ t ⟨h, hMem, hMore⟩
    refine always_pure (.inl ⟨⟨⟨b, h.state, hSettled⟩, ?_, hValid, fun _ _ _ => ⟨services, hMem () rfl⟩⟩, h.complete⟩)
    exact hSource.imp (fun hIn => hMore hIn) fun ⟨published, hIn⟩ => ⟨published, hMore hIn⟩

theorem always_lift {α : Type} {r : Except Error α} {f : α → Step CheckpointReceipt} (h : At b trace)
    (hSettled : b.Settled) (hOk : ∀ a, r = .ok a → Always (f a) (Ended request) trace) :
    Always ((liftM r : Step α) >>= f) (Ended request) trace := by
  cases r with
  | error e => exact always_throw (h.failed hSettled e)
  | ok a => exact hOk a rfl

theorem always_publishing {checkpoint : CheckpointRequest} {cut : Snapshot} {images : ImageInventory}
    (h : At .released trace) (hRequest : request.checkpoint = some checkpoint) :
    Always (publishing request checkpoint services cut images) (Ended request) trace := by
  refine (always_step (.archiveRoot _) h nofun fun _ => rfl).bind (fun e t hr => hr.1.failed settled_released e) ?_
  rintro root t ⟨h, -⟩
  refine (always_step (.buildStore _ _) h nofun fun _ => rfl).bind (fun e t hr => hr.1.failed settled_released e) ?_
  rintro store t ⟨h, -⟩
  refine (always_step (.buildKit _ _) h nofun fun _ => rfl).bind (fun e t hr => hr.1.failed settled_released e) ?_
  rintro kit t ⟨h, -⟩
  refine always_lift h settled_released fun _ hValid => ?_
  refine (always_step (.publish _) h nofun fun _ => rfl).bind (fun e t hr => hr.1.failed settled_released e) ?_
  rintro published t ⟨h, hMem, -⟩
  refine always_lift h settled_released fun _ _ => ?_
  exact always_resuming h settled_released (fun _ => rfl) hRequest hValid (.inr ⟨published, hMem published rfl⟩)

theorem always_releasing (h : At (.held services false) trace) :
    Always (releasing services (underBarrier services)) (fun r t =>
      match r with
      | .ok _ => At .released t
      | .error _ => ∃ b, b.Settled ∧ At b t) trace := by
  have hUnder : Always (underBarrier services) (fun r t =>
      match r with
      | .ok _ => At .released t
      | .error _ => ∃ tried, At (.held services tried) t) trace := by
    refine (always_step (.cutRegistry _) h nofun fun _ => rfl).bind (fun e t hr => ⟨false, hr.1⟩) ?_
    rintro cut t ⟨h, -⟩
    refine (always_step (.inventory _) h nofun fun _ => rfl).bind (fun e t hr => ⟨false, hr.1⟩) ?_
    rintro images t ⟨h, -⟩
    have hRelease : Always (call "release remote registry write barrier: %w" (.releaseBarrier services)) (fun r t =>
        match r with
        | .ok _ => At .released t
        | .error _ => At (.held services true) t) t := by
      refine always_sys fun r => ?_
      cases r with
      | ok u => exact h.release (.ok u)
      | error e => exact h.release (.error e)
    refine hRelease.bind (fun e t hr => ⟨true, hr⟩) ?_
    rintro ⟨⟩ t h
    exact always_pure h
  refine hUnder.catching ?_
  rintro (e | a) t hr
  · obtain ⟨tried, h⟩ := hr
    have hDeferred : Always (deferredRelease services e) (fun _ t => ∃ b, b.Settled ∧ At b t) t := by
      refine always_sys fun r => ?_
      cases r with
      | ok u => exact ⟨.released, settled_released, h.release (.ok u)⟩
      | error e => exact ⟨.held services true, nofun, h.release (.error e)⟩
    exact hDeferred.bind (fun _ _ hr => hr) fun _ _ hr => always_throw hr
  · exact always_pure hr

theorem always_prepare {checkpoint : CheckpointRequest} (h : At .free trace)
    (hRequest : request.checkpoint = some checkpoint) :
    Always (prepare request checkpoint) (Ended request) trace := by
  have hQuiesce : Always (call "establish remote registry write barrier: %w" .quiesce) (fun r t =>
      match r with
      | .ok services => t = trace ++ [⟨.quiesce, .ok services⟩]
      | .error _ => At .free t) trace := by
    refine always_sys fun r => ?_
    cases r with
    | ok services => rfl
    | error e =>
      refine ⟨monitor_snoc h.state _, fun services hMem => ?_⟩
      rcases mem_append.mp hMem with hOld | hNew
      · exact h.complete services hOld
      · cases mem_singleton.mp hNew
  refine hQuiesce.bind (fun e t hr => At.failed hr settled_free e) ?_
  rintro services _ rfl
  have hState : monitor Barrier.advance .free (trace ++ [⟨.quiesce, .ok services⟩]) = some (.held services false) :=
    monitor_snoc h.state _
  by_cases hIncomplete : services.token = [] ∨ services.services.length ≠ 2
  · -- the early return that leaves the barrier as it is
    rw [if_pos hIncomplete]
    refine always_throw (.inr ⟨?_, fun hComplete => ?_⟩)
    · rintro ⟨b, hb, hSettled⟩
      exact hSettled services (Option.some.inj (hb.symm.trans hState))
    · obtain ⟨hToken, hTwo⟩ := hComplete services (by simp)
      exact hIncomplete.elim hToken fun hNot => hNot hTwo
  · rw [if_neg hIncomplete]
    have hAt : At (.held services false) (trace ++ [⟨.quiesce, .ok services⟩]) := by
      refine ⟨hState, fun services' hMem => ?_⟩
      rcases mem_append.mp hMem with hOld | hNew
      · exact h.complete services' hOld
      · cases mem_singleton.mp hNew
        exact ⟨fun hToken => hIncomplete (.inl hToken), not_not.mp fun hTwo => hIncomplete (.inr hTwo)⟩
    refine (always_releasing hAt).bind (fun e t hr => ?_) ?_
    · obtain ⟨b, hSettled, hb⟩ := hr
      exact hb.failed hSettled e
    · rintro ⟨cut, images⟩ t hr
      exact always_publishing hr hRequest

theorem always_checkpoint (request : Request) : Always (checkpoint request) (Ended request) [] := by
  have hStart : At .free [] := ⟨rfl, nofun⟩
  unfold checkpoint
  rcases hRequest : request.checkpoint with _ | checkpoint
  · exact always_throw (hStart.failed settled_free _)
  refine (always_step .verify hStart nofun fun _ => rfl).bind (fun e t hr => hr.1.failed settled_free e) ?_
  rintro ⟨⟩ t ⟨h, -⟩
  refine (always_step .observe h nofun fun _ => rfl).bind (fun e t hr => hr.1.failed settled_free e) ?_
  rintro ⟨observed, ok⟩ t ⟨h, hMem, -⟩
  cases ok with
  | false => exact always_prepare h hRequest
  | true =>
    refine always_lift h settled_free fun _ hValid => ?_
    exact always_resuming h settled_free (fun _ => rfl) hRequest hValid (.inl (hMem _ rfl))

def run (request : Request) (answers : List ((c : Call) → Except Failure (Answer c))) :
    Option (Except Error CheckpointReceipt) × List Event :=
  (machine Failure Answer).run (checkpoint request).run answers []

theorem checkpoint_disciplined_iff (request : Request) (answers : List ((c : Call) → Except Failure (Answer c)))
    {r : Except Error CheckpointReceipt} {trace : List Event} (hRun : run request answers = (some r, trace)) :
    (Disciplined trace ∧ Justified request trace r) ↔ CompleteEvidence trace := by
  rcases (always_checkpoint request).run hRun with ⟨hGood, hComplete⟩ | ⟨hBad, hIncomplete⟩
  · exact iff_of_true hGood hComplete
  · exact iff_of_false (fun h => hBad h.1) hIncomplete

/-- A runtime that observes no receipt, stops the services with this evidence and fails in
everything else but the release. -/
def stopping (services : ServiceCheckpointEvidence) : (c : Call) → Except Failure (Answer c)
  | .verify => .ok ()
  | .observe => .ok (noReceipt, false)
  | .quiesce => .ok services
  | .releaseBarrier _ => .ok ()
  | _ => .error "failed"

def sampleRequest : Request where
  schemaVersion := 1
  operation := lit "checkpoint"
  sessionID := lit "s"
  workspaceRoot := lit "/w"
  runtimeRoot := lit "/r"
  manifestPath := lit "/m"
  expected := ⟨lit "linux/amd64", ⟨[], [], 0⟩, ⟨[], [], 0⟩, ⟨[], [], 0⟩, [], []⟩
  checkpoint := some ⟨lit "a", lit "c", lit "main", 1, false⟩

def sampleService : ServiceUnitRecord where
  name := []
  launchToken := []
  confinement := ⟨[], [], [], []⟩
  mapping := ⟨[], 0, 0⟩
  pidPath := []
  logPath := []
  helper := ⟨⟨0, [], 0⟩, [], [], none, [], 0, 0, 0, []⟩
  child := ⟨⟨0, [], 0⟩, [], [], none, [], 0, 0, 0, []⟩
  desiredState := Open.ofBytes []
  observedState := Open.ofBytes []

def sampleEvidence : ServiceCheckpointEvidence := ⟨lit "t", [sampleService, sampleService]⟩

def failedCut : List Event :=
  [⟨.verify, .ok ()⟩, ⟨.observe, .ok (noReceipt, false)⟩, ⟨.quiesce, .ok sampleEvidence⟩,
    ⟨.cutRegistry sampleEvidence, .error "failed"⟩, ⟨.releaseBarrier sampleEvidence, .ok ()⟩]

/-- The cut fails, and the deferred release gives the barrier back. -/
theorem failed_cut_releases :
    run sampleRequest (replicate 5 (stopping sampleEvidence)) =
        (some (.error (.wrap "create immutable remote registry cut: %w" "failed")), failedCut) ∧
      Disciplined failedCut := by
  have hRun : run sampleRequest (replicate 5 (stopping sampleEvidence)) =
      (some (.error (.wrap "create immutable remote registry cut: %w" "failed")), failedCut) := rfl
  refine ⟨hRun, ((checkpoint_disciplined_iff _ _ hRun).mpr fun services hMem => ?_).1⟩
  have hSame : services = sampleEvidence := by simpa [failedCut] using hMem
  rw [hSame]
  exact ⟨by decide, rfl⟩

/-- Incomplete evidence: the checkpoint returns and the barrier is not released. -/
theorem incomplete_evidence_keeps_barrier :
    (run sampleRequest (replicate 3 (stopping ⟨[], []⟩))).2 =
        [⟨.verify, .ok ()⟩, ⟨.observe, .ok (noReceipt, false)⟩, ⟨.quiesce, .ok ⟨[], []⟩⟩] ∧
      ¬ Disciplined (run sampleRequest (replicate 3 (stopping ⟨[], []⟩))).2 := by
  refine ⟨rfl, ?_⟩
  rintro ⟨b, hb, hSettled⟩
  exact hSettled ⟨[], []⟩ (Option.some.inj (hb.symm.trans rfl))

end Discipline

end Camp.RemoteWorker.Checkpoint
