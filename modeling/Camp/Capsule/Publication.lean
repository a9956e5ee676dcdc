import Camp.Program.Neighbours
import Camp.Wire.Utf8

/-!
# Publication of a bootstrap

The bootstrap is built in a stage directory under the parent and renamed to its target. What
fails after that is rolled back: by renaming the target back to the stage, or by exchanging it
with a new empty directory. Meanwhile another process may rename the target or the parent.
-/

namespace Camp.Capsule.Publication

open Wire Wire.Utf8 Program Program.Neighbours
open Program.Calls (Act sys)

abbrev Name := Bytes

/-- A directory of another process, by its inode, and whether there is nothing in it. -/
structure Other where
  inode : Nat
  empty : Bool
  deriving DecidableEq

/-- A directory under the parent: one of the program's own, or someone else's. -/
inductive Dir where
  | own (k : Nat)
  | foreign (d : Other)
  deriving DecidableEq

inductive Part where
  | privateDirectory
  | devcontainer
  | initializeRequest
  | hydrateRequest
  | servicesRequest
  | helper
  | manifest
  | chunkDirectory
  | chunk (name : Bytes)
  deriving DecidableEq

inductive Probe where
  | prepare
  | random
  | openPrivate
  | marshal
  | verifyHelper
  | verifyManifest
  | openChunks
  | openSource
  | closeSource
  | verifyChunk
  | syncChunks
  | syncPrivate
  | syncStage
  | stat
  deriving DecidableEq

inductive Call where
  | attempt (probe : Probe)
  | mkdir (name : Name)
  | openDirectory (name : Name)
  | put (d : Dir) (part : Part)
  | checkParent
  | rename (source target : Name)
  | exchange (a b : Name)
  | unlink (name : Name)
  | removeAll (name : Name)
  | syncParent
  deriving DecidableEq

abbrev Answer : Call → Type
  | .openDirectory _ => Dir
  | _ => Unit

inductive Trouble where
  | exist
  | notExist
  | notEmpty
  | changed
  | failed
  deriving DecidableEq

/-- The parent as it was opened. `here` says that its path still leads to it. `gone` are the
directories of others that the program removed, `failed` are the calls that failed for no reason in
the directory, and `found` are the other calls, each with what was at the target then. -/
structure World where
  names : Name → Option Dir
  here : Bool
  next : Nat
  content : Nat → List Part
  gone : List Other
  failed : List Call
  found : List (Call × Option Dir)

/-- A renaming by another process: of a directory of its own to the target, of the target to a
place elsewhere, or of the parent. -/
inductive Move where
  | bring (d : Other)
  | take
  | parent (here : Bool)
  deriving DecidableEq

namespace World

def isEmpty (w : World) : Dir → Bool
  | .own k => w.content k = []
  | .foreign d => d.empty

def placeAt (w : World) (name : Name) (d : Option Dir) : World := { w with names := Function.update w.names name d }

def discard (w : World) (name : Name) : Option Dir → World
  | none => w
  | some (.own _) => w.placeAt name none
  | some (.foreign d) => { w.placeAt name none with gone := d :: w.gone }

/-- A directory of another process is renamed to the target, over an empty one if need be. -/
def bring (w : World) (target : Name) (d : Other) : World :=
  if (w.names target).all w.isEmpty then w.placeAt target (some (.foreign d)) else w

def move (target : Name) (w : World) : Move → World
  | .bring d => w.bring target d
  | .take => w.placeAt target none
  | .parent here => { w with here := here }

def rename (w : World) (source target : Name) : Except Trouble Unit × World :=
  match w.names source, w.names target with
  | some d, none => (.ok (), (w.placeAt source none).placeAt target (some d))
  | none, _ => (.error .notExist, w)
  | some _, some _ => (.error .exist, w)

def exchange (w : World) (a b : Name) : Except Trouble Unit × World :=
  match w.names a, w.names b with
  | some d, some d' => (.ok (), (w.placeAt a (some d')).placeAt b (some d))
  | _, _ => (.error .notExist, w)

def unlink (w : World) (name : Name) : Except Trouble Unit × World :=
  match w.names name with
  | none => (.error .notExist, w)
  | some d => if w.isEmpty d then (.ok (), w.discard name (some d)) else (.error .notEmpty, w)

def mkdir (w : World) (name : Name) : Except Trouble Unit × World :=
  match w.names name with
  | some _ => (.error .exist, w)
  | none =>
    (.ok (), { w.placeAt name (some (.own w.next)) with
      next := w.next + 1
      content := Function.update w.content w.next [] })

def put (w : World) (part : Part) : Dir → World
  | .own k => { w with content := Function.update w.content k (w.content k ++ [part]) }
  | .foreign _ => w

def perform (w : World) : (call : Call) → Except Trouble (Answer call) × World
  | .attempt _ => (.ok (), w)
  | .mkdir name => w.mkdir name
  | .openDirectory name => ((w.names name).elim (.error .notExist) .ok, w)
  | .put d part => (.ok (), w.put part d)
  | .checkParent => (if w.here then .ok () else .error .changed, w)
  | .rename source target => w.rename source target
  | .exchange a b => w.exchange a b
  | .unlink name => w.unlink name
  | .removeAll name => (.ok (), w.discard name (w.names name))
  | .syncParent => (.ok (), w)

def record (w : World) (call : Call) (d : Option Dir) : World := { w with found := (call, d) :: w.found }

end World

def directory (target : Name) : Service World Trouble Answer Move where
  perform call w := ((w.perform call).1, (w.perform call).2.record call (w.names target))
  move m w := w.move target m
  note call w := { w with failed := call :: w.failed }
  failed := .failed

inductive Error where
  | trouble (t : Trouble)
  | exhausted
  | placeholderChanged
  | replaced
  /-- The rollback was incomplete. -/
  | incomplete
  deriving DecidableEq

abbrev Step (α : Type) := Act Trouble Error Answer α

def call (c : Call) : Step (Answer c) := sys .trouble c

/-- The random names are an input. -/
def createBootstrapStage : List Name → Step (Name × Dir)
  | [] => throw .exhausted
  | name :: names => do
    call (.attempt .random)
    match ← catching (call (.mkdir name)) with
    | .ok () =>
      match ← catching (call (.openDirectory name)) with
      | .ok d => return (name, d)
      | .error e =>
        let _ ← catching (call (.unlink name))
        throw e
    | .error e => if e = .trouble .exist then createBootstrapStage names else throw e

inductive StageStep where
  | put (part : Part)
  | probe (probe : Probe)
  deriving DecidableEq

def chunkSteps (name : Bytes) : List StageStep :=
  [.probe .openSource, .put (.chunk name), .probe .closeSource, .probe .verifyChunk]

def stageSteps (chunks : List Bytes) : List StageStep :=
  [.put .privateDirectory, .probe .openPrivate, .put .devcontainer,
    .probe .marshal, .put .initializeRequest, .probe .marshal, .put .hydrateRequest,
    .probe .marshal, .put .servicesRequest, .put .helper, .probe .verifyHelper, .put .manifest,
    .probe .verifyManifest, .put .chunkDirectory, .probe .openChunks] ++
  chunks.flatMap chunkSteps ++ [.probe .syncChunks, .probe .syncPrivate, .probe .syncStage]

def stageStep (stage : Dir) : StageStep → Step Unit
  | .put part => call (.put stage part)
  | .probe probe => call (.attempt probe)

def fillStage (stage : Dir) : List StageStep → Step Unit
  | [] => pure ()
  | s :: steps => do
    stageStep stage s
    fillStage stage steps

def putsOf (steps : List StageStep) : List Part :=
  steps.filterMap fun
    | .put part => some part
    | .probe _ => none

def parts (chunks : List Bytes) : List Part := putsOf (stageSteps chunks)

def removeOwnedEmptyDirectory (name : Name) (expected : Dir) : Step Unit := do
  let current ← call (.openDirectory name)
  call (.attempt .stat)
  call (.attempt .stat)
  if current = expected then call (.unlink name) else throw .placeholderChanged

/-- What the rollback returns, and the name of the stage after it. -/
structure RolledBack where
  result : Except Error Unit
  stage : Name

def replacedTarget (target placeholder : Name) (placeholderDirectory : Dir) : Step Unit := do
  call (.exchange target placeholder)
  removeOwnedEmptyDirectory placeholder placeholderDirectory
  call .syncParent
  throw .replaced

def exchangedDirectory (placeholder : Name) : Step Dir := do
  let exchanged ← call (.openDirectory placeholder)
  call (.attempt .stat)
  call (.attempt .stat)
  return exchanged

def withdraw (target stage placeholder : Name) (placeholderDirectory : Dir) : Step RolledBack := do
  match ← catching (removeOwnedEmptyDirectory target placeholderDirectory) with
  | .error e => return ⟨.error e, stage⟩
  | .ok () => return ⟨← catching (call .syncParent), placeholder⟩

def rollbackPublishedBootstrap (names : List Name) (target stage : Name) (published : Dir) : Step RolledBack := do
  match ← catching (createBootstrapStage names) with
  | .error e => return ⟨.error e, stage⟩
  | .ok (placeholder, placeholderDirectory) =>
    match ← catching (call (.exchange target placeholder)) with
    | .error e =>
      let _ ← catching (call (.removeAll placeholder))
      return ⟨.error e, stage⟩
    | .ok () =>
      match ← catching (exchangedDirectory placeholder) with
      | .error e => return ⟨.error e, stage⟩
      | .ok exchanged =>
        if exchanged = published then withdraw target stage placeholder placeholderDirectory
        else return ⟨← catching (replacedTarget target placeholder placeholderDirectory), stage⟩

/-- Why the bootstrap is not published, and the name of its stage. -/
abbrev Unpublished := Option (Error × Name)

def afterRename (names : List Name) (target stage : Name) (published : Dir) : Step Unpublished := do
  match ← catching (call .checkParent) with
  | .error e =>
    let _ ← catching (call (.rename target stage))
    let _ ← catching (call .syncParent)
    return some (e, stage)
  | .ok () =>
    match ← catching (call .syncParent) with
    | .ok () => return none
    | .error e =>
      let rolledBack ← rollbackPublishedBootstrap names target stage published
      match rolledBack.result with
      | .error _ => return some (.incomplete, rolledBack.stage)
      | .ok () => return some (e, rolledBack.stage)

def publishStage (chunks : List Bytes) (target stage : Name) (stageDirectory : Dir) : Step Unit := do
  fillStage stageDirectory (stageSteps chunks)
  call .checkParent
  call (.rename stage target)

structure Request where
  target : Name
  chunks : List Bytes
  stageNames : List Name
  placeholderNames : List Name

def buildAndPublish (request : Request) (stage : Name) (stageDirectory : Dir) : Step Unpublished := do
  match ← catching (publishStage request.chunks request.target stage stageDirectory) with
  | .error e => return some (e, stage)
  | .ok () => afterRename request.placeholderNames request.target stage stageDirectory

def renderBootstrap (request : Request) : Step Unit := do
  call (.attempt .prepare)
  let (stage, stageDirectory) ← createBootstrapStage request.stageNames
  match ← buildAndPublish request stage stageDirectory with
  | none => pure ()
  | some (e, name) =>
    let _ ← catching (call (.removeAll name))
    throw e

end Camp.Capsule.Publication
