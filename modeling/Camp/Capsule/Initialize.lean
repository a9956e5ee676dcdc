import Camp.Domain.Validation
import Camp.Program.Files
import Camp.Program.Paths
import Camp.Wire.Rfc3339

/-!
# Initialization of a capsule

Four documents are written into the directory `.camp` of the source root, each under a
temporary name first. The metadata comes last and marks that the others are there.
-/

namespace Camp.Capsule

open Wire Wire.Utf8 Program Program.Files

inductive Sentinel where
  | notExist
  | exist
  | io
  | initializationConflict
  deriving DecidableEq

abbrev Error := Failure Sentinel

structure CapsuleMetadata where
  schemaVersion : Int64
  id : Bytes
  defaultBranch : Bytes
  createdAt : Time
  deriving DecidableEq

structure RoomLock where
  repository : Bytes
  version : Bytes
  commit : Bytes
  image : Bytes
  digest : Bytes
  deriving DecidableEq

structure CapsuleLock where
  schemaVersion : Int64
  room : RoomLock
  tools : ToolVersions
  deriving DecidableEq

structure Initialization where
  metadata : CapsuleMetadata
  lock : CapsuleLock
  deriving DecidableEq

def roomImage : Bytes := lit "ghcr.io/joshyorko/room-of-requirement:wolfi"

def roomRepository : Bytes := lit "joshyorko/room-of-requirement"

def roomVersion : Bytes := lit "v1.18.3"

def roomCommit : Bytes := lit "3d675a1fbc4c2c494730722e6396a42416a35e22"

def devpodVersion : Bytes := lit "v0.26.1"

def haulerVersion : Bytes := lit "v2.0.2"

/-- The text matches `digestPattern`. -/
def isDigest (s : Bytes) : Bool := s.take 7 == lit "sha256:" && validLowerSHA256 (s.drop 7)

/-- What `yaml.v3` does with the two documents it writes and reads. -/
structure Yaml where
  metadata : CapsuleMetadata → Bytes
  lock : CapsuleLock → Bytes
  readMetadata : Bytes → Option CapsuleMetadata
  readLock : Bytes → Option CapsuleLock

/-- Steps that change no document. A directory that is not there yet holds no document. -/
inductive Probe where
  | validateSourceRoot
  | mkdirAll
  | sync
  | close
  | syncDir
  deriving DecidableEq

abbrev Act := ExceptT Error (Prog (signature Unit Bytes Probe))

abbrev Disk := Tree Unit Bytes

abbrev campDirectory : Place Unit := .named ()

def ioSentinel : IoError → Sentinel
  | .notExist => .notExist
  | .exist => .exist
  | .failed => .io

def plainly (e : IoError) : Error := .sentinel (ioSentinel e)

def metadataName : Bytes := lit "capsule.yaml"

def lockName : Bytes := lit "lock.yaml"

def imagesName : Bytes := lit "images.json"

def manifestName : Bytes := lit "hauler-manifest.yaml"

def temporaryName (name : Bytes) : Bytes := name ++ lit ".partial"

def syncDir : Act Unit := sys plainly (.attempt .syncDir)

/-- The inner `err` of the write hides the outer one, so that only `Close` can fail here. -/
def writeTemporary (temporary body : Bytes) : Act Unit := do
  match ← catching (sys plainly (.write campDirectory temporary body)) with
  | .error _ => pure ()
  | .ok () =>
    let _ ← catching (sys plainly (.attempt .sync))
    pure ()
  sys plainly (.attempt .close)

def renameTemporary (temporary name : Bytes) : Act Unit := do
  match ← catching (sys plainly (.rename campDirectory temporary name)) with
  | .error e =>
    let _ ← catching (sys plainly (.remove campDirectory temporary))
    throw e
  | .ok () => syncDir

def writeStable (name body : Bytes) : Act Unit := do
  match ← catching (sys plainly (.read campDirectory name)) with
  | .ok existing =>
    if existing = body then pure ()
    else throw (.wrap "stable document %q differs: %w" [name] (.sentinel .initializationConflict))
  | .error e =>
    if !e.is .notExist then throw e
    sys plainly (.create campDirectory (temporaryName name))
    writeTemporary (temporaryName name) body
    renameTemporary (temporaryName name) name

def validMetadata (capsuleID : Bytes) (metadata : CapsuleMetadata) : Bool :=
  metadata.schemaVersion = schemaVersion && metadata.id = capsuleID && metadata.defaultBranch ≠ [] &&
    !metadata.createdAt.isZero

def validLock (lock : CapsuleLock) : Bool := lock.schemaVersion = schemaVersion && isDigest lock.room.digest

def readExistingInitialization (yaml : Yaml) (capsuleID : Bytes) : Act Initialization := do
  let metadataBody ← sys plainly (.read campDirectory metadataName)
  match (yaml.readMetadata metadataBody).filter (validMetadata capsuleID) with
  | none =>
    throw (.wrap "existing capsule metadata does not match %q: %w" [capsuleID]
      (.sentinel .initializationConflict))
  | some metadata =>
    match ← catching (sys plainly (.read campDirectory lockName)) with
    | .error _ => throw (.wrap "initialized capsule lacks lock: %w" [] (.sentinel .initializationConflict))
    | .ok lockBody =>
      match (yaml.readLock lockBody).filter validLock with
      | none => throw (.wrap "existing capsule lock is invalid: %w" [] (.sentinel .initializationConflict))
      | some lock => pure ⟨metadata, lock⟩

/-- The inventory without images, indented. It is empty where the time has no text. -/
def imagesBody (generatedAt : Time) : Bytes :=
  match Rfc3339.format generatedAt with
  | none => []
  | some text =>
    lit "\x7b\n  \"schemaVersion\": 1,\n  \"generatedAt\": \"" ++ encode text ++
      lit "\",\n  \"images\": []\n\x7d"

def manifestBody (capsuleID : Bytes) : Bytes :=
  lit "apiVersion: content.hauler.cattle.io/v1\nkind: Files\nmetadata:\n  name: camp-" ++ capsuleID ++
    lit "\nspec:\n  files:\n    - path: .camp/build/" ++ capsuleID ++
    lit ".tar.zst\n      name: " ++ capsuleID ++
    lit ".tar.zst\n---\napiVersion: content.hauler.cattle.io/v1\nkind: Images\nmetadata:\n  name: camp-" ++
    capsuleID ++ lit "-images\nspec:\n  images: []\n"

def newInitialization (capsuleID : Bytes) (now : Time) (digest : Bytes) : Initialization :=
  ⟨⟨schemaVersion, capsuleID, lit "main", now.utc⟩,
    ⟨schemaVersion, ⟨roomRepository, roomVersion, roomCommit, roomImage, digest⟩,
      ⟨devpodVersion, haulerVersion⟩⟩⟩

structure Document where
  name : Bytes
  body : Bytes

def documents (yaml : Yaml) (initialization : Initialization) : List Document :=
  [⟨lockName, yaml.lock initialization.lock⟩,
    ⟨imagesName, imagesBody initialization.metadata.createdAt ++ [10]⟩,
    ⟨manifestName, manifestBody initialization.metadata.id⟩,
    ⟨metadataName, yaml.metadata initialization.metadata⟩]

def writeDocuments : List Document → Act Unit
  | [] => syncDir
  | document :: rest => do
    writeStable document.name document.body
    writeDocuments rest

/-- The part of `Initialize` that follows when there is no metadata. -/
def createInitialization (yaml : Yaml) (capsuleID : Bytes) (now : Time) (resolved : Except Error Bytes) :
    Act Initialization :=
  match resolved with
  | .error e => throw (.wrap "resolve Room image digest: %w" [] e)
  | .ok digest => do
    if !isDigest digest then throw (.message "resolved Room digest %q is invalid" [digest])
    let initialization := newInitialization capsuleID now digest
    if initialization.metadata.createdAt.isZero then throw (.message "initializer clock returned zero time" [])
    sys (fun e => .wrap "create .camp directory: %w" [] (plainly e)) (.attempt .mkdirAll)
    writeDocuments (documents yaml initialization)
    pure initialization

def validID (capsuleID : Bytes) : Bool :=
  capsuleID ≠ [] && Paths.base capsuleID = capsuleID && capsuleID ≠ lit "." && capsuleID ≠ lit ".."

def initializeCapsule (yaml : Yaml) (capsuleID : Bytes) (now : Time) (resolved : Except Error Bytes) :
    Act Initialization := do
  if !validID capsuleID then throw (.message "invalid capsule id" [])
  sys plainly (.attempt .validateSourceRoot)
  match ← catching (readExistingInitialization yaml capsuleID) with
  | .ok existing => pure existing
  | .error e => if e.is .notExist then createInitialization yaml capsuleID now resolved else throw e

end Camp.Capsule
