import Camp.Wire.Sha256
import Camp.Coordination.Pointers

/-!
# Archives and their metadata sidecars

A generation is published as an archive and, once the store is known to hold
the archive, a sidecar that describes it. Both are immutable objects: a write
that finds an object with the expected size and digest adopts it.
-/

namespace Camp.Coordination

open Wire Wire.Utf8 Program Program.Objects

structure GenerationRecord where
  metadata : GenerationMetadata
  archive : ObjectMeta × Bytes
  sidecar : ObjectMeta × Bytes
  deriving DecidableEq

def validateGenerationMetadata (metadata : GenerationMetadata) (capsule : Bytes)
    (lineage : Lineage) (generation : GenerationRef) : Except Error Unit := do
  if metadata.schemaVersion ≠ schemaVersion || metadata.capsule ≠ capsule ||
      metadata.lineage ≠ lineage || metadata.generation ≠ generation then
    throw (invalid "generation metadata identity or schema mismatch: %w" [])
  validateGenerationRef metadata.generation
  validateGenerationParent metadata.generation metadata.parent
  let wantObject ← generationObjectKey capsule lineage generation
  let wantMetadata ← generationMetadataKey capsule lineage generation
  if metadata.objectKey ≠ wantObject || metadata.metadataKey ≠ wantMetadata || metadata.size < 0 ||
      metadata.createdAt.isZero || metadata.sessionID.isEmpty then
    throw (invalid "generation metadata has invalid keys or publication fields: %w" [])

def describe (body : Bytes) : ObjectMeta := ⟨.ofNat body.length, sha256Hex body⟩

/-- The size and the digest that the metadata gives the archive. -/
def namedBy (metadata : GenerationMetadata) : ObjectMeta :=
  ⟨metadata.size, metadata.generation.archiveSHA256⟩

def markVerified (metadata : GenerationMetadata) :
    GenerationMetadata :=
  { metadata with verified := ⟨metadata.verified.localHaulLoadable, true⟩ }

def unverified (format : String) (args : List Bytes) : Error :=
  .wrap format args (.sentinel .generationVerification)

def sizeText (size : Int64) : Bytes := lit (toString size.toInt)

namespace Generations

def readBack (metadata : GenerationMetadata) : Remote Unit := do
  let (body, _) ← ask plainly (.get metadata.objectKey)
  ask (fun _ => .wrap "read back remote generation: %w" [] (.sentinel .io)) (.attempt .readBody)
  ask (fun _ => .wrap "close remote generation readback: %w" [] (.sentinel .io))
    (.attempt .closeBody)
  if describe body ≠ namedBy metadata then
    throw (unverified "remote readback has size %d and sha256 %s: %w"
      [sizeText (describe body).size, (describe body).sha256])

/-- The archive is known by what the store reports of it, or is read back if the
store reports no digest. -/
def verifyArchive (metadata : GenerationMetadata) (archive : ObjectMeta) : Remote Unit :=
  if archive.size ≠ metadata.size then
    throw (unverified "remote generation size %d does not match %d: %w"
      [sizeText archive.size, sizeText metadata.size])
  else if archive.sha256 = [] then readBack metadata
  else if archive.sha256 ≠ metadata.generation.archiveSHA256 then
    throw (unverified "remote generation sha256 %s does not match %s: %w"
      [archive.sha256, metadata.generation.archiveSHA256])
  else pure ()

/-- An immutable write. If its outcome got lost the store is asked what is there. -/
def putImmutable (key source : Bytes) (expected : ObjectMeta) : Remote (ObjectMeta × Bytes) := do
  match ← catching (ask plainly (.putImmutable key source expected)) with
  | .ok object => pure object
  | .error e =>
    if e.is .ambiguous then
      match ← catching (ask plainly (.head key)) with
      | .ok reconciled => if reconciled.1 = expected then return reconciled
      | .error _ => pure ()
    throw e

def putAndVerify (metadata : GenerationMetadata) (source : Option Bytes) :
    Remote GenerationRecord := do
  match source with
  | none => throw (unverified "generation source is nil: %w" [])
  | some source =>
    liftM (validateGenerationMetadata metadata metadata.capsule metadata.lineage metadata.generation)
    if !metadata.verified.localHaulLoadable then
      throw (unverified "generation was not proven locally loadable: %w" [])
    let archive ← putImmutable metadata.objectKey source (namedBy metadata)
    verifyArchive metadata archive.1
    let metadata := markVerified metadata
    match marshal metadata with
    | none => throw (.wrap "marshal generation sidecar: %w" [] (.sentinel .json))
    | some body =>
      let sidecar ← putImmutable metadata.metadataKey body (describe body)
      pure ⟨metadata, archive, sidecar⟩

def validateStoredGenerationMetadata (metadata : GenerationMetadata) (capsule : Bytes)
    (lineage : Lineage) (generation : GenerationRef) : Except Error Unit := do
  validateGenerationMetadata metadata capsule lineage generation
  if !metadata.verified.localHaulLoadable || !metadata.verified.remoteBytesVerified then
    throw (unverified "stored generation sidecar is not fully verified: %w" [])

def readMetadata (capsule : Bytes) (lineage : Lineage) (generation : GenerationRef) :
    Remote (GenerationMetadata × ObjectMeta × Bytes) := do
  let key ← liftM (generationMetadataKey capsule lineage generation)
  let (_, metadata, object) ← readJSONWithBytes GenerationMetadata key
  liftM (validateStoredGenerationMetadata metadata capsule lineage generation)
  pure (metadata, object)

structure Fingerprint where
  key : Bytes
  revision : Bytes
  size : Int64
  sha256 : Bytes
  deriving DecidableEq

/-- A store that can tell the identity of an object looks at the object again. -/
def sourceIdentity (key : Bytes) : Remote Fingerprint := do
  let (object, revision) ← ask plainly (.head key)
  pure ⟨key, revision, object.size, object.sha256⟩

/-- The identity of an object, compared with what was reported of it. -/
def identify (name want : String) (key : Bytes) (object : ObjectMeta × Bytes) :
    Remote Fingerprint := do
  match ← catching (sourceIdentity key) with
  | .error e => throw (.wrap ("read " ++ name ++ " source identity %q: %w") [key] e)
  | .ok identity =>
    if identity.key ≠ key then
      throw (unverified (name ++ " source identity key %q does not match " ++ want ++ " %q: %w")
        [identity.key, key])
    if identity.revision ≠ [] && identity.revision ≠ object.2 then
      throw (unverified (name ++ " source identity revision %q does not match %q: %w")
        [identity.revision, object.2])
    if 0 < identity.size && identity.size ≠ object.1.size then
      throw (unverified (name ++ " source identity size %d does not match %d: %w")
        [sizeText identity.size, sizeText object.1.size])
    if identity.sha256 ≠ [] && identity.sha256 ≠ object.1.sha256 then
      throw (unverified (name ++ " source identity sha256 %s does not match %s: %w")
        [identity.sha256, object.1.sha256])
    pure identity

structure ExactGenerationRecord where
  metadata : GenerationMetadata
  metadataBytes : Bytes
  archive : ObjectMeta × Bytes
  sidecar : ObjectMeta × Bytes
  archiveFingerprint : Fingerprint
  sidecarFingerprint : Fingerprint
  deriving DecidableEq

def fingerprint (key : Bytes) (object : ObjectMeta × Bytes) : Fingerprint :=
  ⟨key, object.2, object.1.size, object.1.sha256⟩

/-- The fingerprints of the archive and the sidecar, from the store if it can identify them. -/
def fingerprints (identifies : Bool) (metadata : GenerationMetadata) (archive sidecar : ObjectMeta × Bytes) :
    Remote (Fingerprint × Fingerprint) := do
  if identifies then
    let archiveIdentity ← identify "archive" "metadata object key" metadata.objectKey archive
    let sidecarIdentity ← identify "metadata" "sidecar key" metadata.metadataKey sidecar
    pure (archiveIdentity, sidecarIdentity)
  else pure (fingerprint metadata.objectKey archive, fingerprint metadata.metadataKey sidecar)

def resolveExactGeneration (identifies : Bool) (capsule : Bytes) (lineage : Lineage)
    (generation : GenerationRef) : Remote ExactGenerationRecord := do
  let objectKey ← liftM (generationObjectKey capsule lineage generation)
  let metadataKey ← liftM (generationMetadataKey capsule lineage generation)
  let (rawMetadata, metadata, sidecar) ← readJSONWithBytes GenerationMetadata metadataKey
  liftM (validateStoredGenerationMetadata metadata capsule lineage generation)
  let archive ← ask plainly (.head objectKey)
  verifyArchive metadata archive.1
  if sidecar.1.size ≠ .ofNat rawMetadata.length then
    throw (unverified "metadata sidecar size %d does not match read bytes %d: %w"
      [sizeText sidecar.1.size, decimal rawMetadata.length])
  if sha256Hex rawMetadata ≠ sidecar.1.sha256 then
    throw (unverified "metadata sidecar sha256 %s does not match %s: %w"
      [sha256Hex rawMetadata, sidecar.1.sha256])
  let (archiveFingerprint, sidecarFingerprint) ← fingerprints identifies metadata archive sidecar
  pure ⟨metadata, rawMetadata, archive, sidecar, archiveFingerprint, sidecarFingerprint⟩

end Generations

end Camp.Coordination
