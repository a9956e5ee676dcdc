import Camp.Domain.Names

/-!
# Records of the domain

Every record keeps the field order and the JSON names of its declaration. A
pointer is an option, and a slice is an option of a list since it may be nil.
-/

namespace Camp

open Wire Wire.Utf8 Fields

structure Lineage where
  branch : Bytes
  deriving DecidableEq

instance : Record Lineage where
  fields := (none Lineage.mk)
    |>.field "branch" (·.branch)
  apart := by decide +kernel
  view_view _ := by simp

structure GenerationRef where
  generation : UInt64
  archiveSHA256 : Bytes
  deriving DecidableEq

instance : Record GenerationRef where
  fields := (none GenerationRef.mk)
    |>.field "generation" (·.generation)
    |>.field "archiveSHA256" (·.archiveSHA256)
  apart := by decide +kernel
  view_view _ := by simp

structure ToolVersions where
  devPod : Bytes
  hauler : Bytes
  deriving DecidableEq

instance : Record ToolVersions where
  fields := (none ToolVersions.mk)
    |>.field "devpod" (·.devPod)
    |>.field "hauler" (·.hauler)
  apart := by decide +kernel
  view_view _ := by simp

structure LatestPointer where
  schemaVersion : Int64
  capsule : Bytes
  lineage : Lineage
  generation : GenerationRef
  parent : Option GenerationRef
  objectKey : Bytes
  size : Int64
  createdAt : Time
  tools : ToolVersions
  sessionID : Bytes
  deriving DecidableEq

instance : Record LatestPointer where
  fields := (none LatestPointer.mk)
    |>.field "schemaVersion" (·.schemaVersion)
    |>.field "capsule" (·.capsule)
    |>.field "lineage" (·.lineage)
    |>.field "generation" (·.generation)
    |>.fieldOmit "parent" (·.parent)
    |>.field "objectKey" (·.objectKey)
    |>.field "size" (·.size)
    |>.field "createdAt" (·.createdAt)
    |>.field "tools" (·.tools)
    |>.field "sessionId" (·.sessionID)
  apart := by decide +kernel
  view_view _ := by simp

structure Verification where
  localHaulLoadable : Bool
  remoteBytesVerified : Bool
  deriving DecidableEq

instance : Record Verification where
  fields := (none Verification.mk)
    |>.field "localHaulLoadable" (·.localHaulLoadable)
    |>.field "remoteBytesVerified" (·.remoteBytesVerified)
  apart := by decide +kernel
  view_view _ := by simp

structure GenerationMetadata where
  schemaVersion : Int64
  capsule : Bytes
  lineage : Lineage
  generation : GenerationRef
  parent : Option GenerationRef
  objectKey : Bytes
  metadataKey : Bytes
  size : Int64
  createdAt : Time
  tools : ToolVersions
  sessionID : Bytes
  verified : Verification
  deriving DecidableEq

instance : Record GenerationMetadata where
  fields := (none GenerationMetadata.mk)
    |>.field "schemaVersion" (·.schemaVersion)
    |>.field "capsule" (·.capsule)
    |>.field "lineage" (·.lineage)
    |>.field "generation" (·.generation)
    |>.fieldOmit "parent" (·.parent)
    |>.field "objectKey" (·.objectKey)
    |>.field "metadataKey" (·.metadataKey)
    |>.field "size" (·.size)
    |>.field "createdAt" (·.createdAt)
    |>.field "tools" (·.tools)
    |>.field "sessionId" (·.sessionID)
    |>.field "verified" (·.verified)
  apart := by decide +kernel
  view_view _ := by simp

structure WriterLease where
  schemaVersion : Int64
  capsule : Bytes
  lineage : Lineage
  sessionID : Bytes
  machine : Bytes
  openedGeneration : Option GenerationRef
  createdAt : Time
  heartbeatAt : Time
  expiresAt : Time
  deriving DecidableEq

instance : Record WriterLease where
  fields := (none WriterLease.mk)
    |>.field "schemaVersion" (·.schemaVersion)
    |>.field "capsule" (·.capsule)
    |>.field "lineage" (·.lineage)
    |>.field "sessionId" (·.sessionID)
    |>.field "machine" (·.machine)
    |>.fieldOmit "openedGeneration" (·.openedGeneration)
    |>.field "createdAt" (·.createdAt)
    |>.field "heartbeatAt" (·.heartbeatAt)
    |>.field "expiresAt" (·.expiresAt)
  apart := by decide +kernel
  view_view _ := by simp

structure BlueprintRef where
  schemaVersion : Int64
  digest : Bytes
  deriving DecidableEq

instance : Record BlueprintRef where
  fields := (none BlueprintRef.mk)
    |>.field "schemaVersion" (·.schemaVersion)
    |>.field "digest" (·.digest)
  apart := by decide +kernel
  view_view _ := by simp

structure ExecutionBinding where
  schemaVersion : Int64
  blueprint : BlueprintRef
  profileDigest : Bytes
  deriving DecidableEq

instance : Record ExecutionBinding where
  fields := (none ExecutionBinding.mk)
    |>.field "schemaVersion" (·.schemaVersion)
    |>.field "blueprint" (·.blueprint)
    |>.fieldOmit "profileDigest" (·.profileDigest)
  apart := by decide +kernel
  view_view _ := by simp

structure Platform where
  os : Bytes
  architecture : Bytes
  variant : Bytes
  deriving DecidableEq

instance : Record Platform where
  fields := (none Platform.mk)
    |>.field "os" (·.os)
    |>.field "architecture" (·.architecture)
    |>.fieldOmit "variant" (·.variant)
  apart := by decide +kernel
  view_view _ := by simp

structure Image where
  engineImageID : Bytes
  originalTags : Option (List Bytes)
  originalRepoDigests : Option (List Bytes)
  capturedReference : Bytes
  capturedManifestDigest : Bytes
  platform : Platform
  source : Open ImageSource
  createdAt : Time
  deriving DecidableEq

instance : Record Image where
  fields := (none Image.mk)
    |>.fieldOmit "engineImageId" (·.engineImageID)
    |>.field "originalTags" (·.originalTags)
    |>.fieldOmit "originalRepoDigests" (·.originalRepoDigests)
    |>.field "capturedReference" (·.capturedReference)
    |>.field "capturedManifestDigest" (·.capturedManifestDigest)
    |>.field "platform" (·.platform)
    |>.field "source" (·.source)
    |>.field "createdAt" (·.createdAt)
  apart := by decide +kernel
  view_view _ := by simp

structure ImageInventory where
  schemaVersion : Int64
  generatedAt : Time
  images : Option (List Image)
  deriving DecidableEq

instance : Record ImageInventory where
  fields := (none ImageInventory.mk)
    |>.field "schemaVersion" (·.schemaVersion)
    |>.field "generatedAt" (·.generatedAt)
    |>.field "images" (·.images)
  apart := by decide +kernel
  view_view _ := by simp

structure Materialization where
  schemaVersion : Int64
  canonicalPath : Bytes
  originalPath : Bytes
  ownershipMarker : Bytes
  mode : Bytes
  device : UInt64
  inode : UInt64
  birthTimeNS : Int64
  cleanupPermitted : Bool
  deriving DecidableEq

instance : Record Materialization where
  fields := (none Materialization.mk)
    |>.field "schemaVersion" (·.schemaVersion)
    |>.field "canonicalPath" (·.canonicalPath)
    |>.field "originalPath" (·.originalPath)
    |>.field "ownershipMarker" (·.ownershipMarker)
    |>.field "mode" (·.mode)
    |>.fieldOmit "device" (·.device)
    |>.fieldOmit "inode" (·.inode)
    |>.fieldOmit "birthTimeNs" (·.birthTimeNS)
    |>.field "cleanupPermitted" (·.cleanupPermitted)
  apart := by decide +kernel
  view_view _ := by simp

structure Checkpoint where
  state : Bytes
  generation : Option GenerationRef
  localHaulPath : Bytes
  objectKey : Bytes
  publicationSucceeded : Bool
  deriving DecidableEq

instance : Record Checkpoint where
  fields := (none Checkpoint.mk)
    |>.field "state" (·.state)
    |>.fieldOmit "generation" (·.generation)
    |>.fieldOmit "localHaulPath" (·.localHaulPath)
    |>.fieldOmit "objectKey" (·.objectKey)
    |>.field "publicationSucceeded" (·.publicationSucceeded)
  apart := by decide +kernel
  view_view _ := by simp

structure Cleanup where
  state : Bytes
  lastErr : Bytes
  deriving DecidableEq

instance : Record Cleanup where
  fields := (none Cleanup.mk)
    |>.field "state" (·.state)
    |>.fieldOmit "lastError" (·.lastErr)
  apart := by decide +kernel
  view_view _ := by simp

end Camp
