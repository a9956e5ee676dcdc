import Camp.Domain.Records
import Camp.Program.Checks
import Camp.Program.Paths
import Camp.Program.Prog
import Camp.Wire.Order
import Camp.Wire.Sha256

/-!
# The manifest of a Hauler kit

The manifest names what is in a kit: the store, the root, the tools, and the archive with its
chunks. There is one text for a manifest, and only that text is read back.
-/

namespace Camp.HaulKit

open Wire Wire.Utf8 Program Program.Checks

section Records

structure StoreEntry where
  reference : Bytes
  type : Bytes
  platform : Bytes
  digest : Bytes
  size : Int64
  deriving DecidableEq

instance : Record StoreEntry where
  fields := (Fields.none StoreEntry.mk)
    |>.field "reference" (·.reference)
    |>.field "type" (·.type)
    |>.fieldOmit "platform" (·.platform)
    |>.field "digest" (·.digest)
    |>.fieldOmit "size" (·.size)
  apart := by decide +kernel
  view_view _ := by simp

structure StoreIdentity where
  haulerVersion : Bytes
  indexSHA256 : Bytes
  entries : Option (List StoreEntry)
  deriving DecidableEq

instance : Record StoreIdentity where
  fields := (Fields.none StoreIdentity.mk)
    |>.field "haulerVersion" (·.haulerVersion)
    |>.field "indexSHA256" (·.indexSHA256)
    |>.field "entries" (·.entries)
  apart := by decide +kernel
  view_view _ := by simp

structure RootIdentity where
  reference : Bytes
  sha256 : Bytes
  size : Int64
  deriving DecidableEq

instance : Record RootIdentity where
  fields := (Fields.none RootIdentity.mk)
    |>.field "reference" (·.reference)
    |>.field "sha256" (·.sha256)
    |>.field "size" (·.size)
  apart := by decide +kernel
  view_view _ := by simp

structure FileIdentity where
  name : Bytes
  version : Bytes
  sha256 : Bytes
  size : Int64
  deriving DecidableEq

instance : Record FileIdentity where
  fields := (Fields.none FileIdentity.mk)
    |>.field "name" (·.name)
    |>.field "version" (·.version)
    |>.field "sha256" (·.sha256)
    |>.field "size" (·.size)
  apart := by decide +kernel
  view_view _ := by simp

structure ToolIdentities where
  camp : FileIdentity
  hauler : FileIdentity
  pasta : FileIdentity
  deriving DecidableEq

instance : Record ToolIdentities where
  fields := (Fields.none ToolIdentities.mk)
    |>.field "camp" (·.camp)
    |>.field "hauler" (·.hauler)
    |>.field "pasta" (·.pasta)
  apart := by decide +kernel
  view_view _ := by simp

structure ArchiveIdentity where
  sha256 : Bytes
  size : Int64
  deriving DecidableEq

instance : Record ArchiveIdentity where
  fields := (Fields.none ArchiveIdentity.mk)
    |>.field "sha256" (·.sha256)
    |>.field "size" (·.size)
  apart := by decide +kernel
  view_view _ := by simp

structure ChunkIdentity where
  index : UInt32
  name : Bytes
  sha256 : Bytes
  size : Int64
  deriving DecidableEq

instance : Record ChunkIdentity where
  fields := (Fields.none ChunkIdentity.mk)
    |>.field "index" (·.index)
    |>.field "name" (·.name)
    |>.field "sha256" (·.sha256)
    |>.field "size" (·.size)
  apart := by decide +kernel
  view_view _ := by simp

structure Manifest where
  schemaVersion : UInt32
  kind : Bytes
  sessionID : Bytes
  capsule : Bytes
  lineage : Lineage
  generation : Option GenerationRef
  architecture : Bytes
  store : StoreIdentity
  root : RootIdentity
  tools : ToolIdentities
  archive : ArchiveIdentity
  chunks : Option (List ChunkIdentity)
  deriving DecidableEq

instance : Record Manifest where
  fields := (Fields.none Manifest.mk)
    |>.field "schemaVersion" (·.schemaVersion)
    |>.field "kind" (·.kind)
    |>.field "sessionId" (·.sessionID)
    |>.field "capsule" (·.capsule)
    |>.field "lineage" (·.lineage)
    |>.fieldOmit "generation" (·.generation)
    |>.field "architecture" (·.architecture)
    |>.field "store" (·.store)
    |>.field "root" (·.root)
    |>.field "tools" (·.tools)
    |>.field "archive" (·.archive)
    |>.field "chunks" (·.chunks)
  apart := by decide +kernel
  view_view _ := by simp

def elements {α : Type} (slice : Option (List α)) : List α := slice.getD []

end Records

section Names

def isControl (c : Char) : Bool := c.toNat < 0x20 || (0x7f ≤ c.toNat && c.toNat < 0xa0)

def hasControl (value : Bytes) : Bool := (text (symbols value)).any isControl

def validSHA256 (value : Bytes) : Bool :=
  value.length == 64 && value.all fun b => (48 ≤ b && b ≤ 57) || (97 ≤ b && b ≤ 102)

def safeSegment (value : Bytes) : Bool :=
  value != [] && value != lit "." && value != lit ".." &&
    (value.all fun b => b != 47 && b != 92 && b != 0) && !hasControl value

def safeRelativeName (value : Bytes) : Bool :=
  value != [] && Paths.base value == value && value != lit "." && value != lit ".." && !hasControl value

def unsafePath (value : Bytes) : Bool :=
  Paths.rooted value || value.contains 92 || hasControl value ||
    (Paths.parts value).any fun segment => segment == [] || segment == lit "." || segment == lit ".."

end Names

section Validation

inductive Error where
  | invalidManifest (reason : String)
  | archiveLimit (reason : String)
  | json
  deriving DecidableEq

abbrev Checked := Except Error Unit

def manifestSchemaVersion : UInt32 := 1

def defaultChunkSize : Nat := 256 * 2 ^ 20

def maxManifestBytes : Nat := 4 * 2 ^ 20

def maxArchiveBytes : Nat := 64 * 2 ^ 30

def maxChunkBytes : Nat := defaultChunkSize

def maxChunkCount : Nat := 256

def entryKey (e : StoreEntry) : Bytes := e.type ++ 0 :: e.reference ++ 0 :: e.platform

def supportedPlatform (p : Bytes) : Bool := p == lit "linux/amd64" || p == lit "linux/arm64"

def validateEntry (before : List StoreEntry) (e : StoreEntry) : Checked := do
  refuse (e.reference == [] || unsafePath e.reference || (e.type != lit "file" && e.type != lit "image") ||
      !validSHA256 e.digest || e.size < 0 || (e.platform != [] && !supportedPlatform e.platform))
    (.invalidManifest "invalid store entry")
  refuse ((before.map entryKey).contains (entryKey e)) (.invalidManifest "duplicate store entry")

/-- The name of the root between what stands before and after it, if that is there. -/
def normalizeRootReference (reference : Bytes) : Except Error Bytes := do
  let name ←
    if (lit "hauler/").isPrefixOf reference then
      if (lit ":latest").isSuffixOf reference then
        let rest := reference.drop (lit "hauler/").length
        pure (rest.take (rest.length - (lit ":latest").length))
      else throw (.invalidManifest "root reference tag")
    else pure reference
  refuse (!safeRelativeName name || !(lit ".tar.zst").isSuffixOf name) (.invalidManifest "root reference")
  pure (lit "hauler/" ++ name ++ lit ":latest")

def validateTool (tool : FileIdentity) : Checked :=
  refuse (!safeRelativeName tool.name || tool.version == [] || !validSHA256 tool.sha256 || tool.size ≤ 0)
    (.invalidManifest "invalid tool identity")

def ChunkIdentity.length (c : ChunkIdentity) : Nat := c.size.toInt.toNat

def ArchiveIdentity.length (a : ArchiveIdentity) : Nat := a.size.toInt.toNat

/-- One chunk after the ones before it. Sizes are positive here, so they are natural numbers. -/
def validateChunk (archive : ArchiveIdentity) (before : List ChunkIdentity) (c : ChunkIdentity) : Checked := do
  refuse (c.index != UInt32.ofNat before.length || !safeRelativeName c.name || !validSHA256 c.sha256 || c.size ≤ 0)
    (.invalidManifest "invalid chunk identity")
  refuse (maxChunkBytes < c.length) (.archiveLimit "chunk bytes")
  refuse (archive.length < (before.map ChunkIdentity.length).sum + c.length) (.invalidManifest "chunk size overflow")

def validateGeneration : Option GenerationRef → Checked
  | none => .ok ()
  | some g => refuse (g.generation == 0 || !validSHA256 g.archiveSHA256) (.invalidManifest "invalid generation")

def validate (m : Manifest) : Checked := do
  refuse (m.schemaVersion != manifestSchemaVersion || m.kind != lit "camp-hauler-kit")
    (.invalidManifest "unsupported schema or kind")
  refuse (!safeSegment m.sessionID || !safeSegment m.capsule || !safeSegment m.lineage.branch)
    (.invalidManifest "unsafe session, capsule, or lineage")
  validateGeneration m.generation
  refuse (!supportedPlatform m.architecture) (.invalidManifest "unsupported architecture")
  refuse (m.store.haulerVersion == [] || !validSHA256 m.store.indexSHA256 || (elements m.store.entries).isEmpty)
    (.invalidManifest "invalid store identity")
  scan validateEntry [] (elements m.store.entries)
  refuse (normalizeRootReference m.root.reference != .ok m.root.reference ||
    !validSHA256 m.root.sha256 || m.root.size ≤ 0)
    (.invalidManifest "invalid root identity")
  each validateTool [m.tools.camp, m.tools.hauler, m.tools.pasta]
  refuse (!validSHA256 m.archive.sha256 || m.archive.size ≤ 0 || (elements m.chunks).isEmpty)
    (.invalidManifest "invalid archive identity")
  refuse (maxArchiveBytes < m.archive.length || maxChunkCount < (elements m.chunks).length)
    (.archiveLimit "archive bytes or chunk count")
  scan (validateChunk m.archive) [] (elements m.chunks)
  refuse (((elements m.chunks).map ChunkIdentity.length).sum != m.archive.length)
    (.invalidManifest "chunk sizes do not match archive")

end Validation

section Canonical

def entryOrder (e : StoreEntry) : List Nat ×ₗ (List Nat ×ₗ List Nat) :=
  toLex (bytewise e.reference, toLex (bytewise e.type, bytewise e.platform))

def canonicalManifest (m : Manifest) : Manifest :=
  { m with
    store := { m.store with entries := some (sortOn entryOrder (elements m.store.entries)) }
    chunks := some (sortOn (fun c => c.index.toNat) (elements m.chunks)) }

def marshalCanonical (m : Manifest) : Except Error Bytes := do
  validate (canonicalManifest m)
  match marshal (canonicalManifest m) with
  | some body => pure body
  | none => throw .json

/-- A field that is not known, or anything after the document, is never part of the canonical
text, so the comparison with that text refuses it as the decoder does. -/
def decodeCanonical (body : Bytes) : Except Error Manifest := do
  refuse (body.isEmpty || maxManifestBytes < body.length) (.invalidManifest "manifest size")
  match unmarshal body with
  | none => throw .json
  | some m =>
    let canonical ← marshalCanonical m
    refuse (body != canonical) (.invalidManifest "non-canonical encoding")
    pure m

end Canonical

end Camp.HaulKit
