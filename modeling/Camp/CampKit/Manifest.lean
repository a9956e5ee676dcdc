import Camp.Domain.Records
import Camp.Program.Checks
import Camp.Program.Paths
import Camp.Program.Prog
import Camp.Wire.Order

/-!
# The manifest of a kit

A kit is one generation with everything that is needed to run it elsewhere. Its manifest
names the payloads and the images; there is one text for a manifest, and only that text
is read back.
-/

namespace Camp.CampKit

open Wire Wire.Utf8 Program Program.Checks

inductive PayloadRole where
  | camp
  | generationArchive
  | generationMetadata
  | runtime
  | tool
  | devPodProvider
  | trustEvidence
  deriving DecidableEq

instance : Named PayloadRole where
  name
    | .camp => "camp"
    | .generationArchive => "generation-archive"
    | .generationMetadata => "generation-metadata"
    | .runtime => "runtime"
    | .tool => "tool"
    | .devPodProvider => "devpod-provider"
    | .trustEvidence => "trust-evidence"
  all := [.camp, .generationArchive, .generationMetadata, .runtime, .tool, .devPodProvider,
    .trustEvidence]
  mem_all e := by cases e <;> decide
  nodup := by decide

inductive ImageRole where
  | room
  | workspace
  deriving DecidableEq

instance : Named ImageRole where
  name
    | .room => "room"
    | .workspace => "workspace"
  all := [.room, .workspace]
  mem_all e := by cases e <;> decide
  nodup := by decide

inductive TrustStatus where
  | unverified
  | verified
  | rejected
  deriving DecidableEq

instance : Named TrustStatus where
  name
    | .unverified => "unverified"
    | .verified => "verified"
    | .rejected => "rejected"
  all := [.unverified, .verified, .rejected]
  mem_all e := by cases e <;> decide
  nodup := by decide

structure GenerationRef where
  generation : UInt64
  archiveSHA256 : Bytes
  deriving DecidableEq

instance : Record GenerationRef where
  fields := (Fields.none GenerationRef.mk)
    |>.field "generation" (·.generation)
    |>.field "archiveSha256" (·.archiveSHA256)
  apart := by decide +kernel
  view_view _ := by simp

structure GenerationIdentity where
  capsule : Bytes
  branch : Bytes
  ref : GenerationRef
  parent : Option GenerationRef
  archivePath : Bytes
  metadataPath : Bytes
  deriving DecidableEq

instance : Record GenerationIdentity where
  fields := (Fields.none GenerationIdentity.mk)
    |>.field "capsule" (·.capsule)
    |>.field "branch" (·.branch)
    |>.field "ref" (·.ref)
    |>.fieldOmit "parent" (·.parent)
    |>.field "archivePath" (·.archivePath)
    |>.field "metadataPath" (·.metadataPath)
  apart := by decide +kernel
  view_view _ := by simp

structure PayloadIdentity where
  role : Open PayloadRole
  name : Bytes
  version : Bytes
  repository : Bytes
  commit : Bytes
  platform : Option Platform
  path : Bytes
  size : Int64
  sha256 : Bytes
  executableSHA256 : Bytes
  mediaType : Bytes
  deriving DecidableEq

instance : Record PayloadIdentity where
  fields := (Fields.none PayloadIdentity.mk)
    |>.field "role" (·.role)
    |>.field "name" (·.name)
    |>.fieldOmit "version" (·.version)
    |>.fieldOmit "repository" (·.repository)
    |>.fieldOmit "commit" (·.commit)
    |>.fieldOmit "platform" (·.platform)
    |>.field "path" (·.path)
    |>.field "size" (·.size)
    |>.field "sha256" (·.sha256)
    |>.fieldOmit "executableSha256" (·.executableSHA256)
    |>.field "mediaType" (·.mediaType)
  apart := by decide +kernel
  view_view _ := by simp

structure ImageIdentity where
  role : Open ImageRole
  reference : Bytes
  digest : Bytes
  platform : Platform
  deriving DecidableEq

instance : Record ImageIdentity where
  fields := (Fields.none ImageIdentity.mk)
    |>.field "role" (·.role)
    |>.field "reference" (·.reference)
    |>.field "digest" (·.digest)
    |>.field "platform" (·.platform)
  apart := by decide +kernel
  view_view _ := by simp

structure TrustMetadata where
  status : Open TrustStatus
  verifier : Bytes
  verifiedAt : Option Time
  evidencePath : Bytes
  deriving DecidableEq

instance : Record TrustMetadata where
  fields := (Fields.none TrustMetadata.mk)
    |>.field "status" (·.status)
    |>.fieldOmit "verifier" (·.verifier)
    |>.fieldOmit "verifiedAt" (·.verifiedAt)
    |>.fieldOmit "evidencePath" (·.evidencePath)
  apart := by decide +kernel
  view_view _ := by simp

structure KitLineage where
  kitID : Bytes
  exportedAt : Time
  sourceGeneration : GenerationRef
  parentKitSHA256 : Bytes
  deriving DecidableEq

instance : Record KitLineage where
  fields := (Fields.none KitLineage.mk)
    |>.field "kitId" (·.kitID)
    |>.field "exportedAt" (·.exportedAt)
    |>.field "sourceGeneration" (·.sourceGeneration)
    |>.fieldOmit "parentKitSha256" (·.parentKitSHA256)
  apart := by decide +kernel
  view_view _ := by simp

structure Manifest where
  schemaVersion : UInt32
  generation : GenerationIdentity
  supportedPlatforms : Option (List Platform)
  payloads : Option (List PayloadIdentity)
  images : Option (List ImageIdentity)
  trust : TrustMetadata
  lineage : KitLineage
  deriving DecidableEq

instance : Record Manifest where
  fields := (Fields.none Manifest.mk)
    |>.field "schemaVersion" (·.schemaVersion)
    |>.field "generation" (·.generation)
    |>.field "supportedPlatforms" (·.supportedPlatforms)
    |>.field "payloads" (·.payloads)
    |>.field "images" (·.images)
    |>.field "trust" (·.trust)
    |>.field "lineage" (·.lineage)
  apart := by decide +kernel
  view_view _ := by simp

def elements {α : Type} (slice : Option (List α)) : List α := slice.getD []

inductive Sentinel where
  | archiveFormat
  | archiveLimit
  | unsafeArchive
  | digestMismatch
  | metadataMismatch
  | trustUnsupported
  | unexpectedEOF
  | reader
  | json
  | unsupportedSchema (version : UInt32)
  deriving DecidableEq

abbrev Error := Failure Sentinel

abbrev Checked := Except Error Unit

def manifestSchemaVersion : UInt32 := 2

def maxManifestBytes : Nat := 4 * 2 ^ 20

def maxPayloads : Nat := 256

def maxImages : Nat := 8192

def maxPlatforms : Nat := 2

def maxStringBytes : Nat := 4 * 2 ^ 10

def maxPathBytes : Nat := 255

def maxInt64 : Nat := 2 ^ 63 - 1

def number (n : Nat) : Bytes := lit (toString n)

section Patterns

def isDigit (b : UInt8) : Bool := 48 ≤ b && b ≤ 57

def isLower (b : UInt8) : Bool := 97 ≤ b && b ≤ 122

def isUpper (b : UInt8) : Bool := 65 ≤ b && b ≤ 90

def isLowerHex (b : UInt8) : Bool := isDigit b || (97 ≤ b && b ≤ 102)

def hexOf (length : Nat) (s : Bytes) : Bool := s.length == length && s.all isLowerHex

def hex64 (s : Bytes) : Bool := hexOf 64 s

def hex40 (s : Bytes) : Bool := hexOf 40 s

def safeSegment : Bytes → Bool
  | [] => false
  | b :: rest =>
    (isDigit b || isLower b || isUpper b) &&
      rest.all fun c => isDigit c || isLower c || isUpper c || c = 46 || c = 95 || c = 45

/-- Runs of letters and digits with one separator between them; one may be due. -/
def ociRuns : Bool → Bytes → Bool
  | due, [] => !due
  | due, b :: rest =>
    if isDigit b || isLower b then ociRuns false rest
    else !due && (b = 46 || b = 95 || b = 45) && ociRuns true rest

def ociComponent (s : Bytes) : Bool := ociRuns true s

def ociHost (s : Bytes) : Bool :=
  match s.splitOn 58 with
  | [name] => ociComponent name
  | [name, port] => ociComponent name && !port.isEmpty && port.all isDigit
  | _ => false

def ociName (s : Bytes) : Bool :=
  match s.splitOn 47 with
  | [] => false
  | host :: rest => ociHost host && rest.all ociComponent

def validString (s : Bytes) : Bool := (symbols s).all Option.isSome

def runes (s : Bytes) : List Nat := (text (symbols s)).map Char.toNat

end Patterns

def platformKey (p : Platform) : Bytes := p.os ++ [0] ++ p.architecture ++ [0] ++ p.variant

def validSegment (value : Bytes) : Bool :=
  value.length ≤ maxStringBytes && safeSegment value && value != lit "." && value != lit ".."

def validateBoundedString (label : String) (value : Bytes) : Checked := do
  refuse (maxStringBytes < value.length || !validString value)
    (.message "%s exceeds fixed bounds" [lit label])
  refuse ((runes value).any fun r => r = 0 || r < 0x20 || r = 0x7f)
    (.message "%s contains a control character" [lit label])

def validatePayloadPath (value : Bytes) : Checked := do
  refuse (value.isEmpty || maxPathBytes < value.length || !validString value)
    (.message "path length is outside bounds" [])
  refuse ((runes value).any fun r => 0x7f < r || r < 0x20 || r = 0x7f)
    (.message "path must be printable ASCII" [])
  refuse (value == lit "manifest.json" || !(lit "payloads/").isPrefixOf value ||
      value.any fun b => b = 92 || b = 63 || b = 35)
    (.message "path is outside payloads or contains reserved syntax" [])
  refuse ((Paths.parts value).length < 2) (.message "path has no payload component" [])
  each (fun part => do
    refuse (part.isEmpty || part == lit "." || part == lit "..")
      (.message "path has an unsafe component" [])
    refuse (part.contains 58) (.message "path has a scheme or drive prefix" []))
    (Paths.parts value)

def validateGenerationRef (label : String) (ref : GenerationRef) : Checked :=
  refuse (ref.generation = 0 || !hex64 ref.archiveSHA256) (.message "invalid %s" [lit label])

def about (format : String) (args : List Bytes) : Checked → Checked
  | .ok () => .ok ()
  | .error e => .error (.wrap format args e)

def validateParent (ref : GenerationRef) : Option GenerationRef → Checked
  | none => .ok ()
  | some parent => do
    validateGenerationRef "parent generation" parent
    refuse (ref.generation ≤ parent.generation)
      (.message "parent generation must precede generation" [])

def validateGeneration (g : GenerationIdentity) : Checked := do
  refuse (!validSegment g.capsule) (.message "invalid capsule" [])
  refuse (!validSegment g.branch) (.message "invalid branch" [])
  validateGenerationRef "generation" g.ref
  validateParent g.ref g.parent
  about "invalid generation archive path: %w" [] (validatePayloadPath g.archivePath)
  about "invalid generation metadata path: %w" [] (validatePayloadPath g.metadataPath)
  refuse (g.archivePath == g.metadataPath)
    (.message "generation archive and metadata paths collide" [])

def validateLineage (lineage : KitLineage) (source : GenerationRef) : Checked := do
  refuse (!validSegment lineage.kitID) (.message "invalid kit ID" [])
  refuse lineage.exportedAt.isZero (.message "exportedAt is zero" [])
  refuse (lineage.sourceGeneration != source)
    (.message "source generation does not match generation" [])
  refuse (!lineage.parentKitSHA256.isEmpty && !hex64 lineage.parentKitSHA256)
    (.message "invalid parent kit digest" [])

def validatePlatform (p : Platform) : Checked :=
  refuse (p.os != lit "linux" || (p.architecture != lit "amd64" && p.architecture != lit "arm64") ||
      !p.variant.isEmpty)
    (.message "unsupported platform %q" [platformKey p])

def validatePlatforms (values : List Platform) : Checked := do
  refuse (values.isEmpty || maxPlatforms < values.length)
    (.message "platform count %d is outside 1..%d" [number values.length, number maxPlatforms])
  scan (fun before p => do
    validatePlatform p
    refuse ((before.map platformKey).contains (platformKey p))
      (.message "duplicate platform %s" [platformKey p])) [] values

section Payloads

variable (platforms : List Platform)

def supported (p : Platform) : Bool := (platforms.map platformKey).contains (platformKey p)

def independent (p : PayloadIdentity) : Bool :=
  p.role = .known .generationArchive || p.role = .known .generationMetadata ||
    p.role = .known .trustEvidence

def validatePayloadPlatform (p : PayloadIdentity) : Checked :=
  if independent p then
    refuse p.platform.isSome (.message "platform-independent payload %q has a platform" [p.path])
  else
    match p.platform with
    | none => .error (.message "executable payload %q has no platform" [p.path])
    | some platform => do
      refuse (!supported platforms platform)
        (.message "payload %q uses an unsupported platform" [p.path])
      refuse (!hex64 p.executableSHA256)
        (.message "payload %q has invalid executable digest" [p.path])

def validateTool (p : PayloadIdentity) : Checked := do
  refuse (p.repository.isEmpty || p.version.isEmpty || !hex40 p.commit)
    (.message "tool %q has incomplete immutable identity" [p.name])
  refuse (p.name != lit "devpod" && p.name != lit "hauler")
    (.message "unsupported tool %q" [p.name])
  refuse (p.name == lit "devpod" && p.sha256 != p.executableSHA256)
    (.message "DevPod executable digest must match asset digest" [])

def validateRole (p : PayloadIdentity) : Checked :=
  match p.role with
  | .known _ => .ok ()
  | .other role _ => .error (.message "unknown payload role %q" [role])

def validatePayload (p : PayloadIdentity) : Checked := do
  validateRole p
  each (fun (label, value) => validateBoundedString label value)
    [("payload name", p.name), ("version", p.version), ("repository", p.repository),
      ("commit", p.commit), ("media type", p.mediaType)]
  refuse (p.name.isEmpty || p.mediaType.isEmpty)
    (.message "payload name and media type are required" [])
  about "invalid payload path %q: %w" [p.path] (validatePayloadPath p.path)
  refuse (p.size ≤ 0) (.message "payload %q size must be positive" [p.path])
  refuse (!hex64 p.sha256) (.message "payload %q has invalid digest" [p.path])
  validatePayloadPlatform platforms p
  if p.role = .known .tool then validateTool p

def payloadPlatformKey (p : PayloadIdentity) : Bytes :=
  match p.platform with
  | none => lit "-"
  | some platform => platformKey platform

def payloadKey (p : PayloadIdentity) : Bytes :=
  p.role.toBytes ++ [0] ++ p.name ++ [0] ++ payloadPlatformKey p

def PayloadIdentity.length (p : PayloadIdentity) : Nat := p.size.toInt.toNat

def collides (path other : Bytes) : Bool :=
  (other ++ lit "/").isPrefixOf path || (path ++ lit "/").isPrefixOf other

/-- One payload after the ones before it: its size, its path and its identity. -/
def validateAmong (before : List PayloadIdentity) (p : PayloadIdentity) : Checked := do
  validatePayload platforms p
  refuse (maxInt64 < (before.map PayloadIdentity.length).sum + p.length)
    (.message "aggregate payload size overflows int64" [])
  each (fun other => do
    refuse (p.path == other.path) (.message "duplicate payload path %q" [p.path])
    refuse (collides p.path other.path)
      (.message "payload path ancestor collision %q and %q" [p.path, other.path])) before
  refuse ((before.map payloadKey).contains (payloadKey p))
    (.message "duplicate payload identity for %s" [payloadKey p])

def validatePayloads (payloads : List PayloadIdentity) : Checked :=
  scan (validateAmong platforms) [] payloads

end Payloads

def byRole (payloads : List PayloadIdentity) (role : PayloadRole) : List PayloadIdentity :=
  payloads.filter (·.role = .known role)

def bindsArchive (g : GenerationIdentity) : List PayloadIdentity → Checked
  | [archive] =>
    refuse (archive.path != g.archivePath || archive.sha256 != g.ref.archiveSHA256)
      (.message "generation archive payload does not bind generation" [])
  | archives =>
    .error (.message "generation archive payload count is %d, want 1" [number archives.length])

def bindsMetadata (g : GenerationIdentity) : List PayloadIdentity → Checked
  | [metadata] =>
    refuse (metadata.path != g.metadataPath)
      (.message "generation metadata payload does not bind metadata path" [])
  | metadata =>
    .error (.message "generation metadata payload count is %d, want 1" [number metadata.length])

def validateGenerationBindings (g : GenerationIdentity) (payloads : List PayloadIdentity) :
    Checked := do
  bindsArchive g (byRole payloads .generationArchive)
  bindsMetadata g (byRole payloads .generationMetadata)

/-- What has to be there once for each platform; a name is empty when any will do. -/
def required : List (PayloadRole × String) :=
  [(.camp, ""), (.runtime, ""), (.devPodProvider, ""), (.tool, "devpod"), (.tool, "hauler")]

def closureCount (payloads : List PayloadIdentity) (key : Bytes) (role : PayloadRole)
    (name : String) : Nat :=
  (byRole payloads role).countP fun p =>
    p.platform.any (fun platform => platformKey platform == key) &&
      (name = "" || p.name == lit name)

def validateExecutableClosure (payloads : List PayloadIdentity) (platforms : List Platform) :
    Checked :=
  each (fun platform => each (fun (role, name) =>
    let count := closureCount payloads (platformKey platform) role name
    refuse (count != 1)
      (.message "%s %q closure count for %s is %d, want 1"
        [Named.bytes role, lit name, platformKey platform, number count])) required) platforms

section Images

def hasDigest (s : Bytes) : Bool := (lit "sha256:").isPrefixOf s && hex64 (s.drop 7)

/-- The reference holds exactly one separator, so its first one is its last one. -/
def validateOCIReference (reference digest : Bytes) : Checked := do
  refuse (!hasDigest digest) (.message "invalid image digest" [])
  refuse (reference.isEmpty || maxStringBytes < reference.length ||
      (reference.any fun b => b = 32 || b = 9 || b = 13 || b = 10 || b = 63 || b = 35 || b = 92) ||
      decide (lit "://" <:+: reference))
    (.message "invalid OCI reference" [])
  let name := reference.takeWhile (· ≠ 64)
  refuse (name.isEmpty || reference.count 64 != 1)
    (.message "OCI reference must contain exactly one digest separator" [])
  refuse (reference.drop (name.length + 1) != digest || !ociName name)
    (.message "invalid digest-pinned OCI reference" [])
  refuse ((name.reverse.takeWhile (· ≠ 47)).contains 58)
    (.message "OCI reference must not include a mutable tag" [])

def imageKey (image : ImageIdentity) : Bytes :=
  image.role.toBytes ++ [0] ++ image.reference ++ [0] ++ platformKey image.platform

def validateImageRole (image : ImageIdentity) : Checked :=
  match image.role with
  | .known _ => .ok ()
  | .other role _ => .error (.message "unknown image role %q" [role])

/-- The platform of a reference is the one it was last seen with. -/
def seenElsewhere (before : List ImageIdentity) (image : ImageIdentity) : Bool :=
  match before.reverse.find? (·.reference == image.reference) with
  | none => false
  | some prior => platformKey prior.platform != platformKey image.platform

def validateImage (platforms : List Platform) (before : List ImageIdentity)
    (image : ImageIdentity) : Checked := do
  validateImageRole image
  refuse (!supported platforms image.platform)
    (.message "image uses unsupported platform %s" [platformKey image.platform])
  validateBoundedString "image reference" image.reference
  validateOCIReference image.reference image.digest
  refuse ((before.map imageKey).contains (imageKey image)) (.message "duplicate image identity" [])
  refuse (seenElsewhere before image)
    (.message "image reference is reused across platforms and is not platform-specific" [])

def roomCount (images : List ImageIdentity) (key : Bytes) : Nat :=
  images.countP fun image => image.role = .known .room && platformKey image.platform == key

def validateImages (images : List ImageIdentity) (platforms : List Platform) : Checked := do
  scan (validateImage platforms) [] images
  each (fun platform =>
    let count := roomCount images (platformKey platform)
    refuse (count != 1)
      (.message "Room image count for %s is %d, want 1" [platformKey platform, number count]))
    platforms

end Images

/-- A time that is given, is not zero and is not after the export. -/
def verifiedBefore (exportedAt : Time) : Option Time → Bool
  | none => false
  | some verifiedAt => !verifiedAt.isZero && !verifiedAt.after exportedAt

def bindsEvidence (trust : TrustMetadata) (exportedAt : Time) (evidence : List PayloadIdentity) :
    Checked := do
  refuse (!hasDigest trust.verifier) (.message "invalid verifier digest" [])
  refuse (!verifiedBefore exportedAt trust.verifiedAt) (.message "invalid verification time" [])
  refuse (evidence.length != 1 || trust.evidencePath.isEmpty ||
      evidence.map (·.path) != [trust.evidencePath])
    (.message "trust evidence is not exactly bound" [])

/-- A verdict is bound to its evidence; without one there is none. -/
def validateEvidence (trust : TrustMetadata) (exportedAt : Time) (evidence : List PayloadIdentity) :
    Checked :=
  match trust.status with
  | .known .unverified =>
    refuse (!trust.verifier.isEmpty || trust.verifiedAt.isSome || !trust.evidencePath.isEmpty ||
        !evidence.isEmpty)
      (.message "unverified trust carries evidence" [])
  | .known .verified | .known .rejected => bindsEvidence trust exportedAt evidence
  | .other status _ => .error (.message "unknown trust status %q" [status])

def validateTrust (trust : TrustMetadata) (exportedAt : Time) (payloads : List PayloadIdentity) :
    Checked := do
  validateBoundedString "verifier" trust.verifier
  validateEvidence trust exportedAt (byRole payloads .trustEvidence)

def validate (m : Manifest) : Checked := do
  let platforms := elements m.supportedPlatforms
  let payloads := elements m.payloads
  let images := elements m.images
  refuse (m.schemaVersion != manifestSchemaVersion) (.sentinel (.unsupportedSchema m.schemaVersion))
  validateGeneration m.generation
  validatePlatforms platforms
  refuse (payloads.isEmpty || maxPayloads < payloads.length)
    (.message "payload count %d is outside 1..%d" [number payloads.length, number maxPayloads])
  refuse (maxImages < images.length)
    (.message "image count %d exceeds %d" [number images.length, number maxImages])
  validateLineage m.lineage m.generation.ref
  validatePayloads platforms payloads
  validateGenerationBindings m.generation payloads
  validateExecutableClosure payloads platforms
  validateImages images platforms
  validateTrust m.trust m.lineage.exportedAt payloads

section Canonical

/-- The keys of the elements are distinct, so any way of sorting gives the same list. -/
def sortBy {α : Type} (key : α → Bytes) : List α → List α := sortOn fun a => bytewise (key a)

def payloadSortKey (p : PayloadIdentity) : Bytes := payloadKey p ++ [0] ++ p.path

def appended {α : Type} (l : List α) : Option (List α) := if l.isEmpty then none else some l

def TrustMetadata.utc (trust : TrustMetadata) :
    TrustMetadata := { trust with verifiedAt := trust.verifiedAt.map Time.utc }

def KitLineage.utc (lineage : KitLineage) : KitLineage := { lineage with exportedAt := lineage.exportedAt.utc }

def canonicalManifest (m : Manifest) : Manifest :=
  { m with
    supportedPlatforms := (appended (elements m.supportedPlatforms)).map (sortBy platformKey)
    payloads := some (sortBy payloadSortKey (elements m.payloads))
    images := (appended (elements m.images)).map (sortBy imageKey)
    trust := m.trust.utc
    lineage := m.lineage.utc }

def marshalCanonical (m : Manifest) : Except Error Bytes := do
  validate m
  match marshal (canonicalManifest m) with
  | some text => pure text
  | none => throw (.sentinel .json)

/-- A field that is not known is never part of the canonical text, so the comparison
with that text refuses it as the decoder does. -/
def decodeCanonical (body : Bytes) : Except Error Manifest := do
  refuse (maxManifestBytes < body.length)
    (.message "manifest exceeds maximum size of %d bytes" [number maxManifestBytes])
  match unmarshal body with
  | none => throw (.sentinel .json)
  | some m =>
    let canonical ← marshalCanonical m
    refuse (body != canonical) (.message "document is not canonical" [])
    pure m

end Canonical

end Camp.CampKit
