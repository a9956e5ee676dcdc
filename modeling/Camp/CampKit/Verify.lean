import Camp.CampKit.Canonical
import Camp.CampKit.Frame
import Camp.Wire.Sha256

/-!
# Verifying a kit

The tar entries of a kit are compared with its manifest. What follows the last of them is hardly
looked at: the stream may end without the two empty blocks, or go on for seven bytes after them.
-/

namespace Camp.CampKit

open Wire Wire.Utf8 Program Program.Checks List Option CampKit.Frame

section Model

structure ArchiveLimits where
  maxCompressedBytes : Nat
  maxManifestBytes : Nat
  maxOuterEntries : Nat
  maxOuterEntryBytes : Nat
  maxOuterExpandedBytes : Nat
  maxNestedEntries : Nat
  maxNestedEntryBytes : Nat
  maxNestedExpandedBytes : Nat
  maxNestedPathBytes : Nat
  maxLinks : Nat
  maxLinkTargetBytes : Nat
  maxSymlinkDepth : Nat
  maxCompressionRatio : Nat
  compressionRatioSlack : Nat
  maxTrustEvidenceBytes : Nat
  maxDescriptorBytes : Nat

def defaultArchiveLimits : ArchiveLimits where
  maxCompressedBytes := 256 * 2 ^ 30
  maxManifestBytes := maxManifestBytes
  maxOuterEntries := maxPayloads + 1
  maxOuterEntryBytes := 128 * 2 ^ 30
  maxOuterExpandedBytes := 256 * 2 ^ 30
  maxNestedEntries := 1000000
  maxNestedEntryBytes := 128 * 2 ^ 30
  maxNestedExpandedBytes := 512 * 2 ^ 30
  maxNestedPathBytes := 1024
  maxLinks := 65536
  maxLinkTargetBytes := 255
  maxSymlinkDepth := 40
  maxCompressionRatio := 200
  compressionRatioSlack := 64 * 2 ^ 20
  maxTrustEvidenceBytes := 16 * 2 ^ 20
  maxDescriptorBytes := 4 * 2 ^ 20

def validateReaderLimits (limits : ArchiveLimits) : Checked := do
  refuse ([limits.maxCompressedBytes, limits.maxManifestBytes, limits.maxOuterEntryBytes,
      limits.maxOuterExpandedBytes, limits.maxNestedEntryBytes, limits.maxNestedExpandedBytes,
      limits.maxCompressionRatio, limits.compressionRatioSlack, limits.maxTrustEvidenceBytes,
      limits.maxDescriptorBytes].contains 0)
    (.wrap "archive limits must be positive: %w" [] (.sentinel .archiveLimit))
  refuse ([limits.maxOuterEntries, limits.maxNestedEntries, limits.maxNestedPathBytes,
      limits.maxLinks, limits.maxLinkTargetBytes, limits.maxSymlinkDepth].contains 0)
    (.wrap "archive count limits must be positive: %w" [] (.sentinel .archiveLimit))
  refuse (maxManifestBytes < limits.maxManifestBytes || maxPayloads + 1 < limits.maxOuterEntries)
    (.wrap "reader limits exceed schema bounds: %w" [] (.sentinel .archiveLimit))

inductive Format where
  | ustar
  | pax
  | gnu
  | unknown
  deriving DecidableEq

structure Header where
  name : Bytes
  size : Nat
  format : Format
  typeflag : UInt8
  mode : Nat
  uid : Nat
  gid : Nat
  uname : Bytes
  gname : Bytes
  modTime : Time
  accessTime : Time
  changeTime : Time
  devmajor : Nat
  devminor : Nat
  linkname : Bytes
  paxRecords : List (Bytes × Bytes)
  xattrs : List (Bytes × Bytes)
  deriving DecidableEq

def epoch : Time := ⟨62135596800 * 1000000000, 0⟩

def validateOuterHeader (h : Header) : Checked :=
  refuse (h.format != .ustar || h.typeflag != 48 || h.mode != 0o444 || h.uid != 0 || h.gid != 0 ||
      !h.uname.isEmpty || !h.gname.isEmpty || h.modTime.nanos != epoch.nanos || !h.accessTime.isZero ||
      !h.changeTime.isZero || h.devmajor != 0 || h.devminor != 0 || !h.linkname.isEmpty ||
      !h.paxRecords.isEmpty || !h.xattrs.isEmpty)
    (.wrap "entry %q has a non-deterministic ustar header: %w" [h.name] (.sentinel .unsafeArchive))

/-- What is left to read: bytes, and then the end of the stream or an error of the decoder or of
a limit. -/
structure Stream where
  content : Bytes
  sound : Bool
  deriving DecidableEq

def formatError (format : String) (args : List Bytes) : Error := .wrap format args (.sentinel .archiveFormat)

def limitError (resource : String) (limit observed : Nat) : Error :=
  .wrap "%s observed %d bytes, limit %d" [lit resource, number observed, number limit] (.sentinel .archiveLimit)

def padding (size : Nat) : Nat := (512 - size % 512) % 512

def empty (block : Bytes) : Bool := block.all (· == 0)

def ended (t : Stream) : Except Error (Option Header × Stream) :=
  if t.sound then .ok (none, { t with content := [] }) else .error (.sentinel .reader)

/-- The next header, after the padding of the entry before. `parse` reads a header block. -/
def next (parse : Bytes → Option Header) (pad : Nat) (t : Stream) : Except Error (Option Header × Stream) :=
  let s := t.content.drop pad
  if s = [] then ended t
  else if s.length < 512 then .error (.sentinel .unexpectedEOF)
  else if !empty (s.take 512) then
    match parse (s.take 512) with
    | none => .error (.sentinel .archiveFormat)
    | some header => .ok (some header, { t with content := s.drop 512 })
  -- one empty block may be the last one
  else if s.drop 512 = [] then ended t
  else if (s.drop 512).length < 512 then .error (.sentinel .unexpectedEOF)
  else if empty ((s.drop 512).take 512) then .ok (none, { t with content := s.drop 1024 })
  else .error (.sentinel .archiveFormat)

def readExactBounded (size limit : Nat) (t : Stream) : Except Error (Bytes × Stream) := do
  refuse (limit < size) (limitError "entry bytes" limit size)
  refuse (t.content.length < size) (.sentinel .unexpectedEOF)
  pure (t.content.take size, { t with content := t.content.drop size })

structure KitMetadata where
  capsule : Bytes
  lineage : Lineage
  generation : Camp.GenerationRef
  verified : Verification
  deriving DecidableEq

instance : Record KitMetadata where
  fields := (Fields.none KitMetadata.mk)
    |>.field "capsule" (·.capsule)
    |>.field "lineage" (·.lineage)
    |>.field "generation" (·.generation)
    |>.field "verified" (·.verified)
  apart := by decide +kernel
  view_view _ := by simp

def metadataMatchesGeneration (body : Bytes) (generation : GenerationIdentity) : Bool :=
  match (unmarshal body : Option KitMetadata) with
  | none => false
  | some metadata =>
    metadata.capsule == generation.capsule && metadata.generation.generation == generation.ref.generation &&
      metadata.generation.archiveSHA256 == generation.ref.archiveSHA256 &&
      metadata.lineage.branch == generation.branch && metadata.verified.remoteBytesVerified

inductive IntegrityStatus where
  | notVerified
  | valid
  deriving DecidableEq

inductive OCIClosureStatus where
  | notVerified
  deriving DecidableEq

abbrev TrustResult := Bytes

def trustResultUnverified : TrustResult := lit "unverified"

abbrev TrustEvaluator := Manifest → Bytes → Except Error TrustResult

structure PayloadVerification where
  role : Open PayloadRole
  name : Bytes
  size : Int64
  sha256 : Bytes
  integrity : IntegrityStatus
  deriving DecidableEq

structure KitVerification where
  manifest : Manifest
  integrity : IntegrityStatus
  trust : TrustResult
  ociClosure : OCIClosureStatus
  payloads : List PayloadVerification
  deriving DecidableEq

/-- The payload of a path; a later one takes the place of an earlier one. -/
def byPath (payloads : List PayloadIdentity) (path : Bytes) : Option PayloadIdentity :=
  payloads.reverse.find? (·.path == path)

structure Progress where
  seen : List Bytes
  verified : List PayloadVerification
  trustEvidence : Bytes

def Progress.add (p : Progress) (name : Bytes) (payload : PayloadIdentity) (body : Bytes) : Progress where
  seen := p.seen ++ [name]
  verified := p.verified ++ [⟨payload.role, payload.name, payload.size, payload.sha256, .valid⟩]
  trustEvidence := if payload.role = .known .trustEvidence then body else p.trustEvidence

variable (parse : Bytes → Option Header) (limits : ArchiveLimits)

def bodyLimit (payload : PayloadIdentity) : Nat :=
  if payload.role = .known .trustEvidence then limits.maxTrustEvidenceBytes else limits.maxOuterEntryBytes

def verifyPayload (m : Manifest) (header : Header) (p : Progress) (t : Stream) : Except Error (Progress × Stream) := do
  validateOuterHeader header
  match byPath (elements m.payloads) header.name with
  | none => throw (formatError "payload %q not declared in manifest: %w" [header.name])
  | some payload => do
    refuse (header.size != payload.length)
      (.wrap "%q payload size %d != manifest %d: %w" [header.name, number header.size, number payload.length]
        (.sentinel .digestMismatch))
    let (body, t) ← readExactBounded header.size (bodyLimit limits payload) t
    refuse (sha256Hex body != payload.sha256) (.wrap "%q digest mismatch: %w" [header.name] (.sentinel .digestMismatch))
    refuse (payload.role = .known .generationMetadata && !metadataMatchesGeneration body m.generation)
      (.sentinel .metadataMismatch)
    pure (p.add header.name payload body, t)

/-- The entries that are still expected, after the padding of the one before. -/
def verifyEntries (m : Manifest) : List Bytes → Nat → Progress → Stream → Except Error (Progress × Stream)
  | paths, pad, p, t =>
    match next parse pad t with
    | .error e => .error (.wrap "read CampKit payload entry: %w: %w" [] (.join e (.sentinel .archiveFormat)))
    | .ok (none, t) => .ok (p, t)
    | .ok (some header, t) => do
      refuse (p.seen.contains header.name) (formatError "payload %q repeated: %w" [header.name])
      match paths with
      | [] => throw (formatError "unexpected payload %q: %w" [header.name])
      | path :: paths => do
        refuse (header.name != path) (formatError "payload order mismatch at %q: %w" [header.name])
        let (p, t) ← verifyPayload limits m header p t
        verifyEntries m paths (padding header.size) p t

/-- Reads of one byte behind the entries, whatever they give, until the end is seen. -/
def readTail : Nat → Stream → Except Error Bool
  | 0, _ => .ok false
  | rounds + 1, t =>
    match t.content with
    | _ :: rest => readTail rounds { t with content := rest }
    | [] => if t.sound then .ok true else .error (.wrap "read CampKit zstd tail: %w" [] (.sentinel .reader))

def readManifest (t : Stream) : Except Error (Manifest × Nat × Stream) :=
  match next parse 0 t with
  | .error e => .error (.wrap "read CampKit manifest header: %w: %w" [] (.join e (.sentinel .archiveFormat)))
  | .ok (none, _) => .error (formatError "read CampKit manifest header: %w: %w" [])
  | .ok (some header, t) => do
    refuse (header.name != lit "manifest.json") (formatError "first entry is %q: %w" [header.name])
    validateOuterHeader header
    refuse (limits.maxManifestBytes < header.size) (limitError "manifest bytes" limits.maxManifestBytes header.size)
    let (body, t) ← readExactBounded header.size limits.maxManifestBytes t
    let m ← (decodeCanonical body).mapError fun e =>
        .wrap "decode manifest.json: %w: %w" [] (.join e (.sentinel .archiveFormat))
    pure (m, header.size, t)

def evaluateTrust (evaluator : Option TrustEvaluator) (m : Manifest) (evidence : Bytes) : Except Error TrustResult :=
  match m.trust.status with
  | .known .unverified => .ok trustResultUnverified
  | .known .verified | .known .rejected =>
    match evaluator with
    | none => .error (.sentinel .trustUnsupported)
    | some evaluate => if evidence.isEmpty then .error (.sentinel .trustUnsupported) else evaluate m evidence
  | .other status _ => .error (.message "unsupported trust status %q" [status])

/-- A compressed input with what its decoder gives, and the reader of its frame once the decoder
has read it to the end. -/
structure Input where
  source : Source
  reader : Reader
  remaining : Source
  stream : Stream
  reads : stream.sound = true → ∃ sizes data, (∀ k, 0 < sizes k) ∧
    readAll sizes (source.bytes.length + 1) (newZstdFrameReader true) source =
    some (data, .eof, reader, remaining)

def payloadPaths (m : Manifest) : List Bytes := sortBy id ((elements m.payloads).map (·.path))

/-- The tar stream: its manifest, and what its entries gave. -/
def verifyStream (t : Stream) : Except Error (Manifest × Progress) := do
  validateReaderLimits limits
  let (m, size, t) ← readManifest parse limits t
  let payloads := elements m.payloads
  refuse (limits.maxOuterEntries < payloads.length + 1)
    (limitError "outer entries" limits.maxOuterEntries (payloads.length + 1))
  let (p, t) ← verifyEntries parse limits m (payloadPaths m) (padding size) ⟨[], [], []⟩ t
  refuse (p.verified.length != payloads.length)
    (formatError "missing payload entries: expected %d got %d: %w" [number payloads.length, number p.verified.length])
  let ended ← readTail 8 t
  -- the frame is known to have ended once the decoder has told its end
  refuse (!ended) (formatError "read CampKit end-of-frame: %w" [])
  pure (m, p)

/-- What is returned next to an error of the trust is left out. -/
def verify (evaluator : Option TrustEvaluator) (input : Input) : Except Error KitVerification := do
  let (m, p) ← verifyStream parse limits input.stream
  (requirePhysicalEOF input.reader input.remaining).mapError fun _ =>
    formatError "read CampKit end-of-frame: %w" []
  let trust ← evaluateTrust evaluator m p.trustEvidence
  pure ⟨m, .valid, trust, .notVerified, p.verified⟩

end Model

section Layout

variable (parse : Bytes → Option Header) (m : Manifest)

def IsHeader (name body block : Bytes) : Prop :=
  block.length = 512 ∧ ∃ h, parse block = some h ∧ h.name = name ∧ h.size = body.length ∧ validateOuterHeader h = .ok ()

/-- Entries in the order of the paths, with the sizes and digests of the manifest, after the padding
of the entry before them; `ending` says what follows the last one. -/
inductive Laid (ending : Nat → Bytes → Prop) : List Bytes → Nat → Bytes → Prop
  | nil {pad : Nat} {s : Bytes} (h : ending pad s) : Laid ending [] pad s
  | cons {path : Bytes} {paths : List Bytes} {pad block body s : Bytes} {payload : PayloadIdentity}
      (hPayload : byPath (elements m.payloads) path = some payload) (hHeader : IsHeader parse path body block)
      (hSize : body.length = payload.length) (hDigest : sha256Hex body = payload.sha256)
      (hRest : Laid ending paths (padding body.length) s) :
        Laid ending (path :: paths) pad.length (pad ++ (block ++ (body ++ s)))

def Marker (pad : Nat) (s : Bytes) : Prop := ∃ front : Bytes, front.length = pad ∧ s = front ++ replicate 1024 0

/-- The stream ends within or after the padding or after one empty block, or two empty blocks are
followed by the rest. -/
def Ends (rest : Bytes) (pad : Nat) (s : Bytes) : Prop :=
  (s.length ≤ pad ∨ s.length = pad + 512) ∧ rest = [] ∨
    ∃ front : Bytes, front.length = pad ∧ s = front ++ (replicate 1024 0 ++ rest)

def IsKit (ending : Nat → Bytes → Prop) (body content : Bytes) : Prop :=
  ∃ block s, content = block ++ (body ++ s) ∧ IsHeader parse (lit "manifest.json") body block ∧
    Laid parse m ending (payloadPaths m) (padding body.length) s

def payloadLength (path : Bytes) : Nat := ((byPath (elements m.payloads) path).map PayloadIdentity.length).getD 0

/-- The length of the entries with their padding and the end marker. -/
def tapeLength : List Bytes → Nat → Nat
  | [], pad => pad + 1024
  | path :: paths, pad => pad + 512 + payloadLength m path + tapeLength paths (padding (payloadLength m path))

variable {parse m} {ending : Nat → Bytes → Prop} {paths : List Bytes} {pad : Nat} {s rest : Bytes}

theorem Laid.length_eq (h : Laid parse m ending paths pad s) (hEnding : ∀ pad s, ending pad s → s.length = pad + 1024) :
    s.length = tapeLength m paths pad := by
  induction h with
  | nil h => exact hEnding _ _ h
  | cons hPayload hHeader hSize hDigest hRest ih =>
    rw [tapeLength, payloadLength, hPayload, map_some, getD_some, ← hSize, ← ih]
    simp only [length_append, hHeader.1]
    omega

theorem IsKit.length_eq {body content : Bytes} (h : IsKit parse m Marker body content) :
    content.length = 512 + body.length + tapeLength m (payloadPaths m) (padding body.length) := by
  obtain ⟨block, s, rfl, hHeader, hLaid⟩ := h
  have hMarker (pad : Nat) (s : Bytes) (h : Marker pad s) : s.length = pad + 1024 := by
    obtain ⟨front, hFront, rfl⟩ := h
    rw [length_append, length_replicate, hFront]
  rw [length_append, length_append, hHeader.1, hLaid.length_eq hMarker]
  omega

theorem Laid.marker (h : Laid parse m (Ends rest) paths pad s) (hLength : s.length = tapeLength m paths pad) :
    Laid parse m Marker paths pad s := by
  induction h with
  | nil h =>
    refine .nil ?_
    rw [tapeLength] at hLength
    rcases h with ⟨hShort, -⟩ | ⟨front, hFront, rfl⟩
    · omega
    · refine ⟨front, hFront, ?_⟩
      simp only [length_append, length_replicate] at hLength
      rw [eq_nil_of_length_eq_zero (show rest.length = 0 by omega), append_nil]
  | cons hPayload hHeader hSize hDigest hRest ih =>
    refine .cons hPayload hHeader hSize hDigest (ih ?_)
    rw [tapeLength, payloadLength, hPayload, map_some, getD_some, ← hSize] at hLength
    simp only [length_append, hHeader.1] at hLength
    omega

end Layout

section Reading

variable {parse : Bytes → Option Header} {limits : ArchiveLimits} {m : Manifest} {pad : Nat} {t t' : Stream}
variable {p p' : Progress}
variable {header : Header} {paths : List Bytes}

theorem ended_eq_ok {found : Option Header} (h : ended t = .ok (found, t')) :
    found = none ∧ t'.content = [] ∧ t'.sound = t.sound := by
  unfold ended at h
  split_ifs at h
  cases h
  exact ⟨rfl, rfl, rfl⟩

theorem marker_of_empty {s : Bytes} (h : empty (s.take 512) = true) (h' : empty ((s.drop 512).take 512) = true)
    (hLength : 1024 ≤ s.length) : s = replicate 1024 0 ++ s.drop 1024 := by
  have hSplit : s.take 1024 = s.take 512 ++ (s.drop 512).take 512 := take_add (i := 512) (j := 512)
  have hFront : s.take 1024 = replicate 1024 0 := by
    rw [eq_replicate_iff]
    refine ⟨by rw [length_take]; omega, fun b hb => ?_⟩
    rw [hSplit, mem_append] at hb
    rcases hb with hb | hb
    · simpa using all_eq_true.mp h b hb
    · simpa using all_eq_true.mp h' b hb
  rw [← hFront, take_append_drop]

theorem next_some (h : next parse pad t = .ok (some header, t')) :
    ∃ front block : Bytes, t.content = front ++ (block ++ t'.content) ∧ front.length = pad ∧ block.length = 512 ∧
      parse block = some header ∧ t'.sound = t.sound := by
  unfold next at h
  dsimp only at h
  split_ifs at h with hEnd hShort hBlock hLast hPart hMarker
  · cases (ended_eq_ok h).1
  · split at h <;> cases h
    have hPad : pad ≤ t.content.length := by
      by_contra hOver
      exact hEnd (drop_eq_nil_of_le (by omega))
    refine ⟨t.content.take pad, (t.content.drop pad).take 512,
      ?_, by simpa using hPad, by simpa using hShort, by assumption, rfl⟩
    rw [take_append_drop, take_append_drop]
  · cases (ended_eq_ok h).1
  · cases h

theorem next_none (h : next parse pad t = .ok (none, t')) : Ends t'.content pad t.content ∧ t'.sound = t.sound := by
  unfold next at h
  dsimp only at h
  split_ifs at h with hEnd hShort hBlock hLast hPart hMarker
  · obtain ⟨-, hContent, hSound⟩ := ended_eq_ok h
    exact ⟨.inl ⟨.inl (drop_eq_nil_iff.mp hEnd), hContent⟩, hSound⟩
  · split at h <;> cases h
  · obtain ⟨-, hContent, hSound⟩ := ended_eq_ok h
    rw [drop_drop, drop_eq_nil_iff] at hLast
    rw [length_drop] at hShort
    exact ⟨.inl ⟨.inr (by omega), hContent⟩, hSound⟩
  · cases h
    rw [length_drop] at hShort
    rw [drop_drop, length_drop] at hPart
    have hEmpty : empty ((t.content.drop pad).take 512) = true := by simpa using hBlock
    refine ⟨.inr ⟨t.content.take pad, by rw [length_take]; omega, ?_⟩, rfl⟩
    rw [← marker_of_empty hEmpty hMarker (by rw [length_drop]; omega), take_append_drop]

theorem readExactBounded_eq_ok {size limit : Nat} {body : Bytes} (h : readExactBounded size limit t = .ok (body, t')) :
    t.content = body ++ t'.content ∧ body.length = size ∧ t'.sound = t.sound := by
  simp only [readExactBounded, andThen_eq_ok, refuse_eq_ok, decide_eq_false_iff_not, not_lt] at h
  obtain ⟨-, hSize, h⟩ := h
  cases h
  exact ⟨(take_append_drop ..).symm, by simpa using hSize, rfl⟩

theorem verifyPayload_eq_ok (h : verifyPayload limits m header p t = .ok (p', t')) :
    ∃ payload body, byPath (elements m.payloads) header.name = some payload ∧ t.content = body ++ t'.content ∧
      validateOuterHeader header = .ok () ∧ header.size = body.length ∧ body.length = payload.length ∧
      sha256Hex body = payload.sha256 ∧ p'.verified.length = p.verified.length + 1 ∧ t'.sound = t.sound := by
  rw [verifyPayload, andThen_eq_ok] at h
  obtain ⟨hHeader, h⟩ := h
  cases hPayload : byPath (elements m.payloads) header.name with
  | none =>
    rw [hPayload] at h
    cases h
  | some payload =>
    rw [hPayload] at h
    simp only [andThen_eq_ok, refuse_eq_ok, bne_eq_false_iff_eq] at h
    obtain ⟨hSize, h⟩ := h
    obtain ⟨⟨body, t₁⟩, hRead, h⟩ := Checks.bind_eq_ok.mp h
    simp only [andThen_eq_ok, refuse_eq_ok, bne_eq_false_iff_eq] at h
    obtain ⟨hDigest, -, h⟩ := h
    cases h
    obtain ⟨hContent, hLength, hSound⟩ := readExactBounded_eq_ok hRead
    exact ⟨payload, body, rfl, hContent, hHeader, hLength.symm, hLength.trans hSize,
      hDigest, by simp [Progress.add], hSound⟩

/-- One step of the walk: the stream has ended, or the next entry is the expected one. -/
theorem verifyEntries_cases (h : verifyEntries parse limits m paths pad p t = .ok (p', t')) :
    (next parse pad t = .ok (none, t') ∧ p' = p) ∨ ∃ header t₁ paths₁ p₁ t₂, paths = header.name :: paths₁ ∧
      next parse pad t = .ok (some header, t₁) ∧ verifyPayload limits m header p t₁ = .ok (p₁, t₂) ∧
      verifyEntries parse limits m paths₁ (padding header.size) p₁ t₂ = .ok (p', t') := by
  unfold verifyEntries at h
  split at h
  · cases h
  · cases h
    exact .inl ⟨by assumption, rfl⟩
  · rename_i header t₁ hNext
    rw [andThen_eq_ok] at h
    cases paths with
    | nil => cases h.2
    | cons path paths =>
      simp only [andThen_eq_ok, refuse_eq_ok, bne_eq_false_iff_eq] at h
      obtain ⟨-, rfl, h⟩ := h
      obtain ⟨⟨p₁, t₂⟩, hVerify, h⟩ := Checks.bind_eq_ok.mp h
      exact .inr ⟨header, t₁, paths, p₁, t₂, rfl, hNext, hVerify, h⟩

theorem verifyEntries_eq_ok (h : verifyEntries parse limits m paths pad p t = .ok (p', t')) :
    p'.verified.length ≤ p.verified.length + paths.length ∧ t'.sound = t.sound ∧
      (p'.verified.length = p.verified.length + paths.length → Laid parse m (Ends t'.content) paths pad t.content) := by
  induction paths generalizing pad p t with
  | nil =>
    obtain ⟨hNext, rfl⟩ | ⟨header, t₁, paths₁, p₁, t₂, hPaths, -⟩ := verifyEntries_cases h
    · obtain ⟨hEnds, hSound⟩ := next_none hNext
      exact ⟨le_rfl, hSound, fun _ => .nil hEnds⟩
    · cases hPaths
  | cons path paths ih =>
    rw [length_cons]
    obtain ⟨hNext, rfl⟩ | ⟨header, t₁, paths₁, p₁, t₂, hPaths, hNext, hVerify, hRest⟩ := verifyEntries_cases h
    · exact ⟨by omega, (next_none hNext).2, fun hCount => by omega⟩
    · cases hPaths
      obtain ⟨front, block, hContent, rfl, hBlock, hParse, hSound⟩ := next_some hNext
      obtain ⟨payload, body, hPayload, hBody, hHeader, hSize, hLength, hDigest, hOne, hSound'⟩ :=
          verifyPayload_eq_ok hVerify
      obtain ⟨hCount, hLast, hLaid⟩ := ih hRest
      refine ⟨by omega, hLast.trans (hSound'.trans hSound), fun hAll => ?_⟩
      rw [hContent, hBody]
      refine .cons hPayload ⟨hBlock, header, hParse, rfl, hSize, hHeader⟩ hLength hDigest ?_
      rw [← hSize]
      exact hLaid (by omega)

theorem readTail_eq_ok {rounds : Nat} (h : readTail rounds t = .ok true) :
    t.content.length < rounds ∧ t.sound = true := by
  induction rounds generalizing t with
  | zero => cases h
  | succ rounds ih =>
    unfold readTail at h
    split at h
    · rename_i b rest hContent
      rw [hContent, length_cons]
      have hRest := ih h
      exact ⟨Nat.succ_lt_succ hRest.1, hRest.2⟩
    · rename_i hContent
      split_ifs at h with hSound
      rw [hContent]
      exact ⟨Nat.succ_pos _, hSound⟩

end Reading

section Verified

variable {parse : Bytes → Option Header} {limits : ArchiveLimits} {evaluator : Option TrustEvaluator} {input : Input}
  {v : KitVerification}
variable {m : Manifest} {t : Stream}
variable {size : Nat} {t' : Stream} {p : Progress}

theorem readManifest_cases (h : readManifest parse limits t = .ok (m, size, t')) :
    ∃ header t₁ body, next parse 0 t = .ok (some header, t₁) ∧ header.name = lit "manifest.json" ∧
    validateOuterHeader header = .ok () ∧
      readExactBounded header.size limits.maxManifestBytes t₁ = .ok (body, t') ∧
      decodeCanonical body = .ok m ∧ size = header.size := by
  unfold readManifest at h
  split at h
  · cases h
  · cases h
  · rename_i header t₁ hNext
    simp only [andThen_eq_ok, refuse_eq_ok, bne_eq_false_iff_eq] at h
    obtain ⟨hName, hHeader, -, h⟩ := h
    obtain ⟨⟨body, t₂⟩, hRead, h⟩ := Checks.bind_eq_ok.mp h
    obtain ⟨m', hDecode, h⟩ := Checks.bind_eq_ok.mp h
    cases h
    rw [mapError_eq_ok] at hDecode
    exact ⟨header, t₁, body, hNext, hName, hHeader, hRead, hDecode, rfl⟩

theorem readManifest_eq_ok (h : readManifest parse limits t = .ok (m, size, t')) :
    ∃ block body, t.content = block ++ (body ++ t'.content) ∧ IsHeader parse (lit "manifest.json") body block ∧
      marshalCanonical m = .ok body ∧ size = body.length ∧ t'.sound = t.sound := by
  obtain ⟨header, t₁, body, hNext, hName, hHeader, hRead, hDecode, rfl⟩ := readManifest_cases h
  obtain ⟨front, block, hContent, hFront, hBlock, hParse, hSound⟩ := next_some hNext
  obtain ⟨hBody, hLength, hSound'⟩ := readExactBounded_eq_ok hRead
  obtain rfl : front = [] := eq_nil_of_length_eq_zero hFront
  refine ⟨block, body, ?_, ⟨hBlock, header, hParse, hName, hLength.symm, hHeader⟩,
    (decodeCanonical_eq_ok.mp hDecode).2.2,
    hLength.symm, hSound'.trans hSound⟩
  rw [hContent, hBody, nil_append]

theorem Input.isFrame (hSound : input.stream.sound = true)
    (h : requirePhysicalEOF input.reader input.remaining = .ok ()) :
    IsFrame true input.source.bytes := by
  obtain ⟨sizes, data, hSizes, hRun⟩ := input.reads hSound
  obtain ⟨hDone, hRest⟩ := requirePhysicalEOF_eq_ok.mp h
  have hOpen : (newZstdFrameReader true).Open := fun _ _ => by simp [newZstdFrameReader]
  obtain ⟨result, hRun', hOutcome⟩ :=
      readAll_outcome hSizes hOpen rfl (Nat.lt_succ_self input.source.bytes.length)
  obtain rfl := Option.some.inj (hRun.symm.trans hRun')
  have hNot : ¬ Cut input.source.bytes (data, .eof, input.reader, input.remaining) := fun hCut =>
    Bool.noConfusion (hDone.symm.trans hCut.2.2)
  cases hFeed : (newZstdFrameReader true).feed input.source.bytes with
  | truncated =>
    rw [hFeed] at hOutcome
    exact absurd hOutcome hNot
  | malformed n e =>
    rw [hFeed, Frame.Outcome] at hOutcome
    split_ifs at hOutcome
    · exact absurd hOutcome hNot
    · cases hOutcome.2.1
  | complete n =>
    rw [hFeed, Frame.Outcome] at hOutcome
    split_ifs at hOutcome
    · exact absurd hOutcome hNot
    · obtain ⟨hLength, hFrame⟩ := feed_eq_complete.mp hFeed
      have hAll := drop_eq_nil_iff.mp (hOutcome.2.2.2.symm.trans hRest)
      rwa [take_of_length_le hAll] at hFrame

theorem verifyStream_cases (h : verifyStream parse limits t = .ok (m, p)) :
    ∃ size t₁ t₂, readManifest parse limits t = .ok (m, size, t₁) ∧
      verifyEntries parse limits m (payloadPaths m) (padding size) ⟨[], [], []⟩ t₁ = .ok (p, t₂) ∧
      p.verified.length = (payloadPaths m).length ∧ readTail 8 t₂ = .ok true := by
  rw [verifyStream, andThen_eq_ok] at h
  obtain ⟨-, h⟩ := h
  obtain ⟨⟨m', size, t₁⟩, hManifest, h⟩ := Checks.bind_eq_ok.mp h
  rw [andThen_eq_ok] at h
  obtain ⟨-, h⟩ := h
  obtain ⟨⟨p', t₂⟩, hEntries, h⟩ := Checks.bind_eq_ok.mp h
  rw [andThen_eq_ok, refuse_eq_ok, bne_eq_false_iff_eq] at h
  obtain ⟨hAll, h⟩ := h
  obtain ⟨ended, hTail, h⟩ := Checks.bind_eq_ok.mp h
  rw [andThen_eq_ok, refuse_eq_ok, Bool.not_eq_false'] at h
  obtain ⟨rfl, h⟩ := h
  cases h
  refine ⟨size, t₁, t₂, hManifest, hEntries, ?_, hTail⟩
  rw [hAll, payloadPaths, (sortBy_perm _ _).length_eq, length_map]

theorem verifyStream_eq_ok (h : verifyStream parse limits t = .ok (m, p)) :
    t.sound = true ∧ ∃ block body s rest : Bytes, t.content = block ++ (body ++ s) ∧
    IsHeader parse (lit "manifest.json") body block ∧
      marshalCanonical m = .ok body ∧ rest.length ≤ 7 ∧
      Laid parse m (Ends rest) (payloadPaths m) (padding body.length) s := by
  obtain ⟨size, t₁, t₂, hManifest, hEntries, hCount, hTail⟩ := verifyStream_cases h
  obtain ⟨block, body, hContent, hHeader, hBody, rfl, hSound⟩ := readManifest_eq_ok hManifest
  obtain ⟨-, hSound', hLaid⟩ := verifyEntries_eq_ok hEntries
  obtain ⟨hRest, hTrue⟩ := readTail_eq_ok hTail
  exact ⟨hSound ▸ hSound' ▸ hTrue, block, body, _, _, hContent, hHeader, hBody, Nat.le_of_lt_succ hRest,
    hLaid (by simpa using hCount)⟩

theorem exists_input {src : Source} (h : IsFrame true src.bytes)
    (hLazy : src.eager = false) (content : Bytes) :
    ∃ input : Input, input.source = src ∧ input.stream = ⟨content, true⟩ ∧
      Frame.requirePhysicalEOF input.reader input.remaining = .ok () := by
  have hOpen : (newZstdFrameReader true).Open := fun _ _ => by simp [newZstdFrameReader]
  have hSizes : ∀ k : Nat, 0 < (fun _ : Nat => 1) k := fun _ => Nat.one_pos
  have hLate : ¬ Early src.eager src.bytes.length src.bytes := fun hEarly =>
      Bool.noConfusion (hLazy.symm.trans hEarly.1)
  obtain ⟨⟨data, e, reader, remaining⟩, hRun, hOutcome⟩ :=
    readAll_outcome hSizes hOpen rfl (Nat.lt_succ_self src.bytes.length)
  rw [feed_eq_complete.mpr ⟨le_rfl, by rwa [take_length]⟩, Frame.Outcome, if_neg hLate] at hOutcome
  obtain ⟨-, rfl, hDone, hRest⟩ := hOutcome
  refine ⟨⟨src, reader, remaining, ⟨content, true⟩, fun _ => ⟨_, data, hSizes, hRun⟩⟩, rfl, rfl, ?_⟩
  exact requirePhysicalEOF_eq_ok.mpr ⟨hDone, hRest.trans drop_length⟩

end Verified

section Samples

variable {rest : Bytes}
variable {pad : Nat} {sound : Bool} {text : Bytes}

def aHeader (name : Bytes) (size : Nat) : Header :=
  ⟨name, size, .ustar, 48, 0o444, 0, 0, [], [], epoch, .zero, .zero, 0, 0, [], [], []⟩

def octalField (digits n : Nat) :
    Bytes := ((List.range digits).reverse.map fun k => UInt8.ofNat (48 + n / 8 ^ k % 8)) ++ [0]

def textField (width : Nat) (text : Bytes) : Bytes := text ++ replicate (width - text.length) 0

/-- The sum of the bytes, with blanks in the place of the sum itself. -/
def checksum (block : Bytes) : Nat := ((block.take 148 ++ replicate 8 32 ++ block.drop 156).map UInt8.toNat).sum

def ustarWith (name : Bytes) (size : Nat) (sum : Bytes) : Bytes :=
  textField 100 name ++ octalField 7 0o444 ++ octalField 7 0 ++ octalField 7 0 ++ octalField 11 size ++
    octalField 11 0 ++ sum ++ textField 101 (lit "0") ++ textField 6 (lit "ustar") ++ textField 66 (lit "00") ++
    octalField 7 0 ++ octalField 7 0 ++ replicate 167 0

/-- The block of a regular file that everyone may read. -/
def ustarBlock (name : Bytes) (size : Nat) : Bytes :=
  ustarWith name size (octalField 6 (checksum (ustarWith name size (replicate 8 0))) ++ [32])

def field (block : Bytes) (start width : Nat) : Bytes := (block.drop start).take width

def parseString (field : Bytes) : Bytes := field.takeWhile (· != 0)

def parseOctal (field : Bytes) : Option Nat :=
  let outer (b : UInt8) : Bool := b == 32 || b == 0
  let digits := parseString ((field.dropWhile outer).rdropWhile outer)
  if digits.all fun b => 48 ≤ b && b ≤ 55 then some (digits.foldl (fun n b => 8 * n + (b.toNat - 48)) 0) else none

/-- The header of a block that archive/tar takes for one of the USTAR format. The kit reader
refuses the headers of the other formats. -/
def parseUstar (block : Bytes) : Option Header := do
  guard (block.length = 512 ∧ block.all (· < 128) ∧ field block 257 8 = textField 6 (lit "ustar") ++ lit "00" ∧
    field block 508 4 ≠ textField 4 (lit "tar"))
  guard ([107, 115, 123, 135, 147, 336, 344].all fun k => field block k 1 == [0])
  guard (parseOctal (field block 148 8) = some (checksum block))
  let front := parseString (field block 345 155)
  let name := parseString (field block 0 100)
  let name := if front = [] then name else front ++ 47 :: name
  let flag := (field block 156 1).headD 0
  -- The records of the PAX and GNU formats describe the entry after them.
  guard (flag ∉ lit "xgLK")
  let flag := if flag = 0 ∨ flag = 48 then (if name.getLast? = some 47 then 53 else 48) else flag
  let mtime ← parseOctal (field block 136 12)
  pure ⟨name, ← parseOctal (field block 124 12), .ustar, flag, ← parseOctal (field block 100 8),
    ← parseOctal (field block 108 8), ← parseOctal (field block 116 8), parseString (field block 265 32),
    parseString (field block 297 32), ⟨epoch.nanos + mtime * 1000000000, 0⟩, .zero, .zero,
    ← parseOctal (field block 329 8), ← parseOctal (field block 337 8), parseString (field block 157 100), [], []⟩

/-- The block is read as what was written. -/
def Writes (name : Bytes) (size : Nat) : Prop :=
  (ustarBlock name size).length = 512 ∧ empty (ustarBlock name size) = false ∧
    parseUstar (ustarBlock name size) = some (aHeader name size)

instance (name : Bytes) (size : Nat) : Decidable (Writes name size) := inferInstanceAs (Decidable (_ ∧ _))

variable {name : Bytes} {size : Nat}

/-- The entries after the padding of the one before, and what follows them. -/
def laidOut : Nat → List (Bytes × Bytes) → Bytes → Bytes
  | pad, [], rest => replicate pad 0 ++ rest
  | pad, (path, body) :: entries, rest =>
    replicate pad 0 ++ (ustarBlock path body.length ++ (body ++ laidOut (padding body.length) entries rest))

variable {limits : ArchiveLimits} {m : Manifest} {t : Stream}

theorem next_ustarBlock {pad : Nat} (h : Writes name size) {s : Bytes} {sound : Bool} :
    next parseUstar pad ⟨replicate pad 0 ++ (ustarBlock name size ++ s), sound⟩ =
      .ok (some (aHeader name size), ⟨s, sound⟩) := by
  obtain ⟨hBlock, hEmpty, hParse⟩ := h
  have hDrop : (replicate pad (0 : UInt8) ++ (ustarBlock name size ++ s)).drop pad = ustarBlock name size ++ s :=
    drop_left' length_replicate
  have hLength : 512 ≤ (ustarBlock name size ++ s).length := by
    rw [length_append, hBlock]
    omega
  have hSome : ustarBlock name size ++ s ≠ [] := ne_nil_of_length_pos (by omega)
  rw [next]
  dsimp only
  rw [hDrop, if_neg hSome, if_neg (by omega), take_left' hBlock, hEmpty, hParse, drop_left' hBlock]
  rfl

theorem empty_replicate (n : Nat) : empty (replicate n 0) = true := by simp [empty]

theorem next_marker :
    next parseUstar pad ⟨replicate pad 0 ++ (replicate 1024 0 ++ rest), sound⟩ =
        .ok (none, ⟨rest, sound⟩) := by
  have hDrop : (replicate pad (0 : UInt8) ++ (replicate 1024 0 ++ rest)).drop pad =
      replicate 1024 0 ++ rest :=
    drop_left' length_replicate
  have hSplit : replicate 1024 0 ++ rest = replicate 512 0 ++ (replicate 512 (0 : UInt8) ++ rest) := by
    rw [← append_assoc, replicate_append_replicate]
  have hLength : (replicate 512 (0 : UInt8) ++ rest).length = 512 + rest.length := by
    rw [length_append, length_replicate]
  have hFirst : replicate 512 (0 : UInt8) ++ (replicate 512 0 ++ rest) ≠ [] :=
    ne_nil_of_length_pos (by rw [length_append, hLength]; omega)
  have hSecond : replicate 512 (0 : UInt8) ++ rest ≠ [] := ne_nil_of_length_pos (by omega)
  rw [next]
  dsimp only
  rw [hDrop, drop_left' length_replicate, hSplit, if_neg hFirst,
    if_neg (by rw [length_append, hLength]; omega),
    take_left' length_replicate, drop_left' length_replicate, empty_replicate, if_neg (by decide),
    if_neg hSecond, if_neg (by omega), take_left' length_replicate, if_pos (empty_replicate 512)]

theorem readExactBounded_append {body s : Bytes} {limit : Nat} (h : body.length ≤ limit) :
    readExactBounded body.length limit ⟨body ++ s, sound⟩ = .ok (body, ⟨s, sound⟩) := by
  have hLength : ¬ (body ++ s).length < body.length := by
    rw [length_append]
    omega
  simp only [readExactBounded, refuse, decide_eq_false (Nat.not_lt.mpr h), decide_eq_false hLength,
    take_left, drop_left]
  rfl

def fits (limits : ArchiveLimits) (m : Manifest) (entry : Bytes × Bytes) : Bool :=
  match byPath (elements m.payloads) entry.1 with
  | none => false
  | some payload =>
    entry.2.length == payload.length && decide (entry.2.length ≤ bodyLimit limits payload) &&
      sha256Hex entry.2 == payload.sha256 &&
      (payload.role != .known .generationMetadata || metadataMatchesGeneration entry.2 m.generation) &&
      decide (Writes entry.1 entry.2.length)

theorem fits_iff {entry : Bytes × Bytes} :
    fits limits m entry = true ↔ ∃ payload, byPath (elements m.payloads) entry.1 = some payload ∧
    entry.2.length = payload.length ∧ entry.2.length ≤ bodyLimit limits payload ∧ sha256Hex entry.2 = payload.sha256 ∧
    (payload.role ≠ .known .generationMetadata ∨ metadataMatchesGeneration entry.2 m.generation = true) ∧
    Writes entry.1 entry.2.length := by
  unfold fits
  split
  · simp_all
  · simp_all [and_assoc]

theorem verifyPayload_of_fits {path body s : Bytes} {p : Progress} {sound : Bool}
    (h : fits limits m (path, body) = true) :
    ∃ p', verifyPayload limits m (aHeader path body.length) p ⟨body ++ s, sound⟩ = .ok (p', ⟨s, sound⟩) ∧
      p'.seen = p.seen ++ [path] ∧ p'.verified.length = p.verified.length + 1 := by
  obtain ⟨payload, hPayload, hLength, hLimit, hDigest, hMetadata, -⟩ := fits_iff.mp h
  have hHeader : validateOuterHeader (aHeader path body.length) = .ok () := rfl
  have hMatches : (decide (payload.role = .known .generationMetadata) && !metadataMatchesGeneration body m.generation) =
      false := by
    rcases hMetadata with hRole | hMatch
    · rw [decide_eq_false hRole, Bool.false_and]
    · rw [hMatch, Bool.not_true, Bool.and_false]
  refine ⟨p.add path payload body, andThen_eq_ok.mpr ⟨hHeader, ?_⟩, rfl, by simp [Progress.add]⟩
  dsimp only [aHeader] at hPayload ⊢
  rw [hPayload]
  exact andThen_eq_ok.mpr ⟨refuse_eq_ok.mpr (bne_eq_false_iff_eq.mpr hLength), Checks.bind_eq_ok.mpr
    ⟨(body, ⟨s, sound⟩), readExactBounded_append hLimit,
    andThen_eq_ok.mpr ⟨refuse_eq_ok.mpr (bne_eq_false_iff_eq.mpr hDigest),
      andThen_eq_ok.mpr ⟨refuse_eq_ok.mpr hMatches, rfl⟩⟩⟩⟩

theorem verifyEntries_laidOut {entries : List (Bytes × Bytes)} {pad : Nat} {p : Progress} {rest : Bytes} {sound : Bool}
    (hFits : ∀ e ∈ entries, fits limits m e = true) (hFresh : (p.seen ++ entries.map Prod.fst).Nodup) :
    ∃ p', verifyEntries parseUstar limits m (entries.map Prod.fst) pad p
      ⟨laidOut pad entries (replicate 1024 0 ++ rest), sound⟩ =
        .ok (p', ⟨rest, sound⟩) ∧ p'.verified.length = p.verified.length + entries.length := by
  induction entries generalizing pad p with
  | nil =>
    refine ⟨p, ?_, rfl⟩
    unfold verifyEntries
    rw [laidOut, next_marker]
  | cons e entries ih =>
    obtain ⟨path, body⟩ := e
    rw [forall_mem_cons] at hFits
    obtain ⟨p₁, hPayload, hSeen, hCount⟩ := @verifyPayload_of_fits limits m path body
      (laidOut (padding body.length) entries (replicate 1024 0 ++ rest)) p sound hFits.1
    obtain ⟨-, -, -, -, -, -, hWrites⟩ := fits_iff.mp hFits.1
    have hNew : p.seen.contains path = false := by
      rw [map_cons, nodup_append] at hFresh
      simpa using fun hSeen => hFresh.2.2 path hSeen path mem_cons_self rfl
    obtain ⟨p', hRest, hAll⟩ := @ih (padding body.length) p₁ hFits.2 (by simpa [hSeen] using hFresh)
    refine ⟨p', ?_, by rw [hAll, hCount, length_cons]; omega⟩
    unfold verifyEntries
    rw [laidOut, next_ustarBlock hWrites]
    refine andThen_eq_ok.mpr ⟨refuse_eq_ok.mpr hNew, ?_⟩
    exact andThen_eq_ok.mpr ⟨refuse_eq_ok.mpr (by simp [aHeader]), Checks.bind_eq_ok.mpr ⟨_, hPayload, hRest⟩⟩

theorem length_laidOut {entries : List (Bytes × Bytes)} (hFits : ∀ e ∈ entries, fits limits m e = true) :
    (laidOut pad entries (replicate 1024 0 ++ rest)).length = tapeLength m
    (entries.map Prod.fst) pad + rest.length := by
  induction entries generalizing pad with
  | nil =>
    rw [laidOut, map_nil, tapeLength, length_append, length_append,
      length_replicate, length_replicate]
    omega
  | cons e entries ih =>
    obtain ⟨path, body⟩ := e
    rw [forall_mem_cons] at hFits
    obtain ⟨payload, hPayload, hLength, -, -, -, hWrites⟩ := fits_iff.mp hFits.1
    dsimp only at hPayload hLength hWrites
    rw [laidOut, map_cons, tapeLength, payloadLength, hPayload, map_some, getD_some, ← hLength]
    simp only [length_append, length_replicate, hWrites.1, ih hFits.2]
    omega

theorem readTail_of_lt {rounds : Nat} (h : rest.length < rounds) : readTail rounds ⟨rest, true⟩ = .ok true := by
  induction rounds generalizing rest with
  | zero => omega
  | succ rounds ih =>
    cases rest with
    | nil => rfl
    | cons b rest => exact ih (by simpa using h)

/-- The content in one raw block of a frame with a checksum. -/
def rawFrame (content : Bytes) : Bytes :=
  let header := content.length * 8 + 1
  [0x28, 0xb5, 0x2f, 0xfd] ++ ([0x04] ++ ([0x58] ++
    (([UInt8.ofNat header, UInt8.ofNat (header / 2 ^ 8), UInt8.ofNat (header / 2 ^ 16)] ++ content) ++
      contentChecksum content)))

/-- A block has at most 128 KiB. -/
theorem isFrame_rawFrame {content : Bytes} (h : content.length ≤ 2 ^ 17) : IsFrame true (rawFrame content) := by
  have hValue : blockValue [UInt8.ofNat (content.length * 8 + 1), UInt8.ofNat ((content.length * 8 + 1) / 2 ^ 8),
      UInt8.ofNat ((content.length * 8 + 1) / 2 ^ 16)] = content.length * 8 + 1 := by
    simp only [blockValue, getD_cons_zero, getD_cons_succ, UInt8.toNat_ofNat']
    omega
  refine @Decides.blocks true true 0x04 [0x58] _ (contentChecksum content) (by decide) (by decide)
    (.last rfl ?_ ?_ ?_) rfl
  · rw [blockType, hValue]
    omega
  · rw [lastBlock, hValue]
    simp only [bne_iff_ne]
    omega
  · rw [blockSize, blockType, hValue, if_neg (by omega)]
    omega

def digestOfA : Bytes := lit "ca978112ca1bbdcafac231b39a23dc4da786eff8147c4e72b9807785afee48bb"

def someMetadata : Bytes :=
  lit "\x7b\"capsule\":\"capsule\",\"lineage\":\x7b\"branch\":\"main\"\x7d," ++
    lit "\"generation\":\x7b\"generation\":1,\"archiveSHA256\":\"" ++ digestOfA ++
    lit "\"\x7d,\"verified\":\x7b\"remoteBytesVerified\":true\x7d\x7d"

def digestOfMetadata : Bytes := lit "783204049ebbfc16ab36f136f7f19253caadc01429c2e87200836c56f28856b6"

def aKitPayload (role : PayloadRole) (name path : String) (platform : Option Platform) (executable : Bytes) :
    PayloadIdentity :=
  { aPayload role name path platform executable with size := 1, sha256 := digestOfA }

def aKitManifest : Manifest :=
  let m := aManifest [] ⟨1, 0⟩
  { m with
    generation := { m.generation with ref := ⟨1, digestOfA⟩ }
    payloads := some [aKitPayload .camp "camp" "payloads/camp" (some aPlatform) digestOfA,
      aKitPayload .devPodProvider "provider" "payloads/provider" (some aPlatform) digestOfA,
      aKitPayload .generationArchive "archive" "payloads/archive" none [],
      { aKitPayload .generationMetadata "metadata" "payloads/metadata" none [] with
        size := 202
        sha256 := digestOfMetadata },
      aKitPayload .runtime "runtime" "payloads/runtime" (some aPlatform) digestOfA,
      aKitPayload .tool "devpod" "payloads/devpod" (some aPlatform) digestOfA,
      aKitPayload .tool "hauler" "payloads/hauler" (some aPlatform) digestOfA]
    lineage := { m.lineage with sourceGeneration := ⟨1, digestOfA⟩ } }

def someBodies : List (Bytes × Bytes) :=
  [(lit "payloads/archive", lit "a"), (lit "payloads/camp", lit "a"), (lit "payloads/devpod", lit "a"),
   (lit "payloads/hauler", lit "a"), (lit "payloads/metadata", someMetadata), (lit "payloads/provider", lit "a"),
   (lit "payloads/runtime", lit "a")]

theorem fits_someBodies : ∀ e ∈ someBodies, fits defaultArchiveLimits aKitManifest e = true := by decide +kernel

theorem paths_someBodies : payloadPaths aKitManifest = someBodies.map Prod.fst := by decide

theorem canonical_aKitManifest : canonicalManifest aKitManifest = aKitManifest := by decide

theorem exists_text : ∃ text, marshalCanonical aKitManifest = .ok text ∧ decodeCanonical text = .ok aKitManifest ∧
    text.length = 3290 := by
  have hValid := validate_eq_ok.mp (show validate aKitManifest = .ok () by decide +kernel)
  have hTextual : aKitManifest.Textual := by
    unfold Manifest.Textual
    decide +kernel
  have hLength : (marshal aKitManifest).map List.length = some 3290 := by decide +kernel
  obtain ⟨text, hText, hLength⟩ := map_eq_some_iff.mp hLength
  have hMarshal : marshalCanonical aKitManifest = .ok text := by
    rw [marshalCanonical_eq_ok, canonical_aKitManifest]
    exact ⟨hValid, hText⟩
  have hCanon := (canon_canonicalManifest hValid).mpr hTextual
  rw [canonical_aKitManifest] at hCanon
  refine ⟨text, hMarshal, decodeCanonical_eq_ok.mpr ⟨hLength.trans_le (by decide), ?_, hMarshal⟩, hLength⟩
  rw [unmarshal_marshal hText, hCanon]

theorem tapeLength_eq (m : Manifest) (paths : List Bytes) (pad : Nat) :
    tapeLength m paths pad = pad + tapeLength m paths 0 := by
  cases paths with
  | nil => simp only [tapeLength, Nat.zero_add]
  | cons path paths =>
    simp only [tapeLength]
    omega

theorem writes_manifest : Writes (lit "manifest.json") 3290 := by decide +kernel

/-- The kit of the manifest, with some bytes behind the end marker. -/
def aKit (text rest : Bytes) : Bytes :=
  ustarBlock (lit "manifest.json") text.length ++
    (text ++ laidOut (padding text.length) someBodies (replicate 1024 0 ++ rest))

theorem length_aKit (hText : text.length = 3290) (rest : Bytes) : (aKit text rest).length =
    512 + text.length + tapeLength aKitManifest (payloadPaths aKitManifest) (padding text.length) + rest.length := by
  rw [aKit, length_append, length_append, length_laidOut fits_someBodies,
    paths_someBodies, hText, writes_manifest.1]
  omega

theorem verifyStream_aKit (hDecode : decodeCanonical text = .ok aKitManifest) (hText : text.length = 3290)
    (hRest : rest.length ≤ 7) :
    ∃ p, verifyStream parseUstar defaultArchiveLimits ⟨aKit text rest, true⟩ =
    .ok (aKitManifest, p) := by
  have hShort : text.length ≤ defaultArchiveLimits.maxManifestBytes := hText.trans_le (by decide)
  have hManifest : readManifest parseUstar defaultArchiveLimits ⟨aKit text rest, true⟩ =
      .ok (aKitManifest, text.length,
      ⟨laidOut (padding text.length) someBodies (replicate 1024 0 ++ rest), true⟩) := by
    have hNext := @next_ustarBlock (lit "manifest.json") text.length 0 (hText ▸ writes_manifest)
      (text ++ laidOut (padding text.length) someBodies (replicate 1024 0 ++ rest)) true
    rw [replicate_zero, nil_append] at hNext
    rw [readManifest, aKit, hNext]
    refine andThen_eq_ok.mpr ⟨rfl, andThen_eq_ok.mpr ⟨rfl, andThen_eq_ok.mpr ⟨refuse_eq_ok.mpr ?_, Checks.bind_eq_ok.mpr
      ⟨(text, _), readExactBounded_append hShort,
      Checks.bind_eq_ok.mpr ⟨aKitManifest, mapError_eq_ok.mpr hDecode, rfl⟩⟩⟩⟩⟩
    exact decide_eq_false (Nat.not_lt.mpr hShort)
  have hRoom : decide (defaultArchiveLimits.maxOuterEntries < (elements aKitManifest.payloads).length + 1) =
      false := by decide
  have hNodup : (([] : List Bytes) ++ someBodies.map Prod.fst).Nodup := by decide
  obtain ⟨p, hEntries, hCount⟩ := @verifyEntries_laidOut _ aKitManifest someBodies
      (padding text.length) ⟨[], [], []⟩ rest true
    fits_someBodies hNodup
  rw [← paths_someBodies] at hEntries
  refine ⟨p, andThen_eq_ok.mpr
    ⟨by decide, Checks.bind_eq_ok.mpr ⟨_, hManifest, andThen_eq_ok.mpr ⟨refuse_eq_ok.mpr hRoom,
    Checks.bind_eq_ok.mpr ⟨_, hEntries, andThen_eq_ok.mpr ⟨refuse_eq_ok.mpr (bne_eq_false_iff_eq.mpr hCount),
      Checks.bind_eq_ok.mpr ⟨true, readTail_of_lt (Nat.lt_succ_of_le hRest), rfl⟩⟩⟩⟩⟩⟩⟩

theorem exists_verified {rest : Bytes} (hRest : rest.length ≤ 7) :
    ∃ text input v, marshalCanonical aKitManifest = .ok text ∧ text.length = 3290 ∧
      verify parseUstar defaultArchiveLimits none input = .ok v ∧ v.manifest = aKitManifest ∧
      input.source.bytes = rawFrame (aKit text rest) ∧ input.stream.content = aKit text rest := by
  obtain ⟨text, hMarshal, hDecode, hText⟩ := exists_text
  have hTape : tapeLength aKitManifest (payloadPaths aKitManifest) 0 = 8192 := by
    rw [paths_someBodies]
    decide +kernel
  have hPad : padding text.length < 512 := Nat.mod_lt _ (by omega)
  have hSmall : (aKit text rest).length ≤ 2 ^ 17 := by
    rw [length_aKit hText, tapeLength_eq, hTape]
    omega
  obtain ⟨p, hStream⟩ := verifyStream_aKit hDecode hText hRest
  have hBytes : (inOnePiece (rawFrame (aKit text rest)) false (cons_ne_nil _ _)).bytes =
      rawFrame (aKit text rest) := by
    show [rawFrame (aKit text rest)].flatten = _
    rw [flatten_singleton]
  have hFrame := isFrame_rawFrame hSmall
  rw [← hBytes] at hFrame
  obtain ⟨input, hSource, hInput, hEnd⟩ := exists_input hFrame rfl (aKit text rest)
  rw [← hInput] at hStream
  refine ⟨text, input, ⟨aKitManifest, .valid, trustResultUnverified, .notVerified, p.verified⟩,
    hMarshal, hText, ?_, rfl,
    by rw [hSource, hBytes], by rw [hInput]⟩
  exact Checks.bind_eq_ok.mpr ⟨_, hStream, andThen_eq_ok.mpr ⟨mapError_eq_ok.mpr hEnd, rfl⟩⟩

end Samples

end Camp.CampKit
