import Camp.CampKit.Manifest
import Camp.Wire.Total
import Camp.Wire.Words

/-!
# One text for a manifest

What a valid manifest says does not depend on the order of its lists or on the zones of its
times. Its text is read back if it is short, its times have years of four digits and its
strings are text.
-/

namespace Camp.CampKit

open Wire Wire.Utf8 Program Program.Checks List

section Valid

variable {platforms platforms' : List Platform} {l l' : List PayloadIdentity}
variable {g : GenerationIdentity}

structure PayloadsValid (platforms : List Platform) (l : List PayloadIdentity) : Prop where
  valid : ∀ p ∈ l, validatePayload platforms p = .ok ()
  total : l = [] ∨ (l.map PayloadIdentity.length).sum ≤ maxInt64
  apart : l.Pairwise fun a b => a.path ≠ b.path ∧ collides a.path b.path = false
  keys : (l.map payloadKey).Nodup

theorem validateAmong_eq_ok {before : List PayloadIdentity} {p : PayloadIdentity} :
    validateAmong platforms before p = .ok () ↔ validatePayload platforms p = .ok () ∧
      (before.map PayloadIdentity.length).sum + p.length ≤ maxInt64 ∧
      (∀ b ∈ before, b.path ≠ p.path ∧ collides b.path p.path = false) ∧
      ∀ b ∈ before, payloadKey b ≠ payloadKey p := by
  have hCollides (a b : Bytes) : collides a b = collides b a := Bool.or_comm _ _
  simp only [validateAmong, andThen_eq_ok, refuse_eq_ok, each_eq_ok, decide_eq_false_iff_not,
    not_lt, beq_eq_false_iff_ne, contains_eq_mem, mem_map, not_exists, not_and]
  constructor
  · rintro ⟨hValid, hTotal, hPaths, hKeys⟩
    exact ⟨hValid, hTotal,
      fun b hb => ⟨(hPaths b hb).1.symm, (hCollides _ _).trans (hPaths b hb).2⟩, hKeys⟩
  · rintro ⟨hValid, hTotal, hPaths, hKeys⟩
    exact ⟨hValid, hTotal,
      fun b hb => ⟨(hPaths b hb).1.symm, (hCollides _ _).trans (hPaths b hb).2⟩, hKeys⟩

theorem validatePayloads_eq_ok : validatePayloads platforms l = .ok () ↔ PayloadsValid platforms l := by
  rw [validatePayloads, scan_eq_ok]
  simp only [nil_append, validateAmong_eq_ok]
  constructor
  · intro h
    exact ⟨forall_split_mem.mp fun front a back hSplit => (h front a back hSplit).1,
      forall_split_sum.mp fun front a back hSplit => (h front a back hSplit).2.1,
      forall_split_pairwise.mp fun front a back hSplit => (h front a back hSplit).2.2.1,
      pairwise_map.mpr
        (forall_split_pairwise.mp fun front a back hSplit => (h front a back hSplit).2.2.2)⟩
  · intro h front a back hSplit
    exact ⟨forall_split_mem.mpr h.valid front a back hSplit,
      forall_split_sum.mpr h.total front a back hSplit,
      forall_split_pairwise.mpr h.apart front a back hSplit,
      forall_split_pairwise.mpr (pairwise_map.mp h.keys) front a back hSplit⟩

theorem validatePlatforms_eq_ok : validatePlatforms platforms = .ok () ↔
    (platforms ≠ [] ∧ platforms.length ≤ maxPlatforms) ∧
      (∀ p ∈ platforms, validatePlatform p = .ok ()) ∧ (platforms.map platformKey).Nodup := by
  simp only [validatePlatforms, andThen_eq_ok, refuse_eq_ok, scan_eq_ok, Bool.or_eq_false_iff,
    nil_append, decide_eq_false_iff_not, not_lt, isEmpty_eq_false_iff,
    contains_eq_mem, mem_map, not_exists, not_and]
  refine and_congr_right fun _ => ?_
  constructor
  · intro h
    exact ⟨forall_split_mem.mp fun front a back hSplit => (h front a back hSplit).1,
      pairwise_map.mpr
        (forall_split_pairwise.mp fun front a back hSplit => (h front a back hSplit).2)⟩
  · rintro ⟨hValid, hKeys⟩ front a back hSplit
    exact ⟨forall_split_mem.mpr hValid front a back hSplit,
      forall_split_pairwise.mpr (pairwise_map.mp hKeys) front a back hSplit⟩

def ImageValid (platforms : List Platform) (image : ImageIdentity) : Prop :=
  validateImageRole image = .ok () ∧ supported platforms image.platform = true ∧
    validateBoundedString "image reference" image.reference = .ok () ∧
    validateOCIReference image.reference image.digest = .ok ()

def OnePlatform (a b : ImageIdentity) : Prop :=
  a.reference = b.reference → platformKey a.platform = platformKey b.platform

instance : Std.Symm OnePlatform := ⟨fun _ _ h hSame => (h hSame.symm).symm⟩

structure ImagesValid (platforms : List Platform) (images : List ImageIdentity) : Prop where
  valid : ∀ image ∈ images, ImageValid platforms image
  keys : (images.map imageKey).Nodup
  apart : images.Pairwise OnePlatform

theorem seenElsewhere_eq_false {before : List ImageIdentity} {image : ImageIdentity}
    (hBefore : before.Pairwise OnePlatform) :
    seenElsewhere before image = false ↔ ∀ b ∈ before, OnePlatform b image := by
  unfold seenElsewhere
  cases hFind : before.reverse.find? (·.reference == image.reference) with
  | none =>
    simp only [true_iff]
    intro b hb hSame
    exact absurd (beq_iff_eq.mpr hSame) (List.find?_eq_none.mp hFind b (mem_reverse.mpr hb))
  | some prior =>
    have hPrior : prior ∈ before := mem_reverse.mp (mem_of_find?_eq_some hFind)
    have hReference : prior.reference = image.reference := by
      have hFound := List.find?_some hFind
      exact beq_iff_eq.mp hFound
    simp only [bne_eq_false_iff_eq]
    constructor
    · intro hKey b hb hSame
      have hPair : OnePlatform b prior :=
        hBefore.forall_of_forall (fun _ _ _ => rfl) hb hPrior
      exact (hPair (hSame.trans hReference.symm)).trans hKey
    · intro h
      exact h prior hPrior hReference

theorem scan_validateImage_eq_ok {images : List ImageIdentity} :
    scan (validateImage platforms) [] images = .ok () ↔ ImagesValid platforms images := by
  have hCheck (before : List ImageIdentity) (image : ImageIdentity) :
      validateImage platforms before image = .ok () ↔ ImageValid platforms image ∧
        (∀ b ∈ before, imageKey b ≠ imageKey image) ∧ seenElsewhere before image = false := by
    simp only [validateImage, ImageValid, andThen_eq_ok, refuse_eq_ok, Bool.not_eq_false',
      contains_eq_mem, decide_eq_false_iff_not, mem_map, not_exists, not_and, and_assoc]
  rw [scan_eq_ok]
  simp only [nil_append, hCheck]
  constructor
  · intro h
    refine ⟨forall_split_mem.mp fun front a back hSplit => (h front a back hSplit).1,
      pairwise_map.mpr
        (forall_split_pairwise.mp fun front a back hSplit => (h front a back hSplit).2.1), ?_⟩
    -- Each image agrees with the last one of its reference, and so with all before.
    induction images using List.reverseRecOn with
    | nil => exact .nil
    | append_singleton images image ih =>
      have hFront : images.Pairwise OnePlatform := ih fun front a back hSplit =>
        h front a (back ++ [image]) (by rw [hSplit]; simp)
      rw [pairwise_append]
      refine ⟨hFront, pairwise_singleton _ _, ?_⟩
      intro b hb c hc
      rw [mem_singleton.mp hc]
      exact (seenElsewhere_eq_false hFront).mp (h images image [] rfl).2.2 b hb
  · rintro h front a back rfl
    have hFront : front.Pairwise OnePlatform := (pairwise_append.mp h.apart).1
    exact ⟨forall_split_mem.mpr h.valid front a back rfl,
      forall_split_pairwise.mpr (pairwise_map.mp h.keys) front a back rfl,
      (seenElsewhere_eq_false hFront).mpr (forall_split_pairwise.mpr h.apart front a back rfl)⟩

theorem about_eq_ok {format : String} {args : List Bytes} {x : Checked} :
    about format args x = .ok () ↔ x = .ok () := by
  cases x with
  | ok u => rfl
  | error e => simp [about]

theorem bindsArchive_eq_ok : bindsArchive g l = .ok () ↔
    ∃ archive, l = [archive] ∧ archive.path = g.archivePath ∧
      archive.sha256 = g.ref.archiveSHA256 := by
  unfold bindsArchive
  split
  · simp
  · rename_i hOther
    simpa using fun a hl => absurd hl (hOther a)

theorem bindsMetadata_eq_ok : bindsMetadata g l = .ok () ↔
    ∃ metadata, l = [metadata] ∧ metadata.path = g.metadataPath := by
  unfold bindsMetadata
  split
  · simp
  · rename_i hOther
    simpa using fun a hl => absurd hl (hOther a)

end Valid

section Order

variable {platforms platforms' : List Platform} {l l' : List PayloadIdentity}
variable {trust : TrustMetadata} {exportedAt : Time}

theorem supported_perm (h : platforms'.Perm platforms) : supported platforms' = supported platforms := by
  funext p
  unfold supported
  rw [Bool.eq_iff_iff, contains_iff_mem, contains_iff_mem]
  exact (h.map platformKey).mem_iff

theorem validatePayload_perm (h : platforms'.Perm platforms) :
    validatePayload platforms' = validatePayload platforms := by
  funext p
  simp only [validatePayload, validatePayloadPlatform, supported_perm h]

theorem PayloadsValid.perm (h : PayloadsValid platforms l) (hPlatforms : platforms'.Perm platforms)
    (hPerm : l'.Perm l) : PayloadsValid platforms' l' where
  valid := by
    rw [validatePayload_perm hPlatforms]
    exact fun p hp => h.valid p (hPerm.mem_iff.mp hp)
  total := by
    rcases h.total with rfl | hTotal
    · exact .inl hPerm.eq_nil
    · right
      rwa [(hPerm.map PayloadIdentity.length).sum_eq]
  apart := by
    refine (hPerm.pairwise_iff ?_).mpr h.apart
    rintro a b ⟨hPath, hCollides⟩
    exact ⟨hPath.symm, (Bool.or_comm _ _).trans hCollides⟩
  keys := (hPerm.map _).nodup_iff.mpr h.keys

theorem ImagesValid.perm {images images' : List ImageIdentity} (h : ImagesValid platforms images)
    (hPlatforms : platforms'.Perm platforms) (hPerm : images'.Perm images) :
    ImagesValid platforms' images' where
  valid := by
    intro image hImage
    have hValid := h.valid image (hPerm.mem_iff.mp hImage)
    unfold ImageValid at hValid ⊢
    rwa [supported_perm hPlatforms]
  keys := (hPerm.map _).nodup_iff.mpr h.keys
  apart := (hPerm.pairwise_iff fun h => Std.Symm.symm _ _ h).mpr h.apart

theorem byRole_perm (h : l'.Perm l) (role : PayloadRole) : (byRole l' role).Perm (byRole l role) :=
  h.filter _

theorem byRole_singleton {role : PayloadRole} {p : PayloadIdentity} (h : l'.Perm l) (hOnly : byRole l role = [p]) :
    byRole l' role = [p] := perm_singleton.mp ((byRole_perm h role).trans (.of_eq hOnly))

theorem closureCount_perm (h : l'.Perm l) (key : Bytes) (role : PayloadRole) (name : String) :
    closureCount l' key role name = closureCount l key role name := (byRole_perm h role).countP_eq _

theorem validatePlatforms_perm {platforms platforms' : List Platform}
    (hPerm : platforms'.Perm platforms) (h : validatePlatforms platforms = .ok ()) :
    validatePlatforms platforms' = .ok () := by
  rw [validatePlatforms_eq_ok] at h ⊢
  obtain ⟨⟨hSome, hCount⟩, hValid, hKeys⟩ := h
  refine ⟨⟨?_, hPerm.length_eq ▸ hCount⟩, fun p hp => hValid p (hPerm.mem_iff.mp hp),
    (hPerm.map _).nodup_iff.mpr hKeys⟩
  rintro rfl
  exact hSome hPerm.symm.eq_nil

theorem bindsEvidence_eq_ok :
    bindsEvidence trust exportedAt l = .ok () ↔ hasDigest trust.verifier = true ∧
      verifiedBefore exportedAt trust.verifiedAt = true ∧ trust.evidencePath ≠ [] ∧
      l.map (·.path) = [trust.evidencePath] := by
  simp only [bindsEvidence, andThen_eq_ok, refuse_eq_ok, Bool.or_eq_false_iff, Bool.not_eq_false',
    bne_eq_false_iff_eq, isEmpty_eq_false_iff]
  refine and_congr_right fun _ => and_congr_right fun _ => ?_
  constructor
  · rintro ⟨⟨-, hPath⟩, hList⟩
    exact ⟨hPath, hList⟩
  · rintro ⟨hPath, hList⟩
    exact ⟨⟨by simpa using congrArg List.length hList, hPath⟩, hList⟩

/-- Another manifest with the same lists in other orders and the same instants in other zones. -/
structure Alike (m m' : Manifest) : Prop where
  schemaVersion : m'.schemaVersion = m.schemaVersion
  generation : m'.generation = m.generation
  platforms : (elements m'.supportedPlatforms).Perm (elements m.supportedPlatforms)
  payloads : (elements m'.payloads).Perm (elements m.payloads)
  images : (elements m'.images).Perm (elements m.images)
  trust : m'.trust.utc = m.trust.utc
  lineage : m'.lineage.utc = m.lineage.utc

variable {m m' : Manifest}

theorem verifiedBefore_utc (exportedAt : Time) (verifiedAt : Option Time) :
    verifiedBefore exportedAt.utc (verifiedAt.map Time.utc) = verifiedBefore exportedAt verifiedAt := by
  cases verifiedAt <;> rfl

theorem validateLineage_utc (lineage : KitLineage) (source : GenerationRef) :
    validateLineage lineage.utc source = validateLineage lineage source := rfl

theorem validateEvidence_utc (trust : TrustMetadata) (exportedAt : Time) (evidence : List PayloadIdentity) :
    validateEvidence trust.utc exportedAt.utc evidence = validateEvidence trust exportedAt evidence := by
  simp only [validateEvidence, bindsEvidence, TrustMetadata.utc, verifiedBefore_utc, Option.isSome_map]

theorem validateEvidence_perm (hPerm : l'.Perm l) (h : validateEvidence trust exportedAt l = .ok ()) :
    validateEvidence trust exportedAt l' = .ok () := by
  have hBound (hBinds : bindsEvidence trust exportedAt l = .ok ()) : bindsEvidence trust exportedAt l' = .ok () := by
    rw [bindsEvidence_eq_ok] at hBinds ⊢
    obtain ⟨hVerifier, hTime, hPath, hList⟩ := hBinds
    exact ⟨hVerifier, hTime, hPath, perm_singleton.mp ((hPerm.map (·.path)).trans (.of_eq hList))⟩
  obtain ⟨status, verifier, verifiedAt, evidencePath⟩ := trust
  unfold validateEvidence at h ⊢
  rcases status with status | ⟨status, hOther⟩
  · cases status with
    | unverified =>
      simp only [refuse_eq_ok, Bool.or_eq_false_iff, Bool.not_eq_false', List.isEmpty_iff] at h ⊢
      exact ⟨h.1, List.Perm.eq_nil (h.2 ▸ hPerm)⟩
    | verified => exact hBound h
    | rejected => exact hBound h
  · cases h

structure Valid (m : Manifest) : Prop where
  schemaVersion : m.schemaVersion = manifestSchemaVersion
  generation : validateGeneration m.generation = .ok ()
  platforms : validatePlatforms (elements m.supportedPlatforms) = .ok ()
  payloadCount : elements m.payloads ≠ [] ∧ (elements m.payloads).length ≤ maxPayloads
  imageCount : (elements m.images).length ≤ maxImages
  lineage : validateLineage m.lineage m.generation.ref = .ok ()
  payloads : PayloadsValid (elements m.supportedPlatforms) (elements m.payloads)
  archive : ∃ archive, byRole (elements m.payloads) .generationArchive = [archive] ∧
    archive.path = m.generation.archivePath ∧ archive.sha256 = m.generation.ref.archiveSHA256
  metadata : ∃ metadata, byRole (elements m.payloads) .generationMetadata = [metadata] ∧
    metadata.path = m.generation.metadataPath
  closure : ∀ platform ∈ elements m.supportedPlatforms, ∀ need ∈ required,
    closureCount (elements m.payloads) (platformKey platform) need.1 need.2 = 1
  images : ImagesValid (elements m.supportedPlatforms) (elements m.images)
  rooms : ∀ platform ∈ elements m.supportedPlatforms,
    roomCount (elements m.images) (platformKey platform) = 1
  verifier : validateBoundedString "verifier" m.trust.verifier = .ok ()
  evidence : validateEvidence m.trust m.lineage.exportedAt
    (byRole (elements m.payloads) .trustEvidence) = .ok ()

theorem validate_eq_ok : validate m = .ok () ↔ Valid m := by
  simp only [validate, validateGenerationBindings, validateExecutableClosure, validateImages,
    validateTrust, andThen_eq_ok, refuse_eq_ok, each_eq_ok, validatePayloads_eq_ok,
    scan_validateImage_eq_ok, bindsArchive_eq_ok, bindsMetadata_eq_ok, bne_eq_false_iff_eq,
    Bool.or_eq_false_iff, decide_eq_false_iff_not, not_lt, isEmpty_eq_false_iff]
  constructor
  · rintro ⟨hSchema, hGeneration, hPlatforms, hPayloadCount, hImageCount, hLineage, hPayloads,
      ⟨hArchive, hMetadata⟩, hClosure, ⟨hImages, hRooms⟩, hVerifier, hEvidence⟩
    exact ⟨hSchema, hGeneration, hPlatforms, hPayloadCount, hImageCount, hLineage, hPayloads,
      hArchive, hMetadata, hClosure, hImages, hRooms, hVerifier, hEvidence⟩
  · intro h
    exact ⟨h.schemaVersion, h.generation, h.platforms, h.payloadCount, h.imageCount, h.lineage,
      h.payloads, ⟨h.archive, h.metadata⟩, h.closure, ⟨h.images, h.rooms⟩, h.verifier, h.evidence⟩

theorem Valid.of_alike (h : Valid m) (hAlike : Alike m m') : Valid m' where
  schemaVersion := hAlike.schemaVersion.trans h.schemaVersion
  generation := hAlike.generation ▸ h.generation
  platforms := validatePlatforms_perm hAlike.platforms h.platforms
  payloadCount := by
    refine ⟨fun hNil => h.payloadCount.1 (hNil ▸ hAlike.payloads).symm.eq_nil, ?_⟩
    exact hAlike.payloads.length_eq.trans_le h.payloadCount.2
  imageCount := hAlike.images.length_eq.trans_le h.imageCount
  lineage := by
    rw [hAlike.generation, ← validateLineage_utc, hAlike.lineage, validateLineage_utc]
    exact h.lineage
  payloads := h.payloads.perm hAlike.platforms hAlike.payloads
  archive := by
    obtain ⟨archive, hOnly, hPath, hDigest⟩ := h.archive
    rw [hAlike.generation]
    exact ⟨archive, byRole_singleton hAlike.payloads hOnly, hPath, hDigest⟩
  metadata := by
    obtain ⟨metadata, hOnly, hPath⟩ := h.metadata
    rw [hAlike.generation]
    exact ⟨metadata, byRole_singleton hAlike.payloads hOnly, hPath⟩
  closure := by
    intro platform hPlatform need hNeed
    rw [closureCount_perm hAlike.payloads]
    exact h.closure platform (hAlike.platforms.mem_iff.mp hPlatform) need hNeed
  images := h.images.perm hAlike.platforms hAlike.images
  rooms := by
    intro platform hPlatform
    rw [roomCount, hAlike.images.countP_eq]
    exact h.rooms platform (hAlike.platforms.mem_iff.mp hPlatform)
  verifier := by
    have hVerifier := congrArg TrustMetadata.verifier hAlike.trust
    rw [show m'.trust.verifier = m.trust.verifier from hVerifier]
    exact h.verifier
  evidence := by
    have hTime := congrArg KitLineage.exportedAt hAlike.lineage
    rw [← validateEvidence_utc, hAlike.trust, show m'.lineage.exportedAt.utc = m.lineage.exportedAt.utc from hTime,
      validateEvidence_utc]
    exact validateEvidence_perm (byRole_perm hAlike.payloads _) h.evidence

end Order

section Canonical

variable {m m' : Manifest}
variable {α : Type}
variable {key : α → Bytes} {l l' : List α}

theorem sortBy_perm (key : α → Bytes) (l : List α) : (sortBy key l).Perm l := sortOn_perm _ l

theorem elements_sorted (key : α → Bytes) (l : List α) : elements ((appended l).map (sortBy key)) = sortBy key l := by
  cases l <;> rfl

theorem alike_canonicalManifest (m : Manifest) : Alike m (canonicalManifest m) where
  schemaVersion := rfl
  generation := rfl
  platforms := (Perm.of_eq (elements_sorted ..)).trans (sortBy_perm _ _)
  payloads := sortBy_perm _ _
  images := (Perm.of_eq (elements_sorted ..)).trans (sortBy_perm _ _)
  trust := by
    show TrustMetadata.utc m.trust.utc = m.trust.utc
    simp only [TrustMetadata.utc, Option.map_map]
    rfl
  lineage := rfl

theorem zero_notMem_path {path : Bytes} (h : validatePayloadPath path = .ok ()) : 0 ∉ path := by
  simp only [validatePayloadPath, andThen_eq_ok, refuse_eq_ok, Bool.or_eq_false_iff, Bool.not_eq_false'] at h
  obtain ⟨⟨-, hText⟩, hRunes, -⟩ := h
  intro hZero
  rw [eq_encode_of_symbols (symbols_eq_map_some hText)] at hZero
  have hRune : 0 ∈ runes path := mem_map.mpr ⟨_, ascii_mem_encode (by decide) hZero, rfl⟩
  exact any_eq_false.mp hRunes 0 hRune (by decide)

theorem nodup_payloadSortKey {platforms : List Platform} {l : List PayloadIdentity} (h : PayloadsValid platforms l) :
    (l.map payloadSortKey).Nodup := by
  refine pairwise_map.mpr (h.apart.imp_of_mem fun {a b} ha hb hApart hSame => hApart.1 ?_)
  have hZero (p : PayloadIdentity) (hp : p ∈ l) : 0 ∉ p.path := by
    have hValid := h.valid p hp
    simp only [validatePayload, andThen_eq_ok, about_eq_ok] at hValid
    exact zero_notMem_path hValid.2.2.2.1
  have hSplit (p : PayloadIdentity) : payloadSortKey p = payloadKey p ++ 0 :: p.path := by simp [payloadSortKey]
  rw [hSplit, hSplit] at hSame
  exact (Words.append_cons_inj_right (hZero a ha) (hZero b hb) hSame).2

theorem sortBy_eq_of_perm (hPerm : l'.Perm l) (h : (l.map key).Nodup) : sortBy key l' = sortBy key l := by
  refine (sortOn_eq_of_perm hPerm.symm ?_).symm
  exact pairwise_map.mpr ((pairwise_map.mp h).imp fun hApart hSame => hApart (bytewise_injective hSame))

theorem sorted_eq_of_perm (hPerm : l'.Perm l) (h : (l.map key).Nodup) :
    (appended l').map (sortBy key) = (appended l).map (sortBy key) := by
  have hEmpty : l'.isEmpty = l.isEmpty := by
    rw [Bool.eq_iff_iff, isEmpty_iff_length_eq_zero, isEmpty_iff_length_eq_zero, hPerm.length_eq]
  unfold appended
  rw [hEmpty]
  split_ifs
  · rfl
  · exact congrArg some (sortBy_eq_of_perm hPerm h)

theorem canonicalManifest_of_alike (h : Valid m) (hAlike : Alike m m') :
    canonicalManifest m' = canonicalManifest m := by
  have hPlatforms := sorted_eq_of_perm hAlike.platforms (validatePlatforms_eq_ok.mp h.platforms).2.2
  have hPayloads := sortBy_eq_of_perm hAlike.payloads (nodup_payloadSortKey h.payloads)
  have hImages := sorted_eq_of_perm hAlike.images h.images.keys
  simp only [canonicalManifest, hPlatforms, hPayloads, hImages, hAlike.schemaVersion, hAlike.generation,
    hAlike.trust, hAlike.lineage]

end Canonical

section Strings

variable {p : PayloadIdentity} {image : ImageIdentity}

def platformStrings (p : Platform) : List Bytes := [p.os, p.architecture, p.variant]

def PayloadIdentity.strings (p : PayloadIdentity) : List Bytes :=
  [p.name, p.version, p.repository, p.commit] ++ p.platform.toList.flatMap platformStrings ++
    [p.path, p.sha256, p.executableSHA256, p.mediaType]

def ImageIdentity.strings (image : ImageIdentity) :
    List Bytes := [image.reference, image.digest] ++ platformStrings image.platform

def GenerationIdentity.strings (g : GenerationIdentity) : List Bytes :=
  [g.capsule, g.branch, g.ref.archiveSHA256] ++ g.parent.toList.map (·.archiveSHA256) ++ [g.archivePath, g.metadataPath]

def Manifest.strings (m : Manifest) : List Bytes :=
  m.generation.strings ++ (elements m.supportedPlatforms).flatMap platformStrings ++
    (elements m.payloads).flatMap PayloadIdentity.strings ++ (elements m.images).flatMap ImageIdentity.strings ++
    [m.trust.verifier, m.trust.evidencePath, m.lineage.kitID, m.lineage.sourceGeneration.archiveSHA256,
    m.lineage.parentKitSHA256]

def Manifest.Textual (m : Manifest) : Prop := ∀ s ∈ m.strings, sanitize s = s

theorem canon_platform_eq_self (p : Platform) : canon p = p ↔ ∀ s ∈ platformStrings p, sanitize s = s := by
  show Platform.mk (sanitize p.os) (sanitize p.architecture) (Omittable.policy.keep p.variant) = p ↔ _
  rw [keep_bytes]
  cases p
  simp [platformStrings]

theorem canon_ref_eq_self (r : GenerationRef) : canon r = r ↔ sanitize r.archiveSHA256 = r.archiveSHA256 := by
  show GenerationRef.mk r.generation (sanitize r.archiveSHA256) = r ↔ _
  cases r
  simp

theorem PayloadIdentity.canon_eq_self {role : PayloadRole} (hRole : p.role = .known role) :
    canon p = p ↔ ∀ s ∈ p.strings, sanitize s = s := by
  have hPlatform : p.platform.map canon = p.platform ↔ ∀ s ∈ p.platform.toList.flatMap platformStrings,
      sanitize s = s := by
    cases p.platform <;> simp [canon_platform_eq_self]
  show PayloadIdentity.mk (Open.codec.canon p.role) (sanitize p.name) (Omittable.policy.keep p.version)
    (Omittable.policy.keep p.repository) (Omittable.policy.keep p.commit)
      (Omittable.policy.keep p.platform) (sanitize p.path)
    p.size (sanitize p.sha256) (Omittable.policy.keep p.executableSHA256) (sanitize p.mediaType) = p ↔ _
  rw [keep_bytes, keep_bytes, keep_bytes, keep_bytes, keep_option, hRole, Open.canon_known]
  obtain ⟨_, name, version, repository, commit, platform, path, size, digest, executable, media⟩ := p
  cases hRole
  simp only [mk.injEq, strings, hPlatform, forall_mem_append, forall_mem_cons,
    not_mem_nil, false_implies,
    implies_true, and_true, true_and, and_assoc]

theorem ImageIdentity.canon_eq_self {role : ImageRole} (hRole : image.role = .known role) :
    canon image = image ↔ ∀ s ∈ image.strings, sanitize s = s := by
  show ImageIdentity.mk (Open.codec.canon image.role) (sanitize image.reference)
      (sanitize image.digest) (canon image.platform) =
    image ↔ _
  rw [hRole, Open.canon_known]
  obtain ⟨_, reference, digest, platform⟩ := image
  cases hRole
  simp only [mk.injEq, strings, canon_platform_eq_self, forall_mem_append, forall_mem_cons, not_mem_nil,
    false_implies, implies_true, and_true, true_and, and_assoc]

theorem GenerationIdentity.canon_eq_self (g : GenerationIdentity) : canon g = g ↔ ∀ s ∈ g.strings, sanitize s = s := by
  have hParent : g.parent.map canon = g.parent ↔ ∀ s ∈ g.parent.toList.map (·.archiveSHA256), sanitize s = s := by
    cases g.parent <;> simp [canon_ref_eq_self]
  show GenerationIdentity.mk (sanitize g.capsule) (sanitize g.branch) (canon g.ref) (Omittable.policy.keep g.parent)
    (sanitize g.archivePath) (sanitize g.metadataPath) = g ↔ _
  rw [keep_option]
  cases g
  simp only [mk.injEq, strings, hParent, canon_ref_eq_self, forall_mem_append,
    forall_mem_cons, not_mem_nil,
    false_implies, implies_true, and_true, and_assoc]

theorem canon_slice_eq_self {α : Type} [Wired α] {strings : α → List Bytes} {slice : Option (List α)}
    (h : ∀ a ∈ elements slice, (canon a = a ↔ ∀ s ∈ strings a, sanitize s = s)) :
    slice.map (List.map canon) = slice ↔ ∀ s ∈ (elements slice).flatMap strings, sanitize s = s := by
  rw [← map_canon_eq_self h]
  cases slice <;> simp [elements]

variable {m : Manifest}

theorem Valid.role (h : Valid m) (hp : p ∈ elements m.payloads) : ∃ role, p.role = .known role := by
  have hValid := h.payloads.valid p hp
  simp only [validatePayload, andThen_eq_ok] at hValid
  have hRole := hValid.1
  unfold validateRole at hRole
  split at hRole
  · exact ⟨_, by assumption⟩
  · cases hRole

theorem Valid.imageRole (h : Valid m) (hImage : image ∈ elements m.images) : ∃ role, image.role = .known role := by
  have hRole := (h.images.valid image hImage).1
  unfold validateImageRole at hRole
  split at hRole
  · exact ⟨_, by assumption⟩
  · cases hRole

theorem Valid.status (h : Valid m) : ∃ status, m.trust.status = .known status := by
  have hEvidence := h.evidence
  unfold validateEvidence at hEvidence
  cases hStatus : m.trust.status with
  | known status => exact ⟨status, rfl⟩
  | other status hOther =>
    rw [hStatus] at hEvidence
    cases hEvidence

theorem canon_trust_utc {trust : TrustMetadata} {status : TrustStatus} (hStatus : trust.status = .known status) :
    canon trust.utc = trust.utc ↔ ∀ s ∈ [trust.verifier, trust.evidencePath], sanitize s = s := by
  have hTime : (Omittable.policy : Omit (Wired.codec : Codec (Option Time))).keep (trust.verifiedAt.map Time.utc) =
      trust.verifiedAt.map Time.utc := by
    cases trust.verifiedAt with
    | none => rfl
    | some t => exact congrArg some t.canon_utc
  show TrustMetadata.mk (Open.codec.canon trust.status) (Omittable.policy.keep trust.verifier)
    (Omittable.policy.keep (trust.verifiedAt.map Time.utc)) (Omittable.policy.keep trust.evidencePath) = trust.utc ↔ _
  rw [keep_bytes, keep_bytes, hTime, hStatus, Open.canon_known]
  obtain ⟨_, verifier, verifiedAt, evidencePath⟩ := trust
  cases hStatus
  simp [TrustMetadata.utc]

theorem canon_lineage_utc (lineage : KitLineage) : canon lineage.utc = lineage.utc ↔
    ∀ s ∈ [lineage.kitID, lineage.sourceGeneration.archiveSHA256, lineage.parentKitSHA256], sanitize s = s := by
  show KitLineage.mk (sanitize lineage.kitID) lineage.exportedAt.utc.canon (canon lineage.sourceGeneration)
    (Omittable.policy.keep lineage.parentKitSHA256) = lineage.utc ↔ _
  rw [keep_bytes, Time.canon_utc]
  cases lineage
  simp [KitLineage.utc, canon_ref_eq_self]

theorem mem_strings_canonicalManifest {s : Bytes} : s ∈ (canonicalManifest m).strings ↔ s ∈ m.strings := by
  have hAlike := alike_canonicalManifest m
  simp only [Manifest.strings, mem_append, (hAlike.platforms.flatMap_right platformStrings).mem_iff,
    (hAlike.payloads.flatMap_right PayloadIdentity.strings).mem_iff,
    (hAlike.images.flatMap_right ImageIdentity.strings).mem_iff]
  rfl

theorem canon_canonicalManifest (h : Valid m) : canon (canonicalManifest m) = canonicalManifest m ↔ m.Textual := by
  have hValid := h.of_alike (alike_canonicalManifest m)
  obtain ⟨status, hStatus⟩ := h.status
  have hPlatforms : (canonicalManifest m).supportedPlatforms.map (List.map canon) =
      (canonicalManifest m).supportedPlatforms ↔ _ :=
    canon_slice_eq_self fun p _ => canon_platform_eq_self p
  have hPayloads : (canonicalManifest m).payloads.map (List.map canon) = (canonicalManifest m).payloads ↔ _ :=
    canon_slice_eq_self fun p hp => PayloadIdentity.canon_eq_self (hValid.role hp).choose_spec
  have hImages : (canonicalManifest m).images.map (List.map canon) = (canonicalManifest m).images ↔ _ :=
    canon_slice_eq_self fun image hImage => ImageIdentity.canon_eq_self (hValid.imageRole hImage).choose_spec
  have hTextual : m.Textual ↔ (canonicalManifest m).Textual :=
      forall_congr' fun s => by rw [mem_strings_canonicalManifest]
  rw [hTextual]
  show Manifest.mk m.schemaVersion (canon m.generation) ((canonicalManifest m).supportedPlatforms.map (List.map canon))
    ((canonicalManifest m).payloads.map (List.map canon)) ((canonicalManifest m).images.map (List.map canon))
    (canon m.trust.utc) (canon m.lineage.utc) = Manifest.mk m.schemaVersion m.generation
      (canonicalManifest m).supportedPlatforms
    (canonicalManifest m).payloads (canonicalManifest m).images m.trust.utc m.lineage.utc ↔ _
  simp only [Manifest.mk.injEq, hPlatforms, hPayloads, hImages, canon_trust_utc hStatus, canon_lineage_utc,
    m.generation.canon_eq_self, true_and]
  simp only [Manifest.Textual, Manifest.strings, forall_mem_append, forall_mem_cons,
    not_mem_nil, false_implies,
    implies_true, and_true, and_assoc]
  rfl

end Strings

section Times

def HasYear (t : Time) : Prop := 0 ≤ Rfc3339.shown t.utc ∧ Rfc3339.shown t.utc < Rfc3339.lastDay * Rfc3339.nanosPerDay

instance (t : Time) : Decidable (HasYear t) := inferInstanceAs (Decidable (_ ∧ _))

def Timely (m : Manifest) : Prop := HasYear m.lineage.exportedAt ∧ ∀ t ∈ m.trust.verifiedAt, HasYear t

instance : Total GenerationRef := Record.total (by dsimp only [Record.fields]; infer_instance)

instance : Total GenerationIdentity := Record.total (by dsimp only [Record.fields]; infer_instance)

instance : Total Platform := Record.total (by dsimp only [Record.fields]; infer_instance)

instance : Total PayloadIdentity := Record.total (by dsimp only [Record.fields]; infer_instance)

instance : Total ImageIdentity := Record.total (by dsimp only [Record.fields]; infer_instance)

theorem isSome_enc_utc (t : Time) : ((Wired.codec : Codec Time).enc t.utc).isSome = decide (HasYear t) := by
  have hZone : (t.utc.zone.tdiv 60).natAbs < 1440 := by simp [Time.utc]
  show (Option.map _ (Rfc3339.format t.utc)).isSome = _
  rw [Option.isSome_map, Rfc3339.format]
  by_cases h : HasYear t
  · rw [if_pos ⟨h.1, h.2, hZone⟩, decide_eq_true h]
    rfl
  · rw [if_neg fun hAll => h ⟨hAll.1, hAll.2.1⟩, decide_eq_false h]
    rfl

theorem isSome_enc_times (o : Option Time) :
    ((Omittable.policy : Omit (Wired.codec : Codec (Option Time))).empty (o.map Time.utc) ||
      ((Wired.codec : Codec (Option Time)).enc (o.map Time.utc)).isSome) = true ↔ ∀ t ∈ o, HasYear t := by
  cases o with
  | none => simp [Omittable.policy, Omit.pointer]
  | some t =>
    have hEnc : ((Wired.codec : Codec (Option Time)).enc (some t.utc)).isSome = decide (HasYear t) := isSome_enc_utc t
    simp [Omittable.policy, Omit.pointer, hEnc]

theorem isSome_marshal_canonicalManifest (m : Manifest) : (marshal (canonicalManifest m)).isSome ↔ Timely m := by
  have hLineage : ((Wired.codec : Codec KitLineage).enc m.lineage.utc).isSome =
      decide (HasYear m.lineage.exportedAt) := by
    rw [Record.isSome_enc]
    simp only [Record.fields, Fields.isSome_write_field, Fields.isSome_write_fieldOmit,
      isSome_enc, Bool.and_true, Bool.or_true]
    exact isSome_enc_utc m.lineage.exportedAt
  have hTrust : ((Wired.codec : Codec TrustMetadata).enc m.trust.utc).isSome = true ↔
      ∀ t ∈ m.trust.verifiedAt, HasYear t := by
    rw [Record.isSome_enc]
    simp only [Record.fields, Fields.isSome_write_field, Fields.isSome_write_fieldOmit,
      isSome_enc, Bool.and_true, Bool.or_true]
    exact isSome_enc_times m.trust.verifiedAt
  rw [isSome_marshal, Record.isSome_enc]
  simp only [Record.fields, Fields.isSome_write_field, isSome_enc, Bool.and_true]
  show ((true && ((Wired.codec : Codec TrustMetadata).enc m.trust.utc).isSome) &&
    ((Wired.codec : Codec KitLineage).enc m.lineage.utc).isSome) = true ↔ _
  rw [Bool.true_and, Bool.and_eq_true, hTrust, hLineage, decide_eq_true_eq, and_comm, Timely]

end Times

section Codec

variable {m m' : Manifest} {body : Bytes}

theorem marshalCanonical_eq_ok :
    marshalCanonical m = .ok body ↔ Valid m ∧ marshal (canonicalManifest m) = some body := by
  rw [marshalCanonical, andThen_eq_ok, validate_eq_ok]
  cases marshal (canonicalManifest m) with
  | none => simp
  | some text => simp [pure, Except.pure]

theorem decodeCanonical_eq_ok : decodeCanonical body = .ok m ↔
    body.length ≤ maxManifestBytes ∧ unmarshal body = some m ∧ marshalCanonical m = .ok body := by
  rw [decodeCanonical, andThen_eq_ok, refuse_eq_ok, decide_eq_false_iff_not, not_lt]
  refine and_congr_right fun _ => ?_
  cases hRead : (unmarshal body : Option Manifest) with
  | none => simp
  | some m' =>
    simp only [Option.some.injEq]
    rw [bind_eq_ok]
    simp only [andThen_eq_ok, refuse_eq_ok, bne_eq_false_iff_eq]
    constructor
    · rintro ⟨canonical, hCanonical, rfl, hRead⟩
      cases hRead
      exact ⟨rfl, hCanonical⟩
    · rintro ⟨rfl, hCanonical⟩
      exact ⟨body, hCanonical, rfl, rfl⟩

def Short (m : Manifest) : Prop := ∀ text, marshal (canonicalManifest m) = some text → text.length ≤ maxManifestBytes

theorem marshalCanonical_of_alike (h : Valid m) (hAlike : Alike m m') : marshalCanonical m' = marshalCanonical m := by
  rw [marshalCanonical, marshalCanonical, validate_eq_ok.mpr h, validate_eq_ok.mpr (h.of_alike hAlike),
    canonicalManifest_of_alike h hAlike]

/-- A valid manifest has one text for all orders and zones. It is written and read back as the
canonical form exactly if its times can be written, its strings are text and its text is short;
and only canonical texts are read. -/
theorem canonical_manifest (h : validate m = .ok ()) :
    (∀ m', Alike m m' → marshalCanonical m' = marshalCanonical m) ∧
    ((∃ body, marshalCanonical m = .ok body ∧ decodeCanonical body = .ok (canonicalManifest m)) ↔
      Timely m ∧ m.Textual ∧ Short m) ∧
    ∀ body m', decodeCanonical body = .ok m' → marshalCanonical m' = .ok body := by
  have hValid := validate_eq_ok.mp h
  have hAlike := alike_canonicalManifest m
  refine ⟨fun m' => marshalCanonical_of_alike hValid, ?_, fun body m' hDecode => (decodeCanonical_eq_ok.mp hDecode).2.2⟩
  rw [← isSome_marshal_canonicalManifest, ← canon_canonicalManifest hValid]
  constructor
  · rintro ⟨body, hMarshal, hDecode⟩
    have hText := (marshalCanonical_eq_ok.mp hMarshal).2
    obtain ⟨hLength, hRead, -⟩ := decodeCanonical_eq_ok.mp hDecode
    rw [unmarshal_marshal hText] at hRead
    refine ⟨by rw [hText]; rfl, Option.some.inj hRead, ?_⟩
    intro text hText'
    rw [hText] at hText'
    exact Option.some.inj hText' ▸ hLength
  · rintro ⟨hWritten, hCanon, hShort⟩
    obtain ⟨body, hText⟩ := Option.isSome_iff_exists.mp hWritten
    have hMarshal : marshalCanonical m = .ok body := marshalCanonical_eq_ok.mpr ⟨hValid, hText⟩
    refine ⟨body, hMarshal, decodeCanonical_eq_ok.mpr ⟨hShort body hText, ?_, ?_⟩⟩
    · rw [unmarshal_marshal hText, hCanon]
    · rw [marshalCanonical_of_alike hValid hAlike, hMarshal]

end Codec

section Samples

def aPlatform : Platform := ⟨lit "linux", lit "amd64", []⟩

def aDigest : Bytes := replicate 64 97

def aPayload (role : PayloadRole) (name path : String) (platform : Option Platform) (executable : Bytes) :
    PayloadIdentity where
  role := .known role
  name := lit name
  version := lit "1"
  repository := lit "repository"
  commit := replicate 40 97
  platform := platform
  path := lit path
  size := 10
  sha256 := aDigest
  executableSHA256 := executable
  mediaType := lit "text"

/-- The smallest kit for one platform, with the digest of the executable of its archive. -/
def aManifest (executable : Bytes) (exportedAt : Time) : Manifest where
  schemaVersion := 2
  generation := ⟨lit "capsule", lit "main", ⟨1, aDigest⟩, none, lit "payloads/archive", lit "payloads/metadata"⟩
  supportedPlatforms := some [aPlatform]
  payloads := some [aPayload .generationArchive "archive" "payloads/archive" none executable,
    aPayload .generationMetadata "metadata" "payloads/metadata" none [],
    aPayload .camp "camp" "payloads/camp" (some aPlatform) aDigest,
    aPayload .runtime "runtime" "payloads/runtime" (some aPlatform) aDigest,
    aPayload .devPodProvider "provider" "payloads/provider" (some aPlatform) aDigest,
    aPayload .tool "devpod" "payloads/devpod" (some aPlatform) aDigest,
    aPayload .tool "hauler" "payloads/hauler" (some aPlatform) aDigest]
  images := some [⟨.known .room, lit "room@sha256:" ++ aDigest, lit "sha256:" ++ aDigest, aPlatform⟩]
  trust := ⟨.known .unverified, [], none, []⟩
  lineage := ⟨lit "kit", exportedAt, ⟨1, aDigest⟩, []⟩

theorem canonical_manifest_aManifest : ∃ body, marshalCanonical (aManifest [] ⟨1, 0⟩) = .ok body ∧
    decodeCanonical body = .ok (canonicalManifest (aManifest [] ⟨1, 0⟩)) := by
  have hValid : validate (aManifest [] ⟨1, 0⟩) = .ok () := by decide +kernel
  have hLength : (marshal (canonicalManifest (aManifest [] ⟨1, 0⟩))).all (·.length ≤ maxManifestBytes) = true := by
    decide +kernel
  have hTextual : (aManifest [] ⟨1, 0⟩).Textual := by
    unfold Manifest.Textual
    decide +kernel
  refine (canonical_manifest hValid).2.1.mpr ⟨⟨by decide, by rintro _ ⟨⟩⟩, hTextual, fun text hText => ?_⟩
  simpa [hText] using hLength

/-- The digest of the executable of an archive may be any string, and the export may be before
the year 0: the first manifest is written but not read back, the second is not written. -/
theorem valid_not_canonical :
    (∃ m body, validate m = .ok () ∧ marshalCanonical m = .ok body ∧ decodeCanonical body ≠ .ok (canonicalManifest m)) ∧
    ∃ m, validate m = .ok () ∧ ∀ body, marshalCanonical m ≠ .ok body := by
  constructor
  · have hValid := validate_eq_ok.mp (show validate (aManifest [0xff] ⟨1, 0⟩) = .ok () by decide +kernel)
    have hTimely : Timely (aManifest [0xff] ⟨1, 0⟩) := ⟨by decide, nofun⟩
    obtain ⟨body, hText⟩ := Option.isSome_iff_exists.mp ((isSome_marshal_canonicalManifest _).mpr hTimely)
    refine ⟨_, body, validate_eq_ok.mpr hValid, marshalCanonical_eq_ok.mpr ⟨hValid, hText⟩, fun hDecode => ?_⟩
    have hRead := (decodeCanonical_eq_ok.mp hDecode).2.1
    rw [unmarshal_marshal hText] at hRead
    have hTextual := (canon_canonicalManifest hValid).mp (Option.some.inj hRead)
    exact absurd (hTextual [0xff] (by decide)) (by decide)
  · have hValid : validate (aManifest [] ⟨-366 * 24 * 3600 * 1000000000 - 1, 0⟩) = .ok () := by decide +kernel
    refine ⟨_, hValid, fun body hMarshal => ?_⟩
    have hWritten : (marshal (canonicalManifest (aManifest [] ⟨-366 * 24 * 3600 * 1000000000 - 1, 0⟩))).isSome := by
      rw [(marshalCanonical_eq_ok.mp hMarshal).2]
      rfl
    exact absurd ((isSome_marshal_canonicalManifest _).mp hWritten).1 (by decide)

end Samples

end Camp.CampKit
