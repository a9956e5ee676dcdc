import Camp.Program.Checks
import Camp.Program.Paths
import Camp.Wire.Order
import Camp.Wire.Words
import Camp.Domain.Validation
import Mathlib.Data.Prod.Lex

/-!
# Sealing a registry

The tags of a registry are found in its storage tree, the images are grouped by digest under
the first reference of each digest, and Camp's own artifacts are left out by that reference.
-/

namespace Camp.Registry

open Wire Wire.Utf8 Wire.Words Program Program.Paths Program.Checks List Option

section Names

def alphanumeric (b : UInt8) : Bool := (97 ≤ b && b ≤ 122) || (48 ≤ b && b ≤ 57)

/-- Runs of letters and digits with single separators between them. `pause` says that a run has
to begin here. -/
def component (pause : Bool) : Bytes → Bool
  | [] => !pause
  | b :: s =>
    if alphanumeric b then component false s
    else (b == 46 || b == 95 || b == 45) && !pause && component true s

def repositoryPattern (s : Bytes) : Bool := (parts s).all (component true)

def tagByte (b : UInt8) : Bool := alphanumeric b || (65 ≤ b && b ≤ 90) || b == 95

def tagPattern : Bytes → Bool
  | [] => false
  | b :: s => tagByte b && s.all (fun b => tagByte b || b == 46 || b == 45) && s.length ≤ 127

def digestPattern (s : Bytes) : Bool :=
  s.take 7 == lit "sha256:" && (s.drop 7).length == 64 &&
    (s.drop 7).all fun b => (48 ≤ b && b ≤ 57) || (97 ≤ b && b ≤ 102)

end Names

section Model

structure RegistryReference where
  repository : Bytes
  tag : Bytes
  manifestDigest : Bytes
  deriving DecidableEq

inductive Error where
  | message (text : String)
  | digestMismatch (format : String) (args : List Bytes)
  deriving DecidableEq

/-- A regular file below the directory of the repositories. -/
structure LinkFile where
  path : Path
  body : Bytes
  deriving DecidableEq

def tagLink (path : Path) : Option (Bytes × Bytes) :=
  let marker := (parts path).idxOf (lit "_manifests")
  match (parts path).drop marker with
  | [_, tags, tag, current, link] =>
    if 1 ≤ marker ∧ tags = lit "tags" ∧ current = lit "current" ∧ link = lit "link" then
      some (glue ((parts path).take marker), tag)
    else none
  | _ => none

def isSeed (repository tag : Bytes) : Bool := repository == lit "hauler/camp-session-seed" && tag == lit "latest"

def note (seen : List RegistryReference) (found : RegistryReference) : Except Error (List RegistryReference) :=
  match seen.find? fun r => r.repository = found.repository ∧ r.tag = found.tag with
  | none => .ok (seen ++ [found])
  | some prior =>
    if prior.manifestDigest = found.manifestDigest then .ok seen
    else .error (.digestMismatch "sealed registry tag %q has conflicting digests: %w"
      [found.repository ++ 58 :: found.tag])

def visitTag (seen : List RegistryReference) (repository tag body : Bytes) : Except Error (List RegistryReference) := do
  refuse (!repositoryPattern repository || !tagPattern tag)
    (.message "sealed registry contains an invalid tagged reference")
  if isSeed repository tag then return seen
  else
    refuse (128 < body.length) (.message "sealed registry tag link is not a small regular file")
    refuse (!digestPattern (trimSpace body)) (.message "sealed registry tag link has an invalid digest")
    note seen ⟨repository, tag, trimSpace body⟩

def visit (seen : List RegistryReference) (file : LinkFile) : Except Error (List RegistryReference) :=
  match tagLink file.path with
  | none => .ok seen
  | some (repository, tag) => visitTag seen repository tag file.body

def referenceKey (r : RegistryReference) : List Nat ×ₗ List Nat := toLex (bytewise r.repository, bytewise r.tag)

def registrySnapshotReferences (files : List LinkFile) : Except Error (List RegistryReference) :=
  (files.foldlM visit []).map (sortOn referenceKey)

def splitHostPort (s : Bytes) : Option (Bytes × Bytes) :=
  match s.reverse.span (· ≠ 58) with
  | (portReversed, 58 :: hostReversed) =>
    let host := hostReversed.reverse
    let port := portReversed.reverse
    if port.any (fun b => b == 91 || b == 93) then none
    else if host.head? = some 91 then
      if host.getLast? = some 93 ∧ ¬ (host.tail.dropLast.any fun b => b == 91 || b == 93) then
        some (host.tail.dropLast, port)
      else none
    else if host.any fun b => b == 58 || b == 91 || b == 93 then none
    else some (host, port)
  | _ => none

def validateAuthority (authority : Bytes) : Except Error Unit := do
  refuse (lit "://" <:+: authority || authority.any fun b => (lit "/@?#%\\ \t\r\n" ++ [0]).contains b)
    (.message "invalid registry authority")
  refuse ((splitHostPort authority).all fun p => p.1 == [] || p.2 == []) (.message "invalid registry authority")

def captured (authority : Bytes) (r : RegistryReference) : Bytes := authority ++ 47 :: r.repository ++ 58 :: r.tag

def sortedUniqueStrings (values : List Bytes) : List Bytes := sortOn bytewise values.dedup

/-- The tags with their digests, and the images in the order of their first tags. -/
structure Catalog where
  seen : List (Bytes × Bytes)
  images : List Image

def newImage (generatedAt : Time) (reference digest : Bytes) : Image where
  engineImageID := []
  originalTags := some [reference]
  originalRepoDigests := none
  capturedReference := reference
  capturedManifestDigest := digest
  platform := ⟨[], [], []⟩
  source := .known .registry
  createdAt := generatedAt.utc

def addTag (reference : Bytes) (image : Image) : Image :=
  { image with originalTags := some (sortedUniqueStrings (image.originalTags.getD [] ++ [reference])) }

def addReference (authority : Bytes) (generatedAt : Time) (c : Catalog) (r : RegistryReference) :
    Except Error Catalog := do
  refuse (!repositoryPattern r.repository || !tagPattern r.tag || !digestPattern r.manifestDigest)
    (.message "registry catalog contains an invalid reference")
  match c.seen.find? (·.1 = captured authority r) with
  | some prior =>
    if prior.2 = r.manifestDigest then return c
    else throw (.digestMismatch "catalog tag %q moved from %s to %s: %w"
      [captured authority r, prior.2, r.manifestDigest])
  | none =>
    let seen := c.seen ++ [(captured authority r, r.manifestDigest)]
    if c.images.any (·.capturedManifestDigest = r.manifestDigest) then
      return ⟨seen, c.images.map fun image =>
        if image.capturedManifestDigest = r.manifestDigest then addTag (captured authority r) image else image⟩
    else return ⟨seen, c.images ++ [newImage generatedAt (captured authority r) r.manifestDigest]⟩

def imageKey (image : Image) : List Nat ×ₗ List Nat :=
  toLex (bytewise image.capturedReference, bytewise image.capturedManifestDigest)

def inventoryFromCatalog (authority : Bytes) (references : List RegistryReference) (generatedAt : Time) :
    Except Error ImageInventory := do
  refuse generatedAt.isZero (.message "catalog merge timestamp is empty")
  validateAuthority authority
  let c ← references.foldlM (addReference authority generatedAt) ⟨[], []⟩
  return ⟨schemaVersion, generatedAt.utc, some (sortOn imageKey c.images)⟩

def isHaulerFileProjection (reference : Bytes) : Bool :=
  match reference.span (· ≠ 47) with
  | (authority, 47 :: path) =>
    match path.reverse.span (· ≠ 58) with
    | (_, 58 :: repositoryReversed) =>
      let repository := repositoryReversed.reverse
      authority != [] && repository != [] && (lit "hauler/").isPrefixOf repository &&
        (lit ".tar.zst").isSuffixOf repository
    | _ => false
  | _ => false

def sessionSeedReferenceSuffix : Bytes := lit "/hauler/camp-session-seed:latest"

def looksInternal (reference : Bytes) : Bool :=
  sessionSeedReferenceSuffix.isSuffixOf reference || isHaulerFileProjection reference

def excludeInternalArtifacts (inventory : ImageInventory) : ImageInventory :=
  { inventory with images := some ((inventory.images.getD []).filter fun image =>
      !(image.source = .known .registry && looksInternal image.capturedReference)) }

def sealedInventory (authority : Bytes) (generatedAt : Time) (files : List LinkFile) : Except Error ImageInventory := do
  let references ← registrySnapshotReferences files
  let inventory ← inventoryFromCatalog authority references generatedAt
  return excludeInternalArtifacts inventory

end Model

section Tags

variable {files : List LinkFile} {seen : List RegistryReference}
variable {path : Path}

def tagsOf (files : List LinkFile) : List RegistryReference :=
  files.filterMap fun file => (tagLink file.path).map fun (repository, tag) => ⟨repository, tag, trimSpace file.body⟩

/-- The storage of a registry: every path once, and each tag link a short file with a digest. -/
structure Storage (files : List LinkFile) : Prop where
  paths : (files.map (·.path)).Nodup
  valid : ∀ t ∈ tagsOf files, tagPattern t.tag = true ∧ digestPattern t.manifestDigest = true
  small : ∀ file ∈ files, (tagLink file.path).isSome → file.body.length ≤ 128

theorem tagLink_parts {repository tag : Bytes} (h : tagLink path = some (repository, tag)) :
    parts path = parts repository ++ [lit "_manifests", lit "tags", tag, lit "current", lit "link"] := by
  unfold tagLink at h
  generalize hMarker : (parts path).idxOf (lit "_manifests") = marker at h
  dsimp only at h
  split at h
  case h_2 => cases h
  case h_1 m tags found current link hDrop =>
    split_ifs at h with hShape
    obtain ⟨hPositive, rfl, rfl, rfl⟩ := hShape
    cases h
    have hLength : marker < (parts path).length := by
      have := congrArg List.length hDrop
      simp only [length_drop, length_cons, length_nil] at this
      omega
    have hHead : m = lit "_manifests" := by
      have hGet : (parts path)[marker]? = some m := by
        rw [← List.head?_drop, hDrop]
        rfl
      rw [List.getElem?_eq_getElem hLength] at hGet
      rw [← Option.some.inj hGet]
      subst hMarker
      exact getElem_idxOf hLength
    have hTake : parts (glue ((parts path).take marker)) = (parts path).take marker := by
      refine parts_glue (fun name hName => slash_notMem_parts (mem_of_mem_take hName)) fun hEmpty => ?_
      have := congrArg List.length hEmpty
      simp only [length_take, length_nil] at this
      omega
    rw [hTake, ← hHead, ← hDrop, take_append_drop]

theorem tagLink_injective {path' : Path} {found : Bytes × Bytes} (h : tagLink path = some found)
    (h' : tagLink path' = some found) : path = path' := by
  have hParts : parts path = parts path' := (tagLink_parts h).trans (tagLink_parts h').symm
  rw [← glue_parts path, hParts, glue_parts]

def sameTag (r r' : RegistryReference) : Prop := r.repository = r'.repository ∧ r.tag = r'.tag

theorem pairwise_tagsOf (h : (files.map (·.path)).Nodup) : (tagsOf files).Pairwise fun r r' => ¬ sameTag r r' := by
  have hFiles : files.Pairwise fun file file' => file.path ≠ file'.path := pairwise_map.mp h
  refine Pairwise.filterMap _ ?_ hFiles
  rintro file file' hPaths t ht t' ht' ⟨hRepository, hTag⟩
  simp only [map_eq_some_iff, Prod.exists] at ht ht'
  obtain ⟨repository, tag, hLink, rfl⟩ := ht
  obtain ⟨repository', tag', hLink', rfl⟩ := ht'
  dsimp only at hRepository hTag
  subst hRepository hTag
  exact hPaths (tagLink_injective hLink hLink')

def ownTags (files : List LinkFile) :
    List RegistryReference := (tagsOf files).filter fun t => !isSeed t.repository t.tag

theorem note_new {found : RegistryReference} (h : ∀ r ∈ seen, ¬ sameTag r found) :
    note seen found = .ok (seen ++ [found]) := by
  have hNone : seen.find? (fun r => decide (r.repository = found.repository ∧ r.tag = found.tag)) = none := by
    rw [List.find?_eq_none]
    intro r hr
    simpa [sameTag] using h r hr
  rw [note, hNone]

theorem foldlM_visit (hRepositories : ∀ t ∈ tagsOf files, repositoryPattern t.repository = true)
    (hValid : ∀ t ∈ tagsOf files, tagPattern t.tag = true ∧ digestPattern t.manifestDigest = true)
    (hSmall : ∀ file ∈ files, (tagLink file.path).isSome → file.body.length ≤ 128)
    (hDistinct : (seen ++ tagsOf files).Pairwise fun r r' => ¬ sameTag r r') :
    files.foldlM visit seen = .ok (seen ++ ownTags files) := by
  induction files generalizing seen with
  | nil => simp [ownTags, tagsOf, pure, Except.pure]
  | cons file files ih =>
    have hRest : ∀ file' ∈ files, (tagLink file'.path).isSome → file'.body.length ≤ 128 :=
      fun file' h => hSmall file' (mem_cons_of_mem _ h)
    rw [foldlM_cons]
    rcases hLink : tagLink file.path with _ | ⟨repository, tag⟩
    · have hTags : tagsOf (file :: files) = tagsOf files := by simp [tagsOf, hLink]
      rw [hTags] at hRepositories hValid hDistinct
      have hVisit : visit seen file = .ok seen := by rw [visit, hLink]
      rw [hVisit, ownTags, hTags]
      exact ih hRepositories hValid hRest hDistinct
    · have hTags : tagsOf (file :: files) = ⟨repository, tag, trimSpace file.body⟩ ::
          tagsOf files := by simp [tagsOf, hLink]
      rw [hTags] at hRepositories hValid hDistinct
      obtain ⟨hRepository, hRepositories⟩ := forall_mem_cons.mp hRepositories
      obtain ⟨⟨hTag, hDigest⟩, hValid⟩ := forall_mem_cons.mp hValid
      have hBody := hSmall file mem_cons_self (by rw [hLink]; rfl)
      by_cases hSeed : isSeed repository tag = true
      · have hVisit : visit seen file = .ok seen := by
          rw [visit, hLink]
          simp [visitTag, refuse, hRepository, hTag, hSeed, bind, Except.bind, pure, Except.pure]
        rw [hVisit, ownTags, hTags, filter_cons_of_neg (by simp [hSeed])]
        refine ih hRepositories hValid hRest (hDistinct.sublist ?_)
        exact List.Sublist.append_left (sublist_cons_self _ _) seen
      · have hNew : ∀ r ∈ seen, ¬ sameTag r ⟨repository, tag, trimSpace file.body⟩ := fun r hr =>
          (pairwise_append.mp hDistinct).2.2 r hr _ mem_cons_self
        have hVisit : visit seen file = .ok (seen ++ [⟨repository, tag, trimSpace file.body⟩]) := by
          rw [visit, hLink]
          simp [visitTag, refuse, hRepository, hTag, hSeed, hDigest, Nat.not_lt.mpr hBody,
            note_new hNew, bind, Except.bind]
        rw [hVisit, ownTags, hTags, filter_cons_of_pos (by simp [hSeed])]
        have hMore : files.foldlM visit (seen ++ [⟨repository, tag, trimSpace file.body⟩]) = _ :=
          ih hRepositories hValid hRest (by rwa [append_assoc])
        rw [ownTags, append_assoc] at hMore
        exact hMore

theorem repositories_of_foldlM {references : List RegistryReference} (h : files.foldlM visit seen = .ok references) :
    ∀ t ∈ tagsOf files, repositoryPattern t.repository = true := by
  induction files generalizing seen with
  | nil => simp [tagsOf]
  | cons file files ih =>
    rw [foldlM_cons] at h
    obtain ⟨next, hVisit, hRest⟩ := Checks.bind_eq_ok.mp h
    rcases hLink : tagLink file.path with _ | ⟨repository, tag⟩
    · have hTags : tagsOf (file :: files) = tagsOf files := by simp [tagsOf, hLink]
      rw [hTags]
      exact ih hRest
    · have hTags : tagsOf (file :: files) = ⟨repository, tag, trimSpace file.body⟩ ::
          tagsOf files := by simp [tagsOf, hLink]
      rw [hTags]
      refine forall_mem_cons.mpr ⟨?_, ih hRest⟩
      rw [visit, hLink] at hVisit
      obtain ⟨_, hPattern, -⟩ := Checks.bind_eq_ok.mp hVisit
      rw [refuse_eq_ok] at hPattern
      simp only [Bool.or_eq_false_iff, Bool.not_eq_false'] at hPattern
      exact hPattern.1

end Tags

section Images

variable {authority : Bytes} {generatedAt : Time}
variable {s : Bytes} {image : Image}

theorem colon_notMem_component {pause : Bool} (h : component pause s = true) : 58 ∉ s := by
  induction s generalizing pause with
  | nil => exact not_mem_nil
  | cons b s ih =>
    rw [component] at h
    rw [mem_cons, not_or]
    split_ifs at h with hAlphanumeric
    · refine ⟨?_, ih h⟩
      rintro rfl
      exact absurd hAlphanumeric (by decide)
    · simp only [Bool.and_eq_true] at h
      refine ⟨?_, ih h.2⟩
      rintro rfl
      exact absurd h.1.1 (by decide)

theorem colon_notMem_repository (h : repositoryPattern s = true) : 58 ∉ s := by
  rw [repositoryPattern, List.all_eq_true] at h
  rw [← glue_parts s]
  intro hMem
  obtain ⟨part, hPart, hIn⟩ := mem_of_mem_glue hMem (by decide)
  exact colon_notMem_component (h part hPart) hIn

theorem captured_injective {r r' : RegistryReference} (hr : repositoryPattern r.repository = true)
    (hr' : repositoryPattern r'.repository = true) (h : captured authority r = captured authority r') :
    sameTag r r' := by
  have hRest : r.repository ++ 58 :: r.tag = r'.repository ++ 58 :: r'.tag := by
    simpa [captured] using h
  exact Words.append_cons_inj (colon_notMem_repository hr) (colon_notMem_repository hr') hRest

/-- An image is the group of its digest, under the first reference of the group. -/
structure IsGroup (authority : Bytes) (done : List RegistryReference) (image : Image) : Prop where
  leader : ∃ r, done.find? (·.manifestDigest = image.capturedManifestDigest) = some r ∧
    image.capturedReference = captured authority r
  tags : ∃ tags, image.originalTags = some tags ∧
    tags.Perm ((done.filter (·.manifestDigest = image.capturedManifestDigest)).map (captured authority))
  source : image.source = .known .registry

structure Grouped (authority : Bytes) (done : List RegistryReference) (c : Catalog) : Prop where
  seen : c.seen.map (·.1) = done.map (captured authority)
  digests : (c.images.map (·.capturedManifestDigest)).Nodup
  covers : ∀ r ∈ done, r.manifestDigest ∈ c.images.map (·.capturedManifestDigest)
  each : ∀ image ∈ c.images, IsGroup authority done image

variable {done : List RegistryReference} {c : Catalog} {r : RegistryReference}

theorem IsGroup.other (h : IsGroup authority done image) (hOther : image.capturedManifestDigest ≠ r.manifestDigest) :
    IsGroup authority (done ++ [r]) image where
  leader := by
    obtain ⟨first, hFirst, hCaptured⟩ := h.leader
    exact ⟨first, by rw [List.find?_append, hFirst, some_or], hCaptured⟩
  tags := by
    rw [filter_append, filter_cons_of_neg (by simpa using Ne.symm hOther), filter_nil, append_nil]
    exact h.tags
  source := h.source

theorem perm_sortedUniqueStrings {l : List Bytes} (h : l.Nodup) : (sortedUniqueStrings l).Perm l := by
  rw [sortedUniqueStrings, h.dedup]
  exact sortOn_perm ..

theorem IsGroup.addTag (h : IsGroup authority done image) (hSame : image.capturedManifestDigest = r.manifestDigest)
    (hNew : (done ++ [r]).map (captured authority) |>.Nodup) :
    IsGroup authority (done ++ [r]) (Registry.addTag (captured authority r) image) where
  leader := by
    obtain ⟨first, hFirst, hCaptured⟩ := h.leader
    refine ⟨first, ?_, hCaptured⟩
    show (done ++ [r]).find? (fun r' : RegistryReference => r'.manifestDigest = image.capturedManifestDigest) =
        some first
    rw [List.find?_append, hFirst, some_or]
  tags := by
    obtain ⟨tags, hTags, hPerm⟩ := h.tags
    refine ⟨_, rfl, ?_⟩
    show Perm _ (((done ++ [r]).filter (·.manifestDigest = image.capturedManifestDigest)).map (captured authority))
    have hGroup : (tags ++ [captured authority r]).Perm
        (((done ++ [r]).filter (·.manifestDigest = image.capturedManifestDigest)).map (captured authority)) := by
      rw [filter_append, filter_cons_of_pos (by simpa using hSame.symm), filter_nil, map_append]
      exact hPerm.append_right _
    have hNodup : (tags ++ [captured authority r]).Nodup :=
      hGroup.nodup_iff.mpr (hNew.sublist (filter_sublist.map _))
    rw [hTags]
    exact (perm_sortedUniqueStrings hNodup).trans hGroup
  source := h.source

theorem isGroup_newImage (hNone : ∀ r' ∈ done, r'.manifestDigest ≠ r.manifestDigest) :
    IsGroup authority (done ++ [r]) (newImage generatedAt (captured authority r) r.manifestDigest) where
  leader := by
    refine ⟨r, ?_, rfl⟩
    show (done ++ [r]).find? (fun r' : RegistryReference => r'.manifestDigest = r.manifestDigest) = some r
    have hBefore : done.find? (fun r' : RegistryReference => r'.manifestDigest = r.manifestDigest) = none :=
      List.find?_eq_none.mpr fun r' hr' => by simpa using hNone r' hr'
    rw [List.find?_append, hBefore, none_or, List.find?_cons_of_pos (by simp)]
  tags := by
    refine ⟨[captured authority r], rfl, ?_⟩
    show Perm _ (((done ++ [r]).filter fun r' : RegistryReference => r'.manifestDigest = r.manifestDigest).map _)
    have hBefore : done.filter (fun r' : RegistryReference => r'.manifestDigest = r.manifestDigest) = [] :=
      filter_eq_nil_iff.mpr fun r' hr' => by simpa using hNone r' hr'
    rw [filter_append, hBefore, filter_cons_of_pos (by simp)]
    exact .refl _
  source := rfl

theorem map_digest_addTag (images : List Image) (reference digest : Bytes) :
    (images.map fun image => if image.capturedManifestDigest = digest then Registry.addTag
    reference image else image).map
      (·.capturedManifestDigest) = images.map (·.capturedManifestDigest) := by
  rw [List.map_map]
  refine List.map_congr_left fun image _ => ?_
  rw [Function.comp_apply]
  split_ifs <;> rfl

theorem Grouped.addReference (h : Grouped authority done c) (hr : repositoryPattern r.repository = true)
    (hTag : tagPattern r.tag = true ∧ digestPattern r.manifestDigest = true)
    (hNew : ((done ++ [r]).map (captured authority)).Nodup) :
    ∃ c', Registry.addReference authority generatedAt c r = .ok c' ∧ Grouped authority (done ++ [r]) c' := by
  have hUnseen : c.seen.find? (·.1 = captured authority r) = none := by
    rw [List.find?_eq_none]
    intro seen hSeen
    have hMem : seen.1 ∈ done.map (captured authority) := h.seen ▸ mem_map_of_mem hSeen
    have hApart : ∀ a ∈ done.map (captured authority), a ≠ captured authority r := by
      rw [map_append, nodup_append] at hNew
      exact fun a ha => hNew.2.2 a ha _ (by simp)
    simpa using hApart seen.1 hMem
  have hSeen : (c.seen ++ [(captured authority r, r.manifestDigest)]).map (·.1) =
      (done ++ [r]).map (captured authority) := by
    rw [map_append, map_append, h.seen]
    rfl
  rw [Registry.addReference]
  simp only [hr, hTag.1, hTag.2, hUnseen, refuse, Bool.not_true, Bool.or_self, Bool.false_eq_true,
    if_false, bind, Except.bind]
  split_ifs with hAny
  · obtain ⟨first, hFirst, hDigest⟩ := any_eq_true.mp hAny
    refine ⟨_, rfl, hSeen, by rw [map_digest_addTag]; exact h.digests, ?_, ?_⟩
    · intro r' hr'
      rw [map_digest_addTag]
      rcases mem_append.mp hr' with hOld | hLast
      · exact h.covers r' hOld
      · rw [mem_singleton.mp hLast, ← of_decide_eq_true hDigest]
        exact mem_map_of_mem hFirst
    · intro image' hImage'
      obtain ⟨image, hImage, rfl⟩ := mem_map.mp hImage'
      split_ifs with hSame
      · exact (h.each image hImage).addTag hSame hNew
      · exact (h.each image hImage).other hSame
  · have hFresh : ∀ image ∈ c.images, image.capturedManifestDigest ≠ r.manifestDigest := by
      intro image hImage hSame
      exact hAny (any_eq_true.mpr ⟨image, hImage, decide_eq_true hSame⟩)
    have hNone : ∀ r' ∈ done, r'.manifestDigest ≠ r.manifestDigest := by
      intro r' hr' hSame
      obtain ⟨image, hImage, hDigest⟩ := mem_map.mp (h.covers r' hr')
      exact hFresh image hImage (hDigest.trans hSame)
    refine ⟨_, rfl, hSeen, ?_, ?_, ?_⟩
    · rw [map_append, map_singleton, nodup_append]
      refine ⟨h.digests, nodup_singleton _, fun digest hDigest digest' hLast => ?_⟩
      obtain ⟨image, hImage, rfl⟩ := mem_map.mp hDigest
      rw [mem_singleton.mp hLast]
      exact hFresh image hImage
    · intro r' hr'
      rw [map_append, mem_append]
      rcases mem_append.mp hr' with hOld | hLast
      · exact .inl (h.covers r' hOld)
      · rw [mem_singleton.mp hLast]
        exact .inr mem_cons_self
    · intro image hImage
      rcases mem_append.mp hImage with hOld | hLast
      · exact (h.each image hOld).other (hFresh image hOld)
      · rw [mem_singleton.mp hLast]
        exact isGroup_newImage hNone

theorem Grouped.addReferences {rest : List RegistryReference} (h : Grouped authority done c)
    (hRepositories : ∀ r ∈ rest, repositoryPattern r.repository = true)
    (hValid : ∀ r ∈ rest, tagPattern r.tag = true ∧ digestPattern r.manifestDigest = true)
    (hNew : ((done ++ rest).map (captured authority)).Nodup) :
    ∃ c', rest.foldlM (Registry.addReference authority generatedAt) c = .ok c' ∧
        Grouped authority (done ++ rest) c' := by
  induction rest generalizing done c with
  | nil => exact ⟨c, rfl, by rwa [append_nil]⟩
  | cons r rest ih =>
    obtain ⟨hRepository, hRepositories⟩ := forall_mem_cons.mp hRepositories
    obtain ⟨hTag, hValid⟩ := forall_mem_cons.mp hValid
    have hAll : done ++ r :: rest = done ++ [r] ++ rest := by simp
    rw [hAll] at hNew ⊢
    have hFirst : ((done ++ [r]).map (captured authority)).Nodup := by
      rw [map_append] at hNew
      exact (nodup_append.mp hNew).1
    have hStep : ∃ next, Registry.addReference authority generatedAt c r = .ok next ∧
        Grouped authority (done ++ [r]) next :=
      h.addReference hRepository hTag hFirst
    obtain ⟨next, hNext, hGrouped⟩ := hStep
    obtain ⟨c', hRun, hDone⟩ := ih hGrouped hRepositories hValid hNew
    exact ⟨c', by rw [foldlM_cons, hNext]; exact hRun, hDone⟩

end Images

section Listing

variable {authority : Bytes} {generatedAt : Time} {files : List LinkFile} {r t : RegistryReference}
variable {image : Image}
variable {inventory : ImageInventory}

def listed (inventory : ImageInventory) : List (Bytes × Bytes) :=
  (inventory.images.getD []).flatMap fun image =>
    (image.originalTags.getD []).map fun tag => (tag, image.capturedManifestDigest)

/-- The reference under which the image of a tag is captured: the first of its digest. -/
structure Leads (files : List LinkFile) (r t : RegistryReference) : Prop where
  mem : r ∈ ownTags files
  digest : r.manifestDigest = t.manifestDigest
  least : ∀ r' ∈ ownTags files, r'.manifestDigest = t.manifestDigest → referenceKey r ≤ referenceKey r'

theorem leads_of_find?
    (h : (sortOn referenceKey (ownTags files)).find? (·.manifestDigest = t.manifestDigest) = some r) :
    Leads files r t := by
  have hOwn : ∀ {r'}, r' ∈ ownTags files ↔ r' ∈ sortOn referenceKey (ownTags files) :=
    (sortOn_perm _ _).mem_iff.symm
  obtain ⟨hDigest, before, rest, hSorted, hBefore⟩ := List.find?_eq_some_iff_append.mp h
  refine ⟨hOwn.mpr (mem_of_find?_eq_some h), of_decide_eq_true hDigest, fun r' hr' hSame => ?_⟩
  have hOrder : (before ++ r :: rest).Pairwise fun a b => referenceKey a ≤ referenceKey b :=
      hSorted ▸ pairwise_sortOn _ _
  rw [hOwn, hSorted] at hr'
  rcases mem_append.mp hr' with hFront | hBack
  · simpa [hSame] using hBefore r' hFront
  · rcases mem_cons.mp hBack with rfl | hRest
    · exact le_rfl
    · exact (pairwise_cons.mp (pairwise_append.mp hOrder).2.1).1 r' hRest

theorem eq_of_sameTag (hFiles : Storage files) (hr : r ∈ tagsOf files) (ht : t ∈ tagsOf files) (h : sameTag r t) :
    r = t := by
  by_contra hNe
  have : Std.Symm fun r r' : RegistryReference => ¬ sameTag r r' :=
    ⟨fun r r' hApart hSame => hApart ⟨hSame.1.symm, hSame.2.symm⟩⟩
  exact (pairwise_tagsOf hFiles.paths).forall hr ht hNe h

theorem mem_tagsOf_of_mem_ownTags (h : r ∈ ownTags files) : r ∈ tagsOf files := mem_of_mem_filter h

theorem Leads.eq {r' : RegistryReference} (hFiles : Storage files) (h : Leads files r t) (h' : Leads files r' t) :
    r = r' := by
  have hKeys : referenceKey r = referenceKey r' :=
    le_antisymm (h.least r' h'.mem h'.digest) (h'.least r h.mem h.digest)
  have hPair := Prod.mk.inj (toLex.injective hKeys)
  exact eq_of_sameTag hFiles (mem_tagsOf_of_mem_ownTags h.mem) (mem_tagsOf_of_mem_ownTags h'.mem)
    ⟨bytewise_injective hPair.1, bytewise_injective hPair.2⟩

theorem nodup_captured (hFiles : Storage files) (hRepositories : ∀ t ∈ tagsOf files,
    repositoryPattern t.repository = true) :
    ((sortOn referenceKey (ownTags files)).map (captured authority)).Nodup := by
  have hPerm : ((sortOn referenceKey (ownTags files)).map (captured authority)).Perm
      ((ownTags files).map (captured authority)) :=
    (sortOn_perm _ _).map _
  rw [hPerm.nodup_iff, Nodup, pairwise_map]
  refine ((pairwise_tagsOf hFiles.paths).sublist filter_sublist).imp_of_mem fun hr hr' hApart hSame => hApart ?_
  exact captured_injective (hRepositories _ (mem_tagsOf_of_mem_ownTags hr))
    (hRepositories _ (mem_tagsOf_of_mem_ownTags hr')) hSame

/-- What sealing lists, and that it lists every tag once. -/
structure Lists (authority : Bytes) (files : List LinkFile) (inventory : ImageInventory) : Prop where
  once : ((listed inventory).map (·.1)).Nodup
  mem_iff : ∀ entry, entry ∈ listed inventory ↔ ∃ t ∈ ownTags files, entry = (captured authority t, t.manifestDigest) ∧
    ∃ r, Leads files r t ∧ looksInternal (captured authority r) = false

theorem IsGroup.mem_tags {references : List RegistryReference} (h : IsGroup authority references image) {tag : Bytes} :
    tag ∈ image.originalTags.getD [] ↔
      ∃ t ∈ references, t.manifestDigest = image.capturedManifestDigest ∧ captured authority t = tag := by
  obtain ⟨tags, hTags, hPerm⟩ := h.tags
  rw [hTags, getD_some, hPerm.mem_iff]
  simp only [List.mem_map, List.mem_filter, decide_eq_true_eq, and_assoc]

theorem IsGroup.nodup {references : List RegistryReference} (h : IsGroup authority references image)
    (hReferences : (references.map (captured authority)).Nodup) : (image.originalTags.getD []).Nodup := by
  obtain ⟨tags, hTags, hPerm⟩ := h.tags
  rw [hTags, getD_some, hPerm.nodup_iff]
  exact hReferences.sublist (filter_sublist.map _)

variable {references : List RegistryReference} {c : Catalog}

/-- The images of a catalog that are not left out, in the order of the inventory. -/
def kept (c : Catalog) : List Image :=
  (sortOn imageKey c.images).filter fun image =>
    !(image.source = .known .registry && looksInternal image.capturedReference)

theorem Grouped.mem_kept (h : Grouped authority references c) :
    image ∈ kept c ↔ image ∈ c.images ∧ looksInternal image.capturedReference = false := by
  rw [kept, mem_filter, (sortOn_perm _ _).mem_iff]
  refine and_congr_right fun hImage => ?_
  simp [(h.each image hImage).source]

theorem Grouped.nodup_kept (h : Grouped authority references c)
    (hReferences : (references.map (captured authority)).Nodup) :
    ((kept c).flatMap fun image => image.originalTags.getD []).Nodup := by
  have hGroup (image : Image) (hImage : image ∈ kept c) : IsGroup authority references image :=
    h.each image (h.mem_kept.mp hImage).1
  have hDigests : ((kept c).map (·.capturedManifestDigest)).Nodup := by
    have hPerm := (sortOn_perm imageKey c.images).map (·.capturedManifestDigest)
    exact (hPerm.nodup_iff.mpr h.digests).sublist (filter_sublist.map _)
  rw [nodup_flatMap]
  refine ⟨fun image hImage => (hGroup image hImage).nodup hReferences, ?_⟩
  refine (pairwise_map.mp hDigests).imp_of_mem fun {image image'} hImage hImage' hApart tag hTag hTag' => hApart ?_
  obtain ⟨t, ht, hDigest, hCaptured⟩ := (hGroup image hImage).mem_tags.mp hTag
  obtain ⟨t', ht', hDigest', hCaptured'⟩ := (hGroup image' hImage').mem_tags.mp hTag'
  have hSame : t = t' := inj_on_of_nodup_map hReferences ht ht' (hCaptured.trans hCaptured'.symm)
  rw [← hDigest, ← hDigest', hSame]

theorem Grouped.mem_listed (hFiles : Storage files) (h : Grouped authority (sortOn referenceKey (ownTags files)) c)
    (entry : Bytes × Bytes) :
    (∃ image ∈ kept c, ∃ tag ∈ image.originalTags.getD [], (tag, image.capturedManifestDigest) = entry) ↔
      ∃ t ∈ ownTags files, entry = (captured authority t, t.manifestDigest) ∧
        ∃ r, Leads files r t ∧ looksInternal (captured authority r) = false := by
  have hOwn : ∀ {r'}, r' ∈ ownTags files ↔ r' ∈ sortOn referenceKey (ownTags files) := (sortOn_perm _ _).mem_iff.symm
  constructor
  · rintro ⟨image, hKept, tag, hTag, rfl⟩
    obtain ⟨hImage, hOwnImage⟩ := h.mem_kept.mp hKept
    obtain ⟨t, ht, hDigest, rfl⟩ := (h.each image hImage).mem_tags.mp hTag
    obtain ⟨r, hFind, hReference⟩ := (h.each image hImage).leader
    rw [← hDigest] at hFind ⊢
    exact ⟨t, hOwn.mpr ht, rfl, r, leads_of_find? hFind, hReference ▸ hOwnImage⟩
  · rintro ⟨t, ht, rfl, r, hLeads, hExternal⟩
    obtain ⟨image, hImage, hDigest⟩ := mem_map.mp (h.covers t (hOwn.mp ht))
    obtain ⟨r', hFind, hReference⟩ := (h.each image hImage).leader
    rw [hDigest] at hFind
    obtain rfl : r = r' := hLeads.eq hFiles (leads_of_find? hFind)
    refine ⟨image, h.mem_kept.mpr ⟨hImage, hReference ▸ hExternal⟩, captured authority t, ?_, by rw [hDigest]⟩
    exact (h.each image hImage).mem_tags.mpr ⟨t, hOwn.mp ht, hDigest.symm, rfl⟩

theorem sealedInventory_lists (hFiles : Storage files) (hAuthority : validateAuthority authority = .ok ())
    (hTime : generatedAt.isZero = false) (hRepositories : ∀ t ∈ tagsOf files, repositoryPattern t.repository = true) :
    ∃ inventory, sealedInventory authority generatedAt files = .ok inventory ∧ Lists authority files inventory := by
  have hOwn : ∀ {r'}, r' ∈ sortOn referenceKey (ownTags files) → r' ∈ tagsOf files := fun h =>
    mem_tagsOf_of_mem_ownTags ((sortOn_perm _ _).mem_iff.mp h)
  have hSealed : registrySnapshotReferences files = .ok (sortOn referenceKey (ownTags files)) := by
    rw [registrySnapshotReferences, foldlM_visit hRepositories hFiles.valid hFiles.small (pairwise_tagsOf hFiles.paths)]
    rfl
  have hEmpty : Grouped authority [] ⟨[], []⟩ := ⟨rfl, List.nodup_nil, nofun, nofun⟩
  have hCatalog : ∃ c, (sortOn referenceKey (ownTags files)).foldlM
      (addReference authority generatedAt) ⟨[], []⟩ = .ok c ∧
      Grouped authority (sortOn referenceKey (ownTags files)) c :=
    hEmpty.addReferences (fun r hr => hRepositories r (hOwn hr)) (fun r hr => hFiles.valid r (hOwn hr))
      (nodup_captured hFiles hRepositories)
  obtain ⟨c, hFold, hGrouped⟩ := hCatalog
  refine ⟨⟨schemaVersion, generatedAt.utc, some (kept c)⟩, ?_, ?_, ?_⟩
  · rw [sealedInventory, hSealed]
    simp only [bind, Except.bind, inventoryFromCatalog, refuse, hTime, hAuthority, hFold, pure, Except.pure]
    rfl
  · have hTags : (listed ⟨schemaVersion, generatedAt.utc, some (kept c)⟩).map (·.1) =
        (kept c).flatMap fun image => image.originalTags.getD [] := by
      simp only [listed, Option.getD_some, List.map_flatMap, List.map_map]
      exact List.flatMap_congr fun image _ => List.map_id _
    rw [hTags]
    exact hGrouped.nodup_kept (nodup_captured hFiles hRepositories)
  · intro entry
    rw [← hGrouped.mem_listed hFiles entry, listed, List.mem_flatMap]
    simp only [Option.getD_some, List.mem_map]

def Internal (t : RegistryReference) : Prop :=
  isSeed t.repository t.tag = true ∨ lit "hauler/" <+: t.repository ∧ lit ".tar.zst" <:+ t.repository

/-- Every tag of the user is listed once with its digest, and no tag that is only Camp's own. -/
structure Faithful (authority : Bytes) (files : List LinkFile) (user : RegistryReference → Prop)
    (inventory : ImageInventory) :
    Prop where
  once : ((listed inventory).map (·.1)).Nodup
  every : ∀ t ∈ tagsOf files, user t → (captured authority t, t.manifestDigest) ∈ listed inventory
  only : ∀ t ∈ tagsOf files, ¬ user t → Internal t → captured authority t ∉ (listed inventory).map (·.1)

/-- Every repository has the expected form; a tag of the user is not the session seed and the first
reference of its digest does not look internal; the first reference of a tag of Camp's own does. -/
structure Separate (authority : Bytes) (files : List LinkFile) (user : RegistryReference → Prop) : Prop where
  repositories : ∀ t ∈ tagsOf files, repositoryPattern t.repository = true
  users : ∀ t ∈ tagsOf files, user t → isSeed t.repository t.tag = false ∧
    ∀ r, Leads files r t → looksInternal (captured authority r) = false
  own : ∀ t ∈ tagsOf files, ¬ user t → Internal t → isSeed t.repository t.tag = true ∨
    ∃ r, Leads files r t ∧ looksInternal (captured authority r) = true

theorem Lists.mem_tag_iff (h : Lists authority files inventory) (hFiles : Storage files)
    (hRepositories : ∀ t ∈ tagsOf files, repositoryPattern t.repository = true) (ht : t ∈ tagsOf files) :
    captured authority t ∈ (listed inventory).map (·.1) ↔ isSeed t.repository t.tag = false ∧
      ∃ r, Leads files r t ∧ looksInternal (captured authority r) = false := by
  have hOwn : t ∈ ownTags files ↔ isSeed t.repository t.tag = false := by simp [ownTags, ht]
  rw [List.mem_map, ← hOwn]
  constructor
  · rintro ⟨entry, hEntry, hTag⟩
    obtain ⟨t', ht', rfl, hLeader⟩ := (h.mem_iff entry).mp hEntry
    have hSame : t' = t := eq_of_sameTag hFiles (mem_tagsOf_of_mem_ownTags ht') ht
      (captured_injective (hRepositories t' (mem_tagsOf_of_mem_ownTags ht')) (hRepositories t ht) hTag)
    exact hSame ▸ ⟨ht', hLeader⟩
  · rintro ⟨ht, hLeader⟩
    exact ⟨_, (h.mem_iff _).mpr ⟨t, ht, rfl, hLeader⟩, rfl⟩

theorem Lists.mem_entry_iff (h : Lists authority files inventory) (hFiles : Storage files)
    (hRepositories : ∀ t ∈ tagsOf files, repositoryPattern t.repository = true) (ht : t ∈ tagsOf files) :
    (captured authority t, t.manifestDigest) ∈ listed inventory ↔
        captured authority t ∈ (listed inventory).map (·.1) := by
  refine ⟨fun hEntry => mem_map_of_mem hEntry, fun hTag => ?_⟩
  obtain ⟨hSeed, hLeader⟩ := (h.mem_tag_iff hFiles hRepositories ht).mp hTag
  exact (h.mem_iff _).mpr ⟨t, by simp [ownTags, ht, hSeed], rfl, hLeader⟩

theorem exists_leads (ht : t ∈ ownTags files) : ∃ r, Leads files r t := by
  have hSome : ((sortOn referenceKey (ownTags files)).find? (·.manifestDigest = t.manifestDigest)).isSome = true :=
    List.find?_isSome.mpr ⟨t, (sortOn_perm _ _).mem_iff.mpr ht, by simp⟩
  obtain ⟨r, hFind⟩ := isSome_iff_exists.mp hSome
  exact ⟨r, leads_of_find? hFind⟩

/-- What is sealed is the user's exactly when the tags of the user and of Camp are separate. -/
theorem sealing_faithful_iff (hFiles : Storage files) (hAuthority : validateAuthority authority = .ok ())
    (hTime : generatedAt.isZero = false) (user : RegistryReference → Prop) :
    (∃ inventory, sealedInventory authority generatedAt files = .ok inventory ∧
      Faithful authority files user inventory) ↔
      Separate authority files user := by
  constructor
  · rintro ⟨inventory, hSealed, hFaithful⟩
    have hRepositories : ∀ t ∈ tagsOf files, repositoryPattern t.repository = true := by
      obtain ⟨references, hReferences, -⟩ := Checks.bind_eq_ok.mp hSealed
      rw [registrySnapshotReferences] at hReferences
      rcases hFold : files.foldlM visit [] with e | found
      · rw [hFold] at hReferences
        cases hReferences
      · exact repositories_of_foldlM hFold
    have hLists : Lists authority files inventory := by
      obtain ⟨inventory', hSealed', hLists⟩ := sealedInventory_lists hFiles hAuthority hTime hRepositories
      cases hSealed.symm.trans hSealed'
      exact hLists
    refine ⟨hRepositories, fun t ht hUser => ?_, fun t ht hUser hInternal => ?_⟩
    · have hTag := (hLists.mem_entry_iff hFiles hRepositories ht).mp (hFaithful.every t ht hUser)
      obtain ⟨hSeed, r, hLeads, hExternal⟩ := (hLists.mem_tag_iff hFiles hRepositories ht).mp hTag
      exact ⟨hSeed, fun r' hr' => hLeads.eq hFiles hr' ▸ hExternal⟩
    · have hTag := hFaithful.only t ht hUser hInternal
      rw [hLists.mem_tag_iff hFiles hRepositories ht, not_and_or] at hTag
      rcases hTag with hSeed | hLeaders
      · exact .inl (by simpa using hSeed)
      · by_cases hSeed : isSeed t.repository t.tag = true
        · exact .inl hSeed
        · obtain ⟨r, hLeads⟩ : ∃ r, Leads files r t := exists_leads (by simp [ownTags, ht, hSeed])
          refine .inr ⟨r, hLeads, ?_⟩
          by_contra hExternal
          exact hLeaders ⟨r, hLeads, by simpa using hExternal⟩
  · intro hSeparate
    obtain ⟨inventory, hSealed, hLists⟩ := sealedInventory_lists hFiles hAuthority hTime hSeparate.repositories
    refine ⟨inventory, hSealed, hLists.once, fun t ht hUser => ?_, fun t ht hUser hInternal => ?_⟩
    · obtain ⟨hSeed, hExternal⟩ := hSeparate.users t ht hUser
      obtain ⟨r, hLeads⟩ : ∃ r, Leads files r t := exists_leads (by simp [ownTags, ht, hSeed])
      rw [hLists.mem_entry_iff hFiles hSeparate.repositories ht, hLists.mem_tag_iff hFiles hSeparate.repositories ht]
      exact ⟨hSeed, r, hLeads, hExternal r hLeads⟩
    · rw [hLists.mem_tag_iff hFiles hSeparate.repositories ht]
      rintro ⟨hNotSeed, r, hLeads, hExternal⟩
      rcases hSeparate.own t ht hUser hInternal with hSeed | ⟨r', hLeads', hOwn⟩
      · rw [hNotSeed] at hSeed
        cases hSeed
      · rw [hLeads.eq hFiles hLeads', hOwn] at hExternal
        cases hExternal

section Samples

def sampleDigest (digit : UInt8) : Bytes := lit "sha256:" ++ replicate 64 digit

def sampleTime : Time := ⟨1, 0⟩

def sampleFile (repository tag : String) (digit : UInt8) : LinkFile :=
  ⟨lit repository ++ lit "/_manifests/tags/" ++ lit tag ++ lit "/current/link", sampleDigest digit⟩

/-- A tag of the user with its own image, beside a file projection and the session seed. -/
def separateFiles : List LinkFile :=
  [sampleFile "zeta/app" "v1" 48, sampleFile "hauler/root.tar.zst" "latest" 49,
    sampleFile "hauler/camp-session-seed" "latest" 50]

def sharedFiles : List LinkFile := [sampleFile "zeta/app" "v1" 48, sampleFile "hauler/root.tar.zst" "latest" 48]

def pushedByUser (t : RegistryReference) : Prop := t.repository = lit "zeta/app"

instance : DecidablePred pushedByUser := fun t => inferInstanceAs (Decidable (t.repository = _))

instance : DecidablePred Internal := fun _ => inferInstanceAs (Decidable (_ ∨ _))

theorem separateFiles_faithful :
    ∃ inventory, sealedInventory (lit "127.0.0.1:5000") sampleTime separateFiles = .ok inventory ∧
      Faithful (lit "127.0.0.1:5000") separateFiles pushedByUser inventory := by
  have hFiles : Storage separateFiles := ⟨by decide, by decide, by decide⟩
  have hUsers : ∀ t ∈ tagsOf separateFiles, pushedByUser t → isSeed t.repository t.tag = false ∧
      ∀ r ∈ ownTags separateFiles, r.manifestDigest = t.manifestDigest →
        looksInternal (captured (lit "127.0.0.1:5000") r) = false := by decide
  have hOwn : ∀ t ∈ tagsOf separateFiles, ¬ pushedByUser t → Internal t → isSeed t.repository t.tag = true ∨
      ∃ r ∈ ownTags separateFiles, (r.manifestDigest = t.manifestDigest ∧ ∀ r' ∈ ownTags separateFiles,
        r'.manifestDigest = t.manifestDigest → referenceKey r ≤ referenceKey r') ∧
          looksInternal (captured (lit "127.0.0.1:5000") r) = true := by decide
  refine (sealing_faithful_iff hFiles rfl rfl pushedByUser).mpr ⟨by decide, ?_, ?_⟩
  · exact fun t ht hUser => ⟨(hUsers t ht hUser).1, fun r hr => (hUsers t ht hUser).2 r hr.mem hr.digest⟩
  · intro t ht hUser hInternal
    refine (hOwn t ht hUser hInternal).imp_right ?_
    rintro ⟨r, hr, ⟨hDigest, hLeast⟩, hLooks⟩
    exact ⟨r, ⟨hr, hDigest, hLeast⟩, hLooks⟩

theorem shared_manifest_loses_tag : Storage sharedFiles ∧ validateAuthority (lit "127.0.0.1:5000") = .ok () ∧
    sampleTime.isZero = false ∧ (∃ t ∈ tagsOf sharedFiles, pushedByUser t) ∧
    ¬ ∃ inventory, sealedInventory (lit "127.0.0.1:5000") sampleTime sharedFiles = .ok inventory ∧
      Faithful (lit "127.0.0.1:5000") sharedFiles pushedByUser inventory := by
  have hListed : (sealedInventory (lit "127.0.0.1:5000") sampleTime sharedFiles).map listed = .ok [] := by decide
  have hUser : ∃ t ∈ tagsOf sharedFiles, pushedByUser t := ⟨⟨lit "zeta/app", lit "v1", sampleDigest 48⟩, by decide, rfl⟩
  refine ⟨⟨by decide, by decide, by decide⟩, rfl, rfl, hUser, ?_⟩
  rintro ⟨inventory, hSealed, hFaithful⟩
  obtain ⟨t, ht, hPushed⟩ := hUser
  have hEntry := hFaithful.every t ht hPushed
  rw [hSealed] at hListed
  have hNone : listed inventory = [] := Except.ok.inj hListed
  rw [hNone] at hEntry
  exact not_mem_nil hEntry

end Samples

end Listing

end Camp.Registry
