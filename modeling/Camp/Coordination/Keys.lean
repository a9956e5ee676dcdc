import Camp.Program.Paths
import Camp.Coordination.Documents

/-!
# The keys of the shared documents

Every key is a path of segments: the capsule, the place of the lineage, and the file.
The segments of a key tell which document it is for. A key in a listing is read back
to find the pointers that are there.
-/

namespace Camp.Coordination

open Wire.Utf8 Program Program.Paths List Lineage

/-- A pointer key in a listing: the capsule and the lineage it is for. -/
def pointerIdentityFromKey (key : Bytes) : Option (Bytes × Lineage) :=
  match parts key with
  | [capsule, file] =>
    if file = lit "latest.json" ∧ capsule ≠ [] then some (capsule, ⟨lit "main"⟩) else none
  | [capsule, folder, branch, file] =>
    if folder = lit "branches" ∧ file = lit "latest.json" ∧ capsule ≠ [] ∧ branch ≠ [] then
      some (capsule, ⟨branch⟩)
    else none
  | _ => none

inductive Document where
  | pointer
  | lease
  | metadata (generation : GenerationRef)
  deriving DecidableEq

open Document

def Document.key (capsule : Bytes) (lineage : Lineage) : Document → Except Error Bytes
  | .pointer => lineage.pointerKey capsule
  | .lease => lineage.leaseKey capsule
  | .metadata generation => generationMetadataKey capsule lineage generation

section Segments

variable {capsule k : Bytes} {lineage : Lineage}

def Lineage.folder (l : Lineage) : List Bytes :=
  if l.isMain then [] else [lit "branches", l.branch]

def Document.file : Document → List Bytes
  | .pointer => [lit "latest.json"]
  | .lease => [lit "leases", lit "writer.json"]
  | .metadata generation => [lit "generations", generationName generation ++ lit ".json"]

def Document.Valid : Document → Prop
  | .metadata generation => validateGenerationRef generation = .ok ()
  | _ => True

theorem root_append_glue {names : List Bytes} (h : names ≠ []) (l : Lineage) (capsule : Bytes) :
    l.root capsule ++ glue names = glue (capsule :: (Lineage.folder l ++ names)) := by
  have hNames : Lineage.folder l ++ names ≠ [] := by simp [h]
  rw [glue_cons hNames, Lineage.root_eq]
  unfold Lineage.rest Lineage.folder
  split_ifs
  · simp [slash]
  · have hBranches : lit "branches/" = lit "branches" ++ [slash] := by decide
    have hSlash : lit "/" = [slash] := by decide
    rw [cons_append, singleton_append, glue_cons (cons_ne_nil _ _), glue_cons h,
      hBranches, hSlash]
    simp [slash]

theorem key_eq_ok {d : Document} :
    d.key capsule lineage = .ok k ↔ isSegment capsule ∧ isSegment lineage.branch ∧ d.Valid ∧
      k = glue (capsule :: (Lineage.folder lineage ++ d.file)) := by
  cases d with
  | pointer =>
    rw [← root_append_glue (by simp [Document.file])]
    simp [Document.key, Lineage.pointerKey, Lineage.key_eq_ok, Document.Valid, Document.file, glue_singleton]
  | lease =>
    rw [← root_append_glue (by simp [Document.file])]
    have hFile : glue (Document.file .lease) = lit "leases/writer.json" := by decide
    simp [Document.key, Lineage.leaseKey, Lineage.key_eq_ok, Document.Valid, hFile]
  | metadata generation =>
    rw [← root_append_glue (by simp [Document.file])]
    have hFile : glue (Document.file (.metadata generation)) =
        lit "generations/" ++ generationName generation ++ lit ".json" := by
      have hGenerations : lit "generations/" = lit "generations" ++ [slash] := by decide
      rw [Document.file, glue_cons (cons_ne_nil _ _), glue_singleton, hGenerations]
      simp
    rw [Document.key, generationMetadataKey, Checks.bind_eq_ok, hFile]
    constructor
    · rintro ⟨root, hRoot, h⟩
      obtain ⟨key, hKey, hRoot⟩ := Checks.bind_eq_ok.mp hRoot
      obtain ⟨hCapsule, hBranch, -⟩ := Lineage.key_eq_ok.mp hKey
      obtain ⟨_, hValid, h⟩ := Checks.bind_eq_ok.mp h
      cases hRoot
      cases h
      exact ⟨hCapsule, hBranch, hValid, by simp only [append_assoc]⟩
    · rintro ⟨hCapsule, hBranch, hValid, rfl⟩
      have hValid : validateGenerationRef generation = .ok () := hValid
      refine ⟨lineage.root capsule ++ lit "generations/", ?_, ?_⟩
      · rw [generationMetadataPrefix, Checks.bind_eq_ok]
        exact ⟨_, Lineage.key_eq_ok.mpr ⟨hCapsule, hBranch, rfl⟩, rfl⟩
      · rw [hValid]
        simp only [append_assoc]
        rfl

theorem generationObjectKey_eq_ok {g : GenerationRef} :
    generationObjectKey capsule lineage g = .ok k ↔
      isSegment capsule ∧ isSegment lineage.branch ∧ validateGenerationRef g = .ok () ∧
        k = glue [capsule, lit "generations", generationName g ++ lit ".tar.zst"] := by
  have hGlue : glue [capsule, lit "generations", generationName g ++ lit ".tar.zst"] =
      capsule ++ lit "/generations/" ++ generationName g ++ lit ".tar.zst" := by
    have hGenerations : lit "/generations/" = slash :: lit "generations" ++ [slash] := by decide
    rw [glue_cons (cons_ne_nil _ _), glue_cons (cons_ne_nil _ _), glue_singleton,
      hGenerations]
    simp
  rw [generationObjectKey, Checks.bind_eq_ok, hGlue]
  constructor
  · rintro ⟨key, hKey, h⟩
    obtain ⟨hCapsule, hBranch, -⟩ := Lineage.key_eq_ok.mp hKey
    obtain ⟨_, hValid, h⟩ := Checks.bind_eq_ok.mp h
    cases h
    exact ⟨hCapsule, hBranch, hValid, rfl⟩
  · rintro ⟨hCapsule, hBranch, hValid, rfl⟩
    refine ⟨_, Lineage.key_eq_ok.mpr ⟨hCapsule, hBranch, rfl⟩, ?_⟩
    rw [hValid]
    rfl

end Segments

section Injective

variable {g : GenerationRef} {l l' : Lineage} {capsule : Bytes} {d d' : Document}
variable {capsule' k : Bytes}

theorem decimal_inj {m n : Nat} (h : decimal m = decimal n) : m = n := by
  have hDigits : Nat.toDigits 10 m = Nat.toDigits 10 n := by
    simpa [decimal, lit] using encode_injective h
  have hValue := congrArg (fun digits => Nat.ofDigitChars 10 digits 0) hDigits
  simpa [Nat.ofDigitChars_toDigits] using hValue

theorem slash_notMem_decimal (n : Nat) : slash ∉ decimal n := by
  intro hMem
  obtain ⟨c, hc, hByte⟩ := mem_flatMap.mp hMem
  have hDigit : c.isDigit := by
    apply Nat.isDigit_of_mem_toDigits (b := 10) (n := n) (by omega) (by omega)
    simpa using hc
  simp only [Char.isDigit, Bool.and_eq_true, decide_eq_true_eq] at hDigit
  have hLow : 48 ≤ c.toNat := hDigit.1
  have hHigh : c.toNat ≤ 57 := hDigit.2
  rw [encodeNat, if_pos (by omega), mem_singleton] at hByte
  have hSlash := congrArg UInt8.toNat hByte
  rw [UInt8.toNat_ofNat_of_lt' (by show c.toNat < 256; omega)] at hSlash
  have hValue : slash.toNat = 47 := rfl
  omega

theorem slash_notMem_generationName (h : validateGenerationRef g = .ok ()) : slash ∉ generationName g := by
  intro hMem
  rcases mem_append.mp hMem with hMem | hMem
  · rcases mem_append.mp hMem with hMem | hMem
    · exact slash_notMem_decimal _ hMem
    · exact absurd hMem (by decide)
  · exact absurd ((hex_of_validateGenerationRef h).2 slash hMem) (by decide)

theorem generationName_inj {g' : GenerationRef} (h : validateGenerationRef g = .ok ())
    (h' : validateGenerationRef g' = .ok ()) (hName : generationName g = generationName g') : g = g' := by
  have hLength : g.archiveSHA256.length = g'.archiveSHA256.length :=
    (hex_of_validateGenerationRef h).1.trans (hex_of_validateGenerationRef h').1.symm
  obtain ⟨hNumber, hDigest⟩ := append_inj' hName hLength
  have hGeneration := decimal_inj (append_cancel_right hNumber)
  obtain ⟨generation, digest⟩ := g
  obtain ⟨generation', digest'⟩ := g'
  cases UInt64.toNat_inj.mp hGeneration
  cases hDigest
  rfl

theorem folder_inj (h : Lineage.folder l = Lineage.folder l') : l = l' := by
  obtain ⟨branch⟩ := l
  obtain ⟨branch'⟩ := l'
  unfold Lineage.folder Lineage.isMain at h
  split_ifs at h with hMain hMain'
  · exact congrArg _ ((eq_of_beq hMain).trans (eq_of_beq hMain').symm)
  · simpa using h

theorem slash_notMem_segments {lineage : Lineage} (hCapsule : isSegment capsule) (hBranch : isSegment lineage.branch)
    (hValid : d.Valid) : ∀ name ∈ capsule :: (Lineage.folder lineage ++ d.file), slash ∉ name := by
  intro name hName
  rcases mem_cons.mp hName with rfl | hName
  · exact slash_notMem hCapsule
  rcases mem_append.mp hName with hName | hName
  · unfold Lineage.folder at hName
    split_ifs at hName
    · cases hName
    · simp only [mem_cons, not_mem_nil, or_false] at hName
      rcases hName with rfl | rfl
      · decide
      · exact slash_notMem hBranch
  · cases d with
    | pointer =>
      rw [mem_singleton.mp hName]
      decide
    | lease =>
      simp only [file, mem_cons, not_mem_nil, or_false] at hName
      rcases hName with rfl | rfl <;> decide
    | metadata g =>
      simp only [file, mem_cons, not_mem_nil, or_false] at hName
      rcases hName with rfl | rfl
      · decide
      · intro hMem
        rcases mem_append.mp hMem with hMem | hMem
        · exact slash_notMem_generationName hValid hMem
        · exact absurd hMem (by decide)

theorem file_inj (hValid : d.Valid) (hValid' : d'.Valid) (h : d.file = d'.file) : d = d' := by
  cases d <;> cases d' <;> simp only [file, List.cons.injEq] at h
  case pointer.pointer | lease.lease => rfl
  case metadata.metadata g g' =>
    rw [generationName_inj hValid hValid' (append_cancel_right h.2.1)]
  case lease.metadata => exact absurd h.1 (by decide)
  case metadata.lease => exact absurd h.1 (by decide)
  all_goals simp at h

theorem segments_inj (hValid : d.Valid) (hValid' : d'.Valid)
    (h : Lineage.folder l ++ d.file = Lineage.folder l' ++ d'.file) : d = d' ∧ l = l' := by
  have hFile (d : Document) : d.file.length = 1 ∨ d.file.length = 2 := by
    cases d <;> simp [file]
  have hFolder (l : Lineage) : (Lineage.folder l).length = 0 ∨ (Lineage.folder l).length = 2 := by
    unfold Lineage.folder
    split_ifs <;> simp
  have hTotal := congrArg List.length h
  rw [length_append, length_append] at hTotal
  have hSame : (Lineage.folder l).length = (Lineage.folder l').length := by
    rcases hFile d with hd | hd <;> rcases hFile d' with hd' | hd' <;>
      rcases hFolder l with hl | hl <;> rcases hFolder l' with hl' | hl' <;> omega
  obtain ⟨hFolders, hFiles⟩ := append_inj h hSame
  exact ⟨file_inj hValid hValid' hFiles, folder_inj hFolders⟩

theorem document_of_key (h : d.key capsule l = .ok k) (h' : d'.key capsule' l' = .ok k) :
    d = d' ∧ capsule = capsule' ∧ l = l' := by
  obtain ⟨hCapsule, hBranch, hValid, rfl⟩ := key_eq_ok.mp h
  obtain ⟨hCapsule', hBranch', hValid', hSame⟩ := key_eq_ok.mp h'
  have hParts := congrArg parts hSame
  rw [parts_glue (slash_notMem_segments hCapsule hBranch hValid) (cons_ne_nil _ _),
    parts_glue (slash_notMem_segments hCapsule' hBranch' hValid') (cons_ne_nil _ _)] at hParts
  obtain ⟨rfl, hRest⟩ := List.cons.inj hParts
  obtain ⟨rfl, rfl⟩ := segments_inj hValid hValid' hRest
  exact ⟨rfl, rfl, rfl⟩

theorem key_ne_generationObjectKey {k' : Bytes} (h : d.key capsule l = .ok k)
    (h' : generationObjectKey capsule' l' g = .ok k') : k ≠ k' := by
  obtain ⟨-, -, -, rfl⟩ := key_eq_ok.mp h
  obtain ⟨-, -, -, rfl⟩ := generationObjectKey_eq_ok.mp h'
  have hDocument : ∃ text, glue (capsule :: (Lineage.folder l ++ d.file)) = text ++ lit ".json" := by
    rw [← root_append_glue (by cases d <;> simp [file])]
    cases d with
    | pointer =>
      refine ⟨l.root capsule ++ lit "latest", ?_⟩
      rw [append_assoc, file, glue_singleton]
      exact congrArg _ (by decide)
    | lease =>
      refine ⟨l.root capsule ++ lit "leases/writer", ?_⟩
      rw [append_assoc]
      exact congrArg _ (by decide)
    | metadata generation =>
      rw [file, glue_cons (cons_ne_nil _ _), glue_singleton]
      exact ⟨l.root capsule ++ (lit "generations" ++ slash :: generationName generation), by simp⟩
  have hArchive : ∃ text,
      glue [capsule', lit "generations", generationName g ++ lit ".tar.zst"] = text ++ lit "r.zst" := by
    have hSuffix : lit ".tar.zst" = lit ".ta" ++ lit "r.zst" := by decide
    rw [glue_cons (cons_ne_nil _ _), glue_cons (cons_ne_nil _ _), glue_singleton, hSuffix]
    exact ⟨capsule' ++ slash :: (lit "generations" ++ slash :: (generationName g ++ lit ".ta")),
      by simp⟩
  obtain ⟨text, hText⟩ := hDocument
  obtain ⟨text', hText'⟩ := hArchive
  rw [hText, hText']
  intro hSame
  exact absurd (append_inj' hSame (by decide)).2 (by decide)

end Injective

section Identity

variable {capsule key k : Bytes} {l : Lineage}

/-- What the branch `main` would be under, if it were not in the capsule's own place. -/
def branchKey (capsule : Bytes) (l : Lineage) : Bytes :=
  glue [capsule, lit "branches", l.branch, lit "latest.json"]

theorem pointerIdentityFromKey_eq_some (hCapsule : isSegment capsule) (hBranch : isSegment l.branch) :
    pointerIdentityFromKey key = some (capsule, l) ↔
      (l.isMain ∧ key = glue [capsule, lit "latest.json"]) ∨ key = branchKey capsule l := by
  have hNonempty {s : Bytes} (hs : isSegment s) : s ≠ [] := by
    rintro rfl
    exact absurd hs (by decide)
  have hLast : 47 ∉ lit "latest.json" := by decide
  have hBranches : 47 ∉ lit "branches" := by decide
  constructor
  · intro h
    unfold pointerIdentityFromKey at h
    rw [← glue_parts key]
    split at h
    · rename_i first file hParts
      split_ifs at h with hFile
      cases h
      rw [hParts, hFile.1]
      exact .inl ⟨rfl, rfl⟩
    · rename_i first folder branch file hParts
      split_ifs at h with hFile
      cases h
      rw [hParts, hFile.1, hFile.2.1]
      exact .inr rfl
    · cases h
  · rintro (⟨hMain, rfl⟩ | rfl)
    · have hParts : parts (glue [capsule, lit "latest.json"]) = [capsule, lit "latest.json"] :=
        parts_glue (by simp [slash_notMem hCapsule, hLast, slash]) (cons_ne_nil _ _)
      obtain ⟨branch⟩ := l
      cases eq_of_beq hMain
      unfold pointerIdentityFromKey
      rw [hParts]
      exact if_pos ⟨rfl, hNonempty hCapsule⟩
    · have hParts : parts (branchKey capsule l) =
          [capsule, lit "branches", l.branch, lit "latest.json"] :=
        parts_glue (by simp [slash_notMem hCapsule, slash_notMem hBranch, hLast,
          hBranches, slash]) (cons_ne_nil _ _)
      unfold pointerIdentityFromKey
      rw [hParts]
      exact if_pos ⟨rfl, rfl, hNonempty hCapsule, hNonempty hBranch⟩

theorem pointerIdentityFromKey_exact_iff (h : l.pointerKey capsule = .ok k) :
    (pointerIdentityFromKey key = some (capsule, l) ↔ key = k) ↔
      ¬ (l.isMain ∧ key = branchKey capsule l) := by
  have hKey : Document.key capsule l .pointer = .ok k := h
  obtain ⟨hCapsule, hBranch, -, rfl⟩ := key_eq_ok.mp hKey
  rw [pointerIdentityFromKey_eq_some hCapsule hBranch]
  by_cases hMain : l.isMain
  · have hFolder : Lineage.folder l = [] := if_pos hMain
    have hOther : branchKey capsule l ≠ glue [capsule, lit "latest.json"] := by
      intro hSame
      have hTail := congrArg (List.drop capsule.length) hSame
      have hBranches : lit "branches" = 98 :: lit "ranches" := by decide
      simp only [branchKey, glue_cons, glue_singleton, ne_eq, reduceCtorEq, not_false_eq_true,
        drop_left, hBranches, cons_append, List.cons.injEq, true_and] at hTail
      exact absurd (congrArg List.head? hTail) (by simp [lit, encode, encodeNat])
    rw [hFolder]
    constructor
    · rintro hIff ⟨-, rfl⟩
      exact hOther (hIff.mp (.inr rfl))
    · intro hNot
      constructor
      · rintro (⟨-, rfl⟩ | rfl)
        · rfl
        · exact absurd ⟨hMain, rfl⟩ hNot
      · rintro rfl
        exact .inl ⟨hMain, rfl⟩
  · have hFolder : Lineage.folder l = [lit "branches", l.branch] := if_neg hMain
    rw [hFolder]
    simp [hMain, branchKey, Document.file]

end Identity

/-- Different documents have different keys, and none has the key of an archive. A listed
key is read back as the lineage whose pointer it is, except that a key under
`branches/main` is taken for the pointer of `main`, which is elsewhere. -/
theorem keys_injective_and_recovered_iff (capsule : Bytes) (l : Lineage) :
    (∀ (d d' : Document) (capsule' k : Bytes) (l' : Lineage),
      d.key capsule l = .ok k → d'.key capsule' l' = .ok k →
        d = d' ∧ capsule = capsule' ∧ l = l') ∧
    (∀ (d : Document) (capsule' k k' : Bytes) (l' : Lineage) (g : GenerationRef),
      d.key capsule l = .ok k → generationObjectKey capsule' l' g = .ok k' → k ≠ k') ∧
    ∀ k key : Bytes, l.pointerKey capsule = .ok k →
      ((pointerIdentityFromKey key = some (capsule, l) ↔ key = k) ↔
        ¬ (l.isMain ∧ key = branchKey capsule l)) :=
  ⟨fun _ _ _ _ _ => document_of_key, fun _ _ _ _ _ _ => key_ne_generationObjectKey,
    fun _ _ => pointerIdentityFromKey_exact_iff⟩

/-- A listed key that is no pointer key of the code is read back as the pointer of `main`. -/
theorem pointerIdentityFromKey_branches_main :
    pointerIdentityFromKey (lit "demo/branches/main/latest.json") = some (lit "demo", ⟨lit "main"⟩) ∧
      pointerKey ⟨lit "main"⟩ (lit "demo") ≠ .ok (lit "demo/branches/main/latest.json") := by
  decide

end Camp.Coordination
