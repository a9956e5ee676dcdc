import Camp.Domain.Validation
import Camp.Program.Checks
import Camp.Wire.Words

/-!
# Keys and checks of the shared documents

Each lineage of a capsule has a pointer and a writer lease in the object store,
and each generation an archive and a metadata sidecar. The keys are made of the
capsule and the branch, which are single segments.
-/

namespace Camp

open Wire Wire.Utf8 Program List

def validateObjectKeySegment (name : String) (value : Bytes) : Except Error Unit :=
  if isSegment value then .ok ()
  else .error (.message "invalid %s object-key segment %q" [lit name, value])

namespace Lineage

variable {l l' : Lineage} {capsule k : Bytes}
variable {file : String} {capsule' : Bytes}

def isMain (l : Lineage) : Bool := l.branch == lit "main"

def root (l : Lineage) (capsule : Bytes) : Bytes :=
  if l.isMain then capsule ++ lit "/" else capsule ++ lit "/branches/" ++ l.branch ++ lit "/"

def key (file : String) (l : Lineage) (capsule : Bytes) : Except Error Bytes := do
  validateObjectKeySegment "capsule" capsule
  validateObjectKeySegment "branch" l.branch
  return l.root capsule ++ lit file

def pointerKey : Lineage → Bytes → Except Error Bytes := key "latest.json"

def leaseKey : Lineage → Bytes → Except Error Bytes := key "leases/writer.json"

theorem key_eq_ok :
    key file l capsule = .ok k ↔
      isSegment capsule ∧ isSegment l.branch ∧ k = l.root capsule ++ lit file := by
  unfold key validateObjectKeySegment
  constructor
  · intro h
    split_ifs at h with hCapsule hBranch
    · cases h
      exact ⟨hCapsule, hBranch, rfl⟩
    · cases h
    · cases h
    · cases h
  · rintro ⟨hCapsule, hBranch, rfl⟩
    rw [if_pos hCapsule, if_pos hBranch]
    rfl

def rest (l : Lineage) : Bytes :=
  if l.isMain then [] else lit "branches/" ++ (l.branch ++ lit "/")

theorem root_eq (l : Lineage) (capsule : Bytes) : l.root capsule = capsule ++ 47 :: l.rest := by
  unfold root rest
  split_ifs
  · rfl
  · rw [append_assoc, append_assoc]
    rfl

theorem slash_notMem {s : Bytes} (h : isSegment s) : (47 : UInt8) ∉ s := by
  intro hMem
  simp only [isSegment, Bool.not_eq_true', Bool.or_eq_false_iff, containsSeparator,
    any_eq_false] at h
  exact absurd (h.2 47 hMem) (by decide)

theorem rest_injective (h : l.rest = l'.rest) : l = l' := by
  obtain ⟨branch⟩ := l
  obtain ⟨branch'⟩ := l'
  unfold rest isMain at h
  split_ifs at h with hMain hMain'
  · exact congrArg _ ((eq_of_beq hMain).trans (eq_of_beq hMain').symm)
  · exact absurd (congrArg List.length h) (by simp [lit, encode, encodeNat])
  · exact absurd (congrArg List.length h) (by simp [lit, encode, encodeNat])
  · exact congrArg _ (append_cancel_right (append_cancel_left h))

theorem key_injective (h : key file l capsule = .ok k) (h' : key file l' capsule' = .ok k) :
    capsule = capsule' ∧ l = l' := by
  obtain ⟨hCapsule, -, rfl⟩ := key_eq_ok.mp h
  obtain ⟨hCapsule', -, hSame⟩ := key_eq_ok.mp h'
  have hRoot := append_cancel_right hSame
  rw [root_eq, root_eq] at hRoot
  obtain ⟨hCapsules, hRest⟩ := Words.append_cons_inj (slash_notMem hCapsule) (slash_notMem hCapsule') hRoot
  exact ⟨hCapsules, rest_injective hRest⟩

theorem pointerKey_ne_leaseKey {k' : Bytes} (h : l.pointerKey capsule = .ok k) (h' : l'.leaseKey capsule' = .ok k') :
    k ≠ k' := by
  obtain ⟨-, -, rfl⟩ := key_eq_ok.mp h
  obtain ⟨-, -, rfl⟩ := key_eq_ok.mp h'
  have hFile : lit "leases/writer.json" = lit "leases/" ++ lit "writer.json" := by decide
  rw [hFile, ← append_assoc]
  intro hSame
  have hTail := (append_inj' hSame (by decide)).2
  exact absurd hTail (by decide)

end Lineage

namespace Coordination

variable {capsule : Bytes} {lineage : Lineage}
variable {g : GenerationRef} {pointer : LatestPointer}

def invalidDocument : Error := .sentinel .invalidDocument

def invalid (format : String) (args : List Bytes) : Error := .wrap format args invalidDocument

def decimal (n : Nat) : Bytes := lit (toString n)

def isUpper (b : UInt8) : Bool := 65 ≤ b && b ≤ 90

def isHex (b : UInt8) : Bool :=
  (48 ≤ b && b ≤ 57) || (97 ≤ b && b ≤ 102) || (65 ≤ b && b ≤ 70)

def validateGenerationRef (g : GenerationRef) : Except Error Unit := do
  if g.generation = 0 || g.archiveSHA256.length ≠ 64 || g.archiveSHA256.any isUpper then
    throw (invalid "invalid generation reference: %w" [])
  unless g.archiveSHA256.all isHex do throw (invalid "invalid generation sha256: %w" [])

def validateGenerationParent (child : GenerationRef) : Option GenerationRef → Except Error Unit
  | none => .ok ()
  | some parent => do
    validateGenerationRef parent
    if child.generation ≤ parent.generation then
      throw (invalid "parent generation %d does not precede child generation %d: %w"
        [decimal parent.generation.toNat, decimal child.generation.toNat])

/-- The number and the digest of a generation, as its files are named. -/
def generationName (g : GenerationRef) : Bytes :=
  decimal g.generation.toNat ++ lit "-" ++ g.archiveSHA256

def generationObjectKey (capsule : Bytes) (lineage : Lineage) (g : GenerationRef) :
    Except Error Bytes := do
  let _ ← lineage.pointerKey capsule
  validateGenerationRef g
  return capsule ++ lit "/generations/" ++ generationName g ++ lit ".tar.zst"

def generationMetadataPrefix (capsule : Bytes) (lineage : Lineage) : Except Error Bytes := do
  let _ ← lineage.pointerKey capsule
  return lineage.root capsule ++ lit "generations/"

def generationMetadataKey (capsule : Bytes) (lineage : Lineage) (g : GenerationRef) :
    Except Error Bytes := do
  let root ← generationMetadataPrefix capsule lineage
  validateGenerationRef g
  return root ++ generationName g ++ lit ".json"

def validatePointer (pointer : LatestPointer) (capsule : Bytes) (lineage : Lineage) :
    Except Error Unit := do
  if pointer.schemaVersion ≠ schemaVersion || pointer.capsule ≠ capsule ||
      pointer.lineage ≠ lineage then
    throw (invalid "pointer identity or schema mismatch: %w" [])
  let _ ← lineage.pointerKey capsule
  validateGenerationRef pointer.generation
  validateGenerationParent pointer.generation pointer.parent
  let wantObjectKey ← generationObjectKey capsule lineage pointer.generation
  if pointer.objectKey ≠ wantObjectKey || pointer.size < 0 || pointer.createdAt.isZero ||
      pointer.sessionID.isEmpty then
    throw (invalid "pointer lacks required publication metadata: %w" [])

def validateOpened : Option GenerationRef → Except Error Unit
  | none => .ok ()
  | some g => validateGenerationRef g

def validateLease (lease : WriterLease) (capsule : Bytes) (lineage : Lineage) :
    Except Error Unit := do
  if lease.schemaVersion ≠ schemaVersion || lease.capsule ≠ capsule || lease.lineage ≠ lineage then
    throw (invalid "lease identity or schema mismatch: %w" [])
  let _ ← lineage.leaseKey capsule
  if lease.sessionID.isEmpty || lease.machine.isEmpty || lease.createdAt.isZero ||
      lease.createdAt.after lease.heartbeatAt || !lease.expiresAt.after lease.heartbeatAt then
    throw (invalid "lease lacks valid ownership or time bounds: %w" [])
  validateOpened lease.openedGeneration

theorem hex_of_validateGenerationRef (h : validateGenerationRef g = .ok ()) :
    g.archiveSHA256.length = 64 ∧ ∀ b ∈ g.archiveSHA256, isHex b := by
  unfold validateGenerationRef at h
  by_cases hShape : (g.generation = 0 || g.archiveSHA256.length ≠ 64 ||
      g.archiveSHA256.any isUpper) = true
  · simp only [hShape, if_true] at h
    cases h
  · by_cases hHex : g.archiveSHA256.all isHex = true
    · simp only [Bool.or_eq_true, decide_eq_true_eq, not_or, not_not] at hShape
      exact ⟨hShape.1.2, all_eq_true.mp hHex⟩
    · simp only [hShape, hHex] at h
      cases h

theorem sanitize_of_validateGenerationRef (h : validateGenerationRef g = .ok ()) :
    sanitize g.archiveSHA256 = g.archiveSHA256 := by
  apply sanitize_ascii
  intro b hb
  have hByte := (hex_of_validateGenerationRef h).2 b hb
  simp only [isHex, Bool.or_eq_true, Bool.and_eq_true, decide_eq_true_eq,
    UInt8.le_iff_toNat_le] at hByte
  rcases hByte with (⟨-, hb⟩ | ⟨-, hb⟩) | ⟨-, hb⟩ <;> exact Nat.lt_of_le_of_lt hb (by decide)

theorem identity_of_validatePointer (h : validatePointer pointer capsule lineage = .ok ()) :
    pointer.capsule = capsule ∧ pointer.lineage = lineage := by
  by_cases hIdentity : (pointer.schemaVersion ≠ schemaVersion || pointer.capsule ≠ capsule ||
      pointer.lineage ≠ lineage) = true
  · unfold validatePointer at h
    simp only [hIdentity, if_true] at h
    cases h
  · simp only [Bool.or_eq_true, decide_eq_true_eq, not_or, not_not] at hIdentity
    exact ⟨hIdentity.1.2, hIdentity.2⟩

theorem identity_of_validateLease {lease : WriterLease} (h : validateLease lease capsule lineage = .ok ()) :
    lease.capsule = capsule ∧ lease.lineage = lineage := by
  by_cases hIdentity : (lease.schemaVersion ≠ schemaVersion || lease.capsule ≠ capsule ||
      lease.lineage ≠ lineage) = true
  · unfold validateLease at h
    simp only [hIdentity, if_true] at h
    cases h
  · simp only [Bool.or_eq_true, decide_eq_true_eq, not_or, not_not] at hIdentity
    exact ⟨hIdentity.1.2, hIdentity.2⟩

theorem generation_of_validatePointer (h : validatePointer pointer capsule lineage = .ok ()) :
    validateGenerationRef pointer.generation = .ok () ∧
      validateGenerationParent pointer.generation pointer.parent = .ok () := by
  by_cases hIdentity : (pointer.schemaVersion ≠ schemaVersion || pointer.capsule ≠ capsule ||
      pointer.lineage ≠ lineage) = true
  · unfold validatePointer at h
    simp only [hIdentity, if_true] at h
    cases h
  · unfold validatePointer at h
    simp only [hIdentity] at h
    obtain ⟨key, -, h⟩ := Checks.bind_eq_ok.mp h
    obtain ⟨_, hGeneration, h⟩ := Checks.bind_eq_ok.mp h
    obtain ⟨_, hParent, -⟩ := Checks.bind_eq_ok.mp h
    exact ⟨hGeneration, hParent⟩

/-- Two documents are equal when they have the same JSON text. -/
def documentsEqual {α : Type} [Wired α] (left right : α) : Bool :=
  match marshal left, marshal right with
  | some leftJSON, some rightJSON => leftJSON == rightJSON
  | _, _ => false

theorem documentsEqual_iff {α : Type} [Wired α] {left right : α} :
    documentsEqual left right ↔ ∃ text, marshal left = some text ∧ marshal right = some text := by
  unfold documentsEqual
  constructor
  · intro h
    split at h
    · rename_i leftJSON rightJSON hLeft hRight
      cases eq_of_beq h
      exact ⟨leftJSON, hLeft, hRight⟩
    · cases h
  · rintro ⟨text, hLeft, hRight⟩
    rw [hLeft, hRight]
    exact beq_self_eq_true text

end Coordination

end Camp
