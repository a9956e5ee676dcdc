import Camp.Capsule.Initialize
import Camp.Program.Folder
import Camp.Wire.Text

/-!
# Initialization after an initialization that stopped

The metadata is the mark of a complete initialization, as long as no write comes to
nothing: `writeStable` does not notice that. A later initialization goes on from what an
earlier one left, unless it finds a temporary file or a document with other contents.
-/

namespace Camp.Capsule

open Wire Wire.Utf8 Program Program.Files List Function

inductive Label where
  | lock
  | images
  | manifest
  | metadata
  deriving DecidableEq

open Label

def Label.name : Label → Bytes
  | .lock => lockName
  | .images => imagesName
  | .manifest => manifestName
  | .metadata => metadataName

def Label.temporary (l : Label) : Bytes := temporaryName l.name

theorem Label.name_inj {l l' : Label} : l.name = l'.name ↔ l = l' := by
  cases l <;> cases l' <;> decide

theorem Label.name_ne_temporary (l l' : Label) : l.name ≠ l'.temporary := by
  cases l <;> cases l' <;> decide

def Initialization.body (yaml : Yaml) (i : Initialization) : Label → Bytes
  | .lock => yaml.lock i.lock
  | .images => imagesBody i.metadata.createdAt ++ [10]
  | .manifest => manifestBody i.metadata.id
  | .metadata => yaml.metadata i.metadata

def Initialization.document (yaml : Yaml) (i : Initialization) (l : Label) : Document := ⟨l.name, i.body yaml l⟩

theorem documents_eq (yaml : Yaml) (i : Initialization) :
    documents yaml i = [.lock, .images, .manifest, .metadata].map (i.document yaml) := rfl

def Complete (yaml : Yaml) (i : Initialization) (g : Folder Bytes) : Prop :=
  ∀ l : Label, g l.name = some (i.body yaml l)

def Whole : Op Unit Bytes Probe → Fault → Prop
  | .write _ _ bytes, .fail kept => bytes.length ≤ kept
  | _, _ => True

section Disturbed

variable {yaml : Yaml} {i : Initialization} {g : Folder Bytes} {t : Disk} {name body : Bytes}
  {post : Outcome Error Unit → Folder Bytes → Prop}
variable {labels : List Label} {capsuleID : Bytes}
variable {temporary : Bytes} {l : Label} {now : Time} {resolved : Except Error Bytes}

theorem works_writeTemporary (hEmpty : g temporary = some [])
    (hTorn : ∀ content, Breaks post (update g temporary (some content)))
    (hDone : post (some (.ok ())) (update g temporary (some body))) :
    Works Whole t campDirectory (writeTemporary temporary body) post g := by
  have hClose : Works Whole t campDirectory (sys plainly (.attempt .close)) post
      (update g temporary (some body)) := works_attempt (hTorn body) hDone
  refine works_catching_bind (works_write (fun hAbsent => ?_) (fun content kept hContent => ?_)
    fun content hContent => ?_)
  · rw [hEmpty] at hAbsent
    cases hAbsent
  · rw [hEmpty] at hContent
    cases hContent
    refine ⟨fun hWhole e => ?_, fun _ => (hTorn _).1⟩
    rw [nil_append, take_of_length_le hWhole]
    exact hClose
  · rw [hEmpty] at hContent
    cases hContent
    rw [nil_append]
    refine works_catching_bind (works_attempt ⟨(hTorn body).1, fun e => ?_⟩ ?_)
    · exact hClose
    · exact hClose

theorem works_renameTemporary (hBreak : Breaks post g) (hRemoved : Breaks post (update g temporary none))
    (hDone : ∀ content, g temporary = some content →
      Breaks post (update (update g name (some content)) temporary none) ∧
      post (some (.ok ())) (update (update g name (some content)) temporary none)) :
    Works Whole t campDirectory (renameTemporary temporary name) post g := by
  refine works_catching_bind (works_rename ⟨hBreak.1, fun e => ?_⟩ fun content hContent => ?_)
  · refine works_catching_bind (works_remove ⟨hBreak.1, fun _ => ?_⟩ ?_)
    · exact works_throw (hBreak.2 e)
    · exact works_throw (hRemoved.2 e)
  · obtain ⟨hBreak', hDone'⟩ := hDone content hContent
    exact works_attempt hBreak' hDone'

theorem works_writeStable (hBreak : Breaks post g) (hSame : g name = some body → post (some (.ok ())) g)
    (hTorn : g name = none → ∀ content, Breaks post (update g (temporaryName name) (some content)))
    (hDone : g name = none → Breaks post (update g name (some body)) ∧
      post (some (.ok ())) (update g name (some body))) (hNames : name ≠ temporaryName name) :
    Works Whole t campDirectory (writeStable name body) post g := by
  refine works_catching_bind (works_read hBreak.1 (works_throw (hBreak.2 _)) (fun hAbsent => ?_)
    fun content hContent => ?_)
  · refine Works.bind (works_create hBreak fun hFree => ?_)
    have hRemoved : update g (temporaryName name) none = g :=
      update_eq_self_iff.mpr hFree.symm
    refine Works.bind (works_writeTemporary (update_self ..) (fun content => ?_) ?_)
    · rw [update_idem]
      exact hTorn hAbsent content
    · rw [update_idem]
      refine works_renameTemporary (hTorn hAbsent body) ?_ fun content hContent => ?_
      · rw [update_idem, hRemoved]
        exact hBreak
      · rw [update_self] at hContent
        cases hContent
        rw [update_comm hNames.symm, update_idem, update_comm hNames, hRemoved]
        exact hDone hAbsent
  · dsimp only
    split_ifs with hBody
    · exact works_pure (hSame (hBody ▸ hContent))
    · exact works_throw (hBreak.2 _)

/-- There is no metadata, and these documents are in place. -/
structure Ready (yaml : Yaml) (i : Initialization) (labels : List Label) (g : Folder Bytes) : Prop where
  unmarked : g metadata.name = none
  placed : ∀ l ∈ labels, g l.name = some (i.body yaml l)

theorem Ready.write_temporary (h : Ready yaml i labels g) (l : Label) (content : Option Bytes) :
    Ready yaml i labels (update g l.temporary content) where
  unmarked := by rw [update_of_ne (name_ne_temporary .metadata l), h.unmarked]
  placed l' hl' := by rw [update_of_ne (name_ne_temporary l' l), h.placed l' hl']

theorem Ready.write (h : Ready yaml i labels g) (hl : l ≠ .metadata) :
    Ready yaml i (l :: labels) (update g l.name (some (i.body yaml l))) where
  unmarked := by rw [update_of_ne (fun hName => hl (name_inj.mp hName.symm)), h.unmarked]
  placed l' hl' := by
    by_cases hSame : l' = l
    · rw [hSame, update_self]
    · rw [update_of_ne (fun hName => hSame (name_inj.mp hName))]
      exact h.placed l' (mem_of_ne_of_mem hSame hl')

def Consistent (yaml : Yaml) (i : Initialization) (g : Folder Bytes) : Prop :=
  g metadata.name ≠ none → Complete yaml i g

theorem Ready.consistent (h : Ready yaml i labels g) : Consistent yaml i g :=
  fun hMetadata => absurd h.unmarked hMetadata

theorem Ready.mark (h : Ready yaml i [.manifest, .images, .lock] g) :
    Complete yaml i (update g metadata.name (some (i.body yaml .metadata))) := by
  intro l
  by_cases hl : l = .metadata
  · rw [hl]
    exact update_self ..
  · rw [update_of_ne (fun hName => hl (name_inj.mp hName))]
    refine h.placed l ?_
    cases l <;> simp at hl ⊢

theorem works_writeSupport (h : Ready yaml i labels g) (hl : l ≠ .metadata) :
    Works Whole t campDirectory (writeStable l.name (i.body yaml l))
      (succeeding (fun _ => Ready yaml i (l :: labels)) (Consistent yaml i)) g := by
  refine works_writeStable ⟨h.consistent, fun _ => h.consistent⟩ (fun hSame => ?_) (fun _ content => ?_) (fun _ => ?_)
    (name_ne_temporary l l)
  · refine ⟨h.unmarked, fun l' hl' => ?_⟩
    obtain rfl | hl' := mem_cons.mp hl'
    · exact hSame
    · exact h.placed l' hl'
  · exact ⟨(h.write_temporary l _).consistent, fun _ => (h.write_temporary l _).consistent⟩
  · exact ⟨⟨(h.write hl).consistent, fun _ => (h.write hl).consistent⟩, h.write hl⟩

theorem works_writeMetadata (h : Ready yaml i [.manifest, .images, .lock] g) :
    Works Whole t campDirectory (writeStable metadata.name (i.body yaml .metadata))
      (fun _ g' => Consistent yaml i g') g := by
  have hDone : Consistent yaml i (update g metadata.name (some (i.body yaml .metadata))) :=
      fun _ => h.mark
  refine works_writeStable ⟨h.consistent, fun _ => h.consistent⟩ (fun _ => h.consistent)
    (fun _ content => ?_) (fun _ => ?_)
    (name_ne_temporary .metadata .metadata)
  · exact ⟨(h.write_temporary .metadata _).consistent, fun _ => (h.write_temporary .metadata _).consistent⟩
  · exact ⟨⟨hDone, fun _ => hDone⟩, hDone⟩

theorem works_writeDocuments (h : g metadata.name = none) :
    Works Whole t campDirectory (writeDocuments (documents yaml i)) (fun _ g' => Consistent yaml i g') g := by
  have hMarked (g : Folder Bytes) (hg : Consistent yaml i g) :
      Breaks (fun (_ : Outcome Error Unit) g' => Consistent yaml i g') g := ⟨hg, fun _ => hg⟩
  rw [documents_eq]
  have h₀ : Ready yaml i [] g := ⟨h, by simp⟩
  refine Works.andThen (works_writeSupport (l := .lock) h₀ nofun) hMarked fun _ g₁ h₁ => ?_
  refine Works.andThen (works_writeSupport (l := .images) h₁ nofun) hMarked fun _ g₂ h₂ => ?_
  refine Works.andThen (works_writeSupport (l := .manifest) h₂ nofun) hMarked fun _ g₃ h₃ => ?_
  refine Works.bind ((works_writeMetadata h₃).mono ?_)
  rintro (_ | e | _) g₄ h₄
  · exact h₄
  · exact h₄
  · exact works_attempt (hMarked g₄ h₄) h₄

theorem works_readExisting {A : Op Unit Bytes Probe → Fault → Prop} :
    Works A t campDirectory (readExistingInitialization yaml capsuleID)
      (fun r g' => g' = g ∧ ∀ e, r = some (.error e) → e.is .notExist = true → g metadata.name = none) g := by
  have hOther {e : Error} (he : e.is .notExist = false) (e' : Error)
      (h : (some (.error e) : Outcome Error Initialization) = some (.error e')) (he' : e'.is .notExist = true) :
      g metadata.name = none := by
    cases h
    rw [he] at he'
    cases he'
  have hThrow {e : Error} (he : e.is .notExist = false) : Works A t campDirectory (throw e : Act Initialization)
      (fun r g' => g' = g ∧ ∀ e, r = some (.error e) → e.is .notExist = true → g metadata.name = none) g :=
    works_throw ⟨rfl, hOther he⟩
  refine Works.bind (works_read ?_ ?_ (fun hAbsent => ?_) fun content _ => ?_)
  · exact ⟨rfl, nofun⟩
  · exact ⟨rfl, hOther rfl⟩
  · exact ⟨rfl, fun _ _ _ => hAbsent⟩
  dsimp only
  cases (yaml.readMetadata content).filter (validMetadata capsuleID) with
  | none => exact hThrow rfl
  | some metadata =>
    refine works_catching_bind (works_read ?_ ?_ (fun _ => ?_) fun lockBody _ => ?_)
    · exact ⟨rfl, nofun⟩
    · exact hThrow rfl
    · exact hThrow rfl
    · dsimp only
      cases (yaml.readLock lockBody).filter validLock with
      | none => exact hThrow rfl
      | some lock => exact works_pure ⟨rfl, nofun⟩

/-- If the metadata is there, the run has put all its documents in place. -/
def MarkedBy (yaml : Yaml) (capsuleID : Bytes) (now : Time) (resolved : Except Error Bytes) (g : Folder Bytes) :
    Prop :=
  g metadata.name ≠ none →
    ∃ digest, resolved = .ok digest ∧ isDigest digest = true ∧ now.utc.isZero = false ∧
      Complete yaml (newInitialization capsuleID now digest) g

theorem works_createInitialization (h : g metadata.name = none) :
    Works Whole t campDirectory (createInitialization yaml capsuleID now resolved)
      (fun _ g' => MarkedBy yaml capsuleID now resolved g') g := by
  have hStill : MarkedBy yaml capsuleID now resolved g := fun hMetadata => absurd h hMetadata
  cases resolved with
  | error e => exact works_throw hStill
  | ok digest =>
    refine works_guard (fun _ => hStill) fun hDigest => ?_
    refine works_guard (fun _ => hStill) fun hNow => ?_
    refine Works.bind (works_attempt ⟨hStill, fun _ => hStill⟩ ?_)
    refine Works.bind ((works_writeDocuments h).mono ?_)
    have hMarked {g' : Folder Bytes} (hg' : Consistent yaml (newInitialization capsuleID now digest) g') :
        MarkedBy yaml capsuleID now (.ok digest) g' := fun hMetadata =>
      ⟨digest, rfl, by simpa using hDigest, by simpa [newInitialization] using hNow, hg' hMetadata⟩
    rintro (_ | e | _) g' hg'
    · exact hMarked hg'
    · exact hMarked hg'
    · exact works_pure (hMarked hg')

theorem works_initialize :
    Works Whole t campDirectory (initializeCapsule yaml capsuleID now resolved)
      (fun _ g' => (g metadata.name ≠ none → g' = g) ∧
        (g metadata.name = none → MarkedBy yaml capsuleID now resolved g')) g := by
  have hStill : (g metadata.name ≠ none → g = g) ∧
      (g metadata.name = none → MarkedBy yaml capsuleID now resolved g) :=
    ⟨fun _ => rfl, fun h hMetadata => absurd h hMetadata⟩
  refine works_guard (fun _ => hStill) fun _ => ?_
  refine Works.bind (works_attempt ⟨hStill, fun _ => hStill⟩ ?_)
  refine works_catching_bind (works_readExisting.mono ?_)
  rintro (_ | e | existing) g' ⟨rfl, hAbsent⟩
  · exact hStill
  · dsimp only
    split_ifs with he
    · have h := hAbsent e rfl he
      exact (works_createInitialization h).mono fun _ _ hMarked =>
        ⟨fun hMetadata => absurd h hMetadata, fun _ => hMarked⟩
    · exact works_throw hStill
  · exact works_pure hStill

end Disturbed

section Calm

variable {yaml : Yaml} {i : Initialization} {g : Folder Bytes} {t : Disk}
variable {l : Label}

def Fits (yaml : Yaml) (i : Initialization) (g : Folder Bytes) (l : Label) : Prop :=
  g l.name = some (i.body yaml l) ∨ g l.name = none ∧ g l.temporary = none

theorem calm_writeTemporary {temporary body : Bytes} (h : g temporary = some []) :
    Calmly t campDirectory (writeTemporary temporary body) g (.ok ())
      (update g temporary (some body)) := by
  have hWrite : Calmly t campDirectory (sys plainly (.write campDirectory temporary body) : Act Unit) g (.ok ())
      (update g temporary (some ([] ++ body))) := calm_write h
  exact hWrite.catching.bind (calm_attempt.catching.bind calm_attempt)

theorem calm_writeStable (h : Fits yaml i g l) :
    Calmly t campDirectory (writeStable l.name (i.body yaml l)) g (.ok ())
      (update g l.name (some (i.body yaml l))) := by
  obtain hSame | ⟨hAbsent, hFree⟩ := h
  · rw [update_eq_self_iff.mpr hSame.symm]
    exact (calm_read hSame).catching.bind (calmly_return (if_pos rfl))
  · have hNames := name_ne_temporary l l
    refine (calm_read_absent hAbsent).catching.bind ?_
    refine (calm_create hFree).bind ?_
    refine (calm_writeTemporary (update_self ..)).bind ?_
    rw [update_idem]
    have hRename : Calmly t campDirectory (sys plainly (.rename campDirectory l.temporary l.name) : Act Unit)
        (update g l.temporary (some (i.body yaml l))) (.ok ())
        (update (update (update g l.temporary (some (i.body yaml l))) l.name
          (some (i.body yaml l))) l.temporary none) := calm_rename (update_self ..)
    rw [update_comm hNames.symm, update_idem, update_comm hNames,
      show update g l.temporary none = g from update_eq_self_iff.mpr hFree.symm] at hRename
    exact hRename.catching.bind calm_attempt

theorem calm_writeStable_blocked (h : ¬ Fits yaml i g l) :
    ∃ e, Calmly t campDirectory (writeStable l.name (i.body yaml l)) g (.error e) g := by
  cases hName : g l.name with
  | some content =>
    have hBody : content ≠ i.body yaml l := fun hBody => h (.inl (hBody ▸ hName))
    exact ⟨_, (calm_read hName).catching.bind (calmly_return (if_neg hBody))⟩
  | none =>
    cases hTemporary : g l.temporary with
    | none => exact absurd (.inr ⟨hName, hTemporary⟩) h
    | some content =>
      exact ⟨_, (calm_read_absent hName).catching.bind (calm_create_exists hTemporary).bind_error⟩

theorem Fits.update {l' : Label} (hl : l ≠ l') (content : Option Bytes) :
    Fits yaml i (update g l.name content) l' ↔ Fits yaml i g l' := by
  rw [Fits, update_of_ne (fun hName => hl (name_inj.mp hName.symm)),
    update_of_ne (name_ne_temporary l l').symm, Fits]

theorem calm_writeDocuments (yaml : Yaml) (i : Initialization) (labels : List Label)
    (hDistinct : labels.Nodup) (g : Folder Bytes) :
    (∃ g', Calmly t campDirectory (writeDocuments (labels.map (i.document yaml))) g (.ok ()) g' ∧
      (∀ l ∈ labels, g' l.name = some (i.body yaml l)) ∧ ∀ name, (∀ l ∈ labels, name ≠ l.name) → g' name = g name) ∧
      (∀ l ∈ labels, Fits yaml i g l) ∨
    (∃ e g', Calmly t campDirectory (writeDocuments (labels.map (i.document yaml))) g (.error e) g') ∧
      ¬ ∀ l ∈ labels, Fits yaml i g l := by
  induction labels generalizing g with
  | nil => exact .inl ⟨⟨g, calm_attempt, by simp, fun _ _ => rfl⟩, by simp⟩
  | cons l labels ih =>
    obtain ⟨hl, hDistinct⟩ := nodup_cons.mp hDistinct
    by_cases hFits : Fits yaml i g l
    · have hRest : (∀ l' ∈ labels, Fits yaml i (update g l.name (some (i.body yaml l))) l') ↔
          ∀ l' ∈ l :: labels, Fits yaml i g l' := by
        rw [forall_mem_cons]
        have hNe {l' : Label} (hl' : l' ∈ labels) : l ≠ l' := fun hSame => hl (hSame ▸ hl')
        refine ⟨fun h => ⟨hFits, fun l' hl' => ?_⟩, fun h l' hl' => ?_⟩
        · exact (Fits.update (hNe hl') _).mp (h l' hl')
        · exact (Fits.update (hNe hl') _).mpr (h.2 l' hl')
      obtain ⟨⟨g', hRun, hPlaced, hOthers⟩, hAll⟩ | ⟨⟨e, g', hRun⟩, hSome⟩ :=
        ih hDistinct (update g l.name (some (i.body yaml l)))
      · refine .inl ⟨⟨g', (calm_writeStable hFits).bind hRun, ?_, fun name hName => ?_⟩, hRest.mp hAll⟩
        · rw [forall_mem_cons]
          refine ⟨?_, hPlaced⟩
          rw [hOthers l.name fun l' hl' hName => hl (name_inj.mp hName ▸ hl'), update_self]
        · obtain ⟨hFirst, hName⟩ := forall_mem_cons.mp hName
          rw [hOthers name hName, update_of_ne hFirst]
      · exact .inr ⟨⟨e, g', (calm_writeStable hFits).bind hRun⟩, fun h => hSome (hRest.mpr h)⟩
    · obtain ⟨e, hRun⟩ := calm_writeStable_blocked (t := t) hFits
      exact .inr ⟨⟨e, g, hRun.bind_error⟩, fun h => hFits (h l mem_cons_self)⟩

/-- What the initialization writes is accepted when it is read again. -/
def Readable (yaml : Yaml) (capsuleID : Bytes) (i : Initialization) : Prop :=
  ((yaml.readMetadata (yaml.metadata i.metadata)).filter (validMetadata capsuleID)).isSome = true ∧
    ((yaml.readLock (yaml.lock i.lock)).filter validLock).isSome = true

variable {capsuleID digest : Bytes} {now : Time}

theorem calm_readExisting (hReadable : Readable yaml capsuleID i) (h : Complete yaml i g) :
    ∃ existing, Calmly t campDirectory (readExistingInitialization yaml capsuleID) g (.ok existing) g := by
  obtain ⟨hMetadata, hLock⟩ := hReadable
  obtain ⟨metadata, hMetadata⟩ := Option.isSome_iff_exists.mp hMetadata
  obtain ⟨lock, hLock⟩ := Option.isSome_iff_exists.mp hLock
  refine ⟨⟨metadata, lock⟩, (calm_read (h .metadata)).bind ?_⟩
  dsimp only [Initialization.body]
  rw [hMetadata]
  refine (calm_read (h .lock)).catching.bind ?_
  dsimp only [Initialization.body]
  rw [hLock]
  exact calmly_return rfl

theorem calm_createInitialization (yaml : Yaml) (capsuleID : Bytes) (hDigest : isDigest digest = true)
    (hNow : now.utc.isZero = false) :
    (∃ g', Calmly t campDirectory (createInitialization yaml capsuleID now (.ok digest)) g
        (.ok (newInitialization capsuleID now digest)) g' ∧
        Complete yaml (newInitialization capsuleID now digest) g') ∧
      (∀ l, Fits yaml (newInitialization capsuleID now digest) g l) ∨
    (∃ e g', Calmly t campDirectory (createInitialization yaml capsuleID now (.ok digest)) g (.error e) g') ∧
      ¬ ∀ l, Fits yaml (newInitialization capsuleID now digest) g l := by
  have hAll (l : Label) : l ∈ [lock, .images, .manifest, .metadata] := by cases l <;> simp
  have hStart {r : Except Error Initialization} {g' : Folder Bytes}
      (h : Calmly t campDirectory (do
        writeDocuments (documents yaml (newInitialization capsuleID now digest))
        pure (newInitialization capsuleID now digest) : Act Initialization) g r g') :
      Calmly t campDirectory (createInitialization yaml capsuleID now (.ok digest)) g r g' := by
    unfold createInitialization
    dsimp only
    rw [if_neg (by simp [hDigest]), if_neg (by simpa [newInitialization] using hNow)]
    exact calm_attempt.bind h
  rw [documents_eq] at hStart
  obtain ⟨⟨g', hRun, hPlaced, -⟩, hFits⟩ | ⟨⟨e, g', hRun⟩, hSome⟩ :=
    calm_writeDocuments (t := t) yaml (newInitialization capsuleID now digest)
      [.lock, .images, .manifest, .metadata] (by decide) g
  · refine .inl ⟨⟨g', hStart (hRun.bind (calmly_return rfl)), fun l => hPlaced l (hAll l)⟩, fun l => ?_⟩
    exact hFits l (hAll l)
  · exact .inr ⟨⟨e, g', hStart hRun.bind_error⟩, fun h => hSome fun l _ => h l⟩

theorem calm_initialize_existing (hID : validID capsuleID = true) (now : Time) (resolved : Except Error Bytes)
    (hReadable : Readable yaml capsuleID i) (h : Complete yaml i g) :
    ∃ existing, Calmly t campDirectory (initializeCapsule yaml capsuleID now resolved) g (.ok existing) g := by
  obtain ⟨existing, hRead⟩ := calm_readExisting (t := t) hReadable h
  refine ⟨existing, ?_⟩
  unfold initializeCapsule
  rw [if_neg (by simp [hID])]
  exact calm_attempt.bind (hRead.catching.bind (calmly_return rfl))

theorem calm_initialize_new (hID : validID capsuleID = true) (h : g metadata.name = none)
    {resolved : Except Error Bytes} {r : Except Error Initialization} {g' : Folder Bytes}
    (hCreate : Calmly t campDirectory (createInitialization yaml capsuleID now resolved) g r g') :
    Calmly t campDirectory (initializeCapsule yaml capsuleID now resolved) g r g' := by
  unfold initializeCapsule
  rw [if_neg (by simp [hID])]
  exact calm_attempt.bind ((calm_read_absent h).bind_error.catching.bind hCreate)

end Calm

section Runs

variable {yaml : Yaml} {capsuleID digest : Bytes} {now : Time} {t : Disk}
variable {i : Initialization} {g : Folder Bytes}

def run (yaml : Yaml) (capsuleID : Bytes) (now : Time) (resolved : Except Error Bytes)
    (faults : List (machine Unit Bytes Probe).Choice) (t : Disk) : Outcome Error Initialization × Disk :=
  (machine Unit Bytes Probe).run (initializeCapsule yaml capsuleID now resolved).run faults t

/-- No write of the run fails before it has written everything. -/
def NoShortWrite (yaml : Yaml) (capsuleID : Bytes) (now : Time) (resolved : Except Error Bytes)
    (faults : List (machine Unit Bytes Probe).Choice) (t : Disk) : Prop :=
  (machine Unit Bytes Probe).Respects (allowing Whole) (initializeCapsule yaml capsuleID now resolved).run faults t

/-- What any number of initializations may leave in a directory that had no metadata. Each
of them may stop anywhere. -/
inductive Reachable (yaml : Yaml) (capsuleID : Bytes) : Disk → Prop
  | start {t : Disk} {g : Folder Bytes} (hMetadata : g metadataName = none) :
      Reachable yaml capsuleID (t.set campDirectory (some g))
  | run {t : Disk} {now : Time} {resolved : Except Error Bytes}
      {faults : List (machine Unit Bytes Probe).Choice}
      (hFaults : NoShortWrite yaml capsuleID now resolved faults t)
      (hReadable : ∀ digest, resolved = .ok digest → isDigest digest = true → now.utc.isZero = false →
        Readable yaml capsuleID (newInitialization capsuleID now digest)) (h : Reachable yaml capsuleID t) :
      Reachable yaml capsuleID (run yaml capsuleID now resolved faults t).2

/-- The four documents are there as the initialization writes them. -/
def Written (yaml : Yaml) (i : Initialization) (t : Disk) : Prop :=
  ∀ document ∈ documents yaml i, t.file campDirectory document.name = some document.body

/-- The initialization succeeds and leaves all documents complete. -/
def Succeeds (yaml : Yaml) (capsuleID : Bytes) (now : Time) (digest : Bytes) (t : Disk) : Prop :=
  ∃ result i t', (machine Unit Bytes Probe).calmly (initializeCapsule yaml capsuleID now (.ok digest)) t =
    (some (.ok result), t') ∧ Written yaml i t'

/-- The metadata is there, or each document is there as it is to be written, or neither it
nor its temporary file is there. -/
def Resumable (yaml : Yaml) (capsuleID : Bytes) (now : Time) (digest : Bytes) (t : Disk) : Prop :=
  t.file campDirectory metadataName ≠ none ∨
    ∀ document ∈ documents yaml (newInitialization capsuleID now digest),
      t.file campDirectory document.name = some document.body ∨
        t.file campDirectory document.name = none ∧ t.file campDirectory (temporaryName document.name) = none

theorem forall_documents {P : Document → Prop} :
    (∀ document ∈ documents yaml i, P document) ↔ ∀ l, P (i.document yaml l) := by
  rw [documents_eq]
  simp only [map_cons, map_nil, forall_mem_cons]
  exact ⟨fun ⟨hLock, hImages, hManifest, hMetadata, _⟩ l => by cases l <;> assumption,
    fun h => ⟨h .lock, h .images, h .manifest, h .metadata, nofun⟩⟩

theorem written_iff : Written yaml i (t.set campDirectory (some g)) ↔ Complete yaml i g := by
  unfold Written
  rw [forall_documents]
  exact forall_congr' fun l => by rw [Tree.file_set_self]; rfl

theorem resumable_iff :
    Resumable yaml capsuleID now digest (t.set campDirectory (some g)) ↔
      g metadata.name ≠ none ∨ ∀ l, Fits yaml (newInitialization capsuleID now digest) g l := by
  unfold Resumable
  rw [forall_documents, Tree.file_set_self]
  simp only [Tree.file_set_self]
  rfl

theorem complete_of_reachable (h : Reachable yaml capsuleID t) :
    ∃ (t₀ : Disk) (g : Folder Bytes), t = t₀.set campDirectory (some g) ∧
      (g metadata.name ≠ none → ∃ i, Readable yaml capsuleID i ∧ Complete yaml i g) := by
  induction h with
  | @start t g hMetadata => exact ⟨t, g, rfl, fun h => absurd hMetadata h⟩
  | @run t now resolved faults hFaults hReadable _ ih =>
    obtain ⟨t₀, g, rfl, hComplete⟩ := ih
    obtain ⟨g', hRun, hFound, hMade⟩ := works_initialize.run hFaults
    refine ⟨t₀, g', hRun, fun hMetadata => ?_⟩
    by_cases hAbsent : g metadata.name = none
    · obtain ⟨digest, hResolved, hDigest, hNow, hWritten⟩ := hMade hAbsent hMetadata
      exact ⟨_, hReadable digest hResolved hDigest hNow, hWritten⟩
    · rw [hFound hAbsent]
      exact hComplete hAbsent

theorem succeeds_iff_resumable (hID : validID capsuleID = true) (hDigest : isDigest digest = true)
    (hNow : now.utc.isZero = false) (h : Reachable yaml capsuleID t) :
    Succeeds yaml capsuleID now digest t ↔ Resumable yaml capsuleID now digest t := by
  obtain ⟨t₀, g, rfl, hComplete⟩ := complete_of_reachable h
  rw [resumable_iff]
  cases hMetadata : g metadata.name with
  | some content =>
    obtain ⟨i, hReadable, hWritten⟩ := hComplete (by simp [hMetadata])
    obtain ⟨existing, hRun⟩ := calm_initialize_existing (t := t₀) hID now (.ok digest) hReadable hWritten
    exact iff_of_true ⟨existing, i, _, hRun, written_iff.mpr hWritten⟩ (.inl nofun)
  | none =>
    rw [or_iff_right (by simp)]
    obtain ⟨⟨g', hRun, hWritten⟩, hFits⟩ | ⟨⟨e, g', hRun⟩, hSome⟩ :=
      calm_createInitialization (t := t₀) (g := g) yaml capsuleID hDigest hNow
    · exact iff_of_true ⟨_, _, _, calm_initialize_new hID hMetadata hRun, written_iff.mpr hWritten⟩ hFits
    · refine iff_of_false ?_ hSome
      rintro ⟨result, i, t', hOk, -⟩
      cases (calm_initialize_new hID hMetadata hRun).symm.trans hOk

/-- Whatever happened before, a run that leaves metadata leaves its documents with it, and
a later initialization succeeds exactly if the earlier ones left nothing in its way. -/
theorem initialization_marks_and_resumes_iff (hID : validID capsuleID = true) (h : Reachable yaml capsuleID t) :
    (∀ now resolved faults, NoShortWrite yaml capsuleID now resolved faults t →
      (t.file campDirectory metadataName ≠ none → (run yaml capsuleID now resolved faults t).2 = t) ∧
      (t.file campDirectory metadataName = none →
        (run yaml capsuleID now resolved faults t).2.file campDirectory metadataName ≠ none →
        ∃ digest, resolved = .ok digest ∧
          Written yaml (newInitialization capsuleID now digest) (run yaml capsuleID now resolved faults t).2)) ∧
    ∀ now digest, isDigest digest = true → now.utc.isZero = false →
      (Succeeds yaml capsuleID now digest t ↔ Resumable yaml capsuleID now digest t) := by
  refine ⟨fun now resolved faults hFaults => ?_, fun now digest hDigest hNow =>
    succeeds_iff_resumable hID hDigest hNow h⟩
  obtain ⟨t₀, g, rfl, -⟩ := complete_of_reachable h
  obtain ⟨g', hRun, hFound, hMade⟩ := works_initialize.run hFaults
  unfold run
  rw [hRun, Tree.file_set_self, Tree.file_set_self]
  refine ⟨fun hMetadata => by rw [hFound hMetadata], fun hAbsent hMetadata => ?_⟩
  obtain ⟨digest, hResolved, -, -, hWritten⟩ := hMade hAbsent hMetadata
  exact ⟨digest, hResolved, written_iff.mpr hWritten⟩

section Sample

def yamlLine (key : String) (value : Bytes) : Bytes := lit key ++ lit ": " ++ value ++ [10]

def plainValue (key : String) (line : Bytes) : Option Bytes :=
  if (lit key ++ lit ": ").isPrefixOf line then some (line.drop (lit key ++ lit ": ").length) else none

/-- Block mappings of plain scalars: what `yaml.v3` writes and reads where no text needs quotes. -/
def blockYaml : Yaml where
  metadata m := yamlLine "schemaVersion" (numeral m.schemaVersion.toInt.toNat) ++ yamlLine "id" m.id ++
    yamlLine "defaultBranch" m.defaultBranch ++
    yamlLine "createdAt" (encode ((Rfc3339.format m.createdAt).getD []))
  lock l := yamlLine "schemaVersion" (numeral l.schemaVersion.toInt.toNat) ++ lit "room:\n" ++
    yamlLine "    repository" l.room.repository ++ yamlLine "    version" l.room.version ++
    yamlLine "    commit" l.room.commit ++ yamlLine "    image" l.room.image ++
    yamlLine "    digest" l.room.digest ++ lit "tools:\n" ++ yamlLine "    devpod" l.tools.devPod ++
    yamlLine "    hauler" l.tools.hauler
  readMetadata body :=
    match body.splitOn 10 with
    | [version, id, branch, created, []] => do
      let version ← plainValue "schemaVersion" version
      let created ← plainValue "createdAt" created
      let createdAt ← Rfc3339.parse (created.map fun b => Char.ofNat b.toNat)
      pure ⟨.ofNat (readNumeral version), ← plainValue "id" id, ← plainValue "defaultBranch" branch, createdAt⟩
    | _ => none
  readLock body :=
    match body.splitOn 10 with
    | [version, room, repository, roomVersion, commit, image, digest, tools, devpod, hauler, []] => do
      let version ← plainValue "schemaVersion" version
      guard (room = lit "room:" ∧ tools = lit "tools:")
      let room : RoomLock := ⟨← plainValue "    repository" repository, ← plainValue "    version" roomVersion,
        ← plainValue "    commit" commit, ← plainValue "    image" image, ← plainValue "    digest" digest⟩
      pure ⟨.ofNat (readNumeral version), room, ⟨← plainValue "    devpod" devpod, ← plainValue "    hauler" hauler⟩⟩
    | _ => none

def sampleID : Bytes := lit "brain"

def sampleDigest : Bytes := lit "sha256:" ++ replicate 64 97

/-- 12 July 2026, ten o'clock. -/
def sampleNow : Time := ⟨63919447200000000000, 0⟩

def sampleLater : Time := sampleNow.add 1000000000

def emptyDisk : Disk := Tree.set ⟨fun _ => none, 0⟩ campDirectory (some fun _ => none)

/-- A run that has put the lock in place, and stops before it looks for the inventory. -/
def stoppedAfterLock : Disk :=
  (run blockYaml sampleID sampleNow (.ok sampleDigest) (replicate 10 .none ++ [.crash 0]) emptyDisk).2

theorem readable_sample : Readable blockYaml sampleID (newInitialization sampleID sampleNow sampleDigest) := by
  unfold Readable
  decide +kernel

theorem reachable_stoppedAfterLock : Reachable blockYaml sampleID stoppedAfterLock := by
  have hWhole (op : Op Unit Bytes Probe) (fault : Fault) (h : fault = .none ∨ fault = .crash 0) : Whole op fault := by
    rcases h with rfl | rfl <;> cases op <;> trivial
  refine .run (Machine.respects_of_forall (fun fault hMem op _ => hWhole op fault ?_)
    (fun op _ => hWhole op _ (.inl rfl)) _) (fun digest hResolved _ _ => ?_) (.start rfl)
  · rcases mem_append.mp hMem with hMem | hMem
    · exact .inl (eq_of_mem_replicate hMem)
    · exact .inr (mem_singleton.mp hMem)
  · cases hResolved
    exact readable_sample

/-- The lock is there, and a later run goes on from it. -/
theorem initialization_sample :
    (run blockYaml sampleID sampleNow (.ok sampleDigest) (replicate 10 .none ++ [.crash 0]) emptyDisk).1 = none ∧
    stoppedAfterLock.file campDirectory lockName =
      some (blockYaml.lock (newInitialization sampleID sampleNow sampleDigest).lock) ∧
    Succeeds blockYaml sampleID sampleLater sampleDigest stoppedAfterLock := by
  have hResumable : Resumable blockYaml sampleID sampleLater sampleDigest stoppedAfterLock := by
    unfold Resumable
    decide +kernel
  refine ⟨by decide +kernel, by decide +kernel, ?_⟩
  exact ((initialization_marks_and_resumes_iff (by decide) reachable_stoppedAfterLock).2 sampleLater sampleDigest
    (by decide) (by decide)).mpr hResumable

/-- A write of the lock comes to nothing and the run succeeds all the same. A run that stops
after the inventory makes the next one fail, whose clock shows another time. -/
theorem torn_lock_is_marked_and_later_clock_conflicts :
    (∃ faults : List (machine Unit Bytes Probe).Choice,
      (run blockYaml sampleID sampleNow (.ok sampleDigest) faults emptyDisk).1 =
        some (.ok (newInitialization sampleID sampleNow sampleDigest)) ∧
      (run blockYaml sampleID sampleNow (.ok sampleDigest) faults emptyDisk).2.file campDirectory metadataName =
        some (lit "schemaVersion: 1\nid: brain\ndefaultBranch: main\ncreatedAt: 2026-07-12T10:00:00Z\n") ∧
      (run blockYaml sampleID sampleNow (.ok sampleDigest) faults emptyDisk).2.file campDirectory lockName = some []) ∧
    ∃ faults : List (machine Unit Bytes Probe).Choice,
      (run blockYaml sampleID sampleNow (.ok sampleDigest) faults emptyDisk).1 = none ∧
      ((machine Unit Bytes Probe).calmly (initializeCapsule blockYaml sampleID sampleLater (.ok sampleDigest))
        (run blockYaml sampleID sampleNow (.ok sampleDigest) faults emptyDisk).2).1 =
        some (.error (.wrap "stable document %q differs: %w" [imagesName] (.sentinel .initializationConflict))) := by
  refine ⟨⟨replicate 5 .none ++ [.fail 0], ?_⟩, replicate 17 .none ++ [.crash 0], ?_⟩
  · decide +kernel
  · decide +kernel

end Sample

end Runs

end Camp.Capsule
