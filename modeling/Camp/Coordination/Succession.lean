import Camp.Coordination.Exclusion

/-!
# The history of a pointer

Over every interleaving of any number of calls the stored pointers are valid
documents, a call that succeeds has written over the record its caller expected
or has found its own document after its outcome got lost, a successor names the
generation it replaces, and a call that fails otherwise has changed nothing.
-/

namespace Camp.Coordination

open Wire Wire.Utf8 Program Program.Objects Program.Machine Relation Function

variable {S : ObjectStore} {o : Bucket}
variable {d : StoreDeed}

/-- Whatever is stored as the pointer of a lineage is the text of a valid one. -/
def PointersValid (o : Bucket) : Prop :=
  ∀ (capsule : Bytes) (lineage : Lineage) (key body : Bytes), lineage.pointerKey capsule = .ok key →
    (o key).current = some body →
    ∃ pointer : LatestPointer, marshal pointer = some body ∧
      validatePointer pointer capsule lineage = .ok ()

theorem Change.Allows.valid {c : Change} (h : c.Allows S d) (hValid : PointersValid d.before) :
    PointersValid d.after := by
  cases h with
  | idle op answer o => exact hValid
  | @write _ _ o key' body hKey' hNext hBody hFinds hLaw =>
    intro capsule lineage key stored hKey hCurrent
    by_cases hSame : key = key'
    · subst hSame
      obtain ⟨hCapsule, hLineage⟩ := Lineage.key_injective hKey' hKey
      have hPut : (put o key body key).current = some body := by simp [put]
      cases hCurrent.symm.trans hPut
      rw [← hCapsule, ← hLineage]
      exact ⟨c.next, hBody, hNext⟩
    · have hPut : put o key' body key = o key := update_of_ne hSame _ _
      change (put o key' body key).current = some stored at hCurrent
      rw [hPut] at hCurrent
      exact hValid capsule lineage key stored hKey hCurrent

theorem Rights.Allows.pointer {R : Rights} {capsule key : Bytes} {lineage : Lineage} (h : R.Allows S d)
    (hKey : lineage.pointerKey capsule = .ok key) : d.after key = d.before key := by
  cases h with
  | idle op answer o => rfl
  | create hLease _ _ _ =>
    exact update_of_ne (Lineage.pointerKey_ne_leaseKey hKey hLease) _ _
  | replace hLease _ _ _ _ =>
    exact update_of_ne (Lineage.pointerKey_ne_leaseKey hKey hLease) _ _
  | remove hLease _ _ =>
    exact update_of_ne (Lineage.pointerKey_ne_leaseKey hKey hLease) _ _

theorem PointersValid.kept {o o' : Bucket} (hValid : PointersValid o)
    (h : ∀ capsule lineage key, Lineage.pointerKey lineage capsule = .ok key → o' key = o key) :
    PointersValid o' := by
  intro capsule lineage key body hKey hCurrent
  rw [h capsule lineage key hKey] at hCurrent
  exact hValid capsule lineage key body hKey hCurrent

theorem valid_of_guar {c : Call} {earlier : List StoreDeed} (h : c.guar S earlier d) (hValid : PointersValid d.before) :
    PointersValid d.after := by
  cases c with
  | acquire => exact hValid.kept fun _ _ _ hKey => Rights.Allows.pointer h hKey
  | acquireBranchFrom => exact hValid.kept fun _ _ _ hKey => Rights.Allows.pointer h hKey
  | revalidateLease => exact hValid.kept fun _ _ _ hKey => Rights.Allows.pointer h hKey
  | renew => exact hValid.kept fun _ _ _ hKey => Rights.Allows.pointer h hKey
  | release => exact hValid.kept fun _ _ _ hKey => Rights.Allows.pointer h hKey
  | putAndVerify =>
    exact hValid.kept fun _ _ _ hKey => Deposits.elsewhere h (not_generationKey_pointer hKey)
  | create => exact Change.Allows.valid h hValid
  | compareAndSwap => exact Change.Allows.valid h hValid
  | selectHistorical => exact Change.Allows.valid h hValid

theorem canon_generation {g : GenerationRef} (h : validateGenerationRef g = .ok ()) : canon g = g := by
  have hText := sanitize_of_validateGenerationRef h
  obtain ⟨number, digest⟩ := g
  show GenerationRef.mk number (sanitize digest) = _
  rw [show sanitize digest = digest from hText]

theorem generation_of_documentsEqual {a b : LatestPointer} (h : documentsEqual a b)
    (ha : validateGenerationRef a.generation = .ok ())
    (hb : validateGenerationRef b.generation = .ok ()) : a.generation = b.generation := by
  obtain ⟨text, hLeft, hRight⟩ := documentsEqual_iff.mp h
  have hCanon : canon a = canon b := Wired.codec.canon_eq_of_marshal_eq hLeft hRight
  have hGeneration : canon a.generation = canon b.generation :=
    congrArg LatestPointer.generation hCanon
  rwa [canon_generation ha, canon_generation hb] at hGeneration

theorem succeeds_of_swap {expected : PointerRecord} {next : LatestPointer}
    (h : (Change.swap expected next).Allows S d) {key revision : Bytes} {current : LatestPointer}
    (hCurrent : Holds S d.before key current revision) (hChanged : d.after key ≠ d.before key) :
    next.parent = some current.generation ∧
      current.generation.generation < next.generation.generation := by
  cases h with
  | idle op answer o => exact absurd rfl hChanged
  | @write _ _ o key' body hKey hValid hBody hFinds hLaw =>
    have hSame : key = key' := by
      by_contra hNe
      exact hChanged (update_of_ne hNe _ _)
    subst hSame
    obtain ⟨current', hHolds, hEqual, hCurrent'⟩ := hFinds
    cases hCurrent.eq hHolds
    obtain ⟨hParent, hOrder⟩ := hLaw
    have hExpected : validateGenerationRef expected.pointer.generation = .ok () := by
      have hNext := (generation_of_validatePointer hValid).2
      change validateGenerationParent next.generation next.parent = .ok () at hNext
      rw [hParent] at hNext
      obtain ⟨_, hRef, -⟩ := Checks.bind_eq_ok.mp hNext
      exact hRef
    have hGeneration := generation_of_documentsEqual hEqual
      (generation_of_validatePointer hCurrent').1 hExpected
    rw [hGeneration]
    exact ⟨hParent, hOrder⟩

/-- From valid pointers on: at every instant the stored pointers are texts of valid
ones. A call that succeeded has written over the record it expected, or its outcome
got lost and it found its document afterwards. A successor names the generation it
replaces and advances it. A call that failed without mention of a lost outcome has
changed nothing. -/
theorem pointer_succession {ι : Type} [DecidableEq ι] {P : Clients ι} (hValid : PointersValid o)
    (hRun : P.Run S o) :
    PointersValid P.world ∧ ∀ i thread change, P.thread i = some thread →
      thread.call.change = some change →
      (∀ record, P.result i = some (.ok (.record record)) →
        (∃ d ∈ thread.deeds, change.Made S record d) ∨ change.Found S record thread.deeds) ∧
      (∀ expected next, thread.call = .compareAndSwap expected next → ∀ d ∈ thread.deeds,
        ∀ key (current : LatestPointer) revision, Holds S d.before key current revision →
        d.after key ≠ d.before key →
        next.parent = some current.generation ∧
          current.generation.generation < next.generation.generation) ∧
      ∀ e, P.result i = some (.error e) → e.is .ambiguous = false →
        ∀ d ∈ thread.deeds, d.after = d.before := by
  refine ⟨(discipline S).invariant_of_run (fun _ _ _ => valid_of_guar) hRun hValid, ?_⟩
  intro i thread change hThread hChange
  have hPost (r : Except Error Result) (hr : P.result i = some r) :=
    ((discipline S).post_of_run hRun hThread (Pool.rest_of_result hThread hr)).record change hChange
  refine ⟨fun record hRecord => ?_, ?_, fun e hError hMarked => ?_⟩
  · exact (hPost _ hRecord).1 record rfl
  · intro expected next hCall d hd key current revision hCurrent hChanged
    obtain ⟨_, _, -, hGuar⟩ := (discipline S).guar_of_run hRun hThread hd
    rw [hCall] at hGuar
    exact succeeds_of_swap hGuar hCurrent hChanged
  · have hSettled := (hPost _ hError).2 e rfl
    rcases hSettled with hAmbiguous | hQuiet
    · cases hMarked.symm.trans hAmbiguous
    · exact hQuiet

section Sample

def sampleGeneration (n : UInt64) : GenerationRef := ⟨n, List.replicate 64 97⟩

def samplePointer (capsule : Bytes) (n : UInt64) (parent : Option GenerationRef) : LatestPointer where
  schemaVersion := 1
  capsule := capsule
  lineage := ⟨lit "main"⟩
  generation := sampleGeneration n
  parent := parent
  objectKey := capsule ++ lit "/generations/" ++ generationName (sampleGeneration n) ++ lit ".tar.zst"
  size := 1
  createdAt := second 1
  tools := ⟨[], []⟩
  sessionID := lit "a"

def sampleFirst : LatestPointer := samplePointer (lit "c") 1 none

def sampleSecond : LatestPointer := samplePointer (lit "c") 2 (some (sampleGeneration 1))

/-- A pointer is created, and two clients replace it by the same document. The
outcome of the first one gets lost before it happens. -/
def sampleRace : Clients (Fin 3) :=
  Pool.exec (storeMachine sampleStore) Call.program
    [.begin 0 (.create sampleFirst), .act 0 (.answers true),
      .begin 1 (.compareAndSwap ⟨sampleFirst, [49]⟩ sampleSecond),
      .act 1 (.answers true), .act 1 (.answers true), .act 1 (.answers true), .act 1 (.loses false),
      .begin 2 (.compareAndSwap ⟨sampleFirst, [49]⟩ sampleSecond),
      .act 2 (.answers true), .act 2 (.answers true), .act 2 (.answers true), .act 2 (.answers true),
      .act 1 (.answers true), .act 1 (.answers true), .act 1 (.answers true)]
    (Pool.start fun _ => Shelf.empty)

theorem pointersValid_empty : PointersValid fun _ => Shelf.empty := nofun

theorem sampleRace_run : sampleRace.Run sampleStore fun _ => Shelf.empty := Pool.run_exec ..

theorem pointer_succession_sample : PointersValid sampleRace.world ∧
    sampleRace.result 2 = some (.ok (.record ⟨sampleSecond, [49, 49]⟩)) ∧
    ∀ thread, sampleRace.thread 2 = some thread →
      thread.call = .compareAndSwap ⟨sampleFirst, [49]⟩ sampleSecond →
      (∃ d ∈ thread.deeds, (Change.swap ⟨sampleFirst, [49]⟩ sampleSecond).Made sampleStore
          ⟨sampleSecond, [49, 49]⟩ d) ∨
        (Change.swap ⟨sampleFirst, [49]⟩ sampleSecond).Found sampleStore ⟨sampleSecond, [49, 49]⟩
          thread.deeds := by
  obtain ⟨hWorld, hThreads⟩ := pointer_succession pointersValid_empty sampleRace_run
  have hResult : sampleRace.result 2 = some (.ok (.record ⟨sampleSecond, [49, 49]⟩)) := by
    decide +kernel
  refine ⟨hWorld, hResult, fun thread hThread hCall => ?_⟩
  have hChange : thread.call.change = some (.swap ⟨sampleFirst, [49]⟩ sampleSecond) := by
    rw [hCall]
    rfl
  exact (hThreads 2 thread _ hThread hChange).1 _ hResult

def sampleRaw : Clients (Fin 1) :=
  Pool.exec (storeMachine sampleStore) Call.program
    [.begin (Fin.last 0) (.create (samplePointer [97, 255] 1 none)), .act (Fin.last 0) (.answers true)]
    (Pool.start fun _ => Shelf.empty)

/-- A call succeeds that changed no object, since another one wrote its document.
And a pointer whose capsule is not text is stored, but is not valid when it is read. -/
theorem lost_write_adopts_competitor :
    (sampleRace.Run sampleStore (fun _ => Shelf.empty) ∧
      sampleRace.result 1 = some (.ok (.record ⟨sampleSecond, [49, 49]⟩)) ∧
      ∀ thread ∈ sampleRace.thread 1,
        thread.call = .compareAndSwap ⟨sampleFirst, [49]⟩ sampleSecond ∧
        ∀ d ∈ thread.deeds, d.after (lit "c/latest.json") = d.before (lit "c/latest.json")) ∧
    sampleRaw.Run sampleStore (fun _ => Shelf.empty) ∧
    sampleRaw.result 0 = some (.ok (.record ⟨samplePointer [97, 255] 1 none, [49]⟩)) ∧
    ((storeMachine sampleStore).calmly (Pointers.read [97, 255] ⟨lit "main"⟩) sampleRaw.world).1 =
      some (.error (invalid "pointer identity or schema mismatch: %w" [])) := by
  refine ⟨⟨sampleRace_run, by decide +kernel, by decide +kernel⟩, Pool.run_exec .., ?_, ?_⟩
  · decide +kernel
  · decide +kernel

end Sample

end Camp.Coordination
