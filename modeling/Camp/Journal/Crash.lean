import Camp.Journal.Alike
import Camp.Journal.Session

/-!
# Crashes inside a call

A crash that cuts no line and finds no temporary file is as good as a crash
before the call or after it: `Load` reports one of the two states, and later
calls are answered as in that state. A temporary file that stays behind stops
every later snapshot.
-/

namespace Camp.Journal

open Wire Wire.Utf8 Program Program.Files Program.Machine Relation Function Option Call

variable {d : Disk} {hist : Option History}
variable {folder : Option (Folder File)} {c : Call} {faults : List Fault}
variable {r : Outcome Error Unit} {f : FactRecord} {s reduced : JournalSnapshot} {g g' : Folder File}
  {folder' : Option (Folder File)} {w : World}

theorem alike_refl (folder : Option (Folder File)) : Option.Rel AlikeFolder folder folder := by
  cases folder with
  | none => exact .none
  | some g => exact .some (.refl g)

def Call.completed (c : Call) (d : Disk) : Option (Folder File) :=
  (c.run [] d).2.folder (sessionDirectory c.sessionID)

theorem completed_of_calmly (c : Call)
    (h : storeMachine.calmly c.program d = (r, d.set (sessionDirectory c.sessionID) folder)) :
    c.completed d = folder := by
  have hRun : c.run [] d = (r, d.set (sessionDirectory c.sessionID) folder) := h
  rw [completed, hRun, Tree.folder_set_self]

theorem completed_fact {current : JournalSnapshot} {pending : List IntentRecord} {log line : Bytes}
    (hHeld : Held (d.folder (sessionDirectory f.sessionID)) hist)
    (hFolder : d.folder (sessionDirectory f.sessionID) = some g) (hValid : validateFact f s.sessionID = .ok ())
    (hRead : readSession f.sessionID (some g) = .ok (current, pending))
    (hReduce : factSnapshot current f s = .ok reduced) (hLog : g .journal = some log)
    (hLine : (Entry.fact f reduced).line = some line)
    (hWrite : SnapshotWrite (update g .journal (some (log ++ line))) reduced g')
    (hTemp : g' .snapshotPartial = g .snapshotPartial) :
    Option.Rel AlikeFolder ((Call.recordFact f s).completed d) (some g') := by
  have hRun := calmly_recordFact hValid hFolder hLog hRead hReduce hLine
  rw [hFolder] at hHeld
  obtain ⟨h, body₀, s₀, rfl, hHolds⟩ := held_some hHeld hLog
  have hOver := overridden_fact hHolds.logged hLine
  have hLog' : g' .journal = some (log ++ line) := by cases hWrite <;> simp_all
  -- the old snapshot and the new one can both be read
  have hStale : Stale g' (log ++ line) := by
    refine ⟨hOver, ?_⟩
    cases hWrite with
    | kept g' _ hSnapshot _ =>
      exact ⟨body₀, hSnapshot.trans (by simpa using hHolds.snapshot), s₀, hHolds.decoded⟩
    | replaced body hBody _ => exact ⟨body, by simp, canon reduced, unmarshal_marshal hBody⟩
  by_cases hRefused : marshal reduced = none ∨ (g .snapshotPartial).isSome
  · have hAfter : (d.set (sessionDirectory f.sessionID)
        (some (update g .journal (some (log ++ line))))).folder (sessionDirectory f.sessionID) =
        some (update g .journal (some (log ++ line))) := Tree.folder_set_self _ _ _
    obtain ⟨e, hWritten⟩ : ∃ e, storeMachine.calmly (writeSnapshot _ reduced true) _ = (some (.error e), _) :=
      calmly_writeSnapshot_refused hAfter (by simpa using hRefused)
    rw [completed_of_calmly (.recordFact f s) (hRun.trans hWritten)]
    refine .some ⟨by simp [hLog'], by simp [hTemp], Or.inr ⟨log ++ line, by simp, ?_, hStale⟩⟩
    exact ⟨hOver, body₀, by simpa using hHolds.snapshot, s₀, hHolds.decoded⟩
  · obtain ⟨hBody, hNone⟩ := not_or.mp hRefused
    obtain ⟨body, hBody⟩ := ne_none_iff_exists'.mp hBody
    rw [Bool.not_eq_true, isSome_eq_false_iff, isNone_iff_eq_none] at hNone
    rw [calmly_writeSnapshot (Tree.folder_set_self _ _ _) hBody (by simpa using hNone) (Or.inl rfl),
      Tree.set_set] at hRun
    rw [completed_of_calmly (.recordFact f s) hRun]
    refine .some ⟨by simp [hLog'], by simp [hTemp, hNone], Or.inr ⟨log ++ line, by simp, ?_, hStale⟩⟩
    exact ⟨hOver, body, by simp, canon reduced, unmarshal_marshal hBody⟩

theorem folder_ext (hJournal : g' .journal = g .journal) (hSnapshot : g' .snapshot = g .snapshot)
    (hTemp : g' .snapshotPartial = g .snapshotPartial) : g' = g := by
  funext f
  cases f with
  | journal => exact hJournal
  | snapshot => exact hSnapshot
  | snapshotPartial => exact hTemp

theorem crash_effect (hFolder : d.folder (sessionDirectory c.sessionID) = folder) (hHeld : Held folder hist)
    (hEffect : Effect wholeLines c folder none folder')
    (hTemp : folder'.bind (· .snapshotPartial) = folder.bind (· .snapshotPartial)) :
    folder' = folder ∨ Option.Rel AlikeFolder (c.completed d) folder' := by
  have hHeld' := hFolder ▸ hHeld
  cases hEffect with
  | nothing failed => exact Or.inl rfl
  | @created s body _ valid written =>
    obtain ⟨d', hRun, hNew⟩ := calmly_create_new valid hFolder written
    have hCompleted : (Call.create s).completed d = some (newFolder body) :=
      (congrArg (fun x : Outcome Error Unit × Disk => x.2.folder (sessionDirectory s.sessionID)) hRun).trans hNew
    rw [hCompleted]
    exact Or.inr (alike_refl _)
  | @appended i g log line kept _ valid before written cut whole =>
    rcases cut_wholeLines cut with hKept | hKept <;> rw [hKept]
    · rw [List.append_nil, ← before, update_eq_self]
      exact Or.inl rfl
    · rw [completed_of_calmly (.recordIntent i) (calmly_recordIntent valid hFolder before written)]
      exact Or.inr (alike_refl _)
  | @bind id b g g' s pending _ read unbound empty valid write done =>
    cases write with
    | kept g' journal snapshot _ => exact Or.inl (congrArg some (folder_ext journal snapshot hTemp))
    | replaced body written hNone =>
      rw [completed_of_calmly (.bindExecution id b)
        (calmly_bindExecution valid hFolder empty read unbound written hNone)]
      exact Or.inr (alike_refl _)
  | factTorn valid read reduce before written cut failed =>
    rcases cut_wholeLines cut with hKept | hKept <;> rw [hKept]
    · rw [List.append_nil, ← before, update_eq_self]
      exact Or.inl rfl
    · exact Or.inr (completed_fact hHeld' hFolder valid read reduce before written
        (.same _ _) (by simp))
  | fact valid read reduce before written write done =>
    exact Or.inr (completed_fact hHeld' hFolder valid read reduce before written write hTemp)

theorem alike_of_local {d₁ d₂ : Disk}
    (h₁ : ∀ id, id ≠ c.sessionID → d₁.folder (sessionDirectory id) = d.folder (sessionDirectory id))
    (h₂ : ∀ id, id ≠ c.sessionID → d₂.folder (sessionDirectory id) = d.folder (sessionDirectory id))
    (h : Option.Rel AlikeFolder (d₁.folder (sessionDirectory c.sessionID))
      (d₂.folder (sessionDirectory c.sessionID))) : Alike d₁ d₂ := by
  intro id
  by_cases hID : id = c.sessionID
  · rw [hID]
    exact h
  · rw [h₁ id hID, h₂ id hID]
    exact alike_refl _

/-- The crash does not come while the call has a temporary file. -/
def Call.StopsClean (c : Call) (faults : List Fault) (d : Disk) : Prop :=
  d.file (sessionDirectory c.sessionID) .snapshotPartial = none →
    storeMachine.Respects (fun _ fault d₁ => Fault.Stops fault →
      d₁.file (sessionDirectory c.sessionID) .snapshotPartial = none) c.program.run faults d

theorem temp_of_effect {cuts : Op Bytes File Probe → Nat → Prop} (h : Effect cuts c folder r folder')
    (hTemp : folder.bind (· .snapshotPartial) ≠ none) :
    folder'.bind (· .snapshotPartial) = folder.bind (· .snapshotPartial) := by
  cases h with
  | nothing failed => rfl
  | accepted => rfl
  | created valid written => exact absurd rfl hTemp
  | appended valid before written cut whole => rfl
  | bound read same => rfl
  | bind read unbound empty valid write done =>
    cases write with
    | kept g' journal snapshot temporary => exact temporary hTemp
    | replaced body written absent => exact absurd absent hTemp
  | factTorn valid read reduce before written cut failed => rfl
  | fact valid read reduce before written write done =>
    cases write with
    | kept g' journal snapshot temporary => exact temporary hTemp
    | replaced body written absent => exact absurd absent hTemp

theorem temp_of_stopsClean (hClean : c.StopsClean faults d) (hCrash : (c.run faults d).1 = none) :
    (c.run faults d).2.file (sessionDirectory c.sessionID) .snapshotPartial =
      d.file (sessionDirectory c.sessionID) .snapshotPartial := by
  by_cases hTemp : d.file (sessionDirectory c.sessionID) .snapshotPartial = none
  · have hStop : storeMachine.run c.program.run faults d = (none, (c.run faults d).2) :=
      Prod.ext hCrash rfl
    obtain ⟨op, fault, d₁, hAllow, hStep⟩ := stop_of_respects (hClean hTemp) hStop
    obtain ⟨hStops, kept, hTorn⟩ := torn_of_stop hStep
    rw [hTorn, hTemp]
    exact (Tree.torn_absent _ kept op).mpr (hAllow hStops)
  · exact temp_of_effect (c.run_effect_any faults d).1 hTemp

theorem stopsClean_of_crash {d' : Disk} (hCrash : c.run faults d = (none, d'))
    (hTemp : d'.file (sessionDirectory c.sessionID) .snapshotPartial = none) : c.StopsClean faults d := by
  intro _
  refine respects_of_stop (fun op fault _ _ _ hStep hStops => ?_) (fun op fault _ hStep _ => ?_) hCrash
  · exact absurd hStops (not_stops_of_answer hStep)
  · obtain ⟨_, kept, rfl⟩ := torn_of_stop hStep
    exact (Tree.torn_absent _ kept op).mp hTemp

/-- After every run and a crash that cuts no line and finds no temporary file, the
journal is in the state before the interrupted call or in the state after it:
`Load` reports that state, and the calls that follow are answered as in it. -/
theorem crash_consistent (hRun : ReflTransGen WholeStep World.start w) (hWhole : c.Whole faults w.disk)
    (hClean : c.StopsClean faults w.disk) (hCrash : (c.run faults w.disk).1 = none) :
    ∃ d, (d = w.disk ∨ d = (c.run [] w.disk).2) ∧
      (∀ id, loads (c.run faults w.disk).2 id = loads d id) ∧
      ∀ later : List Call, (∀ c' ∈ later, c'.Later) →
        outcomes later (c.run faults w.disk).2 = outcomes later d := by
  obtain ⟨hEffect, hOthers⟩ := run_effect hWhole
  rw [hCrash] at hEffect
  have hCases := crash_effect rfl (held_of_run hRun c.sessionID) hEffect (temp_of_stopsClean hClean hCrash)
  have hAlike : ∃ d, (d = w.disk ∨ d = (c.run [] w.disk).2) ∧ Alike d (c.run faults w.disk).2 := by
    rcases hCases with hSame | hCompleted
    · refine ⟨w.disk, Or.inl rfl, alike_of_local (fun _ _ => rfl) hOthers ?_⟩
      rw [hSame]
      exact alike_refl _
    · exact ⟨_, Or.inr rfl, alike_of_local (run_effect (whole_calm c w.disk)).2 hOthers hCompleted⟩
  obtain ⟨d, hState, hAlike⟩ := hAlike
  exact ⟨d, hState, fun id => (hAlike.load id).symm, fun later hLater => (outcomes_alike hLater hAlike).symm⟩

theorem Ready.fact_stopped {h : History} (hReady : Ready w f.sessionID h)
    (hValid : validateFact f s.sessionID = .ok ()) (hReduce : factSnapshot h.current f s = .ok reduced)
    (hLine : (Entry.fact f reduced).line.isSome) (hBody : (marshal reduced).isSome) :
    ∃ faults d', (Call.recordFact f s).run faults w.disk = (none, d') ∧
      (Call.recordFact f s).Whole faults w.disk ∧ (Call.recordFact f s).StopsClean faults w.disk ∧
      d'.file (sessionDirectory f.sessionID) .journal ≠ w.disk.file (sessionDirectory f.sessionID) .journal ∧
      d'.file (sessionDirectory f.sessionID) .snapshot = w.disk.file (sessionDirectory f.sessionID) .snapshot := by
  obtain ⟨line, hLine⟩ := isSome_iff_exists.mp hLine
  obtain ⟨body, hBody⟩ := isSome_iff_exists.mp hBody
  obtain ⟨pending, hRead, _⟩ := readSession_of_readable hReady.held hReady.readable
  obtain ⟨g, log, body', s', hFolder, hHolds⟩ := hReady.held
  have hFolder : w.disk.folder (sessionDirectory f.sessionID) = some g := hFolder
  have hClean : (some g : Option (Folder File)).bind (· .snapshotPartial) = none := hFolder ▸ hReady.clean
  rw [World.folder, hFolder] at hRead
  obtain ⟨faults, hFaults, hRun⟩ : ∃ faults : List Fault, (∀ fault ∈ faults, fault = .none ∨ fault = .crash 0) ∧
      (Call.recordFact f s).run faults w.disk = (none, _) :=
    mayEnd_recordFact hValid hFolder hHolds.journal hRead hReduce hLine hBody (Or.inl rfl) (Or.inr rfl)
      (Or.inr ⟨rfl, rfl⟩)
  have hWhole : (Call.recordFact f s).Whole faults w.disk := by
    refine respects_of_forall (fun fault hMem op _ => ?_) (fun _ _ => trivial) _
    rcases hFaults fault hMem with rfl | rfl
    · trivial
    · exact wholeLines_zero op
  refine ⟨faults, _, hRun, hWhole, stopsClean_of_crash hRun ?_, ?_, ?_⟩
  · exact (Tree.file_set_self ..).trans (by simpa using hClean)
  · rw [Tree.file_set_self, file_of_folder hFolder hHolds.journal, update_self]
    exact append_ne_self (line_ne_nil hLine)
  · rw [Tree.file_set_self, Tree.file, hFolder]
    rfl

/-- A fact is in the log, and the process stops before the snapshot is written. -/
theorem crash_consistent_sample :
    ∃ faults, ((Call.recordFact sampleFact sampleSnapshot).run faults sampleAnnounced.disk).1 = none ∧
      ((Call.recordFact sampleFact sampleSnapshot).run faults sampleAnnounced.disk).2.file
          (sessionDirectory (lit "s")) .journal ≠
        sampleAnnounced.disk.file (sessionDirectory (lit "s")) .journal ∧
      ((Call.recordFact sampleFact sampleSnapshot).run faults sampleAnnounced.disk).2.file
          (sessionDirectory (lit "s")) .snapshot =
        sampleAnnounced.disk.file (sessionDirectory (lit "s")) .snapshot ∧
      ∃ d, (d = sampleAnnounced.disk ∨
          d = ((Call.recordFact sampleFact sampleSnapshot).run [] sampleAnnounced.disk).2) ∧
        (∀ id, loads ((Call.recordFact sampleFact sampleSnapshot).run faults sampleAnnounced.disk).2 id =
          loads d id) ∧
        ∀ later : List Call, (∀ c' ∈ later, c'.Later) →
          outcomes later ((Call.recordFact sampleFact sampleSnapshot).run faults sampleAnnounced.disk).2 =
            outcomes later d := by
  obtain ⟨faults, d', hCrash, hWhole, hClean, hJournal, hSnapshot⟩ :=
    ready_sampleAnnounced.fact_stopped (f := sampleFact) (s := sampleSnapshot) (by decide) sample_reduce
      (by decide) (by decide)
  have hRun : ReflTransGen WholeStep World.start sampleAnnounced :=
    (ReflTransGen.single ⟨.create sampleSnapshot, [], whole_calm _ _, rfl⟩).tail
      ⟨.recordIntent sampleIntent, [], whole_calm _ _, rfl⟩
  have hStopped : ((Call.recordFact sampleFact sampleSnapshot).run faults sampleAnnounced.disk).1 = none :=
    congrArg Prod.fst hCrash
  have hDisk := congrArg Prod.snd hCrash
  refine ⟨faults, hStopped, ?_, ?_, crash_consistent hRun hWhole hClean hStopped⟩
  · rwa [hDisk]
  · rwa [hDisk]

section Blocked

variable {w : World} {id : Bytes} {h : History} {b : ExecutionBinding}

theorem crash_blocks_binding (hReady : Ready w id h) (hEmpty : h.entries = [])
    (hUnbound : h.current.executionBinding = none) (hValid : b.validate = .ok ())
    (hBody : (marshal (h.current.withBinding b)).isSome) :
    ∃ faults, (∀ fault ∈ faults, fault = .none ∨ fault = .crash 0) ∧
      ((Call.bindExecution id b).run faults w.disk).1 = none ∧
      ∃ e, ((Call.bindExecution id b).run [] ((Call.bindExecution id b).run faults w.disk).2).1 =
        some (.error e) := by
  obtain ⟨body, hBody⟩ := isSome_iff_exists.mp hBody
  obtain ⟨pending, hRead, _⟩ := readSession_of_readable hReady.held hReady.readable
  obtain ⟨g, log, body₀, s, hFolder, hHolds⟩ := hReady.held
  have hLogged := hHolds.logged
  rw [hEmpty] at hLogged
  cases hLogged.log_eq_nil
  have hClean := hReady.clean
  rw [hFolder] at hRead hClean
  obtain ⟨faults, hFaults, hRun⟩ := mayEnd_bindExecution_crash (P := fun fault => fault = .none ∨ fault = .crash 0)
    hValid hFolder hHolds.journal hRead hUnbound hBody hClean (Or.inl rfl) (Or.inr rfl)
  have hCrash : (Call.bindExecution id b).run faults w.disk = (none, _) := hRun
  refine ⟨faults, hFaults, ?_, ?_⟩
  · rw [hCrash]
  · rw [hCrash]
    have hSame : readSession id (some (update g .snapshotPartial (some []))) =
        .ok (h.current, pending) := hRead
    obtain ⟨e, hRefused⟩ := calmly_bindExecution_refused hValid (Tree.folder_set_self _ _ _)
      (by simpa using hHolds.journal) hSame hUnbound (by simp)
    exact ⟨e, congrArg Prod.fst hRefused⟩

/-- The crash is to blame: before the call and after it the session can be bound. -/
theorem leftover_temp_blocks_binding :
    ((Call.bindExecution (lit "s") sampleBinding).run [] sampleCreated.disk).1 = some (.ok ()) ∧
      ((Call.bindExecution (lit "s") sampleBinding).run []
        ((Call.bindExecution (lit "s") sampleBinding).run [] sampleCreated.disk).2).1 = some (.ok ()) ∧
      ∃ faults, ((Call.bindExecution (lit "s") sampleBinding).run faults sampleCreated.disk).1 = none ∧
        ∃ e, ((Call.bindExecution (lit "s") sampleBinding).run []
          ((Call.bindExecution (lit "s") sampleBinding).run faults sampleCreated.disk).2).1 =
            some (.error e) := by
  have hUnbound : (History.start sampleSnapshot).current.executionBinding = none := by decide
  have hValid : sampleBinding.validate = .ok () := by decide
  have hBody : (marshal ((History.start sampleSnapshot).current.withBinding sampleBinding)).isSome := by
    decide
  obtain ⟨hBefore, hBound⟩ := ready_sampleCreated.bind rfl hUnbound hValid hBody
  obtain ⟨faults, _, hCrash, hBlocked⟩ := crash_blocks_binding ready_sampleCreated rfl hUnbound hValid hBody
  refine ⟨hBefore, ?_, faults, hCrash, hBlocked⟩
  have hAgain := hBound.bind_same hValid (by decide)
  rwa [World.disk_call] at hAgain

end Blocked

end Camp.Journal
