import Camp.Journal.Healthy
import Camp.Journal.Careful

/-!
# Healthy sessions

The files of a session against its history: as long as nothing goes wrong, a
call does to the files what it does to the history.
-/

namespace Camp.Journal

open Wire Wire.Utf8 Program Program.Files Program.Machine Relation Option Call

variable {w : World} {c : Call} {id : Bytes}
variable {r : Outcome Error Unit} {d : Disk}

theorem wholeLines_zero (op : Op Bytes File Probe) : wholeLines op 0 := by
  unfold wholeLines
  split <;> trivial

theorem whole_calm (c : Call) (d : Disk) : c.Whole [] d :=
  respects_calm (fun _ _ => trivial) _

/-- The session has this history, can be read, and no temporary file is left in it. -/
structure Ready (w : World) (id : Bytes) (h : History) : Prop where
  history : w.history id = some h
  held : Held (w.folder id) (some h)
  readable : Readable id (some h)
  clean : (w.folder id).bind (· .snapshotPartial) = none

namespace Ready

variable {w : World} {id : Bytes} {h : History}

theorem load (hReady : Ready w id h) :
    ∃ pending, loads w.disk id = some (.ok (h.current, pending)) ∧
      (∀ i, i ∈ pending ↔ Unanswered h.entries i) ∧
      pending.Pairwise fun a b => idKey a < idKey b := by
  obtain ⟨pending, hRead, hPending⟩ := readSession_of_readable hReady.held hReady.readable
  exact ⟨pending, (loads_eq _ _).trans (congrArg some hRead), hPending⟩

end Ready

theorem call_of_run {faults : List Fault} (hID : c.sessionID = id) (h : c.run faults w.disk = (r, d)) :
    (w.call c faults).folder id = d.folder (sessionDirectory id) ∧
      (w.call c faults).history id =
        c.observe (w.folder id) (d.folder (sessionDirectory id)) (w.history id) := by
  subst hID
  simp only [World.call, World.folder, h, Function.update_self, and_self]

theorem run_calm (hID : c.sessionID = id) (h : storeMachine.calmly c.program w.disk = (r, d)) :
    (c.run [] w.disk).1 = r ∧ (w.call c []).folder id = d.folder (sessionDirectory id) ∧
      (w.call c []).history id = c.observe (w.folder id) (d.folder (sessionDirectory id)) (w.history id) :=
  ⟨congrArg Prod.fst h, call_of_run hID h⟩

namespace Ready

variable {w : World} {h : History}
variable {s reduced : JournalSnapshot} {f : FactRecord}
variable {b : ExecutionBinding}

theorem held_after {c : Call} {faults : List Fault} (hReady : Ready w c.sessionID h)
    (hWhole : c.Whole faults w.disk) {h' : History}
    (hHistory : (w.call c faults).history c.sessionID = some h') :
    Held ((w.call c faults).folder c.sessionID) (some h') := by
  have hHeld := held_call_self hWhole (hReady.history ▸ hReady.held)
  rwa [hHistory] at hHeld

theorem create (hFolder : w.folder s.sessionID = none) (hValid : validateSessionID s.sessionID = .ok ())
    (hBody : (marshal s).isSome) :
    ((Call.create s).run [] w.disk).1 = some (.ok ()) ∧
      Ready (w.call (.create s) []) s.sessionID (.start s) := by
  obtain ⟨body, hBody⟩ := isSome_iff_exists.mp hBody
  obtain ⟨d, hRun, hNew⟩ := calmly_create_new hValid hFolder hBody
  obtain ⟨hOutcome, hAfter, hHistory⟩ := run_calm (show (Call.create s).sessionID = s.sessionID from rfl) hRun
  have hAfter : (w.call (.create s) []).folder s.sessionID = some (newFolder body) := hAfter.trans hNew
  refine ⟨hOutcome, ?_, ?_, ?_, ?_⟩
  · rw [hNew, hFolder] at hHistory
    exact hHistory
  · rw [hAfter]
    exact held_created hBody
  · rintro _ ⟨⟩
    exact ⟨hValid, replays_nil _⟩
  · rw [hAfter]
    rfl

theorem intent {i : IntentRecord} (hReady : Ready w i.sessionID h) (hValid : validateIntent i = .ok ())
    (hText : canon i.sessionID = i.sessionID) (hLine : (Entry.intent i).line.isSome) :
    ((Call.recordIntent i).run [] w.disk).1 = some (.ok ()) ∧
      Ready (w.call (.recordIntent i) []) i.sessionID (h.intent i) := by
  obtain ⟨line, hLine⟩ := isSome_iff_exists.mp hLine
  obtain ⟨g, log, body, s, hFolder, hHolds⟩ := hReady.held
  obtain ⟨hOutcome, hAfter, hHistory⟩ := run_calm
    (show (Call.recordIntent i).sessionID = i.sessionID from rfl)
      (calmly_recordIntent hValid hFolder hHolds.journal hLine)
  rw [Tree.folder_set_self] at hAfter hHistory
  have hNew : (w.call (.recordIntent i) []).history i.sessionID = some (h.intent i) := by
    refine hHistory.trans ?_
    have hNe : some (log ++ line) ≠ some log := append_ne_self (line_ne_nil hLine)
    simp only [observe, hFolder, hReady.history, bind_some,
      Function.update_self, hHolds.journal, if_neg hNe, map_some]
  refine ⟨hOutcome, hNew, held_after (c := .recordIntent i) hReady (whole_calm _ _) hNew, ?_, ?_⟩
  · rintro _ ⟨⟩
    obtain ⟨hID, hReplays⟩ := hReady.readable h rfl
    exact ⟨hID, replays_intent hReplays hText⟩
  · have hClean := hReady.clean
    rw [hFolder] at hClean
    exact (congrArg (Option.bind · (· .snapshotPartial)) hAfter).trans (by simpa using hClean)

theorem bind {id : Bytes} (hReady : Ready w id h) (hEmpty : h.entries = [])
    (hUnbound : h.current.executionBinding = none) (hValid : b.validate = .ok ())
    (hBody : (marshal (h.current.withBinding b)).isSome) :
    ((Call.bindExecution id b).run [] w.disk).1 = some (.ok ()) ∧
      Ready (w.call (.bindExecution id b) []) id (h.bind b) := by
  obtain ⟨body, hBody⟩ := isSome_iff_exists.mp hBody
  obtain ⟨pending, hRead, _⟩ := readSession_of_readable hReady.held hReady.readable
  obtain ⟨g, log, body₀, s, hFolder, hHolds⟩ := hReady.held
  have hLogged := hHolds.logged
  rw [hEmpty] at hLogged
  cases hLogged.log_eq_nil
  have hClean := hReady.clean
  rw [hFolder] at hRead hClean
  obtain ⟨hOutcome, hAfter, hHistory⟩ := run_calm
    (show (Call.bindExecution id b).sessionID = id from rfl)
    (calmly_bindExecution hValid hFolder hHolds.journal hRead hUnbound hBody hClean)
  rw [Tree.folder_set_self] at hAfter hHistory
  -- the new snapshot has a binding and the old one has none, so the file has changed
  have hChanged : body ≠ body₀ := by
    rintro rfl
    have hCurrent : s = h.current := by
      rw [← hHolds.current, hEmpty]
      rfl
    have hBound : s = canon (h.current.withBinding b) :=
      Option.some.inj (hHolds.decoded.symm.trans (unmarshal_marshal hBody))
    rw [← hCurrent] at hUnbound
    rw [hBound] at hUnbound
    exact absurd hUnbound nofun
  have hNew : (w.call (.bindExecution id b) []).history id = some (h.bind b) := by
    refine hHistory.trans ?_
    rw [hFolder, hReady.history]
    simp [observe, hHolds.snapshot, hChanged]
  refine ⟨hOutcome, hNew, held_after (c := .bindExecution id b) hReady (whole_calm _ _) hNew, ?_, ?_⟩
  · rintro _ ⟨⟩
    obtain ⟨hID, hReplays⟩ := hReady.readable h rfl
    exact ⟨hID, hReplays⟩
  · rw [hAfter]
    rfl

theorem bind_same {id : Bytes} (hReady : Ready w id h) (hValid : b.validate = .ok ())
    (hSame : h.current.executionBinding = some b) : ((Call.bindExecution id b).run [] w.disk).1 = some (.ok ()) := by
  obtain ⟨pending, hRead, _⟩ := readSession_of_readable hReady.held hReady.readable
  obtain ⟨g, log, _, _, hFolder, hHolds⟩ := hReady.held
  rw [hFolder] at hRead
  exact congrArg Prod.fst (calmly_bindExecution_same hValid hFolder hHolds.journal hRead hSame)

theorem fact_recorded (hReady : Ready w f.sessionID h) (hValid : validateFact f s.sessionID = .ok ())
    (hReduce : factSnapshot h.current f s = .ok reduced) (hLine : (Entry.fact f reduced).line.isSome)
    (hBody : (marshal reduced).isSome) :
    ((Call.recordFact f s).run [] w.disk).1 = some (.ok ()) ∧
      (w.call (.recordFact f s) []).history f.sessionID = some (h.fact f s reduced) ∧
      ((w.call (.recordFact f s) []).folder f.sessionID).bind (· .snapshotPartial) = none := by
  obtain ⟨line, hLine⟩ := isSome_iff_exists.mp hLine
  obtain ⟨body, hBody⟩ := isSome_iff_exists.mp hBody
  obtain ⟨pending, hRead, _⟩ := readSession_of_readable hReady.held hReady.readable
  obtain ⟨g, log, body', s', hFolder, hHolds⟩ := hReady.held
  have hClean := hReady.clean
  rw [hFolder] at hRead hClean
  have hRun := calmly_recordFact hValid hFolder hHolds.journal hRead hReduce hLine
  rw [calmly_writeSnapshot (Tree.folder_set_self _ _ _) hBody (by simpa using hClean) (Or.inl rfl),
    Tree.set_set] at hRun
  obtain ⟨hOutcome, hAfter, hHistory⟩ := run_calm (show (Call.recordFact f s).sessionID = f.sessionID from rfl) hRun
  rw [Tree.folder_set_self] at hAfter hHistory
  refine ⟨hOutcome, ?_, ?_⟩
  · rw [hHistory, hFolder, hReady.history,
      observe_fact hRead hReduce hHolds.journal (by simp) (line_ne_nil hLine)]
    rfl
  · rw [hAfter]
    rfl

theorem fact_failed (hReady : Ready w f.sessionID h) (hValid : validateFact f s.sessionID = .ok ())
    (hReduce : factSnapshot h.current f s = .ok reduced) (hLine : (Entry.fact f reduced).line.isSome)
    (hBody : (marshal reduced).isSome) (hText : canon f.sessionID = f.sessionID)
    (hPending : ∃ i, Unanswered h.entries i ∧ i.id = canon f.intentID) :
    ∃ faults e, ((Call.recordFact f s).run faults w.disk).1 = some (.error e) ∧
      Ready (w.call (.recordFact f s) faults) f.sessionID (h.fact f s reduced) := by
  obtain ⟨line, hLine⟩ := isSome_iff_exists.mp hLine
  obtain ⟨body, hBody⟩ := isSome_iff_exists.mp hBody
  obtain ⟨pending, hRead, _⟩ := readSession_of_readable hReady.held hReady.readable
  obtain ⟨g, log, body', s', hFolder, hHolds⟩ := hReady.held
  have hClean := hReady.clean
  rw [hFolder] at hRead hClean
  obtain ⟨faults, hFaults, hRun⟩ : ∃ faults : List Fault, (∀ fault ∈ faults, fault = .none ∨ fault = .fail 0) ∧
      (Call.recordFact f s).run faults w.disk = (some (.error _), _) :=
    mayEnd_recordFact hValid hFolder hHolds.journal hRead hReduce hLine hBody (Or.inl rfl) (Or.inr rfl)
      (Or.inl ⟨rfl, rfl⟩)
  have hWhole : (Call.recordFact f s).Whole faults w.disk := by
    refine respects_of_forall (fun fault hMem op _ => ?_) (fun _ _ => trivial) _
    rcases hFaults fault hMem with rfl | rfl
    · trivial
    · exact wholeLines_zero op
  obtain ⟨hAfter, hHistory⟩ := call_of_run
    (show (Call.recordFact f s).sessionID = f.sessionID from rfl) hRun
  rw [Tree.folder_set_self] at hAfter hHistory
  rw [hFolder, hReady.history,
    observe_fact hRead hReduce hHolds.journal (by simp) (line_ne_nil hLine)] at hHistory
  refine ⟨faults, _, congrArg Prod.fst hRun, hHistory,
    held_after (c := .recordFact f s) hReady hWhole hHistory, ?_, ?_⟩
  · rintro _ ⟨⟩
    obtain ⟨hID, hReplays⟩ := hReady.readable h rfl
    exact ⟨hID, replays_fact hReplays hText hPending⟩
  · rw [hAfter]
    exact hClean

theorem fact (hReady : Ready w f.sessionID h) (hValid : validateFact f s.sessionID = .ok ())
    (hReduce : factSnapshot h.current f s = .ok reduced) (hLine : (Entry.fact f reduced).line.isSome)
    (hBody : (marshal reduced).isSome) (hText : canon f.sessionID = f.sessionID)
    (hPending : ∃ i, Unanswered h.entries i ∧ i.id = canon f.intentID) :
    ((Call.recordFact f s).run [] w.disk).1 = some (.ok ()) ∧
      Ready (w.call (.recordFact f s) []) f.sessionID (h.fact f s reduced) := by
  obtain ⟨hOutcome, hHistory, hClean⟩ := hReady.fact_recorded hValid hReduce hLine hBody
  refine ⟨hOutcome, hHistory, held_after (c := .recordFact f s) hReady (whole_calm _ _) hHistory, ?_, hClean⟩
  rintro _ ⟨⟩
  obtain ⟨hID, hReplays⟩ := hReady.readable h rfl
  exact ⟨hID, replays_fact hReplays hText hPending⟩

theorem answers (hReady : Ready w f.sessionID h) (hPending : ∃ i, Unanswered h.entries i ∧ i.id = canon f.intentID) :
    (Call.recordFact f s).Answers w.disk := by
  intro s' pending' hLoad
  obtain ⟨pending, hPrior, hMem, _⟩ := hReady.load
  obtain ⟨i, hi, hEq⟩ := hPending
  cases hPrior.symm.trans hLoad
  exact List.mem_map.mpr ⟨i, (hMem i).mpr hi, hEq⟩

end Ready

theorem careful_calm (hText : canon c.sessionID = c.sessionID) (hAnswers : c.Answers w.disk) :
    CarefulStep w (w.call c []) :=
  ⟨c, [], ⟨whole_calm c w.disk, hText, hAnswers⟩, rfl⟩

theorem load_unknown_intent {h : History} {es : List Entry} {f : FactRecord} {s : JournalSnapshot}
    (hHeld : Held (w.folder id) (some h)) (hEntries : h.entries = es ++ [.fact f s])
    (hUnknown : ∀ i, Unanswered es i → i.id ≠ f.intentID) : ∃ e, loads w.disk id = some (.error e) := by
  cases hRead : readSession id (w.folder id) with
  | error e => exact ⟨e, (loads_eq _ _).trans (congrArg some hRead)⟩
  | ok v =>
  exfalso
  obtain ⟨g, log, body, s₀, hFolder, hHolds⟩ := hHeld
  rw [hFolder] at hRead
  obtain ⟨_, r, hReplay, _⟩ := hHolds.read hRead
  rw [hEntries, List.foldlM_append] at hReplay
  cases hFront : es.foldlM (Entry.replay id) ⟨s₀, []⟩ with
  | error e => rw [hFront] at hReplay; cases hReplay
  | ok front =>
    rw [hFront] at hReplay
    have hLast : (Entry.fact f s).replay id front = .ok r := by
      rw [← hReplay]
      exact (bind_pure _).symm
    rcases Replay.replay_cases hLast with ⟨i, hEq, _⟩ | ⟨f', s', hEq, _, hPending, _⟩
    · cases hEq
    · cases hEq
      obtain ⟨i, hi, hID⟩ := List.any_eq_true.mp hPending
      exact hUnknown i (((Replay.sound_of_foldlM hFront).mem i).mp hi) (of_decide_eq_true hID)

section Sample

/-! A small session: it is created, and an intent is announced and answered. -/

def sampleSnapshot : JournalSnapshot := { (Wired.codec.zero : JournalSnapshot) with sessionID := lit "s" }

def sampleIntent : IntentRecord :=
  ⟨lit "i", lit "s", .known .leaseRenewed, 1, ⟨1000000000000000000, 0⟩, .empty⟩

def sampleFact : FactRecord := ⟨lit "i", lit "s", .known .leaseRenewed, ⟨1000000000000000000, 0⟩, .empty, none⟩

def sampleBinding : ExecutionBinding := ⟨1, ⟨1, List.replicate 64 97⟩, []⟩

def sampleReduced : JournalSnapshot := { sampleSnapshot with updatedAt := ⟨1000000000000000000, 0⟩ }

def sampleCreated : World := World.start.call (.create sampleSnapshot) []

def sampleAnnounced : World := sampleCreated.call (.recordIntent sampleIntent) []

def sampleAnswered : World := sampleAnnounced.call (.recordFact sampleFact sampleSnapshot) []

theorem ready_sampleCreated : Ready sampleCreated (lit "s") (.start sampleSnapshot) :=
  (Ready.create (s := sampleSnapshot) (by decide) (by decide) (by decide)).2

theorem ready_sampleAnnounced :
    Ready sampleAnnounced (lit "s") ((History.start sampleSnapshot).intent sampleIntent) :=
  (Ready.intent (i := sampleIntent) ready_sampleCreated (by decide) (by decide) (by decide)).2

theorem sample_pending : ∃ i, Unanswered ((History.start sampleSnapshot).intent sampleIntent).entries i ∧
    i.id = canon sampleFact.intentID :=
  ⟨canon sampleIntent, ⟨[], [], rfl, by simp⟩, by decide⟩

theorem sample_reduce :
    factSnapshot ((History.start sampleSnapshot).intent sampleIntent).current sampleFact sampleSnapshot =
      .ok sampleReduced := by
  decide

theorem ready_sampleAnswered : Ready sampleAnswered (lit "s")
    (((History.start sampleSnapshot).intent sampleIntent).fact sampleFact sampleSnapshot sampleReduced) :=
  (Ready.fact (f := sampleFact) ready_sampleAnnounced (by decide) sample_reduce (by decide)
    (by decide) (by decide) sample_pending).2

theorem careful_sampleAnswered : ReflTransGen CarefulStep World.start sampleAnswered := by
  have hCreate : CarefulStep World.start sampleCreated :=
    careful_calm (c := .create sampleSnapshot) (by decide) trivial
  have hIntent : CarefulStep sampleCreated sampleAnnounced :=
    careful_calm (c := .recordIntent sampleIntent) (by decide) trivial
  have hFact : CarefulStep sampleAnnounced sampleAnswered :=
    careful_calm (c := .recordFact sampleFact sampleSnapshot) (by decide)
      (Ready.answers ready_sampleAnnounced sample_pending)
  exact ((ReflTransGen.single hCreate).tail hIntent).tail hFact

end Sample

end Camp.Journal
