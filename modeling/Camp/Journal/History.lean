import Mathlib.Logic.Relation
import Camp.Journal.StoreSpec

/-!
# Histories of a journal

Calls follow one another, each under faults of its own. Beside the disk a
history is kept for every session: the snapshot it started from and what the
calls are seen to have appended. The invariant says that the files hold the
history, and it is derived from the effects of the calls.
-/

namespace Camp.Journal

open Wire Wire.Utf8 Program Program.Files Program.Machine Relation List Function Option Call

variable {es : List Entry} {log line id : Bytes} {s : JournalSnapshot} {hist : Option History} {c : Call} {w : World}
  {faults : List Fault}
variable {folder' : Option (Folder File)} {r : Outcome Error Unit}

/-- What has happened to a session. Entries are listed as they are read back, and
facts also with the candidate snapshot of their recorder. -/
structure History where
  initial : JournalSnapshot
  entries : List Entry
  candidates : List (FactRecord × JournalSnapshot)

namespace History

def start (s : JournalSnapshot) : History := ⟨canon s, [], []⟩

def bind (b : ExecutionBinding) (h : History) : History :=
  { h with initial := canon (h.initial.withBinding b) }

def intent (i : IntentRecord) (h : History) : History :=
  { h with entries := h.entries ++ [(Entry.intent i).canon] }

def fact (f : FactRecord) (candidate reduced : JournalSnapshot) (h : History) : History :=
  { h with
    entries := h.entries ++ [(Entry.fact f reduced).canon]
    candidates := h.candidates ++ [(f, candidate)] }

def current (h : History) : JournalSnapshot := lastSnapshot h.initial h.entries

end History

/-- The history after a call, by what the call has done to the directory. -/
def Call.observe (before after : Option (Folder File)) (h : Option History) : Call → Option History
  | .create s => if before.isNone ∧ after.isSome then some (.start s) else h
  | .bindExecution _ b =>
    if after.bind (· .snapshot) = before.bind (· .snapshot) then h else h.map (.bind b)
  | .recordIntent i =>
    if after.bind (· .journal) = before.bind (· .journal) then h else h.map (.intent i)
  | .recordFact f s =>
    if after.bind (· .journal) = before.bind (· .journal) then h
    else
      match readSession f.sessionID before with
      | .error _ => h
      | .ok (current, _) =>
        match factSnapshot current f s with
        | .error _ => h
        | .ok reduced => h.map (.fact f s reduced)

structure World where
  disk : Disk
  history : Bytes → Option History

namespace World

def start : World := ⟨emptyDisk, fun _ => none⟩

def folder (w : World) (id : Bytes) : Option (Folder File) := w.disk.folder (sessionDirectory id)

def call (w : World) (c : Call) (faults : List Fault) : World :=
  let disk := (c.run faults w.disk).2
  { disk
    history := update w.history c.sessionID
      (c.observe (w.folder c.sessionID) (disk.folder (sessionDirectory c.sessionID))
        (w.history c.sessionID)) }

theorem disk_call (w : World) (c : Call) (faults : List Fault) :
    (w.call c faults).disk = (c.run faults w.disk).2 := rfl

end World

/-- A line that is appended to a log reaches it whole or not at all. -/
def wholeLines : Op Bytes File Probe → Nat → Prop
  | .write _ .journal _, kept => kept = 0
  | _, _ => True

def Call.Whole (c : Call) (faults : List Fault) (d : Disk) : Prop :=
  storeMachine.Respects (within wholeLines) c.program.run faults d

def WholeStep (w w' : World) : Prop := ∃ c faults, c.Whole faults w.disk ∧ w' = w.call c faults

structure Holds (g : Folder File) (h : History) (log body : Bytes) (s : JournalSnapshot) : Prop where
  journal : g .journal = some log
  logged : Logged h.entries log
  snapshot : g .snapshot = some body
  decoded : unmarshal body = some s
  canonical : canon s = s
  current : lastSnapshot s h.entries = h.current

def Held (folder : Option (Folder File)) : Option History → Prop
  | none => folder.bind (· .journal) = none
  | some h => ∃ g log body s, folder = some g ∧ Holds g h log body s

theorem canonical_lastSnapshot (h : Logged es log) (hs : canon s = s) :
    canon (lastSnapshot s es) = lastSnapshot s es := by
  induction h with
  | nil => exact hs
  | @snoc es log line e before written ih =>
    rw [lastSnapshot_snoc]
    cases e with
    | intent i => exact ih
    | fact f s' => exact canon_canon s'

theorem Held.canonical {folder : Option (Folder File)} {h : History} (hHeld : Held folder (some h)) :
    canon h.current = h.current := by
  obtain ⟨g, log, body, s, _, hHolds⟩ := hHeld
  rw [← hHolds.current]
  exact canonical_lastSnapshot hHolds.logged hHolds.canonical

theorem current_intent (h : History) (i : IntentRecord) : (h.intent i).current = h.current :=
  lastSnapshot_snoc ..

theorem current_fact (h : History) (f : FactRecord) (s reduced : JournalSnapshot) :
    (h.fact f s reduced).current = canon reduced := lastSnapshot_snoc ..

theorem line_ne_nil {e : Entry} (h : e.line = some line) : line ≠ [] := by
  obtain ⟨body, _, rfl⟩ := map_eq_some_iff.mp h
  simp

theorem Logged.eq_nil (h : Logged es []) : es = [] := by
  generalize hLog : ([] : Bytes) = log at h
  cases h with
  | nil => rfl
  | snoc before written => exact absurd (append_eq_nil_iff.mp hLog.symm).2 (line_ne_nil written)

theorem Logged.log_eq_nil (h : Logged [] log) : log = [] := by
  generalize hEntries : ([] : List Entry) = es at h
  cases h with
  | nil => rfl
  | snoc before written => exact absurd hEntries (by simp)

theorem lastSnapshot_congr {s' : JournalSnapshot} (h : lastSnapshot s es = lastSnapshot s' es) (e : Entry) :
    lastSnapshot s (es ++ [e]) = lastSnapshot s' (es ++ [e]) := by
  rw [lastSnapshot_snoc, lastSnapshot_snoc]
  cases e with
  | intent i => exact h
  | fact f s => rfl

namespace Holds

variable {g g' : Folder File} {h : History} {log body : Bytes} {s : JournalSnapshot}

theorem congr (hg : Holds g h log body s) (hJournal : g' .journal = g .journal)
    (hSnapshot : g' .snapshot = g .snapshot) : Holds g' h log body s :=
  { hg with
    journal := hJournal.trans hg.journal
    snapshot := hSnapshot.trans hg.snapshot }

theorem append (hg : Holds g h log body s) {e : Entry} {line : Bytes} (hLine : e.line = some line)
    {h' : History} (hInitial : h'.initial = h.initial) (hEntries : h'.entries = h.entries ++ [e.canon]) :
    Holds (update g .journal (some (log ++ line))) h' (log ++ line) body s where
  journal := by simp
  logged := by
    rw [hEntries]
    exact .snoc hg.logged hLine
  snapshot := by simpa using hg.snapshot
  decoded := hg.decoded
  canonical := hg.canonical
  current := by
    rw [History.current, hInitial, hEntries]
    exact lastSnapshot_congr hg.current _

theorem read {id : Bytes} {current : JournalSnapshot} {pending : List IntentRecord}
    (hg : Holds g h log body s) (hRead : readSession id (some g) = .ok (current, pending)) :
    current = h.current ∧ ∃ r, h.entries.foldlM (Entry.replay id) ⟨s, []⟩ = .ok r ∧
      pending = sortIntents r.pending := by
  obtain ⟨_, g', body', s', log', r, hg', hBody, hDecoded, hLog, hReplay, hResult⟩ :=
    readSession_eq_ok.mp hRead
  cases hg'
  cases hg.snapshot.symm.trans hBody
  cases hg.decoded.symm.trans hDecoded
  cases hg.journal.symm.trans hLog
  rw [hg.logged.replayLog] at hReplay
  cases hResult
  exact ⟨(Replay.sound_of_foldlM hReplay).snapshot.trans hg.current, r, hReplay, rfl⟩

end Holds

theorem Call.observe_same (c : Call) (folder : Option (Folder File)) (h : Option History) :
    c.observe folder folder h = h := by
  cases c with
  | create s => cases folder <;> simp [observe]
  | recordIntent i => simp [observe]
  | bindExecution id b => simp [observe]
  | recordFact f s => simp [observe]

theorem held_some {g : Folder File} (h : Held (some g) hist) (hLog : g .journal = some log) :
    ∃ h body s, hist = some h ∧ Holds g h log body s := by
  cases hist with
  | none => exact absurd (hLog.symm.trans h) nofun
  | some h =>
    obtain ⟨g', log', body, s, hg, hHolds⟩ := h
    cases hg
    cases hLog.symm.trans hHolds.journal
    exact ⟨_, body, s, rfl, hHolds⟩

theorem Held.history_of_load {d : Disk} {pending : List IntentRecord}
    (hHeld : Held (d.folder (sessionDirectory id)) hist) (hLoad : loads d id = some (.ok (s, pending))) :
    ∃ h, hist = some h ∧ s = h.current := by
  have hRead := Option.some.inj ((loads_eq _ _).symm.trans hLoad)
  obtain ⟨_, g, _, _, log, _, hFolder, _, _, hLog, _⟩ := readSession_eq_ok.mp hRead
  rw [hFolder] at hHeld hRead
  obtain ⟨h, _, _, hHistory, hHolds⟩ := held_some hHeld hLog
  exact ⟨h, hHistory, (hHolds.read hRead).1⟩

theorem cut_wholeLines {kept : Nat} (h : Cut wholeLines id line kept) :
    line.take kept = [] ∨ line.take kept = line := by
  rcases h with h | h
  · exact Or.inr (take_of_length_le h)
  · left
    rw [show kept = 0 from h, take_zero]

theorem append_ne_self (h : line ≠ []) : some (log ++ line) ≠ some log := by
  simpa using h

theorem held_created {body : Bytes} (h : marshal s = some body) : Held (some (newFolder body)) (some (.start s)) :=
  ⟨_, [], body, canon s, rfl, rfl, .nil, rfl, unmarshal_marshal h, canon_canon s, rfl⟩

section Step

variable {g g' : Folder File} {hist : Option History} {log line : Bytes} {kept : Nat}
  {r : Outcome Error Unit}
variable {s : JournalSnapshot} {pending : List IntentRecord}
variable {f : FactRecord} {current reduced : JournalSnapshot}

theorem held_appended {i : IntentRecord} (hHeld : Held (some g) hist) (hLog : g .journal = some log)
    (hLine : (Entry.intent i).line = some line) (hCut : Cut wholeLines i.sessionID line kept) :
    Held (some (update g .journal (some (log ++ line.take kept))))
      ((Call.recordIntent i).observe (some g)
        (some (update g .journal (some (log ++ line.take kept)))) hist) := by
  rcases cut_wholeLines hCut with hKept | hKept <;> rw [hKept]
  · rw [append_nil, ← hLog, update_eq_self, observe_same]
    exact hHeld
  · obtain ⟨h, body, s, rfl, hHolds⟩ := held_some hHeld hLog
    have hNe : some (log ++ line) ≠ some log := append_ne_self (line_ne_nil hLine)
    simp only [observe, bind_some, update_self, hLog, if_neg hNe]
    exact ⟨_, _, _, _, rfl, hHolds.append hLine rfl rfl⟩

theorem observe_fact (hRead : readSession f.sessionID (some g) = .ok (current, pending))
    (hReduce : factSnapshot current f s = .ok reduced) (hLog : g .journal = some log)
    (hLog' : g' .journal = some (log ++ line)) (hLine : line ≠ []) :
    (Call.recordFact f s).observe (some g) (some g') hist = hist.map (.fact f s reduced) := by
  simp only [observe, bind_some, hLog, hLog', if_neg (append_ne_self hLine), hRead, hReduce]

theorem held_bind {id : Bytes} {b : ExecutionBinding} (hHeld : Held (some g) hist)
    (hRead : readSession id (some g) = .ok (s, pending)) (hEmpty : g .journal = some [])
    (hWrite : SnapshotWrite g (s.withBinding b) g') :
    Held (some g') ((Call.bindExecution id b).observe (some g) (some g') hist) := by
  obtain ⟨h, body, s', rfl, hHolds⟩ := held_some hHeld hEmpty
  by_cases hSame : g' .snapshot = g .snapshot
  · have hJournal : g' .journal = g .journal := by cases hWrite <;> simp_all
    simp only [observe, bind_some, if_pos hSame]
    exact ⟨_, _, _, _, rfl, hHolds.congr hJournal hSame⟩
  · cases hWrite with
    | kept g' hJournal hSnapshot _ => exact absurd hSnapshot hSame
    | replaced body' hBody _ =>
      simp only [observe, bind_some, if_neg hSame]
      have hNil := hHolds.logged.eq_nil
      have hCurrent : s = h.initial := by
        rw [(hHolds.read hRead).1, History.current, hNil]
        rfl
      refine ⟨_, [], body', canon (s.withBinding b), rfl, ?_⟩
      refine ⟨by simpa using hEmpty, hHolds.logged, by simp, unmarshal_marshal hBody, canon_canon _, ?_⟩
      simp only [History.current, History.bind, hNil, hCurrent, lastSnapshot, foldl_nil]

theorem held_fact (hHeld : Held (some g) hist) (hRead : readSession f.sessionID (some g) = .ok (current, pending))
    (hReduce : factSnapshot current f s = .ok reduced) (hLog : g .journal = some log)
    (hLine : (Entry.fact f reduced).line = some line)
    (hWrite : SnapshotWrite (update g .journal (some (log ++ line))) reduced g') :
    Held (some g') ((Call.recordFact f s).observe (some g) (some g') hist) := by
  have hLog' : g' .journal = some (log ++ line) := by cases hWrite <;> simp_all
  rw [observe_fact hRead hReduce hLog hLog' (line_ne_nil hLine)]
  obtain ⟨h, body, s', rfl, hHolds⟩ := held_some hHeld hLog
  have hAppended : Holds _ (h.fact f s reduced) (log ++ line) body s' := hHolds.append hLine rfl rfl
  cases hWrite with
  | kept g' hJournal hSnapshot _ => exact ⟨_, _, _, _, rfl, hAppended.congr hJournal hSnapshot⟩
  | replaced body' hBody _ =>
    refine ⟨_, log ++ line, body', canon reduced, rfl, ?_⟩
    refine ⟨hLog', hAppended.logged, by simp, unmarshal_marshal hBody, canon_canon _, ?_⟩
    simp only [History.current, History.fact, lastSnapshot_snoc, Entry.canon]

theorem held_effect {c : Call} {folder folder' : Option (Folder File)}
    (hEffect : Effect wholeLines c folder r folder') (h : Held folder hist) :
    Held folder' (c.observe folder folder' hist) := by
  cases hEffect with
  | nothing failed => rwa [observe_same]
  | accepted => rwa [observe_same]
  | created valid written => exact held_created written
  | appended valid before written cut whole => exact held_appended h before written cut
  | bound read same => rwa [observe_same]
  | bind read unbound empty valid write done => exact held_bind h read empty write
  | factTorn valid read reduce before written cut failed =>
    rcases cut_wholeLines cut with hKept | hKept <;> rw [hKept]
    · rw [append_nil, ← before, update_eq_self, observe_same]
      exact h
    · exact held_fact h read reduce before written (.same _ _)
  | fact valid read reduce before written write done => exact held_fact h read reduce before written write

end Step

/-- Everything a call can do to the history of its session. -/
inductive Advances (folder : Option (Folder File)) : Call → Option History → Option History → Prop where
  | same {c : Call} {hist : Option History} : Advances folder c hist hist
  | started {s : JournalSnapshot} (valid : validateSessionID s.sessionID = .ok ()) :
      Advances folder (.create s) none (some (.start s))
  | bound {id : Bytes} {b : ExecutionBinding} {h : History} (unbound : h.current.executionBinding = none)
      (empty : h.entries = []) : Advances folder (.bindExecution id b) (some h) (some (h.bind b))
  | intent {i : IntentRecord} {h : History} :
      Advances folder (.recordIntent i) (some h) (some (h.intent i))
  | fact {f : FactRecord} {s reduced : JournalSnapshot} {h : History} {pending : List IntentRecord}
      (read : readSession f.sessionID folder = .ok (h.current, pending))
      (reduce : factSnapshot h.current f s = .ok reduced) :
      Advances folder (.recordFact f s) (some h) (some (h.fact f s reduced))

theorem advances_of_effect {folder : Option (Folder File)} (hEffect : Effect wholeLines c folder r folder')
    (hHeld : Held folder hist) : Advances folder c hist (c.observe folder folder' hist) := by
  -- a fact that is seen in the log was accepted for the state that the history describes
  have facts {f : FactRecord} {s current reduced : JournalSnapshot} {pending : List IntentRecord}
      {g g' : Folder File} {log line : Bytes} (hHeld : Held (some g) hist)
      (hRead : readSession f.sessionID (some g) = .ok (current, pending))
      (hReduce : factSnapshot current f s = .ok reduced) (hLog : g .journal = some log)
      (hLog' : g' .journal = some (log ++ line)) (hLine : line ≠ []) :
      Advances (some g) (.recordFact f s) hist ((Call.recordFact f s).observe (some g) (some g') hist) := by
    obtain ⟨h, body, s', rfl, hHolds⟩ := held_some hHeld hLog
    rw [observe_fact hRead hReduce hLog hLog' hLine]
    obtain ⟨rfl, _⟩ := hHolds.read hRead
    exact .fact hRead hReduce
  cases hEffect with
  | nothing failed => rw [Call.observe_same]; exact .same
  | accepted => rw [Call.observe_same]; exact .same
  | created valid written =>
    cases hist with
    | none => exact .started valid
    | some h =>
      obtain ⟨_, _, _, _, hFolder, _⟩ := hHeld
      cases hFolder
  | appended valid before written cut whole =>
    obtain ⟨h, body, s', rfl, _⟩ := held_some hHeld before
    simp only [Call.observe]
    split_ifs
    · exact .same
    · exact .intent
  | bound read same => rw [Call.observe_same]; exact .same
  | bind read unbound empty valid write done =>
    obtain ⟨h, body, s', rfl, hHolds⟩ := held_some hHeld empty
    simp only [Call.observe]
    split_ifs
    · exact .same
    · obtain ⟨rfl, _⟩ := hHolds.read read
      exact .bound unbound hHolds.logged.eq_nil
  | factTorn valid read reduce before written cut failed =>
    rcases cut_wholeLines cut with hKept | hKept <;> rw [hKept]
    · rw [append_nil, ← before, update_eq_self, Call.observe_same]
      exact .same
    · exact facts hHeld read reduce before (by simp) (line_ne_nil written)
  | fact valid read reduce before written write done =>
    exact facts hHeld read reduce before (by cases write <;> simp_all) (line_ne_nil written)

/-- An intent or a fact is the next entry of the history, the fact as it was composed
with the snapshot that the history had reached. -/
def Call.Recorded (before after : Option History) : Call → Prop
  | .recordIntent i => ∃ h, before = some h ∧ after = some (h.intent i)
  | .recordFact f s => ∃ h reduced, before = some h ∧ factSnapshot h.current f s = .ok reduced ∧
      after = some (h.fact f s reduced)
  | _ => True

theorem recorded_of_effect {folder : Option (Folder File)} (hEffect : Effect wholeLines c folder r folder')
    (hHeld : Held folder hist) (hDone : r = some (.ok ())) : c.Recorded hist (c.observe folder folder' hist) := by
  cases hEffect with
  | nothing failed => exact absurd hDone failed
  | accepted => trivial
  | created valid written => trivial
  | @appended i g log line kept r valid before written cut whole =>
    obtain ⟨h, body, s', rfl, _⟩ := held_some hHeld before
    have hNe : some (log ++ line) ≠ some log := append_ne_self (line_ne_nil written)
    refine ⟨h, rfl, ?_⟩
    simp only [Call.observe, bind_some, update_self, before,
      take_of_length_le (whole hDone), if_neg hNe, map_some]
  | bound read same => trivial
  | bind read unbound empty valid write done => trivial
  | factTorn valid read reduce before written cut failed => exact absurd hDone failed
  | fact valid read reduce before written write done =>
    obtain ⟨h, body, s', rfl, hHolds⟩ := held_some hHeld before
    obtain ⟨rfl, _⟩ := hHolds.read read
    refine ⟨h, _, rfl, reduce, ?_⟩
    rw [observe_fact read reduce before (by cases write <;> simp_all) (line_ne_nil written)]
    rfl

theorem World.folder_call_ne (hWhole : c.Whole faults w.disk) (hID : id ≠ c.sessionID) :
    (w.call c faults).folder id = w.folder id := (run_effect hWhole).2 id hID

theorem held_call_self (hWhole : c.Whole faults w.disk) (h : Held (w.folder c.sessionID) (w.history c.sessionID)) :
    Held ((w.call c faults).folder c.sessionID) ((w.call c faults).history c.sessionID) := by
  simp only [World.call, update_self]
  exact held_effect (run_effect hWhole).1 h

theorem held_call (hWhole : c.Whole faults w.disk) (h : ∀ id, Held (w.folder id) (w.history id)) (id : Bytes) :
    Held ((w.call c faults).folder id) ((w.call c faults).history id) := by
  by_cases hID : id = c.sessionID
  · subst hID
    exact held_call_self hWhole (h _)
  · rw [World.folder_call_ne hWhole hID]
    simp only [World.call, update_of_ne hID]
    exact h id

theorem held_start (id : Bytes) : Held (World.start.folder id) (World.start.history id) := by
  show (emptyDisk.folder (.named id)).bind (· .journal) = none
  by_cases h : (Place.named id : Directory) = .named (lit ".creating") <;> simp [emptyDisk, h]

theorem held_of_run (h : ReflTransGen WholeStep World.start w) (id : Bytes) : Held (w.folder id) (w.history id) := by
  induction h generalizing id with
  | refl => exact held_start id
  | tail _ hStep ih =>
    obtain ⟨c, faults, hWhole, rfl⟩ := hStep
    exact held_call hWhole ih id

theorem World.history_call_ne (hID : id ≠ c.sessionID) : (w.call c faults).history id = w.history id :=
  update_of_ne hID _ _

theorem World.advances (hHeld : Held (w.folder c.sessionID) (w.history c.sessionID)) (hWhole : c.Whole faults w.disk) :
    Advances (w.folder c.sessionID) c (w.history c.sessionID)
      ((w.call c faults).history c.sessionID) := by
  simp only [World.call, update_self]
  exact advances_of_effect (run_effect hWhole).1 hHeld

/-- A call that reports success is in the history. -/
theorem recorded_of_run (hRun : ReflTransGen WholeStep World.start w) (hWhole : c.Whole faults w.disk)
    (hDone : (c.run faults w.disk).1 = some (.ok ())) :
    c.Recorded (w.history c.sessionID) ((w.call c faults).history c.sessionID) := by
  simp only [World.call, update_self]
  exact recorded_of_effect (run_effect hWhole).1 (held_of_run hRun _) hDone

end Camp.Journal
