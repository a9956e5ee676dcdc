import Camp.Journal.Store

/-!
# What the calls of the store can do

One rule for each program of the store: what it leaves in the session directory
when it succeeds, and when it fails or stops part-way.
-/

namespace Camp.Journal

open Wire Wire.Utf8 Program Program.Files Program.Machine Function Files.Tree

variable {folder : Option (Folder File)} {post : Outcome Error Unit → Disk → Prop} {s : JournalSnapshot} {c : Call}
  {r : Outcome Error Unit} {d' : Disk}

abbrev storeMachine : Machine (signature Bytes File Probe) Disk := machine Bytes File Probe

variable {α : Type} {cuts : Op Bytes File Probe → Nat → Prop} {d : Disk} {dir : Directory}
    {g : Folder File} {sessionID : Bytes}

def loads (d : Disk) (sessionID : Bytes) : Outcome Error (JournalSnapshot × List IntentRecord) :=
  (storeMachine.calmly (load sessionID) d).1

def readSession (sessionID : Bytes) (folder : Option (Folder File)) :
    Except Error (JournalSnapshot × List IntentRecord) := do
  validateSessionID sessionID
  match folder.bind (· .snapshot) with
  | none => throw (explaining "read journal snapshot: %w" [] .notExist)
  | some body =>
    match unmarshal body with
    | none => throw (about "decode journal snapshot: %w" [] (.sentinel .json))
    | some snapshot =>
      match folder.bind (· .journal) with
      | none => throw (explaining "open journal log: %w" [] .notExist)
      | some log => return (← replayLog sessionID snapshot log).result

theorem calmly_load (d : Disk) (sessionID : Bytes) :
    storeMachine.calmly (load sessionID) d =
      (some (readSession sessionID (d.folder (sessionDirectory sessionID))), d) := by
  have hContext : storeMachine.calmly contextErr d = (some (.ok ()), d) := calmly_sys _
  have hFile (f : File) : (d.folder (sessionDirectory sessionID)).bind (· f) =
      d.file (sessionDirectory sessionID) f := rfl
  unfold load readSession
  rw [calmly_bind, hContext]
  simp only [calmly_bind, calmly_lift, hFile]
  cases validateSessionID sessionID with
  | error e => rfl
  | ok _ =>
    simp only [readSnapshot, calmly_bind]
    rw [calmly_sys]
    cases hBody : d.file (sessionDirectory sessionID) .snapshot with
    | none => simp [perform, hBody, Except.mapError]; rfl
    | some body =>
      simp only [perform, hBody, Except.mapError]
      cases (unmarshal body : Option JournalSnapshot) with
      | none => rfl
      | some snapshot =>
        simp only [calmly_pure]
        rw [calmly_sys]
        cases hLog : d.file (sessionDirectory sessionID) .journal with
        | none => simp [perform, hLog, Except.mapError]; rfl
        | some log =>
          simp only [perform, hLog, Except.mapError, Option.isSome_some, if_true]
          rw [calmly_sys]
          simp only [perform, hLog, Except.mapError]
          cases replayLog sessionID snapshot log <;> rfl

theorem loads_eq (d : Disk) (sessionID : Bytes) :
    loads d sessionID = some (readSession sessionID (d.folder (sessionDirectory sessionID))) := by
  rw [loads, calmly_load]

theorem readSession_eq_ok {v : JournalSnapshot × List IntentRecord} :
    readSession sessionID folder = .ok v ↔
      validateSessionID sessionID = .ok () ∧
      ∃ g body snapshot log r, folder = some g ∧ g .snapshot = some body ∧
        unmarshal body = some snapshot ∧ g .journal = some log ∧
        replayLog sessionID snapshot log = .ok r ∧ v = r.result := by
  unfold readSession
  cases validateSessionID sessionID with
  | error e => simp [bind, Except.bind]
  | ok _ =>
    cases folder with
    | none => simp [bind, Except.bind]
    | some g =>
      simp only [bind, Except.bind, Option.bind_some, true_and]
      constructor
      · intro h
        split at h
        · cases h
        · rename_i body hBody
          split at h
          · cases h
          · rename_i snapshot hSnapshot
            split at h
            · cases h
            · rename_i log hLog
              cases hReplay : replayLog sessionID snapshot log with
              | error e => rw [hReplay] at h; cases h
              | ok r =>
                rw [hReplay] at h
                cases h
                exact ⟨g, body, snapshot, log, r, rfl, hBody, hSnapshot, hLog, hReplay, rfl⟩
      · rintro ⟨g', body, snapshot, log, r, hg, hBody, hSnapshot, hLog, hReplay, rfl⟩
        cases hg
        simp only [hBody, hSnapshot, hLog, hReplay]
        rfl

theorem Ends.load {post : Outcome Error (JournalSnapshot × List IntentRecord) → Disk → Prop}
    (hBreak : MayBreak post d)
    (hDone : ∀ v, readSession sessionID (d.folder (sessionDirectory sessionID)) = .ok v →
      post (some (.ok v)) d) :
    storeMachine.Ends (within cuts) (load sessionID) post d := by
  refine Ends.bind (Files.Ends.attempt hBreak ?_)
  refine Ends.bind ((ends_lift ..).mpr ?_)
  cases hID : validateSessionID sessionID with
  | error e => exact hBreak.2 e
  | ok _ =>
    refine Ends.bind (Ends.bind (Files.Ends.read hBreak fun body hBody => ?_))
    cases hSnapshot : (unmarshal body : Option JournalSnapshot) with
    | none =>
      rw [after_ok]
      rw [hSnapshot]
      exact hBreak.2 _
    | some snapshot =>
      rw [after_ok]
      rw [hSnapshot]
      refine Ends.bind (Files.Ends.openFile hBreak fun _ _ => ?_)
      refine Ends.bind (Files.Ends.read hBreak fun log hLog => ?_)
      refine Ends.bind ((ends_lift ..).mpr ?_)
      cases hReplay : replayLog sessionID snapshot log with
      | error e => exact hBreak.2 e
      | ok r =>
        obtain ⟨g, hg, hgBody⟩ := Option.bind_eq_some_iff.mp hBody
        refine hDone _ (readSession_eq_ok.mpr ⟨hID, g, body, snapshot, log, r, hg, hgBody, hSnapshot, ?_, hReplay, rfl⟩)
        obtain ⟨g', hg', hgLog⟩ := Option.bind_eq_some_iff.mp hLog
        cases hg.symm.trans hg'
        exact hgLog

theorem Ends.cleaning {p : Store α} {cleanup : Op Bytes File Probe} {post : Outcome Error α → Disk → Prop}
    (hTorn : ∀ (d' : Disk) kept, d'.torn kept cleanup = d')
    (h : storeMachine.Ends (within cuts) p (fun r d' =>
      match r with
      | none => post none d'
      | some (.ok a) => post (some (.ok a)) d'
      | some (.error _) => MayBreak post d' ∧ MayBreak post (d'.perform cleanup).2) d) :
    storeMachine.Ends (within cuts) (cleaning cleanup p) post d := by
  refine Ends.bind (Ends.catching (h.mono fun r d' hPost => ?_))
  match r with
  | none => exact hPost
  | some (.ok a) => exact hPost
  | some (.error e) =>
    obtain ⟨hHere, hCleaned⟩ := hPost
    exact Ends.bind (Ends.catching
      (Files.Ends.sys (hTorn d') ⟨hHere.1, fun _ => hHere.2 e⟩ (hCleaned.2 e)))

theorem Ends.closeLog {written : Except Error Unit} (hBreak : MayBreak post d)
    (hDone : written = .ok () → post (some (.ok ())) d) :
    storeMachine.Ends (within cuts) (closeLog written) post d := by
  refine Ends.bind (Ends.catching (Files.Ends.attempt ⟨hBreak.1, fun _ => ?_⟩ ?_)) <;>
    cases written
  · exact hBreak.2 _
  · exact hBreak.2 _
  · exact hBreak.2 _
  · exact hDone rfl

theorem mayBreak_closeLog (hBreak : MayBreak post d) :
    MayBreak (fun r d' => storeMachine.after (within cuts) closeLog post (r.map .ok) d') d :=
  ⟨hBreak.1, fun _ => Ends.closeLog hBreak nofun⟩

/-- What may become of the bytes of a line that is appended to a log. -/
def Cut (cuts : Op Bytes File Probe → Nat → Prop) (sessionID line : Bytes) (kept : Nat) : Prop :=
  line.length ≤ kept ∨ cuts (.write (sessionDirectory sessionID) .journal line) kept

theorem Ends.append {entry : Entry} {log : Bytes} (hFolder : d.folder (sessionDirectory sessionID) = some g)
    (hLog : g .journal = some log) (hSame : MayBreak post d)
    (hTorn : ∀ line kept, entry.line = some line → Cut cuts sessionID line kept →
      MayBreak post (d.set (sessionDirectory sessionID)
      (some (update g .journal (some (log ++ line.take kept))))))
    (hDone : ∀ line, entry.line = some line → post (some (.ok ())) (d.set (sessionDirectory sessionID)
      (some (update g .journal (some (log ++ line)))))) :
    storeMachine.Ends (within cuts) (append sessionID entry) post d := by
  refine Ends.bind (Files.Ends.openFile hSame fun _ _ => ?_)
  refine Ends.bind (Ends.catching ?_)
  cases hBody : marshal entry.envelope with
  | none => exact (mayBreak_closeLog hSame).2 _
  | some body =>
    have hLine : entry.line = some (body ++ [10]) := by rw [Entry.line, hBody]; rfl
    have hFile : d.file (sessionDirectory sessionID) .journal = some log := by
      rw [file, hFolder]
      exact hLog
    have hSet (content : Option Bytes) : d.setFile (sessionDirectory sessionID) .journal content =
        d.set (sessionDirectory sessionID) (some (update g .journal content)) := by
      rw [← set_folder d (sessionDirectory sessionID), hFolder, setFile_set_self, set_set]
    refine Ends.bind (Files.Ends.write (mayBreak_closeLog hSame) ?_ ?_)
    · intro content kept h hCut
      cases hFile.symm.trans h
      rw [hSet]
      exact mayBreak_closeLog (hTorn _ kept hLine (Or.inr hCut))
    · intro content h
      cases hFile.symm.trans h
      rw [hSet]
      have hWhole := hTorn _ (body ++ [10]).length hLine (Or.inl le_rfl)
      rw [List.take_length] at hWhole
      exact Files.Ends.attempt (mayBreak_closeLog hWhole)
        (Ends.closeLog hWhole fun _ => hDone _ hLine)

/-- What replacing the snapshot can leave: the log and the snapshot as they were, with
some temporary file, or the new snapshot. A temporary file that is there stays. -/
inductive SnapshotWrite (g : Folder File) (s : JournalSnapshot) : Folder File → Prop where
  | kept (g' : Folder File) (journal : g' .journal = g .journal) (snapshot : g' .snapshot = g .snapshot)
      (temporary : g .snapshotPartial ≠ none → g' .snapshotPartial = g .snapshotPartial) :
      SnapshotWrite g s g'
  | replaced (body : Bytes) (written : marshal s = some body) (absent : g .snapshotPartial = none) :
      SnapshotWrite g s
        (update (update g .snapshot (some body)) .snapshotPartial none)

theorem SnapshotWrite.same (g : Folder File) (s : JournalSnapshot) : SnapshotWrite g s g :=
  .kept g rfl rfl fun _ => rfl

theorem SnapshotWrite.temp {g : Folder File} (s : JournalSnapshot) (hAbsent : g .snapshotPartial = none)
    (content : Option Bytes) : SnapshotWrite g s (update g .snapshotPartial content) :=
  .kept _ (by simp) (by simp) fun hSome => absurd hAbsent hSome

theorem update_commit (g : Folder File) (body : Bytes) :
    update (update (update g .snapshotPartial (some body)) .snapshot
      (some body)) .snapshotPartial none =
      update (update g .snapshot (some body)) .snapshotPartial none := by
  funext f
  cases f <;> simp [update]

theorem Ends.commitSnapshot {body : Bytes} {replace : Bool}
    (hBreak : ∀ content, MayBreak post (d.set dir (some (update g .snapshotPartial content))))
    (hDone : post (some (.ok ())) (d.set dir (some
      (update (update g .snapshot (some body)) .snapshotPartial none)))) :
    storeMachine.Ends (within cuts) (commitSnapshot dir body replace) post
      (d.set dir (some (update g .snapshotPartial (some [])))) := by
  have hRename : storeMachine.Ends (within cuts)
      (sys (explaining "commit journal snapshot: %w" []) (.rename dir .snapshotPartial .snapshot)) post
      (d.set dir (some (update g .snapshotPartial (some body)))) := by
    refine Files.Ends.rename (hBreak _) fun content h => ?_
    rw [file_set_self, update_self] at h
    cases h
    rw [setFile_set_self, setFile_set_self, update_commit]
    exact hDone
  refine Ends.bind (Files.Ends.write (hBreak _) ?_ ?_)
  · intro content kept _ _
    rw [setFile_set_self, update_idem]
    exact hBreak _
  · intro content h
    rw [file_set_self, update_self] at h
    cases h
    rw [setFile_set_self, update_idem, List.nil_append]
    refine Ends.bind (Files.Ends.attempt (hBreak _) ?_)
    refine Ends.bind (Files.Ends.attempt (hBreak _) ?_)
    refine Ends.bind (Files.Ends.attempt (hBreak _) ?_)
    cases replace with
    | true => exact hRename
    | false =>
      refine Ends.bind (Ends.catching (Files.Ends.size ?_ ?_))
      · exact ⟨(hBreak _).1, fun _ => hRename⟩
      · exact fun _ _ => (hBreak _).2 _

theorem Ends.writeSnapshot {replace : Bool} (hFolder : d.folder dir = some g)
    (hBreak : ∀ g', SnapshotWrite g s g' → MayBreak post (d.set dir (some g')))
    (hDone : ∀ body, marshal s = some body → g .snapshotPartial = none →
      post (some (.ok ())) (d.set dir (some
        (update (update g .snapshot (some body)) .snapshotPartial none)))) :
    storeMachine.Ends (within cuts) (writeSnapshot dir s replace) post d := by
  have hSet : d.set dir (some g) = d := by rw [← hFolder, set_folder]
  have hSame := hBreak g (.same g s)
  rw [← hSet]
  unfold Journal.writeSnapshot
  cases hBody : marshal s with
  | none => exact hSame.2 _
  | some body =>
    refine Ends.bind (Files.Ends.create hSame fun folder hFolder hAbsent => ?_)
    rw [folder_set_self] at hFolder
    cases hFolder
    rw [setFile_set_self]
    have hPartial (content : Option Bytes) :
        MayBreak post (d.set dir (some (update g .snapshotPartial content))) :=
      hBreak _ (.temp s hAbsent content)
    have hRemoved (content : Option Bytes) : MayBreak post
        ((d.set dir (some (update g .snapshotPartial content))).perform
          (.remove dir .snapshotPartial : Op Bytes File Probe)).2 := by
      simp only [perform, setFile_set_self, update_idem]
      split_ifs
      · exact hPartial none
      · exact hPartial content
    have hReplaced := hBreak _ (.replaced body hBody hAbsent)
    refine Ends.bind (Ends.cleaning (fun _ _ => rfl) (Ends.commitSnapshot (fun content => ⟨?_, fun e => ?_⟩) ?_))
    · exact (hPartial content).1
    · exact ⟨hPartial content, hRemoved content⟩
    · refine Ends.bind (Files.Ends.attempt hReplaced ?_)
      exact Files.Ends.attempt hReplaced (hDone body hBody hAbsent)

def newFolder (body : Bytes) : Folder File
  | .journal => some []
  | .snapshot => some body
  | .snapshotPartial => none

/-- Everything a call can do to the directory of its session, with its outcome. -/
inductive Effect (cuts : Op Bytes File Probe → Nat → Prop) :
    Call → Option (Folder File) → Outcome Error Unit → Option (Folder File) → Prop where
  /-- The call failed, or stopped, before it changed anything. -/
  | nothing {c : Call} {folder : Option (Folder File)} {r : Outcome Error Unit}
      (failed : r ≠ some (.ok ())) : Effect cuts c folder r folder
  | accepted {s : JournalSnapshot} {g : Folder File} : Effect cuts (.create s) (some g) (some (.ok ())) (some g)
  | created {s : JournalSnapshot} {body : Bytes} {r : Outcome Error Unit}
      (valid : validateSessionID s.sessionID = .ok ()) (written : marshal s = some body) :
      Effect cuts (.create s) none r (some (newFolder body))
  | appended {i : IntentRecord} {g : Folder File} {log line : Bytes} {kept : Nat}
      {r : Outcome Error Unit} (valid : validateIntent i = .ok ()) (before : g .journal = some log)
      (written : (Entry.intent i).line = some line)
      (cut : Cut cuts i.sessionID line kept) (whole : r = some (.ok ()) → line.length ≤ kept) :
      Effect cuts (.recordIntent i) (some g) r
        (some (update g .journal (some (log ++ line.take kept))))
  | bound {id : Bytes} {b : ExecutionBinding} {g : Folder File} {s : JournalSnapshot}
      {pending : List IntentRecord} (read : readSession id (some g) = .ok (s, pending))
      (same : s.executionBinding = some b) :
      Effect cuts (.bindExecution id b) (some g) (some (.ok ())) (some g)
  | bind {id : Bytes} {b : ExecutionBinding} {g g' : Folder File} {s : JournalSnapshot}
      {pending : List IntentRecord} {r : Outcome Error Unit}
      (read : readSession id (some g) = .ok (s, pending)) (unbound : s.executionBinding = none)
      (empty : g .journal = some []) (valid : b.validate = .ok ())
      (write : SnapshotWrite g (s.withBinding b) g')
      (done : r = some (.ok ()) → ∃ body, marshal (s.withBinding b) = some body ∧
        g' .snapshot = some body) :
      Effect cuts (.bindExecution id b) (some g) r (some g')
  /-- The fact did not reach the log whole, or nothing came after it. -/
  | factTorn {f : FactRecord} {s current reduced : JournalSnapshot} {pending : List IntentRecord}
      {g : Folder File} {log line : Bytes} {kept : Nat} {r : Outcome Error Unit}
      (valid : validateFact f s.sessionID = .ok ())
      (read : readSession f.sessionID (some g) = .ok (current, pending))
      (reduce : factSnapshot current f s = .ok reduced) (before : g .journal = some log)
      (written : (Entry.fact f reduced).line = some line)
      (cut : Cut cuts f.sessionID line kept) (failed : r ≠ some (.ok ())) :
      Effect cuts (.recordFact f s) (some g) r
        (some (update g .journal (some (log ++ line.take kept))))
  | fact {f : FactRecord} {s current reduced : JournalSnapshot} {pending : List IntentRecord}
      {g g' : Folder File} {log line : Bytes} {r : Outcome Error Unit}
      (valid : validateFact f s.sessionID = .ok ())
      (read : readSession f.sessionID (some g) = .ok (current, pending))
      (reduce : factSnapshot current f s = .ok reduced) (before : g .journal = some log)
      (written : (Entry.fact f reduced).line = some line)
      (write : SnapshotWrite (update g .journal (some (log ++ line))) reduced g')
      (done : r = some (.ok ()) → ∃ body, marshal reduced = some body ∧ g' .snapshot = some body) :
      Effect cuts (.recordFact f s) (some g) r (some g')

/-- The call changes the directory of its session only. -/
def EffectOn (cuts : Op Bytes File Probe → Nat → Prop) (c : Call) (d : Disk) (r : Outcome Error Unit) (d' : Disk) :
    Prop :=
  Effect cuts c (d.folder (sessionDirectory c.sessionID)) r (d'.folder (sessionDirectory c.sessionID)) ∧
    ∀ id, id ≠ c.sessionID → d'.folder (sessionDirectory id) = d.folder (sessionDirectory id)

theorem EffectOn.local {folder' : Option (Folder File)} (hFolder : d.folder (sessionDirectory c.sessionID) = folder)
    (h : Effect cuts c folder r folder') : EffectOn cuts c d r (d.set (sessionDirectory c.sessionID) folder') := by
  refine ⟨by rwa [hFolder, folder_set_self], fun id hID => folder_set_ne _ _ ?_ _⟩
  intro hEq
  exact hID (Place.named.inj hEq)

theorem EffectOn.same (hFolder : d.folder (sessionDirectory c.sessionID) = folder) (h : Effect cuts c folder r folder) :
    EffectOn cuts c d r d := ⟨by rwa [hFolder], fun _ _ => rfl⟩

theorem mayBreak_effectOn (c : Call) (d : Disk) : MayBreak (EffectOn cuts c d) d :=
  ⟨⟨.nothing nofun, fun _ _ => rfl⟩, fun _ => ⟨.nothing nofun, fun _ _ => rfl⟩⟩

theorem file_eq_some {f : File} {content : Bytes} (h : d.file dir f = some content) :
    ∃ g, d.folder dir = some g ∧ g f = some content := Option.bind_eq_some_iff.mp h

theorem recordIntent_ends (i : IntentRecord) (d : Disk) :
    storeMachine.Ends (within cuts) (recordIntent i) (EffectOn cuts (.recordIntent i) d) d := by
  have hBreak : MayBreak (EffectOn cuts (.recordIntent i) d) d := mayBreak_effectOn _ d
  refine Ends.bind (Files.Ends.attempt hBreak ?_)
  refine Ends.bind ((ends_lift ..).mpr ?_)
  cases hValid : validateIntent i with
  | error e => exact hBreak.2 e
  | ok _ =>
    refine Ends.bind (Files.Ends.openFile hBreak fun log hLog => ?_)
    refine Ends.bind (Files.Ends.attempt hBreak ?_)
    obtain ⟨g, hg, hgLog⟩ := file_eq_some hLog
    have effect (r : Outcome Error Unit) {line : Bytes} (kept : Nat)
        (hLine : (Entry.intent i).line = some line) (hCut : Cut cuts i.sessionID line kept)
        (hWhole : r = some (.ok ()) → line.length ≤ kept) :
        EffectOn cuts (.recordIntent i) d r (d.set (sessionDirectory i.sessionID)
          (some (update g .journal (some (log ++ line.take kept))))) :=
      EffectOn.local hg (.appended hValid hgLog hLine hCut hWhole)
    refine Ends.append hg hgLog hBreak (fun line kept hLine hCut => ?_) fun line hLine => ?_
    · exact ⟨effect none kept hLine hCut nofun, fun e => effect (some (.error e)) kept hLine hCut nofun⟩
    · have h := effect (some (.ok ())) line.length hLine (Or.inl le_rfl) fun _ => le_rfl
      rwa [List.take_length] at h

theorem bindExecution_ends (id : Bytes) (b : ExecutionBinding) (d : Disk) :
    storeMachine.Ends (within cuts) (bindExecution id b) (EffectOn cuts (.bindExecution id b) d) d := by
  have hBreak : MayBreak (EffectOn cuts (.bindExecution id b) d) d := mayBreak_effectOn _ d
  refine Ends.bind (Files.Ends.attempt hBreak ?_)
  refine Ends.bind ((ends_lift ..).mpr ?_)
  cases validateSessionID id with
  | error e => exact hBreak.2 e
  | ok _ =>
    refine Ends.bind ((ends_lift ..).mpr ?_)
    cases hValid : b.validate with
    | error e => exact hBreak.2 e
    | ok _ =>
      refine Ends.bind (Files.Ends.openFile hBreak fun log hLog => ?_)
      refine Ends.bind (Files.Ends.attempt hBreak ?_)
      refine Ends.bind (Ends.load hBreak fun v hRead => ?_)
      obtain ⟨g, hg, hgLog⟩ := file_eq_some hLog
      obtain ⟨s, pending⟩ := v
      rw [hg] at hRead
      rw [after_ok]
      dsimp only
      cases hBound : s.executionBinding with
      | some bound =>
        by_cases hSame : bound ≠ b
        · simp only [if_pos hSame]
          exact hBreak.2 _
        · rw [not_not] at hSame
          subst hSame
          simp only [ne_eq, not_true_eq_false, if_false]
          exact EffectOn.same hg (.bound hRead hBound)
      | none =>
        refine Ends.bind (Files.Ends.size hBreak fun content hContent => ?_)
        cases hLog.symm.trans hContent
        by_cases hEmpty : log.length ≠ 0
        · rw [after_ok, if_pos hEmpty]
          exact hBreak.2 _
        · rw [after_ok, if_neg hEmpty]
          have hNil : g .journal = some [] := by
            rw [hgLog, List.length_eq_zero_iff.mp (not_not.mp hEmpty)]
          refine Ends.writeSnapshot hg (fun g' hWrite => ?_) fun body hBody hAbsent => ?_
          · exact ⟨EffectOn.local hg (.bind hRead hBound hNil hValid hWrite fun hEq => by cases hEq),
              fun _ => EffectOn.local hg (.bind hRead hBound hNil hValid hWrite fun hEq => by cases hEq)⟩
          · exact EffectOn.local hg (.bind hRead hBound hNil hValid (.replaced body hBody hAbsent)
              fun _ => ⟨body, hBody, by simp⟩)

theorem recordFact_ends (f : FactRecord) (s : JournalSnapshot) (d : Disk) :
    storeMachine.Ends (within cuts) (recordFact f s) (EffectOn cuts (.recordFact f s) d) d := by
  have hBreak : MayBreak (EffectOn cuts (.recordFact f s) d) d := mayBreak_effectOn _ d
  refine Ends.bind (Files.Ends.attempt hBreak ?_)
  refine Ends.bind ((ends_lift ..).mpr ?_)
  cases hValid : validateFact f s.sessionID with
  | error e => exact hBreak.2 e
  | ok _ =>
    refine Ends.bind (Files.Ends.openFile hBreak fun log hLog => ?_)
    refine Ends.bind (Files.Ends.attempt hBreak ?_)
    refine Ends.bind (Ends.load hBreak fun v hRead => ?_)
    obtain ⟨g, hg, hgLog⟩ := file_eq_some hLog
    obtain ⟨current, pending⟩ := v
    rw [hg] at hRead
    refine Ends.bind ((ends_lift ..).mpr ?_)
    cases hReduce : factSnapshot current f s with
    | error e => exact hBreak.2 e
    | ok reduced =>
      refine Ends.bind (Ends.append hg hgLog hBreak (fun line kept hLine hCut => ?_) fun line hLine => ?_)
      · exact ⟨EffectOn.local hg (.factTorn hValid hRead hReduce hgLog hLine hCut nofun),
          fun _ => EffectOn.local hg (.factTorn hValid hRead hReduce hgLog hLine hCut nofun)⟩
      · refine Ends.writeSnapshot (folder_set_self _ _ _) (fun g' hWrite => ?_) fun body hBody hAbsent => ?_
        · rw [set_set]
          exact ⟨EffectOn.local hg (.fact hValid hRead hReduce hgLog hLine hWrite nofun),
            fun _ => EffectOn.local hg (.fact hValid hRead hReduce hgLog hLine hWrite nofun)⟩
        · rw [set_set]
          exact EffectOn.local hg (.fact hValid hRead hReduce hgLog hLine (.replaced body hBody hAbsent)
            fun _ => ⟨body, hBody, by simp⟩)

theorem Ends.acceptExistingInitialSession (hBreak : MayBreak post d) (hDone : post (some (.ok ())) d) :
    storeMachine.Ends (within cuts) (acceptExistingInitialSession s) post d := by
  refine Ends.bind (Ends.catching (Files.Ends.size ⟨hBreak.1, fun _ => hBreak.2 _⟩ ?_))
  intro log _
  cases log with
  | cons b log => exact hBreak.2 _
  | nil =>
    refine Ends.bind (Ends.catching (Ends.load ⟨hBreak.1, fun _ => hBreak.2 _⟩ ?_))
    rintro ⟨actual, pending⟩ _
    cases pending with
    | cons i pending => exact hBreak.2 _
    | nil =>
      show storeMachine.Ends (within cuts) _ _ _
      dsimp only
      cases marshal s with
      | none => exact hBreak.2 _
      | some want =>
        cases marshal actual with
        | none => exact hBreak.2 _
        | some body =>
          show storeMachine.Ends (within cuts) (if want ≠ body then _ else _) _ _
          split_ifs
          · exact hBreak.2 _
          · exact hDone

def SameSessions (d d' : Disk) : Prop :=
  ∀ id, d'.folder (sessionDirectory id) = d.folder (sessionDirectory id)

theorem sameSessions_temp (n : Nat) (content : Option (Folder File)) (h : SameSessions d d') :
    SameSessions d (d'.set (.temp n) content) := by
  intro id
  have hNe : sessionDirectory id ≠ .temp n := nofun
  exact (folder_set_ne d' _ hNe content).trans (h id)

theorem EffectOn.congr {d₀ d₁ : Disk} (h : EffectOn cuts c d₀ r d') (hBefore : SameSessions d d₀)
    (hAfter : SameSessions d' d₁) : EffectOn cuts c d r d₁ := by
  refine ⟨?_, fun id hID => ?_⟩
  · rw [hAfter, ← hBefore]
    exact h.1
  · rw [hAfter, ← hBefore]
    exact h.2 id hID

theorem SameSessions.mayBreak (h : SameSessions d d') : MayBreak (EffectOn cuts c d) d' := by
  refine ⟨⟨?_, fun id _ => h id⟩, fun e => ⟨?_, fun id _ => h id⟩⟩ <;> rw [h]
  · exact .nothing nofun
  · exact .nothing nofun

/-- The log of a new session, before its snapshot is written. -/
def newLog : Folder File := update (fun _ => none) .journal (some [])

theorem Ends.stageJournal (hFolder : d.folder dir = some fun _ => none) (hBreak : MayBreak post d)
    (hStaged : MayBreak post (d.set dir (some newLog))) (hDone : post (some (.ok ())) (d.set dir (some newLog))) :
    storeMachine.Ends (within cuts) (stageJournal dir) post d := by
  have hSet : d.setFile dir .journal (some []) = d.set dir (some newLog) := by
    rw [← set_folder d dir, hFolder, setFile_set_self, set_set]
    rfl
  refine Ends.bind (Files.Ends.attempt hBreak ?_)
  refine Ends.bind (Files.Ends.attempt hBreak ?_)
  refine Ends.bind (Files.Ends.create hBreak fun _ _ _ => ?_)
  rw [hSet]
  refine Ends.bind (Files.Ends.attempt hStaged ?_)
  refine Ends.bind (Files.Ends.attempt hStaged ?_)
  exact Files.Ends.attempt hStaged hDone

theorem Ends.commitStaged {n : Nat} (hAbsent : d.folder (sessionDirectory s.sessionID) = none)
    (hBreak : MayBreak post d) (hDropped : MayBreak post (d.set (.temp n) none))
    (hDone : ∀ folder r, d.folder (.temp n) = some folder →
      post r ((d.set (sessionDirectory s.sessionID) (some folder)).set (.temp n) none)) :
    storeMachine.Ends (within cuts) (commitStaged (.temp n) s) post d := by
  have dropping (accepted : Except Error Unit) (h : accepted ≠ .ok ()) :
      storeMachine.Ends (within cuts) (do
        let _ ← catching (sys plainly (.removeAll (.temp n)))
        liftM accepted) post d := by
    cases accepted with
    | ok _ => exact absurd rfl h
    | error e =>
      exact Ends.bind (Ends.catching
        (Files.Ends.removeAll ⟨hBreak.1, fun _ => hBreak.2 e⟩ (hDropped.2 e)))
  refine Ends.bind (Ends.catching (Files.Ends.renameAll ⟨hBreak.1, fun e => ?_⟩ ?_))
  · refine Ends.bind (Ends.catching (Ends.bind (Ends.catching (Files.Ends.exists ?_ ?_))))
    · exact ⟨hBreak.1, fun _ => dropping _ nofun⟩
    · rw [hAbsent]
      exact dropping _ nofun
  · intro folder hFolder _
    have hAll r := hDone folder r hFolder
    have hMoved : MayBreak post ((d.set (sessionDirectory s.sessionID) (some folder)).set (.temp n) none) :=
      ⟨hAll none, fun e => hAll _⟩
    refine Ends.bind (Files.Ends.attempt hMoved ?_)
    refine Ends.bind (Files.Ends.attempt hMoved ?_)
    exact Files.Ends.attempt hMoved (hAll _)

theorem newFolder_eq (body : Bytes) :
    update (update newLog .snapshot (some body)) .snapshotPartial none =
      newFolder body := by
  funext f
  cases f <;> rfl

theorem create_ends (s : JournalSnapshot) (d : Disk) :
    storeMachine.Ends (within cuts) (create s) (EffectOn cuts (.create s) d) d := by
  have hBreak : MayBreak (EffectOn cuts (.create s) d) d := mayBreak_effectOn _ d
  refine Ends.bind (Files.Ends.attempt hBreak ?_)
  refine Ends.bind ((ends_lift ..).mpr ?_)
  cases hValid : validateSessionID s.sessionID with
  | error e => exact hBreak.2 e
  | ok _ =>
    refine Ends.bind (Ends.catching (Files.Ends.exists ⟨hBreak.1, fun _ => hBreak.2 _⟩ ?_))
    cases hAbsent : d.folder (sessionDirectory s.sessionID) with
    | some g => exact Ends.acceptExistingInitialSession hBreak (EffectOn.same hAbsent .accepted)
    | none =>
      refine Ends.bind (Files.Ends.makeTemp hBreak ?_)
      generalize hStart : ({ d.set (.temp d.temps) (some fun _ => none) with temps := d.temps + 1 } : Disk) = d₁
      have hSame : SameSessions d d₁ := by
        rw [← hStart]
        exact sameSessions_temp d.temps (some fun _ => none) fun _ => rfl
      have hStaging : d₁.folder (.temp d.temps) = some fun _ => none := by
        rw [← hStart]
        exact folder_set_self _ _ _
      -- until the rename only the staged directory changes
      have hStaged (content : Option (Folder File)) :
          MayBreak (EffectOn cuts (.create s) d) (d₁.set (.temp d.temps) content) :=
        (sameSessions_temp _ _ hSame).mayBreak
      refine Ends.bind (Ends.cleaning (fun _ _ => rfl) (Ends.stageJournal hStaging ?_ ?_ ?_))
      · exact ⟨hSame.mayBreak.1, fun _ => ⟨hSame.mayBreak, hStaged none⟩⟩
      · refine ⟨(hStaged _).1, fun _ => ⟨hStaged _, ?_⟩⟩
        simp only [perform, set_set]
        exact hStaged none
      · refine Ends.bind (Files.Ends.attempt (hStaged _) ?_)
        refine Ends.bind (Ends.cleaning (fun _ _ => rfl)
          (Ends.writeSnapshot (folder_set_self _ _ _) (fun g' _ => ?_) fun body hBody _ => ?_))
        · rw [set_set]
          refine ⟨(hStaged _).1, fun _ => ⟨hStaged _, ?_⟩⟩
          simp only [perform, set_set]
          exact hStaged none
        · rw [set_set, newFolder_eq]
          refine Ends.bind (Files.Ends.attempt (hStaged _) ?_)
          refine Ends.commitStaged ?_ (hStaged _) ?_ ?_
          · rw [sameSessions_temp _ _ hSame, hAbsent]
          · rw [set_set]
            exact hStaged none
          · intro folder r hFolder
            rw [folder_set_self] at hFolder
            cases hFolder
            let staged : Disk := d₁.set (.temp d.temps) (some (newFolder body))
            have hMoved : EffectOn cuts (.create s) staged r
                (staged.set (sessionDirectory s.sessionID) (some (newFolder body))) :=
              EffectOn.local ((sameSessions_temp _ _ hSame _).trans hAbsent) (.created hValid hBody)
            exact hMoved.congr (sameSessions_temp _ _ hSame) (sameSessions_temp _ _ fun _ => rfl)

theorem Call.ends (c : Call) (d : Disk) :
    storeMachine.Ends (within cuts) c.program (EffectOn cuts c d) d := by
  cases c with
  | create s => exact create_ends s d
  | recordIntent i => exact recordIntent_ends i d
  | bindExecution id b => exact bindExecution_ends id b d
  | recordFact f s => exact recordFact_ends f s d

theorem Call.run_effect {faults : List Fault} (hFaults : storeMachine.Respects (within cuts) c.program.run faults d) :
    EffectOn cuts c d (c.run faults d).1 (c.run faults d).2 := (c.ends d).run hFaults

theorem Call.run_effect_any (c : Call) (faults : List Fault) (d : Disk) :
    EffectOn (fun _ _ => True) c d (c.run faults d).1 (c.run faults d).2 :=
  run_effect (respects_all (fun _ fault _ => by cases fault <;> trivial) _ _)

end Camp.Journal
