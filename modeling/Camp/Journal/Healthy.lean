import Camp.Journal.StoreSpec

/-!
# Calls in which nothing goes wrong

What each call answers and leaves behind when every operation succeeds.
-/

namespace Camp.Journal

open Wire Wire.Utf8 Program Program.Files Program.Machine Function

variable {d : Disk} {dir : Directory} {g : Folder File} {id log line body : Bytes}
variable {α : Type} {a : α} {p : Store α} {d' : Disk} {replace : Bool} {s : JournalSnapshot}
  {pending : List IntentRecord} {b : ExecutionBinding}
variable {f : FactRecord} {current reduced : JournalSnapshot} {P : Fault → Prop}

theorem file_of_folder {f : File} {content : Bytes} (hFolder : d.folder dir = some g)
    (h : g f = some content) : d.file dir f = some content := by
  rw [Tree.file, hFolder]
  exact h

theorem calmly_contextErr : storeMachine.calmly contextErr d = (some (.ok ()), d) := calmly_attempt _

theorem calmly_lift_ok {x : Except Error α} (h : x = .ok a) :
    storeMachine.calmly (liftM x : Store α) d = (some (.ok a), d) := by
  rw [calmly_lift, h]

theorem calmly_catching_ok (h : storeMachine.calmly p d = (some (.ok a), d')) :
    storeMachine.calmly (catching p) d = (some (.ok (.ok a)), d') := by
  rw [calmly_catching, h]
  rfl

theorem calmly_catching_error {e : Error} (h : storeMachine.calmly p d = (some (.error e), d')) :
    storeMachine.calmly (catching p) d = (some (.ok (.error e)), d') := by
  rw [calmly_catching, h]
  rfl

theorem calmly_cleaning_ok {cleanup : Op Bytes File Probe} (h : storeMachine.calmly p d = (some (.ok a), d')) :
    storeMachine.calmly (cleaning cleanup p) d = (some (.ok a), d') := by
  rw [cleaning, calmly_bind_ok (calmly_catching_ok h)]
  rfl

theorem calmly_append {e : Entry} (hFolder : d.folder (sessionDirectory id) = some g)
    (hLog : g .journal = some log) (hLine : e.line = some line) :
    storeMachine.calmly (append id e) d = (some (.ok ()),
      d.set (sessionDirectory id) (some (update g .journal (some (log ++ line))))) := by
  obtain ⟨body, hBody, rfl⟩ := Option.map_eq_some_iff.mp hLine
  rw [append, calmly_bind_ok (calmly_openFile (file_of_folder hFolder hLog)), hBody]
  have hWritten : storeMachine.calmly (do
        sys plainly (.write (sessionDirectory id) .journal (body ++ [10]))
        sys plainly (.attempt .sync)) d = (some (.ok ()),
      d.set (sessionDirectory id) (some (update g .journal (some (log ++ (body ++ [10])))))) := by
    rw [calmly_bind_ok (calmly_write hFolder hLog), calmly_attempt]
  rw [calmly_bind_ok (calmly_catching_ok hWritten), closeLog,
    calmly_bind_ok (calmly_catching_ok (calmly_attempt _))]
  rfl

theorem calmly_commitSnapshot (hReplace : replace = true ∨ g .snapshot = none) :
    storeMachine.calmly (commitSnapshot dir body replace)
        (d.set dir (some (update g .snapshotPartial (some [])))) =
      (some (.ok ()), d.set dir (some
        (update (update g .snapshot (some body)) .snapshotPartial none))) := by
  have hRename : storeMachine.calmly
      (sys (explaining "commit journal snapshot: %w" []) (.rename dir .snapshotPartial .snapshot))
      (d.set dir (some (update g .snapshotPartial (some body)))) =
      (some (.ok ()), d.set dir (some
        (update (update g .snapshot (some body)) .snapshotPartial none))) := by
    rw [calmly_rename (Tree.folder_set_self _ _ _) (update_self ..), Tree.set_set, update_commit]
  rw [commitSnapshot, calmly_bind_ok (calmly_write (Tree.folder_set_self _ _ _) (update_self ..)),
    Tree.set_set, update_idem, List.nil_append, calmly_bind_ok (calmly_attempt _),
    calmly_bind_ok (calmly_attempt _), calmly_bind_ok (calmly_attempt _)]
  cases replace with
  | true => exact hRename
  | false =>
    have hAbsent : (d.set dir (some (update g .snapshotPartial (some body)))).file dir .snapshot =
        none := by
      rw [Tree.file_set_self]
      simpa using hReplace
    show storeMachine.calmly (catching (sys plainly (.size dir .snapshot)) >>= _) _ = _
    rw [calmly_bind_ok (calmly_catching_error (calmly_size_absent hAbsent))]
    exact hRename

theorem calmly_writeSnapshot (hFolder : d.folder dir = some g) (hBody : marshal s = some body)
    (hPartial : g .snapshotPartial = none) (hReplace : replace = true ∨ g .snapshot = none) :
    storeMachine.calmly (writeSnapshot dir s replace) d = (some (.ok ()), d.set dir (some
      (update (update g .snapshot (some body)) .snapshotPartial none))) := by
  unfold writeSnapshot
  rw [hBody]
  show storeMachine.calmly (do
    sys (explaining "create snapshot partial: %w" []) (.create dir .snapshotPartial)
    cleaning (.remove dir .snapshotPartial) (commitSnapshot dir body replace)
    sys (explaining "secure journal snapshot: %w" []) (.attempt .chmod)
    syncDirectory) d = _
  rw [calmly_bind_ok (calmly_create hFolder hPartial),
    calmly_bind_ok (calmly_cleaning_ok (calmly_commitSnapshot hReplace)),
    calmly_bind_ok (calmly_attempt _), syncDirectory, calmly_attempt]

theorem calmly_writeSnapshot_refused (hFolder : d.folder dir = some g)
    (h : marshal s = none ∨ (g .snapshotPartial).isSome) :
    ∃ e, storeMachine.calmly (writeSnapshot dir s replace) d = (some (.error e), d) := by
  unfold writeSnapshot
  cases hBody : marshal s with
  | none => exact ⟨_, rfl⟩
  | some body =>
    obtain ⟨content, hPartial⟩ := Option.isSome_iff_exists.mp (h.resolve_left (by simp [hBody]))
    exact ⟨_, calmly_bind_error (calmly_create_exists hFolder hPartial) _⟩

theorem calmly_recordIntent {i : IntentRecord} (hValid : validateIntent i = .ok ())
    (hFolder : d.folder (sessionDirectory i.sessionID) = some g) (hLog : g .journal = some log)
    (hLine : (Entry.intent i).line = some line) :
    storeMachine.calmly (recordIntent i) d = (some (.ok ()), d.set (sessionDirectory i.sessionID)
      (some (update g .journal (some (log ++ line))))) := by
  rw [recordIntent, calmly_bind_ok calmly_contextErr, calmly_bind_ok (calmly_lift_ok hValid),
    calmly_bind_ok (calmly_openFile (file_of_folder hFolder hLog)), calmly_bind_ok (calmly_attempt _),
    calmly_append hFolder hLog hLine]

theorem calmly_load_ok (hFolder : d.folder (sessionDirectory id) = some g)
    (hRead : readSession id (some g) = .ok (s, pending)) :
    storeMachine.calmly (load id) d = (some (.ok (s, pending)), d) := by
  rw [calmly_load, hFolder, hRead]

theorem calmly_bindExecution (hValid : b.validate = .ok ()) (hFolder : d.folder (sessionDirectory id) = some g)
    (hLog : g .journal = some []) (hRead : readSession id (some g) = .ok (s, pending))
    (hUnbound : s.executionBinding = none) (hBody : marshal (s.withBinding b) = some body)
    (hPartial : g .snapshotPartial = none) :
    storeMachine.calmly (bindExecution id b) d = (some (.ok ()), d.set (sessionDirectory id) (some
      (update (update g .snapshot (some body)) .snapshotPartial none))) := by
  have hID := (readSession_eq_ok.mp hRead).1
  have hFile := file_of_folder hFolder hLog
  rw [bindExecution, calmly_bind_ok calmly_contextErr, calmly_bind_ok (calmly_lift_ok hID),
    calmly_bind_ok (calmly_lift_ok hValid), calmly_bind_ok (calmly_openFile hFile),
    calmly_bind_ok (calmly_attempt _), calmly_bind_ok (calmly_load_ok hFolder hRead)]
  simp only [hUnbound]
  rw [calmly_bind_ok (calmly_size hFile)]
  exact calmly_writeSnapshot hFolder hBody hPartial (Or.inl rfl)

theorem calmly_bindExecution_same (hValid : b.validate = .ok ()) (hFolder : d.folder (sessionDirectory id) = some g)
    (hLog : g .journal = some log) (hRead : readSession id (some g) = .ok (s, pending))
    (hSame : s.executionBinding = some b) : storeMachine.calmly (bindExecution id b) d = (some (.ok ()), d) := by
  have hID := (readSession_eq_ok.mp hRead).1
  rw [bindExecution, calmly_bind_ok calmly_contextErr, calmly_bind_ok (calmly_lift_ok hID),
    calmly_bind_ok (calmly_lift_ok hValid), calmly_bind_ok (calmly_openFile (file_of_folder hFolder hLog)),
    calmly_bind_ok (calmly_attempt _), calmly_bind_ok (calmly_load_ok hFolder hRead)]
  simp only [hSame, ne_eq, not_true_eq_false, if_false, calmly_pure]

theorem calmly_bindExecution_refused (hValid : b.validate = .ok ())
    (hFolder : d.folder (sessionDirectory id) = some g) (hLog : g .journal = some [])
    (hRead : readSession id (some g) = .ok (s, pending)) (hUnbound : s.executionBinding = none)
    (hTemp : (g .snapshotPartial).isSome) : ∃ e, storeMachine.calmly (bindExecution id b) d = (some (.error e), d) := by
  have hID := (readSession_eq_ok.mp hRead).1
  have hFile := file_of_folder hFolder hLog
  rw [bindExecution, calmly_bind_ok calmly_contextErr, calmly_bind_ok (calmly_lift_ok hID),
    calmly_bind_ok (calmly_lift_ok hValid), calmly_bind_ok (calmly_openFile hFile),
    calmly_bind_ok (calmly_attempt _), calmly_bind_ok (calmly_load_ok hFolder hRead)]
  simp only [hUnbound]
  rw [calmly_bind_ok (calmly_size hFile)]
  exact calmly_writeSnapshot_refused hFolder (Or.inr hTemp)

theorem calmly_recordFact (hValid : validateFact f s.sessionID = .ok ())
    (hFolder : d.folder (sessionDirectory f.sessionID) = some g) (hLog : g .journal = some log)
    (hRead : readSession f.sessionID (some g) = .ok (current, pending))
    (hReduce : factSnapshot current f s = .ok reduced) (hLine : (Entry.fact f reduced).line = some line) :
    storeMachine.calmly (recordFact f s) d =
      storeMachine.calmly (writeSnapshot (sessionDirectory f.sessionID) reduced true)
        (d.set (sessionDirectory f.sessionID) (some (update g .journal (some (log ++ line))))) := by
  rw [recordFact, calmly_bind_ok calmly_contextErr, calmly_bind_ok (calmly_lift_ok hValid),
    calmly_bind_ok (calmly_openFile (file_of_folder hFolder hLog)), calmly_bind_ok (calmly_attempt _),
    calmly_bind_ok (calmly_load_ok hFolder hRead), calmly_bind_ok (calmly_lift_ok hReduce),
    calmly_bind_ok (calmly_append hFolder hLog hLine)]

/-- The fact is in the log, and the snapshot's temporary file is not created. -/
theorem mayEnd_recordFact {fault : Fault} {r : Outcome Error Unit} (hValid : validateFact f s.sessionID = .ok ())
    (hFolder : d.folder (sessionDirectory f.sessionID) = some g) (hLog : g .journal = some log)
    (hRead : readSession f.sessionID (some g) = .ok (current, pending))
    (hReduce : factSnapshot current f s = .ok reduced) (hLine : (Entry.fact f reduced).line = some line)
    (hBody : marshal reduced = some body) (hNone : P .none) (hFault : P fault)
    (hEnd : fault = .fail 0 ∧ r = some (.error (explaining "create snapshot partial: %w" [] .failed)) ∨
      fault = .crash 0 ∧ r = none) :
    storeMachine.MayEnd P (recordFact f s) d r
      (d.set (sessionDirectory f.sessionID) (some (update g .journal (some (log ++ line))))) := by
  refine MayEnd.bind calmly_contextErr hNone (MayEnd.bind (calmly_lift_ok hValid) hNone ?_)
  refine MayEnd.bind (calmly_openFile (file_of_folder hFolder hLog)) hNone ?_
  refine MayEnd.bind (calmly_attempt _) hNone (MayEnd.bind (calmly_load_ok hFolder hRead) hNone ?_)
  refine MayEnd.bind (calmly_lift_ok hReduce) hNone ?_
  refine MayEnd.bind (calmly_append hFolder hLog hLine) hNone ?_
  refine ⟨[fault], fun _ hMem => List.mem_singleton.mp hMem ▸ hFault, ?_⟩
  unfold writeSnapshot
  rw [hBody]
  rcases hEnd with ⟨rfl, rfl⟩ | ⟨rfl, rfl⟩ <;> rfl

theorem mayEnd_bindExecution_crash (hValid : b.validate = .ok ()) (hFolder : d.folder (sessionDirectory id) = some g)
    (hLog : g .journal = some []) (hRead : readSession id (some g) = .ok (s, pending))
    (hUnbound : s.executionBinding = none) (hBody : marshal (s.withBinding b) = some body)
    (hPartial : g .snapshotPartial = none) (hNone : P .none) (hCrash : P (.crash 0)) :
    storeMachine.MayEnd P (bindExecution id b) d none (d.set (sessionDirectory id)
      (some (update g .snapshotPartial (some [])))) := by
  have hID := (readSession_eq_ok.mp hRead).1
  have hFile := file_of_folder hFolder hLog
  refine MayEnd.bind calmly_contextErr hNone (MayEnd.bind (calmly_lift_ok hID) hNone ?_)
  refine MayEnd.bind (calmly_lift_ok hValid) hNone (MayEnd.bind (calmly_openFile hFile) hNone ?_)
  refine MayEnd.bind (calmly_attempt _) hNone (MayEnd.bind (calmly_load_ok hFolder hRead) hNone ?_)
  simp only [hUnbound]
  refine MayEnd.bind (calmly_size hFile) hNone ?_
  show storeMachine.MayEnd P (writeSnapshot (sessionDirectory id) (s.withBinding b) true) d _ _
  unfold writeSnapshot
  rw [hBody]
  refine MayEnd.bind (calmly_create hFolder hPartial) hNone ?_
  refine ⟨[.crash 0], fun _ hMem => List.mem_singleton.mp hMem ▸ hCrash, ?_⟩
  let created : Disk := d.set (sessionDirectory id) (some (update g .snapshotPartial (some [])))
  have hTorn : created.torn 0 (.write (sessionDirectory id) .snapshotPartial body : Op Bytes File Probe) =
      created := by
    simp [created, Tree.torn]
  exact congrArg (Prod.mk none) hTorn

theorem calmly_stageJournal (hFolder : d.folder dir = some fun _ => none) :
    storeMachine.calmly (stageJournal dir) d = (some (.ok ()), d.set dir (some newLog)) := by
  rw [stageJournal, calmly_bind_ok (calmly_attempt _), calmly_bind_ok (calmly_attempt _),
    calmly_bind_ok (calmly_create hFolder rfl), calmly_bind_ok (calmly_attempt _),
    calmly_bind_ok (calmly_attempt _), calmly_attempt]
  rfl

theorem calmly_commitStaged {n : Nat} (hStaged : d.folder (.temp n) = some g)
    (hAbsent : d.folder (sessionDirectory s.sessionID) = none) :
    storeMachine.calmly (commitStaged (.temp n) s) d =
      (some (.ok ()), (d.set (sessionDirectory s.sessionID) (some g)).set (.temp n) none) := by
  rw [commitStaged, calmly_bind_ok (calmly_catching_ok (calmly_renameAll hStaged hAbsent)),
    calmly_bind_ok (calmly_attempt _), calmly_bind_ok (calmly_attempt _), calmly_attempt]

theorem folder_set_temp (d : Disk) (n : Nat) (content : Option (Folder File)) (id : Bytes) :
    (d.set (.temp n) content).folder (sessionDirectory id) = d.folder (sessionDirectory id) :=
  sameSessions_temp n content (fun _ => rfl) id

theorem calmly_create_new (hValid : validateSessionID s.sessionID = .ok ())
    (hAbsent : d.folder (sessionDirectory s.sessionID) = none) (hBody : marshal s = some body) :
    ∃ d', storeMachine.calmly (create s) d = (some (.ok ()), d') ∧
      d'.folder (sessionDirectory s.sessionID) = some (newFolder body) := by
  have hExists : storeMachine.calmly (catching (sys plainly (.exists (sessionDirectory s.sessionID)))) d =
      (some (.ok (.ok false)), d) := by
    rw [calmly_catching_ok calmly_exists, hAbsent]
    rfl
  rw [create, calmly_bind_ok calmly_contextErr, calmly_bind_ok (calmly_lift_ok hValid),
    calmly_bind_ok hExists]
  simp only
  rw [calmly_bind_ok calmly_makeTemp]
  generalize hStart : ({ d.set (.temp d.temps) (some fun _ => none) with temps := d.temps + 1 } : Disk) = d₁
  have hStaging : d₁.folder (.temp d.temps) = some fun _ => none := by
    rw [← hStart]
    exact Tree.folder_set_self _ _ _
  have hStill : d₁.folder (sessionDirectory s.sessionID) = none := by
    rw [← hStart]
    exact (folder_set_temp d d.temps (some fun _ => none) s.sessionID).trans hAbsent
  rw [calmly_bind_ok (calmly_cleaning_ok (calmly_stageJournal hStaging)), calmly_bind_ok (calmly_attempt _),
    calmly_bind_ok (calmly_cleaning_ok
      (calmly_writeSnapshot (Tree.folder_set_self _ _ _) hBody rfl (Or.inr rfl))),
    Tree.set_set, newFolder_eq, calmly_bind_ok (calmly_attempt _),
    calmly_commitStaged (Tree.folder_set_self _ _ _) ((folder_set_temp ..).trans hStill)]
  refine ⟨_, rfl, ?_⟩
  rw [folder_set_temp, Tree.folder_set_self]

end Camp.Journal
