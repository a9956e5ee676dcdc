import Camp.Program.Files
import Camp.Journal.Replay

/-!
# The journal store

Each session has a directory with its log and its snapshot. A call locks the
log, so calls on one session follow one another. The log is written first and
the snapshot is replaced after it, through a file that is renamed.
-/

namespace Camp.Journal

open Wire Wire.Utf8 Program Program.Files

inductive File where
  | journal
  | snapshot
  | snapshotPartial
  deriving DecidableEq

inductive CreateStep where
  | afterJournalSync
  | afterSnapshotSync
  | afterCommitSync
  deriving DecidableEq

inductive Probe where
  | contextErr
  | flock
  | chmod
  | sync
  | close
  | syncDirectory
  | createStepHook (step : CreateStep)
  | beforeSnapshotRename
  deriving DecidableEq

abbrev Directory := Place Bytes

abbrev Disk := Tree Bytes File

abbrev Store := ExceptT Error (Prog (signature Bytes File Probe))

def ioSentinel : IoError → Sentinel
  | .notExist => .notExist
  | .exist => .exist
  | .failed => .io

def about (format : String) (args : List Bytes) (cause : Error) : Error := .wrap format args cause

def plainly (e : IoError) : Error := .sentinel (ioSentinel e)

def explaining (format : String) (args : List Bytes) (e : IoError) : Error :=
  about format args (plainly e)

def contextErr : Store Unit := sys (fun _ => .sentinel .cancelled) (.attempt .contextErr)

def cleaning {α : Type} (cleanup : Op Bytes File Probe) (p : Store α) : Store α := do
  match ← catching p with
  | .ok a => pure a
  | .error e =>
    let _ ← catching (sys plainly cleanup)
    throw e

def sessionDirectory (sessionID : Bytes) : Directory := .named sessionID

def syncDirectory : Store Unit := sys plainly (.attempt .syncDirectory)

def readSnapshot (directory : Directory) : Store JournalSnapshot := do
  let body ← sys (explaining "read journal snapshot: %w" []) (.read directory .snapshot)
  match unmarshal body with
  | some snapshot => pure snapshot
  | none => throw (about "decode journal snapshot: %w" [] (.sentinel .json))

def commitSnapshot (directory : Directory) (body : Bytes) (replace : Bool) : Store Unit := do
  sys (explaining "write snapshot partial: %w" []) (.write directory .snapshotPartial body)
  sys (explaining "sync snapshot partial: %w" []) (.attempt .sync)
  sys (explaining "close snapshot partial: %w" []) (.attempt .close)
  sys plainly (.attempt .beforeSnapshotRename)
  if !replace then
    match ← catching (sys plainly (.size directory .snapshot)) with
    | .ok _ => throw (.sentinel .exist)
    | .error _ => pure ()
  sys (explaining "commit journal snapshot: %w" []) (.rename directory .snapshotPartial .snapshot)

def writeSnapshot (directory : Directory) (snapshot : JournalSnapshot) (replace : Bool) :
    Store Unit := do
  match marshal snapshot with
  | none => throw (about "marshal journal snapshot: %w" [] (.sentinel .json))
  | some body =>
    sys (explaining "create snapshot partial: %w" []) (.create directory .snapshotPartial)
    cleaning (.remove directory .snapshotPartial) (commitSnapshot directory body replace)
    sys (explaining "secure journal snapshot: %w" []) (.attempt .chmod)
    syncDirectory

def closeLog (written : Except Error Unit) : Store Unit := do
  let closed ← catching (sys plainly (.attempt .close))
  match written, closed with
  | .error e, _ => throw (about "append and sync journal: %w" [] e)
  | .ok _, .error e => throw (about "close journal: %w" [] e)
  | .ok _, .ok _ => pure ()

def append (sessionID : Bytes) (entry : Entry) : Store Unit := do
  let directory := sessionDirectory sessionID
  sys (explaining "open journal append: %w" []) (.openFile directory .journal)
  let written ← catching do
    match marshal entry.envelope with
    | none => throw (.sentinel .json)
    | some body =>
      sys plainly (.write directory .journal (body ++ [10]))
      sys plainly (.attempt .sync)
  closeLog written

def load (sessionID : Bytes) : Store (JournalSnapshot × List IntentRecord) := do
  contextErr
  liftM (validateSessionID sessionID)
  let directory := sessionDirectory sessionID
  let snapshot ← readSnapshot directory
  sys (explaining "open journal log: %w" []) (.openFile directory .journal)
  let log ← sys (explaining "read journal log: %w" []) (.read directory .journal)
  let replay ← liftM (replayLog sessionID snapshot log)
  pure replay.result

def acceptExistingInitialSession (expected : JournalSnapshot) : Store Unit := do
  let taken : Error := .message "journal session %q already exists" [expected.sessionID]
  match ← catching (sys plainly (.size (sessionDirectory expected.sessionID) .journal)) with
  | .ok 0 =>
    match ← catching (load expected.sessionID) with
    | .ok (actual, []) =>
      match marshal expected, marshal actual with
      | some wantBody, some actualBody =>
        if wantBody ≠ actualBody then
          throw (.message "journal session %q already exists with different initial state"
            [expected.sessionID])
      | _, _ =>
        throw (.message "journal session %q already exists with different initial state"
          [expected.sessionID])
    | _ => throw taken
  | _ => throw taken

def stageJournal (staging : Directory) : Store Unit := do
  sys (explaining "secure staged journal session: %w" []) (.attempt .chmod)
  sys (explaining "sync journal creation root: %w" []) (.attempt .syncDirectory)
  sys (explaining "create journal log: %w" []) (.create staging .journal)
  sys (explaining "sync journal log: %w" []) (.attempt .sync)
  sys (explaining "close journal log: %w" []) (.attempt .close)
  sys (explaining "sync staged journal session: %w" []) (.attempt .syncDirectory)

/-- The staged directory becomes the session. When another call was faster, the
staged one is dropped. -/
def commitStaged (staging : Directory) (snapshot : JournalSnapshot) : Store Unit := do
  let directory := sessionDirectory snapshot.sessionID
  match ← catching (sys plainly (.renameAll staging directory)) with
  | .ok () =>
    sys (explaining "sync journal creation root after commit: %w" []) (.attempt .syncDirectory)
    sys (explaining "sync committed journal session: %w" []) (.attempt .syncDirectory)
    sys plainly (.attempt (.createStepHook .afterCommitSync))
  | .error e =>
    let accepted ← catching do
      match ← catching (sys plainly (.exists directory)) with
      | .ok true => acceptExistingInitialSession snapshot
      | _ => throw (about "commit journal session %q: %w" [snapshot.sessionID] e)
    let _ ← catching (sys plainly (.removeAll staging))
    liftM accepted

def create (snapshot : JournalSnapshot) : Store Unit := do
  contextErr
  liftM (validateSessionID snapshot.sessionID)
  match ← catching (sys plainly (.exists (sessionDirectory snapshot.sessionID))) with
  | .ok true => acceptExistingInitialSession snapshot
  | .error e => throw (about "inspect journal session %q: %w" [snapshot.sessionID] e)
  | .ok false =>
    let staging ← sys (explaining "stage journal session %q: %w" [snapshot.sessionID]) .makeTemp
    cleaning (.removeAll staging) (stageJournal staging)
    -- a failed hook leaves the staged directory behind
    sys plainly (.attempt (.createStepHook .afterJournalSync))
    cleaning (.removeAll staging) (writeSnapshot staging snapshot false)
    sys plainly (.attempt (.createStepHook .afterSnapshotSync))
    commitStaged staging snapshot

def recordIntent (intent : IntentRecord) : Store Unit := do
  contextErr
  liftM (validateIntent intent)
  sys (explaining "open journal intent lock: %w" []) (.openFile (sessionDirectory intent.sessionID) .journal)
  sys (explaining "lock journal intent: %w" []) (.attempt .flock)
  append intent.sessionID (.intent intent)

def bindExecution (sessionID : Bytes) (binding : ExecutionBinding) : Store Unit := do
  contextErr
  liftM (validateSessionID sessionID)
  liftM binding.validate
  let directory := sessionDirectory sessionID
  sys (explaining "open journal execution binding lock: %w" []) (.openFile directory .journal)
  sys (explaining "lock journal execution binding: %w" []) (.attempt .flock)
  let (snapshot, _) ← load sessionID
  match snapshot.executionBinding with
  | some bound => if bound ≠ binding then throw (.sentinel .executionRetarget)
  | none =>
    let size ← sys (explaining "inspect journal before execution binding: %w" []) (.size directory .journal)
    if size ≠ 0 then throw (.sentinel .executionAlreadyStarted)
    writeSnapshot directory (snapshot.withBinding binding) true

/-- The snapshot that a fact is recorded with, or the reason to refuse it. -/
def factSnapshot (current : JournalSnapshot) (fact : FactRecord) (snapshot : JournalSnapshot) :
    Except Error JournalSnapshot :=
  if snapshot.executionBinding ≠ none ∧ snapshot.executionBinding ≠ current.executionBinding then
    .error (.sentinel .executionRetarget)
  else reduceFact (composeFactSnapshot current snapshot fact.transition) fact

def recordFact (fact : FactRecord) (snapshot : JournalSnapshot) : Store Unit := do
  contextErr
  liftM (validateFact fact snapshot.sessionID)
  let directory := sessionDirectory fact.sessionID
  sys (explaining "open journal fact lock: %w" []) (.openFile directory .journal)
  sys (explaining "lock journal fact: %w" []) (.attempt .flock)
  let (current, _) ← load fact.sessionID
  let reduced ← liftM (factSnapshot current fact snapshot)
  append fact.sessionID (.fact fact reduced)
  writeSnapshot directory reduced true

inductive Call where
  | create (snapshot : JournalSnapshot)
  | recordIntent (intent : IntentRecord)
  | bindExecution (sessionID : Bytes) (binding : ExecutionBinding)
  | recordFact (fact : FactRecord) (snapshot : JournalSnapshot)
  deriving DecidableEq

namespace Call

def program : Call → Store Unit
  | create s => Journal.create s
  | recordIntent i => Journal.recordIntent i
  | bindExecution id b => Journal.bindExecution id b
  | recordFact f s => Journal.recordFact f s

def sessionID : Call → Bytes
  | create s => s.sessionID
  | recordIntent i => i.sessionID
  | bindExecution id _ => id
  | recordFact f _ => f.sessionID

/-- The call under the given faults: what it returns, unless the process stops
in it, and the disk it leaves. -/
def run (c : Call) (faults : List Fault) (d : Disk) : Option (Except Error Unit) × Disk :=
  (machine Bytes File Probe).run c.program.run faults d

end Call

/-- The disk that `NewStore` prepares: the directory of staged sessions. -/
def emptyDisk : Disk := ⟨fun d => if d = .named (lit ".creating") then some fun _ => none else none, 0⟩

end Camp.Journal
