import Camp.Supervisor.Units
import Camp.Wire.Order

/-!
# Process numbers that are used again

The processes of a unit are gone, and other processes may carry their numbers and their group. A
process is told apart by its start time; whether that is noticed depends on who asks.
-/

namespace Camp.Supervisor

open Wire Wire.Utf8 Program Program.Checks

section Model

inductive Trouble where
  | gone
  | identity
  | other (text : String)
  deriving DecidableEq

def Trouble.error : Trouble → Error
  | .gone => .message "process does not exist"
  | .identity => .processIdentity
  | .other text => .message text

structure Details where
  executable : Bytes
  argv : List Bytes
  netNS : Bytes
  deriving DecidableEq

/-- What the kernel tells of a process number. The details of a process that is not a zombie may
be denied, or missing. -/
structure Entry where
  identity : ProcessIdentity
  running : Bool
  parentPID : Int64
  pgid : Int64
  sid : Int64
  details : Except Trouble Details
  deriving DecidableEq

def Entry.inspect (e : Entry) : Except Trouble ProcessStatus :=
  if !e.running then .ok ⟨e.identity, false, [], [], e.parentPID, e.pgid, e.sid, []⟩
  else e.details.map fun d => ⟨e.identity, true, d.executable, d.argv, e.parentPID, e.pgid, e.sid, d.netNS⟩

abbrev Table := List Entry

namespace Table

variable (table : Table)

def holder (pid : Int64) : Option Entry := table.find? (·.identity.pid == pid)

def inspectPID (pid : Int64) : Except Trouble ProcessStatus :=
  match table.holder pid with
  | none => .error .gone
  | some e => e.inspect

def inspect (expected : ProcessIdentity) : Except Trouble ProcessStatus :=
  match table.inspectPID expected.pid with
  | .error .gone => .ok ⟨expected, false, [], [], 0, 0, 0, []⟩
  | .error t => .error t
  | .ok status => if status.identity ≠ expected then .error .identity else .ok status

def scan (wanted : ProcessStatus → Bool) : List ProcessStatus :=
  sortOn (·.identity.pid.toInt) (table.filterMap fun e => e.inspect.toOption.filter fun s => s.running && wanted s)

def children (parent : ProcessIdentity) : Except Trouble (List ProcessStatus) := do
  let status ← table.inspect parent
  if !status.running then return [] else return table.scan (·.parentPID == parent.pid)

def members (pgid : Int64) : Table → Except Trouble (List ProcessStatus)
  | [] => .ok []
  | e :: rest =>
    if !e.running || e.pgid != pgid then members pgid rest
    else
      match e.inspect with
      | .ok status => (members pgid rest).map (status :: ·)
      | .error .gone => members pgid rest
      | .error t => .error t

def group (pgid : Int64) : Except Error (List ProcessStatus) := do
  refuse (pgid ≤ 0) (.message "invalid process group")
  (((members pgid table).map (sortOn (·.identity.pid.toInt))).mapError Trouble.error)

/-- Stop a process: the outcome, and the numbers that got a signal. `after` is what the wait for the
process to end gives. -/
def stop (after : ProcessIdentity → Except Error Unit) (identity : ProcessIdentity) : Except Error Unit × List Int64 :=
  match table.inspect identity with
  | .error t => (.error t.error, [])
  | .ok status => if !status.running then (.ok (), []) else (after identity, [identity.pid])

end Table

def matchesProcessRecord (status : ProcessStatus) (record : ProcessRecord) : Bool :=
  status.identity == record.identity && status.executable == record.observedExecutable &&
    (if status.argv = [] then none else some status.argv) == record.argv &&
    argvSHA256 status.argv == record.argvSHA256 && status.parentPID == record.parentPID && status.pgid == record.pgid &&
    status.sid == record.sid && status.netNS == record.netNS

def deniedNetNS (identity : ProcessIdentity) : Bytes :=
  lit "kernel-denied:" ++ identity.bootID ++ 58 :: numeral identity.startTicks.toNat

def matchesDetachedHelperRecord (status : ProcessStatus) (record : ProcessRecord) : Bool :=
  matchesProcessRecord status { record with
    parentPID := status.parentPID
    observedExecutable :=
      if (record.argv.getD []).head? = some status.executable then status.executable else record.observedExecutable
    netNS := if status.netNS = deniedNetNS status.identity then status.netNS else record.netNS }

def validateMember (record : ServiceUnitRecord) (member : ProcessStatus) : Except Error Unit :=
  if !member.running then .ok ()
  else if member.identity = record.helper.identity then
    refuse (!matchesDetachedHelperRecord member record.helper) (.invariant "recorded helper identity drift: %w")
  else if member.identity = record.child.identity then
    refuse (!matchesProcessRecord member record.child) (.invariant "recorded child identity drift: %w")
  else .error (.invariant "unexpected process-group member %d: %w")

def validateRecordedGroup (members : List ProcessStatus) (record : ServiceUnitRecord) : Except Error Unit :=
  each (validateMember record) members

/-- The inspector of the unit: readiness, and whether its ports and its pidfile are free. -/
structure Inspector where
  ready : Bytes → PortMapping → ProcessStatus → ProcessStatus → Except Error UnitEvidence
  stopped : ServiceUnitRecord → Except Error Unit
  absent : ServiceUnitRecord → Except Error Unit

variable (table : Table) (inspector : Inspector) (after : ProcessIdentity → Except Error Unit)
    (record : ServiceUnitRecord)

def surroundings : Surroundings where
  inspect identity := (table.inspect identity).mapError Trouble.error
  children identity := (table.children identity).mapError Trouble.error
  ready := inspector.ready
  stopped := inspector.stopped

/-- That the number belongs to another process is no error here. -/
def stopRecorded (identity : ProcessIdentity) : Except Error Unit × List Int64 :=
  if 0 < identity.pid then
    match table.stop after identity with
    | (.error .processIdentity, signals) => (.ok (), signals)
    | result => result
  else (.ok (), [])

def groupOwn : Except Error Unit :=
  if 0 < record.helper.pgid then do
    let members ← table.group record.helper.pgid
    validateRecordedGroup members record
  else .ok ()

def groupEmpty : Except Error Unit :=
  if 0 < record.helper.pgid then do
    let members ← table.group record.helper.pgid
    refuse (members.length != 0) (.invariant "service group still contains %d processes: %w")
  else .ok ()

def stopUnit : Except Error Unit × List Int64 :=
  match groupOwn table record with
  | .error e => (.error e, [])
  | .ok () =>
    match stopRecorded table after record.child.identity with
    | (.error e, signals) => (.error e, signals)
    | (.ok (), signals) =>
      match stopRecorded table after record.helper.identity with
      | (.error e, signals') => (.error e, signals ++ signals')
      | (.ok (), signals') => (groupEmpty table record >>= fun _ => inspector.absent record, signals ++ signals')

/-- The part of a restart between the intent and the launch: what is launched. -/
def restart (sessionID launchToken : Bytes) : Except Error ServiceSpec := do
  let observation ← observeRecord (surroundings table inspector) record
  if observation.state = .live then (stopUnit table inspector after record).1 else inspector.absent record
  restartSpec record sessionID launchToken

end Model

section Reuse

variable {table : Table} {inspector : Inspector} {after : ProcessIdentity → Except Error Unit}
    {record : ServiceUnitRecord}

/-- The processes of the unit are gone; what is left of them are zombies. -/
def Gone (table : Table) (record : ServiceUnitRecord) : Prop :=
  ∀ e ∈ table, e.identity = record.helper.identity ∨ e.identity = record.child.identity → e.running = false

/-- Nobody has taken the number of a process, as far as can be seen: it is the process itself, or
one whose details are missing. -/
def Free (table : Table) (identity : ProcessIdentity) : Prop :=
  ∀ e, table.holder identity.pid = some e → e.identity = identity ∨ e.running = true ∧ e.details = .error .gone

/-- The process that has the number can be inspected, or its identity is denied. -/
def Visible (table : Table) (identity : ProcessIdentity) : Prop :=
  ∀ e, table.holder identity.pid = some e → e.running = true → ∀ text, e.details ≠ .error (.other text)

def Deserted (table : Table) (pgid : Int64) : Prop :=
  ∀ e ∈ table, e.running = true → e.pgid = pgid → e.details = .error .gone

/-- The condition under which a unit survives the reuse of its numbers. -/
structure Unclaimed (table : Table) (record : ServiceUnitRecord) : Prop where
  helper : Free table record.helper.identity
  child : 0 < record.child.identity.pid → Visible table record.child.identity
  group : 0 < record.helper.pgid → Deserted table record.helper.pgid

section Inspection

variable {identity : ProcessIdentity}

theorem mem_of_holder {pid : Int64} {e : Entry} (h : table.holder pid = some e) :
    e ∈ table := List.mem_of_find?_eq_some h

theorem inspect_gone (hGone : ∀ e ∈ table, e.identity = identity → e.running = false) :
    (∃ status, table.inspect identity = .ok status ∧ status.running = false) ∧ Free table identity ∨
      (∃ t, table.inspect identity = .error t ∧ (t = .identity ↔ Visible table identity)) ∧ ¬Free table identity := by
  unfold Table.inspect Table.inspectPID Free Visible
  cases hHolder : table.holder identity.pid with
  | none => simp
  | some e =>
    simp only [Option.some.injEq, forall_eq']
    by_cases hIdentity : e.identity = identity
    · have hRunning := hGone e (mem_of_holder hHolder) hIdentity
      simp [Entry.inspect, hRunning, hIdentity]
    · cases hRunning : e.running with
      | false => simp [Entry.inspect, hRunning, hIdentity]
      | true =>
        -- a live process with the number: only missing details hide it
        cases hDetails : e.details with
        | ok d => simp [Entry.inspect, hRunning, hDetails, hIdentity, Except.map]
        | error t => cases t <;> simp [Entry.inspect, hRunning, hDetails, hIdentity, Except.map]

theorem Free.visible (hGone : ∀ e ∈ table, e.identity = identity → e.running = false) (h : Free table identity) :
    Visible table identity := by
  intro e hHolder hRunning text hDetails
  rcases h e hHolder with hSame | ⟨-, hMissing⟩
  · exact absurd (hGone e (mem_of_holder hHolder) hSame) (by simp [hRunning])
  · rw [hMissing] at hDetails
    cases hDetails

theorem stopRecorded_gone (after : ProcessIdentity → Except Error Unit)
    (hGone : ∀ e ∈ table, e.identity = identity → e.running = false) :
    (stopRecorded table after identity).2 = [] ∧
      ((stopRecorded table after identity).1 = .ok () ↔ (0 < identity.pid → Visible table identity)) := by
  unfold stopRecorded Table.stop
  by_cases hNumber : 0 < identity.pid
  · rcases inspect_gone hGone with ⟨⟨status, hStatus, hStopped⟩, hFree⟩ | ⟨⟨t, hTrouble, hVisible⟩, -⟩
    · simp [hNumber, hStatus, hStopped, hFree.visible hGone]
    · cases t <;> simp [hNumber, hTrouble, Trouble.error, ← hVisible]
  · simp [hNumber]

end Inspection

section Group

variable {pgid : Int64}

theorem members_eq_nil : Table.members pgid table = .ok [] ↔ Deserted table pgid := by
  induction table with
  | nil => simp [Table.members, Deserted]
  | cons e rest ih =>
    have hCons : Deserted (e :: rest) pgid ↔
        (e.running = true → e.pgid = pgid → e.details = .error .gone) ∧ Deserted rest pgid := by
      simp only [Deserted, List.forall_mem_cons]
    rw [hCons, ← ih, Table.members]
    by_cases hOther : e.running = true ∧ e.pgid = pgid
    · obtain ⟨hRunning, hGroup⟩ := hOther
      cases hDetails : e.details with
      | ok d => cases Table.members pgid rest <;> simp [Entry.inspect, hRunning, hGroup, hDetails, Except.map]
      | error t => cases t <;> simp [Entry.inspect, hRunning, hGroup, hDetails, Except.map]
    · rw [if_pos (by simpa [or_iff_not_imp_left] using hOther)]
      exact ⟨fun h => ⟨fun hRunning hGroup => absurd ⟨hRunning, hGroup⟩ hOther, h⟩, fun h => h.2⟩

theorem sortOn_eq_nil {α : Type} {key : α → Int} {l : List α} : sortOn key l = [] ↔ l = [] :=
  ⟨fun h => List.nil_perm.mp (h ▸ sortOn_perm key l), fun h => by rw [h]; rfl⟩

theorem group_eq_nil (hPositive : 0 < pgid) : table.group pgid = .ok [] ↔ Deserted table pgid := by
  have hValid : refuse (decide (pgid ≤ 0)) (Error.message "invalid process group") = .ok () := by simpa using hPositive
  rw [← members_eq_nil, Table.group, hValid]
  cases h : Table.members pgid table with
  | error t => simp [bind, Except.bind, Except.map, Except.mapError]
  | ok members => simp [bind, Except.bind, Except.map, Except.mapError, sortOn_eq_nil]

theorem groupEmpty_eq_ok :
    groupEmpty table record = .ok () ↔ (0 < record.helper.pgid → Deserted table record.helper.pgid) := by
  unfold groupEmpty
  by_cases hPositive : 0 < record.helper.pgid
  · simp only [hPositive, if_true, forall_const, ← group_eq_nil hPositive, bind_eq_ok, refuse_eq_ok]
    constructor
    · rintro ⟨members, hMembers, hNone⟩
      have hNil : members = [] := List.eq_nil_of_length_eq_zero (by simpa using hNone)
      rw [hMembers, hNil]
    · exact fun h => ⟨[], h, rfl⟩
  · simp [hPositive]

theorem groupOwn_of_deserted (h : 0 < record.helper.pgid → Deserted table record.helper.pgid) :
    groupOwn table record = .ok () := by
  unfold groupOwn
  by_cases hPositive : 0 < record.helper.pgid
  · rw [if_pos hPositive, (group_eq_nil hPositive).mpr (h hPositive)]
    rfl
  · rw [if_neg hPositive]

end Group

theorem stopUnit_eq_ok (hGone : Gone table record) (hAbsent : inspector.absent record = .ok ())
    (hFree : Free table record.helper.identity) :
    (stopUnit table inspector after record).1 = .ok () ↔
      (0 < record.child.identity.pid → Visible table record.child.identity) ∧
        (0 < record.helper.pgid → Deserted table record.helper.pgid) := by
  have hHelperGone := fun e he h => hGone e he (.inl h)
  have hHelper := (stopRecorded_gone after hHelperGone).2.mpr fun _ => hFree.visible hHelperGone
  rw [← (stopRecorded_gone after fun e he h => hGone e he (.inr h)).2, ← groupEmpty_eq_ok]
  unfold stopUnit
  constructor
  · intro h
    split at h
    · cases h
    · split at h
      · cases h
      · rename_i hChild
        split at h
        · cases h
        · obtain ⟨_, hEmpty, -⟩ := bind_eq_ok.mp h
          exact ⟨by rw [hChild], hEmpty⟩
  · rintro ⟨hChild, hEmpty⟩
    rw [groupOwn_of_deserted (groupEmpty_eq_ok.mp hEmpty)]
    generalize stopRecorded table after record.child.identity = child at hChild
    generalize stopRecorded table after record.helper.identity = helper at hHelper
    obtain ⟨_, signals⟩ := child
    obtain ⟨_, signals'⟩ := helper
    subst hChild hHelper
    exact bind_eq_ok.mpr ⟨(), hEmpty, hAbsent⟩

theorem stopUnit_quiet (hGone : Gone table record) : (stopUnit table inspector after record).2 = [] := by
  have hHelper := (stopRecorded_gone after fun e he h => hGone e he (.inl h)).1
  have hChild := (stopRecorded_gone after fun e he h => hGone e he (.inr h)).1
  unfold stopUnit
  generalize stopRecorded table after record.child.identity = child at hChild
  generalize stopRecorded table after record.helper.identity = helper at hHelper
  obtain ⟨result, _⟩ := child
  obtain ⟨result', _⟩ := helper
  subst hChild hHelper
  cases groupOwn table record <;> cases result <;> cases result' <;> rfl

section Observation

variable {spec : ServiceSpec}

theorem observeRecord_gone (hGone : Gone table record) (hSpec : serviceSpecFromRecord record = .ok spec)
    (hStopped : inspector.stopped record = .ok ()) :
    observeRecord (surroundings table inspector) record = .ok ⟨.stopped, record⟩ ∧ Free table record.helper.identity ∨
      (∃ e, observeRecord (surroundings table inspector) record = .error e) ∧ ¬Free table record.helper.identity := by
  unfold observeRecord surroundings
  rw [hSpec]
  rcases inspect_gone fun e he h => hGone e he (.inl h) with ⟨⟨status, hStatus, hDown⟩, hFree⟩ |
    ⟨⟨t, hTrouble, -⟩, hTaken⟩
  · left
    simp [bind, Except.bind, hStatus, hDown, hStopped, hFree, Except.mapError, pure, Except.pure]
  · right
    simp [bind, Except.bind, hTrouble, hTaken, Except.mapError]

theorem restart_stopped {sessionID launchToken : Bytes} (hAbsent : inspector.absent record = .ok ())
    (hObserved : observeRecord (surroundings table inspector) record = .ok ⟨.stopped, record⟩) :
    restart table inspector after record sessionID launchToken = restartSpec record sessionID launchToken := by
  rw [restart, hObserved]
  simp [bind, Except.bind, hAbsent]

end Observation

section Sample

def sampleRecord : ServiceUnitRecord := unitRecord sampleService sampleHelper sampleChild

def openInspector : Inspector where
  ready _ _ _ child := .ok ⟨lit "127.0.0.1:41000", lit "127.0.0.1:5000", child.netNS⟩
  stopped _ := .ok ()
  absent _ := .ok ()

/-- A stranger that has taken a number, and leads a group of its own. -/
def stranger (pid : Int64) : Entry where
  identity := ⟨pid, lit "boot", 99⟩
  running := true
  parentPID := 1
  pgid := pid
  sid := pid
  details := .ok ⟨lit "/usr/bin/sleep", [lit "sleep", lit "60"], lit "net:[1]"⟩

theorem gone_stranger (pid : Int64) : Gone [stranger pid] sampleRecord := by
  intro e he hSame
  rw [List.mem_singleton.mp he] at hSame
  have hTicks : ∀ identity : ProcessIdentity, (stranger pid).identity = identity → identity.startTicks = 99 := by
    rintro _ rfl
    rfl
  rcases hSame with h | h <;> exact absurd (hTicks _ h) (by decide)

theorem unclaimed_child : Unclaimed [stranger 11] sampleRecord where
  helper e h := by
    have hNone : Table.holder [stranger 11] sampleRecord.helper.identity.pid = none := by decide
    rw [hNone] at h
    cases h
  child _ e h _ text hDetails := by
    have hEntry : Table.holder [stranger 11] sampleRecord.child.identity.pid = some (stranger 11) := by decide
    rw [← Option.some.inj (hEntry.symm.trans h)] at hDetails
    cases hDetails
  group _ e he _ hGroup := by
    rw [List.mem_singleton.mp he] at hGroup
    exact absurd hGroup (by decide)

end Sample

end Reuse

end Camp.Supervisor
