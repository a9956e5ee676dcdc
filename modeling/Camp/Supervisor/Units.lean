import Camp.Domain.Session
import Camp.Program.Checks
import Camp.Program.Paths
import Camp.Wire.Sha256
import Camp.Wire.Text
import Camp.Wire.Words

/-!
# Service units

A unit is a confinement helper with one Hauler service below it. The record of an observed unit
keeps the argument vectors of both processes, and the specification of the unit is read back
from them.
-/

namespace Camp.Supervisor

open Wire Wire.Utf8 Wire.Words Program Program.Paths Program.Checks List

section Model

inductive Error where
  | message (text : String)
  | invariant (text : String)
  | definition (format : String) (args : List Bytes)
  | processIdentity
  deriving DecidableEq

def itoa (n : Int64) : Bytes :=
  if 0 ≤ n.toInt then numeral n.toInt.toNat else 45 :: numeral (-n.toInt).toNat

structure Command where
  executable : Bytes
  argv : List Bytes
  directory : Bytes
  environment : List (Bytes × Bytes)
  deriving DecidableEq

structure ConfinementCapability where
  executable : Bytes
  version : Bytes
  environmentFingerprint : Bytes
  boundary : Bytes
  childContextPrefix : List Bytes
  deriving DecidableEq

structure PortMapping where
  hostAddress : Bytes
  hostPort : Int64
  guestPort : Int64
  deriving DecidableEq

structure ServiceSpec where
  sessionID : Bytes
  name : Bytes
  launchToken : Bytes
  capability : ConfinementCapability
  mapping : PortMapping
  logPath : Bytes
  pidPath : Bytes
  child : Command
  deriving DecidableEq

structure ProcessSpec where
  command : Command
  newSession : Bool
  logPath : Bytes
  deriving DecidableEq

structure ProcessStatus where
  identity : ProcessIdentity
  running : Bool
  executable : Bytes
  argv : List Bytes
  parentPID : Int64
  pgid : Int64
  sid : Int64
  netNS : Bytes
  deriving DecidableEq

structure UnitEvidence where
  hostEndpoint : Bytes
  guestEndpoint : Bytes
  childNetNS : Bytes
  deriving DecidableEq

def portInRange (port : Int64) : Bool := 1 ≤ port && port ≤ 65535

def pastaOptions (service : ServiceSpec) : List Bytes :=
  [lit "--foreground", lit "--quiet", lit "--log-file", service.logPath, lit "--pid",
    service.pidPath, lit "--ipv4-only",
    lit "--host-lo-to-ns-lo", lit "--tcp-ports",
    service.mapping.hostAddress ++ 47 :: itoa service.mapping.hostPort ++ 58 :: itoa service.mapping.guestPort,
    lit "--udp-ports", lit "none", lit "--tcp-ns", lit "none", lit "--udp-ns", lit "none"]

def contextPrefixOk (context : List Bytes) : Bool :=
  match context with
  | [] => true
  | [runcon, option, type] => rooted runcon && option == lit "-t" && type == lit "unconfined_t"
  | _ => false

def buildPastaLoopback (service : ServiceSpec) : Except Error ProcessSpec := do
  refuse (!rooted service.capability.executable || service.capability.version == [] ||
      service.capability.environmentFingerprint == [])
      (.message "PastaLoopback requires resolved confinement capability")
  refuse (service.mapping.hostAddress != lit "127.0.0.1" || !portInRange service.mapping.hostPort ||
      !portInRange service.mapping.guestPort) (.message "PastaLoopback requires exact IPv4 loopback ports")
  refuse (!rooted service.logPath || !rooted service.pidPath || service.logPath == service.pidPath)
    (.message "PastaLoopback requires separate absolute private log and pid paths")
  refuse (!rooted service.child.executable || service.child.argv == [])
    (.message "PastaLoopback requires an exact absolute child command")
  refuse (!contextPrefixOk service.capability.childContextPrefix)
    (.message "PastaLoopback child context prefix is invalid")
  return {
    command := {
      executable := service.capability.executable
      argv := pastaOptions service ++ lit "--" :: service.capability.childContextPrefix ++
        service.child.executable :: service.child.argv
      directory := service.child.directory
      environment := service.child.environment }
    newSession := true
    logPath := service.logPath }

def isHaulerService : List Bytes → Bool
  | serve :: name :: rest =>
    (serve == lit "serve" && (name == lit "registry" || name == lit "fileserver")) || isHaulerService (name :: rest)
  | _ => false

def ServiceSpec.processSpec (service : ServiceSpec) : Except Error ProcessSpec := do
  refuse (service.sessionID == [] || service.name == [] || service.launchToken == [])
    (.message "service identity is incomplete")
  refuse (base service.child.executable != lit "hauler" || !isHaulerService service.child.argv)
    (.message "PastaLoopback production service requires an exact Hauler serve command")
  buildPastaLoopback service

def ProcessSpec.argv (spec : ProcessSpec) : List Bytes := spec.command.executable :: spec.command.argv

def ServiceSpec.childArgv (service : ServiceSpec) : List Bytes := service.child.executable :: service.child.argv

def validateHelper (spec : ProcessSpec) (helper : ProcessStatus) : Except Error Unit :=
  refuse (!helper.running || helper.pgid != helper.identity.pid ||
    helper.sid != helper.identity.pid || helper.netNS == [] ||
    helper.argv != spec.argv) (.invariant "helper identity or argv mismatch: %w")

def argvSHA256 (argv : List Bytes) : Bytes := sha256Hex ([0].intercalate argv)

def processRecord (desired : Bytes) (status : ProcessStatus) : ProcessRecord where
  identity := status.identity
  desiredExecutable := desired
  observedExecutable := status.executable
  argv := if status.argv = [] then none else some status.argv
  argvSHA256 := argvSHA256 status.argv
  parentPID := status.parentPID
  pgid := status.pgid
  sid := status.sid
  netNS := status.netNS

/-- What the supervisor asks of the processes and of the inspector, which reads the name and the
mapping of a service. -/
structure Surroundings where
  inspect : ProcessIdentity → Except Error ProcessStatus
  children : ProcessIdentity → Except Error (List ProcessStatus)
  ready : Bytes → PortMapping → ProcessStatus → ProcessStatus → Except Error UnitEvidence
  stopped : ServiceUnitRecord → Except Error Unit

def unitRecord (service : ServiceSpec) (helper child : ProcessStatus) : ServiceUnitRecord where
  name := service.name
  launchToken := service.launchToken
  confinement := {
    executable := service.capability.executable
    version := service.capability.version
    environmentFingerprint := service.capability.environmentFingerprint
    boundary := service.capability.boundary }
  mapping := ⟨service.mapping.hostAddress, service.mapping.hostPort, service.mapping.guestPort⟩
  pidPath := service.pidPath
  logPath := service.logPath
  helper := processRecord service.capability.executable helper
  child := processRecord service.child.executable child
  desiredState := .known .running
  observedState := .known .ready

variable (around : Surroundings)

def childFits (service : ServiceSpec) (helper child : ProcessStatus) : Bool :=
  child.running && child.parentPID == helper.identity.pid && child.executable == service.child.executable &&
    child.argv == service.childArgv && child.pgid == helper.pgid && child.sid == helper.sid && child.netNS != [] &&
    child.netNS != helper.netNS

def observe (service : ServiceSpec) (helper : ProcessStatus) : Except Error ServiceUnitRecord := do
  match ← around.children helper.identity with
  | [child] =>
    refuse (!childFits service helper child) (.invariant "child identity or namespace mismatch: %w")
    let evidence ← around.ready service.name service.mapping helper child
    refuse (evidence.childNetNS != child.netNS) (.invariant "readiness namespace drift: %w")
    return unitRecord service helper child
  | _ => throw (.invariant "helper has %d direct children: %w")

/-- What follows the only separator of a helper's arguments. -/
def childTail (argv : List Bytes) : Except Error (List Bytes) :=
  match argv.dropWhile (· ≠ lit "--") with
  | [] => .error (.invariant "recorded helper lacks a child separator: %w")
  | _ :: tail =>
    if lit "--" ∈ tail then .error (.invariant "recorded helper has multiple child separators: %w") else .ok tail

def recordedChildContextPrefix (record : ServiceUnitRecord) : Except Error (List Bytes) := do
  let tail ← childTail (record.helper.argv.getD [])
  if some tail = record.child.argv then return []
  else if tail.length = (record.child.argv.getD []).length + 3 ∧ contextPrefixOk (tail.take 3) ∧
      some (tail.drop 3) = record.child.argv then return tail.take 3
  else throw (.invariant "recorded helper child prefix or command drifted: %w")

def serviceSpecFromRecord (record : ServiceUnitRecord) : Except Error ServiceSpec := do
  let childArgv := record.child.argv.getD []
  refuse (record.name == [] || record.launchToken == [] || record.child.desiredExecutable == [] ||
    childArgv.length < 2 ||
      childArgv.head? != some record.child.desiredExecutable ||
      record.helper.desiredExecutable != record.confinement.executable)
    (.invariant "recorded service identity is incomplete: %w")
  let childContextPrefix ← recordedChildContextPrefix record
  return {
    sessionID := lit "observed-" ++ record.name
    name := record.name
    launchToken := record.launchToken
    capability := {
      executable := record.confinement.executable
      version := record.confinement.version
      environmentFingerprint := record.confinement.environmentFingerprint
      boundary := record.confinement.boundary
      childContextPrefix := childContextPrefix }
    mapping := ⟨record.mapping.hostAddress, record.mapping.hostPort, record.mapping.guestPort⟩
    logPath := record.logPath
    pidPath := record.pidPath
    child := ⟨record.child.desiredExecutable, childArgv.tail, [], []⟩ }

inductive UnitState where
  | live
  | stopped
  deriving DecidableEq

structure UnitObservation where
  state : UnitState
  record : ServiceUnitRecord
  deriving DecidableEq

def observeRecord (record : ServiceUnitRecord) : Except Error UnitObservation := do
  let spec ← serviceSpecFromRecord record
  let helper ← around.inspect record.helper.identity
  if !helper.running then
    around.stopped record
    return ⟨.stopped, record⟩
  else
    let processSpec ← spec.processSpec
    refuse (helper.identity != record.helper.identity) .processIdentity
    validateHelper processSpec helper
    let observed ← observe around spec helper
    refuse (observed.helper.identity != record.helper.identity || observed.child.identity != record.child.identity)
      .processIdentity
    return ⟨.live, observed⟩

def restartSpec (record : ServiceUnitRecord) (sessionID launchToken : Bytes) : Except Error ServiceSpec :=
  (serviceSpecFromRecord record).map fun spec => { spec with sessionID := sessionID, launchToken := launchToken }

end Model

section Definitions

structure ServiceDefinition where
  name : Bytes
  subcommand : Bytes
  haulerExecutable : Bytes
  storeDirectory : Bytes
  overlayDirectory : Bytes
  guestPort : Int64
  readinessPath : Bytes
  logPath : Bytes
  pidPath : Bytes
  readOnly : Bool
  timeoutSeconds : Int64
  deriving DecidableEq

def absoluteClean (path : Bytes) : Bool := path != [] && rooted path && clean path == path

def privatePath (path : Bytes) : Bool := absoluteClean path && path != [slash]

def formatBool (b : Bool) : Bytes := if b then lit "true" else lit "false"

def ServiceDefinition.validate (d : ServiceDefinition) : Except Error Unit := do
  refuse (d.name != lit "registry" && d.name != lit "fileserver")
    (.definition "%w: unsupported service name %q" [d.name])
  refuse (d.subcommand != d.name)
    (.definition "%w: service name %q does not match subcommand %q" [d.name, d.subcommand])
  refuse (d.haulerExecutable == [] || !rooted d.haulerExecutable)
    (.definition "%w: Hauler executable must be absolute" [])
  refuse (!absoluteClean d.storeDirectory) (.definition "%w: store directory must be absolute and clean" [])
  refuse (!absoluteClean d.overlayDirectory) (.definition "%w: overlay directory must be absolute and clean" [])
  refuse (d.storeDirectory == d.overlayDirectory) (.definition "%w: store and overlay directories must differ" [])
  refuse (!portInRange d.guestPort) (.definition "%w: guest port %d is outside 1..65535" [itoa d.guestPort])
  let wantPath := if d.name = lit "registry" then lit "/v2/" else lit "/"
  refuse (d.readinessPath != wantPath) (.definition "%w: service %q requires readiness path %q" [d.name, wantPath])
  refuse (!privatePath d.logPath) (.definition "%w: log path must be absolute, clean, and private" [])
  refuse (!privatePath d.pidPath) (.definition "%w: pid path must be absolute, clean, and private" [])
  refuse (d.logPath == d.pidPath) (.definition "%w: log and pid paths must differ" [])
  refuse (d.name == lit "fileserver" && !(1 ≤ d.timeoutSeconds && d.timeoutSeconds ≤ 24 * 60 * 60))
    (.definition "%w: fileserver timeout is outside 1..86400" [])

def ServiceDefinition.serveCommand (d : ServiceDefinition) : Command where
  executable := d.haulerExecutable
  argv := [lit "store", lit "--store", d.storeDirectory, lit "serve", d.subcommand,
    lit "--directory", d.overlayDirectory,
    lit "--port", itoa d.guestPort] ++
      if d.name = lit "registry" then [lit "--readonly=" ++ formatBool d.readOnly]
      else [lit "--timeout", itoa d.timeoutSeconds]
  directory := []
  environment := []

def ServiceDefinition.command (d : ServiceDefinition) : Except Error Command := do
  d.validate
  return d.serveCommand

end Definitions

section Rebuilding

variable {d : ServiceDefinition} {service : ServiceSpec} {p : ProcessSpec} {helper child : ProcessStatus}

theorem ne_separator_of_rooted {path : Bytes} (h : rooted path = true) : lit "--" ≠ path := by
  rintro rfl
  exact absurd h (by decide)

theorem digit_ne_dash {n : Nat} {b : UInt8} (h : b ∈ numeral n) : b ≠ 45 := by
  rintro rfl
  exact absurd (digit_of_mem_numeral h).1 (by decide)

theorem itoa_ne_separator (n : Int64) : lit "--" ≠ itoa n := by
  intro h
  rw [itoa] at h
  split_ifs at h
  · have hDash : 45 ∈ numeral n.toInt.toNat := by
      rw [← h]
      decide
    exact digit_ne_dash hDash rfl
  · have hTail : [45] = numeral (-n.toInt).toNat := tail_eq_of_cons_eq h
    have hDash : 45 ∈ numeral (-n.toInt).toNat := by
      rw [← hTail]
      decide
    exact digit_ne_dash hDash rfl

theorem separator_notMem_options (hLog : rooted service.logPath = true) (hPid : rooted service.pidPath = true) :
    lit "--" ∉ pastaOptions service := by
  have hMapping : lit "--" ≠ service.mapping.hostAddress ++ 47 :: itoa service.mapping.hostPort ++ 58 ::
      itoa service.mapping.guestPort := by
    intro h
    have hSlash : (47 : UInt8) ∈ lit "--" := h ▸ by simp
    exact absurd hSlash (by decide)
  simp only [pastaOptions, mem_cons, not_mem_nil, or_false, not_or]
  exact ⟨by decide, by decide, by decide, ne_separator_of_rooted hLog, by decide,
    ne_separator_of_rooted hPid, by decide,
    by decide, by decide, hMapping, by decide, by decide, by decide, by decide, by decide, by decide⟩

theorem separator_notMem_serveCommand (h : d.validate = .ok ()) :
    lit "--" ∉ d.serveCommand.executable :: d.serveCommand.argv := by
  simp only [ServiceDefinition.validate, andThen_eq_ok, refuse_eq_ok, Bool.or_eq_false_iff, Bool.and_eq_false_iff,
    Bool.not_eq_false', bne_eq_false_iff_eq] at h
  obtain ⟨hName, hSubcommand, ⟨-, hExecutable⟩, hStore, hOverlay, -⟩ := h
  have hAbsolute {path : Bytes} (hPath : absoluteClean path = true) : rooted path = true := by
    simp only [absoluteClean, Bool.and_eq_true] at hPath
    exact hPath.1.2
  have hService : lit "--" ≠ d.subcommand := by
    rw [hSubcommand]
    rcases hName with hName | hName <;> rw [hName] <;> decide
  have hLast : lit "--" ∉ if d.name = lit "registry" then [lit "--readonly=" ++ formatBool d.readOnly]
      else [lit "--timeout", itoa d.timeoutSeconds] := by
    split_ifs
    · cases d.readOnly <;> decide
    · simp only [mem_cons, not_mem_nil, or_false, not_or]
      exact ⟨by decide, itoa_ne_separator _⟩
  simp only [ServiceDefinition.serveCommand, mem_cons, mem_append, not_mem_nil, or_false, not_or]
  exact ⟨ne_separator_of_rooted hExecutable,
    ⟨by decide, by decide, ne_separator_of_rooted (hAbsolute hStore), by decide,
    hService, by decide, ne_separator_of_rooted (hAbsolute hOverlay), by decide, itoa_ne_separator _⟩, hLast⟩

structure Accepted (service : ServiceSpec) (p : ProcessSpec) : Prop where
  executable : p.command.executable = service.capability.executable
  absolute : rooted service.capability.executable = true
  argv : p.command.argv = pastaOptions service ++ lit "--" :: service.capability.childContextPrefix ++ service.childArgv
  context : contextPrefixOk service.capability.childContextPrefix = true
  log : rooted service.logPath = true
  pid : rooted service.pidPath = true
  names : service.name ≠ [] ∧ service.launchToken ≠ []
  child : rooted service.child.executable = true ∧ service.child.argv ≠ []

theorem accepted_of_processSpec (h : service.processSpec = .ok p) : Accepted service p := by
  simp only [ServiceSpec.processSpec, buildPastaLoopback, andThen_eq_ok, refuse_eq_ok, Bool.or_eq_false_iff,
    Bool.not_eq_false', beq_eq_false_iff_ne] at h
  obtain ⟨⟨⟨-, hName⟩, hToken⟩, -, ⟨⟨hAbsolute, -⟩, -⟩, -, ⟨⟨hLog, hPid⟩, -⟩, ⟨hExecutable, hArgv⟩, hContext, hSpec⟩ :=
      h
  cases hSpec
  exact ⟨rfl, hAbsolute, rfl, hContext, hLog, hPid, ⟨hName, hToken⟩, hExecutable, hArgv⟩

theorem processSpec_renamed {sessionID launchToken : Bytes} (h : service.processSpec = .ok p)
    (hSession : sessionID ≠ [])
    (hToken : launchToken ≠ []) :
    ServiceSpec.processSpec { service with sessionID := sessionID, launchToken := launchToken } = .ok p := by
  simp only [ServiceSpec.processSpec, andThen_eq_ok, refuse_eq_ok, Bool.or_eq_false_iff, beq_eq_false_iff_ne] at h ⊢
  exact ⟨⟨⟨hSession, h.1.1.2⟩, hToken⟩, h.2⟩

theorem childTail_append {front tail : List Bytes} (hFront : lit "--" ∉ front) (hTail : lit "--" ∉ tail) :
    childTail (front ++ lit "--" :: tail) = .ok tail := by
  have hDrop : (front ++ lit "--" :: tail).dropWhile (· ≠ lit "--") = lit "--" :: tail := by
    rw [dropWhile_append_of_pos fun x hx => by simpa using fun hEq : x = lit "--" => hFront (hEq ▸ hx)]
    exact dropWhile_cons_of_neg (by simp)
  rw [childTail, hDrop]
  exact if_neg hTail

theorem separator_notMem_context {context : List Bytes} (h : contextPrefixOk context = true) : lit "--" ∉ context := by
  match context, h with
  | [], _ => exact not_mem_nil
  | [runcon, option, type], h =>
    simp only [contextPrefixOk, Bool.and_eq_true, beq_iff_eq] at h
    obtain ⟨⟨hRuncon, rfl⟩, rfl⟩ := h
    simp only [mem_cons, not_mem_nil, or_false, not_or]
    exact ⟨ne_separator_of_rooted hRuncon, by decide, by decide⟩

theorem Accepted.childTail (h : Accepted service p) (hSeparator : lit "--" ∉ service.childArgv) :
    childTail p.argv = .ok (service.capability.childContextPrefix ++ service.childArgv) := by
  have hArgv : p.argv = (service.capability.executable :: pastaOptions service) ++
      lit "--" :: (service.capability.childContextPrefix ++ service.childArgv) := by
    rw [ProcessSpec.argv, h.executable, h.argv]
    simp
  rw [hArgv]
  refine childTail_append ?_ ?_
  · rw [mem_cons, not_or]
    exact ⟨ne_separator_of_rooted h.absolute, separator_notMem_options h.log h.pid⟩
  · rw [mem_append, not_or]
    exact ⟨separator_notMem_context h.context, hSeparator⟩

theorem recordedChildContextPrefix_unitRecord (h : Accepted service p) (hHelper : helper.argv = p.argv)
    (hChild : child.argv = service.childArgv) (hSeparator : lit "--" ∉ service.childArgv) :
    recordedChildContextPrefix (unitRecord service helper child) = .ok service.capability.childContextPrefix := by
  have hHelperArgv : (unitRecord service helper child).helper.argv = some p.argv := by
    simp [unitRecord, processRecord, hHelper, ProcessSpec.argv]
  have hChildArgv : (unitRecord service helper child).child.argv = some service.childArgv := by
    simp [unitRecord, processRecord, hChild, ServiceSpec.childArgv]
  rw [recordedChildContextPrefix, hHelperArgv, hChildArgv, Option.getD_some, h.childTail hSeparator]
  have hContext := h.context
  generalize service.capability.childContextPrefix = context at hContext
  match context, hContext with
  | [], _ => exact if_pos rfl
  | [runcon, option, type], hContext =>
    have hLonger : ¬ some ([runcon, option, type] ++ service.childArgv) = some service.childArgv := by
      intro hSame
      have hLength := congrArg List.length (Option.some.inj hSame)
      simp only [length_append, length_cons] at hLength
      omega
    have hPrefix : ([runcon, option, type] ++ service.childArgv).length = service.childArgv.length + 3 ∧
        contextPrefixOk [runcon, option, type] = true ∧ some service.childArgv = some service.childArgv :=
      ⟨by rw [length_append, Nat.add_comm]; rfl, hContext, rfl⟩
    exact (if_neg hLonger).trans (if_pos hPrefix)

theorem serviceSpecFromRecord_unitRecord (h : Accepted service p) (hHelper : helper.argv = p.argv)
    (hChild : child.argv = service.childArgv) (hSeparator : lit "--" ∉ service.childArgv)
    (hPlain : service.child.directory = [] ∧ service.child.environment = []) :
    serviceSpecFromRecord (unitRecord service helper child) =
      .ok { service with sessionID := lit "observed-" ++ service.name } := by
  have hChildArgv : (unitRecord service helper child).child.argv = some service.childArgv := by
    simp [unitRecord, processRecord, hChild, ServiceSpec.childArgv]
  have hExecutable : service.child.executable ≠ [] := by
    intro hEmpty
    have hRooted := h.child.1
    rw [hEmpty] at hRooted
    exact absurd hRooted (by decide)
  have hComplete : ((unitRecord service helper child).name == [] ||
      (unitRecord service helper child).launchToken == [] ||
      (unitRecord service helper child).child.desiredExecutable == [] || service.childArgv.length < 2 ||
      service.childArgv.head? != some (unitRecord service helper child).child.desiredExecutable ||
      (unitRecord service helper child).helper.desiredExecutable !=
      (unitRecord service helper child).confinement.executable) =
        false := by
    simp [unitRecord, processRecord, ServiceSpec.childArgv, h.names, hExecutable, h.child.2]
  rw [serviceSpecFromRecord, hChildArgv, Option.getD_some, refuse, hComplete,
    recordedChildContextPrefix_unitRecord h hHelper hChild hSeparator]
  obtain ⟨sessionID, name, launchToken, capability, mapping, logPath, pidPath, executable, argv,
      directory, environment⟩ := service
  obtain ⟨rfl, rfl⟩ := hPlain
  rfl

variable {around : Surroundings} {record : ServiceUnitRecord}

theorem observe_eq_ok (h : observe around service helper = .ok record) :
    ∃ child evidence, around.children helper.identity = .ok [child] ∧ childFits service helper child = true ∧
      around.ready service.name service.mapping helper child = .ok evidence ∧ evidence.childNetNS = child.netNS ∧
      record = unitRecord service helper child := by
  obtain ⟨children, hChildren, h⟩ := bind_eq_ok.mp h
  match children, h with
  | [child], h =>
    simp only [andThen_eq_ok, refuse_eq_ok, Bool.not_eq_false'] at h
    obtain ⟨hFits, h⟩ := h
    obtain ⟨evidence, hReady, h⟩ := bind_eq_ok.mp h
    simp only [andThen_eq_ok, refuse_eq_ok, bne_eq_false_iff_eq] at h
    cases h.2
    exact ⟨child, evidence, hChildren, hFits, hReady, h.1, rfl⟩

theorem observe_renamed {sessionID : Bytes} :
    observe around { service with sessionID := sessionID } helper = observe around service helper := rfl

theorem argv_of_validateHelper (h : validateHelper p helper = .ok ()) :
    helper.running = true ∧ helper.argv = p.argv := by
  simp only [validateHelper, refuse_eq_ok, Bool.or_eq_false_iff, Bool.not_eq_false', bne_eq_false_iff_eq] at h
  exact ⟨h.1.1.1.1, h.2⟩

/-- The record of a started unit gives back what it was started with: observing it accepts the
running unit, and a restart launches the same command under its own token. -/
theorem record_rebuilds_launch (hDefinition : d.command = .ok service.child) (hSpec : service.processSpec = .ok p)
    (hHelper : validateHelper p helper = .ok ()) (hRecord : observe around service helper = .ok record)
    (hInspect : around.inspect helper.identity = .ok helper) :
    (∃ rebuilt, serviceSpecFromRecord record = .ok rebuilt ∧ rebuilt.processSpec = .ok p ∧
      rebuilt.child = service.child) ∧
      observeRecord around record = .ok ⟨.live, record⟩ ∧
      ∀ sessionID launchToken, sessionID ≠ [] → launchToken ≠ [] → ∃ restarted,
        restartSpec record sessionID launchToken = .ok restarted ∧ restarted.processSpec = .ok p ∧
          restarted = { service with sessionID := sessionID, launchToken := launchToken } := by
  obtain ⟨child, evidence, -, hFits, -, -, hUnit⟩ := observe_eq_ok hRecord
  obtain ⟨hRunning, hHelperArgv⟩ := argv_of_validateHelper hHelper
  have hAccepted := accepted_of_processSpec hSpec
  have hChildArgv : child.argv = service.childArgv := by
    simp only [childFits, Bool.and_eq_true, beq_iff_eq] at hFits
    exact hFits.1.1.1.1.2
  obtain ⟨_, hValid, hCommand⟩ := bind_eq_ok.mp hDefinition
  have hServe : d.serveCommand = service.child := Except.ok.inj hCommand
  have hSeparator : lit "--" ∉ service.childArgv := by
    rw [ServiceSpec.childArgv, ← hServe]
    exact separator_notMem_serveCommand hValid
  have hRebuilt : serviceSpecFromRecord record = .ok { service with sessionID := lit "observed-" ++ service.name } :=
    hUnit ▸ serviceSpecFromRecord_unitRecord hAccepted hHelperArgv hChildArgv hSeparator (hServe ▸ ⟨rfl, rfl⟩)
  have hObserved : lit "observed-" ++ service.name ≠ [] := by
    intro hEmpty
    exact absurd (append_eq_nil_iff.mp hEmpty).1 (by decide)
  have hSame : ServiceSpec.processSpec { service with sessionID := lit "observed-" ++ service.name } = .ok p :=
    processSpec_renamed hSpec hObserved hAccepted.names.2
  have hIdentity : record.helper.identity = helper.identity := by rw [hUnit]; rfl
  refine ⟨⟨_, hRebuilt, hSame, rfl⟩, ?_, ?_⟩
  · rw [observeRecord, hRebuilt]
    show (around.inspect record.helper.identity >>= _) = _
    rw [hIdentity, hInspect]
    simp only [bind, Except.bind, hRunning, hSame, hHelper, observe_renamed, hRecord,
      hIdentity, refuse, bne_self_eq_false,
      Bool.or_self, Bool.not_true, Bool.false_eq_true, if_false, pure, Except.pure]
  · intro sessionID launchToken hSession hToken
    refine ⟨_, by rw [restartSpec, hRebuilt]; rfl, ?_, rfl⟩
    exact processSpec_renamed hSpec hSession hToken

section Sample

def sampleDefinition : ServiceDefinition where
  name := lit "registry"
  subcommand := lit "registry"
  haulerExecutable := lit "/opt/hauler"
  storeDirectory := lit "/run/store"
  overlayDirectory := lit "/run/overlay"
  guestPort := 5000
  readinessPath := lit "/v2/"
  logPath := lit "/run/registry.log"
  pidPath := lit "/run/registry.pid"
  readOnly := false
  timeoutSeconds := 0

def sampleService : ServiceSpec where
  sessionID := lit "s1"
  name := lit "registry"
  launchToken := lit "s1-registry-initial"
  capability := ⟨lit "/usr/bin/pasta", lit "1", lit "f", lit "b", [lit "/usr/bin/runcon", lit "-t", lit "unconfined_t"]⟩
  mapping := ⟨lit "127.0.0.1", 41000, 5000⟩
  logPath := lit "/run/registry.log"
  pidPath := lit "/run/registry.pid"
  child := sampleDefinition.serveCommand

def sampleHelper : ProcessStatus where
  identity := ⟨10, lit "boot", 1⟩
  running := true
  executable := lit "/usr/bin/pasta"
  argv := lit "/usr/bin/pasta" :: pastaOptions sampleService ++ lit "--" ::
    sampleService.capability.childContextPrefix ++
    sampleService.childArgv
  parentPID := 1
  pgid := 10
  sid := 10
  netNS := lit "net:[1]"

def sampleChild : ProcessStatus where
  identity := ⟨11, lit "boot", 2⟩
  running := true
  executable := lit "/opt/hauler"
  argv := sampleService.childArgv
  parentPID := 10
  pgid := 10
  sid := 10
  netNS := lit "net:[2]"

def sampleSurroundings : Surroundings where
  inspect _ := .ok sampleHelper
  children _ := .ok [sampleChild]
  ready _ _ _ child := .ok ⟨lit "127.0.0.1:41000", lit "127.0.0.1:5000", child.netNS⟩
  stopped _ := .ok ()

theorem sample_record_rebuilds : ∃ record, observe sampleSurroundings sampleService sampleHelper = .ok record ∧
    observeRecord sampleSurroundings record = .ok ⟨.live, record⟩ ∧
      ∃ restarted, restartSpec record (lit "s1") (lit "t2") = .ok restarted ∧
      restarted.child = sampleService.child := by
  have hDefinition : sampleDefinition.command = .ok sampleService.child := by decide
  have hSpec : sampleService.processSpec = .ok ⟨⟨lit "/usr/bin/pasta", sampleHelper.argv.tail, [], []⟩, true,
      lit "/run/registry.log"⟩ := by decide
  have hHelper : validateHelper ⟨⟨lit "/usr/bin/pasta", sampleHelper.argv.tail, [], []⟩, true, lit "/run/registry.log"⟩
      sampleHelper = .ok () := by decide
  have hRecord : observe sampleSurroundings sampleService sampleHelper =
      .ok (unitRecord sampleService sampleHelper sampleChild) :=
    rfl
  obtain ⟨-, hObserved, hRestart⟩ := record_rebuilds_launch hDefinition hSpec hHelper hRecord rfl
  obtain ⟨restarted, hRestarted, -, rfl⟩ := hRestart (lit "s1") (lit "t2") (by decide) (by decide)
  exact ⟨_, hRecord, hObserved, _, hRestarted, rfl⟩

end Sample

end Rebuilding

end Camp.Supervisor
