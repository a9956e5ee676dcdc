import Camp.SshTransfer.Commands
import Mathlib.Logic.Function.Basic

/-!
# Mirrors of a remote workspace

A mirror request is served by rsync, or by tar where rsync cannot be started. Each of them gets a
directory of its own in the staging root. What the processes do, and which calls of the file
system fail, is up to the request's surroundings.
-/

namespace Camp.Workspace

open Wire Wire.Utf8 Program.Paths Program.Checks SshTransfer List Function

section Transfers

inductive Method where
  | rsync
  | tarPipe
  deriving DecidableEq

structure Result where
  exitCode : Int
  stdout : Bytes
  stderr : Bytes
  deriving DecidableEq

structure TransferAttempt where
  method : Method
  producerStarted : Bool
  consumerStarted : Bool
  unavailable : Bool
  producer : Result
  consumer : Result
  err : Option String
  deriving DecidableEq

inductive FailureKind where
  | notStarted
  | part
  deriving DecidableEq

structure TransferFailure where
  method : Method
  kind : FailureKind
  unavailable : Bool
  producer : Result
  consumer : Result
  cause : String
  deriving DecidableEq

structure TransferResult where
  method : Method
  producer : Result
  consumer : Result
  deriving DecidableEq

/-- The process that writes into the destination has run. -/
def TransferAttempt.started (attempt : TransferAttempt) : Bool :=
  match attempt.method with
  | .rsync => attempt.producerStarted
  | .tarPipe => attempt.consumerStarted

def TransferAttempt.cause (attempt : TransferAttempt) : Option String :=
  if attempt.err ≠ none then attempt.err
  else if attempt.producer.exitCode ≠ 0 then some "producer exited with status %d"
  else if attempt.method = .tarPipe ∧ attempt.consumer.exitCode ≠ 0 then some "consumer exited with status %d"
  else if !attempt.producerStarted || attempt.method = .tarPipe && !attempt.consumerStarted then
    some "transfer did not start completely"
  else none

def classifyTransfer (attempt : TransferAttempt) : Except TransferFailure TransferResult :=
  match attempt.cause with
  | some cause => .error ⟨attempt.method, if attempt.started then .part else .notStarted,
      attempt.unavailable && !attempt.started, attempt.producer, attempt.consumer, cause⟩
  | none => .ok ⟨attempt.method, attempt.producer, attempt.consumer⟩

def tarFallbackAllowed (failure : TransferFailure) : Bool :=
  failure.method = .rsync && failure.kind = .notStarted && failure.unavailable

/-- The start of a process fails, or it ends with a code and an error, or without. -/
inductive Launch where
  | failed (missing : Bool) (text : String)
  | ran (stdout stderr : Bytes) (err : Option (Int × String))
  deriving DecidableEq

def noResult : Result := ⟨0, [], []⟩

def Launch.result : Launch → Result
  | .failed _ _ => noResult
  | .ran stdout stderr err => ⟨err.elim 0 (·.1), stdout, stderr⟩

def Launch.err : Launch → Option String
  | .failed _ text => some text
  | .ran _ _ err => err.map (·.2)

def Launch.started : Launch → Bool
  | .failed _ _ => false
  | .ran _ _ _ => true

def Launch.missing : Launch → Bool
  | .failed missing _ => missing
  | .ran _ _ _ => false

/-- `cancelled` is the error of the context when the processes have ended. -/
def runRsync (rsync : Launch) (cancelled : Option String) : TransferAttempt :=
  ⟨.rsync, rsync.started, false, rsync.missing, rsync.result, noResult,
    if rsync.started then cancelled.or rsync.err else rsync.err⟩

def runTarPipeline (pipe : Option String) (producer consumer : Launch) (cancelled : Option String) : TransferAttempt :=
  if pipe ≠ none then ⟨.tarPipe, false, false, false, noResult, noResult, pipe⟩
  else if !producer.started then ⟨.tarPipe, false, false, producer.missing, noResult, noResult, producer.err⟩
  else if !consumer.started then ⟨.tarPipe, true, false, consumer.missing, producer.result, noResult, consumer.err⟩
  else ⟨.tarPipe, true, true, false, producer.result, consumer.result, cancelled.or (producer.err.or consumer.err)⟩

end Transfers

section Model

structure MirrorRequest where
  provider : Bytes
  localProvider : Bool
  stagingRoot : Bytes
  workspaceID : Bytes
  context : Bytes
  attemptID : Bytes
  deriving DecidableEq

structure MirrorResult where
  root : Bytes
  attemptID : Bytes
  method : Method
  remoteRoot : Bytes
  deriving DecidableEq

/-- The parts of a joined error. -/
inductive Cause where
  | message (text : String)
  | transfer (failure : TransferFailure)
  | unknown (result : MirrorResult) (failure : TransferFailure)
  | discard (root : Bytes) (text : String)
  deriving DecidableEq

structure RemoteConfig where
  workspaceID : Bytes
  context : Bytes
  rsyncExecutable : Bytes
  sshExecutable : Bytes
  devPodExecutable : Bytes
  tarExecutable : Bytes
  deriving DecidableEq

/-- `tar` says that there is something to run a pipeline with; without rsync it is called unchecked. -/
structure Remote where
  config : RemoteConfig
  root : Bytes
  tar : Bool
  tar_of_no_rsync : config.rsyncExecutable = [] → tar = true

/-- The remote of one workspace, or a remote that takes the workspace from each request. -/
inductive Transport where
  | remote (remote : Remote)
  | requestBound (remote : Remote)

def Remote.bound (remote : Remote) (request : MirrorRequest) : Remote where
  config := { remote.config with workspaceID := request.workspaceID, context := request.context }
  root := remote.root
  tar := remote.tar
  tar_of_no_rsync := remote.tar_of_no_rsync

def Transport.remoteFor : Transport → MirrorRequest → Remote
  | .remote r, _ => r
  | .requestBound r, request => r.bound request

inductive Node where
  | dir (entries : List Bytes)
  | other
  deriving DecidableEq

inductive Event where
  | created (root : Bytes)
  | ran (attempt : TransferAttempt) (root : Bytes) (before : Option Node)
  | discarded (root : Bytes)
  deriving DecidableEq

structure World where
  nodes : Bytes → Option Node
  log : List Event

/-- Errors of the calls around a transfer, and what its processes leave in the destination. -/
structure Around where
  cancelled : Option String
  mkdirAll : Option String
  mkdir : Option String
  leaves : Option Node
  lstat : Option String
  removeAll : Option String

/-- What happens around a request. `ended` is the error of the context after the processes. -/
structure Surroundings where
  cancelled : Option String
  resolve : Except String Bytes
  rsync : Command → Launch
  pipe : Option String
  producer : Command → Launch
  consumer : Command → Launch
  ended : Option String
  around : Method → Around

/-- The expression `^[A-Za-z0-9][A-Za-z0-9_.-]*$`. -/
def mirrorAttemptPattern : Bytes → Bool
  | [] => false
  | b :: rest => alphanumeric b && rest.all fun b => alphanumeric b || b == 95 || b == 46 || b == 45

def fail (w : World) (error : Option String) (next : Except Cause Bytes × World) : Except Cause Bytes × World :=
  error.elim next fun text => (.error (.message text), w)

def fresh (root : Bytes) (a : Around) (requestedRoot attemptID : Bytes) (w : World) : Except Cause Bytes × World :=
  fail w a.cancelled <|
    if !rooted root || !rooted requestedRoot || !mirrorAttemptPattern attemptID then
      (.error (.message "remote mirror staging identity is invalid"), w)
    else
      fail w a.mkdirAll <|
        let destination := join [root, attemptID]
        if w.nodes destination ≠ none then (.error (.message "file exists"), w)
        else
          fail w a.mkdir
            (.ok destination, ⟨update w.nodes destination (some (.dir [])), w.log ++ [.created destination]⟩)

def discard (root : Bytes) (a : Around) (destination : Bytes) (w : World) : Option Cause × World :=
  if dir destination ≠ root ∨ mirrorAttemptPattern (base destination) = false then
    (some (.discard destination "remote mirror discard identity is invalid"), w)
  else
    match a.lstat with
    | some text => (some (.discard destination text), w)
    | none =>
      match w.nodes destination with
      | none => (none, w)
      | some .other => (some (.discard destination "remote mirror staging root is not an owned directory"), w)
      | some (.dir _) =>
        match a.removeAll with
        | some text => (some (.discard destination text), w)
        | none => (none, ⟨update w.nodes destination none, w.log ++ [.discarded destination]⟩)

/-- The processes run. Where the one that writes has started, anything may be in the destination. -/
def World.run (w : World) (attempt : TransferAttempt) (destination : Bytes) (leaves : Option Node) : World :=
  ⟨if attempt.started then update w.nodes destination leaves else w.nodes,
    w.log ++ [.ran attempt destination (w.nodes destination)]⟩

/-- What became of one transfer. -/
inductive Leg where
  | refused (causes : List Cause)
  | failed (failure : TransferFailure) (discard : Option Cause)
  | part (failure : TransferFailure) (result : MirrorResult)
  | done (result : MirrorResult)
  deriving DecidableEq

/-- A transfer into a directory of its own. -/
def transfer (root : Bytes) (a : Around) (method : Method) (request : MirrorRequest) (remoteRoot attemptID : Bytes)
    (attempt : Bytes → Except String TransferAttempt) (w : World) : Leg × World :=
  match fresh root a request.stagingRoot attemptID w with
  | (.error cause, w) => (.refused [cause], w)
  | (.ok destination, w) =>
    match attempt destination with
    | .error text =>
      let (failed, w) := discard root a destination w
      (.refused (.message text :: failed.toList), w)
    | .ok attempt =>
      let w := w.run attempt destination a.leaves
      match classifyTransfer attempt with
      | .ok _ => (.done ⟨destination, attemptID, method, remoteRoot⟩, w)
      | .error failure =>
        if failure.kind = .part then (.part failure ⟨destination, attemptID, method, remoteRoot⟩, w)
        else
          let (failed, w) := discard root a destination w
          (.failed failure failed, w)

variable (remote : Remote) (s : Surroundings) (request : MirrorRequest)

def rsyncAttempt (remoteRoot destination : Bytes) : Except String TransferAttempt :=
  (buildRsyncMirror ⟨remote.config.rsyncExecutable, request.workspaceID, remoteRoot, destination⟩).map fun command =>
    runRsync (s.rsync command) s.ended

def tarAttempt (remoteRoot destination : Bytes) : Except String TransferAttempt :=
  (buildTarPipe ⟨remote.config.sshExecutable, remote.config.devPodExecutable, request.context,
    remote.config.tarExecutable, request.workspaceID, remoteRoot, destination⟩).map fun pipe =>
      runTarPipeline s.pipe (s.producer pipe.producer) (s.consumer pipe.consumer) s.ended

def returnWithTar (_ : remote.tar = true) (remoteRoot : Bytes) (w : World) : Except (List Cause) MirrorResult × World :=
  match transfer remote.root (s.around .tarPipe) .tarPipe request remoteRoot (request.attemptID ++ lit "-tar")
      (tarAttempt remote s request remoteRoot) w with
  | (.refused causes, w) => (.error causes, w)
  | (.failed failure failed, w) => (.error (.transfer failure :: failed.toList), w)
  | (.part failure result, w) => (.error [.unknown result failure], w)
  | (.done result, w) => (.ok result, w)

def validate : Except (List Cause) Unit := do
  refuse (request.localProvider || request.provider == [] || request.stagingRoot == [] || request.attemptID == [] ||
    request.workspaceID == []) [.message "workspace is not a remote DevPod mirror"]
  refuse (request.workspaceID != remote.config.workspaceID || request.context != remote.config.context)
    [.message "persisted remote workspace identity does not match transport composition"]

def returnWithRsync (remoteRoot : Bytes) (w : World) : Except (List Cause) MirrorResult × World :=
  match transfer remote.root (s.around .rsync) .rsync request remoteRoot (request.attemptID ++ lit "-rsync")
      (rsyncAttempt remote s request remoteRoot) w with
  | (.refused causes, w) => (.error causes, w)
  | (.part failure result, w) => (.error [.unknown result failure], w)
  | (.done result, w) => (.ok result, w)
  | (.failed failure (some cause), w) => (.error [.transfer failure, cause], w)
  | (.failed failure none, w) =>
    if !tarFallbackAllowed failure then (.error [.transfer failure], w)
    else if hTar : remote.tar = false then
      (.error [.transfer failure, .message "workspace transport is unavailable"], w)
    else
      match returnWithTar remote s request (Bool.eq_true_of_not_eq_false hTar) remoteRoot w with
      | (.error causes, w) => (.error (.transfer failure :: causes), w)
      | (.ok result, w) => (.ok result, w)

def returnToStaging (w : World) : Except (List Cause) MirrorResult × World :=
  match s.cancelled, validate remote request, s.resolve with
  | some text, _, _ => (.error [.message text], w)
  | none, .error causes, _ => (.error causes, w)
  | none, .ok (), .error text => (.error [.message text], w)
  | none, .ok (), .ok remoteRoot =>
    if h : remote.config.rsyncExecutable = [] then returnWithTar remote s request
      (remote.tar_of_no_rsync h) remoteRoot w
    else returnWithRsync remote s request remoteRoot w

/-- A request with what it was served. -/
structure Served where
  result : Except (List Cause) MirrorResult
  events : List Event
  after : World

/-- Requests one after the other, each in its own surroundings. -/
def serve (transport : Transport) : List (Surroundings × MirrorRequest) → World → List Served
  | [], _ => []
  | (s, request) :: rest, w =>
    let (result, after) := returnToStaging (transport.remoteFor request) s request w
    ⟨result, after.log.drop w.log.length, after⟩ :: serve transport rest after

end Model

section Legs

variable {attemptID : Bytes}

/-- Every transfer directly follows the creation of its directory, which is empty then. -/
def Tidy : List Event → Prop
  | [] => True
  | .created root :: .ran _ root' before :: es => root' = root ∧ before = some (.dir []) ∧ Tidy es
  | .ran _ _ _ :: _ => False
  | .created _ :: es => Tidy es
  | .discarded _ :: es => Tidy es

theorem Tidy.append {es es' : List Event} (h : Tidy es) (h' : Tidy es') : Tidy (es ++ es') := by
  fun_induction Tidy es with
  | case1 => exact h'
  | case2 root attempt root' before es ih => exact ⟨h.1, h.2.1, ih h.2.2⟩
  | case3 => exact h.elim
  | case4 root es hNext ih =>
    have hRest := ih h
    cases es with
    | nil =>
      cases es' with
      | nil => trivial
      | cons e es' => cases e <;> first | exact hRest | exact h'.elim
    | cons e es => cases e <;> first | exact hRest | exact absurd rfl (hNext _ _ _ _)
  | case5 root es ih => exact ih h

variable {root d : Bytes} {a : Around} {w w' : World}

theorem fresh_cases {requestedRoot : Bytes} {r : Except Cause Bytes}
    (h : fresh root a requestedRoot attemptID w = (r, w')) :
    (∃ cause, r = .error cause ∧ w' = w) ∨
      ∃ d, r = .ok d ∧ w' = ⟨update w.nodes d (some (.dir [])), w.log ++ [.created d]⟩ := by
  have hFail {error : Option String} {next : Except Cause Bytes × World} (h : fail w error next = (r, w')) :
      (∃ cause, r = .error cause ∧ w' = w) ∨ next = (r, w') := by
    cases error with
    | none => exact .inr h
    | some text =>
      cases h
      exact .inl ⟨_, rfl, rfl⟩
  obtain hEnd | h := hFail h
  · exact .inl hEnd
  split_ifs at h
  · cases h
    exact .inl ⟨_, rfl, rfl⟩
  obtain hEnd | h := hFail h
  · exact .inl hEnd
  dsimp only at h
  split_ifs at h
  · cases h
    exact .inl ⟨_, rfl, rfl⟩
  obtain hEnd | h := hFail h
  · exact .inl hEnd
  · cases h
    exact .inr ⟨_, rfl, rfl⟩

theorem discard_spec {r : Option Cause} (h : discard root a d w = (r, w')) :
    ∃ rest, rest ⊆ [.discarded d] ∧ w'.log = w.log ++ rest ∧ (∀ e ≠ d, w'.nodes e = w.nodes e) ∧
      (r = none ∧ w'.nodes d = none ∨ ∃ text, r = some (.discard d text)) := by
  have hKept (hSame : w' = w) : ([] : List Event) ⊆ [.discarded d] ∧ w'.log = w.log ++ [] ∧
      ∀ e ≠ d, w'.nodes e = w.nodes e := by
    rw [hSame]
    exact ⟨nil_subset _, (append_nil _).symm, fun _ _ => rfl⟩
  unfold discard at h
  split at h
  · cases h
    exact ⟨[], (hKept rfl).1, (hKept rfl).2.1, (hKept rfl).2.2, .inr ⟨_, rfl⟩⟩
  split at h
  · cases h
    exact ⟨[], (hKept rfl).1, (hKept rfl).2.1, (hKept rfl).2.2, .inr ⟨_, rfl⟩⟩
  split at h
  · rename_i hNode
    cases h
    exact ⟨[], (hKept rfl).1, (hKept rfl).2.1, (hKept rfl).2.2, .inl ⟨rfl, hNode⟩⟩
  · cases h
    exact ⟨[], (hKept rfl).1, (hKept rfl).2.1, (hKept rfl).2.2, .inr ⟨_, rfl⟩⟩
  · split at h
    · cases h
      exact ⟨[], (hKept rfl).1, (hKept rfl).2.1, (hKept rfl).2.2, .inr ⟨_, rfl⟩⟩
    · cases h
      exact ⟨_, List.Subset.refl _, rfl, fun e he => update_of_ne he .., .inl ⟨rfl, update_self ..⟩⟩

theorem tidy_discarded {rest : List Event} (h : rest ⊆ [.discarded d]) : Tidy rest := by
  induction rest with
  | nil => trivial
  | cons e rest ih =>
    obtain ⟨hFirst, hRest⟩ := cons_subset.mp h
    cases mem_singleton.mp hFirst
    exact ih hRest

/-- What a transfer logs and leaves behind. -/
def Leg.Spec (method : Method) (es : List Event) (nodes : Bytes → Option Node) : Leg → Prop
  | .refused causes => Tidy es ∧ (∀ attempt root before, .ran attempt root before ∉ es) ∧
      ∀ d, .created d ∈ es → nodes d = none ∨ ∃ text, .discard d text ∈ causes
  | .failed failure discard => ∃ d attempt rest, es = .created d :: .ran attempt d (some (.dir [])) :: rest ∧
      rest ⊆ [.discarded d] ∧ attempt.method = method ∧ attempt.started = false ∧
      classifyTransfer attempt = .error failure ∧
        (discard = none ∧ nodes d = none ∨ ∃ text, discard = some (.discard d text))
  | .part failure result => ∃ attempt, es = [.created result.root, .ran attempt result.root (some (.dir []))] ∧
      attempt.method = method ∧ classifyTransfer attempt = .error failure
  | .done result => ∃ attempt transferred, es = [.created result.root, .ran attempt result.root (some (.dir []))] ∧
      attempt.method = method ∧ classifyTransfer attempt = .ok transferred

theorem started_of_classify {attempt : TransferAttempt} {failure : TransferFailure}
    (h : classifyTransfer attempt = .error failure) : (failure.kind = .part ↔ attempt.started = true) ∧
      (failure.unavailable = true → attempt.started = false) ∧ failure.method = attempt.method := by
  unfold classifyTransfer at h
  split at h
  · cases h
    cases attempt.started <;> simp
  · cases h

theorem transfer_spec {method : Method} {request : MirrorRequest} {remoteRoot : Bytes}
    {attempt : Bytes → Except String TransferAttempt} {leg : Leg}
    (h : transfer root a method request remoteRoot attemptID attempt w = (leg, w'))
    (hMethod : ∀ d t, attempt d = .ok t → t.method = method) :
    ∃ es, w'.log = w.log ++ es ∧ (∀ d, .created d ∉ es → w'.nodes d = w.nodes d) ∧ leg.Spec method es w'.nodes := by
  unfold transfer at h
  cases hFresh : fresh root a request.stagingRoot attemptID w with
  | mk created w₁ =>
    rw [hFresh] at h
    obtain ⟨cause, rfl, rfl⟩ | ⟨d, rfl, rfl⟩ := fresh_cases hFresh
    · cases h
      exact ⟨[], by simp, fun _ _ => rfl, trivial, by simp, by simp⟩
    · dsimp only at h
      split at h
      · -- the command cannot be built
        cases hDiscard : discard root a d ⟨update w.nodes d (some (.dir [])), w.log ++ [.created d]⟩ with
        | mk failed w₂ =>
          rw [hDiscard] at h
          cases h
          obtain ⟨rest, hRest, hLog, hOthers, hEnd⟩ := discard_spec hDiscard
          have hTidy : Tidy ([.created d] ++ rest) := Tidy.append trivial (tidy_discarded hRest)
          refine ⟨[.created d] ++ rest, by simpa using hLog, ?_, hTidy, ?_, ?_⟩
          · intro e he
            have hNe : e ≠ d := fun hEq => he (by simp [hEq])
            exact (hOthers e hNe).trans (update_of_ne hNe ..)
          · intro attempt root before hMem
            rcases mem_append.mp hMem with hMem | hMem
            · simp at hMem
            · simpa using hRest hMem
          · intro e he
            have hEq : e = d := by
              rcases mem_append.mp he with he | he
              · simpa using he
              · simpa using hRest he
            subst hEq
            rcases hEnd with ⟨-, hGone⟩ | ⟨text, rfl⟩
            · exact .inl hGone
            · exact .inr ⟨text, by simp⟩
      · rename_i t hAttempt
        have hRun : World.run ⟨update w.nodes d (some (.dir [])), w.log ++ [.created d]⟩ t d a.leaves =
            ⟨if t.started then update w.nodes d a.leaves else update w.nodes d (some (.dir [])),
              w.log ++ [.created d, .ran t d (some (.dir []))]⟩ := by
          simp [World.run]
        have hOthers (e : Bytes) (hNe : e ≠ d) : (if t.started then update w.nodes d a.leaves
            else update w.nodes d (some (.dir []))) e = w.nodes e := by
          split_ifs <;> exact update_of_ne hNe ..
        have hOnly (e : Bytes) (he : .created e ∉ [Event.created d, .ran t d (some (.dir []))]) : e ≠ d :=
          fun hEq => he (by simp [hEq])
        rw [hRun] at h
        split at h
        · rename_i transferred hDone
          cases h
          exact ⟨_, rfl, fun e he => hOthers e (hOnly e he), t, transferred, rfl, hMethod d t hAttempt, hDone⟩
        · rename_i failure hFailed
          obtain ⟨hPart, -, -⟩ := started_of_classify hFailed
          split at h
          · cases h
            exact ⟨_, rfl, fun e he => hOthers e (hOnly e he), t, rfl, hMethod d t hAttempt, hFailed⟩
          · rename_i hKind
            have hIdle : t.started = false := by simpa using mt hPart.mpr hKind
            cases hDiscard : discard root a d ⟨if t.started then update w.nodes d a.leaves
                else update w.nodes d (some (.dir [])), w.log ++ [.created d, .ran t d (some (.dir []))]⟩ with
            | mk failed w₂ =>
              rw [hDiscard] at h
              cases h
              obtain ⟨rest, hRest, hLog, hAround, hEnd⟩ := discard_spec hDiscard
              refine ⟨.created d :: .ran t d (some (.dir [])) :: rest, by simpa using hLog, ?_, d, t, rest, rfl, hRest,
                hMethod d t hAttempt, hIdle, hFailed, hEnd⟩
              intro e he
              have hNe : e ≠ d := fun hEq => he (by simp [hEq])
              exact (hAround e hNe).trans (hOthers e hNe)

end Legs

section Mirrors

variable {d : Bytes} {t : TransferAttempt} {rest es : List Event} {nodes : Bytes → Option Node}
variable {attempt : TransferAttempt} {root remoteRoot : Bytes} {node : Option Node}

/-- What a served request may have done. -/
structure Sound (r : Except (List Cause) MirrorResult) (es : List Event) (nodes : Bytes → Option Node) : Prop where
  tidy : Tidy es
  /-- The fallback runs only where rsync has not started. -/
  fallback : ∀ attempt root before attempt' root' before', .ran attempt root before ∈ es →
    .ran attempt' root' before' ∈ es → attempt.method = .rsync → attempt'.method = .tarPipe → attempt.started = false
  /-- A transfer that may have written is a success as such, or an unknown outcome with its directory. -/
  reported : ∀ attempt root before, .ran attempt root before ∈ es → attempt.started = true →
    (∃ transferred result, classifyTransfer attempt = .ok transferred ∧ r = .ok result ∧ result.root = root) ∨
      ∃ failure result causes, classifyTransfer attempt = .error failure ∧ r = .error causes ∧
        .unknown result failure ∈ causes ∧ result.root = root
  succeeded : ∀ result, r = .ok result → ∃ attempt before transferred, .ran attempt result.root before ∈ es ∧
    attempt.started = true ∧ classifyTransfer attempt = .ok transferred
  /-- After any other failure nothing is left, or the error says so. -/
  discarded : ∀ causes, r = .error causes → ∀ root, .created root ∈ es → nodes root = none ∨
    (∃ result failure, .unknown result failure ∈ causes ∧ result.root = root) ∨ ∃ text, .discard root text ∈ causes

variable {remote : Remote} {s : Surroundings} {request : MirrorRequest} {w w' : World}
  {r : Except (List Cause) MirrorResult}

theorem started_of_classify_ok {transferred : TransferResult} (h : classifyTransfer attempt = .ok transferred) :
    attempt.started = true := by
  have hCause : attempt.cause = none := by
    unfold classifyTransfer at h
    split at h
    · cases h
    · assumption
  unfold TransferAttempt.cause at hCause
  unfold TransferAttempt.started
  split_ifs at hCause with _ _ _ hStarted
  · contradiction
  · cases hMethod : attempt.method <;> simp_all

/-- The outcome of a transfer as the outcome of the request. -/
def Leg.outcome : Leg → Except (List Cause) MirrorResult
  | .refused causes => .error causes
  | .failed failure why => .error (.transfer failure :: why.toList)
  | .part failure result => .error [.unknown result failure]
  | .done result => .ok result

theorem ran_mem {before : Option Node} (hRest : rest ⊆ [.discarded d])
    (h : .ran attempt root before ∈ .created d :: .ran t d node :: rest) : attempt = t ∧ root = d := by
  simp only [mem_cons, reduceCtorEq, false_or, Event.ran.injEq] at h
  rcases h with ⟨rfl, rfl, -⟩ | h
  · exact ⟨rfl, rfl⟩
  · simpa using hRest h

theorem created_mem (hRest : rest ⊆ [.discarded d]) (h : .created root ∈ .created d :: .ran t d node :: rest) :
    root = d := by
  simp only [mem_cons, reduceCtorEq, false_or, Event.created.injEq] at h
  rcases h with rfl | h
  · rfl
  · simpa using hRest h

/-- One transfer, with what is known of its attempt. -/
theorem sound_transfer (hRest : rest ⊆ [.discarded d])
    (hReported : t.started = true →
      (∃ transferred result, classifyTransfer t = .ok transferred ∧ r = .ok result ∧ result.root = d) ∨
        ∃ failure result causes, classifyTransfer t = .error failure ∧ r = .error causes ∧
          .unknown result failure ∈ causes ∧ result.root = d)
    (hSucceeded : ∀ result, r = .ok result → result.root = d ∧ ∃ transferred, classifyTransfer t = .ok transferred)
    (hDiscarded : ∀ causes, r = .error causes → nodes d = none ∨
      (∃ result failure, .unknown result failure ∈ causes ∧ result.root = d) ∨ ∃ text, .discard d text ∈ causes) :
    Sound r (.created d :: .ran t d (some (.dir [])) :: rest) nodes where
  tidy := ⟨rfl, rfl, tidy_discarded hRest⟩
  fallback attempt _ _ attempt' _ _ hRan hRan' hRsync hTar := by
    rw [(ran_mem hRest hRan).1] at hRsync
    rw [(ran_mem hRest hRan').1, hRsync] at hTar
    cases hTar
  reported attempt root before hRan hStarted := by
    obtain ⟨rfl, rfl⟩ := ran_mem hRest hRan
    exact hReported hStarted
  succeeded result hOk := by
    obtain ⟨rfl, transferred, hDone⟩ := hSucceeded result hOk
    exact ⟨t, some (.dir []), transferred, by simp, started_of_classify_ok hDone, hDone⟩
  discarded causes hError root hCreated := by
    rw [created_mem hRest hCreated]
    exact hDiscarded causes hError

theorem sound_of_spec {method : Method} {leg : Leg} (h : leg.Spec method es nodes) : Sound leg.outcome es nodes := by
  cases leg with
  | refused causes =>
    obtain ⟨hTidy, hNone, hGone⟩ := h
    refine ⟨hTidy, fun a root before _ _ _ hRan => absurd hRan (hNone a root before),
      fun a root before hRan => absurd hRan (hNone a root before), (fun result hOk => by cases hOk), ?_⟩
    rintro _ hError root hCreated
    cases hError
    exact (hGone root hCreated).imp_right .inr
  | failed failure why =>
    obtain ⟨d, t, rest, rfl, hRest, -, hIdle, -, hEnd⟩ := h
    refine sound_transfer hRest (fun hStarted => by simp [hIdle] at hStarted) (fun result hOk => by cases hOk) ?_
    rintro _ hError
    cases hError
    rcases hEnd with ⟨-, hGone⟩ | ⟨text, rfl⟩
    · exact .inl hGone
    · exact .inr (.inr ⟨text, by simp⟩)
  | part failure result =>
    obtain ⟨t, rfl, -, hFailed⟩ := h
    refine sound_transfer (nil_subset _) (fun _ => .inr ⟨failure, result, _, hFailed, rfl, by simp, rfl⟩)
      (fun result hOk => by cases hOk) ?_
    rintro _ hError
    cases hError
    exact .inr (.inl ⟨result, failure, by simp, rfl⟩)
  | done result =>
    obtain ⟨t, transferred, rfl, -, hDone⟩ := h
    refine sound_transfer (nil_subset _) (fun _ => .inl ⟨transferred, result, hDone, rfl, rfl⟩) ?_
      (fun _ hError => by cases hError)
    rintro _ hOk
    cases hOk
    exact ⟨rfl, transferred, hDone⟩

theorem Sound.more {causes causes' : List Cause} (h : Sound (.error causes) es nodes) (hMore : causes ⊆ causes') :
    Sound (.error causes') es nodes where
  tidy := h.tidy
  fallback := h.fallback
  reported attempt root before hRan hStarted := by
    obtain ⟨_, _, -, hOk, -⟩ | ⟨failure, result, _, hFailed, hError, hMem, hRoot⟩ :=
        h.reported attempt root before hRan hStarted
    · cases hOk
    · cases hError
      exact .inr ⟨failure, result, _, hFailed, rfl, hMore hMem, hRoot⟩
  succeeded result hOk := by cases hOk
  discarded _ hError root hCreated := by
    cases hError
    refine (h.discarded _ rfl root hCreated).imp_right (Or.imp ?_ ?_)
    · rintro ⟨result, failure, hMem, hRoot⟩
      exact ⟨result, failure, hMore hMem, hRoot⟩
    · rintro ⟨text, hMem⟩
      exact ⟨text, hMore hMem⟩

theorem method_runTarPipeline (pipe : Option String) (producer consumer : Launch) (cancelled : Option String) :
    (runTarPipeline pipe producer consumer cancelled).method = .tarPipe := by
  unfold runTarPipeline
  split_ifs <;> rfl

theorem sound_returnWithTar {hTar : remote.tar = true}
    (h : returnWithTar remote s request hTar remoteRoot w = (r, w')) :
    ∃ es, w'.log = w.log ++ es ∧ (∀ d, .created d ∉ es → w'.nodes d = w.nodes d) ∧ Sound r es w'.nodes := by
  have hMethod (d : Bytes) (t : TransferAttempt) (ht : tarAttempt remote s request remoteRoot d = .ok t) :
      t.method = .tarPipe := by
    obtain ⟨pipe, -, rfl⟩ := map_eq_ok.mp ht
    exact method_runTarPipeline ..
  unfold returnWithTar at h
  cases hTransfer : transfer remote.root (s.around .tarPipe) .tarPipe request remoteRoot
    (request.attemptID ++ lit "-tar")
      (tarAttempt remote s request remoteRoot) w with
  | mk leg w₁ =>
    obtain ⟨es, hLog, hOthers, hSpec⟩ := transfer_spec hTransfer hMethod
    rw [hTransfer] at h
    cases leg <;> cases h <;> exact ⟨es, hLog, hOthers, sound_of_spec hSpec⟩

/-- Rsync has not started, its directory is gone, and tar takes over. -/
theorem sound_fallback {nodes' : Bytes → Option Node} {failure : TransferFailure} (hRest : rest ⊆ [.discarded d])
    (hMethod : t.method = .rsync) (hIdle : t.started = false) (hGone : nodes d = none)
    (hOthers : ∀ e, .created e ∉ es → nodes' e = nodes e) (hTar : Sound r es nodes') :
    Sound (r.mapError (.transfer failure :: ·)) (.created d :: .ran t d (some (.dir [])) :: rest ++ es) nodes' := by
  have hTidy : Tidy (.created d :: .ran t d (some (.dir [])) :: rest) := ⟨rfl, rfl, tidy_discarded hRest⟩
  have hTar' : Sound (r.mapError (.transfer failure :: ·)) es nodes' := by
    cases r with
    | ok result => exact hTar
    | error causes => exact hTar.more (subset_cons_self ..)
  constructor
  · exact hTidy.append hTar.tidy
  · intro attempt root before attempt' root' before' hRan hRan' hRsync hTarPipe
    rcases mem_append.mp hRan with hRan | hRan
    · rw [(ran_mem hRest hRan).1, hIdle]
    · rcases mem_append.mp hRan' with hRan' | hRan'
      · rw [(ran_mem hRest hRan').1, hMethod] at hTarPipe
        cases hTarPipe
      · exact hTar.fallback attempt root before attempt' root' before' hRan hRan' hRsync hTarPipe
  · intro attempt root before hRan hStarted
    rcases mem_append.mp hRan with hRan | hRan
    · rw [(ran_mem hRest hRan).1, hIdle] at hStarted
      cases hStarted
    · exact hTar'.reported attempt root before hRan hStarted
  · intro result hOk
    obtain ⟨attempt, before, transferred, hRan, hDone⟩ := hTar'.succeeded result hOk
    exact ⟨attempt, before, transferred, mem_append_right _ hRan, hDone⟩
  · intro causes hError root hCreated
    by_cases hAgain : .created root ∈ es
    · exact hTar'.discarded causes hError root hAgain
    · rcases mem_append.mp hCreated with hCreated | hCreated
      · rw [hOthers root hAgain, created_mem hRest hCreated]
        exact .inl hGone
      · exact absurd hCreated hAgain

theorem sound_returnWithRsync (h : returnWithRsync remote s request remoteRoot w = (r, w')) :
    ∃ es, w'.log = w.log ++ es ∧ Sound r es w'.nodes := by
  have hMethod (d : Bytes) (t : TransferAttempt) (ht : rsyncAttempt remote s request remoteRoot d = .ok t) :
      t.method = .rsync := by
    obtain ⟨command, -, rfl⟩ := map_eq_ok.mp ht
    rfl
  unfold returnWithRsync at h
  cases hTransfer : transfer remote.root (s.around .rsync) .rsync request remoteRoot (request.attemptID ++ lit "-rsync")
      (rsyncAttempt remote s request remoteRoot) w with
  | mk leg w₁ =>
    obtain ⟨es, hLog, -, hSpec⟩ := transfer_spec hTransfer hMethod
    have hSound := sound_of_spec hSpec
    rw [hTransfer] at h
    cases leg with
    | refused causes =>
      cases h
      exact ⟨es, hLog, hSound⟩
    | part failure result =>
      cases h
      exact ⟨es, hLog, hSound⟩
    | done result =>
      cases h
      exact ⟨es, hLog, hSound⟩
    | failed failure why =>
      cases why with
      | some cause =>
        cases h
        exact ⟨es, hLog, hSound⟩
      | none =>
        dsimp only at h
        split at h
        · cases h
          exact ⟨es, hLog, hSound⟩
        · split at h
          · cases h
            exact ⟨es, hLog, hSound.more (by simp [Option.toList])⟩
          · rename_i hSome
            obtain ⟨d, t, rest, rfl, hRest, hRsync, hIdle, -, hEnd⟩ := hSpec
            have hGone : w₁.nodes d = none := by
              rcases hEnd with ⟨-, hGone⟩ | ⟨_, hWhy⟩
              · exact hGone
              · cases hWhy
            cases hTar : returnWithTar remote s request (Bool.eq_true_of_not_eq_false hSome) remoteRoot w₁ with
            | mk r₂ w₂ =>
              obtain ⟨es₂, hLog₂, hOthers₂, hSound₂⟩ := sound_returnWithTar hTar
              have hResult : (r, w') = (r₂.mapError (.transfer failure :: ·), w₂) := by
                rw [← h, hTar]
                cases r₂ <;> rfl
              obtain ⟨rfl, rfl⟩ := Prod.mk.inj hResult
              exact ⟨_, by rw [hLog₂, hLog, append_assoc],
                sound_fallback hRest hRsync hIdle hGone hOthers₂ hSound₂⟩

theorem sound_returnToStaging (h : returnToStaging remote s request w = (r, w')) :
    ∃ es, w'.log = w.log ++ es ∧ Sound r es w'.nodes := by
  have hRefused (causes : List Cause) : ∃ es, w.log = w.log ++ es ∧ Sound (.error causes) es w.nodes := by
    have hSpec : Leg.Spec .rsync [] w.nodes (.refused causes) := ⟨trivial, by simp, by simp⟩
    exact ⟨[], by simp, sound_of_spec hSpec⟩
  unfold returnToStaging at h
  split at h
  · cases h
    exact hRefused _
  · cases h
    exact hRefused _
  · cases h
    exact hRefused _
  · split at h
    · obtain ⟨es, hLog, -, hSound⟩ := sound_returnWithTar h
      exact ⟨es, hLog, hSound⟩
    · exact sound_returnWithRsync h

/-- Every request of any sequence is served soundly, whatever the tools and the file system do. -/
theorem mirrors_sound (transport : Transport) (requests : List (Surroundings × MirrorRequest)) (w : World) :
    (∀ served ∈ serve transport requests w, Sound served.result served.events served.after.nodes) ∧
      Tidy ((serve transport requests w).flatMap Served.events) := by
  induction requests generalizing w with
  | nil => exact ⟨by simp [serve], trivial⟩
  | cons first rest ih =>
    obtain ⟨s, request⟩ := first
    cases h : returnToStaging (transport.remoteFor request) s request w with
    | mk r w' =>
      obtain ⟨es, hLog, hSound⟩ := sound_returnToStaging h
      have hEvents : w'.log.drop w.log.length = es := by rw [hLog, drop_left]
      obtain ⟨hRest, hTidy⟩ := ih w'
      rw [serve, h]
      dsimp only
      rw [hEvents]
      exact ⟨forall_mem_cons.mpr ⟨hSound, hRest⟩, Tidy.append hSound.tidy hTidy⟩

end Mirrors

end Camp.Workspace
