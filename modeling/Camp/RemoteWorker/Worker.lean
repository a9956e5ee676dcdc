import Camp.RemoteWorker.Protocol
import Camp.Wire.JsonLength

/-!
# The answer of the remote worker

A run answers on its output with one line. A line that is too long is not written, and nothing is
written in its place.
-/

namespace Camp.RemoteWorker

open Wire Wire.Utf8 Wire.Json List

section Model

/-- An error: its text, and which of the known errors it wraps. -/
structure Failure where
  text : Bytes
  invalidRequest : Bool
  unsupportedOperation : Bool
  unsupportedCapability : Bool
  identityMismatch : Bool

def Failure.plain (text : Bytes) : Failure := ⟨text, false, false, false, false⟩

def Failure.join (a b : Failure) : Failure :=
  ⟨a.text ++ 10 :: b.text, a.invalidRequest || b.invalidRequest, a.unsupportedOperation || b.unsupportedOperation,
    a.unsupportedCapability || b.unsupportedCapability, a.identityMismatch || b.identityMismatch⟩

def errUnsupportedOperation : Failure :=
  { Failure.plain (lit "remote-worker operation is not implemented") with unsupportedOperation := true }

def errUnsupportedCapability : Failure :=
  { Failure.plain (lit "remote-worker capability is unsupported") with unsupportedCapability := true }

def diagnosticLimit : Nat := 64 * 2 ^ 10

def maxDiagnosticBytes : Nat := 10 * 2 ^ 10

def boundedDiagnostic (err : Failure) : Bytes :=
  let value := encode (validText false (symbols err.text))
  if value.length ≤ maxDiagnosticBytes then value else trimInvalid maxDiagnosticBytes (value.take maxDiagnosticBytes)

def name (s : String) : List (Option Char) := s.toList.map some

def string (s : Bytes) : Json := .str (symbols s)

/-- The document of a receipt, or the error of its encoding. -/
abbrev Receipt := Except Failure Json

def resultLine (operation : Bytes) (receipt : Json) : Bytes :=
  toBytes (.obj [(name "schemaVersion", .int 1), (name "operation", string operation), (name "receipt", receipt)]) ++
    [10]

/-- The line that is written; the output accepts it. -/
def encodeResult (operation : Bytes) (receipt : Receipt) : Except Failure Bytes := do
  let body ← receipt
  let result := resultLine operation body
  if diagnosticLimit < result.length then .error (.plain (lit "remote-worker result exceeds diagnostic limit"))
  else .ok result

structure Run where
  written : List Bytes
  err : Option Failure

def errorCode (err : Failure) : Bytes :=
  if err.invalidRequest then lit "invalid_request"
  else if err.identityMismatch then lit "identity_mismatch"
  else if err.unsupportedCapability then lit "unsupported_capability"
  else lit "remote_worker_failed"

def errorReceipt (err : Failure) : Json :=
  .obj [(name "status", string (lit "error")), (name "code", string (errorCode err)),
    (name "diagnostic", string (boundedDiagnostic err))]

def encodeErrorResult (operation : Bytes) (err : Failure) :
    Except Failure Bytes := encodeResult operation (.ok (errorReceipt err))

/-- The error is reported on the output and returned. -/
def answerError (operation : Bytes) (err : Failure) : Run :=
  match encodeErrorResult operation err with
  | .ok line => ⟨[line], some err⟩
  | .error encodeErr => ⟨[], some (err.join encodeErr)⟩

/-- The machine as the probe finds it. -/
structure Host where
  goos : Bytes
  goarch : Bytes
  verifyProbeInputs : Request → Option Failure
  probeFilesystem : Bytes → Option Failure
  probeNamespaces : Option Failure
  probeTUN : Option Failure
  probeLoopbackPort : Option Failure

structure CapabilityReceipt where
  name : String
  failure : Option Failure

def CapabilityReceipt.document (c : CapabilityReceipt) : Json :=
  match c.failure with
  | none => .obj [(RemoteWorker.name "name", string (lit c.name)),
      (RemoteWorker.name "status", string (lit "supported"))]
  | some err =>
    let diagnostic := boundedDiagnostic err
    .obj ([(RemoteWorker.name "name", string (lit c.name)), (RemoteWorker.name "status", string (lit "unsupported"))] ++
      if diagnostic = [] then [] else [(RemoteWorker.name "diagnostic", string diagnostic)])

def architecture (host : Host) : Bytes := lit "linux/" ++ host.goarch

def architectureError (host : Host) (request : Request) : Option Failure :=
  if host.goos != lit "linux" || architecture host != request.expected.architecture then
    some (.plain (lit "running architecture is " ++ host.goos ++ 47 :: host.goarch))
  else none

def capabilities (host : Host) (request : Request) : List CapabilityReceipt :=
  [⟨"architecture", architectureError host request⟩, ⟨"filesystem", host.probeFilesystem request.runtimeRoot⟩,
    ⟨"namespaces", host.probeNamespaces⟩, ⟨"tun", host.probeTUN⟩, ⟨"privilege", host.probeNamespaces.or host.probeTUN⟩,
    ⟨"loopback-port", host.probeLoopbackPort⟩]

def supported (host : Host) (request : Request) : Bool := (capabilities host request).all fun c => c.failure.isNone

def probeReceipt (host : Host) (request : Request) : Json :=
  .obj [(name "status", string (lit (if supported host request then "supported" else "unsupported"))),
    (name "architecture", string (architecture host)),
    (name "capabilities", .arr ((capabilities host request).map CapabilityReceipt.document))]

def runProbe (host : Host) (request : Request) : Run :=
  match host.verifyProbeInputs request with
  | some err => answerError request.operation err
  | none =>
    match encodeResult request.operation (.ok (probeReceipt host request)) with
    | .error err => ⟨[], some err⟩
    | .ok line => ⟨[line], if supported host request then none else some errUnsupportedCapability⟩

structure Operations where
  activateImage : Request → Except Failure Receipt
  hydrate : Request → Except Failure Receipt
  startServices : Request → Except Failure Receipt
  observe : Request → Except Failure Receipt
  checkpoint : Request → Except Failure Receipt

def perform (operations : Operations) (request : Request) : Except Failure Receipt :=
  if request.operation = lit "activateImage" then operations.activateImage request
  else if request.operation = lit "hydrate" then operations.hydrate request
  else if request.operation = lit "startServices" then operations.startServices request
  else if request.operation = lit "observe" then operations.observe request
  else if request.operation = lit "checkpoint" then operations.checkpoint request
  else .error errUnsupportedOperation

def unsupportedReceipt : Json :=
  .obj [(name "status", string (lit "unsupported")),
    (name "diagnostic", string (boundedDiagnostic errUnsupportedOperation))]

def runOperation (operations : Operations) (request : Request) : Run :=
  match perform operations request with
  | .ok receipt =>
    match encodeResult request.operation receipt with
    | .ok line => ⟨[line], none⟩
    | .error err => ⟨[], some err⟩
  | .error err =>
    if err.unsupportedOperation then
      match encodeResult request.operation (.ok unsupportedReceipt) with
      | .ok line => ⟨[line], some errUnsupportedOperation⟩
      | .error encodeErr => ⟨[], some encodeErr⟩
    else answerError request.operation err

def runWithOperations (detail : Bytes → Bytes) (host : Host) (operations : Operations) (input : Bytes)
    (failure : Option Bytes) : Run :=
  match decodeRequest detail input failure with
  | .error text => answerError (lit "rejected") { Failure.plain text with invalidRequest := true }
  | .ok request => if request.operation = lit "probe" then runProbe host request else runOperation operations request

end Model

section Fits

variable {operation : Bytes}

theorem encodeResult_ok {receipt : Json} (h : (resultLine operation receipt).length ≤ diagnosticLimit) :
    encodeResult operation (.ok receipt) = .ok (resultLine operation receipt) := by
  simp only [encodeResult, bind, Except.bind, if_neg (Nat.not_lt.mpr h)]

theorem encodeResult_eq_ok {receipt : Receipt} {line : Bytes} (h : encodeResult operation receipt = .ok line) :
    ∃ body, receipt = .ok body ∧ line = resultLine operation body ∧ line.length ≤ diagnosticLimit := by
  cases receipt with
  | error err => cases h
  | ok body =>
    simp only [encodeResult, bind, Except.bind] at h
    split_ifs at h with hLength
    cases h
    exact ⟨body, rfl, rfl, Nat.not_lt.mp hLength⟩

theorem boundedDiagnostic_spec (err : Failure) :
    ∃ cs, boundedDiagnostic err = encode cs ∧ (encode cs).length ≤ maxDiagnosticBytes := by
  unfold boundedDiagnostic
  dsimp only
  split_ifs with h
  · exact ⟨_, rfl, h⟩
  · have hTaken : ((encode (validText false (symbols err.text))).take maxDiagnosticBytes).length ≤ maxDiagnosticBytes :=
      length_take_le _ _
    obtain ⟨cs, hcs⟩ := exists_encode_of_valid (trimInvalid_valid maxDiagnosticBytes _ hTaken)
    refine ⟨cs, hcs, ?_⟩
    rw [← hcs]
    exact (trimInvalid_length _ _).trans hTaken

theorem diagnostic_length (err : Failure) :
    (toBytes (string (boundedDiagnostic err))).length ≤ 6 * maxDiagnosticBytes + 2 := by
  obtain ⟨cs, hcs, hLength⟩ := boundedDiagnostic_spec err
  have hQuoted := toBytes_str_length_le cs
  rw [hcs, string, symbols_encode]
  omega

/-- The operations that a line can name. -/
def named : List Bytes := lit "rejected" :: operations

theorem named_length : ∀ operation ∈ named, (toBytes (string operation)).length ≤ 20 := by decide

theorem named_sanitize : ∀ operation ∈ named, sanitize operation = operation := by decide +kernel

theorem errorCode_length (err : Failure) : (toBytes (string (errorCode err))).length ≤ 30 := by
  unfold errorCode
  split_ifs <;> decide

theorem resultLine_length (operation : Bytes) (receipt : Json) :
    (resultLine operation receipt).length = (toBytes (string operation)).length + (toBytes receipt).length + 44 := by
  have hNames : (encode (quote (name "schemaVersion"))).length = 15 ∧ (encode (quote (name "operation"))).length = 11 ∧
      (encode (quote (name "receipt"))).length = 9 ∧ (toBytes (.int 1)).length = 1 := by decide
  rw [resultLine, length_append, toBytes_obj_length]
  simp only [map_cons, map_nil, sum_cons, sum_nil, memberLength, hNames]
  simp only [length_singleton]
  omega

/-- The line of an error always fits, however long its text is. -/
theorem errorLine_fits (h : operation ∈ named) (err : Failure) :
    (resultLine operation (errorReceipt err)).length ≤ diagnosticLimit := by
  have hNames : (encode (quote (name "status"))).length = 8 ∧ (encode (quote (name "code"))).length = 6 ∧
      (encode (quote (name "diagnostic"))).length = 12 ∧
      (toBytes (string (lit "error"))).length = 7 := by decide +kernel
  have hOperation := named_length operation h
  have hCode := errorCode_length err
  have hDiagnostic := diagnostic_length err
  have hReceipt : (toBytes (errorReceipt err)).length =
      (toBytes (string (errorCode err))).length + (toBytes (string (boundedDiagnostic err))).length + 40 := by
    rw [errorReceipt, toBytes_obj_length]
    simp only [map_cons, map_nil, sum_cons, sum_nil, memberLength, hNames]
    omega
  rw [resultLine_length, hReceipt]
  unfold diagnosticLimit
  unfold maxDiagnosticBytes at hDiagnostic
  omega

theorem unsupportedLine_fits (h : operation ∈ named) :
    (resultLine operation unsupportedReceipt).length ≤ diagnosticLimit := by
  have hOperation := named_length operation h
  have hReceipt : (toBytes unsupportedReceipt).length ≤ 1000 := by decide +kernel
  rw [resultLine_length]
  unfold diagnosticLimit
  omega

end Fits

section Answers

variable {operation : Bytes}

structure Result where
  schemaVersion : Int
  operation : Bytes
  receipt : Json

def decodeResult (line : Bytes) : Option Result :=
  match parse line with
  | some (.obj [(a, .int version), (b, .str operation), (c, receipt)]) =>
    if a = name "schemaVersion" ∧ b = name "operation" ∧
      c = name "receipt" then some ⟨version, encode (text operation), receipt⟩ else none
  | _ => none

theorem decodeResult_resultLine (h : operation ∈ named) (receipt : Json) :
    decodeResult (resultLine operation receipt) = some ⟨1, operation, receipt⟩ := by
  have hName : encode (text (symbols operation)) = operation := named_sanitize operation h
  simp only [decodeResult, resultLine, parse_line, string, and_self, if_true, hName]

def status : Json → Option (List Char)
  | .obj ms =>
    match ms.find? fun m => text m.1 == "status".toList with
    | some (_, .str s) => some (text s)
    | _ => none
  | _ => none

/-- The receipt says that the operation failed, or is not supported. -/
def reportsError (receipt : Json) :
    Bool := status receipt == some "error".toList || status receipt == some "unsupported".toList

/-- One line within the limit, which decodes and names the operation, and whose receipt agrees
with what the run returns. -/
structure Answers (run : Run) (operation : Bytes) : Prop where
  answer : ∃ line receipt, run.written = [line] ∧ line.length ≤ diagnosticLimit ∧
    decodeResult line = some ⟨1, operation, receipt⟩ ∧ (run.err = none ↔ reportsError receipt = false)

theorem answers_line (h : operation ∈ named) {receipt : Json} {err : Option Failure}
    (hLength : (resultLine operation receipt).length ≤ diagnosticLimit)
    (hErr : err = none ↔ reportsError receipt = false) : Answers ⟨[resultLine operation receipt], err⟩ operation :=
  ⟨_, receipt, rfl, hLength, decodeResult_resultLine h receipt, hErr⟩

theorem not_answers_nil (err : Option Failure) (operation : Bytes) : ¬ Answers ⟨[], err⟩ operation := by
  rintro ⟨line, receipt, hWritten, -⟩
  cases hWritten

theorem answerError_answers (h : operation ∈ named) (err : Failure) :
    Answers (answerError operation err) operation := by
  have hLength := errorLine_fits h err
  have hErr : reportsError (errorReceipt err) = true := rfl
  rw [answerError, encodeErrorResult, encodeResult_ok hLength]
  exact answers_line h hLength (by simp [hErr])

theorem reportsError_probeReceipt (host : Host) (request : Request) :
    reportsError (probeReceipt host request) = !supported host request := by
  unfold probeReceipt
  cases supported host request <;> rfl

theorem runProbe_answers_iff {request : Request} (h : request.operation ∈ named) (host : Host) :
    Answers (runProbe host request) request.operation ↔
      (host.verifyProbeInputs request = none →
      (resultLine request.operation (probeReceipt host request)).length ≤ diagnosticLimit) := by
  unfold runProbe
  cases host.verifyProbeInputs request with
  | some err => exact iff_of_true (answerError_answers h err) nofun
  | none =>
    dsimp only
    cases hLine : encodeResult request.operation (.ok (probeReceipt host request)) with
    | error err =>
      refine iff_of_false (not_answers_nil _ _) fun hFits => ?_
      rw [encodeResult_ok (hFits rfl)] at hLine
      cases hLine
    | ok line =>
      obtain ⟨body, hBody, rfl, hLength⟩ := encodeResult_eq_ok hLine
      cases hBody
      refine iff_of_true (answers_line h hLength ?_) fun _ => hLength
      rw [reportsError_probeReceipt]
      cases supported host request <;> simp

theorem runOperation_answers_iff {request : Request} (h : request.operation ∈ named) (operations : Operations) :
    Answers (runOperation operations request) request.operation ↔ ∀ receipt, perform operations request = .ok receipt →
      ∃ body, receipt = .ok body ∧ (resultLine request.operation body).length ≤ diagnosticLimit ∧
      reportsError body = false := by
  unfold runOperation
  cases perform operations request with
  | error err =>
    refine iff_of_true ?_ nofun
    dsimp only
    split_ifs
    · rw [encodeResult_ok (unsupportedLine_fits h)]
      exact answers_line h (unsupportedLine_fits h) (iff_of_false nofun (by decide +kernel))
    · exact answerError_answers h err
  | ok receipt =>
    dsimp only
    cases hLine : encodeResult request.operation receipt with
    | error err =>
      refine iff_of_false (not_answers_nil _ _) fun hFits => ?_
      obtain ⟨body, rfl, hLength, -⟩ := hFits receipt rfl
      rw [encodeResult_ok hLength] at hLine
      cases hLine
    | ok line =>
      obtain ⟨body, rfl, rfl, hLength⟩ := encodeResult_eq_ok hLine
      constructor
      · rintro ⟨line, found, hWritten, -, hDecode, hErr⟩ _ ⟨⟩
        cases hWritten
        rw [decodeResult_resultLine h] at hDecode
        cases hDecode
        exact ⟨body, rfl, hLength, hErr.mp rfl⟩
      · intro hFits
        obtain ⟨_, ⟨⟩, -, hReports⟩ := hFits _ rfl
        exact answers_line h hLength (iff_of_true rfl hReports)

end Answers

section Worker

variable (detail : Bytes → Bytes) (host : Host) (operations : Operations)

/-- The operation that the answer has to name. -/
def requested (input : Bytes) (failure : Option Bytes) : Bytes :=
  match decodeRequest detail input failure with
  | .error _ => lit "rejected"
  | .ok request => request.operation

theorem operation_named {input : Bytes} {failure : Option Bytes} {request : Request}
    (h : decodeRequest detail input failure = .ok request) :
    request.operation ∈ named := by
  obtain ⟨-, -, -, j, -, -, hValid⟩ := decodeRequest_eq_ok.mp h
  unfold validateRequest reject at hValid
  obtain ⟨-, hRest⟩ := Program.Checks.andThen_eq_ok.mp hValid
  obtain ⟨hOperation, -⟩ := Program.Checks.andThen_eq_ok.mp hRest
  exact mem_cons_of_mem _ (by simpa using hOperation)

/-- The worker answers exactly when the receipt of the operation that it carried out can be
encoded, fits in one line and does not read as an error. A request that is not carried out is
always answered. -/
theorem run_answers_iff (input : Bytes) (failure : Option Bytes) :
    Answers (runWithOperations detail host operations input failure) (requested detail input failure) ↔
      ∀ request, decodeRequest detail input failure = .ok request →
        (request.operation = lit "probe" → host.verifyProbeInputs request = none →
          (resultLine request.operation (probeReceipt host request)).length ≤ diagnosticLimit) ∧
        (request.operation ≠ lit "probe" → ∀ receipt, perform operations request = .ok receipt →
          ∃ body, receipt = .ok body ∧ (resultLine request.operation body).length ≤ diagnosticLimit ∧
          reportsError body = false) := by
  unfold runWithOperations requested
  cases hDecode : decodeRequest detail input failure with
  | error text => exact iff_of_true (answerError_answers mem_cons_self _) nofun
  | ok request =>
    have hNamed := operation_named detail hDecode
    simp only [Except.ok.injEq, forall_eq']
    by_cases hProbe : request.operation = lit "probe"
    · rw [if_pos hProbe, runProbe_answers_iff hNamed]
      simp [hProbe]
    · rw [if_neg hProbe, runOperation_answers_iff hNamed]
      simp [hProbe]

/-- A machine on which every probe succeeds. -/
def quietHost : Host := ⟨lit "linux", lit "amd64", fun _ => none, fun _ => none, none, none, none⟩

/-- Every operation succeeds with a receipt of this text. -/
def succeeding (text : List (Option Char)) : Operations :=
  let receipt : Request → Except Failure Receipt := fun _ => .ok (.ok (.str text))
  ⟨receipt, receipt, receipt, receipt, receipt⟩

theorem observation_accepted :
    ∃ r, decodeRequest (fun _ => []) (requestDocument [("operation", "observe")]).toBytes none = .ok r ∧
    r.operation = lit "observe" := by
  have hKeys : JsonStrict.rejectDuplicateKeys (requestDocument [("operation", "observe")]).toBytes = true :=
    (JsonStrict.rejectDuplicateKeys_iff _).mpr ⟨_, parse_toBytes _, by decide, by decide +kernel⟩
  obtain ⟨r, hDecode, hValid, hOperation⟩ : ∃ r, decodeDocument (requestDocument [("operation", "observe")]) = some r ∧
      validateRequest r = .ok () ∧ r.operation = lit "observe" :=
    ⟨(decodeDocument (requestDocument [("operation", "observe")])).get
      (by decide), by simp, by decide +kernel, by decide +kernel⟩
  exact ⟨r, decodeRequest_eq_ok.mpr ⟨rfl, by decide +kernel, hKeys, _, parse_toBytes _, hDecode, hValid⟩, hOperation⟩

/-- An observation that succeeded is followed by no answer at all. -/
theorem observation_unanswered : ∃ text input,
    ¬ Answers (runWithOperations (fun _ => []) quietHost (succeeding text) input none)
    (requested (fun _ => []) input none) ∧
      (runWithOperations (fun _ => []) quietHost (succeeding text) input none).written = [] ∧
      ∃ request, decodeRequest (fun _ => []) input none = .ok request ∧
      perform (succeeding text) request = .ok (.ok (.str text)) := by
  obtain ⟨text, hText⟩ : ∃ text : List (Option Char), diagnosticLimit ≤ text.length :=
    ⟨replicate diagnosticLimit none, by rw [length_replicate]⟩
  obtain ⟨request, hDecode, hOperation⟩ := observation_accepted
  have hPerform : perform (succeeding text) request = .ok (.ok (.str text)) := by
    unfold perform
    split_ifs <;> rfl
  have hLong : diagnosticLimit < (resultLine request.operation (.str text)).length := by
    have hReceipt := length_le_toBytes_str text
    rw [resultLine_length]
    omega
  have hProbe : request.operation ≠ lit "probe" := by
    rw [hOperation]
    decide
  have hWritten : (runWithOperations (fun _ => []) quietHost (succeeding text)
      (requestDocument [("operation", "observe")]).toBytes
      none).written = [] := by
    simp only [runWithOperations, hDecode, if_neg hProbe, runOperation, hPerform, encodeResult,
      bind, Except.bind, if_pos hLong]
  refine ⟨text, _, ?_, hWritten, request, hDecode, hPerform⟩
  rintro ⟨line, receipt, hLine, -⟩
  rw [hWritten] at hLine
  cases hLine

end Worker

end Camp.RemoteWorker
