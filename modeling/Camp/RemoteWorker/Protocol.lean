import Camp.JsonStrict.Names
import Camp.Program.Checks
import Camp.Program.Paths

/-!
# Requests to the remote worker

A request is a JSON object. A member is stored in the field that has its name, letter case aside,
over what an earlier member has stored there.
-/

namespace Camp.RemoteWorker

open Wire Wire.Utf8 Wire.Json JsonStrict Program.Checks Program.Paths

abbrev Member := List (Option Char) × Json

section Decoder

/-- The type of a field, as far as the decoder looks at it. -/
inductive Shape where
  | text
  | uint32
  | uint64
  | int64
  | flag
  | record (fields : List (String × Shape))
  | optional (fields : List (String × Shape))

inductive Slot where
  | text (s : Bytes)
  | number (n : Int)
  | flag (b : Bool)
  | record (slots : List Slot)
  | absent
  deriving Inhabited

mutual

def zero : Shape → Slot
  | .text => .text []
  | .uint32 | .uint64 | .int64 => .number 0
  | .flag => .flag false
  | .record fields => .record (zeros fields)
  | .optional _ => .absent

def zeros : List (String × Shape) → List Slot
  | [] => []
  | field :: fields => zeroField field :: zeros fields

def zeroField : String × Shape → Slot
  | (_, shape) => zero shape

end

/-- The smallest of the characters that differ in case only, for the letters of ASCII. -/
def foldChar (c : Char) : Char :=
  if 'a' ≤ c ∧ c ≤ 'z' then Char.ofNat (c.toNat - 32)
  else if c.toNat = 0x17F then 'S'
  else if c.toNat = 0x212A then 'K'
  else c

def foldName (name : List Char) : List Char := name.map foldChar

/-- The field of a name: the one with exactly this name, or else one with this name up to case. -/
def fieldIndex (fields : List (String × Shape)) (name : List Char) : Option Nat :=
  (fields.findIdx? fun field => field.1.toList == name).or (fields.findIdx? fun field =>
    foldName field.1.toList == foldName name)

def within (low high : Int) (i : Int) : Option Slot := if low ≤ i ∧ i < high then some (.number i) else none

mutual

def store : Shape → Json → Slot → Option Slot
  | .optional _, .null, _ => some .absent
  | _, .null, old => some old
  | .text, .str s, _ => some (.text (encode (Utf8.text s)))
  | .uint32, .int i, _ => within 0 (2 ^ 32) i
  | .uint64, .int i, _ => within 0 (2 ^ 64) i
  | .int64, .int i, _ => within (-2 ^ 63) (2 ^ 63) i
  -- A minus sign is fine before a zero, but only where the type has a sign.
  | .int64, .dec d, _ => if d.text = ['-', '0'] then some (.number 0) else none
  | .flag, .bool b, _ => some (.flag b)
  | .record fields, .obj members, .record slots | .optional fields, .obj members, .record slots =>
    (storeMembers fields members slots).map .record
  | .optional fields, .obj members, .absent => (storeMembers fields members (zeros fields)).map .record
  | _, _, _ => none

def storeMembers (fields : List (String × Shape)) : List Member → List Slot → Option (List Slot)
  | [], slots => some slots
  | member :: members, slots => do
    let slots ← storeMember fields member slots
    storeMembers fields members slots

/-- Unknown fields are not allowed. -/
def storeMember (fields : List (String × Shape)) : Member → List Slot → Option (List Slot)
  | (name, j), slots => do
    let k ← fieldIndex fields (Utf8.text name)
    let field ← fields[k]?
    let old ← slots[k]?
    let new ← store field.2 j old
    some (slots.set k new)

end

end Decoder

section Request

structure FileIdentity where
  name : Bytes
  sha256 : Bytes
  size : Int
  deriving DecidableEq

structure ExpectedIdentity where
  architecture : Bytes
  helper : FileIdentity
  kit : FileIdentity
  manifest : FileIdentity
  sourceImage : Bytes
  image : Bytes
  deriving DecidableEq

structure CheckpointRequest where
  attemptID : Bytes
  capsule : Bytes
  branch : Bytes
  generation : Int
  close : Bool
  deriving DecidableEq

structure Request where
  schemaVersion : Int
  operation : Bytes
  sessionID : Bytes
  workspaceRoot : Bytes
  runtimeRoot : Bytes
  manifestPath : Bytes
  expected : ExpectedIdentity
  checkpoint : Option CheckpointRequest
  deriving DecidableEq

def fileShape : Shape := .record [("name", .text), ("sha256", .text), ("size", .int64)]

def requestShape : Shape := .record
  [("schemaVersion", .uint32), ("operation", .text), ("sessionId", .text),
  ("workspaceRoot", .text), ("runtimeRoot", .text),
    ("manifestPath", .text),
    ("expected", .record [("architecture", .text), ("helper", fileShape), ("kit", fileShape), ("manifest", fileShape),
      ("sourceImage", .text), ("image", .text)]),
    ("checkpoint", .optional [("attemptId", .text), ("capsule", .text), ("lineage", .record [("branch", .text)]),
      ("generation", .uint64), ("close", .flag)])]

def FileIdentity.ofSlot : Slot → Option FileIdentity
  | .record [.text name, .text sha256, .number size] => some ⟨name, sha256, size⟩
  | _ => none

def ExpectedIdentity.ofSlot : Slot → Option ExpectedIdentity
  | .record [.text architecture, helper, kit, manifest, .text sourceImage, .text image] => do
    some ⟨architecture, ← FileIdentity.ofSlot helper, ← FileIdentity.ofSlot kit, ← FileIdentity.ofSlot manifest,
      sourceImage, image⟩
  | _ => none

def CheckpointRequest.ofSlot : Slot → Option (Option CheckpointRequest)
  | .absent => some none
  | .record [.text attemptID, .text capsule, .record [.text branch], .number generation, .flag close] =>
    some (some ⟨attemptID, capsule, branch, generation, close⟩)
  | _ => none

def Request.ofSlot : Slot → Option Request
  | .record [.number schemaVersion, .text operation, .text sessionID, .text workspaceRoot,
      .text runtimeRoot, .text manifestPath,
      expected, checkpoint] => do
    some ⟨schemaVersion, operation, sessionID, workspaceRoot, runtimeRoot,
      manifestPath, ← ExpectedIdentity.ofSlot expected,
      ← CheckpointRequest.ofSlot checkpoint⟩
  | _ => none

def decodeDocument (j : Json) : Option Request := (store requestShape j (zero requestShape)).bind Request.ofSlot

def operations : List Bytes :=
  ["probe", "activateImage", "hydrate", "startServices", "observe", "checkpoint", "stopServices", "cleanup"].map lit

def validDigest (value : Bytes) : Bool :=
  value.length == 64 && value.all fun b => (48 ≤ b && b ≤ 57) || (97 ≤ b && b ≤ 102)

def isControl (c : Char) : Bool := c.toNat < 0x20 || (0x7f ≤ c.toNat && c.toNat ≤ 0x9f)

def safeSegment (value : Bytes) : Bool :=
  value != [] && value != lit "." && value != lit ".." && !value.any (fun b => b == 47 || b == 92 || b == 0) &&
    !(Utf8.text (symbols value)).any isControl

def safeAbsolutePath (path : Bytes) :
    Bool := rooted path && clean path == path && !(Utf8.text (symbols path)).any isControl

def validIdentity (identity : FileIdentity) :
    Bool := safeSegment identity.name && 0 < identity.size && validDigest identity.sha256

def lastIndex (s marker : Bytes) :
    Option Nat := ((List.range (s.length + 1)).filter fun i => marker.isPrefixOf (s.drop i)).getLast?

def immutableSource (image : Bytes) : Bool :=
  match lastIndex image (lit "@sha256:") with
  | none => false
  | some index => 0 < index && validDigest (image.drop (index + 8))

def invalidRequest (text : Bytes) : Bytes := lit "invalid remote-worker request: " ++ text

def reject (bad : Bool) (text : String) : Except Bytes Unit := refuse bad (invalidRequest (lit text))

def validateRequest (r : Request) : Except Bytes Unit := do
  reject (r.schemaVersion != 1) "unsupported schema"
  reject (!operations.contains r.operation) "unsupported operation"
  reject (!safeSegment r.sessionID) "unsafe session ID"
  -- The source ranges over a map: of several unsafe paths any one may be the reported one.
  each (fun root => reject (!safeAbsolutePath root.2) ("unsafe " ++ root.1))
    [("workspace root", r.workspaceRoot), ("runtime root", r.runtimeRoot), ("manifest path", r.manifestPath)]
  reject (r.expected.architecture != lit "linux/amd64" && r.expected.architecture != lit "linux/arm64")
    "unsupported architecture"
  reject (!validIdentity r.expected.helper || r.expected.helper.name != lit "camp" || !validIdentity r.expected.kit ||
    r.expected.kit.name != lit "camp-hauler-kit.tar.zst" || !validIdentity r.expected.manifest)
    "invalid helper or kit identity"
  if r.operation == lit "checkpoint" then
    match r.checkpoint with
    | none => reject true "invalid checkpoint envelope"
    | some c =>
      reject (!safeSegment c.attemptID || !safeSegment c.capsule || !safeSegment c.branch || c.generation == 0)
        "invalid checkpoint envelope"
  else reject r.checkpoint.isSome "checkpoint envelope is only valid for checkpoint"
  reject (!immutableSource r.expected.sourceImage) "source image is not immutable"
  reject (!(lit "sha256:").isPrefixOf r.expected.image || !validDigest (r.expected.image.drop 7))
    "image is not immutable"

def maxRequestBytes : Nat := 2 ^ 20

/-- `failure` is an error that the reader gives after the bytes of `body`, and `detail` the text of
the decoder's error on a body. Nothing trails a body in which every key has been looked at. -/
def decodeRequest (detail : Bytes → Bytes) (body : Bytes) (failure : Option Bytes) : Except Bytes Request := do
  -- No more than the limit and one byte is read, so a later error is not seen.
  if body.length ≤ maxRequestBytes then
    match failure with
    | some err => .error (invalidRequest (lit "read: " ++ err))
    | none => .ok ()
  reject (maxRequestBytes < body.length) "request size"
  refuse (!rejectDuplicateKeys body) (invalidRequest (lit "decode: " ++ detail body))
  match (parse body).bind decodeDocument with
  | none => .error (invalidRequest (lit "decode: " ++ detail body))
  | some request => do
    validateRequest request
    return request

theorem decodeRequest_eq_ok {detail : Bytes → Bytes} {body : Bytes} {failure : Option Bytes} {r : Request} :
    decodeRequest detail body failure = .ok r ↔
      failure = none ∧ body.length ≤ maxRequestBytes ∧ rejectDuplicateKeys body = true ∧
        ∃ j, parse body = some j ∧ decodeDocument j = some r ∧ validateRequest r = .ok () := by
  unfold decodeRequest reject
  by_cases hSize : body.length ≤ maxRequestBytes
  · cases failure with
    | some err => simp [hSize, bind, Except.bind]
    | none =>
      simp only [hSize, if_true, andThen_eq_ok, refuse_eq_ok, true_and]
      cases hParse : (parse body).bind decodeDocument with
      | none =>
        constructor
        · rintro ⟨-, -, h⟩
          cases h
        · rintro ⟨-, j, hj, hDecode, -⟩
          rw [hj, Option.bind_some, hDecode] at hParse
          cases hParse
      | some request =>
        obtain ⟨j, hj, hDecode⟩ := Option.bind_eq_some_iff.mp hParse
        simp only [andThen_eq_ok, hj, Option.some.injEq, exists_eq_left', hDecode]
        constructor
        · rintro ⟨-, hKeys, hValid, hr⟩
          cases hr
          exact ⟨by simpa using hKeys, rfl, hValid⟩
        · rintro ⟨hKeys, rfl, hValid⟩
          exact ⟨by simpa using hSize, by simpa using hKeys, hValid, rfl⟩
  · simp [hSize, bind, Except.bind, refuse, Nat.lt_of_not_le hSize]

/-- A request with these members for its operation. -/
def requestDocument (operation : List (String × String)) : Json :=
  let digest := List.replicate 64 '0'
  let string (s : List Char) : Json := .str (s.map some)
  let object (ms : List (String × Json)) : Json := .obj (ms.map fun m => (m.1.toList.map some, m.2))
  let file (name : String) := object [("name", string name.toList), ("sha256", string digest), ("size", .int 1)]
  object (("schemaVersion", .int 1) :: operation.map (fun m => (m.1, string m.2.toList)) ++
    [("sessionId", string "s".toList), ("workspaceRoot", string "/w".toList), ("runtimeRoot", string "/r".toList),
      ("manifestPath", string "/m".toList),
      ("expected", object [("architecture", string "linux/amd64".toList), ("helper", file "camp"),
        ("kit", file "camp-hauler-kit.tar.zst"), ("manifest", file "m"),
        ("sourceImage", string ("i@sha256:".toList ++ digest)),
        ("image", string ("sha256:".toList ++ digest))])])

end Request

end Camp.RemoteWorker
