import Camp.Domain.Validation
import Camp.Program.Exchange
import Camp.Program.Objects
import Camp.Program.Paths
import Camp.Wire.Sha256

/-!
# The store of objects on an S3 service

Every operation is made of requests to the service. Large objects are uploaded in
parts that the service puts together on a last request.
-/

namespace Camp.S3Store

open Wire Wire.Utf8 Program Program.Objects Program.Exchange

inductive Sentinel where
  | notFound
  | conflict
  | ambiguous
  | integrity
  | invalidKey
  | invalidCondition
  deriving DecidableEq

abbrev Error := Failure Sentinel

section Requests

structure CompletedPart where
  etag : Bytes
  partNumber : Nat
  deriving DecidableEq

inductive Request where
  | getObject (key : Bytes)
  | headObject (key : Bytes)
  | putObject (key body : Bytes) (condition : Condition Bytes)
  | deleteObject (key revision : Bytes)
  | createMultipart (key digest : Bytes)
  | uploadPart (key uploadID : Bytes) (number : Nat) (body : Bytes)
  | completeMultipart (key uploadID : Bytes) (parts : List CompletedPart)
  | abortMultipart (key uploadID : Bytes)
  deriving DecidableEq

def Request.method : Request → String
  | .getObject _ => "GET"
  | .headObject _ => "HEAD"
  | .putObject .. | .uploadPart .. => "PUT"
  | .deleteObject .. | .abortMultipart .. => "DELETE"
  | .createMultipart .. | .completeMultipart .. => "POST"

/-- What can be read, and whether reading or closing it fails in the end. -/
structure Body where
  content : Bytes
  readError : Option Bytes
  closeError : Option Bytes
  deriving Inhabited, DecidableEq

def Body.limited (b : Body) (limit : Nat) : Body where
  content := b.content.take limit
  readError := if b.content.length < limit then b.readError else none
  closeError := b.closeError

/-- The headers that the store reads. One that is missing is empty. -/
structure Header where
  etag : Bytes
  contentLength : Bytes
  lastModified : Bytes
  sha256 : Bytes
  deriving Inhabited, DecidableEq

structure Response where
  statusCode : Nat
  status : Bytes
  header : Header
  body : Body
  /-- How much of the request's body was read by then. -/
  consumed : Nat
  deriving Inhabited, DecidableEq

def Response.succeeded (r : Response) : Bool := 200 ≤ r.statusCode && r.statusCode < 300

/-- What the service keeps: the objects, and the parts of uploads. -/
structure Cloud where
  objects : Objects.Bucket Bytes Bytes
  parts : Bytes → Nat → Bytes

variable {D F V : Type} [DecidableEq D] (naming : Objects.Service Bytes Bytes Bytes D F V)

def Cloud.perform (c : Cloud) (op : Objects.Op Bytes Bytes Bytes D Empty) : Cloud :=
  { c with objects := (Objects.perform naming c.objects naming.plain op).2 }

/-- The writes are conditional; a completed upload is written where nothing is. -/
def Request.effect : Request → Cloud → Cloud
  | .putObject key body condition, c => c.perform naming (.putConditional key body condition)
  | .deleteObject key revision, c => c.perform naming (.deleteConditional key revision)
  | .uploadPart _ uploadID number body, c =>
    { c with parts := Function.update c.parts uploadID (Function.update (c.parts uploadID) number body) }
  | .completeMultipart key uploadID parts, c =>
    c.perform naming (.putConditional key (parts.flatMap fun p => c.parts uploadID p.partNumber) .absent)
  | _, c => c

/-- An answer below 500 that is no success says that nothing happened. -/
def service : Exchange.Service Request Response Cloud where
  effect := Request.effect naming
  refuses r := !r.succeeded && r.statusCode < 500

end Requests

/-- What a source answers when it is opened: an error, no reader, or a reader. -/
inductive Opened where
  | error (cause : Bytes)
  | nothing
  | reader (body : Body)
  deriving Inhabited

inductive Collaborator where
  | source

abbrev Collaborator.Value : Collaborator → Type
  | .source => Opened

instance (i : Collaborator) : Inhabited i.Value :=
  match i with
  | .source => inferInstanceAs (Inhabited Opened)

abbrev Net : Signature := Exchange.signature Request Response Bytes Collaborator.Value

abbrev Act := ExceptT Error (Prog Net)

/-- What the standard library makes of texts that are not looked into here. -/
structure Library where
  trimSpace : Bytes → Bytes
  parseTime : Bytes → Option Time
  /-- The upload named in an answer. -/
  uploadID : Body → Option Bytes
  /-- The name of an answer's root element, and the revision in it. -/
  completion : Body → Option (Bytes × Bytes)

structure Store where
  keyPrefix : Bytes
  /-- The address of the object is one for a request. -/
  addressable : Bytes → Bool
  library : Library

structure ObjectMeta where
  key : Bytes
  size : Int
  revision : Bytes
  sha256 : Bytes
  modified : Option Time

structure WriteCondition where
  mustBeAbsent : Bool
  matchRevision : Bytes

def quoted (format : String) (key : Bytes) (kind : Sentinel) : Error := .wrap format [key] (.sentinel kind)

def validateKey (key : Bytes) : Except Error Unit :=
  if key = [] || key.head? = some 47 || key.getLast? = some 47 || key.contains 0 || key.contains 92 then
    throw (quoted "invalid S3 object key %q: %w" key .invalidKey)
  else if (Paths.parts key).any fun segment => segment = [] || segment = lit "." || segment = lit ".." then
    throw (quoted "invalid S3 object key %q: %w" key .invalidKey)
  else pure ()

def validSHA256 (value : Bytes) : Bool := validLowerSHA256 value

/-- Decimal digits, after a sign or none, in 64 bits. -/
def parseInt (value : Bytes) : Option Int :=
  let digits := if value.head? = some 43 || value.head? = some 45 then value.tail else value
  if digits = [] || !digits.all fun b => 48 ≤ b && b ≤ 57 then none
  else
    let n : Int := digits.foldl (fun n b => 10 * n + (b.toNat - 48)) 0
    let signed := if value.head? = some 45 then -n else n
    if -2 ^ 63 ≤ signed ∧ signed < 2 ^ 63 then some signed else none

def maxErrorBody : Nat := 4 * 2 ^ 10

def responseSentinel (statusCode : Nat) (mutation : Bool) : Error :=
  if statusCode = 404 then .sentinel .notFound
  else if statusCode = 409 ∨ statusCode = 412 then .sentinel .conflict
  else if mutation && 500 ≤ statusCode then .sentinel .ambiguous
  else .message "S3 request failed" []

def lostText (q : Request) : Lost Bytes → Bytes
  | .unsent cause => lit ("sign S3 " ++ q.method ++ " request: ") ++ cause
  | .dropped cause => lit ("perform S3 " ++ q.method ++ " request: ") ++ cause

def lostError (q : Request) : Lost Bytes → Error
  | .unsent cause => .wrap "sign S3 %s request: %w" [lit q.method] (.message "%s" [cause])
  | .dropped cause => .wrap "perform S3 %s request: %w" [lit q.method] (.message "%s" [cause])

def doRequest (q : Request) : Act Response := do
  match ← send q with
  | .error lost => throw (lostError q lost)
  | .ok response => pure response

def wrapping {α : Type} (format : String) (args : List Bytes) (p : Act α) : Act α := do
  match ← catching p with
  | .ok a => pure a
  | .error e => throw (.wrap format args e)

namespace Store

variable (s : Store)

def address (key : Bytes) : Bytes := s.keyPrefix ++ key

def newObjectRequest (method : String) (key : Bytes) : Except Error Unit := do
  validateKey key
  if !s.addressable (s.address key) then
    throw (.wrap "create S3 %s request: %w" [lit method] (.message "parse address" []))

def responseError (response : Response) (operation : String) (key : Bytes) (mutation : Bool) : Error :=
  let detail := s.library.trimSpace (response.body.limited maxErrorBody).content
  if detail = [] then
    .wrap "S3 %s %q returned %s: %w" [lit operation, key, response.status]
      (responseSentinel response.statusCode mutation)
  else
    .wrap "S3 %s %q returned %s (%s): %w" [lit operation, key, response.status, detail]
      (responseSentinel response.statusCode mutation)

def parseTime (value : Bytes) : Option (Option Time) :=
  if value = [] then some none else (s.library.parseTime value).map some

def objectMeta (key : Bytes) (header : Header) : Except Error ObjectMeta := do
  if header.etag = [] then throw (quoted "object %q has no opaque revision: %w" key .integrity)
  match parseInt header.contentLength with
  | none => throw (quoted "object %q has invalid size: %w" key .integrity)
  | some size =>
    if size < 0 then throw (quoted "object %q has invalid size: %w" key .integrity)
    match s.parseTime header.lastModified with
    | none => throw (quoted "object %q has invalid modification time: %w" key .integrity)
    | some modified => pure ⟨key, size, header.etag, header.sha256, modified⟩

def look (operation : String) (q : Bytes → Request) (key : Bytes) : Act (Body × ObjectMeta) := do
  s.newObjectRequest (q key).method key
  let response ← doRequest (q (s.address key))
  if response.statusCode ≠ 200 then throw (s.responseError response operation key false)
  let info ← s.objectMeta key response.header
  pure (response.body, info)

def get (key : Bytes) : Act (Body × ObjectMeta) := s.look "get" .getObject key

def head (key : Bytes) : Act ObjectMeta := do
  let (_, info) ← s.look "head" .headObject key
  pure info

def drain (readFormat closeFormat : String) (key : Bytes) (reader : Body) : Except Error Bytes :=
  match reader.readError, reader.closeError with
  | some cause, _ => throw (.wrap readFormat [key] (.message "%s" [cause]))
  | none, some cause => throw (.wrap closeFormat [key] (.message "%s" [cause]))
  | none, none => pure reader.content

def verifyRemote (key revision expectedSHA256 : Bytes) (expectedSize : Int) : Act Unit := do
  let (reader, info) ← wrapping "read immutable object %q for verification: %w" [key] (s.get key)
  let content ← drain "verify immutable object %q: %w" "close immutable object %q: %w" key reader
  let digest := sha256Hex content
  if info.revision ≠ revision ∨ (content.length : Int) ≠ expectedSize ∨ digest ≠ expectedSHA256 then
    throw (.wrap "immutable object %q readback has revision %q, size %d, and sha256 %s: %w"
      [key, info.revision, lit (toString content.length), digest] (.sentinel .integrity))

def verifySource (key expectedSHA256 : Bytes) (expectedSize : Int) : Act Unit := do
  match ← consult .source with
  | .error cause => throw (.wrap "open immutable source for %q: %w" [key] (.message "%s" [cause]))
  | .nothing => throw (quoted "open immutable source for %q: nil reader: %w" key .integrity)
  | .reader reader =>
    let content ← drain "verify immutable source for %q: %w" "close immutable source for %q: %w" key reader
    let digest := sha256Hex content
    if (content.length : Int) ≠ expectedSize ∨ digest ≠ expectedSHA256 then
      throw (.wrap "immutable source for %q has size %d and sha256 %s: %w"
        [key, lit (toString content.length), digest] (.sentinel .integrity))

def createMultipart (key digest : Bytes) : Act Bytes := do
  s.newObjectRequest "POST" key
  let response ← doRequest (.createMultipart (s.address key) digest)
  if !response.succeeded then throw (s.responseError response "create multipart upload" key true)
  match s.library.uploadID (response.body.limited (2 ^ 20)) with
  | none => throw (quoted "decode multipart upload for %q: %w" key .integrity)
  | some uploadID =>
    if uploadID = [] then throw (quoted "decode multipart upload for %q: %w" key .integrity)
    pure uploadID

def multipartPartSize : Nat := 8 * 2 ^ 20

/-- The loop over the parts. `reader` is what is left to read and `hashed` what was read. -/
def uploadLoop (key uploadID : Bytes) (number remaining : Nat) (reader : Body) (hashed : Bytes)
    (parts : List CompletedPart) : Act (List CompletedPart × Body × Bytes) := do
  if h : remaining > 0 ∨ number = 1 then
    let partSize := min remaining multipartPartSize
    s.newObjectRequest "PUT" key
    let chunk := reader.content.take partSize
    let response ← doRequest (.uploadPart (s.address key) uploadID number chunk)
    if !response.succeeded then throw (s.responseError response "upload multipart part" key true)
    if response.header.etag = [] then
      throw (.wrap "multipart part %d for %q returned no opaque revision: %w"
        [lit (toString number), key] (.sentinel .integrity))
    let read := chunk.take response.consumed
    uploadLoop key uploadID (number + 1) (remaining - partSize)
      { reader with content := reader.content.drop read.length } (hashed ++ read)
      (parts ++ [⟨response.header.etag, number⟩])
  else
    pure (parts, reader, hashed)
termination_by 2 * remaining + if number = 1 then 1 else 0
decreasing_by
  rcases h with h | h
  · unfold multipartPartSize
    split_ifs <;> omega
  · subst h
    simp

def uploadParts (key uploadID expectedSHA256 : Bytes) (size : Nat) : Act (List CompletedPart) := do
  match ← consult .source with
  | .error cause => throw (.wrap "reopen immutable source for %q: %w" [key] (.message "%s" [cause]))
  | .nothing => throw (quoted "reopen immutable source for %q: nil reader: %w" key .integrity)
  | .reader reader =>
    let (parts, rest, hashed) ← s.uploadLoop key uploadID 1 size reader [] []
    if rest.content ≠ [] then throw (quoted "uploaded source for %q exceeds expected size: %w" key .integrity)
    match rest.readError with
    | some cause => throw (.wrap "verify uploaded source for %q: %w" [key] (.message "%s" [cause]))
    | none =>
      let digest := sha256Hex hashed
      if digest ≠ expectedSHA256 then
        throw (.wrap "uploaded source for %q has sha256 %s: %w" [key, digest] (.sentinel .integrity))
      pure parts

def completes (response : Response) : Bool :=
  match s.library.completion (response.body.limited (2 ^ 20)) with
  | none => false
  | some (name, etag) => name = lit "CompleteMultipartUploadResult" && etag ≠ []

def completeMultipart (key uploadID : Bytes) (parts : List CompletedPart) : Act Unit := do
  s.newObjectRequest "POST" key
  let response ← doRequest (.completeMultipart (s.address key) uploadID parts)
  if !response.succeeded then throw (s.responseError response "complete multipart upload" key true)
  if !s.completes response then
    throw (quoted "decode completed multipart upload for %q: %w" key .integrity)

def abortMultipart (key uploadID : Bytes) : Act Unit := do
  s.newObjectRequest "DELETE" key
  let response ← wrapping "abort multipart upload for %q: %w" [key]
    (doRequest (.abortMultipart (s.address key) uploadID))
  if !response.succeeded then throw (s.responseError response "abort multipart upload" key true)

def asExpected (info : ObjectMeta) (expectedSHA256 : Bytes) (expectedSize : Int) : Bool :=
  info.size = expectedSize && info.sha256 = expectedSHA256

/-- The upload after it was created. The flag says that it must not be aborted. -/
def upload (key uploadID expectedSHA256 : Bytes) (expectedSize : Int) :
    Act (Bool × Except Error ObjectMeta) := do
  match ← catching (s.uploadParts key uploadID expectedSHA256 expectedSize.toNat) with
  | .error e => pure (false, .error e)
  | .ok parts =>
    match ← catching (s.completeMultipart key uploadID parts) with
    | .error e =>
      if e.is .ambiguous then
        match ← catching (s.head key) with
        | .error _ => pure (true, .error e)
        | .ok observed =>
          if asExpected observed expectedSHA256 expectedSize then
            match ← catching (s.verifyRemote key observed.revision expectedSHA256 expectedSize) with
            | .error _ => pure (true, .error e)
            | .ok () => pure (true, .ok observed)
          else pure (true, .error e)
      else pure (false, .error e)
    | .ok () =>
      match ← catching (s.head key) with
      | .error e => pure (true, .error (.wrap "read back immutable object %q: %w" [key] e))
      | .ok info =>
        if asExpected info expectedSHA256 expectedSize then pure (true, .ok info)
        else
          pure (true, .error (.wrap "immutable object %q readback has size %d and sha256 %s: %w"
            [key, lit (toString info.size), info.sha256] (.sentinel .integrity)))

def putImmutable (key : Bytes) (source : Bool) (expectedSHA256 : Bytes) (expectedSize : Int) :
    Act ObjectMeta := do
  validateKey key
  if !source || expectedSize < 0 || !validSHA256 expectedSHA256 then
    throw (quoted "immutable object %q expectations: %w" key .integrity)
  match ← catching (s.head key) with
  | .ok current =>
    if asExpected current expectedSHA256 expectedSize then
      s.verifyRemote key current.revision expectedSHA256 expectedSize
      pure current
    else throw (quoted "immutable object %q contains different bytes: %w" key .conflict)
  | .error e =>
    if !e.is .notFound then throw e
    verifySource key expectedSHA256 expectedSize
    let uploadID ← s.createMultipart key expectedSHA256
    let (completed, result) ← s.upload key uploadID expectedSHA256 expectedSize
    if completed then result
    else
      match ← catching (s.abortMultipart key uploadID), result with
      | .ok (), result => result
      | .error abortErr, .error e => throw (.join e abortErr)
      | .error abortErr, .ok _ => throw abortErr

def writeCondition (condition : WriteCondition) : Condition Bytes :=
  if condition.mustBeAbsent then .absent else .revision condition.matchRevision

def putConditional (key body : Bytes) (condition : WriteCondition) : Act ObjectMeta := do
  if condition.mustBeAbsent == !condition.matchRevision.isEmpty then
    throw (quoted "conditional write for %q: %w" key .invalidCondition)
  s.newObjectRequest "PUT" key
  let q : Request := .putObject (s.address key) body (writeCondition condition)
  match ← send q with
  | .error lost => throw (.wrap "%v: %w" [lostText q lost] (.sentinel .ambiguous))
  | .ok response =>
    if !response.succeeded then throw (s.responseError response "put" key true)
    if response.header.etag = [] then
      throw (quoted "put object %q returned no opaque revision: %w" key .integrity)
    pure ⟨key, body.length, response.header.etag, sha256Hex body, none⟩

def deleteConditional (key expected : Bytes) : Act Unit := do
  if expected = [] then throw (quoted "conditional delete for %q: %w" key .invalidCondition)
  s.newObjectRequest "DELETE" key
  let response ← doRequest (.deleteObject (s.address key) expected)
  if !response.succeeded then throw (s.responseError response "delete" key true)

end Store

end Camp.S3Store
