import Camp.Coordination.Pointers

/-!
# The writer lease of a lineage

A session holds the lease by the revision of its document. It is created when
there is none, or replaces one that has expired. Holders renew and release it
on the revision they hold.
-/

namespace Camp.Coordination

open Wire Wire.Utf8 Program Program.Objects

structure LeaseOwner where
  sessionID : Bytes
  machine : Bytes
  deriving DecidableEq

structure LeaseToken where
  lease : WriterLease
  revision : Bytes
  deriving DecidableEq

def leaseLost (format : String) : Error := .wrap format [] (.sentinel .leaseLost)

def pointerChanged (format : String) : Error := .wrap format [] (.sentinel .pointerChanged)

/-- `Format(time.RFC3339)`, without the fraction of the second. -/
def secondsText (t : Time) : Bytes :=
  encode ((Rfc3339.format { t with nanos := t.nanos - t.nanos % Rfc3339.nanosPerSecond }).getD [])

namespace Leases

def read (capsule : Bytes) (lineage : Lineage) : Remote LeaseToken :=
  readChecked (lineage.leaseKey capsule) (validateLease · capsule lineage) LeaseToken.mk

/-- The stored lease, if it is the document that was written. -/
def reconcileLease (expected : WriterLease) : Remote (Option LeaseToken) := do
  match ← catching (read expected.capsule expected.lineage) with
  | .ok current => if documentsEqual current.lease expected then return some current
  | .error _ => pure ()
  return none

def releaseAcquiredLease (token : LeaseToken) : Remote Unit := do
  let key ← liftM (token.lease.lineage.leaseKey token.lease.capsule)
  match ← catching (deleteConditional key token.revision) with
  | .ok () => pure ()
  | .error e =>
    if e.is .conflict || e.is .notFound then
      throw (.wrap "release acquired lease: %w" [] (.join (.sentinel .leaseLost) e))
    else throw (.wrap "release acquired lease: %w" [] e)

/-- Why the pointer is not as it was observed before the lease was taken. -/
def observationErr (capsule : Bytes) (lineage : Lineage) :
    Option PointerRecord → Remote (Option Error)
  | none => do
    match ← catching (Pointers.read capsule lineage) with
    | .ok _ => return some (pointerChanged "pointer appeared after absent observation: %w")
    | .error e =>
      if e.is .notFound then return none
      else return some (.join (pointerChanged "verify pointer absence: %w") e)
  | some observed => do
    match ← catching (Pointers.revalidate observed) with
    | .ok () => return none
    | .error e =>
      if e.is .pointerChanged then return some e
      else return some (.join (pointerChanged "revalidate observed pointer: %w") e)

/-- The lease is given back, and the call fails for the given reason. -/
def giveBack (token : LeaseToken) (reason : Error) : Remote LeaseToken := do
  match ← catching (releaseAcquiredLease token) with
  | .ok () => throw reason
  | .error e => throw (.join reason e)

def finishAcquire (capsule : Bytes) (lineage : Lineage) (token : LeaseToken)
    (observed : Option PointerRecord) : Remote LeaseToken := do
  match ← observationErr capsule lineage observed with
  | none => pure token
  | some reason => giveBack token reason

structure Acquisition where
  capsule : Bytes
  lineage : Lineage
  observed : Option PointerRecord
  now : Time
  key : Bytes
  lease : WriterLease
  body : Bytes

namespace Acquisition

variable (a : Acquisition)

/-- After a failed write: the call ends unless the write was refused. -/
def settle (e : Error) (refused : Remote LeaseToken) : Remote LeaseToken := do
  if e.is .ambiguous then
    match ← reconcileLease a.lease with
    | some reconciled => finishAcquire a.capsule a.lineage reconciled a.observed
    | none => throw e
  else if e.is .conflict then refused
  else throw e

def takeOver (current : LeaseToken) (retry : Remote LeaseToken) : Remote LeaseToken := do
  if current.lease.expiresAt.after a.now then
    throw (.wrap "lineage %s/%s is leased by session %s until %s: %w"
      [a.capsule, a.lineage.branch, current.lease.sessionID, secondsText current.lease.expiresAt]
      (.sentinel .leaseHeld))
  match ← catching (putConditional a.key a.body (.revision current.revision)) with
  | .ok revision => finishAcquire a.capsule a.lineage ⟨a.lease, revision⟩ a.observed
  | .error e => a.settle e do
    ask (fun _ => .sentinel .cancelled) (.attempt .contextErr)
    retry

/-- The loop, for a number of rounds. A call that is cut short has not returned. -/
def loop : Nat → Remote LeaseToken
  | 0 => throw (.sentinel .running)
  | rounds + 1 => do
    match ← catching (putConditional a.key a.body .absent) with
    | .ok revision => finishAcquire a.capsule a.lineage ⟨a.lease, revision⟩ a.observed
    | .error e => a.settle e do
      match ← catching (read a.capsule a.lineage) with
      | .error readErr => if readErr.is .notFound then loop rounds else throw readErr
      | .ok current => a.takeOver current (loop rounds)

end Acquisition

def acquireLease (rounds : Nat) (capsule : Bytes) (lineage : Lineage) (owner : LeaseOwner)
    (observed : Option PointerRecord) (opened : Option GenerationRef) (now : Time) (ttl : Int64) :
    Remote LeaseToken := do
  let key ← liftM (lineage.leaseKey capsule)
  if owner.sessionID.isEmpty || owner.machine.isEmpty || now.isZero || ttl ≤ 0 then
    throw (invalid "invalid lease acquisition: %w" [])
  liftM (validateOpened opened)
  let expiresAt := now.add ttl.toInt
  if !expiresAt.after now then throw (invalid "invalid lease expiry: %w" [])
  let lease : WriterLease :=
    { schemaVersion, capsule, lineage
      sessionID := owner.sessionID
      machine := owner.machine
      openedGeneration := opened
      createdAt := now
      heartbeatAt := now
      expiresAt }
  match marshal lease with
  | none => throw (.sentinel .json)
  | some body => Acquisition.loop { capsule, lineage, observed, now, key, lease, body } rounds

def acquire (rounds : Nat) (capsule : Bytes) (lineage : Lineage) (owner : LeaseOwner)
    (observed : Option PointerRecord) (now : Time) (ttl : Int64) : Remote LeaseToken := do
  match observed with
  | none => pure ()
  | some record =>
    if record.revision.isEmpty then throw (invalid "observed pointer has no revision: %w" [])
    match validatePointer record.pointer capsule lineage with
    | .error e => throw (.wrap "validate observed pointer: %w" [] e)
    | .ok () => pure ()
  acquireLease rounds capsule lineage owner observed (observed.map (·.pointer.generation)) now ttl

/-- Run a step whose error is reported under the given text. -/
def about {α : Type} (format : String) (p : Remote α) : Remote α := do
  match ← catching p with
  | .ok a => pure a
  | .error e => throw (.wrap format [] e)

def acquireBranchFrom (rounds : Nat) (capsule : Bytes) (lineage : Lineage) (owner : LeaseOwner)
    (source : PointerRecord) (now : Time) (ttl : Int64) : Remote LeaseToken := do
  if lineage.isMain || source.pointer.lineage = lineage || source.revision.isEmpty then
    throw (invalid "invalid branch source: %w" [])
  about "validate branch source pointer: %w"
    (liftM (validatePointer source.pointer capsule source.pointer.lineage))
  about "revalidate branch source pointer: %w" (Pointers.revalidate source)
  let token ← acquireLease rounds capsule lineage owner none (some source.pointer.generation) now ttl
  match ← catching (Pointers.revalidate source) with
  | .ok () => pure token
  | .error _ => giveBack token (pointerChanged "branch source changed during lease acquisition: %w")

def readHeld (disappeared stale : String) (token : LeaseToken) : Remote LeaseToken := do
  match ← catching (read token.lease.capsule token.lease.lineage) with
  | .error e => if e.is .notFound then throw (leaseLost disappeared) else throw e
  | .ok current =>
    if current.revision ≠ token.revision || !documentsEqual current.lease token.lease then
      throw (leaseLost stale)
    pure current

def revalidate (token : LeaseToken) (now : Time) : Remote Unit := do
  if now.isZero || token.lease.heartbeatAt.after now then
    throw (invalid "invalid lease validation time: %w" [])
  let current ← readHeld "lease disappeared: %w" "lease token is stale or expired: %w" token
  if !current.lease.expiresAt.after now then
    throw (leaseLost "lease token is stale or expired: %w")

def renew (token : LeaseToken) (now : Time) (ttl : Int64) : Remote LeaseToken := do
  if now.isZero || ttl ≤ 0 || token.lease.heartbeatAt.after now then
    throw (invalid "invalid lease renewal: %w" [])
  let expiresAt := now.add ttl.toInt
  if !expiresAt.after now then throw (invalid "invalid lease expiry: %w" [])
  let _ ← readHeld "lease disappeared: %w" "lease token is stale: %w" token
  let renewed := { token.lease with heartbeatAt := now, expiresAt }
  match marshal renewed with
  | none => throw (.sentinel .json)
  | some body =>
    let key ← liftM (renewed.lineage.leaseKey renewed.capsule)
    match ← catching (putConditional key body (.revision token.revision)) with
    | .ok revision => pure ⟨renewed, revision⟩
    | .error e =>
      if e.is .ambiguous then
        match ← reconcileLease renewed with
        | some reconciled => return reconciled
        | none => pure ()
      if e.is .conflict || e.is .notFound then throw (leaseLost "renew lease: %w")
      throw e

def release (token : LeaseToken) : Remote Unit := do
  let _ ← readHeld "release missing lease: %w" "release stale lease token: %w" token
  let key ← liftM (token.lease.lineage.leaseKey token.lease.capsule)
  match ← catching (deleteConditional key token.revision) with
  | .ok () => pure ()
  | .error e =>
    if e.is .ambiguous then
      match ← catching (ask plainly (.head key)) with
      | .error readErr => if readErr.is .notFound then return ()
      | .ok _ => pure ()
    if e.is .conflict || e.is .notFound then throw (leaseLost "release lease: %w")
    throw e

end Leases

end Camp.Coordination
