import Camp.Program.Objects
import Camp.Coordination.Documents

/-!
# The pointer of a lineage

The pointer names the latest generation. It is replaced by a conditional write
on the revision that was read. When the outcome of the write got lost the
pointer is read again, and what is found is compared with what was written.
-/

namespace Camp.Coordination

open Wire Wire.Utf8 Program Program.Objects

/-- What the store reports of an object. The digest may be left out. -/
structure ObjectMeta where
  size : Int64
  sha256 : Bytes
  deriving DecidableEq

inductive Probe where
  | contextErr
  | readBody
  | closeBody
  deriving DecidableEq

abbrev ObjectStore := Service Bytes Bytes Bytes ObjectMeta Bool ObjectMeta

abbrev RemoteSignature := signature Bytes Bytes Bytes ObjectMeta ObjectMeta Probe

abbrev Remote := ExceptT Error (Prog RemoteSignature)

abbrev Bucket := Objects.Bucket Bytes Bytes

def storeSentinel : StoreError → Sentinel
  | .notFound => .notFound
  | .conflict => .conflict
  | .ambiguous => .ambiguous
  | .integrity => .integrity
  | .unavailable => .unavailable

def plainly (e : StoreError) : Error := .sentinel (storeSentinel e)

def putConditional (key body : Bytes) (condition : Condition Bytes) : Remote Bytes :=
  if condition = .revision [] then
    throw (.wrap "conditional write for %q: %w" [key] (.sentinel .invalidCondition))
  else ask plainly (.putConditional key body condition)

def deleteConditional (key revision : Bytes) : Remote Unit :=
  if revision = [] then throw (.wrap "delete object %q: %w" [key] (.sentinel .invalidCondition))
  else ask plainly (.deleteConditional key revision)

def maxCoordinationDocumentSize : Nat := 2 ^ 20

def readJSON (α : Type) [Wired α] (key : Bytes) : Remote (α × Bytes) := do
  let (body, revision) ← ask plainly (.get key)
  ask (fun _ => .wrap "read coordination object %q: %w" [key] (.sentinel .io)) (.attempt .readBody)
  ask (fun _ => .wrap "close coordination object %q: %w" [key] (.sentinel .io)) (.attempt .closeBody)
  if maxCoordinationDocumentSize < body.length then
    throw (invalid "coordination object %q exceeds size limit: %w" [key])
  match unmarshal body with
  | none => throw (invalid "decode coordination object %q: %v: %w" [key])
  | some document => pure (document, revision)

/-- The document under a key, with its bytes and what the store reports of it. -/
def readJSONWithBytes (α : Type) [Wired α] (key : Bytes) : Remote (Bytes × α × ObjectMeta × Bytes) := do
  let (body, object) ← ask plainly (.fetch key)
  ask (fun _ => .wrap "read coordination object %q: %w" [key] (.sentinel .io)) (.attempt .readBody)
  ask (fun _ => .wrap "close coordination object %q: %w" [key] (.sentinel .io)) (.attempt .closeBody)
  if maxCoordinationDocumentSize < body.length then
    throw (invalid "coordination object %q exceeds size limit: %w" [key])
  match unmarshal body with
  | none => throw (invalid "decode coordination object %q: %v: %w" [key])
  | some document => pure (body, document, object)

def readChecked {α β : Type} [Wired α] (key : Except Error Bytes) (check : α → Except Error Unit)
    (make : α → Bytes → β) : Remote β := do
  let key ← liftM key
  let (document, revision) ← readJSON α key
  liftM (check document)
  pure (make document revision)

structure PointerRecord where
  pointer : LatestPointer
  revision : Bytes
  deriving DecidableEq

namespace Pointers

def read (capsule : Bytes) (lineage : Lineage) : Remote PointerRecord :=
  readChecked (lineage.pointerKey capsule) (validatePointer · capsule lineage) PointerRecord.mk

def revalidate (observed : PointerRecord) : Remote Unit := do
  match ← catching (read observed.pointer.capsule observed.pointer.lineage) with
  | .error e =>
    if e.is .notFound then throw (.wrap "revalidate pointer: %w" [] (.sentinel .pointerChanged))
    else throw e
  | .ok current =>
    if current.revision ≠ observed.revision || !documentsEqual current.pointer observed.pointer then
      throw (.wrap "revalidate pointer at revision %q: %w" [observed.revision]
        (.sentinel .pointerChanged))

/-- After a write of `next` failed: the stored record, if the outcome was lost
and the record is the document that was written. -/
def reconcile (next : LatestPointer) (e : Error) : Remote (Option PointerRecord) := do
  if e.is .ambiguous then
    match ← catching (read next.capsule next.lineage) with
    | .ok reconciled => if documentsEqual reconciled.pointer next then return some reconciled
    | .error _ => pure ()
  return none

/-- The conditional write of `next`, and the readback when its outcome got lost. -/
def write (key body : Bytes) (condition : Condition Bytes) (next : LatestPointer)
    (refused : Error → Error) : Remote PointerRecord := do
  match ← catching (putConditional key body condition) with
  | .ok revision => pure ⟨next, revision⟩
  | .error e =>
    match ← reconcile next e with
    | some reconciled => pure reconciled
    | none => throw (refused e)

def create (next : LatestPointer) : Remote PointerRecord := do
  liftM (validatePointer next next.capsule next.lineage)
  if !next.lineage.isMain && next.parent = none then
    throw (invalid "branch pointer has no source parent: %w" [])
  let key ← liftM (next.lineage.pointerKey next.capsule)
  match marshal next with
  | none => throw (.wrap "marshal pointer %q: %w" [key] (.sentinel .json))
  | some body => write key body .absent next fun e => e

def replace (marshalFormat format : String) (expected : PointerRecord) (next : LatestPointer) :
    Remote PointerRecord := do
  revalidate expected
  match marshal next with
  | none => throw (.wrap marshalFormat [] (.sentinel .json))
  | some body =>
    let key ← liftM (next.lineage.pointerKey next.capsule)
    write key body (.revision expected.revision) next fun e =>
      if e.is .conflict || e.is .notFound then .wrap format [key] (.sentinel .pointerChanged) else e

/-- The checks on the expected record and on the pointer that replaces it. -/
def validateReplacement (expected : PointerRecord) (next : LatestPointer) : Except Error Unit := do
  validatePointer expected.pointer expected.pointer.capsule expected.pointer.lineage
  if expected.revision.isEmpty then
    throw (invalid "pointer has empty expected revision: %w" [])
  validatePointer next expected.pointer.capsule expected.pointer.lineage

def compareAndSwap (expected : PointerRecord) (next : LatestPointer) : Remote PointerRecord := do
  liftM (validateReplacement expected next)
  if next.parent ≠ some expected.pointer.generation then
    throw (invalid "next pointer parent does not match current generation: %w" [])
  if next.generation.generation ≤ expected.pointer.generation.generation then
    throw (invalid "next pointer generation %d does not advance %d: %w"
      [decimal next.generation.generation.toNat,
        decimal expected.pointer.generation.generation.toNat])
  replace "marshal next pointer: %w" "compare and swap pointer %q: %w" expected next

def selectHistorical (expected : PointerRecord) (historical : LatestPointer) :
    Remote PointerRecord := do
  liftM (validateReplacement expected historical)
  if expected.pointer.generation.generation ≤ historical.generation.generation then
    throw (invalid "historical generation %d does not precede current generation %d: %w"
      [decimal historical.generation.generation.toNat,
        decimal expected.pointer.generation.generation.toNat])
  replace "marshal historical pointer: %w" "select historical pointer %q: %w" expected historical

end Pointers

end Camp.Coordination
