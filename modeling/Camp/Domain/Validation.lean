import Camp.Domain.Session
import Camp.Program.Prog

/-!
# Errors and checks of the domain
-/

namespace Camp

open Wire Wire.Utf8 Program

inductive Sentinel where
  | cancelled
  | notExist
  | exist
  | io
  | json
  | invalidBlueprintRef
  | invalidExecutionBinding
  | executionRetarget
  | executionAlreadyStarted
  | notFound
  | conflict
  | ambiguous
  | integrity
  | invalidCondition
  | unavailable
  | invalidDocument
  | pointerChanged
  | leaseHeld
  | leaseLost
  | generationVerification
  /-- The call is still in its loop. -/
  | running
  deriving DecidableEq

abbrev Error := Failure Sentinel

def schemaVersion : Int64 := 1

/-- One of the bytes `/`, `\` and NUL occurs. -/
def containsSeparator (s : Bytes) : Bool := s.any fun b => b = 47 || b = 92 || b = 0

def isSegment (s : Bytes) : Bool :=
  !(s.isEmpty || s == lit "." || s == lit ".." || containsSeparator s)

def validLowerSHA256 (s : Bytes) : Bool :=
  s.length == 64 && s.all fun b => (48 ≤ b && b ≤ 57) || (97 ≤ b && b ≤ 102)

namespace BlueprintRef

def validate (r : BlueprintRef) : Except Error Unit := do
  if r.schemaVersion ≠ 1 then
    throw (.wrap "%w: unsupported schema version %d" [] (.sentinel .invalidBlueprintRef))
  unless validLowerSHA256 r.digest do
    throw (.wrap "%w: digest must be 64 lowercase hexadecimal characters" []
      (.sentinel .invalidBlueprintRef))

end BlueprintRef

namespace ExecutionBinding

def validate (b : ExecutionBinding) : Except Error Unit := do
  if b.schemaVersion ≠ 1 then
    throw (.wrap "%w: unsupported schema version %d" [] (.sentinel .invalidExecutionBinding))
  match b.blueprint.validate with
  | .error _ => throw (.wrap "%w: %v" [] (.sentinel .invalidExecutionBinding))
  | .ok () => pure ()
  unless b.profileDigest.isEmpty || validLowerSHA256 b.profileDigest do
    throw (.wrap "%w: profile digest must be 64 lowercase hexadecimal characters" []
      (.sentinel .invalidExecutionBinding))

end ExecutionBinding

end Camp
