import Camp.Wire.Rfc3339

/-!
# Values of the string types

The constants of the string types of the domain that the code compares with. A
field may hold any string, so records use them through `Open`; a field of a
string type with none of them is a plain string.
-/

namespace Camp

open Wire Wire.Utf8

inductive RuntimeState where
  | running
  | stopped
  | pending
  | ready
  | absent
  | failed
  deriving DecidableEq

instance : Named RuntimeState where
  name
    | .running => "running"
    | .stopped => "stopped"
    | .pending => "pending"
    | .ready => "ready"
    | .absent => "absent"
    | .failed => "failed"
  all := [.running, .stopped, .pending, .ready, .absent, .failed]
  mem_all e := by cases e <;> decide
  nodup := by decide +kernel

inductive SessionState where
  | opening
  | opened
  | recovering
  | closed
  deriving DecidableEq

instance : Named SessionState where
  name
    | .opening => "opening"
    | .opened => "open"
    | .recovering => "recovering"
    | .closed => "closed"
  all := [.opening, .opened, .recovering, .closed]
  mem_all e := by cases e <;> decide
  nodup := by decide +kernel

inductive ImageSource where
  | daemon
  | registry
  deriving DecidableEq

instance : Named ImageSource where
  name
    | .daemon => "daemon"
    | .registry => "registry"
  all := [.daemon, .registry]
  mem_all e := by cases e <;> decide
  nodup := by decide +kernel

inductive Transition where
  | leaseRenewed
  | servingContentRefreshed
  | serviceStart
  | serviceRestart
  | registrySnapshotSealed
  | workspaceMirrored
  | workspaceImagesInventoried
  | rootSnapshotStable
  | generationUploaded
  | pointerCommitted
  deriving DecidableEq

instance : Named Transition where
  name
    | .leaseRenewed => "LeaseRenewed"
    | .servingContentRefreshed => "ServingContentRefreshed"
    | .serviceStart => "ServiceStart"
    | .serviceRestart => "ServiceRestart"
    | .registrySnapshotSealed => "RegistrySnapshotSealed"
    | .workspaceMirrored => "WorkspaceMirrored"
    | .workspaceImagesInventoried => "WorkspaceImagesInventoried"
    | .rootSnapshotStable => "RootSnapshotStable"
    | .generationUploaded => "GenerationUploaded"
    | .pointerCommitted => "PointerCommitted"
  all := [.leaseRenewed, .servingContentRefreshed, .serviceStart, .serviceRestart, .registrySnapshotSealed,
    .workspaceMirrored, .workspaceImagesInventoried, .rootSnapshotStable, .generationUploaded, .pointerCommitted]
  mem_all e := by cases e <;> decide
  nodup := by decide +kernel

end Camp
