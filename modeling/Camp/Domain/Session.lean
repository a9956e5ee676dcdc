import Camp.Domain.Records

/-!
# The record of a session

What one session knows about its processes, services and workspace, the plan
from which it can be recovered, and the snapshot that holds all of it.
-/

namespace Camp

open Wire Wire.Utf8 Fields

structure ProcessIdentity where
  pid : Int64
  bootID : Bytes
  startTicks : UInt64
  deriving DecidableEq

instance : Record ProcessIdentity where
  fields := (none ProcessIdentity.mk)
    |>.field "pid" (·.pid)
    |>.field "bootId" (·.bootID)
    |>.field "startTicks" (·.startTicks)
  apart := by decide +kernel
  view_view _ := by simp

structure ProcessRecord where
  identity : ProcessIdentity
  desiredExecutable : Bytes
  observedExecutable : Bytes
  argv : Option (List Bytes)
  argvSHA256 : Bytes
  parentPID : Int64
  pgid : Int64
  sid : Int64
  netNS : Bytes
  deriving DecidableEq

instance : Record ProcessRecord where
  fields := (none ProcessRecord.mk)
    |>.field "identity" (·.identity)
    |>.field "desiredExecutable" (·.desiredExecutable)
    |>.field "observedExecutable" (·.observedExecutable)
    |>.field "argv" (·.argv)
    |>.field "argvSha256" (·.argvSHA256)
    |>.field "parentPid" (·.parentPID)
    |>.field "pgid" (·.pgid)
    |>.field "sid" (·.sid)
    |>.field "netNs" (·.netNS)
  apart := by decide +kernel
  view_view _ := by simp

structure EndpointMapping where
  hostAddress : Bytes
  hostPort : Int64
  guestPort : Int64
  deriving DecidableEq

instance : Record EndpointMapping where
  fields := (none EndpointMapping.mk)
    |>.field "hostAddress" (·.hostAddress)
    |>.field "hostPort" (·.hostPort)
    |>.field "guestPort" (·.guestPort)
  apart := by decide +kernel
  view_view _ := by simp

structure ConfinementRecord where
  executable : Bytes
  version : Bytes
  environmentFingerprint : Bytes
  boundary : Bytes
  deriving DecidableEq

instance : Record ConfinementRecord where
  fields := (none ConfinementRecord.mk)
    |>.field "executable" (·.executable)
    |>.field "version" (·.version)
    |>.field "environmentFingerprint" (·.environmentFingerprint)
    |>.field "boundary" (·.boundary)
  apart := by decide +kernel
  view_view _ := by simp

structure ServiceUnitRecord where
  name : Bytes
  launchToken : Bytes
  confinement : ConfinementRecord
  mapping : EndpointMapping
  pidPath : Bytes
  logPath : Bytes
  helper : ProcessRecord
  child : ProcessRecord
  desiredState : Open RuntimeState
  observedState : Open RuntimeState
  deriving DecidableEq

instance : Record ServiceUnitRecord where
  fields := (none ServiceUnitRecord.mk)
    |>.field "name" (·.name)
    |>.field "launchToken" (·.launchToken)
    |>.field "confinement" (·.confinement)
    |>.field "mapping" (·.mapping)
    |>.field "pidPath" (·.pidPath)
    |>.field "logPath" (·.logPath)
    |>.field "helper" (·.helper)
    |>.field "child" (·.child)
    |>.field "desiredState" (·.desiredState)
    |>.field "observedState" (·.observedState)
  apart := by decide +kernel
  view_view _ := by simp

structure LeaseRecord where
  lease : Option WriterLease
  revision : Bytes
  deriving DecidableEq

instance : Record LeaseRecord where
  fields := (none LeaseRecord.mk)
    |>.fieldOmit "lease" (·.lease)
    |>.fieldOmit "revision" (·.revision)
  apart := by decide +kernel
  view_view _ := by simp

structure MirrorAttemptRecord where
  logicalAttempt : UInt64
  attemptID : Bytes
  state : Bytes
  root : Bytes
  remoteRoot : Bytes
  method : Bytes
  exclusions : Option (List Bytes)
  deriving DecidableEq

instance : Record MirrorAttemptRecord where
  fields := (none MirrorAttemptRecord.mk)
    |>.fieldOmit "logicalAttempt" (·.logicalAttempt)
    |>.fieldOmit "attemptId" (·.attemptID)
    |>.fieldOmit "state" (·.state)
    |>.fieldOmit "root" (·.root)
    |>.fieldOmit "remoteRoot" (·.remoteRoot)
    |>.fieldOmit "method" (·.method)
    |>.fieldOmit "exclusions" (·.exclusions)
  apart := by decide +kernel
  view_view _ := by simp

structure WorkspaceRecord where
  id : Bytes
  context : Bytes
  provider : Bytes
  localProvider : Bool
  localFolder : Bytes
  target : Bytes
  stagingRoot : Bytes
  effectiveRoot : Bytes
  hardlinksRestored : Bool
  imagesRestored : Bool
  mirror : MirrorAttemptRecord
  deriving DecidableEq

instance : Record WorkspaceRecord where
  fields := (none WorkspaceRecord.mk)
    |>.fieldOmit "id" (·.id)
    |>.fieldOmit "context" (·.context)
    |>.fieldOmit "provider" (·.provider)
    |>.fieldOmit "localProvider" (·.localProvider)
    |>.fieldOmit "localFolder" (·.localFolder)
    |>.fieldOmit "target" (·.target)
    |>.fieldOmit "stagingRoot" (·.stagingRoot)
    |>.fieldOmit "effectiveRoot" (·.effectiveRoot)
    |>.fieldOmit "hardlinksRestored" (·.hardlinksRestored)
    |>.fieldOmit "imagesRestored" (·.imagesRestored)
    |>.field "mirror" (·.mirror)
  apart := by decide +kernel
  view_view _ := by simp

structure EndpointRecord where
  candidates : Option (List EndpointMapping)
  committed : Option (List EndpointMapping)
  deriving DecidableEq

instance : Record EndpointRecord where
  fields := (none EndpointRecord.mk)
    |>.fieldOmit "candidates" (·.candidates)
    |>.fieldOmit "committed" (·.committed)
  apart := by decide +kernel
  view_view _ := by simp

structure SupervisorRecord where
  identity : ProcessIdentity
  desired : Open RuntimeState
  observed : Open RuntimeState
  deriving DecidableEq

instance : Record SupervisorRecord where
  fields := (none SupervisorRecord.mk)
    |>.field "identity" (·.identity)
    |>.field "desiredState" (·.desired)
    |>.field "observedState" (·.observed)
  apart := by decide +kernel
  view_view _ := by simp

structure SessionPaths where
  dataRoot : Bytes
  workRoot : Bytes
  storeRoot : Bytes
  sessionRoot : Bytes
  cacheRoot : Bytes
  deriving DecidableEq

instance : Record SessionPaths where
  fields := (none SessionPaths.mk)
    |>.field "dataRoot" (·.dataRoot)
    |>.field "workRoot" (·.workRoot)
    |>.field "storeRoot" (·.storeRoot)
    |>.field "sessionRoot" (·.sessionRoot)
    |>.field "cacheRoot" (·.cacheRoot)
  apart := by decide +kernel
  view_view _ := by simp

structure ConfigurationRecord where
  capsule : Bytes
  backendKind : Bytes
  backendURL : Bytes
  backendFingerprint : Bytes
  source : Bytes
  registryPort : Int64
  fileserverPort : Int64
  devcontainerPath : Bytes
  paths : SessionPaths
  deriving DecidableEq

instance : Record ConfigurationRecord where
  fields := (none ConfigurationRecord.mk)
    |>.field "capsule" (·.capsule)
    |>.field "backendKind" (·.backendKind)
    |>.field "backendUrl" (·.backendURL)
    |>.field "backendFingerprint" (·.backendFingerprint)
    |>.fieldOmit "source" (·.source)
    |>.field "registryPort" (·.registryPort)
    |>.field "fileserverPort" (·.fileserverPort)
    |>.fieldOmit "devcontainerPath" (·.devcontainerPath)
    |>.field "paths" (·.paths)
  apart := by decide +kernel
  view_view _ := by simp

structure SessionArtifactPaths where
  root : Bytes
  runtimeRoot : Bytes
  haulPath : Bytes
  registryOverlay : Bytes
  deriving DecidableEq

instance : Record SessionArtifactPaths where
  fields := (none SessionArtifactPaths.mk)
    |>.field "root" (·.root)
    |>.field "runtimeRoot" (·.runtimeRoot)
    |>.field "haulPath" (·.haulPath)
    |>.field "registryOverlay" (·.registryOverlay)
  apart := by decide +kernel
  view_view _ := by simp

structure SourceDecision where
  kind : Bytes
  root : Bytes
  initialized : Bool
  lineage : Option Lineage
  generation : Option GenerationRef
  deriving DecidableEq

instance : Record SourceDecision where
  fields := (none SourceDecision.mk)
    |>.field "kind" (·.kind)
    |>.fieldOmit "root" (·.root)
    |>.field "initialized" (·.initialized)
    |>.fieldOmit "lineage" (·.lineage)
    |>.fieldOmit "generation" (·.generation)
  apart := by decide +kernel
  view_view _ := by simp

structure CommandRecord where
  executable : Bytes
  argv : Option (List Bytes)
  directory : Bytes
  deriving DecidableEq

instance : Record CommandRecord where
  fields := (none CommandRecord.mk)
    |>.field "executable" (·.executable)
    |>.field "argv" (·.argv)
    |>.fieldOmit "directory" (·.directory)
  apart := by decide +kernel
  view_view _ := by simp

structure DesiredServiceRecord where
  name : Bytes
  launchToken : Bytes
  mapping : EndpointMapping
  pidPath : Bytes
  logPath : Bytes
  child : CommandRecord
  deriving DecidableEq

instance : Record DesiredServiceRecord where
  fields := (none DesiredServiceRecord.mk)
    |>.field "name" (·.name)
    |>.field "launchToken" (·.launchToken)
    |>.field "mapping" (·.mapping)
    |>.field "pidPath" (·.pidPath)
    |>.field "logPath" (·.logPath)
    |>.field "child" (·.child)
  apart := by decide +kernel
  view_view _ := by simp

structure EntryRequestRecord where
  mode : Bytes
  target : Bytes
  ide : Bytes
  deriving DecidableEq

instance : Record EntryRequestRecord where
  fields := (none EntryRequestRecord.mk)
    |>.field "mode" (·.mode)
    |>.fieldOmit "target" (·.target)
    |>.fieldOmit "ide" (·.ide)
  apart := by decide +kernel
  view_view _ := by simp

structure ForwardingRecord where
  name : Bytes
  localEndpoint : Bytes
  workspaceEndpoint : Bytes
  evidencePath : Bytes
  evidenceDevice : UInt64
  evidenceInode : UInt64
  process : ProcessRecord
  desiredState : Open RuntimeState
  observedState : Open RuntimeState
  deriving DecidableEq

instance : Record ForwardingRecord where
  fields := (none ForwardingRecord.mk)
    |>.field "name" (·.name)
    |>.field "localEndpoint" (·.localEndpoint)
    |>.field "workspaceEndpoint" (·.workspaceEndpoint)
    |>.field "evidencePath" (·.evidencePath)
    |>.fieldOmit "evidenceDevice" (·.evidenceDevice)
    |>.fieldOmit "evidenceInode" (·.evidenceInode)
    |>.field "process" (·.process)
    |>.field "desiredState" (·.desiredState)
    |>.field "observedState" (·.observedState)
  apart := by decide +kernel
  view_view _ := by simp

structure CleanupPolicy where
  workspaceAction : Bytes
  removeOwnedMaterialization : Bool
  removeSessionArtifacts : Bool
  deriving DecidableEq

instance : Record CleanupPolicy where
  fields := (none CleanupPolicy.mk)
    |>.field "workspaceAction" (·.workspaceAction)
    |>.field "removeOwnedMaterialization" (·.removeOwnedMaterialization)
    |>.field "removeSessionArtifacts" (·.removeSessionArtifacts)
  apart := by decide +kernel
  view_view _ := by simp

structure HydrationPlan where
  token : Bytes
  stageRoot : Bytes
  finalRoot : Bytes
  deriving DecidableEq

instance : Record HydrationPlan where
  fields := (none HydrationPlan.mk)
    |>.field "token" (·.token)
    |>.field "stageRoot" (·.stageRoot)
    |>.field "finalRoot" (·.finalRoot)
  apart := by decide +kernel
  view_view _ := by simp

structure RemoteDataPlaneRecord where
  mode : Bytes
  attemptID : Bytes
  bootstrapRoot : Bytes
  kitSHA256 : Bytes
  kitSize : Int64
  helperSHA256 : Bytes
  helperSize : Int64
  manifestSHA256 : Bytes
  manifestSize : Int64
  sourceImage : Bytes
  outerImage : Bytes
  lifecycleUser : Bytes
  requestSchema : UInt32
  requestSession : Bytes
  workspaceRoot : Bytes
  runtimeRoot : Bytes
  manifestPath : Bytes
  architecture : Bytes
  configSHA256 : Bytes
  configSize : Int64
  deriving DecidableEq

instance : Record RemoteDataPlaneRecord where
  fields := (none RemoteDataPlaneRecord.mk)
    |>.field "mode" (·.mode)
    |>.field "attemptId" (·.attemptID)
    |>.fieldOmit "bootstrapRoot" (·.bootstrapRoot)
    |>.fieldOmit "kitSHA256" (·.kitSHA256)
    |>.fieldOmit "kitSize" (·.kitSize)
    |>.fieldOmit "helperSHA256" (·.helperSHA256)
    |>.fieldOmit "helperSize" (·.helperSize)
    |>.fieldOmit "manifestSHA256" (·.manifestSHA256)
    |>.fieldOmit "manifestSize" (·.manifestSize)
    |>.fieldOmit "sourceImage" (·.sourceImage)
    |>.fieldOmit "outerImage" (·.outerImage)
    |>.fieldOmit "lifecycleUser" (·.lifecycleUser)
    |>.fieldOmit "requestSchema" (·.requestSchema)
    |>.fieldOmit "requestSession" (·.requestSession)
    |>.fieldOmit "workspaceRoot" (·.workspaceRoot)
    |>.fieldOmit "runtimeRoot" (·.runtimeRoot)
    |>.fieldOmit "manifestPath" (·.manifestPath)
    |>.fieldOmit "architecture" (·.architecture)
    |>.fieldOmit "configSHA256" (·.configSHA256)
    |>.fieldOmit "configSize" (·.configSize)
  apart := by decide +kernel
  view_view _ := by simp

structure RecoveryRecord where
  objective : Bytes
  configuration : ConfigurationRecord
  session : SessionArtifactPaths
  source : SourceDecision
  hydration : Option HydrationPlan
  remoteDataPlane : Option RemoteDataPlaneRecord
  desiredServices : Option (List DesiredServiceRecord)
  entry : EntryRequestRecord
  forwarding : Option (List ForwardingRecord)
  cleanup : CleanupPolicy
  deriving DecidableEq

instance : Record RecoveryRecord where
  fields := (none RecoveryRecord.mk)
    |>.field "objective" (·.objective)
    |>.field "configuration" (·.configuration)
    |>.field "session" (·.session)
    |>.field "source" (·.source)
    |>.fieldOmit "hydration" (·.hydration)
    |>.fieldOmit "remoteDataPlane" (·.remoteDataPlane)
    |>.fieldOmit "desiredServices" (·.desiredServices)
    |>.field "entry" (·.entry)
    |>.fieldOmit "forwarding" (·.forwarding)
    |>.field "cleanup" (·.cleanup)
  apart := by decide +kernel
  view_view _ := by simp

structure JournalSnapshot where
  schemaVersion : Int64
  sessionID : Bytes
  capsule : Bytes
  lineage : Lineage
  mode : Bytes
  tools : ToolVersions
  executionBinding : Option ExecutionBinding
  openedGeneration : Option GenerationRef
  currentBase : Option GenerationRef
  currentPointer : Option LatestPointer
  expectedPointerRevision : Bytes
  confinement : ConfinementRecord
  lease : LeaseRecord
  workspace : WorkspaceRecord
  endpoints : EndpointRecord
  supervisor : SupervisorRecord
  services : Option (List ServiceUnitRecord)
  images : ImageInventory
  registryCutRoot : Bytes
  recovery : RecoveryRecord
  state : Open SessionState
  materialization : Materialization
  checkpoint : Checkpoint
  cleanup : Cleanup
  createdAt : Time
  updatedAt : Time
  deriving DecidableEq

instance : Record JournalSnapshot where
  fields := (none JournalSnapshot.mk)
    |>.field "schemaVersion" (·.schemaVersion)
    |>.field "sessionId" (·.sessionID)
    |>.field "capsule" (·.capsule)
    |>.field "lineage" (·.lineage)
    |>.field "mode" (·.mode)
    |>.field "tools" (·.tools)
    |>.fieldOmit "executionBinding" (·.executionBinding)
    |>.fieldOmit "openedGeneration" (·.openedGeneration)
    |>.fieldOmit "currentBase" (·.currentBase)
    |>.fieldOmit "currentPointer" (·.currentPointer)
    |>.fieldOmit "expectedPointerRevision" (·.expectedPointerRevision)
    |>.field "confinement" (·.confinement)
    |>.field "lease" (·.lease)
    |>.field "workspace" (·.workspace)
    |>.field "endpoints" (·.endpoints)
    |>.field "supervisor" (·.supervisor)
    |>.fieldOmit "services" (·.services)
    |>.field "images" (·.images)
    |>.fieldOmit "registryCutRoot" (·.registryCutRoot)
    |>.field "recovery" (·.recovery)
    |>.field "state" (·.state)
    |>.field "materialization" (·.materialization)
    |>.field "checkpoint" (·.checkpoint)
    |>.field "cleanup" (·.cleanup)
    |>.field "createdAt" (·.createdAt)
    |>.field "updatedAt" (·.updatedAt)
  apart := by decide +kernel
  view_view _ := by simp

def JournalSnapshot.withBinding (s : JournalSnapshot) (binding : ExecutionBinding) : JournalSnapshot :=
  { s with executionBinding := some binding }

end Camp
