import Camp.Program.Checks
import Camp.Program.Paths
import Camp.Shell.Lexer

/-!
# Commands that copy a remote tree

The mirror by rsync, and the pair of processes that copies by tar. The producer of the pair
hands a text to the shell of the remote side.
-/

namespace Camp.SshTransfer

open Wire Wire.Utf8 Program.Paths Program.Checks Shell List

structure Command where
  executable : Bytes
  argv : List Bytes
  deriving DecidableEq

def alphanumeric (b : UInt8) : Bool := (65 ≤ b && b ≤ 90) || (97 ≤ b && b ≤ 122) || (48 ≤ b && b ≤ 57)

/-- The expression `^[A-Za-z0-9][A-Za-z0-9_-]*$`. -/
def workspaceIDPattern : Bytes → Bool
  | [] => false
  | b :: rest => alphanumeric b && rest.all fun b => alphanumeric b || b == 95 || b == 45

def devPodHost (workspaceID : Bytes) : Except String Bytes := do
  refuse (!workspaceIDPattern workspaceID) ("DevPod workspace ID is invalid")
  return workspaceID ++ lit ".devpod"

def validAbsoluteRoot (root : Bytes) : Bool :=
  root != [] && rooted root && clean root == root && !root.any fun b => b == 13 || b == 10 || b == 0

def directoryPath (root : Bytes) : Bytes := if root = [slash] then root else root ++ [slash]

structure RsyncMirrorSpec where
  executable : Bytes
  workspaceID : Bytes
  remoteRoot : Bytes
  localRoot : Bytes
  deriving DecidableEq

def buildRsyncMirror (spec : RsyncMirrorSpec) : Except String Command := do
  refuse (spec.executable == []) ("rsync executable is required")
  let host ← devPodHost spec.workspaceID
  refuse (!validAbsoluteRoot spec.remoteRoot || !validAbsoluteRoot spec.localRoot)
    ("rsync roots must be clean absolute paths")
  return ⟨spec.executable,
    ["--archive", "--hard-links", "--delete", "--protect-args", "--exclude=/.camp/build/***",
      "--exclude=/.camp/runtime/***", "--"].map lit ++
    [host ++ lit ":" ++ directoryPath spec.remoteRoot, directoryPath spec.localRoot]⟩

structure TarPipeSpec where
  sshExecutable : Bytes
  devPodExecutable : Bytes
  devPodContext : Bytes
  tarExecutable : Bytes
  workspaceID : Bytes
  remoteRoot : Bytes
  localRoot : Bytes
  deriving DecidableEq

structure TarPipe where
  producer : Command
  consumer : Command
  deriving DecidableEq

def remoteShellQuote (value : Bytes) : Bytes := quotation value

def remoteCommand (remoteRoot : Bytes) : Bytes :=
  lit "tar --create --file=- --directory=" ++ remoteShellQuote remoteRoot ++
    lit " --exclude='./.camp/build' --exclude='./.camp/runtime' ."

def buildTarPipe (spec : TarPipeSpec) : Except String TarPipe := do
  refuse ((spec.sshExecutable == [] && spec.devPodExecutable == []) || spec.tarExecutable == [])
    ("remote transport and tar executables are required")
  let host ← devPodHost spec.workspaceID
  refuse (!validAbsoluteRoot spec.remoteRoot || !validAbsoluteRoot spec.localRoot)
    ("tar roots must be clean absolute paths")
  refuse (spec.devPodExecutable != [] && spec.devPodContext == []) ("DevPod context is required")
  let text := remoteCommand spec.remoteRoot
  let producer : Command :=
    if spec.devPodExecutable = [] then ⟨spec.sshExecutable, [host, text]⟩
    else ⟨spec.devPodExecutable, [lit "ssh", lit "--context", spec.devPodContext, lit "--start-services=false",
      lit "--command", text, spec.workspaceID]⟩
  return ⟨producer, ⟨spec.tarExecutable,
    [lit "--extract", lit "--file=-", lit "--directory=" ++ spec.localRoot, lit "-p"]⟩⟩

/-- The words that the remote tar is to receive. -/
def remoteWords (remoteRoot : Bytes) : List Bytes :=
  [lit "tar", lit "--create", lit "--file=-", lit "--directory=" ++ remoteRoot, lit "--exclude=./.camp/build",
    lit "--exclude=./.camp/runtime", lit "."]

def remotePieces (remoteRoot : Bytes) : List Piece :=
  [⟨lit "tar", none⟩, ⟨lit "--create", none⟩, ⟨lit "--file=-", none⟩, ⟨lit "--directory=", some remoteRoot⟩,
    ⟨lit "--exclude=", some (lit "./.camp/build")⟩, ⟨lit "--exclude=", some (lit "./.camp/runtime")⟩, ⟨lit ".", none⟩]

theorem simpleCommand_remoteCommand (remoteRoot : Bytes) :
    simpleCommand (remoteCommand remoteRoot) = some (remoteWords remoteRoot) := by
  have hValid : ∀ p ∈ remotePieces remoteRoot, p.Valid := by
    have hPlain (plain : Bytes) (h : ∀ b ∈ plain, kind b = .plain ∧ inert b = true) (hNonempty : plain ≠ [])
        (quoted : Option Bytes) : Piece.Valid ⟨plain, quoted⟩ := ⟨h, fun hNil => absurd hNil hNonempty⟩
    simp only [remotePieces, forall_mem_cons, not_mem_nil, false_imp_iff, implies_true, and_true]
    refine ⟨?_, ?_, ?_, ?_, ?_, ?_, ?_⟩ <;> exact hPlain _ (by decide +kernel) (by decide +kernel) _
  have hSource : remoteCommand remoteRoot = [32].intercalate ((remotePieces remoteRoot).map Piece.source) := by
    have hBefore : lit "tar --create --file=- --directory=" =
        lit "tar" ++ [32] ++ lit "--create" ++ [32] ++ lit "--file=-" ++ [32] ++ lit "--directory=" := by decide +kernel
    have hAfter : lit " --exclude='./.camp/build' --exclude='./.camp/runtime' ." =
        [32] ++ lit "--exclude=" ++ quotation (lit "./.camp/build") ++ [32] ++ lit "--exclude=" ++
          quotation (lit "./.camp/runtime") ++ [32] ++ lit "." := by decide +kernel
    rw [remoteCommand, hBefore, hAfter]
    simp only [remotePieces, map_cons, map_nil, intercalate_cons_cons, intercalate_singleton,
      Piece.source, Option.elim_none, Option.elim_some, append_assoc, append_nil, remoteShellQuote]
  have hName : Word.isName (Piece.word ⟨lit "tar", none⟩) = true := by decide +kernel
  rw [hSource]
  refine (Piece.simpleCommand_pieces hValid hName).trans ?_
  have hWords (option value : String) (h : lit option ++ lit value = lit (option ++ value)) :
      Piece.value ⟨lit option, some (lit value)⟩ = lit (option ++ value) := h
  simp only [map_cons, map_nil, remoteWords]
  rw [hWords _ _ (by decide +kernel), hWords _ _ (by decide +kernel)]
  simp [Piece.value]

end Camp.SshTransfer
