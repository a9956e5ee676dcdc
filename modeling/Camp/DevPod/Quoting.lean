import Camp.SshTransfer.Commands

/-!
# Commands for the shell of a workspace

A command for a workspace is handed over as one text, which the shell of the remote side reads.
-/

namespace Camp.DevPod

open Wire Wire.Utf8 Program.Checks Shell SshTransfer

structure WorkspaceCommand where
  workspaceID : Bytes
  context : Bytes
  workdir : Bytes
  argv : List Bytes
  deriving DecidableEq

def encodeCommand (argv : List Bytes) : Bytes := [32].intercalate (argv.map quotation)

def unsafeArgument (value : Bytes) : Bool := value.any fun b => b == 0 || b == 13 || b == 10

def context (value : Bytes) : List Bytes := if value = [] then [] else [lit "--context", value]

def workdir (value : Bytes) : List Bytes := if value = [] then [] else [lit "--workdir", value]

/-- The arguments that devpod is run with. -/
def execute (command : WorkspaceCommand) : Except String (List Bytes) := do
  refuse (command.workspaceID == [] || command.argv == [] || unsafeArgument command.workspaceID ||
    unsafeArgument command.context || unsafeArgument command.workdir) "invalid structured DevPod workspace command"
  return lit "ssh" :: (context command.context ++ workdir command.workdir) ++
    [lit "--start-services=false", lit "--command", encodeCommand command.argv, command.workspaceID]

theorem simpleCommand_encodeCommand {argv : List Bytes} (h : argv ≠ []) :
    simpleCommand (encodeCommand argv) = some argv := by
  obtain ⟨arg, rest, rfl⟩ := List.exists_cons_of_ne_nil h
  have hValid (a : Bytes) : Piece.Valid ⟨[], some a⟩ := ⟨by simp, by simp⟩
  have hPieces : ∀ q ∈ (arg :: rest).map (Piece.mk [] ∘ some), q.Valid := by
    rintro q hq
    obtain ⟨a, -, rfl⟩ := List.mem_map.mp hq
    exact hValid a
  have hWords := Piece.simpleCommand_pieces hPieces (Piece.isName_of_plain_eq_nil (hValid arg) rfl)
  rw [← List.map_cons (f := Piece.mk [] ∘ some), List.map_map, List.map_map] at hWords
  refine hWords.trans (congrArg some ?_)
  exact List.map_id (arg :: rest)

/-- The shell of the remote side finds exactly the arguments in the text of a command, and the
words of its tar in the text of a copy. -/
theorem remote_commands_exact :
    (∀ command argv, execute command = .ok argv → ∃ options,
      argv = options ++ [lit "--command", encodeCommand command.argv, command.workspaceID] ∧
        simpleCommand (encodeCommand command.argv) = some command.argv) ∧
    (∀ spec pipe, buildTarPipe spec = .ok pipe → remoteCommand spec.remoteRoot ∈ pipe.producer.argv ∧
      simpleCommand (remoteCommand spec.remoteRoot) = some (remoteWords spec.remoteRoot)) := by
  constructor
  · intro command argv h
    obtain ⟨_, hAccepted, hArgv⟩ := bind_eq_ok.mp h
    have hNonempty : command.argv ≠ [] := by
      rintro hNil
      rw [refuse_eq_ok, hNil] at hAccepted
      simp at hAccepted
    refine ⟨lit "ssh" :: (context command.context ++ workdir command.workdir) ++ [lit "--start-services=false"], ?_,
      simpleCommand_encodeCommand hNonempty⟩
    rw [← Except.ok.inj hArgv, List.append_assoc]
    rfl
  · intro spec pipe h
    refine ⟨?_, simpleCommand_remoteCommand spec.remoteRoot⟩
    obtain ⟨_, -, h⟩ := bind_eq_ok.mp h
    obtain ⟨host, -, h⟩ := bind_eq_ok.mp h
    obtain ⟨_, -, h⟩ := bind_eq_ok.mp h
    obtain ⟨_, -, h⟩ := bind_eq_ok.mp h
    rw [← Except.ok.inj h]
    dsimp only
    split_ifs <;> simp

/-- Arguments with quotes, an expansion and a line end. -/
theorem remote_commands_exact_sample :
    simpleCommand (encodeCommand [lit "printf", lit "it's $HOME;\n# `x`", []]) =
      some [lit "printf", lit "it's $HOME;\n# `x`", []] := by
  obtain ⟨hExecute, -⟩ := remote_commands_exact
  obtain ⟨options, -, hExact⟩ := hExecute ⟨lit "w", [], [], [lit "printf", lit "it's $HOME;\n# `x`", []]⟩ _ rfl
  exact hExact

end Camp.DevPod
