import Camp.DevPod.Quoting
import Camp.Program.Flags
import Camp.Wire.Words

/-!
# Typed options and raw arguments

The arguments of `devpod up` and `devpod ssh`: typed options, the words that a user forwards, and the
workspace. A forwarded word that names a typed option is refused, word by word.
-/

namespace Camp.DevPod

open Wire Wire.Utf8 Wire.Words Program.Checks Program.Flags

inductive Error where
  | message (text : String)
  | ide (format : String) (ide : Bytes)
  | environment (key : String)
  | conflict (flag : Bytes)
  deriving DecidableEq

section Model

def formatBool (b : Bool) : Bytes := if b then lit "true" else lit "false"

/-- An option with at most one value, which is not empty. -/
def single (name : String) (value : Bytes) : Typed := ⟨lit name, none, true, if value = [] then [] else [value]⟩

def repeated (name : String) (values : List Bytes) : Typed := ⟨lit name, none, true, values⟩

def optionalBool (name : String) (value : Option Bool) : Typed := ⟨lit name, none, false, value.toList.map formatBool⟩

def onlyTrue (name : String) (value : Bool) : Typed := optionalBool name (if value then some true else none)

def rawFlagName (argument : Bytes) : Bytes :=
  if argument.take 2 = lit "--" then if 61 ∈ argument then argument.takeWhile (· ≠ 61) else argument
  else if argument.take 2 = lit "-L" then lit "-L"
  else if argument.take 2 = lit "-R" then lit "-R"
  else []

/-- The flags of the options that are given. -/
def conflicts (typed : List Typed) : List Bytes :=
  (typed.filter (·.values ≠ [])).flatMap fun t => t.flag :: t.letter.toList.map fun c => [45, c]

def rejectRawConflicts (argv typedFlags : List Bytes) : Except Error Unit :=
  each (fun argument => refuse (rawFlagName argument ∈ typedFlags) (.conflict (rawFlagName argument))) argv

inductive IDE where
  | terminal
  | vscode
  | vscodeInsiders
  | t3Code
  deriving DecidableEq

def IDE.name : IDE → String
  | .terminal => "none"
  | .vscode => "vscode"
  | .vscodeInsiders => "vscode-insiders"
  | .t3Code => "t3-code"

def IDE.ofBytes (ide : Bytes) : Option IDE :=
  [IDE.terminal, .vscode, .vscodeInsiders, .t3Code].find? fun i => lit i.name = ide

/-- What DevPod is told of the IDE, and whether it opens it. -/
def IDE.devPodSetup : IDE → IDE × Bool
  | .terminal => (.terminal, false)
  | .t3Code => (.terminal, false)
  | ide => (ide, true)

structure CampEnvironment where
  registry : Bytes
  fileserver : Bytes
  capsule : Bytes
  checkpoint : Bytes
  deriving DecidableEq

def CampEnvironment.fields (e : CampEnvironment) : List (String × Bytes) :=
  [("CAMP_REGISTRY", e.registry), ("CAMP_FILESERVER", e.fileserver), ("CAMP_CAPSULE", e.capsule),
    ("CAMP_CHECKPOINT", e.checkpoint)]

def CampEnvironment.validate (e : CampEnvironment) : Except Error Unit :=
  each (fun field => refuse (unsafeArgument field.2 || field.2 == [] && field.1 != "CAMP_CHECKPOINT")
    (.environment field.1)) e.fields

def CampEnvironment.values (e : CampEnvironment) : List Bytes := e.fields.map fun field => lit field.1 ++ 61 :: field.2

structure UpOptions where
  workspacePath : Bytes
  bootstrapPath : Bytes
  sourceMode : Bytes
  workspaceID : Bytes
  context : Bytes
  provider : Bytes
  machine : Bytes
  providerOptions : List Bytes
  devcontainerImage : Bytes
  devcontainerPath : Bytes
  devcontainerID : Bytes
  fallbackImage : Bytes
  additionalFeatures : Bytes
  mounts : List Bytes
  workspaceEnv : List Bytes
  workspaceEnvFiles : List Bytes
  campEnvironment : Option CampEnvironment
  initEnv : List Bytes
  dotfiles : Bytes
  recreate : Bool
  reset : Bool
  prebuildRepositories : List Bytes
  ide : Bytes
  ideOptions : List Bytes
  openIDE : Option Bool
  configureSSH : Option Bool
  gpgAgentForwarding : Option Bool
  sshConfigPath : Bytes
  forwardedArgv : List Bytes
  deriving DecidableEq

def upTyped (o : UpOptions) (ide : IDE) (openIDE : Bool) : List Typed :=
  [repeated "ide" [lit ide.name], optionalBool "open-ide" (some openIDE), single "context" o.context,
    single "id" o.workspaceID, single "provider" o.provider, single "machine" o.machine,
    repeated "provider-option" o.providerOptions, single "devcontainer-image" o.devcontainerImage,
    single "devcontainer-path" o.devcontainerPath, single "devcontainer-id" o.devcontainerID,
    single "fallback-image" o.fallbackImage, single "additional-features" o.additionalFeatures,
    repeated "mount" o.mounts, repeated "workspace-env" o.workspaceEnv,
    repeated "workspace-env-file" o.workspaceEnvFiles,
    repeated "workspace-env" (o.campEnvironment.elim [] CampEnvironment.values), repeated "init-env" o.initEnv,
    single "dotfiles" o.dotfiles, onlyTrue "recreate" o.recreate, onlyTrue "reset" o.reset,
    repeated "prebuild-repository" o.prebuildRepositories, repeated "ide-option" o.ideOptions,
    optionalBool "configure-ssh" o.configureSSH, optionalBool "gpg-agent-forwarding" o.gpgAgentForwarding,
    single "ssh-config" o.sshConfigPath]

def chooseIDE (o : UpOptions) : Except Error (IDE × Bool) := do
  let entry ← match (if o.ide = [] then some .terminal else IDE.ofBytes o.ide) with
    | some entry => Except.ok entry
    | none => .error (.ide "%w: unsupported IDE %q" o.ide)
  let openIDE := o.openIDE.getD entry.devPodSetup.2
  refuse ((entry == .terminal || entry == .t3Code) && openIDE)
    (.ide "%w: %q cannot request DevPod IDE opening" (lit entry.name))
  return (entry.devPodSetup.1, openIDE)

/-- Where the workspace comes from. `isolate` gives the canonical path of the bootstrap source, if it is apart from the
workspace. -/
def chooseSource (isolate : Bytes → Bytes → Except Error Bytes) (o : UpOptions) : Except Error Bytes :=
  if o.sourceMode = [] ∨ o.sourceMode = lit "capsule" then .ok o.workspacePath
  else if o.sourceMode = lit "bootstrap" then do
    refuse ((symbols o.bootstrapPath).all isSpaceRune) (.message "DevPod bootstrap source path is required")
    isolate o.workspacePath o.bootstrapPath
  else .error (.message "unsupported DevPod source mode %q")

/-- The arguments that devpod is run with. -/
def up (isolate : Bytes → Bytes → Except Error Bytes) (o : UpOptions) : Except Error (List Bytes) := do
  let source ← chooseSource isolate o
  let (ide, openIDE) ← chooseIDE o
  rejectRawConflicts o.forwardedArgv (conflicts (upTyped o ide openIDE))
  o.campEnvironment.elim (.ok ()) CampEnvironment.validate
  return lit "up" :: line (upTyped o ide openIDE) none o.forwardedArgv source

structure SSHOptions where
  workspaceID : Bytes
  context : Bytes
  workdir : Bytes
  user : Bytes
  forwardPorts : List Bytes
  reverseForwards : List Bytes
  sendEnv : List Bytes
  setEnv : List Bytes
  forwardPortsTimeout : Bytes
  agentForwarding : Option Bool
  gpgAgentForwarding : Option Bool
  stdio : Option Bool
  sshKeepAliveInterval : Bytes
  gitSSHSigningKey : Bytes
  termMode : Bytes
  installTerminfo : Option Bool
  startServices : Bool
  forwardedArgv : List Bytes
  deriving DecidableEq

def sshTyped (o : SSHOptions) : List Typed :=
  [single "context" o.context, single "workdir" o.workdir, single "user" o.user,
    ⟨lit "forward-ports", some 76, true, o.forwardPorts⟩,
    ⟨lit "reverse-forward-ports", some 82, true, o.reverseForwards⟩,
    repeated "send-env" o.sendEnv, repeated "set-env" o.setEnv, single "forward-ports-timeout" o.forwardPortsTimeout,
    optionalBool "agent-forwarding" o.agentForwarding, optionalBool "gpg-agent-forwarding" o.gpgAgentForwarding,
    optionalBool "stdio" o.stdio, single "ssh-keepalive-interval" o.sshKeepAliveInterval,
    single "git-ssh-signing-key" o.gitSSHSigningKey, single "term-mode" o.termMode,
    optionalBool "install-terminfo" o.installTerminfo]

def startServices (o : SSHOptions) : Bytes × Bytes := (lit "start-services", formatBool o.startServices)

def sshCommand (o : SSHOptions) : Except Error (List Bytes) := do
  refuse (o.workspaceID == [] || unsafeArgument o.workspaceID) (.message "DevPod workspace ID is invalid")
  rejectRawConflicts o.forwardedArgv (conflicts (sshTyped o ++ late (some (startServices o))))
  return lit "ssh" :: line (sshTyped o) (some (startServices o)) o.forwardedArgv o.workspaceID

end Model

section Conflicts

variable {argv : List Bytes} {typed : List Typed} {t : Typed}

theorem rawFlagName_long (text : Bytes) : rawFlagName (45 :: 45 :: text) = 45 :: 45 :: (cut text).1 := by
  have hDashes : (45 :: 45 :: text : Bytes).take 2 = lit "--" := by
    simp only [List.take_succ_cons, List.take_zero]
    decide
  have hTake : (45 :: 45 :: text : Bytes).takeWhile (· ≠ 61) = 45 :: 45 :: (cut text).1 := by
    rw [fst_cut]
    simp
  rw [rawFlagName, if_pos hDashes]
  split_ifs with hEqual
  · exact hTake
  · rw [cut_of_notMem fun hMem => hEqual (by simp [hMem])]

theorem flag_mem_conflicts (ht : t ∈ typed) (hGiven : t.values ≠ []) : t.flag ∈ conflicts typed :=
  List.mem_flatMap.mpr ⟨t, List.mem_filter.mpr ⟨ht, by simpa using hGiven⟩, List.mem_cons_self⟩

/-- No forwarded word has the long name of an option that is given. -/
theorem long_of_accepted (h : rejectRawConflicts argv (conflicts typed) = .ok ()) (ht : t ∈ typed)
    (hGiven : t.values ≠ []) : ∀ w ∈ argv, ∀ text, w = 45 :: 45 :: text → (cut text).1 ≠ t.name := by
  rintro w hw text rfl hName
  have hFree := each_eq_ok.mp h _ hw
  rw [refuse_eq_ok, rawFlagName_long, hName] at hFree
  exact absurd (flag_mem_conflicts ht hGiven) (by simpa [Typed.flag] using hFree)

end Conflicts

section Override

/-- The flags that Camp writes: with a value in the next word, or in the same one. -/
def Understands (fs : FlagSet) (shape : List (String × Bool)) : Prop :=
  ∀ p ∈ shape, if p.2 then fs.long (lit p.1) = some none else fs.long (lit p.1) ≠ none

def upShape : List (String × Bool) :=
  [("ide", true), ("open-ide", false), ("context", true), ("id", true), ("provider", true), ("machine", true),
    ("provider-option", true), ("devcontainer-image", true), ("devcontainer-path", true), ("devcontainer-id", true),
    ("fallback-image", true), ("additional-features", true), ("mount", true), ("workspace-env", true),
    ("workspace-env-file", true), ("workspace-env", true), ("init-env", true), ("dotfiles", true), ("recreate", false),
    ("reset", false), ("prebuild-repository", true), ("ide-option", true), ("configure-ssh", false),
    ("gpg-agent-forwarding", false), ("ssh-config", true)]

def sshShape : List (String × Bool) :=
  [("context", true), ("workdir", true), ("user", true), ("forward-ports", true), ("reverse-forward-ports", true),
    ("send-env", true), ("set-env", true), ("forward-ports-timeout", true), ("agent-forwarding", false),
    ("gpg-agent-forwarding", false), ("stdio", false), ("ssh-keepalive-interval", true), ("git-ssh-signing-key", true),
    ("term-mode", true), ("install-terminfo", false), ("start-services", false)]

variable {fs : FlagSet}

theorem knows_of_shape {typed : List Typed} {shape : List (String × Bool)}
    (hShape : typed.map (fun t => (t.name, t.spaced)) = shape.map fun p => (lit p.1, p.2))
    (hProper : ∀ p ∈ shape, Proper (lit p.1)) (h : Understands fs shape) : ∀ t ∈ typed, fs.Knows t := by
  intro t ht
  have hMem := List.mem_map_of_mem (f := fun t : Typed => (t.name, t.spaced)) ht
  rw [hShape] at hMem
  obtain ⟨p, hp, hEq⟩ := List.mem_map.mp hMem
  obtain ⟨hName, hSpaced⟩ := Prod.mk.inj hEq
  rw [FlagSet.Knows, ← hName, ← hSpaced]
  exact ⟨hProper p hp, h p hp⟩

theorem knows_upTyped (h : Understands fs upShape) (o : UpOptions) (ide : IDE) (openIDE : Bool) :
    ∀ t ∈ upTyped o ide openIDE ++ late none, fs.Knows t :=
  knows_of_shape rfl (by decide) h

theorem knows_sshTyped (h : Understands fs sshShape) (o : SSHOptions) :
    ∀ t ∈ sshTyped o ++ late (some (startServices o)), fs.Knows t :=
  knows_of_shape rfl (by decide) h

/-- The options that are given keep their values, and the source or the workspace is an operand, if, and only if, the
forwarded words are complete; and no such word sets an option that is given but by a letter. -/
theorem typed_options_kept {upFlags sshFlags : FlagSet} (hUp : Understands upFlags upShape)
    (hSsh : Understands sshFlags sshShape) (hStart : ∀ c, sshFlags.short c ≠ some (lit "start-services")) :
    (∀ isolate o argv, up isolate o = .ok argv → ∃ source ide openIDE, chooseSource isolate o = .ok source ∧
      chooseIDE o = .ok (ide, openIDE) ∧
      (Keeps upFlags (upTyped o ide openIDE) none o.forwardedArgv source argv.tail ↔
        Complete upFlags (upTyped o ide openIDE) none o.forwardedArgv source) ∧
      ∀ t ∈ upTyped o ide openIDE, t.values ≠ [] → ∀ s, upFlags.run .start o.forwardedArgv = some s →
        s.values t.name ≠ [] → Lettered upFlags o.forwardedArgv t.name) ∧
    (∀ o argv, sshCommand o = .ok argv →
      (Keeps sshFlags (sshTyped o) (some (startServices o)) o.forwardedArgv o.workspaceID argv.tail ↔
        Complete sshFlags (sshTyped o) (some (startServices o)) o.forwardedArgv o.workspaceID) ∧
      ∀ t ∈ sshTyped o ++ late (some (startServices o)), t.values ≠ [] →
        ∀ s, sshFlags.run .start o.forwardedArgv = some s → s.values t.name ≠ [] →
          Lettered sshFlags o.forwardedArgv t.name) := by
  constructor
  · intro isolate o argv h
    obtain ⟨source, hSource, h⟩ := bind_eq_ok.mp h
    obtain ⟨⟨ide, openIDE⟩, hIDE, h⟩ := bind_eq_ok.mp h
    obtain ⟨_, hAccepted, h⟩ := bind_eq_ok.mp h
    obtain ⟨_, -, h⟩ := bind_eq_ok.mp h
    refine ⟨source, ide, openIDE, hSource, hIDE, ?_, ?_⟩
    · rw [← Except.ok.inj h]
      exact keeps_iff_complete (knows_upTyped hUp o ide openIDE) (by simp)
    · intro t ht hGiven s hRun hSet
      exact lettered_of_run hRun (long_of_accepted hAccepted ht hGiven) (.inl hSet)
  · intro o argv h
    obtain ⟨_, -, h⟩ := bind_eq_ok.mp h
    obtain ⟨_, hAccepted, h⟩ := bind_eq_ok.mp h
    have hLettered (t : Typed) (ht : t ∈ sshTyped o ++ late (some (startServices o))) (hGiven : t.values ≠ [])
        (s : Parsed) (hRun : sshFlags.run .start o.forwardedArgv = some s)
        (hSet : s.values t.name ≠ [] ∨ s.mode = .waiting t.name) : Lettered sshFlags o.forwardedArgv t.name :=
      lettered_of_run hRun (long_of_accepted hAccepted ht hGiven) hSet
    refine ⟨?_, fun t ht hGiven s hRun hSet => hLettered t ht hGiven s hRun (.inl hSet)⟩
    rw [← Except.ok.inj h]
    refine keeps_iff_complete (knows_sshTyped hSsh o) ?_
    rintro s _ _ hLate hRun
    -- no letter stands for the late option, so that no forwarded word touches it
    have hUntouched : ¬Lettered sshFlags o.forwardedArgv (lit "start-services") := by
      rintro ⟨_, -, _, -, -, c, -, hLetter⟩
      exact hStart c hLetter
    have hSet := mt (hLettered ⟨lit "start-services", none, false, [formatBool o.startServices]⟩
      (by simp [late, startServices]) (by simp) s hRun) hUntouched
    rw [not_or, not_not] at hSet
    rw [← (Prod.mk.inj (Option.some.inj hLate)).1]
    exact hSet

section Sample

def sampleFlags (shape : List (String × Bool)) : FlagSet where
  long name := (shape.find? fun p => lit p.1 = name).map fun p => if p.2 then none else some (lit "true")
  short c := if c = 76 then some (lit "forward-ports") else if c = 82 then some (lit "reverse-forward-ports") else none

def sampleSSH (forwarded : List Bytes) : SSHOptions :=
  ⟨lit "w", lit "c", [], [], [], [], [], [], [], none, none, none, [], [], [], none, false, forwarded⟩

theorem understands_sample :
    Understands (sampleFlags upShape) upShape ∧ Understands (sampleFlags sshShape) sshShape := by
  unfold Understands
  decide

theorem typed_options_kept_sample :
    Keeps (sampleFlags sshShape) (sshTyped (sampleSSH [lit "--user=root"])) (some (lit "start-services", lit "false"))
      [lit "--user=root"] (lit "w")
      [lit "--context", lit "c", lit "--user=root", lit "--start-services=false", lit "w"] := by
  have hStart : ∀ c, (sampleFlags sshShape).short c ≠ some (lit "start-services") := by
    intro c
    show (if c = 76 then _ else if c = 82 then _ else _) ≠ _
    split_ifs <;> decide
  obtain ⟨-, hSSH⟩ := typed_options_kept understands_sample.1 understands_sample.2 hStart
  obtain ⟨hKept, -⟩ := hSSH (sampleSSH [lit "--user=root"])
    (lit "ssh" :: [lit "--context", lit "c", lit "--user=root", lit "--start-services=false", lit "w"]) (by decide)
  refine hKept.mpr ⟨⟨[(lit "user", lit "root")], [], .flags⟩, by decide, ?_, .inl ⟨rfl, by decide⟩⟩
  decide

/-- A flag without its value takes the option that Camp appends. -/
theorem start_services_swallowed :
    sshCommand (sampleSSH [lit "--user"]) =
        .ok (lit "ssh" :: [lit "--context", lit "c", lit "--user", lit "--start-services=false", lit "w"]) ∧
      (sampleFlags sshShape).parse [lit "--context", lit "c", lit "--user", lit "--start-services=false", lit "w"] =
        some ⟨[(lit "context", lit "c"), (lit "user", lit "--start-services=false")], [lit "w"], .flags⟩ :=
  ⟨by decide, by decide⟩

end Sample

end Override

end Camp.DevPod
