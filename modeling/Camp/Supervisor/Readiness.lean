import Camp.Supervisor.Units

/-!
# Readiness of a service

The inspector decides from the text of a socket listing, or from two tables of the kernel, that a
service is ready: the host port is bound on the loopback address only, the guest port is not bound
on the host, and the child itself listens on the guest port of its network.
-/

namespace Camp.Supervisor

open Wire Wire.Utf8 Wire.Words Program Program.Paths Program.Checks List

section Model

/-- What the inspector is told. A listing is missing when the tool is, or when it fails. -/
structure Answers where
  host4 : Option Bytes
  host6 : Option Bytes
  guestOnHost4 : Option Bytes
  guestOnHost6 : Option Bytes
  guest : Option Bytes
  descriptors : Option (List (Option Bytes))
  tcp : Option Bytes
  tcp6 : Option Bytes
  http : Bytes → Option Nat

def onlyLocalEndpoint (output expected : Bytes) : Bool :=
  match (trim space output).splitOn 10 with
  | [line] => trim space line != [] && (fields space line)[3]? == some expected
  | _ => false

def formatHex (port : Int64) : Bytes :=
  (Nat.toDigits 16 port.toInt.toNat).map fun c => UInt8.ofNat c.toUpper.toNat

def trimZeros (s : Bytes) : Bytes := s.dropWhile (· == 48)

def socketInode (target : Bytes) : Option Bytes :=
  if lit "socket:[" <+: target ∧ lit "]" <:+ target then some ((target.drop 8).dropLast) else none

/-- A line of a table that shows a listening socket of the child on the port. -/
def showsListener (sockets : List Bytes) (port : Int64) (line : Bytes) : Bool :=
  let columns := fields space line
  10 ≤ columns.length && columns[3]? == some (lit "0A") && columns[9]?.any sockets.contains &&
    match (columns.getD 1 []).splitOn 58 with
    | [_, number] => trimZeros number == trimZeros (formatHex port)
    | _ => false

def procGuestListener (a : Answers) (pid port : Int64) : Except Error Bytes :=
  match a.descriptors with
  | none => .error (.message "inspect guest socket descriptors: %w")
  | some targets =>
    let sockets := targets.filterMap fun target => target.bind socketInode
    if [a.tcp, a.tcp6].any fun table => table.any fun body => (body.splitOn 10).any (showsListener sockets port) then
      .ok (58 :: itoa port ++ lit " pid=" ++ itoa pid)
    else .error (.message "exact Hauler child does not own the guest listener")

def guestListeners (a : Answers) (pid port : Int64) : Except Error Bytes :=
  match a.guest with
  | some output => .ok output
  | none => procGuestListener a pid port

def listing (output : Option Bytes) : Except Error Bytes :=
  match output with
  | some output => .ok output
  | none => .error (.message "inspect host listeners: %w")

def joinHostPort (host port : Bytes) : Bytes :=
  if 58 ∈ host ∨ 37 ∈ host then 91 :: host ++ 93 :: 58 :: port else host ++ 58 :: port

def contains (text part : Bytes) : Bool := part <:+: text

def readinessURL (name : Bytes) (mapping : PortMapping) : Bytes :=
  lit "http://" ++ joinHostPort mapping.hostAddress (itoa mapping.hostPort) ++
    if name = lit "registry" then lit "/v2/" else lit "/"

def requireOK (status : Option Nat) : Except Error Unit :=
  match status with
  | none => .error (.message "service readiness HTTP: %w")
  | some status => refuse (status != 200) (.invariant "service readiness HTTP status %d: %w")

def ready (a : Answers) (name : Bytes) (mapping : PortMapping) (child : ProcessStatus) : Except Error UnitEvidence := do
  let host4 ← listing a.host4
  let host6 ← listing a.host6
  let wantHost := joinHostPort mapping.hostAddress (itoa mapping.hostPort)
  refuse (!onlyLocalEndpoint host4 wantHost || trim space host6 != [])
    (.invariant "host mapping is not exact IPv4 loopback: %w")
  let guestOnHost4 ← listing a.guestOnHost4
  refuse (trim space guestOnHost4 != []) (.invariant "guest port is exposed on host: %w")
  let guestOnHost6 ← listing a.guestOnHost6
  refuse (trim space guestOnHost6 != []) (.invariant "guest port is exposed on host: %w")
  let guest ← guestListeners a child.identity.pid mapping.guestPort
  refuse (!contains guest (58 :: itoa mapping.guestPort) || !contains guest (lit "pid=" ++ itoa child.identity.pid))
    (.invariant "guest listener is not owned by exact Hauler child: %w")
  requireOK (a.http (readinessURL name mapping))
  return ⟨wantHost, lit "127.0.0.1:" ++ itoa mapping.guestPort, child.netNS⟩

end Model

section Listings

structure User where
  name : Bytes
  pid : Nat
  fd : Nat
  deriving DecidableEq

/-- A line of a socket listing. The addresses are words without an equals sign, the name of a
process is any text. -/
structure Socket where
  recvQ : Nat
  sendQ : Nat
  address : Bytes
  port : Nat
  peer : Bytes
  users : List User
  pads : Fin 5 → Nat

def Socket.WellFormed (s : Socket) : Prop :=
  (∀ b ∈ s.address, space b = false ∧ b ≠ 61) ∧ ∀ b ∈ s.peer, space b = false ∧ b ≠ 61

def User.text (u : User) : Bytes :=
  lit "(\"" ++ u.name ++ lit "\",pid=" ++ numeral u.pid ++ lit ",fd=" ++ numeral u.fd ++ lit ")"

def Socket.process (s : Socket) : Bytes :=
  if s.users = [] then replicate (s.pads 4) 32
  else replicate (s.pads 4) 32 ++ 32 :: (lit "users:" ++ 40 :: ([44].intercalate (s.users.map User.text) ++ [41]))

def Socket.endpoint (s : Socket) : Bytes := s.address ++ 58 :: numeral s.port

def column (text : Bytes) (pad : Nat) (rest : Bytes) : Bytes := text ++ 32 :: (replicate pad 32 ++ rest)

def Socket.line (s : Socket) : Bytes :=
  column (lit "LISTEN") (s.pads 0) (column (numeral s.recvQ) (s.pads 1) (column (numeral s.sendQ) (s.pads 2)
    (column s.endpoint (s.pads 3) (s.peer ++ s.process))))

def listingText (sockets : List Socket) : Bytes := sockets.flatMap fun s => s.line ++ [10]

end Listings

section Occurrences

variable {p : Bytes} {sockets : List Socket} {s : Socket}

structure Token (p : Bytes) : Prop where
  nonempty : p ≠ []
  newline : 10 ∉ p
  blank : 32 ∉ p
  quote : 34 ∉ p
  opening : 40 ∉ p
  closing : 41 ∉ p
  comma : 44 ∉ p

theorem not_infix_nil (h : p ≠ []) : ¬ p <:+: [] := fun hNil => h (infix_nil.mp hNil)

theorem infix_column {text rest : Bytes} (h : 32 ∉ p) (pad : Nat) :
    p <:+: column text pad rest ↔ p <:+: text ∨ p <:+: rest := by
  rw [column, infix_append_cons h, infix_replicate_append h]

theorem infix_intercalate {l : List Bytes} (h : Token p) : p <:+: [44].intercalate l ↔ ∃ x ∈ l, p <:+: x := by
  induction l with
  | nil => simpa using not_infix_nil h.nonempty
  | cons x l ih =>
    cases l with
    | nil => simp
    | cons y l =>
      rw [Words.intercalate_cons_cons, infix_append_cons h.comma, ih]
      simp

theorem infix_user (h : Token p) (u : User) :
    p <:+: u.text ↔ p <:+: u.name ∨ p <:+: lit "pid=" ++ numeral u.pid ∨ p <:+: lit "fd=" ++ numeral u.fd := by
  have hText : u.text = 40 :: 34 :: (u.name ++ 34 :: 44 :: (lit "pid=" ++ numeral u.pid ++ 44 ::
      (lit "fd=" ++ numeral u.fd ++ 41 :: []))) := by
    have hOpen : lit "(\"" = [40, 34] := by decide
    have hPid : lit "\",pid=" = 34 :: 44 :: lit "pid=" := by decide
    have hFd : lit ",fd=" = 44 :: lit "fd=" := by decide
    have hClose : lit ")" = [41] := by decide
    rw [User.text, hOpen, hPid, hFd, hClose]
    simp
  rw [hText, infix_cons_of_notMem h.opening, infix_cons_of_notMem h.quote, infix_append_cons h.quote,
    infix_cons_of_notMem h.comma, infix_append_cons h.comma, infix_append_cons h.closing]
  simp only [not_infix_nil h.nonempty, or_false]

theorem infix_process (h : Token p) :
    p <:+: s.peer ++ s.process ↔ p <:+: s.peer ∨ s.users ≠ [] ∧ p <:+: lit "users:" ∨
      ∃ u ∈ s.users, p <:+: u.name ∨ p <:+: lit "pid=" ++ numeral u.pid ∨ p <:+: lit "fd=" ++ numeral u.fd := by
  rw [Socket.process]
  split_ifs with hUsers
  · have hPads : p <:+: s.peer ++ replicate (s.pads 4) 32 ↔ p <:+: s.peer := by
      cases s.pads 4 with
      | zero => rw [replicate_zero, append_nil]
      | succ n =>
        rw [replicate_succ, infix_append_cons h.blank]
        have hBlank : ¬ p <:+: replicate n 32 := by
          have hReplicate := infix_replicate_append (b := []) h.blank n
          rw [append_nil] at hReplicate
          exact fun hInfix => not_infix_nil h.nonempty (hReplicate.mp hInfix)
        simp only [hBlank, or_false]
    rw [hPads]
    simp [hUsers]
  · have hGap (rest : Bytes) : replicate (s.pads 4) 32 ++ 32 :: rest = 32 ::
        (replicate (s.pads 4) 32 ++ rest) := by
      rw [← singleton_append, ← append_assoc, ← replicate_succ', replicate_succ, cons_append]
    rw [hGap, infix_append_cons h.blank, infix_replicate_append h.blank, infix_append_cons h.opening,
      infix_append_cons h.closing, infix_intercalate h]
    simp only [not_infix_nil h.nonempty, or_false, mem_map, exists_exists_and_eq_and, infix_user h, ne_eq, hUsers,
      not_false_iff, true_and]

def Socket.Mentions (s : Socket) (p : Bytes) : Prop :=
  (p <:+: lit "LISTEN" ∨ p <:+: numeral s.recvQ ∨ p <:+: numeral s.sendQ) ∨ p <:+: s.endpoint ∨ p <:+: s.peer ∨
    s.users ≠ [] ∧ p <:+: lit "users:" ∨
      ∃ u ∈ s.users, p <:+: u.name ∨ p <:+: lit "pid=" ++ numeral u.pid ∨ p <:+: lit "fd=" ++ numeral u.fd

theorem infix_listing (h : Token p) : p <:+: listingText sockets ↔ ∃ s ∈ sockets, s.Mentions p := by
  induction sockets with
  | nil => simpa [listingText] using h.nonempty
  | cons s sockets ih =>
    have hCons : listingText (s :: sockets) = s.line ++ 10 :: listingText sockets := by simp [listingText]
    rw [hCons, infix_append_cons h.newline, ih, exists_mem_cons_iff, Socket.line, infix_column h.blank,
      infix_column h.blank, infix_column h.blank, infix_column h.blank, infix_process h, Socket.Mentions]
    simp only [or_assoc]

variable {port pid : Nat}

theorem notMem_numeral {b : UInt8} (h : b.toNat < 48 ∨ 57 < b.toNat) (n : Nat) : b ∉ numeral n := fun hMem => by
  have hDigit := digit_of_mem_numeral hMem
  omega

theorem token_port : Token (58 :: numeral port) where
  nonempty := cons_ne_nil _ _
  newline := by simp [notMem_numeral]
  blank := by simp [notMem_numeral]
  quote := by simp [notMem_numeral]
  opening := by simp [notMem_numeral]
  closing := by simp [notMem_numeral]
  comma := by simp [notMem_numeral]

theorem notMem_pidText {b : UInt8} (h : b.toNat < 48 ∨ 57 < b.toNat) (hb : b ∉ lit "pid=") :
    b ∉ lit "pid=" ++ numeral pid := by
  rw [mem_append, not_or]
  exact ⟨hb, notMem_numeral h pid⟩

theorem token_pid : Token (lit "pid=" ++ numeral pid) where
  nonempty := by simp [numeral_ne_nil]
  newline := notMem_pidText (by decide) (by decide)
  blank := notMem_pidText (by decide) (by decide)
  quote := notMem_pidText (by decide) (by decide)
  opening := notMem_pidText (by decide) (by decide)
  closing := notMem_pidText (by decide) (by decide)
  comma := notMem_pidText (by decide) (by decide)

/-- A socket in whose line the inspector takes the port for present: as its port, as the start of
a longer port, within an address or within the name of a process. -/
def Socket.MentionsPort (s : Socket) (port : Nat) : Prop :=
  numeral port <+: numeral s.port ∨ 58 :: numeral port <:+: s.address ∨ 58 :: numeral port <:+: s.peer ∨
    ∃ u ∈ s.users, 58 :: numeral port <:+: u.name

/-- The same for a process: its number, the start of a longer number, or the name of a process. -/
def Socket.MentionsPid (s : Socket) (pid : Nat) : Prop :=
  ∃ u ∈ s.users, numeral pid <+: numeral u.pid ∨ lit "pid=" ++ numeral pid <:+: u.name

theorem mentions_port : s.Mentions (58 :: numeral port) ↔ s.MentionsPort port := by
  have hColon (n : Nat) : (58 : UInt8) ∉ numeral n := notMem_numeral (by decide) n
  have hOut {text : Bytes} (h : (58 : UInt8) ∉ text) : ¬ 58 :: numeral port <:+: text :=
    not_infix_of_mem mem_cons_self h
  have hUsers : ¬ 58 :: numeral port <:+: lit "users:" := by
    obtain ⟨d, hd⟩ := exists_mem_of_ne_nil _ (numeral_ne_nil port)
    refine not_infix_of_mem (mem_cons_of_mem _ hd) fun hMem => ?_
    have hDigit := digit_of_mem_numeral hd
    have hLetters : ∀ b ∈ lit "users:", 57 < b.toNat := by decide +kernel
    exact absurd (hLetters d hMem) (by omega)
  have hPid (u : User) : (58 : UInt8) ∉ lit "pid=" ++ numeral u.pid := notMem_pidText (by decide) (by decide)
  have hFd (u : User) : (58 : UInt8) ∉ lit "fd=" ++ numeral u.fd := by
    rw [mem_append, not_or]
    exact ⟨by decide, hColon _⟩
  rw [Socket.Mentions, Socket.MentionsPort, Socket.endpoint, cons_infix_append_cons (hColon port) (hColon s.port)]
  have hListen : (58 : UInt8) ∉ lit "LISTEN" := by decide
  simp only [hOut hListen, hOut (hColon _), hOut (hPid _), hOut (hFd _), hUsers, and_false, false_or, or_false]
  rw [or_comm (b := numeral port <+: numeral s.port), or_assoc]

theorem mentions_pid (hSocket : s.WellFormed) : s.Mentions (lit "pid=" ++ numeral pid) ↔ s.MentionsPid pid := by
  have hEqual : (61 : UInt8) ∈ lit "pid=" ++ numeral pid := mem_append_left _ (by decide)
  have hOut {text : Bytes} (h : (61 : UInt8) ∉ text) : ¬ lit "pid=" ++ numeral pid <:+: text :=
      not_infix_of_mem hEqual h
  have hNumeral (n : Nat) : (61 : UInt8) ∉ numeral n := notMem_numeral (by decide) n
  have hEndpoint : (61 : UInt8) ∉ s.endpoint := by
    rw [Socket.endpoint, mem_append, mem_cons, not_or, not_or]
    exact ⟨fun h => (hSocket.1 61 h).2 rfl, by decide, hNumeral _⟩
  have hPeer : (61 : UInt8) ∉ s.peer := fun h => (hSocket.2 61 h).2 rfl
  have hPid (u : User) : lit "pid=" ++ numeral pid <:+: lit "pid=" ++ numeral u.pid ↔
      numeral pid <+: numeral u.pid := by
    have hText (n : Nat) : lit "pid=" ++ numeral n = 112 :: (lit "id=" ++ numeral n) := by
      rw [show lit "pid=" = 112 :: lit "id=" by decide, cons_append]
    have hLetter (n : Nat) : (112 : UInt8) ∉ lit "id=" ++ numeral n := by
      rw [mem_append, not_or]
      exact ⟨by decide, notMem_numeral (by decide) n⟩
    rw [hText, hText]
    refine (cons_infix_append_cons (a := []) (hLetter pid) (hLetter u.pid)).trans ?_
    rw [prefix_append_right_inj]
    simp
  have hFd (u : User) : ¬ lit "pid=" ++ numeral pid <:+: lit "fd=" ++ numeral u.fd := by
    refine not_infix_of_mem (x := 112) (mem_append_left _ (by decide)) ?_
    rw [mem_append, not_or]
    exact ⟨by decide, notMem_numeral (by decide) _⟩
  have hListen : (61 : UInt8) ∉ lit "LISTEN" := by decide
  have hUsers : (61 : UInt8) ∉ lit "users:" := by decide
  rw [Socket.Mentions, Socket.MentionsPid]
  simp only [hOut hListen, hOut (hNumeral _), hOut hEndpoint, hOut hPeer, hOut hUsers, hPid,
    hFd, and_false, false_or, or_false]
  simp only [or_comm]

end Occurrences

section Host

variable {sockets : List Socket} {s : Socket}

theorem fields_column {text rest : Bytes} (hText : ∀ b ∈ text, space b = false) (hNonempty : text ≠ []) (pad : Nat) :
    fields space (column text pad rest) = text :: fields space rest := by
  rw [column, fields_append_cons (by decide), fields_word hText hNonempty,
    fields_blank_append fun b hb => by rw [eq_of_mem_replicate hb]; decide]
  rfl

theorem space_of_digit {n : Nat} : ∀ b ∈ numeral n, space b = false := by
  intro b hb
  have hDigit := digit_of_mem_numeral hb
  simp only [space, Bool.or_eq_false_iff, beq_eq_false_iff_ne, Bool.and_eq_false_iff, decide_eq_false_iff_not]
  refine ⟨?_, .inr ?_⟩
  · rintro rfl
    exact absurd hDigit (by decide)
  · intro hLow
    have : b.toNat ≤ 13 := UInt8.le_iff_toNat_le.mp hLow
    omega

theorem fields_line (hSocket : s.WellFormed) : (fields space s.line)[3]? = some s.endpoint := by
  have hEndpoint : ∀ b ∈ s.endpoint, space b = false := by
    intro b hb
    rcases mem_append.mp hb with hAddress | hPort
    · exact (hSocket.1 b hAddress).1
    · rcases mem_cons.mp hPort with rfl | hDigit
      · decide
      · exact space_of_digit b hDigit
  rw [Socket.line, fields_column (by decide +kernel) (by decide), fields_column space_of_digit (numeral_ne_nil _),
    fields_column space_of_digit (numeral_ne_nil _), fields_column hEndpoint (by simp [Socket.endpoint])]
  rfl

theorem line_cons (s : Socket) : ∃ rest, s.line = 76 :: rest := ⟨_, rfl⟩

theorem trim_listing : trim space (listingText sockets) = [] ↔ sockets = [] := by
  rw [trim_eq_nil]
  cases sockets with
  | nil => simp [listingText]
  | cons s sockets =>
    refine iff_of_false (fun h => ?_) (cons_ne_nil _ _)
    obtain ⟨rest, hLine⟩ := line_cons s
    have hFirst : (76 : UInt8) ∈ listingText (s :: sockets) := by simp [listingText, hLine]
    exact absurd (h 76 hFirst) (by decide)

theorem newline_notMem_line (hSocket : s.WellFormed) (hUsers : s.users = []) : 10 ∉ s.line := by
  have hNumeral (n : Nat) : (10 : UInt8) ∉ numeral n := notMem_numeral (by decide) n
  have hAddress : (10 : UInt8) ∉ s.address := fun h => absurd (hSocket.1 10 h).1 (by decide)
  have hPeer : (10 : UInt8) ∉ s.peer := fun h => absurd (hSocket.2 10 h).1 (by decide)
  have hListen : (10 : UInt8) ∉ lit "LISTEN" := by decide
  simp [Socket.line, column, Socket.endpoint, Socket.process, hUsers, hNumeral, hAddress,
    hPeer, hListen, mem_replicate]

theorem onlyLocalEndpoint_listing {want : Bytes} (hSockets : ∀ s ∈ sockets, s.WellFormed ∧ s.users = []) :
    onlyLocalEndpoint (listingText sockets) want = true ↔ ∃ s, sockets = [s] ∧ s.endpoint = want := by
  match sockets, hSockets with
  | [], _ =>
    refine iff_of_false Bool.false_ne_true ?_
    rintro ⟨s, hSocket, -⟩
    cases hSocket
  | [s], hSockets =>
    obtain ⟨hSocket, hUsers⟩ := hSockets s mem_cons_self
    have hTrim : trim space (listingText [s]) = trim space s.line := by
      have hText : listingText [s] = s.line ++ [10] := by simp [listingText]
      rw [hText, trim_append_blank (by decide)]
    have hFields : (fields space (trim space s.line))[3]? = some s.endpoint := by rw [fields_trim, fields_line hSocket]
    have hSplit : (trim space s.line).splitOn 10 = [trim space s.line] := by
      refine splitOnP_eq_singleton fun b hb => ?_
      simpa using fun hEq : b = 10 => newline_notMem_line hSocket hUsers (hEq ▸ mem_of_mem_trim hb)
    have hText : trim space (trim space s.line) ≠ [] := by
      intro hEmpty
      rw [fields_blank (trim_eq_nil.mp hEmpty)] at hFields
      cases hFields
    rw [onlyLocalEndpoint, hTrim, hSplit]
    simp [hText, hFields]
  | s :: s' :: sockets, _ =>
    refine iff_of_false ?_ (by rintro ⟨s'', hSocket, -⟩; cases hSocket)
    obtain ⟨rest, hLine⟩ := line_cons s
    obtain ⟨rest', hLine'⟩ := line_cons s'
    have hText : listingText (s :: s' :: sockets) = 76 :: rest ++ 10 :: 76 :: (rest' ++ 10 :: listingText sockets) := by
      simp [listingText, hLine, hLine']
    have hNewline : 10 ∈ trim space (listingText (s :: s' :: sockets)) := by
      rw [hText]
      exact mem_trim (by decide) (by decide)
    obtain ⟨before, after, hParts⟩ := append_of_mem hNewline
    have hSplit : (trim space (listingText (s :: s' :: sockets))).splitOn 10 =
        before.splitOn 10 ++ after.splitOn 10 := by
      rw [hParts]
      exact splitOnP_append_cons _ _ (by decide)
    rw [onlyLocalEndpoint, hSplit]
    split
    case h_2 => exact Bool.false_ne_true
    case h_1 line hOne =>
      have hLength := congrArg List.length hOne
      have hBefore := length_pos_of_ne_nil (splitOn_ne_nil 10 before)
      have hAfter := length_pos_of_ne_nil (splitOn_ne_nil 10 after)
      rw [length_append, length_singleton] at hLength
      omega

end Host

section Ownership

/-- The sockets behind the listings; the host listings are taken without the processes. -/
structure Scene where
  host4 : Option (List Socket)
  host6 : Option (List Socket)
  guestOnHost4 : Option (List Socket)
  guestOnHost6 : Option (List Socket)
  guest : Option (List Socket)
  descriptors : Option (List (Option Bytes))
  tcp : Option Bytes
  tcp6 : Option Bytes
  http : Bytes → Option Nat

def Scene.answers (scene : Scene) : Answers where
  host4 := scene.host4.map listingText
  host6 := scene.host6.map listingText
  guestOnHost4 := scene.guestOnHost4.map listingText
  guestOnHost6 := scene.guestOnHost6.map listingText
  guest := scene.guest.map listingText
  descriptors := scene.descriptors
  tcp := scene.tcp
  tcp6 := scene.tcp6
  http := scene.http

structure Scene.WellFormed (scene : Scene) : Prop where
  host4 : ∀ sockets, scene.host4 = some sockets → ∀ s ∈ sockets, s.WellFormed ∧ s.users = []
  guest : ∀ sockets, scene.guest = some sockets → ∀ s ∈ sockets, s.WellFormed

/-- The host port is bound on the loopback address only, and the guest port is not on the host. -/
structure HostLocal (scene : Scene) (mapping : PortMapping) : Prop where
  host4 : ∃ s, scene.host4 = some [s] ∧ s.address = lit "127.0.0.1" ∧ (s.port : Int) = mapping.hostPort.toInt
  host6 : scene.host6 = some []
  guestOnHost4 : scene.guestOnHost4 = some []
  guestOnHost6 : scene.guestOnHost6 = some []

def Listens (sockets : List Socket) (port pid : Int64) : Prop :=
  ∃ s ∈ sockets, (s.port : Int) = port.toInt ∧ ∃ u ∈ s.users, (u.pid : Int) = pid.toInt

def SameNumber (a b : Bytes) : Prop := ∃ i j r, a = replicate i 48 ++ r ∧ b = replicate j 48 ++ r

/-- A table shows a listening socket on the port that a descriptor of the child refers to. -/
structure TableListens (targets : List (Option Bytes)) (port : Int64) (line : Bytes) : Prop where
  listening : (fields space line)[3]? = some (lit "0A")
  owned : ∃ inode, (fields space line)[9]? = some inode ∧ some (lit "socket:[" ++ inode ++ lit "]") ∈ targets
  port : ∃ address number, (fields space line)[1]? = some (address ++ 58 :: number) ∧ SameNumber number (formatHex port)

def ChildListens (scene : Scene) (port pid : Int64) : Prop :=
  match scene.guest with
  | some sockets => Listens sockets port pid
  | none => ∃ targets, scene.descriptors = some targets ∧
      ∃ body, (scene.tcp = some body ∨ scene.tcp6 = some body) ∧ ∃ line ∈ body.splitOn 10,
      TableListens targets port line

theorem sameNumber_of_trimZeros {a b : Bytes} (h : trimZeros a = trimZeros b) : SameNumber a b := by
  have hZeros (s : Bytes) : s = replicate (s.takeWhile (· == 48)).length 48 ++ trimZeros s := by
    have hFront : s.takeWhile (· == 48) = replicate (s.takeWhile (· == 48)).length 48 :=
      eq_replicate_length.mpr fun b hb => by simpa using mem_takeWhile_imp hb
    rw [← hFront]
    exact takeWhile_append_dropWhile.symm
  exact ⟨_, _, trimZeros a, hZeros a, h ▸ hZeros b⟩

theorem eq_of_socketInode {target inode : Bytes} (h : socketInode target = some inode) :
    target = lit "socket:[" ++ inode ++ lit "]" := by
  unfold socketInode at h
  split_ifs at h with hShape
  obtain ⟨⟨rest, rfl⟩, front, hLast⟩ := hShape
  have hInode : inode = rest.dropLast := by
    rw [drop_left' (by decide)] at h
    exact (Option.some.inj h).symm
  have hEnd : rest.getLast? = some 93 := by
    have hWhole := congrArg List.getLast? hLast
    rw [show lit "]" = [93] by decide, List.getLast?_append, List.getLast?_append] at hWhole
    cases hRest : rest.getLast? with
    | none =>
      rw [hRest] at hWhole
      have hBracket : some (93 : UInt8) = (lit "socket:[").getLast? := hWhole
      exact absurd hBracket (by decide)
    | some b =>
      rw [hRest] at hWhole
      exact hWhole.symm
  rw [hInode, append_assoc, show lit "]" = [93] by decide, dropLast_append_getLast? 93 hEnd]

theorem tableListens_of_showsListener {targets : List (Option Bytes)} {port : Int64} {line : Bytes}
    (h : showsListener (targets.filterMap fun target => target.bind socketInode) port line = true) :
    TableListens targets port line := by
  simp only [showsListener, Bool.and_eq_true, decide_eq_true_eq, beq_iff_eq,
    Option.any_eq_true, contains_iff_mem] at h
  obtain ⟨⟨⟨hLength, hListening⟩, inode, hInode, hSocket⟩, hPort⟩ := h
  refine ⟨hListening, ⟨inode, hInode, ?_⟩, ?_⟩
  · obtain ⟨target, hTarget, hBind⟩ := mem_filterMap.mp hSocket
    obtain ⟨text, rfl, hText⟩ := Option.bind_eq_some_iff.mp hBind
    rwa [← eq_of_socketInode hText]
  · have hLocal : (fields space line)[1]? = some ((fields space line).getD 1 []) := by
      rw [getD_eq_getElem?_getD, List.getElem?_eq_getElem (by omega)]
      rfl
    split at hPort
    case h_2 => cases hPort
    case h_1 address number hSplit =>
      have hJoin : [58].intercalate (((fields space line).getD 1 []).splitOn 58) = (fields space line).getD 1 [] :=
        intercalate_splitOn 58
      rw [hSplit] at hJoin
      refine ⟨address, number, ?_, sameNumber_of_trimZeros (beq_iff_eq.mp hPort)⟩
      rw [hLocal, ← hJoin]
      simp [List.intercalate]

theorem procGuestListener_sound {scene : Scene} {pid port : Int64} {text : Bytes}
    (h : procGuestListener scene.answers pid port = .ok text) :
    ∃ targets, scene.descriptors = some targets ∧ ∃ body, (scene.tcp = some body ∨ scene.tcp6 = some body) ∧
      ∃ line ∈ body.splitOn 10, TableListens targets port line := by
  unfold procGuestListener at h
  split at h
  case h_1 => cases h
  case h_2 targets hTargets =>
    dsimp only at h
    split_ifs at h with hTable
    simp only [any_cons, any_nil, Bool.or_false, Bool.or_eq_true,
      Option.any_eq_true, any_eq_true] at hTable
    rcases hTable with ⟨body, hBody, line, hLine, hShows⟩ | ⟨body, hBody, line, hLine, hShows⟩
    · exact ⟨targets, hTargets, body, .inl hBody, line, hLine, tableListens_of_showsListener hShows⟩
    · exact ⟨targets, hTargets, body, .inr hBody, line, hLine, tableListens_of_showsListener hShows⟩

theorem itoa_of_nonneg {n : Int64} (h : 0 ≤ n.toInt) : itoa n = numeral n.toInt.toNat := if_pos h

structure Exact (mapping : PortMapping) : Prop where
  address : mapping.hostAddress = lit "127.0.0.1"
  host : 0 ≤ mapping.hostPort.toInt
  guest : 0 ≤ mapping.guestPort.toInt

variable {scene : Scene} {mapping : PortMapping} {child : ProcessStatus} {name : Bytes}

theorem joinHostPort_exact (h : Exact mapping) : joinHostPort mapping.hostAddress (itoa mapping.hostPort) =
    lit "127.0.0.1" ++ 58 :: numeral mapping.hostPort.toInt.toNat := by
  rw [h.address, itoa_of_nonneg h.host]
  exact if_neg (by decide)

theorem endpoint_eq_iff {s : Socket} (h : Exact mapping) :
    s.endpoint = joinHostPort mapping.hostAddress (itoa mapping.hostPort) ↔
      s.address = lit "127.0.0.1" ∧ (s.port : Int) = mapping.hostPort.toInt := by
  have hColon (n : Nat) : (58 : UInt8) ∉ numeral n := notMem_numeral (by decide) n
  rw [joinHostPort_exact h, Socket.endpoint]
  constructor
  · intro hSame
    obtain ⟨hAddress, hPort⟩ := append_cons_inj_right (hColon _) (hColon _) hSame
    refine ⟨hAddress, ?_⟩
    rw [numeral_injective hPort]
    exact Int.toNat_of_nonneg h.host
  · rintro ⟨hAddress, hPort⟩
    rw [hAddress, ← hPort, Int.toNat_natCast]

def GuestPasses (scene : Scene) (port pid : Int64) : Prop :=
  match scene.guest with
  | some sockets => (∃ s ∈ sockets, s.MentionsPort port.toInt.toNat) ∧ ∃ s ∈ sockets, s.MentionsPid pid.toInt.toNat
  | none => ∃ text, procGuestListener scene.answers pid port = .ok text

theorem listing_eq_ok {output : Option (List Socket)} {text : Bytes} :
    listing (output.map listingText) = .ok text ↔ ∃ sockets, output = some sockets ∧ listingText sockets = text := by
  cases output <;> simp [listing]

theorem requireOK_eq_ok {status : Option Nat} : requireOK status = .ok () ↔ status = some 200 := by
  cases status <;> simp [requireOK]

theorem guestPasses_iff (hScene : scene.WellFormed) (hMapping : Exact mapping) (hPid : 0 ≤ child.identity.pid.toInt) :
    (∃ guest, guestListeners scene.answers child.identity.pid mapping.guestPort = .ok guest ∧
      contains guest (58 :: itoa mapping.guestPort) = true ∧
      contains guest (lit "pid=" ++ itoa child.identity.pid) = true) ↔
        GuestPasses scene mapping.guestPort child.identity.pid := by
  unfold GuestPasses
  rcases hGuest : scene.guest with _ | sockets
  · have hListeners : guestListeners scene.answers = procGuestListener scene.answers := by
      funext pid port
      simp [guestListeners, Scene.answers, hGuest]
    rw [hListeners]
    refine ⟨fun ⟨guest, hOk, _⟩ => ⟨guest, hOk⟩, fun ⟨guest, hOk⟩ => ⟨guest, hOk, ?_⟩⟩
    have hText : guest = 58 :: itoa mapping.guestPort ++ lit " pid=" ++ itoa child.identity.pid := by
      unfold procGuestListener at hOk
      split at hOk
      · cases hOk
      · dsimp only at hOk
        split_ifs at hOk
        exact (Except.ok.inj hOk).symm
    rw [hText, contains, contains, decide_eq_true_eq, decide_eq_true_eq]
    refine ⟨?_, ?_⟩
    · rw [append_assoc]
      exact (prefix_append _ _).isInfix
    · refine ⟨58 :: itoa mapping.guestPort ++ [32], [], ?_⟩
      rw [show lit " pid=" = 32 :: lit "pid=" by decide]
      simp
  · have hListeners : guestListeners scene.answers child.identity.pid mapping.guestPort =
        .ok (listingText sockets) := by
      simp [guestListeners, Scene.answers, hGuest]
    rw [hListeners]
    simp only [Except.ok.injEq, exists_eq_left', contains, decide_eq_true_eq,
      itoa_of_nonneg hMapping.guest, itoa_of_nonneg hPid,
      infix_listing token_port, infix_listing token_pid, mentions_port]
    refine and_congr_right fun _ => exists_congr fun s => and_congr_right fun hs => ?_
    exact mentions_pid (hScene.guest sockets hGuest s hs)

theorem ready_iff (hScene : scene.WellFormed) (hMapping : Exact mapping) (hPid : 0 ≤ child.identity.pid.toInt) :
    (∃ evidence, ready scene.answers name mapping child = .ok evidence) ↔ HostLocal scene mapping ∧
      GuestPasses scene mapping.guestPort child.identity.pid ∧ scene.http (readinessURL name mapping) = some 200 := by
  rw [← guestPasses_iff hScene hMapping hPid]
  constructor
  · rintro ⟨evidence, hReady⟩
    obtain ⟨host4, hHost4, hReady⟩ := bind_eq_ok.mp hReady
    obtain ⟨host6, hHost6, hReady⟩ := bind_eq_ok.mp hReady
    obtain ⟨hLocal, hReady⟩ := andThen_eq_ok.mp hReady
    obtain ⟨guest4, hGuest4, hReady⟩ := bind_eq_ok.mp hReady
    obtain ⟨hAbsent4, hReady⟩ := andThen_eq_ok.mp hReady
    obtain ⟨guest6, hGuest6, hReady⟩ := bind_eq_ok.mp hReady
    obtain ⟨hAbsent6, hReady⟩ := andThen_eq_ok.mp hReady
    obtain ⟨guest, hGuest, hReady⟩ := bind_eq_ok.mp hReady
    obtain ⟨hOwned, hLast⟩ := andThen_eq_ok.mp hReady
    obtain ⟨sockets4, hSockets4, rfl⟩ := listing_eq_ok.mp hHost4
    obtain ⟨sockets6, hSockets6, rfl⟩ := listing_eq_ok.mp hHost6
    obtain ⟨onHost4, hOnHost4, rfl⟩ := listing_eq_ok.mp hGuest4
    obtain ⟨onHost6, hOnHost6, rfl⟩ := listing_eq_ok.mp hGuest6
    simp only [refuse_eq_ok, Bool.or_eq_false_iff, Bool.not_eq_false', bne_eq_false_iff_eq, trim_listing,
      onlyLocalEndpoint_listing (hScene.host4 sockets4 hSockets4),
      endpoint_eq_iff hMapping] at hLocal hAbsent4 hAbsent6 hOwned
    obtain ⟨⟨s, rfl, hEndpoint⟩, rfl⟩ := hLocal
    subst hAbsent4 hAbsent6
    refine ⟨⟨⟨s, hSockets4, hEndpoint⟩, hSockets6, hOnHost4, hOnHost6⟩, ⟨guest, hGuest, hOwned⟩, ?_⟩
    exact requireOK_eq_ok.mp (andThen_eq_ok.mp hLast).1
  · rintro ⟨⟨⟨s, hHost4, hEndpoint⟩, hHost6, hGuest4, hGuest6⟩, ⟨guest, hGuest, hPort, hOwner⟩, hHttp⟩
    have hLocal : onlyLocalEndpoint (listingText [s])
        (joinHostPort mapping.hostAddress (itoa mapping.hostPort)) = true :=
      (onlyLocalEndpoint_listing (hScene.host4 [s] hHost4)).mpr ⟨s, rfl, (endpoint_eq_iff hMapping).mpr hEndpoint⟩
    have hNone : trim space (listingText []) = [] := rfl
    have hAnswers : scene.answers.host4 = some (listingText [s]) ∧ scene.answers.host6 = some (listingText []) ∧
        scene.answers.guestOnHost4 = some (listingText []) ∧ scene.answers.guestOnHost6 = some (listingText []) := by
      simp [Scene.answers, hHost4, hHost6, hGuest4, hGuest6]
    have hStatus : requireOK (scene.answers.http (readinessURL name mapping)) = .ok () := requireOK_eq_ok.mpr hHttp
    refine ⟨⟨joinHostPort mapping.hostAddress (itoa mapping.hostPort), lit "127.0.0.1:" ++ itoa mapping.guestPort,
      child.netNS⟩, ?_⟩
    simp only [ready, hAnswers, listing, bind, Except.bind, hLocal, hNone, refuse, hGuest,
      hPort, hOwner, hStatus, Bool.not_true,
      bne_self_eq_false, Bool.or_self, Bool.false_eq_true, if_false, pure, Except.pure]

/-- The inspector reports a service ready only when its child listens, exactly if the listing it
reads has no other text that it takes for the child's. -/
theorem readiness_sound_iff (hScene : scene.WellFormed) (hMapping : Exact mapping)
    (hPid : 0 ≤ child.identity.pid.toInt) :
    ((∃ evidence, ready scene.answers name mapping child = .ok evidence) →
      HostLocal scene mapping ∧ ChildListens scene mapping.guestPort child.identity.pid) ↔
    (HostLocal scene mapping → scene.http (readinessURL name mapping) = some 200 →
    ∀ sockets, scene.guest = some sockets →
      (∃ s ∈ sockets, s.MentionsPort mapping.guestPort.toInt.toNat) →
      (∃ s ∈ sockets, s.MentionsPid child.identity.pid.toInt.toNat) →
        Listens sockets mapping.guestPort child.identity.pid) := by
  rw [ready_iff hScene hMapping hPid]
  constructor
  · rintro hSound hHost hHttp sockets hGuest hPort hOwner
    have hPasses : GuestPasses scene mapping.guestPort child.identity.pid := by
      rw [GuestPasses, hGuest]
      exact ⟨hPort, hOwner⟩
    have hListens := (hSound ⟨hHost, hPasses, hHttp⟩).2
    rwa [ChildListens, hGuest] at hListens
  · rintro hClear ⟨hHost, hPasses, hHttp⟩
    refine ⟨hHost, ?_⟩
    rcases hGuest : scene.guest with _ | sockets
    · rw [GuestPasses, hGuest] at hPasses
      rw [ChildListens, hGuest]
      obtain ⟨text, hText⟩ := hPasses
      exact procGuestListener_sound hText
    · rw [GuestPasses, hGuest] at hPasses
      rw [ChildListens, hGuest]
      exact hClear hHost hHttp sockets hGuest hPasses.1 hPasses.2

section Samples

def sampleSocket (address : String) (port : Nat) (users : List User) : Socket where
  recvQ := 0
  sendQ := 4096
  address := lit address
  port := port
  peer := lit "0.0.0.0:*"
  users := users
  pads := fun _ => 2

def sampleScene (guest : List Socket) : Scene where
  host4 := some [sampleSocket "127.0.0.1" 41000 []]
  host6 := some []
  guestOnHost4 := some []
  guestOnHost6 := some []
  guest := some guest
  descriptors := none
  tcp := none
  tcp6 := none
  http _ := some 200

def sampleMapping : PortMapping := ⟨lit "127.0.0.1", 41000, 5000⟩

theorem sampleMapping_exact : Exact sampleMapping := ⟨rfl, by decide, by decide⟩

def ownListing : List Socket := [sampleSocket "*" 5000 [⟨lit "hauler", 11, 7⟩]]

/-- Process 110 listens instead. -/
def strangerListing : List Socket := [sampleSocket "*" 5000 [⟨lit "other", 110, 7⟩]]

theorem wellFormed_sampleScene {guest : List Socket} (h : ∀ s ∈ guest, s.WellFormed) :
    (sampleScene guest).WellFormed where
  host4 sockets hSockets s hs := by
    cases hSockets
    rw [mem_singleton.mp hs]
    exact ⟨⟨by decide +kernel, by decide +kernel⟩, rfl⟩
  guest sockets hSockets := by
    cases hSockets
    exact h

theorem own_listing_sound :
    ((∃ evidence, ready (sampleScene ownListing).answers (lit "registry") sampleMapping sampleChild = .ok evidence) →
    HostLocal (sampleScene ownListing) sampleMapping ∧ ChildListens (sampleScene ownListing) 5000 11) ∧
    ∃ evidence, ready (sampleScene ownListing).answers (lit "registry") sampleMapping sampleChild = .ok evidence := by
  have hScene : (sampleScene ownListing).WellFormed :=
    wellFormed_sampleScene (forall_mem_singleton.mpr ⟨by decide +kernel, by decide +kernel⟩)
  refine ⟨(readiness_sound_iff hScene sampleMapping_exact (by decide)).mpr ?_, ?_⟩
  · rintro - - sockets hGuest - -
    cases hGuest
    exact ⟨_, mem_cons_self, by decide, _, mem_cons_self, by decide⟩
  · exact ⟨⟨lit "127.0.0.1:41000", lit "127.0.0.1:5000", lit "net:[2]"⟩, by decide +kernel⟩

theorem longer_pid_is_taken_for_child : (sampleScene strangerListing).WellFormed ∧ Exact sampleMapping ∧
    0 ≤ sampleChild.identity.pid.toInt ∧
    (∃ evidence, ready (sampleScene strangerListing).answers (lit "registry")
    sampleMapping sampleChild = .ok evidence) ∧
    ¬ ChildListens (sampleScene strangerListing) sampleMapping.guestPort sampleChild.identity.pid := by
  refine ⟨wellFormed_sampleScene (forall_mem_singleton.mpr ⟨by decide +kernel, by decide +kernel⟩),
    sampleMapping_exact, by decide, ?_, ?_⟩
  · exact ⟨⟨lit "127.0.0.1:41000", lit "127.0.0.1:5000", lit "net:[2]"⟩, by decide +kernel⟩
  · rintro ⟨s, hs, -, u, hu, hPid⟩
    rw [mem_singleton.mp hs] at hu
    rw [mem_singleton.mp hu] at hPid
    exact absurd hPid (by decide)

end Samples

end Ownership

end Camp.Supervisor
