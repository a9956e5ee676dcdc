import Mathlib.Tactic
import Camp.Wire.Text
import Camp.Wire.Words

/-!
# URLs

A URL is parsed into its parts and written again. Hosts may be names or addresses
in brackets, and an address may name a zone. The escapes that a host may have
differ from those that a zone may have, and a host is written with the former.
-/

namespace Wire.Url

open Utf8 List Option

inductive Mode where
  | host
  | zone
  | path
  deriving DecidableEq

def letter (b : UInt8) : Bool := (97 ≤ b && b ≤ 122) || (65 ≤ b && b ≤ 90)

def digit (b : UInt8) : Bool := 48 ≤ b && b ≤ 57

def marks : Mode → Bytes
  | .path => lit "-_.~$&+,/:;=@"
  | _ => lit "-_.~!$&'()*+,;=:[]<>\""

def shouldEscape (mode : Mode) (b : UInt8) : Bool := !(letter b || digit b || (marks mode).contains b)

def upperHex (n : Nat) : UInt8 := UInt8.ofNat (if n < 10 then 48 + n else 55 + n)

def escapeByte (mode : Mode) (b : UInt8) : Bytes :=
  if shouldEscape mode b then [37, upperHex (b.toNat / 16), upperHex (b.toNat % 16)] else [b]

def escape (mode : Mode) (s : Bytes) : Bytes := s.flatMap (escapeByte mode)

def unhex (b : UInt8) : Option Nat :=
  if digit b then some (b.toNat - 48)
  else if 97 ≤ b ∧ b ≤ 102 then some (b.toNat - 87)
  else if 65 ≤ b ∧ b ≤ 70 then some (b.toNat - 55)
  else none

/-- The bytes that may not be escaped. A zone may escape what it could also hold as it
stands, a percent sign and a space. -/
def refuses : Mode → UInt8 → Bool
  | .host, b => b < 128 && b != 37
  | .zone, b => b != 37 && b != 32 && shouldEscape .host b
  | .path, _ => false

/-- The bytes that may not stand for themselves. -/
def forbids : Mode → UInt8 → Bool
  | .path, _ => false
  | mode, b => b < 128 && shouldEscape mode b

def unescape (mode : Mode) : Bytes → Option Bytes
  | [] => some []
  | b :: s =>
    if b = 37 then
      match s with
      | high :: low :: s => do
        let value := UInt8.ofNat ((← unhex high) * 16 + (← unhex low))
        if refuses mode value then none else (unescape mode s).map (value :: ·)
      | _ => none
    else if forbids mode b then none
    else (unescape mode s).map (b :: ·)

section Addresses

def isIPv4 (s : Bytes) : Bool :=
  let fields := s.splitOn 46
  fields.length == 4 && fields.all fun field =>
    field != [] && field.all digit && (field.length == 1 || field.head? != some 48) &&
      field.length ≤ 3 && readNumeral field ≤ 255

def isGroup (s : Bytes) : Bool := s != [] && s.length ≤ 4 && s.all fun b => (unhex b).isSome

/-- How many groups of 16 bits the text has. The last two may be written as an IPv4 address. -/
def groups (fields : List Bytes) : Option Nat :=
  if fields.all isGroup then some fields.length
  else if fields.dropLast.all isGroup && (fields.getLast?.any isIPv4) then some (fields.length + 1)
  else none

def cutEllipsis : Bytes → Option (Bytes × Bytes)
  | 58 :: 58 :: s => some ([], s)
  | b :: s => (cutEllipsis s).map (Prod.map (b :: ·) id)
  | [] => none

def isIPv6 (s : Bytes) : Bool :=
  match cutEllipsis s with
  | none => groups (s.splitOn 58) == some 8
  | some (front, back) =>
    (front == [] || (front.splitOn 58).all isGroup) &&
      ((if back = [] then some 0 else groups (back.splitOn 58)).any
        fun n => n + (if front = [] then 0 else (front.splitOn 58).length) ≤ 7)

/-- Whether `netip.ParseAddr` reads the text as an IPv6 address, perhaps with a zone. -/
def isLiteral (s : Bytes) : Bool :=
  match s.dropWhile (· ≠ 37) with
  | [] => isIPv6 s
  | _ :: zone => zone != [] && isIPv6 (s.takeWhile (· ≠ 37))

/-- Whether `net.ParseIP` reads the text. -/
def isIP (s : Bytes) : Bool := isIPv4 s || isIPv6 s

end Addresses

section Parse

structure URL where
  scheme : Bytes
  remainder : Bytes
  user : Option Bytes
  host : Bytes
  path : Bytes
  rawPath : Bytes
  forceQuery : Bool
  rawQuery : Bytes
  fragment : Bytes
  deriving DecidableEq

def URL.empty : URL := ⟨[], [], none, [], [], [], false, [], []⟩

def control (b : UInt8) : Bool := b < 32 || b == 127

def cut (sep : UInt8) (s : Bytes) : Bytes × Bytes := (s.takeWhile (· ≠ sep), (s.dropWhile (· ≠ sep)).tail)

/-- What stands before and after the last separator. -/
def cutLast (sep : UInt8) (s : Bytes) : Option (Bytes × Bytes) :=
  if sep ∈ s then some ((s.reverse.dropWhile (· ≠ sep)).tail.reverse, (s.reverse.takeWhile (· ≠ sep)).reverse) else none

def schemeByte (b : UInt8) : Bool := letter b || digit b || b == 43 || b == 45 || b == 46

def getScheme (s : Bytes) : Option (Bytes × Bytes) :=
  match s.takeWhile schemeByte, s.dropWhile schemeByte with
  | [], 58 :: _ => none
  | b :: name, 58 :: rest => if letter b then some (b :: name, rest) else some ([], s)
  | _, _ => some ([], s)

def lower (b : UInt8) : UInt8 := if 65 ≤ b ∧ b ≤ 90 then b + 32 else b

def splitQuery (s : Bytes) : Bytes × Bytes × Bool :=
  if s.getLast? = some 63 ∧ s.count 63 = 1 then (s.dropLast, [], true) else ((cut 63 s).1, (cut 63 s).2, false)

def validOptionalPort : Bytes → Bool
  | [] => true
  | b :: digits => b == 58 && digits.all digit

/-- Where the zone of an address begins: at the first escaped percent sign. -/
def cutZone : Bytes → Option (Bytes × Bytes)
  | 37 :: 50 :: 53 :: s => some ([], s)
  | b :: s => (cutZone s).map (Prod.map (b :: ·) id)
  | [] => none

def parseHostname (s : Bytes) : Option Bytes :=
  match cutZone s with
  | some (address, zone) => do return (← unescape .host address) ++ (← unescape .zone (37 :: 50 :: 53 :: zone))
  | none => unescape .host s

def parseHost : Bytes → Option Bytes
  | 91 :: s =>
    if 91 ∈ s then none
    else do
      let (hostname, port) ← cutLast 93 s
      guard (validOptionalPort port)
      let name ← parseHostname hostname
      guard (isLiteral name)
      return 91 :: (name ++ 93 :: port)
  | s =>
    if 91 ∈ s then none
    else do
      guard (validOptionalPort (s.dropWhile (· ≠ 58)))
      unescape .host s

def userByte (b : UInt8) : Bool := letter b || digit b || (lit "-._:~!$&'()*+,;=%@").contains b

def parseAuthority (s : Bytes) : Option (Option Bytes × Bytes) :=
  match cutLast 64 s with
  | none => (parseHost s).map fun host => (none, host)
  | some (user, host) => do
    let host ← parseHost host
    guard (user.all userByte)
    let _ ← unescape .path user
    return (some user, host)

def setPath (u : URL) (p : Bytes) : Option URL := do
  let path ← unescape .path p
  return { u with path, rawPath := if escape .path path = p then [] else p }

def parseHierarchy (u : URL) (rest : Bytes) : Option URL :=
  if (u.scheme ≠ [] ∨ rest.take 3 ≠ [47, 47, 47]) ∧ rest.take 2 = [47, 47] then do
    let (user, host) ← parseAuthority ((rest.drop 2).takeWhile (· ≠ 47))
    setPath { u with user, host } ((rest.drop 2).dropWhile (· ≠ 47))
  else setPath u rest

def parseRest (scheme rest : Bytes) : Option URL :=
  let query := splitQuery rest
  let u := { URL.empty with scheme := scheme.map lower, rawQuery := query.2.1, forceQuery := query.2.2 }
  if query.1.head? = some 47 then parseHierarchy u query.1
  else if scheme ≠ [] then some { u with remainder := query.1 }
  else if 58 ∈ (cut 47 query.1).1 then none
  else parseHierarchy u query.1

def parseBody (s : Bytes) : Option URL := do
  guard (!s.any control)
  if s = [42] then return { URL.empty with path := s }
  else do
    let (scheme, rest) ← getScheme s
    parseRest scheme rest

def parse (s : Bytes) : Option URL := do
  let u ← parseBody (cut 35 s).1
  if (cut 35 s).2 = [] then return u
  else return { u with fragment := ← unescape .path (cut 35 s).2 }

/-- The text of a URL that has a scheme and a host, and no user, path, query or fragment. -/
def URL.originText (u : URL) : Bytes :=
  u.scheme ++ 58 :: 47 :: 47 :: (escape .host u.host ++ if u.forceQuery then [63] else [])

/-- The host without its port and its brackets. -/
def URL.hostname (u : URL) : Bytes :=
  let host := match cutLast 58 u.host with
    | some (front, port) => if port.all digit then front else u.host
    | none => u.host
  if host.head? = some 91 ∧ host.getLast? = some 93 then host.tail.dropLast else host

end Parse

section Escapes

variable {mode : Mode} {b : UInt8} {s t v w : Bytes}

theorem forall_byte {P : UInt8 → Prop} (h : ∀ n < 256, P (UInt8.ofNat n)) (b : UInt8) : P b := by
  have hb := h b.toNat b.toNat_lt
  rwa [UInt8.ofNat_toNat] at hb

theorem unhex_upperHex : ∀ n < 16, unhex (upperHex n) = some n := by decide

theorem upperHex_plain : ∀ n < 16, upperHex n ≠ 37 ∧ upperHex n ≠ 58 ∧ upperHex n ≠ 91 ∧ upperHex n < 128 := by decide

theorem unhex_byte : ∀ b : UInt8, (∀ n, unhex b = some n → b ≠ 37 ∧ b ≠ 58 ∧ b < 128 ∧ n < 16) ∧
    (unhex b = some 2 ↔ b = 50) ∧ (unhex b = some 5 ↔ b = 53) ∧ (unhex b = some 11 ↔ b = 66 ∨ b = 98) := by
  refine forall_byte ?_
  decide +kernel

theorem unhex_plain (b : UInt8) (n : Nat) (h : unhex b = some n) :
    b ≠ 37 ∧ b ≠ 58 ∧ b < 128 ∧ n < 16 := (unhex_byte b).1 n h

/-- What a byte may be if a host, or a zone, was read with it. -/
theorem read_byte : ∀ b : UInt8,
    (forbids .host b = false ∨ refuses .host b = false → (shouldEscape .host b && refuses .host b) = false) ∧
    (forbids .zone b = false ∨ refuses .zone b = false →
    ((shouldEscape .host b && refuses .zone b) = true ↔ ¬ b < 128)) ∧
    (refuses .zone b = false → b < 128) := by
  refine forall_byte ?_
  decide +kernel

/-- What a byte is not if it stands in a scheme or a port, or in what is written for another byte. -/
theorem written_byte : ∀ b : UInt8,
    (schemeByte b = true ∨ b ∈ [58, 47, 63] → b ≠ 35 ∧ b ≠ 37 ∧ b ≠ 91 ∧ control b = false) ∧
    (b = 58 ∨ digit b = true → shouldEscape .host b = false ∧ b ≠ 37 ∧ b ≠ 91 ∧ b < 128) ∧
    (b ≠ 58 → (escapeByte .host b).all (· ≠ 58) = true) := by
  refine forall_byte ?_
  decide +kernel

/-- What a byte is not if it stands in a written host or in a path. -/
theorem shown_byte : ∀ b : UInt8,
    (shouldEscape .host b = false ∨ b = 37 ∨ (∃ n < 16, b = upperHex n) → b ∉ [47, 63, 35, 64] ∧ control b = false) ∧
    (shouldEscape .path b = false → b ≠ 63 ∧ b ≠ 35 ∧ b ≠ 37 ∧ control b = false ∧ 32 < b ∧ b < 127) := by
  refine forall_byte ?_
  decide +kernel

theorem unescape_percent (mode : Mode) (high low : UInt8) (s : Bytes) : unescape mode (37 :: high :: low :: s) =
    (unhex high).bind fun m => (unhex low).bind fun n =>
      if refuses mode (UInt8.ofNat (m * 16 + n)) then none else (unescape mode s).map
          (UInt8.ofNat (m * 16 + n) :: ·) := by
  rw [unescape.eq_def]
  rfl

theorem unescape_cons (hb : b ≠ 37) : unescape mode (b :: s) =
    if forbids mode b then none else (unescape mode s).map (b :: ·) := by
  rw [unescape.eq_def]
  simp only [if_neg hb]

theorem escapeByte_value (b : UInt8) : UInt8.ofNat (b.toNat / 16 * 16 + b.toNat % 16) = b := by
  rw [Nat.div_add_mod', UInt8.ofNat_toNat]

theorem unescape_escapeByte (hMode : mode ≠ .path) (b : UInt8) (t : Bytes) : unescape mode (escapeByte .host b ++ t) =
    if shouldEscape .host b && refuses mode b then none else (unescape mode t).map (b :: ·) := by
  have hNibbles := b.toNat_lt
  cases hEscape : shouldEscape .host b with
  | true =>
    rw [escapeByte, if_pos hEscape, cons_append, cons_append, cons_append,
      nil_append, unescape_percent]
    simp only [unhex_upperHex (b.toNat / 16) (by omega), unhex_upperHex (b.toNat % 16) (by omega),
      bind_some, escapeByte_value, Bool.true_and]
  | false =>
    have hPercent : b ≠ 37 := by
      rintro rfl
      exact absurd hEscape (by decide)
    have hStands : forbids mode b = false := by
      cases mode with
      | path => exact absurd rfl hMode
      | _ => exact Bool.and_eq_false_iff.mpr (Or.inr hEscape)
    rw [escapeByte, hEscape, if_neg (by simp), singleton_append, unescape_cons hPercent, hStands]
    rfl

theorem escape_cons (mode : Mode) (b : UInt8) (v : Bytes) : escape mode (b :: v) = escapeByte mode b ++ escape mode v :=
  flatMap_cons ..

theorem escape_append (mode : Mode) (v w : Bytes) : escape mode (v ++ w) = escape mode v ++ escape mode w :=
  flatMap_append ..

/-- What is written as a host can be read, unless it escapes what the reader refuses. -/
theorem unescape_escape (hMode : mode ≠ .path) (v : Bytes) : unescape mode (escape .host v) =
    if v.any (fun b => shouldEscape .host b && refuses mode b) then none else some v := by
  induction v with
  | nil => rfl
  | cons b v ih =>
    rw [escape_cons, unescape_escapeByte hMode, ih, any_cons]
    cases hb : shouldEscape .host b && refuses mode b with
    | true => simp
    | false => cases hv : v.any fun b => shouldEscape .host b && refuses mode b <;> simp

/-- The text writes the value: each of its bytes as it stands or escaped. -/
inductive Writes (mode : Mode) : Bytes → Bytes → Prop where
  | nil : Writes mode [] []
  | escaped {high low : UInt8} {m n : Nat} {t v : Bytes} (hHigh : unhex high = some m) (hLow : unhex low = some n)
      (hAllowed : refuses mode (UInt8.ofNat (m * 16 + n)) = false) (later : Writes mode t v) :
      Writes mode (37 :: high :: low :: t) (UInt8.ofNat (m * 16 + n) :: v)
  | plain {b : UInt8} {t v : Bytes} (hPercent : b ≠ 37) (hAllowed : forbids mode b = false) (later : Writes mode t v) :
      Writes mode (b :: t) (b :: v)

theorem writes_of_unescape (h : unescape mode t = some v) : Writes mode t v := by
  induction hLength : t.length using Nat.strong_induction_on generalizing t v with
  | _ n ih =>
    rcases t with _ | ⟨b, t⟩
    · cases h
      exact .nil
    · by_cases hb : b = 37
      · subst hb
        rcases t with _ | ⟨high, _ | ⟨low, t⟩⟩
        · cases h
        · cases h
        · rw [unescape_percent] at h
          obtain ⟨m, hHigh, h⟩ := bind_eq_some_iff.mp h
          obtain ⟨n', hLow, h⟩ := bind_eq_some_iff.mp h
          split_ifs at h with hRefuses
          obtain ⟨v, hLater, rfl⟩ := map_eq_some_iff.mp h
          exact .escaped hHigh hLow (Bool.not_eq_true _ ▸ hRefuses) (ih t.length (by simp at hLength; omega) hLater rfl)
      · rw [unescape_cons hb] at h
        split_ifs at h with hForbids
        obtain ⟨v, hLater, rfl⟩ := map_eq_some_iff.mp h
        exact .plain hb (Bool.not_eq_true _ ▸ hForbids) (ih t.length (by simp at hLength; omega) hLater rfl)

theorem Writes.eq_nil (h : Writes mode t []) : t = [] := by
  cases h
  rfl

theorem Writes.mem (h : Writes mode t v) (hb : b ∈ v) : (b ∈ t ∧ forbids mode b = false) ∨ refuses mode b = false := by
  induction h with
  | nil => cases hb
  | escaped hHigh hLow hAllowed later ih =>
    rcases mem_cons.mp hb with rfl | hb
    · exact Or.inr hAllowed
    · exact (ih hb).imp_left fun h => ⟨by simp [h.1], h.2⟩
  | plain hPercent hAllowed later ih =>
    rcases mem_cons.mp hb with rfl | hb
    · exact Or.inl ⟨mem_cons_self, hAllowed⟩
    · exact (ih hb).imp_left fun h => ⟨mem_cons_of_mem _ h.1, h.2⟩

theorem Writes.host (h : Writes .host t v) : unescape .host (escape .host v) = some v := by
  rw [unescape_escape (by decide), if_neg]
  rw [List.any_eq_true]
  rintro ⟨b, hb, hBad⟩
  rw [(read_byte b).1 ((h.mem hb).imp_left And.right)] at hBad
  cases hBad

theorem Writes.bracket (h : Writes .host t v) (hRaw : 91 ∉ t) : 91 ∉ v := by
  intro hMem
  rcases h.mem hMem with ⟨hMem, _⟩ | hRefuses
  · exact hRaw hMem
  · exact absurd hRefuses (by decide)

theorem Writes.zone (h : Writes .zone t v) [Decidable (∀ b ∈ v, b < 128)] :
    unescape .zone (escape .host v) = if ∀ b ∈ v, b < 128 then some v else none := by
  have hAny : v.any (fun b => shouldEscape .host b && refuses .zone b) = true ↔ ¬ ∀ b ∈ v, b < 128 := by
    rw [List.any_eq_true]
    push Not
    exact exists_congr fun b => and_congr_right fun hb => (read_byte b).2.1 ((h.mem hb).imp_left And.right)
  rw [unescape_escape (by decide)]
  split_ifs with hBad hLow hLow
  · exact absurd hLow (hAny.mp hBad)
  · rfl
  · rfl
  · exact absurd (hAny.mpr hLow) hBad

theorem unhex_value {high low : UInt8} {m n : Nat} (hHigh : unhex high = some m)
    (hLow : unhex low = some n) (b : UInt8) :
    UInt8.ofNat (m * 16 + n) = b ↔ unhex high = some (b.toNat / 16) ∧ unhex low = some (b.toNat % 16) := by
  have hm := (unhex_plain high m hHigh).2.2.2
  have hn := (unhex_plain low n hLow).2.2.2
  rw [hHigh, hLow, Option.some.injEq, Option.some.injEq, ← UInt8.toNat_inj, toNat_ofNat_of_lt (by omega)]
  omega

theorem unhex_digits (b : UInt8) :
    (unhex b = some 2 ↔ b = 50) ∧ (unhex b = some 5 ↔ b = 53) ∧
    (unhex b = some 11 ↔ b = 66 ∨ b = 98) := (unhex_byte b).2

end Escapes

section Zones

variable {b : UInt8} {s t v w a z : Bytes}
variable {c : UInt8}

theorem cutZone_cons (hb : ∀ t, b :: s ≠ 37 :: 50 :: 53 :: t) :
    cutZone (b :: s) = (cutZone s).map (Prod.map (b :: ·) id) := by
  rw [cutZone.eq_def]
  split
  · rename_i h
    exact absurd h (hb _)
  · rename_i h
    cases h
    rfl
  · rename_i h
    cases h

theorem cutZone_skip (h : 37 ∉ v) (t : Bytes) : cutZone (v ++ t) = (cutZone t).map (Prod.map (v ++ ·) id) := by
  induction v with
  | nil =>
    rw [nil_append]
    cases cutZone t <;> rfl
  | cons b v ih =>
    obtain ⟨hb, hv⟩ := not_or.mp (mt mem_cons.mpr h)
    rw [List.cons_append, cutZone_cons fun t hEq => hb (List.cons.inj hEq).1.symm, ih hv, Option.map_map]
    rfl

theorem cutZone_escape (h : 37 ∉ v) (t : Bytes) :
    cutZone (escape .host v ++ t) = (cutZone t).map (Prod.map (escape .host v ++ ·) id) := by
  induction v with
  | nil =>
    show cutZone t = _
    cases cutZone t <;> rfl
  | cons b v ih =>
    obtain ⟨hb, hv⟩ := not_or.mp (mt mem_cons.mpr h)
    have hNibbles := b.toNat_lt
    have hHigh := upperHex_plain (b.toNat / 16) (by omega)
    have hLow := upperHex_plain (b.toNat % 16) (by omega)
    have hStep (rest : Bytes) : cutZone (escapeByte .host b ++ rest) =
        (cutZone rest).map (Prod.map (escapeByte .host b ++ ·) id) := by
      unfold escapeByte
      split_ifs
      · rw [List.cons_append, cutZone_cons, cutZone_skip (by simp [hHigh.1.symm, hLow.1.symm]), Option.map_map]
        · rfl
        · intro t hEq
          simp only [cons_append, List.cons.injEq] at hEq
          have hHex := unhex_upperHex (b.toNat / 16) (by omega)
          have hHex' := unhex_upperHex (b.toNat % 16) (by omega)
          rw [hEq.2.1] at hHex
          rw [hEq.2.2.1] at hHex'
          have hTwo : 2 = b.toNat / 16 := Option.some.inj hHex
          have hFive : 5 = b.toNat % 16 := Option.some.inj hHex'
          exact hb (UInt8.toNat.inj (show (37 : UInt8).toNat = b.toNat from by simp; omega))
      · rw [cutZone_skip (by simpa using hb)]
    rw [escape_cons, append_assoc, hStep, ih hv]
    cases cutZone t <;> simp [Prod.map]

theorem cutZone_eq_some (h : cutZone s = some (a, z)) :
    s = a ++ 37 :: 50 :: 53 :: z ∧ cutZone a = none ∧ ∀ w, cutZone (s ++ w) = some (a, z ++ w) := by
  fun_induction cutZone s generalizing a with
  | case1 s =>
    cases h
    exact ⟨rfl, rfl, fun w => rfl⟩
  | case2 b s hb ih =>
    obtain ⟨⟨a', z'⟩, hLater, hEq⟩ := map_eq_some_iff.mp h
    cases hEq
    obtain ⟨rfl, hNone, hMore⟩ := ih hLater
    refine ⟨rfl, ?_, fun w => ?_⟩
    · rw [cutZone_cons, hNone]
      · rfl
      · intro t hEq
        cases hEq
        exact hb _ rfl rfl
    · rw [cons_append, cutZone_cons, hMore]
      · rfl
      · intro t hEq
        rcases a' with _ | ⟨x, _ | ⟨y, a'⟩⟩ <;> cases hEq
        exact hb _ rfl rfl
  | case3 => cases h

theorem cutZone_tail (h : cutZone (b :: s) = none) : cutZone s = none ∧ ∀ t, b :: s ≠ 37 :: 50 :: 53 :: t := by
  have hb : ∀ t, b :: s ≠ 37 :: 50 :: 53 :: t := by
    intro t hEq
    rw [hEq] at h
    cases h
  rw [cutZone_cons hb, map_eq_none_iff] at h
  exact ⟨h, hb⟩

theorem cutZone_eq_none (h : cutZone s = none) (hw : 37 ∉ w) (hc : c ≠ 37 ∧ c ≠ 50 ∧ c ≠ 53) :
    cutZone (s ++ c :: w) = none := by
  induction s with
  | nil =>
    have hSkip := cutZone_skip (v := c :: w) (by simpa using ⟨hc.1.symm, hw⟩) []
    rwa [append_nil] at hSkip
  | cons b s ih =>
    obtain ⟨hTail, hb⟩ := cutZone_tail h
    rw [cons_append, cutZone_cons, ih hTail]
    · rfl
    · intro t hEq
      rcases s with _ | ⟨x, _ | ⟨y, s⟩⟩
      · exact hc.2.1 (List.cons.inj (List.cons.inj hEq).2).1
      · exact hc.2.2 (List.cons.inj (List.cons.inj (List.cons.inj hEq).2).2).1
      · cases hEq
        exact hb _ rfl

theorem Writes.percent (h : Writes .host t v) (hZone : cutZone t = none) : 37 ∉ v := by
  induction h with
  | nil => simp
  | @escaped high low m n t v hHigh hLow hAllowed later ih =>
    obtain ⟨h₁, hb⟩ := cutZone_tail hZone
    rw [mem_cons, not_or]
    refine ⟨fun hEq => ?_, ih (cutZone_tail (cutZone_tail h₁).1).1⟩
    obtain ⟨hTwo, hFive⟩ := (unhex_value hHigh hLow 37).mp hEq.symm
    rw [(unhex_digits high).1.mp hTwo, (unhex_digits low).2.1.mp hFive] at hb
    exact hb _ rfl
  | plain hPercent hAllowed later ih =>
    rw [mem_cons, not_or]
    exact ⟨Ne.symm hPercent, ih (cutZone_tail hZone).1⟩

theorem zone_high (h : Writes .zone t v) : (∀ b ∈ t, b < 128) ↔ ∀ b ∈ v, b < 128 := by
  induction h with
  | nil => simp
  | @escaped high low m n t v hHigh hLow hAllowed later ih =>
    simp only [forall_mem_cons, ih, (unhex_plain high m hHigh).2.2.1, (unhex_plain low n hLow).2.2.1,
      (read_byte _).2.2 hAllowed,
      true_and]
    exact and_iff_right (by decide)
  | plain hPercent hAllowed later ih => simp only [forall_mem_cons, ih]

theorem infix_cons_ne {p : Bytes} (hc : c ≠ 37) : 37 :: p <:+: c :: t ↔ 37 :: p <:+: t := by
  rw [infix_cons_iff, cons_prefix_cons]
  simp [Ne.symm hc]

/-- A zone holds a bracket only when the text escapes it. -/
theorem zone_bracket (h : Writes .zone t v) (hRaw : 91 ∉ t) :
    91 ∈ v ↔ [37, 53, 66] <:+: t ∨ [37, 53, 98] <:+: t := by
  induction h with
  | nil => simp
  | @escaped high low m n t v hHigh hLow hAllowed later ih =>
    have hTail : 91 ∉ t := fun hMem => hRaw (by simp [hMem])
    have hPair : UInt8.ofNat (m * 16 + n) = 91 ↔ high = 53 ∧ (low = 66 ∨ low = 98) := by
      rw [← (unhex_digits high).2.1, ← (unhex_digits low).2.2]
      exact unhex_value hHigh hLow 91
    have hInfix (x : UInt8) : [37, 53, x] <:+: 37 :: high :: low :: t ↔ (53 = high ∧ x = low) ∨ [37, 53, x] <:+: t := by
      rw [infix_cons_iff, infix_cons_ne (unhex_plain high m hHigh).1, infix_cons_ne (unhex_plain low n hLow).1]
      simp
    rw [hInfix, hInfix, mem_cons, eq_comm, hPair]
    have hIh : 91 ∈ v ↔ [37, 53, 66] <:+: t ∨ [37, 53, 98] <:+: t := ih hTail
    grind
  | @plain b t v hPercent hAllowed later ih =>
    obtain ⟨hb, hTail⟩ := not_or.mp (mt mem_cons.mpr hRaw)
    have hIh : 91 ∈ v ↔ [37, 53, 66] <:+: t ∨ [37, 53, 98] <:+: t := ih hTail
    rw [mem_cons, infix_cons_ne hPercent, infix_cons_ne hPercent, ← hIh]
    simp [hb]

end Zones

section Hosts

variable {s t v w port host : Bytes} {b : UInt8}
variable {front : Bytes}
variable {back hostname found : Bytes}

theorem cutLast_append (h : b ∉ back) : cutLast b (front ++ b :: back) = some (front, back) := by
  have hBack : ∀ x ∈ back.reverse, decide (x ≠ b) = true := by
    intro x hx
    rw [decide_eq_true_eq]
    rintro rfl
    exact h (mem_reverse.mp hx)
  rw [cutLast, if_pos (by simp), reverse_append, reverse_cons, append_assoc, singleton_append,
    dropWhile_append_of_pos hBack, takeWhile_append_of_pos hBack]
  simp

theorem cutLast_eq_some : cutLast b s = some (front, back) ↔ s = front ++ b :: back ∧ b ∉ back := by
  constructor
  · intro h
    have hMem : b ∈ s := by
      by_contra hNot
      rw [cutLast, if_neg hNot] at h
      cases h
    obtain ⟨x, y, hSplit, hLast⟩ := eq_append_cons_of_mem (mem_reverse.mpr hMem)
    obtain rfl : s = y.reverse ++ b :: x.reverse := by
      rw [← reverse_reverse s, hSplit]
      simp
    rw [cutLast_append (by simpa using hLast)] at h
    cases h
    exact ⟨rfl, by simpa using hLast⟩
  · rintro ⟨rfl, h⟩
    exact cutLast_append h

theorem mem_port (h : validOptionalPort port = true) (hb : b ∈ port) : b = 58 ∨ digit b = true := by
  cases port with
  | nil => cases hb
  | cons c digits =>
    simp only [validOptionalPort, Bool.and_eq_true, beq_iff_eq, List.all_eq_true] at h
    rcases List.mem_cons.mp hb with rfl | hb
    · exact Or.inl h.1
    · exact Or.inr (h.2 b hb)

theorem port_plain (b : UInt8) (h : b = 58 ∨ digit b = true) :
    shouldEscape .host b = false ∧ b ≠ 37 ∧ b ≠ 91 ∧ b < 128 :=
  (written_byte b).2.1 h

theorem escape_eq_self {mode : Mode} (h : ∀ b ∈ s, shouldEscape mode b = false) : escape mode s = s := by
  induction s with
  | nil => rfl
  | cons b s ih =>
    obtain ⟨hb, hs⟩ := forall_mem_cons.mp h
    rw [escape_cons, ih hs, escapeByte, hb]
    rfl

theorem escape_port (h : validOptionalPort port = true) : escape .host port = port :=
  escape_eq_self fun b hb => (port_plain b (mem_port h hb)).1

/-- The bytes of a written host: those that it shows, and those of its escapes. -/
theorem mem_escape (h : b ∈ escape .host v) :
    (b ∈ v ∧ shouldEscape .host b = false) ∨ b = 37 ∨ ∃ n < 16, b = upperHex n := by
  obtain ⟨c, hc, hb⟩ := mem_flatMap.mp h
  have hNibbles := c.toNat_lt
  unfold escapeByte at hb
  split_ifs at hb with hEscape
  · simp only [mem_cons, not_mem_nil, or_false] at hb
    rcases hb with rfl | rfl | rfl
    · exact Or.inr (Or.inl rfl)
    · exact Or.inr (Or.inr ⟨_, by omega, rfl⟩)
    · exact Or.inr (Or.inr ⟨_, by omega, rfl⟩)
  · rw [mem_singleton] at hb
    rw [hb]
    exact Or.inl ⟨hc, Bool.not_eq_true _ ▸ hEscape⟩

theorem bracket_escape : 91 ∈ escape .host v ↔ 91 ∈ v := by
  constructor
  · intro h
    rcases mem_escape h with ⟨hv, _⟩ | hEq | ⟨n, hn, hEq⟩
    · exact hv
    · cases hEq
    · exact absurd hEq.symm (upperHex_plain n hn).2.2.1
  · intro h
    exact mem_flatMap.mpr ⟨91, h, by decide⟩

theorem unescape_zone (t : Bytes) : unescape .zone (37 :: 50 :: 53 :: t) = (unescape .zone t).map (37 :: ·) := by
  rw [unescape_percent]
  rfl

/-- The zone, if the text has one, is of ASCII bytes and escapes no bracket. -/
def ZonePlain (text : Bytes) : Prop :=
  ∀ front zone, cutZone text = some (front, zone) →
    (∀ b ∈ zone, b < 128) ∧ ¬ [37, 53, 66] <:+: zone ∧ ¬ [37, 53, 98] <:+: zone

/-- A text is portable when no address in it has a zone that could not be read again. -/
def Portable (text : Bytes) : Prop := 91 ∈ text → ZonePlain text

theorem zonePlain_of_none (h : cutZone s = none) : ZonePlain s := by
  intro front zone hCut
  rw [h] at hCut
  cases hCut

theorem zonePlain_of_some {zone : Bytes} (h : cutZone s = some (front, zone)) :
    ZonePlain s ↔ (∀ b ∈ zone, b < 128) ∧ ¬ [37, 53, 66] <:+: zone ∧ ¬ [37, 53, 98] <:+: zone := by
  simp [ZonePlain, h]

theorem zonePlain_skip (hv : 37 ∉ v) : ZonePlain (v ++ t) ↔ ZonePlain t := by
  cases hCut : cutZone t with
  | none => exact iff_of_true (zonePlain_of_none (by rw [cutZone_skip hv, hCut]; rfl)) (zonePlain_of_none hCut)
  | some parts =>
    have hSome : cutZone (v ++ t) = some (v ++ parts.1, parts.2) := by
      rw [cutZone_skip hv, hCut]
      rfl
    rw [zonePlain_of_some hSome, zonePlain_of_some hCut]

/-- What stands after a host is not part of its zone. -/
theorem zonePlain_before {c : UInt8} (hc : c = 93 ∨ c = 63 ∨ c = 35) (hw : ∀ b ∈ w, b < 128 ∧ b ≠ 37) :
    ZonePlain (t ++ c :: w) ↔ ZonePlain t := by
  have hTail : 37 ∉ w := fun hMem => (hw 37 hMem).2 rfl
  have hByte : c < 128 ∧ c ∉ [37, 53, 66] ∧ c ∉ [37, 53, 98] ∧ c ≠ 37 ∧ c ≠ 50 ∧ c ≠ 53 := by
    rcases hc with rfl | rfl | rfl <;> decide
  cases hCut : cutZone t with
  | none => exact iff_of_true (zonePlain_of_none (cutZone_eq_none hCut hTail hByte.2.2.2)) (zonePlain_of_none hCut)
  | some parts =>
    obtain ⟨front, zone⟩ := parts
    have hInfix (x : UInt8) (hx : c ∉ [37, 53, x]) : [37, 53, x] <:+: zone ++ c :: w ↔ [37, 53, x] <:+: zone := by
      rw [Words.infix_append_cons hx, or_iff_left (Words.not_infix_of_mem mem_cons_self hTail)]
    have hLow : (∀ b ∈ zone ++ c :: w, b < 128) ↔ ∀ b ∈ zone, b < 128 := by
      rw [forall_mem_append, forall_mem_cons]
      exact and_iff_left ⟨hByte.1, fun b hb => (hw b hb).1⟩
    rw [zonePlain_of_some ((cutZone_eq_some hCut).2.2 _), zonePlain_of_some hCut, hInfix 66 hByte.2.1,
      hInfix 98 hByte.2.2.1, hLow]

theorem parseHostname_escape {name : Bytes} (h : parseHostname hostname = some name) (hRaw : 91 ∉ hostname) :
    (parseHostname (escape .host name) = some found ∧ 91 ∉ name) ↔ found = name ∧ ZonePlain hostname := by
  unfold parseHostname at h
  cases hCut : cutZone hostname with
  | none =>
    rw [hCut] at h
    have hWrites := writes_of_unescape h
    have hNone := cutZone_escape (hWrites.percent hCut) []
    rw [append_nil] at hNone
    simp only [parseHostname, hNone, cutZone, map_none, hWrites.host,
      hWrites.bracket hRaw, zonePlain_of_none hCut]
    simp [eq_comm]
  | some parts =>
    obtain ⟨address, zone⟩ := parts
    rw [hCut] at h
    obtain ⟨rfl, hFirst, _⟩ := cutZone_eq_some hCut
    obtain ⟨a, hAddress, h⟩ := bind_eq_some_iff.mp h
    obtain ⟨_, hRest, h⟩ := bind_eq_some_iff.mp h
    cases h
    rw [unescape_zone] at hRest
    obtain ⟨z, hZone, rfl⟩ := map_eq_some_iff.mp hRest
    have hWrites := writes_of_unescape hAddress
    have hWritesZone := writes_of_unescape hZone
    have hRawZone : 91 ∉ zone := fun hMem => hRaw (by simp [hMem])
    have hA : 91 ∉ a := hWrites.bracket fun hMem => hRaw (by simp [hMem])
    have hText : escape .host (a ++ 37 :: z) = escape .host a ++ 37 :: 50 :: 53 :: escape .host z := by
      rw [escape_append, escape_cons]
      rfl
    have hParse : parseHostname (escape .host (a ++ 37 :: z)) = some found ↔
        found = a ++ 37 :: z ∧ ∀ b ∈ z, b < 128 := by
      rw [parseHostname, hText, cutZone_escape (hWrites.percent hFirst)]
      simp only [cutZone, map_some, Prod.map_apply, append_nil, id_eq, hWrites.host, unescape_zone]
      rw [hWritesZone.zone]
      split_ifs with hLow
      · rw [and_iff_left hLow]
        simp [eq_comm]
      · simp [hLow]
    rw [hParse, ← zone_high hWritesZone, zonePlain_of_some hCut]
    simp only [mem_append, mem_cons, hA, false_or, zone_bracket hWritesZone hRawZone, not_or, and_assoc]
    simp

theorem parseHost_bracket (hPort : 93 ∉ port) :
    parseHost (91 :: (hostname ++ 93 :: port)) = some host ↔
    91 ∉ hostname ++ 93 :: port ∧ validOptionalPort port = true ∧
      ∃ name, parseHostname hostname = some name ∧ isLiteral name = true ∧ host = 91 :: (name ++ 93 :: port) := by
  rw [parseHost, cutLast_append hPort]
  split_ifs with hRaw
  · exact iff_of_false (by simp) fun h => h.1 hRaw
  · simp only [hRaw, bind_eq_bind, bind_eq_some_iff, guard_eq_some',
      Option.pure_def, Option.some_inj,
      @eq_comm _ host, not_false_eq_true, true_and]
    simp

theorem parseHost_name (h : 91 ∉ s) :
    parseHost s = some host ↔ validOptionalPort (s.dropWhile (· ≠ 58)) = true ∧ unescape .host s = some host := by
  rw [parseHost]
  · simp [h, bind_eq_some_iff, guard_eq_some']
  · rintro t rfl
    exact h mem_cons_self

theorem dropWhile_escapeByte (hb : b ≠ 58) (t : Bytes) :
    (escapeByte .host b ++ t).dropWhile (· ≠ 58) = t.dropWhile (· ≠ 58) := by
  exact dropWhile_append_of_pos (all_eq_true.mp ((written_byte b).2.2 hb))

theorem Writes.eq_of_digits (h : Writes .host t v) (hDigits : t.all digit = true) : v = t := by
  induction h with
  | nil => rfl
  | escaped => exact absurd (all_eq_true.mp hDigits 37 mem_cons_self) (by decide)
  | plain hPercent hAllowed later ih => rw [ih (all_cons.symm.trans hDigits |> Bool.and_eq_true_iff.mp).2]

/-- A host is written with the port that it was read with. -/
theorem Writes.same_port (h : Writes .host t v) (hPort : validOptionalPort (t.dropWhile (· ≠ 58)) = true) :
    (escape .host v).dropWhile (· ≠ 58) = t.dropWhile (· ≠ 58) := by
  induction h with
  | nil => rfl
  | @escaped high low m n t v hHigh hLow hAllowed later ih =>
    have hValue : UInt8.ofNat (m * 16 + n) ≠ 58 := by
      intro hEq
      rw [hEq] at hAllowed
      cases hAllowed
    have hSkip : (37 :: high :: low :: t).dropWhile (· ≠ 58) = t.dropWhile (· ≠ 58) := by
      rw [dropWhile_cons_of_pos (by decide), dropWhile_cons_of_pos (by simp [(unhex_plain high m hHigh).2.1]),
        dropWhile_cons_of_pos (by simp [(unhex_plain low n hLow).2.1])]
    rw [hSkip] at hPort ⊢
    rw [escape_cons, dropWhile_escapeByte hValue, ih hPort]
  | @plain b t v hPercent hAllowed later ih =>
    by_cases hb : b = 58
    · subst hb
      have hDigits : t.all digit = true := by simpa [validOptionalPort] using hPort
      rw [later.eq_of_digits hDigits, escape_port (by simpa [validOptionalPort] using hDigits)]
    · rw [dropWhile_cons_of_pos (by simpa using hb)] at hPort ⊢
      rw [escape_cons, dropWhile_escapeByte hb, ih hPort]

/-- A host that was read is read again from what is written for it, if its text is portable. -/
theorem parseHost_escape (h : parseHost s = some host) :
    parseHost (escape .host host) = some found ↔ found = host ∧ Portable s := by
  by_cases hBracket : 91 ∈ s
  · obtain ⟨s, rfl⟩ : ∃ t, s = 91 :: t := by
      unfold parseHost at h
      split at h
      · exact ⟨_, rfl⟩
      · rw [if_pos hBracket] at h
        cases h
    cases hCut : cutLast 93 s with
    | none =>
      rw [parseHost, hCut] at h
      split_ifs at h
      cases h
    | some parts =>
      obtain ⟨hostname, port⟩ := parts
      obtain ⟨rfl, hPort⟩ := cutLast_eq_some.mp hCut
      obtain ⟨hRaw, hValid, name, hName, hLiteral, rfl⟩ := (parseHost_bracket hPort).mp h
      have hText : escape .host (91 :: (name ++ 93 :: port)) = 91 :: (escape .host name ++ 93 :: port) := by
        rw [escape_cons, escape_append, escape_cons, escape_port hValid]
        rfl
      have hPlain (b : UInt8) (hb : b ∈ port) := port_plain b (mem_port hValid hb)
      have hClosed : 91 ∉ port := fun hMem => (hPlain 91 hMem).2.2.1 rfl
      have hPortable : Portable (91 :: (hostname ++ 93 :: port)) ↔ ZonePlain hostname := by
        rw [← zonePlain_before (Or.inl rfl) fun b hb =>
          ⟨(hPlain b hb).2.2.2, (hPlain b hb).2.1⟩, ← zonePlain_skip (v := [91]) (by decide)]
        exact ⟨fun h => h mem_cons_self, fun h _ => h⟩
      have hRawName : 91 ∉ hostname := fun hMem => hRaw (mem_append_left _ hMem)
      rw [hPortable, hText, parseHost_bracket hPort]
      constructor
      · rintro ⟨hRead, -, found, hFound, -, rfl⟩
        obtain ⟨rfl, hZone⟩ := (parseHostname_escape hName hRawName).mp
          ⟨hFound, fun hMem => hRead (mem_append_left _ (bracket_escape.mpr hMem))⟩
        exact ⟨rfl, hZone⟩
      · rintro ⟨rfl, hZone⟩
        obtain ⟨hFound, hMem⟩ := (parseHostname_escape hName hRawName).mpr ⟨rfl, hZone⟩
        exact ⟨by simp [bracket_escape, hMem, hClosed], hValid, name, hFound, hLiteral, rfl⟩
  · obtain ⟨hValid, hRead⟩ := (parseHost_name hBracket).mp h
    have hWrites := writes_of_unescape hRead
    have hWritten : 91 ∉ escape .host host := fun hMem => hWrites.bracket hBracket (bracket_escape.mp hMem)
    rw [parseHost_name hWritten, hWrites.same_port hValid, hWrites.host, and_iff_right hValid, some_inj, eq_comm]
    exact (and_iff_left fun hMem => absurd hMem hBracket).symm

end Hosts

section Texts

variable {s scheme authority path rest : Bytes} {u v : URL}
variable {c : UInt8}
variable {b : UInt8}

theorem cut_of_notMem (h : b ∉ s) : cut b s = (s, []) := by
  have hAll : ∀ x ∈ s, decide (x ≠ b) = true := fun x hx => decide_eq_true fun hEq => h (hEq ▸ hx)
  rw [cut, takeWhile_eq_self_iff.mpr hAll, dropWhile_eq_nil_iff.mpr hAll]
  rfl

theorem splitQuery_append (h : 63 ∉ rest) (force : Bool) :
    splitQuery (rest ++ if force then [63] else []) = (rest, [], force) := by
  cases force with
  | true =>
    rw [if_pos rfl, splitQuery, if_pos ⟨by simp, by simp [count_eq_zero.mpr h]⟩, dropLast_concat]
  | false =>
    have hLast : rest.getLast? ≠ some 63 := fun hEq => h (mem_of_mem_getLast? hEq)
    rw [if_neg (by simp), append_nil, splitQuery, if_neg fun hBoth => hLast hBoth.1, cut_of_notMem h]

/-- A scheme as a URL has it: one that needs no change to be read. -/
def properScheme (scheme : Bytes) : Bool := scheme.head?.any letter && scheme.all fun c => schemeByte c && lower c == c

theorem mem_properScheme (h : properScheme scheme = true) (hc : c ∈ scheme) : schemeByte c = true ∧ lower c = c := by
  have hBoth := all_eq_true.mp (Bool.and_eq_true_iff.mp h).2 c hc
  simpa using hBoth

theorem getScheme_append (h : properScheme scheme = true) (rest : Bytes) :
    getScheme (scheme ++ 58 :: rest) = some (scheme, rest) := by
  have hAll : ∀ c ∈ scheme, schemeByte c = true := fun c hc => (mem_properScheme h hc).1
  have hTake : (scheme ++ 58 :: rest).takeWhile schemeByte = scheme := by
    rw [takeWhile_append_of_pos hAll, takeWhile_cons_of_neg (by decide), append_nil]
  have hDrop : (scheme ++ 58 :: rest).dropWhile schemeByte = 58 :: rest := by
    rw [dropWhile_append_of_pos hAll, dropWhile_cons_of_neg (by decide)]
  rw [getScheme, hTake, hDrop]
  cases scheme with
  | nil => cases h
  | cons b scheme => exact if_pos (Bool.and_eq_true_iff.mp h).1

theorem unescape_plain {mode : Mode} (h : ∀ b ∈ s, forbids mode b = false) (hPercent : 37 ∉ s) :
    unescape mode s = some s := by
  induction s with
  | nil => rfl
  | cons b s ih =>
    obtain ⟨hb, hTail⟩ := not_or.mp (mt mem_cons.mpr hPercent)
    obtain ⟨hAllowed, hRest⟩ := forall_mem_cons.mp h
    rw [unescape_cons (Ne.symm hb), hAllowed, ih hRest hTail]
    rfl

theorem unescape_path (h : 37 ∉ path) : unescape .path path = some path := unescape_plain (fun _ _ => rfl) h

theorem setPath_plain (h : ∀ b ∈ path, shouldEscape .path b = false) (u : URL) :
    setPath u path = some { u with path, rawPath := [] } := by
  have hPercent : 37 ∉ path := fun hMem => absurd (h 37 hMem) (by decide)
  rw [setPath, unescape_path hPercent]
  simp [escape_eq_self h]

theorem parseHierarchy_plain (hAuthority : ∀ c ∈ authority, c ≠ 47 ∧ c ≠ 64) (hPath : path.head?.all (· = 47) = true)
    (hPlain : ∀ c ∈ path, shouldEscape .path c = false) (hu : u.scheme ≠ []) :
    parseHierarchy u (47 :: 47 :: (authority ++ path)) =
      (parseHost authority).map fun host => { u with user := none, host, path, rawPath := [] } := by
  have hSlash : ∀ c ∈ authority, decide (c ≠ 47) = true := fun c hc => decide_eq_true (hAuthority c hc).1
  have hTake : path.takeWhile (· ≠ 47) = [] ∧ path.dropWhile (· ≠ 47) = path := by
    cases path with
    | nil => exact ⟨rfl, rfl⟩
    | cons c path =>
      obtain rfl : c = 47 := by simpa using hPath
      exact ⟨rfl, rfl⟩
  have hUser : cutLast 64 authority = none := if_neg fun hMem => (hAuthority 64 hMem).2 rfl
  rw [parseHierarchy, if_pos ⟨Or.inl hu, rfl⟩, drop_succ_cons, drop_succ_cons, drop_zero,
    takeWhile_append_of_pos hSlash, dropWhile_append_of_pos hSlash, hTake.1, hTake.2, append_nil,
    parseAuthority, hUser]
  simp only [setPath_plain hPlain]
  cases parseHost authority <;> rfl

theorem parse_hierarchical (hScheme : properScheme scheme = true)
    (hSlash : rest.head? = some 47) (hRest : ∀ c ∈ rest, c ≠ 63 ∧ c ≠ 35 ∧ control c = false) (force : Bool) :
    parse (scheme ++ 58 :: (rest ++ if force then [63] else [])) =
      parseHierarchy { URL.empty with scheme, forceQuery := force } rest := by
  have hText : ∀ c ∈ scheme ++ 58 :: (rest ++ if force then [63] else []), c ≠ 35 ∧ control c = false := by
    intro c hc
    rcases List.mem_append.mp hc with hc | hc
    · obtain ⟨hHash, -, -, hControl⟩ := (written_byte c).1 (Or.inl (mem_properScheme hScheme hc).1)
      exact ⟨hHash, hControl⟩
    rcases List.mem_cons.mp hc with rfl | hc
    · decide
    rcases List.mem_append.mp hc with hc | hc
    · exact (hRest c hc).2
    · obtain rfl : c = 63 := by
        cases force <;> simp_all
      decide
  have hLower : scheme.map lower = scheme :=
    (List.map_congr_left fun c hc => (mem_properScheme hScheme hc).2).trans (List.map_id _)
  have hControl : (!(scheme ++ 58 :: (rest ++ if force then [63] else [])).any control) = true := by
    rw [Bool.not_eq_true', List.any_eq_false]
    exact fun c hc => by simp [(hText c hc).2]
  have hStar : scheme ++ 58 :: (rest ++ if force then [63] else []) ≠ [42] := by
    intro hEq
    have hMem : 58 ∈ scheme ++ 58 :: (rest ++ if force then [63] else []) := by simp
    rw [hEq] at hMem
    exact absurd hMem (by decide)
  rw [parse, cut_of_notMem fun hMem => (hText 35 hMem).1 rfl, parseBody, hControl, if_neg hStar,
    getScheme_append hScheme]
  simp only [Option.pure_def, Option.bind_eq_bind, Option.bind_some, parseRest,
    splitQuery_append fun hMem => (hRest 63 hMem).1 rfl, hLower, hSlash, if_true, Option.bind_fun_some]
  rfl

/-- The text of a plain path and a plain authority is read as it was written. -/
theorem parse_text (scheme authority path : Bytes) (hScheme : properScheme scheme = true)
    (hAuthority : ∀ c ∈ authority, c ∉ [47, 63, 35, 64] ∧ control c = false) (hPath : path.head?.all (· = 47) = true)
    (hPlain : ∀ c ∈ path, shouldEscape .path c = false) (force : Bool) :
    parse (scheme ++ 58 :: 47 :: 47 :: (authority ++ path ++ if force then [63] else [])) =
      (parseHost authority).map fun host => { URL.empty with scheme, host, path, forceQuery := force } := by
  have hByte (c : UInt8) (hc : c ∈ path) : c ≠ 63 ∧ c ≠ 35 ∧ control c = false := by
    obtain ⟨hQuery, hHash, -, hControl, -⟩ := (shown_byte c).2 (hPlain c hc)
    exact ⟨hQuery, hHash, hControl⟩
  have hRest : ∀ c ∈ 47 :: 47 :: (authority ++ path), c ≠ 63 ∧ c ≠ 35 ∧ control c = false := by
    simp only [forall_mem_cons, forall_mem_append]
    refine ⟨by decide, by decide, fun c hc => ?_, hByte⟩
    obtain ⟨hMarks, hControl⟩ := hAuthority c hc
    exact ⟨by grind, by grind, hControl⟩
  have hSome : scheme ≠ [] := by
    rintro rfl
    cases hScheme
  refine (parse_hierarchical hScheme rfl hRest force).trans ?_
  exact parseHierarchy_plain (fun c hc => ⟨by grind, by grind⟩) hPath hPlain hSome

theorem exists_of_cut (h : (cut b s).2 = []) : ∃ tail, s = (cut b s).1 ++ tail ∧ ∀ c ∈ tail, c = b := by
  refine ⟨s.dropWhile (· ≠ b), takeWhile_append_dropWhile.symm, fun c hc => ?_⟩
  have hTail : (s.dropWhile (· ≠ b)).tail = [] := h
  have hHead := List.head?_dropWhile_not (fun x => decide (x ≠ b)) s
  rcases hDrop : s.dropWhile (· ≠ b) with _ | ⟨x, rest⟩
  · rw [hDrop] at hc
    cases hc
  · rw [hDrop] at hc hTail hHead
    obtain rfl : rest = [] := hTail
    have hx : x = b := by simpa using hHead
    exact (mem_singleton.mp hc).trans hx

theorem exists_of_splitQuery (h : (splitQuery s).2.1 = []) :
    ∃ tail, s = (splitQuery s).1 ++ tail ∧ ∀ c ∈ tail, c = 63 := by
  unfold splitQuery at h ⊢
  split_ifs at h ⊢ with hLast
  · exact ⟨[63], (dropLast_append_getLast? 63 hLast.1).symm, fun c hc => mem_singleton.mp hc⟩
  · exact exists_of_cut h

theorem exists_of_getScheme (h : getScheme s = some (scheme, rest)) (hScheme : scheme ≠ []) :
    s = scheme ++ 58 :: rest ∧ ∀ b ∈ scheme, schemeByte b = true := by
  have hSplit : s.takeWhile schemeByte ++ s.dropWhile schemeByte = s := takeWhile_append_dropWhile
  have hAll : ∀ b ∈ s.takeWhile schemeByte, schemeByte b = true := fun b hb => mem_takeWhile_imp hb
  unfold getScheme at h
  split at h
  · cases h
  · rename_i b name after hTake hDrop
    split_ifs at h <;> cases h
    · rw [hTake, hDrop] at hSplit
      exact ⟨hSplit.symm, hTake ▸ hAll⟩
    · exact absurd rfl hScheme
  · cases h
    exact absurd rfl hScheme

/-- What a hierarchy is read as: its path is the end of the text, and what is before it the authority. -/
theorem exists_of_parseHierarchy (h : parseHierarchy v rest = some u) : ∃ user host text,
    u = { v with user, host, path := u.path, rawPath := if escape .path u.path = text then [] else text } ∧
      unescape .path text = some u.path ∧ ((host = v.host ∧ text = rest) ∨
        ∃ authority, rest = 47 :: 47 :: (authority ++ text) ∧ parseAuthority authority = some (user, host)) := by
  unfold parseHierarchy at h
  split_ifs at h with hSlashes
  · obtain ⟨⟨user, host⟩, hAuthority, h⟩ := bind_eq_some_iff.mp h
    obtain ⟨path, hPath, h⟩ := bind_eq_some_iff.mp h
    cases h
    refine ⟨user, host, _, rfl, hPath, Or.inr ⟨_, ?_, hAuthority⟩⟩
    rw [takeWhile_append_dropWhile]
    exact (take_append_drop 2 rest).symm.trans (congrArg (· ++ rest.drop 2) hSlashes.2)
  · obtain ⟨path, hPath, h⟩ := bind_eq_some_iff.mp h
    cases h
    exact ⟨v.user, v.host, rest, rfl, hPath, Or.inl ⟨rfl, rfl⟩⟩

/-- The texts that a URL with a scheme and without a query or a fragment is read from. -/
theorem exists_of_parse (h : parse s = some u) (hScheme : u.scheme ≠ []) (hQuery : u.rawQuery = [])
    (hFragment : u.fragment = []) :
    ∃ scheme rest tail, s = scheme ++ 58 :: (rest ++ tail) ∧ (∀ b ∈ scheme, schemeByte b = true) ∧
    (∀ b ∈ tail, b = 63 ∨ b = 35) ∧
      (u.host = [] ∧ u.path = [] ∨
        parseHierarchy { URL.empty with scheme := u.scheme, forceQuery := u.forceQuery } rest = some u) := by
  obtain ⟨body, hBody, h⟩ := bind_eq_some_iff.mp h
  have hHash : (cut 35 s).2 = [] ∧ u = body := by
    split_ifs at h with hEmpty
    · exact ⟨hEmpty, (Option.some.inj h).symm⟩
    · obtain ⟨fragment, hRead, h⟩ := bind_eq_some_iff.mp h
      cases h
      obtain rfl : fragment = [] := hFragment
      exact absurd (writes_of_unescape hRead).eq_nil hEmpty
  obtain ⟨hNone, rfl⟩ := hHash
  obtain ⟨hash, hText, hHash⟩ := exists_of_cut hNone
  obtain ⟨-, -, hBody⟩ := bind_eq_some_iff.mp hBody
  split_ifs at hBody
  · cases hBody
    exact absurd rfl hScheme
  · obtain ⟨⟨scheme, rest⟩, hGet, hBody⟩ := bind_eq_some_iff.mp hBody
    have hShape (hs : scheme ≠ []) (hq : (splitQuery rest).2.1 = []) : ∃ tail,
        s = scheme ++ 58 :: ((splitQuery rest).1 ++ tail) ∧
        (∀ b ∈ scheme, schemeByte b = true) ∧ ∀ b ∈ tail, b = 63 ∨ b = 35 := by
      obtain ⟨query, hRest, hQuery⟩ := exists_of_splitQuery hq
      obtain ⟨hFront, hAll⟩ := exists_of_getScheme hGet hs
      refine ⟨query ++ hash, ?_, hAll, fun b hb => (mem_append.mp hb).imp (hQuery b) (hHash b)⟩
      rw [hText, hFront, append_assoc, cons_append, ← append_assoc (splitQuery rest).1, ← hRest]
    simp only [parseRest] at hBody
    split_ifs at hBody with hSlash hs hColon
    · obtain ⟨user, host, text, hu, -⟩ := exists_of_parseHierarchy hBody
      have hSame : u.scheme = scheme.map lower ∧ u.rawQuery = (splitQuery rest).2.1 ∧
          u.forceQuery = (splitQuery rest).2.2 := by
        rw [hu]
        exact ⟨rfl, rfl, rfl⟩
      rw [hSame.1] at hScheme
      rw [hSame.2.1] at hQuery
      rw [hQuery] at hBody
      obtain ⟨tail, hs, hAll, hTail⟩ := hShape (fun hNil => hScheme (by rw [hNil]; rfl)) hQuery
      refine ⟨scheme, _, tail, hs, hAll, hTail, Or.inr ?_⟩
      rw [hSame.1, hSame.2.2]
      exact hBody
    · cases hBody
      obtain ⟨tail, hs, hAll, hTail⟩ := hShape hs hQuery
      exact ⟨scheme, _, tail, hs, hAll, hTail, Or.inl ⟨rfl, rfl⟩⟩
    · obtain ⟨user, host, text, hu, -⟩ := exists_of_parseHierarchy hBody
      rw [hu, not_not.mp hs] at hScheme
      exact absurd rfl hScheme

theorem path_of_hierarchy (h : parseHierarchy v rest = some u) (hRaw : u.rawPath = []) (hPercent : 37 ∉ rest) :
    ∀ b ∈ u.path, shouldEscape .path b = false := by
  obtain ⟨user, host, text, hu, hPath, hRest⟩ := exists_of_parseHierarchy h
  have hText : 37 ∉ text := by
    rcases hRest with ⟨-, rfl⟩ | ⟨authority, rfl, -⟩
    · exact hPercent
    · exact fun hMem => hPercent (by simp [hMem])
  rw [unescape_path hText, some_inj] at hPath
  subst hPath
  rw [hu] at hRaw
  have hSame : escape .path u.path = u.path := by
    by_contra hNe
    have hNil : u.path = [] := (if_neg hNe).symm.trans hRaw
    exact hNe (by rw [hNil]; rfl)
  intro b hb
  by_contra hEscape
  refine hText (hSame ▸ mem_flatMap.mpr ⟨b, hb, ?_⟩)
  rw [escapeByte, if_pos (Bool.not_eq_false _ ▸ hEscape)]
  exact mem_cons_self

theorem host_of_hierarchy (h : parseHierarchy v rest = some u) (hv : v.host = [])
    (hHost : u.host ≠ []) (hUser : u.user = none)
    (hPath : u.path = []) : ∃ authority, rest = 47 :: 47 :: authority ∧ parseHost authority = some u.host ∧
      u = { v with user := none, host := u.host, path := [], rawPath := [] } := by
  obtain ⟨user, host, text, hu, hRead, hRest⟩ := exists_of_parseHierarchy h
  rw [hPath] at hRead hu
  obtain rfl := (writes_of_unescape hRead).eq_nil
  rw [hu] at hHost hUser
  obtain rfl : user = none := hUser
  rcases hRest with ⟨hSame, -⟩ | ⟨authority, hRest, hAuthority⟩
  · exact absurd (hSame.trans hv) hHost
  · refine ⟨authority, by rw [hRest, append_nil], ?_, by rw [hu]; simp⟩
    rw [hu]
    unfold parseAuthority at hAuthority
    cases hCut : cutLast 64 authority with
    | none =>
      rw [hCut] at hAuthority
      obtain ⟨found, hFound, hEq⟩ := map_eq_some_iff.mp hAuthority
      cases hEq
      exact hFound
    | some parts =>
      rw [hCut] at hAuthority
      obtain ⟨found, -, hAuthority⟩ := bind_eq_some_iff.mp hAuthority
      obtain ⟨-, -, hAuthority⟩ := bind_eq_some_iff.mp hAuthority
      obtain ⟨-, -, hAuthority⟩ := bind_eq_some_iff.mp hAuthority
      cases hAuthority

theorem clear_of_mem_escape {host : Bytes} (h : c ∈ escape .host host) : c ∉ [47, 63, 35, 64] ∧ control c = false := by
  exact (shown_byte c).1 ((mem_escape h).imp_left And.right)

theorem control_of_mem_originText (hScheme : properScheme u.scheme = true) (h : c ∈ u.originText) :
    control c = false := by
  have hByte (h : schemeByte c = true ∨ c ∈ [58, 47, 63]) : control c = false := ((written_byte c).1 h).2.2.2
  simp only [URL.originText, mem_append, mem_cons] at h
  rcases h with h | h | h | h | h | h
  · exact hByte (Or.inl (mem_properScheme hScheme h).1)
  · exact hByte (Or.inr (by simp [h]))
  · exact hByte (Or.inr (by simp [h]))
  · exact hByte (Or.inr (by simp [h]))
  · exact (clear_of_mem_escape h).2
  · exact hByte (Or.inr (by grind))

theorem portable_origin {tail : Bytes} (hScheme : ∀ b ∈ scheme, schemeByte b = true)
    (hTail : ∀ b ∈ tail, b = 63 ∨ b = 35) :
    Portable (scheme ++ 58 :: (47 :: 47 :: authority ++ tail)) ↔ Portable authority := by
  have hFront (b : UInt8) (hb : b ∈ scheme ++ [58, 47, 47]) : b ≠ 37 ∧ b ≠ 91 := by
    obtain ⟨-, hPercent, hBracket, -⟩ := (written_byte b).1 ((mem_append.mp hb).imp (hScheme b) (by grind))
    exact ⟨hPercent, hBracket⟩
  have hText : scheme ++ 58 :: (47 :: 47 :: authority ++ tail) = scheme ++ [58, 47, 47] ++
      (authority ++ tail) := by simp
  have hZone : ZonePlain (authority ++ tail) ↔ ZonePlain authority := by
    cases tail with
    | nil => rw [append_nil]
    | cons c tail =>
      refine zonePlain_before (Or.inr (hTail c mem_cons_self)) fun b hb => ?_
      rcases hTail b (mem_cons_of_mem _ hb) with rfl | rfl <;> decide
  have hBracket : 91 ∈ scheme ++ [58, 47, 47] ++ (authority ++ tail) ↔ 91 ∈ authority := by
    have hNot : 91 ∉ tail := fun hMem => absurd (hTail 91 hMem) (by decide)
    rw [mem_append, mem_append (s := authority), or_iff_right fun hMem =>
      (hFront 91 hMem).2 rfl, or_iff_left hNot]
  rw [hText, Portable, Portable, hBracket, zonePlain_skip fun hMem => (hFront 37 hMem).1 rfl, hZone]

/-- What is written for an origin that was read is read as that origin again, if its text is portable. -/
theorem parse_originText {found : URL} (h : parse s = some u) (hProper : properScheme u.scheme = true)
    (hHost : u.host ≠ []) (hUser : u.user = none) (hPath : u.path = []) (hQuery : u.rawQuery = [])
    (hFragment : u.fragment = []) :
    parse u.originText = some found ↔ found = u ∧ Portable s := by
  have hSome : u.scheme ≠ [] := by
    intro hNil
    rw [hNil] at hProper
    cases hProper
  obtain ⟨scheme, rest, tail, rfl, hAll, hTail, hRest⟩ := exists_of_parse h hSome hQuery hFragment
  rcases hRest with ⟨hNone, -⟩ | hRest
  · exact absurd hNone hHost
  obtain ⟨authority, rfl, hAuthority, hu⟩ := host_of_hierarchy hRest rfl hHost hUser hPath
  have hParse : parse u.originText = (parseHost (escape .host u.host)).map fun host =>
      { URL.empty with scheme := u.scheme, host, forceQuery := u.forceQuery } := by
    have hText := parse_text u.scheme (escape .host u.host) [] hProper (fun _ => clear_of_mem_escape)
        rfl (by simp) u.forceQuery
    rw [append_nil] at hText
    exact hText
  rw [hParse, portable_origin hAll hTail, map_eq_some_iff]
  simp only [parseHost_escape hAuthority]
  constructor
  · rintro ⟨host, ⟨rfl, hPortable⟩, rfl⟩
    exact ⟨hu.symm, hPortable⟩
  · rintro ⟨rfl, hPortable⟩
    exact ⟨_, ⟨rfl, hPortable⟩, hu.symm⟩

end Texts

end Wire.Url
