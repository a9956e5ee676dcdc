import Camp.HaulKit.Manifest

/-!
# Extracting a ready archive

The entries of a ready archive are made below a directory, one after the other, and counted
against limits before anything is made. The counters are signed words. Only files and
directories are made, under names that are not in use.
-/

namespace Camp.HaulKit.Extraction

open Wire Wire.Utf8 Program Program.Checks List Program.Paths

section Model

inductive Node where
  | directory
  | file (body : Bytes)
  | link
  deriving DecidableEq

abbrev Key := List Bytes

/-- What is below the destination, and whether a link was followed from there. -/
structure World where
  nodes : List (Key × Node)
  followed : Bool
  deriving DecidableEq

inductive Error where
  | unsafeKit (reason : String)
  | archiveLimit
  | notExist
  | notDirectory
  | exist
  | link
  | archive
  | short
  deriving DecidableEq

inductive TypeFlag where
  | regular
  | directory
  | link
  | special
  deriving DecidableEq

inductive Format where
  | ustar
  | pax
  | gnu
  | unknown
  deriving DecidableEq

/-- A time is given from the epoch; none is the zero time. The length of a string is a signed word. -/
structure Header where
  name : Bytes
  typeflag : TypeFlag
  mode : Int64
  size : Int64
  format : Format
  uid : Int64
  gid : Int64
  uname : Bytes
  gname : Bytes
  linkname : Bytes
  modTime : Option Int
  accessTime : Option Int
  changeTime : Option Int
  paxRecords : List (Bytes × Bytes)
  xattrs : List (Bytes × Bytes)
  short : name.length < 2 ^ 63
  deriving DecidableEq

structure Entry where
  header : Header
  content : Bytes
  deriving DecidableEq

/-- The entries, and whether the archive ends after them as it should. -/
structure Stream where
  entries : List Entry
  ended : Bool
  deriving DecidableEq

structure Limits where
  maxEntries : Int64
  maxInodes : Int64
  maxFileBytes : Int64
  maxExpandedBytes : Int64
  deriving DecidableEq

structure Limits.Positive (limits : Limits) : Prop where
  maxEntries : 0 < limits.maxEntries
  maxInodes : 0 < limits.maxInodes
  maxFileBytes : 0 < limits.maxFileBytes
  maxExpandedBytes : 0 < limits.maxExpandedBytes

def validateReadyHeader (h : Header) : Except Error Unit := do
  refuse (unsafePath h.name || (h.name != lit "bin" && h.name != lit "store" && !(lit "bin/").isPrefixOf h.name &&
    !(lit "store/").isPrefixOf h.name)) (.unsafeKit "unsafe path")
  refuse (h.typeflag != .regular && h.typeflag != .directory) (.unsafeKit "links and special files are prohibited")
  let mode : Int64 := if h.typeflag == .directory || (lit "bin/").isPrefixOf h.name then 0o555 else 0o444
  refuse (h.format != .ustar || h.mode != mode || h.uid != 0 || h.gid != 0 || h.uname != [] ||
    h.gname != [] || h.linkname != [] ||
    h.modTime != some 0 || h.accessTime.isSome || h.changeTime.isSome || !h.paxRecords.isEmpty || !h.xattrs.isEmpty)
    (.unsafeKit "non-deterministic header")

namespace World

def get (w : World) (k : Key) : Option Node := if k = [] then some .directory else w.nodes.lookup k

def put (w : World) (k : Key) (n : Node) : World := { w with nodes := w.nodes ++ [(k, n)] }

/-- Reach a name through the directories before it. A link on the way is followed. -/
def reach (w : World) : List Key → Except Error Unit × World
  | [] => (.ok (), w)
  | k :: rest =>
    match w.get k with
    | some .directory => w.reach rest
    | none => (.error .notExist, w)
    | some (.file _) => (.error .notDirectory, w)
    | some .link => (.error .link, { w with followed := true })

def create (w : World) (k : Key) (n : Node) : Except Error Unit × World :=
  match w.reach k.inits.dropLast with
  | (.error e, w') => (.error e, w')
  | (.ok (), w') => if (w'.get k).isSome then (.error .exist, w') else (.ok (), w'.put k n)

def mkdirAll (w : World) : List Key → Except Error Unit × World
  | [] => (.ok (), w)
  | k :: rest =>
    match w.get k with
    | some .directory => w.mkdirAll rest
    | none => (w.put k .directory).mkdirAll rest
    | some (.file _) => (.error .notDirectory, w)
    | some .link => (.error .link, { w with followed := true })

def missingParentDirectories (w : World) : List Key → Except Error Int64
  | [] => .ok 0
  | k :: rest =>
    match w.get k with
    | none => (w.missingParentDirectories rest).map (· + 1)
    | some .directory => w.missingParentDirectories rest
    | some _ => .error (.unsafeKit "extraction parent is not a directory")

end World

structure State where
  world : World
  seen : List Bytes
  expanded : Int64
  inodes : Int64
  deriving DecidableEq

def account (limits : Limits) (e : Entry) (s : State) : Except Error State := do
  validateReadyHeader e.header
  refuse (limits.maxEntries ≤ Int64.ofNat s.seen.length) .archiveLimit
  refuse (e.header.size < 0 || limits.maxFileBytes < e.header.size ||
    limits.maxExpandedBytes - e.header.size < s.expanded)
    .archiveLimit
  refuse (s.seen.contains e.header.name) (.unsafeKit "duplicate entry")
  pure { s with seen := s.seen ++ [e.header.name], expanded := s.expanded + e.header.size }

def locate (destination : Path) (name : Bytes) : Except Error Key := do
  let target := join [destination, name]
  refuse (!(destination ++ [slash]).isPrefixOf target) (.unsafeKit "path escapes destination")
  pure (parts (target.drop (destination.length + 1)))

def makeDirectory (limits : Limits) (k : Key) (s : State) : Except Error Unit × State :=
  if limits.maxInodes ≤ s.inodes then (.error .archiveLimit, s)
  else
    match s.world.create k .directory with
    | (.error e, w) => (.error e, { s with world := w })
    | (.ok (), w) => (.ok (), { s with world := w, inodes := s.inodes + 1 })

def makeFile (limits : Limits) (k : Key) (e : Entry) (s : State) : Except Error Unit × State :=
  match s.world.missingParentDirectories k.inits.dropLast.tail with
  | .error err => (.error err, s)
  | .ok created =>
    if limits.maxInodes - created - 1 < s.inodes then (.error .archiveLimit, s)
    else
      match s.world.mkdirAll k.inits.dropLast.tail with
      | (.error err, w) => (.error err, { s with world := w })
      | (.ok (), w) =>
        let s := { s with world := w, inodes := s.inodes + (created + 1) }
        let written := e.content.take e.header.size.toInt.toNat
        match w.create k (.file written) with
        | (.error err, w) => (.error err, { s with world := w })
        | (.ok (), w) =>
          if written.length ≠ e.header.size.toInt.toNat then (.error .short, { s with world := w }) else
            (.ok (), { s with world := w })

def extractEntry (limits : Limits) (destination : Path) (e : Entry) (s : State) : Except Error Unit × State :=
  match account limits e s with
  | .error err => (.error err, s)
  | .ok s =>
    match locate destination e.header.name with
    | .error err => (.error err, s)
    | .ok k => if e.header.typeflag = .directory then makeDirectory limits k s else makeFile limits k e s

def extractEntries (limits : Limits) (destination : Path) : List Entry → State → Except Error Unit × State
  | [], s => (.ok (), s)
  | e :: rest, s =>
    match extractEntry limits destination e s with
    | (.error err, s) => (.error err, s)
    | (.ok (), s) => extractEntries limits destination rest s

def required : List Bytes := [lit "bin", lit "bin/camp", lit "bin/hauler", lit "bin/pasta", lit "store"]

def extractReadyArchive (limits : Limits) (destination : Path) (stream : Stream) (w : World) :
    Except Error Unit × World :=
  match extractEntries limits destination stream.entries ⟨w, [], 0, 0⟩ with
  | (.error err, s) => (.error err, s.world)
  | (.ok (), s) =>
    if !stream.ended then (.error .archive, s.world)
    else (each (fun name => refuse (!s.seen.contains name) (.unsafeKit "missing")) required, s.world)

end Model

open World

section Worlds

variable {w w' : World} {k : Key} {ks : List Key}
variable {n : Node} {new : List (Key × Node)}

def World.LinkFree (w : World) : Prop := ∀ p ∈ w.nodes, p.2 ≠ .link

def World.keys (w : World) : List Key := w.nodes.map (·.1)

theorem get_ne_link (h : w.LinkFree) : w.get k ≠ some .link := by
  unfold World.get
  split_ifs with hNil
  · simp
  · intro hLookup
    obtain ⟨l₁, l₂, hNodes, -⟩ := lookup_eq_some_iff.mp hLookup
    exact h (k, .link) (by rw [hNodes]; simp) rfl

theorem key_of_get_none (h : w.get k = none) : k ≠ [] ∧ k ∉ w.keys := by
  unfold World.get at h
  split_ifs at h with hNil
  refine ⟨hNil, ?_⟩
  intro hMem
  obtain ⟨p, hp, rfl⟩ := mem_map.mp hMem
  simpa using lookup_eq_none_iff.mp h p hp

theorem get_put_of_some {m : Node} {j : Key} (h : w.get k = some m) : (w.put j n).get k = some m := by
  unfold World.get at h ⊢
  split_ifs at h ⊢ with hNil
  · exact h
  · rw [put, List.lookup_append, h]
    rfl

/-- What was added to a world: nodes with new keys of the given ones. -/
structure Adds (w w' : World) (new : List (Key × Node)) : Prop where
  nodes : w'.nodes = w.nodes ++ new
  followed : w'.followed = w.followed
  fresh : w.keys.Nodup → w'.keys.Nodup

theorem Adds.refl (w : World) : Adds w w [] := ⟨(append_nil _).symm, rfl, id⟩

theorem Adds.trans {w'' : World} {more : List (Key × Node)} (h : Adds w w' new) (h' : Adds w' w'' more) :
    Adds w w'' (new ++ more) :=
  ⟨by rw [h'.nodes, h.nodes, append_assoc], h'.followed.trans h.followed, fun hNodup => h'.fresh (h.fresh hNodup)⟩

theorem adds_put (h : w.get k = none) : Adds w (w.put k n) [(k, n)] := by
  refine ⟨rfl, rfl, fun hNodup => ?_⟩
  have hKeys : (w.put k n).keys = w.keys ++ [k] := by simp [World.keys, put]
  rw [hKeys, nodup_append]
  refine ⟨hNodup, nodup_singleton k, ?_⟩
  intro a ha b hb hEq
  rw [mem_singleton.mp hb] at hEq
  exact (key_of_get_none h).2 (hEq ▸ ha)

theorem Adds.linkFree (h : Adds w w' new) (hFree : w.LinkFree) (hNew : ∀ p ∈ new, p.2 ≠ .link) : w'.LinkFree := by
  intro p hp
  rw [h.nodes] at hp
  rcases mem_append.mp hp with hp | hp
  · exact hFree p hp
  · exact hNew p hp

theorem reach_linkFree (h : w.LinkFree) : (w.reach ks).2 = w := by
  induction ks with
  | nil => rfl
  | cons k ks ih =>
    rw [reach]
    cases hGet : w.get k with
    | none => rfl
    | some n =>
      cases n with
      | directory => exact ih
      | file body => rfl
      | link => exact absurd hGet (get_ne_link h)

theorem create_cases {n : Node} (h : w.LinkFree) :
    (∃ e, w.create k n = (.error e, w)) ∨ (w.get k = none ∧ w.create k n = (.ok (), w.put k n)) := by
  have hReach := @reach_linkFree w k.inits.dropLast h
  unfold create
  rcases hResult : w.reach k.inits.dropLast with ⟨_ | _, w'⟩
  all_goals
    rw [hResult] at hReach
    dsimp only at hReach
    subst hReach
  · exact .inl ⟨_, rfl⟩
  · dsimp only
    split_ifs with hSome
    · exact .inl ⟨_, rfl⟩
    · exact .inr ⟨Option.not_isSome_iff_eq_none.mp hSome, rfl⟩

def World.missing (w : World) (ks : List Key) : Nat := ks.countP fun k => (w.get k).isNone

theorem missing_put_le (n : Node) : (w.put k n).missing ks ≤ w.missing ks := by
  refine countP_mono_left fun j _ hNone => ?_
  by_contra hSome
  obtain ⟨m, hm⟩ := Option.ne_none_iff_exists'.mp (by simpa using hSome)
  rw [get_put_of_some hm] at hNone
  cases hNone

/-- There is a directory under each of the names, or nothing. -/
def World.Clear (w : World) (ks : List Key) : Prop := ∀ k ∈ ks, w.get k = none ∨ w.get k = some .directory

theorem World.Clear.put (h : w.Clear ks) : (w.put k .directory).Clear ks := by
  intro j hj
  rcases h j hj with hNone | hSome
  · unfold get at hNone ⊢
    split_ifs at hNone ⊢
    rw [World.put, List.lookup_append, hNone]
    cases hSelf : j == k <;> simp [lookup_cons, hSelf]
  · exact .inr (get_put_of_some hSome)

section Words

variable {a b : Int64}

theorem toInt_add_of_lt (ha : 0 ≤ a.toInt) (hb : 0 ≤ b.toInt) (h : a.toInt + b.toInt < 2 ^ 63) :
    (a + b).toInt = a.toInt + b.toInt := by
  rw [Int64.toInt_add]
  exact Int.bmod_eq_of_le (by omega) (by omega)

theorem toInt_sub_of_le (hb : 0 ≤ b.toInt) (h : -2 ^ 63 ≤ a.toInt - b.toInt) : (a - b).toInt = a.toInt - b.toInt := by
  have hHigh := a.toInt_lt
  rw [Int64.toInt_sub]
  exact Int.bmod_eq_of_le (by omega) (by omega)

/-- No difference wraps, and by the comparison neither does the sum. -/
theorem room_of_limit {limit created inodes : Int64} (hPositive : 0 < limit) (hCreated : 0 ≤ created.toInt)
    (hInodes : 0 ≤ inodes.toInt) (hLimit : ¬ limit - created - 1 < inodes) :
    (created + 1).toInt = created.toInt + 1 ∧ inodes.toInt + created.toInt + 1 ≤ limit.toInt := by
  have hOne : Int64.toInt 1 = 1 := Int64.toInt_one
  have hPos := Int64.lt_iff_toInt_lt.mp hPositive
  have hWord := created.toInt_lt
  have hLast := limit.toInt_lt
  rw [Int64.toInt_zero] at hPos
  have hDifference : (limit - created).toInt = limit.toInt - created.toInt := toInt_sub_of_le (by omega) (by omega)
  have hRoom := Int64.le_iff_toInt_le.mp (Int64.not_lt.mp hLimit)
  rw [toInt_sub_of_le (by omega) (by omega), hDifference] at hRoom
  refine ⟨?_, by omega⟩
  rw [toInt_add_of_lt (by omega) (by omega) (by omega), hOne]

end Words

theorem missingParentDirectories_eq_ok {c : Int64} (hShort : ks.length < 2 ^ 63)
    (h : w.missingParentDirectories ks = .ok c) : w.Clear ks ∧ c.toInt = w.missing ks := by
  induction ks generalizing c with
  | nil =>
    cases h
    exact ⟨fun k hk => absurd hk not_mem_nil, rfl⟩
  | cons k ks ih =>
    rw [length_cons] at hShort
    have hMissing : w.missing ks ≤ ks.length := countP_le_length
    rw [missingParentDirectories] at h
    cases hGet : w.get k with
    | none =>
      rw [hGet] at h
      cases hRest : w.missingParentDirectories ks with
      | error e =>
        rw [hRest] at h
        cases h
      | ok rest =>
        rw [hRest] at h
        cases h
        obtain ⟨hClear, hCount⟩ := ih (by omega) hRest
        have hOne : Int64.toInt 1 = 1 := Int64.toInt_one
        have hSelf : w.missing (k :: ks) = w.missing ks + 1 := by simp [missing, hGet]
        refine ⟨forall_mem_cons.mpr ⟨.inl hGet, hClear⟩, ?_⟩
        rw [toInt_add_of_lt (by omega) (by omega) (by omega), hSelf]
        omega
    | some n =>
      rw [hGet] at h
      cases n with
      | directory =>
        obtain ⟨hClear, hCount⟩ := ih (by omega) h
        refine ⟨forall_mem_cons.mpr ⟨.inr hGet, hClear⟩, ?_⟩
        simp [missing, hGet, hCount]
      | file body => cases h
      | link => cases h

theorem mkdirAll_adds (h : w.Clear ks) :
    ∃ w' new, w.mkdirAll ks = (.ok (), w') ∧ Adds w w' new ∧ (∀ p ∈ new, p.1 ∈ ks ∧ p.2 = .directory) ∧
      new.length ≤ w.missing ks := by
  induction ks generalizing w with
  | nil => exact ⟨w, [], rfl, Adds.refl w, by simp, by simp⟩
  | cons k ks ih =>
    rw [mkdirAll]
    obtain ⟨hHead, hRest⟩ := forall_mem_cons.mp h
    rcases hHead with hGet | hGet
    · obtain ⟨w', new, hOk, hAdds, hNew, hCount⟩ := @ih (w.put k .directory) (Clear.put hRest)
      rw [hGet]
      refine ⟨w', (k, .directory) :: new, hOk, (adds_put hGet).trans hAdds, ?_, ?_⟩
      · rw [forall_mem_cons]
        exact ⟨⟨mem_cons_self, rfl⟩, fun p hp => ⟨mem_cons_of_mem _ (hNew p hp).1, (hNew p hp).2⟩⟩
      · have hLess := @missing_put_le w k ks .directory
        have hSelf : w.missing (k :: ks) = w.missing ks + 1 := by simp [missing, hGet]
        rw [length_cons, hSelf]
        omega
    · obtain ⟨w', new, hOk, hAdds, hNew, hCount⟩ := ih hRest
      rw [hGet]
      refine ⟨w', new, hOk, hAdds, fun p hp => ⟨mem_cons_of_mem _ (hNew p hp).1, (hNew p hp).2⟩, hCount.trans ?_⟩
      simp [missing, hGet]

end Worlds

section Bounds

variable {limits : Limits} {start : World} {s : State} {new : List (Key × Node)} {e : Entry}
variable {spare : Nat}
variable {s' : State}

def bytesOf : Key × Node → Nat
  | (_, .file body) => body.length
  | _ => 0

/-- A node that may be made: it is below the destination, and is no link. -/
def Allowed (limits : Limits) (p : Key × Node) : Prop :=
  p.1 ≠ [] ∧ (∀ part ∈ p.1, Plain part) ∧ p.2 ≠ .link ∧ (bytesOf p : Int) ≤ limits.maxFileBytes.toInt

/-- What was made, and how it was counted; some bytes may be counted that are not written yet. -/
structure Within (limits : Limits) (start : World) (s : State) (spare : Nat) (new : List (Key × Node)) : Prop where
  adds : Adds start s.world new
  allowed : ∀ p ∈ new, Allowed limits p
  count : (new.length : Int) ≤ s.inodes.toInt
  inodes : s.inodes.toInt ≤ limits.maxInodes.toInt
  bytes : (((new.map bytesOf).sum + spare : Nat) : Int) ≤ s.expanded.toInt
  expanded : s.expanded.toInt ≤ limits.maxExpandedBytes.toInt
  seen : s.seen.Nodup

theorem Within.linkFree (h : Within limits start s spare new) (hStart : start.LinkFree) : s.world.LinkFree :=
  h.adds.linkFree hStart fun p hp => (h.allowed p hp).2.2.1

theorem Within.le {spare' : Nat} (h : Within limits start s spare new) (hLe : spare' ≤ spare) :
    Within limits start s spare' new :=
  { h with bytes := by have := h.bytes; omega }

theorem Within.toInt_inodes {inodes : Int64} (h : Within limits start s spare new) (hInodes : 0 ≤ inodes.toInt)
    (hLimit : s.inodes.toInt + inodes.toInt ≤ limits.maxInodes.toInt) :
    (s.inodes + inodes).toInt = s.inodes.toInt + inodes.toInt := by
  have hOld := h.count
  have hWord := limits.maxInodes.toInt_lt
  exact toInt_add_of_lt (by omega) hInodes (by omega)

theorem Within.more (inodes : Int64) (h : Within limits start s spare new) {w : World} {extra : List (Key × Node)}
    (hAdds : Adds s.world w extra) (hAllowed : ∀ p ∈ extra, Allowed limits p)
    (hCount : (extra.length : Int) ≤ inodes.toInt) (hInodes : s.inodes.toInt + inodes.toInt ≤ limits.maxInodes.toInt)
    (hBytes : (extra.map bytesOf).sum ≤ spare) :
    Within limits start { s with world := w, inodes := s.inodes + inodes }
      (spare - (extra.map bytesOf).sum) (new ++ extra) where
  adds := h.adds.trans hAdds
  allowed := by
    intro p hp
    rcases mem_append.mp hp with hp | hp
    · exact h.allowed p hp
    · exact hAllowed p hp
  count := by
    have hOld := h.count
    rw [length_append, h.toInt_inodes (by omega) hInodes]
    omega
  inodes := by rwa [h.toInt_inodes (by omega) hInodes]
  bytes := by
    have hOld := h.bytes
    rw [map_append, sum_append]
    show _ ≤ s.expanded.toInt
    omega
  expanded := h.expanded
  seen := h.seen

theorem account_eq_ok (hPositive : limits.Positive) (h : account limits e s = .ok s') :
    unsafePath e.header.name = false ∧ 0 ≤ e.header.size.toInt ∧ e.header.size.toInt ≤ limits.maxFileBytes.toInt ∧
      s.expanded.toInt + e.header.size.toInt ≤ limits.maxExpandedBytes.toInt ∧ e.header.name ∉ s.seen ∧
      s' = { s with seen := s.seen ++ [e.header.name], expanded := s.expanded + e.header.size } := by
  simp only [account, validateReadyHeader, andThen_eq_ok, refuse_eq_ok, Bool.or_eq_false_iff, contains_eq_mem,
    decide_eq_false_iff_not, Int64.not_lt, Int64.le_iff_toInt_le, Int64.toInt_zero] at h
  obtain ⟨⟨⟨hPath, -⟩, -⟩, -, ⟨⟨hSize, hFile⟩, hTotal⟩, hSeen, hState⟩ := h
  have hExpanded := Int64.lt_iff_toInt_lt.mp hPositive.maxExpandedBytes
  have hWord := e.header.size.toInt_lt
  rw [Int64.toInt_zero] at hExpanded
  rw [toInt_sub_of_le hSize (by omega)] at hTotal
  cases hState
  exact ⟨hPath, hSize, hFile, by omega, hSeen, rfl⟩

theorem Within.account (hPositive : limits.Positive) (h : Within limits start s 0 new)
    (hAccount : account limits e s = .ok s') : Within limits start s' e.header.size.toInt.toNat new := by
  obtain ⟨-, hSize, -, hTotal, hSeen, rfl⟩ := account_eq_ok hPositive hAccount
  have hBytes := h.bytes
  have hWord := limits.maxExpandedBytes.toInt_lt
  have hSum := toInt_add_of_lt (a := s.expanded) (by omega) hSize (by omega)
  refine { h with bytes := ?_, expanded := hSum.trans_le hTotal, seen := ?_ }
  · show _ ≤ (s.expanded + e.header.size).toInt
    omega
  · exact nodup_append.mpr ⟨h.seen, nodup_singleton _, fun a ha b hb hEq =>
      hSeen (by rw [← mem_singleton.mp hb, ← hEq]; exact ha)⟩

end Bounds

section Places

variable {names : List Path} {name : Bytes}

theorem plain_of_safe (h : unsafePath name = false) : ∀ part ∈ parts name, Plain part := by
  intro part hPart
  simp only [unsafePath, Bool.or_eq_false_iff, any_eq_false] at h
  have hSegment := h.2 part hPart
  simp only [Bool.or_eq_true, beq_iff_eq, not_or] at hSegment
  exact ⟨hSegment.1.1, hSegment.1.2, hSegment.2, slash_notMem_parts hPart⟩

theorem locate_safe (hNames : ∀ n ∈ names, Plain n) (hDestination : names ≠ []) (h : unsafePath name = false) :
    locate (render true names) name = .ok (parts name) := by
  have hSome : parts name ≠ [] := by
    unfold parts
    exact splitOn_ne_nil _ _
  have hJoin : join [render true names, name] = render true names ++ slash :: name := by
    rw [join_name hNames (plain_of_safe h)]
    have hText (l : List Path) : render true l = slash :: glue l := by
      rw [render, if_pos rfl]
    rw [hText, hText, glue_append hDestination hSome, glue_parts, cons_append]
  have hPrefix : (render true names ++ [slash]).isPrefixOf
      (render true names ++ slash :: name) = true :=
    isPrefixOf_iff_prefix.mpr ⟨name, by simp⟩
  have hDrop : (render true names ++ slash :: name).drop ((render true names).length + 1) = name := by
    rw [← drop_drop, drop_left]
    rfl
  unfold locate
  rw [hJoin]
  dsimp only
  rw [hPrefix, hDrop]
  rfl

theorem mem_parents {k p : Key} (h : p ∈ k.inits.dropLast.tail) : p <+: k ∧ p ≠ [] := by
  cases k with
  | nil => cases h
  | cons a k =>
    have hSome : k.inits.map (a :: ·) ≠ [] := by
      cases k <;> simp
    rw [inits_cons, dropLast_cons_of_ne_nil hSome, tail_cons] at h
    obtain ⟨q, hq, rfl⟩ := mem_map.mp (mem_of_mem_dropLast h)
    exact ⟨(prefix_cons_inj a).mpr ((mem_inits q k).mp hq), cons_ne_nil a q⟩

end Places

/-- A directory for an extraction: its path has plain components, its entries have names of their
own, and there is no link among them. -/
structure Destination where
  names : List Path
  world : World
  plain : ∀ n ∈ names, Plain n
  nonempty : names ≠ []
  distinct : world.keys.Nodup
  linkFree : world.LinkFree
  notFollowed : world.followed = false

def Destination.path (d : Destination) : Path := render true d.names

section Steps

variable {limits : Limits} {d : Destination} {s : State} {new : List (Key × Node)} {e : Entry} {k : Key}
variable {s' : State}
variable {entries : List Entry}

theorem allowed_directory (hPositive : limits.Positive) (hSome : k ≠ []) (hPlain : ∀ part ∈ k, Plain part) :
    Allowed limits (k, .directory) :=
  ⟨hSome, hPlain, by simp, (Int64.lt_iff_toInt_lt.mp hPositive.maxFileBytes).le⟩

theorem makeDirectory_within {spare : Nat} (hPositive : limits.Positive)
    (h : Within limits d.world s spare new) (hSome : k ≠ [])
    (hPlain : ∀ part ∈ k, Plain part) : ∃ new', Within limits d.world (makeDirectory limits k s).2 0 new' := by
  unfold makeDirectory
  split_ifs with hLimit
  · exact ⟨new, h.le (Nat.zero_le _)⟩
  rcases @create_cases s.world k .directory (h.linkFree d.linkFree) with ⟨err, hCreate⟩ | ⟨hNone, hCreate⟩
  · rw [hCreate]
    exact ⟨new, h.le (Nat.zero_le _)⟩
  · rw [hCreate]
    have hRoom := Int64.lt_iff_toInt_lt.mp (Int64.not_le.mp hLimit)
    have hOne : Int64.toInt 1 = 1 := Int64.toInt_one
    have hMore := h.more 1 (adds_put hNone) (by simpa using allowed_directory hPositive hSome hPlain) le_rfl
      (by omega) (by simp [bytesOf])
    exact ⟨_, hMore.le (Nat.zero_le _)⟩

theorem makeFile_within (hPositive : limits.Positive) (h : Within limits d.world s e.header.size.toInt.toNat new)
    (hSize : 0 ≤ e.header.size.toInt) (hFile : e.header.size.toInt ≤ limits.maxFileBytes.toInt)
    (hShort : k.length < 2 ^ 63 + 1) (hSome : k ≠ []) (hPlain : ∀ part ∈ k, Plain part) :
    ∃ new', Within limits d.world (makeFile limits k e s).2 0 new' := by
  have hDone : ∃ new', Within limits d.world s 0 new' := ⟨new, h.le (Nat.zero_le _)⟩
  unfold makeFile
  cases hMissing : s.world.missingParentDirectories k.inits.dropLast.tail with
  | error err => exact hDone
  | ok created =>
    have hParents : k.inits.dropLast.tail.length < 2 ^ 63 := by
      rw [length_tail, length_dropLast, length_inits]
      omega
    obtain ⟨hClear, hCreated⟩ := missingParentDirectories_eq_ok hParents hMissing
    obtain ⟨w, parents, hMade, hAdds, hParents, hCount⟩ := mkdirAll_adds hClear
    dsimp only
    by_cases hLimit : limits.maxInodes - created - 1 < s.inodes
    · rw [if_pos hLimit]
      exact hDone
    rw [if_neg hLimit, hMade]
    have hOld := h.count
    obtain ⟨hMore, hRoom⟩ := room_of_limit hPositive.maxInodes (by omega) (by omega) hLimit
    have hAllowed : ∀ p ∈ parents, Allowed limits p := by
      rintro ⟨q, n⟩ hp
      obtain ⟨hMem, rfl⟩ := hParents _ hp
      obtain ⟨hPrefix, hNonempty⟩ := mem_parents hMem
      exact allowed_directory hPositive hNonempty fun part hPart => hPlain part (hPrefix.subset hPart)
    have hZero : (parents.map bytesOf).sum = 0 := by
      refine sum_eq_zero fun n hn => ?_
      obtain ⟨⟨q, m⟩, hp, rfl⟩ := mem_map.mp hn
      obtain ⟨-, rfl⟩ := hParents _ hp
      rfl
    have hFree : w.LinkFree := hAdds.linkFree (h.linkFree d.linkFree) fun p hp => (hAllowed p hp).2.2.1
    dsimp only
    rcases @create_cases w k (.file (e.content.take e.header.size.toInt.toNat)) hFree with
      ⟨err, hCreate⟩ | ⟨hNone, hCreate⟩
    · -- the parents were made, and a file is counted that was not
      rw [hCreate]
      have hAll := h.more (created + 1) hAdds hAllowed (by omega) (by omega) (by omega)
      exact ⟨_, hAll.le (Nat.zero_le _)⟩
    · rw [hCreate]
      have hLength : (e.content.take e.header.size.toInt.toNat).length ≤ e.header.size.toInt.toNat :=
          length_take_le _ _
      have hBytes : bytesOf (k, .file (e.content.take e.header.size.toInt.toNat)) =
        (e.content.take e.header.size.toInt.toNat).length := rfl
      have hFileAllowed : Allowed limits (k, .file (e.content.take e.header.size.toInt.toNat)) :=
        ⟨hSome, hPlain, by simp, by omega⟩
      have hTotal : ((parents ++ [(k, Node.file (e.content.take e.header.size.toInt.toNat))]).length : Int) ≤
          (created + 1).toInt := by
        rw [length_append, length_singleton]
        omega
      have hMore := h.more (created + 1) (hAdds.trans (adds_put hNone))
          (forall_mem_append.mpr ⟨hAllowed, by simpa using hFileAllowed⟩)
        hTotal (by omega) (by simp [hZero, bytesOf])
      have hAll := hMore.le (Nat.zero_le _)
      dsimp only
      split_ifs
      · exact ⟨_, hAll⟩
      · exact ⟨_, hAll⟩

theorem length_le_glue (names : List Path) : names.length ≤ (glue names).length + 1 := by
  induction names with
  | nil => exact Nat.zero_le _
  | cons name names ih =>
    by_cases hNames : names = []
    · simp [hNames]
    · rw [glue_cons hNames, length_append, length_cons, length_cons]
      omega

theorem extractEntry_within (hPositive : limits.Positive) (h : Within limits d.world s 0 new) :
    ∃ new', Within limits d.world (extractEntry limits d.path e s).2 0 new' := by
  unfold extractEntry
  cases hAccount : account limits e s with
  | error err => exact ⟨new, h⟩
  | ok s' =>
    obtain ⟨hSafe, hSize, hFile, -, -, -⟩ := account_eq_ok hPositive hAccount
    have hWithin := h.account hPositive hAccount
    have hShort := e.header.short
    have hParts := length_le_glue (parts e.header.name)
    rw [glue_parts] at hParts
    have hPlain := plain_of_safe hSafe
    have hSome : parts e.header.name ≠ [] := splitOn_ne_nil _ _
    dsimp only
    rw [Destination.path, locate_safe d.plain d.nonempty hSafe]
    dsimp only
    split_ifs
    · exact makeDirectory_within hPositive hWithin hSome hPlain
    · exact makeFile_within hPositive hWithin hSize hFile (by omega) hSome hPlain

theorem extractEntries_within (hPositive : limits.Positive) (h : Within limits d.world s 0 new) :
    ∃ new', Within limits d.world (extractEntries limits d.path entries s).2 0 new' := by
  induction entries generalizing s new with
  | nil => exact ⟨new, h⟩
  | cons e entries ih =>
    obtain ⟨new', hStep⟩ := extractEntry_within (e := e) hPositive h
    rw [extractEntries]
    rcases hResult : extractEntry limits d.path e s with ⟨_ | _, s'⟩
    · rw [hResult] at hStep
      exact ⟨new', hStep⟩
    · rw [hResult] at hStep
      exact ih hStep

theorem seen_makeDirectory : (makeDirectory limits k s).2.seen = s.seen := by
  unfold makeDirectory
  split_ifs
  · rfl
  · split <;> rfl

theorem seen_makeFile : (makeFile limits k e s).2.seen = s.seen := by
  unfold makeFile
  split
  · rfl
  · split_ifs
    · rfl
    all_goals
      split
      · rfl
      · dsimp only
        split
        · rfl
        · split_ifs <;> rfl

theorem seen_account (h : account limits e s = .ok s') : s'.seen = s.seen ++ [e.header.name] := by
  simp only [account, andThen_eq_ok] at h
  obtain ⟨-, -, -, -, hState⟩ := h
  cases hState
  rfl

theorem seen_extractEntry (h : extractEntry limits d.path e s = (.ok (), s')) :
    s'.seen = s.seen ++ [e.header.name] := by
  unfold extractEntry at h
  cases hAccount : account limits e s with
  | error err =>
    rw [hAccount] at h
    cases h
  | ok counted =>
    have hSeen := seen_account hAccount
    rw [hAccount] at h
    dsimp only at h
    cases hPlace : locate d.path e.header.name with
    | error err =>
      rw [hPlace] at h
      cases h
    | ok k =>
      rw [hPlace] at h
      dsimp only at h
      rw [← hSeen]
      split_ifs at h
      · rw [← @seen_makeDirectory limits counted k, h]
      · rw [← @seen_makeFile limits counted e k, h]

theorem seen_extractEntries (h : extractEntries limits d.path entries s = (.ok (), s')) :
    s'.seen = s.seen ++ entries.map (·.header.name) := by
  induction entries generalizing s with
  | nil =>
    cases h
    simp
  | cons e entries ih =>
    rw [extractEntries] at h
    rcases hStep : extractEntry limits d.path e s with ⟨_ | _, next⟩
    · rw [hStep] at h
      cases h
    · rw [hStep] at h
      rw [ih h, seen_extractEntry hStep]
      simp

end Steps

/-- An extraction stays within its limits and its directory, whatever the archive is and however
it ends: nothing is replaced, no link is made or followed. It succeeds only if every required name
is there once. -/
theorem extraction_within {limits : Limits} (hPositive : limits.Positive) (d : Destination) (stream : Stream) :
    (∃ new, (extractReadyArchive limits d.path stream d.world).2.nodes = d.world.nodes ++ new ∧
      (extractReadyArchive limits d.path stream d.world).2.keys.Nodup ∧
      (extractReadyArchive limits d.path stream d.world).2.followed = false ∧
      (new.length : Int) ≤ limits.maxInodes.toInt ∧
      (((new.map bytesOf).sum : Nat) : Int) ≤ limits.maxExpandedBytes.toInt ∧
      ∀ p ∈ new, Allowed limits p) ∧
    ((extractReadyArchive limits d.path stream d.world).1 = .ok () →
      ∀ name ∈ required, (stream.entries.map (·.header.name)).count name = 1) := by
  have hStart : Within limits d.world ⟨d.world, [], 0, 0⟩ 0 [] :=
    ⟨Adds.refl _, by simp, le_rfl, (Int64.lt_iff_toInt_lt.mp hPositive.maxInodes).le, le_rfl,
      (Int64.lt_iff_toInt_lt.mp hPositive.maxExpandedBytes).le, nodup_nil⟩
  obtain ⟨new, hWithin⟩ : ∃ new,
      Within limits d.world (extractEntries limits d.path stream.entries ⟨d.world, [], 0, 0⟩).2 0 new :=
    extractEntries_within hPositive hStart
  constructor
  · have hWorld : (extractReadyArchive limits d.path stream d.world).2 =
        (extractEntries limits d.path stream.entries ⟨d.world, [], 0, 0⟩).2.world := by
      unfold extractReadyArchive
      split
      · rename_i hRun
        rw [hRun]
      · rename_i hRun
        rw [hRun]
        split_ifs <;> rfl
    rw [hWorld]
    exact ⟨new, hWithin.adds.nodes, hWithin.adds.fresh d.distinct, hWithin.adds.followed.trans d.notFollowed,
      hWithin.count.trans hWithin.inodes, hWithin.bytes.trans hWithin.expanded, hWithin.allowed⟩
  · intro hOk name hName
    unfold extractReadyArchive at hOk
    split at hOk
    · cases hOk
    · rename_i s hRun
      rw [hRun] at hWithin
      have hSeen := seen_extractEntries hRun
      rw [nil_append] at hSeen
      split_ifs at hOk
      have hMem := each_eq_ok.mp hOk name hName
      simp only [refuse_eq_ok, Bool.not_eq_false', contains_iff_mem] at hMem
      rw [← hSeen]
      exact count_eq_one_of_mem hWithin.seen hMem

def readyEntry (name : Bytes) (typeflag : TypeFlag) (content : Bytes) (short : name.length < 2 ^ 63) : Entry where
  header :=
    { name, typeflag, short
      mode := 0o555
      size := .ofNat content.length
      format := .ustar
      uid := 0
      gid := 0
      uname := []
      gname := []
      linkname := []
      modTime := some 0
      accessTime := none
      changeTime := none
      paxRecords := []
      xattrs := [] }
  content := content

/-- The smallest archive: a directory for the tools with the three of them, and one for the store. -/
def smallest : Stream where
  entries := [readyEntry (lit "bin") .directory [] (by decide), readyEntry (lit "bin/camp") .regular [1] (by decide),
    readyEntry (lit "bin/hauler") .regular [2] (by decide), readyEntry (lit "bin/pasta") .regular [3] (by decide),
    readyEntry (lit "store") .directory [] (by decide)]
  ended := true

def freshDestination :
    Destination := ⟨[lit "kit"], ⟨[], false⟩, by decide, by decide, nodup_nil, by simp [LinkFree], rfl⟩

def fiveEntries : Limits := ⟨5, 5, 1, 3⟩

theorem extraction_within_smallest : fiveEntries.Positive ∧
    (extractReadyArchive fiveEntries freshDestination.path smallest freshDestination.world).1 = .ok () ∧
      ∀ name ∈ required, (smallest.entries.map (·.header.name)).count name = 1 := by
  have hPositive : fiveEntries.Positive := ⟨by decide, by decide, by decide, by decide⟩
  have hOk : (extractReadyArchive fiveEntries freshDestination.path smallest freshDestination.world).1 =
      .ok () := by decide
  exact ⟨hPositive, hOk, (extraction_within hPositive freshDestination smallest).2 hOk⟩

end Camp.HaulKit.Extraction
