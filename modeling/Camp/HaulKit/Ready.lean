import Camp.HaulKit.Manifest

/-!
# The ready archive of a kit

The archive of a kit has the tools and what is in the store directory, sorted by name. Its headers
are made from the names and kinds of the sources, and from the sizes that the file system gives.
-/

namespace Camp.HaulKit.Ready

open Wire Wire.Utf8 Program Program.Checks List Program.Paths

section Model

inductive Kind where
  | directory (size : Nat)
  | regular (body : Bytes) (links : Nat)
  | symlink
  | special
  deriving DecidableEq

/-- An entry of the file system, with what a kit should not depend on. -/
structure Entry where
  kind : Kind
  permissions : Nat
  modified : Int
  deriving DecidableEq

structure Disk where
  nodes : List (Path × Entry)
  distinct : (nodes.map (·.1)).Nodup

inductive Error where
  | notExist
  | unsafeKit (reason : String)
  | changed
  | writer
  deriving DecidableEq

structure Request where
  campExecutable : Path
  haulerExecutable : Path
  pastaExecutable : Path
  storeDirectory : Path
  deriving DecidableEq

structure Source where
  name : Bytes
  sourcePath : Path
  directory : Bool
  executable : Bool
  size : Nat
  deriving DecidableEq

def Disk.lookup (d : Disk) (path : Path) : Option Kind := (d.nodes.lookup path).map (·.kind)

/-- What the walk of a directory finds, by the name relative to the directory. -/
def Disk.below (d : Disk) (directory : Path) : List (Bytes × Entry) :=
  d.nodes.filterMap fun (path, e) =>
    if (directory ++ [slash]).isPrefixOf path then some (path.drop (directory.length + 1), e) else none

def Kind.size : Kind → Nat
  | .directory size => size
  | .regular body _ => body.length
  | _ => 0

def Kind.isDir : Kind → Bool
  | .directory _ => true
  | _ => false

def checkStored : Bytes × Entry → Except Error Unit
  | (relative, e) => do
    refuse (unsafePath relative) (.unsafeKit "unsafe store path")
    match e.kind with
    | .directory _ => pure ()
    | .regular _ links => refuse (links != 1) (.unsafeKit "outer kit source is hardlinked")
    | .symlink | .special => throw (.unsafeKit "outer kit source is not regular")

/-- A safe name is joined to the name of the directory as it is. -/
def stored (directory : Path) : Bytes × Entry → Source
  | (relative, e) =>
    ⟨lit "store/" ++ relative, directory ++ slash :: relative, e.kind.isDir, false, e.kind.size⟩

def toolSources (request : Request) : List Source :=
  [⟨lit "bin", [], true, false, 0⟩,
    ⟨lit "bin/camp", request.campExecutable, false, true, 0⟩,
    ⟨lit "bin/hauler", request.haulerExecutable, false, true, 0⟩,
    ⟨lit "bin/pasta", request.pastaExecutable, false, true, 0⟩,
    ⟨lit "store", [], true, false, 0⟩]

def regularBody (d : Disk) (path : Path) : Except Error Bytes :=
  match d.lookup path with
  | none => .error .notExist
  | some (.regular body _) => .ok body
  | some _ => .error (.unsafeKit "source is not a regular file")

/-- The size of a file is taken again, the size of a directory is kept. -/
def sized (d : Disk) (s : Source) : Except Error Source :=
  if s.directory then .ok s
  else do
    let body ← regularBody d s.sourcePath
    pure { s with size := body.length }

def sourcesOf (d : Disk) (request : Request) : List Source :=
  toolSources request ++ (d.below request.storeDirectory).map (stored request.storeDirectory)

def readyArchiveSources (d : Disk) (request : Request) : Except Error (List Source) := do
  refuse (d.lookup request.storeDirectory).isNone .notExist
  each checkStored (d.below request.storeDirectory)
  let sources ← (sourcesOf d request).mapM (sized d)
  pure (sortOn (fun s => bytewise s.name) sources)

inductive TypeFlag where
  | regular
  | directory
  deriving DecidableEq

/-- One header with its content; the time is always zero. -/
structure Member where
  name : Bytes
  mode : Nat
  size : Nat
  typeflag : TypeFlag
  content : Bytes
  deriving DecidableEq

def member (d : Disk) (s : Source) : Except Error Member :=
  if s.directory then .ok ⟨s.name, 0o555, s.size, .directory, []⟩
  else do
    let body ← regularBody d s.sourcePath
    refuse (body.length != s.size) .changed
    pure ⟨s.name, if s.executable then 0o555 else 0o444, s.size, .regular, body⟩

/-- The tar and zstd writers: they are functions, and what they write can be read. -/
structure Writer (Out : Type) where
  write : List Member → Except Error Out
  readable : ∀ {a b : List Member} {out : Out}, write a = .ok out → write b = .ok out → a = b

def writeReadyArchive {Out : Type} (writer : Writer Out) (d : Disk) (request : Request) : Except Error Out := do
  let sources ← readyArchiveSources d request
  let members ← sources.mapM (member d)
  writer.write members

end Model

section Members

variable {d : Disk} {request : Request}
variable {s : Source} {m : Member}
variable {path : Path} {t : Source} {p : Bytes × Entry}

theorem regularBody_eq_ok {body : Bytes} :
    regularBody d path = .ok body ↔ ∃ links, d.lookup path = some (.regular body links) := by
  unfold regularBody
  split <;> simp_all

/-- What a source becomes: the size of a file is the length of its content. -/
def Becomes (d : Disk) (s : Source) (m : Member) : Prop :=
  if s.directory then m = ⟨s.name, 0o555, s.size, .directory, []⟩
  else ∃ body, regularBody d s.sourcePath = .ok body ∧
    m = ⟨s.name, if s.executable then 0o555 else 0o444, body.length, .regular, body⟩

theorem becomes_of_sized (hSized : sized d s = .ok t) : member d t = .ok m ↔ Becomes d s m := by
  unfold sized at hSized
  unfold Becomes
  by_cases hDirectory : s.directory = true
  · rw [if_pos hDirectory] at hSized ⊢
    cases hSized
    rw [member, if_pos hDirectory, Except.ok.injEq]
    exact eq_comm
  · rw [if_neg hDirectory] at hSized ⊢
    obtain ⟨body, hBody, h⟩ := bind_eq_ok.mp hSized
    cases h
    rw [member, if_neg hDirectory, bind_eq_ok]
    simp only [andThen_eq_ok, refuse_eq_ok, bne_eq_false_iff_eq, hBody, Except.ok.injEq]
    constructor
    · rintro ⟨_, rfl, -, h⟩
      cases h
      exact ⟨body, rfl, rfl⟩
    · rintro ⟨_, rfl, rfl⟩
      exact ⟨body, rfl, rfl, rfl⟩

theorem name_of_sized (h : sized d s = .ok t) : t.name = s.name := by
  unfold sized at h
  split_ifs at h
  · cases h
    rfl
  · obtain ⟨body, -, h⟩ := bind_eq_ok.mp h
    cases h
    rfl

theorem name_of_member (h : member d s = .ok m) : m.name = s.name := by
  unfold member at h
  by_cases hDirectory : s.directory = true
  · rw [if_pos hDirectory] at h
    cases h
    rfl
  · rw [if_neg hDirectory] at h
    obtain ⟨body, -, h⟩ := bind_eq_ok.mp h
    obtain ⟨-, h⟩ := andThen_eq_ok.mp h
    cases h
    rfl

theorem drop_directory (directory rest : Path) :
    (directory ++ slash :: rest).drop (directory.length + 1) = rest := by
  rw [← drop_drop, drop_left]
  rfl

theorem mem_below {directory : Path} : p ∈ d.below directory ↔ (directory ++ slash :: p.1, p.2) ∈ d.nodes := by
  obtain ⟨relative, e⟩ := p
  simp only [Disk.below, mem_filterMap, Prod.exists]
  constructor
  · rintro ⟨path, e', hMem, h⟩
    split_ifs at h with hPrefix
    cases h
    obtain ⟨rest, rfl⟩ := isPrefixOf_iff_prefix.mp hPrefix
    rw [append_assoc, singleton_append] at hMem ⊢
    rwa [drop_directory]
  · intro hMem
    refine ⟨_, e, hMem, ?_⟩
    rw [if_pos ( isPrefixOf_iff_prefix.mpr ⟨relative, by simp⟩), drop_directory]

theorem lookup_of_mem {e : Entry} (h : (path, e) ∈ d.nodes) : d.lookup path = some e.kind := by
  have hLookup (nodes : List (Path × Entry)) (hNodup : (nodes.map (·.1)).Nodup) (hMem : (path, e) ∈ nodes) :
      nodes.lookup path = some e := by
    induction nodes with
    | nil => cases hMem
    | cons node nodes ih =>
      rw [map_cons, nodup_cons] at hNodup
      rcases mem_cons.mp hMem with rfl | hMem
      · simp
      · have hOther : path ≠ node.1 := fun hEq => hNodup.1 (hEq ▸ mem_map_of_mem hMem)
        rw [lookup_cons, beq_eq_false_iff_ne.mpr hOther]
        exact ih hNodup.2 hMem
  rw [Disk.lookup, hLookup d.nodes d.distinct h]
  rfl

theorem below_nodup (d : Disk) (directory : Path) : ((d.below directory).map (·.1)).Nodup := by
  refine pairwise_map.mpr (Pairwise.filterMap _ ?_ (pairwise_map.mp d.distinct))
  rintro ⟨path, e⟩ ⟨path', e'⟩ hNe b hb b' hb' hEq
  dsimp only at hb hb'
  split_ifs at hb hb' with hPrefix hPrefix'
  · cases hb
    cases hb'
    obtain ⟨rest, rfl⟩ := isPrefixOf_iff_prefix.mp hPrefix
    obtain ⟨rest', rfl⟩ := isPrefixOf_iff_prefix.mp hPrefix'
    simp only [append_assoc, singleton_append, drop_directory] at hEq
    exact hNe (by rw [hEq])

theorem sourcesOf_nodup : ((sourcesOf d request).map (·.name)).Nodup := by
  have hTools : ((toolSources request).map (·.name)).Nodup ∧
      ∀ name ∈ (toolSources request).map (·.name), ¬ lit "store/" <+: name := by
    show ([lit "bin", lit "bin/camp", lit "bin/hauler", lit "bin/pasta", lit "store"] : List Bytes).Nodup ∧
      ∀ name ∈ [lit "bin", lit "bin/camp", lit "bin/hauler", lit "bin/pasta", lit "store"], ¬ lit "store/" <+: name
    decide
  have hStored : ((d.below request.storeDirectory).map (stored request.storeDirectory)).map (·.name) =
      ((d.below request.storeDirectory).map (·.1)).map (lit "store/" ++ ·) := by
    rw [map_map, map_map]
    rfl
  rw [sourcesOf, map_append, nodup_append]
  refine ⟨hTools.1, ?_, ?_⟩
  · rw [hStored]
    exact (below_nodup _ _).map fun _ _ => append_cancel_left
  · intro name hName name' hName' hEq
    rw [hStored] at hName'
    obtain ⟨relative, -, rfl⟩ := mem_map.mp hName'
    exact hTools.2 name hName (hEq ▸ prefix_append _ _)

/-- The archive is written from members in the order of their names, one for each source. -/
theorem exists_members {Out : Type} {writer : Writer Out} {out : Out}
    (h : writeReadyArchive writer d request = .ok out) :
    ∃ members, writer.write members = .ok out ∧ members.Pairwise (fun a b => bytewise a.name < bytewise b.name) ∧
      (∀ p ∈ d.below request.storeDirectory, checkStored p = .ok ()) ∧
      ∀ m, m ∈ members ↔ ∃ s ∈ sourcesOf d request, Becomes d s m := by
  obtain ⟨sources, hSources, h⟩ := bind_eq_ok.mp h
  obtain ⟨members, hMembers, hWrite⟩ := bind_eq_ok.mp h
  obtain ⟨-, hSources⟩ := andThen_eq_ok.mp hSources
  obtain ⟨hChecks, h⟩ := andThen_eq_ok.mp hSources
  obtain ⟨unsorted, hSized, h⟩ := bind_eq_ok.mp h
  cases h
  rw [mapM_eq_ok] at hSized hMembers
  have hPerm := sortOn_perm (fun s : Source => bytewise s.name) unsorted
  have hNames : unsorted.map (·.name) = (sourcesOf d request).map (·.name) :=
    map_of_forall₂ (f := Source.name) (g := Source.name) (fun _ _ => name_of_sized) hSized
  have hKeys : (unsorted.map fun s => bytewise s.name).Nodup := by
    have hNodup : (unsorted.map (·.name)).Nodup := hNames ▸ sourcesOf_nodup
    refine pairwise_map.mpr ((pairwise_map.mp hNodup).imp fun hNe hEq => hNe (bytewise_injective hEq))
  refine ⟨members, hWrite, ?_, by simpa using hChecks, ?_⟩
  · have hSorted := pairwise_lt_sortOn hKeys
    have hSame := map_of_forall₂ (f := Source.name) (g := Member.name) (fun _ _ => name_of_member) hMembers
    have hMapped : ((sortOn (fun s : Source => bytewise s.name) unsorted).map Source.name).Pairwise
        (fun a b => bytewise a < bytewise b) := pairwise_map.mpr hSorted
    rw [← hSame] at hMapped
    exact (pairwise_map (R := fun a b => bytewise a < bytewise b)).mp hMapped
  · intro m
    constructor
    · intro hm
      obtain ⟨t, ht, hMember⟩ := forall₂_mem_right hMembers hm
      obtain ⟨s, hs, hSize⟩ := forall₂_mem_right hSized (hPerm.mem_iff.mp ht)
      exact ⟨s, hs, (becomes_of_sized hSize).mp hMember⟩
    · rintro ⟨s, hs, hBecomes⟩
      obtain ⟨t, ht, hSize⟩ := forall₂_mem_right hSized.flip hs
      obtain ⟨m', hm', hMember⟩ := forall₂_mem_right hMembers.flip (hPerm.mem_iff.mpr ht)
      have hSelf := (becomes_of_sized hSize).mpr hBecomes
      have hEq := Except.ok.inj (hMember.symm.trans hSelf)
      exact hEq ▸ hm'

def storedMember (relative : Bytes) : Kind → Member
  | .directory size => ⟨lit "store/" ++ relative, 0o555, size, .directory, []⟩
  | .regular body _ => ⟨lit "store/" ++ relative, 0o444, body.length, .regular, body⟩
  | _ => ⟨lit "store/" ++ relative, 0o444, 0, .regular, []⟩

theorem becomes_stored (hMem : p ∈ d.below request.storeDirectory) (hCheck : checkStored p = .ok ()) :
    Becomes d (stored request.storeDirectory p) m ↔ m = storedMember p.1 p.2.kind := by
  obtain ⟨relative, kind, permissions, modified⟩ := p
  have hLookup := lookup_of_mem (mem_below.mp hMem)
  obtain ⟨-, hKind⟩ := andThen_eq_ok.mp hCheck
  cases kind with
  | directory size => exact Iff.rfl
  | regular body links =>
    have hBody : regularBody d (request.storeDirectory ++ slash :: relative) = .ok body :=
      regularBody_eq_ok.mpr ⟨links, hLookup⟩
    show (∃ b, regularBody d (request.storeDirectory ++ slash :: relative) = .ok b ∧ _) ↔ _
    simp only [hBody, Except.ok.injEq, exists_eq_left']
    rfl
  | symlink => cases hKind
  | special => cases hKind

end Members

section Reproducible

variable {d₁ d₂ : Disk} {r₁ r₂ : Request}
variable {m : Member}

def Kind.essence : Kind → Kind
  | .directory _ => .directory 0
  | .regular body _ => .regular body 0
  | kind => kind

def Request.tools (r : Request) : List Path := [r.campExecutable, r.haulerExecutable, r.pastaExecutable]

/-- The same tools, and the same names, types and contents in the store. -/
structure SameFiles (d₁ : Disk) (r₁ : Request) (d₂ : Disk) (r₂ : Request) : Prop where
  tools : r₁.tools.map (regularBody d₁) = r₂.tools.map (regularBody d₂)
  store : ∀ relative kind, (∃ e, (relative, e) ∈ d₁.below r₁.storeDirectory ∧ e.kind.essence = kind) ↔
    ∃ e, (relative, e) ∈ d₂.below r₂.storeDirectory ∧ e.kind.essence = kind

/-- The directories of the store have the same size on disk. -/
def SameSizes (d₁ : Disk) (r₁ : Request) (d₂ : Disk) (r₂ : Request) : Prop :=
  ∀ relative e₁ e₂, (relative, e₁) ∈ d₁.below r₁.storeDirectory → (relative, e₂) ∈ d₂.below r₂.storeDirectory →
    e₁.kind.isDir = true → e₁.kind.size = e₂.kind.size

theorem SameFiles.symm (h : SameFiles d₁ r₁ d₂ r₂) : SameFiles d₂ r₂ d₁ r₁ :=
  ⟨h.tools.symm, fun relative kind => (h.store relative kind).symm⟩

theorem name_inj {members : List Member} (hSorted : members.Pairwise fun a b =>
    bytewise a.name < bytewise b.name) {a b : Member}
    (ha : a ∈ members) (hb : b ∈ members) (hName : a.name = b.name) : a = b := by
  have hNodup : (members.map (·.name)).Nodup :=
    pairwise_map.mpr (hSorted.imp fun hLt hEq => absurd (hEq ▸ hLt) (lt_irrefl _))
  exact inj_on_of_nodup_map hNodup ha hb hName

theorem storedMember_congr {relative : Bytes} {k₁ k₂ : Kind} (hEssence : k₁.essence = k₂.essence)
    (hSize : k₁.isDir = true → k₁.size = k₂.size) : storedMember relative k₁ = storedMember relative k₂ := by
  cases k₁ with
  | directory size₁ =>
    cases k₂ with
    | directory size₂ => rw [show size₁ = size₂ from hSize rfl]
    | _ => cases hEssence
  | regular body links =>
    cases k₂ with
    | regular body' links' =>
      cases hEssence
      rfl
    | _ => cases hEssence
  | symlink =>
    cases k₂ with
    | symlink => rfl
    | _ => cases hEssence
  | special =>
    cases k₂ with
    | special => rfl
    | _ => cases hEssence

theorem becomes_tools (h : SameFiles d₁ r₁ d₂ r₂) (hTool : ∃ s ∈ toolSources r₁, Becomes d₁ s m) :
    ∃ s ∈ toolSources r₂, Becomes d₂ s m := by
  have hTools := h.tools
  simp only [Request.tools, map_cons, map_nil, List.cons.injEq, and_true] at hTools
  simp only [toolSources, exists_mem_cons_iff, not_mem_nil, false_and,
    exists_false, or_false, Becomes] at hTool ⊢
  rwa [hTools.1, hTools.2.1, hTools.2.2] at hTool

theorem becomes_of_sameSizes (h : SameFiles d₁ r₁ d₂ r₂) (hSizes : SameSizes d₁ r₁ d₂ r₂)
    (hChecks₁ : ∀ p ∈ d₁.below r₁.storeDirectory, checkStored p = .ok ())
    (hChecks₂ : ∀ p ∈ d₂.below r₂.storeDirectory, checkStored p = .ok ()) (hm : ∃ s ∈ sourcesOf d₁ r₁, Becomes d₁ s m) :
    ∃ s ∈ sourcesOf d₂ r₂, Becomes d₂ s m := by
  obtain ⟨s, hs, hBecomes⟩ := hm
  rcases mem_append.mp hs with hTool | hStored
  · obtain ⟨t, ht, hSame⟩ := becomes_tools h ⟨s, hTool, hBecomes⟩
    exact ⟨t, mem_append_left _ ht, hSame⟩
  · obtain ⟨⟨relative, e₁⟩, hMem₁, rfl⟩ := mem_map.mp hStored
    have hMember := (becomes_stored hMem₁ (hChecks₁ _ hMem₁)).mp hBecomes
    obtain ⟨e₂, hMem₂, hEssence⟩ := (h.store relative e₁.kind.essence).mp ⟨e₁, hMem₁, rfl⟩
    refine ⟨stored r₂.storeDirectory (relative, e₂), mem_append_right _ (mem_map_of_mem hMem₂), ?_⟩
    rw [becomes_stored hMem₂ (hChecks₂ _ hMem₂), hMember]
    exact storedMember_congr hEssence.symm (hSizes relative e₁ e₂ hMem₁ hMem₂)

theorem SameSizes.symm (h : SameFiles d₁ r₁ d₂ r₂) (hSizes : SameSizes d₁ r₁ d₂ r₂) : SameSizes d₂ r₂ d₁ r₁ := by
  intro relative e₂ e₁ hMem₂ hMem₁ hDirectory
  obtain ⟨e, hMem, hEssence⟩ := (h.store relative e₂.kind.essence).mpr ⟨e₂, hMem₂, rfl⟩
  have hSame : e = e₁ := congrArg Prod.snd (inj_on_of_nodup_map (below_nodup d₁ _) hMem hMem₁ rfl)
  subst hSame
  refine (hSizes relative e e₂ hMem hMem₂ ?_).symm
  cases hKind : e₂.kind <;> cases hOther : e.kind <;> simp_all [Kind.essence, Kind.isDir]

theorem size_storedMember (relative : Bytes) (k : Kind) : (storedMember relative k).size = k.size := by
  cases k <;> rfl

/-- The archive is the same if, and only if, the directories have the same sizes on disk. -/
theorem ready_reproducible {Out : Type} (writer : Writer Out) {out₁ out₂ : Out} (h : SameFiles d₁ r₁ d₂ r₂)
    (h₁ : writeReadyArchive writer d₁ r₁ = .ok out₁) (h₂ : writeReadyArchive writer d₂ r₂ = .ok out₂) :
    out₁ = out₂ ↔ SameSizes d₁ r₁ d₂ r₂ := by
  obtain ⟨members₁, hWrite₁, hSorted₁, hChecks₁, hMem₁⟩ := exists_members h₁
  obtain ⟨members₂, hWrite₂, hSorted₂, hChecks₂, hMem₂⟩ := exists_members h₂
  constructor
  · rintro rfl relative e₁ e₂ hBelow₁ hBelow₂ -
    have hSame := writer.readable hWrite₁ hWrite₂
    have hFirst : storedMember relative e₁.kind ∈ members₂ := by
      rw [← hSame, hMem₁]
      exact ⟨_, mem_append_right _ (mem_map_of_mem hBelow₁),
        (becomes_stored hBelow₁ (hChecks₁ _ hBelow₁)).mpr rfl⟩
    have hSecond : storedMember relative e₂.kind ∈ members₂ := by
      rw [hMem₂]
      exact ⟨_, mem_append_right _ (mem_map_of_mem hBelow₂),
        (becomes_stored hBelow₂ (hChecks₂ _ hBelow₂)).mpr rfl⟩
    have hName (k : Kind) : (storedMember relative k).name = lit "store/" ++ relative := by
      cases k <;> rfl
    have hEq := name_inj hSorted₂ hFirst hSecond (by rw [hName, hName])
    rw [← size_storedMember relative, hEq, size_storedMember]
  · intro hSizes
    have hMembers : members₁ = members₂ := by
      have hNodup₁ : members₁.Nodup := hSorted₁.imp fun hLt hEq => absurd (hEq ▸ hLt) (lt_irrefl _)
      have hNodup₂ : members₂.Nodup := hSorted₂.imp fun hLt hEq => absurd (hEq ▸ hLt) (lt_irrefl _)
      refine Perm.eq_of_pairwise (fun a b _ _ hab hba => absurd hba (lt_asymm hab)) hSorted₁ hSorted₂ ?_
      rw [perm_ext_iff_of_nodup hNodup₁ hNodup₂]
      intro m
      rw [hMem₁, hMem₂]
      exact ⟨becomes_of_sameSizes h hSizes hChecks₁ hChecks₂,
        becomes_of_sameSizes h.symm (hSizes.symm h) hChecks₂ hChecks₁⟩
    rw [hMembers, hWrite₂] at hWrite₁
    exact (Except.ok.inj hWrite₁).symm

def keeping : Writer (List Member) where
  write members := .ok members
  readable ha hb := (Except.ok.inj ha).trans (Except.ok.inj hb).symm

def oneDirectory (size : Nat) : Disk where
  nodes := [(lit "/s", ⟨.directory 0, 0o755, 7⟩), (lit "/s/layer", ⟨.directory size, 0o755, 7⟩),
    (lit "/t", ⟨.regular [1] 1, 0o700, 9⟩)]
  distinct := by
    show ([lit "/s", lit "/s/layer", lit "/t"] : List Bytes).Nodup
    decide

/-- The same at another place, found in another order, and with other times and permissions. -/
def otherDirectory (size : Nat) : Disk where
  nodes := [(lit "/t", ⟨.regular [1] 1, 0o500, 1⟩), (lit "/elsewhere/layer", ⟨.directory size, 0o700, 2⟩),
    (lit "/elsewhere", ⟨.directory 0, 0o700, 3⟩)]
  distinct := by
    show ([lit "/t", lit "/elsewhere/layer", lit "/elsewhere"] : List Bytes).Nodup
    decide

def requestFor (storeDirectory : Bytes) : Request := ⟨lit "/t", lit "/t", lit "/t", storeDirectory⟩

theorem sameFiles_directories (m n : Nat) :
    SameFiles (oneDirectory m) (requestFor (lit "/s")) (otherDirectory n) (requestFor (lit "/elsewhere")) where
  tools := rfl
  store relative kind := by
    have hOne : (oneDirectory m).below (requestFor (lit "/s")).storeDirectory =
        [(lit "layer", ⟨.directory m, 0o755, 7⟩)] := rfl
    have hOther : (otherDirectory n).below (requestFor (lit "/elsewhere")).storeDirectory =
        [(lit "layer", ⟨.directory n, 0o700, 2⟩)] := rfl
    rw [hOne, hOther]
    simp [Kind.essence]

theorem ready_reproducible_directories :
    ∃ out, writeReadyArchive keeping (oneDirectory 64) (requestFor (lit "/s")) = .ok out ∧
      writeReadyArchive keeping (otherDirectory 64) (requestFor (lit "/elsewhere")) = .ok out := by
  obtain ⟨out₁, h₁⟩ : ∃ out, writeReadyArchive keeping (oneDirectory 64) (requestFor (lit "/s")) = .ok out := ⟨_, rfl⟩
  obtain ⟨out₂, h₂⟩ : ∃ out, writeReadyArchive keeping (otherDirectory 64) (requestFor (lit "/elsewhere")) = .ok out :=
      ⟨_, rfl⟩
  have hSame := (ready_reproducible keeping (sameFiles_directories 64 64) h₁ h₂).mpr (by
    intro relative e₁ e₂ hMem₁ hMem₂ _
    cases mem_singleton.mp hMem₁
    cases mem_singleton.mp hMem₂
    rfl)
  exact ⟨out₁, h₁, hSame ▸ h₂⟩

/-- The size of a directory on disk is in its header. -/
theorem directory_size_archived :
    SameFiles (oneDirectory 4096) (requestFor (lit "/s")) (otherDirectory 60) (requestFor (lit "/elsewhere")) ∧
      ∃ out₁ out₂, writeReadyArchive keeping (oneDirectory 4096) (requestFor (lit "/s")) = .ok out₁ ∧
        writeReadyArchive keeping (otherDirectory 60) (requestFor (lit "/elsewhere")) = .ok out₂ ∧
        out₁.map (·.size) = [0, 1, 1, 1, 0, 4096] ∧ out₂.map (·.size) = [0, 1, 1, 1, 0, 60] := by
  refine ⟨sameFiles_directories 4096 60, _, _, rfl, rfl, ?_, ?_⟩
  · decide
  · decide

end Reproducible

end Camp.HaulKit.Ready
