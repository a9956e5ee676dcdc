import Camp.DevPod.Quoting
import Camp.Wire.Order

/-!
# Hard links of a workspace

A copied tree has lost its hard links. They are put back by one `ln --force` for every name but the
first of each file that has several names in the local tree.
-/

namespace Camp.Workspace

open Wire Wire.Utf8 Program.Checks Program.Paths DevPod Shell List Function

section Local

structure Identity where
  device : Nat
  inode : Nat
  deriving DecidableEq

inductive EntryKind
  | directory
  | symlink
  | regular
  | other
  deriving DecidableEq

structure Entry where
  path : Bytes
  kind : EntryKind
  identity : Identity
  deriving DecidableEq

/-- A local tree as it is walked. A file may have more names outside the tree. -/
structure LocalTree (C : Type) where
  entries : List Entry
  nlink : Identity → Nat
  content : Identity → C
  distinct : (entries.map Entry.path).Nodup
  counted : ∀ i, (entries.filter fun e => e.kind == .regular && e.identity == i).length ≤ nlink i
  relative : ∀ e ∈ entries, e.kind = .regular → e.path ≠ dot ∧ e.path ≠ dotDot ∧ rooted e.path = false

variable {C : Type}

def LocalTree.linked (tree : LocalTree C) (e : Entry) : Bool := e.kind == .regular && 2 ≤ tree.nlink e.identity

abbrev Groups := List (Identity × List Bytes)

def Groups.add (e : Entry) : Groups → Groups
  | [] => [(e.identity, [e.path])]
  | (i, paths) :: rest => if i = e.identity then (i, paths ++ [e.path]) :: rest else (i, paths) :: Groups.add e rest

def LocalTree.visit (tree : LocalTree C) (groups : Groups) (e : Entry) : Except String Groups :=
  if tree.linked e then do
    refuse (e.path == dot || e.path == dotDot || rooted e.path) "unsafe hardlink path"
    return groups.add e
  else return groups

def ordered (groups : Groups) : List (List Bytes) :=
  sortOn (fun paths => bytewise (paths.headD []))
    ((groups.filter fun g => 2 ≤ g.2.length).map fun g => sortOn bytewise g.2)

structure HardlinkRestoreRequest where
  workspaceID : Bytes
  context : Bytes
  localRoot : Bytes
  remoteRoot : Bytes

def safeHardlinkRoot (root : Bytes) : Bool := root != [] && rooted root && clean root == root

def linkCommand (request : HardlinkRestoreRequest) (source target : Bytes) : WorkspaceCommand :=
  ⟨request.workspaceID, request.context, request.remoteRoot, [lit "ln", lit "--force", lit "--", source, target]⟩

/-- The commands that are emitted, one after the other. `root` is what `Lstat` and the walk find. -/
def restore (request : HardlinkRestoreRequest) (root : Option (LocalTree C)) :
    Except String (List WorkspaceCommand) := do
  refuse (request.workspaceID == []) "incomplete hardlink restore request"
  refuse (!safeHardlinkRoot request.localRoot || clean request.localRoot == [slash]) "invalid local root"
  refuse (!safeHardlinkRoot request.remoteRoot || clean request.remoteRoot == [slash]) "invalid remote root"
  match root with
  | none => .error "invalid local root"
  | some tree => do
    let groups ← tree.entries.foldlM tree.visit []
    return (ordered groups).flatMap fun paths => paths.tail.map (linkCommand request (paths.headD []))

end Local

section RemoteCopy

/-- The regular files below the remote root, by their names; `outside` counts other names. -/
structure RemoteCopy (C : Type) where
  names : List Bytes
  inode : Bytes → Nat
  content : Nat → C
  outside : Nat → Nat

variable {C : Type}

def RemoteCopy.nlink (r : RemoteCopy C) (i : Nat) : Nat := r.names.countP (r.inode · == i) + r.outside i

/-- `ln --force`: a file is not linked onto itself, that is, where the target is the only name of
the source or the same name. -/
def RemoteCopy.link (r : RemoteCopy C) (source target : Bytes) : Option (RemoteCopy C) :=
  if source ∉ r.names then none
  else if target ∈ r.names ∧ r.inode source = r.inode target ∧
    (r.nlink (r.inode source) = 1 ∨ source = target) then none
  else some { r with
    names := if target ∈ r.names then r.names else target :: r.names
    inode := update r.inode target (r.inode source) }

def RemoteCopy.run (r : RemoteCopy C) : List Bytes → Option (RemoteCopy C)
  | [command, option, dashes, source, target] =>
    if [command, option, dashes] = [lit "ln", lit "--force", lit "--"] then r.link source target else none
  | _ => none

/-- A command is run by the shell of the remote side. -/
def RemoteCopy.perform (r : RemoteCopy C) (command : WorkspaceCommand) : Option (RemoteCopy C) := do
  let _ ← (execute command).toOption
  let argv ← simpleCommand (encodeCommand command.argv)
  r.run argv

def RemoteCopy.performAll (r : RemoteCopy C) (commands : List WorkspaceCommand) :
    Option (RemoteCopy C) := commands.foldlM RemoteCopy.perform r

theorem two_le_nlink {r : RemoteCopy C} {p q : Bytes} (hp : p ∈ r.names) (hq : q ∈ r.names)
    (hpq : p ≠ q) (h : r.inode p = r.inode q) :
    2 ≤ r.nlink (r.inode p) := by
  have hSub : [p, q] ⊆ r.names.filter (r.inode · == r.inode p) := by
    simp [hp, hq, h]
  have hLength := (subperm_of_subset (by simpa using hpq) hSub).length_le
  rw [RemoteCopy.nlink, countP_eq_length_filter]
  simp only [length_cons, length_nil] at hLength
  omega

theorem link_eq {r : RemoteCopy C} {source target : Bytes} (hSource : source ∈ r.names)
    (hTarget : target ∈ r.names) (h : source ≠ target) :
    r.link source target = some { r with inode := update r.inode target (r.inode source) } := by
  have hAccepted : ¬ (target ∈ r.names ∧ r.inode source = r.inode target ∧
      (r.nlink (r.inode source) = 1 ∨ source = target)) := by
    rintro ⟨-, hInode, hOnly | hSame⟩
    · have := two_le_nlink hSource hTarget h hInode
      omega
    · exact h hSame
  rw [RemoteCopy.link, if_neg (not_not_intro hSource), if_neg hAccepted, if_pos hTarget]

end RemoteCopy

section Groups

variable {C : Type}
variable {e : Entry} {groups : Groups} {i : Identity} {p source target : Bytes} {tree : LocalTree C}

def LocalTree.files (tree : LocalTree C) : List Entry := tree.entries.filter (·.kind == .regular)

/-- The names in the tree of a file with several names. -/
def LocalTree.paths (tree : LocalTree C) (i : Identity) : List Bytes :=
  sortOn bytewise (((tree.entries.filter tree.linked).filter (·.identity == i)).map Entry.path)

/-- The groups made of the entries walked so far. -/
structure Grouped (done : List Entry) (groups : Groups) : Prop where
  keys : (groups.map Prod.fst).Nodup
  paths : ∀ g ∈ groups, g.2 = (done.filter (·.identity == g.1)).map Entry.path
  covered : ∀ e ∈ done, e.identity ∈ groups.map Prod.fst

theorem fst_add (e : Entry) (groups : Groups) : (groups.add e).map Prod.fst =
    if e.identity ∈ groups.map Prod.fst then groups.map Prod.fst else groups.map Prod.fst ++ [e.identity] := by
  induction groups with
  | nil => rfl
  | cons g groups ih =>
    obtain ⟨i, paths⟩ := g
    rw [Groups.add]
    split_ifs with hEq hMem hMem
    · rfl
    · exact absurd (by simp [hEq]) hMem
    · have hRest : e.identity ∈ groups.map Prod.fst := by simpa [Ne.symm hEq] using hMem
      rw [map_cons, ih, if_pos hRest]
      rfl
    · have hRest : e.identity ∉ groups.map Prod.fst := fun hRest => hMem (mem_cons_of_mem _ hRest)
      rw [map_cons, ih, if_neg hRest]
      rfl

theorem mem_add (hKeys : (groups.map Prod.fst).Nodup) {g : Identity × List Bytes} (h : g ∈ groups.add e) :
    (g.1 ≠ e.identity ∧ g ∈ groups) ∨ (g.1 = e.identity ∧ g.2 = [e.path] ∧ e.identity ∉ groups.map Prod.fst) ∨
      (g.1 = e.identity ∧ ∃ old ∈ groups, old.1 = e.identity ∧ g.2 = old.2 ++ [e.path]) := by
  induction groups with
  | nil =>
    rw [mem_singleton.mp h]
    exact .inr (.inl ⟨rfl, rfl, by simp⟩)
  | cons first groups ih =>
    obtain ⟨i, paths⟩ := first
    rw [map_cons, nodup_cons] at hKeys
    rw [Groups.add] at h
    split_ifs at h with hEq
    · rcases mem_cons.mp h with rfl | h
      · exact .inr (.inr ⟨hEq, (i, paths), mem_cons_self, hEq, rfl⟩)
      · have hMem : g.1 ∈ groups.map Prod.fst := mem_map_of_mem h
        refine .inl ⟨fun hSame => hKeys.1 ?_, mem_cons_of_mem _ h⟩
        rwa [hSame, ← hEq] at hMem
    · rcases mem_cons.mp h with rfl | h
      · exact .inl ⟨hEq, mem_cons_self⟩
      · rcases ih hKeys.2 h with ⟨hOther, h⟩ | ⟨hSame, hNew, hMissing⟩ | ⟨hSame, old, hOld, hId, hPaths⟩
        · exact .inl ⟨hOther, mem_cons_of_mem _ h⟩
        · refine .inr (.inl ⟨hSame, hNew, ?_⟩)
          rw [map_cons, mem_cons, not_or]
          exact ⟨Ne.symm hEq, hMissing⟩
        · exact .inr (.inr ⟨hSame, old, mem_cons_of_mem _ hOld, hId, hPaths⟩)

theorem Grouped.add {done : List Entry} (h : Grouped done groups) (e : Entry) :
    Grouped (done ++ [e]) (groups.add e) where
  keys := by
    rw [fst_add]
    split_ifs with hMem
    · exact h.keys
    · exact nodup_append.mpr ⟨h.keys, by simp, by simpa using fun a b hab => by grind⟩
  paths := by
    intro g hg
    rw [filter_append, map_append]
    rcases mem_add h.keys hg with ⟨hOther, hg⟩ | ⟨hSame, hPath, hMissing⟩ | ⟨hSame, old, hOld, hId, hPaths⟩
    · rw [h.paths g hg]
      simp [Ne.symm hOther]
    · have hNone : done.filter (·.identity == g.1) = [] := by
        rw [filter_eq_nil_iff]
        intro d hd hEq
        exact hMissing (hSame ▸ beq_iff_eq.mp hEq ▸ h.covered d hd)
      rw [hPath, hNone]
      simp [hSame]
    · rw [hPaths, h.paths old hOld, hId, hSame]
      simp
  covered := by
    intro d hd
    rw [fst_add]
    rcases mem_append.mp hd with hd | hd
    · have hMem := h.covered d hd
      split_ifs
      · exact hMem
      · exact mem_append_left _ hMem
    · rw [mem_singleton.mp hd]
      split_ifs with hMem
      · exact hMem
      · simp

theorem visit_all (tree : LocalTree C) {todo done : List Entry} (hTodo : ∀ e ∈ todo, e ∈ tree.entries) {groups : Groups}
    (h : Grouped (done.filter tree.linked) groups) :
    ∃ result, todo.foldlM tree.visit groups = .ok result ∧ Grouped ((done ++ todo).filter tree.linked) result := by
  induction todo generalizing done groups with
  | nil => exact ⟨groups, rfl, by rwa [append_nil]⟩
  | cons e todo ih =>
    have hRest : ∀ d ∈ todo, d ∈ tree.entries := fun d hd => hTodo d (mem_cons_of_mem _ hd)
    have hAppend : done ++ e :: todo = (done ++ [e]) ++ todo := by simp
    rw [foldlM_cons, hAppend]
    cases hLinked : tree.linked e with
    | false =>
      have hVisit : tree.visit groups e = .ok groups := by simp [LocalTree.visit, hLinked, pure, Except.pure]
      rw [hVisit]
      exact ih hRest (by simpa [filter_append, hLinked] using h)
    | true =>
      have hRegular : e.kind = .regular := by
        rw [LocalTree.linked, Bool.and_eq_true, beq_iff_eq] at hLinked
        exact hLinked.1
      obtain ⟨hDot, hDotDot, hRooted⟩ := tree.relative e (hTodo e mem_cons_self) hRegular
      have hVisit : tree.visit groups e = .ok (groups.add e) := by
        simp [LocalTree.visit, hLinked, refuse, hDot, hDotDot, hRooted, pure, Except.pure, bind, Except.bind]
      rw [hVisit]
      exact ih hRest (by simpa [filter_append, hLinked] using h.add e)

/-- One link to make: the source and the target. -/
def LocalTree.Link (tree : LocalTree C) (source target : Bytes) : Prop :=
  ∃ i, (tree.paths i).head? = some source ∧ target ∈ (tree.paths i).tail

theorem paths_eq (tree : LocalTree C) (h : Grouped (tree.entries.filter tree.linked) groups)
    {g : Identity × List Bytes} (hg : g ∈ groups) : sortOn bytewise g.2 = tree.paths g.1 := by
  rw [h.paths g hg, LocalTree.paths]

theorem exists_group (tree : LocalTree C) (h : Grouped (tree.entries.filter tree.linked) groups)
    (hp : p ∈ tree.paths i) : ∃ g ∈ groups, g.1 = i := by
  obtain ⟨e, he, -⟩ := mem_map.mp ((sortOn_perm _ _).mem_iff.mp hp)
  rw [mem_filter, beq_iff_eq] at he
  exact mem_map.mp (he.2 ▸ h.covered e he.1)

theorem link_iff (tree : LocalTree C) (h : Grouped (tree.entries.filter tree.linked) groups) (source target : Bytes) :
    tree.Link source target ↔ ∃ paths ∈ ordered groups, paths.headD [] = source ∧ target ∈ paths.tail := by
  constructor
  · rintro ⟨i, hHead, hTail⟩
    obtain ⟨g, hg, rfl⟩ := exists_group tree h (mem_of_mem_tail hTail)
    have hPaths := paths_eq tree h hg
    have hTwo : 2 ≤ g.2.length := by
      rw [← (sortOn_perm bytewise g.2).length_eq, hPaths]
      have hPositive := length_pos_of_mem hTail
      rw [length_tail] at hPositive
      omega
    refine ⟨tree.paths g.1, (sortOn_perm _ _).mem_iff.mpr (mem_map.mpr ⟨g, ?_, hPaths⟩), ?_, hTail⟩
    · exact mem_filter.mpr ⟨hg, decide_eq_true hTwo⟩
    · rw [headD_eq_head?_getD, hHead]
      rfl
  · rintro ⟨paths, hPaths, hHead, hTail⟩
    obtain ⟨g, hg, rfl⟩ := mem_map.mp ((sortOn_perm _ _).mem_iff.mp hPaths)
    have hGroup := (mem_filter.mp hg).1
    simp only [paths_eq tree h hGroup] at hHead hTail
    refine ⟨g.1, ?_, hTail⟩
    obtain ⟨first, rest, hCons⟩ := exists_cons_of_ne_nil (ne_nil_of_mem (mem_of_mem_tail hTail))
    rw [hCons] at hHead ⊢
    exact congrArg some hHead

theorem mem_paths : p ∈ tree.paths i ↔ ∃ e ∈ tree.entries, tree.linked e = true ∧ e.identity = i ∧ e.path = p := by
  rw [LocalTree.paths, (sortOn_perm _ _).mem_iff]
  simp only [mem_map, mem_filter, beq_iff_eq, and_assoc]

theorem nodup_paths (tree : LocalTree C) (i : Identity) : (tree.paths i).Nodup := by
  refine (sortOn_perm _ _).nodup_iff.mpr (tree.distinct.sublist ?_)
  exact (filter_sublist.trans filter_sublist).map _

theorem entry_eq {d : Entry} (he : e ∈ tree.entries) (hd : d ∈ tree.entries) (h : e.path = d.path) : e = d :=
  inj_on_of_nodup_map tree.distinct he hd h

theorem identity_eq {j : Identity} (hi : p ∈ tree.paths i) (hj : p ∈ tree.paths j) : i = j := by
  obtain ⟨e, he, -, rfl, rfl⟩ := mem_paths.mp hi
  obtain ⟨d, hd, -, rfl, hPath⟩ := mem_paths.mp hj
  rw [entry_eq he hd hPath.symm]

theorem linked_of_shared {d : Entry} (he : e ∈ tree.files) (hd : d ∈ tree.files) (hPath : e ≠ d)
    (h : e.identity = d.identity) : tree.linked e = true := by
  rw [LocalTree.files, mem_filter] at he hd
  have hSub : [e, d] ⊆ tree.entries.filter fun f => f.kind == .regular && f.identity == e.identity := by
    intro f hf
    simp only [mem_cons, not_mem_nil, or_false] at hf
    rcases hf with rfl | rfl
    · exact mem_filter.mpr ⟨he.1, by simpa using he.2⟩
    · exact mem_filter.mpr ⟨hd.1, by simpa [h] using hd.2⟩
  have hLength := (subperm_of_subset (by simpa using hPath) hSub).length_le
  have hCounted := tree.counted e.identity
  simp only [length_cons, length_nil] at hLength
  rw [LocalTree.linked, he.2, Bool.true_and, decide_eq_true_eq]
  omega

/-- Both names of a link are files of one identity, and differ. -/
theorem LocalTree.Link.files (h : tree.Link source target) :
    source ≠ target ∧ ∃ e ∈ tree.files, ∃ d ∈ tree.files, e.path = source ∧ d.path = target ∧
    e.identity = d.identity := by
  obtain ⟨i, hHead, hTail⟩ := h
  have hNodup := nodup_paths tree i
  have hSource := mem_of_mem_head? hHead
  have hRegular {e : Entry} (he : e ∈ tree.entries) (hLinked : tree.linked e = true) : e ∈ tree.files := by
    rw [LocalTree.linked, Bool.and_eq_true] at hLinked
    exact mem_filter.mpr ⟨he, hLinked.1⟩
  obtain ⟨e, he, hLinked, hId, hPath⟩ := mem_paths.mp hSource
  obtain ⟨d, hd, hLinked', hId', hPath'⟩ := mem_paths.mp (mem_of_mem_tail hTail)
  refine ⟨?_, e, hRegular he hLinked, d, hRegular hd hLinked', hPath, hPath', hId.trans hId'.symm⟩
  rintro rfl
  rcases hPaths : tree.paths i with _ | ⟨first, rest⟩
  · simp [hPaths] at hHead
  · rw [hPaths] at hHead hTail hNodup
    cases hHead
    exact (nodup_cons.mp hNodup).1 hTail

/-- A source is not a target, and a target has one source. -/
theorem LocalTree.Link.source_unique {source' : Bytes} (h : tree.Link source target) (h' : tree.Link source' target) :
    source = source' := by
  obtain ⟨i, hHead, hTail⟩ := h
  obtain ⟨j, hHead', hTail'⟩ := h'
  obtain rfl := identity_eq (mem_of_mem_tail hTail) (mem_of_mem_tail hTail')
  exact Option.some.inj (hHead.symm.trans hHead')

theorem LocalTree.Link.source_not_target {source' : Bytes} (h : tree.Link source target) :
    ¬ tree.Link source' source := by
  intro h'
  obtain ⟨i, hHead, -⟩ := h
  obtain ⟨j, hHead', hTail'⟩ := h'
  obtain rfl := identity_eq (mem_of_mem_head? hHead) (mem_of_mem_tail hTail')
  have hSame := Option.some.inj (hHead.symm.trans hHead')
  exact (LocalTree.Link.files ⟨i, hHead', hTail'⟩).1 hSame.symm

end Groups

section Run

variable {C : Type} {tree : LocalTree C}
variable {r : RemoteCopy C} {request : HardlinkRestoreRequest} {pairs : List (Bytes × Bytes)}

/-- The remote tree has the files of the local one, with their contents. -/
structure Mirrors (tree : LocalTree C) (r : RemoteCopy C) : Prop where
  names : ∀ p, p ∈ r.names ↔ ∃ e ∈ tree.files, e.path = p
  content : ∀ e ∈ tree.files, r.content (r.inode e.path) = tree.content e.identity

/-- What links among files of one identity may change. -/
structure Moved (tree : LocalTree C) (r r' : RemoteCopy C) : Prop where
  names : r'.names = r.names
  content : r'.content = r.content
  inode : ∀ e ∈ tree.files, ∃ d ∈ tree.files, d.identity = e.identity ∧ r'.inode e.path = r.inode d.path

theorem Moved.refl (r : RemoteCopy C) : Moved tree r r := ⟨rfl, rfl, fun e he => ⟨e, he, rfl, rfl⟩⟩

theorem Moved.trans {s t : RemoteCopy C} (h : Moved tree r s) (h' : Moved tree s t) : Moved tree r t where
  names := h'.names.trans h.names
  content := h'.content.trans h.content
  inode := by
    intro e he
    obtain ⟨d, hd, hId, hInode⟩ := h'.inode e he
    obtain ⟨f, hf, hId', hInode'⟩ := h.inode d hd
    exact ⟨f, hf, hId'.trans hId, hInode.trans hInode'⟩

theorem Mirrors.moved {r' : RemoteCopy C} (h : Mirrors tree r) (hMoved : Moved tree r r') : Mirrors tree r' where
  names := by
    rw [hMoved.names]
    exact h.names
  content := by
    intro e he
    obtain ⟨d, hd, hId, hInode⟩ := hMoved.inode e he
    rw [hMoved.content, hInode, h.content d hd, hId]

def links (request : HardlinkRestoreRequest) (pairs : List (Bytes × Bytes)) : List WorkspaceCommand :=
  pairs.map fun link => linkCommand request link.1 link.2

structure Accepted (request : HardlinkRestoreRequest) : Prop where
  workspaceID : request.workspaceID ≠ []
  localRoot : safeHardlinkRoot request.localRoot = true ∧ clean request.localRoot ≠ [slash]
  remoteRoot : safeHardlinkRoot request.remoteRoot = true ∧ clean request.remoteRoot ≠ [slash]
  plain : ∀ value ∈ [request.workspaceID, request.context, request.remoteRoot], unsafeArgument value = false

theorem perform_linkCommand (h : Accepted request) (r : RemoteCopy C) (source target : Bytes) :
    r.perform (linkCommand request source target) = r.link source target := by
  have hPlain := h.plain
  simp only [mem_cons, not_mem_nil, or_false, forall_eq_or_imp, forall_eq] at hPlain
  have hExecute : ∃ argv, execute (linkCommand request source target) = .ok argv := by
    simp [execute, linkCommand, refuse, h.workspaceID, hPlain, pure, Except.pure, bind, Except.bind]
  obtain ⟨argv, hArgv⟩ := hExecute
  rw [RemoteCopy.perform, hArgv, simpleCommand_encodeCommand (by simp [linkCommand])]
  rfl

theorem moved_link {source target : Bytes} (h : tree.Link source target) :
    Moved tree r { r with inode := update r.inode target (r.inode source) } where
  names := rfl
  content := rfl
  inode := by
    intro e he
    obtain ⟨-, d, hd, f, hf, hSource, hTarget, hId⟩ := h.files
    by_cases hPath : e.path = target
    · have hSame : e = f := entry_eq (mem_filter.mp he).1 (mem_filter.mp hf).1 (hPath.trans hTarget.symm)
      exact ⟨d, hd, hSame ▸ hId, by simp [hPath, hSource]⟩
    · exact ⟨e, he, rfl, by simp [hPath]⟩

theorem link_of_mirrors (hMirrors : Mirrors tree r) {source target : Bytes} (h : tree.Link source target) :
    r.link source target = some { r with inode := update r.inode target (r.inode source) } := by
  obtain ⟨hNe, e, he, d, hd, hSource, hTarget, -⟩ := h.files
  exact link_eq ((hMirrors.names _).mpr ⟨e, he, hSource⟩) ((hMirrors.names _).mpr ⟨d, hd, hTarget⟩) hNe

-- A target gets the inode its source had at the start, whatever is linked before or after.
theorem performAll_links (hRequest : Accepted request) (hLinks : ∀ link ∈ pairs, tree.Link link.1 link.2)
    (hMirrors : Mirrors tree r) :
    ∃ r', r.performAll (links request pairs) = some r' ∧ Moved tree r r' ∧
      (∀ p, (∀ link ∈ pairs, link.2 ≠ p) → r'.inode p = r.inode p) ∧
      ∀ link ∈ pairs, r'.inode link.2 = r.inode link.1 := by
  induction pairs generalizing r with
  | nil => exact ⟨r, rfl, .refl r, fun _ _ => rfl, by simp⟩
  | cons first rest ih =>
    obtain ⟨source, target⟩ := first
    have hFirst : tree.Link source target := hLinks _ mem_cons_self
    have hRest : ∀ link ∈ rest, tree.Link link.1 link.2 := fun link hLink => hLinks link (mem_cons_of_mem _ hLink)
    have hMoved := moved_link (r := r) hFirst
    obtain ⟨r', hRun, hMoved', hOther, hTargets⟩ := ih hRest (hMirrors.moved hMoved)
    have hSource {link : Bytes × Bytes} (hLink : tree.Link link.1 link.2) : link.1 ≠ target := by
      rintro rfl
      exact hLink.source_not_target hFirst
    refine ⟨r', ?_, hMoved.trans hMoved', ?_, ?_⟩
    · rw [RemoteCopy.performAll, links, map_cons, foldlM_cons, perform_linkCommand hRequest,
        link_of_mirrors hMirrors hFirst]
      exact hRun
    · intro p hp
      have hNe : p ≠ target := Ne.symm (hp _ mem_cons_self)
      rw [hOther p fun link hLink => hp link (mem_cons_of_mem _ hLink)]
      exact update_of_ne hNe _ _
    · intro link hLink
      rcases mem_cons.mp hLink with rfl | hLink
      · by_cases hAgain : ∃ link ∈ rest, link.2 = target
        · obtain ⟨again, hMem, hTarget⟩ := hAgain
          have hSame : again.1 = source := (hRest again hMem).source_unique (hTarget ▸ hFirst)
          have hInode := hTargets again hMem
          rw [hTarget] at hInode
          exact hInode.trans ((update_of_ne (hSource (hRest again hMem)) _ _).trans (congrArg r.inode hSame))
        · push Not at hAgain
          rw [hOther target hAgain]
          exact update_self ..
      · rw [hTargets link hLink]
        exact update_of_ne (hSource (hRest link hLink)) _ _

theorem restore_eq (h : Accepted request) (tree : LocalTree C) :
    ∃ pairs, restore request (some tree) = .ok (links request pairs) ∧
      ∀ source target, (source, target) ∈ pairs ↔ tree.Link source target := by
  obtain ⟨groups, hWalk, hGrouped⟩ := @visit_all C tree tree.entries [] (fun _ he => he) []
    ⟨by simp, by simp, by simp⟩
  rw [nil_append] at hGrouped
  refine ⟨(ordered groups).flatMap fun paths => paths.tail.map fun target => (paths.headD [], target), ?_, ?_⟩
  · have hLocal := h.localRoot
    have hRemote := h.remoteRoot
    simp [restore, refuse, h.workspaceID, hLocal, hRemote, hWalk, links, map_flatMap, comp_def,
      pure, Except.pure, bind, Except.bind]
  · intro source target
    rw [link_iff tree hGrouped]
    simp only [mem_flatMap, mem_map, Prod.mk.injEq]
    constructor
    · rintro ⟨paths, hPaths, t, ht, hHead, hEq⟩
      exact ⟨paths, hPaths, hHead, hEq ▸ ht⟩
    · rintro ⟨paths, hPaths, hHead, hTail⟩
      exact ⟨paths, hPaths, target, hTail, hHead, rfl⟩

/-- What a complete restoration makes of a remote tree. -/
structure Restored (tree : LocalTree C) (before after : RemoteCopy C) : Prop where
  names : after.names = before.names
  content : ∀ p ∈ before.names, after.content (after.inode p) = before.content (before.inode p)
  shared : ∀ e ∈ tree.files, ∀ d ∈ tree.files, e.identity = d.identity → after.inode e.path = after.inode d.path
  only : (∀ p ∈ before.names, ∀ q ∈ before.names, before.inode p = before.inode q → p = q) →
    ∀ e ∈ tree.files, ∀ d ∈ tree.files, after.inode e.path = after.inode d.path → e.identity = d.identity

theorem inode_of_linked (hPairs : ∀ source target, (source, target) ∈ pairs ↔ tree.Link source target)
    {r' : RemoteCopy C} (hOther : ∀ p, (∀ link ∈ pairs, link.2 ≠ p) → r'.inode p = r.inode p)
    (hTargets : ∀ link ∈ pairs, r'.inode link.2 = r.inode link.1) {i : Identity} {first : Bytes} {rest : List Bytes}
    (hPaths : tree.paths i = first :: rest) {p : Bytes} (hp : p ∈ tree.paths i) : r'.inode p = r.inode first := by
  have hLink (target : Bytes) (hTarget : target ∈ rest) : tree.Link first target :=
      ⟨i, by rw [hPaths]; rfl, by rwa [hPaths]⟩
  rw [hPaths] at hp
  rcases mem_cons.mp hp with rfl | hp
  · refine hOther p fun link hMem hEq => ?_
    obtain ⟨j, hHead, hTail⟩ := (hPairs link.1 link.2).mp hMem
    rw [hEq] at hTail
    obtain rfl := identity_eq (i := i) (by simp [hPaths]) (mem_of_mem_tail hTail)
    rw [hPaths] at hTail
    exact (nodup_cons.mp (hPaths ▸ nodup_paths tree i)).1 hTail
  · exact hTargets (first, p) ((hPairs first p).mpr (hLink p hp))

theorem Moved.restored {before after : RemoteCopy C} (hMirrors : Mirrors tree before) (h : Moved tree before after)
    (hShared : ∀ e ∈ tree.files, ∀ d ∈ tree.files, e.identity = d.identity → after.inode e.path = after.inode d.path) :
    Restored tree before after where
  names := h.names
  content := by
    intro p hp
    obtain ⟨e, he, rfl⟩ := (hMirrors.names p).mp hp
    rw [(hMirrors.moved h).content e he, hMirrors.content e he]
  shared := hShared
  only := by
    intro hNone e he d hd hInode
    obtain ⟨e', he', hId, hFrom⟩ := h.inode e he
    obtain ⟨d', hd', hId', hFrom'⟩ := h.inode d hd
    have hPath := hNone _ ((hMirrors.names _).mpr ⟨e', he', rfl⟩) _ ((hMirrors.names _).mpr ⟨d', hd', rfl⟩)
      (hFrom.symm.trans (hInode.trans hFrom'))
    have hSame := entry_eq (mem_filter.mp he').1 (mem_filter.mp hd').1 hPath
    rw [← hId, ← hId', hSame]

theorem interrupted (hRequest : Accepted request) (hLinks : ∀ link ∈ pairs, tree.Link link.1 link.2) (cuts : List Nat)
    (hMirrors : Mirrors tree r) :
    ∃ r', cuts.foldlM (fun r cut => r.performAll ((links request pairs).take cut)) r = some r' ∧ Moved tree r r' := by
  induction cuts generalizing r with
  | nil => exact ⟨r, rfl, .refl r⟩
  | cons cut cuts ih =>
    have hTaken : ∀ link ∈ pairs.take cut, tree.Link link.1 link.2 := fun link hLink =>
        hLinks link (mem_of_mem_take hLink)
    obtain ⟨r', hRun, hMoved, -⟩ := performAll_links hRequest hTaken hMirrors
    obtain ⟨r'', hRuns, hMoved'⟩ := ih (hMirrors.moved hMoved)
    refine ⟨r'', ?_, hMoved.trans hMoved'⟩
    have hRun' : r.performAll ((links request pairs).take cut) = some r' := by
      rw [links, ← map_take]
      exact hRun
    rw [foldlM_cons, hRun']
    exact hRuns

/-- Each of `cuts` is a run that stops after so many commands. -/
theorem hardlinks_restored (tree : LocalTree C) (request : HardlinkRestoreRequest) (hRequest : Accepted request) :
    ∃ commands, restore request (some tree) = .ok commands ∧
      ∀ (remote : RemoteCopy C), Mirrors tree remote → ∀ cuts : List Nat, ∃ stopped after,
        cuts.foldlM (fun r cut => r.performAll (commands.take cut)) remote = some stopped ∧
        stopped.performAll commands = some after ∧ Restored tree remote after := by
  obtain ⟨pairs, hRestore, hPairs⟩ := restore_eq hRequest tree
  refine ⟨links request pairs, hRestore, fun remote hMirrors cuts => ?_⟩
  have hLinks : ∀ link ∈ pairs, tree.Link link.1 link.2 := fun link hLink => (hPairs _ _).mp hLink
  obtain ⟨stopped, hStopped, hMoved⟩ := interrupted hRequest hLinks cuts hMirrors
  obtain ⟨after, hRun, hMoved', hOther, hTargets⟩ := performAll_links hRequest hLinks (hMirrors.moved hMoved)
  refine ⟨stopped, after, hStopped, hRun, (hMoved.trans hMoved').restored hMirrors ?_⟩
  intro e he d hd hId
  by_cases hSame : e = d
  · rw [hSame]
  · have hPath {e : Entry} (he : e ∈ tree.files) (hLinked : tree.linked e = true) : e.path ∈ tree.paths e.identity :=
      mem_paths.mpr ⟨e, (mem_filter.mp he).1, hLinked, rfl, rfl⟩
    have hFirst := hPath he (linked_of_shared he hd hSame hId)
    have hSecond := hPath hd (linked_of_shared hd he (Ne.symm hSame) hId.symm)
    rw [← hId] at hSecond
    obtain ⟨first, rest, hPaths⟩ := exists_cons_of_ne_nil (ne_nil_of_mem hFirst)
    rw [inode_of_linked hPairs hOther hTargets hPaths hFirst, inode_of_linked hPairs hOther hTargets hPaths hSecond]

/-- A file with two names, and another file. -/
def notes : List Entry := [⟨lit "a", .regular, ⟨1, 7⟩⟩, ⟨lit "b", .regular, ⟨1, 7⟩⟩, ⟨lit "c", .regular, ⟨1, 8⟩⟩]

def notesTree : LocalTree Nat where
  entries := notes
  nlink i := (notes.filter fun e => e.kind == .regular && e.identity == i).length
  content := Identity.inode
  distinct := by decide
  counted _ := le_rfl
  relative := by decide

/-- A copy of the tree without its links. -/
def notesCopy : RemoteCopy Nat := ⟨notes.map Entry.path, fun p => if p = lit "a" then 1 else if p = lit "b" then 2 else
    3, fun i => if i < 3 then 7 else 8, fun _ => 0⟩

/-- The link of the copy is made, after a run that stopped before its command and a complete one. -/
theorem hardlinks_restored_notes : ∃ commands stopped after,
    [0, 1].foldlM (fun r cut => r.performAll (commands.take cut)) notesCopy = some stopped ∧
      stopped.performAll commands = some after ∧ after.inode (lit "a") = after.inode (lit "b") ∧
      after.inode (lit "a") ≠ after.inode (lit "c") := by
  have hRequest : Accepted ⟨lit "w", lit "default", lit "/home/camp", lit "/workspaces/camp"⟩ := by
    constructor <;> decide
  have hMirrors : Mirrors notesTree notesCopy := ⟨fun p => mem_map, by decide⟩
  obtain ⟨commands, -, h⟩ := hardlinks_restored notesTree _ hRequest
  obtain ⟨stopped, after, hStopped, hRun, hRestored⟩ := h notesCopy hMirrors [0, 1]
  refine ⟨commands, stopped, after, hStopped, hRun, ?_, ?_⟩
  · exact hRestored.shared ⟨lit "a", .regular, ⟨1, 7⟩⟩ (by decide) ⟨lit "b", .regular, ⟨1, 7⟩⟩ (by decide) rfl
  · intro hSame
    have hId := hRestored.only (by decide) ⟨lit "a", .regular, ⟨1, 7⟩⟩ (by decide)
        ⟨lit "c", .regular, ⟨1, 8⟩⟩ (by decide) hSame
    exact absurd hId (by decide)

end Run

end Camp.Workspace
