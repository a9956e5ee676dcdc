import Camp.CampKit.Verify

/-!
# Importing a kit

The input is copied and verified, its payloads are extracted to a staging directory, and the
directory takes the name of the destination. The copy is removed after a failure, and only then.
-/

namespace Camp.CampKit

open Wire Wire.Utf8 Program Program.Checks List Option

section Model

/-- The files of a directory by their paths in it. -/
abbrev Files := List (Bytes × Bytes)

inductive Node where
  | directory (files : Files)
  | other (content : Bytes)

structure Disk where
  destination : Option Node
  staging : Option Files
  snapshot : Option Bytes

/-- The errors of the operations for one entry. A copy may fail after some bytes. -/
@[ext]
structure EntryFaults where
  cancelled : Option Error
  read : Option Error
  mkdirAll : Option Error
  openFile : Option Error
  copy : Option (Nat × Error)
  close : Option Error
  chmod : Option Error

def EntryFaults.none : EntryFaults := ⟨.none, .none, .none, .none, .none, .none, .none⟩

/-- The errors of the operations of a call, each of which may fail. `reading` is an error of the
reader, or the cancellation, while the copy is verified. -/
structure Faults where
  openInput : Option Error
  createTemp : Option Error
  copy : Option (Nat × Error)
  sync : Option Error
  closeInput : Option Error
  chmod : Option Error
  seek : Option Error
  reading : Option Error
  rewind : Option Error
  cancelled : Option Error
  mkdirAll : Option Error
  lstat : Option Error
  mkdirTemp : Option Error
  stagingIdentity : Option Error
  beforeExtract : Option Error
  newReader : Option Error
  entry : Nat → EntryFaults
  syncTree : Option Error
  publish : Option Error
  syncParent : Option Error
  lstatStaging : Option Error
  removeStaging : Option Error
  snapshotIdentity : Option Error
  lstatSnapshot : Option Error
  removeSnapshot : Option Error

def Faults.none : Faults :=
  ⟨.none, .none, .none, .none, .none, .none, .none, .none, .none, .none, .none, .none, .none,
    .none, .none, .none, fun _ => .none,
    .none, .none, .none, .none, .none, .none, .none, .none⟩

/-- The operations for the entries of `n` payloads succeed. The manifest is read before them, and
the end of the archive after them. -/
structure Faults.Extracts (faults : Faults) (n : Nat) : Prop where
  reading : ∀ k ≤ n + 1, (faults.entry k).cancelled = .none ∧ (faults.entry k).read = .none
  payloads : ∀ k < n, faults.entry (k + 1) = .none

/-- The operations from the copy to the making of the staging directory succeed. -/
structure Faults.Prepares (faults : Faults) : Prop where
  copy : faults.copy = .none
  sync : faults.sync = .none
  closeInput : faults.closeInput = .none
  chmod : faults.chmod = .none
  seek : faults.seek = .none
  reading : faults.reading = .none
  rewind : faults.rewind = .none
  cancelled : faults.cancelled = .none
  mkdirAll : faults.mkdirAll = .none
  lstat : faults.lstat = .none
  mkdirTemp : faults.mkdirTemp = .none

/-- The operations from there to the publication of `n` payloads succeed. -/
structure Faults.Publishes (faults : Faults) (n : Nat) : Prop where
  beforeExtract : faults.beforeExtract = .none
  newReader : faults.newReader = .none
  extracts : faults.Extracts n
  syncTree : faults.syncTree = .none
  publish : faults.publish = .none

def report : Option Error → Checked
  | none => .ok ()
  | some e => .error e

def existsError : Error := .message "file already exists" []

def findPayload (payloads : List PayloadIdentity) (path : Bytes) :
    Option PayloadIdentity := payloads.find? (·.path == path)

/-- The files with the payload, or with what is there of it, and what follows it: the bytes of the
entry that are left, and the stream. -/
def extractPayload (faults : EntryFaults) (m : Manifest) (header : Header) (t : Stream) (files : Files) :
    Files × Except Error (Nat × Stream) :=
  if header.typeflag != 48 then (files, .error (.message "verified CampKit payload %q is not regular" [header.name]))
  else
    match findPayload (elements m.payloads) header.name with
    | none => (files, .error (.message "verified CampKit payload %q is not declared" [header.name]))
    | some payload =>
      match faults.mkdirAll.or faults.openFile with
      | some e => (files, .error e)
      | none =>
        -- The file is opened only if it can be created.
        if (files.map Prod.fst).contains header.name then (files, .error existsError)
        else
          let size := min header.size payload.length
          match faults.copy with
          | some (n, e) => (files ++ [(header.name, t.content.take (min n size))], .error e)
          | none =>
            let files := files ++ [(header.name, t.content.take size)]
            if t.content.length < size then (files, .error (.sentinel .unexpectedEOF))
            else
              match faults.close.or faults.chmod with
              | some e => (files, .error e)
              | none => (files, .ok (header.size - size, { t with content := t.content.drop size }))

variable (parse : Bytes → Option Header)

def extractEntries (faults : Nat → EntryFaults) (m : Manifest) : Nat → Nat → Nat → Stream → Files → Files × Option Error
  | 0, _, _, _, files => (files, some (.sentinel .reader))
  | fuel + 1, k, pad, t, files =>
    match (faults k).cancelled with
    | some e => (files, some e)
    | none =>
      match (report (faults k).read >>= fun _ => next parse pad t) with
      | .error e => (files, some (.wrap "read verified CampKit: %w" [] e))
      | .ok (none, _) => (files, none)
      | .ok (some header, t) =>
        if header.name = lit "manifest.json" then extractEntries faults m fuel (k + 1)
          (header.size + padding header.size) t files
        else
          match extractPayload (faults k) m header t files with
          | (files, .error e) => (files, some e)
          | (files, .ok (left, t)) => extractEntries faults m fuel (k + 1) (left + padding header.size) t files

/-- An entry takes a block at least, so there are fewer of them than bytes. -/
def extractVerified (faults : Faults) (m : Manifest) (t : Stream) : Files × Option Error :=
  match faults.newReader with
  | some e => ([], some e)
  | none => extractEntries parse faults.entry m (t.content.length + 1) 0 0 t []

structure ImportResult where
  manifest : Manifest
  verification : KitVerification
  destination : Bytes

/-- The path is looked at twice, for its identity and for the comparison with it. -/
def removeOwnedPath (faults : Faults) (d : Disk) : Disk :=
  if faults.snapshotIdentity.isNone && faults.lstatSnapshot.isNone &&
    faults.removeSnapshot.isNone then { d with snapshot := none } else d

def removeOwnedTree (faults : Faults) (d : Disk) : Disk :=
  if faults.lstatStaging.isNone && faults.removeStaging.isNone then { d with staging := none } else d

variable (faults : Faults) (evaluator : Option TrustEvaluator) (input : Input)

def opened (path destination : Bytes) : Checked := do
  refuse (path.isEmpty || destination.isEmpty) (.message "CampKit input and destination are required" [])
  report faults.openInput
  report faults.createTemp

/-- From the copy to the making of the staging directory. -/
def prepare (before : Option Node) : Except Error KitVerification := do
  report (faults.copy.map Prod.snd)
  report faults.sync
  report faults.closeInput
  report faults.chmod
  report faults.seek
  report faults.reading
  let v ← verify parse defaultArchiveLimits evaluator input
  report faults.rewind
  report faults.cancelled
  report faults.mkdirAll
  report faults.lstat
  refuse before.isSome (.wrap "CampKit destination already exists: %w" [] existsError)
  report faults.mkdirTemp
  pure v

/-- The staging directory as it is to be published, or the error on the way. Nothing has come to
the destination since it was looked at. -/
def stage (m : Manifest) : Files × Option Error :=
  match faults.beforeExtract with
  | some e => ([], some e)
  | none =>
    match extractVerified parse faults m input.stream with
    | (files, some e) => (files, some e)
    | (files, none) => (files, faults.syncTree.or (faults.publish.map (.wrap "publish imported CampKit: %w" [])))

def importStaged (destination : Bytes) (v : KitVerification) (d : Disk) : Except Error ImportResult × Disk :=
  match faults.stagingIdentity with
  | some e => (.error e, { d with staging := some [] })
  | none =>
    match stage parse faults input v.manifest with
    | (files, some e) => (.error e, removeOwnedTree faults { d with staging := some files })
    | (files, none) =>
      let d := { d with destination := some (.directory files), staging := none }
      match faults.syncParent with
      | some e => (.error e, d)
      | none => (.ok ⟨v.manifest, v, destination⟩, d)

def snapshotBytes : Bytes :=
  match faults.copy with
  | some (n, _) => input.source.bytes.take n
  | none => input.source.bytes

def importSnapshot (destination : Bytes) (d : Disk) : Except Error ImportResult × Disk :=
  match prepare parse faults evaluator input d.destination with
  | .error e => (.error e, d)
  | .ok v => importStaged parse faults input destination v d

def importFile (path destination : Bytes) (before : Option Node) : Except Error ImportResult × Disk :=
  match opened faults path destination with
  | .error e => (.error e, ⟨before, none, none⟩)
  | .ok () =>
    match importSnapshot parse faults evaluator input destination ⟨before, none, some (snapshotBytes faults input)⟩ with
    | (.error e, d) => (.error e, removeOwnedPath faults d)
    -- The flag of the cleanup is cleared last.
    | (.ok result, d) => (.ok result, d)

end Model

section Extraction

variable {parse : Bytes → Option Header} {limits : ArchiveLimits} {m : Manifest} {faults : Nat → EntryFaults}
variable {paths : List Bytes} {p : Progress} {t : Stream} {files : Files} {pad : Nat}
variable {path : Bytes} {p' : Progress} {t' : Stream} {fuel k : Nat}

theorem findPayload_of_byPath {l : List PayloadIdentity} (hPaths : (l.map (·.path)).Nodup) {payload : PayloadIdentity}
    (h : byPath l path = some payload) : findPayload l path = some payload := by
  have hPath : payload.path = path := by simpa using List.find?_some h
  have hMem : payload ∈ l := mem_reverse.mp (mem_of_find?_eq_some h)
  cases hFound : findPayload l path with
  | none => exact absurd hPath (by simpa using List.find?_eq_none.mp hFound payload hMem)
  | some other =>
    have hOther : other.path = path := by simpa using List.find?_some hFound
    rw [inj_on_of_nodup_map hPaths (mem_of_find?_eq_some hFound) hMem (hOther.trans hPath.symm)]

/-- The padding may be skipped with the rest of the entry. -/
theorem next_add (n pad : Nat) (t : Stream) :
    next parse (n + pad) t = next parse pad { t with content := t.content.drop n } := by
  unfold next ended
  simp only [drop_drop]

/-- The body that the manifest declares for a path. -/
def Declared (m : Manifest) (entry : Bytes × Bytes) : Prop :=
  ∃ payload, byPath (elements m.payloads) entry.1 = some payload ∧ entry.2.length = payload.length ∧
    sha256Hex entry.2 = payload.sha256

theorem EntryFaults.eq_none_iff {faults : EntryFaults} :
    faults = .none ↔ (faults.cancelled = .none ∧ faults.read = .none) ∧
    faults.mkdirAll.or faults.openFile = .none ∧ faults.copy = .none ∧ faults.close.or faults.chmod = .none := by
  rw [EntryFaults.none, EntryFaults.ext_iff, or_eq_none_iff, or_eq_none_iff]
  tauto

/-- The payload is there as it is declared, or an operation fails, or the file is there already. -/
theorem extractPayload_cases {header : Header} {p p' : Progress} {t t' : Stream} {files : Files} {faults : EntryFaults}
    (hPaths : ((elements m.payloads).map (·.path)).Nodup) (h : verifyPayload limits m header p t = .ok (p', t')) :
    (∃ left e, extractPayload faults m header t files = (left, .error e) ∧
      (faults = .none → header.name ∈ files.map Prod.fst)) ∨
    ∃ body, extractPayload faults m header t files = (files ++ [(header.name, body)], .ok (0, t')) ∧
      Declared m (header.name, body) ∧ (faults.cancelled = .none → faults.read = .none → faults = .none) := by
  obtain ⟨payload, body, hPayload, hBody, hHeader, hSize, hLength, hDigest, -, hSound⟩ := verifyPayload_eq_ok h
  have hRegular : (header.typeflag != 48) = false := by
    simp only [validateOuterHeader, refuse_eq_ok, Bool.or_eq_false_iff] at hHeader
    exact hHeader.1.1.1.1.1.1.1.1.1.1.1.1.1.2
  have hMin : min body.length payload.length = body.length := by omega
  have hTake : t.content.take body.length = body := by rw [hBody, take_left]
  have hDrop : ({ t with content := t.content.drop body.length } : Stream) = t' := by
    rw [hBody, drop_left, ← hSound]
  have hEnough : ¬ t.content.length < body.length := by
    rw [hBody, length_append]
    omega
  rw [EntryFaults.eq_none_iff, extractPayload, hRegular, findPayload_of_byPath hPaths hPayload]
  simp only [Bool.false_eq_true, if_false, hMin, hTake, hDrop, hEnough, hSize, Nat.sub_self]
  cases hOpen : faults.mkdirAll.or faults.openFile with
  | some e => exact .inl ⟨_, e, rfl, fun hNone => absurd hNone.2.1 (some_ne_none e)⟩
  | none =>
    dsimp only
    split_ifs with hExists
    · exact .inl ⟨_, _, rfl, fun _ => by simpa using hExists⟩
    · cases hCopy : faults.copy with
      | some fault => exact .inl ⟨_, fault.2, rfl, fun hNone => absurd hNone.2.2.1 (some_ne_none fault)⟩
      | none =>
        dsimp only
        cases hClose : faults.close.or faults.chmod with
        | some e => exact .inl ⟨_, e, rfl, fun hNone => absurd hNone.2.2.2 (some_ne_none e)⟩
        | none => exact .inr ⟨body, rfl, ⟨payload, hPayload, hLength, hDigest⟩, fun hCancelled hRead =>
            ⟨⟨hCancelled, hRead⟩, rfl, rfl, rfl⟩⟩

/-- A round on an entry that was verified: it fails, or the payload is there as it is declared. -/
theorem extractEntries_step {header : Header} {p p' : Progress} {t t₁ t' : Stream} {files : Files} {fuel k pad : Nat}
    (hPaths : ((elements m.payloads).map (·.path)).Nodup) (hName : header.name ≠ lit "manifest.json")
    (hNext : next parse pad t = .ok (some header, t₁)) (h : verifyPayload limits m header p t₁ = .ok (p', t')) :
    (∃ left e, extractEntries parse faults m (fuel + 1) k pad t files = (left, some e) ∧
      (faults k = .none → header.name ∈ files.map Prod.fst)) ∨
    faults k = .none ∧ ∃ body, Declared m (header.name, body) ∧ extractEntries parse faults m (fuel + 1) k pad t files =
      extractEntries parse faults m fuel (k + 1) (padding header.size) t' (files ++ [(header.name, body)]) := by
  rw [extractEntries, hNext]
  cases hCancelled : (faults k).cancelled with
  | some e =>
    refine .inl ⟨files, e, rfl, fun hNone => ?_⟩
    rw [hNone] at hCancelled
    cases hCancelled
  | none =>
    cases hRead : (faults k).read with
    | some e =>
      refine .inl ⟨files, _, rfl, fun hNone => ?_⟩
      rw [hNone] at hRead
      cases hRead
    | none =>
      simp only [report, bind, Except.bind, if_neg hName]
      obtain ⟨left, e, hFailed, hFault⟩ | ⟨body, hDone, hDeclared, hNone⟩ :=
        @extractPayload_cases limits m header p p' t₁ t' files (faults k) hPaths h
      · rw [hFailed]
        exact .inl ⟨left, e, rfl, hFault⟩
      · rw [hDone]
        refine .inr ⟨hNone hCancelled hRead, body, hDeclared, ?_⟩
        dsimp only
        rw [Nat.zero_add]

theorem extractEntries_spec (hPaths : ((elements m.payloads).map (·.path)).Nodup)
    (hNames : lit "manifest.json" ∉ paths) (h : verifyEntries parse limits m paths pad p t = .ok (p', t'))
    (hAll : p'.verified.length = p.verified.length + paths.length)
    (hDone : (extractEntries parse faults m fuel k pad t files).2 = none) :
    ∃ added : Files, (extractEntries parse faults m fuel k pad t files).1 = files ++ added ∧
      added.map Prod.fst = paths ∧
      ∀ e ∈ added, Declared m e := by
  induction paths generalizing p t files fuel k pad with
  | nil =>
    obtain ⟨hNext, -⟩ | ⟨header, t₁, paths₁, p₁, t₂, hPaths, -⟩ := verifyEntries_cases h
    · cases fuel with
      | zero => cases hDone
      | succ fuel =>
        refine ⟨[], ?_, rfl, nofun⟩
        rw [extractEntries, hNext] at hDone ⊢
        rw [append_nil]
        split at hDone
        · cases hDone
        · cases hRead : (faults k).read with
          | some e =>
            rw [hRead] at hDone
            cases hDone
          | none => rfl
    · cases hPaths
  | cons path paths ih =>
    obtain ⟨-, rfl⟩ | ⟨header, t₁, paths₁, p₁, t₂, hEq, hNext, hVerify, hRest⟩ := verifyEntries_cases h
    · rw [length_cons] at hAll
      omega
    · cases hEq
      rw [mem_cons, not_or] at hNames
      rw [length_cons] at hAll
      obtain ⟨-, -, -, -, -, -, -, -, hOne, -⟩ := verifyPayload_eq_ok hVerify
      cases fuel with
      | zero => cases hDone
      | succ fuel =>
        obtain ⟨left, e, hFailed, -⟩ | ⟨-, body, hDeclared, hStep⟩ :=
            @extractEntries_step parse limits m faults header p p₁ t t₁ t₂
          files fuel k pad hPaths (Ne.symm hNames.1) hNext hVerify
        · rw [hFailed] at hDone
          cases hDone
        · rw [hStep] at hDone ⊢
          obtain ⟨added, hFiles, hAdded, hGood⟩ := ih hNames.2 hRest (by omega) hDone
          refine ⟨(header.name, body) :: added, ?_, by rw [map_cons, hAdded], ?_⟩
          · rw [hFiles, append_assoc, singleton_append]
          · exact forall_mem_cons.mpr ⟨hDeclared, hGood⟩

/-- The extraction of what was verified fails only if an operation does: one for a payload, or the
reading after the last of them. -/
theorem extractEntries_done_iff (hPaths : ((elements m.payloads).map (·.path)).Nodup)
    (hNames : lit "manifest.json" ∉ paths) (h : verifyEntries parse limits m paths pad p t = .ok (p', t'))
    (hAll : p'.verified.length = p.verified.length + paths.length) (hFresh : (files.map Prod.fst ++ paths).Nodup)
    (hFuel : paths.length < fuel) :
    (extractEntries parse faults m fuel k pad t files).2 = none ↔ (∀ i < paths.length, faults (k + i) = .none) ∧
      (faults (k + paths.length)).cancelled = .none ∧ (faults (k + paths.length)).read = .none := by
  obtain ⟨fuel, rfl⟩ : ∃ rest, fuel = rest + 1 := ⟨fuel - 1, by omega⟩
  induction paths generalizing p t files fuel k pad with
  | nil =>
    obtain ⟨hNext, -⟩ | ⟨header, t₁, paths₁, p₁, t₂, hPaths, -⟩ := verifyEntries_cases h
    · rw [extractEntries, hNext, length_nil, Nat.add_zero]
      cases hCancelled : (faults k).cancelled with
      | some e => simp
      | none =>
        cases hRead : (faults k).read with
        | some e => simp [report, bind, Except.bind]
        | none => simp [report, bind, Except.bind]
    · cases hPaths
  | cons path paths ih =>
    obtain ⟨-, rfl⟩ | ⟨header, t₁, paths₁, p₁, t₂, hEq, hNext, hVerify, hRest⟩ := verifyEntries_cases h
    · rw [length_cons] at hAll
      omega
    cases hEq
    rw [mem_cons, not_or] at hNames
    rw [length_cons] at hAll hFuel ⊢
    obtain ⟨-, -, -, -, -, -, -, -, hOne, -⟩ := verifyPayload_eq_ok hVerify
    obtain ⟨left, e, hFailed, hOld⟩ | ⟨hNone, body, -, hStep⟩ :=
        @extractEntries_step parse limits m faults header p p₁ t t₁ t₂ files
      fuel k pad hPaths (Ne.symm hNames.1) hNext hVerify
    · rw [hFailed]
      refine iff_of_false (some_ne_none e) fun hFaults => ?_
      exact absurd rfl ((nodup_append.mp hFresh).2.2 _ (hOld (hFaults.1 0 (Nat.succ_pos _))) _ mem_cons_self)
    · obtain ⟨fuel, rfl⟩ : ∃ rest, fuel = rest + 1 := ⟨fuel - 1, by omega⟩
      rw [hStep, ih hNames.2 hRest (by omega) (by simpa using hFresh) fuel (by omega), Nat.forall_lt_succ_left']
      simp only [Nat.add_right_comm k 1, Nat.add_assoc, Nat.add_zero, hNone, true_and]

theorem nodup_paths (h : Valid m) : ((elements m.payloads).map (·.path)).Nodup :=
  pairwise_map.mpr (h.payloads.apart.imp And.left)

theorem mem_payloadPaths : path ∈ payloadPaths m ↔ ∃ payload ∈ elements m.payloads, payload.path = path := by
  rw [payloadPaths, (sortBy_perm _ _).mem_iff, List.mem_map]

theorem manifest_notMem_paths (h : Valid m) : lit "manifest.json" ∉ payloadPaths m := by
  intro hMem
  obtain ⟨payload, hPayload, hPath⟩ := mem_payloadPaths.mp hMem
  have hValid := h.payloads.valid payload hPayload
  simp only [validatePayload, andThen_eq_ok, about_eq_ok] at hValid
  have hWrong := hValid.2.2.2.1
  rw [hPath] at hWrong
  revert hWrong
  decide

/-- The directory holds the declared payloads and no other file. -/
structure Holds (m : Manifest) (files : Files) : Prop where
  paths : (files.map Prod.fst).Perm ((elements m.payloads).map (·.path))
  bodies : ∀ payload ∈ elements m.payloads, ∃ body, (payload.path, body) ∈ files ∧ body.length = payload.length ∧
    sha256Hex body = payload.sha256

theorem holds_of_declared (h : Valid m) (hPaths : files.map Prod.fst = payloadPaths m)
    (hDeclared : ∀ e ∈ files, Declared m e) : Holds m files := by
  refine ⟨hPaths ▸ sortBy_perm _ _, fun payload hPayload => ?_⟩
  have hMem : payload.path ∈ files.map Prod.fst := hPaths ▸ mem_payloadPaths.mpr ⟨payload, hPayload, rfl⟩
  obtain ⟨⟨path, body⟩, hEntry, rfl⟩ := mem_map.mp hMem
  obtain ⟨found, hFound, hLength, hDigest⟩ := hDeclared _ hEntry
  have hPath : found.path = payload.path := by simpa using List.find?_some hFound
  obtain rfl := inj_on_of_nodup_map (nodup_paths h)
      (mem_reverse.mp (mem_of_find?_eq_some hFound)) hPayload hPath
  exact ⟨body, hEntry, hLength, hDigest⟩

theorem Laid.length_le {ending : Nat → Bytes → Prop} {s : Bytes} (h : Laid parse m ending paths pad s) :
    paths.length ≤ s.length := by
  induction h with
  | nil => exact Nat.zero_le _
  | cons hPayload hHeader hSize hDigest hRest ih =>
    simp only [length_append, length_cons, hHeader.1]
    omega

/-- What `verifyStream` accepts: a manifest, and after it all the entries of its payloads. -/
theorem verifyStream_entries (h : verifyStream parse limits t = .ok (m, p)) :
    Valid m ∧ ∃ header t₁ t₂, next parse 0 t = .ok (some header, t₁) ∧ header.name = lit "manifest.json" ∧
      verifyEntries parse limits m (payloadPaths m) (padding header.size) ⟨[], [], []⟩
      { t₁ with content := t₁.content.drop header.size } =
        .ok (p, t₂) ∧
      p.verified.length = (payloadPaths m).length ∧ (payloadPaths m).length < t.content.length := by
  obtain ⟨-, block, body, s, rest, hContent, hBlock, hBody, -, hLaid⟩ := verifyStream_eq_ok h
  obtain ⟨size, t₁, t₂, hManifest, hEntries, hCount, -⟩ := verifyStream_cases h
  obtain ⟨header, t₀, read, hNext, hName, -, hRead, -, rfl⟩ := readManifest_cases hManifest
  obtain ⟨hSplit, hLength, hSound⟩ := readExactBounded_eq_ok hRead
  have hRoom : (payloadPaths m).length < t.content.length := by
    have hTape := hLaid.length_le
    rw [hContent, length_append, length_append, hBlock.1]
    omega
  have hDropped : ({ t₀ with content := t₀.content.drop header.size } : Stream) = t₁ := by
    rw [hSplit, ← hLength, drop_left, ← hSound]
  refine ⟨(marshalCanonical_eq_ok.mp hBody).1, header, t₀, t₂, hNext, hName, ?_, hCount, hRoom⟩
  rw [hDropped]
  exact hEntries

theorem extractEntries_add (fuel k n pad : Nat) (t : Stream) (files : Files) :
    extractEntries parse faults m fuel k (n + pad) t files =
    extractEntries parse faults m fuel k pad { t with content := t.content.drop n } files := by
  cases fuel with
  | zero => rfl
  | succ fuel => rw [extractEntries, extractEntries, next_add]

/-- The first round skips the manifest. -/
theorem extractVerified_manifest {faults : Faults} {t t₁ : Stream} {header : Header}
    (hNext : next parse 0 t = .ok (some header, t₁))
    (hName : header.name = lit "manifest.json") :
    (∃ left e, extractVerified parse faults m t = (left, some e) ∧
      ¬ (faults.newReader = .none ∧ (faults.entry 0).cancelled = .none ∧ (faults.entry 0).read = .none)) ∨
    (faults.newReader = .none ∧ (faults.entry 0).cancelled = .none ∧ (faults.entry 0).read = .none) ∧
      extractVerified parse faults m t =
        extractEntries parse faults.entry m t.content.length 1 (padding header.size)
        { t₁ with content := t₁.content.drop header.size } [] := by
  unfold extractVerified
  cases hReader : faults.newReader with
  | some e => exact .inl ⟨_, e, rfl, fun hNone => some_ne_none e hNone.1⟩
  | none =>
    dsimp only
    rw [extractEntries, hNext]
    cases hCancelled : (faults.entry 0).cancelled with
    | some e => exact .inl ⟨_, e, rfl, fun hNone => some_ne_none e hNone.2.1⟩
    | none =>
      cases hRead : (faults.entry 0).read with
      | some e => exact .inl ⟨_, _, rfl, fun hNone => some_ne_none e hNone.2.2⟩
      | none =>
        refine .inr ⟨⟨rfl, rfl, rfl⟩, ?_⟩
        simp only [report, bind, Except.bind, if_pos hName]
        exact extractEntries_add _ _ _ _ _ _

theorem extractVerified_holds {faults : Faults} {p : Progress} {t : Stream}
    (h : verifyStream parse limits t = .ok (m, p))
    (hDone : (extractVerified parse faults m t).2 = none) : Holds m (extractVerified parse faults m t).1 := by
  obtain ⟨hValid, header, t₁, t₂, hNext, hName, hEntries, hCount, -⟩ := verifyStream_entries h
  obtain ⟨left, e, hFailed, -⟩ | ⟨-, hStep⟩ := @extractVerified_manifest parse m faults t t₁ header hNext hName
  · rw [hFailed] at hDone
    cases hDone
  · rw [hStep] at hDone ⊢
    obtain ⟨added, hFiles, hAdded, hDeclared⟩ :=
      extractEntries_spec (nodup_paths hValid) (manifest_notMem_paths hValid) hEntries (by simpa using hCount) hDone
    rw [hFiles, nil_append]
    exact holds_of_declared hValid hAdded hDeclared

theorem extractVerified_done_iff {faults : Faults} {p : Progress} {t : Stream}
    (h : verifyStream parse limits t = .ok (m, p)) :
    (extractVerified parse faults m t).2 = none ↔ faults.newReader = .none ∧
    faults.Extracts (elements m.payloads).length := by
  obtain ⟨hValid, header, t₁, t₂, hNext, hName, hEntries, hCount, hRoom⟩ := verifyStream_entries h
  have hLength : (payloadPaths m).length = (elements m.payloads).length := by
    rw [payloadPaths, (sortBy_perm _ _).length_eq, length_map]
  obtain ⟨left, e, hFailed, hFault⟩ | ⟨hFirst, hStep⟩ :=
      @extractVerified_manifest parse m faults t t₁ header hNext hName
  · rw [hFailed]
    refine iff_of_false (some_ne_none e) fun hNone => hFault ⟨hNone.1, ?_⟩
    exact hNone.2.reading 0 (Nat.zero_le _)
  · have hFresh : (([] : Files).map Prod.fst ++ payloadPaths m).Nodup := by
      rw [map_nil, nil_append, payloadPaths]
      exact (sortBy_perm _ _).nodup_iff.mpr (nodup_paths hValid)
    rw [hStep, extractEntries_done_iff (nodup_paths hValid) (manifest_notMem_paths hValid) hEntries
      (by simpa using hCount) hFresh hRoom,
      hLength]
    constructor
    · rintro ⟨hPayloads, hLast⟩
      refine ⟨hFirst.1, fun k hk => ?_, fun k hk => by rw [Nat.add_comm]; exact hPayloads k hk⟩
      rcases Nat.eq_zero_or_pos k with rfl | hPos
      · exact hFirst.2
      rcases Nat.lt_or_eq_of_le hk with hLt | rfl
      · have hNone := hPayloads (k - 1) (by omega)
        rw [Nat.add_sub_cancel' hPos] at hNone
        exact ⟨by rw [hNone]; rfl, by rw [hNone]; rfl⟩
      · rw [Nat.add_comm]
        exact hLast
    · rintro ⟨-, hReading, hPayloads⟩
      refine ⟨fun k hk => by rw [Nat.add_comm]; exact hPayloads k hk, ?_⟩
      rw [Nat.add_comm]
      exact hReading _ le_rfl

end Extraction

section Import

variable (parse : Bytes → Option Header) (faults : Faults) (evaluator : Option TrustEvaluator)
    (input : Input) (path destination : Bytes)
  (before : Option Node)
variable {v : KitVerification} {e : Error} {d : Disk}
variable {d' : Disk}

/-- All or nothing, and nothing else is left behind. -/
structure AllOrNothing (before : Option Node) (outcome : Except Error ImportResult × Disk) : Prop where
  failed : ∀ e, outcome.1 = .error e → outcome.2.destination = before
  done : ∀ r, outcome.1 = .ok r → ∃ files, outcome.2.destination = some (.directory files) ∧ Holds r.manifest files
  staging : outcome.2.staging = none
  snapshot : outcome.2.snapshot = none

/-- The copy is removed when it comes to that. -/
structure Faults.RemovesCopy (faults : Faults) : Prop where
  identity : faults.snapshotIdentity = .none
  lstat : faults.lstatSnapshot = .none
  remove : faults.removeSnapshot = .none

structure Faults.RemovesStaging (faults : Faults) : Prop where
  identity : faults.stagingIdentity = .none
  lstat : faults.lstatStaging = .none
  remove : faults.removeStaging = .none

variable {parse faults evaluator input path destination before}

theorem removeOwnedPath_snapshot (d : Disk) (h : d.snapshot ≠ none) :
    (removeOwnedPath faults d).snapshot = none ↔ faults.RemovesCopy := by
  unfold removeOwnedPath
  split_ifs with hRemoves
  · simp only [Bool.and_eq_true, isNone_iff_eq_none] at hRemoves
    exact iff_of_true rfl ⟨hRemoves.1.1, hRemoves.1.2, hRemoves.2⟩
  · refine iff_of_false h fun hCopy => hRemoves ?_
    rw [hCopy.identity, hCopy.lstat, hCopy.remove]
    rfl

theorem removeOwnedPath_frame (d : Disk) :
    (removeOwnedPath faults d).destination = d.destination ∧ (removeOwnedPath faults d).staging = d.staging := by
  unfold removeOwnedPath
  split_ifs <;> exact ⟨rfl, rfl⟩

theorem removeOwnedTree_staging (d : Disk) (h : d.staging ≠ none) :
    (removeOwnedTree faults d).staging = none ↔ faults.lstatStaging = .none ∧ faults.removeStaging = .none := by
  unfold removeOwnedTree
  split_ifs with hRemoves
  · simp only [Bool.and_eq_true, isNone_iff_eq_none] at hRemoves
    exact iff_of_true rfl hRemoves
  · refine iff_of_false h fun hTree => hRemoves ?_
    rw [hTree.1, hTree.2]
    rfl

theorem removeOwnedTree_frame (d : Disk) :
    (removeOwnedTree faults d).destination = d.destination ∧ (removeOwnedTree faults d).snapshot = d.snapshot := by
  unfold removeOwnedTree
  split_ifs <;> exact ⟨rfl, rfl⟩

theorem report_eq_ok {fault : Option Error} : report fault = .ok () ↔ fault = none := by
  cases fault with
  | none => exact iff_of_true rfl rfl
  | some e => exact iff_of_false (fun h => by cases h) (some_ne_none e)

theorem opened_eq_ok : opened faults path destination = .ok () ↔
    path ≠ [] ∧ destination ≠ [] ∧ faults.openInput = .none ∧ faults.createTemp = .none := by
  simp only [opened, andThen_eq_ok, refuse_eq_ok, report_eq_ok, Bool.or_eq_false_iff,
    isEmpty_eq_false_iff, and_assoc]

theorem prepare_eq_ok : prepare parse faults evaluator input before = .ok v ↔
    verify parse defaultArchiveLimits evaluator input = .ok v ∧ before = none ∧ faults.Prepares := by
  constructor
  · intro h
    simp only [prepare, andThen_eq_ok, report_eq_ok, map_eq_none_iff] at h
    obtain ⟨hCopy, hSync, hClose, hChmod, hSeek, hReading, h⟩ := h
    obtain ⟨v', hVerify, h⟩ := Checks.bind_eq_ok.mp h
    simp only [andThen_eq_ok, refuse_eq_ok, report_eq_ok, isSome_eq_false_iff, isNone_iff_eq_none] at h
    obtain ⟨hRewind, hCancelled, hMkdir, hLstat, hBefore, hTemp, h⟩ := h
    cases h
    exact ⟨hVerify, hBefore, hCopy, hSync, hClose, hChmod, hSeek, hReading, hRewind, hCancelled, hMkdir, hLstat, hTemp⟩
  · rintro ⟨hVerify, rfl, h⟩
    rw [prepare, h.copy, h.sync, h.closeInput, h.chmod, h.seek, h.reading, hVerify, h.rewind,
      h.cancelled, h.mkdirAll, h.lstat,
      h.mkdirTemp]
    rfl

theorem verifyStream_of_verify {limits : ArchiveLimits} (h : verify parse limits evaluator input = .ok v) :
    ∃ p, verifyStream parse limits input.stream = .ok (v.manifest, p) := by
  obtain ⟨⟨m, p⟩, hStream, h⟩ := Checks.bind_eq_ok.mp h
  rw [andThen_eq_ok] at h
  obtain ⟨trust, -, h⟩ := Checks.bind_eq_ok.mp h.2
  cases h
  exact ⟨p, hStream⟩

theorem stage_holds (h : prepare parse faults evaluator input before = .ok v)
    (hDone : (stage parse faults input v.manifest).2 = none) :
    Holds v.manifest (stage parse faults input v.manifest).1 := by
  obtain ⟨p, hStream⟩ := verifyStream_of_verify (prepare_eq_ok.mp h).1
  unfold stage at hDone ⊢
  split at hDone
  · cases hDone
  · split at hDone
    · cases hDone
    · rename_i hExtract
      have hFiles := @extractVerified_holds parse defaultArchiveLimits v.manifest faults p
          input.stream hStream (by rw [hExtract])
      rw [hExtract] at hFiles
      simpa only [hExtract] using hFiles

theorem stage_done_iff (h : verify parse defaultArchiveLimits evaluator input = .ok v) :
    (stage parse faults input v.manifest).2 = none ↔ faults.Publishes (elements v.manifest.payloads).length := by
  obtain ⟨p, hStream⟩ := verifyStream_of_verify h
  have hExtract := @extractVerified_done_iff parse _ _ faults p _ hStream
  unfold stage
  cases hBefore : faults.beforeExtract with
  | some e =>
    refine iff_of_false (some_ne_none e) fun hPublishes => ?_
    rw [hPublishes.beforeExtract] at hBefore
    cases hBefore
  | none =>
    cases hRun : extractVerified parse faults v.manifest input.stream with
    | mk files failure =>
      rw [hRun] at hExtract
      cases failure with
      | some e =>
        refine iff_of_false (some_ne_none e) fun hPublishes => ?_
        exact some_ne_none e (hExtract.mpr ⟨hPublishes.newReader, hPublishes.extracts⟩)
      | none =>
        obtain ⟨hReader, hExtracts⟩ := hExtract.mp rfl
        dsimp only
        rw [or_eq_none_iff, map_eq_none_iff]
        constructor
        · rintro ⟨hSync, hPublish⟩
          exact ⟨hBefore, hReader, hExtracts, hSync, hPublish⟩
        · intro hPublishes
          exact ⟨hPublishes.syncTree, hPublishes.publish⟩

theorem allOrNothing_error :
    AllOrNothing before (.error e, d) ↔ d.destination = before ∧ d.staging = none ∧ d.snapshot = none := by
  constructor
  · intro h
    exact ⟨h.failed e rfl, h.staging, h.snapshot⟩
  · rintro ⟨hBefore, hStaging, hSnapshot⟩
    refine ⟨fun _ _ => hBefore, fun r h => ?_, hStaging, hSnapshot⟩
    cases h

theorem allOrNothing_removed (hSnapshot : d.snapshot ≠ none) :
    AllOrNothing before (.error e, removeOwnedPath faults d) ↔ d.destination = before ∧
    d.staging = none ∧ faults.RemovesCopy := by
  obtain ⟨hDestination, hStaging⟩ := @removeOwnedPath_frame faults d
  rw [allOrNothing_error, hDestination, hStaging, removeOwnedPath_snapshot d hSnapshot]

/-- After a success the copy is still there. -/
theorem importSnapshot_ok {r : ImportResult}
    (h : importSnapshot parse faults evaluator input destination d = (.ok r, d')) :
    d'.snapshot = d.snapshot ∧ d'.staging = none ∧ ∃ files, d'.destination = some (.directory files) ∧
    Holds r.manifest files ∧
      ∃ v, prepare parse faults evaluator input d.destination = .ok v ∧
      (stage parse faults input v.manifest).2 = none := by
  unfold importSnapshot at h
  split at h
  · cases h
  rename_i v hPrepare
  unfold importStaged at h
  split at h
  · cases h
  split at h
  · cases h
  rename_i files hStage
  dsimp only at h
  split at h
  · cases h
  cases h
  have hDone : (stage parse faults input v.manifest).2 = none := by rw [hStage]
  have hFiles := stage_holds hPrepare hDone
  rw [hStage] at hFiles
  exact ⟨rfl, rfl, files, rfl, hFiles, v, hPrepare, hDone⟩

theorem importSnapshot_error (h : importSnapshot parse faults evaluator input destination d = (.error e, d'))
    (hStaging : d.staging = none) :
    d'.snapshot = d.snapshot ∧ (d'.destination = d.destination ∧ d'.staging = none ↔
      ∀ v, prepare parse faults evaluator input d.destination = .ok v →
        (stage parse faults input v.manifest).2 ≠ none ∧ faults.RemovesStaging) := by
  unfold importSnapshot at h
  split at h
  · rename_i hPrepare
    cases h
    exact ⟨rfl, iff_of_true ⟨rfl, hStaging⟩ fun v hv => by rw [hPrepare] at hv; cases hv⟩
  rename_i v hPrepare
  have hBefore := (prepare_eq_ok.mp hPrepare).2.1
  simp only [hPrepare, Except.ok.injEq, forall_eq']
  unfold importStaged at h
  split at h
  · rename_i hIdentity
    cases h
    refine ⟨rfl, iff_of_false (fun hLeft => by cases hLeft.2) fun hUndone => ?_⟩
    rw [hUndone.2.identity] at hIdentity
    cases hIdentity
  rename_i hIdentity
  split at h
  · rename_i files e' hStage
    cases h
    obtain ⟨hDestination, hSnapshot⟩ := @removeOwnedTree_frame faults { d with staging := some files }
    refine ⟨hSnapshot, ?_⟩
    have hMade : ({ d with staging := some files } : Disk).staging ≠ none := some_ne_none _
    rw [hDestination, removeOwnedTree_staging _ hMade, hStage]
    constructor
    · rintro ⟨-, hLstat, hRemove⟩
      exact ⟨some_ne_none _, hIdentity, hLstat, hRemove⟩
    · rintro ⟨-, hRemoves⟩
      exact ⟨rfl, hRemoves.lstat, hRemoves.remove⟩
  · rename_i files hStage
    dsimp only at h
    split at h
    · cases h
      refine ⟨rfl, iff_of_false (fun hLeft => ?_) fun hUndone => hUndone.1 (by rw [hStage])⟩
      rw [hBefore] at hLeft
      cases hLeft.1
    · cases h

variable (parse faults evaluator input path destination before)

/-- An import is all or nothing exactly if it comes to nothing: the input is not opened, or the
call fails before it publishes and then removes what it has made. A success leaves the copy; what
it publishes are the declared payloads. -/
theorem importFile_allOrNothing_iff :
    (AllOrNothing before (importFile parse faults evaluator input path destination before) ↔
      (path ≠ [] → destination ≠ [] → faults.openInput = .none → faults.createTemp = .none →
        faults.RemovesCopy ∧ ∀ v, verify parse defaultArchiveLimits evaluator input = .ok v → before = none →
          faults.Prepares → ¬ faults.Publishes (elements v.manifest.payloads).length ∧ faults.RemovesStaging)) ∧
    ∀ r, (importFile parse faults evaluator input path destination before).1 = .ok r →
      (importFile parse faults evaluator input path destination before).2.staging = none ∧
      ∃ files, (importFile parse faults evaluator input path destination before).2.destination =
      some (.directory files) ∧
        Holds r.manifest files := by
  have hUndone : (path ≠ [] → destination ≠ [] → faults.openInput = .none → faults.createTemp = .none →
      faults.RemovesCopy ∧ ∀ v, verify parse defaultArchiveLimits evaluator input = .ok v → before = none →
        faults.Prepares → ¬ faults.Publishes (elements v.manifest.payloads).length ∧ faults.RemovesStaging) ↔
      (opened faults path destination = .ok () → faults.RemovesCopy ∧ ∀ v,
      prepare parse faults evaluator input before = .ok v →
        (stage parse faults input v.manifest).2 ≠ none ∧ faults.RemovesStaging) := by
    rw [opened_eq_ok]
    simp only [prepare_eq_ok, and_imp]
    refine forall_congr' fun _ => forall_congr' fun _ => forall_congr' fun _ =>
      forall_congr' fun _ => and_congr_right fun _ =>
      forall_congr' fun v => forall_congr' fun hVerify => ?_
    rw [ne_eq, stage_done_iff hVerify]
  rw [hUndone]
  unfold importFile
  cases opened faults path destination with
  | error e =>
    refine ⟨iff_of_true (allOrNothing_error.mpr ⟨rfl, rfl, rfl⟩) (fun h => ?_), fun r h => ?_⟩
    · cases h
    · cases h
  | ok u =>
    dsimp only
    cases hRun : importSnapshot parse faults evaluator input destination
        ⟨before, none, some (snapshotBytes faults input)⟩ with
    | mk result d =>
      cases result with
      | error e =>
        obtain ⟨hSnapshot, hLeft⟩ := importSnapshot_error hRun rfl
        have hMade : d.snapshot ≠ none := hSnapshot ▸ some_ne_none _
        refine ⟨?_, fun r h => ?_⟩
        · dsimp only at hLeft ⊢
          rw [allOrNothing_removed hMade, ← and_assoc, hLeft]
          exact ⟨fun h _ => ⟨h.2, h.1⟩, fun h => ⟨(h rfl).2, (h rfl).1⟩⟩
        · cases h
      | ok r =>
        obtain ⟨hSnapshot, hStaging, files, hDestination, hHolds, v, hPrepare, hDone⟩ := importSnapshot_ok hRun
        dsimp only at hSnapshot hPrepare ⊢
        refine ⟨iff_of_false (fun h => ?_) fun h => ((h rfl).2 v hPrepare).1 hDone, ?_⟩
        · have hGone := h.snapshot
          rw [hSnapshot] at hGone
          cases hGone
        · rintro _ ⟨⟩
          exact ⟨hStaging, files, hDestination, hHolds⟩

/-- Nothing fails, and the copy of the input is left behind. -/
theorem import_leaves_copy :
    ∃ text input r, marshalCanonical aKitManifest = .ok text ∧ input.source.bytes = rawFrame (aKit text []) ∧
    input.stream.content = aKit text [] ∧
    (importFile parseUstar .none none input (lit "kit") (lit "room") none).1 = .ok r ∧
    (importFile parseUstar .none none input (lit "kit") (lit "room") none).2.snapshot = some (rawFrame (aKit text [])) ∧
    ¬ AllOrNothing none (importFile parseUstar .none none input (lit "kit") (lit "room") none) := by
  obtain ⟨text, input, v, hMarshal, -, hVerify, -, hSource, hContent⟩ := @exists_verified [] (by decide)
  have hPrepare : prepare parseUstar .none none input none = .ok v := by
    rw [prepare, hVerify]
    rfl
  have hDone : (stage parseUstar .none input v.manifest).2 = none :=
    (stage_done_iff hVerify).mpr ⟨rfl, rfl, ⟨fun _ _ => ⟨rfl, rfl⟩, fun _ _ => rfl⟩, rfl, rfl⟩
  have hImport : importFile parseUstar .none none input (lit "kit") (lit "room") none =
      (.ok ⟨v.manifest, v, lit "room"⟩, ⟨some (.directory (stage parseUstar .none input v.manifest).1), none,
        some input.source.bytes⟩) := by
    have hOpened : opened .none (lit "kit") (lit "room") = .ok () := rfl
    have hStage : stage parseUstar .none input v.manifest = ((stage parseUstar .none input v.manifest).1, none) :=
        Prod.ext rfl hDone
    have hStaged (d : Disk) : importStaged parseUstar .none input (lit "room") v d =
        (.ok ⟨v.manifest, v, lit "room"⟩,
          { d with
            destination := some (.directory (stage parseUstar .none input v.manifest).1)
            staging := none }) := by
      rw [importStaged, hStage]
      rfl
    rw [importFile, hOpened]
    dsimp only
    rw [importSnapshot, hPrepare]
    dsimp only
    rw [hStaged]
    rfl
  refine ⟨text, input, _, hMarshal, hSource, hContent, by rw [hImport], by rw [hImport, hSource], fun h => ?_⟩
  have hGone := h.snapshot
  rw [hImport] at hGone
  cases hGone

end Import

end Camp.CampKit
