import Camp.HaulKit.Chunks
import Camp.Wire.Total

/-!
# The canonical text of a kit's manifest

A manifest that is accepted has one text, whatever the order of its entries and chunks. The text
is read back if it is short and the strings are text.
-/

namespace Camp.HaulKit

open Wire Wire.Utf8 Program Program.Checks List

variable {m : Manifest}

section Written

instance : Total Lineage := Record.total (by dsimp only [Record.fields]; infer_instance)

instance : Total GenerationRef := Record.total (by dsimp only [Record.fields]; infer_instance)

instance : Total StoreEntry := Record.total (by dsimp only [Record.fields]; infer_instance)

instance : Total StoreIdentity := Record.total (by dsimp only [Record.fields]; infer_instance)

instance : Total RootIdentity := Record.total (by dsimp only [Record.fields]; infer_instance)

instance : Total FileIdentity := Record.total (by dsimp only [Record.fields]; infer_instance)

instance : Total ToolIdentities := Record.total (by dsimp only [Record.fields]; infer_instance)

instance : Total ArchiveIdentity := Record.total (by dsimp only [Record.fields]; infer_instance)

instance : Total ChunkIdentity := Record.total (by dsimp only [Record.fields]; infer_instance)

instance : Total Manifest := Record.total (by dsimp only [Record.fields]; infer_instance)

end Written

section Strings

def FileIdentity.strings (f : FileIdentity) : List Bytes := [f.name, f.version, f.sha256]

def StoreEntry.strings (e : StoreEntry) : List Bytes := [e.reference, e.type, e.platform, e.digest]

def ChunkIdentity.strings (c : ChunkIdentity) : List Bytes := [c.name, c.sha256]

def Manifest.strings (m : Manifest) : List Bytes :=
  [m.kind, m.sessionID, m.capsule, m.lineage.branch] ++ (m.generation.map (·.archiveSHA256)).toList ++
    [m.architecture, m.store.haulerVersion, m.store.indexSHA256] ++
    (elements m.store.entries).flatMap StoreEntry.strings ++
    [m.root.reference, m.root.sha256] ++ m.tools.camp.strings ++ m.tools.hauler.strings ++ m.tools.pasta.strings ++
    [m.archive.sha256] ++ (elements m.chunks).flatMap ChunkIdentity.strings

def Manifest.Textual (m : Manifest) : Prop := ∀ s ∈ m.strings, sanitize s = s

theorem StoreEntry.canon_eq_self (e : StoreEntry) : canon e = e ↔ ∀ s ∈ e.strings, sanitize s = s := by
  show StoreEntry.mk (sanitize e.reference) (sanitize e.type) (Omittable.policy.keep e.platform) (sanitize e.digest)
    (Omittable.policy.keep e.size) = e ↔ _
  rw [keep_bytes, keep_int64]
  cases e
  simp [strings]

theorem ChunkIdentity.canon_eq_self (c : ChunkIdentity) : canon c = c ↔ ∀ s ∈ c.strings, sanitize s = s := by
  show ChunkIdentity.mk c.index (sanitize c.name) (sanitize c.sha256) c.size = c ↔ _
  cases c
  simp [strings]

theorem FileIdentity.canon_eq_self (f : FileIdentity) : canon f = f ↔ ∀ s ∈ f.strings, sanitize s = s := by
  show FileIdentity.mk (sanitize f.name) (sanitize f.version) (sanitize f.sha256) f.size = f ↔ _
  cases f
  simp [strings]

theorem GenerationRef.canon_eq_self (g : GenerationRef) : canon g = g ↔ sanitize g.archiveSHA256 = g.archiveSHA256 := by
  show GenerationRef.mk g.generation (sanitize g.archiveSHA256) = g ↔ _
  cases g
  simp

theorem StoreIdentity.canon_eq_self (store : StoreIdentity) :
    canon store = store ↔ sanitize store.haulerVersion = store.haulerVersion ∧
      sanitize store.indexSHA256 = store.indexSHA256 ∧ ∀ s ∈ (elements store.entries).flatMap StoreEntry.strings,
      sanitize s = s := by
  rw [← map_canon_eq_self fun e _ => StoreEntry.canon_eq_self e]
  show StoreIdentity.mk (sanitize store.haulerVersion) (sanitize store.indexSHA256)
    (store.entries.map (List.map canon)) = store ↔ _
  rcases store with ⟨version, index, _ | entries⟩ <;> simp [elements]

theorem ToolIdentities.canon_eq_self (tools : ToolIdentities) :
    canon tools = tools ↔ ∀ s ∈ tools.camp.strings ++ tools.hauler.strings ++ tools.pasta.strings, sanitize s = s := by
  show ToolIdentities.mk (canon tools.camp) (canon tools.hauler) (canon tools.pasta) = tools ↔ _
  cases tools
  simp only [mk.injEq, FileIdentity.canon_eq_self, forall_mem_append, and_assoc]

theorem Manifest.canon_eq_self (m : Manifest) : canon m = m ↔ m.Textual := by
  have hChunks : m.chunks.map (List.map canon) = m.chunks ↔
      ∀ s ∈ (elements m.chunks).flatMap ChunkIdentity.strings, sanitize s = s := by
    rw [← map_canon_eq_self fun c _ => ChunkIdentity.canon_eq_self c]
    cases m.chunks <;> simp [elements]
  have hGeneration : m.generation.map canon = m.generation ↔
      ∀ s ∈ (m.generation.map (·.archiveSHA256)).toList, sanitize s = s := by
    cases m.generation <;> simp [GenerationRef.canon_eq_self]
  have hStore := m.store.canon_eq_self
  have hTools := m.tools.canon_eq_self
  show Manifest.mk m.schemaVersion (sanitize m.kind) (sanitize m.sessionID)
      (sanitize m.capsule) ⟨sanitize m.lineage.branch⟩
    (Omittable.policy.keep m.generation) (sanitize m.architecture) (canon m.store)
    ⟨sanitize m.root.reference, sanitize m.root.sha256, m.root.size⟩ (canon m.tools)
      ⟨sanitize m.archive.sha256, m.archive.size⟩
    (m.chunks.map (List.map canon)) = m ↔ _
  rw [keep_option]
  rcases m with ⟨schema, kind, session, capsule, ⟨branch⟩, generation, architecture, store,
    ⟨reference, digest, size⟩, tools,
    ⟨archive, length⟩, chunks⟩
  simp only [mk.injEq, Lineage.mk.injEq, RootIdentity.mk.injEq, ArchiveIdentity.mk.injEq, true_and, and_true] at *
  simp only [hChunks, hGeneration, hStore, hTools, Textual, strings, forall_mem_append, forall_mem_cons,
    not_mem_nil, false_implies, implies_true, and_true, and_assoc]

end Strings

section Accepted

variable {m : Manifest}
variable {entries : List StoreEntry} {chunks : List ChunkIdentity}

def entryAccepted (e : StoreEntry) : Bool :=
  !(e.reference == [] || unsafePath e.reference || (e.type != lit "file" && e.type != lit "image") ||
    !validSHA256 e.digest || e.size < 0 || (e.platform != [] && !supportedPlatform e.platform))

theorem scan_validateEntry :
    scan validateEntry [] entries = .ok () ↔ (∀ e ∈ entries, entryAccepted e) ∧ (entries.map entryKey).Nodup := by
  rw [scan_eq_ok, ← forall_split_mem, ← forall_split_fresh]
  simp only [validateEntry, andThen_eq_ok, refuse_eq_ok, nil_append, entryAccepted, Bool.not_eq_true',
    contains_eq_mem, decide_eq_false_iff_not, forall_and]

theorem scan_validateChunk {archive : ArchiveIdentity} (h : scan (validateChunk archive) [] chunks = .ok ()) :
    InOrder chunks ∧ ∀ c ∈ chunks, wellFormed defaultChunkSize c := by
  have hEach := scan_eq_ok.mp h
  simp only [validateChunk, andThen_eq_ok, refuse_eq_ok, Bool.or_eq_false_iff,
    bne_eq_false_iff_eq, nil_append] at hEach
  refine ⟨fun front c back hSplit => (hEach front c back hSplit).1.1.1.1, ?_⟩
  rw [← forall_split_mem]
  intro front c back hSplit
  obtain ⟨⟨⟨⟨-, hName⟩, hDigest⟩, hSize⟩, hLimit, -⟩ := hEach front c back hSplit
  have hPos : (0 : Int) < c.size.toInt := by
    rw [decide_eq_false_iff_not, Int64.le_iff_toInt_le, not_le] at hSize
    exact hSize
  have hLe : c.size.toInt ≤ defaultChunkSize := by
    rw [decide_eq_false_iff_not, not_lt] at hLimit
    simp only [ChunkIdentity.length, maxChunkBytes] at hLimit
    omega
  unfold wellFormed
  simp only [Bool.not_eq_false'] at hName hDigest
  simp [hName, hDigest, hPos, hLe]

theorem pairwise_index (hOrder : InOrder chunks) (hCount : chunks.length ≤ 2 ^ 32) :
    chunks.Pairwise fun a b => a.index.toNat < b.index.toNat := by
  rw [← forall_split_pairwise]
  intro front c back hSplit b hb
  obtain ⟨before, between, rfl⟩ := append_of_mem hb
  have hSelf := hOrder _ c back hSplit
  have hOther := hOrder before b (between ++ c :: back) (by rw [hSplit]; simp)
  rw [hSplit] at hCount
  simp only [length_append, length_cons] at hCount hSelf
  rw [hSelf, hOther, UInt32.toNat_ofNat_of_lt' (by show _ < 2 ^ 32; omega),
    UInt32.toNat_ofNat_of_lt' (by show _ < 2 ^ 32; omega)]
  omega

/-- What the rest of the development needs to know of a manifest that is accepted. -/
structure Accepted (m : Manifest) : Prop where
  entries : ((elements m.store.entries).map entryKey).Nodup
  order : InOrder (elements m.chunks)
  wellFormed : ∀ c ∈ elements m.chunks, wellFormed defaultChunkSize c
  nonempty : elements m.chunks ≠ []
  count : (elements m.chunks).length ≤ 256

theorem accepted (h : validate m = .ok ()) : Accepted m := by
  simp only [validate, andThen_eq_ok, refuse_eq_ok, Bool.or_eq_false_iff] at h
  obtain ⟨-, -, -, -, -, hEntries, -, -, ⟨-, hSome⟩, ⟨-, hCount⟩, hChunks, -⟩ := h
  obtain ⟨hOrder, hForm⟩ := scan_validateChunk hChunks
  rw [decide_eq_false_iff_not, not_lt] at hCount
  exact ⟨(scan_validateEntry.mp hEntries).2, hOrder, hForm, by simpa using hSome, hCount⟩

theorem validate_reorder (hPerm : entries.Perm (elements m.store.entries)) (h : validate m = .ok ()) :
    validate { m with
      store := { m.store with entries := some entries }
      chunks := some (elements m.chunks) } = .ok () := by
  have hScan : scan validateEntry [] entries = .ok () ↔ scan validateEntry [] (elements m.store.entries) = .ok () := by
    simp only [scan_validateEntry, hPerm.mem_iff, (hPerm.map entryKey).nodup_iff]
  have hEmpty : entries.isEmpty = (elements m.store.entries).isEmpty := by
    rw [Bool.eq_iff_iff, isEmpty_iff_length_eq_zero, isEmpty_iff_length_eq_zero, hPerm.length_eq]
  have hSome {α : Type} (l : List α) : elements (some l) = l := rfl
  unfold validate at h ⊢
  simp only [andThen_eq_ok, hSome, hScan, hEmpty] at h ⊢
  exact h

end Accepted

section Order

variable {m m' : Manifest}

/-- The same manifest with its entries and chunks in another order. -/
def Reordered (m m' : Manifest) : Prop :=
  ∃ entries chunks, entries.Perm (elements m.store.entries) ∧ chunks.Perm (elements m.chunks) ∧
    m' = { m with store := { m.store with entries := some entries }, chunks := some chunks }

theorem canonicalManifest_of_reordered (h : Accepted m) (hOrder : Reordered m m') :
    canonicalManifest m' = canonicalManifest m := by
  obtain ⟨entries, chunks, hEntries, hChunks, rfl⟩ := hOrder
  have hKeys : ((elements m.store.entries).map entryOrder).Nodup := by
    refine pairwise_map.mpr ((pairwise_map.mp h.entries).imp ?_)
    intro a b hKey hEq
    have hReference : bytewise a.reference = bytewise b.reference := congrArg (fun k => (ofLex k).1) hEq
    have hType : bytewise a.type = bytewise b.type := congrArg (fun k => (ofLex (ofLex k).2).1) hEq
    have hPlatform : bytewise a.platform = bytewise b.platform := congrArg (fun k => (ofLex (ofLex k).2).2) hEq
    apply hKey
    unfold entryKey
    rw [bytewise_injective hReference, bytewise_injective hType, bytewise_injective hPlatform]
  have hIndices : ((elements m.chunks).map fun c => c.index.toNat).Nodup :=
    pairwise_map.mpr ((pairwise_index h.order (h.count.trans (by omega))).imp fun hLt => hLt.ne)
  unfold canonicalManifest
  have hSome {α : Type} (l : List α) : elements (some l) = l := rfl
  simp only [hSome]
  rw [← sortOn_eq_of_perm hEntries.symm hKeys, ← sortOn_eq_of_perm hChunks.symm hIndices]

theorem sortOn_chunks (h : Accepted m) : sortOn (fun c => c.index.toNat) (elements m.chunks) = elements m.chunks :=
  sortOn_of_pairwise ((pairwise_index h.order (h.count.trans (by omega))).imp fun hLt => hLt.le)

theorem validate_canonicalManifest (h : validate m = .ok ()) : validate (canonicalManifest m) = .ok () := by
  unfold canonicalManifest
  rw [sortOn_chunks (accepted h)]
  exact validate_reorder (sortOn_perm _ _) h

theorem canonicalManifest_canonicalManifest (h : validate m = .ok ()) :
    canonicalManifest (canonicalManifest m) = canonicalManifest m := by
  refine canonicalManifest_of_reordered (accepted h) ⟨_, _, sortOn_perm _ _, sortOn_perm _ _, rfl⟩

theorem textual_canonicalManifest : (canonicalManifest m).Textual ↔ m.Textual := by
  have hEntries (s : Bytes) : s ∈ (sortOn entryOrder (elements m.store.entries)).flatMap StoreEntry.strings ↔
      s ∈ (elements m.store.entries).flatMap StoreEntry.strings := ((sortOn_perm _ _).flatMap_right _).mem_iff
  have hChunks (s : Bytes) : s ∈ (sortOn (fun c => c.index.toNat) (elements m.chunks)).flatMap ChunkIdentity.strings ↔
      s ∈ (elements m.chunks).flatMap ChunkIdentity.strings := ((sortOn_perm _ _).flatMap_right _).mem_iff
  have hSome {α : Type} (l : List α) : elements (some l) = l := rfl
  simp only [Manifest.Textual, Manifest.strings, canonicalManifest, hSome, mem_append, hEntries, hChunks]

end Order

section Text

variable {m : Manifest} {body : Bytes}

theorem marshalCanonical_eq_ok :
    marshalCanonical m = .ok body ↔ validate (canonicalManifest m) = .ok () ∧
    marshal (canonicalManifest m) = some body := by
  rw [marshalCanonical, andThen_eq_ok]
  cases marshal (canonicalManifest m) with
  | none => simp
  | some text => simp [pure, Except.pure]

theorem decodeCanonical_eq_ok :
    decodeCanonical body = .ok m ↔
      body ≠ [] ∧ body.length ≤ maxManifestBytes ∧ unmarshal body = some m ∧ marshalCanonical m = .ok body := by
  rw [decodeCanonical, andThen_eq_ok]
  cases hRead : (unmarshal body : Option Manifest) with
  | none => simp
  | some m' =>
    simp only [refuse_eq_ok, Bool.or_eq_false_iff, isEmpty_eq_false_iff, decide_eq_false_iff_not, not_lt,
      Option.some.injEq, and_assoc]
    refine and_congr_right fun _ => and_congr_right fun _ => ?_
    rw [bind_eq_ok]
    simp only [andThen_eq_ok, refuse_eq_ok, bne_eq_false_iff_eq]
    constructor
    · rintro ⟨canonical, hCanonical, rfl, hRead⟩
      cases hRead
      exact ⟨rfl, hCanonical⟩
    · rintro ⟨rfl, hCanonical⟩
      exact ⟨body, hCanonical, rfl, rfl⟩

def Short (m : Manifest) : Prop := ∀ text, marshal (canonicalManifest m) = some text → text.length ≤ maxManifestBytes

theorem decodeCanonical_marshal (hValid : validate m = .ok ()) (hText : marshal (canonicalManifest m) = some body) :
    decodeCanonical body = .ok (canonicalManifest m) ↔ Short m ∧ m.Textual := by
  have hRead := unmarshal_marshal hText
  have hSome : body ≠ [] := by
    rintro rfl
    have hNone : (unmarshal [] : Option Manifest) = none := rfl
    rw [hNone] at hRead
    cases hRead
  have hShort : Short m ↔ body.length ≤ maxManifestBytes := by
    simp [Short, hText]
  have hCanonical : marshalCanonical (canonicalManifest m) = .ok body := by
    rw [marshalCanonical_eq_ok, canonicalManifest_canonicalManifest hValid]
    exact ⟨validate_canonicalManifest hValid, hText⟩
  rw [decodeCanonical_eq_ok, hRead, Option.some.injEq, Manifest.canon_eq_self, textual_canonicalManifest, hShort]
  simp [hSome, hCanonical]

end Text

theorem reassemble_accepted (h : Accepted m) {directory output : Paths.Path} {d : Disk}
    (hPaths : Paths.rooted directory ∧ Paths.rooted output) (hOutput : d.output = none)
    (hFiles : ∀ c ∈ elements m.chunks, ∃ body, Intact (d.directory.getD []) c body) :
    (reassemble directory (elements m.chunks) output defaultChunkSize d).1 = .ok () ↔
      nameable output = true ∧ ((elements m.chunks).map (·.name)).Nodup := by
  have hOk (d' : Disk) : reassemble directory (elements m.chunks) output defaultChunkSize d = (.ok (), d') ↔ _ :=
    reassemble_eq_ok hPaths ⟨by decide, le_rfl⟩ hOutput
  constructor
  · intro hFirst
    obtain ⟨-, hName, hScan, -⟩ := (hOk _).mp (Prod.ext hFirst rfl)
    exact ⟨hName, (scan_checkChunk.mp hScan).2.2⟩
  · rintro ⟨hName, hNames⟩
    obtain ⟨bodies, hBodies⟩ := exists_bodies.mpr hFiles
    have hScan := scan_checkChunk.mpr ⟨h.order, h.wellFormed, hNames⟩
    rw [(hOk _).mpr ⟨h.nonempty, hName, hScan, bodies, hBodies, rfl⟩]

/-- An accepted manifest has one text for every order of its entries and chunks. The text is read
back if it is short and the strings are UTF-8, only such texts are read, and the chunks are put
together if no two of them have one name. -/
theorem canonical_codec (hValid : validate m = .ok ()) :
    (∃ body, (∀ m', Reordered m m' → marshalCanonical m' = .ok body) ∧
      (decodeCanonical body = .ok (canonicalManifest m) ↔ Short m ∧ m.Textual)) ∧
    (∀ body m', decodeCanonical body = .ok m' → marshalCanonical m' = .ok body) ∧
    ∀ (directory output : Paths.Path) (d : Disk), Paths.rooted directory ∧ Paths.rooted output → d.output = none →
      (∀ c ∈ elements m.chunks, ∃ body, Intact (d.directory.getD []) c body) →
      ((reassemble directory (elements m.chunks) output defaultChunkSize d).1 = .ok () ↔
        nameable output = true ∧ ((elements m.chunks).map (·.name)).Nodup) := by
  refine ⟨?_, ?_, ?_⟩
  · obtain ⟨body, hText⟩ := exists_marshal (canonicalManifest m)
    refine ⟨body, ?_, decodeCanonical_marshal hValid hText⟩
    intro m' hOrder
    rw [marshalCanonical_eq_ok, canonicalManifest_of_reordered (accepted hValid) hOrder]
    exact ⟨validate_canonicalManifest hValid, hText⟩
  · intro body m' hDecode
    exact (decodeCanonical_eq_ok.mp hDecode).2.2.2
  · intro directory output d hPaths hOutput hFiles
    exact reassemble_accepted (accepted hValid) hPaths hOutput hFiles

/-- A kit of two bytes, with the version of Hauler and the name of the second chunk. -/
def twoByteKit (version second : Bytes) : Manifest where
  schemaVersion := 1
  kind := lit "camp-hauler-kit"
  sessionID := lit "session"
  capsule := lit "capsule"
  lineage := ⟨lit "main"⟩
  generation := none
  architecture := lit "linux/amd64"
  store := ⟨version, sha256Hex [], some [⟨lit "file", lit "file", [], sha256Hex [], 0⟩]⟩
  root := ⟨lit "hauler/root.tar.zst:latest", sha256Hex [], 1⟩
  tools := ⟨⟨lit "camp", lit "1", sha256Hex [], 1⟩, ⟨lit "hauler", lit "1", sha256Hex [], 1⟩,
    ⟨lit "pasta", lit "1", sha256Hex [], 1⟩⟩
  archive := ⟨sha256Hex [7, 7], 2⟩
  chunks := some [⟨0, lit "first", sha256Hex [7], 1⟩, ⟨1, second, sha256Hex [7], 1⟩]

theorem canonical_codec_twoByteKit :
    ∃ body, marshalCanonical (twoByteKit (lit "2") (lit "second")) = .ok body ∧
      decodeCanonical body = .ok (canonicalManifest (twoByteKit (lit "2") (lit "second"))) := by
  have hValid : validate (twoByteKit (lit "2") (lit "second")) = .ok () := by decide +kernel
  have hLength : (marshal (canonicalManifest (twoByteKit (lit "2") (lit "second")))).all
      (·.length ≤ maxManifestBytes) = true := by decide +kernel
  have hTextual : (twoByteKit (lit "2") (lit "second")).Textual := by
    unfold Manifest.Textual
    decide +kernel
  obtain ⟨⟨body, hOrders, hRead⟩, -⟩ := canonical_codec hValid
  refine ⟨body, hOrders _ ⟨_, _, .refl _, .refl _, rfl⟩, hRead.mpr ⟨fun text hText => ?_, hTextual⟩⟩
  simpa [hText] using hLength

/-- A version that is no UTF-8 is not read back, and two chunks may have one name in a manifest
that is accepted, but not when they are put together. -/
theorem accepted_but_not_usable :
    (∃ m body, validate m = .ok () ∧ marshalCanonical m = .ok body ∧ decodeCanonical body ≠ .ok (canonicalManifest m)) ∧
    ∃ m files, validate m = .ok () ∧ (∀ c ∈ elements m.chunks, ∃ body, Intact files c body) ∧
      (reassemble (lit "/chunks") (elements m.chunks) (lit "/output") defaultChunkSize ⟨none, some files, none⟩).1 ≠
      .ok () := by
  constructor
  · have hValid : validate (twoByteKit [0xff] (lit "second")) = .ok () := by decide +kernel
    obtain ⟨body, hText⟩ := exists_marshal (canonicalManifest (twoByteKit [0xff] (lit "second")))
    refine ⟨_, body, hValid, marshalCanonical_eq_ok.mpr ⟨validate_canonicalManifest hValid, hText⟩, ?_⟩
    rw [ne_eq, decodeCanonical_marshal hValid hText]
    rintro ⟨-, hTextual⟩
    have hVersion := hTextual [0xff] (by simp [Manifest.strings, twoByteKit])
    exact absurd hVersion (by decide)
  · have hValid : validate (twoByteKit (lit "2") (lit "first")) = .ok () := by decide +kernel
    have hFiles : ∀ c ∈ elements (twoByteKit (lit "2") (lit "first")).chunks,
        ∃ body, Intact [(lit "first", .regular [7])] c body := by
      intro c hc
      rcases mem_pair.mp hc with rfl | rfl
      · exact ⟨[7], rfl, rfl, rfl⟩
      · exact ⟨[7], rfl, rfl, rfl⟩
    have hNames : (reassemble (lit "/chunks") (elements (twoByteKit (lit "2") (lit "first")).chunks)
        (lit "/output") defaultChunkSize
        ⟨none, some [(lit "first", .regular [7])], none⟩).1 = .ok () ↔ _ :=
      reassemble_accepted (accepted hValid) (by decide) rfl hFiles
    refine ⟨_, _, hValid, hFiles, ?_⟩
    rw [ne_eq, hNames]
    decide +kernel

end Camp.HaulKit
