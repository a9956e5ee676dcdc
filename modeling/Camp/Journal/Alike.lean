import Camp.Journal.History

/-!
# Directories that differ in a stale snapshot

Once a fact is in the log, the snapshot file is never looked at for its data.
Directories that differ in it alone are read alike, and every later call does
the same to both.
-/

namespace Camp.Journal

open Wire Wire.Utf8 Program Program.Files Program.Machine List Function Files.Tree

variable {id : Bytes} {r r' : Replay}

def Overridden (log : Bytes) : Prop :=
  ∀ id s s' rest, replayLog id s (log ++ rest) = replayLog id s' (log ++ rest)

theorem Overridden.append {log : Bytes} (h : Overridden log) (bytes : Bytes) :
    Overridden (log ++ bytes) := by
  intro id s s' rest
  rw [append_assoc]
  exact h id s s' (bytes ++ rest)

theorem replay_fact (h : r.pending = r'.pending) (f : FactRecord) (s : JournalSnapshot) :
    (Entry.fact f s).replay id r = (Entry.fact f s).replay id r' := by
  cases r
  cases r'
  cases h
  rfl

theorem replay_pending (h : r.pending = r'.pending) (e : Entry) :
    (e.replay id r).map (·.pending) = (e.replay id r').map (·.pending) := by
  cases e with
  | intent i =>
    simp only [Entry.replay, Entry.envelope, replayEntry]
    split_ifs
    · rfl
    · simp [Except.map, Replay.put, h]
  | fact f s => rw [replay_fact h]

theorem foldlM_pending (es : List Entry) (h : r.pending = r'.pending) :
    (es.foldlM (Entry.replay id) r).map (·.pending) = (es.foldlM (Entry.replay id) r').map (·.pending) := by
  induction es generalizing r r' with
  | nil => exact congrArg Except.ok h
  | cons e es ih =>
    have hHead : (e.replay id r).map (·.pending) = (e.replay id r').map (·.pending) := replay_pending h e
    rw [foldlM_cons, foldlM_cons]
    cases hr : e.replay id r with
    | error err =>
      cases hr' : e.replay id r' with
      | error err' => rw [hr, hr'] at hHead; exact hHead
      | ok r₂ => rw [hr, hr'] at hHead; cases hHead
    | ok r₁ =>
      cases hr' : e.replay id r' with
      | error err' => rw [hr, hr'] at hHead; cases hHead
      | ok r₂ =>
        rw [hr, hr'] at hHead
        exact ih (Except.ok.inj hHead)

theorem overridden_fact {es : List Entry} {log line : Bytes} {f : FactRecord} {s : JournalSnapshot}
    (hLogged : Logged es log) (hLine : (Entry.fact f s).line = some line) :
    Overridden (log ++ line) := by
  have hAll : Logged (es ++ [(Entry.fact f s).canon]) (log ++ line) := .snoc hLogged hLine
  intro id s₀ s₁ rest
  have hSplit (s' : JournalSnapshot) : replayLog id s' (log ++ line ++ rest) =
      replayLog id s' (log ++ line) >>= fun r => (readLines rest).foldlM (replayLine id) r := by
    rw [replayLog, readLines_append hAll.endsLine, foldlM_append]
    rfl
  have hSame : replayLog id s₀ (log ++ line) = replayLog id s₁ (log ++ line) := by
    rw [hAll.replayLog, hAll.replayLog, foldlM_append, foldlM_append]
    have hFront : (es.foldlM (Entry.replay id) ⟨s₀, []⟩).map (·.pending) =
        (es.foldlM (Entry.replay id) ⟨s₁, []⟩).map (·.pending) := foldlM_pending es rfl
    cases hr : es.foldlM (Entry.replay id) ⟨s₀, []⟩ with
    | error err =>
      cases hr' : es.foldlM (Entry.replay id) ⟨s₁, []⟩ with
      | error err' => rw [hr, hr'] at hFront; cases hFront; rfl
      | ok r₂ => rw [hr, hr'] at hFront; cases hFront
    | ok r₁ =>
      cases hr' : es.foldlM (Entry.replay id) ⟨s₁, []⟩ with
      | error err' => rw [hr, hr'] at hFront; cases hFront
      | ok r₂ =>
        rw [hr, hr'] at hFront
        exact congrArg (· >>= pure) (replay_fact (Except.ok.inj hFront) (canon f) (canon s))
  rw [hSplit, hSplit, hSame]

/-- The snapshot of `g` is not looked at: it can be read, and the log overrides it. -/
def Stale (g : Folder File) (log : Bytes) : Prop :=
  Overridden log ∧ ∃ body, g .snapshot = some body ∧ ∃ s : JournalSnapshot, unmarshal body = some s

structure AlikeFolder (g g' : Folder File) : Prop where
  journal : g .journal = g' .journal
  temporary : g .snapshotPartial = g' .snapshotPartial
  snapshot : g .snapshot = g' .snapshot ∨ ∃ log, g .journal = some log ∧ Stale g log ∧ Stale g' log

theorem AlikeFolder.refl (g : Folder File) : AlikeFolder g g := ⟨rfl, rfl, Or.inl rfl⟩

def Alike (d d' : Disk) : Prop :=
  ∀ id, Option.Rel AlikeFolder (d.folder (sessionDirectory id)) (d'.folder (sessionDirectory id))

section Folders

variable {g g' : Folder File} {id : Bytes}

theorem AlikeFolder.read (h : AlikeFolder g g') (id : Bytes) :
    readSession id (some g) = readSession id (some g') := by
  unfold readSession
  simp only [Option.bind_some]
  rcases h.snapshot with hSame | ⟨log, hLog, ⟨hOver, body, hBody, s, hs⟩, _, body', hBody', s', hs'⟩
  · rw [h.journal, hSame]
  · rw [hBody, hBody', ← h.journal, hLog]
    simp only [hs, hs']
    have hReplay := hOver id s s' []
    rw [append_nil] at hReplay
    rw [hReplay]

theorem AlikeFolder.temp (h : AlikeFolder g g') (content : Option Bytes) :
    AlikeFolder (update g .snapshotPartial content) (update g' .snapshotPartial content) where
  journal := by simpa using h.journal
  temporary := by simp
  snapshot := by simpa [Stale] using h.snapshot

theorem AlikeFolder.commit (h : AlikeFolder g g') (content : Option Bytes) :
    AlikeFolder (update g .snapshot content) (update g' .snapshot content) where
  journal := by simpa using h.journal
  temporary := by simpa using h.temporary
  snapshot := by simp

theorem AlikeFolder.append (h : AlikeFolder g g') {log : Bytes} (hLog : g .journal = some log)
    (bytes : Bytes) : AlikeFolder (update g .journal (some (log ++ bytes)))
      (update g' .journal (some (log ++ bytes))) where
  journal := by simp
  temporary := by simpa using h.temporary
  snapshot := by
    rcases h.snapshot with hSame | ⟨log', hLog', ⟨hOver, hStale⟩, _, hStale'⟩
    · exact Or.inl (by simpa using hSame)
    · cases hLog.symm.trans hLog'
      exact Or.inr ⟨_, by simp, ⟨hOver.append bytes, by simpa using hStale⟩,
        hOver.append bytes, by simpa using hStale'⟩

end Folders

section Disks

variable {d d' : Disk} {id : Bytes}

theorem Alike.set (h : Alike d d') {folder folder' : Option (Folder File)}
    (hFolder : Option.Rel AlikeFolder folder folder') :
    Alike (d.set (sessionDirectory id) folder) (d'.set (sessionDirectory id) folder') := by
  intro id'
  by_cases hID : sessionDirectory id' = sessionDirectory id
  · rw [hID, folder_set_self, folder_set_self]
    exact hFolder
  · rw [folder_set_ne _ _ hID, folder_set_ne _ _ hID]
    exact h id'

theorem Alike.folder (h : Alike d d') (id : Bytes) :
    (d.folder (sessionDirectory id) = none ∧ d'.folder (sessionDirectory id) = none) ∨
      ∃ g g', d.folder (sessionDirectory id) = some g ∧ d'.folder (sessionDirectory id) = some g' ∧
        AlikeFolder g g' := by
  have hID := h id
  cases hd : d.folder (sessionDirectory id) with
  | none =>
    cases hd' : d'.folder (sessionDirectory id) with
    | none => exact Or.inl ⟨rfl, rfl⟩
    | some g' => rw [hd, hd'] at hID; cases hID
  | some g =>
    cases hd' : d'.folder (sessionDirectory id) with
    | none => rw [hd, hd'] at hID; cases hID
    | some g' =>
      rw [hd, hd'] at hID
      cases hID with
      | some hAlike => exact Or.inr ⟨g, g', rfl, rfl, hAlike⟩

theorem Alike.load (h : Alike d d') (id : Bytes) : loads d id = loads d' id := by
  rw [loads_eq, loads_eq]
  rcases h.folder id with ⟨hd, hd'⟩ | ⟨g, g', hd, hd', hAlike⟩
  · rw [hd, hd']
  · rw [hd, hd', hAlike.read]

theorem Alike.file (h : Alike d d') {f : File} (hf : f ≠ .snapshot) :
    d.file (sessionDirectory id) f = d'.file (sessionDirectory id) f := by
  rcases h.folder id with ⟨hd, hd'⟩ | ⟨g, g', hd, hd', hAlike⟩
  · rw [Tree.file, Tree.file, hd, hd']
  · rw [Tree.file, Tree.file, hd, hd']
    cases f with
    | journal => exact hAlike.journal
    | snapshot => exact absurd rfl hf
    | snapshotPartial => exact hAlike.temporary

theorem Alike.setFile (h : Alike d d') {f : File} {content : Option Bytes}
    (hSet : ∀ g g', d.folder (sessionDirectory id) = some g → AlikeFolder g g' →
      AlikeFolder (update g f content) (update g' f content)) :
    Alike (d.setFile (sessionDirectory id) f content) (d'.setFile (sessionDirectory id) f content) := by
  rcases h.folder id with ⟨hd, hd'⟩ | ⟨g, g', hd, hd', hAlike⟩
  · rw [Tree.setFile, Tree.setFile, hd, hd']
    exact h
  · rw [← set_folder d (sessionDirectory id), ← set_folder d' (sessionDirectory id), hd, hd',
      setFile_set_self, setFile_set_self]
    exact h.set (.some (hSet g g' hd hAlike))

end Disks

section Programs

variable {id : Bytes} {explain : IoError → Error}

theorem agrees_attempt (what : Probe) : storeMachine.Agrees Alike (sys explain (.attempt what)) :=
  agrees_sys fun _ _ h => ⟨rfl, h⟩

theorem agrees_openLog :
    storeMachine.Agrees Alike (sys explain (.openFile (sessionDirectory id) .journal)) :=
  agrees_sys fun d d' h => ⟨by simp only [perform, h.file (f := .journal) (by decide)], h⟩

theorem agrees_sizeLog :
    storeMachine.Agrees Alike (sys explain (.size (sessionDirectory id) .journal)) :=
  agrees_sys fun d d' h => by
    simp only [perform, h.file (f := .journal) (by decide)]
    split <;> exact ⟨rfl, h⟩

theorem agrees_writeLog (bytes : Bytes) :
    storeMachine.Agrees Alike (sys explain (.write (sessionDirectory id) .journal bytes)) :=
  agrees_sys fun d d' h => by
    simp only [perform, ← h.file (f := .journal) (by decide)]
    cases hLog : d.file (sessionDirectory id) .journal with
    | none => exact ⟨rfl, h⟩
    | some log =>
      refine ⟨rfl, h.setFile fun g g' hg hAlike => hAlike.append ?_ bytes⟩
      obtain ⟨g₀, hg₀, hgLog⟩ := file_eq_some hLog
      cases hg.symm.trans hg₀
      exact hgLog

theorem agrees_writeTemp (bytes : Bytes) :
    storeMachine.Agrees Alike (sys explain (.write (sessionDirectory id) .snapshotPartial bytes)) :=
  agrees_sys fun d d' h => by
    simp only [perform, h.file (f := .snapshotPartial) (by decide)]
    split
    · exact ⟨rfl, h⟩
    · exact ⟨rfl, h.setFile fun _ _ _ hAlike => hAlike.temp _⟩

theorem agrees_createTemp :
    storeMachine.Agrees Alike (sys explain (.create (sessionDirectory id) .snapshotPartial)) :=
  agrees_sys fun d d' h => by
    rcases h.folder id with ⟨hd, hd'⟩ | ⟨g, g', hd, hd', hAlike⟩
    · simpa only [perform, hd, hd', true_and] using h
    · simp only [perform, hd, hd', hAlike.temporary]
      split_ifs
      · exact ⟨rfl, h⟩
      · exact ⟨rfl, h.setFile fun _ _ _ hAlike => hAlike.temp _⟩

theorem agrees_removeTemp :
    storeMachine.Agrees Alike (sys explain (.remove (sessionDirectory id) .snapshotPartial)) :=
  agrees_sys fun d d' h => by
    simp only [perform, h.file (f := .snapshotPartial) (by decide)]
    split_ifs
    · exact ⟨rfl, h.setFile fun _ _ _ hAlike => hAlike.temp _⟩
    · exact ⟨rfl, h⟩

theorem agrees_renameTemp :
    storeMachine.Agrees Alike (sys explain (.rename (sessionDirectory id) .snapshotPartial .snapshot)) :=
  agrees_sys fun d d' h => by
    simp only [perform, h.file (f := .snapshotPartial) (by decide)]
    split
    · exact ⟨rfl, h⟩
    · exact ⟨rfl, (h.setFile fun _ _ _ hAlike => hAlike.commit _).setFile
        fun _ _ _ hAlike => hAlike.temp _⟩

theorem agrees_load : storeMachine.Agrees Alike (load id) := by
  intro d d' h
  have hLoad := h.load id
  rw [loads_eq, loads_eq] at hLoad
  rw [calmly_load, calmly_load, hLoad]
  exact ⟨rfl, h⟩

theorem agrees_append (e : Entry) : storeMachine.Agrees Alike (append id e) := by
  refine agrees_openLog.bind fun _ => (agrees_catching ?_).bind fun written => ?_
  · cases marshal e.envelope with
    | none => exact agrees_throw _
    | some body => exact (agrees_writeLog _).bind fun _ => agrees_attempt _
  · refine (agrees_catching (agrees_attempt _)).bind fun closed => ?_
    cases written with
    | error e => exact agrees_throw _
    | ok _ =>
      cases closed with
      | error e => exact agrees_throw _
      | ok _ => exact agrees_pure _

theorem agrees_writeSnapshot (s : JournalSnapshot) :
    storeMachine.Agrees Alike (writeSnapshot (sessionDirectory id) s true) := by
  unfold writeSnapshot
  cases marshal s with
  | none => exact agrees_throw _
  | some body =>
    refine agrees_createTemp.bind fun _ => Agrees.bind ?_ fun _ =>
      (agrees_attempt _).bind fun _ => agrees_attempt _
    refine (agrees_catching ?_).bind fun committed => ?_
    · exact (agrees_writeTemp _).bind fun _ => (agrees_attempt _).bind fun _ =>
        (agrees_attempt _).bind fun _ => (agrees_attempt _).bind fun _ => agrees_renameTemp
    · cases committed with
      | error e => exact (agrees_catching agrees_removeTemp).bind fun _ => agrees_throw _
      | ok _ => exact agrees_pure _

def Call.Later : Call → Prop
  | .create _ => False
  | _ => True

theorem Call.agrees {c : Call} (hLater : c.Later) : storeMachine.Agrees Alike c.program := by
  cases c with
  | create s => exact hLater.elim
  | recordIntent i =>
    exact (agrees_attempt _).bind fun _ => (agrees_lift _).bind fun _ => agrees_openLog.bind fun _ =>
      (agrees_attempt _).bind fun _ => agrees_append _
  | bindExecution id b =>
    refine (agrees_attempt _).bind fun _ => (agrees_lift _).bind fun _ => (agrees_lift _).bind fun _ =>
      agrees_openLog.bind fun _ => (agrees_attempt _).bind fun _ => agrees_load.bind fun v => ?_
    obtain ⟨s, pending⟩ := v
    dsimp only
    cases s.executionBinding with
    | some bound =>
      show storeMachine.Agrees Alike (if bound ≠ b then _ else _)
      split_ifs
      · exact agrees_throw _
      · exact agrees_pure _
    | none =>
      refine agrees_sizeLog.bind fun size => ?_
      split_ifs
      · exact agrees_throw _
      · exact agrees_writeSnapshot _
  | recordFact f s =>
    exact (agrees_attempt _).bind fun _ => (agrees_lift _).bind fun _ => agrees_openLog.bind fun _ =>
      (agrees_attempt _).bind fun _ => agrees_load.bind fun _ => (agrees_lift _).bind fun _ =>
      (agrees_append _).bind fun _ => agrees_writeSnapshot _

end Programs

/-- What the calls answer, one after the other, when nothing goes wrong. -/
def outcomes : List Call → Disk → List (Outcome Error Unit)
  | [], _ => []
  | c :: cs, d => (c.run [] d).1 :: outcomes cs (c.run [] d).2

theorem outcomes_alike {cs : List Call} (hLater : ∀ c ∈ cs, c.Later) {d d' : Disk} (h : Alike d d') :
    outcomes cs d = outcomes cs d' := by
  induction cs generalizing d d' with
  | nil => rfl
  | cons c cs ih =>
    obtain ⟨hOutcome, hDisk⟩ := Call.agrees (hLater c mem_cons_self) d d' h
    have hRest := ih (fun c' hc => hLater c' (mem_cons_of_mem _ hc)) hDisk
    exact congrArg₂ List.cons hOutcome hRest

end Camp.Journal
