import Camp.Journal.History

/-!
# Calls that keep a session readable

A fact is only recorded for an intent that is pending. Then every log can be
replayed after every call, and `Load` reports the history.
-/

namespace Camp.Journal

open Wire Wire.Utf8 Program Program.Files Program.Machine Relation

variable {w : World} {id : Bytes} {es : List Entry}

/-- A fact answers an intent that `Load` reports, as the ids are read back. -/
def Call.Answers (d : Disk) : Call → Prop
  | .recordFact f _ => ∀ s pending, loads d f.sessionID = some (.ok (s, pending)) →
      canon f.intentID ∈ pending.map (·.id)
  | _ => True

/-- No line is cut, session ids are text, and facts answer pending intents. -/
structure Careful (w : World) (c : Call) (faults : List Fault) : Prop where
  whole : c.Whole faults w.disk
  text : canon c.sessionID = c.sessionID
  answers : c.Answers w.disk

def CarefulStep (w w' : World) : Prop := ∃ c faults, Careful w c faults ∧ w' = w.call c faults

theorem CarefulStep.wholeStep {w' : World} (h : CarefulStep w w') : WholeStep w w' := by
  obtain ⟨c, faults, hCareful, rfl⟩ := h
  exact ⟨c, faults, hCareful.whole, rfl⟩

theorem whole_of_careful (hRun : ReflTransGen CarefulStep World.start w) : ReflTransGen WholeStep World.start w :=
  ReflTransGen.mono (fun _ _ => CarefulStep.wholeStep) _ _ hRun

def Replays (id : Bytes) (es : List Entry) : Prop :=
  ∀ s, ∃ r, es.foldlM (Entry.replay id) ⟨s, []⟩ = .ok r

theorem replays_nil (id : Bytes) : Replays id [] := fun s => ⟨⟨s, []⟩, rfl⟩

theorem replays_snoc {e : Entry} (h : Replays id es)
    (hLast : ∀ s r, es.foldlM (Entry.replay id) ⟨s, []⟩ = .ok r → ∃ r', e.replay id r = .ok r') :
    Replays id (es ++ [e]) := by
  intro s
  obtain ⟨r, hr⟩ := h s
  obtain ⟨r', hr'⟩ := hLast s r hr
  refine ⟨r', ?_⟩
  rw [List.foldlM_append, hr]
  exact (bind_pure _).trans hr'

theorem replays_intent {i : IntentRecord} (h : Replays id es) (hID : i.sessionID = id) :
    Replays id (es ++ [.intent i]) :=
  replays_snoc h fun _ r _ => ⟨r.put i, by simp [Entry.replay, Entry.envelope, replayEntry, hID]⟩

theorem replays_fact {f : FactRecord} {s : JournalSnapshot} (h : Replays id es) (hID : f.sessionID = id)
    (hPending : ∃ i, Unanswered es i ∧ i.id = f.intentID) : Replays id (es ++ [.fact f s]) := by
  refine replays_snoc h fun s₀ r hr => ⟨r.answer f.intentID s, ?_⟩
  obtain ⟨i, hi, hEq⟩ := hPending
  have hMem := ((Replay.sound_of_foldlM hr).mem i).mpr hi
  have hIs : r.isPending f.intentID = true := List.any_eq_true.mpr ⟨i, hMem, decide_eq_true hEq⟩
  simp [Entry.replay, Entry.envelope, replayEntry, hID, hIs]

def Readable (id : Bytes) (hist : Option History) : Prop :=
  ∀ h, hist = some h → validateSessionID id = .ok () ∧ Replays id h.entries

theorem readSession_of_readable {folder : Option (Folder File)} {h : History} (hHeld : Held folder (some h))
    (hReadable : Readable id (some h)) :
    ∃ pending, readSession id folder = .ok (h.current, pending) ∧
      (∀ i, i ∈ pending ↔ Unanswered h.entries i) ∧
      pending.Pairwise fun a b => idKey a < idKey b := by
  obtain ⟨g, log, body, s, rfl, hHolds⟩ := hHeld
  obtain ⟨hID, hReplays⟩ := hReadable h rfl
  obtain ⟨r, hr⟩ := hReplays s
  have hSound := Replay.sound_of_foldlM hr
  refine ⟨sortIntents r.pending, ?_, fun i => ?_, sorted_sortIntents hSound.ids⟩
  · rw [← hHolds.current, ← hSound.snapshot]
    exact readSession_eq_ok.mpr ⟨hID, g, body, s, log, r, rfl, hHolds.snapshot, hHolds.decoded,
      hHolds.journal, (hHolds.logged.replayLog id s).trans hr, rfl⟩
  · rw [mem_sortIntents, hSound.mem]

theorem readable_call {c : Call} {faults : List Fault} (hCareful : Careful w c faults)
    (hHeld : Held (w.folder c.sessionID) (w.history c.sessionID)) (h : Readable c.sessionID (w.history c.sessionID)) :
    Readable c.sessionID ((w.call c faults).history c.sessionID) := by
  have hAdvances := World.advances hHeld hCareful.whole
  generalize hBefore : w.history c.sessionID = before at *
  generalize (w.call c faults).history c.sessionID = after at *
  cases hAdvances with
  | same => exact h
  | started valid =>
    rintro _ ⟨⟩
    exact ⟨valid, replays_nil _⟩
  | bound unbound empty =>
    rintro _ ⟨⟩
    obtain ⟨hID, hReplays⟩ := h _ rfl
    exact ⟨hID, hReplays⟩
  | intent =>
    rintro _ ⟨⟩
    obtain ⟨hID, hReplays⟩ := h _ rfl
    exact ⟨hID, replays_intent hReplays hCareful.text⟩
  | @fact f s reduced h₀ pending read reduce =>
    rintro _ ⟨⟩
    obtain ⟨hID, hReplays⟩ := h _ rfl
    refine ⟨hID, replays_fact hReplays hCareful.text ?_⟩
    have hLoad : loads w.disk f.sessionID = some (.ok (h₀.current, pending)) :=
      (loads_eq _ _).trans (congrArg some read)
    obtain ⟨i, hi, hEq⟩ := List.mem_map.mp (hCareful.answers _ _ hLoad)
    obtain ⟨pending', hRead, hMem, _⟩ := readSession_of_readable hHeld h
    cases read.symm.trans hRead
    exact ⟨i, (hMem i).mp hi, hEq⟩

theorem readable_of_run (hRun : ReflTransGen CarefulStep World.start w) (id : Bytes) : Readable id (w.history id) := by
  induction hRun with
  | refl =>
    intro h hNone
    simp [World.start] at hNone
  | @tail w w' hFront hStep ih =>
    have hHeld := held_of_run (whole_of_careful hFront) id
    obtain ⟨c, faults, hCareful, rfl⟩ := hStep
    by_cases hID : id = c.sessionID
    · subst hID
      exact readable_call hCareful hHeld ih
    · rw [World.history_call_ne hID]
      exact ih

end Camp.Journal
