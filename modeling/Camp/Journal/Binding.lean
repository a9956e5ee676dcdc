import Camp.Journal.Session

/-!
# The execution binding is write-once

A binding enters a session when it is created, or while its log is empty. Every
fact carries on the binding of the journal, whatever its candidate holds.
-/

namespace Camp.Journal

open Wire Wire.Utf8 Program Program.Files Program.Machine Relation

variable {folder : Option (Folder File)} {c : Call} {b : ExecutionBinding} {w : World} {id : Bytes}
variable {s reduced : JournalSnapshot} {f : FactRecord} {hist hist' : Option History}

def Reports (d : Disk) (id : Bytes) (b : ExecutionBinding) : Prop :=
  ∃ s pending, loads d id = some (.ok (s, pending)) ∧ s.executionBinding = some b

/-- The call tries to introduce or change a binding where it may not. -/
def Call.Retargets (d : Disk) : Call → Prop
  | .bindExecution id b => ∃ s pending, loads d id = some (.ok (s, pending)) ∧
      s.executionBinding ≠ some b ∧
      (s.executionBinding = none → d.file (sessionDirectory id) .journal ≠ some [])
  | .recordFact f candidate => ∃ s pending, loads d f.sessionID = some (.ok (s, pending)) ∧
      candidate.executionBinding ≠ none ∧ candidate.executionBinding ≠ s.executionBinding
  | _ => False

theorem composeFactSnapshot_binding (current candidate : JournalSnapshot) (t : Open Transition) :
    (composeFactSnapshot current candidate t).executionBinding = current.executionBinding := by
  fun_cases composeFactSnapshot current candidate t <;> rfl

theorem factSnapshot_binding {current : JournalSnapshot} (h : factSnapshot current f s = .ok reduced) :
    reduced.executionBinding = current.executionBinding := by
  unfold factSnapshot at h
  split_ifs at h
  obtain ⟨_, _, _, rfl⟩ := reduceFact_eq_ok h
  exact composeFactSnapshot_binding ..

def BoundTo (b : ExecutionBinding) (hist : Option History) : Prop :=
  ∃ h, hist = some h ∧ h.current.executionBinding = some b

theorem binding_fact {h : History} (hHeld : Held folder (some h)) (hReduce : factSnapshot h.current f s = .ok reduced) :
    (h.fact f s reduced).current.executionBinding = h.current.executionBinding := by
  rw [current_fact]
  conv_rhs => rw [← hHeld.canonical]
  show Omittable.policy.keep reduced.executionBinding = Omittable.policy.keep h.current.executionBinding
  rw [factSnapshot_binding hReduce]

theorem Advances.boundTo (h : Advances folder c hist hist') (hHeld : Held folder hist) (hBound : BoundTo b hist) :
    BoundTo b hist' := by
  obtain ⟨h₀, rfl, hb⟩ := hBound
  cases h with
  | same => exact ⟨h₀, rfl, hb⟩
  | bound unbound empty => exact absurd (unbound.symm.trans hb) nofun
  | intent => exact ⟨_, rfl, (congrArg _ (current_intent h₀ _)).trans hb⟩
  | fact read reduce => exact ⟨_, rfl, (binding_fact hHeld reduce).trans hb⟩

theorem Advances.appears (h : Advances folder c hist hist') (hHeld : Held folder hist) (hBound : BoundTo b hist') :
    BoundTo b hist ∨
      (∃ s, c = .create s ∧ hist = none ∧ (canon s).executionBinding = some b) ∨
      ∃ id b₀ h₀, c = .bindExecution id b₀ ∧ hist = some h₀ ∧ h₀.entries = [] ∧ canon b₀ = b := by
  obtain ⟨h', hEq, hb⟩ := hBound
  cases h with
  | same => exact Or.inl ⟨h', hEq, hb⟩
  | started valid =>
    cases hEq
    exact Or.inr (Or.inl ⟨_, rfl, rfl, hb⟩)
  | @bound id b₀ h₀ unbound empty =>
    cases hEq
    refine Or.inr (Or.inr ⟨id, b₀, h₀, rfl, rfl, empty, ?_⟩)
    simp only [History.current, History.bind, empty] at hb
    exact Option.some.inj hb
  | @intent i h₀ =>
    cases hEq
    exact Or.inl ⟨h₀, rfl, (congrArg _ (current_intent h₀ _)).symm.trans hb⟩
  | @fact f s reduced h₀ pending read reduce =>
    cases hEq
    exact Or.inl ⟨h₀, rfl, (binding_fact hHeld reduce).symm.trans hb⟩

theorem reports_iff (hRun : ReflTransGen CarefulStep World.start w) :
    Reports w.disk id b ↔ BoundTo b (w.history id) := by
  have hHeld := held_of_run (whole_of_careful hRun) id
  have hReadable := readable_of_run hRun id
  constructor
  · rintro ⟨s, pending, hLoad, hb⟩
    obtain ⟨h, hHistory, rfl⟩ := hHeld.history_of_load hLoad
    exact ⟨h, hHistory, hb⟩
  · rintro ⟨h, hHistory, hb⟩
    rw [hHistory] at hHeld hReadable
    obtain ⟨pending, hRead, _⟩ := readSession_of_readable hHeld hReadable
    exact ⟨h.current, pending, (loads_eq _ _).trans (congrArg some hRead), hb⟩

theorem refused_of_retargets {d : Disk} (h : c.Retargets d) (faults : List Fault) :
    (c.run faults d).1 ≠ some (.ok ()) ∧
      (c.run faults d).2.folder (sessionDirectory c.sessionID) =
        d.folder (sessionDirectory c.sessionID) := by
  have hEffect := (c.run_effect_any faults d).1
  -- what `Load` reports is what the directory says
  have read {id : Bytes} {v : JournalSnapshot × List IntentRecord} (hLoad : loads d id = some (.ok v)) :
      readSession id (d.folder (sessionDirectory id)) = .ok v :=
    Option.some.inj ((loads_eq _ _).symm.trans hLoad)
  generalize (c.run faults d).1 = r at *
  generalize (c.run faults d).2.folder (sessionDirectory c.sessionID) = folder' at *
  generalize hFolder : d.folder (sessionDirectory c.sessionID) = folder at *
  cases hEffect with
  | nothing failed => exact ⟨failed, rfl⟩
  | accepted => exact h.elim
  | created valid written => exact h.elim
  | appended valid before written cut whole => exact h.elim
  | bound hRead same =>
    obtain ⟨s, pending, hLoad, hNe, _⟩ := h
    cases hRead.symm.trans (hFolder ▸ read hLoad)
    exact absurd same hNe
  | bind hRead unbound empty valid write done =>
    obtain ⟨s, pending, hLoad, _, hLog⟩ := h
    cases hRead.symm.trans (hFolder ▸ read hLoad)
    exact absurd (file_of_folder hFolder empty) (hLog unbound)
  | factTorn valid hRead reduce before written cut failed =>
    obtain ⟨s, pending, hLoad, hSome, hNe⟩ := h
    cases hRead.symm.trans (hFolder ▸ read hLoad)
    rw [factSnapshot, if_pos ⟨hSome, hNe⟩] at reduce
    cases reduce
  | fact valid hRead reduce before written write done =>
    obtain ⟨s, pending, hLoad, hSome, hNe⟩ := h
    cases hRead.symm.trans (hFolder ▸ read hLoad)
    rw [factSnapshot, if_pos ⟨hSome, hNe⟩] at reduce
    cases reduce

theorem boundTo_call {faults : List Fault} (hCareful : Careful w c faults)
    (hHeld : Held (w.folder c.sessionID) (w.history c.sessionID)) (h : BoundTo b (w.history id)) :
    BoundTo b ((w.call c faults).history id) := by
  by_cases hID : id = c.sessionID
  · subst hID
    exact (World.advances hHeld hCareful.whole).boundTo hHeld h
  · rwa [World.history_call_ne hID]

theorem boundTo_of_later {w' : World} (hRun : ReflTransGen CarefulStep World.start w)
    (hLater : ReflTransGen CarefulStep w w') (h : BoundTo b (w.history id)) : BoundTo b (w'.history id) := by
  induction hLater with
  | refl => exact h
  | tail hFront hStep ih =>
    obtain ⟨c, faults, hCareful, rfl⟩ := hStep
    exact boundTo_call hCareful (held_of_run (whole_of_careful (hRun.trans hFront)) _) ih

/-- In every run of careful calls a binding that `Load` reports is reported from then on.
It appears with the session or through `BindExecution` on an empty log. A call that
would introduce or change a binding otherwise fails and leaves the files. -/
theorem binding_write_once (hRun : ReflTransGen CarefulStep World.start w) :
    (∀ w', ReflTransGen CarefulStep w w' → ∀ id b, Reports w.disk id b → Reports w'.disk id b) ∧
    (∀ c faults, Careful w c faults → ∀ id b, Reports (w.call c faults).disk id b →
      Reports w.disk id b ∨
      (∃ s, c = .create s ∧ s.sessionID = id ∧ w.history id = none ∧
        (canon s).executionBinding = some b) ∨
      ∃ b₀, c = .bindExecution id b₀ ∧ w.disk.file (sessionDirectory id) .journal = some [] ∧
        canon b₀ = b) ∧
    ∀ (c : Call) (faults : List Fault), c.Retargets w.disk → (c.run faults w.disk).1 ≠ some (.ok ()) ∧
      ∀ f, (c.run faults w.disk).2.file (sessionDirectory c.sessionID) f =
        w.disk.file (sessionDirectory c.sessionID) f := by
  refine ⟨fun w' hLater id b h => ?_, fun c faults hCareful id b h => ?_, fun c faults h => ?_⟩
  · rw [reports_iff hRun] at h
    exact (reports_iff (hRun.trans hLater)).mpr (boundTo_of_later hRun hLater h)
  · have hHeld := held_of_run (whole_of_careful hRun) c.sessionID
    rw [reports_iff (hRun.tail ⟨c, faults, hCareful, rfl⟩)] at h
    rw [reports_iff hRun]
    by_cases hID : id = c.sessionID
    · subst hID
      rcases (World.advances hHeld hCareful.whole).appears hHeld h with
        h | ⟨s, rfl, hNone, hb⟩ | ⟨id, b₀, h₀, rfl, hHistory, hEmpty, hb⟩
      · exact Or.inl h
      · exact Or.inr (Or.inl ⟨s, rfl, rfl, hNone, hb⟩)
      · rw [hHistory] at hHeld
        obtain ⟨g, log, body, s, hFolder, hHolds⟩ := hHeld
        have hLog := hHolds.logged
        rw [hEmpty] at hLog
        cases hLog.log_eq_nil
        exact Or.inr (Or.inr ⟨b₀, rfl, file_of_folder hFolder hHolds.journal, hb⟩)
    · rw [World.history_call_ne hID] at h
      exact Or.inl h
  · obtain ⟨hFailed, hFolder⟩ := refused_of_retargets h faults
    exact ⟨hFailed, fun f => by rw [Tree.file, hFolder, Tree.file]⟩

section Sample

def sampleBound : JournalSnapshot := sampleSnapshot.withBinding sampleBinding

def boundCreated : World := World.start.call (.create sampleBound) []

theorem ready_boundCreated : Ready boundCreated (lit "s") (.start sampleBound) :=
  (Ready.create (s := sampleBound) (by decide) (by decide) (by decide +kernel)).2

theorem reports_boundCreated : Reports boundCreated.disk (lit "s") sampleBinding := by
  obtain ⟨pending, hLoad, _⟩ := ready_boundCreated.load
  exact ⟨_, pending, hLoad, by decide⟩

theorem careful_boundCreated : ReflTransGen CarefulStep World.start boundCreated :=
  .single (careful_calm (c := .create sampleBound) (by decide) trivial)

/-- The fact comes with a candidate that has no binding. -/
theorem binding_write_once_sample : sampleSnapshot.executionBinding = none ∧
    ((Call.recordFact sampleFact sampleSnapshot).run []
      (boundCreated.call (.recordIntent sampleIntent) []).disk).1 = some (.ok ()) ∧
    Reports ((boundCreated.call (.recordIntent sampleIntent) []).call
      (.recordFact sampleFact sampleSnapshot) []).disk (lit "s") sampleBinding := by
  have hReady := (Ready.intent (i := sampleIntent) ready_boundCreated (by decide) (by decide) (by decide)).2
  have hPending : ∃ i, Unanswered ((History.start sampleBound).intent sampleIntent).entries i ∧
      i.id = canon sampleFact.intentID := ⟨canon sampleIntent, ⟨[], [], rfl, by simp⟩, by decide⟩
  have hDone := (Ready.fact (f := sampleFact) (s := sampleSnapshot) hReady (by decide)
    (by decide : _ = Except.ok { sampleBound with updatedAt := sampleFact.timestamp })
    (by decide) (by decide) (by decide) hPending).1
  have hIntent : CarefulStep boundCreated (boundCreated.call (.recordIntent sampleIntent) []) :=
    careful_calm (by decide) trivial
  have hFact := careful_calm (c := .recordFact sampleFact sampleSnapshot) (by decide)
    (Ready.answers hReady hPending)
  exact ⟨rfl, hDone, (binding_write_once careful_boundCreated).1 _
    ((ReflTransGen.single hIntent).tail hFact) _ _ reports_boundCreated⟩

/-- A fact without its intent is accepted, and the binding is reported no more. -/
theorem unknown_fact_hides_binding :
    Reports boundCreated.disk (lit "s") sampleBinding ∧
      ((Call.recordFact sampleFact sampleBound).run [] boundCreated.disk).1 = some (.ok ()) ∧
      ∀ b, ¬ Reports (boundCreated.call (.recordFact sampleFact sampleBound) []).disk (lit "s") b := by
  obtain ⟨hOutcome, hHistory, _⟩ := ready_boundCreated.fact_recorded (f := sampleFact)
    (s := sampleBound) (by decide)
    (by decide : _ = Except.ok { sampleBound with updatedAt := sampleFact.timestamp })
    (by decide) (by decide)
  have hHeld := Ready.held_after (c := .recordFact sampleFact sampleBound) ready_boundCreated
    (whole_calm _ _) hHistory
  obtain ⟨e, hLoad⟩ := load_unknown_intent hHeld rfl fun i hi => absurd hi (not_unanswered_nil i)
  refine ⟨reports_boundCreated, hOutcome, fun b => ?_⟩
  rintro ⟨s, pending, hOther, _⟩
  exact absurd (hLoad.symm.trans hOther) nofun

end Sample

end Camp.Journal
