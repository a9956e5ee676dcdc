import Camp.Journal.Session

/-!
# Replay is total for careful callers

`RecordFact` does not look for the intent that it answers. A fact without one is
appended, and from then on the session cannot be loaded.
-/

namespace Camp.Journal

open Wire Wire.Utf8 Program Program.Files Program.Machine Relation

/-- In every run of careful calls `Load` succeeds for every session. It reports the
snapshot of the last appended fact, or the initial one, and the appended intents
without an answer. An id stands for its last intent. An intent or fact whose call
reports success has been appended. -/
theorem load_reports_history {w : World} (hRun : ReflTransGen CarefulStep World.start w)
    {id : Bytes} {h : History} (hHistory : w.history id = some h) :
    (∃ pending, loads w.disk id = some (.ok (lastSnapshot h.initial h.entries, pending)) ∧
      (∀ i, i ∈ pending ↔ Unanswered h.entries i) ∧
      pending.Pairwise fun a b => idKey a < idKey b) ∧
    ∀ (c : Call) faults, c.Whole faults w.disk → (c.run faults w.disk).1 = some (.ok ()) →
      c.Recorded (w.history c.sessionID) ((w.call c faults).history c.sessionID) := by
  refine ⟨?_, fun c faults => recorded_of_run (whole_of_careful hRun)⟩
  have hHeld := held_of_run (whole_of_careful hRun) id
  have hReadable := readable_of_run hRun id
  rw [hHistory] at hHeld hReadable
  obtain ⟨pending, hRead, hPending⟩ := readSession_of_readable hHeld hReadable
  exact ⟨pending, (loads_eq _ _).trans (congrArg some hRead), hPending⟩

theorem load_reports_history_sample :
    ∃ pending, loads sampleAnswered.disk (lit "s") = some (.ok (canon sampleReduced, pending)) ∧
      (∀ i, i ∈ pending ↔ Unanswered [(Entry.intent sampleIntent).canon,
        (Entry.fact sampleFact sampleReduced).canon] i) ∧
      pending.Pairwise fun a b => idKey a < idKey b :=
  (load_reports_history careful_sampleAnswered ready_sampleAnswered.history).1

/-- A fact whose snapshot could not be written is recorded again, as its caller has to.
The second call is accepted, and the session is lost. -/
theorem retried_fact_breaks_load :
    ∃ faults e, ((Call.recordFact sampleFact sampleSnapshot).run faults sampleAnnounced.disk).1 =
        some (.error e) ∧
      ((Call.recordFact sampleFact sampleSnapshot).run []
        (sampleAnnounced.call (.recordFact sampleFact sampleSnapshot) faults).disk).1 = some (.ok ()) ∧
      ∃ e', loads ((sampleAnnounced.call (.recordFact sampleFact sampleSnapshot) faults).call
        (.recordFact sampleFact sampleSnapshot) []).disk (lit "s") = some (.error e') := by
  obtain ⟨faults, e, hFailed, hReady⟩ := ready_sampleAnnounced.fact_failed (f := sampleFact) (by decide)
    sample_reduce (by decide) (by decide) (by decide) sample_pending
  obtain ⟨hOutcome, hHistory, _⟩ := hReady.fact_recorded (f := sampleFact) (s := sampleSnapshot)
    (by decide) (by decide : _ = Except.ok sampleReduced) (by decide) (by decide)
  refine ⟨faults, e, hFailed, hOutcome, ?_⟩
  have hHeld := Ready.held_after (c := .recordFact sampleFact sampleSnapshot) hReady (whole_calm _ _) hHistory
  refine load_unknown_intent hHeld rfl fun i hi => ?_
  obtain hEq | ⟨_, hNe⟩ := unanswered_snoc.mp hi
  · cases hEq
  · exact hNe.symm

end Camp.Journal
