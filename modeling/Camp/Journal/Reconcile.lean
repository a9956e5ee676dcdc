import Camp.Wire.JsonLocal
import Camp.Program.Checks
import Camp.Journal.Session

/-!
# Reconciliation of pending intents

At start-up every intent without a fact is shown to the observer of its
transition, and the observer's fact is recorded. Each intent is answered by a
line of its own, in the order of the loaded intents. When the journal fails
part-way, the log has a front of these lines, and the last may be torn. A torn
line makes the log unreadable unless only its line break is missing, so a later
run never answers an intent again.
-/

namespace Camp.Journal

open Wire Wire.Utf8 Program Program.Files Program.Machine Program.Checks List Option

abbrev Observer := JournalSnapshot → IntentRecord → Except Error (FactRecord × JournalSnapshot)

abbrev Observers := Open Transition → Option Observer

def unknownTransition : Error := .message "pending intent has no reconciliation observer" []

section Model

variable (sessionID : Bytes) (observers : Observers)

/-- One turn of the loop: the snapshot after it, or the reason to stop. -/
def answer (snapshot : JournalSnapshot) (intent : IntentRecord) : Store JournalSnapshot := do
  match observers intent.transition with
  | none => throw (about "transition %q: %w" [intent.transition.toBytes] unknownTransition)
  | some observer =>
    let (fact, next) ← liftM (observer snapshot intent)
    if fact.intentID ≠ intent.id ∨ fact.sessionID ≠ sessionID ∨ fact.transition ≠ intent.transition then
      throw (.message "reconciliation observer returned mismatched fact" [])
    recordFact fact next
    let (reduced, _) ← load sessionID
    pure reduced

/-- A failed turn ends the loop with the snapshot of the turn before. -/
def answerAll : JournalSnapshot → List IntentRecord → Store (JournalSnapshot × Option Error)
  | snapshot, [] => pure (snapshot, none)
  | snapshot, intent :: pending => do
    match ← catching (answer sessionID observers snapshot intent) with
    | .ok reduced => answerAll reduced pending
    | .error e => pure (snapshot, some e)

def reconcile : Store (JournalSnapshot × Option Error) := do
  match ← catching (load sessionID) with
  | .ok (snapshot, pending) => answerAll sessionID observers snapshot pending
  | .error e => pure (Wired.codec.zero, some e)

end Model

section Answers

variable (sessionID : Bytes)

structure Matches (i : IntentRecord) (f : FactRecord) : Prop where
  intent : f.intentID = i.id
  session : f.sessionID = sessionID
  transition : f.transition = i.transition

/-- A line of the log that answers the intent. -/
def FactLine (i : IntentRecord) (line : Bytes) : Prop :=
  ∃ f s, Matches sessionID i f ∧ (Entry.fact f s).line = some line

/-- One line for each of the intents, in their order, and nothing else. -/
inductive Answered : List IntentRecord → Bytes → Prop where
  | nil : Answered [] []
  | cons {i : IntentRecord} {pending : List IntentRecord} {line bytes : Bytes} (first : FactLine sessionID i line)
      (later : Answered pending bytes) : Answered (i :: pending) (line ++ bytes)

/-- What a run that breaks off has appended: the pending intents, those it has
answered, and the bytes. A document that lacks its line break is still an answer. -/
inductive Progress : List IntentRecord → List IntentRecord → Bytes → Prop where
  | start (pending : List IntentRecord) : Progress pending [] []
  | torn {i : IntentRecord} {pending : List IntentRecord} {part rest : Bytes} {b : UInt8}
      (line : FactLine sessionID i (part ++ b :: rest ++ [10])) : Progress (i :: pending) [] part
  | unbroken {i : IntentRecord} {pending : List IntentRecord} {body : Bytes}
      (line : FactLine sessionID i (body ++ [10])) :
      Progress (i :: pending) [i] body
  | answered {i : IntentRecord} {pending answered : List IntentRecord} {line bytes : Bytes}
      (first : FactLine sessionID i line) (later : Progress pending answered bytes) :
      Progress (i :: pending) (i :: answered) (line ++ bytes)

variable {sessionID} {i : IntentRecord} {pending answered : List IntentRecord} {line bytes : Bytes}

theorem Progress.front (h : Progress sessionID pending answered bytes) : answered <+: pending := by
  induction h with
  | start pending => exact nil_prefix
  | torn line => exact nil_prefix
  | unbroken line => exact ⟨_, rfl⟩
  | answered first later ih => exact cons_prefix_cons.mpr ⟨rfl, ih⟩

theorem Answered.progress (h : Answered sessionID pending bytes) : Progress sessionID pending pending bytes := by
  induction h with
  | nil => exact .start []
  | cons first later ih => exact .answered first ih

theorem FactLine.body (h : FactLine sessionID i line) : ∃ body, line = body ++ [10] := by
  obtain ⟨f, s, _, hLine⟩ := h
  obtain ⟨body, _, rfl⟩ := map_eq_some_iff.mp hLine
  exact ⟨body, rfl⟩

/-- Whatever part of the line reached the log. -/
theorem Progress.of_take (h : FactLine sessionID i line) (pending : List IntentRecord) (kept : Nat) :
    ∃ answered, Progress sessionID (i :: pending) answered (line.take kept) ∧ answered.length ≤ 1 := by
  obtain ⟨body, rfl⟩ := h.body
  rcases Nat.lt_trichotomy kept body.length with hShort | rfl | hLong
  · have hSplit : body = body.take kept ++ body[kept] :: body.drop (kept + 1) := by
      rw [cons_getElem_drop_succ, take_append_drop]
    rw [take_append_of_le_length hShort.le]
    exact ⟨[], .torn (hSplit ▸ h), Nat.zero_le 1⟩
  · rw [take_left]
    exact ⟨[i], .unbroken h, le_rfl⟩
  · rw [take_of_length_le (by simp; omega)]
    have hProgress := Progress.answered h (.start pending)
    rw [append_nil] at hProgress
    exact ⟨[i], hProgress, le_rfl⟩

end Answers

section Log

variable {sessionID : Bytes} {r r' : Replay}
variable {i : IntentRecord} {s : JournalSnapshot}
variable {entry : Envelope} {log bytes : Bytes} {pending answered : List IntentRecord}

theorem readLines_unbroken {line : Bytes} (h : (10 : UInt8) ∉ line) (hLine : line ≠ []) : readLines line = [line] := by
  induction line with
  | nil => exact absurd rfl hLine
  | cons b line ih =>
    obtain ⟨hb, hTail⟩ := not_or.mp (mt mem_cons.mpr h)
    rw [readLines, if_neg (Ne.symm hb)]
    cases line with
    | nil => rfl
    | cons c line => rw [ih hTail (by simp)]

theorem readLines_joined {last : Bytes} (h : (10 : UInt8) ∉ last) {b : UInt8} (hb : b ≠ 10) (t : Bytes) :
    ∃ rest lines, readLines (last ++ b :: t) = (last ++ b :: rest) :: lines := by
  induction last with
  | nil =>
    rw [nil_append, readLines, if_neg hb]
    cases readLines t with
    | nil => exact ⟨[], [], rfl⟩
    | cons line lines => exact ⟨line, lines, rfl⟩
  | cons c last ih =>
    obtain ⟨hc, hLast⟩ := not_or.mp (mt mem_cons.mpr h)
    obtain ⟨rest, lines, hLines⟩ := ih hLast
    refine ⟨rest, lines, ?_⟩
    rw [cons_append, readLines, if_neg (Ne.symm hc), hLines]
    rfl

theorem endsLine_or (log : Bytes) :
    EndsLine log ∨ ∃ front last, EndsLine front ∧ (10 : UInt8) ∉ last ∧ last ≠ [] ∧ log = front ++ last := by
  induction log using List.reverseRecOn with
  | nil => exact Or.inl (Or.inl rfl)
  | append_singleton log b ih =>
    by_cases hb : b = 10
    · exact Or.inl (Or.inr ⟨log, by rw [hb]⟩)
    · rcases ih with hEnds | ⟨front, last, hEnds, hLast, _, rfl⟩
      · exact Or.inr ⟨log, [b], hEnds, by simpa using Ne.symm hb, by simp, rfl⟩
      · refine Or.inr ⟨front, last ++ [b], hEnds, ?_, by simp, by simp⟩
        simpa [hLast] using Ne.symm hb

theorem replayEntry_cases (h : replayEntry sessionID r entry = .ok r') :
    (∃ i, entry.intent = some i ∧ r' = r.put i) ∨ ∃ id s, r' = r.answer id s := by
  unfold replayEntry at h
  split at h
  · split at h
    · split_ifs at h
      cases h
      exact Or.inl ⟨_, ‹_›, rfl⟩
    · cases h
  · split at h
    · split_ifs at h
      cases h
      exact Or.inr ⟨_, _, rfl⟩
    · cases h
  · cases h

/-- A line that is replayed is an object: the empty envelope has no kind. -/
theorem object_of_replayLine {line : Bytes} (h : replayLine sessionID r line = .ok r') :
    ∃ ms, Json.parse line = some (.obj ms) := by
  unfold replayLine at h
  split at h
  · rename_i entry hEntry
    obtain ⟨j, hParse, hDec⟩ := bind_eq_some_iff.mp hEntry
    cases j with
    | obj ms => exact ⟨ms, hParse⟩
    | null =>
      cases hDec
      cases h
    | _ => cases hDec
  · cases h

/-- What the replay of a log knows of the intents it holds. -/
structure Replay.Kept (r : Replay) : Prop where
  ids : (r.pending.map (·.id)).Nodup
  texts : ∀ i ∈ r.pending, sanitize i.id = i.id

section Fields

variable {σ α β : Type} {f : Fields σ (α → β)} {n : String} {get : σ → α} {ms : List Member} {b : β}

theorem exists_of_field [Wired α] (h : (f.field n get).read ms = some b) :
    ∃ g a, f.read ms = some g ∧ (a = (Wired.codec : Codec α).zero ∨ ∃ j, (Wired.codec : Codec α).dec j = some a) ∧
    b = g a :=
  Fields.exists_of_read h

theorem exists_of_fieldOmit [Wired α] [Omittable α] (h : (f.fieldOmit n get).read ms = some b) :
    ∃ g a, f.read ms = some g ∧ (a = (Wired.codec : Codec α).zero ∨ ∃ j, (Wired.codec : Codec α).dec j = some a) ∧
    b = g a :=
  Fields.exists_of_read h

end Fields

theorem sanitize_of_dec {j : Json} {s : Bytes} (h : (Wired.codec : Codec Bytes).dec j = some s) : sanitize s = s := by
  cases j with
  | null => cases h; rfl
  | str syms => cases h; exact sanitize_encode _
  | _ => cases h

theorem sanitize_intent {ms : List Member} (h : (Record.fields : Fields IntentRecord IntentRecord).read ms = some i) :
    sanitize i.id = i.id := by
  obtain ⟨_, _, hTimestamp, _, rfl⟩ := exists_of_fieldOmit h
  obtain ⟨_, _, hAttempt, _, rfl⟩ := exists_of_field hTimestamp
  obtain ⟨_, _, hTransition, _, rfl⟩ := exists_of_field hAttempt
  obtain ⟨_, _, hSession, _, rfl⟩ := exists_of_field hTransition
  obtain ⟨_, _, hFirst, _, rfl⟩ := exists_of_field hSession
  obtain ⟨_, id, hNone, hID, rfl⟩ := exists_of_field hFirst
  cases hNone
  rcases hID with rfl | ⟨j, hDec⟩
  · rfl
  · exact sanitize_of_dec hDec

theorem sanitize_of_unmarshal {line : Bytes} (h : unmarshal line = some entry) (hIntent : entry.intent = some i) :
    sanitize i.id = i.id := by
  obtain ⟨j, _, hDec⟩ := bind_eq_some_iff.mp h
  cases j with
  | null =>
    cases hDec
    cases hIntent
  | obj ms =>
    have hFields : (Record.fields : Fields Envelope Envelope).read ms = some entry := hDec
    obtain ⟨_, _, hFact, _, rfl⟩ := exists_of_fieldOmit hFields
    obtain ⟨_, _, hEarlier, _, rfl⟩ := exists_of_fieldOmit hFact
    obtain ⟨_, intent, hKind, hRead, rfl⟩ := exists_of_fieldOmit hEarlier
    obtain ⟨_, _, hNone, _, rfl⟩ := exists_of_field hKind
    cases hNone
    cases hIntent
    rcases hRead with hZero | ⟨j, hRead⟩
    · cases hZero
    · cases j with
      | null => cases hRead
      | obj ms' =>
        obtain ⟨i', hi, hEq⟩ := map_eq_some_iff.mp hRead
        cases hEq
        exact sanitize_intent hi
      | _ => cases hRead
  | _ => cases hDec

theorem Replay.Kept.line {line : Bytes} (hKept : r.Kept) (h : replayLine sessionID r line = .ok r') : r'.Kept := by
  unfold replayLine at h
  split at h
  · rename_i entry hEntry
    rcases replayEntry_cases h with ⟨i, hIntent, rfl⟩ | ⟨id, s, rfl⟩
    · refine ⟨nodup_cons.mpr ⟨by simp, Replay.nodup_filter hKept.ids _⟩, forall_mem_cons.mpr ⟨?_, ?_⟩⟩
      · exact sanitize_of_unmarshal hEntry hIntent
      · exact fun j hj => hKept.texts j (mem_of_mem_filter hj)
    · exact ⟨Replay.nodup_filter hKept.ids _, fun j hj => hKept.texts j (mem_of_mem_filter hj)⟩
  · cases h

theorem Replay.Kept.lines {lines : List Bytes} (hKept : r.Kept) (h : lines.foldlM (replayLine sessionID) r = .ok r') :
    r'.Kept := by
  induction lines generalizing r with
  | nil =>
    cases h
    exact hKept
  | cons line lines ih =>
    obtain ⟨middle, hLine, hLines⟩ := bind_eq_ok.mp h
    exact ih (hKept.line hLine) hLines

theorem kept_of_replayLog (h : replayLog sessionID s log = .ok r) : r.Kept :=
  Replay.Kept.lines (r := ⟨s, []⟩) ⟨nodup_nil, by simp⟩ h

theorem FactLine.head {line : Bytes} (h : FactLine sessionID i line) : ∃ tail, line = 0x7B :: tail := by
  obtain ⟨f, s, _, hLine⟩ := h
  obtain ⟨body, hBody, rfl⟩ := map_eq_some_iff.mp hLine
  obtain ⟨j, hEnc, rfl⟩ := map_eq_some_iff.mp hBody
  obtain ⟨ms, _, rfl⟩ := map_eq_some_iff.mp hEnc
  cases ms with
  | nil => exact ⟨_, rfl⟩
  | cons m ms => exact ⟨_, rfl⟩

theorem Progress.head (h : Progress sessionID pending answered bytes) (hi : i ∈ answered) : ∃ t, bytes = 0x7B :: t := by
  cases h with
  | start pending => cases hi
  | torn line => cases hi
  | unbroken line =>
    obtain ⟨tail, hTail⟩ := line.head
    cases bytes with
    | nil => cases hTail
    | cons b bytes => exact ⟨bytes, by rw [(List.cons.inj hTail).1]⟩
  | answered first later =>
    obtain ⟨tail, rfl⟩ := first.head
    exact ⟨_, rfl⟩

/-- A log whose last line lacks its break cannot be read once a line is appended. -/
theorem not_replayLog_joined {s' : JournalSnapshot} (h : replayLog sessionID s log = .ok r) (hLog : ¬ EndsLine log)
    (t : Bytes) : replayLog sessionID s' (log ++ 0x7B :: t) ≠ .ok r' := by
  obtain ⟨front, last, hFront, hLast, hNe, rfl⟩ := (endsLine_or log).resolve_left hLog
  intro hJoined
  unfold replayLog at h hJoined
  rw [readLines_append hFront, readLines_unbroken hLast hNe, foldlM_append] at h
  obtain ⟨middle, _, hLine⟩ := bind_eq_ok.mp h
  obtain ⟨_, hLine, _⟩ := bind_eq_ok.mp hLine
  obtain ⟨ms, hObject⟩ := object_of_replayLine hLine
  obtain ⟨rest, lines, hLines⟩ := readLines_joined hLast (b := 0x7B) (by decide) t
  rw [append_assoc, readLines_append hFront, hLines, foldlM_append] at hJoined
  obtain ⟨middle', _, hLine'⟩ := bind_eq_ok.mp hJoined
  obtain ⟨_, hLine', _⟩ := bind_eq_ok.mp hLine'
  obtain ⟨ms', hObject'⟩ := object_of_replayLine hLine'
  rw [Json.parse_obj_append hObject (by decide) (by decide)] at hObject'
  cases hObject'

theorem replay_matching {f : FactRecord} (hMatch : Matches sessionID i f) (hText : sanitize i.id = i.id)
    (h : (Entry.fact f s).canon.replay sessionID r = .ok r') : r'.pending = r.pending.filter fun j => j.id ≠ i.id := by
  rcases Replay.replay_cases h with ⟨i', hEq, _⟩ | ⟨f', s', hEq, _, _, rfl⟩
  · cases hEq
  · cases hEq
    have hID : (canon f).intentID = i.id := by
      rw [← hText, ← hMatch.intent]
      rfl
    rw [Replay.answer, hID]

/-- After what a run has appended, no intent that it answered is pending. -/
theorem Progress.replay (h : Progress sessionID pending answered bytes) (hTexts : ∀ i ∈ pending, sanitize i.id = i.id)
    (hReplay : (readLines bytes).foldlM (replayLine sessionID) r = .ok r') :
    (∀ j ∈ r'.pending, j ∈ r.pending) ∧ ∀ i ∈ answered, ∀ j ∈ r'.pending, j.id ≠ i.id := by
  induction h generalizing r with
  | start pending =>
    cases hReplay
    exact ⟨fun j hj => hj, by simp⟩
  | @torn i pending part rest b line =>
    obtain ⟨f, s, _, hLine⟩ := line
    obtain ⟨body, hBody, hEq⟩ := map_eq_some_iff.mp hLine
    obtain ⟨rfl, _⟩ := append_inj' hEq rfl
    have hBreak : (10 : UInt8) ∉ part := fun hMem => newline_marshal hBody (mem_append_left _ hMem)
    by_cases hPart : part = []
    · subst hPart
      cases hReplay
      exact ⟨fun j hj => hj, by simp⟩
    · rw [readLines_unbroken hBreak hPart] at hReplay
      obtain ⟨_, hReplay, _⟩ := bind_eq_ok.mp hReplay
      obtain ⟨ms, hObject⟩ := object_of_replayLine hReplay
      obtain ⟨j, _, hDocument⟩ := map_eq_some_iff.mp hBody
      exact absurd (Json.parse_front hDocument hObject) (by simp)
  | @unbroken i pending body line =>
    obtain ⟨f, s, hMatch, hLine⟩ := line
    obtain ⟨body', hBody, hEq⟩ := map_eq_some_iff.mp hLine
    obtain ⟨rfl, _⟩ := append_inj' hEq rfl
    have hNe : body' ≠ [] := by
      obtain ⟨tail, hTail⟩ := FactLine.head ⟨f, s, hMatch, hLine⟩
      rintro rfl
      cases hTail
    rw [readLines_unbroken (newline_marshal hBody) hNe] at hReplay
    obtain ⟨_, hReplay, hEnd⟩ := bind_eq_ok.mp hReplay
    cases hEnd
    rw [replayLine, unmarshal_marshal hBody, Entry.canon_envelope] at hReplay
    rw [replay_matching hMatch (hTexts i mem_cons_self) hReplay]
    exact ⟨fun j hj => mem_of_mem_filter hj, by simp⟩
  | @answered i pending answered line bytes first later ih =>
    obtain ⟨f, s, hMatch, hLine⟩ := first
    have hReplayLine := Entry.replayLine_line hLine sessionID
    obtain ⟨body, hBody, rfl⟩ := map_eq_some_iff.mp hLine
    rw [readLines_line (newline_marshal hBody)] at hReplay
    obtain ⟨middle, hFirst, hLater⟩ := bind_eq_ok.mp hReplay
    rw [hReplayLine] at hFirst
    have hMiddle := replay_matching hMatch (hTexts i mem_cons_self) hFirst
    obtain ⟨hSub, hLaterGone⟩ := ih (fun j hj => hTexts j (mem_cons_of_mem _ hj)) hLater
    rw [hMiddle] at hSub
    refine ⟨fun j hj => mem_of_mem_filter (hSub j hj), forall_mem_cons.mpr ⟨fun j hj => ?_, hLaterGone⟩⟩
    exact of_decide_eq_true (mem_filter.mp (hSub j hj)).2

end Log

section Runs

variable {sessionID : Bytes} {observers : Observers} {d : Disk} {log : Bytes}
variable {i : IntentRecord} {d₀ : Disk} {snapshot : JournalSnapshot}
  {r : Outcome Error (JournalSnapshot × Option Error)}
variable {s : JournalSnapshot} {answered pending later : List IntentRecord} {bytes : Bytes} {d' : Disk}

def everyCut (_ : Op Bytes File Probe) (_ : Nat) : Prop := True

/-- What a turn for the intent can do to the log. -/
inductive Turn (sessionID : Bytes) (i : IntentRecord) (log : Bytes) : Outcome Error JournalSnapshot → Disk → Prop where
  | done {reduced : JournalSnapshot} {pending : List IntentRecord} {line : Bytes} {d : Disk}
      (answer : FactLine sessionID i line)
      (written : d.file (sessionDirectory sessionID) .journal = some (log ++ line))
      (read : readSession sessionID (d.folder (sessionDirectory sessionID)) = .ok (reduced, pending)) :
      Turn sessionID i log (some (.ok reduced)) d
  | nothing {r : Outcome Error JournalSnapshot} {d : Disk} (failed : ∀ s, r ≠ some (.ok s))
      (same : d.file (sessionDirectory sessionID) .journal = some log) : Turn sessionID i log r d
  | broken {r : Outcome Error JournalSnapshot} {line : Bytes} {kept : Nat} {d : Disk} (failed : ∀ s, r ≠ some (.ok s))
      (answer : FactLine sessionID i line)
      (written : d.file (sessionDirectory sessionID) .journal = some (log ++ line.take kept)) : Turn sessionID i log r d

theorem SnapshotWrite.journal {g g' : Folder File} (h : SnapshotWrite g s g') : g' .journal = g .journal := by
  cases h with
  | kept g' journal snapshot temporary => exact journal
  | replaced body written absent => simp

/-- What recording the fact of an observer can do to the log. -/
theorem log_of_effect {f : FactRecord} {g g' : Option (Folder File)} {r : Outcome Error Unit}
    (hMatch : Matches sessionID i f) (hLog : g.bind (· .journal) = some log)
    (h : Effect everyCut (.recordFact f s) g r g') :
    (∃ line, FactLine sessionID i line ∧ g'.bind (· .journal) = some (log ++ line)) ∨
      r ≠ some (.ok ()) ∧ (g'.bind (· .journal) = some log ∨
        ∃ line kept, FactLine sessionID i line ∧ g'.bind (· .journal) = some (log ++ line.take kept)) := by
  cases h with
  | nothing failed => exact Or.inr ⟨failed, Or.inl hLog⟩
  | factTorn valid read reduce before written cut failed =>
    rename_i line kept
    cases hLog.symm.trans before
    exact Or.inr ⟨failed, Or.inr ⟨line, kept, ⟨f, _, hMatch, written⟩, by simp⟩⟩
  | fact valid read reduce before written write done =>
    cases hLog.symm.trans before
    exact Or.inl ⟨_, ⟨f, _, hMatch, written⟩, by simp [write.journal]⟩

theorem answer_ends (snapshot : JournalSnapshot) (hLog : d.file (sessionDirectory sessionID) .journal = some log) :
    storeMachine.Ends (within everyCut) (answer sessionID observers snapshot i) (Turn sessionID i log) d := by
  have hError (e : Error) : Turn sessionID i log (some (.error e)) d := .nothing (by simp) hLog
  unfold answer
  cases observers i.transition with
  | none => exact hError _
  | some observer =>
    refine Ends.bind ((ends_lift ..).mpr ?_)
    cases observer snapshot i with
    | error e => exact hError e
    | ok found =>
      obtain ⟨fact, next⟩ := found
      show storeMachine.Ends _ (if _ then _ else _) _ _
      by_cases hMismatch : fact.intentID ≠ i.id ∨ fact.sessionID ≠ sessionID ∨ fact.transition ≠ i.transition
      · rw [if_pos hMismatch]
        exact hError _
      · rw [if_neg hMismatch]
        simp only [not_or, not_not] at hMismatch
        obtain ⟨hIntent, rfl, hTransition⟩ := hMismatch
        have hMatch : Matches fact.sessionID i fact := ⟨hIntent, rfl, hTransition⟩
        -- a fact that is recorded is followed by a load, which may fail too
        have hWritten {d' : Disk} {line : Bytes} (hLine : FactLine fact.sessionID i line)
            (hLog' : d'.file (sessionDirectory fact.sessionID) .journal = some (log ++ line)) :
            MayBreak (Turn fact.sessionID i log) d' := by
          rw [← take_length (l := line)] at hLog'
          exact ⟨.broken (by simp) hLine hLog', fun e => .broken (by simp) hLine hLog'⟩
        have hFailed {d' : Disk} {r : Outcome Error Unit} {r' : Outcome Error JournalSnapshot}
            (hr : ∀ s, r' ≠ some (.ok s))
            (hEffect : EffectOn everyCut (.recordFact fact next) d r d') : Turn fact.sessionID i log r' d' := by
          rcases log_of_effect hMatch hLog hEffect.1 with ⟨line, hLine, hLog'⟩ | ⟨_, hLog' | ⟨line, kept, hLine, hLog'⟩⟩
          · rw [← take_length (l := line)] at hLog'
            exact .broken hr hLine hLog'
          · exact .nothing hr hLog'
          · exact .broken hr hLine hLog'
        refine Ends.andThen (recordFact_ends fact next d) (fun d' h => hFailed (by simp) h)
          (fun e d' h => hFailed (by simp) h)
          fun _ d' hEffect => ?_
        rcases log_of_effect hMatch hLog hEffect.1 with ⟨line, hLine, hLog'⟩ | ⟨hNot, _⟩
        · refine Ends.bind (Ends.load (hWritten hLine hLog') fun v hRead => ?_)
          exact Turn.done hLine hLog' hRead
        · exact absurd rfl hNot

/-- The last load that succeeded has found this snapshot: it came after the answers to
`front`, at the start if there are none, and the turn after it has broken off. -/
def LastLoad (sessionID : Bytes) (d : Disk) (log : Bytes) (answered : List IntentRecord) (bytes : Bytes)
    (snapshot : JournalSnapshot) : Prop :=
  ∃ front last lines torn d₁ later, answered = front ++ last ∧ last.length ≤ 1 ∧ bytes = lines ++ torn ∧
    Answered sessionID front lines ∧ (front = [] → d₁ = d) ∧
    d₁.file (sessionDirectory sessionID) .journal = some (log ++ lines) ∧
    loads d₁ sessionID = some (.ok (snapshot, later))

/-- What a run over the pending intents can do to the log. -/
inductive Loop (sessionID : Bytes) (d₀ : Disk) (pending : List IntentRecord) (log : Bytes) :
    Outcome Error (JournalSnapshot × Option Error) → Disk → Prop where
  | complete {snapshot : JournalSnapshot} {later : List IntentRecord} {bytes : Bytes} {d : Disk}
      (answered : Answered sessionID pending bytes)
      (written : d.file (sessionDirectory sessionID) .journal = some (log ++ bytes))
      (read : readSession sessionID (d.folder (sessionDirectory sessionID)) = .ok (snapshot, later)) :
      Loop sessionID d₀ pending log (some (.ok (snapshot, none))) d
  | broken {r : Outcome Error (JournalSnapshot × Option Error)} {answered : List IntentRecord}
      {bytes : Bytes} {d : Disk}
      (failed : ∀ s, r ≠ some (.ok (s, none))) (progress : Progress sessionID pending answered bytes)
      (written : d.file (sessionDirectory sessionID) .journal = some (log ++ bytes))
      (returned : ∀ snapshot e, r = some (.ok (snapshot, some e)) →
        LastLoad sessionID d₀ log answered bytes snapshot) : Loop sessionID d₀ pending log r d

theorem LastLoad.cons {line : Bytes} (hLine : FactLine sessionID i line)
    (h : LastLoad sessionID d (log ++ line) answered bytes snapshot) :
    LastLoad sessionID d₀ log (i :: answered) (line ++ bytes) snapshot := by
  obtain ⟨front, last, lines, torn, d₁, later, rfl, hLast, rfl, hAnswered, _, hLog, hLoad⟩ := h
  refine ⟨i :: front, last, line ++ lines, torn, d₁, later, rfl, hLast, by simp, .cons hLine hAnswered,
    by simp, ?_, hLoad⟩
  rwa [← append_assoc]

theorem Loop.cons {d₁ : Disk} {line : Bytes} {d : Disk} (hLine : FactLine sessionID i line)
    (h : Loop sessionID d₁ pending (log ++ line) r d) : Loop sessionID d₀ (i :: pending) log r d := by
  cases h with
  | complete answered written read =>
    rw [append_assoc] at written
    exact .complete (.cons hLine answered) written read
  | broken failed progress written returned =>
    rw [append_assoc] at written
    exact .broken failed (.answered hLine progress) written fun snapshot e hr => (returned snapshot e hr).cons hLine

/-- A turn that fails ends the loop with the snapshot of the load before it. -/
theorem Loop.of_turn (pending : List IntentRecord) {r : Outcome Error JournalSnapshot}
    {r' : Outcome Error (JournalSnapshot × Option Error)}
    (hLog : d₀.file (sessionDirectory sessionID) .journal = some log)
    (hLoad : loads d₀ sessionID = some (.ok (snapshot, later))) (hr : ∀ s, r ≠ some (.ok s))
    (hr' : r' = none ∨ ∃ e, r' = some (.ok (snapshot, some e))) (h : Turn sessionID i log r d) :
    Loop sessionID d₀ (i :: pending) log r' d := by
  have hFailed (s : JournalSnapshot) : r' ≠ some (.ok (s, none)) := by
    rcases hr' with rfl | ⟨e, rfl⟩ <;> simp
  have hReturned {answered : List IntentRecord} (bytes : Bytes) (hAnswered : answered.length ≤ 1)
      (s : JournalSnapshot) (e : Error) (h : r' = some (.ok (s, some e))) :
      LastLoad sessionID d₀ log answered bytes s := by
    rcases hr' with rfl | ⟨e', rfl⟩
    · cases h
    · cases h
      exact ⟨[], answered, [], bytes, d₀, later, rfl, hAnswered, rfl, .nil, fun _ => rfl, by simpa using hLog, hLoad⟩
  cases h with
  | done answer written read => exact absurd rfl (hr _)
  | nothing failed same =>
    exact .broken hFailed (.start _) (by rwa [append_nil]) (hReturned [] (Nat.zero_le 1))
  | @broken _ line kept _ failed answer written =>
    obtain ⟨answered, hProgress, hLength⟩ := Progress.of_take answer pending kept
    exact .broken hFailed hProgress written (hReturned _ hLength)

theorem answerAll_ends (pending : List IntentRecord) (hLog : d.file (sessionDirectory sessionID) .journal = some log)
    (hRead : readSession sessionID (d.folder (sessionDirectory sessionID)) = .ok (snapshot, later)) :
    storeMachine.Ends (within everyCut) (answerAll sessionID observers snapshot pending)
      (Loop sessionID d pending log) d := by
  induction pending generalizing snapshot later d log with
  | nil => exact Loop.complete .nil (by rwa [append_nil]) hRead
  | cons i pending ih =>
    have hLoad : loads d sessionID = some (.ok (snapshot, later)) := by rw [loads_eq, hRead]
    refine Ends.caught (answer_ends snapshot hLog)
      (fun d' h => Loop.of_turn pending hLog hLoad (by simp) (Or.inl rfl) h) fun r d' hTurn => ?_
    cases r with
    | error e => exact Loop.of_turn pending hLog hLoad (by simp) (Or.inr ⟨e, rfl⟩) hTurn
    | ok reduced =>
      cases hTurn with
      | done answer written read =>
        exact (ih written read).mono fun r d' h => h.cons answer
      | nothing failed same => exact absurd rfl (failed reduced)
      | broken failed answer written => exact absurd rfl (failed reduced)

/-- The intents that a load of the session finds pending. -/
def pendingOf (sessionID : Bytes) (d : Disk) : List IntentRecord :=
  match readSession sessionID (d.folder (sessionDirectory sessionID)) with
  | .ok (_, pending) => pending
  | .error _ => []

theorem pendingOf_ok (h : readSession sessionID (d.folder (sessionDirectory sessionID)) = .ok (snapshot, pending)) :
    pendingOf sessionID d = pending := by
  rw [pendingOf, h]

theorem pendingOf_error {e : Error} (h : readSession sessionID (d.folder (sessionDirectory sessionID)) = .error e) :
    pendingOf sessionID d = [] := by
  rw [pendingOf, h]

theorem replay_of_pending (h : i ∈ pendingOf sessionID d) : ∃ log s r,
    d.file (sessionDirectory sessionID) .journal = some log ∧ replayLog sessionID s log = .ok r ∧
      pendingOf sessionID d = sortIntents r.pending := by
  cases hRead : readSession sessionID (d.folder (sessionDirectory sessionID)) with
  | error e =>
    rw [pendingOf_error hRead] at h
    cases h
  | ok v =>
    obtain ⟨_, g, body, s, log, r, hFolder, _, _, hLog, hReplay, rfl⟩ := readSession_eq_ok.mp hRead
    exact ⟨log, s, r, bind_eq_some_iff.mpr ⟨g, hFolder, hLog⟩, hReplay, pendingOf_ok hRead⟩

/-- The loaded intents are in the order of their ids, and no two have the same. -/
theorem sorted_pendingOf (sessionID : Bytes) (d : Disk) :
    (pendingOf sessionID d).Pairwise fun a b => idKey a < idKey b := by
  rcases eq_nil_or_concat (pendingOf sessionID d) with hNil | ⟨front, i, hEq⟩
  · rw [hNil]
    exact .nil
  · have hMem : i ∈ pendingOf sessionID d := by simp [hEq]
    obtain ⟨log, s, r, _, hReplay, hPending⟩ := replay_of_pending hMem
    rw [hPending]
    exact sorted_sortIntents (kept_of_replayLog hReplay).ids

theorem answered_not_pending (h : Progress sessionID (pendingOf sessionID d) answered bytes)
    (hLog : d'.file (sessionDirectory sessionID) .journal =
      (d.file (sessionDirectory sessionID) .journal).map (· ++ bytes)) :
    ∀ i ∈ answered, ∀ j ∈ pendingOf sessionID d', j.id ≠ i.id := by
  intro i hi j hj
  obtain ⟨log, s, r, hBefore, hReplay, hPending⟩ := replay_of_pending (h.front.subset hi)
  obtain ⟨log', s', r', hAfter, hReplay', hPending'⟩ := replay_of_pending hj
  rw [hBefore, hAfter] at hLog
  cases hLog
  rw [hPending', mem_sortIntents] at hj
  have hTexts : ∀ i ∈ pendingOf sessionID d, sanitize i.id = i.id := by
    intro i hi
    rw [hPending, mem_sortIntents] at hi
    exact (kept_of_replayLog hReplay).texts i hi
  by_cases hEnds : EndsLine log
  · rw [replayLog, readLines_append hEnds, foldlM_append] at hReplay'
    obtain ⟨middle, _, hBytes⟩ := bind_eq_ok.mp hReplay'
    exact (h.replay hTexts hBytes).2 i hi j hj
  · obtain ⟨t, rfl⟩ : ∃ t, bytes = 0x7B :: t := h.head hi
    exact absurd hReplay' (not_replayLog_joined hReplay hEnds t)

/-- What a run does: it appends answers to a front of the pending intents. When it
succeeds it has answered them all, and it returns the snapshot that a load finds.
Beside an error it returns the snapshot of its last load that succeeded, and the
zero snapshot if the first load failed. -/
structure Reconciled (sessionID : Bytes) (d : Disk) (r : Outcome Error (JournalSnapshot × Option Error)) (d' : Disk)
    (answered : List IntentRecord) (bytes : Bytes) : Prop where
  log : d'.file (sessionDirectory sessionID) .journal = (d.file (sessionDirectory sessionID) .journal).map (· ++ bytes)
  progress : Progress sessionID (pendingOf sessionID d) answered bytes
  complete : ∀ snapshot, r = some (.ok (snapshot, none)) → answered = pendingOf sessionID d ∧
    Answered sessionID (pendingOf sessionID d) bytes ∧ ∃ later, loads d' sessionID = some (.ok (snapshot, later))
  returned : ∀ snapshot e, r = some (.ok (snapshot, some e)) →
    answered = [] ∧ d' = d ∧ snapshot = Wired.codec.zero ∨
      ∃ log, d.file (sessionDirectory sessionID) .journal = some log ∧
        LastLoad sessionID d log answered bytes snapshot

/-- The first load has failed. -/
theorem Reconciled.nothing (hr : r = none ∨ ∃ e, r = some (.ok (Wired.codec.zero, some e))) :
    Reconciled sessionID d r d [] [] where
  log := by simp
  progress := .start _
  complete s h := by rcases hr with rfl | ⟨e, rfl⟩ <;> cases h
  returned s e h := by
    rcases hr with rfl | ⟨e', rfl⟩
    · cases h
    · cases h
      exact Or.inl ⟨rfl, rfl, rfl⟩

theorem Loop.reconciled (hLog : d.file (sessionDirectory sessionID) .journal = some log)
    (h : Loop sessionID d (pendingOf sessionID d) log r d') :
    ∃ answered bytes, Reconciled sessionID d r d' answered bytes := by
  cases h with
  | complete answered written read =>
    refine ⟨_, _, by rw [written, hLog]; rfl, answered.progress, fun snapshot hr => ?_, fun s e hr => by cases hr⟩
    cases hr
    exact ⟨rfl, answered, _, by rw [loads_eq, read]⟩
  | broken failed progress written returned =>
    exact ⟨_, _, by rw [written, hLog]; rfl, progress, fun snapshot hr => absurd hr (failed snapshot),
      fun snapshot e hr => Or.inr ⟨log, hLog, returned snapshot e hr⟩⟩

theorem reconcile_ends (sessionID : Bytes) (observers : Observers) (d : Disk) :
    storeMachine.Ends (within everyCut) (reconcile sessionID observers)
      (fun r d' => ∃ answered bytes, Reconciled sessionID d r d' answered bytes) d := by
  refine Ends.bind (Ends.catching (Ends.load
    ⟨⟨[], [], .nothing (Or.inl rfl)⟩, fun e => ⟨[], [], .nothing (Or.inr ⟨e, rfl⟩)⟩⟩ fun v hRead => ?_))
  obtain ⟨snapshot, pending⟩ := v
  obtain ⟨_, g, _, _, log, _, hFolder, _, _, hLog, _, _⟩ := readSession_eq_ok.mp hRead
  have hFile : d.file (sessionDirectory sessionID) .journal = some log := bind_eq_some_iff.mpr ⟨g, hFolder, hLog⟩
  have hLoop : storeMachine.Ends (within everyCut) (answerAll sessionID observers snapshot pending)
      (Loop sessionID d (pendingOf sessionID d) log) d := by
    rw [pendingOf_ok hRead]
    exact answerAll_ends pending hFile hRead
  exact hLoop.mono fun r d' h => h.reconciled hFile

def runReconcile (sessionID : Bytes) (observers : Observers) (faults : List Fault) (d : Disk) :
    Outcome Error (JournalSnapshot × Option Error) × Disk :=
  storeMachine.run (reconcile sessionID observers).run faults d

theorem reconciled_run (sessionID : Bytes) (observers : Observers) (faults : List Fault) (d : Disk) :
    ∃ answered bytes, Reconciled sessionID d (runReconcile sessionID observers faults d).1
      (runReconcile sessionID observers faults d).2 answered bytes := by
  have hAllowed (op : Op Bytes File Probe) (fault : Fault) (d : Disk) : within everyCut op fault d := by
    cases fault <;> trivial
  have hFaults : storeMachine.Respects (within everyCut) (reconcile sessionID observers).run faults d :=
    respects_all hAllowed _ _
  exact (reconcile_ends sessionID observers d).run hFaults

section Stale

/-! A snapshot that could not be replaced: the fact is in the log, and the run returns
the snapshot from before it. -/

def sampleLog : Bytes := ((Entry.intent sampleIntent).line).getD []

def sampleObservers : Observers := fun _ => some fun _ _ => .ok (sampleFact, sampleSnapshot)

/-- The session of the sample intent, with a temporary file that an earlier crash left. -/
def sampleCrashed : Disk :=
  ⟨fun d => if d = sessionDirectory (lit "s") then
    some fun
      | .journal => some sampleLog
      | .snapshot => marshal sampleSnapshot
      | .snapshotPartial => some []
    else none, 0⟩

end Stale

end Runs

end Camp.Journal
