import Mathlib.Data.List.Sort
import Camp.Journal.Entries

/-!
# Replay of the log

The log is a line of JSON for each entry. Replay keeps the snapshot of the last
fact and the intents that no fact has answered, and refuses a log in which a
fact answers no pending intent.
-/

namespace Camp.Journal

open Wire Wire.Utf8 List

variable {i : IntentRecord} {intents : List IntentRecord}

/-- Lines as the reader returns them: with their line break, which the last may lack. -/
def readLines : Bytes → List Bytes
  | [] => []
  | b :: bs =>
    if b = 10 then [b] :: readLines bs
    else
      match readLines bs with
      | [] => [[b]]
      | line :: lines => (b :: line) :: lines

/-- The state of a replay. Intents are kept by their id. -/
structure Replay where
  snapshot : JournalSnapshot
  pending : List IntentRecord
  deriving DecidableEq

namespace Replay

def put (r : Replay) (intent : IntentRecord) : Replay :=
  { r with pending := intent :: r.pending.filter fun i => i.id ≠ intent.id }

def answer (r : Replay) (intentID : Bytes) (snapshot : JournalSnapshot) : Replay :=
  ⟨snapshot, r.pending.filter fun i => i.id ≠ intentID⟩

def isPending (r : Replay) (intentID : Bytes) : Bool := r.pending.any fun i => i.id = intentID

end Replay

def replayEntry (sessionID : Bytes) (r : Replay) (entry : Envelope) : Except Error Replay :=
  match entry.kind with
  | .known .intent =>
    match entry.intent with
    | some intent =>
      if intent.sessionID ≠ sessionID then .error (.message "invalid intent journal entry" [])
      else .ok (r.put intent)
    | none => .error (.message "invalid intent journal entry" [])
  | .known .fact =>
    match entry.fact, entry.snapshot with
    | some fact, some snapshot =>
      if fact.sessionID ≠ sessionID then .error (.message "invalid fact journal entry" [])
      else if r.isPending fact.intentID then .ok (r.answer fact.intentID snapshot)
      else .error (.message "fact references unknown intent %q" [fact.intentID])
    | _, _ => .error (.message "invalid fact journal entry" [])
  | .other kind _ => .error (.message "unknown journal entry kind %q" [kind])

def replayLine (sessionID : Bytes) (r : Replay) (line : Bytes) : Except Error Replay :=
  match unmarshal line with
  | some entry => replayEntry sessionID r entry
  | none => .error (.wrap "decode journal entry: %w" [] (.sentinel .json))

def replayLog (sessionID : Bytes) (snapshot : JournalSnapshot) (log : Bytes) : Except Error Replay :=
  (readLines log).foldlM (replayLine sessionID) ⟨snapshot, []⟩

def idKey (intent : IntentRecord) : List Nat := intent.id.map UInt8.toNat

def sortIntents (intents : List IntentRecord) : List IntentRecord :=
  intents.insertionSort fun a b => idKey a ≤ idKey b

def Replay.result (r : Replay) : JournalSnapshot × List IntentRecord := (r.snapshot, sortIntents r.pending)

section Lines

def EndsLine (log : Bytes) : Prop := log = [] ∨ ∃ front, log = front ++ [10]

theorem endsLine_append (log line : Bytes) : EndsLine (log ++ (line ++ [10])) :=
  Or.inr ⟨log ++ line, by simp⟩

theorem readLines_line {line : Bytes} (h : (10 : UInt8) ∉ line) (rest : Bytes) :
    readLines (line ++ [10] ++ rest) = (line ++ [10]) :: readLines rest := by
  induction line with
  | nil => simp [readLines]
  | cons b line ih =>
    obtain ⟨hb, hLine⟩ := not_or.mp (mt mem_cons.mpr h)
    rw [cons_append, cons_append, readLines, if_neg (Ne.symm hb), ih hLine]

theorem readLines_append_break (front rest : Bytes) :
    readLines (front ++ [10] ++ rest) = readLines (front ++ [10]) ++ readLines rest := by
  induction front with
  | nil => simp [readLines]
  | cons b front ih =>
    simp only [cons_append, readLines]
    rw [ih]
    split_ifs
    · rfl
    · cases h : readLines (front ++ [10]) with
      | nil =>
        cases front with
        | nil => simp [readLines] at h
        | cons c front =>
          simp only [cons_append, readLines] at h
          split_ifs at h
          split at h <;> cases h
      | cons line lines => rfl

theorem readLines_append {log : Bytes} (h : EndsLine log) (rest : Bytes) :
    readLines (log ++ rest) = readLines log ++ readLines rest := by
  rcases h with rfl | ⟨front, rfl⟩
  · rfl
  · exact readLines_append_break front rest

end Lines

inductive Entry where
  | intent (intent : IntentRecord)
  | fact (fact : FactRecord) (snapshot : JournalSnapshot)
  deriving DecidableEq

namespace Entry

def envelope : Entry → Envelope
  | intent i => ⟨.known .intent, some i, none, none⟩
  | fact f s => ⟨.known .fact, none, some f, some s⟩

def canon : Entry → Entry
  | intent i => intent (Wire.canon i)
  | fact f s => fact (Wire.canon f) (Wire.canon s)

def line (e : Entry) : Option Bytes := (marshal e.envelope).map (· ++ [10])

theorem canon_envelope (e : Entry) : Wire.canon e.envelope = e.canon.envelope := by
  have hKind (k : EntryKind) : Wired.codec.canon (Open.known k) = Open.known k := Open.canon_known k
  cases e <;>
  · show Envelope.mk (Wired.codec.canon _) _ _ _ = _
    rw [envelope, hKind]
    rfl

def replay (sessionID : Bytes) (r : Replay) (e : Entry) : Except Error Replay :=
  replayEntry sessionID r e.envelope

theorem replayLine_line {e : Entry} {line : Bytes} (h : e.line = some line) (sessionID : Bytes)
    (r : Replay) : replayLine sessionID r line = e.canon.replay sessionID r := by
  obtain ⟨body, hBody, rfl⟩ := Option.map_eq_some_iff.mp h
  rw [replayLine, unmarshal_line hBody, canon_envelope]
  rfl

end Entry

/-- A log that holds the entries, each on a line of its own. Entries are listed
as they are read back. -/
inductive Logged : List Entry → Bytes → Prop where
  | nil : Logged [] []
  | snoc {es : List Entry} {log line : Bytes} {e : Entry} (before : Logged es log)
      (written : e.line = some line) : Logged (es ++ [e.canon]) (log ++ line)

namespace Logged

variable {es : List Entry} {log : Bytes}

theorem endsLine (h : Logged es log) : EndsLine log := by
  cases h with
  | nil => exact Or.inl rfl
  | snoc before written =>
    obtain ⟨body, _, rfl⟩ := Option.map_eq_some_iff.mp written
    exact endsLine_append _ _

theorem replayLog (h : Logged es log) (sessionID : Bytes) (snapshot : JournalSnapshot) :
    replayLog sessionID snapshot log = es.foldlM (Entry.replay sessionID) ⟨snapshot, []⟩ := by
  induction h with
  | nil => rfl
  | @snoc es log line e before written ih =>
    have hLine := Entry.replayLine_line written sessionID
    obtain ⟨body, hBody, rfl⟩ := Option.map_eq_some_iff.mp written
    have hSingle : readLines (body ++ [10]) = [body ++ [10]] := by
      simpa [readLines] using readLines_line (newline_marshal hBody) []
    unfold Journal.replayLog at ih ⊢
    rw [readLines_append before.endsLine, hSingle, foldlM_append, foldlM_append, ih]
    simp [hLine]

end Logged

def Entry.concerns : Entry → Bytes
  | intent i => i.id
  | fact f _ => f.intentID

/-- The intent was appended, and no later entry answers or repeats it. -/
def Unanswered (es : List Entry) (intent : IntentRecord) : Prop :=
  ∃ front back, es = front ++ .intent intent :: back ∧ ∀ e ∈ back, e.concerns ≠ intent.id

def lastSnapshot (initial : JournalSnapshot) : List Entry → JournalSnapshot :=
  List.foldl (fun s e => match e with | .fact _ s' => s' | .intent _ => s) initial

theorem lastSnapshot_snoc (initial : JournalSnapshot) (es : List Entry) (e : Entry) :
    lastSnapshot initial (es ++ [e]) =
      match e with
      | .fact _ s => s
      | .intent _ => lastSnapshot initial es := by
  rw [lastSnapshot, foldl_append]
  cases e <;> rfl

theorem not_unanswered_nil (i : IntentRecord) : ¬ Unanswered [] i := by
  rintro ⟨front, back, h, _⟩
  cases front <;> cases h

theorem unanswered_snoc {es : List Entry} {e : Entry} :
    Unanswered (es ++ [e]) i ↔ e = .intent i ∨ (Unanswered es i ∧ e.concerns ≠ i.id) := by
  constructor
  · rintro ⟨front, back, h, hBack⟩
    rcases eq_nil_or_concat back with rfl | ⟨back, last, rfl⟩
    · exact Or.inl (singleton_inj.mp (append_inj' h rfl).2)
    · rw [concat_eq_append] at h hBack
      rw [← cons_append, ← append_assoc] at h
      obtain ⟨rfl, hLast⟩ := append_inj' h rfl
      cases hLast
      exact Or.inr ⟨⟨front, back, rfl, fun e' he => hBack e' (by simp [he])⟩, hBack e (by simp)⟩
  · rintro (rfl | ⟨⟨front, back, rfl, hBack⟩, hLast⟩)
    · exact ⟨es, [], rfl, by simp⟩
    · refine ⟨front, back ++ [e], by simp, fun e' he => ?_⟩
      rcases mem_append.mp he with he | he
      · exact hBack e' he
      · rw [mem_singleton.mp he]
        exact hLast

/-- What a replay has to know about the entries it has read. -/
structure Replay.Sound (r : Replay) (initial : JournalSnapshot) (es : List Entry) : Prop where
  snapshot : r.snapshot = lastSnapshot initial es
  ids : (r.pending.map (·.id)).Nodup
  mem : ∀ i, i ∈ r.pending ↔ Unanswered es i

namespace Replay

variable {r r' : Replay} {initial : JournalSnapshot} {es : List Entry}
variable {sessionID : Bytes}
variable {e : Entry}

theorem Sound.nil (initial : JournalSnapshot) : Sound ⟨initial, []⟩ initial [] :=
  ⟨rfl, nodup_nil, fun i => by simp [not_unanswered_nil]⟩

theorem nodup_filter (h : (r.pending.map (·.id)).Nodup) (id : Bytes) :
    ((r.pending.filter fun i => i.id ≠ id).map (·.id)).Nodup :=
  h.sublist (filter_sublist.map _)

theorem Sound.put (h : Sound r initial es) (intent : IntentRecord) :
    Sound (r.put intent) initial (es ++ [.intent intent]) := by
  refine ⟨?_, ?_, fun i => ?_⟩
  · rw [lastSnapshot_snoc]
    exact h.snapshot
  · refine nodup_cons.mpr ⟨?_, nodup_filter h.ids _⟩
    simp
  · rw [unanswered_snoc, ← h.mem]
    simp only [Replay.put, mem_cons, mem_filter, decide_eq_true_eq, Entry.intent.injEq,
      Entry.concerns]
    exact or_congr eq_comm (and_congr_right fun _ => ne_comm)

theorem Sound.answer (h : Sound r initial es) (fact : FactRecord) (snapshot : JournalSnapshot) :
    Sound (r.answer fact.intentID snapshot) initial (es ++ [.fact fact snapshot]) := by
  refine ⟨?_, nodup_filter h.ids _, fun i => ?_⟩
  · rw [lastSnapshot_snoc]
    rfl
  · rw [unanswered_snoc, ← h.mem]
    simp only [Replay.answer, mem_filter, decide_eq_true_eq, reduceCtorEq, false_or,
      Entry.concerns]
    exact and_congr_right fun _ => ne_comm

theorem replay_cases (h : e.replay sessionID r = .ok r') :
    (∃ i, e = .intent i ∧ i.sessionID = sessionID ∧ r' = r.put i) ∨
      ∃ f s, e = .fact f s ∧ f.sessionID = sessionID ∧ r.isPending f.intentID = true ∧
        r' = r.answer f.intentID s := by
  cases e with
  | intent i =>
    simp only [Entry.replay, Entry.envelope, replayEntry] at h
    split_ifs at h with hID
    cases h
    exact Or.inl ⟨i, rfl, not_not.mp hID, rfl⟩
  | fact f s =>
    simp only [Entry.replay, Entry.envelope, replayEntry] at h
    split_ifs at h with hID hPending
    cases h
    exact Or.inr ⟨f, s, rfl, not_not.mp hID, hPending, rfl⟩

theorem Sound.replay (h : Sound r initial es) (hReplay : e.replay sessionID r = .ok r') :
    Sound r' initial (es ++ [e]) := by
  rcases replay_cases hReplay with ⟨i, rfl, _, rfl⟩ | ⟨f, s, rfl, _, _, rfl⟩
  · exact h.put i
  · exact h.answer f s

theorem sound_of_foldlM (h : es.foldlM (Entry.replay sessionID) ⟨initial, []⟩ = .ok r) : Sound r initial es := by
  induction es using List.reverseRecOn generalizing r with
  | nil =>
    cases h
    exact Sound.nil initial
  | append_singleton es e ih =>
    rw [foldlM_append] at h
    cases hFront : es.foldlM (Entry.replay sessionID) ⟨initial, []⟩ with
    | error err => rw [hFront] at h; cases h
    | ok front =>
      rw [hFront] at h
      have hLast : e.replay sessionID front = .ok r := by
        rw [← h]
        exact (bind_pure _).symm
      exact (ih hFront).replay hLast

end Replay

theorem mem_sortIntents :
    i ∈ sortIntents intents ↔ i ∈ intents := mem_insertionSort _

theorem idKey_injective {a b : IntentRecord} (h : idKey a = idKey b) : a.id = b.id :=
  map_injective_iff.mpr (fun _ _ => UInt8.toNat.inj) h

theorem sorted_sortIntents (h : (intents.map (·.id)).Nodup) :
    (sortIntents intents).Pairwise fun a b => idKey a < idKey b := by
  have hSorted : (sortIntents intents).Pairwise fun a b => idKey a ≤ idKey b :=
    pairwise_insertionSort _ _
  have hDistinct : (sortIntents intents).Pairwise fun a b => a.id ≠ b.id := by
    rw [← pairwise_map]
    exact ((perm_insertionSort _ intents).map _).nodup_iff.mpr h
  exact hSorted.imp₂ (fun a b hLe hNe => lt_of_le_of_ne hLe fun hEq => hNe (idKey_injective hEq))
    hDistinct

end Camp.Journal
