import Camp.Domain.Session
import Camp.Wire.Order

/-!
# Selecting a session

A command names its session by the most specific field of its selector. The journal lists sessions
in some order, and the choice among the ones that match must not depend on it.
-/

namespace Camp.App

open Wire Wire.Utf8 List

section Model

structure SessionSelector where
  sessionID : Bytes
  capsule : Bytes
  branch : Bytes
  canonicalRoot : Bytes
  defaultCapsule : Bytes
  defaultBranch : Bytes

inductive SelectionPurpose where
  | activeMutation
  | history
  | recovery
  deriving DecidableEq

instance : Named SelectionPurpose where
  name
    | .activeMutation => "active-mutation"
    | .history => "history"
    | .recovery => "recovery"
  all := [.activeMutation, .history, .recovery]
  mem_all e := by cases e <;> decide
  nodup := by decide

inductive SelectionCode where
  | notFound
  | ambiguous
  deriving DecidableEq

/-- The causes: two sentinels for the commands that change a session, and two plain messages. -/
inductive SelectionCause where
  | noActiveSession
  | ambiguousActiveSession
  | message (text : String)
  deriving DecidableEq

structure SessionSelectionError where
  code : SelectionCode
  candidates : List Bytes
  nextCommands : List Bytes
  cause : SelectionCause
  deriving DecidableEq

def activeSessionState (state : Open SessionState) : Bool :=
  state == .known .opening || state == .known .opened || state == .known .recovering

def sessionEligible (snapshot : JournalSnapshot) : Open SelectionPurpose → Bool
  | .known .activeMutation => activeSessionState snapshot.state
  | .known .history => snapshot.state == .known .closed
  | .known .recovery => true
  | .other _ _ => false

def filterSessions (sessions : List JournalSnapshot) (keep : JournalSnapshot → Bool) : List JournalSnapshot :=
  sessions.filter keep

/-- Capsule and branch, each only where it is asked for. -/
def ofCapsule (capsule branch : Bytes) (snapshot : JournalSnapshot) : Bool :=
  (capsule == [] || snapshot.capsule == capsule) && (branch == [] || snapshot.lineage.branch == branch)

def applySessionPrecedence (sessions : List JournalSnapshot) (selector : SessionSelector) : List JournalSnapshot :=
  if selector.sessionID ≠ [] then
    filterSessions sessions fun snapshot => snapshot.sessionID == selector.sessionID
  else if selector.capsule ≠ [] ∨ selector.branch ≠ [] then
    filterSessions sessions (ofCapsule selector.capsule selector.branch)
  else if selector.canonicalRoot ≠ [] then
    filterSessions sessions fun snapshot => snapshot.materialization.canonicalPath == selector.canonicalRoot
  else if selector.defaultCapsule ≠ [] ∨ selector.defaultBranch ≠ [] then
    filterSessions sessions (ofCapsule selector.defaultCapsule selector.defaultBranch)
  else sessions

def notFound (selector : SessionSelector) (purpose : Open SelectionPurpose) : SessionSelectionError where
  code := .notFound
  candidates := []
  nextCommands := lit "camp list" :: if selector.capsule ≠ [] then [lit "camp open --camp " ++ selector.capsule] else []
  cause := if purpose ≠ .known .activeMutation then .message "no matching Camp session" else .noActiveSession

def ambiguous (candidates : List JournalSnapshot) (purpose : Open SelectionPurpose) : SessionSelectionError :=
  let ids := sortOn bytewise (candidates.map (·.sessionID))
  { code := .ambiguous
    candidates := ids
    nextCommands := ids.map (lit "camp status --session " ++ ·)
    cause := if purpose ≠ .known .activeMutation then .message "multiple matching Camp sessions" else
    .ambiguousActiveSession }

/-- The stable sort by the time of the last change, the latest first. -/
def latestFirst (sessions : List JournalSnapshot) : List JournalSnapshot :=
  sortOn (fun snapshot => -snapshot.updatedAt.nanos) sessions

def selectSession (listed : List JournalSnapshot) (selector : SessionSelector) (purpose : Open SelectionPurpose) :
    Except SessionSelectionError JournalSnapshot :=
  let eligible := listed.filter (sessionEligible · purpose)
  match applySessionPrecedence eligible selector with
  | [] => .error (notFound selector purpose)
  | [only] => .ok only
  | candidates =>
    if purpose = .known .history ∧ selector.sessionID = [] then
      match latestFirst candidates with
      | first :: second :: rest =>
        if first.updatedAt.nanos ≠ second.updatedAt.nanos then .ok first
        else .error (ambiguous (first :: second :: rest) purpose)
      | sorted => .error (ambiguous sorted purpose)
    else .error (ambiguous candidates purpose)

end Model

section Precedence

variable {selector : SessionSelector}

/-- The fields of a selector, from the most to the least specific. -/
inductive SelectorField where
  | session
  | capsule
  | root
  | default

open SelectorField

namespace SelectorField

def isSet (selector : SessionSelector) : SelectorField → Bool
  | session => selector.sessionID != []
  | capsule => selector.capsule != [] || selector.branch != []
  | root => selector.canonicalRoot != []
  | default => selector.defaultCapsule != [] || selector.defaultBranch != []

def Names (selector : SessionSelector) (s : JournalSnapshot) : SelectorField → Prop
  | session => s.sessionID = selector.sessionID
  | capsule =>
    (selector.capsule ≠ [] → s.capsule = selector.capsule) ∧ (selector.branch ≠ [] → s.lineage.branch = selector.branch)
  | root => s.materialization.canonicalPath = selector.canonicalRoot
  | default =>
    (selector.defaultCapsule ≠ [] → s.capsule = selector.defaultCapsule) ∧
      (selector.defaultBranch ≠ [] → s.lineage.branch = selector.defaultBranch)

def mostSpecific (selector : SessionSelector) : Option SelectorField :=
  [session, capsule, root, default].find? (isSet selector)

end SelectorField

/-- What the most specific field that is set says of the session. -/
def Selected (selector : SessionSelector) (s : JournalSnapshot) : Prop :=
  ∀ field, mostSpecific selector = some field → field.Names selector s

theorem ofCapsule_iff (capsule branch : Bytes) (s : JournalSnapshot) : ofCapsule capsule branch s = true ↔
    (capsule ≠ [] → s.capsule = capsule) ∧ (branch ≠ [] → s.lineage.branch = branch) := by
  simp only [ofCapsule, Bool.and_eq_true, Bool.or_eq_true, beq_iff_eq, or_iff_not_imp_left, ne_eq]

theorem selected_of_mostSpecific {field : SelectorField} (h : mostSpecific selector = some field)
    (s : JournalSnapshot) : Selected selector s ↔ field.Names selector s := by
  simp [Selected, h]

theorem mem_applySessionPrecedence {sessions : List JournalSnapshot} {s : JournalSnapshot} :
    s ∈ applySessionPrecedence sessions selector ↔ s ∈ sessions ∧ Selected selector s := by
  unfold applySessionPrecedence filterSessions
  split_ifs with hSession hCapsule hRoot hDefault
  · have hField : mostSpecific selector = some .session := by
      grind [mostSpecific, isSet]
    simp [selected_of_mostSpecific hField, Names]
  · have hField : mostSpecific selector = some .capsule := by
      grind [mostSpecific, isSet]
    simp [selected_of_mostSpecific hField, Names, ofCapsule_iff]
  · have hField : mostSpecific selector = some .root := by
      grind [mostSpecific, isSet]
    simp [selected_of_mostSpecific hField, Names]
  · have hField : mostSpecific selector = some .default := by
      grind [mostSpecific, isSet]
    simp [selected_of_mostSpecific hField, Names, ofCapsule_iff]
  · have hField : mostSpecific selector = none := by
      refine List.find?_eq_none.mpr fun field _ => ?_
      cases field <;> grind [isSet]
    simp [Selected, hField]

end Precedence

section Order

variable {listed listed' : List JournalSnapshot} {selector : SessionSelector} {purpose : Open SelectionPurpose}
variable {s first second : JournalSnapshot} {sessions sessions' rest : List JournalSnapshot}
variable {s' : JournalSnapshot}

/-- The sessions among which a selection is made. -/
def candidates (listed : List JournalSnapshot) (selector : SessionSelector) (purpose : Open SelectionPurpose) :
    List JournalSnapshot :=
  applySessionPrecedence (listed.filter (sessionEligible · purpose)) selector

theorem mem_candidates : s ∈ candidates listed selector purpose ↔
    s ∈ listed ∧ sessionEligible s purpose = true ∧ Selected selector s := by
  rw [candidates, mem_applySessionPrecedence, mem_filter, and_assoc]

theorem applySessionPrecedence_perm (h : sessions.Perm sessions') :
    (applySessionPrecedence sessions selector).Perm (applySessionPrecedence sessions' selector) := by
  unfold applySessionPrecedence
  split_ifs
  iterate 4 exact h.filter _
  exact h

theorem candidates_perm (h : listed.Perm listed') :
    (candidates listed selector purpose).Perm (candidates listed' selector purpose) :=
  applySessionPrecedence_perm (h.filter _)

theorem candidates_sublist : (candidates listed selector purpose).Sublist listed := by
  have hEligible : (listed.filter (sessionEligible · purpose)).Sublist listed := filter_sublist
  refine List.Sublist.trans ?_ hEligible
  unfold candidates applySessionPrecedence
  split_ifs
  iterate 4 exact filter_sublist
  exact List.Sublist.refl _

theorem ambiguous_eq_of_perm (hPerm : sessions.Perm sessions') (hDistinct : (sessions.map (·.sessionID)).Nodup) :
    ambiguous sessions purpose = ambiguous sessions' purpose := by
  have hKeys : ((sessions.map (·.sessionID)).map bytewise).Nodup := hDistinct.map fun _ _ => bytewise_injective
  unfold ambiguous
  rw [sortOn_eq_of_perm (hPerm.map _) hKeys]

/-- One session was changed later than all the others. -/
def Latest (sessions : List JournalSnapshot) (s : JournalSnapshot) : Prop :=
  ∃ others, sessions.Perm (s :: others) ∧ ∀ s' ∈ others, s'.updatedAt.nanos < s.updatedAt.nanos

theorem Latest.of_perm (hPerm : sessions.Perm sessions') (h : Latest sessions s) : Latest sessions' s := by
  obtain ⟨others, hOthers, hLess⟩ := h
  exact ⟨others, hPerm.symm.trans hOthers, hLess⟩

/-- Whoever is not later than the latest session and stands in the list is that session. -/
theorem Latest.eq_of_le (h : Latest sessions s) (hMem : s' ∈ sessions) (hLe : s.updatedAt.nanos ≤ s'.updatedAt.nanos) :
    s' = s := by
  obtain ⟨others, hPerm, hLess⟩ := h
  rcases mem_cons.mp (hPerm.subset hMem) with hEq | hOther
  · exact hEq
  · exact absurd (hLess s' hOther) (not_lt.mpr hLe)

theorem Latest.mem (h : Latest sessions s) : s ∈ sessions := by
  obtain ⟨others, hPerm, -⟩ := h
  exact hPerm.symm.subset mem_cons_self

theorem Latest.unique (h : Latest sessions s) (h' : Latest sessions s') : s' = s := by
  rcases le_total s.updatedAt.nanos s'.updatedAt.nanos with hLe | hLe
  · exact h.eq_of_le h'.mem hLe
  · exact (h'.eq_of_le h.mem hLe).symm

theorem latestFirst_perm (sessions : List JournalSnapshot) : (latestFirst sessions).Perm sessions := sortOn_perm _ _

theorem latestFirst_le (h : latestFirst sessions = first :: rest) :
    ∀ s ∈ rest, s.updatedAt.nanos ≤ first.updatedAt.nanos := by
  have hSorted := pairwise_sortOn (fun s : JournalSnapshot => -s.updatedAt.nanos) sessions
  rw [show sortOn _ sessions = first :: rest from h, pairwise_cons] at hSorted
  intro s hs
  exact neg_le_neg_iff.mp (hSorted.1 s hs)

theorem latestFirst_tail_le (h : latestFirst sessions = first :: second :: rest) :
    ∀ s ∈ second :: rest, s.updatedAt.nanos ≤ second.updatedAt.nanos := by
  have hSorted := pairwise_sortOn (fun s : JournalSnapshot => -s.updatedAt.nanos) sessions
  rw [show sortOn _ sessions = first :: second :: rest from h, pairwise_cons, pairwise_cons] at hSorted
  intro s hs
  rcases mem_cons.mp hs with rfl | hRest
  · exact le_rfl
  · exact neg_le_neg_iff.mp (hSorted.2.1 s hRest)

theorem latest_first (h : latestFirst sessions = first :: second :: rest)
    (hApart : first.updatedAt.nanos ≠ second.updatedAt.nanos) : Latest sessions first := by
  refine ⟨second :: rest, h ▸ (latestFirst_perm sessions).symm, fun s hs => ?_⟩
  have hLe := latestFirst_le h second mem_cons_self
  exact (latestFirst_tail_le h s hs).trans_lt (lt_of_le_of_ne hLe hApart.symm)

theorem not_latest (h : latestFirst sessions = first :: second :: rest) (hNodup : sessions.Nodup)
    (hSame : first.updatedAt.nanos = second.updatedAt.nanos) : ¬ Latest sessions s := by
  intro hLatest
  have hPerm : sessions.Perm (first :: second :: rest) := h ▸ (latestFirst_perm sessions).symm
  have hMost : s.updatedAt.nanos ≤ first.updatedAt.nanos := by
    rcases mem_cons.mp (hPerm.subset hLatest.mem) with rfl | hRest
    · exact le_rfl
    · exact latestFirst_le h s hRest
  -- both leaders are as late as any session, so each of them would be the latest one
  have hFirst := hLatest.eq_of_le (hPerm.symm.subset mem_cons_self) hMost
  have hSecond := hLatest.eq_of_le (hPerm.symm.subset (mem_cons_of_mem _ mem_cons_self)) (hSame ▸ hMost)
  have hApart := (nodup_cons.mp (hPerm.nodup_iff.mp hNodup)).1
  exact hApart (by rw [hFirst, hSecond]; exact mem_cons_self)

end Order

section Selection

variable {listed listed' : List JournalSnapshot} {selector : SessionSelector} {purpose : Open SelectionPurpose}
variable {sessions : List JournalSnapshot}
variable {s : JournalSnapshot}

theorem nodup_candidates (h : (listed.map (·.sessionID)).Nodup) :
    ((candidates listed selector purpose).map (·.sessionID)).Nodup := h.sublist (candidates_sublist.map _)

/-- What a selection gives, said of its candidates as a set. -/
inductive Chooses (selector : SessionSelector) (purpose : Open SelectionPurpose) (sessions : List JournalSnapshot) :
    Except SessionSelectionError JournalSnapshot → Prop where
  | nobody (empty : sessions = []) : Chooses selector purpose sessions (.error (notFound selector purpose))
  | only {s : JournalSnapshot} (single : sessions = [s]) : Chooses selector purpose sessions (.ok s)
  | latest {s : JournalSnapshot} (several : 2 ≤ sessions.length) (history : purpose = .known .history)
      (unnamed : selector.sessionID = []) (latest : Latest sessions s) : Chooses selector purpose sessions (.ok s)
  | undecided (several : 2 ≤ sessions.length)
      (open_ : purpose = .known .history → selector.sessionID = [] → ¬ ∃ s, Latest sessions s) :
      Chooses selector purpose sessions (.error (ambiguous sessions purpose))

theorem selectSession_chooses (hDistinct : (listed.map (·.sessionID)).Nodup) :
    Chooses selector purpose (candidates listed selector purpose) (selectSession listed selector purpose) := by
  have hIDs : ((candidates listed selector purpose).map (·.sessionID)).Nodup := nodup_candidates hDistinct
  unfold candidates at hIDs ⊢
  unfold selectSession
  dsimp only
  generalize applySessionPrecedence (listed.filter (sessionEligible · purpose)) selector = sessions at hIDs ⊢
  cases sessions with
  | nil => exact .nobody rfl
  | cons a others =>
    cases others with
    | nil => exact .only rfl
    | cons b rest =>
      have hSeveral : 2 ≤ (a :: b :: rest).length := by simp
      dsimp only
      split_ifs with hHistory
      · have hPerm := latestFirst_perm (a :: b :: rest)
        cases hSorted : latestFirst (a :: b :: rest) with
        | nil => simp [hSorted] at hPerm
        | cons first others =>
          cases others with
          | nil => simp [hSorted] at hPerm
          | cons second others =>
            dsimp only
            rw [← hSorted, ← ambiguous_eq_of_perm hPerm.symm hIDs]
            split_ifs with hApart
            · exact .latest hSeveral hHistory.1 hHistory.2 (latest_first hSorted hApart)
            · refine .undecided hSeveral fun _ _ h => ?_
              obtain ⟨s, hLatest⟩ := h
              exact not_latest hSorted (.of_map _ hIDs) (not_not.mp hApart) hLatest
      · exact .undecided hSeveral fun hp hs => absurd ⟨hp, hs⟩ hHistory

theorem Chooses.of_perm {sessions' : List JournalSnapshot} {r r' : Except SessionSelectionError JournalSnapshot}
    (hPerm : sessions.Perm sessions') (hIDs : (sessions.map (·.sessionID)).Nodup)
    (h : Chooses selector purpose sessions r) (h' : Chooses selector purpose sessions' r') : r = r' := by
  have hLength := hPerm.length_eq
  cases h with
  | nobody empty =>
    cases h' with
    | nobody => rfl
    | only single => simp [empty, single] at hLength
    | latest several => simp only [empty, length_nil] at hLength; omega
    | undecided several => simp only [empty, length_nil] at hLength; omega
  | only single =>
    cases h' with
    | nobody empty => simp [empty, single] at hLength
    | only single' =>
      rw [single, single', perm_singleton] at hPerm
      cases hPerm
      rfl
    | latest several => simp only [single, length_singleton] at hLength; omega
    | undecided several => simp only [single, length_singleton] at hLength; omega
  | latest several history unnamed latest =>
    cases h' with
    | nobody empty => simp only [empty, length_nil] at hLength; omega
    | only single => simp only [single, length_singleton] at hLength; omega
    | latest _ _ _ latest' => rw [(latest.of_perm hPerm).unique latest']
    | undecided _ none_ => exact absurd ⟨_, latest.of_perm hPerm⟩ (none_ history unnamed)
  | undecided several none_ =>
    cases h' with
    | nobody empty => simp only [empty, length_nil] at hLength; omega
    | only single => simp only [single, length_singleton] at hLength; omega
    | latest _ history unnamed latest => exact absurd ⟨_, latest.of_perm hPerm.symm⟩ (none_ history unnamed)
    | undecided => rw [ambiguous_eq_of_perm hPerm hIDs]

theorem selectSession_perm (hDistinct : (listed.map (·.sessionID)).Nodup) (hPerm : listed.Perm listed') :
    selectSession listed selector purpose = selectSession listed' selector purpose :=
  Chooses.of_perm (candidates_perm hPerm) (nodup_candidates hDistinct) (selectSession_chooses hDistinct)
    (selectSession_chooses ((hPerm.map _).nodup_iff.mp hDistinct))

theorem Chooses.mem (h : Chooses selector purpose sessions (.ok s)) : s ∈ sessions := by
  cases h with
  | only single => simp [single]
  | latest _ _ _ latest => exact latest.mem

theorem Chooses.single (h : Chooses selector purpose sessions (.ok s)) (hPurpose : purpose ≠ .known .history) :
    sessions = [s] := by
  cases h with
  | only single => exact single
  | latest _ history => exact absurd history hPurpose

/-- The selection is the same for every order of the list. It gives a session that is eligible and has what
the most specific field asks for, and outside of histories the only one of that kind. -/
theorem selectSession_order_free (listed : List JournalSnapshot) (hDistinct : (listed.map (·.sessionID)).Nodup)
    (selector : SessionSelector) (purpose : Open SelectionPurpose) :
    (∀ listed', listed.Perm listed' → selectSession listed' selector purpose = selectSession listed selector purpose) ∧
    ∀ s, selectSession listed selector purpose = .ok s →
      s ∈ listed ∧ sessionEligible s purpose = true ∧ Selected selector s ∧
      (purpose ≠ .known .history →
        ∀ s' ∈ listed, sessionEligible s' purpose = true → Selected selector s' → s' = s) := by
  refine ⟨fun listed' hPerm => (selectSession_perm hDistinct hPerm).symm, fun s hSelect => ?_⟩
  have hChooses : Chooses selector purpose (candidates listed selector purpose)
      (selectSession listed selector purpose) :=
    selectSession_chooses hDistinct
  rw [hSelect] at hChooses
  obtain ⟨hListed, hEligible, hSelected⟩ := mem_candidates.mp hChooses.mem
  refine ⟨hListed, hEligible, hSelected, fun hPurpose s' hListed' hEligible' hSelected' => ?_⟩
  have hMem : s' ∈ candidates listed selector purpose := mem_candidates.mpr ⟨hListed', hEligible', hSelected'⟩
  rw [hChooses.single hPurpose] at hMem
  exact mem_singleton.mp hMem

/-- A closed session that was last changed at the given instant. -/
def closedSession (id : String) (nanos : Int) : JournalSnapshot :=
  { (Wired.codec.zero : JournalSnapshot) with sessionID := lit id, state := .known .closed, updatedAt := ⟨nanos, 0⟩ }

def anySession : SessionSelector := ⟨[], [], [], [], [], []⟩

/-- Of two closed sessions the later one is selected, whichever comes first. -/
theorem selectSession_two_closed :
    selectSession [closedSession "b" 2, closedSession "a" 1] anySession (.known .history) =
      selectSession [closedSession "a" 1, closedSession "b" 2] anySession (.known .history) ∧
    selectSession [closedSession "a" 1, closedSession "b" 2] anySession (.known .history) = .ok (closedSession "b" 2) :=
  ⟨(selectSession_order_free [closedSession "a" 1, closedSession "b" 2] (by decide) anySession
    (.known .history)).1 _ (Perm.swap _ _ _), by rfl⟩

end Selection

end Camp.App
