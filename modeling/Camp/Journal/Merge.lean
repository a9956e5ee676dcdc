import Camp.Journal.Session

/-!
# Facts of concurrent recorders

A supervisor and a checkpoint record facts in any order, each with a candidate
that may be stale. The lease is always that of the last renewal. The services
are those of the last fact that changes them only if the checkpoint's candidate
has the services of the journal: five of its facts do not restore them.
-/

namespace Camp.Journal

open Wire Wire.Utf8 Program Program.Files Program.Machine Relation

variable {w : World} {h : History}
variable {t : Open Transition} {s reduced : JournalSnapshot} {f : FactRecord}

/-- How a transition takes part in the concurrent recording of facts. -/
inductive Role where
  | renewsLease
  | changesServices
  | keepsServices
  | carriesServices
  | other
  deriving DecidableEq

/-- A checkpoint's facts keep the journal's services, or carry those of the candidate. -/
def role : Open Transition → Role
  | .known .leaseRenewed => .renewsLease
  | .known .serviceStart | .known .serviceRestart | .known .servingContentRefreshed => .changesServices
  | .known .registrySnapshotSealed => .keepsServices
  | .known .workspaceMirrored | .known .workspaceImagesInventoried | .known .rootSnapshotStable
  | .known .generationUploaded | .known .pointerCommitted => .carriesServices
  | _ => .other

theorem composeFactSnapshot_lease (current candidate : JournalSnapshot) (h : role t ≠ .other) :
    (composeFactSnapshot current candidate t).lease =
      if role t = .renewsLease then candidate.lease else current.lease := by
  cases t with
  | other text _ => exact absurd rfl h
  | known t =>
    cases t <;> first | exact absurd rfl h | rfl |
      (simp only [composeFactSnapshot]; split_ifs <;> first | rfl | contradiction)

theorem composeFactSnapshot_services (current candidate : JournalSnapshot) (h : role t ≠ .other) :
    (composeFactSnapshot current candidate t).services =
      if role t = .changesServices ∨ role t = .carriesServices then candidate.services
      else current.services := by
  cases t with
  | other text _ => exact absurd rfl h
  | known t =>
    cases t <;> first | exact absurd rfl h | rfl | (simp only [composeFactSnapshot]; split_ifs <;> simp_all [role])

theorem factSnapshot_lease_services {current : JournalSnapshot} (h : factSnapshot current f s = .ok reduced) :
    reduced.lease = (composeFactSnapshot current s f.transition).lease ∧
      reduced.services = (composeFactSnapshot current s f.transition).services := by
  unfold factSnapshot at h
  split_ifs at h
  obtain ⟨_, _, _, rfl⟩ := reduceFact_eq_ok h
  exact ⟨rfl, rfl⟩

namespace History

def lastLease (h : History) : LeaseRecord :=
  h.candidates.foldl
    (fun lease (f, s) => if role f.transition = .renewsLease then (canon s).lease else lease) h.initial.lease

def lastServices (h : History) : Option (List ServiceUnitRecord) :=
  h.candidates.foldl
    (fun services (f, s) => if role f.transition = .changesServices then (canon s).services else services)
    h.initial.services

theorem lastLease_fact (h : History) (f : FactRecord) (s reduced : JournalSnapshot) :
    (h.fact f s reduced).lastLease =
      if role f.transition = .renewsLease then (canon s).lease else h.lastLease := by
  simp only [lastLease, fact, List.foldl_append, List.foldl_cons, List.foldl_nil]

theorem lastServices_fact (h : History) (f : FactRecord) (s reduced : JournalSnapshot) :
    (h.fact f s reduced).lastServices =
      if role f.transition = .changesServices then (canon s).services else h.lastServices := by
  simp only [lastServices, fact, List.foldl_append, List.foldl_cons, List.foldl_nil]

def Merged (h : History) : Prop :=
  h.current.lease = h.lastLease ∧ h.current.services = h.lastServices

end History

/-- A fact of the supervisor or the checkpoint. A candidate whose services would be
taken over has the services of the journal. -/
def Call.Merges (d : Disk) : Call → Prop
  | .recordFact f candidate => role f.transition ≠ .other ∧
      (role f.transition = .carriesServices → ∀ s pending,
        loads d f.sessionID = some (.ok (s, pending)) → candidate.services = s.services)
  | _ => True

def MergeStep (w w' : World) : Prop :=
  ∃ c faults, c.Whole faults w.disk ∧ c.Merges w.disk ∧ w' = w.call c faults

theorem whole_of_merge (hRun : ReflTransGen MergeStep World.start w) : ReflTransGen WholeStep World.start w :=
  ReflTransGen.mono (fun _ _ ⟨c, faults, hWhole, _, hCall⟩ => ⟨c, faults, hWhole, hCall⟩) _ _ hRun

theorem merged_fact {folder : Option (Folder File)} (hHeld : Held folder (some h)) (hMerged : h.Merged)
    (hRole : role f.transition ≠ .other)
    (hCarried : role f.transition = .carriesServices → s.services = h.current.services)
    (hReduce : factSnapshot h.current f s = .ok reduced) : (h.fact f s reduced).Merged := by
  have hCanonical : (canon h.current).lease = h.current.lease ∧
      (canon h.current).services = h.current.services := by
    rw [hHeld.canonical]
    exact ⟨rfl, rfl⟩
  obtain ⟨hLease, hServices⟩ := factSnapshot_lease_services hReduce
  rw [composeFactSnapshot_lease _ _ hRole] at hLease
  rw [composeFactSnapshot_services _ _ hRole] at hServices
  rw [History.Merged, current_fact, History.lastLease_fact, History.lastServices_fact, ← hMerged.1,
    ← hMerged.2]
  constructor
  · show Wired.codec.canon reduced.lease = _
    rw [hLease]
    split_ifs
    · rfl
    · exact hCanonical.1
  · show Omittable.policy.keep reduced.services = _
    rw [hServices]
    by_cases hChanges : role f.transition = .changesServices
    · rw [if_pos (Or.inl hChanges), if_pos hChanges]
      rfl
    · rw [if_neg hChanges]
      by_cases hCarries : role f.transition = .carriesServices
      · rw [if_pos (Or.inr hCarries), hCarried hCarries]
        exact hCanonical.2
      · rw [if_neg (by simp [hChanges, hCarries])]
        exact hCanonical.2

theorem merged_bind {folder : Option (Folder File)} (hHeld : Held folder (some h)) (hMerged : h.Merged)
    (hEmpty : h.entries = []) (b : ExecutionBinding) : (h.bind b).Merged := by
  have hCurrent : h.current = h.initial := by
    rw [History.current, hEmpty]
    rfl
  have hCanonical : canon h.initial = h.initial := hCurrent ▸ hHeld.canonical
  have hLease : (h.bind b).initial.lease = h.initial.lease := by
    show (canon h.initial).lease = _
    rw [hCanonical]
  have hServices : (h.bind b).initial.services = h.initial.services := by
    show (canon h.initial).services = _
    rw [hCanonical]
  have hInitial : (h.bind b).current = (h.bind b).initial := by
    rw [History.current, show (h.bind b).entries = [] from hEmpty]
    rfl
  obtain ⟨hOldLease, hOldServices⟩ := hMerged
  rw [hCurrent] at hOldLease hOldServices
  rw [History.Merged, hInitial]
  constructor
  · rw [History.lastLease, hLease]
    exact hOldLease
  · rw [History.lastServices, hServices]
    exact hOldServices

theorem merged_call {c : Call} {faults : List Fault} (hWhole : c.Whole faults w.disk) (hMerges : c.Merges w.disk)
    (hHeld : Held (w.folder c.sessionID) (w.history c.sessionID))
    (hMerged : ∀ h, w.history c.sessionID = some h → h.Merged) (h : History)
    (hAfter : (w.call c faults).history c.sessionID = some h) : h.Merged := by
  have hAdvances := World.advances hHeld hWhole
  generalize w.history c.sessionID = before at *
  generalize (w.call c faults).history c.sessionID = after at *
  cases hAdvances with
  | same => exact hMerged h hAfter
  | started valid =>
    cases hAfter
    exact ⟨rfl, rfl⟩
  | bound unbound empty =>
    cases hAfter
    exact merged_bind hHeld (hMerged _ rfl) empty _
  | @intent i h₀ =>
    cases hAfter
    have hOld := hMerged h₀ rfl
    rw [History.Merged, current_intent]
    exact hOld
  | @fact f s reduced h₀ pending read reduce =>
    cases hAfter
    refine merged_fact hHeld (hMerged h₀ rfl) hMerges.1 (fun hRole => ?_) reduce
    exact hMerges.2 hRole _ _ ((loads_eq _ _).trans (congrArg some read))

theorem merged_of_run (hRun : ReflTransGen MergeStep World.start w) {id : Bytes} (hHistory : w.history id = some h) :
    h.Merged := by
  induction hRun generalizing h with
  | refl => exact absurd hHistory (by simp [World.start])
  | @tail w w' hFront hStep ih =>
    have hHeld := held_of_run (whole_of_merge hFront)
    obtain ⟨c, faults, hWhole, hMerges, rfl⟩ := hStep
    by_cases hID : id = c.sessionID
    · subst hID
      exact merged_call hWhole hMerges (hHeld _) (fun h₀ hEq => ih hEq) h hHistory
    · rw [World.history_call_ne hID] at hHistory
      exact ih hHistory

/-- In every run of supervisor and checkpoint facts whose candidates carry no stale
services, the snapshot that `Load` reports has the lease of the last renewal and
the services of the last fact that changes them. A fact whose call reports success
is one of the facts that count. -/
theorem facts_lose_no_update (hRun : ReflTransGen MergeStep World.start w) :
    (∀ id s pending, loads w.disk id = some (.ok (s, pending)) →
      ∃ h, w.history id = some h ∧ s.lease = h.lastLease ∧ s.services = h.lastServices) ∧
    ∀ (c : Call) faults, c.Whole faults w.disk → (c.run faults w.disk).1 = some (.ok ()) →
      c.Recorded (w.history c.sessionID) ((w.call c faults).history c.sessionID) := by
  refine ⟨fun id s pending hLoad => ?_, fun c faults => recorded_of_run (whole_of_merge hRun)⟩
  have hHeld := held_of_run (whole_of_merge hRun) id
  obtain ⟨h, hHistory, rfl⟩ := hHeld.history_of_load hLoad
  exact ⟨h, hHistory, merged_of_run hRun hHistory⟩

section Stale

/-! A checkpoint loads the new session, and then the supervisor starts a service. The
checkpoint records a sealed registry or a mirrored workspace with the snapshot it has
loaded. -/

def startedServices : JournalSnapshot :=
  { sampleSnapshot with services := some [(Wired.codec.zero : ServiceUnitRecord)] }

def startIntent : IntentRecord := { sampleIntent with transition := .known .serviceStart }

def startFact : FactRecord := { sampleFact with transition := .known .serviceStart }

def sealIntent : IntentRecord := { sampleIntent with id := lit "e", transition := .known .registrySnapshotSealed }

def sealFact : FactRecord := { sampleFact with intentID := lit "e", transition := .known .registrySnapshotSealed }

def renewedLease : JournalSnapshot :=
  { sampleSnapshot with lease := ⟨some (Wired.codec.zero : WriterLease), lit "r"⟩ }

def mirrorIntent : IntentRecord := { sampleIntent with id := lit "m", transition := .known .workspaceMirrored }

def mirrorFact : FactRecord := { sampleFact with intentID := lit "m", transition := .known .workspaceMirrored }

def serviceStarted : World :=
  (sampleCreated.call (.recordIntent startIntent) []).call (.recordFact startFact startedServices) []

def registrySealed : World :=
  (serviceStarted.call (.recordIntent sealIntent) []).call (.recordFact sealFact sampleSnapshot) []

def leaseAnnounced : World := registrySealed.call (.recordIntent sampleIntent) []

def workspaceMirrored : World :=
  (serviceStarted.call (.recordIntent mirrorIntent) []).call (.recordFact mirrorFact sampleSnapshot) []

def startedHistory : History :=
  ((History.start sampleSnapshot).intent startIntent).fact startFact startedServices
    { startedServices with updatedAt := startFact.timestamp }

def sealedHistory : History :=
  (startedHistory.intent sealIntent).fact sealFact sampleSnapshot
    { startedServices with updatedAt := sealFact.timestamp }

def mirroredHistory : History :=
  (startedHistory.intent mirrorIntent).fact mirrorFact sampleSnapshot
    { sampleSnapshot with updatedAt := mirrorFact.timestamp }

theorem ready_serviceStarted : Ready serviceStarted (lit "s") startedHistory := by
  have hIntent := (Ready.intent (i := startIntent) ready_sampleCreated (by decide) (by decide)
    (by decide)).2
  exact (Ready.fact (f := startFact) hIntent (by decide) (by decide) (by decide)
    (by decide) (by decide) ⟨canon startIntent, ⟨[], [], rfl, by simp⟩, by decide⟩).2

theorem ready_registrySealed : Ready registrySealed (lit "s") sealedHistory := by
  have hIntent := (Ready.intent (i := sealIntent) ready_serviceStarted (by decide) (by decide)
    (by decide)).2
  exact (Ready.fact (f := sealFact) hIntent (by decide) (by decide) (by decide)
    (by decide) (by decide)
    ⟨canon sealIntent, ⟨startedHistory.entries, [], rfl, by simp⟩, by decide⟩).2

theorem merge_calm {w : World} {c : Call} (hMerges : c.Merges w.disk) : MergeStep w (w.call c []) :=
  ⟨c, [], whole_calm c w.disk, hMerges, rfl⟩

theorem merge_leaseAnnounced : ReflTransGen MergeStep World.start leaseAnnounced := by
  have hCreate : ReflTransGen MergeStep World.start sampleCreated := .single (merge_calm trivial)
  have hStart : ReflTransGen MergeStep World.start serviceStarted :=
    (hCreate.tail (merge_calm (c := .recordIntent startIntent) trivial)).tail
      (merge_calm ⟨by decide, fun h => absurd h (by decide)⟩)
  have hSeal : ReflTransGen MergeStep World.start registrySealed :=
    (hStart.tail (merge_calm (c := .recordIntent sealIntent) trivial)).tail
      (merge_calm ⟨by decide, fun h => absurd h (by decide)⟩)
  exact hSeal.tail (merge_calm trivial)

/-- The stale candidate of the sealed registry takes away neither the service nor, once
it is renewed, the lease. -/
theorem facts_lose_no_update_sample :
    ((Call.recordFact sampleFact renewedLease).run [] leaseAnnounced.disk).1 = some (.ok ()) ∧
    (Call.recordFact sampleFact renewedLease).Recorded (leaseAnnounced.history (lit "s"))
      ((leaseAnnounced.call (.recordFact sampleFact renewedLease) []).history (lit "s")) ∧
    ∃ s pending, loads (leaseAnnounced.call (.recordFact sampleFact renewedLease) []).disk (lit "s") =
        some (.ok (s, pending)) ∧
      s.lease = renewedLease.lease ∧ s.services = startedServices.services ∧
      ∃ h, (leaseAnnounced.call (.recordFact sampleFact renewedLease) []).history (lit "s") = some h ∧
        s.lease = h.lastLease ∧ s.services = h.lastServices := by
  have hIntent := (Ready.intent (i := sampleIntent) ready_registrySealed (by decide) (by decide)
    (by decide)).2
  obtain ⟨hDone, hReady⟩ := Ready.fact (f := sampleFact) (s := renewedLease) hIntent (by decide)
    (by decide : _ = Except.ok { renewedLease with
      services := startedServices.services, updatedAt := sampleFact.timestamp })
    (by decide) (by decide) (by decide)
    ⟨canon sampleIntent, ⟨sealedHistory.entries, [], rfl, by simp⟩, by decide⟩
  obtain ⟨pending, hLoad, _⟩ := hReady.load
  rw [current_fact] at hLoad
  have hRun : ReflTransGen MergeStep World.start (leaseAnnounced.call (.recordFact sampleFact renewedLease) []) :=
    merge_leaseAnnounced.tail (merge_calm ⟨by decide, fun h => absurd h (by decide)⟩)
  have hRecorded := (facts_lose_no_update merge_leaseAnnounced).2 (.recordFact sampleFact renewedLease) []
    (whole_calm _ _) hDone
  exact ⟨hDone, hRecorded, _, pending, hLoad, by decide, by decide, (facts_lose_no_update hRun).1 _ _ _ hLoad⟩

theorem ready_workspaceMirrored : Ready workspaceMirrored (lit "s") mirroredHistory := by
  have hIntent := (Ready.intent (i := mirrorIntent) ready_serviceStarted (by decide) (by decide)
    (by decide)).2
  exact (Ready.fact (f := mirrorFact) hIntent (by decide) (by decide) (by decide)
    (by decide) (by decide)
    ⟨canon mirrorIntent, ⟨startedHistory.entries, [], rfl, by simp⟩, by decide⟩).2

/-- The services of the supervisor are gone. -/
theorem stale_candidate_drops_services :
    (∃ pending, loads sampleCreated.disk (lit "s") = some (.ok (sampleSnapshot, pending))) ∧
      (∃ s pending, loads serviceStarted.disk (lit "s") = some (.ok (s, pending)) ∧
        s.services = startedServices.services) ∧
      ∃ s pending, loads workspaceMirrored.disk (lit "s") = some (.ok (s, pending)) ∧
        s.services ≠ startedServices.services := by
  obtain ⟨pending, hLoad, _⟩ := ready_sampleCreated.load
  obtain ⟨pending', hLoad', _⟩ := ready_serviceStarted.load
  obtain ⟨pending'', hLoad'', _⟩ := ready_workspaceMirrored.load
  have hCurrent : (History.start sampleSnapshot).current = sampleSnapshot := by decide
  rw [hCurrent] at hLoad
  exact ⟨⟨pending, hLoad⟩, ⟨_, pending', hLoad', by decide⟩, _, pending'', hLoad'', by decide⟩

end Stale

end Camp.Journal
