import Camp.Coordination.Clients

/-!
# What a call may do to a pointer

Every operation of a pointer call leaves the store as it is, or writes the
pointer of the call over the record its caller expected. A call that succeeds
has done so, or found its own document after the outcome of its write got lost.
A call that fails otherwise has changed nothing.
-/

namespace Camp.Coordination

open Wire Wire.Utf8 Program Program.Objects Program.Machine

/-- The store is as the writer of a pointer expects it: no pointer is there, or a
valid record with this revision and this document. -/
def Finds (S : ObjectStore) (o : Bucket) (key : Bytes) : Option PointerRecord → Prop
  | none => (o key).current = none
  | some expected => ∃ current : LatestPointer, Holds S o key current expected.revision ∧
      documentsEqual current expected.pointer ∧
      validatePointer current expected.pointer.capsule expected.pointer.lineage = .ok ()

/-- A change of a pointer: from what is expected to what comes next, under a law. -/
structure Change where
  expected : Option PointerRecord
  next : LatestPointer
  law : Prop

namespace Change

variable {next : LatestPointer} {expected : PointerRecord}
variable {e : Error} {refused : Error → Error}

def creation (next : LatestPointer) : Change := ⟨none, next, True⟩

/-- A successor names the generation it replaces as its parent, and advances it. -/
def swap (expected : PointerRecord) (next : LatestPointer) : Change :=
  ⟨some expected, next, next.parent = some expected.pointer.generation ∧
    expected.pointer.generation.generation < next.generation.generation⟩

def selection (expected : PointerRecord) (historical : LatestPointer) : Change :=
  ⟨some expected, historical,
    historical.generation.generation < expected.pointer.generation.generation⟩

inductive Allows (S : ObjectStore) (c : Change) : StoreDeed → Prop
  | idle (op : RemoteSignature.Op) (answer : Option (RemoteSignature.Answer op)) (o : Bucket) :
      Allows S c ⟨op, answer, o, o⟩
  | write {op : RemoteSignature.Op} {answer : Option (RemoteSignature.Answer op)} {o : Bucket}
      {key body : Bytes} (hKey : c.next.lineage.pointerKey c.next.capsule = .ok key)
      (hValid : validatePointer c.next c.next.capsule c.next.lineage = .ok ())
      (hBody : marshal c.next = some body) (hFinds : Finds S o key c.expected) (hLaw : c.law) :
      Allows S c ⟨op, answer, o, put o key body⟩

variable {S : ObjectStore} {c : Change} {deeds : List StoreDeed} {o : Bucket}

theorem idle : Idle fun _ => c.Allows S := fun _ => .idle

theorem grows_of_allows {d : StoreDeed} (h : c.Allows S d) : Grows d.before d.after := by
  cases h with
  | idle op answer o => exact Grows.refl o
  | write => exact grows_put _ _ _

/-- The deed wrote the pointer of the change over what was expected, and the
record names the new version. -/
structure Made (S : ObjectStore) (c : Change) (record : PointerRecord) (d : StoreDeed) : Prop where
  pointer : record.pointer = c.next
  made : ∃ key body, c.next.lineage.pointerKey c.next.capsule = .ok key ∧
    marshal c.next = some body ∧ Finds S d.before key c.expected ∧ d.after = put d.before key body ∧
    record.revision = revision S d.after key

def Lost (d : StoreDeed) : Prop :=
  ∃ key body condition o o', d = ⟨.putConditional key body condition, some (.error .ambiguous), o, o'⟩

/-- The outcome of the write got lost, and the document was found after it. -/
def Found (S : ObjectStore) (c : Change) (record : PointerRecord) (deeds : List StoreDeed) : Prop :=
  ∃ before after, deeds = before ++ after ∧ (∃ d ∈ before, Lost d) ∧
    documentsEqual record.pointer c.next ∧ ∃ d ∈ after, ∃ key,
      c.next.lineage.pointerKey c.next.capsule = .ok key ∧
      Holds S d.before key record.pointer record.revision

def Settled (S : ObjectStore) (c : Change) (deeds : List StoreDeed) :
    Except Error PointerRecord → Prop
  | .ok record => (∃ d ∈ deeds, c.Made S record d) ∨ c.Found S record deeds
  | .error e => e.is .ambiguous ∨ Quiet deeds

theorem acts_reconcile {post : StorePost (Option PointerRecord)}
    (hMissed : ∀ more o₁, Quiet more → post (deeds ++ more) (.ok none) o₁)
    (hFound : ∀ more o₁ key record, e.is .ambiguous → next.lineage.pointerKey next.capsule = .ok key →
      Saw S o₁ more key record.pointer record.revision → documentsEqual record.pointer next →
      post (deeds ++ more) (.ok (some record)) o₁) :
    (storeMachine S).Acts Grows (fun _ => c.Allows S) (Pointers.reconcile next e) post deeds o := by
  unfold Pointers.reconcile
  split_ifs with hLost
  · apply Acts.catching_bind
    apply acts_readPointer idle
    · intro more o₁ readErr hQuiet _
      exact hMissed more o₁ hQuiet
    · intro more o₁ key record hQuiet _ hKey hSaw _
      dsimp only
      split_ifs with hEqual
      · exact hFound more o₁ key record hLost hKey hSaw hEqual
      · exact hMissed more o₁ hQuiet
  · have hNone := hMissed [] o fun _ hd => by cases hd
    rw [List.append_nil] at hNone
    exact hNone

theorem acts_refused (hLost : e.is .ambiguous → ∃ d ∈ deeds, Lost d) (hEnd : Quiet deeds ∨ (refused e).is .ambiguous) :
    (storeMachine S).Acts Grows (fun _ => c.Allows S) (do
      match ← Pointers.reconcile c.next e with
      | some reconciled => pure reconciled
      | none => throw (refused e)) (fun deeds r _ => c.Settled S deeds r) deeds o := by
  apply Acts.bind
  apply acts_reconcile
  · intro more o₁ hQuiet
    rcases hEnd with hDeeds | hAmbiguous
    · exact .inr (hDeeds.append hQuiet)
    · exact .inl hAmbiguous
  · intro more o₁ key record hAmbiguous hKey hSaw hEqual
    obtain ⟨d, hd, hHolds⟩ := hSaw.seen
    exact .inr ⟨deeds, more, rfl, hLost hAmbiguous, hEqual, d, hd, key, hKey, hHolds⟩

theorem acts_write {key body : Bytes} {condition : Condition Bytes} (hDeeds : Quiet deeds)
    (hKey : c.next.lineage.pointerKey c.next.capsule = .ok key)
    (hValid : validatePointer c.next c.next.capsule c.next.lineage = .ok ()) (hBody : marshal c.next = some body)
    (hLaw : c.law) (hFinds : ∀ o₁, Grows o o₁ → Met S o₁ key condition → Finds S o₁ key c.expected)
    (hRefused : refused (plainly .ambiguous) = plainly .ambiguous) :
    (storeMachine S).Acts Grows (fun _ => c.Allows S)
      (Pointers.write key body condition c.next refused) (fun deeds r _ => c.Settled S deeds r)
      deeds o := by
  have hLast (d : StoreDeed) : d ∈ deeds ++ [d] :=
    List.mem_append_right _ (List.mem_singleton_self d)
  apply Acts.catching_bind
  unfold putConditional
  split_ifs
  · exact acts_refused nofun (.inl hDeeds)
  · apply Acts.putConditional idle
    · intro o₁ e _
      apply acts_refused
      · intro hAmbiguous
        cases e with
        | ambiguous => exact ⟨_, hLast _, key, body, condition, o₁, o₁, rfl⟩
        | _ => cases hAmbiguous
      · exact .inl (hDeeds.append (by simp [Quiet]))
    · intro o₁ hGrows hMet
      have hFound := hFinds o₁ hGrows hMet
      refine ⟨fun told => .write hKey hValid hBody hFound hLaw, ?_, ?_⟩
      · exact .inl ⟨_, hLast _, rfl, key, body, hKey, hBody, hFound, rfl, rfl⟩
      · apply acts_refused
        · intro _
          exact ⟨_, hLast _, key, body, condition, o₁, _, rfl⟩
        · rw [hRefused]
          exact .inr rfl

theorem acts_create :
    (storeMachine S).Acts Grows (fun _ => Allows S (creation next)) (Pointers.create next)
      (fun deeds r _ => Settled S (creation next) deeds r) [] o := by
  have hQuiet : Quiet [] := nofun
  apply Acts.bind
  rw [acts_lift]
  cases hValid : validatePointer next next.capsule next.lineage with
  | error e => exact .inr hQuiet
  | ok _ =>
    dsimp only
    split
    · exact .inr hQuiet
    · apply Acts.bind
      rw [acts_lift]
      cases hKey : next.lineage.pointerKey next.capsule with
      | error e => exact .inr hQuiet
      | ok key =>
        dsimp only
        split
        · exact .inr hQuiet
        · rename_i body hBody
          exact acts_write (c := creation next) hQuiet hKey hValid hBody trivial
            (fun o₁ _ hMet => hMet) rfl

theorem acts_revalidate {observed : PointerRecord}
    {post : StorePost Unit}
    (hError : ∀ more o₁ e, Quiet more → post (deeds ++ more) (.error e) o₁)
    (hOk : ∀ more o₁ key current, Quiet more → Grows o o₁ →
      observed.pointer.lineage.pointerKey observed.pointer.capsule = .ok key →
      Saw S o₁ more key current observed.revision → documentsEqual current observed.pointer →
      validatePointer current observed.pointer.capsule observed.pointer.lineage = .ok () →
      post (deeds ++ more) (.ok ()) o₁) :
    (storeMachine S).Acts Grows (fun _ => c.Allows S)
      (Pointers.revalidate observed) post deeds o := by
  apply Acts.catching_bind
  apply acts_readPointer idle
  · intro more o₁ e hQuiet _
    dsimp only
    split
    · exact hError more o₁ _ hQuiet
    · exact hError more o₁ _ hQuiet
  · intro more o₁ key current hQuiet hGrows hKey hSaw hValid
    dsimp only
    split
    · exact hError more o₁ _ hQuiet
    · rename_i hSame
      simp only [Bool.or_eq_true, decide_eq_true_eq, Bool.not_eq_true', not_or, not_not,
        Bool.not_eq_false] at hSame
      obtain ⟨hRevision, hEqual⟩ := hSame
      rw [hRevision] at hSaw
      exact hOk more o₁ key current.pointer hQuiet hGrows hKey hSaw hEqual hValid

theorem acts_replace {marshalFormat format : String} {law : Prop}
    (hChecks : Pointers.validateReplacement expected next = .ok ()) (hLaw : law) :
    (storeMachine S).Acts Grows (fun _ => Allows S ⟨some expected, next, law⟩)
      (Pointers.replace marshalFormat format expected next)
      (fun deeds r _ => Settled S ⟨some expected, next, law⟩ deeds r) [] o := by
  obtain ⟨hValid, hCapsule, hLineage⟩ : validatePointer next next.capsule next.lineage = .ok () ∧
      next.capsule = expected.pointer.capsule ∧ next.lineage = expected.pointer.lineage := by
    unfold Pointers.validateReplacement at hChecks
    cases hExpected : validatePointer expected.pointer expected.pointer.capsule
        expected.pointer.lineage with
    | error e =>
      rw [hExpected] at hChecks
      cases hChecks
    | ok _ =>
      rw [hExpected] at hChecks
      dsimp only [bind, Except.bind] at hChecks
      split at hChecks
      · cases hChecks
      · obtain ⟨hCapsule, hLineage⟩ := identity_of_validatePointer hChecks
        rw [hCapsule, hLineage]
        exact ⟨hChecks, rfl, rfl⟩
  apply Acts.bind
  apply acts_revalidate
  · intro more o₁ e hQuiet
    exact .inr hQuiet
  · intro more o₁ key current hQuiet hGrows hKey hSaw hEqual hCurrent
    dsimp only
    split
    · exact .inr hQuiet
    · rename_i body hBody
      rw [← hCapsule, ← hLineage] at hKey
      apply Acts.bind
      rw [acts_lift, hKey]
      apply acts_write (c := ⟨some expected, next, law⟩) hQuiet hKey hValid hBody hLaw
      · rintro o₂ hGrows₂ ⟨stored, hStored⟩
        have hHolds := hSaw.holds hGrows₂ hStored
        exact ⟨current, hHolds, hEqual, hCurrent⟩
      · rfl

theorem acts_compareAndSwap :
    (storeMachine S).Acts Grows (fun _ => Allows S (swap expected next))
      (Pointers.compareAndSwap expected next)
      (fun deeds r _ => Settled S (swap expected next) deeds r) [] o := by
  have hQuiet : Quiet [] := nofun
  apply Acts.bind
  rw [acts_lift]
  cases hChecks : Pointers.validateReplacement expected next with
  | error e => exact .inr hQuiet
  | ok _ =>
    dsimp only
    split
    · exact .inr hQuiet
    · rename_i hParent
      split
      · exact .inr hQuiet
      · rename_i hOrder
        exact acts_replace hChecks ⟨not_not.mp hParent, UInt64.not_le.mp hOrder⟩

theorem acts_selectHistorical {historical : LatestPointer} :
    (storeMachine S).Acts Grows (fun _ => Allows S (selection expected historical))
      (Pointers.selectHistorical expected historical)
      (fun deeds r _ => Settled S (selection expected historical) deeds r) [] o := by
  have hQuiet : Quiet [] := nofun
  apply Acts.bind
  rw [acts_lift]
  cases hChecks : Pointers.validateReplacement expected historical with
  | error e => exact .inr hQuiet
  | ok _ =>
    dsimp only
    split
    · exact .inr hQuiet
    · rename_i hOrder
      exact acts_replace hChecks (UInt64.not_le.mp hOrder)

end Change

end Camp.Coordination
