import Camp.Coordination.Clients

/-!
# Calls that nothing disturbs

What a reading call returns when it runs at one instant and every operation is
answered.
-/

namespace Camp.Coordination

open Wire Wire.Utf8 Program Program.Objects Program.Machine

variable {S : ObjectStore} {o : Bucket} {key : Bytes}
variable {α : Type}
variable {β : Type} {check : α → Except Error Unit} {make : α → Bytes → β}

def fetch (α : Type) [Wired α] (S : ObjectStore) (o : Bucket) (key : Bytes) :
    Except Error (α × Bytes) :=
  match (o key).current with
  | none => .error (plainly .notFound)
  | some body =>
    if maxCoordinationDocumentSize < body.length then
      .error (invalid "coordination object %q exceeds size limit: %w" [key])
    else match unmarshal body with
      | none => .error (invalid "decode coordination object %q: %v: %w" [key])
      | some document => .ok (document, revision S o key)

theorem calmly_readJSON [Wired α] : (storeMachine S).calmly (readJSON α key) o = (some (fetch α S o key), o) := by
  unfold readJSON fetch
  rw [calmly_bind, calmly_ask]
  cases hCurrent : (o key).current with
  | none =>
    simp only [perform, hCurrent]
    rfl
  | some body =>
    simp only [perform, hCurrent, Except.mapError]
    rw [calmly_bind, calmly_ask]
    simp only [perform, Except.mapError]
    rw [calmly_bind, calmly_ask]
    simp only [perform, Except.mapError]
    split_ifs
    · rfl
    · cases (unmarshal body : Option α) <;> rfl

def fetchChecked {α β : Type} [Wired α] (S : ObjectStore) (o : Bucket) (key : Except Error Bytes)
    (check : α → Except Error Unit) (make : α → Bytes → β) : Except Error β := do
  let key ← key
  let (document, revision) ← fetch α S o key
  check document
  pure (make document revision)

theorem calmly_readChecked [Wired α] {key : Except Error Bytes} :
    (storeMachine S).calmly (readChecked key check make) o =
      (some (fetchChecked S o key check make), o) := by
  unfold readChecked fetchChecked
  rw [calmly_bind, calmly_lift]
  cases key with
  | error e => rfl
  | ok key =>
    dsimp only
    rw [calmly_bind, calmly_readJSON]
    cases hFetch : fetch α S o key with
    | error e =>
      show _ = (some (fetch α S o key >>= _), o)
      rw [hFetch]
      rfl
    | ok document =>
      show _ = (some (fetch α S o key >>= _), o)
      rw [hFetch]
      dsimp only
      rw [calmly_bind, calmly_lift]
      show _ = (some (check document.1 >>= _), o)
      cases check document.1 <;> rfl

theorem holds_of_fetch [Wired α] {document : α} {revision : Bytes} (h : fetch α S o key = .ok (document, revision)) :
    Holds S o key document revision := by
  unfold fetch at h
  split at h
  · cases h
  · rename_i body hCurrent
    split_ifs at h
    split at h
    · cases h
    · rename_i hBody
      cases h
      exact ⟨body, ⟨hCurrent, rfl⟩, hBody⟩

theorem fetchChecked_eq_ok [Wired α] {key : Except Error Bytes} {b : β} (h : fetchChecked S o key check make = .ok b) :
    ∃ k document revision, key = .ok k ∧
      Holds S o k document revision ∧ check document = .ok () ∧ b = make document revision := by
  unfold fetchChecked at h
  cases key with
  | error e => cases h
  | ok k =>
    cases hFetch : fetch α S o k with
    | error e =>
      change (fetch α S o k >>= _) = _ at h
      rw [hFetch] at h
      cases h
    | ok found =>
      change (fetch α S o k >>= _) = _ at h
      rw [hFetch] at h
      obtain ⟨document, revision⟩ := found
      change (check document >>= _) = _ at h
      cases hCheck : check document with
      | error e =>
        rw [hCheck] at h
        cases h
      | ok _ =>
        rw [hCheck] at h
        cases h
        exact ⟨k, document, revision, rfl, holds_of_fetch hFetch, hCheck, rfl⟩

end Camp.Coordination
