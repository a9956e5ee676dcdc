import Camp.Coordination.LeaseRights
import Camp.Coordination.PointerRights
import Camp.Coordination.GenerationRights

/-!
# What the calls promise

Each call, judged alone, keeps to its rights in every operation. So in every
interleaving of any number of calls every operation is as its call may act, and
every result is as its operations justify.
-/

namespace Camp.Coordination

open Wire Wire.Utf8 Program Program.Objects Program.Machine

namespace Call

def guar (S : ObjectStore) : Call → List StoreDeed → StoreDeed → Prop
  | acquire _ capsule lineage owner _ now _, _ =>
    (Rights.acquirer capsule lineage owner now).Allows S
  | acquireBranchFrom _ capsule lineage owner _ now _, _ =>
    (Rights.acquirer capsule lineage owner now).Allows S
  | revalidateLease token _, _ => (Rights.holder token).Allows S
  | renew token _ _, _ => (Rights.holder token).Allows S
  | release token, _ => (Rights.holder token).Allows S
  | create next, _ => (Change.creation next).Allows S
  | compareAndSwap expected next, _ => (Change.swap expected next).Allows S
  | selectHistorical expected historical, _ => (Change.selection expected historical).Allows S
  | putAndVerify metadata _, earlier => Deposits S metadata earlier

def change : Call → Option Change
  | create next => some (.creation next)
  | compareAndSwap expected next => some (.swap expected next)
  | selectHistorical expected historical => some (.selection expected historical)
  | _ => none

/-- What the result of a pointer call says about its operations, and what the
result of a publication says about the store. -/
structure post (S : ObjectStore) (c : Call) (deeds : List StoreDeed) (r : Except Error Result)
    (o : Bucket) : Prop where
  record : ∀ change, c.change = some change →
    (∀ record, r = .ok (.record record) → change.Settled S deeds (.ok record)) ∧
    ∀ e, r = .error e → change.Settled S deeds (.error e)
  generation : ∀ metadata source record, c = .putAndVerify metadata source →
    r = .ok (.generation record) → Deposited S metadata record o

end Call

section Discipline

variable {S : ObjectStore} {o : Bucket}
variable {c : Call} {d : StoreDeed}

theorem acts_lease {α : Type} {p : Remote α} {make : α → Result} {guar : StoreDeed → Prop}
    {post : StorePost α} (hChange : c.change = none)
    (hGeneration : ∀ a record, make a ≠ .generation record)
    (h : (storeMachine S).Acts Grows (fun _ => guar) p post [] o) :
    (storeMachine S).Acts Rely (fun _ => guar) (do return make (← p)) (c.post S) [] o := by
  apply Machine.Acts.bind
  apply (h.calmer fun _ _ => Rely.grows).mono
  rintro deeds (e | a) o₁ -
  · refine ⟨fun change h => ?_, fun _ _ _ _ h => absurd h (by simp)⟩
    cases hChange.symm.trans h
  · refine ⟨fun change h => ?_, fun metadata source record _ hRecord => ?_⟩
    · cases hChange.symm.trans h
    · exact absurd (Except.ok.inj hRecord) (hGeneration a record)

theorem acts_record {p : Remote PointerRecord} {change : Change} (hc : c.change = some change)
    (h : (storeMachine S).Acts Grows (fun _ => change.Allows S) p (fun deeds r _ => change.Settled S deeds r) [] o) :
    (storeMachine S).Acts Rely (fun _ => change.Allows S) (do return .record (← p)) (c.post S)
      [] o := by
  apply Machine.Acts.bind
  apply (h.calmer fun _ _ => Rely.grows).mono
  rintro deeds (e | record) o₁ hSettled
  · refine ⟨fun change' hChange => ?_, fun _ _ _ _ h => absurd h (by simp)⟩
    cases hc.symm.trans hChange
    refine ⟨nofun, fun e' he => ?_⟩
    cases he
    exact hSettled
  · refine ⟨fun change' hChange => ?_, fun _ _ _ _ h => absurd h (by simp)⟩
    cases hc.symm.trans hChange
    refine ⟨fun record' hRecord => ?_, nofun⟩
    cases hRecord
    exact hSettled

theorem acts_generation {metadata : GenerationMetadata} {source : Option Bytes} :
    (storeMachine S).Acts Rely (Deposits S metadata)
      (do return .generation (← Generations.putAndVerify metadata source))
      ((Call.putAndVerify metadata source).post S) [] o := by
  apply Machine.Acts.bind
  apply acts_putAndVerify.mono
  rintro deeds (e | record) o₁ hDeposited
  · exact ⟨fun change h => absurd h (by simp [Call.change]), fun _ _ _ _ h => absurd h (by simp)⟩
  · refine ⟨fun change h => absurd h (by simp [Call.change]),
      fun metadata' source' record' hCall hRecord => ?_⟩
    cases hCall
    cases hRecord
    exact hDeposited record rfl

theorem Rights.Allows.relied {R : Rights} (h : R.Allows S d) : Rely d.before d.after := by
  refine ⟨grows_of_allows h, ?_⟩
  cases h with
  | idle op answer o => exact (Rely.refl o).permanent
  | create hKey =>
    exact permanent_update fun h => absurd h (not_generationKey_lease hKey)
  | replace hKey =>
    exact permanent_update fun h => absurd h (not_generationKey_lease hKey)
  | remove hKey =>
    exact permanent_update fun h => absurd h (not_generationKey_lease hKey)

theorem Change.Allows.relied {c : Change} (h : c.Allows S d) : Rely d.before d.after := by
  refine ⟨grows_of_allows h, ?_⟩
  cases h with
  | idle op answer o => exact (Rely.refl o).permanent
  | write hKey =>
    exact permanent_update fun h => absurd h (not_generationKey_pointer hKey)

theorem relied_of_guar {earlier : List StoreDeed} (h : c.guar S earlier d) : Rely d.before d.after := by
  cases c with
  | acquire => exact Rights.Allows.relied h
  | acquireBranchFrom => exact Rights.Allows.relied h
  | revalidateLease => exact Rights.Allows.relied h
  | renew => exact Rights.Allows.relied h
  | release => exact Rights.Allows.relied h
  | create => exact Change.Allows.relied h
  | compareAndSwap => exact Change.Allows.relied h
  | selectHistorical => exact Change.Allows.relied h
  | putAndVerify => exact Deposits.relied h

theorem discipline (S : ObjectStore) :
    Discipline (storeMachine S) Call.program Rely (Call.guar S) (Call.post S) where
  refl := Rely.refl
  trans _ _ _ := Rely.trans
  tolerated _ _ _ := relied_of_guar
  stable _ _ _ _ _ hRely h := ⟨h.record, fun metadata source record hCall hRecord =>
    (h.generation metadata source record hCall hRecord).rely hRely⟩
  kept c o := by
    cases c with
    | acquire => exact acts_lease rfl (by simp) Rights.acts_acquire
    | acquireBranchFrom => exact acts_lease rfl (by simp) Rights.acts_acquireBranchFrom
    | revalidateLease => exact acts_lease rfl (by simp) Rights.acts_revalidate
    | renew => exact acts_lease rfl (by simp) Rights.acts_renew
    | release => exact acts_lease rfl (by simp) Rights.acts_release
    | create => exact acts_record rfl Change.acts_create
    | compareAndSwap => exact acts_record rfl Change.acts_compareAndSwap
    | selectHistorical => exact acts_record rfl Change.acts_selectHistorical
    | putAndVerify => exact acts_generation

end Discipline

end Camp.Coordination
