import Camp.Wire.Codec

/-!
# Records that are always written

A value without times and documents of its own can always be written. What is read back is the
value itself if its strings are text.
-/

namespace Wire

open Utf8

class Total (α : Type) [Wired α] : Prop where
  written : ∀ a : α, ∃ j, Wired.codec.enc a = some j

instance : Total Bytes := ⟨fun _ => ⟨_, rfl⟩⟩

instance : Total Int64 := ⟨fun _ => ⟨_, rfl⟩⟩

instance : Total UInt64 := ⟨fun _ => ⟨_, rfl⟩⟩

instance : Total UInt32 := ⟨fun _ => ⟨_, rfl⟩⟩

instance {E : Type} [DecidableEq E] [Named E] : Total (Open E) := ⟨fun _ => ⟨_, rfl⟩⟩

section Instances

variable {α σ β : Type}

theorem exists_mapM_enc [Wired α] [Total α] (as : List α) : ∃ js, as.mapM (Wired.codec : Codec α).enc = some js := by
  induction as with
  | nil => exact ⟨[], rfl⟩
  | cons a as ih =>
    obtain ⟨j, hHead⟩ := Total.written a
    obtain ⟨js, hTail⟩ := ih
    exact ⟨j :: js, by rw [List.mapM_cons, hHead, hTail]; rfl⟩

instance [Wired α] [Total α] : Total (Option (List α)) where
  written
    | none => ⟨_, rfl⟩
    | some as => by
      obtain ⟨js, hItems⟩ := exists_mapM_enc as
      exact ⟨.arr js, by show Option.map _ (as.mapM _) = _; rw [hItems]; rfl⟩

instance [Record σ] [Total σ] : Total (Option σ) where
  written
    | none => ⟨_, rfl⟩
    | some s => Total.written s

theorem exists_marshal [Wired α] [Total α] (a : α) : ∃ text, marshal a = some text := by
  obtain ⟨j, hWritten⟩ := Total.written a
  exact ⟨j.toBytes, by rw [marshal, Codec.marshal, hWritten]; rfl⟩

namespace Fields

/-- The fields of every record can be written. -/
class Writes (f : Fields σ β) : Prop where
  written : ∀ s, ∃ ms, f.write s = some ms

variable {f : Fields σ (α → β)} {n : String} {get : σ → α}

instance (b : β) : (none b : Fields σ β).Writes := ⟨fun _ => ⟨_, rfl⟩⟩

theorem writes_fieldUnless {c : Codec α} {empty : α → Bool} {kept : α → α}
    {kept_eq : ∀ a, kept a = if empty a then c.zero else c.canon a} [f.Writes] (hEnc : ∀ a, ∃ j, c.enc a = some j) :
    (f.fieldUnless n get c empty kept kept_eq).Writes := by
  constructor
  intro s
  obtain ⟨ms, hWrite⟩ := Writes.written (f := f) s
  obtain ⟨j, hField⟩ := hEnc (get s)
  show ∃ ms', (f.write s).bind _ = some ms'
  rw [hWrite]
  by_cases hEmpty : empty (get s)
  · exact ⟨ms, by simp [hEmpty]⟩
  · exact ⟨ms ++ [(n.toList.map some, j)], by simp [hEmpty, hField]⟩

instance [Wired α] [Total α] [f.Writes] : (f.field n get).Writes := writes_fieldUnless Total.written

instance [Wired α] [Omittable α] [Total α] [f.Writes] : (f.fieldOmit n get).Writes := writes_fieldUnless Total.written

section Partial

variable (f) (n) (get) (s : σ)

/-- A record with fields that cannot always be written. -/
theorem isSome_write_field [Wired α] :
    ((f.field n get).write s).isSome = ((f.write s).isSome && ((Wired.codec : Codec α).enc (get s)).isSome) := by
  show ((f.write s).bind _).isSome = _
  cases f.write s with
  | none => rfl
  | some ms => cases (Wired.codec : Codec α).enc (get s) <;> simp

theorem isSome_write_fieldOmit [Wired α] [Omittable α] :
    ((f.fieldOmit n get).write s).isSome =
      ((f.write s).isSome && (Omittable.policy.empty (get s) || ((Wired.codec : Codec α).enc (get s)).isSome)) := by
  show ((f.write s).bind _).isSome = _
  cases f.write s with
  | none => rfl
  | some ms => cases Omittable.policy.empty (get s) <;> cases (Wired.codec : Codec α).enc (get s) <;> simp

end Partial

end Fields

theorem isSome_enc [Wired α] [Total α] (a : α) : ((Wired.codec : Codec α).enc a).isSome = true := by
  obtain ⟨j, hWritten⟩ := Total.written a
  rw [hWritten]
  rfl

theorem Record.isSome_enc [Record σ] (s : σ) :
    ((Wired.codec : Codec σ).enc s).isSome = ((Record.fields : Fields σ σ).write s).isSome :=
  Option.isSome_map ..

theorem isSome_marshal [Wired α] (a : α) :
    (marshal a).isSome = ((Wired.codec : Codec α).enc a).isSome := Option.isSome_map ..

theorem Record.total [Record σ] (h : (Record.fields : Fields σ σ).Writes) : Total σ where
  written s := by
    obtain ⟨ms, hWrite⟩ := h.written s
    exact ⟨.obj ms, by show (Record.fields.write s).map _ = _; rw [hWrite]; rfl⟩

end Instances

section Kept

/-- What a field that may be left out keeps of a string is what any field does. -/
@[simp] theorem keep_bytes (s : Bytes) : (Omittable.policy : Omit (Wired.codec : Codec Bytes)).keep s = sanitize s := by
  cases s with
  | nil => rfl
  | cons b s => rfl

@[simp] theorem keep_int64 (n : Int64) : (Omittable.policy : Omit (Wired.codec : Codec Int64)).keep n = n := by
  show (if (n == 0) = true then 0 else n) = n
  split_ifs with hZero
  · exact (beq_iff_eq.mp hZero).symm
  · rfl

@[simp] theorem keep_option {σ : Type} [Record σ] (o : Option σ) :
    (Omittable.policy : Omit (Wired.codec : Codec (Option σ))).keep o = o.map canon := by
  cases o <;> rfl

theorem map_canon_eq_self {α : Type} [Wired α] {strings : α → List Bytes} {l : List α}
    (h : ∀ a ∈ l, (canon a = a ↔ ∀ s ∈ strings a, sanitize s = s)) :
    l.map canon = l ↔ ∀ s ∈ l.flatMap strings, sanitize s = s := by
  induction l with
  | nil => simp
  | cons a l ih =>
    obtain ⟨hHead, hTail⟩ := List.forall_mem_cons.mp h
    simp [hHead, ih hTail, or_imp, forall_and]

end Kept

end Wire
