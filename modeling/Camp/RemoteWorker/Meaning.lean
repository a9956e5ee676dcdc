import Camp.RemoteWorker.Protocol
import Mathlib.Logic.Relation

/-!
# The meaning of a request

The decoder stores two members in one field when their names differ in case only, and the later
one wins. A request without such names means the same in every order of its members.
-/

namespace Camp.RemoteWorker

open Wire Wire.Utf8 Wire.Json JsonStrict List Option

section Order

/-- Two neighbours of one object, at any depth, change places. -/
inductive Swapped : Json → Json → Prop
  | here (front back : List Member) (a b : Member) :
      Swapped (.obj (front ++ a :: b :: back)) (.obj (front ++ b :: a :: back))
  | member (front back : List Member) (name : List (Option Char)) {j j' : Json} (h : Swapped j j') :
    Swapped (.obj (front ++ (name, j) :: back)) (.obj (front ++ (name, j') :: back))
  | item (front back : List Json) {j j' : Json} (h : Swapped j j') :
      Swapped (.arr (front ++ j :: back)) (.arr (front ++ j' :: back))

/-- The same document, with the members of its objects in another order. -/
def Reordered : Json → Json → Prop := Relation.ReflTransGen Swapped

theorem everywhereItems_append (check : Json → Bool) (front back : List Json) :
    everywhereItems check (front ++ back) = (everywhereItems check front && everywhereItems check back) := by
  induction front with
  | nil => rfl
  | cons j front ih => simp only [cons_append, everywhereItems, ih, Bool.and_assoc]

theorem everywhereMembers_append (check : Json → Bool) (front back : List Member) :
    everywhereMembers check (front ++ back) = (everywhereMembers check front && everywhereMembers check back) := by
  induction front with
  | nil => rfl
  | cons m front ih => simp only [cons_append, everywhereMembers, ih, Bool.and_assoc]

/-- A check that only looks at the top of a document, and there at the set of names. -/
structure Unordered (check : Json → Bool) : Prop where
  obj : ∀ ms ms' : List Member, (ms.map Prod.fst).Perm (ms'.map Prod.fst) → check (.obj ms) = check (.obj ms')
  arr : ∀ js js' : List Json, check (.arr js) = check (.arr js')

theorem everywhere_swapped {check : Json → Bool} (hCheck : Unordered check) {j j' : Json} (h : Swapped j j') :
    everywhere check j = everywhere check j' := by
  induction h with
  | here front back a b =>
    have hTop := hCheck.obj (front ++ a :: b :: back) (front ++ b :: a :: back)
        (((Perm.swap b a back).append_left front).map _)
    simp only [everywhere, everywhereMembers_append, everywhereMembers, hTop]
    ac_rfl
  | member front back name h ih =>
    rename_i j j'
    have hTop := hCheck.obj (front ++ (name, j) :: back) (front ++ (name, j') :: back) (by simp)
    simp only [everywhere, everywhereMembers_append, everywhereMembers, everywhereMember, hTop, ih]
  | item front back h ih =>
    rename_i j j'
    simp only [everywhere, everywhereItems_append, everywhereItems,
      hCheck.arr (front ++ j :: back) (front ++ j' :: back), ih]

theorem unordered_namesDiffer {κ : Type} [DecidableEq κ] (key : List Char → κ) : Unordered (namesDiffer key) where
  obj ms ms' h := by
    have hKeys := h.map fun name => key (text name)
    simp only [List.map_map] at hKeys
    simp only [namesDiffer, decide_eq_decide]
    exact hKeys.nodup_iff
  arr _ _ := rfl

theorem unordered_overflows : Unordered (fun j => !overflows j) := ⟨fun _ _ _ => rfl, fun _ _ => rfl⟩

end Order

section Fields

variable {fields : List (String × Shape)} {k : Nat}

theorem fieldIndex_eq_some {name : List Char} (h : fieldIndex fields name = some k) :
    ∃ field, fields[k]? = some field ∧ foldName field.1.toList = foldName name := by
  rcases or_eq_some_iff.mp h with h | ⟨-, h⟩
  all_goals
    obtain ⟨hk, hName, -⟩ := List.findIdx?_eq_some_iff_getElem.mp h
    refine ⟨fields[k], List.getElem?_eq_getElem hk, ?_⟩
    simp only [beq_iff_eq] at hName
    rw [hName]

def distinctFields (fields : List (String × Shape)) : Bool := (fields.map fun field => foldName field.1.toList).Nodup

/-- Among distinct fields, names that fold alike go to the same one. -/
theorem fieldIndex_eq_iff (hFields : distinctFields fields = true) {a b : List Char} {l : Nat}
    (ha : fieldIndex fields a = some k) (hb : fieldIndex fields b = some l) : k = l ↔ foldName a = foldName b := by
  obtain ⟨f, hf, hfa⟩ := fieldIndex_eq_some ha
  obtain ⟨g, hg, hgb⟩ := fieldIndex_eq_some hb
  constructor
  · rintro rfl
    rw [← hfa, ← hgb, Option.some.inj (hf.symm.trans hg)]
  · intro h
    have hEntries : (fields.map fun field => foldName field.1.toList)[k]? =
        (fields.map fun field => foldName field.1.toList)[l]? := by
      simp only [List.getElem?_map, hf, hg, map_some, hfa, hgb, h]
    have hk : k < (fields.map fun field => foldName field.1.toList).length := by
      simpa using (List.getElem?_eq_some_iff.mp hf).1
    exact (List.getElem?_inj hk (of_decide_eq_true hFields)).mp hEntries

mutual

def wellNamed : Shape → Bool
  | .record fields | .optional fields => distinctFields fields && wellNamedFields fields
  | _ => true

def wellNamedFields : List (String × Shape) → Bool
  | [] => true
  | field :: fields => wellNamedField field && wellNamedFields fields

def wellNamedField : String × Shape → Bool
  | (_, shape) => wellNamed shape

end

theorem wellNamedFields_get {fields : List (String × Shape)} (h : wellNamedFields fields = true)
    {k : Nat} {field : String × Shape}
    (hk : fields[k]? = some field) : wellNamed field.2 = true := by
  induction fields generalizing k with
  | nil => cases hk
  | cons first fields ih =>
    simp only [wellNamedFields, Bool.and_eq_true] at h
    cases k with
    | zero =>
      cases hk
      obtain ⟨name, shape⟩ := field
      exact h.1
    | succ k => exact ih h.2 hk

theorem requestShape_wellNamed : wellNamed requestShape = true := by decide

end Fields

section Stores

variable {fields : List (String × Shape)}
variable {slots slots' : List Slot} {a b : Member}

theorem storeMember_eq_some {m : Member} :
    storeMember fields m slots = some slots' ↔ ∃ k field old new, fieldIndex fields (text m.1) = some k ∧
    fields[k]? = some field ∧
      slots[k]? = some old ∧ store field.2 m.2 old = some new ∧ slots' = slots.set k new := by
  obtain ⟨name, j⟩ := m
  simp only [storeMember, bind_eq_bind, bind_eq_some_iff, Option.some.injEq]
  constructor
  · rintro ⟨k, hk, field, hField, old, hOld, new, hNew, h⟩
    exact ⟨k, field, old, new, hk, hField, hOld, hNew, h.symm⟩
  · rintro ⟨k, field, old, new, hk, hField, hOld, hNew, h⟩
    exact ⟨k, hk, field, hField, old, hOld, new, hNew, h.symm⟩

theorem storeMembers_append (fields : List (String × Shape)) (front back : List Member) (slots : List Slot) :
    storeMembers fields (front ++ back) slots = (storeMembers fields front slots).bind (storeMembers fields back) := by
  induction front generalizing slots with
  | nil => rfl
  | cons m front ih =>
    simp only [cons_append, storeMembers, bind_eq_bind, bind_assoc]
    exact bind_congr fun slots _ => ih slots

/-- What a member stores elsewhere is not read by a member with another field. -/
theorem storeMember_then (hApart : ∀ k, fieldIndex fields (text a.1) = some k → fieldIndex fields (text b.1) ≠ some k)
    (h : (storeMember fields a slots).bind (storeMember fields b) = some slots') :
    (storeMember fields b slots).bind (storeMember fields a) = some slots' := by
  obtain ⟨middle, hFirst, hSecond⟩ := bind_eq_some_iff.mp h
  obtain ⟨k, field, old, new, hk, hField, hOld, hNew, rfl⟩ := storeMember_eq_some.mp hFirst
  obtain ⟨l, field', old', new', hl, hField', hOld', hNew', rfl⟩ := storeMember_eq_some.mp hSecond
  have hkl : k ≠ l := fun hkl => hApart k hk (hkl ▸ hl)
  rw [List.getElem?_set_ne hkl] at hOld'
  refine bind_eq_some_iff.mpr ⟨slots.set l new', ?_, ?_⟩
  · exact storeMember_eq_some.mpr ⟨l, field', old', new', hl, hField', hOld', hNew', rfl⟩
  · refine storeMember_eq_some.mpr ⟨k, field, old, new, hk, hField, ?_, hNew, ?_⟩
    · rwa [List.getElem?_set_ne hkl.symm]
    · exact set_comm new new' hkl

theorem storeMember_comm (hNames : foldName (text a.1) ≠ foldName (text b.1)) (slots : List Slot) :
    (storeMember fields a slots).bind (storeMember fields b) = (storeMember fields b slots).bind
        (storeMember fields a) := by
  have hApart : ∀ k, fieldIndex fields (text a.1) = some k → fieldIndex fields (text b.1) ≠ some k := by
    intro k ha hb
    obtain ⟨field, hField, hfa⟩ := fieldIndex_eq_some ha
    obtain ⟨field', hField', hfb⟩ := fieldIndex_eq_some hb
    cases hField.symm.trans hField'
    exact hNames (hfa.symm.trans hfb)
  apply Option.ext
  intro slots'
  constructor
  · exact storeMember_then hApart
  · exact storeMember_then fun k hb ha => hApart k ha hb

theorem store_obj_congr {ms ms' : List Member}
    (h : ∀ fields slots, storeMembers fields ms slots = storeMembers fields ms' slots)
    (shape : Shape) (old : Slot) : store shape (.obj ms) old = store shape (.obj ms') old := by
  cases shape <;> cases old <;> simp only [store, h]

/-- With names that differ up to case, a request is stored alike in every order of its members. -/
theorem store_swapped {j j' : Json} (h : Swapped j j')
    (hNames : everywhere (namesDiffer foldName) j = true) (shape : Shape)
    (old : Slot) : store shape j old = store shape j' old := by
  induction h generalizing shape old with
  | here front back a b =>
    simp only [everywhere, Bool.and_eq_true, namesDiffer, decide_eq_true_eq, map_append, map_cons] at hNames
    have hApart : foldName (text a.1) ≠ foldName (text b.1) := by
      have hPair := (nodup_cons.mp (nodup_append.mp hNames.1).2.1).1
      intro hEq
      exact hPair (hEq ▸ mem_cons_self)
    refine store_obj_congr (fun fields slots => ?_) shape old
    rw [storeMembers_append, storeMembers_append]
    refine bind_congr fun slots _ => ?_
    simp only [storeMembers, bind_eq_bind, ← bind_assoc, storeMember_comm hApart]
  | member front back name h ih =>
    rename_i j j'
    simp only [everywhere, Bool.and_eq_true, everywhereMembers_append, everywhereMembers, everywhereMember] at hNames
    refine store_obj_congr (fun fields slots => ?_) shape old
    rw [storeMembers_append, storeMembers_append]
    refine bind_congr fun slots _ => ?_
    simp only [storeMembers, storeMember, ih hNames.2.2.1]
  | item front back h ih => cases shape <;> cases old <;> simp only [store]

end Stores

section Once

mutual

/-- No object of the document has two members that the decoder stores in the same field. -/
def storedOnce : Shape → Json → Bool
  | .record fields, .obj ms | .optional fields, .obj ms =>
    decide (ms.map fun m => fieldIndex fields (text m.1)).Nodup && storedOnceMembers fields ms
  | _, _ => true

def storedOnceMembers (fields : List (String × Shape)) : List Member → Bool
  | [] => true
  | m :: ms => storedOnceMember fields m && storedOnceMembers fields ms

def storedOnceMember (fields : List (String × Shape)) : Member → Bool
  | (name, j) =>
    match (fieldIndex fields (text name)).bind (fields[·]?) with
    | none => true
    | some field => storedOnce field.2 j

end

theorem storeMembers_known {fields : List (String × Shape)} {ms : List Member} {slots slots' : List Slot}
    (h : storeMembers fields ms slots = some slots') : ∀ m ∈ ms, ∃ k, fieldIndex fields (text m.1) = some k := by
  induction ms generalizing slots with
  | nil => simp
  | cons m ms ih =>
    obtain ⟨middle, hFirst, hRest⟩ := bind_eq_some_iff.mp h
    obtain ⟨k, -, -, -, hk, -⟩ := storeMember_eq_some.mp hFirst
    intro m' hm'
    rcases mem_cons.mp hm' with rfl | hm'
    · exact ⟨k, hk⟩
    · exact ih hRest m' hm'

theorem nodup_fieldIndex_iff {fields : List (String × Shape)}
    (hFields : distinctFields fields = true) {ms : List Member}
    (hKnown : ∀ m ∈ ms, ∃ k, fieldIndex fields (text m.1) = some k) :
    (ms.map fun m => fieldIndex fields (text m.1)).Nodup ↔ (ms.map fun m => foldName (text m.1)).Nodup := by
  have hAlike : ∀ m ∈ ms, ∀ m' ∈ ms,
      (fieldIndex fields (text m.1) = fieldIndex fields (text m'.1) ↔ foldName (text m.1) = foldName (text m'.1)) := by
    intro m hm m' hm'
    obtain ⟨k, hk⟩ := hKnown m hm
    obtain ⟨l, hl⟩ := hKnown m' hm'
    rw [hk, hl, Option.some.injEq, fieldIndex_eq_iff hFields hk hl]
  simp only [Nodup, pairwise_map]
  constructor
  · exact Pairwise.imp_of_mem fun hm hm' h => fun hFold => h ((hAlike _ hm _ hm').mpr hFold)
  · exact Pairwise.imp_of_mem fun hm hm' h => fun hIndex => h ((hAlike _ hm _ hm').mp hIndex)

theorem store_obj_eq_some {shape : Shape} {ms : List Member} {old new : Slot}
    (h : store shape (.obj ms) old = some new) :
    ∃ fields slots slots', (shape = .record fields ∨ shape = .optional fields) ∧
    storeMembers fields ms slots = some slots' := by
  cases shape <;> cases old <;> simp only [store, map_eq_some_iff, reduceCtorEq] at h
  all_goals
    obtain ⟨slots', hSlots, -⟩ := h
    exact ⟨_, _, slots', by simp, hSlots⟩

mutual

theorem storedOnce_iff :
    ∀ (j : Json) {shape : Shape} {old new : Slot}, wellNamed shape = true → store shape j old = some new →
    (storedOnce shape j = true ↔ everywhere (namesDiffer foldName) j = true)
  | .null, shape, _, _, _, _ | .bool _, shape, _, _, _, _ | .int _, shape, _, _, _, _ | .dec _, shape, _, _, _, _
  | .str _, shape, _, _, _, _ => by
    cases shape <;> simp [storedOnce, everywhere, namesDiffer]
  | .arr _, shape, old, _, _, h => by
    cases shape <;> cases old <;> simp [store] at h
  | .obj ms, shape, _, _, hShape, h => by
    obtain ⟨fields, slots, slots', hFields, hStore⟩ := store_obj_eq_some h
    have hBoth : distinctFields fields = true ∧ wellNamedFields fields = true := by
      rcases hFields with rfl | rfl <;> simpa only [wellNamed, Bool.and_eq_true] using hShape
    have hOnce : storedOnce shape (.obj ms) =
        (decide (ms.map fun m => fieldIndex fields (text m.1)).Nodup && storedOnceMembers fields ms) := by
      rcases hFields with rfl | rfl <;> rfl
    rw [hOnce]
    simp only [everywhere, namesDiffer, Bool.and_eq_true, decide_eq_true_eq]
    rw [nodup_fieldIndex_iff hBoth.1 (storeMembers_known hStore), storedOnceMembers_iff ms hBoth.2 hStore]

theorem storedOnceMembers_iff : ∀ (ms : List Member) {fields : List (String × Shape)} {slots slots' : List Slot},
    wellNamedFields fields = true → storeMembers fields ms slots = some slots' →
    (storedOnceMembers fields ms = true ↔ everywhereMembers (namesDiffer foldName) ms = true)
  | [], _, _, _, _, _ => by simp only [storedOnceMembers, everywhereMembers]
  | m :: ms, fields, slots, _, hFields, h => by
    obtain ⟨middle, hFirst, hRest⟩ := bind_eq_some_iff.mp h
    simp only [storedOnceMembers, everywhereMembers, Bool.and_eq_true]
    rw [storedOnceMember_iff m hFields hFirst, storedOnceMembers_iff ms hFields hRest]

theorem storedOnceMember_iff : ∀ (m : Member) {fields : List (String × Shape)} {slots slots' : List Slot},
    wellNamedFields fields = true → storeMember fields m slots = some slots' →
    (storedOnceMember fields m = true ↔ everywhereMember (namesDiffer foldName) m = true)
  | (name, j), fields, slots, _, hFields, h => by
    obtain ⟨k, field, old, new, hk, hField, -, hStore, -⟩ := storeMember_eq_some.mp h
    have hOnce : storedOnceMember fields (name, j) = storedOnce field.2 j := by
      simp only [storedOnceMember, show fieldIndex fields (text name) = some k from hk, bind_some, hField]
    rw [hOnce, everywhereMember]
    exact storedOnce_iff j (wellNamedFields_get hFields hField) hStore

end

end Once

section Meaning

variable (detail : Bytes → Bytes)
variable {j j' : Json}
variable {body : Bytes} {failure : Option Bytes} {r : Request}

/-- Remote requests have one meaning, as far as this body goes. -/
structure OneMeaning (body : Bytes) : Prop where
  once : ∀ failure r, decodeRequest detail body failure = .ok r → ∃ j, parse body = some j ∧
    storedOnce requestShape j = true ∧
    ∀ body' j', parse body' = some j' → Reordered j j' → body'.length ≤ maxRequestBytes →
    decodeRequest detail body' none = .ok r
  exactly : rejectDuplicateKeys body = true ↔ ∃ j, parse body = some j ∧ everywhere (namesDiffer id) j = true

theorem everywhere_reordered {check : Json → Bool} (hCheck : Unordered check) (h : Reordered j j') :
    everywhere check j = everywhere check j' := by
  induction h with
  | refl => rfl
  | tail _ hStep ih => rw [ih, everywhere_swapped hCheck hStep]

theorem decodeDocument_reordered (h : Reordered j j') (hNames : everywhere (namesDiffer foldName) j = true) :
    decodeDocument j' = decodeDocument j := by
  induction h with
  | refl => rfl
  | tail hBefore hStep ih =>
    have hThere := (everywhere_reordered (unordered_namesDiffer foldName) hBefore).symm.trans hNames
    rw [← ih, decodeDocument, decodeDocument, store_swapped hStep hThere]

theorem decodeRequest_reordered {body' : Bytes} (hParse : parse body = some j)
    (hNames : everywhere (namesDiffer foldName) j = true) (hParse' : parse body' = some j') (hOrder : Reordered j j')
    (hSize : body'.length ≤ maxRequestBytes) (h : decodeRequest detail body failure = .ok r) :
    decodeRequest detail body' none = .ok r := by
  obtain ⟨-, -, hKeys, i, hi, hDecode, hValid⟩ := decodeRequest_eq_ok.mp h
  obtain rfl : i = j := Option.some.inj (hi.symm.trans hParse)
  obtain ⟨i', hi', hDiffer, hFinite⟩ := (rejectDuplicateKeys_iff _).mp hKeys
  obtain rfl : i' = i := Option.some.inj (hi'.symm.trans hi)
  have hKeys' : rejectDuplicateKeys body' = true := by
    refine (rejectDuplicateKeys_iff _).mpr ⟨j', hParse', ?_, ?_⟩
    · rwa [← everywhere_reordered (unordered_namesDiffer id) hOrder]
    · rwa [← everywhere_reordered unordered_overflows hOrder]
  exact decodeRequest_eq_ok.mpr ⟨rfl, hSize, hKeys', j', hParse',
    (decodeDocument_reordered hOrder hNames).trans hDecode, hValid⟩

theorem storedOnce_iff_of_decodeRequest (h : decodeRequest detail body failure = .ok r) (hj : parse body = some j) :
    storedOnce requestShape j = true ↔ everywhere (namesDiffer foldName) j = true := by
  obtain ⟨-, -, -, i, hi, hDecode, -⟩ := decodeRequest_eq_ok.mp h
  obtain rfl : i = j := Option.some.inj (hi.symm.trans hj)
  obtain ⟨slot, hSlot, -⟩ := bind_eq_some_iff.mp hDecode
  exact storedOnce_iff i requestShape_wellNamed hSlot

/-- A body has one meaning unless it is a valid request of permitted size with names that differ
in case only, or has a number out of range and nothing else against it. -/
theorem oneMeaning_iff (body : Bytes) : OneMeaning detail body ↔ ∀ j, parse body = some j →
    everywhere (namesDiffer id) j = true → everywhere (fun j => !overflows j) j = true ∧
      ∀ r, body.length ≤ maxRequestBytes → decodeDocument j = some r → validateRequest r = .ok () →
        everywhere (namesDiffer foldName) j = true := by
  constructor
  · intro h j hj hDiffer
    have hKeys : rejectDuplicateKeys body = true := h.exactly.mpr ⟨j, hj, hDiffer⟩
    constructor
    · obtain ⟨i, hi, -, hFinite⟩ := (rejectDuplicateKeys_iff _).mp hKeys
      obtain rfl : i = j := Option.some.inj (hi.symm.trans hj)
      exact hFinite
    · intro r hSize hDecode hValid
      have hr : decodeRequest detail body none = .ok r :=
        decodeRequest_eq_ok.mpr ⟨rfl, hSize, hKeys, j, hj, hDecode, hValid⟩
      obtain ⟨i, hi, hOnce, -⟩ := h.once none r hr
      obtain rfl : i = j := Option.some.inj (hi.symm.trans hj)
      exact (storedOnce_iff_of_decodeRequest detail hr hj).mp hOnce
  · intro h
    constructor
    · intro failure r hr
      obtain ⟨-, hSize, hKeys, j, hj, hDecode, hValid⟩ := decodeRequest_eq_ok.mp hr
      obtain ⟨i, hi, hDiffer, -⟩ := (rejectDuplicateKeys_iff _).mp hKeys
      obtain rfl : i = j := Option.some.inj (hi.symm.trans hj)
      have hNames := (h i hj hDiffer).2 r hSize hDecode hValid
      refine ⟨i, hj, (storedOnce_iff_of_decodeRequest detail hr hj).mpr hNames, ?_⟩
      intro body' j' hj' hOrder hSize
      exact decodeRequest_reordered detail hj hNames hj' hOrder hSize hr
    · rw [rejectDuplicateKeys_iff]
      constructor
      · rintro ⟨j, hj, hDiffer, -⟩
        exact ⟨j, hj, hDiffer⟩
      · rintro ⟨j, hj, hDiffer⟩
        exact ⟨j, hj, hDiffer, (h j hj hDiffer).1⟩

/-- A request to probe that is also one to observe. -/
def ambiguous : Json := requestDocument [("operation", "probe"), ("Operation", "observe")]

theorem ambiguous_accepted : ∃ r, decodeRequest (fun _ => []) ambiguous.toBytes none = .ok r := by
  have hKeys : rejectDuplicateKeys ambiguous.toBytes = true :=
    (rejectDuplicateKeys_iff _).mpr ⟨ambiguous, parse_toBytes _, by decide, by decide +kernel⟩
  obtain ⟨r, hDecode, hValid⟩ : ∃ r, decodeDocument ambiguous = some r ∧ validateRequest r = .ok () :=
    ⟨(decodeDocument ambiguous).get (by decide), by simp, by decide⟩
  exact ⟨r, decodeRequest_eq_ok.mpr ⟨rfl, by decide +kernel, hKeys, ambiguous, parse_toBytes _, hDecode, hValid⟩⟩

/-- One body is accepted with a field stored twice, the other is refused for its size alone. -/
theorem meanings_lost :
    ¬ OneMeaning (fun _ => []) ambiguous.toBytes ∧ ¬ OneMeaning (fun _ => []) (Json.int (10 ^ 400)).toBytes := by
  constructor
  · intro h
    obtain ⟨r, hr⟩ := ambiguous_accepted
    obtain ⟨j, hj, hOnce, -⟩ := h.once none r hr
    obtain rfl : j = ambiguous := Option.some.inj (hj.symm.trans (parse_toBytes _))
    revert hOnce
    decide +kernel
  · intro h
    have hKeys := h.exactly.mpr ⟨_, parse_toBytes _, by decide⟩
    obtain ⟨j, hj, -, hFinite⟩ := (rejectDuplicateKeys_iff _).mp hKeys
    obtain rfl : j = Json.int (10 ^ 400) := Option.some.inj (hj.symm.trans (parse_toBytes _))
    revert hFinite
    decide +kernel

end Meaning

end Camp.RemoteWorker
