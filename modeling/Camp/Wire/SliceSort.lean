import Mathlib.Data.List.Sort

/-!
# Sorting without a promise for equal keys

A sort is told how the elements at two places compare and answers with the places in their new order.
It does not see the elements, so what it does with equal keys depends on where they stood.
-/

namespace Wire

open List

variable {α κ : Type}

/-- A key is below another one, and a place after the end below all of them. -/
def keyBelow [LinearOrder κ] : Option κ → Option κ → Bool
  | some a, some b => a < b
  | none, some _ => true
  | _, none => false

def below [LinearOrder κ] (keys : List κ) (i j : Nat) : Bool := keyBelow keys[i]? keys[j]?

structure SliceSort where
  order : Nat → (Nat → Nat → Bool) → List Nat
  perm : ∀ n less, (order n less).Perm (List.range n)
  sorted : ∀ {κ : Type} [LinearOrder κ] (keys : List κ),
    ((order keys.length (below keys)).filterMap (keys[·]?)).Pairwise (· ≤ ·)

theorem filterMap_range (l : List α) : (List.range l.length).filterMap (l[·]?) = l := by
  induction l with
  | nil => rfl
  | cons a l ih =>
    rw [length_cons, range_succ_eq_map, filterMap_cons_some List.getElem?_cons_zero, filterMap_map]
    exact congrArg (a :: ·) ih

theorem map_some_filterMap {l : List Nat} {f : Nat → Option α} (h : ∀ i ∈ l, (f i).isSome) :
    (l.filterMap f).map some = l.map f := by
  induction l with
  | nil => rfl
  | cons i l ih =>
    obtain ⟨a, ha⟩ := Option.isSome_iff_exists.mp (h i mem_cons_self)
    rw [filterMap_cons_some ha, map_cons, map_cons, ha, ih fun j hj => h j (mem_cons_of_mem i hj)]

/-- Two elements of a list change places. Whatever does not tell them apart does not see it. -/
theorem exists_exchanged {β γ : Type} {l : List α} {a b : α} (ha : a ∈ l) (hb : b ∈ l) {f : α → β} {g : α → γ}
    (hSame : f a = f b) (hApart : g a ≠ g b) : ∃ l' : List α, l'.Perm l ∧ l'.map f = l.map f ∧ l'.map g ≠ l.map g := by
  have hExchange (s m t : List α) (x y : α) (hSame : f x = f y) (hApart : g x ≠ g y) :
      ∃ l' : List α, l'.Perm (s ++ x :: (m ++ y :: t)) ∧ l'.map f = (s ++ x :: (m ++ y :: t)).map f ∧
        l'.map g ≠ (s ++ x :: (m ++ y :: t)).map g := by
    refine ⟨s ++ y :: (m ++ x :: t), ?_, by simp [hSame], by simp [hApart.symm]⟩
    exact ((perm_middle.cons y).trans ((Perm.swap x y _).trans (perm_middle.symm.cons x))).append_left s
  obtain ⟨s, t, rfl⟩ := append_of_mem ha
  rcases mem_append.mp hb with hFront | hBack
  · obtain ⟨s, m, rfl⟩ := append_of_mem hFront
    simpa using hExchange s m t b a hSame.symm hApart.symm
  · rcases mem_cons.mp hBack with rfl | hBack
    · exact absurd rfl hApart
    · obtain ⟨m, t, rfl⟩ := append_of_mem hBack
      exact hExchange s m t a b hSame hApart

namespace SliceSort

variable [LinearOrder κ] (sort : SliceSort) (key : α → κ)
variable {l l' : List α}

def slice (l : List α) : List α := (sort.order l.length (below (l.map key))).filterMap (l[·]?)

theorem slice_perm (l : List α) : (sort.slice key l).Perm l := by
  have hPlaces := (sort.perm l.length (below (l.map key))).filterMap (l[·]?)
  rwa [filterMap_range] at hPlaces

theorem pairwise_slice (l : List α) : (sort.slice key l).Pairwise fun a b => key a ≤ key b := by
  have hSorted := sort.sorted (l.map key)
  have hKeys : (fun i : Nat => (l.map key)[i]?) = fun i : Nat => (l[i]?).map key := by
    funext i
    rw [List.getElem?_map]
  rw [length_map, hKeys, ← map_filterMap] at hSorted
  exact pairwise_map.mp hSorted

variable {key}

theorem slice_eq_of_perm (hPerm : l.Perm l') (h : ∀ a ∈ l, ∀ b ∈ l, key a = key b → a = b) :
    sort.slice key l = sort.slice key l' := by
  have hAll := (sort.slice_perm key l).trans (hPerm.trans (sort.slice_perm key l').symm)
  refine hAll.eq_of_pairwise (fun a b ha hb hab hba => ?_) (sort.pairwise_slice key l) (sort.pairwise_slice key l')
  exact h a ((sort.slice_perm key l).subset ha) b
    (hPerm.symm.subset ((sort.slice_perm key l').subset hb)) (le_antisymm hab hba)

/-- Where the keys stand the same, so do the elements after the sort, and different elements stay different. -/
theorem slice_injective (hKeys : l.map key = l'.map key) (h : sort.slice key l = sort.slice key l') : l = l' := by
  have hLength : l.length = l'.length := by simpa using congrArg List.length hKeys
  have hPlaces := sort.perm l.length (below (l.map key))
  have hInside (i : Nat) : i ∈ sort.order l.length (below (l.map key)) ↔ i < l.length := by
    rw [hPlaces.mem_iff, mem_range]
  unfold slice at h
  rw [← hLength, ← hKeys] at h
  have hSome := congrArg (List.map some) h
  rw [map_some_filterMap, map_some_filterMap] at hSome
  · refine ext_getElem? fun i => ?_
    rcases lt_or_ge i l.length with hi | hi
    · exact map_inj_left.mp hSome i ((hInside i).mpr hi)
    · rw [List.getElem?_eq_none hi, List.getElem?_eq_none (hLength ▸ hi)]
  · intro i hi
    simpa [hLength] using (hInside i).mp hi
  · intro i hi
    simpa using (hInside i).mp hi

theorem map_key_slice (hKeys : l.map key = l'.map key) : (sort.slice key l).map key = (sort.slice key l').map key := by
  have hLength : l.length = l'.length := by simpa using congrArg List.length hKeys
  have hAt (i : Nat) : (l[i]?).map key = (l'[i]?).map key := by
    rw [← List.getElem?_map, hKeys, List.getElem?_map]
  rw [slice, slice, map_filterMap, map_filterMap, hLength, hKeys]
  exact filterMap_congr fun i _ => hAt i

end SliceSort

section Insertion

variable [LinearOrder κ]

theorem keyBelow_asymm (a b : Option κ) : keyBelow b a = false ∨ keyBelow a b = false := by
  cases a <;> cases b <;> simp [keyBelow, le_total]

theorem keyBelow_trans {a b c : Option κ} (hab : keyBelow b a = false) (hbc : keyBelow c b = false) :
    keyBelow c a = false := by
  cases a <;> cases b <;> cases c <;> simp_all [keyBelow]
  exact hab.trans hbc

/-- Insertion, which keeps the order of equal keys. -/
def insertionSlice : SliceSort where
  order n less := (List.range n).insertionSort fun i j => less j i = false
  perm n less := perm_insertionSort _ _
  sorted keys := by
    have hTotal : Std.Total fun i j => below keys j i = false := ⟨fun i j => keyBelow_asymm _ _⟩
    have hTrans : IsTrans Nat fun i j => below keys j i = false := ⟨fun i j k => keyBelow_trans⟩
    have hSorted := pairwise_insertionSort (fun i j => below keys j i = false) (List.range keys.length)
    refine Pairwise.filterMap _ (fun i j hij a ha b hb => ?_) hSorted
    simpa [below, keyBelow, Option.mem_def.mp ha, Option.mem_def.mp hb] using hij

end Insertion

end Wire
