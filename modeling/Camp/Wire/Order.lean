import Mathlib.Data.List.Sort
import Camp.Wire.Utf8

/-!
# The order of byte strings

Strings are compared byte by byte. A list is sorted by a key of its elements; where
the keys are distinct any way of sorting gives the same list.
-/

namespace Wire

open Utf8

def bytewise (s : Bytes) : List Nat := s.map UInt8.toNat

theorem bytewise_injective {s t : Bytes} (h : bytewise s = bytewise t) : s = t :=
  List.map_injective_iff.mpr (fun _ _ => UInt8.toNat.inj) h

section SortOn

variable {α β : Type} [LinearOrder β] (key : α → β) (l : List α)

def sortOn : List α := l.insertionSort fun a b => key a ≤ key b

theorem sortOn_perm : (sortOn key l).Perm l := List.perm_insertionSort _ l

theorem pairwise_sortOn : (sortOn key l).Pairwise fun a b => key a ≤ key b :=
  List.pairwise_insertionSort _ l

variable {key l}

theorem sortOn_of_pairwise (h : l.Pairwise fun a b => key a ≤ key b) : sortOn key l = l :=
  List.Pairwise.insertionSort_eq h

theorem pairwise_lt_sortOn (h : (l.map key).Nodup) :
    (sortOn key l).Pairwise fun a b => key a < key b := by
  have hNodup : ((sortOn key l).map key).Nodup := ((sortOn_perm key l).map key).nodup_iff.mpr h
  refine (pairwise_sortOn key l).imp₂ (fun a b hLe hNe => lt_of_le_of_ne hLe hNe) ?_
  exact List.pairwise_map.mp hNodup

theorem sortOn_eq_of_perm {l' : List α} (hPerm : l.Perm l') (h : (l.map key).Nodup) :
    sortOn key l = sortOn key l' := by
  have hKeys := pairwise_lt_sortOn h
  have hKeys' := pairwise_lt_sortOn ((hPerm.map key).nodup_iff.mp h)
  refine List.Perm.eq_of_pairwise (fun a b _ _ hab hba => absurd hba (lt_asymm hab)) hKeys hKeys' ?_
  exact ((sortOn_perm key l).trans hPerm).trans (sortOn_perm key l').symm

end SortOn

end Wire
