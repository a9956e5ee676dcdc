import Camp.Wire.Utf8
import Mathlib.Data.List.Infix
import Mathlib.Data.List.TakeWhile

/-!
# Words of a text

Text over any symbols: the words between blanks, the text without the blanks around it, and what
it means for a short text to occur in a longer one.
-/

namespace Wire.Words

open Utf8 List

variable {α : Type*}

section Occurrence

variable {p a b : List α} {c : α}
variable {a' b' : List α}

theorem not_infix_of_mem {x : α} (hp : x ∈ p) (ha : x ∉ a) : ¬ p <:+: a := fun h => ha (h.mem hp)

theorem infix_append_cons (hc : c ∉ p) : p <:+: a ++ c :: b ↔ p <:+: a ∨ p <:+: b := by
  rw [infix_append_iff, infix_cons_iff]
  constructor
  · rintro (hFront | (hStart | hBack) | ⟨front, back, rfl, hFront, hBack⟩)
    · exact .inl hFront
    · rcases prefix_cons_iff.mp hStart with rfl | ⟨t, rfl, -⟩
      · exact .inl nil_infix
      · exact absurd mem_cons_self hc
    · exact .inr hBack
    · rcases prefix_cons_iff.mp hBack with rfl | ⟨t, rfl, -⟩
      · exact .inl (by simpa using hFront.isInfix)
      · exact absurd (mem_append_right _ mem_cons_self) hc
  · rintro (hFront | hBack)
    · exact .inl hFront
    · exact .inr (.inl (.inr hBack))

theorem infix_cons_of_notMem (hc : c ∉ p) : p <:+: c :: b ↔ p <:+: b := by
  have h := infix_append_cons (a := []) (b := b) hc
  rw [nil_append] at h
  refine h.trans ⟨?_, .inr⟩
  rintro (hNil | hBack)
  · exact infix_nil.mp hNil ▸ nil_infix
  · exact hBack

theorem infix_of_notMem_append (h : ∀ x ∈ a, x ∉ p) : p <:+: a ++ b ↔ p <:+: b := by
  induction a with
  | nil => rfl
  | cons x a ih =>
    rw [cons_append, infix_cons_of_notMem (h x mem_cons_self)]
    exact ih fun y hy => h y (mem_cons_of_mem _ hy)

theorem infix_replicate_append (hc : c ∉ p) (n : Nat) : p <:+: replicate n c ++ b ↔ p <:+: b :=
  infix_of_notMem_append fun _ hx => eq_of_mem_replicate hx ▸ hc

theorem cons_infix_append_cons (hp : c ∉ p) (hb : c ∉ b) : c :: p <:+: a ++ c :: b ↔ c :: p <:+: a ∨ p <+: b := by
  rw [infix_append_iff]
  constructor
  · rintro (hFront | hBack | ⟨front, back, hSplit, hFront, hBack⟩)
    · exact .inl hFront
    · rcases infix_cons_iff.mp hBack with hStart | hRest
      · exact .inr (cons_prefix_cons.mp hStart).2
      · exact absurd hRest (not_infix_of_mem mem_cons_self hb)
    · rcases prefix_cons_iff.mp hBack with rfl | ⟨t, rfl, hRest⟩
      · rw [append_nil] at hSplit
        exact .inl (hSplit ▸ hFront.isInfix)
      · cases front with
        | nil =>
          cases hSplit
          exact .inr hRest
        | cons x front =>
          rw [cons_append] at hSplit
          cases hSplit
          exact absurd (mem_append_right _ mem_cons_self) hp
  · rintro (hFront | hBack)
    · exact .inl hFront
    · exact .inr (.inl (cons_prefix_cons.mpr ⟨rfl, hBack⟩).isInfix)

theorem append_cons_inj (ha : c ∉ a) (ha' : c ∉ a') (h : a ++ c :: b = a' ++ c :: b') : a = a' ∧ b = b' := by
  classical
  have hFront (u v : List α) (hu : c ∉ u) : (u ++ c :: v).takeWhile (· ≠ c) = u := by
    rw [takeWhile_append_of_pos]
    · simp
    · intro y hy
      simpa using fun hEq : y = c => hu (hEq ▸ hy)
  have hSame : a = a' := by rw [← hFront a b ha, h, hFront a' b' ha']
  subst hSame
  simpa using h

theorem append_cons_inj_right (hb : c ∉ b) (hb' : c ∉ b') (h : a ++ c :: b = a' ++ c :: b') : a = a' ∧ b = b' := by
  have hReversed : b.reverse ++ c :: a.reverse = b'.reverse ++ c :: a'.reverse := by
    simpa using congrArg List.reverse h
  have hParts := append_cons_inj (by simpa using hb) (by simpa using hb') hReversed
  exact ⟨reverse_injective hParts.2, reverse_injective hParts.1⟩

end Occurrence

section Split

variable {x : α} {l : List (List α)}
variable {a : List α}

theorem intercalate_cons_cons {b : List α} : [x].intercalate (a :: b :: l) = a ++ x :: [x].intercalate (b :: l) := by
  simp [List.intercalate]

theorem mem_of_mem_intercalate {c : α} (h : c ∈ [x].intercalate l) : c = x ∨ ∃ a ∈ l, c ∈ a := by
  induction l with
  | nil => cases h
  | cons a l ih =>
    cases l with
    | nil => exact .inr ⟨a, mem_cons_self, by simpa using h⟩
    | cons b l =>
      rw [intercalate_cons_cons, mem_append, mem_cons] at h
      rcases h with hFirst | rfl | hRest
      · exact .inr ⟨a, mem_cons_self, hFirst⟩
      · exact .inl rfl
      · refine (ih hRest).imp_right ?_
        rintro ⟨d, hd, hc⟩
        exact ⟨d, mem_cons_of_mem _ hd, hc⟩

theorem infix_intercalate (h : a ∈ l) : a <:+: [x].intercalate l := by
  induction l with
  | nil => cases h
  | cons b l ih =>
    cases l with
    | nil =>
      rw [mem_singleton.mp h]
      simp [List.intercalate]
    | cons c l =>
      rw [intercalate_cons_cons]
      rcases mem_cons.mp h with rfl | h
      · exact (prefix_append _ _).isInfix
      · exact (ih h).trans ((suffix_cons _ _).isInfix.trans (suffix_append _ _).isInfix)

end Split

def space (b : UInt8) : Bool := b == 32 || (9 ≤ b && b ≤ 13)

/-- White space of Unicode; a byte that encodes nothing is none. -/
def isSpaceRune (c : Option Char) : Bool :=
  c.any fun c =>
    let n := c.toNat
    (9 ≤ n && n ≤ 13) || n = 0x20 || n = 0x85 || n = 0xA0 || n = 0x1680 || (0x2000 ≤ n && n ≤ 0x200A) || n = 0x2028 ||
      n = 0x2029 || n = 0x202F || n = 0x205F || n = 0x3000

section Blanks

variable (blank : α → Bool) {s t w : List α}
variable {x : α}
variable {front back : List α}

def fields (s : List α) : List (List α) := (s.splitOnP blank).filter (· ≠ [])

def trim (s : List α) : List α := ((s.dropWhile blank).reverse.dropWhile blank).reverse

/-- The bytes of a text by the symbol they are read as. -/
def pieces : Nat → Bytes → List (Option Char × Bytes)
  | 0, _ => []
  | _ + 1, [] => []
  | fuel + 1, lead :: rest =>
    let next := rune lead rest
    (next.1, (lead :: rest).take (rest.length + 1 - next.2.length)) :: pieces fuel next.2

def trimSpace (s : Bytes) : Bytes := (trim (fun p => isSpaceRune p.1) (pieces s.length s)).flatMap (·.2)

variable {blank}

theorem fields_word (hWord : ∀ x ∈ w, blank x = false) (hw : w ≠ []) : fields blank w = [w] := by
  rw [fields, splitOnP_eq_singleton hWord]
  simp [hw]

theorem fields_append_cons (hx : blank x = true) : fields blank (s ++ x :: t) = fields blank s ++ fields blank t := by
  rw [fields, splitOnP_append_cons _ _ hx, filter_append]
  rfl

theorem trim_eq_nil : trim blank s = [] ↔ ∀ x ∈ s, blank x = true := by
  rw [trim, reverse_eq_nil_iff, dropWhile_eq_nil_iff]
  constructor
  · intro h x hx
    by_contra hBlank
    have hKept : ∀ y ∈ s.dropWhile blank, blank y = true := fun y hy => h y (mem_reverse.mpr hy)
    have hNone : s.dropWhile blank = [] := by
      by_contra hSome
      have hHead := head_dropWhile_not blank hSome
      rw [hKept _ (head_mem hSome)] at hHead
      cases hHead
    exact hBlank (dropWhile_eq_nil_iff.mp hNone x hx)
  · intro h x hx
    exact h x ((dropWhile_sublist _).mem (mem_reverse.mp hx))

theorem fields_blank (h : ∀ x ∈ t, blank x = true) : fields blank t = [] := by
  induction t with
  | nil => rfl
  | cons x t ih =>
    have hCons := fields_append_cons (s := []) (t := t) (h x mem_cons_self)
    rw [nil_append] at hCons
    rw [hCons, ih fun y hy => h y (mem_cons_of_mem _ hy)]
    rfl

theorem fields_append_blank (h : ∀ x ∈ t, blank x = true) : fields blank (s ++ t) = fields blank s := by
  cases t with
  | nil => rw [append_nil]
  | cons x t =>
    rw [fields_append_cons (h x mem_cons_self), fields_blank fun y hy =>
      h y (mem_cons_of_mem _ hy), append_nil]

theorem fields_blank_append (h : ∀ x ∈ s, blank x = true) : fields blank (s ++ t) = fields blank t := by
  induction s with
  | nil => rfl
  | cons x s ih =>
    have hCons := fields_append_cons (s := []) (t := s ++ t) (h x mem_cons_self)
    rw [cons_append]
    exact hCons.trans (ih fun y hy => h y (mem_cons_of_mem _ hy))

variable (blank) in
theorem exists_trim (s : List α) : ∃ front back, s = front ++ trim blank s ++ back ∧ (∀ x ∈ front, blank x = true) ∧
    ∀ x ∈ back, blank x = true := by
  refine ⟨s.takeWhile blank, ((s.dropWhile blank).reverse.takeWhile blank).reverse, ?_, ?_, ?_⟩
  · rw [trim, append_assoc, ← reverse_append, takeWhile_append_dropWhile, reverse_reverse,
      takeWhile_append_dropWhile]
  · exact fun x hx => mem_takeWhile_imp hx
  · exact fun x hx => mem_takeWhile_imp (mem_reverse.mp hx)

theorem fields_trim (s : List α) : fields blank (trim blank s) = fields blank s := by
  obtain ⟨front, back, hSplit, hFront, hBack⟩ := exists_trim blank s
  conv_rhs => rw [hSplit, append_assoc, fields_blank_append hFront, fields_append_blank hBack]

theorem trim_append_blank (hx : blank x = true) : trim blank (s ++ [x]) = trim blank s := by
  rw [trim, dropWhile_append]
  split_ifs with hEmpty
  · rw [dropWhile_cons_of_pos hx, trim, isEmpty_iff.mp hEmpty]
    rfl
  · rw [reverse_append, reverse_singleton, singleton_append, dropWhile_cons_of_pos hx, trim]

theorem mem_of_mem_trim (h : x ∈ trim blank s) : x ∈ s := by
  obtain ⟨front, back, hSplit, -, -⟩ := exists_trim blank s
  rw [hSplit]
  exact mem_append_left _ (mem_append_right _ h)

theorem mem_trim {a b : List α} {y z : α} (hx : blank x = false) (hz : blank z = false) :
    y ∈ trim blank (x :: a ++ y :: (z :: b)) := by
  rw [trim, cons_append, dropWhile_cons_of_neg (by simp [hx])]
  have hReverse : (x :: (a ++ y :: z :: b)).reverse = b.reverse ++ z :: (y :: a.reverse ++ [x]) := by simp
  rw [hReverse, dropWhile_append]
  split_ifs
  · rw [dropWhile_cons_of_neg (by simp [hz])]
    simp
  · simp

theorem trim_between (hFront : ∀ x ∈ front, blank x = true) (hBack : ∀ x ∈ back, blank x = true)
    (hHead : ∀ x ∈ s.head?, blank x = false) (hLast : ∀ x ∈ s.getLast?, blank x = false) :
    trim blank (front ++ s ++ back) = s := by
  have hKept {l r : List α} (hl : ∀ x ∈ l, blank x = true) (hr : ∀ x ∈ r.head?, blank x = false) :
      (l ++ r).dropWhile blank = r := by
    rw [dropWhile_append_of_pos hl]
    cases r with
    | nil => rfl
    | cons x r => exact dropWhile_cons_of_neg (by simp [hr x rfl])
  cases s with
  | nil =>
    refine trim_eq_nil.mpr fun x hx => ?_
    rw [append_nil] at hx
    exact (mem_append.mp hx).elim (hFront x) (hBack x)
  | cons x s =>
    rw [trim, append_assoc, hKept hFront (by simpa using hHead), reverse_append,
      hKept (fun y hy => hBack y (mem_reverse.mp hy)) (by rwa [List.head?_reverse]), reverse_reverse]

theorem blank_head_dropWhile (h : x ∈ (s.dropWhile blank).head?) : blank x = false := by
  have hHead := List.head?_dropWhile_not blank s
  rw [Option.mem_def.mp h] at hHead
  exact hHead

theorem blank_last_trim (h : x ∈ (trim blank s).getLast?) : blank x = false := by
  rw [trim, List.getLast?_reverse] at h
  exact blank_head_dropWhile h

theorem blank_head_trim (h : x ∈ (trim blank s).head?) : blank x = false := by
  obtain ⟨t, ht⟩ : trim blank s <+: s.dropWhile blank := by
    rw [trim, ← reverse_suffix, reverse_reverse]
    exact dropWhile_suffix _
  refine blank_head_dropWhile (s := s) ?_
  rw [← ht, List.head?_append, Option.mem_def.mp h]
  rfl

theorem trim_intercalate {l : List (List α)} (hWords : ∀ w ∈ l, w ≠ [] ∧ ∀ y ∈ w, blank y = false)
    (hFront : ∀ x ∈ front, blank x = true) (hBack : ∀ x ∈ back, blank x = true) :
    trim blank (front ++ [x].intercalate l ++ back) = [x].intercalate l := by
  have hEnds : (∀ y ∈ ([x].intercalate l).head?, blank y = false) ∧
      ∀ y ∈ ([x].intercalate l).getLast?, blank y = false := by
    induction l with
    | nil => simp
    | cons w l ih =>
      obtain ⟨hw, hWord⟩ := hWords w mem_cons_self
      have hTail := ih fun v hv => hWords v (mem_cons_of_mem _ hv)
      cases l with
      | nil =>
        rw [intercalate_singleton]
        exact ⟨fun y hy => hWord y (mem_of_mem_head? hy), fun y hy => hWord y (mem_of_mem_getLast? hy)⟩
      | cons v l =>
        have hRest : [x].intercalate (v :: l) ≠ [] := fun hNil =>
          (hWords v (by simp)).1 (eq_nil_of_infix_nil (hNil ▸ infix_intercalate mem_cons_self))
        rw [intercalate_cons_cons]
        refine ⟨fun y hy => ?_, fun y hy => ?_⟩
        · rw [List.head?_append_of_ne_nil _ hw] at hy
          exact hWord y (mem_of_mem_head? hy)
        · rw [List.getLast?_append_of_ne_nil _ (cons_ne_nil _ _), List.getLast?_cons_of_ne_nil hRest] at hy
          exact hTail.2 y hy
  exact trim_between hFront hBack hEnds.1 hEnds.2

end Blanks

end Wire.Words
