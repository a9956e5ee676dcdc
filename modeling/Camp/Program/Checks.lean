import Mathlib.Algebra.GroupWithZero.Nat
import Mathlib.Data.List.Forall2
import Mathlib.Data.List.Induction
import Mathlib.Data.List.Sort

/-!
# Checks in sequence

A validator refuses a value at the first check that fails. What it accepts is a
conjunction, whatever the order of the checks; a loop that compares each element with
the ones before it accepts a list by what holds of its elements and of its pairs.
-/

namespace Program.Checks

open List

variable {ε α β : Type}
variable {x : Except ε α} {b : β}

def refuse (bad : Bool) (e : ε) : Except ε Unit := if bad then .error e else .ok ()

@[simp] theorem refuse_eq_ok {bad : Bool} {e : ε} {u : Unit} : refuse bad e = .ok u ↔ bad = false := by
  cases bad <;> simp [refuse]

theorem bind_eq_ok {f : α → Except ε β} : x >>= f = .ok b ↔ ∃ a, x = .ok a ∧ f a = .ok b := by
  cases x with
  | error e =>
    constructor
    · intro h
      cases h
    · rintro ⟨a, h, -⟩
      cases h
  | ok a =>
    constructor
    · intro h
      exact ⟨a, rfl, h⟩
    · rintro ⟨a', h, hf⟩
      cases h
      exact hf

theorem map_eq_ok {f : α → β} : x.map f = .ok b ↔ ∃ a, x = .ok a ∧ f a = b := by
  cases x <;> simp [Except.map]

theorem mapError_eq_ok {ε' : Type} {f : ε → ε'} {a : α} : x.mapError f = .ok a ↔ x = .ok a := by
  cases x <;> simp [Except.mapError]

@[simp] theorem andThen_eq_ok {x : Except ε Unit} {f : Unit → Except ε β} :
    x >>= f = .ok b ↔ x = .ok () ∧ f () = .ok b := by
  rw [bind_eq_ok]
  constructor
  · rintro ⟨⟨⟩, hx, hf⟩
    exact ⟨hx, hf⟩
  · rintro ⟨hx, hf⟩
    exact ⟨(), hx, hf⟩

def each (check : α → Except ε Unit) : List α → Except ε Unit
  | [] => .ok ()
  | a :: rest => do
    check a
    each check rest

@[simp] theorem each_eq_ok {check : α → Except ε Unit} {l : List α} :
    each check l = .ok () ↔ ∀ a ∈ l, check a = .ok () := by
  induction l with
  | nil => simp [each]
  | cons a l ih => simp [each, ih]

def scan (check : List α → α → Except ε Unit) : List α → List α → Except ε Unit
  | _, [] => .ok ()
  | before, a :: rest => do
    check before a
    scan check (before ++ [a]) rest

theorem scan_eq_ok {check : List α → α → Except ε Unit} {l before : List α} :
    scan check before l = .ok () ↔
      ∀ front a back, l = front ++ a :: back → check (before ++ front) a = .ok () := by
  induction l generalizing before with
  | nil => simp [scan]
  | cons a l ih =>
    rw [scan, andThen_eq_ok, ih]
    constructor
    · rintro ⟨hHead, hTail⟩ front b back hSplit
      cases front with
      | nil =>
        cases hSplit
        simpa using hHead
      | cons a' front =>
        cases hSplit
        simpa using hTail front b back rfl
    · intro h
      constructor
      · simpa using h [] a l rfl
      · intro front b back hSplit
        simpa using h (a :: front) b back (by rw [hSplit]; rfl)

section Lists

variable {R : α → β → Prop} {l : List α} {r : List β}

theorem mapM_eq_ok {f : α → Except ε β} :
    l.mapM f = .ok r ↔ Forall₂ (fun a b => f a = .ok b) l r := by
  induction l generalizing r with
  | nil => cases r <;> simp [pure, Except.pure]
  | cons a l ih =>
    rw [mapM_cons, bind_eq_ok]
    simp only [bind_eq_ok, forall₂_cons_left_iff, ih]
    constructor
    · rintro ⟨b, hHead, bs, hTail, hResult⟩
      cases hResult
      exact ⟨b, bs, hHead, hTail, rfl⟩
    · rintro ⟨b, bs, hHead, hTail, rfl⟩
      exact ⟨b, hHead, bs, hTail, rfl⟩

theorem forall₂_mem_right (h : Forall₂ R l r) {b : β} (hb : b ∈ r) : ∃ a ∈ l, R a b := by
  induction h with
  | nil => cases hb
  | cons hHead _ ih =>
    rcases mem_cons.mp hb with rfl | hb
    · exact ⟨_, mem_cons_self, hHead⟩
    · obtain ⟨a, ha, hR⟩ := ih hb
      exact ⟨a, mem_cons_of_mem _ ha, hR⟩

theorem map_of_forall₂ {γ : Type} {f : α → γ} {g : β → γ} (hR : ∀ a b, R a b → g b = f a) (h : Forall₂ R l r) :
    r.map g = l.map f := by
  induction h with
  | nil => rfl
  | cons hHead _ ih => rw [map_cons, map_cons, hR _ _ hHead, ih]

end Lists

section Splits

variable {l : List α}

theorem forall_split_mem {P : α → Prop} :
    (∀ front a back, l = front ++ a :: back → P a) ↔ ∀ a ∈ l, P a := by
  constructor
  · intro h a ha
    obtain ⟨front, back, hSplit⟩ := append_of_mem ha
    exact h front a back hSplit
  · rintro h front a back rfl
    exact h a (by simp)

theorem forall_split_pairwise {R : α → α → Prop} :
    (∀ front a back, l = front ++ a :: back → ∀ b ∈ front, R b a) ↔ l.Pairwise R := by
  constructor
  · intro h
    induction l using List.reverseRecOn with
    | nil => exact .nil
    | append_singleton l a ih =>
      rw [pairwise_append]
      refine ⟨ih ?_, pairwise_singleton _ _, ?_⟩
      · intro front b back hSplit
        exact h front b (back ++ [a]) (by rw [hSplit]; simp)
      · intro b hb c hc
        rw [mem_singleton.mp hc]
        exact h l a [] rfl b hb
  · rintro h front a back rfl b hb
    exact (pairwise_append.mp h).2.2 b hb a mem_cons_self

theorem forall_split_fresh {key : α → β} :
    (∀ front a back, l = front ++ a :: back → key a ∉ front.map key) ↔ (l.map key).Nodup := by
  rw [Nodup, pairwise_map, ← forall_split_pairwise]
  simp only [mem_map, not_exists, not_and, ne_eq]

theorem forall_split_sum {size : α → Nat} {bound : Nat} :
    (∀ front a back, l = front ++ a :: back → (front.map size).sum + size a ≤ bound) ↔
      l = [] ∨ (l.map size).sum ≤ bound := by
  constructor
  · intro h
    rcases l.eq_nil_or_concat with rfl | ⟨front, a, rfl⟩
    · exact .inl rfl
    · right
      simpa using h front a [] (by simp)
  · rintro h front a back rfl
    have hTotal := h.resolve_left (by simp)
    simp only [map_append, map_cons, sum_append, sum_cons] at hTotal
    omega

end Splits

end Program.Checks
