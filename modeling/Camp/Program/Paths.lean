import Mathlib.Tactic

/-!
# Slash-separated paths

A path is a byte string. Cleaning it drops empty and `.` components and lets each `..`
take back the component before it; all other functions are cleaning and comparing.
-/

namespace Program.Paths

open List

abbrev Path := List UInt8

def slash : UInt8 := 47

def dot : Path := [46]

def dotDot : Path := [46, 46]

def parts (p : Path) : List Path := p.splitOn slash

def glue (names : List Path) : Path := [slash].intercalate names

def rooted (p : Path) : Bool := p.head? == some slash

def Plain (name : Path) : Prop := name ≠ [] ∧ name ≠ dot ∧ name ≠ dotDot ∧ slash ∉ name

instance (name : Path) : Decidable (Plain name) := inferInstanceAs (Decidable (_ ∧ _))

section Clean

/-- The components so far, the last one first, and one more. -/
def push (root : Bool) (stack : List Path) (part : Path) : List Path :=
  if part = [] ∨ part = dot then stack
  else if part = dotDot then
    match stack with
    | top :: below => if top = dotDot then part :: stack else below
    | [] => if root then [] else [part]
  else part :: stack

theorem push_plain {root : Bool} {stack : List Path} {part : Path}
    (hSkip : ¬ (part = [] ∨ part = dot)) (hUp : part ≠ dotDot) :
    push root stack part = part :: stack := by
  unfold push
  rw [if_neg hSkip, if_neg hUp]

def steps (p : Path) : List Path := ((parts p).foldl (push (rooted p)) []).reverse

def render (root : Bool) (names : List Path) : Path :=
  if root then slash :: glue names else if names = [] then dot else glue names

def clean (p : Path) : Path := render (rooted p) (steps p)

def join (elements : List Path) : Path :=
  match elements.dropWhile (· = []) with
  | [] => []
  | first :: rest => clean (glue (first :: rest))

def base (p : Path) : Path :=
  if p = [] then dot
  else ((parts p).filter (· ≠ [])).getLast?.getD [slash]

def dir (p : Path) : Path := clean (p.reverse.dropWhile (· ≠ slash)).reverse

end Clean

section Names

variable {names : List Path}
variable {name : Path}

theorem parts_glue (hPlain : ∀ name ∈ names, slash ∉ name) (hNames : names ≠ []) :
    parts (glue names) = names :=
  splitOn_intercalate slash hPlain hNames

theorem glue_parts (p : Path) : glue (parts p) = p := intercalate_splitOn ..

theorem glue_cons (h : names ≠ []) : glue (name :: names) = name ++ slash :: glue names := by
  cases names with
  | nil => exact absurd rfl h
  | cons next names => rfl

theorem glue_singleton (name : Path) : glue [name] = name := by simp [glue]

theorem mem_of_mem_glue {b : UInt8} (h : b ∈ glue names) (hb : b ≠ slash) : ∃ name ∈ names, b ∈ name := by
  induction names with
  | nil => cases h
  | cons first names ih =>
    by_cases hNames : names = []
    · subst hNames
      rw [glue_singleton] at h
      exact ⟨first, mem_cons_self, h⟩
    · rw [glue_cons hNames, mem_append, mem_cons] at h
      rcases h with h | h | h
      · exact ⟨first, mem_cons_self, h⟩
      · exact absurd h hb
      · obtain ⟨name, hName, hMem⟩ := ih h
        exact ⟨name, mem_cons_of_mem _ hName, hMem⟩

theorem slash_notMem_parts {p : Path} (h : name ∈ parts p) : slash ∉ name := by
  unfold parts at h
  induction p generalizing name with
  | nil =>
    rw [splitOn_nil, mem_singleton] at h
    simp [h]
  | cons b p ih =>
    rw [List.splitOn, splitOnP_cons_eq_if_modifyHead] at h
    split_ifs at h with hSlash
    · rcases mem_cons.mp h with rfl | h
      · simp
      · exact ih h
    · rcases hParts : p.splitOnP (· == slash) with _ | ⟨first, rest⟩
      · exact absurd hParts (by simp)
      · rw [hParts, modifyHead_cons] at h
        have hIh : ∀ {name}, name ∈ first :: rest → slash ∉ name := by
          intro name hName
          exact ih (by rw [List.splitOn, hParts]; exact hName)
        rcases mem_cons.mp h with rfl | h
        · intro hMem
          rcases mem_cons.mp hMem with hEq | hMem
          · exact hSlash (by simp [hEq])
          · exact hIh mem_cons_self hMem
        · exact hIh (mem_cons_of_mem _ h)

end Names

section Rooted

variable {names downs : List Path} {name p q : Path}

theorem parts_append (p q : Path) : parts (p ++ slash :: q) = parts p ++ parts q := by
  unfold parts
  induction p with
  | nil => simp [List.splitOn, splitOnP_cons_eq_if_modifyHead]
  | cons b p ih =>
    simp only [List.splitOn] at ih ⊢
    rw [cons_append, splitOnP_cons_eq_if_modifyHead, ih,
      splitOnP_cons_eq_if_modifyHead]
    split_ifs with hSlash
    · rfl
    · cases hParts : p.splitOnP (· == slash) with
      | nil => exact absurd hParts (by simp)
      | cons first rest => simp

theorem foldl_push_plain {root : Bool} (h : ∀ name ∈ names, Plain name) (stack : List Path) :
    names.foldl (push root) stack = names.reverse ++ stack := by
  induction names generalizing stack with
  | nil => rfl
  | cons name names ih =>
    have hName := h name mem_cons_self
    rw [foldl_cons, push_plain (not_or.mpr ⟨hName.1, hName.2.1⟩) hName.2.2.1,
      ih fun n hn => h n (mem_cons_of_mem _ hn), reverse_cons, append_assoc,
      singleton_append]

theorem steps_append (hRooted : rooted p = true) :
    steps (p ++ slash :: q) = ((parts q).foldl (push true) (steps p).reverse).reverse := by
  have hBoth : rooted (p ++ slash :: q) = true := by
    cases p with
    | nil => cases hRooted
    | cons b p => exact hRooted
  rw [steps, hBoth, parts_append, foldl_append, steps, hRooted, reverse_reverse]

theorem rooted_render : rooted (render true names) = true := by
  simp [rooted, render]

theorem steps_render (h : ∀ name ∈ names, Plain name) : steps (render true names) = names := by
  have hParts : ((parts (render true names)).foldl (push true) []).reverse = names := by
    cases names with
    | nil => decide
    | cons name names =>
      have hGlue : parts (glue (name :: names)) = name :: names :=
        parts_glue (fun n hn => (h n hn).2.2.2) (by simp)
      rw [render, if_pos rfl, show slash :: glue (name :: names) = [] ++ slash :: glue (name :: names)
        from rfl, parts_append, hGlue, foldl_append, foldl_push_plain h]
      have hNil : (parts []).foldl (push true) [] = [] := by decide
      rw [hNil, append_nil, reverse_reverse]
  rw [steps, rooted_render]
  exact hParts

theorem glue_pair : glue [p, q] = p ++ slash :: q := by
  simp [glue, List.intercalate]

theorem render_ne_nil : render true names ≠ [] := by
  simp [render]

theorem glue_append {front back : List Path} (hFront : front ≠ []) (hBack : back ≠ []) :
    glue (front ++ back) = glue front ++ slash :: glue back := by
  induction front with
  | nil => exact absurd rfl hFront
  | cons first front ih =>
    cases front with
    | nil =>
      cases back with
      | nil => exact absurd rfl hBack
      | cons b back => simp [glue, List.intercalate]
    | cons second front =>
      have h := ih (by simp)
      simp only [glue, List.intercalate] at h ⊢
      simpa using h

theorem join_name (hNames : ∀ name ∈ names, Plain name) (hParts : ∀ part ∈ parts q, Plain part) :
    join [render true names, q] = render true (names ++ parts q) := by
  have hDrop : [render true names, q].dropWhile (· = []) = [render true names, q] := by
    simp [render_ne_nil]
  rw [join, hDrop]
  dsimp only
  rw [glue_pair, clean, steps_append rooted_render, steps_render hNames, foldl_push_plain hParts]
  have hRooted : rooted (render true names ++ slash :: q) = true := by simp [rooted, render]
  rw [hRooted, reverse_append, reverse_reverse, reverse_reverse]

end Rooted

example : clean [47, 97, 47, 46, 46, 47, 98] = [47, 98] := by decide

end Program.Paths
