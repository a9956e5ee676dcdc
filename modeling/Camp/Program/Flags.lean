import Mathlib.Data.List.TakeWhile

/-!
# Command lines with flags

The flags of a program are read word by word: a long flag with its value in the same word or in
the next one, letters that stand for flags and may share a word, operands between them, and a
bare double dash after which every word is an operand.
-/

namespace Program.Flags

open List Option

abbrev Word := List UInt8

/-- A flag takes a value, or there is one that is meant when none is given. A letter stands for a
flag. -/
structure FlagSet where
  long : Word → Option (Option Word)
  short : UInt8 → Option Word

open FlagSet

inductive Mode where
  | flags
  | waiting (name : Word)
  | ended
  deriving DecidableEq

structure Parsed where
  assigned : List (Word × Word)
  operands : List Word
  mode : Mode
  deriving DecidableEq

open Parsed

/-- The values that a flag was given, the last one being the one that counts. -/
def valuesOf (assigned : List (Word × Word)) (name : Word) : List Word := (assigned.filter (·.1 = name)).map (·.2)

theorem valuesOf_append (as as' : List (Word × Word)) (name : Word) :
    valuesOf (as ++ as') name = valuesOf as name ++ valuesOf as' name := by
  simp [valuesOf]

namespace Parsed

def start : Parsed := ⟨[], [], .flags⟩

def assign (p : Parsed) (name value : Word) : Parsed := ⟨p.assigned ++ [(name, value)], p.operands, .flags⟩

def operand (p : Parsed) (word : Word) : Parsed := { p with operands := p.operands ++ [word] }

def enter (p : Parsed) (mode : Mode) : Parsed := { p with mode := mode }

def values (p : Parsed) (name : Word) : List Word := valuesOf p.assigned name

/-- More has been read before. -/
def after (p : Parsed) (assigned : List (Word × Word)) (operands : List Word) : Parsed :=
  ⟨assigned ++ p.assigned, operands ++ p.operands, p.mode⟩

end Parsed

def cut (text : Word) : Word × Option Word :=
  match text.dropWhile (· ≠ 61) with
  | [] => (text, none)
  | _ :: value => (text.takeWhile (· ≠ 61), some value)

/-- The word would be taken for an operand. -/
def isOperand (word : Word) : Bool := word.head? ≠ some 45 || word = [45]

namespace FlagSet

variable (fs : FlagSet)

def longFlag (p : Parsed) (text : Word) : Option Parsed :=
  if text.head? = some 45 ∨ text.head? = some 61 then none
  else
    match fs.long (cut text).1, (cut text).2 with
    | none, _ => none
    | some _, some value => some (p.assign (cut text).1 value)
    | some (some default), none => some (p.assign (cut text).1 default)
    | some none, none => some (p.enter (.waiting (cut text).1))

def shortFlags : Word → Parsed → Option Parsed
  | [], p => some p
  | c :: rest, p =>
    match fs.short c with
    | none => none
    | some name =>
      if 1 < rest.length ∧ rest.head? = some 61 then some (p.assign name rest.tail)
      else
        match fs.long name with
        | none => none
        | some (some default) => shortFlags rest (p.assign name default)
        | some none => if rest = [] then some (p.enter (.waiting name)) else some (p.assign name rest)

def step (p : Parsed) (word : Word) : Option Parsed :=
  match p.mode with
  | .ended => some (p.operand word)
  | .waiting name => some (p.assign name word)
  | .flags =>
    if isOperand word then some (p.operand word)
    else if word = [45, 45] then some (p.enter .ended)
    else if word.tail.head? = some 45 then fs.longFlag p word.tail.tail
    else fs.shortFlags word.tail p

def run (p : Parsed) (words : List Word) : Option Parsed := words.foldlM fs.step p

/-- A flag must not be left without its value. -/
def parse (words : List Word) : Option Parsed :=
  (fs.run .start words).filter fun p => match p.mode with
    | .waiting _ => false
    | _ => true

theorem run_append (p : Parsed) (ws ws' : List Word) : fs.run p (ws ++ ws') = (fs.run p ws).bind (fs.run · ws') :=
  foldlM_append ..

theorem run_cons (p : Parsed) (w : Word) (ws : List Word) : fs.run p (w :: ws) = (fs.step p w).bind (fs.run · ws) :=
  foldlM_cons ..

section Frame

variable (p : Parsed) (as : List (Word × Word)) (os : List Word)

theorem assign_after (name value : Word) : (p.after as os).assign name value = (p.assign name value).after as os := by
  simp [assign, Parsed.after]

theorem shortFlags_after (text : Word) (p : Parsed) :
    fs.shortFlags text (p.after as os) = (fs.shortFlags text p).map (·.after as os) := by
  induction text generalizing p with
  | nil => rfl
  | cons c rest ih =>
    rw [shortFlags, shortFlags]
    cases fs.short c with
    | none => rfl
    | some name =>
      dsimp only
      by_cases hInline : 1 < rest.length ∧ rest.head? = some 61
      · rw [if_pos hInline, if_pos hInline, assign_after]
        rfl
      · rw [if_neg hInline, if_neg hInline]
        cases fs.long name with
        | none => rfl
        | some value =>
          cases value with
          | none =>
            dsimp only
            split_ifs
            · rfl
            · rw [assign_after]
              rfl
          | some default =>
            dsimp only
            rw [assign_after, ih]

/-- What has been read before stays. -/
theorem step_after (word : Word) : fs.step (p.after as os) word = (fs.step p word).map (·.after as os) := by
  have hOperand : (p.after as os).operand word = (p.operand word).after as os := by
    simp [operand, Parsed.after]
  unfold step
  rw [show (p.after as os).mode = p.mode from rfl]
  cases p.mode with
  | ended => exact congrArg some hOperand
  | waiting name => exact congrArg some (assign_after ..)
  | flags =>
    dsimp only
    split_ifs
    · exact congrArg some hOperand
    · rfl
    · unfold longFlag
      split_ifs
      · rfl
      · cases fs.long (cut word.tail.tail).1 with
        | none => rfl
        | some value =>
          cases (cut word.tail.tail).2 with
          | some _ => exact congrArg some (assign_after ..)
          | none =>
            cases value with
            | none => rfl
            | some _ => exact congrArg some (assign_after ..)
    · exact shortFlags_after ..

theorem run_after (words : List Word) (p : Parsed) :
    fs.run (p.after as os) words = (fs.run p words).map (·.after as os) := by
  induction words generalizing p with
  | nil => rfl
  | cons word words ih =>
    rw [run_cons, run_cons, step_after]
    cases fs.step p word with
    | none => rfl
    | some q => exact ih q

end Frame

end FlagSet

section Typed

/-- An option that is given to a program: its flag, a letter that also stands for it, whether a value has a
word of its own, and the values. -/
structure Typed where
  name : Word
  letter : Option UInt8
  spaced : Bool
  values : List Word
  deriving DecidableEq

open Typed

namespace Typed

def flag (t : Typed) : Word := 45 :: 45 :: t.name

def words (t : Typed) : List Word :=
  t.values.flatMap fun v => if t.spaced then [t.flag, v] else [t.flag ++ 61 :: v]

def pairs (t : Typed) : List (Word × Word) := t.values.map (t.name, ·)

/-- The values that a list of options gives to a flag. -/
def given (ts : List Typed) (name : Word) : List Word := valuesOf (ts.flatMap pairs) name

end Typed

/-- The name of a flag can be read back. -/
def Proper (name : Word) : Prop := name ≠ [] ∧ name.head? ≠ some 45 ∧ 61 ∉ name

instance (name : Word) : Decidable (Proper name) := inferInstanceAs (Decidable (_ ∧ _ ∧ _))

def FlagSet.Knows (fs : FlagSet) (t : Typed) : Prop :=
  Proper t.name ∧ if t.spaced then fs.long t.name = some none else fs.long t.name ≠ none

variable {fs : FlagSet} {t : Typed} {ts : List Typed} {as : List (Word × Word)} {os : List Word}

theorem cut_of_notMem {name : Word} (h : 61 ∉ name) : cut name = (name, none) := by
  have hAll : ∀ b ∈ name, decide (b ≠ 61) = true := fun b hb => decide_eq_true fun hEq => h (hEq ▸ hb)
  rw [cut, dropWhile_eq_nil_iff.mpr hAll]

theorem cut_append {name : Word} (h : 61 ∉ name) (value : Word) : cut (name ++ 61 :: value) = (name, some value) := by
  have hAll : ∀ b ∈ name, decide (b ≠ 61) = true := fun b hb => decide_eq_true fun hEq => h (hEq ▸ hb)
  rw [cut, dropWhile_append_of_pos hAll, takeWhile_append_of_pos hAll]
  simp

theorem fst_cut (text : Word) : (cut text).1 = text.takeWhile (· ≠ 61) := by
  have hSplit := takeWhile_append_dropWhile (p := fun b : UInt8 => decide (b ≠ 61)) (l := text)
  rw [cut]
  split
  · rename_i hNil
    rw [hNil, append_nil] at hSplit
    exact hSplit.symm
  · rfl

/-- A flag and its value are read as they were written. -/
theorem FlagSet.Knows.run_value (h : fs.Knows t) (value : Word) :
    fs.run ⟨as, os, .flags⟩ (if t.spaced then [t.flag, value] else [t.flag ++ 61 :: value]) =
      some ⟨as ++ [(t.name, value)], os, .flags⟩ := by
  obtain ⟨⟨hNonempty, hDash, hEqual⟩, hKnown⟩ := h
  obtain ⟨b, rest, hName⟩ := exists_cons_of_ne_nil hNonempty
  have hHead : ¬(t.name.head? = some 45 ∨ t.name.head? = some 61) := by
    rintro (hBad | hBad)
    · exact hDash hBad
    · exact hEqual (mem_of_mem_head? hBad)
  have hLong (text : Word) (p : Parsed) (hText : text ≠ []) (hMode : p.mode = .flags) :
      fs.step p (45 :: 45 :: text) = fs.longFlag p text := by
    obtain ⟨c, more, rfl⟩ := exists_cons_of_ne_nil hText
    simp [step, hMode, isOperand]
  cases hSpaced : t.spaced with
  | true =>
    have hKnown : fs.long t.name = some none := by simpa [hSpaced] using hKnown
    have hFirst : fs.step ⟨as, os, .flags⟩ t.flag = some ⟨as, os, .waiting t.name⟩ := by
      rw [flag, hLong _ _ hNonempty rfl, longFlag, if_neg hHead, cut_of_notMem hEqual]
      simp [hKnown, enter]
    rw [if_pos rfl, run_cons, hFirst]
    rfl
  | false =>
    have hKnown : fs.long t.name ≠ none := by simpa [hSpaced] using hKnown
    obtain ⟨kind, hKind⟩ := ne_none_iff_exists'.mp hKnown
    have hFirst : fs.step ⟨as, os, .flags⟩ (t.flag ++ 61 :: value) = some ⟨as ++ [(t.name, value)], os, .flags⟩ := by
      have hHead' : ¬((t.name ++ 61 :: value).head? = some 45 ∨ (t.name ++ 61 :: value).head? = some 61) := by
        rw [hName] at hHead ⊢
        exact hHead
      rw [flag, cons_append, cons_append, hLong _ _ (by simp) rfl, longFlag, if_neg hHead',
        cut_append hEqual]
      simp [hKind, assign]
    rw [if_neg (by decide), run_cons, hFirst]
    rfl

theorem run_typed (h : ∀ t ∈ ts, fs.Knows t) :
    fs.run ⟨as, os, .flags⟩ (ts.flatMap words) = some ⟨as ++ ts.flatMap pairs, os, .flags⟩ := by
  have hValues (t : Typed) (ht : fs.Knows t) (values : List Word) (as : List (Word × Word)) :
      fs.run ⟨as, os, .flags⟩ (values.flatMap fun v => if t.spaced then [t.flag, v] else [t.flag ++ 61 :: v]) =
        some ⟨as ++ values.map (t.name, ·), os, .flags⟩ := by
    induction values generalizing as with
    | nil => simp [run]
    | cons value values ih =>
      rw [flatMap_cons, run_append, ht.run_value, bind_some, ih]
      simp
  induction ts generalizing as with
  | nil => simp [run]
  | cons t ts ih =>
    obtain ⟨ht, hts⟩ := forall_mem_cons.mp h
    rw [flatMap_cons, run_append, words, hValues t ht, bind_some, ih hts]
    simp [pairs]

section Keeping

variable {p q : Parsed}

/-- An option that is given after the words of somebody else. -/
def late (o : Option (Word × Word)) : List Typed := o.toList.map fun p => ⟨p.1, none, false, [p.2]⟩

variable (fs : FlagSet) (ts : List Typed) (o : Option (Word × Word)) (raw : List Word) (operand : Word)

/-- A command line with words of somebody else between the options and the operand. -/
def line : List Word := ts.flatMap words ++ raw ++ (late o).flatMap words ++ [operand]

/-- Each option that is given has its values, and the operand is one, after those of somebody else. -/
def Keeps (words : List Word) : Prop :=
  ∃ p s, fs.parse words = some p ∧ fs.run .start raw = some s ∧
    (∀ t ∈ ts ++ late o, t.values ≠ [] → p.values t.name = given (ts ++ late o) t.name) ∧
    p.operands = s.operands ++ [operand]

/-- The words of somebody else are a command line of their own: no flag waits for its value, the options go on if
one is given later, and none of them is set. -/
def Complete : Prop :=
  ∃ s, fs.run .start raw = some s ∧ (∀ t ∈ ts ++ late o, t.values ≠ [] → s.values t.name = []) ∧
    (s.mode = .flags ∧ isOperand operand = true ∨ s.mode = .ended ∧ o = none)

variable {fs ts o raw operand}

theorem FlagSet.run_late (h : ∀ t ∈ late o, fs.Knows t) (as : List (Word × Word)) (os : List Word) :
    fs.run ⟨as, os, .flags⟩ ((late o).flatMap words) = some ⟨as ++ o.toList, os, .flags⟩ := by
  rw [run_typed h]
  cases o <;> rfl

theorem shortFlags_cases {c : UInt8} {rest : Word} (h : fs.shortFlags (c :: rest) p = some q) :
    ∃ name, fs.short c = some name ∧ ((∃ value, q = p.assign name value) ∨ q = p.enter (.waiting name) ∨
      ∃ default, fs.shortFlags rest (p.assign name default) = some q) := by
  rw [shortFlags] at h
  split at h
  · cases h
  · rename_i name hName
    refine ⟨name, hName, ?_⟩
    split at h
    · exact .inl ⟨_, (Option.some.inj h).symm⟩
    · split at h
      · cases h
      · exact .inr (.inr ⟨_, h⟩)
      · split at h
        · exact .inr (.inl (Option.some.inj h).symm)
        · exact .inl ⟨_, (Option.some.inj h).symm⟩

theorem operands_of_shortFlags {text : Word} (h : fs.shortFlags text p = some q) : q.operands = p.operands := by
  induction text generalizing p with
  | nil =>
    cases h
    rfl
  | cons c rest ih =>
    obtain ⟨name, -, ⟨value, rfl⟩ | rfl | ⟨default, hRest⟩⟩ := shortFlags_cases h
    · rfl
    · rfl
    · exact (ih hRest).trans rfl

/-- What a word that is no operand does where flags are read. -/
theorem step_cases {w : Word} (h : fs.step p w = some q) (hMode : p.mode = .flags) (hWord : isOperand w = false) :
    q = p.enter .ended ∨
      (∃ text, w = 45 :: 45 :: text ∧
      ((∃ value, q = p.assign (cut text).1 value) ∨ q = p.enter (.waiting (cut text).1))) ∨
        ∃ text, w = 45 :: text ∧ text.head? ≠ some 45 ∧ fs.shortFlags text p = some q := by
  obtain ⟨text, rfl⟩ : ∃ text, w = 45 :: text := by
    cases w with
    | nil => cases hWord
    | cons b text => exact ⟨text, by simp_all [isOperand]⟩
  rw [step, hMode] at h
  dsimp only at h
  rw [if_neg (by simp [hWord]), tail_cons] at h
  split at h
  · exact .inl (Option.some.inj h).symm
  · split at h
    · rename_i hDash
      obtain ⟨more, rfl⟩ : ∃ more, text = 45 :: more := List.head?_eq_some_iff.mp hDash
      refine .inr (.inl ⟨more, rfl, ?_⟩)
      rw [tail_cons, longFlag] at h
      split at h
      · cases h
      · split at h
        · cases h
        · exact .inl ⟨_, (Option.some.inj h).symm⟩
        · exact .inl ⟨_, (Option.some.inj h).symm⟩
        · exact .inr (Option.some.inj h).symm
    · rename_i hDash
      exact .inr (.inr ⟨text, rfl, hDash, h⟩)

/-- A word that is no operand adds none where flags are read. -/
theorem operands_of_step {w : Word} (h : fs.step p w = some q) (hMode : p.mode = .flags) (hWord : isOperand w = false) :
    q.operands = p.operands := by
  obtain rfl | ⟨text, -, ⟨value, rfl⟩ | rfl⟩ | ⟨text, -, -, hShort⟩ := step_cases h hMode hWord
  · rfl
  · rfl
  · rfl
  · exact operands_of_shortFlags hShort

theorem run_line (hKnown : ∀ t ∈ ts, fs.Knows t) :
    fs.run .start (line ts o raw operand) =
      (fs.run .start raw).bind fun s =>
        fs.run (s.after (ts.flatMap pairs) []) ((late o).flatMap words ++ [operand]) := by
  have hTyped : fs.run .start (ts.flatMap words) = some (start.after (ts.flatMap pairs) []) := by
    refine (run_typed hKnown).trans ?_
    simp [Parsed.after, start]
  rw [line, append_assoc, append_assoc, run_append, hTyped, bind_some, run_append,
    run_after]
  cases fs.run .start raw <;> rfl

/-- The last word of a line, where flags are read. -/
theorem run_operand (h : fs.run p [operand] = some q) (hMode : p.mode = .flags)
    (hOperands : q.operands = p.operands ++ [operand]) : isOperand operand = true ∧ q = p.operand operand := by
  have hStep : fs.step p operand = some q := by
    rw [run_cons] at h
    simpa [run] using h
  cases hWord : isOperand operand with
  | false =>
    have hSame := (operands_of_step hStep hMode hWord).symm.trans hOperands
    simp at hSame
  | true =>
    rw [step, hMode] at hStep
    exact ⟨rfl, by simpa [hWord, eq_comm] using hStep⟩

theorem given_append (name : Word) :
    given (ts ++ late o) name = given ts name ++ valuesOf o.toList name := by
  rw [given, flatMap_append, valuesOf_append]
  cases o <;> rfl

theorem complete_of_keeps (hTyped : ∀ t ∈ ts, fs.Knows t) (hLate : ∀ t ∈ late o, fs.Knows t)
    (hClear : ∀ s name value, o = some (name, value) → fs.run .start raw = some s →
      s.values name = [] ∧ s.mode ≠ .waiting name)
    (h : Keeps fs ts o raw operand (line ts o raw operand)) : Complete fs ts o raw operand := by
  obtain ⟨p, s, hParse, hRun, hValues, hOperands⟩ := h
  have hLine := (filter_eq_some_iff.mp hParse).1
  rw [run_line hTyped, hRun, bind_some] at hLine
  refine ⟨s, hRun, ?_⟩
  obtain ⟨sa, so, mode⟩ := s
  cases mode with
  | flags =>
    rw [run_append, Parsed.after, run_late hLate, bind_some] at hLine
    obtain ⟨hWord, rfl⟩ := run_operand hLine rfl (by simpa using hOperands)
    refine ⟨fun t ht hGiven => ?_, .inl ⟨rfl, hWord⟩⟩
    have hSame := hValues t ht hGiven
    rw [given_append] at hSame
    simpa [Parsed.values, Parsed.operand, valuesOf_append, given] using hSame
  | waiting name =>
    cases o with
    | none =>
      -- the operand becomes a value
      have hTaken : p.operands = so := by
        rw [← Option.some.inj hLine]
        simp [Parsed.assign, Parsed.after]
      rw [hTaken] at hOperands
      simp at hOperands
    | some pair =>
      obtain ⟨lateName, value⟩ := pair
      obtain ⟨hUnset, hOther⟩ := hClear _ _ _ rfl hRun
      -- the late option becomes a value of the flag that waits, and is not set itself
      have hNext : fs.run ⟨ts.flatMap pairs ++ sa ++ [(name, 45 :: 45 :: (lateName ++ 61 :: value))],
          so, .flags⟩
          [operand] = some p := by
        rw [← hLine]
        rfl
      obtain ⟨-, rfl⟩ := run_operand hNext rfl (by simpa using hOperands)
      have hSame := hValues ⟨lateName, none, false, [value]⟩ (by simp [late]) (by simp)
      have hName : name ≠ lateName := fun h => hOther (h ▸ rfl)
      have hUnset : valuesOf sa lateName = [] := hUnset
      rw [given_append] at hSame
      simp [Parsed.values, Parsed.operand, valuesOf_append, given, hUnset] at hSame
      simp [valuesOf, hName] at hSame
  | ended =>
    cases o with
    | none =>
      have hEnd : p = Parsed.operand ⟨ts.flatMap pairs ++ sa, so, .ended⟩ operand :=
          (Option.some.inj hLine).symm
      refine ⟨fun t ht hGiven => ?_, .inr ⟨rfl, rfl⟩⟩
      have hSame := hValues t ht hGiven
      rw [given_append, hEnd] at hSame
      simpa [Parsed.values, Parsed.operand, valuesOf_append, given, valuesOf] using hSame
    | some pair =>
      -- the late option becomes an operand
      have hTaken : p.operands = so ++ [45 :: 45 :: (pair.1 ++ 61 :: pair.2)] ++ [operand] := by
        rw [← Option.some.inj hLine]
        rfl
      rw [hTaken] at hOperands
      simp at hOperands

theorem keeps_of_complete (hTyped : ∀ t ∈ ts, fs.Knows t) (hLate : ∀ t ∈ late o, fs.Knows t)
    (h : Complete fs ts o raw operand) : Keeps fs ts o raw operand (line ts o raw operand) := by
  obtain ⟨s, hRun, hUnset, hEnd⟩ := h
  have hLine := @run_line fs ts o raw operand hTyped
  rw [hRun, bind_some] at hLine
  obtain ⟨sa, so, mode⟩ := s
  have hValues (t : Typed) (ht : t ∈ ts ++ late o) (hGiven : t.values ≠ []) :
      valuesOf (ts.flatMap pairs ++ sa ++ o.toList) t.name = given (ts ++ late o) t.name := by
    have hNone : valuesOf sa t.name = [] := hUnset t ht hGiven
    rw [given_append, valuesOf_append, valuesOf_append, hNone, append_nil, given]
  rcases hEnd with ⟨rfl, hWord⟩ | ⟨rfl, rfl⟩
  · have hFinal : fs.run .start (line ts o raw operand) =
        some ⟨ts.flatMap pairs ++ sa ++ o.toList, so ++ [operand], .flags⟩ := by
      rw [hLine, run_append, Parsed.after, run_late hLate, bind_some, run_cons,
        step]
      simp [hWord, run, Parsed.operand]
    exact ⟨_, _, filter_eq_some_iff.mpr ⟨hFinal, rfl⟩, hRun, hValues, rfl⟩
  · have hFinal : fs.run .start (line ts none raw operand) =
        some ⟨ts.flatMap pairs ++ sa ++ [], so ++ [operand], .ended⟩ := by
      rw [hLine, append_nil]
      rfl
    exact ⟨_, _, filter_eq_some_iff.mpr ⟨hFinal, rfl⟩, hRun, hValues, rfl⟩

/-- The options keep their values and the operand is one if, and only if, the words between them are complete. -/
theorem keeps_iff_complete (hKnown : ∀ t ∈ ts ++ late o, fs.Knows t)
    (hClear : ∀ s name value, o = some (name, value) → fs.run .start raw = some s →
      s.values name = [] ∧ s.mode ≠ .waiting name) :
    Keeps fs ts o raw operand (line ts o raw operand) ↔ Complete fs ts o raw operand := by
  obtain ⟨hTyped, hLate⟩ := forall_mem_append.mp hKnown
  exact ⟨complete_of_keeps hTyped hLate hClear, keeps_of_complete hTyped hLate⟩

end Keeping

section Letters

/-- A letter of one of the words stands for the flag. -/
def Lettered (fs : FlagSet) (raw : List Word) (name : Word) : Prop :=
  ∃ w ∈ raw, ∃ text, w = 45 :: text ∧ text.head? ≠ some 45 ∧ ∃ c ∈ text, fs.short c = some name

/-- The flag has been seen. -/
def Parsed.Touched (p : Parsed) (name : Word) : Prop := name ∈ p.assigned.map (·.1) ∨ p.mode = .waiting name

variable {name : Word} {p q : Parsed} {raw : List Word}

theorem touched_assign {name' value : Word} (h : (p.assign name' value).Touched name) :
    p.Touched name ∨ name' = name := by
  rcases h with h | h
  · simp only [assign, map_append, mem_append, map_singleton, mem_singleton] at h
    exact h.imp .inl Eq.symm
  · cases h

theorem touched_enter {mode : Mode} (h : (p.enter mode).Touched name) : p.Touched name ∨ mode = .waiting name :=
  h.imp_left .inl

theorem touched_shortFlags {text : Word} (h : fs.shortFlags text p = some q) (hTouched : q.Touched name) :
    p.Touched name ∨ ∃ c ∈ text, fs.short c = some name := by
  induction text generalizing p with
  | nil =>
    cases h
    exact .inl hTouched
  | cons c rest ih =>
    obtain ⟨name', hShort, hNext⟩ := shortFlags_cases h
    have hThis (hName : name' = name) : ∃ c' ∈ c :: rest, fs.short c' = some name :=
      ⟨c, mem_cons_self, hName ▸ hShort⟩
    obtain ⟨value, rfl⟩ | rfl | ⟨default, hRest⟩ := hNext
    · exact (touched_assign hTouched).imp_right hThis
    · exact (touched_enter hTouched).imp_right fun hMode => hThis (Mode.waiting.inj hMode)
    · rcases ih hRest with hBefore | ⟨c', hMem, hLetter⟩
      · exact (touched_assign hBefore).imp_right hThis
      · exact .inr ⟨c', mem_cons_of_mem _ hMem, hLetter⟩

/-- One word touches a flag by its long name or by a letter. -/
theorem touched_step {w : Word} (h : fs.step p w = some q) (hTouched : q.Touched name)
    (hLong : ∀ text, w = 45 :: 45 :: text → (cut text).1 ≠ name) : p.Touched name ∨ Lettered fs [w] name := by
  by_cases hFlags : p.mode = .flags ∧ isOperand w = false
  · obtain rfl | ⟨text, rfl, ⟨value, rfl⟩ | rfl⟩ | ⟨text, rfl, hHead, hShort⟩ := step_cases h hFlags.1 hFlags.2
    · exact .inl ((touched_enter hTouched).resolve_right (by simp))
    · exact .inl ((touched_assign hTouched).resolve_right (hLong text rfl))
    · exact .inl ((touched_enter hTouched).resolve_right fun hMode => hLong text rfl (Mode.waiting.inj hMode))
    · refine (touched_shortFlags hShort hTouched).imp_right fun hLetter => ?_
      exact ⟨_, mem_singleton_self _, text, rfl, hHead, hLetter⟩
  · rw [step] at h
    split at h
    · cases h
      exact .inl (hTouched.imp_right id)
    · rename_i waiting hMode
      cases h
      refine .inl ?_
      rcases touched_assign hTouched with hBefore | rfl
      · exact hBefore
      · exact .inr hMode
    · rename_i hMode
      rw [if_pos (by simpa [hMode] using hFlags)] at h
      cases h
      exact .inl hTouched

theorem touched_run (h : fs.run p raw = some q) (hTouched : q.Touched name)
    (hLong : ∀ w ∈ raw, ∀ text, w = 45 :: 45 :: text → (cut text).1 ≠ name) :
    p.Touched name ∨ Lettered fs raw name := by
  induction raw generalizing p with
  | nil =>
    cases h
    exact .inl hTouched
  | cons w raw ih =>
    rw [run_cons] at h
    obtain ⟨r, hStep, hRun⟩ := bind_eq_some_iff.mp h
    rcases ih hRun fun w hw => hLong w (mem_cons_of_mem _ hw) with hBefore | ⟨w', hMem, hLetter⟩
    · refine (touched_step hStep hBefore (hLong w mem_cons_self)).imp_right ?_
      rintro ⟨w', hw', hLetter⟩
      exact ⟨w, mem_cons_self, mem_singleton.mp hw' ▸ hLetter⟩
    · exact .inr ⟨w', mem_cons_of_mem _ hMem, hLetter⟩

/-- A flag whose long name does not occur is set by a letter only. -/
theorem lettered_of_run (h : fs.run .start raw = some q)
    (hLong : ∀ w ∈ raw, ∀ text, w = 45 :: 45 :: text → (cut text).1 ≠ name)
    (hSet : q.values name ≠ [] ∨ q.mode = .waiting name) : Lettered fs raw name := by
  have hTouched : q.Touched name := by
    refine hSet.imp_left fun hValues => ?_
    obtain ⟨value, hValue⟩ := exists_mem_of_ne_nil _ hValues
    obtain ⟨pair, hPair, -⟩ := mem_map.mp hValue
    obtain ⟨hMem, hName⟩ := mem_filter.mp hPair
    exact mem_map.mpr ⟨pair, hMem, by simpa using hName⟩
  refine (touched_run h hTouched hLong).resolve_left ?_
  rintro (hMem | hMode)
  · cases hMem
  · cases hMode

end Letters

end Typed

end Program.Flags
