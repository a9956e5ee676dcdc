import Camp.Wire.JsonRoundTrip

/-!
# Documents without duplicate names

A body is walked token by token, and an object with a name that occurs twice is refused. The
tokens are those of the decoder, which also reads every number.
-/

namespace Camp.JsonStrict

open Wire Wire.Utf8 Wire.Json List Option

section Model

/-- From here on a number is rounded to infinity. -/
def floatLimit : Nat := 2 ^ 1024 - 2 ^ 970

def decimalOverflows (text : List Char) : Bool :=
  let mantissa := text.takeWhile fun c => c ≠ 'e' && c ≠ 'E'
  let power := readInt ((text.dropWhile fun c => c ≠ 'e' && c ≠ 'E').tail.filter (· ≠ '+'))
  let significand := Nat.ofDigitChars 10 (mantissa.filter Char.isDigit) 0
  let scale := power - (mantissa.dropWhile (· ≠ '.')).tail.length
  if 0 ≤ scale then floatLimit ≤ significand * 10 ^ scale.toNat else floatLimit * 10 ^ (-scale).toNat ≤ significand

/-- The number is out of the range of `float64`. -/
def overflows : Json → Bool
  | .int i => floatLimit ≤ i.natAbs
  | .dec d => decimalOverflows d.text
  | _ => false

/-- A value that is no array and no object. -/
def scalar (cs : List Char) : Option (List Char) := do
  let (j, rest) ← value 1 cs
  if overflows j then none else some rest

mutual

def visit : Nat → List Char → Option (List Char)
  | 0, _ => none
  | fuel + 1, cs =>
    match skipSpace cs with
    | '[' :: rest =>
      match skipSpace rest with
      | ']' :: rest => some rest
      | rest => do
        let rest ← visit fuel rest
        visitItems fuel rest
    | '{' :: rest =>
      match skipSpace rest with
      | '}' :: rest => some rest
      | rest => do
        let (name, rest) ← visitMember fuel [] rest
        visitMembers fuel [name] rest
    | cs => scalar cs

def visitItems : Nat → List Char → Option (List Char)
  | 0, _ => none
  | fuel + 1, cs =>
    match skipSpace cs with
    | ']' :: rest => some rest
    | ',' :: rest => do
      let rest ← visit fuel rest
      visitItems fuel rest
    | _ => none

/-- `seen` are the names of the object so far, as they decode. -/
def visitMember : Nat → List (List Char) → List Char → Option (List Char × List Char)
  | 0, _, _ => none
  | fuel + 1, seen, cs =>
    match skipSpace cs with
    | '"' :: rest => do
      let (name, rest) ← stringBody rest.length rest
      if text name ∈ seen then none
      else
        match skipSpace rest with
        | ':' :: rest => do
          let rest ← visit fuel rest
          some (text name, rest)
        | _ => none
    | _ => none

def visitMembers : Nat → List (List Char) → List Char → Option (List Char)
  | 0, _, _ => none
  | fuel + 1, seen, cs =>
    match skipSpace cs with
    | '}' :: rest => some rest
    | ',' :: rest => do
      let (name, rest) ← visitMember fuel seen rest
      visitMembers fuel (name :: seen) rest
    | _ => none

end

def rejectDuplicateKeys (body : Bytes) : Bool :=
  let cs := text (symbols body)
  match visit (cs.length + 1) cs with
  | none => false
  | some rest => skipSpace rest == []

end Model

section Everywhere

mutual

/-- The check holds of the document and of every document in it. -/
def everywhere (check : Json → Bool) : Json → Bool
  | .arr js => check (.arr js) && everywhereItems check js
  | .obj ms => check (.obj ms) && everywhereMembers check ms
  | j => check j

def everywhereItems (check : Json → Bool) : List Json → Bool
  | [] => true
  | j :: js => everywhere check j && everywhereItems check js

def everywhereMember (check : Json → Bool) : List (Option Char) × Json → Bool
  | (_, j) => everywhere check j

def everywhereMembers (check : Json → Bool) : List (List (Option Char) × Json) → Bool
  | [] => true
  | m :: ms => everywhereMember check m && everywhereMembers check ms

end

/-- The names of an object differ when `key` is taken of them. -/
def namesDiffer {κ : Type} [DecidableEq κ] (key : List Char → κ) : Json → Bool
  | .obj ms => (ms.map fun m => key (text m.1)).Nodup
  | _ => true

/-- What the walk wants of each document. -/
def proper (j : Json) : Bool := namesDiffer id j && !overflows j

mutual

theorem everywhere_and (f g : Json → Bool) :
    ∀ j, everywhere (fun j => f j && g j) j = (everywhere f j && everywhere g j)
  | .null | .bool _ | .int _ | .dec _ | .str _ => by simp only [everywhere]
  | .arr js => by
    simp only [everywhere, everywhereItems_and f g js]
    ac_rfl
  | .obj ms => by
    simp only [everywhere, everywhereMembers_and f g ms]
    ac_rfl

theorem everywhereItems_and (f g : Json → Bool) :
    ∀ js, everywhereItems (fun j => f j && g j) js = (everywhereItems f js && everywhereItems g js)
  | [] => rfl
  | j :: js => by
    simp only [everywhereItems, everywhere_and f g j, everywhereItems_and f g js]
    ac_rfl

theorem everywhereMember_and (f g : Json → Bool) :
    ∀ m, everywhereMember (fun j => f j && g j) m = (everywhereMember f m && everywhereMember g m)
  | (_, j) => by simp only [everywhereMember, everywhere_and f g j]

theorem everywhereMembers_and (f g : Json → Bool) :
    ∀ ms, everywhereMembers (fun j => f j && g j) ms = (everywhereMembers f ms && everywhereMembers g ms)
  | [] => rfl
  | m :: ms => by
    simp only [everywhereMembers, everywhereMember_and f g m, everywhereMembers_and f g ms]
    ac_rfl

end

end Everywhere

section Walk

variable {cs : List Char}
variable {rest : List Char}

/-- With this much fuel the walk accepts what is read and is proper. -/
structure Walks (fuel : Nat) : Prop where
  visit : ∀ cs rest, visit fuel cs = some rest ↔ ∃ j, value fuel cs = some (j, rest) ∧ everywhere proper j = true
  items : ∀ cs rest, visitItems fuel cs = some rest ↔ ∃ js, items fuel cs = some (js, rest) ∧
    everywhereItems proper js = true
  member : ∀ seen cs name rest, visitMember fuel seen cs = some (name, rest) ↔
    ∃ m, member fuel cs = some (m, rest) ∧ text m.1 = name ∧ name ∉ seen ∧ everywhereMember proper m = true
  members : ∀ seen cs rest, visitMembers fuel seen cs = some rest ↔
    ∃ ms, members fuel cs = some (ms, rest) ∧ everywhereMembers proper ms = true ∧
      (ms.map fun m => text m.1).Nodup ∧ ∀ m ∈ ms, text m.1 ∉ seen

theorem skipSpace_skipSpace (cs : List Char) : skipSpace (skipSpace cs) = skipSpace cs := by
  induction cs with
  | nil => rfl
  | cons c cs ih =>
    cases hc : isSpace c with
    | true =>
      have hSkip : skipSpace (c :: cs) = skipSpace cs := dropWhile_cons_of_pos hc
      rw [hSkip, ih]
    | false =>
      have hKeep : skipSpace (c :: cs) = c :: cs := dropWhile_cons_of_neg (by simp [hc])
      rw [hKeep, hKeep]

theorem value_eq_of_scalar {fuel : Nat} (hArray : ∀ rest, skipSpace cs ≠ '[' :: rest)
    (hObject : ∀ rest, skipSpace cs ≠ '{' :: rest) : value (fuel + 1) cs = value 1 (skipSpace cs) := by
  rw [value, value, skipSpace_skipSpace]
  generalize skipSpace cs = cs' at *
  split
  · rfl
  · rfl
  · rfl
  · rfl
  · exact absurd rfl (hArray _)
  · exact absurd rfl (hObject _)
  · rfl

theorem everywhere_of_scalar {j : Json} (hArray : ∀ rest, skipSpace cs ≠ '[' :: rest)
    (hObject : ∀ rest, skipSpace cs ≠ '{' :: rest) (h : value 1 cs = some (j, rest)) :
    everywhere proper j = !overflows j := by
  rw [value] at h
  split at h
  · cases h; rfl
  · cases h; rfl
  · cases h; rfl
  · obtain ⟨_, _, h⟩ := bind_eq_some_iff.mp h
    cases h
    rfl
  · exact absurd ‹_› (hArray _)
  · exact absurd ‹_› (hObject _)
  · unfold number at h
    dsimp only at h
    split_ifs at h
    · cases h
      simp only [everywhere, proper, namesDiffer, Bool.true_and]
    · cases h
      simp only [everywhere, proper, namesDiffer, Bool.true_and]

theorem scalar_iff (hArray : ∀ rest, skipSpace cs ≠ '[' :: rest) (hObject : ∀ rest, skipSpace cs ≠ '{' :: rest) :
    scalar (skipSpace cs) = some rest ↔ ∃ j, value 1 (skipSpace cs) = some (j, rest) ∧ everywhere proper j = true := by
  have hProper {j : Json} {rest : List Char} (h : value 1 (skipSpace cs) = some (j, rest)) :
      everywhere proper j = !overflows j :=
    everywhere_of_scalar (by rwa [skipSpace_skipSpace]) (by rwa [skipSpace_skipSpace]) h
  rw [scalar, bind_eq_bind, bind_eq_some_iff]
  constructor
  · rintro ⟨⟨j, rest'⟩, hValue, h⟩
    dsimp only at h
    split_ifs at h with hOverflows
    cases h
    exact ⟨j, hValue, by rw [hProper hValue]; simpa using hOverflows⟩
  · rintro ⟨j, hValue, h⟩
    refine ⟨(j, rest), hValue, if_neg ?_⟩
    rw [hProper hValue] at h
    simpa using h

section Step

variable {fuel : Nat}
variable {cs tail : List Char}
variable {rest : List Char}

theorem value_bracket (h : skipSpace cs = '[' :: tail) : value (fuel + 1) cs =
    match skipSpace tail with
    | ']' :: rest => some (.arr [], rest)
    | rest => (value fuel rest).bind fun first => (items fuel first.2).bind fun others =>
        some (.arr (first.1 :: others.1), others.2) := by
  rw [value, h]
  rfl

theorem value_brace (h : skipSpace cs = '{' :: tail) : value (fuel + 1) cs =
    match skipSpace tail with
    | '}' :: rest => some (.obj [], rest)
    | rest => (member fuel rest).bind fun first => (members fuel first.2).bind fun others =>
        some (.obj (first.1 :: others.1), others.2) := by
  rw [value, h]
  rfl

theorem visit_bracket (h : skipSpace cs = '[' :: tail) : visit (fuel + 1) cs =
    match skipSpace tail with
    | ']' :: rest => some rest
    | rest => (visit fuel rest).bind (visitItems fuel) := by
  rw [visit, h]
  rfl

theorem visit_brace (h : skipSpace cs = '{' :: tail) : visit (fuel + 1) cs =
    match skipSpace tail with
    | '}' :: rest => some rest
    | rest => (visitMember fuel [] rest).bind fun first => visitMembers fuel [first.1] first.2 := by
  rw [visit, h]
  rfl

variable (ih : Walks fuel)
include ih

theorem visit_array (h : skipSpace cs = '[' :: tail) :
    visit (fuel + 1) cs = some rest ↔ ∃ j, value (fuel + 1) cs = some (j, rest) ∧ everywhere proper j = true := by
  rw [visit_bracket h, value_bracket h]
  split
  · simp [everywhere, everywhereItems, proper, namesDiffer, overflows]
  · simp only [bind_eq_some_iff]
    constructor
    · rintro ⟨middle, hFirst, hRest⟩
      obtain ⟨j, hValue, hProper⟩ := (ih.visit _ _).mp hFirst
      obtain ⟨js, hItems, hAll⟩ := (ih.items _ _).mp hRest
      refine ⟨.arr (j :: js), ⟨(j, middle), hValue, (js, rest), hItems, rfl⟩, ?_⟩
      simp [everywhere, everywhereItems, hProper, hAll, proper, namesDiffer, overflows]
    · rintro ⟨_, ⟨⟨j, middle⟩, hValue, ⟨js, rest'⟩, hItems, ⟨⟩⟩, hProper⟩
      simp only [everywhere, everywhereItems, Bool.and_eq_true] at hProper
      exact ⟨middle, (ih.visit _ _).mpr ⟨j, hValue, hProper.2.1⟩, (ih.items _ _).mpr ⟨js, hItems, hProper.2.2⟩⟩

theorem visit_object (h : skipSpace cs = '{' :: tail) :
    visit (fuel + 1) cs = some rest ↔ ∃ j, value (fuel + 1) cs = some (j, rest) ∧ everywhere proper j = true := by
  have hNames (m : List (Option Char) × Json) (ms : List (List (Option Char) × Json)) : proper (.obj (m :: ms)) = true ↔
      (ms.map fun m => text m.1).Nodup ∧ ∀ m' ∈ ms, text m'.1 ∉ [text m.1] := by
    simp [proper, namesDiffer, overflows, nodup_cons]
    tauto
  rw [visit_brace h, value_brace h]
  split
  · simp [everywhere, everywhereMembers, proper, namesDiffer, overflows]
  · simp only [bind_eq_some_iff]
    constructor
    · rintro ⟨⟨name, middle⟩, hFirst, hRest⟩
      obtain ⟨m, hMember, rfl, -, hProper⟩ := (ih.member _ _ _ _).mp hFirst
      obtain ⟨ms, hMembers, hAll, hDiffer⟩ := (ih.members _ _ _).mp hRest
      refine ⟨.obj (m :: ms), ⟨(m, middle), hMember, (ms, rest), hMembers, rfl⟩, ?_⟩
      simp only [everywhere, everywhereMembers, Bool.and_eq_true]
      exact ⟨(hNames m ms).mpr hDiffer, hProper, hAll⟩
    · rintro ⟨_, ⟨⟨m, middle⟩, hMember, ⟨ms, rest'⟩, hMembers, ⟨⟩⟩, hProper⟩
      simp only [everywhere, everywhereMembers, Bool.and_eq_true] at hProper
      refine ⟨(text m.1, middle), (ih.member _ _ _ _).mpr ⟨m, hMember, rfl, by simp, hProper.2.1⟩, ?_⟩
      exact (ih.members _ _ _).mpr ⟨ms, hMembers, hProper.2.2, (hNames m ms).mp hProper.1⟩

theorem visit_step (cs rest : List Char) :
    visit (fuel + 1) cs = some rest ↔ ∃ j, value (fuel + 1) cs = some (j, rest) ∧ everywhere proper j = true := by
  by_cases hArray : ∃ tail, skipSpace cs = '[' :: tail
  · obtain ⟨tail, hArray⟩ := hArray
    exact visit_array ih hArray
  · by_cases hObject : ∃ tail, skipSpace cs = '{' :: tail
    · obtain ⟨tail, hObject⟩ := hObject
      exact visit_object ih hObject
    · push Not at hArray hObject
      have hVisit : visit (fuel + 1) cs = scalar (skipSpace cs) := by
        rw [visit]
        split
        · exact absurd ‹_› (hArray _)
        · exact absurd ‹_› (hObject _)
        · rfl
      rw [hVisit, value_eq_of_scalar hArray hObject]
      exact scalar_iff hArray hObject

theorem items_step (cs rest : List Char) :
    visitItems (fuel + 1) cs = some rest ↔ ∃ js, items (fuel + 1) cs = some (js, rest) ∧
    everywhereItems proper js = true := by
  have hVisit : visitItems (fuel + 1) cs = match skipSpace cs with
      | ']' :: rest => some rest
      | ',' :: rest => (visit fuel rest).bind (visitItems fuel)
      | _ => none := by rw [visitItems]; rfl
  have hItems : items (fuel + 1) cs = match skipSpace cs with
      | ']' :: rest => some ([], rest)
      | ',' :: rest => (value fuel rest).bind fun first => (items fuel first.2).bind fun others =>
          some (first.1 :: others.1, others.2)
      | _ => none := by rw [items]; rfl
  rw [hVisit, hItems]
  split
  · simp [everywhereItems]
  · simp only [bind_eq_some_iff]
    constructor
    · rintro ⟨middle, hFirst, hRest⟩
      obtain ⟨j, hValue, hProper⟩ := (ih.visit _ _).mp hFirst
      obtain ⟨js, hItems, hAll⟩ := (ih.items _ _).mp hRest
      exact ⟨j :: js, ⟨(j, middle), hValue, (js, rest), hItems, rfl⟩, by simp [everywhereItems, hProper, hAll]⟩
    · rintro ⟨_, ⟨⟨j, middle⟩, hValue, ⟨js, rest'⟩, hItems, ⟨⟩⟩, hProper⟩
      simp only [everywhereItems, Bool.and_eq_true] at hProper
      exact ⟨middle, (ih.visit _ _).mpr ⟨j, hValue, hProper.1⟩, (ih.items _ _).mpr ⟨js, hItems, hProper.2⟩⟩
  · simp

omit ih in
theorem visitMember_succ (seen : List (List Char)) (cs : List Char) :
    visitMember (fuel + 1) seen cs = match skipSpace cs with
      | '"' :: rest => (stringBody rest.length rest).bind fun key => if text key.1 ∈ seen then none
        else match skipSpace key.2 with
          | ':' :: rest => (visit fuel rest).bind fun rest => some (text key.1, rest)
          | _ => none
      | _ => none := by
  rw [visitMember]
  rfl

omit ih in
theorem member_succ (cs : List Char) :
    member (fuel + 1) cs = match skipSpace cs with
      | '"' :: rest => (stringBody rest.length rest).bind fun key => match skipSpace key.2 with
        | ':' :: rest => (value fuel rest).bind fun found => some ((key.1, found.1), found.2)
        | _ => none
      | _ => none := by
  rw [member]
  rfl

theorem member_step (seen : List (List Char)) (cs name rest : List Char) :
    visitMember (fuel + 1) seen cs = some (name, rest) ↔
    ∃ m, member (fuel + 1) cs = some (m, rest) ∧ text m.1 = name ∧ name ∉ seen ∧ everywhereMember proper m = true := by
  rw [visitMember_succ, member_succ]
  split
  · cases stringBody _ _ with
    | none => simp
    | some key =>
      simp only [bind_some]
      by_cases hSeen : text key.1 ∈ seen
      · rw [if_pos hSeen]
        refine iff_of_false (by simp) ?_
        split
        · rintro ⟨m, hFound, rfl, hNew, -⟩
          obtain ⟨found, -, ⟨⟩⟩ := bind_eq_some_iff.mp hFound
          exact hNew hSeen
        · rintro ⟨m, ⟨⟩, -⟩
      · rw [if_neg hSeen]
        split
        · simp only [bind_eq_some_iff]
          constructor
          · rintro ⟨rest', hVisit, ⟨⟩⟩
            obtain ⟨j, hValue, hProper⟩ := (ih.visit _ _).mp hVisit
            exact ⟨(key.1, j), ⟨(j, rest), hValue, rfl⟩, rfl, hSeen, hProper⟩
          · rintro ⟨_, ⟨⟨j, rest'⟩, hValue, ⟨⟩⟩, rfl, -, hProper⟩
            exact ⟨_, (ih.visit _ _).mpr ⟨j, hValue, hProper⟩, rfl⟩
        · simp
  · simp

theorem members_step (seen : List (List Char)) (cs rest : List Char) : visitMembers (fuel + 1) seen cs = some rest ↔
    ∃ ms, members (fuel + 1) cs = some (ms, rest) ∧ everywhereMembers proper ms = true ∧
      (ms.map fun m => text m.1).Nodup ∧ ∀ m ∈ ms, text m.1 ∉ seen := by
  have hVisit : visitMembers (fuel + 1) seen cs = match skipSpace cs with
      | '}' :: rest => some rest
      | ',' :: rest => (visitMember fuel seen rest).bind fun first => visitMembers fuel (first.1 :: seen) first.2
      | _ => none := by rw [visitMembers]; rfl
  have hMembers : members (fuel + 1) cs = match skipSpace cs with
      | '}' :: rest => some ([], rest)
      | ',' :: rest => (member fuel rest).bind fun first => (members fuel first.2).bind fun others =>
          some (first.1 :: others.1, others.2)
      | _ => none := by rw [members]; rfl
  rw [hVisit, hMembers]
  split
  · simp [everywhereMembers]
  · simp only [bind_eq_some_iff]
    constructor
    · rintro ⟨⟨name, middle⟩, hFirst, hRest⟩
      obtain ⟨m, hMember, rfl, hNew, hProper⟩ := (ih.member _ _ _ _).mp hFirst
      obtain ⟨ms, hMembers, hAll, hNodup, hSeen⟩ := (ih.members _ _ _).mp hRest
      refine ⟨m :: ms, ⟨(m, middle), hMember, (ms, rest), hMembers, rfl⟩, by simp [everywhereMembers, hProper, hAll],
        ?_, ?_⟩
      · refine nodup_cons.mpr ⟨fun hMem => ?_, hNodup⟩
        obtain ⟨m', hm', hEq⟩ := mem_map.mp hMem
        exact hSeen m' hm' (hEq ▸ mem_cons_self)
      · intro m' hm' hOld
        rcases mem_cons.mp hm' with rfl | hm'
        · exact hNew hOld
        · exact hSeen m' hm' (mem_cons_of_mem _ hOld)
    · rintro ⟨_, ⟨⟨m, middle⟩, hMember, ⟨ms, rest'⟩, hMembers, ⟨⟩⟩, hProper, hNodup, hSeen⟩
      simp only [everywhereMembers, Bool.and_eq_true] at hProper
      obtain ⟨hFirst, hNodup⟩ := nodup_cons.mp hNodup
      refine ⟨(text m.1, middle), (ih.member _ _ _ _).mpr ⟨m, hMember, rfl, hSeen m mem_cons_self, hProper.1⟩, ?_⟩
      refine (ih.members _ _ _).mpr ⟨ms, hMembers, hProper.2, hNodup, fun m' hm' hOld => ?_⟩
      rcases mem_cons.mp hOld with hEq | hOld
      · exact hFirst (mem_map.mpr ⟨m', hm', hEq⟩)
      · exact hSeen m' (mem_cons_of_mem _ hm') hOld
  · simp

end Step

theorem walks (fuel : Nat) : Walks fuel := by
  induction fuel with
  | zero =>
    refine ⟨fun cs rest => ?_, fun cs rest => ?_, fun seen cs name rest => ?_, fun seen cs rest => ?_⟩
    · simp [visit, value]
    · simp [visitItems, items]
    · simp [visitMember, member]
    · simp [visitMembers, members]
  | succ fuel ih => exact ⟨visit_step ih, items_step ih, member_step ih, members_step ih⟩

/-- The bodies that are accepted: one document without duplicate names, and with no number out of range. -/
theorem rejectDuplicateKeys_iff (body : Bytes) : rejectDuplicateKeys body = true ↔
    ∃ j, parse body = some j ∧ everywhere (namesDiffer id) j = true ∧ everywhere (fun j => !overflows j) j = true := by
  have hProper (j : Json) : everywhere proper j = true ↔
      everywhere (namesDiffer id) j = true ∧ everywhere (fun j => !overflows j) j = true := by
    rw [← Bool.and_eq_true, ← everywhere_and]
    rfl
  have hParse (j : Json) : parse body = some j ↔
      ∃ rest, value ((text (symbols body)).length + 1) (text (symbols body)) = some (j, rest) ∧
      skipSpace rest = [] := by
    rw [parse, parseText, bind_eq_bind, bind_eq_some_iff]
    simp only [Prod.exists, ite_none_right_eq_some, Option.some.injEq]
    constructor
    · rintro ⟨_, rest, hValue, hBlank, hEq⟩
      exact ⟨rest, hEq ▸ hValue, hBlank⟩
    · rintro ⟨rest, hValue, hBlank⟩
      exact ⟨j, rest, hValue, hBlank, rfl⟩
  simp only [hParse, ← hProper]
  rw [rejectDuplicateKeys]
  constructor
  · intro h
    split at h
    · cases h
    · rename_i rest hVisit
      obtain ⟨j, hValue, hAll⟩ := ((walks _).visit _ _).mp hVisit
      exact ⟨j, ⟨rest, hValue, beq_iff_eq.mp h⟩, hAll⟩
  · rintro ⟨j, ⟨rest, hValue, hBlank⟩, hAll⟩
    rw [((walks _).visit _ _).mpr ⟨j, hValue, hAll⟩]
    exact beq_iff_eq.mpr hBlank

end Walk

end Camp.JsonStrict
