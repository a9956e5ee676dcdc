import Camp.Wire.JsonRoundTrip
import Camp.Wire.Text

/-!
# Documents end where their text says so

A reader of the JSON text uses the front of what it is given and looks at the
rest only to find the end of a number. So a document followed by more is read
as far as it goes, and what follows it is refused unless it is blank: two
objects on one line are no document, and neither is the front of one.
-/

namespace Wire.Json

open Utf8 List Option

variable {syms : List (Option Char)} {c : Char} {cs rest : List Char} {fuel : Nat}
  {ms : List (List (Option Char) × Json)} {b : UInt8}
variable {body tail cs' : List Char} {a d : Char} {n : Nat} {j : Json} {s : Bytes}

section Space

variable {tail : List Char}

theorem isSpace_of_skipSpace {cs : List Char} {c : Char} (h : skipSpace cs = c :: tail) : isSpace c = false := by
  induction cs with
  | nil => cases h
  | cons d cs ih =>
    cases hd : isSpace d with
    | true =>
      refine ih ?_
      rwa [skipSpace, dropWhile_cons, if_pos hd] at h
    | false =>
      rw [skipSpace_of_head hd] at h
      cases h
      exact hd

theorem skipSpace_split {cs : List Char} {c : Char} (h : skipSpace cs = c :: tail) :
    ∃ blanks, cs = blanks ++ c :: tail ∧ ∀ t, skipSpace (blanks ++ c :: t) = c :: t := by
  induction cs with
  | nil => cases h
  | cons d cs ih =>
    cases hd : isSpace d with
    | true =>
      have hSkip (rest : List Char) : skipSpace (d :: rest) = skipSpace rest := by
        rw [skipSpace, dropWhile_cons, if_pos hd]
        rfl
      rw [hSkip] at h
      obtain ⟨blanks, rfl, hBlanks⟩ := ih h
      exact ⟨d :: blanks, rfl, fun t => (hSkip _).trans (hBlanks t)⟩
    | false =>
      rw [skipSpace_of_head hd] at h
      cases h
      exact ⟨[], rfl, fun t => skipSpace_of_head hd⟩

theorem isSpace_of_blank {rest : List Char} (h : skipSpace rest = []) : ∀ c ∈ rest, isSpace c = true := by
  induction rest with
  | nil => simp
  | cons c rest ih =>
    cases hc : isSpace c with
    | true =>
      rw [skipSpace, dropWhile_cons, if_pos hc] at h
      exact forall_mem_cons.mpr ⟨hc, ih h⟩
    | false =>
      rw [skipSpace_of_head hc] at h
      cases h

theorem skipSpace_append {rest : List Char} (h : skipSpace rest = []) (t : List Char) :
    skipSpace (rest ++ t) = skipSpace t :=
  dropWhile_append_of_pos (isSpace_of_blank h)

theorem skipSpace_idem (cs : List Char) : skipSpace (skipSpace cs) = skipSpace cs := by
  cases h : skipSpace cs with
  | nil => rfl
  | cons c tail => exact skipSpace_of_head (isSpace_of_skipSpace h)

end Space

/-- The text of a string up to its closing quote: whatever follows, it reads the same. -/
def Closed (body : List Char) (syms : List (Option Char)) : Prop :=
  ∀ more t, body.length ≤ more → stringBody more (body ++ t) = some (syms, t)

/-- A closed text that starts with a code unit holds all four of its digits. -/
theorem Closed.unit_or_not (h : Closed body syms) :
    (∃ e f g k w, body = '\\' :: 'u' :: e :: f :: g :: k :: w) ∨ ∀ t v, body ++ t ≠ '\\' :: 'u' :: v := by
  have hAlone := h (body.length + 1) [] (by omega)
  rw [append_nil] at hAlone
  rcases body with _ | ⟨c, w⟩
  · cases hAlone
  · by_cases hc : c = '\\'
    · subst hc
      rw [stringBody, if_neg (by decide), if_pos rfl] at hAlone
      obtain ⟨x, hUnescape, _⟩ := bind_eq_some_iff.mp hAlone
      rcases w with _ | ⟨d, v⟩
      · cases hUnescape
      · by_cases hd : d = 'u'
        · subst hd
          rcases v with _ | ⟨e, _ | ⟨f, _ | ⟨g, _ | ⟨k, v⟩⟩⟩⟩
          iterate 4 · cases hUnescape
          exact Or.inl ⟨e, f, g, k, v, rfl⟩
        · refine Or.inr fun t u hEq => hd ?_
          simp only [cons_append, List.cons.injEq] at hEq
          exact hEq.2.1
    · refine Or.inr fun t u hEq => hc ?_
      simp only [cons_append, List.cons.injEq] at hEq
      exact hEq.1

theorem unescape_plain {b : Char} (hHex : hexFour a b c d = some n)
    (hTail : ∀ e f g k v, tail ≠ '\\' :: 'u' :: e :: f :: g :: k :: v) :
    unescape ('u' :: a :: b :: c :: d :: tail) = some (unitSymbol n, tail) := by
  simp only [unescape, hHex, bind_eq_bind, bind_some]

/-- Two units decide together what they stand for and whether the escape takes both. -/
theorem unescape_pair {b : Char} (hHex : hexFour a b c d = some n) (e f g k : Char) :
    ∃ s joined, ∀ tail, unescape ('u' :: a :: b :: c :: d :: '\\' :: 'u' :: e :: f :: g :: k :: tail) =
      some (s, if joined = true then tail else '\\' :: 'u' :: e :: f :: g :: k :: tail) := by
  simp only [unescape, hHex, bind_eq_bind, bind_some]
  cases hexFour e f g k with
  | none => exact ⟨unitSymbol n, false, fun tail => rfl⟩
  | some low =>
    by_cases hPair : 0xD800 ≤ n ∧ n < 0xDC00 ∧ 0xDC00 ≤ low ∧ low < 0xE000
    · exact ⟨some (Char.ofNat (0x10000 + (n - 0xD800) * 0x400 + (low - 0xDC00))), true,
        fun tail => by simp only [if_pos hPair, if_true]⟩
    · exact ⟨unitSymbol n, false, fun tail => by simp only [if_neg hPair]; rfl⟩

theorem unescape_local {s : Option Char} (h : unescape cs = some (s, body ++ rest)) (hBody : Closed body syms) :
    ∃ used, cs = used ++ (body ++ rest) ∧ ∀ t, unescape (used ++ (body ++ t)) = some (s, body ++ t) := by
  have hLetter (e : Char) (hRead : ∀ t, unescape (e :: t) = some (s, t)) (hEq : cs = e :: (body ++ rest)) :
      ∃ used, cs = used ++ (body ++ rest) ∧ ∀ t, unescape (used ++ (body ++ t)) = some (s, body ++ t) :=
    ⟨[e], hEq, fun t => hRead _⟩
  have hCopy := h
  unfold unescape at h
  split at h
  case h_9 a b c d tail =>
    obtain ⟨n, hHex, _⟩ := bind_eq_some_iff.mp h
    clear h hLetter
    by_cases hUnit : ∃ e f g k v, tail = '\\' :: 'u' :: e :: f :: g :: k :: v
    · obtain ⟨e, f, g, k, v, rfl⟩ := hUnit
      obtain ⟨s', joined, hPair⟩ := unescape_pair hHex e f g k
      rw [hPair] at hCopy
      cases joined with
      | true =>
        cases hCopy
        exact ⟨['u', a, b, c, d, '\\', 'u', e, f, g, k], rfl, fun t => hPair _⟩
      | false =>
        obtain ⟨rfl, hRest⟩ := Prod.mk.inj (Option.some.inj hCopy)
        rcases hBody.unit_or_not with ⟨e', f', g', k', w, rfl⟩ | hNot
        · cases hRest
          exact ⟨['u', a, b, c, d], rfl, fun t => hPair _⟩
        · exact absurd hRest.symm (hNot _ _)
    · have hTail : ∀ e f g k v, tail ≠ '\\' :: 'u' :: e :: f :: g :: k :: v :=
        fun e f g k v hEq => hUnit ⟨e, f, g, k, v, hEq⟩
      rw [unescape_plain hHex hTail] at hCopy
      cases hCopy
      refine ⟨['u', a, b, c, d], rfl, fun t => unescape_plain hHex fun e f g k v hEq => ?_⟩
      rcases hBody.unit_or_not with ⟨e', f', g', k', w, rfl⟩ | hNot
      · exact hTail _ _ _ _ _ rfl
      · exact hNot _ _ hEq
  case h_10 => cases h
  all_goals
    cases h
    exact hLetter _ (fun _ => rfl) rfl

theorem stringBody_local (h : stringBody fuel cs = some (syms, rest)) :
    ∃ body, cs = body ++ rest ∧ Closed body syms := by
  induction fuel generalizing cs rest syms with
  | zero => cases h
  | succ fuel ih =>
    rcases cs with _ | ⟨c, cs⟩
    · cases h
    rw [stringBody] at h
    split_ifs at h with hQuote hSlash hControl
    · cases h
      refine ⟨[c], rfl, fun more t hMore => ?_⟩
      obtain ⟨more, rfl⟩ := Nat.exists_eq_add_of_lt hMore
      rw [singleton_append, stringBody, if_pos hQuote]
    · obtain ⟨⟨s, middle⟩, hUnescape, h⟩ := bind_eq_some_iff.mp h
      obtain ⟨⟨text, rest'⟩, hLater, h⟩ := bind_eq_some_iff.mp h
      cases h
      obtain ⟨body, rfl, hBody⟩ := ih hLater
      obtain ⟨used, rfl, hUsed⟩ := unescape_local hUnescape hBody
      refine ⟨c :: (used ++ body), by simp, fun more t hMore => ?_⟩
      simp only [length_cons, length_append] at hMore
      obtain ⟨more, rfl⟩ : ∃ k, more = k + 1 := ⟨more - 1, by omega⟩
      rw [cons_append, append_assoc, stringBody, if_neg hQuote, if_pos hSlash, hUsed]
      show (stringBody more (body ++ t)).bind _ = _
      rw [hBody more t (by omega)]
      rfl
    · obtain ⟨⟨text, rest'⟩, hLater, h⟩ := bind_eq_some_iff.mp h
      cases h
      obtain ⟨body, rfl, hBody⟩ := ih hLater
      refine ⟨c :: body, rfl, fun more t hMore => ?_⟩
      simp only [length_cons] at hMore
      obtain ⟨more, rfl⟩ : ∃ k, more = k + 1 := ⟨more - 1, by omega⟩
      rw [cons_append, stringBody, if_neg hQuote, if_neg hSlash, if_neg hControl, hBody more t (by omega)]
      rfl

/-- Values whose text shows its own end, unlike that of a number. -/
def showsEnd : Json → Bool
  | .int _ | .dec _ => false
  | _ => true

/-- What has to follow a value for its text to end there. -/
def Stops (j : Json) (t : List Char) : Prop := j.showsEnd = true ∨ Delimited t

theorem number_local (h : number cs = some (j, rest)) :
    ∃ c run, cs = c :: run ++ rest ∧ (c.isDigit = true ∨ c = '-') ∧
      ∀ t, Stops j t → number (c :: run ++ t) = some (j, t) := by
  have hSplit : cs.takeWhile isNumberChar ++ cs.dropWhile isNumberChar = cs := takeWhile_append_dropWhile
  unfold number at h
  dsimp only at h
  split_ifs at h with hInt hDec
  · cases h
    obtain ⟨c, run, hHead, hc⟩ := intText_head (readInt (cs.takeWhile isNumberChar))
    refine ⟨c, run, ?_, hc, fun t hStops => ?_⟩
    · rw [← hHead, hInt, hSplit]
    · rw [← hHead]
      exact number_int _ (hStops.resolve_left (by simp [showsEnd]))
  · cases h
    obtain ⟨c, run, hHead, hc⟩ := Decimal.head ⟨_, hDec.1, hInt, hDec.2⟩
    refine ⟨c, run, ?_, hc, fun t hStops => ?_⟩
    · rw [← hHead, hSplit]
    · rw [← hHead]
      exact number_dec _ (hStops.resolve_left (by simp [showsEnd]))

/-- With this fuel the reader uses the front of the text only: with more fuel and
whatever follows that may, it reads the same. -/
def Local {α : Type} (read : Nat → List Char → Option (α × List Char)) (stops : α → List Char → Prop) (fuel : Nat) :
    Prop :=
  ∀ cs a rest, read fuel cs = some (a, rest) → ∃ used, cs = used ++ rest ∧
    ∀ more t, fuel ≤ more → stops a t → read more (used ++ t) = some (a, t)

structure ReadsLocally (fuel : Nat) : Prop where
  value : Local value Stops fuel
  items : Local items (fun _ _ => True) fuel
  member : Local member (fun m => Stops m.2) fuel
  members : Local members (fun _ _ => True) fuel

theorem value_skipSpace (fuel : Nat) (h : skipSpace cs = skipSpace cs') : value fuel cs = value fuel cs' := by
  cases fuel with
  | zero => rfl
  | succ fuel => rw [value, value, h]

theorem member_skipSpace (fuel : Nat) (h : skipSpace cs = skipSpace cs') : member fuel cs = member fuel cs' := by
  cases fuel with
  | zero => rfl
  | succ fuel => rw [member, member, h]

theorem Local.of_head {α : Type} {read : Nat → List Char → Option (α × List Char)} (stops : α → List Char → Prop)
    (hSkip : ∀ fuel cs cs', skipSpace cs = skipSpace cs' → read fuel cs = read fuel cs') {a : α}
    (hHead : skipSpace cs = c :: tail)
    (h : ∃ used, tail = used ++ rest ∧ ∀ more t, fuel ≤ more → stops a t →
      read (more + 1) (c :: (used ++ t)) = some (a, t)) :
    ∃ used, cs = used ++ rest ∧ ∀ more t, fuel + 1 ≤ more → stops a t → read more (used ++ t) = some (a, t) := by
  obtain ⟨used, rfl, hUsed⟩ := h
  obtain ⟨blanks, rfl, hBlanks⟩ := skipSpace_split hHead
  refine ⟨blanks ++ c :: used, by simp, fun more t hMore hStops => ?_⟩
  obtain ⟨more, rfl⟩ : ∃ k, more = k + 1 := ⟨more - 1, by omega⟩
  rw [← hUsed more t (by omega) hStops]
  refine hSkip _ _ _ ?_
  rw [append_assoc, cons_append, hBlanks, skipSpace_of_head (isSpace_of_skipSpace hHead)]

section Delimiters

variable {fuel : Nat} {cs tail : List Char}
variable {middle : List Char}

theorem delimited_of_skipSpace (h : ∀ c tail, skipSpace cs = c :: tail → isNumberChar c = false) : Delimited cs := by
  rintro c tail rfl
  cases hSpace : isSpace c with
  | true =>
    simp only [isSpace, Bool.or_eq_true, decide_eq_true_eq] at hSpace
    rcases hSpace with ((rfl | rfl) | rfl) | rfl <;> decide
  | false => exact h c tail (skipSpace_of_head hSpace)

theorem delimited_of_items {x : List Json × List Char} (h : items fuel cs = some x) : Delimited cs := by
  refine delimited_of_skipSpace fun c tail hHead => ?_
  cases fuel with
  | zero => cases h
  | succ fuel =>
    rw [items, hHead] at h
    split at h
    · rename_i hEq
      cases hEq
      decide
    · rename_i hEq
      cases hEq
      decide
    · cases h

theorem delimited_of_members {x : List (List (Option Char) × Json) × List Char} (h : members fuel cs = some x) :
    Delimited cs := by
  refine delimited_of_skipSpace fun c tail hHead => ?_
  cases fuel with
  | zero => cases h
  | succ fuel =>
    rw [members, hHead] at h
    split at h
    · rename_i hEq
      cases hEq
      decide
    · rename_i hEq
      cases hEq
      decide
    · cases h

theorem value_close (h : skipSpace cs = ']' :: tail) : value fuel cs = none := by
  cases fuel with
  | zero => rfl
  | succ fuel =>
    rw [value, h]
    show number (']' :: tail) = none
    refine eq_none_iff_forall_ne_some.mpr fun x hx => ?_
    obtain ⟨c, run, hEq, hc, _⟩ := number_local hx
    cases hEq
    rcases hc with hc | hc <;> exact absurd hc (by decide)

theorem member_close (h : skipSpace cs = '}' :: tail) : member fuel cs = none := by
  cases fuel with
  | zero => rfl
  | succ fuel =>
    rw [member, h]
    rfl

theorem value_arr {j : Json} {js : List Json} {rest : List Char} (hFirst : value fuel cs = some (j, middle))
    (hItems : items fuel middle = some (js, rest)) : value (fuel + 1) ('[' :: cs) = some (.arr (j :: js), rest) := by
  have hInner : value fuel (skipSpace cs) = some (j, middle) := (value_skipSpace fuel (skipSpace_idem cs)).trans hFirst
  have hNot : ∀ tail, skipSpace cs = ']' :: tail → False := by
    intro tail hEq
    rw [value_close hEq] at hFirst
    cases hFirst
  rw [value, skipSpace_of_head (by decide)]
  simp only [hInner, hItems, bind_eq_bind, bind_some]

theorem value_obj {m : List (Option Char) × Json} {ms : List (List (Option Char) × Json)} {rest : List Char}
    (hFirst : member fuel cs = some (m, middle)) (hMembers : members fuel middle = some (ms, rest)) :
    value (fuel + 1) ('{' :: cs) = some (.obj (m :: ms), rest) := by
  have hInner : member fuel (skipSpace cs) = some (m, middle) :=
      (member_skipSpace fuel (skipSpace_idem cs)).trans hFirst
  have hNot : ∀ tail, skipSpace cs = '}' :: tail → False := by
    intro tail hEq
    rw [member_close hEq] at hFirst
    cases hFirst
  rw [value, skipSpace_of_head (by decide)]
  simp only [hInner, hMembers, bind_eq_bind, bind_some]

end Delimiters

section Step

variable {fuel : Nat} (ih : ReadsLocally fuel)
include ih

theorem value_local : Local value Stops (fuel + 1) := by
  intro cs j rest h
  rw [value] at h
  split at h
  · rename_i hHead
    cases h
    refine Local.of_head Stops (fun fuel _ _ => value_skipSpace fuel) hHead ⟨['u', 'l', 'l'], rfl, fun more t _ _ => ?_⟩
    rw [value, skipSpace_of_head (by decide)]
    rfl
  · rename_i hHead
    cases h
    refine Local.of_head Stops (fun fuel _ _ => value_skipSpace fuel) hHead ⟨['r', 'u', 'e'], rfl, fun more t _ _ => ?_⟩
    rw [value, skipSpace_of_head (by decide)]
    rfl
  · rename_i hHead
    cases h
    refine Local.of_head Stops (fun fuel _ _ => value_skipSpace fuel) hHead
      ⟨['a', 'l', 's', 'e'], rfl, fun more t _ _ => ?_⟩
    rw [value, skipSpace_of_head (by decide)]
    rfl
  · rename_i tail hHead
    obtain ⟨⟨syms, rest'⟩, hString, h⟩ := bind_eq_some_iff.mp h
    cases h
    obtain ⟨body, hTail, hBody⟩ := stringBody_local hString
    refine Local.of_head Stops (fun fuel _ _ => value_skipSpace fuel) hHead ⟨body, hTail, fun more t _ _ => ?_⟩
    rw [value, skipSpace_of_head (by decide)]
    simp only [hBody (body ++ t).length t (by simp)]
    rfl
  · rename_i tail hHead
    refine Local.of_head Stops (fun fuel _ _ => value_skipSpace fuel) hHead ?_
    split at h
    · rename_i hClose
      cases h
      obtain ⟨blanks, rfl, hBlanks⟩ := skipSpace_split hClose
      refine ⟨blanks ++ [']'], by simp, fun more t _ _ => ?_⟩
      rw [value, skipSpace_of_head (by decide), append_assoc, singleton_append]
      simp only [hBlanks]
    · rw [value_skipSpace fuel (skipSpace_idem tail)] at h
      obtain ⟨⟨j', middle⟩, hFirst, h⟩ := bind_eq_some_iff.mp h
      obtain ⟨⟨js, rest'⟩, hItems, h⟩ := bind_eq_some_iff.mp h
      cases h
      obtain ⟨first, rfl, hRead⟩ := ih.value _ _ _ hFirst
      obtain ⟨last, rfl, hReadItems⟩ := ih.items _ _ _ hItems
      refine ⟨first ++ last, by simp, fun more t hMore _ => ?_⟩
      have hLast := hReadItems more t hMore trivial
      rw [append_assoc]
      exact value_arr (hRead more _ hMore (Or.inr (delimited_of_items hLast))) hLast
  · rename_i tail hHead
    refine Local.of_head Stops (fun fuel _ _ => value_skipSpace fuel) hHead ?_
    split at h
    · rename_i hClose
      cases h
      obtain ⟨blanks, rfl, hBlanks⟩ := skipSpace_split hClose
      refine ⟨blanks ++ ['}'], by simp, fun more t _ _ => ?_⟩
      rw [value, skipSpace_of_head (by decide), append_assoc, singleton_append]
      simp only [hBlanks]
    · rw [member_skipSpace fuel (skipSpace_idem tail)] at h
      obtain ⟨⟨m, middle⟩, hFirst, h⟩ := bind_eq_some_iff.mp h
      obtain ⟨⟨ms, rest'⟩, hMembers, h⟩ := bind_eq_some_iff.mp h
      cases h
      obtain ⟨first, rfl, hRead⟩ := ih.member _ _ _ hFirst
      obtain ⟨last, rfl, hReadMembers⟩ := ih.members _ _ _ hMembers
      refine ⟨first ++ last, by simp, fun more t hMore _ => ?_⟩
      have hLast := hReadMembers more t hMore trivial
      rw [append_assoc]
      exact value_obj (hRead more _ hMore (Or.inr (delimited_of_members hLast))) hLast
  · obtain ⟨c, run, hHead, hc, hRun⟩ := number_local h
    refine Local.of_head Stops (fun fuel _ _ => value_skipSpace fuel) hHead ⟨run, rfl, fun more t _ hStops => ?_⟩
    rw [value_number more hc]
    exact hRun t hStops

theorem items_local : Local items (fun _ _ => True) (fuel + 1) := by
  have hSkip (fuel : Nat) (cs cs' : List Char) (h : skipSpace cs = skipSpace cs') : items fuel cs = items fuel cs' := by
    cases fuel with
    | zero => rfl
    | succ fuel => rw [items, items, h]
  intro cs js rest h
  rw [items] at h
  split at h
  · rename_i hHead
    cases h
    refine Local.of_head (fun _ _ => True) hSkip hHead ⟨[], rfl, fun more t _ _ => ?_⟩
    rw [items, skipSpace_of_head (by decide)]
    rfl
  · rename_i tail hHead
    obtain ⟨⟨j, middle⟩, hFirst, h⟩ := bind_eq_some_iff.mp h
    obtain ⟨⟨js', rest'⟩, hItems, h⟩ := bind_eq_some_iff.mp h
    cases h
    obtain ⟨first, rfl, hRead⟩ := ih.value _ _ _ hFirst
    obtain ⟨last, rfl, hReadItems⟩ := ih.items _ _ _ hItems
    refine Local.of_head (fun _ _ => True) hSkip hHead ⟨first ++ last, by simp, fun more t hMore _ => ?_⟩
    have hLast := hReadItems more t hMore trivial
    rw [items, skipSpace_of_head (by decide), append_assoc]
    simp only [hRead more _ hMore (Or.inr (delimited_of_items hLast))]
    show (items more (last ++ t)).bind _ = _
    rw [hLast]
    rfl
  · cases h

theorem member_local : Local member (fun m => Stops m.2) (fuel + 1) := by
  intro cs m rest h
  rw [member] at h
  split at h
  · rename_i tail hHead
    obtain ⟨⟨name, middle⟩, hString, h⟩ := bind_eq_some_iff.mp h
    dsimp only at h
    split at h
    · rename_i after hColon
      obtain ⟨⟨j, rest'⟩, hValue, h⟩ := bind_eq_some_iff.mp h
      cases h
      obtain ⟨body, hTail, hBody⟩ := stringBody_local hString
      obtain ⟨blanks, rfl, hBlanks⟩ := skipSpace_split hColon
      obtain ⟨last, rfl, hRead⟩ := ih.value _ _ _ hValue
      refine Local.of_head (fun m => Stops m.2) (fun fuel _ _ => member_skipSpace fuel) hHead
        ⟨body ++ (blanks ++ ':' :: last), by simp [hTail], fun more t hMore hStops => ?_⟩
      have hName := hBody (body ++ (blanks ++ ':' :: (last ++ t))).length (blanks ++ ':' :: (last ++ t)) (by simp)
      rw [member, skipSpace_of_head (by decide)]
      simp only [append_assoc, cons_append, hName, bind_eq_bind, bind_some, hBlanks,
        hRead more t hMore hStops]
    · cases h
  · cases h

theorem members_local : Local members (fun _ _ => True) (fuel + 1) := by
  have hSkip (fuel : Nat) (cs cs' : List Char) (h : skipSpace cs = skipSpace cs') :
      members fuel cs = members fuel cs' := by
    cases fuel with
    | zero => rfl
    | succ fuel => rw [members, members, h]
  intro cs ms rest h
  rw [members] at h
  split at h
  · rename_i hHead
    cases h
    refine Local.of_head (fun _ _ => True) hSkip hHead ⟨[], rfl, fun more t _ _ => ?_⟩
    rw [members, skipSpace_of_head (by decide)]
    rfl
  · rename_i tail hHead
    obtain ⟨⟨m, middle⟩, hFirst, h⟩ := bind_eq_some_iff.mp h
    obtain ⟨⟨ms', rest'⟩, hMembers, h⟩ := bind_eq_some_iff.mp h
    cases h
    obtain ⟨first, rfl, hRead⟩ := ih.member _ _ _ hFirst
    obtain ⟨last, rfl, hReadMembers⟩ := ih.members _ _ _ hMembers
    refine Local.of_head (fun _ _ => True) hSkip hHead ⟨first ++ last, by simp, fun more t hMore _ => ?_⟩
    have hLast := hReadMembers more t hMore trivial
    rw [members, skipSpace_of_head (by decide), append_assoc]
    simp only [hRead more _ hMore (Or.inr (delimited_of_members hLast))]
    show (members more (last ++ t)).bind _ = _
    rw [hLast]
    rfl
  · cases h

end Step

theorem readsLocally (fuel : Nat) : ReadsLocally fuel := by
  induction fuel with
  | zero =>
    constructor <;>
    · intro cs a rest h
      cases h
  | succ fuel ih => exact ⟨value_local ih, items_local ih, member_local ih, members_local ih⟩

theorem members_ends (h : members fuel cs = some (ms, rest)) : ∃ front, cs = front ++ '}' :: rest := by
  induction fuel generalizing cs rest ms with
  | zero => cases h
  | succ fuel ih =>
    rw [members] at h
    split at h
    · rename_i hHead
      cases h
      obtain ⟨blanks, rfl, _⟩ := skipSpace_split hHead
      exact ⟨blanks, rfl⟩
    · rename_i tail hHead
      obtain ⟨⟨m, middle⟩, hFirst, h⟩ := bind_eq_some_iff.mp h
      obtain ⟨⟨ms', rest'⟩, hMembers, h⟩ := bind_eq_some_iff.mp h
      cases h
      obtain ⟨blanks, rfl, _⟩ := skipSpace_split hHead
      obtain ⟨first, rfl, _⟩ := (readsLocally fuel).member _ _ _ hFirst
      obtain ⟨last, rfl⟩ := ih hMembers
      exact ⟨blanks ++ ',' :: (first ++ last), by simp⟩
    · cases h

theorem value_obj_ends (h : value fuel cs = some (.obj ms, rest)) : ∃ front, cs = front ++ '}' :: rest := by
  cases fuel with
  | zero => cases h
  | succ fuel =>
    rw [value] at h
    split at h
    case h_6 tail hHead =>
      obtain ⟨blanks, rfl, _⟩ := skipSpace_split hHead
      split at h
      · rename_i hClose
        cases h
        obtain ⟨inner, rfl, _⟩ := skipSpace_split hClose
        exact ⟨blanks ++ '{' :: inner, by simp⟩
      · rw [member_skipSpace fuel (skipSpace_idem tail)] at h
        obtain ⟨⟨m, middle⟩, hFirst, h⟩ := bind_eq_some_iff.mp h
        obtain ⟨⟨ms', rest'⟩, hMembers, h⟩ := bind_eq_some_iff.mp h
        cases h
        obtain ⟨first, rfl, _⟩ := (readsLocally fuel).member _ _ _ hFirst
        obtain ⟨last, rfl⟩ := members_ends hMembers
        exact ⟨blanks ++ '{' :: (first ++ last), by simp⟩
    case h_7 =>
      unfold number at h
      dsimp only at h
      split_ifs at h <;> cases h
    case h_4 =>
      obtain ⟨⟨syms, rest'⟩, _, h⟩ := bind_eq_some_iff.mp h
      cases h
    case h_5 =>
      split at h
      · cases h
      · obtain ⟨⟨j, middle⟩, _, h⟩ := bind_eq_some_iff.mp h
        obtain ⟨⟨js, rest'⟩, _, h⟩ := bind_eq_some_iff.mp h
        cases h
    all_goals cases h

/-- An object is read to its brace, whatever follows. -/
theorem parseText_obj (h : parseText cs = some (.obj ms)) :
    ∃ front rest, cs = front ++ '}' :: rest ∧ skipSpace rest = [] ∧
      ∀ fuel t, cs.length + 1 ≤ fuel → value fuel (cs ++ t) = some (.obj ms, rest ++ t) := by
  obtain ⟨⟨j, rest⟩, hValue, h⟩ := bind_eq_some_iff.mp h
  dsimp only at h
  split_ifs at h with hBlank
  cases h
  obtain ⟨front, hEnd⟩ := value_obj_ends hValue
  obtain ⟨used, hSplit, hUsed⟩ := (readsLocally _).value _ _ _ hValue
  refine ⟨front, rest, hEnd, hBlank, fun fuel t hFuel => ?_⟩
  have hRead := hUsed fuel (rest ++ t) hFuel (Or.inl rfl)
  rwa [← append_assoc, ← hSplit] at hRead

theorem isTail_ascii (h : b.toNat < 0x80) : isTail b = false := by
  simp only [isTail, Bool.and_eq_false_iff, decide_eq_false_iff_not]
  omega

theorem text_append (a b : List (Option Char)) : text (a ++ b) = text a ++ text b := map_append

/-- An object that is followed by something that is not blank is no document. -/
theorem parse_obj_append (h : parse s = some (.obj ms)) (hAscii : b.toNat < 0x80)
    (hSolid : isSpace (Char.ofNat b.toNat) = false) (t : Bytes) : parse (s ++ b :: t) = none := by
  obtain ⟨front, rest, _, hBlank, hValue⟩ := parseText_obj h
  have hText : text (symbols (s ++ b :: t)) = text (symbols s) ++ Char.ofNat b.toNat :: text (symbols t) := by
    have hBreaks : Breaks (b :: t) := isTail_ascii hAscii
    rw [symbols_append hBreaks, text_append, symbols_cons, rune_ascii hAscii]
    rfl
  unfold parse parseText
  rw [hText, hValue _ _ (by simp)]
  show (if skipSpace _ = [] then _ else _) = _
  rw [skipSpace_append hBlank, skipSpace_of_head hSolid, if_neg (by simp)]

theorem rune_suffix (lead : UInt8) (rest : Bytes) : (rune lead rest).2 <:+ rest := by
  unfold rune
  dsimp only
  split_ifs
  · exact suffix_rfl
  · split
    · split_ifs
      · exact suffix_cons _ _
      · exact suffix_rfl
    · exact suffix_rfl
  · split
    · split_ifs
      · exact (suffix_cons _ _).trans (suffix_cons _ _)
      · exact suffix_rfl
    · exact suffix_rfl
  · split
    · split_ifs
      · exact ((suffix_cons _ _).trans (suffix_cons _ _)).trans (suffix_cons _ _)
      · exact suffix_rfl
    · exact suffix_rfl
  · exact suffix_rfl

/-- After a byte that is not ASCII the text does not end with an ASCII character. -/
theorem last_char_high (hb : ¬ b.toNat < 0x80) :
    ∃ front c, text (symbols (s ++ [b])) = front ++ [c] ∧ ¬ c.toNat < 0x80 := by
  induction hLength : s.length using Nat.strong_induction_on generalizing s with
  | _ n ih =>
    obtain ⟨lead, rest, hSplit⟩ : ∃ lead rest, s ++ [b] = lead :: rest := exists_cons_of_ne_nil (by simp)
    rw [hSplit, symbols_cons]
    rcases eq_nil_or_concat (rune lead rest).2 with hRest | ⟨s', b', hRest⟩
    · rw [hRest]
      refine ⟨[], (rune lead rest).1.getD replacement, rfl, fun hLow => ?_⟩
      cases hRune : (rune lead rest).1 with
      | none =>
        rw [hRune] at hLow
        exact absurd hLow (by decide)
      | some c =>
        rw [hRune, getD_some] at hLow
        have hEncode := encode_of_rune (show rune lead rest = (some c, []) from Prod.ext hRune hRest)
        rw [← hSplit, append_nil, encodeNat, if_pos hLow, ← nil_append [UInt8.ofNat _]] at hEncode
        obtain ⟨_, hByte⟩ := append_inj' hEncode rfl
        cases hByte
        rw [toNat_ofNat_of_lt (by omega)] at hb
        exact hb hLow
    · rw [concat_eq_append] at hRest
      obtain ⟨before, hBefore⟩ := rune_suffix lead rest
      rw [hRest] at hBefore
      have hWhole : s ++ [b] = (lead :: (before ++ s')) ++ [b'] := by simp [hSplit, ← hBefore]
      obtain ⟨rfl, hByte⟩ := append_inj' hWhole rfl
      cases hByte
      simp only [length_cons, length_append] at hLength
      obtain ⟨front, c, hText, hHigh⟩ := ih s'.length (by omega) rfl
      refine ⟨(rune lead rest).1.getD replacement :: front, c, ?_, hHigh⟩
      rw [hRest, cons_append, ← hText]
      rfl

theorem isSpace_low (h : isSpace c = true) : c.toNat < 0x80 := by
  simp only [isSpace, Bool.or_eq_true, decide_eq_true_eq] at h
  rcases h with ((rfl | rfl) | rfl) | rfl <;> decide

/-- The front of a document is no object. -/
theorem parse_front {front tail : Bytes} (hSplit : j.toBytes = front ++ tail) (h : parse front = some (.obj ms)) :
    tail = [] := by
  obtain ⟨before, rest, hText, hBlank, hValue⟩ := parseText_obj h
  rcases eq_nil_or_concat front with rfl | ⟨start, b, rfl⟩
  · simp [symbols, symbolsFuel, text] at hText
  rw [concat_eq_append] at hSplit hText hValue
  by_cases hb : b.toNat < 0x80
  · have hBreaks (t : Bytes) : Breaks (b :: t) := isTail_ascii hb
    have hWhole : render j = text (symbols (start ++ [b])) ++ text (symbols tail) := by
      have hSymbols : symbols (start ++ [b] ++ tail) = symbols (start ++ [b]) ++ symbols tail := by
        rw [append_assoc, singleton_append, symbols_append (hBreaks tail), symbols_append (hBreaks []),
          symbols_cons, symbols_cons, rune_ascii hb, rune_ascii hb]
        simp [symbols, symbolsFuel]
      rw [← text_append, ← hSymbols, ← hSplit, toBytes, symbols_encode, text_map_some]
    have hRead := (readsBack ((render j).length + 1)).value j [] (by omega) delimited_nil
    rw [append_nil, hWhole, hValue _ _ (by simp)] at hRead
    have hNil := (Prod.mk.inj (Option.some.inj hRead)).2
    rw [append_eq_nil_iff] at hNil
    have hNone : symbols tail = [] := map_eq_nil_iff.mp hNil.2
    rcases tail with _ | ⟨lead, tail⟩
    · rfl
    · rw [symbols_cons] at hNone
      cases hNone
  · obtain ⟨front, c, hLast, hHigh⟩ := last_char_high (s := start) hb
    rw [hLast] at hText
    rcases eq_nil_or_concat rest with rfl | ⟨rest, d, rfl⟩
    · obtain ⟨_, hEq⟩ := append_inj' hText rfl
      cases hEq
      exact absurd (by decide) hHigh
    · rw [concat_eq_append, ← cons_append, ← append_assoc] at hText
      obtain ⟨_, hEq⟩ := append_inj' hText rfl
      cases hEq
      rw [concat_eq_append] at hBlank
      exact absurd (isSpace_low (isSpace_of_blank hBlank c (by simp))) hHigh

end Wire.Json
