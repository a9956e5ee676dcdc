import Camp.Wire.Json

/-!
# Written JSON documents are read back exactly

The text of a document is followed by something that cannot extend a number,
and the reader's fuel is bounded by the length of the text. Compact text has
no line break, which is what makes one document a line.
-/

namespace Wire

open Utf8 List Option

theorem readInt_intText (i : Int) : readInt (intText i) = i := by
  unfold intText
  split_ifs with hNeg
  · rw [readInt, Nat.ofDigitChars_ten_toDigits]
    omega
  · have hNotMinus : ∀ digits, Nat.toDigits 10 i.natAbs ≠ '-' :: digits := by
      intro digits h
      have hDigit := Nat.isDigit_of_mem_toDigits (b := 10) (n := i.natAbs) (c := '-')
        (by decide) (by decide) (by rw [h]; exact mem_cons_self)
      exact absurd hDigit (by decide)
    rw [readInt.eq_def]
    split
    · rename_i digits h
      exact absurd h (hNotMinus digits)
    · rw [Nat.ofDigitChars_ten_toDigits]
      omega

theorem intText_head (i : Int) : ∃ c cs, intText i = c :: cs ∧ (c.isDigit = true ∨ c = '-') := by
  unfold intText
  split_ifs
  · exact ⟨_, _, rfl, Or.inr rfl⟩
  · cases h : Nat.toDigits 10 i.natAbs with
    | nil => exact absurd h Nat.toDigits_ne_nil
    | cons c cs =>
      refine ⟨c, cs, rfl, Or.inl ?_⟩
      exact Nat.isDigit_of_mem_toDigits (b := 10) (n := i.natAbs) (by decide) (by decide)
        (by rw [h]; exact mem_cons_self)

theorem intText_numeric (i : Int) : ∀ c ∈ intText i, isNumberChar c = true := by
  have hDigits : ∀ c ∈ Nat.toDigits 10 i.natAbs, isNumberChar c = true := by
    intro c hc
    simp [isNumberChar, Nat.isDigit_of_mem_toDigits (by decide) (by decide) hc]
  intro c hc
  unfold intText at hc
  split_ifs at hc
  · rcases mem_cons.mp hc with rfl | hc
    · rfl
    · exact hDigits c hc
  · exact hDigits c hc

theorem Decimal.head (d : Decimal) : ∃ c cs, d.text = c :: cs ∧ (c.isDigit = true ∨ c = '-') := by
  have hWell := d.wellFormed
  cases h : d.text with
  | nil => rw [h] at hWell; cases hWell
  | cons c cs =>
    refine ⟨c, cs, rfl, ?_⟩
    rw [h] at hWell
    by_cases hMinus : c = '-'
    · exact Or.inr hMinus
    · left
      have hUnsigned : unsignedNumber (c :: cs) = true := by
        rw [isNumber.eq_def] at hWell
        split at hWell
        · simp_all
        · exact hWell
      rw [unsignedNumber.eq_def] at hUnsigned
      split at hUnsigned
      · simp_all
      · simp only [digitsThen, Bool.and_eq_true] at hUnsigned
        exact hUnsigned.1

namespace Json

variable {c : Char} {cs rest : List Char}
variable {n fuel : Nat} {middle : List Char}

def Delimited (rest : List Char) : Prop := ∀ c cs, rest = c :: cs → isNumberChar c = false

theorem delimited_nil : Delimited [] := by
  intro c cs h
  cases h

theorem delimited_cons (h : isNumberChar c = false) : Delimited (c :: cs) := by
  intro d ds hEq
  cases hEq
  exact h

theorem takeWhile_append_delimited {run : List Char} (hRun : ∀ c ∈ run, isNumberChar c = true)
    (hRest : Delimited rest) :
    (run ++ rest).takeWhile isNumberChar = run ∧ (run ++ rest).dropWhile isNumberChar = rest := by
  induction run with
  | nil =>
    cases rest with
    | nil => exact ⟨rfl, rfl⟩
    | cons c cs => simp [hRest c cs rfl]
  | cons c run ih =>
    have hc := hRun c mem_cons_self
    obtain ⟨hTake, hDrop⟩ := ih fun d hd => hRun d (mem_cons_of_mem _ hd)
    simp [hc, hTake, hDrop]

theorem number_int (i : Int) (hRest : Delimited rest) : number (intText i ++ rest) = some (.int i, rest) := by
  obtain ⟨hTake, hDrop⟩ := takeWhile_append_delimited (intText_numeric i) hRest
  simp only [number, hTake, hDrop, readInt_intText]
  rfl

theorem number_dec (d : Decimal) (hRest : Delimited rest) : number (d.text ++ rest) = some (.dec d, rest) := by
  obtain ⟨hTake, hDrop⟩ := takeWhile_append_delimited (all_eq_true.mp d.numeric) hRest
  simp only [number, hTake, hDrop, d.notInt, dif_neg, not_false_eq_true, d.wellFormed, d.numeric,
    and_self, dif_pos]

theorem skipSpace_of_head (h : isSpace c = false) : skipSpace (c :: cs) = c :: cs := by
  simp [skipSpace, h]

theorem isSpace_of_numeric (h : c.isDigit = true ∨ c = '-') : isSpace c = false := by
  rcases h with h | rfl
  · simp only [isSpace, Bool.or_eq_false_iff, decide_eq_false_iff_not]
    refine ⟨⟨⟨?_, ?_⟩, ?_⟩, ?_⟩ <;> rintro rfl <;> exact absurd h (by decide)
  · rfl

theorem value_number (fuel : Nat) (h : c.isDigit = true ∨ c = '-') : value (fuel + 1) (c :: cs) = number (c :: cs) := by
  rw [value, skipSpace_of_head (isSpace_of_numeric h)]
  split
  case h_7 => rfl
  all_goals
    rename_i hEq
    cases hEq
    rcases h with h | h <;> exact absurd h (by decide)

theorem hexValue_hexDigit : ∀ n < 16, hexValue (hexDigit n) = some n := by decide

theorem hexFour_byte (h : n < 256) : hexFour '0' '0' (hexDigit (n / 16)) (hexDigit (n % 16)) = some n := by
  have hHigh := hexValue_hexDigit (n / 16) (by omega)
  have hLow := hexValue_hexDigit (n % 16) (by omega)
  have hZero : hexValue '0' = some 0 := by decide
  simp only [hexFour, hHigh, hLow, hZero]
  show some (((0 * 16 + 0) * 16 + n / 16) * 16 + n % 16) = some n
  congr 1
  omega

theorem unescape_unit {a b d : Char} (hHex : hexFour a b c d = some n) (hPlain : isSurrogate n = false)
    (rest : List Char) : unescape ('u' :: a :: b :: c :: d :: rest) = some (unitSymbol n, rest) := by
  have hHigh : ¬ (0xD800 ≤ n ∧ n < 0xDC00) := by
    intro hRange
    simp only [isSurrogate, Bool.and_eq_false_iff, decide_eq_false_iff_not] at hPlain
    omega
  simp only [unescape, hHex, bind_eq_bind, bind_some]
  split
  · split
    · rw [if_neg (fun h => hHigh ⟨h.1, h.2.1⟩)]
    · rfl
  · rfl

/-- An escape is a letter, a code unit, or the character itself. -/
inductive Escaped (s : Option Char) : List Char → Prop where
  | letter (e : Char) (break_ne : e ≠ '\n')
      (unescape : ∀ rest, unescape (e :: rest) = some (s, rest)) : Escaped s ['\\', e]
  | unit (a b c d : Char) (n : Nat) (hex : hexFour a b c d = some n)
      (plain : isSurrogate n = false) (symbol : unitSymbol n = s)
      (break_ne : '\n' ∉ [a, b, c, d]) : Escaped s ['\\', 'u', a, b, c, d]
  | plain (c : Char) (eq : s = some c) (quote_ne : c ≠ '"') (slash_ne : c ≠ '\\')
      (high : ¬ c.toNat < 0x20) : Escaped s [c]

theorem unitSymbol_byte (h : c.toNat < 0x80) : isSurrogate c.toNat = false ∧ unitSymbol c.toNat = some c := by
  have hPlain : isSurrogate c.toNat = false := by
    simp only [isSurrogate, Bool.and_eq_false_iff, decide_eq_false_iff_not]
    omega
  refine ⟨hPlain, ?_⟩
  rw [unitSymbol, hPlain, if_neg (by simp; omega), Char.ofNat_toNat]

theorem newline_hexDigit : ∀ n < 16, '\n' ≠ hexDigit n := by decide

theorem escaped_byte (h : c.toNat < 0x80) :
    Escaped (some c) ['\\', 'u', '0', '0', hexDigit (c.toNat / 16), hexDigit (c.toNat % 16)] := by
  obtain ⟨hPlain, hSymbol⟩ := unitSymbol_byte h
  refine .unit _ _ _ _ c.toNat (hexFour_byte (by omega)) hPlain hSymbol ?_
  have hHigh := newline_hexDigit (c.toNat / 16) (by omega)
  have hLow := newline_hexDigit (c.toNat % 16) (by omega)
  simp [hHigh, hLow]

theorem escaped (s : Option Char) : Escaped s (escape s) := by
  cases s with
  | none => exact .unit 'f' 'f' 'f' 'd' 0xFFFD (by decide) (by decide) (by decide) (by decide)
  | some c =>
    have hChar : Char.ofNat c.toNat = c := Char.ofNat_toNat c
    rw [escape]
    by_cases hQuote : c = '"'
    · rw [if_pos hQuote, hQuote]
      exact .letter _ (by decide) fun _ => rfl
    rw [if_neg hQuote]
    by_cases hSlash : c = '\\'
    · rw [if_pos hSlash, hSlash]
      exact .letter _ (by decide) fun _ => rfl
    rw [if_neg hSlash]
    by_cases hLine : c = '\n'
    · rw [if_pos hLine, hLine]
      exact .letter _ (by decide) fun _ => rfl
    rw [if_neg hLine]
    by_cases hReturn : c = '\r'
    · rw [if_pos hReturn, hReturn]
      exact .letter _ (by decide) fun _ => rfl
    rw [if_neg hReturn]
    by_cases hTab : c = '\t'
    · rw [if_pos hTab, hTab]
      exact .letter _ (by decide) fun _ => rfl
    rw [if_neg hTab]
    by_cases hBack : c.toNat = 8
    · rw [if_pos hBack, ← hChar, hBack]
      exact .letter _ (by decide) fun _ => rfl
    rw [if_neg hBack]
    by_cases hForm : c.toNat = 12
    · rw [if_pos hForm, ← hChar, hForm]
      exact .letter _ (by decide) fun _ => rfl
    rw [if_neg hForm]
    by_cases hControl : c.toNat < 0x20 ∨ c = '<' ∨ c = '>' ∨ c = '&'
    · rw [if_pos hControl]
      refine escaped_byte ?_
      rcases hControl with h | rfl | rfl | rfl
      · omega
      all_goals decide
    rw [if_neg hControl]
    by_cases hLineSep : c.toNat = 0x2028
    · rw [if_pos hLineSep, ← hChar, hLineSep]
      exact .unit _ _ _ _ 0x2028 (by decide) (by decide) (by decide) (by decide)
    rw [if_neg hLineSep]
    by_cases hParSep : c.toNat = 0x2029
    · rw [if_pos hParSep, ← hChar, hParSep]
      exact .unit _ _ _ _ 0x2029 (by decide) (by decide) (by decide) (by decide)
    rw [if_neg hParSep]
    exact .plain c rfl hQuote hSlash fun h => hControl (Or.inl h)

theorem stringBody_escape (s : Option Char) (fuel : Nat) (rest : List Char) :
    stringBody (fuel + 1) (escape s ++ rest) =
      (stringBody fuel rest).map fun p => (s :: p.1, p.2) := by
  have hShape := escaped s
  generalize escape s = written at *
  cases hShape with
  | letter e _ hUnescape =>
    simp only [cons_append, nil_append, stringBody, Char.reduceEq, if_false, if_true,
      hUnescape, bind_eq_bind, bind_some]
    cases stringBody fuel rest <;> rfl
  | unit a b c d n hHex hPlain hSymbol =>
    simp only [cons_append, nil_append, stringBody, Char.reduceEq, if_false, if_true]
    rw [unescape_unit hHex hPlain, hSymbol, bind_eq_bind, bind_some]
    cases stringBody fuel rest <;> rfl
  | plain c hEq hQuote hSlash hHigh =>
    simp only [cons_append, nil_append, stringBody, hQuote, hSlash, hHigh, if_false, hEq]
    cases stringBody fuel rest <;> rfl

theorem escape_length_pos (s : Option Char) : 0 < (escape s).length := by
  have hShape := escaped s
  generalize escape s = written at *
  cases hShape <;> exact Nat.succ_pos _

theorem stringBody_quote (syms : List (Option Char)) (fuel : Nat) (rest : List Char)
    (hFuel : (syms.flatMap escape).length < fuel) :
    stringBody fuel (syms.flatMap escape ++ '"' :: rest) = some (syms, rest) := by
  induction syms generalizing fuel with
  | nil =>
    cases fuel with
    | zero => omega
    | succ fuel => simp [stringBody]
  | cons s syms ih =>
    have hPositive := escape_length_pos s
    simp only [flatMap_cons, length_append] at hFuel
    cases fuel with
    | zero => omega
    | succ fuel =>
      rw [flatMap_cons, append_assoc, stringBody_escape, ih fuel (by omega)]
      rfl

theorem stringBody_rest (syms : List (Option Char)) (rest : List Char) :
    stringBody (syms.flatMap escape ++ '"' :: rest).length (syms.flatMap escape ++ '"' :: rest) =
      some (syms, rest) := by
  apply stringBody_quote
  simp only [length_append, length_cons]
  omega

theorem quote_append (syms : List (Option Char)) (rest : List Char) :
    quote syms ++ rest = '"' :: (syms.flatMap escape ++ '"' :: rest) := by
  simp [quote]

theorem render_head (j : Json) : ∃ c cs, render j = c :: cs ∧ isSpace c = false ∧ c ≠ ']' ∧ c ≠ '}' := by
  have numeric {c : Char} (h : c.isDigit = true ∨ c = '-') : isSpace c = false ∧ c ≠ ']' ∧ c ≠ '}' := by
    refine ⟨isSpace_of_numeric h, ?_, ?_⟩ <;> rintro rfl <;> rcases h with h | h <;>
      exact absurd h (by decide)
  cases j with
  | null => exact ⟨_, _, by rw [render], by decide, by decide, by decide⟩
  | bool b => cases b <;> exact ⟨_, _, by rw [render], by decide, by decide, by decide⟩
  | int i =>
    obtain ⟨c, cs, h, hc⟩ := intText_head i
    exact ⟨c, cs, by rw [render, h], numeric hc⟩
  | dec d =>
    obtain ⟨c, cs, h, hc⟩ := d.head
    exact ⟨c, cs, by rw [render, h], numeric hc⟩
  | str text => exact ⟨_, _, by rw [render, quote], by decide, by decide, by decide⟩
  | arr items => cases items <;> exact ⟨_, _, by rw [render], by decide, by decide, by decide⟩
  | obj members => cases members <;> exact ⟨_, _, by rw [render], by decide, by decide, by decide⟩

theorem delimited_renderItems (js : List Json) (rest : List Char) : Delimited (renderItems js ++ rest) := by
  cases js <;> rw [renderItems] <;> exact delimited_cons (by decide)

theorem delimited_renderMembers (ms : List (List (Option Char) × Json)) (rest : List Char) :
    Delimited (renderMembers ms ++ rest) := by
  cases ms <;> rw [renderMembers] <;> exact delimited_cons (by decide)

theorem value_array {j : Json} {js : List Json} (hHead : ∃ c tail, cs = c :: tail ∧ isSpace c = false ∧ c ≠ ']')
    (hFirst : value fuel cs = some (j, middle)) (hItems : items fuel middle = some (js, rest)) :
    value (fuel + 1) ('[' :: cs) = some (.arr (j :: js), rest) := by
  obtain ⟨c, tail, rfl, hSpace, hClose⟩ := hHead
  rw [value, skipSpace_of_head (by decide)]
  simp only [skipSpace_of_head hSpace]
  split
  · rename_i hEq
    cases hEq
    exact absurd rfl hClose
  · rw [hFirst]
    show (items fuel middle).bind _ = _
    rw [hItems]
    rfl

theorem value_object {m : List (Option Char) × Json} {ms : List (List (Option Char) × Json)}
    (hHead : ∃ tail, cs = '"' :: tail) (hFirst : member fuel cs = some (m, middle))
    (hMembers : members fuel middle = some (ms, rest)) :
    value (fuel + 1) ('{' :: cs) = some (.obj (m :: ms), rest) := by
  obtain ⟨tail, rfl⟩ := hHead
  rw [value, skipSpace_of_head (by decide)]
  simp only [skipSpace_of_head (show isSpace '"' = false by decide)]
  split
  · rename_i hEq
    cases hEq
  · rw [hFirst]
    show (members fuel middle).bind _ = _
    rw [hMembers]
    rfl

/-- With this much fuel every reader undoes its writer. -/
structure ReadsBack (fuel : Nat) : Prop where
  value : ∀ j rest, (render j).length ≤ fuel → Delimited rest →
    value fuel (render j ++ rest) = some (j, rest)
  items : ∀ js rest, (renderItems js).length ≤ fuel →
    items fuel (renderItems js ++ rest) = some (js, rest)
  member : ∀ m rest, (renderMember m).length ≤ fuel → Delimited rest →
    member fuel (renderMember m ++ rest) = some (m, rest)
  members : ∀ ms rest, (renderMembers ms).length ≤ fuel →
    members fuel (renderMembers ms ++ rest) = some (ms, rest)

section ReadsBack

variable {fuel : Nat} (ih : ReadsBack fuel)
include ih

theorem value_render (j : Json) (rest : List Char) (hFuel : (render j).length ≤ fuel + 1)
    (hRest : Delimited rest) : value (fuel + 1) (render j ++ rest) = some (j, rest) := by
  match j with
  | .null => rw [render]; rfl
  | .bool true => rw [render]; rfl
  | .bool false => rw [render]; rfl
  | .int i =>
    obtain ⟨c, cs, h, hc⟩ := intText_head i
    have hNumber := number_int i hRest
    rw [render]
    rw [h, cons_append] at hNumber ⊢
    rw [value_number fuel hc, hNumber]
  | .dec d =>
    obtain ⟨c, cs, h, hc⟩ := d.head
    have hNumber := number_dec d hRest
    rw [render]
    rw [h, cons_append] at hNumber ⊢
    rw [value_number fuel hc, hNumber]
  | .str syms =>
    rw [render, quote_append, value, skipSpace_of_head (by decide)]
    simp only [stringBody_rest]
    rfl
  | .arr [] => rw [render]; rfl
  | .arr (j :: js) =>
    rw [render] at hFuel ⊢
    simp only [length_cons, length_append] at hFuel
    rw [cons_append, append_assoc]
    obtain ⟨c, cs, h, hSpace, hClose, _⟩ := render_head j
    refine value_array ⟨c, _, by rw [h, cons_append], hSpace, hClose⟩
      (ih.value j _ (by omega) (delimited_renderItems js rest)) ?_
    exact ih.items js rest (by omega)
  | .obj [] => rw [render]; rfl
  | .obj (m :: ms) =>
    rw [render] at hFuel ⊢
    simp only [length_cons, length_append] at hFuel
    rw [cons_append, append_assoc]
    refine value_object ⟨_, by rw [renderMember, append_assoc, quote_append]⟩
      (ih.member m _ (by omega) (delimited_renderMembers ms rest)) ?_
    exact ih.members ms rest (by omega)

theorem items_render (js : List Json) (rest : List Char)
    (hFuel : (renderItems js).length ≤ fuel + 1) :
    items (fuel + 1) (renderItems js ++ rest) = some (js, rest) := by
  cases js with
  | nil => rw [renderItems]; rfl
  | cons j js =>
    rw [renderItems] at hFuel ⊢
    simp only [length_cons, length_append] at hFuel
    rw [cons_append, append_assoc, items, skipSpace_of_head (by decide)]
    simp only [ih.value j _ (by omega) (delimited_renderItems js rest)]
    show (items fuel (renderItems js ++ rest)).bind _ = _
    rw [ih.items js rest (by omega)]
    rfl

theorem member_render (m : List (Option Char) × Json) (rest : List Char)
    (hFuel : (renderMember m).length ≤ fuel + 1) (hRest : Delimited rest) :
    member (fuel + 1) (renderMember m ++ rest) = some (m, rest) := by
  obtain ⟨name, j⟩ := m
  have hQuote : 0 < (quote name).length := by simp [quote]
  rw [renderMember] at hFuel ⊢
  simp only [length_cons, length_append] at hFuel
  rw [append_assoc, quote_append, member, skipSpace_of_head (by decide)]
  simp only [stringBody_rest, cons_append, bind_eq_bind, bind_some]
  rw [skipSpace_of_head (by decide)]
  simp only [ih.value j rest (by omega) hRest, bind_some]

theorem members_render (ms : List (List (Option Char) × Json)) (rest : List Char)
    (hFuel : (renderMembers ms).length ≤ fuel + 1) :
    members (fuel + 1) (renderMembers ms ++ rest) = some (ms, rest) := by
  cases ms with
  | nil => rw [renderMembers]; rfl
  | cons m ms =>
    rw [renderMembers] at hFuel ⊢
    simp only [length_cons, length_append] at hFuel
    rw [cons_append, append_assoc, members, skipSpace_of_head (by decide)]
    simp only [ih.member m _ (by omega) (delimited_renderMembers ms rest)]
    show (members fuel (renderMembers ms ++ rest)).bind _ = _
    rw [ih.members ms rest (by omega)]
    rfl

end ReadsBack

theorem readsBack (fuel : Nat) : ReadsBack fuel := by
  induction fuel with
  | zero =>
    refine ⟨fun j rest hFuel => ?_, fun js rest hFuel => ?_, fun m rest hFuel => ?_,
      fun ms rest hFuel => ?_⟩
    · obtain ⟨c, cs, h, _⟩ := render_head j
      rw [h] at hFuel
      cases hFuel
    · cases js <;> rw [renderItems] at hFuel <;> cases hFuel
    · rw [renderMember, quote] at hFuel
      cases hFuel
    · cases ms <;> rw [renderMembers] at hFuel <;> cases hFuel
  | succ fuel ih =>
    exact ⟨value_render ih, items_render ih, member_render ih, members_render ih⟩

theorem parseText_render (j : Json) (hRest : Delimited rest) (hBlank : skipSpace rest = []) :
    parseText (render j ++ rest) = some j := by
  have hFuel : (render j).length ≤ (render j ++ rest).length + 1 := by
    rw [length_append]
    omega
  rw [parseText, (readsBack _).value j rest hFuel hRest]
  simp [hBlank]

@[simp] theorem parse_toBytes (j : Json) : parse j.toBytes = some j := by
  have h := parseText_render j delimited_nil rfl
  rw [append_nil] at h
  rw [parse, toBytes, symbols_encode, text_map_some, h]

@[simp] theorem parse_line (j : Json) : parse (j.toBytes ++ [10]) = some j := by
  have hBreak : ([10] : Bytes) = encode ['\n'] := by decide
  rw [parse, toBytes, hBreak, ← encode_append, symbols_encode, text_map_some]
  exact parseText_render j (delimited_cons (by decide)) (by decide)

theorem toBytes_injective : Function.Injective toBytes := by
  intro a b h
  have hParse := congrArg parse h
  simpa using hParse

theorem newline_escape (s : Option Char) : '\n' ∉ escape s := by
  have hShape := escaped s
  generalize escape s = written at *
  cases hShape with
  | letter e hBreak => simpa using hBreak.symm
  | unit a b c d n _ _ _ hBreak => simpa using hBreak
  | plain c _ _ _ hHigh =>
    rw [mem_singleton]
    rintro rfl
    exact hHigh (by decide)

theorem newline_quote (syms : List (Option Char)) : '\n' ∉ quote syms := by
  simp [quote, newline_escape]

theorem newline_numeric (h : ∀ c ∈ cs, isNumberChar c = true) : '\n' ∉ cs :=
  fun hMem => absurd (h _ hMem) (by decide)

mutual

theorem newline_render : ∀ j, '\n' ∉ render j
  | .null | .bool true | .bool false | .arr [] | .obj [] => by rw [render]; decide
  | .int i => by rw [render]; exact newline_numeric (intText_numeric i)
  | .dec d => by rw [render]; exact newline_numeric (all_eq_true.mp d.numeric)
  | .str text => by rw [render]; exact newline_quote text
  | .arr (j :: js) => by simp [render, newline_render j, newline_renderItems js]
  | .obj (m :: ms) => by simp [render, newline_renderMember m, newline_renderMembers ms]

theorem newline_renderItems : ∀ js, '\n' ∉ renderItems js
  | [] => by rw [renderItems]; decide
  | j :: js => by simp [renderItems, newline_render j, newline_renderItems js]

theorem newline_renderMember : ∀ m, '\n' ∉ renderMember m
  | (name, j) => by simp [renderMember, newline_quote, newline_render j]

theorem newline_renderMembers : ∀ ms, '\n' ∉ renderMembers ms
  | [] => by rw [renderMembers]; decide
  | m :: ms => by simp [renderMembers, newline_renderMember m, newline_renderMembers ms]

end

theorem newline_toBytes (j : Json) : (10 : UInt8) ∉ j.toBytes :=
  fun h => newline_render j (ascii_mem_encode (by decide) h)

end Json

end Wire
