import Camp.Wire.Utf8

/-!
# Tokens of a shell text

Token recognition and quoting of the POSIX shell, byte by byte. A word keeps which of its bytes
are quoted and where an expansion begins; what an expansion stands for is not read.
-/

namespace Shell

open Wire Wire.Utf8 List

/-- A part of a word. `mark` is the beginning of a quotation, which may be empty. -/
inductive Atom where
  | mark
  | plain (b : UInt8)
  | quoted (b : UInt8)
  | expansion
  deriving DecidableEq

abbrev Word := List Atom

/-- The bytes of an operator are tokens of their own. -/
inductive Token where
  | word (w : Word)
  | operator (b : UInt8)
  | newline
  deriving DecidableEq

/-- Where the next byte stands. -/
inductive Mode where
  | normal
  | single
  | double
  | escaped
  | doubleEscaped
  | comment
  deriving DecidableEq

structure Lexer where
  tokens : List Token
  word : Option Word
  mode : Mode
  deriving DecidableEq

open Lexer

/-- What a byte means outside of quotes. -/
inductive Kind where
  | plain
  | blank
  | newline
  | single
  | double
  | backslash
  | expansion
  | operator
  | hash
  deriving DecidableEq

def kind (b : UInt8) : Kind :=
  if b = 32 ∨ b = 9 then .blank
  else if b = 10 then .newline
  else if b = 39 then .single
  else if b = 34 then .double
  else if b = 92 then .backslash
  else if b = 36 ∨ b = 96 then .expansion
  else if b = 38 ∨ b = 124 ∨ b = 59 ∨ b = 60 ∨ b = 62 ∨ b = 40 ∨ b = 41 then .operator
  else if b = 35 then .hash
  else .plain

namespace Lexer

def start : Lexer := ⟨[], none, .normal⟩

def push (lx : Lexer) (a : Atom) : Lexer := { lx with word := some (lx.word.getD [] ++ [a]) }

def close (lx : Lexer) : Lexer :=
  match lx.word with
  | none => lx
  | some w => { lx with tokens := lx.tokens ++ [.word w], word := none }

def emit (lx : Lexer) (t : Token) : Lexer := { lx with tokens := lx.tokens ++ [t] }

def enter (lx : Lexer) (mode : Mode) : Lexer := { lx with mode := mode }

def inNormal (lx : Lexer) (b : UInt8) : Lexer :=
  match kind b with
  | .plain => lx.push (.plain b)
  | .blank => lx.close
  | .newline => lx.close.emit .newline
  | .single => (lx.push .mark).enter .single
  | .double => (lx.push .mark).enter .double
  | .backslash => lx.enter .escaped
  | .expansion => lx.push .expansion
  | .operator => lx.close.emit (.operator b)
  -- a comment begins only where a word could begin
  | .hash => if lx.word = none then lx.enter .comment else lx.push (.plain b)

def inDouble (lx : Lexer) (b : UInt8) : Lexer :=
  match kind b with
  | .double => lx.enter .normal
  | .backslash => lx.enter .doubleEscaped
  | .expansion => lx.push .expansion
  | _ => lx.push (.quoted b)

def step (lx : Lexer) (b : UInt8) : Lexer :=
  match lx.mode with
  | .normal => lx.inNormal b
  | .single => if b = 39 then lx.enter .normal else lx.push (.quoted b)
  | .double => lx.inDouble b
  -- a line is continued after a backslash
  | .escaped => if b = 10 then lx.enter .normal else ((lx.push .mark).push (.quoted b)).enter .normal
  | .doubleEscaped =>
    if b = 10 then lx.enter .double
    else if kind b = .double ∨ kind b = .backslash ∨ kind b = .expansion then (lx.push (.quoted b)).enter .double
    else ((lx.push (.quoted 92)).push (.quoted b)).enter .double
  | .comment => if b = 10 then (lx.emit .newline).enter .normal else lx

def feed (lx : Lexer) (text : Bytes) : Lexer := text.foldl step lx

end Lexer

/-- The tokens of a text whose quotations are closed. -/
def tokenize (text : Bytes) : Option (List Token) :=
  let lx := start.feed text
  if lx.mode = .normal ∨ lx.mode = .comment then some lx.close.tokens else none

section Commands

/-- The byte outside of quotes is neither a pattern nor a tilde. -/
def inert (b : UInt8) : Bool := b ≠ 42 && b ≠ 63 && b ≠ 91 && b ≠ 126

def Atom.text : Atom → Option Bytes
  | .mark => some []
  | .plain b => if inert b then some [b] else none
  | .quoted b => some [b]
  | .expansion => none

/-- What a word without expansions stands for. -/
def Word.text (w : Word) : Option Bytes := (w.mapM Atom.text).map List.flatten

def reserved : List Bytes :=
  ["if", "then", "else", "elif", "fi", "do", "done", "case", "esac", "while", "until", "for", "in", "!"].map lit ++
    [[123], [125]]

def nameByte (b : UInt8) : Bool := (65 ≤ b && b ≤ 90) || (97 ≤ b && b ≤ 122) || (48 ≤ b && b ≤ 57) || b = 95

def Atom.isName : Atom → Bool
  | .plain b => nameByte b
  | _ => false

/-- A word that begins a command as its name: neither a reserved word nor an assignment. -/
def Word.isName (w : Word) : Bool :=
  !reserved.any (fun r => w = r.map .plain) && (w.dropWhile Atom.isName).head? != some (.plain 61)

def Token.text : Token → Option Bytes
  | .word w => w.text
  | _ => none

/-- The words of a text that is one simple command, without expansions, redirections, operators,
comments, patterns and assignments. -/
def simpleCommand (text : Bytes) : Option (List Bytes) :=
  match tokenize text with
  | some (.word name :: more) => if name.isName then (Token.word name :: more).mapM Token.text else none
  | _ => none

end Commands

section Quotation

/-- The text in single quotes, each of its own ones in double quotes. -/
def quotation (text : Bytes) : Bytes :=
  39 :: (text.flatMap (fun b => if b = 39 then [39, 34, 39, 34, 39] else [b]) ++ [39])

def quotedAtoms (text : Bytes) : Word :=
  text.flatMap fun b => if b = 39 then [.mark, .quoted b, .mark] else [.quoted b]

variable {tokens : List Token}

theorem Lexer.feed_append (lx : Lexer) (s t : Bytes) : lx.feed (s ++ t) = (lx.feed s).feed t := foldl_append ..

theorem Lexer.feed_cons (lx : Lexer) (b : UInt8) (s : Bytes) : lx.feed (b :: s) = (lx.step b).feed s := rfl

theorem feed_inside (text : Bytes) (w : Word) :
    feed ⟨tokens, some w, .single⟩ (text.flatMap fun b => if b = 39 then [39, 34, 39, 34, 39] else [b]) =
      ⟨tokens, some (w ++ quotedAtoms text), .single⟩ := by
  induction text generalizing w with
  | nil => simp [quotedAtoms, feed]
  | cons b text ih =>
    rw [flatMap_cons, feed_append]
    by_cases hQuote : b = 39
    · subst hQuote
      rw [if_pos rfl]
      -- the quotation is left, one quote is quoted on its own, and the quotation is entered again
      have hStep : feed ⟨tokens, some w, .single⟩ [39, 34, 39, 34, 39] =
          ⟨tokens, some (w ++ [.mark] ++ [.quoted 39] ++ [.mark]), .single⟩ := rfl
      rw [hStep, ih]
      simp [quotedAtoms]
    · have hStep : feed ⟨tokens, some w, .single⟩ [b] = ⟨tokens, some (w ++ [.quoted b]), .single⟩ :=
        if_neg hQuote
      rw [if_neg hQuote, hStep, ih]
      simp [quotedAtoms, hQuote]

/-- A quotation adds its text to the word, whatever the text is. -/
theorem feed_quotation (text : Bytes) (w : Option Word) :
    feed ⟨tokens, w, .normal⟩ (quotation text) =
      ⟨tokens, some (w.getD [] ++ .mark :: quotedAtoms text), .normal⟩ := by
  have hOpen : step ⟨tokens, w, .normal⟩ 39 = ⟨tokens, some (w.getD [] ++ [.mark]), .single⟩ := rfl
  rw [quotation, feed_cons, hOpen, feed_append, feed_inside]
  simp [feed, step, enter]

theorem text_append {v w : Word} {s t : Bytes} (hv : v.text = some s) (hw : w.text = some t) :
    Word.text (v ++ w) = some (s ++ t) := by
  obtain ⟨ss, hss, rfl⟩ := Option.map_eq_some_iff.mp hv
  obtain ⟨ts, hts, rfl⟩ := Option.map_eq_some_iff.mp hw
  simp [Word.text, mapM_append, hss, hts]

theorem text_quotedAtoms (text : Bytes) : Word.text (quotedAtoms text) = some text := by
  induction text with
  | nil => rfl
  | cons b text ih =>
    by_cases hQuote : b = 39
    · have hAtoms : quotedAtoms (b :: text) = [.mark, .quoted b, .mark] ++ quotedAtoms text := by
        simp [quotedAtoms, hQuote]
      have hFirst : Word.text [.mark, .quoted b, .mark] = some [b] := rfl
      rw [hAtoms]
      exact text_append hFirst ih
    · have hAtoms : quotedAtoms (b :: text) = [.quoted b] ++ quotedAtoms text := by simp [quotedAtoms, hQuote]
      have hFirst : Word.text [.quoted b] = some [b] := rfl
      rw [hAtoms]
      exact text_append hFirst ih

theorem text_mark_quotedAtoms (text : Bytes) : Word.text (.mark :: quotedAtoms text) = some text := by
  have hMark : Word.text [.mark] = some [] := rfl
  exact text_append hMark (text_quotedAtoms text)

theorem feed_plain {text : Bytes} (h : ∀ b ∈ text, kind b = .plain) (w : Word) :
    feed ⟨tokens, some w, .normal⟩ text = ⟨tokens, some (w ++ text.map .plain), .normal⟩ := by
  induction text generalizing w with
  | nil => simp [feed]
  | cons b text ih =>
    have hStep : step ⟨tokens, some w, .normal⟩ b = ⟨tokens, some (w ++ [.plain b]), .normal⟩ := by
      simp [step, inNormal, h b mem_cons_self, push]
    rw [feed_cons, hStep, ih fun b hb => h b (mem_cons_of_mem _ hb)]
    simp

end Quotation

section Pieces

/-- A word that is written with a plain beginning and a quoted end. -/
structure Piece where
  plain : Bytes
  quoted : Option Bytes
  deriving DecidableEq

namespace Piece

def source (p : Piece) : Bytes := p.plain ++ p.quoted.elim [] quotation

def word (p : Piece) : Word := p.plain.map .plain ++ p.quoted.elim [] fun text => .mark :: quotedAtoms text

def value (p : Piece) : Bytes := p.plain ++ p.quoted.getD []

def Valid (p : Piece) : Prop := (∀ b ∈ p.plain, kind b = .plain ∧ inert b = true) ∧ (p.plain = [] → p.quoted ≠ none)

instance (p : Piece) : Decidable p.Valid := inferInstanceAs (Decidable (_ ∧ _))

variable {p : Piece} {tokens : List Token}

theorem feed_source (h : p.Valid) : feed ⟨tokens, none, .normal⟩ p.source = ⟨tokens, some p.word, .normal⟩ := by
  obtain ⟨plain, quoted⟩ := p
  have hEnd (w : Word) : feed ⟨tokens, some w, .normal⟩ (quoted.elim [] quotation) =
      ⟨tokens, some (w ++ quoted.elim [] fun text => .mark :: quotedAtoms text), .normal⟩ := by
    cases quoted with
    | none => simp [feed]
    | some text => exact feed_quotation text (some w)
  cases plain with
  | nil =>
    obtain ⟨text, rfl⟩ := Option.ne_none_iff_exists'.mp (h.2 rfl)
    exact feed_quotation text none
  | cons b rest =>
    have hFirst : step ⟨tokens, none, .normal⟩ b = ⟨tokens, some [.plain b], .normal⟩ := by
      simp [step, inNormal, (h.1 b mem_cons_self).1, push]
    have hRest : ∀ b ∈ rest, kind b = .plain := fun b hb => (h.1 b (mem_cons_of_mem _ hb)).1
    rw [source, feed_append, feed_cons, hFirst, feed_plain hRest, hEnd]
    rfl

theorem text_plain {text : Bytes} (h : ∀ b ∈ text, inert b = true) : Word.text (text.map .plain) = some text := by
  induction text with
  | nil => rfl
  | cons b text ih =>
    have hFirst : Word.text [.plain b] = some [b] := by simp [Word.text, Atom.text, h b mem_cons_self]
    exact text_append hFirst (ih fun b hb => h b (mem_cons_of_mem _ hb))

theorem text_word (h : p.Valid) : p.word.text = some p.value := by
  refine text_append (text_plain fun b hb => (h.1 b hb).2) ?_
  cases p.quoted with
  | none => rfl
  | some text => exact text_mark_quotedAtoms text

/-- Words with a blank between them. -/
theorem feed_pieces (pieces : List Piece) (hNonempty : pieces ≠ []) (hValid : ∀ p ∈ pieces, p.Valid) :
    (feed ⟨tokens, none, .normal⟩ ([32].intercalate (pieces.map source))).close =
      ⟨tokens ++ pieces.map fun p => .word p.word, none, .normal⟩ := by
  induction pieces generalizing tokens with
  | nil => exact absurd rfl hNonempty
  | cons p rest ih =>
    have hFirst := hValid p mem_cons_self
    cases rest with
    | nil =>
      rw [map_singleton, intercalate_singleton, feed_source hFirst]
      rfl
    | cons p' rest =>
      have hSplit : [32].intercalate ((p :: p' :: rest).map source) =
          p.source ++ ([32] ++ [32].intercalate ((p' :: rest).map source)) := by
        simp [intercalate_cons_cons]
      have hBlank : feed ⟨tokens, some p.word, .normal⟩ [32] = ⟨tokens ++ [.word p.word], none, .normal⟩ := rfl
      rw [hSplit, feed_append, feed_source hFirst, feed_append, hBlank,
        ih (by simp) fun p hp => hValid p (mem_cons_of_mem _ hp)]
      simp

theorem mapM_text {pieces : List Piece} (hValid : ∀ p ∈ pieces, p.Valid) :
    (pieces.map fun p => Token.word p.word).mapM Token.text = some (pieces.map value) := by
  induction pieces with
  | nil => rfl
  | cons p rest ih =>
    rw [map_cons, mapM_cons, ih fun p hp => hValid p (mem_cons_of_mem _ hp), Token.text,
      text_word (hValid p mem_cons_self)]
    rfl

/-- What is written in pieces is one simple command. -/
theorem simpleCommand_pieces {p : Piece} {rest : List Piece} (hValid : ∀ q ∈ p :: rest, q.Valid)
    (hName : p.word.isName = true) :
    simpleCommand ([32].intercalate ((p :: rest).map source)) = some ((p :: rest).map value) := by
  have hFeed := @feed_pieces [] (p :: rest) (by simp) hValid
  have hMode : (start.feed ([32].intercalate ((p :: rest).map source))).mode = .normal := by
    have hClosed := congrArg mode hFeed
    rw [close] at hClosed
    split at hClosed <;> exact hClosed
  have hTokens : tokenize ([32].intercalate ((p :: rest).map source)) =
      some ((p :: rest).map fun p => .word p.word) := by
    rw [tokenize, if_pos (.inl hMode)]
    exact congrArg (some ·.tokens) hFeed
  have hText := mapM_text hValid
  rw [simpleCommand, hTokens]
  simp only [map_cons, hName, if_true]
  exact hText

theorem isName_of_plain_eq_nil (h : p.Valid) (hPlain : p.plain = []) : p.word.isName = true := by
  obtain ⟨text, hQuoted⟩ := Option.ne_none_iff_exists'.mp (h.2 hPlain)
  have hWord : p.word = .mark :: quotedAtoms text := by simp [word, hPlain, hQuoted]
  have hReserved : reserved.any (fun r => .mark :: quotedAtoms text = r.map Atom.plain) = false := by
    refine any_eq_false.mpr fun r _ => ?_
    cases r <;> simp
  rw [hWord, Word.isName, hReserved]
  rfl

end Piece

end Pieces

end Shell
