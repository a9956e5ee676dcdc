import Camp.Wire.Utf8

/-!
# JSON documents and their compact text

Strings hold symbols rather than characters: the encoder writes a byte that is
not UTF-8 as the escape for the replacement character, and that escape stays
distinguishable in a document. Reading back a written document is the identity.
-/

namespace Wire

open Utf8

def intText (i : Int) : List Char :=
  if i < 0 then '-' :: Nat.toDigits 10 i.natAbs else Nat.toDigits 10 i.natAbs

def readInt : List Char → Int
  | '-' :: digits => -(Nat.ofDigitChars 10 digits 0 : Int)
  | digits => Nat.ofDigitChars 10 digits 0

def isNumberChar (c : Char) : Bool := c.isDigit || c = '-' || c = '+' || c = '.' || c = 'e' || c = 'E'

def digitsThen (next : List Char → Bool) : List Char → Bool
  | [] => false
  | c :: cs => c.isDigit && (next cs || digitsThen next cs)

def exponentPart : List Char → Bool
  | [] => true
  | 'e' :: '+' :: cs | 'e' :: '-' :: cs | 'E' :: '+' :: cs | 'E' :: '-' :: cs => digitsThen List.isEmpty cs
  | 'e' :: cs | 'E' :: cs => digitsThen List.isEmpty cs
  | _ => false

def fractionPart : List Char → Bool
  | '.' :: cs => digitsThen exponentPart cs
  | cs => exponentPart cs

def unsignedNumber : List Char → Bool
  | '0' :: cs => fractionPart cs
  | cs => digitsThen fractionPart cs

def isNumber : List Char → Bool
  | '-' :: cs => unsignedNumber cs
  | cs => unsignedNumber cs

/-- A number literal that is not the plain text of an integer. -/
structure Decimal where
  text : List Char
  wellFormed : isNumber text = true
  notInt : intText (readInt text) ≠ text
  numeric : text.all isNumberChar = true
  deriving DecidableEq

inductive Json where
  | null
  | bool (b : Bool)
  | int (i : Int)
  | dec (d : Decimal)
  | str (text : List (Option Char))
  | arr (items : List Json)
  | obj (members : List (List (Option Char) × Json))

namespace Json

def hexDigit (n : Nat) : Char := Nat.digitChar n

/-- The encoder's escapes, with the ones that keep HTML safe. -/
def escape : Option Char → List Char
  | none => ['\\', 'u', 'f', 'f', 'f', 'd']
  | some c =>
    if c = '"' then ['\\', '"']
    else if c = '\\' then ['\\', '\\']
    else if c = '\n' then ['\\', 'n']
    else if c = '\r' then ['\\', 'r']
    else if c = '\t' then ['\\', 't']
    else if c.toNat = 8 then ['\\', 'b']
    else if c.toNat = 12 then ['\\', 'f']
    else if c.toNat < 0x20 ∨ c = '<' ∨ c = '>' ∨ c = '&' then
      ['\\', 'u', '0', '0', hexDigit (c.toNat / 16), hexDigit (c.toNat % 16)]
    else if c.toNat = 0x2028 then ['\\', 'u', '2', '0', '2', '8']
    else if c.toNat = 0x2029 then ['\\', 'u', '2', '0', '2', '9']
    else [c]

def quote (text : List (Option Char)) : List Char := '"' :: (text.flatMap escape ++ ['"'])

mutual

def render : Json → List Char
  | .null => ['n', 'u', 'l', 'l']
  | .bool true => ['t', 'r', 'u', 'e']
  | .bool false => ['f', 'a', 'l', 's', 'e']
  | .int i => intText i
  | .dec d => d.text
  | .str text => quote text
  | .arr [] => ['[', ']']
  | .arr (j :: js) => '[' :: (render j ++ renderItems js)
  | .obj [] => ['{', '}']
  | .obj (m :: ms) => '{' :: (renderMember m ++ renderMembers ms)

def renderItems : List Json → List Char
  | [] => [']']
  | j :: js => ',' :: (render j ++ renderItems js)

def renderMember : List (Option Char) × Json → List Char
  | (name, j) => quote name ++ ':' :: render j

def renderMembers : List (List (Option Char) × Json) → List Char
  | [] => ['}']
  | m :: ms => ',' :: (renderMember m ++ renderMembers ms)

end

def isSpace (c : Char) : Bool := c = ' ' || c = '\t' || c = '\n' || c = '\r'

def skipSpace (cs : List Char) : List Char := cs.dropWhile isSpace

def hexValue (c : Char) : Option Nat :=
  if '0' ≤ c ∧ c ≤ '9' then some (c.toNat - 48)
  else if 'a' ≤ c ∧ c ≤ 'f' then some (c.toNat - 87)
  else if 'A' ≤ c ∧ c ≤ 'F' then some (c.toNat - 55)
  else none

def hexFour (a b c d : Char) : Option Nat := do
  some ((((← hexValue a) * 16 + (← hexValue b)) * 16 + (← hexValue c)) * 16 + (← hexValue d))

def isSurrogate (n : Nat) : Bool := 0xD800 ≤ n && n < 0xE000

/-- The symbol of an escaped code unit; an unpaired surrogate is not a character. -/
def unitSymbol (n : Nat) : Option Char :=
  if n = 0xFFFD ∨ isSurrogate n then none else some (Char.ofNat n)

def unescape : List Char → Option (Option Char × List Char)
  | '"' :: rest => some (some '"', rest)
  | '\\' :: rest => some (some '\\', rest)
  | '/' :: rest => some (some '/', rest)
  | 'b' :: rest => some (some (Char.ofNat 8), rest)
  | 'f' :: rest => some (some (Char.ofNat 12), rest)
  | 'n' :: rest => some (some '\n', rest)
  | 'r' :: rest => some (some '\r', rest)
  | 't' :: rest => some (some '\t', rest)
  | 'u' :: a :: b :: c :: d :: rest => do
    let high ← hexFour a b c d
    match rest with
    | '\\' :: 'u' :: e :: f :: g :: h :: after =>
      match hexFour e f g h with
      | some low =>
        if 0xD800 ≤ high ∧ high < 0xDC00 ∧ 0xDC00 ≤ low ∧ low < 0xE000 then
          some (some (Char.ofNat (0x10000 + (high - 0xD800) * 0x400 + (low - 0xDC00))), after)
        else some (unitSymbol high, rest)
      | none => some (unitSymbol high, rest)
    | _ => some (unitSymbol high, rest)
  | _ => none

def stringBody : Nat → List Char → Option (List (Option Char) × List Char)
  | 0, _ => none
  | _ + 1, [] => none
  | fuel + 1, c :: cs =>
    if c = '"' then some ([], cs)
    else if c = '\\' then do
      let (s, rest) ← unescape cs
      let (text, rest) ← stringBody fuel rest
      some (s :: text, rest)
    else if c.toNat < 0x20 then none
    else do
      let (text, rest) ← stringBody fuel cs
      some (some c :: text, rest)

def number (cs : List Char) : Option (Json × List Char) :=
  let run := cs.takeWhile isNumberChar
  let rest := cs.dropWhile isNumberChar
  if hInt : intText (readInt run) = run then some (.int (readInt run), rest)
  else if h : isNumber run = true ∧ run.all isNumberChar = true then some (.dec ⟨run, h.1, hInt, h.2⟩, rest)
  else none

mutual

def value : Nat → List Char → Option (Json × List Char)
  | 0, _ => none
  | fuel + 1, cs =>
    match skipSpace cs with
    | 'n' :: 'u' :: 'l' :: 'l' :: rest => some (.null, rest)
    | 't' :: 'r' :: 'u' :: 'e' :: rest => some (.bool true, rest)
    | 'f' :: 'a' :: 'l' :: 's' :: 'e' :: rest => some (.bool false, rest)
    | '"' :: rest => do
      let (text, rest) ← stringBody rest.length rest
      some (.str text, rest)
    | '[' :: rest =>
      match skipSpace rest with
      | ']' :: rest => some (.arr [], rest)
      | rest => do
        let (j, rest) ← value fuel rest
        let (js, rest) ← items fuel rest
        some (.arr (j :: js), rest)
    | '{' :: rest =>
      match skipSpace rest with
      | '}' :: rest => some (.obj [], rest)
      | rest => do
        let (m, rest) ← member fuel rest
        let (ms, rest) ← members fuel rest
        some (.obj (m :: ms), rest)
    | cs => number cs

def items : Nat → List Char → Option (List Json × List Char)
  | 0, _ => none
  | fuel + 1, cs =>
    match skipSpace cs with
    | ']' :: rest => some ([], rest)
    | ',' :: rest => do
      let (j, rest) ← value fuel rest
      let (js, rest) ← items fuel rest
      some (j :: js, rest)
    | _ => none

def member : Nat → List Char → Option ((List (Option Char) × Json) × List Char)
  | 0, _ => none
  | fuel + 1, cs =>
    match skipSpace cs with
    | '"' :: rest => do
      let (name, rest) ← stringBody rest.length rest
      match skipSpace rest with
      | ':' :: rest =>
        let (j, rest) ← value fuel rest
        some ((name, j), rest)
      | _ => none
    | _ => none

def members : Nat → List Char → Option (List (List (Option Char) × Json) × List Char)
  | 0, _ => none
  | fuel + 1, cs =>
    match skipSpace cs with
    | '}' :: rest => some ([], rest)
    | ',' :: rest => do
      let (m, rest) ← member fuel rest
      let (ms, rest) ← members fuel rest
      some (m :: ms, rest)
    | _ => none

end

def parseText (cs : List Char) : Option Json := do
  let (j, rest) ← value (cs.length + 1) cs
  if skipSpace rest = [] then some j else none

def toBytes (j : Json) : Bytes := encode (render j)

def parse (s : Bytes) : Option Json := parseText (text (symbols s))

end Json

end Wire
