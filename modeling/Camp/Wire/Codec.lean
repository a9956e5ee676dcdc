import Camp.Wire.JsonRoundTrip

/-!
# Records as JSON objects

A codec writes a value as a document and reads it back. What is read back is
the canonical form of the value: bytes that are no text are replaced and an
omitted field is the zero value. The codec of a record is assembled from its
fields, and the laws are proved for the assembly.
-/

namespace Wire

open Utf8 List Option

structure Codec (α : Type) where
  zero : α
  enc : α → Option Json
  dec : Json → Option α
  canon : α → α
  dec_enc : ∀ {a j}, enc a = some j → dec j = some (canon a)
  canon_canon : ∀ a, canon (canon a) = canon a

attribute [simp] Codec.canon_canon

namespace Codec

variable {α : Type} (c : Codec α)
variable {a : α} {s : Bytes}

def marshal (a : α) : Option Bytes := (c.enc a).map Json.toBytes

def unmarshal (s : Bytes) : Option α := (Json.parse s).bind c.dec

theorem unmarshal_marshal (h : c.marshal a = some s) : c.unmarshal s = some (c.canon a) := by
  obtain ⟨j, hEnc, rfl⟩ := map_eq_some_iff.mp h
  simp [unmarshal, c.dec_enc hEnc]

theorem unmarshal_line (h : c.marshal a = some s) : c.unmarshal (s ++ [10]) = some (c.canon a) := by
  obtain ⟨j, hEnc, rfl⟩ := map_eq_some_iff.mp h
  simp [unmarshal, c.dec_enc hEnc]

theorem newline_marshal (h : c.marshal a = some s) : (10 : UInt8) ∉ s := by
  obtain ⟨j, _, rfl⟩ := map_eq_some_iff.mp h
  exact Json.newline_toBytes j

theorem canon_eq_of_marshal_eq {b : α} (ha : c.marshal a = some s) (hb : c.marshal b = some s) :
    c.canon a = c.canon b :=
  Option.some.inj ((c.unmarshal_marshal ha).symm.trans (c.unmarshal_marshal hb))

def bool : Codec Bool where
  zero := false
  enc b := some (.bool b)
  dec
    | .null => some false
    | .bool b => some b
    | _ => none
  canon b := b
  dec_enc h := by cases h; rfl
  canon_canon _ := rfl

def string : Codec Bytes where
  zero := []
  enc s := some (.str (symbols s))
  dec
    | .null => some []
    | .str syms => some (encode (text syms))
    | _ => none
  canon := sanitize
  dec_enc h := by cases h; rfl
  canon_canon := sanitize_sanitize

def int64 : Codec Int64 where
  zero := 0
  enc n := some (.int n.toInt)
  dec
    | .null => some 0
    | .int i => if -2 ^ 63 ≤ i ∧ i < 2 ^ 63 then some (Int64.ofInt i) else none
    | _ => none
  canon n := n
  dec_enc {a _} h := by
    cases h
    have hLow := Int64.le_toInt a
    have hHigh := Int64.toInt_lt a
    simp only [Int64.ofInt_toInt, ite_eq_left_iff, reduceCtorEq, imp_false, not_not]
    exact ⟨hLow, hHigh⟩
  canon_canon _ := rfl

def uint64 : Codec UInt64 where
  zero := 0
  enc n := some (.int n.toNat)
  dec
    | .null => some 0
    | .int i => if 0 ≤ i ∧ i < 2 ^ 64 then some (UInt64.ofNat i.toNat) else none
    | _ => none
  canon n := n
  dec_enc {a _} h := by
    cases h
    have hHigh := UInt64.toNat_lt a
    show (if _ then _ else _) = _
    rw [if_pos (by omega)]
    simp
  canon_canon _ := rfl

def uint32 : Codec UInt32 where
  zero := 0
  enc n := some (.int n.toNat)
  dec
    | .null => some 0
    | .int i => if 0 ≤ i ∧ i < 2 ^ 32 then some (UInt32.ofNat i.toNat) else none
    | _ => none
  canon n := n
  dec_enc {a _} h := by
    cases h
    have hHigh := UInt32.toNat_lt a
    show (if _ then _ else _) = _
    rw [if_pos (by omega)]
    simp
  canon_canon _ := rfl

def pointer (notNull : ∀ a, c.enc a ≠ some .null) : Codec (Option α) where
  zero := none
  enc
    | none => some .null
    | some a => c.enc a
  dec
    | .null => some none
    | j => (c.dec j).map some
  canon := Option.map c.canon
  dec_enc {a j} h := by
    cases a with
    | none => cases h; rfl
    | some a =>
      have hDec := c.dec_enc h
      cases j with
      | null => exact absurd h (notNull a)
      | _ => simp [hDec]
  canon_canon a := by cases a <;> simp

theorem mapM_dec_enc (as : List α) (js : List Json) (h : as.mapM c.enc = some js) :
    js.mapM c.dec = some (as.map c.canon) := by
  induction as generalizing js with
  | nil => cases h; rfl
  | cons a as ih =>
    rw [mapM_cons] at h
    obtain ⟨j, hHead, h⟩ := bind_eq_some_iff.mp h
    obtain ⟨js', hTail, h⟩ := bind_eq_some_iff.mp h
    cases h
    rw [mapM_cons, c.dec_enc hHead, ih js' hTail]
    rfl

def slice : Codec (Option (List α)) where
  zero := none
  enc
    | none => some .null
    | some as => (as.mapM c.enc).map .arr
  dec
    | .null => some none
    | .arr js => (js.mapM c.dec).map some
    | _ => none
  canon := Option.map (List.map c.canon)
  dec_enc {a j} h := by
    cases a with
    | none => cases h; rfl
    | some as =>
      obtain ⟨js, hItems, rfl⟩ := map_eq_some_iff.mp h
      simp [c.mapM_dec_enc as js hItems]
  canon_canon a := by
    cases a with
    | none => rfl
    | some as => simp [Function.comp_def]

end Codec

instance : DecidableEq Json := fun _ _ => decidable_of_iff _ Json.toBytes_injective.eq_iff

/-- A document kept as it stands; it may be absent, and it may be no document. -/
inductive Raw where
  | empty
  | doc (j : Json)
  | malformed
  deriving DecidableEq

namespace Raw

def isEmpty : Raw → Bool
  | empty => true
  | _ => false

def valid : Raw → Bool
  | doc _ => true
  | _ => false

/-- A field that holds a document omits an absent one, so none is ever written. -/
def codec : Codec Raw where
  zero := empty
  enc
    | doc j => some j
    | _ => none
  dec j := some (doc j)
  canon r := r
  dec_enc {a j} h := by
    cases a <;> cases h
    rfl
  canon_canon _ := rfl

end Raw

/-- Names of the values of a closed string type. -/
class Named (E : Type) where
  name : E → String
  all : List E
  mem_all : ∀ e, e ∈ all
  nodup : (all.map fun e => lit (name e)).Nodup

namespace Named

variable {E : Type} [Named E]

def bytes (e : E) : Bytes := lit (name e)

theorem bytes_injective : Function.Injective (bytes : E → Bytes) := by
  intro a b h
  exact inj_on_of_nodup_map nodup (mem_all a) (mem_all b) h

end Named

/-- A string that is usually one of the names. -/
inductive Open (E : Type) [Named E] where
  | known (e : E)
  | other (s : Bytes) (unnamed : ∀ e : E, Named.bytes e ≠ s)

namespace Open

variable {E : Type} [Named E]

def toBytes : Open E → Bytes
  | known e => Named.bytes e
  | other s _ => s

def ofBytes (s : Bytes) : Open E :=
  match h : (Named.all : List E).find? fun e => Named.bytes e == s with
  | some e => known e
  | none => other s fun e => by simpa using List.find?_eq_none.mp h e (Named.mem_all e)

@[simp] theorem toBytes_ofBytes (s : Bytes) : (ofBytes s : Open E).toBytes = s := by
  unfold ofBytes
  split
  · rename_i e h
    have hName := List.find?_some h
    rw [beq_iff_eq] at hName
    exact hName
  · rfl

theorem toBytes_injective : Function.Injective (toBytes : Open E → Bytes) := by
  intro a b h
  cases a with
  | known e =>
    cases b with
    | known e' => rw [Named.bytes_injective h]
    | other s hs => exact absurd h (hs e)
  | other s hs =>
    cases b with
    | known e => exact absurd h.symm (hs e)
    | other t ht => cases h; rfl

instance : DecidableEq (Open E) := fun _ _ => decidable_of_iff _ toBytes_injective.eq_iff

def codec : Codec (Open E) where
  zero := ofBytes []
  enc v := Codec.string.enc v.toBytes
  dec j := (Codec.string.dec j).map ofBytes
  canon v := ofBytes (sanitize v.toBytes)
  dec_enc h := by rw [Codec.string.dec_enc h]; rfl
  canon_canon v := by simp

@[simp] theorem canon_known (e : E) : codec.canon (known e) = known e := by
  refine toBytes_injective ?_
  simp only [codec, toBytes_ofBytes]
  exact sanitize_encode _

end Open

/-- Which values of a field are left out when it may be omitted. -/
structure Omit {α : Type} (c : Codec α) where
  empty : α → Bool
  empty_zero : empty c.zero = true
  empty_canon : ∀ a, empty (c.canon a) = empty a

namespace Omit

variable {α : Type} {c : Codec α}

def keep (o : Omit c) (a : α) : α := if o.empty a then c.zero else c.canon a

@[simp] theorem keep_keep (o : Omit c) (a : α) : o.keep (o.keep a) = o.keep a := by
  unfold keep
  cases h : o.empty a
  · simp [o.empty_canon, h]
  · simp [o.empty_zero]

def pointer (notNull : ∀ a, c.enc a ≠ some .null) : Omit (c.pointer notNull) :=
  ⟨Option.isNone, rfl, fun a => by cases a <;> rfl⟩

def slice (c : Codec α) : Omit c.slice := ⟨fun s => (s.getD []).isEmpty, rfl, fun a => by
  cases a with
  | none => rfl
  | some as => cases as <;> rfl⟩

end Omit

/-- Types with a form on the wire. -/
class Wired (α : Type) where
  codec : Codec α

section Wired

variable {α : Type} [Wired α]
variable {a : α} {s : Bytes}

def canon (a : α) : α := Wired.codec.canon a

def marshal (a : α) : Option Bytes := Wired.codec.marshal a

def unmarshal (s : Bytes) : Option α := Wired.codec.unmarshal s

@[simp] theorem canon_canon (a : α) : canon (canon a) = canon a := Wired.codec.canon_canon a

theorem unmarshal_marshal (h : marshal a = some s) :
    unmarshal s = some (canon a) := Wired.codec.unmarshal_marshal h

theorem unmarshal_line (h : marshal a = some s) :
    unmarshal (s ++ [10]) = some (canon a) := Wired.codec.unmarshal_line h

theorem newline_marshal (h : marshal a = some s) : (10 : UInt8) ∉ s :=
  Wired.codec.newline_marshal h

end Wired

class Omittable (α : Type) [Wired α] where
  policy : Omit (Wired.codec : Codec α)

instance : Wired Bool := ⟨.bool⟩

instance : Wired Bytes := ⟨.string⟩

instance : Wired Int64 := ⟨.int64⟩

instance : Wired UInt64 := ⟨.uint64⟩

instance : Wired UInt32 := ⟨.uint32⟩

instance : Wired Raw := ⟨Raw.codec⟩

instance {E : Type} [Named E] : Wired (Open E) := ⟨Open.codec⟩

instance {α : Type} [Wired α] : Wired (Option (List α)) := ⟨Wired.codec.slice⟩

instance : Omittable Bool := ⟨⟨fun b => !b, rfl, fun _ => rfl⟩⟩

instance : Omittable Bytes := ⟨⟨List.isEmpty, rfl, fun s => by
  rw [Bool.eq_iff_iff, List.isEmpty_iff, List.isEmpty_iff]
  exact sanitize_eq_nil⟩⟩

instance : Omittable Int64 := ⟨⟨(· == 0), rfl, fun _ => rfl⟩⟩

instance : Omittable UInt64 := ⟨⟨(· == 0), rfl, fun _ => rfl⟩⟩

instance : Omittable UInt32 := ⟨⟨(· == 0), rfl, fun _ => rfl⟩⟩

instance : Omittable Raw := ⟨⟨Raw.isEmpty, rfl, fun _ => rfl⟩⟩

instance {α : Type} [Wired α] : Omittable (Option (List α)) := ⟨.slice _⟩

abbrev Name := List Char

abbrev Member := List (Option Char) × Json

def folded (cs : List Char) : List Char := cs.map Char.toLower

/-- Keys are matched up to the case of ASCII letters. -/
def matchesName (key : List (Option Char)) (n : Name) : Bool := folded (text key) == folded n

/-- The value of a field; of repeated keys the last one counts. -/
def lookup (n : Name) : List Member → Option Json
  | [] => none
  | m :: ms => (lookup n ms).or (if matchesName m.1 n then some m.2 else none)

def Apart (a b : Name) : Prop := folded a ≠ folded b

instance (a b : Name) : Decidable (Apart a b) := inferInstanceAs (Decidable (_ ≠ _))

theorem matchesName_self (n : Name) : matchesName (n.map some) n = true := by
  simp [matchesName]

theorem matchesName_apart {a b : Name} (h : Apart a b) : matchesName (a.map some) b = false := by
  simpa [matchesName, Apart] using h

theorem lookup_append (n : Name) (ms : List Member) (m : Member) :
    lookup n (ms ++ [m]) = if matchesName m.1 n then some m.2 else lookup n ms := by
  induction ms with
  | nil =>
    simp only [nil_append, lookup]
    split <;> rfl
  | cons m' ms ih =>
    rw [cons_append, lookup, ih, lookup]
    split <;> rfl

theorem lookup_eq_none {n : Name} {ms : List Member} (h : ∀ m ∈ ms, matchesName m.1 n = false) :
    lookup n ms = none := by
  induction ms with
  | nil => rfl
  | cons m ms ih =>
    rw [lookup, ih fun m' hm => h m' (mem_cons_of_mem _ hm), h m mem_cons_self]
    rfl

/-- Part of an object: what is written of a record `σ`, and what is read. -/
structure Fields (σ β : Type) where
  names : List Name
  zero : β
  write : σ → Option (List Member)
  read : List Member → Option β
  view : σ → β
  key_mem : ∀ {s ms}, write s = some ms → ∀ m ∈ ms, ∃ n ∈ names, m.1 = n.map some
  read_congr : ∀ {ms ms'}, (∀ n ∈ names, lookup n ms = lookup n ms') → read ms = read ms'
  read_write : ∀ {s ms}, names.Pairwise Apart → write s = some ms → read ms = some (view s)

namespace Fields

variable {σ α β : Type}

def none (b : β) : Fields σ β where
  names := []
  zero := b
  write _ := some []
  read _ := some b
  view _ := b
  key_mem h := by cases h; simp
  read_congr _ := rfl
  read_write _ _ := rfl

/-- One more field; an `empty` value is not written, and `kept` is what is read back. -/
def fieldUnless (f : Fields σ (α → β)) (n : String) (get : σ → α) (c : Codec α) (empty : α → Bool)
    (kept : α → α) (kept_eq : ∀ a, kept a = if empty a then c.zero else c.canon a) : Fields σ β where
  names := f.names ++ [n.toList]
  zero := f.zero c.zero
  write s := do
    let ms ← f.write s
    if empty (get s) then some ms
    else do
      let j ← c.enc (get s)
      some (ms ++ [(n.toList.map some, j)])
  read ms := do
    let g ← f.read ms
    let a ← match lookup n.toList ms with
      | some j => c.dec j
      | .none => some c.zero
    some (g a)
  view s := f.view s (kept (get s))
  key_mem {s ms} h := by
    obtain ⟨ms', hWrite, h⟩ := bind_eq_some_iff.mp h
    have hPrior : ∀ m ∈ ms', ∃ n' ∈ f.names ++ [n.toList], m.1 = n'.map some := by
      intro m hm
      obtain ⟨n', hn, hKey⟩ := f.key_mem hWrite m hm
      exact ⟨n', mem_append_left _ hn, hKey⟩
    split at h
    · cases h
      exact hPrior
    · obtain ⟨j, _, h⟩ := bind_eq_some_iff.mp h
      cases h
      intro m hm
      rcases mem_append.mp hm with hm | hm
      · exact hPrior m hm
      · rw [mem_singleton.mp hm]
        exact ⟨n.toList, by simp, rfl⟩
  read_congr {ms ms'} h := by
    have hPrior := f.read_congr fun n' hn => h n' (mem_append_left _ hn)
    have hLast := h n.toList (by simp)
    rw [hPrior, hLast]
  read_write {s ms} hApart h := by
    obtain ⟨hNames, _, hLast⟩ := pairwise_append.mp hApart
    obtain ⟨ms', hWrite, h⟩ := bind_eq_some_iff.mp h
    have hAway (m : Member) (hm : m ∈ ms') : matchesName m.1 n.toList = false := by
      obtain ⟨n', hn, hKey⟩ := f.key_mem hWrite m hm
      rw [hKey]
      exact matchesName_apart (hLast n' hn _ (by simp))
    split at h
    · rename_i hEmpty
      cases h
      simp [f.read_write hNames hWrite, lookup_eq_none hAway, kept_eq, hEmpty]
    · rename_i hEmpty
      obtain ⟨j, hEnc, h⟩ := bind_eq_some_iff.mp h
      cases h
      have hSame : f.read (ms' ++ [(n.toList.map some, j)]) = f.read ms' := by
        refine f.read_congr fun n' hn => ?_
        have hNot : Apart n.toList n' := fun hEq => hLast n' hn _ (by simp) hEq.symm
        rw [lookup_append, matchesName_apart hNot]
        rfl
      rw [hSame, f.read_write hNames hWrite, lookup_append, matchesName_self]
      simp [c.dec_enc hEnc, kept_eq, hEmpty]

def field [Wired α] (f : Fields σ (α → β)) (n : String) (get : σ → α) : Fields σ β :=
  f.fieldUnless n get Wired.codec (fun _ => false) Wired.codec.canon fun _ => rfl

/-- A field that is left out when it is empty. -/
def fieldOmit [Wired α] [Omittable α] (f : Fields σ (α → β)) (n : String) (get : σ → α) : Fields σ β :=
  f.fieldUnless n get Wired.codec Omittable.policy.empty Omittable.policy.keep fun _ => rfl

section View

variable (f : Fields σ (α → β)) (n : String) (get : σ → α) (s : σ)

@[simp] theorem view_none (b : β) : (none b : Fields σ β).view s = b := rfl

@[simp] theorem view_field [Wired α] :
    (f.field n get).view s = f.view s (Wired.codec.canon (get s)) := rfl

@[simp] theorem view_fieldOmit [Wired α] [Omittable α] :
    (f.fieldOmit n get).view s = f.view s (Omittable.policy.keep (get s)) := rfl

end View

section Access

variable {f : Fields σ (α → β)} {n : String} {get : σ → α} {c : Codec α} {empty : α → Bool}
  {kept : α → α} {kept_eq : ∀ a, kept a = if empty a then c.zero else c.canon a} {s : σ}
  {ms : List Member}

theorem exists_of_read {b : β} (h : (f.fieldUnless n get c empty kept kept_eq).read ms = some b) :
    ∃ g a, f.read ms = some g ∧ (a = c.zero ∨ ∃ j, c.dec j = some a) ∧ b = g a := by
  obtain ⟨g, hPrior, h⟩ := bind_eq_some_iff.mp h
  dsimp only at h
  split at h
  · rename_i j _
    obtain ⟨a, hField, h⟩ := bind_eq_some_iff.mp h
    cases h
    exact ⟨g, a, hPrior, .inr ⟨j, hField⟩, rfl⟩
  · cases h
    exact ⟨g, c.zero, hPrior, .inl rfl, rfl⟩

theorem lookup_of_write (n' : Name)
    (h : (f.fieldUnless n get c empty kept kept_eq).write s = some ms)
    (hApart : Apart n.toList n') : ∃ ms', f.write s = some ms' ∧ lookup n' ms = lookup n' ms' := by
  obtain ⟨ms', hWrite, h⟩ := bind_eq_some_iff.mp h
  refine ⟨ms', hWrite, ?_⟩
  split at h
  · cases h
    rfl
  · obtain ⟨j, _, h⟩ := bind_eq_some_iff.mp h
    cases h
    rw [lookup_append, matchesName_apart hApart]
    rfl

theorem lookup_of_write_field [Wired α] (h : (f.field n get).write s = some ms) :
    ∃ j, Wired.codec.enc (get s) = some j ∧ lookup n.toList ms = some j := by
  obtain ⟨ms', _, h⟩ := bind_eq_some_iff.mp h
  obtain ⟨j, hEnc, h⟩ := bind_eq_some_iff.mp h
  cases h
  exact ⟨j, hEnc, by rw [lookup_append, matchesName_self]; rfl⟩

end Access

end Fields

/-- A record whose fields have been listed in order. -/
class Record (σ : Type) where
  fields : Fields σ σ
  apart : fields.names.Pairwise Apart
  view_view : ∀ s, fields.view (fields.view s) = fields.view s

namespace Record

variable {σ : Type} [Record σ]

def codec : Codec σ where
  zero := fields.zero
  enc s := (fields.write s).map .obj
  dec
    | .null => some fields.zero
    | .obj ms => fields.read ms
    | _ => none
  canon := fields.view
  dec_enc {s j} h := by
    obtain ⟨ms, hWrite, rfl⟩ := map_eq_some_iff.mp h
    exact fields.read_write apart hWrite
  canon_canon := view_view

theorem enc_ne_null (s : σ) : codec.enc s ≠ some .null := by
  intro h
  obtain ⟨ms, _, h⟩ := map_eq_some_iff.mp h
  cases h

instance : Wired σ := ⟨codec⟩

instance : Wired (Option σ) := ⟨codec.pointer enc_ne_null⟩

instance : Omittable (Option σ) := ⟨.pointer enc_ne_null⟩

end Record

end Wire
