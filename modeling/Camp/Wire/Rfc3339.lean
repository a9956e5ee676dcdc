import Mathlib.Data.List.DropRight
import Mathlib.Data.List.GetD
import Camp.Wire.Codec

/-!
# Instants and their RFC 3339 text

An instant is counted in nanoseconds from the start of year 1, and is shown in
a zone. The text has no room for the seconds of a zone offset, nor for a year
of more than four digits: writing fails on the latter, and reading back moves
the instant by the former.
-/

namespace Wire

open Utf8 List Option

structure Time where
  nanos : Int
  zone : Int
  deriving DecidableEq

namespace Time

def zero : Time := ⟨0, 0⟩

def isZero (t : Time) : Bool := t.nanos == 0

def after (t u : Time) : Bool := u.nanos < t.nanos

def add (t : Time) (nanos : Int) : Time := { t with nanos := t.nanos + nanos }

def utc (t : Time) : Time := { t with zone := 0 }

end Time

namespace Calendar

variable {p : Position}

def isLeap (year : Nat) : Bool := year % 4 = 0 && (year % 100 ≠ 0 || year % 400 = 0)

def monthLengths (leap : Bool) : List Nat :=
  [31, if leap then 29 else 28, 31, 30, 31, 30, 31, 31, 30, 31, 30, 31]

def daysBefore (year : Nat) : Nat := 365 * year + (year + 3) / 4 - (year + 99) / 100 + (year + 399) / 400

/-- A day in the cycle of 400 years. Cycles are counted so that the long
century and the leap year come last. -/
structure Position where
  cycle : Nat
  century : Nat
  quad : Nat
  year : Nat
  rest : Nat

def position (day : Nat) : Position :=
  let day := day + 145731
  let century := min 3 (day % 146097 / 36524)
  let inCentury := day % 146097 - 36524 * century
  let year := min 3 (inCentury % 1461 / 365)
  ⟨day / 146097, century, inCentury / 1461, year, inCentury % 1461 - 365 * year⟩

def Position.absoluteYear (p : Position) : Nat :=
  400 * p.cycle + 100 * p.century + 4 * p.quad + p.year - 399

def yearOf (day : Nat) : Nat := (position day).absoluteYear

def yearDay (day : Nat) : Nat := (position day).rest

def monthOf : List Nat → Nat → Nat × Nat
  | [], n => (0, n)
  | length :: lengths, n =>
    if n < length then (0, n)
    else ((monthOf lengths (n - length)).1 + 1, (monthOf lengths (n - length)).2)

theorem position_spec (day : Nat) :
    let p := position day
    day + 145731 = 146097 * p.cycle + 36524 * p.century + 1461 * p.quad + 365 * p.year + p.rest ∧
      p.century ≤ 3 ∧ p.quad ≤ 24 ∧ p.year ≤ 3 ∧
      (p.rest < 365 ∨ p.rest = 365 ∧ p.year = 3 ∧ (p.quad = 24 → p.century = 3)) := by
  intro p
  have h : p = position day := rfl
  unfold position at h
  dsimp only at h
  generalize day + 145731 = d at *
  have hCycle : p.cycle = d / 146097 := by rw [h]
  have hCentury : p.century = min 3 (d % 146097 / 36524) := by rw [h]
  have hQuad : p.quad = (d % 146097 - 36524 * p.century) / 1461 := by rw [h]
  have hYear : p.year = min 3 ((d % 146097 - 36524 * p.century) % 1461 / 365) := by rw [h]
  have hRest : p.rest = (d % 146097 - 36524 * p.century) % 1461 - 365 * p.year := by rw [h]
  clear h
  generalize p.cycle = cycle at *
  omega

theorem Position.absoluteYear_add (h : 1 ≤ p.cycle ∨ p.century = 3 ∧ p.quad = 24 ∧ p.year = 3) :
    p.absoluteYear + 399 = 400 * p.cycle + 100 * p.century + 4 * p.quad + p.year := by
  unfold absoluteYear
  omega

theorem Position.daysBefore_absoluteYear (hCentury : p.century ≤ 3) (hQuad : p.quad ≤ 24) (hYear : p.year ≤ 3)
    (h : 1 ≤ p.cycle ∨ p.century = 3 ∧ p.quad = 24 ∧ p.year = 3) :
    daysBefore p.absoluteYear + 145731 =
      146097 * p.cycle + 36524 * p.century + 1461 * p.quad + 365 * p.year := by
  have hAdd := absoluteYear_add h
  generalize p.absoluteYear = y at *
  have hCycles : (y + 399) / 400 = p.cycle := by omega
  have hCenturies : (y + 99) / 100 + 3 = 4 * p.cycle + p.century := by omega
  have hQuads : (y + 3) / 4 + 99 = 100 * p.cycle + 25 * p.century + p.quad := by omega
  unfold daysBefore
  omega

theorem Position.isLeap_absoluteYear (hCentury : p.century ≤ 3) (hQuad : p.quad ≤ 24) (hYear : p.year ≤ 3)
    (h : 1 ≤ p.cycle ∨ p.century = 3 ∧ p.quad = 24 ∧ p.year = 3) :
    isLeap p.absoluteYear = true ↔ p.year = 3 ∧ (p.quad = 24 → p.century = 3) := by
  have hAdd := absoluteYear_add h
  generalize p.absoluteYear = y at *
  simp only [isLeap, Bool.and_eq_true, Bool.or_eq_true, decide_eq_true_eq]
  omega

theorem sum_monthLengths (leap : Bool) : (monthLengths leap).sum = if leap then 366 else 365 := by
  cases leap <;> rfl

theorem yearOf_spec (day : Nat) :
    daysBefore (yearOf day) + yearDay day = day ∧
      yearDay day < (monthLengths (isLeap (yearOf day))).sum := by
  obtain ⟨hDay, hCentury, hQuad, hYear, hRest⟩ := position_spec day
  have hLate : 1 ≤ (position day).cycle ∨
      (position day).century = 3 ∧ (position day).quad = 24 ∧ (position day).year = 3 := by omega
  have hStart := Position.daysBefore_absoluteYear hCentury hQuad hYear hLate
  have hLeap := Position.isLeap_absoluteYear hCentury hQuad hYear hLate
  unfold yearOf yearDay
  refine ⟨by omega, ?_⟩
  rw [sum_monthLengths]
  split_ifs with h
  · omega
  · rw [hLeap] at h
    omega

theorem yearOf_lt {day : Nat} (h : day < 3652425) : yearOf day < 10000 := by
  have hSpec := (yearOf_spec day).1
  unfold daysBefore at hSpec
  omega

theorem monthOf_spec (lengths : List Nat) (n : Nat) (h : n < lengths.sum) :
    (monthOf lengths n).1 < lengths.length ∧
      (monthOf lengths n).2 < lengths.getD (monthOf lengths n).1 0 ∧
      (lengths.take (monthOf lengths n).1).sum + (monthOf lengths n).2 = n := by
  induction lengths generalizing n with
  | nil => cases h
  | cons length lengths ih =>
    unfold monthOf
    split_ifs with hHere
    · simp [hHere]
    · rw [sum_cons] at h
      obtain ⟨hMonth, hDay, hSum⟩ := ih (n - length) (by omega)
      simp only [length_cons, getD_cons_succ, take_succ_cons, sum_cons]
      omega

end Calendar

namespace Rfc3339

open Calendar

variable {rest : List Char}

def nanosPerSecond : Nat := 1000000000

def nanosPerDay : Nat := 86400 * nanosPerSecond

def lastDay : Nat := 3652425

def fixed : Nat → Nat → List Char
  | 0, _ => []
  | w + 1, n => Nat.digitChar (n / 10 ^ w % 10) :: fixed w (n % 10 ^ w)

def trimZeros (cs : List Char) : List Char := cs.rdropWhile (· == '0')

def fraction (nanos : Nat) : List Char := if nanos = 0 then [] else '.' :: trimZeros (fixed 9 nanos)

def zoneText (zone : Int) : List Char :=
  let minutes := zone.tdiv 60
  if zone = 0 then ['Z']
  else (if minutes < 0 then '-' else '+') ::
    (fixed 2 (minutes.natAbs / 60) ++ ':' :: fixed 2 (minutes.natAbs % 60))

def dateText (day : Nat) : List Char :=
  let month := monthOf (monthLengths (isLeap (yearOf day))) (yearDay day)
  fixed 4 (yearOf day) ++ '-' :: (fixed 2 (month.1 + 1) ++ '-' :: fixed 2 (month.2 + 1))

def clockText (nanos : Nat) : List Char :=
  let seconds := nanos / nanosPerSecond
  fixed 2 (seconds / 3600) ++ ':' :: (fixed 2 (seconds / 60 % 60) ++
    ':' :: (fixed 2 (seconds % 60) ++ fraction (nanos % nanosPerSecond)))

/-- Nanoseconds on the clock of the zone, from the start of year 0. -/
def shown (t : Time) : Int := t.nanos + t.zone * nanosPerSecond + 366 * nanosPerDay

def format (t : Time) : Option (List Char) :=
  if 0 ≤ shown t ∧ shown t < lastDay * nanosPerDay ∧ (t.zone.tdiv 60).natAbs < 1440 then
    some (dateText ((shown t).toNat / nanosPerDay) ++ 'T' ::
      (clockText ((shown t).toNat % nanosPerDay) ++ zoneText t.zone))
  else none

def digits : Nat → Nat → List Char → Option (Nat × List Char)
  | 0, acc, cs => some (acc, cs)
  | _ + 1, _, [] => none
  | w + 1, acc, c :: cs => if c.isDigit then digits w (acc * 10 + (c.toNat - 48)) cs else none

def expect (c : Char) : List Char → Option (List Char)
  | [] => none
  | d :: cs => if d = c then some cs else none

def readFraction : List Char → Option (Nat × List Char)
  | '.' :: cs =>
    let run := cs.takeWhile Char.isDigit
    if run = [] then none
    else (digits 9 0 (run ++ replicate 9 '0')).map fun p => (p.1, cs.dropWhile Char.isDigit)
  | cs => some (0, cs)

def readZone (cs : List Char) : Option Int :=
  if cs = ['Z'] then some 0
  else match cs with
    | [] => none
    | sign :: cs => do
      let (hours, cs) ← digits 2 0 cs
      let cs ← expect ':' cs
      let (minutes, cs) ← digits 2 0 cs
      if cs = [] ∧ hours < 24 ∧ minutes < 60 then
        if sign = '+' then some (60 * (60 * hours + minutes))
        else if sign = '-' then some (-(60 * (60 * hours + minutes)))
        else none
      else none

def readDate (cs : List Char) : Option (Nat × List Char) := do
  let (year, cs) ← digits 4 0 cs
  let cs ← expect '-' cs
  let (month, cs) ← digits 2 0 cs
  let cs ← expect '-' cs
  let (day, cs) ← digits 2 0 cs
  let lengths := monthLengths (isLeap year)
  if 1 ≤ month ∧ 1 ≤ day ∧ day ≤ lengths.getD (month - 1) 0 then
    some (daysBefore year + (lengths.take (month - 1)).sum + (day - 1), cs)
  else none

def readClock (cs : List Char) : Option (Nat × List Char) := do
  let (hours, cs) ← digits 2 0 cs
  let cs ← expect ':' cs
  let (minutes, cs) ← digits 2 0 cs
  let cs ← expect ':' cs
  let (seconds, cs) ← digits 2 0 cs
  let (nanos, cs) ← readFraction cs
  if hours < 24 ∧ minutes < 60 ∧ seconds < 60 then
    some ((hours * 3600 + minutes * 60 + seconds) * nanosPerSecond + nanos, cs)
  else none

def parse (cs : List Char) : Option Time := do
  let (day, cs) ← readDate cs
  let cs ← expect 'T' cs
  let (clock, cs) ← readClock cs
  let zone ← readZone cs
  some ⟨day * nanosPerDay + clock - 366 * nanosPerDay - zone * nanosPerSecond, zone⟩

theorem digit_spec : ∀ d < 10, (Nat.digitChar d).isDigit = true ∧ (Nat.digitChar d).toNat - 48 = d := by
  decide

theorem digits_fixed (w n acc : Nat) (rest : List Char) (h : n < 10 ^ w) :
    digits w acc (fixed w n ++ rest) = some (acc * 10 ^ w + n, rest) := by
  induction w generalizing n acc with
  | zero =>
    simp only [pow_zero, Nat.lt_one_iff] at h
    simp [fixed, digits, h]
  | succ w ih =>
    have hPos : 0 < 10 ^ w := by positivity
    have hLead : n / 10 ^ w < 10 := by
      rw [Nat.div_lt_iff_lt_mul hPos]
      rw [pow_succ] at h
      omega
    obtain ⟨hDigit, hValue⟩ := digit_spec (n / 10 ^ w) hLead
    have hSum := Nat.div_add_mod n (10 ^ w)
    rw [fixed, cons_append, digits, Nat.mod_eq_of_lt hLead, if_pos hDigit, hValue,
      ih _ _ (Nat.mod_lt _ hPos)]
    congr 2
    rw [pow_succ]
    nlinarith

theorem fixed_length (w n : Nat) : (fixed w n).length = w := by
  induction w generalizing n with
  | zero => rfl
  | succ w ih => rw [fixed, length_cons, ih]

theorem fixed_digits (w n : Nat) : ∀ c ∈ fixed w n, c.isDigit = true := by
  induction w generalizing n with
  | zero => simp [fixed]
  | succ w ih =>
    intro c hc
    rcases mem_cons.mp hc with rfl | hc
    · exact (digit_spec _ (Nat.mod_lt _ (by decide))).1
    · exact ih _ c hc

theorem expect_cons (c : Char) (cs : List Char) : expect c (c :: cs) = some cs := if_pos rfl

theorem trimZeros_append (cs : List Char) :
    ∃ k, cs = trimZeros cs ++ replicate k '0' := by
  have hZeros := eq_replicate_of_mem (a := '0') fun c hc => by
    simpa using mem_rtakeWhile_imp (p := (· == '0')) (l := cs) hc
  refine ⟨(cs.rtakeWhile (· == '0')).length, ?_⟩
  rw [← hZeros]
  exact rdropWhile_append_rtakeWhile.symm

/-- Text after the clock: it continues neither the seconds nor the fraction. -/
def Closed (rest : List Char) : Prop := ∀ c cs, rest = c :: cs → c.isDigit = false ∧ c ≠ '.'

theorem takeWhile_digits {run : List Char} (hRun : ∀ c ∈ run, c.isDigit = true) (hRest : Closed rest) :
    (run ++ rest).takeWhile Char.isDigit = run ∧ (run ++ rest).dropWhile Char.isDigit = rest := by
  induction run with
  | nil =>
    cases rest with
    | nil => exact ⟨rfl, rfl⟩
    | cons c cs => simp [(hRest c cs rfl).1]
  | cons c run ih =>
    obtain ⟨hTake, hDrop⟩ := ih fun d hd => hRun d (mem_cons_of_mem _ hd)
    simp [hRun c mem_cons_self, hTake, hDrop]

theorem readFraction_fraction {nanos : Nat} (hNanos : nanos < nanosPerSecond) (hRest : Closed rest) :
    readFraction (fraction nanos ++ rest) = some (nanos, rest) := by
  unfold fraction
  split_ifs with hZero
  · rw [nil_append, readFraction.eq_def]
    split
    · rename_i cs
      exact absurd rfl (hRest '.' cs rfl).2
    · rw [hZero]
  · obtain ⟨k, hTrim⟩ := trimZeros_append (fixed 9 nanos)
    have hDigits : ∀ c ∈ trimZeros (fixed 9 nanos), c.isDigit = true := by
      intro c hc
      apply fixed_digits 9 nanos
      rw [hTrim]
      exact mem_append_left _ hc
    have hRead := digits_fixed 9 nanos 0 (replicate (9 - k) '0') hNanos
    have hLength := congrArg List.length hTrim
    rw [fixed_length, length_append, length_replicate] at hLength
    have hPadded : trimZeros (fixed 9 nanos) ++ replicate 9 '0' =
        fixed 9 nanos ++ replicate (9 - k) '0' := by
      conv_rhs => rw [hTrim]
      rw [append_assoc, replicate_append_replicate]
      congr 2
      omega
    have hNonempty : trimZeros (fixed 9 nanos) ≠ [] := by
      intro hEmpty
      rw [hEmpty, nil_append] at hPadded
      rw [← hPadded] at hRead
      have hValue : digits 9 0 (replicate 9 '0') = some (0, []) := by decide
      rw [hValue] at hRead
      simp only [Option.some.injEq, Prod.mk.injEq, zero_mul, zero_add] at hRead
      exact hZero hRead.1.symm
    obtain ⟨hTake, hDrop⟩ := takeWhile_digits hDigits hRest
    rw [cons_append, readFraction]
    simp only [hTake, hDrop, if_neg hNonempty, hPadded, hRead]
    simp

theorem readZone_signed (negative : Bool) {minutes : Nat} (h : minutes < 1440) :
    readZone ((if negative then '-' else '+') ::
      (fixed 2 (minutes / 60) ++ ':' :: fixed 2 (minutes % 60))) =
      some (if negative then -(60 * (minutes : Int)) else 60 * minutes) := by
  have hMinutes := digits_fixed 2 (minutes % 60) 0 [] (by omega)
  have hSum : (60 * ((minutes / 60 : Nat) : Int) + ((minutes % 60 : Nat) : Int)) = minutes := by omega
  rw [append_nil] at hMinutes
  rw [readZone, if_neg (by cases negative <;> simp)]
  simp only [digits_fixed 2 (minutes / 60) 0 _ (show _ < 100 by omega), expect_cons, hMinutes,
    bind_eq_bind, bind_some, zero_mul, zero_add]
  rw [if_pos ⟨trivial, by omega, by omega⟩, hSum]
  cases negative <;> rfl

theorem readZone_zoneText {zone : Int} (h : (zone.tdiv 60).natAbs < 1440) :
    readZone (zoneText zone) = some (60 * zone.tdiv 60) := by
  by_cases hZero : zone = 0
  · simp [zoneText, hZero, readZone]
  · have hSigned := readZone_signed (decide (zone.tdiv 60 < 0)) h
    simp only [decide_eq_true_eq] at hSigned
    simp only [zoneText, if_neg hZero, hSigned]
    split_ifs <;> congr 1 <;> omega

theorem closed_zoneText (zone : Int) : Closed (zoneText zone) := by
  intro c cs h
  unfold zoneText at h
  dsimp only at h
  split_ifs at h <;> cases h <;> exact ⟨by decide, by decide⟩

theorem monthLengths_le (leap : Bool) : ∀ n ∈ monthLengths leap, n ≤ 31 := by
  cases leap <;> decide

theorem readDate_fixed {year month day : Nat} (hYear : year < 10000) (hMonth : month < 12)
    (hDay : day < (monthLengths (isLeap year)).getD month 0) (rest : List Char) :
    readDate (fixed 4 year ++ '-' :: (fixed 2 (month + 1) ++ '-' :: (fixed 2 (day + 1) ++ rest))) =
      some (daysBefore year + ((monthLengths (isLeap year)).take month).sum + day, rest) := by
  have hShort : (monthLengths (isLeap year)).getD month 0 ≤ 31 := by
    rw [getD_eq_getElem _ _ hMonth]
    exact monthLengths_le _ _ (getElem_mem _)
  simp only [readDate, digits_fixed 4 year 0 _ hYear, digits_fixed 2 (month + 1) 0 _ (show _ < 100 by omega),
    digits_fixed 2 (day + 1) 0 _ (show _ < 100 by omega), expect_cons, bind_eq_bind,
    bind_some, zero_mul, zero_add, Nat.add_sub_cancel]
  generalize monthLengths (isLeap year) = lengths at *
  rw [if_pos ⟨by omega, by omega, hDay⟩]

theorem readDate_dateText {day : Nat} (h : day < lastDay) (rest : List Char) :
    readDate (dateText day ++ rest) = some (day, rest) := by
  obtain ⟨hDay, hYearDay⟩ := yearOf_spec day
  obtain ⟨hMonth, hInMonth, hSum⟩ := monthOf_spec _ _ hYearDay
  simp only [dateText, append_assoc, cons_append]
  rw [readDate_fixed (yearOf_lt h) hMonth hInMonth, add_assoc, hSum, hDay]

theorem readClock_clockText {nanos : Nat} (h : nanos < nanosPerDay) (hRest : Closed rest) :
    readClock (clockText nanos ++ rest) = some (nanos, rest) := by
  have hFraction := readFraction_fraction
    (Nat.mod_lt nanos (show 0 < nanosPerSecond by decide)) hRest
  have hSeconds : nanos / nanosPerSecond < 86400 := by
    rw [Nat.div_lt_iff_lt_mul (by decide)]
    exact h
  have hSum := Nat.div_add_mod' nanos nanosPerSecond
  simp only [clockText, readClock, append_assoc, cons_append]
  generalize nanos / nanosPerSecond = seconds at *
  simp only [digits_fixed 2 (seconds / 3600) 0 _ (by omega),
    digits_fixed 2 (seconds / 60 % 60) 0 _ (by omega), digits_fixed 2 (seconds % 60) 0 _ (by omega),
    hFraction, expect_cons, bind_eq_bind, bind_some, zero_mul, zero_add]
  rw [if_pos ⟨by omega, by omega, by omega⟩]
  have hClock : seconds / 3600 * 3600 + seconds / 60 % 60 * 60 + seconds % 60 = seconds := by omega
  rw [hClock, hSum]

end Rfc3339

namespace Time

open Rfc3339

def canon (t : Time) : Time :=
  ⟨t.nanos + t.zone.tmod 60 * nanosPerSecond, 60 * t.zone.tdiv 60⟩

theorem parse_format {t : Time} {cs : List Char} (h : format t = some cs) :
    parse cs = some t.canon := by
  unfold Rfc3339.format at h
  split_ifs at h with hRange
  obtain ⟨hLow, hHigh, hZone⟩ := hRange
  cases h
  have hShown : (((shown t).toNat : Nat) : Int) = shown t := Int.toNat_of_nonneg hLow
  have hDay : (shown t).toNat / nanosPerDay < lastDay := by
    rw [Nat.div_lt_iff_lt_mul (by decide)]
    omega
  have hClock := Nat.mod_lt (shown t).toNat (show 0 < nanosPerDay by decide)
  have hSum := Nat.div_add_mod' (shown t).toNat nanosPerDay
  have hMinutes := Int.tmod_add_mul_tdiv t.zone 60
  simp only [parse, readDate_dateText hDay, expect_cons,
    readClock_clockText hClock (closed_zoneText t.zone), readZone_zoneText hZone,
    bind_eq_bind, bind_some]
  have hNanos : (((shown t).toNat / nanosPerDay : Nat) : Int) * nanosPerDay +
      ((shown t).toNat % nanosPerDay : Nat) = shown t := by
    rw [← hShown]
    exact_mod_cast hSum
  have hZeroed : t.canon.nanos =
      shown t - 366 * nanosPerDay - 60 * t.zone.tdiv 60 * nanosPerSecond := by
    unfold canon shown
    linear_combination (nanosPerSecond : Int) * hMinutes
  rw [hNanos, ← hZeroed]
  rfl

@[simp] theorem canon_canon (t : Time) : t.canon.canon = t.canon := by
  simp [canon]

theorem canon_utc (t : Time) : t.utc.canon = t.utc := by simp [canon, utc]

def codec : Codec Time where
  zero := zero
  enc t := (format t).map fun cs => .str (cs.map some)
  dec
    | .null => some zero
    | .str syms => parse (text syms)
    | _ => none
  canon := canon
  dec_enc {t j} h := by
    obtain ⟨cs, hFormat, rfl⟩ := map_eq_some_iff.mp h
    simp [parse_format hFormat]
  canon_canon := canon_canon

instance : Wired Time := ⟨codec⟩

theorem enc_ne_null (t : Time) : codec.enc t ≠ some .null := by
  intro h
  obtain ⟨cs, _, h⟩ := map_eq_some_iff.mp h
  cases h

instance : Wired (Option Time) := ⟨codec.pointer enc_ne_null⟩

instance : Omittable (Option Time) := ⟨.pointer enc_ne_null⟩

end Time

end Wire
