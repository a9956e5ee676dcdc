import Camp.CampKit.Verify
import Camp.Program.Reading

/-!
# The budgets of an archive

The compressed bytes of an archive are counted while they are read, and so are the bytes that come out
of the decoder. The counters are signed words: the sum of expanded bytes wraps before it is compared.
-/

namespace Camp.CampKit

open Wire Wire.Utf8 Program List

section Model

/-- A sum or product of words. -/
def word (n : Int) : Int := n.bmod (2 ^ 64)

structure LimitError where
  resource : String
  limit : Int
  observed : Int
  deriving DecidableEq

/-- The errors of a reader that has a budget: its own, and those of the reader below it. -/
abbrev Budgeted (ε : Type) := LimitError ⊕ ε

def passed {ε : Type} (bytes : Bytes) (error : Option (ReadError ε)) : Chunk (Budgeted ε) :=
  ⟨bytes, error.map (·.map .inr)⟩

def limited {ε : Type} (bytes : Bytes) (e : LimitError) : Chunk (Budgeted ε) := ⟨bytes, some (.failed (.inl e))⟩

structure CountingReader (σ : Type) where
  reader : σ
  count : Int

variable {σ δ ε η : Type}

def CountingReader.read (source : ByteReader σ ε) (limit : Int) (r : CountingReader σ) (size : Nat) :
    Chunk (Budgeted ε) × CountingReader σ :=
  let remaining := word (limit - r.count)
  if remaining ≤ 0 then
    let probe := source.read r.reader 1
    let chunk := if 0 < probe.1.bytes.length
      then limited [] ⟨"compressed CampKit", limit, word (r.count + probe.1.bytes.length)⟩
      else passed [] probe.1.error
    (chunk, { r with reader := probe.2 })
  else
    let answer := source.read r.reader (if remaining < size then remaining.toNat else size)
    (passed answer.1.bytes answer.1.error, ⟨answer.2, word (r.count + answer.1.bytes.length)⟩)

def countingReader (source : ByteReader σ ε) (limit : Int) : ByteReader (CountingReader σ) (Budgeted ε) where
  read := CountingReader.read source limit
  within r size := by
    unfold CountingReader.read
    dsimp only
    split
    · split <;> exact Nat.zero_le _
    · refine (source.within _ _).trans ?_
      split <;> omega

/-- A decoder reads the compressed bytes through the counting reader, as often as it likes. -/
structure Decoder (source : ByteReader σ ε) (limit : Int) (δ η : Type) extends ByteReader (δ × CountingReader σ) η where
  through : ∀ s size, ∃ sizes, (read s size).2.2 = ((countingReader source limit).run sizes s.2).2

structure RatioReader (σ δ : Type) where
  reader : δ × CountingReader σ
  expanded : Int

/-- The bytes that may come out of so many compressed ones; a product that does not fit is replaced by the
largest word. -/
def allowed (limits : ArchiveLimits) (count : Int) : Int :=
  let slack : Int := limits.compressionRatioSlack
  if (maxInt64 - slack) / limits.maxCompressionRatio < count then (maxInt64 : Int)
  else word (slack + word (count * limits.maxCompressionRatio))

def RatioReader.read {source : ByteReader σ ε} {limit : Int} (limits : ArchiveLimits)
    (decoder : Decoder source limit δ η)
    (r : RatioReader σ δ) (size : Nat) : Chunk (Budgeted η) × RatioReader σ δ :=
  let answer := decoder.read r.reader size
  let expanded := word (r.expanded + answer.1.bytes.length)
  let allowed := allowed limits answer.2.2.count
  let chunk := if limits.maxOuterExpandedBytes < expanded ∨ allowed < expanded
    then limited answer.1.bytes ⟨"expanded CampKit", min limits.maxOuterExpandedBytes allowed, expanded⟩
    else passed answer.1.bytes answer.1.error
  (chunk, ⟨answer.2, expanded⟩)

def ratioReader {source : ByteReader σ ε} {limit : Int} (limits : ArchiveLimits) (decoder : Decoder source limit δ η) :
    ByteReader (RatioReader σ δ) (Budgeted η) where
  read := RatioReader.read limits decoder
  within r size := by
    unfold RatioReader.read
    dsimp only
    split <;> exact decoder.within _ _

end Model

section Counting

variable {σ ε : Type} {source : ByteReader σ ε} {limit : Nat}
variable {spent : Nat}

def isLimit (c : Chunk (Budgeted ε)) : Bool :=
  match c.error with
  | some (.failed (.inl _)) => true
  | _ => false

@[simp] theorem isLimit_limited (bytes : Bytes) (e : LimitError) :
    isLimit (limited bytes e : Chunk (Budgeted ε)) = true := rfl

@[simp] theorem isLimit_passed (bytes : Bytes) (error : Option (ReadError ε)) :
    isLimit (passed bytes error) = false := by
  rcases error with _ | _ | _ <;> rfl

@[simp] theorem eof_passed (bytes : Bytes) (error : Option (ReadError ε)) :
    (passed bytes error).error = some .eof ↔ error = some .eof := by
  rcases error with _ | _ | _ <;> simp [passed, ReadError.map]

theorem word_of_mem {n : Int} (hLow : 0 ≤ n) (hHigh : n ≤ maxInt64) : word n = n := by
  unfold maxInt64 at hHigh
  exact Int.bmod_eq_of_le (by omega) (by omega)

theorem word_remaining (hLimit : limit ≤ maxInt64) (hSpent : spent ≤ limit) :
    word ((limit : Int) - spent) = ((limit - spent : Nat) : Int) := by
  rw [word_of_mem (by omega) (by omega), Nat.cast_sub hSpent]

/-- One read after `spent` bytes: it passes on what the source delivers while there is room, and afterwards it
looks for one more byte. -/
inductive CountingStep (source : ByteReader σ ε) (limit : Nat) (s : σ) (spent : Nat) :
    Chunk (Budgeted ε) × CountingReader σ → Prop where
  | room (size : Nat) (fits : spent + size ≤ limit) : CountingStep source limit s spent
      (passed (source.read s size).1.bytes (source.read s size).1.error,
        ⟨(source.read s size).2, ((spent + (source.read s size).1.bytes.length : Nat) : Int)⟩)
  | excess (e : LimitError) (full : spent = limit) (more : 0 < (source.read s 1).1.bytes.length) :
      CountingStep source limit s spent (limited [] e, ⟨(source.read s 1).2, spent⟩)
  | probed (full : spent = limit) (nothing : (source.read s 1).1.bytes.length = 0) :
      CountingStep source limit s spent (passed [] (source.read s 1).1.error, ⟨(source.read s 1).2, spent⟩)

theorem countingStep (hLimit : limit ≤ maxInt64) (hSpent : spent ≤ limit) (s : σ) (size : Nat) :
    CountingStep source limit s spent ((countingReader source limit).read ⟨s, spent⟩ size) := by
  show CountingStep source limit s spent (CountingReader.read source limit ⟨s, spent⟩ size)
  unfold CountingReader.read
  dsimp only
  rw [word_remaining hLimit hSpent]
  split_ifs with hFull hMore hWide
  · exact .excess _ (by omega) hMore
  · exact .probed (by omega) (by omega)
  · have hWithin := source.within s (limit - spent)
    rw [Int.toNat_natCast, word_of_mem (by omega) (by omega)]
    exact .room (limit - spent) (by omega)
  · have hWithin := source.within s size
    rw [word_of_mem (by omega) (by omega)]
    exact .room size (by omega)

/-- The count is what was handed out, and never over the limit. -/
theorem run_count (hLimit : limit ≤ maxInt64) (sizes : List Nat) (hSpent : spent ≤ limit) (s : σ) :
    ∃ s', ((countingReader source limit).run sizes ⟨s, spent⟩).2 =
        ⟨s', ((spent + total ((countingReader source limit).run sizes ⟨s, spent⟩).1 : Nat) : Int)⟩ ∧
      spent + total ((countingReader source limit).run sizes ⟨s, spent⟩).1 ≤ limit := by
  induction sizes generalizing s spent with
  | nil => exact ⟨s, rfl, hSpent⟩
  | cons size sizes ih =>
    have hStep : CountingStep source limit s spent _ := countingStep hLimit hSpent s size
    rw [ByteReader.run]
    generalize (countingReader source limit).read ⟨s, spent⟩ size = answer at hStep ⊢
    cases hStep with
    | room size fits =>
      have hWithin := source.within s size
      obtain ⟨s', hState, hTotal⟩ := @ih (spent + (source.read s size).1.bytes.length) (by omega) (source.read s size).2
      refine ⟨s', ?_, ?_⟩
      · rw [hState, total_cons, Nat.add_assoc]
        rfl
      · rw [total_cons]
        simp only [passed]
        omega
    | excess e full more => simpa [limited] using ih hSpent (source.read s 1).2
    | probed full nothing => simpa [passed] using ih hSpent (source.read s 1).2

/-- Read to its end, the reader reports its limit exactly if there is more input than the limit leaves. -/
theorem run_limit_iff (hLimit : limit ≤ maxInt64) {left : σ → ℕ∞} (hContent : Content source left) (sizes : List Nat)
    (hSpent : spent ≤ limit) (s : σ) :
    ((∃ c ∈ ((countingReader source limit).run sizes ⟨s, spent⟩).1, isLimit c = true) → limit < spent + left s) ∧
    ((∃ c ∈ ((countingReader source limit).run sizes ⟨s, spent⟩).1, c.error = some .eof) →
      (∀ c ∈ ((countingReader source limit).run sizes ⟨s, spent⟩).1, isLimit c = false) → spent + left s ≤ limit) := by
  induction sizes generalizing s spent with
  | nil => simp [ByteReader.run]
  | cons size sizes ih =>
    have hStep : CountingStep source limit s spent _ := countingStep hLimit hSpent s size
    rw [ByteReader.run]
    generalize (countingReader source limit).read ⟨s, spent⟩ size = answer at hStep ⊢
    simp only [exists_mem_cons_iff, forall_mem_cons]
    cases hStep with
    | room size fits =>
      have hWithin := source.within s size
      have hLeft := hContent.spent s size
      have hAll : ((spent + (source.read s size).1.bytes.length : Nat) : ℕ∞) +
          left (source.read s size).2 = spent + left s := by
        rw [hLeft, Nat.cast_add, add_assoc]
      obtain ⟨hOver, hUnder⟩ := @ih (spent + (source.read s size).1.bytes.length) (by omega) (source.read s size).2
      rw [hAll] at hOver hUnder
      simp only [isLimit_passed, eof_passed, Bool.false_eq_true, false_or, true_and]
      refine ⟨hOver, fun hEof hNone => ?_⟩
      rcases hEof with hHere | hLater
      · rw [← hAll, hContent.ended s size hHere, add_zero]
        exact_mod_cast (by omega)
      · exact hUnder hLater hNone
    | excess e full more =>
      have hLeft := hContent.spent s 1
      simp only [isLimit_limited, true_or, forall_const, Bool.true_eq_false, false_and,
        false_imp_iff, imp_true_iff, and_true]
      have hMore : (1 : ℕ∞) ≤ left s := by
        rw [hLeft]
        exact le_add_right (by exact_mod_cast more)
      calc (limit : ℕ∞) < limit + 1 := by exact_mod_cast Nat.lt_succ_self limit
        _ ≤ spent + left s := by rw [full]; exact add_le_add_right hMore _
    | probed full nothing =>
      have hLeft := hContent.spent s 1
      rw [nothing, Nat.cast_zero, zero_add] at hLeft
      obtain ⟨hOver, hUnder⟩ := ih hSpent (source.read s 1).2
      rw [← hLeft] at hOver hUnder
      simp only [isLimit_passed, eof_passed, Bool.false_eq_true, false_or, true_and]
      refine ⟨hOver, fun hEof hNone => ?_⟩
      rcases hEof with hHere | hLater
      · rw [hLeft, hContent.ended s 1 hHere, add_zero]
        exact_mod_cast hSpent
      · exact hUnder hLater hNone

end Counting

section Ratio

variable {σ δ ε η : Type} {source : ByteReader σ ε} {limit : Nat} {limits : ArchiveLimits}
variable {spent : Nat}

/-- The limits that the readers use are positive words. -/
structure ArchiveLimits.Positive (limits : ArchiveLimits) : Prop where
  compressed : 0 < limits.maxCompressedBytes ∧ limits.maxCompressedBytes ≤ maxInt64
  expanded : 0 < limits.maxOuterExpandedBytes ∧ limits.maxOuterExpandedBytes ≤ maxInt64
  ratio : 0 < limits.maxCompressionRatio ∧ limits.maxCompressionRatio ≤ maxInt64
  slack : 0 < limits.compressionRatioSlack ∧ limits.compressionRatioSlack ≤ maxInt64

/-- The bound on expanded bytes, over the integers. -/
def bound (limits : ArchiveLimits) (count : Int) : Int :=
  min limits.maxOuterExpandedBytes (limits.compressionRatioSlack + limits.maxCompressionRatio * count)

theorem bound_le_bound {count count' : Int} (h : count ≤ count') : bound limits count ≤ bound limits count' :=
  min_le_min_left _ (add_le_add_right (mul_le_mul_of_nonneg_left h (Int.natCast_nonneg _)) _)

theorem word_le (n : Int) : word n ≤ maxInt64 := by
  have hLess : n.bmod (2 ^ 64) < (2 ^ 64 + 1) / 2 := Int.bmod_lt (by decide)
  unfold word maxInt64
  omega

/-- The saturated product gives the same answer as the exact one. -/
theorem over_iff (h : limits.Positive) {count : Int} (hCount : 0 ≤ count) {expanded : Int}
    (hExpanded : expanded ≤ maxInt64) :
    (limits.maxOuterExpandedBytes < expanded ∨ allowed limits count < expanded) ↔ bound limits count < expanded := by
  have hSlack := h.slack.2
  have hRatio : (0 : Int) < limits.maxCompressionRatio := by exact_mod_cast h.ratio.1
  have hProduct : 0 ≤ count * limits.maxCompressionRatio := mul_nonneg hCount hRatio.le
  rw [bound, min_lt_iff, allowed, mul_comm (limits.maxCompressionRatio : Int)]
  refine or_congr_right ?_
  split_ifs with hLarge
  · rw [Int.ediv_lt_iff_lt_mul hRatio] at hLarge
    omega
  · rw [not_lt, Int.le_ediv_iff_mul_le hRatio] at hLarge
    rw [word_of_mem hProduct (by omega), word_of_mem (by omega) (by omega)]

/-- The compressed bytes stay within their limit, whatever the decoder does. -/
theorem Decoder.read_within (decoder : Decoder source limit δ η) (hLimit : limit ≤ maxInt64) (hSpent : spent ≤ limit)
    (d : δ) (s : σ) (size : Nat) : ∃ answer d' s', ∃ spent' : Nat,
      decoder.read (d, ⟨s, spent⟩) size = (answer, (d', ⟨s', spent'⟩)) ∧ spent' ≤ limit ∧
      answer.bytes.length ≤ size := by
  obtain ⟨sizes, hThrough⟩ := decoder.through (d, ⟨s, spent⟩) size
  have hRun : ∃ s', ((countingReader source limit).run sizes ⟨s, spent⟩).2 = ⟨s', _⟩ ∧
      _ := run_count hLimit sizes hSpent s
  obtain ⟨s', hState, hTotal⟩ := hRun
  refine ⟨(decoder.read (d, ⟨s, spent⟩) size).1, (decoder.read (d, ⟨s, spent⟩) size).2.1, s',
    _, ?_, hTotal, decoder.within _ _⟩
  rw [← hState, ← hThrough]

/-- One read compares the sum, as a word, with the exact bound. -/
theorem ratio_step (h : limits.Positive) (decoder : Decoder source limits.maxCompressedBytes δ η)
    (hSpent : spent ≤ limits.maxCompressedBytes) (expanded : Int) (d : δ) (s : σ) (size : Nat) :
    ∃ d' s', ∃ spent' : Nat, ∃ chunk, spent' ≤ limits.maxCompressedBytes ∧ chunk.bytes.length ≤ size ∧
      (ratioReader limits decoder).read ⟨(d, ⟨s, spent⟩), expanded⟩ size =
        (chunk, ⟨(d', ⟨s', spent'⟩), word (expanded + chunk.bytes.length)⟩) ∧
      (isLimit chunk = true ↔ bound limits spent' < word (expanded + chunk.bytes.length)) := by
  obtain ⟨answer, d', s', spent', hRead, hSpent', hSize⟩ := decoder.read_within h.compressed.2 hSpent d s size
  have hOver := over_iff h (Int.natCast_nonneg spent') (word_le (expanded + answer.bytes.length))
  show ∃ d' s', ∃ spent' : Nat, ∃ chunk, _ ∧ _ ∧
      RatioReader.read limits decoder ⟨(d, ⟨s, spent⟩), expanded⟩ size = _ ∧ _
  rw [RatioReader.read, hRead]
  by_cases hLimit : bound limits spent' < word (expanded + answer.bytes.length)
  · refine ⟨d', s', spent',
      limited answer.bytes ⟨"expanded CampKit", min limits.maxOuterExpandedBytes (allowed limits spent'),
      word (expanded + answer.bytes.length)⟩, hSpent', hSize, ?_, iff_of_true rfl hLimit⟩
    dsimp only
    rw [if_pos (hOver.mpr hLimit)]
    rfl
  · refine ⟨d', s', spent', passed answer.bytes answer.error, hSpent', hSize, ?_, iff_of_false (by simp) hLimit⟩
    dsimp only
    rw [if_neg (mt hOver.mp hLimit)]
    rfl

/-- As long as the exact sum fits in a word, the read that exceeds the bound reports it. -/
theorem run_reports (h : limits.Positive) {B : Nat} (hB : bound limits limits.maxCompressedBytes + B ≤ maxInt64)
    (decoder : Decoder source limits.maxCompressedBytes δ η) (sizes : List Nat) (hSizes : ∀ size ∈ sizes, size ≤ B)
    {expanded : Nat} (hSpent : spent ≤ limits.maxCompressedBytes) (hExpanded : expanded ≤ bound limits spent) (d : δ)
    (s : σ)
    (hOver : bound limits ((ratioReader limits decoder).run sizes ⟨(d, ⟨s, spent⟩), expanded⟩).2.reader.2.count <
      expanded + total ((ratioReader limits decoder).run sizes ⟨(d, ⟨s, spent⟩), expanded⟩).1) :
    ∃ c ∈ ((ratioReader limits decoder).run sizes ⟨(d, ⟨s, spent⟩), expanded⟩).1, isLimit c = true := by
  induction sizes generalizing d s spent expanded with
  | nil => exact absurd hOver (by simpa [ByteReader.run] using hExpanded)
  | cons size sizes ih =>
    obtain ⟨d', s', spent', chunk, hSpent', hSize, hRead, hLimit⟩ := ratio_step h decoder hSpent expanded d s size
    have hFits : word ((expanded : Int) + chunk.bytes.length) = (expanded + chunk.bytes.length : Nat) := by
      have hMost := hExpanded.trans (bound_le_bound (Int.ofNat_le.mpr hSpent))
      have hBuffer := hSizes size mem_cons_self
      rw [word_of_mem (by omega) (by omega), Nat.cast_add]
    rw [hFits] at hRead hLimit
    simp only [ByteReader.run, hRead, total_cons, Nat.cast_add, ← add_assoc, exists_mem_cons_iff] at hOver ⊢
    rcases lt_or_ge (bound limits spent') ((expanded + chunk.bytes.length : Nat) : Int) with hHere | hUnder
    · exact .inl (hLimit.mpr hHere)
    · refine .inr ?_
      rw [← Nat.cast_add] at hOver ⊢
      exact ih (fun n hn => hSizes n (mem_cons_of_mem _ hn)) hSpent' hUnder d' s' hOver

end Ratio

section Flood

/-- An endless input. -/
def zeros : ByteReader Unit Empty where
  read _ size := (⟨replicate size 0, none⟩, ())
  within _ size := by simp

@[simp] theorem length_zeros (s : Unit) (size : Nat) :
    (zeros.read s size).1.bytes.length = size := length_replicate

variable (limit : Nat)

/-- A decoder that takes all the compressed bytes it can get, and fills every buffer. -/
def flood : Decoder zeros limit Unit Empty where
  read s size := (⟨replicate size 0, none⟩, ((), ((countingReader zeros limit).run [limit] s.2).2))
  within _ size := by simp
  through s size := ⟨[limit], rfl⟩

variable {limit}

theorem count_flood (hLimit : limit ≤ maxInt64) {spent : Nat} (hSpent : spent ≤ limit) :
    ((countingReader zeros limit).run [limit] ⟨(), spent⟩).2 = ⟨(), limit⟩ := by
  show (CountingReader.read zeros limit ⟨(), spent⟩ limit).2 = _
  unfold CountingReader.read
  dsimp only
  rw [word_remaining hLimit hSpent]
  split_ifs with hFull hMore hWide
  · have hSame : spent = limit := by omega
    rw [hSame]
  · have hSame : spent = limit := by omega
    rw [hSame]
  · have hAll : (spent : Int) + (limit - spent : Nat) = limit := by omega
    rw [length_zeros, Int.toNat_natCast, hAll, word_of_mem (by omega) (by omega)]
  · have hNone : spent = 0 := by omega
    rw [length_zeros, hNone, Nat.cast_zero, zero_add, word_of_mem (by omega) (by omega)]

variable {limits : ArchiveLimits}

theorem flood_read (h : limits.Positive) {spent : Nat} (hSpent : spent ≤ limits.maxCompressedBytes)
    (expanded : Int) (size : Nat) :
    ∃ chunk, (ratioReader limits (flood limits.maxCompressedBytes)).read ⟨((), ⟨(), spent⟩), expanded⟩ size =
        (chunk, ⟨((), ⟨(), limits.maxCompressedBytes⟩), word (expanded + size)⟩) ∧ chunk.bytes.length = size ∧
      (isLimit chunk = true ↔ bound limits limits.maxCompressedBytes < word (expanded + size)) := by
  obtain ⟨_, _, spent', chunk, -, -, hRead, hLimit⟩ :=
    ratio_step h (flood limits.maxCompressedBytes) hSpent expanded () () size
  have hBytes : chunk.bytes = replicate size 0 := by
    have hFirst := congrArg (fun answer => answer.1.bytes) hRead
    refine hFirst.symm.trans ?_
    show (RatioReader.read limits (flood limits.maxCompressedBytes) _ size).1.bytes = _
    unfold RatioReader.read
    dsimp only
    split <;> rfl
  have hCount : (spent' : Int) = limits.maxCompressedBytes := by
    have hSecond := congrArg (fun answer => answer.2.reader.2.count) hRead
    exact hSecond.symm.trans (congrArg CountingReader.count (count_flood h.compressed.2 hSpent))
  rw [hBytes, length_replicate, hCount] at hRead hLimit
  exact ⟨chunk, hRead, by rw [hBytes, length_replicate], hLimit⟩

/-- One byte at a time up to the bound, nothing is reported. -/
theorem flood_run (h : limits.Positive) {n : Nat} (hn : n ≤ bound limits limits.maxCompressedBytes) : ∃ spent : Nat,
    spent ≤ limits.maxCompressedBytes ∧
    ((ratioReader limits (flood limits.maxCompressedBytes)).run (replicate n 1) ⟨((), ⟨(), 0⟩), 0⟩).2 =
      ⟨((), ⟨(), spent⟩), n⟩ ∧
    total ((ratioReader limits (flood limits.maxCompressedBytes)).run (replicate n 1) ⟨((), ⟨(), 0⟩), 0⟩).1 = n ∧
    ∀ c ∈ ((ratioReader limits (flood limits.maxCompressedBytes)).run (replicate n 1) ⟨((), ⟨(), 0⟩), 0⟩).1,
      isLimit c = false := by
  induction n with
  | zero => exact ⟨0, Nat.zero_le _, rfl, rfl, by simp [ByteReader.run]⟩
  | succ n ih =>
    obtain ⟨spent, hSpent, hState, hTotal, hNone⟩ := ih (by omega)
    obtain ⟨chunk, hRead, hBytes, hLimit⟩ := flood_read h hSpent n 1
    have hMost : bound limits limits.maxCompressedBytes ≤ maxInt64 :=
      (min_le_left _ _).trans (by exact_mod_cast h.expanded.2)
    rw [word_of_mem (by omega) (by omega)] at hRead hLimit
    rw [replicate_succ', ByteReader.run_append, hState]
    simp only [ByteReader.run, hRead, total_append, total_cons, total_nil, hTotal, hBytes]
    refine ⟨limits.maxCompressedBytes, le_rfl, rfl, trivial, fun c hc => ?_⟩
    rcases mem_append.mp hc with hBefore | hHere
    · exact hNone c hBefore
    · rw [mem_singleton.mp hHere, ← Bool.not_eq_true, hLimit]
      omega

/-- A buffer that takes the sum over the largest word is filled without a report. -/
theorem flood_unreported (h : limits.Positive) {B : Nat} (hB : B ≤ maxInt64)
    (hOver : (maxInt64 : Int) < bound limits limits.maxCompressedBytes + B) :
    ∃ sizes, (∀ size ∈ sizes, size ≤ B) ∧
      bound limits ((ratioReader limits (flood limits.maxCompressedBytes)).run sizes
      ⟨((), ⟨(), 0⟩), 0⟩).2.reader.2.count <
        total ((ratioReader limits (flood limits.maxCompressedBytes)).run sizes ⟨((), ⟨(), 0⟩), 0⟩).1 ∧
      ∀ c ∈ ((ratioReader limits (flood limits.maxCompressedBytes)).run sizes ⟨((), ⟨(), 0⟩), 0⟩).1,
      isLimit c = false := by
  obtain ⟨n, hn⟩ : ∃ n : Nat, bound limits limits.maxCompressedBytes = n :=
    Int.eq_ofNat_of_zero_le (le_min (Int.natCast_nonneg _) (by positivity))
  obtain ⟨spent, hSpent, hState, hTotal, hNone⟩ := flood_run h hn.ge
  obtain ⟨chunk, hRead, hBytes, hLimit⟩ := flood_read h hSpent n B
  have hMost : (n : Int) ≤ maxInt64 := hn ▸ (min_le_left _ _).trans (by exact_mod_cast h.expanded.2)
  rw [hn] at hOver hLimit
  -- the sum is between the largest word and twice that, so as a word it is negative
  have hWrapped : word ((n : Int) + B) < 0 := by
    unfold maxInt64 at hMost hB hOver
    simp only [word, Int.bmod]
    split_ifs <;> omega
  have hQuiet : isLimit chunk = false := by
    rw [← Bool.not_eq_true, hLimit]
    omega
  refine ⟨replicate n 1 ++ [B], fun size hSize => ?_, ?_, fun c hc => ?_⟩
  · rcases mem_append.mp hSize with hOne | hLast
    · rw [eq_of_mem_replicate hOne]
      omega
    · exact (mem_singleton.mp hLast).le
  · simp only [ByteReader.run_append, hState, ByteReader.run, hRead, total_append,
      total_cons, total_nil, hTotal, hBytes, hn]
    omega
  · simp only [ByteReader.run_append, hState, ByteReader.run, hRead] at hc
    rcases mem_append.mp hc with hBefore | hHere
    · exact hNone c hBefore
    · rw [mem_singleton.mp hHere, hQuiet]

end Flood

section Enforced

/-- The counting reader hands out no more than its limit. Read to the end, it reports the limit exactly if the
input is longer. -/
def CountingEnforced (limits : ArchiveLimits) : Prop :=
  ∀ (σ ε : Type) (source : ByteReader σ ε) (s : σ) (sizes : List Nat),
    total ((countingReader source limits.maxCompressedBytes).run sizes ⟨s, 0⟩).1 ≤ limits.maxCompressedBytes ∧
    ∀ left, Content source left →
      (∃ c ∈ ((countingReader source limits.maxCompressedBytes).run sizes ⟨s, 0⟩).1,
      c.error = some .eof ∨ isLimit c = true) →
      ((∃ c ∈ ((countingReader source limits.maxCompressedBytes).run sizes ⟨s, 0⟩).1, isLimit c = true) ↔
        limits.maxCompressedBytes < left s)

/-- Buffers of at most `B` bytes: once more bytes have come out of the decoder than the exact bound allows, one of
the reads has reported it. -/
def RatioEnforced (limits : ArchiveLimits) (B : Nat) : Prop :=
  ∀ (σ δ ε η : Type) (source : ByteReader σ ε) (decoder : Decoder source limits.maxCompressedBytes δ η) (d : δ) (s : σ)
    (sizes : List Nat), (∀ size ∈ sizes, size ≤ B) →
    bound limits ((ratioReader limits decoder).run sizes ⟨(d, ⟨s, 0⟩), 0⟩).2.reader.2.count <
      total ((ratioReader limits decoder).run sizes ⟨(d, ⟨s, 0⟩), 0⟩).1 →
    ∃ c ∈ ((ratioReader limits decoder).run sizes ⟨(d, ⟨s, 0⟩), 0⟩).1, isLimit c = true

variable {limits : ArchiveLimits}

theorem counting_enforced (h : limits.Positive) : CountingEnforced limits := by
  intro σ ε source s sizes
  have hZero : 0 ≤ limits.maxCompressedBytes := Nat.zero_le _
  refine ⟨?_, fun left hContent hEnd => ?_⟩
  · have hRun : ∃ s', ((countingReader source limits.maxCompressedBytes).run sizes ⟨s, (0 : Nat)⟩).2 = ⟨s', _⟩ ∧ _ :=
      run_count h.compressed.2 sizes hZero s
    obtain ⟨-, -, hTotal⟩ := hRun
    simpa using hTotal
  · obtain ⟨hOver, hUnder⟩ := run_limit_iff h.compressed.2 hContent sizes hZero s
    simp only [Nat.cast_zero, zero_add] at hOver hUnder
    refine ⟨hOver, fun hLonger => ?_⟩
    by_contra hNone
    push Not at hNone
    obtain ⟨c, hc, hEof | hLimit⟩ := hEnd
    · exact absurd (hUnder ⟨c, hc, hEof⟩ fun c hc => Bool.eq_false_iff.mpr (hNone c hc)) (not_le.mpr hLonger)
    · exact absurd hLimit (hNone c hc)

/-- The counting reader keeps its promise. The ratio reader does so as long as no buffer can take the sum of the
expanded bytes over the largest word. -/
theorem budgets_enforced_iff (limits : ArchiveLimits) (h : limits.Positive) (B : Nat) (hB : B ≤ maxInt64) :
    CountingEnforced limits ∧
      (RatioEnforced limits B ↔ bound limits limits.maxCompressedBytes + B ≤ maxInt64) := by
  refine ⟨counting_enforced h, fun hEnforced => ?_, fun hFits σ δ ε η source decoder d s sizes hSizes hOver => ?_⟩
  · by_contra hOver
    obtain ⟨sizes, hSizes, hExceeded, hNone⟩ := flood_unreported h hB (not_le.mp hOver)
    obtain ⟨c, hc, hLimit⟩ := hEnforced _ _ _ _ zeros (flood limits.maxCompressedBytes) () () sizes hSizes hExceeded
    exact absurd hLimit (by simp [hNone c hc])
  · have hStart : ((0 : Nat) : Int) ≤ bound limits ((0 : Nat) : Int) := le_min (Int.natCast_nonneg _) (by positivity)
    refine run_reports h hFits decoder sizes hSizes (Nat.zero_le _) hStart d s ?_
    simpa using hOver

/-- Limits that are as wide as words allow, but for the expanded bytes. -/
def wideLimits (expanded : Nat) : ArchiveLimits where
  maxCompressedBytes := maxInt64
  maxManifestBytes := 1
  maxOuterEntries := 1
  maxOuterEntryBytes := maxInt64
  maxOuterExpandedBytes := expanded
  maxNestedEntries := 1
  maxNestedEntryBytes := maxInt64
  maxNestedExpandedBytes := maxInt64
  maxNestedPathBytes := 1
  maxLinks := 1
  maxLinkTargetBytes := 1
  maxSymlinkDepth := 1
  maxCompressionRatio := maxInt64
  compressionRatioSlack := maxInt64
  maxTrustEvidenceBytes := 1
  maxDescriptorBytes := 1

theorem positive_wideLimits {expanded : Nat} (h : 0 < expanded ∧ expanded ≤ maxInt64) :
    (wideLimits expanded).Positive := by
  have hWord : 0 < maxInt64 ∧ maxInt64 ≤ maxInt64 := by decide
  exact ⟨hWord, h, hWord, hWord⟩

/-- With the widest limits, an endless input that is read in pages runs past the limit without a report. -/
theorem pages_run_over :
    validateReaderLimits (wideLimits maxInt64) = .ok () ∧ ∃ sizes : List Nat, (∀ size ∈ sizes, size ≤ 4096) ∧
    bound (wideLimits maxInt64) ((ratioReader (wideLimits maxInt64) (flood maxInt64)).run sizes
    ⟨((), ⟨(), 0⟩), 0⟩).2.reader.2.count <
      total ((ratioReader (wideLimits maxInt64) (flood maxInt64)).run sizes ⟨((), ⟨(), 0⟩), 0⟩).1 ∧
    ∀ c ∈ ((ratioReader (wideLimits maxInt64) (flood maxInt64)).run sizes ⟨((), ⟨(), 0⟩), 0⟩).1, isLimit c = false :=
  ⟨by decide, flood_unreported (positive_wideLimits (by decide)) (by decide) (by decide)⟩

/-- A tebibyte that is read in pages stays within its budget. -/
theorem tebibyte_enforced : (wideLimits (2 ^ 40)).Positive ∧ RatioEnforced (wideLimits (2 ^ 40)) 4096 :=
  ⟨positive_wideLimits (by decide),
    (budgets_enforced_iff (wideLimits (2 ^ 40)) (positive_wideLimits (by decide)) 4096 (by decide)).2.mpr (by decide)⟩

end Enforced

end Camp.CampKit
