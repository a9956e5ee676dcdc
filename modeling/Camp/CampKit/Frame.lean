import Camp.Wire.Utf8
import Mathlib.Logic.Relation

/-!
# The reader of a single zstd frame

The reader of a kit passes on the bytes of one frame and stops there. It follows the segments of
the frame as they come, in pieces of any size, and does not look into the blocks.
-/

namespace Camp.CampKit.Frame

open Wire Wire.Utf8 List

section Model

inductive FrameState where
  | magic
  | descriptor
  | window
  | blockHeader
  | blockData
  | checksum
  | done
  deriving DecidableEq

inductive FormatError where
  | magic
  | reservedBits
  | contract
  | blockType
  | state
  | notTerminated
  | bytesFollow
  | noEnd
  deriving DecidableEq

structure Reader where
  exactOuter : Bool
  state : FrameState
  segment : Bytes
  segmentOffset : Nat
  blockBytes : Nat
  hasChecksum : Bool
  done : Bool
  deriving DecidableEq

def make (n : Nat) : Bytes := replicate n 0

def newZstdFrameReader (exactOuter : Bool) : Reader := ⟨exactOuter, .magic, make 4, 0, 0, false, false⟩

def singleSegment (d : UInt8) : Bool := d &&& 0x20 != 0

def contentSizeFlag (d : UInt8) : Nat := (d >>> 6).toNat

def dictionaryFlag (d : UInt8) : Nat := (d &&& 0x03).toNat

def checksumFlag (d : UInt8) : Bool := d &&& 0x04 != 0

def headerBytes (d : UInt8) : Nat :=
  let dictionaryBytes := [0, 1, 2, 4].getD (dictionaryFlag d) 0
  let contentSizeBytes :=
    if singleSegment d && contentSizeFlag d == 0 then 1 else [0, 2, 4, 8].getD (contentSizeFlag d) 0
  dictionaryBytes + contentSizeBytes + if singleSegment d then 0 else 1

def blockValue (header : Bytes) : Nat :=
  (header.getD 0 0).toNat + (header.getD 1 0).toNat * 2 ^ 8 + (header.getD 2 0).toNat * 2 ^ 16

def lastBlock (header : Bytes) : Bool := blockValue header % 2 != 0

def blockType (header : Bytes) : Nat := blockValue header / 2 % 4

def blockSize (header : Bytes) : Nat := if blockType header = 1 then 1 else blockValue header / 8

def Reader.turn (r : Reader) (state : FrameState) (segment : Bytes) : Reader :=
  { r with state := state, segment := segment, segmentOffset := 0 }

def Reader.afterBlocks (r : Reader) (checksum : Bool) : Reader :=
  if checksum then r.turn .checksum (make 4) else r.turn .done []

def Reader.advance (r : Reader) : Except FormatError Reader :=
  match r.state with
  | .magic => if r.segment ≠ [0x28, 0xb5, 0x2f, 0xfd] then .error .magic else .ok (r.turn .descriptor (make 1))
  | .descriptor =>
    let d := r.segment.getD 0 0
    if d &&& 0x18 ≠ 0 then .error .reservedBits
    else if r.exactOuter && (dictionaryFlag d != 0 || !checksumFlag d) then .error .contract
    else .ok ({ r with hasChecksum := checksumFlag d }.turn .window (make (headerBytes d)))
  | .window => .ok (r.turn .blockHeader (make 3))
  | .blockHeader =>
    if blockType r.segment = 3 then .error .blockType
    else
      let size := blockSize r.segment
      if lastBlock r.segment then
        if size = 0 then .ok ({ r with blockBytes := size }.afterBlocks r.hasChecksum)
        -- the marker of the last block tells what comes after it
        else .ok ({ r with blockBytes := size }.turn .blockData [if r.hasChecksum then 1 else 0])
      else .ok ({ r with blockBytes := size }.turn .blockData [])
  | .checksum => .ok (r.turn .done [])
  | .blockData | .done => .error .state

def Reader.finishBlock (r : Reader) : Reader :=
  if r.segment.length = 1 then r.afterBlocks (r.segment.getD 0 0 == 1) else r

/-- The turns that `Read` makes without reading. They end in a state that is not the data of a
block, so there is at most one. -/
def Reader.settle (r : Reader) : Reader :=
  if r.state = .blockData ∧ r.blockBytes = 0 then
    if r.segment.length = 1 then r.finishBlock else r.turn .blockHeader (make 3)
  else r

def Reader.room (r : Reader) : Nat :=
  if r.state = .blockData then r.blockBytes else r.segment.length - r.segmentOffset

def copyAt (segment : Bytes) (offset : Nat) (data : Bytes) : Bytes :=
  segment.take offset ++ data ++ segment.drop (offset + data.length)

def Reader.accept (r : Reader) (data : Bytes) : Reader :=
  if r.state = .blockData then { r with blockBytes := r.blockBytes - data.length }
  else { r with segment := copyAt r.segment r.segmentOffset data, segmentOffset := r.segmentOffset + data.length }

def Reader.finishSegment (r : Reader) : Except FormatError Reader :=
  if r.state = .blockData ∨ r.segmentOffset ≠ r.segment.length then .ok r else r.advance

/-- An input that comes in fragments. An eager one tells the end together with the last bytes. -/
structure Source where
  fragments : List Bytes
  eager : Bool
  nonempty : ∀ f ∈ fragments, f ≠ []

namespace Source

def bytes (src : Source) : Bytes := src.fragments.flatten

def remainder (fragments : List Bytes) (n : Nat) : List Bytes :=
  match fragments with
  | [] => []
  | f :: rest => if f.length ≤ n then rest else f.drop n :: rest

theorem remainder_nonempty {fragments : List Bytes} (h : ∀ f ∈ fragments, f ≠ []) (n : Nat) :
    ∀ f ∈ remainder fragments n, f ≠ [] := by
  cases fragments with
  | nil => simp [remainder]
  | cons f rest =>
    rw [forall_mem_cons] at h
    dsimp only [remainder]
    split_ifs with hAll
    · exact h.2
    · rw [forall_mem_cons]
      refine ⟨?_, h.2⟩
      rw [ne_eq, drop_eq_nil_iff]
      exact hAll

def read (src : Source) (n : Nat) : Bytes × Bool × Source :=
  match src.fragments with
  | [] => ([], true, src)
  | f :: _ =>
    let src' : Source := ⟨remainder src.fragments n, src.eager, remainder_nonempty src.nonempty n⟩
    (f.take n, src.eager && src'.fragments.isEmpty, src')

end Source

inductive End where
  | eof
  | format (e : FormatError)
  deriving DecidableEq

def Reader.read (r : Reader) (n : Nat) (src : Source) : Bytes × Option End × Reader × Source :=
  if n = 0 then ([], none, r, src)
  else
    let r := r.settle
    if r.state = .done then ([], some .eof, { r with done := true }, src)
    else
      let (data, eof, src') := src.read (min n r.room)
      let r := r.accept data
      if eof then (data, some .eof, r, src')
      else
        match r.finishSegment with
        | .ok r' => (data, none, r', src')
        | .error e => (data, some (.format e), r, src')

def readAll (sizes : Nat → Nat) : Nat → Reader → Source → Option (Bytes × End × Reader × Source)
  | 0, _, _ => none
  | fuel + 1, r, src =>
    match r.read (sizes fuel) src with
    | (data, some e, r', src') => some (data, e, r', src')
    | (data, none, r', src') => (readAll sizes fuel r' src').map fun (rest, e, last) => (data ++ rest, e, last)

def requirePhysicalEOF (r : Reader) (src : Source) : Except FormatError Unit :=
  if !r.done then .error .notTerminated
  else
    let (data, eof, _) := src.read 1
    if data ≠ [] then .error .bytesFollow
    else if eof then .ok () else .error .noEnd

end Model

/-! The checksum of a frame is the lower half of the XXH64 hash of its content, which the decoder
compares. -/

namespace Xxh64

def prime₁ : UInt64 := 11400714785074694791
def prime₂ : UInt64 := 14029467366897019727
def prime₃ : UInt64 := 1609587929392839161
def prime₄ : UInt64 := 9650029242287828579
def prime₅ : UInt64 := 2870177450012600261

def rotate (x k : UInt64) : UInt64 := x <<< k ||| x >>> (64 - k)

/-- The bytes as a number, the least significant one first. -/
def lane (s : Bytes) : UInt64 := s.foldr (fun b n => n <<< 8 ||| b.toUInt64) 0

def round (acc input : UInt64) : UInt64 := rotate (acc + input * prime₂) 31 * prime₁

def stripes : Nat → List UInt64 → Bytes → List UInt64
  | 0, accs, _ => accs
  | n + 1, accs, s => stripes n (List.zipWith round accs (((s.take 32).toChunks 8).map lane)) (s.drop 32)

def converge (accs : List UInt64) : UInt64 :=
  let h := (List.zipWith rotate accs [1, 7, 12, 18]).foldl (· + ·) 0
  accs.foldl (fun h acc => (h ^^^ round 0 acc) * prime₁ + prime₄) h

def words : Nat → UInt64 → Bytes → UInt64
  | 0, h, _ => h
  | n + 1, h, s => words n (rotate (h ^^^ round 0 (lane (s.take 8))) 27 * prime₁ + prime₄) (s.drop 8)

def avalanche (h : UInt64) : UInt64 :=
  let h := (h ^^^ h >>> 33) * prime₂
  let h := (h ^^^ h >>> 29) * prime₃
  h ^^^ h >>> 32

def hash (s : Bytes) : UInt64 :=
  let h := if s.length < 32 then prime₅
    else converge (stripes (s.length / 32) [prime₁ + prime₂, prime₂, 0, 0 - prime₁] s)
  let rest := s.drop (s.length / 32 * 32)
  let h := words (rest.length / 8) (h + .ofNat s.length) rest
  let rest := rest.drop (rest.length / 8 * 8)
  let h := if rest.length < 4 then h else rotate (h ^^^ lane (rest.take 4) * prime₁) 23 * prime₂ + prime₃
  let rest := rest.drop (rest.length / 4 * 4)
  avalanche (rest.foldl (fun h b => rotate (h ^^^ b.toUInt64 * prime₅) 11 * prime₁) h)

end Xxh64

def contentChecksum (content : Bytes) : Bytes :=
  let h := Xxh64.hash content
  [h.toUInt8, (h >>> 8).toUInt8, (h >>> 16).toUInt8, (h >>> 24).toUInt8]

open Reader

section Settled

variable {r : Reader}

/-- There is something to read before the reader looks at its segment again. -/
def Reader.Open (r : Reader) : Prop :=
  r.state ≠ .done → r.state ≠ .blockData → r.segmentOffset < r.segment.length

theorem headerBytes_pos (d : UInt8) : 0 < headerBytes d := by
  unfold headerBytes
  have hFlag : contentSizeFlag d < 4 := by
    unfold contentSizeFlag
    rw [UInt8.toNat_shiftRight]
    have hByte := d.toNat_lt
    show d.toNat >>> 6 < 4
    rw [Nat.shiftRight_eq_div_pow]
    omega
  cases singleSegment d with
  | false => simp
  | true =>
    interval_cases contentSizeFlag d <;> simp

@[simp] theorem length_make (n : Nat) : (make n).length = n := length_replicate

theorem open_turn {state : FrameState} {n : Nat} (h : 0 < n) : (r.turn state (make n)).Open := by
  intro _ _
  simpa [turn] using h

theorem open_afterBlocks (checksum : Bool) : (r.afterBlocks checksum).Open := by
  cases checksum with
  | false =>
    intro hDone
    exact absurd rfl hDone
  | true => exact open_turn (by omega)

theorem done_afterBlocks (checksum : Bool) : (r.afterBlocks checksum).done = r.done := by
  cases checksum <;> rfl

theorem advance_keeps {r' : Reader} (h : r.advance = .ok r') : r'.Open ∧ r'.done = r.done := by
  unfold advance at h
  split at h
  · split_ifs at h
    cases h
    exact ⟨open_turn (by omega), rfl⟩
  · dsimp only at h
    split_ifs at h
    cases h
    exact ⟨open_turn (headerBytes_pos _), rfl⟩
  · cases h
    exact ⟨open_turn (by omega), rfl⟩
  · dsimp only at h
    split_ifs at h
    · cases h
      exact ⟨open_afterBlocks _, done_afterBlocks _⟩
    all_goals
      cases h
      exact ⟨fun _ hData => absurd rfl hData, rfl⟩
  · cases h
    exact ⟨fun hDone => absurd rfl hDone, rfl⟩
  · cases h
  · cases h

theorem settle_of_ne (h : r.state ≠ .blockData) : r.settle = r := by
  unfold settle
  rw [if_neg fun hData => h hData.1]

theorem settle_of_pos (h : 0 < r.blockBytes) : r.settle = r := by
  unfold settle
  rw [if_neg fun hData => absurd hData.2 (by omega)]

theorem open_settle (h : r.Open) : r.settle.Open := by
  unfold settle finishBlock
  split_ifs
  · exact open_afterBlocks _
  · exact open_turn (by omega)
  · exact h

theorem room_settle_pos (h : r.Open) (hDone : r.settle.state ≠ .done) : 0 < r.settle.room := by
  have hOpen := open_settle h
  unfold room
  split_ifs with hData
  · -- only data that is not used up stays data
    unfold settle finishBlock afterBlocks at hData ⊢
    split_ifs at hData ⊢ with hEmpty hLast
    · cases hData
    · cases hData
    · cases hData
    · have hSome : ¬ r.blockBytes = 0 := fun hZero => hEmpty ⟨hData, hZero⟩
      omega
  · have hOffset := hOpen hDone hData
    omega

end Settled

section Steps

variable {r : Reader}
variable {data : Bytes}
variable {segment a b : Bytes} {offset : Nat}

inductive Verdict where
  | complete (n : Nat)
  | malformed (n : Nat) (e : FormatError)
  | truncated
  deriving DecidableEq

def Verdict.after (k : Nat) : Verdict → Verdict
  | complete n => complete (k + n)
  | malformed n e => malformed (k + n) e
  | truncated => truncated

def Reader.feed (r : Reader) : Bytes → Verdict
  | [] => if r.settle.state = .done then .complete 0 else .truncated
  | b :: s =>
    if r.settle.state = .done then .complete 0
    else
      match (r.settle.accept [b]).finishSegment with
      | .error e => .malformed 1 e
      | .ok r' => (r'.feed s).after 1

theorem copyAt_append (h : offset + a.length + b.length ≤ segment.length) :
    copyAt (copyAt segment offset a) (offset + a.length) b = copyAt segment offset (a ++ b) := by
  have hTake : (segment.take offset).length = offset := by
    rw [length_take]
    omega
  have hFront : (copyAt segment offset a).take (offset + a.length) = segment.take offset ++ a := by
    rw [copyAt, take_left' (by rw [length_append, hTake])]
  have hBack : (copyAt segment offset a).drop (offset + a.length + b.length) = segment.drop
      (offset + a.length + b.length) := by
    rw [copyAt, ← drop_drop, drop_left' (by rw [length_append, hTake]), drop_drop]
  rw [copyAt, hFront, hBack, copyAt, length_append, append_assoc, Nat.add_assoc]
  simp [append_assoc]

theorem accept_accept (hPos : 0 < r.room) (h : a.length + b.length ≤ r.room) :
    (r.accept a).accept b = r.accept (a ++ b) := by
  unfold room at hPos h
  unfold accept
  split_ifs at hPos h ⊢ with hData
  · simp [Nat.sub_sub]
  · simp only [length_append]
    rw [copyAt_append (by omega), Nat.add_assoc]

theorem length_copyAt (h : offset + data.length ≤ segment.length) :
    (copyAt segment offset data).length = segment.length := by
  simp only [copyAt, length_append, length_take, length_drop]
  omega

theorem state_accept (data : Bytes) : (r.accept data).state = r.state := by
  unfold accept
  split_ifs <;> rfl

theorem room_accept (h : data.length ≤ r.room) : (r.accept data).room = r.room - data.length := by
  have hState := state_accept (r := r) data
  unfold room at h ⊢
  rw [hState]
  unfold accept
  split_ifs at h ⊢ with hData
  · rfl
  · dsimp only
    by_cases hFits : r.segmentOffset + data.length ≤ r.segment.length
    · rw [length_copyAt hFits]
      omega
    · have hNone : data.length = 0 := by omega
      have hNil : data = [] := eq_nil_of_length_eq_zero hNone
      simp [hNil, copyAt]

theorem finishSegment_of_room (h : 0 < r.room) : r.finishSegment = .ok r := by
  unfold room at h
  unfold finishSegment
  refine if_pos ?_
  split_ifs at h with hData
  · exact .inl hData
  · right
    omega

theorem settle_of_room (h : 0 < r.room) : r.settle = r := by
  unfold room at h
  split_ifs at h with hData
  · exact settle_of_pos h
  · exact settle_of_ne hData

theorem feed_append {s : Bytes} (hData : data ≠ []) (hRoom : data.length ≤ r.settle.room)
    (hDone : r.settle.state ≠ .done) :
    r.feed (data ++ s) =
      match (r.settle.accept data).finishSegment with
      | .error e => .malformed data.length e
      | .ok r' => (r'.feed s).after data.length := by
  induction data generalizing r with
  | nil => exact absurd rfl hData
  | cons b data ih =>
    rw [cons_append, feed, if_neg hDone]
    cases data with
    | nil => rfl
    | cons c data =>
      have hOne : ([b] : Bytes).length = 1 := rfl
      simp only [length_cons] at hRoom
      have hLeft : (r.settle.accept [b]).room = r.settle.room - 1 := room_accept (by rw [hOne]; omega)
      have hPos : 0 < (r.settle.accept [b]).room := by omega
      have hSettled := settle_of_room hPos
      rw [finishSegment_of_room hPos]
      dsimp only
      have hRest := @ih (r.settle.accept [b]) (cons_ne_nil _ _) (by rw [hSettled, hLeft, length_cons]; omega)
        (by rw [hSettled, state_accept]; exact hDone)
      rw [hRest, hSettled, accept_accept (by omega) (by rw [hOne, length_cons]; omega)]
      show Verdict.after 1 _ = _
      rw [singleton_append]
      cases (r.settle.accept (b :: c :: data)).finishSegment with
      | error e => simp [Verdict.after, Nat.add_comm]
      | ok r' =>
        simp only [length_cons]
        cases r'.feed s <;> simp [Verdict.after] <;> omega

end Steps

section Runs

variable {r : Reader} {src : Source}
variable {data : Bytes}

theorem Source.bytes_eq_nil : src.bytes = [] ↔ src.fragments = [] := by
  constructor
  · intro h
    cases hFragments : src.fragments with
    | nil => rfl
    | cons f rest =>
      have hFirst : f = [] := flatten_eq_nil_iff.mp h f (by rw [hFragments]; exact mem_cons_self)
      exact absurd hFirst (src.nonempty f (by rw [hFragments]; exact mem_cons_self))
  · intro h
    rw [Source.bytes, h]
    rfl

theorem Source.read_cases {n : Nat} (hn : 0 < n) :
    (src.bytes = [] ∧ src.read n = ([], true, src)) ∨
      ∃ data src', src.read n = (data, src.eager && decide (src'.bytes = []), src') ∧ data ≠ [] ∧ data.length ≤ n ∧
        src.bytes = data ++ src'.bytes ∧ src'.eager = src.eager := by
  obtain ⟨fragments, eager, hNonempty⟩ := src
  cases fragments with
  | nil => exact .inl ⟨rfl, rfl⟩
  | cons f rest =>
    right
    have hf : f ≠ [] := hNonempty f mem_cons_self
    let src' : Source := ⟨remainder (f :: rest) n, eager, remainder_nonempty hNonempty n⟩
    have hEmpty : src'.fragments.isEmpty = decide (src'.bytes = []) := by
      rw [Bool.eq_iff_iff, List.isEmpty_iff, decide_eq_true_iff, Source.bytes_eq_nil]
    refine ⟨f.take n, src', congrArg (fun b => (f.take n, eager && b, src')) hEmpty, ?_,
      length_take_le n f, ?_, rfl⟩
    · rw [ne_eq, take_eq_nil_iff]
      rintro (hZero | hNil)
      · omega
      · exact hf hNil
    · show (f :: rest).flatten = f.take n ++ (remainder (f :: rest) n).flatten
      dsimp only [remainder]
      split_ifs with hAll
      · rw [take_of_length_le hAll, flatten_cons]
      · rw [flatten_cons, flatten_cons, ← append_assoc, take_append_drop]

abbrev Result := Bytes × End × Reader × Source

/-- Everything was passed on, and then the end, but the reader is not done. -/
def Cut (s : Bytes) (result : Result) : Prop := result.1 = s ∧ result.2.1 = .eof ∧ result.2.2.1.done = false

/-- The end of the input came with the last bytes of the frame. -/
def Early (eager : Bool) (n : Nat) (s : Bytes) : Prop := eager = true ∧ n = s.length ∧ 0 < n

instance (eager : Bool) (n : Nat) (s : Bytes) : Decidable (Early eager n s) := inferInstanceAs (Decidable (_ ∧ _))

def Outcome (eager : Bool) (s : Bytes) (result : Result) : Verdict → Prop
  | .truncated => Cut s result
  | .malformed n e =>
    if Early eager n s then Cut s result
    else result.1 = s.take n ∧ result.2.1 = .format e ∧ result.2.2.1.done = false
  | .complete n =>
    if Early eager n s then Cut s result
    else result.1 = s.take n ∧ result.2.1 = .eof ∧ result.2.2.1.done = true ∧ result.2.2.2.bytes = s.drop n

theorem Outcome.append {eager : Bool} {s : Bytes} {result : Result} {v : Verdict} (hData : data ≠ [])
    (hEager : eager = true → s ≠ []) (h : Outcome eager s result v) :
    Outcome eager (data ++ s) (data ++ result.1, result.2) (v.after data.length) := by
  have hPos := length_pos_iff.mpr hData
  have hEarly (n : Nat) : Early eager (data.length + n) (data ++ s) ↔ Early eager n s := by
    unfold Early
    rw [length_append]
    constructor
    · rintro ⟨hTrue, hLength, -⟩
      have hSome := length_pos_iff.mpr (hEager hTrue)
      exact ⟨hTrue, by omega, by omega⟩
    · rintro ⟨hTrue, hLength, hSome⟩
      exact ⟨hTrue, by omega, by omega⟩
  have hCut (hSelf : Cut s result) : Cut (data ++ s) (data ++ result.1, result.2) :=
    ⟨congrArg (data ++ ·) hSelf.1, hSelf.2⟩
  cases v with
  | truncated => exact hCut h
  | malformed n e =>
    simp only [Outcome, Verdict.after, hEarly] at h ⊢
    split_ifs at h ⊢
    · exact hCut h
    · exact ⟨by rw [h.1, take_length_add_append], h.2⟩
  | complete n =>
    simp only [Outcome, Verdict.after, hEarly] at h ⊢
    split_ifs at h ⊢
    · exact hCut h
    · exact ⟨by rw [h.1, take_length_add_append], h.2.1, h.2.2.1, by rw [h.2.2.2, drop_length_add_append]⟩

theorem done_settle : r.settle.done = r.done := by
  unfold settle finishBlock
  split_ifs
  · exact done_afterBlocks _
  · rfl
  · rfl

theorem done_accept (data : Bytes) : (r.accept data).done = r.done := by
  unfold accept
  split_ifs <;> rfl

theorem finishSegment_keeps {r' : Reader} (hFinish : r.finishSegment = .ok r')
    (hOpen : r.state ≠ .blockData → r.segmentOffset ≠ r.segment.length → r.Open) : r'.Open ∧ r'.done = r.done := by
  unfold finishSegment at hFinish
  split_ifs at hFinish with hMore
  · cases hFinish
    refine ⟨?_, rfl⟩
    by_cases hData : r.state = .blockData
    · intro _ hNot
      exact absurd hData hNot
    · exact hOpen hData (hMore.resolve_left hData)
  · exact advance_keeps hFinish

theorem open_accept (hRoom : data.length ≤ r.room) (hPos : 0 < r.room) (hData : r.state ≠ .blockData)
    (hMore : (r.accept data).segmentOffset ≠ (r.accept data).segment.length) : (r.accept data).Open := by
  intro _ _
  unfold room at hRoom hPos
  unfold accept at hMore ⊢
  rw [if_neg hData] at *
  have hLength : (copyAt r.segment r.segmentOffset data).length = r.segment.length := length_copyAt (by omega)
  dsimp only at hMore ⊢
  rw [hLength] at hMore ⊢
  omega

theorem read_cases {n : Nat} (hn : 0 < n) (hOpen : r.Open) (hDone : r.settle.state ≠ .done) :
    (src.bytes = [] ∧ r.read n src = ([], some .eof, r.settle.accept [], src)) ∨
      ∃ data src', data ≠ [] ∧ data.length ≤ r.settle.room ∧ src.bytes = data ++ src'.bytes ∧ src'.eager = src.eager ∧
        r.read n src =
          if src.eager = true ∧ src'.bytes = [] then (data, some .eof, r.settle.accept data, src')
          else
            match (r.settle.accept data).finishSegment with
            | .ok r' => (data, none, r', src')
            | .error e => (data, some (.format e), r.settle.accept data, src') := by
  have hRoom := room_settle_pos hOpen hDone
  unfold Reader.read
  rw [if_neg (by omega)]
  dsimp only
  rw [if_neg hDone]
  have hSource : 0 < min n r.settle.room := by omega
  rcases @Source.read_cases src _ hSource with ⟨hEmpty, hRead⟩ | h
  · left
    rw [hRead]
    exact ⟨hEmpty, rfl⟩
  · right
    obtain ⟨data, src', hRead, hData, hLength, hBytes, hEager⟩ := h
    refine ⟨data, src', hData, hLength.trans (min_le_right _ _), hBytes, hEager, ?_⟩
    rw [hRead]
    simp only [Bool.and_eq_true, decide_eq_true_eq]

theorem feed_of_done (h : r.settle.state = .done) (s : Bytes) : r.feed s = .complete 0 := by
  cases s with
  | nil => rw [feed, if_pos h]
  | cons b s => rw [feed, if_pos h]

theorem read_of_done {n : Nat} (hn : 0 < n) (h : r.settle.state = .done) :
    r.read n src = ([], some .eof, { r.settle with done := true }, src) := by
  unfold Reader.read
  rw [if_neg (by omega)]
  dsimp only
  rw [if_pos h]

theorem readAll_outcome {sizes : Nat → Nat} (hSizes : ∀ k, 0 < sizes k) {fuel : Nat}
    (hOpen : r.Open) (hFlag : r.done = false)
    (hFuel : src.bytes.length < fuel) :
    ∃ result, readAll sizes fuel r src = some result ∧ Outcome src.eager src.bytes result (r.feed src.bytes) := by
  induction fuel generalizing r src with
  | zero => omega
  | succ fuel ih =>
    rw [readAll]
    by_cases hDone : r.settle.state = .done
    · rw [read_of_done (hSizes fuel) hDone, feed_of_done hDone]
      refine ⟨_, rfl, ?_⟩
      have hLate : ¬ Early src.eager 0 src.bytes := fun hEarly => absurd hEarly.2.2 (by omega)
      rw [Outcome, if_neg hLate]
      exact ⟨rfl, rfl, rfl, rfl⟩
    rcases @read_cases r src _ (hSizes fuel) hOpen hDone with ⟨hEmpty, hRead⟩ | hSome
    · rw [hRead, hEmpty]
      refine ⟨_, rfl, ?_⟩
      rw [feed, if_neg hDone]
      exact ⟨rfl, rfl, by rw [done_accept, done_settle, hFlag]⟩
    obtain ⟨data, src', hData, hRoom, hBytes, hEager, hRead⟩ := hSome
    have hFeed := feed_append (s := src'.bytes) hData hRoom hDone
    have hFlag' : (r.settle.accept data).done = false := by rw [done_accept, done_settle, hFlag]
    have hPos := length_pos_iff.mpr hData
    rw [hRead, hBytes, hFeed]
    split_ifs with hEnd
    · -- the end came with these bytes, whatever the reader would have made of them
      refine ⟨_, rfl, ?_⟩
      have hCut : Cut (data ++ src'.bytes) (data, .eof, r.settle.accept data, src') :=
        ⟨by rw [hEnd.2, append_nil], rfl, hFlag'⟩
      have hEarly : Early src.eager data.length (data ++ src'.bytes) := ⟨hEnd.1, by rw [hEnd.2, append_nil], hPos⟩
      rw [hEnd.2] at hCut hEarly ⊢
      cases (r.settle.accept data).finishSegment with
      | error e =>
        simp only [Outcome, if_pos hEarly]
        exact hCut
      | ok r' =>
        simp only [feed]
        split_ifs
        · simp only [Verdict.after, Outcome, Nat.add_zero, if_pos hEarly]
          exact hCut
        · exact hCut
    · have hMore : src.eager = true → src'.bytes ≠ [] := fun hTrue hNil => hEnd ⟨hTrue, hNil⟩
      cases hFinish : (r.settle.accept data).finishSegment with
      | error e =>
        refine ⟨_, rfl, ?_⟩
        rw [Outcome, if_neg]
        · exact ⟨take_left.symm, rfl, hFlag'⟩
        · rintro ⟨hTrue, hLength, -⟩
          have hRest := length_pos_iff.mpr (hMore hTrue)
          rw [length_append] at hLength
          omega
      | ok r' =>
        have hKeeps := finishSegment_keeps hFinish fun hNot hOffset =>
          open_accept hRoom (room_settle_pos hOpen hDone) (by rwa [state_accept] at hNot) hOffset
        rw [hBytes, length_append] at hFuel
        obtain ⟨result, hRest, hOutcome⟩ := @ih r' src' hKeeps.1 (hKeeps.2.trans hFlag') (by omega)
        rw [hEager] at hOutcome
        refine ⟨(data ++ result.1, result.2), ?_, hOutcome.append hData hMore⟩
        show (readAll sizes fuel r' src').map _ = _
        rw [hRest]
        rfl

end Runs

section Format

variable {state : FrameState} {m : Nat} {exactOuter : Bool}

/-- The blocks of a frame: each has its header, and the last one says so. They are refused at a block
of the reserved type. -/
inductive Blocks : Bool → Bytes → Prop
  | last {header data : Bytes} (hHeader : header.length = 3) (hType : blockType header ≠ 3)
      (hLast : lastBlock header = true) (hData : data.length = blockSize header) : Blocks true (header ++ data)
  | more {whole : Bool} {header data rest : Bytes} (hHeader : header.length = 3) (hType : blockType header ≠ 3)
      (hLast : lastBlock header = false) (hData : data.length = blockSize header) (hRest : Blocks whole rest) :
      Blocks whole (header ++ (data ++ rest))
  | reserved {header : Bytes} (hHeader : header.length = 3) (hType : blockType header = 3) : Blocks false header

def checksumBytes (checksum : Bool) : Nat := if checksum then 4 else 0

def wanted (exactOuter : Bool) (d : UInt8) : Bool :=
  d &&& 0x18 == 0 && !(exactOuter && (dictionaryFlag d != 0 || !checksumFlag d))

/-- What decides: one complete frame, of which an outer one has a checksum and no dictionary, or a
front of none up to the segment that gives it away. -/
inductive Decides (exactOuter : Bool) : Bool → Bytes → Prop
  | magic {s : Bytes} (hLength : s.length = 4) (hMagic : s ≠ [0x28, 0xb5, 0x2f, 0xfd]) : Decides exactOuter false s
  | descriptor {d : UInt8} (hWanted : wanted exactOuter d = false) :
      Decides exactOuter false ([0x28, 0xb5, 0x2f, 0xfd] ++ [d])
  | blocks {whole : Bool} {d : UInt8} {header blocks check : Bytes} (hWanted : wanted exactOuter d = true)
      (hHeader : header.length = headerBytes d) (hBlocks : Blocks whole blocks)
      (hCheck : check.length = checksumBytes (whole && checksumFlag d)) :
      Decides exactOuter whole ([0x28, 0xb5, 0x2f, 0xfd] ++ ([d] ++ (header ++ (blocks ++ check))))

abbrev IsFrame (exactOuter : Bool) (s : Bytes) : Prop := Decides exactOuter true s

/-- The input is accepted or refused after `n` bytes. -/
def Verdict.Falls (whole : Bool) (n : Nat) : Verdict → Prop
  | complete m => whole = true ∧ n = m
  | malformed m _ => whole = false ∧ n = m
  | truncated => False

variable {r : Reader} {s : Bytes} {n : Nat} {whole : Bool}

theorem falls_after {v : Verdict} {k : Nat} : (v.after k).Falls whole n ↔ ∃ m, v.Falls whole m ∧ n = k + m := by
  cases v <;> simp [Verdict.after, Verdict.Falls, and_assoc]

theorem feed_settle : r.settle.feed s = r.feed s := by
  have hTwice : r.settle.settle = r.settle := by
    by_cases hData : r.settle.state = .blockData
    · -- data that is left is data that is not used up
      unfold settle at hData
      split_ifs at hData with hEmpty hOne
      · unfold finishBlock afterBlocks at hData
        split_ifs at hData
        · cases hData
        · cases hData
      · cases hData
      · have hSame : r.settle = r := by
          unfold settle
          rw [if_neg hEmpty]
        rw [hSame, hSame]
    · exact settle_of_ne hData
  cases s with
  | nil => rw [feed, feed, hTwice]
  | cons b s => rw [feed, feed, hTwice]

theorem feed_short (hDone : r.settle.state ≠ .done) (h : s.length < r.settle.room) : r.feed s = .truncated := by
  cases s with
  | nil => rw [feed, if_neg hDone]
  | cons b s =>
    have hLeft := room_accept (r := r.settle) h.le
    have hPos : 0 < (r.settle.accept (b :: s)).room := by omega
    have hFeed := feed_append (s := []) (cons_ne_nil b s) h.le hDone
    rw [append_nil, finishSegment_of_room hPos] at hFeed
    rw [hFeed]
    dsimp only
    rw [feed, settle_of_room hPos, state_accept, if_neg hDone]
    rfl

theorem feed_segment (hDone : state ≠ .done) (hData : state ≠ .blockData) (hm : 0 < m) :
    (r.turn state (make m)).feed s =
      if s.length < m then .truncated
      else
        match { r with state := state, segment := s.take m, segmentOffset := m }.advance with
        | .error e => .malformed m e
        | .ok r' => (r'.feed (s.drop m)).after m := by
  have hTurn : (r.turn state (make m)).state ≠ .blockData := hData
  have hSettle : (r.turn state (make m)).settle = r.turn state (make m) := settle_of_ne hTurn
  have hRoom : (r.turn state (make m)).settle.room = m := by
    rw [hSettle, room, if_neg hTurn]
    show (make m).length - 0 = m
    rw [length_make, Nat.sub_zero]
  split_ifs with hShort
  · exact feed_short (by rwa [hSettle]) (by rwa [hRoom])
  · have hLength : (s.take m).length = m := length_take_of_le (by omega)
    have hSome : s.take m ≠ [] := ne_nil_of_length_pos (by omega)
    have hFull : (r.turn state (make m)).accept (s.take m) =
        { r with state := state, segment := s.take m, segmentOffset := m } := by
      rw [accept, if_neg hTurn]
      show { r with
        state := state
        segment := copyAt (make m) 0 (s.take m)
        segmentOffset := 0 + (s.take m).length } = _
      rw [hLength, Nat.zero_add, copyAt, hLength, Nat.zero_add,
        drop_of_length_le (length_make m).le, append_nil]
      rfl
    have hFeed := feed_append (r := r.turn state (make m)) (s := s.drop m) hSome
        (by rw [hRoom, hLength]) (by rwa [hSettle])
    rw [take_append_drop, hSettle, hFull, hLength] at hFeed
    rw [hFeed, finishSegment, if_neg]
    rw [not_or, not_not]
    exact ⟨hData, hLength.symm⟩

theorem feed_data (hState : r.state = .blockData) :
    r.feed s =
      if s.length < r.blockBytes then .truncated
      else ({ r with blockBytes := 0 }.feed (s.drop r.blockBytes)).after r.blockBytes := by
  by_cases hZero : r.blockBytes = 0
  · have hSelf : { r with blockBytes := 0 } = r := by
      rw [← hZero]
    rw [hZero, if_neg (by omega), hSelf, drop_zero]
    cases r.feed s <;> simp [Verdict.after]
  have hSettle : r.settle = r := settle_of_pos (by omega)
  have hRoom : r.settle.room = r.blockBytes := by rw [hSettle, room, if_pos hState]
  have hDone : r.settle.state ≠ .done := by
    rw [hSettle, hState]
    decide
  split_ifs with hShort
  · exact feed_short hDone (by omega)
  · have hLength : (s.take r.blockBytes).length = r.blockBytes := length_take_of_le (by omega)
    have hFeed := feed_append (s := s.drop r.blockBytes)
        (ne_nil_of_length_pos (by omega : 0 < (s.take r.blockBytes).length))
      (by omega) hDone
    have hFull : r.accept (s.take r.blockBytes) = { r with blockBytes := 0 } := by
      rw [accept, if_pos hState, hLength, Nat.sub_self]
    rw [take_append_drop, hSettle, hFull, hLength] at hFeed
    rw [hFeed, finishSegment, if_pos (.inl hState)]

theorem feed_afterBlocks {checksum : Bool} : ((r.afterBlocks checksum).feed s).Falls whole n ↔
    whole = true ∧ n = checksumBytes checksum ∧ n ≤ s.length := by
  cases checksum with
  | false =>
    have hDone : (r.afterBlocks false).settle.state = .done := rfl
    rw [feed_of_done hDone]
    exact and_congr_right fun _ => (and_iff_left_of_imp fun h => h.le.trans (Nat.zero_le _)).symm
  | true =>
    show ((r.turn .checksum (make 4)).feed s).Falls _ _ ↔ _
    rw [feed_segment (by decide) (by decide) (by omega)]
    split_ifs with hShort
    · refine iff_of_false id ?_
      rintro ⟨-, rfl, hFits⟩
      exact absurd hFits (Nat.not_le.mpr hShort)
    · simp only [advance]
      rw [feed_of_done rfl]
      refine and_congr_right fun _ => ?_
      simp only [checksumBytes, if_true]
      omega

theorem feed_block {header rest : Bytes} (hHeader : header.length = 3) :
    (r.turn .blockHeader (make 3)).feed (header ++ rest) =
      if blockType header = 3 then .malformed 3 .blockType
      else if rest.length < blockSize header then .truncated
      else
        ((if lastBlock header then { r with blockBytes := 0 }.afterBlocks r.hasChecksum
          else { r with blockBytes := 0 }.turn .blockHeader (make 3)).feed (rest.drop (blockSize header))).after
          (3 + blockSize header) := by
  have hTake : (header ++ rest).take 3 = header := take_left' hHeader
  have hDrop : (header ++ rest).drop 3 = rest := drop_left' hHeader
  have hAfter (short : Prop) [Decidable short] (v : Verdict) (k : Nat) :
      (if short then .truncated else v.after k).after 3 = if short then .truncated else v.after (3 + k) := by
    split_ifs
    · rfl
    · cases v <;> simp [Verdict.after] <;> omega
  rw [feed_segment (by decide) (by decide) (by omega), if_neg (by rw [length_append]; omega), hTake, hDrop]
  simp only [advance]
  by_cases hType : blockType header = 3
  · rw [if_pos hType, if_pos hType]
  rw [if_neg hType, if_neg hType]
  by_cases hLast : lastBlock header = true
  · rw [if_pos hLast, if_pos hLast]
    by_cases hEmpty : blockSize header = 0
    · rw [if_pos hEmpty, hEmpty, if_neg (by omega), drop_zero]
      cases r.hasChecksum <;> rfl
    · rw [if_neg hEmpty, ← hAfter]
      dsimp only
      rw [feed_data rfl, ← feed_settle]
      cases r.hasChecksum <;> rfl
  · rw [if_neg hLast, if_neg hLast, ← hAfter]
    dsimp only
    rw [feed_data rfl, ← feed_settle]
    rfl

theorem blocks_of_falls (h : ((r.turn .blockHeader (make 3)).feed s).Falls whole n) :
    ∃ blocks check rest, s = blocks ++ (check ++ rest) ∧ Blocks whole blocks ∧
      check.length = checksumBytes (whole && r.hasChecksum) ∧ n = blocks.length + check.length := by
  -- by the length of the input: every block has a header
  induction hLength : s.length using Nat.strong_induction_on generalizing s n r with
  | _ length ih =>
    by_cases hShort : s.length < 3
    · rw [feed_segment (by decide) (by decide) (by omega), if_pos hShort] at h
      cases h
    have hHeader : (s.take 3).length = 3 := length_take_of_le (by omega)
    have hSplit := take_append_drop 3 s
    generalize s.take 3 = header at hHeader hSplit
    generalize s.drop 3 = rest at hSplit
    subst hSplit
    rw [feed_block hHeader] at h
    split_ifs at h with hType hData hLast
    · obtain ⟨rfl, rfl⟩ := h
      exact ⟨header, [], rest, rfl, .reserved hHeader hType, rfl, hHeader.symm⟩
    · cases h
    · obtain ⟨m, hFeed, rfl⟩ := falls_after.mp h
      obtain ⟨rfl, hCheck, hFits⟩ := feed_afterBlocks.mp hFeed
      rw [length_drop] at hFits
      refine ⟨header ++ rest.take (blockSize header), (rest.drop (blockSize header)).take m,
        (rest.drop (blockSize header)).drop m, ?_,
        .last hHeader hType hLast (length_take_of_le (by omega)), ?_, ?_⟩
      · rw [take_append_drop, append_assoc, take_append_drop]
      · rw [length_take_of_le (by rw [length_drop]; omega), hCheck, Bool.true_and]
      · rw [length_append, length_take_of_le (by omega),
          length_take_of_le (by rw [length_drop]; omega)]
        omega
    · obtain ⟨m, hFeed, rfl⟩ := falls_after.mp h
      rw [length_append] at hLength
      obtain ⟨blocks, check, tail, hTail, hBlocks, hCheck, rfl⟩ :=
        ih _ (by rw [length_drop]; omega) hFeed rfl
      refine ⟨header ++ (rest.take (blockSize header) ++ blocks), check, tail, ?_,
        .more hHeader hType (by simpa using hLast) (length_take_of_le (by omega)) hBlocks, hCheck, ?_⟩
      · rw [append_assoc, append_assoc, ← hTail, take_append_drop]
      · simp only [length_append]
        rw [length_take_of_le (by omega)]
        omega

theorem falls_of_blocks {blocks check : Bytes} (rest : Bytes) (hBlocks : Blocks whole blocks)
    (hCheck : check.length = checksumBytes (whole && r.hasChecksum)) :
    ((r.turn .blockHeader (make 3)).feed (blocks ++ (check ++ rest))).Falls whole
      (blocks.length + check.length) := by
  induction hBlocks generalizing r with
  | @last header data hHeader hType hLast hData =>
    rw [append_assoc, feed_block hHeader, if_neg hType, if_neg (by rw [length_append]; omega), if_pos hLast,
      ← hData, drop_left, falls_after]
    refine ⟨check.length, feed_afterBlocks.mpr ⟨rfl, hCheck, ?_⟩, ?_⟩
    · rw [length_append]
      omega
    · rw [length_append, hHeader]
  | @more _ header data tail hHeader hType hLast hData _ ih =>
    rw [append_assoc, append_assoc, feed_block hHeader, if_neg hType,
      if_neg (by rw [length_append]; omega),
      if_neg (by rw [hLast]; decide), ← hData, drop_left, falls_after]
    refine ⟨tail.length + check.length, ih hCheck, ?_⟩
    simp only [length_append]
    omega
  | @reserved header hHeader hType =>
    rw [feed_block hHeader, if_pos hType, eq_nil_of_length_eq_zero hCheck]
    exact ⟨rfl, hHeader⟩

theorem feed_segment_falls (hDone : state ≠ .done) (hData : state ≠ .blockData) (hm : 0 < m) :
    ((r.turn state (make m)).feed s).Falls whole n ↔
      ∃ segment rest, s = segment ++ rest ∧ segment.length = m ∧
        match { r with state := state, segment := segment, segmentOffset := m }.advance with
        | .error _ => whole = false ∧ n = m
        | .ok r' => ∃ k, (r'.feed rest).Falls whole k ∧ n = m + k := by
  rw [feed_segment hDone hData hm]
  constructor
  · intro h
    split_ifs at h with hShort
    · cases h
    refine ⟨s.take m, s.drop m, (take_append_drop m s).symm, length_take_of_le (by omega), ?_⟩
    split at h
    · exact h
    · exact falls_after.mp h
  · rintro ⟨segment, rest, rfl, hLength, h⟩
    rw [if_neg (by rw [length_append]; omega), take_left' hLength, drop_left' hLength]
    split
    · rename_i hAdvance
      rwa [hAdvance] at h
    · rename_i hAdvance
      rw [hAdvance] at h
      exact falls_after.mpr h

theorem feed_magic : ((r.turn .magic (make 4)).feed s).Falls whole n ↔
    ∃ magic rest, s = magic ++ rest ∧ magic.length = 4 ∧
      (magic ≠ [0x28, 0xb5, 0x2f, 0xfd] ∧ whole = false ∧ n = 4 ∨ magic = [0x28, 0xb5, 0x2f, 0xfd] ∧
        ∃ k, ((r.turn .descriptor (make 1)).feed rest).Falls whole k ∧ n = 4 + k) := by
  rw [feed_segment_falls (by decide) (by decide) (by omega)]
  refine exists₂_congr fun magic rest => and_congr_right fun _ => and_congr_right fun _ => ?_
  by_cases hMagic : magic = [0x28, 0xb5, 0x2f, 0xfd]
  · simp [advance, hMagic]
    rfl
  · simp [advance, hMagic]

theorem feed_descriptor : ((r.turn .descriptor (make 1)).feed s).Falls whole n ↔
    ∃ d rest, s = [d] ++ rest ∧ (wanted r.exactOuter d = false ∧ whole = false ∧ n = 1 ∨
      wanted r.exactOuter d = true ∧ ∃ k,
        (({ r with hasChecksum := checksumFlag d }.turn .window (make (headerBytes d))).feed rest).Falls whole k ∧
          n = 1 + k) := by
  have hAdvance (d : UInt8) : { r with state := .descriptor, segment := [d], segmentOffset := 1 }.advance =
      if wanted r.exactOuter d then .ok ({ r with hasChecksum := checksumFlag d }.turn .window (make (headerBytes d)))
      else .error (if d &&& 0x18 ≠ 0 then .reservedBits else .contract) := by
    simp only [advance, getD_cons_zero, wanted]
    split_ifs <;> simp_all
    rfl
  rw [feed_segment_falls (by decide) (by decide) (by omega)]
  constructor
  · rintro ⟨segment, rest, rfl, hSegment, h⟩
    obtain ⟨d, rfl⟩ := length_eq_one_iff.mp hSegment
    rw [hAdvance] at h
    refine ⟨d, rest, rfl, ?_⟩
    cases hWanted : wanted r.exactOuter d <;> simpa [hWanted] using h
  · rintro ⟨d, rest, rfl, h⟩
    refine ⟨[d], rest, rfl, rfl, ?_⟩
    rw [hAdvance]
    cases hWanted : wanted r.exactOuter d <;> simpa [hWanted] using h

theorem feed_new : ((newZstdFrameReader exactOuter).feed s).Falls whole n ↔
    n ≤ s.length ∧ Decides exactOuter whole (s.take n) := by
  show (((newZstdFrameReader exactOuter).turn .magic (make 4)).feed s).Falls _ _ ↔ _
  rw [feed_magic]
  constructor
  · rintro ⟨magic, s₁, rfl, hLength, ⟨hMagic, rfl, rfl⟩ | ⟨rfl, k₁, hFeed, rfl⟩⟩
    · rw [take_left' hLength, length_append]
      exact ⟨by omega, .magic hLength hMagic⟩
    obtain ⟨d, s₂, rfl, ⟨hWanted, rfl, rfl⟩ | ⟨hWanted, k₂, hWindow, rfl⟩⟩ := feed_descriptor.mp hFeed
    · exact ⟨by simp, .descriptor hWanted⟩
    rw [feed_segment_falls (by decide) (by decide) (headerBytes_pos d)] at hWindow
    obtain ⟨header, s₃, rfl, hHeader, k₃, hRest, rfl⟩ := hWindow
    obtain ⟨blocks, check, rest, rfl, hBlocks, hCheck, rfl⟩ := blocks_of_falls hRest
    have hWhole : [0x28, 0xb5, 0x2f, 0xfd] ++ ([d] ++ (header ++ (blocks ++ (check ++ rest)))) =
        ([0x28, 0xb5, 0x2f, 0xfd] ++ ([d] ++ (header ++ (blocks ++ check)))) ++ rest := by
      simp only [append_assoc]
    have hLength : ([0x28, 0xb5, 0x2f, 0xfd] ++ ([d] ++ (header ++ (blocks ++ check)))).length =
        4 + (1 + (headerBytes d + (blocks.length + check.length))) := by
      simp only [length_append, hHeader, length_cons, length_nil]
    rw [hWhole, take_left' hLength, length_append, hLength]
    exact ⟨by omega, .blocks hWanted hHeader hBlocks hCheck⟩
  · rintro ⟨hFits, h⟩
    have hLength : (s.take n).length = n := length_take_of_le hFits
    have hSplit := take_append_drop n s
    generalize s.take n = front at h hLength hSplit
    generalize s.drop n = rest at hSplit
    subst hSplit hLength
    cases h with
    | magic hLength hMagic => exact ⟨front, rest, rfl, hLength, .inl ⟨hMagic, rfl, hLength⟩⟩
    | @descriptor d hWanted =>
      refine ⟨_, [d] ++ rest, rfl, rfl, .inr ⟨rfl, 1, ?_, rfl⟩⟩
      exact feed_descriptor.mpr ⟨d, rest, rfl, .inl ⟨hWanted, rfl, rfl⟩⟩
    | @blocks _ d header blocks check hWanted hHeader hBlocks hCheck =>
      refine ⟨_, [d] ++ (header ++ (blocks ++ (check ++ rest))), by simp only [append_assoc], rfl,
        .inr ⟨rfl, 1 + (headerBytes d + (blocks.length + check.length)), ?_, ?_⟩⟩
      · refine feed_descriptor.mpr ⟨d, _, rfl, .inr ⟨hWanted, _, ?_, rfl⟩⟩
        refine (feed_segment_falls (by decide) (by decide) (headerBytes_pos d)).mpr
          ⟨header, blocks ++ (check ++ rest), rfl, hHeader, _, ?_, rfl⟩
        exact falls_of_blocks rest hBlocks hCheck
      · simp only [length_append, hHeader, length_cons, length_nil]

theorem feed_eq_complete :
    (newZstdFrameReader exactOuter).feed s = .complete n ↔ n ≤ s.length ∧ IsFrame exactOuter (s.take n) := by
  rw [← feed_new]
  cases (newZstdFrameReader exactOuter).feed s <;> simp [Verdict.Falls, eq_comm]

end Format

section Passing

variable {exactOuter whole : Bool} {s : Bytes}
variable {r : Reader} {n : Nat}
variable {src : Source} {result : Result} {eager : Bool}

theorem pos_of_falls (h : ((newZstdFrameReader exactOuter).feed s).Falls whole n) : 0 < n := by
  obtain ⟨-, hDecides⟩ := feed_new.mp h
  by_contra hZero
  rw [Nat.eq_zero_of_not_pos hZero, take_zero] at hDecides
  generalize hNil : ([] : Bytes) = front at hDecides
  cases hDecides <;> simp_all

theorem requirePhysicalEOF_eq_ok : requirePhysicalEOF r src = .ok () ↔ r.done = true ∧ src.bytes = [] := by
  unfold requirePhysicalEOF
  cases r.done with
  | false => simp
  | true =>
    rcases @Source.read_cases src 1 (by omega) with ⟨hEmpty, hRead⟩ | ⟨data, src', hRead, hData, -, hBytes, -⟩
    · simp [hRead, hEmpty]
    · simp [hRead, hData, hBytes]

/-- The longest front of the input that is one frame was passed on and then the end, and the input
is accepted if nothing follows; or there is no such front, the format was refused, and so is the
input. -/
def PassesFrame (exactOuter : Bool) (s : Bytes) (result : Result) : Prop :=
  (result.2.1 = .eof ∧ IsFrame exactOuter result.1 ∧ result.1 <+: s ∧
    (∀ t, t <+: s → IsFrame exactOuter t → t.length ≤ result.1.length) ∧
    (requirePhysicalEOF result.2.2.1 result.2.2.2 = .ok () ↔ result.1 = s)) ∨
  (∃ e, result.2.1 = .format e) ∧ requirePhysicalEOF result.2.2.1 result.2.2.2 ≠ .ok () ∧
    ∀ t, t <+: s → ¬ IsFrame exactOuter t

theorem feed_of_isFrame {t : Bytes} (hFront : t <+: s) (h : IsFrame exactOuter t) :
    (newZstdFrameReader exactOuter).feed s = .complete t.length := by
  obtain ⟨rest, rfl⟩ := hFront
  rw [feed_eq_complete, take_left]
  exact ⟨by rw [length_append]; omega, h⟩

theorem not_passesFrame_of_cut (hCut : Cut s result) : ¬ PassesFrame exactOuter s result := by
  obtain ⟨hOut, hEnd, hDone⟩ := hCut
  rintro (⟨-, -, -, -, hPhysical⟩ | ⟨⟨e, hFormat⟩, -⟩)
  · have hOk := (requirePhysicalEOF_eq_ok.mp (hPhysical.mpr hOut)).1
    rw [hDone] at hOk
    cases hOk
  · rw [hEnd] at hFormat
    cases hFormat

theorem early_iff (eager : Bool) (h : ((newZstdFrameReader exactOuter).feed s).Falls whole n) :
    Early eager n s ↔ ¬ (eager = true → n < s.length) := by
  have hPos := pos_of_falls h
  have hLe := (feed_new.mp h).1
  rw [Classical.not_imp]
  exact and_congr_right fun _ => ⟨fun hEarly => by omega, fun hLate => ⟨by omega, hPos⟩⟩

theorem passesFrame_iff (h : Outcome eager s result ((newZstdFrameReader exactOuter).feed s)) :
    PassesFrame exactOuter s result ↔
      ∃ whole n, ((newZstdFrameReader exactOuter).feed s).Falls whole n ∧ (eager = true → n < s.length) := by
  cases hFeed : (newZstdFrameReader exactOuter).feed s with
  | truncated =>
    rw [hFeed] at h
    simp [Verdict.Falls, not_passesFrame_of_cut h]
  | malformed n e =>
    have hLate := early_iff eager (by rw [hFeed]; exact ⟨rfl, rfl⟩ : (feed _ s).Falls false n)
    rw [hFeed, Outcome] at h
    simp only [Verdict.Falls, and_assoc, exists_and_left, exists_eq_left]
    split_ifs at h with hCut
    · simp only [not_passesFrame_of_cut h, hLate.mp hCut]
    · obtain ⟨-, hFormat, hDone⟩ := h
      refine iff_of_true (.inr ⟨⟨e, hFormat⟩, fun hOk => ?_, ?_⟩) (not_not.mp (hLate.not.mp hCut))
      · exact Bool.noConfusion (hDone.symm.trans (requirePhysicalEOF_eq_ok.mp hOk).1)
      · intro t hFront hFrame
        rw [feed_of_isFrame hFront hFrame] at hFeed
        cases hFeed
  | complete n =>
    obtain ⟨hLe, hFrame⟩ := feed_eq_complete.mp hFeed
    have hLate := early_iff eager (by rw [hFeed]; exact ⟨rfl, rfl⟩ : (feed _ s).Falls true n)
    rw [hFeed, Outcome] at h
    simp only [Verdict.Falls, and_assoc, exists_and_left, exists_eq_left]
    split_ifs at h with hCut
    · simp only [not_passesFrame_of_cut h, hLate.mp hCut]
    · obtain ⟨hOut, hEnd, hDone, hRest⟩ := h
      refine iff_of_true (.inl ⟨hEnd, by rwa [hOut], by rw [hOut]; exact take_prefix n s, ?_, ?_⟩)
        (not_not.mp (hLate.not.mp hCut))
      · intro t hFront hOther
        rw [feed_of_isFrame hFront hOther] at hFeed
        cases hFeed
        rw [hOut, length_take_of_le hLe]
      · rw [requirePhysicalEOF_eq_ok, hRest, hOut, drop_eq_nil_iff, take_eq_self_iff]
        simp [hDone]

theorem exists_falls_iff :
    (∃ whole n, ((newZstdFrameReader exactOuter).feed s).Falls whole n ∧ (eager = true → n < s.length)) ↔
      ∃ whole t, Decides exactOuter whole t ∧ t <+: s ∧ (eager = true → t ≠ s) := by
  constructor
  · rintro ⟨whole, n, h, hMore⟩
    refine ⟨whole, s.take n, (feed_new.mp h).2, take_prefix n s, fun hEager hAll => ?_⟩
    exact absurd (take_eq_self_iff s |>.mp hAll) (Nat.not_le.mpr (hMore hEager))
  · rintro ⟨whole, t, hDecides, hFront, hMore⟩
    refine ⟨whole, t.length, feed_new.mpr ⟨hFront.length_le, ?_⟩, fun hEager => ?_⟩
    · rwa [← prefix_iff_eq_take.mp hFront]
    · exact lt_of_le_of_ne hFront.length_le fun hLength => hMore hEager (hFront.eq_of_length hLength)

def Reads (p q : Reader × Source) : Prop := ∃ n data, 0 < n ∧ p.1.read n p.2 = (data, none, q.1, q.2)

theorem open_of_reads {p q : Reader × Source} (hOpen : p.1.Open) (h : Reads p q) : q.1.Open := by
  obtain ⟨n, bytes, hn, hRead⟩ := h
  by_cases hDone : p.1.settle.state = .done
  · rw [read_of_done hn hDone] at hRead
    cases hRead
  rcases @read_cases p.1 p.2 n hn hOpen hDone with ⟨-, hCase⟩ | ⟨data, src', -, hRoom, -, -, hCase⟩
  · rw [hCase] at hRead
    cases hRead
  · rw [hCase] at hRead
    split_ifs at hRead
    · cases hRead
    · split at hRead
      · rename_i r' hFinish
        cases hRead
        exact (finishSegment_keeps hFinish fun hNot hOffset =>
          open_accept hRoom (room_settle_pos hOpen hDone) (by rwa [state_accept] at hNot) hOffset).1
      · cases hRead

theorem read_progress (hn : 0 < n) (hOpen : r.Open) : (r.read n src).1 ≠ [] ∨ (r.read n src).2.1 ≠ none := by
  by_cases hDone : r.settle.state = .done
  · rw [read_of_done hn hDone]
    exact .inr (by simp)
  rcases @read_cases r src n hn hOpen hDone with ⟨-, hCase⟩ | ⟨data, src', hData, -, -, -, hCase⟩
  · rw [hCase]
    exact .inr (by simp)
  · rw [hCase]
    left
    split_ifs
    · exact hData
    · split
      · exact hData
      · exact hData

/-- Reading to the end passes one frame if the input does not stop within a frame, and does not tell
its end together with the bytes that decide. Every read before that makes progress. -/
theorem frame_reader (exactOuter : Bool) (src : Source) (sizes : Nat → Nat) (hSizes : ∀ k, 0 < sizes k) :
    (∃ result, readAll sizes (src.bytes.length + 1) (newZstdFrameReader exactOuter) src = some result ∧
      (PassesFrame exactOuter src.bytes result ↔
        ∃ whole t, Decides exactOuter whole t ∧ t <+: src.bytes ∧ (src.eager = true → t ≠ src.bytes))) ∧
    ∀ r src', Relation.ReflTransGen Reads (newZstdFrameReader exactOuter, src) (r, src') → ∀ n, 0 < n →
      (r.read n src').1 ≠ [] ∨ (r.read n src').2.1 ≠ none := by
  have hOpen : (newZstdFrameReader exactOuter).Open := fun _ _ => by simp [newZstdFrameReader]
  constructor
  · obtain ⟨result, hRun, hOutcome⟩ := readAll_outcome hSizes hOpen rfl (Nat.lt_succ_self src.bytes.length)
    exact ⟨result, hRun, (passesFrame_iff hOutcome).trans exists_falls_iff⟩
  · intro r src' hRun n hn
    have hLater : ∀ p, Relation.ReflTransGen Reads (newZstdFrameReader exactOuter, src) p → p.1.Open := by
      intro p hRun
      induction hRun with
      | refl => exact hOpen
      | tail _ hRead ih => exact open_of_reads ih hRead
    exact read_progress hn (hLater _ hRun)

def emptyFrame : Bytes := [0x28, 0xb5, 0x2f, 0xfd, 0x24, 0, 1, 0, 0] ++ contentChecksum []

def inOnePiece (s : Bytes) (eager : Bool) (h : s ≠ []) : Source := ⟨[s], eager, by simpa using h⟩

theorem isFrame_emptyFrame : IsFrame true emptyFrame :=
  @Decides.blocks true true 0x24 [0] [1, 0, 0] (contentChecksum []) (by decide) rfl
    (@Blocks.last [1, 0, 0] [] rfl (by decide) (by decide) (by decide)) rfl

theorem frame_reader_emptyFrame :
    ∃ result, readAll (fun _ => 1) 14 (newZstdFrameReader true)
    (inOnePiece emptyFrame false (by decide)) = some result ∧
      PassesFrame true emptyFrame result := by
  obtain ⟨⟨result, hRun, hPasses⟩, -⟩ :=
    frame_reader true (inOnePiece emptyFrame false (by decide)) (fun _ => 1) fun _ => Nat.one_pos
  exact ⟨result, hRun, hPasses.mpr ⟨true, emptyFrame, isFrame_emptyFrame, prefix_append .., by decide⟩⟩

/-- The output, the end, and the verdict of the check after it. -/
def observed (result : Result) : Bytes × End × Except FormatError Unit :=
  (result.1, result.2.1, requirePhysicalEOF result.2.2.1 result.2.2.2)

/-- The same frame is accepted if its end is told after the last bytes, and refused if it is told
with them; a cut frame is passed on without an error of its format. -/
theorem delivery_decides :
    (readAll (fun _ => 8) 14 (newZstdFrameReader true) (inOnePiece emptyFrame false (by decide))).map observed =
        some (emptyFrame, .eof, .ok ()) ∧
      (readAll (fun _ => 8) 14 (newZstdFrameReader true) (inOnePiece emptyFrame true (by decide))).map observed =
        some (emptyFrame, .eof, .error .notTerminated) ∧
      (readAll (fun _ => 8) 14 (newZstdFrameReader true) (inOnePiece (emptyFrame.take 4) false (by decide))).map
      observed =
        some (emptyFrame.take 4, .eof, .error .notTerminated) := by
  decide

end Passing

end Camp.CampKit.Frame
