import Camp.S3Store.Outcomes

/-!
# The parts of an upload

All parts of an upload are read from one reader, and the service may answer a part before it has
read all of it.
-/

namespace Camp.S3Store

open Wire Wire.Utf8 Program Program.Exchange Store List Program.Machine

variable {D F V : Type} [DecidableEq D] {naming : Objects.Service Bytes Bytes Bytes D F V} {s : Store}

section Slices

/-- What the request of a part has taken from the source. -/
def sliceOf (d : Deed) : Option Bytes :=
  match exchanged d with
  | some (.uploadPart _ _ _ body, .ok response) => some (body.take response.consumed)
  | _ => none

def sourceOf : Deed → Option Body
  | ⟨.consult .source, some (.reader body), _, _⟩ => some body
  | _ => none

/-- The parts of a loop from the part `number` on: what each took, and what is left. -/
inductive Sliced : Nat → Nat → Bytes → List Bytes → Bytes → Prop
  | done {number remaining : Nat} {content : Bytes} (h : ¬ (remaining > 0 ∨ number = 1)) :
      Sliced number remaining content [] content
  | part {number remaining : Nat} {content slice rest : Bytes} {slices : List Bytes} (h : remaining > 0 ∨ number = 1)
      (hSlice : slice <+: content.take (min remaining multipartPartSize))
      (hRest : Sliced (number + 1) (remaining - min remaining multipartPartSize)
        (content.drop slice.length) slices rest) :
      Sliced number remaining content (slice :: slices) rest

theorem multipartPartSize_eq : multipartPartSize = 8388608 := rfl

variable {number remaining : Nat} {content rest : Bytes} {slices : List Bytes}

theorem Sliced.flatten_append (h : Sliced number remaining content slices rest) : slices.flatten ++ rest = content := by
  induction h with
  | done => rfl
  | part h hSlice _ ih =>
    rw [flatten_cons, append_assoc, ih]
    exact prefix_iff_eq_append.mp (hSlice.trans ( take_prefix _ _))

theorem Sliced.length_flatten_le (h : Sliced number remaining content slices rest) :
    slices.flatten.length ≤ remaining := by
  induction h with
  | done => exact Nat.zero_le _
  | part h hSlice _ ih =>
    have hLength := hSlice.length_le
    rw [length_take] at hLength
    rw [flatten_cons, length_append]
    omega

theorem Sliced.length_eq (h : Sliced number remaining content slices rest) (hNumber : 0 < number) :
    slices.length = if number = 1 ∧
    remaining = 0 then 1 else (remaining + (multipartPartSize - 1)) / multipartPartSize := by
  induction h with
  | done h =>
    rw [if_neg (by omega), Nat.eq_zero_of_not_pos (fun hPos => h (.inl hPos))]
    rfl
  | part h hSlice _ ih =>
    rw [length_cons, ih (by omega), if_neg (by omega), multipartPartSize_eq]
    split_ifs <;> omega

/-- Where all the bytes were taken, each part but the last is whole. -/
theorem Sliced.whole (h : Sliced number remaining content slices rest) (hNumber : 0 < number)
    (hAll : slices.flatten.length = remaining) :
    ∀ slice ∈ slices.dropLast, slice.length = multipartPartSize := by
  induction h with
  | done => simp
  | @part number remaining content slice rest slices h hSlice hRest ih =>
    have hLength := hSlice.length_le
    have hBound := hRest.length_flatten_le
    have hCount := hRest.length_eq (by omega)
    rw [length_take] at hLength
    rw [flatten_cons, length_append] at hAll
    rw [if_neg (by omega)] at hCount
    cases slices with
    | nil => simp
    | cons next slices =>
      rw [dropLast_cons_cons, forall_mem_cons]
      refine ⟨?_, ih (by omega) (by omega)⟩
      rw [length_cons] at hCount
      rw [multipartPartSize_eq] at *
      omega

end Slices

section Loop

variable {key uploadID : Bytes} {deeds : List Deed} {w : Cloud}

/-- What a loop from the part `number` on adds to the deeds and returns. -/
structure Looped (number remaining : Nat) (reader : Body) (hashed : Bytes) (parts : List CompletedPart)
    (deeds deeds' : List Deed)
    (result : List CompletedPart × Body × Bytes) (slices : List Bytes) : Prop where
  sliced : Sliced number remaining reader.content slices result.2.1.content
  taken : deeds'.filterMap sliceOf = deeds.filterMap sliceOf ++ slices
  opened : deeds'.filterMap sourceOf = deeds.filterMap sourceOf
  numbers : result.1.map CompletedPart.partNumber = parts.map CompletedPart.partNumber ++
    List.range' number slices.length
  hashed : result.2.2 = hashed ++ slices.flatten

theorem sliceOf_eq {d : Deed} {number : Nat} {body : Bytes} {response : Response}
    (h : exchanged d = some (.uploadPart key uploadID number body, .ok response)) :
    sliceOf d = some (body.take response.consumed) := by
  rw [sliceOf, h]

theorem sourceOf_sends {d : Deed} {q : Request} {answer : Except (Lost Bytes) Response}
    (h : exchanged d = some (q, answer)) :
    sourceOf d = none := by
  obtain ⟨op, answer, before, after⟩ := d
  cases op with
  | send => rfl
  | consult i => cases h

theorem anyhow_uploadLoop (number remaining : Nat) (reader : Body) (hashed : Bytes) (parts : List CompletedPart) :
    ∀ deeds w,
    Anyhow (service naming) (s.uploadLoop key uploadID number remaining reader hashed parts)
      (fun deeds' r => ∀ result, r = .ok result → ∃ slices, Looped number remaining reader hashed parts deeds
          deeds' result slices) deeds w := by
  fun_induction Store.uploadLoop s key uploadID number remaining reader hashed parts with
  | case1 number remaining reader hashed parts hMore partSize ih =>
    intro deeds w
    refine acts_lift_bind (fun _ _ _ hEq => by cases hEq) fun _ _ => ?_
    refine anyhow_doRequest (fun _ _ _ _ hEq => by cases hEq) fun d response hSends w₁ => ?_
    refine acts_guard (fun _ _ hEq => by cases hEq) fun _ => ?_
    refine acts_guard (fun _ _ hEq => by cases hEq) fun _ => ?_
    refine Acts.mono (ih response (deeds ++ [d]) w₁) ?_
    rintro deeds' r _ hLooped result rfl
    obtain ⟨slices, h⟩ := hLooped result rfl
    have hTaken := h.taken
    have hOpened := h.opened
    rw [filterMap_append, filterMap_cons_some (sliceOf_eq hSends.exchanged), filterMap_nil,
      append_assoc] at hTaken
    rw [filterMap_append, filterMap_cons_none (sourceOf_sends hSends.exchanged),
      filterMap_nil, append_nil] at hOpened
    refine ⟨_, .part hMore ( take_prefix _ _) h.sliced, hTaken, hOpened, ?_, ?_⟩
    · rw [h.numbers]
      simp [range'_succ]
    · rw [h.hashed, append_assoc]
      rfl
  | case2 number remaining reader hashed parts hMore =>
    rintro deeds w result ⟨⟩
    exact ⟨[], .done hMore, by simp, rfl, by simp, by simp⟩

/-- What the service wants of the parts of an object, and the caller of all the bytes. -/
structure Covers (size : Nat) (expectedSHA256 source : Bytes) (slices : List Bytes) (parts : List CompletedPart) :
    Prop where
  numbers : parts.map CompletedPart.partNumber = List.range' 1 slices.length
  flatten : slices.flatten = source
  size : slices.flatten.length = size
  digest : sha256Hex slices.flatten = expectedSHA256
  minimum : ∀ slice ∈ slices.dropLast, 5 * 2 ^ 20 ≤ slice.length
  count : parts.length ≤ 10000

theorem covers_iff {size : Nat} {expectedSHA256 : Bytes} {reader : Body} {deeds : List Deed}
    {result : List CompletedPart × Body × Bytes} {slices : List Bytes} {deeds' : List Deed}
    (h : Looped 1 size reader [] [] deeds deeds' result slices) (hRest : result.2.1.content = [])
    (hDigest : sha256Hex result.2.2 = expectedSHA256) :
    Covers size expectedSHA256 reader.content slices result.1 ↔ size ≤ 10000 * multipartPartSize ∧
        reader.content.length = size := by
  have hNumbers : result.1.map CompletedPart.partNumber = List.range' 1 slices.length := h.numbers
  have hCount : result.1.length = slices.length := by simpa using congrArg List.length hNumbers
  have hFlatten : slices.flatten = reader.content := by simpa [hRest] using h.sliced.flatten_append
  have hLength := h.sliced.length_eq Nat.one_pos
  have hBound : result.1.length ≤ 10000 ↔ size ≤ 10000 * multipartPartSize := by
    rw [hCount, hLength, multipartPartSize_eq]
    split_ifs <;> omega
  constructor
  · intro hCovers
    exact ⟨hBound.mp hCovers.count, hFlatten ▸ hCovers.size⟩
  · rintro ⟨hFits, hSize⟩
    refine ⟨hNumbers, hFlatten, hFlatten ▸ hSize, ?_, ?_, hBound.mpr hFits⟩
    · rw [← hDigest, h.hashed, nil_append]
    · intro slice hSlice
      rw [h.sliced.whole Nat.one_pos (hFlatten ▸ hSize) slice hSlice, multipartPartSize_eq]
      decide

/-- For every behaviour of the service. The source is what the upload found when it opened it again. -/
theorem uploadParts_covers_iff (naming : Objects.Service Bytes Bytes Bytes D F V) (s : Store)
    (key uploadID expectedSHA256 : Bytes)
    (size : Nat) (w : Cloud) :
    Anyhow (service naming) (s.uploadParts key uploadID expectedSHA256 size)
      (fun deeds r => ∀ parts, r = .ok parts → ∃ source : Body, deeds.filterMap sourceOf = [source] ∧
        (Covers size expectedSHA256 source.content (deeds.filterMap sliceOf) parts ↔
          size ≤ 10000 * multipartPartSize ∧ source.content.length = size)) [] w := by
  refine Anyhow.bind ?_
  rintro w₁ - ⟨fate, values⟩
  refine ⟨trivial, fun opened hOpened => ?_⟩
  cases hOpened
  intro w₂
  cases hSource : values .source with
  | error cause => exact fun _ hEq => by cases hEq
  | nothing => exact fun _ hEq => by cases hEq
  | reader reader =>
    refine Anyhow.bind (Acts.mono (anyhow_uploadLoop 1 size reader [] [] _ w₂) ?_)
    rintro deeds (e | ⟨parts, rest, hashed⟩) w₃ hLooped
    · exact fun _ hEq => by cases hEq
    · intro w₄
      refine acts_guard (fun _ _ hEq => by cases hEq) fun hRest => ?_
      dsimp only
      split
      · exact fun _ hEq => by cases hEq
      · refine acts_guard (fun _ _ hEq => by cases hEq) fun hDigest => ?_
        rintro _ ⟨⟩
        obtain ⟨slices, h⟩ := hLooped _ rfl
        have hFirst : sourceOf ((machine (service naming)).deed (.consult .source) (fate, values) w₁) =
            some reader := by
          show sourceOf ⟨.consult .source, some (values .source), _, _⟩ = _
          rw [hSource]
          rfl
        have hTaken : deeds.filterMap sliceOf = slices := h.taken
        have hOpened : deeds.filterMap sourceOf = [reader] := h.opened.trans (by simp [hFirst])
        rw [hTaken]
        exact ⟨reader, hOpened, covers_iff h (not_not.mp hRest) (not_not.mp hDigest)⟩

end Loop

section Generous

/-- A service that reads every part and names it. -/
def generousResponse : Response := ⟨200, [], ⟨lit "etag", [], [], []⟩, ⟨[], none, none⟩, 2 ^ 40⟩

def generous : Fate Response Bytes := .answered generousResponse true

variable {key uploadID : Bytes}

theorem uploadLoop_generous (hRequest : s.newObjectRequest "PUT" key = .ok ()) (number remaining : Nat)
    (reader : Body) (hashed : Bytes)
    (parts : List CompletedPart) (hNumber : 0 < number) (hReader : reader.content.length = remaining) :
    ∀ {post : List Deed → Except Error _ → Cloud → Prop} {deeds w},
      (machine (service naming)).Acts (fun _ _ => True) (fun _ _ => True)
      (s.uploadLoop key uploadID number remaining reader hashed parts)
        post deeds w →
      ∃ deeds' parts' w', post deeds' (.ok (parts', { reader with content := [] }, hashed ++ reader.content)) w' ∧
        parts'.length = parts.length + if number = 1 ∧
        remaining = 0 then 1 else (remaining + (multipartPartSize - 1)) / multipartPartSize := by
  fun_induction Store.uploadLoop s key uploadID number remaining reader hashed parts with
  | case1 number remaining reader hashed parts hMore partSize ih =>
    intro post deeds w h
    rw [hRequest] at h
    have hAnswered := (h w trivial (generous, fun _ => default)).2 _ rfl
    have hPart : partSize ≤ 2 ^ 40 := (Nat.min_le_right ..).trans (by decide)
    have hRead : (reader.content.take partSize).take (2 ^ 40) = reader.content.take partSize :=
      take_of_length_le ((length_take_le ..).trans hPart)
    have hDropped : (reader.content.drop ((reader.content.take partSize).take (2 ^ 40)).length).length =
        remaining - partSize := by
      rw [hRead, length_drop, length_take, hReader, Nat.min_eq_left (Nat.min_le_left ..)]
    obtain ⟨deeds', parts', w', hPost, hLength⟩ := ih generousResponse (by omega) hDropped hAnswered
    have hWhole : (reader.content.take partSize).take (2 ^ 40) ++
        reader.content.drop ((reader.content.take partSize).take (2 ^ 40)).length = reader.content :=
      prefix_iff_eq_append.mp (( take_prefix ..).trans ( take_prefix ..))
    refine ⟨deeds', parts', w', ?_, ?_⟩
    · rw [append_assoc] at hPost
      exact hWhole ▸ hPost
    · rw [hLength, length_append, if_neg (by omega), length_singleton]
      have hSize : partSize = min remaining 8388608 := rfl
      rw [multipartPartSize_eq]
      split_ifs <;> omega
  | case2 number remaining reader hashed parts hMore =>
    intro post deeds w h
    have hNone : reader.content = [] := eq_nil_of_length_eq_zero (by omega)
    refine ⟨deeds, parts, w, ?_, ?_⟩
    · rw [hNone, append_nil, ← hNone]
      exact h
    · rw [if_neg (by omega), show remaining = 0 by omega]
      rfl

theorem uploadParts_generous (hRequest : s.newObjectRequest "PUT" key = .ok ())
    {content : Bytes} (hContent : content ≠ [])
    {post : List Deed → Except Error (List CompletedPart) → Prop} {w : Cloud}
    (h : Anyhow (service naming) (s.uploadParts key uploadID (sha256Hex content) content.length) post [] w) :
    ∃ deeds parts, post deeds (.ok parts) ∧
        parts.length = (content.length + (multipartPartSize - 1)) / multipartPartSize := by
  have hOpened := (h w trivial (generous, fun _ => .reader ⟨content, none, none⟩)).2 _ rfl
  obtain ⟨deeds, parts, w', hPost, hLength⟩ :=
      uploadLoop_generous hRequest 1 _ ⟨content, none, none⟩ [] [] Nat.one_pos rfl
    ((among_bind _ _ _).mp hOpened)
  have hPositive := length_pos_iff.mpr hContent
  refine ⟨deeds, parts, ?_, ?_⟩
  · simp only [ExceptT.bindCont, nil_append, ne_eq, not_true_eq_false, if_false] at hPost
    exact hPost
  · rw [hLength, if_neg fun hNone => Nat.ne_of_gt hPositive hNone.2]
    exact Nat.zero_add _

/-- One byte more than 10,000 parts hold. -/
theorem uploadParts_exceeds : ∃ content : Bytes, content.length ≤ 5 * 2 ^ 40 ∧
    ¬ Anyhow (service sampleNaming) (sampleStore.uploadParts (lit "key") (lit "id") (sha256Hex content) content.length)
      (fun _ r => ∀ parts, r = .ok parts → parts.length ≤ 10000) [] sampleCloud := by
  obtain ⟨content, hLength⟩ : ∃ content : Bytes, content.length = 10000 * multipartPartSize + 1 :=
      ⟨_, length_replicate (a := 0)⟩
  rw [multipartPartSize_eq] at hLength
  refine ⟨content, by omega, fun h => ?_⟩
  obtain ⟨deeds, parts, hPost, hParts⟩ := uploadParts_generous rfl (length_pos_iff.mp (by omega)) h
  have hMost := hPost parts rfl
  rw [multipartPartSize_eq, hLength] at hParts
  omega

end Generous

end Camp.S3Store
