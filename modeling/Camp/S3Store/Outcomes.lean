import Camp.S3Store.Store

/-!
# What the errors of the mutations say

An error without the mark of ambiguity says that the object is as it was. Where this is
not so the answer of the service was vague, or its last word on an upload got lost.
-/

namespace Camp.S3Store

open Wire Wire.Utf8 Program Program.Exchange List Program.Machine

variable {D F V : Type} [DecidableEq D] {naming : Objects.Service Bytes Bytes Bytes D F V}
  {s : Store} {α β : Type}

abbrev Deed := Program.Deed Net Cloud

def Unchanged (key : Bytes) (d : Deed) : Prop := d.after.objects key = d.before.objects key

def Completion (d : Deed) (answer : Except (Lost Bytes) Response) : Prop :=
  ∃ key uploadID parts, exchanged d = some (.completeMultipart key uploadID parts, answer)

def SendsAbort (d : Deed) : Prop :=
  ∃ key uploadID answer, exchanged d = some (.abortMultipart key uploadID, answer) ∧
    ∀ cause, answer ≠ .error (.unsent cause)

/-- An abort that could not be signed, so that it was not sent. -/
def Unsigned (d : Deed) : Prop :=
  ∃ key uploadID cause, exchanged d = some (.abortMultipart key uploadID, .error (.unsent cause))

/-- An error that is not marked says that nothing changed, and only an upload whose
completion was never sent or was refused is aborted. -/
structure Honest (naming : Objects.Service Bytes Bytes Bytes D F V) (key : Bytes) (deeds : List Deed)
    (r : Except Error α) : Prop where
  unchanged : ∀ e, r = .error e → e.is .ambiguous = false → ∀ d ∈ deeds, Unchanged key d
  aborts : ∀ a ∈ deeds, SendsAbort a → ∀ c ∈ deeds, ∀ answer, Completion c answer →
    Definite (service naming) answer

/-- The connection dropped, or what looks like a success says nothing. -/
def Vague (s : Store) : Except (Lost Bytes) Response → Prop
  | .error (.unsent _) => False
  | .error (.dropped _) => True
  | .ok response => response.succeeded = true ∧ s.completes response = false

/-- The look at the object finds it with this size and digest. -/
def Shows (s : Store) (key expectedSHA256 : Bytes) (expectedSize : Int) (d : Deed) : Prop :=
  ∃ response info, exchanged d = some (.headObject (s.address key), .ok response) ∧
    response.statusCode = 200 ∧ s.objectMeta key response.header = .ok info ∧
    Store.asExpected info expectedSHA256 expectedSize = true

inductive Mutation where
  | putConditional (key body : Bytes) (condition : WriteCondition)
  | deleteConditional (key expected : Bytes)
  | putImmutable (key : Bytes) (source : Bool) (expectedSHA256 : Bytes) (expectedSize : Int)

namespace Mutation

def key : Mutation → Bytes
  | .putConditional key _ _ | .deleteConditional key _ | .putImmutable key _ _ _ => key

def program (s : Store) : Mutation → Act Unit
  | .putConditional key body condition => do
    let _ ← s.putConditional key body condition
  | .deleteConditional key expected => s.deleteConditional key expected
  | .putImmutable key source expectedSHA256 expectedSize => do
    let _ ← s.putImmutable key source expectedSHA256 expectedSize

/-- The service never leaves the store in doubt where the store does not expect it. -/
def Clear (s : Store) (deeds : List Deed) : Mutation → Prop
  | .putConditional key _ _ => ∀ d ∈ deeds, ∀ q response, exchanged d = some (q, .ok response) →
    response.succeeded = true → response.header.etag = [] → Unchanged (s.address key) d
  | .deleteConditional key _ => ∀ d ∈ deeds, ∀ q cause,
    exchanged d = some (q, .error (.dropped cause)) → Unchanged (s.address key) d
  | .putImmutable key _ expectedSHA256 expectedSize => ∀ c ∈ deeds, ∀ answer, Completion c answer →
    (Vague s answer → Unchanged (s.address key) c ∧ ∃ a ∈ deeds.getLast?, Unsigned a) ∧
    (∀ response, answer = .ok response → response.succeeded = true → s.completes response = true →
      Unchanged (s.address key) c ∨
        ∃ d ∈ deeds.getLast?, Shows s key expectedSHA256 expectedSize d)

end Mutation

section Errors

variable {key : Bytes}

def Plain (r : Except Error α) : Prop := ∀ e, r = .error e → e.is .ambiguous = false

theorem plain_ok (a : α) : Plain (.ok a) := nofun

theorem plain_error {e : Error} (h : e.is .ambiguous = false) : Plain (.error e : Except Error α) := by
  rintro _ ⟨⟩
  exact h

theorem lostError_is (q : Request) (lost : Lost Bytes) :
    (lostError q lost).is .ambiguous = false := by
  cases lost <;> rfl

theorem responseSentinel_is (statusCode : Nat) (mutation : Bool) :
    (responseSentinel statusCode mutation).is .ambiguous = (mutation && 500 ≤ statusCode) := by
  unfold responseSentinel
  split_ifs with h404 h409 hLate
  · subst h404
    cases mutation <;> rfl
  · rcases h409 with rfl | rfl <;> cases mutation <;> rfl
  · exact hLate.symm
  · exact (Bool.eq_false_iff.mpr hLate).symm

theorem responseError_is (response : Response) (operation : String) (mutation : Bool) :
    (s.responseError response operation key mutation).is .ambiguous =
      (mutation && 500 ≤ response.statusCode) := by
  unfold Store.responseError
  dsimp only
  split_ifs <;> exact responseSentinel_is ..

theorem plain_validateKey : Plain (validateKey key) := by
  unfold validateKey
  split_ifs
  · exact plain_error rfl
  · exact plain_error rfl
  · exact plain_ok _

theorem plain_newObjectRequest {method : String} : Plain (s.newObjectRequest method key) := by
  unfold Store.newObjectRequest
  intro e h
  rcases hKey : validateKey key with e' | _
  · rw [hKey] at h
    cases h
    exact plain_validateKey _ hKey
  · rw [hKey] at h
    by_cases hAddress : s.addressable (s.address key) = true
    · simp [hAddress] at h
    · simp [hAddress] at h
      cases h
      rfl

theorem plain_objectMeta {header : Header} : Plain (s.objectMeta key header) := by
  unfold Store.objectMeta
  split_ifs
  · exact plain_error rfl
  · split
    · exact plain_error rfl
    · dsimp only
      split_ifs
      · exact plain_error rfl
      · split
        · exact plain_error rfl
        · exact plain_ok _

end Errors

section Idle

variable {d : Deed} {q : Request} {expectedSHA256 : Bytes}
variable {answer : Except (Lost Bytes) Response} {expectedSize : Int}

/-- Requests that leave the objects alone and are neither a completion nor an abort. -/
def Request.quiet : Request → Bool
  | .getObject _ | .headObject _ | .createMultipart .. | .uploadPart .. => true
  | _ => false

structure Idle (d : Deed) : Prop where
  objects : d.after.objects = d.before.objects
  quiet : ∀ q answer, exchanged d = some (q, answer) → q.quiet = true

theorem Idle.unchanged (h : Idle d) (key : Bytes) : Unchanged key d := congrFun h.objects key

theorem Idle.not_completion (h : Idle d) : ¬ Completion d answer := by
  rintro ⟨_, _, _, hExchanged⟩
  cases h.quiet _ _ hExchanged

theorem Idle.not_abort (h : Idle d) : ¬ SendsAbort d := by
  rintro ⟨_, _, _, hExchanged, -⟩
  cases h.quiet _ _ hExchanged

theorem objects_effect (h : q.quiet = true) (c : Cloud) : (q.effect naming c).objects = c.objects := by
  cases q <;> first | rfl | cases h

theorem idle_of_sends (hQuiet : q.quiet = true) (h : Sends (service naming) q answer d) : Idle d where
  objects := by
    rcases h.effect with hSame | hEffect
    · rw [hSame]
    · rw [hEffect]
      exact objects_effect hQuiet d.before
  quiet q' answer' hExchanged := by
    cases h.exchanged.symm.trans hExchanged
    exact hQuiet

theorem idle_of_none (hNone : exchanged d = none) (hSame : d.after = d.before) : Idle d where
  objects := congrArg Cloud.objects hSame
  quiet q answer hExchanged := by
    rw [hNone] at hExchanged
    cases hExchanged

abbrev Idles (naming : Objects.Service Bytes Bytes Bytes D F V) (p : Act α) (post : Except Error α → Prop) :
    Prop := Does (service naming) Idle p post

theorem idles_doRequest (hQuiet : q.quiet = true) : Idles naming (doRequest q) Plain := by
  refine does_send_bind (fun d answer => idle_of_sends hQuiet) ?_
  rintro (lost | response)
  · exact does_throw (plain_error (lostError_is q lost))
  · exact does_pure (plain_ok _)

variable {key : Bytes}

theorem idles_look {operation : String} {q : Bytes → Request} (hQuiet : ∀ key, (q key).quiet = true) :
    Idles naming (s.look operation q key) Plain := by
  refine Does.lift_bind (fun e h => plain_error (plain_newObjectRequest e h)) fun _ _ => ?_
  refine (idles_doRequest (hQuiet _)).bind (fun e h => plain_error (h e rfl)) fun response _ => ?_
  refine does_guard (fun _ => plain_error (responseError_is ..)) fun _ => ?_
  refine Does.lift_bind (fun e h => plain_error (plain_objectMeta e h)) fun info _ => ?_
  exact does_pure (plain_ok _)

theorem idles_head : Idles naming (s.head key) Plain :=
  (idles_look fun _ => rfl).bind (fun e h => plain_error (h e rfl)) fun _ _ => does_pure (plain_ok _)

theorem idles_wrapping {format : String} {args : List Bytes} {p : Act α} {post : Except Error α → Prop}
    (hp : Idles naming p post) : Idles naming (wrapping format args p) fun _ => True := by
  refine Does.bind (hp.catching fun _ _ => trivial : Idles naming _ fun _ => True) ?_ ?_
  · exact fun _ _ => trivial
  · rintro (e | a) -
    · exact does_throw trivial
    · exact does_pure trivial

theorem idles_verifyRemote {revision : Bytes} :
    Idles naming (s.verifyRemote key revision expectedSHA256 expectedSize) fun _ => True := by
  refine (idles_wrapping (idles_look fun _ => rfl)).bind (fun _ _ => trivial) ?_
  rintro ⟨reader, info⟩ -
  refine Does.lift_bind (fun _ _ => trivial) fun content _ => ?_
  dsimp only
  split_ifs
  · exact does_throw trivial
  · exact does_pure trivial

theorem idles_verifySource : Idles naming (Store.verifySource key expectedSHA256 expectedSize) fun _ => True := by
  refine does_consult_bind (fun d => idle_of_none) fun opened => ?_
  cases opened with
  | error cause => exact does_throw trivial
  | nothing => exact does_throw trivial
  | reader reader =>
    refine Does.lift_bind (fun _ _ => trivial) fun content _ => ?_
    dsimp only
    split_ifs
    · exact does_throw trivial
    · exact does_pure trivial

theorem idles_createMultipart {digest : Bytes} :
    Idles naming (s.createMultipart key digest) fun _ => True := by
  refine Does.lift_bind (fun _ _ => trivial) fun _ _ => ?_
  refine (idles_doRequest rfl).bind (fun _ _ => trivial) fun response _ => ?_
  refine does_guard (fun _ => trivial) fun _ => ?_
  split
  · exact does_throw trivial
  · exact does_guard (fun _ => trivial) fun _ => does_pure trivial

theorem idles_uploadLoop (uploadID : Bytes) (number remaining : Nat) (reader : Body) (hashed : Bytes)
    (parts : List CompletedPart) :
    Idles naming (s.uploadLoop key uploadID number remaining reader hashed parts) fun _ => True := by
  fun_induction Store.uploadLoop s key uploadID number remaining reader hashed parts with
  | case1 number remaining reader hashed parts hMore partSize ih =>
    refine Does.lift_bind (fun _ _ => trivial) fun _ _ => ?_
    refine (idles_doRequest rfl).bind (fun _ _ => trivial) fun response _ => ?_
    refine does_guard (fun _ => trivial) fun _ => ?_
    exact does_guard (fun _ => trivial) fun _ => ih response
  | case2 number remaining reader hashed parts hMore => exact does_pure trivial

theorem idles_uploadParts {uploadID : Bytes} {size : Nat} :
    Idles naming (s.uploadParts key uploadID expectedSHA256 size) fun _ => True := by
  refine does_consult_bind (fun d => idle_of_none) fun opened => ?_
  cases opened with
  | error cause => exact does_throw trivial
  | nothing => exact does_throw trivial
  | reader reader =>
    refine (idles_uploadLoop uploadID 1 size reader [] []).bind (fun _ _ => trivial) ?_
    rintro ⟨parts, rest, hashed⟩ -
    refine does_guard (fun _ => trivial) fun _ => ?_
    dsimp only
    split
    · exact does_throw trivial
    · exact does_guard (fun _ => trivial) fun _ => does_pure trivial

end Idle

section Upload

variable {key uploadID expectedSHA256 : Bytes} {expectedSize : Int} {deeds : List Deed} {w : Cloud}
variable {post : List Deed → Except Error Unit → Prop}

theorem anyhow_doRequest {q : Request} {f : Response → Act α} {post : List Deed → Except Error α → Prop}
    (hLost : ∀ d lost, Sends (service naming) q (.error lost) d →
      post (deeds ++ [d]) (.error (lostError q lost)))
    (hAnswered : ∀ d response, Sends (service naming) q (.ok response) d →
      ∀ w, Anyhow (service naming) (f response) post (deeds ++ [d]) w) :
    Anyhow (service naming) (doRequest q >>= f) post deeds w := by
  refine Anyhow.bind (anyhow_send_bind fun d answer hSends w₁ => ?_)
  cases answer with
  | error lost => exact hLost d lost hSends
  | ok response => exact hAnswered d response hSends

theorem newObjectRequest_cases (s : Store) (key : Bytes) :
    (∀ method, s.newObjectRequest method key = .ok ()) ∨
      ∀ method, ∃ e, s.newObjectRequest method key = .error e ∧ e.is .notFound = false := by
  unfold Store.newObjectRequest
  rcases hKey : validateKey key with e | _
  · refine .inr fun method => ⟨e, rfl, ?_⟩
    unfold validateKey at hKey
    split_ifs at hKey <;> cases hKey <;> rfl
  · by_cases hAddress : s.addressable (s.address key) = true
    · exact .inl fun method => by simp [hAddress]
    · refine .inr fun method =>
        ⟨.wrap "create S3 %s request: %w" [lit method] (.message "parse address" []), ?_, rfl⟩
      simp [hAddress]
      rfl

/-- What an upload leaves behind, by the answer to its completion. -/
inductive Uploaded (naming : Objects.Service Bytes Bytes Bytes D F V) (s : Store)
    (key expectedSHA256 : Bytes) (expectedSize : Int) (deeds : List Deed) :
    Bool → Except Error ObjectMeta → Prop
  | failed {e : Error} (hIdle : ∀ d ∈ deeds, Idle d) :
      Uploaded naming s key expectedSHA256 expectedSize deeds false (.error e)
  | unfinished {before : List Deed} {c : Deed} {uploadID : Bytes} {parts : List CompletedPart}
      {answer : Except (Lost Bytes) Response} {e : Error} (hDeeds : deeds = before ++ [c])
      (hIdle : ∀ d ∈ before, Idle d)
      (hSends : Sends (service naming) (.completeMultipart (s.address key) uploadID parts) answer c)
      (hAnswer : Definite (service naming) answer ∨ Vague s answer) (he : e.is .ambiguous = false) :
      Uploaded naming s key expectedSHA256 expectedSize deeds false (.error e)
  | ambiguous {before after : List Deed} {c : Deed} {uploadID : Bytes} {parts : List CompletedPart}
      {response : Response} {result : Except Error ObjectMeta} (hDeeds : deeds = before ++ c :: after)
      (hIdle : ∀ d ∈ before ++ after, Idle d)
      (hSends : Sends (service naming) (.completeMultipart (s.address key) uploadID parts) (.ok response) c)
      (hLate : 500 ≤ response.statusCode) (hResult : ∀ e, result = .error e → e.is .ambiguous = true) :
      Uploaded naming s key expectedSHA256 expectedSize deeds true result
  | answered {before : List Deed} {c d : Deed} {uploadID : Bytes} {parts : List CompletedPart}
      {response : Response} {result : Except Error ObjectMeta} (hDeeds : deeds = before ++ [c, d])
      (hIdle : ∀ d ∈ before, Idle d) (hd : Idle d)
      (hSends : Sends (service naming) (.completeMultipart (s.address key) uploadID parts) (.ok response) c)
      (hSucceeded : response.succeeded = true) (hCompletes : s.completes response = true)
      (hResult : (∃ info, result = .ok info) ↔ Shows s key expectedSHA256 expectedSize d)
      (hPlain : Plain result) :
      Uploaded naming s key expectedSHA256 expectedSize deeds true result

theorem anyhow_completeMultipart {parts : List CompletedPart}
    (hRequest : ∀ method, s.newObjectRequest method key = .ok ())
    (hUnfinished : ∀ c answer e,
      Sends (service naming) (.completeMultipart (s.address key) uploadID parts) answer c →
      Definite (service naming) answer ∨ Vague s answer → e.is .ambiguous = false →
      post (deeds ++ [c]) (.error e))
    (hAmbiguous : ∀ c response e,
      Sends (service naming) (.completeMultipart (s.address key) uploadID parts) (.ok response) c →
      500 ≤ response.statusCode → e.is .ambiguous = true → post (deeds ++ [c]) (.error e))
    (hAnswered : ∀ c response,
      Sends (service naming) (.completeMultipart (s.address key) uploadID parts) (.ok response) c →
      response.succeeded = true → s.completes response = true → post (deeds ++ [c]) (.ok ())) :
    Anyhow (service naming) (s.completeMultipart key uploadID parts) post deeds w := by
  refine acts_lift_bind (fun e h => ?_) fun _ _ => ?_
  · rw [hRequest] at h
    cases h
  refine anyhow_doRequest (fun c lost hSends => ?_) fun c response hSends w₁ => ?_
  · refine hUnfinished c _ _ hSends ?_ (lostError_is ..)
    cases lost with
    | unsent cause => exact .inl trivial
    | dropped cause => exact .inr trivial
  refine acts_guard (fun hFailed => ?_) fun hSucceeded => ?_
  · have hMark : (s.responseError response "complete multipart upload" key true).is .ambiguous =
        (true && 500 ≤ response.statusCode) := responseError_is ..
    by_cases hLate : 500 ≤ response.statusCode
    · exact hAmbiguous c response _ hSends hLate (hMark.trans (by simp [hLate]))
    · refine hUnfinished c _ _ hSends (.inl ?_) (hMark.trans (by simp [hLate]))
      show (!response.succeeded && decide (response.statusCode < 500)) = true
      rw [hFailed, Bool.true_and]
      exact decide_eq_true (Nat.lt_of_not_le hLate)
  · have hGood : response.succeeded = true := by simpa using hSucceeded
    by_cases hCompletes : s.completes response = true
    · simp only [hCompletes]
      exact hAnswered c response hSends hGood hCompletes
    · simp only [hCompletes]
      exact hUnfinished c _ _ hSends (.inr ⟨hGood, by simpa using hCompletes⟩) rfl

theorem anyhow_head {post : List Deed → Except Error ObjectMeta → Prop}
    (hRequest : ∀ method, s.newObjectRequest method key = .ok ())
    (h : ∀ d r, Idle d → Plain r →
      (∀ expectedSHA256 expectedSize, Shows s key expectedSHA256 expectedSize d ↔
        ∃ info, r = .ok info ∧ Store.asExpected info expectedSHA256 expectedSize = true) →
      post (deeds ++ [d]) r) : Anyhow (service naming) (s.head key) post deeds w := by
  refine Anyhow.bind (acts_lift_bind (fun e he => ?_) fun _ _ => ?_)
  · rw [hRequest] at he
    cases he
  refine anyhow_doRequest (fun d lost hSends => ?_) fun d response hSends w₁ => ?_
  · refine h d _ (idle_of_sends rfl hSends) (plain_error (lostError_is ..)) fun _ _ => ?_
    constructor
    · rintro ⟨response, info, hExchanged, -⟩
      cases hSends.exchanged.symm.trans hExchanged
    · rintro ⟨info, hr, -⟩
      cases hr
  refine acts_guard (fun hStatus => ?_) fun hStatus => ?_
  · refine h d _ (idle_of_sends rfl hSends) (plain_error (responseError_is ..)) fun _ _ => ?_
    constructor
    · rintro ⟨response', info, hExchanged, hOK, -⟩
      cases hSends.exchanged.symm.trans hExchanged
      exact absurd hOK hStatus
    · rintro ⟨info, hr, -⟩
      cases hr
  have hShows (expectedSHA256 : Bytes) (expectedSize : Int) :
      Shows s key expectedSHA256 expectedSize d ↔ ∃ info, s.objectMeta key response.header = .ok info ∧
        Store.asExpected info expectedSHA256 expectedSize = true := by
    constructor
    · rintro ⟨response', info, hExchanged, -, hInfo, hExpected⟩
      cases hSends.exchanged.symm.trans hExchanged
      exact ⟨info, hInfo, hExpected⟩
    · rintro ⟨info, hInfo, hExpected⟩
      exact ⟨response, info, hSends.exchanged, not_not.mp hStatus, hInfo, hExpected⟩
  refine acts_lift_bind (fun e he => ?_) fun info hInfo => ?_
  · rw [he] at hShows
    exact h d _ (idle_of_sends rfl hSends) (plain_error (plain_objectMeta e he)) hShows
  · intro w₂
    rw [hInfo] at hShows
    exact h d _ (idle_of_sends rfl hSends) (plain_ok _) hShows

/-- An abort. If it was not sent its error is not marked. -/
structure Aborted (a : Deed) (r : Except Error Unit) : Prop where
  abort : ∃ key uploadID answer, exchanged a = some (.abortMultipart key uploadID, answer)
  objects : a.after.objects = a.before.objects
  not_completion : ∀ answer, ¬ Completion a answer
  plain : ¬ SendsAbort a → Plain r

theorem anyhow_abortMultipart (hRequest : ∀ method, s.newObjectRequest method key = .ok ())
    (h : ∀ a r, Aborted a r → post (deeds ++ [a]) r) :
    Anyhow (service naming) (s.abortMultipart key uploadID) post deeds w := by
  have hAborted (a : Deed) (answer : Except (Lost Bytes) Response) (r : Except Error Unit)
      (hSends : Sends (service naming) (.abortMultipart (s.address key) uploadID) answer a)
      (hPlain : ∀ cause, answer = .error (.unsent cause) → Plain r) : Aborted a r := by
    refine ⟨⟨_, _, _, hSends.exchanged⟩, ?_, ?_, fun hUnsent => ?_⟩
    · rcases hSends.effect with hSame | hSame <;> rw [hSame]
      rfl
    · rintro _ ⟨_, _, _, hExchanged⟩
      cases hSends.exchanged.symm.trans hExchanged
    · by_contra hMarked
      refine hUnsent ⟨_, _, answer, hSends.exchanged, fun cause hAnswer => ?_⟩
      exact hMarked (hPlain cause hAnswer)
  refine acts_lift_bind (fun e he => ?_) fun _ _ => ?_
  · rw [hRequest] at he
    cases he
  refine Anyhow.bind (anyhow_catching_bind (Anyhow.bind (anyhow_send fun a answer hSends => ?_)))
  intro w₁
  cases answer with
  | error lost =>
    intro w₂
    refine h a _ (hAborted a _ _ hSends fun cause _ => plain_error ?_)
    exact lostError_is _ lost
  | ok response =>
    intro w₂ w₃
    split_ifs
    · exact h a _ (hAborted a _ _ hSends nofun)
    · exact h a _ (hAborted a _ _ hSends nofun)

theorem anyhow_upload (hRequest : ∀ method, s.newObjectRequest method key = .ok ())
    (hIdle : ∀ d ∈ deeds, Idle d) {post : List Deed → Except Error _ → Prop}
    (h : ∀ deeds completed result, Uploaded naming s key expectedSHA256 expectedSize deeds completed result →
      post deeds (.ok (completed, result))) :
    Anyhow (service naming) (s.upload key uploadID expectedSHA256 expectedSize) post deeds w := by
  refine anyhow_catching_bind (idles_uploadParts.anyhow fun more r hMore _ w₁ => ?_)
  have hBefore : ∀ d ∈ deeds ++ more, Idle d := by
    intro d hd
    exact (mem_append.mp hd).elim (hIdle d) (hMore d)
  cases r with
  | error e => exact h _ _ _ (.failed hBefore)
  | ok parts =>
    refine anyhow_catching_bind (anyhow_completeMultipart hRequest ?_ ?_ ?_)
    · intro c answer e hSends hAnswer he w₂
      simp only [he]
      exact h _ _ _ (.unfinished rfl hBefore hSends hAnswer he)
    · intro c response e hSends hLate he w₂
      simp only [he]
      have hGiveUp (after : List Deed) (hAfter : ∀ d ∈ after, Idle d) (result : Except Error ObjectMeta)
          (hResult : ∀ e, result = .error e → e.is .ambiguous = true) :
          post (deeds ++ more ++ [c] ++ after) (.ok (true, result)) := by
        refine h _ _ _ (.ambiguous (append_cons _ c after).symm ?_ hSends hLate hResult)
        intro d hd
        exact (mem_append.mp hd).elim (hBefore d) (hAfter d)
      have hSame : ∀ e', (.error e : Except Error ObjectMeta) = .error e' → e'.is .ambiguous = true := by
        rintro _ ⟨⟩
        exact he
      refine anyhow_catching_bind (idles_head.anyhow fun after r hAfter _ w₃ => ?_)
      cases r with
      | error e' => exact hGiveUp after hAfter _ hSame
      | ok observed =>
        dsimp only
        split_ifs
        · refine anyhow_catching_bind (idles_verifyRemote.anyhow fun after' r hAfter' _ w₄ => ?_)
          have hAll : ∀ d ∈ after ++ after', Idle d := by
            intro d hd
            exact (mem_append.mp hd).elim (hAfter d) (hAfter' d)
          rw [append_assoc]
          cases r with
          | error e' => exact hGiveUp _ hAll _ hSame
          | ok _ => exact hGiveUp _ hAll _ nofun
        · exact hGiveUp after hAfter _ hSame
    · intro c response hSends hSucceeded hCompletes w₂
      refine anyhow_catching_bind (anyhow_head hRequest fun d r hd hPlain hShows w₃ => ?_)
      have hConclude (result : Except Error ObjectMeta)
          (hResult : (∃ info, result = .ok info) ↔ Shows s key expectedSHA256 expectedSize d)
          (hPlain : Plain result) : post (deeds ++ more ++ [c] ++ [d]) (.ok (true, result)) :=
        h _ _ _ (.answered (append_cons _ c [d]).symm hBefore hd hSends hSucceeded hCompletes hResult hPlain)
      rw [hShows] at hConclude
      cases r with
      | error e => exact hConclude _ (by simp) (plain_error (hPlain e rfl))
      | ok info =>
        dsimp only
        split_ifs with hExpected
        · exact hConclude _ (by simp [hExpected]) (plain_ok _)
        · exact hConclude _ (by simp [hExpected]) (plain_error rfl)

end Upload

section Verdict

variable {key expectedSHA256 : Bytes} {expectedSize : Int} {source : Bool} {deeds : List Deed}
variable {r : Except Error Unit} {answer : Except (Lost Bytes) Response} {a : Deed}
variable {c d : Deed} {result : Except Error ObjectMeta}

theorem honest_iff_clear_of_idle {r : Except Error α} (hUnchanged : ∀ d ∈ deeds, Unchanged (s.address key) d)
    (hNone : ∀ d ∈ deeds, ∀ answer, ¬ Completion d answer) :
    Honest naming (s.address key) deeds r ↔
      (Mutation.putImmutable key source expectedSHA256 expectedSize).Clear s deeds := by
  refine iff_of_true ⟨fun _ _ _ => hUnchanged, fun _ _ _ c hc answer hCompletion => ?_⟩ ?_
  · exact absurd hCompletion (hNone c hc answer)
  · intro c hc answer hCompletion
    exact absurd hCompletion (hNone c hc answer)

theorem clear_iff (hc : c ∈ deeds) (hCompletion : Completion c answer)
    (hOnly : ∀ d ∈ deeds, d ≠ c → ∀ answer, ¬ Completion d answer) :
    (Mutation.putImmutable key source expectedSHA256 expectedSize).Clear s deeds ↔
      (Vague s answer → Unchanged (s.address key) c ∧ ∃ a ∈ deeds.getLast?, Unsigned a) ∧
      (∀ response, answer = .ok response → response.succeeded = true → s.completes response = true →
        Unchanged (s.address key) c ∨
          ∃ d ∈ deeds.getLast?, Shows s key expectedSHA256 expectedSize d) := by
  constructor
  · intro h
    exact h c hc answer hCompletion
  · intro h c' hc' answer' hCompletion'
    by_cases hSame : c' = c
    · subst hSame
      obtain ⟨_, _, _, hExchanged⟩ := hCompletion
      obtain ⟨_, _, _, hExchanged'⟩ := hCompletion'
      cases hExchanged.symm.trans hExchanged'
      exact h
    · exact absurd hCompletion' (hOnly c' hc' hSame answer')

theorem not_vague_of_definite (h : Definite (service naming) answer) : ¬ Vague s answer := by
  intro hVague
  match answer with
  | .error (.unsent _) => exact hVague
  | .error (.dropped _) => exact h
  | .ok response =>
    have hRefuses : (!response.succeeded && decide (response.statusCode < 500)) = true := h
    rw [hVague.1] at hRefuses
    cases hRefuses

theorem Aborted.unchanged (h : Aborted a r) (key : Bytes) :
    Unchanged key a := congrFun h.objects key

theorem Aborted.unsigned_iff (h : Aborted a r) : Unsigned a ↔ ¬ SendsAbort a := by
  constructor
  · rintro ⟨_, _, cause, hUnsigned⟩ ⟨_, _, _, hSent, hAnswer⟩
    cases hUnsigned.symm.trans hSent
    exact hAnswer cause rfl
  · intro hUnsent
    obtain ⟨key, uploadID, answer, hExchanged⟩ := h.abort
    by_contra hSigned
    refine hUnsent ⟨key, uploadID, answer, hExchanged, ?_⟩
    rintro cause rfl
    exact hSigned ⟨key, uploadID, cause, hExchanged⟩

theorem not_abort_of_idle {uploadID : Bytes} {parts : List CompletedPart}
    (hSends : Sends (service naming) (.completeMultipart (s.address key) uploadID parts) answer c)
    (hRest : ∀ d ∈ deeds, d = c ∨ Idle d) : ∀ a ∈ deeds, ¬ SendsAbort a := by
  intro a ha
  rcases hRest a ha with rfl | hIdle
  · rintro ⟨_, _, _, hExchanged, -⟩
    cases hSends.exchanged.symm.trans hExchanged
  · exact hIdle.not_abort

theorem verdict_completed (h : Uploaded naming s key expectedSHA256 expectedSize deeds true result) :
    Honest naming (s.address key) deeds result ↔
      (Mutation.putImmutable key source expectedSHA256 expectedSize).Clear s deeds := by
  cases h with
  | @ambiguous before after c uploadID parts response _ hDeeds hIdle hSends hLate hResult =>
    subst hDeeds
    have hRest : ∀ d ∈ before ++ c :: after, d = c ∨ Idle d := by
      intro d hd
      simp only [mem_append, mem_cons] at hd hIdle
      grind
    have hFailed : response.succeeded = false := by
      simp only [Response.succeeded, Bool.and_eq_false_iff, decide_eq_false_iff_not]
      omega
    have hNoAbort := not_abort_of_idle hSends hRest
    refine iff_of_true ⟨fun e he hPlain => ?_, fun a ha hAbort => absurd hAbort (hNoAbort a ha)⟩ ?_
    · rw [hResult e he] at hPlain
      cases hPlain
    · rw [clear_iff (c := c) (by simp) ⟨_, _, _, hSends.exchanged⟩
        fun d hd hNe answer => ((hRest d hd).resolve_left hNe).not_completion]
      constructor
      · rintro ⟨hSucceeded, -⟩
        rw [hFailed] at hSucceeded
        cases hSucceeded
      · rintro _ ⟨⟩ hSucceeded
        rw [hFailed] at hSucceeded
        cases hSucceeded
  | @answered before c d uploadID parts response _ hDeeds hIdle hd hSends hSucceeded hCompletes hResult
      hPlain =>
    subst hDeeds
    have hRest : ∀ d' ∈ before ++ [c, d], d' = c ∨ Idle d' := by
      intro d' hd'
      simp only [mem_append, mem_cons, not_mem_nil, or_false] at hd'
      grind
    have hNoAbort := not_abort_of_idle hSends hRest
    rw [clear_iff (c := c) (by simp) ⟨_, _, _, hSends.exchanged⟩
      fun d' hd' hNe answer => ((hRest d' hd').resolve_left hNe).not_completion]
    have hLast : (before ++ [c, d]).getLast? = some d := by simp
    constructor
    · intro hHonest
      refine ⟨fun hVague => ?_, fun _ _ _ _ => ?_⟩
      · rw [hVague.2] at hCompletes
        cases hCompletes
      · rcases result with e | info
        · exact .inl (hHonest.unchanged e rfl (hPlain e rfl) c (by simp))
        · exact .inr ⟨d, hLast, hResult.mp ⟨info, rfl⟩⟩
    · rintro ⟨-, hClear⟩
      refine ⟨?_, fun a ha hAbort => absurd hAbort (hNoAbort a ha)⟩
      rintro e rfl -
      have hSame : Unchanged (s.address key) c := by
        rcases hClear response rfl hSucceeded hCompletes with hSame | ⟨d', hLast', hShows⟩
        · exact hSame
        · cases hLast.symm.trans hLast'
          obtain ⟨info, hInfo⟩ := hResult.mpr hShows
          cases hInfo
      intro d' hd'
      rcases hRest d' hd' with rfl | hIdle'
      · exact hSame
      · exact hIdle'.unchanged _

theorem verdict_aborted {e' : Error} (h : Uploaded naming s key expectedSHA256 expectedSize deeds false result)
    (ha : Aborted a r) (he' : Plain result → Plain r → e'.is .ambiguous = false) :
    Honest naming (s.address key) (deeds ++ [a]) (.error e' : Except Error α) ↔
      (Mutation.putImmutable key source expectedSHA256 expectedSize).Clear s (deeds ++ [a]) := by
  cases h with
  | failed hIdle =>
    refine honest_iff_clear_of_idle ?_ ?_ <;> simp only [mem_append, mem_singleton]
    · rintro d (hd | rfl)
      · exact (hIdle d hd).unchanged _
      · exact ha.unchanged _
    · rintro d (hd | rfl)
      · exact fun _ => (hIdle d hd).not_completion
      · exact ha.not_completion
  | @unfinished before c uploadID parts answer e hDeeds hIdle hSends hAnswer he =>
    subst hDeeds
    have hCompletion : Completion c answer := ⟨_, _, _, hSends.exchanged⟩
    have hCases : ∀ d ∈ before ++ [c] ++ [a], d = c ∨ d = a ∨ Idle d := by
      intro d hd
      simp only [mem_append, mem_singleton] at hd
      rcases hd with (hd | rfl) | rfl
      · exact .inr (.inr (hIdle d hd))
      · exact .inl rfl
      · exact .inr (.inl rfl)
    have hOnly : ∀ d ∈ before ++ [c] ++ [a], d ≠ c → ∀ answer, ¬ Completion d answer := by
      intro d hd hNe
      rcases hCases d hd with rfl | rfl | hIdleD
      · exact absurd rfl hNe
      · exact ha.not_completion
      · exact fun _ => hIdleD.not_completion
    have hAll : Unchanged (s.address key) c → ∀ d ∈ before ++ [c] ++ [a], Unchanged (s.address key) d := by
      intro hSame d hd
      rcases hCases d hd with rfl | rfl | hIdleD
      · exact hSame
      · exact ha.unchanged _
      · exact hIdleD.unchanged _
    have hAborts : (∀ d ∈ before ++ [c] ++ [a], ¬ SendsAbort d) ↔ ¬ SendsAbort a := by
      refine ⟨fun hNone => hNone a (by simp), fun hNot d hd => ?_⟩
      rcases hCases d hd with rfl | rfl | hIdleD
      · rintro ⟨_, _, _, hExchanged, -⟩
        cases hSends.exchanged.symm.trans hExchanged
      · exact hNot
      · exact hIdleD.not_abort
    have hUnsigned : (∃ d ∈ (before ++ [c] ++ [a]).getLast?, Unsigned d) ↔ ¬ SendsAbort a := by
      rw [← ha.unsigned_iff]
      simp
    rw [clear_iff (c := c) (by simp) hCompletion hOnly, hUnsigned]
    rcases hAnswer with hDefinite | hVague
    · -- the completion had no effect, and the abort is in order
      refine iff_of_true ⟨fun _ _ _ => hAll ?_, fun _ _ _ c' hc' answer' hCompletion' => ?_⟩ ⟨?_, ?_⟩
      · unfold Unchanged
        rw [hSends.definite hDefinite]
      · by_cases hSame : c' = c
        · subst hSame
          obtain ⟨_, _, _, hExchanged⟩ := hCompletion'
          cases hSends.exchanged.symm.trans hExchanged
          exact hDefinite
        · exact absurd hCompletion' (hOnly c' hc' hSame answer')
      · exact fun hVague => absurd hVague (not_vague_of_definite hDefinite)
      · rintro response rfl - -
        left
        unfold Unchanged
        rw [hSends.definite hDefinite]
    · constructor
      · intro hHonest
        have hUnsent : ¬ SendsAbort a := by
          intro hAbort
          exact not_vague_of_definite (hHonest.aborts a (by simp) hAbort c (by simp) answer hCompletion) hVague
        refine ⟨fun _ => ⟨?_, hUnsent⟩, ?_⟩
        · exact hHonest.unchanged e' rfl (he' (plain_error he) (ha.plain hUnsent)) c (by simp)
        · rintro response rfl - hCompletes
          rw [hVague.2] at hCompletes
          cases hCompletes
      · rintro ⟨hClear, -⟩
        obtain ⟨hSame, hUnsent⟩ := hClear hVague
        refine ⟨fun _ _ _ => hAll hSame, fun a' ha' hAbort => ?_⟩
        exact absurd hAbort (hAborts.mpr hUnsent a' ha')

theorem honest_unit {r : Except Error α} :
    Honest naming key deeds (r.map fun _ => ()) ↔ Honest naming key deeds r := by
  have hError (e : Error) : (r.map fun _ => ()) = .error e ↔ r = .error e := by
    cases r <;> simp [Except.map]
  constructor <;> rintro ⟨hUnchanged, hAborts⟩ <;> refine ⟨fun e he => ?_, hAborts⟩
  · exact hUnchanged e ((hError e).mpr he)
  · exact hUnchanged e ((hError e).mp he)

theorem anyhow_unit {p : Act α} {post : List Deed → Except Error Unit → Prop} {w : Cloud}
    (h : Anyhow (service naming) p (fun deeds r => post deeds (r.map fun _ => ())) deeds w) :
    Anyhow (service naming) (do let _ ← p) post deeds w := by
  refine Anyhow.bind (Acts.mono h ?_)
  rintro deeds (e | a) w hr
  · exact hr
  · exact fun _ => hr

theorem putImmutable_verdict (w : Cloud) :
    Anyhow (service naming) (s.putImmutable key source expectedSHA256 expectedSize)
      (fun deeds r => Honest naming (s.address key) deeds r ↔
        (Mutation.putImmutable key source expectedSHA256 expectedSize).Clear s deeds) [] w := by
  have hIdly (deeds : List Deed) (hIdle : ∀ d ∈ deeds, Idle d) (r : Except Error ObjectMeta) :
      Honest naming (s.address key) deeds r ↔
        (Mutation.putImmutable key source expectedSHA256 expectedSize).Clear s deeds :=
    honest_iff_clear_of_idle (fun d hd => (hIdle d hd).unchanged _)
      fun d hd _ => (hIdle d hd).not_completion
  refine acts_lift_bind (fun e _ => hIdly [] nofun _) fun _ _ => ?_
  refine acts_guard (fun _ => hIdly [] nofun _) fun _ => ?_
  rcases newObjectRequest_cases s key with hRequest | hRequest
  · refine anyhow_catching_bind (idles_head.anyhow fun looked r hLooked _ w₁ => ?_)
    cases r with
    | ok current =>
      dsimp only
      split_ifs
      · refine Anyhow.bind (idles_verifyRemote.anyhow fun more r hMore _ => ?_)
        have hAll : ∀ d ∈ [] ++ looked ++ more, Idle d := by
          intro d hd
          exact (mem_append.mp hd).elim (hLooked d) (hMore d)
        cases r with
        | error e => exact hIdly _ hAll _
        | ok _ => exact fun w₂ => hIdly _ hAll _
      · exact hIdly _ hLooked _
    | error e =>
      dsimp only
      refine acts_guard (fun _ => hIdly _ hLooked _) fun _ => ?_
      refine Anyhow.bind (idles_verifySource.anyhow fun verified r hVerified _ => ?_)
      have hSoFar : ∀ d ∈ [] ++ looked ++ verified, Idle d := by
        intro d hd
        exact (mem_append.mp hd).elim (hLooked d) (hVerified d)
      cases r with
      | error e => exact hIdly _ hSoFar _
      | ok _ =>
        intro w₂
        refine Anyhow.bind (idles_createMultipart.anyhow fun created r hCreated _ => ?_)
        have hBefore : ∀ d ∈ [] ++ looked ++ verified ++ created, Idle d := by
          intro d hd
          exact (mem_append.mp hd).elim (hSoFar d) (hCreated d)
        cases r with
        | error e => exact hIdly _ hBefore _
        | ok uploadID =>
          intro w₃
          refine Anyhow.bind (anyhow_upload hRequest hBefore fun deeds completed result hUploaded w₄ => ?_)
          cases completed with
          | true => cases result <;> exact verdict_completed hUploaded
          | false =>
            refine anyhow_catching_bind (anyhow_abortMultipart hRequest fun a r ha w₅ => ?_)
            cases hResult : result with
            | ok info =>
              subst hResult
              cases hUploaded
            | error e =>
              cases r with
              | ok _ =>
                exact verdict_aborted hUploaded ha fun hPlain _ => hPlain e hResult
              | error abortErr =>
                refine verdict_aborted hUploaded ha fun hPlain hAbort => ?_
                show (e.is _ || abortErr.is _) = false
                rw [hPlain e hResult, hAbort abortErr rfl]
                rfl
  · obtain ⟨e, he, hNotFound⟩ := hRequest "HEAD"
    have hHead : s.head key = throw e := by
      unfold Store.head Store.look
      simp only [Request.method, he]
      rfl
    rw [hHead]
    refine anyhow_catching_bind ?_
    intro w₁
    show Anyhow _ (if (!e.is .notFound) = true then _ else _) _ _ _
    rw [hNotFound]
    exact hIdly [] nofun _

theorem honest_singleton {r : Except Error α} (hNoAbort : ¬ SendsAbort d) :
    Honest naming key [d] r ↔ ∀ e, r = .error e → e.is .ambiguous = false → Unchanged key d := by
  constructor
  · intro h e he hPlain
    exact h.unchanged e he hPlain d (mem_singleton_self d)
  · intro h
    refine ⟨by simpa using h, fun a ha hAbort => ?_⟩
    cases mem_singleton.mp ha
    exact absurd hAbort hNoAbort

theorem unchanged_of_refused {q : Request} {response : Response} {operation : String} {address : Bytes}
    (hSends : Sends (service naming) q (.ok response) d) (hFailed : (!response.succeeded) = true)
    (hPlain : (s.responseError response operation key true).is .ambiguous = false) : Unchanged address d := by
  rw [responseError_is, Bool.true_and, decide_eq_false_iff_not, Nat.not_le] at hPlain
  have hRefuses : Definite (service naming) (.ok response : Except (Lost Bytes) Response) := by
    show (!response.succeeded && decide (response.statusCode < 500)) = true
    rw [hFailed, Bool.true_and]
    exact decide_eq_true hPlain
  unfold Unchanged
  rw [hSends.definite hRefuses]

theorem putConditional_verdict {body : Bytes} {condition : WriteCondition} (w : Cloud) :
    Anyhow (service naming) (s.putConditional key body condition)
      (fun deeds r => Honest naming (s.address key) deeds r ↔
        (Mutation.putConditional key body condition).Clear s deeds) [] w := by
  have hNothing (r : Except Error ObjectMeta) : Honest naming (s.address key) [] r ↔
      (Mutation.putConditional key body condition).Clear s [] := iff_of_true ⟨nofun, nofun⟩ nofun
  refine acts_guard (fun _ => hNothing _) fun _ => ?_
  refine acts_lift_bind (fun e _ => hNothing _) fun _ _ => ?_
  refine anyhow_send_bind fun d answer hSends w₁ => ?_
  have hHonest (r : Except Error ObjectMeta) : Honest naming (s.address key) [d] r ↔
      ∀ e, r = .error e → e.is .ambiguous = false → Unchanged (s.address key) d := by
    refine honest_singleton ?_
    rintro ⟨_, _, _, hExchanged, -⟩
    cases hSends.exchanged.symm.trans hExchanged
  have hClear : (Mutation.putConditional key body condition).Clear s [d] ↔ ∀ response,
      answer = .ok response → response.succeeded = true → response.header.etag = [] →
      Unchanged (s.address key) d := by
    constructor
    · rintro h response rfl
      exact h d (by simp) _ response hSends.exchanged
    · intro h d' hd' q response hExchanged
      cases mem_singleton.mp hd'
      cases hSends.exchanged.symm.trans hExchanged
      exact h response rfl
  cases answer with
  | error lost =>
    refine ((hHonest _).trans (iff_of_true ?_ ?_)).trans hClear.symm
    · rintro _ ⟨⟩ hPlain
      cases hPlain
    · rintro response hAnswer
      cases hAnswer
  | ok response =>
    refine acts_guard (fun hFailed => ?_) fun hSucceeded => acts_guard (fun hEtag => ?_) fun hEtag => ?_
    · refine ((hHonest _).trans (iff_of_true ?_ ?_)).trans hClear.symm
      · rintro _ ⟨⟩ hPlain
        exact unchanged_of_refused hSends hFailed hPlain
      · rintro _ ⟨⟩ hSucceeded
        rw [hSucceeded] at hFailed
        cases hFailed
    · refine ((hHonest _).trans ?_).trans hClear.symm
      constructor
      · intro h _ _ _ _
        exact h _ rfl rfl
      · intro h _ _ _
        exact h response rfl (by simpa using hSucceeded) hEtag
    · refine ((hHonest _).trans (iff_of_true ?_ ?_)).trans hClear.symm
      · rintro _ ⟨⟩
      · rintro _ ⟨⟩ - hNone
        exact absurd hNone hEtag

theorem deleteConditional_verdict {expected : Bytes} (w : Cloud) :
    Anyhow (service naming) (s.deleteConditional key expected)
      (fun deeds r => Honest naming (s.address key) deeds r ↔
        (Mutation.deleteConditional key expected).Clear s deeds) [] w := by
  have hNothing (r : Except Error Unit) : Honest naming (s.address key) [] r ↔
      (Mutation.deleteConditional key expected).Clear s [] := iff_of_true ⟨nofun, nofun⟩ nofun
  refine acts_guard (fun _ => hNothing _) fun _ => ?_
  refine acts_lift_bind (fun e _ => hNothing _) fun _ _ => ?_
  refine Anyhow.bind (anyhow_send_bind fun d answer hSends w₁ => ?_)
  have hHonest (r : Except Error Unit) : Honest naming (s.address key) [d] r ↔
      ∀ e, r = .error e → e.is .ambiguous = false → Unchanged (s.address key) d := by
    refine honest_singleton ?_
    rintro ⟨_, _, _, hExchanged, -⟩
    cases hSends.exchanged.symm.trans hExchanged
  have hClear : (Mutation.deleteConditional key expected).Clear s [d] ↔ ∀ cause,
      answer = .error (.dropped cause) → Unchanged (s.address key) d := by
    constructor
    · rintro h cause rfl
      exact h d (by simp) _ cause hSends.exchanged
    · intro h d' hd' q cause hExchanged
      cases mem_singleton.mp hd'
      cases hSends.exchanged.symm.trans hExchanged
      exact h cause rfl
  cases answer with
  | error lost =>
    refine ((hHonest _).trans ?_).trans hClear.symm
    constructor
    · intro h _ _
      exact h _ rfl (lostError_is _ lost)
    · intro h _ _ _
      cases lost with
      | unsent cause =>
        unfold Unchanged
        rw [hSends.definite trivial]
      | dropped cause => exact h cause rfl
  | ok response =>
    intro w₂
    split_ifs with hFailed
    · refine ((hHonest _).trans (iff_of_true ?_ nofun)).trans hClear.symm
      rintro _ ⟨⟩ hPlain
      exact unchanged_of_refused hSends hFailed hPlain
    · refine ((hHonest _).trans (iff_of_true ?_ nofun)).trans hClear.symm
      rintro _ ⟨⟩

end Verdict

/-- In every execution among other clients that do as they like, a mutation reports
honestly exactly if the service is clear where the store counts on it. -/
theorem mutation_honest_iff (naming : Objects.Service Bytes Bytes Bytes D F V) (s : Store) (m : Mutation)
    (w : Cloud) :
    Anyhow (service naming) (m.program s)
      (fun deeds r => Honest naming (s.address m.key) deeds r ↔ m.Clear s deeds) [] w := by
  cases m with
  | putConditional key body condition =>
    refine anyhow_unit (Acts.mono (putConditional_verdict w) fun deeds r _ h => ?_)
    exact honest_unit.trans h
  | deleteConditional key expected => exact deleteConditional_verdict w
  | putImmutable key source expectedSHA256 expectedSize =>
    refine anyhow_unit (Acts.mono (putImmutable_verdict w) fun deeds r _ h => ?_)
    exact honest_unit.trans h

section Sample

def sampleNaming : Objects.Service Bytes Bytes Bytes Unit Unit Unit where
  label _ n := replicate (n + 1) 34
  label_injective _ n m h := by simpa using congrArg List.length h
  digest _ := ()
  report _ _ := ()
  plain := ()
  reportsMissing := false
  looksFirst := false

def sampleStore : Store where
  keyPrefix := []
  addressable _ := true
  library := ⟨id, fun _ => none, fun _ => none, fun _ => none⟩

def sampleCloud : Cloud where
  objects _ := ⟨[], some (lit "body")⟩
  parts _ _ := []

/-- The connection drops after the object was deleted, and the error is not marked. -/
theorem dropped_delete_is_not_marked :
    ∃ (choices : List (machine (service sampleNaming)).Choice) (e : Error) (w : Cloud),
      (machine (service sampleNaming)).run (sampleStore.deleteConditional (lit "key") [34]).run choices
        sampleCloud = (some (.error e), w) ∧
      e.is .ambiguous = false ∧
      (sampleCloud.objects (lit "key")).current = some (lit "body") ∧
      (w.objects (lit "key")).current = none :=
  ⟨[(.dropped (lit "EOF") true, fun _ => default)], _, _, rfl, rfl, rfl, rfl⟩

end Sample

end Camp.S3Store
