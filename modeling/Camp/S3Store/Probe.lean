import Camp.S3Store.Outcomes

/-!
# The probe of a writer

Before it is used for writing, an endpoint is tried out on an object of its own: whether it
refuses what must not win, and whether it serves what it has accepted.
-/

namespace Camp.S3Store

open Wire Wire.Utf8 Program Program.Exchange Program.Machine

namespace Store

-- How an error is written is a parameter.
variable (s : Store) (text : Error → Bytes)

def unsafeWriter (cause : Error) :
    Error := .wrap "%v: %w" [text cause] (.message "S3 endpoint is unsafe for writer use" [])

def matchReadback (reader : Body) (info : ObjectMeta) (expected revision : Bytes) : Except Error Unit :=
  let limited := reader.limited (expected.length + 1)
  match limited.readError, limited.closeError with
  | some cause, _ => throw (.wrap "read probe object body: %w" [] (.message "%s" [cause]))
  | none, some cause => throw (.wrap "close probe object body: %w" [] (.message "%s" [cause]))
  | none, none =>
    if limited.content ≠ expected ∨ info.size ≠ expected.length ∨ info.revision ≠ revision then
      throw (.message "readback body or metadata did not match the completed mutation" [])
    else pure ()

def verifyProbeReadback (key expected revision : Bytes) : Act Unit := do
  let (reader, info) ← wrapping "read back probe object: %w" [] (s.get key)
  matchReadback reader info expected revision

/-- The conditional replacement. Where its outcome is ambiguous the object is looked at. -/
def replaceProbe (key second created : Bytes) : Act ObjectMeta := do
  match ← catching (s.putConditional key second ⟨false, created⟩) with
  | .ok replaced => pure replaced
  | .error e =>
    if e.is .ambiguous then
      match ← catching (s.head key) with
      | .error _ => throw e
      | .ok observed =>
        if observed.revision = created then s.putConditional key second ⟨false, created⟩
        else
          match ← catching (s.verifyProbeReadback key second observed.revision) with
          | .ok () => pure observed
          | .error _ => throw e
    else throw e

/-- What follows the replacement, with the revision that is left to clean up. -/
def probeReplaced (key second created replaced : Bytes) : Act (Bytes × Except Error Unit) := do
  if replaced = created then
    pure (replaced, .error
      (unsafeWriter text (.message "conditional replacement did not change the opaque revision" [])))
  else
    match ← catching (s.putConditional key (lit "stale-must-not-win") ⟨false, created⟩) with
    | .ok stale => pure (stale.revision,
        .error (unsafeWriter text (.message "stale conditional replacement succeeded" [])))
    | .error e =>
      if e.is .conflict then
        match ← catching (s.verifyProbeReadback key second replaced) with
        | .error e => pure (replaced, .error (unsafeWriter text e))
        | .ok () =>
          match ← catching (s.deleteConditional key replaced) with
          | .error e => pure (replaced, .error (.wrap "S3 writer probe conditional delete: %w" [] e))
          | .ok () =>
            match ← catching (s.head key) with
            | .ok _ => pure ([], .error (unsafeWriter text (.message "conditional delete left the object readable" [])))
            | .error e =>
              if e.is .notFound then pure ([], .ok ())
              else pure ([], .error (.wrap "S3 writer probe post-delete head: %w" [] e))
      else pure (replaced, .error (.wrap "S3 writer probe stale replacement: %w" [] e))

def probeCreated (key first second created : Bytes) : Act (Bytes × Except Error Unit) := do
  match ← catching (s.verifyProbeReadback key first created) with
  | .error e => pure (created, .error (unsafeWriter text e))
  | .ok () =>
    match ← catching (s.putConditional key (lit "must-not-win") ⟨true, []⟩) with
    | .ok duplicate =>
      pure (duplicate.revision,
        .error (unsafeWriter text (.message "create-if-absent request overwrote an existing object" [])))
    | .error e =>
      if e.is .conflict then
        match ← catching (s.replaceProbe key second created) with
        | .error e => pure (created, .error (.wrap "S3 writer probe conditional replace: %w" [] e))
        | .ok replaced => s.probeReplaced text key second created replaced.revision
      else pure (created, .error (.wrap "S3 writer probe duplicate create: %w" [] e))

def cleanupProbe (key cleanupRevision : Bytes) (result : Except Error Unit) : Act Unit := do
  if cleanupRevision = [] then result
  else
    match ← catching (s.deleteConditional key cleanupRevision), result with
    | .error e, .ok () => if e.is .notFound then pure () else throw (.wrap "S3 writer probe cleanup: %w" [] e)
    | _, result => result

/-- `random` is what the source of random bytes gives. -/
def probeWriter (directory : Bytes) (random : Except Bytes Bytes) : Act Unit := do
  if directory ≠ [] ∧ directory.getLast? ≠ some 47 then
    throw (.wrap "probe prefix must end in slash: %w" [] (.sentinel .invalidKey))
  match random with
  | .error cause => throw (.wrap "generate S3 probe key: %w" [] (.message "%s" [cause]))
  | .ok random =>
    let key := directory ++ Sha256.hexText random
    let first := lit "camp-s3-probe-one:" ++ random
    let second := lit "camp-s3-probe-two:" ++ random
    match ← catching (s.putConditional key first ⟨true, []⟩) with
    | .error e => throw (.wrap "S3 writer probe create: %w" [] e)
    | .ok created =>
      let (cleanupRevision, result) ← s.probeCreated text key first second created.revision
      s.cleanupProbe key cleanupRevision result

end Store

section Endpoint

/-- An endpoint. What `next` and `lax` are at a request is not foreseen: the revisions of the next
writes, and whether the condition of a request is ignored. -/
structure Endpoint where
  objects : Bytes → Option (Bytes × Bytes)
  next : List Bytes
  lax : Bool

def permits : Objects.Condition Bytes → Option (Bytes × Bytes) → Bool
  | .absent, o => o.isNone
  | .revision r, o => o.map Prod.fst == some r

def Request.act : Request → Endpoint → Endpoint
  | .putObject key body condition, w =>
    if w.lax || permits condition (w.objects key) then
      { w with
        objects := Function.update w.objects key (some (w.next.headD [], body))
        next := w.next.tail }
    else w
  | .deleteObject key revision, w =>
    if w.lax || permits (.revision revision) (w.objects key) then
      { w with objects := Function.update w.objects key none } else w
  | _, w => w

/-- Any answer goes with any effect. -/
def endpoint : Exchange.Service Request Response Endpoint := ⟨Request.act, fun _ => false⟩

abbrev Call := Program.Deed Net Endpoint

def Request.key : Request → Bytes
  | .getObject key | .headObject key | .putObject key _ _ | .deleteObject key _ | .createMultipart key _
  | .uploadPart key _ _ _ | .completeMultipart key _ _ | .abortMultipart key _ => key

def Request.writes : Request → Bool
  | .putObject .. => true
  | _ => false

/-- The revision that a delete names. -/
def named (d : Call) : Option Bytes :=
  match exchanged d with
  | some (.deleteObject _ revision, _) => some revision
  | _ => none

variable (a : Bytes)

/-- A delete of the current revision takes effect. -/
def HonoursDelete (d : Call) : Prop :=
  ∀ revision ∈ named d, (d.before.objects a).map Prod.fst = some revision → d.after.objects a = none

/-- A delete of another revision does not. -/
def SparesOthers (d : Call) : Prop :=
  ∀ revision ∈ named d, (d.before.objects a).map Prod.fst ≠ some revision → d.after.objects a = d.before.objects a

def About (deeds : List Call) : Prop := ∀ d ∈ deeds, ∃ q answer, exchanged d = some (q, answer) ∧ q.key = a

def Written (body : Bytes) (condition : Objects.Condition Bytes) (revision : Bytes) (d : Call) : Prop :=
  ∃ response, exchanged d = some (.putObject a body condition, .ok response) ∧ response.succeeded = true ∧
    response.header.etag = revision

def Rejected (body : Bytes) (condition : Objects.Condition Bytes) (d : Call) : Prop :=
  ∃ response, exchanged d = some (.putObject a body condition, .ok response) ∧
    (response.statusCode = 409 ∨ response.statusCode = 412)

def Served (body revision : Bytes) (d : Call) : Prop :=
  ∃ response, exchanged d = some (.getObject a, .ok response) ∧ response.statusCode = 200 ∧
    response.body.content = body ∧ response.body.readError = none ∧ response.header.etag = revision ∧
    parseInt response.header.contentLength = some body.length

abbrev CallPost := Post Net Endpoint Error

/-- The neighbours may do what they like with all other objects. -/
abbrev Acting {α : Type} (p : Act α) (post : CallPost α) (deeds : List Call) (w : Endpoint) : Prop :=
  (machine endpoint).Acts (fun w w' => w'.objects a = w.objects a) (fun _ _ => True) p post deeds w

end Endpoint

section Knowledge

/-- The probe's store, key and second body, and the endpoint before it. -/
structure Trial where
  store : Store
  key : Bytes
  second : Bytes
  before : Endpoint

/-- `told` is the revision the endpoint has told last, `shown` the one of a look just before. -/
structure Knowledge where
  told : Bytes
  shown : Bytes

namespace Trial

variable (t : Trial)

abbrev place : Bytes := t.store.address t.key

/-- What a look gives, by the answer to its request. -/
def looked : Except (Lost Bytes) Response → Option (Body × ObjectMeta)
  | .error _ => none
  | .ok response =>
    if response.statusCode = 200 then (t.store.objectMeta t.key response.header).toOption.map (response.body, ·)
    else none

def servesBack (expected revision : Bytes) (answer : Except (Lost Bytes) Response) : Bool :=
  (t.looked answer).any fun found => (Store.matchReadback found.1 found.2 expected revision).isOk

/-- A revision is told by a write that is answered with it, and by a look that is followed by a
read of the second body under the revision shown. -/
def learn (k : Knowledge) (d : Call) : Knowledge :=
  match exchanged d with
  | some (.putObject _ _ _, .ok response) =>
    ⟨if response.succeeded ∧ response.header.etag ≠ [] then response.header.etag else k.told, []⟩
  | some (.headObject _, answer) => ⟨k.told, ((t.looked answer).map (·.2.revision)).getD []⟩
  | some (.getObject _, answer) => ⟨if t.servesBack t.second k.shown answer then k.shown else k.told, []⟩
  | _ => ⟨k.told, []⟩

def learnt (deeds : List Call) : Knowledge := deeds.foldl t.learn ⟨[], []⟩

/-- What is at the key after the last write. -/
def left (deeds : List Call) : Option (Bytes × Bytes) :=
  deeds.foldl (fun o d => if (exchanged d).any (·.1.writes) then d.after.objects t.place else o)
    (t.before.objects t.place)

/-- The last write has left nothing, or an object of the revision that was told last. -/
def Known (deeds : List Call) : Prop :=
  t.left deeds = none ∨
    (t.learnt deeds).told ≠ [] ∧ (t.left deeds).map Prod.fst = some (t.learnt deeds).told

/-- The next request, with the object as it was. -/
structure Turn (w : Endpoint) (q : Request) (answer : Except (Lost Bytes) Response) (d : Call) : Prop where
  sends : Sends endpoint q answer d
  same : d.before.objects t.place = w.objects t.place

/-- No delete has been sent yet. -/
structure Track (deeds : List Call) (w : Endpoint) (k : Knowledge) : Prop where
  about : About t.place deeds
  learnt : t.learnt deeds = k
  now : w.objects t.place = t.left deeds

/-- The object is as the last write has left it, or there is a reason why it is gone. -/
structure Held (deeds : List Call) (w : Endpoint) (told : Bytes) : Prop where
  about : About t.place deeds
  learnt : (t.learnt deeds).told = told
  held : w.objects t.place = t.left deeds ∨ w.objects t.place = none
  only : (∀ d ∈ deeds, SparesOthers t.place d) → w.objects t.place = none → t.Known deeds

/-- What was told has been deleted. -/
structure Spent (deeds : List Call) (w : Endpoint) (told : Bytes) : Prop extends t.Held deeds w told where
  clean : (∀ d ∈ deeds, HonoursDelete t.place d) → t.Known deeds → w.objects t.place = none

variable {t} {deeds : List Call} {w : Endpoint} {k : Knowledge} {d : Call} {q : Request}
  {answer : Except (Lost Bytes) Response} {told : Bytes}

theorem learnt_append : t.learnt (deeds ++ [d]) = t.learn (t.learnt deeds) d := by
  simp [Trial.learnt]

theorem left_append (h : exchanged d = some (q, answer)) :
    t.left (deeds ++ [d]) = if q.writes then d.after.objects t.place else t.left deeds := by
  simp [left, h]

theorem about_append {a : Bytes} (h : About a deeds) (hd : exchanged d = some (q, answer)) (hKey : q.key = a) :
    About a (deeds ++ [d]) := by
  intro d' hd'
  rcases List.mem_append.mp hd' with hd' | hd'
  · exact h d' hd'
  · exact List.mem_singleton.mp hd' ▸ ⟨q, answer, hd, hKey⟩

/-- A request that writes nothing leaves what was left and what was told, and so whether it is known. -/
theorem known_append (h : exchanged d = some (q, answer)) (hWrites : q.writes = false)
    (hTold : (t.learnt (deeds ++ [d])).told = (t.learnt deeds).told) : t.Known (deeds ++ [d]) ↔ t.Known deeds := by
  simp [Known, left_append h, hWrites, hTold]

theorem Turn.read (hTurn : t.Turn w q answer d) (hRead : ∀ w, q.act w = w) :
    d.after.objects t.place = w.objects t.place := by
  have hAfter : d.after = d.before := hTurn.sends.effect.elim id fun h => h.trans (hRead d.before)
  rw [hAfter, hTurn.same]

theorem Turn.delete {revision : Bytes} (hTurn : t.Turn w (.deleteObject t.place revision) answer d) :
    d.after.objects t.place = w.objects t.place ∨ d.after.objects t.place = none := by
  rcases hTurn.sends.effect with hAfter | hAfter
  · exact .inl (hAfter ▸ hTurn.same)
  · rw [hAfter, ← hTurn.same]
    show (Request.act _ _).objects _ = _ ∨ (Request.act _ _).objects _ = none
    unfold Request.act
    dsimp only
    split_ifs
    · exact .inr (Function.update_self ..)
    · exact .inl rfl

theorem Track.put {body : Bytes} {condition : Objects.Condition Bytes} (h : t.Track deeds w k)
    (hTurn : t.Turn w (.putObject t.place body condition) answer d) :
    t.Track (deeds ++ [d]) d.after (t.learn k d) where
  about := about_append h.about hTurn.sends.exchanged rfl
  learnt := by rw [learnt_append, h.learnt]
  now := (left_append hTurn.sends.exchanged).symm

theorem Track.look (h : t.Track deeds w k) (hTurn : t.Turn w q answer d) (hKey : q.key = t.place)
    (hRead : ∀ w, q.act w = w) (hWrites : q.writes = false) : t.Track (deeds ++ [d]) d.after (t.learn k d) where
  about := about_append h.about hTurn.sends.exchanged hKey
  learnt := by rw [learnt_append, h.learnt]
  now := by rw [left_append hTurn.sends.exchanged, hWrites, hTurn.read hRead, h.now]; rfl

theorem Track.toHeld (h : t.Track deeds w k) : t.Held deeds w k.told where
  about := h.about
  learnt := by rw [h.learnt]
  held := .inl h.now
  only _ hNone := .inl (h.now ▸ hNone)

/-- A delete of the revision told last. -/
theorem Held.delete (h : t.Held deeds w told) (hTold : told ≠ [])
    (hTurn : t.Turn w (.deleteObject t.place told) answer d) : t.Spent (deeds ++ [d]) d.after told := by
  have hExchanged := hTurn.sends.exchanged
  have hNamed : told ∈ named d := by simp [named, hExchanged]
  have hSame : (t.learnt (deeds ++ [d])).told = (t.learnt deeds).told := by
    simp [learnt_append, learn, hExchanged]
  have hKnown := known_append (t := t) hExchanged rfl hSame
  have hNone (hw : w.objects t.place = none) : d.after.objects t.place = none := by
    rcases hTurn.delete with hAfter | hAfter
    · rw [hAfter, hw]
    · exact hAfter
  refine ⟨⟨about_append h.about hExchanged rfl, hSame.trans h.learnt, ?_, fun hSpares hGone => hKnown.mpr ?_⟩,
    fun hHonours hKnows => ?_⟩
  · rw [left_append hExchanged]
    rcases hTurn.delete with hAfter | hAfter
    · exact hAfter ▸ h.held
    · exact .inr hAfter
  · by_cases hw : w.objects t.place = none
    · exact h.only (fun d' hd => hSpares d' (List.mem_append_left _ hd)) hw
    · have hNow := h.held.resolve_right hw
      -- Else the delete would have named another revision, and been carried out.
      refine .inr ⟨h.learnt ▸ hTold, by_contra fun hOther => ?_⟩
      rw [← hNow, h.learnt, ← hTurn.same] at hOther
      have hKept := hSpares d (by simp) told hNamed hOther
      exact hw (by rw [← hTurn.same, ← hKept, hGone])
  · rcases h.held with hNow | hw
    · rcases hKnown.mp hKnows with hLeft | ⟨-, hLeft⟩
      · exact hNone (hNow.trans hLeft)
      · refine hHonours d (by simp) told hNamed ?_
        rw [hTurn.same, hNow, hLeft, h.learnt]
    · exact hNone hw

theorem Spent.look (h : t.Spent deeds w told) (hTurn : t.Turn w (.headObject t.place) answer d) :
    t.Spent (deeds ++ [d]) d.after told := by
  have hExchanged := hTurn.sends.exchanged
  have hSame : (t.learnt (deeds ++ [d])).told = (t.learnt deeds).told := by
    simp [learnt_append, learn, hExchanged]
  have hKnown := known_append (t := t) hExchanged rfl hSame
  have hAfter := hTurn.read fun _ => rfl
  refine ⟨⟨about_append h.about hExchanged rfl, hSame.trans h.learnt, ?_, fun hSpares hNone => hKnown.mpr ?_⟩,
    fun hHonours hKnows => ?_⟩
  · rw [left_append hExchanged, hAfter]
    exact h.held
  · exact h.only (fun d' hd => hSpares d' (List.mem_append_left _ hd)) (hAfter ▸ hNone)
  · rw [hAfter]
    exact h.clean (fun d' hd => hHonours d' (List.mem_append_left _ hd)) (hKnown.mp hKnows)

end Trial

end Knowledge

section Steps

open Trial

variable {t : Trial} {a : Bytes} {α β : Type} {deeds : List Call} {w : Endpoint} {k : Knowledge} {post : CallPost β}
variable {operation : String} {expected revision told : Bytes}

theorem conflict_iff {s : Store} {key : Bytes} {response : Response} {mutation : Bool} :
    (s.responseError response operation key mutation).is .conflict = true ↔
      response.statusCode = 409 ∨ response.statusCode = 412 := by
  have hSentinel : (responseSentinel response.statusCode mutation).is .conflict = true ↔
      response.statusCode = 409 ∨ response.statusCode = 412 := by
    unfold responseSentinel
    split_ifs <;> simp [Failure.is] <;> omega
  unfold Store.responseError
  dsimp only
  split_ifs <;> exact hSentinel

theorem looked_eq_some {answer : Except (Lost Bytes) Response} {found : Body × ObjectMeta}
    (h : t.looked answer = some found) :
    ∃ response, answer = .ok response ∧ response.statusCode = 200 ∧ found.1 = response.body ∧
      found.2.revision = response.header.etag ∧ response.header.etag ≠ [] ∧
      parseInt response.header.contentLength = some found.2.size := by
  cases answer with
  | error lost => cases h
  | ok response =>
    unfold looked Store.objectMeta at h
    dsimp only at h
    split_ifs at h with hStatus hEtag
    · cases h
    · cases hSize : parseInt response.header.contentLength with
      | none =>
        simp only [hSize] at h
        cases h
      | some size =>
        simp only [hSize] at h
        split_ifs at h
        · cases h
        · split at h <;> cases h
          exact ⟨response, rfl, hStatus, rfl, rfl, hEtag, hSize⟩

theorem eq_of_take_succ {l : Bytes} (h : l.take (expected.length + 1) = expected) : l = expected := by
  have hLength := congrArg List.length h
  rw [List.length_take] at hLength
  rw [← h, List.take_of_length_le (by omega)]

theorem matchReadback_ok {reader : Body} {info : ObjectMeta} {u : Unit}
    (h : Store.matchReadback reader info expected revision = .ok u) :
    reader.content = expected ∧ reader.readError = none ∧ info.size = expected.length ∧ info.revision = revision := by
  unfold Store.matchReadback at h
  dsimp only at h
  split at h
  · cases h
  · cases h
  · rename_i hRead hClose
    split_ifs at h with hMismatch
    push Not at hMismatch
    obtain ⟨hContent, hSize, hRevision⟩ := hMismatch
    have hBody := eq_of_take_succ hContent
    rw [Body.limited, hBody] at hRead
    exact ⟨hBody, by simpa using hRead, hSize, hRevision⟩

/-- No object that is served has an empty revision. -/
theorem servesBack_nil (expected : Bytes) (answer : Except (Lost Bytes) Response) :
    t.servesBack expected [] answer = false := by
  unfold servesBack
  cases hLooked : t.looked answer with
  | none => rfl
  | some found =>
    obtain ⟨response, -, -, -, hRevision, hEtag, -⟩ := looked_eq_some hLooked
    show (Store.matchReadback found.1 found.2 expected []).isOk = false
    cases hMatch : Store.matchReadback found.1 found.2 expected [] with
    | error e => rfl
    | ok => exact absurd (hRevision.symm.trans (matchReadback_ok hMatch).2.2.2) hEtag

theorem acting_send_bind {q : Request} {f : Except (Lost Bytes) Response → Act β}
    (h : ∀ d answer, t.Turn w q answer d → Acting t.place (f answer) post (deeds ++ [d]) d.after) :
    Acting t.place (send q >>= f) post deeds w := by
  refine Acts.bind ?_
  rintro w₁ hSame ⟨fate, values⟩
  refine ⟨trivial, fun answer hAnswer => ?_⟩
  cases hAnswer
  exact h _ _ ⟨sends_deed q fate values w₁, hSame⟩

variable (hRequest : ∀ method, t.store.newObjectRequest method t.key = .ok ())
include hRequest

theorem acting_request {method : String} {f : Unit → Act β} (h : Acting a (f ()) post deeds w) :
    Acting a (liftM (t.store.newObjectRequest method t.key) >>= f) post deeds w := by
  rw [hRequest]
  exact h

theorem acting_putConditional {body : Bytes} {condition : WriteCondition} {post : CallPost ObjectMeta}
    (hCondition : (condition.mustBeAbsent == !condition.matchRevision.isEmpty) = false) (hTrack : t.Track deeds w k)
    (hOk : ∀ d info, Written t.place body (Store.writeCondition condition) info.revision d → info.revision ≠ [] →
      t.Track (deeds ++ [d]) d.after ⟨info.revision, []⟩ → post (deeds ++ [d]) (.ok info) d.after)
    (hError : ∀ d e, (e.is .conflict = true → Rejected t.place body (Store.writeCondition condition) d) →
      t.Track (deeds ++ [d]) d.after ⟨k.told, []⟩ → post (deeds ++ [d]) (.error e) d.after) :
    Acting t.place (t.store.putConditional t.key body condition) post deeds w := by
  refine acts_guard (fun hInvalid => absurd hInvalid (by simp [hCondition])) fun _ => ?_
  refine acting_request hRequest (acting_send_bind fun d answer hTurn => ?_)
  have hNext := hTrack.put hTurn
  cases answer with
  | error lost =>
    refine hError d _ (fun h => by cases h) ?_
    simpa [learn, hTurn.sends.exchanged] using hNext
  | ok response =>
    simp only [learn, hTurn.sends.exchanged] at hNext
    refine acts_guard (fun hFailed => ?_) fun hSuccess => ?_
    · refine hError d _ (fun hConflict => ⟨response, hTurn.sends.exchanged, conflict_iff.mp hConflict⟩) ?_
      rwa [if_neg (by simp_all)] at hNext
    · refine acts_guard (fun hNone => ?_) fun hEtag => ?_
      · refine hError d _ (fun h => by cases h) ?_
        rwa [if_neg (by simp [hNone])] at hNext
      · have hSucceeded : response.succeeded = true := by simpa using hSuccess
        refine hOk d _ ⟨response, hTurn.sends.exchanged, hSucceeded, rfl⟩ hEtag ?_
        rwa [if_pos ⟨hSucceeded, hEtag⟩] at hNext

theorem acting_look {q : Bytes → Request} {post : CallPost (Body × ObjectMeta)}
    (h : ∀ d answer r, t.Turn w (q t.place) answer d → r.toOption = t.looked answer → post (deeds ++ [d]) r d.after) :
    Acting t.place (t.store.look operation q t.key) post deeds w := by
  refine acting_request hRequest (Acts.bind (acting_send_bind fun d answer hTurn => ?_))
  cases answer with
  | error lost => exact h d _ _ hTurn rfl
  | ok response =>
    refine acts_guard (fun hStatus => h d _ _ hTurn ?_) fun hStatus => ?_
    · simp [looked, hStatus, Except.toOption]
    · refine acts_lift_bind (fun e hInfo => h d _ _ hTurn ?_) fun info hInfo => h d _ _ hTurn ?_
      · simp [looked, hInfo, Except.toOption]
      · simp [looked, not_not.mp hStatus, hInfo, Except.toOption]

theorem acting_head {post : CallPost ObjectMeta}
    (h : ∀ d answer r, t.Turn w (.headObject t.place) answer d → r.toOption = (t.looked answer).map Prod.snd →
      post (deeds ++ [d]) r d.after) : Acting t.place (t.store.head t.key) post deeds w := by
  refine Acts.bind (acting_look hRequest fun d answer r hTurn hLooked => ?_)
  cases r with
  | error e => exact h d answer _ hTurn (by rw [← hLooked]; rfl)
  | ok found => exact h d answer _ hTurn (by rw [← hLooked]; rfl)

/-- A read back says nothing new, unless it is of the second body under the revision just shown. -/
theorem acting_verifyProbeReadback {post : CallPost Unit} (hTrack : t.Track deeds w k)
    (hTold : k.shown = [] ∧ told = k.told ∨ k.shown = revision ∧ expected = t.second ∧ told = revision)
    (hOk : ∀ d, Served t.place expected revision d → t.Track (deeds ++ [d]) d.after ⟨told, []⟩ →
      post (deeds ++ [d]) (.ok ()) d.after)
    (hError : ∀ d e, t.Track (deeds ++ [d]) d.after ⟨k.told, []⟩ → post (deeds ++ [d]) (.error e) d.after) :
    Acting t.place (t.store.verifyProbeReadback t.key expected revision) post deeds w := by
  refine Acts.bind (Acts.catching_bind (acting_look hRequest fun d answer r hTurn hLooked => ?_))
  have hNext : t.Track (deeds ++ [d]) d.after ⟨if t.servesBack expected revision answer then told else k.told, []⟩ := by
    have hLearnt := hTrack.look hTurn rfl (fun _ => rfl) rfl
    simp only [learn, hTurn.sends.exchanged] at hLearnt
    rcases hTold with ⟨hShown, rfl⟩ | ⟨hShown, rfl, rfl⟩
    · rw [hShown, servesBack_nil] at hLearnt
      rwa [ite_self]
    · rwa [hShown] at hLearnt
  cases r with
  | error e => exact hError d _ (by simpa [servesBack, ← hLooked, Except.toOption] using hNext)
  | ok found =>
    have hServes : t.servesBack expected revision answer =
        (Store.matchReadback found.1 found.2 expected revision).isOk := by
      simp [servesBack, ← hLooked, Except.toOption]
    show Acting t.place (liftM (Store.matchReadback found.1 found.2 expected revision)) post (deeds ++ [d]) d.after
    refine (acts_lift _ _).mpr ?_
    cases hMatch : Store.matchReadback found.1 found.2 expected revision with
    | error e => exact hError d e (by simpa [hServes, hMatch, Except.isOk, Except.toBool] using hNext)
    | ok =>
      obtain ⟨response, rfl, hStatus, hBody, hEtag, -, hLength⟩ := looked_eq_some hLooked.symm
      obtain ⟨hContent, hRead, hSize, hRevision⟩ := matchReadback_ok hMatch
      rw [hBody] at hContent hRead
      refine hOk d ⟨response, hTurn.sends.exchanged, hStatus, hContent, hRead, hEtag.symm.trans hRevision,
        hLength.trans (congrArg some hSize)⟩ ?_
      simpa [hServes, hMatch, Except.isOk, Except.toBool] using hNext

theorem acting_deleteConditional {post : CallPost Unit} (hTold : told ≠ []) (hHeld : t.Held deeds w told)
    (hPost : ∀ d r, t.Spent (deeds ++ [d]) d.after told → post (deeds ++ [d]) r d.after) :
    Acting t.place (t.store.deleteConditional t.key told) post deeds w := by
  refine acts_guard (fun h => absurd h hTold) fun _ => ?_
  refine acting_request hRequest (Acts.bind (acting_send_bind fun d answer hTurn => ?_))
  have hSpent := hHeld.delete hTold hTurn
  cases answer with
  | error lost => exact hPost d _ hSpent
  | ok response =>
    show Acting t.place (if (!response.succeeded) = true then throw _ else pure ()) post (deeds ++ [d]) d.after
    split_ifs
    · exact hPost d _ hSpent
    · exact hPost d _ hSpent

end Steps

section Probe

open Trial

variable {t : Trial} {text : Error → Bytes} {first created : Bytes} {deeds deeds' : List Call} {w : Endpoint}
variable {post : CallPost (Bytes × Except Error Unit)}

/-- What a successful probe has seen. -/
def Sound (a first second : Bytes) (deeds : List Call) : Prop :=
  ∃ created replaced, created ≠ replaced ∧
    (∃ d ∈ deeds, Written a first .absent created d) ∧ (∃ d ∈ deeds, Served a first created d) ∧
    (∃ d ∈ deeds, Rejected a (lit "must-not-win") .absent d) ∧
    (∃ d ∈ deeds, Written a second (.revision created) replaced d ∨ Served a second replaced d) ∧
    (∃ d ∈ deeds, Rejected a (lit "stale-must-not-win") (.revision created) d) ∧
    ∃ d ∈ deeds, Served a second replaced d

theorem seen_mono {P : Call → Prop} (hSub : deeds ⊆ deeds') (h : ∃ d ∈ deeds, P d) : ∃ d ∈ deeds', P d :=
  h.imp fun _ hd => ⟨hSub hd.1, hd.2⟩

theorem Sound.mono {a second : Bytes} (h : Sound a first second deeds) (hSub : deeds ⊆ deeds') :
    Sound a first second deeds' := by
  obtain ⟨created, replaced, hNe, hWritten, hServed, hDuplicate, hReplaced, hStale, hSecond⟩ := h
  exact ⟨created, replaced, hNe, seen_mono hSub hWritten, seen_mono hSub hServed, seen_mono hSub hDuplicate,
    seen_mono hSub hReplaced, seen_mono hSub hStale, seen_mono hSub hSecond⟩

/-- What is left to clean up is what was told last, unless it has been deleted. -/
def Leaves (t : Trial) (revision : Bytes) (deeds : List Call) (w : Endpoint) : Prop :=
  (revision = [] ∧ ∃ told, t.Spent deeds w told) ∨ (revision ≠ [] ∧ t.Held deeds w revision)

theorem Trial.Held.leaves {told : Bytes} (h : t.Held deeds w told) (hTold : told ≠ []) : Leaves t told deeds w :=
  .inr ⟨hTold, h⟩

theorem condition_of_revision (hCreated : created ≠ []) :
    ((⟨false, created⟩ : WriteCondition).mustBeAbsent ==
      !(⟨false, created⟩ : WriteCondition).matchRevision.isEmpty) = false := by
  simp [hCreated]

variable (hRequest : ∀ method, t.store.newObjectRequest method t.key = .ok ()) (hCreated : created ≠ [])
include hRequest

include hCreated in
theorem acting_replaceProbe {post : CallPost ObjectMeta} (hTrack : t.Track deeds w ⟨created, []⟩)
    (hOk : ∀ deeds' info w', deeds ⊆ deeds' →
      (∃ d ∈ deeds', Written t.place t.second (.revision created) info.revision d ∨
        Served t.place t.second info.revision d) →
      info.revision ≠ [] → t.Track deeds' w' ⟨info.revision, []⟩ → post deeds' (.ok info) w')
    (hError : ∀ deeds' e w', t.Held deeds' w' created → post deeds' (.error e) w') :
    Acting t.place (t.store.replaceProbe t.key t.second created) post deeds w := by
  have hCondition := condition_of_revision hCreated
  refine Acts.catching_bind (acting_putConditional hRequest hCondition hTrack ?_ ?_)
  · intro d info hWritten hRevision hNow
    exact hOk _ info d.after (by simp) ⟨d, by simp, .inl hWritten⟩ hRevision hNow
  · intro d e _ hNow
    dsimp only
    split_ifs with hAmbiguous
    · refine Acts.catching_bind (acting_head hRequest fun d' answer r hTurn hLooked => ?_)
      have hShown := hNow.look hTurn rfl (fun _ => rfl) rfl
      simp only [learn, hTurn.sends.exchanged] at hShown
      cases r with
      | error _ => exact hError _ e d'.after hShown.toHeld
      | ok observed =>
        obtain ⟨found, hFound, rfl⟩ := Option.map_eq_some_iff.mp hLooked.symm
        obtain ⟨response, -, -, -, hEtag, hSome, -⟩ := looked_eq_some hFound
        rw [hFound] at hShown
        dsimp only
        split_ifs with hSame
        · refine acting_putConditional hRequest hCondition hShown ?_
            fun d'' e _ hNow => hError _ e d''.after hNow.toHeld
          intro d'' info hWritten hRevision hNow
          exact hOk _ info d''.after (by simp) ⟨d'', by simp, .inl hWritten⟩ hRevision hNow
        · refine Acts.catching_bind (acting_verifyProbeReadback hRequest hShown (.inr ⟨rfl, rfl, rfl⟩) ?_
            fun d'' _ hNow => hError _ e d''.after hNow.toHeld)
          intro d'' hServed hNow
          exact hOk _ found.2 d''.after (by simp) ⟨d'', by simp, .inr hServed⟩ (hEtag ▸ hSome) hNow
    · exact hError _ e d.after hNow.toHeld

include hCreated in
theorem acting_probeReplaced {replaced : Bytes} (hReplaced : replaced ≠ []) (hTrack : t.Track deeds w ⟨replaced, []⟩)
    (hPost : ∀ deeds' revision result w', Leaves t revision deeds' w' →
      (result = .ok () → deeds ⊆ deeds' ∧ created ≠ replaced ∧
        (∃ d ∈ deeds', Rejected t.place (lit "stale-must-not-win") (.revision created) d) ∧
        ∃ d ∈ deeds', Served t.place t.second replaced d) → post deeds' (.ok (revision, result)) w') :
    Acting t.place (t.store.probeReplaced text t.key t.second created replaced) post deeds w := by
  unfold Store.probeReplaced
  split_ifs with hSame
  · exact hPost _ _ _ _ (hTrack.toHeld.leaves hReplaced) (by simp)
  · refine Acts.catching_bind (acting_putConditional hRequest (condition_of_revision hCreated) hTrack ?_ ?_)
    · intro d stale _ hRevision hNow
      exact hPost _ _ _ _ (hNow.toHeld.leaves hRevision) (by simp)
    · intro d e hConflict hNow
      dsimp only
      split_ifs with hIs
      · refine Acts.catching_bind (acting_verifyProbeReadback hRequest hNow (.inl ⟨rfl, rfl⟩) ?_
          fun d' _ hNow => hPost _ _ _ _ (hNow.toHeld.leaves hReplaced) (by simp))
        intro d' hServed hNow
        refine Acts.catching_bind (acting_deleteConditional hRequest hReplaced hNow.toHeld fun d'' r hSpent => ?_)
        cases r with
        | error e => exact hPost _ _ _ _ (hSpent.toHeld.leaves hReplaced) (by simp)
        | ok =>
          refine Acts.catching_bind (acting_head hRequest fun c answer r hTurn _ => ?_)
          have hDone : Leaves t [] (deeds ++ [d] ++ [d'] ++ [d''] ++ [c]) c.after :=
            .inl ⟨rfl, replaced, hSpent.look hTurn⟩
          cases r with
          | ok _ => exact hPost _ [] _ c.after hDone (by simp)
          | error e =>
            dsimp only
            split_ifs
            · exact hPost _ [] _ c.after hDone fun _ =>
                ⟨by simp, Ne.symm hSame, ⟨d, by simp, hConflict hIs⟩, d', by simp, hServed⟩
            · exact hPost _ [] _ c.after hDone (by simp)
      · exact hPost _ _ _ _ (hNow.toHeld.leaves hReplaced) (by simp)

include hCreated in
theorem acting_probeCreated (hTrack : t.Track deeds w ⟨created, []⟩)
    (hWritten : ∃ d ∈ deeds, Written t.place first .absent created d)
    (hPost : ∀ deeds' revision result w', Leaves t revision deeds' w' →
      (result = .ok () → Sound t.place first t.second deeds') → post deeds' (.ok (revision, result)) w') :
    Acting t.place (t.store.probeCreated text t.key first t.second created) post deeds w := by
  refine Acts.catching_bind (acting_verifyProbeReadback hRequest hTrack (.inl ⟨rfl, rfl⟩) ?_
    fun d _ hNow => hPost _ _ _ _ (hNow.toHeld.leaves hCreated) (by simp))
  intro d hServed hNow
  refine Acts.catching_bind (acting_putConditional hRequest rfl hNow ?_ ?_)
  · intro d' duplicate _ hRevision hNow
    exact hPost _ _ _ _ (hNow.toHeld.leaves hRevision) (by simp)
  · intro d' e hConflict hNow
    dsimp only
    split_ifs with hIs
    · refine Acts.catching_bind (acting_replaceProbe hRequest hCreated hNow ?_
        fun _ _ _ hHeld => hPost _ _ _ _ (hHeld.leaves hCreated) (by simp))
      intro deeds₁ replaced w₁ hSub hReplaced hRevision hNow
      refine acting_probeReplaced hRequest hCreated hRevision hNow fun deeds₂ revision result w₂ hLeaves hSeen => ?_
      refine hPost deeds₂ revision result w₂ hLeaves fun hOk => ?_
      obtain ⟨hSub', hNe, hStale, hSecond⟩ := hSeen hOk
      have hAll : deeds ++ [d] ++ [d'] ⊆ deeds₂ := fun c hc => hSub' (hSub hc)
      exact ⟨created, replaced.revision, hNe, seen_mono (fun c hc => hAll (by simp [hc])) hWritten,
        ⟨d, hAll (by simp), hServed⟩, ⟨d', hAll (by simp), hConflict hIs⟩, seen_mono hSub' hReplaced, hStale, hSecond⟩
    · exact hPost _ _ _ _ (hNow.toHeld.leaves hCreated) (by simp)

theorem acting_cleanupProbe {revision : Bytes} {result : Except Error Unit} {post : CallPost Unit}
    (hLeaves : Leaves t revision deeds w)
    (hPost : ∀ deeds' r w' told, deeds ⊆ deeds' → (r = .ok () → result = .ok ()) →
      t.Spent deeds' w' told → post deeds' r w') :
    Acting t.place (t.store.cleanupProbe t.key revision result) post deeds w := by
  unfold Store.cleanupProbe
  rcases hLeaves with ⟨hRevision, told, hSpent⟩ | ⟨hRevision, hHeld⟩
  · rw [if_pos hRevision]
    exact (acts_lift _ _).mpr (hPost deeds result w told (List.Subset.refl _) id hSpent)
  · rw [if_neg hRevision]
    refine Acts.catching_bind (acting_deleteConditional hRequest hRevision hHeld fun d r hSpent => ?_)
    have hSub : deeds ⊆ deeds ++ [d] := List.subset_append_left _ _
    split
    · split_ifs
      · exact hPost _ _ _ _ hSub (fun _ => rfl) hSpent
      · exact hPost _ _ _ _ hSub (by simp) hSpent
    · exact (acts_lift _ _).mpr (hPost _ _ _ _ hSub id hSpent)

end Probe

section Verdict

open Trial

/-- The object is gone in the end where what the last write has left is known, and, unless a delete
of another revision is carried out, only there. -/
structure Verdict (t : Trial) (first : Bytes) (deeds : List Call) (r : Except Error Unit) (after : Endpoint) :
    Prop where
  about : About t.place deeds
  sound : r = .ok () → Sound t.place first t.second deeds
  clean : (∀ d ∈ deeds, HonoursDelete t.place d) → t.Known deeds → after.objects t.place = none
  only : (∀ d ∈ deeds, SparesOthers t.place d) → after.objects t.place = none → t.Known deeds

/-- The first write has failed, or was not sent. -/
theorem Trial.Track.verdict {t : Trial} {first : Bytes} {deeds : List Call} {w : Endpoint}
    (h : t.Track deeds w ⟨[], []⟩) (e : Error) : Verdict t first deeds (.error e) w where
  about := h.about
  sound := by simp
  clean _ hKnown := h.now.trans (hKnown.resolve_right fun hTold => hTold.1 (by rw [h.learnt]))
  only := h.toHeld.only

def trialOf (s : Store) (directory random : Bytes) (w : Endpoint) : Trial :=
  ⟨s, directory ++ Sha256.hexText random, lit "camp-s3-probe-two:" ++ random, w⟩

section Sample

def sampleEndpoint : Endpoint := ⟨fun _ => none, [lit "r1", lit "r2"], false⟩

def sampleProbe : Act Unit := sampleStore.probeWriter (fun _ => []) [] (.ok (lit "0123456789abcdef"))

def sampleReply (statusCode : Nat) (etag body : String) : Fate Response Bytes × ∀ i, Collaborator.Value i :=
  (.answered ⟨statusCode, [], ⟨lit etag, lit "34", [], []⟩, ⟨lit body, none, none⟩, 0⟩ true, fun _ => default)

/-- The answer to the replacement is lost after it took effect. A look shows the new revision. -/
def sampleReplies : List (Fate Response Bytes × ∀ i, Collaborator.Value i) :=
  [sampleReply 200 "r1" "", sampleReply 200 "r1" "camp-s3-probe-one:0123456789abcdef", sampleReply 412 "" "",
    (.dropped (lit "EOF") true, fun _ => default), sampleReply 200 "r2" "",
    sampleReply 200 "r2" "camp-s3-probe-two:0123456789abcdef", sampleReply 412 "" "",
    sampleReply 200 "r2" "camp-s3-probe-two:0123456789abcdef", sampleReply 204 "" "", sampleReply 404 "" ""]

instance (a : Bytes) (d : Call) : Decidable (HonoursDelete a d) := by unfold HonoursDelete; infer_instance

instance (t : Trial) (deeds : List Call) : Decidable (t.Known deeds) := by unfold Trial.Known; infer_instance

end Sample

end Verdict

end Camp.S3Store
