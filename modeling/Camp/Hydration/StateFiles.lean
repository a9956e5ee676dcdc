import Camp.Program.Calls
import Camp.Wire.Utf8

/-!
# The state files of a hydration

A state file is written beside its path, synced, and renamed to it. A call may fail, the
process may stop before any call, and a write may break off after any of its bytes. What is
durable is what was synced, with the directory synced after the renaming.
-/

namespace Camp.Hydration.StateFiles

open Wire Wire.Utf8 Program Program.Calls

section Model

inductive Entry where
  | file (body : Bytes)
  | other
  deriving DecidableEq

/-- The file, the partial file beside it, and what was synced of them. -/
structure World where
  target : Option Entry
  partialFile : Option Entry
  partialSynced : Bool
  targetSynced : Bool
  entrySynced : Bool
  deriving DecidableEq

inductive Place where
  | target
  | partialFile
  deriving DecidableEq

def World.at (w : World) : Place → Option Entry
  | .target => w.target
  | .partialFile => w.partialFile

inductive Call where
  | lstat (place : Place)
  | read
  | create
  | append (b : UInt8)
  | sync
  | close
  | remove
  | rename (replace : Bool)
  | syncDirectory
  deriving DecidableEq

abbrev Answer : Call → Type
  | .lstat _ => Bool
  | .read => Bytes
  | _ => Unit

inductive Trouble where
  | notExist
  | exist
  | failed
  deriving DecidableEq

def World.perform : (call : Call) → World → Except Trouble (Answer call) × World
  | .lstat place, w =>
    match w.at place with
    | none => (.error .notExist, w)
    | some (.file _) => (.ok true, w)
    | some .other => (.ok false, w)
  | .read, w =>
    match w.target with
    | some (.file body) => (.ok body, w)
    | _ => (.error .notExist, w)
  | .create, w =>
    match w.partialFile with
    | none => (.ok (), { w with partialFile := some (.file []), partialSynced := false })
    | some _ => (.error .exist, w)
  | .append b, w =>
    match w.partialFile with
    | some (.file body) => (.ok (), { w with partialFile := some (.file (body ++ [b])), partialSynced := false })
    | _ => (.error .failed, w)
  | .sync, w => (.ok (), { w with partialSynced := true })
  | .close, w => (.ok (), w)
  | .remove, w => (.ok (), { w with partialFile := none })
  | .rename replace, w =>
    match w.partialFile with
    | none => (.error .notExist, w)
    | some entry =>
      if w.target ≠ none ∧ replace = false then (.error .exist, w)
      else (.ok (), { w with
        target := some entry
        partialFile := none
        targetSynced := w.partialSynced
        entrySynced := false })
  | .syncDirectory, w => (.ok (), { w with entrySynced := true })

def files : Service World Trouble Answer where
  perform := World.perform
  failed := .failed

inductive Error where
  | io (t : Trouble)
  | unsafeMaterialization (text : String)
  deriving DecidableEq

abbrev Step (α : Type) := Act Trouble Error Answer α

def call (c : Call) : Step (Answer c) := sys .io c

def writeAll : Bytes → Step Unit
  | [] => pure ()
  | b :: body => do
    call (.append b)
    writeAll body

/-- The errors of the write and of the sync are bound in the block of the `if` and end there. -/
def writeAndSync (body : Bytes) : Step Unit := do
  match ← catching (writeAll body) with
  | .error _ => return ()
  | .ok () =>
    let _ ← catching (call .sync)
    return ()

def closeAndRename (replace : Bool) : Step Unit := do
  match ← catching (call .close) with
  | .error e =>
    let _ ← catching (call .remove)
    throw e
  | .ok () =>
    match ← catching (call (.rename replace)) with
    | .error e =>
      let _ ← catching (call .remove)
      throw e
    | .ok () => call .syncDirectory

/-- What both writers do once the path is seen to be theirs. -/
def writePartial (replace : Bool) (unexplained : String) (body : Bytes) : Step Unit := do
  match ← catching (call (.lstat .partialFile)) with
  | .ok _ => throw (.unsafeMaterialization unexplained)
  | .error e =>
    if e = .io .notExist then
      call .create
      writeAndSync body
      closeAndRename replace
    else throw e

def writeStableFile (body : Bytes) : Step Unit := do
  match ← catching (call (.lstat .target)) with
  | .ok true =>
    let existing ← call .read
    if existing = body then return () else throw (.unsafeMaterialization "stable file %q differs")
  | .ok false => throw (.unsafeMaterialization "stable file %q is unsafe")
  | .error e =>
    if e = .io .notExist then writePartial false "unexplained stable file partial exists" body else throw e

def writeReplaceFile (body : Bytes) : Step Unit := do
  match ← catching (call (.lstat .target)) with
  | .ok true => writePartial true "unexplained replace partial exists" body
  | .ok false => throw (.unsafeMaterialization "replace target %q is unsafe")
  | .error e =>
    if e = .io .notExist then writePartial true "unexplained replace partial exists" body else throw e

inductive Writer where
  | stable
  | replace
  deriving DecidableEq

def Writer.program : Writer → Bytes → Step Unit
  | .stable => writeStableFile
  | .replace => writeReplaceFile

def Writer.run (writer : Writer) (body : Bytes) (faults : List Fault) (w : World) :
    Option (Except Error Unit) × World :=
  (machine files).run (writer.program body).run faults w

end Model

open World

section Replacement

/-- The writes and the sync of the partial file do not fail; the process may still stop there. -/
def Written (c : Call) (fault : Fault) (_ : World) : Prop :=
  match c with
  | .append _ | .sync => fault ≠ .fail
  | _ => True

def World.Durable (w : World) : Prop := w.targetSynced = true ∧ w.entrySynced = true

/-- The file is the requested one, durably unless it was there before; or it is the previous one,
or from the renaming on the requested one. -/
def Replaced (body : Bytes) (w : World) : Outcome Error Unit → World → Prop
  | some (.ok ()), w' => w'.target = some (.file body) ∧ (w'.Durable ∨ w' = w)
  | _, w' => w'.target = w.target ∨ w'.target = some (.file body)

abbrev Ends {α : Type} (p : Step α) (post : Outcome Error α → World → Prop) (w : World) : Prop :=
  (machine files).Ends Written p post w

variable {w v : World} {body : Bytes}

/-- A call takes effect, or it fails or the process stops and nothing happens. -/
def Did (c : Call) (v : World) (r : Outcome Error (Answer c)) (v' : World) : Prop :=
  r = some ((perform c v).1.mapError .io) ∧ v' = (perform c v).2 ∨
    v' = v ∧ (r = none ∨ Written c .fail v ∧ r = some (.error (.io .failed)))

theorem ends_call (c : Call) (v : World) : Ends (call c) (Did c v) v :=
  ends_sys (fun hFail => .inr ⟨rfl, .inr ⟨hFail, rfl⟩⟩) (.inr ⟨rfl, .inl rfl⟩) (.inl ⟨rfl, rfl⟩)

theorem Did.stopped {c : Call} {v' : World} (h : Did c v none v') : v' = v := by
  rcases h with ⟨h, -⟩ | ⟨h, -⟩
  · cases h
  · exact h

theorem ends_writeAll {old : Bytes} (hFile : v.partialFile = some (.file old)) (hTarget : v.target = w.target) :
    Ends (writeAll body) (fun r v' => v'.target = w.target ∧
      ∀ s, r = some s → s = .ok () ∧ v'.partialFile = some (.file (old ++ body))) v := by
  induction body generalizing v old with
  | nil =>
    refine ⟨hTarget, ?_⟩
    rintro _ ⟨⟩
    exact ⟨rfl, by rw [hFile, List.append_nil]⟩
  | cons b body ih =>
    have hAppend : perform (.append b) v =
        (.ok (), { v with partialFile := some (.file (old ++ [b])), partialSynced := false }) := by
      simp [perform, hFile]
    refine (ends_call (.append b) v).andThen (fun v' hr => ⟨hr.stopped ▸ hTarget, nofun⟩) ?_ ?_
    · rintro e v' (⟨h, -⟩ | ⟨-, h | ⟨h, -⟩⟩)
      · rw [hAppend] at h
        cases h
      · cases h
      · exact absurd rfl h
    · rintro ⟨⟩ v' (⟨-, h⟩ | ⟨-, h | ⟨h, -⟩⟩)
      · rw [hAppend] at h
        subst h
        refine Machine.Ends.mono (ih rfl hTarget) fun r v' hr => ⟨hr.1, fun s hs => ?_⟩
        simpa using hr.2 s hs
      · cases h
      · exact absurd rfl h

theorem ends_writeAndSync (hFile : v.partialFile = some (.file [])) (hTarget : v.target = w.target) :
    Ends (writeAndSync body) (fun r v' => v'.target = w.target ∧
      ∀ s, r = some s → s = .ok () ∧ v'.partialFile = some (.file body) ∧ v'.partialSynced = true) v := by
  refine (ends_writeAll hFile hTarget).caught (fun v' hr => ⟨hr.1, nofun⟩) ?_
  rintro r v' ⟨hTarget, hr⟩
  obtain ⟨rfl, hWritten⟩ := hr r rfl
  refine (ends_call .sync v').caught (fun v'' hr => ⟨hr.stopped ▸ hTarget, nofun⟩) ?_
  rintro r v'' (⟨-, rfl⟩ | ⟨-, h | ⟨h, -⟩⟩)
  · refine ⟨hTarget, ?_⟩
    rintro _ ⟨⟩
    exact ⟨rfl, hWritten, rfl⟩
  · cases h
  · exact absurd rfl h

theorem ends_giveUp {e : Error} (hTarget : v.target = w.target) :
    Ends (catching (call .remove) >>= fun _ => throw e) (Replaced body w) v := by
  refine (ends_call .remove v).caught (fun v' hr => .inl (hr.stopped ▸ hTarget)) ?_
  rintro r v' (⟨-, rfl⟩ | ⟨rfl, -⟩)
  · exact .inl hTarget
  · exact .inl hTarget

theorem ends_closeAndRename {replace : Bool} (hTarget : v.target = w.target) (hFile : v.partialFile = some (.file body))
    (hSynced : v.partialSynced = true) : Ends (closeAndRename replace) (Replaced body w) v := by
  refine (ends_call .close v).caught (fun v' hr => .inl (hr.stopped ▸ hTarget)) ?_
  rintro r v' hr
  have hClosed : v' = v := by
    rcases hr with ⟨-, h⟩ | ⟨h, -⟩ <;> exact h
  subst hClosed
  rcases r with e | ⟨⟩
  · exact ends_giveUp hTarget
  refine (ends_call (.rename replace) v').caught (fun v'' hr => .inl (hr.stopped ▸ hTarget)) ?_
  rintro r v'' (⟨hResult, hAfter⟩ | ⟨rfl, h | ⟨-, h⟩⟩)
  · by_cases hTaken : v'.target ≠ none ∧ replace = false
    · have hRename : perform (.rename replace) v' = (.error .exist, v') := by
        simp only [perform, hFile, if_pos hTaken]
      rw [hRename] at hResult hAfter
      cases hResult
      subst hAfter
      exact ends_giveUp hTarget
    · have hRename : perform (.rename replace) v' = (.ok (), { v' with
          target := some (.file body)
          partialFile := none
          targetSynced := v'.partialSynced
          entrySynced := false }) := by
        simp only [perform, hFile, if_neg hTaken]
      rw [hRename] at hResult hAfter
      cases hResult
      subst hAfter
      refine Machine.Ends.mono (ends_call .syncDirectory _) ?_
      rintro r v'' (⟨rfl, rfl⟩ | ⟨rfl, rfl | ⟨-, rfl⟩⟩)
      · exact ⟨rfl, .inl ⟨hSynced, rfl⟩⟩
      · exact .inr rfl
      · exact .inr rfl
  · cases h
  · cases h
    exact ends_giveUp hTarget

theorem ends_writePartial {replace : Bool} {unexplained : String} :
    Ends (writePartial replace unexplained body) (Replaced body w) w := by
  refine (ends_call (.lstat .partialFile) w).caught (fun v hr => .inl (hr.stopped ▸ rfl)) ?_
  rintro r v hr
  have hSame : v = w := by
    rcases hr with ⟨-, h⟩ | ⟨h, -⟩
    · rw [h]
      rcases hFile : w.partialFile with _ | _ | _ <;> simp [World.perform, World.at, hFile]
    · exact h
  subst hSame
  rcases r with e | regular
  · show Ends (if e = .io .notExist then _ else _) _ _
    split_ifs with hAbsent
    · refine (ends_call .create v).andThen (fun v' hr => .inl (hr.stopped ▸ rfl)) ?_ ?_
      · rintro e v' (⟨h, hAfter⟩ | ⟨rfl, -⟩)
        · rcases hFile : v.partialFile with _ | entry
          · simp [World.perform, hFile] at h
            cases h
          · simp only [World.perform, hFile] at hAfter
            exact .inl (hAfter ▸ rfl)
        · exact .inl rfl
      · rintro ⟨⟩ v' (⟨h, hAfter⟩ | ⟨-, h | ⟨-, h⟩⟩)
        · rcases hFile : v.partialFile with _ | entry
          · simp only [World.perform, hFile] at hAfter
            subst hAfter
            refine (ends_writeAndSync rfl rfl).andThen (fun v' hr => .inl hr.1) ?_ ?_
            · rintro e v' ⟨-, hr⟩
              cases (hr _ rfl).1
            · rintro ⟨⟩ v' ⟨hTarget, hr⟩
              obtain ⟨-, hFile, hSynced⟩ := hr _ rfl
              exact ends_closeAndRename hTarget hFile hSynced
          · simp [World.perform, hFile] at h
            cases h
        · cases h
        · cases h
    · exact .inl rfl
  · exact .inl rfl

theorem lstat_target {r : Except Error Bool} {v : World} (hr : Did (.lstat .target) w (some r) v) :
    v = w ∧ (r = .ok true → ∃ existing, w.target = some (.file existing)) := by
  rcases hr with ⟨h, hAfter⟩ | ⟨h, hNone | ⟨-, hFailed⟩⟩
  · rcases hTarget : w.target with _ | existing | _
    · simp only [World.perform, World.at, hTarget] at h hAfter
      cases h
      exact ⟨hAfter, nofun⟩
    · simp only [World.perform, World.at, hTarget] at h hAfter
      exact ⟨hAfter, fun _ => ⟨existing, rfl⟩⟩
    · simp only [World.perform, World.at, hTarget] at h hAfter
      cases h
      exact ⟨hAfter, nofun⟩
  · cases hNone
  · cases hFailed
    exact ⟨h, nofun⟩

theorem ends_writeReplaceFile (body : Bytes) (w : World) : Ends (writeReplaceFile body) (Replaced body w) w := by
  refine (ends_call (.lstat .target) w).caught (fun v hr => .inl (hr.stopped ▸ rfl)) ?_
  rintro r v hr
  obtain ⟨rfl, -⟩ := lstat_target hr
  rcases r with e | _ | _
  · show Ends (if e = .io .notExist then _ else _) _ _
    split_ifs
    · exact ends_writePartial
    · exact .inl rfl
  · exact .inl rfl
  · exact ends_writePartial

theorem ends_writeStableFile (body : Bytes) (w : World) : Ends (writeStableFile body) (Replaced body w) w := by
  refine (ends_call (.lstat .target) w).caught (fun v hr => .inl (hr.stopped ▸ rfl)) ?_
  rintro r v hr
  obtain ⟨rfl, hRegular⟩ := lstat_target hr
  rcases r with e | _ | _
  · show Ends (if e = .io .notExist then _ else _) _ _
    split_ifs
    · exact ends_writePartial
    · exact .inl rfl
  · exact .inl rfl
  · obtain ⟨existing, hExisting⟩ := hRegular rfl
    have hRead : perform .read v = (.ok existing, v) := by simp [perform, hExisting]
    refine (ends_call .read v).andThen (fun v' hr => .inl (hr.stopped ▸ rfl)) ?_ ?_
    · rintro e v' (⟨h, -⟩ | ⟨rfl, -⟩)
      · rw [hRead] at h
        cases h
      · exact .inl rfl
    · rintro found v' (⟨h, hAfter⟩ | ⟨-, h | ⟨-, h⟩⟩)
      · rw [hRead] at h hAfter
        cases h
        subst hAfter
        split_ifs with hEqual
        · exact ⟨hEqual ▸ hExisting, .inr rfl⟩
        · exact .inl rfl
      · cases h
      · cases h

theorem state_file_replaced (writer : Writer) (body : Bytes) (w : World) (faults : List Fault)
    (hWritten : (machine files).Respects Written (writer.program body).run faults w) :
    Replaced body w (writer.run body faults w).1 (writer.run body faults w).2 := by
  cases writer with
  | stable => exact Machine.Ends.run (ends_writeStableFile body w) hWritten
  | replace => exact Machine.Ends.run (ends_writeReplaceFile body w) hWritten

def previousFile (body : Bytes) (durable : Bool) : World where
  target := some (.file body)
  partialFile := none
  partialSynced := false
  targetSynced := durable
  entrySynced := durable

def failingRename : List Fault := [.none, .none, .none, .none, .none, .none, .fail]

/-- The renaming fails. -/
theorem state_file_replaced_failingRename :
    (Writer.replace.run [1] failingRename (previousFile [9] true)).1 = some (.error (.io .failed)) ∧
      Replaced [1] (previousFile [9] true) (Writer.replace.run [1] failingRename (previousFile [9] true)).1
        (Writer.replace.run [1] failingRename (previousFile [9] true)).2 := by
  have hFault : Fault.none ≠ .fail := by decide
  refine ⟨by decide, state_file_replaced .replace [1] (previousFile [9] true) failingRename ?_⟩
  exact ⟨trivial, trivial, trivial, hFault, hFault, trivial, trivial, trivial, trivial⟩

/-- A short write is reported as a success; a failed directory sync is reported as a failure, but
the new file is there; and a stable file that is there is not synced. -/
theorem state_file_not_atomic :
    (Writer.replace.run [1, 2] [.none, .none, .none, .none, .fail] (previousFile [9] true)).1 = some (.ok ()) ∧
      (Writer.replace.run [1, 2] [.none, .none, .none, .none, .fail] (previousFile [9] true)).2.target =
      some (.file [1]) ∧
      (Writer.replace.run [1] [.none, .none, .none, .none, .none, .none, .none, .fail] (previousFile [9] true)).1 =
        some (.error (.io .failed)) ∧
      (Writer.replace.run [1] [.none, .none, .none, .none, .none, .none, .none, .fail]
      (previousFile [9] true)).2.target =
        some (.file [1]) ∧
      Writer.stable.run [1] [] (previousFile [1] false) = (some (.ok ()), previousFile [1] false) := by
  decide

end Replacement

end Camp.Hydration.StateFiles
