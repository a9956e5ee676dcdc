import Camp.Program.Prog

/-!
# Directories of files that fail and crash

Every operation may fail without effect, and the process may stop at every
operation. A write that fails or is interrupted leaves any number of its bytes
in the file. Directories are named by the program, or are temporary.
-/

namespace Program.Files

open Function

abbrev Content := List UInt8

inductive Place (D : Type) where
  | named (d : D)
  | temp (n : Nat)
  deriving DecidableEq

inductive IoError where
  | notExist
  | exist
  | failed
  deriving DecidableEq

/-- The operations. `attempt` changes nothing but may fail. -/
inductive Op (D F P : Type) where
  | attempt (what : P)
  | exists (d : Place D)
  | makeTemp
  | create (d : Place D) (f : F)
  | openFile (d : Place D) (f : F)
  | write (d : Place D) (f : F) (bytes : Content)
  | size (d : Place D) (f : F)
  | read (d : Place D) (f : F)
  | remove (d : Place D) (f : F)
  | rename (d : Place D) (f g : F)
  | removeAll (d : Place D)
  | renameAll (d e : Place D)

variable {D F P : Type}

abbrev Op.Value : Op D F P → Type
  | .exists _ => Bool
  | .makeTemp => Place D
  | .size _ _ => Nat
  | .read _ _ => Content
  | _ => Unit

abbrev signature (D F P : Type) : Signature where
  Op := Op D F P
  Answer op := Except IoError op.Value

abbrev Folder (F : Type) := F → Option Content

structure Tree (D F : Type) where
  folder : Place D → Option (Folder F)
  temps : Nat

namespace Tree

theorem ext_folder {t t' : Tree D F} (h : ∀ d, t.folder d = t'.folder d)
    (hTemps : t.temps = t'.temps) : t = t' := by
  cases t
  cases t'
  cases hTemps
  congr
  exact funext h

def file (t : Tree D F) (d : Place D) (f : F) : Option Content :=
  (t.folder d).bind fun folder => folder f

section Set

variable [DecidableEq D] (t : Tree D F) (d : Place D)

def set (content : Option (Folder F)) : Tree D F :=
  { t with folder := fun d' => if d' = d then content else t.folder d' }

@[simp] theorem folder_set_self (content : Option (Folder F)) :
    (t.set d content).folder d = content := if_pos rfl

theorem folder_set_ne {d' : Place D} (h : d' ≠ d) (content : Option (Folder F)) :
    (t.set d content).folder d' = t.folder d' := if_neg h

@[simp] theorem set_folder : t.set d (t.folder d) = t := by
  refine ext_folder (fun d' => ?_) rfl
  by_cases h : d' = d
  · rw [h, folder_set_self]
  · exact folder_set_ne _ _ h _

@[simp] theorem set_set (a b : Option (Folder F)) : (t.set d a).set d b = t.set d b := by
  refine ext_folder (fun d' => ?_) rfl
  by_cases h : d' = d
  · rw [h, folder_set_self, folder_set_self]
  · simp only [folder_set_ne _ _ h]

@[simp] theorem file_set_self (g : Folder F) (f : F) : (t.set d (some g)).file d f = g f := by
  simp [file]

end Set

variable [DecidableEq D] [DecidableEq F] (t : Tree D F)

def setFile (d : Place D) (f : F) (content : Option Content) : Tree D F :=
  match t.folder d with
  | some folder => t.set d (some fun f' => if f' = f then content else folder f')
  | none => t

@[simp] theorem setFile_set_self (d : Place D) (g : Folder F) (f : F) (content : Option Content) :
    (t.set d (some g)).setFile d f content = t.set d (some (update g f content)) := by
  have hUpdate : (fun f' => if f' = f then content else g f') = update g f content := by
    funext f'
    rw [update_apply]
  simp only [setFile, folder_set_self, set_set, hUpdate]

def perform : (op : Op D F P) → Except IoError op.Value × Tree D F
  | .attempt _ => (.ok (), t)
  | .exists d => (.ok (t.folder d).isSome, t)
  | .makeTemp => (.ok (.temp t.temps),
      { t.set (.temp t.temps) (some fun _ => none) with temps := t.temps + 1 })
  | .create d f =>
    match t.folder d with
    | none => (.error .notExist, t)
    | some folder => if (folder f).isSome then (.error .exist, t) else (.ok (), t.setFile d f (some []))
  | .openFile d f => (if (t.file d f).isSome then .ok () else .error .notExist, t)
  | .write d f bytes =>
    match t.file d f with
    | none => (.error .notExist, t)
    | some content => (.ok (), t.setFile d f (some (content ++ bytes)))
  | .size d f =>
    match t.file d f with
    | none => (.error .notExist, t)
    | some content => (.ok content.length, t)
  | .read d f =>
    match t.file d f with
    | none => (.error .notExist, t)
    | some content => (.ok content, t)
  | .remove d f => if (t.file d f).isSome then (.ok (), t.setFile d f none) else (.error .notExist, t)
  | .rename d f g =>
    match t.file d f with
    | none => (.error .notExist, t)
    | some content => (.ok (), (t.setFile d g (some content)).setFile d f none)
  | .removeAll d => (.ok (), t.set d none)
  | .renameAll d e =>
    match t.folder d, t.folder e with
    | none, _ => (.error .notExist, t)
    | some _, some _ => (.error .exist, t)
    | some folder, none => (.ok (), (t.set e (some folder)).set d none)

/-- What is left of an operation that fails or is interrupted. -/
def torn (kept : Nat) : Op D F P → Tree D F
  | .write d f bytes =>
    match t.file d f with
    | none => t
    | some content => t.setFile d f (some (content ++ bytes.take kept))
  | _ => t

theorem torn_absent {d : Place D} {f : F} (kept : Nat) (op : Op D F P) :
    (t.torn kept op).file d f = none ↔ t.file d f = none := by
  cases op with
  | write d' f' bytes =>
    rw [torn]
    cases hFile : t.file d' f' with
    | none => rfl
    | some content =>
      obtain ⟨g, hg, hContent⟩ := Option.bind_eq_some_iff.mp hFile
      show (t.setFile d' f' _).file d f = none ↔ _
      rw [← t.set_folder d', hg, setFile_set_self]
      by_cases hd : d = d'
      · subst hd
        rw [file_set_self, file_set_self]
        by_cases hf : f = f'
        · subst hf
          simp [hContent]
        · rw [update_of_ne hf]
      · rw [file, file, folder_set_ne _ _ hd, folder_set_ne _ _ hd]
  | _ => rfl

end Tree

/-- The operation succeeds, fails, or the process stops in it. Of a write the
first `kept` bytes reach the file. -/
inductive Fault where
  | none
  | fail (kept : Nat)
  | crash (kept : Nat)
  deriving DecidableEq

variable [DecidableEq D] [DecidableEq F]

def machine (D F P : Type) [DecidableEq D] [DecidableEq F] : Machine (signature D F P) (Tree D F) where
  Choice := Fault
  calm := .none
  step op
    | .none, t => (some (t.perform op).1, (t.perform op).2)
    | .fail kept, t => (some (.error .failed), t.torn kept op)
    | .crash kept, t => (none, t.torn kept op)

def Fault.Stops : Fault → Prop
  | .crash _ => True
  | _ => False

def Fault.leaves (cuts : Nat → Prop) : Fault → Prop
  | .none => True
  | .fail kept | .crash kept => cuts kept

def within (cuts : Op D F P → Nat → Prop) (op : (signature D F P).Op)
    (fault : (machine D F P).Choice) (_ : Tree D F) : Prop := Fault.leaves (cuts op) fault

theorem not_stops_of_answer {op : Op D F P} {fault : Fault} {t t' : Tree D F}
    {answer : (signature D F P).Answer op} (h : (machine D F P).step op fault t = (some answer, t')) :
    ¬ fault.Stops := by
  cases fault with
  | none => exact id
  | fail kept => exact id
  | crash kept => cases h

theorem torn_of_stop {op : Op D F P} {fault : Fault} {t t' : Tree D F}
    (h : (machine D F P).step op fault t = (none, t')) : fault.Stops ∧ ∃ kept, t' = t.torn kept op := by
  cases fault with
  | none => cases h
  | fail kept => cases h
  | crash kept =>
    cases h
    exact ⟨trivial, kept, rfl⟩

def sys {ε : Type} (explain : IoError → ε) (op : Op D F P) :
    ExceptT ε (Prog (signature D F P)) op.Value :=
  ExceptT.mk do
    match ← Prog.perform op with
    | .ok value => pure (.ok value)
    | .error e => pure (.error (explain e))

section Rules

variable {ε : Type} {cuts : Op D F P → Nat → Prop} {explain : IoError → ε} {t : Tree D F} {d e : Place D} {f g : F}
variable {post : Outcome ε Unit → Tree D F → Prop}

theorem ends_sys (op : Op D F P) (post : Outcome ε op.Value → Tree D F → Prop) :
    (machine D F P).Ends (within cuts) (sys explain op) post t ↔
      post (some ((t.perform op).1.mapError explain)) (t.perform op).2 ∧
      (∀ kept, cuts op kept → post (some (.error (explain .failed))) (t.torn kept op)) ∧
      ∀ kept, cuts op kept → post none (t.torn kept op) := by
  have hNatural : (machine D F P).Ends (within cuts) (sys explain op) post t ↔
      ∀ fault : Fault, within cuts op fault t →
      match (machine D F P).step op fault t with
      | (some answer, t') => post (some (answer.mapError explain)) t'
      | (none, t') => post none t' := by
    refine forall₂_congr fun fault _ => ?_
    rcases (machine D F P).step op fault t with ⟨_ | (err | value), t'⟩ <;> rfl
  rw [hNatural]
  constructor
  · intro h
    exact ⟨h .none trivial, fun kept => h (.fail kept), fun kept => h (.crash kept)⟩
  · rintro ⟨hNone, hFail, hCrash⟩ (_ | kept | kept) hWithin
    · exact hNone
    · exact hFail kept hWithin
    · exact hCrash kept hWithin

theorem Ends.sys {op : Op D F P} {post : Outcome ε op.Value → Tree D F → Prop}
    (hTorn : ∀ kept, t.torn kept op = t) (hBreak : Machine.MayBreak post t)
    (hDone : post (some ((t.perform op).1.mapError explain)) (t.perform op).2) :
    (machine D F P).Ends (within cuts) (sys explain op) post t := by
  rw [ends_sys]
  exact ⟨hDone, fun kept _ => (hTorn kept).symm ▸ hBreak.2 _, fun kept _ => (hTorn kept).symm ▸ hBreak.1⟩

theorem Ends.attempt {what : P} (hBreak : Machine.MayBreak post t) (hDone : post (some (.ok ())) t) :
    (machine D F P).Ends (within cuts) (Files.sys explain (.attempt what)) post t :=
  Ends.sys (fun _ => rfl) hBreak hDone

theorem Ends.exists {post : Outcome ε Bool → Tree D F → Prop} (hBreak : Machine.MayBreak post t)
    (hDone : post (some (.ok (t.folder d).isSome)) t) :
    (machine D F P).Ends (within cuts) (Files.sys explain (.exists d)) post t :=
  Ends.sys (fun _ => rfl) hBreak hDone

theorem Ends.openFile (hBreak : Machine.MayBreak post t)
    (hDone : ∀ content, t.file d f = some content → post (some (.ok ())) t) :
    (machine D F P).Ends (within cuts) (Files.sys explain (.openFile d f)) post t := by
  refine Ends.sys (fun _ => rfl) hBreak ?_
  cases h : t.file d f with
  | none => simpa [Tree.perform, Except.mapError, h] using hBreak.2 _
  | some content => simpa [Tree.perform, Except.mapError, h] using hDone content h

theorem Ends.read {post : Outcome ε Content → Tree D F → Prop} (hBreak : Machine.MayBreak post t)
    (hDone : ∀ content, t.file d f = some content → post (some (.ok content)) t) :
    (machine D F P).Ends (within cuts) (Files.sys explain (.read d f)) post t := by
  refine Ends.sys (fun _ => rfl) hBreak ?_
  cases h : t.file d f with
  | none => simpa [Tree.perform, Except.mapError, h] using hBreak.2 _
  | some content => simpa [Tree.perform, Except.mapError, h] using hDone content h

theorem Ends.size {post : Outcome ε Nat → Tree D F → Prop} (hBreak : Machine.MayBreak post t)
    (hDone : ∀ content, t.file d f = some content → post (some (.ok content.length)) t) :
    (machine D F P).Ends (within cuts) (Files.sys explain (.size d f)) post t := by
  refine Ends.sys (fun _ => rfl) hBreak ?_
  cases h : t.file d f with
  | none => simpa [Tree.perform, Except.mapError, h] using hBreak.2 _
  | some content => simpa [Tree.perform, Except.mapError, h] using hDone content h

theorem Ends.create (hBreak : Machine.MayBreak post t)
    (hDone : ∀ folder, t.folder d = some folder → folder f = none → post (some (.ok ())) (t.setFile d f (some []))) :
    (machine D F P).Ends (within cuts) (Files.sys explain (.create d f)) post t := by
  refine Ends.sys (fun _ => rfl) hBreak ?_
  cases h : t.folder d with
  | none => simpa [Tree.perform, Except.mapError, h] using hBreak.2 _
  | some folder =>
    cases hf : folder f with
    | none => simpa [Tree.perform, Except.mapError, h, hf] using hDone folder h hf
    | some content => simpa [Tree.perform, Except.mapError, h, hf] using hBreak.2 _

theorem Ends.write {bytes : Content} (hBreak : Machine.MayBreak post t)
    (hTorn : ∀ content kept, t.file d f = some content → cuts (.write d f bytes) kept →
      Machine.MayBreak post (t.setFile d f (some (content ++ bytes.take kept))))
    (hDone : ∀ content, t.file d f = some content → post (some (.ok ())) (t.setFile d f (some (content ++ bytes)))) :
    (machine D F P).Ends (within cuts) (Files.sys explain (.write d f bytes)) post t := by
  rw [ends_sys]
  cases h : t.file d f with
  | none =>
    simp only [Tree.perform, Tree.torn, h]
    exact ⟨hBreak.2 _, fun _ _ => hBreak.2 _, fun _ _ => hBreak.1⟩
  | some content =>
    simp only [Tree.perform, Tree.torn, h]
    exact ⟨hDone content h, fun kept hCut => (hTorn content kept h hCut).2 _,
      fun kept hCut => (hTorn content kept h hCut).1⟩

theorem Ends.rename (hBreak : Machine.MayBreak post t)
    (hDone : ∀ content, t.file d f = some content →
      post (some (.ok ())) ((t.setFile d g (some content)).setFile d f none)) :
    (machine D F P).Ends (within cuts) (Files.sys explain (.rename d f g)) post t := by
  refine Ends.sys (fun _ => rfl) hBreak ?_
  cases h : t.file d f with
  | none => simpa [Tree.perform, Except.mapError, h] using hBreak.2 _
  | some content => simpa [Tree.perform, Except.mapError, h] using hDone content h

theorem Ends.makeTemp {post : Outcome ε (Place D) → Tree D F → Prop} (hBreak : Machine.MayBreak post t)
    (hDone : post (some (.ok (.temp t.temps)))
      { t.set (.temp t.temps) (some fun _ => none) with temps := t.temps + 1 }) :
    (machine D F P).Ends (within cuts) (Files.sys explain .makeTemp) post t :=
  Ends.sys (fun _ => rfl) hBreak hDone

theorem Ends.removeAll (hBreak : Machine.MayBreak post t) (hDone : post (some (.ok ())) (t.set d none)) :
    (machine D F P).Ends (within cuts) (Files.sys explain (.removeAll d)) post t :=
  Ends.sys (fun _ => rfl) hBreak hDone

theorem Ends.renameAll (hBreak : Machine.MayBreak post t)
    (hDone : ∀ folder, t.folder d = some folder → t.folder e = none →
      post (some (.ok ())) ((t.set e (some folder)).set d none)) :
    (machine D F P).Ends (within cuts) (Files.sys explain (.renameAll d e)) post t := by
  refine Ends.sys (fun _ => rfl) hBreak ?_
  cases h : t.folder d with
  | none => simpa [Tree.perform, Except.mapError, h] using hBreak.2 _
  | some folder =>
    cases he : t.folder e with
    | none => simpa [Tree.perform, Except.mapError, h, he] using hDone folder h he
    | some other => simpa [Tree.perform, Except.mapError, h, he] using hBreak.2 _

theorem calmly_sys (op : Op D F P) :
    (machine D F P).calmly (sys explain op) t =
      (some ((t.perform op).1.mapError explain), (t.perform op).2) := by
  show (machine D F P).run (Prog.call op _) [] t = _
  rw [Machine.run_call_calm]
  show Machine.run _ (match (t.perform op).1 with | .ok v => _ | .error e => _) [] (t.perform op).2 = _
  rcases (t.perform op).1 with err | value <;> rfl

section Calm

variable {folder : Folder F} {content bytes : Content}

theorem calmly_attempt (what : P) :
    (machine D F P).calmly (sys explain (.attempt what)) t = (some (.ok ()), t) := calmly_sys _

theorem calmly_exists :
    (machine D F P).calmly (sys explain (.exists d)) t = (some (.ok (t.folder d).isSome), t) :=
  calmly_sys _

theorem calmly_makeTemp :
    (machine D F P).calmly (sys explain .makeTemp) t = (some (.ok (.temp t.temps)),
      { t.set (.temp t.temps) (some fun _ => none) with temps := t.temps + 1 }) := calmly_sys _

theorem calmly_openFile (h : t.file d f = some content) :
    (machine D F P).calmly (sys explain (.openFile d f)) t = (some (.ok ()), t) := by
  rw [calmly_sys]
  simp [Tree.perform, Except.mapError, h]

theorem calmly_size (h : t.file d f = some content) :
    (machine D F P).calmly (sys explain (.size d f)) t = (some (.ok content.length), t) := by
  rw [calmly_sys]
  simp [Tree.perform, Except.mapError, h]

theorem calmly_size_absent (h : t.file d f = none) :
    (machine D F P).calmly (sys explain (.size d f)) t = (some (.error (explain .notExist)), t) := by
  rw [calmly_sys]
  simp [Tree.perform, Except.mapError, h]

theorem calmly_create (hFolder : t.folder d = some folder) (h : folder f = none) :
    (machine D F P).calmly (sys explain (.create d f)) t =
      (some (.ok ()), t.set d (some (update folder f (some [])))) := by
  rw [calmly_sys, ← Tree.setFile_set_self, ← hFolder, Tree.set_folder]
  simp [Tree.perform, Except.mapError, hFolder, h]

theorem calmly_create_exists (hFolder : t.folder d = some folder) (h : folder f = some content) :
    (machine D F P).calmly (sys explain (.create d f)) t = (some (.error (explain .exist)), t) := by
  rw [calmly_sys]
  simp [Tree.perform, Except.mapError, hFolder, h]

theorem calmly_write (hFolder : t.folder d = some folder) (h : folder f = some content) :
    (machine D F P).calmly (sys explain (.write d f bytes)) t =
      (some (.ok ()), t.set d (some (update folder f (some (content ++ bytes))))) := by
  have hFile : t.file d f = some content := by rw [Tree.file, hFolder]; exact h
  rw [calmly_sys, ← Tree.setFile_set_self, ← hFolder, Tree.set_folder]
  simp [Tree.perform, Except.mapError, hFile]

theorem calmly_rename (hFolder : t.folder d = some folder) (h : folder f = some content) :
    (machine D F P).calmly (sys explain (.rename d f g)) t =
      (some (.ok ()), t.set d (some
        (update (update folder g (some content)) f none))) := by
  have hFile : t.file d f = some content := by rw [Tree.file, hFolder]; exact h
  rw [calmly_sys, ← Tree.setFile_set_self, ← Tree.setFile_set_self, ← hFolder, Tree.set_folder]
  simp [Tree.perform, Except.mapError, hFile]

theorem calmly_renameAll (h : t.folder d = some folder) (hAbsent : t.folder e = none) :
    (machine D F P).calmly (sys explain (.renameAll d e)) t =
      (some (.ok ()), (t.set e (some folder)).set d none) := by
  rw [calmly_sys]
  simp [Tree.perform, Except.mapError, h, hAbsent]

end Calm

end Rules

section Agreement

variable {ε : Type}

theorem agrees_sys {explain : IoError → ε} {R : Tree D F → Tree D F → Prop} {op : Op D F P}
    (h : ∀ t t', R t t' → (t.perform op).1 = (t'.perform op).1 ∧ R (t.perform op).2 (t'.perform op).2) :
    (machine D F P).Agrees R (sys explain op) := by
  intro t t' hR
  obtain ⟨hAnswer, hTree⟩ := h t t' hR
  rw [calmly_sys, calmly_sys, hAnswer]
  exact ⟨rfl, hTree⟩

end Agreement


end Program.Files
