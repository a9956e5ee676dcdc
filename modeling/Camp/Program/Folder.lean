import Camp.Program.Files

/-!
# Programs that work in one directory

What such a program does is told by the files of its directory. Its operations may be
disturbed by certain faults.
-/

namespace Program.Files

open Machine Function Files.Tree

variable {D F P ε α β : Type} [DecidableEq D] [DecidableEq F] {t : Tree D F} {d : Place D}

/-- Of the directory this is known, and the rest is as it was. -/
def inFolder (t : Tree D F) (d : Place D) (post : Outcome ε α → Folder F → Prop) :
    Outcome ε α → Tree D F → Prop :=
  fun r t' => ∃ g, t' = t.set d (some g) ∧ post r g

def allowing (A : Op D F P → Fault → Prop) (op : (signature D F P).Op) (fault : (machine D F P).Choice)
    (_ : Tree D F) : Prop := A op fault

/-- However the program is disturbed by these faults, it ends like this. -/
def Works (A : Op D F P → Fault → Prop) (t : Tree D F) (d : Place D)
    (p : ExceptT ε (Prog (signature D F P)) α) (post : Outcome ε α → Folder F → Prop) (g : Folder F) : Prop :=
  (machine D F P).Ends (allowing A) p (inFolder t d post) (t.set d (some g))

def Breaks (post : Outcome ε α → Folder F → Prop) (g : Folder F) : Prop :=
  post none g ∧ ∀ e, post (some (.error e)) g

/-- One thing holds when the program succeeds, the other when it breaks off. -/
def succeeding (Q : α → Folder F → Prop) (M : Folder F → Prop) : Outcome ε α → Folder F → Prop
  | some (.ok a), g => Q a g
  | _, g => M g

section Rules

variable {A : Op D F P → Fault → Prop} {p : ExceptT ε (Prog (signature D F P)) α}
    {post : Outcome ε α → Folder F → Prop} {g : Folder F}
variable {f : α → ExceptT ε (Prog (signature D F P)) β}

theorem Works.run (h : Works A t d p post g) {faults : List (machine D F P).Choice}
    (hFaults : (machine D F P).Respects (allowing A) p.run faults (t.set d (some g))) :
    ∃ g', ((machine D F P).run p.run faults (t.set d (some g))).2 = t.set d (some g') ∧
      post ((machine D F P).run p.run faults (t.set d (some g))).1 g' := Ends.run h hFaults

theorem Works.mono {post' : Outcome ε α → Folder F → Prop} (h : Works A t d p post g)
    (hPost : ∀ r g, post r g → post' r g) : Works A t d p post' g := by
  refine Ends.mono h ?_
  rintro r _ ⟨g', rfl, hr⟩
  exact ⟨g', rfl, hPost r g' hr⟩

theorem Works.bind {f : α → ExceptT ε (Prog (signature D F P)) β} {post : Outcome ε β → Folder F → Prop}
    (h : Works A t d p (fun r g =>
      match r with
      | none => post none g
      | some (.error e) => post (some (.error e)) g
      | some (.ok a) => Works A t d (f a) post g) g) : Works A t d (p >>= f) post g := by
  refine Ends.bind (Ends.mono h ?_)
  rintro (_ | e | a) _ ⟨g', rfl, hr⟩
  · exact ⟨g', rfl, hr⟩
  · exact ⟨g', rfl, hr⟩
  · exact hr

theorem Works.andThen {post : Outcome ε β → Folder F → Prop} {M : Folder F → Prop} {Q : α → Folder F → Prop}
    (h : Works A t d p (succeeding Q M) g) (hBreak : ∀ g, M g → Breaks post g)
    (hDone : ∀ a g, Q a g → Works A t d (f a) post g) : Works A t d (p >>= f) post g := by
  refine Works.bind (h.mono ?_)
  rintro (_ | e | a) g' hr
  · exact (hBreak g' hr).1
  · exact (hBreak g' hr).2 e
  · exact hDone a g' hr

theorem works_pure {a : α} (h : post (some (.ok a)) g) :
    Works A t d (pure a : ExceptT ε (Prog (signature D F P)) α) post g := ⟨g, rfl, h⟩

theorem works_throw {e : ε} (h : post (some (.error e)) g) :
    Works A t d (throw e : ExceptT ε (Prog (signature D F P)) α) post g := ⟨g, rfl, h⟩

theorem works_catching_bind {f : Except ε α → ExceptT ε (Prog (signature D F P)) β}
    {post : Outcome ε β → Folder F → Prop}
    (h : Works A t d p (fun r g =>
      match r with
      | none => post none g
      | some r => Works A t d (f r) post g) g) : Works A t d (catching p >>= f) post g := by
  refine Ends.bind (Ends.catching (Ends.mono h ?_))
  rintro (_ | r) _ ⟨g', rfl, hr⟩
  · exact ⟨g', rfl, hr⟩
  · exact hr

theorem works_guard {c : Prop} [Decidable c] {e : ε} {q : ExceptT ε (Prog (signature D F P)) β}
    {post : Outcome ε β → Folder F → Prop} (hThrow : c → post (some (.error e)) g) (hq : ¬ c → Works A t d q post g) :
    Works A t d (if c then throw e >>= f else q) post g := by
  split_ifs with hc
  · exact ⟨g, rfl, hThrow hc⟩
  · exact hq hc

end Rules

section Operations

variable {A : Op D F P → Fault → Prop} {explain : IoError → ε} {g : Folder F} {f f' : F}
variable {post : Outcome ε Unit → Folder F → Prop}

theorem works_sys {op : Op D F P} {post : Outcome ε op.Value → Folder F → Prop} (g' : Folder F)
    (hCalm : ((t.set d (some g)).perform op).2 = t.set d (some g'))
    (hDone : post (some (((t.set d (some g)).perform op).1.mapError explain)) g')
    (hTorn : ∀ kept, ∃ g₁, (t.set d (some g)).torn kept op = t.set d (some g₁) ∧
      (A op (.fail kept) → post (some (.error (explain .failed))) g₁) ∧ (A op (.crash kept) → post none g₁)) :
    Works A t d (sys explain op) post g := by
  intro fault hFault
  have hStep : match (machine D F P).step op fault (t.set d (some g)) with
      | (some answer, t') => inFolder t d post (some (answer.mapError explain)) t'
      | (none, t') => inFolder t d post none t' := by
    cases fault with
    | none => exact ⟨g', hCalm, hDone⟩
    | fail kept =>
      obtain ⟨g₁, hTree, hFail, -⟩ := hTorn kept
      exact ⟨g₁, hTree, hFail hFault⟩
    | crash kept =>
      obtain ⟨g₁, hTree, -, hCrash⟩ := hTorn kept
      exact ⟨g₁, hTree, hCrash hFault⟩
  revert hStep
  rcases (machine D F P).step op fault (t.set d (some g)) with ⟨_ | (err | value), t'⟩ <;> exact id

theorem works_whole {op : Op D F P} {post : Outcome ε op.Value → Folder F → Prop} (g' : Folder F)
    (hWhole : ∀ kept, (t.set d (some g)).torn kept op = t.set d (some g))
    (hStop : post none g) (hFails : post (some (.error (explain .failed))) g)
    (hCalm : ((t.set d (some g)).perform op).2 = t.set d (some g'))
    (hDone : post (some (((t.set d (some g)).perform op).1.mapError explain)) g') :
    Works A t d (sys explain op) post g :=
  works_sys g' hCalm hDone fun kept => ⟨g, hWhole kept, fun _ => hFails, fun _ => hStop⟩

theorem works_attempt {what : P} (hBreak : Breaks post g) (hDone : post (some (.ok ())) g) :
    Works A t d (sys explain (.attempt what)) post g :=
  works_whole g (fun _ => rfl) hBreak.1 (hBreak.2 _) rfl hDone

theorem works_create (hBreak : Breaks post g)
    (hDone : g f = none → post (some (.ok ())) (update g f (some []))) :
    Works A t d (sys explain (.create d f)) post g := by
  cases h : g f with
  | none =>
    refine works_whole (update g f (some [])) (fun _ => rfl) hBreak.1 (hBreak.2 _) ?_ ?_
    · simp [perform, h]
    · simpa [perform, Except.mapError, h] using hDone h
  | some content =>
    refine works_whole g (fun _ => rfl) hBreak.1 (hBreak.2 _) ?_ ?_
    · simp [perform, h]
    · simpa [perform, Except.mapError, h] using hBreak.2 _

theorem works_write {bytes : Content} (hAbsent : g f = none → Breaks post g)
    (hTorn : ∀ content kept, g f = some content →
      (A (.write d f bytes) (.fail kept) →
        ∀ e, post (some (.error e)) (update g f (some (content ++ bytes.take kept)))) ∧
      (A (.write d f bytes) (.crash kept) →
        post none (update g f (some (content ++ bytes.take kept)))))
    (hDone : ∀ content, g f = some content → post (some (.ok ())) (update g f (some (content ++ bytes)))) :
    Works A t d (sys explain (.write d f bytes)) post g := by
  cases h : g f with
  | none =>
    refine works_whole g (fun _ => ?_) (hAbsent h).1 ((hAbsent h).2 _) ?_ ?_
    · simp [torn, h]
    · simp [perform, h]
    · simpa [perform, Except.mapError, h] using (hAbsent h).2 _
  | some content =>
    refine works_sys (update g f (some (content ++ bytes))) ?_ ?_ fun kept => ?_
    · simp [perform, h]
    · simpa [perform, Except.mapError, h] using hDone content h
    · obtain ⟨hFail, hCrash⟩ := hTorn content kept h
      exact ⟨_, by simp [torn, h], fun hA => hFail hA _, hCrash⟩

theorem works_remove (hBreak : Breaks post g) (hDone : post (some (.ok ())) (update g f none)) :
    Works A t d (sys explain (.remove d f)) post g := by
  cases h : g f with
  | none =>
    refine works_whole g (fun _ => rfl) hBreak.1 (hBreak.2 _) ?_ ?_
    · simp [perform, h]
    · simpa [perform, Except.mapError, h] using hBreak.2 _
  | some content =>
    refine works_whole (update g f none) (fun _ => rfl) hBreak.1 (hBreak.2 _) ?_ ?_
    · simp [perform, h]
    · simpa [perform, Except.mapError, h] using hDone

theorem works_rename (hBreak : Breaks post g)
    (hDone : ∀ content, g f = some content →
      post (some (.ok ())) (update (update g f' (some content)) f none)) :
    Works A t d (sys explain (.rename d f f')) post g := by
  cases h : g f with
  | none =>
    refine works_whole g (fun _ => rfl) hBreak.1 (hBreak.2 _) ?_ ?_
    · simp [perform, h]
    · simpa [perform, Except.mapError, h] using hBreak.2 _
  | some content =>
    refine works_whole (update (update g f' (some content)) f none) (fun _ => rfl)
      hBreak.1 (hBreak.2 _) ?_ ?_
    · simp [perform, h]
    · simpa [perform, Except.mapError, h] using hDone content h

theorem works_read {post : Outcome ε Content → Folder F → Prop} (hStop : post none g)
    (hFails : post (some (.error (explain .failed))) g)
    (hAbsent : g f = none → post (some (.error (explain .notExist))) g)
    (hDone : ∀ content, g f = some content → post (some (.ok content)) g) :
    Works A t d (sys explain (.read d f)) post g := by
  cases h : g f with
  | none =>
    refine works_whole g (fun _ => rfl) hStop hFails ?_ ?_
    · simp [perform, h]
    · simpa [perform, Except.mapError, h] using hAbsent h
  | some content =>
    refine works_whole g (fun _ => rfl) hStop hFails ?_ ?_
    · simp [perform, h]
    · simpa [perform, Except.mapError, h] using hDone content h

end Operations

section Calm

variable {explain : IoError → ε} {g : Folder F} {f f' : F}
variable {p : ExceptT ε (Prog (signature D F P)) α} {g' : Folder F} {content : Content}

/-- In the undisturbed execution the program has this outcome and leaves these files. -/
def Calmly (t : Tree D F) (d : Place D) (p : ExceptT ε (Prog (signature D F P)) α) (g : Folder F)
    (r : Except ε α) (g' : Folder F) : Prop :=
  (machine D F P).calmly p (t.set d (some g)) = (some r, t.set d (some g'))

theorem Calmly.bind {f : α → ExceptT ε (Prog (signature D F P)) β} {a : α} {r : Except ε β} {g'' : Folder F}
    (h : Calmly t d p g (.ok a) g') (hf : Calmly t d (f a) g' r g'') : Calmly t d (p >>= f) g r g'' :=
  (calmly_bind_ok h f).trans hf

theorem Calmly.bind_error {f : α → ExceptT ε (Prog (signature D F P)) β} {e : ε} (h : Calmly t d p g (.error e) g') :
    Calmly t d (p >>= f) g (.error e) g' := calmly_bind_error h f

theorem Calmly.catching {r : Except ε α} (h : Calmly t d p g r g') : Calmly t d (catching p) g (.ok r) g' := by
  unfold Calmly at h ⊢
  rw [calmly_catching, h]
  rfl

theorem calmly_return {r : Except ε α} (hp : p = liftM r) : Calmly t d p g r g := by
  subst hp
  exact calmly_lift r

theorem calm_attempt {what : P} : Calmly t d (sys explain (.attempt what)) g (.ok ()) g :=
  calmly_attempt what

theorem calm_create (h : g f = none) :
    Calmly (P := P) t d (sys explain (.create d f)) g (.ok ()) (update g f (some [])) := by
  unfold Calmly
  rw [calmly_create (folder_set_self ..) h, set_set]

theorem calm_create_exists (h : g f = some content) :
    Calmly (P := P) t d (sys explain (.create d f)) g (.error (explain .exist)) g :=
  calmly_create_exists (folder_set_self ..) h

theorem calm_write {bytes : Content} (h : g f = some content) :
    Calmly (P := P) t d (sys explain (.write d f bytes)) g (.ok ())
      (update g f (some (content ++ bytes))) := by
  unfold Calmly
  rw [calmly_write (folder_set_self ..) h, set_set]

theorem calm_rename (h : g f = some content) :
    Calmly (P := P) t d (sys explain (.rename d f f')) g (.ok ())
      (update (update g f' (some content)) f none) := by
  unfold Calmly
  rw [calmly_rename (folder_set_self ..) h, set_set]

theorem calm_read (h : g f = some content) : Calmly (P := P) t d (sys explain (.read d f)) g (.ok content) g := by
  unfold Calmly
  rw [calmly_sys]
  simp [perform, Except.mapError, h]

theorem calm_read_absent (h : g f = none) :
    Calmly (P := P) t d (sys explain (.read d f)) g (.error (explain .notExist)) g := by
  unfold Calmly
  rw [calmly_sys]
  simp [perform, Except.mapError, h]

end Calm

end Program.Files
