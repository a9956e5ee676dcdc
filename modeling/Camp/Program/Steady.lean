import Camp.Program.Prog

/-!
# Programs that succeed only undisturbed

A program is steady if every execution that returns a value is, in value and world, the
one in which nothing goes wrong. Then what holds of that one execution holds of every
success.
-/

namespace Program

namespace Machine

variable {S : Signature} {W α β ε : Type} {M : Machine S W} {w w' : W}
variable {choices : List M.Choice} {p : ExceptT ε (Prog S) α} {f : α → ExceptT ε (Prog S) β}
variable {b : β}

theorem run_call_inv {op : S.Op} {next : S.Answer op → Prog S α} {a : α}
    (h : M.run (.call op next) choices w = (some a, w')) :
    ∃ answer w₁, M.step op (choices.headD M.calm) w = (some answer, w₁) ∧
      M.run (next answer) choices.tail w₁ = (some a, w') := by
  rw [run] at h
  rcases hStep : M.step op (choices.headD M.calm) w with ⟨_ | answer, w₁⟩
  · rw [hStep] at h
    cases h
  · rw [hStep] at h
    exact ⟨answer, w₁, rfl, h⟩

theorem run_bind_inv {p : Prog S α} {f : α → Prog S β} (h : M.run (p >>= f) choices w = (some b, w')) :
    ∃ a w₁ rest, rest <:+ choices ∧ M.run p choices w = (some a, w₁) ∧
      M.run (f a) rest w₁ = (some b, w') := by
  induction p generalizing w choices with
  | done a => exact ⟨a, w, choices, List.suffix_rfl, rfl, h⟩
  | call op next ih =>
    obtain ⟨answer, w₁, hStep, hNext⟩ := run_call_inv h
    obtain ⟨a, w₂, rest, hRest, hp, hf⟩ := ih answer hNext
    refine ⟨a, w₂, rest, hRest.trans (List.tail_suffix choices), ?_, hf⟩
    rw [run, hStep]
    exact hp

theorem run_catching_inv {r : Except ε (Except ε α)} (h : M.run (catching p).run choices w = (some r, w')) :
    ∃ r', r = .ok r' ∧ M.run p.run choices w = (some r', w') := by
  unfold Program.catching at h
  rw [ExceptT.run_mk] at h
  obtain ⟨r', w₁, rest, -, hp, hDone⟩ := run_bind_inv h
  cases hDone
  exact ⟨r', rfl, hp⟩

def Fails (M : Machine S W) (p : ExceptT ε (Prog S) α) : Prop :=
  ∀ choices w a w', M.run p.run choices w ≠ (some (.ok a), w')

/-- An execution that returns a value does as the undisturbed one. -/
def Steady (M : Machine S W) (p : ExceptT ε (Prog S) α) : Prop :=
  ∀ choices w a w', M.run p.run choices w = (some (.ok a), w') → M.calmly p w = (some (.ok a), w')

theorem Fails.steady (h : M.Fails p) : M.Steady p := by
  intro choices w a w' hRun
  exact absurd hRun (h choices w a w')

theorem fails_throw (e : ε) : M.Fails (throw e : ExceptT ε (Prog S) α) := by
  intro choices w a w' hRun
  cases hRun

theorem steady_pure (a : α) : M.Steady (pure a : ExceptT ε (Prog S) α) := fun _ _ _ _ hRun => hRun

theorem steady_lift (r : Except ε α) : M.Steady (liftM r : ExceptT ε (Prog S) α) := by
  intro choices w a w' hRun
  cases r <;> exact hRun

theorem run_bind_ok (h : M.run (p >>= f).run choices w = (some (.ok b), w')) :
    ∃ a w₁ rest, rest <:+ choices ∧ M.run p.run choices w = (some (.ok a), w₁) ∧
      M.run (f a).run rest w₁ = (some (.ok b), w') := by
  rw [ExceptT.run_bind] at h
  obtain ⟨r, w₁, rest, hRest, hp, hf⟩ := run_bind_inv h
  cases r with
  | error e => cases hf
  | ok a => exact ⟨a, w₁, rest, hRest, hp, hf⟩

theorem Fails.bind (h : ∀ a, M.Fails (f a)) : M.Fails (p >>= f) := by
  intro choices w b w' hRun
  obtain ⟨a, w₁, rest, -, -, hf⟩ := run_bind_ok hRun
  exact h a rest w₁ b w' hf

theorem Steady.bind (hp : M.Steady p) (hf : ∀ a, M.Steady (f a)) : M.Steady (p >>= f) := by
  intro choices w b w' hRun
  obtain ⟨a, w₁, rest, -, hRunP, hRunF⟩ := run_bind_ok hRun
  rw [calmly_bind_ok (hp choices w a w₁ hRunP)]
  exact hf a rest w₁ b w' hRunF

end Machine

end Program
