import Camp.Capsule.Publication

/-!
# What a publication leaves under the parent

The names of the program's own directories are followed through every call, whatever the others
rename meanwhile. What the calls find at the target decides: a directory of another process is
moved away for good if the rename back finds it there, or an exchange that is not made again, and
removed if it is empty and comes between the comparison of the placeholder and its removal.
-/

namespace Camp.Capsule.Publication

open Wire Wire.Utf8 Program Program.Neighbours List Function World

section Found

/-- The target, and what was under the parent before the call. -/
structure Site where
  target : Name
  home : Name → Option Dir

def Silent (target : Name) : Call → Prop
  | .rename source _ => source = target
  | .unlink _ | .removeAll _ => True
  | _ => False

/-- A step of the rollback or of the cleanup failed. -/
def Slip (target : Name) (w : World) : Prop := ∃ c ∈ w.failed, Silent target c

/-- The calls by which the program moves or removes what is at the target, or ends with it. -/
def telling (target : Name) : Call → Bool
  | .rename source _ => source = target
  | .unlink name => name = target
  | .exchange _ _ | .syncParent => true
  | _ => false

def World.told (target : Name) (w : World) : List (Call × Option Dir) := w.found.filter fun e => telling target e.1

/-- The rename back does not find a directory of another process at the target. An exchange that
does is made again, with a directory of the program at the target, and the removal of the
placeholder does not find an empty one. -/
structure Unreplaced (target : Name) (found : List (Call × Option Dir)) : Prop where
  renamed : ∀ n d, (Call.rename target n, some (Dir.foreign d)) ∉ found
  exchanged : ∀ n d, (Call.exchange target n, some (Dir.foreign d)) ∈ found →
    ∃ m k, (Call.exchange target m, some (Dir.own k)) ∈ found
  unlinked : ∀ d, d.empty = true → (Call.unlink target, some (Dir.foreign d)) ∉ found

variable {S : Site} {target : Name} {w w' : World} {found : List (Call × Option Dir)} {c : Call} {d : Option Dir}
  {n : Name}

theorem mem_told : (c, d) ∈ w.told target ↔ (c, d) ∈ w.found ∧ telling target c = true := mem_filter

theorem unreplaced_told : Unreplaced target (w.told target) ↔ Unreplaced target w.found := by
  constructor
  · rintro ⟨hRenamed, hExchanged, hUnlinked⟩
    simp only [mem_told, telling, decide_true, and_true] at hRenamed hExchanged hUnlinked
    exact ⟨hRenamed, hExchanged, hUnlinked⟩
  · rintro ⟨hRenamed, hExchanged, hUnlinked⟩
    constructor
    · simpa only [mem_told, telling, decide_true, and_true] using hRenamed
    · simpa only [mem_told, telling, decide_true, and_true] using hExchanged
    · simpa only [mem_told, telling, decide_true, and_true] using hUnlinked

theorem unreplaced_nil : Unreplaced target [] := ⟨by simp, by simp, by simp⟩

theorem Unreplaced.cons (h : Unreplaced target found) (hRename : ∀ n, c ≠ .rename target n)
    (hExchange : ∀ n, c ≠ .exchange target n) (hUnlink : ∀ d', d'.empty = true →
    c = .unlink target → d ≠ some (.foreign d')) :
    Unreplaced target ((c, d) :: found) := by
  refine ⟨fun n d' hd => ?_, fun n d' hd => ?_, fun d' hEmpty hd => ?_⟩
  · rcases mem_cons.mp hd with hEq | hd
    · exact hRename n (congrArg Prod.fst hEq).symm
    · exact h.renamed n d' hd
  · rcases mem_cons.mp hd with hEq | hd
    · exact absurd (congrArg Prod.fst hEq).symm (hExchange n)
    · obtain ⟨m, k, hk⟩ := h.exchanged n d' hd
      exact ⟨m, k, mem_cons_of_mem _ hk⟩
  · rcases mem_cons.mp hd with hEq | hd
    · exact hUnlink d' hEmpty (congrArg Prod.fst hEq).symm (congrArg Prod.snd hEq).symm
    · exact h.unlinked d' hEmpty hd

theorem Unreplaced.of_cons (h : Unreplaced target ((c, d) :: found)) (hExchange : ∀ n, c ≠ .exchange target n) :
    Unreplaced target found := by
  refine ⟨fun n d hd => h.renamed n d (mem_cons_of_mem _ hd), fun n d hd => ?_,
    fun d hEmpty hd => h.unlinked d hEmpty (mem_cons_of_mem _ hd)⟩
  obtain ⟨m, k, hk⟩ := h.exchanged n d (mem_cons_of_mem _ hd)
  rcases mem_cons.mp hk with hEq | hk
  · exact absurd (congrArg Prod.fst hEq).symm (hExchange m)
  · exact ⟨m, k, hk⟩

/-- What the others can do to the directory: only the target changes, and not to a directory of
the program. -/
structure Moved (target : Name) (w w' : World) : Prop where
  names : ∀ n, n ≠ target → w'.names n = w.names n
  target : ∀ k, w'.names target = some (.own k) → w.names target = some (.own k)
  rest : w'.content = w.content ∧ w'.gone = w.gone ∧ w'.failed = w.failed ∧ w'.found = w.found

theorem moved_move (target : Name) (w : World) (m : Move) : Moved target w (w.move target m) := by
  have hSame (here : Bool) : Moved target w { w with here := here } := ⟨fun _ _ => rfl, fun _ => id, rfl, rfl, rfl, rfl⟩
  have hPut (d : Option Other) : Moved target w (w.placeAt target (d.map .foreign)) :=
    ⟨fun n hn => update_of_ne hn .., fun k hk => by simp [placeAt] at hk, rfl, rfl, rfl, rfl⟩
  cases m with
  | parent here => exact hSame here
  | take => exact hPut none
  | bring d =>
    unfold move bring
    dsimp only
    split_ifs
    · exact hPut (some d)
    · exact hSame w.here

theorem ghosts_perform (c : Call) (w : World) :
    (w.perform c).2.failed = w.failed ∧ (w.perform c).2.found = w.found := by
  have hDiscard (n : Name) (d : Option Dir) : (w.discard n d).failed = w.failed ∧ (w.discard n d).found = w.found := by
    rcases d with _ | k | d <;> exact ⟨rfl, rfl⟩
  cases c with
  | attempt | openDirectory | checkParent | syncParent => exact ⟨rfl, rfl⟩
  | put d part => cases d <;> exact ⟨rfl, rfl⟩
  | removeAll n => exact hDiscard _ _
  | mkdir n | rename a b | exchange a b =>
    simp only [perform, mkdir, rename, exchange]
    split <;> exact ⟨rfl, rfl⟩
  | unlink n =>
    simp only [perform, unlink]
    split
    · exact ⟨rfl, rfl⟩
    · split_ifs
      · exact hDiscard _ _
      · exact ⟨rfl, rfl⟩

variable (target w) in
theorem told_record (c : Call) (d : Option Dir) :
    ((w.perform c).2.record c d).told target = if telling target c then (c, d) :: w.told target else w.told target := by
  rw [told, record, (ghosts_perform c w).2, filter_cons]
  rfl

/-- A directory of another process was removed, or is where it was not before. -/
def Lost (S : Site) (w : World) : Prop :=
  w.gone ≠ [] ∨ ∃ n d, n ≠ S.target ∧ w.names n = some (.foreign d) ∧ S.home n ≠ some (.foreign d)

structure Spoilt (S : Site) (w : World) : Prop where
  lost : Lost S w
  replaced : ¬ Unreplaced S.target w.found

theorem Spoilt.moved (h : Spoilt S w) (hMoved : Moved S.target w w') : Spoilt S w' := by
  refine ⟨?_, hMoved.rest.2.2.2 ▸ h.replaced⟩
  rcases h.lost with hGone | ⟨n, d, hn, hNames, hHome⟩
  · exact .inl (hMoved.rest.2.1 ▸ hGone)
  · exact .inr ⟨n, d, hn, (hMoved.names n hn).trans hNames, hHome⟩

theorem Lost.discard (h : Lost S w) (n : Name) : Lost S (w.discard n (w.names n)) := by
  rcases h with hGone | ⟨m, d, hm, hNames, hHome⟩
  · left
    rcases w.names n with _ | k | d
    · exact hGone
    · exact hGone
    · exact cons_ne_nil _ _
  · by_cases hmn : m = n
    · subst hmn
      rw [hNames]
      exact .inl (cons_ne_nil _ _)
    · refine .inr ⟨m, d, hm, ?_, hHome⟩
      rcases w.names n with _ | k | d' <;> simp [World.discard, World.placeAt, hmn, hNames]

/-- The calls that put nothing back. -/
def Call.ending : Call → Bool
  | .attempt _ | .openDirectory _ | .unlink _ | .removeAll _ | .syncParent => true
  | _ => false

theorem Lost.perform (h : Lost S w) (hCall : c.ending = true) : Lost S (w.perform c).2 := by
  cases c with
  | attempt | openDirectory | syncParent => exact h
  | removeAll n => exact h.discard n
  | unlink n =>
    simp only [perform, unlink]
    rcases hNames : w.names n with _ | d
    · exact h
    · dsimp only
      split_ifs
      · exact hNames ▸ h.discard n
      · exact h
  | mkdir | put | checkParent | rename | exchange => cases hCall

end Found

section Calls

variable {S : Site} {own : Name → Option Nat} {contents : Nat → List Part} {s : Prop} {evs : List (Call × Option Dir)}
  {w w' : World} {n : Name} {k : Nat} {c : Call} {α : Type}
variable {target : Name}

abbrev Among (S : Site) (p : Step α) (post : Except Error α → World → Prop) (w : World) : Prop :=
  Neighbours.Among (directory S.target) p post w

/-- Where the program's own directories are, and what is in them; the one at the target may have
been taken. Besides them there is what was there before. -/
structure Own (S : Site) (own : Name → Option Nat) (contents : Nat → List Part) (w : World) : Prop where
  names : ∀ n, n ≠ S.target → w.names n = (S.home n).or ((own n).map .own)
  target : ∀ k, w.names S.target = some (.own k) → own S.target = some k
  content : w.content = contents
  gone : w.gone = []

/-- A name that the program can use. -/
structure Site.Free (S : Site) (n : Name) : Prop where
  ne : n ≠ S.target
  home : S.home n = none

theorem Own.names_free (h : Own S own contents w) (hn : S.Free n) : w.names n = (own n).map .own := by
  rw [h.names n hn.ne, hn.home, Option.none_or]

theorem Own.names_own (h : Own S own contents w) (hn : S.Free n) (hOwn : own n = some k) :
    w.names n = some (.own k) := by
  rw [h.names_free hn, hOwn]
  rfl

theorem Own.place (h : Own S own contents w) (hn : S.Free n) (d : Option Nat) :
    Own S (update own n d) contents (w.placeAt n (d.map .own)) where
  names m hm := by
    by_cases hmn : m = n
    · subst hmn
      simp [placeAt, hn.home]
    · simp [placeAt, hmn, h.names m hm]
  target k hk := by
    have hk' := h.target k (by simpa [placeAt, hn.ne.symm] using hk)
    rwa [update_of_ne hn.ne.symm]
  content := h.content
  gone := h.gone

theorem Own.placeTarget (h : Own S own contents w) (d : Option Dir) {k : Option Nat}
    (hd : ∀ j, d = some (.own j) → k = some j) :
    Own S (update own S.target k) contents (w.placeAt S.target d) where
  names m hm := by simp [placeAt, hm, h.names m hm]
  target j hj := by
    rw [update_self]
    exact hd j (by simpa [placeAt] using hj)
  content := h.content
  gone := h.gone

/-- The own directories are known, and what the telling calls found; `s` says that a step of the
cleanup has failed. -/
structure Kept (S : Site) (own : Name → Option Nat) (contents : Nat → List Part) (s : Prop)
    (evs : List (Call × Option Dir))
    (w : World) : Prop where
  own : Own S own contents w
  slip : s → Slip S.target w
  told : w.told S.target = evs

theorem Slip.note (h : Slip target w) : Slip target { w with failed := c :: w.failed } := by
  obtain ⟨c', hMem, hSilent⟩ := h
  exact ⟨c', mem_cons_of_mem _ hMem, hSilent⟩

theorem Slip.of_failed (hFailed : w'.failed = w.failed) (h : Slip target w) : Slip target w' := by
  unfold Slip at h ⊢
  rwa [hFailed]

theorem Kept.moved (h : Kept S own contents s evs w) (hMoved : Moved S.target w w') : Kept S own contents s evs w' where
  own :=
    { names := fun n hn => (hMoved.names n hn).trans (h.own.names n hn)
      target := fun k hk => h.own.target k (hMoved.target k hk)
      content := hMoved.rest.1.trans h.own.content
      gone := hMoved.rest.2.1.trans h.own.gone }
  slip hs := (h.slip hs).of_failed hMoved.rest.2.2.1
  told := by rw [World.told, hMoved.rest.2.2.2]; exact h.told

/-- What is known after a call that was carried out. -/
theorem Kept.record {own' : Name → Option Nat} {contents' : Nat → List Part} {r : Except Trouble (Answer c)}
    (h : Kept S own contents s evs w) (hPerform : w.perform c = (r, w')) (hOwn : Own S own' contents' w') :
    Kept S own' contents' s (if telling S.target c then (c, w.names S.target) :: evs else evs)
        (w'.record c (w.names S.target)) := by
  have hGhosts := ghosts_perform c w
  have hTold := told_record S.target w c (w.names S.target)
  rw [hPerform] at hGhosts hTold
  exact ⟨⟨hOwn.names, hOwn.target, hOwn.content, hOwn.gone⟩, fun hs =>
    (h.slip hs).of_failed hGhosts.1, by rw [hTold, h.told]⟩

/-- A call fails, or is carried out in a directory of which the same is known. -/
theorem Kept.call {post : Except Error (Answer c) → World → Prop} (h : Kept S own contents s evs w)
    (hFails : ∀ w', Kept S own contents s evs w' → (Silent S.target c → Slip S.target w') →
    post (.error (.trouble .failed)) w')
    (hActs : ∀ w', Kept S own contents s evs w' → ∀ r w₁, w'.perform c = (r, w₁) →
      post (r.mapError .trouble) (w₁.record c (w'.names S.target))) : Among S (Publication.call c) post w := by
  refine among_sys (I := Kept S own contents s evs) (fun m w' hKept => hKept.moved (moved_move S.target w' m)) h ?_ ?_
  · intro w' hKept
    refine hFails _ ⟨?_, fun hs => (hKept.slip hs).note, hKept.told⟩ fun hSilent => ⟨c, mem_cons_self, hSilent⟩
    exact ⟨hKept.own.names, hKept.own.target, hKept.own.content, hKept.own.gone⟩
  · intro w' hKept
    exact hActs w' hKept _ _ rfl

theorem among_quiet (hSame : ∀ w : World, (w.perform c).2 = w) (hTold : telling S.target c = false)
    (h : Kept S own contents s evs w) : Among S (call c) (fun _ w' => Kept S own contents s evs w') w := by
  refine h.call (fun w' hKept _ => hKept) fun w' hKept r w₁ hPerform => ?_
  obtain rfl : w' = w₁ := (hSame w').symm.trans (congrArg Prod.snd hPerform)
  have hNext := hKept.record hPerform hKept.own
  rwa [hTold] at hNext

theorem among_attempt (probe : Probe) (h : Kept S own contents s evs w) :
    Among S (call (.attempt probe)) (fun _ w' => Kept S own contents s evs w') w := among_quiet (fun _ => rfl) rfl h

theorem among_sync (h : Kept S own contents s evs w) :
    Among S (call .syncParent) (fun r w' =>
      match r with
      | .ok () => Kept S own contents s ((.syncParent, w'.names S.target) :: evs) w'
      | .error _ => Kept S own contents s evs w') w := by
  refine h.call (fun _ hKept _ => hKept) ?_
  rintro w' hKept _ _ ⟨⟩
  exact hKept.record (c := .syncParent) rfl hKept.own

theorem among_spoilt (hCall : c.ending = true) (h : Spoilt S w) : Among S (call c) (fun _ w' => Spoilt S w') w := by
  refine among_sys (I := Spoilt S) (fun m w' hSpoilt => hSpoilt.moved (moved_move S.target w' m)) h
    (fun w' h => ⟨h.lost, h.replaced⟩) fun w' h => ⟨h.lost.perform hCall, fun hFound => h.replaced ?_⟩
  refine Unreplaced.of_cons (c := c) (d := w'.names S.target) ?_ ?_
  · rw [← (ghosts_perform c w').2]
    exact hFound
  · rintro m rfl
    cases hCall

theorem among_open (hn : S.Free n) (h : Kept S own contents s evs w) (hOwn : own n = some k) :
    Among S (call (.openDirectory n)) (fun r w' => Kept S own contents s evs w' ∧ ∀ d, r = .ok d → d = .own k) w := by
  refine h.call (fun w' hKept _ => ⟨hKept, by rintro d ⟨⟩⟩) fun w' hKept r w₁ hPerform => ?_
  rw [perform, hKept.own.names_own hn hOwn] at hPerform
  cases hPerform
  refine ⟨hKept.record (c := .openDirectory n) (by rw [perform]) hKept.own, ?_⟩
  rintro _ ⟨⟩
  rfl

theorem among_mkdir (hn : n ≠ S.target) (h : Kept S own contents s evs w) :
    Among S (call (.mkdir n)) (fun r w' =>
      match r with
      | .ok () => ∃ k, S.Free n ∧ own n = none ∧
          Kept S (update own n (some k)) (update contents k []) s evs w'
      | .error _ => Kept S own contents s evs w') w := by
  refine h.call (fun w' hKept _ => hKept) fun w' hKept r w₁ hPerform => ?_
  have hMkdir := hPerform
  simp only [perform, mkdir] at hMkdir
  split at hMkdir
  · cases hMkdir
    exact hKept.record hPerform hKept.own
  · rename_i hNames
    cases hMkdir
    obtain ⟨hHome, hOwn⟩ : S.home n = none ∧ own n = none := by
      rw [hKept.own.names n hn] at hNames
      simpa using hNames
    refine ⟨w'.next, ⟨hn, hHome⟩, hOwn, hKept.record hPerform ?_⟩
    have hPlaced := hKept.own.place ⟨hn, hHome⟩ (some w'.next)
    exact ⟨hPlaced.names, hPlaced.target, by rw [← hKept.own.content], hPlaced.gone⟩

theorem Own.discard (h : Own S own contents w) (hn : S.Free n) :
    Own S (update own n none) contents (w.discard n (w.names n)) := by
  have hNames := h.names_free hn
  rcases hOwn : own n with _ | k
  · rw [hNames, hOwn, update_eq_self_iff.mpr hOwn.symm]
    exact h
  · rw [hNames, hOwn]
    exact h.place hn none

theorem among_removeAll (hn : S.Free n) (h : Kept S own contents s evs w) :
    Among S (call (.removeAll n)) (fun r w' =>
      match r with
      | .ok () => Kept S (update own n none) contents s evs w'
      | .error _ => Kept S own contents True evs w') w := by
  refine h.call (fun w' hKept hSlip => ⟨hKept.own, fun _ => hSlip trivial, hKept.told⟩) ?_
  rintro w' hKept _ _ ⟨⟩
  exact hKept.record (c := .removeAll n) rfl (hKept.own.discard hn)

theorem among_unlink (hn : S.Free n) (h : Kept S own contents s evs w) (hOwn : own n = some k)
    (hEmpty : contents k = []) :
    Among S (call (.unlink n)) (fun r w' =>
      match r with
      | .ok () => Kept S (update own n none) contents s evs w'
      | .error _ => Kept S own contents True evs w') w := by
  refine h.call (fun w' hKept hSlip => ⟨hKept.own, fun _ => hSlip trivial, hKept.told⟩) fun w' hKept r w₁ hPerform => ?_
  have hUnlink : w'.perform (.unlink n) = (.ok (), w'.discard n (w'.names n)) := by
    simp [World.perform, World.unlink, hKept.own.names_own hn hOwn, World.isEmpty, hKept.own.content, hEmpty]
  cases hUnlink.symm.trans hPerform
  have hNext := hKept.record hUnlink (hKept.own.discard hn)
  rwa [telling, decide_eq_false hn.ne] at hNext

theorem among_put (h : Kept S own contents s evs w) (part : Part) :
    Among S (call (.put (.own k) part)) (fun r w' =>
      match r with
      | .ok () => Kept S own (update contents k (contents k ++ [part])) s evs w'
      | .error _ => Kept S own contents s evs w') w := by
  refine h.call (fun w' hKept _ => hKept) ?_
  rintro w' hKept _ _ ⟨⟩
  refine hKept.record (c := .put (.own k) part) rfl ⟨hKept.own.names, hKept.own.target, ?_, hKept.own.gone⟩
  rw [← hKept.own.content]
  rfl

theorem among_publish {stage : Name} (hStage : S.Free stage) (h : Kept S own contents s evs w)
    (hOwn : own stage = some k) :
    Among S (call (.rename stage S.target)) (fun r w' =>
      match r with
      | .ok () => Kept S (update (update own stage none) S.target (some k)) contents s evs w'
      | .error _ => Kept S own contents s evs w') w := by
  refine h.call (fun w' hKept _ => hKept) fun w' hKept r w₁ hPerform => ?_
  have hTold : telling S.target (.rename stage S.target) = false := decide_eq_false hStage.ne
  have hRename := hPerform
  simp only [perform, rename, hKept.own.names_own hStage hOwn] at hRename
  rcases hTarget : w'.names S.target with _ | d
  · rw [hTarget] at hRename
    cases hRename
    have hNext := hKept.record hPerform
        ((hKept.own.place hStage none).placeTarget (some (.own k)) fun j hj => by cases hj; rfl)
    rwa [hTold, hTarget] at hNext
  · rw [hTarget] at hRename
    cases hRename
    have hNext := hKept.record hPerform hKept.own
    rwa [hTold, hTarget] at hNext

end Calls

section Parts

variable {S : Site} {own : Name → Option Nat} {contents : Nat → List Part} {s : Prop} {evs : List (Call × Option Dir)}
  {w w' : World} {n stage placeholder : Name} {k k' : Nat}
variable {names : List Name}

/-- A new empty directory, or none, unless a step of the cleanup failed. -/
def Created (S : Site) (own : Name → Option Nat) (contents : Nat → List Part) (s : Prop)
    (evs : List (Call × Option Dir)) :
    Except Error (Name × Dir) → World → Prop
  | .ok (n, d), w => ∃ k, d = .own k ∧ S.Free n ∧
      Kept S (update own n (some k)) (update contents k []) s evs w
  | .error _, w => ∃ own' contents' s', Kept S own' contents' s' evs w ∧ (s' ∨ own' = own)

theorem among_createStage (h : Kept S own contents s evs w) (hNames : S.target ∉ names) :
    Among S (createBootstrapStage names) (Created S own contents s evs) w := by
  induction names generalizing w with
  | nil => exact among_throw ⟨own, contents, s, h, .inr rfl⟩
  | cons name names ih =>
    obtain ⟨hNe, hRest⟩ := ne_and_not_mem_of_not_mem_cons hNames
    refine (among_attempt _ h).bind (fun e w hr => ⟨own, contents, s, hr, .inr rfl⟩) ?_
    rintro ⟨⟩ w h
    refine (among_mkdir hNe.symm h).catching ?_
    rintro (e | ⟨⟩) w hr
    · by_cases hExist : e = .trouble .exist
      · simp only [hExist, if_true]
        exact ih hr hRest
      · simp only [hExist, if_false]
        exact among_throw ⟨own, contents, s, hr, .inr rfl⟩
    · obtain ⟨k, hFree, hOwn, hNew⟩ := hr
      have hName : update own name (some k) name = some k := update_self ..
      refine (among_open hFree hNew hName).catching ?_
      rintro (e | d) w ⟨hNew, hOpen⟩
      · -- the new directory is taken back
        refine (among_unlink hFree hNew hName (update_self ..)).catching ?_
        rintro (e' | ⟨⟩) w hr
        · exact among_throw ⟨_, _, True, hr, .inl trivial⟩
        · refine among_throw ⟨_, _, s, hr, .inr ?_⟩
          rw [update_idem, update_eq_self_iff, hOwn]
      · exact among_pure ⟨k, hOpen d rfl, hFree, hNew⟩

theorem among_fillStage (h : Kept S own contents s evs w) (steps : List StageStep) :
    Among S (fillStage (.own k) steps) (fun r w' =>
      match r with
      | .ok () => Kept S own (update contents k (contents k ++ putsOf steps)) s evs w'
      | .error _ => ∃ contents', Kept S own contents' s evs w') w := by
  induction steps generalizing w contents with
  | nil =>
    refine among_pure ?_
    have hSame : update contents k (contents k ++ putsOf []) = contents := by
      simp [putsOf]
    rw [hSame]
    exact h
  | cons step steps ih =>
    cases step with
    | put part =>
      refine (among_put h part).bind (fun e w hr => ⟨contents, hr⟩) ?_
      rintro ⟨⟩ w hr
      refine (ih hr).mono ?_
      rintro (e | ⟨⟩) w hr
      · exact hr
      · have hPuts : putsOf (.put part :: steps) = part :: putsOf steps := rfl
        rw [hPuts]
        simpa using hr
    | probe probe =>
      refine (among_attempt probe h).bind (fun e w hr => ⟨contents, hr⟩) ?_
      rintro ⟨⟩ w h
      exact ih h

def only (n : Name) (k : Nat) : Name → Option Nat := update (fun _ => none) n (some k)

theorem only_self (n : Name) (k : Nat) : only n k n = some k := update_self ..

theorem only_ne {m : Name} (hm : m ≠ n) : only n k m = none := update_of_ne hm ..

theorem only_none : update (only n k) n none = fun _ => none := by
  rw [only, update_idem, update_eq_self_iff]

theorem among_publishStage (hStage : S.Free stage) (h : Kept S (only stage k) contents s evs w)
    (hEmpty : contents k = [])
    (chunks : List Bytes) :
    Among S (publishStage chunks S.target stage (.own k)) (fun r w' =>
      match r with
      | .ok () => ∃ contents', contents' k = parts chunks ∧ Kept S (only S.target k) contents' s evs w'
      | .error _ => ∃ contents', Kept S (only stage k) contents' s evs w') w := by
  refine (among_fillStage h (stageSteps chunks)).bind (fun e w hr => hr) ?_
  rintro ⟨⟩ w hr
  refine (among_quiet (fun _ => rfl) rfl hr).bind (fun e w hr => ⟨_, hr⟩) ?_
  rintro ⟨⟩ w hr
  refine (among_publish hStage hr (only_self stage k)).mono ?_
  rintro (e | ⟨⟩) w hr
  · exact ⟨_, hr⟩
  · rw [only_none] at hr
    refine ⟨_, ?_, hr⟩
    rw [update_self, hEmpty]
    rfl

/-- Nothing of the others is lost and this is known of the own directories; or the calls found a
directory of another process at the target, and it is lost. -/
def Restored (S : Site) (P : Prop → (Name → Option Nat) → Prop) (w : World) : Prop :=
  Spoilt S w ∨ ∃ own contents s evs, Kept S own contents s evs w ∧ Unreplaced S.target evs ∧ P s own

variable {P Q : Prop → (Name → Option Nat) → Prop}

theorem Restored.mono (h : Restored S P w) (hPQ : ∀ s own, P s own → Q s own) : Restored S Q w := by
  rcases h with hSpoilt | ⟨own, contents, s, evs, hKept, hFound, hP⟩
  · exact .inl hSpoilt
  · exact .inr ⟨own, contents, s, evs, hKept, hFound, hPQ s own hP⟩

theorem Restored.sync (h : Restored S P w) : Among S (call .syncParent) (fun _ w' => Restored S P w') w := by
  rcases h with hSpoilt | ⟨own, contents, s, evs, hKept, hFound, hP⟩
  · exact (among_spoilt rfl hSpoilt).mono fun _ _ => .inl
  · refine (among_sync hKept).mono ?_
    rintro (e | ⟨⟩) w hr
    · exact .inr ⟨own, contents, s, _, hr, hFound, hP⟩
    · exact .inr ⟨own, contents, s, _, hr, hFound.cons (by simp) (by simp) (by simp), hP⟩

theorem Restored.removeAll (hn : S.Free n) (h : Restored S P w) (hTrue : ∀ own, Q True own)
    (hPQ : ∀ s own, P s own → Q s (update own n none)) :
    Among S (call (.removeAll n)) (fun _ w' => Restored S Q w') w := by
  rcases h with hSpoilt | ⟨own, contents, s, evs, hKept, hFound, hP⟩
  · exact (among_spoilt rfl hSpoilt).mono fun _ _ => .inl
  · refine (among_removeAll hn hKept).mono ?_
    rintro (e | ⟨⟩) w hr
    · exact .inr ⟨own, contents, True, evs, hr, hFound, hTrue own⟩
    · exact .inr ⟨_, contents, s, evs, hr, hFound, hPQ s own hP⟩

theorem Site.Free.lost {d : Other} (hn : S.Free n) (hNames : w.names n = some (.foreign d)) : Lost S w :=
  .inr ⟨n, d, hn.ne, hNames, by simp [hn.home]⟩

/-- Whatever is at the target is renamed back to the stage. -/
theorem among_renameBack (hStage : S.Free stage) (h : Kept S (only S.target k) contents s [] w) :
    Among S (call (.rename S.target stage))
      (fun _ w' => Restored S (fun s own => s ∨ ∀ m, m ≠ stage → own m = none) w') w := by
  refine h.call (fun w' hKept hSlip => ?_) fun w' hKept r w₁ hPerform => ?_
  · exact .inr ⟨_, _, True, [], ⟨hKept.own, fun _ => hSlip rfl, hKept.told⟩, unreplaced_nil, .inl trivial⟩
  have hFree : w'.names stage = none := by
    rw [hKept.own.names_free hStage, only_ne hStage.ne]
    rfl
  have hTold : telling S.target (.rename S.target stage) = true := decide_eq_true rfl
  have hRename := hPerform
  simp only [perform, rename, hFree] at hRename
  have hTaken := hKept.own.placeTarget none (k := none) (by simp)
  rw [only_none] at hTaken
  rcases hTarget : w'.names S.target with _ | j | d
  · -- it was taken
    rw [hTarget] at hRename
    cases hRename
    have hSame : w'.placeAt S.target none = w' := by
      rw [placeAt, ← hTarget, update_eq_self]
    rw [hSame] at hTaken
    have hNext := hKept.record hPerform hTaken
    rw [hTold, hTarget] at hNext
    exact .inr ⟨_, _, s, _, hNext, ⟨by simp, by simp, by simp⟩, .inr fun _ _ => rfl⟩
  · rw [hTarget] at hRename
    cases hRename
    have hNext := hKept.record hPerform (hTaken.place hStage (some j))
    rw [hTold, hTarget] at hNext
    exact .inr ⟨_, _, s, _, hNext, ⟨by simp, by simp, by simp⟩, .inr fun m hm => update_of_ne hm ..⟩
  · rw [hTarget] at hRename
    cases hRename
    exact .inl ⟨hStage.lost (update_self ..), fun hFound => hFound.renamed stage d mem_cons_self⟩

theorem among_removeOwned (hn : S.Free n) (h : Kept S own contents s evs w) (hOwn : own n = some k)
    (hEmpty : contents k = []) :
    Among S (removeOwnedEmptyDirectory n (.own k)) (fun _ w' => ∃ own' s', Kept S own' contents s' evs w') w := by
  refine (among_open hn h hOwn).bind (fun e w hr => ⟨_, _, hr.1⟩) ?_
  rintro d w ⟨h, hOpen⟩
  refine (among_attempt _ h).bind (fun e w hr => ⟨_, _, hr⟩) ?_
  rintro ⟨⟩ w h
  refine (among_attempt _ h).bind (fun e w hr => ⟨_, _, hr⟩) ?_
  rintro ⟨⟩ w h
  rw [if_pos (hOpen d rfl)]
  refine (among_unlink hn h hOwn hEmpty).mono ?_
  rintro (e | ⟨⟩) w hr
  · exact ⟨_, _, hr⟩
  · exact ⟨_, _, hr⟩

theorem among_removeOwned_spoilt (h : Spoilt S w) (d : Dir) :
    Among S (removeOwnedEmptyDirectory n d) (fun _ w' => Spoilt S w') w := by
  refine (among_spoilt rfl h).bind (fun e w hr => hr) ?_
  rintro d' w h
  refine (among_spoilt rfl h).bind (fun e w hr => hr) ?_
  rintro ⟨⟩ w h
  refine (among_spoilt rfl h).bind (fun e w hr => hr) ?_
  rintro ⟨⟩ w h
  show Among S (if d' = d then _ else _) _ w
  split_ifs
  · exact among_spoilt rfl h
  · exact among_throw h

/-- The placeholder is unlinked at the target if it is still there; something else may have come
since it was compared. -/
theorem among_unlinkTarget (h : Kept S own contents s evs w) (hFound : Unreplaced S.target evs) :
    Among S (call (.unlink S.target))
      (fun r w' => Restored S (fun _ own' => r = .ok () → own' = update own S.target none) w') w := by
  refine h.call (fun w' hKept _ => .inr ⟨own, contents, s, evs, hKept, hFound, by rintro ⟨⟩⟩)
    fun w' hKept r w₁ hPerform => ?_
  have hTold : telling S.target (.unlink S.target) = true := decide_eq_true rfl
  have hUnlink := hPerform
  simp only [perform, unlink] at hUnlink
  rcases hTarget : w'.names S.target with _ | d
  · rw [hTarget] at hUnlink
    cases hUnlink
    have hNext := hKept.record hPerform hKept.own
    rw [hTold, hTarget] at hNext
    exact .inr ⟨_, _, s, _, hNext, hFound.cons (by simp) (by simp) (by simp), by rintro ⟨⟩⟩
  rw [hTarget] at hUnlink
  dsimp only at hUnlink
  split_ifs at hUnlink with hVacant
  · cases hUnlink
    cases d with
    | own j =>
      have hNext := hKept.record hPerform (hKept.own.placeTarget none (k := none) (by simp))
      rw [hTold, hTarget] at hNext
      exact .inr ⟨_, _, s, _, hNext, hFound.cons (by simp) (by simp) (by simp), fun _ => rfl⟩
    | foreign d =>
      exact .inl ⟨.inl (cons_ne_nil _ _), fun hFound => hFound.unlinked d hVacant mem_cons_self⟩
  · cases hUnlink
    have hNext := hKept.record hPerform hKept.own
    rw [hTold, hTarget] at hNext
    refine .inr ⟨_, _, s, _, hNext, hFound.cons (by simp) (by simp) fun d' hd' _ hd => hVacant ?_, by rintro ⟨⟩⟩
    cases hd
    exact hd'

/-- After the exchange the tree is at the placeholder and the empty directory at the target. -/
def exchangedPlaces (target placeholder : Name) (k k' : Nat) : Name → Option Nat :=
  update (only target k') placeholder (some k)

theorem exchangedPlaces_none {target : Name} (hNe : placeholder ≠ target) :
    update (exchangedPlaces target placeholder k k') target none = only placeholder k := by
  rw [exchangedPlaces, update_comm hNe, only_none, only]

theorem among_removePlaceholder (hNe : placeholder ≠ S.target)
    (h : Kept S (exchangedPlaces S.target placeholder k k') contents s evs w) (hFound : Unreplaced S.target evs) :
    Among S (removeOwnedEmptyDirectory S.target (.own k'))
      (fun r w' => Restored S (fun _ own => r = .ok () → own = only placeholder k) w') w := by
  have hStop (e : Error) {w : World} (h : Kept S (exchangedPlaces S.target placeholder k k') contents s evs w) :
      Restored S (fun _ own => (.error e : Except Error Unit) = .ok () → own = only placeholder k) w :=
    .inr ⟨_, _, _, _, h, hFound, by rintro ⟨⟩⟩
  refine (among_quiet (fun _ => rfl) rfl h).bind (fun e w hr => hStop e hr) ?_
  rintro d w h
  refine (among_attempt _ h).bind (fun e w hr => hStop e hr) ?_
  rintro ⟨⟩ w h
  refine (among_attempt _ h).bind (fun e w hr => hStop e hr) ?_
  rintro ⟨⟩ w h
  show Among S (if d = .own k' then _ else _) _ w
  split_ifs
  · refine (among_unlinkTarget h hFound).mono fun r w hr => hr.mono fun _ own hOwn hOk => ?_
    rw [hOwn hOk, exchangedPlaces_none hNe]
  · exact among_throw (hStop _ h)

/-- The tree after a rollback that was complete can be removed by its name. -/
def Withdrawn (S : Site) (r : RolledBack) (w : World) : Prop :=
  S.Free r.stage ∧ Restored S (fun s own => r.result = .ok () → s ∨ ∀ m, m ≠ r.stage → own m = none) w

theorem among_withdraw (hPlaceholder : S.Free placeholder)
    (h : Kept S (exchangedPlaces S.target placeholder k k') contents s evs w) (hFound : Unreplaced S.target evs)
    (hStage : S.Free stage) :
    Among S (withdraw S.target stage placeholder (.own k'))
      (fun r w' => ∃ rolledBack, r = .ok rolledBack ∧ Withdrawn S rolledBack w') w := by
  refine (among_removePlaceholder hPlaceholder.ne h hFound).catching ?_
  rintro (e | ⟨⟩) w hr
  · exact among_pure ⟨_, rfl, hStage, hr.mono fun _ _ _ => by rintro ⟨⟩⟩
  · refine hr.sync.catching ?_
    rintro result w hr
    refine among_pure ⟨_, rfl, hPlaceholder, hr.mono fun _ own hOwn _ => .inr fun m hm => ?_⟩
    rw [hOwn rfl]
    exact only_ne hm

/-- The exchange has put a directory of another process to the placeholder. If the placeholder is
still at the target then the same exchange undoes it. -/
structure Displaced (S : Site) (placeholder : Name) (own : Name → Option Nat) (contents : Nat → List Part) (s : Prop)
    (d : Other) (w : World) : Prop where
  names : ∀ n, n ≠ S.target → n ≠ placeholder → w.names n = (S.home n).or ((own n).map .own)
  there : w.names placeholder = some (.foreign d)
  target : ∀ k, w.names S.target = some (.own k) → own placeholder = some k
  content : w.content = contents
  gone : w.gone = []
  slip : s → Slip S.target w
  told : w.told S.target = [(.exchange S.target placeholder, some (.foreign d))]

section Displacement

variable {d : Other} (hFree : S.Free placeholder)
variable {c : Call}
include hFree

theorem Displaced.moved (h : Displaced S placeholder own contents s d w) (hMoved : Moved S.target w w') :
    Displaced S placeholder own contents s d w' where
  names n hn hp := (hMoved.names n hn).trans (h.names n hn hp)
  there := (hMoved.names _ hFree.ne).trans h.there
  target k hk := h.target k (hMoved.target k hk)
  content := hMoved.rest.1.trans h.content
  gone := hMoved.rest.2.1.trans h.gone
  slip hs := (h.slip hs).of_failed hMoved.rest.2.2.1
  told := by rw [World.told, hMoved.rest.2.2.2]; exact h.told

theorem Displaced.spoilt (h : Displaced S placeholder own contents s d w) : Spoilt S w := by
  refine ⟨hFree.lost h.there, fun hFound => ?_⟩
  rw [← unreplaced_told, h.told] at hFound
  obtain ⟨m, k, hk⟩ := hFound.exchanged placeholder d mem_cons_self
  simp at hk

theorem Displaced.call {post : Except Error (Answer c) → World → Prop}
    (h : Displaced S placeholder own contents s d w)
    (hFails : ∀ w', Displaced S placeholder own contents s d w' → post (.error (.trouble .failed)) w')
    (hActs : ∀ w', Displaced S placeholder own contents s d w' → ∀ r w₁, w'.perform c = (r, w₁) →
      post (r.mapError .trouble) (w₁.record c (w'.names S.target))) : Among S (Publication.call c) post w := by
  refine among_sys (I := Displaced S placeholder own contents s d)
    (fun m w' h => h.moved hFree (moved_move S.target w' m)) h ?_ ?_
  · intro w' h
    exact hFails _ ⟨h.names, h.there, h.target, h.content, h.gone, fun hs => (h.slip hs).note, h.told⟩
  · intro w' h
    exact hActs w' h _ _ rfl

theorem among_displaced (hSame : ∀ w : World, (w.perform c).2 = w) (hTold : telling S.target c = false)
    (h : Displaced S placeholder own contents s d w) :
    Among S (call c) (fun _ w' => Displaced S placeholder own contents s d w') w := by
  refine h.call hFree (fun _ => id) fun w' h r w₁ hPerform => ?_
  obtain rfl : w' = w₁ := (hSame w').symm.trans (congrArg Prod.snd hPerform)
  have hFound := told_record S.target w' c (w'.names S.target)
  rw [hSame, hTold, h.told] at hFound
  exact ⟨h.names, h.there, h.target, h.content, h.gone, fun hs => (h.slip hs).of_failed rfl, hFound⟩

theorem among_exchanged_displaced (h : Displaced S placeholder own contents s d w) :
    Among S (exchangedDirectory placeholder)
      (fun r w' => Displaced S placeholder own contents s d w' ∧ ∀ v, r = .ok v → v = .foreign d) w := by
  have hOpen : Among S (call (.openDirectory placeholder))
      (fun r w' => Displaced S placeholder own contents s d w' ∧ ∀ v, r = .ok v → v = .foreign d) w := by
    refine h.call hFree (fun w' h => ⟨h, by rintro v ⟨⟩⟩) fun w' h r w₁ hPerform => ?_
    rw [perform, h.there] at hPerform
    cases hPerform
    refine ⟨⟨h.names, h.there, h.target, h.content, h.gone, fun hs => (h.slip hs).of_failed rfl, h.told⟩, ?_⟩
    rintro _ ⟨⟩
    rfl
  refine hOpen.bind (fun e w hr => ⟨hr.1, by rintro v ⟨⟩⟩) ?_
  rintro v w ⟨h, hv⟩
  refine (among_displaced hFree (fun _ => rfl) rfl h).bind (fun e w hr => ⟨hr, by rintro v ⟨⟩⟩) ?_
  rintro ⟨⟩ w h
  refine (among_displaced hFree (fun _ => rfl) rfl h).bind (fun e w hr => ⟨hr, by rintro v ⟨⟩⟩) ?_
  rintro ⟨⟩ w h
  refine among_pure ⟨h, ?_⟩
  rintro _ ⟨⟩
  exact hv v rfl

/-- The second exchange puts the directory back if the placeholder is at the target. -/
theorem among_exchangeBack (h : Displaced S placeholder own contents s d w) :
    Among S (call (.exchange S.target placeholder))
      (fun _ w' => Spoilt S w' ∨ ∃ evs, Kept S own contents s evs w' ∧ Unreplaced S.target evs) w := by
  refine h.call hFree (fun w' h => .inl (h.spoilt hFree)) fun w' h r w₁ hPerform => ?_
  have hTold := told_record S.target w' (.exchange S.target placeholder) (w'.names S.target)
  rw [h.told, hPerform] at hTold
  have hReplaced (hNot : ∀ j, w'.names S.target ≠ some (.own j)) :
      ¬ Unreplaced S.target (w₁.record (.exchange S.target placeholder) (w'.names S.target)).found := by
    rw [← unreplaced_told, hTold]
    intro hFound
    obtain ⟨m, j, hj⟩ := hFound.exchanged placeholder d (by simp [telling])
    simp [telling] at hj
    exact hNot j hj.2.symm
  have hExchange := hPerform
  simp only [perform, exchange, h.there] at hExchange
  rcases hTarget : w'.names S.target with _ | j | d'
  · rw [hTarget] at hExchange hReplaced
    cases hExchange
    exact .inl ⟨hFree.lost h.there, hReplaced (by simp)⟩
  · rw [hTarget] at hExchange hTold
    cases hExchange
    have hGhosts := ghosts_perform (.exchange S.target placeholder) w'
    rw [hPerform] at hGhosts
    refine .inr ⟨_, ⟨⟨fun n hn => ?_, fun k hk => ?_, h.content, h.gone⟩, fun hs =>
      (h.slip hs).of_failed hGhosts.1, hTold⟩, ?_⟩
    · by_cases hp : n = placeholder
      · subst hp
        simp [placeAt, record, h.target j hTarget, hFree.home]
      · simp [placeAt, record, hn, hp, h.names n hn hp]
    · simp [placeAt, record, hFree.ne.symm] at hk
    · exact ⟨by simp [telling], fun n d' _ => ⟨placeholder, j, by simp [telling]⟩, by simp [telling]⟩
  · rw [hTarget] at hExchange hReplaced
    cases hExchange
    exact .inl ⟨hFree.lost (update_self ..), hReplaced (by simp)⟩

theorem among_replacedTarget (hOwn : own placeholder = some k') (hEmpty : contents k' = [])
    (h : Displaced S placeholder own contents s d w) :
    Among S (replacedTarget S.target placeholder (.own k')) (fun r w' => r ≠ .ok () ∧
        Restored S (fun _ _ => True) w') w := by
  have hKnown {w : World} {contents : Nat → List Part}
      (hr : Spoilt S w ∨ ∃ evs, Kept S own contents s evs w ∧ Unreplaced S.target evs) :
          Restored S (fun _ _ => True) w := by
    refine hr.imp_right ?_
    rintro ⟨evs, hKept, hFound⟩
    exact ⟨_, _, _, _, hKept, hFound, trivial⟩
  refine (among_exchangeBack hFree h).bind (fun e w hr => ⟨by simp, hKnown hr⟩) ?_
  rintro ⟨⟩ w hr
  have hRemove : Among S (removeOwnedEmptyDirectory placeholder (.own k'))
      (fun _ w' => Restored S (fun _ _ => True) w') w := by
    rcases hr with hSpoilt | ⟨evs, hKept, hFound⟩
    · exact (among_removeOwned_spoilt hSpoilt _).mono fun _ _ => .inl
    · refine (among_removeOwned hFree hKept hOwn hEmpty).mono fun _ w hr => ?_
      obtain ⟨own', s', hKept⟩ := hr
      exact .inr ⟨_, _, _, _, hKept, hFound, trivial⟩
  refine hRemove.bind (fun e w hr => ⟨by simp, hr⟩) ?_
  rintro ⟨⟩ w hr
  refine hr.sync.bind (fun e w hr => ⟨by simp, hr⟩) ?_
  rintro ⟨⟩ w hr
  exact among_throw ⟨by simp, hr⟩

end Displacement

/-- The target and the placeholder are exchanged, or the target was taken. -/
theorem among_exchange (hFree : S.Free placeholder)
    (h : Kept S (update (only S.target k) placeholder (some k')) contents s [] w) :
    Among S (call (.exchange S.target placeholder)) (fun r w' =>
      match r with
      | .ok () => Kept S (exchangedPlaces S.target placeholder k k') contents s
            [(.exchange S.target placeholder, some (.own k))] w' ∨
          ∃ d, Displaced S placeholder (update (only S.target k) placeholder (some k')) contents s d w'
      | .error _ => ∃ evs, Kept S (update (only S.target k) placeholder (some k')) contents s evs w' ∧
          Unreplaced S.target evs) w := by
  refine h.call (fun w' hKept _ => ⟨[], hKept, unreplaced_nil⟩) fun w' hKept r w₁ hPerform => ?_
  have hOwn := hKept.own
  have hExchange := hPerform
  simp only [perform, exchange, hOwn.names_own hFree (update_self ..)] at hExchange
  rcases hTarget : w'.names S.target with _ | j | d
  · rw [hTarget] at hExchange
    cases hExchange
    have hNext := hKept.record hPerform hOwn
    rw [hTarget] at hNext
    exact ⟨_, hNext, by simp [telling], by simp [telling], by simp [telling]⟩
  · obtain rfl : k = j := by
      have hThere := hOwn.target j hTarget
      rw [update_of_ne hFree.ne.symm, only_self] at hThere
      exact Option.some.inj hThere
    rw [hTarget] at hExchange
    cases hExchange
    have hPlaces : update
        (update (update (only S.target k) placeholder (some k')) S.target (some k'))
        placeholder (some k) = exchangedPlaces S.target placeholder k k' := by
      rw [update_comm hFree.ne, update_idem, only, update_idem, exchangedPlaces, only]
    have hBoth := (hOwn.placeTarget (some (.own k')) (k := some k') fun j hj => by cases hj; rfl).place hFree (some k)
    rw [hPlaces] at hBoth
    have hNext := hKept.record hPerform hBoth
    rw [hTarget] at hNext
    exact .inl hNext
  · rw [hTarget] at hExchange
    cases hExchange
    have hTold := told_record S.target w' (.exchange S.target placeholder) (w'.names S.target)
    rw [hKept.told, hTarget, hPerform] at hTold
    refine .inr ⟨d, fun n hn hp => ?_, update_self .., fun j hj => ?_, hOwn.content, hOwn.gone,
      fun hs => (hKept.slip hs).of_failed rfl, hTold⟩
    · rw [← hOwn.names n hn]
      simp [placeAt, record, hn, hp]
    · obtain rfl : k' = j := by simpa [placeAt, record, hFree.ne.symm] using hj
      exact update_self ..

theorem among_exchanged (hn : S.Free n) (h : Kept S own contents s evs w) (hOwn : own n = some k) :
    Among S (exchangedDirectory n) (fun r w' => Kept S own contents s evs w' ∧ ∀ d, r = .ok d → d = .own k) w := by
  refine (among_open hn h hOwn).bind (fun e w hr => ⟨hr.1, by rintro d ⟨⟩⟩) ?_
  rintro d w ⟨h, hOpen⟩
  refine (among_attempt _ h).bind (fun e w hr => ⟨hr, by rintro d ⟨⟩⟩) ?_
  rintro ⟨⟩ w h
  refine (among_attempt _ h).bind (fun e w hr => ⟨hr, by rintro d ⟨⟩⟩) ?_
  rintro ⟨⟩ w h
  refine among_pure ⟨h, ?_⟩
  rintro _ ⟨⟩
  exact hOpen d rfl

theorem among_rollback (hStage : S.Free stage) (hNames : S.target ∉ names)
    (h : Kept S (only S.target k) contents s [] w) :
    Among S (rollbackPublishedBootstrap names S.target stage (.own k))
      (fun r w' => ∃ rolledBack, r = .ok rolledBack ∧ Withdrawn S rolledBack w') w := by
  have hFails {own : Name → Option Nat} {contents : Nat → List Part} {s : Prop}
      {evs : List (Call × Option Dir)} {w : World}
      (e : Error) (h : Kept S own contents s evs w) (hFound : Unreplaced S.target evs) :
          Withdrawn S ⟨.error e, stage⟩ w :=
    ⟨hStage, .inr ⟨_, _, _, _, h, hFound, by rintro ⟨⟩⟩⟩
  refine (among_createStage h hNames).catching ?_
  rintro (e | ⟨placeholder, d⟩) w hr
  · obtain ⟨own', contents', s', hKept, -⟩ := hr
    exact among_pure ⟨_, rfl, hFails e hKept unreplaced_nil⟩
  obtain ⟨k', rfl, hFree, hKept⟩ := hr
  have hEmpty : update contents k' [] k' = [] := update_self ..
  refine (among_exchange hFree hKept).catching ?_
  rintro (e | ⟨⟩) w hr
  · -- the placeholder is removed, and what is at the target stays there
    obtain ⟨evs, hKept, hFound⟩ := hr
    refine (among_removeAll hFree hKept).catching ?_
    rintro (e' | ⟨⟩) w hr
    · exact among_pure ⟨_, rfl, hFails e hr hFound⟩
    · exact among_pure ⟨_, rfl, hFails e hr hFound⟩
  rcases hr with hr | ⟨d, hDisplaced⟩
  · have hFound : Unreplaced S.target [(.exchange S.target placeholder, some (.own k))] := ⟨by simp, by simp, by simp⟩
    refine (among_exchanged hFree hr (update_self ..)).catching ?_
    rintro (e | d) w ⟨hr, hOpen⟩
    · exact among_pure ⟨_, rfl, hFails e hr hFound⟩
    · show Among S (if d = .own k then _ else _) _ w
      rw [if_pos (hOpen d rfl)]
      exact among_withdraw hFree hr hFound hStage
  · -- the inodes differ: the exchange is made again
    refine (among_exchanged_displaced hFree hDisplaced).catching ?_
    rintro (e | v) w ⟨hr, hOpen⟩
    · exact among_pure ⟨_, rfl, hStage, .inl (hr.spoilt hFree)⟩
    · obtain rfl := hOpen v rfl
      show Among S (catching (replacedTarget S.target placeholder (.own k')) >>= _) _ w
      refine (among_replacedTarget hFree (update_self ..) hEmpty hr).catching ?_
      rintro result w ⟨hResult, hr⟩
      exact among_pure ⟨_, rfl, hStage, hr.mono fun _ _ _ hOk => absurd hOk hResult⟩

/-- Either the tree was published, or an error with a name that can be removed. -/
def Settled (S : Site) (chunks : List Bytes) (k : Nat) : Except Error Unpublished → World → Prop
  | .ok none, w => ∃ contents, contents k = parts chunks ∧
      Kept S (only S.target k) contents False [(.syncParent, w.names S.target)] w
  | .ok (some (e, name)), w =>
    S.Free name ∧ Restored S (fun s own => e = .incomplete ∨ s ∨ ∀ m, m ≠ name → own m = none) w
  | .error _, _ => False

theorem among_afterRename {chunks : List Bytes} (hStage : S.Free stage) (hNames : S.target ∉ names)
    (h : Kept S (only S.target k) contents False [] w) (hParts : contents k = parts chunks) :
    Among S (afterRename names S.target stage (.own k)) (Settled S chunks k) w := by
  refine (among_quiet (fun _ => rfl) rfl h).catching ?_
  rintro (e | ⟨⟩) w h
  · refine (among_renameBack hStage h).catching ?_
    rintro back w hr
    refine hr.sync.catching ?_
    rintro synced w hr
    exact among_pure ⟨hStage, hr.mono fun _ _ => .inr⟩
  · refine (among_sync h).catching ?_
    rintro (e | ⟨⟩) w hr
    · refine (among_rollback hStage hNames hr).bind (fun e w hr => ?_) ?_
      · obtain ⟨_, ⟨⟩, -⟩ := hr
      rintro rolledBack w ⟨_, ⟨⟩, hName, hr⟩
      rcases hResult : rolledBack.result with e' | ⟨⟩
      · exact among_pure ⟨hName, hr.mono fun _ _ _ => .inl rfl⟩
      · exact among_pure ⟨hName, hr.mono fun _ _ hOk => .inr (hOk hResult)⟩
    · exact among_pure ⟨contents, hParts, hr⟩

theorem among_buildAndPublish (request : Request) (hTarget : request.target = S.target)
    (hNames : S.target ∉ request.placeholderNames) (hStage : S.Free stage)
    (h : Kept S (only stage k) contents False [] w)
    (hEmpty : contents k = []) : Among S (buildAndPublish request stage (.own k)) (Settled S request.chunks k) w := by
  unfold buildAndPublish
  rw [hTarget]
  refine (among_publishStage hStage h hEmpty request.chunks).catching ?_
  rintro (e | ⟨⟩) w hr
  · obtain ⟨contents', hKept⟩ := hr
    exact among_pure ⟨hStage, .inr ⟨_, _, _, _, hKept, unreplaced_nil, .inr (.inr fun m hm => only_ne hm)⟩⟩
  · obtain ⟨contents', hParts, hKept⟩ := hr
    exact among_afterRename hStage hNames hKept hParts

/-- The tree was published, or an error with what is left of the own directories. -/
def Rendered (S : Site) (chunks : List Bytes) : Except Error Unit → World → Prop
  | .ok (), w => ∃ contents k, contents k = parts chunks ∧
      Kept S (only S.target k) contents False [(.syncParent, w.names S.target)] w
  | .error e, w => Restored S (fun s own => e = .incomplete ∨ s ∨ own = fun _ => none) w

theorem among_renderBootstrap (request : Request) (hTarget : request.target = S.target)
    (hStageNames : S.target ∉ request.stageNames)
    (hNames : S.target ∉ request.placeholderNames) (h : Kept S (fun _ => none) contents False [] w) :
    Among S (renderBootstrap request) (Rendered S request.chunks) w := by
  refine (among_attempt _ h).bind (fun e w hr => .inr ⟨_, _, _, _, hr, unreplaced_nil, .inr (.inr rfl)⟩) ?_
  rintro ⟨⟩ w hStart
  refine (among_createStage hStart hStageNames).bind (fun e w hr => ?_) ?_
  · obtain ⟨own', contents', s', hKept, hWhy⟩ := hr
    exact .inr ⟨_, _, _, _, hKept, unreplaced_nil, .inr hWhy⟩
  rintro ⟨stage, d⟩ w ⟨k, rfl, hFree, hKept⟩
  refine (among_buildAndPublish request hTarget hNames hFree hKept (update_self ..)).bind
    (fun e w hr => hr.elim) ?_
  rintro (_ | ⟨e, name⟩) w hr
  · obtain ⟨contents', hParts, hKept⟩ := hr
    exact among_pure ⟨contents', k, hParts, hKept⟩
  · obtain ⟨hName, hr⟩ := hr
    have hRemoved := hr.removeAll (Q := fun s own => e = .incomplete ∨ s ∨ own = fun _ => none) hName
      (fun _ => .inr (.inl trivial)) fun s own hWhy => hWhy.imp_right (Or.imp_right fun hAlone => ?_)
    · exact hRemoved.catching fun _ w hr => among_throw hr
    · funext m
      by_cases hm : m = name
      · subst hm
        exact update_self ..
      · rw [update_of_ne hm, hAlone m hm]

end Parts

section Runs

/-- Before the call nothing under the parent is of the program. -/
structure Untouched (w : World) : Prop where
  foreign : ∀ n k, w.names n ≠ some (.own k)
  gone : w.gone = []
  failed : w.failed = []
  found : w.found = []

theorem Untouched.kept {w : World} (h : Untouched w) (target : Name) :
    Kept ⟨target, w.names⟩ (fun _ => none) w.content False [] w where
  own := ⟨fun n _ => by simp, fun k hk => absurd hk (h.foreign target k), rfl, h.gone⟩
  slip := False.elim
  told := by rw [told, h.found, filter_nil]

def render (request : Request) (turns : List (Turn Move)) (w : World) : Option (Except Error Unit) × World :=
  (machine (directory request.target)).run (renderBootstrap request).run turns w

/-- No directory of others was removed, and outside of the target, where they put them, there are
those of them that were there before. -/
def OthersInPlace (target : Name) (w w' : World) : Prop :=
  w'.gone = [] ∧ ∀ n, n ≠ target → ∀ d, w'.names n = some (.foreign d) ↔ w.names n = some (.foreign d)

def Complete (request : Request) (w : World) : Prop :=
  ∃ k, w.names request.target = some (.own k) ∧ w.content k = parts request.chunks

def NothingLeft (w : World) : Prop := ∀ n k, w.names n ≠ some (.own k)

structure AllOrNothing (request : Request) (w : World) (r : Except Error Unit) (w' : World) : Prop where
  others : OthersInPlace request.target w w'
  complete : r = .ok () → Complete request w'
  nothing : ∀ e, r = .error e → e ≠ .incomplete → ¬ Slip request.target w' → NothingLeft w'

variable {target : Name} {w w' : World} {own : Name → Option Nat} {contents : Nat → List Part}

theorem Spoilt.not_othersInPlace (h : Spoilt ⟨target, w.names⟩ w') : ¬ OthersInPlace target w w' := by
  rintro ⟨hGone, hNames⟩
  rcases h.lost with hLost | ⟨n, d, hn, hThere, hHome⟩
  · exact hLost hGone
  · exact hHome ((hNames n hn d).mp hThere)

theorem Own.othersInPlace (h : Own ⟨target, w.names⟩ own contents w') : OthersInPlace target w w' := by
  refine ⟨h.gone, fun n hn d => ?_⟩
  rw [h.names n hn]
  dsimp only
  cases w.names n with
  | none => simp
  | some d' => simp

theorem Own.own_of_names (h : Own ⟨target, w.names⟩ own contents w') (hStart : Untouched w) {n : Name} {k : Nat}
    (hNames : w'.names n = some (.own k)) : own n = some k := by
  by_cases hn : n = target
  · subst hn
    exact h.target k hNames
  · have hHome := hStart.foreign n k
    rw [h.names n hn] at hNames
    cases hBefore : w.names n with
    | none => simpa [hBefore] using hNames
    | some d => exact absurd (by simpa [hBefore] using hNames) hHome

def emptyParent : World where
  names := fun _ => none
  here := true
  next := 0
  content := fun _ => []
  gone := []
  failed := []
  found := []

theorem untouched_emptyParent : Untouched emptyParent := ⟨by simp [emptyParent], rfl, rfl, rfl⟩

/-- A bootstrap without chunks, with one name for the stage and one for a placeholder. -/
def smallRequest : Request := ⟨[116], [], [[115]], [[112]]⟩

def someDirectory : Other := ⟨7, false⟩

/-- The others act right before the last check of the parent. -/
def beforeLastCheck (moves : List Move) : List (Turn Move) := replicate 24 ⟨[], false⟩ ++ [⟨moves, false⟩]

/-- The target is replaced before the sync of the parent, which fails. -/
def replacedBeforeSync : List (Turn Move) := replicate 25 ⟨[], false⟩ ++ [⟨[.take, .bring someDirectory], true⟩]

end Runs

end Camp.Capsule.Publication
