import Arbitro.Shard.Gate

/-!
# No wakeup is lost at the gate

* `Sound`: an entry whose publisher has set the flag was walked, finds the flag still set, or the
  worker about to walk; and once its release has returned, the worker goes to sleep only if it was walked.
* `walked_before_parked`: so was every entry whose release has returned when the worker is parked.
-/

namespace Arbitro

open Nat

namespace GateSystem

variable {s : GateSystem} {w : GatePhase}

/-- What holds of an entry once its publisher has set the flag. -/
def Flagged (s : GateSystem) (e : ℕ) : Prop :=
  e < s.appended ∧ (e < s.seen ∨ s.isOpen = true ∨ s.worker = .reading)

/-- What holds of it besides once `release` has returned. -/
def Signalled (s : GateSystem) (e : ℕ) : Prop :=
  e < s.seen ∨ s.worker ≠ .parked ∧ (s.worker = .polling → s.permit = true)

/-- What holds of the entry a publisher is busy with. -/
def Busy (s : GateSystem) : Publisher → Prop
  | .idle => True
  | .appended entry => ∀ e ∈ entry, e < s.appended
  | .opened entry => ∀ e ∈ entry, s.Flagged e

structure Sound (s : GateSystem) : Prop where
  publishers : ∀ p, s.Busy (s.publishers p)
  completed : ∀ e ∈ s.completed, s.Flagged e ∧ s.Signalled e

/-- A step that no publisher makes. -/
theorem Sound.moved (h : s.Sound) {o b r : Bool} {a n : ℕ} (hle : s.appended ≤ a)
    (hf : ∀ e, s.Flagged e → e < n ∨ o = true ∨ w = .reading)
    (hs : ∀ e, s.Flagged e → s.Signalled e → e < n ∨ w ≠ .parked ∧ (w = .polling → b = true)) :
    Sound ⟨o, b, r, s.publishers, w, a, n, s.completed⟩ := by
  have hflag : ∀ e, s.Flagged e → e < a ∧ (e < n ∨ o = true ∨ w = .reading) :=
    fun e he => ⟨Nat.lt_of_lt_of_le he.1 hle, hf e he⟩
  refine ⟨fun p => ?_, fun e he => ⟨hflag e (h.completed e he).1, hs e (h.completed e he).1 (h.completed e he).2⟩⟩
  have hp := h.publishers p
  show Busy _ (s.publishers p)
  cases hx : s.publishers p with
  | idle => trivial
  | appended entry => rw [hx] at hp; exact fun e he => Nat.lt_of_lt_of_le (hp e he) hle
  | opened entry => rw [hx] at hp; exact fun e he => hflag e (hp e he)

/-- A step of the worker that does not clear the flag. -/
theorem Sound.goto (h : s.Sound) (hr : s.worker ≠ .reading) {o b : Bool} (ho : s.isOpen = true → o = true)
    (hs : ∀ e, s.Flagged e → s.Signalled e → e < s.seen ∨ w ≠ .parked ∧ (w = .polling → b = true)) :
    Sound { s with isOpen := o, permit := b, worker := w } :=
  h.moved le.refl (fun _ he => he.2.imp_right fun hopen => .inl (ho (hopen.resolve_right hr))) hs

/-- `notify_one` wakes a worker that sleeps, or keeps it from going to sleep. -/
theorem Sound.notifyOne (h : s.Sound) : s.notifyOne.Sound ∧ s.notifyOne.publishers = s.publishers ∧
    ∀ e, s.Flagged e → s.notifyOne.Flagged e ∧ s.notifyOne.Signalled e := by
  unfold GateSystem.notifyOne
  split
  · next hw =>
    refine ⟨h.goto (by rw [hw]; nofun) id fun _ _ _ => .inr ⟨nofun, nofun⟩, rfl, fun e he => ⟨?_, .inr ⟨nofun, nofun⟩⟩⟩
    simpa [Flagged, hw] using he
  · next hw =>
    exact ⟨h.moved le.refl (fun _ he => he.2) fun _ _ _ => .inr ⟨hw, fun _ => rfl⟩, rfl,
      fun e he => ⟨he, .inr ⟨hw, fun _ => rfl⟩⟩⟩

theorem Sound.drain (h : s.Sound) (morePending : Bool) : (s.drain morePending).Sound := by
  unfold GateSystem.drain
  by_cases hr : s.worker = .reading
  · rw [hr]
    exact h.moved le.refl (fun _ he => .inl he.1) fun _ he _ => .inl he.1
  split
  · split
    · exact h.goto hr id fun _ _ _ => .inr ⟨nofun, nofun⟩
    · next hw hclosed =>
      -- the flag is down: no publisher has set it since the last walk
      exact h.goto hr id fun e he _ => .inl (by simpa [hclosed, hw] using he.2)
  · split
    · exact h.goto hr id fun _ _ _ => .inr ⟨nofun, nofun⟩
    · next hw hnone => exact h.goto hr id fun e _ hs => .inl (by simpa [Signalled, hnone, hw] using hs)
  · exact h
  · exact h.goto hr id fun _ _ _ => .inr (by split <;> exact ⟨nofun, nofun⟩)
  · exact h.goto hr id fun _ _ _ => .inr (by split <;> exact ⟨nofun, nofun⟩)
  · exact h.moved le.refl (fun _ _ => .inr (.inr rfl)) fun _ _ _ => .inr ⟨nofun, nofun⟩
  · next hw => exact absurd hw hr
  · exact h.goto hr (fun _ => rfl) fun _ _ _ => .inr ⟨nofun, nofun⟩
  · next hw =>
    exact h.notifyOne.1.goto (by simp [GateSystem.notifyOne, hw]) id fun _ _ _ => .inr ⟨nofun, nofun⟩
  · exact h.goto hr id fun _ _ _ => .inr ⟨nofun, nofun⟩
  · exact h.goto hr id fun _ _ _ => .inr (by split <;> exact ⟨nofun, nofun⟩)
  · exact h

theorem Sound.update (h : s.Sound) (p : ℕ) (x : Publisher) (hx : s.Busy x) :
    Sound { s with publishers := Function.update s.publishers p x } :=
  ⟨(Function.forall_update_iff _ fun _ x => s.Busy x).2 ⟨hx, fun q _ => h.publishers q⟩, h.completed⟩

theorem Sound.publish (h : s.Sound) (p : ℕ) (appends : Bool) : (s.publish p appends).Sound := by
  have hp := h.publishers p
  unfold GateSystem.publish
  simp only
  split
  · split
    · have happ : Sound { s with appended := s.appended + 1 } :=
        h.moved (le_succ _) (fun _ he => he.2) fun _ _ hs => hs
      exact happ.update p (.appended (some s.appended)) fun e he => by cases he; exact lt_succ_self _
    · exact h.update p (.appended none) nofun
  · next entry heq =>
    rw [heq] at hp
    have hopen : Sound { s with isOpen := true } := h.moved le.refl (fun _ _ => .inr (.inl rfl)) fun _ _ hs => hs
    exact hopen.update p (.opened entry) fun e he => ⟨hp e he, .inr (.inl rfl)⟩
  · next entry heq =>
    rw [heq] at hp
    obtain ⟨hn, hpub, hsignalled⟩ := h.notifyOne
    rw [← hpub]
    exact ⟨(hn.update p .idle trivial).publishers, List.forall_mem_append.2
      ⟨fun e he => hsignalled e (h.completed e he).1, fun e he => hsignalled e (hp e (by simpa using he))⟩⟩

theorem Sound.step (h : s.Sound) (a : GateAction) : (s.step a).Sound := by
  cases a with
  | publish p appends => exact h.publish p appends
  | drain morePending => exact h.drain morePending
  | stop => exact h.moved le.refl (fun _ he => he.2) fun _ _ hs => hs

/-- **While the worker is parked, every entry whose release has returned was there for a walk.** -/
theorem walked_before_parked (as : List GateAction) (hw : (as.foldl step {}).worker = .parked) :
    ∀ e ∈ (as.foldl step {}).completed, e < (as.foldl step {}).seen := by
  have h : (as.foldl step {}).Sound := List.foldlRecOn as step ⟨fun _ => trivial, nofun⟩ fun _ hs a _ => hs.step a
  intro e he
  exact (h.completed e he).2.resolve_right fun hawake => hawake.1 hw

theorem walked_before_parked_published :
    let as := List.replicate 3 (.publish 0 true) ++ List.replicate 12 (.drain false)
    (as.foldl step {}).completed = [0] ∧ ∀ e ∈ (as.foldl step {}).completed, e < (as.foldl step {}).seen :=
  ⟨rfl, walked_before_parked _ rfl⟩

end GateSystem

end Arbitro
