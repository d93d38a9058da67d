import Mathlib.Data.Nat.Basic

/-!
# Guarded runs

A state machine is a step function `σ → α → σ`; a run is the fold of a list of
actions. A guard is a condition on an action in the state it is taken from.

* `Run.invariant`: what holds at the start and is kept by every guarded step
  holds at the end of every guarded run.
-/

namespace Run

variable {σ α : Type} (step : σ → α → σ) (ok : σ → α → Prop)

/-- Every action meets the guard in the state it is taken from. -/
def Guarded : σ → List α → Prop
  | _, [] => True
  | s, a :: as => ok s a ∧ Guarded (step s a) as

variable {step ok}

/-- **An invariant of guarded steps holds after every guarded run.** -/
theorem invariant {Inv : σ → Prop} (hstep : ∀ s a, Inv s → ok s a → Inv (step s a)) :
    ∀ (as : List α) (s : σ), Inv s → Guarded step ok s as → Inv (as.foldl step s) := by
  intro as
  induction as with
  | nil => intro s hs _; exact hs
  | cons a as ih =>
    intro s hs hg
    exact ih (step s a) (hstep s a hs hg.1) hg.2

/-- What an invariant adds to a guard holds along every guarded run. -/
theorem guarded_of_invariant {P : σ → Prop} {ok' : σ → α → Prop} (hstep : ∀ s a, P s → ok s a → P (step s a))
    (hok : ∀ s a, P s → ok s a → ok' s a) : ∀ (as : List α) (s : σ), P s → Guarded step ok s as → Guarded step ok' s as
  | [], _, _, _ => trivial
  | a :: as, s, hs, hg => ⟨hok s a hs hg.1, guarded_of_invariant hstep hok as (step s a) (hstep s a hs hg.1) hg.2⟩

theorem guarded_append {as bs : List α} : ∀ {s : σ},
    Guarded step ok s (as ++ bs) ↔ Guarded step ok s as ∧ Guarded step ok (as.foldl step s) bs := by
  induction as with
  | nil => intro s; exact ⟨fun h => ⟨trivial, h⟩, fun h => h.2⟩
  | cons a as ih =>
    intro s
    have h := ih (s := step s a)
    exact ⟨fun ⟨ha, hr⟩ => ⟨⟨ha, (h.1 hr).1⟩, (h.1 hr).2⟩, fun ⟨⟨ha, hr⟩, hb⟩ => ⟨ha, h.2 ⟨hr, hb⟩⟩⟩

instance [∀ s a, Decidable (ok s a)] : ∀ (s : σ) (as : List α), Decidable (Guarded step ok s as)
  | _, [] => isTrue trivial
  | s, a :: as =>
    have := instDecidableGuarded (step s a) as
    inferInstanceAs (Decidable (ok s a ∧ Guarded step ok (step s a) as))

end Run
