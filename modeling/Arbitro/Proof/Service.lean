import Arbitro.Client.Service

/-!
# Which handler runs

* `Service.dispatch_exact_iff`: a call is run by its own handler where no other one comes first
  in the scan and the handle was not stopped.
-/

namespace Arbitro

open List

variable (as : List ServiceAction)

/-- The methods in the order of registration. -/
def registered : List Bytes :=
  as.filterMap fun
    | .handle method => some method
    | .stop _ => none

namespace Service

/-- A call is run by a handler registered for its method whose handle is not stopped; without one
it is nacked. -/
def Exact (method : Bytes) (s : Service) : Prop :=
  match s.dispatch (methodSubject s.name method) with
  | some n => (registered as)[n]? = some method ∧ n ∉ s.cancelled
  | none => ∀ n, (registered as)[n]? = some method → n ∈ s.cancelled

theorem handlers_run (s : Service) : (as.foldl step s).name = s.name ∧
    (as.foldl step s).handlers = s.handlers ++ (registered as).map (methodSubject s.name) := by
  induction as generalizing s with
  | nil => exact ⟨rfl, (append_nil _).symm⟩
  | cons a as ih =>
    obtain ⟨hname, hhandlers⟩ := ih (s.step a)
    cases a with
    | handle method => exact ⟨hname, hhandlers.trans (append_assoc ..)⟩
    | stop handler => exact ⟨hname, hhandlers⟩

/-- The scan compares methods: what comes before them is the same in every subject. -/
theorem dispatch_run {name : Bytes} (as : List ServiceAction) {method : Bytes} :
    (as.foldl step { name }).dispatch (methodSubject name method) = (registered as).findIdx? (·.isPrefixOf method) := by
  have hsame (m : Bytes) : (methodSubject name m).isPrefixOf (methodSubject name method) = m.isPrefixOf method := by
    rw [Bool.eq_iff_iff, isPrefixOf_iff_prefix, isPrefixOf_iff_prefix]
    exact prefix_append_right_inj _
  unfold dispatch
  rw [(handlers_run as { name }).2, nil_append, findIdx?_map]
  exact congrArg (findIdx? · _) (funext hsame)

/-- **When a call reaches its own handler**: if the first registered method that the called one
starts with is that method itself, and its handle is not stopped. A stop changes nothing. -/
theorem dispatch_exact_iff (name : Bytes) (as : List ServiceAction) (method : Bytes) :
    let s := as.foldl step { name }
    (s.Exact as method ↔ ∀ n, (registered as).findIdx? (·.isPrefixOf method) = some n →
      (registered as)[n]? = some method ∧ n ∉ s.cancelled) ∧
    ∀ k subject, (s.step (.stop k)).dispatch subject = s.dispatch subject := by
  refine ⟨?_, fun _ _ => rfl⟩
  unfold Exact
  rw [(handlers_run as { name }).1, dispatch_run]
  cases hfind : (registered as).findIdx? (·.isPrefixOf method) with
  | some n => simp
  | none =>
    refine ⟨fun _ n hn => (by cases hn), fun _ n hn => ?_⟩
    -- a registered method is found, at the latest by itself
    have hno := findIdx?_eq_none_iff.1 hfind method (mem_of_getElem? hn)
    have hself : method.isPrefixOf method = true := isPrefixOf_iff_prefix.2 prefix_rfl
    rw [hself] at hno
    cases hno

/-- A handler for `a` takes the calls of `ab`, and it takes those of `a` after its stop. -/
theorem first_prefix_runs :
    let s := [.handle [97], .handle [97, 98], .stop 0].foldl step { name := [120] }
    s.dispatch (methodSubject [120] [97, 98]) = some 0 ∧ s.dispatch (methodSubject [120] [97]) = some 0 ∧
      0 ∈ s.cancelled ∧ ¬ s.Exact [.handle [97], .handle [97, 98], .stop 0] [97, 98] := by
  refine ⟨by decide, by decide, by decide, fun h => ?_⟩
  exact h.2 (by decide)

end Service

end Arbitro
