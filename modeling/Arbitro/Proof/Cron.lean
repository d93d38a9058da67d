import Arbitro.Server.Cron
import Arbitro.Lib.Run

/-!
# One fire at a time

A job without overlap waits for the ack of its last fire. `CronRegistry::ack` is told the name
of the job only, so any ack ends the fire in flight.

* `CronSlot.tick_cases`: what a tick does to a slot.
* `fires_in_turn`: a job is fired only after its last fire has ended, as long as every ack for a
  fire in flight is from the connection that got it, for that fire.
-/

namespace Arbitro

open List Option

/-! ## Slots -/

namespace CronSlot

variable {s : CronSlot} {conn : ConnectionId}

/-- What a tick does: it sends a fire to a worker, skips one, or neither. -/
theorem tick_cases (s : CronSlot) (elapsed due : Bool) :
    (∃ conn ∈ s.connections, ∃ cursor, ((s.checkTimeout elapsed).running && !s.overlap) = false ∧
      s.tick elapsed due = (some conn, { s.checkTimeout elapsed with
        cursor := cursor, fireCount := s.fireCount + 1, running := true, runningConn := some conn })) ∨
    (!s.paused && due && !s.overlap) = true ∧ s.tick elapsed due = (none, (s.checkTimeout elapsed).clearRunning) ∨
    s.tick elapsed due = (none, s.checkTimeout elapsed) := by
  have hkeep : ∃ running runningConn, s.checkTimeout elapsed = { s with running, runningConn } := by
    unfold checkTimeout
    split <;> exact ⟨_, _, rfl⟩
  obtain ⟨running, runningConn, hkeep⟩ := hkeep
  unfold tick nextWorker
  rw [hkeep]
  grind

end CronSlot

namespace CronRegistry

variable {r : CronRegistry} {name : Bytes} {slot : CronSlot} {conn : ConnectionId}

theorem of_create {validCron : Bytes → Bool} {req : CreateCronReq}
    (h : ((r.create validCron req conn).toOption.getD r).lookup name = some slot) :
    r.lookup name = some slot ∨ (name = req.name ∧ r.lookup name = none ∧ slot = .new req conn) ∨
      ∃ old, r.lookup name = some old ∧ slot = { old with connections := old.connections ++ [conn] } := by
  unfold create at h
  grind [Map.lookup_insert_eq, Except.toOption]

theorem of_ack {job : Bytes} (h : (r.ack job).lookup name = some slot) :
    (name = job ∧ ∃ old, r.lookup name = some old ∧ slot = old.clearRunning) ∨ name ≠ job ∧ r.lookup name = some slot := by
  unfold ack at h
  grind [Map.lookup_insert_eq]

theorem of_tick {elapsed due : Bytes → Bool} (h : (r.tick elapsed due).2.lookup name = some slot) :
    ∃ old, r.lookup name = some old ∧ slot = (old.tick (elapsed name) (due name)).2 := by
  unfold tick at h
  grind [Map.lookup_retain, bind_eq_some_iff]

theorem of_removeConnection (h : (r.removeConnection conn).lookup name = some slot) :
    ∃ old, r.lookup name = some old ∧ slot = old.removeConnection conn := by
  unfold removeConnection at h
  grind [Map.lookup_retain, bind_eq_some_iff]

end CronRegistry

namespace CronRun

variable {validCron : Bytes → Bool} {s : CronRun} {a : Action}

/-! ## Runs -/

/-- **A job without overlap is fired only if its last fire has ended or times out, and an ack
ends no other fire than the one it is for.** -/
def InTurn (s : CronRun) : Action → Prop
  | .tick elapsed due => ∀ conn name slot, (conn, name) ∈ (s.crons.tick elapsed due).1 →
      s.crons.lookup name = some slot → slot.overlap = false →
      s.inFlight name = none ∨ slot.timeoutMs ≠ 0 ∧ elapsed name = true
  | .ack name conn fire => ∀ x, s.inFlight name = some x → x ≠ (conn, fire) →
      (s.crons.ack name).lookup name = s.crons.lookup name
  | _ => True

/-- **An ack that finds a fire in flight is for that fire, from the connection that got it.** -/
def Own (s : CronRun) : Action → Prop
  | .ack name conn fire => ∀ x ∈ s.inFlight name, x = (conn, fire)
  | _ => True

/-- A fire that has not ended is waited for. -/
def Kept (s : CronRun) : Prop := ∀ name slot x, s.crons.lookup name = some slot → s.inFlight name = some x →
  slot.running = true ∧ slot.runningConn = some x.1

theorem Kept.tick (h : s.Kept) (elapsed due : Bytes → Bool) : (s.step validCron (.tick elapsed due)).Kept := by
  intro name slot x hslot hx
  obtain ⟨old, hold, rfl⟩ := CronRegistry.of_tick hslot
  obtain ⟨_, hold', hx⟩ := bind_eq_some_iff.1 hx
  cases hold.symm.trans hold'
  unfold afterTick at hx
  rcases old.tick_cases (elapsed name) (due name) with ⟨conn, -, cursor, -, heq⟩ | ⟨hskip, heq⟩ | heq
  · rw [heq] at hx ⊢
    cases hx
    exact ⟨rfl, rfl⟩
  · rw [heq] at hx
    simp only [hskip, Bool.or_true, if_true] at hx
    cases hx
  · rw [heq] at hx ⊢
    simp only at hx
    split at hx
    · cases hx
    next hgo =>
    -- nothing has ended the fire: there is no timeout either
    rw [Bool.not_eq_true, Bool.or_eq_false_iff] at hgo
    unfold CronSlot.checkTimeout
    rw [Bool.and_assoc, hgo.1, Bool.and_false]
    exact h name old x hold hx

theorem Kept.step (h : s.Kept) (ha : s.Own a) : (s.step validCron a).Kept := by
  cases a with
  | tick elapsed due => exact h.tick elapsed due
  | delete name => exact fun n slot x hslot hx => h n slot x (Map.of_lookup_erase hslot).2 hx
  | create req conn =>
    intro name slot x hslot hx
    have hcases := CronRegistry.of_create hslot
    simp only [CronRun.step] at hx
    split at hx <;> grind [Kept, Function.update_apply]
  | removeConnection gone =>
    intro name slot x hslot hx
    obtain ⟨old, hold, rfl⟩ := CronRegistry.of_removeConnection hslot
    grind [CronRun.step, Kept, CronSlot.removeConnection, filter_eq_some_iff]
  | ack job conn fire =>
    intro name slot x hslot hx
    have hcases := CronRegistry.of_ack hslot
    have hown : ∀ x, s.inFlight job = some x → x = (conn, fire) := ha
    simp only [CronRun.step] at hx
    split at hx <;> grind [Kept, Function.update_apply]

/-- While a fire is waited for, a tick sends no other one. -/
theorem Kept.inTurn (h : s.Kept) (ha : s.Own a) : s.InTurn a := by
  cases a with
  | tick elapsed due =>
    intro conn _ slot hfire hslot hover
    obtain ⟨⟨name, _⟩, he, hfire⟩ := mem_filterMap.1 hfire
    obtain ⟨_, hfire, heq⟩ := map_eq_some_iff.1 hfire
    cases heq
    cases hslot.symm.trans (AList.mem_lookup_iff.2 he)
    cases hin : s.inFlight name with
    | none => exact .inl rfl
    | some x =>
      right
      obtain ⟨hrun, -⟩ := h name slot x hslot hin
      rcases slot.tick_cases (elapsed name) (due name) with ⟨-, -, -, hfree, -⟩ | ⟨-, heq⟩ | heq
      · unfold CronSlot.checkTimeout at hfree
        split at hfree
        · next htime => simpa [hrun] using htime
        · simp [hrun, hover] at hfree
      · rw [heq] at hfire
        cases hfire
      · rw [heq] at hfire
        cases hfire
  | ack name conn fire => exact fun x hx hne => absurd (ha x hx) hne
  | _ => trivial

/-- **A job is fired in turn, along every run in which the acks are for the fires in flight.** -/
theorem fires_in_turn (validCron : Bytes → Bool) (as : List Action)
    (hrun : Run.Guarded (step validCron) Own {} as) : Run.Guarded (step validCron) InTurn {} as :=
  Run.guarded_of_invariant (P := Kept) (fun _ _ h ha => h.step ha) (fun _ _ h ha => h.inTurn ha) as {}
    (fun _ _ _ _ h => nomatch h) hrun

/-- A job with two workers, and its first fire, which goes to the first of them. -/
def fired : List Action :=
  [.create ⟨[97], [], none, 0, false⟩ 1, .create ⟨[97], [], none, 0, false⟩ 2, .tick (fun _ => false) fun _ => true]

theorem fires_in_turn_acked :
    Run.Guarded (step fun _ => true) InTurn {} (fired ++ [.ack [97] 1 1, .tick (fun _ => false) fun _ => true]) := by
  refine fires_in_turn (fun _ => true) _ ⟨trivial, trivial, trivial, fun x hx => ?_, trivial, trivial⟩
  exact (Option.some.inj hx).symm

/-- The ack of the other worker. -/
def early : CronRun := (fired ++ [Action.ack [97] 2 1]).foldl (step fun _ => true) {}

/-- **It ends the fire**, and the next one goes out while the first worker is at the first. -/
theorem fired_beside :
    ¬ Run.Guarded (step fun _ => true) InTurn {} (fired ++ [.ack [97] 2 1]) ∧ early.inFlight [97] = some (1, 1) ∧
      (2, [97]) ∈ (early.crons.tick (fun _ => false) fun _ => true).1 := by
  refine ⟨fun h => ?_, by decide, by decide⟩
  have hack := h.2.2.2.1 (1, 1) (by decide) (by decide)
  revert hack
  decide

end CronRun

end Arbitro
