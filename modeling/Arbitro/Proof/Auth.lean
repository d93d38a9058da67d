import Arbitro.Server.ReadLoop
import Mathlib.Data.List.Forall2

/-!
# What a token may do

An identity without permissions may do everything: it is meant for the shared token. An entry of
`ARBITRO_AUTH_USERS` with no known word in its list makes such an identity too.

* `authenticate_lists_iff`: every permission that a token gives is listed for it, exactly where
  authentication is on, no token is empty and every token has a permission listed.
* `misspelled_grants_admin`: a misspelled list gives them all.
-/

namespace Arbitro

namespace ReadLoop

open List

theorem constantTimeEq_iff {a b : Bytes} : constantTimeEq a b ↔ a = b := by
  have hfold : ∀ (ps : List (UInt8 × UInt8)) (d : UInt8),
      ps.foldl (fun diff p => diff ||| (p.1 ^^^ p.2)) d = 0 ↔ d = 0 ∧ ∀ p ∈ ps, p.1 = p.2 := by
    intro ps
    induction ps with
    | nil => simp
    | cons p ps ih => intro d; simp [ih, UInt8.or_eq_zero_iff, and_assoc]
  rw [← forall₂_eq_eq_eq, forall₂_iff_zip]
  unfold constantTimeEq
  split_ifs with hlen
  · simp [hlen]
  · simp [hfold, not_not.1 hlen]

/-- The entry that a token is answered with. -/
def answering (users : List AuthUser) (t : Bytes) : Option AuthUser := (users.filter (·.token = t)).getLast?

theorem foldl_answering {users : List AuthUser} {t : Bytes} :
    users.foldl (fun matched u => if constantTimeEq t u.token then some u else matched) none = answering users t := by
  induction users using reverseRecOn with
  | nil => rfl
  | append_singleton us u ih =>
    rw [foldl_append, ih]
    simp only [answering, filter_append, foldl_cons, foldl_nil, constantTimeEq_iff]
    by_cases hu : u.token = t
    · simp [hu]
    · simp [hu, Ne.symm hu]

/-- What a configuration says that a token may do. -/
def Lists (shared : Option Bytes) (users : List AuthUser) (t : Bytes) (p : Permission) : Prop :=
  shared = some t ∨ ∃ u ∈ users, u.token = t ∧ t ≠ [] ∧ (p ∈ u.permissions ∨ .admin ∈ u.permissions)

/-- Authentication is on, and a token that is not the shared one is not empty; its last entry lists a
permission unless another one lists `admin`. -/
def Explicit (shared : Option Bytes) (users : List AuthUser) : Prop :=
  (shared = none → users ≠ []) ∧
    ∀ t u, answering users t = some u → shared ≠ some t →
      t ≠ [] ∧ (u.permissions = [] → ∃ v ∈ users, v.token = t ∧ .admin ∈ v.permissions)

theorem authenticate_eq_allow {shared : Option Bytes} {users : List AuthUser} {t : Bytes} {identity : Identity} :
    (Authenticator.token shared users).authenticate (some t) = .allow identity ↔ shared = some t ∧ identity = {} ∨
        shared ≠ some t ∧ ∃ u, answering users t = some u ∧
          { username := some u.username, permissions := u.permissions } = identity := by
  have hshared : shared.any (constantTimeEq t) ↔ shared = some t := by
    cases shared with
    | none => simp
    | some s => simp [constantTimeEq_iff, eq_comm (a := s)]
  simp only [Authenticator.authenticate, foldl_answering, hshared]
  split_ifs with hs
  · simp [hs, eq_comm]
  · cases answering users t <;> simp [hs]

/-- Every permission of an identity is listed for its token, exactly where the configuration is explicit. -/
theorem authenticate_lists_iff (shared : Option Bytes) (raw : List Char) :
    (∀ t identity p, (Authenticator.fromConfig shared raw).authenticate (some t) = .allow identity →
      identity.hasPermission p → Lists shared (parseUsers raw) t p) ↔ Explicit shared (parseUsers raw) := by
  unfold Authenticator.fromConfig
  generalize parseUsers raw = users
  by_cases hoff : shared = none ∧ users = []
  · obtain ⟨rfl, rfl⟩ := hoff
    refine iff_of_false (fun h => ?_) fun h => h.1 rfl rfl
    simpa [Lists] using h [] {} .admin rfl rfl
  have hon : (shared.isNone && users.isEmpty) = false := by simpa using hoff
  simp only [hon, Bool.false_eq_true, if_false]
  constructor
  · refine fun h => ⟨fun hs hu => hoff ⟨hs, hu⟩, fun t u hu hne => ?_⟩
    have hlists (p : Permission) (hp : p ∈ u.permissions ∨ u.permissions = []) :=
      (h t _ p (authenticate_eq_allow.2 (.inr ⟨hne, u, hu, rfl⟩)) (by
        simp only [Identity.hasPermission, Bool.or_eq_true, contains_iff_mem, List.isEmpty_iff]
        exact .inl hp.symm)).resolve_left hne
    cases hps : u.permissions with
    | nil =>
      obtain ⟨v, hv, hvt, ht, hadm⟩ := hlists .admin (.inr hps)
      exact ⟨ht, fun _ => ⟨v, hv, hvt, or_self_iff.1 hadm⟩⟩
    | cons p ps =>
      obtain ⟨-, -, -, ht, -⟩ := hlists p (.inl (by simp [hps]))
      exact ⟨ht, nofun⟩
  · rintro ⟨-, h⟩ t identity p hid hp
    obtain ⟨hs, -⟩ | ⟨hne, u, hu, rfl⟩ := authenticate_eq_allow.1 hid
    · exact .inl hs
    obtain ⟨ht, hadm⟩ := h t u hu hne
    by_cases hnil : u.permissions = []
    · obtain ⟨v, hv, hvt, hva⟩ := hadm hnil
      exact .inr ⟨v, hv, hvt, ht, .inr hva⟩
    · obtain ⟨hmem, hut⟩ := mem_filter.1 (mem_of_getLast? hu)
      exact .inr ⟨u, hmem, of_decide_eq_true hut, ht, by simpa [Identity.hasPermission, hnil] using hp⟩

/-- With `bob:tok:pubish` in the setting, the token `tok` may do everything. -/
theorem misspelled_grants_admin :
    let raw := "bob:tok:pubish".toList
    let t := asBytes "tok".toList
    ∃ identity, (Authenticator.fromConfig none raw).authenticate (some t) = .allow identity ∧
      identity.hasPermission .admin ∧ ¬ Lists none (parseUsers raw) t .admin := by
  refine ⟨{ username := some (asBytes "bob".toList) }, by decide +kernel, by decide, ?_⟩
  have : parseUsers "bob:tok:pubish".toList = [⟨asBytes "bob".toList, asBytes "tok".toList, []⟩] := by
    decide +kernel
  rw [Lists, this]
  simp

end ReadLoop

end Arbitro
