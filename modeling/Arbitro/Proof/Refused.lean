import Arbitro.Proof.Admin
import Arbitro.Server.Connections

/-!
# What a refused `CreateConsumer` leaves

`Hub.refused_unchanged_iff`: a refused request leaves registry, engines and quota as they were exactly
where it is refused before a unit is reserved, or where all that it writes stands there already.
-/

namespace Arbitro

open NameRegistry AdminBroker Option
open Function (update_self update_eq_self)

namespace AdminBroker

variable {b : AdminBroker} {req : CreateConsumerReq} {stream : StreamId} {filter : Bytes}

/-- No id is allocated: the name has one, or the pool is empty. -/
def Numbered (b : AdminBroker) (req : CreateConsumerReq) (stream : StreamId) : Prop :=
  (b.names.consumersByName.lookup (stream, req.name)).isSome = true ∨ b.names.consumerPool.alloc = none

/-- What the engine says to a `CreateConsumer` that the rules admit. -/
def engineAnswer (b : AdminBroker) (req : CreateConsumerReq) (stream : StreamId) (filter : Bytes) : EngineResult Bool :=
  let b' := b.filterWritten req stream filter
  ((b'.engineOf stream).createConsumer (b'.askedConfig req stream (b.names.getOrCreateConsumer stream req.name).1 filter)).2

theorem Numbered.names (h : b.Numbered req stream) : (b.names.getOrCreateConsumer stream req.name).2 = b.names := by
  unfold Numbered at h
  unfold getOrCreateConsumer
  split
  · rfl
  case h_2 hl => rw [h.resolve_left (by simp [hl])]

theorem numbered_of_names
    (h : (b.names.getOrCreateConsumer stream req.name).2.consumersByName = b.names.consumersByName) : b.Numbered req stream := by
  unfold getOrCreateConsumer at h
  unfold Numbered
  split at h
  case h_1 hl => simp [hl]
  case h_2 hl =>
  split at h
  case h_1 ha => exact .inr ha
  case h_2 =>
    have hkey := congrArg (AList.lookup (stream, req.name)) h
    rw [Map.lookup_insert_eq, if_pos rfl, hl] at hkey
    cases hkey

theorem filterWritten_names_iff : (b.filterWritten req stream filter).names = b.names ↔
    b.Numbered req stream ∧ b.names.consumerFilters (b.idFor stream req.name) = filter := by
  unfold filterWritten setConsumerFilter
  refine ⟨fun h => ?_, fun ⟨hn, hf⟩ => by rw [hn.names, ← hf, update_eq_self]⟩
  have hf := congrFun (congrArg NameRegistry.consumerFilters h) (b.idFor stream req.name)
  have hkeys := congrArg NameRegistry.consumersByName h
  exact ⟨numbered_of_names hkeys, hf.symm.trans (update_self _ _ _)⟩

theorem queue_names_iff : (req.queue (b.filterWritten req stream filter).names stream).2 = b.names ↔
    (b.filterWritten req stream filter).names = b.names ∧
      (req.deliverMode = 0 ∨ (b.names.queuesByKey.lookup (stream, req.group)).isSome = true) := by
  have hsame : (b.filterWritten req stream filter).names.queuesByKey = b.names.queuesByKey ∧
      (b.filterWritten req stream filter).names.nextQueue = b.names.nextQueue := by
    unfold filterWritten getOrCreateConsumer
    split
    · exact ⟨rfl, rfl⟩
    split <;> exact ⟨rfl, rfl⟩
  unfold ConsumerRecord.queue getOrCreateQueue
  rw [hsame.1, hsame.2]
  split
  case isTrue hm => simp [hm]
  case isFalse hm =>
  split
  case h_1 hl => simp [hl]
  case h_2 hl =>
    refine ⟨fun h => ?_, fun ⟨_, h⟩ => by simp [hm, hl] at h⟩
    have hnext := congrArg NameRegistry.nextQueue h
    simp at hnext

theorem ruling_code {v : Violation} (h : b.ruling req stream = .error v) : v.wireCode = .invalidConsumerFilter := by
  unfold ruling ConsumerRules.onCreate ConsumerRules.staysInsideItsStream ConsumerRules.notNestedUnderASibling at h
  simp only [bind, Except.bind, pure, Except.pure] at h
  repeat' split at h
  all_goals grind [Violation.wireCode]

end AdminBroker

namespace Hub

variable {h : Hub} {conn : ConnectionId} {req : CreateConsumerReq} {stream : StreamId}

/-- The consumers that the connection is charged for. -/
def charged (r : ConnectionRegistry) (conn : ConnectionId) : ℕ := ((r.quotas.lookup conn).getD {}).consumers

/-- A request that is refused leaves registry, engines and quota as they were. -/
def RefusedUnchanged (wh : WireHash) (h : Hub) (conn : ConnectionId) (req : CreateConsumerReq) (journalTail : ℕ) : Prop :=
  let h' := h.createConsumer wh conn req journalTail
  ∀ code, (h.admin.createConsumer wh req (h.registry.checkAndIncrQuota conn .consumer).1 journalTail).2 = .repError code →
    h'.names = h.names ∧ (∀ i, (h'.workers i).engine = (h.workers i).engine) ∧ charged h'.registry conn = charged h.registry conn

/-- Once the unit is reserved, the rules refuse only without a limit and for a name that has its id;
and what the engine refuses, or the full pool, has its id, its filter and its queue already. -/
def HarmlessRefusal (h : Hub) (conn : ConnectionId) (req : CreateConsumerReq) : Prop :=
  let unlimited := h.registry.quotaLimits.limit .consumer = 0
  ∀ stream, h.admin.screened req (h.registry.checkAndIncrQuota conn .consumer).1 = .ok stream →
    match h.admin.ruling req stream with
    | .error _ => h.admin.Numbered req stream ∧ unlimited
    | .ok filter =>
      let c := (h.names.getOrCreateConsumer stream req.name).1
      (c ≠ consumerSlotFull ∧ (h.admin.engineAnswer req stream filter).toBool = true) ∨
        (h.admin.Numbered req stream ∧ h.names.consumerFilters c = filter) ∧ (unlimited → charged h.registry conn = 0) ∧
          (c = consumerSlotFull ∨ req.deliverMode = 0 ∨ (h.names.queuesByKey.lookup (stream, req.group)).isSome = true)

theorem charged_releaseQuota (r : ConnectionRegistry) (conn : ConnectionId) :
    charged (r.releaseQuota conn .consumer) conn = charged r conn - 1 := by
  unfold charged ConnectionRegistry.releaseQuota
  cases hc : r.quotas.lookup conn with
  | none => simp [hc]
  | some q => simp [ConnQuota.set, ConnQuota.counter]

/-- Without a limit nothing is counted. -/
theorem charged_checked {quota : Bool} {r r' : ConnectionRegistry} (hq : r.checkAndIncrQuota conn .consumer = (quota, r')) :
    charged r' conn = charged r conn + if quota = true ∧ r.quotaLimits.limit .consumer ≠ 0 then 1 else 0 := by
  unfold ConnectionRegistry.checkAndIncrQuota at hq
  unfold charged
  split at hq
  case isTrue hl =>
    obtain ⟨rfl, rfl⟩ := Prod.mk.inj hq
    simp [hl]
  case isFalse hl =>
  simp only at hq
  split at hq
  · obtain ⟨rfl, rfl⟩ := Prod.mk.inj hq
    simp
  · obtain ⟨rfl, rfl⟩ := Prod.mk.inj hq
    simp [hl, ConnQuota.set, ConnQuota.counter]

theorem validConsumer_eq (h : Hub) : validConsumer h.names req = (h.admin.screened req true).toBool := by
  unfold validConsumer screened
  rw [show h.admin.names = h.names from rfl]
  cases h.names.streamSeq req.streamId <;> cases validateName req.name <;> cases req.group.isEmpty <;>
    cases validateName req.group <;> cases req.subject.isEmpty <;> cases validateSubject req.subject <;> rfl

/-- **A refused `CreateConsumer` leaves registry, engines and quota as they were** exactly where what
it writes before the refusal stands there already. -/
theorem refused_unchanged_iff (wh : WireHash) (h : Hub) (conn : ConnectionId) (req : CreateConsumerReq) (journalTail : ℕ) :
    h.RefusedUnchanged wh conn req journalTail ↔ h.HarmlessRefusal conn req := by
  unfold RefusedUnchanged HarmlessRefusal Hub.createConsumer
  cases hq : h.registry.checkAndIncrQuota conn .consumer with | mk quota registry
  have hcharged := charged_checked hq
  simp only
  rw [createConsumer_eq]
  cases hs : h.admin.screened req quota with
  | error code =>
    refine ⟨fun _ stream hok => (by cases hok), fun _ _ _ => ?_⟩
    cases hv : validConsumer h.names req with
    | false => exact ⟨rfl, fun _ => rfl, rfl⟩
    | true =>
      cases quota with
      | false => exact ⟨rfl, fun _ => rfl, by simpa using hcharged⟩
      | true =>
        rw [validConsumer_eq, hs] at hv
        cases hv
  | ok stream =>
  obtain rfl : quota = true := (allocates_of_screened hs).quota
  have hv : validConsumer h.names req = true := by
    rw [validConsumer_eq, hs]
    rfl
  have hrel := charged_releaseQuota registry conn
  have hkept : charged registry conn = charged h.registry conn ↔ h.registry.quotaLimits.limit .consumer = 0 := by grind
  have hgiven : charged (registry.releaseQuota conn .consumer) conn = charged h.registry conn ↔
      (h.registry.quotaLimits.limit .consumer = 0 → charged h.registry conn = 0) := by grind
  simp only [hv, Bool.not_true, Bool.false_eq_true, if_false, Except.ok.injEq, forall_eq', Bool.false_or]
  cases hr : h.admin.ruling req stream with
  | error v =>
    simp only [ruling_code hr, beq_self_eq_true, Bool.or_true, if_true, AdminReply.repError.injEq, forall_eq']
    constructor
    · rintro ⟨hn, -, hc⟩
      exact ⟨numbered_of_names (congrArg _ hn), hkept.1 hc⟩
    · rintro ⟨hn, hl⟩
      exact ⟨hn.names, fun _ => rfl, hkept.2 hl⟩
  | ok filter =>
  simp only
  split
  case isTrue hfull =>
    simp only [AdminReply.repError.injEq, forall_eq']
    constructor
    · rintro ⟨hn, -, hc⟩
      exact .inr ⟨filterWritten_names_iff.1 hn, hgiven.1 hc, .inl hfull⟩
    rintro (⟨hne, -⟩ | ⟨hn, hc, -⟩)
    · exact absurd hfull hne
    · exact ⟨filterWritten_names_iff.2 hn, fun _ => rfl, hgiven.2 hc⟩
  case isFalse hfull =>
  rw [engineCreate_match]
  simp only [engineAnswer]
  generalize ((h.admin.filterWritten req stream filter).engineOf stream).createConsumer
    ((h.admin.filterWritten req stream filter).askedConfig req stream _ filter) = x
  obtain ⟨engine, answer⟩ := x
  cases answer with
  | ok new => exact ⟨fun _ => .inl ⟨hfull, rfl⟩, fun _ _ hcode => by cases hcode⟩
  | error e =>
    simp only [AdminReply.repError.injEq, forall_eq']
    constructor
    · rintro ⟨hn, -, hc⟩
      obtain ⟨hw, hqueue⟩ := queue_names_iff.1 hn
      exact .inr ⟨filterWritten_names_iff.1 hw, hgiven.1 hc, .inr hqueue⟩
    rintro (⟨-, hok⟩ | ⟨hn, hc, hqueue⟩)
    · cases hok
    · exact ⟨queue_names_iff.2 ⟨filterWritten_names_iff.2 hn, hqueue.resolve_left hfull⟩, fun _ => rfl, hgiven.2 hc⟩

/-- Stream `a` for `a.>`, and a consumer of it for `b`. The rules refuse it, but the unit is spent. -/
theorem refusal_charged :
    ¬ RefusedUnchanged sampleHash
      (createStream sampleHash { shardCount := 1 } 9 (some ⟨[97], [97, 46, 62], 0, 0, 1, 0, 0⟩)) 9
      ⟨⟨sampleHash [97], [98], [103], [98], 1, 1, 0, 0, 0, 0, []⟩, none⟩ 0 := by
  intro h
  obtain ⟨-, -, hcharged⟩ := h .invalidConsumerFilter (by decide +kernel)
  exact absurd hcharged (by decide +kernel)

end Hub

end Arbitro
