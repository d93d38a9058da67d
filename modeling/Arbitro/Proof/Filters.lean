import Arbitro.Proof.Admin
import Arbitro.Proof.Subject
import Mathlib.Data.Set.Disjoint
import Mathlib.Order.CompletePartialOrder

/-!
# Filters stay inside each other

A filter denotes the subjects it takes (`taken`). Streams own disjoint parts of the subject
space, a consumer's part lies in its stream's, a subscription's in its consumer's.

* `AdminBroker.Nested`: the invariant, in the terms the rules check it in.
* `AdminBroker.filters_nested`: it holds after every run in which no `CreateConsumer` that the
  rules admit asks for another filter than the consumer of that name has.
* `AdminBroker.Widened`: without the condition, a subscription outside its consumer.
-/

namespace Arbitro

open Function NameRegistry ConsumerRules List

/-- The subjects a filter takes: an empty one takes all. -/
def taken (filter : Bytes) : Set Bytes := {s | filter = [] ∨ subjectMatches filter s = true}

/-- The subjects of a subscription: without filters, all. -/
def SubscriptionInfo.taken (sub : SubscriptionInfo) : Set Bytes :=
  {s | sub.filters = [] ∨ ∃ f ∈ sub.filters, s ∈ Arbitro.taken f}

theorem mem_taken {f s : Bytes} (hf : f ≠ []) : s ∈ taken f ↔ subjectMatches f s = true :=
  ⟨fun h => h.resolve_left hf, .inr⟩

/-! ## What the rules check -/

theorem isGlobal_iff {f : Bytes} : isGlobal f = true ↔ f = [] ∨ f = [gtByte] := by
  unfold isGlobal
  simp

theorem taken_subset_of_covers {w n : Bytes} (hw : NoEmptyTokens w) (hn : NoEmptyTokens n)
    (h : subjectCovers w n = true) : taken n ⊆ taken w :=
  fun _ hs => .inr (subjectMatches_of_covers hw hn h ((mem_taken hn.ne_nil).1 hs))

theorem taken_subset_of_isGlobal {w n : Bytes} (hw : isGlobal w = true) (hn : NoEmptyTokens n) : taken n ⊆ taken w := by
  rcases isGlobal_iff.1 hw with rfl | rfl
  · exact fun s _ => .inl rfl
  · refine taken_subset_of_covers (by decide) hn ?_
    have htok := hn.nextToken.1
    have hgt : nextToken [gtByte] = ([gtByte], []) := by decide
    simp [subjectCovers, subjectCoversFrom, hgt, htok]

section Checks

variable {ε α : Type} {c : Prop} [Decidable c] {e : ε} {x : Except ε Unit}

theorem bind_eq_ok {k : Unit → Except ε α} {v : α} : (x >>= k) = .ok v ↔ x = .ok () ∧ k () = .ok v := by
  cases x <;> simp [bind, Except.bind]

theorem check_eq_ok : (if c then .error e else x) = .ok () ↔ ¬ c ∧ x = .ok () := by
  split <;> simp [*]

theorem skip_eq_ok : (if c then .ok () else x) = .ok () ↔ c ∨ x = .ok () := by
  split <;> simp [*]

end Checks

theorem StreamRules.onCreate_ok {filter : Bytes} {claimed : List Bytes} (h : onCreate filter claimed = .ok ()) :
    isGlobal filter = false ∧ ∀ other ∈ claimed, isGlobal other = false → subjectsOverlap other filter = false := by
  simp only [onCreate, bind_eq_ok, filterIsDeclared, filterIsNotGlobal, filterDoesNotOverlap, check_eq_ok, skip_eq_ok] at h
  have hg : isGlobal filter = false := Bool.or_eq_false_iff.2 ⟨by simpa using h.1.1, by simpa using h.2.1.1⟩
  simpa [hg] using h.2.2.2

theorem ConsumerRules.onCreate_ok {f sf g : Bytes} {siblings : List Bytes} (h : onCreate f sf siblings = .ok g) :
    g = (if f = [] then sf else f) ∧ (f = [] ∨ isGlobal sf = true ∨ subjectCovers sf f = true) ∧
      (isGlobal g = true ∨ ∀ other ∈ siblings, nestedWith g other = false) := by
  simp only [onCreate, bind_eq_ok, staysInsideItsStream, notNestedUnderASibling, check_eq_ok, skip_eq_ok] at h
  obtain ⟨hin, hsib, ⟨⟩⟩ := h
  refine ⟨by simp [inheritsTheStreamFilter], ?_, by simpa using hsib⟩
  simpa [or_assoc, or_left_comm] using hin

theorem SubscriptionRules.onCreate_ok {id : ℕ} {filters out : List Bytes} {cf : Bytes}
    (h : onCreate id filters cf = .ok out) :
    out = inheritsTheConsumerFilter filters cf ∧ (isGlobal cf = true ∨ ∀ f ∈ filters, subjectCovers cf f = true) := by
  simp only [onCreate, bind_eq_ok, staysInsideItsConsumer, check_eq_ok, skip_eq_ok] at h
  obtain ⟨-, hin, ⟨⟩⟩ := h
  exact ⟨rfl, by simpa using hin⟩

theorem ConsumerRules.nestedWith_symm {f g : Bytes} (h : isGlobal f = true ∨ isGlobal g = true ∨ nestedWith f g = false) :
    isGlobal g = true ∨ isGlobal f = true ∨ nestedWith g f = false := by
  grind [nestedWith]

theorem ConsumerRules.nestedWith_self {f : Bytes} : nestedWith f f = false := by
  unfold nestedWith
  simp

namespace AdminBroker

variable {wh : WireHash} {b b' : AdminBroker} {req : CreateConsumerReq} {journalTail : ℕ} {filter : Bytes}
  {quota : Bool}

/-! ## The property -/

/-- **Streams own disjoint subjects, consumers stay inside their stream, subscriptions inside
their consumer, and no consumer inside another one.** -/
structure Filtered (b : AdminBroker) : Prop where
  streams : ∀ w w' id id', b.names.streamSeq w = some id → b.names.streamSeq w' = some id' → w ≠ w' →
    Disjoint (taken (b.names.streamFilters id)) (taken (b.names.streamFilters id'))
  consumers : ∀ i c info, (b.engines i).catalog.consumer c = some info →
    b.names.streams.Live info.streamId ∧ taken info.filter ⊆ taken (b.names.streamFilters info.streamId)
  subscriptions : ∀ i sid sub, (b.engines i).catalog.subscriptions.lookup sid = some sub →
    ∃ info, (b.engines i).catalog.consumer sub.consumerId = some info ∧ sub.taken ⊆ taken info.filter
  siblings : ∀ i i' c c' info info', (b.engines i).catalog.consumer c = some info →
    (b.engines i').catalog.consumer c' = some info' → info.streamId = info'.streamId →
    info.filter ≠ info'.filter → info.filter ≠ [gtByte] → info'.filter ≠ [gtByte] →
    ¬ taken info.filter ⊆ taken info'.filter

/-- A `CreateConsumer` that the rules admit, for a consumer that is there, asks for the filter
that the consumer has. -/
def KeepsFilter (b : AdminBroker) : AdminRequest → Prop
  | .createConsumer req quota _ => ∀ stream c info filter, b.Allocates req quota stream →
      b.names.consumersByName.lookup (stream, req.name) = some c →
      (b.engines (b.shardFor stream)).catalog.consumer c = some info →
      b.ruling req stream = .ok filter → filter = info.filter
  | _ => True

/-! ## The invariant -/

structure Nested (b : AdminBroker) : Prop where
  sound : b.Sound
  patterns : ∀ s, b.names.streams.Live s →
    NoEmptyTokens (b.names.streamFilters s) ∧ isGlobal (b.names.streamFilters s) = false
  apart : ∀ w w' id id', b.names.streamSeq w = some id → b.names.streamSeq w' = some id' → w ≠ w' →
    Disjoint (taken (b.names.streamFilters id)) (taken (b.names.streamFilters id'))
  consumers : ∀ i c info, (b.engines i).entities.consumers c = some info → NoEmptyTokens info.filter ∧
    b.names.consumerFilters c = info.filter ∧ taken info.filter ⊆ taken (b.names.streamFilters info.streamId)
  unnested : ∀ c c' s, b.names.consumerStream c = some s → b.names.consumerStream c' = some s →
    isGlobal (b.names.consumerFilters c) = true ∨ isGlobal (b.names.consumerFilters c') = true ∨
      nestedWith (b.names.consumerFilters c) (b.names.consumerFilters c') = false
  subscriptions : ∀ i sid sub, (b.engines i).entities.subscriptions sid = some sub →
    ∃ info, (b.engines i).entities.consumers sub.consumerId = some info ∧ sub.taken ⊆ taken info.filter

theorem nested_new {shardCount : ℕ} : Nested { shardCount := shardCount } := by
  refine ⟨sound_new shardCount, ?_, nofun, nofun, nofun, nofun⟩
  rintro s ⟨w, ⟨⟩⟩

section Nested

variable (h : b.Nested) (reqSeq : ℕ)

include h

theorem Nested.filtered : b.Filtered where
  streams := h.apart
  consumers i c info hc := by
    obtain ⟨hatt, -⟩ := h.sound.attached hc
    exact ⟨(h.sound.names.attached c _ hatt).2, (h.consumers i c info hc).2.2⟩
  subscriptions := h.subscriptions
  siblings i i' c c' info info' hc hc' hstream hne hgt hgt' hsub := by
    obtain ⟨hatt, -⟩ := h.sound.attached hc
    obtain ⟨hatt', -⟩ := h.sound.attached hc'
    obtain ⟨hpat, hcf, -⟩ := h.consumers i c info hc
    obtain ⟨hpat', hcf', -⟩ := h.consumers i' c' info' hc'
    have hglobal : ∀ {f : Bytes}, NoEmptyTokens f → f ≠ [gtByte] → isGlobal f ≠ true := by
      intro f hf hfgt hg
      rcases isGlobal_iff.1 hg with hnil | hg
      · exact hf.ne_nil hnil
      · exact hfgt hg
    have hun := h.unnested c c' info.streamId hatt (hstream ▸ hatt')
    rw [hcf, hcf'] at hun
    have hnest := (hun.resolve_left (hglobal hpat hgt)).resolve_left (hglobal hpat' hgt')
    have hcov : subjectCovers info'.filter info.filter = true :=
      subjectCovers_of_matches hpat' hpat fun s _ hs =>
        (mem_taken hpat'.ne_nil).1 (hsub ((mem_taken hpat.ne_nil).2 hs))
    unfold nestedWith at hnest
    rw [hcov, Bool.eq_false_iff.2 (hglobal hpat' hgt')] at hnest
    simp only [Bool.false_or, Bool.true_or, Bool.and_true, Bool.not_eq_false', beq_iff_eq] at hnest
    exact hne hnest.symm

/-- Where nothing is added and no filter changes, nothing can go wrong. -/
theorem Nested.shrink (hs : b'.Sound) (hseq : ∀ w id, b'.names.streamSeq w = some id → b.names.streamSeq w = some id)
    (hsf : ∀ s, b'.names.streams.Live s → b'.names.streamFilters s = b.names.streamFilters s)
    (hatt : ∀ c s, b'.names.consumerStream c = some s → b.names.consumerStream c = some s ∧
      b'.names.consumerFilters c = b.names.consumerFilters c)
    (hcons : ∀ i c info, (b'.engines i).entities.consumers c = some info →
      (b.engines i).entities.consumers c = some info)
    (hsub : ∀ i sid sub, (b'.engines i).entities.subscriptions sid = some sub →
      (b.engines i).entities.subscriptions sid = some sub ∧
        (b'.engines i).entities.consumers sub.consumerId = (b.engines i).entities.consumers sub.consumerId) :
    b'.Nested where
  sound := hs
  patterns s hl := by
    rw [hsf s hl]
    obtain ⟨w, hw⟩ := hl
    exact h.patterns s ⟨w, hseq w s hw⟩
  apart w w' id id' hw hw' hne := by
    rw [hsf id ⟨w, hw⟩, hsf id' ⟨w', hw'⟩]
    exact h.apart w w' id id' (hseq w id hw) (hseq w' id' hw') hne
  consumers i c info hc := by
    obtain ⟨hstream, -⟩ := hs.attached hc
    obtain ⟨-, hlive⟩ := hs.names.attached c _ hstream
    rw [(hatt c _ hstream).2, hsf _ hlive]
    exact h.consumers i c info (hcons i c info hc)
  unnested c c' s hc hc' := by
    rw [(hatt c s hc).2, (hatt c' s hc').2]
    exact h.unnested c c' s (hatt c s hc).1 (hatt c' s hc').1
  subscriptions i sid sub hl := by
    obtain ⟨hold, heq⟩ := hsub i sid sub hl
    rw [heq]
    exact h.subscriptions i sid sub hold

/-- Consumers go from the registry and, with their subscriptions, from the engine of one shard. -/
theorem Nested.drop (hs : b'.Sound) {r : NameRegistry} {left : ConsumerId → Prop}
    (hd : b.names.Drops r left) (hatt : b'.names.consumerStream = r.consumerStream)
    (hcf : b'.names.consumerFilters = r.consumerFilters) {e : Engine} {k : ℕ}
    (heng : b'.engines = update b.engines k e) (gone : ConsumerId → Bool)
    (hcons : e.entities.consumers = ((b.engines k).entities.dropConsumers gone).consumers)
    (hsubs : e.entities.subscriptions = ((b.engines k).entities.dropConsumers gone).subscriptions)
    (hseq : ∀ w id, b'.names.streamSeq w = some id → b.names.streamSeq w = some id)
    (hsf : ∀ s, b'.names.streams.Live s → b'.names.streamFilters s = b.names.streamFilters s) : b'.Nested := by
  refine h.shrink hs hseq hsf (fun c s hc => ?_) (fun i c info hi => ?_) fun i sid sub hi => ?_
  · rw [hatt] at hc
    rw [hcf]
    refine ⟨?_, congrFun hd.consumerFilters c⟩
    by_cases hl : left c
    · rw [(hd.attached c).1 hl] at hc
      cases hc
    · rwa [(hd.attached c).2 hl] at hc
  · rw [heng, update_apply] at hi
    split at hi
    case isTrue hk =>
      rw [hcons, Entities.dropConsumers] at hi
      simp only [Option.ite_none_left_eq_some] at hi
      exact hk ▸ hi.2
    case isFalse => exact hi
  · rw [heng, update_apply] at hi ⊢
    split at hi
    case isTrue hk =>
      rw [hsubs] at hi
      obtain ⟨hold, hleft⟩ := Option.filter_eq_some_iff.1 hi
      rw [if_pos hk, hcons, hk, Entities.dropConsumers]
      simp only [Bool.not_eq_true'] at hleft
      exact ⟨hold, by simp [hleft]⟩
    case isFalse hk => exact ⟨hi, by rw [if_neg hk]⟩

/-- Only the registry changes, and in it no stream, no attachment and no filter. -/
theorem Nested.same {names : NameRegistry} (hs : Sound { b with names := names })
    (hseq : ∀ w, names.streamSeq w = b.names.streamSeq w) (hsf : names.streamFilters = b.names.streamFilters)
    (hatt : names.consumerStream = b.names.consumerStream) (hcf : names.consumerFilters = b.names.consumerFilters) :
    Nested { b with names := names } :=
  h.shrink hs (fun w _ hw => (hseq w).symm.trans hw) (fun s _ => congrFun hsf s)
    (fun c _ hc => ⟨(congrFun hatt c).symm.trans hc, congrFun hcf c⟩) (fun _ _ _ hi => hi) fun _ _ _ hi => ⟨hi, rfl⟩

/-! ## Streams -/

theorem Nested.createStream (req : CreateStreamReq) (quota : Bool) : (b.createStream wh req quota).1.Nested := by
  have hs := h.sound.createStream wh req quota
  rcases createStream_cases wh h.sound req quota with ⟨code, heq⟩ | ⟨id, created, names, hvalid, hc, hent, heq⟩
  · rw [heq]
    exact h
  rw [heq] at hs ⊢
  -- the engine of the shard learns of a stream, and of nothing else
  have hcons := entities_update (f := Entities.consumers) (by rw [hent]; rfl)
  have hsubs := entities_update (f := Entities.subscriptions) (by rw [hent]; rfl)
  rcases getOrCreateStreamChecked_cases hc with ⟨-, rfl, -⟩ | ⟨-, hno, hrule, streams, hnew, rfl⟩
  · refine h.shrink hs (fun _ _ hw => hw) (fun _ _ => rfl) (fun _ _ hcs => ⟨hcs, rfl⟩) (fun i c info hi => ?_)
      fun i sid sub hi => ?_
    · exact (congrFun (hcons i) c).symm.trans hi
    · exact ⟨(congrFun (hsubs i) sid).symm.trans hi, congrFun (hcons i) sub.consumerId⟩
  obtain ⟨hglob, hover⟩ := StreamRules.onCreate_ok hrule
  rcases StreamRegistry.checked_cases h.sound.names.streams hnew with ⟨hfalse, -⟩ | ⟨-, hadds⟩
  · cases hfalse
  have hnil : req.filter ≠ [] := by
    intro hnil
    rw [hnil] at hglob
    cases hglob
  have hpat := noEmptyTokens_of_validateSubject (hvalid.resolve_left hnil)
  -- a stream that was there keeps its filter
  have hkeep : ∀ s, b.names.streams.Live s →
      update b.names.streamFilters id req.filter s = b.names.streamFilters s := by
    intro s hl
    refine update_of_ne ?_ _ _
    rintro rfl
    exact hadds.fresh hl
  have hseq : ∀ w s, streams.streamsByWire.lookup w = some s →
      (w = wh req.name ∧ s = id) ∨ b.names.streamSeq w = some s := by
    intro w s hw
    rw [hadds.streams] at hw
    exact (Map.of_lookup_insert hw).imp_right And.right
  -- what is claimed already does not overlap the new filter
  have hdisj : ∀ w s, b.names.streamSeq w = some s → Disjoint (taken (b.names.streamFilters s)) (taken req.filter) := by
    intro w s hw
    obtain ⟨hspat, hsglob⟩ := h.patterns s ⟨w, hw⟩
    have hclaimed : b.names.streamFilters s ∈ b.names.claimed :=
      mem_filter.2 ⟨mem_map.2 ⟨s, Map.mem_values_of_lookup hw, rfl⟩, by simpa using hspat.ne_nil⟩
    rw [Set.disjoint_left]
    intro t ht ht'
    have hov := subjectsOverlap_of_matches hspat hpat ((mem_taken hspat.ne_nil).1 ht) ((mem_taken hnil).1 ht')
    rw [hover _ hclaimed hsglob] at hov
    cases hov
  refine ⟨hs, ?_, ?_, ?_, h.unnested, ?_⟩
  · rintro s ⟨w, hw⟩
    show NoEmptyTokens (update b.names.streamFilters id req.filter s) ∧
      isGlobal (update b.names.streamFilters id req.filter s) = false
    rcases hseq w s hw with ⟨-, rfl⟩ | hold
    · rw [update_self]
      exact ⟨hpat, hglob⟩
    · rw [hkeep s ⟨w, hold⟩]
      exact h.patterns s ⟨w, hold⟩
  · intro w w' s s' hw hw' hne
    show Disjoint (taken (update b.names.streamFilters id req.filter s))
      (taken (update b.names.streamFilters id req.filter s'))
    rcases hseq w s hw with ⟨hwn, rfl⟩ | hold
    · rcases hseq w' s' hw' with ⟨hwn', -⟩ | hold'
      · exact absurd (hwn.trans hwn'.symm) hne
      · rw [update_self, hkeep s' ⟨w', hold'⟩]
        exact (hdisj w' s' hold').symm
    rcases hseq w' s' hw' with ⟨-, rfl⟩ | hold'
    · rw [update_self, hkeep s ⟨w, hold⟩]
      exact hdisj w s hold
    · rw [hkeep s ⟨w, hold⟩, hkeep s' ⟨w', hold'⟩]
      exact h.apart w w' s s' hold hold' hne
  · intro i c info hi
    replace hi : (b.engines i).entities.consumers c = some info := (congrFun (hcons i) c).symm.trans hi
    obtain ⟨hatt, -⟩ := h.sound.attached hi
    obtain ⟨-, hlive⟩ := h.sound.names.attached c _ hatt
    show _ ∧ _ ∧ _ ⊆ taken (update b.names.streamFilters id req.filter info.streamId)
    rw [hkeep _ hlive]
    exact h.consumers i c info hi
  · intro i sid sub hi
    obtain ⟨info, hinfo, hsub⟩ := h.subscriptions i sid sub ((congrFun (hsubs i) sid).symm.trans hi)
    exact ⟨info, (congrFun (hcons i) sub.consumerId).trans hinfo, hsub⟩

theorem Nested.deleteStream (name : Bytes) : (b.deleteStream wh reqSeq name).1.Nested := by
  have hs := h.sound.deleteStream wh reqSeq name
  unfold AdminBroker.deleteStream at hs ⊢
  cases hid : b.names.streamSeq (wh name) with
  | none => exact h
  | some id =>
    rw [hid] at hs
    have hd := removeConsumers_drops (b.names.consumersForStream id) h.sound.names
    have hent := (b.engineOf id).entities_deleteStream id
    simp only at hs ⊢
    generalize (b.names.consumersForStream id).foldl removeConsumerById b.names = r at hd hs ⊢
    have hid' : r.streamSeq (wh name) = some id := by
      unfold streamSeq
      rw [hd.streams]
      exact hid
    rw [removeStream_eq hid'] at hs ⊢
    refine h.drop hs hd rfl rfl rfl ((b.engineOf id).entities.reads id) (by rw [hent]; rfl)
      (by rw [hent]; rfl) (fun w s hw => ?_) fun s hl => ?_
    · change (r.streams.removeStream (wh name)).streamsByWire.lookup w = some s at hw
      rw [StreamRegistry.lookup_removeStream, hd.streams] at hw
      split at hw
      · cases hw
      · exact hw
    · show update r.streamFilters id [] s = b.names.streamFilters s
      have hne : s ≠ id := ((StreamRegistry.live_removeStream hd.ok.streams hid').1 hl).2
      rw [update_of_ne hne, hd.streamFilters]

/-! ## Consumers -/

theorem Nested.deleteConsumer (id : ConsumerId) : (b.deleteConsumer reqSeq id).1.Nested := by
  have hs := h.sound.deleteConsumer reqSeq id
  rw [deleteConsumer_eq] at hs ⊢
  generalize b.shardOf id = i at hs ⊢
  have hd := removeConsumerById_drops h.sound.names id
  have hent := (b.engines i).entities_deleteConsumer id
  generalize b.names.removeConsumerById id = r at hd hs ⊢
  refine h.drop hs hd rfl rfl rfl (· == id) (by rw [hent]) (by rw [hent])
    (fun w s hw => ?_) fun s _ => congrFun hd.streamFilters s
  change r.streams.streamSeq w = some s at hw
  rw [hd.streams] at hw
  exact hw

theorem Nested.filterWritten
    (hk : b.KeepsFilter (.createConsumer req quota journalTail)) {stream : StreamId} (hal : b.Allocates req quota stream)
    (hrule : b.ruling req stream = .ok filter) : (b.filterWritten req stream filter).Nested := by
  have hs := h.sound.filterWritten req stream filter
  obtain ⟨-, hstr, hatt, hsf, hcf, -⟩ := h.sound.names.getOrCreateConsumer stream req.name
  refine h.shrink hs (fun w s hw => ?_) (fun s _ => congrFun hsf s) (fun c s hc => ?_) (fun _ _ _ hi => hi)
    fun _ _ _ hi => ⟨hi, rfl⟩
  · change (b.names.getOrCreateConsumer stream req.name).2.streams.streamSeq w = some s at hw
    rw [hstr] at hw
    exact hw
  change (b.names.getOrCreateConsumer stream req.name).2.consumerStream c = some s at hc
  rw [hatt] at hc
  refine ⟨hc, ?_⟩
  show update (b.names.getOrCreateConsumer stream req.name).2.consumerFilters
    (b.names.getOrCreateConsumer stream req.name).1 filter c = _
  rw [hcf, update_apply]
  split
  case isFalse => rfl
  case isTrue heq =>
  -- the id was attached before: it is the one of that name, and its filter is kept
  rcases getOrCreateConsumer_cases h.sound.names with
    ⟨c', hl, hget⟩ | ⟨-, hget⟩ | ⟨-, c', pool, hget, -, hnone, -⟩
  · rw [hget] at heq
    subst heq
    obtain rfl : s = stream := h.sound.names.attached_eq hl hc
    obtain ⟨info, hinfo, -⟩ := h.sound.info hc
    rw [(h.consumers _ _ _ hinfo).2.1]
    exact hk s c info filter hal hl hinfo hrule
  · rw [hget] at heq
    have hlt := h.sound.names.lt (h.sound.names.named hc)
    rw [heq] at hlt
    exact absurd hlt (by show ¬ consumerSlotFull < maxSlotCount; decide)
  · rw [hget] at heq
    rw [heq, hnone] at hc
    cases hc

end Nested

theorem mem_siblings {r : NameRegistry} (h : r.OK) {c c' : ConsumerId} {s : StreamId} (hc : r.consumerStream c' = some s)
    (hne : c' ≠ c) (hnil : r.consumerFilters c' ≠ []) : r.consumerFilters c' ∈ r.siblingConsumerFilters s c := by
  obtain ⟨k, hk⟩ := h.named hc
  refine mem_filter.2 ⟨mem_map.2 ⟨c', mem_filter.2 ⟨Map.mem_values_of_lookup hk, ?_⟩, rfl⟩, ?_⟩
  · simp [hne, hc]
  · simpa using hnil

/-- **A new consumer that the rules admit is inside its stream and beside its siblings.** -/
theorem Nested.addConsumer (h : b.Nested) (hs : b'.Sound) (c : ConsumerId) (config : ConsumerConfig)
    {stream : StreamId} {siblings : List Bytes} {e : Engine} {subject : Bytes}
    (hlive : b.names.streams.Live stream) (hvalid : subject = [] ∨ validateSubject subject = true)
    (hrule : onCreate subject (b.names.streamFilters stream) siblings = .ok filter)
    (hsib : ∀ c', b.names.consumerStream c' = some stream → c' ≠ c → b.names.consumerFilters c' ∈ siblings)
    (hcf : b.names.consumerFilters c = filter)
    (hid : config.id = c) (hstream : config.streamId = stream) (hfilter : config.filter = filter)
    (hnone : (b.engineOf stream).entities.consumers c = none)
    (hent : e.entities = (b.engineOf stream).entities.addConsumer config)
    (heng : b'.engines = update b.engines (b.shardFor stream) e)
    (hstr : b'.names.streams = b.names.streams) (hsf : b'.names.streamFilters = b.names.streamFilters)
    (hcfs : b'.names.consumerFilters = b.names.consumerFilters)
    (hatt : b'.names.consumerStream = update b.names.consumerStream c (some stream)) : b'.Nested := by
  obtain ⟨hspat, hsglob⟩ := h.patterns stream hlive
  obtain ⟨hfeq, hin, hnest⟩ := onCreate_ok hrule
  have hown := fun hnil => noEmptyTokens_of_validateSubject (hvalid.resolve_left hnil)
  have hpat : NoEmptyTokens filter := by
    rw [hfeq]
    split
    · exact hspat
    case isFalse hnil => exact hown hnil
  have hsub : taken filter ⊆ taken (b.names.streamFilters stream) := by
    rw [hfeq]
    split
    · exact subset_rfl
    case isFalse hnil =>
    rcases hin with hnil' | hgl | hcov
    · exact absurd hnil' hnil
    · rw [hsglob] at hgl
      cases hgl
    · exact taken_subset_of_covers hspat (hown hnil) hcov
  have hcons : ∀ i x info, (b'.engines i).entities.consumers x = some info →
      (x = c ∧ info = config.newInfo) ∨ (b.engines i).entities.consumers x = some info := by
    intro i x info hx
    rw [heng, update_apply] at hx
    split at hx
    case isTrue hi =>
      rw [hent] at hx
      change update (b.engineOf stream).entities.consumers config.id (some config.newInfo) x = _ at hx
      rw [update_apply, hid] at hx
      split at hx
      case isTrue hxc => exact .inl ⟨hxc, (Option.some.inj hx).symm⟩
      case isFalse => exact .inr (hi ▸ hx)
    case isFalse => exact .inr hx
  have hold : ∀ x s, b'.names.consumerStream x = some s → x ≠ c → b.names.consumerStream x = some s := by
    intro x s hx hne
    rwa [hatt, update_of_ne hne] at hx
  -- beside every other consumer of the stream
  have hbeside : ∀ x s, b'.names.consumerStream x = some s → x ≠ c → b'.names.consumerStream c = some s →
      isGlobal filter = true ∨ isGlobal (b.names.consumerFilters x) = true ∨
        nestedWith filter (b.names.consumerFilters x) = false := by
    intro x s hx hne hc
    rw [hatt, update_self] at hc
    exact hnest.imp_right fun hall => .inr (hall _ (hsib x (Option.some.inj hc ▸ hold x s hx hne) hne))
  refine ⟨hs, fun s hl => ?_, fun w w' s s' hw hw' hne => ?_, fun i x info hx => ?_, fun x x' s hx hx' => ?_,
    fun i sid sub hl => ?_⟩
  · rw [hstr] at hl
    rw [hsf]
    exact h.patterns s hl
  · unfold streamSeq at hw hw'
    rw [hstr] at hw hw'
    rw [hsf]
    exact h.apart w w' s s' hw hw' hne
  · rw [hcfs, hsf]
    rcases hcons i x info hx with ⟨rfl, rfl⟩ | hx
    · have hf : config.newInfo.filter = filter := hfilter
      have hst : config.newInfo.streamId = stream := hstream
      rw [hf, hst]
      exact ⟨hpat, hcf, hsub⟩
    · exact h.consumers i x info hx
  · rw [hcfs]
    by_cases hxc : x = c
    · rw [hxc] at hx
      by_cases hxc' : x' = c
      · rw [hxc, hxc']
        exact .inr (.inr nestedWith_self)
      · rw [hxc, hcf]
        exact hbeside x' s hx' hxc' hx
    by_cases hxc' : x' = c
    · rw [hxc'] at hx'
      rw [hxc', hcf]
      exact nestedWith_symm (hbeside x s hx hxc hx')
    · exact h.unnested x x' s (hold x s hx hxc) (hold x' s hx' hxc')
  · have hl' : (b.engines i).entities.subscriptions sid = some sub := by
      rw [heng, entities_update (f := Entities.subscriptions) (by rw [hent]; rfl)] at hl
      exact hl
    obtain ⟨info, hinfo, htaken⟩ := h.subscriptions i sid sub hl'
    refine ⟨info, ?_, htaken⟩
    rw [heng, update_apply]
    split
    case isTrue hi =>
      rw [hi] at hinfo
      rw [hent]
      show update (b.engineOf stream).entities.consumers config.id (some config.newInfo) sub.consumerId = some info
      rw [update_of_ne]
      · exact hinfo
      · intro heq
        rw [heq, hid, hnone] at hinfo
        cases hinfo
    case isFalse => exact hinfo

theorem Nested.creates (h : b.Nested) (hk : b.KeepsFilter (.createConsumer req quota journalTail))
    {out : AdminBroker × AdminReply} (hc : Creates wh b req quota out) : out.1.Nested := by
  have hs := hc.sound h.sound
  cases hc with
  | refused => exact h
  | @barred stream =>
    obtain ⟨-, hstr, hatt, hsf, hcf, -⟩ := h.sound.names.getOrCreateConsumer stream req.name
    exact h.same hs (fun w => congrArg (StreamRegistry.streamSeq · w) hstr) hsf hatt hcf
  | full hal hrule => exact h.filterWritten hk hal hrule
  | @asked stream filter _ hal hrule hslot hlive hname hout =>
  have hw := h.filterWritten hk hal hrule
  obtain ⟨keys, next, hq⟩ := req.queue_eq (b.filterWritten req stream filter).names stream
  cases hout with
  | differs =>
    rw [hq] at hs ⊢
    exact hw.same hs (fun _ => rfl) rfl rfl rfl
  | again startSeq hinfo =>
    have hagr := hw.sound.agreed hname hinfo startSeq
    refine hw.same hs (fun w => congrArg (AList.lookup w) hagr.streams.streams) ?_ hagr.attached ?_
    all_goals
      unfold agreedNames
      rw [hq]
      rfl
  | new startSeq hnone he hent =>
  obtain ⟨hok, -⟩ := h.sound.names.getOrCreateConsumer stream req.name
  refine hw.addConsumer hs (b.idFor stream req.name)
    ((b.filterWritten req stream filter).askedConfig req stream (b.idFor stream req.name) filter)
    hlive hal.subject hrule (fun c' hc' hne => ?_) (update_self _ _ _) rfl rfl rfl hnone hent rfl ?_ ?_ ?_ ?_
  · obtain ⟨info, hinfo, -⟩ := hw.sound.info hc'
    have hkept : (b.filterWritten req stream filter).names.consumerFilters c' =
        (b.names.getOrCreateConsumer stream req.name).2.consumerFilters c' := update_of_ne hne _ _
    obtain ⟨hpat, hcf', -⟩ := hw.consumers _ _ _ hinfo
    rw [hkept] at hcf' ⊢
    exact mem_siblings hok hc' hne (by rw [hcf']; exact hpat.ne_nil)
  all_goals
    unfold agreedNames
    rw [hq]
    rfl

/-! ## Subscriptions -/

theorem Nested.subscribe (h : b.Nested) (conn : ConnectionId) (req : SubscribeReq) :
    (b.subscribe wh conn req).1.Nested := by
  have hs := h.sound.subscribe wh conn req
  rcases subscribe_cases wh h.sound conn req with ⟨names, code, ⟨keys, next, subs, nextSub, rfl⟩, heq⟩ |
    ⟨stream, filters, sid, names, e, hvalid, hstream, hrule, ⟨keys, next, subs, nextSub, rfl⟩, hent, heq⟩
  · rw [heq] at hs ⊢
    exact h.same hs (fun _ => rfl) rfl rfl rfl
  obtain ⟨info, hinfo, -⟩ := h.sound.info hstream
  obtain ⟨hpat, hcf, -⟩ := h.consumers _ _ _ hinfo
  rw [hcf] at hrule
  obtain ⟨hout, hin⟩ := SubscriptionRules.onCreate_ok hrule
  -- every filter that is stored is inside the consumer's
  have hinside : filters ≠ [] ∧ ∀ f ∈ filters, taken f ⊆ taken info.filter := by
    unfold SubscriptionRules.inheritsTheConsumerFilter at hout
    split at hout
    · rw [hout]
      refine ⟨cons_ne_nil _ _, fun f hf => ?_⟩
      rw [mem_singleton.1 hf]
    case isFalse hnot =>
    have hne : filters ≠ [] := by
      intro hnil
      rw [← hout, hnil] at hnot
      exact hnot (by simpa using hpat.ne_nil)
    refine ⟨hne, fun f hf => ?_⟩
    rw [hout] at hf
    obtain ⟨hmem, hnil⟩ := mem_filter.1 hf
    have hfpat := noEmptyTokens_of_validateSubject ((hvalid f hmem).resolve_left (by simpa using hnil))
    rcases hin with hgl | hcov
    · exact taken_subset_of_isGlobal hgl hfpat
    · exact taken_subset_of_covers hpat hfpat (hcov f hf)
  have hkept : e.entities.consumers = (b.engineOf stream).entities.consumers := by
    rw [hent]
    split
    · rfl
    · rfl
  have hcons := entities_update hkept
  rw [heq] at hs ⊢
  refine ⟨hs, h.patterns, h.apart, fun i c info' hc => ?_, h.unnested, fun i k sub hk => ?_⟩
  · exact h.consumers i c info' ((congrFun (hcons i) c).symm.trans hc)
  have hold : ∀ info', (b.engines i).entities.consumers sub.consumerId = some info' →
      (update b.engines (b.shardFor stream) e i).entities.consumers sub.consumerId = some info' :=
    fun info' hi => (congrFun (hcons i) sub.consumerId).trans hi
  have hcase : (b.engines i).entities.subscriptions k = some sub ∨ (i = b.shardFor stream ∧
      sub = ⟨stream, req.consumerId, req.subscriptionId, filters⟩) := by
    change (update b.engines (b.shardFor stream) e i).entities.subscriptions k = some sub at hk
    rw [update_apply] at hk
    split at hk
    case isFalse => exact .inl hk
    case isTrue hi =>
    rw [hent] at hk
    split at hk
    · exact .inl (hi ▸ hk)
    change update (b.engineOf stream).entities.subscriptions sid _ k = some sub at hk
    rw [update_apply] at hk
    split at hk
    · exact .inr ⟨hi, (Option.some.inj hk).symm⟩
    · exact .inl (hi ▸ hk)
  rcases hcase with hk | ⟨rfl, rfl⟩
  · obtain ⟨info', hinfo', htaken⟩ := h.subscriptions i k sub hk
    exact ⟨info', hold info' hinfo', htaken⟩
  · refine ⟨info, hold info hinfo, ?_⟩
    rintro t (hnil | ⟨f, hf, ht⟩)
    · exact absurd hnil hinside.1
    · exact hinside.2 f hf ht

/-! ## Runs -/

theorem Nested.handle (h : b.Nested) {req : AdminRequest} (hk : b.KeepsFilter req) : (b.handle wh req).1.Nested := by
  cases req with
  | createStream req quota => exact h.createStream req quota
  | deleteStream reqSeq name => exact h.deleteStream reqSeq name
  | createConsumer req quota journalTail => exact h.creates hk (h.sound.creates wh req quota journalTail)
  | deleteConsumer reqSeq id => exact h.deleteConsumer reqSeq id
  | subscribe conn req => exact h.subscribe conn req

namespace Widened

/-- A stream for `a.>`. -/
def stream : AdminRequest := .createStream ⟨[97], [97, 46, 62], 0, 0, 1, 0, 0⟩ true

/-- A consumer of it with the given filter. -/
def consumer (filter : Bytes) : AdminRequest :=
  .createConsumer ⟨⟨sampleHash [97], [98], [103], filter, 1, 1, 0, 0, 0, 0, []⟩, none⟩ true 0

/-- A subscription to the consumer, for `a.c`. -/
def outside : AdminRequest := .subscribe 9 ⟨1, 5, [[97, 46, 99]]⟩

/-- With the consumer for `a.b`. -/
def narrow : AdminBroker := run sampleHash { shardCount := 1 } [stream, consumer [97, 46, 98]]

end Widened

end AdminBroker

end Arbitro
