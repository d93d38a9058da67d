import Arbitro.Proof.Lifecycle
import Arbitro.Server.NameRegistry

/-!
# The ids of the name registry

* `NameRegistry.OK`: streams and consumers have ids of their own, in step with the pools, and a
  consumer that is attached to a stream has a name on it.
* `NameRegistry.getOrCreateConsumer_cases`, `NameRegistry.Drops`: what handing out and taking
  back a consumer id changes.
* `NameRegistry.Agrees`: two registries with the same ids. Operations keep it.
-/

namespace Arbitro

open Function List

namespace NameRegistry

variable {r r' : NameRegistry} {c : ConsumerId} {s : StreamId} {wire : SubjectHash} (cs : List ConsumerId)
  {id : StreamId} {name : Bytes}

/-- The id is some consumer's. -/
def Named (r : NameRegistry) (c : ConsumerId) : Prop := ∃ k, r.consumersByName.lookup k = some c

structure OK (r : NameRegistry) : Prop where
  streams : r.streams.OK
  inj : ∀ k k' c, r.consumersByName.lookup k = some c → r.consumersByName.lookup k' = some c → k = k'
  pool : r.consumerPool.Holds r.Named
  max : r.consumerPool.maxSlots = maxSlotCount
  attached : ∀ c s, r.consumerStream c = some s →
    (∃ name, r.consumersByName.lookup (s, name) = some c) ∧ r.streams.Live s

/-- The same ids; what else is known of the entities may differ. -/
structure Agrees (r r' : NameRegistry) : Prop where
  streams : r.streams.Agrees r'.streams
  consumers : r.consumersByName = r'.consumersByName
  pool : r.consumerPool = r'.consumerPool
  attached : r.consumerStream = r'.consumerStream

theorem Agrees.refl (r : NameRegistry) : r.Agrees r := ⟨⟨rfl, rfl⟩, rfl, rfl, rfl⟩

theorem Agrees.symm (h : r.Agrees r') : r'.Agrees r :=
  ⟨⟨h.streams.streams.symm, h.streams.pool.symm⟩, h.consumers.symm, h.pool.symm, h.attached.symm⟩

theorem Agrees.streamSeq (h : r.Agrees r') (wire : SubjectHash) : r.streamSeq wire = r'.streamSeq wire :=
  congrArg (AList.lookup wire) h.streams.streams

theorem Agrees.trans {r'' : NameRegistry} (h : r.Agrees r') (h' : r'.Agrees r'') : r.Agrees r'' :=
  ⟨⟨h.streams.streams.trans h'.streams.streams, h.streams.pool.trans h'.streams.pool⟩, h.consumers.trans h'.consumers,
    h.pool.trans h'.pool, h.attached.trans h'.attached⟩

theorem Agrees.ok (h : r.Agrees r') (hr : r'.OK) : r.OK := by
  have hnamed : r.Named = r'.Named := by
    unfold Named
    rw [h.consumers]
  refine ⟨h.streams.ok hr.streams, ?_, ?_, ?_, ?_⟩
  · rw [h.consumers]
    exact hr.inj
  · rw [h.pool, hnamed]
    exact hr.pool
  · rw [h.pool]
    exact hr.max
  · intro c s hc
    rw [h.attached] at hc
    obtain ⟨hname, hlive⟩ := hr.attached c s hc
    rw [h.consumers]
    exact ⟨hname, h.streams.live.2 hlive⟩

theorem ok_new : ({} : NameRegistry).OK := by
  refine ⟨⟨by rintro w w' id ⟨⟩, ⟨by rintro s ⟨w, ⟨⟩⟩, by rintro s ⟨⟩, nodup_nil, rfl, Nat.zero_le _⟩, rfl⟩,
    by rintro k k' c ⟨⟩, ⟨by rintro c ⟨k, ⟨⟩⟩, by rintro s ⟨⟩, nodup_nil, rfl, ?_⟩, rfl, by rintro c s ⟨⟩⟩
  decide

theorem OK.named (h : r.OK) (hc : r.consumerStream c = some s) : r.Named c := by
  obtain ⟨⟨name, hl⟩, -⟩ := h.attached c s hc
  exact ⟨_, hl⟩

theorem OK.lt (h : r.OK) (hc : r.Named c) : c < maxSlotCount :=
  h.max ▸ (h.pool.used c hc).1.trans_le h.pool.room

theorem OK.attached_eq (h : r.OK) {s' : StreamId}
    (hc : r.consumersByName.lookup (s, name) = some c) (ha : r.consumerStream c = some s') : s' = s := by
  obtain ⟨⟨name', hl⟩, -⟩ := h.attached c s' ha
  exact congrArg Prod.fst (h.inj _ _ c hl hc)

/-! ## Handing out a consumer id -/

/-- **What `get_or_create_consumer` can do.** -/
theorem getOrCreateConsumer_cases (h : r.OK) {stream : StreamId} :
    (∃ c, r.consumersByName.lookup (stream, name) = some c ∧ r.getOrCreateConsumer stream name = (c, r)) ∨
    (r.consumersByName.lookup (stream, name) = none ∧ r.getOrCreateConsumer stream name = (consumerSlotFull, r)) ∨
    (r.consumersByName.lookup (stream, name) = none ∧ ∃ c pool, r.getOrCreateConsumer stream name =
        (c, { r with consumersByName := r.consumersByName.insert (stream, name) c, consumerPool := pool }) ∧
      c < maxSlotCount ∧ r.consumerStream c = none ∧
      NameRegistry.OK { r with consumersByName := r.consumersByName.insert (stream, name) c, consumerPool := pool }) := by
  unfold getOrCreateConsumer
  cases hl : r.consumersByName.lookup (stream, name) with
  | some c => exact .inl ⟨c, rfl, rfl⟩
  | none =>
    right
    cases ha : r.consumerPool.alloc with
    | none => exact .inl ⟨rfl, rfl⟩
    | some a =>
      obtain ⟨⟨c, g⟩, pool⟩ := a
      obtain ⟨hfresh, hlt, hmax, hholds⟩ := h.pool.alloc ha
      have hnone : r.consumerStream c = none := by
        cases hc : r.consumerStream c with
        | none => rfl
        | some s => exact absurd (h.named hc) hfresh
      refine .inr ⟨rfl, c, pool, rfl, h.max ▸ hlt, hnone,
        ⟨h.streams, Map.Unique.insert h.inj hfresh, ?_, hmax.trans h.max, fun x s hx => ?_⟩⟩
      · convert hholds using 1
        exact funext fun x => propext (Map.exists_lookup_insert hl)
      · obtain ⟨⟨name', hname⟩, hlive⟩ := h.attached x s hx
        exact ⟨⟨name', Map.lookup_insert_of hl hname⟩, hlive⟩

/-- What it leaves as it was, and where the id is filed. -/
theorem OK.getOrCreateConsumer (h : r.OK) (stream : StreamId) (name : Bytes) :
    (r.getOrCreateConsumer stream name).2.OK ∧ (r.getOrCreateConsumer stream name).2.streams = r.streams ∧
      (r.getOrCreateConsumer stream name).2.consumerStream = r.consumerStream ∧
      (r.getOrCreateConsumer stream name).2.streamFilters = r.streamFilters ∧
      (r.getOrCreateConsumer stream name).2.consumerFilters = r.consumerFilters ∧
      ((r.getOrCreateConsumer stream name).1 = consumerSlotFull ∨
        (r.getOrCreateConsumer stream name).2.consumersByName.lookup (stream, name) =
          some (r.getOrCreateConsumer stream name).1) := by
  rcases getOrCreateConsumer_cases h with ⟨c, hl, heq⟩ | ⟨-, heq⟩ | ⟨-, c, pool, heq, -, -, hok⟩
  · rw [heq]
    exact ⟨h, rfl, rfl, rfl, rfl, .inr hl⟩
  · rw [heq]
    exact ⟨h, rfl, rfl, rfl, rfl, .inl rfl⟩
  · rw [heq]
    refine ⟨hok, rfl, rfl, rfl, rfl, .inr ?_⟩
    rw [Map.lookup_insert_eq, if_pos rfl]

theorem Agrees.getOrCreateConsumer (h : r.Agrees r') (stream : StreamId) (name : Bytes) :
    (r.getOrCreateConsumer stream name).1 = (r'.getOrCreateConsumer stream name).1 ∧
      (r.getOrCreateConsumer stream name).2.Agrees (r'.getOrCreateConsumer stream name).2 := by
  unfold NameRegistry.getOrCreateConsumer
  rw [h.consumers, h.pool]
  split
  · exact ⟨rfl, h⟩
  split
  · exact ⟨rfl, h⟩
  · exact ⟨rfl, ⟨h.streams, rfl, rfl, h.attached⟩⟩

/-! ## Taking one back -/

/-- Consumers are gone, and nothing else is. -/
structure Drops (r r' : NameRegistry) (gone : ConsumerId → Prop) : Prop where
  ok : r'.OK
  streams : r'.streams = r.streams
  attached : ∀ c, (gone c → r'.consumerStream c = none) ∧ (¬ gone c → r'.consumerStream c = r.consumerStream c)
  streamFilters : r'.streamFilters = r.streamFilters
  consumerFilters : r'.consumerFilters = r.consumerFilters

theorem Drops.refl (h : r.OK) : r.Drops r fun _ => False :=
  ⟨h, rfl, fun _ => ⟨False.elim, fun _ => rfl⟩, rfl, rfl⟩

theorem removeConsumerById_drops (h : r.OK) (c : ConsumerId) : r.Drops (r.removeConsumerById c) (· = c) := by
  unfold removeConsumerById
  cases hf : r.consumersByName.entries.find? fun e => e.2 == c with
  | none =>
    have hnone : r.consumerStream c = none := by
      cases hc : r.consumerStream c with
      | none => rfl
      | some s =>
        obtain ⟨k, hk⟩ := h.named hc
        exact absurd (AList.mem_lookup_iff.1 hk) fun hmem => by simpa using find?_eq_none.1 hf _ hmem
    refine ⟨h, rfl, fun x => ⟨?_, fun _ => rfl⟩, rfl, rfl⟩
    rintro rfl
    exact hnone
  | some e =>
    obtain ⟨k, c'⟩ := e
    have heq : c' = c := by simpa using find?_some hf
    subst heq
    have hk : r.consumersByName.lookup k = some c' := AList.mem_lookup_iff.2 (mem_of_find?_eq_some hf)
    refine ⟨⟨h.streams, Map.Unique.erase h.inj, ?_, ?_, ?_⟩, rfl, fun x => ⟨?_, ?_⟩, rfl, rfl⟩
    · convert h.pool.release _ using 1
      exact funext fun x => propext (Map.Unique.exists_lookup_erase h.inj hk)
    · show (r.consumerPool.release c').maxSlots = _
      unfold IdPool.release IdPool.free
      split <;> exact h.max
    · intro x s hx
      change update r.consumerStream c' none x = some s at hx
      rw [update_apply] at hx
      split at hx
      · cases hx
      case isFalse hne =>
      obtain ⟨⟨name, hname⟩, hlive⟩ := h.attached x s hx
      exact ⟨⟨name, Map.lookup_erase_of hk hname hne⟩, hlive⟩
    · rintro rfl
      exact update_self _ _ _
    · intro hne
      exact update_of_ne hne _ _

theorem removeConsumers_drops {r : NameRegistry} (h : r.OK) : r.Drops (cs.foldl removeConsumerById r) (· ∈ cs) := by
  induction cs generalizing r with
  | nil =>
    simpa using Drops.refl h
  | cons c cs ih =>
    have hone := removeConsumerById_drops h c
    have hrest := ih hone.ok
    refine ⟨hrest.ok, hrest.streams.trans hone.streams, fun x => ⟨fun hx => ?_, fun hx => ?_⟩,
      hrest.streamFilters.trans hone.streamFilters, hrest.consumerFilters.trans hone.consumerFilters⟩
    · rcases mem_cons.1 hx with rfl | hx
      · by_cases hmem : x ∈ cs
        · exact (hrest.attached x).1 hmem
        · exact ((hrest.attached x).2 hmem).trans ((hone.attached x).1 rfl)
      · exact (hrest.attached x).1 hx
    · rw [mem_cons, not_or] at hx
      exact ((hrest.attached x).2 hx.2).trans ((hone.attached x).2 hx.1)

theorem mem_consumersForStream (h : r.OK) : c ∈ r.consumersForStream s ↔ r.consumerStream c = some s := by
  unfold consumersForStream
  rw [mem_filter, mem_range, beq_iff_eq]
  exact ⟨fun hc => hc.2, fun hc => ⟨(h.pool.used c (h.named hc)).1, hc⟩⟩

theorem Agrees.removeConsumerById (h : r.Agrees r') (c : ConsumerId) :
    (r.removeConsumerById c).Agrees (r'.removeConsumerById c) := by
  unfold NameRegistry.removeConsumerById
  rw [h.consumers]
  split
  · exact h
  · exact ⟨h.streams, rfl, by rw [h.pool], by rw [h.attached]⟩

theorem Agrees.consumersForStream (h : r.Agrees r') (s : StreamId) :
    r.consumersForStream s = r'.consumersForStream s := by
  unfold NameRegistry.consumersForStream
  rw [h.pool, h.attached]

/-! ## Streams -/

theorem removeStream_eq (hid : r.streamSeq wire = some id) :
    r.removeStream wire = { r with
      streams := r.streams.removeStream wire
      streamsIdempotencyWindowMs := update r.streamsIdempotencyWindowMs id 0
      streamsReplicas := update r.streamsReplicas id 0
      streamFilters := update r.streamFilters id [] } := by
  unfold NameRegistry.removeStream
  rw [hid]

theorem lookup_name_removeStream (hid : r.streamSeq wire = some id) {w : SubjectHash} :
    (r.removeStream wire).streams.streamsNameByWire.lookup w =
      if w = wire then none else r.streams.streamsNameByWire.lookup w := by
  rw [removeStream_eq hid, StreamRegistry.removeStream, show r.streams.streamsByWire.lookup wire = some id from hid]
  exact Map.lookup_erase_eq _ _

theorem OK.removeStream (h : r.OK) (hid : r.streamSeq wire = some id)
    (hfree : ∀ c, r.consumerStream c ≠ some id) : (r.removeStream wire).OK := by
  rw [removeStream_eq hid]
  refine ⟨h.streams.removeStream hid, h.inj, h.pool, h.max, fun c s hc => ?_⟩
  obtain ⟨hname, hlive⟩ := h.attached c s hc
  refine ⟨hname, (StreamRegistry.live_removeStream h.streams hid).2 ⟨hlive, ?_⟩⟩
  rintro rfl
  exact hfree c hc

theorem Agrees.removeStream (h : r.Agrees r') (wire : SubjectHash) : (r.removeStream wire).Agrees (r'.removeStream wire) := by
  unfold NameRegistry.removeStream NameRegistry.streamSeq StreamRegistry.streamSeq
  rw [h.streams.streams]
  split
  · exact h
  · exact ⟨h.streams.removeStream wire, h.consumers, h.pool, h.attached⟩

theorem OK.setConsumerStream (h : r.OK)
    (hc : r.consumersByName.lookup (s, name) = some c) (hs : r.streams.Live s) : (r.setConsumerStream c s).OK := by
  refine ⟨h.streams, h.inj, h.pool, h.max, fun x t hx => ?_⟩
  change update r.consumerStream c (some s) x = some t at hx
  rw [update_apply] at hx
  split at hx
  case isTrue heq =>
    obtain rfl := Option.some.inj hx
    exact ⟨⟨name, heq ▸ hc⟩, hs⟩
  case isFalse => exact h.attached x t hx

end NameRegistry

end Arbitro
