import Arbitro.Proof.Register
import Arbitro.Proof.Mirror
import Arbitro.Proof.Cycle

/-!
# Whom the drain finds for a subject

* `Catalog.Registers`: the match table of every stream serves the stream's subscriptions,
  and their entries name the connections they are bound to. Every catalog operation keeps
  it (`Registers.step`).
* `recipients_exact`: in a snapshot published after any run, the drain's lookup finds
  every subscription that has no filter or a matching one, once.
-/

namespace Arbitro

open Catalog MatchTable List Option

/-! ## The catalog's tables -/

namespace Catalog

variable {wh : WireHash} {S : Set Bytes} {cat cat' : Catalog} {sid : SubscriptionId}

/-- The connection of a subscription's live binding, 0 if it has none. -/
def Connects (cat : Catalog) (sid : SubscriptionId) (conn : ConnectionId) : Prop :=
  (∃ k b, cat.binding k = some b ∧ b.subscriptionId = sid ∧ b.connectionId = conn) ∨
    ((∀ k b, cat.binding k = some b → b.subscriptionId ≠ sid) ∧ conn = 0)

/-- The table of a stream, an empty one where there is none. -/
def tableOf (cat : Catalog) (st : StreamId) : MatchTable := (cat.matchTable st).getD .new

/-- The registrations are the stream's subscriptions, with the connections they are bound
to. -/
structure Describes (cat : Catalog) (st : StreamId) (regs : List Registration) : Prop where
  sound : ∀ r ∈ regs, ∃ info, cat.subscriptions.lookup r.sid = some info ∧ info.streamId = st ∧
    info.filters = r.filters ∧ cat.Connects r.sid r.entry.connectionId
  complete : ∀ sid info, cat.subscriptions.lookup sid = some info → info.streamId = st → ∃ r ∈ regs, r.sid = sid

/-- **What a run keeps**: the table of every stream serves its subscriptions. -/
structure Registers (wh : WireHash) (S : Set Bytes) (cat : Catalog) : Prop where
  named : Index.Names Binding.subscriptionId cat.bySubscription cat.bindings
  bound : ∀ k b, cat.binding k = some b →
    ∃ info, cat.subscriptions.lookup b.subscriptionId = some info ∧ info.streamId = b.streamId
  stored : ∀ sid info, cat.subscriptions.lookup sid = some info → (cat.matchTable info.streamId).isSome
  tables : ∀ st, ∃ regs, (cat.tableOf st).Serves wh S regs ∧ cat.Describes st regs

theorem registers_empty : ({} : Catalog).Registers wh S where
  named := fun _ _ => ⟨nofun, nofun⟩
  bound := nofun
  stored := nofun
  tables := fun _ => ⟨[], serves_new, ⟨nofun, nofun⟩⟩

/-! ### What the operations do to a table -/

variable (cat) (id st : StreamId) {f : MatchTable → MatchTable} (conn : ConnectionId)

theorem matchTable_modify : (cat.modifyMatchTable id f).matchTable st =
      if st = id then (cat.matchTable id).map f else cat.matchTable st :=
  Dense.get_modify none (Option.map f) st (.inl rfl)

theorem tableOf_modify (hnew : f .new = .new) :
    (cat.modifyMatchTable id f).tableOf st = if st = id then f (cat.tableOf id) else cat.tableOf st := by
  unfold tableOf
  rw [matchTable_modify]
  split
  · cases cat.matchTable id with
    | none => exact hnew.symm
    | some mt => rfl
  · rfl

theorem matchTable_upsert : (cat.upsertMatchTable id f).matchTable st =
      if st = id then some (f (cat.tableOf id)) else cat.matchTable st :=
  Dense.get_update none (by omega) cat.matchTables id st _

theorem tableOf_upsert :
    (cat.upsertMatchTable id f).tableOf st = if st = id then f (cat.tableOf id) else cat.tableOf st := by
  unfold tableOf
  rw [matchTable_upsert]
  split <;> rfl

theorem subscriptions_retireBinding (id : BindingId) (ev : DeltaEvents) :
    (cat.retireBinding id ev).1.subscriptions = cat.subscriptions := by
  unfold retireBinding
  cases cat.binding id with
  | none => rfl
  | some b => simp only [decDemand_eq]; rfl

variable {cat} (h : cat.Registers wh S)

include h

/-- A change that touches no subscription, leaves every binding its keys, and no table
serving others than before. -/
theorem Registers.keep (hsubs : cat'.subscriptions = cat.subscriptions)
    (hnamed : Index.Names Binding.subscriptionId cat'.bySubscription cat'.bindings)
    (hbinding : ∀ k b', cat'.binding k = some b' → ∃ b, cat.binding k = some b ∧
      b.subscriptionId = b'.subscriptionId ∧ b.streamId = b'.streamId)
    (hconn : ∀ sid conn, cat.Connects sid conn → cat'.Connects sid conn)
    (hstored : ∀ st, (cat.matchTable st).isSome → (cat'.matchTable st).isSome)
    (htables : ∀ st regs, (cat.tableOf st).Serves wh S regs → (cat'.tableOf st).Serves wh S regs) :
    cat'.Registers wh S := by
  refine ⟨hnamed, ?_, ?_, fun st => ?_⟩
  · intro k b' hb'
    obtain ⟨b, hb, hsid, hst⟩ := hbinding k b' hb'
    rw [hsubs, ← hsid, ← hst]
    exact h.bound k b hb
  · intro sid info hinfo
    rw [hsubs] at hinfo
    exact hstored _ (h.stored sid info hinfo)
  obtain ⟨regs, hserves, hdesc⟩ := h.tables st
  refine ⟨regs, htables st regs hserves, ?_, ?_⟩
  · intro r hr
    obtain ⟨info, hinfo, hst, hfs, hc⟩ := hdesc.sound r hr
    exact ⟨info, by rw [hsubs]; exact hinfo, hst, hfs, hconn _ _ hc⟩
  · intro sid info
    rw [hsubs]
    exact hdesc.complete sid info

/-- A change that touches no subscription and no binding either. -/
theorem Registers.same (hsubs : cat'.subscriptions = cat.subscriptions)
    (hbind : cat'.bindings = cat.bindings) (hindex : cat'.bySubscription = cat.bySubscription)
    (hstored : ∀ st, (cat.matchTable st).isSome → (cat'.matchTable st).isSome)
    (htables : ∀ st regs, (cat.tableOf st).Serves wh S regs → (cat'.tableOf st).Serves wh S regs) :
    cat'.Registers wh S := by
  refine h.keep hsubs ?_ ?_ ?_ hstored htables
  · rw [hindex, hbind]
    exact h.named
  · intro k b hb
    unfold binding at hb
    rw [hbind] at hb
    exact ⟨b, hb, rfl, rfl⟩
  · intro sid conn hc
    unfold Connects binding at hc ⊢
    rw [hbind]
    exact hc

/-! ### Binding and unbinding -/

/-- One subscription changes its connection, and its entries are rewritten in the table of
its stream. -/
theorem Registers.rebind {conn : ConnectionId} {info : SubscriptionInfo}
    (hinfo : cat.subscriptions.lookup sid = some info) (hsubs : cat'.subscriptions = cat.subscriptions)
    (hconn : cat'.Connects sid conn) (hother : ∀ sid' c, sid' ≠ sid → cat.Connects sid' c → cat'.Connects sid' c)
    (htables : ∀ st, cat'.matchTable st = (cat.modifyMatchTable info.streamId
      (·.bindSubscription sid conn)).matchTable st)
    (hnamed : Index.Names Binding.subscriptionId cat'.bySubscription cat'.bindings)
    (hbound : ∀ k b, cat'.binding k = some b →
      ∃ info, cat'.subscriptions.lookup b.subscriptionId = some info ∧ info.streamId = b.streamId) :
    cat'.Registers wh S := by
  have htable : ∀ st, cat'.tableOf st =
      if st = info.streamId then (cat.tableOf info.streamId).bindSubscription sid conn else cat.tableOf st := by
    intro st
    have hmod := tableOf_modify cat info.streamId st (f := (·.bindSubscription sid conn)) rfl
    unfold tableOf at hmod ⊢
    rw [htables]
    exact hmod
  refine ⟨hnamed, hbound, ?_, fun st => ?_⟩
  · intro sid' info' hinfo'
    rw [hsubs] at hinfo'
    have hstored := h.stored sid' info' hinfo'
    rw [htables, matchTable_modify]
    split
    · next heq => rw [heq] at hstored; rw [isSome_map]; exact hstored
    · exact hstored
  obtain ⟨regs, hserves, hdesc⟩ := h.tables st
  rw [htable st]
  by_cases hst : st = info.streamId
  · rw [if_pos hst, ← hst]
    refine ⟨regs.map (Registration.mapEntry (bindEntry sid conn)), hserves.rewrite (hserves.bind sid conn) rfl, ?_, ?_⟩
    · intro r hr
      obtain ⟨r₀, hr₀, rfl⟩ := mem_map.1 hr
      obtain ⟨info', hinfo', hst', hfs, hc⟩ := hdesc.sound r₀ hr₀
      have hsid : (r₀.mapEntry (bindEntry sid conn)).sid = r₀.sid := bindEntry_sid sid conn r₀.entry
      rw [hsid, hsubs]
      refine ⟨info', hinfo', hst', hfs, ?_⟩
      by_cases heq : r₀.sid = sid
      · have hnew : (r₀.mapEntry (bindEntry sid conn)).entry.connectionId = conn := by
          exact congrArg MatchEntry.connectionId (if_pos heq)
        rw [hnew, heq]
        exact hconn
      · have hold : (r₀.mapEntry (bindEntry sid conn)).entry = r₀.entry := by
          exact if_neg heq
        rw [hold]
        exact hother _ _ heq hc
    · intro sid' info' hinfo' hst'
      rw [hsubs] at hinfo'
      obtain ⟨r, hr, hrs⟩ := hdesc.complete sid' info' hinfo' hst'
      exact ⟨_, mem_map_of_mem hr, (bindEntry_sid sid conn r.entry).trans hrs⟩
  · rw [if_neg hst]
    refine ⟨regs, hserves, ?_, ?_⟩
    · intro r hr
      obtain ⟨info', hinfo', hst', hfs, hc⟩ := hdesc.sound r hr
      -- the subscription is one of another stream
      have hne : r.sid ≠ sid := by
        intro heq
        rw [heq, hinfo] at hinfo'
        cases hinfo'
        exact hst hst'.symm
      exact ⟨info', by rw [hsubs]; exact hinfo', hst', hfs, hother _ _ hne hc⟩
    · intro sid' info'
      rw [hsubs]
      exact hdesc.complete sid' info'

/-- **Retiring a binding unbinds its entries.** -/
theorem Registers.retireBinding (id : BindingId) (ev : DeltaEvents) : (cat.retireBinding id ev).1.Registers wh S := by
  cases hb : cat.binding id with
  | none =>
    have heq : (cat.retireBinding id ev).1 = cat := by
      unfold Catalog.retireBinding
      rw [hb]
    rw [heq]
    exact h
  | some b =>
    obtain ⟨info, hinfo, hst⟩ := h.bound id b hb
    have hsubs := subscriptions_retireBinding cat id ev
    have hfree : (cat.retireBinding id ev).1.Connects b.subscriptionId 0 := by
      -- no other binding has the subscription
      refine .inr ⟨fun k x hx hsid => ?_, rfl⟩
      obtain ⟨hne, hx⟩ := of_binding_retireBinding hx
      have hown := (h.named b.subscriptionId id).2 ⟨b, hb, rfl⟩
      have hthis := (h.named b.subscriptionId k).2 ⟨x, hx, hsid⟩
      rw [hown] at hthis
      exact hne (some.inj hthis).symm
    refine h.rebind hinfo hsubs hfree ?_ ?_ ?_ ?_
    · intro sid' c hne hc
      rcases hc with ⟨k, x, hx, hsid, hc⟩ | ⟨hnone, rfl⟩
      · refine .inl ⟨k, x, ?_, hsid, hc⟩
        rw [binding_retireBinding, if_neg]
        · exact hx
        · rintro rfl
          rw [hb] at hx
          cases hx
          exact hne hsid.symm
      · exact .inr ⟨fun k x hx => hnone k x (of_binding_retireBinding hx).2, rfl⟩
    · intro st
      rw [hst]
      unfold Catalog.retireBinding
      simp only [hb, decDemand_eq]
      rfl
    · unfold Catalog.retireBinding
      simp only [hb, decDemand_eq]
      exact names_eraseIf h.named hb
    · intro k x hx
      rw [hsubs]
      exact h.bound k x (of_binding_retireBinding hx).2

/-- **Subscribing binds the entries of the subscription.** -/
theorem Registers.subscribe (sid : SubscriptionId) (ev : DeltaEvents)
    (hfree : cat.binding cat.nextBindingId = none) : (cat.subscribe conn sid ev).2.1.Registers wh S := by
  refine subscribe_of h (h.retireBinding · ev) ?_
  rintro cat₁ sub consumer rfl hold hsub
  have hprev : ∀ {k b}, (cat.retirePrevious sid ev).1.binding k = some b →
      cat.binding k = some b ∧ b.subscriptionId ≠ sid := fun hb => binding_retirePrevious h.named hb
  have hinfo : (cat.retirePrevious sid ev).1.subscriptions.lookup sid = some sub :=
    retirePrevious_of (P := (·.subscriptions.lookup sid = some sub)) hsub
      (fun id => by rw [subscriptions_retireBinding]; exact hsub)
  have hnew := free_retirePrevious hfree sid ev
  generalize (cat.retirePrevious sid ev).1 = cat₁ at hold hprev hinfo hnew ⊢
  set b := freshBinding cat₁.nextBindingId conn sid sub consumer with hb
  refine hold.rebind hinfo rfl (.inl ⟨b.bindingId, b, ?_, rfl, rfl⟩) ?_ (fun st => rfl) ?_ ?_
  · exact AList.lookup_insert cat₁.bindings
  · intro sid' c hne hc
    rcases hc with ⟨k, x, hx, hsid, hc⟩ | ⟨hnone, rfl⟩
    · exact .inl ⟨k, x, Map.lookup_insert_of hnew hx, hsid, hc⟩
    · exact .inr ⟨Map.forall_insert (Ne.symm hne) hnone, rfl⟩
  · exact hold.named.insert hnew fun k x hx => (hprev hx).2
  · exact Map.forall_insert ⟨sub, hinfo, rfl⟩ hold.bound

/-! ### Creating and removing subscriptions -/

theorem Registers.ensureSubscription (hinj : Set.InjOn wh S) {config : SubscriptionConfig}
    (hproper : ∀ f ∈ config.filters, NoEmptyTokens f ∧ f ∈ S)
    (hok : cat.ensureSubscription wh config = .ok cat') : cat'.Registers wh S := by
  unfold Catalog.ensureSubscription at hok
  split at hok
  swap
  · cases hok
  split at hok
  · cases hok
  next consumer hcons =>
  split at hok
  · cases hok; exact h
  next hnew =>
  cases hok
  have hnone : cat.subscriptions.lookup config.id = none := by
    cases hx : cat.subscriptions.lookup config.id with
    | none => rfl
    | some info => rw [hx] at hnew; exact absurd rfl hnew
  -- a live binding would keep the subscription in the catalog
  have hunbound : ∀ k b, cat.binding k = some b → b.subscriptionId ≠ config.id := by
    intro k b hb heq
    obtain ⟨info, hinfo, -⟩ := h.bound k b hb
    rw [heq, hnone] at hinfo
    cases hinfo
  set info : SubscriptionInfo := ⟨config.streamId, config.consumerId, config.externalId, config.filters⟩ with hinfo
  set r : Registration := ⟨⟨config.consumerId, consumer.queueId, config.id, 0, none⟩, config.filters⟩ with hr
  have hlookup : ∀ sid x, (cat.subscriptions.insert config.id info).lookup sid = some x ↔
      cat.subscriptions.lookup sid = some x ∨ (sid = config.id ∧ x = info) := by
    intro sid x
    by_cases hsid : sid = config.id
    · subst hsid
      simp [hnone, eq_comm]
    · simp [hsid]
  have hdescribes : ∀ st regs, cat.Describes st regs → ∀ r ∈ regs, r.sid ≠ config.id := by
    intro st regs hdesc r hr heq
    obtain ⟨info, hinfo, -⟩ := hdesc.sound r hr
    rw [heq, hnone] at hinfo
    cases hinfo
  refine ⟨h.named, ?_, ?_, fun st => ?_⟩
  · intro k b hb
    obtain ⟨info', hinfo', hst⟩ := h.bound k b hb
    exact ⟨info', (hlookup _ _).2 (.inl hinfo'), hst⟩
  · intro sid info' hinfo'
    rw [matchTable_upsert]
    split
    · rfl
    · next hne =>
      rcases (hlookup _ _).1 hinfo' with hinfo' | ⟨-, rfl⟩
      · exact h.stored sid info' hinfo'
      · exact absurd rfl hne
  obtain ⟨regs, hserves, hdesc⟩ := h.tables st
  rw [tableOf_upsert]
  by_cases hst : st = config.streamId
  · rw [if_pos hst, ← hst]
    refine ⟨regs ++ [r], hserves.register hinj (r := r) (hdescribes st regs hdesc) hproper, ?_, ?_⟩
    · intro x hx
      rcases mem_append.1 hx with hx | hx
      · obtain ⟨info', hinfo', hrest⟩ := hdesc.sound x hx
        exact ⟨info', (hlookup _ _).2 (.inl hinfo'), hrest⟩
      · rw [mem_singleton.1 hx]
        exact ⟨info, (hlookup _ _).2 (.inr ⟨rfl, rfl⟩), hst.symm, rfl, .inr ⟨hunbound, rfl⟩⟩
    · intro sid info' hinfo' hst'
      rcases (hlookup _ _).1 hinfo' with hinfo' | ⟨rfl, -⟩
      · obtain ⟨x, hx, hsid⟩ := hdesc.complete sid info' hinfo' hst'
        exact ⟨x, mem_append_left _ hx, hsid⟩
      · exact ⟨r, mem_append_right _ (mem_singleton_self r), rfl⟩
  · rw [if_neg hst]
    refine ⟨regs, hserves, ?_, ?_⟩
    · intro x hx
      obtain ⟨info', hinfo', hrest⟩ := hdesc.sound x hx
      exact ⟨info', (hlookup _ _).2 (.inl hinfo'), hrest⟩
    · intro sid info' hinfo' hst'
      rcases (hlookup _ _).1 hinfo' with hinfo' | ⟨-, rfl⟩
      · exact hdesc.complete sid info' hinfo' hst'
      · exact absurd hst'.symm hst

theorem Registers.removeSubscriptionEntity (hinj : Set.InjOn wh S)
    (hunbound : ∀ k b, cat.binding k = some b → b.subscriptionId ≠ sid)
    (hok : cat.removeSubscriptionEntity sid = .ok cat') : cat'.Registers wh S := by
  unfold Catalog.removeSubscriptionEntity at hok
  split at hok
  · cases hok
  next info hinfo =>
  cases hok
  have hlookup : ∀ x i, (cat.subscriptions.erase sid).lookup x = some i ↔
      x ≠ sid ∧ cat.subscriptions.lookup x = some i := by
    intro x i
    rw [Map.lookup_erase_eq]
    by_cases hx : x = sid
    · simp [hx]
    · simp [hx]
  refine ⟨h.named, ?_, ?_, fun st => ?_⟩
  · intro k b hb
    obtain ⟨info', hinfo', hst⟩ := h.bound k b hb
    exact ⟨info', (hlookup _ _).2 ⟨hunbound k b hb, hinfo'⟩, hst⟩
  · intro x info' hinfo'
    have hstored := h.stored x info' ((hlookup _ _).1 hinfo').2
    rw [matchTable_modify]
    split
    · next heq => rw [heq] at hstored; rw [isSome_map]; exact hstored
    · exact hstored
  obtain ⟨regs, hserves, hdesc⟩ := h.tables st
  rw [tableOf_modify _ _ _ (f := (·.removeSubscription sid)) rfl]
  by_cases hst : st = info.streamId
  · rw [if_pos hst, ← hst]
    refine ⟨without sid regs, hserves.remove hinj sid, ?_, ?_⟩
    · intro r hr
      obtain ⟨hr, hne⟩ := mem_filter.1 hr
      obtain ⟨info', hinfo', hrest⟩ := hdesc.sound r hr
      exact ⟨info', (hlookup _ _).2 ⟨bne_iff_ne.1 hne, hinfo'⟩, hrest⟩
    intro x info' hinfo' hst'
    obtain ⟨hne, hinfo'⟩ := (hlookup _ _).1 hinfo'
    obtain ⟨r, hr, hsid⟩ := hdesc.complete x info' hinfo' hst'
    refine ⟨r, mem_filter.2 ⟨hr, bne_iff_ne.2 ?_⟩, hsid⟩
    rw [← hsid] at hne
    exact hne
  · rw [if_neg hst]
    refine ⟨regs, hserves, ?_, ?_⟩
    · intro r hr
      obtain ⟨info', hinfo', hst', hrest⟩ := hdesc.sound r hr
      refine ⟨info', (hlookup _ _).2 ⟨?_, hinfo'⟩, hst', hrest⟩
      intro heq
      rw [heq, hinfo] at hinfo'
      cases hinfo'
      exact hst hst'.symm
    · intro x info' hinfo' hst'
      exact hdesc.complete x info' ((hlookup _ _).1 hinfo').2 hst'

/-! ### Every operation -/

/-- An upserted table exists, and serves whom it served if the change says so. -/
theorem Registers.upsert (id : StreamId) (f : MatchTable → MatchTable)
    (hsubs : cat'.subscriptions = cat.subscriptions) (hbind : cat'.bindings = cat.bindings)
    (hindex : cat'.bySubscription = cat.bySubscription) (htables : cat'.matchTables = (cat.upsertMatchTable id f).matchTables)
    (hf : ∀ mt regs, mt.Serves wh S regs → (f mt).Serves wh S regs) : cat'.Registers wh S := by
  have htable : ∀ st, cat'.matchTable st = (cat.upsertMatchTable id f).matchTable st := by
    intro st
    unfold matchTable
    rw [htables]
  refine h.same hsubs hbind hindex ?_ ?_
  · intro st hst
    rw [htable, matchTable_upsert]
    split
    · rfl
    · exact hst
  intro st regs hserves
  have heq : cat'.tableOf st = (cat.upsertMatchTable id f).tableOf st := by
    unfold tableOf
    rw [htable]
  rw [heq, tableOf_upsert]
  split
  · next hst => rw [hst] at hserves; exact hf _ _ hserves
  · exact hserves

theorem Registers.ensureStream {config : StreamConfig}
    (hok : cat.ensureStream config = .ok cat') : cat'.Registers wh S := by
  unfold Catalog.ensureStream at hok
  split at hok
  · cases hok
  split at hok
  · cases hok; exact h
  · cases hok
    exact h.upsert config.id id rfl rfl rfl rfl fun _ _ hserves => hserves

theorem Registers.removeStreamEntity {id : StreamId}
    (hnone : ∀ sid info, cat.subscriptions.lookup sid = some info → info.streamId ≠ id)
    (hok : cat.removeStreamEntity id = .ok cat') : cat'.Registers wh S := by
  unfold Catalog.removeStreamEntity at hok
  split at hok
  swap
  · cases hok
  cases hok
  set cat' : Catalog := { cat with streams := cat.streams.set id none, matchTables := cat.matchTables.set id none }
  have hget : ∀ st, cat'.matchTable st = if st = id then none else cat.matchTable st :=
    fun st => Dense.get_set_default none cat.matchTables id st
  refine ⟨h.named, h.bound, ?_, fun st => ?_⟩
  · intro sid info hinfo
    rw [hget, if_neg (hnone sid info hinfo)]
    exact h.stored sid info hinfo
  obtain ⟨regs, hserves, hdesc⟩ := h.tables st
  by_cases hst : st = id
  · have htable : cat'.tableOf st = .new := by
      unfold tableOf
      rw [hget, if_pos hst]
      rfl
    rw [htable]
    refine ⟨[], serves_new, nofun, ?_⟩
    intro sid info hinfo hst'
    exact absurd (hst'.trans hst) (hnone sid info hinfo)
  · have htable : cat'.tableOf st = cat.tableOf st := by
      unfold tableOf
      rw [hget, if_neg hst]
    rw [htable]
    exact ⟨regs, hserves, hdesc.sound, hdesc.complete⟩

theorem Registers.setBinding {id : BindingId} {b : Binding} (hb : cat.binding id = some b)
    (pending : Map ℕ Pending) : (cat.setBinding id { b with pending := pending }).Registers wh S := by
  have hlookup : ∀ k, (cat.setBinding id { b with pending := pending }).binding k =
      if k = id then some { b with pending := pending } else cat.binding k :=
    fun k => Map.lookup_insert_eq cat.bindings id k _
  refine h.keep rfl (h.named.rewrite hb rfl) ?_ ?_ (fun _ hst => hst) (fun _ _ hserves => hserves)
  · intro k x hx
    rw [hlookup] at hx
    split at hx
    · next hk => cases hx; exact ⟨b, by rw [hk]; exact hb, rfl, rfl⟩
    · exact ⟨x, hx, rfl, rfl⟩
  rintro sid conn (⟨k, x, hx, hsid, hconn⟩ | ⟨hnone, rfl⟩)
  · by_cases hk : k = id
    · subst hk
      rw [hb] at hx
      cases hx
      exact .inl ⟨k, { b with pending := pending }, by rw [hlookup, if_pos rfl], hsid, hconn⟩
    · exact .inl ⟨k, x, by rw [hlookup, if_neg hk]; exact hx, hsid, hconn⟩
  · refine .inr ⟨fun k x hx => ?_, rfl⟩
    rw [hlookup] at hx
    split at hx
    · cases hx; exact hnone id b hb
    · exact hnone k x hx

/-- What the operations promise: a filter has no empty tokens and is one of the subjects in
play, a subscription goes after its binding and a stream after its subscriptions, and a
new binding finds its id free. -/
def Op.Orderly (S : Set Bytes) (cat : Catalog) : Op → Prop
  | .ensureSubscription config => ∀ f ∈ config.filters, NoEmptyTokens f ∧ f ∈ S
  | .removeSubscriptionEntity sid => ∀ k b, cat.binding k = some b → b.subscriptionId ≠ sid
  | .removeStreamEntity id => ∀ sid info, cat.subscriptions.lookup sid = some info → info.streamId ≠ id
  | .subscribe _ _ => cat.binding cat.nextBindingId = none
  | _ => True

/-- **Every catalog operation keeps the tables true to the subscriptions.** -/
theorem Registers.step (hinj : Set.InjOn wh S) {op : Op} (hop : op.Orderly S cat) :
    (cat.step wh op).Registers wh S := by
  have hsame : ∀ {cat' : Catalog}, cat'.subscriptions = cat.subscriptions → cat'.bindings = cat.bindings →
      cat'.bySubscription = cat.bySubscription → cat'.matchTables = cat.matchTables → cat'.Registers wh S := by
    intro cat' hsubs hbind hindex htables
    refine h.same hsubs hbind hindex ?_ ?_
    · unfold matchTable; rw [htables]; exact fun _ hst => hst
    · unfold tableOf matchTable; rw [htables]; exact fun _ _ hserves => hserves
  cases op with
  | ensureStream config => exact keepOr_of h fun _ => h.ensureStream
  | removeStreamEntity id => exact keepOr_of h fun _ => h.removeStreamEntity hop
  | ensureConsumer config =>
    refine keepOr_of h fun cat' hok => ?_
    obtain ⟨_, rfl⟩ := ensureConsumer_ok hok
    exact hsame rfl rfl rfl rfl
  | removeConsumerEntity id =>
    refine keepOr_of h fun cat' hok => ?_
    unfold removeConsumerEntity at hok
    split at hok <;> cases hok
    exact hsame rfl rfl rfl rfl
  | ensureSubscription config => exact keepOr_of h fun _ => h.ensureSubscription hinj hop
  | removeSubscriptionEntity id => exact keepOr_of h fun _ => h.removeSubscriptionEntity hinj hop
  | subscribe conn sid => exact h.subscribe conn sid {} hop
  | retireBinding id => exact h.retireBinding id {}
  | setMaxSubjectInflight id pattern max =>
    refine keepOr_of h fun cat' hok => ?_
    unfold setMaxSubjectInflight at hok
    split at hok <;> cases hok
    refine h.upsert id (·.addMaxSubjectInflight wh pattern max) rfl rfl rfl rfl fun mt _ hserves => ?_
    refine ⟨hserves.limit wh pattern max, ?_, hserves.proper⟩
    unfold addMaxSubjectInflight
    split <;> exact hserves.opens
  | settle id pending =>
    cases hb : cat.binding id with
    | none => simp only [Catalog.step, hb]; exact h
    | some b => simp only [Catalog.step, hb]; exact h.setBinding hb pending
  | _ => exact hsame rfl rfl rfl rfl

end Catalog

/-! ## Publishing -/

namespace MatchTable

variable {regs : List Registration}

theorem Drawn.filter_eq {l : List MatchEntry} (h : Drawn regs l) {x : MatchEntry}
    (hx : x ∈ l) : l.filter (·.subscriptionId = x.subscriptionId) = [x] := by
  have honce := h.once
  clear h
  induction l with
  | nil => cases hx
  | cons y l ih =>
    rw [map_cons, nodup_cons] at honce
    obtain ⟨hnew, hrest⟩ := honce
    rcases mem_cons.1 hx with rfl | hx
    · rw [filter_cons_of_pos (by simp), filter_eq_nil_iff.2]
      intro z hz hsid
      exact hnew (mem_map.2 ⟨z, hz, of_decide_eq_true hsid⟩)
    · have hne : y.subscriptionId ≠ x.subscriptionId := fun heq => hnew (mem_map.2 ⟨x, hx, heq.symm⟩)
      rw [filter_cons_of_neg (by simpa using hne)]
      exact ih hx hrest

theorem mapEntries_id (mt : MatchTable) : mt.mapEntries id = mt := by
  simp [mapEntries]

theorem Serves.matching_eq {wh : WireHash} {S : Set Bytes} {mt : MatchTable}
    (h : mt.Serves wh S regs) {env : CycleEnv} (hwh : env.wireHash32 = wh) (e : StoreEntry) :
    env.matching mt e = mt.merged wh e.subject := by
  unfold CycleEnv.matching MatchTable.merged
  rw [hwh]
  split
  · next hempty =>
    have hnone : (mt.patternTrie.findMatches e.subject).filterMap (mt.patternEntries[·]?) = [] := by
      rw [h.entries, isEmpty_iff.1 hempty]
      simp
    rw [resolvePatternsReadonly_eq, hnone]
    rfl
  · rfl

end MatchTable

/-- Publishing changes nothing in a table but the binding indices of its entries. -/
theorem DrainSnapshot.matchTable_stamps (l : List (ActiveBinding × ℕ)) (tables : List (Option MatchTable))
    (st : StreamId) : ∃ g : MatchEntry → MatchEntry,
    (∀ e, (g e).key = e.key) ∧ Dense.get none
    (l.foldl stampBinding tables) st = (Dense.get none tables st).map (·.mapEntries g) := by
  induction l generalizing tables st with
  | nil =>
    refine ⟨id, fun e => rfl, ?_⟩
    rw [foldl_nil]
    cases Dense.get none tables st with
    | none => rfl
    | some mt => rw [map_some, mapEntries_id]
  | cons bi l ih =>
    obtain ⟨g, hkeys, hg⟩ := ih (stampBinding tables bi) st
    rw [foldl_cons, hg, get_stampBinding]
    split
    · refine ⟨g ∘ stampEntry bi.1.consumerId bi.1.connectionId bi.1.subscriptionId bi.2, fun e => ?_, ?_⟩
      · exact (hkeys _).trans (key_stampEntry _ _ _ _)
      · rw [Option.map_map]
        congr 1
        funext mt
        simp [mapEntries, setBindingIdxFor, Function.comp_def]
    · exact ⟨g, hkeys, rfl⟩

/-- Is there a live subscription of this id on the stream that the subject is for? -/
def Catalog.Wants (cat : Catalog) (st : StreamId) (subject : Bytes) (sid : SubscriptionId) : Prop :=
  ∃ info, cat.subscriptions.lookup sid = some info ∧ info.streamId = st ∧
    (info.filters = [] ∨ ∃ f ∈ info.filters, subjectMatches f subject = true)

/-- The recipients the drain finds for an entry with a snapshot: none if the stream has no
table. -/
def CycleEnv.found (env : CycleEnv) (caches : StreamCaches) (e : StoreEntry) : List MatchEntry :=
  match env.snap.matchTable e.streamId with
  | none => []
  | some mt => (env.recipients caches mt e).2

/-- **The drain finds exactly the subscriptions an entry is for.** After any run of catalog
operations in which filters have no empty tokens, a subscription is removed after its
binding, a stream after its subscriptions, and a new binding finds its id free, and with no
two of the subjects in play sharing a hash: of every subscription on the stream that has no
filter or a matching one there is one entry among the recipients, naming the connection of
its live binding or 0, and there is none of any other. -/
theorem recipients_exact {wh : WireHash} {S : Set Bytes} (hinj : Set.InjOn wh S) {ops : List Op}
    (hrun : Run.Guarded (step wh) (fun cat op => op.Orderly S cat) {} ops)
    {env : CycleEnv} (hwh : env.wireHash32 = wh) {bindings : List ActiveBinding}
    {retention : Map StreamId StreamRetention}
    (hsnap : env.snap = DrainSnapshot.rebuild bindings (ops.foldl (step wh) {}).matchTables retention)
    {seen : List StoreEntry} (hseen : ∀ x ∈ seen, x.subject ∈ S) {caches : StreamCaches}
    (hcaches : CachesOK wh env.snap seen caches) {e : StoreEntry} (he : e ∈ seen) (hs : NoEmptyTokens e.subject)
    (sid : SubscriptionId) :
    ((ops.foldl (step wh) {}).Wants e.streamId e.subject sid →
      ∃ me, (env.found caches e).filter (·.subscriptionId = sid) = [me] ∧
        (ops.foldl (step wh) {}).Connects sid me.connectionId) ∧
    (¬(ops.foldl (step wh) {}).Wants e.streamId e.subject sid →
      (env.found caches e).filter (·.subscriptionId = sid) = []) := by
  have hreg : (ops.foldl (step wh) {}).Registers wh S :=
    Run.invariant (fun _ _ h hop => h.step hinj hop) ops _ registers_empty hrun
  generalize ops.foldl (step wh) {} = cat at hreg hsnap ⊢
  obtain ⟨regs, hserves, hdesc⟩ := hreg.tables e.streamId
  obtain ⟨g, hkeys, hstamp⟩ := DrainSnapshot.matchTable_stamps bindings.zipIdx cat.matchTables e.streamId
  have htable : env.snap.matchTable e.streamId = (cat.matchTable e.streamId).map (·.mapEntries g) := by
    rw [hsnap]
    exact hstamp
  have hwants : cat.Wants e.streamId e.subject sid ↔ ∃ r ∈ regs, r.sid = sid ∧ r.Wants e.subject := by
    constructor
    · rintro ⟨info, hinfo, hst, hmatch⟩
      obtain ⟨r, hr, hsid⟩ := hdesc.complete sid info hinfo hst
      obtain ⟨info', hinfo', -, hfs, -⟩ := hdesc.sound r hr
      rw [hsid, hinfo] at hinfo'
      cases hinfo'
      rw [hfs] at hmatch
      exact ⟨r, hr, hsid, hmatch⟩
    · rintro ⟨r, hr, rfl, hmatch⟩
      obtain ⟨info, hinfo, hst, hfs, -⟩ := hdesc.sound r hr
      refine ⟨info, hinfo, hst, ?_⟩
      rw [hfs]
      exact hmatch
  unfold CycleEnv.found
  cases hmt : cat.matchTable e.streamId with
  | none =>
    rw [hmt] at htable
    rw [htable]
    refine ⟨?_, fun _ => rfl⟩
    rintro ⟨info, hinfo, hst, -⟩
    have hstored := hreg.stored sid info hinfo
    rw [hst, hmt] at hstored
    cases hstored
  | some mt =>
    rw [hmt] at htable
    have hno : NoCollision env.wireHash32 seen := by
      rw [hwh]
      exact fun a ha b hb _ hab => hinj (hseen a ha) (hseen b hb) hab
    rw [← hwh] at hcaches
    have hrec := (CycleEnv.recipients_spec hcaches he htable hno).2
    rw [htable]
    simp only [Option.map_some]
    rw [hrec]
    have hmt' : cat.tableOf e.streamId = mt := by
      unfold tableOf
      rw [hmt]
      rfl
    rw [hmt'] at hserves
    have hstamped : (mt.mapEntries g).Serves wh S _ := hserves.rewrite
      (hserves.toLists.rewrite (fun e => (ids_of_key (hkeys e)).1) (hserves.mirrored.stamp hkeys)) rfl
    rw [hstamped.matching_eq hwh]
    obtain ⟨hdrawn, hmem⟩ := hstamped.merged hinj hs (hseen e he)
    constructor
    · intro hw
      obtain ⟨r, hr, hsid, hmatch⟩ := hwants.1 hw
      have hin := (hmem (g r.entry)).2 ⟨r.mapEntry g, mem_map_of_mem hr, rfl, hmatch⟩
      have hgsid : (g r.entry).subscriptionId = sid := (ids_of_key (hkeys r.entry)).1.trans hsid
      refine ⟨g r.entry, ?_, ?_⟩
      · rw [← hgsid]
        exact hdrawn.filter_eq hin
      · obtain ⟨info, -, -, -, hconn⟩ := hdesc.sound r hr
        rw [(ids_of_key (hkeys r.entry)).2, ← hsid]
        exact hconn
    · intro hw
      rw [filter_eq_nil_iff]
      intro x hx hsid
      obtain ⟨r', hr', rfl, hmatch⟩ := (hmem x).1 hx
      obtain ⟨r, hr, rfl⟩ := mem_map.1 hr'
      apply hw
      rw [hwants]
      exact ⟨r, hr, (ids_of_key (hkeys r.entry)).1.symm.trans (of_decide_eq_true hsid), hmatch⟩

namespace OneFilter

/-- A stream, a consumer, and its subscription to a filter, bound on connection 7. -/
def subscribed (filter : Bytes) : List Op :=
  [.ensureStream ⟨1, []⟩, .ensureConsumer ⟨1, 5, 1, true, .explicit, 10, 0, 0, []⟩,
    .ensureSubscription ⟨1, 1, 1, 1, [filter]⟩, .subscribe 7 1]

/-- The catalog a run leaves. -/
def after (ops : List Op) : Catalog := ops.foldl (step fun _ => 0) {}

/-- A cycle on the snapshot published from there. -/
def cycle (ops : List Op) : CycleEnv where
  wireHash32 := fun _ => 0
  snap := DrainSnapshot.rebuild [] (after ops).matchTables ∅
  slots := fun _ => none
  maxAgeMs := 0
  nowMs := 0

/-- An entry published to subject `a`. -/
def entry : StoreEntry := ⟨1, 1, 0, [97], [], 0⟩

theorem filter_found :
    ∃ me, ((cycle (subscribed [97])).found ∅ entry).filter (·.subscriptionId = 1) = [me] ∧
      (after (subscribed [97])).Connects 1 me.connectionId := by
  have hinj : Set.InjOn (fun _ => 0 : WireHash) {[97]} := by
    rintro x rfl y rfl _
    rfl
  have hrun : Run.Guarded (step fun _ => 0) (fun cat op => op.Orderly {[97]} cat) {} (subscribed [97]) := by
    refine ⟨trivial, trivial, ?_, rfl, trivial⟩
    intro f hf
    rw [mem_singleton.1 hf]
    exact ⟨by decide, rfl⟩
  have hseen : ∀ x ∈ [entry], x.subject ∈ ({[97]} : Set Bytes) := by
    intro x hx
    rw [mem_singleton.1 hx]
    rfl
  have hhash : (cycle (subscribed [97])).wireHash32 = fun _ => 0 := rfl
  refine (recipients_exact hinj hrun hhash rfl hseen (Recalls.empty _) (mem_singleton_self entry)
    (by decide) 1).1 ?_
  exact ⟨_, rfl, rfl, .inr ⟨[97], mem_singleton_self _, rfl⟩⟩

/-- **A filter with an empty token, and a subscription removed under its binding.** The
filter `a.` matches subject `a` for `subject_matches`, but its bucket is that of another
string. A subscription that is removed while it is bound and created again has the entry
of an unbound one, and still its binding. -/
theorem filter_not_found :
    ((after (subscribed [97, 46])).Wants 1 [97] 1 ∧ (cycle (subscribed [97, 46])).found ∅ entry = []) ∧
      ∃ me, (cycle (subscribed [97] ++ [Op.removeSubscriptionEntity 1,
          Op.ensureSubscription ⟨1, 1, 1, 1, [[97]]⟩])).found ∅ entry = [me] ∧
        ¬ (after (subscribed [97] ++ [Op.removeSubscriptionEntity 1,
          Op.ensureSubscription ⟨1, 1, 1, 1, [[97]]⟩])).Connects 1 me.connectionId := by
  refine ⟨⟨⟨_, rfl, rfl, .inr ⟨[97, 46], mem_singleton_self _, rfl⟩⟩, rfl⟩, ⟨1, 5, 1, 0, none⟩, rfl, ?_⟩
  rintro (⟨k, b, hb, -, hconn⟩ | ⟨hnone, -⟩)
  · by_cases hk : k = 1
    · subst hk
      cases hb
      cases hconn
    have hget := Map.lookup_insert_eq (∅ : Map BindingId Binding) 1 k
      (freshBinding 1 7 1 ⟨1, 1, 1, [[97]]⟩ ⟨1, 5, 10, false, .explicit, true, 0, 0, []⟩)
    rw [if_neg hk] at hget
    have hcontra := hget.symm.trans hb
    cases hcontra
  · exact hnone 1 _ rfl rfl

end OneFilter

end Arbitro
