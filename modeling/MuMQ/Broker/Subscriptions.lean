import Mathlib.Tactic.Push
import MuMQ.Broker.Loop
import MuMQ.Substree.Matching

namespace MuMQ

open Data

/-! The subscriptions of a slot when it passes from one connection to the next. -/

/-- Every topic that `filter` matches is matched by one of `filters`. -/
def Covered (filters : List CString) (filter : CString) : Prop :=
  ∀ topic, FilterMatches filter topic → ∃ own ∈ filters, FilterMatches own topic

theorem Covered.append {filters : List CString} {filter : CString}
    (covered : Covered filters filter) (more : List CString) :
    Covered (filters ++ more) filter := by
  intro topic matched
  obtain ⟨own, member, ownMatched⟩ := covered topic matched
  exact ⟨own, List.mem_append_left _ member, ownMatched⟩

theorem Covered.own {filters : List CString} {filter : CString} (member : filter ∈ filters) :
    Covered filters filter :=
  fun _ matched => ⟨filter, member, matched⟩

/-- When a PUBLISH is routed, packets are enqueued only for connections that have
themselves subscribed a filter that matches its topic. -/
def DeliversOwn (event : LoopEvent) (before after : LoopState) : Prop :=
  match event with
  | .packet context frame =>
      ∀ message topic, parsedMessage before.broker context frame = some message →
        publishedTopic message = some topic →
        ∀ slot, addedPackets before.broker after.broker slot ≠ [] →
          before.IsOpen slot ∧
            ∃ filter ∈ (before.session slot).filters, FilterMatches filter topic
  | _ => True

/-- When a connected client sends a SUBSCRIBE, all filters its slot has a leaf for
match only topics that the connection subscribes itself. -/
def CoversLeaves (event : LoopEvent) (before : LoopState) : Prop :=
  match event with
  | .packet context frame =>
      ∀ filter ∈ requestedFilter before.broker context frame,
        (before.broker.clients context).state = .csConnected →
        ∀ other, before.broker.subs.HasLeaf (filterPath other) context →
          Covered ((before.session context).filters ++ [filter]) other
  | _ => True

/-- A subscribed slot has leaves only for topics that its connection subscribed. -/
structure SubscriptionInvariant (state : LoopState) : Prop where
  sound : state.Sound
  leaves : ∀ path slot, state.broker.subs.HasLeaf path slot →
    ∃ filter, path = filterPath filter
  covered : ∀ slot filter, (state.broker.clients slot).isSubscribe = true →
    state.broker.subs.HasLeaf (filterPath filter) slot →
    Covered (state.session slot).filters filter

theorem SubscriptionInvariant.start (memory : Memory) :
    SubscriptionInvariant (LoopState.start memory) where
  sound := LoopState.Sound.start memory
  leaves path slot leaf := by
    rw [Subhier.hasLeaf_iff] at leaf
    cases leaf
  covered slot filter subscribed _ := by cases subscribed

theorem SubscriptionInvariant.step {event : LoopEvent} {before after : LoopState}
    (invariant : SubscriptionInvariant before) (stepped : Stepped before event after)
    (covers : CoversLeaves event before) : SubscriptionInvariant after := by
  have sound := invariant.sound.step stepped
  cases stepped with
  | @accepted sock free =>
      refine ⟨sound, invariant.leaves, fun slot filter subscribed leaf => ?_⟩
      by_cases own : slot = sock
      · subst own
        simp only [acceptClient_self] at subscribed
        rw [(invariant.sound.vacant slot free).unsubscribed] at subscribed
        cases subscribed
      · simp only [acceptClient_other _ own] at subscribed
        simp only [Function.update_of_ne own]
        exact invariant.covered slot filter subscribed leaf
  | @unparsed context frame parser contextOpen idle rejected =>
      refine ⟨sound, invariant.leaves, fun slot filter subscribed leaf => ?_⟩
      have alike := (keepParser_sent before.broker context parser).clients slot
      exact invariant.covered slot filter (alike.isSubscribe.symm.trans subscribed) leaf
  | @handled context frame message broker retCode contextOpen idle parsed handled =>
      rcases handled.tree with ⟨subs, flags, _⟩ | ⟨filter, found, subscribing⟩
      · refine ⟨sound, subs ▸ invariant.leaves, fun slot other subscribed leaf => ?_⟩
        have wasSubscribed : (before.broker.clients slot).isSubscribe = true :=
          (flags slot).symm.trans subscribed
        have earlier : before.broker.subs.HasLeaf (filterPath other) slot := subs ▸ leaf
        exact (invariant.covered slot other wasSubscribed earlier).append _
      · refine ⟨sound, fun path slot leaf => ?_, fun slot other subscribed leaf => ?_⟩
        · rcases subscribing.hasLeaf_after leaf with earlier | ⟨_, _, path⟩
          · exact invariant.leaves path slot earlier
          · exact ⟨filter, path⟩
        · have requested : requestedFilter before.broker context frame = some filter := by
            rw [requestedFilter, parsed]
            exact found
          have covered := covers filter requested subscribing.isConnected other
          have unchanged (kept : retCode = 0 → slot ≠ context) :
              Covered (before.session slot).filters other := by
            rcases subscribing.hasLeaf_after leaf with earlier | ⟨zero, own, _⟩
            · exact invariant.covered slot other
                ((subscribing.flags slot kept).symm.trans subscribed) earlier
            · exact absurd own (kept zero)
          by_cases own : slot = context ∧ retCode = 0
          · obtain ⟨rfl, rfl⟩ := own
            simp only [LoopState.sessionsAfter, and_self, if_true, found, Option.toList_some]
            rcases subscribing.hasLeaf_after leaf with earlier | ⟨_, _, path⟩
            · exact covered earlier
            · rw [filterPath_injective path]
              exact Covered.own (List.mem_append_right _ (List.mem_singleton_self _))
          · exact (unchanged fun zero same => own ⟨same, zero⟩).append _
  | failed contextOpen idle => exact ⟨sound, invariant.leaves, invariant.covered⟩
  | @removed context contextOpen closing =>
      refine ⟨sound, invariant.leaves, fun slot filter subscribed leaf => ?_⟩
      by_cases own : slot = context
      · subst own
        simp only [removeClient_self] at subscribed
        cases subscribed
      · simp only [removeClient_other _ own] at subscribed
        exact invariant.covered slot filter subscribed leaf
  | @flushed context event sender phase contextOpen answered outcome =>
      refine ⟨sound, invariant.leaves, fun slot filter subscribed leaf => ?_⟩
      refine invariant.covered slot filter ?_ leaf
      obtain ⟨_, client⟩ := before.broker.modifySender_client context (fun _ => sender) slot
      simpa only [client] using subscribed

theorem SubscriptionInvariant.deliversOwn {event : LoopEvent} {before after : LoopState}
    (invariant : SubscriptionInvariant before) (stepped : Stepped before event after) :
    DeliversOwn event before after := by
  match event, stepped with
  | .packet context frame, stepped =>
      intro message topic parsed routed slot enqueued
      obtain ⟨retCode, handled, _⟩ := stepped.handled_of_parsed parsed
      obtain ⟨packets, sent, _, only⟩ := handled.routed routed
      rw [sent.addedPackets (invariant.sound.senders slot)] at enqueued
      obtain ⟨delivery, member, rfl⟩ : ∃ delivery ∈ publishDeliveries before.broker context
          message, delivery.context = slot := by
        by_contra none
        push Not at none
        exact enqueued (only slot none)
      obtain ⟨sameTopic, subscribed, site, siteMember, visited, leaf⟩ :=
        mem_publishDeliveries member
      rw [routed, Option.some.injEq] at sameTopic
      subst sameTopic
      have hasLeaf : before.broker.subs.HasLeaf site.path delivery.context :=
        ⟨site, siteMember, rfl, leaf⟩
      obtain ⟨filter, path⟩ := invariant.leaves _ _ hasLeaf
      rw [path] at hasLeaf visited
      refine ⟨?_, invariant.covered _ filter subscribed hasLeaf _ (rootVisits_sound visited)⟩
      by_contra closed
      rw [(invariant.sound.vacant _ closed).unsubscribed] at subscribed
      cases subscribed
  | .accept _, _ => trivial
  | .fail _, _ => trivial
  | .remove _, _ => trivial
  | .flush _ _, _ => trivial

/-- In a run in which every SUBSCRIBE covers the leaves its slot has already,
packets are enqueued only for connections that have subscribed the topic. -/
theorem deliversOwn_of_coversLeaves (memory : Memory) {events : List LoopEvent}
    (covers : Along loopStep (fun event before _ => CoversLeaves event before)
      (.start memory) events) :
    Along loopStep DeliversOwn (.start memory) events := by
  refine Along.of_invariant (fun event before after invariant stepped covers => ?_)
    (SubscriptionInvariant.start memory) covers
  have took := loopStep_stepped stepped
  exact ⟨invariant.step took covers, invariant.deliversOwn took⟩

/-- The leaves of the slot of a SUBSCRIBE are all for its own filter. -/
def leavesOwn (event : LoopEvent) (before : LoopState) : Bool :=
  match event with
  | .packet context frame =>
      match requestedFilter before.broker context frame with
      | some filter =>
          (leafPairs before.broker.subs.sites).all fun pair =>
            pair.2 ≠ context || pair.1 = filterPath filter
      | none => true
  | _ => true

theorem coversLeaves_of_leavesOwn {event : LoopEvent} {before : LoopState}
    (checked : leavesOwn event before = true) : CoversLeaves event before := by
  match event with
  | .packet context frame =>
      intro filter requested _ other leaf
      have requested : requestedFilter before.broker context frame = some filter := requested
      rw [leavesOwn, requested] at checked
      have pair := List.all_eq_true.mp checked _ (Subhier.hasLeaf_iff.mp leaf)
      simp at pair
      rw [filterPath_injective pair]
      exact Covered.own (List.mem_append_right _ (List.mem_singleton_self _))
  | .accept _ => trivial
  | .fail _ => trivial
  | .remove _ => trivial
  | .flush _ _ => trivial

/-- A client subscribes `a` and leaves; the next one in its slot subscribes `a`,
and a third client publishes. -/
def resubscribes : List LoopEvent :=
  [.accept 5, .packet 5 (connectFrame 0x61), .packet 5 (subscribeFrame 0x61), .fail 5,
    .remove 5, .accept 6, .packet 6 (connectFrame 0x63), .accept 5,
    .packet 5 (connectFrame 0x62), .packet 5 (subscribeFrame 0x61),
    .packet 6 (publishFrame 0x61)]

theorem deliversOwn_of_coversLeaves_resubscribes :
    (run loopStep (.start ⟨fun _ => true, fun _ => 0, 0⟩) resubscribes).isSome = true ∧
      Along loopStep DeliversOwn (.start ⟨fun _ => true, fun _ => 0, 0⟩) resubscribes := by
  have covers : Along loopStep (fun event before _ => CoversLeaves event before)
      (.start ⟨fun _ => true, fun _ => 0, 0⟩) resubscribes :=
    along_of_check leavesOwn (fun _ _ => coversLeaves_of_leavesOwn) (by decide +kernel)
  exact ⟨by decide +kernel, deliversOwn_of_coversLeaves _ covers⟩

/-- A client subscribes `a` and leaves; the next one in its slot subscribes `b`. -/
def inheritsLeaf : List LoopEvent :=
  [.accept 5, .packet 5 (connectFrame 0x61), .packet 5 (subscribeFrame 0x61), .fail 5,
    .remove 5, .accept 5, .packet 5 (connectFrame 0x62), .packet 5 (subscribeFrame 0x62)]

/-- A message for `a` is delivered to the client that subscribed `b` only. -/
theorem deliversOwn_inheritsLeaf :
    ∃ before after,
      run loopStep (.start ⟨fun _ => true, fun _ => 0, 0⟩) inheritsLeaf = some before ∧
      loopStep (.packet 5 (publishFrame 0x61)) before = some after ∧
      (before.session 5).filters = [.ofBuffer [0x62]] ∧
      (addedPackets before.broker after.broker 5).map Packet.sendBuf =
        [[0x30, 5, 0, 1, 0x61, 7, 7]] ∧
      ¬ Along loopStep DeliversOwn (.start ⟨fun _ => true, fun _ => 0, 0⟩)
        (inheritsLeaf ++ [.packet 5 (publishFrame 0x61)]) := by
  have computed : (run loopStep (.start ⟨fun _ => true, fun _ => 0, 0⟩) inheritsLeaf).map
      (fun before => ((before.session 5).filters,
        (parsedMessage before.broker 5 (publishFrame 0x61)).bind publishedTopic,
        (loopStep (.packet 5 (publishFrame 0x61)) before).map fun after =>
          (addedPackets before.broker after.broker 5).map Packet.sendBuf)) =
      some ([.ofBuffer [0x62]], some (.ofBuffer [0x61]),
        some [[0x30, 5, 0, 1, 0x61, 7, 7]]) := by
    decide +kernel
  obtain ⟨before, ran, observed⟩ := Option.map_eq_some_iff.mp computed
  simp only [Prod.mk.injEq] at observed
  obtain ⟨filters, published, delivered⟩ := observed
  obtain ⟨message, parsed, routed⟩ := Option.bind_eq_some_iff.mp published
  obtain ⟨after, stepped, packets⟩ := Option.map_eq_some_iff.mp delivered
  refine ⟨before, after, ran, stepped, filters, packets, fun along => ?_⟩
  have enqueued : addedPackets before.broker after.broker 5 ≠ [] := by
    intro none
    rw [none] at packets
    cases packets
  obtain ⟨_, filter, member, matched⟩ :=
    along.last ran stepped message _ parsed routed 5 enqueued
  rw [filters, List.mem_singleton] at member
  subst member
  exact absurd matched (by decide +kernel)

end MuMQ
