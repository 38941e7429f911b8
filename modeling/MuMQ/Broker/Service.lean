import MuMQ.Broker.Loop
import MuMQ.Substree.Matching

namespace MuMQ

open Data

/-! What an acknowledged SUBSCRIBE is worth while its connection lasts. -/

/-- All filters in SUBSCRIBEs are valid. -/
def SubscribesValid (event : LoopEvent) (before : LoopState) : Prop :=
  match event with
  | .packet context frame =>
      ∀ filter ∈ requestedFilter before.broker context frame,
        subTopicValid filter.bytes = true
  | _ => True

/-- When a connected client subscribes a filter that a client with the same id has a
leaf for, its own slot has one already. -/
def FindsOwnLeaf (event : LoopEvent) (before : LoopState) : Prop :=
  match event with
  | .packet context frame =>
      ∀ filter ∈ requestedFilter before.broker context frame,
        (before.broker.clients context).state = .csConnected →
        ∀ site ∈ before.broker.subs.sites, site.path = filterPath filter →
          ∀ other ∈ site.contexts,
            (before.broker.clients other).idString =
              (before.broker.clients context).idString →
            context ∈ site.contexts
  | _ => True

/-- A valid topic that is published is enqueued for every connection with an
acknowledged filter that matches it. -/
def ServesFilters (event : LoopEvent) (before after : LoopState) : Prop :=
  match event with
  | .packet context frame =>
      ∀ message topic, parsedMessage before.broker context frame = some message →
        publishedTopic message = some topic → pubTopicValid topic.bytes = true →
        ∀ slot, before.IsOpen slot → ∀ filter ∈ (before.session slot).filters,
          FilterMatches filter topic →
          ∃ packet ∈ addedPackets before.broker after.broker slot,
            IsPublishTo ⟨slot, topic, message.publish.content.bytes,
              message.publish.content.length⟩ packet
  | _ => True

instance (event : LoopEvent) (before : LoopState) : Decidable (SubscribesValid event before) :=
  match event with
  | .packet _ _ => inferInstanceAs (Decidable (∀ _ ∈ (_ : Option CString), _ = true))
  | .accept _ => isTrue trivial
  | .fail _ => isTrue trivial
  | .remove _ => isTrue trivial
  | .flush _ _ => isTrue trivial

instance (event : LoopEvent) (before : LoopState) : Decidable (FindsOwnLeaf event before) :=
  match event with
  | .packet _ _ =>
      inferInstanceAs (Decidable (∀ _ ∈ (_ : Option CString), _ = _ →
        ∀ site ∈ (_ : List Site), _ = _ → ∀ other ∈ site.contexts, _ = _ → _ ∈ _))
  | .accept _ => isTrue trivial
  | .fail _ => isTrue trivial
  | .remove _ => isTrue trivial
  | .flush _ _ => isTrue trivial

/-- Every acknowledged filter of a connection has its leaf in a tree of valid
filters. -/
structure ServiceInvariant (state : LoopState) : Prop where
  sound : state.Sound
  unfailing : state.broker.memory.Unfailing
  valid : state.broker.subs.ValidPaths
  served : ∀ slot, state.IsOpen slot → ∀ filter ∈ (state.session slot).filters,
    (state.broker.clients slot).isSubscribe = true ∧
      state.broker.subs.HasLeaf (filterPath filter) slot

theorem ServiceInvariant.start {memory : Memory} (unfailing : memory.Unfailing) :
    ServiceInvariant (LoopState.start memory) where
  sound := LoopState.Sound.start memory
  unfailing := unfailing
  valid site member := .inl (by rw [List.mem_singleton.mp member])
  served _ isOpen := by cases isOpen

theorem ServiceInvariant.step {event : LoopEvent} {before after : LoopState}
    (invariant : ServiceInvariant before) (stepped : Stepped before event after)
    (valid : SubscribesValid event before) (finds : FindsOwnLeaf event before) :
    ServiceInvariant after := by
  have sound := invariant.sound.step stepped
  cases stepped with
  | @accepted sock free =>
      refine ⟨sound, invariant.unfailing, invariant.valid, fun slot isOpen filter member => ?_⟩
      by_cases own : slot = sock
      · subst own
        simp only [Function.update_self] at member
        cases member
      · simp only [Function.update_of_ne own] at member
        simp only [acceptClient_other _ own]
        exact invariant.served slot
          ((LoopState.isOpen_acceptClient.mp isOpen).resolve_right own) filter member
  | @unparsed context frame parser contextOpen idle rejected =>
      refine ⟨sound, invariant.unfailing, invariant.valid, fun slot isOpen filter member => ?_⟩
      have alike := (keepParser_sent before.broker context parser).clients slot
      obtain ⟨subscribed, leaf⟩ := invariant.served slot isOpen filter member
      exact ⟨alike.isSubscribe.trans subscribed, leaf⟩
  | @handled context frame message broker retCode contextOpen idle parsed handled =>
      have unfailing := invariant.unfailing.extends handled.memory
      rcases handled.tree with ⟨subs, flags, noFilter⟩ | ⟨filter, found, subscribing⟩
      · refine ⟨sound, unfailing, subs ▸ invariant.valid, fun slot isOpen filter member => ?_⟩
        have wasMember : filter ∈ (before.session slot).filters := by
          simp only [LoopState.sessionsAfter] at member
          split at member
          · rename_i acknowledged
            rw [noFilter.resolve_right fun refused => refused.1 acknowledged.2] at member
            simpa using member
          · simpa using member
        obtain ⟨subscribed, leaf⟩ := invariant.served slot
          (handled.mem_contextsByPtr.mp isOpen) filter wasMember
        exact ⟨(flags slot).trans subscribed, subs ▸ leaf⟩
      · have requested : requestedFilter before.broker context frame = some filter := by
          rw [requestedFilter, parsed]
          exact found
        refine ⟨sound, unfailing, fun site member => ?_, fun slot isOpen other member => ?_⟩
        · rcases subscribing.path_after member with ⟨old, oldMember, path⟩ | onPath
          · exact path ▸ invariant.valid old oldMember
          · exact .inr ⟨filter, valid filter requested, onPath⟩
        · simp only [LoopState.sessionsAfter, List.mem_append, found] at member
          rcases member with earlier | new
          · obtain ⟨subscribed, leaf⟩ := invariant.served slot
              (handled.mem_contextsByPtr.mp isOpen) other earlier
            refine ⟨?_, subscribing.hasLeaf_before leaf⟩
            by_cases own : slot = context ∧ retCode = 0
            · exact own.1 ▸ subscribing.flag own.2
            · rw [subscribing.flags slot fun zero same => own ⟨same, zero⟩]
              exact subscribed
          · split at new
            · rename_i acknowledged
              obtain ⟨rfl, rfl⟩ := acknowledged
              rw [Option.toList_some, List.mem_singleton] at new
              subst new
              refine ⟨subscribing.flag rfl, ?_⟩
              -- the leaf of a client with this id is the slot's own, or was there
              obtain ⟨owner, leaf, namesake⟩ := subscribing.served rfl
              rcases subscribing.hasLeaf_after leaf with earlier | ⟨_, rfl, _⟩
              · obtain ⟨site, siteMember, path, inSite⟩ := earlier
                have own := finds other requested subscribing.isConnected site siteMember path
                  owner inSite namesake
                exact subscribing.hasLeaf_before ⟨site, siteMember, path, own⟩
              · exact leaf
            · cases new
  | failed contextOpen idle =>
      exact ⟨sound, invariant.unfailing, invariant.valid, invariant.served⟩
  | @removed context contextOpen closing =>
      refine ⟨sound, invariant.unfailing, invariant.valid, fun slot isOpen filter member => ?_⟩
      obtain ⟨own, wasOpen⟩ := invariant.sound.isOpen_removeClient.mp isOpen
      simp only [removeClient_other _ own]
      exact invariant.served slot wasOpen filter member
  | @flushed context event sender phase contextOpen answered outcome =>
      refine ⟨sound, invariant.unfailing, invariant.valid, fun slot isOpen filter member => ?_⟩
      obtain ⟨subscribed, leaf⟩ := invariant.served slot isOpen filter member
      refine ⟨?_, leaf⟩
      obtain ⟨_, client⟩ := before.broker.modifySender_client context (fun _ => sender) slot
      simpa only [client] using subscribed

theorem ServiceInvariant.servesFilters {event : LoopEvent} {before after : LoopState}
    (invariant : ServiceInvariant before) (stepped : Stepped before event after) :
    ServesFilters event before after := by
  match event, stepped with
  | .packet context frame, stepped =>
      intro message topic parsed routed validTopic slot isOpen filter member matched
      obtain ⟨retCode, handled, _⟩ := stepped.handled_of_parsed parsed
      obtain ⟨packets, sent, delivered, _⟩ := handled.routed routed
      obtain ⟨subscribed, site, siteMember, path, leaf⟩ :=
        invariant.served slot isOpen filter member
      have plain := ((pubTopicValid_iff topic).mp validTopic).2
      have visited : rootVisits site.path site.inner (tokens topic) = true := by
        have childless := invariant.valid.childless siteMember
        rw [path] at childless ⊢
        exact rootVisits_complete matched plain childless
      rw [sent.addedPackets (invariant.sound.senders slot)]
      exact delivered _ (mem_publishDeliveries_of_visits routed invariant.unfailing subscribed
        siteMember visited leaf)
  | .accept _, _ => trivial
  | .fail _, _ => trivial
  | .remove _, _ => trivial
  | .flush _ _, _ => trivial

/-- With memory and valid filters, in a run in which no SUBSCRIBE finds the leaf of
another client with the same id, acknowledged filters are served. -/
theorem servesFilters_of_findsOwnLeaf {memory : Memory} (unfailing : memory.Unfailing)
    {events : List LoopEvent}
    (valid : Along loopStep (fun event before _ => SubscribesValid event before)
      (.start memory) events)
    (finds : Along loopStep (fun event before _ => FindsOwnLeaf event before)
      (.start memory) events) :
    Along loopStep ServesFilters (.start memory) events := by
  refine Along.of_invariant (fun event before after invariant stepped both => ?_)
    (ServiceInvariant.start unfailing) (valid.and finds)
  have took := loopStep_stepped stepped
  exact ⟨invariant.step took both.1 both.2, invariant.servesFilters took⟩

/-- Two clients with different ids subscribe `#` and `a`, the second one twice, and a
third one publishes. -/
def differentIds : List LoopEvent :=
  [.accept 5, .packet 5 (connectFrame 0x61), .packet 5 (subscribeFrame hash), .accept 6,
    .packet 6 (connectFrame 0x62), .packet 6 (subscribeFrame 0x61),
    .packet 6 (subscribeFrame 0x61), .accept 7, .packet 7 (publishFrame 0x61)]

theorem servesFilters_of_findsOwnLeaf_differentIds :
    (run loopStep (.start ⟨fun _ => true, fun _ => 0, 0⟩) differentIds).isSome = true ∧
      Along loopStep ServesFilters (.start ⟨fun _ => true, fun _ => 0, 0⟩) differentIds := by
  have valid : Along loopStep (fun event before _ => SubscribesValid event before)
      (.start ⟨fun _ => true, fun _ => 0, 0⟩) differentIds :=
    along_of_check (fun event before => decide (SubscribesValid event before))
      (fun _ _ => of_decide_eq_true) (by decide +kernel)
  have finds : Along loopStep (fun event before _ => FindsOwnLeaf event before)
      (.start ⟨fun _ => true, fun _ => 0, 0⟩) differentIds :=
    along_of_check (fun event before => decide (FindsOwnLeaf event before))
      (fun _ _ => of_decide_eq_true) (by decide +kernel)
  exact ⟨by decide +kernel, servesFilters_of_findsOwnLeaf (fun _ => rfl) valid finds⟩

/-- Two clients with the same id subscribe the same filter. -/
def sameIds : List LoopEvent :=
  [.accept 5, .packet 5 (connectFrame 0x61), .packet 5 (subscribeFrame 0x61), .accept 6,
    .packet 6 (connectFrame 0x61), .packet 6 (subscribeFrame 0x61)]

/-- The second one has its SUBACK with code 0, and gets nothing. -/
theorem servesFilters_sameIds :
    ∃ before after,
      run loopStep (.start ⟨fun _ => true, fun _ => 0, 0⟩) sameIds = some before ∧
      loopStep (.packet 5 (publishFrame 0x61)) before = some after ∧
      (before.session 6).filters = [.ofBuffer [0x61]] ∧
      addedPackets before.broker after.broker 6 = [] ∧
      ¬ Along loopStep ServesFilters (.start ⟨fun _ => true, fun _ => 0, 0⟩)
        (sameIds ++ [.packet 5 (publishFrame 0x61)]) := by
  have computed : (run loopStep (.start ⟨fun _ => true, fun _ => 0, 0⟩) sameIds).map
      (fun before => ((before.session 6).filters, decide (before.IsOpen 6),
        (parsedMessage before.broker 5 (publishFrame 0x61)).bind publishedTopic,
        (loopStep (.packet 5 (publishFrame 0x61)) before).map fun after =>
          addedPackets before.broker after.broker 6)) =
      some ([.ofBuffer [0x61]], true, some (.ofBuffer [0x61]), some []) := by
    decide +kernel
  obtain ⟨before, ran, observed⟩ := Option.map_eq_some_iff.mp computed
  simp only [Prod.mk.injEq, decide_eq_true_eq] at observed
  obtain ⟨filters, isOpen, published, delivered⟩ := observed
  obtain ⟨message, parsed, routed⟩ := Option.bind_eq_some_iff.mp published
  obtain ⟨after, stepped, nothing⟩ := Option.map_eq_some_iff.mp delivered
  refine ⟨before, after, ran, stepped, filters, nothing, fun along => ?_⟩
  obtain ⟨packet, member, _⟩ := along.last ran stepped message _ parsed routed
    (by decide +kernel) 6 isOpen (.ofBuffer [0x61]) (by rw [filters]; simp)
    (by decide +kernel)
  rw [nothing] at member
  cases member

end MuMQ
