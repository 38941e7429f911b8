import MuMQ.Broker.Representation
import MuMQ.Substree.Search
import MuMQ.Substree.Versions

namespace MuMQ

open Data

/-! A search of the tree between the stores of subscriptions: the threads that call
`mqtt3_sub_add` exclude each other with `root_lock`, and the one that searches takes no lock
that they hold.  Each load and store is one step. -/

/-- What the threads do to the tree next: one of them has taken `root_lock` in
`mqtt3_sub_add`, makes its next store, or gives the lock back and returns; a handler sets
`is_subscribe`; one begins `mqtt3_sub_tree_process`, or makes its next load there. -/
inductive RoutingEvent where
  | subAdd (call : SubCall)
  | store
  | unlock
  | subscribed (context : Nat)
  | search (topic : CString)
  | load
  deriving DecidableEq

/-- `inside` is the call that holds `root_lock`, with the stores that it still has to make
and the broker behind it; `broker` is as the calls before it left it, and `tree` what is in
memory.  The search has `places` to go to and has called back `called`. -/
structure RoutingState where
  broker : Broker
  finished : List SubCall
  inside : Option (SubCall × List Subhier × Broker)
  tree : Subhier
  tokens : List Token
  places : List SearchPlace
  called : List Nat

/-- `context->is_subscribe = true`. -/
def Broker.subscribe (broker : Broker) (context : Nat) : Broker :=
  broker.modifyClient context fun client => { client with isSubscribe := true }

namespace RoutingState

def start (broker : Broker) : RoutingState := ⟨broker, [], none, broker.subs, [], [], []⟩

def shared (state : RoutingState) : SharedTree := ⟨state.tree, state.broker.clients⟩

/-- The calls that have begun. -/
def begun (state : RoutingState) : List SubCall :=
  state.finished ++ (state.inside.map Prod.fst).toList

end RoutingState

def routingStep : RoutingEvent → RoutingState → Option RoutingState
  | .subAdd call, state =>
      match state.inside, mqtt3SubAdd state.broker call.context call.filter call.qos with
      | none, some (after, rc) =>
          if rc = 0 then
            some
              { state with
                inside :=
                  some (call,
                    mqtt3SubAddVersions state.broker call.context call.filter call.qos, after) }
          else none
      | _, _ => none
  | .store, state =>
      match state.inside with
      | some (call, version :: versions, after) =>
          some { state with tree := version, inside := some (call, versions, after) }
      | _ => none
  | .unlock, state =>
      match state.inside with
      | some (call, [], after) =>
          some
            { state with broker := after, finished := state.finished ++ [call], inside := none }
      | _ => none
  | .subscribed context, state =>
      some
        { state with
          broker := state.broker.subscribe context
          inside := state.inside.map fun (call, versions, after) =>
            (call, versions, after.subscribe context) }
  | .search topic, state =>
      if state.places = [] then
        some { state with tokens := tokens topic, places := [.start], called := [] }
      else none
  | .load, state =>
      ((search state.tokens).visit state.shared state.places).map fun (places, called) =>
        { state with places := places, called := state.called ++ called }

/-- Connected clients, with the identifiers that they gave. -/
def connectAll (memory : Memory) (clients : List (MqttBuffer × Nat)) : Broker :=
  clients.foldl (fun broker client => addClient broker client.1 client.2) (initDatabase memory)

/-- The clients that topic matching demands to call back: the subscribed ones, once for each
of their filters that matches. -/
def matchingClients (calls : List SubCall) (clients : Nat → Client) (topic : CString) :
    List Nat :=
  ((addedPairs calls).filter fun pair =>
    decide (FilterMatches pair.2 topic ∧ (clients pair.1).isSubscribe = true)).map Prod.fst

/-! The search in the tree of some calls. -/

section Routed

variable {calls : List SubCall} {broker : Broker}

theorem Routed.validPaths (routed : Routed calls broker)
    (valid : ∀ call ∈ calls, subTopicValid call.filter.bytes = true) :
    broker.subs.ValidPaths := by
  intro site member
  rcases routed.onPath site member with top | ⟨call, called, onPath⟩
  · exact .inl top
  · exact .inr ⟨call.filter, valid call called, onPath⟩

theorem Routed.mem_pathCallbacks (routed : Routed calls broker)
    (valid : ∀ call ∈ calls, subTopicValid call.filter.bytes = true) {topic : CString}
    (plain : PlainLevel topic.bytes) (slot : Nat) (path : List Token) :
    (slot, path) ∈ pathCallbacks broker.clients (tokens topic) broker.subs.sites ↔
      ∃ call ∈ calls, FilterMatches call.filter topic ∧
        (broker.clients slot).isSubscribe = true ∧ call.context = slot ∧
        filterPath call.filter = path := by
  simp only [pathCallbacks, List.mem_flatMap, List.mem_map, Prod.mk.injEq]
  constructor
  · rintro ⟨site, member, _, called, rfl, rfl⟩
    rw [rootCallbacksAt] at called
    split at called
    · rename_i visited
      obtain ⟨subscribed, leaf⟩ := mem_subsProcess.mp called
      obtain ⟨call, callMember, own, path⟩ :=
        (routed.leaves _ _).mp ⟨site, member, rfl, leaf⟩
      rw [← path] at visited
      exact ⟨call, callMember, rootVisits_sound visited, subscribed, own, path⟩
    · cases called
  · rintro ⟨call, callMember, matched, subscribed, rfl, rfl⟩
    obtain ⟨site, member, path, leaf⟩ :=
      (routed.leaves _ _).mpr ⟨call, callMember, rfl, rfl⟩
    have childless := (routed.validPaths valid).childless member
    rw [path] at childless
    have visited : rootVisits site.path site.inner (tokens topic) = true := by
      rw [path]
      exact rootVisits_complete matched plain childless
    refine ⟨site, member, call.context, ?_, rfl, path⟩
    rw [rootCallbacksAt, if_pos visited]
    exact mem_subsProcess.mpr ⟨subscribed, leaf⟩

theorem Routed.subTreeProcess_perm (routed : Routed calls broker)
    (valid : ∀ call ∈ calls, subTopicValid call.filter.bytes = true) {topic : CString}
    (plain : PlainLevel topic.bytes) :
    (subTreeProcess broker.clients (tokens topic) broker.subs).Perm
      (matchingClients calls broker.clients topic) := by
  have located :
      (pathCallbacks broker.clients (tokens topic) broker.subs.sites).Perm
        (((addedPairs calls).filter fun pair =>
          decide (FilterMatches pair.2 topic ∧ (broker.clients pair.1).isSubscribe = true)).map
            fun pair => (pair.1, filterPath pair.2)) := by
    apply (List.perm_ext_iff_of_nodup ?_ ?_).mpr
    · rintro ⟨slot, path⟩
      rw [routed.mem_pathCallbacks valid plain]
      simp only [addedPairs, List.mem_map, List.mem_filter, List.mem_dedup, decide_eq_true_eq,
        Prod.mk.injEq, Prod.exists]
      constructor
      · rintro ⟨call, member, matched, subscribed, rfl, rfl⟩
        exact ⟨_, _, ⟨⟨call, member, rfl, rfl⟩, matched, subscribed⟩, rfl, rfl⟩
      · rintro ⟨_, _, ⟨⟨call, member, rfl, rfl⟩, matched, subscribed⟩, rfl, rfl⟩
        exact ⟨call, member, matched, subscribed, rfl, rfl⟩
    · exact nodup_pathCallbacks routed.distinct routed.nodup
    · refine List.Nodup.map ?_ ((List.nodup_dedup _).filter _)
      rintro pair other same
      obtain ⟨slots, paths⟩ := Prod.mk.inj same
      exact Prod.ext slots (filterPath_injective paths)
  have projected := located.map Prod.fst
  rwa [map_pathCallbacks, List.map_map] at projected

end Routed

/-! What holds between the steps. -/

/-- The calls of a run are for valid filters and clients whose identifiers differ. -/
structure Admits (known : Nat → Client) (calls : List SubCall) : Prop where
  valid : ∀ call ∈ calls, subTopicValid call.filter.bytes = true
  ids : ∀ call ∈ calls, ∀ other ∈ calls,
    (known call.context).idString = (known other.context).idString →
    call.context = other.context

/-- A broker with the tree of some calls, among clients that are known by their
identifiers. -/
structure RoutesCalls (known : Nat → Client) (calls : List SubCall) (broker : Broker) :
    Prop where
  routed : Routed calls broker
  represented : RepresentationInvariant broker
  ids : ∀ slot, (broker.clients slot).idString = (known slot).idString

/-- The tree in memory lies between those of the calls that have returned and of those that
have begun. -/
structure RoutingInvariant (known : Nat → Client) (state : RoutingState) : Prop where
  returned : RoutesCalls known state.finished state.broker
  grown : Subhier.RootGrown state.broker.subs state.tree
  outside : state.inside = none → state.tree = state.broker.subs
  inside : ∀ call versions after, state.inside = some (call, versions, after) →
    Versions Subhier.RootGrown state.tree versions after.subs ∧
      RoutesCalls known (state.finished ++ [call]) after ∧
      ∀ slot, (after.clients slot).isSubscribe = (state.broker.clients slot).isSubscribe

theorem Broker.subscribe_clients (broker : Broker) (context slot : Nat) :
    ((broker.subscribe context).clients slot).idString = (broker.clients slot).idString ∧
      ((broker.subscribe context).clients slot).isSubscribe =
        (decide (slot = context) || (broker.clients slot).isSubscribe) := by
  rw [subscribe]
  by_cases own : slot = context
  · subst own
    rw [modifyClient_self]
    exact ⟨rfl, by simp⟩
  · rw [modifyClient_other _ _ own]
    exact ⟨rfl, by simp [own]⟩

namespace RoutesCalls

variable {known : Nat → Client} {calls : List SubCall} {broker after : Broker}

theorem subscribe (routes : RoutesCalls known calls broker) (context : Nat) :
    RoutesCalls known calls (broker.subscribe context) where
  routed := ⟨routes.routed.distinct, routes.routed.leaves, routes.routed.nodup,
    routes.routed.onPath⟩
  represented := routes.represented.of_same rfl rfl (modifyClient_arrays fun _ => ⟨rfl, rfl⟩)
  ids slot := (broker.subscribe_clients context slot).1.trans (routes.ids slot)

theorem subAdd (routes : RoutesCalls known calls broker) {call : SubCall}
    (ran : mqtt3SubAdd broker call.context call.filter call.qos = some (after, 0))
    (apart : ∀ earlier ∈ calls, (known earlier.context).idString =
      (known call.context).idString → earlier.context = call.context) :
    RoutesCalls known (calls ++ [call]) after where
  routed := by
    apply routes.routed.step (mqtt3SubAdd_added ran)
    intro earlier member same
    rw [routes.ids, routes.ids] at same
    exact apart earlier member same
  represented := routes.represented.subAdd ran
  ids slot := ((mqtt3SubAdd_added ran).idString slot).trans (routes.ids slot)

/-- Pointers into the tree lead where they should. -/
theorem good (routes : RoutesCalls known calls broker)
    (valid : ∀ call ∈ calls, subTopicValid call.filter.bytes = true) :
    broker.subs.addresses.Nodup ∧ broker.subs.Tidy :=
  ⟨routes.represented.represents.addresses,
    .of_nodes (fun node member => (routes.represented.represents.nodes node member).distinct)
      fun _ member isHash => (routes.routed.validPaths valid).childless member isHash⟩

end RoutesCalls

namespace RoutingInvariant

variable {known : Nat → Client} {state after : RoutingState}

theorem start {broker : Broker} (routes : RoutesCalls known [] broker) :
    RoutingInvariant known (.start broker) where
  returned := routes
  grown := .refl _
  outside _ := rfl
  inside _ _ _ none := nomatch none

/-- The tree when the call that is inside has returned. -/
theorem outcome (invariant : RoutingInvariant known state) :
    ∃ broker, RoutesCalls known state.begun broker ∧
      Subhier.RootGrown state.tree broker.subs ∧
      ∀ slot, (broker.clients slot).isSubscribe = (state.broker.clients slot).isSubscribe := by
  rcases isInside : state.inside with _ | ⟨call, versions, after⟩
  · refine ⟨state.broker, ?_, ?_, fun _ => rfl⟩
    · have begun : state.begun = state.finished := by
        rw [RoutingState.begun, isInside]
        exact List.append_nil _
      rw [begun]
      exact invariant.returned
    · rw [invariant.outside isInside]
      exact .refl _
  · obtain ⟨chain, routes, flags⟩ := invariant.inside call versions after isInside
    refine ⟨after, ?_, chain.grown, flags⟩
    rw [RoutingState.begun, isInside]
    exact routes

theorem good (invariant : RoutingInvariant known state)
    (valid : ∀ call ∈ state.begun, subTopicValid call.filter.bytes = true) :
    state.shared.Good := by
  obtain ⟨broker, routes, grown, _⟩ := invariant.outcome
  obtain ⟨nodup, tidy⟩ := routes.good valid
  exact ⟨nodup.sublist grown.addresses_sublist, tidy.of_rootGrown grown⟩

/-- A step keeps what holds between the steps, and what is shared only grows. -/
theorem step (invariant : RoutingInvariant known state) {event : RoutingEvent}
    (stepped : routingStep event state = some after)
    (apart : ∀ call, event = .subAdd call → ∀ earlier ∈ state.finished,
      (known earlier.context).idString = (known call.context).idString →
      earlier.context = call.context) :
    RoutingInvariant known after ∧ state.shared.Grows after.shared := by
  have same : MoreSubscribed state.broker.clients state.broker.clients := fun _ => id
  cases event with
  | subAdd call =>
      rw [routingStep] at stepped
      split at stepped
      · rename_i broker rc isInside ran
        split at stepped
        · rename_i succeeded
          cases stepped
          subst succeeded
          have tree := invariant.outside isInside
          refine ⟨⟨invariant.returned, invariant.grown, nofun, ?_⟩, .refl _, same⟩
          rintro _ _ _ ⟨⟩
          refine ⟨?_, invariant.returned.subAdd ran (apart call rfl),
            fun slot => (mqtt3SubAdd_added ran).isSubscribe slot⟩
          show Versions _ state.tree _ _
          rw [tree]
          exact mqtt3SubAddVersions_grown ran
        · cases stepped
      · cases stepped
  | store =>
      rw [routingStep] at stepped
      split at stepped
      · rename_i call version versions broker isInside
        cases stepped
        obtain ⟨chain, routes, flags⟩ := invariant.inside _ _ _ isInside
        cases chain with
        | store grown rest =>
            refine ⟨⟨invariant.returned, invariant.grown.trans grown, nofun, ?_⟩, grown, same⟩
            rintro _ _ _ ⟨⟩
            exact ⟨rest, routes, flags⟩
      · cases stepped
  | unlock =>
      rw [routingStep] at stepped
      split at stepped
      · rename_i call broker isInside
        cases stepped
        obtain ⟨chain, routes, flags⟩ := invariant.inside _ _ _ isInside
        have tree : state.tree = broker.subs := chain.of_nil
        refine ⟨⟨routes, ?_, fun _ => tree, nofun⟩, .refl _, ?_⟩
        · show Subhier.RootGrown broker.subs state.tree
          rw [tree]
          exact .refl _
        · exact fun slot subscribed => (flags slot).trans subscribed
      · cases stepped
  | subscribed context =>
      cases stepped
      refine ⟨⟨invariant.returned.subscribe context, invariant.grown, ?_, ?_⟩, .refl _, ?_⟩
      · intro none
        exact invariant.outside (Option.map_eq_none_iff.mp none)
      · intro call versions broker some
        obtain ⟨⟨_, _, inner⟩, isInside, same⟩ := Option.map_eq_some_iff.mp some
        cases same
        obtain ⟨chain, routes, flags⟩ := invariant.inside _ _ _ isInside
        refine ⟨chain, routes.subscribe context, fun slot => ?_⟩
        rw [(inner.subscribe_clients context slot).2,
          (state.broker.subscribe_clients context slot).2, flags]
      · intro slot subscribed
        show ((state.broker.subscribe context).clients slot).isSubscribe = true
        rw [(state.broker.subscribe_clients context slot).2]
        exact Bool.or_eq_true_iff.mpr (.inr subscribed)
  | search topic =>
      rw [routingStep] at stepped
      split at stepped
      · cases stepped
        exact ⟨⟨invariant.returned, invariant.grown, invariant.outside, invariant.inside⟩,
          .refl _, same⟩
      · cases stepped
  | load =>
      obtain ⟨_, _, rfl⟩ := Option.map_eq_some_iff.mp stepped
      exact ⟨⟨invariant.returned, invariant.grown, invariant.outside, invariant.inside⟩,
        .refl _, same⟩

end RoutingInvariant

/-! Runs. -/

/-- The call that begins with a step. -/
def RoutingEvent.call : RoutingEvent → Option SubCall
  | .subAdd call => some call
  | _ => none

/-- The calls that begin in a run. -/
def subAdds (events : List RoutingEvent) : List SubCall := events.filterMap RoutingEvent.call

theorem Admits.sublist {known : Nat → Client} {calls fewer : List SubCall}
    (admits : Admits known calls) (subset : fewer ⊆ calls) : Admits known fewer where
  valid call member := admits.valid call (subset member)
  ids call member other otherMember := admits.ids call (subset member) other (subset otherMember)

theorem routingStep_begun {event : RoutingEvent} {state after : RoutingState}
    (stepped : routingStep event state = some after) :
    after.begun = state.begun ++ event.call.toList := by
  cases event with
  | subAdd call =>
      rw [routingStep] at stepped
      split at stepped
      · rename_i isInside _
        split at stepped
        · cases stepped
          simp [RoutingState.begun, RoutingEvent.call, isInside]
        · cases stepped
      · cases stepped
  | store =>
      rw [routingStep] at stepped
      split at stepped
      · rename_i isInside
        cases stepped
        simp [RoutingState.begun, RoutingEvent.call, isInside]
      · cases stepped
  | unlock =>
      rw [routingStep] at stepped
      split at stepped
      · rename_i isInside
        cases stepped
        simp [RoutingState.begun, RoutingEvent.call, isInside]
      · cases stepped
  | subscribed context =>
      cases stepped
      simp [RoutingState.begun, RoutingEvent.call, Function.comp_def]
  | search topic =>
      rw [routingStep] at stepped
      split at stepped
      · cases stepped
        simp [RoutingState.begun, RoutingEvent.call]
      · cases stepped
  | load =>
      obtain ⟨_, _, rfl⟩ := Option.map_eq_some_iff.mp stepped
      simp [RoutingState.begun, RoutingEvent.call]

theorem run_begun {events : List RoutingEvent} {state final : RoutingState}
    (ran : run routingStep state events = some final) :
    final.begun = state.begun ++ subAdds events := by
  induction events generalizing state with
  | nil =>
      cases ran
      exact (List.append_nil _).symm
  | cons event rest induction =>
      obtain ⟨next, stepped, ranRest⟩ := run_cons.mp ran
      rw [induction ranRest, routingStep_begun stepped, List.append_assoc, subAdds, subAdds]
      cases isCall : event.call with
      | none => rw [List.filterMap_cons_none isCall]; rfl
      | some call => rw [List.filterMap_cons_some isCall]; rfl

namespace RoutingInvariant

variable {known : Nat → Client} {state final : RoutingState} {events : List RoutingEvent}

theorem next {event : RoutingEvent} {after : RoutingState}
    (invariant : RoutingInvariant known state)
    (stepped : routingStep event state = some after) (admits : Admits known after.begun) :
    RoutingInvariant known after ∧ state.shared.Grows after.shared := by
  apply invariant.step stepped
  rintro call rfl earlier member same
  have begun := routingStep_begun stepped
  refine admits.ids earlier ?_ call ?_ same
  · rw [begun]
    exact List.mem_append_left _ (List.mem_append_left _ member)
  · rw [begun]
    exact List.mem_append_right _ (List.mem_singleton_self call)

theorem run (invariant : RoutingInvariant known state)
    (ran : Data.run routingStep state events = some final) (admits : Admits known final.begun) :
    RoutingInvariant known final := by
  induction events generalizing state with
  | nil =>
      cases ran
      exact invariant
  | cons event rest induction =>
      obtain ⟨after, stepped, ranRest⟩ := run_cons.mp ran
      refine induction (invariant.next stepped (admits.sublist ?_)).1 ranRest
      rw [run_begun ranRest]
      exact List.subset_append_left _ _

/-- A search that goes on beside calls. -/
theorem search (invariant : RoutingInvariant known state) {begin : SharedTree}
    {topicTokens : List Token} {turns : Nat}
    (between : (MuMQ.search topicTokens).Between begin .start state.shared state.places
      state.called turns) (own : state.tokens = topicTokens)
    (ran : Data.run routingStep state events = some final) (admits : Admits known final.begun)
    (single : ∀ topic, .search topic ∉ events) :
    RoutingInvariant known final ∧
      (MuMQ.search topicTokens).Between begin .start final.shared final.places final.called
        (turns + events.count .load) ∧ final.tokens = topicTokens := by
  induction events generalizing state turns with
  | nil =>
      cases ran
      exact ⟨invariant, between, own⟩
  | cons event rest induction =>
      obtain ⟨after, stepped, ranRest⟩ := run_cons.mp ran
      have admitsAfter : Admits known after.begun := by
        apply admits.sublist
        rw [run_begun ranRest]
        exact List.subset_append_left _ _
      obtain ⟨kept, grows⟩ := invariant.next stepped admitsAfter
      have good := kept.good admitsAfter.valid
      have singleRest : ∀ topic, .search topic ∉ rest :=
        fun topic member => single topic (List.mem_cons_of_mem _ member)
      have written : (MuMQ.search topicTokens).Between begin .start after.shared state.places
          state.called turns := between.write good grows
      rw [List.count_cons]
      by_cases isLoad : event = .load
      · subst isLoad
        obtain ⟨⟨places, called⟩, visited, rfl⟩ := Option.map_eq_some_iff.mp stepped
        rw [own] at visited
        have loaded := written.read good visited
        obtain ⟨keptFinal, betweenFinal, ownFinal⟩ :=
          induction kept loaded own ranRest singleRest
        refine ⟨keptFinal, ?_, ownFinal⟩
        rw [if_pos (by rfl), Nat.add_comm (List.count _ _) 1, ← Nat.add_assoc]
        exact betweenFinal
      · rw [if_neg (by simpa using isLoad), Nat.add_zero]
        have still : after.places = state.places ∧ after.called = state.called ∧
            after.tokens = state.tokens := by
          cases event with
          | load => exact absurd rfl isLoad
          | search topic => exact absurd List.mem_cons_self (single topic)
          | subscribed context =>
              cases stepped
              exact ⟨rfl, rfl, rfl⟩
          | subAdd | store | unlock =>
              rw [routingStep] at stepped
              split at stepped
              · first
                | cases stepped
                  exact ⟨rfl, rfl, rfl⟩
                | split at stepped
                  · cases stepped
                    exact ⟨rfl, rfl, rfl⟩
                  · cases stepped
              · cases stepped
        obtain ⟨places, called, tokens⟩ := still
        rw [← places, ← called] at written
        exact induction kept written (tokens.trans own) ranRest singleRest

end RoutingInvariant

theorem connectAll_routes (memory : Memory) (clients : List (MqttBuffer × Nat)) :
    RoutesCalls (connectAll memory clients).clients [] (connectAll memory clients) := by
  have kept : ∀ (clients : List (MqttBuffer × Nat)) (broker : Broker),
      broker.subs = (initDatabase memory).subs → RepresentationInvariant broker →
      let connected :=
        clients.foldl (fun broker client => addClient broker client.1 client.2) broker
      connected.subs = (initDatabase memory).subs ∧ RepresentationInvariant connected := by
    intro clients
    induction clients with
    | nil => exact fun broker fresh invariant => ⟨fresh, invariant⟩
    | cons client rest induction =>
        intro broker fresh invariant
        exact induction (addClient broker client.1 client.2) fresh
          (@RepresentationInvariant.step (.addClient client.1 client.2) broker _ invariant rfl)
  obtain ⟨fresh, represented⟩ := kept clients (initDatabase memory) rfl (.init memory)
  exact ⟨.init fresh, represented, fun _ => rfl⟩

theorem matchingClients_congr {calls : List SubCall} {clients clients' : Nat → Client}
    (same : ∀ slot, (clients slot).isSubscribe = (clients' slot).isSubscribe) (topic : CString) :
    matchingClients calls clients topic = matchingClients calls clients' topic := by
  simp only [matchingClients, same]

/-- A search that has begun in a run, at the end of the run. -/
theorem search_reached (memory : Memory) (clients : List (MqttBuffer × Nat))
    {before during : List RoutingEvent} {topic : CString} {middle final : RoutingState}
    (ranBefore : run routingStep (.start (connectAll memory clients)) before = some middle)
    (ran : run routingStep middle (.search topic :: during) = some final)
    (single : ∀ other, .search other ∉ during)
    (admits : Admits (connectAll memory clients).clients (subAdds (before ++ during))) :
    RoutingInvariant (connectAll memory clients).clients middle ∧
      middle.begun = subAdds before ∧
      RoutingInvariant (connectAll memory clients).clients final ∧
      final.begun = subAdds (before ++ during) ∧
      (search (tokens topic)).Between middle.shared .start final.shared final.places
        final.called (during.count .load) ∧
      final.tokens = tokens topic := by
  obtain ⟨searching, stepped, ranDuring⟩ := run_cons.mp ran
  have begunMiddle : middle.begun = subAdds before := run_begun ranBefore
  have begunSearching : searching.begun = subAdds before := by
    rw [routingStep_begun stepped, begunMiddle]
    exact List.append_nil _
  have begun : final.begun = subAdds (before ++ during) := by
    rw [run_begun ranDuring, begunSearching, subAdds, subAdds, subAdds, List.filterMap_append]
  have admitsBefore : Admits (connectAll memory clients).clients (subAdds before) := by
    apply admits.sublist
    rw [subAdds, subAdds, List.filterMap_append]
    exact List.subset_append_left _ _
  have invariant : RoutingInvariant (connectAll memory clients).clients middle :=
    (RoutingInvariant.start (connectAll_routes memory clients)).run ranBefore
      (begunMiddle ▸ admitsBefore)
  have keptSearching := (invariant.step stepped nofun).1
  rw [routingStep] at stepped
  split at stepped
  · cases stepped
    have between : (search (tokens topic)).Between middle.shared .start middle.shared [.start]
        [] 0 := .begin trivial
    obtain ⟨kept, reached, own⟩ :=
      keptSearching.search between rfl ranDuring (begun ▸ admits) single
    rw [Nat.zero_add] at reached
    exact ⟨invariant, begunMiddle, kept, begun, reached, own⟩
  · cases stepped

/-- Two connected clients, the first of which has subscribed `a`. -/
def twoConnected : List (MqttBuffer × Nat) := [(⟨1, some [0x41]⟩, 4), (⟨1, some [0x42]⟩, 5)]

def firstSubscribed : List RoutingEvent :=
  [.subAdd ⟨4, .ofBuffer [0x61], 0⟩, .store, .store, .store, .unlock, .subscribed 4]

/-- The second one subscribes `a` while it is searched. -/
def secondSubscribes : List RoutingEvent :=
  [.load, .load, .load, .subAdd ⟨5, .ofBuffer [0x61], 0⟩, .store, .subscribed 5] ++
    List.replicate 17 .load

/-- A search goes on by its own loads alone, as long as it has somewhere to go. -/
theorem loads_end {state : RoutingState} {topicTokens : List Token} {begin : SharedTree}
    {turns left : Nat} (good : state.shared.Good)
    (between : (search topicTokens).Between begin .start state.shared state.places
      state.called turns) (own : state.tokens = topicTokens)
    (room : state.tree.weight + 2 ≤ turns + left) :
    ∃ loads final, run routingStep state (List.replicate loads .load) = some final ∧
      final.places = [] ∧ final.shared = state.shared ∧
      (search topicTokens).Between begin .start final.shared final.places final.called
        (turns + loads) := by
  induction left generalizing state turns with
  | zero =>
      refine ⟨0, state, rfl, ?_, rfl, between⟩
      by_contra more
      obtain ⟨⟨places, called⟩, visited⟩ :=
        Option.isSome_iff_exists.mp (between.goesOn good more)
      have spent := (between.read good visited).spent state.shared good (Visitor.refl _ good)
      change turns + 1 + _ ≤ state.tree.weight + 2 at spent
      omega
  | succ left induction =>
      by_cases ended : state.places = []
      · exact ⟨0, state, rfl, ended, rfl, between⟩
      · obtain ⟨⟨places, called⟩, visited⟩ :=
          Option.isSome_iff_exists.mp (between.goesOn good ended)
        have loaded : routingStep .load state =
            some { state with places := places, called := state.called ++ called } := by
          rw [routingStep, own, visited]
          rfl
        obtain ⟨loads, final, ran, done, shared, betweenFinal⟩ :=
          @induction { state with places := places, called := state.called ++ called } (turns + 1)
            good (between.read good visited) own (by change state.tree.weight + 2 ≤ _; omega)
        refine ⟨loads + 1, final, run_cons.mpr ⟨_, loaded, ran⟩, done, shared, ?_⟩
        rw [Nat.add_comm loads 1, ← Nat.add_assoc]
        exact betweenFinal

end MuMQ
