import Mathlib.Data.List.Dedup
import MuMQ.Substree.Matching

namespace MuMQ

open Data

/-! A tree that grows by successful calls of `mqtt3_sub_add` routes a topic to the
filters that match it. -/

/-- The arguments of a call of `mqtt3_sub_add`. -/
structure SubCall where
  context : Nat
  filter : CString
  qos : Int
  deriving DecidableEq

/-- Calls of `mqtt3_sub_add` one after another, each of which returns 0. -/
def subAddAll (broker : Broker) : List SubCall → Option Broker
  | [] => some broker
  | call :: rest =>
      match mqtt3SubAdd broker call.context call.filter call.qos with
      | some (after, rc) => if rc = 0 then subAddAll after rest else none
      | none => none

theorem subAddAll_cons {broker after : Broker} {call : SubCall}
    {rest : List SubCall} (ran : subAddAll broker (call :: rest) = some after) :
    ∃ middle, SubAdded broker call.context call.filter middle 0 ∧
      subAddAll middle rest = some after := by
  rw [subAddAll] at ran
  cases result : mqtt3SubAdd broker call.context call.filter call.qos with
  | none =>
      rw [result] at ran
      cases ran
  | some outcome =>
      obtain ⟨middle, rc⟩ := outcome
      rw [result] at ran
      simp only at ran
      split at ran
      · rename_i succeeded
        subst succeeded
        exact ⟨middle, mqtt3SubAdd_added result, ran⟩
      · cases ran

/-- The tree of `broker` comes from the one `init_database` builds by the
successful `calls`, all for valid filters and for subscribed clients whose ids
differ. -/
structure Built (calls : List SubCall) (broker : Broker) : Prop where
  ran : ∃ start memory, start.subs = (initDatabase memory).subs ∧
    subAddAll start calls = some broker
  valid : ∀ call ∈ calls, subTopicValid call.filter.bytes = true
  ids : ∀ call ∈ calls, ∀ other ∈ calls,
    (broker.clients call.context).idString =
      (broker.clients other.context).idString →
    call.context = other.context
  subscribed : ∀ call ∈ calls, (broker.clients call.context).isSubscribe = true

/-- The nodes and leaves of the tree are those of the calls. -/
structure Routed (calls : List SubCall) (broker : Broker) : Prop where
  distinct : broker.subs.Distinct
  leaves : ∀ path slot, broker.subs.HasLeaf path slot ↔
    ∃ call ∈ calls, call.context = slot ∧ filterPath call.filter = path
  nodup : ∀ site ∈ broker.subs.sites, site.contexts.Nodup
  onPath : ∀ site ∈ broker.subs.sites, site.path = [[]] ∨
    ∃ call ∈ calls, site.path <+: filterPath call.filter

theorem Routed.init {broker : Broker} {memory : Memory}
    (fresh : broker.subs = (initDatabase memory).subs) : Routed [] broker := by
  have sites : broker.subs.sites = [⟨[[]], [], false⟩] := by
    rw [fresh]
    rfl
  refine ⟨?_, ?_, ?_, ?_⟩
  · rw [fresh]
    exact ⟨List.not_mem_nil, trivial, trivial⟩
  · intro path slot
    simp [Subhier.HasLeaf, sites, Site.contexts]
  · intro site member
    rw [sites, List.mem_singleton] at member
    subst member
    exact List.nodup_nil
  · intro site member
    rw [sites, List.mem_singleton] at member
    exact .inl (by rw [member])

/-- One call adds exactly its own leaf, if no other client among the earlier
calls has the caller's id. -/
theorem Routed.step {calls : List SubCall} {call : SubCall}
    {broker after : Broker} (routed : Routed calls broker)
    (added : SubAdded broker call.context call.filter after 0)
    (ids : ∀ earlier ∈ calls,
      (broker.clients earlier.context).idString =
        (broker.clients call.context).idString →
      earlier.context = call.context) :
    Routed (calls ++ [call]) after := by
  refine ⟨added.distinct routed.distinct, ?_, added.nodup routed.nodup, ?_⟩
  · intro path slot
    have onlyCalls : ∀ {path slot}, after.subs.HasLeaf path slot →
        ∃ other ∈ calls ++ [call],
          other.context = slot ∧ filterPath other.filter = path := by
      intro path slot leaf
      rcases added.hasLeaf_after leaf with earlier | ⟨rfl, rfl⟩
      · obtain ⟨other, member, found⟩ := (routed.leaves _ _).mp earlier
        exact ⟨other, by simp [member], found⟩
      · exact ⟨call, by simp, rfl, rfl⟩
    refine ⟨onlyCalls, ?_⟩
    rintro ⟨other, member, rfl, rfl⟩
    rcases List.mem_append.mp member with earlier | own
    · exact added.hasLeaf_before ((routed.leaves _ _).mpr ⟨other, earlier, rfl, rfl⟩)
    · rw [List.mem_singleton] at own
      subst own
      -- the leaf the call finds or makes belongs to a client with the caller's id
      obtain ⟨slot, leaf, namesake⟩ := added.served
      obtain ⟨origin, originMember, rfl, _⟩ := onlyCalls leaf
      have same : origin.context = other.context := by
        rcases List.mem_append.mp originMember with earlier | last
        · exact ids origin earlier namesake
        · rw [List.mem_singleton.mp last]
      rwa [same] at leaf
  · intro site member
    rcases added.path_after member with ⟨old, oldMember, path⟩ | onPath
    · rw [← path]
      rcases routed.onPath old oldMember with top | ⟨other, member, onPath⟩
      · exact .inl top
      · exact .inr ⟨other, by simp [member], onPath⟩
    · exact .inr ⟨call, by simp, onPath⟩

private theorem subAddAll_idString {calls : List SubCall} {broker after : Broker}
    (ran : subAddAll broker calls = some after) (slot : Nat) :
    (after.clients slot).idString = (broker.clients slot).idString := by
  induction calls generalizing broker with
  | nil =>
      cases ran
      rfl
  | cons call rest induction =>
      obtain ⟨middle, added, ranRest⟩ := subAddAll_cons ran
      exact (induction ranRest).trans (added.idString slot)

private theorem Routed.run {calls rest : List SubCall} {broker after : Broker}
    (routed : Routed calls broker) (ran : subAddAll broker rest = some after)
    (ids : ∀ call ∈ calls ++ rest, ∀ other ∈ calls ++ rest,
      (after.clients call.context).idString =
        (after.clients other.context).idString →
      call.context = other.context) :
    Routed (calls ++ rest) after := by
  induction rest generalizing calls broker with
  | nil =>
      cases ran
      rwa [List.append_nil]
  | cons call rest induction =>
      have fixed := subAddAll_idString ran
      obtain ⟨middle, added, ranRest⟩ := subAddAll_cons ran
      have stepped := routed.step added (by
        intro earlier member same
        apply ids earlier (by simp [member]) call (by simp)
        rw [fixed, fixed]
        exact same)
      have final := induction stepped ranRest (by simpa using ids)
      rwa [List.append_assoc, List.singleton_append] at final

theorem Built.routed {calls : List SubCall} {broker : Broker}
    (built : Built calls broker) : Routed calls broker := by
  obtain ⟨start, memory, fresh, ran⟩ := built.ran
  have routed := (Routed.init fresh).run ran (by simpa using built.ids)
  simpa using routed

theorem Built.validPaths {calls : List SubCall} {broker : Broker}
    (built : Built calls broker) : broker.subs.ValidPaths := by
  intro site member
  rcases built.routed.onPath site member with top | ⟨call, called, onPath⟩
  · exact .inl top
  · exact .inr ⟨call.filter, built.valid call called, onPath⟩

theorem subsProcess_sublist (clients : Nat → Client) (leaves : List Subleaf) :
    (subsProcess clients leaves).Sublist (leaves.map Subleaf.context) := by
  induction leaves with
  | nil => exact .slnil
  | cons leaf rest induction =>
      rw [subsProcess, List.map_cons]
      split
      · exact induction.cons_cons _
      · exact induction.cons _

/-- The callbacks of a search, each with the path of its node. -/
def pathCallbacks (clients : Nat → Client) (tokens : List Token)
    (sites : List Site) : List (Nat × List Token) :=
  sites.flatMap fun site =>
    (rootCallbacksAt clients tokens site).map fun slot => (slot, site.path)

theorem map_pathCallbacks (clients : Nat → Client) (tokens : List Token)
    (chain : Subhier) :
    (pathCallbacks clients tokens chain.sites).map Prod.fst =
      subTreeProcess clients tokens chain := by
  rw [pathCallbacks, List.map_flatMap, subTreeProcess_eq]
  apply List.flatMap_congr
  intro site _
  rw [List.map_map]
  exact List.map_id _

theorem nodup_pathCallbacks {clients : Nat → Client} {tokens : List Token}
    {chain : Subhier} (distinct : chain.Distinct)
    (nodup : ∀ site ∈ chain.sites, site.contexts.Nodup) :
    (pathCallbacks clients tokens chain.sites).Nodup := by
  refine List.nodup_flatMap.mpr ⟨?_, ?_⟩
  · intro site member
    have once : (rootCallbacksAt clients tokens site).Nodup := by
      unfold rootCallbacksAt
      split
      · exact (nodup site member).sublist (subsProcess_sublist clients site.leaves)
      · exact List.nodup_nil
    exact once.map fun _ _ same => (Prod.mk.inj same).1
  · have apart := List.pairwise_map.mp distinct.paths_nodup
    refine apart.imp ?_
    intro site other different pair inSite inOther
    obtain ⟨_, _, rfl⟩ := List.mem_map.mp inSite
    obtain ⟨_, _, same⟩ := List.mem_map.mp inOther
    exact different (Prod.mk.inj same).2.symm

/-- Every subscribed client whose filter matches is called back, at the node of
the filter. -/
private theorem mem_pathCallbacks {calls : List SubCall} {broker : Broker}
    (built : Built calls broker) {topic : CString} (plain : PlainLevel topic.bytes)
    (slot : Nat) (path : List Token) :
    (slot, path) ∈ pathCallbacks broker.clients (tokens topic) broker.subs.sites ↔
      ∃ call ∈ calls, FilterMatches call.filter topic ∧ call.context = slot ∧
        filterPath call.filter = path := by
  unfold pathCallbacks
  simp only [List.mem_flatMap, List.mem_map, Prod.mk.injEq]
  constructor
  · rintro ⟨site, member, _, called, rfl, rfl⟩
    unfold rootCallbacksAt at called
    split at called
    · rename_i visited
      obtain ⟨_, leaf⟩ := mem_subsProcess.mp called
      obtain ⟨call, callMember, rfl, path⟩ :=
        (built.routed.leaves _ _).mp ⟨site, member, rfl, leaf⟩
      rw [← path] at visited
      exact ⟨call, callMember, rootVisits_sound visited, rfl, path⟩
    · cases called
  · rintro ⟨call, callMember, matched, rfl, rfl⟩
    obtain ⟨site, member, path, leaf⟩ :=
      (built.routed.leaves _ _).mpr ⟨call, callMember, rfl, rfl⟩
    refine ⟨site, member, call.context, ?_, rfl, path⟩
    have visited : rootVisits site.path site.inner (tokens topic) = true := by
      have childless := built.validPaths.childless member
      rw [path] at childless ⊢
      exact rootVisits_complete matched plain childless
    rw [rootCallbacksAt, if_pos visited]
    exact mem_subsProcess.mpr ⟨built.subscribed call callMember, leaf⟩

/-- The pairs of client and filter that the calls added, each once. -/
def addedPairs (calls : List SubCall) : List (Nat × CString) :=
  (calls.map fun call => (call.context, call.filter)).dedup

/-- The deliveries that topic matching demands: one for each added pair whose
filter matches the topic. -/
def matchingDeliveries (calls : List SubCall) (topic : CString)
    (payload : List UInt8) (len : UInt32) : List Delivery :=
  ((addedPairs calls).filter fun pair => decide (FilterMatches pair.2 topic)).map
    fun pair => ⟨pair.1, topic, payload, len⟩

theorem subTreeProcess_perm {calls : List SubCall} {broker : Broker}
    (built : Built calls broker) {topic : CString} (plain : PlainLevel topic.bytes) :
    (subTreeProcess broker.clients (tokens topic) broker.subs).Perm
      (((addedPairs calls).filter fun pair =>
        decide (FilterMatches pair.2 topic)).map Prod.fst) := by
  have located :
      (pathCallbacks broker.clients (tokens topic) broker.subs.sites).Perm
        (((addedPairs calls).filter fun pair =>
          decide (FilterMatches pair.2 topic)).map
            fun pair => (pair.1, filterPath pair.2)) := by
    apply (List.perm_ext_iff_of_nodup ?_ ?_).mpr
    · rintro ⟨slot, path⟩
      rw [mem_pathCallbacks built plain]
      simp only [addedPairs, List.mem_map, List.mem_filter, List.mem_dedup,
        decide_eq_true_eq, Prod.mk.injEq, Prod.exists]
      constructor
      · rintro ⟨call, member, matched, rfl, rfl⟩
        exact ⟨_, _, ⟨⟨call, member, rfl, rfl⟩, matched⟩, rfl, rfl⟩
      · rintro ⟨_, _, ⟨⟨call, member, rfl, rfl⟩, matched⟩, rfl, rfl⟩
        exact ⟨call, member, matched, rfl, rfl⟩
    · exact nodup_pathCallbacks built.routed.distinct built.routed.nodup
    · refine List.Nodup.map ?_ ((List.nodup_dedup _).filter _)
      rintro pair other same
      obtain ⟨slots, paths⟩ := Prod.mk.inj same
      exact Prod.ext slots (filterPath_injective paths)
  have projected := located.map Prod.fst
  rwa [map_pathCallbacks, List.map_map] at projected

theorem mqtt3SubTreeProcess_perm {calls : List SubCall} {broker : Broker}
    (built : Built calls broker) {topic : CString} (plain : PlainLevel topic.bytes)
    {payload : List UInt8} {len : UInt32}
    (succeeded : (mqtt3SubTreeProcess broker topic payload len).2.1 = 0) :
    (mqtt3SubTreeProcess broker topic payload len).2.2.Perm
      (matchingDeliveries calls topic payload len) := by
  obtain ⟨_, ⟨_, deliveries⟩ | ⟨failed, _⟩⟩ :=
    mqtt3SubTreeProcess_cases broker topic payload len
  · rw [deliveries, matchingDeliveries]
    have delivered := (subTreeProcess_perm built plain).map
      fun context => (⟨context, topic, payload, len⟩ : Delivery)
    rwa [List.map_map] at delivered
  · rw [failed] at succeeded
    cases succeeded

/-- What is delivered depends on the set of added pairs alone. -/
theorem matchingDeliveries_perm {calls calls' : List SubCall}
    (same : ∀ pair, pair ∈ addedPairs calls' ↔ pair ∈ addedPairs calls)
    (topic : CString) (payload : List UInt8) (len : UInt32) :
    (matchingDeliveries calls' topic payload len).Perm
      (matchingDeliveries calls topic payload len) := by
  have pairs : (addedPairs calls').Perm (addedPairs calls) :=
    (List.perm_ext_iff_of_nodup (List.nodup_dedup _) (List.nodup_dedup _)).mpr same
  exact (pairs.filter _).map _

/-- `mqtt3_sub_tree_process` fails only for want of memory.  Otherwise it calls
back once for each added pair whose filter matches, and so the same after every
other history that added the same pairs. -/
theorem mqtt3SubTreeProcess_routes {calls : List SubCall} {broker : Broker}
    (built : Built calls broker) (topic : CString) (payload : List UInt8)
    (len : UInt32) (valid : pubTopicValid topic.bytes = true) :
    let result := mqtt3SubTreeProcess broker topic payload len
    (result.2.1 = 0 ∨ ¬ broker.memory.Unfailing) ∧
      (result.2.1 = 0 →
        result.2.2.Perm (matchingDeliveries calls topic payload len) ∧
          ∀ calls' broker', Built calls' broker' →
            (∀ pair, pair ∈ addedPairs calls' ↔ pair ∈ addedPairs calls) →
            let result' := mqtt3SubTreeProcess broker' topic payload len
            result'.2.1 = 0 → result'.2.2.Perm result.2.2) := by
  have plain := ((pubTopicValid_iff topic).mp valid).2
  refine ⟨?_, fun succeeded => ?_⟩
  · obtain ⟨_, ⟨succeeded, _⟩ | ⟨_, _, failing⟩⟩ :=
      mqtt3SubTreeProcess_cases broker topic payload len
    · exact .inl succeeded
    · exact .inr failing
  · have routed := mqtt3SubTreeProcess_perm built plain succeeded
    refine ⟨routed, ?_⟩
    intro calls' broker' built' same result' succeeded'
    have routed' := mqtt3SubTreeProcess_perm built' plain succeeded'
    exact routed'.trans
      ((matchingDeliveries_perm same topic payload len).trans routed.symm)

/-- Two clients, one of which subscribes `a/#` twice and the other `a`. -/
def twoSubscribers : Broker × List SubCall :=
  ({ initDatabase ⟨fun _ => true, fun _ => 0, 0⟩ with
      clients := fun slot =>
        { Client.zero with
          id := UInt8.ofNat (0x41 + slot) :: List.replicate 23 0
          isSubscribe := true } },
    [⟨0, .ofBuffer [0x61, slash, hash], 0⟩, ⟨1, .ofBuffer [0x61], 0⟩,
      ⟨0, .ofBuffer [0x61, slash, hash], 1⟩])

def twoSubscribed : Broker :=
  (subAddAll twoSubscribers.1 twoSubscribers.2).getD twoSubscribers.1

theorem mqtt3SubTreeProcess_routes_twoSubscribers :
    subAddAll twoSubscribers.1 twoSubscribers.2 = some twoSubscribed ∧
      (mqtt3SubTreeProcess twoSubscribed (.ofBuffer [0x61]) [1, 2] 2).2.2.Perm
        (matchingDeliveries twoSubscribers.2 (.ofBuffer [0x61]) [1, 2] 2) := by
  have returns : (subAddAll twoSubscribers.1 twoSubscribers.2).isSome = true := by
    decide +kernel
  have ran : subAddAll twoSubscribers.1 twoSubscribers.2 = some twoSubscribed := by
    unfold twoSubscribed
    obtain ⟨broker, found⟩ := Option.isSome_iff_exists.mp returns
    rw [found]
    rfl
  have built : Built twoSubscribers.2 twoSubscribed :=
    ⟨⟨twoSubscribers.1, twoSubscribers.1.memory, rfl, ran⟩, by decide +kernel,
      by decide +kernel, by decide +kernel⟩
  have routes := mqtt3SubTreeProcess_routes built (.ofBuffer [0x61]) [1, 2] 2
    (by decide +kernel)
  exact ⟨ran, (routes.2 (by decide +kernel)).1⟩

end MuMQ
