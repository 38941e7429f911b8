import MuMQ.Broker.State
import MuMQ.Substree.Insert

namespace MuMQ

open Data

/-! `mqtt3_sub_add` and `mqtt3_sub_tree_process` on the nodes of the tree. -/

/-- The path of the node a filter ends in.  `mqtt3_sub_add` hands the whole token
list to the child of the root that it picks by the first token, so that token
stands twice. -/
def filterPath (sub : CString) : List Token :=
  match tokens sub with
  | [] => []
  | token :: rest => token :: token :: rest

theorem filterPath_of_tokens {sub : CString} {token : Token} {rest : List Token}
    (split : tokens sub = token :: rest) : filterPath sub = token :: tokens sub := by
  rw [filterPath, split]

/-- What a call of `mqtt3_sub_add` does to the broker. -/
structure SubAdded (broker : Broker) (context : Nat) (sub : CString)
    (after : Broker) (rc : Int) : Prop where
  memory : Memory.Extends broker.memory after.memory
  clients : ∃ subs subCount, after.clients =
    (broker.modifyClient context fun client =>
      { client with subs := subs, subCount := subCount }).clients
  contextsByPtr : after.contextsByPtr = broker.contextsByPtr
  edit : SitesEdit broker.clients context (filterPath sub) broker.subs.sites
    after.subs.sites
  distinct : broker.subs.Distinct → after.subs.Distinct
  unlocked : broker.memory.Unfailing → after.rootLock = broker.rootLock
  outcome :
    (rc = 0 ∧
        ∃ site ∈ after.subs.sites, site.path = filterPath sub ∧
          ∃ leaf ∈ site.leaves,
            (broker.clients leaf.context).idString =
              (broker.clients context).idString) ∨
      ((rc = 1 ∨ rc = -2) ∧
        leafPairs after.subs.sites = leafPairs broker.subs.sites ∧
        ¬ broker.memory.Unfailing)

private theorem SubAdded.failed {broker : Broker} {context : Nat} {sub : CString}
    {memory : Memory} {rc : Int} {rootLock : Bool}
    (extended : Memory.Extends broker.memory memory)
    (failing : ¬ broker.memory.Unfailing) (rcFails : rc = 1 ∨ rc = -2) :
    SubAdded broker context sub
      { broker with rootLock := rootLock, memory := memory } rc where
  memory := extended
  clients := by
    refine ⟨(broker.clients context).subs, (broker.clients context).subCount, ?_⟩
    funext slot
    by_cases own : slot = context
    · subst own
      simp
    · simp [Broker.modifyClient_other, own]
  contextsByPtr := rfl
  edit := SitesEdit.refl _ _
  distinct := fun distinct => distinct
  unlocked := fun unfailing => absurd unfailing failing
  outcome := .inr ⟨rcFails, rfl, failing⟩

private theorem SubAdded.finish {broker : Broker} {context : Nat} {sub : CString}
    {before : Subhier} {insertion : Insertion} {result : Insertion × Subhier × Int}
    (extended : Memory.Extends broker.memory insertion.memory)
    (added : Added broker.clients context (filterPath sub) before insertion result)
    (edit : SitesEdit broker.clients context (filterPath sub) broker.subs.sites
      result.2.1.sites)
    (leaves : leafPairs before.sites = leafPairs broker.subs.sites)
    (distinct : broker.subs.Distinct → result.2.1.Distinct) :
    SubAdded broker context sub (broker.finish context result.1 result.2.1)
      (if result.2.2 = -1 then 0 else result.2.2) where
  memory := extended.trans added.memory
  clients := ⟨result.1.subs, result.1.subCount, rfl⟩
  contextsByPtr := rfl
  edit := edit
  distinct := distinct
  unlocked := fun _ => rfl
  outcome := by
    rcases added.outcome with ⟨rc, site, member, path, leaf⟩ | ⟨rc, kept, failing⟩
    · exact .inl ⟨by simp [rc], site, member, path, leaf⟩
    · exact .inr ⟨by simp [rc], kept.trans leaves,
        fun unfailing => failing (unfailing.extends extended)⟩

theorem mqtt3SubAdd_added {broker after : Broker} {context : Nat} {sub : CString}
    {qos rc : Int} (ran : mqtt3SubAdd broker context sub qos = some (after, rc)) :
    SubAdded broker context sub after rc := by
  have tokenised : Memory.Extends broker.memory (broker.tokenised context sub).memory :=
    Memory.Extends.later _ _
  cases mqtt3SubAdd_ran ran with
  | untokenised fails =>
      exact SubAdded.failed (Memory.Extends.later _ _)
        (fun unfailing => fails (unfailing.succeedsFor _)) (.inl rfl)
  | @found token rest result split succeeds found =>
      have added := onBranch_some (fun address parent subs children next =>
        subAdd_added broker.clients context qos (tokens sub) address parent token subs
          children next _) found
      rw [← filterPath_of_tokens split] at added
      exact SubAdded.finish tokenised added added.edit rfl added.distinct
  | @created token rest result split succeeds missing allocated inserted =>
      have added := subAdd_added broker.clients context qos (tokens sub)
        (broker.tokenised context sub).memory.calls (some Broker.rootAddress) token [] .null
        broker.subs { broker.tokenised context sub with
          memory := (broker.tokenised context sub).memory.later 2 }
      have edit := SitesEdit.of_new_node added.edit
      rw [← filterPath_of_tokens split, inserted] at added
      rw [← filterPath_of_tokens split, inserted] at edit
      exact SubAdded.finish (tokenised.trans (Memory.Extends.later _ 2)) added edit rfl
        (fun distinct => added.distinct ⟨onBranch_none missing, trivial, distinct⟩)
  | failed split succeeds missing fails =>
      exact SubAdded.failed (tokenised.trans (Memory.Extends.later _ _))
        (fun unfailing => fails ((unfailing.extends tokenised).succeedsFor 2)) (.inr rfl)

/-- Without failing allocations the call returns whenever `root_lock` is free. -/
theorem mqtt3SubAdd_returns {broker : Broker} (context : Nat) (sub : CString)
    (qos : Int) (unlocked : broker.rootLock = false)
    (unfailing : broker.memory.Unfailing) :
    ∃ after, mqtt3SubAdd broker context sub qos = some (after, 0) := by
  rcases mqtt3SubAdd_outcome broker context sub qos with
    ⟨locked, _⟩ | ⟨after, rc, ran, _⟩
  · rw [unlocked] at locked
    cases locked
  · rcases (mqtt3SubAdd_added ran).outcome with ⟨rfl, _⟩ | ⟨_, _, failing⟩
    · exact ⟨after, ran⟩
    · exact absurd unfailing failing

/-- The frame of `mqtt3_sub_add`: the fields of a client it leaves alone. -/
theorem SubAdded.client {broker after : Broker} {context : Nat} {sub : CString}
    {rc : Int} (added : SubAdded broker context sub after rc) (slot : Nat) :
    ∃ subs subCount,
      after.clients slot =
        { broker.clients slot with subs := subs, subCount := subCount } := by
  obtain ⟨subs, subCount, clients⟩ := added.clients
  rw [clients]
  by_cases own : slot = context
  · subst own
    exact ⟨subs, subCount, by simp⟩
  · refine ⟨(broker.clients slot).subs, (broker.clients slot).subCount, ?_⟩
    rw [Broker.modifyClient_other _ _ own]

theorem SubAdded.isSubscribe {broker after : Broker} {context : Nat}
    {sub : CString} {rc : Int} (added : SubAdded broker context sub after rc)
    (slot : Nat) :
    (after.clients slot).isSubscribe = (broker.clients slot).isSubscribe := by
  obtain ⟨_, _, client⟩ := added.client slot
  rw [client]

theorem SubAdded.idString {broker after : Broker} {context : Nat} {sub : CString}
    {rc : Int} (added : SubAdded broker context sub after rc) (slot : Nat) :
    (after.clients slot).idString = (broker.clients slot).idString := by
  obtain ⟨_, _, client⟩ := added.client slot
  rw [client]
  rfl

/-! Which client has a leaf at which node, before and after a call. -/

/-- The node at `path` has a leaf of the client in `slot`. -/
def Subhier.HasLeaf (chain : Subhier) (path : List Token) (slot : Nat) : Prop :=
  ∃ site ∈ chain.sites, site.path = path ∧ slot ∈ site.contexts

theorem Subhier.hasLeaf_iff {chain : Subhier} {path : List Token} {slot : Nat} :
    chain.HasLeaf path slot ↔ (path, slot) ∈ leafPairs chain.sites := by
  simp only [HasLeaf, leafPairs, List.mem_flatMap, List.mem_map, Prod.mk.injEq]
  constructor
  · rintro ⟨site, member, path, inSite⟩
    exact ⟨site, member, slot, inSite, path, rfl⟩
  · rintro ⟨site, member, _, inSite, path, rfl⟩
    exact ⟨site, member, path, inSite⟩

theorem SubAdded.hasLeaf_failed {broker after : Broker} {context : Nat}
    {sub : CString} {rc : Int} (added : SubAdded broker context sub after rc)
    (failed : rc ≠ 0) {path : List Token} {slot : Nat} :
    after.subs.HasLeaf path slot ↔ broker.subs.HasLeaf path slot := by
  rcases added.outcome with ⟨zero, _⟩ | ⟨_, kept, _⟩
  · exact absurd zero failed
  · rw [Subhier.hasLeaf_iff, Subhier.hasLeaf_iff, kept]

theorem SubAdded.hasLeaf_before {broker after : Broker} {context : Nat}
    {sub : CString} {rc : Int} (added : SubAdded broker context sub after rc)
    {path : List Token} {slot : Nat} (leaf : broker.subs.HasLeaf path slot) :
    after.subs.HasLeaf path slot := by
  obtain ⟨site, member, rfl, inSite⟩ := leaf
  obtain ⟨new, newMember, changed⟩ := added.edit.mem_before member
  refine ⟨new, newMember, changed.path, ?_⟩
  cases changed with
  | same => exact inSite
  | leaf atEnd changed => exact changed.contexts_subset inSite
  | grown => exact inSite

theorem SubAdded.hasLeaf_after {broker after : Broker} {context : Nat}
    {sub : CString} {rc : Int} (added : SubAdded broker context sub after rc)
    {path : List Token} {slot : Nat} (leaf : after.subs.HasLeaf path slot) :
    broker.subs.HasLeaf path slot ∨ (slot = context ∧ path = filterPath sub) := by
  obtain ⟨site, member, rfl, inSite⟩ := leaf
  rcases added.edit.mem_after member with isFresh | ⟨old, oldMember, changed⟩
  · obtain ⟨leaf, leafMember, rfl⟩ := List.mem_map.mp inSite
    exact .inr ⟨isFresh.leaves leaf leafMember,
      isFresh.atEnd (List.ne_nil_of_mem leafMember)⟩
  · cases changed with
    | same => exact .inl ⟨_, oldMember, rfl, inSite⟩
    | leaf atEnd changed =>
        rcases changed.mem_contexts inSite with earlier | own
        · exact .inl ⟨_, oldMember, rfl, earlier⟩
        · exact .inr ⟨own, atEnd⟩
    | grown => exact .inl ⟨_, oldMember, rfl, inSite⟩

/-- A node after a call stood there before, or lies on the way to the filter's. -/
theorem SubAdded.path_after {broker after : Broker} {context : Nat}
    {sub : CString} {rc : Int} (added : SubAdded broker context sub after rc)
    {site : Site} (member : site ∈ after.subs.sites) :
    (∃ old ∈ broker.subs.sites, old.path = site.path) ∨
      site.path <+: filterPath sub := by
  rcases added.edit.mem_after member with isFresh | ⟨old, oldMember, changed⟩
  · exact .inr isFresh.onPath
  · exact .inl ⟨old, oldMember, changed.path.symm⟩

theorem SubAdded.nodup {broker after : Broker} {context : Nat} {sub : CString}
    {rc : Int} (added : SubAdded broker context sub after rc)
    (nodup : ∀ site ∈ broker.subs.sites, site.contexts.Nodup) :
    ∀ site ∈ after.subs.sites, site.contexts.Nodup := by
  intro site member
  rcases added.edit.mem_after member with isFresh | ⟨old, oldMember, changed⟩
  · exact isFresh.nodup
  · exact changed.nodup (nodup old oldMember)

/-- After a successful call the node of the filter has a leaf of a client with
the id of the subscriber. -/
theorem SubAdded.served {broker after : Broker} {context : Nat} {sub : CString}
    (added : SubAdded broker context sub after 0) :
    ∃ slot, after.subs.HasLeaf (filterPath sub) slot ∧
      (broker.clients slot).idString = (broker.clients context).idString := by
  rcases added.outcome with ⟨_, site, member, path, leaf, inSite, namesake⟩ |
    ⟨failed | failed, _⟩
  · exact ⟨leaf.context,
      ⟨site, member, path, List.mem_map_of_mem inSite⟩, namesake⟩
  · cases failed
  · cases failed

/-- The deliveries of `mqtt3_sub_tree_process`: those of the search for the
tokens of the topic, or none when the tokenisation fails. -/
theorem mqtt3SubTreeProcess_cases (broker : Broker) (topic : CString)
    (payload : List UInt8) (len : UInt32) :
    let result := mqtt3SubTreeProcess broker topic payload len
    Memory.Extends broker.memory result.1 ∧
      ((result.2.1 = 0 ∧
          result.2.2 =
            (subTreeProcess broker.clients (tokens topic) broker.subs).map
              (fun context => ⟨context, topic, payload, len⟩)) ∨
        (result.2.1 = 1 ∧ result.2.2 = [] ∧ ¬ broker.memory.Unfailing)) := by
  obtain ⟨extended, tokenised⟩ := subTopicTokenise_yields broker.memory topic
  unfold mqtt3SubTreeProcess
  rcases result : subTopicTokenise broker.memory topic with ⟨memory, _ | topics⟩
  · rw [result] at extended tokenised
    rcases tokenised with impossible | ⟨_, failing⟩
    · cases impossible
    · exact ⟨extended, .inr ⟨rfl, rfl, failing⟩⟩
  · rw [result] at extended tokenised
    rcases tokenised with found | ⟨impossible, _⟩
    · cases found
      exact ⟨extended, .inl ⟨rfl, rfl⟩⟩
    · cases impossible

end MuMQ
