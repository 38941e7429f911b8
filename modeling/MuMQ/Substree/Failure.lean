import MuMQ.Substree.Others

namespace MuMQ

open Data

/-! Subscriptions that fail in an allocation. -/

/-- No lock is held, and the client's array of nodes has `sub_count` entries. -/
structure Broker.Ready (broker : Broker) (context : Nat) : Prop where
  rootUnlocked : broker.rootLock = false
  branchUnlocked : broker.branchLock = false
  subs : (broker.clients context).subs.length = (broker.clients context).subCount

/-- The deliveries of `mqtt3_sub_tree_process` for every valid topic are those
before. -/
def SameDeliveries (before after : Broker) : Prop :=
  ∀ (memory : Memory) (topic : CString) (payload : List UInt8) (len : UInt32),
    pubTopicValid topic.bytes = true →
      (mqtt3SubTreeProcess { after with memory := memory } topic payload len).2.2 =
        (mqtt3SubTreeProcess { before with memory := memory } topic payload len).2.2

/-- `mqtt3_sub_add` returns, with the broker ready for the next call, and without an
effect on routing when it fails. -/
def SurvivesSubAdd (broker : Broker) (context : Nat) (sub : CString) (qos : Int) : Prop :=
  ∃ after rc, mqtt3SubAdd broker context sub qos = some (after, rc) ∧
    after.Ready context ∧ (rc ≠ 0 → SameDeliveries broker after)

/-- The tokens of `sub` are allocated, the root has no child for the first of them,
and the allocation of this child or of its topic fails. -/
def LeavesRootLocked (broker : Broker) (sub : CString) : Prop :=
  broker.memory.SucceedsFor (2 * (tokens sub).length) ∧
    (∀ token ∈ (tokens sub).head?, token ∉ broker.subs.topics) ∧
    ¬ (broker.memory.later (2 * (tokens sub).length)).SucceedsFor 2

/-! The locks and the array of nodes through an insertion. -/

structure Insertion.Ready (insertion : Insertion) : Prop where
  unlocked : insertion.branchLock = false
  subs : insertion.subs.length = insertion.subCount

theorem subAddLeaf_ready {insertion : Insertion} (ready : insertion.Ready)
    (clients : Nat → Client) (context : Nat) (qos : Int) (address : Address)
    (leaves : List Subleaf) :
    (subAddLeaf clients context qos address leaves insertion).1.Ready := by
  have outcome := subAddLeaf_outcome clients context qos address leaves insertion
  generalize subAddLeaf clients context qos address leaves insertion = result at outcome ⊢
  cases outcome with
  | renewed found => exact ready
  | failed missing fails => exact ⟨ready.unlocked, ready.subs⟩
  | reused missing free => exact ⟨ready.unlocked, (List.length_set ..).trans ready.subs⟩
  | appended missing full =>
      refine ⟨ready.unlocked, ?_⟩
      rw [List.length_append, List.length_take, ready.subs, Nat.min_self, List.length_singleton]

/-- The sibling loop runs `add` on a node of the chain, the one with the topic. -/
theorem onBranch_runs {topic : Token} {add : Subhier → Insertion → Insertion × Subhier × Int}
    {insertion : Insertion} {chain : Subhier} {result : Insertion × Subhier × Int}
    (found : onBranch topic add insertion chain = some result) :
    topic ∈ chain.topics ∧ ∃ node, result.1 = (add node insertion).1 := by
  induction chain generalizing result with
  | null => cases found
  | node address parent own subs children next _ induction =>
      rw [onBranch] at found
      split at found
      · rename_i here
        cases found
        exact ⟨by simp [Subhier.topics, here], _, rfl⟩
      · obtain ⟨tail, tailFound, rfl⟩ := Option.map_eq_some_iff.mp found
        obtain ⟨member, node, ran⟩ := induction tailFound
        exact ⟨by simp [Subhier.topics, member], node, ran⟩

theorem subAdd_ready (clients : Nat → Client) (context : Nat) (qos : Int)
    (tokens : List Token) (node : Subhier) {insertion : Insertion}
    (ready : insertion.Ready) :
    (subAdd clients context qos tokens node insertion).1.Ready := by
  induction tokens generalizing node insertion with
  | nil =>
      cases node with
      | null => exact ready
      | node address parent topic subs children next =>
          exact subAddLeaf_ready ready clients context qos address subs
  | cons token rest induction =>
      cases node with
      | null => exact ready
      | node address parent topic subs children next =>
          have outcome := subAdd_outcome clients context qos token rest address parent topic
            subs children next insertion
          generalize subAdd clients context qos (token :: rest)
            (.node address parent topic subs children next) insertion = result at outcome ⊢
          cases outcome with
          | @found result found =>
              obtain ⟨_, node, ran⟩ := onBranch_runs found
              show result.1.Ready
              rw [ran]
              exact induction node ready
          | created missing memory subsKept subCount unlocked ran =>
              rw [← ran]
              refine induction _ ⟨unlocked ready.unlocked, ?_⟩
              rw [subsKept, subCount]
              exact ready.subs
          | failed missing fails => exact ⟨ready.unlocked, ready.subs⟩

theorem Insertion.Ready.finish {insertion : Insertion} (ready : insertion.Ready)
    {broker : Broker} (unlocked : broker.rootLock = false) (context : Nat) (subs : Subhier) :
    (broker.finish context insertion subs).Ready context where
  rootUnlocked := unlocked
  branchUnlocked := ready.unlocked
  subs := by
    rw [Broker.finish, Broker.modifyClient_self]
    exact ready.subs

/-- The call returns, and only that exit leaves `root_lock` held. -/
theorem mqtt3SubAdd_ready {broker : Broker} {context : Nat} (sub : CString) (qos : Int)
    (ready : broker.Ready context) :
    ∃ after rc, mqtt3SubAdd broker context sub qos = some (after, rc) ∧
      ((LeavesRootLocked broker sub ∧ after.rootLock = true) ∨
        (¬ LeavesRootLocked broker sub ∧ after.Ready context)) := by
  have start : (broker.tokenised context sub).Ready := ⟨ready.branchUnlocked, ready.subs⟩
  rcases mqtt3SubAdd_outcome broker context sub qos with
    ⟨locked, _⟩ | ⟨after, rc, ran, outcome⟩
  · rw [ready.rootUnlocked] at locked
    cases locked
  · refine ⟨after, rc, ran, ?_⟩
    cases outcome with
    | untokenised fails =>
        exact .inr ⟨fun locked => fails locked.1,
          ⟨ready.rootUnlocked, ready.branchUnlocked, ready.subs⟩⟩
    | @found token rest result split succeeds found =>
        obtain ⟨member, node, inserted⟩ := onBranch_runs found
        have done := subAdd_ready broker.clients context qos (tokens sub) node start
        rw [← inserted] at done
        refine .inr ⟨fun locked => locked.2.1 token ?_ member,
          done.finish ready.rootUnlocked context _⟩
        rw [split]
        rfl
    | @created token rest result split succeeds missing allocated inserted =>
        have done := subAdd_ready broker.clients context qos (tokens sub)
          (.node (broker.tokenised context sub).memory.calls (some Broker.rootAddress) token []
            .null broker.subs)
          (⟨start.unlocked, start.subs⟩ : Insertion.Ready
            { broker.tokenised context sub with
              memory := (broker.tokenised context sub).memory.later 2 })
        rw [inserted] at done
        exact .inr ⟨fun locked => locked.2.2 allocated,
          done.finish ready.rootUnlocked context _⟩
    | @failed token rest calls split succeeds missing fails =>
        refine .inl ⟨⟨succeeds, fun other head => ?_, fails⟩, rfl⟩
        rw [split] at head
        cases head
        exact onBranch_none missing

/-! Routing after a call that fails. -/

theorem LeafChange.length_le {clients : Nat → Client} {context : Nat}
    {before after : List Subleaf} (changed : LeafChange clients context before after) :
    before.length ≤ after.length := by
  cases changed with
  | same => exact Nat.le_refl _
  | renewed sameContexts namesake =>
      have lengths := congrArg List.length sameContexts
      rw [List.length_map, List.length_map] at lengths
      exact Nat.le_of_eq lengths.symm
  | added leaf own alone => simp

theorem SiteChange.length_le {clients : Nat → Client} {context : Nat} {path : List Token}
    {old new : Site} (changed : SiteChange clients context path old new) :
    old.leaves.length ≤ new.leaves.length := by
  cases changed with
  | same => exact Nat.le_refl _
  | leaf atEnd changed => exact changed.length_le
  | grown before => exact Nat.le_refl _

theorem SiteChange.contexts {clients : Nat → Client} {context : Nat} {path : List Token}
    {old new : Site} (changed : SiteChange clients context path old new)
    (kept : new.leaves.length = old.leaves.length) : new.contexts = old.contexts := by
  cases changed with
  | same => rfl
  | leaf atEnd changed =>
      cases changed with
      | same => rfl
      | renewed sameContexts namesake => exact sameContexts
      | added leaf own alone => simp at kept
  | grown before => rfl

theorem length_leafPairs (sites : List Site) :
    (leafPairs sites).length = (sites.map fun site => site.leaves.length).sum := by
  rw [leafPairs, List.length_flatMap]
  simp [Site.contexts]

/-- On the way to the node of a valid filter no node loses its turn in a search by
getting a child. -/
theorem SiteChange.rootVisits {clients : Nat → Client} {context : Nat} {filter : CString}
    (valid : subTopicValid filter.bytes = true) {old new : Site}
    (changed : SiteChange clients context (filterPath filter) old new)
    (tokens : List Token) :
    MuMQ.rootVisits new.path new.inner tokens = MuMQ.rootVisits old.path old.inner tokens := by
  rw [changed.path]
  rcases changed.inner with same | ⟨outer, topic, rest, split⟩
  · rw [same]
  · have notHash : old.path.getLast? ≠ some [hash] := by
      intro isHash
      obtain ⟨front, ends⟩ := List.getLast?_eq_some_iff.mp isHash
      rw [ends, List.append_assoc] at split
      cases filterPath_hash_last valid split
    rw [rootVisits_inner notHash old.inner, rootVisits_inner notHash new.inner]

theorem SubAdded.subTreeProcess_failed {broker after : Broker} {context : Nat}
    {sub : CString} {rc : Int} (added : SubAdded broker context sub after rc)
    (valid : subTopicValid sub.bytes = true) (failed : rc ≠ 0) (tokens : List Token) :
    subTreeProcess after.clients tokens after.subs =
      subTreeProcess broker.clients tokens broker.subs := by
  have kept : leafPairs after.subs.sites = leafPairs broker.subs.sites := by
    rcases added.outcome with ⟨zero, _⟩ | ⟨_, kept, _⟩
    · exact absurd zero failed
    · exact kept
  have weights := congrArg List.length kept
  rw [length_leafPairs, length_leafPairs] at weights
  have edit := added.edit.of_weight (fun _ _ changed => changed.length_le) weights
  have flags : rootCallbacksAt after.clients tokens = rootCallbacksAt broker.clients tokens := by
    funext site
    unfold rootCallbacksAt
    simp only [subsProcess_eq_filter, added.isSubscribe]
  rw [subTreeProcess_eq, subTreeProcess_eq, flags]
  refine (edit.flatMap_eq (fun old _ new _ changed => ?_) fun new _ isFresh => ?_).symm
  · obtain ⟨changed, length⟩ := changed
    unfold rootCallbacksAt
    rw [changed.rootVisits valid, subsProcess_eq_filter, subsProcess_eq_filter]
    have contexts := changed.contexts length
    unfold Site.contexts at contexts
    rw [contexts]
  · rw [rootCallbacksAt, List.length_eq_zero_iff.mp isFresh.2, subsProcess, ite_self]

theorem SubAdded.sameDeliveries {broker after : Broker} {context : Nat}
    {sub : CString} {rc : Int} (added : SubAdded broker context sub after rc)
    (valid : subTopicValid sub.bytes = true) (failed : rc ≠ 0) :
    SameDeliveries broker after := by
  intro memory topic payload len _
  have same := added.subTreeProcess_failed valid failed
  unfold mqtt3SubTreeProcess
  rcases subTopicTokenise memory topic with ⟨_, _ | topics⟩
  · rfl
  · simp only [same]

/-- `mqtt3_sub_add` keeps its promises except when the node at the top of the tree
cannot be allocated. -/
theorem survivesSubAdd_iff {broker : Broker} {context : Nat} {sub : CString} (qos : Int)
    (ready : broker.Ready context) (valid : subTopicValid sub.bytes = true) :
    SurvivesSubAdd broker context sub qos ↔ ¬ LeavesRootLocked broker sub := by
  obtain ⟨after, rc, ran, outcome⟩ := mqtt3SubAdd_ready sub qos ready
  constructor
  · rintro ⟨other, code, same, otherReady, _⟩ locked
    rw [ran, Option.some.injEq, Prod.mk.injEq] at same
    rcases outcome with ⟨_, held⟩ | ⟨unlocked, _⟩
    · rw [same.1, otherReady.rootUnlocked] at held
      cases held
    · exact unlocked locked
  · intro unlocked
    rcases outcome with ⟨locked, _⟩ | ⟨_, afterReady⟩
    · exact absurd locked unlocked
    · exact ⟨after, rc, ran, afterReady, fun failed =>
        (mqtt3SubAdd_added ran).sameDeliveries valid failed⟩

/-- An allocator whose call `failing` fails. -/
def memoryFailing (failing : Nat) : Memory where
  succeeds := fun call => call ≠ failing
  contents := fun _ => 0
  calls := 0

/-- The filter `$a`. -/
def systemFilter : CString := ⟨[dollar, 0x61], by decide⟩

/-- The leaf cannot be allocated. -/
theorem survivesSubAdd_iff_noLeaf :
    SurvivesSubAdd (initDatabase (memoryFailing 10)) 0 systemFilter 0 ↔
      ¬ LeavesRootLocked (initDatabase (memoryFailing 10)) systemFilter :=
  survivesSubAdd_iff 0 ⟨rfl, rfl, rfl⟩ (by decide)

/-- The node for `$a` at the top of the tree cannot be allocated. -/
theorem survivesSubAdd_locked :
    (initDatabase (memoryFailing 6)).Ready 0 ∧ subTopicValid systemFilter.bytes = true ∧
      ¬ SurvivesSubAdd (initDatabase (memoryFailing 6)) 0 systemFilter 0 := by
  refine ⟨⟨rfl, rfl, rfl⟩, by decide, ?_⟩
  rintro ⟨after, rc, ran, ready, _⟩
  have held : (mqtt3SubAdd (initDatabase (memoryFailing 6)) 0 systemFilter 0).map
      (fun result => result.1.rootLock) = some true := by
    decide
  rw [ran, Option.map_some, ready.rootUnlocked] at held
  cases held

end MuMQ
