import MuMQ.Broker.HandMqtt
import MuMQ.Data.Run
import MuMQ.Substree.Nodes
import MuMQ.Substree.Routing

namespace MuMQ

open Data

/-! The subscription tree and the clients' arrays of nodes, over any sequence of
subscriptions and renamings. -/

/-- A call of `mqtt3_sub_add`, or one of the operations that change a client's id. -/
inductive TreeEvent where
  | subAdd (call : SubCall)
  | addClient (id : MqttBuffer) (fd : Nat)
  | cleanContext (fd : Nat)

/-- The broker after an event, `none` when a call waits for `root_lock` for ever. -/
def treeStep (event : TreeEvent) (broker : Broker) : Option Broker :=
  match event with
  | .subAdd call => (mqtt3SubAdd broker call.context call.filter call.qos).map Prod.fst
  | .addClient id fd => some (addClient broker id fd)
  | .cleanContext fd => some (broker.modifyClient fd cleanContext)

/-- The `prev` of the first leaf is `previous`, that of every other leaf is the leaf in
front of it. -/
def LinkedFrom (previous : Option Address) : List Subleaf → Prop
  | [] => True
  | leaf :: rest => leaf.prev = previous ∧ LinkedFrom (some leaf.address) rest

/-- The node that `init_database` makes. -/
def initialNode : Address := 2

/-- The first `sub_count` entries of a client's array of nodes. -/
def Client.subArray (client : Client) : List (Option Address) :=
  client.subs.take client.subCount

/-- A node has the right parent pointer and a doubly linked list of leaves, with one
leaf of a client at most, and stands once in the arrays of these clients. -/
structure Node.Represented (clients : Nat → Client) (node : Node) : Prop where
  parent : node.address ≠ initialNode → node.parent = some node.owner
  linked : LinkedFrom none node.leaves
  distinct : (node.leaves.map Subleaf.address).Nodup
  single : node.contexts.Nodup
  arrays : ∀ slot, (clients slot).subArray.count (some node.address) =
    if slot ∈ node.contexts then 1 else 0

structure Broker.Represents (broker : Broker) : Prop where
  distinct : broker.subs.Distinct
  addresses : broker.subs.addresses.Nodup
  nodes : ∀ node ∈ broker.subs.nodes Broker.rootAddress, node.Represented broker.clients

/-- What keeps the representation: no array has a gap or an entry that is no node, and
no address in use will be allocated again. -/
structure RepresentationInvariant (broker : Broker) : Prop where
  represents : broker.Represents
  counted : ∀ slot, (broker.clients slot).subs.length = (broker.clients slot).subCount
  entries : ∀ slot, ∀ entry ∈ (broker.clients slot).subs,
    ∃ address ∈ broker.subs.addresses, entry = some address
  made : ∀ address ∈ broker.subs.addresses, address < broker.memory.calls
  leavesMade : ∀ node ∈ broker.subs.nodes Broker.rootAddress, ∀ leaf ∈ node.leaves,
    leaf.address < broker.memory.calls

/-! One node. -/

theorem map_address_of_links {before after : List Subleaf}
    (links : after.map Subleaf.link = before.map Subleaf.link) :
    after.map Subleaf.address = before.map Subleaf.address := by
  have mapped := congrArg (List.map Prod.fst) links
  rwa [List.map_map, List.map_map] at mapped

theorem map_context_of_links {before after : List Subleaf}
    (links : after.map Subleaf.link = before.map Subleaf.link) :
    after.map Subleaf.context = before.map Subleaf.context := by
  have mapped := congrArg (List.map fun link => link.2.2) links
  rwa [List.map_map, List.map_map] at mapped

theorem LinkedFrom.of_links {previous : Option Address} {before after : List Subleaf}
    (linked : LinkedFrom previous before)
    (links : after.map Subleaf.link = before.map Subleaf.link) :
    LinkedFrom previous after := by
  induction before generalizing previous after with
  | nil =>
      rw [List.map_nil, List.map_eq_nil_iff] at links
      rw [links]
      trivial
  | cons old before induction =>
      obtain ⟨prev, rest⟩ := linked
      obtain ⟨new, after, rfl, link, restLinks⟩ := List.map_eq_cons_iff.mp links
      simp only [Subleaf.link, Prod.mk.injEq] at link
      refine ⟨link.2.1.trans prev, ?_⟩
      rw [link.1]
      exact induction rest restLinks

theorem LinkedFrom.concat {previous : Option Address} {leaves : List Subleaf}
    (linked : LinkedFrom previous leaves) {leaf : Subleaf}
    (prev : leaf.prev = ((leaves.getLast?).map Subleaf.address).or previous) :
    LinkedFrom previous (leaves ++ [leaf]) := by
  induction leaves generalizing previous with
  | nil => exact ⟨prev, trivial⟩
  | cons head rest induction =>
      refine ⟨linked.1, induction linked.2 ?_⟩
      cases rest with
      | nil => exact prev
      | cons second rest =>
          rw [prev, List.getLast?_cons_cons]
          rw [List.getLast?_eq_some_getLast (List.cons_ne_nil _ _)]
          rfl

section Change

variable {clients : Nat → Client} {context first last : Nat} {target : Option Address}
  {old new : Node}

theorem NodeChange.mem_contexts
    (changed : NodeChange clients context first last target old new) (slot : Nat) :
    slot ∈ new.contexts ↔
      slot ∈ old.contexts ∨ (slot = context ∧ target = some old.address) := by
  unfold Node.contexts
  by_cases here : target = some old.address
  · obtain ⟨leaf, leaves, own, _⟩ := changed.gains here
    rw [leaves, List.map_append, List.mem_append, List.map_singleton, List.mem_singleton, own]
    simp only [here, and_true]
  · rw [map_context_of_links (changed.keeps here)]
    simp only [here, and_false, or_false]

theorem NodeChange.alone (changed : NodeChange clients context first last target old new)
    (here : target = some old.address) : context ∉ old.contexts := by
  obtain ⟨_, _, _, _, _, _, alone⟩ := changed.gains here
  intro member
  obtain ⟨leaf, leafMember, own⟩ := List.mem_map.mp member
  exact alone leaf leafMember (by rw [own])

theorem NodeChange.leaves_made (changed : NodeChange clients context first last target old new)
    (made : ∀ leaf ∈ old.leaves, leaf.address < first) (order : first ≤ last) :
    ∀ leaf ∈ new.leaves, leaf.address < last := by
  intro leaf member
  by_cases here : target = some old.address
  · obtain ⟨gained, leaves, _, _, _, low, _⟩ := changed.gains here
    rw [leaves, List.mem_append, List.mem_singleton] at member
    rcases member with earlier | rfl
    · exact Nat.lt_of_lt_of_le (made leaf earlier) order
    · exact low
  · have inOld : leaf.address ∈ old.leaves.map Subleaf.address :=
      map_address_of_links (changed.keeps here) ▸ List.mem_map_of_mem member
    obtain ⟨earlier, earlierMember, same⟩ := List.mem_map.mp inOld
    rw [← same]
    exact Nat.lt_of_lt_of_le (made earlier earlierMember) order

/-- The node that gets the leaf enters the client's array. -/
theorem NodeChange.represented {clients' : Nat → Client}
    (changed : NodeChange clients context first last target old new)
    (represented : old.Represented clients) (made : ∀ leaf ∈ old.leaves, leaf.address < first)
    (own : (clients' context).subArray =
      (clients context).subArray ++ target.toList.map some)
    (others : ∀ slot, slot ≠ context → (clients' slot).subArray = (clients slot).subArray) :
    new.Represented clients' where
  parent := by
    rw [changed.address, changed.parent, changed.owner]
    exact represented.parent
  linked := by
    by_cases here : target = some old.address
    · obtain ⟨leaf, leaves, _, prev, _⟩ := changed.gains here
      rw [leaves]
      exact represented.linked.concat (by rw [prev, Option.or_none])
    · exact represented.linked.of_links (changed.keeps here)
  distinct := by
    by_cases here : target = some old.address
    · obtain ⟨leaf, leaves, _, _, low, _⟩ := changed.gains here
      rw [leaves, List.map_append, List.map_singleton]
      refine List.nodup_append.mpr ⟨represented.distinct, List.nodup_singleton _, ?_⟩
      intro address member other single same
      obtain ⟨earlier, earlierMember, rfl⟩ := List.mem_map.mp member
      rw [List.mem_singleton] at single
      have late := made earlier earlierMember
      rw [same, single] at late
      exact Nat.not_lt.mpr low late
    · rw [map_address_of_links (changed.keeps here)]
      exact represented.distinct
  single := by
    by_cases here : target = some old.address
    · obtain ⟨leaf, leaves, own, _⟩ := changed.gains here
      have alone := changed.alone here
      rw [Node.contexts, leaves, List.map_append, List.map_singleton, own]
      refine List.nodup_append.mpr ⟨represented.single, List.nodup_singleton _, ?_⟩
      intro slot member other single same
      rw [List.mem_singleton] at single
      exact alone (single ▸ same ▸ member)
    · rw [Node.contexts, map_context_of_links (changed.keeps here)]
      exact represented.single
  arrays := by
    intro slot
    rw [changed.address]
    simp only [changed.mem_contexts]
    by_cases isOwn : slot = context
    · subst isOwn
      rw [own, List.count_append, represented.arrays]
      by_cases here : target = some old.address
      · simp [here, changed.alone here]
      · have elsewhere : (target.toList.map some).count (some old.address) = 0 := by
          rw [List.count_eq_zero, List.mem_map]
          rintro ⟨address, member, same⟩
          rw [Option.mem_toList] at member
          exact here (same ▸ member)
        simp [here, elsewhere]
    · rw [others slot isOwn, represented.arrays]
      simp [isOwn]

end Change

/-! One call of `mqtt3_sub_add`. -/

theorem Placed.earlier {clients : Nat → Client} {context first : Nat} {owner : Address}
    {before after : Subhier} {start ready final : Insertion}
    (placed : Placed clients context first owner before ready after final)
    (calls : start.memory.calls ≤ ready.memory.calls) (subs : ready.subs = start.subs)
    (subCount : ready.subCount = start.subCount) :
    Placed clients context first owner before start after final where
  calls := Nat.le_trans calls placed.calls
  addresses := by
    obtain ⟨fresh, perm, nodup, made⟩ := placed.addresses
    exact ⟨fresh, perm, nodup, fun address member =>
      ⟨Nat.le_trans calls (made address member).1, (made address member).2⟩⟩
  nodes := by
    obtain ⟨target, edit, inside, subsAfter, subCountAfter⟩ := placed.nodes
    exact ⟨target, edit, inside, subs ▸ subsAfter, subCount ▸ subCountAfter⟩

theorem mqtt3SubAdd_placed {broker after : Broker} {context : Nat} {sub : CString}
    {qos rc : Int} (ran : mqtt3SubAdd broker context sub qos = some (after, rc))
    (placeable : Placeable broker.memory.calls broker.subs (broker.insertion context)) :
    Placed broker.clients context broker.memory.calls Broker.rootAddress broker.subs
      (broker.insertion context) after.subs (after.insertion context) := by
  have calls : (broker.insertion context).memory.calls ≤
      (broker.tokenised context sub).memory.calls := Nat.le_add_right _ _
  have tokenised : Placeable broker.memory.calls broker.subs
      (broker.tokenised context sub) :=
    ⟨placeable.nodup,
      fun address member => Nat.lt_of_lt_of_le (placeable.made address member) calls,
      placeable.counted, placeable.full, calls⟩
  cases mqtt3SubAdd_ran ran with
  | untokenised fails => exact .still (Nat.le_add_right _ _) rfl rfl
  | @found token rest result split succeeds found =>
      have placed : Placed broker.clients context broker.memory.calls Broker.rootAddress
          broker.subs (broker.tokenised context sub) result.2.1 result.1 :=
        onBranch_placed
          (fun node placeable =>
            subAdd_placed broker.clients context qos (tokens sub) _ node placeable)
          tokenised found
      rw [Broker.insertion_finish]
      exact placed.earlier calls rfl rfl
  | @created token rest result split succeeds missing allocated inserted =>
      have branchPlaceable : Placeable broker.memory.calls
          (.node (broker.tokenised context sub).memory.calls (some Broker.rootAddress) token []
            .null broker.subs)
          { broker.tokenised context sub with
            memory := (broker.tokenised context sub).memory.later 2 } := by
        refine ⟨?_, ?_, placeable.counted, placeable.full, Nat.le_add_right_of_le calls⟩
        · rw [Subhier.addresses, Subhier.addresses, List.nil_append, List.nodup_cons]
          exact ⟨fun member => Nat.lt_irrefl _ (tokenised.made _ member), placeable.nodup⟩
        · intro address member
          rcases List.mem_cons.mp member with rfl | inSubs
          · exact Nat.lt_add_of_pos_right (by decide)
          · exact Nat.lt_add_right 2 (tokenised.made address inSubs)
      have placed := subAdd_placed broker.clients context qos (tokens sub)
        Broker.rootAddress _ branchPlaceable
      rw [inserted] at placed
      rw [Broker.insertion_finish]
      exact placed.prepended ⟨calls, Nat.lt_add_of_pos_right (by decide)⟩ (Nat.le_refl _)
        rfl rfl
  | failed split succeeds missing fails =>
      exact .still (Nat.le_add_right_of_le calls) rfl rfl

theorem RepresentationInvariant.placeable {broker : Broker}
    (invariant : RepresentationInvariant broker) (context : Nat) :
    Placeable broker.memory.calls broker.subs (broker.insertion context) where
  nodup := invariant.represents.addresses
  made := invariant.made
  counted := invariant.counted context
  full := by
    intro gap
    obtain ⟨address, _, same⟩ := invariant.entries context none gap
    cases same
  later := Nat.le_refl _

/-- Every node after the call is a node before it, or an empty node that no array has,
to which the call then gives its leaf or not. -/
theorem RepresentationInvariant.mem_after {broker : Broker}
    (invariant : RepresentationInvariant broker) {context last : Nat}
    {target : Option Address} {after : List Node}
    (edit : NodesEdit broker.clients context broker.memory.calls last target
      (broker.subs.nodes Broker.rootAddress) after) {new : Node} (member : new ∈ after) :
    ∃ old, NodeChange broker.clients context broker.memory.calls last target old new ∧
      old.Represented broker.clients ∧
      ∀ leaf ∈ old.leaves, leaf.address < broker.memory.calls := by
  rcases edit.mem_after member with isFresh | ⟨old, oldMember, changed⟩
  · refine ⟨_, isFresh.change, ⟨fun _ => isFresh.parent, trivial, List.nodup_nil,
      List.nodup_nil, fun slot => ?_⟩, fun leaf none => absurd none List.not_mem_nil⟩
    rw [if_neg (by exact List.not_mem_nil), List.count_eq_zero]
    intro entered
    obtain ⟨address, inTree, same⟩ :=
      invariant.entries slot _ (List.mem_of_mem_take entered)
    cases same
    exact Nat.not_le.mpr (invariant.made _ inTree) isFresh.made.1
  · exact ⟨old, changed, invariant.represents.nodes old oldMember,
      invariant.leavesMade old oldMember⟩

theorem subArray_eq {client : Client} (counted : client.subs.length = client.subCount) :
    client.subArray = client.subs := by
  rw [Client.subArray, ← counted, List.take_length]

theorem RepresentationInvariant.subAdd {broker after : Broker} {context : Nat}
    {sub : CString} {qos rc : Int} (invariant : RepresentationInvariant broker)
    (ran : mqtt3SubAdd broker context sub qos = some (after, rc)) :
    RepresentationInvariant after := by
  have added := mqtt3SubAdd_added ran
  have placed := mqtt3SubAdd_placed ran (invariant.placeable context)
  obtain ⟨fresh, perm, freshNodup, made⟩ := placed.addresses
  obtain ⟨target, edit, inside, subs, subCount⟩ := placed.nodes
  have others : ∀ slot, slot ≠ context → after.clients slot = broker.clients slot := by
    obtain ⟨_, _, clients⟩ := added.clients
    intro slot isOther
    rw [clients, Broker.modifyClient_other _ _ isOther]
  have calls : broker.memory.calls ≤ after.memory.calls := added.memory.calls
  have counted : ∀ slot,
      (after.clients slot).subs.length = (after.clients slot).subCount := by
    intro slot
    by_cases isOwn : slot = context
    · subst isOwn
      have before := invariant.counted slot
      change (after.clients slot).subs = (broker.clients slot).subs ++ _ at subs
      change (after.clients slot).subCount = (broker.clients slot).subCount + _ at subCount
      rw [subs, subCount, List.length_append, List.length_map, before]
    · rw [others slot isOwn]
      exact invariant.counted slot
  have grown : ∀ address ∈ broker.subs.addresses, address ∈ after.subs.addresses :=
    fun address member => perm.symm.subset (List.mem_append_right _ member)
  refine ⟨⟨added.distinct invariant.represents.distinct, ?_, ?_⟩, counted, ?_, ?_, ?_⟩
  · refine perm.nodup_iff.mpr (List.nodup_append.mpr
      ⟨freshNodup, invariant.represents.addresses, ?_⟩)
    rintro address inFresh other earlier rfl
    exact Nat.not_le.mpr (invariant.made address earlier) (made address inFresh).1
  · intro new member
    obtain ⟨old, changed, represented, leavesMade⟩ := invariant.mem_after edit member
    refine changed.represented represented leavesMade ?_ fun slot isOther => ?_
    · rw [subArray_eq (counted context), subArray_eq (invariant.counted context)]
      exact subs
    · rw [others slot isOther]
  · intro slot entry member
    by_cases isOwn : slot = context
    · subst isOwn
      change (after.clients slot).subs = (broker.clients slot).subs ++ _ at subs
      rw [subs, List.mem_append] at member
      rcases member with earlier | isTarget
      · obtain ⟨address, inTree, same⟩ := invariant.entries slot entry earlier
        exact ⟨address, grown address inTree, same⟩
      · obtain ⟨address, inTarget, rfl⟩ := List.mem_map.mp isTarget
        exact ⟨address, inside address (Option.mem_toList.mp inTarget), rfl⟩
    · rw [others slot isOwn] at member
      obtain ⟨address, inTree, same⟩ := invariant.entries slot entry member
      exact ⟨address, grown address inTree, same⟩
  · intro address member
    rcases placed.mem_addresses member with ⟨_, low⟩ | earlier
    · exact low
    · exact Nat.lt_of_lt_of_le (invariant.made address earlier) calls
  · intro new member
    obtain ⟨old, changed, _, leavesMade⟩ := invariant.mem_after edit member
    exact changed.leaves_made leavesMade calls

/-! Every run. -/

theorem RepresentationInvariant.of_same {broker after : Broker}
    (invariant : RepresentationInvariant broker) (subs : after.subs = broker.subs)
    (memory : after.memory = broker.memory)
    (arrays : ∀ slot, (after.clients slot).subs = (broker.clients slot).subs ∧
      (after.clients slot).subCount = (broker.clients slot).subCount) :
    RepresentationInvariant after where
  represents := by
    obtain ⟨distinct, addresses, nodes⟩ := invariant.represents
    refine ⟨by rwa [subs], by rwa [subs], fun node member => ?_⟩
    rw [subs] at member
    obtain ⟨parent, linked, separate, single, counts⟩ := nodes node member
    refine ⟨parent, linked, separate, single, fun slot => ?_⟩
    rw [Client.subArray, (arrays slot).1, (arrays slot).2]
    exact counts slot
  counted := by
    intro slot
    rw [(arrays slot).1, (arrays slot).2]
    exact invariant.counted slot
  entries := by
    intro slot
    rw [(arrays slot).1, subs]
    exact invariant.entries slot
  made := by
    rw [subs, memory]
    exact invariant.made
  leavesMade := by
    rw [subs, memory]
    exact invariant.leavesMade

theorem modifyClient_arrays {broker : Broker} {context : Nat} {change : Client → Client}
    (keeps : ∀ client, (change client).subs = client.subs ∧
      (change client).subCount = client.subCount) (slot : Nat) :
    ((broker.modifyClient context change).clients slot).subs = (broker.clients slot).subs ∧
      ((broker.modifyClient context change).clients slot).subCount =
        (broker.clients slot).subCount := by
  by_cases isOwn : slot = context
  · subst isOwn
    rw [Broker.modifyClient_self]
    exact keeps _
  · rw [Broker.modifyClient_other _ _ isOwn]
    exact ⟨rfl, rfl⟩

theorem RepresentationInvariant.step {event : TreeEvent} {before after : Broker}
    (invariant : RepresentationInvariant before)
    (stepped : treeStep event before = some after) : RepresentationInvariant after := by
  cases event with
  | subAdd call =>
      obtain ⟨⟨_, rc⟩, ran, rfl⟩ := Option.map_eq_some_iff.mp stepped
      exact invariant.subAdd ran
  | addClient id fd =>
      cases stepped
      exact invariant.of_same rfl rfl (modifyClient_arrays fun _ => ⟨rfl, rfl⟩)
  | cleanContext fd =>
      cases stepped
      exact invariant.of_same rfl rfl (modifyClient_arrays fun _ => ⟨rfl, rfl⟩)

theorem RepresentationInvariant.init (memory : Memory) :
    RepresentationInvariant (initDatabase memory) where
  represents := by
    refine ⟨⟨List.not_mem_nil, trivial, trivial⟩, List.nodup_singleton _, ?_⟩
    intro node member
    rw [List.mem_singleton.mp member]
    exact ⟨fun other => absurd rfl other, trivial, List.nodup_nil, List.nodup_nil, fun _ => rfl⟩
  counted := fun _ => rfl
  entries := fun _ _ none => absurd none List.not_mem_nil
  made := by
    intro address member
    rw [List.mem_singleton.mp member]
    exact (by decide : 2 < 4)
  leavesMade := by
    intro node member
    rw [List.mem_singleton.mp member]
    exact fun _ none => absurd none List.not_mem_nil

/-- After any sequence of subscriptions and renamings the tree and the clients' arrays
represent each other. -/
theorem represents_of_run {memory : Memory} {events : List TreeEvent} {final : Broker}
    (ran : run treeStep (initDatabase memory) events = some final) : final.Represents := by
  have along : Along treeStep (fun _ _ after => RepresentationInvariant after)
      (initDatabase memory) events :=
    Along.of_invariant (fun _ _ _ invariant stepped _ =>
      ⟨invariant.step stepped, invariant.step stepped⟩)
      (RepresentationInvariant.init memory) (Along.trivial _ events)
  exact (along.final RepresentationInvariant (RepresentationInvariant.init memory) ran).represents

/-- Two clients subscribe `a`, the second with the id that the first gave up, and then
the first again. -/
def renamedSubscribers : List TreeEvent :=
  [.addClient ⟨1, some [0x61]⟩ 5, .subAdd ⟨5, ⟨[0x61], by decide⟩, 0⟩, .cleanContext 5,
    .addClient ⟨1, some [0x61]⟩ 6, .subAdd ⟨6, ⟨[0x61], by decide⟩, 1⟩,
    .addClient ⟨1, some [0x62]⟩ 5, .subAdd ⟨5, ⟨[0x61], by decide⟩, 2⟩]

theorem represents_of_run_renamed :
    ∃ final, run treeStep (initDatabase ⟨fun _ => true, fun _ => 0, 0⟩) renamedSubscribers =
        some final ∧
      final.Represents := by
  have returns : (run treeStep (initDatabase ⟨fun _ => true, fun _ => 0, 0⟩)
      renamedSubscribers).isSome = true := by
    decide
  obtain ⟨final, ran⟩ := Option.isSome_iff_exists.mp returns
  exact ⟨final, ran, represents_of_run ran⟩

end MuMQ
