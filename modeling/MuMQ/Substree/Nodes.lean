import MuMQ.Substree.Insert
import Mathlib.Data.List.Nodup
import Mathlib.Data.List.Perm.Basic

namespace MuMQ

open Data

/-! The nodes of the tree by their addresses, and what an insertion does to them. -/

/-- A node with the node (or root) in whose child list it is. -/
structure Node where
  address : Address
  owner : Address
  parent : Option Address
  leaves : List Subleaf
  deriving DecidableEq

namespace Node

def contexts (node : Node) : List Nat := node.leaves.map Subleaf.context

end Node

namespace Subhier

def nodes (owner : Address) : Subhier → List Node
  | .null => []
  | .node address parent _ subs children next =>
      ⟨address, owner, parent, subs⟩ :: (children.nodes address ++ next.nodes owner)

def addresses : Subhier → List Address
  | .null => []
  | .node address _ _ _ children next =>
      address :: (children.addresses ++ next.addresses)

theorem nodes_append (owner : Address) (chain branch : Subhier) :
    (chain.append branch).nodes owner = chain.nodes owner ++ branch.nodes owner := by
  induction chain with
  | null => rfl
  | node address parent topic subs children next _ induction =>
      simp [append, nodes, induction]

theorem addresses_append (chain branch : Subhier) :
    (chain.append branch).addresses = chain.addresses ++ branch.addresses := by
  induction chain with
  | null => rfl
  | node address parent topic subs children next _ induction =>
      simp [append, addresses, induction]

theorem map_address_nodes (owner : Address) (chain : Subhier) :
    (chain.nodes owner).map Node.address = chain.addresses := by
  induction chain generalizing owner with
  | null => rfl
  | node address parent topic subs children next childInduction nextInduction =>
      simp [nodes, addresses, childInduction, nextInduction]

theorem address_mem {chain : Subhier} {owner : Address} {node : Node}
    (member : node ∈ chain.nodes owner) : node.address ∈ chain.addresses := by
  rw [← map_address_nodes owner]
  exact List.mem_map_of_mem member

end Subhier

namespace Subleaf

/-- What a leaf keeps when its `qos` is renewed. -/
def link (leaf : Subleaf) : Address × Option Address × Nat :=
  (leaf.address, leaf.prev, leaf.context)

end Subleaf

section Nodes

variable (clients : Nat → Client) (context : Nat) (first last : Nat)

/-- A leaf list gets a leaf of `context` at its end, which it did not have. -/
def Gains (before after : List Subleaf) : Prop :=
  ∃ leaf, after = before ++ [leaf] ∧ leaf.context = context ∧
    leaf.prev = (before.getLast?).map Subleaf.address ∧
    first ≤ leaf.address ∧ leaf.address < last ∧
    ∀ other ∈ before, (clients other.context).idString ≠ (clients context).idString

/-- What an insertion that gives a leaf to the node `target` does to a node. -/
structure NodeChange (target : Option Address) (old new : Node) : Prop where
  address : new.address = old.address
  owner : new.owner = old.owner
  parent : new.parent = old.parent
  gains : target = some old.address → Gains clients context first last old.leaves new.leaves
  keeps : target ≠ some old.address →
    new.leaves.map Subleaf.link = old.leaves.map Subleaf.link

/-- A node that such an insertion creates. -/
structure FreshNode (target : Option Address) (new : Node) : Prop where
  made : first ≤ new.address ∧ new.address < last
  parent : new.parent = some new.owner
  change : NodeChange clients context first last target { new with leaves := [] } new

abbrev NodesEdit (target : Option Address) : List Node → List Node → Prop :=
  Edit (NodeChange clients context first last target)
    (FreshNode clients context first last target)

/-- An insertion below `owner`: the nodes it makes have addresses of their own, and the
node that gets a leaf, if there is one, is put at the end of the client's array. -/
structure Placed (owner : Address) (before : Subhier) (start : Insertion)
    (after : Subhier) (final : Insertion) : Prop where
  calls : start.memory.calls ≤ final.memory.calls
  addresses : ∃ fresh, (after.addresses).Perm (fresh ++ before.addresses) ∧ fresh.Nodup ∧
    ∀ address ∈ fresh, start.memory.calls ≤ address ∧ address < final.memory.calls
  nodes : ∃ target,
    NodesEdit clients context first final.memory.calls target (before.nodes owner)
      (after.nodes owner) ∧
    (∀ address ∈ target, address ∈ after.addresses) ∧
    final.subs = start.subs ++ target.toList.map some ∧
    final.subCount = start.subCount + target.toList.length

/-- An insertion that can start below a chain: the array of the client is full, and the
nodes have addresses of their own. -/
structure Placeable (chain : Subhier) (start : Insertion) : Prop where
  nodup : chain.addresses.Nodup
  made : ∀ address ∈ chain.addresses, address < start.memory.calls
  counted : start.subs.length = start.subCount
  full : none ∉ start.subs
  later : first ≤ start.memory.calls

variable {clients context first last}

theorem NodeChange.refl {target : Option Address} {node : Node}
    (elsewhere : target ≠ some node.address) :
    NodeChange clients context first last target node node :=
  ⟨rfl, rfl, rfl, fun here => absurd here elsewhere, fun _ => rfl⟩

theorem NodesEdit.refl {target : Option Address} {owner : Address} {chain : Subhier}
    (elsewhere : ∀ address ∈ target, address ∉ chain.addresses) :
    NodesEdit clients context first last target (chain.nodes owner) (chain.nodes owner) :=
  Edit.refl_of_mem fun node member =>
    NodeChange.refl fun here => elsewhere node.address here (Subhier.address_mem member)

theorem NodesEdit.of_new_node {target : Option Address} {address owner : Address}
    {before after : List Node} (made : first ≤ address ∧ address < last)
    (edit : NodesEdit clients context first last target
      (⟨address, owner, some owner, []⟩ :: before) after) :
    NodesEdit clients context first last target before after := by
  refine edit.drop_fresh fun new changed => ?_
  have address := changed.address
  have ownerKept := changed.owner
  have parent := changed.parent
  refine ⟨address ▸ made, by rw [parent, ownerKept], ⟨rfl, rfl, rfl, ?_, ?_⟩⟩
  · exact fun here => changed.gains (address ▸ here)
  · exact fun elsewhere => changed.keeps (address ▸ elsewhere)

/-! The leaf part. -/

theorem setLeafQos_links {qos : Int} {leaves after : List Subleaf}
    (found : setLeafQos clients context qos leaves = some after) :
    after.map Subleaf.link = leaves.map Subleaf.link := by
  induction leaves generalizing after with
  | nil => cases found
  | cons leaf rest induction =>
      rw [setLeafQos] at found
      split at found
      · cases found
        rfl
      · obtain ⟨tail, tailFound, rfl⟩ := Option.map_eq_some_iff.mp found
        rw [List.map_cons, List.map_cons, induction tailFound]

theorem freeSub_none {subs : List (Option Address)} {subCount : Nat} (full : none ∉ subs)
    (counted : subs.length = subCount) : freeSub subs subCount = none := by
  rw [freeSub, List.find?_eq_none]
  intro i inside free
  rw [List.mem_range, ← counted] at inside
  rw [List.getD_eq_getElem?_getD, List.getElem?_eq_getElem inside, Option.getD_some,
    Option.isNone_iff_eq_none] at free
  exact full (free ▸ List.getElem_mem inside)

variable (clients context) in
theorem subAddLeaf_gains {insertion : Insertion} (full : none ∉ insertion.subs)
    (counted : insertion.subs.length = insertion.subCount)
    (later : first ≤ insertion.memory.calls) (qos : Int) (address : Address)
    (leaves : List Subleaf) :
    let result := subAddLeaf clients context qos address leaves insertion
    insertion.memory.calls ≤ result.1.memory.calls ∧
      ((result.2.1.map Subleaf.link = leaves.map Subleaf.link ∧
          result.1.subs = insertion.subs ∧ result.1.subCount = insertion.subCount) ∨
        (Gains clients context first result.1.memory.calls leaves result.2.1 ∧
          result.1.subs = insertion.subs ++ [some address] ∧
          result.1.subCount = insertion.subCount + 1)) := by
  have outcome := subAddLeaf_outcome clients context qos address leaves insertion
  generalize subAddLeaf clients context qos address leaves insertion = result at outcome ⊢
  cases outcome with
  | renewed found => exact ⟨Nat.le_refl _, .inl ⟨setLeafQos_links found, rfl, rfl⟩⟩
  | failed missing fails => exact ⟨Nat.le_add_right _ _, .inl ⟨rfl, rfl, rfl⟩⟩
  | reused missing free =>
      rw [freeSub_none full counted] at free
      cases free
  | appended missing noRoom =>
      refine ⟨Nat.le_add_right _ 2,
        .inr ⟨⟨_, rfl, rfl, rfl, later, ?_, setLeafQos_none missing⟩, ?_, rfl⟩⟩
      · exact Nat.lt_add_of_pos_right (by decide)
      · simp only [← counted, List.take_length]

/-! The descent. -/

section Descent

variable {owner : Address} {before after : Subhier} {start final : Insertion}

theorem Placed.still (calls : start.memory.calls ≤ final.memory.calls)
    (subs : final.subs = start.subs) (subCount : final.subCount = start.subCount) :
    Placed clients context first owner before start before final where
  calls := calls
  addresses := ⟨[], List.Perm.refl _, List.nodup_nil, by simp⟩
  nodes := ⟨none, NodesEdit.refl (by simp), by simp, by simpa using subs, subCount⟩

theorem Placed.mem_addresses
    (placed : Placed clients context first owner before start after final) {address : Address}
    (member : address ∈ after.addresses) :
    (start.memory.calls ≤ address ∧ address < final.memory.calls) ∨
      address ∈ before.addresses := by
  obtain ⟨fresh, perm, _, made⟩ := placed.addresses
  rcases List.mem_append.mp (perm.subset member) with inFresh | earlier
  · exact .inl (made address inFresh)
  · exact .inr earlier

theorem Placed.elsewhere
    (placed : Placed clients context first owner before start after final)
    {others : List Address} (made : ∀ other ∈ others, other < start.memory.calls)
    (apart : ∀ other ∈ others, other ∉ before.addresses) {address : Address}
    (member : address ∈ after.addresses) : address ∉ others := by
  intro inOthers
  rcases placed.mem_addresses member with ⟨new, _⟩ | earlier
  · exact Nat.not_lt.mpr new (made address inOthers)
  · exact apart address inOthers earlier

theorem Placeable.children {address : Address} {parent : Option Address} {topic : Token}
    {subs : List Subleaf} {children next : Subhier}
    (placeable : Placeable first (.node address parent topic subs children next) start) :
    Placeable first children start where
  nodup := (List.nodup_append.mp (List.nodup_cons.mp placeable.nodup).2).1
  made := fun other member => placeable.made other (by simp [Subhier.addresses, member])
  counted := placeable.counted
  full := placeable.full
  later := placeable.later

theorem Placeable.next {address : Address} {parent : Option Address} {topic : Token}
    {subs : List Subleaf} {children next : Subhier}
    (placeable : Placeable first (.node address parent topic subs children next) start) :
    Placeable first next start where
  nodup := (List.nodup_append.mp (List.nodup_cons.mp placeable.nodup).2).2.1
  made := fun other member => placeable.made other (by simp [Subhier.addresses, member])
  counted := placeable.counted
  full := placeable.full
  later := placeable.later

theorem Placed.within {innerOwner : Address} {outer outer' inner inner' : Subhier}
    (rest : List Address) (left right : List Node)
    (placed : Placed clients context first innerOwner inner start inner' final)
    (placeable : Placeable first outer start)
    (addresses : outer.addresses.Perm (inner.addresses ++ rest))
    (addresses' : outer'.addresses.Perm (inner'.addresses ++ rest))
    (nodes : outer.nodes owner = left ++ inner.nodes innerOwner ++ right)
    (nodes' : outer'.nodes owner = left ++ inner'.nodes innerOwner ++ right)
    (others : ∀ node ∈ left ++ right, node.address ∈ rest) :
    Placed clients context first owner outer start outer' final where
  calls := placed.calls
  addresses := by
    obtain ⟨fresh, perm, nodup, made⟩ := placed.addresses
    refine ⟨fresh, ?_, nodup, made⟩
    refine (addresses'.trans (perm.append_right rest)).trans ?_
    rw [List.append_assoc]
    exact addresses.symm.append_left fresh
  nodes := by
    obtain ⟨target, edit, inside, registered⟩ := placed.nodes
    have disjoint := (List.nodup_append.mp (addresses.nodup_iff.mp placeable.nodup)).2.2
    have elsewhere : ∀ address ∈ target, address ∉ rest := fun address isTarget =>
      placed.elsewhere
        (fun other inRest =>
          placeable.made other (addresses.symm.subset (List.mem_append_right _ inRest)))
        (fun other inRest earlier => disjoint other earlier other inRest rfl)
        (inside address isTarget)
    have kept : ∀ nodes : List Node, (∀ node ∈ nodes, node.address ∈ rest) →
        NodesEdit clients context first final.memory.calls target nodes nodes :=
      fun nodes inRest => Edit.refl_of_mem fun node member =>
        NodeChange.refl fun here => elsewhere node.address here (inRest node member)
    refine ⟨target, ?_, fun address isTarget => ?_, registered⟩
    · rw [nodes, nodes']
      refine ((kept left fun node member => ?_).append edit).append
        (kept right fun node member => ?_)
      · exact others node (List.mem_append_left _ member)
      · exact others node (List.mem_append_right _ member)
    · exact addresses'.symm.subset (List.mem_append_left _ (inside address isTarget))

theorem Placed.under {address : Address} {parent : Option Address} {topic : Token}
    {subs : List Subleaf} {children children' next : Subhier}
    (placeable : Placeable first (.node address parent topic subs children next) start)
    (placed : Placed clients context first address children start children' final) :
    Placed clients context first owner (.node address parent topic subs children next) start
      (.node address parent topic subs children' next) final := by
  refine .within (address :: next.addresses) [⟨address, owner, parent, subs⟩]
    (next.nodes owner) placed placeable List.perm_middle.symm List.perm_middle.symm rfl rfl ?_
  intro node member
  rcases List.mem_cons.mp member with rfl | inNext
  · exact List.mem_cons_self
  · exact List.mem_cons_of_mem _ (Subhier.address_mem inNext)

theorem Placed.behind {address : Address} {parent : Option Address} {topic : Token}
    {subs : List Subleaf} {children next next' : Subhier}
    (placeable : Placeable first (.node address parent topic subs children next) start)
    (placed : Placed clients context first owner next start next' final) :
    Placed clients context first owner (.node address parent topic subs children next) start
      (.node address parent topic subs children next') final := by
  have behind : ∀ next : Subhier,
      (address :: (children.addresses ++ next.addresses)).Perm
        (next.addresses ++ address :: children.addresses) := fun next =>
    (List.perm_append_comm.cons address).trans List.perm_middle.symm
  refine .within (address :: children.addresses)
    (⟨address, owner, parent, subs⟩ :: children.nodes address) [] placed placeable
    (behind next) (behind next') (by simp [Subhier.nodes]) (by simp [Subhier.nodes]) ?_
  intro node member
  rw [List.append_nil] at member
  rcases List.mem_cons.mp member with rfl | inChildren
  · exact List.mem_cons_self
  · exact List.mem_cons_of_mem _ (Subhier.address_mem inChildren)

theorem Placed.prepended {ready : Insertion} {address : Address} {topic : Token}
    (placed : Placed clients context first owner
      (.node address (some owner) topic [] .null before) ready after final)
    (made : start.memory.calls ≤ address ∧ address < ready.memory.calls)
    (later : first ≤ start.memory.calls) (subs : ready.subs = start.subs)
    (subCount : ready.subCount = start.subCount) :
    Placed clients context first owner before start after final where
  calls := Nat.le_trans (Nat.le_of_lt (Nat.lt_of_le_of_lt made.1 made.2)) placed.calls
  addresses := by
    obtain ⟨fresh, perm, nodup, madeFresh⟩ := placed.addresses
    refine ⟨fresh ++ [address], ?_, List.nodup_append.mpr ⟨nodup, by simp, ?_⟩, ?_⟩
    · rw [List.append_assoc]
      exact perm
    · intro other inFresh single inSingle same
      rw [List.mem_singleton] at inSingle
      subst same inSingle
      exact Nat.not_le.mpr made.2 (madeFresh other inFresh).1
    · intro other member
      rcases List.mem_append.mp member with inFresh | own
      · obtain ⟨low, high⟩ := madeFresh other inFresh
        exact ⟨Nat.le_trans made.1 (Nat.le_trans (Nat.le_of_lt made.2) low), high⟩
      · rw [List.mem_singleton] at own
        subst own
        exact ⟨made.1, Nat.lt_of_lt_of_le made.2 placed.calls⟩
  nodes := by
    obtain ⟨target, edit, inside, subsAfter, subCountAfter⟩ := placed.nodes
    refine ⟨target, NodesEdit.of_new_node ?_ edit, inside, ?_, ?_⟩
    · exact ⟨Nat.le_trans later made.1, Nat.lt_of_lt_of_le made.2 placed.calls⟩
    · rw [subsAfter, subs]
    · rw [subCountAfter, subCount]

theorem Placed.appended {chain : Subhier} (placeable : Placeable first chain start)
    (placed : Placed clients context first owner .null start after final) :
    Placed clients context first owner chain start (chain.append after) final := by
  refine .within chain.addresses (chain.nodes owner) [] placed placeable (List.Perm.refl _)
    ?_ (by simp [Subhier.nodes]) ?_ ?_
  · rw [Subhier.addresses_append]
    exact List.perm_append_comm
  · rw [Subhier.nodes_append, List.append_nil]
  · intro node member
    rw [List.append_nil] at member
    exact Subhier.address_mem member

theorem onBranch_placed {topic : Token} {chain : Subhier}
    {add : Subhier → Insertion → Insertion × Subhier × Int}
    {result : Insertion × Subhier × Int}
    (adds : ∀ node, Placeable first node start →
      Placed clients context first owner node start (add node start).2.1 (add node start).1)
    (placeable : Placeable first chain start)
    (found : onBranch topic add start chain = some result) :
    Placed clients context first owner chain start result.2.1 result.1 := by
  induction chain generalizing result with
  | null => cases found
  | node address parent own subs children next _ induction =>
      rw [onBranch] at found
      split at found
      · cases found
        exact adds _ placeable
      · obtain ⟨tail, tailFound, rfl⟩ := Option.map_eq_some_iff.mp found
        exact (induction placeable.next tailFound).behind placeable

variable (clients context) in
theorem subAdd_placed (qos : Int) (tokens : List Token) (owner : Address) (node : Subhier)
    {start : Insertion} (placeable : Placeable first node start) :
    Placed clients context first owner node start
      (subAdd clients context qos tokens node start).2.1
      (subAdd clients context qos tokens node start).1 := by
  induction tokens generalizing owner node start with
  | nil =>
      cases node with
      | null => exact .still (Nat.le_refl _) rfl rfl
      | node address parent topic subs children next =>
          obtain ⟨calls, outcome⟩ := subAddLeaf_gains clients context placeable.full
            placeable.counted placeable.later qos address subs
          refine ⟨calls, ⟨[], List.Perm.refl _, List.nodup_nil, by simp⟩, ?_⟩
          obtain ⟨fresh, _⟩ := List.nodup_cons.mp placeable.nodup
          have rest : ∀ target, target = none ∨ target = some address →
              NodesEdit clients context first
                (subAddLeaf clients context qos address subs start).1.memory.calls target
                (children.nodes address ++ next.nodes owner)
                (children.nodes address ++ next.nodes owner) := by
            intro target only
            rw [List.mem_append, not_or] at fresh
            refine (NodesEdit.refl ?_).append (NodesEdit.refl ?_)
            · rintro other rfl
              rcases only with none | same
              · cases none
              · cases same
                exact fresh.1
            · rintro other rfl
              rcases only with none | same
              · cases none
              · cases same
                exact fresh.2
          rcases outcome with ⟨links, subsKept, counted⟩ | ⟨gains, subsAfter, counted⟩
          · refine ⟨none, .change ⟨rfl, rfl, rfl, nofun, fun _ => links⟩ (rest _ (.inl rfl)),
              by simp, ?_, counted⟩
            simpa [subAdd] using subsKept
          · refine ⟨some address, .change ⟨rfl, rfl, rfl, fun _ => gains, ?_⟩
              (rest _ (.inr rfl)), ?_, subsAfter, counted⟩
            · exact fun elsewhere => absurd rfl elsewhere
            · rintro other isTarget
              cases isTarget
              simp [subAdd, Subhier.addresses]
  | cons token rest induction =>
      cases node with
      | null => exact .still (Nat.le_refl _) rfl rfl
      | node address parent topic subs children next =>
          have outcome := subAdd_outcome clients context qos token rest address parent topic
            subs children next start
          generalize subAdd clients context qos (token :: rest)
            (.node address parent topic subs children next) start = result at outcome ⊢
          cases outcome with
          | found found =>
              exact (onBranch_placed (fun node placeable => induction address node placeable)
                placeable.children found).under placeable
          | @created ready result missing memory subsKept counted unlocked ran =>
              have calls : ready.memory.calls = start.memory.calls + 2 := by
                rw [memory]
                rfl
              have made : start.memory.calls ≤ start.memory.calls ∧
                  start.memory.calls < ready.memory.calls := by
                rw [calls]
                exact ⟨Nat.le_refl _, Nat.lt_add_of_pos_right (by decide)⟩
              have branchPlaceable : Placeable first
                  (.node start.memory.calls (some address) token [] .null .null) ready := by
                refine ⟨by simp [Subhier.addresses], ?_, ?_, subsKept ▸ placeable.full, ?_⟩
                · simpa [Subhier.addresses] using made.2
                · rw [subsKept, counted]
                  exact placeable.counted
                · rw [calls]
                  exact Nat.le_add_right_of_le placeable.later
              have branch := induction address _ branchPlaceable
              rw [ran] at branch
              have grown := branch.prepended made placeable.later subsKept counted
              exact (grown.appended placeable.children).under placeable
          | failed missing fails => exact .still (Nat.le_add_right _ _) rfl rfl

end Descent

end Nodes

end MuMQ
