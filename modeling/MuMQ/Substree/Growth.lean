import MuMQ.Substree.Nodes
import Mathlib.Data.List.Sublists

namespace MuMQ

/-! What other threads can see of the tree while it grows: nodes and leaves stay where they
are, and pointers that were `NULL` are set. -/

/-- A leaf list after some stores: a `qos` may be new, and leaves are put behind the last. -/
def LeavesGrown (before after : List Subleaf) : Prop :=
  ∃ kept added, after = kept ++ added ∧ kept.map Subleaf.link = before.map Subleaf.link

namespace LeavesGrown

variable {first second third : List Subleaf}

theorem refl (leaves : List Subleaf) : LeavesGrown leaves leaves :=
  ⟨leaves, [], (List.append_nil _).symm, rfl⟩

theorem trans (left : LeavesGrown first second) (right : LeavesGrown second third) :
    LeavesGrown first third := by
  obtain ⟨kept, added, rfl, links⟩ := left
  obtain ⟨keptAfter, addedAfter, rfl, linksAfter⟩ := right
  rw [List.map_append] at linksAfter
  obtain ⟨front, back, rfl, frontLinks, _⟩ := List.map_eq_append_iff.mp linksAfter
  exact ⟨front, back ++ addedAfter, List.append_assoc _ _ _, frontLinks.trans links⟩

theorem of_links (links : second.map Subleaf.link = first.map Subleaf.link) :
    LeavesGrown first second :=
  ⟨second, [], (List.append_nil _).symm, links⟩

theorem snoc (leaves : List Subleaf) (leaf : Subleaf) : LeavesGrown leaves (leaves ++ [leaf]) :=
  ⟨leaves, [leaf], rfl, rfl⟩

theorem cons {leaf leaf' : Subleaf} (grown : LeavesGrown first second)
    (link : leaf'.link = leaf.link) : LeavesGrown (leaf :: first) (leaf' :: second) := by
  obtain ⟨kept, added, rfl, links⟩ := grown
  exact ⟨leaf' :: kept, added, rfl, by rw [List.map_cons, List.map_cons, link, links]⟩

theorem addresses (grown : LeavesGrown first second) :
    (first.map Subleaf.address) <+: (second.map Subleaf.address) := by
  obtain ⟨kept, added, rfl, links⟩ := grown
  have same := congrArg (List.map Prod.fst) links
  rw [List.map_map, List.map_map] at same
  rw [List.map_append]
  exact ⟨added.map Subleaf.address, congrArg (· ++ _) same.symm⟩

end LeavesGrown

namespace Subhier

/-- The pointer to a node. -/
def pointer : Subhier → Option Address
  | .null => none
  | .node address .. => some address

/-- What the pointer `address` leads to: a node with its siblings behind it. -/
def chainAt (address : Address) : Subhier → Option Subhier
  | .null => none
  | .node own parent topic subs children next =>
      if own = address then some (.node own parent topic subs children next)
      else (children.chainAt address).or (next.chainAt address)

/-- A chain of siblings after some stores below its head pointer. -/
inductive Grown : Subhier → Subhier → Prop
  | null (chain : Subhier) : Grown .null chain
  | node (address : Address) (parent : Option Address) (topic : Token)
      {subs subs' : List Subleaf} {children children' next next' : Subhier}
      (leaves : LeavesGrown subs subs') (below : Grown children children')
      (behind : Grown next next') :
      Grown (.node address parent topic subs children next)
        (.node address parent topic subs' children' next')

/-- The second chain ends with the first. -/
inductive Behind : Subhier → Subhier → Prop
  | all (chain : Subhier) : Behind chain chain
  | node {address : Address} {parent : Option Address} {topic : Token} {subs : List Subleaf}
      {children chain next : Subhier} (behind : Behind chain next) :
      Behind chain (.node address parent topic subs children next)

/-- The children of the root after some stores: new ones are put in front. -/
def RootGrown (before after : Subhier) : Prop :=
  ∃ chain, Grown before chain ∧ Behind chain after

theorem isNull_iff {chain : Subhier} : chain.isNull = true ↔ chain = .null := by
  cases chain with
  | null => exact ⟨fun _ => rfl, fun _ => rfl⟩
  | node => exact ⟨nofun, nofun⟩

theorem pointer_eq_none {chain : Subhier} : chain.pointer = none ↔ chain = .null := by
  cases chain with
  | null => exact ⟨fun _ => rfl, fun _ => rfl⟩
  | node => exact ⟨nofun, nofun⟩

/-! Pointers into a tree. -/

theorem chainAt_address {address : Address} {tree chain : Subhier}
    (found : tree.chainAt address = some chain) :
    chain.pointer = some address ∧ address ∈ tree.addresses := by
  induction tree with
  | null => cases found
  | node own parent topic subs children next childInduction nextInduction =>
      rw [chainAt] at found
      split at found
      · rename_i here
        cases found
        exact ⟨congrArg some here, here ▸ List.mem_cons_self⟩
      · rcases Option.or_eq_some_iff.mp found with below | ⟨_, behind⟩
        · obtain ⟨pointer, member⟩ := childInduction below
          exact ⟨pointer, List.mem_cons_of_mem _ (List.mem_append_left _ member)⟩
        · obtain ⟨pointer, member⟩ := nextInduction behind
          exact ⟨pointer, List.mem_cons_of_mem _ (List.mem_append_right _ member)⟩

theorem chainAt_eq_none {address : Address} {tree : Subhier}
    (outside : address ∉ tree.addresses) : tree.chainAt address = none := by
  rcases found : tree.chainAt address with _ | chain
  · rfl
  · exact absurd (chainAt_address found).2 outside

theorem chainAt_isNode {address : Address} {tree chain : Subhier}
    (found : tree.chainAt address = some chain) :
    ∃ parent topic subs children next,
      chain = .node address parent topic subs children next := by
  have pointer := (chainAt_address found).1
  cases chain with
  | null => cases pointer
  | node own parent topic subs children next =>
      cases pointer
      exact ⟨parent, topic, subs, children, next, rfl⟩

theorem chainAt_self {address : Address} {chain : Subhier} (pointer : chain.pointer = some address) :
    chain.chainAt address = some chain := by
  cases chain with
  | null => cases pointer
  | node own parent topic subs children next =>
      cases pointer
      exact if_pos rfl

section Nodup

variable {own : Address} {parent : Option Address} {topic : Token} {subs : List Subleaf}
  {children next : Subhier}

theorem addresses_nodup :
    (node own parent topic subs children next).addresses.Nodup ↔
      (own ∉ children.addresses ∧ own ∉ next.addresses) ∧ children.addresses.Nodup ∧
        next.addresses.Nodup ∧ ∀ address ∈ children.addresses, address ∉ next.addresses := by
  rw [addresses, List.nodup_cons, List.mem_append, not_or, List.nodup_append]
  constructor
  · rintro ⟨apart, below, behind, disjoint⟩
    exact ⟨apart, below, behind, fun address inBelow inBehind =>
      disjoint address inBelow address inBehind rfl⟩
  · rintro ⟨apart, below, behind, disjoint⟩
    refine ⟨apart, below, behind, fun address inBelow other inBehind same => ?_⟩
    exact disjoint address inBelow (same ▸ inBehind)

theorem chainAt_children {address : Address}
    (nodup : (node own parent topic subs children next).addresses.Nodup)
    (member : address ∈ children.addresses) :
    (node own parent topic subs children next).chainAt address =
      (children.chainAt address).or (next.chainAt address) := by
  obtain ⟨⟨apart, _⟩, _⟩ := addresses_nodup.mp nodup
  rw [chainAt, if_neg]
  rintro rfl
  exact apart member

theorem chainAt_next {address : Address}
    (nodup : (node own parent topic subs children next).addresses.Nodup)
    (member : address ∈ next.addresses) :
    (node own parent topic subs children next).chainAt address = next.chainAt address := by
  obtain ⟨⟨_, apart⟩, _, _, disjoint⟩ := addresses_nodup.mp nodup
  rw [chainAt, if_neg, chainAt_eq_none fun below => disjoint address below member,
    Option.none_or]
  rintro rfl
  exact apart member

end Nodup

theorem pointer_mem {address : Address} {chain : Subhier} (pointer : chain.pointer = some address) :
    address ∈ chain.addresses := by
  cases chain with
  | null => cases pointer
  | node =>
      cases pointer
      exact List.mem_cons_self

/-- A pointer that is read from a node leads to the chain that the node has there. -/
theorem chainAt_follow {tree : Subhier} {address target : Address} {parent : Option Address}
    {topic : Token} {subs : List Subleaf} {children next : Subhier}
    (nodup : tree.addresses.Nodup)
    (found : tree.chainAt address = some (.node address parent topic subs children next)) :
    (children.pointer = some target → tree.chainAt target = some children) ∧
      (next.pointer = some target → tree.chainAt target = some next) := by
  induction tree with
  | null => cases found
  | node own ownParent ownTopic ownSubs below behind belowInduction behindInduction =>
      obtain ⟨⟨apartBelow, apartBehind⟩, nodupBelow, nodupBehind, disjoint⟩ :=
        addresses_nodup.mp nodup
      rw [chainAt] at found
      split at found
      · cases found
        constructor
        · intro pointer
          rw [chainAt_children nodup (pointer_mem pointer), chainAt_self pointer, Option.some_or]
        · intro pointer
          rw [chainAt_next nodup (pointer_mem pointer), chainAt_self pointer]
      · rcases Option.or_eq_some_iff.mp found with inBelow | ⟨_, inBehind⟩
        · obtain ⟨toChildren, toNext⟩ := belowInduction nodupBelow inBelow
          constructor
          · intro pointer
            have there := toChildren pointer
            rw [chainAt_children nodup (chainAt_address there).2, there, Option.some_or]
          · intro pointer
            have there := toNext pointer
            rw [chainAt_children nodup (chainAt_address there).2, there, Option.some_or]
        · obtain ⟨toChildren, toNext⟩ := behindInduction nodupBehind inBehind
          constructor
          · intro pointer
            have there := toChildren pointer
            rw [chainAt_next nodup (chainAt_address there).2, there]
          · intro pointer
            have there := toNext pointer
            rw [chainAt_next nodup (chainAt_address there).2, there]

/-! Growth. -/

namespace Grown

variable {before after : Subhier}

theorem refl (chain : Subhier) : Grown chain chain := by
  induction chain with
  | null => exact .null _
  | node address parent topic subs children next below behind =>
      exact .node address parent topic (.refl subs) below behind

theorem trans {first second third : Subhier} (left : Grown first second)
    (right : Grown second third) : Grown first third := by
  induction left generalizing third with
  | null chain => exact .null _
  | node address parent topic leaves below behind belowInduction behindInduction =>
      cases right with
      | node _ _ _ leavesAfter belowAfter behindAfter =>
          exact .node address parent topic (leaves.trans leavesAfter)
            (belowInduction belowAfter) (behindInduction behindAfter)

theorem null_right (grown : Grown before .null) : before = .null := by
  cases grown
  rfl

theorem chainAt (grown : Grown before after) (nodup : after.addresses.Nodup)
    {address : Address} {chain : Subhier} (found : before.chainAt address = some chain) :
    ∃ chain', after.chainAt address = some chain' ∧ Grown chain chain' := by
  induction grown generalizing chain with
  | null => cases found
  | node own parent topic leaves below behind belowInduction behindInduction =>
      obtain ⟨_, nodupBelow, nodupBehind, disjoint⟩ := addresses_nodup.mp nodup
      rw [Subhier.chainAt] at found
      split at found
      · rename_i here
        cases found
        exact ⟨_, if_pos here, .node own parent topic leaves below behind⟩
      · rename_i elsewhere
        rw [Subhier.chainAt, if_neg elsewhere]
        rcases Option.or_eq_some_iff.mp found with inBelow | ⟨_, inBehind⟩
        · obtain ⟨chain', found', grown⟩ := belowInduction nodupBelow inBelow
          exact ⟨chain', by rw [found', Option.some_or], grown⟩
        · obtain ⟨chain', found', grown⟩ := behindInduction nodupBehind inBehind
          have notBelow : address ∉ _ := fun inside =>
            disjoint address inside (chainAt_address found').2
          exact ⟨chain', by rw [chainAt_eq_none notBelow, Option.none_or, found'], grown⟩

theorem addresses_sublist (grown : Grown before after) :
    before.addresses.Sublist after.addresses := by
  induction grown with
  | null => exact List.nil_sublist _
  | node address parent topic leaves below behind belowInduction behindInduction =>
      exact (belowInduction.append behindInduction).cons_cons address

end Grown

namespace Behind

variable {first second third : Subhier}

theorem trans (left : Behind first second) (right : Behind second third) :
    Behind first third := by
  induction right with
  | all => exact left
  | node behind induction => exact .node (induction left)

theorem addresses_sublist (behind : Behind first second) :
    first.addresses.Sublist second.addresses := by
  induction behind with
  | all => exact List.Sublist.refl _
  | node behind induction =>
      exact .cons _ (induction.trans (List.sublist_append_right _ _))

theorem chainAt (behind : Behind first second) (nodup : second.addresses.Nodup)
    {address : Address} {chain : Subhier} (found : first.chainAt address = some chain) :
    second.chainAt address = some chain := by
  induction behind with
  | all => exact found
  | node behind induction =>
      have member := behind.addresses_sublist.subset (chainAt_address found).2
      rw [chainAt_next nodup member]
      exact induction (addresses_nodup.mp nodup).2.2.1 found

/-- Growth of a chain leaves room for growth of what stands at its end. -/
theorem grown (behind : Behind first second) (grown : Grown second third) :
    ∃ chain, Grown first chain ∧ Behind chain third := by
  induction behind generalizing third with
  | all => exact ⟨third, grown, .all third⟩
  | node behind induction =>
      cases grown with
      | node _ _ _ leaves below grownBehind =>
          obtain ⟨chain, grown, isBehind⟩ := induction grownBehind
          exact ⟨chain, grown, .node isBehind⟩

end Behind

namespace RootGrown

variable {before after first second third : Subhier}

theorem refl (tree : Subhier) : RootGrown tree tree := ⟨tree, .refl tree, .all tree⟩

theorem trans (left : RootGrown first second) (right : RootGrown second third) :
    RootGrown first third := by
  obtain ⟨chain, grown, behind⟩ := left
  obtain ⟨whole, wholeGrown, wholeBehind⟩ := right
  obtain ⟨last, lastGrown, lastBehind⟩ := behind.grown wholeGrown
  exact ⟨last, grown.trans lastGrown, lastBehind.trans wholeBehind⟩

theorem addresses_sublist (grown : RootGrown before after) :
    before.addresses.Sublist after.addresses := by
  obtain ⟨chain, chainGrown, behind⟩ := grown
  exact chainGrown.addresses_sublist.trans behind.addresses_sublist

/-- What a pointer leads to has grown too. -/
theorem chainAt (grown : RootGrown before after) (nodup : after.addresses.Nodup)
    {address : Address} {chain : Subhier} (found : before.chainAt address = some chain) :
    ∃ chain', after.chainAt address = some chain' ∧ Grown chain chain' := by
  obtain ⟨whole, wholeGrown, behind⟩ := grown
  have nodupWhole := nodup.sublist behind.addresses_sublist
  obtain ⟨chain', found', chainGrown⟩ := wholeGrown.chainAt nodupWhole found
  exact ⟨chain', behind.chainAt nodup found', chainGrown⟩

end RootGrown

/-- The leaves of a node are different blocks, and a `#` node has no child. -/
def Tidy : Subhier → Prop
  | .null => True
  | .node _ _ topic subs children next =>
      (subs.map Subleaf.address).Nodup ∧ (topic = [hash] → children = .null) ∧
        children.Tidy ∧ next.Tidy

namespace Tidy

variable {before after tree chain : Subhier}

theorem chainAt (tidy : tree.Tidy) {address : Address}
    (found : tree.chainAt address = some chain) : chain.Tidy := by
  induction tree with
  | null => cases found
  | node own parent topic subs children next belowInduction behindInduction =>
      obtain ⟨leaves, ends, below, behind⟩ := tidy
      rw [Subhier.chainAt] at found
      split at found
      · cases found
        exact ⟨leaves, ends, below, behind⟩
      · rcases Option.or_eq_some_iff.mp found with inBelow | ⟨_, inBehind⟩
        · exact belowInduction below inBelow
        · exact behindInduction behind inBehind

theorem of_grown (tidy : after.Tidy) (grown : Grown before after) : before.Tidy := by
  induction grown with
  | null => trivial
  | node address parent topic leaves below behind belowInduction behindInduction =>
      obtain ⟨nodup, ends, tidyBelow, tidyBehind⟩ := tidy
      refine ⟨nodup.sublist leaves.addresses.sublist, ?_, belowInduction tidyBelow,
        behindInduction tidyBehind⟩
      intro isHash
      have none := ends isHash
      subst none
      exact below.null_right

theorem of_behind (tidy : after.Tidy) (behind : Behind before after) : before.Tidy := by
  induction behind with
  | all => exact tidy
  | node behind induction => exact induction tidy.2.2.2

theorem of_rootGrown (tidy : after.Tidy) (grown : RootGrown before after) : before.Tidy := by
  obtain ⟨chain, chainGrown, behind⟩ := grown
  exact (tidy.of_behind behind).of_grown chainGrown

theorem of_nodes {owner : Address}
    (leaves : ∀ node ∈ tree.nodes owner, (node.leaves.map Subleaf.address).Nodup)
    (childless : ∀ site ∈ tree.sites, site.path.getLast? = some [hash] → site.inner = false) :
    tree.Tidy := by
  induction tree generalizing owner with
  | null => trivial
  | node own parent topic subs children next belowInduction behindInduction =>
      refine ⟨?_, ?_, ?_, ?_⟩
      · exact leaves ⟨own, owner, parent, subs⟩ List.mem_cons_self
      · intro isHash
        have inner := childless _ (mem_sites_own own parent topic subs children next)
          (congrArg some isHash)
        exact isNull_iff.mp (by simpa using inner)
      · apply belowInduction
        · exact fun node member =>
            leaves node (List.mem_cons_of_mem _ (List.mem_append_left _ member))
        · intro site member isHash
          apply childless _ (mem_sites_below member)
          rw [Site.below_path, List.getLast?_cons, isHash]
          rfl
      · apply behindInduction
        · exact fun node member =>
            leaves node (List.mem_cons_of_mem _ (List.mem_append_right _ member))
        · exact fun site member => childless site (mem_sites_next member)

end Tidy

end Subhier

/-! The search in a tree that has grown. -/

section Search

variable {clients clients' : Nat → Client}

/-- No client has unsubscribed. -/
def MoreSubscribed (clients clients' : Nat → Client) : Prop :=
  ∀ slot, (clients slot).isSubscribe = true → (clients' slot).isSubscribe = true

theorem subsProcess_eq (clients : Nat → Client) (leaves : List Subleaf) :
    subsProcess clients leaves =
      (leaves.map Subleaf.context).filter fun slot => (clients slot).isSubscribe := by
  induction leaves with
  | nil => rfl
  | cons leaf rest induction =>
      rw [subsProcess, List.map_cons, List.filter_cons, induction]

theorem subsProcess_grown (more : MoreSubscribed clients clients') {before after : List Subleaf}
    (grown : LeavesGrown before after) :
    (subsProcess clients before).Sublist (subsProcess clients' after) := by
  obtain ⟨kept, added, rfl, links⟩ := grown
  have same := congrArg (List.map fun link => link.2.2) links
  rw [List.map_map, List.map_map] at same
  rw [subsProcess_eq, subsProcess_eq, List.map_append]
  have contexts : kept.map Subleaf.context = before.map Subleaf.context := same
  rw [contexts]
  exact (List.monotone_filter_right _ more).trans ((List.sublist_append_left _ _).filter _)

theorem subSearch_grown (more : MoreSubscribed clients clients') {before after : Subhier}
    (grown : Subhier.Grown before after) (tidy : after.Tidy) (tokens : List Token) :
    (subSearch clients tokens before).Sublist (subSearch clients' tokens after) := by
  induction grown generalizing tokens with
  | null =>
      cases tokens with
      | nil => exact List.nil_sublist _
      | cons => exact List.nil_sublist _
  | @node address parent topic subs subs' children children' next next' leaves below behind
      belowInduction behindInduction =>
      obtain ⟨_, ends, tidyBelow, tidyBehind⟩ := tidy
      have processed := subsProcess_grown more leaves
      -- a `#` node is a leaf of the tree before and after
      have multi : (if topic = [hash] ∧ children.isNull = true then subsProcess clients subs
          else []).Sublist
            (if topic = [hash] ∧ children'.isNull = true then subsProcess clients' subs'
              else []) := by
        by_cases isHash : topic = [hash]
        · have none := ends isHash
          subst none
          have noneBefore := below.null_right
          subst noneBefore
          simpa only [isHash, true_and, Subhier.isNull, if_true] using processed
        · simp only [isHash, false_and, if_false]
          exact List.nil_sublist _
      cases tokens with
      | nil => exact multi.append (behindInduction tidyBehind [])
      | cons token rest =>
          rw [subSearch, subSearch]
          refine List.Sublist.append ?_ (behindInduction tidyBehind _)
          split
          · refine (belowInduction tidyBelow rest).append ?_
            split
            · exact processed
            · exact List.nil_sublist _
          · exact multi

theorem subTreeProcess_grown (more : MoreSubscribed clients clients') {before after : Subhier}
    (grown : Subhier.Grown before after) (tidy : after.Tidy) (tokens : List Token) :
    (subTreeProcess clients tokens before).Sublist (subTreeProcess clients' tokens after) := by
  induction grown with
  | null => exact List.nil_sublist _
  | node address parent topic leaves below behind _ behindInduction =>
      obtain ⟨_, _, tidyBelow, tidyBehind⟩ := tidy
      rw [subTreeProcess, subTreeProcess]
      refine List.Sublist.append ?_ (behindInduction tidyBehind)
      split
      · exact subSearch_grown more below tidyBelow tokens
      · exact List.nil_sublist _

theorem subTreeProcess_behind (clients : Nat → Client) {chain tree : Subhier}
    (behind : Subhier.Behind chain tree) (tokens : List Token) :
    (subTreeProcess clients tokens chain).Sublist (subTreeProcess clients tokens tree) := by
  induction behind with
  | all => exact List.Sublist.refl _
  | node behind induction =>
      rw [subTreeProcess]
      exact induction.trans (List.sublist_append_right _ _)

theorem subTreeProcess_rootGrown (more : MoreSubscribed clients clients') {before after : Subhier}
    (grown : Subhier.RootGrown before after) (tidy : after.Tidy) (tokens : List Token) :
    (subTreeProcess clients tokens before).Sublist (subTreeProcess clients' tokens after) := by
  obtain ⟨chain, chainGrown, behind⟩ := grown
  exact (subTreeProcess_grown more chainGrown (tidy.of_behind behind) tokens).trans
    (subTreeProcess_behind clients' behind tokens)

end Search

end MuMQ
