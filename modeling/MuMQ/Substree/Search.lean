import MuMQ.Data.Visitor
import MuMQ.Substree.Growth

namespace MuMQ

open Data

/-! `mqtt3_sub_tree_process` one load after another, with pointers into a tree that other
threads store to. -/

namespace Subhier

def leaves : Subhier → List Subleaf
  | .null => []
  | .node _ _ _ subs _ _ => subs

def children : Subhier → Subhier
  | .null => .null
  | .node _ _ _ _ children _ => children

def next : Subhier → Subhier
  | .null => .null
  | .node _ _ _ _ _ next => next

/-- What a pointer leads to. -/
def target (tree : Subhier) (pointer : Option Address) : Subhier :=
  (pointer.bind tree.chainAt).getD .null

/-- The nodes and leaves of a tree, weighed by the loads they cost. -/
def weight : Subhier → Nat
  | .null => 0
  | .node _ _ _ subs children next => children.weight + 2 * subs.length + next.weight + 6

end Subhier

/-- The leaves of a list from the one at an address on. -/
def leavesFrom (address : Address) : List Subleaf → List Subleaf
  | [] => []
  | leaf :: rest => if leaf.address = address then leaf :: rest else leavesFrom address rest

def leafPointer (leaves : List Subleaf) : Option Address := leaves.head?.map Subleaf.address

/-- What a searching thread shares with those that subscribe. -/
structure SharedTree where
  tree : Subhier
  clients : Nat → Client

/-- The points of the search, with its pointers: at the heads of the loops, where `next` is
loaded behind their bodies, and where `_sub_search` and `_subs_process` are called. -/
inductive SearchPlace where
  | start
  | root (subhier : Option Address)
  | rootNext (subhier : Address)
  | search (subhier : Address) (tokens : List Token)
  | branch (branch : Option Address) (tokens : List Token)
  | branchNext (branch : Address) (tokens : List Token)
  | process (hier : Address)
  | leaf (hier : Address) (leaf : Option Address)
  | leafNext (hier leaf : Address)
  deriving DecidableEq

/-- The body of the loop of `_sub_search`. -/
def searchBranch (branch : Address) (topic : Token) (childless : Bool) :
    List Token → List SearchPlace
  | [] => if topic = [hash] ∧ childless then [.process branch] else []
  | token :: rest =>
      if topic = token ∨ topic = [plus] then
        .search branch rest :: if rest.isEmpty then [.process branch] else []
      else if topic = [hash] ∧ childless then [.process branch]
      else []

/-- The next load from the tree, and what is to be done after it: the calls and loops that are
entered, in order, and the client that is called back.  A pointer that leads nowhere has no
next step. -/
def searchStep (tokens : List Token) (shared : SharedTree) :
    SearchPlace → Option (List SearchPlace × List Nat)
  | .start => some ([.root shared.tree.pointer], [])
  | .root none => some ([], [])
  | .root (some subhier) =>
      match shared.tree.chainAt subhier with
      | some (.node _ _ topic _ _ _) =>
          some
            (if tokens.head? = some topic then [.search subhier tokens, .rootNext subhier]
              else [.rootNext subhier], [])
      | _ => none
  | .rootNext subhier =>
      (shared.tree.chainAt subhier).map fun chain => ([.root chain.next.pointer], [])
  | .search subhier tokens =>
      (shared.tree.chainAt subhier).map fun chain => ([.branch chain.children.pointer tokens], [])
  | .branch none _ => some ([], [])
  | .branch (some branch) tokens =>
      match shared.tree.chainAt branch with
      | some (.node _ _ topic _ children _) =>
          some
            (searchBranch branch topic children.isNull tokens ++ [.branchNext branch tokens], [])
      | _ => none
  | .branchNext branch tokens =>
      (shared.tree.chainAt branch).map fun chain => ([.branch chain.next.pointer tokens], [])
  | .process hier =>
      (shared.tree.chainAt hier).map fun chain => ([.leaf hier (leafPointer chain.leaves)], [])
  | .leaf _ none => some ([], [])
  | .leaf hier (some leaf) =>
      match leavesFrom leaf (shared.tree.target (some hier)).leaves with
      | found :: _ =>
          some
            ([.leafNext hier leaf],
              if (shared.clients found.context).isSubscribe then [found.context] else [])
      | [] => none
  | .leafNext hier leaf =>
      match leavesFrom leaf (shared.tree.target (some hier)).leaves with
      | _ :: rest => some ([.leaf hier (leafPointer rest)], [])
      | [] => none

/-- The clients that a place still leads to when nothing more is stored. -/
def searchRest (tokens : List Token) (shared : SharedTree) : SearchPlace → List Nat
  | .start => subTreeProcess shared.clients tokens shared.tree
  | .root subhier => subTreeProcess shared.clients tokens (shared.tree.target subhier)
  | .rootNext subhier =>
      subTreeProcess shared.clients tokens (shared.tree.target (some subhier)).next
  | .search subhier tokens =>
      subSearch shared.clients tokens (shared.tree.target (some subhier)).children
  | .branch branch tokens => subSearch shared.clients tokens (shared.tree.target branch)
  | .branchNext branch tokens =>
      subSearch shared.clients tokens (shared.tree.target (some branch)).next
  | .process hier => subsProcess shared.clients (shared.tree.target (some hier)).leaves
  | .leaf _ none => []
  | .leaf hier (some leaf) =>
      subsProcess shared.clients (leavesFrom leaf (shared.tree.target (some hier)).leaves)
  | .leafNext hier leaf =>
      subsProcess shared.clients (leavesFrom leaf (shared.tree.target (some hier)).leaves).tail

/-- The loads that a place can still cost. -/
def searchSize (shared : SharedTree) : SearchPlace → Nat
  | .start => shared.tree.weight + 2
  | .root subhier => (shared.tree.target subhier).weight + 1
  | .rootNext subhier => (shared.tree.target (some subhier)).next.weight + 2
  | .search subhier _ => (shared.tree.target (some subhier)).children.weight + 2
  | .branch branch _ => (shared.tree.target branch).weight + 1
  | .branchNext branch _ => (shared.tree.target (some branch)).next.weight + 2
  | .process hier => 2 * (shared.tree.target (some hier)).leaves.length + 2
  | .leaf _ none => 1
  | .leaf hier (some leaf) =>
      2 * (leavesFrom leaf (shared.tree.target (some hier)).leaves).length + 1
  | .leafNext hier leaf =>
      2 * (leavesFrom leaf (shared.tree.target (some hier)).leaves).tail.length + 2

/-- The pointers of a place lead to nodes and leaves of the tree. -/
def SearchPlace.Within (tree : Subhier) : SearchPlace → Prop
  | .start | .root none | .branch none _ => True
  | .root (some address) | .rootNext address | .search address _ | .branch (some address) _
  | .branchNext address _ | .process address | .leaf address none =>
      (tree.chainAt address).isSome = true
  | .leaf hier (some address) | .leafNext hier address =>
      address ∈ (tree.target (some hier)).leaves.map Subleaf.address

structure SharedTree.Good (shared : SharedTree) : Prop where
  nodup : shared.tree.addresses.Nodup
  tidy : shared.tree.Tidy

structure SharedTree.Grows (before after : SharedTree) : Prop where
  tree : Subhier.RootGrown before.tree after.tree
  clients : MoreSubscribed before.clients after.clients

theorem Subhier.Behind.weight_le {chain tree : Subhier} (behind : Subhier.Behind chain tree) :
    chain.weight ≤ tree.weight := by
  induction behind with
  | all => exact Nat.le_refl _
  | node behind induction =>
      rw [Subhier.weight]
      omega

/-! Loads through a pointer. -/

section Load

variable {shared later : SharedTree} {tree : Subhier} {address : Address}

theorem Subhier.target_of_chainAt {chain : Subhier} (found : tree.chainAt address = some chain) :
    tree.target (some address) = chain := by
  rw [target, Option.bind_some, found]
  rfl

/-- A node that has been loaded from, now and later. -/
theorem SharedTree.Grows.load (grows : shared.Grows later) (good : later.Good)
    (within : (shared.tree.chainAt address).isSome = true) :
    ∃ parent topic subs children next subs' children' next',
      shared.tree.chainAt address = some (.node address parent topic subs children next) ∧
      later.tree.chainAt address = some (.node address parent topic subs' children' next') ∧
      LeavesGrown subs subs' ∧ Subhier.Grown children children' ∧ Subhier.Grown next next' := by
  obtain ⟨chain, found⟩ := Option.isSome_iff_exists.mp within
  obtain ⟨parent, topic, subs, children, next, rfl⟩ := Subhier.chainAt_isNode found
  obtain ⟨chain', found', grown⟩ := grows.tree.chainAt good.nodup found
  cases grown with
  | @node _ _ _ _ subs' _ children' _ next' leaves below behind =>
      exact ⟨parent, topic, subs, children, next, subs', children', next', found, found', leaves,
        below, behind⟩

theorem leafPointer_cons {leaves : List Subleaf} (pointer : leafPointer leaves = some address) :
    leavesFrom address leaves = leaves := by
  cases leaves with
  | nil => cases pointer
  | cons leaf rest =>
      rw [leafPointer, List.head?_cons, Option.map_some, Option.some.injEq] at pointer
      rw [leavesFrom, if_pos pointer]

theorem leavesFrom_split {leaves : List Subleaf} (member : address ∈ leaves.map Subleaf.address) :
    ∃ front leaf rest, leaves = front ++ leaf :: rest ∧ leaf.address = address ∧
      leavesFrom address leaves = leaf :: rest := by
  induction leaves with
  | nil => cases member
  | cons first others induction =>
      by_cases here : first.address = address
      · exact ⟨[], first, others, rfl, here, if_pos here⟩
      · rw [List.map_cons, List.mem_cons] at member
        obtain ⟨front, leaf, rest, split, isLeaf, found⟩ :=
          induction (member.resolve_left fun same => here same.symm)
        exact ⟨first :: front, leaf, rest, congrArg (first :: ·) split, isLeaf,
          (if_neg here).trans found⟩

theorem leavesFrom_append {front rest : List Subleaf} {leaf : Subleaf}
    (nodup : ((front ++ leaf :: rest).map Subleaf.address).Nodup) :
    leavesFrom leaf.address (front ++ leaf :: rest) = leaf :: rest := by
  induction front with
  | nil => exact if_pos rfl
  | cons first front induction =>
      rw [List.cons_append, List.map_cons, List.nodup_cons] at nodup
      rw [List.cons_append, leavesFrom, if_neg, induction nodup.2]
      intro same
      apply nodup.1
      rw [same]
      simp

/-- The leaves behind one that a pointer leads to have grown with the list. -/
theorem LeavesGrown.from {before after : List Subleaf} (grown : LeavesGrown before after)
    (nodup : (after.map Subleaf.address).Nodup) (member : address ∈ before.map Subleaf.address) :
    ∃ leaf rest leaf' rest', leavesFrom address before = leaf :: rest ∧
      leavesFrom address after = leaf' :: rest' ∧ leaf'.link = leaf.link ∧
      LeavesGrown rest rest' := by
  obtain ⟨front, leaf, rest, rfl, isLeaf, found⟩ := leavesFrom_split member
  obtain ⟨kept, added, rfl, links⟩ := grown
  rw [List.map_append, List.map_cons] at links
  obtain ⟨keptFront, keptBack, rfl, frontLinks, backLinks⟩ := List.map_eq_append_iff.mp links
  obtain ⟨leaf', keptRest, rfl, link, restLinks⟩ := List.map_eq_cons_iff.mp backLinks
  have own : leaf'.address = leaf.address := congrArg Prod.fst link
  have split : keptFront ++ leaf' :: keptRest ++ added =
      keptFront ++ leaf' :: (keptRest ++ added) := by simp
  rw [split] at nodup
  refine ⟨leaf, rest, leaf', keptRest ++ added, found, ?_, link,
    ⟨keptRest, added, rfl, restLinks⟩⟩
  rw [split, ← isLeaf, ← own]
  exact leavesFrom_append nodup

/-- A chain that a loaded pointer leads to, in a tree that holds a later version of it. -/
theorem Subhier.Grown.target {before after : Subhier} (grown : Subhier.Grown before after)
    (there : ∀ address, after.pointer = some address → tree.chainAt address = some after) :
    before.pointer = none ∧ before = .null ∨ tree.target before.pointer = after := by
  cases grown with
  | null => exact .inl ⟨rfl, rfl⟩
  | node own parent topic leaves below behind =>
      exact .inr (Subhier.target_of_chainAt (there own rfl))

theorem Subhier.target_pointer {chain : Subhier}
    (there : ∀ address, chain.pointer = some address → tree.chainAt address = some chain) :
    tree.target chain.pointer = chain := by
  rcases (Subhier.Grown.refl chain).target there with ⟨none, rfl⟩ | same
  · rfl
  · exact same

end Load

/-! A step in a tree that stands still. -/

section Step

variable {tokens : List Token} {shared later : SharedTree} {place : SearchPlace}
  {places : List SearchPlace} {items : List Nat}

theorem SearchPlace.within_root {tree : Subhier} {pointer : Option Address}
    (there : ∀ address, pointer = some address → (tree.chainAt address).isSome = true) :
    (SearchPlace.root pointer).Within tree := by
  cases pointer with
  | none => trivial
  | some address => exact there address rfl

theorem SearchPlace.within_branch {tree : Subhier} {pointer : Option Address}
    {tokens : List Token}
    (there : ∀ address, pointer = some address → (tree.chainAt address).isSome = true) :
    (SearchPlace.branch pointer tokens).Within tree := by
  cases pointer with
  | none => trivial
  | some address => exact there address rfl

theorem SharedTree.Good.load (good : shared.Good) {address : Address}
    (within : (shared.tree.chainAt address).isSome = true) :
    ∃ parent topic subs children next,
      shared.tree.chainAt address = some (.node address parent topic subs children next) ∧
      (subs.map Subleaf.address).Nodup ∧ (topic = [hash] → children = .null) ∧
      (∀ below, children.pointer = some below → shared.tree.chainAt below = some children) ∧
      ∀ behind, next.pointer = some behind → shared.tree.chainAt behind = some next := by
  obtain ⟨chain, found⟩ := Option.isSome_iff_exists.mp within
  obtain ⟨parent, topic, subs, children, next, rfl⟩ := Subhier.chainAt_isNode found
  obtain ⟨leaves, ends, _⟩ := good.tidy.chainAt found
  exact ⟨parent, topic, subs, children, next, found, leaves, ends,
    fun _ => (Subhier.chainAt_follow good.nodup found).1,
    fun _ => (Subhier.chainAt_follow good.nodup found).2⟩

/-- What the body of the loop of `_sub_search` leads to, for a node whose `#` children have
none. -/
theorem searchBranch_stands {address : Address} {parent : Option Address} {topic : Token}
    {subs : List Subleaf} {children next : Subhier}
    (found : shared.tree.chainAt address = some (.node address parent topic subs children next))
    (level : List Token) :
    (∀ other ∈ searchBranch address topic children.isNull level, other.Within shared.tree) ∧
      subSearch shared.clients level (.node address parent topic subs children next) =
        (searchBranch address topic children.isNull level).flatMap (searchRest tokens shared) ++
          subSearch shared.clients level next ∧
      ((searchBranch address topic children.isNull level).map (searchSize shared)).sum ≤
        children.weight + 2 * subs.length + 4 := by
  have isThere : (shared.tree.chainAt address).isSome = true := by rw [found]; rfl
  have loaded := Subhier.target_of_chainAt found
  have multi : ∀ {process : Bool},
      (∀ other ∈ if process then [SearchPlace.process address] else [],
        other.Within shared.tree) ∧
      (if process then subsProcess shared.clients subs else []) =
        (if process then [SearchPlace.process address] else []).flatMap
          (searchRest tokens shared) ∧
      ((if process then [SearchPlace.process address] else []).map (searchSize shared)).sum ≤
        2 * subs.length + 2 := by
    intro process
    cases process with
    | false => exact ⟨nofun, rfl, Nat.zero_le _⟩
    | true =>
        refine ⟨fun other member => List.mem_singleton.mp member ▸ isThere, ?_, ?_⟩
        · simp [searchRest, loaded, Subhier.leaves]
        · simp [searchSize, loaded, Subhier.leaves]
  cases level with
  | nil =>
      obtain ⟨within, rest, size⟩ :=
        @multi (decide (topic = [hash] ∧ children.isNull = true))
      simp only [decide_eq_true_eq] at within rest size
      rw [subSearch, searchBranch]
      exact ⟨within, congrArg (· ++ _) rest, by omega⟩
  | cons token level =>
      rw [subSearch, searchBranch]
      split
      · obtain ⟨within, rest, size⟩ := @multi level.isEmpty
        refine ⟨?_, ?_, ?_⟩
        · intro other member
          rcases List.mem_cons.mp member with rfl | inProcess
          · exact isThere
          · exact within other inProcess
        · rw [List.flatMap_cons, ← rest, searchRest, loaded, Subhier.children]
        · rw [List.map_cons, List.sum_cons, searchSize, loaded, Subhier.children]
          omega
      · obtain ⟨within, rest, size⟩ :=
          @multi (decide (topic = [hash] ∧ children.isNull = true))
        simp only [decide_eq_true_eq] at within rest size
        exact ⟨within, congrArg (· ++ _) rest, by omega⟩

/-- The loop of `_subs_process` at the head of the last leaves of a node. -/
theorem leaf_stands {hier : Address} {chain : Subhier} {front rest : List Subleaf}
    (found : shared.tree.chainAt hier = some chain) (split : chain.leaves = front ++ rest)
    (nodup : (chain.leaves.map Subleaf.address).Nodup) :
    (SearchPlace.leaf hier (leafPointer rest)).Within shared.tree ∧
      searchRest tokens shared (.leaf hier (leafPointer rest)) =
        subsProcess shared.clients rest ∧
      searchSize shared (.leaf hier (leafPointer rest)) = 2 * rest.length + 1 := by
  have loaded := Subhier.target_of_chainAt found
  cases rest with
  | nil => exact ⟨by rw [leafPointer, SearchPlace.Within.eq_def]; simp [found], rfl, rfl⟩
  | cons leaf rest =>
      have here : leavesFrom leaf.address (shared.tree.target (some hier)).leaves =
          leaf :: rest := by
        rw [split] at nodup
        rw [loaded, split]
        exact leavesFrom_append nodup
      refine ⟨?_, ?_, ?_⟩
      · show leaf.address ∈ (shared.tree.target (some hier)).leaves.map Subleaf.address
        rw [loaded, split]
        simp
      · show subsProcess _ (leavesFrom leaf.address (shared.tree.target (some hier)).leaves) = _
        rw [here]
      · show 2 * (leavesFrom leaf.address (shared.tree.target (some hier)).leaves).length + 1 = _
        rw [here]

/-- The node that a leaf pointer belongs to. -/
theorem SharedTree.Good.loadLeaf (good : shared.Good) {hier leaf : Address}
    (within : leaf ∈ (shared.tree.target (some hier)).leaves.map Subleaf.address) :
    ∃ chain front found rest, shared.tree.chainAt hier = some chain ∧
      chain.leaves = front ++ found :: rest ∧ (chain.leaves.map Subleaf.address).Nodup ∧
      leavesFrom leaf (shared.tree.target (some hier)).leaves = found :: rest := by
  rcases isHier : shared.tree.chainAt hier with _ | chain
  · rw [Subhier.target, Option.bind_some, isHier] at within
    cases within
  · obtain ⟨_, _, _, _, _, rfl⟩ := Subhier.chainAt_isNode isHier
    have nodup := (good.tidy.chainAt isHier).1
    rw [Subhier.target_of_chainAt isHier] at within ⊢
    obtain ⟨front, found, rest, split, _, here⟩ := leavesFrom_split within
    exact ⟨_, front, found, rest, rfl, split, nodup, here⟩

theorem searchStep_goesOn (good : shared.Good) (within : place.Within shared.tree) :
    ∃ places items, searchStep tokens shared place = some (places, items) := by
  cases place with
  | start => exact ⟨_, _, rfl⟩
  | root subhier =>
      cases subhier with
      | none => exact ⟨_, _, rfl⟩
      | some subhier =>
          obtain ⟨_, _, _, _, _, found, _⟩ := good.load within
          exact ⟨_, _, by rw [searchStep, found]⟩
  | branch branch level =>
      cases branch with
      | none => exact ⟨_, _, rfl⟩
      | some branch =>
          obtain ⟨_, _, _, _, _, found, _⟩ := good.load within
          exact ⟨_, _, by rw [searchStep, found]⟩
  | leaf hier leaf =>
      cases leaf with
      | none => exact ⟨_, _, rfl⟩
      | some leaf =>
          obtain ⟨_, _, _, _, _, found⟩ := leavesFrom_split within
          exact ⟨_, _, by rw [searchStep, found]⟩
  | leafNext hier leaf =>
      obtain ⟨_, _, _, _, _, found⟩ := leavesFrom_split within
      exact ⟨_, _, by rw [searchStep, found]⟩
  | rootNext address | search address | branchNext address | process address =>
      obtain ⟨_, _, _, _, _, found, _⟩ := good.load within
      exact ⟨_, _, by rw [searchStep, found]; rfl⟩

theorem searchStep_stands (good : shared.Good) (within : place.Within shared.tree)
    (stepped : searchStep tokens shared place = some (places, items)) :
    (∀ other ∈ places, other.Within shared.tree) ∧
      searchRest tokens shared place = items ++ places.flatMap (searchRest tokens shared) ∧
      (places.map (searchSize shared)).sum < searchSize shared place := by
  have isSome : ∀ {address : Address} {chain : Subhier},
      shared.tree.chainAt address = some chain → (shared.tree.chainAt address).isSome = true :=
    fun found => by rw [found]; rfl
  cases place with
  | start =>
      cases stepped
      have there := fun address => @Subhier.chainAt_self address shared.tree
      refine ⟨?_, ?_, ?_⟩
      · intro other member
        rw [List.mem_singleton.mp member]
        exact SearchPlace.within_root fun address pointer => isSome (there address pointer)
      · simp [searchRest, Subhier.target_pointer there]
      · simp [searchSize, Subhier.target_pointer there]
  | root subhier =>
      cases subhier with
      | none =>
          cases stepped
          exact ⟨nofun, rfl, Nat.lt_succ_self _⟩
      | some subhier =>
          obtain ⟨parent, topic, subs, children, next, found, _⟩ := good.load within
          rw [searchStep, found] at stepped
          cases stepped
          have loaded := Subhier.target_of_chainAt found
          refine ⟨?_, ?_, ?_⟩
          · intro other member
            split at member
            · rcases List.mem_pair.mp member with rfl | rfl
              · exact within
              · exact within
            · rw [List.mem_singleton.mp member]
              exact within
          · rw [searchRest, loaded, subTreeProcess]
            split
            · simp [searchRest, loaded, Subhier.children, Subhier.next]
            · simp [searchRest, loaded, Subhier.next]
          · rw [searchSize, loaded, Subhier.weight]
            split
            · simp only [List.map_cons, List.map_nil, List.sum_cons, List.sum_nil, searchSize,
                loaded, Subhier.children, Subhier.next]
              omega
            · simp only [List.map_cons, List.map_nil, List.sum_cons, List.sum_nil, searchSize,
                loaded, Subhier.next]
              omega
  | rootNext subhier =>
      obtain ⟨parent, topic, subs, children, next, found, _, _, _, there⟩ := good.load within
      rw [searchStep, found] at stepped
      cases stepped
      have loaded := Subhier.target_of_chainAt found
      refine ⟨?_, ?_, ?_⟩
      · intro other member
        rw [List.mem_singleton.mp member]
        exact SearchPlace.within_root fun address pointer => isSome (there address pointer)
      · simp [searchRest, loaded, Subhier.next, Subhier.target_pointer there]
      · simp [searchSize, loaded, Subhier.next, Subhier.target_pointer there]
  | search subhier level =>
      obtain ⟨parent, topic, subs, children, next, found, _, _, there, _⟩ := good.load within
      rw [searchStep, found] at stepped
      cases stepped
      have loaded := Subhier.target_of_chainAt found
      refine ⟨?_, ?_, ?_⟩
      · intro other member
        rw [List.mem_singleton.mp member]
        exact SearchPlace.within_branch fun address pointer => isSome (there address pointer)
      · simp [searchRest, loaded, Subhier.children, Subhier.target_pointer there]
      · simp [searchSize, loaded, Subhier.children, Subhier.target_pointer there]
  | branch branch level =>
      cases branch with
      | none =>
          cases stepped
          refine ⟨nofun, ?_, Nat.lt_succ_self _⟩
          cases level <;> rfl
      | some branch =>
          obtain ⟨parent, topic, subs, children, next, found, _⟩ := good.load within
          rw [searchStep, found] at stepped
          cases stepped
          have loaded := Subhier.target_of_chainAt found
          obtain ⟨inside, rest, size⟩ := @searchBranch_stands tokens shared branch parent topic subs children next found level
          refine ⟨?_, ?_, ?_⟩
          · intro other member
            rcases List.mem_append.mp member with inBody | last
            · exact inside other inBody
            · rw [List.mem_singleton.mp last]
              exact within
          · rw [searchRest, loaded, rest]
            simp [searchRest, loaded, Subhier.next]
          · rw [List.map_append, List.sum_append, searchSize, loaded, Subhier.weight]
            simp only [List.map_cons, List.map_nil, List.sum_cons, List.sum_nil, searchSize,
              loaded, Subhier.next]
            omega
  | branchNext branch level =>
      obtain ⟨parent, topic, subs, children, next, found, _, _, _, there⟩ := good.load within
      rw [searchStep, found] at stepped
      cases stepped
      have loaded := Subhier.target_of_chainAt found
      refine ⟨?_, ?_, ?_⟩
      · intro other member
        rw [List.mem_singleton.mp member]
        exact SearchPlace.within_branch fun address pointer => isSome (there address pointer)
      · simp [searchRest, loaded, Subhier.next, Subhier.target_pointer there]
      · simp [searchSize, loaded, Subhier.next, Subhier.target_pointer there]
  | process hier =>
      obtain ⟨parent, topic, subs, children, next, found, nodup, _⟩ := good.load within
      rw [searchStep, found] at stepped
      cases stepped
      obtain ⟨inside, rest, size⟩ := @leaf_stands tokens shared hier _ [] subs found rfl nodup
      refine ⟨fun other member => List.mem_singleton.mp member ▸ inside, ?_, ?_⟩
      · show _ = [] ++ [SearchPlace.leaf hier (leafPointer subs)].flatMap _
        rw [List.flatMap_singleton, List.nil_append, rest, searchRest,
          Subhier.target_of_chainAt found, Subhier.leaves]
      · show ([SearchPlace.leaf hier (leafPointer subs)].map _).sum < _
        rw [List.map_singleton, List.sum_singleton, size, searchSize,
          Subhier.target_of_chainAt found, Subhier.leaves]
        omega
  | leaf hier leaf =>
      cases leaf with
      | none =>
          cases stepped
          exact ⟨nofun, rfl, Nat.lt_succ_self _⟩
      | some leaf =>
          obtain ⟨chain, front, own, rest, found, split, nodup, here⟩ := good.loadLeaf within
          rw [searchStep, here] at stepped
          cases stepped
          refine ⟨fun other member => List.mem_singleton.mp member ▸ within, ?_, ?_⟩
          · rw [searchRest, here, subsProcess]
            simp only [List.flatMap_cons, List.flatMap_nil, List.append_nil, searchRest, here,
              List.tail_cons]
            split
            · rfl
            · rfl
          · simp only [List.map_cons, List.map_nil, List.sum_cons, List.sum_nil, searchSize, here,
              List.tail_cons, List.length_cons]
            omega
  | leafNext hier leaf =>
      obtain ⟨chain, front, own, rest, found, split, nodup, here⟩ := good.loadLeaf within
      rw [searchStep, here] at stepped
      cases stepped
      rw [List.append_cons] at split
      obtain ⟨inside, restEq, size⟩ := @leaf_stands tokens shared hier chain _ rest found split nodup
      refine ⟨fun other member => List.mem_singleton.mp member ▸ inside, ?_, ?_⟩
      · rw [List.flatMap_singleton, List.nil_append, restEq, searchRest, here, List.tail_cons]
      · rw [List.map_singleton, List.sum_singleton, size, searchSize, here, List.tail_cons]
        omega

end Step

/-! A step beside stores. -/

namespace Subhier

variable {before after : Subhier}

theorem Grown.childrenGrown (grown : Grown before after) :
    Grown before.children after.children := by
  cases grown with
  | null => exact .null _
  | node _ _ _ _ below _ => exact below

theorem Grown.nextGrown (grown : Grown before after) : Grown before.next after.next := by
  cases grown with
  | null => exact .null _
  | node _ _ _ _ _ behind => exact behind

theorem Grown.leavesGrown (grown : Grown before after) :
    LeavesGrown before.leaves after.leaves := by
  cases grown with
  | null => exact ⟨[], after.leaves, rfl, rfl⟩
  | node _ _ _ leaves _ _ => exact leaves

theorem Tidy.tidyChildren (tidy : before.Tidy) : before.children.Tidy := by
  cases before with
  | null => trivial
  | node => exact tidy.2.2.1

theorem Tidy.tidyNext (tidy : before.Tidy) : before.next.Tidy := by
  cases before with
  | null => trivial
  | node => exact tidy.2.2.2

theorem Tidy.leavesNodup (tidy : before.Tidy) :
    (before.leaves.map Subleaf.address).Nodup := by
  cases before with
  | null => exact List.nodup_nil
  | node => exact tidy.1

end Subhier

section Beside

variable {tokens : List Token} {shared later : SharedTree} {place : SearchPlace}
  {places : List SearchPlace} {items : List Nat}

theorem SharedTree.Grows.target (grows : shared.Grows later) (good : later.Good)
    {pointer : Option Address}
    (within : ∀ address, pointer = some address → (shared.tree.chainAt address).isSome = true) :
    Subhier.Grown (shared.tree.target pointer) (later.tree.target pointer) ∧
      (later.tree.target pointer).Tidy := by
  cases pointer with
  | none => exact ⟨.refl _, trivial⟩
  | some address =>
      obtain ⟨chain, found⟩ := Option.isSome_iff_exists.mp (within address rfl)
      obtain ⟨chain', found', grown⟩ := grows.tree.chainAt good.nodup found
      rw [Subhier.target_of_chainAt found, Subhier.target_of_chainAt found']
      exact ⟨grown, good.tidy.chainAt found'⟩

theorem SharedTree.Grows.isSome (grows : shared.Grows later) (good : later.Good)
    {address : Address} (within : (shared.tree.chainAt address).isSome = true) :
    (later.tree.chainAt address).isSome = true := by
  obtain ⟨chain, found⟩ := Option.isSome_iff_exists.mp within
  obtain ⟨_, found', _⟩ := grows.tree.chainAt good.nodup found
  rw [found']
  rfl

/-- The leaf that a pointer leads to, before and after some stores. -/
theorem SharedTree.Grows.leaf (grows : shared.Grows later) (good : later.Good)
    {hier leaf : Address}
    (within : leaf ∈ (shared.tree.target (some hier)).leaves.map Subleaf.address) :
    leaf ∈ (later.tree.target (some hier)).leaves.map Subleaf.address ∧
      ∃ found rest found' rest',
        leavesFrom leaf (shared.tree.target (some hier)).leaves = found :: rest ∧
        leavesFrom leaf (later.tree.target (some hier)).leaves = found' :: rest' ∧
        found'.link = found.link ∧ LeavesGrown rest rest' := by
  have isHier : ∀ address, some hier = some address →
      (shared.tree.chainAt address).isSome = true := by
    rintro _ ⟨⟩
    by_contra none
    rw [Subhier.target, Option.bind_some, Option.not_isSome_iff_eq_none.mp none] at within
    cases within
  obtain ⟨grown, tidy⟩ := grows.target good isHier
  obtain ⟨found, rest, found', rest', here, here', link, restGrown⟩ :=
    grown.leavesGrown.from tidy.leavesNodup within
  exact ⟨grown.leavesGrown.addresses.subset within, found, rest, found', rest', here, here',
    link, restGrown⟩

theorem SearchPlace.Within.stays (within : place.Within shared.tree) (good : later.Good)
    (grows : shared.Grows later) : place.Within later.tree := by
  cases place with
  | start => trivial
  | root subhier =>
      cases subhier with
      | none => trivial
      | some subhier => exact grows.isSome good within
  | branch branch level =>
      cases branch with
      | none => trivial
      | some branch => exact grows.isSome good within
  | leaf hier leaf =>
      cases leaf with
      | none => exact grows.isSome good within
      | some leaf => exact (grows.leaf good within).1
  | leafNext hier leaf => exact (grows.leaf good within).1
  | rootNext address | search address | branchNext address | process address =>
      exact grows.isSome good within

theorem searchRest_gains (good : later.Good) (grows : shared.Grows later)
    (within : place.Within shared.tree) :
    (searchRest tokens shared place).Sublist (searchRest tokens later place) := by
  have one : ∀ {own : Address}, (shared.tree.chainAt own).isSome = true → ∀ address,
      some own = some address → (shared.tree.chainAt address).isSome = true := by
    rintro own isSome _ ⟨⟩
    exact isSome
  cases place with
  | start => exact subTreeProcess_rootGrown grows.clients grows.tree good.tidy tokens
  | root subhier =>
      cases subhier with
      | none => exact List.nil_sublist _
      | some subhier =>
          obtain ⟨grown, tidy⟩ := grows.target good (one within)
          exact subTreeProcess_grown grows.clients grown tidy tokens
  | rootNext subhier =>
      obtain ⟨grown, tidy⟩ := grows.target good (one within)
      exact subTreeProcess_grown grows.clients grown.nextGrown tidy.tidyNext tokens
  | search subhier level =>
      obtain ⟨grown, tidy⟩ := grows.target good (one within)
      exact subSearch_grown grows.clients grown.childrenGrown tidy.tidyChildren level
  | branch branch level =>
      cases branch with
      | none =>
          cases level with
          | nil => exact List.nil_sublist _
          | cons => exact List.nil_sublist _
      | some branch =>
          obtain ⟨grown, tidy⟩ := grows.target good (one within)
          exact subSearch_grown grows.clients grown tidy level
  | branchNext branch level =>
      obtain ⟨grown, tidy⟩ := grows.target good (one within)
      exact subSearch_grown grows.clients grown.nextGrown tidy.tidyNext level
  | process hier =>
      obtain ⟨grown, _⟩ := grows.target good (one within)
      exact subsProcess_grown grows.clients grown.leavesGrown
  | leaf hier leaf =>
      cases leaf with
      | none => exact List.nil_sublist _
      | some leaf =>
          obtain ⟨_, found, rest, found', rest', here, here', link, restGrown⟩ :=
            grows.leaf good within
          rw [searchRest, searchRest, here, here']
          exact subsProcess_grown grows.clients (restGrown.cons link)
  | leafNext hier leaf =>
      obtain ⟨_, found, rest, found', rest', here, here', _, restGrown⟩ :=
        grows.leaf good within
      rw [searchRest, searchRest, here, here', List.tail_cons, List.tail_cons]
      exact subsProcess_grown grows.clients restGrown

/-- A pointer that is loaded from a list that has grown is loaded again, or it was `NULL`. -/
theorem Subhier.Grown.pointer {before after : Subhier} (grown : Subhier.Grown before after) :
    before.pointer = none ∨ before.pointer = after.pointer := by
  cases grown with
  | null => exact .inl rfl
  | node => exact .inr rfl

theorem LeavesGrown.pointer {before after : List Subleaf} (grown : LeavesGrown before after) :
    leafPointer before = none ∨ leafPointer before = leafPointer after := by
  obtain ⟨kept, added, rfl, links⟩ := grown
  cases before with
  | nil => exact .inl rfl
  | cons leaf rest =>
      obtain ⟨leaf', rest', rfl, link, _⟩ := List.map_eq_cons_iff.mp links
      have same : leaf'.address = leaf.address := congrArg Prod.fst link
      exact .inr (congrArg some same.symm)

/-- What a place leads to is at least what another one leads to. -/
def AtMost (tokens : List Token) (shared : SharedTree) (place other : SearchPlace) : Prop :=
  (searchRest tokens shared place).Sublist (searchRest tokens shared other) ∧
    searchSize shared place ≤ searchSize shared other

theorem AtMost.refl (place : SearchPlace) : AtMost tokens shared place place :=
  ⟨List.Sublist.refl _, Nat.le_refl _⟩

theorem AtMost.each (places : List SearchPlace) :
    List.Forall₂ (AtMost tokens shared) places places :=
  List.forall₂_same.mpr fun place _ => .refl place

/-- A loop that has found `NULL` is over. -/
theorem AtMost.ended {pointer pointer' : Option Address}
    (same : pointer = none ∨ pointer = pointer') :
    AtMost tokens shared (.root pointer) (.root pointer') ∧
      (∀ level, AtMost tokens shared (.branch pointer level) (.branch pointer' level)) ∧
      ∀ hier, AtMost tokens shared (.leaf hier pointer) (.leaf hier pointer') := by
  rcases same with rfl | rfl
  · refine ⟨⟨List.nil_sublist _, ?_⟩, fun level => ⟨?_, ?_⟩, fun hier => ⟨List.nil_sublist _, ?_⟩⟩
    · exact Nat.le_add_left 1 _
    · cases level with
      | nil => exact List.nil_sublist _
      | cons => exact List.nil_sublist _
    · exact Nat.le_add_left 1 _
    · cases pointer' with
      | none => exact Nat.le_refl _
      | some => exact Nat.le_add_left 1 _
  · exact ⟨.refl _, fun _ => .refl _, fun _ => .refl _⟩

theorem searchStep_keepsUp (goodLater : later.Good)
    (grows : shared.Grows later) (within : place.Within shared.tree)
    (stepped : searchStep tokens shared place = some (places, items)) :
    ∃ places' items', searchStep tokens later place = some (places', items') ∧
      items.Sublist items' ∧ List.Forall₂ (AtMost tokens later) places places' := by
  cases place with
  | start =>
      cases stepped
      refine ⟨_, _, rfl, List.Sublist.refl _, .cons ?_ .nil⟩
      obtain ⟨chain, grown, behind⟩ := grows.tree
      have there : ∀ address, chain.pointer = some address →
          later.tree.chainAt address = some chain :=
        fun address pointer => behind.chainAt goodLater.nodup (Subhier.chainAt_self pointer)
      have whole : later.tree.target later.tree.pointer = later.tree :=
        Subhier.target_pointer fun address => Subhier.chainAt_self
      rcases grown.pointer with none | same
      · exact (AtMost.ended (.inl none)).1
      · rw [same]
        refine ⟨?_, ?_⟩
        · rw [searchRest, searchRest, whole, Subhier.target_pointer there]
          exact subTreeProcess_behind later.clients behind tokens
        · rw [searchSize, searchSize, whole, Subhier.target_pointer there]
          exact Nat.succ_le_succ behind.weight_le
  | root subhier =>
      cases subhier with
      | none =>
          cases stepped
          exact ⟨_, _, rfl, List.Sublist.refl _, .nil⟩
      | some subhier =>
          obtain ⟨_, topic, _, _, _, _, _, _, found, found', _⟩ := grows.load goodLater within
          rw [searchStep, found] at stepped
          cases stepped
          exact ⟨_, _, by rw [searchStep, found'], List.Sublist.refl _, AtMost.each _⟩
  | rootNext subhier =>
      obtain ⟨_, _, _, _, _, _, _, _, found, found', _, _, behind⟩ := grows.load goodLater within
      rw [searchStep, found] at stepped
      cases stepped
      exact ⟨_, _, by rw [searchStep, found']; rfl, List.Sublist.refl _,
        .cons (AtMost.ended behind.pointer).1 .nil⟩
  | search subhier level =>
      obtain ⟨_, _, _, _, _, _, _, _, found, found', _, below, _⟩ := grows.load goodLater within
      rw [searchStep, found] at stepped
      cases stepped
      exact ⟨_, _, by rw [searchStep, found']; rfl, List.Sublist.refl _,
        .cons ((AtMost.ended below.pointer).2.1 level) .nil⟩
  | branch branch level =>
      cases branch with
      | none =>
          cases stepped
          exact ⟨_, _, rfl, List.Sublist.refl _, .nil⟩
      | some branch =>
          obtain ⟨_, topic, _, children, _, _, children', _, found, found', _, below, _⟩ :=
            grows.load goodLater within
          rw [searchStep, found] at stepped
          cases stepped
          -- a `#` node is a leaf of the tree before and after
          have same : searchBranch branch topic children.isNull level =
              searchBranch branch topic children'.isNull level := by
            by_cases isHash : topic = [hash]
            · have none : children' = .null := (goodLater.tidy.chainAt found').2.1 isHash
              subst none
              rw [below.null_right]
            · simp only [searchBranch.eq_def, isHash, false_and]
          refine ⟨_, _, by rw [searchStep, found'], List.Sublist.refl _, ?_⟩
          rw [same]
          exact AtMost.each _
  | branchNext branch level =>
      obtain ⟨_, _, _, _, _, _, _, _, found, found', _, _, behind⟩ := grows.load goodLater within
      rw [searchStep, found] at stepped
      cases stepped
      exact ⟨_, _, by rw [searchStep, found']; rfl, List.Sublist.refl _,
        .cons ((AtMost.ended behind.pointer).2.1 level) .nil⟩
  | process hier =>
      obtain ⟨_, _, _, _, _, _, _, _, found, found', leaves, _⟩ := grows.load goodLater within
      rw [searchStep, found] at stepped
      cases stepped
      exact ⟨_, _, by rw [searchStep, found']; rfl, List.Sublist.refl _,
        .cons ((AtMost.ended leaves.pointer).2.2 hier) .nil⟩
  | leaf hier leaf =>
      cases leaf with
      | none =>
          cases stepped
          exact ⟨_, _, rfl, List.Sublist.refl _, .nil⟩
      | some leaf =>
          obtain ⟨_, found, rest, found', rest', here, here', link, _⟩ :=
            grows.leaf goodLater within
          rw [searchStep, here] at stepped
          cases stepped
          have context : found'.context = found.context := congrArg (·.2.2) link
          refine ⟨_, _, by rw [searchStep, here'], ?_, AtMost.each _⟩
          rw [context]
          by_cases subscribed : (shared.clients found.context).isSubscribe = true
          · rw [if_pos subscribed, if_pos (grows.clients _ subscribed)]
          · rw [if_neg subscribed]
            exact List.nil_sublist _
  | leafNext hier leaf =>
      obtain ⟨_, found, rest, found', rest', here, here', _, restGrown⟩ :=
        grows.leaf goodLater within
      rw [searchStep, here] at stepped
      cases stepped
      exact ⟨_, _, by rw [searchStep, here'], List.Sublist.refl _,
        .cons ((AtMost.ended restGrown.pointer).2.2 hier) .nil⟩

end Beside

/-- The search for a topic, as a visit of the tree. -/
def search (tokens : List Token) : Visitor SharedTree SearchPlace Nat where
  step := searchStep tokens
  rest := searchRest tokens
  size := searchSize
  Good := SharedTree.Good
  Within shared place := place.Within shared.tree
  Grows := SharedTree.Grows
  refl := fun _ => ⟨.refl _, fun _ subscribed => subscribed⟩
  trans := fun left right =>
    ⟨left.tree.trans right.tree,
      fun slot subscribed => right.clients slot (left.clients slot subscribed)⟩
  goesOn := searchStep_goesOn
  stands := searchStep_stands
  stays := fun good grows within => within.stays good grows
  gains := searchRest_gains
  keepsUp := searchStep_keepsUp

end MuMQ
