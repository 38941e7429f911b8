import MuMQ.Substree.Subhier
import Mathlib.Data.List.Nodup

namespace MuMQ

/-! The tree as the list of its nodes in the order the search visits them. -/

/-- A node: the topics from the top down to it, its leaves, and whether it has a
child. -/
structure Site where
  path : List Token
  leaves : List Subleaf
  inner : Bool
  deriving DecidableEq

namespace Site

def below (topic : Token) (site : Site) : Site :=
  { site with path := topic :: site.path }

/-- The clients of a node's leaves. -/
def contexts (site : Site) : List Nat := site.leaves.map Subleaf.context

@[simp] theorem below_path (topic : Token) (site : Site) :
    (site.below topic).path = topic :: site.path := rfl

@[simp] theorem below_leaves (topic : Token) (site : Site) :
    (site.below topic).leaves = site.leaves := rfl

@[simp] theorem below_inner (topic : Token) (site : Site) :
    (site.below topic).inner = site.inner := rfl

end Site

namespace Subhier

/-- The nodes of a chain of siblings and of all below it. -/
def sites : Subhier → List Site
  | .null => []
  | .node _ _ topic subs children next =>
      children.sites.map (Site.below topic)
        ++ (⟨[topic], subs, !children.isNull⟩ :: next.sites)

/-- The topics of a chain of siblings. -/
def topics : Subhier → List Token
  | .null => []
  | .node _ _ topic _ _ next => topic :: next.topics

/-- Siblings have different topics, at every node. -/
def Distinct : Subhier → Prop
  | .null => True
  | .node _ _ topic _ children next =>
      topic ∉ next.topics ∧ children.Distinct ∧ next.Distinct

theorem sites_append (chain branch : Subhier) :
    (chain.append branch).sites = chain.sites ++ branch.sites := by
  induction chain with
  | null => rfl
  | node address parent topic subs children next _ induction =>
      simp [append, sites, induction]

theorem topics_append (chain branch : Subhier) :
    (chain.append branch).topics = chain.topics ++ branch.topics := by
  induction chain with
  | null => rfl
  | node address parent topic subs children next _ induction =>
      simp [append, topics, induction]

theorem mem_sites_below {address : Address} {parent : Option Address}
    {topic : Token} {subs : List Subleaf} {children next : Subhier} {site : Site}
    (member : site ∈ children.sites) :
    site.below topic ∈ (node address parent topic subs children next).sites :=
  List.mem_append_left _ (List.mem_map_of_mem member)

theorem mem_sites_own (address : Address) (parent : Option Address)
    (topic : Token) (subs : List Subleaf) (children next : Subhier) :
    ⟨[topic], subs, !children.isNull⟩ ∈
      (node address parent topic subs children next).sites := by
  simp [sites]

theorem mem_sites_next {address : Address} {parent : Option Address}
    {topic : Token} {subs : List Subleaf} {children next : Subhier} {site : Site}
    (member : site ∈ next.sites) :
    site ∈ (node address parent topic subs children next).sites := by
  simp [sites, member]

theorem path_ne_nil {chain : Subhier} {site : Site} (member : site ∈ chain.sites) :
    site.path ≠ [] := by
  induction chain with
  | null => simp [sites] at member
  | node address parent topic subs children next _ induction =>
      simp only [sites, List.mem_append, List.mem_map, List.mem_cons] at member
      rcases member with ⟨lower, _, rfl⟩ | rfl | inNext
      · simp
      · simp
      · exact induction inNext

theorem head_mem_topics {chain : Subhier} {site : Site}
    (member : site ∈ chain.sites) :
    ∃ topic rest, site.path = topic :: rest ∧ topic ∈ chain.topics := by
  induction chain with
  | null => simp [sites] at member
  | node address parent topic subs children next _ induction =>
      simp only [sites, List.mem_append, List.mem_map, List.mem_cons] at member
      rcases member with ⟨lower, _, rfl⟩ | rfl | inNext
      · exact ⟨topic, lower.path, rfl, by simp [topics]⟩
      · exact ⟨topic, [], rfl, by simp [topics]⟩
      · obtain ⟨head, rest, path, found⟩ := induction inNext
        exact ⟨head, rest, path, by simp [topics, found]⟩

theorem Distinct.paths_nodup {chain : Subhier} (distinct : chain.Distinct) :
    (chain.sites.map Site.path).Nodup := by
  induction chain with
  | null => simp [sites]
  | node address parent topic subs children next childInduction nextInduction =>
      obtain ⟨fresh, childDistinct, nextDistinct⟩ := distinct
      have lower : (children.sites.map (Site.path ∘ Site.below topic)).Nodup := by
        have mapped := (childInduction childDistinct).map
          (List.cons_injective (a := topic))
        simpa [List.map_map, Function.comp_def] using mapped
      have elsewhere : ∀ site ∈ next.sites, ∀ rest, site.path ≠ topic :: rest := by
        intro site member rest equal
        obtain ⟨head, tail, path, found⟩ := head_mem_topics member
        rw [path] at equal
        cases equal
        exact fresh found
      simp only [sites, List.map_append, List.map_cons, List.map_map]
      rw [List.nodup_append]
      refine ⟨lower, List.nodup_cons.mpr ⟨?_, nextInduction nextDistinct⟩, ?_⟩
      · simp only [List.mem_map, not_exists, not_and]
        intro site member
        exact elsewhere site member []
      · intro path lowerMember other upperMember equal
        subst other
        obtain ⟨site, siteMember, rfl⟩ := List.mem_map.mp lowerMember
        rcases List.mem_cons.mp upperMember with own | inNext
        · exact path_ne_nil siteMember (by simpa using own)
        · obtain ⟨far, farMember, path⟩ := List.mem_map.mp inNext
          exact elsewhere far farMember site.path path

theorem Distinct.eq_of_path {chain : Subhier} (distinct : chain.Distinct)
    {left right : Site} (leftMember : left ∈ chain.sites)
    (rightMember : right ∈ chain.sites) (same : left.path = right.path) :
    left = right :=
  List.inj_on_of_nodup_map distinct.paths_nodup leftMember rightMember same

theorem inner_of_prefix {chain : Subhier} {site : Site} {path rest : List Token}
    {topic : Token} (member : site ∈ chain.sites)
    (split : site.path = path ++ topic :: rest) (nonempty : path ≠ []) :
    ∃ upper ∈ chain.sites, upper.path = path ∧ upper.inner = true := by
  induction chain generalizing site path with
  | null => simp [sites] at member
  | node address parent own subs children next childInduction nextInduction =>
      simp only [sites, List.mem_append, List.mem_map, List.mem_cons] at member
      rcases member with ⟨lower, lowerMember, rfl⟩ | rfl | inNext
      · obtain ⟨head, tail, rfl⟩ := List.exists_cons_of_ne_nil nonempty
        simp only [Site.below_path, List.cons_append, List.cons.injEq] at split
        obtain ⟨rfl, lowerSplit⟩ := split
        cases tail with
        | nil =>
            have hasChild : children.isNull = false := by
              cases children with
              | null => simp [sites] at lowerMember
              | node => rfl
            exact ⟨⟨[own], subs, !children.isNull⟩, mem_sites_own .., rfl, by
              simp [hasChild]⟩
        | cons second tail =>
            obtain ⟨upper, upperMember, upperPath, inner⟩ :=
              childInduction lowerMember lowerSplit (by simp)
            exact ⟨upper.below own, mem_sites_below upperMember, by
              simp [upperPath], inner⟩
      · obtain ⟨head, tail, rfl⟩ := List.exists_cons_of_ne_nil nonempty
        simp at split
      · obtain ⟨upper, upperMember, upperPath, inner⟩ :=
          nextInduction inNext split nonempty
        exact ⟨upper, mem_sites_next upperMember, upperPath, inner⟩

theorem exists_below_of_inner {chain : Subhier} {site : Site}
    (member : site ∈ chain.sites) (inner : site.inner = true) :
    ∃ lower ∈ chain.sites, ∃ topic, lower.path = site.path ++ [topic] := by
  induction chain generalizing site with
  | null => simp [sites] at member
  | node address parent own subs children next childInduction nextInduction =>
      simp only [sites, List.mem_append, List.mem_map, List.mem_cons] at member
      rcases member with ⟨upper, upperMember, rfl⟩ | rfl | inNext
      · obtain ⟨lower, lowerMember, topic, path⟩ := childInduction upperMember inner
        exact ⟨lower.below own, mem_sites_below lowerMember, topic, by simp [path]⟩
      · cases children with
        | null => simp [isNull] at inner
        | node childAddress childParent topic childSubs grandchildren sibling =>
            exact ⟨_, mem_sites_below (mem_sites_own ..), topic, rfl⟩
      · obtain ⟨lower, lowerMember, topic, path⟩ := nextInduction inNext inner
        exact ⟨lower, mem_sites_next lowerMember, topic, path⟩

end Subhier

/-- Whether the search with these tokens calls back for the node at `path`. -/
def visits : List Token → Bool → List Token → Bool
  | [], _, _ => false
  | [topic], inner, tokens =>
      match tokens with
      | token :: rest =>
          if topic = token ∨ topic = [plus] then rest.isEmpty
          else decide (topic = [hash]) && !inner
      | [] => decide (topic = [hash]) && !inner
  | topic :: path, inner, tokens =>
      match tokens with
      | token :: rest =>
          decide (topic = token ∨ topic = [plus]) && visits path inner rest
      | [] => false

/-- What a visited node contributes to a search. -/
def callbacksAt (clients : Nat → Client) (tokens : List Token) (site : Site) :
    List Nat :=
  if visits site.path site.inner tokens then subsProcess clients site.leaves else []

theorem visits_cons {topic : Token} {path tokens : List Token} {inner : Bool}
    (nonempty : path ≠ []) :
    visits (topic :: path) inner tokens =
      match tokens with
      | token :: rest =>
          decide (topic = token ∨ topic = [plus]) && visits path inner rest
      | [] => false := by
  obtain ⟨second, rest, rfl⟩ := List.exists_cons_of_ne_nil nonempty
  rfl

private theorem callbacks_below_nil (clients : Nat → Client) (topic : Token)
    (children : Subhier) :
    (children.sites.map (Site.below topic)).flatMap (callbacksAt clients []) = [] := by
  simp only [List.flatMap_eq_nil_iff, List.mem_map, forall_exists_index, and_imp]
  rintro site lower member rfl
  simp [callbacksAt, visits_cons (Subhier.path_ne_nil member)]

private theorem callbacks_below_cons (clients : Nat → Client)
    (topic token : Token) (rest : List Token) (children : Subhier) :
    (children.sites.map (Site.below topic)).flatMap
        (callbacksAt clients (token :: rest)) =
      if topic = token ∨ topic = [plus] then
        children.sites.flatMap (callbacksAt clients rest)
      else [] := by
  rw [List.flatMap_map]
  split
  · rename_i selected
    apply List.flatMap_congr
    intro site member
    simp [callbacksAt, visits_cons (Subhier.path_ne_nil member), selected]
  · rename_i rejected
    simp only [List.flatMap_eq_nil_iff]
    intro site member
    simp [callbacksAt, visits_cons (Subhier.path_ne_nil member), rejected]

/-- `_sub_search` calls back for exactly the nodes it visits. -/
theorem subSearch_eq (clients : Nat → Client) (tokens : List Token)
    (chain : Subhier) :
    subSearch clients tokens chain =
      chain.sites.flatMap (callbacksAt clients tokens) := by
  induction chain generalizing tokens with
  | null => cases tokens <;> rfl
  | node address parent topic subs children next childInduction nextInduction =>
      simp only [Subhier.sites, List.flatMap_append, List.flatMap_cons]
      cases tokens with
      | nil =>
          rw [callbacks_below_nil, List.nil_append, subSearch, nextInduction]
          congr 1
          simp [callbacksAt, visits]
      | cons token rest =>
          rw [callbacks_below_cons, subSearch, nextInduction, childInduction,
            ← List.append_assoc]
          congr 1
          by_cases selected : topic = token ∨ topic = [plus]
          · simp [callbacksAt, visits, selected]
          · simp [callbacksAt, visits, selected]

/-- Whether a search from the root with these tokens calls back for the node at
`path`, which leads through the child of the root it starts in. -/
def rootVisits (path : List Token) (inner : Bool) (tokens : List Token) : Bool :=
  match path with
  | [] => false
  | top :: path => decide (tokens.head? = some top) && visits path inner tokens

def rootCallbacksAt (clients : Nat → Client) (tokens : List Token) (site : Site) :
    List Nat :=
  if rootVisits site.path site.inner tokens then subsProcess clients site.leaves
  else []

private theorem rootCallbacks_below (clients : Nat → Client) (topic : Token)
    (tokens : List Token) (children : Subhier) :
    (children.sites.map (Site.below topic)).flatMap
        (rootCallbacksAt clients tokens) =
      if tokens.head? = some topic then
        children.sites.flatMap (callbacksAt clients tokens)
      else [] := by
  rw [List.flatMap_map]
  split
  · rename_i selected
    apply List.flatMap_congr
    intro site _
    simp [rootCallbacksAt, callbacksAt, rootVisits, selected]
  · rename_i rejected
    simp only [List.flatMap_eq_nil_iff]
    intro site _
    simp [rootCallbacksAt, rootVisits, rejected]

/-- `mqtt3_sub_tree_process` calls back for exactly the nodes it visits. -/
theorem subTreeProcess_eq (clients : Nat → Client) (tokens : List Token)
    (chain : Subhier) :
    subTreeProcess clients tokens chain =
      chain.sites.flatMap (rootCallbacksAt clients tokens) := by
  induction chain with
  | null => rfl
  | node address parent topic subs children next _ induction =>
      have own : rootCallbacksAt clients tokens
          ⟨[topic], subs, !children.isNull⟩ = [] := by
        simp [rootCallbacksAt, rootVisits, visits]
      simp only [Subhier.sites, List.flatMap_append, List.flatMap_cons, own,
        List.nil_append]
      rw [subTreeProcess, induction, rootCallbacks_below, subSearch_eq]

theorem mem_subsProcess {clients : Nat → Client} {leaves : List Subleaf}
    {slot : Nat} :
    slot ∈ subsProcess clients leaves ↔
      (clients slot).isSubscribe = true ∧ slot ∈ leaves.map Subleaf.context := by
  induction leaves with
  | nil => simp [subsProcess]
  | cons leaf rest induction =>
      by_cases subscribed : (clients leaf.context).isSubscribe = true
      · simp only [subsProcess, subscribed, if_true, List.mem_cons, induction,
          List.map_cons]
        constructor
        · rintro (rfl | ⟨flag, member⟩)
          · exact ⟨subscribed, .inl rfl⟩
          · exact ⟨flag, .inr member⟩
        · rintro ⟨flag, rfl | member⟩
          · exact .inl rfl
          · exact .inr ⟨flag, member⟩
      · simp only [subsProcess, subscribed, if_false, induction, List.map_cons,
          List.mem_cons, Bool.false_eq_true]
        constructor
        · rintro ⟨flag, member⟩
          exact ⟨flag, .inr member⟩
        · rintro ⟨flag, rfl | member⟩
          · exact absurd flag subscribed
          · exact ⟨flag, member⟩

theorem mem_subTreeProcess {clients : Nat → Client} {tokens : List Token}
    {chain : Subhier} {slot : Nat} :
    slot ∈ subTreeProcess clients tokens chain ↔
      (clients slot).isSubscribe = true ∧
        ∃ site ∈ chain.sites, rootVisits site.path site.inner tokens = true ∧
          slot ∈ site.contexts := by
  rw [subTreeProcess_eq, List.mem_flatMap]
  constructor
  · rintro ⟨site, member, called⟩
    unfold rootCallbacksAt at called
    split at called
    · rename_i visited
      obtain ⟨flag, leaf⟩ := mem_subsProcess.mp called
      exact ⟨flag, site, member, visited, leaf⟩
    · cases called
  · rintro ⟨flag, site, member, visited, leaf⟩
    refine ⟨site, member, ?_⟩
    rw [rootCallbacksAt, if_pos visited]
    exact mem_subsProcess.mpr ⟨flag, leaf⟩

end MuMQ
