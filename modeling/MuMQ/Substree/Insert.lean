import MuMQ.Data.Edit
import MuMQ.Substree.Outcome
import MuMQ.Substree.Sites

namespace MuMQ

open Data

/-! What an insertion does to the nodes of the tree. -/

section Insert

variable (clients : Nat → Client) (context : Nat)

/-- What an insertion for `context` may do to the leaves of the node it ends in:
nothing, a new `qos` on the leaf of a client with the same id, or a leaf of
`context` at the end when no client there has that id. -/
inductive LeafChange : List Subleaf → List Subleaf → Prop
  | same (leaves : List Subleaf) : LeafChange leaves leaves
  | renewed (sameContexts : after.map Subleaf.context = before.map Subleaf.context)
      (namesake : ∃ leaf ∈ before,
        (clients leaf.context).idString = (clients context).idString) :
      LeafChange before after
  | added (leaf : Subleaf) (own : leaf.context = context)
      (alone : ∀ other ∈ before,
        (clients other.context).idString ≠ (clients context).idString) :
      LeafChange before (before ++ [leaf])

/-- What an insertion along `path` may do to a node: change the leaves at the end
of the path, give a first child to a node before it. -/
inductive SiteChange (path : List Token) : Site → Site → Prop
  | same (site : Site) : SiteChange path site site
  | leaf {own : List Token} {before after : List Subleaf} {inner : Bool} (atEnd : own = path)
      (changed : LeafChange clients context before after) :
      SiteChange path ⟨own, before, inner⟩ ⟨own, after, inner⟩
  | grown (before : path = own ++ topic :: rest) :
      SiteChange path ⟨own, leaves, false⟩ ⟨own, leaves, true⟩

/-- A node an insertion along `path` may create. -/
structure FreshSite (path : List Token) (site : Site) : Prop where
  onPath : site.path <+: path
  leaves : ∀ leaf ∈ site.leaves, leaf.context = context
  single : site.leaves.length ≤ 1
  atEnd : site.leaves ≠ [] → site.path = path

/-- The nodes before and after an insertion along `path`. -/
abbrev SitesEdit (path : List Token) : List Site → List Site → Prop :=
  Edit (SiteChange clients context path) (FreshSite context path)

variable {clients context}

theorem LeafChange.contexts_subset {before after : List Subleaf}
    (changed : LeafChange clients context before after) {slot : Nat}
    (member : slot ∈ before.map Subleaf.context) :
    slot ∈ after.map Subleaf.context := by
  cases changed with
  | same => exact member
  | renewed sameContexts namesake => rwa [sameContexts]
  | added leaf own alone => simp [member]

theorem LeafChange.mem_contexts {before after : List Subleaf}
    (changed : LeafChange clients context before after) {slot : Nat}
    (member : slot ∈ after.map Subleaf.context) :
    slot ∈ before.map Subleaf.context ∨ slot = context := by
  cases changed with
  | same => exact .inl member
  | renewed sameContexts namesake => exact .inl (sameContexts ▸ member)
  | added leaf own alone =>
      rw [List.map_append, List.mem_append, List.map_singleton,
        List.mem_singleton] at member
      rcases member with earlier | rfl
      · exact .inl earlier
      · exact .inr own

theorem LeafChange.nodup {before after : List Subleaf}
    (changed : LeafChange clients context before after)
    (nodup : (before.map Subleaf.context).Nodup) :
    (after.map Subleaf.context).Nodup := by
  cases changed with
  | same => exact nodup
  | renewed sameContexts namesake => rwa [sameContexts]
  | added leaf own alone =>
      rw [List.map_append, List.map_singleton]
      refine List.nodup_append.mpr ⟨nodup, List.nodup_singleton _, ?_⟩
      intro slot member other inSingleton equal
      obtain ⟨old, oldMember, rfl⟩ := List.mem_map.mp member
      rw [List.mem_singleton] at inSingleton
      exact alone old oldMember (by rw [equal, inSingleton, own])

theorem SiteChange.path {path : List Token} {before after : Site}
    (changed : SiteChange clients context path before after) :
    after.path = before.path := by
  cases changed <;> rfl

theorem SiteChange.below {path : List Token} {before after : Site} (topic : Token)
    (changed : SiteChange clients context path before after) :
    SiteChange clients context (topic :: path) (before.below topic)
      (after.below topic) := by
  cases changed with
  | same => exact .same _
  | leaf atEnd changed => exact .leaf (congrArg (topic :: ·) atEnd) changed
  | grown before => exact .grown (congrArg (topic :: ·) before)

theorem FreshSite.below {path : List Token} {site : Site} (topic : Token)
    (isFresh : FreshSite context path site) :
    FreshSite context (topic :: path) (site.below topic) where
  onPath := List.cons_prefix_cons.mpr ⟨rfl, isFresh.onPath⟩
  leaves := isFresh.leaves
  single := isFresh.single
  atEnd nonempty := congrArg (topic :: ·) (isFresh.atEnd nonempty)

theorem FreshSite.change {path : List Token} {before after : Site}
    (isFresh : FreshSite context path before)
    (changed : SiteChange clients context path before after) :
    FreshSite context path after := by
  cases changed with
  | same => exact isFresh
  | @leaf own before after inner atEnd changed =>
      refine ⟨isFresh.onPath, ?_, ?_, fun _ => atEnd⟩
      · intro leaf member
        have slot := changed.mem_contexts (List.mem_map_of_mem member)
        rcases slot with earlier | equal
        · obtain ⟨old, oldMember, equal⟩ := List.mem_map.mp earlier
          rw [← equal]
          exact isFresh.leaves old oldMember
        · exact equal
      · have single : before.length ≤ 1 := isFresh.single
        cases changed with
        | same => exact single
        | renewed sameContexts namesake =>
            have lengths := congrArg List.length sameContexts
            simp only [List.length_map] at lengths
            show after.length ≤ 1
            omega
        | added leaf own alone =>
            cases before with
            | nil => simp
            | cons other rest =>
                have sameContext := isFresh.leaves other (by simp)
                exact absurd (by rw [sameContext]) (alone other (by simp))
  | grown =>
      exact ⟨isFresh.onPath, isFresh.leaves, isFresh.single, isFresh.atEnd⟩

theorem FreshSite.nodup {path : List Token} {site : Site}
    (isFresh : FreshSite context path site) : site.contexts.Nodup := by
  have single := isFresh.single
  unfold Site.contexts
  match leaves : site.leaves with
  | [] => simp
  | [leaf] => simp
  | _ :: _ :: _ => simp [leaves] at single

theorem SiteChange.nodup {path : List Token} {before after : Site}
    (changed : SiteChange clients context path before after)
    (nodup : before.contexts.Nodup) : after.contexts.Nodup := by
  cases changed with
  | same => exact nodup
  | leaf atEnd changed => exact changed.nodup nodup
  | grown => exact nodup

theorem SitesEdit.refl (path : List Token) (sites : List Site) :
    SitesEdit clients context path sites sites :=
  Edit.refl SiteChange.same sites

theorem SitesEdit.below {path : List Token} {before after : List Site}
    (topic : Token) (edit : SitesEdit clients context path before after) :
    SitesEdit clients context (topic :: path) (before.map (Site.below topic))
      (after.map (Site.below topic)) :=
  edit.map _ (fun _ _ changed => changed.below topic)
    (fun _ isFresh => isFresh.below topic)

/-- What grows from a new, empty node was not there before. -/
theorem SitesEdit.of_new_node {path : List Token} {topic : Token}
    {before after : List Site}
    (edit : SitesEdit clients context (topic :: path)
      (⟨[topic], [], false⟩ :: before) after) :
    SitesEdit clients context (topic :: path) before after :=
  edit.drop_fresh fun _ changed =>
    FreshSite.change
      ⟨List.cons_prefix_cons.mpr ⟨rfl, List.nil_prefix⟩, by simp, by simp, by simp⟩ changed

end Insert

/-- The leaves of nodes: the path of the node and the client of the leaf. -/
def leafPairs (sites : List Site) : List (List Token × Nat) :=
  sites.flatMap fun site => site.contexts.map fun slot => (site.path, slot)

theorem leafPairs_append (left right : List Site) :
    leafPairs (left ++ right) = leafPairs left ++ leafPairs right :=
  List.flatMap_append

theorem leafPairs_cons (site : Site) (sites : List Site) :
    leafPairs (site :: sites) =
      (site.contexts.map fun slot => (site.path, slot)) ++ leafPairs sites :=
  List.flatMap_cons

theorem leafPairs_below (topic : Token) (sites : List Site) :
    leafPairs (sites.map (Site.below topic)) =
      (leafPairs sites).map fun pair => (topic :: pair.1, pair.2) := by
  rw [leafPairs, leafPairs, List.flatMap_map, List.map_flatMap]
  apply List.flatMap_congr
  intro site _
  rw [List.map_map]
  rfl

/-! The leaf scan and the leaf part of `_sub_add`. -/

section Leaf

variable {clients : Nat → Client} {context : Nat} {qos : Int}

theorem setLeafQos_some {leaves after : List Subleaf}
    (found : setLeafQos clients context qos leaves = some after) :
    after.map Subleaf.context = leaves.map Subleaf.context ∧
      ∃ leaf ∈ leaves,
        (clients leaf.context).idString = (clients context).idString := by
  induction leaves generalizing after with
  | nil => cases found
  | cons leaf rest induction =>
      rw [setLeafQos] at found
      split at found
      · rename_i namesake
        cases found
        exact ⟨rfl, leaf, by simp, namesake⟩
      · obtain ⟨tail, tailFound, rfl⟩ := Option.map_eq_some_iff.mp found
        obtain ⟨contexts, other, member, namesake⟩ := induction tailFound
        exact ⟨by simp [contexts], other, by simp [member], namesake⟩

theorem setLeafQos_none {leaves : List Subleaf}
    (missing : setLeafQos clients context qos leaves = none) :
    ∀ leaf ∈ leaves,
      (clients leaf.context).idString ≠ (clients context).idString := by
  induction leaves with
  | nil => simp
  | cons leaf rest induction =>
      rw [setLeafQos] at missing
      split at missing
      · cases missing
      · rename_i different
        intro other member
        rcases List.mem_cons.mp member with rfl | inRest
        · exact different
        · exact induction (Option.map_eq_none_iff.mp missing) other inRest

/-- The leaf part of `_sub_add`: what it does to the leaves, and that afterwards,
if it succeeds, a client with the id of `context` has a leaf there. -/
theorem subAddLeaf_spec (clients : Nat → Client) (context : Nat) (qos : Int)
    (address : Address) (leaves : List Subleaf)
    (insertion : Insertion) :
    let result := subAddLeaf clients context qos address leaves insertion
    Memory.Extends insertion.memory result.1.memory ∧
      LeafChange clients context leaves result.2.1 ∧
      (result.2.2 = 0 ∧
          (∃ leaf ∈ result.2.1,
            (clients leaf.context).idString = (clients context).idString) ∨
        result.2.2 = -2 ∧ result.2.1 = leaves ∧ ¬ insertion.memory.Unfailing) := by
  have outcome := subAddLeaf_outcome clients context qos address leaves insertion
  generalize subAddLeaf clients context qos address leaves insertion = result at outcome ⊢
  cases outcome with
  | @renewed after found =>
      obtain ⟨contexts, leaf, member, namesake⟩ := setLeafQos_some found
      refine ⟨Memory.Extends.refl _,
        .renewed contexts ⟨leaf, member, namesake⟩, .inl ⟨rfl, ?_⟩⟩
      have stays : leaf.context ∈ after.map Subleaf.context := by
        rw [contexts]
        exact List.mem_map_of_mem member
      obtain ⟨new, newMember, equal⟩ := List.mem_map.mp stays
      exact ⟨new, newMember, by rw [equal]; exact namesake⟩
  | failed missing fails =>
      exact ⟨Memory.Extends.later _ _, .same leaves,
        .inr ⟨rfl, rfl, fun unfailing => fails (unfailing.succeedsFor 2)⟩⟩
  | reused missing free =>
      exact ⟨Memory.Extends.later _ _, .added _ rfl (setLeafQos_none missing),
        .inl ⟨rfl, _, List.mem_concat_self, rfl⟩⟩
  | appended missing full =>
      exact ⟨Memory.Extends.later _ _, .added _ rfl (setLeafQos_none missing),
        .inl ⟨rfl, _, List.mem_concat_self, rfl⟩⟩

end Leaf

/-! The descent of `_sub_add`. -/

section Descent

variable {clients : Nat → Client} {context : Nat} {qos : Int}

/-- An insertion of `context` along `path` under a chain of siblings, which it
leaves with the same topics: on success the last node of the path has a leaf of
a client with the id of `context`; only a failed allocation makes it fail, and then
all leaves stay as they were. -/
structure Added (clients : Nat → Client) (context : Nat) (path : List Token)
    (before : Subhier) (insertion : Insertion)
    (result : Insertion × Subhier × Int) : Prop where
  memory : Memory.Extends insertion.memory result.1.memory
  topics : result.2.1.topics = before.topics
  edit : SitesEdit clients context path before.sites result.2.1.sites
  distinct : before.Distinct → result.2.1.Distinct
  outcome :
    (result.2.2 = 0 ∧
        ∃ site ∈ result.2.1.sites, site.path = path ∧
          ∃ leaf ∈ site.leaves,
            (clients leaf.context).idString = (clients context).idString) ∨
      (result.2.2 = -2 ∧ leafPairs result.2.1.sites = leafPairs before.sites ∧
        ¬ insertion.memory.Unfailing)

theorem isNull_congr {left right : Subhier} (same : left.topics = right.topics) :
    left.isNull = right.isNull := by
  cases left <;> cases right <;>
    simp [Subhier.topics, Subhier.isNull] at same ⊢

theorem Added.under {path : List Token} {children : Subhier}
    {insertion : Insertion} {result : Insertion × Subhier × Int}
    (added : Added clients context path children insertion result)
    (address : Address) (parent : Option Address) (topic : Token)
    (subs : List Subleaf) (next : Subhier) :
    Added clients context (topic :: path)
      (.node address parent topic subs children next) insertion
      (result.1, .node address parent topic subs result.2.1 next, result.2.2) where
  memory := added.memory
  topics := rfl
  edit := by
    simp only [Subhier.sites, isNull_congr added.topics]
    exact (SitesEdit.below topic added.edit).append (SitesEdit.refl _ _)
  distinct := fun ⟨fresh, childDistinct, nextDistinct⟩ =>
    ⟨fresh, added.distinct childDistinct, nextDistinct⟩
  outcome := by
    rcases added.outcome with ⟨rc, site, member, path, leaf⟩ | ⟨rc, kept, failing⟩
    · exact .inl ⟨rc, site.below topic, Subhier.mem_sites_below member,
        congrArg (topic :: ·) path, leaf⟩
    · refine .inr ⟨rc, ?_, failing⟩
      simp only [Subhier.sites, isNull_congr added.topics, leafPairs_append,
        leafPairs_below, kept]

/-- An insertion into the siblings behind a node is one into the whole chain. -/
theorem Added.behind {path : List Token} {next : Subhier}
    {insertion : Insertion} {result : Insertion × Subhier × Int}
    (added : Added clients context path next insertion result)
    (address : Address) (parent : Option Address) (topic : Token)
    (subs : List Subleaf) (children : Subhier) :
    Added clients context path
      (.node address parent topic subs children next) insertion
      (result.1, .node address parent topic subs children result.2.1,
        result.2.2) where
  memory := added.memory
  topics := by simp [Subhier.topics, added.topics]
  edit := by
    simp only [Subhier.sites]
    exact (SitesEdit.refl _ _).append (.change (.same _) added.edit)
  distinct := fun ⟨fresh, childDistinct, nextDistinct⟩ =>
    ⟨by rw [added.topics]; exact fresh, childDistinct, added.distinct nextDistinct⟩
  outcome := by
    rcases added.outcome with ⟨rc, site, member, path, leaf⟩ | ⟨rc, kept, failing⟩
    · exact .inl ⟨rc, site, Subhier.mem_sites_next member, path, leaf⟩
    · refine .inr ⟨rc, ?_, failing⟩
      simp only [Subhier.sites, leafPairs_append, leafPairs_cons, kept]

/-- The sibling loop: a node with the topic is found and gets the insertion. -/
theorem onBranch_some {topic : Token} {tokens : List Token}
    {add : Subhier → Insertion → Insertion × Subhier × Int}
    {insertion : Insertion} {chain : Subhier}
    {result : Insertion × Subhier × Int}
    (adds : ∀ address parent subs children next,
      Added clients context (topic :: tokens)
        (.node address parent topic subs children next) insertion
        (add (.node address parent topic subs children next) insertion))
    (found : onBranch topic add insertion chain = some result) :
    Added clients context (topic :: tokens) chain insertion result := by
  induction chain generalizing result with
  | null => cases found
  | node address parent own subs children next _ induction =>
      rw [onBranch] at found
      split at found
      · rename_i here
        subst here
        cases found
        exact adds address parent subs children next
      · obtain ⟨tail, tailFound, rfl⟩ := Option.map_eq_some_iff.mp found
        exact (induction tailFound).behind address parent own subs children

theorem onBranch_none {topic : Token}
    {add : Subhier → Insertion → Insertion × Subhier × Int}
    {insertion : Insertion} {chain : Subhier}
    (missing : onBranch topic add insertion chain = none) :
    topic ∉ chain.topics := by
  induction chain with
  | null => simp [Subhier.topics]
  | node address parent own subs children next _ induction =>
      rw [onBranch] at missing
      split at missing
      · cases missing
      · rename_i different
        rw [Subhier.topics, List.mem_cons, not_or]
        exact ⟨fun equal => different equal.symm,
          induction (Option.map_eq_none_iff.mp missing)⟩

/-- An insertion into a new node at the end of a chain that lacks its topic. -/
theorem Added.appended {topic : Token} {tokens : List Token} {chain : Subhier}
    {address : Address} {parent : Option Address} {insertion : Insertion}
    {result : Insertion × Subhier × Int}
    (added : Added clients context (topic :: tokens)
      (.node address parent topic [] .null .null) insertion result)
    (missing : topic ∉ chain.topics) :
    SitesEdit clients context (topic :: tokens) chain.sites
        (chain.append result.2.1).sites ∧
      (chain.Distinct → (chain.append result.2.1).Distinct) := by
  constructor
  · have created := SitesEdit.of_new_node added.edit
    rw [Subhier.sites_append]
    simpa [Subhier.sites] using (SitesEdit.refl _ chain.sites).append created
  · intro distinct
    have branchDistinct := added.distinct ⟨by simp [Subhier.topics], trivial, trivial⟩
    have branchTopics : result.2.1.topics = [topic] := added.topics
    clear added
    induction chain with
    | null => exact branchDistinct
    | node address parent own subs children next _ induction =>
        obtain ⟨fresh, childDistinct, nextDistinct⟩ := distinct
        rw [Subhier.topics, List.mem_cons, not_or] at missing
        refine ⟨?_, childDistinct, induction missing.2 nextDistinct⟩
        rw [Subhier.topics_append, branchTopics, List.mem_append,
          List.mem_singleton, not_or]
        exact ⟨fresh, fun equal => missing.1 equal.symm⟩

/-- An insertion that goes on below a new last child of a node. -/
theorem Added.created {token : Token} {rest : List Token} {address branch : Address}
    {parent : Option Address} {topic : Token} {subs : List Subleaf}
    {children next : Subhier} {insertion ready : Insertion}
    {result : Insertion × Subhier × Int}
    (added : Added clients context (token :: rest)
      (.node branch (some address) token [] .null .null) ready result)
    (missing : token ∉ children.topics)
    (extended : Memory.Extends insertion.memory ready.memory) :
    Added clients context (topic :: token :: rest)
      (.node address parent topic subs children next) insertion
      (result.1, .node address parent topic subs (children.append result.2.1) next,
        result.2.2) where
  memory := extended.trans added.memory
  topics := rfl
  edit := by
    obtain ⟨edit, _⟩ := added.appended missing
    have inner : (children.append result.2.1).isNull = false := by
      cases children with
      | null =>
          rw [Subhier.append, isNull_congr added.topics]
          rfl
      | node => rfl
    simp only [Subhier.sites]
    refine (SitesEdit.below topic edit).append (.change ?_ (SitesEdit.refl _ _))
    rw [inner]
    cases children with
    | null => exact .grown rfl
    | node => exact .same _
  distinct := fun ⟨fresh, childDistinct, nextDistinct⟩ =>
    ⟨fresh, (added.appended missing).2 childDistinct, nextDistinct⟩
  outcome := by
    rcases added.outcome with ⟨rc, site, member, path, leaf⟩ | ⟨rc, kept, failing⟩
    · refine .inl ⟨rc, site.below topic, ?_, congrArg (topic :: ·) path, leaf⟩
      apply Subhier.mem_sites_below
      rw [Subhier.sites_append, List.mem_append]
      exact .inr member
    · refine .inr ⟨rc, ?_, fun unfailing => failing (unfailing.extends extended)⟩
      have noLeaf : leafPairs result.2.1.sites = [] := kept
      rw [Subhier.sites, Subhier.sites_append, leafPairs_append, leafPairs_below,
        leafPairs_append, noLeaf, List.append_nil, Subhier.sites, leafPairs_append,
        leafPairs_below]
      rfl

/-- `_sub_add` on a node inserts along the node's topic and the tokens. -/
theorem subAdd_added (clients : Nat → Client) (context : Nat) (qos : Int)
    (tokens : List Token) (address : Address)
    (parent : Option Address) (topic : Token) (subs : List Subleaf)
    (children next : Subhier) (insertion : Insertion) :
    Added clients context (topic :: tokens)
      (.node address parent topic subs children next) insertion
      (subAdd clients context qos tokens
        (.node address parent topic subs children next) insertion) := by
  induction tokens generalizing address parent topic subs children next insertion with
  | nil =>
      obtain ⟨memory, changed, outcome⟩ :=
        subAddLeaf_spec clients context qos address subs insertion
      refine ⟨memory, rfl, ?_, fun distinct => distinct, ?_⟩
      · simp only [subAdd, Subhier.sites]
        exact (SitesEdit.refl _ _).append
          (.change (.leaf rfl changed) (SitesEdit.refl _ _))
      · rcases outcome with ⟨rc, leaf⟩ | ⟨rc, kept, failing⟩
        · exact .inl ⟨rc, _, Subhier.mem_sites_own .., rfl, leaf⟩
        · refine .inr ⟨rc, ?_, failing⟩
          simp only [subAdd, Subhier.sites, kept]
  | cons token rest induction =>
      have outcome := subAdd_outcome clients context qos token rest address parent topic subs
        children next insertion
      generalize subAdd clients context qos (token :: rest)
        (.node address parent topic subs children next) insertion = result at outcome ⊢
      cases outcome with
      | found found =>
          have added := onBranch_some (fun address parent subs children next =>
            induction address parent token subs children next insertion) found
          exact added.under address parent topic subs next
      | @created ready result missing memory subsKept subCount unlocked ran =>
          have added := induction insertion.memory.calls (some address) token [] .null .null
            ready
          rw [ran] at added
          exact added.created (onBranch_none missing)
            (memory ▸ Memory.Extends.later insertion.memory 2)
      | failed missing fails =>
          exact ⟨Memory.Extends.later _ _, rfl, SitesEdit.refl _ _, fun distinct => distinct,
            .inr ⟨rfl, rfl, fun unfailing => fails (unfailing.succeedsFor 2)⟩⟩

end Descent

end MuMQ
