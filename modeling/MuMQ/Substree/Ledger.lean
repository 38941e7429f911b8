import MuMQ.Substree.Routing

namespace MuMQ

open Data

/-! The tree as a list of who subscribed what, with the filters that shape it. -/

/-- The filters that were ever subscribed, and the subscriptions that have a leaf. -/
structure Ledger where
  filters : List CString
  leaves : List (Nat × CString)

namespace Ledger

def empty : Ledger := ⟨[], []⟩

/-- A client with this id has a leaf for the filter. -/
def isHeld (ids : Nat → CString) (slot : Nat) (filter : CString) (ledger : Ledger) : Prop :=
  ∃ leaf ∈ ledger.leaves, leaf.2 = filter ∧ ids leaf.1 = ids slot

instance (ids : Nat → CString) (slot : Nat) (filter : CString) (ledger : Ledger) :
    Decidable (ledger.isHeld ids slot filter) :=
  inferInstanceAs (Decidable (∃ leaf ∈ ledger.leaves, _))

/-- A subscription gets no leaf beside one of a client with the same id. -/
def subscribe (ids : Nat → CString) (slot : Nat) (filter : CString) (ledger : Ledger) :
    Ledger where
  filters := ledger.filters ++ [filter]
  leaves :=
    if ledger.isHeld ids slot filter then ledger.leaves
    else ledger.leaves ++ [(slot, filter)]

/-- Another filter begins with the levels of this one. -/
def goesOn (filter : CString) (ledger : Ledger) : Bool :=
  ledger.filters.any fun other =>
    decide (other ≠ filter ∧ filterPath filter <+: filterPath other)

/-- The clients that a topic is published to, once for every leaf. -/
def recipients (isSubscribe : Nat → Bool) (topic : CString) (ledger : Ledger) : List Nat :=
  (ledger.leaves.filter fun leaf =>
    isSubscribe leaf.1 &&
      rootVisits (filterPath leaf.2) (ledger.goesOn leaf.2) (tokens topic)).map Prod.fst

end Ledger

/-- The nodes and leaves of the tree are those of the ledger. -/
structure Planted (ledger : Ledger) (subs : Subhier) : Prop where
  distinct : subs.Distinct
  once : ∀ site ∈ subs.sites, site.contexts.Nodup
  leaves : ∀ path slot, subs.HasLeaf path slot ↔
    ∃ filter, (slot, filter) ∈ ledger.leaves ∧ filterPath filter = path
  nodup : ledger.leaves.Nodup
  known : ∀ leaf ∈ ledger.leaves, leaf.2 ∈ ledger.filters
  grown : ∀ filter ∈ ledger.filters, ∃ site ∈ subs.sites, site.path = filterPath filter
  onPath : ∀ site ∈ subs.sites, site.path = [[]] ∨
    ∃ filter ∈ ledger.filters, site.path <+: filterPath filter

theorem Planted.start (memory : Memory) : Planted .empty (initDatabase memory).subs where
  distinct := ⟨List.not_mem_nil, trivial, trivial⟩
  once site member := by
    rw [List.mem_singleton.mp member]
    exact List.nodup_nil
  leaves path slot := by
    constructor
    · rintro ⟨site, member, _, inSite⟩
      rw [List.mem_singleton.mp member] at inSite
      cases inSite
    · rintro ⟨_, member, _⟩
      cases member
  nodup := List.nodup_nil
  known _ member := by cases member
  grown _ member := by cases member
  onPath site member := .inl (by rw [List.mem_singleton.mp member])

theorem length_filterPath (filter : CString) : 2 ≤ (filterPath filter).length := by
  obtain ⟨_, head, path⟩ := filterPath_eq filter
  obtain ⟨_, _, split⟩ := List.exists_cons_of_ne_nil (tokens_ne_nil filter)
  rw [path, split]
  simp

section Planted

variable {ledger : Ledger} {subs : Subhier} (planted : Planted ledger subs)
include planted

/-- A node of a filter has a child when another filter goes on behind it. -/
theorem Planted.inner {site : Site} (member : site ∈ subs.sites) {filter : CString}
    (path : site.path = filterPath filter) : site.inner = ledger.goesOn filter := by
  rw [Bool.eq_iff_iff, Ledger.goesOn, List.any_eq_true]
  simp only [decide_eq_true_eq]
  constructor
  · intro inner
    obtain ⟨lower, lowerMember, topic, lowerPath⟩ :=
      Subhier.exists_below_of_inner member inner
    rcases planted.onPath lower lowerMember with top | ⟨other, known, onPath⟩
    · have lengths := congrArg List.length (lowerPath.symm.trans top)
      have long := length_filterPath filter
      rw [path, List.length_append, List.length_singleton, List.length_singleton] at lengths
      omega
    · rw [lowerPath, path] at onPath
      refine ⟨other, known, ?_, (List.prefix_append _ _).trans onPath⟩
      rintro rfl
      have lengths := onPath.length_le
      rw [List.length_append, List.length_singleton] at lengths
      omega
  · rintro ⟨other, known, different, rest, split⟩
    obtain ⟨far, farMember, farPath⟩ := planted.grown other known
    cases rest with
    | nil =>
        rw [List.append_nil] at split
        exact absurd (filterPath_injective split).symm different
    | cons topic rest =>
        obtain ⟨upper, upperMember, upperPath, inner⟩ :=
          Subhier.inner_of_prefix farMember (farPath.trans split.symm) (by
            intro empty
            have long := length_filterPath filter
            rw [empty] at long
            cases long)
        rw [planted.distinct.eq_of_path member upperMember (path.trans upperPath.symm)]
        exact inner

theorem Planted.mem_pathCallbacks {clients : Nat → Client} {topic : CString} {slot : Nat}
    {path : List Token} :
    (slot, path) ∈ pathCallbacks clients (tokens topic) subs.sites ↔
      (clients slot).isSubscribe = true ∧ ∃ filter, (slot, filter) ∈ ledger.leaves ∧
        filterPath filter = path ∧
          rootVisits path (ledger.goesOn filter) (tokens topic) = true := by
  unfold pathCallbacks
  simp only [List.mem_flatMap, List.mem_map, Prod.mk.injEq]
  constructor
  · rintro ⟨site, member, _, called, rfl, rfl⟩
    unfold rootCallbacksAt at called
    split at called
    · rename_i visited
      obtain ⟨subscribed, leaf⟩ := mem_subsProcess.mp called
      obtain ⟨filter, inLedger, path⟩ :=
        (planted.leaves _ _).mp ⟨site, member, rfl, leaf⟩
      rw [planted.inner member path.symm] at visited
      exact ⟨subscribed, filter, inLedger, path, visited⟩
    · cases called
  · rintro ⟨subscribed, filter, inLedger, rfl, visited⟩
    obtain ⟨site, member, path, leaf⟩ := (planted.leaves _ _).mpr ⟨filter, inLedger, rfl⟩
    refine ⟨site, member, slot, ?_, rfl, path⟩
    rw [← planted.inner member path, ← path] at visited
    rw [rootCallbacksAt, if_pos visited]
    exact mem_subsProcess.mpr ⟨subscribed, leaf⟩

/-- The search calls back for the recipients of the ledger, each as often. -/
theorem Planted.subTreeProcess_perm (clients : Nat → Client) (topic : CString) :
    (subTreeProcess clients (tokens topic) subs).Perm
      (ledger.recipients (fun slot => (clients slot).isSubscribe) topic) := by
  have located : (pathCallbacks clients (tokens topic) subs.sites).Perm
      ((ledger.leaves.filter fun leaf =>
        (clients leaf.1).isSubscribe &&
          rootVisits (filterPath leaf.2) (ledger.goesOn leaf.2) (tokens topic)).map
            fun leaf => (leaf.1, filterPath leaf.2)) := by
    apply (List.perm_ext_iff_of_nodup ?_ ?_).mpr
    · rintro ⟨slot, path⟩
      rw [planted.mem_pathCallbacks]
      simp only [List.mem_map, List.mem_filter, Bool.and_eq_true, Prod.mk.injEq, Prod.exists]
      constructor
      · rintro ⟨subscribed, filter, member, rfl, visited⟩
        exact ⟨slot, filter, ⟨member, subscribed, visited⟩, rfl, rfl⟩
      · rintro ⟨_, filter, ⟨member, subscribed, visited⟩, rfl, rfl⟩
        exact ⟨subscribed, filter, member, rfl, visited⟩
    · exact nodup_pathCallbacks planted.distinct planted.once
    · refine List.Nodup.map ?_ (planted.nodup.filter _)
      rintro leaf other same
      obtain ⟨slots, paths⟩ := Prod.mk.inj same
      exact Prod.ext slots (filterPath_injective paths)
  have projected := located.map Prod.fst
  rwa [map_pathCallbacks, List.map_map] at projected

end Planted

/-! A subscription. -/

/-- The filter's node has a leaf of a client with the subscriber's id. -/
def HeldAt (clients : Nat → Client) (context : Nat) (path : List Token) (subs : Subhier) : Prop :=
  ∃ other, subs.HasLeaf path other ∧
    (clients other).idString = (clients context).idString

/-- Beside a leaf of a client with the same id, the subscriber gets none of its own. -/
theorem SubAdded.hasLeaf_held {broker after : Broker} {context : Nat} {sub : CString}
    (added : SubAdded broker context sub after 0) (distinct : broker.subs.Distinct)
    (held : HeldAt broker.clients context (filterPath sub) broker.subs)
    (leaf : after.subs.HasLeaf (filterPath sub) context) :
    broker.subs.HasLeaf (filterPath sub) context := by
  obtain ⟨other, ⟨old, oldMember, oldPath, inOld⟩, namesake⟩ := held
  obtain ⟨site, member, path, inSite⟩ := leaf
  obtain ⟨new, newMember, changed⟩ := added.edit.mem_before oldMember
  have same : site = new := (added.distinct distinct).eq_of_path member newMember
    (path.trans (oldPath.symm.trans changed.path.symm))
  subst same
  refine ⟨old, oldMember, oldPath, ?_⟩
  cases changed with
  | same => exact inSite
  | leaf atEnd changed =>
      cases changed with
      | same => exact inSite
      | renewed sameContexts _ =>
          have inSite : context ∈ List.map Subleaf.context _ := inSite
          rw [sameContexts] at inSite
          exact inSite
      | added leaf own alone =>
          obtain ⟨first, firstMember, rfl⟩ := List.mem_map.mp inOld
          exact absurd namesake (alone first firstMember)
  | grown => exact inSite

theorem SubAdded.hasLeaf_iff {broker after : Broker} {context : Nat} {sub : CString}
    (added : SubAdded broker context sub after 0) (distinct : broker.subs.Distinct)
    {path : List Token} {slot : Nat} :
    after.subs.HasLeaf path slot ↔
      broker.subs.HasLeaf path slot ∨
        (slot = context ∧ path = filterPath sub ∧
          ¬ HeldAt broker.clients context (filterPath sub) broker.subs) := by
  constructor
  · intro leaf
    rcases added.hasLeaf_after leaf with earlier | ⟨rfl, rfl⟩
    · exact .inl earlier
    · by_cases held : HeldAt broker.clients slot (filterPath sub) broker.subs
      · exact .inl (added.hasLeaf_held distinct held leaf)
      · exact .inr ⟨rfl, rfl, held⟩
  · rintro (earlier | ⟨rfl, rfl, alone⟩)
    · exact added.hasLeaf_before earlier
    · obtain ⟨other, leaf, namesake⟩ := added.served
      rcases added.hasLeaf_after leaf with earlier | ⟨rfl, _⟩
      · exact absurd ⟨other, earlier, namesake⟩ alone
      · exact leaf

theorem Planted.subscribe {ledger : Ledger} {broker after : Broker} {context : Nat}
    {sub : CString} (planted : Planted ledger broker.subs)
    (added : SubAdded broker context sub after 0) :
    Planted (ledger.subscribe (fun slot => (broker.clients slot).idString) context sub)
      after.subs := by
  have held : HeldAt broker.clients context (filterPath sub) broker.subs ↔
      ledger.isHeld (fun slot => (broker.clients slot).idString) context sub := by
    constructor
    · rintro ⟨other, leaf, namesake⟩
      obtain ⟨filter, member, path⟩ := (planted.leaves _ _).mp leaf
      exact ⟨(other, filter), member, filterPath_injective path, namesake⟩
    · rintro ⟨⟨other, filter⟩, member, rfl, namesake⟩
      exact ⟨other, (planted.leaves _ _).mpr ⟨filter, member, rfl⟩, namesake⟩
  have mem_leaves (leaf : Nat × CString) :
      leaf ∈ (ledger.subscribe (fun slot => (broker.clients slot).idString) context sub).leaves ↔
        leaf ∈ ledger.leaves ∨ (leaf = (context, sub) ∧
          ¬ ledger.isHeld (fun slot => (broker.clients slot).idString) context sub) := by
    unfold Ledger.subscribe
    simp only
    split
    · rename_i isHeld
      exact (or_iff_left fun new => new.2 isHeld).symm
    · rename_i alone
      rw [List.mem_append, List.mem_singleton, and_iff_left alone]
  refine ⟨added.distinct planted.distinct, added.nodup planted.once, ?_, ?_, ?_, ?_, ?_⟩
  · intro path slot
    rw [added.hasLeaf_iff planted.distinct, planted.leaves, held]
    constructor
    · rintro (⟨filter, member, path⟩ | ⟨rfl, rfl, alone⟩)
      · exact ⟨filter, (mem_leaves _).mpr (.inl member), path⟩
      · exact ⟨sub, (mem_leaves _).mpr (.inr ⟨rfl, alone⟩), rfl⟩
    · rintro ⟨filter, member, path⟩
      rcases (mem_leaves _).mp member with earlier | ⟨same, alone⟩
      · exact .inl ⟨filter, earlier, path⟩
      · cases same
        exact .inr ⟨rfl, path.symm, alone⟩
  · unfold Ledger.subscribe
    simp only
    split
    · exact planted.nodup
    · rename_i alone
      refine List.nodup_append.mpr ⟨planted.nodup, List.nodup_singleton _, ?_⟩
      intro leaf member other inSingleton same
      rw [List.mem_singleton.mp inSingleton] at same
      exact alone ⟨leaf, member, by rw [same], by rw [same]⟩
  · intro leaf member
    rcases (mem_leaves leaf).mp member with earlier | ⟨rfl, _⟩
    · exact List.mem_append_left _ (planted.known leaf earlier)
    · exact List.mem_append_right _ (List.mem_singleton_self _)
  · intro filter member
    rcases List.mem_append.mp member with earlier | new
    · obtain ⟨old, oldMember, path⟩ := planted.grown filter earlier
      obtain ⟨site, siteMember, changed⟩ := added.edit.mem_before oldMember
      exact ⟨site, siteMember, changed.path.trans path⟩
    · rw [List.mem_singleton.mp new]
      obtain ⟨_, ⟨site, siteMember, path, _⟩, _⟩ := added.served
      exact ⟨site, siteMember, path⟩
  · intro site member
    rcases added.path_after member with ⟨old, oldMember, path⟩ | onPath
    · rw [← path]
      rcases planted.onPath old oldMember with top | ⟨filter, known, onPath⟩
      · exact .inl top
      · exact .inr ⟨filter, List.mem_append_left _ known, onPath⟩
    · exact .inr ⟨sub, List.mem_append_right _ (List.mem_singleton_self _), onPath⟩

end MuMQ
