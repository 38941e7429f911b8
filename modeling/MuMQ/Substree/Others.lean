import MuMQ.Substree.Matching
import MuMQ.Substree.SubAdd

namespace MuMQ

open Data

/-! What an insertion for one client does to the callbacks of the others. -/

/-- The clients of leaves that are called back at a visited node, without
`context`. -/
def subscribedOthers (clients : Nat → Client) (context : Nat) (contexts : List Nat) :
    List Nat :=
  contexts.filter fun slot => (clients slot).isSubscribe && decide (slot ≠ context)

/-- The callbacks of a search to clients other than `context`. -/
def othersCalled (clients : Nat → Client) (context : Nat) (tokens : List Token)
    (chain : Subhier) : List Nat :=
  (subTreeProcess clients tokens chain).filter (decide <| · ≠ context)

/-- What a node contributes to them. -/
def othersCalledAt (clients : Nat → Client) (context : Nat) (tokens : List Token)
    (site : Site) : List Nat :=
  if rootVisits site.path site.inner tokens then
    subscribedOthers clients context site.contexts
  else []

theorem subsProcess_eq_filter (clients : Nat → Client) (leaves : List Subleaf) :
    subsProcess clients leaves =
      (leaves.map Subleaf.context).filter fun slot => (clients slot).isSubscribe := by
  induction leaves with
  | nil => rfl
  | cons leaf rest induction =>
      rw [subsProcess, List.map_cons, List.filter_cons, induction]

theorem othersCalled_eq (clients : Nat → Client) (context : Nat) (tokens : List Token)
    (chain : Subhier) :
    othersCalled clients context tokens chain =
      chain.sites.flatMap (othersCalledAt clients context tokens) := by
  rw [othersCalled, subTreeProcess_eq, List.filter_flatMap]
  apply List.flatMap_congr
  intro site _
  unfold rootCallbacksAt othersCalledAt
  split
  · rw [subsProcess_eq_filter, List.filter_filter, subscribedOthers]
    apply List.filter_congr
    intro slot _
    exact Bool.and_comm _ _
  · rfl

/-- The callbacks to the others depend on the flags of the others alone. -/
theorem othersCalled_congr {clients clients' : Nat → Client} {context : Nat}
    (flags : ∀ slot, slot ≠ context →
      (clients' slot).isSubscribe = (clients slot).isSubscribe)
    (tokens : List Token) (chain : Subhier) :
    othersCalled clients' context tokens chain = othersCalled clients context tokens chain := by
  rw [othersCalled_eq, othersCalled_eq]
  apply List.flatMap_congr
  intro site _
  unfold othersCalledAt
  split
  · apply List.filter_congr
    intro slot _
    by_cases own : slot = context
    · simp [own]
    · rw [flags slot own]
  · rfl

/-! An insertion leaves the others' leaves alone, and gives some nodes a first
child. -/

theorem SiteChange.others {clients' : Nat → Client} {context : Nat} {path : List Token}
    {old new : Site} (changed : SiteChange clients' context path old new)
    (clients : Nat → Client) :
    subscribedOthers clients context new.contexts =
      subscribedOthers clients context old.contexts := by
  cases changed with
  | same => rfl
  | leaf atEnd changed =>
      cases changed with
      | same => rfl
      | renewed sameContexts namesake => rw [Site.contexts, sameContexts, Site.contexts]
      | added leaf own alone => simp [subscribedOthers, Site.contexts, own]
  | grown before => rfl

theorem FreshSite.others {context : Nat} {path : List Token} {site : Site}
    (isFresh : FreshSite context path site) (clients : Nat → Client) :
    subscribedOthers clients context site.contexts = [] := by
  rw [subscribedOthers, List.filter_eq_nil_iff]
  intro slot member
  obtain ⟨leaf, leafMember, rfl⟩ := List.mem_map.mp member
  simp [isFresh.leaves leaf leafMember]

theorem SiteChange.inner {clients : Nat → Client} {context : Nat} {path : List Token}
    {old new : Site} (changed : SiteChange clients context path old new) :
    new.inner = old.inner ∨
      (old.inner = false ∧ ∃ topic rest, path = old.path ++ topic :: rest) := by
  cases changed with
  | same => exact .inl rfl
  | leaf atEnd changed => exact .inl rfl
  | grown before => exact .inr ⟨rfl, _, _, before⟩

/-- Whether a node has children matters for a `#` node only. -/
theorem visits_inner {path : List Token} (notHash : path.getLast? ≠ some [hash])
    (inner : Bool) (tokens : List Token) : visits path inner tokens = visits path false tokens := by
  induction path generalizing tokens with
  | nil => rfl
  | cons topic path induction =>
      cases path with
      | nil =>
          have plain : topic ≠ [hash] := by simpa using notHash
          cases tokens with
          | nil => simp [visits, plain]
          | cons token rest => simp [visits, plain]
      | cons second path =>
          rw [visits_cons (by simp), visits_cons (by simp)]
          cases tokens with
          | nil => rfl
          | cons token rest => simp only [induction (by simpa using notHash) rest]

theorem visits_of_inner {path : List Token} {inner : Bool} {tokens : List Token}
    (visited : visits path inner tokens = true) : visits path false tokens = true := by
  induction path generalizing tokens with
  | nil => cases visited
  | cons topic path induction =>
      cases path with
      | nil =>
          cases tokens with
          | nil =>
              simp only [visits, Bool.and_eq_true] at visited ⊢
              exact ⟨visited.1, rfl⟩
          | cons token rest =>
              simp only [visits] at visited ⊢
              split
              · rename_i selected
                rwa [if_pos selected] at visited
              · rename_i rejected
                rw [if_neg rejected, Bool.and_eq_true] at visited
                rw [visited.1]
                rfl
      | cons second path =>
          rw [visits_cons (by simp)] at visited ⊢
          cases tokens with
          | nil => cases visited
          | cons token rest =>
              simp only [Bool.and_eq_true] at visited ⊢
              exact ⟨visited.1, induction visited.2⟩

theorem rootVisits_inner {path : List Token} (notHash : path.getLast? ≠ some [hash])
    (inner : Bool) (tokens : List Token) :
    rootVisits path inner tokens = rootVisits path false tokens := by
  cases path with
  | nil => rfl
  | cons top path =>
      cases path with
      | nil => rfl
      | cons second path =>
          simp only [rootVisits]
          rw [visits_inner (by simpa using notHash)]

theorem rootVisits_of_inner {path : List Token} {inner : Bool} {tokens : List Token}
    (visited : rootVisits path inner tokens = true) : rootVisits path false tokens = true := by
  cases path with
  | nil => cases visited
  | cons top path =>
      simp only [rootVisits, Bool.and_eq_true] at visited ⊢
      exact ⟨visited.1, visits_of_inner visited.2⟩

/-- No node on the way to `path` is a `#` node without children at which another
subscribed client has a leaf. -/
def SparesHashes (clients : Nat → Client) (context : Nat) (path : List Token)
    (sites : List Site) : Prop :=
  ∀ site ∈ sites, site.inner = false → site.path.getLast? = some [hash] →
    site.path <+: path → site.path ≠ path →
    ∀ slot ∈ site.contexts, slot ≠ context → (clients slot).isSubscribe = false

instance (clients : Nat → Client) (context : Nat) (path : List Token) (sites : List Site) :
    Decidable (SparesHashes clients context path sites) :=
  inferInstanceAs (Decidable (∀ site ∈ sites, _ = _ → _ = _ → _ <+: _ → _ ≠ _ →
    ∀ slot ∈ site.contexts, slot ≠ _ → _ = _))

/-- An insertion that spares such nodes changes no callback to another client. -/
theorem othersCalled_eq_of_spares {clients clients' : Nat → Client} {context : Nat}
    {path : List Token} {before after : Subhier}
    (edit : SitesEdit clients' context path before.sites after.sites)
    (spares : SparesHashes clients context path before.sites) (tokens : List Token) :
    othersCalled clients context tokens before = othersCalled clients context tokens after := by
  rw [othersCalled_eq, othersCalled_eq]
  refine edit.flatMap_eq (fun old member new _ changed => ?_) fun new _ isFresh => ?_
  · unfold othersCalledAt
    rw [changed.path, changed.others clients]
    rcases changed.inner with same | ⟨outer, topic, rest, split⟩
    · rw [same]
    · by_cases isHash : old.path.getLast? = some [hash]
      · have proper : old.path ≠ path := by
          intro same
          rw [split] at same
          simp at same
        have none : subscribedOthers clients context old.contexts = [] := by
          rw [subscribedOthers, List.filter_eq_nil_iff]
          intro slot inSite called
          simp only [Bool.and_eq_true, decide_eq_true_eq] at called
          have unsubscribed := spares old member outer isHash ⟨topic :: rest, split.symm⟩ proper
            slot inSite called.2
          rw [unsubscribed] at called
          cases called.1
        rw [none, ite_self, ite_self]
      · rw [rootVisits_inner isHash old.inner, rootVisits_inner isHash new.inner]
  · rw [othersCalledAt, isFresh.others clients, ite_self]

/-! The topics behind which such a node stands. -/

theorem slash_not_mem_level {bytes : List UInt8} {level : Token}
    (member : level ∈ bytes.splitOn slash) : slash ∉ level := by
  induction bytes generalizing level with
  | nil =>
      rw [List.splitOn_nil, List.mem_singleton] at member
      subst member
      exact List.not_mem_nil
  | cons head bytes induction =>
      obtain ⟨first, rest, split⟩ := exists_splitOn bytes
      by_cases isSlash : head = slash
      · subst isSlash
        rw [splitOn_slash] at member
        rcases List.mem_cons.mp member with rfl | inRest
        · exact List.not_mem_nil
        · exact induction inRest
      · rw [splitOn_other isSlash split] at member
        rw [split] at induction
        rcases List.mem_cons.mp member with rfl | inRest
        · rw [List.mem_cons, not_or]
          exact ⟨fun same => isSlash same.symm, induction (by simp)⟩
        · exact induction (by simp [inRest])

/-- Pieces without slashes and terminators are the levels of a string. -/
theorem exists_string_levels {pieces : List Token} (nonempty : pieces ≠ [])
    (plain : ∀ piece ∈ pieces, slash ∉ piece ∧ 0 ∉ piece) :
    ∃ string : CString, levels string = pieces := by
  have noNul : 0 ∉ [slash].intercalate pieces := by
    intro member
    rcases mem_intercalate member with isSlash | ⟨piece, pieceMember, inPiece⟩
    · exact absurd isSlash (by decide)
    · exact (plain piece pieceMember).2 inPiece
  exact ⟨⟨_, noNul⟩, List.splitOn_intercalate slash (fun piece member => (plain piece member).1)
    nonempty⟩

theorem level_plain {string : CString} {level : Token} (member : level ∈ levels string) :
    slash ∉ level ∧ 0 ∉ level :=
  ⟨slash_not_mem_level member, fun inLevel => string.noNul (mem_of_mem_level member inLevel)⟩

/-- The tokens of a filter up to some level, and one ordinary level behind them, are
the tokens of a topic. -/
theorem exists_topic_tokens {filter : CString} {front back : List Token}
    (split : tokens filter = front ++ back) (nonempty : front ≠ []) :
    ∃ topic, tokens topic = front ++ [[0x78]] := by
  have ordinary : slash ∉ ([0x78] : Token) ∧ 0 ∉ ([0x78] : Token) := by decide
  obtain ⟨first, rest, filterLevels, filterSystem⟩ := exists_levels filter
  unfold tokens at split
  split at split
  · rename_i inside
    have plain : ∀ piece ∈ front ++ [[0x78]], slash ∉ piece ∧ 0 ∉ piece := by
      intro piece member
      rcases List.mem_append.mp member with inFront | last
      · exact level_plain (split ▸ List.mem_append_left back inFront)
      · exact List.mem_singleton.mp last ▸ ordinary
    obtain ⟨topic, topicLevels⟩ := exists_string_levels (by simp) plain
    obtain ⟨level, others, leading, topicSystem⟩ := exists_levels topic
    have sameFirst : level = first := by
      obtain ⟨head, tail, rfl⟩ := List.exists_cons_of_ne_nil nonempty
      rw [topicLevels, List.cons_append, List.cons.injEq] at leading
      rw [filterLevels, List.cons_append, List.cons.injEq] at split
      rw [← leading.1, ← split.1]
    have topicInside : isSystem topic = true :=
      topicSystem.mpr (sameFirst ▸ filterSystem.mp inside)
    exact ⟨topic, by rw [tokens, if_pos topicInside, topicLevels]⟩
  · rename_i outside
    obtain ⟨head, tail, rfl⟩ := List.exists_cons_of_ne_nil nonempty
    rw [List.cons_append, List.cons.injEq] at split
    obtain ⟨rfl, split⟩ := split
    have plain : ∀ piece ∈ tail ++ [[0x78]], slash ∉ piece ∧ 0 ∉ piece := by
      intro piece member
      rcases List.mem_append.mp member with inTail | last
      · exact level_plain (split ▸ List.mem_append_left back inTail)
      · exact List.mem_singleton.mp last ▸ ordinary
    obtain ⟨topic, topicLevels⟩ := exists_string_levels (by simp) plain
    obtain ⟨level, others, leading, topicSystem⟩ := exists_levels topic
    have topicOutside : ¬ isSystem topic = true := by
      rw [topicSystem]
      intro isDollar
      cases tail with
      | nil =>
          rw [topicLevels, List.nil_append, List.cons.injEq] at leading
          rw [← leading.1] at isDollar
          exact absurd isDollar (by decide)
      | cons second tail =>
          rw [topicLevels, List.cons_append, List.cons.injEq] at leading
          rw [filterLevels, List.cons_append, List.cons.injEq] at split
          rw [← leading.1, ← split.1] at isDollar
          exact outside (filterSystem.mpr isDollar)
    exact ⟨topic, by rw [tokens, if_neg topicOutside, topicLevels, List.cons_append]⟩

/-- A search for such a topic visits the `#` node as long as it has no child. -/
theorem visits_ordinary (front : List Token) (inner : Bool) :
    visits (front ++ [[hash]]) inner (front ++ [[0x78]]) = !inner := by
  induction front with
  | nil => cases inner <;> rfl
  | cons topic front induction =>
      rw [List.cons_append, List.cons_append, visits_cons (by simp)]
      simp [induction]

theorem SiteChange.visited {clients : Nat → Client} {context : Nat} {path : List Token}
    {old new : Site} (changed : SiteChange clients context path old new)
    {tokens : List Token} (visited : rootVisits new.path new.inner tokens = true) :
    rootVisits old.path old.inner tokens = true := by
  rw [changed.path] at visited
  rcases changed.inner with same | ⟨outer, _⟩
  · rwa [same] at visited
  · rw [outer]
    exact rootVisits_of_inner visited

theorem SiteChange.length_othersCalledAt {clients' : Nat → Client} {context : Nat}
    {path : List Token} {old new : Site} (changed : SiteChange clients' context path old new)
    (clients : Nat → Client) (tokens : List Token) :
    (othersCalledAt clients context tokens new).length ≤
      (othersCalledAt clients context tokens old).length := by
  unfold othersCalledAt
  split
  · rename_i visited
    rw [if_pos (changed.visited visited), changed.others clients]
  · exact Nat.zero_le _

/-- A `#` node on the way to the node of a filter stands behind some first tokens of
the filter. -/
theorem hash_on_filterPath {filter : CString} {path : List Token}
    (isHash : path.getLast? = some [hash]) (onPath : path <+: filterPath filter) :
    ∃ top front back, (tokens filter).head? = some top ∧ front ≠ [] ∧
      tokens filter = front ++ [hash] :: back ∧ path = top :: (front ++ [[hash]]) := by
  obtain ⟨top, head, whole⟩ := filterPath_eq filter
  obtain ⟨above, rfl⟩ := List.getLast?_eq_some_iff.mp isHash
  obtain ⟨back, split⟩ := onPath
  rw [whole, List.append_assoc, List.singleton_append] at split
  -- the top of the tree and the first token are never `#`
  cases above with
  | nil =>
      rw [List.nil_append, List.cons.injEq] at split
      rw [← split.1] at head
      exact absurd head (head?_tokens_ne_hash filter)
  | cons first front =>
      rw [List.cons_append, List.cons.injEq] at split
      obtain ⟨rfl, split⟩ := split
      refine ⟨first, front, back, head, ?_, split.symm, rfl⟩
      rintro rfl
      rw [← split] at head
      exact head?_tokens_ne_hash filter (by rw [← split]; rfl)

/-- An insertion up to the node of a filter changes a callback to another client
unless it spares such nodes. -/
theorem sparesHashes_of_othersCalled {clients clients' : Nat → Client} {context : Nat}
    {filter : CString} {before after : Subhier}
    (edit : SitesEdit clients' context (filterPath filter) before.sites after.sites)
    (distinct : after.Distinct)
    (reached : ∃ site ∈ after.sites, site.path = filterPath filter)
    (kept : ∀ topic, othersCalled clients context (tokens topic) before =
      othersCalled clients context (tokens topic) after) :
    SparesHashes clients context (filterPath filter) before.sites := by
  intro site member outer isHash onPath proper slot inSite other
  obtain ⟨top, front, back, head, nonempty, split, path⟩ := hash_on_filterPath isHash onPath
  obtain ⟨topic, topicTokens⟩ := exists_topic_tokens split nonempty
  have topicHead : (tokens topic).head? = some top := by
    obtain ⟨first, rest, rfl⟩ := List.exists_cons_of_ne_nil nonempty
    rw [split] at head
    rw [topicTokens]
    exact head
  have visits (inner : Bool) : rootVisits site.path inner (tokens topic) = !inner := by
    rw [path, rootVisits, topicHead, topicTokens, visits_ordinary]
    simp
  -- the node of the filter is below this one, which therefore has a child now
  have grown : ∀ new ∈ after.sites, SiteChange clients' context (filterPath filter) site new →
      new.inner = true := by
    intro new newMember changed
    obtain ⟨last, lastMember, lastPath⟩ := reached
    obtain ⟨rest, whole⟩ := onPath
    obtain ⟨token, rest, rfl⟩ : ∃ token others, rest = token :: others :=
      List.exists_cons_of_ne_nil fun none => proper (by rw [← whole, none, List.append_nil])
    obtain ⟨upper, upperMember, upperPath, inner⟩ :=
      Subhier.inner_of_prefix lastMember (lastPath.trans whole.symm)
        (Subhier.path_ne_nil member)
    have same := distinct.eq_of_path newMember upperMember (changed.path.trans upperPath.symm)
    rw [same]
    exact inner
  by_contra subscribed
  have called : slot ∈ subscribedOthers clients context site.contexts := by
    rw [subscribedOthers, List.mem_filter]
    exact ⟨inSite, by simpa [other] using subscribed⟩
  have fewer : (othersCalled clients context (tokens topic) after).length <
      (othersCalled clients context (tokens topic) before).length := by
    rw [othersCalled_eq, othersCalled_eq]
    refine edit.length_flatMap_lt
      (fun old _ new _ changed => changed.length_othersCalledAt clients _)
      (fun new _ isFresh => ?_) member fun new newMember changed => ?_
    · rw [othersCalledAt, isFresh.others clients, ite_self]
    · rw [othersCalledAt, othersCalledAt, changed.path, visits, visits, outer,
        grown new newMember changed]
      exact List.length_pos_of_mem called
  rw [kept topic] at fewer
  exact Nat.lt_irrefl _ fewer

end MuMQ
