import MuMQ.Data.Matching
import MuMQ.Substree.SubAdd
import MuMQ.Substree.Validity

namespace MuMQ

open Data

/-! Topic matching, and the nodes the search visits. -/

/-- The first level of a filter is a wildcard. -/
def startsWild (filter : CString) : Prop :=
  (levels filter).head? = some [plus] ∨ (levels filter).head? = some [hash]

instance (filter : CString) : Decidable (startsWild filter) :=
  inferInstanceAs (Decidable (_ ∨ _))

/-- A filter matches a topic: level by level, except that a leading wildcard never
matches a topic that begins with `$`. -/
def FilterMatches (filter topic : CString) : Prop :=
  Matches [plus] [hash] (levels filter) (levels topic) ∧
    ¬ (startsWild filter ∧ isSystem topic = true)

instance (filter topic : CString) : Decidable (FilterMatches filter topic) :=
  inferInstanceAs (Decidable (_ ∧ _))

/-- The search visits only nodes whose path matches. -/
theorem visits_sound {path : List Token} {inner : Bool} {tokens : List Token}
    (visited : visits path inner tokens = true) :
    Matches [plus] [hash] path tokens := by
  induction path generalizing tokens with
  | nil => cases visited
  | cons topic path induction =>
      cases path with
      | nil =>
          cases tokens with
          | nil =>
              simp only [visits, Bool.and_eq_true, decide_eq_true_eq] at visited
              rw [visited.1]
              exact .multi []
          | cons token rest =>
              rw [visits] at visited
              split at visited
              · rename_i selected
                have last : rest = [] := List.isEmpty_iff.mp visited
                subst last
                exact matches_cons_cons.mpr (.inr ⟨selected.symm, .nil⟩)
              · simp only [Bool.and_eq_true, decide_eq_true_eq] at visited
                rw [visited.1]
                exact .multi _
      | cons second path =>
          rw [visits_cons (by simp)] at visited
          cases tokens with
          | nil => cases visited
          | cons token rest =>
              simp only [Bool.and_eq_true, decide_eq_true_eq] at visited
              exact matches_cons_cons.mpr
                (.inr ⟨visited.1.symm, induction visited.2⟩)

/-- The search visits every node whose path matches, when no token is `#` and no
`#` node on the way out has a child. -/
theorem visits_complete {path : List Token} {inner : Bool} {tokens : List Token}
    (nonempty : path ≠ []) (matched : Matches [plus] [hash] path tokens)
    (noHash : ∀ token ∈ tokens, token ≠ [hash])
    (childless : path.getLast? = some [hash] → inner = false) :
    visits path inner tokens = true := by
  induction path generalizing tokens with
  | nil => exact absurd rfl nonempty
  | cons topic path induction =>
      cases path with
      | nil =>
          cases tokens with
          | nil =>
              have isHash := matches_singleton_nil.mp matched
              subst isHash
              have leafNode : inner = false := childless rfl
              simp [visits, leafNode]
          | cons token rest =>
              rcases matches_cons_cons.mp matched with ⟨_, isHash⟩ | ⟨selected, tail⟩
              · subst isHash
                have unequal : ¬ ([hash] = token ∨ [hash] = [plus]) := by
                  rintro (equal | impossible)
                  · exact noHash token (by simp) equal.symm
                  · exact absurd impossible (by decide)
                have leafNode : inner = false := childless rfl
                rw [visits, if_neg unequal]
                simp [leafNode]
              · have last := matches_nil_left.mp tail
                subst last
                simp [visits, selected.symm]
      | cons second path =>
          rw [visits_cons (by simp)]
          cases tokens with
          | nil => exact absurd matched matches_cons_cons_nil
          | cons token rest =>
              rcases matches_cons_cons.mp matched with ⟨impossible, _⟩ | ⟨selected, tail⟩
              · cases impossible
              · have further := induction (by simp) tail
                  (fun other member => noHash other (by simp [member]))
                  (fun last => childless (by simpa using last))
                simp [selected.symm, further]

theorem exists_levels (string : CString) :
    ∃ first rest, levels string = first :: rest ∧
      (isSystem string = true ↔ first.head? = some dollar) := by
  unfold levels isSystem CString.charAt
  cases string.bytes with
  | nil => exact ⟨[], [], by simp, by simp [dollar]⟩
  | cons byte bytes =>
      by_cases isSlash : byte = slash
      · subst isSlash
        exact ⟨[], _, splitOn_slash bytes, by simp [slash, dollar]⟩
      · obtain ⟨piece, pieces, split⟩ := exists_splitOn bytes
        exact ⟨byte :: piece, pieces, splitOn_other isSlash split, by simp⟩

theorem filterPath_eq (filter : CString) :
    ∃ top, (tokens filter).head? = some top ∧
      filterPath filter = top :: tokens filter := by
  unfold filterPath
  obtain ⟨top, rest, split⟩ := List.exists_cons_of_ne_nil (tokens_ne_nil filter)
  rw [split]
  exact ⟨top, rfl, rfl⟩

theorem rootVisits_filterPath (filter : CString) (inner : Bool)
    (topicTokens : List Token) :
    rootVisits (filterPath filter) inner topicTokens = true ↔
      topicTokens.head? = (tokens filter).head? ∧
        visits (tokens filter) inner topicTokens = true := by
  obtain ⟨top, head, path⟩ := filterPath_eq filter
  rw [path, head]
  simp [rootVisits]

/-- The doubled first token splits off the `$` part of the tree. -/
theorem matches_tokens_iff (filter topic : CString) :
    ((tokens topic).head? = (tokens filter).head? ∧
        Matches [plus] [hash] (tokens filter) (tokens topic)) ↔
      FilterMatches filter topic := by
  obtain ⟨first, rest, filterLevels, filterSystem⟩ := exists_levels filter
  obtain ⟨level, others, topicLevels, topicSystem⟩ := exists_levels topic
  have wild : startsWild filter ↔ first = [plus] ∨ first = [hash] := by
    simp [startsWild, filterLevels]
  have wildNotSystem : startsWild filter → isSystem filter = false := by
    rw [wild]
    rintro (rfl | rfl) <;>
      exact Bool.eq_false_iff.mpr (mt filterSystem.mp (by decide))
  unfold FilterMatches tokens
  rw [filterLevels, topicLevels]
  by_cases filterIn : isSystem filter = true
  · have notWild : ¬ startsWild filter := by
      intro isWild
      rw [wildNotSystem isWild] at filterIn
      cases filterIn
    have literal :
        Matches [plus] [hash] (first :: rest) (level :: others) → first = level := by
      intro matched
      rcases matches_cons_cons.mp matched with ⟨_, isHash⟩ | ⟨isPlus | equal, _⟩
      · exact absurd (wild.mpr (.inr isHash)) notWild
      · exact absurd (wild.mpr (.inl isPlus)) notWild
      · exact equal
    by_cases topicIn : isSystem topic = true
    · simp only [filterIn, topicIn, if_true, List.head?_cons, Option.some.injEq]
      constructor
      · rintro ⟨_, matched⟩
        exact ⟨matched, fun both => notWild both.1⟩
      · rintro ⟨matched, _⟩
        exact ⟨(literal matched).symm, matched⟩
    · have outside : isSystem topic = false := by simpa using topicIn
      simp only [filterIn, outside, if_true, Bool.false_eq_true, if_false,
        List.head?_cons, Option.some.injEq]
      constructor
      · rintro ⟨equal, _⟩
        rw [← equal] at filterSystem
        exact absurd (filterSystem.mp filterIn) (by simp)
      · rintro ⟨matched, _⟩
        rw [literal matched] at filterSystem
        exact absurd (topicSystem.mpr (filterSystem.mp filterIn)) topicIn
  · have filterOut : isSystem filter = false := by simpa using filterIn
    by_cases topicIn : isSystem topic = true
    · simp only [filterOut, topicIn, if_true, Bool.false_eq_true, if_false,
        List.head?_cons, Option.some.injEq]
      constructor
      · rintro ⟨equal, _⟩
        rw [equal] at topicSystem
        exact absurd (topicSystem.mp topicIn) (by simp)
      · rintro ⟨matched, notBoth⟩
        rcases matches_cons_cons.mp matched with ⟨_, isHash⟩ | ⟨isPlus | equal, _⟩
        · exact absurd ⟨wild.mpr (.inr isHash), trivial⟩ notBoth
        · exact absurd ⟨wild.mpr (.inl isPlus), trivial⟩ notBoth
        · rw [← equal] at topicSystem
          exact absurd (filterSystem.mpr (topicSystem.mp topicIn)) filterIn
    · have outside : isSystem topic = false := by simpa using topicIn
      simp only [filterOut, outside, Bool.false_eq_true, if_false, List.head?_cons,
        true_and, and_false, not_false_eq_true, and_true]
      rw [matches_cons_cons]
      constructor
      · rintro (⟨_, impossible⟩ | ⟨_, matched⟩)
        · exact absurd impossible (by decide)
        · exact matched
      · exact fun matched => .inr ⟨.inr rfl, matched⟩

/-- A search for a topic visits the node of a filter only when it matches. -/
theorem rootVisits_sound {filter topic : CString} {inner : Bool}
    (visited : rootVisits (filterPath filter) inner (tokens topic) = true) :
    FilterMatches filter topic := by
  obtain ⟨heads, visited⟩ := (rootVisits_filterPath _ _ _).mp visited
  exact (matches_tokens_iff filter topic).mp ⟨heads, visits_sound visited⟩

theorem getLast?_filterPath (filter : CString) :
    (filterPath filter).getLast? = (tokens filter).getLast? := by
  obtain ⟨top, rest, split⟩ := List.exists_cons_of_ne_nil (tokens_ne_nil filter)
  unfold filterPath
  rw [split]
  rfl

theorem tokens_of_plain {topic : CString} (plain : PlainLevel topic.bytes) :
    ∀ token ∈ tokens topic, token ≠ [hash] := by
  intro token member
  unfold tokens at member
  split at member
  · exact (levels_of_plain plain token member).2
  · rcases List.mem_cons.mp member with rfl | inLevels
    · exact List.cons_ne_nil _ _ |>.symm
    · exact (levels_of_plain plain token inLevels).2

/-- A search for a valid topic visits the node of every filter that matches it, a
`#` node only while it has no child. -/
theorem rootVisits_complete {filter topic : CString} {inner : Bool}
    (matched : FilterMatches filter topic) (plain : PlainLevel topic.bytes)
    (childless : (filterPath filter).getLast? = some [hash] → inner = false) :
    rootVisits (filterPath filter) inner (tokens topic) = true := by
  obtain ⟨heads, matchedTokens⟩ := (matches_tokens_iff filter topic).mpr matched
  rw [getLast?_filterPath] at childless
  exact (rootVisits_filterPath _ _ _).mpr
    ⟨heads, visits_complete (tokens_ne_nil filter) matchedTokens
      (tokens_of_plain plain) childless⟩

theorem tokens_injective {left right : CString}
    (same : tokens left = tokens right) : left = right := by
  have joined : ∀ string : CString,
      [slash].intercalate (levels string) = string.bytes :=
    fun string => List.intercalate_splitOn slash
  have sameLevels : levels left = levels right := by
    obtain ⟨first, rest, leftLevels, leftSystem⟩ := exists_levels left
    obtain ⟨level, others, rightLevels, rightSystem⟩ := exists_levels right
    unfold tokens at same
    split at same <;> split at same
    · exact same
    · rename_i inside _
      rw [leftLevels, List.cons.injEq] at same
      rw [same.1] at leftSystem
      exact absurd (leftSystem.mp inside) (by simp)
    · rename_i _ inside
      rw [rightLevels, List.cons.injEq] at same
      rw [← same.1] at rightSystem
      exact absurd (rightSystem.mp inside) (by simp)
    · exact (List.cons.inj same).2
  apply CString.ext_bytes
  rw [← joined left, ← joined right, sameLevels]

theorem filterPath_injective {left right : CString}
    (same : filterPath left = filterPath right) : left = right := by
  obtain ⟨leftTop, _, leftPath⟩ := filterPath_eq left
  obtain ⟨rightTop, _, rightPath⟩ := filterPath_eq right
  rw [leftPath, rightPath, List.cons.injEq] at same
  exact tokens_injective same.2

theorem head?_tokens_ne_hash (filter : CString) : (tokens filter).head? ≠ some [hash] := by
  obtain ⟨first, rest, filterLevels, system⟩ := exists_levels filter
  intro head
  unfold tokens at head
  split at head
  · rename_i inside
    rw [filterLevels, List.head?_cons, Option.some.injEq] at head
    rw [head] at system
    exact absurd (system.mp inside) (by decide)
  · exact absurd head (by simp)

theorem filterPath_hash_last {filter : CString}
    (valid : subTopicValid filter.bytes = true) {front back : List Token}
    (split : filterPath filter = front ++ [hash] :: back) : back = [] := by
  have inOrder := ((subTopicValid_iff filter).mp valid).2
  obtain ⟨top, head, path⟩ := filterPath_eq filter
  rw [path] at split
  cases front with
  | nil =>
      rw [List.nil_append, List.cons.injEq] at split
      rw [split.1] at head
      exact absurd head (head?_tokens_ne_hash filter)
  | cons _ front =>
      rw [List.cons_append, List.cons.injEq] at split
      have tokenSplit := split.2
      unfold tokens at tokenSplit
      split at tokenSplit
      · rw [tokenSplit] at inOrder
        exact inOrder.hash_last
      · cases front with
        | nil =>
            rw [List.nil_append, List.cons.injEq] at tokenSplit
            exact absurd tokenSplit.1 (by simp)
        | cons _ front =>
            rw [List.cons_append, List.cons.injEq] at tokenSplit
            rw [tokenSplit.2] at inOrder
            exact inOrder.hash_last

/-- All nodes but the one `init_database` makes are on the way to the node of a
valid filter. -/
def Subhier.ValidPaths (chain : Subhier) : Prop :=
  ∀ site ∈ chain.sites, site.path = [[]] ∨
    ∃ filter : CString, subTopicValid filter.bytes = true ∧ site.path <+: filterPath filter

/-- In a tree of valid filters a `#` node has no child. -/
theorem Subhier.ValidPaths.childless {chain : Subhier} (valid : chain.ValidPaths)
    {site : Site} (member : site ∈ chain.sites)
    (isHash : site.path.getLast? = some [hash]) : site.inner = false := by
  rcases inner : site.inner with _ | _
  · rfl
  · obtain ⟨lower, lowerMember, topic, path⟩ :=
      Subhier.exists_below_of_inner member inner
    obtain ⟨front, split⟩ := List.getLast?_eq_some_iff.mp isHash
    rcases valid lower lowerMember with top | ⟨filter, validFilter, rest, whole⟩
    · rw [top] at path
      have lengths := congrArg List.length path
      rw [split] at lengths
      simp at lengths
    · have inFront : filterPath filter = front ++ [hash] :: topic :: rest := by
        rw [← whole, path, split]
        simp
      cases filterPath_hash_last validFilter inFront

end MuMQ
