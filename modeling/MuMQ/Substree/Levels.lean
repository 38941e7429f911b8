import MuMQ.Substree.Matching

namespace MuMQ

open Data

/-! The topic checks against the levels that `_sub_topic_tokenise` yields. -/

/-- The token list of a string without the extra empty token in front. -/
def withoutExtra (string : CString) (topics : List Token) : List Token :=
  if isSystem string then topics else topics.tail

theorem withoutExtra_tokens (string : CString) :
    withoutExtra string (tokens string) = levels string := by
  unfold withoutExtra tokens
  split <;> rfl

theorem plainLevel_levels (string : CString) :
    PlainLevel string.bytes ↔ ∀ level ∈ levels string, PlainLevel level := by
  constructor
  · intro plain level member
    exact ⟨fun inLevel => plain.1 (mem_of_mem_level member inLevel),
      fun inLevel => plain.2 (mem_of_mem_level member inLevel)⟩
  · intro plain
    have wildcard {byte : UInt8} (other : byte ≠ slash)
        (absent : ∀ level ∈ levels string, byte ∉ level) : byte ∉ string.bytes := by
      intro member
      have joined : [slash].intercalate (levels string) = string.bytes :=
        List.intercalate_splitOn slash
      rw [← joined] at member
      rcases mem_intercalate member with isSlash | ⟨level, inLevels, inLevel⟩
      · exact other isSlash
      · exact absent level inLevels inLevel
    exact ⟨wildcard (by decide) fun level member => (plain level member).1,
      wildcard (by decide) fun level member => (plain level member).2⟩

/-- A node below a `#` node. -/
def Site.BelowHash (site : Site) : Prop := [hash] ∈ site.path.dropLast

/-- On the way to the node of a valid filter no node is below a `#` node. -/
theorem not_belowHash_of_prefix {filter : CString}
    (valid : subTopicValid filter.bytes = true) {site : Site}
    (onPath : site.path <+: filterPath filter) : ¬ site.BelowHash := by
  intro below
  obtain ⟨front, back, split⟩ := List.append_of_mem below
  have whole : site.path = (front ++ [hash] :: back) ++ [site.path.getLast (by
      intro empty
      rw [Site.BelowHash, empty] at below
      cases below)] := by
    rw [← split, List.dropLast_append_getLast]
  obtain ⟨rest, path⟩ := onPath
  rw [whole, List.append_assoc, List.append_assoc] at path
  exact List.cons_ne_nil _ _
    (List.append_eq_nil_iff.mp (filterPath_hash_last valid path.symm)).2

/-- A call of `mqtt3_sub_add` keeps the nodes there are, in their order, and creates none
below a `#` node. -/
def CreatesNoneBelowHash (before after : Broker) : Prop :=
  Edit (fun old new : Site => new.path = old.path) (fun created => ¬ created.BelowHash)
    before.subs.sites after.subs.sites

theorem SubAdded.createsNoneBelowHash {broker after : Broker} {context : Nat}
    {filter : CString} {rc : Int} (added : SubAdded broker context filter after rc)
    (valid : subTopicValid filter.bytes = true) : CreatesNoneBelowHash broker after :=
  added.edit.imp (fun _ _ changed => changed.path)
    fun _ isFresh => not_belowHash_of_prefix valid isFresh.onPath

/-- The two topic checks decide the grammars of filters and of topics over the levels of a
string, so that a valid filter leads to no node below a `#` node, and no token of a valid
topic is a wildcard. -/
theorem topicValid_iff (string : CString) :
    (∀ memory, (subTopicTokenise memory string).2 = some (tokens string) ∨
      ((subTopicTokenise memory string).2 = none ∧ ¬ memory.Unfailing)) ∧
    withoutExtra string (tokens string) = levels string ∧
    (subTopicValid string.bytes = true ↔
      string.bytes.length ≤ 65535 ∧ FilterLevels (levels string)) ∧
    (pubTopicValid string.bytes = true ↔
      string.bytes.length ≤ 65535 ∧ ∀ level ∈ levels string, PlainLevel level) ∧
    (subTopicValid string.bytes = true →
      ∀ broker context qos after rc,
        mqtt3SubAdd broker context string qos = some (after, rc) →
          CreatesNoneBelowHash broker after) ∧
    (pubTopicValid string.bytes = true →
      ∀ token ∈ tokens string, token ≠ [plus] ∧ token ≠ [hash]) := by
  refine ⟨fun memory => (subTopicTokenise_yields memory string).2, withoutExtra_tokens string,
    subTopicValid_iff string, ?_, ?_, ?_⟩
  · rw [pubTopicValid_iff, plainLevel_levels]
  · intro valid broker context qos after rc ran
    exact (mqtt3SubAdd_added ran).createsNoneBelowHash valid
  · intro valid
    have plain := ((pubTopicValid_iff string).mp valid).2
    intro token member
    unfold tokens at member
    split at member
    · exact levels_of_plain plain token member
    · rcases List.mem_cons.mp member with rfl | inLevels
      · exact plainLevel_nil.ne_wildcard
      · exact levels_of_plain plain token inLevels

end MuMQ
