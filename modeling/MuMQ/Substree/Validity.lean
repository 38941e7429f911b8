import MuMQ.Substree.Tokenise
import Mathlib.Tactic.Push

namespace MuMQ

/-! The two topic checks, as statements about levels. -/

/-- A level without a wildcard character. -/
def PlainLevel (level : Token) : Prop := plus ∉ level ∧ hash ∉ level

/-- The levels of a topic filter: `+` and `#` stand alone in their level, and `#`
only in the last. -/
def FilterLevels : List Token → Prop
  | [] => True
  | level :: rest =>
      (level = [plus] ∨ PlainLevel level ∨ (level = [hash] ∧ rest = [])) ∧
        FilterLevels rest

theorem plainLevel_nil : PlainLevel [] := by simp [PlainLevel]

theorem plainLevel_cons {byte : UInt8} {level : Token} :
    PlainLevel (byte :: level) ↔
      byte ≠ plus ∧ byte ≠ hash ∧ PlainLevel level := by
  simp only [PlainLevel, List.mem_cons, not_or]
  constructor
  · rintro ⟨⟨notPlus, restPlus⟩, notHash, restHash⟩
    exact ⟨fun equal => notPlus equal.symm, fun equal => notHash equal.symm,
      restPlus, restHash⟩
  · rintro ⟨notPlus, notHash, restPlus, restHash⟩
    exact ⟨⟨fun equal => notPlus equal.symm, restPlus⟩,
      fun equal => notHash equal.symm, restHash⟩

theorem exists_splitOn (bytes : List UInt8) :
    ∃ first rest, bytes.splitOn slash = first :: rest :=
  List.exists_cons_of_ne_nil (List.splitOn_ne_nil slash bytes)

theorem splitOn_slash (bytes : List UInt8) :
    (slash :: bytes).splitOn slash = [] :: bytes.splitOn slash := by
  simp [List.splitOn_cons_eq_if_modifyHead]

theorem splitOn_other {byte : UInt8} {bytes first : List UInt8}
    {rest : List Token} (notSlash : byte ≠ slash)
    (split : bytes.splitOn slash = first :: rest) :
    (byte :: bytes).splitOn slash = (byte :: first) :: rest := by
  simp [List.splitOn_cons_eq_if_modifyHead, notSlash, split]

theorem first_nil_iff {bytes first : List UInt8} {rest : List Token}
    (noNul : 0 ∉ bytes) (split : bytes.splitOn slash = first :: rest) :
    first = [] ↔ firstChar bytes = 0 ∨ firstChar bytes = slash := by
  cases bytes with
  | nil =>
      simp only [List.splitOn_nil, List.cons.injEq] at split
      simp [← split.1, firstChar]
  | cons byte bytes =>
      have notNul : byte ≠ 0 := fun equal => noNul (by simp [equal])
      by_cases isSlash : byte = slash
      · subst isSlash
        rw [splitOn_slash, List.cons.injEq] at split
        simp [← split.1, firstChar]
      · obtain ⟨piece, pieces, further⟩ := exists_splitOn bytes
        rw [splitOn_other isSlash further, List.cons.injEq] at split
        simp [← split.1, firstChar, notNul, isSlash]

theorem firstChar_eq_zero {bytes : List UInt8} (noNul : 0 ∉ bytes) :
    firstChar bytes = 0 ↔ bytes = [] := by
  cases bytes with
  | nil => simp [firstChar]
  | cons byte bytes =>
      have notNul : byte ≠ 0 := fun equal => noNul (by simp [equal])
      simp [firstChar, notNul]

theorem not_plainLevel_plus (level : Token) : ¬ PlainLevel (plus :: level) := by
  simp [plainLevel_cons]

theorem not_plainLevel_hash (level : Token) : ¬ PlainLevel (hash :: level) := by
  simp [plainLevel_cons]

theorem filterLevels_plus {level : Token} {rest : List Token} :
    FilterLevels ((plus :: level) :: rest) ↔ level = [] ∧ FilterLevels rest := by
  simp [FilterLevels, not_plainLevel_plus, plus, hash]

theorem filterLevels_hash {level : Token} {rest : List Token} :
    FilterLevels ((hash :: level) :: rest) ↔ level = [] ∧ rest = [] := by
  simp only [FilterLevels, not_plainLevel_hash, List.cons.injEq]
  constructor
  · rintro ⟨⟨impossible, _⟩ | impossible | ⟨⟨_, alone⟩, last⟩, _⟩
    · cases impossible
    · cases impossible
    · exact ⟨alone, last⟩
  · rintro ⟨alone, rfl⟩
    exact ⟨.inr (.inr ⟨⟨trivial, alone⟩, rfl⟩), trivial⟩

theorem filterLevels_other {byte : UInt8} {level : Token} {rest : List Token}
    (notPlus : byte ≠ plus) (notHash : byte ≠ hash) :
    FilterLevels ((byte :: level) :: rest) ↔ PlainLevel level ∧ FilterLevels rest := by
  simp [FilterLevels, plainLevel_cons, notPlus, notHash]

/-- The test of a wildcard character, with what stands on either side of it. -/
theorem misplaced_iff (c next : UInt8) :
    ((c ≠ 0 ∧ c ≠ slash) ∨ (next ≠ 0 ∧ next ≠ slash)) ↔
      ¬ ((c = 0 ∨ c = slash) ∧ (next = 0 ∨ next = slash)) := by
  rw [not_and_or, not_or, not_or]

/-- The scan of `sub_topic_valid`.  At the start of a level it decides the levels
that remain; inside one, that the level has no further wildcard and the levels
behind it are in order. -/
theorem subTopicScan_iff (c : UInt8) (len : Nat) (bytes : List UInt8)
    (noNul : 0 ∉ bytes) (first : Token) (rest : List Token)
    (split : bytes.splitOn slash = first :: rest) :
    subTopicScan c len bytes = true ↔
      len + bytes.length ≤ 65535 ∧
        (if c = 0 ∨ c = slash then FilterLevels (first :: rest)
          else PlainLevel first ∧ FilterLevels rest) := by
  induction bytes generalizing c len first rest with
  | nil =>
      simp only [List.splitOn_nil, List.cons.injEq] at split
      obtain ⟨rfl, rfl⟩ := split
      simp [subTopicScan, FilterLevels, plainLevel_nil]
  | cons byte bytes induction =>
      have notNul : byte ≠ 0 := fun equal => noNul (by simp [equal])
      have tailNoNul : 0 ∉ bytes := fun member => noNul (by simp [member])
      obtain ⟨piece, pieces, further⟩ := exists_splitOn bytes
      have scanTail := fun next =>
        induction next (len + 1) tailNoNul piece pieces further
      have lengths : len + 1 + bytes.length = len + (byte :: bytes).length := by
        simp only [List.length_cons]
        omega
      rw [lengths] at scanTail
      have pieceNil := first_nil_iff tailNoNul further
      have bytesNil := firstChar_eq_zero tailNoNul
      rw [subTopicScan, if_neg notNul]
      by_cases isSlash : byte = slash
      · -- the level ends here
        subst isSlash
        rw [splitOn_slash, further, List.cons.injEq] at split
        obtain ⟨rfl, rfl⟩ := split
        rw [if_neg (by decide), if_neg (by decide), scanTail]
        simp [FilterLevels, plainLevel_nil]
      · rw [splitOn_other isSlash further, List.cons.injEq] at split
        obtain ⟨rfl, rfl⟩ := split
        by_cases isPlus : byte = plus
        · -- accepted where it is the whole level
          subst isPlus
          rw [if_pos rfl]
          have misplaced := (misplaced_iff c (firstChar bytes)).trans
            (not_congr (and_congr_right' pieceNil.symm))
          by_cases atStart : c = 0 ∨ c = slash
          · rw [if_pos atStart, filterLevels_plus]
            by_cases alone : piece = []
            · rw [if_neg fun test => misplaced.mp test ⟨atStart, alone⟩, scanTail,
                if_neg (by decide)]
              simp [alone, plainLevel_nil]
            · rw [if_pos (misplaced.mpr fun both => alone both.2)]
              simp [alone]
          · rw [if_pos (misplaced.mpr fun both => atStart both.1), if_neg atStart]
            simp [not_plainLevel_plus]
        · rw [if_neg isPlus]
          by_cases isHash : byte = hash
          · -- accepted where it is the whole of the last level
            subst isHash
            rw [if_pos rfl]
            by_cases atStart : c = 0 ∨ c = slash
            · rw [if_pos atStart, filterLevels_hash]
              by_cases last : bytes = []
              · subst last
                have accepted : ¬ ((c ≠ 0 ∧ c ≠ slash) ∨ firstChar [] ≠ 0) := by
                  rw [← not_or]
                  exact not_or.mpr ⟨not_not_intro atStart, not_not_intro rfl⟩
                simp only [List.splitOn_nil, List.cons.injEq] at further
                obtain ⟨rfl, rfl⟩ := further
                rw [if_neg accepted, scanTail, if_neg (by decide)]
                simp [FilterLevels, plainLevel_nil]
              · have more : ¬ (piece = [] ∧ pieces = []) := by
                  rintro ⟨rfl, rfl⟩
                  have whole : [slash].intercalate (bytes.splitOn slash) = bytes :=
                    List.intercalate_splitOn slash
                  rw [further] at whole
                  exact last (by simpa using whole.symm)
                rw [if_pos (.inr (mt bytesNil.mp last))]
                simp [more]
            · rw [if_pos (.inl (not_or.mp atStart)), if_neg atStart]
              simp [not_plainLevel_hash]
          · -- an ordinary character
            rw [if_neg isHash, scanTail, if_neg (not_or.mpr ⟨notNul, isSlash⟩),
              filterLevels_other isPlus isHash, plainLevel_cons]
            simp [isPlus, isHash]

/-- `sub_topic_valid` decides the grammar of topic filters. -/
theorem subTopicValid_iff (filter : CString) :
    subTopicValid filter.bytes = true ↔
      filter.bytes.length ≤ 65535 ∧ FilterLevels (levels filter) := by
  obtain ⟨first, rest, split⟩ := exists_splitOn filter.bytes
  have scan := subTopicScan_iff 0 0 filter.bytes filter.noNul first rest split
  rw [subTopicValid, scan, levels, split]
  simp

theorem pubTopicScan_iff (len : Nat) (bytes : List UInt8) (noNul : 0 ∉ bytes) :
    pubTopicScan len bytes = true ↔
      len + bytes.length ≤ 65535 ∧ PlainLevel bytes := by
  induction bytes generalizing len with
  | nil => simp [pubTopicScan, plainLevel_nil]
  | cons byte bytes induction =>
      have notNul : byte ≠ 0 := fun equal => noNul (by simp [equal])
      have tailNoNul : 0 ∉ bytes := fun member => noNul (by simp [member])
      rw [pubTopicScan, if_neg notNul]
      by_cases wildcard : byte = plus ∨ byte = hash
      · rw [if_pos wildcard]
        have notPlain : ¬ PlainLevel (byte :: bytes) := by
          rw [plainLevel_cons]
          exact fun plain => wildcard.elim plain.1 plain.2.1
        simp [notPlain]
      · rw [if_neg wildcard, induction (len + 1) tailNoNul, plainLevel_cons,
          List.length_cons]
        push Not at wildcard
        have lengths : len + 1 + bytes.length = len + (bytes.length + 1) := by omega
        simp [wildcard, lengths]

/-- `pub_topic_valid` decides that a topic has no wildcard character. -/
theorem pubTopicValid_iff (topic : CString) :
    pubTopicValid topic.bytes = true ↔
      topic.bytes.length ≤ 65535 ∧ PlainLevel topic.bytes := by
  simpa [pubTopicValid] using pubTopicScan_iff 0 topic.bytes topic.noNul

theorem mem_of_mem_level {byte : UInt8} {bytes : List UInt8} {level : Token}
    (member : level ∈ bytes.splitOn slash) (inLevel : byte ∈ level) :
    byte ∈ bytes := by
  induction bytes generalizing level with
  | nil =>
      rw [List.splitOn_nil, List.mem_singleton] at member
      subst member
      cases inLevel
  | cons head bytes induction =>
      obtain ⟨first, rest, split⟩ := exists_splitOn bytes
      by_cases isSlash : head = slash
      · subst isSlash
        rw [splitOn_slash] at member
        rcases List.mem_cons.mp member with rfl | inRest
        · cases inLevel
        · exact List.mem_cons_of_mem _ (induction inRest inLevel)
      · rw [splitOn_other isSlash split] at member
        rw [split] at induction
        rcases List.mem_cons.mp member with rfl | inRest
        · rcases List.mem_cons.mp inLevel with rfl | further
          · simp
          · exact List.mem_cons_of_mem _ (induction (by simp) further)
        · exact List.mem_cons_of_mem _ (induction (by simp [inRest]) inLevel)

theorem mem_intercalate {byte : UInt8} {pieces : List Token}
    (member : byte ∈ [slash].intercalate pieces) :
    byte = slash ∨ ∃ piece ∈ pieces, byte ∈ piece := by
  induction pieces with
  | nil => cases member
  | cons piece pieces induction =>
      cases pieces with
      | nil => exact .inr ⟨piece, by simp, by simpa using member⟩
      | cons second pieces =>
          rw [List.intercalate_cons_cons, List.append_assoc, List.mem_append,
            List.mem_append, List.mem_singleton] at member
          rcases member with here | isSlash | behind
          · exact .inr ⟨piece, by simp, here⟩
          · exact .inl isSlash
          · rcases induction behind with isSlash | ⟨other, otherMember, inOther⟩
            · exact .inl isSlash
            · exact .inr ⟨other, by simp [otherMember], inOther⟩

theorem PlainLevel.ne_wildcard {level : Token} (plain : PlainLevel level) :
    level ≠ [plus] ∧ level ≠ [hash] := by
  constructor
  · rintro rfl
    exact plain.1 (by simp)
  · rintro rfl
    exact plain.2 (by simp)

theorem levels_of_plain {topic : CString} (plain : PlainLevel topic.bytes) :
    ∀ level ∈ levels topic, level ≠ [plus] ∧ level ≠ [hash] := by
  intro level member
  apply PlainLevel.ne_wildcard
  exact ⟨fun inLevel => plain.1 (mem_of_mem_level member inLevel),
    fun inLevel => plain.2 (mem_of_mem_level member inLevel)⟩

/-- In a valid filter nothing stands behind a `#` level. -/
theorem FilterLevels.hash_last {front back : List Token}
    (inOrder : FilterLevels (front ++ [hash] :: back)) : back = [] := by
  induction front with
  | nil =>
      rcases inOrder.1 with impossible | plain | ⟨_, last⟩
      · exact absurd impossible (by decide)
      · exact absurd rfl plain.ne_wildcard.2
      · exact last
  | cons level front induction => exact induction inOrder.2

end MuMQ
