import MuMQ.Broker.Memory
import MuMQ.Broker.Utility

namespace MuMQ

/-- A token: one level of a topic, without its terminator. -/
abbrev Token := List UInt8

/-- The allocator and the token list, `none` once the code has gone to `cleanup`. -/
abbrev Tokenising := Memory × Option (List Token)

/-- Go on with a token list, unless the code has gone to `cleanup`. -/
def Tokenising.andThen (result : Tokenising)
    (next : Memory → List Token → Tokenising) : Tokenising :=
  match result with
  | (memory, none) => (memory, none)
  | (memory, some topics) => next memory topics

/-- Allocate a token (`strdup` or `malloc` and `memcpy`), then
`_sub_topic_append` it. -/
def subTopicAppend (topic : Token) (memory : Memory) (topics : List Token) :
    Tokenising :=
  match memory.malloc with
  | (none, memory) => (memory, none)
  | (some _, memory) =>
      match memory.malloc with
      | (none, memory) => (memory, none)
      | (some _, memory) => (memory, some (topics ++ [topic]))

/-- The `for` loop of `_sub_topic_tokenise`, with `count` turns to go. -/
def tokeniseLoop (subtopic : CString) :
    (count i start : Nat) → Memory → List Token → Tokenising
  | 0, _, _, memory, topics => (memory, some topics)
  | count + 1, i, start, memory, topics =>
      if subtopic.charAt i = slash ∨ subtopic.charAt i = 0 then
        let topic := (subtopic.bytes.drop start).take (i - start)
        (subTopicAppend topic memory topics).andThen
          (tokeniseLoop subtopic count (i + 1) (i + 1))
      else tokeniseLoop subtopic count (i + 1) start memory topics

/-- `_sub_topic_tokenise`. -/
def subTopicTokenise (memory : Memory) (subtopic : CString) : Tokenising :=
  let first : Tokenising :=
    if subtopic.charAt 0 ≠ dollar then subTopicAppend [] memory []
    else (memory, some [])
  first.andThen fun memory topics =>
    if subtopic.charAt 0 = slash then
      (subTopicAppend [] memory topics).andThen
        (tokeniseLoop subtopic subtopic.strlen 1 1)
    else tokeniseLoop subtopic (subtopic.strlen + 1) 0 0 memory topics

/-! The tokens a string has, whatever the allocator does. -/

/-- The levels of a topic: its pieces between slashes. -/
def levels (string : CString) : List Token := string.bytes.splitOn slash

/-- Whether a topic is in the `$` part of the tree. -/
def isSystem (string : CString) : Bool := string.charAt 0 = dollar

/-- The token list of a string: its levels, behind an extra empty token unless
the string begins with `$`. -/
def tokens (string : CString) : List Token :=
  if isSystem string then levels string else [] :: levels string

/-- A tokenisation either yields `topics` or has failed in an allocation. -/
def Yields (memory : Memory) (topics : List Token) (result : Tokenising) : Prop :=
  Memory.Extends memory result.1 ∧
    (result.2 = some topics ∨ (result.2 = none ∧ ¬ memory.Unfailing))

/-- A tokenisation that puts `appended` behind `topics`, unless one of the allocation
calls fails, two for each token. -/
def Appends (memory : Memory) (topics appended : List Token) (result : Tokenising) : Prop :=
  (memory.SucceedsFor (2 * appended.length) ∧
      result = (memory.later (2 * appended.length), some (topics ++ appended))) ∨
    (¬ memory.SucceedsFor (2 * appended.length) ∧
      ∃ calls, result = (memory.later calls, none))

theorem Appends.nil (memory : Memory) (topics : List Token) :
    Appends memory topics [] (memory, some topics) :=
  .inl ⟨fun _ impossible => absurd impossible (Nat.not_lt_zero _), by simp [Memory.later]⟩

theorem subTopicAppend_appends (topic : Token) (memory : Memory) (topics : List Token) :
    Appends memory topics [topic] (subTopicAppend topic memory topics) := by
  rw [Appends, List.length_singleton, Nat.mul_one, Memory.succeedsFor_two, subTopicAppend,
    Memory.malloc_eq]
  by_cases first : memory.SucceedsFor 1
  · rw [if_pos first]
    simp only [Memory.malloc_eq, Memory.later_later]
    by_cases second : (memory.later 1).SucceedsFor 1
    · rw [if_pos second]
      exact .inl ⟨⟨first, second⟩, rfl⟩
    · rw [if_neg second]
      exact .inr ⟨fun both => second both.2, 2, rfl⟩
  · rw [if_neg first]
    exact .inr ⟨fun both => first both.1, 1, rfl⟩

theorem Appends.andThen {memory : Memory} {topics appended further : List Token}
    {result : Tokenising} {next : Memory → List Token → Tokenising}
    (appends : Appends memory topics appended result)
    (continues : ∀ memory,
      Appends memory (topics ++ appended) further (next memory (topics ++ appended))) :
    Appends memory topics (appended ++ further) (result.andThen next) := by
  rw [Appends, List.length_append, Nat.mul_add, Memory.succeedsFor_add,
    ← Memory.later_later, ← List.append_assoc]
  rcases appends with ⟨succeeds, rfl⟩ | ⟨failing, calls, rfl⟩
  · rcases continues (memory.later (2 * appended.length)) with
      ⟨succeedsFurther, found⟩ | ⟨failing, calls, failed⟩
    · exact .inl ⟨⟨succeeds, succeedsFurther⟩, found⟩
    · refine .inr ⟨fun both => failing both.2, 2 * appended.length + calls, ?_⟩
      rw [← Memory.later_later]
      exact failed
  · exact .inr ⟨fun both => failing both.1, calls, rfl⟩

theorem charAt_eq_getElem {string : CString} {index : Nat}
    (inside : index < string.strlen) :
    string.charAt index = string.bytes[index] := by
  simp only [CString.charAt, List.getD_eq_getElem?_getD]
  rw [List.getElem?_eq_getElem inside]
  rfl

theorem charAt_strlen (string : CString) : string.charAt string.strlen = 0 := by
  simp [CString.charAt, CString.strlen]

theorem charAt_ne_zero {string : CString} {index : Nat}
    (inside : index < string.strlen) : string.charAt index ≠ 0 := by
  rw [charAt_eq_getElem inside]
  intro isNul
  exact string.noNul (isNul ▸ List.getElem_mem inside)

/-- The loop stands at `i` with the piece from `start` open: it still has to
deliver the pieces of the string from `start` on. -/
theorem tokeniseLoop_appends (subtopic : CString) (count i start : Nat)
    (memory : Memory) (topics : List Token)
    (position : i + count = subtopic.strlen + 1) (ordered : start ≤ i)
    (within : 0 < count)
    (noSlash : slash ∉ (subtopic.bytes.drop start).take (i - start)) :
    Appends memory topics ((subtopic.bytes.drop start).splitOn slash)
      (tokeniseLoop subtopic count i start memory topics) := by
  induction count generalizing i start memory topics with
  | zero => exact absurd within (by omega)
  | succ count induction =>
      rw [tokeniseLoop]
      by_cases atEnd : i = subtopic.strlen
      · -- the terminator closes the last piece
        have lastTurn : count = 0 := by omega
        subst lastTurn
        rw [if_pos (.inr (atEnd ▸ charAt_strlen subtopic))]
        have whole : (subtopic.bytes.drop start).take (i - start) =
            subtopic.bytes.drop start := by
          apply List.take_of_length_le
          rw [List.length_drop, atEnd]
          exact Nat.le_refl _
        rw [whole] at noSlash ⊢
        rw [List.splitOn_eq_singleton noSlash]
        exact (subTopicAppend_appends _ memory topics).andThen fun memory =>
          Appends.nil memory _
      · have inside : i < subtopic.strlen := by omega
        have piece : (subtopic.bytes.drop start).take (i + 1 - start) =
            (subtopic.bytes.drop start).take (i - start) ++
              [subtopic.charAt i] := by
          rw [charAt_eq_getElem inside, Nat.sub_add_comm ordered,
            List.take_add_one]
          congr 1
          rw [List.getElem?_drop, Nat.add_sub_cancel' ordered,
            List.getElem?_eq_getElem inside]
          rfl
        by_cases isSlash : subtopic.charAt i = slash
        · -- a slash closes a piece and opens the next behind it
          rw [if_pos (.inl isSlash)]
          have split : subtopic.bytes.drop start =
              (subtopic.bytes.drop start).take (i - start) ++
                slash :: subtopic.bytes.drop (i + 1) := by
            have rest : subtopic.bytes.drop (i + 1) =
                (subtopic.bytes.drop start).drop (i + 1 - start) := by
              rw [List.drop_drop]
              congr 1
              omega
            have joined := List.take_append_drop (i + 1 - start)
              (subtopic.bytes.drop start)
            rw [piece, isSlash, ← rest, List.append_assoc] at joined
            exact joined.symm
          have pieces : (subtopic.bytes.drop start).splitOn slash =
              (subtopic.bytes.drop start).take (i - start) ::
                (subtopic.bytes.drop (i + 1)).splitOn slash :=
            calc
              _ = ((subtopic.bytes.drop start).take (i - start) ++
                    slash :: subtopic.bytes.drop (i + 1)).splitOn slash :=
                congrArg (List.splitOn slash) split
              _ = _ := List.splitOn_append_cons_self_of_not_mem noSlash _
          rw [pieces]
          apply (subTopicAppend_appends _ memory topics).andThen
          intro memory
          exact induction (i + 1) (i + 1) memory _ (by omega) (Nat.le_refl _) (by omega)
            (by simp)
        · have ordinary :
              ¬ (subtopic.charAt i = slash ∨ subtopic.charAt i = 0) := by
            rintro (isSlash' | isNul)
            · exact isSlash isSlash'
            · exact charAt_ne_zero inside isNul
          rw [if_neg ordinary]
          apply induction (i + 1) start memory topics (by omega) (by omega)
            (by omega)
          rw [piece, List.mem_append, List.mem_singleton]
          rintro (member | equal)
          · exact noSlash member
          · exact isSlash equal.symm

/-- `_sub_topic_tokenise` fails exactly when one of its allocation calls, two for each
token, does. -/
theorem subTopicTokenise_appends (memory : Memory) (subtopic : CString) :
    Appends memory [] (tokens subtopic) (subTopicTokenise memory subtopic) := by
  have start : Appends memory [] (if isSystem subtopic then [] else [[]])
      (if subtopic.charAt 0 ≠ dollar then subTopicAppend [] memory []
        else (memory, some [])) := by
    by_cases system : subtopic.charAt 0 = dollar
    · have inSystem : isSystem subtopic = true := by simpa [isSystem] using system
      simp only [inSystem, system, ne_eq, not_true_eq_false, if_true, if_false]
      exact Appends.nil memory []
    · have outside : isSystem subtopic = false := by simpa [isSystem] using system
      simp only [outside, system, ne_eq, not_false_eq_true, if_true, Bool.false_eq_true,
        if_false]
      exact subTopicAppend_appends [] memory []
  have front : tokens subtopic =
      (if isSystem subtopic then [] else [[]]) ++ levels subtopic := by
    unfold tokens
    split <;> rfl
  unfold subTopicTokenise
  rw [front]
  apply start.andThen
  intro memory
  by_cases leading : subtopic.charAt 0 = slash
  · rw [if_pos leading]
    have split : subtopic.bytes = slash :: subtopic.bytes.drop 1 := by
      cases bytes : subtopic.bytes with
      | nil => simp [CString.charAt, bytes, slash] at leading
      | cons first rest =>
          simp only [CString.charAt, bytes, List.getD_cons_zero] at leading
          simp [leading]
    have nonempty : 0 < subtopic.strlen := by
      unfold CString.strlen
      rw [split]
      exact Nat.succ_pos _
    have pieces : levels subtopic =
        [] :: (subtopic.bytes.drop 1).splitOn slash := by
      unfold levels
      rw [split]
      have empty : slash ∉ ([] : List UInt8) := List.not_mem_nil
      exact List.splitOn_append_cons_self_of_not_mem empty _
    rw [pieces]
    apply (subTopicAppend_appends [] memory _).andThen
    intro memory
    exact tokeniseLoop_appends subtopic subtopic.strlen 1 1 memory _ (by omega)
      (Nat.le_refl _) nonempty (by simp)
  · rw [if_neg leading]
    exact tokeniseLoop_appends subtopic (subtopic.strlen + 1) 0 0 memory _
      (by omega) (Nat.le_refl _) (by omega) (by simp)

theorem subTopicTokenise_yields (memory : Memory) (subtopic : CString) :
    Yields memory (tokens subtopic) (subTopicTokenise memory subtopic) := by
  rcases subTopicTokenise_appends memory subtopic with
    ⟨_, found⟩ | ⟨failing, calls, failed⟩
  · rw [found]
    exact ⟨Memory.Extends.later _ _, .inl rfl⟩
  · rw [failed]
    exact ⟨Memory.Extends.later _ _,
      .inr ⟨rfl, fun unfailing => failing (unfailing.succeedsFor _)⟩⟩

end MuMQ
