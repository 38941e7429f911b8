import MuMQ.Data.Chain
import MuMQ.Data.Int32
import MuMQ.Substree.Others

namespace MuMQ

open Data

/-! The tokeniser on the heap: tokens that are linked through a tail pointer, and cursors
that are an `int`. -/

/-- The variables of `_sub_topic_tokenise`: the tokens on the heap, of which each owns its
string with the terminator, `*topics` and `tail`. -/
structure TokenList where
  memory : Memory
  heap : Address → Option (Cell Address (List UInt8))
  topics : Option Address
  tail : Option Address

namespace TokenList

/-- `strdup`, or `malloc` and `memcpy` with a terminator behind. -/
def newTopic (string : List UInt8) (list : TokenList) : Option (List UInt8) × TokenList :=
  match list.memory.malloc with
  | (none, memory) => (none, { list with memory })
  | (some _, memory) => (some (string ++ [0]), { list with memory })

/-- `_sub_topic_append`.  After an error the code goes to `cleanup`. -/
def subTopicAppend (topic : Option (List UInt8)) (list : TokenList) :
    Except TokenList TokenList :=
  match topic with
  | none => .error list
  | some topic =>
      match list.memory.malloc with
      | (none, memory) => .error { list with memory }
      | (some newTopic, memory) =>
          let heap := Function.update list.heap newTopic (some ⟨none, topic⟩)
          match list.tail with
          | some tail =>
              let heap := Function.update heap tail
                ((heap tail).map fun last => { last with next := some newTopic })
              .ok { list with memory, heap, tail := some newTopic }
          | none => .ok ⟨memory, heap, some newTopic, some newTopic⟩

/-- A token with a string of its own. -/
def addTopic (string : List UInt8) (list : TokenList) : Except TokenList TokenList :=
  match list.newTopic string with
  | (topic, list) => list.subTopicAppend topic

/-- The `for` loop of `_sub_topic_tokenise`. -/
def tokeniseLoop (subtopic : CString) (len i start : Int32) (list : TokenList) :
    Except TokenList TokenList :=
  if inside : i < len + 1 then
    if subtopic.charAt i.toInt.toNat = slash ∨ subtopic.charAt i.toInt.toNat = 0 then
      let stop := i
      let string :=
        if start ≠ stop then
          let tlen := stop - start
          (subtopic.bytes.drop start.toInt.toNat).take tlen.toInt.toNat
        else []
      (list.addTopic string).bind (tokeniseLoop subtopic len (i + 1) (i + 1))
    else tokeniseLoop subtopic len (i + 1) start list
  else .ok list
termination_by ((len + 1).toInt - i.toInt).toNat
decreasing_by
  all_goals
    have next := toInt_succ_of_lt inside
    have less := Int32.lt_iff_toInt_lt.mp inside
    omega

/-- What frees the tokens, in `cleanup` and in `_sub_topic_tokens_free`: each token address
lies in front of the next allocation, so that many turns are enough. -/
def subTopicTokensFree (list : TokenList) : TokenList :=
  { list with heap := release list.heap list.memory.calls list.topics }

/-- `_sub_topic_tokenise` up to `cleanup`. -/
def tokenise (subtopic : CString) (list : TokenList) : Except TokenList TokenList :=
  let first := if subtopic.charAt 0 ≠ dollar then list.addTopic [] else .ok list
  first.bind fun list =>
    let len := Int32.ofInt subtopic.strlen
    if subtopic.charAt 0 = slash then
      (list.addTopic []).bind (tokeniseLoop subtopic len 1 1)
    else list.tokeniseLoop subtopic len 0 0

/-- `_sub_topic_tokenise` for callers whose `*topics` is `NULL`, with its result. -/
def subTopicTokenise (memory : Memory) (heap : Address → Option (Cell Address (List UInt8)))
    (subtopic : CString) : Int32 × TokenList :=
  match tokenise subtopic ⟨memory, heap, none, none⟩ with
  | .ok list => (0, list)
  | .error list => (1, { list.subTopicTokensFree with topics := none, tail := none })

/-- The strings of the tokens, as a caller reads them from `topics` on. -/
def read (list : TokenList) : List Token :=
  (walk list.heap list.memory.calls list.topics).map fun topic => (CString.ofBuffer topic).bytes

theorem ofBuffer_terminated {bytes : List UInt8} (noNul : 0 ∉ bytes) :
    (CString.ofBuffer (bytes ++ [0])).bytes = bytes := by
  rw [CString.ofBuffer]
  dsimp only
  rw [List.takeWhile_append_of_pos]
  · simp
  · intro byte member
    simpa using fun isNul : byte = 0 => noNul (isNul ▸ member)

/-- The token list consists of `cells`, which were allocated since `entry`; the rest of the
heap is as it was there. -/
structure Links (entry list : TokenList) (cells : List (Address × List UInt8)) : Prop where
  chain : Chain list.heap list.topics cells none
  tail : list.tail = cells.getLast?.map Prod.fst
  since : ∀ cell ∈ cells, entry.memory.calls ≤ cell.1
  made : ∀ cell ∈ cells, cell.1 < list.memory.calls
  onwards : entry.memory.calls ≤ list.memory.calls
  counted : cells.length ≤ list.memory.calls
  others : ∀ address, address ∉ cells.map Prod.fst → list.heap address = entry.heap address

/-- The cells hold the tokens as strings. -/
def Spell (cells : List (Address × List UInt8)) (topics : List Token) : Prop :=
  cells.map Prod.snd = topics.map (· ++ [0])

/-- A run on the heap does what the run with a list of tokens does. -/
inductive Follows (entry : TokenList) : Except TokenList TokenList → Tokenising → Prop
  | goesOn {list : TokenList} {cells : List (Address × List UInt8)} {topics : List Token}
      (links : entry.Links list cells) (spell : Spell cells topics) :
      Follows entry (.ok list) (list.memory, some topics)
  | fails {list : TokenList} {cells : List (Address × List UInt8)}
      (links : entry.Links list cells) : Follows entry (.error list) (list.memory, none)

section Simulation

variable {entry list : TokenList} {cells : List (Address × List UInt8)} {topics : List Token}

theorem topics_of_read (some : list.read ≠ []) : list.topics ≠ none := by
  intro null
  apply some
  rw [read, null]
  cases list.memory.calls <;> rfl

theorem Links.empty (memory : Memory) (heap : Address → Option (Cell Address (List UInt8))) :
    Links ⟨memory, heap, none, none⟩ ⟨memory, heap, none, none⟩ [] where
  chain := rfl
  tail := rfl
  since _ member := absurd member List.not_mem_nil
  made _ member := absurd member List.not_mem_nil
  onwards := Nat.le_refl _
  counted := Nat.zero_le _
  others _ _ := rfl

/-- An allocation for something else leaves the list alone. -/
theorem Links.later (links : entry.Links list cells) (count : Nat) :
    entry.Links { list with memory := list.memory.later count } cells where
  chain := links.chain
  tail := links.tail
  since := links.since
  made cell member := Nat.lt_of_lt_of_le (links.made cell member) (Nat.le_add_right _ _)
  onwards := Nat.le_trans links.onwards (Nat.le_add_right _ _)
  counted := Nat.le_trans links.counted (Nat.le_add_right _ _)
  others := links.others

theorem Links.fresh (links : entry.Links list cells) :
    list.memory.calls ∉ cells.map Prod.fst := by
  intro member
  obtain ⟨cell, inCells, same⟩ := List.mem_map.mp member
  exact Nat.lt_irrefl _ (same ▸ links.made cell inCells)

/-- What is left to show of a list that has got a new last cell. -/
theorem Links.grown (links : entry.Links list cells) {after : TokenList} {topic : List UInt8}
    (memory : after.memory = list.memory.later 1)
    (tail : after.tail = some list.memory.calls)
    (chain : Chain after.heap after.topics (cells ++ [(list.memory.calls, topic)]) none)
    (others : ∀ address, address ∉ cells.map Prod.fst → address ≠ list.memory.calls →
      after.heap address = list.heap address) :
    entry.Links after (cells ++ [(list.memory.calls, topic)]) where
  chain := chain
  tail := by
    rw [tail, List.getLast?_append]
    rfl
  since := List.forall_mem_append.mpr
    ⟨links.since, List.forall_mem_singleton.mpr links.onwards⟩
  made := by
    rw [memory]
    exact List.forall_mem_append.mpr
      ⟨fun cell old => Nat.lt_succ_of_lt (links.made cell old),
        List.forall_mem_singleton.mpr (Nat.lt_succ_self _)⟩
  onwards := by
    rw [memory]
    exact Nat.le_succ_of_le links.onwards
  counted := by
    rw [memory, List.length_append]
    exact Nat.succ_le_succ links.counted
  others address outside := by
    rw [List.map_append, List.mem_append, not_or] at outside
    rw [others address outside.1 fun same => outside.2 (List.mem_singleton.mpr same)]
    exact links.others address outside.1

/-- A new cell behind the last one, or the first cell of an empty list. -/
theorem Links.append (links : entry.Links list cells) (allocated : list.memory.SucceedsFor 1)
    (topic : List UInt8) :
    ∃ after, list.subTopicAppend (some topic) = .ok after ∧
      after.memory = list.memory.later 1 ∧
      entry.Links after (cells ++ [(list.memory.calls, topic)]) := by
  rcases List.eq_nil_or_concat cells with rfl | ⟨front, last, split⟩
  · have tail : list.tail = none := links.tail
    refine ⟨⟨list.memory.later 1,
      Function.update list.heap list.memory.calls (some ⟨none, topic⟩),
      some list.memory.calls, some list.memory.calls⟩, ?_, rfl, ?_⟩
    · simp only [subTopicAppend, Memory.malloc_eq, if_pos allocated, tail]
    · apply links.grown rfl rfl ⟨rfl, none, Function.update_self _ _ _, rfl⟩
      intro address _ isOld
      exact Function.update_of_ne isOld _ _
  · rw [List.concat_eq_append] at split
    subst split
    have isLast : last ∈ front ++ [last] :=
      List.mem_append_right _ (List.mem_singleton.mpr rfl)
    have tail : list.tail = some last.1 := by
      rw [links.tail, List.getLast?_append]
      rfl
    have notLast : last.1 ≠ list.memory.calls := Nat.ne_of_lt (links.made last isLast)
    refine ⟨⟨list.memory.later 1,
      Function.update (Function.update list.heap list.memory.calls (some ⟨none, topic⟩)) last.1
        (some ⟨some list.memory.calls, last.2⟩),
      list.topics, some list.memory.calls⟩, ?_, rfl, ?_⟩
    · simp only [subTopicAppend, Memory.malloc_eq, if_pos allocated, tail,
        Function.update_of_ne notLast, links.chain.last, Option.map_some]
    · apply links.grown rfl rfl (links.chain.snoc links.fresh)
      intro address outside isOld
      have isOther : address ≠ last.1 := by
        intro same
        apply outside
        rw [same]
        exact List.mem_map_of_mem isLast
      dsimp only
      rw [Function.update_of_ne isOther, Function.update_of_ne isOld]

/-- A token on the heap, or the way to `cleanup`, as with a list of tokens. -/
theorem Links.addTopic_follows (links : entry.Links list cells) (spell : Spell cells topics)
    (topic : Token) :
    Follows entry (list.addTopic topic) (MuMQ.subTopicAppend topic list.memory topics) := by
  rw [addTopic, newTopic, MuMQ.subTopicAppend, Memory.malloc_eq]
  have later := links.later 1
  by_cases first : list.memory.SucceedsFor 1
  · rw [if_pos first]
    dsimp only
    rw [Memory.malloc_eq]
    by_cases second : (list.memory.later 1).SucceedsFor 1
    · rw [if_pos second]
      obtain ⟨after, appended, memory, linked⟩ := later.append second (topic ++ [0])
      rw [appended, ← memory]
      apply Follows.goesOn linked
      rw [Spell, List.map_append, List.map_append, spell]
      rfl
    · rw [if_neg second]
      simp only [subTopicAppend, Memory.malloc_eq, if_neg second]
      exact .fails (later.later 1)
  · rw [if_neg first]
    exact .fails later

theorem Follows.bind {result : Except TokenList TokenList} {tokenising : Tokenising}
    {onHeap : TokenList → Except TokenList TokenList}
    {next : Memory → List Token → Tokenising} (follows : Follows entry result tokenising)
    (continues : ∀ {list cells topics}, entry.Links list cells → Spell cells topics →
      Follows entry (onHeap list) (next list.memory topics)) :
    Follows entry (result.bind onHeap) (tokenising.andThen next) := by
  cases follows with
  | goesOn links spell => exact continues links spell
  | fails links => exact .fails links

/-- The cursors do not overflow, so that the loop takes the turns of the loop over numbers. -/
theorem tokeniseLoop_follows {subtopic : CString} (short : subtopic.strlen < 2 ^ 31 - 1)
    {len : Int32} (lenEq : len.toInt = subtopic.strlen) (count : Nat) {i start : Nat}
    {cursor begin : Int32} (cursorEq : cursor.toInt = i) (beginEq : begin.toInt = start)
    (position : i + count = subtopic.strlen + 1) (ordered : start ≤ i)
    (links : entry.Links list cells) (spell : Spell cells topics) :
    Follows entry (list.tokeniseLoop subtopic len cursor begin)
      (MuMQ.tokeniseLoop subtopic count i start list.memory topics) := by
  have limit : (len + 1).toInt = subtopic.strlen + 1 := by
    rw [toInt_add_one (by omega), lenEq]
  induction count generalizing i start cursor begin list cells topics with
  | zero =>
      have stops : ¬ cursor < len + 1 := by
        rw [Int32.lt_iff_toInt_lt]
        omega
      rw [tokeniseLoop, dif_neg stops]
      exact .goesOn links spell
  | succ count induction =>
      have inside : cursor < len + 1 := by
        rw [Int32.lt_iff_toInt_lt]
        omega
      have next : (cursor + 1).toInt = (i + 1 : Nat) := by
        rw [toInt_succ_of_lt inside, cursorEq]
        rfl
      rw [tokeniseLoop, dif_pos inside, MuMQ.tokeniseLoop, cursorEq, Int.toNat_natCast]
      by_cases ends : subtopic.charAt i = slash ∨ subtopic.charAt i = 0
      · have piece : (if begin ≠ cursor then
            (subtopic.bytes.drop begin.toInt.toNat).take (cursor - begin).toInt.toNat
            else []) = (subtopic.bytes.drop start).take (i - start) := by
          by_cases empty : begin = cursor
          · have noLength : i - start = 0 := by
              rw [empty, cursorEq] at beginEq
              omega
            rw [if_neg (fun different => different empty), noLength, List.take_zero]
          · have tlen : (cursor - begin).toInt = (i - start : Nat) := by
              rw [toInt_sub_of_lt (by omega) (by omega), cursorEq, beginEq]
              omega
            rw [if_pos empty, tlen, beginEq, Int.toNat_natCast, Int.toNat_natCast]
        rw [if_pos ends, if_pos ends]
        dsimp only
        rw [piece]
        exact (links.addTopic_follows spell _).bind fun links spell =>
          induction next next (by omega) (Nat.le_refl _) links spell
      · rw [if_neg ends, if_neg ends]
        exact induction next beginEq (by omega) (Nat.le_succ_of_le ordered) links spell

theorem tokenise_follows (memory : Memory)
    (heap : Address → Option (Cell Address (List UInt8))) {subtopic : CString}
    (short : subtopic.strlen < 2 ^ 31 - 1) :
    Follows ⟨memory, heap, none, none⟩ (tokenise subtopic ⟨memory, heap, none, none⟩)
      (MuMQ.subTopicTokenise memory subtopic) := by
  have len : (Int32.ofInt subtopic.strlen).toInt = subtopic.strlen :=
    Int32.toInt_ofInt_of_le (by omega) (by omega)
  have front : Follows ⟨memory, heap, none, none⟩
      (if subtopic.charAt 0 ≠ dollar then addTopic [] ⟨memory, heap, none, none⟩
        else .ok ⟨memory, heap, none, none⟩)
      (if subtopic.charAt 0 ≠ dollar then MuMQ.subTopicAppend [] memory []
        else (memory, some [])) := by
    have links := Links.empty memory heap
    have spell : Spell [] [] := rfl
    split
    · exact links.addTopic_follows spell []
    · exact .goesOn links spell
  unfold tokenise MuMQ.subTopicTokenise
  apply front.bind
  intro list cells topics links spell
  dsimp only
  by_cases leading : subtopic.charAt 0 = slash
  · rw [if_pos leading, if_pos leading]
    apply (links.addTopic_follows spell []).bind
    intro list cells topics links spell
    exact tokeniseLoop_follows short len _ rfl rfl (Nat.add_comm 1 _) (Nat.le_refl 1) links
      spell
  · rw [if_neg leading, if_neg leading]
    exact tokeniseLoop_follows short len _ rfl rfl (Nat.zero_add _) (Nat.le_refl 0) links spell

theorem Links.read_eq (links : entry.Links list cells) (spell : Spell cells topics)
    (noNul : ∀ token ∈ topics, 0 ∉ token) : list.read = topics := by
  rw [read, links.chain.walk_eq links.counted, spell, List.map_map]
  apply (List.map_congr_left fun token member => ?_).trans (List.map_id topics)
  exact ofBuffer_terminated (noNul token member)

theorem Links.free_heap (links : entry.Links list cells)
    (fresh : ∀ address, entry.memory.calls ≤ address → entry.heap address = none) :
    list.subTopicTokensFree.heap = entry.heap := by
  funext address
  rw [subTopicTokensFree]
  dsimp only
  rw [links.chain.release_eq links.counted]
  split
  · rename_i member
    obtain ⟨cell, inCells, same⟩ := List.mem_map.mp member
    rw [← same]
    exact (fresh cell.1 (links.since cell inCells)).symm
  · rename_i outside
    exact links.others address outside

end Simulation

theorem token_plain {string : CString} {token : Token} (member : token ∈ tokens string) :
    slash ∉ token ∧ 0 ∉ token := by
  unfold tokens at member
  split at member
  · exact level_plain member
  · rcases List.mem_cons.mp member with rfl | inLevels
    · exact ⟨List.not_mem_nil, List.not_mem_nil⟩
    · exact level_plain inLevels

section Refinement

variable (memory : Memory) (heap : Address → Option (Cell Address (List UInt8)))
  {subtopic : CString} (short : subtopic.strlen < 2 ^ 31 - 1)

include short

/-- A run on the heap is one of the tokeniser on lists: the list that a caller reads is the
one built there, and a run that fails there leaves no list here. -/
theorem subTopicTokenise_refines :
    let run := subTopicTokenise memory heap subtopic
    (run.1 = 0 ∧
      MuMQ.subTopicTokenise memory subtopic = (run.2.memory, some run.2.read)) ∨
    (run.1 = 1 ∧ run.2.topics = none ∧
      MuMQ.subTopicTokenise memory subtopic = (run.2.memory, none)) := by
  have follows := tokenise_follows memory heap short
  obtain ⟨_, yields⟩ := subTopicTokenise_yields memory subtopic
  unfold subTopicTokenise
  generalize tokenise subtopic ⟨memory, heap, none, none⟩ = result at follows
  generalize MuMQ.subTopicTokenise memory subtopic = tokenising at follows yields
  cases follows with
  | goesOn links spell =>
      left
      rcases yields with found | ⟨impossible, _⟩
      · cases found
        refine ⟨rfl, ?_⟩
        rw [links.read_eq spell fun token member => (token_plain member).2]
      · cases impossible
  | fails links => exact .inr ⟨rfl, rfl, rfl⟩

theorem subTopicTokenise_succeeds (unfailing : memory.Unfailing) :
    (subTopicTokenise memory heap subtopic).1 = 0 ∧
      (subTopicTokenise memory heap subtopic).2.read = tokens subtopic := by
  obtain ⟨_, yields⟩ := subTopicTokenise_yields memory subtopic
  rcases subTopicTokenise_refines memory heap short with ⟨result, same⟩ | ⟨_, _, same⟩
  · rw [same] at yields
    refine ⟨result, ?_⟩
    rcases yields with found | ⟨_, failing⟩
    · exact Option.some.inj found
    · exact absurd unfailing failing
  · rw [same] at yields
    rcases yields with impossible | ⟨_, failing⟩
    · cases impossible
    · exact absurd unfailing failing

end Refinement

end TokenList

/-! The pieces of a string. -/

/-- The pieces of a string between its slashes, the empty ones among them. -/
structure Pieces (string : List UInt8) (pieces : List Token) : Prop where
  nonempty : pieces ≠ []
  slashFree : ∀ piece ∈ pieces, slash ∉ piece
  joined : [slash].intercalate pieces = string

theorem pieces_levels (string : CString) : Pieces string.bytes (levels string) where
  nonempty := List.splitOn_ne_nil slash string.bytes
  slashFree _ member := (level_plain member).1
  joined := List.intercalate_splitOn slash

theorem Pieces.unique {string : List UInt8} {pieces : List Token}
    (split : Pieces string pieces) : pieces = string.splitOn slash := by
  rw [← split.joined]
  exact (List.splitOn_intercalate slash split.slashFree split.nonempty).symm

theorem head?_tokens_ne {inside outside : CString} (system : inside.charAt 0 = dollar)
    (other : outside.charAt 0 ≠ dollar) :
    (tokens inside).head? ≠ (tokens outside).head? := by
  have isInside : isSystem inside = true := by simpa [isSystem] using system
  have isOutside : isSystem outside = false := by simpa [isSystem] using other
  obtain ⟨first, rest, split, starts⟩ := exists_levels inside
  have dollarFirst := starts.mp isInside
  rw [tokens, tokens, isInside, isOutside, if_pos rfl, if_neg Bool.false_ne_true, split,
    List.head?_cons, List.head?_cons]
  intro same
  rw [Option.some.inj same] at dollarFirst
  cases dollarFirst

/-- The tokeniser splits a string at its slashes, with an empty token in front unless the
string begins with `$`. -/
theorem subTopicTokenise_splits {memory : Memory} (unfailing : memory.Unfailing)
    (heap : Address → Option (Cell Address (List UInt8))) {subtopic : CString}
    (short : subtopic.strlen < 2 ^ 31 - 1) :
    let run := TokenList.subTopicTokenise memory heap subtopic
    run.1 = 0 ∧
    subTopicTokenise memory subtopic = (run.2.memory, some run.2.read) ∧
    (∃ pieces, Pieces subtopic.bytes pieces ∧
      (∀ others, Pieces subtopic.bytes others → others = pieces) ∧
      run.2.read = if subtopic.charAt 0 = dollar then pieces else [] :: pieces) ∧
    (∀ token ∈ run.2.read, slash ∉ token) ∧
    run.2.read ≠ [] ∧ run.2.topics ≠ none ∧
    ∀ {otherMemory : Memory} (otherHeap : Address → Option (Cell Address (List UInt8)))
      {other : CString}, otherMemory.Unfailing → other.strlen < 2 ^ 31 - 1 →
      let otherRun := TokenList.subTopicTokenise otherMemory otherHeap other
      (otherRun.2.read = run.2.read → other = subtopic) ∧
      (subtopic.charAt 0 = dollar → other.charAt 0 ≠ dollar →
        run.2.read.head? ≠ otherRun.2.read.head?) := by
  obtain ⟨result, read⟩ := TokenList.subTopicTokenise_succeeds memory heap short unfailing
  dsimp only
  have nonempty : tokens subtopic ≠ [] := tokens_ne_nil subtopic
  refine ⟨result, ?_, ⟨levels subtopic, pieces_levels subtopic, fun _ split => split.unique, ?_⟩,
    ?_, ?_, TokenList.topics_of_read (read ▸ nonempty), ?_⟩
  · rcases TokenList.subTopicTokenise_refines memory heap short with
      ⟨_, same⟩ | ⟨fails, _⟩
    · exact same
    · rw [result] at fails
      cases fails
  · rw [read, tokens, isSystem]
    simp only [decide_eq_true_eq]
  · rw [read]
    exact fun token member => (TokenList.token_plain member).1
  · rw [read]
    exact nonempty
  · intro otherMemory otherHeap other otherUnfailing otherShort
    have otherRead :=
      (TokenList.subTopicTokenise_succeeds otherMemory otherHeap otherShort otherUnfailing).2
    rw [read, otherRead]
    exact ⟨tokens_injective, head?_tokens_ne⟩

/-- The tokens of `/a/`. -/
theorem subTopicTokenise_splits_slashes :
    let run := TokenList.subTopicTokenise ⟨fun _ => true, fun _ => 0, 0⟩ (fun _ => none)
      ⟨[0x2f, 0x61, 0x2f], by decide⟩
    run.1 = 0 ∧ run.2.read = [[], [], [0x61], []] := by
  obtain ⟨result, same, _⟩ := @subTopicTokenise_splits ⟨fun _ => true, fun _ => 0, 0⟩
    (fun _ => rfl) (fun _ => none) ⟨[0x2f, 0x61, 0x2f], by decide⟩ (by decide)
  have onLists : (subTopicTokenise ⟨fun _ => true, fun _ => 0, 0⟩
      ⟨[0x2f, 0x61, 0x2f], by decide⟩).2 = some [[], [], [0x61], []] := by decide
  rw [same] at onLists
  exact ⟨result, Option.some.inj onLists⟩

end MuMQ
