import MuMQ.Broker.State

namespace MuMQ

/-! What the parts of `mqtt3_sub_add` can do, by the allocations that succeed. -/

theorem newBranch_outcome (parent : Address) (topic : Token) (memory : Memory) :
    (memory.SucceedsFor 2 ∧
        newBranch parent topic memory =
          (some (.node memory.calls (some parent) topic [] .null .null), memory.later 2)) ∨
      (¬ memory.SucceedsFor 2 ∧
        ∃ calls, newBranch parent topic memory = (none, memory.later calls)) := by
  rw [Memory.succeedsFor_two, newBranch, Memory.malloc_eq]
  by_cases first : memory.SucceedsFor 1
  · rw [if_pos first]
    simp only [Memory.malloc_eq, Memory.later_later]
    by_cases second : (memory.later 1).SucceedsFor 1
    · rw [if_pos second]
      exact .inl ⟨⟨first, second⟩, rfl⟩
    · rw [if_neg second]
      exact .inr ⟨fun both => second both.2, 2, rfl⟩
  · rw [if_neg first]
    exact .inr ⟨fun both => first both.1, 1, rfl⟩

section Outcome

variable (clients : Nat → Client) (context : Nat) (qos : Int)

/-- The leaf that the leaf part of `_sub_add` puts behind `leaves`. -/
def Insertion.newLeaf (insertion : Insertion) (leaves : List Subleaf) : Subleaf :=
  ⟨insertion.memory.calls, (leaves.getLast?).map Subleaf.address, context, qos⟩

/-- The leaf part of `_sub_add`. -/
inductive LeafOutcome (address : Address) (leaves : List Subleaf) (insertion : Insertion) :
    Insertion × List Subleaf × Int → Prop
  | renewed {after : List Subleaf}
      (found : setLeafQos clients context qos leaves = some after) :
      LeafOutcome address leaves insertion (insertion, after, 0)
  | failed {calls : Nat} (missing : setLeafQos clients context qos leaves = none)
      (fails : ¬ insertion.memory.SucceedsFor 2) :
      LeafOutcome address leaves insertion
        ({ insertion with memory := insertion.memory.later calls }, leaves, -2)
  | reused {i : Nat} (missing : setLeafQos clients context qos leaves = none)
      (free : freeSub insertion.subs insertion.subCount = some i) :
      LeafOutcome address leaves insertion
        ({ insertion with
            memory := insertion.memory.later 1
            subs := insertion.subs.set i (some address) },
          leaves ++ [insertion.newLeaf context qos leaves], 0)
  | appended (missing : setLeafQos clients context qos leaves = none)
      (full : freeSub insertion.subs insertion.subCount = none) :
      LeafOutcome address leaves insertion
        ({ insertion with
            memory := insertion.memory.later 2
            subs := insertion.subs.take insertion.subCount ++ [some address]
            subCount := insertion.subCount + 1 },
          leaves ++ [insertion.newLeaf context qos leaves], 0)

theorem subAddLeaf_outcome (address : Address) (leaves : List Subleaf)
    (insertion : Insertion) :
    LeafOutcome clients context qos address leaves insertion
      (subAddLeaf clients context qos address leaves insertion) := by
  unfold subAddLeaf
  cases scanned : setLeafQos clients context qos leaves with
  | some after => exact .renewed scanned
  | none =>
      rw [Memory.malloc_eq]
      by_cases first : insertion.memory.SucceedsFor 1
      · rw [if_pos first]
        cases free : freeSub insertion.subs insertion.subCount with
        | some i => exact .reused scanned free
        | none =>
            simp only [Memory.malloc_eq, Memory.later_later]
            by_cases second : (insertion.memory.later 1).SucceedsFor 1
            · rw [if_pos second]
              exact .appended scanned free
            · rw [if_neg second]
              exact .failed scanned fun both => second (Memory.succeedsFor_two.mp both).2
      · rw [if_neg first]
        exact .failed scanned fun both => first (Memory.succeedsFor_two.mp both).1

/-- `_sub_add` at a node while there are tokens left. -/
inductive DescentOutcome (token : Token) (rest : List Token) (address : Address)
    (parent : Option Address) (topic : Token) (subs : List Subleaf)
    (children next : Subhier) (insertion : Insertion) : Insertion × Subhier × Int → Prop
  | found {result : Insertion × Subhier × Int}
      (found : onBranch token (subAdd clients context qos rest) insertion children =
        some result) :
      DescentOutcome token rest address parent topic subs children next insertion
        (result.1, .node address parent topic subs result.2.1 next, result.2.2)
  | created {ready : Insertion} {result : Insertion × Subhier × Int}
      (missing : onBranch token (subAdd clients context qos rest) insertion children = none)
      (memory : ready.memory = insertion.memory.later 2)
      (subsKept : ready.subs = insertion.subs)
      (subCount : ready.subCount = insertion.subCount)
      (unlocked : insertion.branchLock = false → ready.branchLock = false)
      (ran : subAdd clients context qos rest
        (.node insertion.memory.calls (some address) token [] .null .null) ready = result) :
      DescentOutcome token rest address parent topic subs children next insertion
        (result.1, .node address parent topic subs (children.append result.2.1) next,
          result.2.2)
  | failed {calls : Nat}
      (missing : onBranch token (subAdd clients context qos rest) insertion children = none)
      (fails : ¬ insertion.memory.SucceedsFor 2) :
      DescentOutcome token rest address parent topic subs children next insertion
        ({ insertion with memory := insertion.memory.later calls },
          .node address parent topic subs children next, -2)

theorem subAdd_outcome (token : Token) (rest : List Token) (address : Address)
    (parent : Option Address) (topic : Token) (subs : List Subleaf)
    (children next : Subhier) (insertion : Insertion) :
    DescentOutcome clients context qos token rest address parent topic subs children next
      insertion
      (subAdd clients context qos (token :: rest)
        (.node address parent topic subs children next) insertion) := by
  rw [subAdd]
  cases found : onBranch token (subAdd clients context qos rest) insertion children with
  | some result => exact .found found
  | none =>
      rcases newBranch_outcome address token insertion.memory with
        ⟨_, created⟩ | ⟨fails, calls, failed⟩
      · rw [created]
        refine .created found ?_ ?_ ?_ ?_ rfl
        · split <;> rfl
        · split <;> rfl
        · split <;> rfl
        · -- the lock is taken and released at once
          intro unlocked
          split
          · rfl
          · exact unlocked
      · rw [failed]
        exact .failed found fails

end Outcome

/-- What an insertion for `context` starts from or ends with. -/
def Broker.insertion (broker : Broker) (context : Nat) : Insertion :=
  ⟨broker.memory, broker.branchLock, (broker.clients context).subs,
    (broker.clients context).subCount⟩

/-- The insertion for `context` behind the tokenisation of `sub`. -/
def Broker.tokenised (broker : Broker) (context : Nat) (sub : CString) : Insertion :=
  { broker.insertion context with
    memory := broker.memory.later (2 * (tokens sub).length) }

/-- The broker with what an insertion for `context` ends with. -/
def Broker.finish (broker : Broker) (context : Nat) (insertion : Insertion)
    (subs : Subhier) : Broker :=
  { broker.modifyClient context fun client =>
      { client with subs := insertion.subs, subCount := insertion.subCount } with
    subs := subs
    branchLock := insertion.branchLock
    memory := insertion.memory }

@[simp] theorem Broker.insertion_finish (broker : Broker) (context : Nat)
    (insertion : Insertion) (subs : Subhier) :
    (broker.finish context insertion subs).insertion context = insertion := by
  simp [finish, Broker.insertion]

/-- `mqtt3_sub_add`. -/
inductive SubAddOutcome (broker : Broker) (context : Nat) (sub : CString) (qos : Int) :
    Broker → Int → Prop
  | untokenised {calls : Nat}
      (fails : ¬ broker.memory.SucceedsFor (2 * (tokens sub).length)) :
      SubAddOutcome broker context sub qos
        { broker with memory := broker.memory.later calls } 1
  | found {token : Token} {rest : List Token} {result : Insertion × Subhier × Int}
      (split : tokens sub = token :: rest)
      (succeeds : broker.memory.SucceedsFor (2 * (tokens sub).length))
      (found : onBranch token (subAdd broker.clients context qos (tokens sub))
        (broker.tokenised context sub) broker.subs = some result) :
      SubAddOutcome broker context sub qos (broker.finish context result.1 result.2.1)
        (if result.2.2 = -1 then 0 else result.2.2)
  | created {token : Token} {rest : List Token} {result : Insertion × Subhier × Int}
      (split : tokens sub = token :: rest)
      (succeeds : broker.memory.SucceedsFor (2 * (tokens sub).length))
      (missing : onBranch token (subAdd broker.clients context qos (tokens sub))
        (broker.tokenised context sub) broker.subs = none)
      (allocated : (broker.tokenised context sub).memory.SucceedsFor 2)
      (ran : subAdd broker.clients context qos (tokens sub)
        (.node (broker.tokenised context sub).memory.calls (some Broker.rootAddress) token []
          .null broker.subs)
        { broker.tokenised context sub with
          memory := (broker.tokenised context sub).memory.later 2 } = result) :
      SubAddOutcome broker context sub qos (broker.finish context result.1 result.2.1)
        (if result.2.2 = -1 then 0 else result.2.2)
  | failed {token : Token} {rest : List Token} {calls : Nat}
      (split : tokens sub = token :: rest)
      (succeeds : broker.memory.SucceedsFor (2 * (tokens sub).length))
      (missing : onBranch token (subAdd broker.clients context qos (tokens sub))
        (broker.tokenised context sub) broker.subs = none)
      (fails : ¬ (broker.tokenised context sub).memory.SucceedsFor 2) :
      SubAddOutcome broker context sub qos
        { broker with
          rootLock := true
          memory := (broker.tokenised context sub).memory.later calls } (-2)

theorem tokens_ne_nil (string : CString) : tokens string ≠ [] := by
  unfold tokens
  split
  · exact List.splitOn_ne_nil slash string.bytes
  · simp

theorem mqtt3SubAdd_unlocked {broker : Broker} {context : Nat} {sub : CString} {qos : Int}
    {token : Token} {rest : List Token} (unlocked : broker.rootLock = false)
    (split : tokens sub = token :: rest)
    (tokenised : subTopicTokenise broker.memory sub =
      (broker.memory.later (2 * (tokens sub).length), some (tokens sub))) :
    mqtt3SubAdd broker context sub qos =
      match onBranch token (subAdd broker.clients context qos (tokens sub))
        (broker.tokenised context sub) broker.subs with
      | some result =>
          some (broker.finish context result.1 result.2.1,
            if result.2.2 = -1 then 0 else result.2.2)
      | none =>
          match newBranch Broker.rootAddress token (broker.tokenised context sub).memory with
          | (none, memory) => some ({ broker with rootLock := true, memory := memory }, -2)
          | (some child, memory) =>
              let result := subAdd broker.clients context qos (tokens sub)
                (child.withNext broker.subs)
                { broker.tokenised context sub with memory := memory }
              some (broker.finish context result.1 result.2.1,
                if result.2.2 = -1 then 0 else result.2.2) := by
  rw [mqtt3SubAdd, tokenised, Broker.tokenised]
  simp only [unlocked, split, Bool.false_eq_true, if_false]
  rfl

/-- A call waits for `root_lock` for ever, or it returns. -/
theorem mqtt3SubAdd_outcome (broker : Broker) (context : Nat) (sub : CString) (qos : Int) :
    (broker.rootLock = true ∧ mqtt3SubAdd broker context sub qos = none) ∨
      ∃ after rc, mqtt3SubAdd broker context sub qos = some (after, rc) ∧
        SubAddOutcome broker context sub qos after rc := by
  rcases subTopicTokenise_appends broker.memory sub with
    ⟨succeeds, tokenised⟩ | ⟨fails, calls, failed⟩
  · cases locked : broker.rootLock with
    | true => exact .inl ⟨rfl, by simp only [mqtt3SubAdd, tokenised, locked, if_true]⟩
    | false =>
        obtain ⟨token, rest, split⟩ := List.exists_cons_of_ne_nil (tokens_ne_nil sub)
        rw [mqtt3SubAdd_unlocked locked split tokenised]
        cases found : onBranch token (subAdd broker.clients context qos (tokens sub))
            (broker.tokenised context sub) broker.subs with
        | some result => exact .inr ⟨_, _, rfl, .found split succeeds found⟩
        | none =>
            rcases newBranch_outcome Broker.rootAddress token
                (broker.tokenised context sub).memory with
              ⟨allocated, created⟩ | ⟨fails, calls, failed⟩
            · rw [created]
              exact .inr ⟨_, _, rfl, .created split succeeds found allocated rfl⟩
            · rw [failed]
              exact .inr ⟨_, _, rfl, .failed split succeeds found fails⟩
  · rw [mqtt3SubAdd, failed]
    exact .inr ⟨_, _, rfl, .untokenised fails⟩

theorem mqtt3SubAdd_ran {broker after : Broker} {context : Nat} {sub : CString}
    {qos rc : Int} (ran : mqtt3SubAdd broker context sub qos = some (after, rc)) :
    SubAddOutcome broker context sub qos after rc := by
  rcases mqtt3SubAdd_outcome broker context sub qos with
    ⟨_, waits⟩ | ⟨after, rc, returns, outcome⟩
  · rw [waits] at ran
    cases ran
  · rw [returns] at ran
    cases ran
    exact outcome

end MuMQ
