namespace MuMQ

/-- A heap address: the position of the allocation call that returned it. -/
abbrev Address := Nat

/-- The allocator.  `succeeds` decides each allocation call of a run by its
position, `contents` is what an uninitialised block holds. -/
structure Memory where
  succeeds : Nat → Bool
  contents : Nat → UInt8
  calls : Nat

namespace Memory

/-- `malloc`, `calloc`, `realloc` and `strdup`, where the caller tests the result. -/
def malloc (memory : Memory) : Option Address × Memory :=
  (if memory.succeeds memory.calls then some memory.calls else none,
    { memory with calls := memory.calls + 1 })

/-- An allocation whose result the source does not test.  A run in which such a
call fails ends in a null dereference and is not modelled. -/
def mallocUnchecked (memory : Memory) : Address × Memory :=
  (memory.calls, { memory with calls := memory.calls + 1 })

/-- The bytes of a block of `size` bytes before anything is stored in it. -/
def block (memory : Memory) (size : Nat) : List UInt8 :=
  (List.range size).map memory.contents

/-- No allocation call fails. -/
def Unfailing (memory : Memory) : Prop :=
  ∀ call, memory.succeeds call = true

/-- The next `count` allocation calls succeed. -/
def SucceedsFor (memory : Memory) (count : Nat) : Prop :=
  ∀ call < count, memory.succeeds (memory.calls + call) = true

instance (memory : Memory) (count : Nat) : Decidable (memory.SucceedsFor count) :=
  inferInstanceAs (Decidable (∀ call < count, _ = _))

/-- The allocator `count` calls later. -/
def later (memory : Memory) (count : Nat) : Memory :=
  { memory with calls := memory.calls + count }

/-- `after` is `before` some allocation calls later. -/
structure Extends (before after : Memory) : Prop where
  succeeds : after.succeeds = before.succeeds
  contents : after.contents = before.contents
  calls : before.calls ≤ after.calls

@[simp] theorem length_block (memory : Memory) (size : Nat) :
    (memory.block size).length = size := by
  simp [block]

theorem malloc_of_unfailing {memory : Memory} (unfailing : memory.Unfailing) :
    memory.malloc =
      (some memory.calls, { memory with calls := memory.calls + 1 }) := by
  simp [malloc, unfailing memory.calls]

theorem Extends.refl (memory : Memory) : Extends memory memory :=
  ⟨rfl, rfl, Nat.le_refl _⟩

theorem Extends.trans {first second third : Memory}
    (left : Extends first second) (right : Extends second third) :
    Extends first third :=
  ⟨right.succeeds.trans left.succeeds, right.contents.trans left.contents,
    Nat.le_trans left.calls right.calls⟩

theorem Extends.malloc (memory : Memory) : Extends memory memory.malloc.2 :=
  ⟨rfl, rfl, Nat.le_succ _⟩

theorem Extends.mallocUnchecked (memory : Memory) :
    Extends memory memory.mallocUnchecked.2 :=
  ⟨rfl, rfl, Nat.le_succ _⟩

theorem Extends.later (memory : Memory) (count : Nat) : Extends memory (memory.later count) :=
  ⟨rfl, rfl, Nat.le_add_right _ _⟩

theorem Unfailing.extends {before after : Memory}
    (unfailing : before.Unfailing) (extended : Extends before after) :
    after.Unfailing := by
  intro call
  rw [extended.succeeds]
  exact unfailing call

@[simp] theorem later_succeeds (memory : Memory) (count : Nat) :
    (memory.later count).succeeds = memory.succeeds := rfl

@[simp] theorem later_calls (memory : Memory) (count : Nat) :
    (memory.later count).calls = memory.calls + count := rfl

theorem later_later (memory : Memory) (first second : Nat) :
    (memory.later first).later second = memory.later (first + second) := by
  simp only [later, Nat.add_assoc]

theorem succeedsFor_add {memory : Memory} {first second : Nat} :
    memory.SucceedsFor (first + second) ↔
      memory.SucceedsFor first ∧ (memory.later first).SucceedsFor second := by
  constructor
  · intro succeeds
    refine ⟨fun call inside => succeeds call (by omega), fun call inside => ?_⟩
    rw [later_succeeds, later_calls, Nat.add_assoc]
    exact succeeds (first + call) (by omega)
  · rintro ⟨early, late⟩ call inside
    by_cases isEarly : call < first
    · exact early call isEarly
    · have found := late (call - first) (by omega)
      rw [later_succeeds, later_calls, Nat.add_assoc] at found
      rwa [show first + (call - first) = call by omega] at found

theorem succeedsFor_one {memory : Memory} :
    memory.SucceedsFor 1 ↔ memory.succeeds memory.calls = true := by
  simp [SucceedsFor]

theorem Unfailing.succeedsFor {memory : Memory} (unfailing : memory.Unfailing)
    (count : Nat) : memory.SucceedsFor count :=
  fun _ _ => unfailing _

theorem malloc_eq (memory : Memory) :
    memory.malloc =
      (if memory.SucceedsFor 1 then some memory.calls else none, memory.later 1) := by
  simp only [malloc, succeedsFor_one, later]

theorem succeedsFor_two {memory : Memory} :
    memory.SucceedsFor 2 ↔ memory.SucceedsFor 1 ∧ (memory.later 1).SucceedsFor 1 :=
  @succeedsFor_add memory 1 1

end Memory

end MuMQ
