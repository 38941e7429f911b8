import Mathlib.Algebra.BigOperators.Group.List.Basic
import Mathlib.Algebra.Ring.Nat
import Mathlib.Data.List.Flatten

namespace MuMQ.Data

/-! A visitor that takes its steps between those of writers which only add to what it
visits. -/

/-- The places of a visitor in something that is shared with writers.  A step goes on from a
place to others, in order, and yields some items; `rest` is all that a place yields when
nothing is added any more, and `size` bounds the steps from it. -/
structure Visitor (Shared Place Item : Type) where
  step : Shared → Place → Option (List Place × List Item)
  rest : Shared → Place → List Item
  size : Shared → Place → Nat
  Good : Shared → Prop
  Within : Shared → Place → Prop
  Grows : Shared → Shared → Prop
  refl : ∀ {shared}, Good shared → Grows shared shared
  trans : ∀ {first second third}, Grows first second → Grows second third →
    Grows first third
  goesOn : ∀ {shared place}, Good shared → Within shared place →
    ∃ places items, step shared place = some (places, items)
  stands : ∀ {shared place places items}, Good shared → Within shared place →
    step shared place = some (places, items) →
    (∀ other ∈ places, Within shared other) ∧
      rest shared place = items ++ places.flatMap (rest shared) ∧
      (places.map (size shared)).sum < size shared place
  stays : ∀ {shared later place}, Good later → Grows shared later → Within shared place →
    Within later place
  gains : ∀ {shared later place}, Good later → Grows shared later → Within shared place →
    (rest shared place).Sublist (rest later place)
  keepsUp : ∀ {shared later place places items}, Good later → Grows shared later →
    Within shared place → step shared place = some (places, items) →
    ∃ places' items', step later place = some (places', items') ∧ items.Sublist items' ∧
      List.Forall₂ (fun other other' => (rest later other).Sublist (rest later other') ∧
        size later other ≤ size later other') places places'

namespace Visitor

variable {Shared Place Item : Type} (visitor : Visitor Shared Place Item)

/-- A step from the first of some places. -/
def visit (shared : Shared) : List Place → Option (List Place × List Item)
  | [] => none
  | place :: others =>
      (visitor.step shared place).map fun (places, items) => (places ++ others, items)

/-- A step that was taken before something was added yields no more, and costs no more, than
one that is taken afterwards. -/
theorem overtaken {shared later : Shared} {place : Place} {places : List Place}
    {items : List Item} (goodLater : visitor.Good later)
    (grows : visitor.Grows shared later) (within : visitor.Within shared place)
    (stepped : visitor.step shared place = some (places, items)) :
    (items ++ places.flatMap (visitor.rest later)).Sublist (visitor.rest later place) ∧
      (places.map (visitor.size later)).sum < visitor.size later place := by
  obtain ⟨places', items', stepped', fewer, each⟩ :=
    visitor.keepsUp goodLater grows within stepped
  have both : (places.flatMap (visitor.rest later)).Sublist
      (places'.flatMap (visitor.rest later)) ∧
      (places.map (visitor.size later)).sum ≤ (places'.map (visitor.size later)).sum := by
    clear stepped stepped'
    induction each with
    | nil => exact ⟨List.Sublist.refl _, Nat.le_refl _⟩
    | cons here _ induction =>
        exact ⟨here.1.append induction.1, Nat.add_le_add here.2 induction.2⟩
  obtain ⟨_, whole, smaller⟩ :=
    visitor.stands goodLater (visitor.stays goodLater grows within) stepped'
  rw [whole]
  exact ⟨fewer.append both.1, Nat.lt_of_le_of_lt both.2 smaller⟩

/-- Where a visit from `place` stands that began when `start` was shared, after `turns`
steps which yielded `items`: it has passed by nothing that was there at the start, and
whatever is added later, it yields no more than a visit from `place` at the end. -/
structure Between (start : Shared) (place : Place) (shared : Shared) (places : List Place)
    (items : List Item) (turns : Nat) : Prop where
  within : ∀ other ∈ places, visitor.Within shared other
  atLeast : (visitor.rest start place).Sublist (items ++ places.flatMap (visitor.rest shared))
  atMost : ∀ later, visitor.Good later → visitor.Grows shared later →
    (items ++ places.flatMap (visitor.rest later)).Sublist (visitor.rest later place)
  spent : ∀ later, visitor.Good later → visitor.Grows shared later →
    turns + (places.map (visitor.size later)).sum ≤ visitor.size later place

namespace Between

variable {visitor} {start shared later : Shared} {place : Place} {places : List Place}
  {items : List Item} {turns : Nat}

theorem begin (within : visitor.Within start place) :
    visitor.Between start place start [place] [] 0 where
  within other member := List.mem_singleton.mp member ▸ within
  atLeast := by simp
  atMost later _ _ := by simp
  spent later _ _ := by simp

/-- A writer has added something. -/
theorem write (between : visitor.Between start place shared places items turns)
    (good : visitor.Good later) (grows : visitor.Grows shared later) :
    visitor.Between start place later places items turns where
  within other member := visitor.stays good grows (between.within other member)
  atLeast := by
    refine between.atLeast.trans (List.Sublist.append_left ?_ _)
    have more := fun other member => visitor.gains good grows (between.within other member)
    clear between
    induction places with
    | nil => exact List.Sublist.refl _
    | cons first others induction =>
        obtain ⟨here, beyond⟩ := List.forall_mem_cons.mp more
        exact here.append (induction beyond)
  atMost last goodLast growsLast :=
    between.atMost last goodLast (visitor.trans grows growsLast)
  spent last goodLast growsLast := between.spent last goodLast (visitor.trans grows growsLast)

theorem read (between : visitor.Between start place shared places items turns)
    (good : visitor.Good shared) {next : List Place} {found : List Item}
    (visited : visitor.visit shared places = some (next, found)) :
    visitor.Between start place shared next (items ++ found) (turns + 1) := by
  cases places with
  | nil => cases visited
  | cons first others =>
      obtain ⟨⟨entered, yielded⟩, stepped, same⟩ := Option.map_eq_some_iff.mp visited
      cases same
      obtain ⟨here, beyond⟩ := List.forall_mem_cons.mp between.within
      obtain ⟨inside, whole, _⟩ := visitor.stands good here stepped
      refine ⟨?_, ?_, ?_, ?_⟩
      · intro other member
        rcases List.mem_append.mp member with new | old
        · exact inside other new
        · exact beyond other old
      · have atLeast := between.atLeast
        rw [List.flatMap_cons, whole] at atLeast
        rw [List.flatMap_append]
        simpa only [List.append_assoc] using atLeast
      · intro later goodLater grows
        obtain ⟨fewer, _⟩ := visitor.overtaken goodLater grows here stepped
        have atMost := between.atMost later goodLater grows
        rw [List.flatMap_cons] at atMost
        refine List.Sublist.trans ?_ atMost
        rw [List.flatMap_append, List.append_assoc, ← List.append_assoc found]
        exact (fewer.append_right _).append_left _
      · intro later goodLater grows
        obtain ⟨_, smaller⟩ := visitor.overtaken goodLater grows here stepped
        have spent := between.spent later goodLater grows
        rw [List.map_cons, List.sum_cons] at spent
        rw [List.map_append, List.sum_append]
        omega

/-- A visit can go on as long as there are places left. -/
theorem goesOn (between : visitor.Between start place shared places items turns)
    (good : visitor.Good shared) (left : places ≠ []) :
    (visitor.visit shared places).isSome = true := by
  cases places with
  | nil => exact absurd rfl left
  | cons first others =>
      obtain ⟨next, found, stepped⟩ :=
        visitor.goesOn good (between.within first List.mem_cons_self)
      rw [visit, stepped]
      rfl

/-- The items of a visit that is over. -/
theorem finish (between : visitor.Between start place shared [] items turns)
    (good : visitor.Good shared) :
    (visitor.rest start place).Sublist items ∧
      items.Sublist (visitor.rest shared place) ∧ turns ≤ visitor.size shared place := by
  have grows := visitor.refl good
  refine ⟨?_, ?_, ?_⟩
  · simpa using between.atLeast
  · simpa using between.atMost shared good grows
  · simpa using between.spent shared good grows

end Between

end Visitor

end MuMQ.Data
