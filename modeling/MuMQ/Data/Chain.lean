import Mathlib.Logic.Function.Basic

namespace MuMQ.Data

/-! Singly linked lists in a heap, with cells that are added behind the last one. -/

/-- A cell of a linked list. -/
structure Cell (Address Value : Type) where
  next : Option Address
  value : Value

variable {Address Value : Type}

/-- The cells from `first` on, up to the pointer `stop`. -/
def Chain (heap : Address → Option (Cell Address Value)) :
    Option Address → List (Address × Value) → Option Address → Prop
  | first, [], stop => first = stop
  | first, (address, value) :: cells, stop =>
      first = some address ∧
        ∃ next, heap address = some ⟨next, value⟩ ∧ Chain heap next cells stop

/-- The values of a list, read from `first` on in at most `turns` steps. -/
def walk (heap : Address → Option (Cell Address Value)) : Nat → Option Address → List Value
  | 0, _ => []
  | _ + 1, none => []
  | turns + 1, some address =>
      match heap address with
      | none => []
      | some cell => cell.value :: walk heap turns cell.next

section Release

variable [DecidableEq Address]

/-- The heap without the cells from `first` on, which are freed in at most `turns` steps. -/
def release (heap : Address → Option (Cell Address Value)) :
    Nat → Option Address → Address → Option (Cell Address Value)
  | 0, _ => heap
  | _ + 1, none => heap
  | turns + 1, some address =>
      match heap address with
      | none => heap
      | some cell => release (Function.update heap address none) turns cell.next

end Release

namespace Chain

variable {heap : Address → Option (Cell Address Value)} {first stop : Option Address}

theorem append {front back : List (Address × Value)} :
    Chain heap first (front ++ back) stop ↔
      ∃ middle, Chain heap first front middle ∧ Chain heap middle back stop := by
  induction front generalizing first with
  | nil =>
      constructor
      · intro chain
        exact ⟨first, rfl, chain⟩
      · rintro ⟨_, rfl, chain⟩
        exact chain
  | cons cell front induction =>
      constructor
      · rintro ⟨here, next, found, rest⟩
        obtain ⟨middle, left, right⟩ := induction.mp rest
        exact ⟨middle, ⟨here, next, found, left⟩, right⟩
      · rintro ⟨middle, ⟨here, next, found, left⟩, right⟩
        exact ⟨here, next, found, induction.mpr ⟨middle, left, right⟩⟩

/-- A chain lies in its own cells only. -/
theorem frame {other : Address → Option (Cell Address Value)}
    {cells : List (Address × Value)} (chain : Chain heap first cells stop)
    (same : ∀ cell ∈ cells, other cell.1 = heap cell.1) : Chain other first cells stop := by
  induction cells generalizing first with
  | nil => exact chain
  | cons cell cells induction =>
      obtain ⟨here, next, found, rest⟩ := chain
      refine ⟨here, next, ?_, ?_⟩
      · rw [same cell List.mem_cons_self]
        exact found
      · exact induction rest fun cell member => same cell (List.mem_cons_of_mem _ member)

theorem last {cells : List (Address × Value)} {cell : Address × Value}
    (chain : Chain heap first (cells ++ [cell]) stop) :
    heap cell.1 = some ⟨stop, cell.2⟩ := by
  obtain ⟨_, _, _, next, found, rfl⟩ := append.mp chain
  exact found

theorem unique {cells others : List (Address × Value)} (left : Chain heap first cells none)
    (right : Chain heap first others none) : cells = others := by
  induction cells generalizing first others with
  | nil =>
      cases others with
      | nil => rfl
      | cons other others =>
          cases left
          cases right.1
  | cons cell cells induction =>
      obtain ⟨here, next, found, rest⟩ := left
      cases others with
      | nil =>
          cases right
          cases here
      | cons other others =>
          obtain ⟨otherHere, otherNext, otherFound, otherRest⟩ := right
          obtain ⟨address, value⟩ := cell
          obtain ⟨otherAddress, otherValue⟩ := other
          cases here
          cases otherHere
          rw [found] at otherFound
          cases otherFound
          rw [induction rest otherRest]

/-- A chain that ends does not come back to one of its cells. -/
theorem nodup {cells : List (Address × Value)} (chain : Chain heap first cells none) :
    (cells.map Prod.fst).Nodup := by
  induction cells generalizing first with
  | nil => exact List.nodup_nil
  | cons cell cells induction =>
      obtain ⟨here, next, found, rest⟩ := chain
      rw [List.map_cons, List.nodup_cons]
      refine ⟨fun member => ?_, induction rest⟩
      obtain ⟨again, inCells, same⟩ := List.mem_map.mp member
      obtain ⟨front, back, rfl⟩ := List.append_of_mem inCells
      obtain ⟨middle, _, chainBack⟩ := append.mp rest
      have comesBack : middle = first := by
        rw [here, chainBack.1, same]
      rw [comesBack] at chainBack
      have lengths := congrArg List.length
        (unique (show Chain heap first (cell :: (front ++ again :: back)) none from
          ⟨here, next, found, rest⟩) chainBack)
      simp only [List.length_cons, List.length_append] at lengths
      omega

theorem walk_eq {cells : List (Address × Value)} {turns : Nat}
    (chain : Chain heap first cells none) (enough : cells.length ≤ turns) :
    walk heap turns first = cells.map Prod.snd := by
  induction cells generalizing first turns with
  | nil =>
      cases chain
      cases turns <;> rfl
  | cons cell cells induction =>
      obtain ⟨rfl, next, found, rest⟩ := chain
      cases turns with
      | zero => exact absurd enough (Nat.not_succ_le_zero _)
      | succ turns =>
          rw [walk, found]
          exact congrArg (cell.2 :: ·) (induction rest (Nat.le_of_succ_le_succ enough))

section Update

variable [DecidableEq Address]

/-- A new cell behind the last one, whose `next` is set to it. -/
theorem snoc {cells : List (Address × Value)} {last : Address × Value} {added : Address}
    {value : Value} (chain : Chain heap first (cells ++ [last]) none)
    (fresh : added ∉ (cells ++ [last]).map Prod.fst) :
    Chain (Function.update (Function.update heap added (some ⟨none, value⟩)) last.1
      (some ⟨some added, last.2⟩)) first (cells ++ [last] ++ [(added, value)]) none := by
  have distinct := chain.nodup
  rw [List.map_append, List.nodup_append] at distinct
  rw [List.map_append, List.mem_append] at fresh
  have notLast : added ≠ last.1 := fun same => fresh (.inr (List.mem_singleton.mpr same))
  obtain ⟨middle, front, back⟩ := append.mp chain
  rw [List.append_assoc]
  refine append.mpr ⟨middle, front.frame fun cell member => ?_, back.1, some added, ?_, rfl,
    none, ?_, rfl⟩
  · have inFront : cell.1 ∈ cells.map Prod.fst := List.mem_map_of_mem member
    have isOther : cell.1 ≠ last.1 :=
      distinct.2.2 cell.1 inFront last.1 (List.mem_singleton.mpr rfl)
    have isOld : cell.1 ≠ added := fun same => fresh (.inl (same ▸ inFront))
    rw [Function.update_of_ne isOther, Function.update_of_ne isOld]
  · exact Function.update_self _ _ _
  · rw [Function.update_of_ne notLast, Function.update_self]

theorem release_eq {cells : List (Address × Value)} {turns : Nat}
    (chain : Chain heap first cells none) (enough : cells.length ≤ turns) (address : Address) :
    release heap turns first address =
      if address ∈ cells.map Prod.fst then none else heap address := by
  induction cells generalizing heap first turns with
  | nil =>
      cases chain
      cases turns <;> rfl
  | cons cell cells induction =>
      have distinct := chain.nodup
      rw [List.map_cons, List.nodup_cons] at distinct
      obtain ⟨rfl, next, found, rest⟩ := chain
      cases turns with
      | zero => exact absurd enough (Nat.not_succ_le_zero _)
      | succ turns =>
          have left : Chain (Function.update heap cell.1 none) next cells none := by
            apply rest.frame
            intro other member
            apply Function.update_of_ne
            intro same
            exact distinct.1 (List.mem_map.mpr ⟨other, member, same⟩)
          rw [release, found]
          dsimp only
          rw [induction left (Nat.le_of_succ_le_succ enough), List.map_cons]
          by_cases isFirst : address = cell.1
          · rw [isFirst, if_neg distinct.1, if_pos List.mem_cons_self, Function.update_self]
          · rw [Function.update_of_ne isFirst]
            exact ite_congr (by simp [isFirst]) (fun _ => rfl) (fun _ => rfl)

end Update

end Chain

end MuMQ.Data
