import Mathlib.Data.List.Basic

namespace MuMQ.Data

/-! Doubly linked lists: what the two pointers of each cell say about the order of the
cells, and the three edits that keep it. -/

variable {Place : Type}

/-- The cells point to each other in the order of the list; `before` is in front of the
first one and `behind` follows the last one. -/
def Links (next prev : Place → Option Place) :
    Option Place → List Place → Option Place → Prop
  | _, [], _ => True
  | before, cell :: rest, behind =>
      prev cell = before ∧ next cell = rest.head?.or behind ∧
        Links next prev (some cell) rest behind

/-- The first of some cells, found through `next`, in at most `turns` steps each. -/
def follow (next : Place → Option Place) : Nat → Option Place → List Place
  | 0, _ => []
  | _ + 1, none => []
  | turns + 1, some cell => cell :: follow next turns (next cell)

section Unlink

variable [DecidableEq Place]

/-- `next` when a cell has been taken out. -/
def unlinkNext (next prev : Place → Option Place) (cell : Place) : Place → Option Place :=
  fun other => if prev cell = some other then next cell else next other

/-- `next` when a cell has been put in front of a list that begins with `first`. -/
def pushNext (next : Place → Option Place) (first : Option Place) (cell : Place) :
    Place → Option Place :=
  fun other => if other = cell then first else next other

/-- `prev` when a cell has been put in front of a list that begins with `first`. -/
def pushPrev (prev : Place → Option Place) (first : Option Place) (cell : Place) :
    Place → Option Place :=
  fun other =>
    if other = cell then none else if first = some other then some cell else prev other

end Unlink

namespace Links

variable {next prev next' prev' : Place → Option Place} {before behind : Option Place}

/-- A list is about the pointers of its own cells only. -/
theorem agree {cells : List Place} (links : Links next prev before cells behind)
    (sameNext : ∀ cell ∈ cells, next' cell = next cell)
    (samePrev : ∀ cell ∈ cells, prev' cell = prev cell) :
    Links next' prev' before cells behind := by
  induction cells generalizing before with
  | nil => trivial
  | cons cell cells induction =>
      obtain ⟨toPrev, toNext, rest⟩ := links
      refine ⟨?_, ?_, ?_⟩
      · exact (samePrev cell List.mem_cons_self).trans toPrev
      · exact (sameNext cell List.mem_cons_self).trans toNext
      · apply induction rest
        · exact fun other member => sameNext other (List.mem_cons_of_mem _ member)
        · exact fun other member => samePrev other (List.mem_cons_of_mem _ member)

theorem append {front back : List Place} :
    Links next prev before (front ++ back) behind ↔
      Links next prev before front (back.head?.or behind) ∧
        Links next prev (front.getLast?.or before) back behind := by
  induction front generalizing before with
  | nil => simp [Links]
  | cons cell front induction =>
      have last : ((cell :: front).getLast?).or before = front.getLast?.or (some cell) := by
        rw [List.getLast?_cons]
        cases front.getLast? <;> rfl
      rw [last, List.cons_append, Links, Links, induction, List.head?_append, Option.or_assoc]
      simp only [and_assoc]

theorem around {front back : List Place} {cell : Place}
    (links : Links next prev before (front ++ cell :: back) behind) :
    prev cell = front.getLast?.or before ∧ next cell = back.head?.or behind := by
  obtain ⟨_, toPrev, toNext, _⟩ := append.mp links
  exact ⟨toPrev, toNext⟩

/-- Another cell behind the last one. -/
theorem setBehind {cells : List Place} {other : Option Place}
    (links : Links next prev before cells behind) (nodup : cells.Nodup)
    (last : ∀ cell, cells.getLast? = some cell → next' cell = other)
    (sameNext : ∀ cell ∈ cells, cells.getLast? ≠ some cell → next' cell = next cell)
    (samePrev : ∀ cell ∈ cells, prev' cell = prev cell) :
    Links next' prev' before cells other := by
  rcases List.eq_nil_or_concat cells with rfl | ⟨front, cell, rfl⟩
  · trivial
  · rw [List.concat_eq_append] at *
    obtain ⟨linksFront, toPrev, _⟩ := append.mp links
    rw [List.nodup_append] at nodup
    refine append.mpr ⟨?_, ?_, last cell (by simp), trivial⟩
    · apply linksFront.agree
      · intro member inFront
        apply sameNext member (List.mem_append_left _ inFront)
        intro isLast
        rw [List.getLast?_concat, Option.some.injEq] at isLast
        exact nodup.2.2 member inFront cell (List.mem_singleton.mpr rfl) isLast.symm
      · exact fun member inFront => samePrev member (List.mem_append_left _ inFront)
    · exact (samePrev cell (by simp)).trans toPrev

/-- Another cell before the first one. -/
theorem setBefore {cells : List Place} {other : Option Place}
    (links : Links next prev before cells behind) (nodup : cells.Nodup)
    (first : ∀ cell, cells.head? = some cell → prev' cell = other)
    (sameNext : ∀ cell ∈ cells, next' cell = next cell)
    (samePrev : ∀ cell ∈ cells, cells.head? ≠ some cell → prev' cell = prev cell) :
    Links next' prev' other cells behind := by
  cases cells with
  | nil => trivial
  | cons cell rest =>
      obtain ⟨_, toNext, linksRest⟩ := links
      rw [List.nodup_cons] at nodup
      refine ⟨first cell rfl, (sameNext cell List.mem_cons_self).trans toNext, ?_⟩
      apply linksRest.agree
      · exact fun member inRest => sameNext member (List.mem_cons_of_mem _ inRest)
      · intro member inRest
        apply samePrev member (List.mem_cons_of_mem _ inRest)
        intro isFirst
        rw [List.head?_cons, Option.some.injEq] at isFirst
        exact nodup.1 (isFirst ▸ inRest)

theorem follow_eq {cells : List Place} {turns : Nat}
    (links : Links next prev before cells none) (enough : cells.length ≤ turns) :
    follow next turns cells.head? = cells := by
  induction cells generalizing before turns with
  | nil => cases turns <;> rfl
  | cons cell cells induction =>
      obtain ⟨_, toNext, rest⟩ := links
      cases turns with
      | zero => exact absurd enough (Nat.not_succ_le_zero _)
      | succ turns =>
          rw [List.head?_cons, follow, toNext, Option.or_none,
            induction rest (Nat.le_of_succ_le_succ enough)]

section Edit

variable [DecidableEq Place]

/-- A cell is taken out. -/
theorem unlink {front back : List Place} {cell : Place}
    (links : Links next prev none (front ++ cell :: back) none)
    (nodup : (front ++ cell :: back).Nodup) :
    Links (unlinkNext next prev cell) (unlinkNext prev next cell) none (front ++ back) none := by
  obtain ⟨toPrev, toNext⟩ := links.around
  obtain ⟨linksFront, _, _, linksBack⟩ := append.mp links
  rw [List.nodup_append, List.nodup_cons] at nodup
  obtain ⟨frontNodup, ⟨notBack, backNodup⟩, apart⟩ := nodup
  rw [Option.or_none] at toPrev toNext
  refine append.mpr ⟨?_, ?_⟩
  · apply linksFront.setBehind frontNodup
    · intro last isLast
      rw [unlinkNext, toPrev, if_pos isLast, toNext, Option.or_none]
    · intro other _ notLast
      rw [unlinkNext, toPrev, if_neg notLast]
    · intro other inFront
      rw [unlinkNext, toNext, if_neg]
      intro isFirst
      exact apart other inFront other (List.mem_cons_of_mem _ (List.mem_of_mem_head? isFirst)) rfl
  · apply linksBack.setBefore backNodup
    · intro first isFirst
      rw [unlinkNext, toNext, if_pos isFirst, toPrev, Option.or_none]
    · intro other inBack
      rw [unlinkNext, toPrev, if_neg]
      intro isLast
      exact apart other (List.mem_of_getLast? isLast) other (List.mem_cons_of_mem _ inBack) rfl
    · intro other _ notFirst
      rw [unlinkNext, toNext, if_neg notFirst]

/-- A cell is put in front. -/
theorem push {cells : List Place} {cell : Place} (links : Links next prev none cells none)
    (nodup : cells.Nodup) (fresh : cell ∉ cells) :
    Links (pushNext next cells.head? cell) (pushPrev prev cells.head? cell) none (cell :: cells)
      none := by
  refine ⟨?_, ?_, ?_⟩
  · rw [pushPrev, if_pos rfl]
  · rw [pushNext, if_pos rfl, Option.or_none]
  · apply links.setBefore nodup
    · intro first isFirst
      have apart : first ≠ cell := fun same => fresh (same ▸ List.mem_of_mem_head? isFirst)
      rw [pushPrev, if_neg apart, if_pos isFirst]
    · intro other member
      have apart : other ≠ cell := fun same => fresh (same ▸ member)
      rw [pushNext, if_neg apart]
    · intro other member notFirst
      have apart : other ≠ cell := fun same => fresh (same ▸ member)
      rw [pushPrev, if_neg apart, if_neg notFirst]

/-- A cell is put behind the last one: the same edit, seen from the other end. -/
theorem snoc {cells : List Place} {cell : Place} (links : Links next prev none cells none)
    (nodup : cells.Nodup) (fresh : cell ∉ cells) :
    Links (pushPrev next cells.getLast? cell) (pushNext prev cells.getLast? cell) none
      (cells ++ [cell]) none := by
  refine append.mpr ⟨?_, ?_, ?_, trivial⟩
  · apply links.setBehind nodup
    · intro last isLast
      have apart : last ≠ cell := fun same => fresh (same ▸ List.mem_of_getLast? isLast)
      rw [pushPrev, if_neg apart, if_pos isLast]
      rfl
    · intro other member notLast
      have apart : other ≠ cell := fun same => fresh (same ▸ member)
      rw [pushPrev, if_neg apart, if_neg notLast]
    · intro other member
      have apart : other ≠ cell := fun same => fresh (same ▸ member)
      rw [pushNext, if_neg apart]
  · rw [pushNext, if_pos rfl, Option.or_none]
  · rw [pushPrev, if_pos rfl]
    rfl

end Edit

end Links

end MuMQ.Data
