import Mathlib.Algebra.Group.Nat.Defs

namespace MuMQ.Data

/-! Sequential stores into a buffer through a moving offset of 32 bits. -/

/-- A buffer, the offset of the next store, and whether a store missed the buffer. -/
structure Cursor (α : Type) where
  buffer : List α
  offset : Nat
  overrun : Bool
  deriving DecidableEq

namespace Cursor

variable {α : Type}

/-- The cursor at the start of a buffer. -/
def start (buffer : List α) : Cursor α := ⟨buffer, 0, false⟩

/-- `buffer[offset++] = value`. -/
def put (value : α) (cursor : Cursor α) : Cursor α where
  buffer := cursor.buffer.set cursor.offset value
  offset := (cursor.offset + 1) % 2 ^ 32
  overrun := cursor.overrun || decide (cursor.buffer.length ≤ cursor.offset)

/-- The values in the cells from an offset on, as far as there are cells. -/
def store : List α → Nat → List α → List α
  | [], _, buffer => buffer
  | value :: rest, offset, buffer => store rest (offset + 1) (buffer.set offset value)

/-- `memcpy(&buffer[offset], values, ...)`, the offset staying where it is. -/
def memcpy (values : List α) (cursor : Cursor α) : Cursor α where
  buffer := store values cursor.offset cursor.buffer
  offset := cursor.offset
  overrun := cursor.overrun ||
    decide (cursor.buffer.length - cursor.offset < values.length)

/-- `memcpy(&buffer[offset], values, ...); offset += ...`. -/
def copy (values : List α) (cursor : Cursor α) : Cursor α :=
  { cursor.memcpy values with offset := (cursor.offset + values.length) % 2 ^ 32 }

/-- A writer fills the next `values.length` cells with `values` and moves past
them, whatever the buffer held there and wherever the cursor stands, as long as the offset
reaches them. -/
def Writes (write : Cursor α → Cursor α) (values : List α) : Prop :=
  ∀ (before room after : List α) (overrun : Bool),
    room.length = values.length → before.length + values.length ≤ 2 ^ 32 →
    write ⟨before ++ room ++ after, before.length % 2 ^ 32, overrun⟩ =
      ⟨before ++ values ++ after, (before.length + values.length) % 2 ^ 32, overrun⟩

theorem length_store (values buffer : List α) (offset : Nat) :
    (store values offset buffer).length = buffer.length := by
  induction values generalizing offset buffer with
  | nil => rfl
  | cons value rest induction => rw [store, induction, List.length_set]

theorem store_append {values before room after : List α}
    (fits : room.length = values.length) :
    store values before.length (before ++ room ++ after) = before ++ values ++ after := by
  induction values generalizing before room with
  | nil =>
      have empty : room = [] := List.length_eq_zero_iff.mp fits
      rw [store, empty]
  | cons value rest induction =>
      cases room with
      | nil => cases fits
      | cons old room =>
          have set : (before ++ (old :: room) ++ after).set before.length value =
              (before ++ [value]) ++ room ++ after := by
            simp
          have moved : before.length + 1 = (before ++ [value]).length := by simp
          rw [store, set, moved, induction (Nat.succ.inj fits)]
          simp

theorem Writes.nil : Writes (fun cursor => cursor) ([] : List α) := by
  intro before room after overrun fits bounded
  have empty : room = [] := List.length_eq_zero_iff.mp fits
  simp [empty]

theorem Writes.put (value : α) : Writes (Cursor.put value) [value] := by
  intro before room after overrun fits bounded
  obtain ⟨old, rfl⟩ := List.length_eq_one_iff.mp fits
  have reached : before.length % 2 ^ 32 = before.length := by
    rw [List.length_singleton] at bounded
    exact Nat.mod_eq_of_lt bounded
  have inside :
      ¬ (before ++ [old] ++ after).length ≤ before.length := by
    simp only [List.length_append, List.length_singleton]
    omega
  simp only [Cursor.put, reached, decide_eq_false inside, Bool.or_false]
  simp

/-- A copy that the offset reaches, with the room that the buffer has for it. -/
theorem memcpy_append {values before room after : List α} (overrun : Bool)
    (fits : room.length = values.length) (bounded : before.length + values.length ≤ 2 ^ 32) :
    memcpy values ⟨before ++ room ++ after, before.length % 2 ^ 32, overrun⟩ =
      ⟨before ++ values ++ after, before.length % 2 ^ 32, overrun⟩ := by
  cases values with
  | nil =>
      have empty : room = [] := List.length_eq_zero_iff.mp fits
      simp [memcpy, store, empty]
  | cons value rest =>
      have reached : before.length % 2 ^ 32 = before.length := by
        rw [List.length_cons] at bounded
        exact Nat.mod_eq_of_lt (by omega)
      have inside : ¬ (before ++ room ++ after).length - before.length <
          (value :: rest).length := by
        simp only [List.length_append, fits]
        omega
      simp only [memcpy, reached, store_append fits, decide_eq_false inside, Bool.or_false]

theorem Writes.copy (values : List α) : Writes (Cursor.copy values) values := by
  intro before room after overrun fits bounded
  simp only [Cursor.copy, memcpy_append overrun fits bounded, Nat.mod_add_mod]

theorem Writes.append {first second : Cursor α → Cursor α}
    {left right : List α} (firstWrites : Writes first left)
    (secondWrites : Writes second right) :
    Writes (fun cursor => second (first cursor)) (left ++ right) := by
  intro before room after overrun fits bounded
  rw [List.length_append] at fits bounded
  obtain ⟨roomLeft, roomRight, rfl, leftFits⟩ :
      ∃ roomLeft roomRight, room = roomLeft ++ roomRight ∧
        roomLeft.length = left.length :=
    ⟨room.take left.length, room.drop left.length, by simp, by
      simp only [List.length_take]
      omega⟩
  have rightFits : roomRight.length = right.length := by
    rw [List.length_append] at fits
    omega
  have afterFirst :=
    firstWrites before roomLeft (roomRight ++ after) overrun leftFits (by omega)
  have afterSecond :=
    secondWrites (before ++ left) roomRight after overrun rightFits (by
      rw [List.length_append]
      omega)
  simp only [List.append_assoc, List.length_append] at afterFirst afterSecond ⊢
  rw [afterFirst, afterSecond]
  simp [Nat.add_assoc]

section Fill

variable {write : Cursor α → Cursor α} {values tail room : List α}
  (writes : Writes write values)
include writes

/-- A writer fills the room at the start of a buffer, and stores nothing behind it. -/
theorem Writes.fill (bounded : values.length ≤ 2 ^ 32) (fits : room.length = values.length)
    (after : List α) :
    write (start (room ++ after)) = ⟨values ++ after, values.length % 2 ^ 32, false⟩ := by
  simpa [start] using writes [] room after false fits (by simpa using bounded)

/-- The final `memcpy` of a writer need not move the offset. -/
theorem Writes.fill_memcpy (bounded : (values ++ tail).length ≤ 2 ^ 32)
    (fits : room.length = (values ++ tail).length) (after : List α) :
    memcpy tail (write (start (room ++ after))) =
      ⟨values ++ tail ++ after, values.length % 2 ^ 32, false⟩ := by
  rw [List.length_append] at bounded
  obtain ⟨front, back, rfl, frontFits⟩ :
      ∃ front back, room = front ++ back ∧ front.length = values.length :=
    ⟨room.take values.length, room.drop values.length, by simp, by
      simp only [List.length_take, List.length_append] at fits ⊢
      omega⟩
  have backFits : back.length = tail.length := by
    rw [List.length_append, List.length_append] at fits
    omega
  rw [List.append_assoc, writes.fill (by omega) frontFits, ← List.append_assoc]
  exact memcpy_append false backFits bounded

end Fill

/-- The first cell, if there is one, holds `first`, and the cursor is past it, within a
limit. -/
structure Past (first : α) (limit : Nat) (cursor : Cursor α) : Prop where
  head : ∀ value ∈ cursor.buffer.head?, value = first
  moved : 0 < cursor.offset
  within : cursor.offset ≤ limit

theorem head?_set_succ (buffer : List α) (offset : Nat) (value : α) :
    (buffer.set (offset + 1) value).head? = buffer.head? := by
  cases buffer with
  | nil => rfl
  | cons cell rest => rfl

theorem head?_store (values buffer : List α) {offset : Nat} (moved : 0 < offset) :
    (store values offset buffer).head? = buffer.head? := by
  induction values generalizing offset buffer with
  | nil => rfl
  | cons value rest induction =>
      obtain ⟨position, rfl⟩ := Nat.exists_eq_succ_of_ne_zero (Nat.pos_iff_ne_zero.mp moved)
      rw [store, induction _ (Nat.succ_pos _), head?_set_succ]

theorem Past.start_put (first : α) (buffer : List α) :
    Past first 1 ((start buffer).put first) where
  head value member := by
    cases buffer with
    | nil => cases member
    | cons cell rest => exact (Option.some.inj member).symm
  moved := Nat.zero_lt_one
  within := Nat.le_refl 1

section Past

variable {first : α} {limit : Nat} {cursor : Cursor α}

theorem Past.put (past : Past first limit cursor) (value : α)
    (small : limit + 1 < 2 ^ 32) : Past first (limit + 1) (cursor.put value) := by
  have within := past.within
  have offset : (cursor.put value).offset = cursor.offset + 1 :=
    Nat.mod_eq_of_lt (by omega)
  obtain ⟨position, moved⟩ := Nat.exists_eq_succ_of_ne_zero (Nat.pos_iff_ne_zero.mp past.moved)
  refine ⟨fun found member => past.head found ?_, by omega, by omega⟩
  rwa [Cursor.put, moved, head?_set_succ] at member

theorem Past.memcpy (past : Past first limit cursor) (values : List α) :
    Past first limit (cursor.memcpy values) where
  head found member := by
    rw [Cursor.memcpy, head?_store values _ past.moved] at member
    exact past.head found member
  moved := past.moved
  within := past.within

theorem Past.copy (past : Past first limit cursor) (values : List α)
    (small : limit + values.length < 2 ^ 32) :
    Past first (limit + values.length) (Cursor.copy values cursor) := by
  have within := past.within
  have moved := past.moved
  have offset : (Cursor.copy values cursor).offset = cursor.offset + values.length :=
    Nat.mod_eq_of_lt (by omega)
  exact ⟨(past.memcpy values).head, by omega, by omega⟩

theorem Past.mono {more : Nat} (past : Past first limit cursor) (order : limit ≤ more) :
    Past first more cursor :=
  ⟨past.head, past.moved, Nat.le_trans past.within order⟩

end Past

end Cursor

end MuMQ.Data
