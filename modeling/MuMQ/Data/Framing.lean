namespace MuMQ.Data

/-! Cutting a stream into items and handing them on one after another. -/

/-- What stands at the front of a stream. -/
inductive Front (Byte Item : Type) where
  | item (value : Item) (rest : List Byte)
  | incomplete
  | malformed

/-- A way to find the item at the front of a stream. -/
structure Framing (Byte Item : Type) where
  next : List Byte → Front Byte Item
  shorter : ∀ {stream item rest}, next stream = .item item rest →
    rest.length < stream.length

namespace Framing

variable {Byte Item World : Type} (framing : Framing Byte Item)

/-- Hand each item of a stream to `handle` until it refuses one or the stream is
malformed; the result says whether neither happened. -/
def deliver (handle : World → Item → Bool × World) (world : World)
    (stream : List Byte) : Bool × World :=
  match _ : framing.next stream with
  | .item item rest =>
      match handle world item with
      | (true, world) => deliver handle world rest
      | (false, world) => (false, world)
  | .incomplete => (true, world)
  | .malformed => (false, world)
termination_by stream.length
decreasing_by exact framing.shorter ‹_›

/-- `holds` is true of the stream at every boundary between items. -/
def AtBoundaries (holds : List Byte → Prop) (stream : List Byte) : Prop :=
  holds stream ∧
    match _ : framing.next stream with
    | .item _ rest => AtBoundaries holds rest
    | _ => True
termination_by stream.length
decreasing_by exact framing.shorter ‹_›

variable {framing}

theorem deliver_item {handle : World → Item → Bool × World} {world : World}
    {stream rest : List Byte} {item : Item}
    (front : framing.next stream = .item item rest) :
    framing.deliver handle world stream =
      match handle world item with
      | (true, world) => framing.deliver handle world rest
      | (false, world) => (false, world) := by
  rw [deliver]
  split
  · rename_i found
    rw [front] at found
    cases found
    rfl
  · rename_i found
    rw [front] at found
    cases found
  · rename_i found
    rw [front] at found
    cases found

theorem deliver_incomplete {handle : World → Item → Bool × World} {world : World}
    {stream : List Byte} (front : framing.next stream = .incomplete) :
    framing.deliver handle world stream = (true, world) := by
  rw [deliver]
  split <;> simp_all

theorem deliver_malformed {handle : World → Item → Bool × World} {world : World}
    {stream : List Byte} (front : framing.next stream = .malformed) :
    framing.deliver handle world stream = (false, world) := by
  rw [deliver]
  split <;> simp_all

theorem AtBoundaries.here {holds : List Byte → Prop} {stream : List Byte}
    (everywhere : framing.AtBoundaries holds stream) : holds stream := by
  rw [AtBoundaries] at everywhere
  exact everywhere.1

theorem AtBoundaries.behind {holds : List Byte → Prop} {stream rest : List Byte}
    {item : Item} (everywhere : framing.AtBoundaries holds stream)
    (front : framing.next stream = .item item rest) :
    framing.AtBoundaries holds rest := by
  rw [AtBoundaries] at everywhere
  have tail := everywhere.2
  split at tail
  · rename_i found
    rw [front] at found
    cases found
    exact tail
  · rename_i other
    exact absurd front (other item rest)

theorem AtBoundaries.item {holds : List Byte → Prop} {stream rest : List Byte}
    {item : Item} (here : holds stream) (front : framing.next stream = .item item rest)
    (behind : framing.AtBoundaries holds rest) :
    framing.AtBoundaries holds stream := by
  rw [AtBoundaries]
  refine ⟨here, ?_⟩
  split
  · rename_i found
    rw [front] at found
    cases found
    exact behind
  · trivial

theorem AtBoundaries.incomplete {holds : List Byte → Prop} {stream : List Byte}
    (here : holds stream) (front : framing.next stream = .incomplete) :
    framing.AtBoundaries holds stream := by
  rw [AtBoundaries]
  refine ⟨here, ?_⟩
  split
  · rename_i found
    rw [front] at found
    cases found
  · trivial

variable (framing) in
/-- The items stand one after another at the front of a stream, before `rest`. -/
inductive Cuts : List Byte → List Item → List Byte → Prop
  | nil (stream : List Byte) : Cuts stream [] stream
  | cons {stream middle rest : List Byte} {item : Item} {items : List Item}
      (front : framing.next stream = .item item middle) (later : Cuts middle items rest) :
      Cuts stream (item :: items) rest

theorem Cuts.snoc {stream middle rest : List Byte} {items : List Item} {item : Item}
    (cuts : framing.Cuts stream items middle) (front : framing.next middle = .item item rest) :
    framing.Cuts stream (items ++ [item]) rest := by
  induction cuts with
  | nil => exact .cons front (.nil rest)
  | cons first _ induction => exact .cons first (induction front)

theorem AtBoundaries.cut {holds : List Byte → Prop} {stream rest : List Byte}
    {items : List Item} (everywhere : framing.AtBoundaries holds stream)
    (cuts : framing.Cuts stream items rest) : framing.AtBoundaries holds rest := by
  induction cuts with
  | nil => exact everywhere
  | cons front _ induction => exact induction (everywhere.behind front)

end Framing

end MuMQ.Data
