namespace MuMQ.Data

/-! Things that are dealt out to parts in equal shares, one more for the first parts, and
numbered part by part, the ones that are left over last. -/

namespace Shares

/-- The share of a part. -/
def share (total parts part : Nat) : Nat :=
  total / parts + if part < total % parts then 1 else 0

/-- The number of a thing, by its part and its position there. -/
def number (total parts part position : Nat) : Nat :=
  if position < total / parts then part * (total / parts) + position
  else parts * (total / parts) + part

section Number

variable {total parts part position : Nat}

theorem share_le (total : Nat) (within : part < parts) : share total parts part ≤ total := by
  have split := Nat.div_add_mod total parts
  have equal := Nat.le_mul_of_pos_left (total / parts) (Nat.zero_lt_of_lt within)
  unfold share
  split
  · omega
  · omega

/-- Behind the equal shares only one thing is left for a part, if any. -/
theorem leftOver (inside : position < share total parts part)
    (beyond : ¬ position < total / parts) :
    position = total / parts ∧ part < total % parts := by
  unfold share at inside
  split at inside
  · exact ⟨by omega, by assumption⟩
  · omega

theorem equal_lt (within : part < parts) (equal : position < total / parts) :
    part * (total / parts) + position < parts * (total / parts) := by
  have next : (part + 1) * (total / parts) ≤ parts * (total / parts) :=
    Nat.mul_le_mul_right _ within
  rw [Nat.add_mul, Nat.one_mul] at next
  omega

theorem number_lt (within : part < parts) (inside : position < share total parts part) :
    number total parts part position < total := by
  have split := Nat.div_add_mod total parts
  unfold number
  split
  · rename_i equal
    have front := equal_lt within equal
    omega
  · rename_i beyond
    obtain ⟨_, left⟩ := leftOver inside beyond
    omega

theorem number_inj {other otherPosition : Nat} (within : part < parts)
    (inside : position < share total parts part) (otherWithin : other < parts)
    (otherInside : otherPosition < share total parts other)
    (same : number total parts part position = number total parts other otherPosition) :
    part = other ∧ position = otherPosition := by
  unfold number at same
  split at same
  · rename_i equal
    split at same
    · rename_i otherEqual
      have positive : 0 < total / parts := by omega
      have quotient (front rest : Nat) (small : rest < total / parts) :
          (front * (total / parts) + rest) / (total / parts) = front := by
        rw [Nat.mul_comm, Nat.mul_add_div positive, Nat.div_eq_of_lt small, Nat.add_zero]
      have sameParts : part = other := by
        rw [← quotient part position equal, same, quotient other otherPosition otherEqual]
      subst sameParts
      exact ⟨rfl, by omega⟩
    · have front := equal_lt within equal
      omega
  · rename_i beyond
    split at same
    · rename_i otherEqual
      have front := equal_lt otherWithin otherEqual
      omega
    · rename_i otherOver
      obtain ⟨last, _⟩ := leftOver inside beyond
      obtain ⟨otherLast, _⟩ := leftOver otherInside otherOver
      exact ⟨by omega, by omega⟩

theorem exists_number {index : Nat} (some : 0 < parts) (inside : index < total) :
    ∃ part < parts, ∃ position < share total parts part,
      number total parts part position = index := by
  have split := Nat.div_add_mod total parts
  by_cases equal : index < parts * (total / parts)
  · have positive : 0 < total / parts := by
      rcases Nat.eq_zero_or_pos (total / parts) with zero | positive
      · rw [zero, Nat.mul_zero] at equal
        omega
      · exact positive
    have small := Nat.mod_lt index positive
    have divided := Nat.div_add_mod index (total / parts)
    refine ⟨index / (total / parts), (Nat.div_lt_iff_lt_mul positive).mpr equal,
      index % (total / parts), Nat.lt_of_lt_of_le small (Nat.le_add_right _ _), ?_⟩
    rw [number, if_pos small, Nat.mul_comm]
    exact divided
  · have left : index - parts * (total / parts) < total % parts := by omega
    have small := Nat.mod_lt total some
    refine ⟨index - parts * (total / parts), by omega, total / parts, ?_, ?_⟩
    · rw [share, if_pos left]
      exact Nat.lt_succ_self _
    · rw [number, if_neg (Nat.lt_irrefl _)]
      omega

end Number

end Shares

end MuMQ.Data
