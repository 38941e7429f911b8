import Mathlib.Data.Nat.Basic
import Mathlib.Algebra.Group.Nat.Defs

namespace MuMQ.Data

theorem forall_byte {property : UInt8 → Prop}
    (all : ∀ number < 256, property (UInt8.ofNat number)) (byte : UInt8) :
    property byte := by
  have ofByte := all byte.toNat byte.toNat_lt
  rwa [UInt8.ofNat_toNat] at ofByte

theorem and_255_eq (number : Nat) : number &&& 255 = number % 256 :=
  Nat.and_two_pow_sub_one_eq_mod number 8

/-! Variable-length numbers: base-128 digits, the lowest first, every digit but
the last marked by its top bit. -/

namespace Base128

/-- The digits of a number, at least one. -/
def encode (number : Nat) : List UInt8 :=
  if number < 128 then [UInt8.ofNat number]
  else UInt8.ofNat (number % 128 + 128) :: encode (number / 128)
termination_by number

/-- Reading a number of at most a given number of digits. -/
inductive Decoded where
  | value (number : Nat) (rest : List UInt8)
  | incomplete
  | overlong
  deriving DecidableEq

namespace Decoded

/-- Put a further low digit in front of a decoded number. -/
def shift (digit : Nat) : Decoded → Decoded
  | .value number rest => .value (digit + 128 * number) rest
  | .incomplete => .incomplete
  | .overlong => .overlong

end Decoded

/-- Read digits until one has its top bit clear; a digit past the `limit`th is an
error. -/
def decode : Nat → List UInt8 → Decoded
  | _, [] => .incomplete
  | 0, _ :: _ => .overlong
  | limit + 1, byte :: rest =>
      if byte.toNat < 128 then .value byte.toNat rest
      else (decode limit rest).shift (byte.toNat % 128)

theorem encode_of_lt {number : Nat} (small : number < 128) :
    encode number = [UInt8.ofNat number] := by
  rw [encode, if_pos small]

theorem encode_of_le {number : Nat} (large : 128 ≤ number) :
    encode number = UInt8.ofNat (number % 128 + 128) :: encode (number / 128) := by
  rw [encode, if_neg (by omega)]

theorem encode_ne_nil (number : Nat) : encode number ≠ [] := by
  rw [encode]
  split <;> simp

/-- Digits within the limit read back as the number they came from. -/
theorem decode_encode (limit number : Nat) (rest : List UInt8)
    (bounded : number < 128 ^ (limit + 1)) :
    decode (limit + 1) (encode number ++ rest) = .value number rest := by
  induction limit generalizing number with
  | zero =>
      have small : number < 128 := by simpa using bounded
      rw [encode_of_lt small, List.singleton_append, decode,
        UInt8.toNat_ofNat_of_lt' (by show number < 256; omega), if_pos small]
  | succ limit induction =>
      by_cases small : number < 128
      · rw [encode_of_lt small, List.singleton_append, decode,
          UInt8.toNat_ofNat_of_lt' (by show number < 256; omega), if_pos small]
      · have tailBounded : number / 128 < 128 ^ (limit + 1) := by
          rw [Nat.div_lt_iff_lt_mul (by omega), ← Nat.pow_succ]
          exact bounded
        have digit :
            (UInt8.ofNat (number % 128 + 128)).toNat = number % 128 + 128 :=
          UInt8.toNat_ofNat_of_lt' (by show number % 128 + 128 < 256; omega)
        rw [encode_of_le (by omega), List.cons_append, decode, digit,
          if_neg (by omega), induction (number / 128) tailBounded]
        simp only [Decoded.shift, Decoded.value.injEq, and_true]
        omega

/-- The number that digits stand for. -/
def value : List UInt8 → Nat
  | [] => 0
  | digit :: rest => digit.toNat % 128 + 128 * value rest

/-- Every digit has its top bit set, so that more digits follow. -/
def Continued (digits : List UInt8) : Prop := ∀ digit ∈ digits, 128 ≤ digit.toNat

/-- Digits that end with the first that has its top bit clear. -/
def Delimited (digits : List UInt8) : Prop :=
  ∃ front last, digits = front ++ [last] ∧ Continued front ∧ last.toNat < 128

theorem encode_delimited (number : Nat) : Delimited (encode number) := by
  induction number using Nat.strongRecOn with
  | ind number induction =>
      by_cases small : number < 128
      · rw [encode_of_lt small]
        refine ⟨[], UInt8.ofNat number, rfl, List.forall_mem_nil _, ?_⟩
        rwa [UInt8.toNat_ofNat_of_lt' (show number < 256 by omega)]
      · obtain ⟨front, last, split, continued, clear⟩ := induction (number / 128) (by omega)
        rw [encode_of_le (by omega), split]
        refine ⟨UInt8.ofNat (number % 128 + 128) :: front, last, rfl, ?_, clear⟩
        intro digit member
        rcases List.mem_cons.mp member with rfl | inFront
        · rw [UInt8.toNat_ofNat_of_lt' (show number % 128 + 128 < 256 by omega)]
          omega
        · exact continued digit inFront

theorem value_append (digits : List UInt8) (digit : UInt8) :
    value (digits ++ [digit]) =
      value digits + (digit.toNat % 128) * 128 ^ digits.length := by
  induction digits with
  | nil => simp [value]
  | cons first rest induction =>
      rw [List.cons_append, value, value, induction, List.length_cons, Nat.pow_succ]
      rw [Nat.mul_add, Nat.add_assoc]
      congr 2
      rw [Nat.mul_comm (128 ^ rest.length), ← Nat.mul_assoc, ← Nat.mul_assoc,
        Nat.mul_comm 128]

theorem value_lt (digits : List UInt8) : value digits < 128 ^ digits.length := by
  induction digits with
  | nil => simp [value]
  | cons digit rest induction =>
      have digitSmall := Nat.mod_lt digit.toNat (by omega : 128 > 0)
      rw [value, List.length_cons, Nat.pow_succ]
      omega

theorem Continued.tail {digit : UInt8} {digits : List UInt8}
    (continued : Continued (digit :: digits)) : Continued digits :=
  fun other member => continued other (by simp [member])

theorem decode_continued {digits : List UInt8} {limit : Nat}
    (continued : Continued digits) (fits : digits.length ≤ limit) :
    decode limit digits = .incomplete := by
  induction digits generalizing limit with
  | nil => cases limit <;> rfl
  | cons digit rest induction =>
      cases limit with
      | zero => simp at fits
      | succ limit =>
          have large := continued digit (by simp)
          rw [decode, if_neg (by omega),
            induction continued.tail (by simpa using fits)]
          rfl

theorem decode_last {digits : List UInt8} {limit : Nat} {digit : UInt8}
    (continued : Continued digits) (fits : digits.length < limit)
    (last : digit.toNat < 128) (rest : List UInt8) :
    decode limit (digits ++ digit :: rest) = .value (value (digits ++ [digit])) rest := by
  induction digits generalizing limit with
  | nil =>
      cases limit with
      | zero => simp at fits
      | succ limit =>
          rw [List.nil_append, decode, if_pos last]
          simp [value, Nat.mod_eq_of_lt last]
  | cons first others induction =>
      cases limit with
      | zero => simp at fits
      | succ limit =>
          have large := continued first (by simp)
          rw [List.cons_append, decode, if_neg (by omega),
            induction continued.tail (by simpa using fits)]
          rfl

theorem Delimited.decode {digits : List UInt8} {limit : Nat} (delimited : Delimited digits)
    (fits : digits.length ≤ limit) (rest : List UInt8) :
    decode limit (digits ++ rest) = .value (value digits) rest := by
  obtain ⟨front, last, rfl, continued, clear⟩ := delimited
  rw [List.length_append, List.length_singleton] at fits
  rw [List.append_assoc]
  exact decode_last continued (by omega) clear rest

theorem decode_overlong {digits : List UInt8} {limit : Nat} (digit : UInt8)
    (continued : Continued digits) (full : digits.length = limit)
    (rest : List UInt8) :
    decode limit (digits ++ digit :: rest) = .overlong := by
  induction digits generalizing limit with
  | nil =>
      subst full
      rfl
  | cons first others induction =>
      cases limit with
      | zero => simp at full
      | succ limit =>
          have large := continued first (by simp)
          rw [List.cons_append, decode, if_neg (by omega),
            induction continued.tail (by simpa using full)]
          rfl

theorem length_decode {limit number : Nat} {bytes rest : List UInt8}
    (decoded : decode limit bytes = .value number rest) :
    rest.length < bytes.length := by
  induction limit generalizing bytes number with
  | zero => cases bytes <;> cases decoded
  | succ limit induction =>
      cases bytes with
      | nil => cases decoded
      | cons byte bytes =>
          rw [decode] at decoded
          split at decoded
          · cases decoded
            simp
          · cases tail : decode limit bytes with
            | value other remainder =>
                rw [tail] at decoded
                cases decoded
                have shorter := induction tail
                simp only [List.length_cons]
                omega
            | incomplete =>
                rw [tail] at decoded
                cases decoded
            | overlong =>
                rw [tail] at decoded
                cases decoded

theorem decode_lt {limit number : Nat} {bytes rest : List UInt8}
    (decoded : decode limit bytes = .value number rest) : number < 128 ^ limit := by
  induction limit generalizing bytes number with
  | zero => cases bytes <;> cases decoded
  | succ limit induction =>
      have positive : 0 < 128 ^ limit := Nat.pow_pos (by decide)
      cases bytes with
      | nil => cases decoded
      | cons byte bytes =>
          rw [decode] at decoded
          rw [Nat.pow_succ]
          split at decoded
          · cases decoded
            omega
          · cases tail : decode limit bytes with
            | value other remainder =>
                rw [tail] at decoded
                cases decoded
                have small := induction tail
                have digit := Nat.mod_lt byte.toNat (show 0 < 128 by decide)
                omega
            | incomplete =>
                rw [tail] at decoded
                cases decoded
            | overlong =>
                rw [tail] at decoded
                cases decoded

/-- The number of digits is the least that holds the number. -/
theorem length_encode_le_iff (limit number : Nat) :
    (encode number).length ≤ limit + 1 ↔ number < 128 ^ (limit + 1) := by
  induction limit generalizing number with
  | zero =>
      by_cases small : number < 128
      · simp [encode_of_lt small, small]
      · have tailNonempty :=
          List.length_pos_iff.mpr (encode_ne_nil (number / 128))
        rw [encode_of_le (by omega), List.length_cons]
        constructor
        · intro fits
          omega
        · intro bounded
          exact absurd (by simpa using bounded) small
  | succ limit induction =>
      by_cases small : number < 128
      · have bounded : number < 128 ^ (limit + 1 + 1) :=
          Nat.lt_of_lt_of_le small (by
            rw [Nat.pow_succ]
            exact Nat.le_mul_of_pos_left 128 (Nat.pow_pos (by omega)))
        simp [encode_of_lt small, bounded]
      · rw [encode_of_le (by omega), List.length_cons, Nat.succ_le_succ_iff,
          induction, Nat.div_lt_iff_lt_mul (by omega), ← Nat.pow_succ]

end Base128

end MuMQ.Data
