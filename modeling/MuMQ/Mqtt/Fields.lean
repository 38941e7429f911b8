import MuMQ.Mqtt.PublishParse

namespace MuMQ

/-! The reads of the parser, each as a statement about the bytes behind the cursor. -/

/-- A string on the wire: its length in two bytes, the high one first, and its bytes. -/
def lengthPrefixed (string : List UInt8) : List UInt8 :=
  wordBytes (UInt16.ofNat string.length) ++ string

theorem length_lengthPrefixed (string : List UInt8) :
    (lengthPrefixed string).length = 2 + string.length := by
  rw [lengthPrefixed, List.length_append, length_wordBytes]

/-- A buffer holds these bytes and no others. -/
structure MqttBuffer.Holds (buffer : MqttBuffer) (string : List UInt8) : Prop where
  length : buffer.length.toNat = string.length
  bytes : buffer.bytes = string

theorem MqttBuffer.holds_empty : MqttBuffer.empty.Holds [] := ⟨rfl, rfl⟩

theorem MqttBuffer.holds_append {string after : List UInt8} (short : string.length < 2 ^ 32) :
    MqttBuffer.Holds ⟨UInt32.ofNat string.length, some (string ++ after)⟩ string where
  length := UInt32.toNat_ofNat_of_lt' short
  bytes := by
    show (string ++ after).take (UInt32.ofNat string.length).toNat = string
    rw [UInt32.toNat_ofNat_of_lt' short, List.take_left]

theorem wordOfBytes_toNat (high low : UInt8) :
    (wordOfBytes high low).toNat = high.toNat * 256 + low.toNat := by
  have highSmall := high.toNat_lt
  have lowSmall := low.toNat_lt
  simp only [wordOfBytes, UInt16.toNat_add, UInt16.toNat_shiftLeft, UInt8.toNat_toUInt16,
    UInt16.reduceToNat, Nat.reduceMod, Nat.shiftLeft_eq]
  omega

theorem wordBytes_wordOfBytes (high low : UInt8) :
    wordBytes (wordOfBytes high low) = [high, low] := by
  have word := wordOfBytes_toNat high low
  have lowSmall := low.toNat_lt
  have highSmall := high.toNat_lt
  have highEq : (wordOfBytes high low >>> 8).toUInt8 = high := by
    apply UInt8.toNat_inj.mp
    simp only [UInt16.toNat_toUInt8, UInt16.toNat_shiftRight, UInt16.reduceToNat, word,
      Nat.reduceMod, Nat.shiftRight_eq_div_pow]
    omega
  have lowEq : (wordOfBytes high low &&& 0xff).toUInt8 = low := by
    apply UInt8.toNat_inj.mp
    simp only [UInt16.toNat_toUInt8, UInt16.toNat_and, UInt16.reduceToNat, word,
      Data.and_255_eq]
    omega
  rw [wordBytes, highEq, lowEq]

section Positions

variable {data before rest : List UInt8} {nread : Nat} (bounded : data.length < 2 ^ 64)
  (split : data = before ++ rest)
include bounded split

private theorem left_over : sizeSub data.length before.length = rest.length := by
  rw [sizeSub_of_le (by rw [split, List.length_append]; omega) bounded, split,
    List.length_append]
  omega

omit bounded in
private theorem byteAt_behind (index : Nat) :
    byteAt (some data) (before.length + index) = rest[index]? := by
  rw [byteAt, Option.bind_some, split, List.getElem?_append_right (Nat.le_add_right _ _),
    Nat.add_sub_cancel_left]

omit bounded in
theorem behind_iff {field after : List UInt8} :
    data = before ++ field ++ after ↔ rest = field ++ after := by
  rw [split, List.append_assoc, List.append_cancel_left_eq]

theorem readByte_iff {byte : UInt8} :
    readByte (some data) data.length before.length = .field byte nread ↔
      ∃ after, data = before ++ [byte] ++ after ∧ nread = (before ++ [byte]).length := by
  simp only [behind_iff split, List.singleton_append]
  rw [readByte, left_over bounded split, ← Nat.add_zero before.length,
    byteAt_behind split]
  cases rest with
  | nil => simp
  | cons first after =>
      simp only [List.length_cons, List.getElem?_cons_zero, Nat.add_zero, List.length_append,
        List.length_nil, Nat.zero_add]
      rw [if_neg (by omega), FieldRead.field.injEq]
      constructor
      · rintro ⟨rfl, rfl⟩
        exact ⟨after, rfl, rfl⟩
      · rintro ⟨_, same, rfl⟩
        cases same
        exact ⟨rfl, rfl⟩

theorem readPair_iff {pair : UInt8 × UInt8} :
    readPair (some data) data.length before.length = .field pair nread ↔
      ∃ after, data = before ++ wordBytes (wordOfBytes pair.1 pair.2) ++ after ∧
        nread = (before ++ wordBytes (wordOfBytes pair.1 pair.2)).length := by
  simp only [behind_iff split]
  have highAt := byteAt_behind split 0
  have lowAt := byteAt_behind split 1
  rw [Nat.add_zero] at highAt
  rw [readPair, left_over bounded split, highAt, lowAt, wordBytes_wordOfBytes]
  rcases rest with _ | ⟨high, _ | ⟨low, after⟩⟩
  · simp
  · simp
  · simp only [List.length_cons, List.getElem?_cons_zero, List.getElem?_cons_succ,
      List.length_append, List.length_nil]
    rw [if_neg (by omega), FieldRead.field.injEq]
    constructor
    · rintro ⟨rfl, rfl⟩
      exact ⟨after, rfl, rfl⟩
    · rintro ⟨_, same, rfl⟩
      cases same
      exact ⟨rfl, rfl⟩

theorem readString_iff {parsed : MqttBuffer} :
    readString (some data) data.length before.length = .field parsed nread ↔
      ∃ string after, string.length ≤ 65535 ∧ data = before ++ lengthPrefixed string ++ after ∧
        parsed = ⟨UInt32.ofNat string.length, some (string ++ after)⟩ ∧
        nread = (before ++ lengthPrefixed string).length := by
  simp only [behind_iff split]
  constructor
  · intro read
    have highAt := byteAt_behind split 0
    have lowAt := byteAt_behind split 1
    rw [Nat.add_zero] at highAt
    rw [readString, left_over bounded split, highAt, lowAt] at read
    have within : rest.length ≤ data.length := by
      rw [split, List.length_append]
      omega
    generalize countEq : rest.length = count at read within
    rcases rest with _ | ⟨high, _ | ⟨low, after⟩⟩
    · simp [← countEq] at read
    · simp [← countEq] at read
    · simp only [List.getElem?_cons_zero, List.getElem?_cons_succ] at read
      simp only [List.length_cons] at countEq
      rw [if_neg (by omega), sizeSub_of_le (by omega) (by omega)] at read
      have word := wordOfBytes_toNat high low
      have small := (wordOfBytes high low).toNat_lt
      by_cases short : count - 2 < high.toNat * 256 + low.toNat
      · rw [if_pos short] at read
        cases read
      · rw [if_neg short, FieldRead.field.injEq] at read
        have length : (after.take (wordOfBytes high low).toNat).length =
            (wordOfBytes high low).toNat := by
          rw [List.length_take]
          omega
        have behind : data.drop (before.length + 2) = after := by
          rw [split, List.drop_append]
          simp
        refine ⟨after.take (wordOfBytes high low).toNat,
          after.drop (wordOfBytes high low).toNat, by omega, ?_, ?_, ?_⟩
        · rw [lengthPrefixed, length, UInt16.ofNat_toNat, wordBytes_wordOfBytes,
            List.append_assoc, List.take_append_drop]
          rfl
        · rw [← read.1, length, word, List.take_append_drop, Option.map_some, behind]
        · rw [← read.2, List.length_append, length_lengthPrefixed, length, word]
  · rintro ⟨string, after, short, rfl, rfl, rfl⟩
    rw [lengthPrefixed, List.append_assoc] at split
    rw [readString_wordBytes bounded short split, List.length_append, length_lengthPrefixed]

theorem readMessage_iff {length : UInt32} {parsed : MqttBuffer} :
    readMessage (some data) data.length before.length length = .field parsed nread ↔
      length.toNat ≤ rest.length ∧ parsed = ⟨length, some rest⟩ ∧
        nread = before.length + length.toNat := by
  rw [readMessage, left_over bounded split]
  have behind : data.drop before.length = rest := by rw [split, List.drop_left]
  by_cases short : rest.length < length.toNat
  · rw [if_pos short]
    constructor
    · intro read
      cases read
    · rintro ⟨fits, _⟩
      omega
  · rw [if_neg short, FieldRead.field.injEq, Option.map_some, behind]
    constructor
    · rintro ⟨rfl, rfl⟩
      exact ⟨by omega, rfl, rfl⟩
    · rintro ⟨_, rfl, rfl⟩
      exact ⟨rfl, rfl⟩

end Positions

end MuMQ
