import MuMQ.Broker.Framing
import MuMQ.Mqtt.FrameSize

namespace MuMQ

open Data

/-! The remaining length as `mqtt_serialiser_write` writes it, `mqtt_serialiser_size` counts
it and the loop of `loop_read` reads it. -/

/-- The length, the multiplier and the count after these bytes, all of them as numbers
without a width. -/
structure DecodedSoFar (bytes : List UInt8) (reader : Reader) : Prop where
  length : reader.packet.length.toNat = Base128.value bytes
  mult : reader.remainingMult.toNat = 128 ^ bytes.length
  count : reader.remainingCount.toInt = -(bytes.length : Int)

/-- What the loop is entered with for the first time in a packet. -/
structure LengthFresh (reader : Reader) : Prop where
  length : reader.packet.length = 0
  mult : reader.remainingMult = 1
  count : reader.remainingCount = 0

/-- The receptions with which the loop over the remaining length is entered, for the first
time or after it blocked. -/
inductive LengthCalls (start : Reception) : Reception → Prop
  | start : LengthCalls start start
  | blocked {middle after : Reception} {answers : List RecvAnswer}
      (calls : LengthCalls start middle)
      (returns : lengthLoop middle answers = .returns 1 after) : LengthCalls start after

theorem countAfter_toInt : ∀ digits ≤ 5, (countAfter digits).toInt = -(digits : Int) := by
  decide

section Loop

variable {bytes : List UInt8} {reader : Reader}

theorem DecodedSoFar.remainingCount (soFar : DecodedSoFar bytes reader)
    (fits : bytes.length ≤ 4) : reader.remainingCount = countAfter bytes.length :=
  Int8.toInt_inj.mp (soFar.count.trans (countAfter_toInt _ (by omega)).symm)

theorem pow_128_le {digits : Nat} (fits : digits ≤ 4) : 128 ^ digits ≤ 268435456 :=
  Nat.pow_le_pow_right (by omega : 0 < 128) fits

theorem DecodedSoFar.addDigit (soFar : DecodedSoFar bytes reader) (fits : bytes.length < 4)
    (byte : UInt8) : DecodedSoFar (bytes ++ [byte]) (reader.countDown.addDigit byte) where
  length := by
    have total := Base128.value_append bytes byte
    have bounded := Base128.value_lt (bytes ++ [byte])
    have longer : (bytes ++ [byte]).length ≤ 4 := by
      rw [List.length_append, List.length_singleton]
      omega
    have small := pow_128_le longer
    have digit : ((byte &&& 127).toUInt32 * reader.remainingMult).toNat =
        byte.toNat % 128 * 128 ^ bytes.length := by
      have masked : (byte &&& 127).toNat = byte.toNat % 128 :=
        Nat.and_two_pow_sub_one_eq_mod byte.toNat 7
      rw [UInt32.toNat_mul, UInt8.toNat_toUInt32, masked, soFar.mult]
      exact Nat.mod_eq_of_lt (by omega)
    show (reader.countDown.packet.length + _).toNat = _
    have front : reader.countDown.packet.length.toNat = Base128.value bytes := soFar.length
    rw [UInt32.toNat_add, front]
    show (Base128.value bytes + ((byte &&& 127).toUInt32 * reader.remainingMult).toNat) % _ = _
    rw [digit, ← total]
    exact Nat.mod_eq_of_lt (by omega)
  mult := by
    have small := pow_128_le (by omega : bytes.length + 1 ≤ 4)
    show (reader.remainingMult * 128).toNat = _
    rw [UInt32.toNat_mul, soFar.mult, List.length_append, List.length_singleton, Nat.pow_succ]
    rw [Nat.pow_succ] at small
    exact Nat.mod_eq_of_lt (Nat.lt_of_le_of_lt small (by decide))
  count := by
    show (reader.remainingCount - 1).toInt = _
    rw [soFar.remainingCount (by omega), countAfter_succ _ (by omega),
      countAfter_toInt _ (by omega), List.length_append, List.length_singleton]

/-- How the loop can leave a length of which `bytes` are there already. -/
inductive DecodeOutcome (bytes : List UInt8) (before : Reception) : ReadStage → Prop
  | ends {value : Int} {after : Reception} (more : List UInt8) (accepted : value ≠ -1)
      (split : before.incoming = more ++ after.incoming)
      (continued : Base128.Continued (bytes ++ more)) (fits : (bytes ++ more).length ≤ 4)
      (soFar : DecodedSoFar (bytes ++ more) after.reader) :
      DecodeOutcome bytes before (.returns value after)
  | overlong {after : Reception} (more : List UInt8) (last : UInt8)
      (split : before.incoming = more ++ last :: after.incoming)
      (continued : Base128.Continued (bytes ++ more)) (full : (bytes ++ more).length = 4) :
      DecodeOutcome bytes before (.returns (-1) after)
  | stops {rlen : Int} {others : List RecvAnswer} {after : Reception} (more : List UInt8)
      (split : before.incoming = more ++ after.incoming)
      (delimited : Base128.Delimited (bytes ++ more))
      (fits : (bytes ++ more).length ≤ 4) (soFar : DecodedSoFar (bytes ++ more) after.reader) :
      DecodeOutcome bytes before (.goesOn rlen others after)

theorem DecodeOutcome.after_byte {byte : UInt8} {before middle : Reception} {stage : ReadStage}
    (outcome : DecodeOutcome (bytes ++ [byte]) middle stage)
    (split : before.incoming = byte :: middle.incoming) : DecodeOutcome bytes before stage := by
  cases outcome with
  | ends more accepted rest continued fits soFar =>
      rw [List.append_assoc] at continued fits soFar
      exact .ends (byte :: more) accepted (split.trans (congrArg (byte :: ·) rest)) continued fits
        soFar
  | overlong more last rest continued full =>
      rw [List.append_assoc] at continued full
      exact .overlong (byte :: more) last (split.trans (congrArg (byte :: ·) rest)) continued full
  | stops more rest delimited fits soFar =>
      rw [List.append_assoc] at delimited fits soFar
      exact .stops (byte :: more) (split.trans (congrArg (byte :: ·) rest)) delimited fits soFar

theorem recv_byte (answer : RecvAnswer) (incoming : List UInt8) :
    (∃ value, value ≠ -1 ∧ recv answer 1 incoming = .ended value) ∨
      ∃ byte rest, recv answer 1 incoming = .received [byte] rest ∧ incoming = byte :: rest := by
  cases answer with
  | bytes count =>
      cases incoming with
      | nil => exact .inl ⟨1, by decide, rfl⟩
      | cons byte rest =>
          have one : min (max count 1) 1 = 1 := by omega
          refine .inr ⟨byte, rest, ?_, rfl⟩
          simp only [recv, one]
          rfl
  | eof => exact .inl ⟨0, by decide, rfl⟩
  | again => exact .inl ⟨1, by decide, rfl⟩
  | reset => exact .inl ⟨0, by decide, rfl⟩
  | failed => exact .inl ⟨-3, by decide, rfl⟩

theorem lengthLoop_received {reception : Reception} {answer : RecvAnswer} {byte : UInt8}
    {rest : List UInt8} (soFar : DecodedSoFar bytes reception.reader) (fits : bytes.length ≤ 4)
    (received : recv answer 1 reception.incoming = .received [byte] rest)
    (others : List RecvAnswer) :
    lengthLoop reception (answer :: others) =
      if bytes.length = 4 then
        .returns (-1) { reception with reader := reception.reader.countDown, incoming := rest }
      else if 128 ≤ byte.toNat then
        lengthLoop
          { reception with reader := reception.reader.countDown.addDigit byte, incoming := rest }
          others
      else
        .goesOn 1 others
          { reception with
            reader := reception.reader.countDown.addDigit byte, incoming := rest } := by
  have counted : reception.reader.countDown.remainingCount = countAfter (bytes.length + 1) := by
    show reception.reader.remainingCount - 1 = _
    rw [soFar.remainingCount fits, countAfter_succ _ fits]
  rw [lengthLoop, received]
  simp only [counted, countAfter_lt _ fits, List.headD_cons, top_bit]
  rfl

theorem lengthLoop_decodes {reception : Reception}
    (continued : Base128.Continued bytes) (fits : bytes.length ≤ 4)
    (soFar : DecodedSoFar bytes reception.reader) (answers : List RecvAnswer) :
    DecodeOutcome bytes reception (lengthLoop reception answers) := by
  induction answers generalizing reception bytes with
  | nil =>
      refine .ends [] (by decide) rfl ?_ ?_ ?_ <;> rwa [List.append_nil]
  | cons answer others induction =>
      rcases recv_byte answer reception.incoming with
        ⟨value, accepted, ended⟩ | ⟨byte, rest, received, split⟩
      · rw [lengthLoop, ended]
        refine .ends [] accepted rfl ?_ ?_ ?_ <;> rwa [List.append_nil]
      · rw [lengthLoop_received soFar fits received]
        by_cases full : bytes.length = 4
        · rw [if_pos full]
          refine .overlong [] byte split ?_ ?_ <;> rwa [List.append_nil]
        · rw [if_neg full]
          have longer := soFar.addDigit (by omega) byte
          have length : (bytes ++ [byte]).length ≤ 4 := by
            rw [List.length_append, List.length_singleton]
            omega
          by_cases more : 128 ≤ byte.toNat
          · rw [if_pos more]
            have stillContinued : Base128.Continued (bytes ++ [byte]) := by
              intro digit member
              rcases List.mem_append.mp member with earlier | last
              · exact continued digit earlier
              · rw [List.mem_singleton.mp last]
                exact more
            exact DecodeOutcome.after_byte (induction stillContinued length longer) split
          · rw [if_neg more]
            exact .stops [byte] split ⟨bytes, byte, rfl, continued, by omega⟩ length longer

/-- Answered with a byte each time, the loop stops behind delimited bytes. -/
theorem lengthLoop_stops {front rest : List UInt8} {last : UInt8} {reception : Reception}
    (soFar : DecodedSoFar bytes reception.reader) (fits : bytes.length + front.length < 4)
    (continued : Base128.Continued front) (clear : last.toNat < 128)
    (incoming : reception.incoming = front ++ last :: rest) :
    ∃ answers after, lengthLoop reception answers = .goesOn 1 [] after := by
  induction front generalizing reception bytes with
  | nil =>
      have received : recv (.bytes 1) 1 reception.incoming = .received [last] rest := by
        rw [incoming]
        rfl
      refine ⟨[.bytes 1],
        ⟨reception.reader.countDown.addDigit last, reception.memory, rest⟩, ?_⟩
      rw [lengthLoop_received soFar (by omega) received, if_neg (by omega), if_neg (by omega)]
  | cons byte front induction =>
      rw [List.length_cons] at fits
      have received : recv (.bytes 1) 1 reception.incoming =
          .received [byte] (front ++ last :: rest) := by
        rw [incoming]
        rfl
      have longer : (bytes ++ [byte]).length + front.length < 4 := by
        rw [List.length_append, List.length_singleton]
        omega
      obtain ⟨answers, after, stops⟩ :=
        @induction (bytes ++ [byte])
          ⟨reception.reader.countDown.addDigit byte, reception.memory, front ++ last :: rest⟩
          (soFar.addDigit (by omega) byte) longer continued.tail rfl
      refine ⟨.bytes 1 :: answers, after, ?_⟩
      rw [lengthLoop_received soFar (by omega) received, if_neg (by omega),
        if_pos (continued byte List.mem_cons_self)]
      exact stops

end Loop

section Calls

variable {start middle after : Reception} (fresh : LengthFresh start.reader)
include fresh

theorem LengthFresh.soFar : DecodedSoFar [] start.reader where
  length := by rw [fresh.length]; rfl
  mult := by rw [fresh.mult]; rfl
  count := by rw [fresh.count]; rfl

theorem LengthCalls.decodes (calls : LengthCalls start middle) :
    ∃ bytes, start.incoming = bytes ++ middle.incoming ∧ Base128.Continued bytes ∧
      bytes.length ≤ 4 ∧ DecodedSoFar bytes middle.reader := by
  induction calls with
  | start => exact ⟨[], rfl, List.forall_mem_nil _, Nat.zero_le _, fresh.soFar⟩
  | @blocked middle after answers _ returns induction =>
      obtain ⟨bytes, split, continued, fits, soFar⟩ := induction
      have outcome := lengthLoop_decodes continued fits soFar answers
      rw [returns] at outcome
      cases outcome with
      | ends more _ rest continued fits soFar =>
          exact ⟨bytes ++ more, by rw [split, rest, List.append_assoc], continued, fits, soFar⟩

theorem LengthCalls.stops (calls : LengthCalls start middle) {answers others : List RecvAnswer}
    {rlen : Int} (stops : lengthLoop middle answers = .goesOn rlen others after) :
    ∃ bytes, start.incoming = bytes ++ after.incoming ∧ Base128.Delimited bytes ∧
      bytes.length ≤ 4 ∧ DecodedSoFar bytes after.reader := by
  obtain ⟨bytes, split, continued, fits, soFar⟩ := calls.decodes fresh
  have outcome := lengthLoop_decodes continued fits soFar answers
  rw [stops] at outcome
  cases outcome with
  | stops more rest delimited fits soFar =>
      exact ⟨bytes ++ more, by rw [split, rest, List.append_assoc], delimited, fits, soFar⟩

/-- The digits of a number are never one byte too many. -/
theorem LengthCalls.no_error {digits rest : List UInt8} (calls : LengthCalls start middle)
    (delimited : Base128.Delimited digits) (short : digits.length ≤ 4)
    (incoming : start.incoming = digits ++ rest) (answers : List RecvAnswer) :
    lengthLoop middle answers ≠ .returns (-1) after := by
  intro returns
  obtain ⟨bytes, split, continued, fits, soFar⟩ := calls.decodes fresh
  have outcome := lengthLoop_decodes continued fits soFar answers
  rw [returns] at outcome
  cases outcome with
  | ends more accepted _ _ _ _ => exact accepted rfl
  | overlong more last next continued full =>
      have overlong := Base128.decode_overlong last continued full after.incoming
      have decoded := delimited.decode short rest
      rw [← incoming, split, next, ← List.append_assoc, overlong] at decoded
      cases decoded

end Calls

/-- `mqtt_serialiser_write` writes a length in one to four digits, `mqtt_serialiser_size`
counts as many, and the loop of `loop_read` stops behind them with that length; whatever
other bytes the loop stops behind are at most four, and nothing wraps on the way. -/
theorem remainingLength_agrees :
    (∀ message : Message, message.length ≤ 268435455 →
      ∃ digits : List UInt8, 1 ≤ digits.length ∧ digits.length ≤ 4 ∧
        Base128.Delimited digits ∧
        Cursor.Writes (writeRemainingLength 5 message.length) digits ∧
        -- a length over the bound is counted with no digit
        mqttSerialiserSize message =
          mqttSerialiserSize { message with length := 268435456 } + digits.length ∧
        ∀ (start : Reception) (rest : List UInt8), LengthFresh start.reader →
          start.incoming = digits ++ rest →
          (∃ answers after, lengthLoop start answers = .goesOn 1 [] after) ∧
          ∀ middle, LengthCalls start middle → ∀ answers,
            (∀ after, lengthLoop middle answers ≠ .returns (-1) after) ∧
            ∀ rlen others after, lengthLoop middle answers = .goesOn rlen others after →
              after.incoming = rest ∧ after.reader.packet.length = message.length) ∧
    (∀ start middle : Reception, LengthFresh start.reader → LengthCalls start middle →
      (∃ bytes, start.incoming = bytes ++ middle.incoming ∧ bytes.length ≤ 4 ∧
        DecodedSoFar bytes middle.reader) ∧
      ∀ answers rlen others after, lengthLoop middle answers = .goesOn rlen others after →
        ∃ bytes, start.incoming = bytes ++ after.incoming ∧ Base128.Delimited bytes ∧
          bytes.length ≤ 4 ∧ Base128.value bytes ≤ 268435455 ∧
          DecodedSoFar bytes after.reader) := by
  refine ⟨fun message bounded => ?_, fun start middle fresh calls => ⟨?_, ?_⟩⟩
  · have bound : message.length.toNat < 128 ^ (3 + 1) := by
      have small := UInt32.le_iff_toNat_le.mp bounded
      exact Nat.lt_of_le_of_lt small (by decide)
    have delimited := Base128.encode_delimited message.length.toNat
    have short := (Base128.length_encode_le_iff 3 message.length.toNat).mpr bound
    refine ⟨Base128.encode message.length.toNat,
      List.length_pos_iff.mpr (Base128.encode_ne_nil _), short, delimited,
      writeRemainingLength_writes 4 message.length
        (Nat.lt_of_lt_of_le bound (Nat.pow_le_pow_right (by decide) (by decide))), ?_, ?_⟩
    · have counted : (headerBytes message).length = headerSize message.length :=
        length_headerBytes bounded
      rw [headerBytes, List.length_cons] at counted
      have beyond : headerSize 268435456 = 1 := by decide
      have sameBody : bodySize { message with length := 268435456 } = bodySize message := rfl
      rw [mqttSerialiserSize_eq message, mqttSerialiserSize_eq { message with length := _ },
        sameBody, beyond]
      omega
    · intro start rest fresh incoming
      refine ⟨?_, fun middle calls answers => ⟨fun after => ?_, ?_⟩⟩
      · obtain ⟨front, last, split, continued, clear⟩ := delimited
        rw [split] at short
        rw [split, List.append_assoc] at incoming
        rw [List.length_append, List.length_singleton] at short
        exact lengthLoop_stops fresh.soFar (by rw [List.length_nil]; omega) continued clear
          incoming
      · exact calls.no_error fresh delimited short incoming answers
      · intro rlen others after stops
        obtain ⟨bytes, split, ends, fits, soFar⟩ := calls.stops fresh stops
        have decoded := ends.decode fits after.incoming
        rw [← split, incoming, Base128.decode_encode 3 _ rest bound] at decoded
        injection decoded with same rests
        exact ⟨rests.symm, UInt32.toNat_inj.mp (soFar.length.trans same.symm)⟩
  · obtain ⟨bytes, split, _, fits, soFar⟩ := calls.decodes fresh
    exact ⟨bytes, split, fits, soFar⟩
  · intro answers rlen others after stops
    obtain ⟨bytes, split, ends, fits, soFar⟩ := calls.stops fresh stops
    have small := Base128.value_lt bytes
    have power := pow_128_le fits
    exact ⟨bytes, split, ends, fits, by omega, soFar⟩

end MuMQ
