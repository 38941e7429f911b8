import MuMQ.Mqtt.Serialiser

namespace MuMQ

open Data

/-! The bytes `mqtt_serialiser_write` writes, and their number. -/

def controlByte (message : Message) : UInt8 :=
  message.retain + (message.qos <<< 1) + (message.dup <<< 3) + (message.type <<< 4)

/-- The control byte and the remaining length. -/
def headerBytes (message : Message) : List UInt8 :=
  controlByte message :: Base128.encode message.length.toNat

/-- A string as `WRITE_STRING` writes it. -/
def stringBytes (name : MqttBuffer) : List UInt8 :=
  (name.length / 0xff).toUInt8 :: (name.length &&& 0xff).toUInt8 :: name.bytes

/-- An optional string. -/
def optionalBytes (follows : UInt8) (bytes : List UInt8) : List UInt8 :=
  if follows ≠ 0 then bytes else []

def connectBody (connect : ConnectFields) : List UInt8 :=
  stringBytes connect.protocolName
    ++ [connect.protocolVersion, connectFlagsByte connect.flags,
      (connect.keepAlive >>> 8).toUInt8, (connect.keepAlive &&& 0xff).toUInt8]
    ++ stringBytes connect.clientId
    ++ optionalBytes connect.flags.will
      (stringBytes connect.willTopic ++ stringBytes connect.willMessage)
    ++ optionalBytes connect.flags.usernameFollows (stringBytes connect.username)
    ++ optionalBytes connect.flags.passwordFollows (stringBytes connect.password)

private theorem digit_eq (number : UInt32) :
    (number % 128).toUInt8 = UInt8.ofNat (number.toNat % 128) := by
  apply UInt8.toNat_inj.mp
  rw [UInt32.toNat_toUInt8, UInt32.toNat_mod]
  simp

private theorem marked_digit (number : UInt32) :
    (number % 128).toUInt8 ||| 0x80 = UInt8.ofNat (number.toNat % 128 + 128) := by
  have marked : ∀ digit < 128, UInt8.ofNat digit ||| 0x80 = UInt8.ofNat (digit + 128) := by
    decide +kernel
  rw [digit_eq]
  exact marked _ (Nat.mod_lt _ (by omega))

theorem writeRemainingLength_writes (turns : Nat) (number : UInt32)
    (bounded : number.toNat < 128 ^ (turns + 1)) :
    Cursor.Writes (writeRemainingLength (turns + 1) number)
      (Base128.encode number.toNat) := by
  induction turns generalizing number with
  | zero =>
      have small : number.toNat < 128 := by simpa using bounded
      have last : ¬ number / 128 > 0 := by
        rw [gt_iff_lt, UInt32.lt_iff_toNat_lt, UInt32.toNat_div]
        simp only [UInt32.toNat_zero, UInt32.reduceToNat]
        omega
      rw [Base128.encode_of_lt small]
      intro before room after overrun fits reached
      rw [writeRemainingLength, if_neg last, digit_eq, Nat.mod_eq_of_lt small]
      exact Cursor.Writes.put _ before room after overrun fits reached
  | succ turns induction =>
      have quotient : (number / 128).toNat = number.toNat / 128 := by
        rw [UInt32.toNat_div]
        rfl
      by_cases small : number.toNat < 128
      · have last : ¬ number / 128 > 0 := by
          rw [gt_iff_lt, UInt32.lt_iff_toNat_lt, quotient, UInt32.toNat_zero]
          omega
        rw [Base128.encode_of_lt small]
        intro before room after overrun fits reached
        rw [writeRemainingLength, if_neg last, digit_eq, Nat.mod_eq_of_lt small]
        exact Cursor.Writes.put _ before room after overrun fits reached
      · have more : number / 128 > 0 := by
          rw [gt_iff_lt, UInt32.lt_iff_toNat_lt, quotient, UInt32.toNat_zero]
          omega
        have rest := induction (number / 128) (by
          rw [quotient, Nat.div_lt_iff_lt_mul (by omega), ← Nat.pow_succ]
          exact bounded)
        have both := (Cursor.Writes.put (UInt8.ofNat (number.toNat % 128 + 128))).append
          rest
        rw [Base128.encode_of_le (by omega), ← quotient]
        intro before room after overrun fits reached
        rw [writeRemainingLength, if_pos more, marked_digit]
        exact both before room after overrun fits reached

theorem writeHeader_writes (message : Message) :
    Cursor.Writes (writeHeader message) (headerBytes message) :=
  (Cursor.Writes.put (controlByte message)).append
    (writeRemainingLength_writes 4 message.length (by
      have bounded := message.length.toNat_lt
      omega))

theorem length_headerBytes_le (message : Message) : (headerBytes message).length ≤ 6 := by
  have digits := Base128.length_encode_le_iff 4 message.length.toNat
  have bounded := message.length.toNat_lt
  rw [headerBytes, List.length_cons]
  omega

theorem writeString_writes (name : MqttBuffer) :
    Cursor.Writes (writeString name) (stringBytes name) :=
  (Cursor.Writes.put _).append ((Cursor.Writes.put _).append (Cursor.Writes.copy _))

theorem optional_writes {write : Cursor UInt8 → Cursor UInt8} {bytes : List UInt8}
    (follows : UInt8) (writes : Cursor.Writes write bytes) :
    Cursor.Writes (fun cursor => if follows ≠ 0 then write cursor else cursor)
      (optionalBytes follows bytes) := by
  unfold optionalBytes
  by_cases present : follows ≠ 0
  · simpa only [if_pos present] using writes
  · simpa only [if_neg present] using Cursor.Writes.nil

theorem writeConnect_writes (connect : ConnectFields) :
    Cursor.Writes (writeConnect connect) (connectBody connect) := by
  have fixed : Cursor.Writes
      (fun cursor => (((cursor.put connect.protocolVersion).put
        (connectFlagsByte connect.flags)).put (connect.keepAlive >>> 8).toUInt8).put
          (connect.keepAlive &&& 0xff).toUInt8)
      [connect.protocolVersion, connectFlagsByte connect.flags,
        (connect.keepAlive >>> 8).toUInt8, (connect.keepAlive &&& 0xff).toUInt8] :=
    (((Cursor.Writes.put _).append (Cursor.Writes.put _)).append
      (Cursor.Writes.put _)).append (Cursor.Writes.put _)
  have will := optional_writes connect.flags.will
    ((writeString_writes connect.willTopic).append
      (writeString_writes connect.willMessage))
  have username := optional_writes connect.flags.usernameFollows
    (writeString_writes connect.username)
  have password := optional_writes connect.flags.passwordFollows
    (writeString_writes connect.password)
  exact (((((writeString_writes connect.protocolName).append fixed).append
    (writeString_writes connect.clientId)).append will).append username).append
      password

def subackBody (suback : SubackFields) : List UInt8 :=
  [(suback.messageId >>> 8).toUInt8, (suback.messageId &&& 0xff).toUInt8, suback.returnCode]

/-- The bytes behind the remaining length; a type without an arm has none. -/
def bodyBytes (message : Message) : List UInt8 :=
  if message.type = mqttTypePublish then
    stringBytes message.publish.topicName ++ message.publish.content.bytes
  else if message.type = mqttTypeSuback then subackBody message.suback
  else if message.type = mqttTypeConnect then connectBody message.connect
  else if message.type = mqttTypeConnack then
    [message.connack.unused, message.connack.returnCode]
  else []

def frameBytes (message : Message) : List UInt8 := headerBytes message ++ bodyBytes message

theorem frameBytes_publish {message : Message} (type : message.type = mqttTypePublish) :
    frameBytes message =
      headerBytes message ++ stringBytes message.publish.topicName
        ++ message.publish.content.bytes := by
  rw [frameBytes, bodyBytes, if_pos type, List.append_assoc]

theorem frameBytes_connect {message : Message} (type : message.type = mqttTypeConnect) :
    frameBytes message = headerBytes message ++ connectBody message.connect := by
  have notPublish : message.type ≠ mqttTypePublish := by rw [type]; decide
  have notSuback : message.type ≠ mqttTypeSuback := by rw [type]; decide
  rw [frameBytes, bodyBytes, if_neg notPublish, if_neg notSuback, if_pos type]

/-- The serialiser fills the first cells of a buffer with the frame, and stores nothing
behind them. -/
theorem mqttSerialiserWrite_frame (message : Message) {room : List UInt8}
    (reached : (frameBytes message).length ≤ 2 ^ 32)
    (fits : room.length = (frameBytes message).length) (after : List UInt8) :
    (mqttSerialiserWrite message (room ++ after)).2.buffer = frameBytes message ++ after ∧
      (mqttSerialiserWrite message (room ++ after)).2.overrun = false := by
  have header := writeHeader_writes message
  by_cases publish : message.type = mqttTypePublish
  · rw [frameBytes_publish publish] at reached fits ⊢
    have written := (header.append (writeString_writes message.publish.topicName)).fill_memcpy
      reached fits after
    simp only [mqttSerialiserWrite, if_pos publish]
    exact ⟨congrArg Cursor.buffer written, congrArg Cursor.overrun written⟩
  · unfold frameBytes bodyBytes at reached fits ⊢
    rw [if_neg publish] at reached fits ⊢
    simp only [mqttSerialiserWrite, if_neg publish]
    split at reached
    · rename_i suback
      simp only [if_pos suback] at fits ⊢
      have written := (((header.append
        (Cursor.Writes.put (message.suback.messageId >>> 8).toUInt8)).append
        (Cursor.Writes.put (message.suback.messageId &&& 0xff).toUInt8)).append
        (Cursor.Writes.put message.suback.returnCode))
      simp only [List.append_assoc, List.singleton_append] at written
      have filled := written.fill reached fits after
      exact ⟨congrArg Cursor.buffer filled, congrArg Cursor.overrun filled⟩
    · rename_i suback
      simp only [if_neg suback] at fits ⊢
      split at reached
      · rename_i connect
        simp only [if_pos connect] at fits ⊢
        have filled := (header.append (writeConnect_writes message.connect)).fill reached fits
          after
        exact ⟨congrArg Cursor.buffer filled, congrArg Cursor.overrun filled⟩
      · rename_i connect
        simp only [if_neg connect] at fits ⊢
        split at reached
        · rename_i connack
          simp only [if_pos connack] at fits ⊢
          have written := (header.append (Cursor.Writes.put message.connack.unused)).append
            (Cursor.Writes.put message.connack.returnCode)
          simp only [List.append_assoc, List.singleton_append] at written
          have filled := written.fill reached fits after
          exact ⟨congrArg Cursor.buffer filled, congrArg Cursor.overrun filled⟩
        · rename_i connack
          simp only [if_neg connack] at fits ⊢
          rw [List.append_nil] at reached fits ⊢
          have filled := header.fill reached fits after
          exact ⟨congrArg Cursor.buffer filled, congrArg Cursor.overrun filled⟩

theorem mqttSerialiserWrite_whole {message : Message} {buffer : List UInt8}
    (reached : (frameBytes message).length ≤ 2 ^ 32)
    (fits : buffer.length = (frameBytes message).length) :
    (mqttSerialiserWrite message buffer).2.buffer = frameBytes message ∧
      (mqttSerialiserWrite message buffer).2.overrun = false := by
  have written := mqttSerialiserWrite_frame message reached fits []
  rwa [List.append_nil, List.append_nil] at written

theorem writeRemainingLength_past {first : UInt8} (turns : Nat) {limit : Nat}
    {number : UInt32} {cursor : Cursor UInt8} (past : cursor.Past first limit)
    (small : limit + turns < 2 ^ 32) :
    (writeRemainingLength turns number cursor).Past first (limit + turns) := by
  induction turns generalizing limit number cursor with
  | zero => exact past
  | succ turns induction =>
      have stored := fun value => past.put value (by omega)
      rw [writeRemainingLength]
      split
      · rw [Nat.add_comm turns, ← Nat.add_assoc]
        exact induction (stored _) (by omega)
      · exact (stored _).mono (by omega)

/-- A PUBLISH begins with its control byte, as long as the offset does not come round to
it. -/
theorem mqttSerialiserWrite_head {message : Message} (type : message.type = mqttTypePublish)
    (short : message.publish.topicName.bytes.length ≤ 65535) (buffer : List UInt8) :
    ∀ control ∈ (mqttSerialiserWrite message buffer).2.buffer.head?,
      control = controlByte message := by
  have header : (writeHeader message (Cursor.start buffer)).Past (controlByte message) 6 :=
    writeRemainingLength_past 5 (Cursor.Past.start_put _ buffer) (by decide)
  simp only [mqttSerialiserWrite, if_pos type]
  exact ((((header.put _ (by decide)).put _ (by decide)).copy _ (by omega)).memcpy _).head

/-! The two length bytes of a string. -/

/-- The length of a string reads back, although `WRITE_STRING` divides by 255. -/
def LengthKept (length : Nat) : Prop := length / 256 + length % 256 < 255

instance (length : Nat) : Decidable (LengthKept length) :=
  inferInstanceAs (Decidable (_ < _))

theorem lengthBytes_iff {length : UInt32} (bounded : length.toNat ≤ 65535) :
    (length / 0xff).toUInt8.toNat * 256 + (length &&& 0xff).toUInt8.toNat =
        length.toNat ↔
      LengthKept length.toNat := by
  have high : (length / 0xff).toUInt8.toNat = length.toNat / 255 % 256 := by
    rw [UInt32.toNat_toUInt8, UInt32.toNat_div]
    rfl
  have low : (length &&& 0xff).toUInt8.toNat = length.toNat % 256 := by
    rw [UInt32.toNat_toUInt8, UInt32.toNat_and]
    show (length.toNat &&& 255) % 256 = _
    rw [Data.and_255_eq]
    omega
  rw [high, low, LengthKept]
  -- a length is 255 times its high byte, and a carry of its two bytes together
  have carry : length.toNat / 255 =
      length.toNat / 256 + (length.toNat / 256 + length.toNat % 256) / 255 := by
    have split : length.toNat =
        255 * (length.toNat / 256) + (length.toNat / 256 + length.toNat % 256) := by
      omega
    have divided := Nat.mul_add_div (by omega : 255 > 0) (length.toNat / 256)
      (length.toNat / 256 + length.toNat % 256)
    rwa [← split] at divided
  have noCarry : (length.toNat / 256 + length.toNat % 256) / 255 = 0 ↔
      length.toNat / 256 + length.toNat % 256 < 255 := by
    rw [Nat.div_eq_zero_iff]
    omega
  have smallCarry : (length.toNat / 256 + length.toNat % 256) / 255 ≤ 2 := by
    omega
  rw [carry, ← noCarry]
  generalize (length.toNat / 256 + length.toNat % 256) / 255 = extra at smallCarry
  omega

theorem bytes_of_whole {data : List UInt8} {length : UInt32}
    (whole : data.length = length.toNat) : (⟨length, some data⟩ : MqttBuffer).bytes = data := by
  rw [MqttBuffer.bytes, Option.getD_some, ← whole, List.take_length]

/-! `mqtt_serialiser_size`. -/

theorem length_headerBytes {message : Message} (bounded : message.length ≤ 268435455) :
    (headerBytes message).length =
      if message.length ≤ 127 then 1 + 1
      else if message.length ≤ 16383 then 1 + 2
      else if message.length ≤ 2097151 then 1 + 3
      else if message.length ≤ 268435455 then 1 + 4
      else 1 := by
  have one := Base128.length_encode_le_iff 0 message.length.toNat
  have two := Base128.length_encode_le_iff 1 message.length.toNat
  have three := Base128.length_encode_le_iff 2 message.length.toNat
  have four := Base128.length_encode_le_iff 3 message.length.toNat
  have some := List.length_pos_iff.mpr (Base128.encode_ne_nil message.length.toNat)
  simp only [UInt32.le_iff_toNat_le] at bounded ⊢
  simp only [UInt32.reduceToNat] at bounded ⊢
  rw [headerBytes, List.length_cons]
  split
  · omega
  · split
    · omega
    · split
      · omega
      · omega

/-- What `mqtt_serialiser_size` counts in front of the body. -/
def headerSize (length : UInt32) : Nat :=
  if length ≤ 127 then 1 + 1
  else if length ≤ 16383 then 1 + 2
  else if length ≤ 2097151 then 1 + 3
  else if length ≤ 268435455 then 1 + 4
  else 1

theorem length_stringBytes {name : MqttBuffer}
    (whole : name.bytes.length = name.length.toNat) :
    (stringBytes name).length = 2 + name.length.toNat := by
  simp only [stringBytes, List.length_cons, whole]
  omega

end MuMQ
