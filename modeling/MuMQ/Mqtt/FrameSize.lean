import MuMQ.Mqtt.ConnectBody

namespace MuMQ

open Data

/-! `mqtt_serialiser_size` counts the bytes that `mqtt_serialiser_write` stores. -/

/-- The strings that the serialiser copies into a packet. -/
def Message.copied (message : Message) : List MqttBuffer :=
  if message.type = mqttTypePublish then
    [message.publish.topicName, message.publish.content]
  else if message.type = mqttTypeConnect then
    let connect := message.connect
    [connect.protocolName, connect.clientId]
      ++ (if connect.flags.will ≠ 0 then [connect.willTopic, connect.willMessage] else [])
      ++ (if connect.flags.usernameFollows ≠ 0 then [connect.username] else [])
      ++ (if connect.flags.passwordFollows ≠ 0 then [connect.password] else [])
  else []

/-- As many bytes can be read from every one of these strings as its length says. -/
def Message.Copyable (message : Message) : Prop :=
  ∀ string ∈ message.copied, string.bytes.length = string.length.toNat

/-- The serialiser stores as many bytes as it counts, in the first cells of the buffer,
whatever these held, and none behind them. -/
def Fills (message : Message) : Prop :=
  (frameBytes message).length = mqttSerialiserSize message ∧
    ∀ room after : List UInt8, room.length = mqttSerialiserSize message →
      (mqttSerialiserWrite message (room ++ after)).2.buffer = frameBytes message ++ after ∧
        (mqttSerialiserWrite message (room ++ after)).2.overrun = false

/-- What `mqtt_serialiser_size` counts for the body. -/
def bodySize (message : Message) : Nat :=
  if message.type = mqttTypePublish then
    2 + message.publish.topicName.length.toNat + message.publish.content.length.toNat
  else if message.type = mqttTypeSuback then 3
  else if message.type = mqttTypeConnect then connectLength message.connect
  else if message.type = mqttTypeConnack then 2
  else 0

section Size

variable {message : Message}

theorem length_bodyBytes_publish (type : message.type = mqttTypePublish)
    (copyable : message.Copyable) :
    (bodyBytes message).length =
      2 + message.publish.topicName.length.toNat + message.publish.content.length.toNat := by
  rw [Message.Copyable, Message.copied, if_pos type] at copyable
  rw [bodyBytes, if_pos type, List.length_append,
    length_stringBytes (copyable _ (.head _)), copyable _ (.tail _ (.head _))]

theorem length_bodyBytes_connect (type : message.type = mqttTypeConnect)
    (copyable : message.Copyable) :
    (bodyBytes message).length = connectLength message.connect := by
  have notPublish : message.type ≠ mqttTypePublish := by rw [type]; decide
  have notSuback : message.type ≠ mqttTypeSuback := by rw [type]; decide
  rw [Message.Copyable, Message.copied, if_neg notPublish, if_pos type] at copyable
  simp only [List.mem_append] at copyable
  have will (string : MqttBuffer)
      (member : string ∈ [message.connect.willTopic, message.connect.willMessage])
      (follows : message.connect.flags.will ≠ 0) :
      string.bytes.length = string.length.toNat :=
    copyable _ (.inl (.inl (.inr (by rwa [if_pos follows]))))
  have username (follows : message.connect.flags.usernameFollows ≠ 0) :
      message.connect.username.bytes.length = message.connect.username.length.toNat :=
    copyable _ (.inl (.inr (by rw [if_pos follows]; exact .head _)))
  have password (follows : message.connect.flags.passwordFollows ≠ 0) :
      message.connect.password.bytes.length = message.connect.password.length.toNat :=
    copyable _ (.inr (by rw [if_pos follows]; exact .head _))
  rw [bodyBytes, if_neg notPublish, if_neg notSuback, if_pos type]
  exact length_connectBody (copyable _ (.inl (.inl (.inl (.head _)))))
    (copyable _ (.inl (.inl (.inl (.tail _ (.head _)))))) (will _ (.head _))
    (will _ (.tail _ (.head _))) username password

theorem length_bodyBytes (copyable : message.Copyable) :
    (bodyBytes message).length = bodySize message := by
  by_cases publish : message.type = mqttTypePublish
  · rw [bodySize, if_pos publish, length_bodyBytes_publish publish copyable]
  · by_cases connect : message.type = mqttTypeConnect
    · have notSuback : message.type ≠ mqttTypeSuback := by rw [connect]; decide
      rw [bodySize, if_neg publish, if_neg notSuback, if_pos connect,
        length_bodyBytes_connect connect copyable]
    · rw [bodySize, bodyBytes, if_neg publish, if_neg publish, if_neg connect, if_neg connect]
      split
      · rfl
      · split <;> rfl

theorem mqttSerialiserSize_eq (message : Message) :
    mqttSerialiserSize message = headerSize message.length + bodySize message := by
  unfold mqttSerialiserSize bodySize
  by_cases publish : message.type = mqttTypePublish
  · simp only [if_pos publish, headerSize]
    omega
  · by_cases suback : message.type = mqttTypeSuback
    · simp only [if_neg publish, if_pos suback, headerSize]
    · by_cases connect : message.type = mqttTypeConnect
      · simp only [if_neg publish, if_neg suback, if_pos connect, connectLength, headerSize]
        generalize (if message.length ≤ 127 then 1 + 1 else if message.length ≤ 16383 then 1 + 2
          else if message.length ≤ 2097151 then 1 + 3
          else if message.length ≤ 268435455 then 1 + 4 else 1) = header
        split <;> split <;> split <;> omega
      · by_cases connack : message.type = mqttTypeConnack
        · simp only [if_neg publish, if_neg suback, if_neg connect, if_pos connack, headerSize]
        · simp only [if_neg publish, if_neg suback, if_neg connect, if_neg connack, headerSize,
            Nat.add_zero]

theorem length_frameBytes (bounded : message.length ≤ 268435455)
    (copyable : message.Copyable) :
    (frameBytes message).length = mqttSerialiserSize message := by
  have header : (headerBytes message).length = headerSize message.length :=
    length_headerBytes bounded
  rw [frameBytes, List.length_append, header, length_bodyBytes copyable, mqttSerialiserSize_eq]

theorem fills_of_reached (bounded : message.length ≤ 268435455) (copyable : message.Copyable)
    (reached : mqttSerialiserSize message ≤ 2 ^ 32) : Fills message := by
  have size := length_frameBytes bounded copyable
  refine ⟨size, fun room after fits => ?_⟩
  exact mqttSerialiserWrite_frame message (size ▸ reached) (fits.trans size.symm) after

end Size

/-! A packet that the offset does not reach the end of. -/

/-- A PUBLISH of a topic and the content `b`. -/
def publishOfTopic (topic : List UInt8) : Message :=
  { Message.zero with
    type := mqttTypePublish
    length := 5
    publish := ⟨⟨UInt32.ofNat topic.length, some topic⟩, 0, ⟨1, some [0x62]⟩⟩ }

theorem publishOfTopic_type (topic : List UInt8) :
    (publishOfTopic topic).type = mqttTypePublish := rfl

theorem writeHeader_publishOfTopic (topic : List UInt8) (cursor : Cursor UInt8) :
    writeHeader (publishOfTopic topic) cursor = (cursor.put 0x30).put 5 := by
  have last : ¬ (publishOfTopic topic).length / 128 > 0 :=
    show ¬ (5 : UInt32) / 128 > 0 by decide
  rw [writeHeader, writeRemainingLength, if_neg last]
  rfl

section Wraps

variable {topic : List UInt8} (long : topic.length = 2 ^ 32 - 4)
include long

theorem publishOfTopic_bytes :
    (publishOfTopic topic).publish.topicName.length.toNat = topic.length ∧
      (publishOfTopic topic).publish.topicName.bytes = topic := by
  have length : (UInt32.ofNat topic.length).toNat = topic.length :=
    UInt32.toNat_ofNat_of_lt' (show topic.length < 2 ^ 32 by omega)
  exact ⟨length, bytes_of_whole length.symm⟩

theorem publishOfTopic_copyable : (publishOfTopic topic).Copyable := by
  obtain ⟨length, bytes⟩ := publishOfTopic_bytes long
  intro string member
  rw [Message.copied, if_pos (publishOfTopic_type topic)] at member
  rcases List.mem_cons.mp member with rfl | content
  · rw [bytes, length]
  · rw [List.mem_singleton.mp content]
    rfl

/-- The content is stored over the control byte. -/
theorem publishOfTopic_head {buffer : List UInt8} (room : 0 < buffer.length) :
    (mqttSerialiserWrite (publishOfTopic topic) buffer).2.buffer.head? = some 0x62 := by
  obtain ⟨_, bytes⟩ := publishOfTopic_bytes long
  have writes : (mqttSerialiserWrite (publishOfTopic topic) buffer).2 =
      (writeString (publishOfTopic topic).publish.topicName
        (((Cursor.start buffer).put 0x30).put 5)).memcpy [0x62] := by
    simp only [mqttSerialiserWrite, if_pos (publishOfTopic_type topic),
      writeHeader_publishOfTopic]
    rfl
  rw [writes]
  generalize cursorEq : writeString (publishOfTopic topic).publish.topicName
    (((Cursor.start buffer).put 0x30).put 5) = cursor
  have offset : cursor.offset = 0 := by
    rw [← cursorEq, writeString, Cursor.copy, bytes, long]
    simp only [Cursor.put, Cursor.start]
    omega
  have cells : cursor.buffer.length = buffer.length := by
    rw [← cursorEq, writeString, Cursor.copy, Cursor.memcpy, Cursor.length_store]
    simp [Cursor.put, Cursor.start]
  simp only [Cursor.memcpy, Cursor.store, offset]
  cases stored : cursor.buffer with
  | nil =>
      rw [stored, List.length_nil] at cells
      omega
  | cons cell rest => rfl

theorem publishOfTopic_not_fills : ¬ Fills (publishOfTopic topic) := by
  rintro ⟨size, fills⟩
  have positive : 0 < mqttSerialiserSize (publishOfTopic topic) := by
    rw [← size, frameBytes, headerBytes, List.cons_append, List.length_cons]
    omega
  obtain ⟨written, _⟩ := fills
    (List.replicate (mqttSerialiserSize (publishOfTopic topic)) 0) [] List.length_replicate
  have head := publishOfTopic_head long
    (show 0 < (List.replicate (mqttSerialiserSize (publishOfTopic topic)) (0 : UInt8) ++
      []).length by rwa [List.append_nil, List.length_replicate])
  rw [written] at head
  exact absurd head (show ¬ some 0x30 = some (0x62 : UInt8) by decide)

end Wraps

/-- The topic is four bytes short of the offset's range. -/
theorem fills_longTopic :
    (publishOfTopic (List.replicate (2 ^ 32 - 4) 0x61)).type = mqttTypePublish ∧
      (publishOfTopic (List.replicate (2 ^ 32 - 4) 0x61)).qos = 0 ∧
      (publishOfTopic (List.replicate (2 ^ 32 - 4) 0x61)).length ≤ 268435455 ∧
      (publishOfTopic (List.replicate (2 ^ 32 - 4) 0x61)).Copyable ∧
      ¬ Fills (publishOfTopic (List.replicate (2 ^ 32 - 4) 0x61)) :=
  ⟨rfl, rfl, show (5 : UInt32) ≤ 268435455 by decide,
    publishOfTopic_copyable List.length_replicate,
    publishOfTopic_not_fills List.length_replicate⟩

end MuMQ
