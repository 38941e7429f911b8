import MuMQ.Broker.NewPacket

namespace MuMQ

open Data

/-! The frames that `ack_msg` makes, and those that `publish_msg` makes. -/

/-- The packet holds a frame of another type than PUBLISH. -/
def Packet.isReply (packet : Packet) : Bool :=
  match packet.sendBuf with
  | [] => false
  | control :: _ => decide (control >>> 4 ≠ mqttTypePublish)

/-- The frames of another type than PUBLISH. -/
def replyFrames (packets : List Packet) : List (List UInt8) :=
  (packets.filter Packet.isReply).map Packet.sendBuf

/-- The frames that answer a message with a return code, when a SUBSCRIBE has this
id. -/
def replyWith (messageId : UInt16) (message : Message) (retCode : UInt8) :
    List (List UInt8) :=
  if message.type = mqttTypeConnect then [[0x20, 2, 0, retCode]]
  else if message.type = mqttTypeSubscribe then
    [[0x90, 3, (messageId / 256).toUInt8, (messageId % 256).toUInt8, retCode]]
  else if message.type = mqttTypePingreq then [[0xd0, 0]]
  else []

theorem replyFrames_append (first second : List Packet) :
    replyFrames (first ++ second) = replyFrames first ++ replyFrames second := by
  rw [replyFrames, List.filter_append, List.map_append]
  rfl

theorem replyFrames_eq_nil {packets : List Packet}
    (publishes : ∀ packet ∈ packets, packet.isReply = false) : replyFrames packets = [] := by
  have none : packets.filter Packet.isReply = [] :=
    List.filter_eq_nil_iff.mpr fun packet member => by
      rw [publishes packet member]
      exact Bool.false_ne_true
  rw [replyFrames, none]
  rfl

theorem replyFrames_singleton {packet : Packet} {control : UInt8} {rest : List UInt8}
    (sendBuf : packet.sendBuf = control :: rest) (reply : control >>> 4 ≠ mqttTypePublish) :
    replyFrames [packet] = [control :: rest] := by
  have isReply : packet.isReply = true := by
    rw [Packet.isReply, sendBuf]
    exact decide_eq_true reply
  rw [replyFrames, List.filter_cons_of_pos isReply]
  exact congrArg (fun bytes => [bytes]) sendBuf

/-- A packet id matters only in the answer to a SUBSCRIBE. -/
theorem replyWith_of_ne {message : Message} (other : message.type ≠ mqttTypeSubscribe)
    (first second : UInt16) (retCode : UInt8) :
    replyWith first message retCode = replyWith second message retCode := by
  simp only [replyWith, if_neg other]

theorem replyWith_connect {message : Message} (type : message.type = mqttTypeConnect)
    (messageId : UInt16) (retCode : UInt8) :
    replyWith messageId message retCode = [[0x20, 2, 0, retCode]] := by
  rw [replyWith, if_pos type]

theorem replyWith_subscribe {message : Message} (type : message.type = mqttTypeSubscribe)
    (messageId : UInt16) (retCode : UInt8) :
    replyWith messageId message retCode =
      [[0x90, 3, (messageId / 256).toUInt8, (messageId % 256).toUInt8, retCode]] := by
  rw [replyWith, if_neg (by rw [type]; decide), if_pos type]

theorem replyWith_publish {message : Message} (type : message.type = mqttTypePublish)
    (messageId : UInt16) (retCode : UInt8) : replyWith messageId message retCode = [] := by
  rw [replyWith, if_neg (by rw [type]; decide), if_neg (by rw [type]; decide),
    if_neg (by rw [type]; decide)]

theorem highByte_eq (word : UInt16) : (word >>> 8).toUInt8 = (word / 256).toUInt8 := by
  apply UInt8.toNat_inj.mp
  rw [UInt16.toNat_toUInt8, UInt16.toNat_toUInt8, UInt16.toNat_shiftRight, UInt16.toNat_div,
    Nat.shiftRight_eq_div_pow]
  rfl

theorem lowByte_eq (word : UInt16) : (word &&& 0xff).toUInt8 = (word % 256).toUInt8 := by
  apply UInt8.toNat_inj.mp
  rw [UInt16.toNat_toUInt8, UInt16.toNat_toUInt8, UInt16.toNat_and, UInt16.toNat_mod]
  show (word.toNat &&& 255) % 256 = word.toNat % 256 % 256
  rw [Data.and_255_eq]

theorem bytes_inj {first second : UInt16}
    (high : (first / 256).toUInt8 = (second / 256).toUInt8)
    (low : (first % 256).toUInt8 = (second % 256).toUInt8) : first = second := by
  apply UInt16.toNat_inj.mp
  have high := congrArg UInt8.toNat high
  have low := congrArg UInt8.toNat low
  rw [UInt16.toNat_toUInt8, UInt16.toNat_toUInt8, UInt16.toNat_div, UInt16.toNat_div] at high
  rw [UInt16.toNat_toUInt8, UInt16.toNat_toUInt8, UInt16.toNat_mod, UInt16.toNat_mod] at low
  have firstSmall := first.toNat_lt
  have secondSmall := second.toNat_lt
  simp only [UInt16.reduceToNat] at high low
  omega

theorem newPacket_short (memory : Memory) {message : Message} (body : List UInt8)
    (plain : message.retain = 0 ∧ message.qos = 0 ∧ message.dup = 0)
    (copies : message.copied = []) (bytes : bodyBytes message = body)
    (length : message.length.toNat = body.length) (short : body.length < 128) :
    (newPacket memory message).1.FilledFrom message ∧
      (newPacket memory message).1.sendBuf =
        message.type <<< 4 :: UInt8.ofNat body.length :: body := by
  have control : controlByte message = message.type <<< 4 := by
    obtain ⟨retain, qos, dup⟩ := plain
    rw [controlByte, retain, qos, dup]
    simp
  have copyable : message.Copyable := by
    rw [Message.Copyable, copies]
    exact List.forall_mem_nil _
  have small : message.length ≤ 268435455 := by
    rw [UInt32.le_iff_toNat_le, length]
    exact Nat.le_of_lt (Nat.lt_trans short (by decide))
  have filled := newPacket_filledFrom small (bytes ▸ length.symm) copyable memory
  refine ⟨filled, filled.sendBuf.trans ?_⟩
  rw [frameBytes, bytes, headerBytes, control, length, Base128.encode_of_lt short]
  rfl

theorem newPacket_connack (memory : Memory) (lastMid : UInt16) (retCode : UInt8) :
    ∃ message, ackMessage lastMid mqttTypeConnack 2 retCode = some message ∧
      replyFrames [(newPacket memory message).1] = [[0x20, 2, 0, retCode]] := by
  refine ⟨_, rfl, replyFrames_singleton ?_ (by decide : (0x20 : UInt8) >>> 4 ≠ 3)⟩
  exact (newPacket_short memory [0, retCode] ⟨rfl, rfl, rfl⟩ rfl rfl rfl
    (show 2 < 128 by decide)).2

theorem newPacket_suback (memory : Memory) (lastMid : UInt16) (retCode : UInt8) :
    ∃ message, ackMessage lastMid mqttTypeSuback 3 retCode = some message ∧
      replyFrames [(newPacket memory message).1] =
        [[0x90, 3, (lastMid / 256).toUInt8, (lastMid % 256).toUInt8, retCode]] := by
  rw [← highByte_eq, ← lowByte_eq]
  refine ⟨_, rfl, replyFrames_singleton ?_ (by decide : (0x90 : UInt8) >>> 4 ≠ 3)⟩
  exact (newPacket_short memory (subackBody ⟨lastMid, retCode⟩) ⟨rfl, rfl, rfl⟩ rfl rfl rfl
    (show 3 < 128 by decide)).2

theorem newPacket_pingresp (memory : Memory) (lastMid : UInt16) :
    ∃ message, ackMessage lastMid mqttTypePingresp 0 0 = some message ∧
      replyFrames [(newPacket memory message).1] = [[0xd0, 0]] := by
  refine ⟨_, rfl, replyFrames_singleton ?_ (by decide : (0xd0 : UInt8) >>> 4 ≠ 3)⟩
  exact (newPacket_short memory [] ⟨rfl, rfl, rfl⟩ rfl rfl rfl (show 0 < 128 by decide)).2

theorem newPacket_publish_isReply (memory : Memory) {topic : CString}
    (short : topic.strlen ≤ 65535) (payload : List UInt8) (len : UInt32) :
    (newPacket memory (publishMessage topic payload len)).1.isReply = false := by
  have name : (publishMessage topic payload len).publish.topicName.bytes.length ≤ 65535 :=
    Nat.le_trans (List.length_take_le' _ _) short
  have head := mqttSerialiserWrite_head
    (rfl : (publishMessage topic payload len).type = mqttTypePublish) name
    ((memory.mallocUnchecked.2.mallocUnchecked.2).block
      (UInt32.ofNat (mqttSerialiserSize (publishMessage topic payload len))).toNat)
  unfold Packet.isReply
  split
  · rfl
  · rename_i control rest sendBuf
    have first : control = 0x30 := head control (congrArg List.head? sendBuf)
    rw [first]
    decide

end MuMQ
