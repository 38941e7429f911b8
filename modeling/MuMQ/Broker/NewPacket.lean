import MuMQ.Broker.HandMqtt
import MuMQ.Mqtt.FrameSize
import MuMQ.Mqtt.Wire

namespace MuMQ

open Data

/-! The packets that `publish_msg` and `ack_msg` allocate and fill. -/

/-- The packet is the frame of a message whose length is that of its body: the block of
`wlen` bytes is filled by the serialiser and no more, and the header announces its size. -/
structure Packet.FilledFrom (packet : Packet) (message : Message) : Prop where
  bounded : message.length ≤ 268435455
  body : (bodyBytes message).length = message.length.toNat
  wlen : packet.wlen.toNat = mqttSerialiserSize message
  fills : Fills message
  written : ∃ memory : Memory,
    packet.sendBuf =
        (mqttSerialiserWrite message (memory.block packet.wlen.toNat)).2.buffer ∧
      (mqttSerialiserWrite message (memory.block packet.wlen.toNat)).2.overrun = false
  sendBuf : packet.sendBuf = frameBytes message
  announced : wholeFrame packet.sendBuf =
    some ⟨controlByte message, message.length.toNat, bodyBytes message⟩

def Packet.Filled (packet : Packet) : Prop := ∃ message, packet.FilledFrom message

section Frame

variable {message : Message} (bounded : message.length ≤ 268435455)
  (body : (bodyBytes message).length = message.length.toNat)
include bounded body

theorem wholeFrame_frameBytes :
    wholeFrame (frameBytes message) =
      some ⟨controlByte message, message.length.toNat, bodyBytes message⟩ := by
  have small : (bodyBytes message).length ≤ 268435455 := by
    rw [body]
    exact UInt32.le_iff_toNat_le.mp bounded
  rw [wholeFrame, frameBytes, headerBytes, ← body, List.cons_append, nextFrame_encode small]

theorem length_frameBytes_lt : (frameBytes message).length < 2 ^ 32 := by
  have header := length_headerBytes_le message
  have small : message.length.toNat ≤ 268435455 := UInt32.le_iff_toNat_le.mp bounded
  rw [frameBytes, List.length_append, body]
  omega

/-- A message whose length is that of its body makes a filled packet. -/
theorem newPacket_filledFrom (copyable : message.Copyable) (memory : Memory) :
    (newPacket memory message).1.FilledFrom message := by
  have size := length_frameBytes bounded copyable
  have below : mqttSerialiserSize message < 2 ^ 32 := size ▸ length_frameBytes_lt bounded body
  have fills := fills_of_reached bounded copyable (Nat.le_of_lt below)
  have wlen : (newPacket memory message).1.wlen.toNat = mqttSerialiserSize message :=
    UInt32.toNat_ofNat_of_lt' below
  obtain ⟨buffer, overrun⟩ := fills.2
    ((memory.mallocUnchecked.2.mallocUnchecked.2).block (newPacket memory message).1.wlen.toNat)
    [] (by rw [Memory.length_block, wlen])
  rw [List.append_nil] at buffer overrun
  rw [List.append_nil] at buffer
  have sendBuf : (newPacket memory message).1.sendBuf = frameBytes message := buffer
  exact ⟨bounded, body, wlen, fills, ⟨_, rfl, overrun⟩, sendBuf,
    sendBuf ▸ wholeFrame_frameBytes bounded body⟩

end Frame

theorem Packet.FilledFrom.length_sendBuf {packet : Packet} {message : Message}
    (filled : packet.FilledFrom message) : packet.sendBuf.length = packet.wlen.toNat := by
  rw [filled.sendBuf, filled.wlen, filled.fills.1]

/-! The messages of `publish_msg`. -/

section Publish

variable {topic : CString} (payload : List UInt8)

section Lengths

variable (bounded : 2 + topic.strlen + payload.length ≤ 268435455)
include bounded

theorem publishMessage_length :
    (publishMessage topic payload (UInt32.ofNat payload.length)).length.toNat =
      2 + topic.strlen + payload.length := by
  show (2 + UInt32.ofNat topic.strlen + UInt32.ofNat payload.length).toNat = _
  rw [UInt32.toNat_add, UInt32.toNat_add,
    UInt32.toNat_ofNat_of_lt' (show topic.strlen < 2 ^ 32 by omega),
    UInt32.toNat_ofNat_of_lt' (show payload.length < 2 ^ 32 by omega)]
  show ((2 + topic.strlen) % 2 ^ 32 + payload.length) % 2 ^ 32 = _
  omega

theorem publishMessage_topicName (payloadLen : UInt32) :
    (publishMessage topic payload payloadLen).publish.topicName.length.toNat =
        topic.strlen ∧
      (publishMessage topic payload payloadLen).publish.topicName.bytes =
        topic.bytes := by
  have length : (UInt32.ofNat topic.strlen).toNat = topic.strlen :=
    UInt32.toNat_ofNat_of_lt' (show topic.strlen < 2 ^ 32 by omega)
  exact ⟨length, bytes_of_whole length.symm⟩

theorem publishMessage_content :
    (publishMessage topic payload
        (UInt32.ofNat payload.length)).publish.content.length.toNat = payload.length ∧
      (publishMessage topic payload
        (UInt32.ofNat payload.length)).publish.content.bytes = payload := by
  have length : (UInt32.ofNat payload.length).toNat = payload.length :=
    UInt32.toNat_ofNat_of_lt' (show payload.length < 2 ^ 32 by omega)
  exact ⟨length, bytes_of_whole length.symm⟩

/-- A PUBLISH that keeps to the limit of the format makes a filled packet. -/
theorem newPacket_publish (memory : Memory) :
    (newPacket memory
      (publishMessage topic payload (UInt32.ofNat payload.length))).1.FilledFrom
        (publishMessage topic payload (UInt32.ofNat payload.length)) := by
  obtain ⟨topicLength, topicBytes⟩ :=
    publishMessage_topicName payload bounded (UInt32.ofNat payload.length)
  obtain ⟨contentLength, contentBytes⟩ := publishMessage_content payload bounded
  have length := publishMessage_length payload bounded
  generalize messageEq : publishMessage topic payload (UInt32.ofNat payload.length) = message
    at topicLength topicBytes contentLength contentBytes length ⊢
  have type : message.type = mqttTypePublish := messageEq ▸ rfl
  have copyable : message.Copyable := by
    intro string member
    rw [Message.copied, if_pos type] at member
    rcases List.mem_cons.mp member with rfl | content
    · rw [topicBytes, topicLength]
      rfl
    · rw [List.mem_singleton.mp content, contentBytes, contentLength]
  have small : message.length ≤ 268435455 := by
    rw [UInt32.le_iff_toNat_le, length]
    exact bounded
  refine newPacket_filledFrom small ?_ copyable memory
  rw [length_bodyBytes_publish type copyable, topicLength, contentLength, length]

end Lengths

end Publish

end MuMQ
