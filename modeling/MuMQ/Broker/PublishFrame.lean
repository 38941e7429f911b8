import MuMQ.Broker.NewPacket

namespace MuMQ

open Data

/-! The frames `publish_msg` enqueues. -/

/-- A frame with the right remaining length is a PUBLISH of its topic and payload
exactly when its two length bytes say the length of the topic. -/
private theorem isPublish_iff {message : Message} (payload : List UInt8)
    (control : controlByte message = 0x30)
    (length : message.length.toNat =
      (stringBytes message.publish.topicName ++ payload).length)
    (bounded : message.length.toNat ≤ 268435455) :
    IsPublish (headerBytes message ++ stringBytes message.publish.topicName ++ payload)
        message.publish.topicName.bytes payload ↔
      (message.publish.topicName.length / 0xff).toUInt8.toNat * 256
          + (message.publish.topicName.length &&& 0xff).toUInt8.toNat =
        message.publish.topicName.bytes.length := by
  let body := stringBytes message.publish.topicName ++ payload
  have whole : wholeFrame
      (headerBytes message ++ stringBytes message.publish.topicName ++ payload) =
        some ⟨0x30, body.length, body⟩ := by
    rw [wholeFrame, headerBytes, control, length, List.append_assoc, List.cons_append,
      nextFrame_encode (length ▸ bounded)]
  rw [← wireString_eq_some_iff payload]
  constructor
  · rintro ⟨frame, isFrame, _, _, _, string⟩
    rw [whole] at isFrame
    cases isFrame
    exact string
  · intro string
    have bits : (0x30 : UInt8) >>> 4 = mqttTypePublish ∧
        ((0x30 : UInt8) >>> 1) &&& 3 = 0 := by decide
    exact ⟨_, whole, bits.1, bits.2, rfl, string⟩

/-- What a call of `publish_msg` enqueues is a PUBLISH of its arguments exactly when
the length of the topic is one that `WRITE_STRING` keeps. -/
theorem publishMsg_isPublish (broker : Broker) (context : Nat) (topic : CString)
    (payload : List UInt8) (topicBounded : topic.strlen ≤ 65535)
    (bounded : 2 + topic.strlen + payload.length ≤ 268435455) :
    ∃ packet memory,
      publishMsg broker context topic payload (UInt32.ofNat payload.length) =
        { broker.modifySender context (·.enqueue packet) with memory := memory } ∧
      packet.wcur = 0 ∧ packet.sendBuf.length = packet.wlen.toNat ∧
      (IsPublish packet.sendBuf topic.bytes payload ↔ LengthKept topic.strlen) := by
  let message := publishMessage topic payload (UInt32.ofNat payload.length)
  have filled : (newPacket broker.memory message).1.FilledFrom message :=
    newPacket_publish payload bounded broker.memory
  have sendBuf := filled.sendBuf
  rw [frameBytes_publish rfl] at sendBuf
  obtain ⟨topicLength, topicBytes⟩ :=
    publishMessage_topicName payload bounded (UInt32.ofNat payload.length)
  obtain ⟨_, contentBytes⟩ := publishMessage_content payload bounded
  have length := publishMessage_length payload bounded
  refine ⟨(newPacket broker.memory message).1, (newPacket broker.memory message).2, rfl,
    rfl, filled.length_sendBuf, ?_⟩
  have control : controlByte message = 0x30 := rfl
  have frame := isPublish_iff payload control
    (by
      rw [length, List.length_append,
        length_stringBytes (by rw [topicBytes, topicLength]; rfl), topicLength])
    (by rw [length]; exact bounded)
  have fits : message.publish.topicName.length.toNat ≤ 65535 := by
    rw [topicLength]
    exact topicBounded
  have kept := lengthBytes_iff fits
  rw [topicBytes] at frame
  rw [topicLength] at kept
  rw [sendBuf, contentBytes, frame, ← kept]
  rfl

theorem publishMsg_isPublish_oneByte :
    ∃ packet memory,
      publishMsg (initDatabase ⟨fun _ => true, fun _ => 0, 0⟩) 5 (.ofBuffer [0x61]) [7]
          (UInt32.ofNat 1) =
        { (initDatabase ⟨fun _ => true, fun _ => 0, 0⟩).modifySender 5
            (·.enqueue packet) with memory := memory } ∧
      IsPublish packet.sendBuf [0x61] [7] := by
  obtain ⟨packet, memory, ran, _, _, exact⟩ :=
    publishMsg_isPublish (initDatabase ⟨fun _ => true, fun _ => 0, 0⟩) 5
      (.ofBuffer [0x61]) [7] (by decide) (by decide)
  exact ⟨packet, memory, ran, exact.mpr (by decide)⟩

/-- A topic of 255 bytes is sent with the length bytes 1 and 255, that is 511. -/
theorem publishMsg_longTopic :
    ∃ packet memory,
      publishMsg (initDatabase ⟨fun _ => true, fun _ => 0, 0⟩) 5
          (.ofBuffer (List.replicate 255 0x61)) [7] (UInt32.ofNat 1) =
        { (initDatabase ⟨fun _ => true, fun _ => 0, 0⟩).modifySender 5
            (·.enqueue packet) with memory := memory } ∧
      ¬ IsPublish packet.sendBuf (List.replicate 255 0x61) [7] :=
  ⟨_, _, rfl, by decide +kernel⟩

end MuMQ
