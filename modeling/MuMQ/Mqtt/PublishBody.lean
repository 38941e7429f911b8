import MuMQ.Mqtt.Fields

namespace MuMQ

/-! The payloads of the PUBLISHes that the parser finishes. -/

/-- The QoS values with a packet id. -/
def QosWithId (qos : UInt8) : Prop := qos = 1 ∨ qos = 2

instance (qos : UInt8) : Decidable (QosWithId qos) := inferInstanceAs (Decidable (_ ∨ _))

/-- No subtraction of `message->common.length - topic_name.length - 2`, nor the one of the
packet id, wraps. -/
structure NoWrap (message : Message) (topicName : MqttBuffer) : Prop where
  topic : topicName.length ≤ message.length
  lengthBytes : 2 ≤ message.length - topicName.length
  packetId : QosWithId message.qos → 2 ≤ message.length - topicName.length - 2

/-- The fields of a PUBLISH are the whole of its payload. -/
structure WholePublish (payload : List UInt8) (message : Message) (publish : PublishFields) :
    Prop where
  noWrap : NoWrap message publish.topicName
  topicName : publish.topicName.Holds publish.topicName.bytes
  pointer : ∃ after, publish.topicName.data = some (publish.topicName.bytes ++ after)
  short : publish.topicName.bytes.length ≤ 65535
  messageId : ¬ QosWithId message.qos → publish.messageId = 0
  content : publish.content.Holds publish.content.bytes
  payload : payload = lengthPrefixed publish.topicName.bytes
    ++ (if QosWithId message.qos then wordBytes publish.messageId else [])
    ++ publish.content.bytes

/-- What the parser leaves of a PUBLISH that it finishes. -/
structure PublishDone (payload : List UInt8) (message : Message) (final : ParseState) : Prop where
  whole : WholePublish payload message final.message.publish
  nread : final.nread = payload.length
  message : final.message = { message with publish := final.message.publish }

theorem hasMessageId_iff_qosWithId (qos : UInt8) : hasMessageId qos = true ↔ QosWithId qos := by
  rw [hasMessageId, Bool.and_eq_true, decide_eq_true_iff, decide_eq_true_iff, QosWithId,
    ← UInt8.toNat_inj, ← UInt8.toNat_inj]
  show 0 < qos.toNat ∧ qos.toNat < 3 ↔ qos.toNat = 1 ∨ qos.toNat = 2
  omega

theorem idBytes_eq (qos : UInt8) (messageId : UInt16) :
    idBytes qos messageId = if QosWithId qos then wordBytes messageId else [] := by
  unfold idBytes
  simp only [hasMessageId_iff_qosWithId]

section Whole

variable {message : Message} {topic content : List UInt8} {messageId : UInt16}
  (short : topic.length ≤ 65535)
  (length : message.length.toNat = (publishBody topic message.qos messageId content).length)
include short length

theorem noWrap_publishBody {after : List UInt8} :
    NoWrap message ⟨UInt32.ofNat topic.length, some (topic ++ after)⟩ := by
  rw [length_publishBody] at length
  have topicLength : (UInt32.ofNat topic.length).toNat = topic.length :=
    UInt32.toNat_ofNat_of_lt' (show topic.length < 2 ^ 32 by omega)
  have bounded := message.length.toNat_lt
  refine ⟨?_, ?_, fun withId => ?_⟩
  · rw [UInt32.le_iff_toNat_le, topicLength]
    omega
  · simp only [UInt32.le_iff_toNat_le, UInt32.toNat_sub, UInt32.reduceToNat, topicLength]
    omega
  · rw [if_pos ((hasMessageId_iff_qosWithId message.qos).mpr withId)] at length
    simp only [UInt32.le_iff_toNat_le, UInt32.toNat_sub, UInt32.reduceToNat, topicLength]
    omega

/-- A buffer of the content length at the end of a body holds the content. -/
theorem wholePublish_publishBody {after : List UInt8} {publish : PublishFields}
    {contentLength : UInt32} (exact : contentLength.toNat = content.length)
    (name : publish.topicName = ⟨UInt32.ofNat topic.length, some (topic ++ after)⟩)
    (kept : publish.messageId = if QosWithId message.qos then messageId else 0)
    (last : publish.content = ⟨contentLength, some content⟩) :
    WholePublish (publishBody topic message.qos messageId content) message publish := by
  have topicHolds : publish.topicName.Holds topic :=
    name ▸ MqttBuffer.holds_append (Nat.lt_of_le_of_lt short (by decide))
  have contentBytes : publish.content.bytes = content := by
    rw [last]
    exact List.take_of_length_le (Nat.le_of_eq exact.symm)
  have contentHolds : publish.content.Holds content := ⟨by rw [last]; exact exact, contentBytes⟩
  have pointer : publish.topicName.data = some (publish.topicName.bytes ++ after) := by
    rw [topicHolds.bytes, name]
  refine ⟨name ▸ noWrap_publishBody short length, topicHolds.bytes.symm ▸ topicHolds,
    ⟨after, pointer⟩, topicHolds.bytes.symm ▸ short, fun without => by rw [kept, if_neg without],
    contentBytes.symm ▸ contentHolds, ?_⟩
  rw [topicHolds.bytes, contentBytes, kept, publishBody, idBytes_eq, lengthPrefixed]
  by_cases withId : QosWithId message.qos
  · rw [if_pos withId, if_pos withId, if_pos withId]
  · rw [if_neg withId, if_neg withId]

end Whole

section Call

variable {payload topic after before content : List UInt8} {parser : Parser}
  {message : Message} {final : ParseState} {turns : Nat}
  (length : message.length.toNat = payload.length) (short : topic.length ≤ 65535)
include length short

theorem finishes_publishMessage {messageId kept : UInt16}
    (body : payload = publishBody topic message.qos messageId content)
    (split : payload = before ++ content)
    (keeps : kept = if QosWithId message.qos then messageId else 0)
    (finishes : Finishes (some payload) payload.length (turns + 1)
      ⟨{ parser with state := .publishMessage },
        { message with publish :=
          ⟨⟨UInt32.ofNat topic.length, some (topic ++ after)⟩, kept, message.publish.content⟩ },
        before.length⟩ (fun state => state = final)) :
    PublishDone payload message final := by
  have bounded : payload.length < 2 ^ 64 := by
    have small := message.length.toNat_lt
    omega
  obtain ⟨parsed, nread, read, rfl⟩ :=
    (finishes_lastField (parserStep_publishMessage rfl)).mp finishes
  obtain ⟨_, rfl, rfl⟩ := (readMessage_iff bounded split).mp read
  rw [body] at length
  have exact : (contentLength { message with publish :=
      ⟨⟨UInt32.ofNat topic.length, some (topic ++ after)⟩, kept, message.publish.content⟩ }).toNat =
        content.length := contentLength_publishBody rfl length short rfl
  refine ⟨body ▸ wholePublish_publishBody short length exact rfl keeps rfl, ?_, rfl⟩
  show before.length + (contentLength _).toNat = payload.length
  rw [exact, split, List.length_append]

theorem finishes_publishMessageId (split : payload = lengthPrefixed topic ++ after)
    (finishes : Finishes (some payload) payload.length (turns + 2)
      ⟨{ parser with state := .publishMessageId },
        { message with publish := { message.publish with
            topicName := ⟨UInt32.ofNat topic.length, some (topic ++ after)⟩ } },
        (lengthPrefixed topic).length⟩ (fun state => state = final)) :
    PublishDone payload message final := by
  have bounded : payload.length < 2 ^ 64 := by
    have small := message.length.toNat_lt
    omega
  have step := @parserStep_publishMessageId (some payload) payload.length
    ⟨{ parser with state := .publishMessageId },
      { message with publish := { message.publish with
          topicName := ⟨UInt32.ofNat topic.length, some (topic ++ after)⟩ } },
      (lengthPrefixed topic).length⟩ rfl
  by_cases few : sizeSub payload.length (lengthPrefixed topic).length < 2
  · obtain ⟨_, ran, _⟩ := finishes
    rw [parserLoop, step, if_pos few] at ran
    cases ran
  · rw [if_neg few] at step
    by_cases withId : hasMessageId message.qos = true
    · rw [if_pos withId] at step
      have qosWithId := (hasMessageId_iff_qosWithId message.qos).mp withId
      obtain ⟨pair, _, read, finishes⟩ := (finishes_field step).mp finishes
      obtain ⟨content, split, rfl⟩ := (readPair_iff bounded split).mp read
      have body : payload =
          publishBody topic message.qos (wordOfBytes pair.1 pair.2) content := by
        rw [split, publishBody, idBytes, if_pos withId, lengthPrefixed]
      exact finishes_publishMessage length short body split (if_pos qosWithId).symm finishes
    · rw [if_neg withId] at step
      have without : ¬ QosWithId message.qos :=
        fun qos => withId ((hasMessageId_iff_qosWithId message.qos).mpr qos)
      have body : payload = publishBody topic message.qos 0 after := by
        rw [split, publishBody, idBytes, if_neg withId, lengthPrefixed, List.append_nil]
      exact finishes_publishMessage length short body split (if_neg without).symm
        ((finishes_next step).mp finishes)

end Call

theorem publishDone {payload : List UInt8} {parser : Parser} {message : Message}
    {final : ParseState} (initial : parser.state = .initial)
    (type : message.type = mqttTypePublish) (length : message.length.toNat = payload.length)
    (done : mqttParserExecute parser message (some payload) payload.length 0 =
      some (.done, final)) : PublishDone payload message final := by
  have bounded : payload.length < 2 ^ 64 := by
    have small := message.length.toNat_lt
    omega
  have finishes : Finishes (some payload) payload.length 25 ⟨parser, message, 0⟩
      (fun state => state = final) := ⟨final, done, rfl⟩
  rw [finishes_next (parserStep_initial_publish initial type),
    finishes_next (parserStep_publish rfl),
    finishes_field (parserStep_publishTopicName rfl)] at finishes
  obtain ⟨_, _, read, finishes⟩ := finishes
  obtain ⟨topic, after, short, split, rfl, rfl⟩ :=
    (readString_iff bounded (List.nil_append payload).symm).mp read
  exact finishes_publishMessageId length short split finishes

/-- A PUBLISH that the parser finishes is the whole of its payload. -/
theorem mqttParserExecute_publish (payload : List UInt8) (parser : Parser) (message : Message)
    (final : ParseState) (initial : parser.state = .initial)
    (type : message.type = mqttTypePublish) (length : message.length.toNat = payload.length)
    (done : mqttParserExecute parser message (some payload) payload.length 0 =
      some (.done, final)) :
    WholePublish payload message final.message.publish ∧ final.nread = payload.length :=
  ⟨(publishDone initial type length done).whole, (publishDone initial type length done).nread⟩

/-- A PUBLISH of QoS 1. -/
theorem mqttParserExecute_publish_qos1 :
    WholePublish [0, 1, 0x61, 0, 7, 0x62]
        { Message.zero with type := mqttTypePublish, qos := 1, length := 6 }
        ⟨⟨1, some [0x61, 0, 7, 0x62]⟩, 7, ⟨1, some [0x62]⟩⟩ ∧ 6 = 6 :=
  mqttParserExecute_publish [0, 1, 0x61, 0, 7, 0x62] .zero
    { Message.zero with type := mqttTypePublish, qos := 1, length := 6 }
    ⟨.zero,
      { Message.zero with
        type := mqttTypePublish
        qos := 1
        length := 6
        publish := ⟨⟨1, some [0x61, 0, 7, 0x62]⟩, 7, ⟨1, some [0x62]⟩⟩ }, 6⟩
    rfl rfl rfl (by decide +kernel)

end MuMQ
