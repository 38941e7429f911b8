import MuMQ.Broker.Forwarding

namespace MuMQ

open Data

/-! What is published comes out as it went in. -/

/-- A PUBLISH with a payload, without flags and with the shortest remaining length. -/
def plainPublish (payload : List UInt8) : List UInt8 :=
  0x30 :: (Base128.encode payload.length ++ payload)

theorem plainPublish_inj {first second : List UInt8} (firstBounded : first.length ≤ 268435455)
    (secondBounded : second.length ≤ 268435455) :
    plainPublish first = plainPublish second ↔ first = second := by
  refine ⟨fun same => ?_, fun same => by rw [same]⟩
  have framed := @nextFrame_encode 0x30 first firstBounded
  have other := @nextFrame_encode 0x30 second secondBounded
  rw [← plainPublish] at framed other
  rw [same, other] at framed
  injection framed with frames
  exact (congrArg WireFrame.payload frames).symm

theorem forwardedFrame_eq (topic : CString) (payload : List UInt8) :
    forwardedFrame topic payload =
      plainPublish (UInt8.ofNat (topic.strlen / 255) :: UInt8.ofNat (topic.strlen % 256) ::
        (topic.bytes ++ payload)) := by
  have length : (UInt8.ofNat (topic.strlen / 255) :: UInt8.ofNat (topic.strlen % 256) ::
      (topic.bytes ++ payload)).length = 2 + topic.strlen + payload.length := by
    rw [List.length_cons, List.length_cons, List.length_append]
    show topic.strlen + payload.length + 1 + 1 = _
    omega
  rw [plainPublish, length]
  rfl

/-- The two length bytes that are written are those of the format. -/
theorem lengthDigits_iff {length : Nat} (bounded : length ≤ 65535) :
    (UInt8.ofNat (length / 255) = ((UInt16.ofNat length) >>> 8).toUInt8 ∧
        UInt8.ofNat (length % 256) = ((UInt16.ofNat length) &&& 0xff).toUInt8) ↔
      LengthKept length := by
  have exact : (UInt32.ofNat length).toNat = length :=
    UInt32.toNat_ofNat_of_lt' (show length < 2 ^ 32 by omega)
  have kept := lengthBytes_iff (show (UInt32.ofNat length).toNat ≤ 65535 by omega)
  rw [highDigit_eq, lowDigit_eq, exact] at kept
  have format := wordBytes_ofNat bounded
  rw [← kept]
  constructor
  · rintro ⟨high, low⟩
    rw [high, low]
    exact format
  · intro written
    have lowSmall := (UInt8.ofNat (length % 256)).toNat_lt
    have formatSmall := (((UInt16.ofNat length) &&& 0xff).toUInt8).toNat_lt
    constructor
    · apply UInt8.toNat_inj.mp
      omega
    · apply UInt8.toNat_inj.mp
      omega

theorem ofBuffer_bytes_iff (buffer : List UInt8) :
    (CString.ofBuffer buffer).bytes = buffer ↔ 0 ∉ buffer := by
  show buffer.takeWhile (fun byte => byte != 0) = buffer ↔ _
  rw [List.takeWhile_eq_self_iff]
  constructor
  · intro notNul member
    exact absurd (notNul 0 member) (by decide)
  · intro noNul byte member
    exact bne_iff_ne.mpr fun isNul => noNul (isNul ▸ member)

/-- A topic and a content are forwarded as they stood in the payload when the topic has no
NUL and a length that `WRITE_STRING` keeps. -/
theorem forwardedFrame_verbatim_iff {topic content : List UInt8} (short : topic.length ≤ 65535)
    (bounded : (lengthPrefixed topic ++ content).length ≤ 268435455) :
    forwardedFrame (.ofBuffer topic) content = plainPublish (lengthPrefixed topic ++ content) ↔
      0 ∉ topic ∧ LengthKept topic.length := by
  have cut : (CString.ofBuffer topic).strlen ≤ topic.length := CString.strlen_ofBuffer_le topic
  rw [List.length_append, length_lengthPrefixed] at bounded
  have firstBounded : (UInt8.ofNat ((CString.ofBuffer topic).strlen / 255) ::
      UInt8.ofNat ((CString.ofBuffer topic).strlen % 256) ::
      ((CString.ofBuffer topic).bytes ++ content)).length ≤ 268435455 := by
    rw [List.length_cons, List.length_cons, List.length_append]
    rw [CString.strlen] at cut
    omega
  rw [forwardedFrame_eq, plainPublish_inj firstBounded
    (by rw [List.length_append, length_lengthPrefixed]; exact bounded)]
  show UInt8.ofNat ((CString.ofBuffer topic).strlen / 255) ::
      UInt8.ofNat ((CString.ofBuffer topic).strlen % 256) ::
      ((CString.ofBuffer topic).bytes ++ content) =
    ((UInt16.ofNat topic.length) >>> 8).toUInt8 ::
      ((UInt16.ofNat topic.length) &&& 0xff).toUInt8 :: (topic ++ content) ↔ _
  rw [List.cons.injEq, List.cons.injEq, List.append_left_inj, ofBuffer_bytes_iff]
  constructor
  · rintro ⟨high, low, noNul⟩
    have whole : (CString.ofBuffer topic).strlen = topic.length :=
      congrArg List.length ((ofBuffer_bytes_iff topic).mpr noNul)
    rw [whole] at high low
    exact ⟨noNul, (lengthDigits_iff short).mp ⟨high, low⟩⟩
  · rintro ⟨noNul, kept⟩
    have whole : (CString.ofBuffer topic).strlen = topic.length :=
      congrArg List.length ((ofBuffer_bytes_iff topic).mpr noNul)
    obtain ⟨high, low⟩ := (lengthDigits_iff short).mpr kept
    rw [whole]
    exact ⟨high, low, noNul⟩

theorem AcceptedParse.publish {parser : Parser} {message : Message} {payload : List UInt8}
    {final : ParseState} (accepted : AcceptedParse parser message (some payload) final)
    (type : final.message.type = mqttTypePublish) : PublishDone payload message final := by
  have sameType : message.type = mqttTypePublish := by
    obtain ⟨rc, ran, _⟩ := accepted.parsed
    exact (parserLoop_type ran).symm.trans type
  have length : message.length.toNat = payload.length := accepted.length.symm
  have done := accepted.done sameType
  rw [length] at done
  exact publishDone accepted.initial sameType length done

/-- A PUBLISH at QoS 0 as it is parsed. -/
theorem parsedMessage_publish {broker : Broker} {slot : Nat} {frame : WireFrame}
    (whole : frame.Whole) {message : Message}
    (parsed : parsedMessage broker slot frame = some message)
    (type : message.type = mqttTypePublish) (qos : message.qos = 0) :
    publishedTopic message = some (.ofBuffer message.publish.topicName.bytes) ∧
      message.publish.topicName.bytes.length ≤ 65535 ∧
      frame.payload = lengthPrefixed message.publish.topicName.bytes ++
        message.publish.content.bytes := by
  unfold parsedMessage at parsed
  split at parsed
  · rename_i rc final ran
    split at parsed
    · cases parsed
    · rename_i taken
      cases parsed
      have accepted := acceptedParse_of_whole whole ran taken
      have sameType : frame.message.type = mqttTypePublish := by
        obtain ⟨_, parsed, _⟩ := accepted.parsed
        exact (parserLoop_type parsed).symm.trans type
      obtain ⟨payload, pointer⟩ := accepted.payload sameType
      have stands : payload = frame.payload := by
        rw [WireFrame.inPayload] at pointer
        split at pointer
        · cases pointer
        · exact (Option.some.inj pointer).symm
      rw [pointer, stands] at accepted
      have done := accepted.publish type
      have without : ¬ QosWithId frame.message.qos := by
        have sameQos : final.message.qos = frame.message.qos := by rw [done.message]
        rw [← sameQos, qos]
        decide
      obtain ⟨after, topic⟩ := done.whole.pointer
      refine ⟨if_pos ⟨type, qos, by rw [topic]; rfl⟩, done.whole.short, ?_⟩
      have split := done.whole.payload
      rw [if_neg without, List.append_nil] at split
      exact split
  · cases parsed

/-- Every copy of a PUBLISH is the same, and it stands as it came in exactly when the topic
has no NUL and its length is kept. -/
theorem forwarded_verbatim {memory : Memory} (unfailing : memory.Unfailing)
    {events : List LoopEvent} {before after : LoopState}
    (ran : run loopStep (.start memory) events = some before) {slot : Nat} {frame : WireFrame}
    (stepped : loopStep (.packet slot frame) before = some after) {message : Message}
    (parsed : parsedMessage before.broker slot frame = some message)
    (type : message.type = mqttTypePublish) (qos : message.qos = 0) :
    let topic := message.publish.topicName.bytes
    ∃ forwarded,
      (∀ watched, framesEnqueued watched before after =
        List.replicate
          ((subTreeProcess before.broker.clients (tokens (.ofBuffer topic))
            before.broker.subs).count watched)
          forwarded) ∧
      (forwarded = plainPublish frame.payload ↔ 0 ∉ topic ∧ LengthKept topic.length) := by
  obtain ⟨_, _, whole, _⟩ := loopStep_packet stepped
  obtain ⟨routed, short, payload⟩ := parsedMessage_publish whole parsed type qos
  refine ⟨forwardedFrame (.ofBuffer message.publish.topicName.bytes)
    message.publish.content.bytes, fun watched => ?_, ?_⟩
  · rw [framesEnqueued_packet (.reached unfailing ran) stepped parsed, handledFrames]
    simp only [replyWith_publish type, ite_self, List.append_nil, forwardedFrames, routed]
  · have bounded : frame.payload.length ≤ 268435455 := by
      rw [whole.2.1]
      exact whole.2.2
    rw [payload] at bounded ⊢
    exact forwardedFrame_verbatim_iff short bounded

/-- A client subscribes what another one publishes. -/
def subscribesOnce : List LoopEvent :=
  [.accept 5, .packet 5 (connectFrame 0x61), .packet 5 (subscribeFrame 0x61), .accept 6]

theorem forwarded_verbatim_subscribesOnce :
    ∃ before after, run loopStep (.start ⟨fun _ => true, fun _ => 0, 0⟩) subscribesOnce =
        some before ∧
      loopStep (.packet 6 (publishFrame 0x61)) before = some after ∧
      framesEnqueued 5 before after = [plainPublish [0, 1, 0x61, 7, 7]] := by
  have returns : ((run loopStep (.start ⟨fun _ => true, fun _ => 0, 0⟩) subscribesOnce).any
      fun before => (loopStep (.packet 6 (publishFrame 0x61)) before).isSome &&
        (parsedMessage before.broker 6 (publishFrame 0x61)).any fun message =>
          message.type = mqttTypePublish ∧ message.qos = 0 ∧
            message.publish.topicName.bytes = [0x61] ∧
            (subTreeProcess before.broker.clients (tokens (.ofBuffer [0x61]))
              before.broker.subs).count 5 = 1) = true := by
    decide +kernel
  obtain ⟨before, ran, found⟩ := (Option.any_eq_true _ _).mp returns
  obtain ⟨steps, parses⟩ := (Bool.and_eq_true _ _).mp found
  obtain ⟨after, stepped⟩ := Option.isSome_iff_exists.mp steps
  obtain ⟨message, parsed, known⟩ := (Option.any_eq_true _ _).mp parses
  obtain ⟨type, qos, topic, once⟩ := of_decide_eq_true known
  obtain ⟨forwarded, copies, verbatim⟩ :=
    forwarded_verbatim (fun _ => rfl) ran stepped parsed type qos
  rw [topic] at copies verbatim
  refine ⟨before, after, ran, stepped, ?_⟩
  rw [copies, once, verbatim.mpr ⟨by decide, by decide⟩]
  rfl

end MuMQ
