import MuMQ.Broker.Loop
import MuMQ.Broker.PayloadBuffer
import MuMQ.Mqtt.PublishBody

namespace MuMQ

open Data

/-! Every packet that waits to be sent is filled by the serialiser and no larger than the
frame it holds. -/

/-- Every packet of a slot that is not sent yet is filled. -/
structure Sender.Filled (sender : Sender) : Prop where
  listed : ∀ packet ∈ sender.sendingPacket, packet.Filled
  current : ∀ packet, sender.sendingCurPacket = some packet → packet.Filled

def Broker.Filled (broker : Broker) : Prop := ∀ slot, (broker.clients slot).sender.Filled

/-- The forwarded PUBLISH is within the limit of the format. -/
structure Forwardable (message : Message) : Prop where
  bounded : 2 + message.publish.topicName.bytes.length + message.publish.content.bytes.length ≤
    268435455
  content : message.publish.content.length =
    UInt32.ofNat message.publish.content.bytes.length

/-- Every packet made of the message is filled from it. -/
def MakesFilled (message : Message) : Prop :=
  ∀ memory, (newPacket memory message).1.FilledFrom message

/-- The commands and lengths that `handle_mqtt_command` calls `ack_msg` with. -/
def ackCalls : List (UInt8 × UInt32) :=
  [(mqttTypeConnack, 2), (mqttTypeSuback, 3), (mqttTypePingresp, 0)]

theorem ackMessage_makesFilled {lastMid : UInt16} {mqttCmd : UInt8} {payloadLen : UInt32}
    {retCode : UInt8} {message : Message} (call : (mqttCmd, payloadLen) ∈ ackCalls)
    (made : ackMessage lastMid mqttCmd payloadLen retCode = some message) :
    MakesFilled message := by
  intro memory
  simp only [ackCalls, List.mem_cons, List.not_mem_nil, or_false, Prod.mk.injEq] at call
  rcases call with ⟨rfl, rfl⟩ | ⟨rfl, rfl⟩ | ⟨rfl, rfl⟩
  · cases made
    exact (newPacket_short memory [0, retCode] ⟨rfl, rfl, rfl⟩ rfl rfl rfl
      (show 2 < 128 by decide)).1
  · cases made
    exact (newPacket_short memory (subackBody ⟨lastMid, retCode⟩) ⟨rfl, rfl, rfl⟩ rfl rfl rfl
      (show 3 < 128 by decide)).1
  · cases made
    exact (newPacket_short memory [] ⟨rfl, rfl, rfl⟩ rfl rfl rfl (show 0 < 128 by decide)).1

/-! The queue of a slot. -/

theorem mem_linkAfter {tail : Address} {newPacket packet : Packet} {packets : List Packet}
    (member : packet ∈ linkAfter tail newPacket packets) :
    packet ∈ packets ∨ packet = newPacket := by
  induction packets with
  | nil => exact .inl member
  | cons first rest induction =>
      rw [linkAfter] at member
      split at member
      · rcases List.mem_cons.mp member with rfl | last
        · exact .inl (.head _)
        · exact .inr (List.mem_singleton.mp last)
      · rcases List.mem_cons.mp member with rfl | later
        · exact .inl (.head _)
        · exact (induction later).imp_left (.tail _)

section Queue

variable {sender : Sender} (filled : sender.Filled)
include filled

theorem Sender.Filled.enqueue {newPacket : Packet} (new : newPacket.Filled) :
    (sender.enqueue newPacket).Filled where
  listed packet member := by
    simp only [Sender.enqueue] at member
    split at member
    · rcases mem_linkAfter member with earlier | rfl
      · exact filled.listed packet earlier
      · exact new
    · rw [List.mem_singleton.mp member]
      exact new
  current := filled.current

theorem Sender.Filled.flush {event : FlushEvent} {phase phase' : Phase} {after : Sender}
    (outcome : FlushOutcome sender event phase after phase') : after.Filled := by
  cases outcome with
  | skipped few => exact filled
  | began several => exact filled
  | ended spent => exact filled
  | @unlinked numSending packet rest more list free =>
      have listed := filled.listed
      rw [list] at listed
      obtain ⟨first, others⟩ := List.forall_mem_cons.mp listed
      exact ⟨others, fun other current => Option.some.inj current ▸ first⟩
  | kept more pending => exact ⟨filled.listed, filled.current⟩
  | blocked current unwritten nothing => exact filled
  | @wrote packet sent _ _ current unwritten something =>
      obtain ⟨message, from_⟩ := filled.current packet current
      refine ⟨filled.listed, fun other advanced => ?_⟩
      cases advanced
      exact ⟨message, from_.bounded, from_.body, from_.wlen, from_.fills, from_.written,
        from_.sendBuf, from_.announced⟩
  | finished current written => exact ⟨filled.listed, fun _ none => by cases none⟩

end Queue

/-! The handlers. -/

section Broker

variable {broker : Broker} (filled : broker.Filled)
include filled

theorem Broker.Filled.modifyClient (slot : Nat) (change : Client → Client)
    (kept : (change (broker.clients slot)).sender.Filled) :
    (broker.modifyClient slot change).Filled := by
  intro other
  by_cases own : other = slot
  · subst own
    rw [Broker.modifyClient_self]
    exact kept
  · rw [Broker.modifyClient_other _ _ own]
    exact filled other

theorem Broker.Filled.modifySender (slot : Nat) (change : Sender → Sender)
    (kept : (change (broker.clients slot).sender).Filled) :
    (broker.modifySender slot change).Filled :=
  filled.modifyClient slot (fun client => { client with sender := change client.sender }) kept

theorem Broker.Filled.sendMessage (context : Nat) {message : Message}
    (packet : (newPacket broker.memory message).1.Filled) :
    (MuMQ.sendMessage broker context message).Filled :=
  filled.modifySender context (·.enqueue (newPacket broker.memory message).1)
    ((filled context).enqueue packet)

theorem Broker.Filled.ackMsg (context : Nat) {mqttCmd : UInt8} {payloadLen : UInt32}
    (call : (mqttCmd, payloadLen) ∈ ackCalls) (retCode : UInt8) :
    (MuMQ.ackMsg broker context mqttCmd payloadLen retCode).Filled := by
  unfold MuMQ.ackMsg
  split
  · rename_i message made
    exact filled.sendMessage context ⟨_, ackMessage_makesFilled call made broker.memory⟩
  · exact filled

end Broker

theorem Broker.Filled.publishAll {broker : Broker} (filled : broker.Filled)
    {deliveries : List Delivery}
    (makes : ∀ delivery ∈ deliveries,
      MakesFilled (publishMessage delivery.topic delivery.payload delivery.len)) :
    (deliveries.foldl
      (fun broker delivery =>
        MuMQ.publishMsg broker delivery.context delivery.topic delivery.payload delivery.len)
      broker).Filled := by
  induction deliveries generalizing broker with
  | nil => exact filled
  | cons delivery rest induction =>
      obtain ⟨first, others⟩ := List.forall_mem_cons.mp makes
      exact induction (filled.sendMessage delivery.context ⟨_, first broker.memory⟩) others

theorem mem_mqtt3SubTreeProcess {broker : Broker} {topic : CString} {payload : List UInt8}
    {len : UInt32} {delivery : Delivery}
    (member : delivery ∈ (mqtt3SubTreeProcess broker topic payload len).2.2) :
    delivery.topic = topic ∧ delivery.payload = payload ∧ delivery.len = len := by
  unfold mqtt3SubTreeProcess at member
  split at member
  · cases member
  · obtain ⟨context, _, rfl⟩ := List.mem_map.mp member
    exact ⟨rfl, rfl, rfl⟩

theorem Forwardable.makesFilled {message : Message} (forwardable : Forwardable message)
    {broker : Broker} {delivery : Delivery}
    (member : delivery ∈ (mqtt3SubTreeProcess broker
      (.ofBuffer message.publish.topicName.bytes) message.publish.content.bytes
        message.publish.content.length).2.2) :
    MakesFilled (publishMessage delivery.topic delivery.payload delivery.len) := by
  obtain ⟨topic, payload, len⟩ := mem_mqtt3SubTreeProcess member
  have bounded := forwardable.bounded
  have strlen := CString.strlen_ofBuffer_le message.publish.topicName.bytes
  rw [topic, payload, len, forwardable.content]
  exact newPacket_publish _ (by omega)

section Handlers

variable {broker : Broker} (filled : broker.Filled) (context : Nat)
include filled

theorem handlePublish_filled {message : Message}
    (forwardable : message.qos = 0 → Forwardable message) :
    (handlePublish broker context message).Filled := by
  unfold handlePublish
  split
  · rename_i qos
    split
    · have routed := filled.modifyClient context
        (fun client => { client with lastMid := message.publish.messageId }) (filled context)
      let topic := CString.ofBuffer message.publish.topicName.bytes
      let processed := mqtt3SubTreeProcess (routedFrom broker context message) topic
        message.publish.content.bytes message.publish.content.length
      have start : ({ routedFrom broker context message with
        memory := processed.1 } : Broker).Filled := routed
      exact Broker.Filled.publishAll start fun delivery member =>
        (forwardable qos).makesFilled member
    · exact filled
  · exact filled

theorem handleConnect_filled (message : Message) :
    (handleConnect broker context message).1.Filled := by
  unfold handleConnect
  simp only
  split
  · exact filled.ackMsg context (.head _) 2
  · split
    · refine Broker.Filled.ackMsg ?_ context (.head _) 0
      exact filled.modifyClient (broker.clients context).sock _
        ⟨(filled _).listed, (filled _).current⟩
    · exact filled.ackMsg context (.head _) 0

theorem subscribeTopic_filled {message : Message} {after : Broker} {retCode : UInt8}
    (ran : subscribeTopic broker context message = some (after, retCode)) : after.Filled := by
  unfold subscribeTopic at ran
  split at ran
  · cases ran
    exact filled
  · split at ran
    · split at ran
      · simp only at ran
        split at ran
        · cases ran
        · rename_i grown rc added
          have noted := filled.modifyClient context
            (fun client => { client with lastMid := message.subscribe.messageId })
            (filled context)
          have grownFilled : grown.Filled := by
            intro slot
            obtain ⟨subs, subCount, client⟩ := (mqtt3SubAdd_added added).client slot
            rw [client]
            exact noted slot
          split at ran
          · cases ran
            exact grownFilled.modifyClient context
              (fun client => { client with isSubscribe := true }) (grownFilled context)
          · cases ran
            exact grownFilled
      · cases ran
        exact filled
    · cases ran
      exact filled

theorem handleMqttCommand_filled {message : Message} {after : Broker} {retCode : UInt8}
    (forwardable : message.type = mqttTypePublish → message.qos = 0 → Forwardable message)
    (ran : handleMqttCommand broker context message = some (after, retCode)) :
    after.Filled := by
  unfold handleMqttCommand at ran
  simp only at ran
  split at ran
  · cases ran
  · rename_i middle code arm
    cases ran
    suffices middleFilled : middle.Filled from
      middleFilled.modifyClient context
        (fun client => { client with reader := { client.reader with inPacket := none } })
        (middleFilled context)
    split at arm
    · rename_i publish
      cases arm
      exact handlePublish_filled filled context (forwardable publish)
    · split at arm
      · obtain ⟨rfl, rfl⟩ := Prod.mk.inj (Option.some.inj arm)
        exact handleConnect_filled filled context message
      · split at arm
        · unfold handleSubscribe at arm
          split at arm
          · cases arm
          · rename_i subscribed subscribedCode topicRan
            cases arm
            exact (subscribeTopic_filled filled context topicRan).ackMsg context
              (.tail _ (.head _)) _
        · split at arm
          · cases arm
            exact filled.ackMsg context (.tail _ (.tail _ (.head _))) 0
          · repeat' split at arm
            all_goals
              cases arm
              exact filled

end Handlers

/-! The packets that are handled. -/

/-- What a call of `mqtt_parser_execute` on a complete packet leads to: the payload is as
long as the packet says, and the code is not one that closes the connection. -/
structure AcceptedParse (parser : Parser) (message : Message) (data : Option (List UInt8))
    (final : ParseState) : Prop where
  initial : parser.state = .initial
  length : (data.getD []).length = message.length.toNat
  bounded : message.length.toNat ≤ 268435455
  parsed : ∃ rc, mqttParserExecute parser message data message.length.toNat 0 = some (rc, final) ∧
    ¬ (rc = .error ∨ rc = .incomplete)

section Parse

variable {parser : Parser} {message : Message} {data : Option (List UInt8)}
  {final : ParseState}

theorem AcceptedParse.done (accepted : AcceptedParse parser message data final)
    (type : message.type = mqttTypePublish) :
    mqttParserExecute parser message data message.length.toNat 0 = some (.done, final) := by
  obtain ⟨rc, ran, goesOn⟩ := accepted.parsed
  have entered : parserLoop data message.length.toNat 24
      ((⟨parser, message, 0⟩ : ParseState).enter .publish) = some (rc, final) := by
    rw [mqttParserExecute, parserLoop, parserStep_initial_publish accepted.initial type] at ran
    exact ran
  rcases parserLoop_rc (show 0 < ParserState.publish.depth by decide) entered with rfl | rfl
  · exact ran
  · exact absurd (.inr rfl) goesOn

/-- A PUBLISH without a payload is never finished. -/
theorem AcceptedParse.payload (accepted : AcceptedParse parser message data final)
    (type : message.type = mqttTypePublish) : ∃ payload, data = some payload := by
  cases data with
  | some payload => exact ⟨payload, rfl⟩
  | none =>
      have zero : message.length.toNat = 0 := accepted.length.symm
      have done := accepted.done type
      have finishes : Finishes none message.length.toNat 25 ⟨parser, message, 0⟩
          (fun state => state = final) := ⟨final, done, rfl⟩
      rw [finishes_next (parserStep_initial_publish accepted.initial type),
        finishes_next (parserStep_publish rfl),
        finishes_field (parserStep_publishTopicName rfl)] at finishes
      obtain ⟨_, _, read, _⟩ := finishes
      have nothing : readString none message.length.toNat 0 = .incomplete := by
        rw [zero, readString, if_pos (by decide)]
      cases nothing.symm.trans read

theorem AcceptedParse.forwardable (accepted : AcceptedParse parser message data final)
    (type : final.message.type = mqttTypePublish) (qos : final.message.qos = 0) :
    Forwardable final.message := by
  have sameType : message.type = mqttTypePublish := by
    obtain ⟨rc, ran, _⟩ := accepted.parsed
    exact (parserLoop_type ran).symm.trans type
  obtain ⟨payload, rfl⟩ := accepted.payload sameType
  have length : message.length.toNat = payload.length := accepted.length.symm
  have done := accepted.done sameType
  rw [length] at done
  have parsed := publishDone accepted.initial sameType length done
  have without : ¬ QosWithId message.qos := by
    have sameQos : final.message.qos = message.qos := by rw [parsed.message]
    rw [← sameQos, qos]
    decide
  have total := congrArg List.length parsed.whole.payload
  rw [if_neg without, List.append_nil, List.length_append, length_lengthPrefixed,
    ← length] at total
  have bounded := accepted.bounded
  refine ⟨by omega, ?_⟩
  rw [← parsed.whole.content.length, UInt32.ofNat_toNat]

end Parse

/-! All the steps of the broker. -/

theorem acceptedParse_of_whole {broker : Broker} {slot : Nat} {frame : WireFrame}
    (whole : frame.Whole) {rc : ParserRc} {final : ParseState}
    (parsed : parsePacket broker slot frame = some (rc, final))
    (goesOn : ¬ (rc = .error ∨ rc = .incomplete)) :
    AcceptedParse { (broker.clients slot).reader.inParser with state := .initial }
      frame.message frame.inPayload final := by
  obtain ⟨_, payload, bounded⟩ := whole
  have length : frame.message.length.toNat = frame.length :=
    UInt32.toNat_ofNat_of_lt' (show frame.length < 2 ^ 32 by omega)
  refine ⟨rfl, ?_, by omega, rc, parsed, goesOn⟩
  rw [length, WireFrame.inPayload]
  split
  · rename_i zero
    exact zero.symm
  · exact payload

theorem processPacket_filled {broker after : Broker} (filled : broker.Filled) {slot : Nat}
    {frame : WireFrame} (whole : frame.Whole) {outcome : PacketOutcome}
    (processed : processPacket broker slot frame = some (outcome, after)) : after.Filled := by
  unfold processPacket at processed
  split at processed
  · rename_i rc final parsed
    split at processed
    · cases processed
      exact filled
    · rename_i goesOn
      split at processed
      · rename_i handled retCode ran
        cases processed
        exact handleMqttCommand_filled filled slot
          (acceptedParse_of_whole whole parsed goesOn).forwardable ran
      · cases processed
  · cases processed

theorem loopStep_filled {event : LoopEvent} {before after : LoopState}
    (filled : before.broker.Filled) (stepped : loopStep event before = some after) :
    after.broker.Filled := by
  cases event with
  | accept sock =>
      rw [loopStep] at stepped
      split at stepped
      · cases stepped
      · cases stepped
        exact filled.modifyClient sock (fun client => { client with sock := sock }) (filled sock)
  | packet slot frame =>
      rw [loopStep] at stepped
      split at stepped
      · rename_i ready
        split at stepped
        · rename_i parser broker processed
          have handled := processPacket_filled filled ready.2.2 processed
          cases stepped
          exact handled.modifyClient slot (keepParser parser) (handled slot)
        · rename_i parser retCode broker processed
          have handled := processPacket_filled filled ready.2.2 processed
          cases stepped
          exact handled.modifyClient slot (keepParser parser) (handled slot)
        · cases stepped
      · cases stepped
  | fail slot =>
      rw [loopStep] at stepped
      split at stepped
      · cases stepped
        exact filled
      · cases stepped
  | remove slot =>
      rw [loopStep] at stepped
      split at stepped
      · cases stepped
        exact filled.modifyClient slot cleanContext
          ⟨(filled slot).listed, fun packet none => by cases none⟩
      · cases stepped
  | flush slot event =>
      rw [loopStep] at stepped
      split at stepped
      · split at stepped
        · rename_i sender phase flushed
          cases stepped
          exact filled.modifySender slot (fun _ => sender)
            ((filled slot).flush (flushStep_outcome flushed))
        · cases stepped
      · cases stepped

theorem run_filled {memory : Memory} {events : List LoopEvent} {final : LoopState}
    (ran : run loopStep (.start memory) events = some final) : final.broker.Filled := by
  have empty : (LoopState.start memory).broker.Filled := by
    intro slot
    refine ⟨fun packet member => ?_, fun packet current => ?_⟩
    · cases member
    · cases current
  have along : Along loopStep (fun _ _ after => after.broker.Filled) (.start memory) events :=
    Along.of_invariant
      (fun _ _ _ filled stepped _ =>
        ⟨loopStep_filled filled stepped, loopStep_filled filled stepped⟩)
      empty (Along.trivial _ _)
  exact along.final (fun state => state.broker.Filled) empty ran

theorem publishDeliveries_makesFilled {broker : Broker} {context : Nat} {message : Message}
    (forwardable : message.type = mqttTypePublish → message.qos = 0 → Forwardable message) :
    ∀ delivery ∈ publishDeliveries broker context message,
      MakesFilled (publishMessage delivery.topic delivery.payload delivery.len) := by
  intro delivery member
  unfold publishDeliveries publishedTopic at member
  split at member
  · cases member
  · rename_i topic routed
    split at routed
    · rename_i condition
      cases routed
      exact (forwardable condition.1 condition.2.1).makesFilled member
    · cases routed

/-- The serialiser fills its buffer exactly, as long as the offset reaches its end.  It does
for every PUBLISH that is forwarded of a packet that `loop_read` hands to the parser and the
parser accepts, and for every reply, and the packets in the queues are filled so, in every
run of the broker. -/
theorem serialiser_fills :
    (∀ message : Message, message.length ≤ 268435455 → message.Copyable →
      mqttSerialiserSize message ≤ 2 ^ 32 → Fills message) ∧
    (∀ (World : Type) (process : World → Message → Option (List UInt8) → PacketOutcome × World)
      (client : Client) (world : World) (calls : List ReadCall) (call : ReadCall)
      (reader : Reader) (rc : ParserRc) (final : ParseState), FreshSlot client →
      .parse reader ∈ readPoints call.events call.answers
        ⟨(readCalls process (client, world) calls).1.reader, call.memory, call.incoming⟩ →
      mqttParserExecute { reader.inParser with state := .initial } reader.packet
        reader.inPayload reader.packet.length.toNat 0 = some (rc, final) →
      ¬ (rc = .error ∨ rc = .incomplete) →
      ∀ (broker : Broker) (context : Nat),
        (∀ delivery ∈ publishDeliveries broker context final.message,
          MakesFilled (publishMessage delivery.topic delivery.payload delivery.len)) ∧
        ∀ after retCode,
          handleMqttCommand broker context final.message = some (after, retCode) →
          broker.Filled → after.Filled) ∧
    (∀ (lastMid : UInt16) (retCode : UInt8), ∀ call ∈ ackCalls,
      ∀ message, ackMessage lastMid call.1 call.2 retCode = some message →
        MakesFilled message) ∧
    ∀ (memory : Memory) (events : List LoopEvent) (final : LoopState),
      run loopStep (.start memory) events = some final → final.broker.Filled := by
  refine ⟨fun message => fills_of_reached, ?_,
    fun lastMid retCode call member message => ackMessage_makesFilled member,
    fun memory events final => run_filled⟩
  intro World process client world calls call reader rc final fresh point parsed goesOn broker
    context
  have slot := @readCalls_keeps World process (client, world)
    (show SlotReader client.reader from fresh.reader ▸ .zero) calls
  obtain ⟨_, length, bounded⟩ := readPoints_safe slot call.events call.answers _ point
  have accepted : AcceptedParse { reader.inParser with state := .initial } reader.packet
      reader.inPayload final := ⟨rfl, length, bounded, rc, parsed, goesOn⟩
  exact ⟨publishDeliveries_makesFilled accepted.forwardable,
    fun after retCode handled filled =>
      handleMqttCommand_filled filled context accepted.forwardable handled⟩

/-- The frame of a PUBLISH of the content `b` to the topic `a`. -/
theorem serialiser_fills_oneByte :
    Fills (publishMessage (.ofBuffer [0x61]) [0x62] 1) :=
  serialiser_fills.1 (publishMessage (.ofBuffer [0x61]) [0x62] 1) (by decide)
    (by unfold Message.Copyable; decide) (by decide)

end MuMQ
