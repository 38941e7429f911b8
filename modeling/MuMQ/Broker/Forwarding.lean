import MuMQ.Broker.Conversation
import MuMQ.Broker.FilledQueues

namespace MuMQ

open Data

/-! All the frames that handling a packet puts into the queues, byte by byte. -/

/-- The frames that a step enqueues on a slot. -/
def framesEnqueued (slot : Nat) (before after : LoopState) : List (List UInt8) :=
  (addedPackets before.broker after.broker slot).map Packet.sendBuf

/-- The packets are enqueued, whatever the counter says: a CONNECT sets it to 0. -/
def Sender.Holds (before : Sender) (packets : List Packet) (after : Sender) : Prop :=
  ∃ count, after = { packets.foldl Sender.enqueue before with numSendingPack := count }

theorem Sender.Holds.refl (sender : Sender) : sender.Holds [] sender :=
  ⟨sender.numSendingPack, rfl⟩

theorem Sender.enqueueAll_count (packets : List Packet) (sender : Sender) (count : Int) :
    { sender with numSendingPack := count }.Holds packets
      (packets.foldl Sender.enqueue sender) := by
  induction packets generalizing sender count with
  | nil => exact ⟨sender.numSendingPack, rfl⟩
  | cons packet rest induction => exact induction (sender.enqueue packet) (count + 1)

theorem Sender.Holds.trans {first second third : Sender} {early late : List Packet}
    (left : first.Holds early second) (right : second.Holds late third) :
    first.Holds (early ++ late) third := by
  obtain ⟨count, rfl⟩ := left
  obtain ⟨_, rfl⟩ := right
  obtain ⟨_, same⟩ := Sender.enqueueAll_count late
    { early.foldl Sender.enqueue first with numSendingPack := count }
    (early.foldl Sender.enqueue first).numSendingPack
  rw [same]
  exact ⟨_, by rw [List.foldl_append]⟩

/-- `after` comes from `before` by enqueueing on every slot the packets listed for it, each
made of new blocks. -/
structure Enqueued (before after : Broker) (packets : Nat → List Packet) : Prop where
  senders : ∀ slot, (before.clients slot).sender.Holds (packets slot) (after.clients slot).sender
  allocated : ∀ slot, ∀ packet ∈ packets slot,
    before.memory.calls ≤ packet.address ∧ packet.address < after.memory.calls
  ordered : ∀ slot, ((packets slot).map Packet.address).Pairwise (· < ·)
  memory : Memory.Extends before.memory after.memory

/-- The bytes of the frames put into the queues. -/
def Delivers (before after : Broker) (frames : Nat → List (List UInt8)) : Prop :=
  ∃ packets, Enqueued before after packets ∧
    ∀ slot, (packets slot).map Packet.sendBuf = frames slot

theorem Sent.enqueued {before after : Broker} {packets : Nat → List Packet}
    (sent : Sent before after packets) : Enqueued before after packets :=
  ⟨fun slot => ⟨(after.clients slot).sender.numSendingPack, by rw [← sent.senders slot]⟩,
    sent.allocated, sent.ordered, sent.memory⟩

theorem Enqueued.trans {before middle after : Broker} {first second : Nat → List Packet}
    (left : Enqueued before middle first) (right : Enqueued middle after second) :
    Enqueued before after fun slot => first slot ++ second slot where
  senders slot := (left.senders slot).trans (right.senders slot)
  allocated slot packet member := by
    rcases List.mem_append.mp member with early | late
    · obtain ⟨lower, upper⟩ := left.allocated slot packet early
      exact ⟨lower, Nat.lt_of_lt_of_le upper right.memory.calls⟩
    · obtain ⟨lower, upper⟩ := right.allocated slot packet late
      exact ⟨Nat.le_trans left.memory.calls lower, upper⟩
  ordered slot := by
    rw [List.map_append, List.pairwise_append]
    refine ⟨left.ordered slot, right.ordered slot, ?_⟩
    intro early earlyMember late lateMember
    obtain ⟨first, firstMember, rfl⟩ := List.mem_map.mp earlyMember
    obtain ⟨second, secondMember, rfl⟩ := List.mem_map.mp lateMember
    exact Nat.lt_of_lt_of_le (left.allocated slot first firstMember).2
      (right.allocated slot second secondMember).1
  memory := left.memory.trans right.memory

theorem Enqueued.quiet {before after : Broker}
    (senders : ∀ slot, (before.clients slot).sender.Holds [] (after.clients slot).sender)
    (memory : Memory.Extends before.memory after.memory) :
    Enqueued before after fun _ => [] where
  senders := senders
  allocated _ _ member := by cases member
  ordered _ := .nil
  memory := memory

namespace Delivers

variable {before middle after : Broker} {frames further : Nat → List (List UInt8)}

theorem trans (left : Delivers before middle frames) (right : Delivers middle after further) :
    Delivers before after fun slot => frames slot ++ further slot := by
  obtain ⟨first, leftEnqueued, leftFrames⟩ := left
  obtain ⟨second, rightEnqueued, rightFrames⟩ := right
  refine ⟨_, leftEnqueued.trans rightEnqueued, fun slot => ?_⟩
  rw [List.map_append, leftFrames, rightFrames]

theorem quiet
    (senders : ∀ slot, (before.clients slot).sender.Holds [] (after.clients slot).sender)
    (memory : Memory.Extends before.memory after.memory) :
    Delivers before after fun _ => [] :=
  ⟨_, Enqueued.quiet senders memory, fun _ => rfl⟩

theorem of_eq (delivers : Delivers before after frames) (same : ∀ slot, frames slot = further slot) :
    Delivers before after further := by
  rwa [funext same] at delivers

theorem andQuiet (delivers : Delivers before middle frames)
    (senders : ∀ slot, (middle.clients slot).sender.Holds [] (after.clients slot).sender)
    (memory : Memory.Extends middle.memory after.memory) : Delivers before after frames :=
  (delivers.trans (quiet senders memory)).of_eq fun _ => List.append_nil _

theorem addedFrames (delivers : Delivers before after frames) {slot : Nat}
    (sound : (before.clients slot).sender.Sound before.memory.calls) :
    (addedPackets before after slot).map Packet.sendBuf = frames slot := by
  obtain ⟨packets, enqueued, sendBuf⟩ := delivers
  obtain ⟨_, extended⟩ := sound.enqueueAll (enqueued.allocated slot) (enqueued.ordered slot)
    enqueued.memory.calls
  obtain ⟨_, holds⟩ := enqueued.senders slot
  have list := congrArg Sender.sendingPacket holds
  rw [← sendBuf, addedPackets, list]
  show (List.drop _ (List.foldl Sender.enqueue _ (packets slot)).sendingPacket).map _ = _
  rw [extended.list, List.drop_left]

end Delivers

/-- A PUBLISH as `publish_msg` makes it; the first length byte counts in 255. -/
def forwardedFrame (topic : CString) (payload : List UInt8) : List UInt8 :=
  0x30 :: (Base128.encode (2 + topic.strlen + payload.length) ++
    UInt8.ofNat (topic.strlen / 255) :: UInt8.ofNat (topic.strlen % 256) ::
      (topic.bytes ++ payload))

theorem highDigit_eq (length : UInt32) :
    (length / 0xff).toUInt8 = UInt8.ofNat (length.toNat / 255) := by
  apply UInt8.toNat_inj.mp
  rw [UInt32.toNat_toUInt8, UInt32.toNat_div, UInt8.toNat_ofNat']
  rfl

theorem lowDigit_eq (length : UInt32) :
    (length &&& 0xff).toUInt8 = UInt8.ofNat (length.toNat % 256) := by
  apply UInt8.toNat_inj.mp
  rw [UInt32.toNat_toUInt8, UInt32.toNat_and, UInt8.toNat_ofNat']
  show (length.toNat &&& 255) % 256 = length.toNat % 256 % 256
  rw [and_255_eq]

theorem newPacket_forwarded (memory : Memory) {topic : CString} {payload : List UInt8}
    (bounded : 2 + topic.strlen + payload.length ≤ 268435455) :
    (newPacket memory
        (publishMessage topic payload (UInt32.ofNat payload.length))).1.sendBuf =
      forwardedFrame topic payload := by
  have length := publishMessage_length payload bounded
  obtain ⟨topicLength, topicBytes⟩ :=
    publishMessage_topicName payload bounded (UInt32.ofNat payload.length)
  obtain ⟨_, contentBytes⟩ := publishMessage_content payload bounded
  rw [(newPacket_publish payload bounded memory).sendBuf, frameBytes_publish rfl, headerBytes,
    stringBytes, highDigit_eq, lowDigit_eq, length, topicLength, topicBytes, contentBytes,
    forwardedFrame]
  simp
  rfl

theorem sendMessage_delivers (broker : Broker) (context : Nat) (message : Message) :
    Delivers broker (sendMessage broker context message) fun slot =>
      if slot = context then [(newPacket broker.memory message).1.sendBuf] else [] := by
  refine ⟨_, (sendMessage_sent broker context message).enqueued, fun slot => ?_⟩
  by_cases own : slot = context
  · rw [if_pos own]
    exact (if_pos own).symm
  · rw [if_neg own]
    exact (if_neg own).symm

/-- Publishing to a list of clients puts one frame into a queue for each time the client is
in the list. -/
theorem publishAll_delivers (broker : Broker) {topic : CString} {payload : List UInt8}
    (bounded : 2 + topic.strlen + payload.length ≤ 268435455) (contexts : List Nat) :
    Delivers broker
      ((contexts.map fun context =>
          (⟨context, topic, payload, UInt32.ofNat payload.length⟩ : Delivery)).foldl
        (fun broker delivery =>
          publishMsg broker delivery.context delivery.topic delivery.payload delivery.len)
        broker)
      fun slot => List.replicate (contexts.count slot) (forwardedFrame topic payload) := by
  induction contexts generalizing broker with
  | nil => exact Delivers.quiet (fun _ => .refl _) (Memory.Extends.refl _)
  | cons context rest induction =>
      rw [List.map_cons, List.foldl_cons]
      refine ((sendMessage_delivers broker context _).trans (induction _)).of_eq fun slot => ?_
      rw [newPacket_forwarded broker.memory bounded, List.count_cons]
      by_cases own : slot = context
      · subst own
        rw [if_pos rfl, beq_self_eq_true, if_pos rfl, List.replicate_succ]
        rfl
      · rw [if_neg own, if_neg fun same => own (eq_of_beq same).symm]
        rfl

section Handlers

variable {broker after : Broker} {context : Nat} {message : Message} {rc : UInt8}

theorem subsProcess_congr {clients clients' : Nat → Client}
    (same : ∀ slot, (clients' slot).isSubscribe = (clients slot).isSubscribe)
    (leaves : List Subleaf) : subsProcess clients' leaves = subsProcess clients leaves := by
  induction leaves with
  | nil => rfl
  | cons leaf rest induction => rw [subsProcess, subsProcess, same, induction]

theorem subTreeProcess_congr {clients clients' : Nat → Client}
    (same : ∀ slot, (clients' slot).isSubscribe = (clients slot).isSubscribe)
    (tokens : List Token) (chain : Subhier) :
    subTreeProcess clients' tokens chain = subTreeProcess clients tokens chain := by
  rw [subTreeProcess_eq, subTreeProcess_eq]
  apply List.flatMap_congr
  intro site _
  rw [rootCallbacksAt, rootCallbacksAt, subsProcess_congr same]

/-- The PUBLISHs that a message leads to on a slot. -/
def forwardedFrames (broker : Broker) (message : Message) (slot : Nat) : List (List UInt8) :=
  match publishedTopic message with
  | some topic =>
      List.replicate ((subTreeProcess broker.clients (tokens topic) broker.subs).count slot)
        (forwardedFrame topic message.publish.content.bytes)
  | none => []

theorem ackMsg_delivers (mqttCmd : UInt8) (payloadLen : UInt32) (retCode : UInt8)
    {frame : List UInt8}
    (made : ∃ message,
      ackMessage (broker.clients context).lastMid mqttCmd payloadLen retCode = some message ∧
        replyFrames [(newPacket broker.memory message).1] = [frame]) :
    Delivers broker (ackMsg broker context mqttCmd payloadLen retCode) fun slot =>
      if slot = context then [frame] else [] := by
  obtain ⟨message, made, reply⟩ := made
  have sendBuf : (newPacket broker.memory message).1.sendBuf = frame := by
    unfold replyFrames at reply
    by_cases isReply : (newPacket broker.memory message).1.isReply = true
    · rw [List.filter_cons_of_pos isReply] at reply
      exact (List.cons.inj reply).1
    · rw [List.filter_cons_of_neg isReply] at reply
      cases reply
  rw [ackMsg, made, ← sendBuf]
  exact sendMessage_delivers broker context message

theorem handlePublish_delivers (unfailing : broker.memory.Unfailing)
    (type : message.type = mqttTypePublish) (forwardable : message.qos = 0 → Forwardable message) :
    Delivers broker (handlePublish broker context message) (forwardedFrames broker message) := by
  cases routed : publishedTopic message with
  | none =>
      rw [handlePublish_unrouted type routed]
      refine (Delivers.quiet (fun _ => .refl _) (Memory.Extends.refl _)).of_eq fun slot => ?_
      rw [forwardedFrames, routed]
  | some topic =>
      obtain ⟨qos, _, rfl⟩ := publishedTopic_eq_some routed
      obtain ⟨bounded, content⟩ := forwardable qos
      have strlen := CString.strlen_ofBuffer_le message.publish.topicName.bytes
      obtain ⟨extended, ⟨_, deliveries⟩ | ⟨_, _, failing⟩⟩ :=
        mqtt3SubTreeProcess_cases (routedFrom broker context message)
          (CString.ofBuffer message.publish.topicName.bytes)
          message.publish.content.bytes message.publish.content.length
      · let routedBroker : Broker :=
          { routedFrom broker context message with
            memory :=
              (mqtt3SubTreeProcess (routedFrom broker context message)
                (CString.ofBuffer message.publish.topicName.bytes) message.publish.content.bytes
                message.publish.content.length).1 }
        have contexts : subTreeProcess (routedFrom broker context message).clients
              (tokens (CString.ofBuffer message.publish.topicName.bytes))
              (routedFrom broker context message).subs =
            subTreeProcess broker.clients
              (tokens (CString.ofBuffer message.publish.topicName.bytes)) broker.subs :=
          subTreeProcess_congr (routedFrom_isSubscribe broker context message) _ _
        rw [handlePublish_routed routed, publishDeliveries_routed routed, deliveries, contexts]
        have quiet := (routedFrom_sent broker context message extended).enqueued
        have noted : Delivers broker routedBroker fun _ => [] := ⟨_, quiet, fun _ => rfl⟩
        have sent := publishAll_delivers routedBroker
          (show 2 + (CString.ofBuffer message.publish.topicName.bytes).strlen +
            message.publish.content.bytes.length ≤ 268435455 by omega)
          (subTreeProcess broker.clients
            (tokens (CString.ofBuffer message.publish.topicName.bytes)) broker.subs)
        rw [← content] at sent
        refine (noted.trans sent).of_eq fun slot => ?_
        rw [forwardedFrames, routed]
        rfl
      · exact absurd unfailing failing

theorem forwardedFrames_of_ne (other : message.type ≠ mqttTypePublish) (slot : Nat) :
    forwardedFrames broker message slot = [] := by
  have unrouted : publishedTopic message = none := if_neg fun routed => other routed.1
  rw [forwardedFrames, unrouted]

/-- What a message is answered on its own slot, and what it leads to on every slot. -/
def handledFrames (broker : Broker) (context : Nat) (message : Message) (slot : Nat) :
    List (List UInt8) :=
  let talk := (broker.clients context).talk
  forwardedFrames broker message slot ++
    if slot = context then replyWith (talk.listen message).lastMid message (talk.code message)
    else []

theorem handledFrames_of_ne (other : message.type ≠ mqttTypePublish) {replies : List (List UInt8)}
    (same : replyWith ((broker.clients context).talk.listen message).lastMid message
      ((broker.clients context).talk.code message) = replies) (slot : Nat) :
    handledFrames broker context message slot = if slot = context then replies else [] := by
  unfold handledFrames
  simp only [forwardedFrames_of_ne other, same, List.nil_append]

theorem handleConnect_delivers (type : message.type = mqttTypeConnect)
    (own : (broker.clients context).sock = context) :
    Delivers broker (handleConnect broker context message).1
      (handledFrames broker context message) := by
  obtain ⟨_, code⟩ := handleConnect_hears type own
  have notPublish : message.type ≠ mqttTypePublish := by rw [type]; decide
  have replies := handledFrames_of_ne notPublish (replyWith_connect type
    ((broker.clients context).talk.listen message).lastMid
    ((broker.clients context).talk.code message))
  rw [← code] at replies
  have connack (sender : Broker) (retCode : UInt8) :
      Delivers sender (ackMsg sender context mqttTypeConnack 2 retCode) fun slot =>
        if slot = context then [[0x20, 2, 0, retCode]] else [] :=
    ackMsg_delivers _ _ _ (newPacket_connack sender.memory _ retCode)
  unfold handleConnect at replies ⊢
  simp only at replies ⊢
  split at replies
  · rename_i long
    rw [if_pos long]
    exact (connack broker 2).of_eq fun slot => (replies slot).symm
  · rename_i fits
    rw [if_neg fits]
    split at replies
    · rename_i present
      rw [if_pos present]
      have added : Delivers broker
          (addClient broker message.connect.clientId (broker.clients context).sock)
          fun _ => [] := by
        refine Delivers.quiet (fun slot => ?_) (Memory.Extends.refl broker.memory)
        unfold addClient Broker.modifyClient
        simp only
        split
        · rename_i isOwn
          exact isOwn ▸ ⟨0, rfl⟩
        · exact .refl _
      exact (added.trans (connack _ 0)).of_eq fun slot => (replies slot).symm
    · rename_i absent
      rw [if_neg absent]
      exact (connack broker 0).of_eq fun slot => (replies slot).symm

theorem modifyClient_quiet (broker : Broker) (slot : Nat) (change : Client → Client)
    (sender : ∀ client, (change client).sender = client.sender) (other : Nat) :
    ((broker.modifyClient slot change).clients other).sender =
      (broker.clients other).sender := by
  by_cases own : other = slot
  · rw [own, Broker.modifyClient_self, sender]
  · rw [Broker.modifyClient_other _ _ own]

theorem Sender.Holds.of_eq {before after : Sender} (same : after = before) :
    before.Holds [] after := same ▸ .refl before

theorem subscribeTopic_quiet
    (ran : subscribeTopic broker context message = some (after, rc)) :
    Delivers broker after fun _ => [] := by
  have unchanged : Delivers broker broker fun _ => [] :=
    Delivers.quiet (fun _ => .refl _) (Memory.Extends.refl _)
  unfold subscribeTopic at ran
  split at ran
  · cases ran
    exact unchanged
  · split at ran
    · split at ran
      · simp only at ran
        split at ran
        · cases ran
        · rename_i grown failure addRan
          have added := mqtt3SubAdd_added addRan
          have noted := modifyClient_quiet broker context
            (fun client => { client with lastMid := message.subscribe.messageId })
            fun _ => rfl
          have quiet : Delivers broker grown fun _ => [] := by
            apply Delivers.quiet (fun slot => ?_)
              ((Memory.Extends.mallocUnchecked broker.memory).trans added.memory)
            obtain ⟨subs, subCount, client⟩ := added.client slot
            apply Sender.Holds.of_eq
            rw [client]
            exact noted slot
          split at ran
          · cases ran
            have flagged := modifyClient_quiet grown context setSubscribed fun _ => rfl
            exact quiet.andQuiet (fun slot => .of_eq (flagged slot)) (Memory.Extends.refl _)
          · cases ran
            exact quiet
      · cases ran
        exact unchanged
    · cases ran
      exact unchanged

theorem handleSubscribe_delivers (type : message.type = mqttTypeSubscribe)
    (unfailing : broker.memory.Unfailing)
    (ran : handleSubscribe broker context message = some (after, rc)) :
    Delivers broker after (handledFrames broker context message) := by
  have notPublish : message.type ≠ mqttTypePublish := by rw [type]; decide
  have replies := handledFrames_of_ne notPublish (replyWith_subscribe type
    ((broker.clients context).talk.listen message).lastMid
    ((broker.clients context).talk.code message))
  unfold handleSubscribe at ran
  split at ran
  · cases ran
  · rename_i middle code topicRan
    cases ran
    obtain ⟨heard, result⟩ := subscribeTopic_hears type unfailing topicRan
    have lastMid : (middle.clients context).lastMid =
        ((broker.clients context).talk.listen message).lastMid := by
      have talk := heard context
      rw [if_pos rfl] at talk
      exact congrArg Talk.lastMid talk
    rw [← result, ← lastMid] at replies
    have suback := ackMsg_delivers mqttTypeSuback 3 rc
      (newPacket_suback middle.memory (middle.clients context).lastMid rc)
    exact ((subscribeTopic_quiet topicRan).trans suback).of_eq fun slot => (replies slot).symm

/-- Every frame that handling a message enqueues, on any slot, byte by byte. -/
theorem handleMqttCommand_delivers (own : (broker.clients context).sock = context)
    (unfailing : broker.memory.Unfailing)
    (forwardable : message.type = mqttTypePublish → message.qos = 0 → Forwardable message)
    (ran : handleMqttCommand broker context message = some (after, rc)) :
    Delivers broker after (handledFrames broker context message) := by
  unfold handleMqttCommand at ran
  simp only at ran
  split at ran
  · cases ran
  · rename_i middle retCode arm
    cases ran
    have freed := modifyClient_quiet middle context
      (fun client => { client with reader := { client.reader with inPacket := none } })
      fun _ => rfl
    suffices delivers : Delivers broker middle (handledFrames broker context message) from
      delivers.andQuiet (fun slot => .of_eq (freed slot)) (Memory.Extends.refl _)
    have silent (notPublish : message.type ≠ mqttTypePublish)
        (nothing : ∀ messageId code, replyWith messageId message code = []) :
        Delivers broker broker (handledFrames broker context message) := by
      refine (Delivers.quiet (fun _ => .refl _) (Memory.Extends.refl _)).of_eq fun slot => ?_
      rw [handledFrames_of_ne notPublish (nothing _ _), ite_self]
    split at arm
    · rename_i publish
      cases arm
      refine (handlePublish_delivers unfailing publish (forwardable publish)).of_eq fun slot => ?_
      unfold handledFrames
      simp only [replyWith_publish publish, ite_self, List.append_nil]
    · rename_i notPublish
      split at arm
      · rename_i connect
        have delivers := handleConnect_delivers connect own
        rw [Option.some.inj arm] at delivers
        exact delivers
      · rename_i notConnect
        split at arm
        · rename_i subscribe
          exact handleSubscribe_delivers subscribe unfailing arm
        · rename_i notSubscribe
          split at arm
          · rename_i pingreq
            cases arm
            have pong (messageId : UInt16) (code : UInt8) :
                replyWith messageId message code = [[0xd0, 0]] := by
              rw [replyWith, if_neg notConnect, if_neg notSubscribe, if_pos pingreq]
            have replies := handledFrames_of_ne notPublish
              (pong ((broker.clients context).talk.listen message).lastMid
                ((broker.clients context).talk.code message))
            have pingresp := ackMsg_delivers mqttTypePingresp 0 0
              (newPacket_pingresp broker.memory (broker.clients context).lastMid)
            exact pingresp.of_eq fun slot => (replies slot).symm
          · rename_i notPingreq
            have nothing (messageId : UInt16) (code : UInt8) :
                replyWith messageId message code = [] := by
              rw [replyWith, if_neg notConnect, if_neg notSubscribe, if_neg notPingreq]
            split at arm
            · cases arm
              exact silent notPublish nothing
            · split at arm
              · cases arm
                exact silent notPublish nothing
              · cases arm
                exact silent notPublish nothing

end Handlers

/-- What the step of a packet enqueues, on any slot. -/
theorem framesEnqueued_packet {before after : LoopState} (talkative : Talkative before)
    {slot : Nat} {frame : WireFrame} (stepped : loopStep (.packet slot frame) before = some after)
    {message : Message} (parsed : parsedMessage before.broker slot frame = some message)
    (watched : Nat) :
    framesEnqueued watched before after = handledFrames before.broker slot message watched := by
  obtain ⟨isOpen, _, whole, packetTaken⟩ := loopStep_packet stepped
  cases packetTaken with
  | @rejected rc final parse rejected =>
      rw [parsedMessage, show parsePacket before.broker slot frame = _ from parse] at parsed
      simp only [if_pos rejected] at parsed
      cases parsed
  | @handled rc final middle retCode session parse taken ran =>
      rw [parsedMessage, show parsePacket before.broker slot frame = _ from parse] at parsed
      simp only [if_neg taken] at parsed
      cases parsed
      have own := talkative.sound.sock slot isOpen
      have forwardable := (acceptedParse_of_whole whole parse taken).forwardable
      have kept := keepParser_sent middle slot final.parser
      have delivers := (handleMqttCommand_delivers own talkative.unfailing forwardable ran).andQuiet
        (fun other => .of_eq (kept.senders other)) kept.memory
      exact delivers.addedFrames (talkative.sound.senders watched)

end MuMQ
