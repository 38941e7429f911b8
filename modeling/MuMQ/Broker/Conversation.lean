import MuMQ.Broker.Replies
import MuMQ.Data.Component

namespace MuMQ

open Data

/-! What a connection is answered depends on its own packets alone. -/

/-- What the handlers look up in a slot before they answer. -/
structure Talk where
  inParser : Parser
  state : ClientState
  id : List UInt8
  lastMid : UInt16
  deriving DecidableEq

namespace Talk

/-- As `clean_context` leaves a slot. -/
def fresh : Talk := ⟨.zero, .csNew, List.replicate 24 0, 0⟩

/-- What is looked up after a message. -/
def listen (message : Message) (talk : Talk) : Talk :=
  if AcceptedConnect message then
    { talk with state := .csConnected, id := paddedId message.connect.clientId.bytes }
  else if (publishedTopic message).isSome then
    { talk with lastMid := message.publish.messageId }
  else if (subscribedFilter message).isSome ∧ talk.state = .csConnected then
    { talk with lastMid := message.subscribe.messageId }
  else talk

/-- The return code of `handle_mqtt_command` when no allocation fails. -/
def code (message : Message) (talk : Talk) : UInt8 :=
  if message.type = mqttTypeConnect then
    if message.connect.clientId.length > 23 then 2 else 0
  else if (subscribedFilter message).isSome then
    if talk.state = .csConnected then 0 else 0x80
  else if message.type = mqttTypeDisconnect then 1
  else 0

end Talk

def Client.talk (client : Client) : Talk :=
  ⟨client.reader.inParser, client.state, client.id, client.lastMid⟩

/-! What handling a message does to what is looked up. -/

section Handlers

variable {broker after : Broker} {context : Nat} {message : Message} {rc : UInt8}

theorem sendMessage_talk (broker : Broker) (context : Nat) (message : Message) (slot : Nat) :
    ((sendMessage broker context message).clients slot).talk = (broker.clients slot).talk := by
  obtain ⟨sender, client⟩ := broker.modifySender_client context
    (·.enqueue (newPacket broker.memory message).1) slot
  have talk := congrArg Client.talk client
  exact talk

theorem ackMsg_talk (broker : Broker) (context : Nat) (mqttCmd : UInt8) (payloadLen : UInt32)
    (retCode : UInt8) (slot : Nat) :
    ((ackMsg broker context mqttCmd payloadLen retCode).clients slot).talk =
      (broker.clients slot).talk := by
  unfold ackMsg
  split
  · exact sendMessage_talk ..
  · rfl

theorem publishAll_talk (broker : Broker) (deliveries : List Delivery) (slot : Nat) :
    ((deliveries.foldl
        (fun broker delivery =>
          publishMsg broker delivery.context delivery.topic delivery.payload delivery.len)
        broker).clients slot).talk = (broker.clients slot).talk := by
  induction deliveries generalizing broker with
  | nil => rfl
  | cons delivery rest induction =>
      rw [List.foldl_cons, induction]
      exact sendMessage_talk ..

theorem modifyClient_talk (broker : Broker) (context : Nat) (change : Client → Client)
    (heard : Talk → Talk) (talks : ∀ client, (change client).talk = heard client.talk)
    (slot : Nat) :
    ((broker.modifyClient context change).clients slot).talk =
      if slot = context then heard (broker.clients slot).talk
      else (broker.clients slot).talk := by
  by_cases own : slot = context
  · subst own
    rw [Broker.modifyClient_self, if_pos rfl, talks]
  · rw [Broker.modifyClient_other _ _ own, if_neg own]

theorem modifyClient_same (broker : Broker) (context : Nat) (change : Client → Client)
    (same : ∀ client, (change client).talk = client.talk) (slot : Nat) :
    ((broker.modifyClient context change).clients slot).talk = (broker.clients slot).talk := by
  rw [modifyClient_talk broker context change id same]
  exact ite_self _

/-- The message is heard on its own slot. -/
def Hears (broker : Broker) (context : Nat) (message : Message) (after : Broker) : Prop :=
  ∀ slot, (after.clients slot).talk =
    if slot = context then (broker.clients slot).talk.listen message
    else (broker.clients slot).talk

theorem Hears.of_same (same : ∀ slot, (after.clients slot).talk = (broker.clients slot).talk)
    (deaf : (broker.clients context).talk.listen message = (broker.clients context).talk) :
    Hears broker context message after := by
  intro slot
  rw [same]
  split
  · rename_i own
    rw [own, deaf]
  · rfl

theorem Talk.listen_subscribe (type : message.type = mqttTypeSubscribe) (talk : Talk) :
    talk.listen message =
      if (subscribedFilter message).isSome ∧ talk.state = .csConnected then
        { talk with lastMid := message.subscribe.messageId }
      else talk := by
  have notConnect : ¬ AcceptedConnect message := fun accepted =>
    absurd (type.symm.trans accepted.1) (by decide)
  have unrouted : publishedTopic message = none :=
    if_neg fun routed => absurd (type.symm.trans routed.1) (by decide)
  rw [listen, if_neg notConnect, unrouted]
  rfl

theorem handlePublish_hears (type : message.type = mqttTypePublish) :
    Hears broker context message (handlePublish broker context message) := by
  have notConnect : ¬ AcceptedConnect message := fun accepted => accepted.notPublish type
  have noFilter : subscribedFilter message = none := if_neg (by rw [type]; decide)
  have deaf (unrouted : publishedTopic message = none) (talk : Talk) :
      talk.listen message = talk := by
    rw [Talk.listen, if_neg notConnect, unrouted, noFilter]
    rfl
  unfold handlePublish
  split
  · rename_i qos
    split
    · rename_i there
      have routed : (publishedTopic message).isSome = true := by
        rw [publishedTopic, if_pos ⟨type, qos, there⟩]
        rfl
      intro slot
      rw [publishAll_talk]
      apply modifyClient_talk broker context
        (fun client => { client with lastMid := message.publish.messageId })
      intro client
      rw [Talk.listen, if_neg notConnect, if_pos routed]
      rfl
    · rename_i absent
      refine Hears.of_same (fun _ => rfl) (deaf (if_neg ?_) _)
      exact fun routed => absent routed.2.2
  · rename_i qos
    refine Hears.of_same (fun _ => rfl) (deaf (if_neg ?_) _)
    exact fun routed => qos routed.2.1

theorem handlePublish_code (type : message.type = mqttTypePublish) (talk : Talk) :
    talk.code message = 0 := by
  have noFilter : subscribedFilter message = none := if_neg (by rw [type]; decide)
  rw [Talk.code, type, noFilter]
  rfl

theorem Hears.andSame (hears : Hears broker context message after) {final : Broker}
    (same : ∀ slot, (final.clients slot).talk = (after.clients slot).talk) :
    Hears broker context message final := fun slot => (same slot).trans (hears slot)

theorem Hears.andAck (hears : Hears broker context message after) (mqttCmd : UInt8)
    (payloadLen : UInt32) (retCode : UInt8) :
    Hears broker context message (ackMsg after context mqttCmd payloadLen retCode) :=
  hears.andSame (ackMsg_talk after context mqttCmd payloadLen retCode)

theorem handleConnect_hears (type : message.type = mqttTypeConnect)
    (own : (broker.clients context).sock = context) :
    Hears broker context message (handleConnect broker context message).1 ∧
      (handleConnect broker context message).2 = (broker.clients context).talk.code message := by
  have unrouted : publishedTopic message = none :=
    if_neg fun routed => absurd (type.symm.trans routed.1) (by decide)
  have noFilter : subscribedFilter message = none := if_neg (by rw [type]; decide)
  have deaf (refused : ¬ AcceptedConnect message) :
      Hears broker context message broker := by
    apply Hears.of_same fun _ => rfl
    rw [Talk.listen, if_neg refused, unrouted, noFilter]
    rfl
  rw [Talk.code, if_pos type]
  unfold handleConnect
  simp only
  split
  · rename_i long
    have heard := (deaf fun accepted => accepted.2.2 long).andAck mqttTypeConnack 2 2
    exact ⟨heard, rfl⟩
  · rename_i fits
    split
    · rename_i present
      have added : Hears broker context message
          (addClient broker message.connect.clientId (broker.clients context).sock) := by
        rw [own]
        apply modifyClient_talk
        intro client
        rw [Talk.listen, if_pos ⟨type, present, fits⟩]
        rfl
      exact ⟨added.andAck mqttTypeConnack 2 0, rfl⟩
    · rename_i absent
      have heard := (deaf fun accepted => absent accepted.2.1).andAck mqttTypeConnack 2 0
      exact ⟨heard, rfl⟩

theorem subscribeTopic_hears (type : message.type = mqttTypeSubscribe)
    (unfailing : broker.memory.Unfailing)
    (ran : subscribeTopic broker context message = some (after, rc)) :
    Hears broker context message after ∧ rc = (broker.clients context).talk.code message := by
  have listen := Talk.listen_subscribe type
  have code (talk : Talk) : talk.code message =
      if (subscribedFilter message).isSome then
        if talk.state = .csConnected then 0 else 0x80
      else 0 := by
    rw [Talk.code, if_neg (by rw [type]; decide), type]
    rfl
  rw [code]
  unfold subscribeTopic at ran
  split at ran
  · rename_i absent
    cases ran
    have noFilter : subscribedFilter message = none := by
      rw [subscribedFilter, if_pos type, absent]
      rfl
    exact ⟨Hears.of_same (fun _ => rfl) (by rw [listen, noFilter]; rfl), by rw [noFilter]; rfl⟩
  · rename_i pair there
    have filter : subscribedFilter message =
        if pair.name.data.isSome then some (CString.ofBuffer pair.name.bytes) else none := by
      rw [subscribedFilter, if_pos type, there]
      rfl
    split at ran
    · rename_i named
      rw [if_pos named] at filter
      split at ran
      · rename_i isConnected
        simp only at ran
        split at ran
        · cases ran
        · rename_i grown failure addRan
          have added := mqtt3SubAdd_added addRan
          have success : failure = 0 := by
            rcases added.outcome with ⟨zero, _⟩ | ⟨_, _, failing⟩
            · exact zero
            · exact absurd (unfailing.extends (Memory.Extends.mallocUnchecked _)) failing
          have heard : Hears broker context message grown := by
            intro slot
            obtain ⟨subs, subCount, client⟩ := added.client slot
            have talk := congrArg Client.talk client
            rw [talk]
            have noted := modifyClient_talk broker context
              (fun client => { client with lastMid := message.subscribe.messageId })
              (fun talk => { talk with lastMid := message.subscribe.messageId })
              (fun _ => rfl) slot
            refine noted.trans ?_
            by_cases isOwn : slot = context
            · have state : (broker.clients slot).talk.state = .csConnected := by
                rw [isOwn]
                exact isConnected
              rw [if_pos isOwn, if_pos isOwn, listen, filter, if_pos ⟨rfl, state⟩]
            · rw [if_neg isOwn, if_neg isOwn]
          have retCode : UInt8.ofInt failure = 0 := by
            rw [success]
            rfl
          rw [if_pos retCode] at ran
          cases ran
          refine ⟨heard.andSame (modifyClient_same grown context _ fun _ => rfl), ?_⟩
          rw [retCode, filter]
          exact (if_pos isConnected).symm
      · rename_i notConnected
        cases ran
        have deaf : ¬ ((subscribedFilter message).isSome = true ∧
            (broker.clients context).talk.state = .csConnected) :=
          fun both => notConnected both.2
        refine ⟨Hears.of_same (fun _ => rfl) (by rw [listen, if_neg deaf]), ?_⟩
        rw [filter]
        exact (if_neg notConnected).symm
    · rename_i unnamed
      rw [if_neg unnamed] at filter
      cases ran
      exact ⟨Hears.of_same (fun _ => rfl) (by rw [listen, filter]; rfl), by rw [filter]; rfl⟩

theorem handleMqttCommand_hears (own : (broker.clients context).sock = context)
    (unfailing : broker.memory.Unfailing)
    (ran : handleMqttCommand broker context message = some (after, rc)) :
    Hears broker context message after ∧ rc = (broker.clients context).talk.code message := by
  unfold handleMqttCommand at ran
  simp only at ran
  split at ran
  · cases ran
  · rename_i middle retCode arm
    cases ran
    suffices heard : Hears broker context message middle ∧
        rc = (broker.clients context).talk.code message by
      exact ⟨heard.1.andSame (modifyClient_same middle context _ fun _ => rfl), heard.2⟩
    have others (notPublish : message.type ≠ mqttTypePublish)
        (notConnect : message.type ≠ mqttTypeConnect)
        (notSubscribe : message.type ≠ mqttTypeSubscribe) :
        Hears broker context message broker ∧
          (broker.clients context).talk.code message =
            if message.type = mqttTypeDisconnect then 1 else 0 := by
      have noFilter : subscribedFilter message = none := if_neg notSubscribe
      have unrouted : publishedTopic message = none :=
        if_neg fun routed => notPublish routed.1
      constructor
      · apply Hears.of_same fun _ => rfl
        rw [Talk.listen, if_neg fun accepted => notConnect accepted.1, unrouted, noFilter]
        rfl
      · rw [Talk.code, if_neg notConnect, noFilter]
        rfl
    split at arm
    · rename_i publish
      cases arm
      exact ⟨handlePublish_hears publish, (handlePublish_code publish _).symm⟩
    · rename_i notPublish
      split at arm
      · rename_i connect
        have heard := handleConnect_hears connect own
        rw [Option.some.inj arm] at heard
        exact heard
      · rename_i notConnect
        split at arm
        · rename_i subscribe
          unfold handleSubscribe at arm
          split at arm
          · cases arm
          · rename_i subscribed code topicRan
            cases arm
            obtain ⟨heard, result⟩ := subscribeTopic_hears subscribe unfailing topicRan
            exact ⟨heard.andAck _ _ _, result⟩
        · rename_i notSubscribe
          obtain ⟨deaf, code⟩ := others notPublish notConnect notSubscribe
          rw [code]
          split at arm
          · rename_i pingreq
            cases arm
            exact ⟨deaf.andAck _ _ _, (if_neg (by rw [pingreq]; decide)).symm⟩
          · split at arm
            · rename_i unsubscribe
              cases arm
              exact ⟨deaf, (if_neg (by rw [unsubscribe]; decide)).symm⟩
            · split at arm
              · rename_i disconnect
                cases arm
                exact ⟨deaf, (if_pos disconnect).symm⟩
              · rename_i notDisconnect
                cases arm
                exact ⟨deaf, (if_neg notDisconnect).symm⟩

end Handlers

/-- What a connection does to its slot: the socket, whether it is to be closed, and what
the handlers look up. -/
structure Conversation where
  isOpen : Bool
  closing : Bool
  talk : Talk
  deriving DecidableEq

namespace Conversation

def absent : Conversation := ⟨false, false, .fresh⟩

/-- The parser on a complete packet. -/
def parse (frame : WireFrame) (conversation : Conversation) : Option (ParserRc × ParseState) :=
  mqttParserExecute { conversation.talk.inParser with state := .initial } frame.message
    frame.inPayload frame.message.length.toNat 0

/-- The answer to a packet. -/
def hear (frame : WireFrame) (conversation : Conversation) :
    Conversation × List (List UInt8) :=
  let talk := conversation.talk
  match conversation.parse frame with
  | some (rc, final) =>
      if rc = .error ∨ rc = .incomplete then
        ({ conversation with closing := true, talk := { talk with inParser := final.parser } },
          [])
      else
        let message := final.message
        let heard := talk.listen message
        ({ conversation with
            closing := decide (talk.code message ≠ 0)
            talk := { heard with inParser := final.parser } },
          replyWith heard.lastMid message (talk.code message))
  | none => (conversation, [])

/-- The answer to what happens on the slot. -/
def respond : LoopEvent → Conversation → Conversation × List (List UInt8)
  | .accept _, conversation => ({ conversation with isOpen := true }, [])
  | .packet _ frame, conversation => conversation.hear frame
  | .fail _, conversation => ({ conversation with closing := true }, [])
  | .remove _, _ => (absent, [])
  | .flush _ (.write sent false), conversation =>
      ({ conversation with closing := decide (UInt32.ofInt sent ≤ 0) }, [])
  | .flush _ _, conversation => (conversation, [])

end Conversation

/-- The slot that an event is about. -/
def LoopEvent.slot : LoopEvent → Nat
  | .accept sock => sock
  | .packet slot _ => slot
  | .fail slot => slot
  | .remove slot => slot
  | .flush slot _ => slot

def LoopState.conversation (state : LoopState) (slot : Nat) : Conversation :=
  ⟨decide (state.IsOpen slot), decide (state.phase slot = .closing),
    (state.broker.clients slot).talk⟩

theorem LoopState.conversation_eq {state : LoopState} {slot : Nat}
    {conversation : Conversation}
    (isOpen : state.IsOpen slot ↔ conversation.isOpen = true)
    (closing : state.phase slot = .closing ↔ conversation.closing = true)
    (talk : (state.broker.clients slot).talk = conversation.talk) :
    state.conversation slot = conversation := by
  have isOpen : decide (state.IsOpen slot) = conversation.isOpen :=
    Bool.eq_iff_iff.mpr (decide_eq_true_iff.trans isOpen)
  have closing : decide (state.phase slot = .closing) = conversation.closing :=
    Bool.eq_iff_iff.mpr (decide_eq_true_iff.trans closing)
  rw [LoopState.conversation, isOpen, closing, talk]

theorem LoopState.conversation_same {before after : LoopState} {slot : Nat}
    (isOpen : after.IsOpen slot ↔ before.IsOpen slot)
    (phase : after.phase slot = before.phase slot)
    (talk : (after.broker.clients slot).talk = (before.broker.clients slot).talk) :
    after.conversation slot = before.conversation slot := by
  apply LoopState.conversation_eq
  · exact isOpen.trans decide_eq_true_iff.symm
  · rw [phase]
    exact decide_eq_true_iff.symm
  · exact talk

/-- A slot in the broker, with the replies that are put into its queue. -/
def conversationOf (slot : Nat) :
    Component LoopEvent LoopState Conversation (List UInt8) where
  owns event := decide (event.slot = slot)
  view state := state.conversation slot
  output _ before after := repliesEnqueued slot before after
  respond := Conversation.respond

/-! The conversation of a slot, step by step. -/

/-- The reply to a message is the one for the id that is looked up afterwards. -/
theorem replyWith_listen (broker : Broker) (context : Nat) (message : Message) (rc : UInt8) :
    replyWith (answeredId broker context message) message rc =
      replyWith ((broker.clients context).talk.listen message).lastMid message rc := by
  by_cases type : message.type = mqttTypeSubscribe
  · rw [Talk.listen_subscribe type, answeredId]
    by_cases served : (subscribedFilter message).isSome ∧
        (broker.clients context).talk.state = .csConnected
    · rw [if_pos served]
      exact congrArg (replyWith · message rc) (if_pos served)
    · rw [if_neg served]
      exact congrArg (replyWith · message rc) (if_neg served)
  · exact replyWith_of_ne type _ _ _

/-- What the invariant of the component says: the queues are sound and no allocation
fails. -/
structure Talkative (state : LoopState) : Prop where
  sound : state.Sound
  unfailing : state.broker.memory.Unfailing

theorem keepParser_talk (broker : Broker) (context : Nat) (parser : Parser) (slot : Nat) :
    ((broker.modifyClient context (keepParser parser)).clients slot).talk =
      if slot = context then { (broker.clients slot).talk with inParser := parser }
      else (broker.clients slot).talk :=
  modifyClient_talk broker context (keepParser parser)
    (fun talk => { talk with inParser := parser }) (fun _ => rfl) slot

section Packets

variable {conversation : Conversation} {frame : WireFrame} {rc : ParserRc} {final : ParseState}

theorem Conversation.hear_rejected (parsed : conversation.parse frame = some (rc, final))
    (rejected : rc = .error ∨ rc = .incomplete) :
    conversation.hear frame =
      ({ conversation with
          closing := true
          talk := { conversation.talk with inParser := final.parser } },
        []) := by
  unfold hear
  simp only [parsed, if_pos rejected]

theorem Conversation.hear_taken (parsed : conversation.parse frame = some (rc, final))
    (taken : ¬ (rc = .error ∨ rc = .incomplete)) :
    conversation.hear frame =
      ({ conversation with
          closing := decide (conversation.talk.code final.message ≠ 0)
          talk := { conversation.talk.listen final.message with inParser := final.parser } },
        replyWith (conversation.talk.listen final.message).lastMid final.message
          (conversation.talk.code final.message)) := by
  unfold hear
  simp only [parsed, if_neg taken]

variable {slot : Nat} {before after : LoopState}

/-- What a packet is taken for: nothing the parser knows, or a message. -/
inductive PacketTaken (before : LoopState) (slot : Nat) (frame : WireFrame) : LoopState → Prop
  | rejected {rc : ParserRc} {final : ParseState}
      (parsed : (before.conversation slot).parse frame = some (rc, final))
      (rejected : rc = .error ∨ rc = .incomplete) :
      PacketTaken before slot frame
        { before with
          broker := before.broker.modifyClient slot (keepParser final.parser)
          phase := Function.update before.phase slot .closing }
  | handled {rc : ParserRc} {final : ParseState} {middle : Broker} {retCode : UInt8}
      {session : Nat → Session}
      (parsed : (before.conversation slot).parse frame = some (rc, final))
      (taken : ¬ (rc = .error ∨ rc = .incomplete))
      (ran : handleMqttCommand before.broker slot final.message = some (middle, retCode)) :
      PacketTaken before slot frame
        { broker := middle.modifyClient slot (keepParser final.parser)
          phase :=
            if retCode = 0 then before.phase
            else Function.update before.phase slot .closing
          session }

theorem loopStep_packet (stepped : loopStep (.packet slot frame) before = some after) :
    before.IsOpen slot ∧ before.phase slot = .idle ∧ frame.Whole ∧
      PacketTaken before slot frame after := by
  rw [loopStep] at stepped
  split at stepped
  · rename_i ready
    refine ⟨ready.1, ready.2.1, ready.2.2, ?_⟩
    rcases parse : parsePacket before.broker slot frame with _ | ⟨rc, final⟩
    · rw [processPacket, parse] at stepped
      cases stepped
    · by_cases rejected : rc = .error ∨ rc = .incomplete
      · simp only [processPacket, parse, if_pos rejected] at stepped
        cases stepped
        exact .rejected parse rejected
      · simp only [processPacket, parse, if_neg rejected] at stepped
        rcases handling : handleMqttCommand before.broker slot final.message with
          _ | ⟨middle, retCode⟩
        · rw [handling] at stepped
          cases stepped
        · rw [handling] at stepped
          cases stepped
          exact .handled parse rejected handling
  · cases stepped

theorem closing_iff {phase : Nat → Phase} (idle : phase slot = .idle) (retCode : UInt8) :
    (if retCode = 0 then phase else Function.update phase slot .closing) slot = .closing ↔
      retCode ≠ 0 := by
  split
  · rename_i zero
    exact iff_of_false (by rw [idle]; exact Phase.noConfusion) (fun nonzero => nonzero zero)
  · rename_i nonzero
    exact iff_of_true (Function.update_self slot Phase.closing phase) nonzero

theorem conversation_packet (talkative : Talkative before)
    (stepped : loopStep (.packet slot frame) before = some after) :
    (before.conversation slot).hear frame =
        (after.conversation slot, repliesEnqueued slot before after) ∧
      ∀ other, other ≠ slot → after.conversation other = before.conversation other ∧
        repliesEnqueued other before after = [] := by
  obtain ⟨isOpen, idle, _, packetTaken⟩ := loopStep_packet stepped
  cases packetTaken with
  | @rejected rc final parsed rejected =>
      have quiet := keepParser_sent before.broker slot final.parser
      have nothing (other : Nat) : repliesEnqueued other before
          { before with
            broker := before.broker.modifyClient slot (keepParser final.parser)
            phase := Function.update before.phase slot .closing } = [] := by
        rw [repliesEnqueued, quiet.addedPackets (talkative.sound.senders other)]
        rfl
      have talk := keepParser_talk before.broker slot final.parser
      refine ⟨(Conversation.hear_rejected parsed rejected).trans ?_, fun other apart => ?_⟩
      · rw [nothing]
        refine Prod.ext (Eq.symm ?_) rfl
        apply LoopState.conversation_eq
        · exact decide_eq_true_iff.symm
        · exact iff_of_true (Function.update_self slot Phase.closing before.phase) rfl
        · exact (talk slot).trans (if_pos rfl)
      · refine ⟨?_, nothing other⟩
        apply LoopState.conversation_same
        · exact Iff.rfl
        · exact Function.update_of_ne apart Phase.closing before.phase
        · exact (talk other).trans (if_neg apart)
  | @handled rc final middle retCode session parsed taken ran =>
      have own := talkative.sound.sock slot isOpen
      have handled := (handleMqttCommand_handled (parsePacket_shortTopic parsed) ran).andQuiet
        (keepParser_sent middle slot final.parser)
      obtain ⟨heard, code⟩ := handleMqttCommand_hears own talkative.unfailing ran
      have talk := keepParser_talk middle slot final.parser
      have enqueued (other : Nat) :=
        (handled.addedPackets own (talkative.sound.senders other)).2.2
      refine ⟨(Conversation.hear_taken parsed taken).trans ?_, fun other apart => ?_⟩
      · refine Prod.ext (Eq.symm ?_) ?_
        · apply LoopState.conversation_eq
          · rw [LoopState.IsOpen, handled.mem_contextsByPtr]
            exact decide_eq_true_iff.symm
          · rw [decide_eq_true_iff]
            exact (closing_iff idle retCode).trans (by rw [code]; rfl)
          · refine (talk slot).trans ?_
            rw [if_pos rfl, heard, if_pos rfl]
            rfl
        · rw [repliesEnqueued, enqueued, if_pos rfl, replyWith_listen, code]
          rfl
      · constructor
        · apply LoopState.conversation_same handled.mem_contextsByPtr
          · show (if retCode = 0 then before.phase else _) other = _
            split
            · rfl
            · exact Function.update_of_ne apart Phase.closing before.phase
          · refine (talk other).trans ?_
            rw [if_neg apart, heard, if_neg apart]
        · rw [repliesEnqueued, enqueued, if_neg apart]

end Packets

/-- A step of the flush loop closes the connection when `send` fails otherwise than by
blocking. -/
theorem FlushOutcome.closing {before after : Sender} {event : FlushEvent} {phase phase' : Phase}
    (outcome : FlushOutcome before event phase after phase') :
    phase ≠ .closing ∧
      (phase' = .closing ↔ ∃ sent, event = .write sent false ∧ UInt32.ofInt sent ≤ 0) := by
  cases outcome with
  | skipped few => simp
  | began several => simp
  | ended spent => simp
  | unlinked more list free => simp
  | kept more pending => simp
  | @blocked packet sent again numSending current unwritten nothing =>
      refine ⟨Phase.noConfusion, ?_⟩
      cases again with
      | false => exact iff_of_true rfl ⟨sent, rfl, nothing⟩
      | true => simp
  | @wrote packet sent again numSending current unwritten something =>
      refine ⟨Phase.noConfusion, iff_of_false Phase.noConfusion ?_⟩
      rintro ⟨_, same, nothing⟩
      cases same
      exact something nothing
  | finished current written => simp

theorem respond_flush {conversation : Conversation} (slot : Nat) (event : FlushEvent)
    (opened : conversation.closing = false) :
    let responded := conversation.respond (.flush slot event)
    responded.1.isOpen = conversation.isOpen ∧ responded.1.talk = conversation.talk ∧
      (responded.1.closing = true ↔
        ∃ sent, event = .write sent false ∧ UInt32.ofInt sent ≤ 0) ∧
      responded.2 = [] := by
  cases event with
  | begin => simp [Conversation.respond, opened]
  | take => simp [Conversation.respond, opened]
  | write sent again =>
      cases again with
      | false => simp [Conversation.respond]
      | true => simp [Conversation.respond, opened]
  | done => simp [Conversation.respond, opened]

/-- No other connection has a say in what a connection is answered. -/
theorem conversationOf_separate (slot : Nat) :
    (conversationOf slot).Separate loopStep Talkative where
  keeps talkative stepped :=
    ⟨talkative.sound.step (loopStep_stepped stepped),
      talkative.unfailing.extends (loopStep_stepped stepped).memory⟩
  own := by
    intro event before after talkative ran owned
    have own : event.slot = slot := of_decide_eq_true owned
    have stepped := loopStep_stepped ran
    have quiet (unhandled : Unhandled event before) :
        ((conversationOf slot).output event before after) = [] :=
      stepped.enqueues_nothing unhandled slot
    subst own
    cases event with
    | packet context frame => exact (conversation_packet talkative ran).1
    | accept sock =>
        rw [quiet fun _ _ same => by cases same]
        cases stepped with
        | accepted free =>
            refine Prod.ext (Eq.symm ?_) rfl
            apply LoopState.conversation_eq
            · exact iff_of_true (LoopState.isOpen_acceptClient.mpr (.inr rfl)) rfl
            · exact decide_eq_true_iff.symm
            · have talk := congrArg Client.talk (acceptClient_self before.broker sock)
              exact talk
    | fail context =>
        rw [quiet fun _ _ same => by cases same]
        cases stepped with
        | failed isOpen idle =>
            refine Prod.ext (Eq.symm ?_) rfl
            apply LoopState.conversation_eq
            · exact decide_eq_true_iff.symm
            · exact iff_of_true (Function.update_self context Phase.closing before.phase) rfl
            · rfl
    | remove context =>
        rw [quiet fun _ _ same => by cases same]
        cases stepped with
        | removed isOpen closing =>
            refine Prod.ext (Eq.symm ?_) rfl
            apply LoopState.conversation_eq
            · refine iff_of_false (fun still => ?_) Bool.false_ne_true
              exact (talkative.sound.isOpen_removeClient.mp still).1 rfl
            · refine iff_of_false (fun still => ?_) Bool.false_ne_true
              have idle := Function.update_self context Phase.idle before.phase
              exact Phase.noConfusion (idle.symm.trans still)
            · exact congrArg Client.talk (removeClient_self before.broker context)
    | flush context event =>
        rw [quiet fun _ _ same => by cases same]
        cases stepped with
        | @flushed _ _ sender phase isOpen answered outcome =>
            obtain ⟨opened, closes⟩ := outcome.closing
            have notClosing : (before.conversation context).closing = false :=
              decide_eq_false opened
            obtain ⟨isOpen, talk, closing, silent⟩ := respond_flush context event notClosing
            refine Prod.ext (Eq.symm ?_) silent
            apply LoopState.conversation_eq
            · exact decide_eq_true_iff.symm.trans (Bool.eq_iff_iff.mp isOpen.symm)
            · have ends := Function.update_self context phase before.phase
              exact (iff_of_eq (congrArg (· = Phase.closing) ends)).trans
                (closes.trans closing.symm)
            · have client := before.broker.modifySender_self context fun _ => sender
              exact (congrArg Client.talk client).trans talk.symm
  others := by
    intro event before after talkative ran notOwned
    have apart : slot ≠ event.slot := fun same => of_decide_eq_false notOwned same.symm
    have stepped := loopStep_stepped ran
    have quiet (unhandled : Unhandled event before) :
        ((conversationOf slot).output event before after) = [] :=
      stepped.enqueues_nothing unhandled slot
    cases event with
    | packet context frame => exact (conversation_packet talkative ran).2 slot apart
    | accept sock =>
        refine ⟨?_, quiet fun _ _ same => by cases same⟩
        cases stepped with
        | accepted free =>
            apply LoopState.conversation_same
            · exact LoopState.isOpen_acceptClient.trans (or_iff_left apart)
            · rfl
            · exact congrArg Client.talk (acceptClient_other before.broker apart)
    | fail context =>
        refine ⟨?_, quiet fun _ _ same => by cases same⟩
        cases stepped with
        | failed isOpen idle =>
            apply LoopState.conversation_same
            · exact Iff.rfl
            · exact Function.update_of_ne apart Phase.closing before.phase
            · rfl
    | remove context =>
        refine ⟨?_, quiet fun _ _ same => by cases same⟩
        cases stepped with
        | removed isOpen closing =>
            apply LoopState.conversation_same
            · exact talkative.sound.isOpen_removeClient.trans (and_iff_right apart)
            · exact Function.update_of_ne apart Phase.idle before.phase
            · exact congrArg Client.talk (removeClient_other before.broker apart)
    | flush context event =>
        refine ⟨?_, quiet fun _ _ same => by cases same⟩
        cases stepped with
        | @flushed _ _ sender phase isOpen answered outcome =>
            apply LoopState.conversation_same
            · exact Iff.rfl
            · exact Function.update_of_ne apart phase before.phase
            · have client := before.broker.modifySender_other (fun _ => sender) apart
              exact congrArg Client.talk client

theorem Talkative.reached {memory : Memory} (unfailing : memory.Unfailing)
    {events : List LoopEvent} {state : LoopState}
    (ran : run loopStep (.start memory) events = some state) : Talkative state := by
  have begins : Talkative (.start memory) := ⟨.start memory, unfailing⟩
  have along : Along loopStep (fun _ _ after => Talkative after) (.start memory) events := by
    refine Along.of_invariant (fun event before after talkative stepped _ => ?_) begins
      (.trivial _ _)
    have kept := (conversationOf_separate event.slot).keeps talkative stepped
    exact ⟨kept, kept⟩
  exact along.final Talkative begins ran

/-- Whatever all the other connections send and whenever they come and go, a slot is what
its own packets make of it, and they alone decide every reply that is put into its queue. -/
theorem conversation_refines {memory : Memory} (unfailing : memory.Unfailing)
    {events : List LoopEvent} {final : LoopState}
    (ran : run loopStep (.start memory) events = some final) (slot : Nat) :
    responses Conversation.respond .absent (events.filter fun event => event.slot = slot) =
      (final.conversation slot,
        recorded loopStep (fun _ before after => repliesEnqueued slot before after)
          (.start memory) events) :=
  (conversationOf_separate slot).responses_run ⟨.start memory, unfailing⟩ ran

/-- A client connects, subscribes and pings, another one publishes to it, and subscribes
without a CONNECT. -/
def twoTalk : List LoopEvent :=
  [.accept 5, .accept 6, .packet 5 (connectFrame 0x61), .packet 5 (subscribeFrame 0x61),
    .packet 6 (publishFrame 0x61), .packet 6 (subscribeFrame 0x62), .packet 5 ⟨0xc0, 0, []⟩]

theorem conversation_refines_twoTalk :
    recorded loopStep (fun _ before after => repliesEnqueued 5 before after)
        (.start ⟨fun _ => true, fun _ => 0, 0⟩) twoTalk =
      [[0x20, 2, 0, 0], [0x90, 3, 0, 1, 0], [0xd0, 0]] := by
  have returns : (run loopStep (.start ⟨fun _ => true, fun _ => 0, 0⟩) twoTalk).isSome = true := by
    decide +kernel
  obtain ⟨final, ran⟩ := Option.isSome_iff_exists.mp returns
  have refined := conversation_refines (fun _ => rfl) ran 5
  have answered : (responses Conversation.respond .absent
      (twoTalk.filter fun event => event.slot = 5)).2 =
        [[0x20, 2, 0, 0], [0x90, 3, 0, 1, 0], [0xd0, 0]] := by
    decide +kernel
  rw [refined] at answered
  exact answered

end MuMQ
