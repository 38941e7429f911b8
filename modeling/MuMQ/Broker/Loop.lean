import Mathlib.Logic.Function.Basic
import MuMQ.Broker.EventIo
import MuMQ.Broker.Handling
import MuMQ.Data.Run
import MuMQ.Mqtt.Wire

namespace MuMQ

open Data

/-! The broker and its connections: what the event loops do, one step after
another. -/

/-- A packet as the reader completes it. -/
def WireFrame.Whole (frame : WireFrame) : Prop :=
  frame.control >>> 4 ≠ 0 ∧ frame.payload.length = frame.length ∧
    frame.length ≤ 268435455

instance (frame : WireFrame) : Decidable frame.Whole :=
  inferInstanceAs (Decidable (_ ∧ _ ∧ _))

/-- The parser on a complete packet, as `loop_read` calls it. -/
def parsePacket (broker : Broker) (slot : Nat) (frame : WireFrame) :
    Option (ParserRc × ParseState) :=
  mqttParserExecute { (broker.clients slot).reader.inParser with state := .initial }
    frame.message frame.inPayload frame.message.length.toNat 0

theorem parsePacket_shortTopic {broker : Broker} {slot : Nat} {frame : WireFrame}
    {rc : ParserRc} {final : ParseState}
    (parsed : parsePacket broker slot frame = some (rc, final)) : final.message.ShortTopic := by
  have begins : frame.message.ShortTopic := Nat.zero_le 65535
  exact parserLoop_shortTopic begins parsed

/-- The message of a packet that the parser takes. -/
def parsedMessage (broker : Broker) (slot : Nat) (frame : WireFrame) : Option Message :=
  match parsePacket broker slot frame with
  | some (rc, final) =>
      if rc = .error ∨ rc = .incomplete then none else some final.message
  | none => none

/-- The filter that a packet asks to subscribe. -/
def requestedFilter (broker : Broker) (slot : Nat) (frame : WireFrame) : Option CString :=
  (parsedMessage broker slot frame).bind subscribedFilter

/-- What `loop_read` does with a complete packet.  The parser returns no code but
these two and `done`, so the loop around it has one turn. -/
def processPacket (broker : Broker) (slot : Nat) (frame : WireFrame) :
    Option (PacketOutcome × Broker) :=
  match parsePacket broker slot frame with
  | some (rc, final) =>
      if rc = .error ∨ rc = .incomplete then some (.unparsed final.parser, broker)
      else
        match handleMqttCommand broker slot final.message with
        | some (after, retCode) => some (.handled final.parser retCode, after)
        | none => none
  | none => none

/-- The return code of `handle_mqtt_command` for a packet. -/
def returnCode (broker : Broker) (slot : Nat) (frame : WireFrame) : Option UInt8 :=
  match processPacket broker slot frame with
  | some (.handled _ retCode, _) => some retCode
  | _ => none

/-- The parser's state is kept in the client. -/
def keepParser (parser : Parser) (client : Client) : Client :=
  { client with reader := { client.reader with inParser := parser } }

theorem keepParser_sent (broker : Broker) (slot : Nat) (parser : Parser) :
    Sent broker (broker.modifyClient slot (keepParser parser)) fun _ => [] :=
  Sent.of_quiet broker slot (keepParser parser) ⟨rfl, rfl, rfl, rfl⟩ rfl
    (Memory.Extends.refl _)

/-- The accept branch of `loop_run`, when there is room. -/
def acceptClient (broker : Broker) (sock : Nat) : Broker :=
  { broker.modifyClient sock fun client => { client with sock := sock } with
    contextsByPtr := broker.contextsByPtr ++ [sock] }

theorem acceptClient_self (broker : Broker) (sock : Nat) :
    (acceptClient broker sock).clients sock = { broker.clients sock with sock := sock } := by
  simp [acceptClient, Broker.modifyClient]

theorem acceptClient_other (broker : Broker) {sock other : Nat} (different : other ≠ sock) :
    (acceptClient broker sock).clients other = broker.clients other := by
  simp [acceptClient, Broker.modifyClient, different]

theorem acceptClient_client (broker : Broker) (sock slot : Nat) :
    ∃ owner, (acceptClient broker sock).clients slot =
      { broker.clients slot with sock := owner } := by
  by_cases own : slot = sock
  · subst own
    exact ⟨_, acceptClient_self broker slot⟩
  · exact ⟨_, acceptClient_other broker own⟩

/-- What can be observed of a connection since it was accepted: the filters of its
SUBSCRIBEs that were answered with code 0, and the packets put into its queue. -/
structure Session where
  filters : List CString
  enqueued : List Address

/-- The broker, where the thread of each connection stands, and the connection that
each slot has or had last. -/
structure LoopState where
  broker : Broker
  phase : Nat → Phase
  session : Nat → Session

/-- What can happen next: a socket is accepted, a connection has a complete packet
or ends in a failing read, it is removed, or its thread goes on in the flush loop. -/
inductive LoopEvent where
  | accept (sock : Nat)
  | packet (slot : Nat) (frame : WireFrame)
  | fail (slot : Nat)
  | remove (slot : Nat)
  | flush (slot : Nat) (event : FlushEvent)
  deriving DecidableEq

/-- What `send` can answer to the rest of the current packet: an error, or how many
bytes it took. -/
def sendAnswers (sender : Sender) : FlushEvent → Bool
  | .write sent _ =>
      match sender.sendingCurPacket with
      | some packet => decide (-1 ≤ sent ∧ sent ≤ (packet.wlen - packet.wcur).toNat)
      | none => false
  | _ => true

/-- The packets that stand in the queue of a slot behind those of `before`. -/
def addedPackets (before after : Broker) (slot : Nat) : List Packet :=
  (after.clients slot).sender.sendingPacket.drop
    (before.clients slot).sender.sendingPacket.length

namespace LoopState

/-- The broker as `init_database` leaves it. -/
def start (memory : Memory) : LoopState where
  broker := initDatabase memory
  phase := fun _ => .idle
  session := fun _ => ⟨[], []⟩

/-- The slot has a connection. -/
def IsOpen (state : LoopState) (slot : Nat) : Prop := slot ∈ state.broker.contextsByPtr

instance (state : LoopState) (slot : Nat) : Decidable (state.IsOpen slot) :=
  inferInstanceAs (Decidable (_ ∈ _))

/-- The sessions after a packet of `slot` that is answered with `retCode`. -/
def sessionsAfter (state : LoopState) (slot : Nat) (message : Message) (retCode : UInt8)
    (after : Broker) (other : Nat) : Session where
  filters :=
    (state.session other).filters ++
      if other = slot ∧ retCode = 0 then (subscribedFilter message).toList else []
  enqueued :=
    (state.session other).enqueued ++
      (addedPackets state.broker after other).map Packet.address

end LoopState

/-- One step. -/
def loopStep : LoopEvent → LoopState → Option LoopState
  | .accept sock, state =>
      if state.IsOpen sock then none
      else
        some
          { state with
            broker := acceptClient state.broker sock
            session := Function.update state.session sock ⟨[], []⟩ }
  | .packet slot frame, state =>
      if state.IsOpen slot ∧ state.phase slot = .idle ∧ frame.Whole then
        match processPacket state.broker slot frame with
        | some (.unparsed parser, after) =>
            some
              { state with
                broker := after.modifyClient slot (keepParser parser)
                phase := Function.update state.phase slot .closing }
        | some (.handled parser retCode, handled) =>
            let message := (parsedMessage state.broker slot frame).getD .zero
            let after := handled.modifyClient slot (keepParser parser)
            some
              { broker := after
                phase :=
                  if retCode = 0 then state.phase
                  else Function.update state.phase slot .closing
                session := state.sessionsAfter slot message retCode after }
        | none => none
      else none
  | .fail slot, state =>
      if state.IsOpen slot ∧ state.phase slot = .idle then
        some { state with phase := Function.update state.phase slot .closing }
      else none
  | .remove slot, state =>
      -- `fd` and `context->sock` are the slot
      if state.IsOpen slot ∧ state.phase slot = .closing then
        some
          { state with
            broker := removeClient state.broker slot
            phase := Function.update state.phase slot .idle }
      else none
  | .flush slot event, state =>
      if state.IsOpen slot ∧ sendAnswers (state.broker.clients slot).sender event then
        match flushStep event (state.phase slot) (state.broker.clients slot).sender with
        | some (sender, phase) =>
            some
              { state with
                broker := state.broker.modifySender slot fun _ => sender
                phase := Function.update state.phase slot phase }
        | none => none
      else none

/-- What a step can be. -/
inductive Stepped (before : LoopState) : LoopEvent → LoopState → Prop
  | accepted {sock : Nat} (free : ¬ before.IsOpen sock) :
      Stepped before (.accept sock)
        { before with
          broker := acceptClient before.broker sock
          session := Function.update before.session sock ⟨[], []⟩ }
  | unparsed {slot : Nat} {frame : WireFrame} {parser : Parser} (isOpen : before.IsOpen slot)
      (idle : before.phase slot = .idle)
      (rejected : parsedMessage before.broker slot frame = none) :
      Stepped before (.packet slot frame)
        { before with
          broker := before.broker.modifyClient slot (keepParser parser)
          phase := Function.update before.phase slot .closing }
  | handled {slot : Nat} {frame : WireFrame} {message : Message} {after : Broker}
      {retCode : UInt8} (isOpen : before.IsOpen slot) (idle : before.phase slot = .idle)
      (parsed : parsedMessage before.broker slot frame = some message)
      (handled : Handled before.broker slot message after retCode)
      (returned : returnCode before.broker slot frame = some retCode) :
      Stepped before (.packet slot frame)
        { broker := after
          phase :=
            if retCode = 0 then before.phase
            else Function.update before.phase slot .closing
          session := before.sessionsAfter slot message retCode after }
  | failed {slot : Nat} (isOpen : before.IsOpen slot) (idle : before.phase slot = .idle) :
      Stepped before (.fail slot)
        { before with phase := Function.update before.phase slot .closing }
  | removed {slot : Nat} (isOpen : before.IsOpen slot)
      (closing : before.phase slot = .closing) :
      Stepped before (.remove slot)
        { before with
          broker := removeClient before.broker slot
          phase := Function.update before.phase slot .idle }
  | flushed {slot : Nat} {event : FlushEvent} {sender : Sender} {phase : Phase}
      (isOpen : before.IsOpen slot)
      (answered : sendAnswers (before.broker.clients slot).sender event = true)
      (outcome : FlushOutcome (before.broker.clients slot).sender event (before.phase slot)
        sender phase) :
      Stepped before (.flush slot event)
        { before with
          broker := before.broker.modifySender slot fun _ => sender
          phase := Function.update before.phase slot phase }

theorem loopStep_stepped {event : LoopEvent} {before after : LoopState}
    (stepped : loopStep event before = some after) : Stepped before event after := by
  cases event with
  | accept sock =>
      rw [loopStep] at stepped
      split at stepped
      · cases stepped
      · rename_i free
        cases stepped
        exact .accepted free
  | packet slot frame =>
      rw [loopStep] at stepped
      split at stepped
      · rename_i ready
        obtain ⟨isOpen, idle, _⟩ := ready
        rcases parse : parsePacket before.broker slot frame with _ | ⟨rc, final⟩
        · rw [processPacket, parse] at stepped
          cases stepped
        · by_cases rejected : rc = .error ∨ rc = .incomplete
          · have noMessage : parsedMessage before.broker slot frame = none := by
              simp only [parsedMessage, parse, if_pos rejected]
            simp only [processPacket, parse, if_pos rejected] at stepped
            cases stepped
            exact .unparsed isOpen idle noMessage
          · have parsed : parsedMessage before.broker slot frame = some final.message := by
              simp only [parsedMessage, parse, if_neg rejected]
            simp only [processPacket, parse, if_neg rejected] at stepped
            rcases handling : handleMqttCommand before.broker slot final.message with
              _ | ⟨after, retCode⟩
            · rw [handling] at stepped
              cases stepped
            · have returned : returnCode before.broker slot frame = some retCode := by
                simp only [returnCode, processPacket, parse, if_neg rejected, handling]
              rw [handling, parsed] at stepped
              cases stepped
              exact .handled isOpen idle parsed
                ((handleMqttCommand_handled (parsePacket_shortTopic parse) handling).andQuiet
                  (keepParser_sent after slot final.parser)) returned
      · cases stepped
  | fail slot =>
      rw [loopStep] at stepped
      split at stepped
      · rename_i ready
        cases stepped
        exact .failed ready.1 ready.2
      · cases stepped
  | remove slot =>
      rw [loopStep] at stepped
      split at stepped
      · rename_i ready
        cases stepped
        exact .removed ready.1 ready.2
      · cases stepped
  | flush slot event =>
      rw [loopStep] at stepped
      split at stepped
      · rename_i ready
        split at stepped
        · rename_i sender phase flushed
          cases stepped
          exact .flushed ready.1 ready.2 (flushStep_outcome flushed)
        · cases stepped
      · cases stepped

/-- The packets a message puts into a queue stand behind those of before, and the reply
to it is the only frame among them that is not a PUBLISH. -/
theorem Handled.addedPackets {broker after : Broker} {context : Nat} {message : Message}
    {rc : UInt8} (handled : Handled broker context message after rc)
    (own : (broker.clients context).sock = context) {slot : Nat}
    (sound : (broker.clients slot).sender.Sound broker.memory.calls) :
    (after.clients slot).sender.sendingPacket =
        (broker.clients slot).sender.sendingPacket ++ addedPackets broker after slot ∧
      (after.clients slot).sender.sendingCurPacket =
        (broker.clients slot).sender.sendingCurPacket ∧
      replyFrames (addedPackets broker after slot) =
        if slot = context then replyWith (answeredId broker context message) message rc
        else [] := by
  obtain ⟨_, packets, ⟨list, current, _⟩, replies⟩ := handled.queue own sound
  have sameList : (after.clients slot).sender.sendingPacket =
      (broker.clients slot).sender.sendingPacket ++ packets := by
    split at list <;> exact list
  have added : MuMQ.addedPackets broker after slot = packets := by
    rw [MuMQ.addedPackets, sameList, List.drop_left]
  rw [added]
  refine ⟨sameList, ?_, replies⟩
  split at current <;> exact current

theorem Sent.addedPackets {before after : Broker} {packets : Nat → List Packet}
    (sent : Sent before after packets) {slot : Nat}
    (sound : (before.clients slot).sender.Sound before.memory.calls) :
    MuMQ.addedPackets before after slot = packets slot := by
  rw [MuMQ.addedPackets, (sent.extended slot sound).2.list, List.drop_left]

theorem Stepped.handled_of_parsed {before after : LoopState} {context : Nat}
    {frame : WireFrame} {message : Message}
    (stepped : Stepped before (.packet context frame) after)
    (parsed : parsedMessage before.broker context frame = some message) :
    ∃ retCode, Handled before.broker context message after.broker retCode ∧
      returnCode before.broker context frame = some retCode ∧ before.IsOpen context := by
  cases stepped with
  | unparsed isOpen idle rejected =>
      rw [rejected] at parsed
      cases parsed
  | handled isOpen idle parsedAs handled returned =>
      rw [parsed] at parsedAs
      cases parsedAs
      exact ⟨_, handled, returned, isOpen⟩

theorem Stepped.memory {event : LoopEvent} {before after : LoopState}
    (stepped : Stepped before event after) :
    Memory.Extends before.broker.memory after.broker.memory := by
  cases stepped with
  | accepted free => exact Memory.Extends.refl _
  | unparsed isOpen idle rejected => exact Memory.Extends.refl _
  | handled isOpen idle parsed handled => exact handled.memory
  | failed isOpen idle => exact Memory.Extends.refl _
  | removed isOpen closing => exact Memory.Extends.refl _
  | flushed isOpen answered outcome => exact Memory.Extends.refl _

/-! What every run keeps. -/

namespace LoopState

/-- A slot without a connection is not subscribed, and nothing is to be sent from
it. -/
structure Vacant (client : Client) (phase : Phase) : Prop where
  idle : phase = .idle
  unsubscribed : client.isSubscribe = false
  current : client.sender.sendingCurPacket = none
  count : client.sender.numSendingPack = 0

/-- The queues are well formed, and a slot has at most one connection, whose socket
is the slot. -/
structure Sound (state : LoopState) : Prop where
  senders : ∀ slot, (state.broker.clients slot).sender.Sound state.broker.memory.calls
  sock : ∀ slot, state.IsOpen slot → (state.broker.clients slot).sock = slot
  nodup : state.broker.contextsByPtr.Nodup
  vacant : ∀ slot, ¬ state.IsOpen slot →
    Vacant (state.broker.clients slot) (state.phase slot)

theorem isOpen_acceptClient {state : LoopState} {sock other : Nat} :
    other ∈ (acceptClient state.broker sock).contextsByPtr ↔
      state.IsOpen other ∨ other = sock := by
  rw [acceptClient, List.mem_append, List.mem_singleton]
  rfl

theorem Sound.isOpen_removeClient {state : LoopState} (sound : state.Sound)
    {slot other : Nat} :
    other ∈ (removeClient state.broker slot).contextsByPtr ↔
      other ≠ slot ∧ state.IsOpen other :=
  List.Nodup.mem_erase_iff sound.nodup

theorem Sound.start (memory : Memory) : (LoopState.start memory).Sound where
  senders _ := ⟨.zero, List.forall_mem_nil _, fun _ none => by cases none⟩
  sock slot isOpen := by cases isOpen
  nodup := List.nodup_nil
  vacant _ _ := ⟨rfl, rfl, rfl, rfl⟩

theorem Sound.step {event : LoopEvent} {before after : LoopState} (sound : before.Sound)
    (stepped : Stepped before event after) : after.Sound := by
  cases stepped with
  | @accepted sock free =>
      refine ⟨fun slot => ?_, fun slot isOpen => ?_, ?_, fun slot closed => ?_⟩
      · obtain ⟨_, client⟩ := acceptClient_client before.broker sock slot
        rw [client]
        exact sound.senders slot
      · by_cases own : slot = sock
        · subst own
          rw [acceptClient_self]
        · rw [acceptClient_other _ own]
          exact sound.sock slot ((isOpen_acceptClient.mp isOpen).resolve_right own)
      · refine List.nodup_append.mpr ⟨sound.nodup, List.nodup_singleton _, ?_⟩
        intro slot member other inSingleton same
        rw [List.mem_singleton] at inSingleton
        exact free (inSingleton ▸ same ▸ member)
      · obtain ⟨wasClosed, own⟩ := not_or.mp (mt isOpen_acceptClient.mpr closed)
        rw [acceptClient_other _ own]
        exact sound.vacant slot wasClosed
  | @unparsed slot frame parser isOpen idle rejected =>
      have quiet := keepParser_sent before.broker slot parser
      refine ⟨fun other => ?_, fun other isOpen => ?_, sound.nodup, fun other closed => ?_⟩
      · exact (quiet.senders other).symm ▸ sound.senders other
      · exact (quiet.clients other).sock.trans (sound.sock other isOpen)
      · have apart : other ≠ slot := fun same => closed (same ▸ isOpen)
        simp only [Function.update_of_ne apart, Broker.modifyClient_other _ _ apart]
        exact sound.vacant other closed
  | @handled slot frame message broker retCode isOpen idle parsed handled =>
      refine ⟨fun other => ?_, fun other isOpen => ?_, ?_, fun other closed => ?_⟩
      · exact (handled.queue (sound.sock slot isOpen) (sound.senders other)).1
      · exact (handled.sock other).trans
          (sound.sock other (handled.mem_contextsByPtr.mp isOpen))
      · exact handled.contextsByPtr ▸ sound.nodup
      · have wasClosed : ¬ before.IsOpen other := mt handled.mem_contextsByPtr.mpr closed
        have apart : other ≠ slot := fun same => wasClosed (same ▸ isOpen)
        have vacant := sound.vacant other wasClosed
        obtain ⟨sender, unsubscribed⟩ :=
          handled.untouched (sound.sock slot isOpen) apart vacant.unsubscribed
        refine ⟨?_, unsubscribed, sender ▸ vacant.current, sender ▸ vacant.count⟩
        show (if retCode = 0 then before.phase else _) other = .idle
        split
        · exact vacant.idle
        · rw [Function.update_of_ne apart]
          exact vacant.idle
  | @failed slot isOpen idle =>
      refine ⟨sound.senders, sound.sock, sound.nodup, fun other closed => ?_⟩
      have apart : other ≠ slot := fun same => closed (same ▸ isOpen)
      simp only [Function.update_of_ne apart]
      exact sound.vacant other closed
  | @removed slot isOpen closing =>
      refine ⟨fun other => ?_, fun other stillOpen => ?_, sound.nodup.erase slot,
        fun other closed => ?_⟩
      · by_cases own : other = slot
        · subst own
          rw [removeClient_self]
          have queue := sound.senders other
          exact ⟨⟨queue.linked.tail, queue.linked.nodup⟩, queue.listed,
            fun _ none => by cases none⟩
        · rw [removeClient_other _ own]
          exact sound.senders other
      · obtain ⟨own, wasOpen⟩ := sound.isOpen_removeClient.mp stillOpen
        rw [removeClient_other _ own]
        exact sound.sock other wasOpen
      · by_cases own : other = slot
        · subst own
          simp only [Function.update_self, removeClient_self]
          exact ⟨rfl, rfl, rfl, rfl⟩
        · simp only [Function.update_of_ne own, removeClient_other _ own]
          exact sound.vacant other fun isOpen =>
            closed (sound.isOpen_removeClient.mpr ⟨own, isOpen⟩)
  | @flushed slot event sender phase isOpen answered outcome =>
      refine ⟨fun other => ?_, fun other isOpen => ?_, sound.nodup, fun other closed => ?_⟩
      · by_cases own : other = slot
        · subst own
          rw [Broker.modifySender_self]
          exact (sound.senders other).flush outcome
        · rw [Broker.modifySender_other _ _ own]
          exact sound.senders other
      · obtain ⟨_, client⟩ := before.broker.modifySender_client slot (fun _ => sender) other
        rw [client]
        exact sound.sock other isOpen
      · have apart : other ≠ slot := fun same => closed (same ▸ isOpen)
        simp only [Function.update_of_ne apart, Broker.modifySender_other _ _ apart]
        exact sound.vacant other closed

end LoopState

/-- A SUBSCRIBE of one byte. -/
def subscribeFrame (filter : UInt8) : WireFrame := ⟨0x82, 6, [0, 1, 0, 1, filter, 0]⟩

/-- A PUBLISH to a topic of one byte. -/
def publishFrame (topic : UInt8) : WireFrame := ⟨0x30, 5, [0, 1, topic, 7, 7]⟩

/-- A CONNECT of MQTT 3.1.1 with a one-byte id. -/
def connectFrame (id : UInt8) : WireFrame :=
  ⟨0x10, 13, [0, 4, 0x4d, 0x51, 0x54, 0x54, 4, 2, 0, 60, 0, 1, id]⟩

end MuMQ
