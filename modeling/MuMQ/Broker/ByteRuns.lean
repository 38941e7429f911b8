import MuMQ.Broker.ByteLoop
import MuMQ.Broker.Unsupported

namespace MuMQ

open Data

/-! However the bytes come in, the broker takes packets. -/

def Client.unread (client : Client) : Client :=
  { client with reader := { Reader.zero with inParser := client.reader.inParser } }

/-- The broker between packets: of what is received only the parsers are kept. -/
def Broker.unread (broker : Broker) : Broker :=
  broker.withReaders fun slot => (broker.clients slot).unread.reader

theorem unread_modifyClient (broker : Broker) (slot : Nat) (change : Client → Client)
    (commutes : ∀ client, (change client).unread = change client.unread) :
    (broker.modifyClient slot change).unread = broker.unread.modifyClient slot change := by
  have clients (other : Nat) :
      (if other = slot then change (broker.clients slot) else broker.clients other).unread =
        if other = slot then change (broker.clients slot).unread
        else (broker.clients other).unread := by
    split
    · exact commutes _
    · rfl
  exact congrArg (fun clients : Nat → Client => { broker with clients }) (funext clients)

/-- What a call of `loop_read` leaves in a slot, seen between packets. -/
theorem unread_keepParser (broker : Broker) (slot : Nat) (reader : Reader) :
    (broker.modifyClient slot fun client => { client with reader := reader }).unread =
      broker.unread.modifyClient slot (keepParser reader.inParser) := by
  have clients (other : Nat) :
      (if other = slot then { broker.clients slot with reader := reader }
        else broker.clients other).unread =
        if other = slot then keepParser reader.inParser (broker.clients slot).unread
        else (broker.clients other).unread := by
    split
    · rfl
    · rfl
  exact congrArg (fun clients : Nat → Client => { broker with clients }) (funext clients)

theorem keepParser_same (broker : Broker) (slot : Nat) :
    broker.modifyClient slot (keepParser (broker.clients slot).reader.inParser) = broker := by
  have clients (other : Nat) :
      (if other = slot then keepParser (broker.clients slot).reader.inParser (broker.clients slot)
        else broker.clients other) = broker.clients other := by
    split
    · rename_i own
      rw [own]
      rfl
    · rfl
  exact congrArg (fun clients : Nat → Client => { broker with clients }) (funext clients)

section Command

variable {broker after : Broker} {context : Nat} {message : Message} {retCode : UInt8}

theorem handleMqttCommand_reader
    (ran : handleMqttCommand broker context message = some (after, retCode)) (slot : Nat) :
    (after.clients slot).reader =
      freeInPacket context (fun slot => (broker.clients slot).reader) slot := by
  have carried := withReaders_handleMqttCommand (fun slot => (broker.clients slot).reader) broker
    context message
  have self : broker.withReaders (fun slot => (broker.clients slot).reader) = broker := rfl
  rw [self, ran] at carried
  have same := congrArg Prod.fst (Option.some.inj carried)
  exact congrArg (fun broker : Broker => (broker.clients slot).reader) same.symm

theorem unread_handleMqttCommand
    (ran : handleMqttCommand broker context message = some (after, retCode)) :
    handleMqttCommand broker.unread context message = some (after.unread, retCode) := by
  have carried := withReaders_handleMqttCommand
    (fun slot => (broker.clients slot).unread.reader) broker context message
  rw [ran] at carried
  refine carried.symm.trans (congrArg some (Prod.ext ?_ rfl))
  refine congrArg (after.withReaders ·) (funext fun slot => ?_)
  have reader := handleMqttCommand_reader ran slot
  rw [Client.unread, reader, freeInPacket, freeInPacket]
  by_cases own : slot = context
  · subst own
    rw [Function.update_self, Function.update_self]
    rfl
  · rw [Function.update_of_ne own, Function.update_of_ne own]
    rfl

end Command

/-- The stream of the connection that a slot has or had last. -/
def streamOf (slot : Nat) (events : List ByteEvent) : List UInt8 :=
  events.foldl
    (fun stream event =>
      match event with
      | .accept sock arriving => if sock = slot then arriving else stream
      | _ => stream)
    []

/-- The packets of the connection that a slot has or had last. -/
def framesOf (slot : Nat) (events : List LoopEvent) : List WireFrame :=
  events.foldl
    (fun frames event =>
      match event with
      | .accept sock => if sock = slot then [] else frames
      | .packet context frame => if context = slot then frames ++ [frame] else frames
      | _ => frames)
    []

/-- The control bytes that arrive have a type. -/
def ByteEvent.Typed : ByteEvent → Prop
  | .accept _ stream => mqttFraming.AtBoundaries TypedFront stream
  | _ => True

/-- The broker has taken the packets at the front of each stream, and has received a part of
the next one. -/
structure Received (past : List ByteEvent) (state : ByteLoop) (past' : List LoopEvent)
    (state' : LoopState) : Prop where
  talkative : Talkative state'
  broker : state'.broker = state.broker.unread
  phase : state'.phase = state.phase
  unfailing : state.memory.Unfailing
  typed : ∀ slot, mqttFraming.AtBoundaries TypedFront (streamOf slot past)
  received : ∀ slot, ∃ part,
    mqttFraming.Cuts (streamOf slot past) (framesOf slot past') (part ++ state.incoming slot) ∧
      (state.IsOpen slot → state.phase slot ≠ .closing →
        Midway (state.broker.clients slot).reader part)
  closed : ∀ slot, ¬ state.IsOpen slot → AtRest (state.broker.clients slot).reader

theorem Received.start {memory reading : Memory} (unfailing : memory.Unfailing)
    (readUnfailing : reading.Unfailing) :
    Received [] (.start memory reading) [] (.start memory) where
  talkative := ⟨.start memory, unfailing⟩
  broker := rfl
  phase := rfl
  unfailing := readUnfailing
  typed _ := .incomplete (fun _ member => by cases member) rfl
  received slot := ⟨[], .nil _, fun isOpen => by cases isOpen⟩
  closed _ _ := atRest_zero

/-- The state that a call of `loop_read` leaves. -/
def ByteLoop.afterRead (slot : Nat) (broker : Broker) (closing : Prop) [Decidable closing]
    (reception : Reception) (state : ByteLoop) : ByteLoop where
  broker := broker.modifyClient slot fun client => { client with reader := reception.reader }
  phase := if closing then Function.update state.phase slot .closing else state.phase
  memory := reception.memory
  incoming := Function.update state.incoming slot reception.incoming

namespace ByteLoop

section AfterRead

variable {state : ByteLoop} {slot other : Nat} {broker : Broker} {closing : Prop}
  [Decidable closing] {reception : Reception}

theorem afterRead_isOpen :
    (state.afterRead slot broker closing reception).IsOpen other ↔
      other ∈ broker.contextsByPtr := Iff.rfl

theorem afterRead_reader :
    ((state.afterRead slot broker closing reception).broker.clients slot).reader =
      reception.reader := by
  rw [afterRead, Broker.modifyClient_self]

theorem afterRead_reader_other (apart : other ≠ slot) :
    ((state.afterRead slot broker closing reception).broker.clients other).reader =
      (broker.clients other).reader := by
  rw [afterRead, Broker.modifyClient_other _ _ apart]

theorem afterRead_incoming :
    (state.afterRead slot broker closing reception).incoming slot = reception.incoming := by
  show Function.update state.incoming slot reception.incoming slot = _
  rw [Function.update_self]

theorem afterRead_incoming_other (apart : other ≠ slot) :
    (state.afterRead slot broker closing reception).incoming other = state.incoming other := by
  show Function.update state.incoming slot reception.incoming other = _
  rw [Function.update_of_ne apart]

theorem afterRead_phase (closes : closing) :
    (state.afterRead slot broker closing reception).phase =
      Function.update state.phase slot .closing := if_pos closes

theorem afterRead_phase_other (apart : other ≠ slot) :
    (state.afterRead slot broker closing reception).phase other = state.phase other := by
  unfold afterRead
  simp only
  split
  · exact Function.update_of_ne apart Phase.closing state.phase
  · rfl

end AfterRead

end ByteLoop

/-- What a call of `loop_read` can do: end the connection, wait, or take a packet, which is
parsed in vain or handled. -/
inductive ReadResult (state : ByteLoop) (slot : Nat) (part : List UInt8) : ByteLoop → Prop
  | ends {reception : Reception} (more : List UInt8)
      (split : state.incoming slot = more ++ reception.incoming)
      (parser : reception.reader.inParser = (state.broker.clients slot).reader.inParser) :
      ReadResult state slot part (state.afterRead slot state.broker True reception)
  | waits {reception : Reception} (more : List UInt8)
      (split : state.incoming slot = more ++ reception.incoming)
      (parser : reception.reader.inParser = (state.broker.clients slot).reader.inParser)
      (midway : Midway reception.reader (part ++ more)) :
      ReadResult state slot part (state.afterRead slot state.broker False reception)
  | unparsed {reception : Reception} {rc : ParserRc} {final : ParseState}
      (more : List UInt8) (frame : WireFrame)
      (split : state.incoming slot = more ++ reception.incoming)
      (whole : ∀ rest, nextFrame (part ++ more ++ rest) = .item frame rest)
      (parsed : parsePacket state.broker slot frame = some (rc, final))
      (rejected : rc = .error ∨ rc = .incomplete)
      (parser : reception.reader.inParser = final.parser) :
      ReadResult state slot part (state.afterRead slot state.broker True reception)
  | handled {reception : Reception} {rc : ParserRc} {final : ParseState} {broker : Broker}
      {retCode : UInt8} (more : List UInt8) (frame : WireFrame)
      (split : state.incoming slot = more ++ reception.incoming)
      (whole : ∀ rest, nextFrame (part ++ more ++ rest) = .item frame rest)
      (parsed : parsePacket state.broker slot frame = some (rc, final))
      (taken : ¬ (rc = .error ∨ rc = .incomplete))
      (ran : handleMqttCommand state.broker slot final.message = some (broker, retCode))
      (parser : reception.reader.inParser = final.parser)
      (atRest : retCode = 0 → AtRest reception.reader) :
      ReadResult state slot part (state.afterRead slot broker (retCode ≠ 0) reception)

theorem afterRead_eq (state : ByteLoop) (slot : Nat) (broker : Broker) (reception : Reception)
    {value : Int} {closing : Prop} [Decidable closing] (closes : value ≤ 0 ↔ closing) :
    ({ broker := broker.modifyClient slot fun client =>
        { client with reader := reception.reader }
       phase := if value ≤ 0 then Function.update state.phase slot .closing else state.phase
       memory := reception.memory
       incoming := Function.update state.incoming slot reception.incoming } : ByteLoop) =
      state.afterRead slot broker closing reception := by
  rw [ByteLoop.afterRead]
  congr 1
  exact if_congr closes rfl rfl

theorem read_result {state after : ByteLoop} {slot : Nat} {part : List UInt8}
    (midway : Midway (state.broker.clients slot).reader part)
    (unfailing : state.memory.Unfailing) (typed : TypedFront part) {events : PollEvents}
    {answers : List RecvAnswer} (ran : state.read slot events answers = some after) :
    ReadResult state slot part after ∧ Memory.Extends state.memory after.memory := by
  let reception : Reception :=
    ⟨(state.broker.clients slot).reader, state.memory, state.incoming slot⟩
  have comes := readStages_comesFrom answers reception
  have result := @readStages_result reception part midway unfailing typed answers
  unfold ByteLoop.read at ran
  simp only at ran
  rcases call : loopRead (parseAndCommand slot (state.broker.clients slot).reader.inParser) events
    answers reception (some state.broker) with ⟨value, received, _ | broker⟩
  · rw [call] at ran
    cases ran
  · rw [call] at ran
    obtain rfl := Option.some.inj ran
    have ended {more : List UInt8} (split : state.incoming slot = more ++ received.incoming)
        (leads : reception.LeadsTo received) (negative : value ≤ 0) :
        ReadResult state slot part (state.afterRead slot state.broker True received) ∧
          Memory.Extends state.memory received.memory :=
      ⟨.ends more split leads.parser, leads.memory⟩
    unfold loopRead at call
    split at call
    · cases call
      rw [afterRead_eq state slot state.broker _ (show (-1 : Int) ≤ 0 ↔ True by decide)]
      exact ended (List.nil_append _).symm (.refl _) (by decide)
    · split at call
      · cases call
        rw [afterRead_eq state slot state.broker _ (show (-1 : Int) ≤ 0 ↔ True by decide)]
        exact ended (List.nil_append _).symm (.refl _) (by decide)
      · split at call
        · simp only at call
          rw [← readStages] at call
          generalize readStages answers reception = stage at comes result call
          cases result with
          | ends more split negative =>
              cases call
              rw [afterRead_eq state slot state.broker _ (iff_of_true negative trivial)]
              exact ended split comes negative
          | waits more split midway =>
              cases call
              rw [afterRead_eq state slot state.broker _ (show (1 : Int) ≤ 0 ↔ False by decide)]
              exact ⟨.waits more split comes.parser midway, comes.memory⟩
          | @packet whole rlen others more frame split isWhole message payload processed positive =>
              rw [Reader.packet] at message
              simp only [Reader.packet, message, payload, parseAndCommand] at call
              rcases parse : parsePacket state.broker slot frame with _ | ⟨rc, final⟩
              · rw [parsePacket] at parse
                rw [parse] at call
                cases call
              · have parsed := parse
                rw [parsePacket] at parse
                rw [parse] at call
                by_cases rejected : rc = .error ∨ rc = .incomplete
                · simp only [if_pos rejected] at call
                  cases call
                  rw [afterRead_eq state slot state.broker _ (show (-1 : Int) ≤ 0 ↔ True by decide)]
                  exact ⟨.unparsed more frame split isWhole parsed rejected rfl, comes.memory⟩
                · simp only [if_neg rejected, Option.bind_some] at call
                  rcases handling : handleMqttCommand state.broker slot final.message with
                    _ | ⟨handled, retCode⟩
                  · rw [handling] at call
                    cases call
                  · rw [handling] at call
                    simp only at call
                    split at call
                    · rename_i nonzero
                      cases call
                      rw [afterRead_eq state slot broker _ 
                        (iff_of_true (by decide) nonzero)]
                      exact ⟨.handled more frame split isWhole parsed rejected handling rfl
                        (fun zero => absurd zero nonzero), comes.memory⟩
                    · rename_i zero
                      cases call
                      rw [afterRead_eq state slot broker _ 
                        (iff_of_false (by omega) zero)]
                      exact ⟨.handled more frame split isWhole parsed rejected handling rfl
                        (fun _ => ⟨rfl, rfl, rfl, processed, rfl⟩), comes.memory⟩
        · cases call
          rw [afterRead_eq state slot state.broker _ (show (-1 : Int) ≤ 0 ↔ True by decide)]
          exact ended (List.nil_append _).symm (.refl _) (by decide)

/-- The frames that a step enqueues on a slot. -/
def framesAdded (watched : Nat) (before after : ByteLoop) : List (List UInt8) :=
  (addedPackets before.broker after.broker watched).map Packet.sendBuf

theorem streamOf_append (slot : Nat) (past : List ByteEvent) (event : ByteEvent) :
    streamOf slot (past ++ [event]) =
      match event with
      | .accept sock arriving => if sock = slot then arriving else streamOf slot past
      | _ => streamOf slot past := by
  rw [streamOf, List.foldl_append]
  rfl

theorem framesOf_append (slot : Nat) (past : List LoopEvent) (event : LoopEvent) :
    framesOf slot (past ++ [event]) =
      match event with
      | .accept sock => if sock = slot then [] else framesOf slot past
      | .packet context frame =>
          if context = slot then framesOf slot past ++ [frame] else framesOf slot past
      | _ => framesOf slot past := by
  rw [framesOf, List.foldl_append]
  rfl

section Step

variable {past : List ByteEvent} {before after : ByteLoop} {past' : List LoopEvent}
  {before' after' : LoopState}

theorem Received.isOpen (received : Received past before past' before') (slot : Nat) :
    before'.IsOpen slot ↔ before.IsOpen slot := by
  rw [LoopState.IsOpen, received.broker]
  rfl

/-- One step of the packets that leaves what the bytes leave. -/
theorem matched_step {event : LoopEvent} (stepped : loopStep event before' = some after')
    (same : before'.broker = before.broker.unread) (left : after'.broker = after.broker.unread) :
    run loopStep before' [event] = some after' ∧ ∀ watched,
      recorded loopStep (fun _ before after => framesEnqueued watched before after) before'
        [event] = framesAdded watched before after := by
  constructor
  · exact run_cons.mpr ⟨after', stepped, rfl⟩
  · intro watched
    rw [recorded, stepped]
    show framesEnqueued watched before' after' ++ [] = _
    rw [List.append_nil, framesEnqueued, same, left]
    rfl

theorem unread_acceptClient (broker : Broker) (sock : Nat) :
    (acceptClient broker sock).unread = acceptClient broker.unread sock :=
  congrArg (fun accepted : Broker => { accepted with contextsByPtr := broker.contextsByPtr ++ [sock] })
    (unread_modifyClient broker sock (fun client => { client with sock := sock })
      fun _ => rfl)

theorem unread_removeClient (broker : Broker) (fd : Nat) :
    (removeClient broker fd).unread = removeClient broker.unread fd :=
  congrArg (fun removed : Broker => { removed with contextsByPtr := broker.contextsByPtr.erase fd })
    (unread_modifyClient broker fd cleanContext fun _ => rfl)

theorem Received.accepts (received : Received past before past' before') {sock : Nat}
    {stream : List UInt8} (typed : mqttFraming.AtBoundaries TypedFront stream)
    (free : ¬ before.IsOpen sock) :
    ∃ after', loopStep (.accept sock) before' = some after' ∧
      Received (past ++ [.accept sock stream])
        { before with
          broker := acceptClient before.broker sock
          incoming := Function.update before.incoming sock stream }
        (past' ++ [.accept sock]) after' := by
  have stepped : loopStep (.accept sock) before' = some
      { before' with
        broker := acceptClient before'.broker sock
        session := Function.update before'.session sock ⟨[], []⟩ } :=
    if_neg fun isOpen => free ((received.isOpen sock).mp isOpen)
  have broker : acceptClient before'.broker sock = (acceptClient before.broker sock).unread := by
    rw [received.broker, unread_acceptClient]
  have reader (slot : Nat) : ((acceptClient before.broker sock).clients slot).reader =
      (before.broker.clients slot).reader := by
    obtain ⟨_, client⟩ := acceptClient_client before.broker sock slot
    rw [client]
  have opened (slot : Nat) : slot ∈ (acceptClient before.broker sock).contextsByPtr ↔
      before.IsOpen slot ∨ slot = sock := by
    rw [acceptClient, List.mem_append, List.mem_singleton]
    rfl
  refine ⟨_, stepped, (conversationOf_separate sock).keeps received.talkative stepped,
    broker, received.phase, received.unfailing, fun slot => ?_, fun slot => ?_, fun slot => ?_⟩
  · rw [streamOf_append]
    simp only
    split
    · exact typed
    · exact received.typed slot
  · rw [streamOf_append, framesOf_append]
    simp only
    by_cases own : sock = slot
    · subst own
      rw [if_pos rfl, if_pos rfl, Function.update_self, reader]
      exact ⟨[], .nil stream, fun _ _ => .rest (received.closed sock free)⟩
    · rw [if_neg own, if_neg own, Function.update_of_ne fun same => own same.symm, reader]
      obtain ⟨part, cuts, midway⟩ := received.received slot
      refine ⟨part, cuts, fun isOpen => midway ?_⟩
      exact ((opened slot).mp isOpen).resolve_right fun same => own same.symm
  · intro vacant
    rw [reader]
    exact received.closed slot fun isOpen => vacant ((opened slot).mpr (.inl isOpen))

theorem Received.removes (received : Received past before past' before') {slot : Nat}
    (isOpen : before.IsOpen slot) (closing : before.phase slot = .closing) :
    ∃ after', loopStep (.remove slot) before' = some after' ∧
      Received (past ++ [.remove slot])
        { before with
          broker := removeClient before.broker slot
          phase := Function.update before.phase slot .idle }
        (past' ++ [.remove slot]) after' := by
  have stepped : loopStep (.remove slot) before' = some
      { before' with
        broker := removeClient before'.broker slot
        phase := Function.update before'.phase slot .idle } := by
    refine if_pos ⟨(received.isOpen slot).mpr isOpen, ?_⟩
    rw [received.phase]
    exact closing
  have broker : removeClient before'.broker slot = (removeClient before.broker slot).unread := by
    rw [received.broker, unread_removeClient]
  have stays (other : Nat) : other ∈ (removeClient before.broker slot).contextsByPtr ↔
      other ≠ slot ∧ before.IsOpen other := by
    have stays := @LoopState.Sound.isOpen_removeClient before' received.talkative.sound slot other
    rw [received.broker, received.isOpen] at stays
    exact stays
  refine ⟨_, stepped, (conversationOf_separate slot).keeps received.talkative stepped,
    broker, congrArg (Function.update · slot Phase.idle) received.phase, received.unfailing,
    fun other => ?_, fun other => ?_, fun other => ?_⟩
  · rw [streamOf_append]
    exact received.typed other
  · rw [streamOf_append, framesOf_append]
    obtain ⟨part, cuts, midway⟩ := received.received other
    refine ⟨part, cuts, fun isOpen => ?_⟩
    obtain ⟨apart, wasOpen⟩ := (stays other).mp isOpen
    show Function.update before.phase slot Phase.idle other ≠ .closing → _
    rw [removeClient_other before.broker apart, Function.update_of_ne apart]
    exact midway wasOpen
  · intro vacant
    by_cases own : other = slot
    · subst own
      rw [removeClient_self]
      exact atRest_zero
    · rw [removeClient_other before.broker own]
      exact received.closed other fun isOpen => vacant ((stays other).mpr ⟨own, isOpen⟩)

theorem Received.flushes (received : Received past before past' before') {slot : Nat}
    {event : FlushEvent} (isOpen : before.IsOpen slot)
    (answered : sendAnswers (before.broker.clients slot).sender event = true) {sender : Sender}
    {phase : Phase}
    (flushed : flushStep event (before.phase slot) (before.broker.clients slot).sender =
      some (sender, phase)) :
    ∃ after', loopStep (.flush slot event) before' = some after' ∧
      Received (past ++ [.flush slot event])
        { before with
          broker := before.broker.modifySender slot fun _ => sender
          phase := Function.update before.phase slot phase }
        (past' ++ [.flush slot event]) after' := by
  have flushed' : flushStep event (before'.phase slot) (before'.broker.clients slot).sender =
      some (sender, phase) := by
    rw [received.phase, received.broker]
    exact flushed
  have answered' : sendAnswers (before'.broker.clients slot).sender event = true := by
    rw [received.broker]
    exact answered
  have stepped : loopStep (.flush slot event) before' = some
      { before' with
        broker := before'.broker.modifySender slot fun _ => sender
        phase := Function.update before'.phase slot phase } := by
    rw [loopStep, if_pos ⟨(received.isOpen slot).mpr isOpen, answered'⟩, flushed']
  have broker : before'.broker.modifySender slot (fun _ => sender) =
      (before.broker.modifySender slot fun _ => sender).unread := by
    rw [received.broker]
    exact (unread_modifyClient before.broker slot
      (fun client => { client with sender := sender }) fun _ => rfl).symm
  have notClosing : before.phase slot ≠ .closing := (flushStep_outcome flushed).closing.1
  have reader (other : Nat) :
      ((before.broker.modifySender slot fun _ => sender).clients other).reader =
        (before.broker.clients other).reader := by
    obtain ⟨_, client⟩ := before.broker.modifySender_client slot (fun _ => sender) other
    rw [client]
  refine ⟨_, stepped, (conversationOf_separate slot).keeps received.talkative stepped,
    broker, congrArg (Function.update · slot phase) received.phase, received.unfailing,
    fun other => ?_, fun other => ?_, fun other => ?_⟩
  · rw [streamOf_append]
    exact received.typed other
  · rw [streamOf_append, framesOf_append, reader]
    obtain ⟨part, cuts, midway⟩ := received.received other
    refine ⟨part, cuts, fun isOpen => ?_⟩
    show Function.update before.phase slot phase other ≠ .closing → _
    by_cases own : other = slot
    · subst own
      exact fun _ => midway isOpen notClosing
    · rw [Function.update_of_ne own]
      exact midway isOpen
  · rw [reader]
    exact received.closed other

theorem nextFrame_isWhole {stream rest : List UInt8} {frame : WireFrame}
    (typed : TypedFront stream) (front : nextFrame stream = .item frame rest) : frame.Whole := by
  obtain ⟨payload, bounded⟩ := nextFrame_bounds front
  refine ⟨?_, payload, bounded⟩
  cases stream with
  | nil => cases front
  | cons control bytes =>
      rw [nextFrame_control front]
      exact typed control rfl

/-- What a call of `loop_read` for a slot leaves of what was received. -/
theorem Received.afterRead (received : Received past before past' before') {slot : Nat}
    {events : PollEvents} {answers : List RecvAnswer} {broker : Broker} {closing : Prop}
    [Decidable closing] {reception : Reception} {matching : List LoopEvent}
    (talkative : Talkative after')
    (contexts : broker.contextsByPtr = before.broker.contextsByPtr)
    (readers : ∀ other, other ≠ slot →
      (broker.clients other).reader = (before.broker.clients other).reader)
    (left : after'.broker = (before.afterRead slot broker closing reception).broker.unread)
    (phase : after'.phase = (before.afterRead slot broker closing reception).phase)
    (memory : Memory.Extends before.memory reception.memory) (isOpen : before.IsOpen slot)
    (frames : ∀ other, other ≠ slot → framesOf other (past' ++ matching) = framesOf other past')
    {part : List UInt8}
    (cuts : mqttFraming.Cuts (streamOf slot past) (framesOf slot (past' ++ matching))
      (part ++ reception.incoming))
    (midway : ¬ closing → Midway reception.reader part) :
    Received (past ++ [.read slot events answers])
      (before.afterRead slot broker closing reception) (past' ++ matching) after' where
  talkative := talkative
  broker := left
  phase := phase
  unfailing := received.unfailing.extends memory
  typed other := by
    rw [streamOf_append]
    exact received.typed other
  received other := by
    rw [streamOf_append]
    by_cases own : other = slot
    · subst own
      refine ⟨part, ?_, fun _ notClosing => ?_⟩
      · rw [ByteLoop.afterRead_incoming]
        exact cuts
      · rw [ByteLoop.afterRead_reader]
        apply midway
        intro closes
        rw [ByteLoop.afterRead_phase closes, Function.update_self] at notClosing
        exact notClosing rfl
    · obtain ⟨part, cuts, midway⟩ := received.received other
      refine ⟨part, ?_, fun stillOpen notClosing => ?_⟩
      · rw [ByteLoop.afterRead_incoming_other own, frames other own]
        exact cuts
      · rw [ByteLoop.afterRead_phase_other own] at notClosing
        rw [ByteLoop.afterRead_reader_other own, readers other own]
        rw [ByteLoop.afterRead_isOpen, contexts] at stillOpen
        exact midway stillOpen notClosing
  closed other vacant := by
    have wasVacant : ¬ before.IsOpen other := by
      rw [ByteLoop.afterRead_isOpen, contexts] at vacant
      exact vacant
    have own : other ≠ slot := fun same => wasVacant (same ▸ isOpen)
    rw [ByteLoop.afterRead_reader_other own, readers other own]
    exact received.closed other wasVacant

/-- A call of `loop_read` for a slot, and the packet-level steps it is. -/
theorem Received.reads (received : Received past before past' before') {slot : Nat}
    (isOpen : before.IsOpen slot) (idle : before.phase slot = .idle) {events : PollEvents}
    {answers : List RecvAnswer} (ran : before.read slot events answers = some after) :
    ∃ matching after', run loopStep before' matching = some after' ∧
      (∀ watched, recorded loopStep (fun _ before after => framesEnqueued watched before after)
        before' matching = framesAdded watched before after) ∧
      Received (past ++ [.read slot events answers]) after (past' ++ matching) after' := by
  obtain ⟨part, cuts, midway⟩ := received.received slot
  have midway := midway isOpen (by rw [idle]; exact Phase.noConfusion)
  have open' := (received.isOpen slot).mpr isOpen
  have idle' : before'.phase slot = .idle := by rw [received.phase, idle]
  have typed : TypedFront part := by
    intro control head
    refine ((received.typed slot).cut cuts).here control ?_
    rw [List.head?_append, Option.mem_def.mp head]
    rfl
  have isWhole {more rest : List UInt8} {frame : WireFrame}
      (split : before.incoming slot = more ++ rest)
      (whole : ∀ rest, nextFrame (part ++ more ++ rest) = .item frame rest) : frame.Whole := by
    have here := ((received.typed slot).cut cuts).here
    rw [split, ← List.append_assoc] at here
    exact nextFrame_isWhole here (whole rest)
  have taken {more rest : List UInt8} {frame : WireFrame}
      (split : before.incoming slot = more ++ rest)
      (whole : ∀ rest, nextFrame (part ++ more ++ rest) = .item frame rest) :
      mqttFraming.Cuts (streamOf slot past) (framesOf slot (past' ++ [.packet slot frame]))
        ([] ++ rest) := by
    rw [framesOf_append]
    simp only [if_true]
    rw [split, ← List.append_assoc] at cuts
    exact cuts.snoc (whole rest)
  have others (frame : WireFrame) (other : Nat) (apart : other ≠ slot) :
      framesOf other (past' ++ [.packet slot frame]) = framesOf other past' := by
    rw [framesOf_append]
    exact if_neg fun same => apart same.symm
  obtain ⟨result, memory⟩ := read_result midway received.unfailing typed ran
  cases result with
  | @ends reception more split parser =>
      have stepped : loopStep (.fail slot) before' = some
          { before' with phase := Function.update before'.phase slot .closing } :=
        if_pos ⟨open', idle'⟩
      have left : before'.broker =
          (before.afterRead slot before.broker True reception).broker.unread := by
        rw [ByteLoop.afterRead, unread_keepParser, parser, received.broker]
        exact (keepParser_same before.broker.unread slot).symm
      obtain ⟨matched, frames⟩ := matched_step stepped received.broker left
      have still : mqttFraming.Cuts (streamOf slot past)
          (framesOf slot (past' ++ [.fail slot])) ((part ++ more) ++ reception.incoming) := by
        rw [framesOf_append, List.append_assoc, ← split]
        exact cuts
      refine ⟨_, _, matched, frames, received.afterRead
        ((conversationOf_separate slot).keeps received.talkative stepped) rfl (fun _ _ => rfl)
        left ?_ memory isOpen (fun other _ => framesOf_append other past' (.fail slot)) still
        fun notClosing => absurd trivial notClosing⟩
      exact (congrArg (Function.update · slot Phase.closing) received.phase).trans
        (ByteLoop.afterRead_phase trivial).symm
  | @waits reception more split parser midway =>
      have same : before'.broker =
          (before.afterRead slot before.broker False reception).broker.unread := by
        rw [ByteLoop.afterRead, unread_keepParser, parser, received.broker]
        exact (keepParser_same before.broker.unread slot).symm
      have still : mqttFraming.Cuts (streamOf slot past) (framesOf slot (past' ++ []))
          ((part ++ more) ++ reception.incoming) := by
        rw [List.append_nil, List.append_assoc, ← split]
        exact cuts
      refine ⟨[], before', rfl, fun watched => ?_, received.afterRead received.talkative rfl
        (fun _ _ => rfl) same received.phase memory isOpen
        (fun _ _ => by rw [List.append_nil]) still fun _ => midway⟩
      show [] = (addedPackets before.broker.unread
        (before.afterRead slot before.broker False reception).broker.unread watched).map _
      rw [← same, ← received.broker, addedPackets, List.drop_length]
      rfl
  | @unparsed reception rc final more frame split whole parsed rejected parser =>
      have parsed' : parsePacket before'.broker slot frame = some (rc, final) := by
        rw [received.broker]
        exact parsed
      have stepped : loopStep (.packet slot frame) before' = some
          { before' with
            broker := before'.broker.modifyClient slot (keepParser final.parser)
            phase := Function.update before'.phase slot .closing } := by
        rw [loopStep, if_pos ⟨open', idle', isWhole split whole⟩, processPacket, parsed']
        simp only [if_pos rejected]
      have left : before'.broker.modifyClient slot (keepParser final.parser) =
          (before.afterRead slot before.broker True reception).broker.unread := by
        rw [ByteLoop.afterRead, unread_keepParser, parser, received.broker]
      obtain ⟨matched, frames⟩ := matched_step stepped received.broker left
      refine ⟨_, _, matched, frames, received.afterRead
        ((conversationOf_separate slot).keeps received.talkative stepped) rfl (fun _ _ => rfl)
        left ?_ memory isOpen (others frame) (taken split whole)
        fun notClosing => absurd trivial notClosing⟩
      exact (congrArg (Function.update · slot Phase.closing) received.phase).trans
        (ByteLoop.afterRead_phase trivial).symm
  | @handled reception rc final broker retCode more frame split whole parsed accepted handling
      parser atRest =>
      have parsed' : parsePacket before'.broker slot frame = some (rc, final) := by
        rw [received.broker]
        exact parsed
      have ran' : handleMqttCommand before'.broker slot final.message =
          some (broker.unread, retCode) := by
        rw [received.broker]
        exact unread_handleMqttCommand handling
      have handled := handleMqttCommand_handled (parsePacket_shortTopic parsed) handling
      have stepped : ∃ session, loopStep (.packet slot frame) before' = some
          { broker := broker.unread.modifyClient slot (keepParser final.parser)
            phase :=
              if retCode = 0 then before'.phase
              else Function.update before'.phase slot .closing
            session } := by
        rw [loopStep, if_pos ⟨open', idle', isWhole split whole⟩, processPacket, parsed']
        simp only [if_neg accepted, ran']
        exact ⟨_, rfl⟩
      obtain ⟨session, stepped⟩ := stepped
      have left : broker.unread.modifyClient slot (keepParser final.parser) =
          (before.afterRead slot broker (retCode ≠ 0) reception).broker.unread := by
        rw [ByteLoop.afterRead, unread_keepParser, parser]
      obtain ⟨matched, frames⟩ := matched_step stepped received.broker left
      refine ⟨_, _, matched, frames, received.afterRead
        ((conversationOf_separate slot).keeps received.talkative stepped) handled.contextsByPtr
        (fun other apart => ?_) left ?_ memory isOpen (others frame) (taken split whole)
        fun zero => .rest (atRest (not_not.mp zero))⟩
      · rw [handleMqttCommand_reader handling, freeInPacket, Function.update_of_ne apart]
      · rw [received.phase, ByteLoop.afterRead]
        exact (ite_not ..).symm

/-- Every step on bytes is a run of steps on packets, which enqueues the same frames. -/
theorem byteLoop_refines :
    Refines byteStep loopStep (fun watched _ before after => framesAdded watched before after)
      (fun watched _ before after => framesEnqueued watched before after) ByteEvent.Typed
      Received := by
  intro past before past' before' event after received typed stepped
  cases event with
  | accept sock stream =>
      rw [byteStep] at stepped
      split at stepped
      · cases stepped
      · rename_i free
        cases stepped
        obtain ⟨after', stepped', still⟩ := received.accepts typed free
        obtain ⟨matched, frames⟩ := matched_step stepped' received.broker still.broker
        exact ⟨_, after', matched, frames, still⟩
  | read slot events answers =>
      rw [byteStep] at stepped
      split at stepped
      · rename_i ready
        exact received.reads ready.1 ready.2 stepped
      · cases stepped
  | remove slot =>
      rw [byteStep] at stepped
      split at stepped
      · rename_i ready
        cases stepped
        obtain ⟨after', stepped', still⟩ := received.removes ready.1 ready.2
        obtain ⟨matched, frames⟩ := matched_step stepped' received.broker still.broker
        exact ⟨_, after', matched, frames, still⟩
      · cases stepped
  | flush slot flushEvent =>
      rw [byteStep] at stepped
      split at stepped
      · rename_i ready
        split at stepped
        · rename_i sender phase flushed
          cases stepped
          obtain ⟨after', stepped', still⟩ := received.flushes ready.1 ready.2 flushed
          obtain ⟨matched, frames⟩ := matched_step stepped' received.broker still.broker
          exact ⟨_, after', matched, frames, still⟩
        · cases stepped
      · cases stepped

/-- A PINGREQ that comes in two bytes. -/
def pingsSlowly : List ByteEvent :=
  [.accept 5 [0xc0, 0], .read 5 ⟨false, false, true⟩ [.bytes 1, .again],
    .read 5 ⟨false, false, true⟩ [.bytes 1]]

end Step

end MuMQ
