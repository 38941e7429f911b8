import MuMQ.Broker.Exchange
import MuMQ.Broker.Reading
import MuMQ.Broker.Readers
import MuMQ.Data.Refinement

namespace MuMQ

open Data

/-! The broker as bytes come in. -/

/-- The broker, where the thread of each connection stands, the allocator as `loop_read` finds
it for a message and a payload, and what is still to be received from the peer of each slot. -/
structure ByteLoop where
  broker : Broker
  phase : Nat → Phase
  memory : Memory
  incoming : Nat → List UInt8

/-- What can happen next: a socket is accepted, with all that its peer will ever send,
`loop_read` is called for a connection, a connection is removed, or its thread goes on in the
flush loop. -/
inductive ByteEvent where
  | accept (sock : Nat) (stream : List UInt8)
  | read (slot : Nat) (events : PollEvents) (answers : List RecvAnswer)
  | remove (slot : Nat)
  | flush (slot : Nat) (event : FlushEvent)

/-- `mqtt_parser_execute` and `handle_mqtt_command`, as `loop_read` calls them.  The broker is
lost in a read outside the payload and in a wait without end. -/
def parseAndCommand (slot : Nat) (parser : Parser) (broker : Option Broker) (message : Message)
    (payload : Option (List UInt8)) : PacketOutcome × Option Broker :=
  match mqttParserExecute { parser with state := .initial } message payload
      message.length.toNat 0 with
  | some (rc, final) =>
      if rc = .error ∨ rc = .incomplete then (.unparsed final.parser, broker)
      else
        match broker.bind fun broker => handleMqttCommand broker slot final.message with
        | some (after, retCode) => (.handled final.parser retCode, some after)
        | none => (.unparsed final.parser, none)
  | none => (.unparsed parser, none)

namespace ByteLoop

def start (memory reading : Memory) : ByteLoop where
  broker := initDatabase memory
  phase := fun _ => .idle
  memory := reading
  incoming := fun _ => []

def IsOpen (state : ByteLoop) (slot : Nat) : Prop := slot ∈ state.broker.contextsByPtr

instance (state : ByteLoop) (slot : Nat) : Decidable (state.IsOpen slot) :=
  inferInstanceAs (Decidable (_ ∈ _))

/-- A call of `loop_read`; a value of 0 or less is followed by `remove_client`. -/
def read (slot : Nat) (events : PollEvents) (answers : List RecvAnswer) (state : ByteLoop) :
    Option ByteLoop :=
  let reader := (state.broker.clients slot).reader
  match loopRead (parseAndCommand slot reader.inParser) events answers
      ⟨reader, state.memory, state.incoming slot⟩ (some state.broker) with
  | (value, reception, some broker) =>
      some
        { broker := broker.modifyClient slot fun client =>
            { client with reader := reception.reader }
          phase := if value ≤ 0 then Function.update state.phase slot .closing else state.phase
          memory := reception.memory
          incoming := Function.update state.incoming slot reception.incoming }
  | (_, _, none) => none

end ByteLoop

def byteStep : ByteEvent → ByteLoop → Option ByteLoop
  | .accept sock stream, state =>
      if state.IsOpen sock then none
      else
        some
          { state with
            broker := acceptClient state.broker sock
            incoming := Function.update state.incoming sock stream }
  | .read slot events answers, state =>
      if state.IsOpen slot ∧ state.phase slot = .idle then state.read slot events answers
      else none
  | .remove slot, state =>
      if state.IsOpen slot ∧ state.phase slot = .closing then
        some
          { state with
            broker := removeClient state.broker slot
            phase := Function.update state.phase slot .idle }
      else none
  | .flush slot event, state =>
      if state.IsOpen slot ∧ sendAnswers (state.broker.clients slot).sender event then
        match flushStep event (state.phase slot) (state.broker.clients slot).sender with
        | some (sender, phase) =>
            some
              { state with
                broker := state.broker.modifySender slot fun _ => sender
                phase := Function.update state.phase slot phase }
        | none => none
      else none

/-! The parts of `loop_read`, with any answers. -/

/-- Receiving has nothing to do with the parser, and only allocates. -/
structure Reception.LeadsTo (before after : Reception) : Prop where
  parser : after.reader.inParser = before.reader.inParser
  memory : Memory.Extends before.memory after.memory

theorem Reception.LeadsTo.refl (reception : Reception) : reception.LeadsTo reception :=
  ⟨rfl, .refl _⟩

theorem Reception.LeadsTo.trans {first second third : Reception} (left : first.LeadsTo second)
    (right : second.LeadsTo third) : first.LeadsTo third :=
  ⟨right.parser.trans left.parser, left.memory.trans right.memory⟩

def ReadStage.ComesFrom (before : Reception) : ReadStage → Prop
  | .returns _ after => before.LeadsTo after
  | .goesOn _ _ after => before.LeadsTo after

theorem ReadStage.ComesFrom.behind {before middle : Reception} {stage : ReadStage}
    (comes : stage.ComesFrom middle) (earlier : before.LeadsTo middle) :
    stage.ComesFrom before := by
  cases stage with
  | returns value after => exact earlier.trans comes
  | goesOn rlen answers after => exact earlier.trans comes

theorem ReadStage.ComesFrom.andThen {before : Reception} {stage : ReadStage}
    (comes : stage.ComesFrom before) {next : Int → List RecvAnswer → Reception → ReadStage}
    (later : ∀ rlen answers middle, (next rlen answers middle).ComesFrom middle) :
    (stage.andThen next).ComesFrom before := by
  cases stage with
  | returns value after => exact comes
  | goesOn rlen answers middle => exact (later rlen answers middle).behind comes

theorem readControl_comesFrom (answers : List RecvAnswer) (reception : Reception) :
    (readControl answers reception).ComesFrom reception := by
  have opened : reception.LeadsTo (openPacket reception) := by
    unfold openPacket
    split
    · exact .refl reception
    · exact ⟨rfl, .mallocUnchecked reception.memory⟩
  unfold readControl
  simp only
  split
  · cases answers with
    | nil => exact opened
    | cons answer answers =>
        simp only
        split
        · exact opened
        · exact ⟨opened.parser, opened.memory⟩
  · exact opened

theorem lengthLoop_comesFrom (answers : List RecvAnswer) (reception : Reception) :
    (lengthLoop reception answers).ComesFrom reception := by
  induction answers generalizing reception with
  | nil => exact .refl reception
  | cons answer answers induction =>
      rw [lengthLoop]
      split
      · exact .refl reception
      · simp only
        split
        · exact ⟨rfl, .refl _⟩
        · split
          · exact (induction _).behind ⟨rfl, .refl _⟩
          · exact ⟨rfl, .refl _⟩

theorem readLength_comesFrom (rlen : Int) (answers : List RecvAnswer) (reception : Reception) :
    (readLength rlen answers reception).ComesFrom reception := by
  unfold readLength
  split
  · apply (lengthLoop_comesFrom answers reception).andThen
    intro rlen answers after
    have extended := Memory.Extends.malloc after.memory
    simp only
    split
    · split
      · rename_i memory malloc
        rw [malloc] at extended
        exact ⟨rfl, extended⟩
      · rename_i address memory malloc
        rw [malloc] at extended
        exact ⟨rfl, extended⟩
    · exact ⟨rfl, .refl _⟩
  · exact .refl reception

theorem payloadLoop_comesFrom (rlen : Int) (answers : List RecvAnswer) (reception : Reception) :
    (payloadLoop rlen reception answers).ComesFrom reception := by
  induction answers generalizing rlen reception with
  | nil =>
      rw [payloadLoop]
      split
      · exact .refl reception
      · exact .refl reception
  | cons answer answers induction =>
      rw [payloadLoop]
      simp only
      split
      · split
        · exact .refl reception
        · exact (induction _ _).behind ⟨rfl, .refl _⟩
      · exact .refl reception

/-- The three parts of a call. -/
def readStages (answers : List RecvAnswer) (reception : Reception) : ReadStage :=
  ((readControl answers reception).andThen readLength).andThen
    fun rlen answers reception => payloadLoop rlen reception answers

theorem readStages_comesFrom (answers : List RecvAnswer) (reception : Reception) :
    (readStages answers reception).ComesFrom reception :=
  ((readControl_comesFrom answers reception).andThen fun rlen answers middle =>
      readLength_comesFrom rlen answers middle).andThen
    fun rlen answers middle => payloadLoop_comesFrom rlen answers middle

/-- The answer to a `recv` that would only have blocked. -/
def RecvAnswer.calm : RecvAnswer → RecvAnswer
  | .bytes count => .bytes count
  | _ => .again

theorem undisturbed_calm (answers : List RecvAnswer) : Undisturbed (answers.map RecvAnswer.calm) := by
  intro answer member
  obtain ⟨original, _, rfl⟩ := List.mem_map.mp member
  cases original with
  | bytes count => exact .inr ⟨count, rfl⟩
  | eof => exact .inl rfl
  | again => exact .inl rfl
  | reset => exact .inl rfl
  | failed => exact .inl rfl

/-- A part of a call ends the connection where it would have had to wait, or it does what it
would have done. -/
inductive Calmed : ReadStage → ReadStage → Prop
  | fails {value : Int} (reception : Reception) (ended : value ≤ 0) :
      Calmed (.returns value reception) (.returns 1 reception)
  | returns (value : Int) (reception : Reception) :
      Calmed (.returns value reception) (.returns value reception)
  | goesOn (rlen : Int) (answers : List RecvAnswer) (reception : Reception) :
      Calmed (.goesOn rlen answers reception) (.goesOn rlen (answers.map RecvAnswer.calm) reception)

theorem recv_calm (answer : RecvAnswer) (requested : Nat) (incoming : List UInt8) :
    recv answer.calm requested incoming = recv answer requested incoming ∨
      recv answer.calm requested incoming = .ended 1 ∧
        ∃ value ≤ 0, recv answer requested incoming = .ended value := by
  cases answer with
  | bytes count => exact .inl rfl
  | again => exact .inl rfl
  | eof => exact .inr ⟨rfl, 0, by decide, rfl⟩
  | reset => exact .inr ⟨rfl, 0, by decide, rfl⟩
  | failed => exact .inr ⟨rfl, -3, by decide, rfl⟩

theorem Calmed.andThen {stage calm : ReadStage} (calmed : Calmed stage calm)
    {next : Int → List RecvAnswer → Reception → ReadStage}
    (later : ∀ rlen answers reception,
      Calmed (next rlen answers reception) (next rlen (answers.map RecvAnswer.calm) reception)) :
    Calmed (stage.andThen next) (calm.andThen next) := by
  cases calmed with
  | fails reception ended => exact .fails reception ended
  | returns value reception => exact .returns value reception
  | goesOn rlen answers reception => exact later rlen answers reception

/-- Two ways to go on after a `recv` that is calmed. -/
theorem Calmed.recv {answer : RecvAnswer} {requested : Nat} {incoming : List UInt8}
    (reception : Reception) {received calm : List UInt8 → List UInt8 → ReadStage}
    (later : ∀ data rest, Calmed (received data rest) (calm data rest)) :
    Calmed
      (match MuMQ.recv answer requested incoming with
        | .ended value => .returns value reception
        | .received data rest => received data rest)
      (match MuMQ.recv answer.calm requested incoming with
        | .ended value => .returns value reception
        | .received data rest => calm data rest) := by
  rcases recv_calm answer requested incoming with same | ⟨waits, value, ended, fails⟩
  · rw [same]
    split
    · exact .returns _ _
    · exact later _ _
  · rw [waits, fails]
    exact .fails reception ended

theorem readControl_calm (answers : List RecvAnswer) (reception : Reception) :
    Calmed (readControl answers reception)
      (readControl (answers.map RecvAnswer.calm) reception) := by
  unfold readControl
  simp only
  split
  · cases answers with
    | nil => exact .returns _ _
    | cons answer answers => exact Calmed.recv _ fun data rest => .goesOn _ _ _
  · exact .goesOn _ _ _

theorem lengthLoop_calm (answers : List RecvAnswer) (reception : Reception) :
    Calmed (lengthLoop reception answers)
      (lengthLoop reception (answers.map RecvAnswer.calm)) := by
  induction answers generalizing reception with
  | nil => exact .returns _ _
  | cons answer answers induction =>
      rw [List.map_cons, lengthLoop, lengthLoop]
      refine Calmed.recv _ fun data rest => ?_
      simp only
      split
      · exact .returns _ _
      · split
        · exact induction _
        · exact .goesOn _ _ _

theorem readLength_calm (rlen : Int) (answers : List RecvAnswer) (reception : Reception) :
    Calmed (readLength rlen answers reception)
      (readLength rlen (answers.map RecvAnswer.calm) reception) := by
  unfold readLength
  split
  · refine (lengthLoop_calm answers reception).andThen fun rlen answers after => ?_
    simp only
    split
    · split
      · exact .returns _ _
      · exact .goesOn _ _ _
    · exact .goesOn _ _ _
  · exact .goesOn _ _ _

theorem payloadLoop_calm (rlen : Int) (answers : List RecvAnswer) (reception : Reception) :
    Calmed (payloadLoop rlen reception answers)
      (payloadLoop rlen reception (answers.map RecvAnswer.calm)) := by
  induction answers generalizing rlen reception with
  | nil =>
      rw [List.map_nil, payloadLoop]
      split
      · exact .returns _ _
      · exact .goesOn _ [] _
  | cons answer answers induction =>
      rw [List.map_cons, payloadLoop, payloadLoop]
      simp only
      split
      · exact Calmed.recv _ fun data rest => induction _ _
      · exact .goesOn _ (answer :: answers) _

theorem readStages_calm (answers : List RecvAnswer) (reception : Reception) :
    Calmed (readStages answers reception)
      (readStages (answers.map RecvAnswer.calm) reception) :=
  ((readControl_calm answers reception).andThen fun rlen answers reception =>
      readLength_calm rlen answers reception).andThen
    fun rlen answers reception => payloadLoop_calm rlen answers reception

/-- Whatever the `recv`s of a call answer: the connection ends, or the call waits for more of
the packet, or the packet is whole. -/
inductive StageResult (part incoming : List UInt8) : ReadStage → Prop
  | ends {value : Int} {after : Reception} (more : List UInt8)
      (split : incoming = more ++ after.incoming) (ended : value ≤ 0) : StageResult part incoming (.returns value after)
  | waits {after : Reception} (more : List UInt8) (split : incoming = more ++ after.incoming)
      (midway : Midway after.reader (part ++ more)) : StageResult part incoming (.returns 1 after)
  | packet {after : Reception} {rlen : Int} {others : List RecvAnswer}
      (more : List UInt8) (frame : WireFrame) (split : incoming = more ++ after.incoming)
      (whole : ∀ rest, nextFrame (part ++ more ++ rest) = .item frame rest)
      (message : after.reader.packet = frame.message)
      (payload : after.reader.inPayload = frame.inPayload)
      (processed : after.reader.inToProcess = 0) (positive : 0 < rlen) :
      StageResult part incoming (.goesOn rlen others after)

theorem readStages_result {reception : Reception} {part : List UInt8}
    (midway : Midway reception.reader part) (unfailing : reception.memory.Unfailing)
    (typed : TypedFront part) (answers : List RecvAnswer) :
    StageResult part reception.incoming (readStages answers reception) := by
  have outcome := stages_midway midway unfailing (undisturbed_calm answers) typed
  have calmed := readStages_calm answers reception
  rw [← readStages] at outcome
  generalize readStages answers reception = stage at calmed
  generalize readStages (answers.map RecvAnswer.calm) reception = calm at calmed outcome
  cases calmed with
  | fails after ended =>
      cases outcome with
      | waits more split moved midway unfailing => exact .ends more split ended
  | returns value after =>
      cases outcome with
      | waits more split moved midway unfailing => exact .waits more split midway
      | overlong more split malformed => exact .ends more split (by decide)
  | goesOn rlen others after =>
      cases outcome with
      | packet more frame split whole message payload processed positive unfailing =>
          exact .packet more frame split whole message payload processed positive

end MuMQ
