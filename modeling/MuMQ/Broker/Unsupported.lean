import MuMQ.Broker.Reading
import MuMQ.Data.Run

namespace MuMQ

open Data

/-! Packets of a type that the parser does not take. -/

/-- The types that `mqtt_parser_execute` goes on with from its initial state. -/
def supportedTypes : List UInt8 :=
  [mqttTypeConnect, mqttTypeConnack, mqttTypePublish, mqttTypeSubscribe, mqttTypePingreq,
    mqttTypeDisconnect]

/-- The control byte of a packet of another type. -/
def Unsupported (control : UInt8) : Prop := control >>> 4 ∉ supportedTypes

instance (control : UInt8) : Decidable (Unsupported control) :=
  inferInstanceAs (Decidable (_ ∉ _))

section Reading

variable {World : Type}

/-- What `loop_read` does with a complete packet: the parser, from its initial state, and
`handle` for `handle_mqtt_command`.  The world is lost in a read outside the payload. -/
def parseAndHandle (parser : Parser) (handle : World → Message → UInt8 × World)
    (world : Option World) (message : Message) (payload : Option (List UInt8)) :
    PacketOutcome × Option World :=
  match mqttParserExecute { parser with state := .initial } message payload
      message.length.toNat 0 with
  | some (rc, final) =>
      if rc = .error ∨ rc = .incomplete then (.unparsed final.parser, world)
      else
        match world with
        | some world =>
            let (rc, world) := handle world final.message
            (.handled final.parser rc, some world)
        | none => (.unparsed final.parser, none)
  | none => (.unparsed parser, none)

/-- `handle` with a record of the messages it is called for. -/
def recordingHandler (handle : World → Message → UInt8 × World)
    (state : World × List Message) (message : Message) : UInt8 × World × List Message :=
  let (rc, world) := handle state.1 message
  (rc, world, state.2 ++ [message])

/-- A connection between two calls of `loop_read`: what the handler works on and was
called for, the bytes received since the packet began, and the value the last call
returned. -/
structure ReadingState (World : Type) where
  reception : Reception
  world : World
  handled : List Message
  received : List UInt8
  returned : Int

/-- Before the first byte of a packet. -/
def ReadingState.begin (reception : Reception) (world : World) : ReadingState World :=
  ⟨reception, world, [], [], 1⟩

/-- `recv` brings bytes, or fails with `EAGAIN`. -/
def recvAnswer : Option Nat → RecvAnswer
  | some count => .bytes count
  | none => .again

/-- A call of `loop_read` on a connection that is still open. -/
def readStep (handle : World → Message → UInt8 × World) (answers : List (Option Nat))
    (state : ReadingState World) : Option (ReadingState World) :=
  if 0 < state.returned then
    match loopRead
        (parseAndHandle state.reception.reader.inParser (recordingHandler handle))
        ⟨false, false, true⟩ (answers.map recvAnswer) state.reception
        (some (state.world, state.handled)) with
    | (value, reception, some (world, handled)) =>
        some
          { reception := reception
            world := world
            handled := handled
            received := state.received ++
              state.reception.incoming.take
                (state.reception.incoming.length - reception.incoming.length)
            returned := value }
    | (_, _, none) => none
  else none

/-- A call that takes a byte as control byte. -/
def TakesControl (answers : List (Option Nat)) (reception : Reception) : Prop :=
  ∃ rlen others after,
    readControl (answers.map recvAnswer) reception = .goesOn rlen others after ∧
      after.incoming ≠ reception.incoming

/-- One call on the way to the refusal of a packet: the handler is not called, no later
byte is taken as control byte, and the connection stays open as long as the packet is
not complete, and is then closed with an error. -/
structure Refuses (answers : List (Option Nat)) (before after : ReadingState World) :
    Prop where
  unhandled : after.handled = before.handled
  control : before.received ≠ [] → ¬ TakesControl answers before.reception
  kept : 0 < after.returned → nextFrame after.received = .incomplete
  closed : ¬ 0 < after.returned → after.returned < 0 ∧
    ((∃ frame, nextFrame after.received = .item frame []) ∨
      nextFrame after.received = .malformed)

/-- A call that receives a byte although a part of a packet of type 0 is there. -/
def Restarts (answers : List (Option Nat)) (before : ReadingState World) : Prop :=
  (∃ control ∈ before.received.head?, control >>> 4 = 0) ∧
    Eager (answers.map recvAnswer) before.reception.incoming

theorem undisturbed_map (answers : List (Option Nat)) :
    Undisturbed (answers.map recvAnswer) := by
  intro answer member
  obtain ⟨given, _, rfl⟩ := List.mem_map.mp member
  cases given with
  | none => exact .inl rfl
  | some count => exact .inr ⟨count, rfl⟩

/-! The parser refuses the packet. -/

theorem mqttParserExecute_unsupported (parser : Parser) {message : Message}
    (unsupported : message.type ∉ supportedTypes) (payload : Option (List UInt8)) (len : Nat) :
    ∃ final, mqttParserExecute { parser with state := .initial } message payload len 0 =
      some (.error, final) := by
  simp only [supportedTypes, List.mem_cons, List.not_mem_nil, or_false, not_or] at unsupported
  obtain ⟨connect, connack, publish, subscribe, pingreq, disconnect⟩ := unsupported
  refine ⟨⟨{ parser with state := .initial, error := .parserInvalidMessageId }, message, 0⟩, ?_⟩
  rw [mqttParserExecute, parserLoop, parserStep]
  simp only [connect, connack, publish, subscribe, pingreq, disconnect, if_false]

theorem parseAndHandle_unsupported (parser : Parser) (handle : World → Message → UInt8 × World)
    (world : Option World) {message : Message} (unsupported : message.type ∉ supportedTypes)
    (payload : Option (List UInt8)) :
    ∃ final, parseAndHandle parser handle world message payload = (.unparsed final, world) := by
  obtain ⟨final, rejected⟩ := mqttParserExecute_unsupported parser unsupported payload
    message.length.toNat
  exact ⟨final.parser, by simp [parseAndHandle, rejected]⟩

theorem nextFrame_control {control : UInt8} {bytes rest : List UInt8} {frame : WireFrame}
    (front : nextFrame (control :: bytes) = .item frame rest) : frame.control = control := by
  rw [nextFrame] at front
  split at front
  · split at front
    · cases front
      rfl
    · cases front
  · cases front
  · cases front

theorem handleFrame_unsupported {frame : WireFrame} (unsupported : Unsupported frame.control)
    (parser : Parser) (handle : World → Message → UInt8 × World) (world : Option World) :
    handleFrame (parseAndHandle parser handle) world frame = (false, world) := by
  have type : frame.message.type ∉ supportedTypes := by
    rw [show frame.message.type = frame.control >>> 4 from
      type_mqttParserCommand .zero frame.control]
    exact unsupported
  obtain ⟨final, rejected⟩ := parseAndHandle_unsupported parser handle world type frame.inPayload
  rw [handleFrame, rejected]

/-! One call. -/

/-- Where a packet with this control byte stands while it is received. -/
structure ReadingInvariant (control : UInt8) (state : ReadingState World) : Prop where
  midway : 0 < state.returned → Midway state.reception.reader state.received
  unfailing : 0 < state.returned → state.reception.memory.Unfailing
  stream : ∃ rest, state.received ++ state.reception.incoming = control :: rest

theorem Midway.begun {reader : Reader} {control : UInt8} {part : List UInt8}
    (midway : Midway reader (control :: part)) :
    ∃ length, reader.inPacket = some (begunMessage control length) := by
  generalize whole : control :: part = bytes at midway
  cases midway with
  | rest atRest => cases whole
  | length inLength =>
      cases whole
      exact ⟨_, inLength.packet⟩
  | payload inPayload short =>
      cases whole
      exact ⟨_, inPayload.packet⟩

theorem recv_idle {answer : RecvAnswer} {answers : List RecvAnswer} {incoming : List UInt8}
    (undisturbed : Undisturbed (answer :: answers))
    (idle : ¬ Eager (answer :: answers) incoming) (requested : Nat) :
    recv answer requested incoming = .ended 1 := by
  rcases undisturbed answer (by simp) with rfl | ⟨count, rfl⟩
  · rfl
  · by_cases empty : incoming = []
    · rw [recv, if_pos empty]
    · exact absurd ⟨empty, count, answers, rfl⟩ idle

/-- With a part of a packet of type 0 the next byte is taken as control byte. -/
theorem readControl_untyped {reception : Reception} {control : UInt8} {length : Nat}
    (packet : reception.reader.inPacket = some (begunMessage control length))
    (untyped : control >>> 4 = 0) {answers : List RecvAnswer}
    (undisturbed : Undisturbed answers) :
    (readControl answers reception = .returns 1 reception ∧
        ¬ Eager answers reception.incoming) ∨
      ∃ rlen others after, readControl answers reception = .goesOn rlen others after ∧
        after.incoming ≠ reception.incoming ∧ Eager answers reception.incoming := by
  have opened : openPacket reception = reception := by
    unfold openPacket
    rw [packet]
  have type : reception.reader.packet.type = 0 := by
    rw [Reader.packet, packet, Option.getD_some, begunMessage]
    exact (type_mqttParserCommand .zero control).trans untyped
  unfold readControl
  simp only [opened, type, if_true]
  cases answers with
  | nil => exact .inl ⟨rfl, not_eager_nil _⟩
  | cons answer others =>
      by_cases eager : Eager (answer :: others) reception.incoming
      · rcases recv_one undisturbed reception.incoming with
          ⟨_, idle⟩ | ⟨byte, rest, received, split⟩
        · exact absurd eager idle
        · simp only [received]
          refine .inr ⟨_, _, _, rfl, ?_, eager⟩
          rw [split]
          exact (List.cons_ne_self byte rest).symm
      · simp only [recv_idle undisturbed eager 1]
        exact .inl ⟨trivial, eager⟩

theorem take_of_split {more rest : List UInt8} :
    (more ++ rest).take ((more ++ rest).length - rest.length) = more := by
  rw [List.length_append, Nat.add_sub_cancel, List.take_left]

section Call

variable {handle : World → Message → UInt8 × World} {control : UInt8}
  {answers : List (Option Nat)} {before after : ReadingState World}

theorem ReadingInvariant.restarts (invariant : ReadingInvariant control before)
    (isOpen : 0 < before.returned) (restarts : Restarts answers before) :
    before.received ≠ [] ∧ TakesControl answers before.reception := by
  obtain ⟨⟨first, head, untyped⟩, eager⟩ := restarts
  have midway := invariant.midway isOpen
  cases received : before.received with
  | nil =>
      rw [received] at head
      cases head
  | cons byte part =>
      rw [received] at head midway
      cases head
      obtain ⟨length, packet⟩ := midway.begun
      refine ⟨List.cons_ne_nil _ _, ?_⟩
      rcases readControl_untyped packet untyped (undisturbed_map answers) with
        ⟨_, idle⟩ | ⟨rlen, others, after, wentOn, moved, _⟩
      · exact absurd eager idle
      · exact ⟨rlen, others, after, wentOn, moved⟩

/-- A packet of a type is resumed where it was left. -/
theorem Midway.not_takesControl {reception : Reception} {part : List UInt8}
    (midway : Midway reception.reader part) (nonempty : part ≠ []) (typed : TypedFront part)
    (answers : List (Option Nat)) : ¬ TakesControl answers reception := by
  obtain ⟨first, rest, rfl⟩ := List.exists_cons_of_ne_nil nonempty
  obtain ⟨length, packet⟩ := midway.begun
  rintro ⟨rlen, others, after, wentOn, moved⟩
  rw [readControl_midway packet (typed first rfl)] at wentOn
  cases wentOn
  exact moved rfl

/-- A call on a packet of which nothing is there, or whose control byte has a type. -/
theorem ReadingInvariant.typed (unsupported : Unsupported control)
    (invariant : ReadingInvariant control before)
    (stepped : readStep handle answers before = some after)
    (typed : TypedFront before.received) :
    ReadingInvariant control after ∧ Refuses answers before after := by
  rw [readStep] at stepped
  split at stepped
  · rename_i isOpen
    have midway := invariant.midway isOpen
    obtain ⟨rest, stream⟩ := invariant.stream
    have outcome := loopRead_outcome
      (parseAndHandle before.reception.reader.inParser (recordingHandler handle)) midway
      (invariant.unfailing isOpen) (undisturbed_map answers) typed
      (some (before.world, before.handled))
    have notControl : before.received ≠ [] → ¬ TakesControl answers before.reception :=
      fun nonempty => midway.not_takesControl nonempty typed answers
    generalize loopRead
      (parseAndHandle before.reception.reader.inParser (recordingHandler handle))
      ⟨false, false, true⟩ (answers.map recvAnswer) before.reception
      (some (before.world, before.handled)) = result at outcome stepped
    have isControl : ∀ {more behind : List UInt8} {frame : WireFrame},
        before.reception.incoming = more ++ behind →
        (∀ rest, nextFrame (before.received ++ more ++ rest) = .item frame rest) →
        Unsupported frame.control := by
      intro more behind frame split whole
      have front := whole behind
      rw [List.append_assoc, ← split, stream] at front
      rw [nextFrame_control front]
      exact unsupported
    have streamAfter : ∀ {more behind : List UInt8},
        before.reception.incoming = more ++ behind →
        before.received ++ more ++ behind = control :: rest := by
      intro more behind split
      rw [List.append_assoc, ← split, stream]
    cases outcome with
    | @waits value reception more split moved midway unfailing positive =>
        cases stepped
        rw [split, take_of_split]
        refine ⟨⟨fun _ => midway, fun _ => unfailing, rest, streamAfter split⟩, rfl, notControl,
          fun _ => midway.incomplete, fun closed => absurd positive closed⟩
    | @overlong value reception more split malformed ended =>
        cases stepped
        rw [split, take_of_split]
        have closed : ¬ 0 < value := by omega
        refine ⟨⟨fun isOpen => absurd isOpen closed, fun isOpen => absurd isOpen closed, rest,
          streamAfter split⟩, rfl, notControl, fun isOpen => absurd isOpen closed,
          fun _ => ⟨?_, .inr ?_⟩⟩
        · show value < 0
          omega
        · have here := malformed []
          rwa [List.append_nil] at here
    | accepted more frame split whole handled atRest unfailing positive =>
        rw [handleFrame_unsupported (isControl split whole)] at handled
        cases handled
    | @refused world value reception more frame split whole handled ended =>
        rw [handleFrame_unsupported (isControl split whole)] at handled
        cases handled
        cases stepped
        rw [split, take_of_split]
        have closed : ¬ 0 < value := by omega
        refine ⟨⟨fun isOpen => absurd isOpen closed, fun isOpen => absurd isOpen closed, rest,
          streamAfter split⟩, rfl, notControl, fun isOpen => absurd isOpen closed,
          fun _ => ⟨?_, .inl ⟨frame, ?_⟩⟩⟩
        · show value < 0
          omega
        · have here := whole []
          rwa [List.append_nil] at here
  · cases stepped

/-- A call that brings nothing for a packet of type 0 changes nothing. -/
theorem ReadingInvariant.untyped (invariant : ReadingInvariant control before)
    (stepped : readStep handle answers before = some after) {first : UInt8}
    {part : List UInt8} (received : before.received = first :: part) (untyped : first >>> 4 = 0)
    (idle : ¬ Eager (answers.map recvAnswer) before.reception.incoming) :
    ReadingInvariant control after ∧ Refuses answers before after := by
  rw [readStep] at stepped
  split at stepped
  · rename_i isOpen
    have midway := invariant.midway isOpen
    obtain ⟨length, packet⟩ := (received ▸ midway).begun
    rcases readControl_untyped packet untyped (undisturbed_map answers) with
      ⟨returned, _⟩ | ⟨_, _, _, _, _, eager⟩
    · have waits : loopRead
          (parseAndHandle before.reception.reader.inParser (recordingHandler handle))
          ⟨false, false, true⟩ (answers.map recvAnswer) before.reception
          (some (before.world, before.handled)) =
            (1, before.reception, some (before.world, before.handled)) := by
        unfold loopRead
        simp [returned, ReadStage.andThen]
      rw [waits] at stepped
      cases stepped
      have same : before.received ++ before.reception.incoming.take
          (before.reception.incoming.length - before.reception.incoming.length) =
            before.received := by
        rw [Nat.sub_self, List.take_zero, List.append_nil]
      simp only [same]
      refine ⟨⟨fun _ => midway, fun _ => invariant.unfailing isOpen, invariant.stream⟩, rfl,
        fun _ => ?_, fun _ => midway.incomplete, fun closed => absurd Int.one_pos closed⟩
      rintro ⟨rlen, others, next, wentOn, _⟩
      rw [returned] at wentOn
      cases wentOn
    · exact absurd eager idle
  · cases stepped

theorem ReadingInvariant.call (unsupported : Unsupported control)
    (invariant : ReadingInvariant control before)
    (stepped : readStep handle answers before = some after)
    (resumes : ¬ Restarts answers before) :
    ReadingInvariant control after ∧ Refuses answers before after := by
  cases received : before.received with
  | nil => exact invariant.typed unsupported stepped (by simp [TypedFront, received])
  | cons first part =>
      by_cases untyped : first >>> 4 = 0
      · refine invariant.untyped stepped received untyped fun eager => resumes ⟨?_, eager⟩
        exact ⟨first, by rw [received]; rfl, untyped⟩
      · refine invariant.typed unsupported stepped ?_
        rw [received]
        rintro other head
        cases head
        exact untyped

end Call

/-- However its bytes arrive, a packet that the parser does not take is refused as long
as no call resumes a packet of type 0. -/
theorem refuses_iff (handle : World → Message → UInt8 × World) {reception : Reception}
    (atRest : AtRest reception.reader) (unfailing : reception.memory.Unfailing)
    {control : UInt8} {rest : List UInt8} (stream : reception.incoming = control :: rest)
    (unsupported : Unsupported control) (world : World) (calls : List (List (Option Nat))) :
    Along (readStep handle) Refuses (.begin reception world) calls ↔
      Along (readStep handle) (fun answers before _ => ¬ Restarts answers before)
        (.begin reception world) calls := by
  refine along_iff_of_invariant (ReadingInvariant control)
    (fun answers _ before after invariant stepped resumes =>
      (invariant.call unsupported stepped resumes).1)
    (fun answers _ before after invariant stepped => ⟨fun refuses restarts => ?_,
      fun resumes => (invariant.call unsupported stepped resumes).2⟩)
    ⟨fun _ => .rest atRest, fun _ => unfailing, rest, stream⟩
  have isOpen : 0 < before.returned := by
    rw [readStep] at stepped
    split at stepped
    · assumption
    · cases stepped
  obtain ⟨nonempty, takes⟩ := invariant.restarts isOpen restarts
  exact refuses.control nonempty takes

end Reading

/-- A handler that accepts every message and counts them. -/
def countingHandler (count : Nat) (_ : Message) : UInt8 × Nat := (0, count + 1)

/-- A connection that has just been accepted, before these bytes. -/
def accepted (stream : List UInt8) : Reception :=
  ⟨.zero, ⟨fun _ => true, fun _ => 0, 0⟩, stream⟩

/-- A PUBREC of two bytes in four calls. -/
def slowPubrec : List (List (Option Nat)) :=
  [[some 1, none], [some 1, some 1], [none], [some 1]]

theorem refuses_iff_slowPubrec :
    Along (readStep countingHandler) Refuses
      (.begin (accepted [0x50, 0x02, 0x00, 0x01]) 0) slowPubrec := by
  have checked : checkAlong (readStep countingHandler)
      (fun _ state => state.received.head?.all fun control : UInt8 => control >>> 4 ≠ 0)
      (.begin (accepted [0x50, 0x02, 0x00, 0x01]) 0) slowPubrec = true := by
    decide +kernel
  have typed : Along (readStep countingHandler) (fun answers before _ => ¬ Restarts answers before)
      (.begin (accepted [0x50, 0x02, 0x00, 0x01]) 0) slowPubrec :=
    along_of_check _ (fun answers before typed restarts => by
      obtain ⟨⟨control, head, untyped⟩, _⟩ := restarts
      simp [Option.mem_def.mp head, untyped] at typed) checked
  exact (refuses_iff countingHandler atRest_zero (fun _ => rfl) rfl (by decide) 0 slowPubrec).mpr
    typed

/-- A packet of type 0 with one byte of payload, of which a second call brings the last
byte, and a byte behind it. -/
def untypedInTwo : List (List (Option Nat)) := [[some 1, some 1, none], [some 1, some 1]]

/-- The payload byte becomes the control byte of a PINGREQ, which is handled. -/
theorem refuses_untypedInTwo :
    Unsupported 0x00 ∧
      (run (readStep countingHandler) (.begin (accepted [0x00, 0x01, 0xc0, 0x00]) 0)
        untypedInTwo).map (fun final => (final.returned, final.world)) = some (1, 1) ∧
      ¬ Along (readStep countingHandler) Refuses
        (.begin (accepted [0x00, 0x01, 0xc0, 0x00]) 0) untypedInTwo := by
  refine ⟨by decide, by decide +kernel, fun refuses => ?_⟩
  have whole : (run (readStep countingHandler)
      (.begin (accepted [0x00, 0x01, 0xc0, 0x00]) 0) untypedInTwo).map
        (fun final => (final.returned, final.received)) = some (1, [0x00, 0x01, 0xc0, 0x00]) := by
    decide +kernel
  obtain ⟨final, ran, same⟩ := Option.map_eq_some_iff.mp whole
  obtain ⟨returned, received⟩ := Prod.mk.inj same
  have kept := (refuses.imp fun _ _ _ _ refuses => refuses.kept).final
    (fun state => 0 < state.returned → nextFrame state.received = .incomplete)
    (fun _ => rfl) ran
  rw [returned, received] at kept
  cases kept (by decide)

end MuMQ
