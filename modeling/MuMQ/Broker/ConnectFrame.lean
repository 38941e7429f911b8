import MuMQ.Broker.Framing
import MuMQ.Mqtt.FrameSize

namespace MuMQ

open Data

/-! A CONNECT from the serialiser to the parser. -/

/-- The control byte and the remaining length as `loop_read` decodes them, every
byte being there, and the parser on the bytes that follow. -/
def receiveConnect (memory : Memory) (frame : List UInt8) : Option (ParserRc × ParseState) :=
  let stage := (readControl (List.replicate 6 (.bytes 1)) ⟨.zero, memory, frame⟩).andThen
    fun _ answers reception => lengthLoop reception answers
  match stage with
  | .returns _ _ => none
  | .goesOn _ _ reception =>
      let message := reception.reader.packet
      mqttParserExecute .zero message (some reception.incoming) message.length.toNat 0

/-- A CONNECT whose fields are within their types and whose length is that of its
body. -/
structure ConnectMessage (message : Message) : Prop where
  type : message.type = mqttTypeConnect
  retain : message.retain ≤ 1
  qos : message.qos ≤ 2
  dup : message.dup ≤ 1
  connect : WholeConnect message.connect
  length : message.length.toNat = connectLength message.connect

/-- The frame that is written is parsed to the end, and says what was written. -/
def ConnectRoundTrip (message : Message) (memory : Memory) (buffer : List UInt8) : Prop :=
  ∃ final, receiveConnect memory (mqttSerialiserWrite message buffer).2.buffer =
      some (.done, final) ∧
    final.nread = message.length.toNat ∧ SameConnect final.message.connect message.connect

theorem ConnectMessage.length_body {message : Message} (connect : ConnectMessage message) :
    message.length.toNat = (connectBody message.connect).length := by
  rw [connect.length, connect.connect.length_body]

theorem ConnectMessage.frame_reached {message : Message} (connect : ConnectMessage message) :
    (frameBytes message).length ≤ 2 ^ 32 := by
  have header := length_headerBytes_le message
  have body := connect.connect.length_body_le
  rw [frameBytes_connect connect.type, List.length_append]
  omega

theorem mqttSerialiserSize_connect {message : Message} (connect : ConnectMessage message) :
    mqttSerialiserSize message =
      (headerBytes message ++ connectBody message.connect).length := by
  have small : message.length ≤ 268435455 := by
    rw [UInt32.le_iff_toNat_le, connect.length_body]
    exact connect.connect.length_body_le
  have notPublish : message.type ≠ mqttTypePublish := by rw [connect.type]; decide
  have notSuback : message.type ≠ mqttTypeSuback := by rw [connect.type]; decide
  have header : (headerBytes message).length = headerSize message.length :=
    length_headerBytes small
  rw [mqttSerialiserSize_eq, bodySize, if_neg notPublish, if_neg notSuback,
    if_pos connect.type, List.length_append, header, connect.connect.length_body]

theorem mqttParserCommand_controlByte {message : Message} (connect : ConnectMessage message) :
    (mqttParserCommand .zero (controlByte message)).type = mqttTypeConnect := by
  obtain ⟨type, retain, qos, dup, _, _⟩ := connect
  rw [controlByte, type]
  rcases flag_cases retain with same | same <;> rw [same] <;>
  rcases qos_cases qos with same | same | same <;> rw [same] <;>
  rcases flag_cases dup with same | same <;> rw [same] <;>
  rfl

/-- With every byte there, only a fifth byte of the length stops the loop. -/
private theorem lengthLoop_bytes {count : Nat} {reception after : Reception} {value : Int}
    (returned : lengthLoop reception (List.replicate count (.bytes 1)) =
      .returns value after) (positive : 0 < value) :
    after.incoming = [] ∨ reception.incoming.length = after.incoming.length + count := by
  induction count generalizing reception with
  | zero =>
      cases returned
      exact .inr rfl
  | succ count induction =>
      rw [List.replicate_succ, lengthLoop] at returned
      cases incoming : reception.incoming with
      | nil =>
          rw [incoming] at returned
          cases returned
          exact .inl incoming
      | cons byte rest =>
          have received : recv (.bytes 1) 1 reception.incoming = .received [byte] rest := by
            rw [incoming]
            rfl
          rw [received] at returned
          simp only at returned
          split at returned
          · cases returned
            exact absurd positive (by decide)
          · split at returned
            · rcases induction returned with exhausted | used
              · exact .inl exhausted
              · refine .inr ?_
                rw [List.length_cons]
                have usedHere : rest.length = after.incoming.length + count := used
                omega
            · cases returned

/-- One whole frame is parsed from its control byte, its length and its body. -/
theorem receiveConnect_encode {control : UInt8} {body : List UInt8}
    (bounded : body.length ≤ 268435455) (memory : Memory) :
    receiveConnect memory (control :: (Base128.encode body.length ++ body)) =
      mqttParserExecute .zero (begunMessage control body.length) (some body) body.length
        0 := by
  have decoded := Base128.decode_encode 3 body.length body (by omega)
  generalize Base128.encode body.length ++ body = stream at decoded ⊢
  have started : readControl (List.replicate 6 (.bytes 1)) ⟨.zero, memory, control :: stream⟩ =
      .goesOn 1 (List.replicate 5 (.bytes 1))
        ⟨{ Reader.zero with
            inPacket := some (mqttParserCommand .zero control)
            remainingMult := 1 }, memory.mallocUnchecked.2, stream⟩ := rfl
  have inLength : InLength control []
      { Reader.zero with
        inPacket := some (mqttParserCommand .zero control)
        remainingMult := 1 } :=
    ⟨List.forall_mem_nil _, by simp, rfl, rfl, rfl, rfl, rfl, rfl⟩
  have undisturbed : Undisturbed (List.replicate 5 (.bytes 1)) :=
    fun answer member => .inr ⟨1, (List.mem_replicate.mp member).2⟩
  let reception : Reception := ⟨{ Reader.zero with
      inPacket := some (mqttParserCommand .zero control)
      remainingMult := 1 }, memory.mallocUnchecked.2, stream⟩
  have inLength : InLength control [] reception.reader := inLength
  have outcome := lengthLoop_outcome inLength undisturbed
  rw [receiveConnect, started]
  simp only [ReadStage.andThen]
  cases stage : lengthLoop _ (List.replicate 5 (.bytes 1)) with
  | returns value after =>
      rw [stage] at outcome
      exfalso
      cases outcome with
      | waits more split _ inLength =>
          have exhausted := lengthLoop_bytes stage (by decide)
          have digits := Base128.decode_continued inLength.continued inLength.fits
          have split : stream = more ++ after.incoming := split
          have fits := inLength.fits
          rcases exhausted with nothing | used
          · rw [nothing, List.append_nil] at split
            rw [split] at decoded
            rw [List.nil_append] at digits
            rw [digits] at decoded
            cases decoded
          · have used : stream.length = after.incoming.length + 5 := used
            rw [split, List.length_append] at used
            rw [List.nil_append] at fits
            omega
      | overlong more last split continued full =>
          have split : stream = more ++ last :: after.incoming := split
          rw [split] at decoded
          have overlong := Base128.decode_overlong last continued full after.incoming
          rw [List.nil_append] at overlong
          rw [overlong] at decoded
          cases decoded
  | goesOn rlen others after =>
      rw [stage] at outcome
      cases outcome with
      | read more length split _ lengthRead =>
          have split : stream = more ++ after.incoming := split
          have exact := lengthRead.lengthBytes.decodes after.incoming
          rw [List.nil_append, ← split, decoded] at exact
          cases exact
          have packet : after.reader.packet = begunMessage control after.incoming.length := by
            rw [Reader.packet, lengthRead.packet, Option.getD_some]
          have length : (begunMessage control after.incoming.length).length.toNat =
              after.incoming.length :=
            UInt32.toNat_ofNat_of_lt' (show after.incoming.length < 2 ^ 32 by omega)
          simp only [packet, length]

/-- A CONNECT survives the way exactly when every string that is there has a length
that `WRITE_STRING` keeps, and the QoS of the will is twice its retain flag. -/
theorem connectRoundTrip_iff {message : Message} (connect : ConnectMessage message)
    (memory : Memory) {buffer : List UInt8}
    (size : buffer.length = mqttSerialiserSize message) :
    ConnectRoundTrip message memory buffer ↔ KeptConnect message.connect := by
  have command := mqttParserCommand_controlByte connect
  have bounded := connect.connect.length_body_le
  have frame := frameBytes_connect connect.type
  have fits : buffer.length = (frameBytes message).length := by
    rw [frame, size, mqttSerialiserSize_connect connect]
  obtain ⟨written, _⟩ := mqttSerialiserWrite_whole connect.frame_reached fits
  rw [ConnectRoundTrip, written, frame, headerBytes, connect.length_body, List.cons_append,
    receiveConnect_encode bounded, ← connectReads_iff connect.connect]
  let body := connectBody message.connect
  have parses (parsed : ConnectFields) :
      (∃ final, mqttParserExecute .zero (begunMessage (controlByte message) body.length)
          (some body) body.length 0 = some (.done, final) ∧
        final.message.connect = parsed ∧ final.nread = body.length) ↔
      ConnectReads (some body) body.length parsed body.length :=
    mqttParserExecute_connect_iff command rfl
  constructor
  · rintro ⟨final, parsed, all, same⟩
    exact ⟨final.message.connect, (parses _).mp ⟨final, parsed, rfl, all⟩, same⟩
  · rintro ⟨connect, reads, same⟩
    obtain ⟨final, parsed, rfl, all⟩ := (parses _).mpr reads
    exact ⟨final, parsed, all, same⟩

/-- A CONNECT with a will. -/
def connectWithWill (willQos willRetain : UInt8) : Message :=
  { Message.zero with
    type := mqttTypeConnect
    length := 19
    connect :=
      { Message.zero.connect with
        protocolName := ⟨4, some [0x4d, 0x51, 0x54, 0x54]⟩
        protocolVersion := 4
        flags := ⟨0, 0, willRetain, willQos, 1, 1⟩
        keepAlive := 60
        clientId := ⟨1, some [0x63]⟩
        willTopic := ⟨1, some [0x74]⟩
        willMessage := ⟨1, some [0x6d]⟩ } }

theorem connectWithWill_connectMessage {willQos willRetain : UInt8} (qos : willQos ≤ 2)
    (retain : willRetain ≤ 1) : ConnectMessage (connectWithWill willQos willRetain) where
  type := rfl
  retain := show (0 : UInt8) ≤ 1 by decide
  qos := show (0 : UInt8) ≤ 2 by decide
  dup := show (0 : UInt8) ≤ 1 by decide
  connect :=
    { protocolName := ⟨show 4 ≤ 65535 by decide, rfl⟩
      flags :=
        { usernameFollows := show (0 : UInt8) ≤ 1 by decide
          passwordFollows := show (0 : UInt8) ≤ 1 by decide
          willRetain := retain
          willQos := qos
          will := show (1 : UInt8) ≤ 1 by decide
          cleanSession := show (1 : UInt8) ≤ 1 by decide
          noWill := fun absent => absurd absent (show ¬ (1 : UInt8) = 0 by decide) }
      clientId := ⟨show 1 ≤ 65535 by decide, rfl⟩
      willTopic := ⟨show 1 ≤ 65535 by decide, rfl⟩
      willMessage := ⟨show 1 ≤ 65535 by decide, rfl⟩
      username := rfl
      password := rfl }
  length := rfl

theorem connectRoundTrip_iff_retainedWill :
    ConnectMessage (connectWithWill 2 1) ∧
      ConnectRoundTrip (connectWithWill 2 1) ⟨fun _ => true, fun _ => 0, 0⟩
        (List.replicate 21 0) := by
  have connect : ConnectMessage (connectWithWill 2 1) :=
    connectWithWill_connectMessage (by decide) (by decide)
  refine ⟨connect, (connectRoundTrip_iff connect _ (by decide)).mpr ?_⟩
  exact ⟨by decide, by decide, by decide, by decide, by decide, by decide, by decide⟩

/-- The QoS 1 of a will is parsed as 0. -/
theorem connectRoundTrip_willQos :
    ConnectMessage (connectWithWill 1 0) ∧
      mqttSerialiserSize (connectWithWill 1 0) = (List.replicate 21 (0 : UInt8)).length ∧
      ¬ ConnectRoundTrip (connectWithWill 1 0) ⟨fun _ => true, fun _ => 0, 0⟩
        (List.replicate 21 0) := by
  refine ⟨connectWithWill_connectMessage (by decide) (by decide), by decide, ?_⟩
  rintro ⟨final, parsed, _, same⟩
  have computed : (receiveConnect ⟨fun _ => true, fun _ => 0, 0⟩
      (mqttSerialiserWrite (connectWithWill 1 0) (List.replicate 21 0)).2.buffer).map
        (fun result => result.2.message.connect.flags.willQos) = some 0 := by
    decide +kernel
  rw [parsed, Option.map_some, same.flags] at computed
  exact absurd computed (by decide)

end MuMQ
