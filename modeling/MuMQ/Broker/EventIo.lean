import MuMQ.Broker.Client

namespace MuMQ

/-! `loop_read` of `event_io.c`. -/

/-- The bits of an epoll event that `loop_read` tests. -/
structure PollEvents where
  epollHup : Bool
  epollErr : Bool
  epollIn : Bool

/-- How one `recv` is answered: with a number of bytes, as far as they are asked
for and there, or with none. -/
inductive RecvAnswer where
  | bytes (count : Nat)
  | eof
  | again
  | reset
  | failed
  deriving DecidableEq

/-- What a `recv` brings: bytes, or the value `loop_read` then returns. -/
inductive Recv where
  | received (data rest : List UInt8)
  | ended (value : Int)

/-- `recv` with `requested` bytes asked for.  A socket without bytes blocks. -/
def recv (answer : RecvAnswer) (requested : Nat) (incoming : List UInt8) : Recv :=
  match answer with
  | .bytes count =>
      if incoming = [] then .ended 1
      else
        let count := min (max count 1) requested
        .received (incoming.take count) (incoming.drop count)
  | .eof => .ended 0
  | .again => .ended 1
  | .reset => .ended 0
  | .failed => .ended (-3)

/-- What receiving works on: the fields of the client, the allocator, and the
bytes of the stream that are still to be received. -/
structure Reception where
  reader : Reader
  memory : Memory
  incoming : List UInt8

/-- A part of `loop_read` returns from it, or goes on with the last `rlen` and the
answers that are left. -/
inductive ReadStage where
  | returns (value : Int) (reception : Reception)
  | goesOn (rlen : Int) (answers : List RecvAnswer) (reception : Reception)

namespace ReadStage

def andThen (stage : ReadStage)
    (next : Int → List RecvAnswer → Reception → ReadStage) : ReadStage :=
  match stage with
  | .returns value reception => .returns value reception
  | .goesOn rlen answers reception => next rlen answers reception

end ReadStage

namespace Reader

/-- `*context->in_packet`. -/
def packet (reader : Reader) : Message := reader.inPacket.getD .zero

/-- `context->remaining_count--`. -/
def countDown (reader : Reader) : Reader :=
  { reader with remainingCount := reader.remainingCount - 1 }

/-- One more digit of the remaining length. -/
def addDigit (byte : UInt8) (reader : Reader) : Reader :=
  { reader with
    inPacket :=
      some
        { reader.packet with
          length := reader.packet.length
            + (byte &&& 127).toUInt32 * reader.remainingMult }
    remainingMult := reader.remainingMult * 128 }

end Reader

/-- `mqtt_message_init`, when there is no message. -/
def openPacket (reception : Reception) : Reception :=
  match reception.reader.inPacket with
  | some _ => reception
  | none =>
      { reception with
        reader := { reception.reader with inPacket := some .zero }
        memory := reception.memory.mallocUnchecked.2 }

/-- The control byte, unless it is there already. -/
def readControl (answers : List RecvAnswer) (reception : Reception) : ReadStage :=
  let reception := openPacket reception
  if reception.reader.packet.type = 0 then
    match answers with
    | [] => .returns 1 reception
    | answer :: answers =>
        match recv answer 1 reception.incoming with
        | .ended value => .returns value reception
        | .received data incoming =>
            .goesOn data.length answers
              { reception with
                reader :=
                  { reception.reader with
                    inPacket :=
                      some (mqttParserCommand reception.reader.packet (data.headD 0))
                    remainingMult := 1 }
                incoming := incoming }
  else .goesOn (-1) answers reception

/-- The loop over the bytes of the remaining length.  Where no more answers are
given the socket blocks. -/
def lengthLoop (reception : Reception) : List RecvAnswer → ReadStage
  | [] => .returns 1 reception
  | answer :: answers =>
      match recv answer 1 reception.incoming with
      | .ended value => .returns value reception
      | .received data incoming =>
          let byte := data.headD 0
          let reader := reception.reader.countDown
          if reader.remainingCount < -4 then
            .returns (-1) { reception with reader := reader, incoming := incoming }
          else
            let reception :=
              { reception with reader := reader.addDigit byte, incoming := incoming }
            if byte &&& 128 ≠ 0 then lengthLoop reception answers
            else .goesOn data.length answers reception

/-- The remaining length, unless it is there already, and the payload's block. -/
def readLength (rlen : Int) (answers : List RecvAnswer) (reception : Reception) :
    ReadStage :=
  if reception.reader.remainingCount ≤ 0 then
    (lengthLoop reception answers).andThen fun rlen answers reception =>
      let reader :=
        { reception.reader with
          remainingCount := reception.reader.remainingCount * -1 }
      let length : UInt32 := reader.packet.length
      if length > 0 then
        match reception.memory.malloc with
        | (none, memory) =>
            .returns (-2)
              { reception with
                reader := { reader with inPayload := none }
                memory := memory }
        | (some _, memory) =>
            .goesOn rlen answers
              { reception with
                reader :=
                  { reader with
                    inPayload := some (memory.block length.toNat)
                    inToProcess := length }
                memory := memory }
      else .goesOn rlen answers { reception with reader := reader }
  else .goesOn rlen answers reception

/-- Bytes stored at an index of a block. -/
def storeAt (block : List UInt8) (index : Nat) (data : List UInt8) : List UInt8 :=
  block.take index ++ data ++ block.drop (index + data.length)

/-- The loop over the payload. -/
def payloadLoop (rlen : Int) (reception : Reception) : List RecvAnswer → ReadStage
  | [] =>
      if reception.reader.inToProcess > 0 then .returns 1 reception
      else .goesOn rlen [] reception
  | answer :: answers =>
      let reader := reception.reader
      if reader.inToProcess > 0 then
        match recv answer reader.inToProcess.toNat reception.incoming with
        | .ended value => .returns value reception
        | .received data incoming =>
            let payload :=
              reader.inPayload.map fun block => storeAt block reader.inCur.toNat data
            payloadLoop data.length
              { reception with
                reader :=
                  { reader with
                    inPayload := payload
                    inToProcess := reader.inToProcess - UInt32.ofNat data.length
                    inCur := reader.inCur + UInt32.ofNat data.length }
                incoming := incoming }
              answers
      else .goesOn rlen (answer :: answers) reception

/-- What becomes of a complete packet: the parser rejects it, or the handler
returns a code for it.  Either leaves the parser in some state. -/
inductive PacketOutcome where
  | unparsed (parser : Parser)
  | handled (parser : Parser) (rc : UInt8)
  deriving DecidableEq

/-- `loop_read`, with `process` for what the parser and the handler do with a
complete packet.  The result is the value returned, the state of receiving, and
what `process` works on. -/
def loopRead {World : Type}
    (process : World → Message → Option (List UInt8) → PacketOutcome × World)
    (events : PollEvents) (answers : List RecvAnswer) (reception : Reception)
    (world : World) : Int × Reception × World :=
  if events.epollHup then (-1, reception, world)
  else if events.epollErr then (-1, reception, world)
  else if events.epollIn then
    let stage := ((readControl answers reception).andThen readLength).andThen
      fun rlen answers reception => payloadLoop rlen reception answers
    match stage with
    | .returns value reception => (value, reception, world)
    | .goesOn rlen _ reception =>
        let reader := { reception.reader with inCur := 0, remainingCount := 0 }
        match process world reader.packet reader.inPayload with
        | (.unparsed parser, world) =>
            (-1, { reception with reader := { reader with inParser := parser } }, world)
        | (.handled parser rc, world) =>
            let reader := { reader with inParser := parser, inPacket := none }
            if rc ≠ 0 then (-1, { reception with reader := reader }, world)
            else
              (rlen, { reception with reader := { reader with inPayload := none } },
                world)
  else (-1, reception, world)

/-- The calls of `loop_read` that `loop_run` makes for a readable socket, each with
the answers its `recv`s get; the first that returns 0 or less ends the connection.
The result says whether it is still open. -/
def loopReads {World : Type}
    (process : World → Message → Option (List UInt8) → PacketOutcome × World) :
    List (List RecvAnswer) → Reception → World → Bool × Reception × World
  | [], reception, world => (true, reception, world)
  | answers :: calls, reception, world =>
      match loopRead process ⟨false, false, true⟩ answers reception world with
      | (value, reception, world) =>
          if value ≤ 0 then (false, reception, world)
          else loopReads process calls reception world

end MuMQ
