import MuMQ.Mqtt.Message

namespace MuMQ

/-- `mqtt_parser_rc_t`. -/
inductive ParserRc where
  | error
  | «continue»
  | incomplete
  | moreRead
  | done
  | wantMemory
  deriving DecidableEq

/-- `mqtt_parser_state_t`. -/
inductive ParserState where
  | initial
  | remainingLength
  | variableHeader
  | connect
  | connectProtocolName
  | connectProtocolVersion
  | connectFlags
  | connectKeepAlive
  | connectClientIdentifier
  | connectWillTopic
  | connectWillMessage
  | connectUsername
  | connectPassword
  | connack
  | publish
  | publishTopicName
  | publishMessageId
  | publishMessage
  | puback
  | pubrec
  | pubrel
  | pubcomp
  | subscribe
  | subscribeTopicName
  | pingreq
  deriving DecidableEq

/-- `mqtt_error_t`, as far as the parser sets it. -/
inductive MqttError where
  | none
  | parserInvalidState
  | parserInvalidMessageId
  deriving DecidableEq

structure Parser where
  state : ParserState
  error : MqttError
  deriving DecidableEq

/-- `memset(&in_parser, 0, sizeof(mqtt_parser_t))`. -/
def Parser.zero : Parser := ⟨.initial, .none⟩

/-- What one call of `mqtt_parser_execute` works on: the parser, the message and
`*nread`. -/
structure ParseState where
  parser : Parser
  message : Message
  nread : Nat
  deriving DecidableEq

/-- One turn of the parser's loop: another turn, a return, or a read outside the
payload. -/
inductive ParseStep where
  | next (state : ParseState)
  | ret (rc : ParserRc) (state : ParseState)
  | fault
  deriving DecidableEq

/-- The result of reading a field of the payload. -/
inductive FieldRead (α : Type) where
  | incomplete
  | fault
  | field (value : α) (nread : Nat)

/-- `left - right` in `size_t`. -/
def sizeSub (left right : Nat) : Nat := (left + 2 ^ 64 - right) % 2 ^ 64

theorem sizeSub_of_le {left right : Nat} (order : right ≤ left)
    (bounded : left < 2 ^ 64) : sizeSub left right = left - right := by
  unfold sizeSub
  omega

/-- `data[index]`, `none` when no byte of the payload is there. -/
def byteAt (data : Option (List UInt8)) (index : Nat) : Option UInt8 :=
  data.bind (fun bytes => bytes[index]?)

/-- `(high << 8) + low` in `uint16_t`. -/
def wordOfBytes (high low : UInt8) : UInt16 :=
  (high.toUInt16 <<< 8) + low.toUInt16

/-- `READ_STRING`. -/
def readString (data : Option (List UInt8)) (len nread : Nat) :
    FieldRead MqttBuffer :=
  if sizeSub len nread < 2 then .incomplete
  else
    match byteAt data nread, byteAt data (nread + 1) with
    | some high, some low =>
        let strLength := high.toNat * 256 + low.toNat
        if sizeSub (sizeSub len nread) 2 < strLength then .incomplete
        else
          .field ⟨UInt32.ofNat strLength, data.map (List.drop (nread + 2))⟩
            (nread + (2 + strLength))
    | _, _ => .fault

/-- `READ_MESSAGE`; its test `len - *nread < 0` is never true in `size_t`. -/
def readMessage (data : Option (List UInt8)) (len nread : Nat) (strLen : UInt32) :
    FieldRead MqttBuffer :=
  if sizeSub len nread < strLen.toNat then .incomplete
  else .field ⟨strLen, data.map (List.drop nread)⟩ (nread + strLen.toNat)

/-- The bounds test and read of a one-byte field. -/
def readByte (data : Option (List UInt8)) (len nread : Nat) : FieldRead UInt8 :=
  if sizeSub len nread < 1 then .incomplete
  else
    match byteAt data nread with
    | some byte => .field byte (nread + 1)
    | none => .fault

/-- The bounds test and read of a two-byte field. -/
def readPair (data : Option (List UInt8)) (len nread : Nat) :
    FieldRead (UInt8 × UInt8) :=
  if sizeSub len nread < 2 then .incomplete
  else
    match byteAt data nread, byteAt data (nread + 1) with
    | some high, some low => .field (high, low) (nread + 2)
    | _, _ => .fault

namespace ParseState

/-- Enter the next parser state with the message `message` and cursor `nread`. -/
def enter (state : ParseState) (next : ParserState) : ParseState :=
  { state with parser := { state.parser with state := next } }

/-- Return `MQTT_PARSER_RC_INCOMPLETE` in the state the call is in, or go on with
the field just read. -/
def withField (state : ParseState) (read : FieldRead α)
    (use : α → ParseState → ParseStep) : ParseStep :=
  match read with
  | .incomplete => .ret .incomplete state
  | .fault => .fault
  | .field value nread => use value { state with nread := nread }

def setConnect (state : ParseState) (connect : ConnectFields) : ParseState :=
  { state with message := { state.message with connect := connect } }

def setPublish (state : ParseState) (publish : PublishFields) : ParseState :=
  { state with message := { state.message with publish := publish } }

def setSubscribe (state : ParseState) (subscribe : SubscribeFields) : ParseState :=
  { state with message := { state.message with subscribe := subscribe } }

end ParseState

/-- The flags byte of a CONNECT. -/
def connectFlagsOf (byte : UInt8) : ConnectFlags where
  usernameFollows := (byte >>> 7) &&& 0x01
  passwordFollows := (byte >>> 6) &&& 0x01
  willRetain := (byte >>> 5) &&& 0x01
  willQos := (byte >>> 4) &&& 0x02
  will := (byte >>> 2) &&& 0x01
  cleanSession := (byte >>> 1) &&& 0x01

/-- The test `qos > 0 && qos < 3` of the two last PUBLISH states. -/
def hasMessageId (qos : UInt8) : Bool := decide (qos > 0) && decide (qos < 3)

/-- One turn of the `switch` of `mqtt_parser_execute`. -/
def parserStep (data : Option (List UInt8)) (len : Nat) (state : ParseState) :
    ParseStep :=
  match state.parser.state with
  | .initial =>
      if state.message.type = mqttTypeConnect then .next (state.enter .connect)
      else if state.message.type = mqttTypeConnack then .next (state.enter .connack)
      else if state.message.type = mqttTypePublish then .next (state.enter .publish)
      else if state.message.type = mqttTypeSubscribe then
        .next (state.enter .subscribe)
      else if state.message.type = mqttTypePingreq then
        .ret .done (state.enter .initial)
      else if state.message.type = mqttTypeDisconnect then
        .ret .done (state.enter .initial)
      else
        .ret .error
          { state with parser := { state.parser with error := .parserInvalidMessageId } }
  | .variableHeader =>
      if state.message.type = mqttTypeConnect then
        .next (state.enter .connectProtocolName)
      else .next state
  | .connect => .next (state.enter .connectProtocolName)
  | .connectProtocolName =>
      state.withField (readString data len state.nread) fun name state =>
        .next ((state.setConnect
          { state.message.connect with protocolName := name }).enter
            .connectProtocolVersion)
  | .connectProtocolVersion =>
      state.withField (readByte data len state.nread) fun version state =>
        .next ((state.setConnect
          { state.message.connect with protocolVersion := version }).enter
            .connectFlags)
  | .connectFlags =>
      state.withField (readByte data len state.nread) fun byte state =>
        .next ((state.setConnect
          { state.message.connect with flags := connectFlagsOf byte }).enter
            .connectKeepAlive)
  | .connectKeepAlive =>
      state.withField (readPair data len state.nread) fun pair state =>
        .next ((state.setConnect
          { state.message.connect with keepAlive := wordOfBytes pair.1 pair.2 }).enter
            .connectClientIdentifier)
  | .connectClientIdentifier =>
      state.withField (readString data len state.nread) fun clientId state =>
        .next ((state.setConnect
          { state.message.connect with clientId := clientId }).enter
            .connectWillTopic)
  | .connectWillTopic =>
      if state.message.connect.flags.will ≠ 0 then
        state.withField (readString data len state.nread) fun willTopic state =>
          .next ((state.setConnect
            { state.message.connect with willTopic := willTopic }).enter
              .connectWillMessage)
      else .next (state.enter .connectWillMessage)
  | .connectWillMessage =>
      if state.message.connect.flags.will ≠ 0 then
        state.withField (readString data len state.nread) fun willMessage state =>
          .next ((state.setConnect
            { state.message.connect with willMessage := willMessage }).enter
              .connectUsername)
      else .next (state.enter .connectUsername)
  | .connectUsername =>
      if state.message.connect.flags.usernameFollows ≠ 0 then
        state.withField (readString data len state.nread) fun username state =>
          .next ((state.setConnect
            { state.message.connect with username := username }).enter
              .connectPassword)
      else .next (state.enter .connectPassword)
  | .connectPassword =>
      if state.message.connect.flags.passwordFollows ≠ 0 then
        state.withField (readString data len state.nread) fun password state =>
          .ret .done ((state.setConnect
            { state.message.connect with password := password }).enter .initial)
      else .ret .done (state.enter .initial)
  | .connack =>
      state.withField (readPair data len state.nread) fun pair state =>
        .ret .done
          ({ state with
              message := { state.message with connack := ⟨pair.1, pair.2⟩ } }.enter
            .initial)
  | .publish => .next (state.enter .publishTopicName)
  | .publishTopicName =>
      state.withField (readString data len state.nread) fun topicName state =>
        .next ((state.setPublish
          { state.message.publish with topicName := topicName }).enter
            .publishMessageId)
  | .publishMessageId =>
      -- two bytes are demanded here whatever the QoS is
      if sizeSub len state.nread < 2 then .ret .incomplete state
      else if hasMessageId state.message.qos then
        state.withField (readPair data len state.nread) fun pair state =>
          .next ((state.setPublish
            { state.message.publish with messageId := wordOfBytes pair.1 pair.2 }).enter
              .publishMessage)
      else
        .next ((state.setPublish
          { state.message.publish with messageId := 0 }).enter .publishMessage)
  | .publishMessage =>
      let msgLen := state.message.length - state.message.publish.topicName.length - 2
      let msgLen := if hasMessageId state.message.qos then msgLen - 2 else msgLen
      state.withField (readMessage data len state.nread msgLen) fun content state =>
        .ret .done ((state.setPublish
          { state.message.publish with content := content }).enter .initial)
  | .subscribe =>
      state.withField (readPair data len state.nread) fun pair state =>
        .next ((state.setSubscribe
          { state.message.subscribe with messageId := wordOfBytes pair.1 pair.2 }).enter
            .subscribeTopicName)
  | .subscribeTopicName =>
      let topics := state.message.subscribe.topics.getD ⟨.empty, 0⟩
      let state := state.setSubscribe
        { state.message.subscribe with topics := some topics }
      state.withField (readString data len state.nread) fun name state =>
        -- the requested QoS is read without a bounds test
        match byteAt data state.nread with
        | some qos =>
            .ret .done
              ({ state.setSubscribe
                  { state.message.subscribe with topics := some ⟨name, qos⟩ } with
                  nread := state.nread + 1 }.enter .initial)
        | none => .fault
  | _ =>
      .ret .error
        { state with parser := { state.parser with error := .parserInvalidState } }

/-- The `do ... while (1)` of `mqtt_parser_execute`, `turns` turns of it at most.
`none` is a read outside the payload, or a call that does not return. -/
def parserLoop (data : Option (List UInt8)) (len : Nat) :
    Nat → ParseState → Option (ParserRc × ParseState)
  | 0, _ => none
  | turns + 1, state =>
      match parserStep data len state with
      | .next state => parserLoop data len turns state
      | .ret rc state => some (rc, state)
      | .fault => none

/-- `mqtt_parser_execute`.  No state but `variableHeader` is entered twice in one
call, so one turn for each state of the enumeration is enough. -/
def mqttParserExecute (parser : Parser) (message : Message)
    (data : Option (List UInt8)) (len nread : Nat) :
    Option (ParserRc × ParseState) :=
  parserLoop data len 25 ⟨parser, message, nread⟩

end MuMQ
