import Mathlib.Algebra.Group.Nat.Defs

namespace MuMQ

/-! The packet types of `mqtt.h`.  The wire can carry any nibble, so a type is
the nibble itself. -/

abbrev mqttTypeConnect : UInt8 := 1
abbrev mqttTypeConnack : UInt8 := 2
abbrev mqttTypePublish : UInt8 := 3
abbrev mqttTypeSubscribe : UInt8 := 8
abbrev mqttTypeSuback : UInt8 := 9
abbrev mqttTypeUnsubscribe : UInt8 := 10
abbrev mqttTypePingreq : UInt8 := 12
abbrev mqttTypePingresp : UInt8 := 13
abbrev mqttTypeDisconnect : UInt8 := 14

/-- `mqtt_buffer_t`.  A pointer is `NULL` or the bytes readable from it on. -/
structure MqttBuffer where
  length : UInt32
  data : Option (List UInt8)
  deriving DecidableEq

namespace MqttBuffer

/-- The buffer of a zeroed message. -/
def empty : MqttBuffer := ⟨0, none⟩

/-- The bytes a buffer denotes. -/
def bytes (buffer : MqttBuffer) : List UInt8 :=
  (buffer.data.getD []).take buffer.length.toNat

end MqttBuffer

structure ConnectFlags where
  usernameFollows : UInt8
  passwordFollows : UInt8
  willRetain : UInt8
  willQos : UInt8
  will : UInt8
  cleanSession : UInt8
  deriving DecidableEq

structure ConnectFields where
  protocolName : MqttBuffer
  protocolVersion : UInt8
  flags : ConnectFlags
  keepAlive : UInt16
  clientId : MqttBuffer
  willTopic : MqttBuffer
  willMessage : MqttBuffer
  username : MqttBuffer
  password : MqttBuffer
  deriving DecidableEq

structure ConnackFields where
  unused : UInt8
  returnCode : UInt8
  deriving DecidableEq

structure PublishFields where
  topicName : MqttBuffer
  messageId : UInt16
  content : MqttBuffer
  deriving DecidableEq

/-- `mqtt_topicpair_t`; its `next` is always `NULL`. -/
structure Topicpair where
  name : MqttBuffer
  qos : UInt8
  deriving DecidableEq

structure SubscribeFields where
  messageId : UInt16
  topics : Option Topicpair
  deriving DecidableEq

structure SubackFields where
  messageId : UInt16
  returnCode : UInt8
  deriving DecidableEq

/-- `mqtt_message_t`: the common fields and one record for each arm of the union.
Every function reads the arm it has written, so the arms need not overlap. -/
structure Message where
  retain : UInt8
  qos : UInt8
  dup : UInt8
  type : UInt8
  length : UInt32
  connect : ConnectFields
  connack : ConnackFields
  publish : PublishFields
  subscribe : SubscribeFields
  suback : SubackFields
  deriving DecidableEq

namespace Message

/-- `memset(message, 0, sizeof(mqtt_message_t))`, also what `mqtt_message_init`
allocates. -/
def zero : Message where
  retain := 0
  qos := 0
  dup := 0
  type := 0
  length := 0
  connect :=
    { protocolName := .empty
      protocolVersion := 0
      flags := ⟨0, 0, 0, 0, 0, 0⟩
      keepAlive := 0
      clientId := .empty
      willTopic := .empty
      willMessage := .empty
      username := .empty
      password := .empty }
  connack := ⟨0, 0⟩
  publish := ⟨.empty, 0, .empty⟩
  subscribe := ⟨0, none⟩
  suback := ⟨0, 0⟩

end Message

/-- `mqtt_parser_command`: the four fields of a control byte. -/
def mqttParserCommand (message : Message) (data : UInt8) : Message :=
  { message with
    retain := (data >>> 0) &&& 0x01
    qos := (data >>> 1) &&& 0x03
    dup := (data >>> 3) &&& 0x01
    type := (data >>> 4) &&& 0x0f }

end MuMQ
