import MuMQ.Data.Base128
import MuMQ.Data.Cursor
import MuMQ.Mqtt.Message

namespace MuMQ

open Data

inductive SerialiserRc where
  | error
  | success
  deriving DecidableEq

/-- `mqtt_serialiser_size`. -/
def mqttSerialiserSize (message : Message) : Nat :=
  let len := 1
  let len :=
    if message.length ≤ 127 then len + 1
    else if message.length ≤ 16383 then len + 2
    else if message.length ≤ 2097151 then len + 3
    else if message.length ≤ 268435455 then len + 4
    else len
  if message.type = mqttTypePublish then
    len + 2 + message.publish.topicName.length.toNat
      + message.publish.content.length.toNat
  else if message.type = mqttTypeSuback then len + 3
  else if message.type = mqttTypeConnect then
    let connect := message.connect
    let len := len + 8 + connect.protocolName.length.toNat
      + connect.clientId.length.toNat
    let len :=
      if connect.flags.usernameFollows ≠ 0 then
        len + 2 + connect.username.length.toNat
      else len
    let len :=
      if connect.flags.passwordFollows ≠ 0 then
        len + 2 + connect.password.length.toNat
      else len
    if connect.flags.will ≠ 0 then
      len + 4 + connect.willTopic.length.toNat + connect.willMessage.length.toNat
    else len
  else if message.type = mqttTypeConnack then len + 2
  else len

/-- `WRITE_STRING`: the high byte is the length divided by 0xff. -/
def writeString (name : MqttBuffer) (cursor : Cursor UInt8) : Cursor UInt8 :=
  let cursor := cursor.put (name.length / 0xff).toUInt8
  let cursor := cursor.put (name.length &&& 0xff).toUInt8
  cursor.copy name.bytes

/-- The loop that writes the remaining length; a `uint32_t` has five digits at
most, so five turns are enough. -/
def writeRemainingLength : Nat → UInt32 → Cursor UInt8 → Cursor UInt8
  | 0, _, cursor => cursor
  | turns + 1, remainingLength, cursor =>
      let digit := (remainingLength % 128).toUInt8
      let remainingLength := remainingLength / 128
      if remainingLength > 0 then
        writeRemainingLength turns remainingLength (cursor.put (digit ||| 0x80))
      else cursor.put digit

/-- The control byte and the remaining length in front of every packet. -/
def writeHeader (message : Message) (cursor : Cursor UInt8) : Cursor UInt8 :=
  let cursor := cursor.put
    (message.retain + (message.qos <<< 1) + (message.dup <<< 3)
      + (message.type <<< 4))
  writeRemainingLength 5 message.length cursor

def connectFlagsByte (flags : ConnectFlags) : UInt8 :=
  (flags.usernameFollows <<< 7) + (flags.passwordFollows <<< 6)
    + (flags.willRetain <<< 5) + (flags.willQos <<< 3) + (flags.will <<< 2)
    + (flags.cleanSession <<< 1)

/-- The CONNECT arm of `mqtt_serialiser_write`. -/
def writeConnect (connect : ConnectFields) (cursor : Cursor UInt8) :
    Cursor UInt8 :=
  let cursor := writeString connect.protocolName cursor
  let cursor := cursor.put connect.protocolVersion
  let cursor := cursor.put (connectFlagsByte connect.flags)
  let cursor := cursor.put (connect.keepAlive >>> 8).toUInt8
  let cursor := cursor.put (connect.keepAlive &&& 0xff).toUInt8
  let cursor := writeString connect.clientId cursor
  let cursor :=
    if connect.flags.will ≠ 0 then
      writeString connect.willMessage (writeString connect.willTopic cursor)
    else cursor
  let cursor :=
    if connect.flags.usernameFollows ≠ 0 then writeString connect.username cursor
    else cursor
  if connect.flags.passwordFollows ≠ 0 then writeString connect.password cursor
  else cursor

/-- `mqtt_serialiser_write`: the return code and the buffer, with the mark of a
store outside it. -/
def mqttSerialiserWrite (message : Message) (buffer : List UInt8) :
    SerialiserRc × Cursor UInt8 :=
  let cursor := writeHeader message (Cursor.start buffer)
  if message.type = mqttTypePublish then
    let cursor := writeString message.publish.topicName cursor
    (.success, cursor.memcpy message.publish.content.bytes)
  else if message.type = mqttTypeSuback then
    let cursor := cursor.put (message.suback.messageId >>> 8).toUInt8
    let cursor := cursor.put (message.suback.messageId &&& 0xff).toUInt8
    (.success, cursor.put message.suback.returnCode)
  else if message.type = mqttTypeConnect then
    (.success, writeConnect message.connect cursor)
  else if message.type = mqttTypeConnack then
    let cursor := cursor.put message.connack.unused
    (.success, cursor.put message.connack.returnCode)
  else (.error, cursor)

end MuMQ
