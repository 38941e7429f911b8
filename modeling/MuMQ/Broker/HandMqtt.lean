import MuMQ.Broker.State
import MuMQ.Mqtt.Serialiser

namespace MuMQ

/-! The packet handlers of `hand_mqtt.c`, with the changes of a slot they make
through `broker.c`. -/

/-- The message `publish_msg` serialises. -/
def publishMessage (topic : CString) (payload : List UInt8) (payloadLen : UInt32) :
    Message :=
  let topicLen := UInt32.ofNat topic.strlen
  { Message.zero with
    type := mqttTypePublish
    length := 2 + topicLen + payloadLen
    publish := ⟨⟨topicLen, some topic.bytes⟩, 0, ⟨payloadLen, some payload⟩⟩ }

/-- The message `ack_msg` serialises, `none` for a command it does not support. -/
def ackMessage (lastMid : UInt16) (mqttCmd : UInt8) (payloadLen : UInt32)
    (retCode : UInt8) : Option Message :=
  if mqttCmd = mqttTypeConnack then
    some
      { Message.zero with
        type := mqttTypeConnack
        length := payloadLen
        connack := ⟨0, retCode⟩ }
  else if mqttCmd = mqttTypeSuback then
    some
      { Message.zero with
        type := mqttTypeSuback
        length := payloadLen
        suback := ⟨lastMid, retCode⟩ }
  else if mqttCmd = mqttTypePingresp then
    some { Message.zero with type := mqttTypePingresp, length := payloadLen }
  else none

/-- The packet that `publish_msg` and `ack_msg` make of a message: two blocks, one
of which the serialiser fills. -/
def newPacket (memory : Memory) (message : Message) : Packet × Memory :=
  let (address, memory) := memory.mallocUnchecked
  let wlen := UInt32.ofNat (mqttSerialiserSize message)
  let (_, memory) := memory.mallocUnchecked
  let written := mqttSerialiserWrite message (memory.block wlen.toNat)
  (⟨address, written.2.buffer, 0, wlen⟩, memory)

/-- Make a packet of a message and enqueue it on a slot. -/
def sendMessage (broker : Broker) (context : Nat) (message : Message) : Broker :=
  let (packet, memory) := newPacket broker.memory message
  { broker.modifySender context (·.enqueue packet) with memory := memory }

/-- `publish_msg`. -/
def publishMsg (broker : Broker) (context : Nat) (topic : CString)
    (payload : List UInt8) (payloadLen : UInt32) : Broker :=
  sendMessage broker context (publishMessage topic payload payloadLen)

/-- `ack_msg`. -/
def ackMsg (broker : Broker) (context : Nat) (mqttCmd : UInt8) (payloadLen : UInt32)
    (retCode : UInt8) : Broker :=
  match ackMessage (broker.clients context).lastMid mqttCmd payloadLen retCode with
  | some message => sendMessage broker context message
  | none => broker

/-- `clean_context`.  The list of packets to send, its tail, and the client's
array of nodes stay as they are. -/
def cleanContext (client : Client) : Client :=
  { client with
    isSubscribe := false
    sock := 0
    id := List.replicate 24 0
    lastMid := 0
    state := .csNew
    reader := .zero
    outPacket := none
    sender :=
      { client.sender with
        numSendingPack := 0
        sendingCurPacket := none } }

/-- `remove_client` for the slot of a file descriptor. -/
def removeClient (broker : Broker) (fd : Nat) : Broker :=
  { broker.modifyClient fd cleanContext with
    contextsByPtr := broker.contextsByPtr.erase fd }

theorem removeClient_self (broker : Broker) (fd : Nat) :
    (removeClient broker fd).clients fd = cleanContext (broker.clients fd) := by
  simp [removeClient, Broker.modifyClient]

theorem removeClient_other (broker : Broker) {fd other : Nat} (different : other ≠ fd) :
    (removeClient broker fd).clients other = broker.clients other := by
  simp [removeClient, Broker.modifyClient, different]

/-- `add_client`; it never refuses. -/
def addClient (broker : Broker) (id : MqttBuffer) (fd : Nat) : Broker :=
  broker.modifyClient fd fun client =>
    { client with
      id := id.bytes ++ List.replicate (24 - id.bytes.length) 0
      sender := { client.sender with numSendingPack := 0 }
      state := .csConnected }

/-- The PUBLISH arm of `handle_mqtt_command`.  The result of `pub_topic_valid` is
not used. -/
def handlePublish (broker : Broker) (context : Nat) (message : Message) : Broker :=
  if message.qos = 0 then
    if message.publish.topicName.data.isSome then
      let memory := broker.memory.mallocUnchecked.2.mallocUnchecked.2
      let topic := CString.ofBuffer message.publish.topicName.bytes
      let content := message.publish.content
      let broker :=
        broker.modifyClient context fun client =>
          { client with lastMid := message.publish.messageId }
      let broker := { broker with memory := memory }
      let (memory, _, deliveries) :=
        mqtt3SubTreeProcess broker topic content.bytes content.length
      deliveries.foldl
        (fun broker delivery =>
          publishMsg broker delivery.context delivery.topic delivery.payload delivery.len)
        { broker with memory := memory }
    else broker
  else broker

/-- The CONNECT arm: the broker after it and the return code. -/
def handleConnect (broker : Broker) (context : Nat) (message : Message) :
    Broker × UInt8 :=
  let clientId := message.connect.clientId
  if clientId.length > 23 then (ackMsg broker context mqttTypeConnack 2 2, 2)
  else if clientId.length > 0 then
    (ackMsg (addClient broker clientId (broker.clients context).sock) context
      mqttTypeConnack 2 0, 0)
  else (ackMsg broker context mqttTypeConnack 2 0, 0)

/-- The part of the SUBSCRIBE arm before the SUBACK.  The result of
`sub_topic_valid` is not used.  `none` is a wait for `root_lock` without end. -/
def subscribeTopic (broker : Broker) (context : Nat) (message : Message) :
    Option (Broker × UInt8) :=
  match message.subscribe.topics with
  | none => some (broker, 0)
  | some pair =>
      if pair.name.data.isSome then
        if (broker.clients context).state = .csConnected then
          let memory := broker.memory.mallocUnchecked.2
          let topic := CString.ofBuffer pair.name.bytes
          let broker :=
            broker.modifyClient context fun client =>
              { client with lastMid := message.subscribe.messageId }
          match mqtt3SubAdd { broker with memory := memory } context topic
              pair.qos.toNat with
          | none => none
          | some (broker, rc) =>
              -- the code is an `int` that is stored in a `uint8_t`
              let retCode := UInt8.ofInt rc
              if retCode = 0 then
                some
                  (broker.modifyClient context fun client =>
                    { client with isSubscribe := true },
                  retCode)
              else some (broker, retCode)
        else some (broker, 0x80)
      else some (broker, 0)

/-- The SUBSCRIBE arm. -/
def handleSubscribe (broker : Broker) (context : Nat) (message : Message) :
    Option (Broker × UInt8) :=
  match subscribeTopic broker context message with
  | none => none
  | some (broker, retCode) =>
      some (ackMsg broker context mqttTypeSuback 3 retCode, retCode)

/-- `handle_mqtt_command` on the parsed message of a client. -/
def handleMqttCommand (broker : Broker) (context : Nat) (message : Message) :
    Option (Broker × UInt8) :=
  let handled :=
    if message.type = mqttTypePublish then
      some (handlePublish broker context message, 0)
    else if message.type = mqttTypeConnect then
      some (handleConnect broker context message)
    else if message.type = mqttTypeSubscribe then
      handleSubscribe broker context message
    else if message.type = mqttTypePingreq then
      some (ackMsg broker context mqttTypePingresp 0 0, 0)
    else if message.type = mqttTypeUnsubscribe then some (broker, 0)
    else if message.type = mqttTypeDisconnect then some (broker, 1)
    else some (broker, 0)
  match handled with
  | none => none
  | some (broker, retCode) =>
      -- `free_mqtt_msg`
      some
        (broker.modifyClient context fun client =>
          { client with reader := { client.reader with inPacket := none } },
        retCode)

end MuMQ
