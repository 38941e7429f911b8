import MuMQ.Broker.Forwarding

namespace MuMQ

/-! The handlers have no use for what is received of a packet. -/

/-- The broker with other states of reading. -/
def Broker.withReaders (readers : Nat → Reader) (broker : Broker) : Broker :=
  { broker with clients := fun slot => { broker.clients slot with reader := readers slot } }

variable (readers : Nat → Reader)

theorem withReaders_modifyClient (broker : Broker) (slot : Nat) (change : Client → Client)
    (commutes : ∀ client reader,
      { change client with reader := reader } = change { client with reader := reader }) :
    (broker.modifyClient slot change).withReaders readers =
      (broker.withReaders readers).modifyClient slot change := by
  have clients (other : Nat) :
      ({ if other = slot then change (broker.clients slot) else broker.clients other with
        reader := readers other } : Client) =
        if other = slot then change { broker.clients slot with reader := readers slot }
        else { broker.clients other with reader := readers other } := by
    split
    · rename_i own
      rw [own]
      exact commutes _ _
    · rfl
  exact congrArg (fun clients : Nat → Client => { broker with clients }) (funext clients)

theorem withReaders_sendMessage (broker : Broker) (context : Nat) (message : Message) :
    (sendMessage broker context message).withReaders readers = sendMessage (broker.withReaders readers) context message := by
  have modified := withReaders_modifyClient readers broker context
    (fun client =>
      { client with sender := client.sender.enqueue (newPacket broker.memory message).1 })
    fun _ _ => rfl
  exact congrArg (fun sent : Broker =>
    { sent with memory := (newPacket broker.memory message).2 }) modified

theorem withReaders_ackMsg (broker : Broker) (context : Nat) (mqttCmd : UInt8) (payloadLen : UInt32)
    (retCode : UInt8) :
    (ackMsg broker context mqttCmd payloadLen retCode).withReaders readers =
      ackMsg (broker.withReaders readers) context mqttCmd payloadLen retCode := by
  have same : ackMessage ((broker.withReaders readers).clients context).lastMid mqttCmd payloadLen retCode =
      ackMessage (broker.clients context).lastMid mqttCmd payloadLen retCode := rfl
  rw [ackMsg, ackMsg, same]
  cases ackMessage (broker.clients context).lastMid mqttCmd payloadLen retCode with
  | none => rfl
  | some message => exact withReaders_sendMessage readers broker context message

theorem withReaders_publishAll (deliveries : List Delivery) (broker : Broker) :
    (deliveries.foldl
        (fun broker delivery =>
          publishMsg broker delivery.context delivery.topic delivery.payload delivery.len)
        broker).withReaders readers =
      deliveries.foldl
        (fun broker delivery =>
          publishMsg broker delivery.context delivery.topic delivery.payload delivery.len)
        (broker.withReaders readers) := by
  induction deliveries generalizing broker with
  | nil => rfl
  | cons delivery rest induction =>
      have sent : (publishMsg broker delivery.context delivery.topic delivery.payload
          delivery.len).withReaders readers = publishMsg (broker.withReaders readers) delivery.context delivery.topic
            delivery.payload delivery.len := withReaders_sendMessage ..
      rw [List.foldl_cons, List.foldl_cons, induction, sent]

theorem withReaders_mqtt3SubTreeProcess (broker : Broker) (topic : CString) (payload : List UInt8)
    (len : UInt32) :
    mqtt3SubTreeProcess (broker.withReaders readers) topic payload len =
      mqtt3SubTreeProcess broker topic payload len := by
  have flags (slot : Nat) :
      ((broker.withReaders readers).clients slot).isSubscribe = (broker.clients slot).isSubscribe := rfl
  unfold mqtt3SubTreeProcess
  rw [show (broker.withReaders readers).memory = broker.memory from rfl,
    show (broker.withReaders readers).subs = broker.subs from rfl]
  simp only [subTreeProcess_congr flags]

theorem withReaders_routedFrom (broker : Broker) (context : Nat) (message : Message) :
    (routedFrom broker context message).withReaders readers = routedFrom (broker.withReaders readers) context message :=
  congrArg (fun noted : Broker =>
      { noted with memory := broker.memory.mallocUnchecked.2.mallocUnchecked.2 })
    (withReaders_modifyClient readers broker context
      (fun client => { client with lastMid := message.publish.messageId }) fun _ _ => rfl)

theorem withReaders_handlePublish {message : Message} (type : message.type = mqttTypePublish)
    (broker : Broker) (context : Nat) :
    (handlePublish broker context message).withReaders readers =
      handlePublish (broker.withReaders readers) context message := by
  cases routed : publishedTopic message with
  | none => rw [handlePublish_unrouted type routed, handlePublish_unrouted type routed]
  | some topic =>
      rw [handlePublish_routed routed, handlePublish_routed routed, withReaders_publishAll,
        publishDeliveries_routed routed, publishDeliveries_routed routed, ← withReaders_routedFrom,
        withReaders_mqtt3SubTreeProcess]
      rfl

theorem withReaders_handleConnect (broker : Broker) (context : Nat) (message : Message) :
    Prod.map (Broker.withReaders readers) id (handleConnect broker context message) =
      handleConnect (broker.withReaders readers) context message := by
  have own : ((broker.withReaders readers).clients context).sock = (broker.clients context).sock := rfl
  have added := withReaders_modifyClient readers broker (broker.clients context).sock
    (fun client =>
      { client with
        id := paddedId message.connect.clientId.bytes
        sender := { client.sender with numSendingPack := 0 }
        state := .csConnected }) fun _ _ => rfl
  unfold handleConnect
  simp only
  split
  · exact Prod.ext (withReaders_ackMsg ..) rfl
  · split
    · refine Prod.ext ((withReaders_ackMsg ..).trans ?_) rfl
      rw [own]
      exact congrArg (fun sender => ackMsg sender context mqttTypeConnack 2 0) added
    · exact Prod.ext (withReaders_ackMsg ..) rfl

section Insertion

variable {clients clients' : Nat → Client}
  (same : ∀ slot, (clients' slot).idString = (clients slot).idString)
include same

theorem setLeafQos_congr (context : Nat) (qos : Int) (leaves : List Subleaf) :
    setLeafQos clients' context qos leaves = setLeafQos clients context qos leaves := by
  induction leaves with
  | nil => rfl
  | cons leaf rest induction => rw [setLeafQos, setLeafQos, same, same, induction]

theorem subAddLeaf_congr (context : Nat) (qos : Int) (address : Address) (leaves : List Subleaf)
    (insertion : Insertion) :
    subAddLeaf clients' context qos address leaves insertion =
      subAddLeaf clients context qos address leaves insertion := by
  rw [subAddLeaf, subAddLeaf, setLeafQos_congr same]

theorem subAdd_congr (context : Nat) (qos : Int) (tokens : List Token) :
    subAdd clients' context qos tokens = subAdd clients context qos tokens := by
  induction tokens with
  | nil =>
      funext chain insertion
      cases chain with
      | null => rfl
      | node address parent topic subs children next =>
          rw [subAdd, subAdd, subAddLeaf_congr same]
  | cons token rest induction =>
      funext chain insertion
      cases chain with
      | null => rfl
      | node address parent topic subs children next => rw [subAdd, subAdd, induction]

end Insertion

theorem withReaders_mqtt3SubAdd (broker : Broker) (context : Nat) (sub : CString) (qos : Int) :
    (mqtt3SubAdd broker context sub qos).map (Prod.map (Broker.withReaders readers) id) =
      mqtt3SubAdd (broker.withReaders readers) context sub qos := by
  have ids (slot : Nat) :
      ((broker.withReaders readers).clients slot).idString = (broker.clients slot).idString := rfl
  have finished (insertion : Insertion) (subs : Subhier) :
      Broker.withReaders readers
          { broker.modifyClient context fun client =>
              { client with subs := insertion.subs, subCount := insertion.subCount } with
            subs := subs
            branchLock := insertion.branchLock
            memory := insertion.memory } =
        { (broker.withReaders readers).modifyClient context fun client =>
            { client with subs := insertion.subs, subCount := insertion.subCount } with
          subs := subs
          branchLock := insertion.branchLock
          memory := insertion.memory } :=
    congrArg (fun grown : Broker =>
        { grown with
          subs := subs
          branchLock := insertion.branchLock
          memory := insertion.memory })
      (withReaders_modifyClient readers broker context
        (fun client =>
          { client with subs := insertion.subs, subCount := insertion.subCount }) fun _ _ => rfl)
  unfold mqtt3SubAdd
  rw [show (broker.withReaders readers).memory = broker.memory from rfl,
    show (broker.withReaders readers).rootLock = broker.rootLock from rfl]
  rcases subTopicTokenise broker.memory sub with ⟨memory, _ | topics⟩
  · rfl
  · simp only
    split
    · rfl
    · cases topics with
      | nil => rfl
      | cons token rest =>
          simp only [subAdd_congr ids, show (broker.withReaders readers).branchLock = broker.branchLock from rfl,
            show (broker.withReaders readers).subs = broker.subs from rfl,
            show ((broker.withReaders readers).clients context).subs = (broker.clients context).subs from rfl,
            show ((broker.withReaders readers).clients context).subCount =
              (broker.clients context).subCount from rfl]
          cases onBranch token (subAdd broker.clients context qos (token :: rest))
              ⟨memory, broker.branchLock, (broker.clients context).subs,
                (broker.clients context).subCount⟩ broker.subs with
          | none =>
              rcases newBranch Broker.rootAddress token memory with ⟨_ | child, memory⟩
              · rfl
              · exact congrArg some (Prod.ext (finished _ _) rfl)
          | some result => exact congrArg some (Prod.ext (finished _ _) rfl)

theorem withReaders_subscribeTopic (broker : Broker) (context : Nat) (message : Message) :
    (subscribeTopic broker context message).map (Prod.map (Broker.withReaders readers) id) =
      subscribeTopic (broker.withReaders readers) context message := by
  unfold subscribeTopic
  cases message.subscribe.topics with
  | none => rfl
  | some pair =>
      simp only [show ((broker.withReaders readers).clients context).state =
        (broker.clients context).state from rfl]
      split
      · split
        · have noted := congrArg (fun noted : Broker =>
              { noted with memory := broker.memory.mallocUnchecked.2 })
            (withReaders_modifyClient readers broker context
              (fun client =>
                { client with lastMid := message.subscribe.messageId }) fun _ _ => rfl)
          have added := withReaders_mqtt3SubAdd readers
            { broker.modifyClient context fun client =>
                { client with lastMid := message.subscribe.messageId } with
              memory := broker.memory.mallocUnchecked.2 }
            context (CString.ofBuffer pair.name.bytes) pair.qos.toNat
          have unread := (congrArg (fun noted => mqtt3SubAdd noted context
            (CString.ofBuffer pair.name.bytes) pair.qos.toNat) noted).symm.trans added.symm
          simp only [show (broker.withReaders readers).memory = broker.memory from rfl, unread]
          rcases mqtt3SubAdd _ context (CString.ofBuffer pair.name.bytes) pair.qos.toNat with
            _ | ⟨grown, rc⟩
          · rfl
          · by_cases zero : UInt8.ofInt rc = 0
            · simp only [Option.map_some, Prod.map, id, if_pos zero]
              exact congrArg some (Prod.ext
                (withReaders_modifyClient readers grown context _ fun _ _ => rfl) rfl)
            · simp only [Option.map_some, Prod.map, id, if_neg zero]
        · rfl
      · rfl

theorem withReaders_handleSubscribe (broker : Broker) (context : Nat) (message : Message) :
    (handleSubscribe broker context message).map (Prod.map (Broker.withReaders readers) id) =
      handleSubscribe (broker.withReaders readers) context message := by
  rw [handleSubscribe, handleSubscribe, ← withReaders_subscribeTopic]
  rcases subscribeTopic broker context message with _ | ⟨after, retCode⟩
  · rfl
  · exact congrArg some (Prod.ext (withReaders_ackMsg ..) rfl)

/-- `free_mqtt_msg` on the message of a slot. -/
def freeInPacket (context : Nat) (readers : Nat → Reader) : Nat → Reader :=
  Function.update readers context { readers context with inPacket := none }

theorem withReaders_free (broker : Broker) (context : Nat) :
    (broker.modifyClient context fun client =>
        { client with
          reader := { client.reader with inPacket := none } }).withReaders
        (freeInPacket context readers) =
      (broker.withReaders readers).modifyClient context fun client =>
        { client with reader := { client.reader with inPacket := none } } := by
  have clients (other : Nat) :
      ({ if other = context then
            { broker.clients context with
              reader := { (broker.clients context).reader with inPacket := none } }
          else broker.clients other with
        reader := freeInPacket context readers other } : Client) =
        if other = context then
          { broker.clients context with reader := { readers context with inPacket := none } }
        else { broker.clients other with reader := readers other } := by
    split
    · rename_i own
      rw [own, freeInPacket, Function.update_self]
    · rename_i apart
      rw [freeInPacket, Function.update_of_ne apart]
  exact congrArg (fun clients : Nat → Client => { broker with clients }) (funext clients)

/-- `handle_mqtt_command` goes on in the same way whatever is received of other packets, and
does no more than free its own. -/
theorem withReaders_handleMqttCommand (broker : Broker) (context : Nat) (message : Message) :
    (handleMqttCommand broker context message).map
        (Prod.map (Broker.withReaders (freeInPacket context readers)) id) =
      handleMqttCommand (broker.withReaders readers) context message := by
  have free {handled other : Broker} (same : handled.withReaders readers = other) :
      (handled.modifyClient context fun client =>
          { client with
            reader := { client.reader with inPacket := none } }).withReaders
          (freeInPacket context readers) =
        other.modifyClient context fun client =>
          { client with reader := { client.reader with inPacket := none } } := by
    rw [withReaders_free, same]
  unfold handleMqttCommand
  by_cases publish : message.type = mqttTypePublish
  · simp only [if_pos publish]
    exact congrArg some (Prod.ext (free (withReaders_handlePublish readers publish ..)) rfl)
  · by_cases connect : message.type = mqttTypeConnect
    · have carried := withReaders_handleConnect readers broker context message
      simp only [if_neg publish, if_pos connect, ← carried]
      exact congrArg some (Prod.ext (free rfl) rfl)
    · by_cases subscribe : message.type = mqttTypeSubscribe
      · have carried := withReaders_handleSubscribe readers broker context message
        simp only [if_neg publish, if_neg connect, if_pos subscribe, ← carried]
        rcases handleSubscribe broker context message with _ | ⟨handled, retCode⟩
        · rfl
        · exact congrArg some (Prod.ext (free rfl) rfl)
      · by_cases pingreq : message.type = mqttTypePingreq
        · simp only [if_neg publish, if_neg connect, if_neg subscribe, if_pos pingreq]
          exact congrArg some (Prod.ext (free (withReaders_ackMsg readers ..)) rfl)
        · by_cases unsubscribe : message.type = mqttTypeUnsubscribe
          · simp only [if_neg publish, if_neg connect, if_neg subscribe, if_neg pingreq,
              if_pos unsubscribe]
            exact congrArg some (Prod.ext (free rfl) rfl)
          · by_cases disconnect : message.type = mqttTypeDisconnect
            · simp only [if_neg publish, if_neg connect, if_neg subscribe, if_neg pingreq,
                if_neg unsubscribe, if_pos disconnect]
              exact congrArg some (Prod.ext (free rfl) rfl)
            · simp only [if_neg publish, if_neg connect, if_neg subscribe, if_neg pingreq,
                if_neg unsubscribe, if_neg disconnect]
              exact congrArg some (Prod.ext (free rfl) rfl)

end MuMQ
