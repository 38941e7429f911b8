import MuMQ.Broker.Sending
import MuMQ.Mqtt.SubscribeParse
import MuMQ.Substree.SubAdd

namespace MuMQ

/-! What `handle_mqtt_command` can do. -/

/-- The topic a PUBLISH is routed under; one with a QoS is not routed. -/
def publishedTopic (message : Message) : Option CString :=
  if message.type = mqttTypePublish ∧ message.qos = 0 ∧
      message.publish.topicName.data.isSome then
    some (CString.ofBuffer message.publish.topicName.bytes)
  else none

/-- The broker as `mqtt3_sub_tree_process` finds it when a PUBLISH is handled. -/
def routedFrom (broker : Broker) (context : Nat) (message : Message) : Broker :=
  { broker.modifyClient context fun client =>
      { client with lastMid := message.publish.messageId } with
    memory := broker.memory.mallocUnchecked.2.mallocUnchecked.2 }

/-- The calls of `publish_msg` that handling a message leads to. -/
def publishDeliveries (broker : Broker) (context : Nat) (message : Message) :
    List Delivery :=
  match publishedTopic message with
  | none => []
  | some topic =>
      (mqtt3SubTreeProcess (routedFrom broker context message) topic
        message.publish.content.bytes message.publish.content.length).2.2

theorem publishDeliveries_routed {broker : Broker} {context : Nat} {message : Message}
    {topic : CString} (routed : publishedTopic message = some topic) :
    publishDeliveries broker context message =
      (mqtt3SubTreeProcess (routedFrom broker context message) topic
        message.publish.content.bytes message.publish.content.length).2.2 := by
  rw [publishDeliveries, routed]

theorem routedFrom_isSubscribe (broker : Broker) (context : Nat) (message : Message)
    (slot : Nat) :
    ((routedFrom broker context message).clients slot).isSubscribe =
      (broker.clients slot).isSubscribe := by
  by_cases own : slot = context
  · simp [routedFrom, Broker.modifyClient, own]
  · simp [routedFrom, Broker.modifyClient, own]

/-- A PUBLISH is delivered to subscribed clients that have a leaf at a node the
search visits. -/
theorem mem_publishDeliveries {broker : Broker} {context : Nat} {message : Message}
    {delivery : Delivery} (member : delivery ∈ publishDeliveries broker context message) :
    publishedTopic message = some delivery.topic ∧
      (broker.clients delivery.context).isSubscribe = true ∧
      ∃ site ∈ broker.subs.sites,
        rootVisits site.path site.inner (tokens delivery.topic) = true ∧
          delivery.context ∈ site.contexts := by
  cases routed : publishedTopic message with
  | none =>
      rw [publishDeliveries, routed] at member
      cases member
  | some topic =>
      rw [publishDeliveries_routed routed] at member
      obtain ⟨_, ⟨_, deliveries⟩ | ⟨_, none, _⟩⟩ :=
        mqtt3SubTreeProcess_cases (routedFrom broker context message) topic
          message.publish.content.bytes message.publish.content.length
      · rw [deliveries] at member
        obtain ⟨slot, called, rfl⟩ := List.mem_map.mp member
        rw [mem_subTreeProcess, routedFrom_isSubscribe] at called
        exact ⟨rfl, called⟩
      · rw [none] at member
        cases member

theorem mem_publishDeliveries_of_visits {broker : Broker} {context : Nat}
    {message : Message} {topic : CString} (routed : publishedTopic message = some topic)
    (unfailing : broker.memory.Unfailing) {slot : Nat}
    (subscribed : (broker.clients slot).isSubscribe = true) {site : Site}
    (member : site ∈ broker.subs.sites)
    (visited : rootVisits site.path site.inner (tokens topic) = true)
    (leaf : slot ∈ site.contexts) :
    ⟨slot, topic, message.publish.content.bytes, message.publish.content.length⟩ ∈
      publishDeliveries broker context message := by
  rw [publishDeliveries_routed routed]
  obtain ⟨_, ⟨_, deliveries⟩ | ⟨_, _, failing⟩⟩ :=
    mqtt3SubTreeProcess_cases (routedFrom broker context message) topic
      message.publish.content.bytes message.publish.content.length
  · rw [deliveries]
    refine List.mem_map_of_mem (mem_subTreeProcess.mpr ⟨?_, site, member, visited, leaf⟩)
    rw [routedFrom_isSubscribe]
    exact subscribed
  · exact absurd unfailing failing

/-- A CONNECT with an id that the broker takes. -/
def AcceptedConnect (message : Message) : Prop :=
  message.type = mqttTypeConnect ∧ message.connect.clientId.length > 0 ∧
    ¬ message.connect.clientId.length > 23

instance (message : Message) : Decidable (AcceptedConnect message) :=
  inferInstanceAs (Decidable (_ ∧ _))

/-- A client id in the 24 bytes of a slot. -/
def paddedId (clientId : List UInt8) : List UInt8 :=
  clientId ++ List.replicate (24 - clientId.length) 0

/-- The filter of a SUBSCRIBE. -/
def subscribedFilter (message : Message) : Option CString :=
  if message.type = mqttTypeSubscribe then
    message.subscribe.topics.bind fun pair =>
      if pair.name.data.isSome then some (CString.ofBuffer pair.name.bytes) else none
  else none

/-- `context->is_subscribe = true`. -/
def setSubscribed (client : Client) : Client := { client with isSubscribe := true }

/-- The packet id in the reply to a message: that of a SUBSCRIBE which gets as far as
the tree, and else the last one of the slot. -/
def answeredId (broker : Broker) (context : Nat) (message : Message) : UInt16 :=
  if (subscribedFilter message).isSome ∧ (broker.clients context).state = .csConnected then
    message.subscribe.messageId
  else (broker.clients context).lastMid

/-- The broker after a message of a slot is handled, and the return code. -/
inductive Handled (broker : Broker) (context : Nat) (message : Message) :
    Broker → UInt8 → Prop
  | published {after : Broker} {packets : Nat → List Packet}
      (type : message.type = mqttTypePublish) (sent : Sent broker after packets)
      (delivered : ∀ delivery ∈ publishDeliveries broker context message,
        ∃ packet ∈ packets delivery.context, IsPublishTo delivery packet)
      (only : ∀ slot, (∀ delivery ∈ publishDeliveries broker context message,
        delivery.context ≠ slot) → packets slot = [])
      (replies : ∀ slot, replyFrames (packets slot) = []) :
      Handled broker context message after 0
  | connected {after : Broker} {packets : Nat → List Packet}
      (accepted : AcceptedConnect message)
      (sent : Sent (addClient broker message.connect.clientId
        (broker.clients context).sock) after packets)
      (only : ∀ slot, slot ≠ context → packets slot = [])
      (replies : replyFrames (packets context) =
        replyWith (answeredId broker context message) message 0) :
      Handled broker context message after 0
  | subscribed {middle grown after : Broker} {packets : Nat → List Packet}
      {filter : CString} (found : subscribedFilter message = some filter)
      (isConnected : (broker.clients context).state = .csConnected)
      (quiet : Sent broker middle fun _ => [])
      (added : SubAdded middle context filter grown 0)
      (sent : Sent (grown.modifyClient context setSubscribed) after packets)
      (only : ∀ slot, slot ≠ context → packets slot = [])
      (replies : replyFrames (packets context) =
        replyWith (answeredId broker context message) message 0) :
      Handled broker context message after 0
  | unsubscribed {middle grown after : Broker} {packets : Nat → List Packet}
      {filter : CString} {failure : Int} {rc : UInt8}
      (found : subscribedFilter message = some filter)
      (isConnected : (broker.clients context).state = .csConnected)
      (quiet : Sent broker middle fun _ => [])
      (added : SubAdded middle context filter grown failure) (failed : failure ≠ 0)
      (sent : Sent grown after packets)
      (only : ∀ slot, slot ≠ context → packets slot = []) (nonzero : rc ≠ 0)
      (replies : replyFrames (packets context) =
        replyWith (answeredId broker context message) message rc)
      (code : rc = UInt8.ofInt failure) :
      Handled broker context message after rc
  | replied {after : Broker} {packets : Nat → List Packet} {rc : UInt8}
      (notPublish : message.type ≠ mqttTypePublish)
      (notConnect : ¬ AcceptedConnect message)
      (notSubscribe : subscribedFilter message = none ∨
        (rc ≠ 0 ∧ (broker.clients context).state ≠ .csConnected))
      (sent : Sent broker after packets)
      (only : ∀ slot, slot ≠ context → packets slot = [])
      (replies : replyFrames (packets context) =
        replyWith (answeredId broker context message) message rc)
      (refused : message.type = mqttTypeConnect →
        rc = if message.connect.clientId.length > 23 then 2 else 0) :
      Handled broker context message after rc

theorem Handled.andQuiet {broker middle after : Broker} {context : Nat}
    {message : Message} {rc : UInt8} (handled : Handled broker context message middle rc)
    (quiet : Sent middle after fun _ => []) : Handled broker context message after rc := by
  cases handled with
  | published type sent delivered only replies =>
      exact .published type (sent.andQuiet quiet) delivered only replies
  | connected accepted sent only replies =>
      exact .connected accepted (sent.andQuiet quiet) only replies
  | subscribed found isConnected before added sent only replies =>
      exact .subscribed found isConnected before added (sent.andQuiet quiet) only replies
  | unsubscribed found isConnected before added failed sent only nonzero replies code =>
      exact .unsubscribed found isConnected before added failed (sent.andQuiet quiet) only
        nonzero replies code
  | replied notPublish notConnect notSubscribe sent only replies refused =>
      exact .replied notPublish notConnect notSubscribe (sent.andQuiet quiet) only replies
        refused

theorem answeredId_unserved {broker : Broker} {context : Nat} {message : Message}
    {served : Prop} (unserved : subscribedFilter message = none ∨
      (served ∧ (broker.clients context).state ≠ .csConnected)) :
    answeredId broker context message = (broker.clients context).lastMid := by
  rw [answeredId, if_neg]
  rintro ⟨there, isConnected⟩
  rcases unserved with none | ⟨_, unconnected⟩
  · rw [none] at there
    cases there
  · exact unconnected isConnected

theorem answeredId_served {broker : Broker} {context : Nat} {message : Message}
    {filter : CString} (found : subscribedFilter message = some filter)
    (isConnected : (broker.clients context).state = .csConnected) :
    answeredId broker context message = message.subscribe.messageId := by
  rw [answeredId, if_pos ⟨by rw [found]; rfl, isConnected⟩]

theorem publishedTopic_eq_some {message : Message} {topic : CString}
    (routed : publishedTopic message = some topic) :
    message.qos = 0 ∧ message.publish.topicName.data.isSome = true ∧
      topic = CString.ofBuffer message.publish.topicName.bytes := by
  unfold publishedTopic at routed
  split at routed
  · rename_i condition
    exact ⟨condition.2.1, condition.2.2, (Option.some.inj routed).symm⟩
  · cases routed

theorem handlePublish_routed {broker : Broker} {context : Nat} {message : Message}
    {topic : CString} (routed : publishedTopic message = some topic) :
    handlePublish broker context message =
      (publishDeliveries broker context message).foldl
        (fun broker delivery =>
          publishMsg broker delivery.context delivery.topic delivery.payload delivery.len)
        { routedFrom broker context message with
          memory :=
            (mqtt3SubTreeProcess (routedFrom broker context message) topic
              message.publish.content.bytes message.publish.content.length).1 } := by
  obtain ⟨qos, there, rfl⟩ := publishedTopic_eq_some routed
  rw [publishDeliveries_routed routed, handlePublish, if_pos qos, if_pos there]
  rfl

theorem handlePublish_unrouted {broker : Broker} {context : Nat} {message : Message}
    (type : message.type = mqttTypePublish) (unrouted : publishedTopic message = none) :
    handlePublish broker context message = broker := by
  unfold handlePublish
  split
  · rename_i qos
    split
    · rename_i there
      rw [publishedTopic, if_pos ⟨type, qos, there⟩] at unrouted
      cases unrouted
    · rfl
  · rfl

theorem routedFrom_sent (broker : Broker) (context : Nat) (message : Message)
    {memory : Memory}
    (extended : Memory.Extends (routedFrom broker context message).memory memory) :
    Sent broker { routedFrom broker context message with memory := memory } fun _ => [] :=
  Sent.of_quiet broker context
    (fun client => { client with lastMid := message.publish.messageId })
    ⟨rfl, rfl, rfl, rfl⟩ rfl
    (((Memory.Extends.mallocUnchecked _).trans (Memory.Extends.mallocUnchecked _)).trans
      extended)

private theorem publishDeliveries_short {broker : Broker} {context : Nat} {message : Message}
    (short : message.ShortTopic) :
    ∀ delivery ∈ publishDeliveries broker context message,
      delivery.topic.strlen ≤ 65535 := by
  intro delivery member
  obtain ⟨routed, _⟩ := mem_publishDeliveries member
  obtain ⟨_, _, topic⟩ := publishedTopic_eq_some routed
  rw [topic]
  exact Nat.le_trans (CString.strlen_ofBuffer_le _)
    (Nat.le_trans (List.length_take_le _ _) short)

private theorem handlePublish_handled (broker : Broker) (context : Nat) {message : Message}
    (type : message.type = mqttTypePublish) (short : message.ShortTopic) :
    Handled broker context message (handlePublish broker context message) 0 := by
  cases routed : publishedTopic message with
  | none =>
      have none : publishDeliveries broker context message = [] := by
        rw [publishDeliveries, routed]
      rw [handlePublish_unrouted type routed]
      refine .published type (Sent.refl broker) ?_ (fun _ _ => rfl) fun _ => rfl
      rw [none]
      exact List.forall_mem_nil _
  | some topic =>
      rw [handlePublish_routed routed]
      obtain ⟨extended, _⟩ := mqtt3SubTreeProcess_cases (routedFrom broker context message)
        topic message.publish.content.bytes message.publish.content.length
      obtain ⟨packets, sent, delivered, only, replies⟩ := publishAll_sent
        { routedFrom broker context message with
          memory :=
            (mqtt3SubTreeProcess (routedFrom broker context message) topic
              message.publish.content.bytes message.publish.content.length).1 }
        (publishDeliveries_short short)
      exact .published type ((routedFrom_sent broker context message extended).trans sent)
        delivered only replies

private theorem handleConnect_handled (broker : Broker) (context : Nat) {message : Message}
    (type : message.type = mqttTypeConnect) :
    Handled broker context message (handleConnect broker context message).1
      (handleConnect broker context message).2 := by
  have notPublish : message.type ≠ mqttTypePublish := by rw [type]; decide
  have noFilter : subscribedFilter message = none :=
    if_neg (by rw [type]; decide)
  have connack (sender : Broker) (retCode : UInt8) :
      ∃ packets, Sent sender (ackMsg sender context mqttTypeConnack 2 retCode) packets ∧
        (∀ slot, slot ≠ context → packets slot = []) ∧
        replyFrames (packets context) =
          replyWith (answeredId broker context message) message retCode := by
    rw [replyWith_connect type]
    exact ackMsg_sent (newPacket_connack sender.memory _ retCode)
  unfold handleConnect
  simp only
  split
  · rename_i long
    obtain ⟨packets, sent, only, replies⟩ := connack broker 2
    exact .replied notPublish (fun accepted => accepted.2.2 long) (.inl noFilter) sent only
      replies fun _ => (if_pos long).symm
  · rename_i fits
    split
    · rename_i present
      obtain ⟨packets, sent, only, replies⟩ := connack
        (addClient broker message.connect.clientId (broker.clients context).sock) 0
      exact .connected ⟨type, present, fits⟩ sent only replies
    · rename_i absent
      obtain ⟨packets, sent, only, replies⟩ := connack broker 0
      exact .replied notPublish (fun accepted => absent accepted.2.1) (.inl noFilter) sent
        only replies fun _ => (if_neg fits).symm

private theorem SubAdded.retCode {broker after : Broker} {context : Nat} {sub : CString}
    {rc : Int} (added : SubAdded broker context sub after rc) :
    UInt8.ofInt rc = 0 ↔ rc = 0 := by
  rcases added.outcome with ⟨rfl, _⟩ | ⟨rfl | rfl, _⟩ <;> decide

private theorem handleSubscribe_handled {broker after : Broker} {context : Nat}
    {message : Message} {rc : UInt8} (type : message.type = mqttTypeSubscribe)
    (ran : handleSubscribe broker context message = some (after, rc)) :
    Handled broker context message after rc := by
  have notPublish : message.type ≠ mqttTypePublish := by rw [type]; decide
  have notConnect : ¬ AcceptedConnect message := by
    rintro ⟨connect, _⟩
    rw [type] at connect
    exact absurd connect (by decide)
  have suback (sender : Broker)
      (lastMid : (sender.clients context).lastMid = answeredId broker context message)
      (retCode : UInt8) :
      ∃ packets, Sent sender (ackMsg sender context mqttTypeSuback 3 retCode) packets ∧
        (∀ slot, slot ≠ context → packets slot = []) ∧
        replyFrames (packets context) =
          replyWith (answeredId broker context message) message retCode := by
    rw [replyWith_subscribe type, ← lastMid]
    exact ackMsg_sent (newPacket_suback sender.memory _ retCode)
  have replied {retCode : UInt8} (noFilter : subscribedFilter message = none ∨
      (retCode ≠ 0 ∧ (broker.clients context).state ≠ .csConnected)) :
      Handled broker context message (ackMsg broker context mqttTypeSuback 3 retCode)
        retCode := by
    obtain ⟨packets, sent, only, replies⟩ :=
      suback broker (answeredId_unserved noFilter).symm retCode
    exact .replied notPublish notConnect noFilter sent only replies
      fun connect => absurd (type.symm.trans connect) (by decide)
  unfold handleSubscribe at ran
  split at ran
  · cases ran
  · rename_i subscribed retCode topicRan
    obtain ⟨rfl, rfl⟩ := Prod.mk.inj (Option.some.inj ran)
    unfold subscribeTopic at topicRan
    split at topicRan
    · rename_i absent
      obtain ⟨rfl, rfl⟩ := Prod.mk.inj (Option.some.inj topicRan)
      exact replied (.inl (by rw [subscribedFilter, if_pos type, absent]; rfl))
    · rename_i pair there
      have filter : subscribedFilter message =
          if pair.name.data.isSome then some (CString.ofBuffer pair.name.bytes) else none := by
        rw [subscribedFilter, if_pos type, there]
        rfl
      split at topicRan
      · rename_i named
        rw [if_pos named] at filter
        split at topicRan
        · rename_i isConnected
          simp only at topicRan
          split at topicRan
          · cases topicRan
          · rename_i grown failure addRan
            have added := mqtt3SubAdd_added addRan
            have quiet := Sent.of_quiet broker context
              (fun client => { client with lastMid := message.subscribe.messageId })
              ⟨rfl, rfl, rfl, rfl⟩ rfl (Memory.Extends.mallocUnchecked broker.memory)
            have lastMid : (grown.clients context).lastMid =
                answeredId broker context message := by
              obtain ⟨subs, subCount, client⟩ := added.client context
              rw [client, answeredId_served filter isConnected, Broker.modifyClient_self]
            split at topicRan
            · rename_i zero
              obtain ⟨rfl, rfl⟩ := Prod.mk.inj (Option.some.inj topicRan)
              rw [added.retCode] at zero
              subst zero
              obtain ⟨packets, sent, only, replies⟩ := suback
                (grown.modifyClient context setSubscribed)
                (by rw [Broker.modifyClient_self]; exact lastMid) 0
              exact .subscribed filter isConnected quiet added sent only replies
            · rename_i nonzero
              obtain ⟨rfl, rfl⟩ := Prod.mk.inj (Option.some.inj topicRan)
              obtain ⟨packets, sent, only, replies⟩ :=
                suback grown lastMid (UInt8.ofInt failure)
              exact .unsubscribed filter isConnected quiet added
                (mt added.retCode.mpr nonzero) sent only nonzero replies rfl
        · rename_i notConnected
          obtain ⟨rfl, rfl⟩ := Prod.mk.inj (Option.some.inj topicRan)
          exact replied (.inr ⟨by decide, notConnected⟩)
      · rename_i unnamed
        obtain ⟨rfl, rfl⟩ := Prod.mk.inj (Option.some.inj topicRan)
        exact replied (.inl (by rw [filter, if_neg unnamed]))

theorem handleMqttCommand_handled {broker after : Broker} {context : Nat}
    {message : Message} {rc : UInt8} (short : message.ShortTopic)
    (ran : handleMqttCommand broker context message = some (after, rc)) :
    Handled broker context message after rc := by
  unfold handleMqttCommand at ran
  simp only at ran
  split at ran
  · cases ran
  · rename_i middle retCode arm
    obtain ⟨rfl, rfl⟩ := Prod.mk.inj (Option.some.inj ran)
    apply Handled.andQuiet ?_ (Sent.of_quiet middle context
      (fun client => { client with reader := { client.reader with inPacket := none } })
      ⟨rfl, rfl, rfl, rfl⟩ rfl (Memory.Extends.refl _))
    have others (notPublish : message.type ≠ mqttTypePublish)
        (notConnect : message.type ≠ mqttTypeConnect)
        (notSubscribe : message.type ≠ mqttTypeSubscribe) {packets : Nat → List Packet}
        {changed : Broker} {code : UInt8} (sent : Sent broker changed packets)
        (only : ∀ slot, slot ≠ context → packets slot = [])
        (replies : replyFrames (packets context) =
          if message.type = mqttTypePingreq then [[0xd0, 0]] else []) :
        Handled broker context message changed code :=
      .replied notPublish (fun accepted => notConnect accepted.1)
        (.inl (if_neg notSubscribe)) sent only
        (by rw [replies, replyWith, if_neg notConnect, if_neg notSubscribe])
        fun connect => absurd connect notConnect
    split at arm
    · rename_i publish
      cases arm
      exact handlePublish_handled broker context publish short
    · rename_i notPublish
      split at arm
      · rename_i connect
        obtain ⟨rfl, rfl⟩ := Prod.mk.inj (Option.some.inj arm)
        exact handleConnect_handled broker context connect
      · rename_i notConnect
        split at arm
        · rename_i subscribe
          exact handleSubscribe_handled subscribe arm
        · rename_i notSubscribe
          split at arm
          · rename_i pingreq
            obtain ⟨rfl, rfl⟩ := Prod.mk.inj (Option.some.inj arm)
            obtain ⟨packets, sent, only, replies⟩ :=
              ackMsg_sent (newPacket_pingresp broker.memory (broker.clients context).lastMid)
            exact others notPublish notConnect notSubscribe sent only
              (by rw [replies, if_pos pingreq])
          · rename_i notPingreq
            have none {code : UInt8} : Handled broker context message broker code :=
              others notPublish notConnect notSubscribe (Sent.refl broker) (fun _ _ => rfl)
                (by rw [if_neg notPingreq]; rfl)
            split at arm
            · obtain ⟨rfl, rfl⟩ := Prod.mk.inj (Option.some.inj arm)
              exact none
            · split at arm
              · obtain ⟨rfl, rfl⟩ := Prod.mk.inj (Option.some.inj arm)
                exact none
              · obtain ⟨rfl, rfl⟩ := Prod.mk.inj (Option.some.inj arm)
                exact none

/-! What a handled message leaves alone, and what it may change. -/

theorem AcceptedConnect.notPublish {message : Message} (accepted : AcceptedConnect message) :
    message.type ≠ mqttTypePublish := by
  rw [accepted.1]
  decide

theorem AcceptedConnect.noFilter {message : Message} (accepted : AcceptedConnect message) :
    subscribedFilter message = none :=
  if_neg (by rw [accepted.1]; decide)

/-- The broker in whose tree a filter is put, and the result: a handled SUBSCRIBE
apart from the packets. -/
structure Subscribing (broker : Broker) (context : Nat) (filter : CString)
    (after : Broker) (acknowledged : Prop) : Prop where
  isConnected : (broker.clients context).state = .csConnected
  added : ∃ middle grown failure,
    middle.subs = broker.subs ∧
      (∀ slot, (broker.clients slot).Alike (middle.clients slot)) ∧
      SubAdded middle context filter grown failure ∧ after.subs = grown.subs ∧
      (failure = 0 ↔ acknowledged)
  succeeds : broker.memory.Unfailing → acknowledged
  flag : acknowledged → (after.clients context).isSubscribe = true
  flags : ∀ slot, (acknowledged → slot ≠ context) →
    (after.clients slot).isSubscribe = (broker.clients slot).isSubscribe

namespace Subscribing

variable {broker after : Broker} {context : Nat} {filter : CString} {acknowledged : Prop}

theorem hasLeaf_before (subscribing : Subscribing broker context filter after acknowledged)
    {path : List Token} {slot : Nat} (leaf : broker.subs.HasLeaf path slot) :
    after.subs.HasLeaf path slot := by
  obtain ⟨middle, grown, failure, subs, _, added, grownSubs, _⟩ := subscribing.added
  rw [← subs] at leaf
  exact grownSubs ▸ added.hasLeaf_before leaf

theorem hasLeaf_after (subscribing : Subscribing broker context filter after acknowledged)
    {path : List Token} {slot : Nat} (leaf : after.subs.HasLeaf path slot) :
    broker.subs.HasLeaf path slot ∨
      (acknowledged ∧ slot = context ∧ path = filterPath filter) := by
  obtain ⟨middle, grown, failure, subs, _, added, grownSubs, success⟩ := subscribing.added
  rw [grownSubs] at leaf
  rw [← subs]
  by_cases zero : failure = 0
  · rcases added.hasLeaf_after leaf with earlier | own
    · exact .inl earlier
    · exact .inr ⟨success.mp zero, own⟩
  · exact .inl ((added.hasLeaf_failed zero).mp leaf)

theorem path_after (subscribing : Subscribing broker context filter after acknowledged)
    {site : Site} (member : site ∈ after.subs.sites) :
    (∃ old ∈ broker.subs.sites, old.path = site.path) ∨ site.path <+: filterPath filter := by
  obtain ⟨middle, grown, failure, subs, _, added, grownSubs, _⟩ := subscribing.added
  rw [grownSubs] at member
  rw [← subs]
  exact added.path_after member

/-- After an acknowledged SUBSCRIBE the node of the filter has a leaf of a client
with the id of the subscriber. -/
theorem served (subscribing : Subscribing broker context filter after acknowledged)
    (success : acknowledged) :
    ∃ slot, after.subs.HasLeaf (filterPath filter) slot ∧
      (broker.clients slot).idString = (broker.clients context).idString := by
  obtain ⟨middle, grown, failure, _, alike, added, grownSubs, zero⟩ := subscribing.added
  rw [zero.mpr success] at added
  obtain ⟨slot, leaf, namesake⟩ := added.served
  rw [(alike slot).idString, (alike context).idString] at namesake
  exact ⟨slot, grownSubs ▸ leaf, namesake⟩

end Subscribing

namespace Handled

variable {broker after : Broker} {context : Nat} {message : Message} {rc : UInt8}

theorem grownSlot {middle grown : Broker} {filter : CString} {failure : Int}
    (quiet : Sent broker middle fun _ => []) (added : SubAdded middle context filter grown
      failure) (slot : Nat) :
    (grown.clients slot).sender = (broker.clients slot).sender ∧
      (broker.clients slot).Alike (grown.clients slot) := by
  obtain ⟨subs, subCount, client⟩ := added.client slot
  have alike := quiet.clients slot
  rw [client]
  exact ⟨quiet.senders slot, ⟨alike.sock, alike.id, alike.state, alike.isSubscribe⟩⟩

theorem memory (handled : Handled broker context message after rc) :
    Memory.Extends broker.memory after.memory := by
  cases handled with
  | published type sent delivered only => exact sent.memory
  | connected accepted sent only => exact sent.memory
  | subscribed found isConnected quiet added sent only =>
      exact (quiet.memory.trans added.memory).trans sent.memory
  | unsubscribed found isConnected quiet added failed sent only nonzero =>
      exact (quiet.memory.trans added.memory).trans sent.memory
  | replied notPublish notConnect notSubscribe sent only => exact sent.memory

theorem contextsByPtr (handled : Handled broker context message after rc) :
    after.contextsByPtr = broker.contextsByPtr := by
  cases handled with
  | published type sent delivered only => exact sent.contextsByPtr
  | connected accepted sent only => exact sent.contextsByPtr
  | subscribed found isConnected quiet added sent only =>
      exact sent.contextsByPtr.trans (added.contextsByPtr.trans quiet.contextsByPtr)
  | unsubscribed found isConnected quiet added failed sent only nonzero =>
      exact sent.contextsByPtr.trans (added.contextsByPtr.trans quiet.contextsByPtr)
  | replied notPublish notConnect notSubscribe sent only => exact sent.contextsByPtr

theorem mem_contextsByPtr (handled : Handled broker context message after rc) {slot : Nat} :
    slot ∈ after.contextsByPtr ↔ slot ∈ broker.contextsByPtr := by
  rw [handled.contextsByPtr]

theorem sock (handled : Handled broker context message after rc) (slot : Nat) :
    (after.clients slot).sock = (broker.clients slot).sock := by
  cases handled with
  | published type sent delivered only => exact (sent.clients slot).sock
  | connected accepted sent only =>
      rw [(sent.clients slot).sock, addClient]
      by_cases own : slot = (broker.clients context).sock
      · subst own
        rw [Broker.modifyClient_self]
      · rw [Broker.modifyClient_other _ _ own]
  | subscribed found isConnected quiet added sent only =>
      rw [(sent.clients slot).sock, ← (grownSlot quiet added slot).2.sock]
      by_cases own : slot = context
      · subst own
        rw [Broker.modifyClient_self, setSubscribed]
      · rw [Broker.modifyClient_other _ _ own]
  | unsubscribed found isConnected quiet added failed sent only nonzero =>
      rw [(sent.clients slot).sock, (grownSlot quiet added slot).2.sock]
  | replied notPublish notConnect notSubscribe sent only => exact (sent.clients slot).sock

/-- A message changes the state and the id of a slot only as an accepted CONNECT. -/
theorem identity (handled : Handled broker context message after rc)
    (own : (broker.clients context).sock = context) (slot : Nat) :
    ((after.clients slot).state, (after.clients slot).id) =
      if AcceptedConnect message ∧ slot = context then
        (.csConnected, paddedId message.connect.clientId.bytes)
      else ((broker.clients slot).state, (broker.clients slot).id) := by
  have same {packets : Nat → List Packet} {before : Broker} (sent : Sent before after packets) :
      ((after.clients slot).state, (after.clients slot).id) =
        ((before.clients slot).state, (before.clients slot).id) := by
    rw [(sent.clients slot).state, (sent.clients slot).id]
  have subscribes {filter : CString} (found : subscribedFilter message = some filter) :
      ¬ (AcceptedConnect message ∧ slot = context) := by
    intro both
    rw [both.1.noFilter] at found
    cases found
  cases handled with
  | published type sent delivered only =>
      rw [same sent, if_neg fun both => both.1.notPublish type]
  | connected accepted sent only =>
      rw [same sent, own, addClient]
      by_cases isOwn : slot = context
      · subst isOwn
        rw [Broker.modifyClient_self, if_pos ⟨accepted, rfl⟩]
        rfl
      · rw [Broker.modifyClient_other _ _ isOwn, if_neg fun both => isOwn both.2]
  | subscribed found isConnected quiet added sent only =>
      obtain ⟨_, alike⟩ := grownSlot quiet added slot
      rw [same sent, if_neg (subscribes found), ← alike.state, ← alike.id]
      by_cases isOwn : slot = context
      · subst isOwn
        rw [Broker.modifyClient_self, setSubscribed]
      · rw [Broker.modifyClient_other _ _ isOwn]
  | unsubscribed found isConnected quiet added failed sent only nonzero =>
      obtain ⟨_, alike⟩ := grownSlot quiet added slot
      rw [same sent, if_neg (subscribes found), ← alike.state, ← alike.id]
  | replied notPublish notConnect notSubscribe sent only =>
      rw [same sent, if_neg fun both => notConnect both.1]

theorem connackCode (handled : Handled broker context message after rc)
    (type : message.type = mqttTypeConnect) :
    rc = if message.connect.clientId.length > 23 then 2 else 0 := by
  have noFilter : subscribedFilter message = none := if_neg (by rw [type]; decide)
  cases handled with
  | published publish sent delivered only => exact absurd (type.symm.trans publish) (by decide)
  | connected accepted sent only => rw [if_neg accepted.2.2]
  | subscribed found isConnected quiet added sent only =>
      rw [noFilter] at found
      cases found
  | unsubscribed found isConnected quiet added failed sent only nonzero =>
      rw [noFilter] at found
      cases found
  | replied notPublish notConnect notSubscribe sent only replies refused => exact refused type

/-- On a connected slot a SUBSCRIBE is not answered with 0x80. -/
theorem admitted (handled : Handled broker context message after rc) {filter : CString}
    (found : subscribedFilter message = some filter)
    (isConnected : (broker.clients context).state = .csConnected) : rc ≠ 0x80 := by
  cases handled with
  | published type sent delivered only => decide
  | connected accepted sent only => decide
  | subscribed => decide
  | unsubscribed _ _ quiet added failed sent only nonzero replies code =>
      rcases added.outcome with ⟨zero, _⟩ | ⟨rfl | rfl, _⟩
      · exact absurd zero failed
      · rw [code]
        decide
      · rw [code]
        decide
  | replied notPublish notConnect notSubscribe sent only =>
      rcases notSubscribe with none | ⟨_, unconnected⟩
      · rw [none] at found
        cases found
      · exact absurd isConnected unconnected

/-- A message changes the tree and the flags only as a SUBSCRIBE. -/
theorem tree (handled : Handled broker context message after rc) :
    (after.subs = broker.subs ∧
        (∀ slot, (after.clients slot).isSubscribe = (broker.clients slot).isSubscribe) ∧
        (subscribedFilter message = none ∨
          (rc ≠ 0 ∧ (broker.clients context).state ≠ .csConnected))) ∨
      ∃ filter, subscribedFilter message = some filter ∧
        Subscribing broker context filter after (rc = 0) := by
  cases handled with
  | published type sent delivered only =>
      refine .inl ⟨sent.subs, fun slot => (sent.clients slot).isSubscribe, .inl ?_⟩
      exact if_neg (by rw [type]; decide)
  | connected accepted sent only =>
      refine .inl ⟨sent.subs, fun slot => ?_, .inl accepted.noFilter⟩
      rw [(sent.clients slot).isSubscribe, addClient]
      by_cases own : slot = (broker.clients context).sock
      · subst own
        rw [Broker.modifyClient_self]
      · rw [Broker.modifyClient_other _ _ own]
  | @subscribed middle grown _ _ filter found isConnected quiet added sent only =>
      refine .inr ⟨filter, found, isConnected, ⟨middle, grown, 0, quiet.subs, quiet.clients,
        added, sent.subs, by simp⟩, fun _ => rfl, fun _ => ?_, fun slot other => ?_⟩
      · rw [(sent.clients context).isSubscribe, Broker.modifyClient_self, setSubscribed]
      · rw [(sent.clients slot).isSubscribe, Broker.modifyClient_other _ _ (other rfl)]
        exact (grownSlot quiet added slot).2.isSubscribe
  | @unsubscribed middle grown _ _ filter failure _ found isConnected quiet added failed
      sent only nonzero =>
      refine .inr ⟨filter, found, isConnected, ⟨middle, grown, failure, quiet.subs,
        quiet.clients, added, sent.subs, iff_of_false failed nonzero⟩, fun unfailing => ?_,
        fun zero => absurd zero nonzero, fun slot _ => ?_⟩
      · rcases added.outcome with ⟨zero, _⟩ | ⟨_, _, failing⟩
        · exact absurd zero failed
        · exact absurd (unfailing.extends quiet.memory) failing
      · rw [(sent.clients slot).isSubscribe]
        exact (grownSlot quiet added slot).2.isSubscribe
  | replied notPublish notConnect notSubscribe sent only =>
      exact .inl ⟨sent.subs, fun slot => (sent.clients slot).isSubscribe, notSubscribe⟩

/-- A PUBLISH that is routed is all deliveries. -/
theorem routed (handled : Handled broker context message after rc) {topic : CString}
    (routed : publishedTopic message = some topic) :
    ∃ packets, Sent broker after packets ∧
      (∀ delivery ∈ publishDeliveries broker context message,
        ∃ packet ∈ packets delivery.context, IsPublishTo delivery packet) ∧
      ∀ slot, (∀ delivery ∈ publishDeliveries broker context message,
        delivery.context ≠ slot) → packets slot = [] := by
  have type : message.type = mqttTypePublish := by
    unfold publishedTopic at routed
    split at routed
    · rename_i condition
      exact condition.1
    · cases routed
  have noFilter : subscribedFilter message = none := if_neg (by rw [type]; decide)
  cases handled with
  | published type sent delivered only => exact ⟨_, sent, delivered, only⟩
  | connected accepted sent only => exact absurd type accepted.notPublish
  | subscribed found isConnected quiet added sent only =>
      rw [noFilter] at found
      cases found
  | unsubscribed found isConnected quiet added failed sent only nonzero =>
      rw [noFilter] at found
      cases found
  | replied notPublish notConnect notSubscribe sent only => exact absurd type notPublish

/-- A message puts new packets behind those of a queue, the reply to it on its own
slot; an accepted CONNECT sets the counter of its slot to 0 before. -/
theorem queue (handled : Handled broker context message after rc)
    (own : (broker.clients context).sock = context) {slot : Nat}
    (sound : (broker.clients slot).sender.Sound broker.memory.calls) :
    (after.clients slot).sender.Sound after.memory.calls ∧
      ∃ packets,
        (if AcceptedConnect message ∧ slot = context then
            { (broker.clients slot).sender with numSendingPack := 0 }
          else (broker.clients slot).sender).Extended packets (after.clients slot).sender ∧
        replyFrames packets =
          if slot = context then replyWith (answeredId broker context message) message rc
          else [] := by
  -- the queue that the packets are put behind
  generalize start : (if AcceptedConnect message ∧ slot = context then
    { (broker.clients slot).sender with numSendingPack := 0 }
    else (broker.clients slot).sender) = queue
  have queueSound : queue.Sound broker.memory.calls := by
    rw [← start]
    split
    · exact ⟨⟨sound.linked.tail, sound.linked.nodup⟩, sound.listed, sound.current⟩
    · exact sound
  suffices sends : ∃ middle packets, Sent middle after packets ∧
      broker.memory.calls ≤ middle.memory.calls ∧
      (middle.clients slot).sender = queue ∧
      replyFrames (packets slot) =
        if slot = context then replyWith (answeredId broker context message) message rc
        else [] by
    obtain ⟨middle, packets, sent, order, same, replies⟩ := sends
    obtain ⟨soundAfter, extended⟩ := sent.extended slot (same ▸ queueSound.mono order)
    exact ⟨soundAfter, packets slot, same ▸ extended, replies⟩
  have onlyOwn {packets : Nat → List Packet}
      (only : ∀ slot, slot ≠ context → packets slot = [])
      (replies : replyFrames (packets context) =
        replyWith (answeredId broker context message) message rc) :
      replyFrames (packets slot) =
        if slot = context then replyWith (answeredId broker context message) message rc
        else [] := by
    split
    · rename_i isOwn
      rw [isOwn, replies]
    · rename_i other
      rw [only slot other]
      rfl
  have plain (notConnect : ¬ AcceptedConnect message) :
      (broker.clients slot).sender = queue := by
    rw [← start, if_neg fun both => notConnect both.1]
  have subscribes {filter : CString} (found : subscribedFilter message = some filter) :
      (broker.clients slot).sender = queue := by
    refine plain fun accepted => ?_
    rw [accepted.noFilter] at found
    cases found
  cases handled with
  | published type sent delivered only replies =>
      refine ⟨_, _, sent, Nat.le_refl _, plain fun accepted => accepted.notPublish type, ?_⟩
      rw [replies, replyWith_publish type, ite_self]
  | @connected _ packets accepted sent only replies =>
      rw [own] at sent
      refine ⟨_, packets, sent, Nat.le_refl _, ?_, onlyOwn only replies⟩
      rw [← start, addClient]
      by_cases isOwn : slot = context
      · subst isOwn
        rw [Broker.modifyClient_self, if_pos ⟨accepted, rfl⟩]
      · rw [Broker.modifyClient_other _ _ isOwn, if_neg fun both => isOwn both.2]
  | @subscribed middle grown _ _ filter found isConnected quiet added sent only replies =>
      refine ⟨_, _, sent, (quiet.memory.trans added.memory).calls, ?_, onlyOwn only replies⟩
      rw [← subscribes found, ← (grownSlot quiet added slot).1]
      by_cases isOwn : slot = context
      · subst isOwn
        rw [Broker.modifyClient_self, setSubscribed]
      · rw [Broker.modifyClient_other _ _ isOwn]
  | @unsubscribed middle grown _ _ filter failure _ found isConnected quiet added failed
      sent only nonzero replies =>
      exact ⟨_, _, sent, (quiet.memory.trans added.memory).calls,
        (grownSlot quiet added slot).1.trans (subscribes found), onlyOwn only replies⟩
  | replied notPublish notConnect notSubscribe sent only replies =>
      exact ⟨_, _, sent, Nat.le_refl _, plain notConnect, onlyOwn only replies⟩

theorem untouched (handled : Handled broker context message after rc)
    (own : (broker.clients context).sock = context) {slot : Nat} (other : slot ≠ context)
    (unsubscribed : (broker.clients slot).isSubscribe = false) :
    (after.clients slot).sender = (broker.clients slot).sender ∧
      (after.clients slot).isSubscribe = false := by
  cases handled with
  | @published _ packets type sent delivered only =>
      have nothing : packets slot = [] := by
        refine only slot fun delivery member same => ?_
        obtain ⟨_, subscribed, _⟩ := mem_publishDeliveries member
        rw [same, unsubscribed] at subscribed
        cases subscribed
      rw [sent.senders, nothing, (sent.clients slot).isSubscribe]
      exact ⟨rfl, unsubscribed⟩
  | connected accepted sent only =>
      rw [sent.senders, only slot other, (sent.clients slot).isSubscribe, own, addClient,
        Broker.modifyClient_other _ _ other]
      exact ⟨rfl, unsubscribed⟩
  | subscribed found isConnected quiet added sent only =>
      obtain ⟨sender, alike⟩ := grownSlot quiet added slot
      rw [sent.senders, only slot other, (sent.clients slot).isSubscribe,
        Broker.modifyClient_other _ _ other, alike.isSubscribe]
      exact ⟨sender, unsubscribed⟩
  | unsubscribed found isConnected quiet added failed sent only nonzero =>
      obtain ⟨sender, alike⟩ := grownSlot quiet added slot
      rw [sent.senders, only slot other, (sent.clients slot).isSubscribe, alike.isSubscribe]
      exact ⟨sender, unsubscribed⟩
  | replied notPublish notConnect notSubscribe sent only =>
      rw [sent.senders, only slot other, (sent.clients slot).isSubscribe]
      exact ⟨rfl, unsubscribed⟩

end Handled

end MuMQ
