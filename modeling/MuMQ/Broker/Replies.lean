import MuMQ.Broker.Loop
import MuMQ.Mqtt.SubscribeParse

namespace MuMQ

open Data

/-! The replies to the requests of a connection. -/

/-- The reply a message is to have. -/
def replyTo (message : Message) (retCode : UInt8) : List (List UInt8) :=
  replyWith message.subscribe.messageId message retCode

/-- The frames other than PUBLISHs that a step enqueues on a slot. -/
def repliesEnqueued (slot : Nat) (before after : LoopState) : List (List UInt8) :=
  replyFrames (addedPackets before.broker after.broker slot)

/-- The reply that a step owes to a slot. -/
def repliesDue (slot : Nat) (event : LoopEvent) (before : LoopState) : List (List UInt8) :=
  match event with
  | .packet context frame =>
      if slot = context then
        match parsedMessage before.broker context frame,
          returnCode before.broker context frame with
        | some message, some retCode => replyTo message retCode
        | _, _ => []
      else []
  | _ => []

/-- Every slot gets the reply it is owed, and no other one. -/
def RepliesToRequests (event : LoopEvent) (before after : LoopState) : Prop :=
  ∀ slot, repliesEnqueued slot before after = repliesDue slot event before

/-- A SUBSCRIBE comes from a connected slot, or has the packet id that the slot had
last. -/
def SubscribesConnected (event : LoopEvent) (before : LoopState) : Prop :=
  match event with
  | .packet context frame =>
      ∀ message ∈ parsedMessage before.broker context frame,
        message.type = mqttTypeSubscribe →
        (before.broker.clients context).state = .csConnected ∨
          (before.broker.clients context).lastMid = message.subscribe.messageId
  | _ => True

instance (event : LoopEvent) (before : LoopState) :
    Decidable (SubscribesConnected event before) :=
  match event with
  | .packet _ _ =>
      inferInstanceAs (Decidable (∀ message ∈ (_ : Option Message), message.type = _ →
        _ = _ ∨ _ = message.subscribe.messageId))
  | .accept _ => isTrue trivial
  | .fail _ => isTrue trivial
  | .remove _ => isTrue trivial
  | .flush _ _ => isTrue trivial

theorem parsedMessage_namesTopic {broker : Broker} {slot : Nat} {frame : WireFrame}
    {message : Message} (parsed : parsedMessage broker slot frame = some message) :
    message.NamesTopic := by
  rw [parsedMessage] at parsed
  split at parsed
  · rename_i rc final returned
    split at parsed
    · cases parsed
    · rename_i completed
      cases parsed
      exact parserLoop_namesTopic (fun _ => .inl rfl) returned completed
  · cases parsed

theorem Message.NamesTopic.filter {message : Message} (names : message.NamesTopic)
    (type : message.type = mqttTypeSubscribe) :
    ∃ filter, subscribedFilter message = some filter := by
  obtain ⟨pair, topics, there⟩ := names type
  refine ⟨CString.ofBuffer pair.name.bytes, ?_⟩
  rw [subscribedFilter, if_pos type, topics, Option.bind_some, if_pos there]

theorem replyWith_answeredId_iff {broker : Broker} {context : Nat} {message : Message}
    (names : message.NamesTopic) (retCode : UInt8) :
    replyWith (answeredId broker context message) message retCode =
        replyTo message retCode ↔
      (message.type = mqttTypeSubscribe →
        (broker.clients context).state = .csConnected ∨
          (broker.clients context).lastMid = message.subscribe.messageId) := by
  by_cases type : message.type = mqttTypeSubscribe
  · obtain ⟨filter, found⟩ := names.filter type
    by_cases isConnected : (broker.clients context).state = .csConnected
    · rw [answeredId_served found isConnected]
      exact iff_of_true rfl fun _ => .inl isConnected
    · rw [answeredId_unserved (.inr ⟨trivial, isConnected⟩), replyTo,
        replyWith_subscribe type, replyWith_subscribe type]
      constructor
      · intro same _
        simp only [List.cons.injEq, and_true, true_and] at same
        exact .inr (bytes_inj same.1 same.2)
      · intro asks
        rw [(asks type).resolve_left isConnected]
  · exact iff_of_true (replyWith_of_ne type _ _ _) fun same => absurd same type

theorem repliesEnqueued_of_list {before after : LoopState} {slot : Nat}
    (shorter : (after.broker.clients slot).sender.sendingPacket.length ≤
      (before.broker.clients slot).sender.sendingPacket.length) :
    repliesEnqueued slot before after = [] := by
  rw [repliesEnqueued, addedPackets, List.drop_eq_nil_of_le shorter]
  rfl

theorem FlushOutcome.length_le {before after : Sender} {event : FlushEvent}
    {phase phase' : Phase} (outcome : FlushOutcome before event phase after phase') :
    after.sendingPacket.length ≤ before.sendingPacket.length := by
  cases outcome with
  | unlinked more list free => simp [list]
  | skipped few => exact Nat.le_refl _
  | began several => exact Nat.le_refl _
  | ended spent => exact Nat.le_refl _
  | kept more pending => exact Nat.le_refl _
  | blocked current unwritten nothing => exact Nat.le_refl _
  | wrote current unwritten something => exact Nat.le_refl _
  | finished current written => exact Nat.le_refl _

/-- No message is handled in a step. -/
def Unhandled (event : LoopEvent) (before : LoopState) : Prop :=
  ∀ context frame, event = .packet context frame →
    parsedMessage before.broker context frame = none

theorem Unhandled.owes_nothing {event : LoopEvent} {before : LoopState}
    (unhandled : Unhandled event before) :
    (∀ slot, repliesDue slot event before = []) ∧ SubscribesConnected event before := by
  match event with
  | .packet context frame =>
      have none := unhandled context frame rfl
      simp [repliesDue, SubscribesConnected, none]
  | .accept _ => exact ⟨fun _ => rfl, trivial⟩
  | .fail _ => exact ⟨fun _ => rfl, trivial⟩
  | .remove _ => exact ⟨fun _ => rfl, trivial⟩
  | .flush _ _ => exact ⟨fun _ => rfl, trivial⟩

theorem Stepped.length_le {event : LoopEvent} {before after : LoopState}
    (stepped : Stepped before event after) (unhandled : Unhandled event before) (slot : Nat) :
    (after.broker.clients slot).sender.sendingPacket.length ≤
      (before.broker.clients slot).sender.sendingPacket.length := by
  cases stepped with
  | @accepted sock free =>
      obtain ⟨_, client⟩ := acceptClient_client before.broker sock slot
      simp only [client, Nat.le_refl]
  | @unparsed context frame parser isOpen idle rejected =>
      have sender := (keepParser_sent before.broker context parser).senders slot
      simp only [sender, List.foldl_nil, Nat.le_refl]
  | @handled context frame message broker retCode isOpen idle parsed handled returned =>
      rw [unhandled context frame rfl] at parsed
      cases parsed
  | failed isOpen idle => exact Nat.le_refl _
  | @removed context isOpen closing =>
      by_cases own : slot = context
      · subst own
        simp only [removeClient_self]
        exact Nat.le_refl _
      · simp only [removeClient_other _ own, Nat.le_refl]
  | @flushed context event sender phase isOpen answered outcome =>
      by_cases own : slot = context
      · subst own
        simp only [Broker.modifySender_self]
        exact outcome.length_le
      · simp only [Broker.modifySender_other _ _ own, Nat.le_refl]

theorem Stepped.enqueues_nothing {event : LoopEvent} {before after : LoopState}
    (stepped : Stepped before event after) (unhandled : Unhandled event before) (slot : Nat) :
    repliesEnqueued slot before after = [] :=
  repliesEnqueued_of_list (stepped.length_le unhandled slot)

/-- A step replies as it should exactly when a SUBSCRIBE in it is from a connected
slot. -/
theorem Stepped.replies_iff_asks {event : LoopEvent} {before after : LoopState}
    (stepped : Stepped before event after) (sound : before.Sound) :
    RepliesToRequests event before after ↔ SubscribesConnected event before := by
  have idle (unhandled : Unhandled event before) :
      RepliesToRequests event before after ↔ SubscribesConnected event before := by
    obtain ⟨nothing, asks⟩ := unhandled.owes_nothing
    exact iff_of_true
      (fun slot => (stepped.enqueues_nothing unhandled slot).trans (nothing slot).symm) asks
  cases stepped with
  | @handled context frame message broker retCode isOpen idle parsed handled returned =>
      have enqueued (slot : Nat) := (handled.addedPackets (sound.sock context isOpen)
        (sound.senders slot)).2.2
      have asks : SubscribesConnected (.packet context frame) before ↔
          replyWith (answeredId before.broker context message) message retCode =
            replyTo message retCode := by
        rw [replyWith_answeredId_iff (parsedMessage_namesTopic parsed)]
        simp only [SubscribesConnected, parsed, Option.mem_some_iff, forall_eq']
      rw [asks]
      simp only [RepliesToRequests, repliesEnqueued, repliesDue, enqueued, parsed, returned]
      constructor
      · intro replies
        simpa only [if_true] using replies context
      · intro same slot
        rw [same]
  | unparsed isOpen phase rejected =>
      refine idle fun _ _ same => ?_
      cases same
      exact rejected
  | accepted free => exact idle fun _ _ same => by cases same
  | failed isOpen phase => exact idle fun _ _ same => by cases same
  | removed isOpen closing => exact idle fun _ _ same => by cases same
  | flushed isOpen answered outcome => exact idle fun _ _ same => by cases same

/-- In a run every request has its own reply, and nothing else is replied, exactly when
the SUBSCRIBEs are from connected slots or have the packet id the slot had last; the
replies on a slot are then those it is owed, in order. -/
theorem repliesToRequests_iff (memory : Memory) (events : List LoopEvent) :
    (Along loopStep RepliesToRequests (.start memory) events ↔
      Along loopStep (fun event before _ => SubscribesConnected event before) (.start memory)
        events) ∧
    (Along loopStep (fun event before _ => SubscribesConnected event before) (.start memory)
        events →
      ∀ slot,
        recorded loopStep (fun _ before after => repliesEnqueued slot before after)
            (.start memory) events =
          recorded loopStep (fun event before _ => repliesDue slot event before)
            (.start memory) events) := by
  have exact : Along loopStep RepliesToRequests (.start memory) events ↔
      Along loopStep (fun event before _ => SubscribesConnected event before) (.start memory)
        events :=
    along_iff_of_invariant LoopState.Sound
      (fun _ _ _ _ sound stepped _ => sound.step (loopStep_stepped stepped))
      (fun _ _ _ _ sound stepped => (loopStep_stepped stepped).replies_iff_asks sound)
      (LoopState.Sound.start memory)
  refine ⟨exact, fun asks slot => ?_⟩
  exact Along.recorded_eq (Along.imp (fun _ _ _ _ replies => replies slot) (exact.mpr asks))

/-- A client connects, pings, and subscribes twice with different packet ids. -/
def asksInOrder : List LoopEvent :=
  [.accept 5, .packet 5 (connectFrame 0x61), .packet 5 ⟨0xc0, 0, []⟩,
    .packet 5 (subscribeFrame 0x61), .packet 5 ⟨0x82, 6, [1, 2, 0, 1, 0x62, 0]⟩]

theorem repliesToRequests_iff_asksInOrder :
    (run loopStep (.start ⟨fun _ => true, fun _ => 0, 0⟩) asksInOrder).isSome = true ∧
      Along loopStep RepliesToRequests (.start ⟨fun _ => true, fun _ => 0, 0⟩) asksInOrder ∧
      recorded loopStep (fun _ before after => repliesEnqueued 5 before after)
          (.start ⟨fun _ => true, fun _ => 0, 0⟩) asksInOrder =
        [[0x20, 2, 0, 0], [0xd0, 0], [0x90, 3, 0, 1, 0], [0x90, 3, 1, 2, 0]] := by
  have asks : Along loopStep (fun event before _ => SubscribesConnected event before)
      (.start ⟨fun _ => true, fun _ => 0, 0⟩) asksInOrder :=
    along_of_check (fun event before => decide (SubscribesConnected event before))
      (fun _ _ => of_decide_eq_true) (by decide +kernel)
  obtain ⟨exact, inOrder⟩ := repliesToRequests_iff ⟨fun _ => true, fun _ => 0, 0⟩ asksInOrder
  refine ⟨by decide +kernel, exact.mpr asks, ?_⟩
  rw [inOrder asks 5]
  decide +kernel

/-- A socket that sent no CONNECT subscribes with packet id 1, and gets a SUBACK for
packet id 0. -/
theorem repliesToRequests_unconnected :
    ∃ before after,
      run loopStep (.start ⟨fun _ => true, fun _ => 0, 0⟩) [.accept 5] = some before ∧
      loopStep (.packet 5 (subscribeFrame 0x61)) before = some after ∧
      repliesEnqueued 5 before after = [[0x90, 3, 0, 0, 0x80]] ∧
      repliesDue 5 (.packet 5 (subscribeFrame 0x61)) before = [[0x90, 3, 0, 1, 0x80]] ∧
      ¬ Along loopStep RepliesToRequests (.start ⟨fun _ => true, fun _ => 0, 0⟩)
        ([.accept 5] ++ [.packet 5 (subscribeFrame 0x61)]) := by
  have computed : (run loopStep (.start ⟨fun _ => true, fun _ => 0, 0⟩) [.accept 5]).map
      (fun before => (repliesDue 5 (.packet 5 (subscribeFrame 0x61)) before,
        (loopStep (.packet 5 (subscribeFrame 0x61)) before).map fun after =>
          repliesEnqueued 5 before after)) =
      some ([[0x90, 3, 0, 1, 0x80]], some [[0x90, 3, 0, 0, 0x80]]) := by
    decide +kernel
  obtain ⟨before, ran, observed⟩ := Option.map_eq_some_iff.mp computed
  obtain ⟨due, replied⟩ := Prod.mk.inj observed
  obtain ⟨after, stepped, enqueued⟩ := Option.map_eq_some_iff.mp replied
  refine ⟨before, after, ran, stepped, enqueued, due, fun along => ?_⟩
  have same := along.last ran stepped 5
  rw [enqueued, due] at same
  exact absurd same (by decide)

end MuMQ
