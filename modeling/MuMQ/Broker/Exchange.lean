import MuMQ.Broker.Forwarding
import MuMQ.Substree.Ledger

namespace MuMQ

open Data

/-! The broker as its clients see it: connections and a ledger, without tree, queues and
memory. -/

structure Exchange where
  slots : Nat → Conversation
  isSubscribe : Nat → Bool
  ledger : Ledger

namespace Exchange

def start : Exchange := ⟨fun _ => .absent, fun _ => false, .empty⟩

/-- The client ids as `strcmp` reads them. -/
def ids (exchange : Exchange) (slot : Nat) : CString :=
  .ofBuffer (exchange.slots slot).talk.id

/-- The message of a packet that is taken. -/
def message (slot : Nat) (frame : WireFrame) (exchange : Exchange) : Option Message :=
  match (exchange.slots slot).parse frame with
  | some (rc, final) => if rc = .error ∨ rc = .incomplete then none else some final.message
  | none => none

/-- The filter that a packet subscribes. -/
def filter (slot : Nat) (frame : WireFrame) (exchange : Exchange) : Option CString :=
  if (exchange.slots slot).talk.state = .csConnected then
    (exchange.message slot frame).bind subscribedFilter
  else none

/-- The slots after an event. -/
def slotsAfter (event : LoopEvent) (exchange : Exchange) : Nat → Conversation :=
  Function.update exchange.slots event.slot
    ((exchange.slots event.slot).respond event).1

/-- What an event leads to. -/
def after (event : LoopEvent) (exchange : Exchange) : Exchange :=
  let slots := exchange.slotsAfter event
  match event with
  | .packet slot frame =>
      match exchange.filter slot frame with
      | some filter =>
          ⟨slots, Function.update exchange.isSubscribe slot true,
            exchange.ledger.subscribe exchange.ids slot filter⟩
      | none => { exchange with slots }
  | .remove slot =>
      { exchange with slots, isSubscribe := Function.update exchange.isSubscribe slot false }
  | _ => { exchange with slots }

/-- The PUBLISHs that a message leads to on a slot: one for each leaf of it. -/
def forwards (message : Message) (watched : Nat) (exchange : Exchange) : List (List UInt8) :=
  match publishedTopic message with
  | some topic =>
      List.replicate ((exchange.ledger.recipients exchange.isSubscribe topic).count watched)
        (forwardedFrame topic message.publish.content.bytes)
  | none => []

/-- The frames that an event puts into the queue of the slot that is watched. -/
def frames (watched : Nat) (event : LoopEvent) (exchange : Exchange) : List (List UInt8) :=
  let forwarded :=
    match event with
    | .packet slot frame =>
        match exchange.message slot frame with
        | some message => exchange.forwards message watched
        | none => []
    | _ => []
  forwarded ++
    if watched = event.slot then ((exchange.slots event.slot).respond event).2 else []

def respond (watched : Nat) (event : LoopEvent) (exchange : Exchange) :
    Exchange × List (List UInt8) :=
  (exchange.after event, exchange.frames watched event)

end Exchange

/-- The broker stands as the exchange says. -/
structure Mirrors (state : LoopState) (exchange : Exchange) : Prop where
  talkative : Talkative state
  slots : ∀ slot, state.conversation slot = exchange.slots slot
  isSubscribe : ∀ slot, (state.broker.clients slot).isSubscribe = exchange.isSubscribe slot
  planted : Planted exchange.ledger state.broker.subs

theorem Mirrors.start {memory : Memory} (unfailing : memory.Unfailing) :
    Mirrors (.start memory) .start where
  talkative := ⟨.start memory, unfailing⟩
  slots _ := rfl
  isSubscribe _ := rfl
  planted := Planted.start memory

section Step

variable {event : LoopEvent} {before after : LoopState} {exchange : Exchange}

theorem Mirrors.ids (mirrors : Mirrors before exchange) (slot : Nat) :
    exchange.ids slot = (before.broker.clients slot).idString := by
  rw [Exchange.ids, ← mirrors.slots]
  rfl

theorem Mirrors.slotsAfter (mirrors : Mirrors before exchange)
    (stepped : loopStep event before = some after) (slot : Nat) :
    after.conversation slot = exchange.slotsAfter event slot := by
  unfold Exchange.slotsAfter
  by_cases own : slot = event.slot
  · subst own
    have responded := (conversationOf_separate event.slot).own mirrors.talkative stepped
      (decide_eq_true rfl)
    rw [Function.update_self, ← mirrors.slots]
    exact (congrArg Prod.fst responded).symm
  · have unseen := (conversationOf_separate slot).others mirrors.talkative stepped
      (decide_eq_false fun same => own same.symm)
    rw [Function.update_of_ne own, ← mirrors.slots]
    exact unseen.1

theorem Stepped.frames_nothing (stepped : Stepped before event after)
    (unhandled : Unhandled event before) (slot : Nat) : framesEnqueued slot before after = [] := by
  rw [framesEnqueued, addedPackets,
    List.drop_eq_nil_of_le (stepped.length_le unhandled slot)]
  rfl

/-- The PUBLISHs of the broker are those of the exchange. -/
theorem Mirrors.forwards (mirrors : Mirrors before exchange) (message : Message)
    (watched : Nat) :
    forwardedFrames before.broker message watched = exchange.forwards message watched := by
  unfold forwardedFrames Exchange.forwards
  cases publishedTopic message with
  | none => rfl
  | some topic =>
      have flags : (fun slot => (before.broker.clients slot).isSubscribe) =
          exchange.isSubscribe := funext mirrors.isSubscribe
      have recipients := mirrors.planted.subTreeProcess_perm before.broker.clients topic
      rw [flags] at recipients
      simp only [recipients.count_eq]

section Packet

variable {slot : Nat} {frame : WireFrame} {rc : ParserRc} {final : ParseState}

theorem Mirrors.message_rejected (mirrors : Mirrors before exchange)
    (parsed : (before.conversation slot).parse frame = some (rc, final))
    (rejected : rc = .error ∨ rc = .incomplete) : exchange.message slot frame = none := by
  rw [mirrors.slots] at parsed
  simp only [Exchange.message, parsed, if_pos rejected]

theorem Mirrors.message_taken (mirrors : Mirrors before exchange)
    (parsed : (before.conversation slot).parse frame = some (rc, final))
    (taken : ¬ (rc = .error ∨ rc = .incomplete)) :
    exchange.message slot frame = some final.message := by
  rw [mirrors.slots] at parsed
  simp only [Exchange.message, parsed, if_neg taken]

/-- A packet without a subscription leaves the ledger. -/
theorem Mirrors.after_quiet (mirrors : Mirrors before exchange)
    (stepped : loopStep (.packet slot frame) before = some after)
    (nothing : exchange.filter slot frame = none)
    (subs : after.broker.subs = before.broker.subs)
    (flags : ∀ other, (after.broker.clients other).isSubscribe =
      (before.broker.clients other).isSubscribe) :
    Mirrors after (exchange.after (.packet slot frame)) := by
  have slots := mirrors.slotsAfter stepped
  simp only [Exchange.after, nothing]
  exact ⟨(conversationOf_separate slot).keeps mirrors.talkative stepped, slots,
    fun other => (flags other).trans (mirrors.isSubscribe other), subs ▸ mirrors.planted⟩

theorem Mirrors.after_subscribes (mirrors : Mirrors before exchange)
    (stepped : loopStep (.packet slot frame) before = some after) {filter : CString}
    (found : exchange.filter slot frame = some filter) {acknowledged : Prop}
    (subscribing : Subscribing before.broker slot filter after.broker acknowledged)
    (success : acknowledged) : Mirrors after (exchange.after (.packet slot frame)) := by
  have slots := mirrors.slotsAfter stepped
  simp only [Exchange.after, found]
  refine ⟨(conversationOf_separate slot).keeps mirrors.talkative stepped, slots,
    fun other => ?_, ?_⟩
  · by_cases own : other = slot
    · subst own
      exact (subscribing.flag success).trans
        (Function.update_self other true exchange.isSubscribe).symm
    · have same := (subscribing.flags other fun _ => own).trans (mirrors.isSubscribe other)
      exact same.trans (Function.update_of_ne own true exchange.isSubscribe).symm
  · obtain ⟨middle, grown, failure, subs, alike, added, grownSubs, zero⟩ := subscribing.added
    rw [zero.mpr success] at added
    have planted := mirrors.planted
    rw [← subs] at planted
    have ids : (fun other => (middle.clients other).idString) = exchange.ids := by
      funext other
      rw [(alike other).idString, mirrors.ids]
    rw [grownSubs, ← ids]
    exact planted.subscribe added

theorem Mirrors.packet (mirrors : Mirrors before exchange)
    (stepped : loopStep (.packet slot frame) before = some after) (watched : Nat) :
    Mirrors after (exchange.after (.packet slot frame)) ∧
      framesEnqueued watched before after = exchange.frames watched (.packet slot frame) := by
  obtain ⟨isOpen, idle, whole, packetTaken⟩ := loopStep_packet stepped
  cases packetTaken with
  | @rejected rc final parsed rejected =>
      have nothing := mirrors.message_rejected parsed rejected
      have quiet := keepParser_sent before.broker slot final.parser
      have silent := Conversation.hear_rejected parsed rejected
      rw [mirrors.slots] at silent
      constructor
      · apply mirrors.after_quiet stepped
        · rw [Exchange.filter, nothing]
          exact ite_self _
        · rfl
        · exact fun other => (quiet.clients other).isSubscribe
      · rw [framesEnqueued, quiet.addedPackets (mirrors.talkative.sound.senders watched)]
        simp only [Exchange.frames, nothing, Conversation.respond, LoopEvent.slot, silent,
          ite_self, List.map_nil, List.append_nil]
  | @handled rc final middle retCode session parsed taken ran =>
      have message := mirrors.message_taken parsed taken
      have own := mirrors.talkative.sound.sock slot isOpen
      have kept := keepParser_sent middle slot final.parser
      have handled := (handleMqttCommand_handled (parsePacket_shortTopic parsed) ran).andQuiet kept
      constructor
      · rcases handled.tree with ⟨subs, flags, noFilter⟩ | ⟨filter, found, subscribing⟩
        · apply mirrors.after_quiet stepped ?_ subs flags
          rw [Exchange.filter, message, ← mirrors.slots]
          rcases noFilter with none | ⟨_, unconnected⟩
          · rw [Option.bind_some, none]
            exact ite_self _
          · exact if_neg unconnected
        · refine mirrors.after_subscribes stepped ?_ subscribing
            (subscribing.succeeds mirrors.talkative.unfailing)
          rw [Exchange.filter, message, ← mirrors.slots]
          exact (if_pos subscribing.isConnected).trans found
      · have parsedMessage : parsedMessage before.broker slot frame = some final.message := by
          rw [parsedMessage, show parsePacket before.broker slot frame = _ from parsed]
          exact if_neg taken
        have replied := Conversation.hear_taken parsed taken
        have talk : (before.broker.clients slot).talk = (exchange.slots slot).talk :=
          congrArg Conversation.talk (mirrors.slots slot)
        rw [mirrors.slots] at replied
        rw [framesEnqueued_packet mirrors.talkative stepped parsedMessage, handledFrames]
        simp only [Exchange.frames, message, Conversation.respond, LoopEvent.slot, replied,
          mirrors.forwards, talk]

end Packet

theorem respond_silent {conversation : Conversation} (noPacket : ∀ slot frame,
    event ≠ .packet slot frame) : (conversation.respond event).2 = [] := by
  cases event with
  | packet slot frame => exact absurd rfl (noPacket slot frame)
  | accept sock => rfl
  | fail slot => rfl
  | remove slot => rfl
  | flush slot flushEvent =>
      cases flushEvent with
      | begin => rfl
      | take => rfl
      | write sent again => cases again <;> rfl
      | done => rfl

/-- Without a packet nothing is enqueued. -/
theorem Mirrors.frames_silent (stepped : Stepped before event after)
    (noPacket : ∀ slot frame, event ≠ .packet slot frame) (watched : Nat) :
    framesEnqueued watched before after = exchange.frames watched event := by
  rw [stepped.frames_nothing fun slot frame same => absurd same (noPacket slot frame)]
  unfold Exchange.frames
  simp only [respond_silent noPacket, ite_self, List.append_nil]

/-- Every step of the broker is one of the exchange. -/
theorem exchange_simulates (watched : Nat) :
    Simulates loopStep (fun _ before after => framesEnqueued watched before after)
      (Exchange.respond watched) Mirrors := by
  intro event before after exchange mirrors ran
  have stepped := loopStep_stepped ran
  have slots := mirrors.slotsAfter ran
  have talkative := (conversationOf_separate watched).keeps mirrors.talkative ran
  cases event with
  | packet slot frame => exact mirrors.packet ran watched
  | accept sock =>
      refine ⟨?_, Mirrors.frames_silent stepped (fun _ _ => LoopEvent.noConfusion) watched⟩
      cases stepped with
      | accepted free =>
          refine ⟨talkative, slots, fun other => ?_, mirrors.planted⟩
          obtain ⟨_, client⟩ := acceptClient_client before.broker sock other
          rw [client]
          exact mirrors.isSubscribe other
  | fail slot =>
      refine ⟨?_, Mirrors.frames_silent stepped (fun _ _ => LoopEvent.noConfusion) watched⟩
      cases stepped with
      | failed isOpen idle => exact ⟨talkative, slots, mirrors.isSubscribe, mirrors.planted⟩
  | remove slot =>
      refine ⟨?_, Mirrors.frames_silent stepped (fun _ _ => LoopEvent.noConfusion) watched⟩
      cases stepped with
      | removed isOpen closing =>
          refine ⟨talkative, slots, fun other => ?_, mirrors.planted⟩
          by_cases own : other = slot
          · subst own
            have cleaned := congrArg Client.isSubscribe (removeClient_self before.broker other)
            exact cleaned.trans (Function.update_self other false exchange.isSubscribe).symm
          · have same := congrArg Client.isSubscribe (removeClient_other before.broker own)
            have updated := Function.update_of_ne own false exchange.isSubscribe
            exact (same.trans (mirrors.isSubscribe other)).trans updated.symm
  | flush slot flushEvent =>
      refine ⟨?_, Mirrors.frames_silent stepped (fun _ _ => LoopEvent.noConfusion) watched⟩
      cases stepped with
      | @flushed _ _ sender phase isOpen answered outcome =>
          refine ⟨talkative, slots, fun other => ?_, mirrors.planted⟩
          obtain ⟨_, client⟩ :=
            before.broker.modifySender_client slot (fun _ => sender) other
          rw [client]
          exact mirrors.isSubscribe other

/-- The broker refines the exchange: in every run in which no allocation fails, the slots
stand as it says, and the bytes put into the queue of each slot are the frames it lists, in
order. -/
theorem exchange_refines {memory : Memory} (unfailing : memory.Unfailing)
    {events : List LoopEvent} {final : LoopState}
    (ran : run loopStep (.start memory) events = some final) (watched : Nat) :
    let exchanged := responses (Exchange.respond watched) .start events
    (∀ slot, final.conversation slot = exchanged.1.slots slot ∧
      (final.broker.clients slot).isSubscribe = exchanged.1.isSubscribe slot) ∧
    recorded loopStep (fun _ before after => framesEnqueued watched before after)
      (.start memory) events = exchanged.2 := by
  obtain ⟨mirrors, frames⟩ := Simulates.run (exchange_simulates watched) (Mirrors.start unfailing) ran
  exact ⟨fun slot => ⟨mirrors.slots slot, mirrors.isSubscribe slot⟩, frames⟩

/-- A client subscribes `#` and `a`, and gets what another one publishes to `a` twice. -/
def subscribesTwice : List LoopEvent :=
  [.accept 5, .packet 5 (connectFrame 0x61), .packet 5 (subscribeFrame hash),
    .packet 5 (subscribeFrame 0x61), .accept 6, .packet 6 (publishFrame 0x61)]

theorem exchange_refines_subscribesTwice :
    recorded loopStep (fun _ before after => framesEnqueued 5 before after)
        (.start ⟨fun _ => true, fun _ => 0, 0⟩) subscribesTwice =
      [[0x20, 2, 0, 0], [0x90, 3, 0, 1, 0], [0x90, 3, 0, 1, 0],
        [0x30, 5, 0, 1, 0x61, 7, 7], [0x30, 5, 0, 1, 0x61, 7, 7]] := by
  have returns : (run loopStep (.start ⟨fun _ => true, fun _ => 0, 0⟩)
      subscribesTwice).isSome = true := by
    decide +kernel
  obtain ⟨final, ran⟩ := Option.isSome_iff_exists.mp returns
  obtain ⟨_, frames⟩ := exchange_refines (fun _ => rfl) ran 5
  have listed : (responses (Exchange.respond 5) .start subscribesTwice).2 =
      [[0x20, 2, 0, 0], [0x90, 3, 0, 1, 0], [0x90, 3, 0, 1, 0],
        [0x30, 5, 0, 1, 0x61, 7, 7], [0x30, 5, 0, 1, 0x61, 7, 7]] := by
    decide +kernel
  exact frames.trans listed

end Step

end MuMQ
