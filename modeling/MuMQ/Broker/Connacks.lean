import MuMQ.Broker.Replies

namespace MuMQ

open Data

/-! What an accepting CONNACK is worth. -/

/-- A CONNECT that was answered: its client id, and the return code in the CONNACK. -/
structure Connack where
  clientId : List UInt8
  returnCode : UInt8
  deriving DecidableEq

/-- The return code in the last CONNACK among some frames. -/
def connackCode (frames : List (List UInt8)) : Option UInt8 :=
  (frames.filter fun frame => frame.head? = some 0x20).getLast?.bind fun frame => frame[3]?

/-- The CONNACKs put into the queue of each slot since its connection was accepted. -/
def noteConnacks (event : LoopEvent) (before after : LoopState)
    (connacks : Nat → List Connack) : Nat → List Connack :=
  match event with
  | .accept sock => Function.update connacks sock []
  | .packet context frame => fun slot =>
      connacks slot ++
        match parsedMessage before.broker context frame,
          connackCode (replyFrames (addedPackets before.broker after.broker slot)) with
        | some message, some code => [⟨message.connect.clientId.bytes, code⟩]
        | _, _ => []
  | _ => connacks

/-- A broker whose CONNACKs are noted. -/
abbrev connackStep := noting loopStep noteConnacks

/-- It takes the broker's own runs. -/
theorem run_connackStep (start : LoopState) (connacks : Nat → List Connack)
    (events : List LoopEvent) :
    (run connackStep (start, connacks) events).map Prod.fst = run loopStep start events :=
  run_noting noteConnacks start connacks events

/-- A slot whose last CONNACK was accepting is connected under the id of that
CONNECT. -/
def SessionUsable (state : LoopState × (Nat → List Connack)) (slot : Nat) : Prop :=
  state.1.IsOpen slot → ∀ connack ∈ (state.2 slot).getLast?, connack.returnCode = 0 →
    (state.1.broker.clients slot).state = .csConnected ∧
      (state.1.broker.clients slot).id = paddedId connack.clientId

/-- A SUBSCRIBE behind an accepting CONNACK is not refused with 0x80. -/
def SubscribesAdmitted (event : LoopEvent) (state : LoopState × (Nat → List Connack)) : Prop :=
  match event with
  | .packet context frame =>
      (∃ connack ∈ state.2 context, connack.returnCode = 0) →
        ∀ message ∈ parsedMessage state.1.broker context frame,
          message.type = mqttTypeSubscribe →
          returnCode state.1.broker context frame ≠ some 0x80
  | _ => True

/-- A step leaves all sessions usable. -/
def KeepsSessions (event : LoopEvent) (before after : LoopState × (Nat → List Connack)) :
    Prop :=
  (∀ slot, SessionUsable after slot) ∧ SubscribesAdmitted event before

/-- A CONNECT with an empty id finds the slot connected under an id of zeros. -/
def EmptyIdsConnected (event : LoopEvent) (before : LoopState) : Prop :=
  match event with
  | .packet context frame =>
      ∀ message ∈ parsedMessage before.broker context frame,
        message.type = mqttTypeConnect → message.connect.clientId.length = 0 →
        (before.broker.clients context).state = .csConnected ∧
          (before.broker.clients context).id = paddedId []
  | _ => True

instance (event : LoopEvent) (before : LoopState) :
    Decidable (EmptyIdsConnected event before) :=
  match event with
  | .packet _ _ =>
      inferInstanceAs (Decidable (∀ message ∈ (_ : Option Message), message.type = _ →
        message.connect.clientId.length = _ → _ ∧ _))
  | .accept _ => isTrue trivial
  | .fail _ => isTrue trivial
  | .remove _ => isTrue trivial
  | .flush _ _ => isTrue trivial

theorem connackCode_replyWith (messageId : UInt16) (message : Message) (retCode : UInt8) :
    connackCode (replyWith messageId message retCode) =
      if message.type = mqttTypeConnect then some retCode else none := by
  unfold replyWith
  split
  · rfl
  · split
    · rfl
    · split <;> rfl

/-- The CONNACKs of a slot, and what it is now. -/
structure SlotUsable (client : Client) (connacks : List Connack) : Prop where
  usable : ∀ connack ∈ connacks.getLast?, connack.returnCode = 0 →
    client.state = .csConnected ∧ client.id = paddedId connack.clientId
  accepted : (∃ connack ∈ connacks, connack.returnCode = 0) → client.state = .csConnected

theorem SlotUsable.fresh (client : Client) : SlotUsable client [] where
  usable connack member := by cases member
  accepted := by
    rintro ⟨connack, member, _⟩
    cases member

theorem SlotUsable.alike {before after : Client} {connacks : List Connack}
    (slotUsable : SlotUsable before connacks) (state : after.state = before.state)
    (id : after.id = before.id) : SlotUsable after connacks where
  usable connack last accepting := by
    rw [state, id]
    exact slotUsable.usable connack last accepting
  accepted accepting := state.trans (slotUsable.accepted accepting)

/-- What the CONNACKs say is so on every slot that has a connection. -/
structure ConnackInvariant (state : LoopState × (Nat → List Connack)) : Prop where
  sound : state.1.Sound
  slots : ∀ slot, state.1.IsOpen slot →
    SlotUsable (state.1.broker.clients slot) (state.2 slot)

section Handling

variable {before : LoopState} {context : Nat} {frame : WireFrame} {message : Message}
  {after : Broker} {retCode : UInt8}

theorem noteConnacks_handled (handled : Handled before.broker context message after retCode)
    (sound : before.Sound) (isOpen : before.IsOpen context)
    (parsed : parsedMessage before.broker context frame = some message) {state : LoopState}
    (broker : state.broker = after) (connacks : Nat → List Connack) (slot : Nat) :
    noteConnacks (.packet context frame) before state connacks slot =
      connacks slot ++
        if slot = context ∧ message.type = mqttTypeConnect then
          [⟨message.connect.clientId.bytes, retCode⟩]
        else [] := by
  obtain ⟨_, _, replies⟩ := handled.addedPackets (sound.sock context isOpen)
    (sound.senders slot)
  simp only [noteConnacks, parsed, broker, replies]
  by_cases own : slot = context
  · by_cases connect : message.type = mqttTypeConnect
    · simp only [if_pos own, connackCode_replyWith, if_pos connect, if_pos (And.intro own connect)]
    · simp only [if_pos own, connackCode_replyWith, if_neg connect,
        if_neg fun both : slot = context ∧ _ => connect both.2]
  · simp only [if_neg own, if_neg fun both : slot = context ∧ _ => own both.1]
    rfl

theorem empty_of_not_pos {length : UInt32} (absent : ¬ length > 0) : length = 0 := by
  apply UInt32.toNat_inj.mp
  have bounded := UInt32.not_lt.mp absent
  rw [UInt32.le_iff_toNat_le, UInt32.toNat_zero] at bounded
  rw [UInt32.toNat_zero]
  omega

theorem bytes_of_empty {buffer : MqttBuffer} (empty : buffer.length = 0) :
    buffer.bytes = [] := by
  rw [MqttBuffer.bytes, empty]
  rfl

/-- A CONNECT that is answered with 0 is taken, or has an empty id. -/
theorem Handled.answered (handled : Handled before.broker context message after retCode)
    (own : (before.broker.clients context).sock = context)
    (connect : message.type = mqttTypeConnect)
    (empty : message.connect.clientId.length = 0 →
      (before.broker.clients context).state = .csConnected ∧
        (before.broker.clients context).id = paddedId [])
    (zero : retCode = 0) :
    (after.clients context).state = .csConnected ∧
      (after.clients context).id = paddedId message.connect.clientId.bytes := by
  have identity := handled.identity own context
  have code := handled.connackCode connect
  rw [zero] at code
  split at code
  · exact absurd code (by decide)
  · rename_i short
    by_cases present : message.connect.clientId.length > 0
    · rw [if_pos ⟨⟨connect, present, short⟩, rfl⟩] at identity
      exact Prod.mk.inj identity
    · have none := empty_of_not_pos present
      obtain ⟨isConnected, zeros⟩ := empty none
      rw [if_neg fun accepted => present accepted.1.2.1] at identity
      obtain ⟨state, id⟩ := Prod.mk.inj identity
      rw [bytes_of_empty none]
      exact ⟨state.trans isConnected, id.trans zeros⟩

theorem SlotUsable.handled (handled : Handled before.broker context message after retCode)
    (own : (before.broker.clients context).sock = context) {connacks : List Connack}
    (slotUsable : SlotUsable (before.broker.clients context) connacks)
    (empty : message.type = mqttTypeConnect → message.connect.clientId.length = 0 →
      (before.broker.clients context).state = .csConnected ∧
        (before.broker.clients context).id = paddedId []) :
    SlotUsable (after.clients context)
      (connacks ++ if message.type = mqttTypeConnect then
        [⟨message.connect.clientId.bytes, retCode⟩] else []) := by
  have identity := handled.identity own context
  by_cases connect : message.type = mqttTypeConnect
  · rw [if_pos connect]
    have answered := handled.answered own connect (empty connect)
    refine ⟨fun connack last accepting => ?_, ?_⟩
    · rw [List.getLast?_concat, Option.mem_some_iff] at last
      subst last
      exact answered accepting
    · rintro ⟨connack, member, accepting⟩
      rcases List.mem_append.mp member with earlier | new
      · have isConnected := slotUsable.accepted ⟨connack, earlier, accepting⟩
        split at identity
        · exact (Prod.mk.inj identity).1
        · exact (Prod.mk.inj identity).1.trans isConnected
      · rw [List.mem_singleton] at new
        subst new
        exact (answered accepting).1
  · rw [if_neg connect, List.append_nil]
    rw [if_neg fun accepted => connect accepted.1.1] at identity
    obtain ⟨state, id⟩ := Prod.mk.inj identity
    exact slotUsable.alike state id

end Handling

namespace ConnackInvariant

variable {event : LoopEvent} {before after : LoopState × (Nat → List Connack)}

theorem start (memory : Memory) : ConnackInvariant (.start memory, fun _ => []) where
  sound := LoopState.Sound.start memory
  slots slot isOpen := by cases isOpen

theorem step (invariant : ConnackInvariant before) (stepped : Stepped before.1 event after.1)
    (noted : noteConnacks event before.1 after.1 before.2 = after.2)
    (empty : EmptyIdsConnected event before.1) : ConnackInvariant after := by
  refine ⟨invariant.sound.step stepped, fun slot isOpen => ?_⟩
  rw [← noted]
  obtain ⟨state, connacks⟩ := after
  simp only at stepped isOpen noted
  cases stepped with
  | @accepted sock free =>
      by_cases own : slot = sock
      · subst own
        simp only [noteConnacks, Function.update_self]
        exact .fresh _
      · simp only [noteConnacks, Function.update_of_ne own, acceptClient_other _ own]
        exact invariant.slots slot ((LoopState.isOpen_acceptClient.mp isOpen).resolve_right own)
  | @unparsed context frame parser contextOpen idle rejected =>
      have alike := (keepParser_sent before.1.broker context parser).clients slot
      simp only [noteConnacks, rejected, List.append_nil]
      exact (invariant.slots slot isOpen).alike alike.state alike.id
  | @handled context frame message broker retCode contextOpen idle parsed handled returned =>
      have wasOpen := handled.mem_contextsByPtr.mp isOpen
      have own := invariant.sound.sock context contextOpen
      rw [noteConnacks_handled handled invariant.sound contextOpen parsed rfl]
      by_cases isOwn : slot = context
      · subst isOwn
        simp only [true_and]
        exact (invariant.slots slot wasOpen).handled handled own
          (empty message parsed)
      · rw [if_neg fun both : slot = context ∧ _ => isOwn both.1, List.append_nil]
        have identity := handled.identity own slot
        rw [if_neg fun both => isOwn both.2] at identity
        obtain ⟨state, id⟩ := Prod.mk.inj identity
        exact (invariant.slots slot wasOpen).alike state id
  | failed contextOpen idle => exact invariant.slots slot isOpen
  | @removed context contextOpen closing =>
      obtain ⟨own, wasOpen⟩ := invariant.sound.isOpen_removeClient.mp isOpen
      simp only [noteConnacks, removeClient_other _ own]
      exact invariant.slots slot wasOpen
  | @flushed context event sender phase contextOpen answered outcome =>
      obtain ⟨_, client⟩ := before.1.broker.modifySender_client context (fun _ => sender) slot
      simp only [noteConnacks, client]
      exact (invariant.slots slot isOpen).alike rfl rfl

theorem subscribesAdmitted (invariant : ConnackInvariant before)
    (stepped : Stepped before.1 event after.1) : SubscribesAdmitted event before := by
  obtain ⟨state, connacks⟩ := after
  simp only at stepped
  match event, stepped with
  | .packet context frame, stepped =>
      intro accepting message parsed type
      have parsed : parsedMessage before.1.broker context frame = some message := parsed
      obtain ⟨retCode, handled, returned, isOpen⟩ := stepped.handled_of_parsed parsed
      obtain ⟨filter, found⟩ := (parsedMessage_namesTopic parsed).filter type
      rw [returned]
      intro refused
      exact handled.admitted found ((invariant.slots context isOpen).accepted accepting)
        (Option.some.inj refused)
  | .accept _, _ => trivial
  | .fail _, _ => trivial
  | .remove _, _ => trivial
  | .flush _ _, _ => trivial

/-- An empty id that is accepted on a slot without a session leaves it unusable. -/
theorem emptyIdsConnected (invariant : ConnackInvariant before)
    (stepped : Stepped before.1 event after.1)
    (noted : noteConnacks event before.1 after.1 before.2 = after.2)
    (usable : ∀ slot, SessionUsable after slot) : EmptyIdsConnected event before.1 := by
  obtain ⟨state, connacks⟩ := after
  simp only at stepped noted
  match event, stepped with
  | .packet context frame, stepped =>
      intro message parsed connect none
      have parsed : parsedMessage before.1.broker context frame = some message := parsed
      obtain ⟨retCode, handled, _, isOpen⟩ := stepped.handled_of_parsed parsed
      have own := invariant.sound.sock context isOpen
      have zero : retCode = 0 := by
        rw [handled.connackCode connect, none]
        rfl
      have last := congrFun noted context
      rw [noteConnacks_handled handled invariant.sound isOpen parsed rfl,
        if_pos (⟨rfl, connect⟩ : context = context ∧ _)] at last
      have usable := usable context (handled.mem_contextsByPtr.mpr isOpen)
        ⟨message.connect.clientId.bytes, retCode⟩ (by simp [← last]) zero
      have identity := handled.identity own context
      rw [if_neg fun both => absurd both.1.2.1 (by rw [none]; decide)] at identity
      obtain ⟨sameState, sameId⟩ := Prod.mk.inj identity
      rw [bytes_of_empty none] at usable
      exact ⟨sameState.symm.trans usable.1, sameId.symm.trans usable.2⟩
  | .accept _, _ => trivial
  | .fail _, _ => trivial
  | .remove _, _ => trivial
  | .flush _ _, _ => trivial

end ConnackInvariant

/-- In every state of a run an accepting CONNACK means a connected slot under the id of
its CONNECT, and no SUBSCRIBE behind one is refused, exactly when CONNECTs with an empty
id come only on slots that are connected under an id of zeros. -/
theorem keepsSessions_iff (memory : Memory) (events : List LoopEvent) :
    Along connackStep KeepsSessions (.start memory, fun _ => []) events ↔
      Along connackStep (fun event before _ => EmptyIdsConnected event before.1)
        (.start memory, fun _ => []) events := by
  refine along_iff_of_invariant ConnackInvariant
    (fun event _ before after invariant stepped empty => ?_)
    (fun event _ before after invariant stepped => ?_) (.start memory)
  · obtain ⟨stepped, noted⟩ := noting_eq_some.mp stepped
    exact invariant.step (loopStep_stepped stepped) noted empty
  · obtain ⟨stepped, noted⟩ := noting_eq_some.mp stepped
    have took := loopStep_stepped stepped
    constructor
    · exact fun keeps => invariant.emptyIdsConnected took noted keeps.1
    · intro empty
      have kept := invariant.step took noted empty
      exact ⟨fun slot isOpen => (kept.slots slot isOpen).usable,
        invariant.subscribesAdmitted took⟩

/-- A client connects and subscribes, and does so again under another id. -/
def connectsAgain : List LoopEvent :=
  [.accept 5, .packet 5 (connectFrame 0x61), .packet 5 (subscribeFrame 0x61),
    .packet 5 (connectFrame 0x62), .packet 5 (subscribeFrame 0x62)]

theorem keepsSessions_iff_connectsAgain :
    (run connackStep (.start ⟨fun _ => true, fun _ => 0, 0⟩, fun _ => [])
        connectsAgain).isSome = true ∧
      Along connackStep KeepsSessions (.start ⟨fun _ => true, fun _ => 0, 0⟩, fun _ => [])
        connectsAgain := by
  have checked : checkAlong connackStep
      (fun event before => decide (EmptyIdsConnected event before.1))
      (.start ⟨fun _ => true, fun _ => 0, 0⟩, fun _ => []) connectsAgain = true := by
    decide +kernel
  have empty := along_of_check _ (fun _ _ => of_decide_eq_true) checked
  exact ⟨by decide +kernel, (keepsSessions_iff _ connectsAgain).mpr empty⟩

/-- A CONNECT with an empty id. -/
def emptyIdFrame : WireFrame :=
  ⟨0x10, 12, [0, 4, 0x4d, 0x51, 0x54, 0x54, 4, 2, 0, 60, 0, 0]⟩

/-- It is answered with code 0, and the slot is not connected. -/
theorem keepsSessions_emptyId :
    ∃ final,
      run connackStep (.start ⟨fun _ => true, fun _ => 0, 0⟩, fun _ => [])
        [.accept 5, .packet 5 emptyIdFrame] = some final ∧
      final.1.IsOpen 5 ∧ final.2 5 = [⟨[], 0⟩] ∧
      (final.1.broker.clients 5).state = .csNew ∧
      returnCode final.1.broker 5 (subscribeFrame 0x61) = some 0x80 ∧
      ¬ Along connackStep KeepsSessions
        (.start ⟨fun _ => true, fun _ => 0, 0⟩, fun _ => [])
        [.accept 5, .packet 5 emptyIdFrame] := by
  have computed : (run connackStep (.start ⟨fun _ => true, fun _ => 0, 0⟩, fun _ => [])
      [.accept 5, .packet 5 emptyIdFrame]).map
      (fun final => (decide (final.1.IsOpen 5), final.2 5, (final.1.broker.clients 5).state,
        returnCode final.1.broker 5 (subscribeFrame 0x61))) =
      some (true, [⟨[], 0⟩], .csNew, some 0x80) := by
    decide +kernel
  obtain ⟨final, ran, observed⟩ := Option.map_eq_some_iff.mp computed
  simp only [Prod.mk.injEq, decide_eq_true_eq] at observed
  obtain ⟨isOpen, connacks, fresh, refused⟩ := observed
  refine ⟨final, ran, isOpen, connacks, fresh, refused, fun along => ?_⟩
  have usable : ∀ slot, SessionUsable final slot :=
    Along.final (fun state => ∀ slot, SessionUsable state slot)
      (Along.imp (fun _ _ _ _ keeps => keeps.1) along) (fun _ isOpen => by cases isOpen) ran
  have connected := (usable 5 isOpen ⟨[], 0⟩ (by rw [connacks]; rfl) rfl).1
  rw [fresh] at connected
  cases connected

end MuMQ
