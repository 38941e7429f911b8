import MuMQ.Broker.Loop

namespace MuMQ

open Data

/-! The packets that are sent when a slot passes from one connection to the next. -/

/-- A `send` offers bytes of a packet that was enqueued for the connection that has
the slot. -/
def SendsOwn (event : LoopEvent) (before : LoopState) : Prop :=
  match event with
  | .flush slot (.write _ _) =>
      ∀ packet, (before.broker.clients slot).sender.sendingCurPacket = some packet →
        packet.address ∈ (before.session slot).enqueued
  | _ => True

/-- A connection is accepted into a slot whose list of packets is empty. -/
def AcceptsDrained (event : LoopEvent) (before : LoopState) : Prop :=
  match event with
  | .accept sock => (before.broker.clients sock).sender.sendingPacket = []
  | _ => True

instance (event : LoopEvent) (before : LoopState) : Decidable (AcceptsDrained event before) :=
  match event with
  | .accept _ => inferInstanceAs (Decidable (_ = _))
  | .packet _ _ => isTrue trivial
  | .fail _ => isTrue trivial
  | .remove _ => isTrue trivial
  | .flush _ _ => isTrue trivial

/-- The packets of a queue are among those enqueued for the connection. -/
def Sender.OwnPackets (sender : Sender) (enqueued : List Address) : Prop :=
  (∀ packet ∈ sender.sendingPacket, packet.address ∈ enqueued) ∧
    ∀ packet, sender.sendingCurPacket = some packet → packet.address ∈ enqueued

theorem Sender.OwnPackets.flush {sender after : Sender} {enqueued : List Address}
    (own : sender.OwnPackets enqueued) {event : FlushEvent} {phase phase' : Phase}
    (outcome : FlushOutcome sender event phase after phase') : after.OwnPackets enqueued := by
  cases outcome with
  | skipped few => exact own
  | began several => exact own
  | ended spent => exact own
  | @unlinked numSending packet rest more list free =>
      have listed := own.1
      rw [list] at listed
      obtain ⟨first, others⟩ := List.forall_mem_cons.mp listed
      refine ⟨others, fun other current => ?_⟩
      cases current
      exact first
  | kept more pending => exact own
  | blocked current unwritten nothing => exact own
  | @wrote packet sent _ _ current unwritten something =>
      refine ⟨own.1, fun other advanced => ?_⟩
      cases advanced
      exact own.2 packet current
  | finished current written => exact ⟨own.1, fun _ none => by cases none⟩

/-- Every connection's queue holds packets of its own. -/
structure HandoverInvariant (state : LoopState) : Prop where
  sound : state.Sound
  own : ∀ slot, state.IsOpen slot →
    (state.broker.clients slot).sender.OwnPackets (state.session slot).enqueued

theorem HandoverInvariant.start (memory : Memory) :
    HandoverInvariant (LoopState.start memory) :=
  ⟨LoopState.Sound.start memory, fun _ isOpen => by cases isOpen⟩

theorem HandoverInvariant.step {event : LoopEvent} {before after : LoopState}
    (invariant : HandoverInvariant before) (stepped : Stepped before event after)
    (drained : AcceptsDrained event before) : HandoverInvariant after := by
  refine ⟨invariant.sound.step stepped, fun slot isOpen => ?_⟩
  cases stepped with
  | @accepted sock free =>
      by_cases own : slot = sock
      · subst own
        have vacant := invariant.sound.vacant slot free
        have empty : (before.broker.clients slot).sender.sendingPacket = [] := drained
        simp only [acceptClient_self, Sender.OwnPackets, empty, vacant.current]
        exact ⟨List.forall_mem_nil _, fun _ none => by cases none⟩
      · simp only [acceptClient_other _ own, Function.update_of_ne own]
        exact invariant.own slot ((LoopState.isOpen_acceptClient.mp isOpen).resolve_right own)
  | @unparsed context frame parser contextOpen idle rejected =>
      have sender := (keepParser_sent before.broker context parser).senders slot
      exact sender.symm ▸ invariant.own slot isOpen
  | @handled context frame message broker retCode contextOpen idle parsed handled =>
      obtain ⟨listed, current⟩ := invariant.own slot (handled.mem_contextsByPtr.mp isOpen)
      obtain ⟨list, sameCurrent, _⟩ := handled.addedPackets
        (invariant.sound.sock context contextOpen) (invariant.sound.senders slot)
      simp only [LoopState.sessionsAfter, Sender.OwnPackets, list, sameCurrent,
        List.mem_append]
      refine ⟨fun packet member => ?_, fun packet isCurrent => .inl (current packet isCurrent)⟩
      rcases member with earlier | added
      · exact .inl (listed packet earlier)
      · exact .inr (List.mem_map_of_mem added)
  | failed contextOpen idle => exact invariant.own slot isOpen
  | @removed context contextOpen closing =>
      obtain ⟨own, wasOpen⟩ := invariant.sound.isOpen_removeClient.mp isOpen
      simpa only [removeClient_other _ own] using invariant.own slot wasOpen
  | @flushed context event sender phase contextOpen answered outcome =>
      have queue := invariant.own slot isOpen
      by_cases own : slot = context
      · subst own
        simp only [Broker.modifySender_self]
        exact queue.flush outcome
      · simpa only [Broker.modifySender_other _ _ own] using queue

/-- In a run that accepts every connection into a slot without packets, no packet
of an earlier connection is sent to a later one. -/
theorem sendsOwn_of_acceptsDrained (memory : Memory) {events : List LoopEvent}
    (drained : Along loopStep (fun event before _ => AcceptsDrained event before)
      (.start memory) events) :
    Along loopStep (fun event before _ => SendsOwn event before) (.start memory) events := by
  refine Along.of_invariant (fun event before after invariant stepped drained => ?_)
    (HandoverInvariant.start memory) drained
  have took := loopStep_stepped stepped
  refine ⟨invariant.step took drained, ?_⟩
  cases took with
  | accepted free => trivial
  | unparsed isOpen idle rejected => trivial
  | handled isOpen idle parsed handled => trivial
  | failed isOpen idle => trivial
  | removed isOpen closing => trivial
  | @flushed slot event sender phase isOpen answered outcome =>
      cases event with
      | write sent again => exact (invariant.own slot isOpen).2
      | begin => trivial
      | take => trivial
      | done => trivial

/-- A client connects, its CONNACK is sent, and it disconnects; the slot goes to
another client that connects. -/
def reusedWhenDrained : List LoopEvent :=
  [.accept 5, .packet 5 (connectFrame 0x61), .flush 5 .begin, .flush 5 .take,
    .flush 5 (.write 4 false), .flush 5 .done, .flush 5 .take, .fail 5, .remove 5,
    .accept 5, .packet 5 (connectFrame 0x62), .flush 5 .begin, .flush 5 .take,
    .flush 5 (.write 4 false)]

theorem sendsOwn_of_acceptsDrained_reusedWhenDrained :
    (run loopStep (.start ⟨fun _ => true, fun _ => 0, 0⟩) reusedWhenDrained).isSome = true ∧
      Along loopStep (fun event before _ => SendsOwn event before)
        (.start ⟨fun _ => true, fun _ => 0, 0⟩) reusedWhenDrained := by
  have drained : Along loopStep (fun event before _ => AcceptsDrained event before)
      (.start ⟨fun _ => true, fun _ => 0, 0⟩) reusedWhenDrained := along_of_check
    (fun event before => decide (AcceptsDrained event before))
    (fun _ _ => of_decide_eq_true) (by decide +kernel)
  exact ⟨by decide +kernel, sendsOwn_of_acceptsDrained _ drained⟩

/-- A CONNECT whose id is too long is refused, and the slot goes to a client that
pings. -/
def reusedAfterRefusal : List LoopEvent :=
  [.accept 5,
    .packet 5 ⟨0x10, 36, [0, 4, 0x4d, 0x51, 0x54, 0x54, 4, 2, 0, 60, 0, 24]
      ++ List.replicate 24 0x61⟩,
    .remove 5, .accept 5, .packet 5 ⟨0xc0, 0, []⟩, .flush 5 .begin, .flush 5 .take]

/-- The refusal is sent to the client that pings. -/
theorem sendsOwn_reusedAfterRefusal :
    ∃ before after packet,
      run loopStep (.start ⟨fun _ => true, fun _ => 0, 0⟩) reusedAfterRefusal =
        some before ∧
      loopStep (.flush 5 (.write 4 false)) before = some after ∧
      (before.broker.clients 5).sender.sendingCurPacket = some packet ∧
      packet.sendBuf = [0x20, 2, 0, 2] ∧ packet.address ∉ (before.session 5).enqueued ∧
      ¬ Along loopStep (fun event before _ => SendsOwn event before)
        (.start ⟨fun _ => true, fun _ => 0, 0⟩)
        (reusedAfterRefusal ++ [.flush 5 (.write 4 false)]) := by
  have computed : (run loopStep (.start ⟨fun _ => true, fun _ => 0, 0⟩)
      reusedAfterRefusal).map (fun before =>
        ((before.broker.clients 5).sender.sendingCurPacket, (before.session 5).enqueued,
          (loopStep (.flush 5 (.write 4 false)) before).isSome)) =
      some (some ⟨4, [0x20, 2, 0, 2], 0, 4⟩, [6], true) := by
    decide +kernel
  obtain ⟨before, ran, observed⟩ := Option.map_eq_some_iff.mp computed
  simp only [Prod.mk.injEq] at observed
  obtain ⟨current, enqueued, steps⟩ := observed
  obtain ⟨after, stepped⟩ := Option.isSome_iff_exists.mp steps
  have foreign : (4 : Address) ∉ (before.session 5).enqueued := by
    rw [enqueued]
    decide
  refine ⟨before, after, _, ran, stepped, current, rfl, foreign, fun along => ?_⟩
  exact foreign (along.last ran stepped _ current)

end MuMQ
