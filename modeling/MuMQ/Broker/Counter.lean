import MuMQ.Broker.Loop
import MuMQ.Broker.Stream

namespace MuMQ

open Data

/-! The counter `num_sending_pack` of one slot, over whole runs. -/

/-- The packets of a queue that are not finished yet. -/
def Sender.pendingPackets (sender : Sender) : Int :=
  sender.sendingPacket.length + if sender.sendingCurPacket.isSome then 1 else 0

/-- The tail pointer points to the last packet of the list, or is `NULL` with it,
and the counter counts the pending packets. -/
structure Sender.Counted (sender : Sender) : Prop where
  tail : sender.sendingPacketTail = sender.sendingPacket.getLast?.map Packet.address
  count : sender.numSendingPack = sender.pendingPackets

/-- In the middle of an iteration of the flush loop. -/
def Phase.isWriting : Phase → Bool
  | .writing _ => true
  | _ => false

/-- The queue of the connection in a slot is as the counter says, between two
iterations of the flush loop. -/
def CounterRight (slot : Nat) (state : LoopState) : Prop :=
  state.IsOpen slot → (state.phase slot).isWriting = false →
    (state.broker.clients slot).sender.Counted

/-- A packet is a CONNECT with an id that the broker takes. -/
def acceptsConnect (broker : Broker) (slot : Nat) (frame : WireFrame) : Bool :=
  match parsedMessage broker slot frame with
  | some message => decide (AcceptedConnect message)
  | none => false

/-- Nothing is to be sent. -/
def Sender.Drained (sender : Sender) : Prop :=
  sender.sendingPacket = [] ∧ sender.sendingCurPacket = none

instance (sender : Sender) : Decidable sender.Drained :=
  inferInstanceAs (Decidable (_ ∧ _))

/-- The steps after which the counter stays right: a slot is accepted or sent a
CONNECT only when its queue is empty, and no `send` returns 0. -/
def KeepsCounter (slot : Nat) (event : LoopEvent) (before : LoopState) : Prop :=
  match event with
  | .accept sock =>
      sock = slot → (before.broker.clients slot).sender.sendingPacket = []
  | .packet context frame =>
      context = slot → acceptsConnect before.broker slot frame = true →
        (before.broker.clients slot).sender.Drained
  | .flush context (.write sent _) => context = slot → sent ≠ 0
  | _ => True

instance (slot : Nat) (event : LoopEvent) (before : LoopState) :
    Decidable (KeepsCounter slot event before) :=
  match event with
  | .accept _ => inferInstanceAs (Decidable (_ = _ → _ = _))
  | .packet _ _ => inferInstanceAs (Decidable (_ = _ → _ = _ → Sender.Drained _))
  | .flush _ (.write _ _) => inferInstanceAs (Decidable (_ = _ → _ ≠ _))
  | .fail _ => isTrue trivial
  | .remove _ => isTrue trivial
  | .flush _ .begin => isTrue trivial
  | .flush _ .take => isTrue trivial
  | .flush _ .done => isTrue trivial

/-- The counter of a queue at a point of its thread. -/
def CountAt (sender : Sender) (phase : Phase) : Prop :=
  sender.numSendingPack = sender.pendingPackets - if phase.isWriting then 1 else 0

/-- What the counter is at any point. -/
structure CounterInvariant (slot : Nat) (state : LoopState) : Prop where
  sound : state.Sound
  count : state.IsOpen slot → CountAt (state.broker.clients slot).sender (state.phase slot)

theorem CounterInvariant.right {slot : Nat} {state : LoopState}
    (invariant : CounterInvariant slot state) : CounterRight slot state := by
  intro isOpen between
  have count := invariant.count isOpen
  rw [CountAt, between] at count
  exact ⟨(invariant.sound.senders slot).linked.tail, by simpa using count⟩

theorem Sender.drained_iff (sender : Sender) :
    sender.Drained ↔ sender.pendingPackets = 0 := by
  unfold Drained pendingPackets
  rw [← List.length_eq_zero_iff]
  cases sender.sendingCurPacket with
  | none => simp
  | some packet =>
      simp
      omega

theorem Sender.Extended.pendingPackets {before after : Sender} {packets : List Packet}
    (extended : before.Extended packets after) :
    after.pendingPackets = before.pendingPackets + packets.length := by
  unfold Sender.pendingPackets
  rw [extended.list, extended.current, List.length_append]
  push_cast
  omega

/-- An allowed answer of `send` is 0 in the variable `wlen` only when it is 0. -/
theorem ofInt_le_zero_iff {sender : Sender} {sent : Int} {again : Bool} {packet : Packet}
    (current : sender.sendingCurPacket = some packet)
    (answered : sendAnswers sender (.write sent again) = true) :
    UInt32.ofInt sent ≤ 0 ↔ sent = 0 := by
  simp only [sendAnswers, current, decide_eq_true_eq] at answered
  constructor
  · intro nothing
    by_contra nonzero
    by_cases minusOne : sent = -1
    · subst minusOne
      exact absurd nothing (by decide)
    · have bounded := (packet.wlen - packet.wcur).toNat_lt
      have zero := UInt32.le_iff_toNat_le.mp nothing
      rw [toNat_ofInt (by omega) (by omega), UInt32.toNat_zero] at zero
      omega
  · rintro rfl
    decide

/-- A flush step keeps the counter unless it leaves the loop because nothing was
written. -/
theorem FlushOutcome.countAt {before after : Sender} {event : FlushEvent}
    {phase phase' : Phase} (outcome : FlushOutcome before event phase after phase')
    (counted : CountAt before phase)
    (taken : ∀ sent again, event = .write sent again → ¬ UInt32.ofInt sent ≤ 0) :
    CountAt after phase' := by
  cases outcome with
  | skipped few => exact counted
  | began several => exact counted
  | ended spent => exact counted
  | unlinked more list free =>
      simp only [CountAt, Sender.pendingPackets, Phase.isWriting, list, free,
        List.length_cons, Option.isSome_none, Option.isSome_some] at counted ⊢
      push_cast at counted
      simp at counted ⊢
      omega
  | kept more pending =>
      simp only [CountAt, Sender.pendingPackets, Phase.isWriting] at counted ⊢
      simp at counted ⊢
      omega
  | blocked current unwritten nothing => exact absurd nothing (taken _ _ rfl)
  | wrote current unwritten something =>
      simpa [CountAt, Sender.pendingPackets, current] using counted
  | finished current written =>
      simp only [CountAt, Sender.pendingPackets, Phase.isWriting, current] at counted ⊢
      simp at counted ⊢
      omega

/-- The `EAGAIN` exit leaves the counter one short. -/
theorem FlushOutcome.not_countAt {before after : Sender} {sent : Int} {phase phase' : Phase}
    (outcome : FlushOutcome before (.write sent true) phase after phase')
    (counted : CountAt before phase) (nothing : UInt32.ofInt sent ≤ 0) :
    phase'.isWriting = false ∧ after.numSendingPack ≠ after.pendingPackets := by
  cases outcome with
  | blocked current unwritten _ =>
      refine ⟨rfl, ?_⟩
      unfold CountAt Phase.isWriting at counted
      simp only [if_true] at counted
      omega
  | wrote current unwritten something => exact absurd nothing something

/-- A handled message adds as much to the counter as to the queue, but an accepted
CONNECT sets the counter to 0 before. -/
theorem handled_counter {broker after : Broker} {context slot : Nat} {message : Message}
    {rc : UInt8} (handled : Handled broker context message after rc)
    (own : (broker.clients context).sock = context)
    (sound : (broker.clients slot).sender.Sound broker.memory.calls) :
    ∃ more : Nat,
      (after.clients slot).sender.pendingPackets =
          (broker.clients slot).sender.pendingPackets + more ∧
        (after.clients slot).sender.numSendingPack =
          (if AcceptedConnect message ∧ slot = context then 0
            else (broker.clients slot).sender.numSendingPack) + more := by
  obtain ⟨_, packets, extended, _⟩ := handled.queue own sound
  have pending := extended.pendingPackets
  have count := extended.count
  split at count
  · rename_i connects
    rw [if_pos connects] at pending
    rw [if_pos connects]
    exact ⟨packets.length, pending, count⟩
  · rename_i other
    rw [if_neg other] at pending
    rw [if_neg other]
    exact ⟨packets.length, pending, count⟩

theorem isWriting_afterPacket {phase : Nat → Phase} {context : Nat} (retCode : UInt8)
    (idle : phase context = .idle) (slot : Nat) :
    ((if retCode = 0 then phase else Function.update phase context .closing) slot).isWriting =
      (phase slot).isWriting := by
  split
  · rfl
  · by_cases own : slot = context
    · rw [own, Function.update_self, idle]
      rfl
    · rw [Function.update_of_ne own]

namespace CounterInvariant

variable {slot : Nat} {event : LoopEvent} {before after : LoopState}

theorem step (invariant : CounterInvariant slot before)
    (stepped : Stepped before event after) (keeps : KeepsCounter slot event before) :
    CounterInvariant slot after := by
  refine ⟨invariant.sound.step stepped, fun isOpen => ?_⟩
  cases stepped with
  | @accepted sock free =>
      by_cases own : slot = sock
      · subst own
        have vacant := invariant.sound.vacant slot free
        have empty := keeps rfl
        simp only [acceptClient_self]
        simp [CountAt, Sender.pendingPackets, vacant.count, vacant.current, empty,
          vacant.idle, Phase.isWriting]
      · simp only [acceptClient_other _ own]
        exact invariant.count ((LoopState.isOpen_acceptClient.mp isOpen).resolve_right own)
  | @unparsed context frame parser contextOpen idle rejected =>
      have count := invariant.count isOpen
      have sender := (keepParser_sent before.broker context parser).senders slot
      simp only [List.foldl_nil] at sender
      simp only [sender]
      by_cases own : slot = context
      · subst own
        simp only [Function.update_self]
        rwa [idle] at count
      · simpa only [Function.update_of_ne own] using count
  | @handled context frame message broker retCode contextOpen idle parsed handled =>
      have count := invariant.count (handled.mem_contextsByPtr.mp isOpen)
      obtain ⟨more, pending, counter⟩ := handled_counter handled
        (invariant.sound.sock context contextOpen) (invariant.sound.senders slot)
      have phase := isWriting_afterPacket retCode idle slot
      simp only [CountAt, phase, pending, counter] at count ⊢
      split
      · rename_i connects
        obtain ⟨accepted, rfl⟩ := connects
        have accepts : acceptsConnect before.broker slot frame = true := by
          simp [acceptsConnect, parsed, accepted]
        rw [(Sender.drained_iff _).mp (keeps rfl accepts), idle]
        simp [Phase.isWriting]
      · rw [count]
        omega
  | @failed context contextOpen idle =>
      have count := invariant.count isOpen
      by_cases own : slot = context
      · subst own
        simp only [Function.update_self]
        rwa [idle] at count
      · simpa only [Function.update_of_ne own] using count
  | @removed context contextOpen closing =>
      obtain ⟨own, wasOpen⟩ := invariant.sound.isOpen_removeClient.mp isOpen
      simpa only [removeClient_other _ own, Function.update_of_ne own] using
        invariant.count wasOpen
  | @flushed context event sender phase contextOpen answered outcome =>
      have count := invariant.count isOpen
      by_cases own : slot = context
      · subst own
        simp only [Broker.modifySender_self, Function.update_self]
        refine outcome.countAt count fun sent again isWrite nothing => ?_
        subst isWrite
        generalize before.phase slot = stood at outcome
        cases outcome with
        | blocked current unwritten _ =>
            exact keeps rfl ((ofInt_le_zero_iff current answered).mp nothing)
        | wrote current unwritten something => exact something nothing
      · simpa only [Broker.modifySender_other _ _ own, Function.update_of_ne own] using count

/-- A step that does not keep the counter makes it wrong at once. -/
theorem keeps_of_right (invariant : CounterInvariant slot before)
    (stepped : Stepped before event after)
    (uncritical : event ≠ .flush slot (.write 0 false)) (right : CounterRight slot after) :
    KeepsCounter slot event before := by
  cases stepped with
  | @accepted sock free =>
      intro own
      subst own
      have vacant := invariant.sound.vacant sock free
      have counted := (right (LoopState.isOpen_acceptClient.mpr (.inr rfl)) (by
        simp only [vacant.idle]
        rfl)).count
      simp only [acceptClient_self] at counted
      rw [vacant.count] at counted
      exact ((Sender.drained_iff _).mpr counted.symm).1
  | @unparsed context frame parser contextOpen idle rejected =>
      intro own accepts
      subst own
      simp [acceptsConnect, rejected] at accepts
  | @handled context frame message broker retCode contextOpen idle parsed handled =>
      intro own accepts
      subst own
      have accepted : AcceptedConnect message := by
        simpa [acceptsConnect, parsed] using accepts
      obtain ⟨more, pending, counter⟩ := handled_counter handled
        (invariant.sound.sock context contextOpen) (invariant.sound.senders context)
      have between := isWriting_afterPacket retCode idle context
      rw [idle] at between
      have counted := (right (handled.mem_contextsByPtr.mpr contextOpen) between).count
      simp only at counted
      rw [pending, counter, if_pos ⟨accepted, rfl⟩] at counted
      exact (Sender.drained_iff _).mpr (by omega)
  | failed isOpen idle => trivial
  | removed isOpen closing => trivial
  | @flushed context flushEvent sender phase contextOpen answered outcome =>
      cases flushEvent with
      | write sent again =>
          rintro rfl rfl
          have nothing : UInt32.ofInt 0 ≤ 0 := by decide
          cases again with
          | false => exact uncritical rfl
          | true =>
              obtain ⟨between, short⟩ :=
                outcome.not_countAt (invariant.count contextOpen) nothing
              have counted := (right contextOpen (by
                simp only [Function.update_self]
                exact between)).count
              simp only [Broker.modifySender_self] at counted
              exact short counted
      | begin => trivial
      | take => trivial
      | done => trivial

theorem start (memory : Memory) (slot : Nat) :
    CounterInvariant slot (LoopState.start memory) :=
  ⟨LoopState.Sound.start memory, fun isOpen => by cases isOpen⟩

end CounterInvariant

/-- In a run without write errors on a slot, its counter is right after every step
exactly when the slot is accepted and sent a CONNECT only with an empty queue, and
no `send` to it returns 0. -/
theorem counterRight_iff (memory : Memory) (slot : Nat) {events : List LoopEvent}
    (uncritical : ∀ event ∈ events, event ≠ .flush slot (.write 0 false)) :
    Along loopStep (fun _ _ after => CounterRight slot after) (.start memory) events ↔
      Along loopStep (fun event before _ => KeepsCounter slot event before)
        (.start memory) events := by
  refine along_iff_of_invariant (CounterInvariant slot)
    (fun event _ before after invariant stepped keeps =>
      invariant.step (loopStep_stepped stepped) keeps)
    ?_ (CounterInvariant.start memory slot)
  intro event member before after invariant stepped
  constructor
  · exact invariant.keeps_of_right (loopStep_stepped stepped) (uncritical event member)
  · exact fun keeps => (invariant.step (loopStep_stepped stepped) keeps).right

/-- A client connects, its CONNACK is sent in two parts, it pings and connects
again. -/
def connectsWhenDrained : List LoopEvent :=
  [.accept 5, .packet 5 (connectFrame 0x61), .flush 5 .begin, .flush 5 .take,
    .flush 5 (.write 3 false), .flush 5 (.write 1 false), .flush 5 .done, .flush 5 .take,
    .packet 5 ⟨0xc0, 0, []⟩, .flush 5 .begin, .flush 5 .take, .flush 5 (.write 2 false),
    .flush 5 .done, .flush 5 .take, .packet 5 (connectFrame 0x62)]

theorem counterRight_iff_connectsWhenDrained :
    (run loopStep (.start ⟨fun _ => true, fun _ => 0, 0⟩) connectsWhenDrained).isSome = true ∧
      Along loopStep (fun _ _ after => CounterRight 5 after)
        (.start ⟨fun _ => true, fun _ => 0, 0⟩) connectsWhenDrained := by
  have keeps : Along loopStep (fun event before _ => KeepsCounter 5 event before)
      (.start ⟨fun _ => true, fun _ => 0, 0⟩) connectsWhenDrained := along_of_check
    (fun event before => decide (KeepsCounter 5 event before))
    (fun _ _ => of_decide_eq_true) (by decide +kernel)
  exact ⟨by decide +kernel, (counterRight_iff _ 5 (by decide)).mpr keeps⟩

/-- A client connects, and again before its CONNACK is sent. -/
def connectsTwice : List LoopEvent :=
  [.accept 5, .packet 5 (connectFrame 0x61), .packet 5 (connectFrame 0x61)]

/-- The counter is then 1 for two packets. -/
theorem counterRight_connectsTwice :
    ∃ final, run loopStep (.start ⟨fun _ => true, fun _ => 0, 0⟩) connectsTwice =
        some final ∧
      final.IsOpen 5 ∧ final.phase 5 = .idle ∧
      (final.broker.clients 5).sender.numSendingPack = 1 ∧
      (final.broker.clients 5).sender.sendingPacket.length = 2 ∧
      ¬ Along loopStep (fun _ _ after => CounterRight 5 after)
        (.start ⟨fun _ => true, fun _ => 0, 0⟩) connectsTwice := by
  have computed : (run loopStep (.start ⟨fun _ => true, fun _ => 0, 0⟩) connectsTwice).map
      (fun final => (decide (final.IsOpen 5), final.phase 5,
        (final.broker.clients 5).sender.numSendingPack,
        (final.broker.clients 5).sender.sendingPacket.length)) =
      some (true, .idle, 1, 2) := by
    decide +kernel
  obtain ⟨final, ran, observed⟩ := Option.map_eq_some_iff.mp computed
  simp only [Prod.mk.injEq, decide_eq_true_eq] at observed
  obtain ⟨isOpen, idle, count, length⟩ := observed
  refine ⟨final, ran, isOpen, idle, count, length, fun right => ?_⟩
  have counted := right.final (CounterRight 5) (fun isOpen => by cases isOpen) ran isOpen
    (by rw [idle]; rfl)
  have mismatch := counted.count
  rw [count, Sender.pendingPackets, length] at mismatch
  split at mismatch <;> omega

end MuMQ
