import MuMQ.Broker.Stream
import Mathlib.Algebra.Ring.Nat

namespace MuMQ

open Data

/-! One turn of the flush loop for a client, with packets enqueued between its steps. -/

/-- The send state at the start of a turn in order: no current packet, and a list of unsent
packets that is counted. -/
structure Sender.InOrder (sender : Sender) : Prop where
  linked : sender.Linked
  unsent : ∀ packet ∈ sender.sendingPacket,
    packet.wcur = 0 ∧ packet.sendBuf.length = packet.wlen.toNat
  current : sender.sendingCurPacket = none
  counted : sender.numSendingPack = sender.sendingPacket.length

/-- A client at the start of its turn, no byte of the turn taken yet. -/
def Stream.atTurn (sender : Sender) : Stream := ⟨sender, .idle, sender.pending, []⟩

namespace StreamEvent

def newPackets : StreamEvent → List Packet
  | .enqueue packet => [packet]
  | .flush _ => []

def ownSteps : StreamEvent → Nat
  | .enqueue _ => 0
  | .flush _ => 1

/-- A step within a turn: a `send` takes at least one byte. -/
def WithinTurn (event : StreamEvent) : Prop :=
  event ≠ .flush .begin ∧ event.blocked = false

end StreamEvent

/-- The owning thread has a next step, however many bytes a `send` takes. -/
def Stream.GoesOn (stream : Stream) : Prop :=
  (streamStep (.flush .take) stream).isSome ∨ (streamStep (.flush .done) stream).isSome ∨
    ∃ packet, stream.sender.sendingCurPacket = some packet ∧ packet.wcur < packet.wlen ∧
      ∀ (sent : Int) (again : Bool), 1 ≤ sent → sent ≤ (packet.wlen - packet.wcur).toNat →
        (streamStep (.flush (.write sent again)) stream).isSome

/-- The steps that a turn over these packets takes at most, a `send` for every byte. -/
def turnSteps (packets : List Packet) : Nat :=
  (packets.map fun packet => packet.sendBuf.length + 2).sum + 1

/-- Where a turn stands in which `new` has been enqueued: the packets it still has to take
are the front of the list, and `steps` are left of it at most. -/
inductive InTurn (new : List Packet) (stream : Stream) : Nat → Prop
  | turn (rest : List Packet) (phase : stream.phase = .turn rest.length)
      (free : stream.sender.sendingCurPacket = none)
      (list : stream.sender.sendingPacket = rest ++ new)
      (counted : stream.sender.numSendingPack = (rest ++ new).length) :
      InTurn new stream (turnSteps rest)
  | writing (packet : Packet) (rest : List Packet) (phase : stream.phase = .writing rest.length)
      (current : stream.sender.sendingCurPacket = some packet)
      (list : stream.sender.sendingPacket = rest ++ new)
      (counted : stream.sender.numSendingPack = (rest ++ new).length) :
      InTurn new stream ((packet.wlen - packet.wcur).toNat + 1 + turnSteps rest)
  | ended (phase : stream.phase = .idle) (free : stream.sender.sendingCurPacket = none)
      (list : stream.sender.sendingPacket = new)
      (counted : stream.sender.numSendingPack = new.length) : InTurn new stream 0

theorem turnSteps_cons (packet : Packet) (rest : List Packet) :
    turnSteps (packet :: rest) = packet.sendBuf.length + 2 + turnSteps rest := by
  simp only [turnSteps, List.map_cons, List.sum_cons]
  omega

theorem InTurn.enqueue {new : List Packet} {stream : Stream} {steps : Nat}
    (inTurn : InTurn new stream steps) (linked : stream.sender.Linked) (packet : Packet)
    (enqueued : List UInt8) :
    InTurn (new ++ [packet])
      { stream with sender := stream.sender.enqueue packet, enqueued := enqueued } steps := by
  have list := linked.enqueue_list packet
  cases inTurn with
  | turn rest phase free front counted =>
      refine .turn rest phase free (by rw [← List.append_assoc, ← front]; exact list) ?_
      show stream.sender.numSendingPack + 1 = _
      rw [counted, ← List.append_assoc, List.length_append, List.length_append]
      simp
  | writing current rest phase isCurrent front counted =>
      refine .writing current rest phase isCurrent
        (by rw [← List.append_assoc, ← front]; exact list) ?_
      show stream.sender.numSendingPack + 1 = _
      rw [counted, ← List.append_assoc, List.length_append, List.length_append]
      simp
  | ended phase free front counted =>
      refine .ended phase free (front ▸ list) ?_
      show stream.sender.numSendingPack + 1 = _
      rw [counted, List.length_append]
      rfl

/-- A step of the owning thread uses up one of the steps that are left. -/
theorem InTurn.flush {new : List Packet} {stream : Stream} {steps : Nat}
    (inTurn : InTurn new stream steps) (accounted : stream.Accounted) {event : FlushEvent}
    (notBegin : event ≠ .begin) (moved : (StreamEvent.flush event).blocked = false)
    (answered : Stream.answers stream.sender event = true) {sender : Sender} {phase : Phase}
    (outcome : FlushOutcome stream.sender event stream.phase sender phase)
    (taken : List UInt8) :
    ∃ left, InTurn new { stream with sender := sender, phase := phase, taken := taken } left ∧
      left + 1 ≤ steps := by
  cases inTurn with
  | ended isIdle free list counted =>
      rw [isIdle] at outcome
      cases outcome <;> exact absurd rfl notBegin
  | turn rest isTurn free list counted =>
      rw [isTurn] at outcome
      cases outcome with
      | ended spent =>
          have empty : rest = [] := List.length_eq_zero_iff.mp (by omega)
          subst empty
          exact ⟨0, .ended rfl free list counted, Nat.le_refl _⟩
      | @unlinked numSending packet others more unlinkedList isFree =>
          cases rest with
          | nil => exact absurd more (by simp)
          | cons first rest =>
              rw [list, List.cons_append] at unlinkedList
              obtain ⟨rfl, rfl⟩ := List.cons.inj unlinkedList
              obtain ⟨wcur, length⟩ := accounted.unsent first (by simp [list])
              refine ⟨_, .writing first rest ?_ rfl rfl ?_, ?_⟩
              · show Phase.writing _ = _
                congr 1
                rw [List.length_cons]
                omega
              · show stream.sender.numSendingPack - 1 = _
                rw [counted, List.cons_append, List.length_cons]
                omega
              · rw [turnSteps_cons, wcur, length, UInt32.sub_zero]
                omega
      | kept more pending =>
          rcases pending with empty | busy
          · cases rest with
            | nil => exact absurd more (by simp)
            | cons first rest =>
                rw [list] at empty
                cases empty
          · exact absurd free busy
  | writing packet rest isWriting current list counted =>
      rw [isWriting] at outcome
      obtain ⟨ordered, length⟩ := accounted.current packet current
      cases outcome with
      | @blocked other sent again numSending isCurrent unwritten nothing =>
          obtain ⟨positive, offered⟩ := Stream.answers_write isCurrent answered moved
          exact absurd nothing (written_positive positive offered)
      | @wrote other sent numSending again isCurrent unwritten something =>
          obtain ⟨positive, offered⟩ := Stream.answers_write isCurrent answered moved
          cases current.symm.trans isCurrent
          obtain ⟨wcur, inside⟩ := advance ordered positive offered
          refine ⟨_, .writing _ rest rfl rfl list counted, ?_⟩
          have before := UInt32.toNat_sub_of_le _ _ ordered
          have after := UInt32.toNat_sub_of_le packet.wlen (packet.wcur + UInt32.ofInt sent)
            (UInt32.le_iff_toNat_le.mpr (by rw [wcur]; exact inside))
          simp only [before, after, wcur]
          omega
      | @finished other numSending isCurrent written =>
          exact ⟨_, .turn rest rfl rfl list counted, by omega⟩

theorem InTurn.step {new : List Packet} {before after : Stream} {steps : Nat}
    (inTurn : InTurn new before steps) (accounted : before.Accounted) {event : StreamEvent}
    (stepped : streamStep event before = some after) (within : event.WithinTurn) :
    ∃ left, InTurn (new ++ event.newPackets) after left ∧ left + event.ownSteps ≤ steps := by
  cases event with
  | enqueue packet =>
      rw [streamStep] at stepped
      split at stepped
      · cases stepped
        exact ⟨steps, inTurn.enqueue accounted.linked packet _, Nat.le_refl _⟩
      · cases stepped
  | flush event =>
      rw [streamStep] at stepped
      split at stepped
      · rename_i answered
        split at stepped
        · rename_i flushed
          cases stepped
          rw [StreamEvent.newPackets, List.append_nil]
          exact inTurn.flush accounted (fun isBegin => within.1 (isBegin ▸ rfl)) within.2 answered
            (flushStep_outcome flushed) _
        · cases stepped
      · cases stepped

theorem InTurn.run {new : List Packet} {stream final : Stream} {steps : Nat}
    {events : List StreamEvent} (inTurn : InTurn new stream steps)
    (accounted : stream.Accounted) (within : ∀ event ∈ events, event.WithinTurn)
    (ran : Data.run streamStep stream events = some final) :
    ∃ left, InTurn (new ++ events.flatMap StreamEvent.newPackets) final left ∧
      final.Accounted ∧ left + (events.map StreamEvent.ownSteps).sum ≤ steps := by
  induction events generalizing new stream steps with
  | nil =>
      cases ran
      exact ⟨steps, by simpa using inTurn, accounted, by simp⟩
  | cons event rest induction =>
      obtain ⟨withinHere, withinRest⟩ := List.forall_mem_cons.mp within
      obtain ⟨next, stepped, ranRest⟩ := run_cons.mp ran
      obtain ⟨fewer, inTurn, less⟩ := inTurn.step accounted stepped withinHere
      obtain ⟨left, inTurn, accounted, bound⟩ :=
        induction inTurn (accounted.step stepped withinHere.2) withinRest ranRest
      rw [List.append_assoc] at inTurn
      refine ⟨left, inTurn, accounted, ?_⟩
      rw [List.map_cons, List.sum_cons]
      omega

theorem enqueued_step {before after : Stream} {event : StreamEvent}
    (stepped : streamStep event before = some after) :
    after.enqueued = before.enqueued ++ event.newPackets.flatMap Packet.sendBuf := by
  cases event with
  | enqueue packet =>
      rw [streamStep] at stepped
      split at stepped
      · cases stepped
        simp [StreamEvent.newPackets]
      · cases stepped
  | flush event =>
      rw [streamStep] at stepped
      split at stepped
      · split at stepped
        · cases stepped
          simp [StreamEvent.newPackets]
        · cases stepped
      · cases stepped

theorem enqueued_run {stream final : Stream} {events : List StreamEvent}
    (ran : run streamStep stream events = some final) :
    final.enqueued = stream.enqueued ++
      (events.flatMap StreamEvent.newPackets).flatMap Packet.sendBuf := by
  induction events generalizing stream with
  | nil =>
      cases ran
      simp
  | cons event rest induction =>
      obtain ⟨next, stepped, ranRest⟩ := run_cons.mp ran
      rw [induction ranRest, enqueued_step stepped, List.flatMap_cons, List.flatMap_append,
        List.append_assoc]

/-! The start and the end of a turn. -/

section Turn

variable {sender : Sender} (inOrder : sender.InOrder)
include inOrder

theorem Sender.InOrder.accounted : (Stream.atTurn sender).Accounted where
  linked := inOrder.linked
  unsent := inOrder.unsent
  current packet isCurrent := by
    cases inOrder.current.symm.trans isCurrent
  bytes := rfl

theorem InTurn.begin {next : Stream}
    (stepped : streamStep (.flush .begin) (.atTurn sender) = some next) :
    ∃ left, InTurn [] next left ∧ left ≤ turnSteps sender.sendingPacket := by
  cases stepped
  have counted := inOrder.counted
  by_cases empty : sender.sendingPacket = []
  · have few : sender.numSendingPack < 1 := by
      rw [counted, empty]
      exact Int.zero_lt_one
    refine ⟨0, .ended ?_ inOrder.current empty ?_, Nat.zero_le _⟩
    · exact if_pos few
    · show sender.numSendingPack = _
      rw [counted, empty]
  · have several : ¬ sender.numSendingPack < 1 := by
      have present := List.length_pos_iff.mpr empty
      omega
    refine ⟨_, .turn sender.sendingPacket ?_ inOrder.current (List.append_nil _).symm ?_,
      Nat.le_refl _⟩
    · show flushBegin sender = _
      rw [flushBegin, if_neg several, counted]
    · rw [List.append_nil]
      exact counted

end Turn

theorem InTurn.goesOn {new : List Packet} {stream : Stream} {steps : Nat}
    (inTurn : InTurn new stream steps) (working : stream.phase ≠ .idle) : stream.GoesOn := by
  cases inTurn with
  | ended phase _ _ _ => exact absurd phase working
  | turn rest phase _ _ _ =>
      refine .inl ?_
      simp only [streamStep, Stream.answers, phase, flushStep, if_true, Option.isSome_some]
  | writing packet rest phase current _ _ =>
      by_cases unwritten : packet.wcur < packet.wlen
      · refine .inr (.inr ⟨packet, current, unwritten, fun sent again positive offered => ?_⟩)
        have answered : Stream.answers stream.sender (.write sent again) = true := by
          simp only [Stream.answers, current]
          exact decide_eq_true (.inl ⟨positive, offered⟩)
        simp only [streamStep, answered, phase, flushStep, current, if_pos unwritten, if_true,
          Option.isSome_some]
      · refine .inr (.inl ?_)
        simp only [streamStep, Stream.answers, phase, flushStep, current, if_neg unwritten, if_true,
          Option.isSome_some]

/-- A turn that starts in order takes a bounded number of steps, each of which the thread can
take, and when it ends the socket has taken the bytes of the packets that were counted, in
order and once each; the packets enqueued meanwhile are in the list and counted. -/
theorem flushTurn_sends (sender : Sender) (inOrder : sender.InOrder) (events : List StreamEvent)
    (within : ∀ event ∈ events, event.WithinTurn) (final : Stream)
    (ran : run streamStep (.atTurn sender) (.flush .begin :: events) = some final) :
    (events.map StreamEvent.ownSteps).sum ≤ turnSteps sender.sendingPacket ∧
    (final.phase ≠ .idle → final.GoesOn) ∧
    (final.phase = .idle →
      final.taken =
        (sender.sendingPacket.take sender.numSendingPack.toNat).flatMap Packet.sendBuf ∧
      final.sender.sendingPacket =
        sender.sendingPacket.drop sender.numSendingPack.toNat
          ++ events.flatMap StreamEvent.newPackets ∧
      final.sender.sendingCurPacket = none ∧
      final.sender.numSendingPack = final.sender.sendingPacket.length) := by
  obtain ⟨next, stepped, ranRest⟩ := run_cons.mp ran
  obtain ⟨begun, inTurn, fits⟩ := InTurn.begin inOrder stepped
  have accounted := inOrder.accounted.step stepped rfl
  obtain ⟨left, inTurn, accounted, bound⟩ := inTurn.run accounted within ranRest
  rw [List.nil_append] at inTurn
  refine ⟨by omega, inTurn.goesOn, fun ended => ?_⟩
  cases inTurn with
  | turn rest phase _ _ _ =>
      rw [ended] at phase
      cases phase
  | writing packet rest phase _ _ _ =>
      rw [ended] at phase
      cases phase
  | ended _ free list counted =>
      have all : sender.numSendingPack.toNat = sender.sendingPacket.length := by
        rw [inOrder.counted]
        rfl
      have enqueued := enqueued_run ran
      have bytes := accounted.bytes
      rw [enqueued] at bytes
      simp only [Stream.atTurn, Sender.pending, inOrder.current, free, list, List.flatMap_cons,
        StreamEvent.newPackets, List.nil_append] at bytes
      rw [all, List.take_length, List.drop_length, List.nil_append]
      refine ⟨(List.append_cancel_right bytes).symm, list, free, ?_⟩
      rw [counted, list]

/-- Two packets, the second of which is enqueued while the first is written in two parts. -/
theorem flushTurn_sends_twoParts :
    (Stream.mk ⟨[⟨2, [9], 0, 1⟩], some 2, none, 1, 1⟩ .idle [7, 8, 9] [7, 8]).taken = [7, 8] ∧
    (Stream.mk ⟨[⟨2, [9], 0, 1⟩], some 2, none, 1, 1⟩ .idle [7, 8, 9] [7, 8]).sender.sendingPacket =
      [⟨2, [9], 0, 1⟩] := by
  have ended := (flushTurn_sends ⟨[⟨1, [7, 8], 0, 2⟩], some 1, none, 1, 0⟩
    ⟨⟨rfl, by decide⟩, by decide, rfl, rfl⟩
    [.flush .take, .flush (.write 1 false), .enqueue ⟨2, [9], 0, 1⟩, .flush (.write 1 false),
      .flush .done, .flush .take]
    (by simp [StreamEvent.WithinTurn, StreamEvent.blocked])
    ⟨⟨[⟨2, [9], 0, 1⟩], some 2, none, 1, 1⟩, .idle, [7, 8, 9], [7, 8]⟩
    (by decide +kernel)).2.2 rfl
  exact ⟨ended.1, ended.2.1⟩

end MuMQ
