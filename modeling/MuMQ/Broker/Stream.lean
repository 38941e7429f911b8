import MuMQ.Broker.Queue
import MuMQ.Data.Run
import Mathlib.Algebra.Group.Int.Defs

namespace MuMQ

open Data

/-! The outgoing bytes of one connection: any thread enqueues, the owning thread
flushes, and the socket takes part of what is offered or nothing. -/

/-- A connection's queue, where its thread stands in the flush loop, the bytes of
all packets enqueued so far and the bytes the socket has taken. -/
structure Stream where
  sender : Sender
  phase : Phase
  enqueued : List UInt8
  taken : List UInt8
  deriving DecidableEq

inductive StreamEvent where
  | enqueue (newPacket : Packet)
  | flush (event : FlushEvent)
  deriving DecidableEq

namespace Stream

/-- The connection as it is accepted. -/
def start : Stream := ⟨.zero, .idle, [], []⟩

/-- A packet as `publish_msg` and `ack_msg` make it: a block that is not in use,
with a buffer of `wlen` bytes of which none is sent. -/
def acceptsPacket (sender : Sender) (packet : Packet) : Bool :=
  decide (packet.wcur = 0 ∧ packet.sendBuf.length = packet.wlen.toNat ∧
    packet.address ∉ sender.sendingPacket.map Packet.address)

/-- What `send` can answer when the current packet's rest is offered to it: a
number of bytes it took, or -1 with `EAGAIN`. -/
def answers (sender : Sender) : FlushEvent → Bool
  | .write sent again =>
      match sender.sendingCurPacket with
      | some packet =>
          decide ((1 ≤ sent ∧ sent ≤ (packet.wlen - packet.wcur).toNat) ∨
            (sent = -1 ∧ again = true))
      | none => false
  | _ => true

/-- The bytes the socket takes in a step. -/
def takenBy (sender : Sender) : FlushEvent → List UInt8
  | .write sent _ =>
      match sender.sendingCurPacket with
      | some packet => (packet.sendBuf.drop packet.wcur.toNat).take sent.toNat
      | none => []
  | _ => []

end Stream

/-- One step of the connection. -/
def streamStep : StreamEvent → Stream → Option Stream
  | .enqueue newPacket, stream =>
      if Stream.acceptsPacket stream.sender newPacket then
        some
          { stream with
            sender := stream.sender.enqueue newPacket
            enqueued := stream.enqueued ++ newPacket.sendBuf }
      else none
  | .flush event, stream =>
      if Stream.answers stream.sender event then
        match flushStep event stream.phase stream.sender with
        | some (sender, phase) =>
            some
              { stream with
                sender := sender
                phase := phase
                taken := stream.taken ++ Stream.takenBy stream.sender event }
        | none => none
      else none

/-- The event is a `send` that took nothing. -/
def StreamEvent.blocked : StreamEvent → Bool
  | .flush (.write sent _) => decide (sent = -1)
  | _ => false

/-- After a step the socket has taken a prefix of what was enqueued, and a `send`
that took nothing has left the current packet as it was. -/
def StreamIntact (event : StreamEvent) (before after : Stream) : Prop :=
  after.taken <+: after.enqueued ∧
    (event.blocked = true →
      after.sender.sendingCurPacket = before.sender.sendingCurPacket)

/-- The bytes in a queue that are still to be sent. -/
def Sender.pending (sender : Sender) : List UInt8 :=
  (match sender.sendingCurPacket with
    | some packet => packet.sendBuf.drop packet.wcur.toNat
    | none => [])
    ++ sender.sendingPacket.flatMap Packet.sendBuf

/-- What was enqueued is what was taken and what is pending. -/
structure Stream.Accounted (stream : Stream) : Prop where
  linked : stream.sender.Linked
  unsent : ∀ packet ∈ stream.sender.sendingPacket,
    packet.wcur = 0 ∧ packet.sendBuf.length = packet.wlen.toNat
  current : ∀ packet, stream.sender.sendingCurPacket = some packet →
    packet.wcur ≤ packet.wlen ∧ packet.sendBuf.length = packet.wlen.toNat
  bytes : stream.enqueued = stream.taken ++ stream.sender.pending

namespace Stream.Accounted

theorem start : Stream.start.Accounted :=
  ⟨Sender.Linked.zero, by simp [Stream.start, Sender.zero],
    by simp [Stream.start, Sender.zero], rfl⟩

theorem enqueue {stream : Stream} (accounted : stream.Accounted)
    {newPacket : Packet} (wcur : newPacket.wcur = 0)
    (length : newPacket.sendBuf.length = newPacket.wlen.toNat)
    (fresh : newPacket.address ∉ stream.sender.sendingPacket.map Packet.address) :
    Stream.Accounted
      { stream with
        sender := stream.sender.enqueue newPacket
        enqueued := stream.enqueued ++ newPacket.sendBuf } := by
  have list := accounted.linked.enqueue_list newPacket
  refine ⟨accounted.linked.enqueue fresh, ?_, accounted.current, ?_⟩
  · intro packet member
    rw [list, List.mem_append, List.mem_singleton] at member
    rcases member with earlier | rfl
    · exact accounted.unsent packet earlier
    · exact ⟨wcur, length⟩
  · have pending : (stream.sender.enqueue newPacket).pending =
        stream.sender.pending ++ newPacket.sendBuf := by
      unfold Sender.pending
      rw [list]
      simp [Sender.enqueue]
    simp only [pending, accounted.bytes, List.append_assoc]

end Stream.Accounted

theorem toNat_ofInt {sent : Int} (positive : 1 ≤ sent) (bounded : sent < 2 ^ 32) :
    (UInt32.ofInt sent).toNat = sent.toNat := by
  have reduced : sent % 2 ^ 32 = sent := Int.emod_eq_of_lt (by omega) bounded
  rw [UInt32.ofInt, reduced, UInt32.toNat_ofNat_of_lt']
  show sent.toNat < 2 ^ 32
  omega

theorem written_positive {sent : Int} {bound : UInt32} (positive : 1 ≤ sent)
    (offered : sent ≤ bound.toNat) : ¬ UInt32.ofInt sent ≤ 0 := by
  intro nothing
  have bounded := bound.toNat_lt
  have zero := UInt32.le_iff_toNat_le.mp nothing
  rw [toNat_ofInt positive (by omega), UInt32.toNat_zero] at zero
  omega

/-- An allowed answer other than -1 is a part of the current packet's rest. -/
theorem Stream.answers_write {sender : Sender} {packet : Packet} {sent : Int} {again : Bool}
    (current : sender.sendingCurPacket = some packet)
    (answered : Stream.answers sender (.write sent again) = true)
    (moved : (StreamEvent.flush (.write sent again)).blocked = false) :
    1 ≤ sent ∧ sent ≤ (packet.wlen - packet.wcur).toNat := by
  simp only [Stream.answers, current, decide_eq_true_eq] at answered
  simp only [StreamEvent.blocked, decide_eq_false_iff_not] at moved
  rcases answered with taken | ⟨refused, _⟩
  · exact taken
  · exact absurd refused moved

theorem advance {packet : Packet} {sent : Int}
    (ordered : packet.wcur ≤ packet.wlen) (positive : 1 ≤ sent)
    (offered : sent ≤ (packet.wlen - packet.wcur).toNat) :
    (packet.wcur + UInt32.ofInt sent).toNat = packet.wcur.toNat + sent.toNat ∧
      packet.wcur.toNat + sent.toNat ≤ packet.wlen.toNat := by
  have room := UInt32.toNat_sub_of_le _ _ ordered
  have wlenBounded := packet.wlen.toNat_lt
  have order := UInt32.le_iff_toNat_le.mp ordered
  have taken := toNat_ofInt positive (by omega)
  rw [UInt32.toNat_add, taken]
  constructor <;> omega

/-- A flush step keeps the account unless it is a `send` that took nothing. -/
private theorem Stream.Accounted.flush {stream : Stream}
    (accounted : stream.Accounted) {event : FlushEvent}
    (answered : Stream.answers stream.sender event = true)
    (moved : (StreamEvent.flush event).blocked = false) {sender : Sender}
    {phase : Phase}
    (outcome : FlushOutcome stream.sender event stream.phase sender phase) :
    Stream.Accounted
      { stream with
        sender := sender
        phase := phase
        taken := stream.taken ++ Stream.takenBy stream.sender event } := by
  generalize stood : stream.phase = before at outcome
  cases outcome with
  | skipped few =>
      exact ⟨accounted.linked, accounted.unsent, accounted.current, by
        simpa [Stream.takenBy] using accounted.bytes⟩
  | began several =>
      exact ⟨accounted.linked, accounted.unsent, accounted.current, by
        simpa [Stream.takenBy] using accounted.bytes⟩
  | ended spent =>
      exact ⟨accounted.linked, accounted.unsent, accounted.current, by
        simpa [Stream.takenBy] using accounted.bytes⟩
  | @unlinked numSending packet rest more list free =>
      obtain ⟨tail, nodup⟩ := accounted.linked.unlink list
      have unsent := accounted.unsent
      rw [list] at unsent
      refine ⟨⟨tail, nodup⟩, fun other member => unsent other (by simp [member]), ?_, ?_⟩
      · intro other current
        cases current
        obtain ⟨wcur, length⟩ := unsent packet (by simp)
        exact ⟨by simp [wcur], length⟩
      · have bytes := accounted.bytes
        simp only [Sender.pending, list, free, List.flatMap_cons,
          List.nil_append] at bytes
        simpa [Sender.pending, Stream.takenBy, (unsent packet (by simp)).1] using bytes
  | kept more pending =>
      exact ⟨⟨accounted.linked.tail, accounted.linked.nodup⟩, accounted.unsent,
        accounted.current, by
          simpa [Stream.takenBy, Sender.pending] using accounted.bytes⟩
  | @blocked packet sent again numSending current unwritten nothing =>
      obtain ⟨positive, offered⟩ := Stream.answers_write current answered moved
      exact absurd nothing (written_positive positive offered)
  | @wrote packet sent numSending again current unwritten something =>
      obtain ⟨positive, offered⟩ := Stream.answers_write current answered moved
      obtain ⟨ordered, length⟩ := accounted.current packet current
      obtain ⟨wcur, inside⟩ := advance ordered positive offered
      refine ⟨⟨accounted.linked.tail, accounted.linked.nodup⟩, accounted.unsent, ?_, ?_⟩
      · intro other isCurrent
        cases isCurrent
        exact ⟨UInt32.le_iff_toNat_le.mpr (by rw [wcur]; exact inside), length⟩
      · have bytes := accounted.bytes
        simp only [Sender.pending, current] at bytes
        simp only [Sender.pending, Stream.takenBy, current, wcur, bytes]
        rw [← List.drop_drop, List.append_assoc, ← List.append_assoc (List.take _ _),
          List.take_append_drop]
  | @finished packet numSending current written =>
      obtain ⟨ordered, length⟩ := accounted.current packet current
      refine ⟨⟨accounted.linked.tail, accounted.linked.nodup⟩, accounted.unsent,
        by simp, ?_⟩
      have atEnd : packet.sendBuf.drop packet.wcur.toNat = [] := by
        rw [List.drop_eq_nil_iff, length]
        rw [UInt32.lt_iff_toNat_lt] at written
        omega
      have bytes := accounted.bytes
      simp only [Sender.pending, current, atEnd, List.nil_append] at bytes
      simpa [Sender.pending, Stream.takenBy] using bytes

theorem Stream.Accounted.step {event : StreamEvent} {before after : Stream}
    (accounted : before.Accounted) (stepped : streamStep event before = some after)
    (moved : event.blocked = false) : after.Accounted := by
  cases event with
  | enqueue newPacket =>
      rw [streamStep] at stepped
      split at stepped
      · rename_i accepted
        cases stepped
        simp only [Stream.acceptsPacket, decide_eq_true_eq] at accepted
        obtain ⟨wcur, length, fresh⟩ := accepted
        exact accounted.enqueue wcur length fresh
      · cases stepped
  | flush event =>
      rw [streamStep] at stepped
      split at stepped
      · rename_i answered
        split at stepped
        · rename_i sender phase flushed
          cases stepped
          exact accounted.flush answered moved (flushStep_outcome flushed)
        · cases stepped
      · cases stepped

/-- A `send` that takes nothing does change the current packet. -/
private theorem blocked_moves_cursor {event : StreamEvent} {before after : Stream}
    (stepped : streamStep event before = some after)
    (blocked : event.blocked = true) :
    after.sender.sendingCurPacket ≠ before.sender.sendingCurPacket := by
  match event, blocked with
  | .flush (.write sent again), refused =>
      have minusOne : sent = -1 := by simpa [StreamEvent.blocked] using refused
      subst minusOne
      rw [streamStep] at stepped
      split at stepped
      · split at stepped
        · rename_i sender phase flushed
          cases stepped
          generalize before.phase = stood at flushed
          cases flushStep_outcome flushed with
          | blocked current unwritten nothing => exact absurd nothing (by decide)
          | wrote current unwritten something =>
              rw [current]
              intro same
              have cursors := congrArg Packet.wcur (Option.some.inj same)
              rw [UInt32.add_eq_left] at cursors
              exact absurd cursors (by decide)
        · cases stepped
      · cases stepped

/-- The stream is intact all along a run exactly when no `send` returned -1. -/
theorem streamIntact_iff {events : List StreamEvent} {final : Stream}
    (ran : run streamStep .start events = some final) :
    Along streamStep StreamIntact .start events ↔
      ∀ event ∈ events, event.blocked = false := by
  rw [← along_events_iff (fun event => event.blocked = false) ran]
  refine along_iff_of_invariant Stream.Accounted
    (fun event _ before after accounted stepped moved => accounted.step stepped moved)
    ?_ Stream.Accounted.start
  intro event _ before after accounted stepped
  constructor
  · rintro ⟨_, unchanged⟩
    cases blocked : event.blocked with
    | false => rfl
    | true => exact absurd (unchanged blocked) (blocked_moves_cursor stepped blocked)
  · intro moved
    refine ⟨?_, fun blocked => ?_⟩
    · rw [(accounted.step stepped moved).bytes]
      exact List.prefix_append _ _
    · rw [moved] at blocked
      cases blocked

/-- A CONNACK and a SUBACK are enqueued; the socket takes two bytes of the first
and the rest later, then all of the second. -/
def writtenInParts : List StreamEvent :=
  [.enqueue ⟨4, [0x20, 0x02, 0x00, 0x00], 0, 4⟩, .flush .begin, .flush .take,
    .flush (.write 2 false), .enqueue ⟨6, [0x90, 0x03, 0x00, 0x01, 0x00], 0, 5⟩,
    .flush (.write 2 false), .flush .done, .flush .take, .flush .begin, .flush .take,
    .flush (.write 5 false), .flush .done]

theorem streamIntact_iff_writtenInParts :
    Along streamStep StreamIntact .start writtenInParts := by
  have final : run streamStep .start writtenInParts =
      some ⟨⟨[], none, none, 0, 2⟩, .turn 0,
        [0x20, 0x02, 0x00, 0x00, 0x90, 0x03, 0x00, 0x01, 0x00],
        [0x20, 0x02, 0x00, 0x00, 0x90, 0x03, 0x00, 0x01, 0x00]⟩ := by
    decide +kernel
  exact (streamIntact_iff final).mpr (by decide)

/-- The same packets; the socket is blocked when the CONNACK is offered. -/
def blockedAtOnce : List StreamEvent :=
  [.enqueue ⟨4, [0x20, 0x02, 0x00, 0x00], 0, 4⟩,
    .enqueue ⟨6, [0x90, 0x03, 0x00, 0x01, 0x00], 0, 5⟩, .flush .begin, .flush .take,
    .flush (.write (-1) true), .flush .done, .flush .take, .flush (.write 5 false)]

/-- The CONNACK is dropped and the SUBACK sent in its place. -/
theorem streamIntact_blockedAtOnce :
    ∃ final, run streamStep .start blockedAtOnce = some final ∧
      final.taken = [0x90, 0x03, 0x00, 0x01, 0x00] ∧
      ¬ final.taken <+: final.enqueued ∧
      ¬ Along streamStep StreamIntact .start blockedAtOnce := by
  have final : run streamStep .start blockedAtOnce =
      some ⟨⟨[], none, some ⟨6, [0x90, 0x03, 0x00, 0x01, 0x00], 5, 5⟩, 0, 1⟩,
        .writing 0, [0x20, 0x02, 0x00, 0x00, 0x90, 0x03, 0x00, 0x01, 0x00],
        [0x90, 0x03, 0x00, 0x01, 0x00]⟩ := by
    decide +kernel
  have notPrefix : ¬ [0x90, 0x03, 0x00, 0x01, 0x00] <+:
      ([0x20, 0x02, 0x00, 0x00, 0x90, 0x03, 0x00, 0x01, 0x00] : List UInt8) := by
    decide
  refine ⟨_, final, rfl, notPrefix, fun intact => notPrefix ?_⟩
  have prefixes : Along streamStep (fun _ _ after => after.taken <+: after.enqueued)
      .start blockedAtOnce := intact.imp fun _ _ _ _ held => held.1
  exact prefixes.final (fun stream => stream.taken <+: stream.enqueued)
    List.nil_prefix final

end MuMQ
