import MuMQ.Broker.Counter

namespace MuMQ

open Data

/-! One slot: the locked sections of other threads between the single steps of the thread
that owns it. -/

namespace Sender

/-- `num_sending_pack = 0`, in `add_client` and in `clean_context`. -/
def clearCounter (sender : Sender) : Sender := { sender with numSendingPack := 0 }

/-- `sending_cur_packet = NULL`, in `clean_context`. -/
def clearCurrent (sender : Sender) : Sender := { sender with sendingCurPacket := none }

end Sender

/-- Where the owning thread stands with a slot: outside `clean_context`, or in it, with
the counter cleared and the current packet not. -/
inductive SlotPoint where
  | outside (phase : Phase)
  | cleaning
  deriving DecidableEq

structure SlotState where
  sender : Sender
  point : SlotPoint
  deriving DecidableEq

/-- Any thread enqueues a packet; the owner takes a step of the flush loop, handles a
CONNECT that it accepts, ends a connection, or takes a step of `clean_context`. -/
inductive SlotEvent where
  | enqueue (packet : Packet)
  | flush (event : FlushEvent)
  | connect
  | fail
  | clearCounter
  | clearCurrent
  deriving DecidableEq

/-- The block of a new packet is none of those in use. -/
def Sender.Unused (sender : Sender) (address : Address) : Prop :=
  address ∉ sender.sendingPacket.map Packet.address ∧
    address ∉ sender.sendingCurPacket.map Packet.address

instance (sender : Sender) (address : Address) : Decidable (sender.Unused address) :=
  inferInstanceAs (Decidable (_ ∧ _))

def slotStep : SlotEvent → SlotState → Option SlotState
  | .enqueue packet, state =>
      if state.sender.Unused packet.address then
        some { state with sender := state.sender.enqueue packet }
      else none
  | .flush event, ⟨sender, .outside phase⟩ =>
      (flushStep event phase sender).map fun after => ⟨after.1, .outside after.2⟩
  | .connect, ⟨sender, .outside .idle⟩ => some ⟨sender.clearCounter, .outside .idle⟩
  | .fail, ⟨sender, .outside .idle⟩ => some ⟨sender, .outside .closing⟩
  | .clearCounter, ⟨sender, .outside .closing⟩ => some ⟨sender.clearCounter, .cleaning⟩
  | .clearCurrent, ⟨sender, .cleaning⟩ => some ⟨sender.clearCurrent, .outside .idle⟩
  | _, _ => none

/-- The counter is at most the number of pending packets, and the loop that writes the
current packet has one. -/
structure SlotState.Safe (state : SlotState) : Prop where
  bounded : state.sender.numSendingPack ≤ state.sender.pendingPackets
  current : ∀ numSending, state.point = .outside (.writing numSending) →
    state.sender.sendingCurPacket ≠ none

/-- The bound on the counter at every point of the owner: what it read at the start of a
turn has not been taken yet, and the packet that it writes is not counted. -/
def SlotPoint.Bound (sender : Sender) : SlotPoint → Prop
  | .outside (.turn numSending) =>
      numSending ≤ sender.numSendingPack ∧ sender.numSendingPack ≤ sender.pendingPackets
  | .outside (.writing numSending) =>
      sender.sendingCurPacket ≠ none ∧ numSending ≤ sender.numSendingPack ∧
        sender.numSendingPack ≤ sender.sendingPacket.length
  | .outside _ => sender.numSendingPack ≤ sender.pendingPackets
  | .cleaning => sender.numSendingPack ≤ sender.sendingPacket.length

structure SlotInvariant (state : SlotState) : Prop where
  linked : state.sender.Linked
  bound : state.point.Bound state.sender

theorem Sender.length_le_pendingPackets (sender : Sender) :
    (sender.sendingPacket.length : Int) ≤ sender.pendingPackets := by
  unfold pendingPackets
  split <;> omega

theorem Sender.pendingPackets_le (sender : Sender) :
    sender.pendingPackets ≤ sender.sendingPacket.length + 1 := by
  unfold pendingPackets
  split <;> omega

theorem Sender.pendingPackets_of_none {sender : Sender}
    (none : sender.sendingCurPacket = none) :
    sender.pendingPackets = sender.sendingPacket.length := by
  rw [pendingPackets, none]
  exact Int.add_zero _

theorem SlotInvariant.safe {state : SlotState} (invariant : SlotInvariant state) :
    state.Safe := by
  obtain ⟨sender, point⟩ := state
  have bound := invariant.bound
  have pending := sender.length_le_pendingPackets
  match point, bound with
  | .outside .idle, bound => exact ⟨bound, fun _ same => by cases same⟩
  | .outside .closing, bound => exact ⟨bound, fun _ same => by cases same⟩
  | .outside (.turn _), bound => exact ⟨bound.2, fun _ same => by cases same⟩
  | .outside (.writing _), bound =>
      exact ⟨Int.le_trans bound.2.2 pending, fun _ _ => bound.1⟩
  | .cleaning, bound => exact ⟨Int.le_trans bound pending, fun _ same => by cases same⟩

theorem SlotPoint.Bound.enqueue {sender : Sender} {point : SlotPoint}
    (bound : point.Bound sender) (linked : sender.Linked) (packet : Packet) :
    point.Bound (sender.enqueue packet) := by
  have list : ((sender.enqueue packet).sendingPacket.length : Int) =
      sender.sendingPacket.length + 1 := by
    rw [linked.enqueue_list, List.length_append]
    rfl
  have count : (sender.enqueue packet).numSendingPack = sender.numSendingPack + 1 := rfl
  have current : (sender.enqueue packet).sendingCurPacket = sender.sendingCurPacket := rfl
  have pending : (sender.enqueue packet).pendingPackets = sender.pendingPackets + 1 := by
    rw [Sender.pendingPackets, Sender.pendingPackets, list, current]
    omega
  cases point with
  | outside phase =>
      cases phase with
      | idle =>
          simp only [SlotPoint.Bound, count, pending] at bound ⊢
          omega
      | closing =>
          simp only [SlotPoint.Bound, count, pending] at bound ⊢
          omega
      | turn numSending =>
          simp only [SlotPoint.Bound, count, pending] at bound ⊢
          omega
      | writing numSending =>
          simp only [SlotPoint.Bound, count, current, list] at bound ⊢
          exact ⟨bound.1, by omega, by omega⟩
  | cleaning =>
      simp only [SlotPoint.Bound, count, list] at bound ⊢
      omega

/-- A step of the flush loop keeps the bound: a turn that finds no packet to take and
none to write would have read a count of 0. -/
theorem FlushOutcome.bound {before after : Sender} {event : FlushEvent} {phase phase' : Phase}
    (outcome : FlushOutcome before event phase after phase')
    (bound : (SlotPoint.outside phase).Bound before) :
    (SlotPoint.outside phase').Bound after := by
  cases outcome with
  | skipped few => exact bound
  | began several => exact ⟨Int.le_refl _, bound⟩
  | ended spent => exact bound.2
  | @unlinked numSending packet rest more list free =>
      obtain ⟨read, counted⟩ := bound
      rw [Sender.pendingPackets_of_none free, list, List.length_cons] at counted
      refine ⟨Option.some_ne_none _, ?_, ?_⟩
      · show numSending - 1 ≤ before.numSendingPack - 1
        omega
      · show before.numSendingPack - 1 ≤ (rest.length : Int)
        omega
  | @kept numSending more pending =>
      obtain ⟨read, counted⟩ := bound
      have atMost := before.pendingPackets_le
      have there : before.sendingCurPacket ≠ none := by
        intro free
        rw [Sender.pendingPackets_of_none free,
          pending.resolve_right fun there => there free] at counted
        simp only [List.length_nil, Int.ofNat_zero] at counted
        omega
      refine ⟨there, ?_, ?_⟩
      · show numSending - 1 ≤ before.numSendingPack - 1
        omega
      · show before.numSendingPack - 1 ≤ (before.sendingPacket.length : Int)
        omega
  | @blocked packet sent again numSending current unwritten nothing =>
      have counted := Int.le_trans bound.2.2 before.length_le_pendingPackets
      cases again with
      | false => exact counted
      | true => exact counted
  | wrote current unwritten something => exact ⟨Option.some_ne_none _, bound.2.1, bound.2.2⟩
  | finished current written =>
      refine ⟨bound.2.1, ?_⟩
      rw [Sender.pendingPackets_of_none rfl]
      exact bound.2.2

namespace SlotInvariant

variable {event : SlotEvent} {before after : SlotState}

theorem start : SlotInvariant ⟨.zero, .outside .idle⟩ := ⟨.zero, Int.le_refl 0⟩

theorem flush {flushEvent : FlushEvent} {sender sender' : Sender} {phase phase' : Phase}
    (invariant : SlotInvariant ⟨sender, .outside phase⟩)
    (stepped : flushStep flushEvent phase sender = some (sender', phase')) :
    SlotInvariant ⟨sender', .outside phase'⟩ := by
  have outcome := flushStep_outcome stepped
  refine ⟨?_, outcome.bound invariant.bound⟩
  cases outcome with
  | unlinked more list free =>
      obtain ⟨tail, nodup⟩ := invariant.linked.unlink list
      exact ⟨tail, nodup⟩
  | skipped few => exact invariant.linked
  | began several => exact invariant.linked
  | ended spent => exact invariant.linked
  | kept more pending => exact ⟨invariant.linked.tail, invariant.linked.nodup⟩
  | blocked current unwritten nothing => exact invariant.linked
  | wrote current unwritten something => exact ⟨invariant.linked.tail, invariant.linked.nodup⟩
  | finished current written => exact ⟨invariant.linked.tail, invariant.linked.nodup⟩

theorem step (invariant : SlotInvariant before) (stepped : slotStep event before = some after) :
    SlotInvariant after := by
  have cleared {sender : Sender} (linked : sender.Linked) : sender.clearCounter.Linked :=
    ⟨linked.tail, linked.nodup⟩
  have nonneg (sender : Sender) : (0 : Int) ≤ sender.sendingPacket.length :=
    Int.natCast_nonneg _
  match event, before, stepped with
  | .enqueue packet, state, stepped =>
      rw [slotStep] at stepped
      split at stepped
      · rename_i unused
        cases stepped
        exact ⟨invariant.linked.enqueue unused.1,
          invariant.bound.enqueue invariant.linked packet⟩
      · cases stepped
  | .flush flushEvent, ⟨sender, .outside phase⟩, stepped =>
      rw [slotStep, Option.map_eq_some_iff] at stepped
      obtain ⟨⟨sender', phase'⟩, flushed, rfl⟩ := stepped
      exact invariant.flush flushed
  | .connect, ⟨sender, .outside .idle⟩, stepped =>
      cases stepped
      refine ⟨cleared invariant.linked, ?_⟩
      exact Int.le_trans (nonneg sender) sender.clearCounter.length_le_pendingPackets
  | .fail, ⟨sender, .outside .idle⟩, stepped =>
      cases stepped
      exact ⟨invariant.linked, invariant.bound⟩
  | .clearCounter, ⟨sender, .outside .closing⟩, stepped =>
      cases stepped
      exact ⟨cleared invariant.linked, nonneg sender⟩
  | .clearCurrent, ⟨sender, .cleaning⟩, stepped =>
      cases stepped
      refine ⟨⟨invariant.linked.tail, invariant.linked.nodup⟩, ?_⟩
      exact Int.le_trans invariant.bound sender.clearCurrent.length_le_pendingPackets

end SlotInvariant

/-- In every state of every run of a slot, the counter is at most the number of pending
packets, and the owner has a current packet when it writes one. -/
theorem slotStep_safe (events : List SlotEvent) :
    Along slotStep (fun _ _ after => after.Safe) ⟨.zero, .outside .idle⟩ events :=
  Along.of_invariant
    (fun _ _ _ invariant stepped _ =>
      ⟨invariant.step stepped, (invariant.step stepped).safe⟩)
    SlotInvariant.start (Along.trivial _ events)

/-! Every step of the broker is a run of each of its slots. -/

/-- Two values of a slot's sender with a run of the slot between them. -/
def SlotRuns (before after : SlotState) : Prop :=
  ∃ events, run slotStep before events = some after

namespace SlotRuns

theorem refl (state : SlotState) : SlotRuns state state := ⟨[], rfl⟩

theorem trans {first second third : SlotState} (left : SlotRuns first second)
    (right : SlotRuns second third) : SlotRuns first third := by
  obtain ⟨leftEvents, leftRan⟩ := left
  obtain ⟨rightEvents, rightRan⟩ := right
  exact ⟨leftEvents ++ rightEvents, run_append leftRan rightRan⟩

theorem single {event : SlotEvent} {before after : SlotState}
    (stepped : slotStep event before = some after) : SlotRuns before after :=
  ⟨[event], run_cons.mpr ⟨after, stepped, rfl⟩⟩

end SlotRuns

theorem Sender.Sound.unused {calls : Nat} {sender : Sender} (sound : sender.Sound calls)
    {address : Address} (fresh : calls ≤ address) : sender.Unused address := by
  constructor
  · intro member
    obtain ⟨packet, listed, rfl⟩ := List.mem_map.mp member
    exact Nat.not_lt.mpr fresh (sound.listed packet listed)
  · intro member
    obtain ⟨packet, current, rfl⟩ := Option.map_eq_some_iff.mp member
    exact Nat.not_lt.mpr fresh (sound.current packet current)

theorem Sender.Sound.enqueueAll_runs {calls : Nat} {sender : Sender}
    (sound : sender.Sound calls) {packets : List Packet}
    (fresh : ∀ packet ∈ packets, calls ≤ packet.address)
    (ordered : (packets.map Packet.address).Pairwise (· < ·)) (point : SlotPoint) :
    SlotRuns ⟨sender, point⟩ ⟨packets.foldl Sender.enqueue sender, point⟩ := by
  induction packets generalizing sender calls with
  | nil => exact .refl _
  | cons packet rest induction =>
      rw [List.map_cons, List.pairwise_cons] at ordered
      obtain ⟨first, _⟩ := List.forall_mem_cons.mp fresh
      have enqueued : slotStep (.enqueue packet) ⟨sender, point⟩ =
          some ⟨sender.enqueue packet, point⟩ := by
        rw [slotStep, if_pos (sound.unused first)]
      exact (SlotRuns.single enqueued).trans (induction (sound.enqueue first)
        (fun other member => ordered.1 other.address (List.mem_map_of_mem member)) ordered.2)

theorem Sent.slotRuns {before after : Broker} {packets : Nat → List Packet}
    (sent : Sent before after packets) {slot : Nat}
    (sound : (before.clients slot).sender.Sound before.memory.calls) (point : SlotPoint) :
    SlotRuns ⟨(before.clients slot).sender, point⟩ ⟨(after.clients slot).sender, point⟩ := by
  rw [sent.senders]
  exact sound.enqueueAll_runs (fun packet member => (sent.allocated slot packet member).1)
    (sent.ordered slot) point

/-- A message is a CONNECT and a few packets to its own slot, and a few packets to any
other one. -/
theorem Handled.slotRuns {broker after : Broker} {context : Nat} {message : Message}
    {rc : UInt8} (handled : Handled broker context message after rc)
    (own : (broker.clients context).sock = context) {slot : Nat}
    (sound : (broker.clients slot).sender.Sound broker.memory.calls) (phase : Phase)
    (idle : slot = context → phase = .idle) :
    SlotRuns ⟨(broker.clients slot).sender, .outside phase⟩
      ⟨(after.clients slot).sender, .outside phase⟩ := by
  cases handled with
  | published type sent delivered only => exact sent.slotRuns sound _
  | connected accepted sent only =>
      rw [own] at sent
      by_cases isOwn : slot = context
      · subst isOwn
        rw [idle rfl]
        have client : ((addClient broker message.connect.clientId slot).clients slot).sender =
            (broker.clients slot).sender.clearCounter := by
          rw [addClient, Broker.modifyClient_self]
          rfl
        have connect : slotStep .connect ⟨(broker.clients slot).sender, .outside .idle⟩ =
            some ⟨(broker.clients slot).sender.clearCounter, .outside .idle⟩ := rfl
        rw [← client] at connect
        refine (SlotRuns.single connect).trans (sent.slotRuns ?_ _)
        rw [client]
        exact ⟨⟨sound.linked.tail, sound.linked.nodup⟩, sound.listed, sound.current⟩
      · have client : (addClient broker message.connect.clientId context).clients slot =
            broker.clients slot := by
          rw [addClient, Broker.modifyClient_other _ _ isOwn]
        have runs := sent.slotRuns (client ▸ sound) (.outside phase)
        rwa [client] at runs
  | @subscribed middle grown _ _ filter found isConnected quiet added sent only =>
      have same : ((grown.modifyClient context setSubscribed).clients slot).sender =
          (broker.clients slot).sender := by
        rw [← (Handled.grownSlot quiet added slot).1]
        by_cases isOwn : slot = context
        · subst isOwn
          rw [Broker.modifyClient_self, setSubscribed]
        · rw [Broker.modifyClient_other _ _ isOwn]
      have later := sound.mono (quiet.memory.trans added.memory).calls
      rw [← same] at later ⊢
      exact sent.slotRuns later _
  | @unsubscribed middle grown _ _ filter failure _ found isConnected quiet added failed sent =>
      have same := (Handled.grownSlot quiet added slot).1
      have later := sound.mono (quiet.memory.trans added.memory).calls
      rw [← same] at later ⊢
      exact sent.slotRuns later _
  | replied notPublish notConnect notSubscribe sent only => exact sent.slotRuns sound _

theorem FlushOutcome.flushStep_eq {before after : Sender} {event : FlushEvent}
    {phase phase' : Phase} (outcome : FlushOutcome before event phase after phase') :
    flushStep event phase before = some (after, phase') := by
  cases outcome with
  | skipped few => simp only [flushStep, flushBegin, if_pos few]
  | began several => simp only [flushStep, flushBegin, if_neg several]
  | ended spent => simp only [flushStep, flushTake, if_neg spent]
  | unlinked more list free =>
      simp only [flushStep, flushTake, if_pos more, list, free]
  | kept more pending =>
      simp only [flushStep, flushTake, if_pos more]
      split
      · rename_i list free
        rcases pending with none | there
        · rw [none] at list
          cases list
        · exact absurd free there
      · rfl
  | blocked current unwritten nothing =>
      simp only [flushStep, current, if_pos unwritten, flushWrite, if_pos nothing]
  | wrote current unwritten something =>
      simp only [flushStep, current, if_pos unwritten, flushWrite, if_neg something]
  | finished current written =>
      simp only [flushStep, current, if_neg written, flushDone]

/-- What the system of one slot sees of the broker. -/
def LoopState.slotState (state : LoopState) (slot : Nat) : SlotState :=
  ⟨(state.broker.clients slot).sender, .outside (state.phase slot)⟩

theorem Stepped.slotRuns {event : LoopEvent} {before after : LoopState}
    (stepped : Stepped before event after) (sound : before.Sound) (slot : Nat) :
    SlotRuns (before.slotState slot) (after.slotState slot) := by
  have fails {context : Nat} (idle : before.phase context = .idle) (sender : Sender) :
      SlotRuns ⟨sender, .outside (before.phase slot)⟩
        ⟨sender, .outside (Function.update before.phase context .closing slot)⟩ := by
    by_cases own : slot = context
    · rw [own, Function.update_self, idle]
      exact ⟨[.fail], rfl⟩
    · rw [Function.update_of_ne own]
      exact .refl _
  cases stepped with
  | @accepted sock free =>
      obtain ⟨_, client⟩ := acceptClient_client before.broker sock slot
      simp only [LoopState.slotState, client]
      exact .refl _
  | @unparsed context frame parser isOpen idle rejected =>
      have sender := (keepParser_sent before.broker context parser).senders slot
      rw [List.foldl_nil] at sender
      simp only [LoopState.slotState, sender]
      exact fails idle _
  | @handled context frame message broker retCode isOpen idle parsed handled returned =>
      have runs := handled.slotRuns (sound.sock context isOpen) (sound.senders slot)
        (before.phase slot) fun own => by rw [own, idle]
      refine runs.trans ?_
      simp only [LoopState.slotState]
      split
      · exact .refl _
      · exact fails idle _
  | @failed context isOpen idle => exact fails idle _
  | @removed context isOpen closing =>
      by_cases own : slot = context
      · subst own
        simp only [LoopState.slotState, removeClient_self, Function.update_self, closing]
        exact ⟨[.clearCounter, .clearCurrent], rfl⟩
      · simp only [LoopState.slotState, removeClient_other _ own, Function.update_of_ne own]
        exact .refl _
  | @flushed context event sender phase isOpen answered outcome =>
      by_cases own : slot = context
      · subst own
        simp only [LoopState.slotState, Broker.modifySender_self, Function.update_self]
        have flushed : slotStep (.flush event)
            ⟨(before.broker.clients slot).sender, .outside (before.phase slot)⟩ =
              some ⟨sender, .outside phase⟩ := by
          rw [slotStep, outcome.flushStep_eq]
          rfl
        exact .single flushed
      · simp only [LoopState.slotState, Broker.modifySender_other _ _ own,
          Function.update_of_ne own]
        exact .refl _

/-- A run of the broker is a run of each of its slots. -/
theorem LoopState.Sound.slotRuns {before final : LoopState} (sound : before.Sound)
    {events : List LoopEvent} (ran : run loopStep before events = some final) (slot : Nat) :
    SlotRuns (before.slotState slot) (final.slotState slot) := by
  induction events generalizing before with
  | nil =>
      cases ran
      exact .refl _
  | cons event rest induction =>
      obtain ⟨next, stepped, ranRest⟩ := run_cons.mp ran
      have took := loopStep_stepped stepped
      exact (took.slotRuns sound slot).trans (induction (sound.step took) ranRest)

end MuMQ
