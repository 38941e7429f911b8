import MuMQ.Broker.Client

namespace MuMQ

/-! The send queue of a client: the locked section that appends to it and the
steps of `loop_run`'s flush loop. -/

/-- `tail->next = new_packet` for the packet at `tail`; the new packet's own
`next` is `NULL`. -/
def linkAfter (tail : Address) (newPacket : Packet) : List Packet → List Packet
  | [] => []
  | packet :: rest =>
      if packet.address = tail then [packet, newPacket]
      else packet :: linkAfter tail newPacket rest

namespace Sender

/-- The locked section that ends `publish_msg` and `ack_msg`. -/
def enqueue (sender : Sender) (newPacket : Packet) : Sender :=
  { sender with
    sendingPacket :=
      match sender.sendingPacketTail with
      | some tail => linkAfter tail newPacket sender.sendingPacket
      | none => [newPacket]
    sendingPacketTail := some newPacket.address
    numSendingPack := sender.numSendingPack + 1 }

end Sender

/-- Where the thread that owns a slot stands with it: outside the flush loop,
between a failed read or write and `remove_client`, at the head of the loop over
`num_sending`, or in the loop that writes the current packet. -/
inductive Phase where
  | idle
  | closing
  | turn (numSending : Int)
  | writing (numSending : Int)
  deriving DecidableEq

/-- Reading `num_sending_pack` at the start of a client's turn. -/
def flushBegin (sender : Sender) : Phase :=
  if sender.numSendingPack < 1 then .idle else .turn sender.numSendingPack

/-- `while (num_sending-- > 0)` and the locked section behind it. -/
def flushTake (numSending : Int) (sender : Sender) : Sender × Phase :=
  if numSending > 0 then
    let sender :=
      match sender.sendingPacket, sender.sendingCurPacket with
      | packet :: rest, none =>
          { sender with
            sendingCurPacket := some packet
            sendingPacket := rest
            sendingPacketTail :=
              if rest.isEmpty then none else sender.sendingPacketTail }
      | _, _ => sender
    ({ sender with numSendingPack := sender.numSendingPack - 1 },
      .writing (numSending - 1))
  else (sender, .idle)

/-- One `send` of the rest of the current packet, which returned `sent`; `again`
says that `errno` is `EAGAIN` or `EWOULDBLOCK`.  The result goes through the
`uint32_t` variable `wlen` before it is tested. -/
def flushWrite (numSending : Int) (packet : Packet) (sent : Int) (again : Bool)
    (sender : Sender) : Sender × Phase :=
  let wlen := UInt32.ofInt sent
  if wlen ≤ 0 then
    (sender, if again then .idle else .closing)
  else
    ({ sender with
        sendingCurPacket := some { packet with wcur := packet.wcur + wlen } },
      .writing numSending)

/-- The current packet is written: it is counted and freed. -/
def flushDone (numSending : Int) (sender : Sender) : Sender × Phase :=
  ({ sender with
      sndNum := sender.sndNum + 1
      sendingCurPacket := none },
    .turn numSending)

/-- A step of the owning thread in the flush loop, as far as it depends on the
world outside. -/
inductive FlushEvent where
  | begin
  | take
  | write (sent : Int) (again : Bool)
  | done
  deriving DecidableEq

/-- The flush loop: the one next step of the thread that owns the slot.  Writing
without a current packet is a null dereference and has no next step. -/
def flushStep : FlushEvent → Phase → Sender → Option (Sender × Phase)
  | .begin, .idle, sender => some (sender, flushBegin sender)
  | .take, .turn numSending, sender => some (flushTake numSending sender)
  | .write sent again, .writing numSending, sender =>
      match sender.sendingCurPacket with
      | some packet =>
          if packet.wcur < packet.wlen then
            some (flushWrite numSending packet sent again sender)
          else none
      | none => none
  | .done, .writing numSending, sender =>
      match sender.sendingCurPacket with
      | some packet =>
          if packet.wcur < packet.wlen then none
          else some (flushDone numSending sender)
      | none => none
  | _, _, _ => none

/-! The list and its tail pointer. -/

/-- The tail pointer points to the last packet of the list, and packets are
different blocks. -/
structure Sender.Linked (sender : Sender) : Prop where
  tail : sender.sendingPacketTail = sender.sendingPacket.getLast?.map Packet.address
  nodup : (sender.sendingPacket.map Packet.address).Nodup

theorem linkAfter_last {packets : List Packet} {tail : Address} (newPacket : Packet)
    (nodup : (packets.map Packet.address).Nodup)
    (last : packets.getLast?.map Packet.address = some tail) :
    linkAfter tail newPacket packets = packets ++ [newPacket] := by
  induction packets with
  | nil => cases last
  | cons packet rest induction =>
      rw [List.map_cons, List.nodup_cons] at nodup
      rw [linkAfter]
      cases rest with
      | nil =>
          have own : packet.address = tail := by simpa using last
          rw [if_pos own]
          rfl
      | cons second rest =>
          have lastRest :
              (second :: rest).getLast?.map Packet.address = some tail := by
            simpa using last
          have other : packet.address ≠ tail := by
            rintro rfl
            obtain ⟨found, foundLast, equal⟩ := Option.map_eq_some_iff.mp lastRest
            exact nodup.1
              (equal ▸ List.mem_map_of_mem (List.mem_of_getLast? foundLast))
          rw [if_neg other, induction nodup.2 lastRest]
          rfl

namespace Sender.Linked

variable {sender : Sender}

theorem zero : Sender.zero.Linked := ⟨rfl, List.nodup_nil⟩

theorem enqueue_list (linked : sender.Linked) (newPacket : Packet) :
    (sender.enqueue newPacket).sendingPacket = sender.sendingPacket ++ [newPacket] := by
  unfold Sender.enqueue
  rw [linked.tail]
  cases last : sender.sendingPacket.getLast?.map Packet.address with
  | none =>
      have empty : sender.sendingPacket = [] := by simpa using last
      simp [empty]
  | some tail => exact linkAfter_last newPacket linked.nodup last

theorem enqueue (linked : sender.Linked) {newPacket : Packet}
    (fresh : newPacket.address ∉ sender.sendingPacket.map Packet.address) :
    (sender.enqueue newPacket).Linked := by
  refine ⟨?_, ?_⟩
  · rw [linked.enqueue_list]
    simp [Sender.enqueue]
  · rw [linked.enqueue_list, List.map_append, List.map_singleton]
    refine List.nodup_append.mpr ⟨linked.nodup, by simp, ?_⟩
    intro address member other inSingleton equal
    rw [List.mem_singleton] at inSingleton
    exact fresh (inSingleton ▸ equal ▸ member)

theorem unlink (linked : sender.Linked) {packet : Packet} {rest : List Packet}
    (list : sender.sendingPacket = packet :: rest) :
    (if rest.isEmpty then none else sender.sendingPacketTail) =
        rest.getLast?.map Packet.address ∧
      (rest.map Packet.address).Nodup := by
  have nodup := linked.nodup
  rw [list, List.map_cons, List.nodup_cons] at nodup
  refine ⟨?_, nodup.2⟩
  rw [linked.tail, list]
  cases rest with
  | nil => rfl
  | cons second rest => simp

end Sender.Linked

/-- What a flush step can do to the queue and where it leaves the thread. -/
inductive FlushOutcome (before : Sender) : FlushEvent → Phase → Sender → Phase → Prop
  | skipped (few : before.numSendingPack < 1) :
      FlushOutcome before .begin .idle before .idle
  | began (several : ¬ before.numSendingPack < 1) :
      FlushOutcome before .begin .idle before (.turn before.numSendingPack)
  | ended (spent : ¬ numSending > 0) :
      FlushOutcome before .take (.turn numSending) before .idle
  | unlinked (more : numSending > 0)
      (list : before.sendingPacket = packet :: rest)
      (free : before.sendingCurPacket = none) :
      FlushOutcome before .take (.turn numSending)
        { before with
          sendingCurPacket := some packet
          sendingPacket := rest
          sendingPacketTail := if rest.isEmpty then none else before.sendingPacketTail
          numSendingPack := before.numSendingPack - 1 }
        (.writing (numSending - 1))
  | kept (more : numSending > 0)
      (pending : before.sendingPacket = [] ∨ before.sendingCurPacket ≠ none) :
      FlushOutcome before .take (.turn numSending)
        { before with numSendingPack := before.numSendingPack - 1 }
        (.writing (numSending - 1))
  | blocked (current : before.sendingCurPacket = some packet)
      (unwritten : packet.wcur < packet.wlen) (nothing : UInt32.ofInt sent ≤ 0) :
      FlushOutcome before (.write sent again) (.writing numSending) before
        (if again then .idle else .closing)
  | wrote (current : before.sendingCurPacket = some packet)
      (unwritten : packet.wcur < packet.wlen) (something : ¬ UInt32.ofInt sent ≤ 0) :
      FlushOutcome before (.write sent again) (.writing numSending)
        { before with
          sendingCurPacket :=
            some { packet with wcur := packet.wcur + UInt32.ofInt sent } }
        (.writing numSending)
  | finished (current : before.sendingCurPacket = some packet)
      (written : ¬ packet.wcur < packet.wlen) :
      FlushOutcome before .done (.writing numSending)
        { before with sndNum := before.sndNum + 1, sendingCurPacket := none }
        (.turn numSending)

theorem flushStep_outcome {event : FlushEvent} {phase phase' : Phase}
    {sender sender' : Sender}
    (stepped : flushStep event phase sender = some (sender', phase')) :
    FlushOutcome sender event phase sender' phase' := by
  cases event with
  | begin =>
      cases phase <;> simp only [flushStep, reduceCtorEq] at stepped
      obtain ⟨rfl, rfl⟩ := Prod.mk.inj (Option.some.inj stepped)
      unfold flushBegin
      split
      · rename_i few
        exact .skipped few
      · rename_i several
        exact .began several
  | take =>
      cases phase <;> simp only [flushStep, reduceCtorEq] at stepped
      rename_i numSending
      have result := Option.some.inj stepped
      unfold flushTake at result
      split at result
      · rename_i more
        split at result <;> obtain ⟨rfl, rfl⟩ := Prod.mk.inj result
        · rename_i list free
          exact .unlinked more list free
        · rename_i notBoth
          refine .kept more ?_
          cases list : sender.sendingPacket with
          | nil => exact .inl rfl
          | cons packet rest => exact .inr (fun free => notBoth packet rest list free)
      · rename_i spent
        obtain ⟨rfl, rfl⟩ := Prod.mk.inj result
        exact .ended spent
  | write sent again =>
      cases phase <;> simp only [flushStep, reduceCtorEq] at stepped
      split at stepped
      · rename_i packet current
        split at stepped
        · rename_i unwritten
          have result := Option.some.inj stepped
          unfold flushWrite at result
          by_cases nothing : UInt32.ofInt sent ≤ 0
          · rw [if_pos nothing] at result
            obtain ⟨rfl, rfl⟩ := Prod.mk.inj result
            exact .blocked current unwritten nothing
          · rw [if_neg nothing] at result
            obtain ⟨rfl, rfl⟩ := Prod.mk.inj result
            exact .wrote current unwritten nothing
        · cases stepped
      · cases stepped
  | done =>
      cases phase <;> simp only [flushStep, reduceCtorEq] at stepped
      split at stepped
      · rename_i packet current
        split at stepped
        · cases stepped
        · rename_i written
          obtain ⟨rfl, rfl⟩ := Prod.mk.inj (Option.some.inj stepped)
          exact .finished current written
      · cases stepped

end MuMQ
