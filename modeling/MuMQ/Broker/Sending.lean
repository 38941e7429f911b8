import MuMQ.Broker.Acknowledgement

namespace MuMQ

/-! Packets that are enqueued, one after another, on the slots of the broker. -/

/-- The packets of a queue are different blocks, all allocated by the first `calls`
calls of the allocator. -/
structure Sender.Sound (calls : Nat) (sender : Sender) : Prop where
  linked : sender.Linked
  listed : ∀ packet ∈ sender.sendingPacket, packet.address < calls
  current : ∀ packet, sender.sendingCurPacket = some packet → packet.address < calls

namespace Sender.Sound

variable {calls : Nat} {sender : Sender}

theorem mono {more : Nat} (sound : sender.Sound calls) (order : calls ≤ more) :
    sender.Sound more where
  linked := sound.linked
  listed packet member := Nat.lt_of_lt_of_le (sound.listed packet member) order
  current packet current := Nat.lt_of_lt_of_le (sound.current packet current) order

theorem enqueue (sound : sender.Sound calls) {newPacket : Packet}
    (fresh : calls ≤ newPacket.address) :
    (sender.enqueue newPacket).Sound (newPacket.address + 1) where
  linked := by
    apply sound.linked.enqueue
    intro member
    obtain ⟨packet, listed, same⟩ := List.mem_map.mp member
    exact absurd (same ▸ sound.listed packet listed) (Nat.not_lt.mpr fresh)
  listed := by
    intro packet member
    rw [sound.linked.enqueue_list, List.mem_append, List.mem_singleton] at member
    rcases member with earlier | rfl
    · exact Nat.lt_succ_of_lt (Nat.lt_of_lt_of_le (sound.listed packet earlier) fresh)
    · exact Nat.lt_succ_self _
  current packet current :=
    Nat.lt_succ_of_lt (Nat.lt_of_lt_of_le (sound.current packet current) fresh)

theorem flush (sound : sender.Sound calls) {event : FlushEvent} {phase phase' : Phase}
    {after : Sender} (outcome : FlushOutcome sender event phase after phase') :
    after.Sound calls := by
  cases outcome with
  | skipped few => exact sound
  | began several => exact sound
  | ended spent => exact sound
  | @unlinked numSending packet rest more list free =>
      obtain ⟨tail, nodup⟩ := sound.linked.unlink list
      have listed := sound.listed
      rw [list] at listed
      obtain ⟨first, others⟩ := List.forall_mem_cons.mp listed
      refine ⟨⟨tail, nodup⟩, others, fun other current => ?_⟩
      cases current
      exact first
  | kept more pending => exact ⟨⟨sound.linked.tail, sound.linked.nodup⟩, sound.listed,
      sound.current⟩
  | blocked current unwritten nothing => exact sound
  | @wrote packet sent _ _ current unwritten something =>
      refine ⟨⟨sound.linked.tail, sound.linked.nodup⟩, sound.listed, fun other advanced => ?_⟩
      cases advanced
      exact sound.current packet current
  | finished current written =>
      exact ⟨⟨sound.linked.tail, sound.linked.nodup⟩, sound.listed, fun _ none => by cases none⟩

end Sender.Sound

/-- What enqueueing several packets does to a queue. -/
structure Sender.Extended (before : Sender) (packets : List Packet) (after : Sender) :
    Prop where
  list : after.sendingPacket = before.sendingPacket ++ packets
  current : after.sendingCurPacket = before.sendingCurPacket
  count : after.numSendingPack = before.numSendingPack + packets.length

theorem Sender.Sound.enqueueAll {calls more : Nat} {sender : Sender}
    (sound : sender.Sound calls) {packets : List Packet}
    (allocated : ∀ packet ∈ packets, calls ≤ packet.address ∧ packet.address < more)
    (ordered : (packets.map Packet.address).Pairwise (· < ·)) (order : calls ≤ more) :
    (packets.foldl Sender.enqueue sender).Sound more ∧
      sender.Extended packets (packets.foldl Sender.enqueue sender) := by
  induction packets generalizing sender calls with
  | nil => exact ⟨sound.mono order, by simp, rfl, by simp⟩
  | cons packet rest induction =>
      rw [List.map_cons, List.pairwise_cons] at ordered
      obtain ⟨first, others⟩ := List.forall_mem_cons.mp allocated
      obtain ⟨sound', list, current, count⟩ := induction (sound.enqueue first.1)
        (fun other member =>
          ⟨ordered.1 other.address (List.mem_map_of_mem member), (others other member).2⟩)
        ordered.2 first.2
      rw [List.foldl_cons]
      refine ⟨sound', ?_, current, ?_⟩
      · rw [list, sound.linked.enqueue_list, List.append_assoc, List.singleton_append]
      · rw [count, List.length_cons]
        show sender.numSendingPack + 1 + _ = _
        omega

/-- Equal in the fields that say whose a slot is and what is done with it. -/
structure Client.Alike (before after : Client) : Prop where
  sock : after.sock = before.sock
  id : after.id = before.id
  state : after.state = before.state
  isSubscribe : after.isSubscribe = before.isSubscribe

namespace Client.Alike

theorem refl (client : Client) : client.Alike client := ⟨rfl, rfl, rfl, rfl⟩

theorem trans {first second third : Client} (left : first.Alike second)
    (right : second.Alike third) : first.Alike third where
  sock := right.sock.trans left.sock
  id := right.id.trans left.id
  state := right.state.trans left.state
  isSubscribe := right.isSubscribe.trans left.isSubscribe

theorem idString {before after : Client} (alike : before.Alike after) :
    after.idString = before.idString := by
  rw [Client.idString, alike.id, Client.idString]

end Client.Alike

/-- `after` comes from `before` by enqueueing on every slot the packets listed for
it, each made of new blocks; the tree and the clients stay what they are. -/
structure Sent (before after : Broker) (packets : Nat → List Packet) : Prop where
  clients : ∀ slot, (before.clients slot).Alike (after.clients slot)
  senders : ∀ slot, (after.clients slot).sender =
    (packets slot).foldl Sender.enqueue (before.clients slot).sender
  allocated : ∀ slot, ∀ packet ∈ packets slot,
    before.memory.calls ≤ packet.address ∧ packet.address < after.memory.calls
  ordered : ∀ slot, ((packets slot).map Packet.address).Pairwise (· < ·)
  memory : Memory.Extends before.memory after.memory
  subs : after.subs = before.subs
  rootLock : after.rootLock = before.rootLock
  contextsByPtr : after.contextsByPtr = before.contextsByPtr

namespace Sent

theorem of_quiet (broker : Broker) (slot : Nat) (change : Client → Client) {memory : Memory}
    (alike : (broker.clients slot).Alike (change (broker.clients slot)))
    (sender : (change (broker.clients slot)).sender = (broker.clients slot).sender)
    (extended : Memory.Extends broker.memory memory) :
    Sent broker { broker.modifyClient slot change with memory := memory } fun _ => [] where
  clients other := by
    by_cases own : other = slot
    · subst own
      rw [Broker.modifyClient_self]
      exact alike
    · rw [Broker.modifyClient_other _ _ own]
      exact .refl _
  senders other := by
    by_cases own : other = slot
    · subst own
      rw [Broker.modifyClient_self]
      exact sender
    · rw [Broker.modifyClient_other _ _ own]
      rfl
  allocated _ := by simp
  ordered _ := .nil
  memory := extended
  subs := rfl
  rootLock := rfl
  contextsByPtr := rfl

theorem refl (broker : Broker) : Sent broker broker fun _ => [] where
  clients _ := .refl _
  senders _ := rfl
  allocated _ := by simp
  ordered _ := .nil
  memory := .refl _
  subs := rfl
  rootLock := rfl
  contextsByPtr := rfl

theorem trans {before middle after : Broker} {first second : Nat → List Packet}
    (left : Sent before middle first) (right : Sent middle after second) :
    Sent before after fun slot => first slot ++ second slot where
  clients slot := (left.clients slot).trans (right.clients slot)
  senders slot := by
    rw [right.senders, left.senders, List.foldl_append]
  allocated slot packet member := by
    rcases List.mem_append.mp member with early | late
    · obtain ⟨lower, upper⟩ := left.allocated slot packet early
      exact ⟨lower, Nat.lt_of_lt_of_le upper right.memory.calls⟩
    · obtain ⟨lower, upper⟩ := right.allocated slot packet late
      exact ⟨Nat.le_trans left.memory.calls lower, upper⟩
  ordered slot := by
    rw [List.map_append, List.pairwise_append]
    refine ⟨left.ordered slot, right.ordered slot, ?_⟩
    intro early earlyMember late lateMember
    obtain ⟨first, firstMember, rfl⟩ := List.mem_map.mp earlyMember
    obtain ⟨second, secondMember, rfl⟩ := List.mem_map.mp lateMember
    exact Nat.lt_of_lt_of_le (left.allocated slot first firstMember).2
      (right.allocated slot second secondMember).1
  memory := left.memory.trans right.memory
  subs := right.subs.trans left.subs
  rootLock := right.rootLock.trans left.rootLock
  contextsByPtr := right.contextsByPtr.trans left.contextsByPtr

theorem andQuiet {before middle after : Broker} {packets : Nat → List Packet}
    (sent : Sent before middle packets) (quiet : Sent middle after fun _ => []) :
    Sent before after packets := by
  simpa only [List.append_nil] using sent.trans quiet

theorem extended {before after : Broker} {packets : Nat → List Packet}
    (sent : Sent before after packets) (slot : Nat)
    (sound : (before.clients slot).sender.Sound before.memory.calls) :
    (after.clients slot).sender.Sound after.memory.calls ∧
      (before.clients slot).sender.Extended (packets slot) (after.clients slot).sender := by
  rw [sent.senders]
  exact sound.enqueueAll (sent.allocated slot) (sent.ordered slot) sent.memory.calls

end Sent

theorem newPacket_address (memory : Memory) (message : Message) :
    (newPacket memory message).1.address = memory.calls ∧
      Memory.Extends memory (newPacket memory message).2 ∧
      memory.calls < (newPacket memory message).2.calls :=
  ⟨rfl, (Memory.Extends.mallocUnchecked memory).trans
    (Memory.Extends.mallocUnchecked memory.mallocUnchecked.2),
    Nat.lt_of_lt_of_le (Nat.lt_succ_self _) (Nat.le_succ _)⟩

theorem sendMessage_sent (broker : Broker) (context : Nat) (message : Message) :
    Sent broker (sendMessage broker context message)
      fun slot => if slot = context then [(newPacket broker.memory message).1] else [] where
  clients slot := by
    unfold sendMessage Broker.modifySender
    by_cases own : slot = context
    · subst own
      simp only [Broker.modifyClient_self]
      exact ⟨rfl, rfl, rfl, rfl⟩
    · simp only [Broker.modifyClient_other _ _ own]
      exact .refl _
  senders slot := by
    unfold sendMessage Broker.modifySender
    by_cases own : slot = context
    · subst own
      simp only [Broker.modifyClient_self, if_true]
      rfl
    · simp only [Broker.modifyClient_other _ _ own, if_neg own]
      rfl
  allocated slot packet member := by
    obtain ⟨address, _, grown⟩ := newPacket_address broker.memory message
    split at member
    · rw [List.mem_singleton.mp member, address]
      exact ⟨Nat.le_refl _, grown⟩
    · cases member
  ordered slot := by
    split
    · exact List.pairwise_singleton _ _
    · exact .nil
  memory := (newPacket_address broker.memory message).2.1
  subs := rfl
  rootLock := rfl
  contextsByPtr := rfl

theorem ackMsg_sent {broker : Broker} {context : Nat} {mqttCmd : UInt8}
    {payloadLen : UInt32} {retCode : UInt8} {frames : List (List UInt8)}
    (made : ∃ message,
      ackMessage (broker.clients context).lastMid mqttCmd payloadLen retCode = some message ∧
        replyFrames [(newPacket broker.memory message).1] = frames) :
    ∃ packets, Sent broker (ackMsg broker context mqttCmd payloadLen retCode) packets ∧
      (∀ slot, slot ≠ context → packets slot = []) ∧
      replyFrames (packets context) = frames := by
  obtain ⟨message, made, reply⟩ := made
  rw [ackMsg, made]
  refine ⟨_, sendMessage_sent .., fun slot other => if_neg other, ?_⟩
  rw [if_pos rfl]
  exact reply

/-- The packet of a delivery. -/
def IsPublishTo (delivery : Delivery) (packet : Packet) : Prop :=
  ∃ memory, packet =
    (newPacket memory (publishMessage delivery.topic delivery.payload delivery.len)).1

/-- Publishing enqueues a packet for each delivery, and no others. -/
theorem publishAll_sent (broker : Broker) {deliveries : List Delivery}
    (short : ∀ delivery ∈ deliveries, delivery.topic.strlen ≤ 65535) :
    ∃ packets, Sent broker
        (deliveries.foldl
          (fun broker delivery =>
            publishMsg broker delivery.context delivery.topic delivery.payload delivery.len)
          broker) packets ∧
      (∀ delivery ∈ deliveries, ∃ packet ∈ packets delivery.context,
        IsPublishTo delivery packet) ∧
      (∀ slot, (∀ delivery ∈ deliveries, delivery.context ≠ slot) → packets slot = []) ∧
      ∀ slot, replyFrames (packets slot) = [] := by
  induction deliveries generalizing broker with
  | nil => exact ⟨_, Sent.refl broker, by simp, fun _ _ => rfl, fun _ => rfl⟩
  | cons delivery rest induction =>
      obtain ⟨shortFirst, shortRest⟩ := List.forall_mem_cons.mp short
      obtain ⟨packets, sent, delivered, only, publishes⟩ := induction
        (publishMsg broker delivery.context delivery.topic delivery.payload delivery.len)
        shortRest
      refine ⟨_, (sendMessage_sent ..).trans sent, ?_, ?_, ?_⟩
      · intro other member
        rcases List.mem_cons.mp member with rfl | inRest
        · exact ⟨_, List.mem_append_left _ (by rw [if_pos rfl]; exact List.mem_singleton_self _),
            _, rfl⟩
        · obtain ⟨packet, packetMember, isPublish⟩ := delivered other inRest
          exact ⟨packet, List.mem_append_right _ packetMember, isPublish⟩
      · intro slot notTo
        obtain ⟨first, others⟩ := List.forall_mem_cons.mp notTo
        rw [if_neg (fun equal => first equal.symm), only slot others]
        rfl
      · intro slot
        rw [replyFrames_append, publishes slot, List.append_nil]
        refine replyFrames_eq_nil fun packet member => ?_
        split at member
        · rw [List.mem_singleton.mp member]
          exact newPacket_publish_isReply broker.memory shortFirst _ _
        · cases member

end MuMQ
