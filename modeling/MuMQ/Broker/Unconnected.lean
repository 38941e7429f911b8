import MuMQ.Broker.Loop

namespace MuMQ

open Data

/-! What a packet does on a connection that has no accepted CONNECT. -/

/-- A packet of a slot that is not connected changes neither the tree nor the queue of
another slot. -/
def HasNoEffect (event : LoopEvent) (before after : LoopState) : Prop :=
  match event with
  | .packet context _ =>
      (before.broker.clients context).state ≠ .csConnected →
        after.broker.subs = before.broker.subs ∧
          ∀ slot, slot ≠ context →
            (after.broker.clients slot).sender = (before.broker.clients slot).sender
  | _ => True

/-- No other subscribed client has a leaf at a node that the search for a topic
visits. -/
def ReachesNobody (broker : Broker) (context : Nat) (topic : CString) : Prop :=
  ∀ site ∈ broker.subs.sites, rootVisits site.path site.inner (tokens topic) = true →
    ∀ slot ∈ site.contexts, slot ≠ context → (broker.clients slot).isSubscribe = false

instance (broker : Broker) (context : Nat) (topic : CString) :
    Decidable (ReachesNobody broker context topic) :=
  inferInstanceAs (Decidable (∀ site ∈ (_ : List Site), _ = _ →
    ∀ slot ∈ site.contexts, _ → _ = _))

/-- What a slot publishes that is not connected reaches nobody. -/
def PublishesNothing (event : LoopEvent) (before : LoopState) : Prop :=
  match event with
  | .packet context frame =>
      (before.broker.clients context).state ≠ .csConnected →
        ∀ topic ∈ (parsedMessage before.broker context frame).bind publishedTopic,
          ReachesNobody before.broker context topic
  | _ => True

instance (event : LoopEvent) (before : LoopState) :
    Decidable (PublishesNothing event before) :=
  match event with
  | .packet _ _ =>
      inferInstanceAs (Decidable (_ → ∀ topic ∈ (_ : Option CString),
        ReachesNobody _ _ topic))
  | .accept _ => isTrue trivial
  | .fail _ => isTrue trivial
  | .remove _ => isTrue trivial
  | .flush _ _ => isTrue trivial

namespace Handled

variable {broker after : Broker} {context : Nat} {message : Message} {rc : UInt8}

theorem subs_of_unconnected (handled : Handled broker context message after rc)
    (unconnected : (broker.clients context).state ≠ .csConnected) :
    after.subs = broker.subs := by
  rcases handled.tree with ⟨subs, _, _⟩ | ⟨_, _, subscribing⟩
  · exact subs
  · exact absurd subscribing.isConnected unconnected

theorem sender_of_unconnected (handled : Handled broker context message after rc)
    (own : (broker.clients context).sock = context)
    (unconnected : (broker.clients context).state ≠ .csConnected)
    (nobody : ∀ topic ∈ publishedTopic message, ReachesNobody broker context topic)
    {slot : Nat} (other : slot ≠ context) :
    (after.clients slot).sender = (broker.clients slot).sender := by
  cases handled with
  | @published _ packets type sent delivered only =>
      have nothing : packets slot = [] := by
        refine only slot fun delivery member same => ?_
        obtain ⟨routed, subscribed, site, siteMember, visited, leaf⟩ :=
          mem_publishDeliveries member
        rw [same] at subscribed leaf
        have silent := nobody _ routed site siteMember visited slot leaf other
        rw [subscribed] at silent
        cases silent
      rw [sent.senders, nothing]
      rfl
  | connected accepted sent only =>
      rw [sent.senders, only slot other, own, addClient, Broker.modifyClient_other _ _ other]
      rfl
  | subscribed found isConnected quiet added sent only =>
      exact absurd isConnected unconnected
  | unsubscribed found isConnected quiet added failed sent only nonzero =>
      exact absurd isConnected unconnected
  | replied notPublish notConnect notSubscribe sent only =>
      rw [sent.senders, only slot other]
      rfl

/-- With memory left, a PUBLISH that leaves the queues of the others alone reaches
nobody. -/
theorem reachesNobody_of_senders (handled : Handled broker context message after rc)
    (unfailing : broker.memory.Unfailing)
    (sound : ∀ slot, (broker.clients slot).sender.Sound broker.memory.calls)
    (kept : ∀ slot, slot ≠ context →
      (after.clients slot).sender = (broker.clients slot).sender)
    {topic : CString} (routed : publishedTopic message = some topic) :
    ReachesNobody broker context topic := by
  intro site member visited slot leaf other
  cases subscribed : (broker.clients slot).isSubscribe with
  | false => rfl
  | true =>
      obtain ⟨packets, sent, delivered, _⟩ := handled.routed routed
      obtain ⟨packet, packetMember, _⟩ := delivered _
        (mem_publishDeliveries_of_visits routed unfailing subscribed member visited leaf)
      have added := sent.addedPackets (sound slot)
      rw [MuMQ.addedPackets, kept slot other, List.drop_length] at added
      have packetMember : packet ∈ packets slot := packetMember
      rw [← added] at packetMember
      cases packetMember

end Handled

theorem Stepped.hasNoEffect {event : LoopEvent} {before after : LoopState}
    (stepped : Stepped before event after) (sound : before.Sound)
    (publishes : PublishesNothing event before) : HasNoEffect event before after := by
  match event, stepped with
  | .packet context frame, stepped =>
      intro unconnected
      cases stepped with
      | unparsed isOpen idle rejected =>
          exact ⟨rfl, fun slot other => by
            simp only [Broker.modifyClient_other _ _ other]⟩
      | handled isOpen idle parsed handled =>
          refine ⟨handled.subs_of_unconnected unconnected, fun slot other => ?_⟩
          refine handled.sender_of_unconnected (sound.sock context isOpen) unconnected
            (fun topic routed => ?_) other
          exact publishes unconnected topic (by rw [parsed]; exact routed)
  | .accept _, _ => trivial
  | .fail _, _ => trivial
  | .remove _, _ => trivial
  | .flush _ _, _ => trivial

/-- The queues are well formed, and allocations do not fail. -/
structure UnfailingInvariant (state : LoopState) : Prop where
  unfailing : state.broker.memory.Unfailing
  sound : state.Sound

namespace UnfailingInvariant

variable {event : LoopEvent} {before after : LoopState}

theorem step (invariant : UnfailingInvariant before) (stepped : Stepped before event after) :
    UnfailingInvariant after where
  unfailing := invariant.unfailing.extends stepped.memory
  sound := invariant.sound.step stepped

theorem publishesNothing (invariant : UnfailingInvariant before)
    (stepped : Stepped before event after) (noEffect : HasNoEffect event before after) :
    PublishesNothing event before := by
  match event, stepped with
  | .packet context frame, stepped =>
      intro unconnected topic published
      obtain ⟨message, parsed, routed⟩ := Option.bind_eq_some_iff.mp published
      obtain ⟨_, handled, _⟩ := stepped.handled_of_parsed parsed
      exact handled.reachesNobody_of_senders invariant.unfailing invariant.sound.senders
        (noEffect unconnected).2 routed
  | .accept _, _ => trivial
  | .fail _, _ => trivial
  | .remove _, _ => trivial
  | .flush _ _, _ => trivial

end UnfailingInvariant

/-- In a run in which what unconnected slots publish reaches nobody, their packets have
no effect; with memory, only in such a run. -/
theorem hasNoEffect_of_publishesNothing (memory : Memory) (events : List LoopEvent) :
    (Along loopStep (fun event before _ => PublishesNothing event before) (.start memory)
        events →
      Along loopStep HasNoEffect (.start memory) events) ∧
    (memory.Unfailing → Along loopStep HasNoEffect (.start memory) events →
      Along loopStep (fun event before _ => PublishesNothing event before) (.start memory)
        events) := by
  constructor
  · refine Along.of_invariant (fun event before after sound stepped publishes => ?_)
      (LoopState.Sound.start memory)
    have took := loopStep_stepped stepped
    exact ⟨sound.step took, took.hasNoEffect sound publishes⟩
  · intro unfailing
    refine Along.of_invariant (fun event before after invariant stepped noEffect => ?_)
      (UnfailingInvariant.mk unfailing (LoopState.Sound.start memory))
    have took := loopStep_stepped stepped
    exact ⟨invariant.step took, invariant.publishesNothing took noEffect⟩

/-- A client subscribes `a`; another one subscribes it and publishes `b` before it
connects, and publishes `a` after. -/
def connectsBefore : List LoopEvent :=
  [.accept 5, .packet 5 (connectFrame 0x61), .packet 5 (subscribeFrame 0x61), .accept 6,
    .packet 6 (publishFrame 0x62), .packet 6 (connectFrame 0x62),
    .packet 6 (publishFrame 0x61), .accept 7, .packet 7 (subscribeFrame 0x61)]

theorem hasNoEffect_of_publishesNothing_connectsBefore :
    (run loopStep (.start ⟨fun _ => true, fun _ => 0, 0⟩) connectsBefore).isSome = true ∧
      Along loopStep HasNoEffect (.start ⟨fun _ => true, fun _ => 0, 0⟩) connectsBefore ∧
      Along loopStep (fun event before _ => PublishesNothing event before)
        (.start ⟨fun _ => true, fun _ => 0, 0⟩) connectsBefore := by
  have publishes : Along loopStep (fun event before _ => PublishesNothing event before)
      (.start ⟨fun _ => true, fun _ => 0, 0⟩) connectsBefore :=
    along_of_check (fun event before => decide (PublishesNothing event before))
      (fun _ _ => of_decide_eq_true) (by decide +kernel)
  have both := hasNoEffect_of_publishesNothing ⟨fun _ => true, fun _ => 0, 0⟩ connectsBefore
  exact ⟨by decide +kernel, both.1 publishes, both.2 (fun _ => rfl) (both.1 publishes)⟩

/-- A client subscribes `a`, and another socket is accepted. -/
def neverConnects : List LoopEvent :=
  [.accept 5, .packet 5 (connectFrame 0x61), .packet 5 (subscribeFrame 0x61), .accept 6]

/-- What is published on that socket without a CONNECT is enqueued for the client. -/
theorem hasNoEffect_neverConnects :
    ∃ before after,
      run loopStep (.start ⟨fun _ => true, fun _ => 0, 0⟩) neverConnects = some before ∧
      loopStep (.packet 6 (publishFrame 0x61)) before = some after ∧
      (before.broker.clients 6).state = .csNew ∧
      (addedPackets before.broker after.broker 5).length = 1 ∧
      ¬ Along loopStep HasNoEffect (.start ⟨fun _ => true, fun _ => 0, 0⟩)
        (neverConnects ++ [.packet 6 (publishFrame 0x61)]) := by
  have computed : (run loopStep (.start ⟨fun _ => true, fun _ => 0, 0⟩) neverConnects).map
      (fun before => ((before.broker.clients 6).state,
        (loopStep (.packet 6 (publishFrame 0x61)) before).map fun after =>
          (addedPackets before.broker after.broker 5).length)) =
      some (.csNew, some 1) := by
    decide +kernel
  obtain ⟨before, ran, observed⟩ := Option.map_eq_some_iff.mp computed
  obtain ⟨fresh, published⟩ := Prod.mk.inj observed
  obtain ⟨after, stepped, added⟩ := Option.map_eq_some_iff.mp published
  refine ⟨before, after, ran, stepped, fresh, added, fun along => ?_⟩
  have kept := (along.last ran stepped (by rw [fresh]; decide)).2 5 (by decide)
  rw [addedPackets, kept, List.drop_length] at added
  cases added

end MuMQ
