import MuMQ.Broker.Loop
import MuMQ.Substree.Others

namespace MuMQ

open Data

/-! What a SUBSCRIBE does to the deliveries of the other clients. -/

/-- The calls of `publish_msg` for a topic to clients other than `context`, with this
state of the allocator. -/
def otherDeliveries (broker : Broker) (context : Nat) (memory : Memory) (topic : CString)
    (payload : List UInt8) (len : UInt32) : List Delivery :=
  (mqtt3SubTreeProcess { broker with memory := memory } topic payload len).2.2.filter
    fun delivery => decide (delivery.context ≠ context)

/-- A SUBSCRIBE leaves the deliveries of every topic to other clients as they were. -/
def KeepsOthers (event : LoopEvent) (before after : LoopState) : Prop :=
  match event with
  | .packet context frame =>
      requestedFilter before.broker context frame ≠ none →
        ∀ memory topic payload len,
          otherDeliveries before.broker context memory topic payload len =
            otherDeliveries after.broker context memory topic payload len
  | _ => True

/-- No filter that a connected client subscribes passes a `#` node without children at
which another subscribed client has a leaf. -/
def SparesOthers (event : LoopEvent) (before : LoopState) : Prop :=
  match event with
  | .packet context frame =>
      ∀ filter ∈ requestedFilter before.broker context frame,
        (before.broker.clients context).state = .csConnected →
        SparesHashes before.broker.clients context (filterPath filter)
          before.broker.subs.sites
  | _ => True

instance (event : LoopEvent) (before : LoopState) : Decidable (SparesOthers event before) :=
  match event with
  | .packet _ _ =>
      inferInstanceAs (Decidable (∀ filter ∈ (_ : Option CString), _ = _ →
        SparesHashes _ _ (filterPath filter) _))
  | .accept _ => isTrue trivial
  | .fail _ => isTrue trivial
  | .remove _ => isTrue trivial
  | .flush _ _ => isTrue trivial

theorem otherDeliveries_of_tokenise {broker : Broker} {memory left : Memory}
    {topic : CString} {tokens : List Token}
    (tokenised : subTopicTokenise memory topic = (left, some tokens)) (context : Nat)
    (payload : List UInt8) (len : UInt32) :
    otherDeliveries broker context memory topic payload len =
      (othersCalled broker.clients context tokens broker.subs).map fun slot =>
        ⟨slot, topic, payload, len⟩ := by
  rw [otherDeliveries, mqtt3SubTreeProcess]
  simp only [tokenised]
  rw [List.filter_map]
  rfl

/-- Brokers whose searches call the others back alike make the same deliveries. -/
theorem otherDeliveries_congr {before after : Broker} {context : Nat}
    (same : ∀ tokens, othersCalled before.clients context tokens before.subs =
      othersCalled after.clients context tokens after.subs)
    (memory : Memory) (topic : CString) (payload : List UInt8) (len : UInt32) :
    otherDeliveries before context memory topic payload len =
      otherDeliveries after context memory topic payload len := by
  rcases tokenised : subTopicTokenise memory topic with ⟨left, _ | tokens⟩
  · simp only [otherDeliveries, mqtt3SubTreeProcess, tokenised]
  · rw [otherDeliveries_of_tokenise tokenised, otherDeliveries_of_tokenise tokenised,
      same tokens]

/-- With memory left the deliveries show which others a search calls back. -/
theorem othersCalled_of_otherDeliveries {before after : Broker} {context : Nat}
    {memory : Memory} (unfailing : memory.Unfailing) {topic : CString}
    {payload : List UInt8} {len : UInt32}
    (same : otherDeliveries before context memory topic payload len =
      otherDeliveries after context memory topic payload len) :
    othersCalled before.clients context (tokens topic) before.subs =
      othersCalled after.clients context (tokens topic) after.subs := by
  obtain ⟨_, tokenised⟩ := subTopicTokenise_yields memory topic
  have succeeded : (subTopicTokenise memory topic).2 = some (tokens topic) :=
    tokenised.resolve_right fun failed => failed.2 unfailing
  have whole : subTopicTokenise memory topic =
      ((subTopicTokenise memory topic).1, some (tokens topic)) := Prod.ext rfl succeeded
  rw [otherDeliveries_of_tokenise whole, otherDeliveries_of_tokenise whole] at same
  refine List.map_injective_iff.mpr (fun slot other equal => ?_) same
  exact congrArg Delivery.context equal

namespace Subscribing

variable {broker after : Broker} {context : Nat} {filter : CString} {acknowledged : Prop}

theorem distinct (subscribing : Subscribing broker context filter after acknowledged)
    (distinct : broker.subs.Distinct) : after.subs.Distinct := by
  obtain ⟨middle, grown, failure, subs, _, added, grownSubs, _⟩ := subscribing.added
  rw [grownSubs]
  exact added.distinct (subs ▸ distinct)

theorem othersCalled_clients
    (subscribing : Subscribing broker context filter after acknowledged)
    (tokens : List Token) (chain : Subhier) :
    othersCalled after.clients context tokens chain =
      othersCalled broker.clients context tokens chain :=
  othersCalled_congr (fun slot other => subscribing.flags slot fun _ => other) tokens chain

theorem othersCalled_eq (subscribing : Subscribing broker context filter after acknowledged)
    (spares : SparesHashes broker.clients context (filterPath filter) broker.subs.sites)
    (tokens : List Token) :
    othersCalled broker.clients context tokens broker.subs =
      othersCalled after.clients context tokens after.subs := by
  rw [subscribing.othersCalled_clients]
  obtain ⟨middle, grown, failure, subs, _, added, grownSubs, _⟩ := subscribing.added
  have edit := added.edit
  rw [subs, ← grownSubs] at edit
  exact othersCalled_eq_of_spares edit spares tokens

theorem sparesHashes (subscribing : Subscribing broker context filter after acknowledged)
    (unfailing : broker.memory.Unfailing) (distinct : broker.subs.Distinct)
    (kept : ∀ topic, othersCalled broker.clients context (tokens topic) broker.subs =
      othersCalled after.clients context (tokens topic) after.subs) :
    SparesHashes broker.clients context (filterPath filter) broker.subs.sites := by
  obtain ⟨last, ⟨site, member, path, _⟩, _⟩ :=
    subscribing.served (subscribing.succeeds unfailing)
  have afterDistinct := subscribing.distinct distinct
  simp only [subscribing.othersCalled_clients] at kept
  obtain ⟨middle, grown, failure, subs, _, added, grownSubs, _⟩ := subscribing.added
  have edit := added.edit
  rw [subs, ← grownSubs] at edit
  exact sparesHashes_of_othersCalled edit afterDistinct ⟨site, member, path⟩ kept

end Subscribing

theorem Stepped.keepsOthers {event : LoopEvent} {before after : LoopState}
    (stepped : Stepped before event after) (spares : SparesOthers event before) :
    KeepsOthers event before after := by
  match event, stepped with
  | .packet context frame, stepped =>
      intro requests
      obtain ⟨filter, requested⟩ := Option.ne_none_iff_exists'.mp requests
      obtain ⟨message, parsed, _⟩ := Option.bind_eq_some_iff.mp requested
      obtain ⟨_, handled, _⟩ := stepped.handled_of_parsed parsed
      apply otherDeliveries_congr
      rcases handled.tree with ⟨subs, flags, _⟩ | ⟨filter, found, subscribing⟩
      · intro tokens
        rw [subs]
        exact (othersCalled_congr (fun slot _ => flags slot) tokens _).symm
      · have requested : requestedFilter before.broker context frame = some filter := by
          rw [requestedFilter, parsed]
          exact found
        exact subscribing.othersCalled_eq (spares filter requested subscribing.isConnected)
  | .accept _, _ => trivial
  | .fail _, _ => trivial
  | .remove _, _ => trivial
  | .flush _ _, _ => trivial

/-- Siblings have different topics, and allocations do not fail. -/
structure TreeInvariant (state : LoopState) : Prop where
  unfailing : state.broker.memory.Unfailing
  distinct : state.broker.subs.Distinct

theorem TreeInvariant.start {memory : Memory} (unfailing : memory.Unfailing) :
    TreeInvariant (LoopState.start memory) where
  unfailing := unfailing
  distinct := ⟨List.not_mem_nil, trivial, trivial⟩

theorem TreeInvariant.step {event : LoopEvent} {before after : LoopState}
    (invariant : TreeInvariant before) (stepped : Stepped before event after) :
    TreeInvariant after where
  unfailing := invariant.unfailing.extends stepped.memory
  distinct := by
    cases stepped with
    | accepted free => exact invariant.distinct
    | unparsed contextOpen idle rejected => exact invariant.distinct
    | handled contextOpen idle parsed handled =>
        rcases handled.tree with ⟨subs, _, _⟩ | ⟨filter, found, subscribing⟩
        · exact subs ▸ invariant.distinct
        · exact subscribing.distinct invariant.distinct
    | failed contextOpen idle => exact invariant.distinct
    | removed contextOpen closing => exact invariant.distinct
    | flushed contextOpen answered outcome => exact invariant.distinct

theorem TreeInvariant.sparesOthers {event : LoopEvent} {before after : LoopState}
    (invariant : TreeInvariant before) (stepped : Stepped before event after)
    (keeps : KeepsOthers event before after) : SparesOthers event before := by
  match event, stepped with
  | .packet context frame, stepped =>
      intro filter requested isConnected
      have requested : requestedFilter before.broker context frame = some filter := requested
      have kept := keeps (by rw [requested]; exact Option.some_ne_none filter)
      obtain ⟨message, parsed, found⟩ := Option.bind_eq_some_iff.mp requested
      obtain ⟨_, handled, _⟩ := stepped.handled_of_parsed parsed
      rcases handled.tree with ⟨_, _, none | refused⟩ | ⟨other, subscribed, subscribing⟩
      · rw [none] at found
        cases found
      · exact absurd isConnected refused.2
      · rw [subscribed, Option.some.injEq] at found
        subst found
        refine subscribing.sparesHashes invariant.unfailing invariant.distinct
          fun topic => ?_
        exact othersCalled_of_otherDeliveries invariant.unfailing
          (kept before.broker.memory topic [] 0)
  | .accept _, _ => trivial
  | .fail _, _ => trivial
  | .remove _, _ => trivial
  | .flush _ _, _ => trivial

/-- In a run in which the SUBSCRIBEs spare the others' `#` nodes, none of them changes
a delivery to another client; with memory, only in such a run. -/
theorem keepsOthers_of_sparesOthers (memory : Memory) (events : List LoopEvent) :
    (Along loopStep (fun event before _ => SparesOthers event before) (.start memory)
        events →
      Along loopStep KeepsOthers (.start memory) events) ∧
    (memory.Unfailing → Along loopStep KeepsOthers (.start memory) events →
      Along loopStep (fun event before _ => SparesOthers event before) (.start memory)
        events) := by
  constructor
  · exact Along.imp fun event before after stepped spares =>
      (loopStep_stepped stepped).keepsOthers spares
  · intro unfailing
    refine Along.of_invariant (fun event before after invariant stepped keeps => ?_)
      (TreeInvariant.start unfailing)
    have took := loopStep_stepped stepped
    exact ⟨invariant.step took, invariant.sparesOthers took keeps⟩

/-- A SUBSCRIBE of `#/x`. -/
def deepFrame : WireFrame := ⟨0x82, 8, [0, 1, 0, 3, hash, slash, 0x78, 0]⟩

/-- A client subscribes `#`, and another one subscribes `a` and `#`. -/
def besideHash : List LoopEvent :=
  [.accept 5, .packet 5 (connectFrame 0x61), .packet 5 (subscribeFrame hash), .accept 6,
    .packet 6 (connectFrame 0x62), .packet 6 (subscribeFrame 0x61),
    .packet 6 (subscribeFrame hash)]

theorem keepsOthers_of_sparesOthers_besideHash :
    (run loopStep (.start ⟨fun _ => true, fun _ => 0, 0⟩) besideHash).isSome = true ∧
      Along loopStep KeepsOthers (.start ⟨fun _ => true, fun _ => 0, 0⟩) besideHash ∧
      Along loopStep (fun event before _ => SparesOthers event before)
        (.start ⟨fun _ => true, fun _ => 0, 0⟩) besideHash := by
  have spares : Along loopStep (fun event before _ => SparesOthers event before)
      (.start ⟨fun _ => true, fun _ => 0, 0⟩) besideHash :=
    along_of_check (fun event before => decide (SparesOthers event before))
      (fun _ _ => of_decide_eq_true) (by decide +kernel)
  have both := keepsOthers_of_sparesOthers ⟨fun _ => true, fun _ => 0, 0⟩ besideHash
  exact ⟨by decide +kernel, both.1 spares, both.2 (fun _ => rfl) (both.1 spares)⟩

/-- A client subscribes `#`, and another one connects. -/
def hasHash : List LoopEvent :=
  [.accept 5, .packet 5 (connectFrame 0x61), .packet 5 (subscribeFrame hash), .accept 6,
    .packet 6 (connectFrame 0x62)]

/-- The other one's SUBSCRIBE of `#/x` takes the topic `x` away from the first. -/
theorem keepsOthers_belowHash :
    ∃ before after,
      run loopStep (.start ⟨fun _ => true, fun _ => 0, 0⟩) hasHash = some before ∧
      loopStep (.packet 6 deepFrame) before = some after ∧
      (after.session 6).filters = [.ofBuffer [hash, slash, 0x78]] ∧
      otherDeliveries before.broker 6 ⟨fun _ => true, fun _ => 0, 0⟩ (.ofBuffer [0x78]) [7] 1 =
        [⟨5, .ofBuffer [0x78], [7], 1⟩] ∧
      otherDeliveries after.broker 6 ⟨fun _ => true, fun _ => 0, 0⟩ (.ofBuffer [0x78]) [7] 1 =
        [] ∧
      ¬ Along loopStep KeepsOthers (.start ⟨fun _ => true, fun _ => 0, 0⟩)
        (hasHash ++ [.packet 6 deepFrame]) := by
  have computed : (run loopStep (.start ⟨fun _ => true, fun _ => 0, 0⟩) hasHash).map
      (fun before =>
        (requestedFilter before.broker 6 deepFrame,
          otherDeliveries before.broker 6 ⟨fun _ => true, fun _ => 0, 0⟩ (.ofBuffer [0x78])
            [7] 1,
          (loopStep (.packet 6 deepFrame) before).map fun after =>
            ((after.session 6).filters,
              otherDeliveries after.broker 6 ⟨fun _ => true, fun _ => 0, 0⟩
                (.ofBuffer [0x78]) [7] 1))) =
      some (some (.ofBuffer [hash, slash, 0x78]), [⟨5, .ofBuffer [0x78], [7], 1⟩],
        some ([.ofBuffer [hash, slash, 0x78]], [])) := by
    decide +kernel
  obtain ⟨before, ran, observed⟩ := Option.map_eq_some_iff.mp computed
  simp only [Prod.mk.injEq] at observed
  obtain ⟨requested, delivered, observedAfter⟩ := observed
  obtain ⟨after, stepped, observedAfter⟩ := Option.map_eq_some_iff.mp observedAfter
  obtain ⟨filters, silenced⟩ := Prod.mk.inj observedAfter
  refine ⟨before, after, ran, stepped, filters, delivered, silenced, fun along => ?_⟩
  have kept := along.last ran stepped (by rw [requested]; exact Option.some_ne_none _)
    ⟨fun _ => true, fun _ => 0, 0⟩ (.ofBuffer [0x78]) [7] 1
  rw [delivered, silenced] at kept
  cases kept

end MuMQ
