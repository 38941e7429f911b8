import MuMQ.Broker.Exchange

namespace MuMQ

open Data

/-! Whom a PUBLISH reaches, in terms of the filters that were subscribed. -/

/-- A `#` node is visited only while it has no child. -/
theorem visits_childless {path tokens : List Token} {inner : Bool}
    (visited : visits path inner tokens = true) (noHash : ∀ token ∈ tokens, token ≠ [hash])
    (isHash : path.getLast? = some [hash]) : inner = false := by
  induction path generalizing tokens with
  | nil => cases isHash
  | cons topic path induction =>
      cases path with
      | nil =>
          cases isHash
          cases tokens with
          | nil =>
              rw [visits, Bool.and_eq_true, Bool.not_eq_true'] at visited
              exact visited.2
          | cons token rest =>
              have unequal : ¬ ([hash] = token ∨ [hash] = [plus]) := by
                rintro (equal | impossible)
                · exact noHash token List.mem_cons_self equal.symm
                · cases impossible
              rw [visits, if_neg unequal, Bool.and_eq_true, Bool.not_eq_true'] at visited
              exact visited.2
      | cons second path =>
          rw [visits_cons (List.cons_ne_nil _ _)] at visited
          cases tokens with
          | nil => cases visited
          | cons token rest =>
              rw [List.getLast?_cons_cons] at isHash
              rw [Bool.and_eq_true] at visited
              exact induction visited.2 (fun other member =>
                noHash other (List.mem_cons_of_mem _ member)) isHash

theorem rootVisits_iff {filter topic : CString} {inner : Bool}
    (plain : PlainLevel topic.bytes) :
    rootVisits (filterPath filter) inner (tokens topic) = true ↔
      FilterMatches filter topic ∧
        ((filterPath filter).getLast? = some [hash] → inner = false) := by
  constructor
  · intro visited
    refine ⟨rootVisits_sound visited, fun isHash => ?_⟩
    rw [getLast?_filterPath] at isHash
    exact visits_childless ((rootVisits_filterPath _ _ _).mp visited).2
      (tokens_of_plain plain) isHash
  · rintro ⟨matched, childless⟩
    exact rootVisits_complete matched plain childless

namespace Ledger

/-- A `#` filter is blocked when another filter goes on behind the `#`. -/
def Blocked (filter : CString) (ledger : Ledger) : Prop :=
  (filterPath filter).getLast? = some [hash] ∧ ledger.goesOn filter = true

instance (filter : CString) (ledger : Ledger) : Decidable (ledger.Blocked filter) :=
  inferInstanceAs (Decidable (_ ∧ _))

/-- How often a client gets what is published to a topic. -/
def copies (isSubscribe : Nat → Bool) (topic : CString) (slot : Nat) (ledger : Ledger) : Nat :=
  if isSubscribe slot then
    ledger.leaves.countP fun leaf =>
      leaf.1 = slot ∧ FilterMatches leaf.2 topic ∧ ¬ ledger.Blocked leaf.2
  else 0

theorem count_recipients {isSubscribe : Nat → Bool} {topic : CString} {slot : Nat}
    {ledger : Ledger} (plain : PlainLevel topic.bytes) :
    (ledger.recipients isSubscribe topic).count slot =
      ledger.copies isSubscribe topic slot := by
  unfold recipients copies
  rw [List.count_eq_countP, List.countP_map, List.countP_filter]
  cases subscribed : isSubscribe slot with
  | true =>
      rw [if_pos rfl]
      apply List.countP_congr
      rintro ⟨own, filter⟩ _
      have goesOn : ((filterPath filter).getLast? = some [hash] →
          ledger.goesOn filter = false) ↔ ¬ ledger.Blocked filter := by
        rw [Blocked, not_and, Bool.not_eq_true]
      have visited : rootVisits (filterPath filter) (ledger.goesOn filter) (tokens topic) = true ↔
          FilterMatches filter topic ∧ ¬ ledger.Blocked filter := by
        rw [rootVisits_iff plain, goesOn]
      rw [Bool.and_eq_true, Bool.and_eq_true, visited, decide_eq_true_iff]
      constructor
      · rintro ⟨isSlot, _, reached⟩
        exact ⟨eq_of_beq isSlot, reached⟩
      · rintro ⟨rfl, reached⟩
        exact ⟨beq_self_eq_true own, subscribed, reached⟩
  | false =>
      rw [if_neg Bool.false_ne_true, List.countP_eq_zero]
      rintro ⟨own, filter⟩ _ called
      rw [Bool.and_eq_true, Bool.and_eq_true] at called
      rw [← eq_of_beq called.1] at subscribed
      exact Bool.false_ne_true (subscribed.symm.trans called.2.1)

/-- Among valid filters none is blocked. -/
theorem not_blocked {ledger : Ledger}
    (valid : ∀ filter ∈ ledger.filters, subTopicValid filter.bytes = true) (filter : CString) :
    ¬ ledger.Blocked filter := by
  rintro ⟨isHash, goesOn⟩
  obtain ⟨front, split⟩ := List.getLast?_eq_some_iff.mp isHash
  obtain ⟨other, known, longer⟩ := List.any_eq_true.mp goesOn
  obtain ⟨different, rest, whole⟩ := of_decide_eq_true longer
  rw [split, List.append_assoc] at whole
  have last : rest = [] := filterPath_hash_last (valid other known) whole.symm
  rw [last, List.append_nil, ← split] at whole
  exact different (filterPath_injective whole.symm)

/-- Valid filters get what they match. -/
theorem copies_of_valid {isSubscribe : Nat → Bool} {topic : CString} {slot : Nat}
    {ledger : Ledger} (valid : ∀ filter ∈ ledger.filters, subTopicValid filter.bytes = true) :
    ledger.copies isSubscribe topic slot =
      if isSubscribe slot then
        ledger.leaves.countP fun leaf => leaf.1 = slot ∧ FilterMatches leaf.2 topic
      else 0 := by
  unfold copies
  simp only [not_blocked valid, not_false_eq_true, and_true]

end Ledger

/-- The exchange after a list of events. -/
def Exchange.reached (events : List LoopEvent) : Exchange :=
  events.foldl (fun exchange event => exchange.after event) .start

theorem Exchange.reached_eq (watched : Nat) (events : List LoopEvent) :
    (responses (Exchange.respond watched) .start events).1 = .reached events :=
  responses_foldl (fun _ _ => rfl) Exchange.start events

/-- A PUBLISH at QoS 0 to a valid topic puts its frame into a client's queue once for each
subscription of the client that matches, except those at a `#` behind which another filter
goes on. -/
theorem publish_reaches {memory : Memory} (unfailing : memory.Unfailing)
    {events : List LoopEvent} {before after : LoopState}
    (ran : run loopStep (.start memory) events = some before) {slot : Nat} {frame : WireFrame}
    (stepped : loopStep (.packet slot frame) before = some after) {message : Message}
    (parsed : parsedMessage before.broker slot frame = some message) {topic : CString}
    (published : publishedTopic message = some topic)
    (valid : pubTopicValid topic.bytes = true) (watched : Nat) :
    let exchange := Exchange.reached events
    framesEnqueued watched before after =
      List.replicate (exchange.ledger.copies exchange.isSubscribe topic watched)
        (forwardedFrame topic message.publish.content.bytes) := by
  obtain ⟨mirrors, _⟩ :=
    Simulates.run (exchange_simulates watched) (Mirrors.start unfailing) ran
  rw [Exchange.reached_eq] at mirrors
  have type : message.type = mqttTypePublish := by
    by_contra other
    rw [publishedTopic, if_neg fun routed => other routed.1] at published
    cases published
  rw [framesEnqueued_packet mirrors.talkative stepped parsed, handledFrames, mirrors.forwards]
  simp only [replyWith_publish type, ite_self, List.append_nil, Exchange.forwards, published]
  rw [Ledger.count_recipients ((pubTopicValid_iff topic).mp valid).2]

/-- A client subscribes `#`, `a` and `#/b`, which blocks the first one. -/
def blocksItself : List LoopEvent :=
  [.accept 5, .packet 5 (connectFrame 0x61), .packet 5 (subscribeFrame hash),
    .packet 5 (subscribeFrame 0x61),
    .packet 5 ⟨0x82, 8, [0, 2, 0, 3, hash, slash, 0x62, 0]⟩, .accept 6]

theorem publish_reaches_blocksItself :
    ∃ before after, run loopStep (.start ⟨fun _ => true, fun _ => 0, 0⟩) blocksItself =
        some before ∧
      loopStep (.packet 6 (publishFrame 0x61)) before = some after ∧
      framesEnqueued 5 before after = [forwardedFrame (.ofBuffer [0x61]) [7, 7]] := by
  have returns : ((run loopStep (.start ⟨fun _ => true, fun _ => 0, 0⟩) blocksItself).any
      fun before => (loopStep (.packet 6 (publishFrame 0x61)) before).isSome &&
        (parsedMessage before.broker 6 (publishFrame 0x61)).any fun message =>
          publishedTopic message = some (.ofBuffer [0x61]) ∧
            message.publish.content.bytes = [7, 7]) = true := by
    decide +kernel
  obtain ⟨before, ran, found⟩ := (Option.any_eq_true _ _).mp returns
  obtain ⟨steps, parses⟩ := (Bool.and_eq_true _ _).mp found
  obtain ⟨after, stepped⟩ := Option.isSome_iff_exists.mp steps
  obtain ⟨message, parsed, known⟩ := (Option.any_eq_true _ _).mp parses
  obtain ⟨published, content⟩ := of_decide_eq_true known
  have reaches := publish_reaches (fun _ => rfl) ran stepped parsed published (by decide) 5
  have copies : (Exchange.reached blocksItself).ledger.copies
      (Exchange.reached blocksItself).isSubscribe (.ofBuffer [0x61]) 5 = 1 := by
    decide +kernel
  refine ⟨before, after, ran, stepped, reaches.trans ?_⟩
  rw [copies, content]
  rfl

end MuMQ
