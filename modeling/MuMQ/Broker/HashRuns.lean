import MuMQ.Broker.EventLoop
import MuMQ.Broker.HashTable

namespace MuMQ

open Data

/-! The hash of the clients over whole runs: on its own, beside the event loop, and under
the loop of `loop_run` that visits every client. -/

/-- There is no memory for twice the buckets that the hash has, or begins with. -/
def ClientHash.Outgrows (hash : ClientHash) (room : BucketRoom) : Prop :=
  room.most < 2 * (hash.table.elim hashInitialNumBuckets HashTable.numBuckets)

instance (hash : ClientHash) (room : BucketRoom) : Decidable (hash.Outgrows room) :=
  inferInstanceAs (Decidable (_ < _))

/-- What a hash is to the code that uses it: its clients in the order of their addition.  A
client is added when it is not in the hash, and deleted when it is. -/
def listStep : HashEvent → List Nat → Option (List Nat)
  | .add slot, contexts => if slot ∈ contexts then none else some (contexts ++ [slot])
  | .delete slot, contexts => if slot ∈ contexts then some (contexts.erase slot) else none
  | .setItself _ _, contexts => some contexts

namespace ClientHash.Holds

variable {room : BucketRoom} {hash after : ClientHash} {contexts : List Nat}

theorem step {event : HashEvent} {listed : List Nat} (holds : hash.Holds contexts)
    (changed : listStep event contexts = some listed)
    (stepped : hashStep room event hash = some after) : after.Holds listed := by
  cases event with
  | add slot =>
      rw [listStep] at changed
      split at changed
      · cases changed
      · rename_i fresh
        cases changed
        exact (holds.add fresh stepped).1
  | delete slot =>
      rw [listStep] at changed
      split at changed
      · rename_i member
        cases changed
        obtain ⟨result, deleted, resultHolds, _⟩ := holds.delete member
        cases deleted.symm.trans stepped
        exact resultHolds
      · cases changed
  | setItself slot pointer =>
      cases changed
      cases stepped
      exact ⟨holds.nodup, holds.head, holds.links, holds.freed, holds.table⟩

/-- An addition goes wrong in an expansion only. -/
theorem addTo_none {slot head : Nat} {tail : Option Nat} {table : HashTable}
    (failed : hashAddTo room slot tail head table hash = none) :
    room.most < 2 * table.numBuckets := by
  rw [hashAddTo, Option.map_eq_none_iff, hashAddToBkt] at failed
  split at failed
  · rw [hashExpandBuckets] at failed
    split at failed
    · cases failed
    · rename_i outgrown
      exact Nat.not_le.mp outgrown
  · cases failed

theorem add_none {slot : Nat} (holds : hash.Holds contexts)
    (failed : hashAddKeyptr room slot hash = none) : hash.Outgrows room := by
  rcases isHead : hash.head with _ | head
  · have empty : contexts = [] := by
      rw [holds.head] at isHead
      exact List.head?_eq_none_iff.mp isHead
    simp only [hashAddKeyptr, isHead] at failed
    rw [Outgrows, holds.freed empty]
    exact addTo_none failed
  · have nonempty : contexts ≠ [] := by
      rintro rfl
      rw [holds.head] at isHead
      cases isHead
    obtain ⟨table, isTable, tableHolds⟩ := holds.table nonempty
    have isLast := List.getLast?_eq_some_getLast nonempty
    simp only [hashAddKeyptr, isHead, isTable, tableHolds.tail, isLast] at failed
    rw [Outgrows, isTable]
    exact addTo_none failed

/-- No deletion goes wrong. -/
theorem step_none {event : HashEvent} {listed : List Nat} (holds : hash.Holds contexts)
    (changed : listStep event contexts = some listed)
    (failed : hashStep room event hash = none) :
    ∃ slot, event = .add slot ∧ hash.Outgrows room := by
  cases event with
  | add slot => exact ⟨slot, rfl, holds.add_none failed⟩
  | delete slot =>
      rw [listStep] at changed
      split at changed
      · rename_i member
        obtain ⟨result, deleted, _⟩ := holds.delete member
        cases deleted.symm.trans failed
      · cases changed
  | setItself slot pointer => cases failed

theorem runs {events : List HashEvent} {listed : List Nat} (holds : hash.Holds contexts)
    (changed : run listStep contexts events = some listed) :
    (∃ final, run (hashStep room) hash events = some final ∧ final.Holds listed) ∨
      ∃ earlier slot later final, events = earlier ++ .add slot :: later ∧
        run (hashStep room) hash earlier = some final ∧ final.Outgrows room := by
  induction events generalizing hash contexts with
  | nil =>
      cases changed
      exact .inl ⟨hash, rfl, holds⟩
  | cons event rest induction =>
      obtain ⟨middle, changedHere, changedRest⟩ := run_cons.mp changed
      rcases stepped : hashStep room event hash with _ | next
      · obtain ⟨slot, rfl, outgrown⟩ := holds.step_none changedHere stepped
        exact .inr ⟨[], slot, rest, hash, rfl, rfl, outgrown⟩
      · rcases induction (holds.step changedHere stepped) changedRest with
          ⟨final, ran, finalHolds⟩ | ⟨earlier, slot, later, final, split, ran, outgrown⟩
        · exact .inl ⟨final, run_cons.mpr ⟨next, stepped, ran⟩, finalHolds⟩
        · exact .inr ⟨event :: earlier, slot, later, final, congrArg (event :: ·) split,
            run_cons.mpr ⟨next, stepped, ran⟩, outgrown⟩

end ClientHash.Holds

/-- Two clients, the second of which gets its key while it is in. -/
def twoClients : List HashEvent := [.add 4, .add 5, .setItself 5 640, .delete 4]

/-- What an event of the loop does to the hash; `accept` decides by `HASH_COUNT`.  The
pointers to the clients are what `add_client` stores. -/
def hashEvents (pointers : Nat → UInt64) (loop : EventLoop) (hash : ClientHash) :
    SocketEvent → List HashEvent
  | .accept (some sock) =>
      if sock = 0 ∨ maxFdPerLoop * loopCount ≤ sock then []
      else if hashCount hash < maxFdPerLoop then [.add sock]
      else [.delete loop.lSock]
  | .accept none => []
  | .connection (.packet slot frame) =>
      match parsedMessage loop.state.broker slot frame with
      | some message =>
          if AcceptedConnect message then [.setItself slot (pointers slot)] else []
      | none => []
  | .connection _ => []
  | .removeReader fd => [.delete fd]
  | .removeWriter slot => [.delete (loop.state.broker.clients slot).sock]

theorem Stepped.sock {event : LoopEvent} {before after : LoopState}
    (stepped : Stepped before event after) (stays : ∀ sock, event ≠ .accept sock)
    (remains : ∀ slot, event ≠ .remove slot) (slot : Nat) :
    (after.broker.clients slot).sock = (before.broker.clients slot).sock := by
  cases stepped with
  | accepted free => exact absurd rfl (stays _)
  | unparsed isOpen idle rejected =>
      exact ((keepParser_sent before.broker _ _).clients slot).sock
  | handled isOpen idle parsed handled returned => exact handled.sock slot
  | failed isOpen idle => rfl
  | removed isOpen closing => exact absurd rfl (remains _)
  | @flushed own flush sender phase isOpen answered outcome =>
      obtain ⟨_, same⟩ := before.broker.modifySender_client own (fun _ => sender) slot
      show ((before.broker.modifySender own fun _ => sender).clients slot).sock = _
      rw [same]

/-- A step of the event loop with its hash. -/
def hashedStep (room : BucketRoom) (pointers : Nat → UInt64) (event : SocketEvent)
    (loop : EventLoop × ClientHash) : Option (EventLoop × ClientHash) :=
  (socketStep event loop.1).bind fun after =>
    (run (hashStep room) loop.2 (hashEvents pointers loop.1 loop.2 event)).map fun hash =>
      (after, hash)

/-- The hash holds the clients of the loop, whose sockets are open, and a slot that was never
in it has the zeroed handle. -/
structure HashedInvariant (loop : EventLoop × ClientHash) : Prop where
  holds : loop.2.Holds loop.1.contexts
  opened : ∀ slot ∈ loop.1.contexts, slot ∈ loop.1.opened
  linked : ∀ slot ∈ loop.1.contexts, slot ∈ loop.1.linked
  sock : ∀ slot ∈ loop.1.contexts, (loop.1.state.broker.clients slot).sock = slot
  unlinked : ∀ slot, slot ∉ loop.1.linked →
    nexts loop.2.handles slot = none ∧ prevs loop.2.handles slot = none

namespace HashedInvariant

theorem start (memory : Memory) (lSock : Nat) :
    HashedInvariant (.start memory lSock, .start) where
  holds := .start
  opened _ member := by cases member
  linked _ member := by cases member
  sock _ member := by cases member
  unlinked _ _ := ⟨rfl, rfl⟩

variable {loop after : EventLoop} {hash hashAfter : ClientHash} {room : BucketRoom}

/-- `remove_client`, also for a slot that has never been in the hash. -/
theorem remove (invariant : HashedInvariant (loop, hash)) {fd : Nat}
    (removed : loop.removeClient fd = some after)
    (stepped : hashStep room (.delete fd) hash = some hashAfter) :
    HashedInvariant (after, hashAfter) := by
  obtain ⟨contexts, deleted, rfl⟩ := Option.map_eq_some_iff.mp removed
  rw [hashDel] at deleted
  split at deleted
  · cases deleted
  · rename_i nonempty
    split at deleted
    · rename_i member
      cases deleted
      obtain ⟨result, isDeleted, holds, _, spares⟩ := invariant.holds.delete member
      cases isDeleted.symm.trans stepped
      refine ⟨holds, ?_, ?_, ?_, ?_⟩
      · intro slot inside
        obtain ⟨apart, wasInside⟩ := invariant.holds.nodup.mem_erase_iff.mp inside
        exact (List.mem_erase_of_ne apart).mpr (invariant.opened slot wasInside)
      · exact fun slot inside => invariant.linked slot (List.mem_of_mem_erase inside)
      · intro slot inside
        obtain ⟨apart, wasInside⟩ := invariant.holds.nodup.mem_erase_iff.mp inside
        show ((loop.state.broker.modifyClient fd cleanContext).clients slot).sock = slot
        rw [Broker.modifyClient_other _ _ apart]
        exact invariant.sock slot wasInside
      · intro slot outside
        obtain ⟨next, prev⟩ := spares slot fun inside => outside (invariant.linked slot inside)
        obtain ⟨noNext, noPrev⟩ := invariant.unlinked slot outside
        exact ⟨next.trans noNext, prev.trans noPrev⟩
    · split at deleted
      · cases deleted
      · rename_i outside
        cases deleted
        -- the handle looks like that of the only client, so the table is freed
        have alone := invariant.unlinked fd outside
        obtain ⟨table, isTable, _⟩ := invariant.holds.table nonempty
        obtain ⟨first, rest, split⟩ := List.exists_cons_of_ne_nil nonempty
        have isHead : hash.head = some first := by
          rw [invariant.holds.head, split]
          rfl
        rw [hashStep, hashDelete, isHead, isTable] at stepped
        cases (if_pos ⟨alone.2, alone.1⟩).symm.trans stepped
        exact ⟨⟨List.nodup_nil, rfl, trivial, fun _ => rfl, fun some => absurd rfl some⟩,
          fun _ none => absurd none List.not_mem_nil, fun _ none => absurd none List.not_mem_nil,
          fun _ none => absurd none List.not_mem_nil, invariant.unlinked⟩

/-- `HASH_COUNT` is what `accept` decides by. -/
theorem accept (invariant : HashedInvariant (loop, hash)) {sock : Nat}
    (unused : sock ∉ loop.opened) (accepted : loop.accept sock = some after)
    (stepped : run (hashStep room) hash
      (if sock = 0 ∨ maxFdPerLoop * loopCount ≤ sock then []
      else if hashCount hash < maxFdPerLoop then [.add sock]
      else [.delete loop.lSock]) = some hashAfter) :
    HashedInvariant (after, hashAfter) := by
  rw [EventLoop.accept] at accepted
  by_cases isZero : sock = 0
  · rw [if_pos isZero] at accepted
    rw [if_pos (.inl isZero)] at stepped
    cases accepted
    cases stepped
    exact ⟨invariant.holds,
      fun slot inside => List.mem_append_left _ (invariant.opened slot inside),
      invariant.linked, invariant.sock, invariant.unlinked⟩
  · rw [if_neg isZero] at accepted
    by_cases large : maxFdPerLoop * loopCount ≤ sock
    · rw [if_pos large] at accepted
      rw [if_pos (.inr large)] at stepped
      cases accepted
      cases stepped
      exact invariant
    · rw [if_neg large] at accepted
      rw [if_neg (not_or.mpr ⟨isZero, large⟩), invariant.holds.count] at stepped
      by_cases room : loop.contexts.length < maxFdPerLoop
      · rw [if_pos room] at accepted stepped
        cases accepted
        obtain ⟨next, added, done⟩ := run_cons.mp stepped
        cases done
        have fresh : sock ∉ loop.contexts := fun inside => unused (invariant.opened sock inside)
        obtain ⟨holds, spares⟩ := invariant.holds.add fresh added
        refine ⟨holds, ?_, ?_, ?_, ?_⟩
        · intro slot member
          rcases List.mem_append.mp member with earlier | isNew
          · exact List.mem_append_left _ (invariant.opened slot earlier)
          · exact List.mem_append_right _ isNew
        · intro slot member
          rcases List.mem_append.mp member with earlier | isNew
          · exact List.mem_append_left _ (invariant.linked slot earlier)
          · exact List.mem_append_right _ isNew
        · intro slot member
          show ((acceptClient loop.state.broker sock).clients slot).sock = slot
          by_cases own : slot = sock
          · rw [own, acceptClient_self]
          · rw [acceptClient_other _ own]
            rcases List.mem_append.mp member with earlier | isNew
            · exact invariant.sock slot earlier
            · exact absurd (List.mem_singleton.mp isNew) own
        · intro slot outside
          obtain ⟨notLinked, notNew⟩ := not_or.mp (mt List.mem_append.mpr outside)
          have notIn : slot ∉ sock :: loop.contexts := by
            rw [List.mem_cons, not_or]
            exact ⟨fun same => notNew (List.mem_singleton.mpr same),
              fun inside => notLinked (invariant.linked slot inside)⟩
          obtain ⟨next, prev⟩ := spares slot notIn
          obtain ⟨noNext, noPrev⟩ := invariant.unlinked slot notLinked
          exact ⟨next.trans noNext, prev.trans noPrev⟩
      · rw [if_neg room] at accepted stepped
        obtain ⟨next, deleted, done⟩ := run_cons.mp stepped
        cases done
        have sameSock : ∀ slot ∈ loop.contexts,
            ((loop.state.broker.modifyClient sock fun client =>
              { client with sock := sock }).clients slot).sock = slot := by
          intro slot inside
          have apart : slot ≠ sock := fun same => unused (same ▸ invariant.opened slot inside)
          rw [Broker.modifyClient_other _ _ apart]
          exact invariant.sock slot inside
        have stillHolds : HashedInvariant
            ({ loop with
                state :=
                  { loop.state with
                    broker := loop.state.broker.modifyClient sock fun client =>
                      { client with sock := sock } }
                opened := loop.opened ++ [sock] }, hash) :=
          ⟨invariant.holds,
            fun slot inside => List.mem_append_left _ (invariant.opened slot inside),
            invariant.linked, sameSock, invariant.unlinked⟩
        exact stillHolds.remove accepted deleted

/-- A packet, a failure or a flush step of a connection. -/
theorem connection (invariant : HashedInvariant (loop, hash)) {event : LoopEvent}
    {state : LoopState} (stepped : loopStep event loop.state = some state)
    (stays : ∀ sock, event ≠ .accept sock) (remains : ∀ slot, event ≠ .remove slot)
    {keyed : ClientHash} (sameHead : keyed.head = hash.head) (sameTable : keyed.table = hash.table)
    (sameHandles : keyed.handles = hash.handles) :
    HashedInvariant ({ loop with state := state }, keyed) := by
  have contexts : state.broker.contextsByPtr = loop.contexts :=
    (loopStep_stepped stepped).contextsByPtr stays remains
  obtain ⟨head, table, handles, itself⟩ := keyed
  subst sameHead sameTable sameHandles
  have inside : ∀ {slot}, slot ∈ state.broker.contextsByPtr → slot ∈ loop.contexts :=
    fun member => contexts ▸ member
  refine ⟨?_, fun slot member => invariant.opened slot (inside member),
    fun slot member => invariant.linked slot (inside member), fun slot member => ?_,
    invariant.unlinked⟩
  · obtain ⟨nodup, isHead, links, freed, isTable⟩ := invariant.holds
    show ClientHash.Holds _ state.broker.contextsByPtr
    rw [contexts]
    exact ⟨nodup, isHead, links, freed, isTable⟩
  · exact ((loopStep_stepped stepped).sock stays remains slot).trans
      (invariant.sock slot (inside member))

theorem step (invariant : HashedInvariant (loop, hash)) {pointers : Nat → UInt64}
    {event : SocketEvent}
    (stepped : hashedStep room pointers event (loop, hash) = some (after, hashAfter)) :
    HashedInvariant (after, hashAfter) := by
  obtain ⟨middle, looped, mapped⟩ := Option.bind_eq_some_iff.mp stepped
  obtain ⟨result, hashed, same⟩ := Option.map_eq_some_iff.mp mapped
  cases same
  cases event with
  | accept answer =>
      cases answer with
      | none =>
          simp only [socketStep] at looped
          split at looped
          · cases looped
            cases hashed
            exact invariant
          · cases looped
      | some sock =>
          simp only [socketStep] at looped
          split at looped
          · split at looped
            · cases looped
            · rename_i unused
              exact invariant.accept unused looped hashed
          · cases looped
  | connection event =>
      cases event with
      | accept sock => cases looped
      | remove slot => cases looped
      | packet slot frame =>
          obtain ⟨state, taken, rfl⟩ := Option.map_eq_some_iff.mp looped
          simp only [hashEvents] at hashed
          have keyed : hashAfter.head = hash.head ∧ hashAfter.table = hash.table ∧
              hashAfter.handles = hash.handles := by
            split at hashed
            · split at hashed
              · cases hashed
                exact ⟨rfl, rfl, rfl⟩
              · cases hashed
                exact ⟨rfl, rfl, rfl⟩
            · cases hashed
              exact ⟨rfl, rfl, rfl⟩
          exact invariant.connection taken (fun _ same => by cases same)
            (fun _ same => by cases same) keyed.1 keyed.2.1 keyed.2.2
      | fail slot =>
          obtain ⟨state, taken, rfl⟩ := Option.map_eq_some_iff.mp looped
          cases hashed
          exact invariant.connection taken (fun _ same => by cases same)
            (fun _ same => by cases same) rfl rfl rfl
      | flush slot event =>
          obtain ⟨state, taken, rfl⟩ := Option.map_eq_some_iff.mp looped
          cases hashed
          exact invariant.connection taken (fun _ same => by cases same)
            (fun _ same => by cases same) rfl rfl rfl
  | removeReader fd =>
      rw [socketStep] at looped
      split at looped
      · obtain ⟨next, deleted, done⟩ := run_cons.mp hashed
        cases done
        exact invariant.remove looped deleted
      · cases looped
  | removeWriter slot =>
      rw [socketStep] at looped
      split at looped
      · obtain ⟨next, deleted, done⟩ := run_cons.mp hashed
        cases done
        exact invariant.remove looped deleted
      · cases looped

end HashedInvariant

/-- In every run of the event loop, with the listener closed by a refusal or not, the hash
holds exactly the list of clients that the model of the loop works with, and `HASH_COUNT` is
its length. -/
theorem hashedStep_holds (room : BucketRoom) (pointers : Nat → UInt64) (memory : Memory)
    (lSock : Nat) (events : List SocketEvent) :
    Along (hashedStep room pointers)
      (fun _ _ after => after.2.Holds after.1.contexts ∧
        hashCount after.2 = after.1.contexts.length)
      (.start memory lSock, .start) events := by
  have keeps : ∀ event before after, HashedInvariant before →
      hashedStep room pointers event before = some after → True →
      HashedInvariant after ∧ after.2.Holds after.1.contexts ∧
        hashCount after.2 = after.1.contexts.length := by
    intro event before after invariant stepped _
    have kept := invariant.step stepped
    exact ⟨kept, kept.holds, kept.holds.count⟩
  exact Along.of_invariant keeps (.start memory lSock) (.trivial _ _)

/-! A round of the flush loop. -/

/-- The client whose turn a step belongs to: a step of the flush loop, or the removal that
follows a `send` that failed. -/
def SocketEvent.turnOf : SocketEvent → Option Nat
  | .connection (.flush slot _) => some slot
  | .removeWriter slot => some slot
  | _ => none

/-- The turn of the client at `context`, and `context = context->hh.next` behind it: the
handle is read when the client may have been removed. -/
def roundStep (room : BucketRoom) (pointers : Nat → UInt64) (turn : List SocketEvent) :
    Option Nat × EventLoop × ClientHash → Option (Option Nat × EventLoop × ClientHash)
  | (none, _) => none
  | (some slot, loop) =>
      if ∀ event ∈ turn, event.turnOf = some slot then
        (run (hashedStep room pointers) loop turn).map fun after =>
          (nexts after.2.handles slot, after)
      else none

/-- The clients that were not removed in their turn. -/
def survivors (contexts : List Nat) (turns : List (List SocketEvent)) : List Nat :=
  ((contexts.zip turns).filter fun visit => .removeWriter visit.1 ∉ visit.2).map Prod.fst

namespace HashedInvariant

variable {room : BucketRoom} {pointers : Nat → UInt64} {loop after : EventLoop × ClientHash}

/-- A step of a turn removes its client, whose handle still points to the next one, or
leaves the clients as they are. -/
theorem turnStep {slot : Nat} {event : SocketEvent} (invariant : HashedInvariant loop)
    (own : event.turnOf = some slot)
    (stepped : hashedStep room pointers event loop = some after) :
    slot ∈ loop.1.contexts ∧ nexts after.2.handles slot = nexts loop.2.handles slot ∧
      after.1.contexts =
        if event = .removeWriter slot then loop.1.contexts.erase slot else loop.1.contexts := by
  obtain ⟨loop, hash⟩ := loop
  obtain ⟨middle, looped, mapped⟩ := Option.bind_eq_some_iff.mp stepped
  obtain ⟨result, hashed, same⟩ := Option.map_eq_some_iff.mp mapped
  cases same
  cases event with
  | accept answer => cases own
  | removeReader fd => cases own
  | connection event =>
      cases event with
      | accept sock => cases own
      | packet slot frame => cases own
      | fail slot => cases own
      | remove slot => cases own
      | flush _ event =>
          cases own
          obtain ⟨state, taken, rfl⟩ := Option.map_eq_some_iff.mp looped
          cases hashed
          have took := loopStep_stepped taken
          refine ⟨?_, rfl, (took.contextsByPtr nofun nofun).trans (if_neg nofun).symm⟩
          cases took with
          | flushed isOpen answered outcome => exact isOpen
  | removeWriter _ =>
      cases own
      rw [socketStep] at looped
      split at looped
      · rename_i ready
        obtain ⟨next, deleted, done⟩ := run_cons.mp hashed
        cases done
        have member := ready.1
        rw [invariant.sock slot member] at looped deleted
        obtain ⟨_, isDeleted, _, sameNext, _⟩ := invariant.holds.delete member
        cases isDeleted.symm.trans deleted
        obtain ⟨contexts, erased, rfl⟩ := Option.map_eq_some_iff.mp looped
        rw [hashDel, if_neg (List.ne_nil_of_mem member), if_pos member] at erased
        cases erased
        exact ⟨member, sameNext, (if_pos rfl).symm⟩
      · cases looped

theorem turn {slot : Nat} {events : List SocketEvent} (invariant : HashedInvariant loop)
    (member : slot ∈ loop.1.contexts) (own : ∀ event ∈ events, event.turnOf = some slot)
    (ran : run (hashedStep room pointers) loop events = some after) :
    HashedInvariant after ∧ nexts after.2.handles slot = nexts loop.2.handles slot ∧
      after.1.contexts =
        if .removeWriter slot ∈ events then loop.1.contexts.erase slot
        else loop.1.contexts := by
  induction events generalizing loop with
  | nil =>
      cases ran
      exact ⟨invariant, rfl, (if_neg List.not_mem_nil).symm⟩
  | cons event rest induction =>
      obtain ⟨ownEvent, ownRest⟩ := List.forall_mem_cons.mp own
      obtain ⟨next, stepped, ranRest⟩ := run_cons.mp ran
      obtain ⟨_, sameNext, contexts⟩ := invariant.turnStep ownEvent stepped
      have kept := invariant.step stepped
      by_cases removed : event = .removeWriter slot
      · -- nothing more happens to a client that is not in the hash
        rw [if_pos removed] at contexts
        have outside : slot ∉ next.1.contexts := by
          rw [contexts]
          exact invariant.holds.nodup.not_mem_erase
        cases rest with
        | nil =>
            cases ranRest
            exact ⟨kept, sameNext, contexts.trans (if_pos (by simp [removed])).symm⟩
        | cons second rest =>
            obtain ⟨_, steppedAgain, _⟩ := run_cons.mp ranRest
            have again := kept.turnStep (ownRest second List.mem_cons_self) steppedAgain
            exact absurd again.1 outside
      · rw [if_neg removed] at contexts
        obtain ⟨keptAfter, nextAfter, contextsAfter⟩ :=
          induction kept (contexts ▸ member) ownRest ranRest
        refine ⟨keptAfter, nextAfter.trans sameNext, ?_⟩
        rw [contextsAfter, contexts]
        simp [List.mem_cons, Ne.symm removed]

theorem reached {events : List SocketEvent} (invariant : HashedInvariant loop)
    (ran : run (hashedStep room pointers) loop events = some after) : HashedInvariant after := by
  have keeps : ∀ event before after, HashedInvariant before →
      hashedStep room pointers event before = some after → True →
      HashedInvariant after ∧ HashedInvariant after :=
    fun event before after invariant stepped _ =>
      ⟨invariant.step stepped, invariant.step stepped⟩
  exact (Along.of_invariant keeps invariant (.trivial _ _)).final _ invariant ran

/-- A round from the clients that are left: those in front of them had their turn. -/
theorem round {kept rest : List Nat} {turns : List (List SocketEvent)}
    {pointer : Option Nat} (invariant : HashedInvariant loop)
    (contexts : loop.1.contexts = kept ++ rest)
    (ran : run (roundStep room pointers) (rest.head?, loop) turns = some (pointer, after)) :
    HashedInvariant after ∧ ∃ visited left, rest = visited ++ left ∧
      List.Forall₂ (fun slot turn => ∀ event ∈ turn, event.turnOf = some slot) visited turns ∧
      pointer = left.head? ∧
      after.1.contexts = kept ++ survivors visited turns ++ left := by
  induction turns generalizing loop kept rest with
  | nil =>
      cases ran
      refine ⟨invariant, [], rest, rfl, .nil, rfl, ?_⟩
      rw [contexts, survivors]
      simp
  | cons turn turns induction =>
      obtain ⟨next, stepped, ranRest⟩ := run_cons.mp ran
      cases rest with
      | nil => cases stepped
      | cons slot rest =>
          rw [List.head?_cons, roundStep] at stepped
          split at stepped
          · rename_i own
            obtain ⟨middle, ranTurn, rfl⟩ := Option.map_eq_some_iff.mp stepped
            have member : slot ∈ loop.1.contexts := by
              rw [contexts]
              simp
            obtain ⟨keptHere, sameNext, contextsHere⟩ := invariant.turn member own ranTurn
            have links := invariant.holds.links
            rw [contexts] at links contextsHere
            rw [sameNext, links.around.2, Option.or_none] at ranRest
            have nodup := invariant.holds.nodup
            rw [contexts, List.nodup_append] at nodup
            have notKept : slot ∉ kept :=
              fun inKept => nodup.2.2 slot inKept slot List.mem_cons_self rfl
            rw [List.erase_append_right _ notKept, List.erase_cons_head] at contextsHere
            by_cases removed : .removeWriter slot ∈ turn
            · rw [if_pos removed] at contextsHere
              obtain ⟨keptAfter, visited, left, rfl, owns, isPointer, contextsAfter⟩ :=
                induction keptHere contextsHere ranRest
              refine ⟨keptAfter, slot :: visited, left, rfl, .cons own owns, isPointer, ?_⟩
              rw [contextsAfter]
              simp [survivors, removed]
            · rw [if_neg removed, List.append_cons] at contextsHere
              obtain ⟨keptAfter, visited, left, rfl, owns, isPointer, contextsAfter⟩ :=
                induction keptHere contextsHere ranRest
              refine ⟨keptAfter, slot :: visited, left, rfl, .cons own owns, isPointer, ?_⟩
              rw [contextsAfter]
              simp [survivors, removed]
          · cases stepped

end HashedInvariant

/-- A round that begins at the head gives every client one turn, in the order of addition,
and ends behind the last one: a client that is removed in its own turn does not lead it
astray.  The clients that are left stay in order. -/
theorem flushRound_visits (room : BucketRoom) (pointers : Nat → UInt64) (memory : Memory)
    (lSock : Nat) {events : List SocketEvent} {loop after : EventLoop × ClientHash}
    (reached : run (hashedStep room pointers) (.start memory lSock, .start) events = some loop)
    {turns : List (List SocketEvent)} {context : Option Nat}
    (ran : run (roundStep room pointers) (loop.2.head, loop) turns = some (context, after)) :
    ∃ visited left, loop.1.contexts = visited ++ left ∧
      List.Forall₂ (fun slot turn => ∀ event ∈ turn, event.turnOf = some slot) visited turns ∧
      (context = none ↔ turns.length = loop.1.contexts.length) ∧
      after.1.contexts = survivors visited turns ++ left ∧
      after.2.Holds after.1.contexts := by
  have invariant : HashedInvariant loop := .reached (.start memory lSock) reached
  rw [invariant.holds.head] at ran
  obtain ⟨kept, visited, left, split, owns, isContext, contexts⟩ :=
    @HashedInvariant.round room pointers loop after [] _ turns context invariant rfl ran
  refine ⟨visited, left, split, owns, ?_, contexts, kept.holds⟩
  have all : loop.1.contexts.length = turns.length + left.length := by
    rw [← owns.length_eq, ← List.length_append]
    exact congrArg List.length split
  rw [isContext, List.head?_eq_none_iff]
  constructor
  · rintro rfl
    exact all.symm
  · exact fun same => List.length_eq_zero_iff.mp (by omega)

/-- Two connections, the first of which has a reply to send. -/
def replyDue : List SocketEvent :=
  [.accept (some 4), .accept (some 5), .connection (.packet 4 (connectFrame 0x61))]

/-- Its turn ends in an error of `send`, the other one has nothing to send. -/
def errorRound : List (List SocketEvent) :=
  [[.connection (.flush 4 .begin), .connection (.flush 4 .take),
      .connection (.flush 4 (.write 0 false)), .removeWriter 4],
    [.connection (.flush 5 .begin)]]

theorem flushRound_visits_error :
    ∃ loop context after, run (hashedStep ⟨64, by decide⟩ fun _ => 0)
        (.start ⟨fun _ => true, fun _ => 0, 0⟩ 3, .start) replyDue = some loop ∧
      run (roundStep ⟨64, by decide⟩ fun _ => 0) (loop.2.head, loop) errorRound =
        some (context, after) ∧
      ∃ visited left, loop.1.contexts = visited ++ left ∧
        List.Forall₂ (fun slot turn => ∀ event ∈ turn, event.turnOf = some slot) visited
          errorRound ∧
        (context = none ↔ errorRound.length = loop.1.contexts.length) ∧
        after.1.contexts = survivors visited errorRound ++ left ∧
        after.2.Holds after.1.contexts := by
  have computed : ((run (hashedStep ⟨64, by decide⟩ fun _ => 0)
      (.start ⟨fun _ => true, fun _ => 0, 0⟩ 3, .start) replyDue).bind fun loop =>
        run (roundStep ⟨64, by decide⟩ fun _ => 0) (loop.2.head, loop) errorRound).isSome =
      true := by
    decide +kernel
  obtain ⟨⟨context, after⟩, isRound⟩ := Option.isSome_iff_exists.mp computed
  obtain ⟨loop, reached, ran⟩ := Option.bind_eq_some_iff.mp isRound
  exact ⟨loop, context, after, reached, ran, flushRound_visits _ _ _ 3 reached ran⟩

end MuMQ
