import MuMQ.Broker.Loop
import Mathlib.Data.List.Count

namespace MuMQ

open Data

/-! The sockets of one event loop: what is open, what epoll watches, and what stands in
`contexts_by_ptr`. -/

/-- `MAX_FD_PER_LOOP`. -/
def maxFdPerLoop : Nat := 32200

/-- `LOOP_COUNT`. -/
def loopCount : Nat := 16

/-- `linked` are the slots that have ever been in the hash, `deletions` the slots that
`HASH_DEL` was applied to, and whether they were in the hash then. -/
structure EventLoop where
  state : LoopState
  lSock : Nat
  opened : List Nat
  registered : List Nat
  linked : List Nat
  deletions : List (Nat × Bool)

/-- What can happen next: the listener is ready and `accept` returns a descriptor or
fails, a connection goes on, or it is removed, after a read of the descriptor or after a
write for the slot that failed. -/
inductive SocketEvent where
  | accept (answer : Option Nat)
  | connection (event : LoopEvent)
  | removeReader (fd : Nat)
  | removeWriter (slot : Nat)
  deriving DecidableEq

/-- `HASH_DEL`, for the chain of the hash from its head.  With an empty chain the head is
`NULL` and is read through; a slot that has left the hash still has its old neighbours.
Neither is modelled. -/
def hashDel (contexts linked : List Nat) (slot : Nat) : Option (List Nat) :=
  if contexts = [] then none
  else if slot ∈ contexts then some (contexts.erase slot)
  else if slot ∈ linked then none
  else
    -- both neighbours of the slot are `NULL`, as for the only slot of a hash: the table
    -- is freed and the head set to `NULL`
    some []

namespace EventLoop

def contexts (loop : EventLoop) : List Nat := loop.state.broker.contextsByPtr

/-- `loop_run` before its first event. -/
def start (memory : Memory) (lSock : Nat) : EventLoop where
  state := .start memory
  lSock := lSock
  opened := [lSock]
  registered := [lSock]
  linked := []
  deletions := []

/-- `remove_client`, with `disconnect_sock`. -/
def removeClient (loop : EventLoop) (fd : Nat) : Option EventLoop :=
  (hashDel loop.contexts loop.linked fd).map fun contexts =>
    { loop with
      state :=
        { loop.state with
          broker :=
            { loop.state.broker.modifyClient fd cleanContext with contextsByPtr := contexts }
          phase := Function.update loop.state.phase fd .idle }
      registered := loop.registered.erase fd
      opened := loop.opened.erase fd
      deletions := loop.deletions ++ [(fd, decide (fd ∈ loop.contexts))] }

/-- `accept_connection` and the accept branch of `loop_run`, for a descriptor that is not
in use. -/
def accept (loop : EventLoop) (sock : Nat) : Option EventLoop :=
  if sock = 0 then
    -- taken for a failure of `accept`
    some { loop with opened := loop.opened ++ [sock] }
  else if maxFdPerLoop * loopCount ≤ sock then some loop
  else if loop.contexts.length < maxFdPerLoop then
    some
      { loop with
        state :=
          { loop.state with
            broker := acceptClient loop.state.broker sock
            session := Function.update loop.state.session sock ⟨[], []⟩ }
        opened := loop.opened ++ [sock]
        registered := loop.registered ++ [sock]
        linked := loop.linked ++ [sock] }
  else
    -- `fd` is the listener here
    removeClient
      { loop with
        state :=
          { loop.state with
            broker := loop.state.broker.modifyClient sock fun client =>
              { client with sock := sock } }
        opened := loop.opened ++ [sock] }
      loop.lSock

end EventLoop

def socketStep : SocketEvent → EventLoop → Option EventLoop
  | .accept answer, loop =>
      if loop.lSock ∈ loop.opened ∧ loop.lSock ∈ loop.registered then
        match answer with
        | none => some loop
        | some sock => if sock ∈ loop.opened then none else loop.accept sock
      else none
  | .connection (.packet slot frame), loop =>
      (loopStep (.packet slot frame) loop.state).map fun state => { loop with state := state }
  | .connection (.fail slot), loop =>
      (loopStep (.fail slot) loop.state).map fun state => { loop with state := state }
  | .connection (.flush slot event), loop =>
      (loopStep (.flush slot event) loop.state).map fun state => { loop with state := state }
  | .connection _, _ => none
  | .removeReader fd, loop =>
      if fd ∈ loop.registered ∧ fd ≠ loop.lSock ∧ loop.state.phase fd = .closing then
        loop.removeClient fd
      else none
  | .removeWriter slot, loop =>
      if slot ∈ loop.contexts ∧ loop.state.phase slot = .closing then
        loop.removeClient (loop.state.broker.clients slot).sock
      else none

/-- The listener is open and watched, and so are exactly the sockets of the clients in
`contexts_by_ptr`, each of which stands there once. -/
structure EventLoop.Exact (loop : EventLoop) : Prop where
  listener : loop.lSock ∈ loop.opened ∧ loop.lSock ∈ loop.registered
  sockets : ∀ fd ∈ loop.opened, fd ≠ loop.lSock →
    fd ∈ loop.registered ∧ loop.contexts.count fd = 1
  clients : ∀ slot ∈ loop.contexts, slot ∈ loop.opened ∧ slot ≠ loop.lSock

/-- A descriptor is closed again and nothing else is changed. -/
structure EventLoop.Refuses (sock : Nat) (before after : EventLoop) : Prop where
  closed : sock ∉ after.opened
  opened : after.opened = before.opened
  registered : after.registered = before.registered
  contexts : after.contexts = before.contexts
  clients : ∀ slot, slot ≠ sock →
    after.state.broker.clients slot = before.state.broker.clients slot

/-- After a step the client set is exact, `HASH_DEL` was applied to slots in the hash
only, and a connection was refused for lack of room alone. -/
structure KeepsClientSet (event : SocketEvent) (before after : EventLoop) : Prop where
  exact : after.Exact
  deletions : ∀ deletion ∈ after.deletions, deletion.2 = true
  refused : ∀ sock, event = .accept (some sock) → maxFdPerLoop ≤ before.contexts.length →
    EventLoop.Refuses sock before after

/-- `accept` does not return descriptor 0, and there is room for every other descriptor
that is not closed for its number. -/
def HasRoom (event : SocketEvent) (before : EventLoop) : Prop :=
  match event with
  | .accept (some sock) =>
      sock ≠ 0 ∧
        (sock < maxFdPerLoop * loopCount → before.contexts.length < maxFdPerLoop)
  | _ => True

instance (event : SocketEvent) (before : EventLoop) : Decidable (HasRoom event before) :=
  match event with
  | .accept (some _) => inferInstanceAs (Decidable (_ ∧ (_ → _)))
  | .accept none => isTrue trivial
  | .connection _ => isTrue trivial
  | .removeReader _ => isTrue trivial
  | .removeWriter _ => isTrue trivial

/-- The client set is exact, and the broker behind it is one of those that `loopStep`
reaches. -/
structure SocketInvariant (loop : EventLoop) : Prop where
  sound : loop.state.Sound
  exact : loop.Exact
  deletions : ∀ deletion ∈ loop.deletions, deletion.2 = true
  openedNodup : loop.opened.Nodup
  registeredNodup : loop.registered.Nodup
  registered : ∀ fd ∈ loop.registered, fd ∈ loop.opened

/-! One step. -/

theorem Stepped.contextsByPtr {event : LoopEvent} {before after : LoopState}
    (stepped : Stepped before event after) (stays : ∀ sock, event ≠ .accept sock)
    (remains : ∀ slot, event ≠ .remove slot) :
    after.broker.contextsByPtr = before.broker.contextsByPtr := by
  cases stepped with
  | accepted free => exact absurd rfl (stays _)
  | unparsed isOpen idle rejected => rfl
  | handled isOpen idle parsed handled returned => exact handled.contextsByPtr
  | failed isOpen idle => rfl
  | removed isOpen closing => exact absurd rfl (remains _)
  | flushed isOpen answered outcome => rfl

namespace SocketInvariant

theorem start (memory : Memory) (lSock : Nat) :
    SocketInvariant (EventLoop.start memory lSock) where
  sound := .start memory
  exact :=
    ⟨⟨List.mem_singleton_self _, List.mem_singleton_self _⟩,
      fun _ member other => absurd (List.mem_singleton.mp member) other,
      fun _ none => absurd none List.not_mem_nil⟩
  deletions := fun _ none => absurd none List.not_mem_nil
  openedNodup := List.nodup_singleton _
  registeredNodup := List.nodup_singleton _
  registered := fun _ member => member

variable {loop after : EventLoop}

theorem connection (invariant : SocketInvariant loop) {event : LoopEvent} {state : LoopState}
    (stepped : loopStep event loop.state = some state) (stays : ∀ sock, event ≠ .accept sock)
    (remains : ∀ slot, event ≠ .remove slot) :
    SocketInvariant { loop with state := state } := by
  have took := loopStep_stepped stepped
  have contexts : state.broker.contextsByPtr = loop.state.broker.contextsByPtr :=
    took.contextsByPtr stays remains
  obtain ⟨listener, sockets, clients⟩ := invariant.exact
  refine ⟨invariant.sound.step took, ⟨listener, ?_, ?_⟩, invariant.deletions,
    invariant.openedNodup, invariant.registeredNodup, invariant.registered⟩
  · intro fd member other
    obtain ⟨watched, once⟩ := sockets fd member other
    refine ⟨watched, ?_⟩
    show state.broker.contextsByPtr.count fd = 1
    rw [contexts]
    exact once
  · intro slot member
    change slot ∈ state.broker.contextsByPtr at member
    rw [contexts] at member
    exact clients slot member

theorem remove (invariant : SocketInvariant loop) {fd : Nat} (inside : fd ∈ loop.contexts)
    (closing : loop.state.phase fd = .closing) (removed : loop.removeClient fd = some after) :
    SocketInvariant after ∧ loopStep (.remove fd) loop.state = some after.state := by
  have deleted : hashDel loop.contexts loop.linked fd = some (loop.contexts.erase fd) := by
    rw [hashDel, if_neg (List.ne_nil_of_mem inside), if_pos inside]
  rw [EventLoop.removeClient, deleted, Option.map_some, Option.some.injEq] at removed
  subst removed
  have stepped : loopStep (.remove fd) loop.state =
      some
        { loop.state with
          broker := MuMQ.removeClient loop.state.broker fd
          phase := Function.update loop.state.phase fd .idle } := by
    rw [loopStep, if_pos ⟨inside, closing⟩]
  obtain ⟨listener, sockets, clients⟩ := invariant.exact
  obtain ⟨_, isClient⟩ := clients fd inside
  refine ⟨⟨invariant.sound.step (loopStep_stepped stepped), ⟨?_, ?_, ?_⟩, ?_,
    invariant.openedNodup.erase fd, invariant.registeredNodup.erase fd, ?_⟩, stepped⟩
  · exact ⟨(List.mem_erase_of_ne isClient.symm).mpr listener.1,
      (List.mem_erase_of_ne isClient.symm).mpr listener.2⟩
  · intro other member isOther
    obtain ⟨apart, wasOpen⟩ := invariant.openedNodup.mem_erase_iff.mp member
    obtain ⟨watched, once⟩ := sockets other wasOpen isOther
    refine ⟨(List.mem_erase_of_ne apart).mpr watched, ?_⟩
    show (loop.contexts.erase fd).count other = 1
    rw [List.count_erase_of_ne apart]
    exact once
  · intro slot member
    obtain ⟨apart, wasInside⟩ := invariant.sound.nodup.mem_erase_iff.mp member
    obtain ⟨isOpen, isOther⟩ := clients slot wasInside
    exact ⟨(List.mem_erase_of_ne apart).mpr isOpen, isOther⟩
  · intro deletion member
    rcases List.mem_append.mp member with earlier | last
    · exact invariant.deletions deletion earlier
    · rw [List.mem_singleton.mp last]
      exact decide_eq_true inside
  · intro other member
    obtain ⟨apart, watched⟩ := invariant.registeredNodup.mem_erase_iff.mp member
    exact (List.mem_erase_of_ne apart).mpr (invariant.registered other watched)

theorem accept (invariant : SocketInvariant loop) {sock : Nat} (unused : sock ∉ loop.opened)
    (usable : sock ≠ 0) (small : sock < maxFdPerLoop * loopCount)
    (room : loop.contexts.length < maxFdPerLoop) (accepted : loop.accept sock = some after) :
    SocketInvariant after ∧ loopStep (.accept sock) loop.state = some after.state := by
  rw [EventLoop.accept, if_neg usable, if_neg (Nat.not_le.mpr small), if_pos room,
    Option.some.injEq] at accepted
  subst accepted
  obtain ⟨listener, sockets, clients⟩ := invariant.exact
  have free : ¬ loop.state.IsOpen sock := fun isOpen => unused (clients sock isOpen).1
  have stepped : loopStep (.accept sock) loop.state =
      some
        { loop.state with
          broker := acceptClient loop.state.broker sock
          session := Function.update loop.state.session sock ⟨[], []⟩ } := by
    rw [loopStep, if_neg free]
  have separate : ∀ {sockets : List Nat}, (∀ fd ∈ sockets, fd ∈ loop.opened) →
      sockets.Nodup → (sockets ++ [sock]).Nodup := by
    intro sockets inside nodup
    refine List.nodup_append.mpr ⟨nodup, List.nodup_singleton _, ?_⟩
    intro fd member other single same
    rw [List.mem_singleton] at single
    exact unused (single ▸ same ▸ inside fd member)
  refine ⟨⟨invariant.sound.step (loopStep_stepped stepped), ⟨?_, ?_, ?_⟩, invariant.deletions,
    separate (fun _ member => member) invariant.openedNodup,
    separate invariant.registered invariant.registeredNodup, ?_⟩, stepped⟩
  · exact ⟨List.mem_append_left _ listener.1, List.mem_append_left _ listener.2⟩
  · intro fd member isOther
    show fd ∈ loop.registered ++ [sock] ∧ (loop.contexts ++ [sock]).count fd = 1
    rw [List.count_append]
    rcases List.mem_append.mp member with wasOpen | isNew
    · obtain ⟨watched, once⟩ := sockets fd wasOpen isOther
      have apart : sock ≠ fd := fun same => unused (same ▸ wasOpen)
      refine ⟨List.mem_append_left _ watched, ?_⟩
      rw [once, List.count_singleton, if_neg (by simpa using apart)]
    · rw [List.mem_singleton] at isNew
      subst isNew
      have absent : loop.contexts.count fd = 0 := List.count_eq_zero_of_not_mem free
      exact ⟨by simp, by rw [absent, List.count_singleton_self]⟩
  · intro slot member
    rcases List.mem_append.mp member with earlier | isNew
    · obtain ⟨isOpen, isOther⟩ := clients slot earlier
      exact ⟨List.mem_append_left _ isOpen, isOther⟩
    · rw [List.mem_singleton] at isNew
      subst isNew
      exact ⟨by simp, fun same => unused (same ▸ listener.1)⟩
  · intro fd member
    rcases List.mem_append.mp member with earlier | isNew
    · exact List.mem_append_left _ (invariant.registered fd earlier)
    · exact List.mem_append_right _ isNew

/-- A step that has room is one of the broker's steps, or leaves the broker alone. -/
theorem step (invariant : SocketInvariant loop) {event : SocketEvent}
    (stepped : socketStep event loop = some after) (room : HasRoom event loop) :
    SocketInvariant after ∧
      (after = loop ∨ ∃ taken, loopStep taken loop.state = some after.state) := by
  match event, stepped with
  | .accept answer, stepped =>
      simp only [socketStep, if_pos invariant.exact.listener] at stepped
      cases answer with
      | none =>
          cases stepped
          exact ⟨invariant, .inl rfl⟩
      | some sock =>
          simp only at stepped
          split at stepped
          · cases stepped
          · rename_i unused
            obtain ⟨usable, hasRoom⟩ := room
            by_cases small : sock < maxFdPerLoop * loopCount
            · obtain ⟨kept, taken⟩ :=
                invariant.accept unused usable small (hasRoom small) stepped
              exact ⟨kept, .inr ⟨_, taken⟩⟩
            · rw [EventLoop.accept, if_neg usable, if_pos (Nat.not_lt.mp small)] at stepped
              cases stepped
              exact ⟨invariant, .inl rfl⟩
  | .connection (.packet slot frame), stepped =>
      obtain ⟨state, taken, rfl⟩ := Option.map_eq_some_iff.mp stepped
      exact ⟨invariant.connection taken nofun nofun, .inr ⟨_, taken⟩⟩
  | .connection (.fail slot), stepped =>
      obtain ⟨state, taken, rfl⟩ := Option.map_eq_some_iff.mp stepped
      exact ⟨invariant.connection taken nofun nofun, .inr ⟨_, taken⟩⟩
  | .connection (.flush slot event), stepped =>
      obtain ⟨state, taken, rfl⟩ := Option.map_eq_some_iff.mp stepped
      exact ⟨invariant.connection taken nofun nofun, .inr ⟨_, taken⟩⟩
  | .removeReader fd, stepped =>
      rw [socketStep] at stepped
      split at stepped
      · rename_i ready
        obtain ⟨watched, isClient, closing⟩ := ready
        have once := (invariant.exact.sockets fd (invariant.registered fd watched) isClient).2
        have inside : fd ∈ loop.contexts := List.count_pos_iff.mp (by omega)
        obtain ⟨kept, taken⟩ := invariant.remove inside closing stepped
        exact ⟨kept, .inr ⟨_, taken⟩⟩
      · cases stepped
  | .removeWriter slot, stepped =>
      rw [socketStep] at stepped
      split at stepped
      · rename_i ready
        obtain ⟨inside, closing⟩ := ready
        rw [invariant.sound.sock slot inside] at stepped
        obtain ⟨kept, taken⟩ := invariant.remove inside closing stepped
        exact ⟨kept, .inr ⟨_, taken⟩⟩
      · cases stepped

theorem keepsClientSet (invariant : SocketInvariant loop) {event : SocketEvent}
    (stepped : socketStep event loop = some after) (room : HasRoom event loop) :
    KeepsClientSet event loop after := by
  obtain ⟨kept, _⟩ := invariant.step stepped room
  refine ⟨kept.exact, kept.deletions, ?_⟩
  rintro sock rfl full
  simp only [socketStep, if_pos invariant.exact.listener] at stepped
  split at stepped
  · cases stepped
  · rename_i unused
    -- there is no room, so the descriptor is closed for its number
    have large : ¬ sock < maxFdPerLoop * loopCount :=
      fun small => Nat.not_lt.mpr full (room.2 small)
    rw [EventLoop.accept, if_neg room.1, if_pos (Nat.not_lt.mp large)] at stepped
    cases stepped
    exact ⟨unused, rfl, rfl, rfl, fun _ _ => rfl⟩

/-- Without room the accepted descriptor 0 is forgotten, and any other makes
`HASH_DEL` run on the listener's slot. -/
theorem hasRoom (invariant : SocketInvariant loop) {event : SocketEvent}
    (stepped : socketStep event loop = some after)
    (keeps : KeepsClientSet event loop after) : HasRoom event loop := by
  match event, stepped, keeps with
  | .accept none, _, _ => trivial
  | .connection _, _, _ => trivial
  | .removeReader _, _, _ => trivial
  | .removeWriter _, _, _ => trivial
  | .accept (some sock), stepped, keeps =>
      simp only [socketStep, if_pos invariant.exact.listener] at stepped
      split at stepped
      · cases stepped
      · rename_i unused
        have apart : sock ≠ loop.lSock := fun same => unused (same ▸ invariant.exact.listener.1)
        rw [EventLoop.accept] at stepped
        split at stepped
        · rename_i isZero
          cases stepped
          have watched := (keeps.exact.sockets sock (by simp) apart).1
          exact absurd (invariant.registered sock watched) unused
        · rename_i usable
          refine ⟨usable, fun small => ?_⟩
          rw [if_neg (Nat.not_le.mpr small)] at stepped
          split at stepped
          · assumption
          · obtain ⟨contexts, _, rfl⟩ := Option.map_eq_some_iff.mp stepped
            have inside := keeps.deletions _ (List.mem_append_right _ (List.mem_singleton_self _))
            exact absurd rfl (invariant.exact.clients _ (of_decide_eq_true inside)).2

end SocketInvariant

/-- The client set is exact all along a run exactly when every accept of the run has
room. -/
theorem keepsClientSet_iff (memory : Memory) (lSock : Nat) (events : List SocketEvent) :
    Along socketStep KeepsClientSet (.start memory lSock) events ↔
      Along socketStep (fun event before _ => HasRoom event before) (.start memory lSock)
        events := by
  refine along_iff_of_invariant SocketInvariant ?_ ?_ (SocketInvariant.start memory lSock)
  · intro event _ before after invariant stepped room
    exact (invariant.step stepped room).1
  · intro event _ before after invariant stepped
    exact ⟨invariant.hasRoom stepped, invariant.keepsClientSet stepped⟩

/-- With room at every accept the event loop is a run of the broker. -/
theorem SocketInvariant.runs {start final : EventLoop} (invariant : SocketInvariant start)
    {events : List SocketEvent} (ran : run socketStep start events = some final)
    (room : Along socketStep (fun event before _ => HasRoom event before) start events) :
    ∃ taken, run loopStep start.state taken = some final.state := by
  induction events generalizing start with
  | nil =>
      cases ran
      exact ⟨[], rfl⟩
  | cons event rest induction =>
      obtain ⟨next, stepped, ranRest⟩ := run_cons.mp ran
      obtain ⟨hasRoom, roomRest⟩ := room next stepped
      obtain ⟨kept, same | ⟨taken, took⟩⟩ := invariant.step stepped hasRoom
      · obtain ⟨others, ranOthers⟩ := induction kept ranRest roomRest
        exact ⟨others, same ▸ ranOthers⟩
      · obtain ⟨others, ranOthers⟩ := induction kept ranRest roomRest
        exact ⟨taken :: others, run_cons.mpr ⟨next.state, took, ranOthers⟩⟩

/-! A full event loop. -/

/-- Accepts of the descriptors from 4 on. -/
def accepts (count : Nat) : List SocketEvent :=
  (List.range count).map fun i => .accept (some (4 + i))

theorem run_accepts (memory : Memory) {count : Nat} (few : count ≤ maxFdPerLoop) :
    ∃ loop, run socketStep (.start memory 3) (accepts count) = some loop ∧
      loop.lSock = 3 ∧ loop.opened = 3 :: (List.range count).map (4 + ·) ∧
      loop.registered = loop.opened ∧ loop.contexts = (List.range count).map (4 + ·) ∧
      loop.linked = loop.contexts := by
  induction count with
  | zero => exact ⟨_, rfl, rfl, rfl, rfl, rfl, rfl⟩
  | succ count induction =>
      obtain ⟨loop, ran, lSock, opened, registered, contexts, linked⟩ :=
        induction (Nat.le_of_succ_le few)
      have unused : 4 + count ∉ loop.opened := by
        rw [opened]
        simp
        omega
      have room : loop.contexts.length < maxFdPerLoop := by
        rw [contexts, List.length_map, List.length_range]
        exact few
      have small : ¬ maxFdPerLoop * loopCount ≤ 4 + count := by
        unfold maxFdPerLoop loopCount at *
        omega
      have listener : loop.lSock ∈ loop.opened ∧ loop.lSock ∈ loop.registered := by
        rw [registered, opened, lSock]
        simp
      have stepped : ∃ after, socketStep (.accept (some (4 + count))) loop = some after ∧
          after.lSock = loop.lSock ∧ after.opened = loop.opened ++ [4 + count] ∧
          after.registered = loop.registered ++ [4 + count] ∧
          after.contexts = loop.contexts ++ [4 + count] ∧
          after.linked = loop.linked ++ [4 + count] := by
        simp only [socketStep, if_pos listener, if_neg unused, EventLoop.accept, if_neg small,
          if_pos room, if_neg (by omega : ¬ 4 + count = 0)]
        exact ⟨_, rfl, rfl, rfl, rfl, rfl, rfl⟩
      obtain ⟨after, stepped, sameSock, openedAfter, registeredAfter, contextsAfter,
        linkedAfter⟩ := stepped
      refine ⟨after, ?_, sameSock.trans lSock, ?_, ?_, ?_, ?_⟩
      · rw [accepts, List.range_succ, List.map_append]
        exact run_append ran (run_cons.mpr ⟨after, stepped, rfl⟩)
      · rw [openedAfter, opened, List.range_succ, List.map_append]
        rfl
      · rw [registeredAfter, registered, openedAfter]
      · rw [contextsAfter, contexts, List.range_succ, List.map_append]
        rfl
      · rw [linkedAfter, linked, contextsAfter]

/-- Without room `remove_client` runs on the listener. -/
theorem EventLoop.accept_full {loop : EventLoop} {sock : Nat} (usable : sock ≠ 0)
    (small : sock < maxFdPerLoop * loopCount) (full : maxFdPerLoop ≤ loop.contexts.length)
    (outside : loop.lSock ∉ loop.contexts) (unlinked : loop.lSock ∉ loop.linked) :
    ∃ after, loop.accept sock = some after ∧
      after.deletions = loop.deletions ++ [(loop.lSock, false)] := by
  have nonempty : loop.contexts ≠ [] := by
    intro empty
    rw [empty] at full
    exact absurd full (by decide)
  have deleted : hashDel loop.contexts loop.linked loop.lSock = some [] := by
    rw [hashDel, if_neg nonempty, if_neg outside, if_neg unlinked]
  rw [EventLoop.accept, if_neg usable, if_neg (Nat.not_le.mpr small),
    if_neg (Nat.not_lt.mpr full)]
  refine ⟨_, congrArg (Option.map _) deleted, ?_⟩
  show loop.deletions ++ [(loop.lSock, decide (loop.lSock ∈ loop.contexts))] = _
  rw [decide_eq_false outside]

private theorem not_keepsClientSet_full (memory : Memory) {count : Nat}
    (full : count = maxFdPerLoop) :
    ¬ Along socketStep KeepsClientSet (.start memory 3) (accepts (count + 1)) := by
  obtain ⟨loop, ran, lSock, opened, registered, contexts, linked⟩ :=
    run_accepts memory (Nat.le_of_eq full)
  have unused : 4 + count ∉ loop.opened := by
    rw [opened]
    simp
    omega
  have listener : loop.lSock ∈ loop.opened ∧ loop.lSock ∈ loop.registered := by
    rw [registered, opened, lSock]
    simp
  have outside : loop.lSock ∉ loop.contexts := by
    rw [contexts, lSock]
    simp
    omega
  have small : 4 + count < maxFdPerLoop * loopCount := by
    unfold maxFdPerLoop loopCount at *
    omega
  have hasNoRoom : maxFdPerLoop ≤ loop.contexts.length := by
    rw [contexts, List.length_map, List.length_range, full]
  obtain ⟨after, accepted, deletions⟩ := EventLoop.accept_full (by omega) small hasNoRoom
    outside (linked ▸ outside)
  have stepped : socketStep (.accept (some (4 + count))) loop = some after := by
    simp only [socketStep, if_pos listener, if_neg unused]
    exact accepted
  intro keeps
  rw [accepts, List.range_succ, List.map_append] at keeps
  have last := (keeps.last ran stepped).deletions (loop.lSock, false) (by simp [deletions])
  cases last

/-- The accept behind 32200 others closes the listener and clears the hash; the accepted
socket stays open. -/
theorem keepsClientSet_overflow :
    ¬ Along socketStep KeepsClientSet (.start ⟨fun _ => true, fun _ => 0, 0⟩ 3)
      (accepts (maxFdPerLoop + 1)) :=
  not_keepsClientSet_full _ rfl

end MuMQ
