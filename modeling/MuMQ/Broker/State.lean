import MuMQ.Broker.Queue
import MuMQ.Substree.Subhier

namespace MuMQ

/-- `struct broker` with the two locks of `substree.c`, the hash of one event loop
and the allocator.  `subs` is the child pointer of the root of the tree. -/
structure Broker where
  clients : Nat → Client
  subs : Subhier
  rootLock : Bool
  branchLock : Bool
  contextsByPtr : List Nat
  memory : Memory

namespace Broker

/-- `&broker->subs`, an address inside the block of the broker itself, which is
the first one allocated. -/
def rootAddress : Address := 0

/-- Update the client in one slot. -/
def modifyClient (broker : Broker) (slot : Nat) (change : Client → Client) :
    Broker :=
  { broker with
    clients := fun other =>
      if other = slot then change (broker.clients slot) else broker.clients other }

def modifySender (broker : Broker) (slot : Nat) (change : Sender → Sender) :
    Broker :=
  broker.modifyClient slot fun client =>
    { client with sender := change client.sender }

@[simp] theorem modifyClient_self (broker : Broker) (slot : Nat)
    (change : Client → Client) :
    (broker.modifyClient slot change).clients slot =
      change (broker.clients slot) := by
  simp [modifyClient]

theorem modifyClient_other (broker : Broker) {slot other : Nat}
    (change : Client → Client) (different : other ≠ slot) :
    (broker.modifyClient slot change).clients other = broker.clients other := by
  simp [modifyClient, different]

@[simp] theorem modifySender_self (broker : Broker) (slot : Nat)
    (change : Sender → Sender) :
    (broker.modifySender slot change).clients slot =
      { broker.clients slot with sender := change (broker.clients slot).sender } := by
  simp [modifySender]

theorem modifySender_other (broker : Broker) {slot other : Nat}
    (change : Sender → Sender) (different : other ≠ slot) :
    (broker.modifySender slot change).clients other = broker.clients other :=
  modifyClient_other _ _ different

theorem modifySender_client (broker : Broker) (slot : Nat) (change : Sender → Sender)
    (other : Nat) :
    ∃ sender, (broker.modifySender slot change).clients other =
      { broker.clients other with sender := sender } := by
  by_cases own : other = slot
  · subst own
    exact ⟨_, modifySender_self broker other change⟩
  · exact ⟨_, modifySender_other broker change own⟩

end Broker

/-- `init_database`: zeroed clients and a tree whose root has one child, for the
empty topic.  Its four allocations are the broker, the table of clients, that
child and the child's topic. -/
def initDatabase (memory : Memory) : Broker where
  clients := fun _ => .zero
  subs := .node 2 none [] [] .null .null
  rootLock := false
  branchLock := false
  contextsByPtr := []
  memory := { memory with calls := 4 }

/-- `mqtt3_sub_add`, `none` when it waits for `root_lock` for ever. -/
def mqtt3SubAdd (broker : Broker) (context : Nat) (sub : CString) (qos : Int) :
    Option (Broker × Int) :=
  match subTopicTokenise broker.memory sub with
  | (memory, none) => some ({ broker with memory := memory }, 1)
  | (memory, some topics) =>
      if broker.rootLock then none
      else
        match topics with
        | [] => none
        | token :: rest =>
            let client := broker.clients context
            let insertion : Insertion :=
              ⟨memory, broker.branchLock, client.subs, client.subCount⟩
            let found := onBranch token
              (subAdd broker.clients context qos (token :: rest)) insertion broker.subs
            let finish := fun (result : Insertion × Subhier × Int) =>
              let (insertion, subs, rc) := result
              let broker := broker.modifyClient context fun client =>
                { client with subs := insertion.subs, subCount := insertion.subCount }
              ({ broker with
                  subs := subs
                  branchLock := insertion.branchLock
                  memory := insertion.memory },
                if rc = -1 then 0 else rc)
            match found with
            | some result => some (finish result)
            | none =>
                match newBranch Broker.rootAddress token memory with
                | (none, memory) =>
                    -- this return leaves `root_lock` held
                    some ({ broker with rootLock := true, memory := memory }, -2)
                | (some child, memory) =>
                    some (finish
                      (subAdd broker.clients context qos (token :: rest)
                        (child.withNext broker.subs)
                        { insertion with memory := memory }))

/-- One call of the callback of `mqtt3_sub_tree_process`. -/
structure Delivery where
  context : Nat
  topic : CString
  payload : List UInt8
  len : UInt32
  deriving DecidableEq

/-- `mqtt3_sub_tree_process`: the allocator, the return code and the calls of the
callback, in order. -/
def mqtt3SubTreeProcess (broker : Broker) (topic : CString) (payload : List UInt8)
    (len : UInt32) : Memory × Int × List Delivery :=
  match subTopicTokenise broker.memory topic with
  | (memory, none) => (memory, 1, [])
  | (memory, some tokens) =>
      (memory, 0,
        (subTreeProcess broker.clients tokens broker.subs).map fun context =>
          ⟨context, topic, payload, len⟩)

end MuMQ
