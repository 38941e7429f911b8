import MuMQ.Broker.Client
import MuMQ.Substree.Tokenise

namespace MuMQ

/-- `struct subleaf`.  Its `next` is the leaf that follows it in its node. -/
structure Subleaf where
  address : Address
  prev : Option Address
  context : Nat
  qos : Int
  deriving DecidableEq

/-- `struct subhier *`: `NULL`, or a node with its leaves, its first child and its
next sibling. -/
inductive Subhier where
  | null
  | node (address : Address) (parent : Option Address) (topic : Token)
      (subs : List Subleaf) (children next : Subhier)
  deriving DecidableEq

namespace Subhier

def isNull : Subhier → Bool
  | .null => true
  | .node .. => false

/-- `last->next = branch` for the last node of a sibling chain, or the chain's
head pointer when it has no node. -/
def append : (chain branch : Subhier) → Subhier
  | .null, branch => branch
  | .node address parent topic subs children next, branch =>
      .node address parent topic subs children (append next branch)

/-- `child->next = siblings` for a new node. -/
def withNext : (child siblings : Subhier) → Subhier
  | .null, siblings => siblings
  | .node address parent topic subs children _, siblings =>
      .node address parent topic subs children siblings

end Subhier

/-- What an insertion works on besides the tree: the allocator, `branch_lock`, and
the array of nodes of the subscribing client. -/
structure Insertion where
  memory : Memory
  branchLock : Bool
  subs : List (Option Address)
  subCount : Nat

/-- `if (!context->subs[i])` for the first such `i` below `sub_count`. -/
def freeSub (subs : List (Option Address)) (subCount : Nat) : Option Nat :=
  (List.range subCount).find? fun i => (subs.getD i none).isNone

/-- The loop over a node's leaves: the first leaf whose client has the id of
`context` gets the new `qos`. -/
def setLeafQos (clients : Nat → Client) (context : Nat) (qos : Int) :
    List Subleaf → Option (List Subleaf)
  | [] => none
  | leaf :: rest =>
      if (clients leaf.context).idString = (clients context).idString then
        some ({ leaf with qos := qos } :: rest)
      else (setLeafQos clients context qos rest).map (leaf :: ·)

/-- `_sub_add` at the end of the tokens: the node's leaves after it, and the
return code. -/
def subAddLeaf (clients : Nat → Client) (context : Nat) (qos : Int)
    (address : Address) (leaves : List Subleaf) (insertion : Insertion) :
    Insertion × List Subleaf × Int :=
  match setLeafQos clients context qos leaves with
  | some leaves => (insertion, leaves, 0)
  | none =>
      match insertion.memory.malloc with
      | (none, memory) => ({ insertion with memory := memory }, leaves, -2)
      | (some leaf, memory) =>
          let newLeaf : Subleaf :=
            ⟨leaf, (leaves.getLast?).map Subleaf.address, context, qos⟩
          match freeSub insertion.subs insertion.subCount with
          | some i =>
              ({ insertion with
                  memory := memory
                  subs := insertion.subs.set i (some address) },
                leaves ++ [newLeaf], 0)
          | none =>
              match memory.malloc with
              | (none, memory) => ({ insertion with memory := memory }, leaves, -2)
              | (some _, memory) =>
                  ({ insertion with
                      memory := memory
                      subs := insertion.subs.take insertion.subCount ++ [some address]
                      subCount := insertion.subCount + 1 },
                    leaves ++ [newLeaf], 0)

/-- The loop over a chain of siblings: apply `add` to the first node with this
topic, `none` when there is no such node. -/
def onBranch (topic : Token) (add : Subhier → Insertion → Insertion × Subhier × Int)
    (insertion : Insertion) : Subhier → Option (Insertion × Subhier × Int)
  | .null => none
  | .node address parent own subs children next =>
      if own = topic then
        some (add (.node address parent own subs children next) insertion)
      else
        (onBranch topic add insertion next).map fun (insertion, next, rc) =>
          (insertion, .node address parent own subs children next, rc)

/-- A new node for `topic` (`calloc` and `strdup`), `none` when there is no
memory. -/
def newBranch (parent : Address) (topic : Token) (memory : Memory) :
    Option Subhier × Memory :=
  match memory.malloc with
  | (none, memory) => (none, memory)
  | (some branch, memory) =>
      match memory.malloc with
      | (none, memory) => (none, memory)
      | (some _, memory) =>
          (some (.node branch (some parent) topic [] .null .null), memory)

/-- `_sub_add`.  The node it is called on is passed with its siblings behind it,
which it leaves alone. -/
def subAdd (clients : Nat → Client) (context : Nat) (qos : Int) :
    List Token → Subhier → Insertion → Insertion × Subhier × Int
  | _, .null, insertion => (insertion, .null, 0)
  | [], .node address parent topic subs children next, insertion =>
      let (insertion, subs, rc) :=
        subAddLeaf clients context qos address subs insertion
      (insertion, .node address parent topic subs children next, rc)
  | token :: rest, .node address parent topic subs children next, insertion =>
      match onBranch token (subAdd clients context qos rest) insertion children with
      | some (insertion, children, rc) =>
          (insertion, .node address parent topic subs children next, rc)
      | none =>
          match newBranch address token insertion.memory with
          | (none, memory) =>
              ({ insertion with memory := memory },
                .node address parent topic subs children next, -2)
          | (some branch, memory) =>
              -- only the store to an empty child pointer is under `branch_lock`
              let insertion := { insertion with memory := memory }
              let insertion :=
                if children.isNull then { insertion with branchLock := true }
                else insertion
              let insertion :=
                if children.isNull then { insertion with branchLock := false }
                else insertion
              let (insertion, branch, rc) :=
                subAdd clients context qos rest branch insertion
              (insertion,
                .node address parent topic subs (children.append branch) next, rc)

/-- `_subs_process`: the clients called back for the leaves of one node.  An id
is an array inside its client, so the tests for a missing id never hold. -/
def subsProcess (clients : Nat → Client) : List Subleaf → List Nat
  | [] => []
  | leaf :: rest =>
      if (clients leaf.context).isSubscribe then
        leaf.context :: subsProcess clients rest
      else subsProcess clients rest

/-- `_sub_search` from one branch of a chain of siblings on. -/
def subSearch (clients : Nat → Client) : List Token → Subhier → List Nat
  | _, .null => []
  | [], .node _ _ topic subs children next =>
      (if topic = [hash] ∧ children.isNull then subsProcess clients subs else [])
        ++ subSearch clients [] next
  | token :: rest, .node _ _ topic subs children next =>
      (if topic = token ∨ topic = [plus] then
          subSearch clients rest children
            ++ (if rest.isEmpty then subsProcess clients subs else [])
        else if topic = [hash] ∧ children.isNull then subsProcess clients subs
        else [])
        ++ subSearch clients (token :: rest) next

/-- The loop of `mqtt3_sub_tree_process` over the children of the root. -/
def subTreeProcess (clients : Nat → Client) (tokens : List Token) :
    Subhier → List Nat
  | .null => []
  | .node _ _ topic _ children next =>
      (if tokens.head? = some topic then subSearch clients tokens children else [])
        ++ subTreeProcess clients tokens next

end MuMQ
