import MuMQ.Substree.Growth
import MuMQ.Substree.SubAdd

namespace MuMQ

/-! The stores of `mqtt3_sub_add`: the tree as other threads find it between them. -/

section Versions

variable (clients : Nat → Client) (context : Nat) (qos : Int)

/-- The versions of a chain of siblings while `versions` goes on at the first node with this
topic, `none` when there is no such node. -/
def branchVersions (topic : Token) (versions : Subhier → Insertion → List Subhier)
    (insertion : Insertion) : Subhier → Option (List Subhier)
  | .null => none
  | .node address parent own subs children next =>
      if own = topic then some (versions (.node address parent own subs children next) insertion)
      else
        (branchVersions topic versions insertion next).map fun versions =>
          versions.map fun next => .node address parent own subs children next

/-- The node that `_sub_add` is called on, after each of its stores: a new node is linked with
its topic and no child, a new leaf with its client, and `qos` is stored to a leaf that is
there. -/
def subAddVersions : List Token → Subhier → Insertion → List Subhier
  | _, .null, _ => []
  | [], .node address parent topic subs children next, insertion =>
      [.node address parent topic (subAddLeaf clients context qos address subs insertion).2.1
        children next]
  | token :: rest, .node address parent topic subs children next, insertion =>
      match branchVersions token (subAddVersions rest) insertion children with
      | some versions =>
          versions.map fun children => .node address parent topic subs children next
      | none =>
          match newBranch address token insertion.memory with
          | (none, _) => []
          | (some branch, memory) =>
              let insertion := { insertion with memory := memory }
              let insertion :=
                if children.isNull then { insertion with branchLock := false } else insertion
              (branch :: subAddVersions rest branch insertion).map fun branch =>
                .node address parent topic subs (children.append branch) next

/-- The children of the root after each store of `mqtt3_sub_add`. -/
def mqtt3SubAddVersions (broker : Broker) (context : Nat) (sub : CString) (qos : Int) :
    List Subhier :=
  match subTopicTokenise broker.memory sub with
  | (memory, some (token :: rest)) =>
      let client := broker.clients context
      let insertion : Insertion := ⟨memory, broker.branchLock, client.subs, client.subCount⟩
      match branchVersions token (subAddVersions broker.clients context qos (token :: rest))
        insertion broker.subs with
      | some versions => versions
      | none =>
          match newBranch Broker.rootAddress token memory with
          | (none, _) => []
          | (some child, memory) =>
              let child := child.withNext broker.subs
              child :: subAddVersions broker.clients context qos (token :: rest) child
                { insertion with memory := memory }
  | _ => []

/-- Versions of a tree from the first to the last, each of which the one before grows into. -/
inductive Versions (grows : Subhier → Subhier → Prop) :
    Subhier → List Subhier → Subhier → Prop
  | done (tree : Subhier) : Versions grows tree [] tree
  | store {first second last : Subhier} {versions : List Subhier} (grown : grows first second)
      (rest : Versions grows second versions last) :
      Versions grows first (second :: versions) last

namespace Versions

variable {grows grows' : Subhier → Subhier → Prop} {first last : Subhier}
  {versions : List Subhier}

theorem map (place : Subhier → Subhier)
    (kept : ∀ {before after}, grows before after → grows' (place before) (place after))
    (chain : Versions grows first versions last) :
    Versions grows' (place first) (versions.map place) (place last) := by
  induction chain with
  | done tree => exact .done _
  | store grown _ induction => exact .store (kept grown) induction

theorem of_nil (chain : Versions grows first [] last) : first = last := by
  cases chain
  rfl

theorem root (chain : Versions Subhier.Grown first versions last) :
    Versions Subhier.RootGrown first versions last := by
  induction chain with
  | done tree => exact .done tree
  | store grown _ induction => exact .store ⟨_, grown, .all _⟩ induction

theorem grown (chain : Versions Subhier.RootGrown first versions last) :
    Subhier.RootGrown first last := by
  induction chain with
  | done tree => exact .refl tree
  | store grown _ induction => exact grown.trans induction

end Versions

namespace Subhier

theorem Grown.children {address : Address} {parent : Option Address} {topic : Token}
    {subs : List Subleaf} {next before after : Subhier} (grown : Grown before after) :
    Grown (.node address parent topic subs before next)
      (.node address parent topic subs after next) :=
  .node address parent topic (.refl subs) grown (.refl next)

theorem Grown.next {address : Address} {parent : Option Address} {topic : Token}
    {subs : List Subleaf} {children before after : Subhier} (grown : Grown before after) :
    Grown (.node address parent topic subs children before)
      (.node address parent topic subs children after) :=
  .node address parent topic (.refl subs) (.refl children) grown

theorem Grown.append (chain branch : Subhier) : Grown chain (chain.append branch) := by
  induction chain with
  | null => exact .null _
  | node address parent topic subs children next _ induction => exact induction.next

theorem Grown.behind (chain : Subhier) {before after : Subhier} (grown : Grown before after) :
    Grown (chain.append before) (chain.append after) := by
  induction chain with
  | null => exact grown
  | node address parent topic subs children next _ induction => exact induction.next

end Subhier

variable {clients context qos}

theorem branchVersions_grown {topic : Token} {insertion : Insertion}
    {add : Subhier → Insertion → Insertion × Subhier × Int}
    {versions : Subhier → Insertion → List Subhier}
    (each : ∀ node, Versions Subhier.Grown node (versions node insertion)
      (add node insertion).2.1) (chain : Subhier) :
    (onBranch topic add insertion chain = none ∧
        branchVersions topic versions insertion chain = none) ∨
      ∃ result stores, onBranch topic add insertion chain = some result ∧
        branchVersions topic versions insertion chain = some stores ∧
        Versions Subhier.Grown chain stores result.2.1 := by
  induction chain with
  | null => exact .inl ⟨rfl, rfl⟩
  | node address parent own subs children next _ induction =>
      rw [onBranch, branchVersions]
      by_cases here : own = topic
      · rw [if_pos here, if_pos here]
        exact .inr ⟨_, _, rfl, rfl, each _⟩
      · rw [if_neg here, if_neg here]
        rcases induction with ⟨missing, none⟩ | ⟨result, stores, found, isSome, grown⟩
        · exact .inl ⟨by rw [missing]; rfl, by rw [none]; rfl⟩
        · refine .inr ⟨_, _, by rw [found]; rfl, by rw [isSome]; rfl, ?_⟩
          exact grown.map (fun next => .node address parent own subs children next) .next

theorem subAddLeaf_grown (address : Address) (leaves : List Subleaf) (insertion : Insertion) :
    LeavesGrown leaves (subAddLeaf clients context qos address leaves insertion).2.1 := by
  have outcome := subAddLeaf_outcome clients context qos address leaves insertion
  generalize subAddLeaf clients context qos address leaves insertion = result at outcome ⊢
  cases outcome with
  | renewed found => exact .of_links (setLeafQos_links found)
  | failed => exact .refl leaves
  | reused => exact .snoc leaves _
  | appended => exact .snoc leaves _

/-- The stores of `_sub_add` end with its result. -/
theorem subAddVersions_grown (tokens : List Token) (node : Subhier) (insertion : Insertion) :
    Versions Subhier.Grown node (subAddVersions clients context qos tokens node insertion)
      (subAdd clients context qos tokens node insertion).2.1 := by
  induction tokens generalizing node insertion with
  | nil =>
      cases node with
      | null => exact .done _
      | node address parent topic subs children next =>
          refine .store ?_ (.done _)
          exact .node address parent topic (subAddLeaf_grown address subs insertion)
            (.refl children) (.refl next)
  | cons token rest induction =>
      cases node with
      | null => exact .done _
      | node address parent topic subs children next =>
          rw [subAddVersions, subAdd]
          rcases branchVersions_grown (fun node => induction node insertion) children with
            ⟨missing, none⟩ | ⟨result, stores, found, isSome, grown⟩
          · rw [missing, none]
            rcases newBranch address token insertion.memory with ⟨_ | branch, memory⟩
            · exact .done _
            · have below := fun insertion =>
                (induction branch insertion).map
                  (fun branch => .node address parent topic subs (children.append branch) next)
                  fun grown => (grown.behind children).children
              refine .store (Subhier.Grown.append children branch).children ?_
              cases children with
              | null => exact below { insertion with memory := memory, branchLock := false }
              | node => exact below { insertion with memory := memory }
          · rw [found, isSome]
            exact grown.map (fun children => .node address parent topic subs children next)
              .children

theorem mqtt3SubAddVersions_tokenised {broker : Broker} {sub : CString} {token : Token}
    {rest : List Token} (split : tokens sub = token :: rest)
    (tokenised : subTopicTokenise broker.memory sub =
      (broker.memory.later (2 * (tokens sub).length), some (tokens sub))) :
    mqtt3SubAddVersions broker context sub qos =
      match branchVersions token (subAddVersions broker.clients context qos (tokens sub))
        (broker.tokenised context sub) broker.subs with
      | some versions => versions
      | none =>
          match newBranch Broker.rootAddress token (broker.tokenised context sub).memory with
          | (none, _) => []
          | (some child, memory) =>
              child.withNext broker.subs ::
                subAddVersions broker.clients context qos (tokens sub)
                  (child.withNext broker.subs)
                  { broker.tokenised context sub with memory := memory } := by
  rw [mqtt3SubAddVersions, tokenised, Broker.tokenised]
  simp only [split]
  rfl

/-- The stores of `mqtt3_sub_add` end with its result, and on the way there nodes, leaves and
children of the root are only added. -/
theorem mqtt3SubAddVersions_grown {broker after : Broker} {sub : CString} {rc : Int}
    (ran : mqtt3SubAdd broker context sub qos = some (after, rc)) :
    Versions Subhier.RootGrown broker.subs (mqtt3SubAddVersions broker context sub qos)
      after.subs := by
  rcases subTopicTokenise_appends broker.memory sub with
    ⟨succeeds, tokenised⟩ | ⟨fails, calls, failed⟩
  · rcases locked : broker.rootLock with _ | _
    · obtain ⟨token, rest, split⟩ := List.exists_cons_of_ne_nil (tokens_ne_nil sub)
      rw [mqtt3SubAdd_unlocked locked split tokenised] at ran
      rw [mqtt3SubAddVersions_tokenised split tokenised]
      rcases branchVersions_grown (fun node => subAddVersions_grown (tokens sub) node
          (broker.tokenised context sub)) broker.subs with
        ⟨missing, none⟩ | ⟨result, stores, found, isSome, grown⟩
      · rw [missing] at ran
        rw [none]
        rcases newBranch_outcome Broker.rootAddress token
            (broker.tokenised context sub).memory with ⟨_, created⟩ | ⟨_, calls, failed⟩
        · rw [created] at ran ⊢
          cases ran
          refine .store ⟨broker.subs, .refl _, .node (.all _)⟩ ?_
          exact (subAddVersions_grown (tokens sub) _ _).root
        · rw [failed] at ran ⊢
          cases ran
          exact .done _
      · rw [found] at ran
        rw [isSome]
        cases ran
        exact grown.root
    · simp only [mqtt3SubAdd, tokenised, locked, if_true] at ran
      cases ran
  · rw [mqtt3SubAdd, failed] at ran
    rw [mqtt3SubAddVersions, failed]
    cases ran
    exact .done _

end Versions

end MuMQ
