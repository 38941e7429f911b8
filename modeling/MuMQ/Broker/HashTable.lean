import Mathlib.Algebra.Group.Nat.Defs
import Mathlib.Data.List.Nodup
import Mathlib.Data.List.Perm.Subperm
import MuMQ.Broker.Uthash
import MuMQ.Data.Links
import MuMQ.Data.Run

namespace MuMQ

open Data

/-! What the table of `uthash.h` holds after every run of additions and deletions. -/

/-- The pointers of the chain of a bucket, of all slots. -/
def hhNexts (handles : Nat → HashHandle) (slot : Nat) : Option Nat := (handles slot).hhNext

def hhPrevs (handles : Nat → HashHandle) (slot : Nat) : Option Nat := (handles slot).hhPrev

/-- The pointers of the order of addition, of all slots. -/
def nexts (handles : Nat → HashHandle) (slot : Nat) : Option Nat := (handles slot).next

def prevs (handles : Nat → HashHandle) (slot : Nat) : Option Nat := (handles slot).prev

/-- A bucket holds the handles of a chain. -/
structure BucketHolds (handles : Nat → HashHandle) (bucket : HashBucket) (chain : List Nat) :
    Prop where
  hhHead : bucket.hhHead = chain.head?
  count : bucket.count = chain.length
  links : Links (hhNexts handles) (hhPrevs handles) none chain none
  nodup : chain.Nodup

/-- Every item is in the chain of the bucket of its hash value, and in no other. -/
structure Filed (handles : Nat → HashHandle) (buckets : List HashBucket) (items : List Nat)
    (chains : Nat → List Nat) : Prop where
  holds : ∀ bkt < buckets.length, BucketHolds handles (buckets.getD bkt .zero) (chains bkt)
  members : ∀ bkt < buckets.length, ∀ slot,
    slot ∈ chains bkt ↔
      slot ∈ items ∧ hashToBkt (handles slot).hashv buckets.length = bkt

/-- The number of buckets is a power of two. -/
structure Sized (table : HashTable) : Prop where
  length : table.buckets.length = table.numBuckets
  power : table.numBuckets = 2 ^ table.log2NumBuckets

/-- The table of a hash that holds `contexts`, in the order of their addition. -/
structure TableHolds (handles : Nat → HashHandle) (table : HashTable) (contexts : List Nat) :
    Prop where
  sized : Sized table
  numItems : table.numItems = contexts.length
  tail : table.tail = contexts.getLast?
  filed : ∃ chains, Filed handles table.buckets contexts chains

/-- The hash holds `contexts`, in the order of their addition. -/
structure ClientHash.Holds (hash : ClientHash) (contexts : List Nat) : Prop where
  nodup : contexts.Nodup
  head : hash.head = contexts.head?
  links : Links (nexts hash.handles) (prevs hash.handles) none contexts none
  freed : contexts = [] → hash.table = none
  table : contexts ≠ [] → ∃ table, hash.table = some table ∧
    TableHolds hash.handles table contexts

theorem modifyHandle_apply (handles : Nat → HashHandle) (slot : Nat)
    (change : HashHandle → HashHandle) (other : Nat) :
    modifyHandle handles slot change other =
      if other = slot then change (handles other) else handles other := by
  by_cases own : other = slot
  · subst own
    rw [modifyHandle, Function.update_self, if_pos rfl]
  · rw [modifyHandle, Function.update_of_ne own, if_neg own]

theorem modifyHandle?_apply (handles : Nat → HashHandle) (pointer : Option Nat)
    (change : HashHandle → HashHandle) (other : Nat) :
    modifyHandle? handles pointer change other =
      if pointer = some other then change (handles other) else handles other := by
  cases pointer with
  | none => rfl
  | some slot =>
      rw [modifyHandle?, modifyHandle_apply]
      simp only [Option.some.injEq, eq_comm]

/-- The slots that are not in `contexts` keep their places in the order of addition. -/
def ClientHash.Spares (before after : ClientHash) (contexts : List Nat) : Prop :=
  ∀ other, other ∉ contexts → nexts after.handles other = nexts before.handles other ∧
    prevs after.handles other = prevs before.handles other

/-! The order of addition and the hash values are not touched by what happens in the
buckets. -/

/-- Nothing but the pointers of the chains has changed. -/
def SameOrder (before after : Nat → HashHandle) : Prop :=
  ∀ slot, (after slot).next = (before slot).next ∧ (after slot).prev = (before slot).prev ∧
    (after slot).hashv = (before slot).hashv

namespace SameOrder

variable {first second third : Nat → HashHandle}

theorem refl (handles : Nat → HashHandle) : SameOrder handles handles :=
  fun _ => ⟨rfl, rfl, rfl⟩

theorem trans (left : SameOrder first second) (right : SameOrder second third) :
    SameOrder first third := by
  intro slot
  obtain ⟨next, prev, hashv⟩ := left slot
  obtain ⟨next', prev', hashv'⟩ := right slot
  exact ⟨next'.trans next, prev'.trans prev, hashv'.trans hashv⟩

theorem modifyHandle? (handles : Nat → HashHandle) (pointer : Option Nat)
    (change : HashHandle → HashHandle)
    (same : ∀ handle : HashHandle, (change handle).next = handle.next ∧
      (change handle).prev = handle.prev ∧ (change handle).hashv = handle.hashv) :
    SameOrder handles (modifyHandle? handles pointer change) := by
  intro slot
  rw [modifyHandle?_apply]
  split
  · exact same (handles slot)
  · exact ⟨rfl, rfl, rfl⟩

theorem linkInBkt (handles : Nat → HashHandle) (hhHead : Option Nat) (slot : Nat) :
    SameOrder handles (linkInBkt handles hhHead slot) := by
  apply trans
  · exact modifyHandle? handles (some slot)
      (fun handle => { handle with hhNext := hhHead, hhPrev := none }) fun _ => ⟨rfl, rfl, rfl⟩
  · exact modifyHandle? _ hhHead (fun handle => { handle with hhPrev := some slot })
      fun _ => ⟨rfl, rfl, rfl⟩

theorem links (same : SameOrder first second) {cells : List Nat}
    (links : Links (nexts first) (prevs first) none cells none) :
    Links (nexts second) (prevs second) none cells none :=
  links.agree (fun slot _ => (same slot).1) (fun slot _ => (same slot).2.1)

theorem hashv (same : SameOrder first second) (slot : Nat) :
    (second slot).hashv = (first slot).hashv := (same slot).2.2

end SameOrder

theorem linkInBkt_hhNext (handles : Nat → HashHandle) (hhHead : Option Nat) (slot : Nat) :
    hhNexts (linkInBkt handles hhHead slot) = pushNext (hhNexts handles) hhHead slot := by
  funext other
  simp only [hhNexts, linkInBkt, modifyHandle?_apply, modifyHandle_apply, pushNext]
  split <;> split <;> rfl

theorem linkInBkt_hhPrev (handles : Nat → HashHandle) {hhHead : Option Nat} {slot : Nat}
    (apart : hhHead ≠ some slot) :
    hhPrevs (linkInBkt handles hhHead slot) = pushPrev (hhPrevs handles) hhHead slot := by
  funext other
  simp only [hhPrevs, linkInBkt, modifyHandle?_apply, modifyHandle_apply, pushPrev]
  by_cases own : other = slot
  · subst own
    rw [if_neg apart, if_pos rfl, if_pos rfl]
  · rw [if_neg own, if_neg own]
    split <;> rfl

theorem linkInBkt_other (handles : Nat → HashHandle) {hhHead : Option Nat} {slot other : Nat}
    (apart : other ≠ slot) (notHead : hhHead ≠ some other) :
    linkInBkt handles hhHead slot other = handles other := by
  simp only [linkInBkt, modifyHandle?_apply, modifyHandle_apply, if_neg apart, if_neg notHead]

theorem BucketHolds.agree {before after : Nat → HashHandle} {bucket : HashBucket}
    {chain : List Nat} (holds : BucketHolds before bucket chain)
    (same : ∀ slot ∈ chain, after slot = before slot) : BucketHolds after bucket chain where
  hhHead := holds.hhHead
  count := holds.count
  links :=
    holds.links.agree (fun slot member => congrArg HashHandle.hhNext (same slot member))
      (fun slot member => congrArg HashHandle.hhPrev (same slot member))
  nodup := holds.nodup

namespace Filed

variable {handles : Nat → HashHandle} {buckets : List HashBucket} {items : List Nat}
  {chains : Nat → List Nat}

theorem empty (handles : Nat → HashHandle) (count : Nat) :
    Filed handles (List.replicate count .zero) [] fun _ => [] where
  holds bkt inside := by
    have bucket : (List.replicate count HashBucket.zero).getD bkt .zero = .zero := by
      simp [List.getD_eq_getElem?_getD, List.getElem?_replicate]
      split <;> rfl
    rw [bucket]
    exact ⟨rfl, rfl, trivial, List.nodup_nil⟩
  members bkt inside slot := by simp

theorem congr {others : List Nat} (filed : Filed handles buckets items chains)
    (same : ∀ slot, slot ∈ items ↔ slot ∈ others) : Filed handles buckets others chains where
  holds := filed.holds
  members bkt inside slot := by rw [filed.members bkt inside slot, same slot]

/-- A slot in the bucket of another hash value is not in this chain. -/
theorem elsewhere (filed : Filed handles buckets items chains) {bkt slot : Nat}
    (inside : bkt < buckets.length)
    (other : hashToBkt (handles slot).hashv buckets.length ≠ bkt) : slot ∉ chains bkt :=
  fun member => other ((filed.members bkt inside slot).mp member).2

/-- An edit of one bucket and of the handles of its chain only. -/
theorem edit {after : Nat → HashHandle} {others : List Nat} {bkt : Nat} {bucket : HashBucket}
    {chain : List Nat} (filed : Filed handles buckets items chains)
    (inside : bkt < buckets.length) (order : SameOrder handles after)
    (holds : BucketHolds after bucket chain)
    (frame : ∀ slot, slot ∉ chains bkt → slot ∉ chain → after slot = handles slot)
    (chainMembers : ∀ slot, slot ∈ chain ↔
      slot ∈ others ∧ hashToBkt (handles slot).hashv buckets.length = bkt)
    (otherMembers : ∀ slot, hashToBkt (handles slot).hashv buckets.length ≠ bkt →
      (slot ∈ others ↔ slot ∈ items)) :
    Filed after (buckets.set bkt bucket) others (Function.update chains bkt chain) where
  holds other below := by
    rw [List.length_set] at below
    by_cases own : other = bkt
    · subst own
      rw [Function.update_self, List.getD_eq_getElem?_getD, List.getElem?_set_self below]
      exact holds
    · rw [Function.update_of_ne own, List.getD_eq_getElem?_getD,
        List.getElem?_set_ne (Ne.symm own), ← List.getD_eq_getElem?_getD]
      apply (filed.holds other below).agree
      intro slot member
      have place := ((filed.members other below slot).mp member).2
      have notHere : hashToBkt (handles slot).hashv buckets.length ≠ bkt :=
        fun same => own (place.symm.trans same)
      apply frame slot (filed.elsewhere inside notHere)
      exact fun inChain => notHere ((chainMembers slot).mp inChain).2
  members other below slot := by
    rw [List.length_set] at below ⊢
    rw [order.hashv slot]
    by_cases own : other = bkt
    · subst own
      rw [Function.update_self]
      exact chainMembers slot
    · rw [Function.update_of_ne own, filed.members other below slot]
      refine and_congr_left fun place => ?_
      exact (otherMembers slot fun here => own (place.symm.trans here)).symm

/-- `HASH_ADD_TO_BKT` without its expansion, and the body of the loop of the expansion. -/
theorem push (filed : Filed handles buckets items chains) {slot : Nat} (fresh : slot ∉ items)
    (inside : hashToBkt (handles slot).hashv buckets.length < buckets.length)
    (expandMult : Nat) :
    let bkt := hashToBkt (handles slot).hashv buckets.length
    let bucket := buckets.getD bkt .zero
    Filed (linkInBkt handles bucket.hhHead slot)
      (buckets.set bkt ⟨some slot, bucket.count + 1, expandMult⟩) (slot :: items)
      (Function.update chains bkt (slot :: chains bkt)) := by
  intro bkt bucket
  have holds : BucketHolds handles bucket (chains bkt) := filed.holds bkt inside
  have notHere : slot ∉ chains bkt :=
    fun member => fresh ((filed.members bkt inside slot).mp member).1
  have notHead : bucket.hhHead ≠ some slot := by
    intro isHead
    rw [holds.hhHead] at isHead
    exact notHere (List.mem_of_mem_head? isHead)
  apply filed.edit inside (SameOrder.linkInBkt _ _ _)
  · refine ⟨rfl, ?_, ?_, List.nodup_cons.mpr ⟨notHere, holds.nodup⟩⟩
    · rw [List.length_cons, holds.count]
    · rw [linkInBkt_hhNext, linkInBkt_hhPrev handles notHead, holds.hhHead]
      exact holds.links.push holds.nodup notHere
  · intro other notInChain notInNew
    rw [List.mem_cons, not_or] at notInNew
    apply linkInBkt_other handles notInNew.1
    intro isHead
    rw [holds.hhHead] at isHead
    exact notInChain (List.mem_of_mem_head? isHead)
  · intro other
    rw [List.mem_cons, List.mem_cons, filed.members bkt inside other, or_and_right]
    constructor
    · rintro (rfl | both)
      · exact .inl ⟨rfl, rfl⟩
      · exact .inr both
    · rintro (⟨rfl, _⟩ | both)
      · exact .inl rfl
      · exact .inr both
  · intro other elsewhere
    rw [List.mem_cons]
    constructor
    · rintro (rfl | member)
      · exact absurd rfl elsewhere
      · exact member
    · exact .inr

end Filed

theorem hashDelInBkt_hhNext (bkt slot : Nat) (table : HashTable)
    (handles : Nat → HashHandle) :
    hhNexts (hashDelInBkt bkt slot table handles).2 =
      unlinkNext (hhNexts handles) (hhPrevs handles) slot := by
  funext other
  simp only [hhNexts, hhPrevs, hashDelInBkt, modifyHandle?_apply, unlinkNext]
  by_cases isPrev : (handles slot).hhPrev = some other
  · simp only [isPrev, ↓reduceIte]
    split <;> rfl
  · simp only [isPrev, ↓reduceIte]
    split <;> rfl

theorem hashDelInBkt_hhPrev (bkt slot : Nat) (table : HashTable)
    (handles : Nat → HashHandle) :
    hhPrevs (hashDelInBkt bkt slot table handles).2 =
      unlinkNext (hhPrevs handles) (hhNexts handles) slot := by
  funext other
  simp only [hhNexts, hhPrevs, hashDelInBkt, modifyHandle?_apply, unlinkNext]
  by_cases isNext : (handles slot).hhNext = some other
  · simp only [isNext, ↓reduceIte]
  · simp only [isNext, ↓reduceIte]
    split <;> rfl

theorem hashDelInBkt_order (bkt slot : Nat) (table : HashTable) (handles : Nat → HashHandle) :
    SameOrder handles (hashDelInBkt bkt slot table handles).2 := by
  apply SameOrder.trans
  · exact SameOrder.modifyHandle? handles (handles slot).hhPrev
      (fun handle => { handle with hhNext := (handles slot).hhNext }) fun _ => ⟨rfl, rfl, rfl⟩
  · exact SameOrder.modifyHandle? _ (handles slot).hhNext
      (fun handle => { handle with hhPrev := (handles slot).hhPrev }) fun _ => ⟨rfl, rfl, rfl⟩

/-- A list without one of its elements begins with the element behind it when that was the
first one. -/
theorem head?_erase {front back : List Nat} {slot : Nat} (apart : slot ∉ front) :
    (if (front ++ slot :: back).head? = some slot then back.head?
      else (front ++ slot :: back).head?) = (front ++ back).head? := by
  cases front with
  | nil => rw [List.nil_append, List.head?_cons, if_pos rfl, List.nil_append]
  | cons first front =>
      have notFirst : ¬ some first = some slot := by
        rintro same
        rw [Option.some.injEq] at same
        exact apart (same ▸ List.mem_cons_self)
      simp only [List.cons_append, List.head?_cons, notFirst, ↓reduceIte]

/-- `HASH_DEL_IN_BKT`. -/
theorem Filed.remove {handles : Nat → HashHandle} (table : HashTable) {items : List Nat}
    {chains : Nat → List Nat} (filed : Filed handles table.buckets items chains)
    (nodup : items.Nodup) {slot : Nat} (member : slot ∈ items)
    (inside : hashToBkt (handles slot).hashv table.buckets.length < table.buckets.length) :
    let bkt := hashToBkt (handles slot).hashv table.buckets.length
    let deleted := hashDelInBkt bkt slot table handles
    Filed deleted.2 deleted.1.buckets (items.erase slot)
      (Function.update chains bkt ((chains bkt).erase slot)) := by
  intro bkt deleted
  have holds := filed.holds bkt inside
  have inChain : slot ∈ chains bkt := (filed.members bkt inside slot).mpr ⟨member, rfl⟩
  obtain ⟨front, back, chain⟩ := List.append_of_mem inChain
  have chainNodup := holds.nodup
  have links := holds.links
  rw [chain] at chainNodup links
  have apart : slot ∉ front := by
    intro inFront
    rw [List.nodup_append] at chainNodup
    exact chainNodup.2.2 slot inFront slot List.mem_cons_self rfl
  have erased : (chains bkt).erase slot = front ++ back := by
    rw [chain, List.erase_append_right _ apart, List.erase_cons_head]
  obtain ⟨toPrev, toNext⟩ := links.around
  rw [Option.or_none] at toPrev toNext
  apply filed.edit inside (hashDelInBkt_order bkt slot table handles)
  · refine ⟨?_, ?_, ?_, holds.nodup.erase slot⟩
    · show (if _ = some slot then hhNexts handles slot else _) = _
      rw [holds.hhHead, chain, toNext, ← chain, erased, chain, head?_erase apart]
    · show (table.buckets.getD bkt .zero).count - 1 = _
      rw [holds.count, List.length_erase_of_mem inChain]
    · rw [hashDelInBkt_hhNext, hashDelInBkt_hhPrev, erased]
      exact links.unlink chainNodup
  · intro other notInChain _
    have notPrev : ¬ (handles slot).hhPrev = some other := by
      intro isPrev
      have inFront := List.mem_of_getLast? (toPrev.symm.trans isPrev)
      exact notInChain (chain ▸ List.mem_append_left _ inFront)
    have notNext : ¬ (handles slot).hhNext = some other := by
      intro isNext
      have inBack := List.mem_of_mem_head? (toNext.symm.trans isNext)
      exact notInChain (chain ▸ List.mem_append_right _ (List.mem_cons_of_mem _ inBack))
    simp only [hashDelInBkt, modifyHandle?_apply, if_neg notPrev, if_neg notNext]
  · intro other
    rw [holds.nodup.mem_erase_iff, nodup.mem_erase_iff, filed.members bkt inside other,
      and_assoc]
  · intro other elsewhere
    apply List.mem_erase_of_ne
    rintro rfl
    exact elsewhere rfl

/-! The expansion. -/

/-- What an expansion has done so far: the items in `done` are in their new buckets. -/
structure Expansion.Moved (start : Nat → HashHandle) (numBkts : Nat) (expansion : Expansion)
    (done : List Nat) : Prop where
  order : SameOrder start expansion.handles
  length : expansion.newBuckets.length = numBkts
  filed : ∃ chains, Filed expansion.handles expansion.newBuckets done chains
  frame : ∀ slot, slot ∉ done → expansion.handles slot = start slot

namespace Expansion.Moved

variable {start : Nat → HashHandle} {numBkts : Nat} {expansion : Expansion} {done : List Nat}

theorem move (ideal : Nat) (moved : Moved start numBkts expansion done) {slot : Nat}
    (fresh : slot ∉ done)
    (inside : hashToBkt (start slot).hashv numBkts < numBkts) :
    Moved start numBkts (expansion.move numBkts ideal slot) (slot :: done) := by
  obtain ⟨order, rfl, ⟨chains, filed⟩, frame⟩ := moved
  rw [← order.hashv slot] at inside
  have pushed := filed.push fresh inside
  refine ⟨order.trans (SameOrder.linkInBkt _ _ _), List.length_set, ⟨_, pushed _⟩, ?_⟩
  intro other notDone
  rw [List.mem_cons, not_or] at notDone
  rw [← frame other notDone.2]
  apply linkInBkt_other _ notDone.1
  intro isHead
  have holds := filed.holds _ inside
  rw [holds.hhHead] at isHead
  exact notDone.2 ((filed.members _ inside other).mp (List.mem_of_mem_head? isHead)).1

theorem moveChain (ideal : Nat) {turns : Nat} {chain : List Nat} {before : Option Nat}
    (moved : Moved start numBkts expansion done)
    (links : Links (hhNexts start) (hhPrevs start) before chain none)
    (nodup : chain.Nodup) (fresh : ∀ slot ∈ chain, slot ∉ done)
    (inside : ∀ slot, hashToBkt (start slot).hashv numBkts < numBkts)
    (enough : chain.length ≤ turns) :
    Moved start numBkts
      (Expansion.moveChain numBkts ideal turns chain.head? expansion) (chain.reverse ++ done) := by
  induction chain generalizing before expansion done turns with
  | nil => cases turns <;> exact moved
  | cons slot chain induction =>
      obtain ⟨_, toNext, rest⟩ := links
      obtain ⟨notIn, restNodup⟩ := List.nodup_cons.mp nodup
      have freshSlot := fresh slot List.mem_cons_self
      cases turns with
      | zero => exact absurd enough (Nat.not_succ_le_zero _)
      | succ turns =>
          have next : (expansion.handles slot).hhNext = chain.head? := by
            rw [moved.frame slot freshSlot]
            exact toNext.trans Option.or_none
          rw [List.head?_cons, Expansion.moveChain, next, List.reverse_cons, List.append_assoc]
          apply induction (moved.move ideal freshSlot (inside slot)) rest restNodup
          · intro other member
            rw [List.mem_cons, not_or]
            exact ⟨fun same => notIn (same ▸ member),
              fresh other (List.mem_cons_of_mem _ member)⟩
          · exact Nat.le_of_succ_le_succ enough

/-- The loop over the old buckets, from the one with the number `first` on. -/
theorem moveAll (buckets : List HashBucket) (first size ideal turns : Nat)
    {chains : Nat → List Nat}
    (moved : Moved start numBkts expansion done)
    (holds : ∀ i < buckets.length,
      BucketHolds start (buckets.getD i .zero) (chains (first + i)))
    (placed : ∀ i < buckets.length, ∀ slot ∈ chains (first + i),
      hashToBkt (start slot).hashv size = first + i)
    (earlier : ∀ slot ∈ done, hashToBkt (start slot).hashv size < first)
    (inside : ∀ slot, hashToBkt (start slot).hashv numBkts < numBkts)
    (enough : ∀ i < buckets.length, (chains (first + i)).length ≤ turns) :
    ∃ all, Moved start numBkts (Expansion.moveAll numBkts ideal turns buckets expansion) all ∧
      ∀ slot, slot ∈ all ↔
        slot ∈ done ∨ ∃ i < buckets.length, slot ∈ chains (first + i) := by
  induction buckets generalizing first expansion done with
  | nil => exact ⟨done, moved, fun slot => by simp⟩
  | cons bucket buckets induction =>
      have head : BucketHolds start bucket (chains first) := holds 0 (Nat.succ_pos _)
      have placedHead : ∀ slot ∈ chains first, hashToBkt (start slot).hashv size = first :=
        placed 0 (Nat.succ_pos _)
      have fresh : ∀ slot ∈ chains first, slot ∉ done := by
        intro slot member inDone
        exact Nat.ne_of_lt (earlier slot inDone) (placedHead slot member)
      have movedHead := moved.moveChain ideal head.links head.nodup fresh inside
        (enough 0 (Nat.succ_pos _))
      rw [← head.hhHead] at movedHead
      have shift : ∀ i, first + 1 + i = first + (i + 1) := by omega
      obtain ⟨all, movedAll, members⟩ := induction (first + 1) movedHead
        (fun i below => by
          rw [shift]
          exact holds (i + 1) (Nat.succ_lt_succ below))
        (fun i below => by
          rw [shift]
          exact placed (i + 1) (Nat.succ_lt_succ below))
        (fun slot member => by
          rw [List.mem_append, List.mem_reverse] at member
          rcases member with inHead | inDone
          · rw [placedHead slot inHead]
            exact Nat.lt_succ_self _
          · exact Nat.lt_succ_of_lt (earlier slot inDone))
        (fun i below => by
          rw [shift]
          exact enough (i + 1) (Nat.succ_lt_succ below))
      refine ⟨all, movedAll, fun slot => ?_⟩
      rw [members slot, List.mem_append, List.mem_reverse]
      constructor
      · rintro ((inHead | inDone) | ⟨i, below, member⟩)
        · exact .inr ⟨0, Nat.succ_pos _, inHead⟩
        · exact .inl inDone
        · exact .inr ⟨i + 1, Nat.succ_lt_succ below, shift i ▸ member⟩
      · rintro (inDone | ⟨i, below, member⟩)
        · exact .inl (.inr inDone)
        · cases i with
          | zero => exact .inl (.inl member)
          | succ i =>
              exact .inr ⟨i, Nat.lt_of_succ_lt_succ below, (shift i).symm ▸ member⟩

end Expansion.Moved

/-- The counters and the size of a table, and what its buckets hold. -/
structure TableFiled (before after : Nat → HashHandle) (table result : HashTable)
    (items : List Nat) : Prop where
  order : SameOrder before after
  sized : Sized result
  numItems : result.numItems = table.numItems
  tail : result.tail = table.tail
  filed : ∃ chains, Filed after result.buckets items chains

theorem hashToBkt_lt (hashv : UInt32) {numBkts : Nat} (some : 0 < numBkts) :
    hashToBkt hashv numBkts < numBkts := by
  have bounded : hashToBkt hashv numBkts ≤ numBkts - 1 := Nat.and_le_right
  omega

theorem Sized.positive {table : HashTable} (sized : Sized table) :
    0 < table.buckets.length := by
  rw [sized.length, sized.power]
  exact Nat.two_pow_pos _

theorem hashExpandBuckets_filed {room : BucketRoom} {table result : HashTable}
    {handles after : Nat → HashHandle} {items : List Nat} {chains : Nat → List Nat}
    (expanded : hashExpandBuckets room table handles = some (result, after))
    (filed : Filed handles table.buckets items chains) (sized : Sized table)
    (counted : table.numItems = items.length) :
    TableFiled handles after table result items := by
  rw [hashExpandBuckets] at expanded
  split at expanded
  · cases expanded
    have positive := sized.positive
    have start : Expansion.Moved handles (2 * table.numBuckets)
        ⟨handles, List.replicate (2 * table.numBuckets) .zero, 0⟩ [] :=
      ⟨.refl handles, List.length_replicate, ⟨_, .empty handles _⟩, fun _ _ => rfl⟩
    obtain ⟨all, moved, members⟩ := start.moveAll table.buckets 0 table.buckets.length
      ((table.numItems >>> (table.log2NumBuckets + 1)) +
        if table.numItems &&& (2 * table.numBuckets - 1) ≠ 0 then 1 else 0)
      table.numItems
      (fun i below => by
        rw [Nat.zero_add]
        exact filed.holds i below)
      (fun i below slot member => by
        rw [Nat.zero_add] at member ⊢
        exact ((filed.members i below slot).mp member).2)
      (fun _ none => absurd none List.not_mem_nil)
      (fun slot => hashToBkt_lt _ (by rw [← sized.length]; omega))
      (fun i below => by
        rw [Nat.zero_add, counted]
        have subset : chains i ⊆ items :=
          fun slot member => ((filed.members i below slot).mp member).1
        exact (List.subperm_of_subset (filed.holds i below).nodup subset).length_le)
    obtain ⟨chains', filed'⟩ := moved.filed
    refine ⟨moved.order, ⟨moved.length, ?_⟩, rfl, rfl, chains', filed'.congr fun slot => ?_⟩
    · show 2 * table.numBuckets = 2 ^ (table.log2NumBuckets + 1)
      rw [sized.power, pow_succ']
    · rw [members slot]
      constructor
      · rintro (none | ⟨i, below, member⟩)
        · exact absurd none List.not_mem_nil
        · rw [Nat.zero_add] at member
          exact ((filed.members i below slot).mp member).1
      · intro member
        have below := hashToBkt_lt (handles slot).hashv positive
        refine .inr ⟨_, below, ?_⟩
        rw [Nat.zero_add]
        exact (filed.members _ below slot).mpr ⟨member, rfl⟩
  · cases expanded

theorem hashAddToBkt_filed {room : BucketRoom} {table result : HashTable}
    {handles after : Nat → HashHandle} {items : List Nat} {chains : Nat → List Nat}
    {bkt slot : Nat} (added : hashAddToBkt room bkt slot table handles = some (result, after))
    (filed : Filed handles table.buckets items chains) (sized : Sized table)
    (counted : table.numItems = (slot :: items).length) (fresh : slot ∉ items)
    (place : bkt = hashToBkt (handles slot).hashv table.numBuckets) :
    TableFiled handles after table result (slot :: items) := by
  rw [← sized.length] at place
  subst place
  have pushed := filed.push fresh (hashToBkt_lt _ sized.positive)
  have order := SameOrder.linkInBkt handles
    (table.buckets.getD (hashToBkt (handles slot).hashv table.buckets.length) .zero).hhHead slot
  rw [hashAddToBkt] at added
  split at added
  · obtain ⟨order', sized', numItems, tail, filed'⟩ :=
      hashExpandBuckets_filed added (pushed _) ⟨List.length_set.trans sized.length, sized.power⟩
        counted
    exact ⟨order.trans order', sized', numItems, tail, filed'⟩
  · cases added
    exact ⟨order, ⟨List.length_set.trans sized.length, sized.power⟩, rfl, rfl, _, pushed _⟩

/-! Additions and deletions. -/

theorem Filed.transfer {before after : Nat → HashHandle} {buckets : List HashBucket}
    {items : List Nat} {chains : Nat → List Nat} (filed : Filed before buckets items chains)
    (sameNext : hhNexts after = hhNexts before) (samePrev : hhPrevs after = hhPrevs before)
    (sameHash : ∀ slot ∈ items, (after slot).hashv = (before slot).hashv) :
    Filed after buckets items chains where
  holds bkt below := by
    obtain ⟨hhHead, count, links, nodup⟩ := filed.holds bkt below
    refine ⟨hhHead, count, ?_, nodup⟩
    rw [sameNext, samePrev]
    exact links
  members bkt below slot := by
    rw [filed.members bkt below slot]
    refine and_congr_right fun member => ?_
    rw [sameHash slot member]

theorem getLast?_erase {front back : List Nat} {slot : Nat} (apart : slot ∉ back) :
    (if (front ++ slot :: back).getLast? = some slot then front.getLast?
      else (front ++ slot :: back).getLast?) = (front ++ back).getLast? := by
  rcases List.eq_nil_or_concat back with rfl | ⟨back, last, rfl⟩
  · rw [List.getLast?_concat, if_pos rfl, List.append_nil]
  · have notLast : ¬ some last = some slot := by
      rintro same
      rw [Option.some.injEq] at same
      exact apart (same ▸ by simp)
    rw [List.concat_eq_append, ← List.cons_append, ← List.append_assoc, List.getLast?_concat,
      if_neg notLast, ← List.append_assoc, List.getLast?_concat]

theorem linkInOrder_apply (handles : Nat → HashHandle) {tail : Option Nat} {slot : Nat}
    (notTail : tail ≠ some slot) (hashv : UInt32) (other : Nat) :
    linkInOrder handles tail slot hashv other =
      if other = slot then
        ⟨tail, none, (handles slot).hhPrev, (handles slot).hhNext, hashv⟩
      else if tail = some other then { handles other with next := some slot }
      else handles other := by
  rw [linkInOrder, modifyHandle_apply, modifyHandle?_apply]
  by_cases own : other = slot
  · subst own
    simp only [notTail, ↓reduceIte]
  · simp only [own, ↓reduceIte]

theorem linkInOrder_links (handles : Nat → HashHandle) {tail : Option Nat} {slot : Nat}
    (notTail : tail ≠ some slot) (hashv : UInt32) :
    nexts (linkInOrder handles tail slot hashv) = pushPrev (nexts handles) tail slot ∧
      prevs (linkInOrder handles tail slot hashv) = pushNext (prevs handles) tail slot := by
  constructor
  · funext other
    rw [nexts, linkInOrder_apply handles notTail, pushPrev]
    split
    · rfl
    · split <;> rfl
  · funext other
    rw [prevs, linkInOrder_apply handles notTail, pushNext]
    split
    · rfl
    · split <;> rfl

theorem linkInOrder_chains (handles : Nat → HashHandle) {tail : Option Nat} {slot : Nat}
    (notTail : tail ≠ some slot) (hashv : UInt32) :
    hhNexts (linkInOrder handles tail slot hashv) = hhNexts handles ∧
      hhPrevs (linkInOrder handles tail slot hashv) = hhPrevs handles := by
  constructor
  · funext other
    rw [hhNexts, linkInOrder_apply handles notTail]
    split
    · rename_i own
      exact own ▸ rfl
    · split <;> rfl
  · funext other
    rw [hhPrevs, linkInOrder_apply handles notTail]
    split
    · rename_i own
      exact own ▸ rfl
    · split <;> rfl

theorem linkInOrder_hashv (handles : Nat → HashHandle) {tail : Option Nat} {slot : Nat}
    (notTail : tail ≠ some slot) (hashv : UInt32) (other : Nat) :
    (linkInOrder handles tail slot hashv other).hashv =
      if other = slot then hashv else (handles other).hashv := by
  rw [linkInOrder_apply handles notTail]
  split
  · rfl
  · split <;> rfl

theorem unlinkInOrder_apply (handles : Nat → HashHandle) (slot other : Nat) :
    unlinkInOrder handles slot other =
      { handles other with
        next := unlinkNext (nexts handles) (prevs handles) slot other
        prev := unlinkNext (prevs handles) (nexts handles) slot other } := by
  simp only [unlinkInOrder, modifyHandle?_apply, unlinkNext, nexts, prevs]
  by_cases isPrev : (handles slot).prev = some other
  · by_cases isNext : (handles slot).next = some other
    · simp only [isPrev, isNext, ↓reduceIte]
    · simp only [isPrev, isNext, ↓reduceIte]
  · by_cases isNext : (handles slot).next = some other
    · simp only [isPrev, isNext, ↓reduceIte]
    · simp only [isPrev, isNext, ↓reduceIte]

theorem nexts_unlinkInOrder (handles : Nat → HashHandle) (slot : Nat) :
    nexts (unlinkInOrder handles slot) = unlinkNext (nexts handles) (prevs handles) slot := by
  funext other
  rw [nexts, unlinkInOrder_apply]

theorem prevs_unlinkInOrder (handles : Nat → HashHandle) (slot : Nat) :
    prevs (unlinkInOrder handles slot) = unlinkNext (prevs handles) (nexts handles) slot := by
  funext other
  rw [prevs, unlinkInOrder_apply]

/-- The chains of the buckets are left alone. -/
theorem Filed.unlinkInOrder {handles : Nat → HashHandle} {buckets : List HashBucket}
    {items : List Nat} {chains : Nat → List Nat} (filed : Filed handles buckets items chains)
    (slot : Nat) : Filed (unlinkInOrder handles slot) buckets items chains := by
  apply filed.transfer
  · funext other
    rw [hhNexts, unlinkInOrder_apply]
    rfl
  · funext other
    rw [hhPrevs, unlinkInOrder_apply]
    rfl
  · intro other _
    rw [unlinkInOrder_apply]

namespace ClientHash.Holds

variable {room : BucketRoom} {hash after : ClientHash} {contexts : List Nat} {slot : Nat}

theorem start : ClientHash.start.Holds [] :=
  ⟨List.nodup_nil, rfl, trivial, fun _ => rfl, fun nonempty => absurd rfl nonempty⟩

/-- The last steps of `HASH_ADD_KEYPTR`, for a table that is there. -/
private theorem addTo {table : HashTable} {head : Nat} {chains : Nat → List Nat}
    (nodup : contexts.Nodup)
    (links : Links (nexts hash.handles) (prevs hash.handles) none contexts none)
    (fresh : slot ∉ contexts) (sized : Sized table)
    (counted : table.numItems = contexts.length)
    (isHead : some head = (contexts ++ [slot]).head?)
    (filed : Filed hash.handles table.buckets contexts chains)
    (added : hashAddTo room slot contexts.getLast? head table hash = some after) :
    after.Holds (contexts ++ [slot]) ∧ hash.Spares after (slot :: contexts) := by
  obtain ⟨⟨result, handles⟩, inBkt, rfl⟩ := Option.map_eq_some_iff.mp added
  have notTail : contexts.getLast? ≠ some slot :=
    fun isLast => fresh (List.mem_of_getLast? isLast)
  obtain ⟨next, prev⟩ := linkInOrder_links hash.handles notTail
    (hashJen (pointerBytes (hash.itself slot)))
  obtain ⟨hhNext, hhPrev⟩ := linkInOrder_chains hash.handles notTail
    (hashJen (pointerBytes (hash.itself slot)))
  have hashv := linkInOrder_hashv hash.handles notTail
    (hashJen (pointerBytes (hash.itself slot)))
  have transferred := filed.transfer hhNext hhPrev fun other member => by
    have apart : other ≠ slot := fun same => fresh (same ▸ member)
    rw [hashv other, if_neg apart]
  obtain ⟨order, sized', numItems, tail, chains', filed'⟩ :=
    hashAddToBkt_filed inBkt transferred ⟨sized.length, sized.power⟩
      (congrArg (· + 1) counted) fresh (by rw [hashv slot, if_pos rfl])
  refine ⟨⟨?_, isHead, ?_, fun empty => absurd empty (by simp),
    fun _ => ⟨result, rfl, sized', ?_, ?_, chains', ?_⟩⟩, ?_⟩
  · refine List.nodup_append.mpr ⟨nodup, List.nodup_singleton slot, ?_⟩
    intro other member single inSingle same
    rw [List.mem_singleton] at inSingle
    exact fresh (inSingle ▸ same ▸ member)
  · apply order.links
    rw [next, prev]
    exact links.snoc nodup fresh
  · rw [numItems, List.length_append, List.length_singleton, ← counted]
  · rw [tail, List.getLast?_concat]
  · apply filed'.congr
    intro other
    rw [List.mem_cons, List.mem_append, List.mem_singleton, or_comm]
  · intro other outside
    rw [List.mem_cons, not_or] at outside
    have notLast : contexts.getLast? ≠ some other :=
      fun isLast => outside.2 (List.mem_of_getLast? isLast)
    constructor
    · refine (order other).1.trans ((congrFun next other).trans ?_)
      rw [pushPrev, if_neg outside.1, if_neg notLast]
    · refine (order other).2.1.trans ((congrFun prev other).trans ?_)
      rw [pushNext, if_neg outside.1]

/-- `HASH_ADD_PTR` for a slot that is not in the hash. -/
theorem add (holds : hash.Holds contexts) (fresh : slot ∉ contexts)
    (added : hashAddKeyptr room slot hash = some after) :
    after.Holds (contexts ++ [slot]) ∧ hash.Spares after (slot :: contexts) := by
  rcases List.eq_nil_or_concat contexts with rfl | ⟨front, tail, concat⟩
  · have isHead : hash.head = none := holds.head
    simp only [hashAddKeyptr, isHead] at added
    exact addTo holds.nodup holds.links fresh ⟨List.length_replicate, rfl⟩ rfl rfl
      (.empty _ _) added
  · rw [List.concat_eq_append] at concat
    have isLast : contexts.getLast? = some tail := by
      rw [concat, List.getLast?_concat]
    have nonempty : contexts ≠ [] := by
      rw [concat]
      simp
    obtain ⟨table, isTable, sized, numItems, isTail, chains, filed⟩ := holds.table nonempty
    rw [isLast] at isTail
    rcases isHead : hash.head with _ | head
    · have empty := holds.head
      rw [isHead] at empty
      exact absurd (List.head?_eq_none_iff.mp empty.symm) nonempty
    · simp only [hashAddKeyptr, isHead, isTable, isTail] at added
      have isFirst : some head = (contexts ++ [slot]).head? := by
        rw [List.head?_append, ← holds.head, isHead]
        rfl
      rw [← isLast] at added
      exact addTo holds.nodup holds.links fresh sized numItems isFirst filed added

/-- `HASH_DEL` for a slot that is in the hash.  It does not touch the pointer of the slot
to the one behind it. -/
theorem delete (holds : hash.Holds contexts) (member : slot ∈ contexts) :
    ∃ after, hashDelete slot hash = some after ∧ after.Holds (contexts.erase slot) ∧
      nexts after.handles slot = nexts hash.handles slot ∧ hash.Spares after contexts := by
  have nonempty := List.ne_nil_of_mem member
  obtain ⟨table, isTable, sized, numItems, isTail, chains, filed⟩ := holds.table nonempty
  obtain ⟨front, back, split⟩ := List.append_of_mem member
  have links := holds.links
  have nodup := holds.nodup
  rw [split] at links nodup
  obtain ⟨toPrev, toNext⟩ := links.around
  rw [Option.or_none] at toPrev toNext
  have notFront : slot ∉ front := by
    intro inFront
    rw [List.nodup_append] at nodup
    exact nodup.2.2 slot inFront slot List.mem_cons_self rfl
  have notBack : slot ∉ back := by
    intro inBack
    rw [List.nodup_append, List.nodup_cons] at nodup
    exact nodup.2.1.1 inBack
  have erased : contexts.erase slot = front ++ back := by
    rw [split, List.erase_append_right _ notFront, List.erase_cons_head]
  rcases isHead : hash.head with _ | head
  · have empty := holds.head
    rw [isHead] at empty
    exact absurd (List.head?_eq_none_iff.mp empty.symm) nonempty
  · by_cases alone : (hash.handles slot).prev = none ∧ (hash.handles slot).next = none
    · have noFront : front = [] := List.getLast?_eq_none_iff.mp (toPrev.symm.trans alone.1)
      have noBack : back = [] := List.head?_eq_none_iff.mp (toNext.symm.trans alone.2)
      refine ⟨{ hash with head := none, table := none }, ?_, ?_, rfl, fun _ _ => ⟨rfl, rfl⟩⟩
      · simp only [hashDelete, isHead, isTable, alone, and_self, ↓reduceIte]
      · rw [erased, noFront, noBack]
        exact ⟨List.nodup_nil, rfl, trivial, fun _ => rfl, fun some => absurd rfl some⟩
    · have place : (unlinkInOrder hash.handles slot slot).hashv = (hash.handles slot).hashv := by
        rw [unlinkInOrder_apply]
      have removed := Filed.remove
        { table with
          tail := if table.tail = some slot then (hash.handles slot).prev else table.tail }
        (filed.unlinkInOrder slot) holds.nodup member (hashToBkt_lt _ sized.positive)
      rw [place, sized.length, erased] at removed
      have order := hashDelInBkt_order (hashToBkt (hash.handles slot).hashv table.numBuckets) slot
        { table with
          tail := if table.tail = some slot then (hash.handles slot).prev else table.tail }
        (unlinkInOrder hash.handles slot)
      refine ⟨_, by rw [hashDelete, isHead, isTable]; exact if_neg alone, ?_, ?_, ?_⟩
      · rw [erased]
        refine ⟨erased ▸ holds.nodup.erase slot, ?_, ?_, fun empty => absurd ?_ alone,
          fun _ => ⟨_, rfl, ⟨List.length_set.trans sized.length, sized.power⟩, ?_, ?_, _,
            removed⟩⟩
        · show (if prevs hash.handles slot = none then nexts hash.handles slot else _) = _
          rw [toPrev, toNext, ← isHead, holds.head, split]
          cases front with
          | nil => rw [List.getLast?_nil, if_pos rfl, List.nil_append]
          | cons first front =>
              rw [if_neg (by simp), List.cons_append, List.cons_append, List.head?_cons,
                List.head?_cons]
        · apply order.links
          rw [nexts_unlinkInOrder, prevs_unlinkInOrder]
          exact links.unlink nodup
        · obtain ⟨noFront, noBack⟩ := List.append_eq_nil_iff.mp empty
          rw [noFront] at toPrev
          rw [noBack] at toNext
          exact ⟨toPrev, toNext⟩
        · show table.numItems - 1 = _
          rw [numItems, ← erased, List.length_erase_of_mem member]
        · show (if table.tail = some slot then prevs hash.handles slot else _) = _
          rw [isTail, split, toPrev, getLast?_erase notBack]
      · rw [nexts, (order slot).1, ← nexts, nexts_unlinkInOrder, unlinkNext, toPrev, if_neg]
        exact fun isLast => notFront (List.mem_of_getLast? isLast)
      · intro other outside
        rw [split, List.mem_append, List.mem_cons, not_or, not_or] at outside
        constructor
        · refine (order other).1.trans ((congrFun (nexts_unlinkInOrder _ _) other).trans ?_)
          rw [unlinkNext, toPrev, if_neg]
          exact fun isLast => outside.1 (List.mem_of_getLast? isLast)
        · refine (order other).2.1.trans ((congrFun (prevs_unlinkInOrder _ _) other).trans ?_)
          rw [unlinkNext, toNext, if_neg]
          exact fun isFirst => outside.2.2 (List.mem_of_mem_head? isFirst)

/-- `HASH_COUNT`. -/
theorem count (holds : hash.Holds contexts) : hashCount hash = contexts.length := by
  rcases isHead : hash.head with _ | head
  · have empty := holds.head
    rw [isHead] at empty
    rw [hashCount, isHead, List.head?_eq_none_iff.mp empty.symm]
    rfl
  · have nonempty : contexts ≠ [] := by
      rintro rfl
      rw [holds.head] at isHead
      cases isHead
    obtain ⟨table, isTable, tableHolds⟩ := holds.table nonempty
    rw [hashCount, isHead, isTable]
    exact tableHolds.numItems

/-- The loop over the clients, through the pointers of their handles. -/
theorem order (holds : hash.Holds contexts) :
    follow (nexts hash.handles) contexts.length hash.head = contexts := by
  rw [holds.head]
  exact holds.links.follow_eq (Nat.le_refl _)

end ClientHash.Holds

end MuMQ
