import Mathlib.Logic.Function.Basic

namespace MuMQ

/-! The hash table of `uthash.h`, as the event loop uses it: the table of the clients of
one loop, with the pointer `itself` as the key. -/

/-- `UT_hash_handle` of the client in a slot.  A pointer to a handle or to its client is the
slot, `key` points to `itself` of the same client, and `keylen` is the size of a pointer. -/
structure HashHandle where
  prev : Option Nat
  next : Option Nat
  hhPrev : Option Nat
  hhNext : Option Nat
  hashv : UInt32
  deriving DecidableEq

/-- `UT_hash_bucket`. -/
structure HashBucket where
  hhHead : Option Nat
  count : Nat
  expandMult : Nat
  deriving DecidableEq

/-- `UT_hash_table`.  Its counters count slots, of which there are far fewer than an
`unsigned` can hold. -/
structure HashTable where
  buckets : List HashBucket
  numBuckets : Nat
  log2NumBuckets : Nat
  numItems : Nat
  tail : Option Nat
  idealChainMaxlen : Nat
  nonidealItems : Nat
  ineffExpands : Nat
  noexpand : Bool
  deriving DecidableEq

/-- `contexts_by_ptr`, its table, the handles in all slots and their keys. -/
structure ClientHash where
  head : Option Nat
  table : Option HashTable
  handles : Nat → HashHandle
  itself : Nat → UInt64

/-- How many buckets there can be memory for: the block of 2^32 buckets, whose number is no
`unsigned`, takes 64 GiB. -/
structure BucketRoom where
  most : Nat
  bounded : most ≤ 2147483648

namespace HashHandle

def zero : HashHandle := ⟨none, none, none, none, 0⟩

end HashHandle

namespace HashBucket

def zero : HashBucket := ⟨none, 0, 0⟩

end HashBucket

/-- `HASH_INITIAL_NUM_BUCKETS`. -/
def hashInitialNumBuckets : Nat := 32

/-- `HASH_INITIAL_NUM_BUCKETS_LOG2`. -/
def hashInitialNumBucketsLog2 : Nat := 5

/-- `HASH_BKT_CAPACITY_THRESH`. -/
def hashBktCapacityThresh : Nat := 10

/-- The zeroed clients of a loop that has none yet. -/
def ClientHash.start : ClientHash := ⟨none, none, fun _ => .zero, fun _ => 0⟩

/-! The hash function. -/

/-- `HASH_JEN_MIX`. -/
def hashJenMix (a b c : UInt32) : UInt32 × UInt32 × UInt32 :=
  let a := (a - b - c) ^^^ (c >>> 13)
  let b := (b - c - a) ^^^ (a <<< 8)
  let c := (c - a - b) ^^^ (b >>> 13)
  let a := (a - b - c) ^^^ (c >>> 12)
  let b := (b - c - a) ^^^ (a <<< 16)
  let c := (c - a - b) ^^^ (b >>> 5)
  let a := (a - b - c) ^^^ (c >>> 3)
  let b := (b - c - a) ^^^ (a <<< 10)
  let c := (c - a - b) ^^^ (b >>> 15)
  (a, b, c)

/-- `key[0] + (key[1] << 8) + ...` for up to four bytes. -/
def hashWord (key : List UInt8) : UInt32 :=
  key.foldr (fun byte rest => byte.toUInt32 + (rest <<< 8)) 0

/-- The loop of `HASH_JEN` over blocks of twelve bytes and the rest behind them. -/
def hashJenLoop (keylen : UInt32) (i j hashv : UInt32) : List UInt8 → UInt32
  | k0 :: k1 :: k2 :: k3 :: k4 :: k5 :: k6 :: k7 :: k8 :: k9 :: k10 :: k11 :: rest =>
      let (i, j, hashv) :=
        hashJenMix (i + hashWord [k0, k1, k2, k3]) (j + hashWord [k4, k5, k6, k7])
          (hashv + hashWord [k8, k9, k10, k11])
      hashJenLoop keylen i j hashv rest
  | rest =>
      -- the lowest byte of the last word is left to the length
      let hashv := hashv + keylen + hashWord (0 :: rest.drop 8)
      (hashJenMix (i + hashWord (rest.take 4)) (j + hashWord ((rest.drop 4).take 4))
        hashv).2.2

/-- `HASH_JEN`, the default of `HASH_FCN`. -/
def hashJen (key : List UInt8) : UInt32 :=
  hashJenLoop (UInt32.ofNat key.length) 0x9e3779b9 0x9e3779b9 0xfeedbeef key

/-- The bytes of a pointer. -/
def pointerBytes (pointer : UInt64) : List UInt8 :=
  (List.range 8).map fun i => (pointer >>> UInt64.ofNat (8 * i)).toUInt8

/-- `HASH_TO_BKT`, for the number of the bucket. -/
def hashToBkt (hashv : UInt32) (numBkts : Nat) : Nat := hashv.toNat &&& (numBkts - 1)

/-! Buckets. -/

/-- The handles with a change in one slot. -/
def modifyHandle (handles : Nat → HashHandle) (slot : Nat) (change : HashHandle → HashHandle) :
    Nat → HashHandle :=
  Function.update handles slot (change (handles slot))

/-- The same through a pointer that may be `NULL`. -/
def modifyHandle? (handles : Nat → HashHandle) (pointer : Option Nat)
    (change : HashHandle → HashHandle) : Nat → HashHandle :=
  match pointer with
  | some slot => modifyHandle handles slot change
  | none => handles

/-- A handle is put in front of a bucket's chain. -/
def linkInBkt (handles : Nat → HashHandle) (hhHead : Option Nat) (slot : Nat) :
    Nat → HashHandle :=
  let handles :=
    modifyHandle handles slot fun handle => { handle with hhNext := hhHead, hhPrev := none }
  modifyHandle? handles hhHead fun handle => { handle with hhPrev := some slot }

/-- What `HASH_EXPAND_BUCKETS` works on. -/
structure Expansion where
  handles : Nat → HashHandle
  newBuckets : List HashBucket
  nonidealItems : Nat

/-- The body of the loop over a chain: one handle goes into its new bucket. -/
def Expansion.move (numBkts ideal : Nat) (slot : Nat) (expansion : Expansion) : Expansion :=
  let bkt := hashToBkt (expansion.handles slot).hashv numBkts
  let bucket := expansion.newBuckets.getD bkt .zero
  let count := bucket.count + 1
  { handles := linkInBkt expansion.handles bucket.hhHead slot
    newBuckets :=
      expansion.newBuckets.set bkt
        { hhHead := some slot
          count := count
          expandMult := if count > ideal then count / ideal else bucket.expandMult }
    nonidealItems := expansion.nonidealItems + if count > ideal then 1 else 0 }

/-- `while (_he_thh != NULL)`. -/
def Expansion.moveChain (numBkts ideal : Nat) :
    Nat → Option Nat → Expansion → Expansion
  | 0, _, expansion => expansion
  | _ + 1, none, expansion => expansion
  | turns + 1, some slot, expansion =>
      -- the next handle is read before this one is moved
      let next := (expansion.handles slot).hhNext
      Expansion.moveChain numBkts ideal turns next (expansion.move numBkts ideal slot)

/-- The loop over the old buckets, none of which holds more than `turns` handles. -/
def Expansion.moveAll (numBkts ideal turns : Nat) (buckets : List HashBucket)
    (expansion : Expansion) : Expansion :=
  buckets.foldl
    (fun expansion bucket =>
      Expansion.moveChain numBkts ideal turns bucket.hhHead expansion)
    expansion

/-- `HASH_EXPAND_BUCKETS`, `none` when it ends the process for lack of memory. -/
def hashExpandBuckets (room : BucketRoom) (table : HashTable) (handles : Nat → HashHandle) :
    Option (HashTable × (Nat → HashHandle)) :=
  let numBkts := 2 * table.numBuckets
  if numBkts ≤ room.most then
    let ideal :=
      (table.numItems >>> (table.log2NumBuckets + 1)) +
        if table.numItems &&& (numBkts - 1) ≠ 0 then 1 else 0
    let expansion :=
      Expansion.moveAll numBkts ideal table.numItems table.buckets
        ⟨handles, List.replicate numBkts .zero, 0⟩
    let ineffExpands :=
      if expansion.nonidealItems > table.numItems >>> 1 then table.ineffExpands + 1 else 0
    some
      ({ table with
          buckets := expansion.newBuckets
          numBuckets := numBkts
          log2NumBuckets := table.log2NumBuckets + 1
          idealChainMaxlen := ideal
          nonidealItems := expansion.nonidealItems
          ineffExpands := ineffExpands
          noexpand := table.noexpand || decide (ineffExpands > 1) },
        expansion.handles)
  else none

/-- `HASH_ADD_TO_BKT`. -/
def hashAddToBkt (room : BucketRoom) (bkt slot : Nat) (table : HashTable)
    (handles : Nat → HashHandle) : Option (HashTable × (Nat → HashHandle)) :=
  let bucket := table.buckets.getD bkt .zero
  let count := bucket.count + 1
  let handles := linkInBkt handles bucket.hhHead slot
  let table :=
    { table with
      buckets := table.buckets.set bkt { bucket with hhHead := some slot, count := count } }
  if count ≥ (bucket.expandMult + 1) * hashBktCapacityThresh ∧ table.noexpand = false then
    hashExpandBuckets room table handles
  else some (table, handles)

/-- `HASH_DEL_IN_BKT`. -/
def hashDelInBkt (bkt slot : Nat) (table : HashTable) (handles : Nat → HashHandle) :
    HashTable × (Nat → HashHandle) :=
  let bucket := table.buckets.getD bkt .zero
  let deleted := handles slot
  let hhHead := if bucket.hhHead = some slot then deleted.hhNext else bucket.hhHead
  let handles :=
    modifyHandle? handles deleted.hhPrev fun handle => { handle with hhNext := deleted.hhNext }
  let handles :=
    modifyHandle? handles deleted.hhNext fun handle => { handle with hhPrev := deleted.hhPrev }
  ({ table with
      buckets :=
        table.buckets.set bkt { bucket with hhHead := hhHead, count := bucket.count - 1 } },
    handles)

/-! The table. -/

/-- `HASH_MAKE_TABLE`. -/
def hashMakeTable (slot : Nat) : HashTable where
  buckets := List.replicate hashInitialNumBuckets .zero
  numBuckets := hashInitialNumBuckets
  log2NumBuckets := hashInitialNumBucketsLog2
  numItems := 0
  tail := some slot
  idealChainMaxlen := 0
  nonidealItems := 0
  ineffExpands := 0
  noexpand := false

/-- The handle of a slot is put behind that of `tail`, with the hash value of its key. -/
def linkInOrder (handles : Nat → HashHandle) (tail : Option Nat) (slot : Nat) (hashv : UInt32) :
    Nat → HashHandle :=
  let handles := modifyHandle? handles tail fun handle => { handle with next := some slot }
  modifyHandle handles slot fun handle =>
    { handle with next := none, prev := tail, hashv := hashv }

/-- The neighbours of a slot in the order of addition are made neighbours.  Its own handle
stays as it is. -/
def unlinkInOrder (handles : Nat → HashHandle) (slot : Nat) : Nat → HashHandle :=
  let deleted := handles slot
  let handles :=
    modifyHandle? handles deleted.prev fun handle => { handle with next := deleted.next }
  modifyHandle? handles deleted.next fun handle => { handle with prev := deleted.prev }

/-- `HASH_ADD_KEYPTR` from `num_items++` on, with the handle to stand behind that of
`tail`. -/
def hashAddTo (room : BucketRoom) (slot : Nat) (tail : Option Nat) (head : Nat)
    (table : HashTable) (hash : ClientHash) : Option ClientHash :=
  let hashv := hashJen (pointerBytes (hash.itself slot))
  let table := { table with numItems := table.numItems + 1, tail := some slot }
  (hashAddToBkt room (hashToBkt hashv table.numBuckets) slot table
    (linkInOrder hash.handles tail slot hashv)).map
    fun result => { hash with head := some head, table := some result.1, handles := result.2 }

/-- `HASH_ADD_KEYPTR`, which `HASH_ADD_PTR` comes to, `none` when it ends the process. -/
def hashAddKeyptr (room : BucketRoom) (slot : Nat) (hash : ClientHash) : Option ClientHash :=
  match hash.head, hash.table with
  | none, _ => hashAddTo room slot none slot (hashMakeTable slot) hash
  | some head, some table =>
      match table.tail with
      | some tail => hashAddTo room slot (some tail) head table hash
      | none => none
  | some _, none => none

/-- `HASH_DELETE`, which `HASH_DEL` comes to, `none` when it reads through `NULL`. -/
def hashDelete (slot : Nat) (hash : ClientHash) : Option ClientHash :=
  match hash.head, hash.table with
  | some head, some table =>
      let deleted := hash.handles slot
      if deleted.prev = none ∧ deleted.next = none then
        some { hash with head := none, table := none }
      else
        let tail := if table.tail = some slot then deleted.prev else table.tail
        let head := if deleted.prev = none then deleted.next else some head
        let result :=
          hashDelInBkt (hashToBkt deleted.hashv table.numBuckets) slot
            { table with tail := tail } (unlinkInOrder hash.handles slot)
        some
          { hash with
            head := head
            table := some { result.1 with numItems := result.1.numItems - 1 }
            handles := result.2 }
  | _, _ => none

/-- `HASH_COUNT`. -/
def hashCount (hash : ClientHash) : Nat :=
  match hash.head, hash.table with
  | some _, some table => table.numItems
  | _, _ => 0

/-- What is done to the table: a client is added or deleted, or gets its pointer to itself
from `add_client`, which is the key it may have been added under. -/
inductive HashEvent where
  | add (slot : Nat)
  | delete (slot : Nat)
  | setItself (slot : Nat) (pointer : UInt64)
  deriving DecidableEq

def hashStep (room : BucketRoom) : HashEvent → ClientHash → Option ClientHash
  | .add slot, hash => hashAddKeyptr room slot hash
  | .delete slot, hash => hashDelete slot hash
  | .setItself slot pointer, hash =>
      some { hash with itself := Function.update hash.itself slot pointer }

end MuMQ
