import MuMQ.Data.Int32
import MuMQ.Data.Shares
import Mathlib.Algebra.Group.Int.Defs
import Mathlib.Algebra.Group.Nat.Defs
import Mathlib.Logic.Function.Basic

namespace MuMQ

open Data

/-! The connections of the load generators: how `main` of `epsub.c` and of `eppub.c` deals
them out to the cores, and the ids that `CreateConnection` gives them. -/

/-- An `int` in an expression with a `uint64_t`. -/
def uint64OfInt (value : Int32) : UInt64 := .ofInt value.toInt

/-- A `uint64_t` that is stored in an `int`. -/
def intOfUint64 (value : UInt64) : Int32 := .ofInt value.toNat

/-- The loop over `concurs[]`, for the cores that are left. -/
def distribute (concurrency : Int32) : Nat → Int32 → List Int32
  | 0, _ => []
  | cores + 1, concurrencyRemainderCnt =>
      (if concurrencyRemainderCnt > 0 then concurrency + 1 else concurrency) ::
        distribute concurrency cores (concurrencyRemainderCnt - 1)

/-- The variables that `main` leaves to the threads. -/
structure Distribution where
  coreLimit : Int32
  concurrency : Int32
  concurs : List Int32

/-- `main` from the test of `total_concurrency` on, `coreLimit` being what `-N` or the number
of cores says. -/
def distribution (totalConcurrency : UInt64) (coreLimit : Int32) : Distribution :=
  let coreLimit :=
    if totalConcurrency < uint64OfInt coreLimit then intOfUint64 totalConcurrency
    else coreLimit
  let (concurrency, concurrencyRemainderCnt) :=
    if totalConcurrency > 0 then
      (intOfUint64 (totalConcurrency / uint64OfInt coreLimit),
        intOfUint64 (totalConcurrency % uint64OfInt coreLimit))
    else (1, 0)
  ⟨coreLimit, concurrency,
    distribute concurrency coreLimit.toInt.toNat concurrencyRemainderCnt⟩

/-- `concurs[core]`; behind the cores in use the array is zero. -/
def Distribution.concursAt (main : Distribution) (core : Int32) : Int32 :=
  main.concurs.getD core.toInt.toNat 0

/-- The id that `CreateConnection` computes for a thread. -/
def connectionId (main : Distribution) (core started : Int32) : Int32 :=
  let last := main.concursAt (main.coreLimit - 1)
  if started = main.concurrency ∧ main.concursAt core > last then main.coreLimit * last + core
  else core * main.concurrency + started

/-- A turn of the loop over `ctx->started` in the thread of a core. -/
@[ext] structure Connection (main : Distribution) where
  core : Int32
  started : Int32
  core_nonneg : 0 ≤ core
  core_lt : core < main.coreLimit
  started_nonneg : 0 ≤ started
  started_lt : started < main.concursAt core

def Connection.id {main : Distribution} (connection : Connection main) : Int32 :=
  connectionId main connection.core connection.started

/-- `sprintf("%d")`. -/
def decimal (value : Int32) : String := value.toInt.repr

/-- The topic of a connection, unique under `-u`. -/
def connectionTopic (isUnique : Bool) (topic : String) (id : Int32) : String :=
  if isUnique then topic ++ decimal id else topic

/-- The client id of a connection, with the name that `-c` says or else the tool's own. -/
def connectionClientId (name : String) (clientId : Option String) (id : Int32) : String :=
  clientId.getD name ++ "-" ++ decimal id

def epsubClientId : Option String → Int32 → String := connectionClientId "subscriber"

def eppubClientId : Option String → Int32 → String := connectionClientId "publisher"

/-! Values of an `int`. -/

section Int

variable {left right : Int32}

theorem toInt_intOfUint64 {value : UInt64} (small : value.toNat < 2 ^ 31) :
    (intOfUint64 value).toInt = value.toNat :=
  Int32.toInt_ofInt_of_le (by omega) (by omega)

theorem toNat_uint64OfInt {value : Int32} (nonneg : 0 ≤ value.toInt) :
    (uint64OfInt value).toNat = value.toInt.toNat := by
  have bounded := value.toInt_lt
  have small : value.toInt.toNat < 2 ^ 64 := by omega
  rw [uint64OfInt, UInt64.ofInt, Int.emod_eq_of_lt nonneg (by omega)]
  exact UInt64.toNat_ofNat_of_lt' small

theorem decimal_inj (leftNonneg : 0 ≤ left.toInt) (rightNonneg : 0 ≤ right.toInt)
    (same : decimal left = decimal right) : left = right := by
  obtain ⟨leftNat, leftEq⟩ := Int.eq_ofNat_of_zero_le leftNonneg
  obtain ⟨rightNat, rightEq⟩ := Int.eq_ofNat_of_zero_le rightNonneg
  rw [decimal, decimal, leftEq, rightEq] at same
  have digits : Nat.toDigits 10 leftNat = Nat.toDigits 10 rightNat := by
    rw [← Nat.toList_repr, ← Nat.toList_repr]
    exact congrArg String.toList same
  have numbers := congrArg (Nat.ofDigitChars 10 · 0) digits
  simp only [Nat.ofDigitChars_ten_toDigits] at numbers
  exact Int32.toInt.inj (by rw [leftEq, rightEq, numbers])

end Int

/-! What `main` leaves in `concurs[]`. -/

/-- The remainder is dealt out to the first cores. -/
theorem getD_distribute (concurrency : Int32) :
    ∀ (cores : Nat) (concurrencyRemainderCnt : Int32) (core : Nat), core < cores →
      -2 ^ 31 ≤ concurrencyRemainderCnt.toInt - cores →
      (distribute concurrency cores concurrencyRemainderCnt).getD core 0 =
        if core < concurrencyRemainderCnt.toInt then concurrency + 1 else concurrency
  | 0, _, _, within, _ => absurd within (Nat.not_lt_zero _)
  | cores + 1, concurrencyRemainderCnt, 0, _, _ => by
      have test : concurrencyRemainderCnt > 0 ↔ ((0 : Nat) : Int) < concurrencyRemainderCnt.toInt :=
        Int32.lt_iff_toInt_lt
      rw [distribute, List.getD_cons_zero]
      simp only [test]
  | cores + 1, concurrencyRemainderCnt, core + 1, within, reach => by
      have less : (concurrencyRemainderCnt - 1).toInt = concurrencyRemainderCnt.toInt - 1 :=
        toInt_sub_one (by omega)
      rw [distribute, List.getD_cons_succ,
        getD_distribute concurrency cores (concurrencyRemainderCnt - 1) core (by omega)
          (by omega), less]
      exact if_congr (by omega) rfl rfl

section Distribution

variable {totalConcurrency : UInt64} {coreLimit : Int32}

/-- The cores in use. -/
def coresUsed (totalConcurrency : UInt64) (coreLimit : Int32) : Nat :=
  min totalConcurrency.toNat coreLimit.toInt.toNat

theorem coresUsed_pos (some : 0 < totalConcurrency) (cores : 0 < coreLimit) :
    0 < coresUsed totalConcurrency coreLimit := by
  have positive := toInt_pos cores
  have given : 0 < totalConcurrency.toNat := UInt64.lt_iff_toNat_lt.mp some
  unfold coresUsed
  omega

theorem distribution_eq (some : 0 < totalConcurrency) (int : totalConcurrency.toNat < 2 ^ 31)
    (cores : 0 < coreLimit) :
    ∃ limit concurrency concurrencyRemainderCnt : Int32,
      distribution totalConcurrency coreLimit =
        ⟨limit, concurrency,
          distribute concurrency limit.toInt.toNat concurrencyRemainderCnt⟩ ∧
      limit.toInt = coresUsed totalConcurrency coreLimit ∧
      concurrency.toInt =
        (totalConcurrency.toNat / coresUsed totalConcurrency coreLimit : Nat) ∧
      concurrencyRemainderCnt.toInt =
        (totalConcurrency.toNat % coresUsed totalConcurrency coreLimit : Nat) := by
  have positive := toInt_pos cores
  have wide : (uint64OfInt coreLimit).toNat = coreLimit.toInt.toNat :=
    toNat_uint64OfInt (Int.le_of_lt positive)
  have reduced : (if totalConcurrency < uint64OfInt coreLimit then intOfUint64 totalConcurrency
      else coreLimit).toInt = coresUsed totalConcurrency coreLimit := by
    unfold coresUsed
    split
    · rename_i less
      rw [UInt64.lt_iff_toNat_lt, wide] at less
      rw [toInt_intOfUint64 int]
      omega
    · rename_i enough
      rw [UInt64.lt_iff_toNat_lt, wide] at enough
      omega
  generalize limitEq : (if totalConcurrency < uint64OfInt coreLimit then
    intOfUint64 totalConcurrency else coreLimit) = limit at reduced
  have divisor : (uint64OfInt limit).toNat = coresUsed totalConcurrency coreLimit := by
    rw [toNat_uint64OfInt (by omega), reduced, Int.toNat_natCast]
  have quotient := UInt64.toNat_div totalConcurrency (uint64OfInt limit)
  have remainder := UInt64.toNat_mod totalConcurrency (uint64OfInt limit)
  rw [divisor] at quotient remainder
  have quotientLe := Nat.div_le_self totalConcurrency.toNat
    (coresUsed totalConcurrency coreLimit)
  have remainderLe := Nat.mod_le totalConcurrency.toNat (coresUsed totalConcurrency coreLimit)
  refine ⟨limit, intOfUint64 (totalConcurrency / uint64OfInt limit),
    intOfUint64 (totalConcurrency % uint64OfInt limit), ?_, reduced, ?_, ?_⟩
  · simp only [distribution, limitEq, if_pos some, gt_iff_lt]
  · rw [toInt_intOfUint64 (by omega), quotient]
  · rw [toInt_intOfUint64 (by omega), remainder]

/-- What `main` leaves to the threads, in numbers. -/
structure Distribution.Dealt (main : Distribution) (total cores : Nat) : Prop where
  some : 0 < cores
  coreLimit : main.coreLimit.toInt = cores
  concurrency : main.concurrency.toInt = (total / cores : Nat)
  concursAt (core : Int32) (part : Nat) : part < cores → core.toInt = part →
    (main.concursAt core).toInt = (Shares.share total cores part : Nat)

theorem distribution_dealt (some : 0 < totalConcurrency)
    (int : totalConcurrency.toNat < 2 ^ 31) (cores : 0 < coreLimit) :
    (distribution totalConcurrency coreLimit).Dealt totalConcurrency.toNat
      (coresUsed totalConcurrency coreLimit) := by
  obtain ⟨limit, concurrency, concurrencyRemainderCnt, main, limitEq, quotient, remainder⟩ :=
    distribution_eq some int cores
  have used := coresUsed_pos some cores
  have bounded := limit.toInt_lt
  rw [main]
  refine ⟨used, limitEq, quotient, fun core part within partEq => ?_⟩
  have rest := Nat.mod_lt totalConcurrency.toNat used
  have most := Shares.share_le totalConcurrency.toNat within
  have nonneg : 0 ≤ concurrency.toInt := quotient ▸ Int.natCast_nonneg _
  rw [Distribution.concursAt, limitEq, partEq, Int.toNat_natCast, Int.toNat_natCast,
    getD_distribute concurrency _ _ _ within (by omega), remainder]
  unfold Shares.share at most ⊢
  by_cases first : part < totalConcurrency.toNat % coresUsed totalConcurrency coreLimit
  · rw [if_pos first] at most
    rw [if_pos (by omega), if_pos first, toInt_add_one (by omega), quotient]
    rfl
  · rw [if_neg (by omega), if_neg first, quotient]
    rfl

/-! The ids, over all turns of all cores. -/

section Ids

variable {main : Distribution} {total cores : Nat} (dealt : main.Dealt total cores)
  (int : total < 2 ^ 31)

include dealt int

/-- The id is the number of the connection among all that are dealt out. -/
theorem toInt_connectionId {core started : Int32} {part position : Nat}
    (within : part < cores) (coreEq : core.toInt = part)
    (inside : position < Shares.share total cores part) (startedEq : started.toInt = position) :
    (connectionId main core started).toInt = (Shares.number total cores part position : Nat) := by
  have split := Nat.div_add_mod total cores
  have rest := Nat.mod_lt total dealt.some
  have limit := dealt.coreLimit
  have lastCore : (main.coreLimit - 1).toInt = (cores - 1 : Nat) := by
    rw [toInt_sub_one (by omega), limit]
    omega
  have last : (main.concursAt (main.coreLimit - 1)).toInt = (total / cores : Nat) := by
    rw [dealt.concursAt _ (cores - 1) (by omega) lastCore, Shares.share, if_neg (by omega),
      Nat.add_zero]
  have number := Shares.number_lt within inside
  unfold connectionId
  unfold Shares.number at number ⊢
  by_cases equal : position < total / cores
  · have other : started ≠ main.concurrency := by
      intro same
      have := congrArg Int32.toInt same
      rw [startedEq, dealt.concurrency] at this
      omega
    rw [if_pos equal] at number ⊢
    rw [if_neg (fun test => other test.1)]
    have product : (core * main.concurrency).toInt = (part * (total / cores) : Nat) := by
      rw [toInt_mul_of_lt] <;> rw [coreEq, dealt.concurrency] <;> norm_cast <;> omega
    rw [toInt_add_of_lt] <;> rw [product, startedEq] <;> norm_cast <;> omega
  · obtain ⟨positionEq, left⟩ := Shares.leftOver inside equal
    have surplus : main.concursAt core > main.concursAt (main.coreLimit - 1) := by
      rw [gt_iff_lt, Int32.lt_iff_toInt_lt, last, dealt.concursAt core part within coreEq,
        Shares.share, if_pos left]
      omega
    have same : started = main.concurrency :=
      Int32.toInt.inj (by rw [startedEq, dealt.concurrency, positionEq])
    rw [if_neg equal] at number ⊢
    rw [if_pos ⟨same, surplus⟩]
    have product : (main.coreLimit * main.concursAt (main.coreLimit - 1)).toInt =
        (cores * (total / cores) : Nat) := by
      rw [toInt_mul_of_lt] <;> rw [limit, last] <;> norm_cast <;> omega
    rw [toInt_add_of_lt] <;> rw [product, coreEq] <;> norm_cast <;> omega

omit int in
theorem Connection.exists_place (connection : Connection main) :
    ∃ part < cores, ∃ position < Shares.share total cores part,
      connection.core.toInt = part ∧ connection.started.toInt = position := by
  have limit := dealt.coreLimit
  have coreNonneg := Int32.le_iff_toInt_le.mp connection.core_nonneg
  have coreLt := Int32.lt_iff_toInt_lt.mp connection.core_lt
  have startedNonneg := Int32.le_iff_toInt_le.mp connection.started_nonneg
  have startedLt := Int32.lt_iff_toInt_lt.mp connection.started_lt
  obtain ⟨part, partEq⟩ := Int.eq_ofNat_of_zero_le coreNonneg
  obtain ⟨position, positionEq⟩ := Int.eq_ofNat_of_zero_le startedNonneg
  have within : part < cores := by omega
  rw [dealt.concursAt connection.core part within partEq, positionEq] at startedLt
  exact ⟨part, within, position, Int.ofNat_lt.mp startedLt, partEq, positionEq⟩

theorem Connection.id_injective : Function.Injective (@Connection.id main) := by
  intro connection other same
  obtain ⟨part, within, position, inside, partEq, positionEq⟩ :=
    connection.exists_place dealt
  obtain ⟨otherPart, otherWithin, otherPosition, otherInside, otherPartEq, otherPositionEq⟩ :=
    other.exists_place dealt
  have numbers := congrArg Int32.toInt same
  rw [Connection.id, toInt_connectionId dealt int within partEq inside positionEq,
    Connection.id, toInt_connectionId dealt int otherWithin otherPartEq otherInside
      otherPositionEq] at numbers
  obtain ⟨parts, positions⟩ :=
    Shares.number_inj within inside otherWithin otherInside (Int.ofNat.inj numbers)
  refine Connection.ext (Int32.toInt.inj ?_) (Int32.toInt.inj ?_)
  · rw [partEq, otherPartEq, parts]
  · rw [positionEq, otherPositionEq, positions]

theorem Connection.id_mem (connection : Connection main) :
    0 ≤ connection.id.toInt ∧ connection.id.toInt < total := by
  obtain ⟨part, within, position, inside, partEq, positionEq⟩ := connection.exists_place dealt
  rw [Connection.id, toInt_connectionId dealt int within partEq inside positionEq]
  exact ⟨Int.natCast_nonneg _, Int.ofNat_lt.mpr (Shares.number_lt within inside)⟩

theorem Connection.exists_id {id : Int} (nonneg : 0 ≤ id) (lt : id < total) :
    ∃ connection : Connection main, connection.id.toInt = id := by
  obtain ⟨index, indexEq⟩ := Int.eq_ofNat_of_zero_le nonneg
  have indexLt : index < total := by omega
  obtain ⟨part, within, position, inside, number⟩ := Shares.exists_number dealt.some indexLt
  have limit := dealt.coreLimit
  have bounded := main.coreLimit.toInt_lt
  have most := Shares.share_le total within
  obtain ⟨core, coreEq⟩ := exists_toInt part (by omega)
  obtain ⟨started, startedEq⟩ := exists_toInt position (by omega)
  have startedLt : started < main.concursAt core := by
    rw [Int32.lt_iff_toInt_lt, startedEq, dealt.concursAt core part within coreEq]
    exact Int.ofNat_lt.mpr inside
  refine ⟨⟨core, started, ?_, ?_, ?_, startedLt⟩, ?_⟩
  · rw [Int32.le_iff_toInt_le, coreEq]
    exact Int.natCast_nonneg part
  · rw [Int32.lt_iff_toInt_lt, coreEq, limit]
    exact Int.ofNat_lt.mpr within
  · rw [Int32.le_iff_toInt_le, startedEq]
    exact Int.natCast_nonneg position
  · rw [Connection.id, toInt_connectionId dealt int within coreEq inside startedEq, number,
      indexEq]

end Ids

end Distribution

/-- The ids of a run: each of `0` to `total - 1` is that of one connection. -/
structure Distribution.Partition (main : Distribution) (total : Nat) : Prop where
  different : Function.Injective (@Connection.id main)
  exact : ∀ id : Int,
    (∃ connection : Connection main, connection.id.toInt = id) ↔ 0 ≤ id ∧ id < total

/-- The connections of a run of `epsub` and those of a run of `eppub` pair up: the topics
under `-u` and the client ids are those of one pair only. -/
def Distribution.PairUp (epsub eppub : Distribution) : Prop :=
  ∃ pair : Connection epsub → Connection eppub, Function.Bijective pair ∧
    ∀ (subscriber : Connection epsub) (publisher : Connection eppub),
      (∀ topic, connectionTopic true topic subscriber.id =
        connectionTopic true topic publisher.id ↔ pair subscriber = publisher) ∧
      (∀ name, epsubClientId (some name) subscriber.id =
        eppubClientId (some name) publisher.id ↔ pair subscriber = publisher) ∧
      ((∃ number, epsubClientId none subscriber.id = "subscriber-" ++ number ∧
        eppubClientId none publisher.id = "publisher-" ++ number) ↔
          pair subscriber = publisher)

namespace Distribution.Partition

variable {main epsub eppub : Distribution} {total : Nat}

theorem nonneg (partition : main.Partition total) (connection : Connection main) :
    0 ≤ connection.id.toInt :=
  ((partition.exact _).mp ⟨connection, rfl⟩).1

theorem exists_same (left : epsub.Partition total) (right : eppub.Partition total)
    (subscriber : Connection epsub) :
    ∃ publisher : Connection eppub, publisher.id = subscriber.id := by
  obtain ⟨publisher, same⟩ := (right.exact _).mpr ((left.exact _).mp ⟨subscriber, rfl⟩)
  exact ⟨publisher, Int32.toInt.inj same⟩

theorem pairUp (left : epsub.Partition total) (right : eppub.Partition total) :
    epsub.PairUp eppub := by
  obtain ⟨pair, pair_id⟩ := Classical.axiomOfChoice (left.exists_same right)
  refine ⟨pair, ⟨fun subscriber other same => ?_, fun publisher => ?_⟩,
    fun subscriber publisher => ?_⟩
  · apply left.different
    rw [← pair_id subscriber, ← pair_id other, same]
  · obtain ⟨subscriber, same⟩ := right.exists_same left publisher
    refine ⟨subscriber, right.different ?_⟩
    rw [pair_id, same]
  have paired : subscriber.id = publisher.id ↔ pair subscriber = publisher := by
    rw [← pair_id]
    exact right.different.eq_iff
  have texts : decimal subscriber.id = decimal publisher.id ↔ pair subscriber = publisher :=
    ⟨fun same => paired.mp
      (decimal_inj (left.nonneg subscriber) (right.nonneg publisher) same),
      fun same => congrArg decimal (paired.mpr same)⟩
  refine ⟨fun topic => ?_, fun name => ?_, ?_⟩
  · rw [← texts]
    exact String.append_right_inj topic
  · rw [← texts]
    exact String.append_right_inj (name ++ "-")
  · rw [← texts]
    constructor
    · rintro ⟨number, subscriberEq, publisherEq⟩
      rw [(String.append_right_inj "subscriber-").mp subscriberEq,
        (String.append_right_inj "publisher-").mp publisherEq]
    · intro same
      exact ⟨decimal publisher.id, congrArg ("subscriber-" ++ ·) same, rfl⟩

end Distribution.Partition

theorem distribution_partition {totalConcurrency : UInt64} {coreLimit : Int32}
    (some : 0 < totalConcurrency) (int : totalConcurrency.toNat < 2 ^ 31)
    (cores : 0 < coreLimit) :
    (distribution totalConcurrency coreLimit).Partition totalConcurrency.toNat where
  different := Connection.id_injective (distribution_dealt some int cores) int
  exact id := by
    have dealt := distribution_dealt some int cores
    constructor
    · rintro ⟨connection, rfl⟩
      exact connection.id_mem dealt int
    · rintro ⟨nonneg, lt⟩
      exact Connection.exists_id dealt int nonneg lt

end MuMQ
