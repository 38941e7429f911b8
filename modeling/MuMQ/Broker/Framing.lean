import MuMQ.Broker.EventIo
import MuMQ.Mqtt.Wire

namespace MuMQ

open Data

/-! The state `loop_read` keeps between two calls, and what one call does with it. -/

/-- The control byte at the front of a stream has a type. -/
def TypedFront (stream : List UInt8) : Prop :=
  ∀ control ∈ stream.head?, control >>> 4 ≠ 0

/-- Hand a packet to the parser and the handler; only code 0 keeps the connection
open. -/
def handleFrame {World : Type}
    (process : World → Message → Option (List UInt8) → PacketOutcome × World)
    (world : World) (frame : WireFrame) : Bool × World :=
  match process world frame.message frame.inPayload with
  | (.handled _ rc, world) => (decide (rc = 0), world)
  | (.unparsed _, world) => (false, world)

/-! The state of the reader in the middle of a packet. -/

/-- The message with a control byte and the low digits of the length. -/
def begunMessage (control : UInt8) (length : Nat) : Message :=
  { mqttParserCommand .zero control with length := UInt32.ofNat length }

/-- `remaining_count` after some bytes of the remaining length. -/
def countAfter (digits : Nat) : Int8 := -Int8.ofNat digits

/-- Between two packets. -/
structure AtRest (reader : Reader) : Prop where
  packet : reader.packet = .zero
  count : reader.remainingCount = 0
  payload : reader.inPayload = none
  toProcess : reader.inToProcess = 0
  cur : reader.inCur = 0

/-- After the control byte and some bytes of the remaining length. -/
structure InLength (control : UInt8) (digits : List UInt8) (reader : Reader) :
    Prop where
  continued : Base128.Continued digits
  fits : digits.length ≤ 4
  packet : reader.inPacket = some (begunMessage control (Base128.value digits))
  count : reader.remainingCount = countAfter digits.length
  mult : reader.remainingMult = UInt32.ofNat (128 ^ digits.length)
  payload : reader.inPayload = none
  toProcess : reader.inToProcess = 0
  cur : reader.inCur = 0

/-- After the remaining length and some bytes of the payload. -/
structure InPayload (control : UInt8) (bytes : List UInt8) (length : Nat)
    (received : List UInt8) (reader : Reader) : Prop where
  lengthBytes : LengthBytes bytes length
  packet : reader.inPacket = some (begunMessage control length)
  count : ¬ reader.remainingCount ≤ 0
  bounded : received.length ≤ length
  payload : if length = 0 then reader.inPayload = none
    else ∃ block, reader.inPayload = some block ∧ block.length = length ∧
      block.take received.length = received
  toProcess : reader.inToProcess = UInt32.ofNat (length - received.length)
  cur : reader.inCur = UInt32.ofNat received.length

/-- The reader has received `part` of an unfinished packet. -/
inductive Midway (reader : Reader) : List UInt8 → Prop
  | rest (atRest : AtRest reader) : Midway reader []
  | length {control : UInt8} (inLength : InLength control digits reader) :
      Midway reader (control :: digits)
  | payload {control : UInt8}
      (inPayload : InPayload control bytes length received reader)
      (short : received.length < length) :
      Midway reader (control :: (bytes ++ received))

theorem Midway.incomplete {reader : Reader} {part : List UInt8}
    (midway : Midway reader part) : nextFrame part = .incomplete := by
  cases midway with
  | rest atRest => rfl
  | length inLength => exact nextFrame_length inLength.continued inLength.fits
  | payload inPayload short => exact nextFrame_short inPayload.lengthBytes short

theorem type_mqttParserCommand (message : Message) (control : UInt8) :
    (mqttParserCommand message control).type = control >>> 4 := by
  have masked : ∀ byte : UInt8, (byte >>> 4) &&& (0x0f : UInt8) = byte >>> 4 :=
    forall_byte (by decide +kernel)
  exact masked control


/-! What the parts of one call do. -/

/-- The answers leave the connection alone: bytes, or none for now. -/
def Undisturbed (answers : List RecvAnswer) : Prop :=
  ∀ answer ∈ answers, answer = .again ∨ ∃ count, answer = .bytes count

theorem Undisturbed.tail {answer : RecvAnswer} {answers : List RecvAnswer}
    (undisturbed : Undisturbed (answer :: answers)) : Undisturbed answers :=
  fun other member => undisturbed other (by simp [member])

/-- The first `recv` brings bytes. -/
def Eager (answers : List RecvAnswer) (incoming : List UInt8) : Prop :=
  incoming ≠ [] ∧ ∃ count others, answers = .bytes count :: others

theorem not_eager_nil (incoming : List UInt8) : ¬ Eager [] incoming := by
  rintro ⟨_, _, _, impossible⟩
  cases impossible

/-- One undisturbed `recv`: it blocks, or brings from 1 to `requested` bytes. -/
theorem recv_cases {answers : List RecvAnswer} {answer : RecvAnswer}
    (undisturbed : Undisturbed (answer :: answers)) {requested : Nat}
    (some : 0 < requested) (incoming : List UInt8) :
    (recv answer requested incoming = .ended 1 ∧ ¬ Eager (answer :: answers) incoming) ∨
      ∃ data rest, recv answer requested incoming = .received data rest ∧
        incoming = data ++ rest ∧ 0 < data.length ∧ data.length ≤ requested := by
  rcases undisturbed answer (by simp) with rfl | ⟨count, rfl⟩
  · refine .inl ⟨rfl, ?_⟩
    rintro ⟨_, _, _, impossible⟩
    cases impossible
  · unfold recv
    simp only
    by_cases empty : incoming = []
    · exact .inl ⟨if_pos empty, fun eager => eager.1 empty⟩
    · rw [if_neg empty]
      have present := List.length_pos_iff.mpr empty
      refine .inr ⟨_, _, rfl, (List.take_append_drop _ _).symm, ?_, ?_⟩
      · rw [List.length_take]
        omega
      · rw [List.length_take]
        omega

theorem recv_one {answers : List RecvAnswer} {answer : RecvAnswer}
    (undisturbed : Undisturbed (answer :: answers)) (incoming : List UInt8) :
    (recv answer 1 incoming = .ended 1 ∧ ¬ Eager (answer :: answers) incoming) ∨
      ∃ byte rest, recv answer 1 incoming = .received [byte] rest ∧
        incoming = byte :: rest := by
  rcases recv_cases undisturbed (by omega : 0 < 1) incoming with
    blocked | ⟨data, rest, received, split, positive, bounded⟩
  · exact .inl blocked
  · obtain ⟨byte, rfl⟩ := List.length_eq_one_iff.mp (by omega : data.length = 1)
    exact .inr ⟨byte, rest, received, split⟩

theorem openPacket_atRest {reception : Reception} (atRest : AtRest reception.reader)
    (unfailing : reception.memory.Unfailing) :
    (openPacket reception).incoming = reception.incoming ∧
      (openPacket reception).memory.Unfailing ∧
      AtRest (openPacket reception).reader := by
  unfold openPacket
  split
  · exact ⟨rfl, unfailing, atRest⟩
  · exact ⟨rfl, unfailing.extends (Memory.Extends.mallocUnchecked _), rfl,
      atRest.count, atRest.payload, atRest.toProcess, atRest.cur⟩

/-- `readControl` between two packets: it blocks, or takes the control byte. -/
theorem readControl_atRest {reception : Reception} (atRest : AtRest reception.reader)
    (unfailing : reception.memory.Unfailing) {answers : List RecvAnswer}
    (undisturbed : Undisturbed answers) :
    (∃ after, readControl answers reception = .returns 1 after ∧
        ¬ Eager answers reception.incoming ∧ after.incoming = reception.incoming ∧
        after.memory.Unfailing ∧ AtRest after.reader) ∨
      ∃ control rlen others after,
        readControl answers reception = .goesOn rlen others after ∧
        reception.incoming = control :: after.incoming ∧
        after.memory.Unfailing ∧ Undisturbed others ∧
        InLength control [] after.reader := by
  obtain ⟨incoming, stillUnfailing, opened⟩ := openPacket_atRest atRest unfailing
  have untyped : (openPacket reception).reader.packet.type = 0 := by
    rw [opened.packet]
    rfl
  unfold readControl
  simp only [untyped, if_true]
  cases answers with
  | nil =>
      exact .inl ⟨_, rfl, not_eager_nil _, incoming, stillUnfailing, opened⟩
  | cons answer others =>
      rcases recv_one undisturbed (openPacket reception).incoming with
        ⟨blocked, idle⟩ | ⟨control, rest, received, split⟩
      · rw [incoming] at idle
        exact .inl ⟨openPacket reception, by simp only [blocked], idle, incoming,
          stillUnfailing, opened⟩
      · simp only [received]
        refine .inr ⟨control, _, others, _, rfl, incoming ▸ split, stillUnfailing,
          undisturbed.tail, ?_⟩
        exact ⟨List.forall_mem_nil _, by simp, by rw [opened.packet]; rfl,
          opened.count, rfl, opened.payload, opened.toProcess, opened.cur⟩

/-- `readControl` in the middle of a packet of some type does nothing. -/
theorem readControl_midway {reception : Reception} {control : UInt8} {length : Nat}
    (packet : reception.reader.inPacket = some (begunMessage control length))
    (typed : control >>> 4 ≠ 0) (answers : List RecvAnswer) :
    readControl answers reception = .goesOn (-1) answers reception := by
  have opened : openPacket reception = reception := by
    unfold openPacket
    rw [packet]
  have isTyped : ¬ reception.reader.packet.type = 0 := by
    rw [Reader.packet, packet, Option.getD_some, begunMessage]
    exact (type_mqttParserCommand .zero control).symm ▸ typed
  unfold readControl
  simp only [opened, isTyped, if_false]

/-- After the last byte of the remaining length. -/
structure LengthRead (control : UInt8) (bytes : List UInt8) (length : Nat)
    (reader : Reader) : Prop where
  lengthBytes : LengthBytes bytes length
  packet : reader.inPacket = some (begunMessage control length)
  count : ¬ reader.remainingCount * -1 ≤ 0
  payload : reader.inPayload = none
  toProcess : reader.inToProcess = 0
  cur : reader.inCur = 0

/-- How `lengthLoop` can leave a packet of which `digits` are there already. -/
inductive LengthOutcome (eager : Prop) (control : UInt8) (digits : List UInt8)
    (before : Reception) : ReadStage → Prop
  | waits {after : Reception} (more : List UInt8)
      (split : before.incoming = more ++ after.incoming)
      (moved : eager → more ≠ [])
      (inLength : InLength control (digits ++ more) after.reader)
      (memory : after.memory = before.memory) :
      LengthOutcome eager control digits before (.returns 1 after)
  | overlong {after : Reception} (more : List UInt8) (last : UInt8)
      (split : before.incoming = more ++ last :: after.incoming)
      (continued : Base128.Continued (digits ++ more))
      (full : (digits ++ more).length = 4) :
      LengthOutcome eager control digits before (.returns (-1) after)
  | read {after : Reception} {rlen : Int} {others : List RecvAnswer}
      (more : List UInt8) (length : Nat)
      (split : before.incoming = more ++ after.incoming) (some : more ≠ [])
      (lengthRead : LengthRead control (digits ++ more) length after.reader)
      (positive : 0 < rlen) (undisturbed : Undisturbed others)
      (memory : after.memory = before.memory) :
      LengthOutcome eager control digits before (.goesOn rlen others after)

theorem countAfter_succ : ∀ digits ≤ 4, countAfter digits - 1 = countAfter (digits + 1) := by
  decide

theorem countAfter_lt : ∀ digits ≤ 4, (countAfter (digits + 1) < -4 ↔ digits = 4) := by
  decide

theorem countAfter_nonpositive : ∀ digits ≤ 4, countAfter digits ≤ 0 := by
  decide

theorem countAfter_negated :
    ∀ digits < 4, ¬ countAfter (digits + 1) * -1 ≤ 0 := by
  decide

private theorem low_bits (byte : UInt8) :
    (byte &&& 127).toUInt32 = UInt32.ofNat (byte.toNat % 128) :=
  have same : ∀ byte : UInt8, (byte &&& 127).toUInt32 = UInt32.ofNat (byte.toNat % 128) :=
    forall_byte (by decide +kernel)
  same byte

theorem top_bit (byte : UInt8) : byte &&& 128 ≠ 0 ↔ 128 ≤ byte.toNat :=
  have same : ∀ byte : UInt8, byte &&& 128 ≠ 0 ↔ 128 ≤ byte.toNat :=
    forall_byte (by decide +kernel)
  same byte

theorem InLength.addDigit {control : UInt8} {digits : List UInt8} {reader : Reader}
    (inLength : InLength control digits reader) (byte : UInt8) :
    (reader.countDown.addDigit byte).inPacket =
        some (begunMessage control (Base128.value (digits ++ [byte]))) ∧
      (reader.countDown.addDigit byte).remainingCount =
        countAfter (digits.length + 1) ∧
      (reader.countDown.addDigit byte).remainingMult =
        UInt32.ofNat (128 ^ (digits.length + 1)) := by
  have packet : reader.countDown.packet =
      begunMessage control (Base128.value digits) := by
    rw [Reader.packet, Reader.countDown, inLength.packet, Option.getD_some]
  have mult : reader.countDown.remainingMult = UInt32.ofNat (128 ^ digits.length) :=
    inLength.mult
  refine ⟨?_, ?_, ?_⟩
  · simp only [Reader.addDigit, packet, mult, begunMessage, low_bits,
      Base128.value_append, UInt32.ofNat_add, UInt32.ofNat_mul]
  · show reader.remainingCount - 1 = _
    rw [inLength.count, countAfter_succ digits.length inLength.fits]
  · simp only [Reader.addDigit, mult, Nat.pow_succ, UInt32.ofNat_mul]
    rfl

private theorem LengthOutcome.after_digit {eager further : Prop}
    {control byte : UInt8} {digits : List UInt8} {before middle : Reception}
    {stage : ReadStage}
    (outcome : LengthOutcome further control (digits ++ [byte]) middle stage)
    (split : before.incoming = byte :: middle.incoming)
    (memory : middle.memory = before.memory) :
    LengthOutcome eager control digits before stage := by
  cases outcome with
  | waits more restSplit moved inLength same =>
      exact .waits (byte :: more)
        (split.trans (congrArg (byte :: ·) restSplit)) (fun _ => List.cons_ne_nil _ _)
        (by simpa using inLength) (same.trans memory)
  | overlong more last restSplit continued full =>
      exact .overlong (byte :: more) last
        (split.trans (congrArg (byte :: ·) restSplit)) (by simpa using continued)
        (by simpa using full)
  | read more length restSplit some lengthRead positive undisturbed same =>
      exact .read (byte :: more) length
        (split.trans (congrArg (byte :: ·) restSplit)) (List.cons_ne_nil _ _)
        (by simpa using lengthRead) positive undisturbed (same.trans memory)

theorem lengthLoop_outcome {control : UInt8} {digits : List UInt8}
    {reception : Reception} (inLength : InLength control digits reception.reader)
    {answers : List RecvAnswer} (undisturbed : Undisturbed answers) :
    LengthOutcome (Eager answers reception.incoming) control digits reception
      (lengthLoop reception answers) := by
  induction answers generalizing reception digits with
  | nil =>
      exact .waits [] rfl (fun eager => absurd eager (not_eager_nil _))
        (by simpa using inLength) rfl
  | cons answer others induction =>
      rw [lengthLoop]
      rcases recv_one undisturbed reception.incoming with
        ⟨blocked, idle⟩ | ⟨byte, rest, received, split⟩
      · rw [blocked]
        exact .waits [] rfl (fun eager => absurd eager idle)
          (by simpa using inLength) rfl
      · rw [received]
        have fits := inLength.fits
        obtain ⟨packet, count, mult⟩ := inLength.addDigit byte
        have counted : reception.reader.countDown.remainingCount =
            countAfter (digits.length + 1) := count
        simp only [counted, countAfter_lt digits.length fits, List.headD_cons, top_bit]
        by_cases full : digits.length = 4
        · rw [if_pos full]
          exact .overlong [] byte split
            (by simpa using inLength.continued) (by simpa using full)
        · rw [if_neg full]
          by_cases more : 128 ≤ byte.toNat
          · rw [if_pos more]
            have continued : Base128.Continued (digits ++ [byte]) := by
              intro digit member
              rcases List.mem_append.mp member with earlier | last
              · exact inLength.continued digit earlier
              · rw [List.mem_singleton.mp last]
                exact more
            have longer : InLength control (digits ++ [byte])
                (Reception.reader ⟨reception.reader.countDown.addDigit byte,
                  reception.memory, rest⟩) :=
              ⟨continued, by simp; omega, packet,
                by simpa using count, by simpa using mult, inLength.payload,
                inLength.toProcess, inLength.cur⟩
            have further := induction longer undisturbed.tail
            exact further.after_digit split rfl
          · rw [if_neg more]
            refine .read [byte] (Base128.value (digits ++ [byte])) split
              (List.cons_ne_nil _ _) ?_ (by simp) undisturbed.tail rfl
            refine ⟨LengthBytes.of_last inLength.continued
              (by omega) (by omega), packet, ?_, inLength.payload,
              inLength.toProcess, inLength.cur⟩
            rw [count]
            exact countAfter_negated digits.length (by omega)

/-- How `payloadLoop` can leave a packet of whose payload `received` is there. -/
inductive PayloadOutcome (eager : Prop) (control : UInt8) (bytes : List UInt8)
    (length : Nat) (received : List UInt8) (before : Reception) : ReadStage → Prop
  | waits {after : Reception} (more : List UInt8)
      (split : before.incoming = more ++ after.incoming)
      (moved : eager → more ≠ [])
      (inPayload : InPayload control bytes length (received ++ more) after.reader)
      (short : (received ++ more).length < length)
      (memory : after.memory = before.memory) :
      PayloadOutcome eager control bytes length received before (.returns 1 after)
  | complete {after : Reception} {rlen : Int} {others : List RecvAnswer}
      (more : List UInt8)
      (split : before.incoming = more ++ after.incoming)
      (inPayload : InPayload control bytes length (received ++ more) after.reader)
      (whole : (received ++ more).length = length) (positive : 0 < rlen)
      (memory : after.memory = before.memory) :
      PayloadOutcome eager control bytes length received before
        (.goesOn rlen others after)

theorem InPayload.toProcess_pos {control : UInt8} {bytes received : List UInt8}
    {length : Nat} {reader : Reader}
    (inPayload : InPayload control bytes length received reader) :
    reader.inToProcess > 0 ↔ received.length < length := by
  have small := inPayload.lengthBytes.small
  have bounded := inPayload.bounded
  rw [inPayload.toProcess, gt_iff_lt, UInt32.lt_iff_toNat_lt, UInt32.toNat_ofNat_of_lt'
    (by show length - received.length < 2 ^ 32; omega)]
  simp only [UInt32.toNat_zero]
  omega

theorem InPayload.whole {control : UInt8} {bytes received : List UInt8} {length : Nat}
    {reader : Reader} (inPayload : InPayload control bytes length received reader)
    (done : ¬ reader.inToProcess > 0) : received.length = length := by
  have bounded := inPayload.bounded
  rw [inPayload.toProcess_pos] at done
  omega

theorem InPayload.store {control : UInt8} {bytes received data : List UInt8}
    {length : Nat} {reader : Reader}
    (inPayload : InPayload control bytes length received reader)
    (some : 0 < data.length) (fits : received.length + data.length ≤ length) :
    InPayload control bytes length (received ++ data)
      { reader with
        inPayload :=
          reader.inPayload.map fun block => storeAt block reader.inCur.toNat data
        inToProcess := reader.inToProcess - UInt32.ofNat data.length
        inCur := reader.inCur + UInt32.ofNat data.length } := by
  have small := inPayload.lengthBytes.small
  have cur : reader.inCur.toNat = received.length := by
    rw [inPayload.cur, UInt32.toNat_ofNat_of_lt' (by
      show received.length < 2 ^ 32
      omega)]
  have payload := inPayload.payload
  rw [if_neg (by omega)] at payload
  obtain ⟨block, isBlock, blockLength, start⟩ := payload
  refine ⟨inPayload.lengthBytes, inPayload.packet, inPayload.count,
    by rw [List.length_append]; exact fits, ?_, ?_, ?_⟩
  · rw [if_neg (by omega)]
    refine ⟨storeAt block received.length data, ?_, ?_, ?_⟩
    · show reader.inPayload.map _ = _
      rw [isBlock, cur]
      rfl
    · simp only [storeAt, start, List.length_append, List.length_drop]
      omega
    · rw [storeAt, start, List.take_left']
      rfl
  · show reader.inToProcess - UInt32.ofNat data.length = _
    have order : data.length ≤ length - received.length := by omega
    rw [inPayload.toProcess, List.length_append, ← Nat.sub_sub,
      UInt32.ofNat_sub order]
  · show reader.inCur + UInt32.ofNat data.length = _
    rw [inPayload.cur, List.length_append, UInt32.ofNat_add]

private theorem PayloadOutcome.after_data {eager further : Prop} {control : UInt8}
    {bytes received data : List UInt8} {length : Nat} {before middle : Reception}
    {stage : ReadStage}
    (outcome : PayloadOutcome further control bytes length (received ++ data) middle
      stage)
    (some : 0 < data.length) (split : before.incoming = data ++ middle.incoming)
    (memory : middle.memory = before.memory) :
    PayloadOutcome eager control bytes length received before stage := by
  have joined : ∀ more rest, middle.incoming = more ++ rest →
      before.incoming = (data ++ more) ++ rest := by
    intro more rest middleSplit
    rw [split, middleSplit, List.append_assoc]
  cases outcome with
  | waits more middleSplit moved inPayload short same =>
      rw [List.append_assoc] at inPayload short
      refine .waits _ (joined _ _ middleSplit) (fun _ empty => ?_) inPayload short
        (same.trans memory)
      rw [(List.append_eq_nil_iff.mp empty).1] at some
      exact absurd some (by simp)
  | complete more middleSplit inPayload whole positive same =>
      rw [List.append_assoc] at inPayload whole
      exact .complete _ (joined _ _ middleSplit) inPayload whole positive
        (same.trans memory)

theorem payloadLoop_outcome {control : UInt8} {bytes received : List UInt8}
    {length : Nat} {reception : Reception}
    (inPayload : InPayload control bytes length received reception.reader)
    {answers : List RecvAnswer} (undisturbed : Undisturbed answers) {rlen : Int}
    (positive : received.length = length → 0 < rlen) :
    PayloadOutcome (Eager answers reception.incoming) control bytes length received
      reception (payloadLoop rlen reception answers) := by
  induction answers generalizing reception received rlen with
  | nil =>
      rw [payloadLoop]
      split
      · rename_i toProcess
        exact .waits [] rfl (fun eager => absurd eager (not_eager_nil _))
          (by simpa using inPayload) (by simpa using inPayload.toProcess_pos.mp toProcess)
          rfl
      · rename_i done
        have whole := inPayload.whole done
        exact .complete [] rfl (by simpa using inPayload) (by simpa using whole)
          (positive whole) rfl
  | cons answer others induction =>
      rw [payloadLoop]
      simp only
      split
      · rename_i toProcess
        have short := inPayload.toProcess_pos.mp toProcess
        have requested : reception.reader.inToProcess.toNat =
            length - received.length := by
          have small := inPayload.lengthBytes.small
          rw [inPayload.toProcess, UInt32.toNat_ofNat_of_lt' (by
            show length - received.length < 2 ^ 32
            omega)]
        have some : 0 < length - received.length := by omega
        rcases recv_cases undisturbed some reception.incoming with
          ⟨blocked, idle⟩ | ⟨data, rest, got, split, some, bounded⟩
        · rw [requested, blocked]
          exact .waits [] rfl (fun eager => absurd eager idle)
            (by simpa using inPayload) (by simpa using short) rfl
        · rw [requested, got]
          refine PayloadOutcome.after_data (induction ?_ undisturbed.tail fun _ => ?_) some
            split rfl
          · exact inPayload.store some (by omega)
          · omega
      · rename_i done
        have whole := inPayload.whole done
        exact .complete [] rfl (by simpa using inPayload) (by simpa using whole)
          (positive whole) rfl

theorem LengthRead.nonempty {control : UInt8} {bytes : List UInt8} {length : Nat}
    {reader : Reader} (lengthRead : LengthRead control bytes length reader)
    (positive : 0 < length) (block : List UInt8) (blockLength : block.length = length) :
    InPayload control bytes length []
      { reader with
        remainingCount := reader.remainingCount * -1
        inPayload := some block
        inToProcess := (begunMessage control length).length } where
  lengthBytes := lengthRead.lengthBytes
  packet := lengthRead.packet
  count := lengthRead.count
  bounded := Nat.zero_le _
  payload := by
    rw [if_neg (by omega)]
    exact ⟨block, rfl, blockLength, List.take_zero⟩
  toProcess := rfl
  cur := lengthRead.cur

theorem LengthRead.empty {control : UInt8} {bytes : List UInt8} {reader : Reader}
    (lengthRead : LengthRead control bytes 0 reader) :
    InPayload control bytes 0 []
      { reader with remainingCount := reader.remainingCount * -1 } where
  lengthBytes := lengthRead.lengthBytes
  packet := lengthRead.packet
  count := lengthRead.count
  bounded := Nat.zero_le _
  payload := lengthRead.payload
  toProcess := lengthRead.toProcess
  cur := lengthRead.cur

/-- How the three stages together can leave a packet of which `part` is there. -/
inductive StageOutcome (eager : Prop) (part incoming : List UInt8) :
    ReadStage → Prop
  | waits {after : Reception} (more : List UInt8)
      (split : incoming = more ++ after.incoming)
      (moved : eager → more ≠ [])
      (midway : Midway after.reader (part ++ more))
      (unfailing : after.memory.Unfailing) :
      StageOutcome eager part incoming (.returns 1 after)
  | overlong {after : Reception} (more : List UInt8)
      (split : incoming = more ++ after.incoming)
      (malformed : ∀ rest, nextFrame (part ++ more ++ rest) = .malformed) :
      StageOutcome eager part incoming (.returns (-1) after)
  | packet {after : Reception} {rlen : Int} {others : List RecvAnswer}
      (more : List UInt8) (frame : WireFrame)
      (split : incoming = more ++ after.incoming)
      (whole : ∀ rest, nextFrame (part ++ more ++ rest) = .item frame rest)
      (message : after.reader.packet = frame.message)
      (payload : after.reader.inPayload = frame.inPayload)
      (processed : after.reader.inToProcess = 0) (positive : 0 < rlen)
      (unfailing : after.memory.Unfailing) :
      StageOutcome eager part incoming (.goesOn rlen others after)

theorem StageOutcome.after_more {eager further : Prop}
    {part more incoming middle : List UInt8} {stage : ReadStage}
    (outcome : StageOutcome further (part ++ more) middle stage) (some : more ≠ [])
    (split : incoming = more ++ middle) :
    StageOutcome eager part incoming stage := by
  have joined : ∀ further rest, middle = further ++ rest →
      incoming = (more ++ further) ++ rest := by
    intro further rest middleSplit
    rw [split, middleSplit, List.append_assoc]
  cases outcome with
  | waits further middleSplit moved midway unfailing =>
      rw [List.append_assoc] at midway
      exact .waits _ (joined _ _ middleSplit)
        (fun _ empty => some (List.append_eq_nil_iff.mp empty).1) midway unfailing
  | overlong further middleSplit malformed =>
      exact .overlong _ (joined _ _ middleSplit) (by simpa using malformed)
  | packet further frame middleSplit whole message payload processed positive unfailing =>
      exact .packet _ frame (joined _ _ middleSplit) (by simpa using whole) message
        payload processed positive unfailing

theorem stages_inPayload {control : UInt8} {bytes received : List UInt8}
    {length : Nat} (reception : Reception)
    (inPayload : InPayload control bytes length received reception.reader)
    (unfailing : reception.memory.Unfailing) {answers : List RecvAnswer}
    (undisturbed : Undisturbed answers) {rlen : Int}
    (positive : received.length = length → 0 < rlen) :
    StageOutcome (Eager answers reception.incoming) (control :: (bytes ++ received))
      reception.incoming (payloadLoop rlen reception answers) := by
  have outcome := payloadLoop_outcome inPayload undisturbed positive
  generalize payloadLoop rlen reception answers = stage at outcome
  cases outcome with
  | waits more split moved inPayload short memory =>
      refine .waits more split moved ?_ (memory ▸ unfailing)
      rw [List.cons_append, List.append_assoc]
      exact .payload inPayload short
  | complete more split inPayload whole positive memory =>
      refine .packet more ⟨control, length, received ++ more⟩ split ?_ ?_ ?_ ?_ positive
        (memory ▸ unfailing)
      · intro rest
        rw [List.cons_append, List.append_assoc bytes]
        exact nextFrame_whole inPayload.lengthBytes whole rest
      · rw [Reader.packet, inPayload.packet]
        rfl
      · have payload := inPayload.payload
        unfold WireFrame.inPayload
        simp only
        split at payload
        · rename_i empty
          rw [if_pos empty, payload]
        · rename_i nonempty
          obtain ⟨block, isBlock, blockLength, start⟩ := payload
          rw [if_neg nonempty, isBlock, ← start, whole, ← blockLength, List.take_length]
      · rw [inPayload.toProcess, whole, Nat.sub_self]
        rfl

theorem stages_inLength {control : UInt8} {digits : List UInt8}
    {reception : Reception} (inLength : InLength control digits reception.reader)
    (unfailing : reception.memory.Unfailing) {answers : List RecvAnswer}
    (undisturbed : Undisturbed answers) (rlen : Int) :
    StageOutcome (Eager answers reception.incoming) (control :: digits)
      reception.incoming
      ((readLength rlen answers reception).andThen fun rlen answers reception =>
        payloadLoop rlen reception answers) := by
  have begins : reception.reader.remainingCount ≤ 0 := by
    rw [inLength.count]
    exact countAfter_nonpositive digits.length inLength.fits
  rw [readLength, if_pos begins]
  have outcome := lengthLoop_outcome inLength undisturbed
  generalize lengthLoop reception answers = stage at outcome
  cases outcome with
  | waits more split moved inLength memory =>
      exact .waits more split moved (.length inLength) (memory ▸ unfailing)
  | overlong more last split continued full =>
      refine .overlong (more ++ [last]) (by simpa using split) ?_
      intro rest
      simpa using nextFrame_overlong continued full rest
  | @read after rlen others more length split some lengthRead positive undisturbed
      memory =>
      have afterUnfailing : after.memory.Unfailing := memory ▸ unfailing
      have packet : Reader.packet
          { after.reader with
            remainingCount := after.reader.remainingCount * -1 } =
          begunMessage control length := by
        rw [Reader.packet, lengthRead.packet, Option.getD_some]
      have small := lengthRead.lengthBytes.small
      have lengthField : (begunMessage control length).length.toNat = length := by
        show (UInt32.ofNat length).toNat = length
        rw [UInt32.toNat_ofNat_of_lt' (by show length < 2 ^ 32; omega)]
      refine StageOutcome.after_more
        (?_ : StageOutcome (Eager others after.incoming) _ _ _) some split
      rw [List.cons_append]
      simp only [ReadStage.andThen, packet]
      by_cases nonzero : (begunMessage control length).length > 0
      · rw [if_pos nonzero]
        have positiveLength : 0 < length := by
          have order := UInt32.lt_iff_toNat_lt.mp nonzero
          rwa [lengthField] at order
        rw [Memory.malloc_of_unfailing afterUnfailing]
        simp only
        rw [← List.append_nil (digits ++ more)]
        exact stages_inPayload ⟨_, _, after.incoming⟩
          (lengthRead.nonempty positiveLength _ (by
            rw [Memory.length_block, lengthField]))
          (afterUnfailing.extends (Memory.Extends.malloc after.memory)) undisturbed
          (fun _ => positive)
      · rw [if_neg nonzero]
        have empty : length = 0 := by
          rcases Nat.eq_zero_or_pos length with empty | some
          · exact empty
          · exact absurd (UInt32.lt_iff_toNat_lt.mpr (by rwa [lengthField])) nonzero
        subst empty
        rw [← List.append_nil (digits ++ more)]
        exact stages_inPayload ⟨_, after.memory, after.incoming⟩ lengthRead.empty
          afterUnfailing undisturbed (fun _ => positive)

end MuMQ
