import MuMQ.Broker.RemainingLength
import MuMQ.Broker.HandMqtt

namespace MuMQ

open Data

/-! The buffer of the payload, over all calls of `loop_read` for a slot. -/

/-- A call of `loop_read`: the events, what its `recv`s answer, what the socket has to
receive, and the allocator. -/
structure ReadCall where
  events : PollEvents
  answers : List RecvAnswer
  incoming : List UInt8
  memory : Memory

/-- A slot as `accept` finds it or `clean_context` leaves it. -/
inductive FreshSlot : Client → Prop
  | zero : FreshSlot .zero
  | cleaned (client : Client) : FreshSlot (cleanContext client)
  | accepted {client : Client} (fresh : FreshSlot client) (sock : Nat) :
      FreshSlot { client with sock := sock }

/-- A call of `loop_read` for a slot; a value of 0 or less is followed by
`remove_client`. -/
def readCall {World : Type}
    (process : World → Message → Option (List UInt8) → PacketOutcome × World)
    (call : ReadCall) (state : Client × World) : Client × World :=
  match loopRead process call.events call.answers
      ⟨state.1.reader, call.memory, call.incoming⟩ state.2 with
  | (value, reception, world) =>
      let client := { state.1 with reader := reception.reader }
      if value ≤ 0 then (cleanContext client, world) else (client, world)

def readCalls {World : Type}
    (process : World → Message → Option (List UInt8) → PacketOutcome × World)
    (state : Client × World) : List ReadCall → Client × World
  | [] => state
  | call :: calls => readCalls process (readCall process call state) calls

/-! The points of one call. -/

/-- In front of a `recv` for the control byte, for a byte of the remaining length or for
the payload, of the assignment of a new payload buffer, or of `mqtt_parser_execute`. -/
inductive ReadPoint where
  | control (reader : Reader)
  | length (reader : Reader)
  | allocate (reader : Reader)
  | payload (reader : Reader)
  | parse (reader : Reader)

/-- The points that follow a part of `loop_read`, if it goes on. -/
def ReadStage.followedBy (stage : ReadStage)
    (next : Int → List RecvAnswer → Reception → List ReadPoint) : List ReadPoint :=
  match stage with
  | .returns _ _ => []
  | .goesOn rlen answers reception => next rlen answers reception

def controlPoints (reception : Reception) : List ReadPoint :=
  let reception := openPacket reception
  if reception.reader.packet.type = 0 then [.control reception.reader] else []

def lengthPoints (reception : Reception) : List RecvAnswer → List ReadPoint
  | [] => [.length reception.reader]
  | answer :: answers =>
      .length reception.reader ::
        match recv answer 1 reception.incoming with
        | .ended _ => []
        | .received data incoming =>
            let byte := data.headD 0
            let reader := reception.reader.countDown
            if reader.remainingCount < -4 then []
            else if byte &&& 128 ≠ 0 then
              lengthPoints
                { reception with reader := reader.addDigit byte, incoming := incoming } answers
            else []

def allocatePoints (reception : Reception) : List ReadPoint :=
  let reader :=
    { reception.reader with remainingCount := reception.reader.remainingCount * -1 }
  let length : UInt32 := reader.packet.length
  if length > 0 then [.allocate reader] else []

def payloadPoints (reception : Reception) : List RecvAnswer → List ReadPoint
  | [] => if reception.reader.inToProcess > 0 then [.payload reception.reader] else []
  | answer :: answers =>
      let reader := reception.reader
      if reader.inToProcess > 0 then
        .payload reader ::
          match recv answer reader.inToProcess.toNat reception.incoming with
          | .ended _ => []
          | .received data incoming =>
              let payload :=
                reader.inPayload.map fun block => storeAt block reader.inCur.toNat data
              payloadPoints
                { reception with
                  reader :=
                    { reader with
                      inPayload := payload
                      inToProcess := reader.inToProcess - UInt32.ofNat data.length
                      inCur := reader.inCur + UInt32.ofNat data.length }
                  incoming := incoming }
                answers
      else []

/-- The points of a call of `loop_read`, in order. -/
def readPoints (events : PollEvents) (answers : List RecvAnswer) (reception : Reception) :
    List ReadPoint :=
  if events.epollHup then []
  else if events.epollErr then []
  else if events.epollIn then
    controlPoints reception ++
      (readControl answers reception).followedBy fun rlen answers reception =>
        (if reception.reader.remainingCount ≤ 0 then
          lengthPoints reception answers ++
            (lengthLoop reception answers).followedBy fun _ _ reception =>
              allocatePoints reception
        else []) ++
          (readLength rlen answers reception).followedBy fun rlen answers reception =>
            payloadPoints reception answers ++
              (payloadLoop rlen reception answers).followedBy fun _ _ reception =>
                [.parse { reception.reader with inCur := 0, remainingCount := 0 }]
  else []

/-- While a part of the payload is to come, the buffer has the size of the payload and the
cursor stands where that part begins. -/
def Reader.InBuffer (reader : Reader) : Prop :=
  reader.inToProcess > 0 →
    ∃ block, reader.inPayload = some block ∧ block.length = reader.packet.length.toNat ∧
      reader.inCur.toNat + reader.inToProcess.toNat = reader.packet.length.toNat

/-- No buffer is lost where one is assigned, a payload is received into its buffer only, and
the parser gets as many bytes as it is told. -/
def ReadPoint.Safe : ReadPoint → Prop
  | .control reader => reader.InBuffer
  | .length reader => reader.InBuffer
  | .allocate reader => reader.InBuffer ∧ reader.inPayload = none
  | .payload reader => reader.InBuffer ∧ reader.inToProcess > 0
  | .parse reader => reader.InBuffer ∧
      (reader.inPayload.getD []).length = reader.packet.length.toNat ∧
      reader.packet.length.toNat ≤ 268435455

/-! The phases of a slot, whatever the types on the way. -/

/-- After some bytes of the remaining length.  A packet of type 0 has its control byte and
its multiplier set anew in between. -/
structure InDigits (digits : Nat) (reader : Reader) : Prop where
  fits : digits ≤ 4
  count : reader.remainingCount = countAfter digits
  length : reader.packet.length.toNat < 128 ^ digits
  payload : reader.inPayload = none
  toProcess : reader.inToProcess = 0
  cur : reader.inCur = 0

def Multiplied (digits : Nat) (reader : Reader) : Prop :=
  reader.remainingMult.toNat ≤ 128 ^ digits

/-- After the remaining length. -/
structure InBytes (reader : Reader) : Prop where
  count : ¬ reader.remainingCount ≤ 0
  bounded : reader.packet.length.toNat ≤ 268435455
  payload : (reader.inPayload.getD []).length = reader.packet.length.toNat
  cursor : reader.inCur.toNat + reader.inToProcess.toNat = reader.packet.length.toNat

/-- Between two calls. -/
inductive SlotReader (reader : Reader) : Prop
  | digits {digits : Nat} (inDigits : InDigits digits reader)
      (mult : reader.packet.type ≠ 0 → Multiplied digits reader)
  | bytes (inBytes : InBytes reader)

/-- Behind the control byte. -/
inductive BegunReader (reader : Reader) : Prop
  | digits {digits : Nat} (inDigits : InDigits digits reader) (mult : Multiplied digits reader)
  | bytes (inBytes : InBytes reader)

/-- A part of `loop_read` leaves a slot that is kept open in one of its phases, and goes on
with a reader of this kind. -/
def ReadStage.Keeps (goesOn : Reader → Prop) : ReadStage → Prop
  | .returns value reception => 0 < value → SlotReader reception.reader
  | .goesOn _ _ reception => goesOn reception.reader

theorem ReadStage.Keeps.andThen {first second : Reader → Prop} {stage : ReadStage}
    {next : Int → List RecvAnswer → Reception → ReadStage} (keeps : stage.Keeps first)
    (keepsNext : ∀ rlen answers reception, first reception.reader →
      (next rlen answers reception).Keeps second) : (stage.andThen next).Keeps second := by
  cases stage with
  | returns value reception => exact keeps
  | goesOn rlen answers reception => exact keepsNext rlen answers reception keeps

theorem ReadStage.Keeps.followedBy {first : Reader → Prop} {stage : ReadStage}
    {next : Int → List RecvAnswer → Reception → List ReadPoint} (keeps : stage.Keeps first)
    (safe : ∀ rlen answers reception, first reception.reader →
      ∀ point ∈ next rlen answers reception, point.Safe) :
    ∀ point ∈ stage.followedBy next, point.Safe := by
  cases stage with
  | returns value reception => exact List.forall_mem_nil _
  | goesOn rlen answers reception => exact safe rlen answers reception keeps

theorem InDigits.inBuffer {digits : Nat} {reader : Reader} (inDigits : InDigits digits reader) :
    reader.InBuffer := by
  intro toProcess
  rw [inDigits.toProcess] at toProcess
  exact absurd toProcess (by decide)

theorem InBytes.inBuffer {reader : Reader} (inBytes : InBytes reader) : reader.InBuffer := by
  intro toProcess
  have positive : 0 < reader.inToProcess.toNat := UInt32.lt_iff_toNat_lt.mp toProcess
  have payload := inBytes.payload
  have cursor := inBytes.cursor
  cases isBlock : reader.inPayload with
  | none =>
      rw [isBlock, Option.getD_none, List.length_nil] at payload
      omega
  | some block =>
      rw [isBlock, Option.getD_some] at payload
      exact ⟨block, rfl, payload, cursor⟩

theorem SlotReader.inBuffer {reader : Reader} (slot : SlotReader reader) : reader.InBuffer := by
  cases slot with
  | digits inDigits _ => exact inDigits.inBuffer
  | bytes inBytes => exact inBytes.inBuffer

theorem SlotReader.zero : SlotReader .zero :=
  .digits (show InDigits 0 .zero from ⟨by decide, rfl, by decide, rfl, rfl, rfl⟩)
    (fun typed => absurd rfl typed)

/-! The control byte. -/

theorem SlotReader.openPacket {reception : Reception} (slot : SlotReader reception.reader) :
    SlotReader (openPacket reception).reader := by
  unfold MuMQ.openPacket
  split
  · exact slot
  · rename_i absent
    have packet : reception.reader.packet = .zero := by
      rw [Reader.packet, absent]
      rfl
    cases slot with
    | digits inDigits mult =>
        exact .digits
          ⟨inDigits.fits, inDigits.count, packet ▸ inDigits.length, inDigits.payload,
            inDigits.toProcess, inDigits.cur⟩ (fun typed => absurd rfl typed)
    | bytes inBytes =>
        exact .bytes ⟨inBytes.count, packet ▸ inBytes.bounded, packet ▸ inBytes.payload,
          packet ▸ inBytes.cursor⟩

/-- A new control byte sets the multiplier to 1 and leaves the length alone. -/
theorem SlotReader.control {reader : Reader} (slot : SlotReader reader) (byte : UInt8) :
    BegunReader
      { reader with
        inPacket := some (mqttParserCommand reader.packet byte)
        remainingMult := 1 } := by
  cases slot with
  | digits inDigits _ =>
      exact .digits
        ⟨inDigits.fits, inDigits.count, inDigits.length, inDigits.payload, inDigits.toProcess,
          inDigits.cur⟩ (Nat.one_le_pow _ _ (by decide))
  | bytes inBytes =>
      exact .bytes ⟨inBytes.count, inBytes.bounded, inBytes.payload, inBytes.cursor⟩

theorem readControl_keeps {reception : Reception} (slot : SlotReader reception.reader)
    (answers : List RecvAnswer) : (readControl answers reception).Keeps BegunReader := by
  have opened := slot.openPacket
  unfold readControl
  simp only
  split
  · cases answers with
    | nil => exact fun _ => opened
    | cons answer others =>
        cases received : recv answer 1 (openPacket reception).incoming with
        | ended value =>
            simp only [received]
            exact fun _ => opened
        | received data incoming =>
            simp only [received]
            exact opened.control _
  · rename_i typed
    cases opened with
    | digits inDigits mult => exact .digits inDigits (mult typed)
    | bytes inBytes => exact .bytes inBytes

theorem controlPoints_safe {reception : Reception} (slot : SlotReader reception.reader) :
    ∀ point ∈ controlPoints reception, point.Safe := by
  unfold controlPoints
  simp only
  split
  · intro point member
    rw [List.mem_singleton.mp member]
    exact slot.openPacket.inBuffer
  · exact List.forall_mem_nil _

/-! The remaining length. -/

theorem InDigits.countDown {digits : Nat} {reader : Reader} (inDigits : InDigits digits reader) :
    reader.countDown.remainingCount < -4 ↔ digits = 4 := by
  have counted : reader.countDown.remainingCount = countAfter (digits + 1) := by
    show reader.remainingCount - 1 = _
    rw [inDigits.count, countAfter_succ digits inDigits.fits]
  rw [counted, countAfter_lt digits inDigits.fits]

theorem InDigits.addDigit {digits : Nat} {reader : Reader} (inDigits : InDigits digits reader)
    (mult : Multiplied digits reader) (short : digits ≠ 4) (byte : UInt8) :
    InDigits (digits + 1) (reader.countDown.addDigit byte) ∧
      Multiplied (digits + 1) (reader.countDown.addDigit byte) := by
  have fits := inDigits.fits
  have power := pow_128_le (show digits + 1 ≤ 4 by omega)
  have front := inDigits.length
  have digit : (byte &&& 127).toNat ≤ 127 := Nat.and_le_right
  have product : (byte &&& 127).toNat * reader.remainingMult.toNat ≤ 127 * 128 ^ digits :=
    Nat.mul_le_mul digit mult
  rw [Nat.pow_succ] at power
  refine ⟨⟨by omega, ?_, ?_, inDigits.payload, inDigits.toProcess, inDigits.cur⟩, ?_⟩
  · show reader.remainingCount - 1 = _
    rw [inDigits.count, countAfter_succ digits fits]
  · show (reader.packet.length + (byte &&& 127).toUInt32 * reader.remainingMult).toNat < _
    have bound : reader.packet.length.toNat +
        (byte &&& 127).toNat * reader.remainingMult.toNat < 128 ^ (digits + 1) := by
      rw [Nat.pow_succ]
      omega
    rw [UInt32.toNat_add, UInt32.toNat_mul, UInt8.toNat_toUInt32,
      Nat.mod_eq_of_lt (show (byte &&& 127).toNat * reader.remainingMult.toNat < 2 ^ 32 by omega)]
    exact Nat.lt_of_le_of_lt (Nat.mod_le _ _) bound
  · show (reader.remainingMult * 128).toNat ≤ _
    have bound : reader.remainingMult.toNat * 128 ≤ 128 ^ digits * 128 :=
      Nat.mul_le_mul_right 128 mult
    rw [UInt32.toNat_mul, Nat.pow_succ]
    exact Nat.le_trans (Nat.mod_le _ _) bound

/-- The loop stops after at least one byte. -/
def Stopped (reader : Reader) : Prop := ∃ digits, 1 ≤ digits ∧ InDigits digits reader

section Digits

variable {digits : Nat} {reception : Reception} (inDigits : InDigits digits reception.reader)
  (mult : Multiplied digits reception.reader)
include inDigits mult

theorem lengthLoop_keeps (answers : List RecvAnswer) :
    (lengthLoop reception answers).Keeps Stopped := by
  induction answers generalizing reception digits with
  | nil => exact fun _ => .digits inDigits fun _ => mult
  | cons answer others induction =>
      rw [lengthLoop]
      cases recv answer 1 reception.incoming with
      | ended value => exact fun _ => .digits inDigits fun _ => mult
      | received data incoming =>
          simp only [inDigits.countDown]
          by_cases full : digits = 4
          · rw [if_pos full]
            intro kept
            exact absurd kept (by decide)
          · rw [if_neg full]
            obtain ⟨further, multiplied⟩ := inDigits.addDigit mult full (data.headD 0)
            split
            · exact @induction (digits + 1)
                ⟨reception.reader.countDown.addDigit (data.headD 0), reception.memory, incoming⟩
                further multiplied
            · exact ⟨digits + 1, Nat.le_add_left 1 digits, further⟩

theorem lengthPoints_safe (answers : List RecvAnswer) :
    ∀ point ∈ lengthPoints reception answers, point.Safe := by
  induction answers generalizing reception digits with
  | nil =>
      intro point member
      rw [List.mem_singleton.mp member]
      exact inDigits.inBuffer
  | cons answer others induction =>
      rw [lengthPoints]
      refine List.forall_mem_cons.mpr ⟨inDigits.inBuffer, ?_⟩
      cases recv answer 1 reception.incoming with
      | ended value => exact List.forall_mem_nil _
      | received data incoming =>
          simp only [inDigits.countDown]
          by_cases full : digits = 4
          · rw [if_pos full]
            exact List.forall_mem_nil _
          · rw [if_neg full]
            obtain ⟨further, multiplied⟩ := inDigits.addDigit mult full (data.headD 0)
            split
            · exact @induction (digits + 1)
                ⟨reception.reader.countDown.addDigit (data.headD 0), reception.memory, incoming⟩
                further multiplied
            · exact List.forall_mem_nil _

end Digits

theorem allocatePoints_safe {reception : Reception} (stopped : Stopped reception.reader) :
    ∀ point ∈ allocatePoints reception, point.Safe := by
  obtain ⟨digits, _, inDigits⟩ := stopped
  unfold allocatePoints
  simp only
  split
  · intro point member
    rw [List.mem_singleton.mp member]
    exact ⟨inDigits.inBuffer, inDigits.payload⟩
  · exact List.forall_mem_nil _

theorem Stopped.inBytes {reader : Reader} (stopped : Stopped reader) {payload : Option (List UInt8)}
    {toProcess : UInt32} (all : toProcess = reader.packet.length)
    (size : (payload.getD []).length = reader.packet.length.toNat) :
    InBytes
      { reader with
        remainingCount := reader.remainingCount * -1
        inPayload := payload
        inToProcess := toProcess } := by
  obtain ⟨digits, some, inDigits⟩ := stopped
  have fits := inDigits.fits
  have front := inDigits.length
  have power := pow_128_le fits
  obtain ⟨before, rfl⟩ : ∃ before, digits = before + 1 := ⟨digits - 1, by omega⟩
  refine ⟨?_, ?_, size, ?_⟩
  · show ¬ reader.remainingCount * -1 ≤ 0
    rw [inDigits.count]
    exact countAfter_negated before (by omega)
  · show reader.packet.length.toNat ≤ 268435455
    omega
  · show reader.inCur.toNat + toProcess.toNat = reader.packet.length.toNat
    rw [inDigits.cur, all]
    exact Nat.zero_add _

theorem readLength_keeps {reception : Reception} (begun : BegunReader reception.reader)
    (rlen : Int) (answers : List RecvAnswer) :
    (readLength rlen answers reception).Keeps InBytes := by
  unfold readLength
  cases begun with
  | bytes inBytes =>
      rw [if_neg inBytes.count]
      exact inBytes
  | digits inDigits mult =>
      have counting : reception.reader.remainingCount ≤ 0 := by
        rw [inDigits.count]
        exact countAfter_nonpositive _ inDigits.fits
      rw [if_pos counting]
      refine (lengthLoop_keeps inDigits mult answers).andThen
        fun rlen answers reception stopped => ?_
      simp only
      split
      · cases allocated : reception.memory.malloc with
        | mk address memory =>
            cases address with
            | none =>
                intro kept
                exact absurd kept (by decide)
            | some address => exact stopped.inBytes rfl (Memory.length_block _ _)
      · rename_i empty
        have zero : reception.reader.packet.length = 0 :=
          UInt32.toNat_inj.mp (Nat.eq_zero_of_not_pos fun positive =>
            empty (UInt32.lt_iff_toNat_lt.mpr positive))
        obtain ⟨digits, some, inDigits⟩ := id stopped
        have nothing : reception.reader.inToProcess = reception.reader.packet.length := by
          rw [inDigits.toProcess, zero]
        exact stopped.inBytes nothing (by rw [inDigits.payload, zero]; rfl)

/-! The payload. -/

theorem recv_length {answer : RecvAnswer} {requested : Nat} {incoming data rest : List UInt8}
    (received : recv answer requested incoming = .received data rest) :
    data.length ≤ requested := by
  cases answer with
  | bytes count =>
      unfold recv at received
      simp only at received
      split at received
      · cases received
      · cases received
        rw [List.length_take]
        omega
  | _ => cases received

theorem length_storeAt {block data : List UInt8} {index : Nat}
    (fits : index + data.length ≤ block.length) :
    (storeAt block index data).length = block.length := by
  rw [storeAt, List.length_append, List.length_append, List.length_take, List.length_drop]
  omega

theorem InBytes.store {reader : Reader} (inBytes : InBytes reader) {data : List UInt8}
    (fits : data.length ≤ reader.inToProcess.toNat) :
    InBytes
      { reader with
        inPayload := reader.inPayload.map fun block => storeAt block reader.inCur.toNat data
        inToProcess := reader.inToProcess - UInt32.ofNat data.length
        inCur := reader.inCur + UInt32.ofNat data.length } := by
  have bounded := inBytes.bounded
  have cursor := inBytes.cursor
  have payload := inBytes.payload
  have small : (UInt32.ofNat data.length).toNat = data.length :=
    UInt32.toNat_ofNat_of_lt' (show data.length < 2 ^ 32 by omega)
  refine ⟨inBytes.count, bounded, ?_, ?_⟩
  · cases isBlock : reader.inPayload with
    | none =>
        rw [isBlock] at payload
        exact payload
    | some block =>
        rw [isBlock] at payload
        rw [Option.map_some, Option.getD_some, length_storeAt]
        · exact payload
        · rw [Option.getD_some] at payload
          omega
  · show (reader.inCur + UInt32.ofNat data.length).toNat +
      (reader.inToProcess - UInt32.ofNat data.length).toNat = reader.packet.length.toNat
    have process := reader.inToProcess.toNat_lt
    rw [UInt32.toNat_add, UInt32.toNat_sub, small]
    omega

theorem payloadLoop_keeps {reception : Reception} (inBytes : InBytes reception.reader)
    (rlen : Int) (answers : List RecvAnswer) :
    (payloadLoop rlen reception answers).Keeps fun reader =>
      InBytes reader ∧ ¬ reader.inToProcess > 0 := by
  induction answers generalizing reception rlen with
  | nil =>
      rw [payloadLoop]
      split
      · exact fun _ => .bytes inBytes
      · rename_i done
        exact ⟨inBytes, done⟩
  | cons answer others induction =>
      rw [payloadLoop]
      simp only
      split
      · cases received : recv answer reception.reader.inToProcess.toNat reception.incoming with
        | ended value => exact fun _ => .bytes inBytes
        | received data incoming => exact induction (inBytes.store (recv_length received)) _
      · rename_i done
        exact ⟨inBytes, done⟩

theorem payloadPoints_safe {reception : Reception} (inBytes : InBytes reception.reader)
    (answers : List RecvAnswer) : ∀ point ∈ payloadPoints reception answers, point.Safe := by
  induction answers generalizing reception with
  | nil =>
      rw [payloadPoints]
      split
      · rename_i toProcess
        intro point member
        rw [List.mem_singleton.mp member]
        exact ⟨inBytes.inBuffer, toProcess⟩
      · exact List.forall_mem_nil _
  | cons answer others induction =>
      rw [payloadPoints]
      simp only
      split
      · rename_i toProcess
        refine List.forall_mem_cons.mpr ⟨⟨inBytes.inBuffer, toProcess⟩, ?_⟩
        cases received : recv answer reception.reader.inToProcess.toNat reception.incoming with
        | ended value => exact List.forall_mem_nil _
        | received data incoming => exact induction (inBytes.store (recv_length received))
      · exact List.forall_mem_nil _

/-! Whole calls. -/

theorem readPoints_safe {reception : Reception} (slot : SlotReader reception.reader)
    (events : PollEvents) (answers : List RecvAnswer) :
    ∀ point ∈ readPoints events answers reception, point.Safe := by
  unfold readPoints
  split
  · exact List.forall_mem_nil _
  · split
    · exact List.forall_mem_nil _
    · split
      · refine List.forall_mem_append.mpr ⟨controlPoints_safe slot, ?_⟩
        refine (readControl_keeps slot answers).followedBy fun rlen answers reception begun => ?_
        refine List.forall_mem_append.mpr ⟨?_, ?_⟩
        · cases begun with
          | bytes inBytes =>
              rw [if_neg inBytes.count]
              exact List.forall_mem_nil _
          | digits inDigits mult =>
              split
              · refine List.forall_mem_append.mpr ⟨lengthPoints_safe inDigits mult answers, ?_⟩
                exact (lengthLoop_keeps inDigits mult answers).followedBy
                  fun _ _ _ stopped => allocatePoints_safe stopped
              · exact List.forall_mem_nil _
        · refine (readLength_keeps begun rlen answers).followedBy
            fun rlen answers reception inBytes => ?_
          refine List.forall_mem_append.mpr ⟨payloadPoints_safe inBytes answers, ?_⟩
          refine (payloadLoop_keeps inBytes rlen answers).followedBy
            fun _ _ reception complete => ?_
          intro point member
          rw [List.mem_singleton.mp member]
          exact ⟨fun toProcess => absurd toProcess complete.2, complete.1.payload,
            complete.1.bounded⟩
      · exact List.forall_mem_nil _

/-- Nothing is handed to the parser and the handler but what stands at a point of parsing. -/
theorem loopRead_congr {World : Type}
    {process other : World → Message → Option (List UInt8) → PacketOutcome × World}
    {events : PollEvents} {answers : List RecvAnswer} {reception : Reception} {world : World}
    (same : ∀ reader, .parse reader ∈ readPoints events answers reception →
      process world reader.packet reader.inPayload = other world reader.packet reader.inPayload) :
    loopRead process events answers reception world =
      loopRead other events answers reception world := by
  unfold readPoints at same
  unfold loopRead
  split
  · rfl
  · rename_i noHup
    rw [if_neg noHup] at same
    split
    · rfl
    · rename_i noErr
      rw [if_neg noErr] at same
      split
      · rename_i isIn
        rw [if_pos isIn] at same
        cases control : readControl answers reception with
        | returns value after => rfl
        | goesOn rlen answers begun =>
            cases length : readLength rlen answers begun with
            | returns value after => simp only [ReadStage.andThen, length]
            | goesOn rlen answers sized =>
                cases payload : payloadLoop rlen sized answers with
                | returns value after => simp only [ReadStage.andThen, length, payload]
                | goesOn rlen answers whole =>
                    have parsed := same { whole.reader with inCur := 0, remainingCount := 0 }
                      (by simp [control, length, payload, ReadStage.followedBy])
                    simp only [ReadStage.andThen, length, payload, parsed]
      · rfl

theorem SlotReader.handled {reader : Reader} (complete : ¬ reader.inToProcess > 0)
    (parser : Parser) :
    SlotReader
      { reader with
        inParser := parser
        inPacket := none
        inPayload := none
        inCur := 0
        remainingCount := 0 } := by
  have done : reader.inToProcess = 0 :=
    UInt32.toNat_inj.mp (Nat.eq_zero_of_not_pos fun positive =>
      complete (UInt32.lt_iff_toNat_lt.mpr positive))
  exact .digits (show InDigits 0 _ from ⟨by decide, rfl, Nat.one_pos, rfl, done, rfl⟩)
    fun typed => absurd rfl typed

theorem loopRead_keeps {World : Type}
    (process : World → Message → Option (List UInt8) → PacketOutcome × World)
    {reception : Reception} (slot : SlotReader reception.reader) (events : PollEvents)
    (answers : List RecvAnswer) (world : World)
    (kept : 0 < (loopRead process events answers reception world).1) :
    SlotReader (loopRead process events answers reception world).2.1.reader := by
  unfold loopRead at kept ⊢
  split
  · exact slot
  · split
    · exact slot
    · split
      · rename_i noHup noErr isIn
        rw [if_neg noHup, if_neg noErr, if_pos isIn] at kept
        have keeps := ((readControl_keeps slot answers).andThen fun rlen answers reception begun =>
          readLength_keeps begun rlen answers).andThen fun rlen answers reception inBytes =>
            payloadLoop_keeps inBytes rlen answers
        simp only at kept ⊢
        generalize ((readControl answers reception).andThen readLength).andThen
          (fun rlen answers reception => payloadLoop rlen reception answers) = stage at keeps kept ⊢
        cases stage with
        | returns value after => exact keeps kept
        | goesOn rlen others after =>
            simp only at kept ⊢
            generalize process world _ _ = processed at kept ⊢
            obtain ⟨outcome, world⟩ := processed
            cases outcome with
            | unparsed parser => exact absurd kept (by simp)
            | handled parser rc =>
                by_cases failed : rc ≠ 0
                · simp only [if_pos failed] at kept
                  exact absurd kept (by simp)
                · simp only [if_neg failed]
                  exact SlotReader.handled keeps.2 parser
      · exact slot

theorem FreshSlot.reader {client : Client} (fresh : FreshSlot client) : client.reader = .zero := by
  induction fresh with
  | zero => rfl
  | cleaned => rfl
  | accepted _ _ induction => exact induction

section Run

variable {World : Type}
  (process : World → Message → Option (List UInt8) → PacketOutcome × World)

theorem readCall_keeps {state : Client × World} (slot : SlotReader state.1.reader)
    (call : ReadCall) : SlotReader (readCall process call state).1.reader := by
  have keeps := @loopRead_keeps World process ⟨state.1.reader, call.memory, call.incoming⟩ slot
    call.events call.answers state.2
  unfold readCall
  simp only
  split
  · exact .zero
  · rename_i positive
    exact keeps (by omega)

theorem readCalls_keeps {state : Client × World} (slot : SlotReader state.1.reader)
    (calls : List ReadCall) : SlotReader (readCalls process state calls).1.reader := by
  induction calls generalizing state with
  | nil => exact slot
  | cons call calls induction => exact induction (readCall_keeps process slot call)

/-- After any calls of `loop_read` for a slot, and at every point of the next one, a payload
is received into its buffer only, no buffer is lost, and the parser gets all the bytes it
is told of. -/
theorem payloadBuffer_safe (client : Client) (fresh : FreshSlot client) (world : World)
    (calls : List ReadCall) (call : ReadCall) :
    (readCalls process (client, world) calls).1.reader.InBuffer ∧
      ∀ point ∈ readPoints call.events call.answers
        ⟨(readCalls process (client, world) calls).1.reader, call.memory, call.incoming⟩,
        point.Safe := by
  have slot := @readCalls_keeps World process (client, world)
    (show SlotReader client.reader from fresh.reader ▸ .zero) calls
  exact ⟨slot.inBuffer, readPoints_safe slot call.events call.answers⟩

end Run

/-- The rest of a payload, after a call that received its first byte only. -/
theorem payloadBuffer_safe_rest :
    (readCalls (fun (_ : Unit) _ _ => (.handled .zero 0, ())) (.zero, ())
      [⟨⟨false, false, true⟩, [.bytes 1, .bytes 1, .bytes 1, .again], [0x30, 2, 7, 8],
        ⟨fun _ => true, fun _ => 0, 0⟩⟩]).1.reader.InBuffer ∧
      ∀ point ∈ readPoints ⟨false, false, true⟩ [.bytes 1]
        ⟨(readCalls (fun (_ : Unit) _ _ => (.handled .zero 0, ())) (.zero, ())
          [⟨⟨false, false, true⟩, [.bytes 1, .bytes 1, .bytes 1, .again], [0x30, 2, 7, 8],
            ⟨fun _ => true, fun _ => 0, 0⟩⟩]).1.reader, ⟨fun _ => true, fun _ => 0, 0⟩, [8]⟩,
        point.Safe :=
  payloadBuffer_safe (fun (_ : Unit) _ _ => (.handled .zero 0, ())) .zero .zero ()
    [⟨⟨false, false, true⟩, [.bytes 1, .bytes 1, .bytes 1, .again], [0x30, 2, 7, 8],
      ⟨fun _ => true, fun _ => 0, 0⟩⟩]
    ⟨⟨false, false, true⟩, [.bytes 1], [8], ⟨fun _ => true, fun _ => 0, 0⟩⟩

end MuMQ
