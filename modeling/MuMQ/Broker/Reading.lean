import MuMQ.Broker.Framing

namespace MuMQ

open Data

/-! Repeated calls of `loop_read` hand on the packets of the stream, however its
bytes arrive. -/

private theorem stages_atRest {reception : Reception} (atRest : AtRest reception.reader)
    (unfailing : reception.memory.Unfailing) {answers : List RecvAnswer}
    (undisturbed : Undisturbed answers) :
    StageOutcome (Eager answers reception.incoming) [] reception.incoming
      (((readControl answers reception).andThen readLength).andThen
        fun rlen answers reception => payloadLoop rlen reception answers) := by
  rcases readControl_atRest atRest unfailing undisturbed with
    ⟨after, returned, idle, incoming, stillUnfailing, stillAtRest⟩ |
    ⟨control, rlen, others, after, wentOn, split, stillUnfailing, undisturbed,
      inLength⟩
  · rw [returned]
    exact .waits [] (by rw [incoming]; rfl)
      (fun eager => absurd eager idle) (.rest stillAtRest) stillUnfailing
  · rw [wentOn]
    have further := stages_inLength inLength stillUnfailing undisturbed rlen
    exact StageOutcome.after_more further (List.cons_ne_nil _ []) split

/-- The three stages of one call, from any point in a packet.  A packet of type 0 is
resumed as if nothing of it were there. -/
theorem stages_midway {reception : Reception} {part : List UInt8}
    (midway : Midway reception.reader part) (unfailing : reception.memory.Unfailing)
    {answers : List RecvAnswer} (undisturbed : Undisturbed answers)
    (typed : TypedFront part) :
    StageOutcome (Eager answers reception.incoming) part reception.incoming
      (((readControl answers reception).andThen readLength).andThen
        fun rlen answers reception => payloadLoop rlen reception answers) := by
  cases midway with
  | rest atRest => exact stages_atRest atRest unfailing undisturbed
  | length inLength =>
      rw [readControl_midway inLength.packet (typed _ rfl)]
      exact stages_inLength inLength unfailing undisturbed (-1)
  | payload inPayload short =>
      rw [readControl_midway inPayload.packet (typed _ rfl)]
      simp only [ReadStage.andThen, readLength, if_neg inPayload.count]
      exact stages_inPayload _ inPayload unfailing undisturbed (fun whole => by omega)

section Calls

variable {World : Type}
variable (process : World → Message → Option (List UInt8) → PacketOutcome × World)

/-- What one call does with a packet of which `part` is there already. -/
inductive CallOutcome (eager : Prop) (part incoming : List UInt8) (world : World) :
    Int × Reception × World → Prop
  | waits {value : Int} {after : Reception} (more : List UInt8)
      (split : incoming = more ++ after.incoming)
      (moved : eager → more ≠ [])
      (midway : Midway after.reader (part ++ more))
      (unfailing : after.memory.Unfailing) (positive : 0 < value) :
      CallOutcome eager part incoming world (value, after, world)
  | overlong {value : Int} {after : Reception} (more : List UInt8)
      (split : incoming = more ++ after.incoming)
      (malformed : ∀ rest, nextFrame (part ++ more ++ rest) = .malformed)
      (ended : value = -1) :
      CallOutcome eager part incoming world (value, after, world)
  | accepted {value : Int} {after : Reception} (more : List UInt8) (frame : WireFrame)
      (split : incoming = more ++ after.incoming)
      (whole : ∀ rest, nextFrame (part ++ more ++ rest) = .item frame rest)
      (handled : handleFrame process world frame = (true, world'))
      (atRest : AtRest after.reader) (unfailing : after.memory.Unfailing)
      (positive : 0 < value) :
      CallOutcome eager part incoming world (value, after, world')
  | refused {value : Int} {after : Reception} (more : List UInt8) (frame : WireFrame)
      (split : incoming = more ++ after.incoming)
      (whole : ∀ rest, nextFrame (part ++ more ++ rest) = .item frame rest)
      (handled : handleFrame process world frame = (false, world'))
      (ended : value = -1) :
      CallOutcome eager part incoming world (value, after, world')

theorem loopRead_outcome {reception : Reception} {part : List UInt8}
    (midway : Midway reception.reader part) (unfailing : reception.memory.Unfailing)
    {answers : List RecvAnswer} (undisturbed : Undisturbed answers)
    (typed : TypedFront part) (world : World) :
    CallOutcome process (Eager answers reception.incoming) part reception.incoming world
      (loopRead process ⟨false, false, true⟩ answers reception world) := by
  have outcome := stages_midway midway unfailing undisturbed typed
  unfold loopRead
  simp only [Bool.false_eq_true, if_false, if_true]
  generalize ((readControl answers reception).andThen readLength).andThen
    (fun rlen answers reception => payloadLoop rlen reception answers) = stage
    at outcome ⊢
  cases outcome with
  | waits more split moved midway unfailing =>
      exact .waits more split moved midway unfailing (by decide)
  | overlong more split malformed => exact .overlong more split malformed rfl
  | @packet after rlen others more frame split whole message payload processed positive
      unfailing =>
      rw [Reader.packet] at message
      simp only [Reader.packet, message, payload]
      rcases outcome : process world frame.message frame.inPayload with
        ⟨_ | ⟨parser, rc⟩, world'⟩
      · refine .refused more frame split whole ?_ rfl
        rw [handleFrame, outcome]
      · simp only
        split
        · rename_i nonzero
          refine .refused more frame split whole ?_ rfl
          rw [handleFrame, outcome]
          simp [nonzero]
        · rename_i zero
          refine .accepted more frame split whole ?_ ⟨rfl, rfl, rfl, processed, rfl⟩ unfailing
            positive
          rw [handleFrame, outcome]
          simpa using zero

/-- The first `recv` of a call is answered with bytes. -/
def BeginsWithBytes (answers : List RecvAnswer) : Prop :=
  ∃ count others, answers = .bytes count :: others

/-- From any point in a packet, the calls hand on the packets that stand in the
received bytes, and close the connection where one of them is refused or the
length is too long.  Calls that each begin with bytes get to the end. -/
private theorem loopReads_midway {calls : List (List RecvAnswer)}
    (reception : Reception) (undisturbed : ∀ answers ∈ calls, Undisturbed answers)
    {part : List UInt8} (midway : Midway reception.reader part)
    (unfailing : reception.memory.Unfailing)
    (typed : mqttFraming.AtBoundaries TypedFront (part ++ reception.incoming))
    (world : World) :
    let result := loopReads process calls reception world
    ∃ taken, reception.incoming = taken ++ result.2.1.incoming ∧
      mqttFraming.deliver (handleFrame process) world (part ++ taken) =
        (result.1, result.2.2) ∧
      (result.1 = false →
        mqttFraming.deliver (handleFrame process) world
          (part ++ reception.incoming) = (false, result.2.2)) ∧
      ((∀ answers ∈ calls, BeginsWithBytes answers) →
        reception.incoming.length ≤ calls.length → result.1 = true →
        result.2.1.incoming = []) := by
  induction calls generalizing reception part world with
  | nil =>
      refine ⟨[], rfl, ?_, (fun closed => by cases closed), ?_⟩
      · rw [List.append_nil]
        exact Framing.deliver_incomplete midway.incomplete
      · intro _ enough _
        exact List.length_eq_zero_iff.mp (Nat.le_zero.mp enough)
  | cons answers calls induction =>
      have front : TypedFront part := by
        intro control head
        refine typed.here control ?_
        rw [List.head?_append, Option.mem_def.mp head]
        rfl
      have outcome := loopRead_outcome process midway unfailing
        (undisturbed answers (by simp)) front world
      have later : ∀ answers ∈ calls, Undisturbed answers :=
        fun answers member => undisturbed answers (by simp [member])
      simp only [loopReads]
      generalize loopRead process ⟨false, false, true⟩ answers reception world = result
        at outcome ⊢
      cases outcome with
      | @waits value after more split moved midway unfailing positive =>
          rw [split, ← List.append_assoc] at typed
          obtain ⟨taken, rest, delivered, closed, finished⟩ :=
            induction _ later midway unfailing typed world
          simp only [if_neg (Int.not_le.mpr positive)]
          refine ⟨more ++ taken, ?_, ?_, ?_, ?_⟩
          · rw [split, List.append_assoc, ← rest]
          · rw [← List.append_assoc]
            exact delivered
          · rw [split, ← List.append_assoc]
            exact closed
          · intro begin enough
            refine finished (fun answers member => begin answers (by simp [member])) ?_
            have lengths := congrArg List.length split
            rw [List.length_append] at lengths
            rw [List.length_cons] at enough
            by_cases empty : reception.incoming = []
            · rw [empty] at lengths
              simp only [List.length_nil] at lengths
              omega
            · have some := List.length_pos_iff.mpr
                (moved ⟨empty, begin answers (by simp)⟩)
              omega
      | @overlong value after more split malformed ended =>
          simp only [if_pos (by omega : value ≤ 0)]
          refine ⟨more, split, ?_, fun _ => ?_, fun _ _ opened => by cases opened⟩
          · have here := malformed []
            rw [List.append_nil] at here
            exact Framing.deliver_malformed here
          · rw [split, ← List.append_assoc]
            exact Framing.deliver_malformed (malformed _)
      | @accepted world' value after more frame split whole handled atRest unfailing
          positive =>
          rw [split, ← List.append_assoc] at typed
          have behind := typed.behind (whole _)
          obtain ⟨taken, rest, delivered, closed, finished⟩ :=
            induction _ later (.rest atRest) unfailing behind world'
          simp only [if_neg (Int.not_le.mpr positive)]
          refine ⟨more ++ taken, ?_, ?_, ?_, ?_⟩
          · rw [split, List.append_assoc, ← rest]
          · rw [← List.append_assoc, Framing.deliver_item (whole taken), handled]
            exact delivered
          · rw [split, ← List.append_assoc,
              Framing.deliver_item (whole after.incoming), handled]
            exact closed
          · intro begin enough
            refine finished (fun answers member => begin answers (by simp [member])) ?_
            have some : more ≠ [] := by
              -- a packet is not whole before its last byte is there
              rintro rfl
              have unfinished := whole []
              rw [List.append_nil, List.append_nil, midway.incomplete] at unfinished
              cases unfinished
            have lengths := congrArg List.length split
            have positiveLength := List.length_pos_iff.mpr some
            rw [List.length_append] at lengths
            rw [List.length_cons] at enough
            omega
      | @refused world' value after more frame split whole handled ended =>
          simp only [if_pos (by omega : value ≤ 0)]
          refine ⟨more, split, ?_, fun _ => ?_, fun _ _ opened => by cases opened⟩
          · have here := whole []
            rw [List.append_nil] at here
            rw [Framing.deliver_item here, handled]
          · rw [split, ← List.append_assoc, Framing.deliver_item (whole _), handled]

/-- `process`, with a record of the messages and payloads it is handed. -/
def recording (state : World × List (Message × Option (List UInt8)))
    (message : Message) (payload : Option (List UInt8)) :
    PacketOutcome × World × List (Message × Option (List UInt8)) :=
  let (outcome, world) := process state.1 message payload
  (outcome, world, state.2 ++ [(message, payload)])

end Calls

theorem atRest_zero : AtRest Reader.zero := ⟨rfl, rfl, rfl, rfl, rfl⟩

/-- A PINGREQ and a PUBLISH of one byte to the topic `a`. -/
def twoPackets : List UInt8 := [0xc0, 0x00, 0x30, 0x04, 0x00, 0x01, 0x61, 0x07]

/-- Seven calls, none of which brings more than two bytes. -/
def slowly : List (List RecvAnswer) :=
  [[.bytes 1], [.again], [.bytes 1], [.bytes 1, .bytes 1, .bytes 2, .again],
    [.bytes 1, .again], [], [.bytes 1]]

/-- A handler that accepts every packet and counts them. -/
def counting (count : Nat) (_ : Message) (_ : Option (List UInt8)) :
    PacketOutcome × Nat :=
  (.handled .zero 0, count + 1)

end MuMQ
