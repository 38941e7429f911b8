import MuMQ.Data.Base128
import MuMQ.Data.Framing
import MuMQ.Mqtt.Message

namespace MuMQ

open Data

/-! The MQTT wire format: packets in a stream, and strings in a packet. -/

/-- A packet on the wire. -/
structure WireFrame where
  control : UInt8
  length : Nat
  payload : List UInt8
  deriving DecidableEq

namespace WireFrame

/-- The message as `loop_read` hands it to the parser. -/
def message (frame : WireFrame) : Message :=
  { mqttParserCommand .zero frame.control with length := UInt32.ofNat frame.length }

/-- The payload pointer that goes with it. -/
def inPayload (frame : WireFrame) : Option (List UInt8) :=
  if frame.length = 0 then none else some frame.payload

end WireFrame

/-- A control byte, one to four bytes of remaining length, and that many bytes. -/
def nextFrame : List UInt8 → Front UInt8 WireFrame
  | [] => .incomplete
  | control :: bytes =>
      match Base128.decode 4 bytes with
      | .value length rest =>
          if length ≤ rest.length then
            .item ⟨control, length, rest.take length⟩ (rest.drop length)
          else .incomplete
      | .incomplete => .incomplete
      | .overlong => .malformed

def mqttFraming : Framing UInt8 WireFrame where
  next := nextFrame
  shorter := by
    intro stream item rest front
    cases stream with
    | nil => cases front
    | cons control bytes =>
        rw [nextFrame] at front
        split at front
        · rename_i length remainder decoded
          split at front
          · cases front
            have shorter := Base128.length_decode decoded
            simp only [List.length_drop, List.length_cons]
            omega
          · cases front
        · cases front
        · cases front

theorem nextFrame_length {control : UInt8} {digits : List UInt8}
    (continued : Base128.Continued digits) (fits : digits.length ≤ 4) :
    nextFrame (control :: digits) = .incomplete := by
  rw [nextFrame, Base128.decode_continued continued fits]

theorem nextFrame_overlong {control digit : UInt8} {digits : List UInt8}
    (continued : Base128.Continued digits) (full : digits.length = 4)
    (rest : List UInt8) :
    nextFrame (control :: (digits ++ digit :: rest)) = .malformed := by
  rw [nextFrame, Base128.decode_overlong digit continued full]

/-- The bytes of a remaining length. -/
structure LengthBytes (bytes : List UInt8) (length : Nat) : Prop where
  decodes : ∀ rest, Base128.decode 4 (bytes ++ rest) = .value length rest
  small : length < 2 ^ 28

theorem LengthBytes.of_last {digits : List UInt8} {digit : UInt8}
    (continued : Base128.Continued digits) (fits : digits.length < 4)
    (last : digit.toNat < 128) :
    LengthBytes (digits ++ [digit]) (Base128.value (digits ++ [digit])) := by
  refine ⟨fun rest => ?_, ?_⟩
  · rw [List.append_assoc, List.singleton_append]
    exact Base128.decode_last continued fits last rest
  · have bounded := Base128.value_lt (digits ++ [digit])
    rw [List.length_append, List.length_singleton] at bounded
    have power : 128 ^ (digits.length + 1) ≤ 128 ^ 4 :=
      Nat.pow_le_pow_right (by omega) (by omega)
    omega

theorem nextFrame_short {control : UInt8} {bytes received : List UInt8}
    {length : Nat} (lengthBytes : LengthBytes bytes length)
    (short : received.length < length) :
    nextFrame (control :: (bytes ++ received)) = .incomplete := by
  rw [nextFrame, lengthBytes.decodes]
  simp only
  rw [if_neg (by omega)]

theorem nextFrame_whole {control : UInt8} {bytes payload : List UInt8}
    {length : Nat} (lengthBytes : LengthBytes bytes length)
    (whole : payload.length = length) (rest : List UInt8) :
    nextFrame (control :: (bytes ++ payload) ++ rest) =
      .item ⟨control, length, payload⟩ rest := by
  rw [List.cons_append, nextFrame, List.append_assoc, lengthBytes.decodes]
  simp only
  rw [if_pos (by rw [List.length_append]; omega), ← whole, List.take_left,
    List.drop_left]

/-- A frame has as many bytes as it says, and the limit of the format holds. -/
theorem nextFrame_bounds {stream rest : List UInt8} {frame : WireFrame}
    (front : nextFrame stream = .item frame rest) :
    frame.payload.length = frame.length ∧ frame.length ≤ 268435455 := by
  cases stream with
  | nil => cases front
  | cons control bytes =>
      rw [nextFrame] at front
      split at front
      · rename_i length remainder decoded
        split at front
        · rename_i enough
          cases front
          have small := Base128.decode_lt decoded
          exact ⟨List.length_take_of_le enough, show length ≤ 268435455 by omega⟩
        · cases front
      · cases front
      · cases front

theorem nextFrame_encode {control : UInt8} {body : List UInt8}
    (bounded : body.length ≤ 268435455) :
    nextFrame (control :: (Base128.encode body.length ++ body)) =
      .item ⟨control, body.length, body⟩ [] := by
  have small : body.length < 128 ^ (3 + 1) := by omega
  rw [nextFrame, Base128.decode_encode 3 body.length body small]
  simp only [Nat.le_refl, if_true, List.take_length, List.drop_length]

/-- A string behind its length in two bytes, the high one first, and the rest. -/
def wireString : List UInt8 → Option (List UInt8 × List UInt8)
  | high :: low :: rest =>
      let length := high.toNat * 256 + low.toNat
      if length ≤ rest.length then some (rest.take length, rest.drop length) else none
  | _ => none

theorem wireString_eq_some_iff {high low : UInt8} {string : List UInt8}
    (rest : List UInt8) :
    wireString (high :: low :: (string ++ rest)) = some (string, rest) ↔
      high.toNat * 256 + low.toNat = string.length := by
  rw [wireString]
  constructor
  · intro read
    split at read
    · obtain ⟨taken, _⟩ := Prod.mk.inj (Option.some.inj read)
      have lengths := congrArg List.length taken
      rw [List.length_take] at lengths
      omega
    · cases read
  · intro exact
    simp only [exact]
    rw [if_pos (by rw [List.length_append]; omega), List.take_left, List.drop_left]

/-- The packet that bytes are, with nothing behind it. -/
def wholeFrame (bytes : List UInt8) : Option WireFrame :=
  match nextFrame bytes with
  | .item frame [] => some frame
  | _ => none

/-- The bytes are one whole QoS 0 PUBLISH of a payload to a topic. -/
def IsPublish (bytes topic payload : List UInt8) : Prop :=
  ∃ frame ∈ wholeFrame bytes,
    frame.control >>> 4 = mqttTypePublish ∧ (frame.control >>> 1) &&& 3 = 0 ∧
    frame.length = frame.payload.length ∧
    wireString frame.payload = some (topic, payload)

instance (bytes topic payload : List UInt8) : Decidable (IsPublish bytes topic payload) :=
  inferInstanceAs (Decidable (∃ _ ∈ _, _))

end MuMQ
