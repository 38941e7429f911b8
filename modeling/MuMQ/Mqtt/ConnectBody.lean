import MuMQ.Mqtt.ConnectParse
import MuMQ.Mqtt.Encoding

namespace MuMQ

open Data

/-! Reading back the body of a CONNECT that `mqtt_serialiser_write` wrote. -/

/-- A string of at most 65535 bytes, all of them there. -/
structure WholeString (name : MqttBuffer) : Prop where
  bounded : name.length.toNat ≤ 65535
  whole : name.bytes.length = name.length.toNat

/-- Two strings with the same bytes, wherever these stand. -/
structure SameString (parsed original : MqttBuffer) : Prop where
  length : parsed.length = original.length
  bytes : parsed.bytes = original.bytes

/-- A string that is there under a flag, and empty otherwise. -/
def OptionalString (follows : UInt8) (name : MqttBuffer) : Prop :=
  if follows ≠ 0 then WholeString name else name.length = 0

/-- A string that is there under a flag keeps its length. -/
def OptionalKept (follows : UInt8) (name : MqttBuffer) : Prop :=
  follows ≠ 0 → LengthKept name.length.toNat

instance (follows : UInt8) (name : MqttBuffer) : Decidable (OptionalKept follows name) :=
  inferInstanceAs (Decidable (_ → _))

section Positions

variable {data before after : List UInt8} (bounded : data.length < 2 ^ 64)
include bounded

private theorem room (split : data = before ++ after) :
    sizeSub data.length before.length = after.length := by
  rw [sizeSub_of_le (by rw [split, List.length_append]; omega) bounded, split,
    List.length_append]
  omega

theorem readByte_at {byte : UInt8} (split : data = before ++ byte :: after) :
    readByte (some data) data.length before.length =
      .field byte (before ++ [byte]).length := by
  have there : byteAt (some data) before.length = some byte := by
    simp [byteAt, split]
  have enough : ¬ sizeSub data.length before.length < 1 := by
    rw [room bounded split, List.length_cons]
    omega
  rw [readByte, if_neg enough, there]
  simp

theorem readPair_at {high low : UInt8} (split : data = before ++ high :: low :: after) :
    readPair (some data) data.length before.length =
      .field (high, low) (before ++ [high, low]).length := by
  have highThere : byteAt (some data) before.length = some high := by
    simp [byteAt, split]
  have lowThere : byteAt (some data) (before.length + 1) = some low := by
    simp [byteAt, split]
  have enough : ¬ sizeSub data.length before.length < 2 := by
    rw [room bounded split, List.length_cons, List.length_cons]
    omega
  rw [readPair, if_neg enough, highThere, lowThere]
  simp

/-- A string reads back as the same string exactly when its length bytes say its
length, and then the cursor is behind it. -/
theorem readString_at_iff {name parsed : MqttBuffer} {nread : Nat}
    (string : WholeString name) (split : data = before ++ (stringBytes name ++ after)) :
    readString (some data) data.length before.length = .field parsed nread ∧
        SameString parsed name ↔
      LengthKept name.length.toNat ∧ parsed = ⟨name.length, some (name.bytes ++ after)⟩ ∧
        nread = (before ++ stringBytes name).length := by
  have kept := lengthBytes_iff string.bounded
  have parts : data = before ++ (name.length / 0xff).toUInt8 ::
      (name.length &&& 0xff).toUInt8 :: (name.bytes ++ after) := split
  generalize highEq : (name.length / 0xff).toUInt8 = high at kept parts
  generalize lowEq : (name.length &&& 0xff).toUInt8 = low at kept parts
  have highThere : byteAt (some data) before.length = some high := by
    simp [byteAt, parts]
  have lowThere : byteAt (some data) (before.length + 1) = some low := by
    simp [byteAt, parts]
  have behind : data.drop (before.length + 2) = name.bytes ++ after := by
    rw [parts, List.drop_append]
    simp
  have space := room bounded split
  have enough : ¬ sizeSub data.length before.length < 2 := by
    rw [space, List.length_append, length_stringBytes string.whole]
    omega
  have spaceBehind : sizeSub (sizeSub data.length before.length) 2 =
      name.length.toNat + after.length := by
    have total : (stringBytes name ++ after).length =
        2 + name.length.toNat + after.length := by
      rw [List.length_append, length_stringBytes string.whole]
    have fits : (stringBytes name ++ after).length ≤ data.length := by
      rw [split]
      simp
    rw [space, sizeSub_of_le (by omega) (by omega)]
    omega
  rw [readString, if_neg enough, highThere, lowThere, spaceBehind, ← kept]
  simp only [Option.map_some, behind, List.length_append,
    length_stringBytes string.whole]
  constructor
  · rintro ⟨read, same⟩
    split at read
    · cases read
    · cases read
      have small := string.bounded
      have exact := congrArg UInt32.toNat same.length
      have highSmall := high.toNat_lt
      have lowSmall := low.toNat_lt
      rw [UInt32.toNat_ofNat_of_lt' (by
        show high.toNat * 256 + low.toNat < 2 ^ 32
        omega)] at exact
      exact ⟨exact, by rw [exact, UInt32.ofNat_toNat], by omega⟩
  · rintro ⟨exact, rfl, rfl⟩
    rw [exact, if_neg (by omega), UInt32.ofNat_toNat]
    refine ⟨rfl, rfl, ?_⟩
    rw [MqttBuffer.bytes, Option.getD_some, ← string.whole, List.take_left]

theorem readOptional_at_iff {follows : UInt8} {name parsed : MqttBuffer} {nread : Nat}
    (string : OptionalString follows name)
    (split : data = before ++ (optionalBytes follows (stringBytes name) ++ after)) :
    readOptional follows (some data) data.length before.length = .field parsed nread ∧
        SameString parsed name ↔
      OptionalKept follows name ∧
        parsed = (if follows ≠ 0 then ⟨name.length, some (name.bytes ++ after)⟩
          else .empty) ∧
        nread = (before ++ optionalBytes follows (stringBytes name)).length := by
  unfold OptionalString at string
  unfold readOptional OptionalKept
  unfold optionalBytes at split ⊢
  by_cases present : follows ≠ 0
  · rw [if_pos present] at string split
    rw [if_pos present, if_pos present, if_pos present]
    rw [readString_at_iff bounded string split, forall_prop_of_true present]
  · rw [if_neg present] at string
    rw [if_neg present, if_neg present, if_neg present, List.append_nil]
    constructor
    · rintro ⟨read, _⟩
      cases read
      exact ⟨fun follows => absurd follows present, rfl, rfl⟩
    · rintro ⟨_, rfl, rfl⟩
      refine ⟨rfl, string.symm, ?_⟩
      have noBytes : name.bytes = [] := by
        rw [MqttBuffer.bytes, string]
        exact List.take_zero
      rw [noBytes]
      rfl

end Positions

/-! The whole body. -/

/-- The six flags of a CONNECT are 0 or 1, the QoS of the will at most 2, and
there is nothing about the will without one. -/
structure WholeFlags (flags : ConnectFlags) : Prop where
  usernameFollows : flags.usernameFollows ≤ 1
  passwordFollows : flags.passwordFollows ≤ 1
  willRetain : flags.willRetain ≤ 1
  willQos : flags.willQos ≤ 2
  will : flags.will ≤ 1
  cleanSession : flags.cleanSession ≤ 1
  noWill : flags.will = 0 → flags.willQos = 0 ∧ flags.willRetain = 0

structure WholeConnect (connect : ConnectFields) : Prop where
  protocolName : WholeString connect.protocolName
  flags : WholeFlags connect.flags
  clientId : WholeString connect.clientId
  willTopic : OptionalString connect.flags.will connect.willTopic
  willMessage : OptionalString connect.flags.will connect.willMessage
  username : OptionalString connect.flags.usernameFollows connect.username
  password : OptionalString connect.flags.passwordFollows connect.password

/-- Equal fields, the strings by their bytes. -/
structure SameConnect (parsed original : ConnectFields) : Prop where
  protocolName : SameString parsed.protocolName original.protocolName
  protocolVersion : parsed.protocolVersion = original.protocolVersion
  flags : parsed.flags = original.flags
  keepAlive : parsed.keepAlive = original.keepAlive
  clientId : SameString parsed.clientId original.clientId
  willTopic : SameString parsed.willTopic original.willTopic
  willMessage : SameString parsed.willMessage original.willMessage
  username : SameString parsed.username original.username
  password : SameString parsed.password original.password

/-- Every string that is there keeps its length, and the QoS of the will is the one
the parser makes of the retain flag. -/
structure KeptConnect (connect : ConnectFields) : Prop where
  protocolName : LengthKept connect.protocolName.length.toNat
  willQos : connect.flags.willQos = 2 * connect.flags.willRetain
  clientId : LengthKept connect.clientId.length.toNat
  willTopic : OptionalKept connect.flags.will connect.willTopic
  willMessage : OptionalKept connect.flags.will connect.willMessage
  username : OptionalKept connect.flags.usernameFollows connect.username
  password : OptionalKept connect.flags.passwordFollows connect.password

theorem flag_cases {flag : UInt8} (small : flag ≤ 1) : flag = 0 ∨ flag = 1 := by
  have order := UInt8.le_iff_toNat_le.mp small
  rw [UInt8.toNat_one] at order
  rcases Nat.le_one_iff_eq_zero_or_eq_one.mp order with zero | one
  · exact .inl (UInt8.toNat_inj.mp zero)
  · exact .inr (UInt8.toNat_inj.mp one)

theorem qos_cases {qos : UInt8} (small : qos ≤ 2) :
    qos = 0 ∨ qos = 1 ∨ qos = 2 := by
  have order : qos.toNat ≤ 2 := UInt8.le_iff_toNat_le.mp small
  have cases : qos.toNat = 0 ∨ qos.toNat = 1 ∨ qos.toNat = 2 := by omega
  rcases cases with zero | one | two
  · exact .inl (UInt8.toNat_inj.mp zero)
  · exact .inr (.inl (UInt8.toNat_inj.mp one))
  · exact .inr (.inr (UInt8.toNat_inj.mp two))

/-- The flags byte reads back but for the QoS of the will. -/
theorem connectFlagsOf_connectFlagsByte {flags : ConnectFlags} (whole : WholeFlags flags) :
    connectFlagsOf (connectFlagsByte flags) =
      { flags with willQos := 2 * flags.willRetain } := by
  obtain ⟨username, password, willRetain, willQos, will, cleanSession⟩ := flags
  obtain ⟨username, password, willRetain, willQos, will, cleanSession, _⟩ := whole
  rcases flag_cases username with rfl | rfl <;>
  rcases flag_cases password with rfl | rfl <;>
  rcases flag_cases willRetain with rfl | rfl <;>
  rcases qos_cases willQos with rfl | rfl | rfl <;>
  rcases flag_cases will with rfl | rfl <;>
  rcases flag_cases cleanSession with rfl | rfl <;>
  decide

theorem wordOfBytes_bytes (word : UInt16) :
    wordOfBytes (word >>> 8).toUInt8 (word &&& 0xff).toUInt8 = word := by
  apply UInt16.toNat_inj.mp
  have bounded := word.toNat_lt
  simp only [wordOfBytes, UInt16.toNat_add, UInt16.toNat_shiftLeft, UInt8.toNat_toUInt16,
    UInt16.toNat_toUInt8, UInt16.toNat_shiftRight, UInt16.toNat_and,
    UInt16.reduceToNat, Data.and_255_eq, Nat.reduceMod, Nat.shiftLeft_eq,
    Nat.shiftRight_eq_div_pow]
  omega

theorem optionalBytes_append (follows : UInt8) (left right : List UInt8) :
    optionalBytes follows (left ++ right) =
      optionalBytes follows left ++ optionalBytes follows right := by
  unfold optionalBytes
  split <;> rfl

theorem connectBody_eq (connect : ConnectFields) :
    connectBody connect =
      stringBytes connect.protocolName ++
        connect.protocolVersion :: connectFlagsByte connect.flags ::
          ([(connect.keepAlive >>> 8).toUInt8, (connect.keepAlive &&& 0xff).toUInt8] ++
            (stringBytes connect.clientId ++
              (optionalBytes connect.flags.will (stringBytes connect.willTopic) ++
                (optionalBytes connect.flags.will (stringBytes connect.willMessage) ++
                  (optionalBytes connect.flags.usernameFollows
                      (stringBytes connect.username) ++
                    (optionalBytes connect.flags.passwordFollows
                      (stringBytes connect.password) ++ [])))))) := by
  simp [connectBody, optionalBytes_append]

/-- The size of the body of a CONNECT. -/
def connectLength (connect : ConnectFields) : Nat :=
  let len := 8 + connect.protocolName.length.toNat + connect.clientId.length.toNat
  let len :=
    if connect.flags.usernameFollows ≠ 0 then len + 2 + connect.username.length.toNat
    else len
  let len :=
    if connect.flags.passwordFollows ≠ 0 then len + 2 + connect.password.length.toNat
    else len
  if connect.flags.will ≠ 0 then
    len + 4 + connect.willTopic.length.toNat + connect.willMessage.length.toNat
  else len

theorem length_optionalString {follows : UInt8} {name : MqttBuffer}
    (whole : follows ≠ 0 → name.bytes.length = name.length.toNat) :
    (optionalBytes follows (stringBytes name)).length =
      if follows ≠ 0 then 2 + name.length.toNat else 0 := by
  unfold optionalBytes
  by_cases present : follows ≠ 0
  · rw [if_pos present, if_pos present, length_stringBytes (whole present)]
  · rw [if_neg present, if_neg present, List.length_nil]

theorem length_connectBody {connect : ConnectFields}
    (protocolName : connect.protocolName.bytes.length = connect.protocolName.length.toNat)
    (clientId : connect.clientId.bytes.length = connect.clientId.length.toNat)
    (willTopic : connect.flags.will ≠ 0 →
      connect.willTopic.bytes.length = connect.willTopic.length.toNat)
    (willMessage : connect.flags.will ≠ 0 →
      connect.willMessage.bytes.length = connect.willMessage.length.toNat)
    (username : connect.flags.usernameFollows ≠ 0 →
      connect.username.bytes.length = connect.username.length.toNat)
    (password : connect.flags.passwordFollows ≠ 0 →
      connect.password.bytes.length = connect.password.length.toNat) :
    (connectBody connect).length = connectLength connect := by
  rw [connectBody_eq, connectLength]
  simp only [List.length_append, List.length_cons, List.length_nil,
    length_stringBytes protocolName, length_stringBytes clientId,
    length_optionalString willTopic, length_optionalString willMessage,
    length_optionalString username, length_optionalString password]
  by_cases will : connect.flags.will = 0 <;>
  by_cases username : connect.flags.usernameFollows = 0 <;>
  by_cases password : connect.flags.passwordFollows = 0 <;>
  simp only [will, username, password, ne_eq, not_true_eq_false, not_false_eq_true,
    if_true, if_false] <;>
  omega

theorem OptionalString.whole {follows : UInt8} {name : MqttBuffer}
    (string : OptionalString follows name) (present : follows ≠ 0) :
    name.bytes.length = name.length.toNat := by
  rw [OptionalString, if_pos present] at string
  exact WholeString.whole string

theorem OptionalString.length_bytes {follows : UInt8} {name : MqttBuffer}
    (string : OptionalString follows name) :
    (optionalBytes follows (stringBytes name)).length =
      if follows ≠ 0 then 2 + name.length.toNat else 0 :=
  length_optionalString string.whole

theorem WholeConnect.length_body {connect : ConnectFields} (whole : WholeConnect connect) :
    (connectBody connect).length = connectLength connect :=
  length_connectBody whole.protocolName.whole whole.clientId.whole whole.willTopic.whole
    whole.willMessage.whole whole.username.whole whole.password.whole

theorem OptionalString.length_bytes_le {follows : UInt8} {name : MqttBuffer}
    (string : OptionalString follows name) :
    (optionalBytes follows (stringBytes name)).length ≤ 65537 := by
  rw [string.length_bytes]
  unfold OptionalString at string
  split at string
  · rename_i present
    have bounded := string.bounded
    rw [if_pos present]
    omega
  · rename_i absent
    rw [if_neg absent]
    omega

theorem WholeConnect.length_body_le {connect : ConnectFields}
    (whole : WholeConnect connect) : (connectBody connect).length ≤ 268435455 := by
  have protocolName := whole.protocolName.bounded
  have clientId := whole.clientId.bounded
  have willTopic := whole.willTopic.length_bytes_le
  have willMessage := whole.willMessage.length_bytes_le
  have username := whole.username.length_bytes_le
  have password := whole.password.length_bytes_le
  rw [connectBody_eq]
  simp only [List.length_append, List.length_cons, List.length_nil,
    length_stringBytes whole.protocolName.whole, length_stringBytes whole.clientId.whole]
  omega

/-- The parser gets all fields back exactly when all strings keep their lengths and
the QoS of the will is the one it makes of the retain flag. -/
theorem connectReads_iff {connect : ConnectFields} (whole : WholeConnect connect) :
    (∃ parsed, ConnectReads (some (connectBody connect)) (connectBody connect).length
        parsed (connectBody connect).length ∧ SameConnect parsed connect) ↔
      KeptConnect connect := by
  have small := whole.length_body_le
  have atName := connectBody_eq connect
  generalize bodyEq : connectBody connect = body at small atName ⊢
  have bounded : body.length < 2 ^ 64 := by omega
  have atStart := atName.trans (List.nil_append _).symm
  have atVersion := atName
  have atFlags := atVersion.trans (List.append_cons _ _ _)
  have atKeepAlive := atFlags.trans (List.append_cons _ _ _)
  have atClientId := atKeepAlive.trans (List.append_assoc _ _ _).symm
  have atWillTopic := atClientId.trans (List.append_assoc _ _ _).symm
  have atWillMessage := atWillTopic.trans (List.append_assoc _ _ _).symm
  have atUsername := atWillMessage.trans (List.append_assoc _ _ _).symm
  have atPassword := atUsername.trans (List.append_assoc _ _ _).symm
  have atEnd := atPassword.trans (List.append_assoc _ _ _).symm
  constructor
  · rintro ⟨parsed, reads, same⟩
    obtain ⟨readName, readVersion, readFlags, flagsEq, readKeepAlive, keepAliveEq,
      readClientId, readWillTopic, readWillMessage, readUsername, readPassword⟩ := reads
    obtain ⟨nameKept, _, rfl⟩ :=
      (readString_at_iff bounded whole.protocolName atStart).mp
        ⟨readName, same.protocolName⟩
    obtain ⟨_, rfl⟩ :=
      FieldRead.field.inj (readVersion.symm.trans (readByte_at bounded atVersion))
    obtain ⟨rfl, rfl⟩ :=
      FieldRead.field.inj (readFlags.symm.trans (readByte_at bounded atFlags))
    obtain ⟨rfl, rfl⟩ :=
      FieldRead.field.inj (readKeepAlive.symm.trans (readPair_at bounded atKeepAlive))
    obtain ⟨clientIdKept, _, rfl⟩ :=
      (readString_at_iff bounded whole.clientId atClientId).mp
        ⟨readClientId, same.clientId⟩
    rw [same.flags] at readWillTopic readWillMessage readUsername readPassword
    obtain ⟨willTopicKept, _, rfl⟩ :=
      (readOptional_at_iff bounded whole.willTopic atWillTopic).mp
        ⟨readWillTopic, same.willTopic⟩
    obtain ⟨willMessageKept, _, rfl⟩ :=
      (readOptional_at_iff bounded whole.willMessage atWillMessage).mp
        ⟨readWillMessage, same.willMessage⟩
    obtain ⟨usernameKept, _, rfl⟩ :=
      (readOptional_at_iff bounded whole.username atUsername).mp
        ⟨readUsername, same.username⟩
    obtain ⟨passwordKept, _, _⟩ :=
      (readOptional_at_iff bounded whole.password atPassword).mp
        ⟨readPassword, same.password⟩
    have flags : connect.flags = { connect.flags with
        willQos := 2 * connect.flags.willRetain } := by
      rw [← connectFlagsOf_connectFlagsByte whole.flags, ← flagsEq, same.flags]
    exact ⟨nameKept, congrArg ConnectFlags.willQos flags, clientIdKept, willTopicKept,
      willMessageKept, usernameKept, passwordKept⟩
  · intro kept
    have readName :=
      (readString_at_iff bounded whole.protocolName atStart).mpr
        ⟨kept.protocolName, rfl, rfl⟩
    have readClientId := (readString_at_iff bounded whole.clientId atClientId).mpr
      ⟨kept.clientId, rfl, rfl⟩
    have readWillTopic := (readOptional_at_iff bounded whole.willTopic atWillTopic).mpr
      ⟨kept.willTopic, rfl, rfl⟩
    have readWillMessage :=
      (readOptional_at_iff bounded whole.willMessage atWillMessage).mpr
        ⟨kept.willMessage, rfl, rfl⟩
    have readUsername := (readOptional_at_iff bounded whole.username atUsername).mpr
      ⟨kept.username, rfl, rfl⟩
    have readPassword := (readOptional_at_iff bounded whole.password atPassword).mpr
      ⟨kept.password, rfl, rfl⟩
    have flags : connect.flags = connectFlagsOf (connectFlagsByte connect.flags) := by
      rw [connectFlagsOf_connectFlagsByte whole.flags, ← kept.willQos]
    have whole : body.length = _ := congrArg List.length atEnd
    rw [List.append_nil] at whole
    refine ⟨⟨_, connect.protocolVersion, connect.flags, connect.keepAlive, _, _, _, _, _⟩,
      ?_, ⟨readName.2, rfl, rfl, rfl, readClientId.2, readWillTopic.2, readWillMessage.2,
        readUsername.2, readPassword.2⟩⟩
    exact ⟨readName.1, readByte_at bounded atVersion, readByte_at bounded atFlags, flags,
      readPair_at bounded atKeepAlive, (wordOfBytes_bytes connect.keepAlive).symm,
      readClientId.1, readWillTopic.1, readWillMessage.1, readUsername.1,
      readPassword.1.trans (congrArg _ whole.symm)⟩

end MuMQ
