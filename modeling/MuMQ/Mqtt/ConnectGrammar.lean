import MuMQ.Mqtt.Fields
import MuMQ.Mqtt.Resume

namespace MuMQ

/-! The bodies of a CONNECT that the parser accepts. -/

/-- A bit of a byte, the lowest one 0. -/
def bitOf (byte : UInt8) (index : Nat) : Bool := byte.toNat.testBit index

/-- A string that is there under a bit of the flags byte. -/
def prefixedUnder (present : Bool) (string : List UInt8) : List UInt8 :=
  if present then lengthPrefixed string else []

/-- A string short enough for its length bytes, or an empty one in the place of one that is
not there. -/
def ShortUnder (present : Bool) (string : List UInt8) : Prop :=
  if present then string.length ≤ 65535 else string = []

/-- What the body of a CONNECT is made of. -/
structure ConnectParts where
  protocolName : List UInt8
  protocolVersion : UInt8
  flags : UInt8
  keepAlive : UInt16
  clientId : List UInt8
  willTopic : List UInt8
  willMessage : List UInt8
  username : List UInt8
  password : List UInt8

namespace ConnectParts

def body (parts : ConnectParts) : List UInt8 :=
  lengthPrefixed parts.protocolName ++ [parts.protocolVersion] ++ [parts.flags]
    ++ wordBytes parts.keepAlive ++ lengthPrefixed parts.clientId
    ++ prefixedUnder (bitOf parts.flags 2) parts.willTopic
    ++ prefixedUnder (bitOf parts.flags 2) parts.willMessage
    ++ prefixedUnder (bitOf parts.flags 7) parts.username
    ++ prefixedUnder (bitOf parts.flags 6) parts.password

structure Formed (parts : ConnectParts) : Prop where
  protocolName : parts.protocolName.length ≤ 65535
  clientId : parts.clientId.length ≤ 65535
  willTopic : ShortUnder (bitOf parts.flags 2) parts.willTopic
  willMessage : ShortUnder (bitOf parts.flags 2) parts.willMessage
  username : ShortUnder (bitOf parts.flags 7) parts.username
  password : ShortUnder (bitOf parts.flags 6) parts.password

/-- The fields of a CONNECT are these parts, the QoS of the will left out. -/
structure Stored (parts : ConnectParts) (connect : ConnectFields) : Prop where
  protocolName : connect.protocolName.Holds parts.protocolName
  protocolVersion : connect.protocolVersion = parts.protocolVersion
  usernameFollows : connect.flags.usernameFollows = (bitOf parts.flags 7).toUInt8
  passwordFollows : connect.flags.passwordFollows = (bitOf parts.flags 6).toUInt8
  willRetain : connect.flags.willRetain = (bitOf parts.flags 5).toUInt8
  will : connect.flags.will = (bitOf parts.flags 2).toUInt8
  cleanSession : connect.flags.cleanSession = (bitOf parts.flags 1).toUInt8
  keepAlive : connect.keepAlive = parts.keepAlive
  clientId : connect.clientId.Holds parts.clientId
  willTopic : connect.willTopic.Holds parts.willTopic
  willMessage : connect.willMessage.Holds parts.willMessage
  username : connect.username.Holds parts.username
  password : connect.password.Holds parts.password

end ConnectParts

/-! The flags byte. -/

theorem bitOf_eq (byte : UInt8) {index : UInt8} (small : index < 8) :
    (byte >>> index) &&& 0x01 = (bitOf byte index.toNat).toUInt8 := by
  have bounded : index.toNat < 8 := small
  apply UInt8.toNat_inj.mp
  simp only [bitOf, Nat.testBit_eq_decide_div_mod_eq, Bool.toUInt8, UInt8.toNat_and,
    UInt8.toNat_shiftRight, Nat.mod_eq_of_lt bounded, UInt8.toNat_one, Nat.and_one_is_mod,
    Nat.shiftRight_eq_div_pow]
  by_cases set : byte.toNat / 2 ^ index.toNat % 2 = 1
  · rw [decide_eq_true set, set]
    rfl
  · rw [decide_eq_false set, Nat.mod_two_ne_one.mp set]
    rfl

section Flags

variable (byte : UInt8)

theorem connectFlagsOf_usernameFollows :
    (connectFlagsOf byte).usernameFollows = (bitOf byte 7).toUInt8 :=
  bitOf_eq byte (by decide)

theorem connectFlagsOf_passwordFollows :
    (connectFlagsOf byte).passwordFollows = (bitOf byte 6).toUInt8 :=
  bitOf_eq byte (by decide)

theorem connectFlagsOf_willRetain :
    (connectFlagsOf byte).willRetain = (bitOf byte 5).toUInt8 :=
  bitOf_eq byte (by decide)

theorem connectFlagsOf_will : (connectFlagsOf byte).will = (bitOf byte 2).toUInt8 :=
  bitOf_eq byte (by decide)

theorem connectFlagsOf_cleanSession :
    (connectFlagsOf byte).cleanSession = (bitOf byte 1).toUInt8 :=
  bitOf_eq byte (by decide)

end Flags

/-! The reads of a body. -/

/-- What the parser stores of a string that is there under a bit. -/
def bufferUnder (present : Bool) (string after : List UInt8) : MqttBuffer :=
  if present then ⟨UInt32.ofNat string.length, some (string ++ after)⟩ else .empty

theorem ShortUnder.holds {present : Bool} {string after : List UInt8}
    (short : ShortUnder present string) :
    (bufferUnder present string after).Holds string := by
  cases present with
  | false =>
      rw [show string = [] from short]
      exact MqttBuffer.holds_empty
  | true => exact MqttBuffer.holds_append (Nat.lt_of_le_of_lt short (by decide))

theorem readOptional_iff {data before rest : List UInt8} {nread : Nat}
    (bounded : data.length < 2 ^ 64) (split : data = before ++ rest) {present : Bool}
    {parsed : MqttBuffer} :
    readOptional present.toUInt8 (some data) data.length before.length = .field parsed nread ↔
      ∃ string after, ShortUnder present string ∧
        data = before ++ prefixedUnder present string ++ after ∧
        parsed = bufferUnder present string after ∧
        nread = (before ++ prefixedUnder present string).length := by
  cases present with
  | true =>
      simp only [prefixedUnder, ShortUnder, bufferUnder, if_true]
      rw [readOptional, if_pos (by decide)]
      exact readString_iff bounded split
  | false =>
      simp only [prefixedUnder, ShortUnder, bufferUnder, Bool.false_eq_true, if_false]
      rw [readOptional, if_neg (by decide), FieldRead.field.injEq]
      simp only [List.append_nil]
      constructor
      · rintro ⟨rfl, rfl⟩
        exact ⟨[], rest, rfl, split, rfl, rfl⟩
      · rintro ⟨_, _, _, _, rfl, rfl⟩
        exact ⟨rfl, rfl⟩

section Body

variable {data : List UInt8} (bounded : data.length < 2 ^ 64)
include bounded

/-- The reads of a CONNECT find the parts of a body in front of what is left. -/
theorem ConnectReads.parts {parsed : ConnectFields} {nread : Nat}
    (reads : ConnectReads (some data) data.length parsed nread) :
    ∃ parts : ConnectParts, parts.Formed ∧ parts.body <+: data := by
  obtain ⟨readName, readVersion, readFlags, flagsEq, readKeepAlive, _, readClientId,
    readWillTopic, readWillMessage, readUsername, readPassword⟩ := reads
  rw [flagsEq, connectFlagsOf_will] at readWillTopic readWillMessage
  rw [flagsEq, connectFlagsOf_usernameFollows] at readUsername
  rw [flagsEq, connectFlagsOf_passwordFollows] at readPassword
  obtain ⟨name, _, nameShort, split, _, rfl⟩ :=
    (readString_iff bounded (List.nil_append data).symm).mp readName
  obtain ⟨_, split, rfl⟩ := (readByte_iff bounded split).mp readVersion
  obtain ⟨_, split, rfl⟩ := (readByte_iff bounded split).mp readFlags
  obtain ⟨_, split, rfl⟩ := (readPair_iff bounded split).mp readKeepAlive
  obtain ⟨clientId, _, clientIdShort, split, _, rfl⟩ :=
    (readString_iff bounded split).mp readClientId
  obtain ⟨willTopic, _, willTopicShort, split, _, rfl⟩ :=
    (readOptional_iff bounded split).mp readWillTopic
  obtain ⟨willMessage, _, willMessageShort, split, _, rfl⟩ :=
    (readOptional_iff bounded split).mp readWillMessage
  obtain ⟨username, _, usernameShort, split, _, rfl⟩ :=
    (readOptional_iff bounded split).mp readUsername
  obtain ⟨password, after, passwordShort, split, _, rfl⟩ :=
    (readOptional_iff bounded split).mp readPassword
  exact ⟨⟨name, _, _, _, clientId, willTopic, willMessage, username, password⟩,
    ⟨nameShort, clientIdShort, willTopicShort, willMessageShort, usernameShort, passwordShort⟩,
    after, split.symm⟩

/-- What the parser stores of a body that stands in front of `after`. -/
theorem ConnectParts.Formed.reads {parts : ConnectParts} (formed : parts.Formed)
    (starts : parts.body <+: data) :
    ∃ parsed, ConnectReads (some data) data.length parsed parts.body.length ∧
      parts.Stored parsed := by
  obtain ⟨after, whole⟩ := starts
  -- the payload cut behind each of its fields, the last field first
  have passwordAt := whole.symm
  have usernameAt := passwordAt.trans (List.append_assoc _ _ _)
  have willMessageAt := usernameAt.trans (List.append_assoc _ _ _)
  have willTopicAt := willMessageAt.trans (List.append_assoc _ _ _)
  have clientIdAt := willTopicAt.trans (List.append_assoc _ _ _)
  have keepAliveAt := clientIdAt.trans (List.append_assoc _ _ _)
  have flagsAt := keepAliveAt.trans (List.append_assoc _ _ _)
  have versionAt := flagsAt.trans (List.append_assoc _ _ _)
  have nameAt := versionAt.trans (List.append_assoc _ _ _)
  have readName := (readString_iff bounded (List.nil_append data).symm).mpr
    ⟨_, _, formed.protocolName, nameAt, rfl, rfl⟩
  have readVersion := (readByte_iff bounded nameAt).mpr ⟨_, versionAt, rfl⟩
  have readFlags := (readByte_iff bounded versionAt).mpr ⟨_, flagsAt, rfl⟩
  have readKeepAlive := readPair_at bounded (keepAliveAt.trans (List.append_assoc _ _ _))
  have readClientId := (readString_iff bounded keepAliveAt).mpr
    ⟨_, _, formed.clientId, clientIdAt, rfl, rfl⟩
  have readWillTopic := (readOptional_iff bounded clientIdAt).mpr
    ⟨_, _, formed.willTopic, willTopicAt, rfl, rfl⟩
  have readWillMessage := (readOptional_iff bounded willTopicAt).mpr
    ⟨_, _, formed.willMessage, willMessageAt, rfl, rfl⟩
  have readUsername := (readOptional_iff bounded willMessageAt).mpr
    ⟨_, _, formed.username, usernameAt, rfl, rfl⟩
  have readPassword := (readOptional_iff bounded usernameAt).mpr
    ⟨_, _, formed.password, passwordAt, rfl, rfl⟩
  rw [← connectFlagsOf_will] at readWillTopic readWillMessage
  rw [← connectFlagsOf_usernameFollows] at readUsername
  rw [← connectFlagsOf_passwordFollows] at readPassword
  refine ⟨⟨_, _, connectFlagsOf parts.flags, parts.keepAlive, _, _, _, _, _⟩,
    ⟨readName, readVersion, readFlags, rfl, readKeepAlive, (wordOfBytes_bytes parts.keepAlive).symm,
      readClientId, readWillTopic, readWillMessage, readUsername, readPassword⟩, ?_⟩
  exact
    { protocolName :=
        MqttBuffer.holds_append (Nat.lt_of_le_of_lt formed.protocolName (by decide))
      protocolVersion := rfl
      usernameFollows := connectFlagsOf_usernameFollows parts.flags
      passwordFollows := connectFlagsOf_passwordFollows parts.flags
      willRetain := connectFlagsOf_willRetain parts.flags
      will := connectFlagsOf_will parts.flags
      cleanSession := connectFlagsOf_cleanSession parts.flags
      keepAlive := rfl
      clientId := MqttBuffer.holds_append (Nat.lt_of_le_of_lt formed.clientId (by decide))
      willTopic := formed.willTopic.holds
      willMessage := formed.willMessage.holds
      username := formed.username.holds
      password := formed.password.holds }

end Body

theorem parserLoop_initial_connect {data : Option (List UInt8)} {len turns : Nat}
    {error : MqttError} {message : Message} (type : message.type = mqttTypeConnect) :
    parserLoop data len (turns + 1) ⟨⟨.initial, error⟩, message, 0⟩ =
      parserLoop data len turns ⟨⟨.connect, error⟩, message, 0⟩ := by
  rw [parserLoop, parserStep, if_pos type]
  rfl

/-- The parser finishes a CONNECT exactly when a body stands in front of its payload; it
stores the parts of that body and stops behind it, and finds every other payload
incomplete. -/
theorem mqttParserExecute_connect (data : List UInt8) (error : MqttError) (message : Message)
    (bounded : data.length < 2 ^ 64) (type : message.type = mqttTypeConnect)
    (zeroed : message.connect = Message.zero.connect) :
    ((∃ final, mqttParserExecute ⟨.initial, error⟩ message (some data) data.length 0 =
        some (.done, final)) ↔ ∃ parts : ConnectParts, parts.Formed ∧ parts.body <+: data) ∧
    (∀ parts : ConnectParts, parts.Formed → parts.body <+: data →
      ∃ final, mqttParserExecute ⟨.initial, error⟩ message (some data) data.length 0 =
          some (.done, final) ∧
        final.nread = parts.body.length ∧ parts.Stored final.message.connect) ∧
    ((¬ ∃ parts : ConnectParts, parts.Formed ∧ parts.body <+: data) →
      ∃ final, mqttParserExecute ⟨.initial, error⟩ message (some data) data.length 0 =
        some (.incomplete, final)) := by
  have stores (parts : ConnectParts) (formed : parts.Formed) (starts : parts.body <+: data) :
      ∃ final, mqttParserExecute ⟨.initial, error⟩ message (some data) data.length 0 =
          some (.done, final) ∧
        final.nread = parts.body.length ∧ parts.Stored final.message.connect := by
    obtain ⟨parsed, reads, stored⟩ := formed.reads bounded starts
    obtain ⟨final, returned, connect, nread⟩ :=
      (mqttParserExecute_connect_iff type zeroed).mpr reads
    exact ⟨final, returned, nread, connect ▸ stored⟩
  have accepts : (∃ final, mqttParserExecute ⟨.initial, error⟩ message (some data) data.length
      0 = some (.done, final)) ↔ ∃ parts : ConnectParts, parts.Formed ∧ parts.body <+: data := by
    constructor
    · rintro ⟨final, returned⟩
      have reads := (mqttParserExecute_connect_iff type zeroed).mp ⟨final, returned, rfl, rfl⟩
      exact reads.parts bounded
    · rintro ⟨parts, formed, starts⟩
      obtain ⟨final, returned, _⟩ := stores parts formed starts
      exact ⟨final, returned⟩
  refine ⟨accepts, stores, fun noBody => ?_⟩
  obtain ⟨rc, final, returned⟩ := mqttParserExecute_returns bounded
    (show (Parser.mk .initial error).state = .initial from rfl)
    (show message.type ≠ mqttTypeSubscribe by rw [type]; decide)
  have behind : parserLoop (some data) data.length 24 ⟨⟨.connect, error⟩, message, 0⟩ =
      some (rc, final) := (parserLoop_initial_connect type).symm.trans returned
  rcases parserLoop_rc (by exact Nat.one_pos) behind with rfl | rfl
  · exact absurd (accepts.mp ⟨final, returned⟩) noBody
  · exact ⟨final, returned⟩

/-- A CONNECT without a will, user name and password, a byte behind its body. -/
theorem mqttParserExecute_connect_plain :
    ∃ final, mqttParserExecute .zero { Message.zero with type := mqttTypeConnect }
        (some [0, 1, 0x4d, 3, 2, 0, 60, 0, 1, 0x61, 9]) 11 0 = some (.done, final) ∧
      final.nread = 10 ∧
      ConnectParts.Stored ⟨[0x4d], 3, 2, 60, [0x61], [], [], [], []⟩ final.message.connect := by
  have parsed := mqttParserExecute_connect [0, 1, 0x4d, 3, 2, 0, 60, 0, 1, 0x61, 9] .none
    { Message.zero with type := mqttTypeConnect } (by decide) rfl rfl
  exact parsed.2.1 ⟨[0x4d], 3, 2, 60, [0x61], [], [], [], []⟩
    ⟨by decide, by decide, rfl, rfl, rfl, rfl⟩ ⟨[9], by decide⟩

end MuMQ
