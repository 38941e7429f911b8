import MuMQ.Mqtt.Parser

namespace MuMQ

/-! Where the parser reads, and where the buffers it stores point. -/

/-- A buffer is `NULL` or lies in the payload: the bytes readable from it on are the
end of the payload, and its length is one of theirs. -/
def MqttBuffer.Within (payload : List UInt8) (buffer : MqttBuffer) : Prop :=
  ∀ bytes, buffer.data = some bytes →
    bytes <:+ payload ∧ buffer.length.toNat ≤ bytes.length

/-- All buffers of a message lie in the payload. -/
structure Message.Within (payload : List UInt8) (message : Message) : Prop where
  protocolName : message.connect.protocolName.Within payload
  clientId : message.connect.clientId.Within payload
  willTopic : message.connect.willTopic.Within payload
  willMessage : message.connect.willMessage.Within payload
  username : message.connect.username.Within payload
  password : message.connect.password.Within payload
  topicName : message.publish.topicName.Within payload
  content : message.publish.content.Within payload
  topics : ∀ pair ∈ message.subscribe.topics, pair.name.Within payload

theorem MqttBuffer.within_empty (payload : List UInt8) : MqttBuffer.empty.Within payload := by
  intro bytes data
  cases data

theorem Message.within_zero (payload : List UInt8) : Message.zero.Within payload where
  protocolName := MqttBuffer.within_empty payload
  clientId := MqttBuffer.within_empty payload
  willTopic := MqttBuffer.within_empty payload
  willMessage := MqttBuffer.within_empty payload
  username := MqttBuffer.within_empty payload
  password := MqttBuffer.within_empty payload
  topicName := MqttBuffer.within_empty payload
  content := MqttBuffer.within_empty payload
  topics pair member := by cases member

/-- The cursor and the buffers are inside the payload. -/
structure ParseState.Inside (payload : List UInt8) (state : ParseState) : Prop where
  nread : state.nread ≤ payload.length
  message : state.message.Within payload

/-- A turn of the parser's loop reads nothing outside the payload and leaves the
cursor and the buffers inside. -/
def ParseStep.Inside (payload : List UInt8) : ParseStep → Prop
  | .next state => state.Inside payload
  | .ret _ state => state.Inside payload
  | .fault => False

/-- The states at the head of the parser's loop in a call that begins in `start`. -/
inductive Turns (data : Option (List UInt8)) (len : Nat) (start : ParseState) :
    ParseState → Prop
  | start : Turns data len start start
  | next {state after : ParseState} (turns : Turns data len start state)
      (stepped : parserStep data len state = .next after) : Turns data len start after

/-- A call of `mqtt_parser_execute` with `*nread = 0` is inside the payload at every
turn, and returns. -/
structure StaysInside (parser : Parser) (message : Message) (data : Option (List UInt8)) :
    Prop where
  turns : ∀ state, Turns data (data.getD []).length ⟨parser, message, 0⟩ state →
    state.Inside (data.getD []) ∧
      (parserStep data (data.getD []).length state).Inside (data.getD [])
  returns : ∃ rc final,
    mqttParserExecute parser message data (data.getD []).length 0 = some (rc, final) ∧
      final.Inside (data.getD [])

section Reads

variable {data : Option (List UInt8)} {nread : Nat}

theorem byteAt_isSome {index : Nat} (inside : index < (data.getD []).length) :
    ∃ byte, byteAt data index = some byte := by
  cases data with
  | none => exact absurd inside (Nat.not_lt_zero index)
  | some bytes => exact ⟨bytes[index], List.getElem?_eq_getElem inside⟩

theorem byteAt_end : byteAt data (data.getD []).length = none := by
  cases data with
  | none => rfl
  | some bytes => exact List.getElem?_eq_none (Nat.le_refl bytes.length)

/-- What is read of a field inside the payload. -/
def FieldRead.Inside {α : Type} (payload : List UInt8) (within : α → Prop) :
    FieldRead α → Prop
  | .incomplete => True
  | .fault => False
  | .field value nread => within value ∧ nread ≤ payload.length

theorem within_drop {index : Nat} {length : UInt32}
    (fits : index + length.toNat ≤ (data.getD []).length) :
    (⟨length, data.map (List.drop index)⟩ : MqttBuffer).Within (data.getD []) := by
  intro bytes there
  obtain ⟨whole, rfl, rfl⟩ := Option.map_eq_some_iff.mp there
  refine ⟨List.drop_suffix index whole, ?_⟩
  show length.toNat ≤ (whole.drop index).length
  rw [List.length_drop]
  simp only [Option.getD_some] at fits
  omega

variable (small : (data.getD []).length < 2 ^ 64)

include small

theorem readString_inside (inside : nread ≤ (data.getD []).length) :
    (readString data (data.getD []).length nread).Inside (data.getD [])
      (MqttBuffer.Within (data.getD [])) := by
  unfold readString
  rw [sizeSub_of_le inside small]
  split
  · trivial
  · rename_i room
    obtain ⟨high, highAt⟩ := byteAt_isSome (show nread < (data.getD []).length by omega)
    obtain ⟨low, lowAt⟩ := byteAt_isSome (show nread + 1 < (data.getD []).length by omega)
    rw [highAt, lowAt]
    simp only
    rw [sizeSub_of_le (by omega) (by omega)]
    split
    · trivial
    · rename_i fits
      have bounded : high.toNat * 256 + low.toNat < 2 ^ 32 := by
        have highSmall := high.toNat_lt
        have lowSmall := low.toNat_lt
        omega
      refine ⟨within_drop ?_, by omega⟩
      rw [UInt32.toNat_ofNat_of_lt' bounded]
      omega

theorem readMessage_inside (strLen : UInt32)
    (inside : nread ≤ (data.getD []).length) :
    (readMessage data (data.getD []).length nread strLen).Inside (data.getD [])
      (MqttBuffer.Within (data.getD [])) := by
  unfold readMessage
  rw [sizeSub_of_le inside small]
  split
  · trivial
  · exact ⟨within_drop (by omega), by omega⟩

theorem readByte_inside (inside : nread ≤ (data.getD []).length) :
    (readByte data (data.getD []).length nread).Inside (data.getD []) fun _ => True := by
  unfold readByte
  rw [sizeSub_of_le inside small]
  split
  · trivial
  · obtain ⟨byte, at_⟩ := byteAt_isSome (show nread < (data.getD []).length by omega)
    rw [at_]
    exact ⟨trivial, by omega⟩

theorem readPair_inside (inside : nread ≤ (data.getD []).length) :
    (readPair data (data.getD []).length nread).Inside (data.getD []) fun _ => True := by
  unfold readPair
  rw [sizeSub_of_le inside small]
  split
  · trivial
  · obtain ⟨high, highAt⟩ := byteAt_isSome (show nread < (data.getD []).length by omega)
    obtain ⟨low, lowAt⟩ := byteAt_isSome (show nread + 1 < (data.getD []).length by omega)
    rw [highAt, lowAt]
    exact ⟨trivial, by omega⟩

theorem readPair_room (room : nread + 2 ≤ (data.getD []).length) :
    ∃ pair, readPair data (data.getD []).length nread = .field pair (nread + 2) := by
  obtain ⟨high, highAt⟩ := byteAt_isSome (show nread < (data.getD []).length by omega)
  obtain ⟨low, lowAt⟩ := byteAt_isSome (show nread + 1 < (data.getD []).length by omega)
  refine ⟨(high, low), ?_⟩
  rw [readPair, sizeSub_of_le (by omega) small, if_neg (by omega), highAt, lowAt]

end Reads

/-- A turn that reads a field stays inside when the field does and what is stored of
it does. -/
theorem ParseState.Inside.withField {α : Type} {payload : List UInt8} {state : ParseState}
    (inside : state.Inside payload) {within : α → Prop} {read : FieldRead α}
    (field : read.Inside payload within) {use : α → ParseState → ParseStep}
    (stores : ∀ value nread, within value → nread ≤ payload.length →
      (use value { state with nread := nread }).Inside payload) :
    (state.withField read use).Inside payload := by
  cases read with
  | incomplete => exact inside
  | fault => exact absurd field id
  | field value nread => exact stores value nread field.1 field.2

section Step

variable {data : Option (List UInt8)} {state : ParseState}

/-- Every turn but the one that reads the requested QoS stays inside. -/
theorem parserStep_inside (small : (data.getD []).length < 2 ^ 64)
    (inside : state.Inside (data.getD []))
    (elsewhere : state.parser.state ≠ .subscribeTopicName) :
    (parserStep data (data.getD []).length state).Inside (data.getD []) := by
  have stay (next : ParserState) : (state.enter next).Inside (data.getD []) :=
    ⟨inside.nread, inside.message⟩
  have string := readString_inside small inside.nread
  have byte := readByte_inside small inside.nread
  have pair := readPair_inside small inside.nread
  have message := inside.message
  unfold parserStep
  split
  · repeat' split
    all_goals exact ⟨inside.nread, inside.message⟩
  · split
    · exact stay _
    · exact inside
  · exact stay _
  · exact inside.withField string fun name nread within le =>
      ⟨le, { message with protocolName := within }⟩
  · exact inside.withField byte fun version nread _ le => ⟨le, { message with }⟩
  · exact inside.withField byte fun flags nread _ le => ⟨le, { message with }⟩
  · exact inside.withField pair fun keepAlive nread _ le => ⟨le, { message with }⟩
  · exact inside.withField string fun clientId nread within le =>
      ⟨le, { message with clientId := within }⟩
  · split
    · exact inside.withField string fun willTopic nread within le =>
        ⟨le, { message with willTopic := within }⟩
    · exact stay _
  · split
    · exact inside.withField string fun willMessage nread within le =>
        ⟨le, { message with willMessage := within }⟩
    · exact stay _
  · split
    · exact inside.withField string fun username nread within le =>
        ⟨le, { message with username := within }⟩
    · exact stay _
  · split
    · exact inside.withField string fun password nread within le =>
        ⟨le, { message with password := within }⟩
    · exact stay _
  · exact inside.withField pair fun bytes nread _ le => ⟨le, { message with }⟩
  · exact stay _
  · exact inside.withField string fun topicName nread within le =>
      ⟨le, { message with topicName := within }⟩
  · split
    · exact inside
    · split
      · exact inside.withField pair fun messageId nread _ le => ⟨le, { message with }⟩
      · exact ⟨inside.nread, { message with }⟩
  · exact inside.withField (readMessage_inside small _ inside.nread)
      fun content nread within le => ⟨le, { message with content := within }⟩
  · exact inside.withField pair fun messageId nread _ le => ⟨le, { message with }⟩
  · rename_i at_
    exact absurd at_ elsewhere
  · exact ⟨inside.nread, inside.message⟩

theorem ParseState.withField_next {α : Type} {after : ParseState} {read : FieldRead α}
    {use : α → ParseState → ParseStep} (stepped : state.withField read use = .next after) :
    ∃ value nread, read = .field value nread ∧
      use value { state with nread := nread } = .next after := by
  cases read with
  | incomplete => cases stepped
  | fault => cases stepped
  | field value nread => exact ⟨value, nread, rfl, stepped⟩

theorem readPair_nread {len nread after : Nat} {pair : UInt8 × UInt8}
    (read : readPair data len nread = .field pair after) : after = nread + 2 := by
  unfold readPair at read
  split at read
  · cases read
  · split at read
    · cases read
      rfl
    · cases read

/-- How far a state is from `initial`. -/
def ParserState.depth : ParserState → Nat
  | .connect => 1
  | .connectProtocolName => 2
  | .connectProtocolVersion => 3
  | .connectFlags => 4
  | .connectKeepAlive => 5
  | .connectClientIdentifier => 6
  | .connectWillTopic => 7
  | .connectWillMessage => 8
  | .connectUsername => 9
  | .connectPassword => 10
  | .connack => 1
  | .publish => 1
  | .publishTopicName => 2
  | .publishMessageId => 3
  | .publishMessage => 4
  | .subscribe => 1
  | .subscribeTopicName => 2
  | _ => 0

theorem ParserState.depth_le (state : ParserState) : state.depth ≤ 10 := by
  cases state <;> decide

/-- What a turn that goes on does to the parser's state. -/
structure Advances (state after : ParseState) : Prop where
  type : after.message.type = state.message.type
  deeper : state.parser.state.depth < after.parser.state.depth
  inside : after.parser.state ≠ .variableHeader
  subscribe : after.parser.state = .subscribe →
    state.parser.state = .initial ∧ state.message.type = mqttTypeSubscribe ∧
      after.nread = state.nread
  topicName : after.parser.state = .subscribeTopicName →
    state.parser.state = .subscribe ∧ after.nread = state.nread + 2

/-- The states but `subscribe` and the one behind it are entered alike. -/
theorem Advances.enters {current : ParserState} {after : ParseState} (next : ParserState)
    (at_ : state.parser.state = current) (same : after.parser.state = next)
    (type : after.message.type = state.message.type)
    (ordinary : current.depth < next.depth ∧ next ≠ .variableHeader ∧ next ≠ .subscribe ∧
      next ≠ .subscribeTopicName) : Advances state after where
  type := type
  deeper := by
    rw [at_, same]
    exact ordinary.1
  inside := same ▸ ordinary.2.1
  subscribe := fun entered => absurd (same.symm.trans entered) ordinary.2.2.1
  topicName := fun entered => absurd (same.symm.trans entered) ordinary.2.2.2

theorem Advances.reads {α : Type} {current : ParserState} {after : ParseState}
    {read : FieldRead α} {use : α → ParseState → ParseState} (next : ParserState)
    (at_ : state.parser.state = current)
    (stepped : state.withField read (fun value state => .next (use value state)) = .next after)
    (same : ∀ value nread, (use value { state with nread := nread }).parser.state = next ∧
      (use value { state with nread := nread }).message.type = state.message.type)
    (ordinary : current.depth < next.depth ∧ next ≠ .variableHeader ∧ next ≠ .subscribe ∧
      next ≠ .subscribeTopicName) : Advances state after := by
  obtain ⟨value, nread, _, used⟩ := ParseState.withField_next stepped
  cases used
  exact .enters next at_ (same value nread).1 (same value nread).2 ordinary

theorem parserStep_advances {len : Nat} {after : ParseState}
    (entered : state.parser.state ≠ .variableHeader)
    (stepped : parserStep data len state = .next after) : Advances state after := by
  unfold parserStep at stepped
  split at stepped
  · rename_i at_
    repeat' split at stepped
    · cases stepped
      exact .enters .connect at_ rfl rfl (by decide)
    · cases stepped
      exact .enters .connack at_ rfl rfl (by decide)
    · cases stepped
      exact .enters .publish at_ rfl rfl (by decide)
    · rename_i type
      cases stepped
      exact ⟨rfl, by rw [at_]; exact Nat.zero_lt_one, ParserState.noConfusion,
        fun _ => ⟨at_, type, rfl⟩, ParserState.noConfusion⟩
    · cases stepped
    · cases stepped
    · cases stepped
  · rename_i at_
    exact absurd at_ entered
  · rename_i at_
    cases stepped
    exact .enters .connectProtocolName at_ rfl rfl (by decide)
  · rename_i at_
    exact .reads .connectProtocolVersion at_ stepped (fun _ _ => ⟨rfl, rfl⟩) (by decide)
  · rename_i at_
    exact .reads .connectFlags at_ stepped (fun _ _ => ⟨rfl, rfl⟩) (by decide)
  · rename_i at_
    exact .reads .connectKeepAlive at_ stepped (fun _ _ => ⟨rfl, rfl⟩) (by decide)
  · rename_i at_
    exact .reads .connectClientIdentifier at_ stepped (fun _ _ => ⟨rfl, rfl⟩) (by decide)
  · rename_i at_
    exact .reads .connectWillTopic at_ stepped (fun _ _ => ⟨rfl, rfl⟩) (by decide)
  · rename_i at_
    split at stepped
    · exact .reads .connectWillMessage at_ stepped (fun _ _ => ⟨rfl, rfl⟩) (by decide)
    · cases stepped
      exact .enters .connectWillMessage at_ rfl rfl (by decide)
  · rename_i at_
    split at stepped
    · exact .reads .connectUsername at_ stepped (fun _ _ => ⟨rfl, rfl⟩) (by decide)
    · cases stepped
      exact .enters .connectUsername at_ rfl rfl (by decide)
  · rename_i at_
    split at stepped
    · exact .reads .connectPassword at_ stepped (fun _ _ => ⟨rfl, rfl⟩) (by decide)
    · cases stepped
      exact .enters .connectPassword at_ rfl rfl (by decide)
  · split at stepped
    · obtain ⟨_, _, _, used⟩ := ParseState.withField_next stepped
      cases used
    · cases stepped
  · obtain ⟨_, _, _, used⟩ := ParseState.withField_next stepped
    cases used
  · rename_i at_
    cases stepped
    exact .enters .publishTopicName at_ rfl rfl (by decide)
  · rename_i at_
    exact .reads .publishMessageId at_ stepped (fun _ _ => ⟨rfl, rfl⟩) (by decide)
  · rename_i at_
    split at stepped
    · cases stepped
    · split at stepped
      · exact .reads .publishMessage at_ stepped (fun _ _ => ⟨rfl, rfl⟩) (by decide)
      · cases stepped
        exact .enters .publishMessage at_ rfl rfl (by decide)
  · obtain ⟨_, _, _, used⟩ := ParseState.withField_next stepped
    cases used
  · rename_i at_
    obtain ⟨pair, nread, read, used⟩ := ParseState.withField_next stepped
    have cursor := readPair_nread read
    cases used
    exact ⟨rfl, by rw [at_]; exact Nat.one_lt_two, ParserState.noConfusion,
      ParserState.noConfusion, fun _ => ⟨at_, cursor⟩⟩
  · obtain ⟨_, _, _, used⟩ := ParseState.withField_next stepped
    split at used <;> cases used
  · cases stepped

end Step

/-- A SUBSCRIBE payload that ends right behind its topic name. -/
def EndsWithTopic : List UInt8 → Prop
  | _ :: _ :: high :: low :: topic => topic.length = high.toNat * 256 + low.toNat
  | _ => False

instance (payload : List UInt8) : Decidable (EndsWithTopic payload) :=
  match payload with
  | _ :: _ :: _ :: _ :: _ => inferInstanceAs (Decidable (_ = _))
  | [] => isFalse id
  | [_] => isFalse id
  | [_, _] => isFalse id
  | [_, _, _] => isFalse id

section Call

variable {data : Option (List UInt8)}

/-- The topic name of a SUBSCRIBE is read up to the end of the payload exactly when
the payload ends with it. -/
theorem readString_end (small : (data.getD []).length < 2 ^ 64)
    (inside : 2 ≤ (data.getD []).length) :
    (∃ name, readString data (data.getD []).length 2 =
        .field name (data.getD []).length) ↔ EndsWithTopic (data.getD []) := by
  obtain ⟨bytes, rfl⟩ : ∃ bytes, data = some bytes := by
    cases data with
    | none => exact absurd inside (by decide)
    | some bytes => exact ⟨bytes, rfl⟩
  simp only [Option.getD_some] at small inside ⊢
  match bytes with
  | [] => exact absurd inside (by decide)
  | [_] => exact absurd inside (by simp)
  | [_, _] => simp [EndsWithTopic, readString, sizeSub]
  | [_, _, _] => simp [EndsWithTopic, readString, sizeSub]
  | first :: second :: high :: low :: topic =>
      simp only [List.length_cons] at small inside ⊢
      unfold readString
      rw [sizeSub_of_le inside small, sizeSub_of_le (by omega) (by omega),
        if_neg (by omega : ¬ topic.length + 1 + 1 + 1 + 1 - 2 < 2)]
      simp only [byteAt, Option.bind_some, List.getElem?_cons_zero, List.getElem?_cons_succ]
      unfold EndsWithTopic
      split
      · rename_i missing
        constructor
        · rintro ⟨_, impossible⟩
          cases impossible
        · intro ends
          omega
      · constructor
        · rintro ⟨name, read⟩
          simp only [FieldRead.field.injEq] at read
          omega
        · intro ends
          refine ⟨⟨UInt32.ofNat (high.toNat * 256 + low.toNat), some topic⟩, ?_⟩
          rw [FieldRead.field.injEq]
          exact ⟨rfl, by omega⟩

/-- The turn that reads the topic name of a SUBSCRIBE and the requested QoS stays
inside exactly when a byte is left for the QoS. -/
theorem parserStep_topicName_inside (small : (data.getD []).length < 2 ^ 64)
    {state : ParseState} (inside : state.Inside (data.getD []))
    (at_ : state.parser.state = .subscribeTopicName) :
    (parserStep data (data.getD []).length state).Inside (data.getD []) ↔
      ¬ ∃ name, readString data (data.getD []).length state.nread =
        .field name (data.getD []).length := by
  have string := readString_inside small inside.nread
  have entered : (state.setSubscribe { state.message.subscribe with
      topics := some (state.message.subscribe.topics.getD ⟨.empty, 0⟩) }).Inside
        (data.getD []) := by
    refine ⟨inside.nread, { inside.message with topics := fun pair member => ?_ }⟩
    cases Option.mem_some_iff.mp member
    cases topics : state.message.subscribe.topics with
    | none => exact MqttBuffer.within_empty _
    | some pair => exact inside.message.topics pair topics
  unfold parserStep
  rw [at_]
  simp only [ParseState.setSubscribe] at entered ⊢
  cases read : readString data (data.getD []).length state.nread with
  | incomplete =>
      simp only [ParseState.withField, ParseStep.Inside, reduceCtorEq, exists_false,
        not_false_eq_true, iff_true]
      exact entered
  | fault =>
      rw [read] at string
      exact absurd string id
  | field name nread =>
      rw [read] at string
      obtain ⟨within, le⟩ := string
      simp only [ParseState.withField]
      by_cases last : nread = (data.getD []).length
      · rw [last, byteAt_end]
        simp [ParseStep.Inside]
      · obtain ⟨qos, qosAt⟩ := byteAt_isSome (show nread < (data.getD []).length by omega)
        rw [qosAt]
        have more : ¬ ∃ found, FieldRead.field name nread =
            .field found (data.getD []).length := by
          rintro ⟨_, same⟩
          cases same
          exact last rfl
        refine iff_of_true ?_ more
        refine ⟨show nread + 1 ≤ _ by omega, { inside.message with topics := ?_ }⟩
        intro pair member
        cases Option.mem_some_iff.mp member
        exact within

/-- The states of a call: where a SUBSCRIBE stands in its payload. -/
structure Reached (kind : UInt8) (state : ParseState) : Prop where
  type : state.message.type = kind
  notHeader : state.parser.state ≠ .variableHeader
  initial : state.parser.state = .initial → state.nread = 0
  subscribe : state.parser.state = .subscribe → kind = mqttTypeSubscribe ∧ state.nread = 0
  topicName : state.parser.state = .subscribeTopicName →
    kind = mqttTypeSubscribe ∧ state.nread = 2

theorem Turns.reached {len : Nat} {parser : Parser} {message : Message}
    (initial : parser.state = .initial) {state : ParseState}
    (turns : Turns data len ⟨parser, message, 0⟩ state) : Reached message.type state := by
  induction turns with
  | start =>
      refine ⟨rfl, ?_, fun _ => rfl, ?_, ?_⟩ <;> simp [initial]
  | next _ stepped reached =>
      have advances := parserStep_advances reached.notHeader stepped
      refine ⟨advances.type.trans reached.type, advances.inside, fun entered => ?_,
        fun entered => ?_, fun entered => ?_⟩
      · have deeper := advances.deeper
        rw [entered] at deeper
        exact absurd deeper (Nat.not_lt_zero _)
      · obtain ⟨before, type, cursor⟩ := advances.subscribe entered
        exact ⟨reached.type.symm.trans type, cursor.trans (reached.initial before)⟩
      · obtain ⟨before, cursor⟩ := advances.topicName entered
        obtain ⟨type, zero⟩ := reached.subscribe before
        exact ⟨type, by rw [cursor, zero]⟩

theorem parserLoop_returns {start : ParseState} {len : Nat}
    (inside : ∀ state, Turns data len start state →
      state.parser.state ≠ .variableHeader ∧
        (parserStep data len state).Inside (data.getD []))
    {turns : Nat} {state : ParseState} (reached : Turns data len start state)
    (enough : 10 < turns + state.parser.state.depth) :
    ∃ rc final, parserLoop data len turns state = some (rc, final) ∧
      final.Inside (data.getD []) := by
  induction turns generalizing state with
  | zero =>
      have bounded := state.parser.state.depth_le
      omega
  | succ turns induction =>
      obtain ⟨notHeader, turnInside⟩ := inside state reached
      rw [parserLoop]
      cases stepped : parserStep data len state with
      | next after =>
          have deeper := (parserStep_advances notHeader stepped).deeper
          exact induction (reached.next stepped) (by omega)
      | ret rc final =>
          rw [stepped] at turnInside
          exact ⟨rc, final, rfl, turnInside⟩
      | fault =>
          rw [stepped] at turnInside
          exact absurd turnInside id

theorem ParseState.withField_ret {α : Type} {rc : ParserRc} {state after : ParseState}
    {read : FieldRead α} {use : α → ParseState → ParseStep}
    (stepped : state.withField read use = .ret rc after) :
    rc = .incomplete ∨ ∃ value nread, use value { state with nread := nread } = .ret rc after := by
  cases read with
  | incomplete =>
      cases stepped
      exact .inl rfl
  | fault => cases stepped
  | field value nread => exact .inr ⟨value, nread, stepped⟩

theorem ParseState.withField_waits {α : Type} {rc : ParserRc} {state after : ParseState}
    {read : FieldRead α} {use : α → ParseState → ParseState}
    (stepped : state.withField read (fun value state => .next (use value state)) =
      .ret rc after) : rc = .done ∨ rc = .incomplete := by
  rcases ParseState.withField_ret stepped with waits | ⟨_, _, used⟩
  · exact .inr waits
  · cases used

theorem ParseState.withField_done {α : Type} {rc : ParserRc} {state after : ParseState}
    {read : FieldRead α} {use : α → ParseState → ParseState}
    (stepped : state.withField read (fun value state => .ret .done (use value state)) =
      .ret rc after) : rc = .done ∨ rc = .incomplete := by
  rcases ParseState.withField_ret stepped with waits | ⟨_, _, used⟩
  · exact .inr waits
  · cases used
    exact .inl rfl

theorem parserStep_rc {len : Nat} {state after : ParseState} {rc : ParserRc}
    (entered : 0 < state.parser.state.depth)
    (stepped : parserStep data len state = .ret rc after) : rc = .done ∨ rc = .incomplete := by
  unfold parserStep at stepped
  split at stepped
  · rename_i at_
    rw [at_] at entered
    cases entered
  · rename_i at_
    rw [at_] at entered
    cases entered
  · cases stepped
  · exact ParseState.withField_waits stepped
  · exact ParseState.withField_waits stepped
  · exact ParseState.withField_waits stepped
  · exact ParseState.withField_waits stepped
  · exact ParseState.withField_waits stepped
  · split at stepped
    · exact ParseState.withField_waits stepped
    · cases stepped
  · split at stepped
    · exact ParseState.withField_waits stepped
    · cases stepped
  · split at stepped
    · exact ParseState.withField_waits stepped
    · cases stepped
  · split at stepped
    · exact ParseState.withField_done stepped
    · cases stepped
      exact .inl rfl
  · exact ParseState.withField_done stepped
  · cases stepped
  · exact ParseState.withField_waits stepped
  · split at stepped
    · cases stepped
      exact .inr rfl
    · split at stepped
      · exact ParseState.withField_waits stepped
      · cases stepped
  · exact ParseState.withField_done stepped
  · exact ParseState.withField_waits stepped
  · rcases ParseState.withField_ret stepped with waits | ⟨_, _, used⟩
    · exact .inr waits
    · split at used
      · cases used
        exact .inl rfl
      · cases used
  · rename_i others
    have shallow : state.parser.state.depth = 0 := by
      cases at_ : state.parser.state <;> first | rfl | exact absurd at_ (by assumption)
    omega

/-- The invariant rule of the parser's loop: what every turn keeps, and what the turn that
returns makes of it. -/
theorem parserLoop_rule {len : Nat} (invariant : ParseState → Prop)
    (result : ParserRc → ParseState → Prop)
    (next : ∀ state after, invariant state → parserStep data len state = .next after →
      invariant after)
    (ret : ∀ state rc after, invariant state → parserStep data len state = .ret rc after →
      result rc after)
    {turns : Nat} {state final : ParseState} {rc : ParserRc} (before : invariant state)
    (ran : parserLoop data len turns state = some (rc, final)) : result rc final := by
  induction turns generalizing state with
  | zero => cases ran
  | succ turns induction =>
      rw [parserLoop] at ran
      cases stepped : parserStep data len state with
      | next after =>
          rw [stepped] at ran
          exact induction (next state after before stepped) ran
      | ret code after =>
          rw [stepped] at ran
          cases ran
          exact ret state _ _ before stepped
      | fault =>
          rw [stepped] at ran
          cases ran

theorem parserLoop_rc {len turns : Nat} {state final : ParseState} {rc : ParserRc}
    (entered : 0 < state.parser.state.depth)
    (ran : parserLoop data len turns state = some (rc, final)) :
    rc = .done ∨ rc = .incomplete := by
  refine parserLoop_rule (fun state => 0 < state.parser.state.depth)
    (fun rc _ => rc = .done ∨ rc = .incomplete) (fun before after entered stepped => ?_)
    (fun _ _ _ entered stepped => parserStep_rc entered stepped) entered ran
  have notHeader : before.parser.state ≠ .variableHeader := by
    intro at_
    rw [at_] at entered
    cases entered
  exact Nat.lt_of_lt_of_le entered (Nat.le_of_lt (parserStep_advances notHeader stepped).deeper)

theorem parserStep_initial_subscribe {len : Nat} {state : ParseState}
    (at_ : state.parser.state = .initial) (type : state.message.type = mqttTypeSubscribe) :
    parserStep data len state = .next (state.enter .subscribe) := by
  rw [parserStep, at_]
  simp only [type, if_neg (by decide : mqttTypeSubscribe ≠ mqttTypeConnect),
    if_neg (by decide : mqttTypeSubscribe ≠ mqttTypeConnack),
    if_neg (by decide : mqttTypeSubscribe ≠ mqttTypePublish), if_true]

theorem parserStep_subscribe_withField {len : Nat} {state : ParseState}
    (at_ : state.parser.state = .subscribe) :
    parserStep data len state =
      state.withField (readPair data len state.nread) fun pair state =>
        .next ((state.setSubscribe
          { state.message.subscribe with messageId := wordOfBytes pair.1 pair.2 }).enter
            .subscribeTopicName) := by
  rw [parserStep, at_]

theorem parserStep_subscribe {len : Nat} {state : ParseState} {pair : UInt8 × UInt8}
    (at_ : state.parser.state = .subscribe)
    (read : readPair data len state.nread = .field pair (state.nread + 2)) :
    parserStep data len state =
      .next (({ state with nread := state.nread + 2 }.setSubscribe
        { state.message.subscribe with messageId := wordOfBytes pair.1 pair.2 }).enter
          .subscribeTopicName) := by
  rw [parserStep_subscribe_withField at_, read, ParseState.withField]

theorem Turns.topicName {start : ParseState} (at_ : start.parser.state = .initial)
    (type : start.message.type = mqttTypeSubscribe)
    (small : (data.getD []).length < 2 ^ 64) (room : start.nread + 2 ≤ (data.getD []).length) :
    ∃ state, Turns data (data.getD []).length start state ∧
      state.parser.state = .subscribeTopicName ∧ state.nread = start.nread + 2 := by
  have first : parserStep data (data.getD []).length start = .next (start.enter .subscribe) :=
    parserStep_initial_subscribe at_ type
  obtain ⟨pair, read⟩ := readPair_room small room
  have entered : (start.enter .subscribe).parser.state = .subscribe := rfl
  have second := parserStep_subscribe entered read
  exact ⟨_, (Turns.start.next first).next second, rfl, rfl⟩

/-- A call on a payload of exactly the announced length stays inside it, unless the
packet is a SUBSCRIBE that ends right behind its topic name. -/
theorem staysInside_iff (parser : Parser) (message : Message) (data : Option (List UInt8))
    (initial : parser.state = .initial) (within : message.Within (data.getD []))
    (length : message.length.toNat = (data.getD []).length) :
    StaysInside parser message data ↔
      ¬ (message.type = mqttTypeSubscribe ∧ EndsWithTopic (data.getD [])) := by
  have small : (data.getD []).length < 2 ^ 64 := by
    have bounded := message.length.toNat_lt
    omega
  constructor
  · rintro ⟨turns, _⟩ ⟨type, ends⟩
    have long : 2 ≤ (data.getD []).length := by
      unfold EndsWithTopic at ends
      split at ends
      · rename_i whole
        rw [whole]
        simp
      · cases ends
    obtain ⟨state, reached, at_, cursor⟩ := @Turns.topicName data ⟨parser, message, 0⟩
      initial type small (by rwa [Nat.zero_add])
    obtain ⟨inside, turnInside⟩ := turns state reached
    rw [parserStep_topicName_inside small inside at_, cursor,
      readString_end small long] at turnInside
    exact turnInside ends
  · intro sparing
    have turn {state : ParseState}
        (reached : Turns data (data.getD []).length ⟨parser, message, 0⟩ state)
        (inside : state.Inside (data.getD [])) :
        (parserStep data (data.getD []).length state).Inside (data.getD []) := by
      by_cases at_ : state.parser.state = .subscribeTopicName
      · obtain ⟨type, cursor⟩ := (reached.reached initial).topicName at_
        rw [parserStep_topicName_inside small inside at_, cursor,
          readString_end small (cursor ▸ inside.nread)]
        exact fun ends => sparing ⟨type, ends⟩
      · exact parserStep_inside small inside at_
    have turns : ∀ state, Turns data (data.getD []).length ⟨parser, message, 0⟩ state →
        state.Inside (data.getD []) := by
      intro state reached
      induction reached with
      | start => exact ⟨Nat.zero_le _, within⟩
      | next reached stepped inside =>
          have turnInside := turn reached inside
          rw [stepped] at turnInside
          exact turnInside
    exact ⟨fun state reached => ⟨turns state reached, turn reached (turns state reached)⟩,
      parserLoop_returns
        (fun state reached =>
          ⟨(reached.reached initial).notHeader, turn reached (turns state reached)⟩)
        .start (by simp [initial, ParserState.depth])⟩

end Call

/-- A SUBSCRIBE of `a`. -/
theorem staysInside_iff_subscribe :
    StaysInside .zero { Message.zero with type := mqttTypeSubscribe, length := 6 }
      (some [0, 1, 0, 1, 0x61, 0]) :=
  (staysInside_iff .zero { Message.zero with type := mqttTypeSubscribe, length := 6 }
    (some [0, 1, 0, 1, 0x61, 0]) rfl { Message.within_zero _ with } rfl).mpr (by decide)

/-- A SUBSCRIBE of `a` without a requested QoS: a byte behind the payload is read. -/
theorem staysInside_noQos :
    ¬ StaysInside .zero { Message.zero with type := mqttTypeSubscribe, length := 5 }
      (some [0, 1, 0, 1, 0x61]) := by
  rintro ⟨_, rc, final, returned, _⟩
  have faulted : mqttParserExecute .zero
      { Message.zero with type := mqttTypeSubscribe, length := 5 }
      (some [0, 1, 0, 1, 0x61]) 5 0 = none := by
    decide +kernel
  rw [Option.getD_some] at returned
  exact absurd (faulted.symm.trans returned) (by simp)

end MuMQ
