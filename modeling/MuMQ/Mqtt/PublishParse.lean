import MuMQ.Mqtt.ConnectBody

namespace MuMQ

/-! The PUBLISH states of the parser on a well-formed body. -/

/-- The two bytes of a length or an id, the high one first. -/
def wordBytes (word : UInt16) : List UInt8 :=
  [(word >>> 8).toUInt8, (word &&& 0xff).toUInt8]

/-- The packet id of a PUBLISH, if its QoS has one. -/
def idBytes (qos : UInt8) (messageId : UInt16) : List UInt8 :=
  if hasMessageId qos then wordBytes messageId else []

/-- The body of a PUBLISH. -/
def publishBody (topic : List UInt8) (qos : UInt8) (messageId : UInt16)
    (content : List UInt8) : List UInt8 :=
  wordBytes (UInt16.ofNat topic.length) ++ topic ++ idBytes qos messageId ++ content

/-- The parser takes the body as a whole and finds the topic, the id and the content
that it was made of. -/
def ParsesPublish (parser : Parser) (message : Message) (topic : List UInt8)
    (messageId : UInt16) (content : List UInt8) : Prop :=
  let body := publishBody topic message.qos messageId content
  ∃ final, mqttParserExecute parser message (some body) body.length 0 = some (.done, final) ∧
    final.message.publish.topicName.bytes = topic ∧
    final.message.publish.messageId = (if message.qos = 0 then 0 else messageId) ∧
    final.message.publish.content.bytes = content ∧ final.nread = body.length

theorem length_wordBytes (word : UInt16) : (wordBytes word).length = 2 := rfl

theorem wordBytes_ofNat {length : Nat} (bounded : length ≤ 65535) :
    ((UInt16.ofNat length >>> 8).toUInt8).toNat * 256
      + ((UInt16.ofNat length &&& 0xff).toUInt8).toNat = length := by
  have small : length < 2 ^ 16 := by omega
  simp only [UInt16.toNat_toUInt8, UInt16.toNat_shiftRight, UInt16.toNat_and,
    UInt16.toNat_ofNat_of_lt' small, UInt16.reduceToNat, Data.and_255_eq, Nat.reduceMod,
    Nat.shiftRight_eq_div_pow]
  omega

section Positions

variable {data before after : List UInt8} (bounded : data.length < 2 ^ 64)
include bounded

theorem readString_wordBytes {string : List UInt8} (short : string.length ≤ 65535)
    (split : data = before ++ (wordBytes (UInt16.ofNat string.length) ++ (string ++ after))) :
    readString (some data) data.length before.length =
      .field ⟨UInt32.ofNat string.length, some (string ++ after)⟩
        (before.length + (2 + string.length)) := by
  have whole := wordBytes_ofNat short
  unfold wordBytes at split
  generalize (UInt16.ofNat string.length >>> 8).toUInt8 = high at split whole
  generalize (UInt16.ofNat string.length &&& 0xff).toUInt8 = low at split whole
  have highThere : byteAt (some data) before.length = some high := by
    simp [byteAt, split]
  have lowThere : byteAt (some data) (before.length + 1) = some low := by
    simp [byteAt, split]
  have behind : data.drop (before.length + 2) = string ++ after := by
    rw [split, List.drop_append]
    simp
  have length : data.length = before.length + (2 + (string.length + after.length)) := by
    rw [split]
    simp
    omega
  have space : sizeSub data.length before.length = 2 + (string.length + after.length) := by
    rw [sizeSub_of_le (by omega) bounded]
    omega
  rw [readString, space, if_neg (by omega), highThere, lowThere]
  simp only [whole]
  rw [sizeSub_of_le (by omega) (by omega), if_neg (by omega)]
  simp [behind]

theorem readMessage_rest {length : UInt32} (exact : length.toNat = after.length)
    (split : data = before ++ after) :
    readMessage (some data) data.length before.length length =
      .field ⟨length, some after⟩ data.length := by
  have total : data.length = before.length + after.length := by
    rw [split, List.length_append]
  rw [readMessage, sizeSub_of_le (by omega) bounded, if_neg (by omega)]
  simp only [Option.map_some, FieldRead.field.injEq]
  refine ⟨?_, by omega⟩
  rw [split, List.drop_left]

end Positions

section Fields

variable {data : Option (List UInt8)} {len : Nat} {state : ParseState}

theorem parserStep_publish (at_ : state.parser.state = .publish) :
    parserStep data len state = .next (state.enter .publishTopicName) := by
  rw [parserStep, at_]

theorem parserStep_publishTopicName (at_ : state.parser.state = .publishTopicName) :
    parserStep data len state =
      state.withField (readString data len state.nread) fun topicName state =>
        .next ((state.setPublish
          { state.message.publish with topicName := topicName }).enter
            .publishMessageId) := by
  rw [parserStep, at_]

theorem parserStep_publishMessageId (at_ : state.parser.state = .publishMessageId) :
    parserStep data len state =
      if sizeSub len state.nread < 2 then .ret .incomplete state
      else if hasMessageId state.message.qos then
        state.withField (readPair data len state.nread) fun pair state =>
          .next ((state.setPublish
            { state.message.publish with messageId := wordOfBytes pair.1 pair.2 }).enter
              .publishMessage)
      else
        .next ((state.setPublish
          { state.message.publish with messageId := 0 }).enter .publishMessage) := by
  rw [parserStep, at_]

/-- The length of the content, computed in `uint32_t`. -/
def contentLength (message : Message) : UInt32 :=
  let msgLen := message.length - message.publish.topicName.length - 2
  if hasMessageId message.qos then msgLen - 2 else msgLen

theorem parserStep_publishMessage (at_ : state.parser.state = .publishMessage) :
    parserStep data len state =
      state.withField (readMessage data len state.nread (contentLength state.message))
        fun content state =>
          .ret .done ((state.setPublish
            { state.message.publish with content := content }).enter .initial) := by
  rw [parserStep, at_]
  rfl

end Fields

theorem parserStep_initial_publish {data : Option (List UInt8)} {len : Nat}
    {state : ParseState} (at_ : state.parser.state = .initial)
    (type : state.message.type = mqttTypePublish) :
    parserStep data len state = .next (state.enter .publish) := by
  rw [parserStep, at_]
  simp only [type, if_neg (by decide : mqttTypePublish ≠ mqttTypeConnect),
    if_neg (by decide : mqttTypePublish ≠ mqttTypeConnack), if_true]

section Whole

variable {topic content : List UInt8} {qos : UInt8} {messageId : UInt16}

theorem length_idBytes (qos : UInt8) (messageId : UInt16) :
    (idBytes qos messageId).length = if hasMessageId qos then 2 else 0 := by
  unfold idBytes
  split <;> rfl

theorem length_publishBody (topic : List UInt8) (qos : UInt8) (messageId : UInt16)
    (content : List UInt8) :
    (publishBody topic qos messageId content).length =
      2 + topic.length + (if hasMessageId qos then 2 else 0) + content.length := by
  simp only [publishBody, List.length_append, length_wordBytes, length_idBytes]

theorem contentLength_publishBody {message : Message} (same : message.qos = qos)
    (length : message.length.toNat = (publishBody topic qos messageId content).length)
    (short : topic.length ≤ 65535)
    (name : message.publish.topicName.length = UInt32.ofNat topic.length) :
    (contentLength message).toNat = content.length := by
  rw [length_publishBody] at length
  have bounded := message.length.toNat_lt
  have topicLength : (UInt32.ofNat topic.length).toNat = topic.length :=
    UInt32.toNat_ofNat_of_lt' (show topic.length < 2 ^ 32 by omega)
  unfold contentLength
  rw [name, same]
  split
  · rename_i withId
    rw [if_pos withId] at length
    simp only [UInt32.toNat_sub, UInt32.reduceToNat, topicLength]
    omega
  · rename_i without
    rw [if_neg without] at length
    simp only [UInt32.toNat_sub, UInt32.reduceToNat, topicLength]
    omega

/-- The state that demands two bytes for a packet id goes on exactly when they are
there, the id's or the content's, and reads the id if there is one. -/
theorem parserStep_messageId_cases {state : ParseState}
    (bounded : (publishBody topic qos messageId content).length < 2 ^ 64)
    (at_ : state.parser.state = .publishMessageId) (same : state.message.qos = qos)
    (cursor : state.nread = (wordBytes (UInt16.ofNat topic.length) ++ topic).length) :
    parserStep (some (publishBody topic qos messageId content))
        (publishBody topic qos messageId content).length state =
      if hasMessageId qos = false ∧ content.length < 2 then .ret .incomplete state
      else
        .next
          (({ state with
              nread :=
                (wordBytes (UInt16.ofNat topic.length) ++ topic
                  ++ idBytes qos messageId).length }.setPublish
            { state.message.publish with
              messageId := if hasMessageId qos then messageId else 0 }).enter
            .publishMessage) := by
  have length := length_publishBody topic qos messageId content
  have front : (wordBytes (UInt16.ofNat topic.length) ++ topic).length = 2 + topic.length := by
    rw [List.length_append, length_wordBytes]
  rw [parserStep_publishMessageId at_, same, sizeSub_of_le (by rw [cursor]; omega) bounded]
  by_cases withId : hasMessageId qos = true
  · rw [if_pos withId] at length
    have split : publishBody topic qos messageId content =
        wordBytes (UInt16.ofNat topic.length) ++ topic ++
          (messageId >>> 8).toUInt8 :: (messageId &&& 0xff).toUInt8 :: content := by
      rw [publishBody, idBytes, if_pos withId, wordBytes, wordBytes]
      simp
    have read := readPair_at bounded split
    rw [if_neg (by omega), if_pos withId, if_neg (by simp [withId]), cursor, read]
    simp only [ParseState.withField, wordOfBytes_bytes, idBytes, if_pos withId]
    rfl
  · rw [if_neg withId] at length
    have without : hasMessageId qos = false := by simpa using withId
    by_cases few : content.length < 2
    · rw [if_pos (by omega), if_pos ⟨without, few⟩]
    · rw [if_neg (by omega), if_neg withId, if_neg fun both => few both.2]
      simp only [idBytes, if_neg withId, List.append_nil, ← cursor]

theorem hasMessageId_iff (qosSmall : qos ≤ 2) : hasMessageId qos = true ↔ qos ≠ 0 := by
  rcases qos_cases qosSmall with zero | one | two
  · rw [zero]
    decide
  · rw [one]
    decide
  · rw [two]
    decide

end Whole

section Body

variable (parser : Parser) (message : Message) (topic : List UInt8) (messageId : UInt16)
  (content : List UInt8)

/-- The parser behind the topic name of a body. -/
def behindTopic : ParseState where
  parser := { parser with state := .publishMessageId }
  message :=
    { message with
      publish :=
        { message.publish with
          topicName := ⟨UInt32.ofNat topic.length,
            some (topic ++ (idBytes message.qos messageId ++ content))⟩ } }
  nread := (wordBytes (UInt16.ofNat topic.length) ++ topic).length

variable {parser message topic messageId content}

theorem finishes_behindTopic
    (bounded : (publishBody topic message.qos messageId content).length < 2 ^ 64)
    (initial : parser.state = .initial) (type : message.type = mqttTypePublish)
    (short : topic.length ≤ 65535) (turns : Nat) (post : ParseState → Prop) :
    Finishes (some (publishBody topic message.qos messageId content))
        (publishBody topic message.qos messageId content).length (turns + 3)
        ⟨parser, message, 0⟩ post ↔
      Finishes (some (publishBody topic message.qos messageId content))
        (publishBody topic message.qos messageId content).length turns
        (behindTopic parser message topic messageId content) post := by
  have split : publishBody topic message.qos messageId content =
      [] ++ (wordBytes (UInt16.ofNat topic.length) ++
        (topic ++ (idBytes message.qos messageId ++ content))) := by
    simp [publishBody]
  have read := readString_wordBytes bounded short split
  rw [finishes_next (parserStep_initial_publish initial type),
    finishes_next (parserStep_publish rfl), finishes_next]
  rw [parserStep_publishTopicName rfl]
  simp only [ParseState.enter]
  rw [show (0 : Nat) = ([] : List UInt8).length from rfl, read, behindTopic, List.length_append,
    length_wordBytes, List.length_nil, Nat.zero_add]
  rfl

/-- Behind the topic name a body is refused when the two bytes demanded for a packet id
are not there, and parsed to its end otherwise. -/
theorem finishes_messageId_iff
    (bounded : (publishBody topic message.qos messageId content).length < 2 ^ 64)
    (short : topic.length ≤ 65535)
    (length : message.length.toNat = (publishBody topic message.qos messageId content).length)
    (turns : Nat) :
    Finishes (some (publishBody topic message.qos messageId content))
        (publishBody topic message.qos messageId content).length (turns + 2)
        (behindTopic parser message topic messageId content)
        (fun final =>
          final.message.publish.topicName.bytes = topic ∧
          final.message.publish.messageId =
            (if hasMessageId message.qos then messageId else 0) ∧
          final.message.publish.content.bytes = content ∧
          final.nread = (publishBody topic message.qos messageId content).length) ↔
      ¬ (hasMessageId message.qos = false ∧ content.length < 2) := by
  have messageIdStep := @parserStep_messageId_cases topic content message.qos messageId
    (behindTopic parser message topic messageId content) bounded rfl rfl rfl
  by_cases refused : hasMessageId message.qos = false ∧ content.length < 2
  · rw [if_pos refused] at messageIdStep
    refine iff_of_false ?_ (not_not_intro refused)
    rintro ⟨final, ran, _⟩
    rw [parserLoop, messageIdStep] at ran
    cases ran
  · rw [if_neg refused] at messageIdStep
    refine iff_of_true ?_ refused
    rw [finishes_next messageIdStep, finishes_lastField (parserStep_publishMessage rfl)]
    have exact : (contentLength { message with
        publish := { message.publish with
          topicName := ⟨UInt32.ofNat topic.length,
            some (topic ++ (idBytes message.qos messageId ++ content))⟩
          messageId := if hasMessageId message.qos then messageId else 0 } }).toNat =
        content.length :=
      contentLength_publishBody rfl length short rfl
    refine ⟨_, _, readMessage_rest bounded exact rfl, ?_, rfl, ?_, rfl⟩
    · have small : (UInt32.ofNat topic.length).toNat = topic.length :=
        UInt32.toNat_ofNat_of_lt' (show topic.length < 2 ^ 32 by omega)
      show ((topic ++ _).take (UInt32.ofNat topic.length).toNat) = topic
      rw [small, List.take_left]
    · exact List.take_of_length_le (Nat.le_of_eq exact.symm)

end Body

/-- A well-formed PUBLISH body is parsed into its parts exactly when its QoS has a packet
id or its content has two bytes. -/
theorem parsesPublish_iff (parser : Parser) (message : Message) (topic : List UInt8)
    (messageId : UInt16) (content : List UInt8) (initial : parser.state = .initial)
    (type : message.type = mqttTypePublish) (qosSmall : message.qos ≤ 2)
    (short : topic.length ≤ 65535)
    (length : message.length.toNat =
      (publishBody topic message.qos messageId content).length) :
    ParsesPublish parser message topic messageId content ↔
      message.qos ≠ 0 ∨ 2 ≤ content.length := by
  have bounded : (publishBody topic message.qos messageId content).length < 2 ^ 64 := by
    have small := message.length.toNat_lt
    omega
  have withId := hasMessageId_iff qosSmall
  have idKept : (if message.qos = 0 then 0 else messageId) =
      if hasMessageId message.qos then messageId else 0 := by
    by_cases zero : message.qos = 0
    · rw [if_pos zero, if_neg fun has => withId.mp has zero]
    · rw [if_neg zero, if_pos (withId.mpr zero)]
  show Finishes _ _ (22 + 3) ⟨parser, message, 0⟩ (fun final =>
    final.message.publish.topicName.bytes = topic ∧
    final.message.publish.messageId = (if message.qos = 0 then 0 else messageId) ∧
    final.message.publish.content.bytes = content ∧
    final.nread = (publishBody topic message.qos messageId content).length) ↔ _
  rw [idKept, finishes_behindTopic bounded initial type short,
    finishes_messageId_iff bounded short length]
  constructor
  · intro parses
    by_cases zero : message.qos = 0
    · have without : hasMessageId message.qos = false := by
        simpa using fun has => withId.mp has zero
      exact .inr (Nat.not_lt.mp fun few => parses ⟨without, few⟩)
    · exact .inl zero
  · rintro (nonzero | long) ⟨without, few⟩
    · rw [withId.mpr nonzero] at without
      cases without
    · exact Nat.not_lt.mpr long few

/-- A PUBLISH of QoS 1 without a content. -/
theorem parsesPublish_iff_empty :
    ParsesPublish .zero
      { Message.zero with type := mqttTypePublish, qos := 1, length := 5 } [0x61] 7 [] :=
  (parsesPublish_iff .zero { Message.zero with type := mqttTypePublish, qos := 1, length := 5 }
    [0x61] 7 [] rfl rfl (by decide) (by decide) (by decide)).mpr (.inl (by decide))

/-- A PUBLISH of QoS 0 with a content of one byte is refused. -/
theorem parsesPublish_oneByte :
    ¬ ParsesPublish .zero { Message.zero with type := mqttTypePublish, length := 4 } [0x61] 0
      [7] := by
  rintro ⟨final, returned, _⟩
  have incomplete : (mqttParserExecute .zero
      { Message.zero with type := mqttTypePublish, length := 4 } (some [0, 1, 0x61, 7]) 4
      0).map Prod.fst = some .incomplete := by
    decide +kernel
  have body : publishBody [0x61] 0 0 [7] = [0, 1, 0x61, 7] := by decide
  simp only [Message.zero] at returned incomplete
  rw [body] at returned
  simp only [List.length_cons, List.length_nil] at returned
  rw [returned] at incomplete
  cases incomplete

end MuMQ
