import MuMQ.Broker.HandMqtt
import MuMQ.Mqtt.PublishBody
import MuMQ.Mqtt.SubscribeParse

namespace MuMQ

/-! How far the topic checks that `handle_mqtt_command` starts read. -/

/-- The bytes that `pub_topic_valid` reads from `str` on; the end of the list stands for a
byte behind the payload. -/
def pubTopicReads : List UInt8 → Nat
  | [] => 1
  | byte :: rest =>
      if byte = 0 then 1
      else if byte = plus ∨ byte = hash then 1
      else 1 + pubTopicReads rest

/-- The bytes that `sub_topic_valid` reads from `str` on, after the character `c`: the
second test of a wildcard reads `str[1]`, when the first has not failed. -/
def subTopicReads (c : UInt8) : List UInt8 → Nat
  | [] => 1
  | byte :: rest =>
      if byte = 0 then 1
      else if byte = plus then
        if c ≠ 0 ∧ c ≠ slash then 1
        else if firstChar rest ≠ 0 ∧ firstChar rest ≠ slash then 2
        else 1 + subTopicReads byte rest
      else if byte = hash then
        if c ≠ 0 ∧ c ≠ slash then 1
        else if firstChar rest ≠ 0 then 2
        else 1 + subTopicReads byte rest
      else 1 + subTopicReads byte rest

/-- The check that `handle_mqtt_command` starts, with the bytes from the topic's first
one on to the end of the payload. -/
inductive TopicCheck where
  | pub (str : List UInt8)
  | sub (str : List UInt8)
  deriving DecidableEq

namespace TopicCheck

def verdict : TopicCheck → Bool
  | pub str => pubTopicValid str
  | sub str => subTopicValid str

def reads : TopicCheck → Nat
  | pub str => pubTopicReads str
  | sub str => subTopicReads 0 str

end TopicCheck

/-- The tests of `handle_mqtt_command` in front of the topic checks. -/
def handlerCheck (message : Message) : Option TopicCheck :=
  if message.type = mqttTypePublish then
    if message.qos = 0 then message.publish.topicName.data.map .pub else none
  else if message.type = mqttTypeSubscribe then
    match message.subscribe.topics with
    | some pair => pair.name.data.map .sub
    | none => none
  else none

/-- The topic field of a PUBLISH or SUBSCRIBE. -/
def topicField (message : Message) : MqttBuffer :=
  if message.type = mqttTypePublish then message.publish.topicName
  else (message.subscribe.topics.getD ⟨.empty, 0⟩).name

/-- A PUBLISH or SUBSCRIBE that the parser completes. -/
structure TopicPacket where
  parser : Parser
  message : Message
  payload : List UInt8
  final : ParseState
  initial : parser.state = .initial
  type : message.type = mqttTypePublish ∨ message.type = mqttTypeSubscribe
  length : message.length.toNat = payload.length
  completed : mqttParserExecute parser message (some payload) payload.length 0 =
    some (.done, final)

namespace TopicPacket

/-- The bytes of the topic field. -/
def topic (packet : TopicPacket) : List UInt8 := (topicField packet.final.message).bytes

def check (packet : TopicPacket) : Option TopicCheck := handlerCheck packet.final.message

/-- The check reads no byte outside the topic field, and every packet of the same type with
the same topic gets the same verdict. -/
def ReadsOnlyTopic (packet : TopicPacket) : Prop :=
  ∀ check ∈ packet.check, check.reads ≤ packet.topic.length ∧
    ∀ other : TopicPacket, other.message.type = packet.message.type →
      other.topic = packet.topic → ∀ otherCheck ∈ other.check,
        otherCheck.verdict = check.verdict

end TopicPacket

/-- A byte of the topic at which `sub_topic_valid` ends, `c` in front of the topic: NUL, a
wildcard that does not begin a level, or one behind which the topic goes on in its level. -/
def SubScanEnds (c : UInt8) (topic : List UInt8) : Prop :=
  ∃ before byte after, topic = before ++ byte :: after ∧
    (byte = 0 ∨
      (byte = plus ∨ byte = hash) ∧
          (before.getLast?.getD c ≠ 0 ∧ before.getLast?.getD c ≠ slash) ∨
      byte = plus ∧ (firstChar after ≠ 0 ∧ firstChar after ≠ slash) ∨
      byte = hash ∧ firstChar after ≠ 0)

/-- A byte of the topic at which `pub_topic_valid` ends. -/
def PubScanEnds (topic : List UInt8) : Prop := 0 ∈ topic ∨ plus ∈ topic ∨ hash ∈ topic

/-- A byte of the topic ends the check, or there is none. -/
def TopicPacket.EndsInside (packet : TopicPacket) : Prop :=
  if packet.message.type = mqttTypePublish then
    packet.message.qos ≠ 0 ∨ PubScanEnds packet.topic
  else SubScanEnds 0 packet.topic

/-! The two scans. -/

section Pub

variable {topic after : List UInt8}

theorem pubScanEnds_cons {byte : UInt8} {topic : List UInt8} :
    PubScanEnds (byte :: topic) ↔
      (byte = 0 ∨ byte = plus ∨ byte = hash) ∨ PubScanEnds topic := by
  simp only [PubScanEnds, List.mem_cons]
  grind

theorem pubTopicReads_le_iff :
    pubTopicReads (topic ++ after) ≤ topic.length ↔ PubScanEnds topic := by
  induction topic with
  | nil =>
      have positive : 1 ≤ pubTopicReads after := by
        cases after with
        | nil => exact Nat.le_refl 1
        | cons byte rest =>
            rw [pubTopicReads]
            repeat' split
            all_goals omega
      simp only [List.nil_append, List.length_nil, PubScanEnds, List.not_mem_nil, or_self,
        iff_false]
      omega
  | cons byte topic induction =>
      rw [List.cons_append, pubTopicReads, pubScanEnds_cons, ← induction, List.length_cons]
      split
      · rename_i nul
        simp [nul]
      · rename_i notNul
        split
        · rename_i wildcard
          simp [wildcard]
        · rename_i plain
          simp only [notNul, plain, false_or]
          omega

/-- A scan that ends in the topic does not depend on what is behind it. -/
theorem pubTopicScan_append (ends : PubScanEnds topic) (other : List UInt8) (len : Nat) :
    pubTopicScan len (topic ++ after) = pubTopicScan len (topic ++ other) := by
  induction topic generalizing len with
  | nil => simp [PubScanEnds] at ends
  | cons byte topic induction =>
      rw [List.cons_append, List.cons_append, pubTopicScan, pubTopicScan]
      rcases pubScanEnds_cons.mp ends with here | further
      · rcases here with nul | wildcard
        · rw [if_pos nul, if_pos nul]
        · rw [if_pos wildcard, if_pos wildcard]
      · rw [induction further]

end Pub

/-- Why a scan after `c` ends at a byte in front of `rest`. -/
def SubEndsAt (c byte : UInt8) (rest : List UInt8) : Prop :=
  byte = 0 ∨ (byte = plus ∨ byte = hash) ∧ (c ≠ 0 ∧ c ≠ slash) ∨
    byte = plus ∧ (firstChar rest ≠ 0 ∧ firstChar rest ≠ slash) ∨
    byte = hash ∧ firstChar rest ≠ 0

theorem subScanEnds_nil (c : UInt8) : ¬ SubScanEnds c [] := by
  rintro ⟨before, byte, after, split, _⟩
  have nonempty : before ++ byte :: after ≠ [] := by simp
  exact nonempty split.symm

theorem subScanEnds_cons {c byte : UInt8} {topic : List UInt8} :
    SubScanEnds c (byte :: topic) ↔ SubEndsAt c byte topic ∨ SubScanEnds byte topic := by
  constructor
  · rintro ⟨before, found, after, split, ends⟩
    cases before with
    | nil =>
        cases split
        exact .inl ends
    | cons first before =>
        cases split
        rw [List.getLast?_cons, Option.getD_some] at ends
        exact .inr ⟨before, found, after, rfl, ends⟩
  · rintro (here | ⟨before, found, after, rfl, ends⟩)
    · exact ⟨[], byte, topic, rfl, here⟩
    · refine ⟨byte :: before, found, after, rfl, ?_⟩
      rw [List.getLast?_cons, Option.getD_some]
      exact ends

theorem one_le_subTopicReads (c : UInt8) (str : List UInt8) : 1 ≤ subTopicReads c str := by
  cases str with
  | nil => exact Nat.le_refl 1
  | cons byte rest =>
      rw [subTopicReads]
      repeat' split
      all_goals omega

theorem subTopicReads_cons {c byte : UInt8} {rest : List UInt8} (goesOn : ¬ SubEndsAt c byte rest) :
    subTopicReads c (byte :: rest) = 1 + subTopicReads byte rest := by
  simp only [SubEndsAt, not_or, not_and] at goesOn
  obtain ⟨notNul, begins, afterPlus, afterHash⟩ := goesOn
  rw [subTopicReads, if_neg notNul]
  split
  · rename_i isPlus
    rw [if_neg fun bad => begins (.inl isPlus) bad.1 bad.2,
      if_neg fun bad => afterPlus isPlus bad.1 bad.2]
  · split
    · rename_i isHash
      rw [if_neg fun bad => begins (.inr isHash) bad.1 bad.2, if_neg (afterHash isHash)]
    · rfl

/-- At the end of the topic only the byte itself and the one before it can end the scan. -/
theorem subEndsAt_nil {c byte : UInt8} :
    SubEndsAt c byte [] ↔ byte = 0 ∨ (byte = plus ∨ byte = hash) ∧ (c ≠ 0 ∧ c ≠ slash) := by
  simp [SubEndsAt, firstChar]

theorem SubEndsAt.of_nil {c byte : UInt8} (ends : SubEndsAt c byte []) (rest : List UInt8) :
    SubEndsAt c byte rest := by
  rcases subEndsAt_nil.mp ends with nul | begins
  · exact .inl nul
  · exact .inr (.inl begins)

theorem SubEndsAt.reads_le {c byte : UInt8} {rest : List UInt8} (ends : SubEndsAt c byte rest) :
    subTopicReads c (byte :: rest) ≤ 2 := by
  rw [subTopicReads]
  rcases ends with nul | ⟨rfl | rfl, bad⟩ | ⟨rfl, bad⟩ | ⟨rfl, bad⟩
  · rw [if_pos nul]
    omega
  · rw [if_neg (by decide), if_pos rfl, if_pos bad]
    omega
  · rw [if_neg (by decide), if_neg (by decide), if_pos rfl, if_pos bad]
    omega
  · rw [if_neg (by decide), if_pos rfl, if_pos bad]
    split <;> omega
  · rw [if_neg (by decide), if_neg (by decide), if_pos rfl, if_pos bad]
    split <;> omega

/-- The last byte of a topic is the last byte read exactly when it ends the scan. -/
theorem subTopicReads_last_iff {c byte : UInt8} {after : List UInt8} :
    subTopicReads c (byte :: after) ≤ 1 ↔ SubEndsAt c byte [] := by
  have more := one_le_subTopicReads byte after
  rw [subEndsAt_nil, subTopicReads]
  by_cases nul : byte = 0
  · simp [nul]
  · rw [if_neg nul]
    by_cases bad : c ≠ 0 ∧ c ≠ slash
    · simp only [if_pos bad, nul, false_or]
      split
      · rename_i isPlus
        simp [isPlus, bad]
      · rename_i notPlus
        split
        · rename_i isHash
          simp [isHash, bad]
        · rename_i notHash
          simp only [notPlus, notHash, or_self, false_and, iff_false]
          omega
    · refine iff_of_false ?_ ?_
      · rw [if_neg bad, if_neg bad]
        repeat' split
        all_goals omega
      · rintro (isNul | ⟨_, isBad⟩)
        · exact nul isNul
        · exact bad isBad

section Sub

variable {after : List UInt8}

theorem subTopicReads_le_iff {topic : List UInt8} {c : UInt8} :
    subTopicReads c (topic ++ after) ≤ topic.length ↔ SubScanEnds c topic := by
  induction topic generalizing c with
  | nil =>
      have positive := one_le_subTopicReads c after
      simp only [List.nil_append, List.length_nil, subScanEnds_nil, iff_false]
      omega
  | cons byte topic induction =>
      rw [List.cons_append, List.length_cons, subScanEnds_cons]
      cases topic with
      | nil =>
          rw [List.nil_append, List.length_nil, Nat.zero_add, subTopicReads_last_iff]
          simp only [subScanEnds_nil, or_false]
      | cons next topic =>
          by_cases here : SubEndsAt c byte (next :: topic)
          · have ends : SubEndsAt c byte ((next :: topic) ++ after) := here
            have reads := ends.reads_le
            simp only [here, true_or, iff_true, List.length_cons]
            omega
          · have goesOn : ¬ SubEndsAt c byte ((next :: topic) ++ after) := here
            rw [subTopicReads_cons goesOn, ← induction]
            simp only [here, false_or]
            omega

theorem subTopicScan_of_ends {c byte : UInt8} {rest : List UInt8}
    (ends : SubEndsAt c byte rest) (len : Nat) :
    subTopicScan c len (byte :: rest) = if byte = 0 then !decide (len > 65535) else false := by
  rw [subTopicScan]
  rcases ends with nul | ⟨rfl | rfl, bad⟩ | ⟨rfl, bad⟩ | ⟨rfl, bad⟩
  · rw [if_pos nul, if_pos nul]
  · rw [if_neg (by decide), if_pos rfl, if_pos (.inl bad), if_neg (by decide)]
  · rw [if_neg (by decide), if_neg (by decide), if_pos rfl, if_pos (.inl bad),
      if_neg (by decide)]
  · rw [if_neg (by decide), if_pos rfl, if_pos (.inr bad), if_neg (by decide)]
  · rw [if_neg (by decide), if_neg (by decide), if_pos rfl, if_pos (.inr bad),
      if_neg (by decide)]

theorem subTopicScan_append {topic : List UInt8} {c : UInt8} (ends : SubScanEnds c topic)
    (other : List UInt8) (len : Nat) :
    subTopicScan c len (topic ++ after) = subTopicScan c len (topic ++ other) := by
  induction topic generalizing c len with
  | nil => exact absurd ends (subScanEnds_nil c)
  | cons byte topic induction =>
      rw [List.cons_append, List.cons_append]
      cases topic with
      | nil =>
          rcases subScanEnds_cons.mp ends with here | further
          · rw [subTopicScan_of_ends (here.of_nil _), subTopicScan_of_ends (here.of_nil _)]
          · exact absurd further (subScanEnds_nil byte)
      | cons next topic =>
          rcases subScanEnds_cons.mp ends with here | further
          · have left : SubEndsAt c byte ((next :: topic) ++ after) := here
            have right : SubEndsAt c byte ((next :: topic) ++ other) := here
            rw [subTopicScan_of_ends left, subTopicScan_of_ends right]
          · rw [subTopicScan, subTopicScan, induction further]
            rfl

end Sub

/-! The topic of a packet that the parser completes. -/

/-- A buffer that points to these bytes of the payload and has their number. -/
structure MqttBuffer.PointsTo (buffer : MqttBuffer) (topic : List UInt8) : Prop where
  bytes : buffer.bytes = topic
  pointer : ∃ after, buffer.data = some (topic ++ after)

theorem parserStep_subscribeTopicName {data : Option (List UInt8)} {len : Nat}
    {state : ParseState} (at_ : state.parser.state = .subscribeTopicName) :
    parserStep data len state =
      (state.setSubscribe { state.message.subscribe with
          topics := some (state.message.subscribe.topics.getD ⟨.empty, 0⟩) }).withField
        (readString data len state.nread) fun name state =>
          match byteAt data state.nread with
          | some qos =>
              .ret .done
                ({ state.setSubscribe
                    { state.message.subscribe with topics := some ⟨name, qos⟩ } with
                    nread := state.nread + 1 }.enter .initial)
          | none => .fault := by
  rw [parserStep, at_]
  rfl

theorem finishes_subscribeTopicName {payload before rest : List UInt8} {turns : Nat}
    {state final : ParseState} (bounded : payload.length < 2 ^ 64)
    (at_ : state.parser.state = .subscribeTopicName) (split : payload = before ++ rest)
    (nread : state.nread = before.length)
    (finishes : Finishes (some payload) payload.length (turns + 1) state
      (fun state => state = final)) :
    final.message.type = state.message.type ∧
      ∃ name qos topic, final.message.subscribe.topics = some ⟨name, qos⟩ ∧
        name.PointsTo topic := by
  obtain ⟨_, ran, rfl⟩ := finishes
  rw [parserLoop, parserStep_subscribeTopicName at_] at ran
  cases readName : readString (some payload) payload.length state.nread with
  | incomplete =>
      rw [readName] at ran
      cases ran
  | fault =>
      rw [readName] at ran
      cases ran
  | field name behind =>
      rw [readName, ParseState.withField] at ran
      rw [nread] at readName
      obtain ⟨topic, after, short, _, rfl, rfl⟩ := (readString_iff bounded split).mp readName
      have holds :
          (⟨UInt32.ofNat topic.length, some (topic ++ after)⟩ : MqttBuffer).Holds topic :=
        MqttBuffer.holds_append (Nat.lt_of_le_of_lt short (by decide))
      cases byte : byteAt (some payload) (before ++ lengthPrefixed topic).length with
      | none =>
          simp only [byte] at ran
          cases ran
      | some qos =>
          simp only [byte] at ran
          cases ran
          exact ⟨rfl, _, _, topic, rfl, holds.bytes, after, rfl⟩

theorem subscribeDone {payload : List UInt8} {parser : Parser} {message : Message}
    {final : ParseState} (bounded : payload.length < 2 ^ 64) (initial : parser.state = .initial)
    (type : message.type = mqttTypeSubscribe)
    (done : mqttParserExecute parser message (some payload) payload.length 0 =
      some (.done, final)) :
    final.message.type = mqttTypeSubscribe ∧
      ∃ name qos topic, final.message.subscribe.topics = some ⟨name, qos⟩ ∧
        name.PointsTo topic := by
  have finishes : Finishes (some payload) payload.length 25 ⟨parser, message, 0⟩
      (fun state => state = final) := ⟨final, done, rfl⟩
  rw [finishes_next (parserStep_initial_subscribe initial type),
    finishes_field (parserStep_subscribe_withField rfl)] at finishes
  obtain ⟨pair, _, readId, finishes⟩ := finishes
  obtain ⟨_, split, rfl⟩ := (readPair_iff bounded (List.nil_append payload).symm).mp readId
  obtain ⟨kept, named⟩ := finishes_subscribeTopicName bounded rfl split rfl finishes
  exact ⟨kept.trans type, named⟩

namespace TopicPacket

variable (packet : TopicPacket)

theorem payload_lt : packet.payload.length < 2 ^ 32 := by
  have small := packet.message.length.toNat_lt
  have length := packet.length
  omega

theorem publish_check (type : packet.message.type = mqttTypePublish) :
    ∃ after, packet.check =
      if packet.message.qos = 0 then some (.pub (packet.topic ++ after)) else none := by
  have parsed := publishDone packet.initial type packet.length packet.completed
  obtain ⟨after, pointer⟩ := parsed.whole.pointer
  have finalType : packet.final.message.type = mqttTypePublish := by
    rw [parsed.message]
    exact type
  have finalQos : packet.final.message.qos = packet.message.qos := by
    rw [parsed.message]
  refine ⟨after, ?_⟩
  rw [check, handlerCheck, if_pos finalType, finalQos, pointer, topic, topicField,
    if_pos finalType]
  rfl

theorem subscribe_check (type : packet.message.type = mqttTypeSubscribe) :
    ∃ after, packet.check = some (.sub (packet.topic ++ after)) := by
  have bounded : packet.payload.length < 2 ^ 64 :=
    Nat.lt_trans packet.payload_lt (by decide)
  obtain ⟨finalType, name, qos, bytes, topics, points⟩ :=
    subscribeDone bounded packet.initial type packet.completed
  obtain ⟨after, pointer⟩ := points.pointer
  have notPublish : packet.final.message.type ≠ mqttTypePublish := by
    rw [finalType]
    decide
  refine ⟨after, ?_⟩
  rw [check, handlerCheck, if_neg notPublish, if_pos finalType, topics, topic, topicField,
    if_neg notPublish, topics]
  show name.data.map TopicCheck.sub = some (.sub (name.bytes ++ after))
  rw [points.bytes, pointer]
  rfl

end TopicPacket

/-- The topic checks read only the topic when a byte of the topic ends them. -/
theorem readsOnlyTopic_iff (packet : TopicPacket) :
    packet.ReadsOnlyTopic ↔ packet.EndsInside := by
  rcases packet.type with type | type
  · obtain ⟨after, starts⟩ := packet.publish_check type
    rw [TopicPacket.EndsInside, if_pos type]
    by_cases qos : packet.message.qos = 0
    · rw [if_pos qos] at starts
      simp only [qos, ne_eq, not_true_eq_false, false_or]
      constructor
      · intro only
        exact pubTopicReads_le_iff.mp (only _ starts).1
      · intro ends check started
        cases starts.symm.trans started
        refine ⟨pubTopicReads_le_iff.mpr ends, ?_⟩
        intro other otherType sameTopic otherCheck otherStarted
        obtain ⟨otherAfter, otherStarts⟩ := other.publish_check (otherType.trans type)
        rw [otherStarts] at otherStarted
        split at otherStarted
        · cases otherStarted
          rw [sameTopic]
          exact pubTopicScan_append ends after 0
        · cases otherStarted
    · rw [if_neg qos] at starts
      refine iff_of_true ?_ (.inl qos)
      intro check started
      cases starts.symm.trans started
  · have notPublish : packet.message.type ≠ mqttTypePublish := by
      rw [type]
      decide
    obtain ⟨after, starts⟩ := packet.subscribe_check type
    rw [TopicPacket.EndsInside, if_neg notPublish]
    constructor
    · intro only
      exact subTopicReads_le_iff.mp (only _ starts).1
    · intro ends check started
      cases starts.symm.trans started
      refine ⟨subTopicReads_le_iff.mpr ends, ?_⟩
      intro other otherType sameTopic otherCheck otherStarted
      obtain ⟨otherAfter, otherStarts⟩ := other.subscribe_check (otherType.trans type)
      cases otherStarts.symm.trans otherStarted
      rw [sameTopic]
      exact subTopicScan_append ends after 0

/-- The state behind a PUBLISH of topic `a` with a content of two bytes, the second of them
NUL. -/
def behindTwo (byte : UInt8) : ParseState where
  parser := .zero
  message :=
    { Message.zero with
      type := mqttTypePublish
      length := 5
      publish := ⟨⟨1, some [0x61, byte, 0]⟩, 0, ⟨2, some [byte, 0]⟩⟩ }
  nread := 5

def publishOfTwo (byte : UInt8)
    (completed : mqttParserExecute .zero
        { Message.zero with type := mqttTypePublish, length := 5 }
        (some [0, 1, 0x61, byte, 0]) 5 0 =
      some (.done, behindTwo byte)) :
    TopicPacket where
  parser := .zero
  message := { Message.zero with type := mqttTypePublish, length := 5 }
  payload := [0, 1, 0x61, byte, 0]
  final := behindTwo byte
  initial := rfl
  type := .inl rfl
  length := rfl
  completed := completed

def publishOfPlus : TopicPacket := publishOfTwo plus (by decide +kernel)

def publishOfLetter : TopicPacket := publishOfTwo 0x62 (by decide +kernel)

/-- The contents `+` and `b` make two verdicts of the topic `a`. -/
theorem publishOfPlus_reads_content :
    ¬ publishOfPlus.ReadsOnlyTopic ∧ publishOfPlus.topic = publishOfLetter.topic ∧
      publishOfPlus.check.map TopicCheck.verdict = some false ∧
      publishOfLetter.check.map TopicCheck.verdict = some true := by
  refine ⟨fun only => ?_, by decide +kernel, by decide +kernel, by decide +kernel⟩
  have reads := (only (.pub [0x61, plus, 0]) rfl).1
  exact absurd reads (by decide +kernel)

end MuMQ
