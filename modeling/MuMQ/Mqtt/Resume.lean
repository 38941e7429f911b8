import MuMQ.Mqtt.Bounds
import MuMQ.Mqtt.ConnectBody

namespace MuMQ

/-! Calls of the parser on longer and longer prefixes of a payload, against one call on
the whole. -/

/-- Calls of `mqtt_parser_execute` on the prefixes of these lengths, each with the parser,
the message and `*nread` that the one before left, as long as the last one returned
`MQTT_PARSER_RC_INCOMPLETE`. -/
def parsePrefixes (payload : List UInt8) :
    List Nat → ParserRc × ParseState → Option (ParserRc × ParseState)
  | [], result => some result
  | len :: lens, (rc, state) =>
      if rc = .incomplete then
        match mqttParserExecute state.parser state.message (some (payload.take len)) len
            state.nread with
        | some result => parsePrefixes payload lens result
        | none => none
      else some (rc, state)

structure SamePublish (left right : PublishFields) : Prop where
  topicName : SameString left.topicName right.topicName
  messageId : left.messageId = right.messageId
  content : SameString left.content right.content

/-- Equal messages, the strings that the parser stores by their bytes. -/
structure SameMessage (left right : Message) : Prop where
  retain : left.retain = right.retain
  qos : left.qos = right.qos
  dup : left.dup = right.dup
  type : left.type = right.type
  length : left.length = right.length
  connect : SameConnect left.connect right.connect
  connack : left.connack = right.connack
  publish : SamePublish left.publish right.publish
  subscribe : left.subscribe = right.subscribe
  suback : left.suback = right.suback

structure SameParse (left right : ParseState) : Prop where
  parser : left.parser = right.parser
  message : SameMessage left.message right.message
  nread : left.nread = right.nread

theorem SameString.refl (name : MqttBuffer) : SameString name name := ⟨rfl, rfl⟩

theorem SameMessage.refl (message : Message) : SameMessage message message where
  retain := rfl
  qos := rfl
  dup := rfl
  type := rfl
  length := rfl
  connect := ⟨.refl _, rfl, rfl, rfl, .refl _, .refl _, .refl _, .refl _, .refl _⟩
  connack := rfl
  publish := ⟨.refl _, rfl, .refl _⟩
  subscribe := rfl
  suback := rfl

/-! One turn on a prefix and on the whole. -/

/-- What a read in a prefix of a payload is against the same read in the whole: it lacks
bytes, as the other does when the prefix is the whole, or both find the same. -/
inductive ReadAlike {α : Type} (len : Nat) (whole : Prop) (alike : α → α → Prop) :
    FieldRead α → FieldRead α → Prop
  | lacks {read : FieldRead α} (also : whole → read = .incomplete) :
      ReadAlike len whole alike .incomplete read
  | finds {left right : α} {nread : Nat} (same : alike left right) (inside : nread ≤ len) :
      ReadAlike len whole alike (.field left nread) (.field right nread)

/-- The same for a turn of the parser's loop. -/
inductive StepAlike (len : Nat) (whole : Prop) (state other : ParseState) :
    ParseStep → ParseStep → Prop
  | waits {step : ParseStep} (also : whole → step = .ret .incomplete other) :
      StepAlike len whole state other (.ret .incomplete state) step
  | next {left right : ParseState} (same : SameParse left right) (inside : left.nread ≤ len) :
      StepAlike len whole state other (.next left) (.next right)
  | returns {rc : ParserRc} {left right : ParseState} (final : rc ≠ .incomplete)
      (same : SameParse left right) : StepAlike len whole state other (.ret rc left) (.ret rc right)

section Reads

variable {payload : List UInt8} {len nread : Nat}

theorem byteAt_take {index : Nat} (inside : index < len) :
    byteAt (some (payload.take len)) index = byteAt (some payload) index :=
  List.getElem?_take_of_lt inside

theorem sameString_take {index : Nat} {length : UInt32} (fits : index + length.toNat ≤ len) :
    SameString ⟨length, some ((payload.take len).drop index)⟩
      ⟨length, some (payload.drop index)⟩ where
  length := rfl
  bytes := by
    show ((payload.take len).drop index).take length.toNat = (payload.drop index).take _
    rw [List.drop_take, List.take_take, Nat.min_eq_left (by omega)]

theorem byteAt_pair (within : len ≤ payload.length) (behind : nread + 2 ≤ len) :
    ∃ high low, byteAt (some payload) nread = some high ∧
      byteAt (some payload) (nread + 1) = some low ∧
      byteAt (some (payload.take len)) nread = some high ∧
      byteAt (some (payload.take len)) (nread + 1) = some low := by
  obtain ⟨high, highAt⟩ : ∃ byte, byteAt (some payload) nread = some byte :=
    byteAt_isSome (show nread < payload.length by omega)
  obtain ⟨low, lowAt⟩ : ∃ byte, byteAt (some payload) (nread + 1) = some byte :=
    byteAt_isSome (show nread + 1 < payload.length by omega)
  refine ⟨high, low, highAt, lowAt, ?_, ?_⟩
  · rw [byteAt_take (by omega), highAt]
  · rw [byteAt_take (by omega), lowAt]

variable (within : len ≤ payload.length) (bounded : payload.length < 2 ^ 64)
  (inside : nread ≤ len)
include within bounded inside

theorem readByte_alike :
    ReadAlike len (len = payload.length) Eq (readByte (some (payload.take len)) len nread)
      (readByte (some payload) payload.length nread) := by
  unfold readByte
  rw [sizeSub_of_le inside (by omega), sizeSub_of_le (by omega) bounded]
  by_cases few : len - nread < 1
  · rw [if_pos few]
    exact .lacks fun whole => if_pos (by omega)
  · obtain ⟨byte, at_⟩ : ∃ byte, byteAt (some payload) nread = some byte :=
      byteAt_isSome (show nread < payload.length by omega)
    rw [if_neg few, if_neg (by omega), byteAt_take (by omega), at_]
    exact .finds rfl (by omega)

theorem readPair_alike :
    ReadAlike len (len = payload.length) Eq (readPair (some (payload.take len)) len nread)
      (readPair (some payload) payload.length nread) := by
  unfold readPair
  rw [sizeSub_of_le inside (by omega), sizeSub_of_le (by omega) bounded]
  by_cases few : len - nread < 2
  · rw [if_pos few]
    exact .lacks fun whole => if_pos (by omega)
  · obtain ⟨high, low, highAt, lowAt, highTaken, lowTaken⟩ :=
      byteAt_pair within (show nread + 2 ≤ len by omega)
    rw [if_neg few, if_neg (by omega), highTaken, lowTaken, highAt, lowAt]
    exact .finds rfl (by omega)

theorem readString_alike :
    ReadAlike len (len = payload.length) SameString
      (readString (some (payload.take len)) len nread)
      (readString (some payload) payload.length nread) := by
  unfold readString
  rw [sizeSub_of_le inside (by omega), sizeSub_of_le (by omega) bounded]
  by_cases few : len - nread < 2
  · rw [if_pos few]
    exact .lacks fun whole => if_pos (by omega)
  · obtain ⟨high, low, highAt, lowAt, highTaken, lowTaken⟩ :=
      byteAt_pair within (show nread + 2 ≤ len by omega)
    rw [if_neg few, if_neg (by omega), highTaken, lowTaken, highAt, lowAt]
    simp only
    rw [sizeSub_of_le (by omega) (by omega), sizeSub_of_le (by omega) (by omega)]
    by_cases short : len - nread - 2 < high.toNat * 256 + low.toNat
    · rw [if_pos short]
      exact .lacks fun whole => if_pos (by omega)
    · rw [if_neg short, if_neg (by omega)]
      have highSmall := high.toNat_lt
      have lowSmall := low.toNat_lt
      refine .finds (sameString_take ?_) (by omega)
      rw [UInt32.toNat_ofNat_of_lt' (show _ < 2 ^ 32 by omega)]
      omega

theorem readMessage_alike (strLen : UInt32) :
    ReadAlike len (len = payload.length) SameString
      (readMessage (some (payload.take len)) len nread strLen)
      (readMessage (some payload) payload.length nread strLen) := by
  unfold readMessage
  rw [sizeSub_of_le inside (by omega), sizeSub_of_le (by omega) bounded]
  by_cases few : len - nread < strLen.toNat
  · rw [if_pos few]
    exact .lacks fun whole => if_pos (by omega)
  · rw [if_neg few, if_neg (by omega)]
    exact .finds (sameString_take (by omega)) (by omega)

end Reads

section Step

variable {len : Nat} {whole : Prop} {state other : ParseState}

theorem ReadAlike.step {α : Type} {alike : α → α → Prop} {read otherRead : FieldRead α}
    (reads : ReadAlike len whole alike read otherRead)
    {use otherUse : α → ParseState → ParseStep}
    (uses : ∀ left right nread, alike left right → nread ≤ len →
      StepAlike len whole state other (use left { state with nread := nread })
        (otherUse right { other with nread := nread })) :
    StepAlike len whole state other (state.withField read use)
      (other.withField otherRead otherUse) := by
  cases reads with
  | lacks also => exact .waits fun isWhole => by rw [also isWhole, ParseState.withField]
  | finds same inside => exact uses _ _ _ same inside

theorem SameParse.enter (same : SameParse state other) (next : ParserState) :
    SameParse (state.enter next) (other.enter next) :=
  ⟨congrArg (fun parser : Parser => { parser with state := next }) same.parser, same.message,
    same.nread⟩

/-- One turn on a prefix and on the whole, in every state but the one that also reads the
QoS behind a SUBSCRIBE's topic. -/
theorem parserStep_alike {payload : List UInt8} (within : len ≤ payload.length)
    (bounded : payload.length < 2 ^ 64) (inside : state.nread ≤ len)
    (same : SameParse state other) (elsewhere : state.parser.state ≠ .subscribeTopicName) :
    StepAlike len (len = payload.length) state other
      (parserStep (some (payload.take len)) len state)
      (parserStep (some payload) payload.length other) := by
  obtain ⟨⟨current, error⟩, message, nread⟩ := state
  obtain ⟨otherParser, otherMessage, otherNread⟩ := other
  obtain ⟨rfl, alike, rfl⟩ := same
  simp only at inside alike elsewhere
  have string := readString_alike within bounded inside
  have byte := readByte_alike within bounded inside
  have pair := readPair_alike within bounded inside
  cases current with
  | initial =>
      simp only [parserStep, alike.type]
      repeat' split
      · exact .next ⟨rfl, alike, rfl⟩ inside
      · exact .next ⟨rfl, alike, rfl⟩ inside
      · exact .next ⟨rfl, alike, rfl⟩ inside
      · exact .next ⟨rfl, alike, rfl⟩ inside
      · exact .returns (by decide) ⟨rfl, alike, rfl⟩
      · exact .returns (by decide) ⟨rfl, alike, rfl⟩
      · exact .returns (by decide) ⟨rfl, alike, rfl⟩
  | variableHeader =>
      simp only [parserStep, alike.type]
      split
      · exact .next ⟨rfl, alike, rfl⟩ inside
      · exact .next ⟨rfl, alike, rfl⟩ inside
  | connectProtocolName =>
      simp only [parserStep]
      refine string.step ?_
      exact fun _ _ _ name le => .next
        ⟨rfl, { alike with connect := { alike.connect with protocolName := name } }, rfl⟩ le
  | connectProtocolVersion =>
      simp only [parserStep]
      refine byte.step ?_
      exact fun _ _ _ version le => .next
        ⟨rfl, { alike with connect := { alike.connect with protocolVersion := version } }, rfl⟩
        le
  | connectFlags =>
      simp only [parserStep]
      refine byte.step ?_
      rintro byte _ _ rfl le
      exact .next ⟨rfl, { alike with connect := { alike.connect with flags := rfl } }, rfl⟩ le
  | connectKeepAlive =>
      simp only [parserStep]
      refine pair.step ?_
      rintro pair _ _ rfl le
      exact .next ⟨rfl, { alike with connect := { alike.connect with keepAlive := rfl } }, rfl⟩
        le
  | connectClientIdentifier =>
      simp only [parserStep]
      refine string.step ?_
      exact fun _ _ _ clientId le => .next
        ⟨rfl, { alike with connect := { alike.connect with clientId := clientId } }, rfl⟩ le
  | connectWillTopic =>
      simp only [parserStep, alike.connect.flags]
      split
      · refine string.step ?_
        exact fun _ _ _ willTopic le => .next
          ⟨rfl, { alike with connect := { alike.connect with willTopic := willTopic } }, rfl⟩ le
      · exact .next ⟨rfl, alike, rfl⟩ inside
  | connectWillMessage =>
      simp only [parserStep, alike.connect.flags]
      split
      · refine string.step ?_
        exact fun _ _ _ willMessage le => .next
          ⟨rfl, { alike with connect := { alike.connect with willMessage := willMessage } }, rfl⟩
          le
      · exact .next ⟨rfl, alike, rfl⟩ inside
  | connectUsername =>
      simp only [parserStep, alike.connect.flags]
      split
      · refine string.step ?_
        exact fun _ _ _ username le => .next
          ⟨rfl, { alike with connect := { alike.connect with username := username } }, rfl⟩ le
      · exact .next ⟨rfl, alike, rfl⟩ inside
  | connectPassword =>
      simp only [parserStep, alike.connect.flags]
      split
      · refine string.step ?_
        exact fun _ _ _ password _ => .returns (by decide)
          ⟨rfl, { alike with connect := { alike.connect with password := password } }, rfl⟩
      · exact .returns (by decide) ⟨rfl, alike, rfl⟩
  | connack =>
      simp only [parserStep]
      refine pair.step ?_
      rintro pair _ _ rfl _
      exact .returns (by decide) ⟨rfl, { alike with connack := rfl }, rfl⟩
  | publishTopicName =>
      simp only [parserStep]
      refine string.step ?_
      exact fun _ _ _ topicName le => .next
        ⟨rfl, { alike with publish := { alike.publish with topicName := topicName } }, rfl⟩ le
  | publishMessageId =>
      simp only [parserStep, alike.qos]
      rw [sizeSub_of_le inside (by omega), sizeSub_of_le (by omega) bounded]
      by_cases few : len - nread < 2
      · rw [if_pos few]
        exact .waits fun whole => if_pos (by omega)
      · rw [if_neg few, if_neg (show ¬ payload.length - nread < 2 by omega)]
        split
        · refine pair.step ?_
          rintro pair _ _ rfl le
          exact .next ⟨rfl, { alike with publish := { alike.publish with messageId := rfl } },
            rfl⟩ le
        · refine .next ?_ ?_
          · exact ⟨rfl, { alike with publish := { alike.publish with messageId := rfl } }, rfl⟩
          · exact inside
  | publishMessage =>
      simp only [parserStep, alike.qos, alike.length, alike.publish.topicName.length]
      refine (readMessage_alike within bounded inside _).step ?_
      exact fun _ _ _ content _ => .returns (by decide)
        ⟨rfl, { alike with publish := { alike.publish with content := content } }, rfl⟩
  | subscribe =>
      simp only [parserStep]
      refine pair.step ?_
      rintro pair _ _ rfl le
      have subscribe := congrArg (fun fields : SubscribeFields =>
        { fields with messageId := wordOfBytes pair.1 pair.2 }) alike.subscribe
      exact .next ⟨rfl, { alike with subscribe := subscribe }, rfl⟩ le
  | subscribeTopicName => exact absurd rfl elsewhere
  | connect => exact .next ⟨rfl, alike, rfl⟩ inside
  | publish => exact .next ⟨rfl, alike, rfl⟩ inside
  | _ => exact .returns (by decide) ⟨rfl, alike, rfl⟩

end Step

/-! Whole calls. -/

/-- A state from which every call can be resumed: not within a SUBSCRIBE, whose topic is read
with a byte behind it. -/
structure Resumable (state : ParseState) : Prop where
  type : state.message.type ≠ mqttTypeSubscribe
  header : state.parser.state ≠ .variableHeader
  subscribe : state.parser.state ≠ .subscribe
  topicName : state.parser.state ≠ .subscribeTopicName

theorem Resumable.advances {state after : ParseState} (resumable : Resumable state)
    (advances : Advances state after) : Resumable after where
  type := fun type => resumable.type (advances.type.symm.trans type)
  header := advances.inside
  subscribe := fun at_ => resumable.type (advances.subscribe at_).2.1
  topicName := fun at_ => resumable.subscribe (advances.topicName at_).1

/-- What a call on a prefix returns, against the turns of the call on the whole payload: it
waits at one of them, or returns what they end with. -/
inductive CallAlike (payload : List UInt8) (len : Nat) (start : ParseState) :
    ParserRc → ParseState → Prop
  | waits {state other : ParseState}
      (turns : Turns (some payload) payload.length start other)
      (same : SameParse state other) (inside : state.nread ≤ len) (resumable : Resumable state)
      (also : len = payload.length →
        parserStep (some payload) payload.length other = .ret .incomplete other) :
      CallAlike payload len start .incomplete state
  | returns {rc : ParserRc} {state last other : ParseState}
      (turns : Turns (some payload) payload.length start last)
      (stepped : parserStep (some payload) payload.length last = .ret rc other)
      (final : rc ≠ .incomplete) (same : SameParse state other) :
      CallAlike payload len start rc state

section Calls

variable {payload : List UInt8}

theorem Turns.trans {data : Option (List UInt8)} {len : Nat} {start state after : ParseState}
    (turns : Turns data len start state) (more : Turns data len state after) :
    Turns data len start after := by
  induction more with
  | start => exact turns
  | next _ stepped induction => exact induction.next stepped

theorem CallAlike.before {len : Nat} {start next state : ParseState} {rc : ParserRc}
    (turns : Turns (some payload) payload.length start next)
    (call : CallAlike payload len next rc state) : CallAlike payload len start rc state := by
  cases call with
  | waits more same inside resumable also =>
      exact .waits (turns.trans more) same inside resumable also
  | returns more stepped final same => exact .returns (turns.trans more) stepped final same

variable (bounded : payload.length < 2 ^ 64)
include bounded

/-- A call on a prefix returns within as many turns as there are states ahead. -/
theorem parserLoop_alike {len : Nat} (within : len ≤ payload.length) {turns : Nat} :
    ∀ {state other : ParseState}, SameParse state other → Resumable state →
      state.nread ≤ len → 11 ≤ turns + state.parser.state.depth →
      ∃ rc after, parserLoop (some (payload.take len)) len turns state = some (rc, after) ∧
        CallAlike payload len other rc after := by
  induction turns with
  | zero =>
      intro state other _ _ _ enough
      have := state.parser.state.depth_le
      omega
  | succ turns induction =>
      intro state other same resumable inside enough
      have step := parserStep_alike within bounded inside same resumable.topicName
      rw [parserLoop]
      generalize stepEq : parserStep (some (payload.take len)) len state = stepped at step
      generalize otherEq : parserStep (some payload) payload.length other = otherStepped at step
      cases step with
      | waits also =>
          exact ⟨_, _, rfl, .waits .start same inside resumable fun whole =>
            otherEq.trans (also whole)⟩
      | next same inside =>
          have advances := parserStep_advances resumable.header stepEq
          have deeper := advances.deeper
          obtain ⟨rc, after, ran, call⟩ :=
            induction same (resumable.advances advances) inside (by omega)
          exact ⟨rc, after, ran, call.before (.next .start otherEq)⟩
      | returns final same => exact ⟨_, _, rfl, .returns .start otherEq final same⟩

theorem mqttParserExecute_alike {len : Nat} (within : len ≤ payload.length)
    {state other : ParseState} (same : SameParse state other) (resumable : Resumable state)
    (inside : state.nread ≤ len) :
    ∃ rc after,
      mqttParserExecute state.parser state.message (some (payload.take len)) len state.nread =
        some (rc, after) ∧
      CallAlike payload len other rc after :=
  parserLoop_alike bounded within same resumable inside (by omega)

/-- What calls on longer and longer prefixes end with, against the turns of one call on the
whole payload. -/
theorem parsePrefixes_alike {start : ParseState} {lengths : List Nat} :
    ∀ {state other : ParseState}, SameParse state other → Resumable state →
      Turns (some payload) payload.length start other →
      (∀ len ∈ lengths, state.nread ≤ len) → lengths.Pairwise (· ≤ ·) →
      lengths.getLast? = some payload.length →
      ∃ rc after last final,
        parsePrefixes payload lengths (.incomplete, state) = some (rc, after) ∧
        Turns (some payload) payload.length start last ∧
        parserStep (some payload) payload.length last = .ret rc final ∧
        SameParse after final := by
  induction lengths with
  | nil =>
      intro _ _ _ _ _ _ _ ends
      cases ends
  | cons len lens induction =>
      intro state other same resumable turns behind sorted ends
      obtain ⟨ahead, sorted⟩ := List.pairwise_cons.mp sorted
      have within : len ≤ payload.length := by
        cases lens with
        | nil => exact Nat.le_of_eq (Option.some.inj ends)
        | cons next rest =>
            exact ahead _ (List.mem_of_getLast? (by rwa [List.getLast?_cons_cons] at ends))
      obtain ⟨rc, after, ran, call⟩ := mqttParserExecute_alike bounded within same resumable
        (behind len List.mem_cons_self)
      rw [parsePrefixes, if_pos rfl, ran]
      cases call with
      | waits more sameAfter inside resumable also =>
          cases lens with
          | nil =>
              exact ⟨_, _, _, _, rfl, turns.trans more, also (Option.some.inj ends), sameAfter⟩
          | cons next rest =>
              rw [List.getLast?_cons_cons] at ends
              exact induction sameAfter resumable (turns.trans more)
                (fun length member => Nat.le_trans inside (ahead length member)) sorted ends
      | returns more stepped final sameAfter =>
          refine ⟨_, _, _, _, ?_, turns.trans more, stepped, sameAfter⟩
          cases lens with
          | nil => rfl
          | cons next rest => exact if_neg final

end Calls

section Result

variable {data : Option (List UInt8)} {len : Nat} {start state : ParseState}
  {result : ParserRc × ParseState}

/-- What a call returns is returned from each of its turns on. -/
theorem Turns.loop (turns : Turns data len start state) {fuel : Nat}
    (ran : parserLoop data len fuel start = some result) :
    ∃ fuel, parserLoop data len fuel state = some result := by
  induction turns with
  | start => exact ⟨fuel, ran⟩
  | next _ stepped induction =>
      obtain ⟨fuel, ran⟩ := induction
      cases fuel with
      | zero => cases ran
      | succ fuel =>
          rw [parserLoop, stepped] at ran
          exact ⟨fuel, ran⟩

theorem Turns.returns {rc : ParserRc} {final : ParseState} (turns : Turns data len start state)
    (stepped : parserStep data len state = .ret rc final) {fuel : Nat}
    (ran : parserLoop data len fuel start = some result) : result = (rc, final) := by
  obtain ⟨fuel, ran⟩ := turns.loop ran
  cases fuel with
  | zero => cases ran
  | succ fuel =>
      rw [parserLoop, stepped] at ran
      exact (Option.some.inj ran).symm

end Result

theorem Resumable.initial {parser : Parser} {message : Message} {nread : Nat}
    (at_ : parser.state = .initial) (type : message.type ≠ mqttTypeSubscribe) :
    Resumable ⟨parser, message, nread⟩ where
  type := type
  header := by simp [at_]
  subscribe := by simp [at_]
  topicName := by simp [at_]

theorem mqttParserExecute_returns {payload : List UInt8} {parser : Parser} {message : Message}
    (bounded : payload.length < 2 ^ 64) (initial : parser.state = .initial)
    (type : message.type ≠ mqttTypeSubscribe) :
    ∃ rc final, mqttParserExecute parser message (some payload) payload.length 0 =
      some (rc, final) := by
  obtain ⟨rc, final, returned, _⟩ :=
    mqttParserExecute_alike bounded (Nat.le_refl _)
      ⟨rfl, SameMessage.refl message, rfl⟩ (Resumable.initial initial type) (Nat.zero_le _)
  rw [List.take_length] at returned
  exact ⟨rc, final, returned⟩

/-- Calls on longer and longer prefixes of a payload, for as long as they find it incomplete,
end as one call on the whole does, for a message of any type but SUBSCRIBE. -/
theorem parsePrefixes_eq_execute (payload : List UInt8) (lengths : List Nat) (parser : Parser)
    (message : Message) (bounded : payload.length < 2 ^ 64) (initial : parser.state = .initial)
    (type : message.type ≠ mqttTypeSubscribe) (sorted : lengths.Pairwise (· ≤ ·))
    (ends : lengths.getLast? = some payload.length) :
    ∃ rc prefixes whole,
      parsePrefixes payload lengths (.incomplete, ⟨parser, message, 0⟩) = some (rc, prefixes) ∧
      mqttParserExecute parser message (some payload) payload.length 0 = some (rc, whole) ∧
      SameParse prefixes whole := by
  have same : SameParse ⟨parser, message, 0⟩ ⟨parser, message, 0⟩ :=
    ⟨rfl, SameMessage.refl message, rfl⟩
  obtain ⟨rc, prefixes, last, whole, ran, turns, stepped, alike⟩ :=
    parsePrefixes_alike bounded same (.initial initial type) .start
      (fun _ _ => Nat.zero_le _) sorted ends
  obtain ⟨_, _, returned⟩ := mqttParserExecute_returns bounded initial type
  rw [turns.returns stepped returned] at returned
  exact ⟨rc, prefixes, whole, ran, returned, alike⟩

/-- A PUBLISH of QoS 1 whose payload arrives in three pieces. -/
theorem parsePrefixes_eq_execute_publish :
    ∃ rc prefixes whole,
      parsePrefixes [0, 1, 0x61, 0, 7, 0x62] [1, 4, 6] (.incomplete,
        ⟨.zero, { Message.zero with type := mqttTypePublish, qos := 1, length := 6 }, 0⟩) =
          some (rc, prefixes) ∧
      mqttParserExecute .zero { Message.zero with type := mqttTypePublish, qos := 1, length := 6 }
        (some [0, 1, 0x61, 0, 7, 0x62]) 6 0 = some (rc, whole) ∧
      SameParse prefixes whole :=
  parsePrefixes_eq_execute [0, 1, 0x61, 0, 7, 0x62] [1, 4, 6] .zero
    { Message.zero with type := mqttTypePublish, qos := 1, length := 6 } (by decide) rfl
    (by decide) (by decide) rfl

end MuMQ
