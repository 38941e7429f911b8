import MuMQ.Mqtt.Bounds

namespace MuMQ

/-! What the parser completes: the type it began with, the topic of a SUBSCRIBE, and the
length of the topic of a PUBLISH. -/

/-- A SUBSCRIBE names a topic. -/
def Message.NamesTopic (message : Message) : Prop :=
  message.type = mqttTypeSubscribe →
    ∃ pair, message.subscribe.topics = some pair ∧ pair.name.data.isSome = true

/-- A turn of the parser's loop leaves a message of this type. -/
def ParseStep.HasType (kind : UInt8) : ParseStep → Prop
  | .next state => state.message.type = kind
  | .ret _ state => state.message.type = kind
  | .fault => True

theorem ParseState.withField_type {α : Type} {kind : UInt8} {state : ParseState}
    (type : state.message.type = kind) (read : FieldRead α)
    {use : α → ParseState → ParseStep}
    (uses : ∀ value nread, (use value { state with nread := nread }).HasType kind) :
    (state.withField read use).HasType kind := by
  cases read with
  | incomplete => exact type
  | fault => trivial
  | field value nread => exact uses value nread

theorem parserStep_type (data : Option (List UInt8)) (len : Nat) (state : ParseState) :
    (parserStep data len state).HasType state.message.type := by
  unfold parserStep
  split
  case h_19 =>
    refine ParseState.withField_type rfl _ fun name nread => ?_
    split
    · exact rfl
    · trivial
  all_goals repeat' split
  all_goals first
    | exact rfl
    | exact ParseState.withField_type rfl _ fun _ _ => rfl

/-- A SUBSCRIBE stands in a state of its own. -/
def ParseState.OnTrack (state : ParseState) : Prop :=
  state.message.type = mqttTypeSubscribe →
    state.parser.state = .initial ∨ state.parser.state = .subscribe ∨
      state.parser.state = .subscribeTopicName

/-- What a turn does to a SUBSCRIBE. -/
def ParseStep.OnTrack : ParseStep → Prop
  | .next state => state.OnTrack
  | .ret rc state => rc = .error ∨ rc = .incomplete ∨ state.message.NamesTopic
  | .fault => True

section Step

variable {data : Option (List UInt8)} {len : Nat} {state : ParseState}

theorem readString_data {nread after : Nat} {name : MqttBuffer}
    (read : readString data len nread = .field name after) :
    name.data = data.map (List.drop (nread + 2)) := by
  unfold readString at read
  split at read
  · cases read
  · split at read
    · simp only at read
      split at read
      · cases read
      · cases read
        rfl
    · cases read

theorem parserStep_subscribeTopicName_onTrack
    (at_ : state.parser.state = .subscribeTopicName) :
    (parserStep data len state).OnTrack := by
  rw [parserStep, at_]
  simp only [ParseState.setSubscribe]
  cases read : readString data len state.nread with
  | incomplete => exact .inr (.inl rfl)
  | fault => trivial
  | field name nread =>
      simp only [ParseState.withField]
      cases byte : byteAt data nread with
      | none => trivial
      | some qos =>
          refine .inr (.inr fun _ => ⟨⟨name, qos⟩, rfl, ?_⟩)
          obtain ⟨bytes, there, _⟩ := Option.bind_eq_some_iff.mp byte
          rw [readString_data read, there]
          rfl

theorem parserStep_onTrack (onTrack : state.OnTrack) : (parserStep data len state).OnTrack := by
  by_cases type : state.message.type = mqttTypeSubscribe
  · rcases onTrack type with at_ | at_ | at_
    · rw [parserStep_initial_subscribe at_ type]
      exact fun _ => .inr (.inl rfl)
    · rw [parserStep, at_]
      cases readPair data len state.nread with
      | incomplete => exact .inr (.inl rfl)
      | fault => trivial
      | field pair nread => exact fun _ => .inr (.inr rfl)
    · exact parserStep_subscribeTopicName_onTrack at_
  · have kept := parserStep_type data len state
    cases stepped : parserStep data len state with
    | next after =>
        rw [stepped] at kept
        exact fun same => absurd (kept.symm.trans same) type
    | ret rc after =>
        rw [stepped] at kept
        exact .inr (.inr fun same => absurd (kept.symm.trans same) type)
    | fault => trivial

end Step

/-- A packet that the parser completes as a SUBSCRIBE names a topic. -/
theorem parserLoop_namesTopic {data : Option (List UInt8)} {len turns : Nat}
    {state final : ParseState} {rc : ParserRc} (onTrack : state.OnTrack)
    (returned : parserLoop data len turns state = some (rc, final))
    (completed : ¬ (rc = .error ∨ rc = .incomplete)) : final.message.NamesTopic := by
  have ended : rc = .error ∨ rc = .incomplete ∨ final.message.NamesTopic := by
    refine parserLoop_rule ParseState.OnTrack
      (fun rc final => rc = .error ∨ rc = .incomplete ∨ final.message.NamesTopic)
      (fun state after onTrack stepped => ?_) (fun state rc after onTrack stepped => ?_)
      onTrack returned
    · have turn := @parserStep_onTrack data len state onTrack
      rwa [stepped] at turn
    · have turn := @parserStep_onTrack data len state onTrack
      rwa [stepped] at turn
  exact (ended.resolve_left fun failed => completed (.inl failed)).resolve_left
    fun failed => completed (.inr failed)

/-- The length of the topic of a PUBLISH is one of two bytes. -/
def Message.ShortTopic (message : Message) : Prop :=
  message.publish.topicName.length.toNat ≤ 65535

/-- A turn of the parser's loop leaves a message with a property. -/
def ParseStep.Leaves (holds : Message → Prop) : ParseStep → Prop
  | .next state => holds state.message
  | .ret _ state => holds state.message
  | .fault => True

theorem ParseState.withField_leaves {α : Type} {holds : Message → Prop} {state : ParseState}
    (before : holds state.message) (read : FieldRead α) {use : α → ParseState → ParseStep}
    (uses : ∀ value nread, read = .field value nread →
      (use value { state with nread := nread }).Leaves holds) :
    (state.withField read use).Leaves holds := by
  cases read with
  | incomplete => exact before
  | fault => trivial
  | field value nread => exact uses value nread rfl

theorem readString_short {data : Option (List UInt8)} {len nread after : Nat}
    {name : MqttBuffer} (read : readString data len nread = .field name after) :
    name.length.toNat ≤ 65535 := by
  unfold readString at read
  split at read
  · cases read
  · split at read
    · rename_i high low _ _
      simp only at read
      split at read
      · cases read
      · cases read
        have highSmall := high.toNat_lt
        have lowSmall := low.toNat_lt
        rw [UInt32.toNat_ofNat_of_lt' (show high.toNat * 256 + low.toNat < 2 ^ 32 by omega)]
        omega
    · cases read

theorem parserStep_shortTopic {data : Option (List UInt8)} {len : Nat} {state : ParseState}
    (short : state.message.ShortTopic) :
    (parserStep data len state).Leaves Message.ShortTopic := by
  unfold parserStep
  split
  case h_15 =>
    exact ParseState.withField_leaves short _ fun topicName nread read => readString_short read
  case h_19 =>
    have kept (topics : SubscribeFields) :
        (state.setSubscribe topics).message.ShortTopic := short
    refine ParseState.withField_leaves (kept _) _ fun name nread read => ?_
    split
    · exact short
    · trivial
  all_goals repeat' split
  all_goals first
    | exact short
    | exact ParseState.withField_leaves short _ fun _ _ _ => short

/-- What every turn leaves, the whole loop leaves. -/
theorem parserLoop_leaves {data : Option (List UInt8)} {len turns : Nat}
    {holds : Message → Prop}
    (keeps : ∀ state : ParseState, holds state.message →
      (parserStep data len state).Leaves holds)
    {state final : ParseState} {rc : ParserRc} (before : holds state.message)
    (returned : parserLoop data len turns state = some (rc, final)) : holds final.message := by
  refine parserLoop_rule (fun state => holds state.message) (fun _ final => holds final.message)
    (fun state after before stepped => ?_) (fun state rc after before stepped => ?_) before returned
  · have turn := keeps state before
    rwa [stepped] at turn
  · have turn := keeps state before
    rwa [stepped] at turn

theorem parserLoop_shortTopic {data : Option (List UInt8)} {len turns : Nat}
    {state final : ParseState} {rc : ParserRc} (short : state.message.ShortTopic)
    (returned : parserLoop data len turns state = some (rc, final)) :
    final.message.ShortTopic :=
  parserLoop_leaves (fun _ => parserStep_shortTopic) short returned

theorem parserLoop_type {data : Option (List UInt8)} {len turns : Nat}
    {state final : ParseState} {rc : ParserRc}
    (returned : parserLoop data len turns state = some (rc, final)) :
    final.message.type = state.message.type := by
  have keeps (before : ParseState) (same : before.message.type = state.message.type) :
      (parserStep data len before).Leaves fun message =>
        message.type = state.message.type := by
    have kept := parserStep_type data len before
    rw [same] at kept
    cases stepped : parserStep data len before with
    | next after => exact stepped ▸ kept
    | ret code after => exact stepped ▸ kept
    | fault => trivial
  exact @parserLoop_leaves data len turns (fun message => message.type = state.message.type)
    keeps state final rc rfl returned

end MuMQ
