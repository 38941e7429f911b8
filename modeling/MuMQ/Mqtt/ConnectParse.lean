import MuMQ.Mqtt.Parser

namespace MuMQ

/-! The CONNECT states of the parser as one sequence of reads. -/

/-- The loop returns `done`, in a state with a property. -/
def Finishes (data : Option (List UInt8)) (len turns : Nat) (state : ParseState)
    (post : ParseState → Prop) : Prop :=
  ∃ final, parserLoop data len turns state = some (.done, final) ∧ post final

section Turns

variable {data : Option (List UInt8)} {len turns : Nat} {state : ParseState}
  {post : ParseState → Prop}

theorem finishes_next {next : ParseState}
    (stepped : parserStep data len state = .next next) :
    Finishes data len (turns + 1) state post ↔ Finishes data len turns next post := by
  rw [Finishes, parserLoop, stepped]
  rfl

/-- A turn that reads a field and goes on finishes exactly when the field is there
and the rest finishes. -/
theorem finishes_field {α : Type} {read : FieldRead α}
    {use : α → ParseState → ParseState}
    (stepped : parserStep data len state =
      state.withField read fun value state => .next (use value state)) :
    Finishes data len (turns + 1) state post ↔
      ∃ value nread, read = .field value nread ∧
        Finishes data len turns (use value { state with nread := nread }) post := by
  rw [Finishes, parserLoop, stepped]
  cases read with
  | incomplete => simp [ParseState.withField]
  | fault => simp [ParseState.withField]
  | field value nread =>
      constructor
      · exact fun finishes => ⟨value, nread, rfl, finishes⟩
      · rintro ⟨_, _, same, finishes⟩
        cases same
        exact finishes

theorem finishes_lastField {α : Type} {read : FieldRead α}
    {use : α → ParseState → ParseState}
    (stepped : parserStep data len state =
      state.withField read fun value state => .ret .done (use value state)) :
    Finishes data len (turns + 1) state post ↔
      ∃ value nread, read = .field value nread ∧
        post (use value { state with nread := nread }) := by
  rw [Finishes, parserLoop, stepped]
  cases read with
  | incomplete => simp [ParseState.withField]
  | fault => simp [ParseState.withField]
  | field value nread =>
      constructor
      · rintro ⟨_, same, holds⟩
        cases same
        exact ⟨value, nread, rfl, holds⟩
      · rintro ⟨_, _, same, holds⟩
        cases same
        exact ⟨_, rfl, holds⟩

end Turns

/-- The read of a string that is there under a flag. -/
def readOptional (follows : UInt8) (data : Option (List UInt8)) (len nread : Nat) :
    FieldRead MqttBuffer :=
  if follows ≠ 0 then readString data len nread else .field .empty nread

theorem withField_readOptional {follows : UInt8} {data : Option (List UInt8)} {len : Nat}
    {state : ParseState} (use : MqttBuffer → ParseState → ParseStep) {skip : ParseStep}
    (skipped : use .empty state = skip) :
    state.withField (readOptional follows data len state.nread) use =
      if follows ≠ 0 then state.withField (readString data len state.nread) use
      else skip := by
  unfold readOptional
  split
  · rfl
  · exact skipped

section Fields

variable {data : Option (List UInt8)} {len : Nat} {state : ParseState}

theorem parserStep_protocolName (at_ : state.parser.state = .connectProtocolName) :
    parserStep data len state =
      state.withField (readString data len state.nread) fun name state =>
        .next ((state.setConnect
          { state.message.connect with protocolName := name }).enter
            .connectProtocolVersion) := by
  rw [parserStep, at_]

theorem parserStep_protocolVersion (at_ : state.parser.state = .connectProtocolVersion) :
    parserStep data len state =
      state.withField (readByte data len state.nread) fun version state =>
        .next ((state.setConnect
          { state.message.connect with protocolVersion := version }).enter
            .connectFlags) := by
  rw [parserStep, at_]

theorem parserStep_flags (at_ : state.parser.state = .connectFlags) :
    parserStep data len state =
      state.withField (readByte data len state.nread) fun byte state =>
        .next ((state.setConnect
          { state.message.connect with flags := connectFlagsOf byte }).enter
            .connectKeepAlive) := by
  rw [parserStep, at_]

theorem parserStep_keepAlive (at_ : state.parser.state = .connectKeepAlive) :
    parserStep data len state =
      state.withField (readPair data len state.nread) fun pair state =>
        .next ((state.setConnect
          { state.message.connect with keepAlive := wordOfBytes pair.1 pair.2 }).enter
            .connectClientIdentifier) := by
  rw [parserStep, at_]

theorem parserStep_clientId (at_ : state.parser.state = .connectClientIdentifier) :
    parserStep data len state =
      state.withField (readString data len state.nread) fun clientId state =>
        .next ((state.setConnect
          { state.message.connect with clientId := clientId }).enter
            .connectWillTopic) := by
  rw [parserStep, at_]

theorem parserStep_willTopic (at_ : state.parser.state = .connectWillTopic)
    (absent : state.message.connect.willTopic = .empty) :
    parserStep data len state =
      state.withField (readOptional state.message.connect.flags.will data len state.nread)
        fun willTopic state =>
          .next ((state.setConnect
            { state.message.connect with willTopic := willTopic }).enter
              .connectWillMessage) := by
  rw [parserStep, at_]
  exact (withField_readOptional _ (by rw [← absent]; rfl)).symm

theorem parserStep_willMessage (at_ : state.parser.state = .connectWillMessage)
    (absent : state.message.connect.willMessage = .empty) :
    parserStep data len state =
      state.withField (readOptional state.message.connect.flags.will data len state.nread)
        fun willMessage state =>
          .next ((state.setConnect
            { state.message.connect with willMessage := willMessage }).enter
              .connectUsername) := by
  rw [parserStep, at_]
  exact (withField_readOptional _ (by rw [← absent]; rfl)).symm

theorem parserStep_username (at_ : state.parser.state = .connectUsername)
    (absent : state.message.connect.username = .empty) :
    parserStep data len state =
      state.withField
        (readOptional state.message.connect.flags.usernameFollows data len state.nread)
        fun username state =>
          .next ((state.setConnect
            { state.message.connect with username := username }).enter
              .connectPassword) := by
  rw [parserStep, at_]
  exact (withField_readOptional _ (by rw [← absent]; rfl)).symm

theorem parserStep_password (at_ : state.parser.state = .connectPassword)
    (absent : state.message.connect.password = .empty) :
    parserStep data len state =
      state.withField
        (readOptional state.message.connect.flags.passwordFollows data len state.nread)
        fun password state =>
          .ret .done ((state.setConnect
            { state.message.connect with password := password }).enter .initial) := by
  rw [parserStep, at_]
  exact (withField_readOptional _ (by rw [← absent]; rfl)).symm

end Fields

/-- The reads of a CONNECT, each where the one before it ended. -/
inductive ConnectReads (data : Option (List UInt8)) (len : Nat)
    (parsed : ConnectFields) (nread : Nat) : Prop
  | intro {name version flags keepAlive clientId willTopic willMessage username : Nat}
      {byte : UInt8} {pair : UInt8 × UInt8}
      (readName : readString data len 0 = .field parsed.protocolName name)
      (readVersion : readByte data len name = .field parsed.protocolVersion version)
      (readFlags : readByte data len version = .field byte flags)
      (flagsEq : parsed.flags = connectFlagsOf byte)
      (readKeepAlive : readPair data len flags = .field pair keepAlive)
      (keepAliveEq : parsed.keepAlive = wordOfBytes pair.1 pair.2)
      (readClientId : readString data len keepAlive = .field parsed.clientId clientId)
      (readWillTopic : readOptional parsed.flags.will data len clientId =
        .field parsed.willTopic willTopic)
      (readWillMessage : readOptional parsed.flags.will data len willTopic =
        .field parsed.willMessage willMessage)
      (readUsername : readOptional parsed.flags.usernameFollows data len willMessage =
        .field parsed.username username)
      (readPassword : readOptional parsed.flags.passwordFollows data len username =
        .field parsed.password nread) :
      ConnectReads data len parsed nread

/-- The parser finishes a CONNECT exactly when all its fields are there to read. -/
theorem mqttParserExecute_connect_iff {data : Option (List UInt8)} {len nread : Nat}
    {message : Message} {error : MqttError} {parsed : ConnectFields}
    (type : message.type = mqttTypeConnect)
    (fresh : message.connect = Message.zero.connect) :
    (∃ final, mqttParserExecute ⟨.initial, error⟩ message data len 0 = some (.done, final) ∧
        final.message.connect = parsed ∧ final.nread = nread) ↔
      ConnectReads data len parsed nread := by
  have begin : parserStep data len ⟨⟨.initial, error⟩, message, 0⟩ =
      .next ⟨⟨.connect, error⟩, message, 0⟩ := by
    simp only [parserStep, if_pos type]
    rfl
  have absentWillTopic : message.connect.willTopic = .empty := by rw [fresh]; rfl
  have absentWillMessage : message.connect.willMessage = .empty := by rw [fresh]; rfl
  have absentUsername : message.connect.username = .empty := by rw [fresh]; rfl
  have absentPassword : message.connect.password = .empty := by rw [fresh]; rfl
  show Finishes data len 25 _
    (fun final => final.message.connect = parsed ∧ final.nread = nread) ↔ _
  rw [finishes_next begin, finishes_next rfl]
  constructor
  · intro finishes
    obtain ⟨_, _, readName, finishes⟩ :=
      (finishes_field (parserStep_protocolName rfl)).mp finishes
    obtain ⟨_, _, readVersion, finishes⟩ :=
      (finishes_field (parserStep_protocolVersion rfl)).mp finishes
    obtain ⟨_, _, readFlags, finishes⟩ :=
      (finishes_field (parserStep_flags rfl)).mp finishes
    obtain ⟨_, _, readKeepAlive, finishes⟩ :=
      (finishes_field (parserStep_keepAlive rfl)).mp finishes
    obtain ⟨_, _, readClientId, finishes⟩ :=
      (finishes_field (parserStep_clientId rfl)).mp finishes
    obtain ⟨_, _, readWillTopic, finishes⟩ :=
      (finishes_field (parserStep_willTopic rfl absentWillTopic)).mp finishes
    obtain ⟨_, _, readWillMessage, finishes⟩ :=
      (finishes_field (parserStep_willMessage rfl absentWillMessage)).mp finishes
    obtain ⟨_, _, readUsername, finishes⟩ :=
      (finishes_field (parserStep_username rfl absentUsername)).mp finishes
    obtain ⟨_, _, readPassword, connectEq, nreadEq⟩ :=
      (finishes_lastField (parserStep_password rfl absentPassword)).mp finishes
    subst connectEq nreadEq
    exact ⟨readName, readVersion, readFlags, rfl, readKeepAlive, rfl, readClientId,
      readWillTopic, readWillMessage, readUsername, readPassword⟩
  · rintro ⟨readName, readVersion, readFlags, flagsEq, readKeepAlive, keepAliveEq,
      readClientId, readWillTopic, readWillMessage, readUsername, readPassword⟩
    cases parsed
    subst flagsEq keepAliveEq
    refine (finishes_field (parserStep_protocolName rfl)).mpr ⟨_, _, readName, ?_⟩
    refine (finishes_field (parserStep_protocolVersion rfl)).mpr ⟨_, _, readVersion, ?_⟩
    refine (finishes_field (parserStep_flags rfl)).mpr ⟨_, _, readFlags, ?_⟩
    refine (finishes_field (parserStep_keepAlive rfl)).mpr ⟨_, _, readKeepAlive, ?_⟩
    refine (finishes_field (parserStep_clientId rfl)).mpr ⟨_, _, readClientId, ?_⟩
    refine (finishes_field (parserStep_willTopic rfl absentWillTopic)).mpr
      ⟨_, _, readWillTopic, ?_⟩
    refine (finishes_field (parserStep_willMessage rfl absentWillMessage)).mpr
      ⟨_, _, readWillMessage, ?_⟩
    refine (finishes_field (parserStep_username rfl absentUsername)).mpr
      ⟨_, _, readUsername, ?_⟩
    exact (finishes_lastField (parserStep_password rfl absentPassword)).mpr
      ⟨_, _, readPassword, rfl, rfl⟩

end MuMQ
