namespace MuMQ.Data

/-! Runs of a partial step function, and what holds at every step of a run. -/

section Run

variable {Event State : Type} (step : Event → State → Option State)

/-- The state after a list of events, `none` when one of them cannot happen. -/
def run : State → List Event → Option State
  | state, [] => some state
  | state, event :: rest =>
      match step event state with
      | some next => run next rest
      | none => none

/-- Every step of a run meets `holds`. -/
def Along (holds : Event → State → State → Prop) : State → List Event → Prop
  | _, [] => True
  | state, event :: rest =>
      ∀ next, step event state = some next →
        holds event state next ∧ Along holds next rest

variable {step}

theorem run_cons {state final : State} {event : Event} {rest : List Event} :
    run step state (event :: rest) = some final ↔
      ∃ next, step event state = some next ∧ run step next rest = some final := by
  rw [run]
  cases step event state with
  | none => simp
  | some next => simp

/-- What holds of every state a run goes through holds of its last one. -/
theorem Along.final (property : State → Prop) {start final : State}
    {events : List Event}
    (along : Along step (fun _ _ after => property after) start events)
    (init : property start) (ran : run step start events = some final) :
    property final := by
  induction events generalizing start with
  | nil =>
      cases ran
      exact init
  | cons event rest induction =>
      obtain ⟨next, stepped, ranRest⟩ := run_cons.mp ran
      obtain ⟨held, alongRest⟩ := along next stepped
      exact induction alongRest held ranRest

theorem Along.last {holds : Event → State → State → Prop} {start before after : State}
    {events : List Event} {event : Event} (along : Along step holds start (events ++ [event]))
    (ran : run step start events = some before) (stepped : step event before = some after) :
    holds event before after := by
  induction events generalizing start with
  | nil =>
      cases ran
      exact (along after stepped).1
  | cons first rest induction =>
      obtain ⟨next, firstStepped, ranRest⟩ := run_cons.mp ran
      exact induction (along next firstStepped).2 ranRest

theorem Along.imp {weaker holds : Event → State → State → Prop}
    (weaken : ∀ event before after, step event before = some after →
      holds event before after → weaker event before after)
    {start : State} {events : List Event} (along : Along step holds start events) :
    Along step weaker start events := by
  induction events generalizing start with
  | nil => trivial
  | cons event rest induction =>
      intro next stepped
      obtain ⟨held, alongRest⟩ := along next stepped
      exact ⟨weaken _ _ _ stepped held, induction alongRest⟩

theorem Along.and {first second : Event → State → State → Prop} {start : State}
    {events : List Event} (left : Along step first start events)
    (right : Along step second start events) :
    Along step (fun event before after => first event before after ∧
      second event before after) start events := by
  induction events generalizing start with
  | nil => trivial
  | cons event rest induction =>
      intro next stepped
      obtain ⟨leftHere, leftRest⟩ := left next stepped
      obtain ⟨rightHere, rightRest⟩ := right next stepped
      exact ⟨⟨leftHere, rightHere⟩, induction leftRest rightRest⟩

theorem Along.trivial (start : State) (events : List Event) :
    Along step (fun _ _ _ => True) start events := by
  induction events generalizing start with
  | nil => exact True.intro
  | cons event rest induction => exact fun next _ => ⟨True.intro, induction next⟩

theorem run_append {start middle final : State} {first second : List Event}
    (ranFirst : run step start first = some middle)
    (ranSecond : run step middle second = some final) :
    run step start (first ++ second) = some final := by
  induction first generalizing start with
  | nil =>
      cases ranFirst
      exact ranSecond
  | cons event rest induction =>
      obtain ⟨next, stepped, ranRest⟩ := run_cons.mp ranFirst
      exact run_cons.mpr ⟨next, stepped, induction ranRest⟩

/-- What an invariant gives at every step, a run gives all along, as long as its
steps meet the condition under which the invariant is kept. -/
theorem Along.of_invariant {invariant : State → Prop}
    {condition holds : Event → State → State → Prop}
    (keeps : ∀ event before after, invariant before →
      step event before = some after → condition event before after →
      invariant after ∧ holds event before after)
    {start : State} (init : invariant start) {events : List Event}
    (meets : Along step condition start events) :
    Along step holds start events := by
  induction events generalizing start with
  | nil => trivial
  | cons event rest induction =>
      intro next stepped
      obtain ⟨condition, metRest⟩ := meets next stepped
      obtain ⟨kept, holds⟩ := keeps event start next init stepped condition
      exact ⟨holds, induction kept metRest⟩

/-- Under an invariant that the condition keeps, what holds at a step exactly
under the condition holds all along exactly when the condition does. -/
theorem along_iff_of_invariant (invariant : State → Prop)
    {condition holds : Event → State → State → Prop} {events : List Event}
    (keeps : ∀ event ∈ events, ∀ before after, invariant before →
      step event before = some after → condition event before after →
      invariant after)
    (exact : ∀ event ∈ events, ∀ before after, invariant before →
      step event before = some after →
      (holds event before after ↔ condition event before after))
    {start : State} (init : invariant start) :
    Along step holds start events ↔ Along step condition start events := by
  induction events generalizing start with
  | nil => exact Iff.rfl
  | cons event rest induction =>
      obtain ⟨keepsHere, keepsRest⟩ := List.forall_mem_cons.mp keeps
      obtain ⟨exactHere, exactRest⟩ := List.forall_mem_cons.mp exact
      refine forall₂_congr fun next stepped => ?_
      have atStep := exactHere start next init stepped
      constructor
      · rintro ⟨holds, holdsRest⟩
        have condition := atStep.mp holds
        have kept := keepsHere start next init stepped condition
        exact ⟨condition, (induction keepsRest exactRest kept).mp holdsRest⟩
      · rintro ⟨condition, metRest⟩
        have kept := keepsHere start next init stepped condition
        exact ⟨atStep.mpr condition, (induction keepsRest exactRest kept).mpr metRest⟩

theorem along_events_iff (condition : Event → Prop) {start final : State}
    {events : List Event} (ran : run step start events = some final) :
    Along step (fun event _ _ => condition event) start events ↔
      ∀ event ∈ events, condition event := by
  induction events generalizing start with
  | nil => simp [Along]
  | cons event rest induction =>
      obtain ⟨next, stepped, ranRest⟩ := run_cons.mp ran
      rw [List.forall_mem_cons, ← induction ranRest]
      constructor
      · exact fun along => along next stepped
      · intro both other steppedOther
        rw [stepped] at steppedOther
        cases steppedOther
        exact both

variable (step)

/-- What the steps of a run put on record, in order. -/
def recorded {α : Type} (record : Event → State → State → List α) :
    State → List Event → List α
  | _, [] => []
  | state, event :: rest =>
      match step event state with
      | some next => record event state next ++ recorded record next rest
      | none => []

variable {step}

theorem Along.recorded_eq {α : Type} {first second : Event → State → State → List α}
    {start : State} {events : List Event}
    (along : Along step (fun event before after =>
      first event before after = second event before after) start events) :
    recorded step first start events = recorded step second start events := by
  induction events generalizing start with
  | nil => rfl
  | cons event rest induction =>
      rw [recorded, recorded]
      cases stepped : step event start with
      | none => rfl
      | some next =>
          obtain ⟨here, alongRest⟩ := along next stepped
          simp only [here, induction alongRest]

variable (step)

/-- The system with a note beside its state, which every step brings up to date. -/
def noting {Note : Type} (note : Event → State → State → Note → Note) (event : Event)
    (state : State × Note) : Option (State × Note) :=
  (step event state.1).map fun next => (next, note event state.1 next state.2)

variable {step}

theorem noting_eq_some {Note : Type} {note : Event → State → State → Note → Note}
    {event : Event} {before after : State × Note} :
    noting step note event before = some after ↔
      step event before.1 = some after.1 ∧ note event before.1 after.1 before.2 = after.2 := by
  rw [noting, Option.map_eq_some_iff]
  constructor
  · rintro ⟨next, stepped, rfl⟩
    exact ⟨stepped, rfl⟩
  · rintro ⟨stepped, noted⟩
    exact ⟨after.1, stepped, Prod.ext rfl noted⟩

/-- Taking notes does not change the runs. -/
theorem run_noting {Note : Type} (note : Event → State → State → Note → Note) (start : State)
    (kept : Note) (events : List Event) :
    (run (noting step note) (start, kept) events).map Prod.fst = run step start events := by
  induction events generalizing start kept with
  | nil => rfl
  | cons event rest induction =>
      rw [run, run, noting]
      cases stepped : step event start with
      | none => rfl
      | some next => exact induction next _

variable (step)

/-- A test before every step of a run, computed. -/
def checkAlong (check : Event → State → Bool) : State → List Event → Bool
  | _, [] => true
  | state, event :: rest =>
      check event state &&
        match step event state with
        | some next => checkAlong check next rest
        | none => true

variable {step}

theorem along_of_check (check : Event → State → Bool) {condition : Event → State → Prop}
    (sound : ∀ event before, check event before = true → condition event before)
    {start : State} {events : List Event} (checked : checkAlong step check start events = true) :
    Along step (fun event before _ => condition event before) start events := by
  induction events generalizing start with
  | nil => trivial
  | cons event rest induction =>
      rw [checkAlong, Bool.and_eq_true] at checked
      intro next stepped
      rw [stepped] at checked
      exact ⟨sound event start checked.1, induction checked.2⟩

end Run

end MuMQ.Data
