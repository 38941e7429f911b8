import MuMQ.Data.Run

namespace MuMQ.Data

/-! Runs of a system beside those of a model of it, whole or in part. -/

/-- What a model makes of the events, one after another. -/
def responses {Event View Output : Type} (respond : Event → View → View × List Output) :
    View → List Event → View × List Output
  | view, [] => (view, [])
  | view, event :: rest =>
      let here := respond event view
      let later := responses respond here.1 rest
      (later.1, here.2 ++ later.2)

theorem responses_foldl {Event View Output : Type}
    {respond : Event → View → View × List Output} {next : Event → View → View}
    (steps : ∀ event view, (respond event view).1 = next event view) (view : View)
    (events : List Event) :
    (responses respond view events).1 = events.foldl (fun view event => next event view) view := by
  induction events generalizing view with
  | nil => rfl
  | cons event rest induction =>
      rw [responses, List.foldl_cons, ← steps]
      exact induction _

/-- Every step of the system is a step of the model, which puts out the same. -/
def Simulates {Event State View Output : Type} (step : Event → State → Option State)
    (output : Event → State → State → List Output)
    (respond : Event → View → View × List Output) (related : State → View → Prop) : Prop :=
  ∀ {event before after view}, related before view → step event before = some after →
    related after (respond event view).1 ∧ output event before after = (respond event view).2

theorem Simulates.run {Event State View Output : Type} {step : Event → State → Option State}
    {output : Event → State → State → List Output}
    {respond : Event → View → View × List Output} {related : State → View → Prop}
    (simulates : Simulates step output respond related) {start final : State} {view : View}
    (init : related start view) {events : List Event}
    (ran : Data.run step start events = some final) :
    related final (responses respond view events).1 ∧
      recorded step output start events = (responses respond view events).2 := by
  induction events generalizing start view with
  | nil =>
      cases ran
      exact ⟨init, rfl⟩
  | cons event rest induction =>
      obtain ⟨next, stepped, ranRest⟩ := run_cons.mp ran
      obtain ⟨here, outputs⟩ := simulates init stepped
      obtain ⟨later, further⟩ := induction here ranRest
      refine ⟨later, ?_⟩
      rw [recorded, stepped]
      simp only
      rw [outputs, further]
      rfl

/-! A part of a system that only its own events touch. -/

/-- The events that a part owns, what there is to see of it, what it puts out in a step,
and how it responds to an event of its own. -/
structure Component (Event State View Output : Type) where
  owns : Event → Bool
  view : State → View
  output : Event → State → State → List Output
  respond : Event → View → View × List Output

namespace Component

variable {Event State View Output : Type} {step : Event → State → Option State}
variable (component : Component Event State View Output)

/-- Under an invariant the part responds to its own events, and no other event is seen. -/
structure Separate (step : Event → State → Option State) (invariant : State → Prop) : Prop where
  keeps : ∀ {event before after}, invariant before → step event before = some after →
    invariant after
  own : ∀ {event before after}, invariant before → step event before = some after →
    component.owns event = true →
    component.respond event (component.view before) =
      (component.view after, component.output event before after)
  others : ∀ {event before after}, invariant before → step event before = some after →
    component.owns event = false →
    component.view after = component.view before ∧ component.output event before after = []

variable {component} {invariant : State → Prop}

/-- Among all the events of a run, the part is what its own events make of it. -/
theorem Separate.responses_run (separate : component.Separate step invariant)
    {start final : State} {events : List Event} (init : invariant start)
    (ran : run step start events = some final) :
    responses component.respond (component.view start) (events.filter component.owns) =
      (component.view final, recorded step component.output start events) := by
  induction events generalizing start with
  | nil =>
      cases ran
      rfl
  | cons event rest induction =>
      obtain ⟨next, stepped, ranRest⟩ := run_cons.mp ran
      have later := induction (separate.keeps init stepped) ranRest
      rw [recorded, stepped]
      simp only
      cases owned : component.owns event with
      | true =>
          have responded := separate.own init stepped owned
          rw [List.filter_cons_of_pos owned, responses, responded, later]
      | false =>
          obtain ⟨view, nothing⟩ := separate.others init stepped owned
          rw [List.filter_cons_of_neg (by rw [owned]; exact Bool.false_ne_true), ← view,
            later, nothing, List.nil_append]

end Component

end MuMQ.Data
