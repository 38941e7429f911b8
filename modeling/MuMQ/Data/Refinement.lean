import MuMQ.Data.Run

namespace MuMQ.Data

/-! A machine whose steps are runs of a second one. -/

section Refinement

variable {Event State Event' State' Label Output : Type}
variable (step : Event → State → Option State) (step' : Event' → State' → Option State')
variable (output : Label → Event → State → State → List Output)
variable (output' : Label → Event' → State' → State' → List Output)

/-- Whatever has happened, a step of the first machine on an event that is allowed is matched
by a run of the second that puts out the same. -/
def Refines (allowed : Event → Prop)
    (related : List Event → State → List Event' → State' → Prop) : Prop :=
  ∀ {past before past' before' event after}, related past before past' before' →
    allowed event → step event before = some after →
      ∃ matching after', run step' before' matching = some after' ∧
        (∀ label, recorded step' (output' label) before' matching =
          output label event before after) ∧
        related (past ++ [event]) after (past' ++ matching) after'

variable {step step' output output'}

theorem recorded_append {record : Event → State → State → List Output} {start middle : State}
    {first second : List Event} (ran : run step start first = some middle) :
    recorded step record start (first ++ second) =
      recorded step record start first ++ recorded step record middle second := by
  induction first generalizing start with
  | nil =>
      cases ran
      rfl
  | cons event rest induction =>
      obtain ⟨next, stepped, ranRest⟩ := run_cons.mp ran
      rw [List.cons_append, recorded, recorded, stepped]
      simp only
      rw [induction ranRest, List.append_assoc]

theorem Refines.run {allowed : Event → Prop}
    {related : List Event → State → List Event' → State' → Prop}
    (refines : Refines step step' output output' allowed related) {past : List Event}
    {past' : List Event'} {start final : State} {start' : State'}
    (init : related past start past' start') {events : List Event}
    (allow : ∀ event ∈ events, allowed event)
    (ran : Data.run step start events = some final) :
    ∃ events' final', Data.run step' start' events' = some final' ∧
      (∀ label, recorded step' (output' label) start' events' =
        recorded step (output label) start events) ∧
      related (past ++ events) final (past' ++ events') final' := by
  induction events generalizing past past' start start' with
  | nil =>
      cases ran
      refine ⟨[], start', rfl, fun _ => rfl, ?_⟩
      rwa [List.append_nil, List.append_nil]
  | cons event rest induction =>
      obtain ⟨next, stepped, ranRest⟩ := run_cons.mp ran
      obtain ⟨matching, next', matched, outputs, further⟩ :=
        refines init (allow event List.mem_cons_self) stepped
      obtain ⟨later, final', ranLater, laterOutputs, still⟩ :=
        induction further (fun other member => allow other (List.mem_cons_of_mem _ member)) ranRest
      refine ⟨matching ++ later, final', run_append matched ranLater, fun label => ?_, ?_⟩
      · rw [recorded_append matched, outputs, laterOutputs]
        conv => rhs; rw [recorded, stepped]
      · rw [List.append_assoc, List.append_assoc] at still
        exact still

end Refinement

end MuMQ.Data
