import Mathlib.Algebra.Ring.Nat

namespace MuMQ.Data

/-! Lists that grow: every element stays, possibly changed, in its order, and
fresh elements may stand anywhere between. -/

/-- `after` comes from `before` by changing elements and inserting fresh ones. -/
inductive Edit {α : Type} (changed : α → α → Prop) (fresh : α → Prop) :
    List α → List α → Prop
  | nil : Edit changed fresh [] []
  | change (step : changed old new) (rest : Edit changed fresh before after) :
      Edit changed fresh (old :: before) (new :: after)
  | insert (isFresh : fresh new) (rest : Edit changed fresh before after) :
      Edit changed fresh before (new :: after)

namespace Edit

variable {α β : Type} {changed : α → α → Prop} {fresh : α → Prop}

theorem refl_of_mem (reflexive : ∀ value ∈ values, changed value value) :
    Edit changed fresh values values := by
  induction values with
  | nil => exact .nil
  | cons value rest induction =>
      exact .change (reflexive value (by simp))
        (induction fun other member => reflexive other (by simp [member]))

theorem refl (reflexive : ∀ value, changed value value) (values : List α) :
    Edit changed fresh values values :=
  refl_of_mem fun value _ => reflexive value

theorem imp {changed' : α → α → Prop} {fresh' : α → Prop}
    (weakenChanged : ∀ old new, changed old new → changed' old new)
    (weakenFresh : ∀ new, fresh new → fresh' new) (edit : Edit changed fresh before after) :
    Edit changed' fresh' before after := by
  induction edit with
  | nil => exact .nil
  | change step rest induction => exact .change (weakenChanged _ _ step) induction
  | insert isFresh rest induction => exact .insert (weakenFresh _ isFresh) induction

theorem append (first : Edit changed fresh left left')
    (second : Edit changed fresh right right') :
    Edit changed fresh (left ++ right) (left' ++ right') := by
  induction first with
  | nil => exact second
  | change step rest induction => exact .change step induction
  | insert isFresh rest induction => exact .insert isFresh induction

theorem inserted (allFresh : ∀ value ∈ values, fresh value) :
    Edit changed fresh [] values := by
  induction values with
  | nil => exact .nil
  | cons value rest induction =>
      exact .insert (allFresh value (by simp))
        (induction fun other member => allFresh other (by simp [member]))

theorem map {changed' : β → β → Prop} {fresh' : β → Prop} (f : α → β)
    (mapChanged : ∀ old new, changed old new → changed' (f old) (f new))
    (mapFresh : ∀ new, fresh new → fresh' (f new))
    (edit : Edit changed fresh before after) :
    Edit changed' fresh' (before.map f) (after.map f) := by
  induction edit with
  | nil => exact .nil
  | change step rest induction => exact .change (mapChanged _ _ step) induction
  | insert isFresh rest induction => exact .insert (mapFresh _ isFresh) induction

/-- An element that every change makes a fresh one counts as inserted. -/
theorem drop_fresh (becomes : ∀ new, changed old new → fresh new)
    (edit : Edit changed fresh (old :: before) after) : Edit changed fresh before after := by
  generalize whole : old :: before = list at edit
  induction edit with
  | nil => cases whole
  | change step rest induction =>
      cases whole
      exact .insert (becomes _ step) rest
  | insert newFresh rest induction => exact .insert newFresh (induction whole)

theorem mem_after (edit : Edit changed fresh before after)
    (member : new ∈ after) :
    fresh new ∨ ∃ old ∈ before, changed old new := by
  induction edit with
  | nil => cases member
  | change step rest induction =>
      rcases List.mem_cons.mp member with rfl | inRest
      · exact .inr ⟨_, by simp, step⟩
      · rcases induction inRest with isFresh | ⟨old, oldMember, oldStep⟩
        · exact .inl isFresh
        · exact .inr ⟨old, by simp [oldMember], oldStep⟩
  | insert isFresh rest induction =>
      rcases List.mem_cons.mp member with rfl | inRest
      · exact .inl isFresh
      · exact induction inRest

theorem mem_before (edit : Edit changed fresh before after)
    (member : old ∈ before) : ∃ new ∈ after, changed old new := by
  induction edit with
  | nil => cases member
  | change step rest induction =>
      rcases List.mem_cons.mp member with rfl | inRest
      · exact ⟨_, by simp, step⟩
      · obtain ⟨new, newMember, newStep⟩ := induction inRest
        exact ⟨new, by simp [newMember], newStep⟩
  | insert isFresh rest induction =>
      obtain ⟨new, newMember, newStep⟩ := induction member
      exact ⟨new, by simp [newMember], newStep⟩

/-- A function that sees neither the changes nor the fresh elements collects the
same values before and after. -/
theorem flatMap_eq {f : α → List β} (edit : Edit changed fresh before after)
    (same : ∀ old ∈ before, ∀ new ∈ after, changed old new → f old = f new)
    (silent : ∀ new ∈ after, fresh new → f new = []) :
    before.flatMap f = after.flatMap f := by
  induction edit with
  | nil => rfl
  | @change old new before after step rest induction =>
      rw [List.flatMap_cons, List.flatMap_cons,
        same old (by simp) new (by simp) step,
        induction
          (fun old member new newMember =>
            same old (by simp [member]) new (by simp [newMember]))
          (fun new member => silent new (by simp [member]))]
  | @insert new before after isFresh rest induction =>
      rw [List.flatMap_cons, silent new (by simp) isFresh, List.nil_append]
      exact induction
        (fun old member new newMember => same old member new (by simp [newMember]))
        (fun new member => silent new (by simp [member]))

/-- A function that sees no fresh element and never more of a changed one collects
at most what it did. -/
theorem length_flatMap_le {f : α → List β} (edit : Edit changed fresh before after)
    (fewer : ∀ old ∈ before, ∀ new ∈ after, changed old new →
      (f new).length ≤ (f old).length)
    (silent : ∀ new ∈ after, fresh new → f new = []) :
    (after.flatMap f).length ≤ (before.flatMap f).length := by
  induction edit with
  | nil => exact Nat.le_refl _
  | @change old new before after step rest induction =>
      have here := fewer old (by simp) new (by simp) step
      have behind := induction
        (fun old member new newMember =>
          fewer old (by simp [member]) new (by simp [newMember]))
        (fun new member => silent new (by simp [member]))
      simp only [List.flatMap_cons, List.length_append]
      omega
  | @insert new before after isFresh rest induction =>
      rw [List.flatMap_cons, silent new (by simp) isFresh, List.nil_append]
      exact induction
        (fun old member new newMember => fewer old member new (by simp [newMember]))
        (fun new member => silent new (by simp [member]))

/-- It collects less when it sees less of one element. -/
theorem length_flatMap_lt {f : α → List β} (edit : Edit changed fresh before after)
    (fewer : ∀ old ∈ before, ∀ new ∈ after, changed old new →
      (f new).length ≤ (f old).length)
    (silent : ∀ new ∈ after, fresh new → f new = []) {less : α} (member : less ∈ before)
    (lost : ∀ new ∈ after, changed less new → (f new).length < (f less).length) :
    (after.flatMap f).length < (before.flatMap f).length := by
  induction edit with
  | nil => cases member
  | @change old new before after step rest induction =>
      have fewerRest : ∀ old ∈ before, ∀ new ∈ after, changed old new →
          (f new).length ≤ (f old).length :=
        fun old member new newMember => fewer old (by simp [member]) new (by simp [newMember])
      have silentRest : ∀ new ∈ after, fresh new → f new = [] :=
        fun new member => silent new (by simp [member])
      simp only [List.flatMap_cons, List.length_append]
      rcases List.mem_cons.mp member with rfl | inRest
      · have here := lost new (by simp) step
        have behind := rest.length_flatMap_le fewerRest silentRest
        omega
      · have here := fewer old (by simp) new (by simp) step
        have behind := induction fewerRest silentRest inRest
          (fun new member => lost new (by simp [member]))
        omega
  | @insert new before after isFresh rest induction =>
      rw [List.flatMap_cons, silent new (by simp) isFresh, List.nil_append]
      exact induction
        (fun old member new newMember => fewer old member new (by simp [newMember]))
        (fun new member => silent new (by simp [member])) member
        (fun new member => lost new (by simp [member]))

theorem sum_le {weight : α → Nat} (edit : Edit changed fresh before after)
    (grows : ∀ old new, changed old new → weight old ≤ weight new) :
    (before.map weight).sum ≤ (after.map weight).sum := by
  induction edit with
  | nil => exact Nat.le_refl _
  | change step rest induction =>
      rw [List.map_cons, List.map_cons, List.sum_cons, List.sum_cons]
      exact Nat.add_le_add (grows _ _ step) induction
  | insert isFresh rest induction =>
      rw [List.map_cons, List.sum_cons]
      exact Nat.le_add_left_of_le induction

/-- When no element loses weight and the whole gains none, every element keeps its
weight, and the fresh ones have none. -/
theorem of_weight {weight : α → Nat} (edit : Edit changed fresh before after)
    (grows : ∀ old new, changed old new → weight old ≤ weight new)
    (kept : (after.map weight).sum = (before.map weight).sum) :
    Edit (fun old new => changed old new ∧ weight new = weight old)
      (fun new => fresh new ∧ weight new = 0) before after := by
  induction edit with
  | nil => exact .nil
  | @change old new before after step rest induction =>
      have here := grows _ _ step
      have behind := rest.sum_le grows
      rw [List.map_cons, List.map_cons, List.sum_cons, List.sum_cons] at kept
      exact .change ⟨step, by omega⟩ (induction (by omega))
  | @insert new before after isFresh rest induction =>
      have behind := rest.sum_le grows
      rw [List.map_cons, List.sum_cons] at kept
      exact .insert ⟨isFresh, by omega⟩ (induction (by omega))

end Edit

end MuMQ.Data
