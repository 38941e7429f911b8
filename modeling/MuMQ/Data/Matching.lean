import Mathlib.Data.List.Basic

namespace MuMQ.Data

/-! Matching a list of levels against a filter with two wildcards, one for a
single level and one for all the levels that remain. -/

section Matching

variable {Level : Type} (single multi : Level)

/-- `filter` matches `topic`. -/
inductive Matches : List Level → List Level → Prop
  | nil : Matches [] []
  | multi (topic : List Level) : Matches [multi] topic
  | single (level : Level) (rest : Matches filter topic) :
      Matches (single :: filter) (level :: topic)
  | literal (level : Level) (rest : Matches filter topic) :
      Matches (level :: filter) (level :: topic)

variable {single multi}

theorem matches_nil_left {topic : List Level} :
    Matches single multi [] topic ↔ topic = [] := by
  constructor
  · intro matched
    cases matched
    rfl
  · rintro rfl
    exact .nil

theorem matches_singleton_nil {level : Level} :
    Matches single multi [level] [] ↔ level = multi := by
  constructor
  · intro matched
    cases matched
    rfl
  · rintro rfl
    exact .multi []

theorem matches_cons_cons_nil {first second : Level} {filter : List Level} :
    ¬ Matches single multi (first :: second :: filter) [] := by
  intro matched
  cases matched

theorem matches_cons_cons {first level : Level} {filter topic : List Level} :
    Matches single multi (first :: filter) (level :: topic) ↔
      (filter = [] ∧ first = multi) ∨
        ((first = single ∨ first = level) ∧ Matches single multi filter topic) := by
  constructor
  · intro matched
    cases matched with
    | multi topic => exact .inl ⟨rfl, rfl⟩
    | single level rest => exact .inr ⟨.inl rfl, rest⟩
    | literal level rest => exact .inr ⟨.inr rfl, rest⟩
  · rintro (⟨rfl, rfl⟩ | ⟨rfl | rfl, rest⟩)
    · exact .multi _
    · exact .single _ rest
    · exact .literal _ rest

instance decidableMatches [DecidableEq Level] :
    (filter topic : List Level) → Decidable (Matches single multi filter topic)
  | [], topic => decidable_of_iff (topic = []) matches_nil_left.symm
  | [level], [] => decidable_of_iff (level = multi) matches_singleton_nil.symm
  | _ :: _ :: _, [] => isFalse matches_cons_cons_nil
  | _ :: filter, _ :: topic =>
      have : Decidable (Matches single multi filter topic) :=
        decidableMatches filter topic
      decidable_of_iff _ matches_cons_cons.symm

end Matching

end MuMQ.Data
