import Mathlib.Init

/-! Processes in a row, each linked to the next. One that cannot go on waits for the
neighbour before it because their link is dry, or for the one behind it because their
link is not. A link is never both, so the waiting has an end. -/
namespace ShapeQuake.Library.Waiting

variable {alive goesOn dry : Nat → Prop}

/-- Behind a link that is not dry the waiting goes on to the end of the row. -/
private theorem goes_on_behind
    (each : ∀ k, alive k → goesOn k ∨ (∃ j, k = j + 1 ∧ alive j ∧ dry j) ∨ (alive (k + 1) ∧ ¬ dry k))
    (ends : ∀ k, alive k → k ≤ last) (there : alive (k + 1)) (full : ¬ dry k) : ∃ k, alive k ∧ goesOn k := by
  induction room : last - k generalizing k with
  | zero =>
    have inside := ends (k + 1) there
    omega
  | succ room ih =>
    rcases each (k + 1) there with goes | ⟨j, same, _, empty⟩ | ⟨further, more⟩
    · exact ⟨k + 1, there, goes⟩
    · obtain rfl := Nat.add_right_cancel same
      exact absurd empty full
    · exact ih further more (by omega)

/-- And before one that is dry, to its beginning. -/
private theorem goes_on_before
    (each : ∀ k, alive k → goesOn k ∨ (∃ j, k = j + 1 ∧ alive j ∧ dry j) ∨ (alive (k + 1) ∧ ¬ dry k))
    (there : alive k) (empty : dry k) : ∃ k, alive k ∧ goesOn k := by
  induction k with
  | zero =>
    rcases each 0 there with goes | ⟨j, same, _⟩ | ⟨_, full⟩
    · exact ⟨0, there, goes⟩
    · omega
    · exact absurd empty full
  | succ k ih =>
    rcases each (k + 1) there with goes | ⟨j, same, earlier, dried⟩ | ⟨_, full⟩
    · exact ⟨k + 1, there, goes⟩
    · obtain rfl := Nat.add_right_cancel same
      exact ih earlier dried
    · exact absurd empty full

/-- So one of them goes on, as long as there is one. -/
theorem someone_goes_on
    (each : ∀ k, alive k → goesOn k ∨ (∃ j, k = j + 1 ∧ alive j ∧ dry j) ∨ (alive (k + 1) ∧ ¬ dry k))
    (ends : ∀ k, alive k → k ≤ last) (there : alive k) : ∃ k, alive k ∧ goesOn k := by
  rcases each k there with goes | ⟨j, _, earlier, empty⟩ | ⟨further, full⟩
  · exact ⟨k, there, goes⟩
  · exact goes_on_before each earlier empty
  · exact goes_on_behind each ends further full

end ShapeQuake.Library.Waiting
