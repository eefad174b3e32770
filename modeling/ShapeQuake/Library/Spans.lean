import Mathlib.Algebra.BigOperators.Group.List.Basic
import Mathlib.Algebra.GroupWithZero.Nat
import Mathlib.Order.Interval.Finset.Nat

/-! Spans of addresses and how many of them fit side by side. Two spans are
apart when one ends before the other starts; pairwise apart spans below a bound
have a total size below that bound. -/
namespace ShapeQuake.Library.Spans

/-- The addresses from `start` on, `size` of them. -/
structure Span where
  start : Nat
  size : Nat
  deriving DecidableEq, Repr

/-- One of the spans ends no later than the other starts. -/
def Apart (first second : Span) : Prop :=
  first.start + first.size ≤ second.start ∨ second.start + second.size ≤ first.start

instance : DecidableRel Apart := fun _ _ => inferInstanceAs (Decidable (_ ∨ _))

theorem apart_symm (apart : Apart first second) : Apart second first := Or.symm apart

instance : Std.Symm Apart := ⟨fun _ _ => apart_symm⟩

/-- Two spans of positive size that start at one address are not apart. -/
theorem start_ne_of_apart (apart : Apart first second) (left : 0 < first.size)
    (right : 0 < second.size) : first.start ≠ second.start := by
  rcases apart with before | after <;> omega

/-- All addresses of the first span are among those of the second. -/
def Within (inner outer : Span) : Prop :=
  outer.start ≤ inner.start ∧ inner.start + inner.size ≤ outer.start + outer.size

instance : DecidableRel Within := fun _ _ => inferInstanceAs (Decidable (_ ∧ _))

theorem within_trans {inner middle outer : Span} (first : Within inner middle) (second : Within middle outer) :
    Within inner outer := by
  obtain ⟨lower, upper⟩ := first
  obtain ⟨lowerOuter, upperOuter⟩ := second
  exact ⟨by omega, by omega⟩

/-- Spans inside spans that are apart are apart. -/
theorem apart_of_within {inner innerOther outer other : Span} (apart : Apart outer other)
    (first : Within inner outer) (second : Within innerOther other) : Apart inner innerOther := by
  obtain ⟨lower, upper⟩ := first
  obtain ⟨lowerOther, upperOther⟩ := second
  rcases apart with before | after
  · exact Or.inl (by omega)
  · exact Or.inr (by omega)

/-- Spans that are apart share no address. -/
theorem apart_disjoint (apart : Apart first second)
    (inFirst : first.start ≤ address ∧ address < first.start + first.size) :
    ¬ (second.start ≤ address ∧ address < second.start + second.size) := by
  rcases apart with before | after <;> omega

/-- An address behind the first of a span is not where another one starts. -/
theorem not_start_of_inside {spans : List Span} (apart : spans.Pairwise Apart)
    (solid : ∀ span ∈ spans, 0 < span.size) (member : span ∈ spans)
    (behind : span.start < address) (inside : address < span.start + span.size) :
    ∀ other ∈ spans, other.start ≠ address := by
  rintro other held rfl
  have different : span ≠ other := by
    rintro rfl
    exact Nat.lt_irrefl _ behind
  refine apart_disjoint (apart.forall member held different) ⟨Nat.le_of_lt behind, inside⟩ ?_
  exact ⟨Nat.le_refl _, Nat.lt_add_of_pos_right (solid other held)⟩

/-- The addresses the spans cover, as one finite set of the right size. -/
private theorem covered_addresses (spans : List Span) (apart : spans.Pairwise Apart) :
    ∃ covered : Finset Nat, covered.card = (spans.map Span.size).sum ∧
      ∀ address ∈ covered, ∃ span ∈ spans,
        span.start ≤ address ∧ address < span.start + span.size := by
  induction spans with
  | nil => exact ⟨∅, by simp⟩
  | cons span rest ih =>
    obtain ⟨apartRest, apartTail⟩ := List.pairwise_cons.mp apart
    obtain ⟨covered, size, inside⟩ := ih apartTail
    have disjoint : Disjoint (Finset.Ico span.start (span.start + span.size)) covered := by
      rw [Finset.disjoint_left]
      intro address here there
      obtain ⟨other, member, bounds⟩ := inside address there
      exact apart_disjoint (apartRest other member) (Finset.mem_Ico.mp here) bounds
    refine ⟨Finset.Ico span.start (span.start + span.size) ∪ covered, ?_, ?_⟩
    · rw [Finset.card_union_of_disjoint disjoint, Nat.card_Ico, size]
      simp
    · intro address member
      rcases Finset.mem_union.mp member with here | there
      · exact ⟨span, by simp, Finset.mem_Ico.mp here⟩
      · obtain ⟨other, held, bounds⟩ := inside address there
        exact ⟨other, List.mem_cons_of_mem _ held, bounds⟩

/-- Pairwise apart spans that end below a bound are together no larger. -/
theorem total_size_le {spans : List Span} (apart : spans.Pairwise Apart)
    (within : ∀ span ∈ spans, span.start + span.size ≤ bound) :
    (spans.map Span.size).sum ≤ bound := by
  obtain ⟨covered, size, inside⟩ := covered_addresses spans apart
  have below : covered ⊆ Finset.range bound := by
    intro address member
    obtain ⟨span, held, bounds⟩ := inside address member
    have := within span held
    exact Finset.mem_range.mpr (by omega)
  rw [← size, ← Finset.card_range bound]
  exact Finset.card_le_card below

end ShapeQuake.Library.Spans
