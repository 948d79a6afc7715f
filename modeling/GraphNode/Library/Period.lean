import Mathlib

/-!
# Periods

A period is a half-open interval `[lower, upper)` of a linear order, unbounded above when it has
no upper bound: the validity of one version of a row in a versioned table.  Cutting a period at
a point keeps the points below the cut, lifting its upper bound gives back every point from the
lower bound on, and two periods overlap exactly when the larger of their lower bounds lies in
both.
-/

/-- The points from `lower` on and, when there is an upper bound, below it. -/
structure Period (β : Type) where
  lower : β
  upper : Option β
  deriving DecidableEq, Repr

namespace Period

variable {β : Type} [LinearOrder β]

/-- Whether the period contains `t`. -/
def contains (p : Period β) (t : β) : Bool :=
  decide (p.lower ≤ t) && p.upper.all fun upper => decide (t < upper)

/-- The period of every point from `lower` on. -/
def startingAt (lower : β) : Period β := ⟨lower, none⟩

/-- The period cut at `upper`. -/
def clamp (p : Period β) (upper : β) : Period β := ⟨p.lower, some upper⟩

/-- The period with its upper bound lifted. -/
def unbound (p : Period β) : Period β := ⟨p.lower, none⟩

/-- Whether two periods share a point; the larger lower bound is the least candidate. -/
def overlaps (p q : Period β) : Bool :=
  p.contains (max p.lower q.lower) && q.contains (max p.lower q.lower)

omit [LinearOrder β] in
@[simp]
theorem lower_clamp (p : Period β) (upper : β) : (p.clamp upper).lower = p.lower := rfl

omit [LinearOrder β] in
@[simp]
theorem upper_clamp (p : Period β) (upper : β) : (p.clamp upper).upper = some upper := rfl

omit [LinearOrder β] in
@[simp]
theorem lower_unbound (p : Period β) : p.unbound.lower = p.lower := rfl

omit [LinearOrder β] in
@[simp]
theorem upper_unbound (p : Period β) : p.unbound.upper = none := rfl

@[simp]
theorem contains_eq_true {p : Period β} {t : β} :
    p.contains t = true ↔ p.lower ≤ t ∧ ∀ upper ∈ p.upper, t < upper := by
  cases p with
  | mk lower upper => cases upper <;> simp [contains]

@[simp]
theorem contains_startingAt {lower t : β} : (startingAt lower).contains t = true ↔ lower ≤ t := by
  simp [startingAt]

@[simp]
theorem contains_clamp {p : Period β} {upper t : β} :
    (p.clamp upper).contains t = true ↔ p.lower ≤ t ∧ t < upper := by
  simp [clamp]

@[simp]
theorem contains_unbound {p : Period β} {t : β} : p.unbound.contains t = true ↔ p.lower ≤ t := by
  simp [unbound]

theorem lower_le_of_contains {p : Period β} {t : β} (inside : p.contains t = true) :
    p.lower ≤ t :=
  (contains_eq_true.mp inside).1

/-- A period with no upper bound contains every point from its lower bound on. -/
theorem contains_of_upper_none {p : Period β} (unbounded : p.upper = none) {t : β}
    (above : p.lower ≤ t) : p.contains t = true :=
  contains_eq_true.mpr ⟨above, by simp [unbounded]⟩

/-- A period cut at or below `t` does not contain it. -/
theorem not_contains_of_upper_le {p : Period β} {upper t : β} (bounded : p.upper = some upper)
    (below : upper ≤ t) : p.contains t = false := by
  rw [← Bool.not_eq_true, contains_eq_true, bounded]
  simp only [Option.mem_def, Option.some.injEq, forall_eq', not_and, not_lt]
  exact fun _ => below

/-- A bounded period that starts by `s` but does not contain it has ended by `s`. -/
theorem upper_le_of_not_contains {p : Period β} {upper s : β} (bounded : p.upper = some upper)
    (started : p.lower ≤ s) (outside : p.contains s = false) : upper ≤ s := by
  rw [← Bool.not_eq_true, contains_eq_true, bounded] at outside
  simp only [Option.mem_def, Option.some.injEq, forall_eq', not_and, not_lt] at outside
  exact outside started

/-- Below the cut, cutting an unbounded period changes nothing. -/
theorem contains_clamp_of_lt {p : Period β} (unbounded : p.upper = none) {upper t : β}
    (below : t < upper) : (p.clamp upper).contains t = p.contains t := by
  rw [Bool.eq_iff_iff, contains_clamp, contains_eq_true, unbounded]
  simp [below]

/-- From a point of a bounded period on, lifting the bound changes nothing. -/
theorem contains_unbound_of_contains {p : Period β} {s t : β} (inside : p.contains s = true)
    (below : t ≤ s) : p.unbound.contains t = p.contains t := by
  obtain ⟨_, within⟩ := contains_eq_true.mp inside
  rw [Bool.eq_iff_iff, contains_unbound, contains_eq_true]
  exact ⟨fun above => ⟨above, fun upper member => lt_of_le_of_lt below (within upper member)⟩,
    fun inside => inside.1⟩

theorem overlaps_iff {p q : Period β} :
    p.overlaps q = true ↔ ∃ t, p.contains t = true ∧ q.contains t = true := by
  constructor
  · intro overlapping
    simp only [overlaps, Bool.and_eq_true] at overlapping
    exact ⟨_, overlapping⟩
  · rintro ⟨t, inP, inQ⟩
    obtain ⟨lowerP, belowP⟩ := contains_eq_true.mp inP
    obtain ⟨lowerQ, belowQ⟩ := contains_eq_true.mp inQ
    have least : max p.lower q.lower ≤ t := max_le lowerP lowerQ
    simp only [overlaps, Bool.and_eq_true, contains_eq_true]
    exact ⟨⟨le_max_left _ _, fun upper member => lt_of_le_of_lt least (belowP upper member)⟩,
      ⟨le_max_right _ _, fun upper member => lt_of_le_of_lt least (belowQ upper member)⟩⟩

end Period
