import Mathlib

/-!
# Stripping a suffix

`trimEnd suffix xs` strips `suffix` from the end of `xs` for as long as it is there, as a
string pattern does in `trim_end_matches`; an empty pattern strips nothing.  The lemmas say what
it leaves of a list that ends with the suffix once, and which suffixes a list `xs ++ q` has:
those of `q`, and the `u ++ q` with `u` a suffix of `xs`.

Last, popping items from the end of a list while a predicate holds of the last one
(`rdropWhile`) removes exactly the items it holds of, when holding of an item makes it hold of
every later one.
-/

namespace Suffix

variable {α : Type} [DecidableEq α]

/-- Strip `suffix` from the end at most `fuel` times. -/
def trimEndFuel (suffix : List α) : Nat → List α → List α
  | 0, xs => xs
  | fuel + 1, xs =>
      if suffix ≠ [] ∧ suffix <:+ xs then
        trimEndFuel suffix fuel (xs.take (xs.length - suffix.length))
      else xs

/-- Strip `suffix` from the end as long as it is there; each strip shortens the list, so its
length bounds the strips. -/
def trimEnd (suffix xs : List α) : List α :=
  trimEndFuel suffix xs.length xs

theorem trimEndFuel_of_not_suffix {suffix xs : List α} (absent : ¬suffix <:+ xs) :
    ∀ fuel, trimEndFuel suffix fuel xs = xs
  | 0 => rfl
  | _ + 1 => by simp [trimEndFuel, absent]

@[simp]
theorem trimEnd_nil (xs : List α) : trimEnd [] xs = xs := by
  unfold trimEnd
  cases xs.length <;> simp [trimEndFuel]

/-- A list that ends with `suffix` once loses exactly that one occurrence. -/
theorem trimEnd_append_of_not_suffix {suffix xs : List α} (nonempty : suffix ≠ [])
    (absent : ¬suffix <:+ xs) : trimEnd suffix (xs ++ suffix) = xs := by
  obtain ⟨fuel, long⟩ : ∃ fuel, (xs ++ suffix).length = fuel + 1 :=
    Nat.exists_eq_add_one_of_ne_zero (by simp [nonempty])
  have stripped : (xs ++ suffix).take ((xs ++ suffix).length - suffix.length) = xs := by
    simp
  unfold trimEnd
  rw [long, trimEndFuel, if_pos ⟨nonempty, List.suffix_append xs suffix⟩, stripped,
    trimEndFuel_of_not_suffix absent]

omit [DecidableEq α] in
/-- The suffixes of `xs ++ q`: the suffixes of `q`, and `u ++ q` for each suffix `u` of `xs`.
Two suffixes of one list are suffixes of one another. -/
theorem suffix_append_iff {t xs q : List α} :
    t <:+ xs ++ q ↔ t <:+ q ∨ ∃ u, t = u ++ q ∧ u <:+ xs := by
  constructor
  · intro ends
    rcases List.suffix_or_suffix_of_suffix ends (List.suffix_append xs q) with short | long
    · exact .inl short
    · obtain ⟨u, rfl⟩ := List.suffix_iff_exists_eq_append.mp long
      exact .inr ⟨u, rfl, List.suffix_append_self_iff.mp ends⟩
  · rintro (short | ⟨u, rfl, ends⟩)
    · exact List.suffix_append_of_suffix short
    · exact List.suffix_append_self_iff.mpr ends

/-- The first entry of `table` whose key ends `xs ++ q` is the first whose key ends `q`, when no
key ends `xs` and every key longer than `q` that ends with `q` is `q` after another key. -/
theorem find?_suffix_append {γ : Type} {key : γ → List α} {table : List γ} {xs q : List α}
    (closed : ∀ entry ∈ table, ∀ u, key entry = u ++ q → u ≠ [] → ∃ other ∈ table, key other = u)
    (avoids : ∀ entry ∈ table, ¬key entry <:+ xs) :
    table.find? (fun entry => decide (key entry <:+ xs ++ q)) =
      table.find? fun entry => decide (key entry <:+ q) := by
  apply List.find?_congr
  intro entry member
  rw [Bool.eq_iff_iff, decide_eq_true_iff, decide_eq_true_iff, suffix_append_iff]
  constructor
  · rintro (short | ⟨u, same, ends⟩)
    · exact short
    · -- `u` is empty, or itself a key, which `xs` does not end with
      by_cases empty : u = []
      · subst empty
        simp [same]
      · obtain ⟨other, otherMember, otherKey⟩ := closed entry member u same empty
        exact absurd (otherKey ▸ ends) (avoids other otherMember)
  · exact .inl

omit [DecidableEq α] in
/-- The closure condition of `find?_suffix_append`, for the one candidate `u` a key determines. -/
theorem closed_of_take {γ : Type} {key : γ → List α} {table : List γ} {q : List α}
    (closed : ∀ entry ∈ table, q <:+ key entry → (key entry).length ≠ q.length →
      ∃ other ∈ table, key other = (key entry).take ((key entry).length - q.length)) :
    ∀ entry ∈ table, ∀ u, key entry = u ++ q → u ≠ [] → ∃ other ∈ table, key other = u := by
  intro entry member u same nonempty
  have longer : (key entry).length ≠ q.length := by
    simpa [same] using nonempty
  obtain ⟨other, otherMember, otherKey⟩ :=
    closed entry member (same ▸ List.suffix_append u q) longer
  exact ⟨other, otherMember, by simpa [same] using otherKey⟩

/-! ## Popping from the end -/

omit [DecidableEq α] in
/-- Popping from the end while `p` holds leaves the items where `p` fails, when `p` holding of
an item makes it hold of every later one. -/
theorem rdropWhile_eq_filter {p : α → Bool} {xs : List α}
    (upward : xs.Pairwise fun x y => p x = true → p y = true) :
    xs.rdropWhile p = xs.filter fun x => !p x := by
  induction xs using List.reverseRecOn with
  | nil => simp
  | append_singleton xs last popped =>
    rw [List.pairwise_append] at upward
    obtain ⟨front, -, toLast⟩ := upward
    rw [List.rdropWhile_concat, List.filter_append]
    by_cases holds : p last = true
    · simp [holds, popped front]
    · -- no earlier item is popped either: it would make the last one pop
      have kept : xs.filter (fun x => !p x) = xs := by
        rw [List.filter_eq_self]
        intro x listed
        simpa using mt (toLast x listed last (List.mem_singleton_self _)) holds
      simp [holds, kept]

end Suffix
