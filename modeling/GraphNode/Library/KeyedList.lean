import Mathlib

/-!
# Lists of keyed items

A list whose items carry a key, read as a finite map from keys to items: hash maps and priority
queues keyed by one field of their items are modelled this way.  The lemmas say how finding
an item by key interacts with editing, removing and appending items.  An edit of the first item
with a key, `modifyFirst`, needs only that the edit keeps the key of the items it applies to.
-/

namespace KeyedList

variable {α κ : Type} [DecidableEq κ] (key : α → κ)

/-- The first item with key `k`. -/
def find (items : List α) (k : κ) : Option α :=
  items.find? fun item => key item = k

/-- Apply `f` to the items with key `k`. -/
def modify (items : List α) (k : κ) (f : α → α) : List α :=
  items.map fun item => if key item = k then f item else item

/-- Drop the items with key `k`. -/
def erase (items : List α) (k : κ) : List α :=
  items.filter fun item => key item ≠ k

/-- Apply `f` to the first item with key `k` only, as an edit through `iter_mut().find(..)`
does. -/
def modifyFirst : List α → κ → (α → α) → List α
  | [], _, _ => []
  | item :: items, k, f => if key item = k then f item :: items else item :: modifyFirst items k f

/-- No two items share a key. -/
def Distinct (items : List α) : Prop :=
  (items.map key).Nodup

instance (items : List α) : Decidable (Distinct key items) :=
  inferInstanceAs (Decidable (items.map key).Nodup)

variable {key}

@[simp]
theorem find_nil (k : κ) : find key [] k = none := rfl

theorem find_cons (item : α) (items : List α) (k : κ) :
    find key (item :: items) k = if key item = k then some item else find key items k := by
  by_cases same : key item = k <;> simp [find, same]

theorem find_append (front back : List α) (k : κ) :
    find key (front ++ back) k = (find key front k).or (find key back k) := by
  simp [find, List.find?_append]

theorem key_of_find {items : List α} {k : κ} {item : α} (found : find key items k = some item) :
    key item = k := by
  simpa using List.find?_some found

theorem mem_of_find {items : List α} {k : κ} {item : α} (found : find key items k = some item) :
    item ∈ items :=
  List.mem_of_find?_eq_some found

theorem find_eq_none {items : List α} {k : κ} :
    find key items k = none ↔ ∀ item ∈ items, key item ≠ k := by
  simp [find, List.find?_eq_none]

/-- A key that no item has is not found. -/
theorem find_eq_none_of_not_mem {items : List α} {k : κ} (fresh : k ∉ items.map key) :
    find key items k = none :=
  find_eq_none.mpr fun _ member same => fresh (same ▸ List.mem_map_of_mem member)

/-- In a list of distinct keys, the item found by its key is the item. -/
theorem find_of_mem {items : List α} (distinct : Distinct key items) {item : α}
    (member : item ∈ items) : find key items (key item) = some item := by
  induction items with
  | nil => simp at member
  | cons head items induction =>
      have fresh := (List.nodup_cons.mp distinct).1
      rw [find_cons]
      rcases List.mem_cons.mp member with rfl | member
      · simp
      · have different : key head ≠ key item := by
          intro same
          exact fresh (same ▸ List.mem_map_of_mem member)
        simp [different, induction (List.nodup_cons.mp distinct).2 member]

/-- In a list of distinct keys, the items with key `k` are the one found by it. -/
theorem filter_eq_find {items : List α} (distinct : Distinct key items) (k : κ) :
    items.filter (fun item => key item = k) = (find key items k).toList := by
  induction items with
  | nil => rfl
  | cons item items induction =>
      obtain ⟨fresh, distinct⟩ := List.nodup_cons.mp distinct
      rw [List.filter_cons, find_cons, induction distinct]
      by_cases hit : key item = k
      · have absent : find key items k = none := find_eq_none_of_not_mem (hit ▸ fresh)
        simp [hit, absent]
      · simp [hit]

theorem find_modify {f : α → α} (keeps : ∀ item, key (f item) = key item) (items : List α)
    (k probe : κ) :
    find key (modify key items k f) probe =
      if k = probe then (find key items probe).map f else find key items probe := by
  induction items with
  | nil => by_cases same : k = probe <;> simp [modify, same]
  | cons item items induction =>
      have rest : find key (modify key items k f) probe = _ := induction
      simp only [modify, List.map_cons] at rest ⊢
      rw [find_cons, find_cons, rest]
      by_cases hit : key item = k
      · by_cases same : k = probe
        · simp [hit, same, keeps]
        · simp [hit, same, keeps]
      · by_cases same : key item = probe
        · subst same
          simp [hit, Ne.symm hit]
        · simp [hit, same]

theorem map_key_modify {f : α → α} (keeps : ∀ item, key (f item) = key item)
    (items : List α) (k : κ) : (modify key items k f).map key = items.map key := by
  induction items with
  | nil => rfl
  | cons item items induction =>
      by_cases hit : key item = k <;> simp_all [modify]

theorem distinct_modify {f : α → α} (keeps : ∀ item, key (f item) = key item)
    {items : List α} (distinct : Distinct key items) (k : κ) :
    Distinct key (modify key items k f) := by
  unfold Distinct
  rwa [map_key_modify keeps]

theorem find_erase (items : List α) (k probe : κ) :
    find key (erase key items k) probe = if k = probe then none else find key items probe := by
  by_cases same : k = probe
  · subst same
    simp [find_eq_none, erase]
  · simp only [same, if_false, find, erase]
    rw [List.find?_filter]
    congr 1
    funext item
    by_cases hit : key item = probe
    · simp [hit, Ne.symm same]
    · simp [hit]

theorem distinct_erase {items : List α} (distinct : Distinct key items) (k : κ) :
    Distinct key (erase key items k) := by
  unfold Distinct erase
  exact (List.Nodup.sublist (List.Sublist.map key List.filter_sublist)) distinct

theorem distinct_append_fresh {items : List α} (distinct : Distinct key items) {item : α}
    (fresh : find key items (key item) = none) : Distinct key (items ++ [item]) := by
  unfold Distinct
  rw [List.map_append, List.nodup_append]
  refine ⟨distinct, by simp, ?_⟩
  intro left leftMember right rightMember same
  simp only [List.map_cons, List.map_nil, List.mem_singleton] at rightMember
  subst rightMember
  obtain ⟨other, otherMember, rfl⟩ := List.mem_map.mp leftMember
  exact find_eq_none.mp fresh other otherMember same

theorem mem_modify {items : List α} {item : α} (member : item ∈ items) (k : κ)
    (f : α → α) : (if key item = k then f item else item) ∈ modify key items k f :=
  List.mem_map_of_mem member

/-- An item of the edited list under another key was there before. -/
theorem mem_of_mem_modify {f : α → α} (keeps : ∀ item, key (f item) = key item)
    {items : List α} {k : κ} {item : α} (member : item ∈ modify key items k f)
    (different : key item ≠ k) : item ∈ items := by
  obtain ⟨original, originalMember, edited⟩ := List.mem_map.mp member
  by_cases hit : key original = k
  · simp only [hit, if_true] at edited
    subst edited
    exact absurd (by rw [keeps]; exact hit) different
  · simp only [hit, if_false] at edited
    exact edited ▸ originalMember

theorem mem_of_mem_erase {items : List α} {k : κ} {item : α}
    (member : item ∈ erase key items k) : item ∈ items :=
  List.mem_of_mem_filter member

theorem key_of_mem_erase {items : List α} {k : κ} {item : α}
    (member : item ∈ erase key items k) : key item ≠ k := by
  simpa [erase] using (List.mem_filter.mp member).2

/-- Dropping the key of a present item shortens the list. -/
theorem length_erase_lt {items : List α} {item : α} (member : item ∈ items) :
    (erase key items (key item)).length < items.length := by
  unfold erase
  apply List.length_filter_lt_length_iff_exists.mpr
  exact ⟨item, member, by simp⟩

/-- Editing a key that no item has changes nothing. -/
theorem modify_of_find_eq_none {items : List α} {k : κ} (absent : find key items k = none)
    (f : α → α) : modify key items k f = items := by
  have others := find_eq_none.mp absent
  unfold modify
  conv => rhs; rw [← List.map_id items]
  exact List.map_congr_left fun item member => by simp [others item member]

/-- Editing the one item of a key changes a sum over the items by what the edit changes. -/
theorem sum_map_modify {β : Type} [AddCommGroup β] {g : α → β} {f : α → α} {items : List α}
    (distinct : Distinct key items) {k : κ} {item : α} (found : find key items k = some item) :
    ((modify key items k f).map g).sum = (items.map g).sum + (g (f item) - g item) := by
  induction items with
  | nil => simp at found
  | cons head items induction =>
      obtain ⟨fresh, distinct⟩ := List.nodup_cons.mp distinct
      rw [find_cons] at found
      have edited : modify key (head :: items) k f =
          (if key head = k then f head else head) :: modify key items k f := rfl
      rw [edited, List.map_cons, List.sum_cons, List.map_cons, List.sum_cons]
      by_cases hit : key head = k
      · -- the edited item is the head, and no later item has its key
        rw [if_pos hit] at found
        cases found
        have absent : find key items k = none := find_eq_none_of_not_mem (hit ▸ fresh)
        rw [if_pos hit, modify_of_find_eq_none absent]
        abel
      · rw [if_neg hit] at found
        rw [if_neg hit, induction distinct found]
        abel

/-- Finding in a mapped list is finding by the mapped key. -/
theorem find_map {β : Type} {f : β → α} (items : List β) (k : κ) :
    find key (items.map f) k = (find (fun item => key (f item)) items k).map f := by
  simp [find, List.find?_map]

omit [DecidableEq κ] in
theorem distinct_map {f : α → α} (keeps : ∀ item, key (f item) = key item)
    {items : List α} (distinct : Distinct key items) : Distinct key (items.map f) := by
  unfold Distinct
  rwa [List.map_map, show key ∘ f = key from funext keeps]

/-- The items that pass `p` and whose key is one of distinct keys are, in number, the items of
each of those keys that pass `p`, added up. -/
theorem length_filter_contains (items : List α) (p : α → Bool) {keys : List κ}
    (distinct : keys.Nodup) :
    (items.filter fun item => keys.contains (key item) && p item).length =
      (keys.map fun k => (items.filter fun item => decide (key item = k) && p item).length).sum := by
  induction keys with
  | nil => simp
  | cons k keys induction =>
      obtain ⟨fresh, distinct⟩ := List.nodup_cons.mp distinct
      rw [List.map_cons, List.sum_cons, ← induction distinct]
      simp only [← List.countP_eq_length_filter]
      rw [List.countP_eq_countP_filter_add items _ fun item => decide (key item = k),
        List.countP_filter, List.countP_filter]
      congr 1
      · apply List.countP_congr
        intro item _
        by_cases hit : key item = k <;> simp [hit]
      · apply List.countP_congr
        intro item _
        by_cases hit : key item = k
        · simp [hit, fresh]
        · simp [hit]

/-! ## Editing the first item of a key -/

section modifyFirst

variable {f : α → α} {k : κ}

@[simp]
theorem length_modifyFirst (items : List α) : (modifyFirst key items k f).length = items.length := by
  induction items with
  | nil => rfl
  | cons item items induction => by_cases hit : key item = k <;> simp [modifyFirst, hit, induction]

theorem map_key_modifyFirst (keeps : ∀ item, key item = k → key (f item) = k) (items : List α) :
    (modifyFirst key items k f).map key = items.map key := by
  induction items with
  | nil => rfl
  | cons item items induction =>
      by_cases hit : key item = k
      · simp [modifyFirst, hit, keeps item hit]
      · simp [modifyFirst, hit, induction]

theorem find_modifyFirst (keeps : ∀ item, key item = k → key (f item) = k) (items : List α)
    (probe : κ) :
    find key (modifyFirst key items k f) probe =
      if k = probe then (find key items k).map f else find key items probe := by
  induction items with
  | nil => by_cases same : k = probe <;> simp [modifyFirst, same]
  | cons item items induction =>
      by_cases hit : key item = k
      · -- the head is the item edited, and it keeps its key
        have edited : modifyFirst key (item :: items) k f = f item :: items := by
          simp [modifyFirst, hit]
        rw [edited, find_cons, find_cons, find_cons, keeps item hit, if_pos hit]
        by_cases same : k = probe
        · simp [same]
        · simp [same, hit]
      · have edited : modifyFirst key (item :: items) k f = item :: modifyFirst key items k f := by
          simp [modifyFirst, hit]
        rw [edited, find_cons, find_cons, find_cons, induction, if_neg hit]
        by_cases same : k = probe
        · subst same
          simp [hit]
        · simp [same]

/-- An item of the edited list was there before, or is the edit of the first item of the key. -/
theorem mem_modifyFirst {items : List α} {item : α} (member : item ∈ modifyFirst key items k f) :
    item ∈ items ∨ ∃ found, find key items k = some found ∧ item = f found := by
  induction items with
  | nil => simp [modifyFirst] at member
  | cons head items induction =>
      by_cases hit : key head = k
      · simp only [modifyFirst, hit, if_true, List.mem_cons] at member
        rcases member with rfl | member
        · exact Or.inr ⟨head, by simp [find_cons, hit], rfl⟩
        · exact Or.inl (List.mem_cons_of_mem _ member)
      · simp only [modifyFirst, hit, if_false, List.mem_cons] at member
        rcases member with rfl | member
        · exact Or.inl List.mem_cons_self
        · rcases induction member with member | ⟨found, isFound, rfl⟩
          · exact Or.inl (List.mem_cons_of_mem _ member)
          · exact Or.inr ⟨found, by rw [find_cons, if_neg hit, isFound], rfl⟩

/-- An edit that leaves the first item of the key as it is changes nothing. -/
theorem modifyFirst_of_find {items : List α} {found : α} (isFound : find key items k = some found)
    (fixed : f found = found) : modifyFirst key items k f = items := by
  induction items with
  | nil => simp at isFound
  | cons item items induction =>
      rw [find_cons] at isFound
      by_cases hit : key item = k
      · rw [if_pos hit, Option.some.injEq] at isFound
        subst isFound
        simp [modifyFirst, hit, fixed]
      · rw [if_neg hit] at isFound
        simp [modifyFirst, hit, induction isFound]

end modifyFirst

/-- In a list of distinct keys, what is found by a key does not depend on the order. -/
theorem find_perm {items other : List α} (distinct : Distinct key items)
    (perm : items.Perm other) (k : κ) : find key items k = find key other k := by
  have distinctOther : Distinct key other := (perm.map key).nodup_iff.mp distinct
  cases found : find key items k with
  | none =>
      exact (find_eq_none.mpr fun item member =>
        find_eq_none.mp found item (perm.mem_iff.mpr member)).symm
  | some item =>
      have member := perm.mem_iff.mp (mem_of_find found)
      rw [← key_of_find found, find_of_mem distinctOther member]

/-- What is found in the front of a list is found in the list. -/
theorem find_of_find_dropLast {items : List α} {k : κ} {item : α}
    (found : find key items.dropLast k = some item) : find key items k = some item := by
  cases items using List.reverseRecOn with
  | nil => simp at found
  | append_singleton front last =>
      rw [List.dropLast_concat] at found
      rw [find_append, found, Option.some_or]

end KeyedList
