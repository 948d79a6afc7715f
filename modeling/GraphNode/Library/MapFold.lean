import Mathlib

/-!
# Folding one finite map into another

A fold over the entries of a driving map whose step only edits the entry at the visited key.
The keys of the driving map are distinct, so the result at a key depends on the driving map's
entry there and on nothing else, whatever order the fold visits the entries in.  The same holds
of a fold in `Except` whose steps may fail: when each edit succeeds on the entry it finds, the
fold succeeds, each visited key holds its edit, and the amounts the edits report add up; a step
that also reads the other entries succeeds through the fold when an invariant of the entries that
allows it is kept by every edit.  A fold
whose step panics (`none`) at one of the items panics, and one whose first step fails ends there.
Last, grouping values by key (the hash-map idiom `entry(key).or_insert_with(Vec::new).push(value)`)
lists at each key the values given with it, in order.
-/

namespace MapFold

open Std

variable {α β γ : Type} [DecidableEq α] {cmp : α → α → Ordering} [TransCmp cmp] [LawfulEqCmp cmp]

/-- A fold step edits only the entry at the key it visits, through `edit value`. -/
def Pointwise (step : ExtTreeMap α γ cmp → α → β → ExtTreeMap α γ cmp)
    (edit : β → Option γ → Option γ) : Prop :=
  ∀ acc key value probe,
    (step acc key value)[probe]? = if key = probe then edit value acc[probe]? else acc[probe]?

/-- The result of editing `target` with the driving entry found at `key`, if any. -/
def editAt (edit : β → Option γ → Option γ) (found : Option β) (current : Option γ) :
    Option γ :=
  match found with
  | some value => edit value current
  | none => current

@[simp]
theorem editAt_none (edit : β → Option γ → Option γ) (current : Option γ) :
    editAt edit none current = current := rfl

@[simp]
theorem editAt_some (edit : β → Option γ → Option γ) (value : β) (current : Option γ) :
    editAt edit (some value) current = edit value current := rfl

omit [LawfulEqCmp cmp] in
theorem getElem?_foldl_list {step : ExtTreeMap α γ cmp → α → β → ExtTreeMap α γ cmp}
    {edit : β → Option γ → Option γ} (pointwise : Pointwise step edit)
    (entries : List (α × β)) (distinct : (entries.map Prod.fst).Nodup)
    (target : ExtTreeMap α γ cmp) (key : α) :
    (entries.foldl (fun acc entry => step acc entry.1 entry.2) target)[key]? =
      editAt edit ((entries.find? (fun entry => decide (entry.1 = key))).map Prod.snd)
        target[key]? := by
  induction entries generalizing target with
  | nil => simp
  | cons entry entries induction =>
      obtain ⟨head, value⟩ := entry
      have headFresh : head ∉ entries.map Prod.fst := (List.nodup_cons.mp distinct).1
      rw [List.foldl_cons, induction (List.nodup_cons.mp distinct).2, pointwise]
      by_cases hit : head = key
      · subst hit
        have absent : entries.find? (fun entry => decide (entry.1 = head)) = none := by
          rw [List.find?_eq_none]
          intro entry member same
          exact headFresh (List.mem_map.mpr ⟨entry, member, of_decide_eq_true same⟩)
        simp [absent]
      · simp [hit]

/-- Finding a key among the entries of a map is reading the map at that key. -/
theorem find?_toList (driver : ExtTreeMap α β cmp) (key : α) :
    (driver.toList.find? (fun entry => decide (entry.1 = key))).map Prod.snd = driver[key]? := by
  cases found : driver.toList.find? (fun entry => decide (entry.1 = key)) with
  | some entry =>
      have member := List.mem_of_find?_eq_some found
      have same : entry.1 = key := by simpa using List.find?_some found
      obtain ⟨entryKey, value⟩ := entry
      simp only at same
      subst same
      simpa using (ExtTreeMap.mem_toList_iff_getElem?_eq_some.mp member).symm
  | none =>
      cases stored : driver[key]? with
      | none => rfl
      | some value =>
          have member : (key, value) ∈ driver.toList :=
            ExtTreeMap.mem_toList_iff_getElem?_eq_some.mpr stored
          have := List.find?_eq_none.mp found (key, value) member
          simp at this

/-- The fold of a pointwise step reads, at each key, the edit of the driving entry there. -/
theorem getElem?_foldl {step : ExtTreeMap α γ cmp → α → β → ExtTreeMap α γ cmp}
    {edit : β → Option γ → Option γ} (pointwise : Pointwise step edit)
    (driver : ExtTreeMap α β cmp) (target : ExtTreeMap α γ cmp) (key : α) :
    (driver.foldl step target)[key]? = editAt edit driver[key]? target[key]? := by
  have distinct : (driver.toList.map Prod.fst).Nodup := by
    refine List.Pairwise.map Prod.fst ?_ ExtTreeMap.distinct_keys_toList
    intro left right different same
    exact different (by rw [same]; exact ReflCmp.compare_self)
  rw [ExtTreeMap.foldl_eq_foldl_toList, getElem?_foldl_list pointwise _ distinct,
    find?_toList]

/-! ## Folds in `Except` -/

section

variable {σ ι κ γ δ ε : Type} [DecidableEq κ] [AddCommMonoid δ]

/-- A `mapM` in `Except` whose every call succeeds is the map of the results. -/
theorem mapM_eq_ok {f : ι → Except ε γ} {g : ι → γ} {items : List ι}
    (succeeds : ∀ item ∈ items, f item = .ok (g item)) : items.mapM f = .ok (items.map g) := by
  induction items with
  | nil => rfl
  | cons item items induction =>
      rw [List.mapM_cons, succeeds item List.mem_cons_self,
        induction fun other member => succeeds other (List.mem_cons_of_mem _ member)]
      rfl

/-- Each result of a `mapM` in `Except` that succeeds is the result of a call on an item. -/
theorem exists_of_mapM_eq_ok {f : ι → Except ε γ} {items : List ι} {results : List γ}
    (succeeded : items.mapM f = .ok results) : ∀ result ∈ results, ∃ item ∈ items,
      f item = .ok result := by
  induction items generalizing results with
  | nil =>
      cases succeeded
      simp
  | cons item items induction =>
      rw [List.mapM_cons] at succeeded
      cases called : f item with
      | error => simp [called, bind, Except.bind] at succeeded
      | ok first =>
          cases rest : items.mapM f with
          | error => simp [called, rest, bind, Except.bind] at succeeded
          | ok others =>
              simp only [called, rest, bind, Except.bind, pure, Except.pure,
                Except.ok.injEq] at succeeded
              subst succeeded
              rintro result (_ | ⟨_, member⟩)
              · exact ⟨item, List.mem_cons_self, called⟩
              · obtain ⟨other, otherMember, otherCalled⟩ := induction rest result member
                exact ⟨other, List.mem_cons_of_mem _ otherMember, otherCalled⟩

/-- A step of a fold over keyed entries that edits the state's entry at the visited entry's key:
when `edit` succeeds on what the state holds there, the step succeeds, holds the edited entry at
that key and the old ones elsewhere, and adds the amount the edit reports to the total. -/
def EditsAt (step : σ → ι → Except ε σ) (key : ι → κ) (read : σ → κ → Option γ)
    (total : σ → δ) (edit : ι → γ → Except ε (γ × δ)) : Prop :=
  ∀ s entry current edited amount, read s (key entry) = some current →
    edit entry current = .ok (edited, amount) →
    ∃ s', step s entry = .ok s' ∧ read s' (key entry) = some edited ∧
      (∀ k, k ≠ key entry → read s' k = read s k) ∧ total s' = total s + amount

/-- `EditsAt` for a step that also reads the state's other entries, and edits only where
`allowed` holds of what it reads. -/
def EditsAtWhen (allowed : (κ → Option γ) → ι → Prop) (step : σ → ι → Except ε σ) (key : ι → κ)
    (read : σ → κ → Option γ) (total : σ → δ) (edit : ι → γ → Except ε (γ × δ)) : Prop :=
  ∀ s entry current edited amount, allowed (read s) entry → read s (key entry) = some current →
    edit entry current = .ok (edited, amount) →
    ∃ s', step s entry = .ok s' ∧ read s' (key entry) = some edited ∧
      (∀ k, k ≠ key entry → read s' k = read s k) ∧ total s' = total s + amount

omit [DecidableEq κ] in
theorem EditsAt.when {step : σ → ι → Except ε σ} {key : ι → κ} {read : σ → κ → Option γ}
    {total : σ → δ} {edit : ι → γ → Except ε (γ × δ)} (edits : EditsAt step key read total edit)
    (allowed : (κ → Option γ) → ι → Prop) : EditsAtWhen allowed step key read total edit :=
  fun s entry current edited amount _ => edits s entry current edited amount

/-- A fold of steps that edit one entry each succeeds when each edit succeeds on its key's first
entry and keeps an invariant that allows every step. -/
theorem foldlM_of_editsAtWhen {allowed : (κ → Option γ) → ι → Prop} {step : σ → ι → Except ε σ}
    {key : ι → κ} {read : σ → κ → Option γ} {total : σ → δ} {edit : ι → γ → Except ε (γ × δ)}
    (edits : EditsAtWhen allowed step key read total edit) (edited : ι → γ → γ) (amount : ι → δ)
    (entries : List ι) (distinct : (entries.map key).Nodup) (invariant : (κ → Option γ) → Prop)
    (allows : ∀ reads, invariant reads → ∀ entry ∈ entries, allowed reads entry)
    (keeps : ∀ reads, invariant reads → ∀ entry ∈ entries, ∀ current,
      reads (key entry) = some current →
        invariant (Function.update reads (key entry) (some (edited entry current))))
    (s : σ) (holds : invariant (read s))
    (succeeds : ∀ entry ∈ entries, ∃ current, read s (key entry) = some current ∧
      edit entry current = .ok (edited entry current, amount entry)) :
    ∃ s', entries.foldlM step s = .ok s' ∧ total s' = total s + (entries.map amount).sum ∧
      (∀ k, read s' k = (entries.find? fun entry => key entry = k).elim (read s k)
        fun entry => (read s k).map (edited entry)) ∧ invariant (read s') := by
  induction entries generalizing s with
  | nil => exact ⟨s, rfl, by simp, fun k => by simp, holds⟩
  | cons entry entries induction =>
      obtain ⟨fresh, distinct⟩ := List.nodup_cons.mp distinct
      obtain ⟨current, found, succeeded⟩ := succeeds entry List.mem_cons_self
      obtain ⟨next, stepped, readEdited, readOther, totalNext⟩ :=
        edits s entry current (edited entry current) (amount entry)
          (allows _ holds entry List.mem_cons_self) found succeeded
      have others : ∀ other ∈ entries, key other ≠ key entry := fun other member same =>
        fresh (same ▸ List.mem_map_of_mem member)
      have updated : read next = Function.update (read s) (key entry)
          (some (edited entry current)) := by
        funext k
        by_cases hit : k = key entry
        · rw [hit, Function.update_self, readEdited]
        · rw [Function.update_of_ne hit, readOther k hit]
      obtain ⟨final, folded, totalFinal, readFinal, kept⟩ := induction distinct
        (fun reads held other member => allows reads held other (List.mem_cons_of_mem _ member))
        (fun reads held other member => keeps reads held other (List.mem_cons_of_mem _ member))
        next (updated ▸ keeps _ holds entry List.mem_cons_self current found) fun other member =>
          readOther (key other) (others other member) ▸ succeeds other (List.mem_cons_of_mem _ member)
      refine ⟨final, by rw [List.foldlM_cons, stepped]; exact folded, ?_, fun k => ?_, kept⟩
      · rw [totalFinal, totalNext, List.map_cons, List.sum_cons, add_assoc]
      · rw [readFinal, List.find?_cons]
        by_cases hit : key entry = k
        · subst hit
          have absent : entries.find? (fun other => key other = key entry) = none :=
            List.find?_eq_none.mpr fun other member same => others other member (by simpa using same)
          simp [absent, readEdited, found]
        · simp [hit, readOther k (Ne.symm hit)]

/-- A fold of steps that edit one entry each succeeds when every edit succeeds on the entry the
state starts with at its key. -/
theorem foldlM_of_editsAt {step : σ → ι → Except ε σ} {key : ι → κ} {read : σ → κ → Option γ}
    {total : σ → δ} {edit : ι → γ → Except ε (γ × δ)} (edits : EditsAt step key read total edit)
    (edited : ι → γ → γ) (amount : ι → δ) (entries : List ι) (distinct : (entries.map key).Nodup)
    (s : σ) (succeeds : ∀ entry ∈ entries, ∃ current, read s (key entry) = some current ∧
      edit entry current = .ok (edited entry current, amount entry)) :
    ∃ s', entries.foldlM step s = .ok s' ∧ total s' = total s + (entries.map amount).sum ∧
      ∀ k, read s' k = (entries.find? fun entry => key entry = k).elim (read s k)
        fun entry => (read s k).map (edited entry) := by
  obtain ⟨s', folded, totalIs, reads, -⟩ := foldlM_of_editsAtWhen (edits.when fun _ _ => True)
    edited amount entries distinct (fun _ => True) (fun _ _ _ _ => trivial)
    (fun _ _ _ _ _ _ => trivial) s trivial succeeds
  exact ⟨s', folded, totalIs, reads⟩

end

/-! ## Folds that can panic -/

section

variable {σ ι ε : Type}

/-- A fold in `Option` whose step panics at a member of the list, from whatever it has
accumulated, panics: the steps before it panic or reach it. -/
theorem foldlM_eq_none_of_mem {step : σ → ι → Option σ} {item : ι} {items : List ι}
    (panics : ∀ s, step s item = none) (member : item ∈ items) (s : σ) :
    items.foldlM step s = none := by
  induction items generalizing s with
  | nil => cases member
  | cons first items induction =>
      rw [List.foldlM_cons]
      rcases List.mem_cons.mp member with same | later
      · rw [← same, panics, Option.bind_eq_bind, Option.bind_none]
      · cases stepped : step s first with
        | none => rfl
        | some next => exact induction later next

/-- A fold in `ExceptT ε Option` whose first step panics or throws ends as that step does. -/
theorem run_foldlM_cons_of_stops {step : σ → ι → ExceptT ε Option σ} {item : ι} {items : List ι}
    {s : σ} (stops : ∀ next, (step s item).run ≠ some (.ok next)) :
    ((item :: items).foldlM step s).run = (step s item).run := by
  rw [List.foldlM_cons, ExceptT.run_bind]
  rcases stepped : (step s item).run with _ | _ | next
  · rfl
  · rfl
  · exact absurd stepped (stops next)

end

/-! ## Grouping values by key -/

/-- Append `value` to the group of `key`, starting the group when there is none. -/
def push (groups : ExtTreeMap α (List β) cmp) (key : α) (value : β) :
    ExtTreeMap α (List β) cmp :=
  groups.alter key fun group => some (group.getD [] ++ [value])

/-- Grouping lists at each key the values given with it, after those already there. -/
theorem getElem?_foldl_push (entries : List (α × β)) (groups : ExtTreeMap α (List β) cmp)
    (key : α) :
    (entries.foldl (fun groups entry => push groups entry.1 entry.2) groups)[key]? =
      if (entries.filterMap fun entry => if entry.1 = key then some entry.2 else none) = [] then
        groups[key]?
      else some (groups[key]?.getD [] ++
        entries.filterMap fun entry => if entry.1 = key then some entry.2 else none) := by
  induction entries generalizing groups with
  | nil => simp
  | cons entry entries induction =>
      have pushed : (push groups entry.1 entry.2)[key]? =
          if entry.1 = key then some (groups[key]?.getD [] ++ [entry.2]) else groups[key]? := by
        rw [push, ExtTreeMap.getElem?_alter]
        by_cases hit : entry.1 = key
        · subst hit
          simp
        · simp [hit]
      rw [List.foldl_cons, induction, pushed]
      by_cases hit : entry.1 = key
      · by_cases rest : (entries.filterMap fun entry =>
            if entry.1 = key then some entry.2 else none) = [] <;> simp [hit, rest]
      · rw [List.filterMap_cons, if_neg hit, if_neg hit]

/-- The values of `entries` grouped by key, each group in the order of `entries`. -/
def group (entries : List (α × β)) : ExtTreeMap α (List β) cmp :=
  entries.foldl (fun groups entry => push groups entry.1 entry.2) ∅

omit [DecidableEq α] [LawfulEqCmp cmp] in
/-- The keys of a map are distinct. -/
theorem nodup_keys_toList (map : ExtTreeMap α β cmp) : (map.toList.map Prod.fst).Nodup := by
  rw [ExtTreeMap.map_fst_toList_eq_keys]
  exact ExtTreeMap.nodup_keys

/-- A group lists the values given with its key, in order. -/
theorem eq_of_mem_toList_group {entries : List (α × β)} {key : α} {values : List β}
    (member : (key, values) ∈ (group entries : ExtTreeMap α (List β) cmp).toList) :
    values = entries.filterMap fun entry => if entry.1 = key then some entry.2 else none := by
  have stored := ExtTreeMap.mem_toList_iff_getElem?_eq_some.mp member
  rw [group, getElem?_foldl_push] at stored
  simp only [ExtTreeMap.getElem?_empty, Option.getD_none, List.nil_append] at stored
  split at stored
  · cases stored
  · exact (Option.some.inj stored).symm

/-- A group is not empty. -/
theorem ne_nil_of_mem_toList_group {entries : List (α × β)} {key : α} {values : List β}
    (member : (key, values) ∈ (group entries : ExtTreeMap α (List β) cmp).toList) :
    values ≠ [] := by
  have stored := ExtTreeMap.mem_toList_iff_getElem?_eq_some.mp member
  rw [group, getElem?_foldl_push] at stored
  simp only [ExtTreeMap.getElem?_empty, Option.getD_none, List.nil_append] at stored
  split at stored
  · cases stored
  · rename_i given
    exact (Option.some.inj stored) ▸ given

/-- A key with no group is given with no value. -/
theorem not_mem_of_find?_toList_group {entries : List (α × β)} {key : α}
    (absent : (group entries : ExtTreeMap α (List β) cmp).toList.find?
      (fun entry => entry.1 = key) = none) (value : β) : (key, value) ∉ entries := by
  have stored := find?_toList (group entries : ExtTreeMap α (List β) cmp) key
  rw [absent, Option.map_none, group, getElem?_foldl_push] at stored
  simp only [ExtTreeMap.getElem?_empty] at stored
  split at stored
  · rename_i empty
    intro member
    have given : value ∈ entries.filterMap fun entry => if entry.1 = key then some entry.2 else none :=
      List.mem_filterMap.mpr ⟨(key, value), member, by simp⟩
    simp [empty] at given
  · cases stored

end MapFold
