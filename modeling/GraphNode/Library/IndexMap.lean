import GraphNode.Library.KeyedList

/-!
# Insertion-ordered maps

`indexmap::IndexMap` as the list of its entries in insertion order, with the distinctness of
its keys as a field.  An entry for a new key is appended, and an entry is edited in place;
`swap_remove` takes an entry out by moving the last entry into its place, as
`Vec::swap_remove` does.  Removing by a swap permutes what removing in place leaves
(`perm_swapRemoveFirst`), so what is found by key does not depend on the swap.
-/

namespace IndexMap

section swap

variable {α : Type}

/-- `Vec::swap_remove(index)`: the element at `index` is replaced by the last one, which is
dropped. -/
def swapRemoveAt (items : List α) (index : Nat) : List α :=
  match items.getLast? with
  | some last => if index < items.length then (items.set index last).dropLast else items
  | none => items

/-- `v.iter().position(p)` followed by `v.swap_remove(index)` when an element passes `p`. -/
def swapRemoveFirst (p : α → Bool) (items : List α) : List α :=
  match items.findIdx? p with
  | some index => swapRemoveAt items index
  | none => items

@[simp]
theorem swapRemoveFirst_nil (p : α → Bool) : swapRemoveFirst p [] = [] :=
  rfl

/-- Removing by a swap permutes removing in place. -/
theorem perm_swapRemoveAt {items : List α} {index : Nat} (within : index < items.length) :
    (swapRemoveAt items index).Perm (items.eraseIdx index) := by
  obtain ⟨front, last, rfl⟩ : ∃ front last, items = front ++ [last] := by
    cases items using List.reverseRecOn with
    | nil => simp at within
    | append_singleton front last => exact ⟨front, last, rfl⟩
  simp only [swapRemoveAt, List.getLast?_concat, if_pos within, List.set_append]
  rw [List.length_append, List.length_singleton] at within
  by_cases inFront : index < front.length
  · -- the last element takes the place of the removed one
    rw [if_pos inFront, List.dropLast_concat, List.eraseIdx_append_of_lt_length inFront,
      List.set_eq_take_cons_drop _ inFront, List.eraseIdx_eq_take_drop_succ]
    exact List.perm_middle.trans (List.perm_append_singleton _ _).symm
  · have atLast : index = front.length := by omega
    subst atLast
    simp [List.eraseIdx_eq_take_drop_succ]

theorem perm_swapRemoveFirst (p : α → Bool) (items : List α) :
    (swapRemoveFirst p items).Perm (items.eraseP p) := by
  rw [List.eraseP_eq_eraseIdx, swapRemoveFirst]
  cases found : items.findIdx? p with
  | none => exact List.Perm.refl _
  | some index =>
      obtain ⟨within, -, -⟩ := List.findIdx?_eq_some_iff_getElem.mp found
      exact perm_swapRemoveAt within

end swap

section erase

variable {α : Type} [DecidableEq α]

/-- Swap-removing the first listing of `b` permutes erasing it. -/
theorem perm_swapRemoveFirst_erase (items : List α) (b : α) :
    (swapRemoveFirst (· == b) items).Perm (items.erase b) := by
  rw [List.erase_eq_eraseP']
  exact perm_swapRemoveFirst _ items

theorem mem_swapRemoveFirst_iff {items : List α} (nodup : items.Nodup) (b x : α) :
    x ∈ swapRemoveFirst (· == b) items ↔ x ∈ items ∧ x ≠ b := by
  rw [(perm_swapRemoveFirst_erase items b).mem_iff, nodup.mem_erase_iff, and_comm]

theorem nodup_swapRemoveFirst {items : List α} (nodup : items.Nodup) (b : α) :
    (swapRemoveFirst (· == b) items).Nodup :=
  (perm_swapRemoveFirst_erase items b).nodup_iff.mpr (nodup.erase b)

end erase

end IndexMap

/-- `IndexMap`: entries in insertion order, no two with one key. -/
structure IndexMap (κ β : Type) [DecidableEq κ] where
  entries : List (κ × β)
  distinct : KeyedList.Distinct Prod.fst entries

namespace IndexMap

variable {κ β : Type} [DecidableEq κ]

/-- In a list of distinct keys, erasing the first item of a key erases all of them. -/
theorem eraseP_eq_erase {items : List (κ × β)} (distinct : KeyedList.Distinct Prod.fst items)
    (key : κ) : items.eraseP (fun entry => entry.1 == key) = KeyedList.erase Prod.fst items key := by
  induction items with
  | nil => rfl
  | cons entry items induction =>
      obtain ⟨fresh, distinct⟩ := List.nodup_cons.mp distinct
      by_cases hit : entry.1 = key
      · -- no later entry has the key
        have absent : KeyedList.erase Prod.fst items key = items := by
          apply List.filter_eq_self.mpr
          intro other member
          have different : other.1 ≠ entry.1 := fun same => fresh (same ▸ List.mem_map_of_mem member)
          simpa [hit] using different
        rw [List.eraseP_cons_of_pos (by simp [hit])]
        unfold KeyedList.erase at absent ⊢
        rw [List.filter_cons_of_neg (by simp [hit]), absent]
      · rw [List.eraseP_cons_of_neg (by simp [hit])]
        unfold KeyedList.erase at induction ⊢
        rw [List.filter_cons_of_pos (by simp [hit]), induction distinct]

def empty : IndexMap κ β :=
  ⟨[], List.nodup_nil⟩

/-- `IndexMap::get`. -/
def get? (map : IndexMap κ β) (key : κ) : Option β :=
  (KeyedList.find Prod.fst map.entries key).map Prod.snd

/-- `IndexMap::keys`. -/
def keys (map : IndexMap κ β) : List κ :=
  map.entries.map Prod.fst

omit [DecidableEq κ] in
/-- An edit of the value keeps the key. -/
theorem keepsKey (f : β → β) (entry : κ × β) : ((entry.1, f entry.2) : κ × β).1 = entry.1 :=
  rfl

theorem distinct_modifyOrInsert {entries : List (κ × β)}
    (distinct : KeyedList.Distinct Prod.fst entries) (key : κ) (default : β) (f : β → β) :
    KeyedList.Distinct Prod.fst
      (match KeyedList.find Prod.fst entries key with
        | some _ => KeyedList.modify Prod.fst entries key fun entry => (entry.1, f entry.2)
        | none => entries ++ [(key, f default)]) := by
  split
  · exact KeyedList.distinct_modify (keepsKey f) distinct key
  · rename_i absent
    exact KeyedList.distinct_append_fresh distinct absent

/-- `entry(key).or_insert_with(default)` followed by an edit `f`: the entry of the key is edited
in place, or `(key, f default)` is appended.  `insert` is the edit to a constant. -/
def modifyOrInsert (map : IndexMap κ β) (key : κ) (default : β) (f : β → β) : IndexMap κ β :=
  ⟨match KeyedList.find Prod.fst map.entries key with
    | some _ => KeyedList.modify Prod.fst map.entries key fun entry => (entry.1, f entry.2)
    | none => map.entries ++ [(key, f default)],
    distinct_modifyOrInsert map.distinct key default f⟩

/-- `IndexMap::insert`: the value of a present key is replaced in place. -/
def insert (map : IndexMap κ β) (key : κ) (value : β) : IndexMap κ β :=
  map.modifyOrInsert key value fun _ => value

/-- `IndexMap::get_mut` followed by an edit. -/
def modify (map : IndexMap κ β) (key : κ) (f : β → β) : IndexMap κ β :=
  ⟨KeyedList.modify Prod.fst map.entries key (fun entry => (entry.1, f entry.2)),
    KeyedList.distinct_modify (keepsKey f) map.distinct key⟩

theorem distinct_swapRemoveFirst {entries : List (κ × β)}
    (distinct : KeyedList.Distinct Prod.fst entries) (key : κ) :
    KeyedList.Distinct Prod.fst (swapRemoveFirst (fun entry => entry.1 == key) entries) := by
  have perm := perm_swapRemoveFirst (fun entry : κ × β => entry.1 == key) entries
  rw [eraseP_eq_erase distinct] at perm
  unfold KeyedList.Distinct
  exact (perm.map Prod.fst).nodup_iff.mpr (KeyedList.distinct_erase distinct key)

/-- `IndexMap::swap_remove`. -/
def swapRemove (map : IndexMap κ β) (key : κ) : IndexMap κ β :=
  ⟨swapRemoveFirst (fun entry => entry.1 == key) map.entries,
    distinct_swapRemoveFirst map.distinct key⟩

/-! ## Lookups -/

theorem mem_entries_iff (map : IndexMap κ β) (key : κ) (value : β) :
    (key, value) ∈ map.entries ↔ map.get? key = some value := by
  constructor
  · intro member
    simp [get?, KeyedList.find_of_mem map.distinct member]
  · intro found
    obtain ⟨entry, isFound, rfl⟩ := Option.map_eq_some_iff.mp found
    have sameKey := KeyedList.key_of_find isFound
    have member := KeyedList.mem_of_find isFound
    rwa [← sameKey]

theorem mem_keys_iff (map : IndexMap κ β) (key : κ) :
    key ∈ map.keys ↔ (map.get? key).isSome := by
  constructor
  · intro member
    obtain ⟨entry, entryMember, rfl⟩ := List.mem_map.mp member
    simp [get?, KeyedList.find_of_mem map.distinct entryMember]
  · intro found
    obtain ⟨value, isValue⟩ := Option.isSome_iff_exists.mp found
    exact List.mem_map_of_mem ((mem_entries_iff map key value).mpr isValue)

@[simp]
theorem get?_empty (key : κ) : (empty : IndexMap κ β).get? key = none :=
  rfl

@[simp]
theorem keys_empty : (empty : IndexMap κ β).keys = [] :=
  rfl

theorem entries_modifyOrInsert_of_find {map : IndexMap κ β} {key : κ} {found : κ × β}
    (isFound : KeyedList.find Prod.fst map.entries key = some found) (default : β) (f : β → β) :
    (map.modifyOrInsert key default f).entries =
      KeyedList.modify Prod.fst map.entries key fun entry => (entry.1, f entry.2) := by
  simp only [modifyOrInsert, isFound]

theorem entries_modifyOrInsert_of_absent {map : IndexMap κ β} {key : κ}
    (absent : KeyedList.find Prod.fst map.entries key = none) (default : β) (f : β → β) :
    (map.modifyOrInsert key default f).entries = map.entries ++ [(key, f default)] := by
  simp only [modifyOrInsert, absent]

theorem get?_modifyOrInsert (map : IndexMap κ β) (key probe : κ) (default : β) (f : β → β) :
    (map.modifyOrInsert key default f).get? probe =
      if key = probe then some (f ((map.get? key).getD default)) else map.get? probe := by
  unfold get?
  cases isFound : KeyedList.find Prod.fst map.entries key with
  | some found =>
      rw [entries_modifyOrInsert_of_find isFound, KeyedList.find_modify (keepsKey f)]
      by_cases same : key = probe
      · subst same
        simp [isFound]
      · simp [same]
  | none =>
      rw [entries_modifyOrInsert_of_absent isFound, KeyedList.find_append, KeyedList.find_cons,
        KeyedList.find_nil]
      by_cases same : key = probe
      · subst same
        simp [isFound]
      · simp [same]

theorem get?_insert (map : IndexMap κ β) (key probe : κ) (value : β) :
    (map.insert key value).get? probe = if key = probe then some value else map.get? probe := by
  rw [insert, get?_modifyOrInsert]

theorem get?_modify (map : IndexMap κ β) (key probe : κ) (f : β → β) :
    (map.modify key f).get? probe =
      if key = probe then (map.get? probe).map f else map.get? probe := by
  unfold modify get?
  rw [KeyedList.find_modify (keepsKey f)]
  by_cases same : key = probe
  · simp only [same, if_true, Option.map_map]
    rfl
  · simp [same]

theorem get?_swapRemove (map : IndexMap κ β) (key probe : κ) :
    (map.swapRemove key).get? probe = if key = probe then none else map.get? probe := by
  have perm := perm_swapRemoveFirst (fun entry : κ × β => entry.1 == key) map.entries
  rw [eraseP_eq_erase map.distinct] at perm
  unfold swapRemove get?
  rw [KeyedList.find_perm (distinct_swapRemoveFirst map.distinct key) perm,
    KeyedList.find_erase]
  by_cases same : key = probe <;> simp [same]

/-- `IndexMap::len` after `swap_remove`: one fewer when the key was there. -/
theorem length_swapRemove (map : IndexMap κ β) (key : κ) :
    (map.swapRemove key).entries.length =
      if (map.get? key).isSome then map.entries.length - 1 else map.entries.length := by
  have perm := perm_swapRemoveFirst (fun entry : κ × β => entry.1 == key) map.entries
  have present : map.entries.any (fun entry => entry.1 == key) = (map.get? key).isSome := by
    simp only [get?, Option.isSome_map, KeyedList.find]
    rw [Bool.eq_iff_iff, List.any_eq_true, List.find?_isSome]
    simp
  unfold swapRemove
  rw [perm.length_eq, List.length_eraseP, present]

theorem mem_keys_insert (map : IndexMap κ β) (key probe : κ) (value : β) :
    probe ∈ (map.insert key value).keys ↔ probe = key ∨ probe ∈ map.keys := by
  rw [mem_keys_iff, mem_keys_iff, get?_insert]
  by_cases same : key = probe
  · simp [same]
  · simp [same, Ne.symm same]

theorem mem_keys_swapRemove (map : IndexMap κ β) (key probe : κ) :
    probe ∈ (map.swapRemove key).keys ↔ probe ∈ map.keys ∧ probe ≠ key := by
  rw [mem_keys_iff, mem_keys_iff, get?_swapRemove]
  by_cases same : key = probe
  · simp [same]
  · simp [same, Ne.symm same]

/-! ## Inserting a list of entries -/

/-- `extend` with a list of entries: each is inserted in turn, so a later value of a key
replaces an earlier one. -/
def insertAll (map : IndexMap κ β) (entries : List (κ × β)) : IndexMap κ β :=
  entries.foldl (fun map entry => map.insert entry.1 entry.2) map

theorem insertAll_append (map : IndexMap κ β) (front back : List (κ × β)) :
    map.insertAll (front ++ back) = (map.insertAll front).insertAll back :=
  List.foldl_append

theorem insertAll_singleton (map : IndexMap κ β) (entry : κ × β) :
    map.insertAll [entry] = map.insert entry.1 entry.2 :=
  rfl

/-- The entries inserted take the place of what the map held. -/
theorem get?_insertAll (map : IndexMap κ β) (entries : List (κ × β)) (key : κ) :
    (map.insertAll entries).get? key = ((empty.insertAll entries).get? key).or (map.get? key) := by
  induction entries using List.reverseRecOn with
  | nil => rfl
  | append_singleton front last induction =>
      rw [insertAll_append, insertAll_append, insertAll_singleton, insertAll_singleton, get?_insert,
        get?_insert, induction]
      split <;> rfl

/-- Inserting entries with distinct keys: each key gets its entry's value. -/
theorem get?_insertAll_of_distinct (map : IndexMap κ β) {entries : List (κ × β)}
    (distinct : KeyedList.Distinct Prod.fst entries) (key : κ) :
    (map.insertAll entries).get? key =
      ((KeyedList.find Prod.fst entries key).map Prod.snd).or (map.get? key) := by
  induction entries generalizing map with
  | nil => rfl
  | cons entry entries induction =>
      obtain ⟨fresh, distinct⟩ := List.nodup_cons.mp distinct
      rw [insertAll, List.foldl_cons, ← insertAll, induction _ distinct, get?_insert,
        KeyedList.find_cons]
      by_cases same : entry.1 = key
      · -- no later entry has the key
        have absent : KeyedList.find Prod.fst entries key = none := by
          rw [KeyedList.find_eq_none]
          intro other member sameKey
          exact fresh (same ▸ sameKey ▸ List.mem_map_of_mem member)
        simp [same, absent]
      · simp [same]

/-- Inserting the entries of another map: its values take the place of those held. -/
theorem get?_insertAll_entries (map other : IndexMap κ β) (key : κ) :
    (map.insertAll other.entries).get? key = (other.get? key).or (map.get? key) :=
  get?_insertAll_of_distinct map other.distinct key

/-! ## Maps that find the same values -/

section

variable {γ δ : Type} {map : IndexMap κ β} {other : IndexMap κ γ} {f : β → δ} {g : γ → δ}

/-- Two maps whose values agree once transformed hold the same entries so transformed, in some
order. -/
theorem perm_entries_of_get? (same : ∀ key, (map.get? key).map f = (other.get? key).map g) :
    (map.entries.map fun entry => (entry.1, f entry.2)).Perm
      (other.entries.map fun entry => (entry.1, g entry.2)) := by
  have distinct {ε : Type} (items : IndexMap κ ε) (h : ε → δ) :
      ((items.entries.map fun entry => (entry.1, h entry.2)).map Prod.fst).Nodup := by
    rw [List.map_map]
    exact items.distinct
  have member {ε : Type} (items : IndexMap κ ε) (h : ε → δ) (key : κ) (value : δ) :
      (key, value) ∈ items.entries.map (fun entry => (entry.1, h entry.2)) ↔
        (items.get? key).map h = some value := by
    rw [List.mem_map, Option.map_eq_some_iff]
    constructor
    · rintro ⟨⟨otherKey, found⟩, isMember, entryIs⟩
      obtain ⟨rfl, rfl⟩ := Prod.mk.inj entryIs
      exact ⟨found, (mem_entries_iff items otherKey found).mp isMember, rfl⟩
    · rintro ⟨found, isFound, rfl⟩
      exact ⟨(key, found), (mem_entries_iff items key found).mpr isFound, rfl⟩
  refine (List.perm_ext_iff_of_nodup ((distinct map f).of_map _)
    ((distinct other g).of_map _)).mpr ?_
  rintro ⟨key, value⟩
  rw [member, member, same]

/-- A sum over the entries of such maps is the same. -/
theorem sum_entries_of_get? {M : Type} [AddCommMonoid M]
    (same : ∀ key, (map.get? key).map f = (other.get? key).map g) (F : κ → δ → M) :
    (map.entries.map fun entry => F entry.1 (f entry.2)).sum =
      (other.entries.map fun entry => F entry.1 (g entry.2)).sum := by
  have summed := ((perm_entries_of_get? same).map fun entry => F entry.1 entry.2).sum_eq
  rwa [List.map_map, List.map_map] at summed

theorem length_entries_of_get? (same : ∀ key, (map.get? key).map f = (other.get? key).map g) :
    map.entries.length = other.entries.length := by
  have lengths := (perm_entries_of_get? same).length_eq
  rwa [List.length_map, List.length_map] at lengths

end

end IndexMap
