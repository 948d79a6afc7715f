import GraphNode.Library.MapFold

/-!
# Store values and entities

The values a subgraph stores (`graph/src/data/store/mod.rs`, `Value`) and entities, the maps
from attribute names to values.  An `Entity` wraps a `HashMap`; it is modelled by an extensional
finite map, so two entities are equal exactly when they hold the same attributes, as the
derived `PartialEq` of the Rust type decides.  `BigDecimal` compares numerically in Rust and is
modelled by its rational value; `Bytes` is the list of its bytes.
-/

namespace GraphNode

/-- A value stored in an entity attribute. -/
inductive Value where
  | string (value : String)
  | int (value : Int32)
  | bigDecimal (value : ℚ)
  | bool (value : Bool)
  | list (values : List Value)
  | null
  | bytes (value : List UInt8)
  | bigInt (value : Int)
  deriving Repr

namespace Value

mutual
/-- Structural equality test; it agrees with the derived `PartialEq` of the source. -/
def beq : Value → Value → Bool
  | string a, string b => a == b
  | int a, int b => a == b
  | bigDecimal a, bigDecimal b => a == b
  | bool a, bool b => a == b
  | list as, list bs => beqList as bs
  | null, null => true
  | bytes a, bytes b => a == b
  | bigInt a, bigInt b => a == b
  | _, _ => false

/-- Element-wise equality test of two value lists. -/
def beqList : List Value → List Value → Bool
  | [], [] => true
  | a :: as, b :: bs => beq a b && beqList as bs
  | _, _ => false
end

mutual
theorem beq_iff : ∀ a b : Value, beq a b = true ↔ a = b
  | string a, string b => by simp [beq]
  | int a, int b => by simp [beq]
  | bigDecimal a, bigDecimal b => by simp [beq]
  | bool a, bool b => by simp [beq]
  | list as, list bs => by simp [beq, beqList_iff as bs]
  | null, null => by simp [beq]
  | bytes a, bytes b => by simp [beq]
  | bigInt a, bigInt b => by simp [beq]
  -- off the diagonal the constructors differ, except for the cases matched above
  | string _, b | int _, b | bigDecimal _, b | bool _, b | null, b | bytes _, b
  | bigInt _, b => by cases b <;> simp [beq]
  | list as, b => by cases b <;> simp [beq, beqList_iff as]

theorem beqList_iff : ∀ as bs : List Value, beqList as bs = true ↔ as = bs
  | [], [] => by simp [beqList]
  | a :: as, b :: bs => by simp [beqList, beq_iff a b, beqList_iff as bs]
  | [], _ :: _ => by simp [beqList]
  | _ :: _, [] => by simp [beqList]
end

instance : DecidableEq Value := fun a b => decidable_of_iff _ (beq_iff a b)

/-- `Value::is_null`. -/
def isNull : Value → Bool
  | null => true
  | _ => false

@[simp]
theorem isNull_iff (value : Value) : value.isNull = true ↔ value = null := by
  cases value <;> simp [isNull]

end Value

/-- The lower-case hexadecimal digit of a number below sixteen. -/
def hexDigit (digit : Nat) : Char :=
  if digit < 10 then Char.ofNat (48 + digit) else Char.ofNat (87 + digit)

/-- `Display for Bytes`: `0x` followed by `hex::encode` of the bytes. -/
def bytesToString (bytes : List UInt8) : String :=
  "0x" ++ String.ofList (bytes.flatMap fun byte => [hexDigit (byte.toNat / 16),
    hexDigit (byte.toNat % 16)])

/-- Attribute names of entities. -/
abbrev Attribute := String

/-- An entity: a map from attribute names to values. -/
abbrev Entity := Std.ExtTreeMap Attribute Value compare

namespace Entity

/-- `Entity::merge`: the values of `update` replace those of `self`, `Null` included. -/
def merge (self update : Entity) : Entity :=
  update.foldl (fun entity key value => entity.insert key value) self

/-- `Entity::merge_remove_null_fields`: like `merge`, but a `Null` in `update` removes the
attribute. -/
def mergeRemoveNullFields (self update : Entity) : Entity :=
  update.foldl (fun entity key value =>
    match value with
    | .null => entity.erase key
    | _ => entity.insert key value) self

/-- `Entity::id`: the `id` attribute as a string; `Bytes` ids are shown in hex. -/
def id (entity : Entity) : Except String String :=
  match entity["id"]? with
  | none => .error "Entity is missing an `id` attribute"
  | some (.string s) => .ok s
  | some (.bytes b) => .ok (bytesToString b)
  | some _ => .error "Entity has non-string `id` attribute"

/-- What the store keeps of an entity: a `Null` attribute is stored as a SQL `NULL` and read
back as absent, and `__typename` names the table rather than a column. -/
def persisted (entity : Entity) : Entity :=
  (entity.filter fun _ value => !value.isNull).erase "__typename"

/-- The edit `merge` makes at one attribute. -/
def mergeEdit (value : Value) (_ : Option Value) : Option Value := some value

/-- The edit `merge_remove_null_fields` makes at one attribute. -/
def mergeRemoveNullEdit (value : Value) (_ : Option Value) : Option Value :=
  if value = .null then none else some value

theorem merge_pointwise :
    MapFold.Pointwise (fun (entity : Entity) key value => entity.insert key value) mergeEdit := by
  intro entity key value probe
  simp [Std.ExtTreeMap.getElem?_insert, mergeEdit]

theorem mergeRemoveNullFields_pointwise :
    MapFold.Pointwise (fun (entity : Entity) key value =>
      match value with
      | .null => entity.erase key
      | _ => entity.insert key value) mergeRemoveNullEdit := by
  intro entity key value probe
  cases value <;> simp [Std.ExtTreeMap.getElem?_insert, Std.ExtTreeMap.getElem?_erase,
    mergeRemoveNullEdit]

@[simp]
theorem getElem?_merge (self update : Entity) (key : Attribute) :
    (self.merge update)[key]? = update[key]?.or self[key]? := by
  rw [merge, MapFold.getElem?_foldl merge_pointwise]
  cases update[key]? <;> rfl

@[simp]
theorem getElem?_mergeRemoveNullFields (self update : Entity) (key : Attribute) :
    (self.mergeRemoveNullFields update)[key]? =
      match update[key]? with
      | some .null => none
      | some value => some value
      | none => self[key]? := by
  rw [mergeRemoveNullFields, MapFold.getElem?_foldl mergeRemoveNullFields_pointwise]
  rcases update[key]? with _ | ⟨_ | _ | _ | _ | _ | _ | _ | _⟩ <;> rfl

@[simp]
theorem getElem?_persisted (entity : Entity) (key : Attribute) :
    (persisted entity)[key]? =
      if key = "__typename" then none else (entity[key]?).filter fun value => !value.isNull := by
  by_cases typename : key = "__typename"
  · subst typename
    simp [persisted]
  · simp [persisted, Std.ExtTreeMap.getElem?_erase, typename, Ne.symm typename]

/-- What the store keeps of a merge depends only on what it keeps of the entity merged into. -/
theorem persisted_mergeRemoveNullFields (entity updates : Entity) :
    persisted (entity.mergeRemoveNullFields updates) =
      persisted ((persisted entity).mergeRemoveNullFields updates) := by
  apply Std.ExtTreeMap.ext_getElem?
  intro key
  by_cases typename : key = "__typename"
  · simp [typename]
  · simp only [getElem?_persisted, getElem?_mergeRemoveNullFields, typename, if_false]
    rcases updates[key]? with _ | ⟨_ | _ | _ | _ | _ | _ | _ | _⟩ <;> simp

/-- Merging into an empty entity drops the `Null`s, which the store drops anyway. -/
theorem persisted_empty_mergeRemoveNullFields (entity : Entity) :
    persisted ((∅ : Entity).mergeRemoveNullFields entity) = persisted entity := by
  apply Std.ExtTreeMap.ext_getElem?
  intro key
  by_cases typename : key = "__typename"
  · simp [typename]
  · simp only [getElem?_persisted, getElem?_mergeRemoveNullFields, typename, if_false]
    rcases entity[key]? with _ | ⟨_ | _ | _ | _ | _ | _ | _ | _⟩ <;> simp [Option.filter_some]

end Entity

end GraphNode
