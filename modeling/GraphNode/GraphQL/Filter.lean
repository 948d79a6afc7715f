import GraphNode.Library.Suffix
import GraphNode.Library.MapFold
import GraphNode.Library.KeyedList

/-!
# Filter arguments of the API schema

`add_filter_type` gives each field `f` of an entity type the inputs `f`, `f_not`, `f_gt`, ... of
its `<Type>_filter` input object, by plain concatenation, and `build_filter_from_object` reads a
key back with `parse_field_as_filter`, which tries its suffixes in a fixed order and strips the
one it finds with `trim_end_matches`.  The round trip holds for field names that end with no
filter suffix; schema validation reserves no such name, and a field named like `amount_in` reads
back as the field `amount` with the operator `in`.

Strings are read as their lists of characters: `ends_with` is the suffix relation and
`trim_end_matches` is `Suffix.trimEnd` on them.
-/

namespace GraphNode

/-- `FilterOp`: the operator a filter argument applies. -/
inductive FilterOp where
  | not
  | greaterThan
  | lessThan
  | greaterOrEqual
  | lessOrEqual
  | «in»
  | notIn
  | contains
  | containsNoCase
  | notContains
  | notContainsNoCase
  | startsWith
  | startsWithNoCase
  | notStartsWith
  | notStartsWithNoCase
  | endsWith
  | endsWithNoCase
  | notEndsWith
  | notEndsWithNoCase
  | equal
  deriving DecidableEq, Repr

/-- The suffixes `parse_field_as_filter` tries, in the order of its match arms. -/
def filterSuffixes : List (String × FilterOp) :=
  [("_not", .not), ("_gt", .greaterThan), ("_lt", .lessThan), ("_gte", .greaterOrEqual),
    ("_lte", .lessOrEqual), ("_not_in", .notIn), ("_in", .in),
    ("_not_contains", .notContains), ("_not_contains_nocase", .notContainsNoCase),
    ("_contains", .contains), ("_contains_nocase", .containsNoCase),
    ("_not_starts_with", .notStartsWith), ("_not_starts_with_nocase", .notStartsWithNoCase),
    ("_not_ends_with", .notEndsWith), ("_not_ends_with_nocase", .notEndsWithNoCase),
    ("_starts_with", .startsWith), ("_starts_with_nocase", .startsWithNoCase),
    ("_ends_with", .endsWith), ("_ends_with_nocase", .endsWithNoCase)]

/-- `parse_field_as_filter`: the first suffix the key ends with gives the operator, `Equal` if
none does, and `trim_end_matches` strips that suffix from the key to give the attribute. -/
def parseFieldAsFilter (key : String) : String × FilterOp :=
  let (suffix, op) := (filterSuffixes.find? fun entry => decide
    (entry.1.toList <:+ key.toList)).getD ("", .equal)
  (String.ofList (Suffix.trimEnd suffix.toList key.toList), op)

/-! ## The generated inputs -/

/-- The kinds of type definition `field_filter_input_values` tells apart. -/
inductive TypeDefinitionKind where
  | object
  | interface
  | scalar
  | enum
  | inputObject
  | union
  deriving DecidableEq, Repr

/-- A GraphQL type. -/
inductive GraphQLType where
  | namedType (name : String)
  | listType (ofType : GraphQLType)
  | nonNullType (ofType : GraphQLType)
  deriving DecidableEq, Repr

/-- A field of an object or interface type: its name, its type and whether it is
`@derivedFrom`. -/
structure Field where
  name : String
  fieldType : GraphQLType
  derivedFrom : Bool
  deriving DecidableEq, Repr

/-- A generated input value: its name and type. -/
structure InputValue where
  name : String
  valueType : GraphQLType
  deriving DecidableEq, Repr

/-- The `APISchemaError` variants these functions return. -/
inductive APISchemaError where
  | typeExists (name : String)
  | typeNotFound (name : String)
  deriving DecidableEq, Repr

/-- `input_value`: the field's name, with `_` and the suffix unless the suffix is empty. -/
def inputValue (name suffix : String) (valueType : GraphQLType) : InputValue where
  name := if suffix.isEmpty then name else name ++ "_" ++ suffix
  valueType := valueType

/-- The suffixes `field_scalar_filter_input_values` generates for a scalar type. -/
def scalarFilterSuffixes : String → List String
  | "BigInt" => ["", "not", "gt", "lt", "gte", "lte", "in", "not_in"]
  | "Boolean" => ["", "not", "in", "not_in"]
  | "Bytes" => ["", "not", "in", "not_in", "contains", "not_contains"]
  | "BigDecimal" => ["", "not", "gt", "lt", "gte", "lte", "in", "not_in"]
  | "ID" => ["", "not", "gt", "lt", "gte", "lte", "in", "not_in"]
  | "Int" => ["", "not", "gt", "lt", "gte", "lte", "in", "not_in"]
  | "String" => ["", "not", "gt", "lt", "gte", "lte", "in", "not_in", "contains",
      "contains_nocase", "not_contains", "not_contains_nocase", "starts_with",
      "starts_with_nocase", "not_starts_with", "not_starts_with_nocase", "ends_with",
      "ends_with_nocase", "not_ends_with", "not_ends_with_nocase"]
  | _ => ["", "not"]

/-- The suffixes `field_enum_filter_input_values` generates. -/
def enumFilterSuffixes : List String := ["", "not", "in", "not_in"]

/-- The suffixes `field_list_filter_input_values` generates. -/
def listFilterSuffixes : List String :=
  ["", "not", "contains", "contains_nocase", "not_contains", "not_contains_nocase"]

/-- The input of one suffix for a field whose values are of `fieldType`: `in` and `not_in` take
a list of them. -/
def namedFilterInputValue (field : Field) (fieldType : GraphQLType) (filterType : String) :
    InputValue :=
  inputValue field.name filterType
    (if filterType = "in" ∨ filterType = "not_in" then .listType (.nonNullType fieldType)
      else fieldType)

/-- `field_scalar_filter_input_values`. -/
def fieldScalarFilterInputValues (field : Field) (scalarName : String) : List InputValue :=
  (scalarFilterSuffixes scalarName).map (namedFilterInputValue field (.namedType scalarName))

/-- `field_enum_filter_input_values`. -/
def fieldEnumFilterInputValues (field : Field) (enumName : String) : List InputValue :=
  enumFilterSuffixes.map (namedFilterInputValue field (.namedType enumName))

/-- `get_type_definition_from_type`: the definition of the named type under lists and
non-null, with its name. -/
def typeDefinitionFromType (schema : String → Option TypeDefinitionKind) :
    GraphQLType → Option (String × TypeDefinitionKind)
  | .namedType name => (schema name).map fun kind => (name, kind)
  | .listType ofType => typeDefinitionFromType schema ofType
  | .nonNullType ofType => typeDefinitionFromType schema ofType

/-- `field_list_filter_input_values`: a list of references takes ids, a list of scalars or
enums takes its values; derived references, input objects and unions have no filter. -/
def fieldListFilterInputValues (schema : String → Option TypeDefinitionKind) (field : Field)
    (fieldType : GraphQLType) : Option (List InputValue) := do
  let (name, kind) ← typeDefinitionFromType schema fieldType
  let inputFieldType ← match kind with
    | .interface | .object => if field.derivedFrom then none else some (.namedType "String")
    | .scalar | .enum => some (.namedType name)
    | .inputObject | .union => none
  pure (listFilterSuffixes.map fun filterType =>
    inputValue field.name filterType (.listType (.nonNullType inputFieldType)))

/-- `field_filter_input_values`: references that are not derived filter by id, as strings. -/
def fieldFilterInputValues (schema : String → Option TypeDefinitionKind) (field : Field) :
    GraphQLType → Except APISchemaError (List InputValue)
  | .namedType name =>
      match schema name with
      | none => .error (.typeNotFound name)
      | some .object | some .interface =>
          .ok (if field.derivedFrom then [] else fieldScalarFilterInputValues field "String")
      | some .scalar => .ok (fieldScalarFilterInputValues field name)
      | some .enum => .ok (fieldEnumFilterInputValues field name)
      | some .inputObject | some .union => .ok []
  | .listType ofType => .ok ((fieldListFilterInputValues schema field ofType).getD [])
  | .nonNullType ofType => fieldFilterInputValues schema field ofType

/-- `field_input_values`: the inputs of every field, in order. -/
def fieldInputValues (schema : String → Option TypeDefinitionKind) (fields : List Field) :
    Except APISchemaError (List InputValue) := do
  let values ← fields.mapM fun field => fieldFilterInputValues schema field field.fieldType
  pure values.flatten

/-- `block_changed_filter_argument`. -/
def blockChangedFilterArgument : InputValue :=
  ⟨"_change_block", .namedType "BlockChangedFilter"⟩

/-- `add_filter_type`: the `<Type>_filter` input object, unless the schema has a type of that
name already. -/
def addFilterType (schema : String → Option TypeDefinitionKind) (typeName : String)
    (fields : List Field) : Except APISchemaError (String × List InputValue) := do
  let filterTypeName := typeName ++ "_filter"
  match schema filterTypeName with
  | none =>
      let generated ← fieldInputValues schema fields
      pure (filterTypeName, generated ++ [blockChangedFilterArgument])
  | some _ => throw (.typeExists filterTypeName)

/-! ## Reading a filter back -/

/-- The `QueryExecutionError` variant `build_filter_from_object` returns for an unknown field. -/
inductive QueryExecutionError where
  | entityFieldError (entityName fieldName : String)
  deriving DecidableEq, Repr

/-- `get_field`: `__typename`, or the field of that name. -/
def getField (fields : List Field) (name : String) : Option Field :=
  if name = "__typename" then some ⟨"__typename", .nonNullType (.namedType "String"), false⟩
  else fields.find? fun field => field.name = name

/-- The field and operator `build_filter_from_object` makes of a key of the filter object, other
than `_change_block`: the key is parsed, and the field must exist. -/
def filterOfKey (entityName : String) (fields : List Field) (key : String) :
    Except QueryExecutionError (Field × FilterOp) :=
  let (fieldName, op) := parseFieldAsFilter key
  match getField fields fieldName with
  | some field => .ok (field, op)
  | none => .error (.entityFieldError entityName fieldName)

/-! ## The round trip -/

/-- The suffixes other than the empty one with which `add_filter_type` makes a field's inputs. -/
def filterInputSuffixes : List String :=
  ["not", "gt", "lt", "gte", "lte", "in", "not_in", "contains", "contains_nocase", "not_contains",
    "not_contains_nocase", "starts_with", "starts_with_nocase", "not_starts_with",
    "not_starts_with_nocase", "ends_with", "ends_with_nocase", "not_ends_with",
    "not_ends_with_nocase"]

/-- The operator a suffix stands for in `parse_field_as_filter`'s table, `Equal` for none. -/
def suffixOp (suffix : String) : FilterOp :=
  ((filterSuffixes.find? fun entry => entry.1 = "_" ++ suffix).map Prod.snd).getD .equal

/-- The first arm of the table of `parse_field_as_filter` that a generated suffix ends with is its
own. -/
theorem filterSuffixes_separate : ∀ suffix ∈ filterInputSuffixes,
    (∀ entry ∈ filterSuffixes, ("_" ++ suffix).toList <:+ entry.1.toList →
      entry.1.toList.length ≠ ("_" ++ suffix).toList.length →
      ∃ other ∈ filterSuffixes, other.1.toList =
        entry.1.toList.take (entry.1.toList.length - ("_" ++ suffix).toList.length)) ∧
    filterSuffixes.find? (fun entry => decide (entry.1.toList <:+ ("_" ++ suffix).toList)) =
      filterSuffixes.find? (fun entry => entry.1 = "_" ++ suffix) ∧
    (filterSuffixes.find? fun entry => entry.1 = "_" ++ suffix).isSome := by
  decide

/-- The inputs of a list field share one value type, one per suffix of `listFilterSuffixes`. -/
theorem fieldListFilterInputValues_eq {schema : String → Option TypeDefinitionKind}
    {field : Field} {fieldType : GraphQLType} {values : List InputValue}
    (listed : fieldListFilterInputValues schema field fieldType = some values) :
    ∃ valueType, values = listFilterSuffixes.map fun filterType =>
      inputValue field.name filterType valueType := by
  unfold fieldListFilterInputValues at listed
  cases found : typeDefinitionFromType schema fieldType with
  | none => simp [found] at listed
  | some definition =>
      obtain ⟨name, kind⟩ := definition
      cases kind <;> cases derived : field.derivedFrom <;>
        simp [found, derived] at listed <;> exact ⟨_, listed.symm⟩

/-- Every input `field_filter_input_values` makes is `input_value` of the field's name with the
empty suffix or one of `filterInputSuffixes`.  By induction on the field's type. -/
theorem mem_fieldFilterInputValues {schema : String → Option TypeDefinitionKind} {field : Field}
    {fieldType : GraphQLType} {inputs : List InputValue}
    (generated : fieldFilterInputValues schema field fieldType = .ok inputs) :
    ∀ input ∈ inputs, ∃ suffix ∈ "" :: filterInputSuffixes,
      input = inputValue field.name suffix input.valueType := by
  have made : ∀ (suffixes : List String) (valueOf : String → GraphQLType),
      (∀ suffix ∈ suffixes, suffix ∈ "" :: filterInputSuffixes) →
      ∀ input ∈ suffixes.map (fun filterType => inputValue field.name filterType
        (valueOf filterType)), ∃ suffix ∈ "" :: filterInputSuffixes,
        input = inputValue field.name suffix input.valueType := by
    intro suffixes valueOf within input member
    obtain ⟨suffix, suffixMember, rfl⟩ := List.mem_map.mp member
    exact ⟨suffix, within suffix suffixMember, rfl⟩
  have scalar : ∀ name, ∀ suffix ∈ scalarFilterSuffixes name,
      suffix ∈ "" :: filterInputSuffixes := by
    intro name
    unfold scalarFilterSuffixes
    split <;> decide
  induction fieldType generalizing inputs with
  | namedType name =>
      unfold fieldFilterInputValues at generated
      split at generated <;> (try cases generated) <;> (try split) <;>
        first
        | exact made _ _ (scalar _)
        | exact made _ _ (by decide)
        | simp
  | listType ofType _ =>
      cases generated
      cases listed : fieldListFilterInputValues schema field ofType with
      | none => simp
      | some values =>
          obtain ⟨valueType, rfl⟩ := fieldListFilterInputValues_eq listed
          exact made _ _ (by decide)
  | nonNullType ofType induction => exact induction generated

/-- The name of an input made with a nonempty suffix is the field's name, `_` and the suffix. -/
theorem toList_inputValue_name (name : String) {suffix : String}
    (member : suffix ∈ filterInputSuffixes) (valueType : GraphQLType) :
    (inputValue name suffix valueType).name.toList = name.toList ++ ("_" ++ suffix).toList := by
  have nonempty : suffix.isEmpty = false := by
    revert member
    revert suffix
    decide
  simp [inputValue, nonempty, String.append_assoc]

/-- A name that ends with no filter suffix reads back from each of its inputs as itself with the
input's operator. -/
theorem parseFieldAsFilter_inputValue {name : String}
    (avoids : ∀ entry ∈ filterSuffixes, ¬entry.1.toList <:+ name.toList) {suffix : String}
    (generated : suffix ∈ "" :: filterInputSuffixes) (valueType : GraphQLType) :
    parseFieldAsFilter (inputValue name suffix valueType).name = (name, suffixOp suffix) := by
  rcases List.mem_cons.mp generated with rfl | member
  · -- the input of `Equal` is the name, which no arm matches
    have unmatched : filterSuffixes.find? (fun entry => decide (entry.1.toList <:+ name.toList)) =
        none :=
      List.find?_eq_none.mpr fun entry member => by simpa using avoids entry member
    have equal : suffixOp "" = .equal := by decide
    simp [parseFieldAsFilter, inputValue, unmatched, equal]
  · obtain ⟨closed, first, found⟩ := filterSuffixes_separate suffix member
    obtain ⟨⟨key, op⟩, entryFound⟩ := Option.isSome_iff_exists.mp found
    have keyIs : key = "_" ++ suffix := by simpa using List.find?_some entryFound
    have entryMember := List.mem_of_find?_eq_some entryFound
    have parsed : filterSuffixes.find? (fun entry => decide
        (entry.1.toList <:+ (inputValue name suffix valueType).name.toList)) = some (key, op) := by
      rw [toList_inputValue_name name member, Suffix.find?_suffix_append
        (Suffix.closed_of_take closed) avoids, first, entryFound]
    have once : ¬key.toList <:+ name.toList := avoids (key, op) entryMember
    unfold parseFieldAsFilter
    rw [parsed, Option.getD_some]
    simp only [suffixOp, entryFound, Option.map_some, Option.getD_some, Prod.mk.injEq, and_true]
    rw [toList_inputValue_name name member, ← keyIs,
      Suffix.trimEnd_append_of_not_suffix (by simp [keyIs]) once, String.ofList_toList]

/-- Each input `add_filter_type` makes for fields with distinct names and no filter suffix reads
back as its field and operator. -/
theorem filterOfKey_addFilterType {schema : String → Option TypeDefinitionKind}
    {typeName : String} {fields : List Field} {filter : String × List InputValue}
    (added : addFilterType schema typeName fields = .ok filter)
    (distinct : (fields.map Field.name).Nodup)
    (notTypename : ∀ field ∈ fields, field.name ≠ "__typename")
    (avoids : ∀ field ∈ fields, ∀ entry ∈ filterSuffixes, ¬entry.1.toList <:+ field.name.toList) :
    ∀ input ∈ filter.2, input ≠ blockChangedFilterArgument →
      ∃ field ∈ fields, ∃ suffix ∈ "" :: filterInputSuffixes,
        input = inputValue field.name suffix input.valueType ∧
        filterOfKey typeName fields input.name = .ok (field, suffixOp suffix) := by
  unfold addFilterType at added
  cases existing : schema (typeName ++ "_filter") with
  | some _ => simp [existing, throw, throwThe, MonadExceptOf.throw] at added
  | none =>
      cases made : fieldInputValues schema fields with
      | error => simp [existing, made, bind, Except.bind] at added
      | ok generated =>
          simp only [existing, made, bind, Except.bind, pure, Except.pure,
            Except.ok.injEq] at added
          subst added
          intro input member other
          have fromFields : input ∈ generated := by simpa [other] using member
          unfold fieldInputValues at made
          cases listed : fields.mapM (fun field => fieldFilterInputValues schema field
              field.fieldType) with
          | error => simp [listed, bind, Except.bind] at made
          | ok lists =>
              simp only [listed, bind, Except.bind, pure, Except.pure, Except.ok.injEq] at made
              subst made
              obtain ⟨inputs, inputsMember, inInputs⟩ := List.mem_flatten.mp fromFields
              obtain ⟨field, fieldMember, fieldInputs⟩ :=
                MapFold.exists_of_mapM_eq_ok listed inputs inputsMember
              obtain ⟨suffix, suffixMember, isInput⟩ :=
                mem_fieldFilterInputValues fieldInputs input inInputs
              refine ⟨field, fieldMember, suffix, suffixMember, isInput, ?_⟩
              have looked : getField fields field.name = some field := by
                unfold getField
                rw [if_neg (notTypename field fieldMember)]
                exact KeyedList.find_of_mem distinct fieldMember
              unfold filterOfKey
              rw [isInput, parseFieldAsFilter_inputValue (avoids field fieldMember) suffixMember]
              simp [looked]

/-- A schema with an entity type `Pool` and the scalars its fields use. -/
def poolSchema (name : String) : Option TypeDefinitionKind :=
  if name = "Pool" then some .object
  else if name = "ID" ∨ name = "BigInt" then some .scalar else none

/-- The fields of `Pool`: `id: ID!` and `amount_in: BigInt!`; schema validation checks field
types, not field names. -/
def poolFields : List Field :=
  [⟨"id", .nonNullType (.namedType "ID"), false⟩,
    ⟨"amount_in", .nonNullType (.namedType "BigInt"), false⟩]

/-- `Pool_filter`'s input `amount_in` reads back as the field `amount` with `In`, and fields `a`
and `a_not` both make an input `a_not`. -/
theorem parseFieldAsFilter_misreads_amount_in :
    ((addFilterType poolSchema "Pool" poolFields).map fun filter =>
        ((filter.2.map InputValue.name).contains "amount_in",
          (filter.2.map InputValue.name).contains "amount_in_in")) = .ok (true, true) ∧
      parseFieldAsFilter "amount_in" = ("amount", .in) ∧
      parseFieldAsFilter "amount_in_in" = ("amount", .in) ∧
      filterOfKey "Pool" poolFields "amount_in" = .error (.entityFieldError "Pool" "amount") ∧
      (inputValue "a" "not" (.namedType "String")).name =
        (inputValue "a_not" "" (.namedType "String")).name :=
  ⟨by decide +kernel, by decide +kernel, by decide +kernel, by decide +kernel, by decide⟩

/-- `Pool` with the fields `id: ID!` and `amount: BigInt!`. -/
def amountFields : List Field :=
  [⟨"id", .nonNullType (.namedType "ID"), false⟩,
    ⟨"amount", .nonNullType (.namedType "BigInt"), false⟩]

theorem filterOfKey_addFilterType_amount :
    ∃ filter, addFilterType poolSchema "Pool" amountFields = .ok filter ∧
      ∀ input ∈ filter.2, input ≠ blockChangedFilterArgument →
        ∃ field ∈ amountFields, ∃ suffix ∈ "" :: filterInputSuffixes,
          input = inputValue field.name suffix input.valueType ∧
          filterOfKey "Pool" amountFields input.name = .ok (field, suffixOp suffix) := by
  have succeeds : (addFilterType poolSchema "Pool" amountFields).toBool = true := by
    decide +kernel
  cases added : addFilterType poolSchema "Pool" amountFields with
  | error => simp [added, Except.toBool] at succeeds
  | ok filter =>
      exact ⟨filter, rfl, filterOfKey_addFilterType added (by decide) (by decide) (by decide)⟩

end GraphNode
