import GraphNode.GraphQL.Filter
import GraphNode.Library.WriteLog

/-!
# Preparing a query

`Query::new` (`graphql/src/execution/query.rs`) checks a parsed query document in three passes
before it converts it: the validation plan of `graphql-tools`, which is empty unless
`ENV_VARS.graphql.enable_validations` is set; `check_complexity`, which walks the selections
with the fragments they spread; and `validate_fields`, which reports unknown fields, undefined
fragments and type conditions that name no object or interface.  The order matters:
`complexity_inner` looks fragments up with `unwrap`, and `validate_fields_inner` has no guard
against a fragment that spreads itself, which only `complexity_inner` detects, and only when the
walk reaches it.

A panic (`unwrap`, an unchecked `u64` sum that overflows) is `none`.  The recursion of
`validate_fields_inner` is on the stack: it is given a depth of stack, and running out of it is
`none`.  The validation plan is a parameter, and variables and `convert` are not modelled: the
result is the query that reaches `convert`.
-/

namespace GraphNode

/-! ## The API schema -/

/-- A type definition of the API schema; object and interface types come with their fields. -/
inductive TypeDefinition where
  | object (name : String) (fields : List Field)
  | interface (name : String) (fields : List Field)
  | scalar (name : String)
  | enum (name : String)
  | inputObject (name : String)
  | union (name : String)

namespace TypeDefinition

def name : TypeDefinition → String
  | object name _ | interface name _ | scalar name | enum name | inputObject name | union name =>
      name

/-- The fields a selection on the type can name: those of an object or an interface type. -/
def selectableFields : TypeDefinition → Option (List Field)
  | object _ fields | interface _ fields => some fields
  | _ => none

end TypeDefinition

/-- `get_base_type`: the named type under the lists and non-nulls. -/
def GraphQLType.baseType : GraphQLType → String
  | .namedType name => name
  | .listType inner | .nonNullType inner => inner.baseType

/-- `is_list_or_non_null_list_field`, of the field's type. -/
def GraphQLType.isListOrNonNullList : GraphQLType → Bool
  | .listType _ | .nonNullType (.listType _) => true
  | _ => false

/-- `ApiSchema`: the type definitions, those of the introspection schema, and the root types. -/
structure ApiSchema where
  definitions : List TypeDefinition
  introspection : List TypeDefinition
  queryType : List Field
  subscriptionType : Option (List Field)

namespace ApiSchema

/-- `get_named_type`: the first type definition of that name. -/
def getNamedType (schema : ApiSchema) (name : String) : Option TypeDefinition :=
  schema.definitions.find? fun definition => definition.name = name

/-- `get_root_query_type_def`: the object type `Query`. -/
def getRootQueryTypeDef (schema : ApiSchema) : Option TypeDefinition :=
  schema.definitions.find? fun definition =>
    match definition with
    | .object name _ => name = "Query"
    | _ => false

/-- `ApiSchema::object_or_interface`: names that start with `__` are the introspection
schema's. -/
def objectOrInterface (schema : ApiSchema) (name : String) : Option (List Field) :=
  let definitions := if "__".toList.isPrefixOf name.toList then schema.introspection
    else schema.definitions
  (definitions.find? fun definition => definition.name = name).bind
    TypeDefinition.selectableFields

end ApiSchema

/-! ## Query documents -/

/-- A value in a query, as far as the complexity reads it. -/
inductive QueryValue where
  | int (value : Int)
  | other

/-- A selection of a query. -/
inductive Selection where
  | field (name : String) (arguments : List (String × QueryValue)) (selectionSet : List Selection)
  | fragmentSpread (fragmentName : String)
  | inlineFragment (typeCondition : Option String) (selectionSet : List Selection)

structure FragmentDefinition where
  name : String
  typeCondition : String
  selectionSet : List Selection

inductive OperationDefinition where
  | query (selectionSet : List Selection)
  | selectionSet (selectionSet : List Selection)
  | subscription (selectionSet : List Selection)
  | mutation

inductive Definition where
  | operation (operation : OperationDefinition)
  | fragment (definition : FragmentDefinition)

namespace Execution

/-- The `QueryExecutionError` variants `Query::new` returns. -/
inductive QueryExecutionError where
  | validationError (message : String)
  | operationNameRequired
  | notSupported (message : String)
  | tooDeep (maxDepth : Nat)
  | tooComplex (complexity maxComplexity : Nat)
  | cyclicalFragment (name : String)
  | namedTypeError (name : String)
  | unknownField (typeName fieldName : String)
  | undefinedFragment (name : String)

/-- `ComplexityError`. -/
inductive ComplexityError where
  | tooDeep
  | overflow
  | invalid
  | cyclicalFragment (name : String)

/-- `RawQuery`: the fragments are a hash map by name, where a later definition replaces an
earlier one. -/
structure RawQuery where
  schema : ApiSchema
  selectionSet : List Selection
  fragments : List (String × FragmentDefinition)
  rootType : List Field

/-- The fragment of that name. -/
def RawQuery.fragment (query : RawQuery) (name : String) : Option FragmentDefinition :=
  (KeyedList.find Prod.fst query.fragments name).map Prod.snd

/-- A `u64` result; `none` is an overflow. -/
def u64Checked (n : Nat) : Option Nat :=
  if n < 2 ^ 64 then some n else none

/-- A checked `u64` result, as `checked_add` and `checked_mul` with `ok_or(Overflow)`. -/
def checkedOrOverflow (n : Nat) : ExceptT ComplexityError Option Nat :=
  match u64Checked n with
  | some n => pure n
  | none => throw .overflow

/-- The `first` argument of a collection field, `as u64`, or 100. -/
def firstArgument (arguments : List (String × QueryValue)) : Nat :=
  match (arguments.find? fun argument => argument.1 = "first").map Prod.snd with
  | some (.int n) => (n % 2 ^ 64).toNat
  | _ => 100

/-- `RawQuery::complexity_inner`: the walk stops at the first error; a field with no
subselection costs nothing, a collection field costs `first` times its subselection and `first`
again. -/
def complexityInner (query : RawQuery) (maxDepth : Nat) (ty : TypeDefinition)
    (selectionSet : List Selection) (depth : Nat) (visited : List String) :
    ExceptT ComplexityError Option Nat :=
  if maxDepth ≤ depth then throw .tooDeep
  else selectionSet.foldlM (fun total selection =>
    match selection with
    | .field name arguments subselection =>
        if subselection.isEmpty then pure total
        else do
          let some field := ty.selectableFields.bind (fun fields => getField fields name)
            | throw .invalid
          let some fieldType := query.schema.getNamedType field.fieldType.baseType
            | throw .invalid
          let fieldComplexity ←
            complexityInner query maxDepth fieldType subselection (depth + 1) visited
          if field.fieldType.isListOrNonNullList then
            let maxEntities := firstArgument arguments
            let product ← checkedOrOverflow (maxEntities * fieldComplexity)
            let complexity ← checkedOrOverflow (maxEntities + product)
            checkedOrOverflow (total + complexity)
          else
            -- `total_complexity + field_complexity` is not checked
            ExceptT.lift (u64Checked (total + fieldComplexity))
    | .fragmentSpread fragmentName => do
        let some definition := query.fragment fragmentName | ExceptT.lift none
        let some fragmentType := query.schema.getNamedType definition.typeCondition
          | throw .invalid
        if fragmentName ∈ visited then throw (.cyclicalFragment fragmentName)
        let complexity ← complexityInner query maxDepth fragmentType definition.selectionSet
          (depth + 1) (fragmentName :: visited)
        checkedOrOverflow (total + complexity)
    | .inlineFragment typeCondition subselection => do
        let fragmentType ← match typeCondition with
          | some typeName =>
              match query.schema.getNamedType typeName with
              | some fragmentType => pure fragmentType
              | none => throw .invalid
          | none => pure ty
        let complexity ←
          complexityInner query maxDepth fragmentType subselection (depth + 1) visited
        checkedOrOverflow (total + complexity)) 0
termination_by maxDepth - depth

/-- `RawQuery::complexity`: an invalid query counts as 0, so that `validate_fields` reports
it. -/
def complexity (query : RawQuery) (maxDepth : Nat) : Option (Except QueryExecutionError Nat) :=
  match query.schema.getRootQueryTypeDef with
  | none => none
  | some root =>
      (complexityInner query maxDepth root query.selectionSet 0 []).run.map fun
        | .ok complexity => .ok complexity
        | .error .invalid => .ok 0
        | .error .tooDeep => .error (.tooDeep maxDepth)
        | .error .overflow => .error (.tooComplex (2 ^ 64 - 1) 0)
        | .error (.cyclicalFragment name) => .error (.cyclicalFragment name)

/-- `RawQuery::check_complexity`. -/
def checkComplexity (query : RawQuery) (maxComplexity : Option Nat) (maxDepth : Nat) :
    Option (Except (List QueryExecutionError) Nat) :=
  (complexity query maxDepth).map fun
    | .error error => .error [error]
    | .ok complexity =>
        match maxComplexity with
        | some most => if most < complexity then .error [.tooComplex complexity most] else .ok complexity
        | none => .ok complexity

/-- `RawQuery::validate_fields_inner`, with `stack` calls left before the stack overflows: the
errors of every selection, in order. -/
def validateFieldsInner (query : RawQuery) :
    (stack : Nat) → String → List Field → List Selection → Option (List QueryExecutionError)
  | 0, _, _, _ => none
  | stack + 1, typeName, ty, selectionSet =>
      selectionSet.foldlM (fun errors selection =>
        match selection with
        | .field name _ subselection =>
            match getField ty name with
            | some field =>
                let baseType := field.fieldType.baseType
                if (query.schema.getNamedType baseType).isNone then
                  some (errors ++ [.namedTypeError baseType])
                else
                  match query.schema.objectOrInterface baseType with
                  | some fields =>
                      (validateFieldsInner query stack baseType fields subselection).map
                        (errors ++ ·)
                  | none => some errors
            | none => some (errors ++ [.unknownField typeName name])
        | .fragmentSpread fragmentName =>
            match query.fragment fragmentName with
            | some definition =>
                match query.schema.objectOrInterface definition.typeCondition with
                | some fields =>
                    (validateFieldsInner query stack definition.typeCondition fields
                      definition.selectionSet).map (errors ++ ·)
                | none => some (errors ++ [.namedTypeError definition.typeCondition])
            | none => some (errors ++ [.undefinedFragment fragmentName])
        | .inlineFragment typeCondition subselection =>
            match typeCondition with
            | some conditionName =>
                match query.schema.objectOrInterface conditionName with
                | some fields =>
                    (validateFieldsInner query stack conditionName fields subselection).map
                      (errors ++ ·)
                | none => some (errors ++ [.namedTypeError conditionName])
            | none => (validateFieldsInner query stack typeName ty subselection).map
                (errors ++ ·)) []

/-- `RawQuery::validate_fields`, from the `Query` type. -/
def validateFields (query : RawQuery) (stack : Nat) :
    Option (Except (List QueryExecutionError) Unit) :=
  (validateFieldsInner query stack "Query" query.schema.queryType query.selectionSet).map fun
    | [] => .ok ()
    | errors => .error errors

/-- The loop of `Query::new` over the definitions: one operation, and the fragments by name. -/
def collectDefinitions : List Definition → Option OperationDefinition →
    List (String × FragmentDefinition) →
    Except (List QueryExecutionError) (Option OperationDefinition × List (String × FragmentDefinition))
  | [], operation, fragments => .ok (operation, fragments)
  | .operation operation :: definitions, none, fragments =>
      collectDefinitions definitions (some operation) fragments
  | .operation _ :: _, some _, _ => .error [.operationNameRequired]
  | .fragment definition :: definitions, operation, fragments =>
      collectDefinitions definitions operation
        (WriteLog.record (fun _ next => next) fragments definition.name definition)

/-- `Query::new` up to `convert`: the validation plan when validations are enabled, the
operation, then `check_complexity` before `validate_fields`. -/
def queryNew (schema : ApiSchema) (enableValidations : Bool)
    (validate : List Definition → List String) (definitions : List Definition)
    (maxComplexity : Option Nat) (maxDepth stack : Nat) :
    Option (Except (List QueryExecutionError) RawQuery) :=
  let validationErrors := if enableValidations then validate definitions else []
  if !validationErrors.isEmpty then some (.error (validationErrors.map .validationError))
  else
    match collectDefinitions definitions none [] with
    | .error errors => some (.error errors)
    | .ok (none, _) => some (.error [.operationNameRequired])
    | .ok (some operation, fragments) =>
        let kindAndSelection : Except (List QueryExecutionError) (Bool × List Selection) :=
          match operation with
          | .query selectionSet | .selectionSet selectionSet => .ok (false, selectionSet)
          | .subscription selectionSet => .ok (true, selectionSet)
          | .mutation => .error [.notSupported "Mutations are not supported"]
        match kindAndSelection with
        | .error errors => some (.error errors)
        | .ok (subscription, selectionSet) =>
            let rootType := if subscription then schema.subscriptionType else some schema.queryType
            rootType.bind fun rootType =>
              let query : RawQuery := ⟨schema, selectionSet, fragments, rootType⟩
              (checkComplexity query maxComplexity maxDepth).bind fun
                | .error errors => some (.error errors)
                | .ok _ => (validateFields query stack).map fun
                  | .error errors => .error errors
                  | .ok () => .ok query

/-! ## Where preparing a query panics -/

/-- A selection set whose first selection spreads a fragment the query does not define panics at
the lookup's `unwrap`, below the depth limit. -/
theorem complexityInner_undefinedSpread (query : RawQuery) {maxDepth depth : Nat}
    (shallow : depth < maxDepth) (ty : TypeDefinition) (visited : List String) {name : String}
    (undefined : query.fragment name = none) (rest : List Selection) :
    (complexityInner query maxDepth ty (.fragmentSpread name :: rest) depth visited).run = none := by
  rw [complexityInner, if_neg (Nat.not_le.mpr shallow), MapFold.run_foldlM_cons_of_stops]
  all_goals simp [undefined, ExceptT.run, ExceptT.lift, ExceptT.mk]

/-- A selection set whose first selection is a field with a subselection that its type does not
have stops the walk: it is invalid, and the selections after it are not looked at. -/
theorem complexityInner_unknownField (query : RawQuery) {maxDepth depth : Nat}
    (shallow : depth < maxDepth) {ty : TypeDefinition} (visited : List String) {name : String}
    (unknown : ty.selectableFields.bind (fun fields => getField fields name) = none)
    (arguments : List (String × QueryValue)) {subselection : List Selection}
    (nonempty : subselection ≠ []) (rest : List Selection) :
    (complexityInner query maxDepth ty (.field name arguments subselection :: rest) depth
      visited).run = some (.error .invalid) := by
  rw [complexityInner, if_neg (Nat.not_le.mpr shallow), MapFold.run_foldlM_cons_of_stops]
  all_goals simp [List.isEmpty_iff, nonempty, unknown, ExceptT.run, throw, throwThe,
    MonadExceptOf.throw, ExceptT.mk]

/-- A fragment that spreads itself runs `validate_fields_inner` out of stack: the recursion has no
guard against cycles. -/
theorem validateFieldsInner_selfSpread (query : RawQuery) {name : String}
    {definition : FragmentDefinition} (defined : query.fragment name = some definition)
    {fields : List Field}
    (resolves : query.schema.objectOrInterface definition.typeCondition = some fields)
    (cyclic : .fragmentSpread name ∈ definition.selectionSet) :
    ∀ stack typeName ty selectionSet, .fragmentSpread name ∈ selectionSet →
      validateFieldsInner query stack typeName ty selectionSet = none
  | 0, _, _, _, _ => rfl
  | stack + 1, _, _, _, member => by
      rw [validateFieldsInner]
      -- the spread's step recurses into the fragment, which spreads itself again
      refine MapFold.foldlM_eq_none_of_mem (fun errors => ?_) member []
      simp only [defined, resolves,
        validateFieldsInner_selfSpread query defined resolves cyclic stack _ _ _ cyclic,
        Option.map_none]

/-! ## Preparing a query without the validation plan -/

/-- The document `{ ...Missing }`. -/
def missingSpread : List Definition :=
  [.operation (.query [.fragmentSpread "Missing"])]

/-- The document `{ unknown { x } ...A } fragment A on Query { ...A }`: a fragment that spreads
itself, after a field the root type does not have. -/
def cyclicSpread : List Definition :=
  [.operation (.query [.field "unknown" [] [.field "x" [] []], .fragmentSpread "A"]),
    .fragment ⟨"A", "Query", [.fragmentSpread "A"]⟩]

/-- With validations disabled, the default, `Query::new` panics on both documents, for every
schema without a field `unknown`, every limit and every stack. -/
theorem queryNew_panics_without_validations (schema : ApiSchema)
    (validate : List Definition → List String) {root : TypeDefinition}
    (rooted : schema.getRootQueryTypeDef = some root)
    (lacksUnknown : root.selectableFields.bind (fun fields => getField fields "unknown") = none)
    {fields : List Field} (queryResolves : schema.objectOrInterface "Query" = some fields)
    (maxComplexity : Option Nat) {maxDepth : Nat} (deep : 0 < maxDepth) (stack : Nat) :
    queryNew schema false validate missingSpread maxComplexity maxDepth stack = none ∧
      queryNew schema false validate cyclicSpread maxComplexity maxDepth stack = none := by
  constructor
  · have panics := complexityInner_undefinedSpread
      ⟨schema, [.fragmentSpread "Missing"], [], schema.queryType⟩ deep root []
      (show RawQuery.fragment _ "Missing" = none from rfl) []
    simp [queryNew, missingSpread, collectDefinitions, checkComplexity, complexity, rooted,
      panics]
  · let fragment : FragmentDefinition := ⟨"A", "Query", [.fragmentSpread "A"]⟩
    let query : RawQuery := ⟨schema, [.field "unknown" [] [.field "x" [] []], .fragmentSpread "A"],
      [("A", fragment)], schema.queryType⟩
    have invalid := complexityInner_unknownField query deep [] lacksUnknown []
      (List.cons_ne_nil (.field "x" [] []) []) [.fragmentSpread "A"]
    have overflows := validateFieldsInner_selfSpread query
      (show query.fragment "A" = some fragment from rfl) queryResolves List.mem_cons_self stack
      "Query" schema.queryType query.selectionSet (by simp [query])
    simp only [query, fragment] at invalid overflows
    simp [queryNew, cyclicSpread, collectDefinitions, WriteLog.record, checkComplexity, complexity,
      rooted, invalid, validateFields, overflows]
    cases maxComplexity <;> rfl

/-- The schema whose only type is an empty `Query`. -/
def queryOnly : ApiSchema :=
  ⟨[.object "Query" []], [], [], some []⟩

theorem queryNew_panics_on_queryOnly :
    queryNew queryOnly false (fun _ => []) missingSpread none 10 0 = none ∧
      queryNew queryOnly false (fun _ => []) cyclicSpread none 10 0 = none :=
  queryNew_panics_without_validations queryOnly (fun _ => [])
    (show queryOnly.getRootQueryTypeDef = some (.object "Query" []) from rfl) rfl
    (show queryOnly.objectOrInterface "Query" = some [] from rfl) none (by decide) 0

end Execution

end GraphNode
