/-!
# What can go wrong

Every way in which compiling a query can fail is a constructor here, grouped by the activity that
notices it.  The wording of a fault is given in one place, its `message`, and its classification
by `kind`.
-/

namespace FluentQuery

set_option autoImplicit false

/-- Classification of failures. -/
inductive ErrorKind where
  /-- A query that is not written the way the query language allows. -/
  | parseStructure
  /-- A query that would be dangerous or has no safe rendering. -/
  | semanticPolicy
  /-- A feature the selected back end does not have. -/
  | dialectCapability
  /-- Row filters whose context is unbound or incomplete. -/
  | policyBinding
deriving DecidableEq, Repr

namespace ErrorKind

def name : ErrorKind → String
  | parseStructure => "ParseStructureError"
  | semanticPolicy => "SemanticPolicyError"
  | dialectCapability => "DialectCapabilityError"
  | policyBinding => "PolicyBindingError"

end ErrorKind

/-- A document that is no query-building function. -/
inductive LoadFault where
  | missingType
  | missingField (node field : String)
  | notIdentifier (got : String)
  | notNodeList
  | arrayHole
  | computedKey
  | unsupportedKey (type : String)
  | unsupportedMember (kind : String)
  | asyncFunction
  | programSize
  | unsupportedNode (kind : String)
  | lambdaBlock
  | lambdaWithoutValue
deriving DecidableEq, Repr

def LoadFault.message : LoadFault → String
  | missingType => "AST node is missing a string 'type' field"
  | missingField node field => String.join ["AST node '", node, "' is missing field '", field, "'"]
  | notIdentifier got => String.join ["Expected identifier for lambda parameter, got ", got]
  | notNodeList => "Expected an array of AST nodes"
  | arrayHole => "Array holes are not supported"
  | computedKey => "Computed object keys are not supported"
  | unsupportedKey type => String.join ["Unsupported object key of type ", type]
  | unsupportedMember kind => String.join ["Unsupported object member ", kind]
  | asyncFunction => "Async or generator query functions are not supported"
  | programSize => "Program must contain exactly one statement"
  | unsupportedNode kind => String.join ["Unsupported AST node type: ", kind]
  | lambdaBlock => "Lambda block body must consist of a single return statement"
  | lambdaWithoutValue => "Lambda return statement has no value"

/-- A lambda body that has no expression. -/
inductive ExprFault where
  | missingPredicate
  | notBoolean (type : String)
  | notLambda (method : String)
  | missingExpression
  | nestedLambda
  | unsupportedExpression (node : String)
  | bareGrouping (name : String)
  | unknownIdentifier (name : String)
  | computedKeyNotLiteral (source : String)
  | unsupportedComputedAccess (source : String)
  | unsupportedMemberAccess (source : String)
  | indexOnRoot (root : String)
  | indexOffParameter
  | excludedPath
  | unsupportedNumberConstant (path : String)
  | unsupportedGroupingMember (root member : String)
  | noGroupingKeyMember (path : String)
  | helperNotCalled (root path : String)
  | noShapeMember (member path : String)
  | unflattenedCollection (path : String)
  | nullComparison (source : String)
  | orderedNullComparison (source : String)
  | unsupportedBinary (op : String)
  | unsupportedLogical (op : String)
  | nonNumericMinus (source : String)
  | unsupportedUnary (op : String)
  | unsupportedSpread (source : String)
  | externalCall (source : String)
  | unsupportedCall (source : String)
  | dateArithmetic
  | takesNoArguments (method : String)
  | takesOneArgument (method : String)
  | unsupportedMethod (method : String)
  | unknownHelper (method : String)
  | helperTakesTwoArguments (method : String)
  | groupCountPredicate
  | unsupportedGroupingMethod (method : String)
  | groupSelectorMissing (method : String)
  | malformedWindow (source : String)
  | windowStart (helpers : String)
  | windowRowMissing
  | windowRowUnbound (name : String)
  | partitionWithoutSelector
  | takesOneSelector (method : String)
  | windowThenByFirst (method : String)
  | windowOrderedTwice
  | unsupportedWindowMethod (method : String)
  | windowWithoutOrder (function : String)
deriving DecidableEq, Repr

def ExprFault.message : ExprFault → String
  | missingPredicate => "Missing predicate expression"
  | notBoolean type =>
    String.join ["Expression of type '", type, "' cannot be used as a boolean predicate"]
  | notLambda method => String.join [method, "() expects a lambda expression"]
  | missingExpression => "Missing expression"
  | nestedLambda => "Nested lambda is not allowed in this position"
  | unsupportedExpression node => String.join ["Unsupported expression: ", node]
  | bareGrouping name =>
    String.join ["Grouping parameter '",
      name, "' can only be used through .key or aggregate methods"]
  | unknownIdentifier name => String.join ["Unknown identifier: ", name]
  | computedKeyNotLiteral source =>
    String.join ["Computed member access requires a literal key: ", source]
  | unsupportedComputedAccess source => String.join ["Unsupported computed member access: ", source]
  | unsupportedMemberAccess source => String.join ["Unsupported member access: ", source]
  | indexOnRoot root =>
    String.join ["Indexed access on '", root, "' is only supported for query parameters"]
  | indexOffParameter => "Indexed access is only supported for query parameters"
  | excludedPath => "excluded columns must be accessed directly (excluded.column)"
  | unsupportedNumberConstant path => String.join ["Unsupported Number constant: Number.", path]
  | unsupportedGroupingMember root member =>
    String.join ["Unsupported grouping member: ", root, ".", member]
  | noGroupingKeyMember path => String.join ["Grouping key has no member '", path, "'"]
  | helperNotCalled root path => String.join ["Helper '", root, ".", path, "' must be called"]
  | noShapeMember member path => String.join ["Cannot access '", member, "' on '", path, "'"]
  | unflattenedCollection path =>
    String.join ["Collection '", path, "' must be flattened with selectMany()"]
  | nullComparison source => String.join ["Comparison between two null values: ", source]
  | orderedNullComparison source =>
    String.join ["Only equality comparisons are allowed against null: ", source]
  | unsupportedBinary op => String.join ["Unsupported binary operator: ", op]
  | unsupportedLogical op => String.join ["Unsupported logical operator: ", op]
  | nonNumericMinus source => String.join ["Unary minus requires a numeric operand: ", source]
  | unsupportedUnary op => String.join ["Unsupported unary operator: ", op]
  | unsupportedSpread source => String.join ["Unsupported spread in projection: ...", source]
  | externalCall source =>
    String.join ["Unsupported call expression: ", source, ". External functions are not supported."]
  | unsupportedCall source => String.join ["Unsupported call expression: ", source]
  | dateArithmetic => "Unsupported method: getTime(). Date arithmetic is not supported."
  | takesNoArguments method => String.join [method, "() takes no arguments"]
  | takesOneArgument method => String.join [method, "() expects exactly one argument"]
  | unsupportedMethod method => String.join ["Unsupported method: ", method, "()"]
  | unknownHelper method => String.join ["Unknown helper function: functions.", method, "()"]
  | helperTakesTwoArguments method =>
    String.join ["functions.", method, "() expects exactly two arguments"]
  | groupCountPredicate => "count() on a group does not accept a predicate"
  | unsupportedGroupingMethod method => String.join ["Unsupported grouping method: ", method, "()"]
  | groupSelectorMissing method => String.join [method, "() on a group requires a selector"]
  | malformedWindow source => String.join ["Malformed window function chain: ", source]
  | windowStart helpers =>
    String.join ["Window functions must start with ", helpers, ".window(row)"]
  | windowRowMissing => "window() expects the row parameter"
  | windowRowUnbound name => String.join ["window() argument must be a row parameter: ", name]
  | partitionWithoutSelector => "partitionBy() requires at least one selector"
  | takesOneSelector method => String.join [method, "() expects exactly one selector"]
  | windowThenByFirst method => String.join [method, "() must follow orderBy() in a window"]
  | windowOrderedTwice => "Use thenBy() for additional window ordering"
  | unsupportedWindowMethod method => String.join ["Unsupported window method: ", method, "()"]
  | windowWithoutOrder function => String.join [function, "() requires orderBy() in the window"]

/-- A chain of calls that is no query. -/
inductive ChainFault where
  | tableNameNotString (method : String)
  | tableNameMissing (method : String)
  | tableNameEmpty (method : String)
  | noChain
  | notCall (source : String)
  | unknownFunction (name : String)
  | computedMethod (source : String)
  | planWithoutOperation
  | unknownRoot (receiver method : String)
  | unknownMethod (method : String)
  | nestedStatement
  | lambdaParameters (method : String)
  | notOnStatement (method statement : String)
  | afterTerminal (method terminal : String)
  | argumentCount (method : String) (least most got : Nat)
  | thenByFirst (method : String)
  | pagingCount (method : String)
  | groupByTwice
  | joinKeyNotColumn (method side : String)
  | resultSelectorParameters (method : String)
  | groupJoinNotObject
  | groupJoinWithoutGroup
  | selectManyNotGroup
  | onlyOnStatement (method statement : String)
  | assignmentsNotObject (method : String)
  | assignmentSpread (method : String)
  | assignedTwice (method column : String)
  | valuesTwice
  | valuesEmpty
  | conflictWithoutTarget
  | conflictBeforeValues
  | conflictTwice
  | conflictTargetNotColumn
  | conflictTargetRepeated
  | actionWithoutConflict (method : String)
  | actionTwice
  | conflictUpdateEmpty
  | returningBeforeValues
  | returningNotSupported
  | setTwice
  | setEmpty
  | builderParameters
  | builderMissing
deriving DecidableEq, Repr

def ChainFault.message : ChainFault → String
  | tableNameNotString method => String.join [method, "() expects a table name string"]
  | tableNameMissing method => String.join [method, "() expects a table name"]
  | tableNameEmpty method => String.join [method, "() table name must not be empty"]
  | noChain => "Query builder must return a query chain"
  | notCall source => String.join ["Expected a query method call, got: ", source]
  | unknownFunction name => String.join ["Unknown query function: ", name, "()"]
  | computedMethod source => String.join ["Computed method names are not supported: ", source]
  | planWithoutOperation => "Plan call without a plan operation"
  | unknownRoot receiver method => String.join ["Unknown query root: ", receiver, ".", method, "()"]
  | unknownMethod method => String.join ["Unknown query method: ", method, "()"]
  | nestedStatement => "Nested queries must be SELECT chains"
  | lambdaParameters method => String.join [method, "() lambda accepts at most two parameters"]
  | notOnStatement method statement =>
    String.join [method, "() is not supported on ", statement, " operations"]
  | afterTerminal method terminal =>
    String.join ["Cannot chain ", method, "() after terminal operation ", terminal, "()"]
  | argumentCount method least most got =>
    let expected := if least = most then toString least else toString least ++ "-" ++ toString most
    String.join [method, "() expects ", expected, " argument(s), got ", toString got]
  | thenByFirst method => String.join [method, "() requires a preceding orderBy()"]
  | pagingCount method => String.join [method, "() expects a non-negative integer"]
  | groupByTwice => "groupBy() can only be called once per query"
  | joinKeyNotColumn method side =>
    String.join [method, "() ", side, " key must select a single column"]
  | resultSelectorParameters method =>
    String.join [method, "() result selector accepts two parameters"]
  | groupJoinNotObject => "groupJoin() result selector must return an object"
  | groupJoinWithoutGroup => "groupJoin() result selector must include the joined group"
  | selectManyNotGroup => "selectMany() collection must be a group produced by groupJoin()"
  | onlyOnStatement method statement =>
    String.join [method, "() can only be called on ", statement, " operations"]
  | assignmentsNotObject method =>
    String.join [method, "() expects an object literal of column values"]
  | assignmentSpread method => String.join [method, "() does not support spread properties"]
  | assignedTwice method column => String.join [method, "() assigns column '", column, "' twice"]
  | valuesTwice => "values() can only be called once per INSERT"
  | valuesEmpty => "values() must specify at least one column"
  | conflictWithoutTarget => "onConflict() requires at least one target column"
  | conflictBeforeValues => "onConflict() must follow values()"
  | conflictTwice => "onConflict() can only be called once per INSERT"
  | conflictTargetNotColumn => "onConflict() targets must be direct column references"
  | conflictTargetRepeated => "onConflict() cannot include duplicate columns"
  | actionWithoutConflict method => String.join [method, "() must follow onConflict()"]
  | actionTwice => "ON CONFLICT action can only be specified once"
  | conflictUpdateEmpty => "doUpdateSet() must specify at least one column assignment"
  | returningBeforeValues => "returning() must follow values()"
  | returningNotSupported => "returning() can only be called on INSERT or UPDATE operations"
  | setTwice => "set() can only be called once per UPDATE query"
  | setEmpty => "set() must specify at least one column assignment"
  | builderParameters => "Query builder accepts at most three parameters (q, params, helpers)"
  | builderMissing => "Query builder must not be empty"

/-- An operation that has no SQL. -/
inductive SqlFault where
  | noAlias (index : Int)
  | missingExpression
  | unsupportedExpression (position type : String)
  | methodWithoutArgument (method : String)
  | notArrayParameter (name got : String)
  | notList
  | emptyCase
  | emptyProjection
  | nestedObject (key : String)
  | groupJoinNotFlattened
  | selectManyNotFlattened
  | noFrom
  | aggregateWithoutSelector (method : String)
  | joinWithoutProjection
  | reverseAfterPaging
  | allWithoutPredicate
  | containsWithPaging
  | containsNotScalar
  | emptyOperation
  | insertUndefined
  | conflictWithoutColumns
  | conflictWithoutAction
  | conflictUpdateUndefined
  | updateUndefined
  | updateWithoutWhere
  | deleteWithoutWhere
  | unknownDialect (name : String)
  | returningUnsupported (dialect : String)
  | dialectMissing
deriving DecidableEq, Repr

def SqlFault.kind : SqlFault → ErrorKind
  | noAlias _ | missingExpression | unsupportedExpression _ _ | methodWithoutArgument _ | notList
  | emptyCase | emptyProjection | nestedObject _ | noFrom | allWithoutPredicate
  | emptyOperation => .parseStructure
  | unknownDialect _ | returningUnsupported _ | dialectMissing => .dialectCapability
  | notArrayParameter _ _ | groupJoinNotFlattened | selectManyNotFlattened
  | aggregateWithoutSelector _ | joinWithoutProjection | reverseAfterPaging | containsWithPaging
  | containsNotScalar | insertUndefined | conflictWithoutColumns | conflictWithoutAction
  | conflictUpdateUndefined | updateUndefined | updateWithoutWhere
  | deleteWithoutWhere => .semanticPolicy

def SqlFault.message : SqlFault → String
  | noAlias index => String.join ["No table alias is registered for source index ", toString index]
  | missingExpression => "Missing expression during SQL generation"
  | unsupportedExpression position type =>
    String.join ["Unsupported ", position, " expression type: ", type]
  | methodWithoutArgument method => String.join [method, " requires an argument"]
  | notArrayParameter name got =>
    String.join ["Expected array parameter '", name, "' but got ", got]
  | notList => "IN expression requires an array or array parameter"
  | emptyCase => "CASE expression must have at least one condition"
  | emptyProjection => "Projection object must have at least one property"
  | nestedObject key =>
    String.join ["Nested object '", key, "' cannot be projected to a single column"]
  | groupJoinNotFlattened =>
    "groupJoin() must be followed by selectMany() over the group to produce a join"
  | selectManyNotFlattened =>
    "selectMany() is only supported over a groupJoin() group or an independent table"
  | noFrom => "Query must have a FROM operation"
  | aggregateWithoutSelector method => String.join [method, "() requires a selector function"]
  | joinWithoutProjection =>
    String.join ["JOIN with result selector requires explicit SELECT projection. ",
      "Add .select() to specify which columns to return."]
  | reverseAfterPaging =>
    "reverse() after take/skip is not supported. Apply reverse() before take/skip."
  | allWithoutPredicate => "all() requires a predicate"
  | containsWithPaging => "contains() is not supported with take/skip."
  | containsNotScalar => "contains() requires a scalar .select(...) projection."
  | emptyOperation => "Cannot generate SQL for an empty operation tree"
  | insertUndefined =>
    "INSERT must specify at least one column. All provided values were undefined."
  | conflictWithoutColumns => "INSERT ON CONFLICT requires at least one conflict column"
  | conflictWithoutAction => "INSERT ON CONFLICT requires doNothing() or doUpdateSet()"
  | conflictUpdateUndefined =>
    "ON CONFLICT DO UPDATE must specify at least one column. All provided values were undefined."
  | updateUndefined =>
    "UPDATE must specify at least one column. All provided values were undefined."
  | updateWithoutWhere => "UPDATE requires a WHERE clause or explicit allowFullTableUpdate()"
  | deleteWithoutWhere => "DELETE requires a WHERE clause or explicit allowFullTableDelete"
  | unknownDialect name => String.join ["Unknown SQL dialect '", name, "'"]
  | returningUnsupported dialect =>
    String.join ["RETURNING clause is not supported by the ", dialect, " adapter"]
  | dialectMissing => "QueryCompiler requires a dialect"

/-- A plan that cannot be defined or finished. -/
inductive PlanFault where
  | paramsNotObject
  | notSelect
  | endsInTerminal (terminal : String)
  | notTerminal
  | wrongStatement (expected got : String)
  | wrongStage (entry expected got : String)
  | insertWithoutValues
  | upsertWithoutAction
  | updateWithoutSet
deriving DecidableEq, Repr

def PlanFault.kind : PlanFault → ErrorKind
  | insertWithoutValues | upsertWithoutAction | updateWithoutSet => .semanticPolicy
  | paramsNotObject | notSelect | endsInTerminal _ | notTerminal | wrongStatement _ _
  | wrongStage _ _ _ => .parseStructure

def PlanFault.message : PlanFault → String
  | paramsNotObject => "Query parameters must be an object"
  | notSelect => "defineSelect() requires a SELECT query builder"
  | endsInTerminal terminal =>
    String.join ["Query ends in terminal operation ", terminal, "(); use defineSelectTerminal()"]
  | notTerminal => "Query does not end in a terminal operation; use defineSelect()"
  | wrongStatement expected got =>
    String.join ["Query builder must produce a ", expected, " operation, got ", got]
  | wrongStage entry expected got =>
    String.join [entry, "<", expected, ">() got a builder at stage ", got]
  | insertWithoutValues =>
    "INSERT statement requires values() to be called before generating SQL"
  | upsertWithoutAction =>
    "INSERT upsert requires doNothing() or doUpdateSet() before generating SQL"
  | updateWithoutSet => "UPDATE statement requires set() to be called before generating SQL"

/-- The two sources of parameters that row filters add. -/
inductive FilterParams where
  | auto
  | context
deriving DecidableEq, Repr

def FilterParams.label : FilterParams → String
  | auto => "Row filter auto-params"
  | context => "Row filter context params"

/-- Row filters that cannot be applied. -/
inductive PolicyFault where
  | filterNotLambda (table kind : String)
  | contextWithoutFilters
  | contextNotObject
  | contextUnbound
  | contextAccess
  | filterParameters
  | contextKeyMissing (key : String)
  | collision (params : FilterParams) (key : String)
  | tableNotConfigured (table : String)
  | notSubstitutable (column : String)
deriving DecidableEq, Repr

def PolicyFault.kind : PolicyFault → ErrorKind
  | filterNotLambda _ _ | filterParameters => .parseStructure
  | notSubstitutable _ => .semanticPolicy
  | contextWithoutFilters | contextNotObject | contextUnbound | contextAccess
  | contextKeyMissing _ | collision _ _ | tableNotConfigured _ => .policyBinding

def PolicyFault.message : PolicyFault → String
  | filterNotLambda table kind =>
    String.join ["Row filter for ", table, ".", kind, " must be an arrow function"]
  | contextWithoutFilters =>
    "withContext() requires row filters. Call withRowFilters() first."
  | contextNotObject => "Row filter context must be an object"
  | contextUnbound => "Row filters require context binding. Call schema.withContext(context)."
  | contextAccess => "Row filter context parameters must use direct property access (ctx.key)."
  | filterParameters => "Row filter accepts at most three parameters (row, ctx, helpers)"
  | contextKeyMissing key =>
    String.join ["Row filter context is missing required key \"", key, "\"."]
  | collision params key =>
    String.join [params.label, " collided with existing parameter \"", key, "\"."]
  | tableNotConfigured table =>
    String.join ["Row filter schema is missing configuration for table \"", table, "\"."]
  | notSubstitutable column =>
    String.join ["Row filter column \"",
      column, "\" cannot be substituted with a non-value assignment."]

/-- Any of the faults. -/
inductive Fault where
  | load (fault : LoadFault)
  | expr (fault : ExprFault)
  | chain (fault : ChainFault)
  | sql (fault : SqlFault)
  | plan (fault : PlanFault)
  | policy (fault : PolicyFault)
deriving DecidableEq, Repr

namespace Fault

instance : Coe LoadFault Fault := ⟨load⟩
instance : Coe ExprFault Fault := ⟨expr⟩
instance : Coe ChainFault Fault := ⟨chain⟩
instance : Coe SqlFault Fault := ⟨sql⟩
instance : Coe PlanFault Fault := ⟨plan⟩
instance : Coe PolicyFault Fault := ⟨policy⟩

/-- How a fault is classified. -/
def kind : Fault → ErrorKind
  | load _ | expr _ | chain _ => .parseStructure
  | sql f => f.kind
  | plan f => f.kind
  | policy f => f.kind

/-- The text that reports a fault. -/
def message : Fault → String
  | load f => f.message
  | expr f => f.message
  | chain f => f.message
  | sql f => f.message
  | plan f => f.message
  | policy f => f.message

end Fault

end FluentQuery
