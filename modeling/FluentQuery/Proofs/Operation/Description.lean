import FluentQuery.Operation.Json
import FluentQuery.Proofs.Expr.Description
import FluentQuery.Proofs.Operation.Normalization

/-!
# What the description of an operation says

The description of an operation leaves out the table a group join takes its outer key from, and the
assignments of a conflict clause that does not update.  `Operation.shown` is the operation without
these and without the shapes of its results.  It can be told from the description: operations with
one description are the same as far as they are shown (`Operation.shown_eq_of_toJson_eq`).
-/

namespace FluentQuery

set_option autoImplicit false

/-- A conflict clause without the assignments of an update that does not take place. -/
def OnConflict.shown (conflict : OnConflict) : OnConflict :=
  match conflict.action with
  | .update => conflict
  | _ => { conflict with assignments := none }

namespace Step

/-- A step without what its description does not say about it, and without the shape of its
result. -/
def shown : Step → Step
  | join kind inner keys selector _ => join kind inner keys selector none
  | groupJoin inner keys selector _ outerName groupName =>
    groupJoin inner { keys with outerSource := none } selector none outerName groupName
  | selectMany collection path selector _ usesDefault =>
    selectMany collection path selector none usesDefault
  | insert s => insert { s with onConflict := s.onConflict.map OnConflict.shown }
  | step => step

end Step

namespace Operation

/-- An operation without what its description does not say about it. -/
def shown : Operation → Operation
  | [] => []
  | step :: earlier => step.shown.withNested (shown step.nested) :: shown earlier
termination_by op => sizeOf op
decreasing_by
  · have := step.sizeOf_nested_le
    simp only [List.cons.sizeOf_spec]
    omega
  · simp only [List.cons.sizeOf_spec]
    omega

@[simp] theorem shown_nil : shown [] = [] := by
  rw [shown]

theorem shown_cons (step : Step) (earlier : Operation) :
    shown (step :: earlier) = step.shown.withNested (shown step.nested) :: shown earlier := by
  rw [shown]

/-- Induction on an operation: what holds of the operation nested in a step and of the calls before
it holds with the step. -/
theorem nested_induction {motive : Operation → Prop} (nil : motive [])
    (cons : ∀ step earlier, motive step.nested → motive earlier → motive (step :: earlier)) :
    ∀ op, motive op
  | [] => nil
  | step :: earlier =>
    cons step earlier (nested_induction nil cons step.nested) (nested_induction nil cons earlier)
termination_by op => sizeOf op
decreasing_by
  · have := step.sizeOf_nested_le
    simp only [List.cons.sizeOf_spec]
    omega
  · simp only [List.cons.sizeOf_spec]
    omega

end Operation

namespace Expr

/-- The expression with the given description. -/
noncomputable def described (j : Json) : Expr :=
  Function.invFun toJson j

/-- An expression is read off its description. -/
@[simp] theorem described_toJson (e : Expr) : described e.toJson = e :=
  Function.leftInverse_invFun toJson_injective e

end Expr

namespace Step

open Json

/-- The assignments that are described; null describes none. -/
noncomputable def assignmentsAt (j : Json) : Option Assignments :=
  match Expr.described j with
  | .object properties => some properties
  | _ => none

/-- The conflict clause that is described. -/
noncomputable def conflictAt (j : Json) : OnConflict :=
  let action : Json := partOf (j.get? "action")
  { target := (itemsOf (j.get? "target")).map fun column => textOf (some column)
    action :=
      match textOf (action.get? "type") with
      | "nothing" => .nothing
      | "update" => .update
      | _ => .none
    assignments := assignmentsAt (partOf (action.get? "assignments")) }

/-- The step that is described, with the given operation nested in it. -/
noncomputable def describedBy (j : Json) (nested : Operation) : Step :=
  let text (key : String) : String := textOf (j.get? key)
  let flag (key : String) : Bool := flagOf (j.get? key)
  let expr (key : String) : Expr := Expr.described (partOf (j.get? key))
  let assignments (key : String) : Option Assignments := assignmentsAt (partOf (j.get? key))
  let keys (source : Option Int) : JoinKeys := ⟨text "outerKey", source, text "innerKey"⟩
  match text "operationType" with
  | "from" => fromSource (text "table") (text "schema") nested (text "aliasHint")
  | "where" => filter (expr "predicate")
  | "select" => select (expr "selector")
  | "join" =>
    join ((namedIn JoinKind.all JoinKind.name (text "joinType")).getD .inner) nested
      (keys (wholeOf (j.get? "outerKeySource"))) (expr "resultSelector") none
  | "groupJoin" =>
    groupJoin nested (keys none) (expr "resultSelector") none (text "outerBindingName")
      (text "groupBindingName")
  | "selectMany" =>
    selectMany nested (text "collectionPropertyPath") (expr "resultSelector") none
      (flag "usesDefaultIfEmpty")
  | "groupBy" => groupBy (expr "keySelector")
  | "orderBy" => sort .orderBy (expr "keySelector") (flag "descending")
  | "thenBy" => sort .thenBy (expr "keySelector") (flag "descending")
  | "distinct" => distinct
  | "reverse" => reverse
  | "take" => page .take (expr "count")
  | "skip" => page .skip (expr "count")
  | "first" => terminal .first (expr "predicate")
  | "firstOrDefault" => terminal .firstOrDefault (expr "predicate")
  | "single" => terminal .single (expr "predicate")
  | "singleOrDefault" => terminal .singleOrDefault (expr "predicate")
  | "last" => terminal .last (expr "predicate")
  | "lastOrDefault" => terminal .lastOrDefault (expr "predicate")
  | "any" => terminal .any (expr "predicate")
  | "all" => terminal .all (expr "predicate")
  | "count" => terminal .count (expr "predicate")
  | "longCount" => terminal .longCount (expr "predicate")
  | "contains" => contains (expr "value")
  | "sum" => aggregate .sum (expr "selectorExpression")
  | "average" => aggregate .average (expr "selectorExpression")
  | "min" => aggregate .min (expr "selectorExpression")
  | "max" => aggregate .max (expr "selectorExpression")
  | "insert" =>
    insert
      { table := text "table"
        schema := text "schema"
        values := assignments "values"
        returning := expr "returning"
        onConflict := (j.get? "onConflict").map conflictAt }
  | "update" =>
    update
      { table := text "table"
        schema := text "schema"
        assignments := assignments "assignments"
        predicate := expr "predicate"
        allowFullTable := flag "allowFullTableUpdate"
        returning := expr "returning" }
  | "delete" =>
    delete
      { table := text "table"
        schema := text "schema"
        predicate := expr "predicate"
        allowFullTable := flag "allowFullTableDelete" }
  | _ => defaultIfEmpty

@[simp] theorem assignmentsAt_assignmentsJson (assignments : Option Assignments) :
    assignmentsAt (assignmentsJson assignments) = assignments := by
  cases assignments with
  | none =>
    have empty : Expr.described .null = .absent := Expr.described_toJson .absent
    rw [assignmentsJson, assignmentsAt, empty]
  | some properties => rw [assignmentsJson, assignmentsAt, Expr.described_toJson]

/-- Of a conflict clause its target and action are described, and assignments that are made. -/
theorem conflictAt_toJson (conflict : OnConflict) :
    conflictAt conflict.toJson = conflict.shown := by
  obtain ⟨target, action, assignments⟩ := conflict
  have missing (key : String) : Json.null.get? key = none := rfl
  have nameless : textOf none = "" := rfl
  have nothing : assignmentsAt .null = none := assignmentsAt_assignmentsJson none
  cases action <;>
    simp [conflictAt, OnConflict.toJson, OnConflict.shown, strings, partOf, missing, nameless,
      nothing, Function.comp_def]

@[simp] theorem conflictAt_comp_toJson : conflictAt ∘ OnConflict.toJson = OnConflict.shown :=
  funext conflictAt_toJson

/-- A step can be told from its description, with whatever else the description says about the calls
before it. -/
theorem describedBy_toJson (step : Step) (earlier : Operation) (nested : Operation) :
    describedBy (Operation.toJson (step :: earlier)) nested = step.shown.withNested nested := by
  rw [Operation.toJson]
  generalize Operation.toJson earlier = before, Operation.nestedJson step = within
  cases step with
  | join kind inner keys selector shape =>
    have named : namedIn JoinKind.all JoinKind.name kind.name = some kind := by
      cases kind <;> rfl
    simp [describedBy, typeName, members, exprMember, named, shown, withNested]
  | sort kind =>
    cases kind <;>
      simp [describedBy, typeName, SortKind.name, members, shown, withNested]
  | page kind =>
    cases kind <;>
      simp [describedBy, typeName, PageKind.name, members, shown, withNested]
  | terminal kind =>
    cases kind <;>
      simp [describedBy, typeName, TerminalKind.name, members, exprMember, shown, withNested]
  | aggregate kind =>
    cases kind <;>
      simp [describedBy, typeName, AggregateKind.name, members, exprMember, shown, withNested]
  | _ => simp [describedBy, typeName, members, exprMember, shown, withNested]

end Step

namespace Operation

open Json

/-- The description of what is nested in a step, read off the description of the step. -/
def nestedAt (j : Json) : Json :=
  match nestedKey? (textOf (j.get? "operationType")) with
  | some key => partOf (j.get? key)
  | none => .null

/-- A query that is missing is not described at all. -/
theorem partOf_unlessEmpty (op : Operation) :
    partOf (if op = [] then none else some (toJson op)) = toJson op := by
  cases op with
  | nil => rfl
  | cons step earlier => rfl

/-- The description of a step holds that of the steps before it. -/
theorem partOf_source (step : Step) (earlier : Operation) :
    partOf ((toJson (step :: earlier)).get? "source") = toJson earlier := by
  rw [toJson]
  cases step <;> simp [Step.members, exprMember, partOf_unlessEmpty]

/-- The description of a step holds that of the query in it. -/
theorem nestedAt_toJson (step : Step) (earlier : Operation) :
    nestedAt (toJson (step :: earlier)) = toJson step.nested := by
  have type : textOf ((toJson (step :: earlier)).get? "operationType") = step.typeName := by
    rw [toJson]
    cases step <;> simp [Step.members, exprMember]
  rw [nestedAt, type]
  cases step with
  | fromSource | join | groupJoin | selectMany =>
    rw [toJson]
    simp [nestedKey?, Step.typeName, Step.members, exprMember, nestedJson, Step.nested,
      partOf_unlessEmpty]
  | sort kind | page kind | terminal kind | aggregate kind => cases kind <;> rfl
  | _ => rfl

/-- Operations with one description are the same as far as they are shown. -/
theorem shown_eq_of_toJson_eq (op op' : Operation) (same : toJson op = toJson op') :
    shown op = shown op' := by
  induction op using nested_induction generalizing op' with
  | nil =>
    cases op' with
    | nil => rfl
    | cons step' earlier' => cases same
  | cons step earlier ihNested ih =>
    cases op' with
    | nil => cases same
    | cons step' earlier' =>
      have before : shown earlier = shown earlier' := by
        apply ih
        rw [← partOf_source step, same, partOf_source]
      have within : shown step.nested = shown step'.nested := by
        apply ihNested
        rw [← nestedAt_toJson step earlier, same, nestedAt_toJson]
      have last : step.shown.withNested (shown step.nested) =
          step'.shown.withNested (shown step'.nested) := by
        rw [← Step.describedBy_toJson step earlier, same, Step.describedBy_toJson, within]
      rw [shown_cons, shown_cons, last, before]

end Operation

end FluentQuery
