import FluentQuery.Operation.Basic

/-!
# Stages of statements that change rows

A stage says how far such a statement has been built, and so which methods come next.
-/

namespace FluentQuery

set_option autoImplicit false

inductive InsertStage where
  | initial | withValues | withConflictTarget | withReturning
deriving DecidableEq, Repr

inductive UpdateStage where
  | initial | withSet | complete | withReturning
deriving DecidableEq, Repr

inductive DeleteStage where
  | initial | complete
deriving DecidableEq, Repr

namespace InsertStage

def name : InsertStage → String
  | initial => "Initial"
  | withValues => "WithValues"
  | withConflictTarget => "WithConflictTarget"
  | withReturning => "WithReturning"

/-- The stage with the given name. -/
def ofName? (name : String) : Option InsertStage :=
  [initial, withValues, withConflictTarget, withReturning].find? (·.name == name)

end InsertStage

namespace UpdateStage

def name : UpdateStage → String
  | initial => "Initial"
  | withSet => "WithSet"
  | complete => "Complete"
  | withReturning => "WithReturning"

/-- The stage with the given name. -/
def ofName? (name : String) : Option UpdateStage :=
  [initial, withSet, complete, withReturning].find? (·.name == name)

end UpdateStage

namespace DeleteStage

def name : DeleteStage → String
  | initial => "Initial"
  | complete => "Complete"

/-- The stage with the given name. -/
def ofName? (name : String) : Option DeleteStage :=
  [initial, complete].find? (·.name == name)

end DeleteStage

/-- Whether there is at least one assignment. -/
def hasAssignments (assignments : Option Assignments) : Bool :=
  match assignments with
  | some (_ :: _) => true
  | _ => false

/-- The stage of an INSERT. -/
def InsertStatement.stage (s : InsertStatement) : InsertStage :=
  if !s.returning.isAbsent then .withReturning
  else
    match s.onConflict with
    | some ⟨_, .none, _⟩ => .withConflictTarget
    | _ => if hasAssignments s.values then .withValues else .initial

/-- The stage of an UPDATE. -/
def UpdateStatement.stage (s : UpdateStatement) : UpdateStage :=
  if !s.returning.isAbsent then .withReturning
  else if !s.predicate.isAbsent || s.allowFullTable then .complete
  else if hasAssignments s.assignments then .withSet
  else .initial

/-- The stage of a DELETE. -/
def DeleteStatement.stage (s : DeleteStatement) : DeleteStage :=
  if !s.predicate.isAbsent || s.allowFullTable then .complete else .initial

/-- The name of the stage of an operation that changes rows. -/
def Operation.stageName? : Operation → Option String
  | .insert s :: _ => some s.stage.name
  | .update s :: _ => some s.stage.name
  | .delete s :: _ => some s.stage.name
  | _ => none

end FluentQuery
