import FluentQuery.Ast.Builder
import FluentQuery.Ast.Loader
import FluentQuery.Compiler
import FluentQuery.Config
import FluentQuery.Json.Reader
import FluentQuery.Proofs.Cache.Transparency
import FluentQuery.Proofs.Plan.Conditions
import FluentQuery.Proofs.Plan.Incremental
import FluentQuery.Proofs.Policy.Coverage
import FluentQuery.Proofs.Policy.Hygiene
import FluentQuery.Proofs.Policy.PermittedUpdate
import FluentQuery.Proofs.Resolve.LambdaPlaces
import FluentQuery.Proofs.Resolve.LiteralChains
import FluentQuery.Proofs.Sql.ArrayParams
import FluentQuery.Proofs.Sql.ClauseOrder
import FluentQuery.Proofs.Sql.Determination
import FluentQuery.Proofs.Sql.ParamValues
import FluentQuery.Proofs.Sql.TableNumbers
import FluentQuery.Proofs.Resolve.FreeNames
import FluentQuery.Proofs.Resolve.QueryParams
import FluentQuery.Proofs.Plan.PlanParams
import FluentQuery.Proofs.Sql.Placeholders
import FluentQuery.Proofs.Plan.ClosedPlans
import FluentQuery.Proofs.Operation.JoinedRows
import FluentQuery.Proofs.Resolve.RowBodies
import FluentQuery.Proofs.Resolve.RowStates
import FluentQuery.Proofs.Plan.JoinedColumns
import FluentQuery.Proofs.Ast.RoundTrip
import FluentQuery.Proofs.Policy.MemoTransparency
import FluentQuery.Proofs.Sql.Dialects
import FluentQuery.Proofs.Resolve.Restoration
import FluentQuery.Proofs.Plan.ResultKinds
import FluentQuery.Proofs.Resolve.LexicalRows
import FluentQuery.Proofs.Plan.Completeness
import FluentQuery.Proofs.Sql.Reversal
import FluentQuery.Proofs.Sql.TruthQueries
import FluentQuery.Proofs.Sql.WindowPredicates
import FluentQuery.Proofs.Sql.WhereClauses
import FluentQuery.Proofs.Plan.RepeatedCalls
import FluentQuery.Proofs.Plan.SelectorlessAggregates
import FluentQuery.Proofs.Sql.Accesses
import FluentQuery.Proofs.Sql.ColumnLists
import FluentQuery.Proofs.Plan.PagingCounts
import FluentQuery.Proofs.Resolve.Choices
import FluentQuery.Proofs.Expr.Substitution
import FluentQuery.Proofs.Sql.Description
import FluentQuery.Proofs.Sql.Enclosure
import FluentQuery.Proofs.Plan.WholeRows
import FluentQuery.Proofs.Sql.Quoting
import FluentQuery.Proofs.Sql.IntegerLiterals
