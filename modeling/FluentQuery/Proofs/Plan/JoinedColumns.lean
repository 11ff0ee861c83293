import FluentQuery.Proofs.Plan.Incremental
import FluentQuery.Proofs.Resolve.RowStates
import FluentQuery.Proofs.Sql.TableNumbers

/-!
# Columns of joined rows

A result selector makes an object of the rows that a join puts together, and a later lambda of the chain
reads its members.  `RowState.afterCalls` says what that object is, in the source language; the main
statement, `Node.joined_columns_are_qualified`, that a path which leads to a column of a table is
written as that column, under the alias of the table.
-/

namespace FluentQuery

set_option autoImplicit false

/-! ### Chains of calls -/

namespace RowState

/-- The rows after a call by name. -/
def afterCall (state : RowState) (c : MethodCall) : RowState :=
  (Method.ofName? c.name).elim state (state.after · c.arguments)

/-- The rows after calls on a table, the last call first, given the query that they make. -/
def afterCalls : List MethodCall → Operation → RowState
  | [], _ => start
  | c :: calls, op => ((afterCalls calls op.tail).afterCall c).settled op

end RowState

namespace Operation

/-- A query that reads rows. -/
def IsSelect (op : Operation) : Prop :=
  ∃ step earlier, op = step :: earlier ∧ step.isCrud = false

theorem IsSelect.ne_nil {op : Operation} (h : op.IsSelect) : op ≠ [] := by
  obtain ⟨step, earlier, rfl, -⟩ := h
  exact List.cons_ne_nil _ _

end Operation

namespace Resolve

variable {s : Scope}

/-- A query that reads rows, with a scope that sees the rows of a table. -/
def starts (op : Operation) (s : Scope) : Prop :=
  op.IsSelect ∧ s.Carries .start

theorem starts_startStatement (idle : s.bindings.Idle) (statement table : String) {step : Step}
    (reads : step.isCrud = false) :
    Leads s starts (startStatement statement table >>= fun _ => pure [step]) :=
  have rows : Scope.Carries .start { s with
      operation := statement, table
      bindings := { s.bindings with shape := none, joinResult := "" }
      groupByKey := .absent
      tableCount := 1 } :=
    ⟨rfl, by decide, idle, fun _ => rfl, .inl rfl⟩
  ⟨⟨step, [], rfl, reads⟩, rows⟩

/-- A chain that starts at a table sees the rows of the table. -/
theorem leads_from (arguments : List Node) {subquery : Resolve Operation}
    (embeds : arguments ≠ [] → Embeds subquery) (idle : s.bindings.Idle) :
    Leads s starts (root .from arguments subquery) := by
  have rest (isSubquery : Bool) (holds : isSubquery = true → arguments ≠ []) {s : Scope}
      (idle : s.bindings.Idle) : Leads s starts
      (if isSubquery then do
        let op ← subquery
        startStatement "select" ""
        return [.fromSource "" "" op ""]
      else do
        let name ← tableArguments RootMethod.from.name arguments
        startStatement RootMethod.from.statement name.2
        return [RootMethod.from.step name.1 name.2]) := by
    split
    · rename_i is
      refine .bind (embeds (holds is) s idle) ?_
      rintro op s' ⟨-, -, same⟩
      exact starts_startStatement (same.bindings ▸ idle) _ _ rfl
    · refine .bind (leads_tableArguments _ _) ?_
      rintro name _ rfl
      exact starts_startStatement idle _ _ rfl
  refine .modify (.modify (rest _ ?_ idle))
  rintro is rfl
  cases is

/-- A call on a query that reads rows adds a step to it. -/
theorem exists_step {source op : Operation} (isOpen : source.IsOpen) {method : Method}
    {arguments : List Node} {inner collection : Resolve Operation} {s' : Scope}
    (run : apply method source arguments inner collection s = .ok op s') :
    ∃ step, op = step :: source ∧ step.isCrud = false := by
  have added : Extends (· = source) fun source => apply method source arguments inner collection :=
    extends_apply arguments method inner collection source.isSorted fun _ same _ => by rw [same]
  obtain ⟨work, yields, same⟩ := added
  have onSource : apply method source arguments inner collection = (· :: source) <$> work :=
    same source isOpen rfl
  rw [onSource, map_eq_ok] at run
  obtain ⟨step, found, rfl⟩ := run
  exact ⟨step, rfl, (yields s step s' found).2⟩

/-- One call. -/
theorem carries_call {source op : Operation} {s' : Scope} {state : RowState} (c : MethodCall)
    (select : source.IsSelect) (carried : s.Carries state) (run : c.resolve source s = .ok op s') :
    op.IsSelect ∧ op.tail = source ∧ carries (state.afterCall c) op s' := by
  obtain ⟨_, _, ⟨⟩, run⟩ := bind_eq_ok.1 run
  unfold RowState.afterCall
  cases found : Method.ofName? c.name with
  | none =>
    rw [found] at run
    cases run
  | some method =>
    rw [found] at run
    rcases yields_apply c.arguments method _ _ select.ne_nil _ op s' run with
      isOpen | ⟨step, step', rest, rfl, -, isCrud, -⟩
    · obtain ⟨step, rfl, notCrud⟩ := exists_step isOpen run
      refine ⟨⟨step, source, rfl, notCrud⟩, rfl, ?_⟩
      have called : Scope.Carries state { s with method := c.name } :=
        carried.alike ⟨rfl, rfl, rfl⟩
      have led := leads_carries called isOpen method c.arguments
        (Node.embeds_firstQuery c.arguments .step) (Node.embeds_firstQuery c.arguments .argument)
      exact Ensures.of_ok led run
    · obtain ⟨_, _, same, notCrud⟩ := select
      cases same
      cases isCrud.symm.trans notCrud

end Resolve

/-- A root method that is called on a name starts a chain. -/
theorem ChainCall.onName_root {c : ChainCall} {name : String} {op : Operation} {s t : Scope}
    (run : c.onName name [] s = .ok op t) {method : RootMethod}
    (named : RootMethod.ofName? c.method = some method) :
    Resolve.root method c.arguments c.inner s = .ok op t := by
  unfold onName at run
  obtain ⟨_, _, ⟨⟩, run⟩ := bind_eq_ok.1 run
  rw [named] at run
  dsimp only at run
  split at run
  · cases run
  · split at run
    · exact run
    · cases run

namespace Node

/-- A call that starts a chain at a table: `builder.from(arguments)` or `from(arguments)`. -/
inductive IsFrom : Node → Prop where
  | method (builder : String) {property : Node} (named : property.keyName = "from") (computed : Bool)
      (arguments : List Node) :
      IsFrom (.call (.member (.identifier builder) property computed) arguments)
  | function (arguments : List Node) : IsFrom (.call (.identifier "from") arguments)

variable {root : Node} {s t : Scope} {op : Operation}

theorem IsFrom.isCall (h : root.IsFrom) : root.IsCall := by
  cases h <;> exact ⟨_, _, rfl⟩

/-- The call that starts a chain reads the rows of a table. -/
theorem IsFrom.starts_chain (h : root.IsFrom) (idle : s.bindings.Idle)
    (run : root.chain .step [] s = .ok op t) : Resolve.starts op t := by
  have started {arguments : List Node}
      (run : Resolve.root .from arguments (firstQuery .step arguments) s = .ok op t) :
      Resolve.starts op t :=
    Ensures.of_ok (Resolve.leads_from arguments (embeds_firstQuery arguments .step) idle) run
  cases h with
  | @method builder property named computed arguments =>
    obtain ⟨-, run⟩ := (ChainCall.resolve_step_eq_ok _).1 run
    have isRoot : RootMethod.ofName? property.keyName = some .from := by
      rw [named]
      rfl
    exact started (ChainCall.onName_root run isRoot)
  | function arguments => exact started run

/-- A chain of calls on a table: its scope carries along what its rows are. -/
theorem carries_withCalls (isFrom : root.IsFrom) (idle : s.bindings.Idle) (calls : List MethodCall)
    (run : (root.withCalls calls).chain .step [] s = .ok op t) :
    op.IsSelect ∧ t.Carries (.afterCalls calls.reverse op) := by
  induction calls using List.reverseRecOn generalizing op t with
  | nil => exact isFrom.starts_chain idle run
  | append_singleton calls c ih =>
    rw [withCalls_concat] at run
    obtain ⟨-, earlier, t', before, after⟩ :=
      (chain_withCall_eq_ok (isCall_withCalls isFrom.isCall calls) c).1 run
    obtain ⟨select, carried⟩ := ih before
    obtain ⟨select', rfl, carried'⟩ := Resolve.carries_call c select carried after
    rw [List.reverse_concat]
    exact ⟨select', carried'⟩

end Node

/-! ### Lambdas -/

/-- In the scope of a lambda's body, a parameter of the lambda stands for a value: for a row of the
query, or for one that a group or a window has. -/
inductive Scope.Sees (state : RowState) (s : Scope) : String → RowValue → Scope → Prop where
  /-- The lambda of a method such as `where` or `select`. -/
  | row {name : String} {more : List String} {t : Scope} (named : name ≠ "") (last : name ∉ more)
      (bound : Resolve.bindRowParams (name :: more) s = .ok () t) : Sees state s name state.param t
  /-- The outer key of a join. -/
  | outerKey {name : String} {more : List String} {t : Scope} (named : name ≠ "")
      (bound : Resolve.bindOuterParam (name :: more) s = .ok () t) : Sees state s name state.param t
  /-- The result selector of a join. -/
  | result {index : Int} {name : String} {more : List String} {t : Scope} (named : name ≠ "")
      (last : name ∉ more) (bound : Resolve.bindResultParams index (name :: more) s = .ok () t) :
      Sees state s name state.param t
  /-- What an aggregate takes of the rows of a group. -/
  | element {params : List String} {name : String} {more : List String} {t t' u : Scope}
      (named : name ≠ "") (group : Resolve.bindRowParams params s = .ok () t) (same : t.Alike t')
      (bound : Resolve.bindElement (name :: more) t' = .ok () u) : Sees state s name state.row u
  /-- A key of a window over a row. -/
  | window {row name : String} {more : List String} {value : RowValue} {t u : Scope}
      (named : name ≠ "") (sees : Sees state s row value t)
      (bound : Resolve.bindWindowRow row (name :: more) t = .ok () u) : Sees state s name value u
  /-- Further on in the body. -/
  | later {name : String} {value : RowValue} {t t' : Scope} (sees : Sees state s name value t)
      (same : t.Alike t') : Sees state s name value t'

section

variable {state : RowState} {s t : Scope} {name : String} {value : RowValue}

theorem RowValue.pair_first {outer inner : RowValue} {more : List String} (named : name ≠ "")
    (last : name ∉ more) (short : more.length ≤ 1) : pair outer inner (name :: more) name = outer := by
  unfold pair
  rw [if_neg named]
  match more with
  | [] => exact if_pos rfl
  | [second] =>
    have ne : name ≠ second := fun same => last (same ▸ List.mem_singleton_self _)
    dsimp only
    rw [if_neg ne, if_pos rfl]
  | _ :: _ :: _ => simp at short

/-- Binding the parameters of a row lambda leaves the shape of rows as it is. -/
theorem Resolve.shape_bindRowParams {params : List String} (run : bindRowParams params s = .ok () t) :
    t.bindings.shape = s.bindings.shape ∧ t.bindings.excluded = s.bindings.excluded := by
  have row {name : String} {t : Scope} (run : bindRow name s = .ok () t) :
      t.bindings.shape = s.bindings.shape ∧ t.bindings.excluded = s.bindings.excluded := by
    cases run
    dsimp only
    split
    · unfold Bindings.bindElement
      split
      · exact ⟨Eq.symm ‹_›, rfl⟩
      · exact ⟨rfl, rfl⟩
    · exact ⟨rfl, rfl⟩
  match params with
  | [] =>
    cases run
    exact ⟨rfl, rfl⟩
  | [first] => exact row run
  | [first, second] =>
    obtain ⟨_, t', bound, run⟩ := bind_eq_ok.1 run
    have kept := row bound
    cases run
    exact kept
  | _ :: _ :: _ :: _ => cases run

/-- The row of a window is the row that it is over. -/
theorem Resolve.stands_bindWindowRow {count : Int} {row : String} {more : List String}
    (stands : s.bindings.Stands count row value) (named : name ≠ "")
    (run : bindWindowRow row (name :: more) s = .ok () t) : t.bindings.Stands count name value := by
  obtain ⟨_, _, ⟨⟩, run⟩ := bind_eq_ok.1 run
  cases stands with
  | joined tableRow apart known =>
    rw [apart, tableRow.found] at run
    cases run
    exact Bindings.stands_bindJoin known _ tableRow.proposed name
  | group tableRow apart =>
    rw [apart, tableRow.found] at run
    cases run
    exact Bindings.stands_bindGroup _ _ tableRow.proposed name
  | shaped shapeRow apart unjoined shows =>
    rw [apart, unjoined] at run
    simp only [shapeRow.joinResult, shapeRow.shape] at run
    cases run
    exact .shaped (Bindings.shapeRow_bindShape shapeRow.proposed named _)
      (Bindings.contains_erase_self _ _) (Assoc.find?_erase_self _ _) shows
  | first tableRow found unjoined unshaped =>
    rw [found] at run
    cases run
    have inTables : (s.bindings.bindTable name).tables.contains name = true :=
      List.contains_iff_mem.2 ((NameSet.mem_insert _ _ _).2 (.inl rfl))
    exact .first
      ⟨tableRow.proposed, Bindings.contains_erase_self _ _, Bindings.contains_erase_self _ _⟩
      inTables (Assoc.find?_erase_self _ _) unshaped
  | unknown => exact .unknown

/-- What a lambda sees stands for what it is said to be. -/
theorem Scope.Sees.stands (sees : s.Sees state name value t) (h : s.Carries state) :
    t.bindings.Stands state.tables name value := by
  induction sees with
  | @row name more t named last bound =>
    have short : more.length ≤ 1 := by
      match more with
      | [] | [_] => simp
      | _ :: _ :: _ => cases bound
    have stands := Resolve.bindsPair_bindRowParams h _ _ bound name
    rwa [RowValue.pair_first named last short] at stands
  | @outerKey name more t named bound =>
    cases bound
    exact Scope.Carries.param
      (Bindings.stands_outer h.positive h.idle.2 h.described named)
  | @result index name more t named last bound =>
    have short : more.length ≤ 1 := by
      match more with
      | [] | [_] => simp
      | _ :: _ :: _ => cases bound
    have unknown (b : Bindings) (_ : b.excluded = "") (name : String) :
        (b.bindJoin name index).Stands state.tables name .other := .unknown
    have stands :=
      Resolve.bindsPair_bindResultParams h (Int.le_refl _) unknown _ _ bound name
    rwa [RowValue.pair_first named last short] at stands
  | element named group same bound =>
    cases bound
    obtain ⟨shape, proposed⟩ := Resolve.shape_bindRowParams group
    refine Bindings.stands_bindElement ?_ ?_ named
    · rw [same.bindings, proposed, h.idle.2]
    · rw [same.bindings, shape]
      exact h.described
  | window named _ bound ih => exact Resolve.stands_bindWindowRow ih named bound
  | later _ same ih => exact same.bindings ▸ ih

end

/-! ### Columns -/

/-- The columns of a table of a statement that joins are qualified by the alias of the table, also if
the first table is left out. -/
theorem SqlScope.Fits.qualifier_of_locates {scope : SqlScope} {op : Operation} (fits : scope.Fits op)
    (joins : op.joined ≠ []) {source : Option ColumnSource} {i : Int}
    (located : Expr.Locates source i) (has : op.HasTable i) :
    scope.qualifier "" source = .ok (some (Sql.tableAlias i.toNat)) := by
  have joined : op.joined.isEmpty = false := by simpa using joins
  rcases located with index | ⟨rfl, rfl⟩
  · rw [fits.qualifier "" index fun _ => has, Operation.alias?, joined]
    rfl
  · have first : scope.qualifier "" none = some <$> scope.aliasFor 0 := by
      unfold SqlScope.qualifier
      rw [fits.hasJoins, joined]
      rfl
    rw [first, fits.aliasFor joins has]
    rfl

/-- Later calls keep the tables of a query. -/
theorem Operation.hasTable_append {op later : Operation} (calls : ∀ step ∈ later, step.isFrom = false)
    {i : Int} (has : op.HasTable i) : HasTable (later ++ op) i := by
  induction later with
  | nil => exact has
  | cons step later ih =>
    have isFrom := calls step (List.mem_cons_self ..)
    exact (ih fun other mem => calls other (List.mem_cons_of_mem _ mem)).later isFrom

/-- A query is written in the scope in which its chain is resolved. -/
theorem Node.chain_of_written {builder : Node} {q : ParsedQuery} {op : Operation}
    (parsed : builder.parseQuery = .ok q) (written : builder.written? = some op) :
    ∃ start, start.bindings.Idle ∧ builder.chain .step [] start = .ok op q.scope := by
  unfold parseQuery at parsed
  obtain ⟨start, hstart, run⟩ := outcome_bind_eq_ok.1 parsed
  refine ⟨start, idle_rootScope hstart, ?_⟩
  split at run
  · rename_i op' scope hop
    cases run
    simp only [written?, hstart, hop, Option.some.injEq] at written
    exact written ▸ hop
  · cases run

/-- A path from the parameter of a lambda that leads to a column of a table is resolved to that column.
As a key of a join it is the column of that table, and it is written under the alias of the table, in
every statement of calls that go on from there and that joins all their tables.  Of the chain it is only
asked that it starts in a scope of a query, be it that of a builder or one that is nested in it. -/
theorem Node.joined_columns_are_qualified {root : Node} (isFrom : root.IsFrom) {start s : Scope}
    (idle : start.bindings.Idle) {calls : List MethodCall} {op : Operation}
    (run : (root.withCalls calls).chain .step [] start = .ok op s) (isOpen : op.IsOpen)
    {s' t : Scope} (same : s.Alike s') {row : String} {value : RowValue}
    (sees : s'.Sees (.afterCalls calls.reverse op) row value t) {node : Node} {path : List String}
    (onPath : node.memberPath [] none = .ok (.identifier row, path, none)) {table : Int}
    {column : String} (leads : value.follow path = .column table column) (isPredicate : Bool) :
    ∃ source, node.resolve isPredicate t = .ok (.column column "" source) t ∧ op.HasTable table ∧
      (∀ side, Resolve.keyColumn side (.column column "" source) t = .ok (column, table) t) ∧
      ∀ later, (∀ step ∈ later, step.isFrom = false) → Operation.JoinsAll (later ++ op) →
        (Operation.normalize (later ++ op)).joined ≠ [] → ∀ d params clauses scope,
        ((Operation.normalize (later ++ op)).selectChain d params).rejectUnlowered = .ok () →
        ((Operation.normalize (later ++ op)).selectChain d params).sources = .ok (clauses, scope) →
        (Expr.column column "" source).sql scope .value = .ok (Fragment.text
          (Sql.qualified (some (Sql.tableAlias table.toNat)) (quoteIdentifier column))) := by
  have carried := (carries_withCalls isFrom idle calls run).2
  have reached := Ensures.of_ok (leads_chain _ .step start idle) run
  obtain ⟨source, resolved, located, known⟩ := resolve_path carried.positive
    (sees.stands (carried.alike same)) onPath leads isPredicate
  have has : op.HasTable table := by
    have count := carried.count.symm.trans (reached.follows isOpen).count
    exact ⟨known.1, count ▸ known.2⟩
  have key (side : String) :
      Resolve.keyColumn side (.column column "" source) t = .ok (column, table) t := by
    rw [← located.getD]
    rfl
  refine ⟨source, resolved, has, key, ?_⟩
  intro later isCalls all joins d params clauses scope lowered found
  have isLowered (step : Step) (hstep : step ∈ Operation.level (later ++ op).normalize) :
      Sql.SelectChain.IsLowered step := by
    refine Sql.SelectChain.isLowered_of_rejectUnlowered lowered step ?_
    rw [Operation.steps_selectChain]
    exact List.mem_reverse.2 hstep
  have fits := Operation.fits_sources isLowered found
  have kept : Operation.HasTable (Operation.normalize (later ++ op)) table := by
    rw [Operation.HasTable, all.resolve_left joins, List.length_map]
    exact Operation.hasTable_append isCalls has
  exact SqlScope.column_eq (fits.qualifier_of_locates joins located kept) column

namespace Node

/-- `.join(q.from("orders"), (u) => u.id, (o) => o.userId, selector)` -/
def joinOrders (selector : Node) : MethodCall :=
  ⟨.identifier "join", false, [fromTable "orders", .arrow ["u"] (columnOf "u" "id"),
    .arrow ["o"] (columnOf "o" "userId"), selector]⟩

/-- `(q) => q.from("users")`, with calls -/
def onUsers (calls : List MethodCall) : Node :=
  .arrow ["q"] ((fromTable "users").withCalls calls)

/-- `(u, o) => ({ user: u, order: { total: o.total } })` -/
def userAndOrder : Node :=
  pair ["u", "o"] ("user", .identifier "u")
    ("order", .object [.named "total" (columnOf "o" "total") false])

/-- The total of an order is read from the joined table, although it is two members down. -/
theorem nested_column_is_qualified : ∃ q op t source clauses scope,
    (onUsers [joinOrders userAndOrder]).parseQuery = .ok q ∧
    (onUsers [joinOrders userAndOrder]).written? = some op ∧
    Resolve.bindRowParams ["r"] q.scope = .ok () t ∧
    ((columnOf "r" "order").dot "total").resolve false t = .ok (.column "total" "" source) t ∧
    (op.normalize.selectChain .postgres (.obj [])).sources = .ok (clauses, scope) ∧
    (Expr.column "total" "" source).sql scope .value = .ok (Fragment.text "\"t1\".\"total\"") := by
  have parses : (onUsers [joinOrders userAndOrder]).parseQuery.isOk = true := by decide +kernel
  have facts : (onUsers [joinOrders userAndOrder]).written?.any (fun op : Operation =>
      op.IsOpen ∧ Operation.selectsWindow op = false ∧ op.JoinsTogether ∧
      op.normalize.joined.isEmpty = false ∧
      (op.normalize.selectChain .postgres (.obj [])).rejectUnlowered = .ok () ∧
      (op.normalize.selectChain .postgres (.obj [])).sources.isOk = true) = true := by
    decide +kernel
  cases parsed : (onUsers [joinOrders userAndOrder]).parseQuery with
  | error e =>
    rw [parsed] at parses
    cases parses
  | ok q =>
  obtain ⟨op, written, -, reached⟩ := written_of_parseQuery parsed
  obtain ⟨start, idle, run⟩ := chain_of_written parsed written
  have isFrom : (fromTable "users").IsFrom := .method "q" rfl false _
  rw [written, Option.any_some, decide_eq_true_eq] at facts
  obtain ⟨isOpen, windowless, together, joins, lowered, sourced⟩ := facts
  have all : Operation.JoinsAll op :=
    (Operation.joinsTogether_iff reached.numbered).1 together op (.inl rfl)
  obtain ⟨t, bound⟩ : ∃ t, Resolve.bindRowParams ["r"] q.scope = .ok () t := ⟨_, rfl⟩
  have rows : RowState.afterCalls [joinOrders userAndOrder] op =
      RowState.start.afterCall (joinOrders userAndOrder) :=
    RowState.settled_of_windowless _ windowless
  have sees : q.scope.Sees (.afterCalls [joinOrders userAndOrder] op) "r" _ t :=
    .row (by decide) (by decide) bound
  have onPath : ((columnOf "r" "order").dot "total").memberPath [] none =
      .ok (.identifier "r", ["order", "total"], none) := rfl
  have leads : (RowState.afterCalls [joinOrders userAndOrder] op).param.follow ["order", "total"] =
      .column 1 "total" := rows ▸ rfl
  obtain ⟨source, resolved, -, -, renders⟩ :=
    joined_columns_are_qualified isFrom idle run isOpen (.refl _) sees onPath leads false
  cases found : (op.normalize.selectChain .postgres (.obj [])).sources with
  | error e =>
    rw [found] at sourced
    cases sourced
  | ok named =>
    have nonempty : op.normalize.joined ≠ [] := fun none => by simp [none] at joins
    exact ⟨q, op, t, source, named.1, named.2, rfl, written, bound, resolved, found,
      renders [] nofun all nonempty .postgres (.obj []) _ _ lowered found⟩

/-- `(u, o) => ({ ...o, name: u.name })` -/
def spreadOrder : Node :=
  .arrow ["u", "o"] (.object [.spread (.identifier "o"), .named "name" (columnOf "u" "name") false])

/-- `(u, o) => ({ total: u.id, total: o.total })` -/
def totalTwice : Node :=
  pair ["u", "o"] ("total", columnOf "u" "id") ("total", columnOf "o" "total")

/-- `.select((r) => ({ total: r.total }))` -/
def selectTotal : MethodCall :=
  ⟨.identifier "select", false, [.arrow ["r"] (.object [.named "total" (columnOf "r" "total") false])]⟩

/-- The SQL of the orders of users, if the total is read from the given column. -/
def totalSql (column : String) : String :=
  "SELECT " ++ column ++ " AS \"total\" FROM \"users\" AS \"t0\" " ++
    "INNER JOIN \"orders\" AS \"t1\" ON \"t0\".\"id\" = \"t1\".\"userId\""

/-- A column of a joined row that is spread is read from the first table, and of a name that is written
twice the first counts, although both times `r.total` is a column of the joined table. -/
theorem spread_and_repeated_columns_misread :
    ((onUsers [joinOrders spreadOrder, selectTotal]).parseQuery >>= fun q =>
        (·.render .postgres) <$> q.operation.sql .postgres (.obj [])) =
          .ok (totalSql "\"t0\".\"total\"") ∧
      ((onUsers [joinOrders totalTwice, selectTotal]).parseQuery >>= fun q =>
        (·.render .postgres) <$> q.operation.sql .postgres (.obj [])) =
          .ok (totalSql "\"t0\".\"id\"") := by
  constructor <;> decide +kernel

end Node

end FluentQuery
