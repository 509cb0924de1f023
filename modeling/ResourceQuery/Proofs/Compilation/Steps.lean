import ResourceQuery.Compilation
import ResourceQuery.Proofs.Fallible
import ResourceQuery.Proofs.Node.Leaves

/-!
# What a step of the compilation can do

A compilation takes the parts of a query one after the other. `Added draft part next` lists the
ways in which a draft can take a part, with all that is checked on the way and all that changes;
`add_eq_ok` says that there are no others. What a whole compilation keeps follows from what each of
these ways keeps.
-/

namespace ResourceQuery
set_option autoImplicit false

/-- A directive or an aggregate function: it shapes the result and is no condition. -/
def Node.shapesResult : Node → Bool
  | .apply op _ => op.role == .directive || op.role == .aggregate
  | _ => false

namespace Compilation
open Fallible

/-- How a draft takes one part of a query. -/
inductive Added (draft : Draft) : Node → Draft → Prop
  | sort {args : List Node} {sort : Fields Int}
      (fresh : draft.query.sort = []) (nonempty : args ≠ [])
      (keys : args.foldlM addSortKey [] = .ok sort) :
      Added draft (.apply .sort args) { draft with query := { draft.query with sort } }
  | projection {op : Operator} {args : List Node} {fields : List String}
      (named : op = .select ∨ op = .values)
      (fresh : draft.query.projection = none) (ungrouped : draft.query.aggregation = none)
      (nonempty : args ≠ []) (paths : args.mapM (fieldArgument op) = .ok fields) :
      Added draft (.apply op args) { draft with
        query := { draft.query with projection := some ⟨fields, op == .values⟩ } }
  | limit {count : Node} {limit : Nat} (fresh : draft.query.limit = none)
      (read : countArgument .limit count = .ok limit) :
      Added draft (.apply .limit [count])
        { draft with query := { draft.query with limit := some limit } }
  | limitAndSkip {count start : Node} {limit skip : Nat} (fresh : draft.query.limit = none)
      (read : countArgument .limit count = .ok limit)
      (readStart : countArgument .limit start = .ok skip) :
      Added draft (.apply .limit [count, start])
        { draft with query := { draft.query with limit := some limit, skip := some skip } }
  | distinct (fresh : draft.query.distinct = false) :
      Added draft (.apply .distinct [])
        { draft with query := { draft.query with distinct := true } }
  | aggregate {args : List Node} {aggregation : Aggregation}
      (fresh : draft.query.aggregation = none) (unprojected : draft.query.projection = none)
      (nonempty : args ≠ [])
      (read : args.foldlM addAggregateArgument .empty = .ok aggregation) :
      Added draft (.apply .aggregate args) { draft with
        query := { draft.query with aggregation := some aggregation }, aggregated := true }
  | function {op : Operator} {args : List Node} {aggregation : Aggregation}
      (role : op.role = .aggregate)
      (alone : draft.aggregated = false) (unprojected : draft.query.projection = none)
      (read : accumulate (draft.query.aggregation.getD .empty) op args = .ok aggregation) :
      Added draft (.apply op args)
        { draft with query := { draft.query with aggregation := some aggregation } }
  | predicate {node : Node} {filter : Document} (condition : node.shapesResult = false)
      (compiled : predicate node = .ok filter) :
      Added draft node { draft with predicates := draft.predicates ++ [filter] }

namespace Draft

variable {draft next : Draft} {op : Operator} {args : List Node}

/-! ## Handlers -/

theorem addSort_eq_ok :
    draft.addSort args = .ok next ↔ draft.query.sort = [] ∧ args ≠ [] ∧
      ∃ sort, args.foldlM addSortKey [] = .ok sort ∧
        next = { draft with query := { draft.query with sort } } := by
  simp only [addSort, guard_eq_ok, bind_eq_ok, pure_eq_ok]
  simp [@eq_comm _ next]

theorem addProjection_eq_ok :
    draft.addProjection op args = .ok next ↔
      draft.query.projection = none ∧ draft.query.aggregation = none ∧ args ≠ [] ∧
      ∃ fields, args.mapM (fieldArgument op) = .ok fields ∧
        next = { draft with
          query := { draft.query with projection := some ⟨fields, op == .values⟩ } } := by
  simp only [addProjection, guard_eq_ok, bind_eq_ok, pure_eq_ok]
  simp [@eq_comm _ next]

theorem addLimit_eq_ok :
    draft.addLimit args = .ok next ↔ draft.query.limit = none ∧
      ((∃ count limit, args = [count] ∧ countArgument .limit count = .ok limit ∧
          next = { draft with query := { draft.query with limit := some limit } }) ∨
        ∃ count start limit skip, args = [count, start] ∧
          countArgument .limit count = .ok limit ∧ countArgument .limit start = .ok skip ∧
          next = { draft with
            query := { draft.query with limit := some limit, skip := some skip } }) := by
  simp only [addLimit, guard_eq_ok]
  obtain _ | ⟨count, _ | ⟨start, _ | ⟨third, others⟩⟩⟩ := args <;>
    simp [bind_eq_ok, @eq_comm _ next]

theorem addDistinct_eq_ok :
    draft.addDistinct args = .ok next ↔ draft.query.distinct = false ∧ args = [] ∧
      next = { draft with query := { draft.query with distinct := true } } := by
  simp only [addDistinct, guard_eq_ok, pure_eq_ok]
  simp [@eq_comm _ next]

theorem addAggregate_eq_ok :
    draft.addAggregate args = .ok next ↔
      draft.query.aggregation = none ∧ draft.query.projection = none ∧ args ≠ [] ∧
      ∃ aggregation, args.foldlM addAggregateArgument .empty = .ok aggregation ∧
        next = { draft with
          query := { draft.query with aggregation := some aggregation }, aggregated := true } := by
  simp only [addAggregate, guard_eq_ok, bind_eq_ok, pure_eq_ok]
  simp [@eq_comm _ next]

theorem addFunction_eq_ok :
    draft.addFunction op args = .ok next ↔
      draft.aggregated = false ∧ draft.query.projection = none ∧
      ∃ aggregation,
        accumulate (draft.query.aggregation.getD .empty) op args = .ok aggregation ∧
        next = { draft with query := { draft.query with aggregation := some aggregation } } := by
  simp only [addFunction, guard_eq_ok, bind_eq_ok, pure_eq_ok]
  simp [@eq_comm _ next]

theorem addPredicate_eq_ok {node : Node} :
    draft.addPredicate node = .ok next ↔ ∃ filter, predicate node = .ok filter ∧
      next = { draft with predicates := draft.predicates ++ [filter] } := by
  simp only [addPredicate, bind_eq_ok, pure_eq_ok]
  simp [@eq_comm _ next]

/-! ## Dispatch -/

/-- A part that does not shape the result is taken for a predicate. -/
theorem add_condition {node : Node} (condition : node.shapesResult = false) :
    draft.add node = draft.addPredicate node := by
  obtain ⟨op, args⟩ | _ | _ | _ | _ := node
  · cases op <;> simp_all [Node.shapesResult, Operator.role, add]
  all_goals rfl

/-- An aggregate function that stands by itself is taken as one. -/
theorem add_function (role : op.role = .aggregate) :
    draft.add (.apply op args) = draft.addFunction op args := by
  cases op <;> simp_all [Operator.role, add]

/-- A draft takes a part in one of the ways listed, and in no other. -/
theorem add_eq_ok {node : Node} : draft.add node = .ok next ↔ Added draft node next := by
  constructor
  · intro taken
    by_cases condition : node.shapesResult = false
    · rw [add_condition condition] at taken
      obtain ⟨filter, compiled, rfl⟩ := addPredicate_eq_ok.1 taken
      exact .predicate condition compiled
    obtain ⟨op, args⟩ | _ | _ | _ | _ := node <;> simp [Node.shapesResult] at condition
    by_cases role : op.role = .aggregate
    · rw [add_function role] at taken
      obtain ⟨alone, unprojected, aggregation, read, rfl⟩ := addFunction_eq_ok.1 taken
      exact .function role alone unprojected read
    cases op <;> simp [Operator.role] at condition role
    case sort =>
      obtain ⟨fresh, nonempty, sort, keys, rfl⟩ := addSort_eq_ok.1 taken
      exact .sort fresh nonempty keys
    case select =>
      obtain ⟨fresh, ungrouped, nonempty, fields, paths, rfl⟩ := addProjection_eq_ok.1 taken
      exact .projection (.inl rfl) fresh ungrouped nonempty paths
    case values =>
      obtain ⟨fresh, ungrouped, nonempty, fields, paths, rfl⟩ := addProjection_eq_ok.1 taken
      exact .projection (.inr rfl) fresh ungrouped nonempty paths
    case limit =>
      obtain ⟨fresh, ⟨count, limit, rfl, read, rfl⟩ |
        ⟨count, start, limit, skip, rfl, read, readStart, rfl⟩⟩ := addLimit_eq_ok.1 taken
      · exact .limit fresh read
      · exact .limitAndSkip fresh read readStart
    case distinct =>
      obtain ⟨fresh, rfl, rfl⟩ := addDistinct_eq_ok.1 taken
      exact .distinct fresh
    case aggregate =>
      obtain ⟨fresh, unprojected, nonempty, aggregation, read, rfl⟩ :=
        addAggregate_eq_ok.1 taken
      exact .aggregate fresh unprojected nonempty read
  · intro added
    cases added with
    | sort fresh nonempty keys => exact addSort_eq_ok.2 ⟨fresh, nonempty, _, keys, rfl⟩
    | projection named fresh ungrouped nonempty paths =>
      have taken := addProjection_eq_ok.2 ⟨fresh, ungrouped, nonempty, _, paths, rfl⟩
      rcases named with rfl | rfl <;> exact taken
    | limit fresh read => exact addLimit_eq_ok.2 ⟨fresh, .inl ⟨_, _, rfl, read, rfl⟩⟩
    | limitAndSkip fresh read readStart =>
      exact addLimit_eq_ok.2 ⟨fresh, .inr ⟨_, _, _, _, rfl, read, readStart, rfl⟩⟩
    | distinct fresh => exact addDistinct_eq_ok.2 ⟨fresh, rfl, rfl⟩
    | aggregate fresh unprojected nonempty read =>
      exact addAggregate_eq_ok.2 ⟨fresh, unprojected, nonempty, _, read, rfl⟩
    | function role alone unprojected read =>
      exact (add_function role).trans (addFunction_eq_ok.2 ⟨alone, unprojected, _, read, rfl⟩)
    | predicate condition compiled =>
      exact (add_condition condition).trans (addPredicate_eq_ok.2 ⟨_, compiled, rfl⟩)

end Draft

/-! ## Fields and conditions -/

/-- A path that passes the check is used as it is. -/
theorem checkedPath_eq_ok {path found : String} :
    checkedPath path = .ok found ↔ pathFault? path = none ∧ path = found := by
  unfold checkedPath
  split <;> simp_all

/-- The path of an argument is that of a field which passes the check. -/
theorem fieldArgument_eq_ok {op : Operator} {node : Node} {path : String} :
    fieldArgument op node = .ok path ↔ node = .field path ∧ pathFault? path = none := by
  cases node <;> simp [fieldArgument, unexpected, checkedPath_eq_ok]
  constructor
  · rintro ⟨usable, rfl⟩
    exact ⟨rfl, usable⟩
  · rintro ⟨rfl, usable⟩
    exact ⟨usable, rfl⟩

/-- What a comparison compares a field with is a literal or a list of them. -/
theorem leaf_of_operand {op : Operator} {node : Node} {value : Json}
    (read : operand op node = .ok value) :
    (∃ item, node = .literal item) ∨ ∃ items, node = .array items := by
  cases node with
  | literal item => exact .inl ⟨item, rfl⟩
  | array items => exact .inr ⟨items, rfl⟩
  | apply | field | sortKey =>
    unfold operand at read
    split at read <;> simp [unexpected] at read

/-- A comparison is one of a field whose path passes the check. -/
theorem comparison_eq_ok {op : Operator} {args : List Node} {filter : Document} :
    comparison op args = .ok filter ↔ ∃ path node value, args = [.field path, node] ∧
      pathFault? path = none ∧ operand op node = .ok value ∧
      filter = Json.single path (condition op value) := by
  unfold comparison
  split
  · simp only [bind_eq_ok, pure_eq_ok, fieldArgument_eq_ok]
    constructor
    · rintro ⟨path, ⟨rfl, usable⟩, value, read, rfl⟩
      exact ⟨path, _, value, rfl, usable, read, rfl⟩
    · rintro ⟨path, _, value, ⟨⟩, usable, read, rfl⟩
      exact ⟨path, ⟨rfl, usable⟩, value, read, rfl⟩
  · next several =>
    constructor
    · intro read
      simp at read
    · rintro ⟨path, node, _, rfl, _⟩
      exact absurd rfl (several _ _)

/-- Conditions are compiled one by one. -/
theorem predicates_eq_mapM (nodes : List Node) : predicates nodes = nodes.mapM predicate := by
  induction nodes with
  | nil => simp [predicates, pure, Except.pure]
  | cons node nodes ih => simp [predicates, ih, List.mapM_cons]

/-- The filter of an application, by the role of its operator. -/
theorem predicate_apply_eq_ok {op : Operator} {args : List Node} {filter : Document} :
    predicate (.apply op args) = .ok filter ↔
      (∃ filters, op = .and ∧ args ≠ [] ∧ args.mapM predicate = .ok filters ∧
          filter = joined "$and" filters) ∨
        (∃ filters, op = .or ∧ args ≠ [] ∧ args.mapM predicate = .ok filters ∧
          filter = joined "$or" filters) ∨
        (∃ child inner, op = .not ∧ args = [child] ∧ predicate child = .ok inner ∧
          filter = joined "$nor" [inner]) ∨
        op.role = .comparison ∧ comparison op args = .ok filter := by
  cases op
  case and | or =>
    simp only [predicate, predicates_eq_mapM]
    split <;> simp_all [Operator.role, @eq_comm _ filter]
  case not =>
    obtain _ | ⟨child, _ | ⟨second, others⟩⟩ := args <;>
      simp [predicate, Operator.role, @eq_comm _ filter]
  all_goals simp [predicate, Operator.role]

/-! ## Whole compilations -/

/-- The parts of a query tree: the arguments of a root conjunction, or the root itself. -/
def partsOf : Node → List Node
  | .apply .and args => args
  | node => [node]

/-- A tree that is no conjunction is its own only part. -/
theorem partsOf_of_ne_and {op : Operator} (other : op ≠ .and) (args : List Node) :
    partsOf (.apply op args) = [.apply op args] := by
  cases op <;> first | exact absurd rfl other | rfl

/-- So is a directive or an aggregate function. -/
theorem partsOf_of_shapesResult {node : Node} (shapes : node.shapesResult = true) :
    partsOf node = [node] := by
  obtain ⟨op, args⟩ | _ | _ | _ | _ := node
  · refine partsOf_of_ne_and ?_ args
    rintro rfl
    simp [Node.shapesResult, Operator.role] at shapes
  all_goals rfl

/-- The field paths of a tree are those of its parts. -/
theorem flatMap_paths_partsOf (node : Node) :
    (partsOf node).flatMap Node.paths = node.paths := by
  unfold partsOf
  split <;> simp

/-- The literals of a tree are those of its parts. -/
theorem flatMap_literals_partsOf (node : Node) :
    (partsOf node).flatMap Node.literals = node.literals := by
  unfold partsOf
  split <;> simp

/-- A tree with parts has an application at its root and at least one part. -/
theorem parts_eq_ok {node : Node} {found : List Node} :
    parts node = .ok found ↔
      found = partsOf node ∧ partsOf node ≠ [] ∧ ∃ op args, node = .apply op args := by
  obtain ⟨op, _ | ⟨first, others⟩⟩ | _ | _ | _ | _ := node
  case apply.nil | apply.cons => cases op <;> simp [parts, partsOf, @eq_comm _ _ found]
  all_goals simp [parts]

/-- A tree compiles when it has parts that can be taken one after the other. -/
theorem compile_eq_ok {node : Node} {query : DocumentQuery} :
    compile node = .ok query ↔ ∃ found, parts node = .ok found ∧
      ∃ draft, found.foldlM Draft.add .empty = .ok draft ∧ draft.finish = query := by
  simp only [compile, bind_eq_ok, pure_eq_ok]

end Compilation
end ResourceQuery
