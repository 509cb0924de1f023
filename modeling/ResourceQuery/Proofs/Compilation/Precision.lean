import ResourceQuery.Proofs.Compilation.Steps
import ResourceQuery.Proofs.Node.Precision

/-!
# Filters are less exact than queries

Dates in a filter have milliseconds, and no fault shows a date. A tree whose dates are changed into others of
the same text is therefore compiled as the tree itself, to the same query or with the same fault.
-/

namespace ResourceQuery.Compilation
set_option autoImplicit false

variable {f : DateTime → DateTime} (op : Operator) (node : Node) (args : List Node)

theorem kind_mapDates : (node.mapDates f).kind = node.kind := by
  cases node with
  | literal value => cases value <;> rfl
  | apply | array | field | sortKey => rfl

/-! ## Arguments -/

@[simp] theorem unexpected_mapDates {α : Type} (expected : Expectation) :
    (unexpected op expected (node.mapDates f) : Compiled α) = unexpected op expected node := by
  rw [unexpected, unexpected, kind_mapDates]

theorem literal_mapDate (hidden : DateTime.IsHidden datePlaces f)
    (value : Literal) : literal op (value.mapDate f) = literal op value := by
  cases value with
  | date moment => rw [Literal.mapDate, literal, literal, hidden]
  | integer | float | boolean | null | string => rfl

theorem fieldArgument_mapDates : fieldArgument op (node.mapDates f) = fieldArgument op node := by
  cases node with
  | field | sortKey => rfl
  | apply | literal | array => exact unexpected_mapDates op _ .field

theorem operand_mapDates (hidden : DateTime.IsHidden datePlaces f) :
    operand op (node.mapDates f) = operand op node := by
  cases node with
  | literal value =>
    simp only [operand, Node.mapDates, Node.mapValues, literal_mapDate op hidden]
  | array items =>
    simp only [operand, Node.mapDates, Node.mapValues, List.mapM_map, Function.comp_def,
      literal_mapDate op hidden]
    rfl
  | field | sortKey => rfl
  | apply op' args =>
    simp only [operand, Node.mapDates_apply]
    rfl

theorem comparison_mapDates (hidden : DateTime.IsHidden datePlaces f) :
    comparison op (args.map (Node.mapDates f)) = comparison op args := by
  obtain _ | ⟨field, _ | ⟨value, _ | ⟨other, others⟩⟩⟩ := args <;>
    simp [comparison, fieldArgument_mapDates, operand_mapDates _ _ hidden]

theorem addSortKey_mapDates (sort : Fields Int) :
    addSortKey sort (node.mapDates f) = addSortKey sort node := by
  cases node with
  | field | sortKey => rfl
  | apply | literal | array => exact unexpected_mapDates .sort _ .sortKey

theorem countArgument_mapDates : countArgument op (node.mapDates f) = countArgument op node := by
  obtain _ | value | _ | _ | _ := node
  case literal =>
    cases value with
    | integer => rfl
    | _ => exact unexpected_mapDates op (.literal _) .limit
  all_goals exact unexpected_mapDates op _ .limit

theorem accumulator_mapDates :
    accumulator op (args.map (Node.mapDates f)) = accumulator op args := by
  obtain _ | ⟨field, _ | ⟨other, others⟩⟩ := args <;> cases function : foldOf? op <;>
    simp [accumulator, function, fieldArgument_mapDates]

theorem accumulate_mapDates (aggregation : Aggregation) :
    accumulate aggregation op (args.map (Node.mapDates f)) = accumulate aggregation op args := by
  rw [accumulate, accumulate, accumulator_mapDates]

theorem addAggregateArgument_mapDates (aggregation : Aggregation) :
    addAggregateArgument aggregation (node.mapDates f) = addAggregateArgument aggregation node := by
  cases node with
  | field | sortKey => rfl
  | literal | array => exact unexpected_mapDates .aggregate _ .fieldOrAggregate
  | apply op args =>
    rw [Node.mapDates_apply, addAggregateArgument, addAggregateArgument, accumulate_mapDates]
    rfl

/-! ## Predicates -/

theorem predicates_mapDates
    (each : ∀ arg ∈ args, predicate (arg.mapDates f) = predicate arg) :
    predicates (args.map (Node.mapDates f)) = predicates args := by
  induction args with
  | nil => rfl
  | cons arg args ih =>
    obtain ⟨here, later⟩ := List.forall_mem_cons.1 each
    rw [List.map_cons, predicates, predicates, here, ih later]

theorem predicate_mapDates (hidden : DateTime.IsHidden datePlaces f) :
    predicate (node.mapDates f) = predicate node := by
  induction node using Node.induct with
  | literal value =>
    have same := kind_mapDates (f := f) (.literal value)
    simp only [Node.mapDates, Node.mapValues] at same ⊢
    rw [predicate, predicate, same] <;> simp
  | array | field | sortKey => rfl
  | apply op args ih =>
    rw [Node.mapDates_apply]
    cases op
    case and | or =>
      rw [predicate, predicate, predicates_mapDates args ih, List.isEmpty_map]
    case not =>
      obtain _ | ⟨child, _ | ⟨second, others⟩⟩ := args
      · rfl
      · simp [predicate, ih child]
      · simp [predicate]
    all_goals simp [predicate, comparison_mapDates _ _ hidden]

/-! ## Whole queries -/

theorem addLimit_mapDates (draft : Draft) :
    draft.addLimit (args.map (Node.mapDates f)) = draft.addLimit args := by
  obtain _ | ⟨count, _ | ⟨start, _ | ⟨third, others⟩⟩⟩ := args
  · rfl
  · simp only [List.map_cons, List.map_nil, Draft.addLimit, countArgument_mapDates]
  · simp only [List.map_cons, List.map_nil, Draft.addLimit, countArgument_mapDates]
  · simp [Draft.addLimit]

theorem addPredicate_mapDates (hidden : DateTime.IsHidden datePlaces f)
    (draft : Draft) : draft.addPredicate (node.mapDates f) = draft.addPredicate node := by
  rw [Draft.addPredicate, Draft.addPredicate, predicate_mapDates node hidden]

theorem add_mapDates (hidden : DateTime.IsHidden datePlaces f)
    (draft : Draft) : draft.add (node.mapDates f) = draft.add node := by
  obtain ⟨op, args⟩ | _ | _ | _ | _ := node
  case apply =>
    have asPredicate := addPredicate_mapDates (.apply op args) hidden draft
    rw [Node.mapDates_apply] at asPredicate ⊢
    cases op
    case limit => exact addLimit_mapDates args draft
    all_goals
      simp only [Draft.add, Draft.addSort, Draft.addProjection, Draft.addDistinct, Draft.addAggregate,
        Draft.addFunction, List.isEmpty_map, List.foldlM_map, List.mapM_map, Function.comp_def,
        addSortKey_mapDates, fieldArgument_mapDates, addAggregateArgument_mapDates,
        accumulate_mapDates, asPredicate]
  all_goals exact addPredicate_mapDates _ hidden draft

theorem parts_mapDates :
    parts (node.mapDates f) = (parts node).map (List.map (Node.mapDates f)) := by
  obtain ⟨op, args⟩ | value | _ | _ | _ := node
  case apply =>
    rw [Node.mapDates_apply]
    cases op <;> cases args <;> simp [parts, Except.map, Node.mapDates_apply]
  case literal =>
    have same := kind_mapDates (f := f) (.literal value)
    simp only [Node.mapDates, Node.mapValues] at same ⊢
    simp [parts, Except.map, same]
  all_goals rfl

/-- A tree is compiled as if it had other dates with the same texts. -/
theorem compile_mapDates (hidden : DateTime.IsHidden datePlaces f) :
    compile (node.mapDates f) = compile node := by
  have sameAdd : (fun draft part => Draft.add draft (part.mapDates f)) = Draft.add :=
    funext fun draft => funext fun part => add_mapDates part hidden draft
  rw [compile, compile, parts_mapDates]
  cases parts node with
  | error => rfl
  | ok several =>
    have run : (several.map (Node.mapDates f)).foldlM Draft.add .empty =
        several.foldlM Draft.add .empty := by
      rw [List.foldlM_map, sameAdd]
    exact congrArg (· >>= fun draft => pure draft.finish) run

end ResourceQuery.Compilation
