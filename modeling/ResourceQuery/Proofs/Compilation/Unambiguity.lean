import ResourceQuery.Proofs.Compilation.Lifting
import ResourceQuery.Proofs.Compilation.Precision
import ResourceQuery.Proofs.Node.Essence

/-!
# Filters are unambiguous

A filter tells which condition it was compiled from. The operators of the store under which filters are
joined open with a dollar, so none is taken for a field, and neither is one taken for the `$date` of a
date, which is the only value that is an object itself. At the root, filters are joined only where there are
several, which is why single arguments of conjunctions and disjunctions have to be normalized away first.
Values are compared as they stand, so the two zeros differ, in a tree and in its filter alike.

Main statement: two conditions have one filter exactly when they have one essence.
-/

namespace ResourceQuery
set_option autoImplicit false
open Fallible

/-! ## Values -/

namespace Literal

variable {a b : Literal}

/-- The value of a literal shows all of it, but for what is below the millisecond of a date and for where its
second began. -/
theorem toJson_eq_iff : a.toJson = b.toJson ↔ a.toMilliseconds = b.toMilliseconds := by
  cases a <;> cases b <;>
    simp [toJson, toMilliseconds, mapDate, Int64.toInt_inj, String.ofList_inj, DateTime.writeIso_eq_iff]

theorem map_toJson_eq_iff {as bs : List Literal} :
    as.map toJson = bs.map toJson ↔ as.map toMilliseconds = bs.map toMilliseconds := by
  induction as generalizing bs with
  | nil => cases bs <;> simp
  | cons a as ih => cases bs <;> simp [toJson_eq_iff, ih]

/-- A value that is an object with one field is a date. -/
theorem eq_date_of_toJson {name : String} {value : Json} (same : a.toJson = .object [(name, value)]) :
    name = "$date" := by
  cases a <;> simp [toJson] at same
  exact same.1.symm

theorem literal_toMilliseconds (op : Operator) (value : Literal) :
    Compilation.literal op value.toMilliseconds = Compilation.literal op value := by
  refine Compilation.literal_mapDate op (fun moment => ?_) value
  rw [Compilation.datePlaces, DateTime.writeIso_toPlaces (Nat.le_refl 3), DateTime.writeIso_asShown]

end Literal

namespace Compilation

variable {op op' : Operator} {args args' : List Node} {node node' : Node} {value value' : Json}
  {filter : Document} {filters : List Document}

/-! ## Operands -/

/-- What is compiled for the value of a comparison, and what its essence is. -/
theorem operand_cases (read : operand op node = .ok value) :
    (op.takesList = true ∧ value = .array (node.values.map Literal.toJson) ∧
        Node.listedFor op node.essence = .array (node.values.map Literal.toMilliseconds)) ∨
      ∃ item : Literal, op.takesList = false ∧ value = item.toJson ∧
        Node.listedFor op node.essence = .literal item.toMilliseconds := by
  cases takes : op.takesList
  · obtain ⟨op', args⟩ | item | items | _ | _ := node <;>
      simp only [operand, takes, Bool.false_eq_true, if_false, unexpected, reduceCtorEq] at read
    exact .inr ⟨item, rfl, literal_eq_ok read, Node.listedFor_of_not_takesList takes _⟩
  · obtain ⟨op', args⟩ | item | items | _ | _ := node <;>
      simp only [operand, takes, if_true, unexpected, reduceCtorEq, bind_eq_ok, pure_eq_ok] at read
    · obtain ⟨found, compiled, rfl⟩ := read
      refine .inl ⟨rfl, by simp [Node.values, literal_eq_ok compiled], ?_⟩
      simp [Node.essence, Node.listedFor, takes, Node.values]
    · obtain ⟨found, compiled, rfl⟩ := read
      exact .inl ⟨rfl, by simp [Node.values, literals_eq_ok compiled], rfl⟩

/-- Values of one comparison that are compiled alike have one essence. -/
theorem listedFor_eq_of_operand (read : operand op node = .ok value) (read' : operand op node' = .ok value) :
    Node.listedFor op node.essence = Node.listedFor op node'.essence := by
  rcases operand_cases read with ⟨takes, rfl, essence⟩ | ⟨item, takes, rfl, essence⟩ <;>
    rcases operand_cases read' with ⟨takes', same, essence'⟩ | ⟨item', takes', same, essence'⟩
  · rw [essence, essence', Literal.map_toJson_eq_iff.1 (Json.array.inj same)]
  · simp [takes] at takes'
  · simp [takes] at takes'
  · rw [essence, essence', Literal.toJson_eq_iff.1 same]

/-- The essence of a value is compiled to what the value is. -/
theorem operand_listedFor (read : operand op node = .ok value) :
    operand op (Node.listedFor op node.essence) = .ok value := by
  have each (items : List Literal) :
      (items.map Literal.toMilliseconds).mapM (literal op) = items.mapM (literal op) := by
    simp only [List.mapM_map, Function.comp_def, Literal.literal_toMilliseconds]
  cases takes : op.takesList
  · obtain ⟨op', args⟩ | item | items | _ | _ := node <;>
      simp only [operand, takes, Bool.false_eq_true, if_false, unexpected, reduceCtorEq] at read
    rw [Node.listedFor_of_not_takesList takes]
    simpa [Node.essence, operand, takes, Literal.literal_toMilliseconds] using read
  · obtain ⟨op', args⟩ | item | items | _ | _ := node <;>
      simp only [operand, takes, if_true, unexpected, reduceCtorEq] at read
    · simpa [Node.essence, Node.listedFor, operand, takes, Literal.literal_toMilliseconds] using read
    · simpa [Node.essence, Node.listedFor, operand, takes, each] using read

/-! ## Comparisons -/

/-- Only the condition of an equality is the value itself. -/
theorem storeOperator?_eq_none_iff (comparison : op.role = .comparison) :
    storeOperator? op = none ↔ op = .eq := by
  cases op <;> simp [Operator.role] at comparison <;> simp [storeOperator?]

/-- Each of the others has an operator of its own, and none is the mark of a date. -/
theorem storeOperator?_inj {name : String} (here : storeOperator? op = some name)
    (here' : storeOperator? op' = some name) : op = op' ∧ name ≠ "$date" := by
  have distinct : ∀ op ∈ Operator.all, ∀ op' ∈ Operator.all, ∀ name ∈ storeOperator? op,
      name ∈ storeOperator? op' → op = op' ∧ name ≠ "$date" := by
    decide
  exact distinct op op.mem_all op' op'.mem_all name here here'

/-- A condition tells the comparison and the value. -/
theorem condition_inj (comparison : op.role = .comparison) (comparison' : op'.role = .comparison)
    (read : operand op node = .ok value) (read' : operand op' node' = .ok value')
    (same : condition op value = condition op' value') : op = op' ∧ value = value' := by
  -- The value of an equality is an object only if it is a date, and no operator of the store is its mark.
  have notObject {op op' : Operator} {node : Node} {value value' : Json} {name : String}
      (comparison : op.role = .comparison) (read : operand op node = .ok value)
      (none : storeOperator? op = none) (some : storeOperator? op' = some name) :
      value ≠ .object (Json.single name value') := by
    rintro rfl
    obtain rfl := (storeOperator?_eq_none_iff comparison).1 none
    rcases operand_cases read with ⟨takes, -⟩ | ⟨item, -, isItem, -⟩
    · simp [Operator.takesList] at takes
    · exact (storeOperator?_inj some some).2 (Literal.eq_date_of_toJson isItem.symm)
  cases none : storeOperator? op with
  | none =>
    cases none' : storeOperator? op' with
    | none =>
      obtain rfl := (storeOperator?_eq_none_iff comparison).1 none
      obtain rfl := (storeOperator?_eq_none_iff comparison').1 none'
      exact ⟨rfl, same⟩
    | some name =>
      simp only [condition, none, none'] at same
      exact absurd same (notObject comparison read none none')
  | some name =>
    cases some' : storeOperator? op' with
    | none =>
      simp only [condition, none, some'] at same
      exact absurd same.symm (notObject comparison' read' some' none)
    | some name' =>
      simp only [condition, none, some', Json.single, Json.object.injEq, List.cons.injEq, Prod.mk.injEq,
        and_true] at same
      obtain ⟨rfl, same⟩ := same
      exact ⟨(storeOperator?_inj none some').1, same⟩

/-! ## Conditions -/

/-- The store's operator under which an operator joins filters. -/
def connective? : Operator → Option String
  | .and => some "$and"
  | .or => some "$or"
  | .not => some "$nor"
  | _ => none

/-- No two operators join filters under one name, none of which can be a path, and none takes lists. -/
theorem connective?_inj {name : String} (here : connective? op = some name)
    (here' : connective? op' = some name) :
    op = op' ∧ pathFault? name ≠ none ∧ op.takesList = false := by
  cases op <;> cases op' <;> simp [connective?] at here here' <;> subst here <;>
    simp_all [Operator.takesList] <;> decide

theorem joined_inj {name name' : String} {filters filters' : List Document}
    (same : joined name filters = joined name' filters') : name = name' ∧ filters = filters' := by
  simp only [joined, Json.single, List.cons.injEq, Prod.mk.injEq, Json.array.injEq, and_true] at same
  exact ⟨same.1, List.map_injective_iff.2 (fun _ _ => Json.object.inj) same.2⟩

/-- A filter joins those of all arguments, or is a comparison. -/
theorem predicate_cases (compiled : predicate node = .ok filter) :
    (∃ op args name filters, node = .apply op args ∧ connective? op = some name ∧
        args.mapM predicate = .ok filters ∧ filter = joined name filters) ∨
      ∃ op path node' value, node = .apply op [.field path, node'] ∧ op.role = .comparison ∧
        pathFault? path = none ∧ operand op node' = .ok value ∧
        filter = Json.single path (condition op value) := by
  obtain ⟨op, args⟩ | _ | _ | _ | _ := node
  case apply =>
    rcases predicate_apply_eq_ok.1 compiled with ⟨filters, rfl, -, run, rfl⟩ |
      ⟨filters, rfl, -, run, rfl⟩ | ⟨child, inner, rfl, rfl, run, rfl⟩ | ⟨role, compared⟩
    · exact .inl ⟨_, args, _, filters, rfl, rfl, run, rfl⟩
    · exact .inl ⟨_, args, _, filters, rfl, rfl, run, rfl⟩
    · exact .inl ⟨_, [child], _, [inner], rfl, rfl, mapM_eq_ok.2 (.cons run .nil), rfl⟩
    · obtain ⟨path, node', value, rfl, usable, read, rfl⟩ := comparison_eq_ok.1 compared
      exact .inr ⟨op, path, node', value, rfl, role, usable, read, rfl⟩
  all_goals simp [predicate] at compiled

/-- A filter that joins others is no comparison: its name is no path. -/
theorem joined_ne_single {name path : String} (connects : connective? op = some name)
    (usable : pathFault? path = none) : joined name filters ≠ Json.single path value := by
  intro same
  obtain rfl : name = path := congrArg Prod.fst (List.cons.inj same).1
  exact (connective?_inj connects connects).2.1 usable

/-- Arguments with the same filters have the same essences, if each of them does. -/
theorem map_essence_eq (each : ∀ arg ∈ args, ∀ node' filter, predicate arg = .ok filter →
      predicate node' = .ok filter → arg.essence = node'.essence)
    (run : args.mapM predicate = .ok filters) (run' : args'.mapM predicate = .ok filters) :
    args.map Node.essence = args'.map Node.essence := by
  induction mapM_eq_ok.1 run generalizing args' with
  | nil =>
    cases mapM_eq_ok.1 run'
    rfl
  | cons head tail ih =>
    obtain _ | ⟨head', tail'⟩ := mapM_eq_ok.1 run'
    obtain ⟨first, others⟩ := List.forall_mem_cons.1 each
    rw [List.map_cons, List.map_cons, first _ _ head head',
      ih others (mapM_eq_ok.2 tail) (mapM_eq_ok.2 tail')]

/-- Conditions with one filter have one essence. -/
theorem essence_eq_of_predicate (node : Node) : ∀ node' filter, predicate node = .ok filter →
    predicate node' = .ok filter → node.essence = node'.essence := by
  induction node using Node.induct with
  | literal | array | field | sortKey => simp [predicate]
  | apply op args ih =>
    intro node' filter compiled compiled'
    rcases predicate_cases compiled with ⟨op, args, name, filters, ⟨⟩, connects, run, rfl⟩ |
        ⟨op, path, value, json, ⟨⟩, role, usable, read, rfl⟩ <;>
      rcases predicate_cases compiled' with ⟨op', args', name', filters', rfl, connects', run', same⟩ |
        ⟨op', path', value', json', rfl, role', usable', read', same⟩
    · obtain ⟨rfl, rfl⟩ := joined_inj same
      obtain ⟨rfl, -, single⟩ := connective?_inj connects connects'
      rw [Node.essence_apply_of_not_takesList single, Node.essence_apply_of_not_takesList single,
        map_essence_eq ih run run']
    · exact absurd same (joined_ne_single connects usable')
    · exact absurd same.symm (joined_ne_single connects' usable)
    · simp only [Json.single, List.cons.injEq, Prod.mk.injEq, and_true] at same
      obtain ⟨rfl, same⟩ := same
      obtain ⟨rfl, rfl⟩ := condition_inj role role' read read' same
      simp only [Node.essence_apply, List.map_cons, List.map_nil, listedFor_eq_of_operand read read']

/-- The essences of arguments have their filters, if each of them does. -/
theorem mapM_essence (each : ∀ arg ∈ args, ∀ filter, predicate arg = .ok filter →
      predicate arg.essence = .ok filter) (run : args.mapM predicate = .ok filters) :
    (args.map Node.essence).mapM predicate = .ok filters := by
  induction mapM_eq_ok.1 run with
  | nil => rfl
  | cons head tail ih =>
    obtain ⟨first, others⟩ := List.forall_mem_cons.1 each
    exact mapM_eq_ok.2 (.cons (first _ head) (mapM_eq_ok.1 (ih others (mapM_eq_ok.2 tail))))

/-- The essence of a condition has its filter. -/
theorem predicate_essence (node : Node) : ∀ filter, predicate node = .ok filter →
    predicate node.essence = .ok filter := by
  induction node using Node.induct with
  | literal | array | field | sortKey => simp [predicate]
  | apply op args ih =>
    intro filter compiled
    rcases predicate_apply_eq_ok.1 compiled with ⟨filters, rfl, nonempty, run, rfl⟩ |
      ⟨filters, rfl, nonempty, run, rfl⟩ | ⟨child, inner, rfl, rfl, run, rfl⟩ | ⟨role, compared⟩
    · rw [Node.essence_apply_of_not_takesList rfl]
      exact predicate_apply_eq_ok.2 (.inl ⟨filters, rfl, by simpa using nonempty, mapM_essence ih run, rfl⟩)
    · rw [Node.essence_apply_of_not_takesList rfl]
      exact predicate_apply_eq_ok.2
        (.inr (.inl ⟨filters, rfl, by simpa using nonempty, mapM_essence ih run, rfl⟩))
    · rw [Node.essence_apply_of_not_takesList rfl]
      exact predicate_apply_eq_ok.2 (.inr (.inr (.inl
        ⟨_, inner, rfl, rfl, ih child List.mem_cons_self inner run, rfl⟩)))
    · obtain ⟨path, node', value, rfl, usable, read, rfl⟩ := comparison_eq_ok.1 compared
      rw [Node.essence_apply]
      exact predicate_apply_eq_ok.2 (.inr (.inr (.inr
        ⟨role, comparison_eq_ok.2 ⟨path, _, value, rfl, usable, operand_listedFor read, rfl⟩⟩)))

/-! ## Whole trees -/

/-- The predicates that conditions make together are their filters. -/
theorem predicates_merged {parts : List Node} (run : parts.mapM predicate = .ok filters) :
    (merged parts).predicates = filters := by
  rw [merged, merge]
  induction mapM_eq_ok.1 run with
  | nil => rfl
  | cons head tail ih =>
    have others := ih (mapM_eq_ok.2 tail)
    simp only [List.map_cons, contribution_of_condition (condition_of_predicate head), head,
      Except.toOption] at others ⊢
    exact congrArg (List.cons _) others

/-- What applies an operator of conditions shapes no result, and neither does what applies none. -/
theorem not_shapesResult_of_conditional (conditional : ∀ op ∈ node.operators, op.isConditional = true) :
    node.shapesResult = false := by
  obtain ⟨op, args⟩ | _ | _ | _ | _ := node
  case apply =>
    have root := conditional op (by simp)
    cases op <;> simp [Operator.isConditional, Operator.role] at root <;> rfl
  all_goals rfl

/-- The filter of a normal tree of conditions is the filter of the whole tree. -/
theorem predicate_of_compile {query : DocumentQuery} (normal : node.isNormal = true)
    (conditional : ∀ op ∈ node.operators, op.isConditional = true) (compiled : compile node = .ok query) :
    predicate node = .ok query.filter := by
  obtain ⟨⟨nonempty, op, args, rfl⟩, sound, -, rfl⟩ := compile_eq_ok_iff.1 compiled
  obtain ⟨filters, run⟩ : ∃ filters, (partsOf (.apply op args)).mapM predicate = .ok filters := by
    refine exists_mapM_eq_ok.2 fun part mem => (sound part mem).exists_filter ?_
    exact not_shapesResult_of_conditional fun op inPart =>
      conditional op (operators_subset_of_mem_partsOf mem inPart)
  change _ = Except.ok (merged (partsOf (.apply op args))).filter
  rw [Draft.filter, predicates_merged run]
  by_cases root : op = .and
  · subst root
    have length := length_of_mapM_eq_ok run
    have several := (Node.isNormal_apply_iff.1 normal).1 rfl
    obtain _ | ⟨first, _ | ⟨second, others⟩⟩ := filters
    · exact absurd (List.length_eq_zero_iff.1 length.symm) nonempty
    · exact absurd length.symm several
    · exact predicate_apply_eq_ok.2 (.inl ⟨_, rfl, nonempty, run, rfl⟩)
  · -- The tree is its own only part, and its filter stands alone.
    rw [partsOf_of_ne_and root] at run
    obtain _ | ⟨head, ⟨⟩⟩ := mapM_eq_ok.1 run
    exact head

/-- A moment of some second in the middle of 2015. -/
def midyear (second nanosecond : Nat) (onDial : second < 60) (inSecond : nanosecond < 2000000000) :
    DateTime where
  date := ⟨2015, 6, 30, by decide, by decide, by decide⟩
  time := ⟨12, 30, second, nanosecond, by decide, by decide, onDial, inSecond⟩

/-- The documents of a moment. -/
def isAt (moment : DateTime) : Node :=
  .apply .eq [.field "at", .literal (.date moment)]

/-- Documents without some tags, and those of a moment. -/
def untaggedOrAt (op : Operator) (tags : Node) (moment : DateTime) : Node :=
  .apply op [.apply .not [.apply .contains [.field "tags", tags]], isAt moment]

end Compilation
end ResourceQuery
