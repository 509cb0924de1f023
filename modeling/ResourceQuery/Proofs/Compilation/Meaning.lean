import ResourceQuery.Proofs.Compilation.Steps
import ResourceQuery.Proofs.Node.Leaves

/-!
# What a filter means

A truth assignment says of every field path and condition whether the field meets the condition.
Under an assignment both a query tree and a filter document have a truth value, each by its own
rules: `Node.selects` reads the operators of the tree, `Document.holds` the operators of the store.
Main statement: the filter of a compiled tree has the truth value of the tree under every
assignment.
-/

namespace ResourceQuery
set_option autoImplicit false

/-- Whether a field meets a condition. -/
abbrev Assignment : Type := String → Json → Bool

/-! ## Filters -/

namespace Json

mutual

/-- Whether a field of a filter holds: the operators of the store join filters, any other name is
a path under a condition. -/
def fieldHolds (v : Assignment) (name : String) : Json → Bool
  | .array items =>
    if name = "$and" then allHold v items
    else if name = "$or" then someHolds v items
    else if name = "$nor" then !someHolds v items
    else v name (.array items)
  | value => v name value

/-- Whether all fields of a filter hold. -/
def fieldsHold (v : Assignment) : List (String × Json) → Bool
  | [] => true
  | (name, value) :: fields => fieldHolds v name value && fieldsHold v fields

/-- Whether a value is a filter that holds. -/
def filterHolds (v : Assignment) : Json → Bool
  | .object fields => fieldsHold v fields
  | _ => false

/-- Whether all values are filters that hold. -/
def allHold (v : Assignment) : List Json → Bool
  | [] => true
  | item :: items => filterHolds v item && allHold v items

/-- Whether some value is a filter that holds. -/
def someHolds (v : Assignment) : List Json → Bool
  | [] => false
  | item :: items => filterHolds v item || someHolds v items

end

end Json

/-- Whether a filter holds. The empty one does. -/
def Document.holds (v : Assignment) (filter : Document) : Bool :=
  Json.fieldsHold v filter

/-! ## Query trees -/

/-- The value of a literal in a filter. Dates are objects of the store's extended form, with
milliseconds. -/
def Literal.toJson : Literal → Json
  | .integer n => .integer n.toInt
  | .float x => .float x
  | .boolean b => .boolean b
  | .null => .null
  | .string text => .string text
  | .date moment => .object [("$date", .string (String.ofList (moment.writeIso 3)))]

namespace Node

/-- The values of an operand. A single value counts as a list of one. -/
def listed? : Node → Option Json
  | .literal value => some (.array [value.toJson])
  | .array items => some (.array (items.map Literal.toJson))
  | _ => none

/-- The value of an operand that is no list. -/
def single? : Node → Option Json
  | .literal value => some value.toJson
  | _ => none

/-- The condition that a comparison puts on its field. -/
def condition? (op : Operator) (operand : Node) : Option Json :=
  let under (name : String) (value : Json) : Json := .object [(name, value)]
  match op with
  | .eq => operand.single?
  | .ne => operand.single?.map (under "$ne")
  | .lt => operand.single?.map (under "$lt")
  | .le => operand.single?.map (under "$lte")
  | .gt => operand.single?.map (under "$gt")
  | .ge => operand.single?.map (under "$gte")
  | .in => operand.listed?.map (under "$in")
  | .contains => operand.listed?.map (under "$all")
  | .excludes => operand.listed?.map (under "$nin")
  | _ => none

/-- Whether a comparison holds. -/
def comparisonHolds (v : Assignment) (op : Operator) : List Node → Bool
  | [.field path, operand] => (condition? op operand).any (v path)
  | _ => false

mutual

/-- Whether a condition holds. -/
def holds (v : Assignment) : Node → Bool
  | .apply .and args => allHold v args
  | .apply .or args => someHolds v args
  | .apply .not args => !allHold v args
  | .apply op args => comparisonHolds v op args
  | _ => false

/-- Whether all conditions hold. -/
def allHold (v : Assignment) : List Node → Bool
  | [] => true
  | node :: nodes => node.holds v && allHold v nodes

/-- Whether some condition holds. -/
def someHolds (v : Assignment) : List Node → Bool
  | [] => false
  | node :: nodes => node.holds v || someHolds v nodes

end

/-- Whether a query selects: each of its parts does. Directives and aggregate functions select
everything. -/
def selects (v : Assignment) (node : Node) : Bool :=
  (Compilation.partsOf node).all fun part => part.shapesResult || part.holds v

end Node

/-! ## Lists of filters and conditions -/

variable {v : Assignment}

theorem Json.allHold_objects (filters : List Document) :
    Json.allHold v (filters.map .object) = filters.all (Document.holds v) := by
  induction filters with
  | nil => rfl
  | cons filter filters ih =>
    simp only [List.map_cons, Json.allHold, Json.filterHolds, ih, List.all_cons, Document.holds]

theorem Json.someHolds_objects (filters : List Document) :
    Json.someHolds v (filters.map .object) = filters.any (Document.holds v) := by
  induction filters with
  | nil => rfl
  | cons filter filters ih =>
    simp only [List.map_cons, Json.someHolds, Json.filterHolds, ih, List.any_cons, Document.holds]

theorem Node.allHold_eq_all (nodes : List Node) :
    Node.allHold v nodes = nodes.all (Node.holds v) := by
  induction nodes with
  | nil => rfl
  | cons node nodes ih => simp only [Node.allHold, ih, List.all_cons]

theorem Node.someHolds_eq_any (nodes : List Node) :
    Node.someHolds v nodes = nodes.any (Node.holds v) := by
  induction nodes with
  | nil => rfl
  | cons node nodes ih => simp only [Node.someHolds, ih, List.any_cons]

theorem Document.holds_single (name : String) (value : Json) :
    Document.holds v (Json.single name value) = Json.fieldHolds v name value := by
  simp only [Document.holds, Json.single, Json.fieldsHold, Bool.and_true]

/-- Filters joined by `$and` hold together. -/
theorem holds_joined_and (filters : List Document) :
    Document.holds v (Compilation.joined "$and" filters) = filters.all (Document.holds v) := by
  rw [Compilation.joined, Document.holds_single, Json.fieldHolds, if_pos rfl,
    Json.allHold_objects]

/-- Of filters joined by `$or` one holds. -/
theorem holds_joined_or (filters : List Document) :
    Document.holds v (Compilation.joined "$or" filters) = filters.any (Document.holds v) := by
  rw [Compilation.joined, Document.holds_single, Json.fieldHolds, if_neg (by decide),
    if_pos rfl, Json.someHolds_objects]

/-- Of filters joined by `$nor` none holds. -/
theorem holds_joined_nor (filters : List Document) :
    Document.holds v (Compilation.joined "$nor" filters) = !filters.any (Document.holds v) := by
  rw [Compilation.joined, Document.holds_single, Json.fieldHolds, if_neg (by decide),
    if_neg (by decide), if_pos rfl, Json.someHolds_objects]

namespace Compilation
open Fallible

/-! ## Comparisons -/

/-- A path of a document is no operator of the store, so a field under it is read as a condition. -/
theorem fieldHolds_of_path {path : String} (usable : pathFault? path = none) (value : Json) :
    Json.fieldHolds v path value = v path value := by
  have differs : ∀ name, pathFault? name ≠ none → path ≠ name :=
    fun name refused same => refused (same ▸ usable)
  cases value <;> simp [Json.fieldHolds, differs "$and" (by decide), differs "$or" (by decide),
    differs "$nor" (by decide)]

theorem literal_eq_ok {op : Operator} {value : Literal} {found : Json}
    (compiled : literal op value = .ok found) : found = value.toJson := by
  cases value <;> simp only [literal, Except.ok.injEq] at compiled
  case float x =>
    split at compiled
    · exact (Except.ok.inj compiled).symm
    · simp at compiled
  all_goals exact compiled.symm

theorem literals_eq_ok {op : Operator} {items : List Literal} {found : List Json}
    (compiled : items.mapM (literal op) = .ok found) : found = items.map Literal.toJson := by
  induction mapM_eq_ok.1 compiled with
  | nil => rfl
  | cons head tail ih => rw [List.map_cons, ← literal_eq_ok head, ih (mapM_eq_ok.2 tail)]

/-- What is compiled for a comparison is the condition the comparison stands for. -/
theorem condition_eq {op : Operator} {operandNode : Node} {value : Json}
    (comparison : op.role = .comparison) (compiled : operand op operandNode = .ok value) :
    operandNode.condition? op = some (condition op value) := by
  cases takes : op.takesList
  · obtain ⟨op', args⟩ | item | items | _ | _ := operandNode <;>
      simp only [operand, takes, Bool.false_eq_true, if_false, unexpected, reduceCtorEq] at compiled
    have single := literal_eq_ok compiled
    cases op <;> simp_all [Operator.role, Operator.takesList, Node.condition?, Node.single?,
      condition, storeOperator?, Json.single]
  · obtain ⟨op', args⟩ | item | items | _ | _ := operandNode <;>
      simp only [operand, takes, if_true, unexpected, reduceCtorEq, bind_eq_ok, pure_eq_ok] at compiled
    · obtain ⟨found, compiled, rfl⟩ := compiled
      have single := literal_eq_ok compiled
      cases op <;> simp_all [Operator.role, Operator.takesList, Node.condition?, Node.listed?,
        condition, storeOperator?, Json.single]
    · obtain ⟨found, compiled, rfl⟩ := compiled
      have several := literals_eq_ok compiled
      cases op <;> simp_all [Operator.role, Operator.takesList, Node.condition?, Node.listed?,
        condition, storeOperator?, Json.single]

/-- A comparison holds exactly when its filter does. -/
theorem holds_comparison {op : Operator} {args : List Node} {filter : Document}
    (role : op.role = .comparison) (compiled : comparison op args = .ok filter) :
    filter.holds v = Node.comparisonHolds v op args := by
  unfold comparison at compiled
  split at compiled
  · next field operandNode =>
    simp only [bind_eq_ok, pure_eq_ok] at compiled
    obtain ⟨path, isPath, value, isValue, rfl⟩ := compiled
    obtain ⟨rfl, usable⟩ := fieldArgument_eq_ok.1 isPath
    rw [Document.holds_single, fieldHolds_of_path usable, Node.comparisonHolds,
      condition_eq role isValue, Option.any_some]
  · simp at compiled

/-! ## Conditions -/

/-- Filters that are each equivalent to a condition are so as lists. -/
theorem holds_predicates {nodes : List Node} {filters : List Document}
    (each : ∀ node ∈ nodes, ∀ filter, predicate node = .ok filter → filter.holds v = node.holds v)
    (compiled : nodes.mapM predicate = .ok filters) :
    filters.all (Document.holds v) = nodes.all (Node.holds v) ∧
      filters.any (Document.holds v) = nodes.any (Node.holds v) := by
  induction mapM_eq_ok.1 compiled with
  | nil => exact ⟨rfl, rfl⟩
  | cons head tail ih =>
    have others := ih (fun node mem => each node (List.mem_cons_of_mem _ mem)) (mapM_eq_ok.2 tail)
    simp only [List.all_cons, List.any_cons, each _ List.mem_cons_self _ head, others, and_self]

/-- The filter of a condition has its truth value. -/
theorem holds_predicate (node : Node) :
    ∀ filter, predicate node = .ok filter → filter.holds v = node.holds v := by
  induction node using Node.induct with
  | literal | array | field | sortKey => simp [predicate]
  | apply op args ih =>
    intro filter compiled
    rcases predicate_apply_eq_ok.1 compiled with ⟨filters, rfl, _, each, rfl⟩ |
      ⟨filters, rfl, _, each, rfl⟩ | ⟨child, inner, rfl, rfl, one, rfl⟩ | ⟨role, compiled⟩
    · rw [holds_joined_and, Node.holds, Node.allHold_eq_all, (holds_predicates ih each).1]
    · rw [holds_joined_or, Node.holds, Node.someHolds_eq_any, (holds_predicates ih each).2]
    · have same := ih child List.mem_cons_self inner one
      simp [holds_joined_nor, Node.holds, Node.allHold, same]
    · rw [holds_comparison role compiled]
      cases op <;> simp_all [Node.holds, Operator.role]

/-! ## Whole queries -/

/-- Taking a part adds its truth value to that of the predicates. -/
theorem holds_added {draft next : Draft} {part : Node} (added : Added draft part next) :
    next.predicates.all (Document.holds v) =
      (draft.predicates.all (Document.holds v) && (part.shapesResult || part.holds v)) := by
  cases added with
  | predicate condition compiled =>
    simp [condition, holds_predicate part _ compiled]
  | projection named => rcases named with rfl | rfl <;> simp [Node.shapesResult, Operator.role]
  | function role => simp [Node.shapesResult, role]
  | sort | limit | limitAndSkip | distinct | aggregate =>
    simp [Node.shapesResult, Operator.role]

/-- Taking parts one after the other adds all of their truth values. -/
theorem holds_foldlM {found : List Node} {draft last : Draft}
    (run : found.foldlM Draft.add draft = .ok last) :
    last.predicates.all (Document.holds v) =
      (draft.predicates.all (Document.holds v) &&
        found.all fun part => part.shapesResult || part.holds v) := by
  induction found generalizing draft with
  | nil =>
    simp only [List.foldlM_nil, pure_eq_ok] at run
    simp [run]
  | cons part others ih =>
    simp only [List.foldlM_cons, bind_eq_ok] at run
    obtain ⟨next, head, tail⟩ := run
    rw [ih tail, holds_added (Draft.add_eq_ok.1 head), List.all_cons, Bool.and_assoc]

/-- The filter of a finished query holds when all of its predicates do. -/
theorem holds_filter (draft : Draft) :
    draft.filter.holds v = draft.predicates.all (Document.holds v) := by
  unfold Draft.filter
  split
  · simp [*, Document.holds, Json.fieldsHold]
  · simp [*]
  · rw [holds_joined_and]

/-- **Compilation keeps the meaning of a query.** The filter of a compiled tree holds under an
assignment exactly when the tree selects under it. -/
theorem holds_filter_of_compile {node : Node} {query : DocumentQuery}
    (compiled : compile node = .ok query) (v : Assignment) :
    query.filter.holds v = node.selects v := by
  obtain ⟨found, isParts, draft, run, rfl⟩ := compile_eq_ok.1 compiled
  obtain ⟨rfl, _⟩ := parts_eq_ok.1 isParts
  have last := holds_foldlM (v := v) run
  simpa [Draft.finish, holds_filter, Draft.empty, Node.selects] using last

/-- A disjunction beside a sort and a count: both forms hold where the field is 1 or the list lacks
the word. -/
theorem holds_filter_of_mixed_parts :
    ∃ query, compile (.apply .and [.apply .sort [.sortKey "a.b" .descending],
        .apply .or [.apply .eq [.field "a", .literal (.integer 1)],
          .apply .not [.apply .contains [.field "tags", .literal (.string "red")]]],
        .apply .count []]) = .ok query ∧
      ∀ v : Assignment, query.filter.holds v =
        (v "a" (.integer 1) || !v "tags" (.object [("$all", .array [.string "red"])])) := by
  refine Exists.imp (fun query compiled =>
    ⟨compiled, fun v => (holds_filter_of_compile compiled v).trans ?_⟩) ⟨_, rfl⟩
  simp [Node.selects, partsOf, Node.shapesResult, Operator.role, Node.holds, Node.someHolds,
    Node.allHold, Node.comparisonHolds, Node.condition?, Node.single?, Node.listed?,
    Literal.toJson]

end Compilation
end ResourceQuery
