import ResourceQuery.Proofs.Compilation.Stages
import ResourceQuery.Proofs.Query.Triviality

/-!
# Sorting groups

The sort stage of a pipeline stands behind the group stage, so what it sorts are groups. The compiler takes sort keys
without a look at the aggregation beside them: the tree with any other usable keys compiles, too, and to the same
query but for its sort. So a query sorts by columns of its groups only if its text names columns.

Main statement: the sort keys that find a column are those under `_id` and those that are output names of the tree.
-/

namespace ResourceQuery
set_option autoImplicit false

/-- The name in front of the first dot of a path. -/
def outermost (path : String) : String :=
  String.ofList (path.toList.takeWhile (· ≠ '.'))

/-- All that the query sorts by, if it groups, lies in a field that the group stage puts out. -/
def DocumentQuery.SortsColumns (query : DocumentQuery) : Prop :=
  ∀ aggregation ∈ query.aggregation, ∀ path ∈ query.sort.names,
    outermost path ∈ Fields.names aggregation.body

/-- What a query sorts by, with its directions, as the arguments of a `sort`. -/
def sortArguments (keys : List (String × Direction)) : List Node :=
  keys.map fun key => .sortKey key.1 key.2

namespace Node

/-- The part with these sort keys, if it is a `sort`. -/
def resort (keys : List (String × Direction)) (part : Node) : Node :=
  if part.applies [.sort] then .apply .sort (sortArguments keys) else part

/-- The query with these sort keys. -/
def resorted (keys : List (String × Direction)) (node : Node) : Node :=
  .apply .and ((Compilation.partsOf node).map (resort keys))

end Node

namespace Compilation

variable {node part : Node} {parts : List Node} {query : DocumentQuery} {aggregation : Aggregation}
  {keys : List (String × Direction)}

/-! ## Other sort keys -/

theorem sortNames_sortArguments (keys : List (String × Direction)) :
    (sortArguments keys).filterMap sortName? = keys.map Prod.fst := by
  rw [sortArguments, List.filterMap_map, ← List.filterMap_eq_map]
  rfl

theorem sortFields_sortArguments (keys : List (String × Direction)) :
    (sortArguments keys).filterMap sortField? = keys.map fun key => (key.1, sortOrder key.2) := by
  rw [sortArguments, List.filterMap_map, ← List.filterMap_eq_map]
  rfl

/-- Sort keys by distinct field paths would compile by themselves. -/
theorem isSound_sortArguments (nonempty : keys ≠ []) (distinct : (keys.map Prod.fst).Nodup)
    (usable : ∀ key ∈ keys, IsFieldPath key.1) : IsSound (.apply .sort (sortArguments keys)) := by
  refine .sort (by simpa [sortArguments] using nonempty) ?_ (by rwa [sortNames_sortArguments])
  rw [sortArguments, List.forall_mem_map]
  exact fun key mem => ⟨key.1, key.2, rfl, usable key mem⟩

/-- A part that is no `sort` stays as it is. -/
theorem resort_of_not_sort (keys : List (String × Direction)) (other : part.applies [.sort] = false) :
    part.resort keys = part :=
  if_neg (by simp [other])

/-- A `sort` gets the keys. -/
theorem sort_resort_of_sort (keys : List (String × Direction)) (sorts : part.applies [.sort] = true) :
    (contribution (part.resort keys)).sort = keys.map fun key => (key.1, sortOrder key.2) := by
  rw [Node.resort, if_pos sorts]
  exact sortFields_sortArguments keys

/-- With other sort keys a part contributes all but its sort as before. -/
theorem contribution_resort (keys : List (String × Direction)) (part : Node) :
    contribution (part.resort keys) =
      { contribution part with sort := (contribution (part.resort keys)).sort } := by
  cases sorts : part.applies [.sort] with
  | false => rw [resort_of_not_sort keys sorts]
  | true =>
    have named : Slot.sort.operators ≠ [] := by decide
    obtain ⟨op, args, rfl, isSort⟩ := eq_apply_of_slot named ((slot?_eq_some_iff named).2 sorts)
    obtain rfl := List.mem_singleton.1 isSort
    rw [Node.resort, if_pos sorts]
    rfl

/-- So parts with other sort keys make together the same as before but for the sort. -/
theorem merged_resort (keys : List (String × Direction)) (parts : List Node) :
    merged (parts.map (Node.resort keys)) =
      { merged parts with
        query := { (merged parts).query with
          sort := parts.flatMap fun part => (contribution (part.resort keys)).sort } } := by
  have each : (parts.map (Node.resort keys)).map contribution = parts.map fun part =>
      { contribution part with sort := (contribution (part.resort keys)).sort } := by
    rw [List.map_map]
    exact List.map_congr_left fun part _ => contribution_resort keys part
  rw [merged, each, merged]
  simp [merge, List.flatMap_map, List.findSome?_map, List.filterMap_map, List.any_map, Function.comp_def]

/-- Only a `sort` adds to the sort of a query. -/
theorem sort_eq_nil_of_not_sort (sound : IsSound part) (other : part.applies [.sort] = false) :
    (contribution part).sort = [] := by
  refine sound.isFilled.sort.2 fun filled => ?_
  have sorts : part.applies Slot.sort.operators = true := (slot?_eq_some_iff (by decide)).1 filled
  exact Bool.noConfusion (sorts.symm.trans other)

/-- Parts that sort do so by the one `sort` among them, so with other keys they sort by these. -/
theorem flatMap_sort_resort (sound : ∀ part ∈ parts, IsSound part) (apart : parts.Pairwise Apart)
    (sorted : (merged parts).query.sort ≠ []) (keys : List (String × Direction)) :
    (parts.flatMap fun part => (contribution (part.resort keys)).sort) =
      keys.map fun key => (key.1, sortOrder key.2) := by
  have others (part : Node) (mem : part ∈ parts) (other : part.applies [.sort] = false) :
      (contribution (part.resort keys)).sort = [] := by
    rw [resort_of_not_sort keys other]
    exact sort_eq_nil_of_not_sort (sound part mem) other
  obtain ⟨-, unsorted⟩ | ⟨sort, -, one, -⟩ := sort_cases sound apart
  · exact absurd unsorted sorted
  · have sorts : sort.applies [.sort] = true := (List.mem_filter.1 (one ▸ List.mem_cons_self)).2
    rw [← flatMap_filter others, one, List.flatMap_singleton, sort_resort_of_sort keys sorts]

/-- **A sort is taken whatever stands beside it.** A tree that compiles to a sorted query compiles with any other
sort keys by distinct field paths, to the same query but for the sort. -/
theorem compile_resorted (compiled : compile node = .ok query) (sorted : query.sort ≠ []) (nonempty : keys ≠ [])
    (distinct : (keys.map Prod.fst).Nodup) (usable : ∀ key ∈ keys, IsFieldPath key.1) :
    compile (node.resorted keys) =
      .ok { query with sort := keys.map fun key => (key.1, sortOrder key.2) } := by
  obtain ⟨⟨rooted, -⟩, sound, apart, rfl⟩ := compile_eq_ok_iff.1 compiled
  rw [compile_eq_ok_iff]
  refine ⟨⟨by simpa [Node.resorted, partsOf] using rooted, _, _, rfl⟩, ?sound, ?apart, ?query⟩
  case sound =>
    refine List.forall_mem_map.2 fun part mem => ?_
    rw [Node.resort]
    split
    · exact isSound_sortArguments nonempty distinct usable
    · exact sound part mem
  case apart =>
    -- Which slots a part fills and needs does not depend on its sort.
    refine List.pairwise_map.2 (apart.imp fun {a b} apart => ?_)
    rw [Apart, contribution_resort keys a, contribution_resort keys b]
    exact apart
  case query =>
    change _ = (merged ((partsOf node).map (Node.resort keys))).finish
    rw [merged_resort, flatMap_sort_resort sound apart sorted]
    rfl

/-! ## Columns -/

theorem outputName?_node (added : Accumulator) : added.node.outputName? = some added.resultName := by
  cases added with
  | count => rfl
  | fold function field => cases function <;> rfl

/-- The output names of columns are those of the aggregate functions among them. -/
theorem names_of_gathers {columns : List Node} (gathers : aggregation.Gathers columns) :
    aggregation.accumulators.names = columns.filterMap Node.outputName? := by
  have noName (column : Node) (mem : column ∈ columns) (other : column.isAggregate = false) :
      column.outputName? = none := by
    have isField := (gathers.each column mem).resolve_right (by simp [other])
    cases column <;> simp [Node.isField] at isField
    rfl
  have named : ∀ entry ∈ aggregation.accumulators, entry.2.node.outputName? = some entry.1 :=
    fun entry mem => by rw [outputName?_node, gathers.functions.named entry mem]
  rw [← filterMap_filter noName, gathers.functions.functions, List.filterMap_map]
  exact ((List.filterMap_congr named).trans (congrFun List.filterMap_eq_map' _)).symm

/-- What a grouping query sorts by lies in columns if the keys of its tree do. -/
theorem sortsColumns_iff (compiled : compile node = .ok query) (grouped : query.aggregation = some aggregation) :
    query.SortsColumns ↔ ∀ path ∈ query.sort.names,
      outermost path = "_id" ∨ outermost path ∈ node.columns.filterMap Node.outputName? := by
  have gathers := gathers_of_compile compiled grouped
  have names : Fields.names aggregation.body = "_id" :: node.columns.filterMap Node.outputName? := by
    rw [gathers.isUnclashed.names_body, names_of_gathers gathers]
  simp only [DocumentQuery.SortsColumns, grouped, Option.mem_def, Option.some.injEq, forall_eq', names,
    List.mem_cons]

/-- The sort stage of a grouping query stands right behind its group stage. -/
theorem pipeline_of_sorted_groups (grouped : query.aggregation = some aggregation) (sorted : query.sort ≠ []) :
    ∃ before behind, query.pipeline = before ++ DocumentQuery.stage "$group" (.object aggregation.body) ::
      DocumentQuery.stage "$sort" (.object query.sortBody) :: behind := by
  have isSorted : query.sort.isEmpty = false := by simpa using sorted
  simp only [DocumentQuery.pipeline, grouped, isSorted, List.append_assoc, Option.map_some, Option.toList_some,
    Bool.false_eq_true, if_false, List.singleton_append]
  exact ⟨_, _, rfl⟩

/-- **What sorted groups are sorted by.** The sort stage stands right behind the group stage, whose fields are `_id`
and the output names of the aggregate functions, and its keys are those of the one `sort` as they stand. So it sorts
by columns exactly if the outermost name of each key is one of these names. Nothing asks for that: any other keys by
distinct field paths in the place of these are taken as well. -/
theorem sortsColumns_iff_of_ofText {text : String} (read : DocumentQuery.ofText text = .ok query)
    (grouped : query.aggregation = some aggregation) (sorted : query.sort ≠ []) :
    ∃ node sort keys, parse text = .ok node ∧ compile node.normalize = .ok query ∧
      (partsOf node.normalize).filter (Node.applies [.sort]) = [sort] ∧ sort.sortKeys? = some keys ∧
      (∃ before behind, query.pipeline = before ++
        DocumentQuery.stage "$group" (.object aggregation.body) ::
        DocumentQuery.stage "$sort" (.object (keys.map fun key => (key.1, .integer (sortOrder key.2)))) ::
        behind) ∧
      (query.SortsColumns ↔ ∀ key ∈ keys, outermost key.1 = "_id" ∨
        outermost key.1 ∈ node.normalize.columns.filterMap Node.outputName?) ∧
      ∀ others : List (String × Direction), others ≠ [] → (others.map Prod.fst).Nodup →
        (∀ key ∈ others, IsFieldPath key.1) → compile (node.normalize.resorted others) =
          .ok { query with sort := others.map fun key => (key.1, sortOrder key.2) } := by
  obtain ⟨-, rfl⟩ | ⟨-, node, parsed, compiled⟩ := DocumentQuery.ofText_eq_ok_iff.1 read
  · exact absurd rfl sorted
  obtain ⟨-, sound, apart, made⟩ := compile_eq_ok_iff.1 compiled
  obtain ⟨-, unsorted⟩ | ⟨sort, keys, one, given, same⟩ := (made ▸ carries_merged sound apart).sort
  · exact absurd unsorted sorted
  refine ⟨node, sort, keys, parsed, compiled, one, given, ?_, ?_, fun others nonempty distinct usable =>
    compile_resorted compiled sorted nonempty distinct usable⟩
  · have stages := pipeline_of_sorted_groups grouped sorted
    rwa [DocumentQuery.sortBody, same, List.map_map] at stages
  · rw [sortsColumns_iff compiled grouped, same, Fields.names, List.map_map, List.forall_mem_map]
    rfl

/-- Groups of one field with the sum of another one, sorted by some path. -/
def paidGroups (path : String) : DocumentQuery where
  sort := [(path, 1)]
  aggregation := some ⟨["dept"], [("sum_pay", .fold .sum "pay")]⟩

/-- Groups that are sorted by their sums are sorted by a column, and with the key of the groups in the place of the
sums they are not. -/
theorem sortsColumns_of_paidGroups :
    DocumentQuery.ofText "aggregate(dept,sum(pay))&sort(sum_pay)" = .ok (paidGroups "sum_pay") ∧
      (paidGroups "sum_pay").SortsColumns ∧ ¬(paidGroups "dept").SortsColumns ∧
      ∃ node, parse "aggregate(dept,sum(pay))&sort(sum_pay)" = .ok node ∧
        compile (node.normalize.resorted [("dept", .ascending)]) = .ok (paidGroups "dept") := by
  have read : DocumentQuery.ofText "aggregate(dept,sum(pay))&sort(sum_pay)" = .ok (paidGroups "sum_pay") := by
    decide +kernel
  have tree : parse "aggregate(dept,sum(pay))&sort(sum_pay)" = .ok (.apply .and
      [.apply .aggregate [.field "dept", .apply .sum [.field "pay"]],
        .apply .sort [.sortKey "sum_pay" .ascending]]) := by
    decide +kernel
  obtain ⟨node, sort, keys, parsed, -, one, given, -, sorts, others⟩ :=
    sortsColumns_iff_of_ofText read rfl (List.cons_ne_nil _ _)
  obtain rfl := Except.ok.inj (tree.symm.trans parsed)
  obtain rfl : .apply .sort [.sortKey "sum_pay" .ascending] = sort := List.singleton_inj.1 one
  obtain rfl : [("sum_pay", .ascending)] = keys := Option.some.inj given
  refine ⟨read, sorts.2 (by decide), fun sorted => ?_, _, parsed, others _ (by decide) (by decide) (by decide)⟩
  exact absurd (sorted _ rfl "dept" List.mem_cons_self) (by decide)

/-- Groups that are sorted by the key they are grouped by, which is a column of theirs only below `_id`. -/
theorem not_sortsColumns_all :
    ¬∀ text query, DocumentQuery.ofText text = .ok query → query.SortsColumns := by
  intro all
  have read : DocumentQuery.ofText "aggregate(dept,sum(pay))&sort(dept)" = .ok (paidGroups "dept") := by
    decide +kernel
  exact absurd (all _ _ read _ rfl "dept" List.mem_cons_self) (by decide)

end Compilation
end ResourceQuery
