import ResourceQuery.Proofs.Compilation.Contributions
import ResourceQuery.Proofs.Compilation.Directives

/-!
# Compiling part by part

`contribution` says of every part what it adds to a query, and `IsSound` which parts would compile
by themselves. Main statement: a tree compiles exactly when each of its parts would by itself and no
two of them exclude each other, and what it compiles to is what its parts make together.
-/

namespace ResourceQuery.Compilation
set_option autoImplicit false
open Fallible

variable {op : Operator} {args seen : List Node} {part : Node} {draft next : Draft}

/-! ## Sound parts -/

/-- A part that would compile by itself. -/
inductive IsSound : Node → Prop
  | sort {args : List Node} (nonempty : args ≠ []) (keys : ∀ arg ∈ args, IsSortKey arg)
      (distinct : (args.filterMap sortName?).Nodup) : IsSound (.apply .sort args)
  | projection {op : Operator} {args : List Node} (named : op = .select ∨ op = .values)
      (nonempty : args ≠ []) (fields : ∀ arg ∈ args, IsField arg) : IsSound (.apply op args)
  | limit {count : Node} {limit : Nat} (read : count? count = some limit) :
      IsSound (.apply .limit [count])
  | limitAndSkip {count start : Node} {limit skip : Nat} (read : count? count = some limit)
      (readStart : count? start = some skip) : IsSound (.apply .limit [count, start])
  | distinct : IsSound (.apply .distinct [])
  | aggregate {args : List Node} (nonempty : args ≠ []) (columns : ∀ arg ∈ args, IsColumn arg)
      (keys : (args.filterMap keyName?).Nodup) (results : (args.filterMap resultName?).Nodup) :
      IsSound (.apply .aggregate args)
  | function {part : Node} (function : IsFunction part) : IsSound part
  | predicate {part : Node} {filter : Document} (condition : part.shapesResult = false)
      (compiled : predicate part = .ok filter) : IsSound part

/-- An aggregate function is an application of an operator that aggregates. -/
theorem IsFunction.exists_apply (function : IsFunction part) :
    ∃ op args, part = .apply op args ∧ op.role = .aggregate := by
  obtain ⟨added, read, -⟩ := function
  obtain ⟨op, args⟩ | _ | _ | _ | _ := part
  · refine ⟨op, args, rfl, ?_⟩
    by_contra role
    simp [accumulator?_of_role_ne role] at read
  all_goals simp [accumulator?] at read

/-! ## What a part adds -/

/-- What a part adds to a query. -/
def contribution : Node → Contribution
  | .apply .sort args => { slot := some .sort, sort := args.filterMap sortField? }
  | .apply .select args =>
    { slot := some .projection, projection := some ⟨args.filterMap Node.path?, false⟩ }
  | .apply .values args =>
    { slot := some .projection, projection := some ⟨args.filterMap Node.path?, true⟩ }
  | .apply .limit args =>
    { slot := some .limit, limit := args[0]?.bind count?, skip := args[1]?.bind count? }
  | .apply .distinct _ => { slot := some .distinct }
  | .apply .aggregate args => { slot := some .grouping, columns := some (columns args) }
  | node =>
    match output? node with
    | some (name, added) =>
      { slot := some (.result name), columns := some ⟨[], [(name, added)]⟩ }
    | none => { filter := (predicate node).toOption }

/-- An aggregate function adds an accumulator under its output name. -/
theorem contribution_of_function {added : Accumulator} (read : accumulator? part = some added) :
    contribution part =
      { slot := some (.result added.resultName),
        columns := some ⟨[], [(added.resultName, added)]⟩ } := by
  have output : output? part = some (added.resultName, added) := by rw [output?, read]; rfl
  obtain ⟨op, args⟩ | _ | _ | _ | _ := part
  · have role : op.role = .aggregate := by
      by_contra role
      simp [accumulator?_of_role_ne role] at read
    cases op <;> simp [Operator.role] at role <;> simp only [contribution, output]
  all_goals simp [accumulator?] at read

/-- A condition adds a filter. -/
theorem contribution_of_condition (condition : part.shapesResult = false) :
    contribution part = { filter := (predicate part).toOption } := by
  obtain ⟨op, args⟩ | _ | _ | _ | _ := part
  · have role : op.role ≠ .aggregate := by
      intro role
      simp [Node.shapesResult, role] at condition
    have output : output? (.apply op args) = none := by
      rw [output?, accumulator?_of_role_ne role, Option.map_none]
    cases op <;> simp [Node.shapesResult, Operator.role] at condition <;>
      simp only [contribution, output]
  all_goals rfl

/-- The filter of a part is what it compiles to as a condition. -/
theorem predicate_of_contribution {filter : Document}
    (found : (contribution part).filter = some filter) : predicate part = .ok filter := by
  unfold contribution at found
  split at found
  case h_7 =>
    -- A part without a directive at its root.
    split at found
    · simp at found
    · cases compiled : predicate part <;> simp_all [Except.toOption]
  all_goals simp at found

/-- A part that would compile by itself holds just what its slot stands for. -/
theorem IsSound.isFilled (sound : IsSound part) : (contribution part).IsFilled := by
  cases sound with
  | sort nonempty keys =>
    obtain ⟨first, others, rfl⟩ := List.exists_cons_of_ne_nil nonempty
    obtain ⟨path, direction, rfl, -⟩ := keys first List.mem_cons_self
    constructor <;> simp [contribution, sortField?, Node.sortKey?, Slot.groups]
  | projection named =>
    rcases named with rfl | rfl <;> constructor <;> simp [contribution, Slot.groups]
  | limit read => constructor <;> simp [contribution, read, Slot.groups]
  | limitAndSkip read readStart => constructor <;> simp [contribution, read, Slot.groups]
  | distinct => constructor <;> simp [contribution, Slot.groups]
  | aggregate => constructor <;> simp [contribution, Slot.groups]
  | function function =>
    obtain ⟨added, read, -⟩ := function
    constructor <;> simp [contribution_of_function read, Slot.groups, Fields.names]
    exact fun name => eq_comm
  | predicate condition => constructor <;> simp [contribution_of_condition condition]

/-! ## Taking parts -/

/-- A draft takes only sound parts whose slots are free, and then holds what they add. -/
theorem sound_of_added (paged : draft.query.limit = none → draft.query.skip = none)
    (added : Added draft part next) :
    IsSound part ∧ (∀ slot ∈ (contribution part).slot, draft.Admits slot) ∧
      next = draft.push (contribution part) := by
  cases added with
  | sort fresh nonempty read =>
    obtain ⟨keys, distinct, rfl⟩ := foldlM_addSortKey_eq_ok.1 read
    refine ⟨.sort nonempty keys distinct, by rintro _ ⟨⟩; exact fresh, ?_⟩
    simp [Draft.push, contribution, fresh]
  | projection named fresh ungrouped nonempty read =>
    obtain ⟨fields, rfl⟩ := mapM_fieldArgument_eq_ok.1 read
    refine ⟨.projection named nonempty fields, ?_, ?_⟩
    · rcases named with rfl | rfl <;> rintro _ ⟨⟩ <;> exact ⟨fresh, ungrouped⟩
    · rcases named with rfl | rfl <;> simp [Draft.push, contribution, fresh]
  | limit fresh read =>
    rw [countArgument_eq_ok] at read
    refine ⟨.limit read, by rintro _ ⟨⟩; exact fresh, ?_⟩
    simp [Draft.push, contribution, fresh, read]
  | limitAndSkip fresh read readStart =>
    rw [countArgument_eq_ok] at read readStart
    refine ⟨.limitAndSkip read readStart, by rintro _ ⟨⟩; exact fresh, ?_⟩
    simp [Draft.push, contribution, fresh, paged fresh, read, readStart]
  | distinct fresh =>
    refine ⟨.distinct, by rintro _ ⟨⟩; exact fresh, ?_⟩
    simp [Draft.push, contribution]
  | aggregate fresh unprojected nonempty read =>
    obtain ⟨columns, keys, results, rfl⟩ := foldlM_addAggregateArgument_eq_ok.1 read
    refine ⟨.aggregate nonempty columns keys results, ?_, ?_⟩
    · rintro _ ⟨⟩
      exact ⟨unprojected, fresh⟩
    · simp [Draft.push, contribution, fresh, besides, Aggregation.empty]
  | function role alone unprojected read =>
    obtain ⟨function, free, rfl⟩ := (accumulate_eq_ok role).1 read
    obtain ⟨added, isAdded, -⟩ := id function
    rw [contribution_of_function isAdded]
    refine ⟨.function function, ?_, ?_⟩
    · rintro _ ⟨⟩
      exact ⟨alone, unprojected, free _ (by rw [resultName?, isAdded]; rfl)⟩
    · simp [Draft.push, besides, output?, isAdded]
  | predicate condition compiled =>
    rw [contribution_of_condition condition]
    refine ⟨.predicate condition compiled, ?_, ?_⟩
    · simp
    · simp [Draft.push, compiled, Except.toOption]

/-- A sound part can be taken when its slot is free. -/
theorem exists_added (sound : IsSound part)
    (free : ∀ slot ∈ (contribution part).slot, draft.Admits slot) :
    ∃ next, Added draft part next := by
  cases sound with
  | sort nonempty keys distinct =>
    exact ⟨_, .sort (free _ rfl) nonempty (foldlM_addSortKey_eq_ok.2 ⟨keys, distinct, rfl⟩)⟩
  | projection named nonempty fields =>
    have free : draft.Admits .projection := by rcases named with rfl | rfl <;> exact free _ rfl
    exact ⟨_, .projection named free.1 free.2 nonempty
      (mapM_fieldArgument_eq_ok.2 ⟨fields, rfl⟩)⟩
  | limit read => exact ⟨_, .limit (free _ rfl) (countArgument_eq_ok.2 read)⟩
  | limitAndSkip read readStart =>
    exact ⟨_, .limitAndSkip (free _ rfl) (countArgument_eq_ok.2 read)
      (countArgument_eq_ok.2 readStart)⟩
  | distinct => exact ⟨_, .distinct (free _ rfl)⟩
  | aggregate nonempty columns keys results =>
    have free : draft.Admits .grouping := free _ rfl
    exact ⟨_, .aggregate free.2 free.1 nonempty
      (foldlM_addAggregateArgument_eq_ok.2 ⟨columns, keys, results, rfl⟩)⟩
  | function function =>
    obtain ⟨op, args, rfl, role⟩ := function.exists_apply
    obtain ⟨added, read, -⟩ := id function
    obtain ⟨alone, unprojected, fresh⟩ : draft.Admits (.result added.resultName) :=
      free _ (by rw [contribution_of_function read]; rfl)
    have fresh : ∀ name ∈ resultName? (.apply op args),
        name ∉ (draft.query.aggregation.getD .empty).accumulators.names := by
      simpa [resultName?, read] using fresh
    exact ⟨_, .function role alone unprojected ((accumulate_eq_ok role).2 ⟨function, fresh, rfl⟩)⟩
  | predicate condition compiled => exact ⟨_, .predicate condition compiled⟩

/-! ## Whole compilations -/

/-- What parts make together. -/
def merged (parts : List Node) : Draft :=
  merge (parts.map contribution)

/-- Parts that can stand beside each other. -/
def Apart (a b : Node) : Prop :=
  (contribution a).Apart (contribution b)

/-- A part is taken behind others when it is sound and none of them is in its way. -/
theorem add_merged_eq_ok (sound : ∀ other ∈ seen, IsSound other) :
    Draft.add (merged seen) part = .ok next ↔
      IsSound part ∧ (∀ other ∈ seen, Apart other part) ∧ next = merged (seen ++ [part]) := by
  have filled : ∀ c ∈ seen.map contribution, c.IsFilled :=
    List.forall_mem_map.2 fun other mem => (sound other mem).isFilled
  have paged : (merged seen).query.limit = none → (merged seen).query.skip = none := by
    simp only [merged, merge, List.findSome?_eq_none_iff]
    exact fun unpaged c mem => (filled c mem).skip (unpaged c mem)
  have free : (∀ slot ∈ (contribution part).slot, (merged seen).Admits slot) ↔
      ∀ other ∈ seen, Apart other part := by
    simp only [merged, admits_merge filled, List.forall_mem_map]
    exact ⟨fun free other mem s taken slot wanted => free slot wanted other mem s taken,
      fun free slot wanted other mem s taken => free other mem s taken slot wanted⟩
  have pushed : merged (seen ++ [part]) = (merged seen).push (contribution part) := by
    rw [merged, List.map_append, List.map_singleton, merge_append_singleton, merged]
  rw [Draft.add_eq_ok, ← free, pushed]
  constructor
  · exact sound_of_added paged
  · rintro ⟨isSound, admitted, rfl⟩
    obtain ⟨next, added⟩ := exists_added isSound admitted
    exact (sound_of_added paged added).2.2 ▸ added

/-- Parts are taken one after the other when each of them is sound and no two are in each other's
way. -/
theorem foldlM_add_eq_ok {parts : List Node} :
    parts.foldlM Draft.add .empty = .ok draft ↔
      (∀ part ∈ parts, IsSound part) ∧ parts.Pairwise Apart ∧ draft = merged parts :=
  foldlM_eq_ok_iff merged fun _ _ _ sound => add_merged_eq_ok sound

/-- **Compiling part by part.** A tree compiles exactly when it has parts, each of which would
compile by itself and no two of which exclude each other. The query is what they make together. -/
theorem compile_eq_ok_iff {node : Node} {query : DocumentQuery} :
    compile node = .ok query ↔ (partsOf node ≠ [] ∧ ∃ op args, node = .apply op args) ∧
      (∀ part ∈ partsOf node, IsSound part) ∧ (partsOf node).Pairwise Apart ∧
      query = (merged (partsOf node)).finish := by
  simp only [compile_eq_ok, parts_eq_ok]
  constructor
  · rintro ⟨_, ⟨rfl, rooted⟩, draft, run, rfl⟩
    obtain ⟨sound, apart, rfl⟩ := foldlM_add_eq_ok.1 run
    exact ⟨rooted, sound, apart, rfl⟩
  · rintro ⟨rooted, sound, apart, rfl⟩
    exact ⟨_, ⟨rfl, rooted⟩, _, foldlM_add_eq_ok.2 ⟨sound, apart, rfl⟩, rfl⟩

end ResourceQuery.Compilation
