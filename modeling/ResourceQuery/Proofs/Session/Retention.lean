import Mathlib.Data.List.Induction
import ResourceQuery.Proofs.Session.Transparency

/-!
# How long a tree is remembered

The cache of a session is a queue: a tree that is made enters at its end and leaves at its front when
there is no more room, and looking it up does not move it. So after any run of calls the cache holds
the last trees that were inserted since it was forgotten. Main statement: a query is answered with the
very tree that was inserted for it last if nothing was forgotten and not too much was inserted since,
and else with a new one.
-/

namespace ResourceQuery
set_option autoImplicit false

/-- Under distinct names a value is found where it stands. -/
theorem Fields.get?_eq_some_of_mem {α : Type} {fields : Fields α} {name : String} {value : α}
    (distinct : fields.names.Nodup) (mem : (name, value) ∈ fields) :
    fields.get? name = some value := by
  induction fields with
  | nil => simp at mem
  | cons field rest ih =>
    obtain ⟨fresh, distinct⟩ := List.nodup_cons.1 distinct
    rcases List.mem_cons.1 mem with rfl | mem
    · simp [get?]
    · have other : field.1 ≠ name := by
        rintro rfl
        exact fresh (List.mem_map.2 ⟨_, mem, rfl⟩)
      simpa [get?, other] using ih distinct mem

namespace Cache

variable {capacity : Nat} {cache : Cache} {entry : String × Stamped}

/-- As many of the last entries as there is room for. -/
def newest (capacity : Nat) (entries : List (String × Stamped)) : Cache :=
  entries.drop (entries.length - capacity)

theorem newest_suffix (capacity : Nat) (entries : List (String × Stamped)) :
    newest capacity entries <:+ entries :=
  List.drop_suffix _ _

theorem length_newest_le (capacity : Nat) (entries : List (String × Stamped)) :
    (newest capacity entries).length ≤ capacity := by
  rw [newest, List.length_drop]
  omega

theorem newest_of_length_le (room : cache.length ≤ capacity) : newest capacity cache = cache := by
  rw [newest, Nat.sub_eq_zero_of_le room, List.drop_zero]

/-- What has dropped out of the queue makes no difference any more. -/
theorem newest_newest_append (capacity : Nat) (older later : List (String × Stamped)) :
    newest capacity (newest capacity older ++ later) = newest capacity (older ++ later) := by
  have dropped : older.length - capacity ≤ older.length := Nat.sub_le _ _
  have joined : newest capacity older ++ later =
      (older ++ later).drop (older.length - capacity) :=
    (List.drop_append_of_le_length dropped).symm
  rw [joined, newest, List.drop_drop, newest, List.length_drop, List.length_append]
  congr 1
  omega

/-- Where there is room at all, the entry that comes last is in the queue. -/
theorem newest_append_singleton (room : 0 < capacity) (cache : Cache) (entry : String × Stamped) :
    newest capacity (cache ++ [entry]) = makeRoom capacity cache ++ [entry] := by
  rw [newest, makeRoom, List.length_append, List.length_singleton,
    List.drop_append_of_le_length (by omega)]

/-- An entry is in the queue as long as fewer entries came behind it than there is room for. -/
theorem mem_newest_iff {older later : List (String × Stamped)} (behind : entry ∉ later) :
    entry ∈ newest capacity (older ++ entry :: later) ↔ later.length < capacity := by
  rw [newest, List.length_append, List.length_cons]
  constructor
  · intro mem
    by_contra full
    have gone : (older ++ entry :: later).drop (older.length + (later.length + 1) - capacity) <:+
        later := by
      refine List.suffix_of_suffix_length_le (List.drop_suffix _ _) ?_ ?_
      · exact ⟨older ++ [entry], by simp⟩
      · rw [List.length_drop, List.length_append, List.length_cons]
        omega
    exact behind (gone.subset mem)
  · intro room
    rw [List.drop_append_of_le_length (by omega)]
    exact List.mem_append_right _ List.mem_cons_self

end Cache

namespace Session

variable {session next : Session} {settings : Settings} {calls before later : List Call} {call : Call}
  {query : String} {tree : Stamped} {added : List (String × Stamped)}

/-! ## What calls do to the cache -/

/-- The query that a call looks up, if it looks one up. -/
def Call.query? : Call → Option String
  | .parse query => some query
  | .compile query | .answerWith _ query => if Text.allBlank query then none else some query
  | .forget => none

/-- The tree that a call works on, if there is one. -/
def tree? (session : Session) (call : Call) : Option Stamped :=
  call.query?.bind fun query => (session.parse query).1.toOption

/-- The entries that a call puts into the cache. -/
def inserted (session : Session) (call : Call) : List (String × Stamped) :=
  (session.perform call).2.cache.filter (· ∉ session.cache)

/-- The entries that calls in a row put into the cache, in their order. -/
def insertions : Session → List Call → List (String × Stamped)
  | _, [] => []
  | session, call :: calls => session.inserted call ++ (session.perform call).2.insertions calls

/-- The session after calls in a row. -/
def after (session : Session) (calls : List Call) : Session :=
  (session.performAll calls).2

@[simp] theorem after_nil (session : Session) : session.after [] = session := rfl

@[simp] theorem after_cons (session : Session) (call : Call) (calls : List Call) :
    session.after (call :: calls) = (session.perform call).2.after calls := rfl

theorem after_append (session : Session) (calls later : List Call) :
    session.after (calls ++ later) = (session.after calls).after later := by
  induction calls generalizing session with
  | nil => rfl
  | cons call calls ih => exact ih _

theorem insertions_append (session : Session) (calls later : List Call) :
    session.insertions (calls ++ later) =
      session.insertions calls ++ (session.after calls).insertions later := by
  induction calls generalizing session with
  | nil => rfl
  | cons call calls ih =>
    rw [List.cons_append, insertions, insertions, ih, List.append_assoc, after_cons]

/-- How a session moves at a call, and what it puts into the cache. -/
inductive Moved (session : Session) : Call → List (String × Stamped) → Session → Prop
  /-- The query is blank or known, or it cannot be parsed. -/
  | kept {call : Call} : Moved session call [] session
  | forgot : Moved session .forget [] session.forget
  /-- A tree was made that there is no room for. -/
  | dropped {call : Call} (full : session.settings.capacity = 0) :
      Moved session call [] { session with nextStamp := session.nextStamp + 1 }
  | remembered {call : Call} {query : String} {node : Node}
      (asked : call.query? = some query) (room : 0 < session.settings.capacity)
      (unknown : query ∉ session.cache.names)
      (made : (session.parse query).1 = .ok ⟨session.nextStamp, node⟩) :
      Moved session call [(query, ⟨session.nextStamp, node⟩)] { session with
        cache := Cache.newest session.settings.capacity
          (session.cache ++ [(query, ⟨session.nextStamp, node⟩)])
        nextStamp := session.nextStamp + 1 }

theorem perform_snd_of_asked (session : Session) (asked : call.query? = some query) :
    (session.perform call).2 = (session.parse query).2 := by
  have answered {β : Type} {backend : Backend β} {text : String}
      (asked : (if Text.allBlank text then none else some text) = some query) :
      (session.answerWith backend text).2 = (session.parse query).2 := by
    rw [answerWith_snd]
    split at asked
    · simp at asked
    · next notBlank => rw [if_neg notBlank, Option.some.inj asked]
  cases call with
  | parse text => rw [perform, Option.some.inj asked]
  | compile text => exact answered asked
  | answerWith backend text => exact answered asked
  | forget => simp [Call.query?] at asked

theorem perform_snd_of_unasked (session : Session) (unasked : call.query? = none) :
    (session.perform call).2 = session ∨ call = .forget := by
  have blank {text : String} (unasked : (if Text.allBlank text then none else some text) = none) :
      Text.allBlank text = true := by
    by_contra notBlank
    simp [notBlank] at unasked
  cases call with
  | parse text => exact nomatch unasked
  | compile text => exact .inl (perform_snd_of_unread (.inr (blank unasked)))
  | answerWith backend text => exact .inl (perform_snd_of_unread (.inr (blank unasked)))
  | forget => exact .inr rfl

/-- Nothing is new in a cache whose entries were there before. -/
theorem inserted_eq_nil (known : ∀ entry ∈ (session.perform call).2.cache, entry ∈ session.cache) :
    session.inserted call = [] :=
  List.filter_eq_nil_iff.2 fun entry mem => by simpa using known entry mem

/-- A call moves a session in one of these ways. -/
theorem moved_perform (session : Session) (call : Call) :
    Moved session call (session.inserted call) (session.perform call).2 := by
  cases asked : call.query? with
  | none =>
    rcases perform_snd_of_unasked session asked with same | rfl
    · rw [inserted_eq_nil fun entry mem => same ▸ mem, same]
      exact .kept
    · rw [inserted_eq_nil fun entry mem => absurd mem List.not_mem_nil]
      exact .forgot
  | some query =>
    have moved := perform_snd_of_asked session asked
    have way := parsed_parse session query
    rw [inserted, moved]
    generalize result : session.parse query = found at way ⊢
    cases way with
    | remembered | refused =>
      rw [List.filter_eq_nil_iff.2 fun entry mem => by simpa using mem]
      exact .kept
    | @made node unknown read =>
      have fresh := Fields.get?_eq_none_iff.1 unknown
      have unheard : (query, (⟨session.nextStamp, node⟩ : Stamped)) ∉ session.cache :=
        fun mem => fresh (List.mem_map.2 ⟨_, mem, rfl⟩)
      by_cases full : session.settings.capacity = 0
      · simp only [Cache.remember, full, true_or, if_true]
        rw [List.filter_eq_nil_iff.2 fun entry mem => by simpa using mem]
        exact .dropped full
      · have room : 0 < session.settings.capacity := Nat.pos_of_ne_zero full
        have known : ∀ entry ∈ Cache.makeRoom session.settings.capacity session.cache,
            entry ∈ session.cache := fun entry mem => List.mem_of_mem_drop mem
        simp only [Cache.remember, full, unknown, Option.isSome_none, Bool.false_eq_true, or_self,
          if_false]
        rw [List.filter_append, List.filter_eq_nil_iff.2 fun entry mem => by
            simpa using known entry mem, ← Cache.newest_append_singleton room]
        simpa [unheard] using Moved.remembered asked room fresh (by rw [result])

/-- A call inserts an entry exactly when there is room at all and the call parses a query that is not
remembered. -/
theorem mem_inserted_iff :
    (query, tree) ∈ session.inserted call ↔ 0 < session.settings.capacity ∧
      call.query? = some query ∧ query ∉ session.cache.names ∧
      (session.parse query).1 = .ok tree := by
  constructor
  · intro mem
    have moved := moved_perform session call
    generalize session.inserted call = added, (session.perform call).2 = next at moved mem
    cases moved with
    | kept | forgot | dropped => simp at mem
    | remembered asked room unknown made =>
      obtain ⟨rfl, rfl⟩ := Prod.mk.inj (List.mem_singleton.1 mem)
      exact ⟨room, asked, unknown, made⟩
  · rintro ⟨room, asked, unknown, made⟩
    have way := parsed_parse session query
    have moved := perform_snd_of_asked session asked
    have fresh := Fields.get?_eq_none_iff.2 unknown
    rw [inserted, moved]
    generalize session.parse query = found at way made
    cases way with
    | remembered known => simp [known] at fresh
    | refused => exact nomatch made
    | made =>
      obtain rfl := Except.ok.inj made
      have full : session.settings.capacity ≠ 0 := Nat.ne_of_gt room
      rw [List.mem_filter, decide_eq_true_iff]
      refine ⟨?_, fun mem => unknown (List.mem_map.2 ⟨_, mem, rfl⟩)⟩
      simp [Cache.remember, full, fresh]

/-- A known query is looked up, and that is all. -/
theorem perform_snd_of_known (asked : call.query? = some query)
    (known : query ∈ session.cache.names) : (session.perform call).2 = session := by
  rw [perform_snd_of_asked session asked]
  have way := parsed_parse session query
  generalize session.parse query = found at way
  cases way with
  | remembered | refused => rfl
  | made unknown => exact absurd known (Fields.get?_eq_none_iff.1 unknown)

/-! ## Runs -/

/-- No more trees than there is room for, each under a query of its own, and each older than the trees
to come. -/
structure IsOrderly (session : Session) : Prop where
  bounded : session.cache.length ≤ session.settings.capacity
  distinct : session.cache.names.Nodup
  stamped : ∀ entry ∈ session.cache, entry.2.stamp < session.nextStamp

theorem isOrderly_new (settings : Settings) : (new settings).IsOrderly :=
  ⟨Nat.zero_le _, List.nodup_nil, nofun⟩

theorem Moved.settings_eq (moved : Moved session call added next) :
    next.settings = session.settings := by
  cases moved <;> rfl

theorem Moved.nextStamp_le (moved : Moved session call added next) :
    session.nextStamp ≤ next.nextStamp := by
  cases moved with
  | kept | forgot => exact Nat.le_refl _
  | dropped | remembered => exact Nat.le_succ _

theorem Moved.isOrderly (moved : Moved session call added next) (orderly : session.IsOrderly) :
    next.IsOrderly := by
  cases moved with
  | kept => exact orderly
  | forgot => exact ⟨Nat.zero_le _, List.nodup_nil, nofun⟩
  | dropped =>
    exact ⟨orderly.bounded, orderly.distinct, fun entry mem =>
      Nat.lt_succ_of_lt (orderly.stamped entry mem)⟩
  | @remembered _ query node asked room unknown made =>
    have kept := Cache.newest_suffix session.settings.capacity
      (session.cache ++ [(query, ⟨session.nextStamp, node⟩)])
    refine ⟨Cache.length_newest_le _ _, ?_, fun entry mem => ?_⟩
    · refine List.Nodup.sublist (kept.sublist.map Prod.fst) ?_
      rw [List.map_append, List.nodup_append]
      refine ⟨orderly.distinct, List.pairwise_singleton _ _, ?_⟩
      rintro name mem _ last rfl
      obtain rfl : name = query := by simpa using last
      exact unknown mem
    · rcases List.mem_append.1 (kept.subset mem) with old | last
      · exact Nat.lt_succ_of_lt (orderly.stamped entry old)
      · rw [List.mem_singleton.1 last]
        exact Nat.lt_succ_self _

/-- A tree that a call works on is older than the trees to come. -/
theorem stamp_lt_of_tree? (orderly : session.IsOrderly) (worked : session.tree? call = some tree) :
    tree.stamp < (session.perform call).2.nextStamp := by
  obtain ⟨query, asked, found⟩ := Option.bind_eq_some_iff.1 worked
  rw [perform_snd_of_asked session asked]
  have way := parsed_parse session query
  generalize session.parse query = result at way found
  cases way with
  | remembered known =>
    obtain rfl := Option.some.inj found
    exact orderly.stamped _ (Fields.mem_of_get?_eq_some known)
  | refused => exact nomatch found
  | made =>
    obtain rfl := Option.some.inj found
    exact Nat.lt_succ_self _

/-- What a run keeps. -/
theorem IsOrderly.after (orderly : session.IsOrderly) (calls : List Call) :
    (session.after calls).IsOrderly ∧ (session.after calls).settings = session.settings ∧
      session.nextStamp ≤ (session.after calls).nextStamp := by
  induction calls generalizing session with
  | nil => exact ⟨orderly, rfl, Nat.le_refl _⟩
  | cons call calls ih =>
    have moved := moved_perform session call
    obtain ⟨still, settings, later⟩ := ih (moved.isOrderly orderly)
    exact ⟨still, settings.trans moved.settings_eq, Nat.le_trans moved.nextStamp_le later⟩

/-- Nothing is in the cache but what was in it or was inserted, in that order. -/
theorem cache_after_suffix (session : Session) (calls : List Call) :
    (session.after calls).cache <:+ session.cache ++ session.insertions calls := by
  induction calls generalizing session with
  | nil => simp [insertions]
  | cons call calls ih =>
    have step : (session.perform call).2.cache <:+ session.cache ++ session.inserted call := by
      have moved := moved_perform session call
      generalize session.inserted call = added, (session.perform call).2 = next at moved
      cases moved with
      | kept | dropped => simp
      | forgot => exact List.nil_suffix
      | remembered => exact Cache.newest_suffix _ _
    refine (ih _).trans ?_
    obtain ⟨gone, same⟩ := step
    rw [insertions, ← List.append_assoc, ← same, List.append_assoc gone]
    exact List.suffix_append _ _

/-- As long as nothing is forgotten, the cache holds the newest of all entries. -/
theorem cache_after_of_unforgotten (bounded : session.cache.length ≤ session.settings.capacity)
    (unforgotten : Call.forget ∉ calls) :
    (session.after calls).cache =
      Cache.newest session.settings.capacity (session.cache ++ session.insertions calls) := by
  induction calls generalizing session with
  | nil => rw [insertions, List.append_nil, Cache.newest_of_length_le bounded, after_nil]
  | cons call calls ih =>
    obtain ⟨remembers, unforgotten⟩ := not_or.1 (mt List.mem_cons.2 unforgotten)
    have moved := moved_perform session call
    rw [after_cons, insertions]
    generalize session.inserted call = added, (session.perform call).2 = next at moved
    cases moved with
    | kept | dropped => exact ih bounded unforgotten
    | forgot => exact absurd rfl remembers
    | remembered =>
      rw [ih (Cache.length_newest_le _ _) unforgotten, Cache.newest_newest_append,
        List.append_assoc]

/-- Behind a call that forgets, nothing is in the cache but what was inserted since. -/
theorem cache_after_subset_of_forgotten (session : Session) (forgotten : Call.forget ∈ calls) :
    (session.after calls).cache ⊆ session.insertions calls := by
  obtain ⟨front, back, rfl⟩ := List.append_of_mem forgotten
  rw [after_append, insertions_append]
  have kept := (cache_after_suffix (session.after front).forget back).subset
  exact fun entry mem => List.mem_append_right _ (List.mem_append_right _ (kept mem))

/-! ## The latest insertion of a query -/

/-- What is inserted behind a call of a run from the start. -/
def insertedSince (settings : Settings) (before : List Call) (call : Call) (later : List Call) :
    List (String × Stamped) :=
  ((new settings).after (before ++ [call])).insertions later

/-- A call of a run from the start stored the tree for the query, and no later one stored another. -/
structure IsLatest (settings : Settings) (before : List Call) (call : Call) (later : List Call)
    (query : String) (tree : Stamped) : Prop where
  stored : (query, tree) ∈ ((new settings).after before).inserted call
  others : ∀ entry ∈ insertedSince settings before call later, entry.1 ≠ query

/-- Nothing was forgotten behind a call, and fewer trees were inserted than there is room for. -/
def Outlasts (settings : Settings) (before : List Call) (call : Call) (later : List Call) : Prop :=
  Call.forget ∉ later ∧ (insertedSince settings before call later).length < settings.capacity

/-- The tree is none that a call of the run has worked on. -/
def IsNew (settings : Settings) (calls : List Call) (tree : Stamped) : Prop :=
  ∀ before call later, calls = before ++ call :: later →
    ∀ old ∈ ((new settings).after before).tree? call, old.stamp ≠ tree.stamp

theorem after_append_cons (session : Session) (before : List Call) (call : Call)
    (later : List Call) :
    session.after (before ++ call :: later) = (session.after (before ++ [call])).after later := by
  rw [← after_append, List.append_assoc, List.singleton_append]

/-- The tree stored last for a query is in the cache exactly as long as its insertion outlasts what
came behind it. -/
theorem IsLatest.mem_cache_iff (latest : IsLatest settings before call later query tree) :
    (query, tree) ∈ ((new settings).after (before ++ call :: later)).cache ↔
      Outlasts settings before call later := by
  obtain ⟨stored, others⟩ := latest
  have unrepeated : (query, tree) ∉ insertedSince settings before call later :=
    fun mem => others _ mem rfl
  obtain ⟨orderly, sameSettings, -⟩ := (isOrderly_new settings).after (before ++ [call])
  -- Right behind its insertion the tree is the last one in the queue.
  obtain ⟨front, cache⟩ :
      ∃ front, ((new settings).after (before ++ [call])).cache = front ++ [(query, tree)] := by
    have moved := moved_perform ((new settings).after before) call
    rw [after_append, after_cons, after_nil]
    generalize ((new settings).after before).inserted call = added,
      (((new settings).after before).perform call).2 = next at moved stored
    cases moved with
    | kept | forgot | dropped => simp at stored
    | remembered asked room =>
      rw [List.mem_singleton.1 stored]
      exact ⟨_, Cache.newest_append_singleton room _ _⟩
  rw [after_append_cons, Outlasts]
  by_cases forgotten : Call.forget ∈ later
  · have gone := cache_after_subset_of_forgotten ((new settings).after (before ++ [call])) forgotten
    exact ⟨fun mem => absurd (gone mem) unrepeated, fun kept => absurd forgotten kept.1⟩
  · rw [cache_after_of_unforgotten orderly.bounded forgotten, sameSettings, cache,
      List.append_assoc, List.singleton_append]
    exact (Cache.mem_newest_iff unrepeated).trans (iff_and_self.2 fun _ => forgotten)

/-- Every tree in the cache was the last one stored for its query. -/
theorem exists_isLatest_of_mem (mem : (query, tree) ∈ ((new settings).after calls).cache) :
    ∃ before call later, calls = before ++ call :: later ∧
      IsLatest settings before call later query tree := by
  induction calls using List.reverseRecOn with
  | nil => exact nomatch mem
  | append_singleton calls call ih =>
    have moved := moved_perform ((new settings).after calls) call
    have insertedNow : ∀ before first later, calls = before ++ first :: later →
        insertedSince settings before first (later ++ [call]) =
          insertedSince settings before first later ++
            ((new settings).after calls).inserted call := by
      rintro before first later rfl
      rw [insertedSince, insertions_append, ← after_append_cons, insertions, insertions,
        List.append_nil, insertedSince]
    -- What was in the cache before the call is still the latest if the call stores another query.
    have stays (old : (query, tree) ∈ ((new settings).after calls).cache)
        (others : ∀ entry ∈ ((new settings).after calls).inserted call, entry.1 ≠ query) :
        ∃ before first later, calls ++ [call] = before ++ first :: later ∧
          IsLatest settings before first later query tree := by
      obtain ⟨before, first, later, split, latest⟩ := ih old
      refine ⟨before, first, later ++ [call], by simp [split], latest.stored, ?_⟩
      rw [insertedNow before first later split]
      exact List.forall_mem_append.2 ⟨latest.others, others⟩
    have now : insertedSince settings calls call [] = [] := rfl
    have storedNow (stored : (query, tree) ∈ ((new settings).after calls).inserted call) :
        IsLatest settings calls call [] query tree :=
      ⟨stored, by simp [now]⟩
    rw [after_append, after_cons, after_nil] at mem
    generalize added : ((new settings).after calls).inserted call = entries,
      (((new settings).after calls).perform call).2 = next at moved stays storedNow mem
    cases moved with
    | kept | dropped => exact stays mem nofun
    | forgot => exact nomatch mem
    | remembered asked room unknown =>
      rcases List.mem_append.1 ((Cache.newest_suffix _ _).subset mem) with old | last
      · refine stays old fun entry isLast same => unknown ?_
        rw [List.mem_singleton.1 isLast] at same
        exact List.mem_map.2 ⟨_, old, same.symm⟩
      · exact ⟨calls, call, [], rfl, storedNow last⟩

/-- A tree that is found was made anew or is in the cache. -/
theorem mem_cache_or_stamp_eq (found : (session.parse query).1 = .ok tree) :
    (query, tree) ∈ session.cache ∨ tree.stamp = session.nextStamp := by
  have way := parsed_parse session query
  generalize session.parse query = result at way found
  cases way with
  | remembered known =>
    obtain rfl := Except.ok.inj found
    exact .inl (Fields.mem_of_get?_eq_some known)
  | refused => exact nomatch found
  | made =>
    obtain rfl := Except.ok.inj found
    exact .inr rfl

/-- A tree in the cache is found. -/
theorem IsOrderly.parse_of_mem (orderly : session.IsOrderly) (mem : (query, tree) ∈ session.cache) :
    (session.parse query).1 = .ok tree := by
  rw [parse, Fields.get?_eq_some_of_mem orderly.distinct mem]

/-- The trees that a run has worked on are older than the trees to come. -/
theorem stamp_lt_after {old : Stamped} (worked : ((new settings).after before).tree? call = some old) :
    old.stamp < ((new settings).after (before ++ call :: later)).nextStamp := by
  obtain ⟨orderly, -, -⟩ := (isOrderly_new settings).after before
  have older := stamp_lt_of_tree? orderly worked
  obtain ⟨-, -, grown⟩ := ((moved_perform _ call).isOrderly orderly).after later
  rw [after_append, after_cons]
  exact Nat.lt_of_lt_of_le older grown

/-- The tree that an insertion stores is the one its call works on. -/
theorem IsLatest.tree?_eq (latest : IsLatest settings before call later query tree) :
    ((new settings).after before).tree? call = some tree := by
  obtain ⟨-, asked, -, found⟩ := mem_inserted_iff.1 latest.stored
  rw [tree?, asked, Option.bind_some, found]
  rfl

/-- The tree stored last for a query is found again exactly as long as its insertion outlasts what
came behind it. -/
theorem IsLatest.parse_eq_ok_iff (latest : IsLatest settings before call later query tree) :
    (((new settings).after (before ++ call :: later)).parse query).1 = .ok tree ↔
      Outlasts settings before call later := by
  obtain ⟨orderly, -, -⟩ := (isOrderly_new settings).after (before ++ call :: later)
  rw [← latest.mem_cache_iff]
  constructor
  · intro found
    rcases mem_cache_or_stamp_eq found with mem | same
    · exact mem
    · exact absurd same (Nat.ne_of_lt (stamp_lt_after latest.tree?_eq))
  · exact orderly.parse_of_mem

/-- A tree that is found is new exactly if it does not outlast what came behind its insertion. -/
theorem isNew_iff (found : (((new settings).after calls).parse query).1 = .ok tree) :
    IsNew settings calls tree ↔ ¬∃ before call later, calls = before ++ call :: later ∧
      IsLatest settings before call later query tree ∧ Outlasts settings before call later := by
  constructor
  · rintro isNew ⟨before, call, later, split, latest, -⟩
    exact isNew before call later split tree latest.tree?_eq rfl
  · intro unshared
    rcases mem_cache_or_stamp_eq found with mem | same
    · obtain ⟨before, call, later, rfl, latest⟩ := exists_isLatest_of_mem mem
      exact absurd ⟨before, call, later, rfl, latest, latest.mem_cache_iff.1 mem⟩ unshared
    · rintro before call later rfl old worked
      exact same ▸ Nat.ne_of_lt (stamp_lt_after worked)

/-! ## The cache as a queue -/

/-- What the cache of a session does over a run of calls. -/
structure IsQueue (settings : Settings) (calls : List Call) : Prop where
  bounded : ((new settings).after calls).cacheSize ≤ settings.capacity
  distinct : ((new settings).after calls).cache.names.Nodup
  /-- The cache holds the last entries that were inserted, in their order. -/
  ordered : ((new settings).after calls).cache <:+ (new settings).insertions calls
  /-- A call inserts just the tree that it parses, of a query that is not remembered. -/
  inserts : ∀ call query tree, (query, tree) ∈ ((new settings).after calls).inserted call ↔
    0 < settings.capacity ∧ call.query? = some query ∧
      query ∉ ((new settings).after calls).cache.names ∧
      (((new settings).after calls).parse query).1 = .ok tree
  /-- The tree stored last for a query is returned exactly if its insertion outlasts the rest. -/
  returns : ∀ before call later query tree, calls = before ++ call :: later →
    IsLatest settings before call later query tree →
      ((((new settings).after calls).parse query).1 = .ok tree ↔
        Outlasts settings before call later)
  /-- Any other tree that is returned is a new one. -/
  creates : ∀ query tree, (((new settings).after calls).parse query).1 = .ok tree →
    (IsNew settings calls tree ↔ ¬∃ before call later, calls = before ++ call :: later ∧
      IsLatest settings before call later query tree ∧ Outlasts settings before call later)
  /-- Without capacity no tree is remembered or returned twice. -/
  unshared : settings.capacity = 0 → ((new settings).after calls).cacheSize = 0 ∧
    ∀ query tree, (((new settings).after calls).parse query).1 = .ok tree →
      IsNew settings calls tree
  /-- A query that is remembered leaves everything in its place. -/
  hits : ∀ call query, call.query? = some query →
    query ∈ ((new settings).after calls).cache.names →
      (((new settings).after calls).perform call).2 = (new settings).after calls

/-- **The cache is a bounded queue.** In every run of a session, whatever its settings. -/
theorem isQueue_of_run (settings : Settings) (calls : List Call) : IsQueue settings calls := by
  obtain ⟨orderly, same, -⟩ := (isOrderly_new settings).after calls
  have sameCapacity : ((new settings).after calls).settings.capacity = settings.capacity := by
    rw [same]
    rfl
  have bounded : ((new settings).after calls).cacheSize ≤ settings.capacity :=
    sameCapacity ▸ orderly.bounded
  refine ⟨bounded, orderly.distinct, cache_after_suffix (new settings) calls, ?_, ?_, ?_, ?_, ?_⟩
  · intro call query tree
    rw [mem_inserted_iff, sameCapacity]
  · rintro before call later query tree rfl latest
    exact latest.parse_eq_ok_iff
  · exact fun query tree found => isNew_iff found
  · intro full
    refine ⟨Nat.le_zero.1 (full ▸ bounded), fun query tree found => (isNew_iff found).2 ?_⟩
    rintro ⟨before, call, later, -, -, -, room⟩
    exact absurd room (by simp [full])
  · exact fun call query asked known => perform_snd_of_known asked known

/-- With room for two trees, a third query drops the first one, though that was looked up again just
before. The second one keeps the tree that was made for it when it was compiled. -/
theorem isQueue_of_hit_and_eviction :
    let calls : List Call := [.parse "a=1", .compile "b=2", .parse "a=1", .parse "c=3"]
    let reached := (new { capacity := 2 }).after calls
    reached.cache.names = ["b=2", "c=3"] ∧
      (reached.parse "b=2").1 = .ok ⟨1, .apply .eq [.field "b", .literal (.integer 2)]⟩ := by
  intro calls reached
  have queue : IsQueue { capacity := 2 } calls := isQueue_of_run _ _
  have latest : IsLatest { capacity := 2 } [.parse "a=1"] (.compile "b=2")
      [.parse "a=1", .parse "c=3"] "b=2" ⟨1, .apply .eq [.field "b", .literal (.integer 2)]⟩ :=
    ⟨by decide +kernel, by decide +kernel⟩
  refine ⟨by decide +kernel, (queue.returns _ _ _ _ _ rfl latest).2 ⟨by simp, ?_⟩⟩
  decide +kernel

end Session
end ResourceQuery
