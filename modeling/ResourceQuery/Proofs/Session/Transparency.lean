import ResourceQuery.Session

/-!
# Remembered trees change no answer

A session answers from what it remembers where it can. `Settings.answer` is the answer that a call
has by itself, with no session around it. Main statement: in every run of calls, whatever the
settings, each call gets the answer it has by itself, and a call that reads no query leaves the
cache as it was.
-/

namespace ResourceQuery
set_option autoImplicit false

namespace Cache

/-- Remembering adds nothing but the new tree. -/
theorem mem_of_mem_remember {capacity : Nat} {cache : Cache} {query : String} {tree : Stamped}
    {entry : String × Stamped} (mem : entry ∈ cache.remember capacity query tree) :
    entry = (query, tree) ∨ entry ∈ cache := by
  unfold remember at mem
  split at mem
  · exact .inr mem
  · rcases List.mem_append.1 mem with old | new
    · exact .inr (List.mem_of_mem_drop old)
    · exact .inl (List.mem_singleton.1 new)

end Cache

namespace Session

/-! ## Calls -/

/-- A call of a session. -/
inductive Call : Type 1
  | parse (query : String)
  | compile (query : String)
  | answerWith {β : Type} (backend : Backend β) (query : String)
  | forget

namespace Call

/-- What a call returns. A tree counts by its value, not by the time it was made. -/
def Answer : Call → Type
  | parse _ => Except ParseError Node
  | compile _ => Except QueryError DocumentQuery
  | @answerWith β _ _ => Except QueryError β
  | forget => Unit

/-- The answer says that the query of the call could not be parsed. -/
def IsParseFailure : (call : Call) → call.Answer → Prop
  | parse _, answer => ∃ error, answer = .error error
  | compile _, answer => ∃ error, answer = .error (.parse error)
  | answerWith _ _, answer => ∃ error, answer = .error (.parse error)
  | forget, _ => False

/-- The call asks for the answer of a blank query. -/
def IsBlank : Call → Prop
  | compile query | answerWith _ query => Text.allBlank query = true
  | parse _ | forget => False

end Call

/-- What a session does at a call. -/
def perform (session : Session) : (call : Call) → call.Answer × Session
  | .parse query => ((session.parse query).1.map Stamped.node, (session.parse query).2)
  | .compile query => session.compile query
  | .answerWith backend query => session.answerWith backend query
  | .forget => ((), session.forget)

/-- What a session does at calls in a row: all answers, and the session in the end. -/
def performAll : Session → List Call → List ((call : Call) × call.Answer) × Session
  | session, [] => ([], session)
  | session, call :: calls =>
    let later := (session.perform call).2.performAll calls
    (⟨call, (session.perform call).1⟩ :: later.1, later.2)

/-! ## Answers without a session -/

namespace Settings
variable (settings : Settings)

/-- The tree of a query under the settings. -/
def tree (query : String) : Except ParseError Node :=
  (parseWithin settings.maxDepth query).map (Node.normalizeIf settings.normalize)

/-- What a backend makes of a query under the settings. -/
def answerWith {β : Type} (backend : Backend β) (query : String) : Except QueryError β :=
  if Text.allBlank query then .ok backend.blank
  else
    match settings.tree query with
    | .error error => .error (.parse error)
    | .ok node => (backend.compile node).mapError .compilation

/-- The answer that a call has by itself. -/
def answer : (call : Call) → call.Answer
  | .parse query => settings.tree query
  | .compile query => settings.answerWith .documentStore query
  | .answerWith backend query => settings.answerWith backend query
  | .forget => ()

/-- Under the default settings a query compiles to its document query. -/
theorem answer_compile_default (query : String) :
    answer {} (.compile query) = DocumentQuery.ofText query := by
  simp only [answer, answerWith, tree, DocumentQuery.ofText, ResourceQuery.parse,
    Backend.documentStore]
  split
  · rfl
  · cases parseWithin Surface.defaultMaxDepth query with
    | error error => rfl
    | ok node =>
      simp only [Except.map, Node.normalizeIf, if_true]
      cases Compilation.compile node.normalize <;> rfl

end Settings

/-! ## One call -/

variable {session : Session} {query : String}

/-- What a session remembers is what it would make of the query anew. -/
def IsFaithful (session : Session) : Prop :=
  ∀ entry ∈ session.cache, session.settings.tree entry.1 = .ok entry.2.node

/-- How a session finds the tree of a query. -/
inductive Parsed (session : Session) (query : String) : Except ParseError Stamped × Session → Prop
  | remembered {tree : Stamped} (known : session.cache.get? query = some tree) :
      Parsed session query (.ok tree, session)
  | refused {error : ParseError} (unknown : session.cache.get? query = none)
      (failed : session.settings.tree query = .error error) :
      Parsed session query (.error error, session)
  | made {node : Node} (unknown : session.cache.get? query = none)
      (read : session.settings.tree query = .ok node) :
      Parsed session query (.ok ⟨session.nextStamp, node⟩, { session with
        cache := session.cache.remember session.settings.capacity query ⟨session.nextStamp, node⟩
        nextStamp := session.nextStamp + 1 })

/-- A session finds a tree in one of these ways. -/
theorem parsed_parse (session : Session) (query : String) :
    Parsed session query (session.parse query) := by
  cases known : session.cache.get? query with
  | some tree => simpa only [parse, known] using Parsed.remembered known
  | none =>
    cases read : parseWithin session.settings.maxDepth query with
    | error error =>
      simpa only [parse, known, read] using
        Parsed.refused known (by simp [Settings.tree, read, Except.map])
    | ok node =>
      simpa only [parse, known, read] using
        Parsed.made known (by simp [Settings.tree, read, Except.map])

/-- A query that no backend is asked for leaves the session as it is; any other is looked up. -/
theorem answerWith_snd {β : Type} (backend : Backend β) (session : Session) (query : String) :
    (session.answerWith backend query).2 =
      if Text.allBlank query then session else (session.parse query).2 := by
  unfold answerWith
  split
  · rfl
  · cases session.parse query with
    | mk answer next =>
      cases answer with
      | error error => rfl
      | ok tree =>
        dsimp only
        cases backend.compile tree.node <;> rfl

/-- A faithful session answers with the tree that the settings give, and stays faithful. -/
theorem IsFaithful.parse (faithful : session.IsFaithful) (query : String) :
    (session.parse query).1.map Stamped.node = session.settings.tree query ∧
      (session.parse query).2.IsFaithful ∧
      (session.parse query).2.settings = session.settings := by
  have way := parsed_parse session query
  generalize session.parse query = result at way
  cases way with
  | @remembered tree known =>
    exact ⟨(faithful _ (Fields.mem_of_get?_eq_some known)).symm, faithful, rfl⟩
  | refused unknown failed => exact ⟨failed.symm, faithful, rfl⟩
  | made unknown read =>
    refine ⟨read.symm, fun entry mem => ?_, rfl⟩
    rcases Cache.mem_of_mem_remember mem with rfl | mem
    · exact read
    · exact faithful entry mem

theorem IsFaithful.answerWith_fst {β : Type} (faithful : session.IsFaithful)
    (backend : Backend β) (query : String) :
    (session.answerWith backend query).1 = session.settings.answerWith backend query := by
  have same := (faithful.parse query).1
  unfold answerWith Settings.answerWith
  split
  · rfl
  · rw [← same]
    cases session.parse query with
    | mk answer next =>
      cases answer with
      | error error => rfl
      | ok tree =>
        simp only [Except.map]
        cases backend.compile tree.node <;> rfl

/-- A faithful session gives each call the answer it has by itself, and stays faithful. -/
theorem IsFaithful.perform (faithful : session.IsFaithful) (call : Call) :
    (session.perform call).1 = session.settings.answer call ∧
      (session.perform call).2.IsFaithful ∧
      (session.perform call).2.settings = session.settings := by
  have kept {β : Type} (backend : Backend β) (query : String) :
      (session.answerWith backend query).2.IsFaithful ∧
        (session.answerWith backend query).2.settings = session.settings := by
    rw [answerWith_snd]
    split
    · exact ⟨faithful, rfl⟩
    · exact (faithful.parse query).2
  cases call with
  | parse query => exact faithful.parse query
  | compile query => exact ⟨faithful.answerWith_fst .documentStore query, kept _ query⟩
  | answerWith backend query => exact ⟨faithful.answerWith_fst backend query, kept backend query⟩
  | forget => exact ⟨rfl, nofun, rfl⟩

/-- A query that cannot be parsed leaves the session as it is. -/
theorem parse_snd_of_error {error : ParseError} (failed : (session.parse query).1 = .error error) :
    (session.parse query).2 = session := by
  have way := parsed_parse session query
  generalize session.parse query = result at way failed
  cases way with
  | remembered | refused => rfl
  | made => simp at failed

/-- What is answered with a parse error was not parsed. -/
theorem parse_eq_error_of_answerWith {β : Type} {backend : Backend β} {error : ParseError}
    (failed : (session.answerWith backend query).1 = .error (.parse error)) :
    (session.parse query).1 = .error error := by
  unfold answerWith at failed
  split at failed
  · simp at failed
  · revert failed
    cases session.parse query with
    | mk answer next =>
      cases answer with
      | error error' => simp
      | ok tree => cases compiled : backend.compile tree.node <;> simp [compiled]

/-- A call that reads no query leaves the session as it is. -/
theorem perform_snd_of_unread {call : Call}
    (unread : call.IsParseFailure (session.perform call).1 ∨ call.IsBlank) :
    (session.perform call).2 = session := by
  have asked {β : Type} {backend : Backend β} {query : String}
      (unread : (∃ error, (session.answerWith backend query).1 = .error (.parse error)) ∨
        Text.allBlank query = true) : (session.answerWith backend query).2 = session := by
    rw [answerWith_snd]
    split
    · rfl
    · next notBlank =>
      obtain ⟨error, failed⟩ := unread.resolve_right notBlank
      exact parse_snd_of_error (parse_eq_error_of_answerWith failed)
  cases call with
  | parse query =>
    cases read : (session.parse query).1 with
    | error error => exact parse_snd_of_error read
    | ok tree =>
      obtain ⟨error, failed⟩ := unread.resolve_right id
      rw [perform, read] at failed
      cases failed
  | compile query => exact asked unread
  | answerWith backend query => exact asked unread
  | forget => exact unread.elim False.elim False.elim

/-! ## Runs -/

/-- A faithful session gives all calls in a row the answers they have by themselves. -/
theorem IsFaithful.performAll (calls : List Call) (faithful : session.IsFaithful) :
    (session.performAll calls).1 =
      calls.map fun call => ⟨call, session.settings.answer call⟩ := by
  induction calls generalizing session with
  | nil => rfl
  | cons call calls ih =>
    obtain ⟨answer, still, settings⟩ := faithful.perform call
    rw [Session.performAll, List.map_cons, answer, ih still, settings]

/-- **A cache changes no answer.** In any run of a session, whatever its settings, each call gets
the answer that it has by itself; under the default settings that of a query to be compiled is its
document query. Wherever a run has led, a query that cannot be parsed and a blank query that is to
be compiled leave the session, its cache included, as it is. -/
theorem answers_of_performAll (settings : Settings) (calls : List Call) :
    ((new settings).performAll calls).1 = calls.map (fun call => ⟨call, settings.answer call⟩) ∧
      (∀ query, Settings.answer {} (.compile query) = DocumentQuery.ofText query) ∧
      ∀ call, let reached := ((new settings).performAll calls).2
        call.IsParseFailure (reached.perform call).1 ∨ call.IsBlank →
          (reached.perform call).2 = reached := by
  have faithful : (new settings).IsFaithful := nofun
  exact ⟨faithful.performAll calls, Settings.answer_compile_default,
    fun _ => perform_snd_of_unread⟩

/-- With room for one tree, a query that cannot be parsed drops no tree, and neither does a blank
one. -/
theorem answers_of_performAll_one_tree :
    let reached := ((new { capacity := 1 }).performAll [.parse "a=1", .compile "b=2"]).2
    reached.cache.names = ["b=2"] ∧
      (reached.perform (.compile "b=(")).2 = reached ∧ (reached.perform (.compile " ")).2 = reached := by
  have kept := (answers_of_performAll { capacity := 1 } [.parse "a=1", .compile "b=2"]).2.2
  refine ⟨by decide +kernel, kept (.compile "b=(") (.inl ?_), kept (.compile " ") (.inr ?_)⟩
  · exact ⟨_, rfl⟩
  · show Text.allBlank " " = true
    decide +kernel

end Session
end ResourceQuery
