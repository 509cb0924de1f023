import ResourceQuery.CommandLine
import ResourceQuery.Proofs.Fallible
import ResourceQuery.Proofs.Rendering.Inline
import ResourceQuery.Proofs.Session.Transparency

/-!
# A run answers each query by itself

The queries of a run share a session, but no query sees another one: each gets the line that it gets
from a session of its own, up to the first query that fails. Unless JSON is wanted with line breaks, a
line of output has none, whatever the queries hold.

Main statement: the output of a run is made of the lines that the queries before the first failure have
by themselves.
-/

namespace ResourceQuery.CommandLine
set_option autoImplicit false
open Text

variable {options : Options} {session : Session} {query : String} {args : List String}

/-! ## One query -/

/-- What a query is answered under some settings, with no session around it. -/
def Options.answerUnder (options : Options) (settings : Session.Settings) (query : String) :
    Except (List String) String :=
  if options.ast then
    match settings.tree query with
    | .ok node => .ok node.render
    | .error error => .error [error.display]
  else
    match settings.answerWith .documentStore query with
    | .ok compiled => .ok (options.write compiled)
    | .error error => .error [error.message, error.cause]

/-- A session that remembers nothing wrong answers as its settings do, and goes on so. -/
theorem answer_of_isFaithful (faithful : session.IsFaithful) :
    (answer options session query).1 = options.answerUnder session.settings query ∧
      (answer options session query).2.IsFaithful ∧
      (answer options session query).2.settings = session.settings := by
  unfold answer Options.answerUnder
  cases options.ast with
  | true =>
    obtain ⟨same, kept⟩ := faithful.parse query
    rw [← same]
    generalize session.parse query = result at kept ⊢
    obtain ⟨tree | error, next⟩ := result <;> exact ⟨rfl, kept⟩
  | false =>
    have same := faithful.answerWith_fst .documentStore query
    have kept : (session.answerWith .documentStore query).2.IsFaithful ∧
        (session.answerWith .documentStore query).2.settings = session.settings :=
      (faithful.perform (.compile query)).2
    rw [← same, Session.compile]
    generalize session.answerWith .documentStore query = result at kept ⊢
    obtain ⟨error | compiled, next⟩ := result <;> exact ⟨rfl, kept⟩

/-- What a query is answered by a session of its own. -/
def Options.alone (options : Options) (query : String) : Except (List String) String :=
  (answer options options.session query).1

theorem Options.isFaithful_session (options : Options) : options.session.IsFaithful := nofun

/-- An answer is one line unless JSON is wanted with line breaks. -/
theorem isInline_of_alone {line : String} (plain : options.pretty = false ∨ options.ast = true)
    (answered : options.alone query = .ok line) : IsInline line.toList := by
  rw [Options.alone, (answer_of_isFaithful options.isFaithful_session).1, Options.answerUnder] at answered
  split at answered
  · split at answered
    · next node _ =>
      obtain rfl := Except.ok.inj answered
      rw [Node.render, String.toList_ofList]
      exact node.isInline_chars
    · simp at answered
  · next noTree =>
    split at answered
    · next compiled _ =>
      obtain rfl := Except.ok.inj answered
      have compact := plain.resolve_right noTree
      rw [Options.write, compact, if_neg Bool.false_ne_true, Json.compact, String.toList_ofList]
      exact Json.isInline_compactChars _
    · simp at answered

/-! ## All queries -/

/-- The queries of a run: those among the arguments, or the lines of the input if there are none. -/
def Options.queriesFrom (options : Options) (input : String) : List String :=
  if options.queries.isEmpty then (inputLines input.toList).map String.ofList else options.queries

/-- The result of a run over queries, told by what each query is answered by itself: some queries are
answered, each with a line, and what is left begins with the first one that fails, if any does. -/
structure Answers (options : Options) (queries : List String) (result : Result)
    (answered : List (String × String)) (left : List String) : Prop where
  split : queries = answered.map Prod.fst ++ left
  lines : ∀ pair ∈ answered, options.alone pair.1 = .ok pair.2
  output : result.output = String.join (answered.map fun pair => pair.2 ++ "\n")
  ending : (left = [] ∧ result.code = 0 ∧ result.errors = "") ∨
    ∃ failing others causes, left = failing :: others ∧ options.alone failing = .error causes ∧
      result.code = 1 ∧ result.errors = report failing causes

/-- Whatever the session remembers, one more query that is answered adds its line in front. -/
theorem Answers.cons {queries : List String} {result : Result} {answered : List (String × String)}
    {left : List String} {line : String} (alone : options.alone query = .ok line)
    (later : Answers options queries result answered left) :
    Answers options (query :: queries) { result with output := line ++ "\n" ++ result.output }
      ((query, line) :: answered) left where
  split := congrArg (query :: ·) later.split
  lines := List.forall_mem_cons.2 ⟨alone, later.lines⟩
  output := by simp [later.output, String.join_cons]
  ending := later.ending

/-- A session that remembers nothing wrong answers queries as each is answered by itself. -/
theorem exists_answers (queries : List String) (faithful : session.IsFaithful)
    (settings : session.settings = options.session.settings) :
    ∃ answered left, Answers options queries (answerAll options session queries) answered left := by
  induction queries generalizing session with
  | nil => exact ⟨[], [], rfl, nofun, rfl, .inl ⟨rfl, rfl, rfl⟩⟩
  | cons query queries ih =>
    obtain ⟨same, still, kept⟩ := @answer_of_isFaithful options session query faithful
    have alone : options.alone query = (answer options session query).1 := by
      rw [same, settings, Options.alone, (answer_of_isFaithful options.isFaithful_session).1]
    rw [answerAll]
    generalize answer options session query = result at alone still kept
    obtain ⟨causes | line, next⟩ := result
    · exact ⟨[], query :: queries, rfl, nofun, rfl, .inr ⟨query, queries, causes, rfl, alone, rfl, rfl⟩⟩
    · obtain ⟨answered, left, later⟩ := ih still (kept.trans settings)
      exact ⟨_, _, later.cons alone⟩

/-! ## Lines -/

/-- A line that stands before a line break is the first line. -/
theorem inputLines_append {line : List Char} (inline : IsInline line) (rest : List Char) :
    inputLines (line ++ '\n' :: rest) = line :: inputLines rest := by
  induction line with
  | nil => rfl
  | cons c cs ih =>
    obtain ⟨noBreak, noReturn⟩ := inline.ne_of_mem List.mem_cons_self
    rw [List.cons_append, inputLines, ih (isInline_cons.1 inline).2] <;> simp [noBreak, noReturn]

/-- The lines of an output are the lines that were printed. -/
theorem inputLines_join {lines : List String} (inline : ∀ line ∈ lines, IsInline line.toList) :
    (inputLines (String.join (lines.map (· ++ "\n"))).toList).map String.ofList = lines := by
  induction lines with
  | nil => rfl
  | cons line lines ih =>
    obtain ⟨head, tail⟩ := List.forall_mem_cons.1 inline
    have split : (String.join ((line :: lines).map (· ++ "\n"))).toList =
        line.toList ++ '\n' :: (String.join (lines.map (· ++ "\n"))).toList := by
      simp [String.join_cons]
    rw [split, inputLines_append head, List.map_cons, ih tail, String.ofList_toList]

/-! ## A run -/

/-- **Main.** A run with arguments that can be used answers its queries as if each had a session of its
own, and ends at the first that fails. Unless JSON is wanted with line breaks, no answer has a line
break, so that the lines of the output are the answers. -/
theorem exists_answers_run (usable : Options.ofArguments? args = some options) (input : String) :
    ∃ answered left, Answers options (options.queriesFrom input) (run args input) answered left ∧
      (options.pretty = false ∨ options.ast = true →
        (∀ pair ∈ answered, '\n' ∉ pair.2.toList) ∧
          (inputLines (run args input).output.toList).map String.ofList = answered.map Prod.snd) := by
  have same : run args input = answerAll options options.session (options.queriesFrom input) := by
    rw [run, usable]
    rfl
  obtain ⟨answered, left, answers⟩ :=
    exists_answers (options.queriesFrom input) options.isFaithful_session rfl
  rw [same]
  refine ⟨answered, left, answers, fun plain => ?_⟩
  have inline : ∀ pair ∈ answered, IsInline pair.2.toList := fun pair mem =>
    isInline_of_alone plain (answers.lines pair mem)
  refine ⟨fun pair mem broken => ((inline pair mem).ne_of_mem broken).1 rfl, ?_⟩
  have printed : answered.map (fun pair => pair.2 ++ "\n") =
      (answered.map Prod.snd).map (· ++ "\n") := by simp
  rw [answers.output, printed, inputLines_join (List.forall_mem_map.2 inline)]

/-- A line break in a value is escaped, a blank line asks for all documents, and nothing behind the third
line is answered, since that one nests too deep. -/
theorem exists_answers_run_mixed :
    ∃ options, Options.ofArguments? ["--max-depth=2", "--normalize", "false"] = some options ∧
      ∃ answered, Answers options ["or(a=x%0Ay)", "", "(((b=1)))", "c=1"]
          (run ["--max-depth=2", "--normalize", "false"] "or(a=x%0Ay)\r\n\n(((b=1)))\nc=1\n")
          answered ["(((b=1)))", "c=1"] ∧
        answered.map Prod.snd =
          ["\x7b\"filter\":\x7b\"$or\":[\x7b\"a\":\"x\\ny\"\x7d]\x7d\x7d",
            "\x7b\"filter\":\x7b\x7d\x7d"] := by
  have usable : Options.ofArguments? ["--max-depth=2", "--normalize", "false"] =
      some ⟨[], 2, false, false, false, false⟩ := by decide +kernel
  have queries : Options.queriesFrom ⟨[], 2, false, false, false, false⟩
      "or(a=x%0Ay)\r\n\n(((b=1)))\nc=1\n" = ["or(a=x%0Ay)", "", "(((b=1)))", "c=1"] := by
    decide +kernel
  have printed : (inputLines (run ["--max-depth=2", "--normalize", "false"]
      "or(a=x%0Ay)\r\n\n(((b=1)))\nc=1\n").output.toList).map String.ofList =
      ["\x7b\"filter\":\x7b\"$or\":[\x7b\"a\":\"x\\ny\"\x7d]\x7d\x7d",
        "\x7b\"filter\":\x7b\x7d\x7d"] := by decide +kernel
  obtain ⟨answered, left, answers, unbroken⟩ :=
    exists_answers_run usable "or(a=x%0Ay)\r\n\n(((b=1)))\nc=1\n"
  have lines := (unbroken (.inl rfl)).2.symm.trans printed
  rw [queries] at answers
  have two : answered.length = 2 := by simpa using congrArg List.length lines
  have rest : left = ["(((b=1)))", "c=1"] := by
    have split := congrArg (List.drop 2) answers.split
    rwa [List.drop_left' (by rw [List.length_map, two]), eq_comm] at split
  exact ⟨_, usable, answered, rest ▸ answers, lines⟩

end ResourceQuery.CommandLine
