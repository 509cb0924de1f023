import ResourceQuery.CommandLine.Options
import ResourceQuery.CommandLine.Report
import ResourceQuery.Session
import ResourceQuery.Json.Writer

/-!
# The command line

Queries are answered one after the other by one session, each with a line of output. The first query
that fails ends the run with a report.
-/

namespace ResourceQuery.CommandLine
set_option autoImplicit false

/-- The lines of an input. A line ends with a line feed, and a carriage return right before that
does not belong to it. -/
def inputLines : List Char → List (List Char)
  | [] => []
  | '\n' :: cs => [] :: inputLines cs
  | '\r' :: '\n' :: cs => [] :: inputLines cs
  | c :: cs =>
    match inputLines cs with
    | [] => [[c]]
    | line :: lines => (c :: line) :: lines

/-- How a run ends. -/
structure Result where
  code : Nat
  output : String
  errors : String
deriving DecidableEq, Repr

/-- The session that the options ask for. -/
def Options.session (options : Options) : Session :=
  .new { maxDepth := options.maxDepth, normalize := options.normalize }

/-- A document query in the form the options ask for. -/
def Options.write (options : Options) (query : DocumentQuery) : String :=
  let value := if options.pipeline then .array query.pipeline else query.toJson
  if options.pretty then value.pretty else value.compact

/-- The line that answers a query, or the causes of its failure. -/
def answer (options : Options) (session : Session) (query : String) :
    Except (List String) String × Session :=
  if options.ast then
    match session.parse query with
    | (.ok tree, session) => (.ok tree.node.render, session)
    | (.error error, session) => (.error [error.display], session)
  else
    match session.compile query with
    | (.ok compiled, session) => (.ok (options.write compiled), session)
    | (.error error, session) => (.error [error.message, error.cause], session)

/-- Answers queries one after the other, up to the first that fails. -/
def answerAll (options : Options) (session : Session) : List String → Result
  | [] => ⟨0, "", ""⟩
  | query :: queries =>
    match answer options session query with
    | (.error causes, _) => ⟨1, "", report query causes⟩
    | (.ok line, session) =>
      let later := answerAll options session queries
      { later with output := line ++ "\n" ++ later.output }

/-- What is said about arguments that cannot be used, in short. -/
def usage : String :=
  "usage: [--max-depth N] [--pretty] [--ast | --pipeline] [--normalize BOOL] [QUERY]...\n"

/-- The queries are to be read from the input. -/
def readsInput (args : List String) : Bool :=
  match Options.ofArguments? args with
  | some options => options.queries.isEmpty
  | none => false

/-- A whole run with some arguments and an input. Asking for help (`--help`, `-h`) is left out: there is no
help to be printed, and it counts as arguments that cannot be used. -/
def run (args : List String) (input : String) : Result :=
  match Options.ofArguments? args with
  | none => ⟨2, "", usage⟩
  | some options =>
    let queries :=
      if options.queries.isEmpty then (inputLines input.toList).map String.ofList
      else options.queries
    answerAll options options.session queries

end ResourceQuery.CommandLine
