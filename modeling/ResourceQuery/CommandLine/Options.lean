import ResourceQuery.Decimal.Numeral
import ResourceQuery.Surface.Grammar

/-!
# Options of the command line

Arguments are queries, flags and options with a value, in any order; after `--` all are queries.
Nothing may be given twice except queries.
-/

namespace ResourceQuery.CommandLine
set_option autoImplicit false

/-- What the command line asks for. -/
structure Options where
  /-- The queries to answer. If there are none, they are read from the input. -/
  queries : List String
  /-- How deep parentheses may be nested. -/
  maxDepth : Nat
  /-- JSON is written with line breaks. -/
  pretty : Bool
  /-- The tree of a query is printed as its canonical text. -/
  ast : Bool
  /-- The pipeline is printed instead of the document query. -/
  pipeline : Bool
  /-- Trees are normalized. -/
  normalize : Bool
deriving DecidableEq, Repr

/-- The arguments taken so far, `none` for what has not been given. -/
structure Given where
  queries : List String := []
  maxDepth : Option Nat := none
  pretty : Bool := false
  ast : Bool := false
  pipeline : Bool := false
  normalize : Option Bool := none
deriving DecidableEq, Repr

/-- How an argument reads. -/
inductive Argument
  /-- `--`: the rest are queries. -/
  | endOfOptions
  /-- `--name` or `--name=value`. -/
  | option (name : String) (value : Option String)
  /-- A dash and something behind it. No such option exists. -/
  | short
  | query (text : String)
deriving DecidableEq, Repr

/-- How an argument reads. A single dash is a query. -/
def Argument.ofText (text : String) : Argument :=
  match text.toList with
  | ['-', '-'] => .endOfOptions
  | '-' :: '-' :: cs =>
    let name := String.ofList (cs.takeWhile (· != '='))
    match cs.dropWhile (· != '=') with
    | [] => .option name none
    | _ :: value => .option name (some (String.ofList value))
  | '-' :: _ :: _ => .short
  | _ => .query text

/-- A nesting limit: digits behind an optional plus sign, below `2 ^ 64`. -/
def readDepth? (text : String) : Option Nat :=
  let digits :=
    match text.toList with
    | '+' :: cs => cs
    | cs => cs
  (Numeral.readNatural? digits).filter (· < 18446744073709551616)

/-- `true` or `false`. -/
def readSwitch? (text : String) : Option Bool :=
  if text = "true" then some true
  else if text = "false" then some false
  else none

namespace Given

/-- Takes a flag, which has no value and is given only once. -/
def addFlag? (given : Given) (name : String) : Option Given :=
  match name with
  | "pretty" => if given.pretty then none else some { given with pretty := true }
  | "ast" => if given.ast then none else some { given with ast := true }
  | "pipeline" => if given.pipeline then none else some { given with pipeline := true }
  | _ => none

/-- The option has a value. -/
def wantsValue (name : String) : Bool :=
  name == "max-depth" || name == "normalize"

/-- Takes an option with its value, which is given only once. -/
def addOption? (given : Given) (name value : String) : Option Given :=
  match name with
  | "max-depth" =>
    if given.maxDepth.isSome then none
    else (readDepth? value).map fun n => { given with maxDepth := some n }
  | "normalize" =>
    if given.normalize.isSome then none
    else (readSwitch? value).map fun b => { given with normalize := some b }
  | _ => none

/-- Takes a query. -/
def addQuery (given : Given) (text : String) : Given :=
  { given with queries := given.queries ++ [text] }

/-- Takes all arguments, or nothing if one of them cannot be used. The value of an option may be the
next argument, if that reads as a query. -/
def addAll? (given : Given) : List String → Option Given
  | [] => some given
  | text :: rest =>
    match Argument.ofText text with
    | .query query => (given.addQuery query).addAll? rest
    | .endOfOptions => some { given with queries := given.queries ++ rest }
    | .short => none
    | .option name (some value) => do (← given.addOption? name value).addAll? rest
    | .option name none =>
      if wantsValue name then
        match rest with
        | [] => none
        | value :: rest =>
          match Argument.ofText value with
          | .query value => do (← given.addOption? name value).addAll? rest
          | _ => none
      else do (← given.addFlag? name).addAll? rest

end Given

/-- What the arguments ask for, or nothing if they cannot be used. A tree and a pipeline cannot both
be asked for. -/
def Options.ofArguments? (args : List String) : Option Options := do
  let given ← ({} : Given).addAll? args
  if given.ast && given.pipeline then none
  else
    return {
      queries := given.queries
      maxDepth := given.maxDepth.getD Surface.defaultMaxDepth
      pretty := given.pretty
      ast := given.ast
      pipeline := given.pipeline
      normalize := given.normalize.getD true }

end ResourceQuery.CommandLine
