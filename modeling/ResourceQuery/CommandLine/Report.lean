import ResourceQuery.Text.Quoted

/-!
# Error reports

A report names the query that failed and lists the causes, each of the next one. The lines of a
cause are indented; where there are several causes they are numbered.
-/

namespace ResourceQuery.CommandLine
set_option autoImplicit false

/-- Indents the lines of a text, the first one differently from the others. -/
def indent (first others : List Char) (text : List Char) : List Char :=
  first ++ text.flatMap fun c => if c = '\n' then '\n' :: others else [c]

/-- A cause by itself. -/
def writeCause (text : String) : List Char :=
  indent (List.replicate 4 ' ') (List.replicate 4 ' ') text.toList

/-- A cause with its number, which takes five columns. -/
def writeNumberedCause (number : Nat) (text : String) : List Char :=
  let digits := Nat.toDigits 10 number
  indent (List.replicate (5 - digits.length) ' ' ++ digits ++ [':', ' '])
    (List.replicate 7 ' ') text.toList

/-- The lines of all causes. -/
def writeCauses : List String → List Char
  | [only] => writeCause only
  | causes =>
    ['\n'].intercalate (causes.zipIdx.map fun (text, number) => writeNumberedCause number text)

/-- The report on a query that failed. -/
def report (query : String) (causes : List String) : String :=
  s!"Error: query {Text.quoted query}\n\nCaused by:\n" ++ String.ofList (writeCauses causes) ++ "\n"

end ResourceQuery.CommandLine
