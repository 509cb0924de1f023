import ResourceQuery.Text.Blank
import ResourceQuery.Text.Span

/-!
# Parsers over a query

A parser reads from a cursor on and either finds a value, or misses, or finds that a parenthesis
is not closed. After a miss another alternative may be tried from the start; an unclosed
parenthesis ends the attempt altogether. A miss tells where it happened, and no parser goes back
to its start when it misses.
-/

namespace ResourceQuery.Surface
set_option autoImplicit false

/-- A place in a query: its byte position and the text from there on. -/
structure Cursor where
  offset : Nat
  rest : List Char
deriving DecidableEq, Repr

/-- The place behind some of the text. -/
def Cursor.skip (cursor : Cursor) (taken : List Char) : Cursor :=
  ⟨cursor.offset + Text.size taken, cursor.rest.drop taken.length⟩

/-- How an attempt to read ends. -/
inductive Outcome (α : Type)
  /-- A value was read up to a place. -/
  | found (value : α) (next : Cursor)
  /-- The text does not go on as expected from a place on. -/
  | missed (place : Cursor)
  /-- A parenthesis should have been closed at a place. -/
  | unclosed (place : Cursor)
deriving DecidableEq, Repr

/-- An attempt to read a value from a place on. -/
def Parser (α : Type) : Type := Cursor → Outcome α

namespace Parser

/-- Reads nothing. -/
def pure {α : Type} (value : α) : Parser α :=
  fun cursor => .found value cursor

/-- Reads one thing and goes on as its value says. -/
def bind {α β : Type} (parser : Parser α) (next : α → Parser β) : Parser β :=
  fun cursor =>
    match parser cursor with
    | .found value after => next value after
    | .missed place => .missed place
    | .unclosed place => .unclosed place

instance : Monad Parser where
  pure := pure
  bind := bind

/-- Reads a first thing, or after a miss a second one from the same place. -/
def orElse {α : Type} (first second : Parser α) : Parser α :=
  fun cursor =>
    match first cursor with
    | .missed _ => second cursor
    | outcome => outcome

/-- Reads a thing if it is there. -/
def optional {α : Type} (parser : Parser α) : Parser (Option α) :=
  orElse (some <$> parser) (pure none)

/-- From here on a miss means that a parenthesis is not closed. -/
def committed {α : Type} (parser : Parser α) : Parser α :=
  fun cursor =>
    match parser cursor with
    | .missed place => .unclosed place
    | outcome => outcome

/-- Reads a thing along with the span it takes. -/
def located {α : Type} (parser : Parser α) : Parser (α × Span) :=
  fun cursor =>
    match parser cursor with
    | .found value next => .found (value, ⟨cursor.offset, next.offset⟩) next
    | .missed place => .missed place
    | .unclosed place => .unclosed place

/-- Reads all characters of a class, be there none. -/
def characters (accepts : Char → Bool) : Parser (List Char) :=
  fun cursor =>
    let taken := cursor.rest.takeWhile accepts
    .found taken (cursor.skip taken)

/-- Reads a first character of one class and all characters of another behind it. -/
def word (opens continues : Char → Bool) : Parser (List Char) :=
  fun cursor =>
    match cursor.rest with
    | [] => .missed cursor
    | c :: rest =>
      if opens c then
        let taken := c :: rest.takeWhile continues
        .found taken (cursor.skip taken)
      else .missed cursor

/-- Reads one given character. -/
def symbol (c : Char) : Parser Unit :=
  fun cursor =>
    match cursor.rest with
    | d :: _ => if d = c then .found () (cursor.skip [c]) else .missed cursor
    | [] => .missed cursor

/-- Reads what may surround a delimiter. -/
def spacing : Parser Unit := do
  let _ ← characters Text.isSpacing
  return ()

/-- Reads a delimiter and the blanks around it. -/
def delimiter (c : Char) : Parser Unit := do
  spacing
  symbol c
  spacing

/-- Reads further elements, each behind a delimiter. Where no delimiter and element follow, the
list ends before the delimiter. Each round takes a delimiter, so the length of the text bounds
their number. -/
def further {α : Type} (c : Char) (element : Parser α) : Nat → Parser (List α)
  | 0 => pure []
  | rounds + 1 =>
    orElse
      (do
        delimiter c
        let first ← element
        let others ← further c element rounds
        return first :: others)
      (pure [])

/-- Reads one element and further ones behind delimiters. -/
def separated {α : Type} (c : Char) (element : Parser α) : Parser (List α) := do
  let first ← element
  let others ← fun cursor => further c element cursor.rest.length cursor
  return first :: others

/-- Reads elements between delimiters, be there none. -/
def separatedOrNone {α : Type} (c : Char) (element : Parser α) : Parser (List α) :=
  orElse (separated c element) (pure [])

end Parser
end ResourceQuery.Surface
