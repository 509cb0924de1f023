import ResourceQuery.Json

/-!
# JSON text

`compact` writes a value without any blanks, `pretty` with a line for each item and field. Both
escape quotes, backslashes and control characters below the space, and nothing else.
-/

namespace ResourceQuery.Json
set_option autoImplicit false

/-- Numbers in JSON text are positional from `10 ^ -5` up to below `10 ^ 16`. -/
def floatLayout : Layout :=
  { leastPlain := -5, greatestPlain := 15, exponentSign := ['+'], tie := .even }

/-- A character inside of a quoted string. -/
def escapeChar (c : Char) : List Char :=
  if c = '"' then ['\\', '"']
  else if c = '\\' then ['\\', '\\']
  else if c = '\x08' then ['\\', 'b']
  else if c = '\x0c' then ['\\', 'f']
  else if c = '\n' then ['\\', 'n']
  else if c = '\r' then ['\\', 'r']
  else if c = '\t' then ['\\', 't']
  else if c.toNat < 32 then
    ['\\', 'u', '0', '0', Nat.digitChar (c.toNat / 16), Nat.digitChar (c.toNat % 16)]
  else [c]

/-- A quoted string. -/
def quoted (text : String) : List Char :=
  '"' :: (text.toList.flatMap escapeChar ++ ['"'])

mutual

/-- The characters of a value without blanks. -/
def compactChars : Json → List Char
  | .null => ['n', 'u', 'l', 'l']
  | .boolean true => ['t', 'r', 'u', 'e']
  | .boolean false => ['f', 'a', 'l', 's', 'e']
  | .integer n => Numeral.writeInteger n
  | .float x => floatLayout.write x
  | .string text => quoted text
  | .array items => '[' :: ([','].intercalate (compactItems items) ++ [']'])
  | .object fields => '\x7b' :: ([','].intercalate (compactFields fields) ++ ['\x7d'])

/-- The characters of each item. -/
def compactItems : List Json → List (List Char)
  | [] => []
  | item :: items => item.compactChars :: compactItems items

/-- The characters of each field. -/
def compactFields : List (String × Json) → List (List Char)
  | [] => []
  | (name, value) :: fields => (quoted name ++ ':' :: value.compactChars) :: compactFields fields

end

/-- A line break and the blanks that open a line so many levels deep. -/
def lineBreak (depth : Nat) : List Char :=
  '\n' :: List.replicate (2 * depth) ' '

/-- Texts between brackets, each on a line of its own. -/
def bracketed (opening closing : Char) (depth : Nat) (texts : List (List Char)) : List Char :=
  if texts.isEmpty then [opening, closing]
  else
    opening :: (lineBreak (depth + 1) ++ (',' :: lineBreak (depth + 1)).intercalate texts ++
      lineBreak depth ++ [closing])

mutual

/-- The characters of a value with a line for each item and field. -/
def prettyChars (depth : Nat) : Json → List Char
  | .array items => bracketed '[' ']' depth (prettyItems (depth + 1) items)
  | .object fields => bracketed '\x7b' '\x7d' depth (prettyFields (depth + 1) fields)
  | .null => compactChars .null
  | .boolean b => compactChars (.boolean b)
  | .integer n => compactChars (.integer n)
  | .float x => compactChars (.float x)
  | .string text => compactChars (.string text)

/-- The characters of each item. -/
def prettyItems (depth : Nat) : List Json → List (List Char)
  | [] => []
  | item :: items => item.prettyChars depth :: prettyItems depth items

/-- The characters of each field. -/
def prettyFields (depth : Nat) : List (String × Json) → List (List Char)
  | [] => []
  | (name, value) :: fields =>
    (quoted name ++ ':' :: ' ' :: value.prettyChars depth) :: prettyFields depth fields

end

/-- The text of a value without blanks. -/
def compact (value : Json) : String :=
  String.ofList value.compactChars

/-- The text of a value with a line for each item and field. -/
def pretty (value : Json) : String :=
  String.ofList (value.prettyChars 0)

end ResourceQuery.Json
