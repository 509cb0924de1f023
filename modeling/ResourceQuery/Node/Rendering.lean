import ResourceQuery.Literal.Inference
import ResourceQuery.Node

/-!
# Canonical text

`render` writes a tree as a query in function-call form. Text is percent-encoded, and a string that
would read back as a value of another type is marked with `string:`.
-/

namespace ResourceQuery
set_option autoImplicit false

namespace Literal

/-- Numbers in a query are positional from `10 ^ -4` up to below `10 ^ 16`. -/
def floatLayout : Layout :=
  { leastPlain := -4, greatestPlain := 15, exponentSign := [], tie := .up }

/-- Dates in a query have microseconds. -/
def datePlaces : Nat := 6

/-- The text would not read back as a string if it stood alone. -/
def needsMark (text : String) : Bool :=
  text = "" ||
    match infer text with
    | .string _ => false
    | _ => true

/-- The characters of a literal in a query. -/
def chars : Literal → List Char
  | .integer n => Numeral.writeInteger n.toInt
  | .float x => floatLayout.write x
  | .boolean true => ['t', 'r', 'u', 'e']
  | .boolean false => ['f', 'a', 'l', 's', 'e']
  | .null => ['n', 'u', 'l', 'l']
  | .date moment => moment.writeIso datePlaces
  | .string text =>
    (if needsMark text then ['s', 't', 'r', 'i', 'n', 'g', ':'] else []) ++
      Percent.encodeChars text.toList

/-- The text of a literal in a query. -/
def render (literal : Literal) : String :=
  String.ofList literal.chars

end Literal

namespace Node

mutual

/-- The characters of a tree in function-call form. -/
def chars : Node → List Char
  | .apply op args => op.name.toList ++ '(' :: ([','].intercalate (charsAll args) ++ [')'])
  | .literal value => value.chars
  | .array items => '(' :: ([','].intercalate (items.map Literal.chars) ++ [')'])
  | .field path => Percent.encodeChars path.toList
  | .sortKey path direction => direction.sign :: Percent.encodeChars path.toList

/-- The characters of trees, each by itself. -/
def charsAll : List Node → List (List Char)
  | [] => []
  | node :: nodes => node.chars :: charsAll nodes

end

/-- Trees are written one by one. -/
@[simp] theorem charsAll_eq_map (nodes : List Node) : charsAll nodes = nodes.map chars := by
  induction nodes with
  | nil => simp [charsAll]
  | cons node nodes ih => simp [charsAll, ih]

/-- The canonical text of a tree. -/
def render (node : Node) : String :=
  String.ofList node.chars

end Node
end ResourceQuery
