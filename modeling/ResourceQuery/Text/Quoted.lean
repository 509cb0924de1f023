import ResourceQuery.Text.Invisible

/-!
# Quoted text

A text in double quotes as an error report shows it: quotes and backslashes are escaped, a few
controls by a letter, and every other character without a visible form by its code point.
-/

namespace ResourceQuery.Text
set_option autoImplicit false

/-- A character inside of quotes. -/
def quoteChar (c : Char) : List Char :=
  if c = '"' then ['\\', '"']
  else if c = '\\' then ['\\', '\\']
  else if c = '\n' then ['\\', 'n']
  else if c = '\r' then ['\\', 'r']
  else if c = '\t' then ['\\', 't']
  else if c = '\x00' then ['\\', '0']
  else if isInvisible c then
    '\\' :: 'u' :: '\x7b' :: (Nat.toDigits 16 c.toNat ++ ['\x7d'])
  else [c]

/-- A text in double quotes. -/
def quoted (text : String) : String :=
  String.ofList ('"' :: (text.toList.flatMap quoteChar ++ ['"']))

end ResourceQuery.Text
