/-!
# Blank characters

Two classes of blanks matter to a query. `isBlank` is Unicode's White_Space property: it ends a
token, and a query made only of such characters counts as empty. `isSpacing` is the small ASCII
class that may stand between the parts of a query.
-/

namespace ResourceQuery.Text
set_option autoImplicit false

/-- The closed ranges of code points that have the White_Space property. -/
def blankRanges : List (Nat × Nat) :=
  [(0x9, 0xD), (0x20, 0x20), (0x85, 0x85), (0xA0, 0xA0), (0x1680, 0x1680), (0x2000, 0x200A),
   (0x2028, 0x2029), (0x202F, 0x202F), (0x205F, 0x205F), (0x3000, 0x3000)]

/-- The character has the White_Space property. -/
def isBlank (c : Char) : Bool :=
  blankRanges.any fun (low, high) => low ≤ c.toNat && c.toNat ≤ high

/-- Space, tab, carriage return or line feed: what may surround a delimiter. -/
def isSpacing (c : Char) : Bool :=
  c == ' ' || c == '\t' || c == '\r' || c == '\n'

/-- Only blank characters, or none at all. -/
def allBlank (text : String) : Bool :=
  text.toList.all isBlank

/-- Whatever may surround a delimiter also ends a token. -/
theorem isBlank_of_isSpacing {c : Char} (h : isSpacing c = true) : isBlank c = true := by
  simp only [isSpacing, Bool.or_eq_true, beq_iff_eq] at h
  rcases h with ((rfl | rfl) | rfl) | rfl <;> decide

end ResourceQuery.Text
