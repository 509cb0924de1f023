/-!
# Spans of a text

Positions in a query count the bytes of its UTF-8 form. A `Span` is a half-open range of such
positions, and `slice?` is the text it covers, if both ends fall between two characters.
-/

namespace ResourceQuery
set_option autoImplicit false

/-- A half-open range of byte positions. -/
structure Span where
  start : Nat
  stop : Nat
deriving DecidableEq, Repr

namespace Span

/-- The range holds no position, be it because its ends are crossed. -/
def isEmpty (span : Span) : Bool :=
  span.stop ≤ span.start

end Span

namespace Text

/-- How many bytes the characters take. -/
def size : List Char → Nat
  | [] => 0
  | c :: cs => c.utf8Size + size cs

/-- What follows the first `n` bytes, if position `n` lies between two characters. -/
def dropSize? (n : Nat) : List Char → Option (List Char)
  | [] => if n = 0 then some [] else none
  | c :: cs =>
    if n = 0 then some (c :: cs)
    else if c.utf8Size ≤ n then dropSize? (n - c.utf8Size) cs
    else none

/-- The characters of the first `n` bytes, if position `n` lies between two characters. -/
def takeSize? (n : Nat) : List Char → Option (List Char)
  | [] => if n = 0 then some [] else none
  | c :: cs =>
    if n = 0 then some []
    else if c.utf8Size ≤ n then (takeSize? (n - c.utf8Size) cs).map (c :: ·)
    else none

/-- The text a span covers. A span that is crossed, runs past the end or cuts a character covers
none. -/
def slice? (span : Span) (cs : List Char) : Option (List Char) :=
  if span.start ≤ span.stop then
    (dropSize? span.start cs).bind (takeSize? (span.stop - span.start))
  else none

@[simp] theorem size_nil : size [] = 0 := rfl

@[simp] theorem size_cons (c : Char) (cs : List Char) :
    size (c :: cs) = c.utf8Size + size cs := rfl

@[simp] theorem size_append (cs ds : List Char) : size (cs ++ ds) = size cs + size ds := by
  induction cs with
  | nil => simp
  | cons c cs ih => rw [List.cons_append, size_cons, size_cons, ih, Nat.add_assoc]

/-- Dropping the bytes of a leading part leaves the rest. -/
theorem dropSize?_append (cs ds : List Char) : dropSize? (size cs) (cs ++ ds) = some ds := by
  induction cs with
  | nil => cases ds <;> simp [dropSize?]
  | cons c cs ih =>
    have positive := c.utf8Size_pos
    simp only [size_cons, List.cons_append, dropSize?]
    rw [if_neg (by omega), if_pos (by omega), Nat.add_sub_cancel_left, ih]

/-- Taking the bytes of a leading part gives that part. -/
theorem takeSize?_append (cs ds : List Char) : takeSize? (size cs) (cs ++ ds) = some cs := by
  induction cs with
  | nil => cases ds <;> simp [takeSize?]
  | cons c cs ih =>
    have positive := c.utf8Size_pos
    simp only [size_cons, List.cons_append, takeSize?]
    rw [if_neg (by omega), if_pos (by omega), Nat.add_sub_cancel_left, ih]
    rfl

/-- The span between two parts of a text covers exactly what stands between them. -/
theorem slice?_append (before inside after : List Char) :
    slice? ⟨size before, size before + size inside⟩ (before ++ (inside ++ after)) =
      some inside := by
  simp [slice?, dropSize?_append, takeSize?_append]

end Text
end ResourceQuery
