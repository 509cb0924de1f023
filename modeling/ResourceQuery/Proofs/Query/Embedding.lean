import ResourceQuery.Proofs.Query.Shorthands

/-!
# Any text in a query

Percent coding embeds any text in a query. Three layers have to agree on the characters they reserve: the
grammar, where a delimiter or a blank ends a token, the type tags, where a colon ends the name, and decoding,
which reads percent signs and perhaps plus signs. What is written for a text holds nothing that the first
two reserve, and decoding reads back what was written.

Main statement: whatever the text, its encoded form is a token that stands for it, and marked as a string it
is the value of a comparison, in a call as in a shorthand.
-/

namespace ResourceQuery
set_option autoImplicit false
open Surface

/-! ## Characters -/

/-- The character is an ASCII letter or digit or one of five marks, and has no part in the syntax of queries
and type tags. -/
structure IsNeutral (c : Char) : Prop where
  ascii : c.toNat < 128
  kind : c.isAlphanum = true ∨ c ∈ ['-', '_', '.', '~', '%']
  noDelimiter : Grammar.isDelimiter c = false
  noBlank : Text.isBlank c = false
  noPlus : c ≠ '+'
  noColon : c ≠ ':'

theorem isNeutral_of_isWritten {c : Char} (written : Percent.isWritten c = true) : IsNeutral c := by
  obtain ⟨noColon, goesOn⟩ := Literal.isWritten_spec written
  obtain ⟨noDelimiter, noBlank⟩ : Grammar.isDelimiter c = false ∧ Text.isBlank c = false := by
    simpa [Grammar.continuesToken] using goesOn
  have kind : c.isAlphanum = true ∨ c ∈ ['-', '_', '.', '~', '%'] := by
    simpa [Percent.isWritten, or_assoc] using written
  refine ⟨?ascii, kind, noDelimiter, noBlank, ?noPlus, noColon⟩
  case ascii =>
    rcases kind with alphanumeric | mark
    · exact Text.toNat_lt_of_isAlphanum alphanumeric
    · simp only [List.mem_cons, List.not_mem_nil, or_false] at mark
      rcases mark with rfl | rfl | rfl | rfl | rfl
      all_goals decide
  case noPlus =>
    rintro rfl
    exact absurd written (by decide)

theorem isNeutral_of_mem_encode {text : String} {c : Char} (mem : c ∈ (Percent.encode text).toList) :
    IsNeutral c := by
  rw [Percent.encode, String.toList_ofList] at mem
  exact isNeutral_of_isWritten (Percent.isWritten_of_mem_encodeChars mem)

/-! ## Tokens -/

/-- The text is read as one token wherever no token goes on behind it. -/
def IsReadWhole (text : String) : Prop :=
  ∀ (offset : Nat) (rest : List Char), Stops rest →
    Grammar.token ⟨offset, text.toList ++ rest⟩ =
      .found ⟨text, offset, offset + Text.size text.toList⟩ ⟨offset + Text.size text.toList, rest⟩

theorem Surface.IsToken.isReadWhole {text : String} (isToken : IsToken text) : IsReadWhole text := by
  intro offset rest stops
  obtain ⟨nonempty, continues⟩ := isToken
  obtain ⟨c, cs, chars⟩ := List.exists_cons_of_ne_nil nonempty
  rw [chars, List.all_cons, Bool.and_eq_true] at continues
  obtain ⟨taken, -⟩ := Text.takeWhile_append_of_all continues.2 stops
  have isText : String.ofList (c :: cs) = text := by rw [← chars, String.ofList_toList]
  have word : Parser.word Grammar.continuesToken Grammar.continuesToken ⟨offset, c :: cs ++ rest⟩ =
      .found (c :: cs) ⟨offset + Text.size (c :: cs), rest⟩ := by
    simp [Parser.word, continues.1, taken, Cursor.skip]
  simp only [Grammar.token, Parser.bind_eq_found, Parser.located_eq_found, Parser.pure_eq_found, chars]
  exact ⟨_, _, ⟨_, word, rfl⟩, by rw [isText], rfl⟩

/-- The encoded form of a text that is not empty is a token. -/
theorem isToken_encode {text : String} (nonempty : text ≠ "") : IsToken (Percent.encode text) := by
  rw [IsToken, Percent.encode, String.toList_ofList]
  refine ⟨?_, (Literal.encodeChars_spec text.toList).2⟩
  rwa [ne_eq, Percent.encodeChars_eq_nil, String.toList_eq_nil_iff]

/-! ## Values -/

/-- The encoded form of the text, marked as a string. -/
def marked (text : String) : String :=
  "string:" ++ Percent.encode text

theorem toList_marked (text : String) :
    (marked text).toList = ['s', 't', 'r', 'i', 'n', 'g', ':'] ++ Percent.encodeChars text.toList := by
  simp [marked, Percent.encode]

theorem isToken_marked (text : String) : IsToken (marked text) := by
  rw [IsToken, toList_marked]
  exact ⟨(Literal.tokenizes_marked text).nonempty, (Literal.tokenizes_marked text).continues⟩

theorem literal_marked (text : String) (query : String) (plusAsSpace : Bool) (span : Span) :
    Resolution.literal query plusAsSpace ⟨marked text, span⟩ = .ok (.string text) := by
  have tagged : TypeTag.split? (marked text) = some (.string, Percent.encode text) := by
    rw [← Literal.split?_marked, ← toList_marked, String.ofList_toList]
  simp only [Resolution.literal, tagged, Percent.decode_encode]
  rfl

/-- The value that a string is in a comparison: `in` takes a list. -/
def comparand (op : Operator) (text : String) : Node :=
  if op = .in then .array [.string text] else .literal (.string text)

theorem operand_marked (query : String) (op : Operator) (plusAsSpace : Bool) (whole span : Span)
    (text : String) :
    Resolution.operand query op plusAsSpace whole (.token ⟨marked text, span⟩) =
      .ok (comparand op text) := by
  rw [Resolution.operand, literal_marked]
  rfl

/-! ## Queries -/

section Comparisons

variable {op : Operator} {path : String} (comparison : op.role = .comparison) (named : path ≠ "")
include comparison named

theorem readsAs_call (text : String) :
    ReadsAs (op.name ++ "(" ++ Percent.encode path ++ ",string:" ++ Percent.encode text ++ ")")
      (.apply op [.field path, comparand op text]) := by
  let part : Accepted :=
    { text := op.name.toList ++ '(' :: ((Percent.encode path).toList ++ ',' :: ((marked text).toList ++ [')']))
      form := .call op.name [.token (Percent.encode path), .token (marked text)]
      node := .apply op [.field path, comparand op text]
      derivable := (isTerm_call op (isToken_encode named) (.token (isToken_marked text))).derivable
      resolved := by
        intro query expr form
        obtain ⟨args, span, rfl, forms⟩ := exists_call_of_form form
        obtain ⟨first, others, rfl, isPath, forms⟩ := List.map_eq_cons_iff.1 forms
        obtain ⟨second, others, rfl, isValue, forms⟩ := List.map_eq_cons_iff.1 forms
        obtain rfl := List.map_eq_nil_iff.1 forms
        obtain ⟨first, rfl⟩ := exists_token_of_form isPath
        obtain ⟨second, rfl⟩ := exists_token_of_form isValue
        rw [Resolution.resolve_comparison comparison, Resolution.fieldArgument,
          Resolution.field_encode named, operand_marked]
        rfl }
  exact part.readsAs (by simp [part, marked])

/-- A shorthand whose value is a marked text is resolved to a comparison with the text. -/
theorem resolve_marked {query : String} {name : Option String}
    (operator : name = some op.name ∨ name = none ∧ op = .eq) {text : String} {expr : Expr}
    (form : expr.form = .compare (Percent.encode path) name (.token (marked text))) :
    Resolution.resolve query expr = .ok (.apply op [.field path, comparand op text]) := by
  cases expr <;> simp only [Expr.form, Form.compare.injEq, reduceCtorEq] at form
  case compare field name value span =>
    obtain ⟨isPath, rfl, isValue⟩ := form
    obtain ⟨place, rfl⟩ := exists_token_of_form isValue
    obtain ⟨fieldText, fieldSpan⟩ := field
    obtain rfl : fieldText = Percent.encode path := isPath
    have isOperator : Resolution.shorthandOperator query name = .ok op :=
      Resolution.shorthandOperator_eq_ok comparison (by simpa using operator)
    simp only [Resolution.resolve, Resolution.shorthand, isOperator, Resolution.field_encode named,
      bind, Except.bind, operand_marked]
    rfl

theorem readsAs_named (text : String) :
    ReadsAs (Percent.encode path ++ "=" ++ op.name ++ "=string:" ++ Percent.encode text)
      (.apply op [.field path, comparand op text]) := by
  let part : Accepted :=
    { text := (Percent.encode path).toList ++ '=' :: (op.name.toList ++ '=' :: (marked text).toList)
      form := .compare (Percent.encode path) (some op.name) (.token (marked text))
      node := .apply op [.field path, comparand op text]
      derivable := (isTerm_named op (isToken_encode named) (.token (isToken_marked text))).derivable
      resolved := fun _ _ => resolve_marked comparison named (.inl rfl) }
  exact part.readsAs (by simp [part, marked])

omit comparison in
theorem readsAs_plain (text : String) :
    ReadsAs (Percent.encode path ++ "=string:" ++ Percent.encode text)
      (.apply .eq [.field path, .literal (.string text)]) := by
  let part : Accepted :=
    { text := (Percent.encode path).toList ++ '=' :: (marked text).toList
      form := .compare (Percent.encode path) none (.token (marked text))
      node := .apply .eq [.field path, .literal (.string text)]
      derivable := (isTerm_plain (isToken_encode named) (.token (isToken_marked text))).derivable
      resolved := fun _ _ => @resolve_marked .eq path rfl named _ _ (.inr ⟨rfl, rfl⟩) _ _ }
  exact part.readsAs (by simp [part, marked])

end Comparisons

/-- **Main.** Whatever the text, its encoded form is decoded to it, whether or not `+` stands for a space; the
encoded form is made of neutral characters, is one token unless it is empty, and names no type. Marked as a
string it stands for the text, as the value of a call and of a shorthand, and a comparison of any field with
it is a query. -/
theorem encode_embeds (text : String) :
    (∀ plusAsSpace, Percent.decode plusAsSpace (Percent.encode text) = .ok text) ∧
    (∀ c ∈ (Percent.encode text).toList, IsNeutral c) ∧
    (text ≠ "" → IsReadWhole (Percent.encode text)) ∧
    TypeTag.split? (Percent.encode text) = none ∧
    (∀ query plusAsSpace span,
      Resolution.literal query plusAsSpace ⟨"string:" ++ Percent.encode text, span⟩ = .ok (.string text)) ∧
    ∀ path : String, path ≠ "" →
      ReadsAs (Percent.encode path ++ "=string:" ++ Percent.encode text)
        (.apply .eq [.field path, .literal (.string text)]) ∧
      ∀ op : Operator, op.role = .comparison →
        ReadsAs (op.name ++ "(" ++ Percent.encode path ++ ",string:" ++ Percent.encode text ++ ")")
          (.apply op [.field path, comparand op text]) ∧
        ReadsAs (Percent.encode path ++ "=" ++ op.name ++ "=string:" ++ Percent.encode text)
          (.apply op [.field path, comparand op text]) := by
  refine ⟨fun plusAsSpace => Percent.decode_encode plusAsSpace text, fun c => isNeutral_of_mem_encode,
    fun nonempty => (isToken_encode nonempty).isReadWhole, Literal.split?_encode text,
    literal_marked text, fun path named => ⟨readsAs_plain named text, fun op comparison => ?_⟩⟩
  exact ⟨readsAs_call comparison named text, readsAs_named comparison named text⟩

/-- A text that looks like an escape, like a type tag and like a shorthand comparison. -/
theorem encode_embeds_syntax :
    IsReadWhole "%2525%2B%20date%3A%28a%3D" ∧
      parseWithin 64 "in(a%20b,string:%2525%2B%20date%3A%28a%3D)" =
        .ok (.apply .in [.field "a b", .array [.string "%25+ date:(a="]]) ∧
      parseWithin 64 "a%20b=in=string:%2525%2B%20date%3A%28a%3D" =
        .ok (.apply .in [.field "a b", .array [.string "%25+ date:(a="]]) := by
  obtain ⟨-, -, whole, -, -, queries⟩ := encode_embeds "%25+ date:(a="
  have written : Percent.encode "%25+ date:(a=" = "%2525%2B%20date%3A%28a%3D" := by decide +kernel
  have writtenPath : Percent.encode "a b" = "a%20b" := by decide +kernel
  obtain ⟨call, shorthand⟩ := (queries "a b" (by decide)).2 .in rfl
  rw [written] at whole call shorthand
  rw [writtenPath] at call shorthand
  exact ⟨whole (by decide), call 64 (by decide +kernel), shorthand 64 (by decide +kernel)⟩

end ResourceQuery
