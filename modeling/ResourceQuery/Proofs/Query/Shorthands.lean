import ResourceQuery.Proofs.Query.Terms
import ResourceQuery.Proofs.Resolution.Shorthands

/-!
# Shorthands and calls

Whatever a query says in shorthand it can say as a call: a comparison as the call of its operator, joined
terms as the call of `and` or `or`. The two texts are derived by different rules, so both derivations are
given here; that the derived trees are resolved alike is shown apart from any text.

Main statement: a shorthand and its call have the same tree or none.
-/

namespace ResourceQuery
set_option autoImplicit false
open Surface Fallible

/-! ## Values -/

namespace Surface

variable {p : Place} {rest : List Char}

/-- The text is a token: token characters, one at least. -/
def IsToken (text : String) : Prop :=
  text.toList ≠ [] ∧ text.toList.all Grammar.continuesToken = true

instance (text : String) : Decidable (IsToken text) :=
  inferInstanceAs (Decidable (_ ∧ _))

theorem IsToken.exists_word {text : String} (isToken : IsToken text) (fresh : p.Fresh)
    (stops : Stops rest) (here : p.after = text.toList ++ rest) :
    ∃ q : Place, q.after = rest ∧ Word p text q :=
  ⟨⟨p.before ++ text.toList, rest⟩, rfl, ⟨rfl, here⟩, isToken.1, isToken.2, fresh, stops⟩

/-- Writing out plus signs keeps a token a token. -/
theorem IsToken.plusWrittenOut {text : String} (isToken : IsToken text) :
    IsToken (Percent.plusWrittenOut text) := by
  obtain ⟨nonempty, continues⟩ := isToken
  rw [IsToken, Percent.plusWrittenOut, String.toList_ofList]
  have each : ∀ c ∈ text.toList, Percent.writeOutPlus c ≠ [] ∧
      (Percent.writeOutPlus c).all Grammar.continuesToken = true := by
    intro c mem
    rw [Percent.writeOutPlus]
    split
    · exact ⟨List.cons_ne_nil _ _, by decide⟩
    · exact ⟨List.cons_ne_nil _ _, by simpa using List.all_eq_true.1 continues c mem⟩
  constructor
  · obtain ⟨c, cs, chars⟩ := List.exists_cons_of_ne_nil nonempty
    rw [chars, List.flatMap_cons]
    exact List.append_ne_nil_of_left_ne_nil (each c (by simp [chars])).1 _
  · rw [List.all_flatMap]
    exact List.all_eq_true.2 fun c mem => (each c mem).2

/-- The text of a value: a token, or tokens in parentheses. -/
inductive IsValue : List Char → Form → Prop
  | token {text : String} (isToken : IsToken text) : IsValue text.toList (.token text)
  | list {texts : List String} (areTokens : ∀ text ∈ texts, IsToken text) :
      IsValue ('(' :: ([','].intercalate (texts.map String.toList) ++ [')'])) (.list texts)

variable {chars : List Char} {form : Form}

theorem exists_list_of_tokens {texts : List String} (areTokens : ∀ text ∈ texts, IsToken text)
    (here : p.after = '(' :: ([','].intercalate (texts.map String.toList) ++ [')']) ++ rest) :
    ∃ q : Place, q.after = rest ∧ DerivesList p (.list texts) q := by
  rw [List.cons_append, List.append_assoc] at here
  obtain ⟨q, after, list⟩ := exists_list (List.forall_mem_map.2 areTokens) here
  have same : (texts.map String.toList).map String.ofList = texts := by simp
  exact ⟨q, after, same ▸ list⟩

theorem IsValue.exists_value (isValue : IsValue chars form) (fresh : p.Fresh) (stops : Stops rest)
    (here : p.after = chars ++ rest) : ∃ q : Place, q.after = rest ∧ DerivesValue p form q := by
  cases isValue with
  | token isToken =>
    obtain ⟨q, after, word⟩ := isToken.exists_word fresh stops here
    exact ⟨q, after, .token word⟩
  | list areTokens =>
    obtain ⟨q, after, list⟩ := exists_list_of_tokens areTokens here
    exact ⟨q, after, .list list⟩

theorem IsValue.exists_argument (isValue : IsValue chars form) (fresh : p.Fresh) (stops : Stops rest)
    (here : p.after = chars ++ rest) : ∃ q : Place, q.after = rest ∧ Derives .argument p form q := by
  cases isValue with
  | token isToken =>
    obtain ⟨q, after, word⟩ := isToken.exists_word fresh stops here
    exact ⟨q, after, .argumentToken word⟩
  | list areTokens =>
    obtain ⟨q, after, list⟩ := exists_list_of_tokens areTokens here
    exact ⟨q, after, .argumentList list⟩

/-! ## Derivations -/

variable {path : String}

/-- A field, an equals sign and a value are a comparison without a name. -/
theorem isTerm_plain (isPath : IsToken path) (isValue : IsValue chars form) :
    IsTerm (path.toList ++ '=' :: chars) (.compare path none form) := by
  have here : (Place.start (path.toList ++ '=' :: chars)).after = path.toList ++ '=' :: chars := rfl
  obtain ⟨a, after, word⟩ :=
    isPath.exists_word (Place.fresh_start _) (stops_cons (by decide) chars) here
  obtain ⟨b, after, fresh, equals⟩ := exists_around (by decide) after
  obtain ⟨q, ends, value⟩ :=
    isValue.exists_value fresh stops_nil (after.trans (List.append_nil chars).symm)
  exact ⟨q, .termComparison (.plain word equals value), ends⟩

/-- A field, the name of an operator between two equals signs and a value are a comparison with that
name. -/
theorem isTerm_named (op : Operator) (isPath : IsToken path) (isValue : IsValue chars form) :
    IsTerm (path.toList ++ '=' :: (op.name.toList ++ '=' :: chars))
      (.compare path (some op.name) form) := by
  have isName : IsToken op.name := by cases op <;> decide
  let text := path.toList ++ '=' :: (op.name.toList ++ '=' :: chars)
  have here : (Place.start text).after = text := rfl
  obtain ⟨a, after, word⟩ := isPath.exists_word (Place.fresh_start _) (stops_cons (by decide) _) here
  obtain ⟨b, after, fresh, equals⟩ := exists_around (by decide) after
  obtain ⟨c, after, name⟩ := isName.exists_word fresh (stops_cons (by decide) _) after
  obtain ⟨d, after, fresh, equals'⟩ := exists_around (by decide) after
  obtain ⟨q, ends, value⟩ :=
    isValue.exists_value fresh stops_nil (after.trans (List.append_nil chars).symm)
  exact ⟨q, .termComparison (.named word equals name equals' value), ends⟩

/-- The call of an operator with a field and a value. -/
theorem isTerm_call (op : Operator) (isPath : IsToken path) (isValue : IsValue chars form) :
    IsTerm (op.name.toList ++ '(' :: (path.toList ++ ',' :: (chars ++ [')'])))
      (.call op.name [.token path, form]) := by
  let text := op.name.toList ++ '(' :: (path.toList ++ ',' :: (chars ++ [')']))
  have here : (Place.start text).after = text := rfl
  obtain ⟨a, after, name⟩ := Node.exists_name op here
  obtain ⟨b, after, fresh, opening⟩ := exists_mark (by decide) after
  obtain ⟨c, after, word⟩ := isPath.exists_word fresh (stops_cons (by decide) _) after
  obtain ⟨d, after, fresh, comma⟩ := exists_around (by decide) after
  obtain ⟨e, after, value⟩ := isValue.exists_argument fresh (stops_cons (by decide) _) after
  obtain ⟨q, ends, -, closing⟩ := exists_mark (by decide) after
  have derives : Derives .call _ _ q :=
    .callSome name opening (.refl b) (.argumentToken word) (.cons comma value .nil) (.refl e) closing
  exact ⟨q, .termCall derives, ends⟩

end Surface

/-! ## Queries -/

/-- Under every limit on nesting that both texts keep, they have the same tree or neither has one. -/
def SameTree (query query' : String) : Prop :=
  ∀ limit, nesting query.toList ≤ limit → nesting query'.toList ≤ limit →
    ∀ node, parseWithin limit query = .ok node ↔ parseWithin limit query' = .ok node

theorem sameTree_of_derivable {query query' : String} {form form' : Form}
    (derivable : Derivable query.toList form) (derivable' : Derivable query'.toList form')
    (agree : ∀ expr expr' : Expr, expr.form = form → expr'.form = form' →
      Resolution.Agree (Resolution.resolve query expr) (Resolution.resolve query' expr')) :
    SameTree query query' := by
  intro limit shallow shallow' node
  obtain ⟨expr, parsed, same⟩ := parse_of_derivable shallow derivable
  obtain ⟨expr', parsed', same'⟩ := parse_of_derivable shallow' derivable'
  rw [parseWithin, parsed, parseWithin, parsed']
  exact agree expr expr' same same' node

/-- Texts of a shorthand comparison and of the call of its operator have the same tree or neither has one, if
the values are the same but for plus signs. -/
theorem sameTree_of_values {op : Operator} (comparison : op.role = .comparison) {path : String}
    (isPath : IsToken path) {chars : List Char} {value : Form}
    (written : IsValue chars value.plusWrittenOut) {name : Option String}
    (named : name = some op.name ∨ name = none ∧ op = .eq) {query query' : String}
    (shorthand : Derivable query.toList (.compare path name value))
    (call : query'.toList = op.name.toList ++ '(' :: (path.toList ++ ',' :: (chars ++ [')']))) :
    SameTree query query' := by
  refine sameTree_of_derivable shorthand (call ▸ (isTerm_call op isPath written).derivable) ?_
  intro expr expr' form form'
  obtain ⟨args, span', rfl, forms⟩ := exists_call_of_form form'
  obtain ⟨first, others, rfl, isPath', forms⟩ := List.map_eq_cons_iff.1 forms
  obtain ⟨second, others, rfl, isValue', forms⟩ := List.map_eq_cons_iff.1 forms
  obtain rfl := List.map_eq_nil_iff.1 forms
  obtain ⟨place, rfl⟩ := exists_token_of_form isPath'
  cases expr <;> simp only [Expr.form, Form.compare.injEq, reduceCtorEq] at form
  case compare field token value' span =>
    obtain ⟨samePath, rfl, rfl⟩ := form
    refine Resolution.agree_resolve_shorthand comparison samePath ?_ isValue' span span'
    simpa using named

/-- **Main.** A comparison in shorthand, with a value or a list of values, has the same tree as the call of
its operator in which each plus sign of the values is written out, or neither has one; a comparison without
a name is one with `eq`. Two or more terms are read joined by `&` as in the call of `and`, and joined by `|`
as in the call of `or`. -/
theorem shorthands_and_calls :
    (∀ (op : Operator) (path value : String), op.role = .comparison → IsToken path → IsToken value →
      SameTree (path ++ "=" ++ op.name ++ "=" ++ value)
        (op.name ++ "(" ++ path ++ "," ++ Percent.plusWrittenOut value ++ ")")) ∧
    (∀ path value : String, IsToken path → IsToken value →
      SameTree (path ++ "=" ++ value) ("eq(" ++ path ++ "," ++ Percent.plusWrittenOut value ++ ")")) ∧
    (∀ (op : Operator) (path : String) (values : List String), op.role = .comparison → IsToken path →
      (∀ value ∈ values, IsToken value) →
      SameTree (path ++ "=" ++ op.name ++ "=(" ++ ",".intercalate values ++ ")")
        (op.name ++ "(" ++ path ++ ",(" ++
          ",".intercalate (values.map Percent.plusWrittenOut) ++ "))")) ∧
    ∀ (texts : List String) (nodes : List Node), List.Forall₂ ReadsAsTerm texts nodes →
      2 ≤ texts.length →
      (ReadsAs ("&".intercalate texts) (.apply .and nodes) ∧
        ReadsAs ("and(" ++ ",".intercalate texts ++ ")") (.apply .and nodes)) ∧
      (ReadsAs ("|".intercalate texts) (.apply .or nodes) ∧
        ReadsAs ("or(" ++ ",".intercalate texts ++ ")") (.apply .or nodes)) := by
  refine ⟨?named, ?plain, ?listed, fun texts nodes => readsAs_joined_terms⟩
  case named =>
    intro op path value comparison isPath isValue
    have text : (path ++ "=" ++ op.name ++ "=" ++ value).toList =
        path.toList ++ '=' :: (op.name.toList ++ '=' :: value.toList) := by simp
    exact sameTree_of_values comparison isPath (.token isValue.plusWrittenOut) (.inl rfl)
      (text ▸ (isTerm_named op isPath (.token isValue)).derivable) (by simp)
  case plain =>
    intro path value isPath isValue
    have text : (path ++ "=" ++ value).toList = path.toList ++ '=' :: value.toList := by simp
    exact @sameTree_of_values .eq rfl path isPath _ _ (.token isValue.plusWrittenOut) _ (.inr ⟨rfl, rfl⟩) _ _
      (text ▸ (isTerm_plain isPath (.token isValue)).derivable) (by simp [Operator.name])
  case listed =>
    intro op path values comparison isPath areValues
    have text : (path ++ "=" ++ op.name ++ "=(" ++ ",".intercalate values ++ ")").toList =
        path.toList ++ '=' :: (op.name.toList ++ '=' ::
          ('(' :: ([','].intercalate (values.map String.toList) ++ [')']))) := by simp
    have written : ∀ value ∈ values.map Percent.plusWrittenOut, IsToken value :=
      List.forall_mem_map.2 fun value mem => (areValues value mem).plusWrittenOut
    exact sameTree_of_values comparison isPath (.list written) (.inl rfl)
      (text ▸ (isTerm_named op isPath (.list areValues)).derivable) (by simp)

/-- A blank and an escaped plus sign, a list with a value that fits its tag no more, and two terms in a
row. -/
theorem shorthands_and_calls_mixed :
    (parseWithin 64 "a=in=x+%2B" = .ok (.apply .in [.field "a", .array [.string "x +"]]) ∧
      parseWithin 64 "in(a,x%20%2B)" = .ok (.apply .in [.field "a", .array [.string "x +"]])) ∧
    (∀ node, parseWithin 64 "a=in=(1,number:1+1)" ≠ .ok node ∧
      parseWithin 64 "in(a,(1,number:1%201))" ≠ .ok node) ∧
    parseWithin 64 "a=1&b=in=(x,y)" = parseWithin 64 "and(a=1,b=in=(x,y))" := by
  obtain ⟨named, -, listed, joined⟩ := shorthands_and_calls
  refine ⟨?named, ?listed, ?joined⟩
  case named =>
    have same := named .in "a" "x+%2B" rfl (by decide) (by decide) 64 (by decide +kernel) (by decide +kernel)
      (.apply .in [.field "a", .array [.string "x +"]])
    have read : parseWithin 64 "a=in=x+%2B" = .ok (.apply .in [.field "a", .array [.string "x +"]]) := by
      decide +kernel
    exact ⟨read, same.1 read⟩
  case listed =>
    intro node
    have same := listed .in "a" ["1", "number:1+1"] rfl (by decide) (by decide) 64 (by decide +kernel)
      (by decide +kernel) node
    have refused : (parseWithin 64 "a=in=(1,number:1+1)").isOk = false := by decide +kernel
    have unread : parseWithin 64 "a=in=(1,number:1+1)" ≠ .ok node := by
      intro read
      rw [read] at refused
      exact Bool.noConfusion refused
    exact ⟨unread, mt same.2 unread⟩
  case joined =>
    have first : ReadsAsTerm "a=1" (.apply .eq [.field "a", .literal (.integer 1)]) :=
      ⟨⟨_, @isTerm_plain _ _ "a" (by decide) (@IsValue.token "1" (by decide))⟩, 64, by decide +kernel⟩
    have second : ReadsAsTerm "b=in=(x,y)" (.apply .in [.field "b", .array [.string "x", .string "y"]]) :=
      ⟨⟨_, @isTerm_named _ _ "b" .in (by decide) (@IsValue.list ["x", "y"] (by decide))⟩, 64,
        by decide +kernel⟩
    obtain ⟨⟨together, call⟩, -⟩ := joined ["a=1", "b=in=(x,y)"] _ (.cons first (.cons second .nil)) (by decide)
    exact (together 64 (by decide +kernel)).trans (call 64 (by decide +kernel)).symm

end ResourceQuery
