import ResourceQuery.Proofs.Surface.Spans

/-!
# What spans cover

Each span of a surface tree covers exactly the text that its part was read from: a token its own
characters, a list its parentheses and what is between them, a call its name and its parentheses. The
spans of parts stand inside of the span of the whole, one behind the other. Nothing here looks at the
parser; all of it follows from where a tree stands.

Main statement: the tree of every query that is accepted has exact spans, between characters of the query.
-/

namespace ResourceQuery.Surface
set_option autoImplicit false
open Text Grammar

/-! ## Spans of a text -/

/-- The span covers these characters of the text. -/
def Covers (text : List Char) (span : Span) (inside : List Char) : Prop :=
  ∃ before after, text = before ++ (inside ++ after) ∧ span = ⟨size before, size before + size inside⟩

/-- The spans stand inside of another one, one behind the other. -/
structure Holds (outer : Span) (parts : List Span) : Prop where
  inside : ∀ part ∈ parts, outer.start ≤ part.start ∧ part.stop ≤ outer.stop
  inOrder : parts.Pairwise fun earlier later => earlier.stop ≤ later.start

/-- The token has the text at its span, a run of token characters that is not empty. -/
structure Token.IsExact (text : List Char) (word : Token) : Prop where
  covers : Covers text word.span word.text.toList
  nonempty : word.text ≠ ""
  continues : word.text.toList.all continuesToken = true

/-- The spans of a comparison's parts, without the one of its value. -/
def headSpans (field : Token) (op : Option Token) : List Span :=
  field.span :: (op.map Token.span).toList

/-- Every span of the tree covers what the tree was read from, and holds the spans of the parts. -/
inductive Expr.IsExact (text : List Char) : Expr → Prop
  | token {word : Token} (exact : word.IsExact text) : IsExact text (.token word)
  | list {items : List Token} {span : Span} {inside : List Char}
      (covers : Covers text span ('(' :: (inside ++ [')'])))
      (holds : Holds span (items.map Token.span)) (each : ∀ item ∈ items, item.IsExact text) :
      IsExact text (.list items span)
  | call {name : String} {args : List Expr} {span : Span} {inside : List Char}
      (covers : Covers text span (name.toList ++ '(' :: (inside ++ [')'])))
      (holds : Holds span (args.map Expr.span)) (each : ∀ arg ∈ args, IsExact text arg) :
      IsExact text (.call name args span)
  | compare {field : Token} {op : Option Token} {value : Expr} {span : Span} {inside : List Char}
      (covers : Covers text span inside) (holds : Holds span (headSpans field op ++ [value.span]))
      (isField : field.IsExact text) (isName : ∀ name ∈ op, name.IsExact text)
      (isValue : IsExact text value) : IsExact text (.compare field op value span)
  | unvalued {field : Token} {op : Option Token} {span place : Span} {inside : List Char}
      (covers : Covers text span inside) (holds : Holds span (headSpans field op ++ [place]))
      (isField : field.IsExact text) (isName : ∀ name ∈ op, name.IsExact text)
      (leftOut : Covers text place []) : IsExact text (.compare field op (.token ⟨"", place⟩) span)
  | and {segments : List Expr} {span : Span} {inside : List Char} (several : 2 ≤ segments.length)
      (covers : Covers text span inside) (holds : Holds span (segments.map Expr.span))
      (each : ∀ part ∈ segments, IsExact text part) : IsExact text (.and segments span)
  | or {segments : List Expr} {span : Span} {inside : List Char} (several : 2 ≤ segments.length)
      (covers : Covers text span inside) (holds : Holds span (segments.map Expr.span))
      (each : ∀ part ∈ segments, IsExact text part) : IsExact text (.or segments span)

/-! ## Between places -/

variable {p a b q : Place}

theorem Place.Moves.covers {taken : List Char} (moves : p.Moves taken q) :
    Covers p.text (p.spanTo q) taken := by
  obtain ⟨before, after⟩ := moves
  exact ⟨p.before, q.after, by rw [Place.text, after], by rw [Place.spanTo, before, size_append]⟩

theorem Place.Reaches.covers (reaches : p.Reaches q) :
    ∃ taken, Covers p.text (p.spanTo q) taken := by
  obtain ⟨taken, moves⟩ := reaches
  exact ⟨taken, moves.covers⟩

theorem Place.Reaches.size_le (reaches : p.Reaches q) : size p.before ≤ size q.before := by
  obtain ⟨taken, before, -⟩ := reaches
  rw [before, size_append]
  exact Nat.le_add_right ..

/-- A span between two places holds no parts. -/
theorem holds_nil (outer : Span) : Holds outer [] :=
  ⟨by simp, .nil⟩

/-- A part in front of others is held along with them. -/
theorem Holds.cons {parts : List Span} (ahead : p.Reaches a) (here : a.Reaches b) (behind : b.Reaches q)
    (others : Holds (b.spanTo q) parts) : Holds (p.spanTo q) (a.spanTo b :: parts) := by
  have start := ahead.size_le
  have middle := here.size_le
  have stop := behind.size_le
  refine ⟨List.forall_mem_cons.2 ⟨⟨start, stop⟩, fun part mem => ?_⟩, List.pairwise_cons.2 ⟨?_, others.inOrder⟩⟩
  · obtain ⟨first, last⟩ := others.inside part mem
    exact ⟨Nat.le_trans (Nat.le_trans start middle) first, last⟩
  · exact fun part mem => (others.inside part mem).1

/-- Parts are held by a wider span, too. -/
theorem Holds.widen {parts : List Span} (ahead : p.Reaches a) (behind : b.Reaches q)
    (held : Holds (a.spanTo b) parts) : Holds (p.spanTo q) parts := by
  refine ⟨fun part mem => ?_, held.inOrder⟩
  obtain ⟨first, last⟩ := held.inside part mem
  exact ⟨Nat.le_trans ahead.size_le first, Nat.le_trans last behind.size_le⟩

/-! ## Parts in a row -/

section Series

variable {α : Type} {relation : Place → α → Place → Prop} {span : α → Span}
  (extent : ∀ value a b, relation a value b → a.Reaches b ∧ span value = a.spanTo b) {values : List α}
include extent

theorem reaches_of_series (series : Series relation p values q) : p.Reaches q :=
  series.reaches fun value _ a b here => (extent value a b here).1

/-- The span between two places holds the spans of what stands there. -/
theorem holds_of_series (series : Series relation p values q) : Holds (p.spanTo q) (values.map span) := by
  induction series with
  | nil => exact holds_nil _
  | cons ahead here others ih =>
    obtain ⟨reaches, same⟩ := extent _ _ _ here
    rw [List.map_cons, same]
    exact ih.cons ahead reaches (reaches_of_series extent others)

/-- What holds of each part in the text that it stands in holds of all parts in the text of the row. -/
theorem forall_mem_of_series {motive : List Char → α → Prop} (series : Series relation p values q)
    (each : ∀ value ∈ values, ∀ a b, relation a value b → motive a.text value) :
    ∀ value ∈ values, motive p.text value := by
  intro value mem
  obtain ⟨a, b, ahead, here, -⟩ :=
    series.within_of_mem (fun value _ a b here => (extent value a b here).1) mem
  exact ahead.text_eq ▸ each value mem a b here

end Series

/-! ## What stands is exact -/

theorem Token.Stands.isExact {word : Token} (stands : word.Stands p q) : word.IsExact p.text where
  covers := stands.span_eq ▸ stands.moves.covers
  nonempty := fun empty => stands.nonempty (by rw [empty]; rfl)
  continues := stands.continues

theorem Token.Stands.extent (word : Token) (a b : Place) (stands : word.Stands a b) :
    a.Reaches b ∧ word.span = a.spanTo b :=
  ⟨stands.advances.reaches, stands.span_eq⟩

theorem Expr.Stands.extent (expr : Expr) (a b : Place) (stands : expr.Stands a b) :
    a.Reaches b ∧ expr.span = a.spanTo b :=
  ⟨stands.advances.reaches, stands.span_eq⟩

/-- The parts of a comparison in front of its value are held along with it. -/
theorem HeadStands.holds {field : Token} {op : Option Token} (head : HeadStands p field op a)
    (behind : a.Reaches q) {parts : List Span} (held : Holds (a.spanTo q) parts) :
    Holds (p.spanTo q) (headSpans field op ++ parts) := by
  cases head with
  | plain word equals =>
    obtain ⟨here, same⟩ := Token.Stands.extent _ _ _ word
    rw [headSpans, same]
    exact (held.widen equals.reaches (.refl q)).cons (.refl p) here (equals.reaches.trans behind)
  | named word equals name equals' =>
    obtain ⟨here, same⟩ := Token.Stands.extent _ _ _ word
    obtain ⟨here', same'⟩ := Token.Stands.extent _ _ _ name
    have behind' := equals'.reaches.trans behind
    have others := (held.widen equals'.reaches (.refl q)).cons equals.reaches here' behind'
    rw [headSpans, same, Option.map_some, same']
    exact others.cons (.refl p) here (equals.reaches.trans (here'.trans behind'))

/-- The field of a comparison and its name are exact where the head stands. -/
theorem HeadStands.isExact {field : Token} {op : Option Token} (head : HeadStands p field op q) :
    field.IsExact p.text ∧ ∀ name ∈ op, name.IsExact p.text := by
  have exact {word : Token} {text : List Char} (stands : word.StandsIn text) : word.IsExact text := by
    obtain ⟨a, b, rfl, stands⟩ := stands
    exact stands.isExact
  obtain ⟨field, name⟩ := head.standsIn
  exact ⟨exact field, fun op mem => exact (name op mem)⟩

/-- What a parenthesis opens and another one closes is covered along with both. -/
theorem exists_moves_parentheses (opening : Mark '(' p a) (between : a.Reaches b) (closing : Mark ')' b q) :
    ∃ inside, p.Moves ('(' :: (inside ++ [')'])) q := by
  obtain ⟨inside, moves⟩ := between
  exact ⟨inside, Place.Moves.trans opening (moves.trans closing)⟩

/-- A tree that stands between two places of a text is exact in it. -/
theorem Expr.Stands.isExact {expr : Expr} (stands : expr.Stands p q) : expr.IsExact p.text := by
  induction expr using Expr.induct generalizing p q with
  | token word =>
    cases stands with
    | token stands => exact .token stands.isExact
  | list items span =>
    cases stands with
    | list opening parts closing =>
      have between := reaches_of_series Token.Stands.extent parts
      obtain ⟨inside, moves⟩ := exists_moves_parentheses opening between closing
      have held := (holds_of_series Token.Stands.extent parts).widen opening.reaches closing.reaches
      have each := forall_mem_of_series Token.Stands.extent parts fun item _ _ _ stands => stands.isExact
      exact .list moves.covers held (opening.reaches.text_eq ▸ each)
  | call name args span ih =>
    cases stands with
    | call named opening parts closing =>
      have between := reaches_of_series Expr.Stands.extent parts
      obtain ⟨inside, moves⟩ := exists_moves_parentheses opening between closing
      have ahead := named.1.reaches.trans opening.reaches
      have held := (holds_of_series Expr.Stands.extent parts).widen ahead closing.reaches
      have each := forall_mem_of_series Expr.Stands.extent parts fun arg mem _ _ stands => ih arg mem stands
      exact .call (named.1.trans moves).covers held (ahead.text_eq ▸ each)
  | compare field op value span ih =>
    cases stands with
    | @compare _ a _ _ _ _ head read =>
      obtain ⟨reaches, same⟩ := Expr.Stands.extent _ _ _ read
      obtain ⟨taken, covers⟩ := (head.advances.reaches.trans reaches).covers
      obtain ⟨isField, isName⟩ := head.isExact
      have held := head.holds reaches ((holds_nil _).cons (.refl a) reaches (.refl q))
      rw [← same] at held
      exact .compare covers held isField isName (head.advances.reaches.text_eq ▸ ih read)
    | unvalued head =>
      obtain ⟨taken, covers⟩ := head.advances.reaches.covers
      obtain ⟨isField, isName⟩ := head.isExact
      have held := head.holds (.refl q) ((holds_nil _).cons (.refl q) (.refl q) (.refl q))
      have nothing : q.Moves [] q := ⟨(List.append_nil _).symm, rfl⟩
      exact .unvalued covers held isField isName (head.advances.reaches.text_eq ▸ nothing.covers)
  | and segments span ih =>
    cases stands with
    | and several parts =>
      obtain ⟨taken, covers⟩ := (reaches_of_series Expr.Stands.extent parts).covers
      have each := forall_mem_of_series Expr.Stands.extent parts fun part mem _ _ stands => ih part mem stands
      exact .and several covers (holds_of_series Expr.Stands.extent parts) each
  | or segments span ih =>
    cases stands with
    | or several parts =>
      obtain ⟨taken, covers⟩ := (reaches_of_series Expr.Stands.extent parts).covers
      have each := forall_mem_of_series Expr.Stands.extent parts fun part mem _ _ stands => ih part mem stands
      exact .or several covers (holds_of_series Expr.Stands.extent parts) each

/-! ## Positions -/

theorem utf8ByteSize_ofList (cs : List Char) : (String.ofList cs).utf8ByteSize = size cs := by
  induction cs with
  | nil => rfl
  | cons c cs ih =>
    rw [String.ofList_cons, String.utf8ByteSize_append, String.utf8ByteSize_singleton, ih, size_cons]

/-- Behind a leading part of a text no character is cut, and the text is long enough. -/
theorem isValid_of_append {text : String} {before after : List Char} (split : text.toList = before ++ after) :
    size before ≤ text.utf8ByteSize ∧ String.Pos.Raw.IsValid text ⟨size before⟩ := by
  have same : text = String.ofList before ++ String.ofList after := by
    rw [← String.ofList_append, ← split, String.ofList_toList]
  have position : (⟨size before⟩ : String.Pos.Raw) = (String.ofList before).rawEndPos := by
    rw [← utf8ByteSize_ofList]
    rfl
  refine ⟨?_, String.Pos.Raw.isValid_iff_exists_append.2 ⟨_, _, same, position⟩⟩
  rw [same, String.utf8ByteSize_append, utf8ByteSize_ofList]
  exact Nat.le_add_right ..

/-- A span that covers something begins and ends between two characters. -/
theorem Covers.between {text : String} {span : Span} {inside : List Char}
    (covers : Covers text.toList span inside) :
    span.start ≤ span.stop ∧ span.stop ≤ text.utf8ByteSize ∧
      String.Pos.Raw.IsValid text ⟨span.start⟩ ∧ String.Pos.Raw.IsValid text ⟨span.stop⟩ := by
  obtain ⟨before, after, split, rfl⟩ := covers
  obtain ⟨-, start⟩ := isValid_of_append split
  obtain ⟨inBounds, stop⟩ := isValid_of_append (split.trans (List.append_assoc before inside after).symm)
  rw [size_append] at inBounds stop
  exact ⟨Nat.le_add_right .., inBounds, start, stop⟩

/-- The field of a comparison and its name cover their text. -/
theorem exists_covers_of_head {text : List Char} {field : Token} {op : Option Token}
    (isField : field.IsExact text) (isName : ∀ name ∈ op, name.IsExact text) :
    ∀ span ∈ headSpans field op, ∃ inside, Covers text span inside := by
  refine List.forall_mem_cons.2 ⟨⟨_, isField.covers⟩, fun span mem => ?_⟩
  obtain ⟨name, isOp, rfl⟩ := by simpa using mem
  exact ⟨_, (isName name isOp).covers⟩

/-- Every span of an exact tree covers something. -/
theorem Expr.IsExact.exists_covers {text : List Char} {expr : Expr} (exact : expr.IsExact text) :
    ∀ span ∈ expr.spans, ∃ inside, Covers text span inside := by
  have ofParts {exprs : List Expr}
      (each : ∀ expr ∈ exprs, ∀ span ∈ expr.spans, ∃ inside, Covers text span inside) :
      ∀ span ∈ Expr.spansAll exprs, ∃ inside, Covers text span inside := by
    intro span mem
    rw [Expr.spansAll_eq_flatMap] at mem
    obtain ⟨expr, isPart, mem⟩ := List.mem_flatMap.1 mem
    exact each expr isPart span mem
  induction exact with
  | token exact => exact List.forall_mem_singleton.2 ⟨_, exact.covers⟩
  | list covers holds each =>
    refine List.forall_mem_cons.2 ⟨⟨_, covers⟩, List.forall_mem_map.2 fun item mem => ?_⟩
    exact ⟨_, (each item mem).covers⟩
  | call covers holds each ih => exact List.forall_mem_cons.2 ⟨⟨_, covers⟩, ofParts ih⟩
  | compare covers holds isField isName isValue ih =>
    exact List.forall_mem_cons.2 ⟨⟨_, covers⟩,
      List.forall_mem_append.2 ⟨exists_covers_of_head isField isName, ih⟩⟩
  | unvalued covers holds isField isName leftOut =>
    exact List.forall_mem_cons.2 ⟨⟨_, covers⟩,
      List.forall_mem_append.2 ⟨exists_covers_of_head isField isName, by simpa [Expr.spans] using ⟨_, leftOut⟩⟩⟩
  | and several covers holds each ih => exact List.forall_mem_cons.2 ⟨⟨_, covers⟩, ofParts ih⟩
  | or several covers holds each ih => exact List.forall_mem_cons.2 ⟨⟨_, covers⟩, ofParts ih⟩

/-- **Main.** The tree of a query that is accepted is exact, and each of its spans begins and ends between
two characters of the query, in this order. -/
theorem isExact_of_parse {query : String} {maxDepth : Nat} {expr : Expr}
    (parsed : parse query maxDepth = .ok expr) :
    expr.IsExact query.toList ∧
      ∀ span ∈ expr.spans, span.start ≤ span.stop ∧ span.stop ≤ query.utf8ByteSize ∧
        String.Pos.Raw.IsValid query ⟨span.start⟩ ∧ String.Pos.Raw.IsValid query ⟨span.stop⟩ := by
  obtain ⟨p, q, sameText, stands⟩ := standsIn_of_parse parsed
  have exact := sameText ▸ stands.isExact
  refine ⟨exact, fun span mem => ?_⟩
  obtain ⟨inside, covers⟩ := exact.exists_covers span mem
  exact covers.between

/-- Characters of two bytes, a list with blanks, a group and a value that is left out. -/
theorem isExact_of_mixed_query :
    ∃ expr, parse "é=in=( x,ü ) & (f(a, b=))" 2 = .ok expr ∧ expr.IsExact "é=in=( x,ü ) & (f(a, b=))".toList ∧
      expr.spans = [⟨0, 27⟩, ⟨0, 14⟩, ⟨0, 2⟩, ⟨3, 5⟩, ⟨6, 14⟩, ⟨8, 9⟩, ⟨10, 12⟩, ⟨18, 26⟩, ⟨20, 21⟩, ⟨23, 25⟩,
        ⟨23, 24⟩, ⟨25, 25⟩] := by
  have read : (parse "é=in=( x,ü ) & (f(a, b=))" 2).toOption.map Expr.spans = some [⟨0, 27⟩, ⟨0, 14⟩, ⟨0, 2⟩,
      ⟨3, 5⟩, ⟨6, 14⟩, ⟨8, 9⟩, ⟨10, 12⟩, ⟨18, 26⟩, ⟨20, 21⟩, ⟨23, 25⟩, ⟨23, 24⟩, ⟨25, 25⟩] := by
    decide +kernel
  cases parsed : parse "é=in=( x,ü ) & (f(a, b=))" 2 with
  | error refused => simp [parsed, Except.toOption] at read
  | ok expr =>
    rw [parsed] at read
    exact ⟨expr, rfl, (isExact_of_parse parsed).1, Option.some.inj read⟩

end ResourceQuery.Surface
