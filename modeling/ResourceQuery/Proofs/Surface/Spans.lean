import ResourceQuery.Proofs.Surface.Tracking
import ResourceQuery.Proofs.Surface.Trees

/-!
# Where surface trees stand

A surface tree is read from between two places of the query, its span is the span between them, and
its parts stand between them in the order of the text. The parentheses of a group leave no node, so a
tree may stand further inside than the parser that found it has read. A value that is left out is an
empty token where the comparison ends.
-/

namespace ResourceQuery.Surface
set_option autoImplicit false
open Text Grammar Surface.Parser

variable {p q : Place}

/-! ## Standing in a text -/

/-- A token stands between two places: its text and its span are what is between them. -/
structure Token.Stands (p : Place) (word : Token) (q : Place) : Prop where
  moves : p.Moves word.text.toList q
  nonempty : word.text.toList ≠ []
  continues : word.text.toList.all continuesToken = true
  span_eq : word.span = p.spanTo q

/-- The field of a comparison, and perhaps the name of the comparison, each with its `=`. -/
inductive HeadStands : Place → Token → Option Token → Place → Prop
  | plain {p a q : Place} {field : Token} (word : field.Stands p a) (equals : Around '=' a q) :
      HeadStands p field none q
  | named {p a b c q : Place} {field op : Token} (word : field.Stands p a) (equals : Around '=' a b)
      (name : op.Stands b c) (equals' : Around '=' c q) : HeadStands p field (some op) q

/-- A surface tree stands between two places: its span is the one between them, and its parts stand
there in order. -/
inductive Expr.Stands : Place → Expr → Place → Prop
  | token {p q : Place} {word : Token} (stands : word.Stands p q) : Stands p (.token word) q
  | list {p a b q : Place} {items : List Token} (opening : Mark '(' p a)
      (parts : Series Token.Stands a items b) (closing : Mark ')' b q) :
      Stands p (.list items (p.spanTo q)) q
  | call {p a b c q : Place} {name : String} {args : List Expr} (named : Name p name a)
      (opening : Mark '(' a b) (parts : Series Stands b args c) (closing : Mark ')' c q) :
      Stands p (.call name args (p.spanTo q)) q
  | compare {p a q : Place} {field : Token} {op : Option Token} {value : Expr}
      (head : HeadStands p field op a) (read : Stands a value q) :
      Stands p (.compare field op value (p.spanTo q)) q
  | unvalued {p q : Place} {field : Token} {op : Option Token} (head : HeadStands p field op q) :
      Stands p (.compare field op (.token ⟨"", q.spanTo q⟩) (p.spanTo q)) q
  | and {p q : Place} {segments : List Expr} (several : 2 ≤ segments.length)
      (parts : Series Stands p segments q) : Stands p (.and segments (p.spanTo q)) q
  | or {p q : Place} {segments : List Expr} (several : 2 ≤ segments.length)
      (parts : Series Stands p segments q) : Stands p (.or segments (p.spanTo q)) q

/-! ## What stands takes some text -/

theorem Token.Stands.advances {word : Token} (stands : word.Stands p q) : p.Advances q :=
  ⟨word.text.toList, stands.nonempty, stands.moves⟩

theorem Mark.reaches {c : Char} (mark : Mark c p q) : p.Reaches q :=
  Place.Moves.reaches mark

theorem Mark.advances {c : Char} (mark : Mark c p q) : p.Advances q :=
  ⟨[c], by simp, mark⟩

theorem Around.reaches {c : Char} (around : Around c p q) : p.Reaches q := by
  obtain ⟨a, b, ⟨_, _, blanks⟩, mark, ⟨_, _, blanks'⟩⟩ := around
  exact blanks.reaches.trans (mark.reaches.trans blanks'.reaches)

theorem HeadStands.advances {field : Token} {op : Option Token} (head : HeadStands p field op q) :
    p.Advances q := by
  cases head with
  | plain word equals => exact word.advances.trans_reaches equals.reaches
  | named word equals name equals' =>
    exact word.advances.trans_reaches
      (equals.reaches.trans (name.advances.reaches.trans equals'.reaches))

theorem Expr.Stands.span_eq {expr : Expr} (stands : expr.Stands p q) : expr.span = p.spanTo q := by
  cases stands with
  | token stands => exact stands.span_eq
  | _ => rfl

/-- The parts of a series of trees take some text together. -/
theorem advances_of_series {exprs : List Expr} (nonempty : exprs ≠ [])
    (each : ∀ expr ∈ exprs, ∀ a b, expr.Stands a b → a.Advances b)
    (series : Series Expr.Stands p exprs q) : p.Advances q := by
  cases series with
  | nil => exact absurd rfl nonempty
  | cons reaches here others =>
    obtain ⟨first, rest⟩ := List.forall_mem_cons.1 each
    have behind := others.reaches fun expr mem a b stands => (rest expr mem a b stands).reaches
    exact reaches.trans_advances ((first _ _ here).trans_reaches behind)

theorem Expr.Stands.advances {expr : Expr} (stands : expr.Stands p q) : p.Advances q := by
  induction expr using Expr.induct generalizing p q with
  | token word =>
    cases stands with
    | token stands => exact stands.advances
  | list items span =>
    cases stands with
    | list opening parts closing =>
      have inside := parts.reaches fun word _ a b stands => stands.advances.reaches
      exact opening.advances.trans_reaches (inside.trans closing.reaches)
  | call name args span ih =>
    cases stands with
    | call named opening parts closing =>
      have inside := parts.reaches fun arg mem a b stands => (ih arg mem stands).reaches
      exact named.1.reaches.trans_advances
        (opening.advances.trans_reaches (inside.trans closing.reaches))
  | compare field op value span ih =>
    cases stands with
    | compare head read => exact head.advances.trans_reaches (ih read).reaches
    | unvalued head => exact head.advances
  | and segments span ih =>
    cases stands with
    | and several parts =>
      exact advances_of_series (List.ne_nil_of_length_pos (by omega))
        (fun part mem a b stands => ih part mem stands) parts
  | or segments span ih =>
    cases stands with
    | or several parts =>
      exact advances_of_series (List.ne_nil_of_length_pos (by omega))
        (fun part mem a b stands => ih part mem stands) parts

/-! ## Tokens and lists -/

theorem tracks_token : Tracks p token fun word q => word.Stands p q := by
  refine (tracks_word continuesToken continuesToken).located.bind ?_
  rintro _ q _ ⟨_, rfl, moves, first, others, rfl, opening, continues⟩
  refine tracks_pure ⟨by simpa using moves, by simp, ?_, rfl⟩
  rw [String.toList_ofList, List.all_cons, opening, continues, Bool.and_self]

theorem tracks_name : Tracks p name fun text q => Name p text q := by
  refine (tracks_word opensName continuesName).bind ?_
  rintro _ q _ ⟨moves, first, others, rfl, opening, continues⟩
  exact tracks_pure ⟨by simpa using moves, first, others, by simp, opening, continues⟩

/-- Tokens with commas between them, be there none. -/
theorem tracks_tokens : Tracks p (separatedOrNone ',' token) fun items q =>
    Series Token.Stands p items q :=
  tracks_separatedOrNone ',' fun _ => tracks_token.weaken fun _ _ _ stands => .of_relation stands

theorem tracks_list : Tracks p list fun expr q => expr.Stands p q := by
  refine Tracks.bind (Tracks.located (?_ : Tracks p _ fun items q =>
    ∃ a b, Mark '(' p a ∧ Series Token.Stands a items b ∧ Mark ')' b q)) ?_
  · refine (tracks_symbol '(').bind fun _ a _ opening => ?_
    refine tracks_spacing.bind fun _ b ahead _ => tracks_tokens.bind fun items c _ parts => ?_
    refine tracks_spacing.bind fun _ d behind _ => (tracks_symbol ')').bind fun _ e _ closing => ?_
    exact tracks_pure ⟨a, d, opening, parts.widen ahead behind, closing⟩
  · rintro _ q _ ⟨items, rfl, a, b, opening, parts, closing⟩
    exact tracks_pure (.list opening parts closing)

/-! ## Shorthand comparisons -/

/-- Behind the first `=` the name of a comparison belongs to the head if a second `=` follows. -/
theorem tracks_comparisonName {a : Place} {field : Token} (word : field.Stands p a)
    (equals : Around '=' a q) : Tracks q comparisonName fun op b => HeadStands p field op b := by
  refine Tracks.optional (tracks_token.bind fun op b _ stands => ?_) (fun _ _ _ holds => holds)
    (.plain word equals)
  exact (tracks_delimiter '=').bind fun _ c _ equals' => tracks_pure (.named word equals stands equals')

/-- A token, or an empty one that takes no text. -/
theorem tracks_optionalToken : Tracks p optionalToken fun word q =>
    word.Stands p q ∨ word = ⟨"", q.spanTo q⟩ ∧ p = q := by
  refine Tracks.bind (Tracks.located (?_ : Tracks p _ fun found q =>
    (∃ word, found = some word ∧ word.Stands p q) ∨ found = none ∧ p = q)) ?_
  · exact tracks_token.optional (fun word _ _ stands => .inl ⟨word, rfl, stands⟩) (.inr ⟨rfl, rfl⟩)
  · rintro _ q _ ⟨_, rfl, ⟨word, rfl, stands⟩ | ⟨rfl, rfl⟩⟩
    · exact tracks_pure (.inl stands)
    · exact tracks_pure (.inr ⟨rfl, rfl⟩)

/-- The value of a comparison, or an empty token where the value is left out. -/
theorem tracks_value : Tracks p value fun expr q =>
    expr.Stands p q ∨ expr = .token ⟨"", q.spanTo q⟩ ∧ p = q := by
  refine (tracks_list.weaken fun _ _ _ stands => .inl stands).orElse (tracks_optionalToken.map ?_)
  rintro word q _ (stands | ⟨rfl, rfl⟩)
  · exact .inl (.token stands)
  · exact .inr ⟨rfl, rfl⟩

theorem tracks_comparison : Tracks p comparison fun expr q => expr.Stands p q := by
  refine Tracks.bind (Tracks.located (?_ : Tracks p _ fun found q =>
    (.compare found.1 found.2.1 found.2.2 (p.spanTo q) : Expr).Stands p q)) ?_
  · refine tracks_token.bind fun field a _ word => (tracks_delimiter '=').bind fun _ b _ equals => ?_
    refine (tracks_comparisonName word equals).bind fun op c _ head => ?_
    refine tracks_value.bind fun value q _ read => tracks_pure ?_
    rcases read with stands | ⟨rfl, rfl⟩
    · exact .compare head stands
    · exact .unvalued head
  · rintro _ q _ ⟨_, rfl, stands⟩
    exact tracks_pure stands

/-! ## Nested parts -/

/-- From every place on, what a parser finds stands somewhere between there and where it ends. -/
def TracksTrees (parser : Parser Expr) : Prop :=
  ∀ p, Tracks p parser (Within Expr.Stands p)

section Levels

variable {nested : Nested} (query : TracksTrees nested.query) (argument : TracksTrees nested.argument)
include query

theorem tracks_group : TracksTrees (group nested) := by
  intro p
  refine (tracks_symbol '(').bind fun _ a _ opening => tracks_spacing.bind fun _ b ahead _ => ?_
  refine (query b).bind fun inside c _ within => tracks_spacing.bind fun _ d behind _ => ?_
  refine (tracks_symbol ')').committed.bind fun _ q _ closing => tracks_pure ?_
  exact within.widen (opening.reaches.trans ahead) (behind.trans closing.reaches)

omit query in
include argument in
theorem tracks_call : Tracks p (call nested) fun expr q => expr.Stands p q := by
  refine Tracks.bind (Tracks.located (?_ : Tracks p _ fun found q =>
    ∃ a b c, Name p found.1 a ∧ Mark '(' a b ∧ Series Expr.Stands b found.2 c ∧ Mark ')' c q)) ?_
  · refine tracks_name.bind fun name a _ named => (tracks_symbol '(').bind fun _ b _ opening => ?_
    refine Tracks.bind (Tracks.committed (?_ : Tracks b _ fun args q =>
      ∃ c, Series Expr.Stands b args c ∧ Mark ')' c q)) ?_
    · refine tracks_spacing.bind fun _ c ahead _ => ?_
      refine (tracks_separatedOrNone ',' argument).bind fun args d _ parts => ?_
      refine tracks_spacing.bind fun _ e behind _ => (tracks_symbol ')').bind fun _ q _ closing => ?_
      exact tracks_pure ⟨e, parts.widen ahead behind, closing⟩
    · rintro args q _ ⟨c, parts, closing⟩
      exact tracks_pure ⟨a, b, c, named, opening, parts, closing⟩
  · rintro _ q _ ⟨_, rfl, a, b, c, named, opening, parts, closing⟩
    exact tracks_pure (.call named opening parts closing)

include argument in
theorem tracks_term : TracksTrees (term nested) := fun p =>
  (tracks_group query p).orElse <|
    Tracks.orElse ((tracks_call argument).weaken fun _ _ _ stands => .of_relation stands)
      (tracks_comparison.weaken fun _ _ _ stands => .of_relation stands)

omit query in
/-- One segment stands where it stands by itself; several stand where the whole does. -/
theorem tracks_joined {c : Char} {element : Parser Expr} (each : TracksTrees element)
    {wrap : List Expr → Span → Expr}
    (wrapped : ∀ segments p q, 2 ≤ segments.length → Series Expr.Stands p segments q →
      (wrap segments (p.spanTo q)).Stands p q) :
    Tracks p
      (do
        let (segments, span) ← located (separated c element)
        return join wrap span segments)
      (Within Expr.Stands p) := by
  refine (tracks_separated c each).located.bind ?_
  rintro _ q _ ⟨segments, rfl, nonempty, parts⟩
  obtain _ | ⟨first, _ | ⟨second, others⟩⟩ := segments
  · exact absurd rfl nonempty
  · -- A single segment leaves no node of its own, and in a group it stands further inside.
    have stands := parts.within_of_mem (fun _ _ _ _ stands => stands.advances.reaches)
      (List.mem_singleton_self first)
    exact tracks_pure stands
  · exact tracks_pure (.of_relation (wrapped _ p q (by simp) parts))

include argument in
theorem tracks_conjunction : TracksTrees (conjunction nested) := fun _ =>
  tracks_joined (tracks_term query argument) fun _ _ _ several parts => .and several parts

include argument in
theorem tracks_disjunction : TracksTrees (disjunction nested) := fun _ =>
  tracks_joined (tracks_conjunction query argument) fun _ _ _ several parts => .or several parts

include argument in
theorem tracks_argument : TracksTrees (Grammar.argument nested) := fun p => by
  have tree {parser : Parser Expr} (tracks : Tracks p parser fun expr q => expr.Stands p q) :
      Tracks p parser (Within Expr.Stands p) :=
    tracks.weaken fun _ _ _ stands => .of_relation stands
  refine (tree (tracks_call argument)).orElse <| (tree tracks_comparison).orElse <|
    (tracks_group query p).orElse <| (tree tracks_list).orElse (tree ?_)
  exact tracks_token.map fun _ _ _ stands => .token stands

end Levels

/-- What may stand inside of parentheses is read from where it stands, however deep they are nested. -/
theorem tracks_nested (levels : Nat) :
    TracksTrees (nested levels).query ∧ TracksTrees (nested levels).argument := by
  induction levels with
  | zero => exact ⟨fun p => .missed (.refl p), fun p => .missed (.refl p)⟩
  | succ levels ih => exact ⟨tracks_disjunction ih.1 ih.2, tracks_argument ih.1 ih.2⟩

theorem tracks_whole (text : List Char) : Tracks p (whole text) (Within Expr.Stands p) := by
  refine tracks_spacing.bind fun _ a ahead _ => ((tracks_nested _).1 a).bind fun expr b _ within => ?_
  exact tracks_spacing.bind fun _ q behind _ => tracks_pure (within.widen ahead behind)

/-! ## Parts of a tree in a text -/

mutual

/-- The spans of a surface tree, of all its parts and of all their tokens. -/
def Expr.spans : Expr → List Span
  | .token word => [word.span]
  | .list items span => span :: items.map Token.span
  | .call _ args span => span :: Expr.spansAll args
  | .compare field op value span =>
    span :: field.span :: ((op.map Token.span).toList ++ value.spans)
  | .and segments span => span :: Expr.spansAll segments
  | .or segments span => span :: Expr.spansAll segments

/-- The spans of several surface trees. -/
def Expr.spansAll : List Expr → List Span
  | [] => []
  | expr :: exprs => expr.spans ++ Expr.spansAll exprs

end

@[simp] theorem Expr.spansAll_eq_flatMap (exprs : List Expr) :
    Expr.spansAll exprs = exprs.flatMap Expr.spans := by
  induction exprs with
  | nil => rfl
  | cons expr exprs ih => simp [Expr.spansAll, ih]

theorem Expr.spans_subset_spansAll {expr : Expr} {exprs : List Expr} (mem : expr ∈ exprs) :
    expr.spans ⊆ Expr.spansAll exprs := by
  intro span spanMem
  rw [Expr.spansAll_eq_flatMap]
  exact List.mem_flatMap.2 ⟨expr, mem, spanMem⟩

theorem Expr.span_mem_spans (expr : Expr) : expr.span ∈ expr.spans := by
  cases expr <;> simp [Expr.spans, Expr.span]

/-- The span covers some characters of the text. -/
def Shows (text : List Char) (span : Span) : Prop :=
  ∃ before inside after, text = before ++ (inside ++ after) ∧ inside ≠ [] ∧
    span = ⟨size before, size before + size inside⟩

theorem Place.Advances.shows (advances : p.Advances q) : Shows p.text (p.spanTo q) := by
  obtain ⟨taken, nonempty, before, after⟩ := advances
  refine ⟨p.before, taken, q.after, ?_, nonempty, ?_⟩
  · rw [text, after]
  · rw [spanTo, before, size_append]

/-- A span that covers characters is not empty. -/
theorem Shows.isEmpty {text : List Char} {span : Span} (shows' : Shows text span) :
    span.isEmpty = false := by
  obtain ⟨before, inside, after, -, nonempty, rfl⟩ := shows'
  obtain ⟨c, cs, rfl⟩ := List.exists_cons_of_ne_nil nonempty
  have positive := c.utf8Size_pos
  have crossed : ¬size before + size (c :: cs) ≤ size before := by
    rw [size_cons]
    omega
  exact decide_eq_false crossed

/-- A token stands somewhere in a text. -/
def Token.StandsIn (text : List Char) (word : Token) : Prop :=
  ∃ p q : Place, p.text = text ∧ word.Stands p q

/-- A surface tree stands somewhere in a text. -/
def Expr.StandsIn (text : List Char) (expr : Expr) : Prop :=
  ∃ p q : Place, p.text = text ∧ expr.Stands p q

section StandsIn

variable {text : List Char} {expr : Expr} {word : Token} {span : Span}

theorem Token.StandsIn.shows (stands : word.StandsIn text) : Shows text word.span := by
  obtain ⟨p, q, rfl, stands⟩ := stands
  exact stands.span_eq ▸ stands.advances.shows

/-- The field of a comparison and its name stand in the text that the head stands in. -/
theorem HeadStands.standsIn {p q : Place} {field : Token} {op : Option Token}
    (head : HeadStands p field op q) :
    field.StandsIn p.text ∧ ∀ name ∈ op, name.StandsIn p.text := by
  cases head with
  | plain word equals => exact ⟨⟨_, _, rfl, word⟩, by simp⟩
  | named word equals name equals' =>
    refine ⟨⟨_, _, rfl, word⟩, fun op mem => ?_⟩
    obtain rfl := Option.some.inj mem
    exact ⟨_, _, (word.advances.reaches.trans equals.reaches).text_eq, name⟩

namespace Expr.StandsIn

theorem shows (stands : expr.StandsIn text) : Shows text expr.span := by
  obtain ⟨p, q, rfl, stands⟩ := stands
  exact stands.span_eq ▸ stands.advances.shows

theorem token (stands : (Expr.token word).StandsIn text) : word.StandsIn text := by
  obtain ⟨p, q, rfl, stands⟩ := stands
  cases stands with
  | token stands => exact ⟨p, q, rfl, stands⟩

theorem items {items : List Token} (stands : (Expr.list items span).StandsIn text) :
    ∀ item ∈ items, item.StandsIn text := by
  intro item mem
  obtain ⟨p, q, rfl, stands⟩ := stands
  cases stands with
  | list opening parts closing =>
    obtain ⟨a, b, ahead, stands, -⟩ :=
      parts.within_of_mem (fun _ _ _ _ stands => stands.advances.reaches) mem
    exact ⟨a, b, (opening.reaches.trans ahead).text_eq, stands⟩

/-- The parts of a series of trees stand in the text that the series stands in. -/
theorem of_series {p q : Place} {exprs : List Expr} (parts : Series Expr.Stands p exprs q)
    (mem : expr ∈ exprs) : expr.StandsIn p.text := by
  obtain ⟨a, b, ahead, stands, -⟩ :=
    parts.within_of_mem (fun _ _ _ _ stands => stands.advances.reaches) mem
  exact ⟨a, b, ahead.text_eq, stands⟩

theorem args {name : String} {args : List Expr} (stands : (Expr.call name args span).StandsIn text) :
    ∀ arg ∈ args, arg.StandsIn text := by
  intro arg mem
  obtain ⟨p, q, rfl, stands⟩ := stands
  cases stands with
  | call named opening parts closing =>
    rw [← (named.1.reaches.trans opening.reaches).text_eq]
    exact of_series parts mem

theorem conjuncts {segments : List Expr} (stands : (Expr.and segments span).StandsIn text) :
    ∀ part ∈ segments, part.StandsIn text := by
  intro part mem
  obtain ⟨p, q, rfl, stands⟩ := stands
  cases stands with
  | and several parts => exact of_series parts mem

theorem disjuncts {segments : List Expr} (stands : (Expr.or segments span).StandsIn text) :
    ∀ part ∈ segments, part.StandsIn text := by
  intro part mem
  obtain ⟨p, q, rfl, stands⟩ := stands
  cases stands with
  | or several parts => exact of_series parts mem

/-- The field of a comparison and its name stand in the text, and so does its value, unless it is
left out. -/
theorem compared {field : Token} {op : Option Token} {value : Expr}
    (stands : (Expr.compare field op value span).StandsIn text) :
    field.StandsIn text ∧ (∀ name ∈ op, name.StandsIn text) ∧
      (value.StandsIn text ∨ ∃ span, value = .token ⟨"", span⟩) := by
  obtain ⟨p, q, rfl, stands⟩ := stands
  cases stands with
  | compare head read =>
    obtain ⟨word, name⟩ := head.standsIn
    exact ⟨word, name, .inl ⟨_, _, head.advances.reaches.text_eq, read⟩⟩
  | unvalued head =>
    obtain ⟨word, name⟩ := head.standsIn
    exact ⟨word, name, .inr ⟨_, rfl⟩⟩

end Expr.StandsIn

end StandsIn

/-! ## Parsing -/

/-- The first parenthesis too many stands behind the part of the text in front of it. -/
theorem exists_of_tooDeepAt? {limit depth offset position : Nat} {cs : List Char}
    (deep : tooDeepAt? limit depth offset cs = some position) :
    ∃ taken rest, cs = taken ++ rest ∧ position = offset + size taken := by
  induction cs generalizing depth offset with
  | nil => simp [tooDeepAt?] at deep
  | cons c cs ih =>
    have further {depth : Nat} (deep : tooDeepAt? limit depth (offset + c.utf8Size) cs = some position) :
        ∃ taken rest, c :: cs = taken ++ rest ∧ position = offset + size taken := by
      obtain ⟨taken, rest, rfl, rfl⟩ := ih deep
      exact ⟨c :: taken, rest, rfl, by rw [size_cons, Nat.add_assoc]⟩
    unfold tooDeepAt? at deep
    split at deep
    · split at deep
      · exact ⟨[], c :: cs, rfl, (Option.some.inj deep).symm⟩
      · exact further deep
    · split at deep
      · exact further deep
      · exact further deep

/-- The parser of a whole query, from the start of the query on. -/
theorem tracks_start (text : List Char) :
    EndsAt (.start text) (Within Expr.Stands (.start text)) (whole text ⟨0, text⟩) :=
  tracks_whole text

/-- What is read of a query stands in it. -/
theorem standsIn_of_parse {query : String} {maxDepth : Nat} {expr : Expr}
    (parsed : parse query maxDepth = .ok expr) : expr.StandsIn query.toList := by
  have tracks := tracks_start query.toList
  simp only [parse] at parsed
  split at parsed
  · simp at parsed
  split at parsed
  · simp at parsed
  split at parsed
  · next found =>
    split at parsed
    · obtain rfl := Except.ok.inj parsed
      rw [found] at tracks
      cases tracks with
      | found reaches within =>
        obtain ⟨a, b, ahead, stands, -⟩ := within
        exact ⟨a, b, ahead.text_eq, stands⟩
    · simp at parsed
  · simp at parsed
  · simp at parsed

/-- A query is refused at a place of it, with all that follows the place. -/
theorem exists_remainder_of_parse {query : String} {maxDepth : Nat} {error : ParseError}
    (refused : parse query maxDepth = .error error) :
    ∃ before after fault, query.toList = before ++ after ∧
      error = .atRemainder query (size before) fault := by
  have tracks := tracks_start query.toList
  have place {q : Place} (reaches : (Place.start query.toList).Reaches q) :
      query.toList = q.before ++ q.after := reaches.text_eq.symm
  simp only [parse] at refused
  split at refused
  · exact ⟨[], query.toList, .emptyQuery, rfl, (Except.error.inj refused).symm⟩
  split at refused
  · next deep =>
    obtain ⟨taken, rest, split, rfl⟩ := exists_of_tooDeepAt? deep
    exact ⟨taken, rest, .tooDeep maxDepth, split, by simpa using (Except.error.inj refused).symm⟩
  split at refused
  · next found =>
    rw [found] at tracks
    cases tracks with
    | found reaches within =>
      split at refused
      · simp at refused
      · exact ⟨_, _, .leftover, place reaches, (Except.error.inj refused).symm⟩
  · next missed =>
    rw [missed] at tracks
    cases tracks with
    | missed reaches => exact ⟨_, _, .malformed, place reaches, (Except.error.inj refused).symm⟩
  · next unclosed =>
    rw [unclosed] at tracks
    cases tracks with
    | unclosed reaches => exact ⟨_, _, .unclosed, place reaches, (Except.error.inj refused).symm⟩

end ResourceQuery.Surface
