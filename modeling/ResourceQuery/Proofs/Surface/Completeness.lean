import ResourceQuery.Proofs.Surface.Completeness.FlatRules

/-!
# What is derived, the grammar reads

The other direction: where a rule derives something and nothing that could continue it follows, the
parser of the rule finds it. An earlier alternative is never in the way: it misses on the text of a
later one, and where it does not miss the choice was right.
-/

namespace ResourceQuery.Surface
set_option autoImplicit false
open Text Grammar Surface.Parser

variable {p q : Place} {cursor next : Cursor} {form : Form} {forms : List Form}

/-! ## What derivations cover -/

theorem Place.Moves.suffix {taken : List Char} (moves : p.Moves taken q) : q.after <:+ p.after :=
  ⟨taken, moves.2.symm⟩

theorem Blanks.suffix (blanks : Blanks p q) : q.after <:+ p.after := by
  obtain ⟨_, _, moves⟩ := blanks
  exact moves.suffix

theorem Around.suffix {c : Char} (around : Around c p q) : q.after <:+ p.after := by
  obtain ⟨a, b, blanks, mark, blanks'⟩ := around
  exact blanks'.suffix.trans ((Place.Moves.suffix mark).trans blanks.suffix)

/-- A delimiter takes one of its marks. -/
theorem Around.count_lt {c : Char} (around : Around c p q) :
    q.after.count c < p.after.count c := by
  obtain ⟨a, b, blanks, mark, blanks'⟩ := around
  have before := blanks.suffix.sublist.count_le c
  have behind := blanks'.suffix.sublist.count_le c
  rw [mark.2, List.singleton_append, List.count_cons_self] at before
  omega

theorem Words.suffix {texts : List String} (words : Words p texts q) : q.after <:+ p.after := by
  induction words with
  | nil => exact List.suffix_refl _
  | cons comma word others ih => exact ih.trans (word.1.suffix.trans comma.suffix)

theorem DerivesList.suffix (list : DerivesList p form q) : q.after <:+ p.after := by
  cases list with
  | none opening blanks closing =>
    exact (Place.Moves.suffix closing).trans (blanks.suffix.trans (Place.Moves.suffix opening))
  | some opening blanks word others blanks' closing =>
    exact (Place.Moves.suffix closing).trans (blanks'.suffix.trans (others.suffix.trans
      (word.1.suffix.trans (blanks.suffix.trans (Place.Moves.suffix opening)))))

theorem DerivesValue.suffix (derived : DerivesValue p form q) : q.after <:+ p.after := by
  cases derived with
  | list list => exact list.suffix
  | token word => exact word.1.suffix
  | empty => exact List.suffix_refl _

theorem DerivesComparison.suffix (derived : DerivesComparison p form q) :
    q.after <:+ p.after := by
  cases derived with
  | plain word equals read => exact read.suffix.trans (equals.suffix.trans word.1.suffix)
  | named word equals name equals' read =>
    exact read.suffix.trans (equals'.suffix.trans (name.1.suffix.trans
      (equals.suffix.trans word.1.suffix)))

theorem DerivesComparison.opens (derived : DerivesComparison p form q) : p.Opens := by
  obtain ⟨_, _, _, word, _⟩ := derived.word
  exact word.opens

theorem Mark.opens (opening : Mark '(' p q) : p.Opens :=
  ⟨'(', q.after, opening.2, .inl rfl⟩

/-- What a rule derives starts with a parenthesis or a token and ends further on in the text. -/
theorem Derives.covers {rule : Rule} (derives : Derives rule p form q) :
    p.Opens ∧ q.after <:+ p.after := by
  refine Derives.rec (motive_1 := fun _ p _ q _ => p.Opens ∧ q.after <:+ p.after)
    (motive_2 := fun _ p _ q _ => q.after <:+ p.after)
    ?disjunction ?conjunction ?termGroup ?termCall ?termComparison ?group ?callNone ?callSome
    ?argumentCall ?argumentComparison ?argumentGroup ?argumentList ?argumentToken ?nil ?cons derives
  case disjunction | conjunction =>
    intro p a q form forms _ _ first others
    exact ⟨first.1, others.trans first.2⟩
  case termGroup | termCall | argumentCall | argumentGroup =>
    intro p q form _ part
    exact part
  case termComparison | argumentComparison =>
    intro p q form comparison
    exact ⟨comparison.opens, comparison.suffix⟩
  case group =>
    intro p a b c d q form opening blanks _ blanks' closing inside
    exact ⟨opening.opens, (Place.Moves.suffix closing).trans (blanks'.suffix.trans
      (inside.2.trans (blanks.suffix.trans (Place.Moves.suffix opening))))⟩
  case callNone =>
    intro p a b c q name named opening blanks closing
    obtain ⟨d, cs, after, continues⟩ := named.opens
    exact ⟨⟨d, cs, after, .inr continues⟩, (Place.Moves.suffix closing).trans (blanks.suffix.trans
      ((Place.Moves.suffix opening).trans named.1.suffix))⟩
  case callSome =>
    intro p a b c d e f q name form forms named opening blanks _ _ blanks' closing first others
    obtain ⟨d, cs, after, continues⟩ := named.opens
    exact ⟨⟨d, cs, after, .inr continues⟩, (Place.Moves.suffix closing).trans (blanks'.suffix.trans
      (others.trans (first.2.trans (blanks.suffix.trans
        ((Place.Moves.suffix opening).trans named.1.suffix)))))⟩
  case argumentList =>
    intro p q form list
    obtain ⟨a, opening⟩ := list.opening
    exact ⟨opening.opens, list.suffix⟩
  case argumentToken =>
    intro p q text word
    exact ⟨word.opens, word.1.suffix⟩
  case nil =>
    intro rule p
    exact List.suffix_refl _
  case cons =>
    intro rule p a b q form forms between _ _ part others
    exact others.trans (part.2.trans between.suffix)

/-- There are at least as many delimiters in a text as there are parts behind delimiters. -/
theorem DerivesTail.length_le {rule : Rule} (tail : DerivesTail rule p forms q) :
    forms.length ≤ p.after.count rule.separator := by
  induction forms generalizing p with
  | nil => exact Nat.zero_le _
  | cons form forms ih =>
    cases tail with
    | cons between part others =>
      have fewer := between.count_lt
      have kept := part.covers.2.sublist.count_le rule.separator
      have more := ih others
      rw [List.length_cons]
      omega

/-! ## Nested parts -/

/-- What may stand behind the parts that a rule derives. -/
def Rule.follow : Rule → Char → Bool
  | .disjunction, c => c == ')'
  | .conjunction, c => c == ')' || c == '|'
  | .term, c => c == ')' || c == '|' || c == '&'
  | .argument, c => c == ')' || c == ','
  | .group, _ | .call, _ => true

/-- What may stand behind the last of several parts that a rule derives. -/
def Rule.close (rule : Rule) (c : Char) : Bool :=
  rule.follow c && c != rule.separator

/-- The parser of a rule. -/
def Rule.parser : Rule → Nested → Parser Expr
  | .disjunction => Grammar.disjunction
  | .conjunction => Grammar.conjunction
  | .term => Grammar.term
  | .group => Grammar.group
  | .call => Grammar.call
  | .argument => Grammar.argument

/-- Where a rule derives a form, its parser finds it, if it can go as deep as parentheses follow
and nothing stands behind that could continue the form. -/
def FindsRule (rule : Rule) (p : Place) (form : Form) (q : Place) : Prop :=
  ∀ levels cursor, p.after.count '(' ≤ levels → cursor.rest = p.after → q.Follows rule.follow →
    Finds (rule.parser (nested levels)) cursor form q

/-- Where a rule derives further parts, they are found one by one. -/
def FindsTail (rule : Rule) (p : Place) (forms : List Form) (q : Place) : Prop :=
  ∀ levels rounds cursor, forms.length ≤ rounds → p.after.count '(' ≤ levels → Meets cursor p →
    q.Follows rule.close →
    ∃ exprs next, further rule.separator (rule.parser (nested levels)) rounds cursor =
      .found exprs next ∧ exprs.map Expr.form = forms ∧ Meets next q

theorem findsTail_nil {rule : Rule} : FindsTail rule p [] p := by
  intro levels rounds cursor _ _ here follows
  refine ⟨[], cursor, ?_, rfl, here⟩
  cases rounds with
  | zero => rfl
  | succ rounds =>
    have other := follows.not_mem (c := rule.separator) (by simp [Rule.close])
    rw [further, orElse_of_misses (bind_misses (delimiter_misses here other))]
    rfl

/-- Behind a part stands the delimiter of the next one, or what may stand behind the last. -/
theorem DerivesTail.follows {rule : Rule} (tail : DerivesTail rule p forms q)
    (isMark : isDelimiter rule.separator = true) (isFollowed : rule.follow rule.separator = true)
    (follows : q.Follows rule.close) : p.Follows rule.follow := by
  cases tail with
  | nil => exact follows.weaken fun c allowed => (Bool.and_eq_true_iff.1 allowed).1
  | cons between => exact follows_of_around between isMark isFollowed

theorem findsTail_cons {rule : Rule} {a b : Place} (isMark : isDelimiter rule.separator = true)
    (between : Around rule.separator p a) (derives : Derives rule a form b)
    (tail : DerivesTail rule b forms q) (isFollowed : rule.follow rule.separator = true)
    (part : FindsRule rule a form b) (others : FindsTail rule b forms q) :
    FindsTail rule p (form :: forms) q := by
  intro levels rounds cursor enough deep here follows
  cases rounds with
  | zero => simp at enough
  | succ rounds =>
    obtain ⟨opens, covered⟩ := derives.covers
    obtain ⟨_, first, rest⟩ := delimiter_of_around here between isMark
    have deepA := Nat.le_trans (between.suffix.sublist.count_le '(') deep
    obtain ⟨expr, _, found, rfl, meets⟩ := part levels _ deepA (rest.trans opens.dropWhile)
      (tail.follows isMark isFollowed follows)
    obtain ⟨exprs, next, more, rfl, meets⟩ := others levels rounds _ (by simpa using enough)
      (Nat.le_trans (covered.sublist.count_le '(') deepA) meets follows
    refine ⟨expr :: exprs, next, orElse_of_found ?_, rfl, meets⟩
    simp only [bind_eq_found, pure_eq_found]
    exact ⟨_, _, first, expr, _, found, exprs, _, more, rfl, rfl⟩

/-- A part and further ones behind delimiters are found together. -/
theorem separated_of_finds {rule : Rule} {a : Place} {levels : Nat}
    (isMark : isDelimiter rule.separator = true) (isFollowed : rule.follow rule.separator = true)
    (derives : Derives rule p form a) (tail : DerivesTail rule a forms q)
    (part : FindsRule rule p form a) (others : FindsTail rule a forms q)
    (deep : p.after.count '(' ≤ levels) (here : cursor.rest = p.after)
    (follows : q.Follows rule.close) :
    ∃ exprs next, separated rule.separator (rule.parser (nested levels)) cursor =
      .found exprs next ∧ exprs.map Expr.form = form :: forms ∧ Meets next q := by
  obtain ⟨expr, mid, found, rfl, meets⟩ :=
    part levels cursor deep here (tail.follows isMark isFollowed follows)
  have deepA := Nat.le_trans (derives.covers.2.sublist.count_le '(') deep
  have enough := Nat.le_trans tail.length_le (count_le_of_meets isMark meets)
  obtain ⟨exprs, next, more, rfl, meets⟩ := others levels _ mid enough deepA meets follows
  exact ⟨expr :: exprs, next, separated_eq_found.2 ⟨expr, mid, exprs, found, more, rfl⟩, rfl, meets⟩

theorem finds_group {a b c d : Place} (opening : Mark '(' p a) (blanks : Blanks a b)
    (derives : Derives .disjunction b form c) (blanks' : Blanks c d) (closing : Mark ')' d q)
    (inside : FindsRule .disjunction b form c) : FindsRule .group p form q := by
  intro levels cursor deep here _
  -- The parenthesis that opens the group is the one that the level below need not read.
  have deepB := blanks.suffix.sublist.count_le '('
  rw [opening.2, List.singleton_append, List.count_cons_self] at deep
  cases levels with
  | zero => simp at deep
  | succ levels =>
    obtain ⟨_, first, rest⟩ := symbol_of_mark here opening
    obtain ⟨_, second, rest⟩ := spacing_of_blanks (meets_of_rest rest) blanks
    obtain ⟨expr, _, found, rfl, meets⟩ := inside levels _ (by omega)
      (rest.trans derives.covers.1.dropWhile) (follows_of_blanks blanks' closing rfl rfl)
    obtain ⟨_, next, third, fourth, rest⟩ := symbol_of_blanks meets blanks' closing rfl
    refine ⟨expr, next, ?_, rfl, meets_of_rest rest⟩
    simp only [Rule.parser, Grammar.group, bind_eq_found, committed_eq_found, pure_eq_found]
    exact ⟨_, _, first, _, _, second, expr, _, found, _, _, third, _, _, fourth, rfl, rfl⟩

theorem finds_callNone {a b c : Place} {text : String} (named : Name p text a)
    (opening : Mark '(' a b) (blanks : Blanks b c) (closing : Mark ')' c q) :
    FindsRule .call p (.call text []) q := by
  intro levels cursor _ here _
  obtain ⟨_, first, rest⟩ := name_of_named here named opening
  obtain ⟨_, second, rest⟩ := symbol_of_mark rest opening
  obtain ⟨mid, third, rest⟩ := spacing_of_blanks (meets_of_rest rest) blanks
  obtain ⟨_, next, fourth, fifth, rest'⟩ :=
    symbol_of_blanks (meets_of_rest_dropWhile rest) (.refl _) closing rfl
  rw [closing.dropWhile rfl, closing.2] at rest
  have ends : ∀ c ∈ mid.rest.head?, continuesToken c = false := by
    rw [rest]
    rintro c ⟨⟩
    rfl
  have misses : Misses (nested levels).argument mid := by
    cases levels with
    | zero => exact ⟨mid, rfl⟩
    | succ levels =>
      exact orElse_misses (call_misses_of_head ends) (orElse_misses (comparison_misses_of_head ends)
        (orElse_misses (group_misses_of_head (by simp [rest])) (orElse_misses
          (list_misses (by simp [rest])) (map_misses (token_misses ends)))))
  refine ⟨.call text [] ⟨cursor.offset, next.offset⟩, next, ?_, rfl, meets_of_rest rest'⟩
  simp only [Rule.parser, Grammar.call, bind_eq_found, committed_eq_found, located_eq_found,
    pure_eq_found]
  exact ⟨_, _, ⟨_, ⟨_, _, first, _, _, second, _, _, ⟨_, _, third, _, _,
    separatedOrNone_of_misses misses, _, _, fourth, _, _, fifth, rfl, rfl⟩, rfl, rfl⟩, rfl⟩, rfl,
    rfl⟩

theorem finds_callSome {a b c d e f : Place} {text : String} (named : Name p text a)
    (opening : Mark '(' a b) (blanks : Blanks b c) (derives : Derives .argument c form d)
    (tail : DerivesTail .argument d forms e) (blanks' : Blanks e f) (closing : Mark ')' f q)
    (part : FindsRule .argument c form d) (others : FindsTail .argument d forms e) :
    FindsRule .call p (.call text (form :: forms)) q := by
  intro levels cursor deep here _
  have deepC := blanks.suffix.sublist.count_le '('
  have deepB := named.1.suffix.sublist.count_le '('
  rw [opening.2, List.singleton_append, List.count_cons_self] at deepB
  cases levels with
  | zero => omega
  | succ levels =>
    obtain ⟨_, first, rest⟩ := name_of_named here named opening
    obtain ⟨_, second, rest⟩ := symbol_of_mark rest opening
    obtain ⟨_, third, rest⟩ := spacing_of_blanks (meets_of_rest rest) blanks
    have enough : c.after.count '(' ≤ levels := by omega
    obtain ⟨exprs, _, found, same, meets⟩ := separated_of_finds rfl rfl derives tail part others
      enough (rest.trans derives.covers.1.dropWhile) (follows_of_blanks blanks' closing rfl rfl)
    obtain ⟨_, next, fourth, fifth, rest⟩ := symbol_of_blanks meets blanks' closing rfl
    refine ⟨.call text exprs ⟨cursor.offset, next.offset⟩, next, ?_,
      by simp [Expr.form, same], meets_of_rest rest⟩
    simp only [Rule.parser, Grammar.call, bind_eq_found, committed_eq_found, located_eq_found,
      pure_eq_found]
    exact ⟨_, _, ⟨_, ⟨_, _, first, _, _, second, _, _, ⟨_, _, third, _, _,
      orElse_of_found found, _, _, fourth, _, _, fifth, rfl, rfl⟩, rfl, rfl⟩, rfl⟩, rfl, rfl⟩

/-- Neither a group nor a call is read where a comparison stands. -/
theorem misses_of_comparison {nested : Nested} (derived : DerivesComparison p form q)
    (here : cursor.rest = p.after) : Misses (group nested) cursor ∧ Misses (call nested) cursor := by
  obtain ⟨field, a, b, word, equals⟩ := derived.word
  have follows : a.Follows (· == '=') := follows_of_around equals rfl rfl
  exact ⟨group_misses_of_head (here ▸ word.not_parenthesis),
    call_misses_of_word here word follows.not_parenthesis⟩

/-- No group is read where a call stands. -/
theorem group_misses_of_call {nested : Nested} (derives : Derives .call p form q)
    (here : cursor.rest = p.after) : Misses (group nested) cursor := by
  have name : ∃ text a, Name p text a := by
    cases derives with
    | callNone named | callSome named => exact ⟨_, _, named⟩
  obtain ⟨text, a, named⟩ := name
  obtain ⟨c, cs, after, continues⟩ := named.opens
  refine group_misses_of_head ?_
  rw [here, after]
  rintro ⟨⟩
  exact nomatch continues

/-- Neither a call nor a comparison is read where a parenthesis stands. -/
theorem misses_of_opening {nested : Nested} {a : Place} (opening : Mark '(' p a)
    (here : cursor.rest = p.after) :
    Misses (call nested) cursor ∧ Misses comparison cursor := by
  have ends : ∀ c ∈ cursor.rest.head?, continuesToken c = false := by
    rw [here, opening.2]
    rintro c ⟨⟩
    rfl
  exact ⟨call_misses_of_head ends, comparison_misses_of_head ends⟩

theorem finds_argumentToken {text : String} (word : Word p text q) :
    FindsRule .argument p (.token text) q := by
  intro levels cursor _ here follows
  obtain ⟨item, next, found, rfl, rest⟩ := token_of_word here word
  refine ⟨.token item, next, ?_, rfl, meets_of_rest rest⟩
  have noCall : Misses (call (nested levels)) cursor :=
    call_misses_of_word here word follows.not_parenthesis
  have noComparison := comparison_misses_of_word here word (follows.not_mem rfl)
  have noGroup : Misses (group (nested levels)) cursor :=
    group_misses_of_head (here ▸ word.not_parenthesis)
  have noList := list_misses (here ▸ word.not_parenthesis)
  rw [Rule.parser, Grammar.argument, orElse_of_misses noCall, orElse_of_misses noComparison,
    orElse_of_misses noGroup, orElse_of_misses noList]
  exact map_eq_found.2 ⟨item, found, rfl⟩

/-- The parser of a rule finds whatever the rule derives. -/
theorem Derives.findsRule {rule : Rule} (derives : Derives rule p form q) :
    FindsRule rule p form q := by
  refine Derives.rec (motive_1 := fun rule p form q _ => FindsRule rule p form q)
    (motive_2 := fun rule p forms q _ => rule.follow rule.separator = true →
      FindsTail rule p forms q)
    ?disjunction ?conjunction ?termGroup ?termCall ?termComparison ?group ?callNone ?callSome
    ?argumentCall ?argumentComparison ?argumentGroup ?argumentList ?argumentToken ?nil ?cons derives
  case disjunction =>
    intro p a q form forms derives tail part others levels cursor deep here follows
    obtain ⟨exprs, next, found, same, meets⟩ := separated_of_finds rfl rfl derives tail part
      (others rfl) deep here (follows.weaken fun c allowed => by
        obtain rfl := beq_iff_eq.1 allowed
        rfl)
    refine ⟨Grammar.join .or ⟨cursor.offset, next.offset⟩ exprs, next, ?_,
      (form_join_or _ exprs).trans (by rw [same]), meets⟩
    simp only [Rule.parser, Grammar.disjunction, bind_eq_found, located_eq_found, pure_eq_found]
    exact ⟨_, _, ⟨exprs, found, rfl⟩, rfl, rfl⟩
  case conjunction =>
    intro p a q form forms derives tail part others levels cursor deep here follows
    obtain ⟨exprs, next, found, same, meets⟩ := separated_of_finds rfl rfl derives tail part
      (others rfl) deep here (follows.weaken fun c allowed => by
        rcases Bool.or_eq_true_iff.1 allowed with allowed | allowed <;>
          obtain rfl := beq_iff_eq.1 allowed <;> rfl)
    refine ⟨Grammar.join .and ⟨cursor.offset, next.offset⟩ exprs, next, ?_,
      (form_join_and _ exprs).trans (by rw [same]), meets⟩
    simp only [Rule.parser, Grammar.conjunction, bind_eq_found, located_eq_found, pure_eq_found]
    exact ⟨_, _, ⟨exprs, found, rfl⟩, rfl, rfl⟩
  case termGroup =>
    intro p q form _ group levels cursor deep here follows
    obtain ⟨expr, next, found, same⟩ := group levels cursor deep here fun _ _ => rfl
    exact ⟨expr, next, orElse_of_found found, same⟩
  case termCall =>
    intro p q form derives call levels cursor deep here follows
    obtain ⟨expr, next, found, same⟩ := call levels cursor deep here fun _ _ => rfl
    refine ⟨expr, next, ?_, same⟩
    rw [Rule.parser, Grammar.term, orElse_of_misses (group_misses_of_call derives here)]
    exact orElse_of_found found
  case termComparison =>
    intro p q form derived levels cursor deep here follows
    obtain ⟨expr, next, found, same⟩ := finds_comparison derived here
      (follows.weaken fun c allowed => by simp_all [Rule.follow, endsValue])
    refine ⟨expr, next, ?_, same⟩
    obtain ⟨noGroup, noCall⟩ := misses_of_comparison derived here
    rw [Rule.parser, Grammar.term, orElse_of_misses noGroup, orElse_of_misses noCall, found]
  case group =>
    intro p a b c d q form opening blanks derives blanks' closing inside
    exact finds_group opening blanks derives blanks' closing inside
  case callNone =>
    intro p a b c q text named opening blanks closing
    exact finds_callNone named opening blanks closing
  case callSome =>
    intro p a b c d e f q text form forms named opening blanks derives tail blanks' closing part
      others
    exact finds_callSome named opening blanks derives tail blanks' closing part (others rfl)
  case argumentCall =>
    intro p q form _ call levels cursor deep here follows
    obtain ⟨expr, next, found, same⟩ := call levels cursor deep here fun _ _ => rfl
    exact ⟨expr, next, orElse_of_found found, same⟩
  case argumentComparison =>
    intro p q form derived levels cursor deep here follows
    obtain ⟨expr, next, found, same⟩ := finds_comparison derived here
      (follows.weaken fun c allowed => by
        rcases Bool.or_eq_true_iff.1 allowed with allowed | allowed <;>
          obtain rfl := beq_iff_eq.1 allowed <;> rfl)
    refine ⟨expr, next, ?_, same⟩
    obtain ⟨_, noCall⟩ := misses_of_comparison derived here
    rw [Rule.parser, Grammar.argument, orElse_of_misses noCall]
    exact orElse_of_found found
  case argumentGroup =>
    intro p q form derives group levels cursor deep here follows
    obtain ⟨expr, next, found, same⟩ := group levels cursor deep here fun _ _ => rfl
    refine ⟨expr, next, ?_, same⟩
    cases derives with
    | group opening =>
      obtain ⟨noCall, noComparison⟩ := misses_of_opening opening here
      rw [Rule.parser, Grammar.argument, orElse_of_misses noCall, orElse_of_misses noComparison]
      exact orElse_of_found found
  case argumentList =>
    intro p q form list levels cursor deep here follows
    obtain ⟨expr, next, found, same⟩ := finds_list list here
    obtain ⟨a, opening⟩ := list.opening
    obtain ⟨noCall, noComparison⟩ := misses_of_opening opening here
    refine ⟨expr, next, ?_, same⟩
    rw [Rule.parser, Grammar.argument, orElse_of_misses noCall, orElse_of_misses noComparison,
      orElse_of_misses (group_misses_of_list list here levels)]
    exact orElse_of_found found
  case argumentToken =>
    intro p q text word
    exact finds_argumentToken word
  case nil =>
    intro rule p _
    exact findsTail_nil
  case cons =>
    intro rule p a b q form forms between derives tail part others isFollowed
    exact findsTail_cons (by cases rule <;> rfl) between derives tail isFollowed part
      (others isFollowed)

/-- A text that has a derivation is read to its end, as the form of the derivation. -/
theorem whole_of_derivable {text : List Char} (derivable : Derivable text form)
    (here : cursor.rest = text) :
    ∃ expr next, whole text cursor = .found expr next ∧ expr.form = form ∧ next.rest = [] := by
  obtain ⟨a, b, q, blanks, derives, blanks', ends⟩ := derivable
  have start : Meets cursor (.start text) := meets_of_rest here
  obtain ⟨_, first, rest⟩ := spacing_of_blanks start blanks
  have deep : a.after.count '(' ≤ text.count '(' := blanks.suffix.sublist.count_le '('
  have follows : b.Follows Rule.disjunction.follow := by
    intro c mem
    simp [blanks'.dropWhile, ends] at mem
  obtain ⟨expr, _, found, rfl, meets⟩ :=
    derives.findsRule _ _ deep (rest.trans derives.covers.1.dropWhile) follows
  obtain ⟨next, last, rest⟩ := spacing_of_blanks meets blanks'
  refine ⟨expr, next, ?_, rfl, by rw [rest, ends]; rfl⟩
  simp only [whole, bind_eq_found, pure_eq_found]
  exact ⟨_, _, first, expr, _, found, _, _, last, rfl, rfl⟩

end ResourceQuery.Surface
