import ResourceQuery.Proofs.Rendering.RoundTrip
import ResourceQuery.Proofs.Resolution.Forms
import ResourceQuery.Proofs.Surface.Framing
import ResourceQuery.Proofs.Surface.Nesting

/-!
# Queries compose

Queries that are accepted by themselves can be put in parentheses and joined, and each keeps its
meaning: a parenthesis inside of one never closes the one around it, and no token of one runs into
another. `Accepted` holds a text along with all that is needed of it: how it is derived and what every
surface tree of its form is resolved to. Each way to compose texts gives another accepted text.

Main statement: accepted queries keep their meaning when they are put in parentheses and joined.
-/

namespace ResourceQuery
set_option autoImplicit false
open Text Surface Fallible

namespace Surface

/-- The rule derives a group as it is. -/
def Rule.TakesGroups (rule : Rule) : Prop :=
  ∀ (p : Place) (form : Form) (q : Place), Derives .group p form q → Derives rule p form q

theorem takesGroups_term : Rule.TakesGroups .term :=
  fun _ _ _ group => .termGroup group

theorem takesGroups_conjunction : Rule.TakesGroups .conjunction :=
  fun _ _ _ group => .conjunction (.termGroup group) .nil

theorem takesGroups_argument : Rule.TakesGroups .argument :=
  fun _ _ _ group => .argumentGroup group

theorem exists_and_of_form {expr : Expr} {forms : List Form} (same : expr.form = .and forms) :
    ∃ segments span, expr = .and segments span ∧ segments.map Expr.form = forms := by
  cases expr with
  | and segments span => exact ⟨segments, span, rfl, by simpa [Expr.form] using same⟩
  | _ => simp [Expr.form] at same

theorem exists_or_of_form {expr : Expr} {forms : List Form} (same : expr.form = .or forms) :
    ∃ segments span, expr = .or segments span ∧ segments.map Expr.form = forms := by
  cases expr with
  | or segments span => exact ⟨segments, span, rfl, by simpa [Expr.form] using same⟩
  | _ => simp [Expr.form] at same

end Surface

/-- A text that is a query by itself, with its form and its tree. -/
structure Accepted where
  text : List Char
  form : Form
  node : Node
  derivable : Derivable text form
  resolved : ∀ query expr, expr.form = form → Resolution.resolve query expr = .ok node

namespace Accepted

/-! ## Reading -/

/-- Whatever is read under some limit on nesting is an accepted text. -/
theorem exists_of_parseWithin {limit : Nat} {query : String} {node : Node}
    (read : parseWithin limit query = .ok node) :
    ∃ part : Accepted, part.text = query.toList ∧ part.node = node := by
  obtain ⟨expr, parsed, resolved⟩ := bind_eq_ok.1 read
  have derivable := derivable_of_parse parsed
  -- Inside of another query the spans are others, so nothing but the form of the tree is kept.
  refine ⟨⟨query.toList, expr.form, node, derivable, fun query' expr' same => ?_⟩, rfl, rfl⟩
  exact (Resolution.agree_resolve expr expr' same.symm node).1 resolved

/-- An accepted text is read under every limit on nesting that it keeps. -/
theorem parseWithin_eq_ok (part : Accepted) {limit : Nat} {query : String}
    (same : query.toList = part.text) (shallow : nesting part.text ≤ limit) :
    parseWithin limit query = .ok part.node := by
  obtain ⟨expr, parsed, form⟩ := parse_of_derivable (same ▸ shallow) (same ▸ part.derivable)
  exact bind_eq_ok.2 ⟨expr, parsed, part.resolved query expr form⟩

/-- The parts of a tree are resolved one by one. -/
theorem resolveAll_eq_ok {query : String} {exprs : List Expr} {parts : List Accepted}
    (forms : exprs.map Expr.form = parts.map form) :
    Resolution.resolveAll query exprs = .ok (parts.map node) := by
  rw [Resolution.resolveAll_eq_mapM, mapM_eq_ok]
  induction parts generalizing exprs with
  | nil =>
    obtain rfl := List.map_eq_nil_iff.1 forms
    exact .nil
  | cons part parts ih =>
    obtain ⟨expr, others, rfl, first, rest⟩ := List.map_eq_cons_iff.1 forms
    exact .cons (part.resolved query expr first) (ih rest)

/-! ## Groups in a row -/

/-- The text in parentheses. -/
def group (part : Accepted) : List Char :=
  '(' :: (part.text ++ [')'])

/-- Texts in parentheses with a delimiter between them. -/
def groups (delimiter : Char) (parts : List Accepted) : List Char :=
  [delimiter].intercalate (parts.map group)

theorem balanced_group (part : Accepted) : Balanced part.group :=
  part.derivable.balanced.parenthesized

/-- Groups behind delimiters are further parts. -/
theorem exists_tail {rule : Rule} (takes : rule.TakesGroups) (parts : List Accepted) {p : Place}
    {rest : List Char}
    (here : p.after = (parts.flatMap fun part => rule.separator :: part.group) ++ rest) :
    ∃ q : Place, q.after = rest ∧ DerivesTail rule p (parts.map form) q := by
  induction parts generalizing p with
  | nil => exact ⟨p, here, .nil⟩
  | cons part parts ih =>
    have delimits : Grammar.continuesToken rule.separator = false := by cases rule <;> decide
    rw [List.flatMap_cons, List.cons_append, List.cons_append, List.append_assoc] at here
    obtain ⟨a, after, -, around⟩ := exists_around delimits here
    rw [group, List.cons_append, List.append_assoc] at after
    obtain ⟨b, after', -, derives⟩ := part.derivable.exists_group after
    obtain ⟨q, last, tail⟩ := ih after'
    exact ⟨q, last, .cons around (takes _ _ _ derives) tail⟩

/-- Groups with delimiters between them are a first part and further ones. -/
theorem exists_parts {rule : Rule} (takes : rule.TakesGroups) (first : Accepted)
    (others : List Accepted) {p : Place} {rest : List Char}
    (here : p.after = groups rule.separator (first :: others) ++ rest) :
    ∃ a q : Place, q.after = rest ∧ Derives rule p first.form a ∧
      DerivesTail rule a (others.map form) q := by
  rw [groups, intercalate_cons, List.append_assoc, group, List.cons_append, List.append_assoc] at here
  obtain ⟨a, after, -, derives⟩ := first.derivable.exists_group here
  obtain ⟨q, last, tail⟩ := exists_tail takes others after
  exact ⟨a, q, last, takes _ _ _ derives, tail⟩

/-! ## Ways to compose -/

/-- A text in parentheses means what the text means. -/
def parenthesized (part : Accepted) : Accepted where
  text := part.group
  form := part.form
  node := part.node
  derivable := by
    have here : (Place.start part.group).after = '(' :: (part.text ++ [')']) := rfl
    obtain ⟨q, ends, -, derives⟩ := part.derivable.exists_group here
    exact Derives.derivable (.disjunction (takesGroups_conjunction _ _ _ derives) .nil) ends
  resolved := part.resolved

/-- Two or more texts in parentheses joined by `&`. -/
def conjunction (first second : Accepted) (others : List Accepted) : Accepted where
  text := groups '&' (first :: second :: others)
  form := .and ((first :: second :: others).map form)
  node := .apply .and ((first :: second :: others).map node)
  derivable := by
    have here : (Place.start (groups '&' (first :: second :: others))).after =
        groups '&' (first :: second :: others) ++ [] := (List.append_nil _).symm
    obtain ⟨a, q, ends, head, tail⟩ := exists_parts takesGroups_term first (second :: others) here
    exact Derives.derivable (.disjunction (.conjunction head tail) .nil) ends
  resolved query expr same := by
    obtain ⟨segments, span, rfl, forms⟩ := exists_and_of_form same
    rw [Resolution.resolve, resolveAll_eq_ok forms]
    rfl

/-- Two or more texts in parentheses joined by `|`. -/
def disjunction (first second : Accepted) (others : List Accepted) : Accepted where
  text := groups '|' (first :: second :: others)
  form := .or ((first :: second :: others).map form)
  node := .apply .or ((first :: second :: others).map node)
  derivable := by
    have here : (Place.start (groups '|' (first :: second :: others))).after =
        groups '|' (first :: second :: others) ++ [] := (List.append_nil _).symm
    obtain ⟨a, q, ends, head, tail⟩ :=
      exists_parts takesGroups_conjunction first (second :: others) here
    exact Derives.derivable (.disjunction head tail) ends
  resolved query expr same := by
    obtain ⟨segments, span, rfl, forms⟩ := exists_or_of_form same
    rw [Resolution.resolve, resolveAll_eq_ok forms]
    rfl

/-- The call of an operator that combines conditions, with texts in parentheses for arguments. -/
def call (op : Operator) (boolean : op.role = .boolean) (first : Accepted) (others : List Accepted)
    (admits : op.arity.admits (first :: others).length = true) : Accepted where
  text := op.name.toList ++ '(' :: (groups ',' (first :: others) ++ [')'])
  form := .call op.name ((first :: others).map form)
  node := .apply op ((first :: others).map node)
  derivable := by
    let text := op.name.toList ++ '(' :: (groups ',' (first :: others) ++ [')'])
    have here : (Place.start text).after = text := rfl
    obtain ⟨a, afterName, name⟩ := Node.exists_name op here
    obtain ⟨b, after, -, opening⟩ := exists_mark (by decide) afterName
    obtain ⟨c, d, after', head, tail⟩ := exists_parts takesGroups_argument first others after
    obtain ⟨q, last, -, closing⟩ := exists_mark (by decide) after'
    have derives : Derives .call _ _ q :=
      .callSome name opening (.refl b) head tail (.refl d) closing
    exact Derives.derivable (.disjunction (.conjunction (.termCall derives) .nil) .nil) last
  resolved query expr same := by
    obtain ⟨args, span, rfl, forms⟩ := exists_call_of_form same
    have length : args.length = (first :: others).length := by
      simpa using congrArg List.length forms
    simp only [Resolution.resolve, Operator.ofName?_name, Resolution.checkArity, length, if_pos admits,
      boolean, resolveAll_eq_ok forms]
    rfl

/-! ## Nesting -/

section Nesting

variable {delimiter : Char} {bound : Nat} {parts : List Accepted}

theorem nesting_group_le {part : Accepted} (shallow : nesting part.text + 1 ≤ bound) :
    nesting part.group ≤ bound :=
  part.derivable.balanced.nesting_parenthesized.le.trans shallow

/-- Groups in a row are balanced, and nested no deeper than each of them. -/
theorem shallow_groups (flat : Flat [delimiter])
    (each : ∀ part ∈ parts, nesting part.text + 1 ≤ bound) :
    Balanced (groups delimiter parts) ∧ nesting (groups delimiter parts) ≤ bound := by
  induction parts with
  | nil => exact ⟨fun _ => rfl, Nat.zero_le _⟩
  | cons first others ih =>
    obtain ⟨shallow, rest⟩ := List.forall_mem_cons.1 each
    obtain ⟨balanced, shallow'⟩ := ih rest
    cases others with
    | nil =>
      have alone : groups delimiter [first] = first.group := by simp [groups, List.intercalate]
      rw [alone]
      exact ⟨first.balanced_group, nesting_group_le shallow⟩
    | cons second others =>
      have split : groups delimiter (first :: second :: others) =
          first.group ++ ([delimiter] ++ groups delimiter (second :: others)) := by
        simp [groups, List.intercalate_cons_cons]
      rw [split]
      refine ⟨first.balanced_group.append (flat.balanced.append balanced), ?_⟩
      rw [first.balanced_group.nesting_append, flat.balanced.nesting_append, flat.nesting_eq_zero,
        Nat.zero_max]
      exact Nat.max_le.2 ⟨nesting_group_le shallow, shallow'⟩

/-- A call takes one level more than its arguments. -/
theorem nesting_call_le {op : Operator} (each : ∀ part ∈ parts, nesting part.text + 1 ≤ bound) :
    nesting (op.name.toList ++ '(' :: (groups ',' parts ++ [')'])) ≤ bound + 1 := by
  have flat : Flat op.name.toList := flat_of_token (by cases op <;> decide)
  have comma : Flat [','] := flat_singleton (by decide) (by decide)
  obtain ⟨balanced, shallow⟩ := shallow_groups comma each
  rw [flat.balanced.nesting_append, flat.nesting_eq_zero, Nat.zero_max]
  exact balanced.nesting_parenthesized.le.trans (Nat.succ_le_succ shallow)

end Nesting

end Accepted

/-- **Main.** Queries that are accepted, each under some limit, compose by parentheses under every
limit that leaves two levels more than either of them takes: in parentheses, joined by `&` or `|`, and
as the arguments of `not` and `and`, each keeps the tree it has by itself. -/
theorem parseWithin_composed {first second : String} {left right : Node} {limit limit' maxDepth : Nat}
    (accepted : parseWithin limit first = .ok left)
    (accepted' : parseWithin limit' second = .ok right)
    (shallow : nesting first.toList + 1 < maxDepth)
    (shallow' : nesting second.toList + 1 < maxDepth) :
    parseWithin maxDepth ("(" ++ first ++ ")") = .ok left ∧
      parseWithin maxDepth ("(" ++ first ++ ")&(" ++ second ++ ")") =
        .ok (.apply .and [left, right]) ∧
      parseWithin maxDepth ("(" ++ first ++ ")|(" ++ second ++ ")") =
        .ok (.apply .or [left, right]) ∧
      parseWithin maxDepth ("not((" ++ first ++ "))") = .ok (.apply .not [left]) ∧
      parseWithin maxDepth ("and((" ++ first ++ "),(" ++ second ++ "))") =
        .ok (.apply .and [left, right]) := by
  obtain ⟨p, text, rfl⟩ := Accepted.exists_of_parseWithin accepted
  obtain ⟨q, text', rfl⟩ := Accepted.exists_of_parseWithin accepted'
  rw [← text] at shallow
  rw [← text'] at shallow'
  obtain ⟨bound, rfl⟩ : ∃ bound, maxDepth = bound + 1 := ⟨maxDepth - 1, by omega⟩
  have one : ∀ part ∈ [p], nesting part.text + 1 ≤ bound := by simp; omega
  have both : ∀ part ∈ [p, q], nesting part.text + 1 ≤ bound := by simp; omega
  refine ⟨?group, ?conjunction, ?disjunction, ?negation, ?call⟩
  case group =>
    refine p.parenthesized.parseWithin_eq_ok ?_ ?_
    · simp [Accepted.parenthesized, Accepted.group, text]
    · exact (Accepted.nesting_group_le (one p (by simp))).trans (Nat.le_succ _)
  case conjunction =>
    refine (p.conjunction q []).parseWithin_eq_ok ?_ ?_
    · simp [Accepted.conjunction, Accepted.groups, Accepted.group, List.intercalate, text, text']
    · have flat : Flat ['&'] := flat_singleton (by decide) (by decide)
      exact (Accepted.shallow_groups flat both).2.trans (Nat.le_succ _)
  case disjunction =>
    refine (p.disjunction q []).parseWithin_eq_ok ?_ ?_
    · simp [Accepted.disjunction, Accepted.groups, Accepted.group, List.intercalate, text, text']
    · have flat : Flat ['|'] := flat_singleton (by decide) (by decide)
      exact (Accepted.shallow_groups flat both).2.trans (Nat.le_succ _)
  case negation =>
    refine (Accepted.call .not rfl p [] rfl).parseWithin_eq_ok ?_ (Accepted.nesting_call_le one)
    simp [Accepted.call, Accepted.groups, Accepted.group, Operator.name, List.intercalate, text]
  case call =>
    refine (Accepted.call .and rfl p [q] rfl).parseWithin_eq_ok ?_ (Accepted.nesting_call_le both)
    simp [Accepted.call, Accepted.groups, Accepted.group, Operator.name, List.intercalate, text, text']

/-- Blanks at both ends, a disjunction without parentheses and a value left out in the one query, a list
and a group in the other: none of it reaches beyond the parentheses around it. -/
theorem parseWithin_composed_mixed :
    ∃ left right : Node,
      parseWithin 0 " a=1|b= " = .ok left ∧ parseWithin 3 "((c=in=(x, y)))&limit(2)" = .ok right ∧
      nesting " a=1|b= ".toList + 1 < 5 ∧ nesting "((c=in=(x, y)))&limit(2)".toList + 1 < 5 ∧
      parseWithin 5 ("(" ++ " a=1|b= " ++ ")&(" ++ "((c=in=(x, y)))&limit(2)" ++ ")") =
        .ok (.apply .and [left, right]) := by
  have accepted : parseWithin 0 " a=1|b= " = .ok (.apply .or
      [.apply .eq [.field "a", .literal (.integer 1)],
       .apply .eq [.field "b", .literal (.string "")]]) := by decide +kernel
  have accepted' : parseWithin 3 "((c=in=(x, y)))&limit(2)" = .ok (.apply .and
      [.apply .in [.field "c", .array [.string "x", .string "y"]],
       .apply .limit [.literal (.integer 2)]]) := by decide +kernel
  have shallow : nesting " a=1|b= ".toList + 1 < 5 := by decide +kernel
  have shallow' : nesting "((c=in=(x, y)))&limit(2)".toList + 1 < 5 := by decide +kernel
  exact ⟨_, _, accepted, accepted', shallow, shallow',
    (parseWithin_composed accepted accepted' shallow shallow').2.1⟩

end ResourceQuery
