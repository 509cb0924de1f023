import ResourceQuery.Proofs.Rendering.Literals
import ResourceQuery.Proofs.Surface.Derivation

/-!
# Rendered trees are derived

The canonical text of a tree has a derivation, which denotes the tree in function-call form: each
argument stands between delimiters, so its tokens can be no longer than they are.
-/

namespace ResourceQuery
set_option autoImplicit false
open Text Surface Grammar

/-! ## Steps over a text -/

namespace Surface

variable {p : Place} {rest : List Char}

/-- No token goes on at the start of the text. -/
def Stops (rest : List Char) : Prop :=
  ∀ c ∈ rest.head?, continuesToken c = false

theorem stops_cons {c : Char} (delimits : continuesToken c = false) (rest : List Char) :
    Stops (c :: rest) := by
  rintro d ⟨⟩
  exact delimits

/-- A delimiter is passed, and a token can start behind it. -/
theorem exists_mark {c : Char} (delimits : continuesToken c = false) (here : p.after = c :: rest) :
    ∃ q : Place, q.after = rest ∧ q.Fresh ∧ Mark c p q := by
  refine ⟨⟨p.before ++ [c], rest⟩, rfl, ?_, rfl, here⟩
  intro d last
  simp only [List.getLast?_append, List.getLast?_singleton, Option.some_or] at last
  obtain rfl := Option.some.inj last
  exact delimits

theorem exists_around {c : Char} (delimits : continuesToken c = false) (here : p.after = c :: rest) :
    ∃ q : Place, q.after = rest ∧ q.Fresh ∧ Around c p q := by
  obtain ⟨q, after, fresh, mark⟩ := exists_mark delimits here
  exact ⟨q, after, fresh, p, q, .refl p, mark, .refl q⟩

/-- Token characters between delimiters are a token. -/
theorem exists_word {cs : List Char} (nonempty : cs ≠ []) (continues : cs.all continuesToken = true)
    (fresh : p.Fresh) (stops : Stops rest) (here : p.after = cs ++ rest) :
    ∃ q : Place, q.after = rest ∧ Word p (String.ofList cs) q := by
  refine ⟨⟨p.before ++ cs, rest⟩, rfl, ?_⟩
  simp only [Word, String.toList_ofList]
  exact ⟨⟨rfl, here⟩, nonempty, continues, fresh, stops⟩

/-- Where a delimiter comes before each part, nothing goes on a token at their start. -/
theorem stops_flatMap {α : Type} {c : Char} (delimits : continuesToken c = false) (stops : Stops rest)
    (chars : α → List Char) (parts : List α) :
    Stops ((parts.flatMap fun part => c :: chars part) ++ rest) := by
  cases parts with
  | nil => exact stops
  | cons part parts => exact stops_cons delimits _

/-- Parts with a delimiter between them are the first one and the others, a delimiter before each. -/
theorem intercalate_cons {α : Type} (c : Char) (chars : α → List Char) (first : α) (others : List α) :
    [c].intercalate ((first :: others).map chars) =
      chars first ++ others.flatMap fun other => c :: chars other := by
  induction others generalizing first with
  | nil => simp [List.intercalate]
  | cons second others ih =>
    rw [List.map_cons, List.map_cons, List.intercalate_cons_cons, ← List.map_cons, ih]
    simp

/-- Tokens behind commas are further tokens. -/
theorem exists_words {texts : List (List Char)}
    (each : ∀ cs ∈ texts, cs ≠ [] ∧ cs.all continuesToken = true) (stops : Stops rest)
    (here : p.after = (texts.flatMap fun cs => ',' :: cs) ++ rest) :
    ∃ q : Place, q.after = rest ∧ Words p (texts.map String.ofList) q := by
  induction texts generalizing p with
  | nil => exact ⟨p, here, .nil⟩
  | cons cs texts ih =>
    obtain ⟨⟨nonempty, continues⟩, others⟩ := List.forall_mem_cons.1 each
    rw [List.flatMap_cons, List.cons_append, List.cons_append, List.append_assoc] at here
    obtain ⟨a, after, fresh, comma⟩ := exists_around (by decide) here
    have stops' := stops_flatMap (c := ',') (by decide) stops id texts
    obtain ⟨b, after', word⟩ := exists_word nonempty continues fresh stops' after
    obtain ⟨q, last, words⟩ := ih others after'
    exact ⟨q, last, .cons comma word words⟩

/-- Tokens in parentheses are a list. -/
theorem exists_list {texts : List (List Char)}
    (each : ∀ cs ∈ texts, cs ≠ [] ∧ cs.all continuesToken = true)
    (here : p.after = '(' :: ([','].intercalate texts ++ ')' :: rest)) :
    ∃ q : Place, q.after = rest ∧ DerivesList p (.list (texts.map String.ofList)) q := by
  obtain ⟨a, after, fresh, opening⟩ := exists_mark (by decide) here
  cases texts with
  | nil =>
    obtain ⟨q, last, -, closing⟩ := exists_mark (by decide) after
    exact ⟨q, last, .none opening (.refl a) closing⟩
  | cons cs texts =>
    obtain ⟨⟨nonempty, continues⟩, others⟩ := List.forall_mem_cons.1 each
    have parts := intercalate_cons ',' id cs texts
    rw [List.map_id] at parts
    rw [parts, List.append_assoc] at after
    have stops : Stops (')' :: rest) := stops_cons (by decide) rest
    obtain ⟨b, after', word⟩ :=
      exists_word nonempty continues fresh (stops_flatMap (by decide) stops id texts) after
    obtain ⟨c, after'', words⟩ := exists_words others stops after'
    obtain ⟨q, last, -, closing⟩ := exists_mark (by decide) after''
    exact ⟨q, last, .some opening (.refl a) word words (.refl c) closing⟩

end Surface

/-! ## Trees -/

namespace Node

mutual

/-- The surface tree that a tree is written as. -/
def form : Node → Form
  | .apply op args => .call op.name (formAll args)
  | .literal value => .token value.render
  | .array items => .list (items.map Literal.render)
  | .field path => .token (Percent.encode path)
  | .sortKey path direction =>
    .token (String.ofList (direction.sign :: Percent.encodeChars path.toList))

/-- The surface trees that trees are written as. -/
def formAll : List Node → List Form
  | [] => []
  | node :: nodes => node.form :: formAll nodes

end

@[simp] theorem formAll_eq_map (nodes : List Node) : formAll nodes = nodes.map form := by
  induction nodes with
  | nil => rfl
  | cons node nodes ih => simp [formAll, ih]

/-- A tree whose paths are named and whose literals can be written. -/
structure IsWritable (node : Node) : Prop where
  named : ∀ path ∈ node.paths, path ≠ ""
  literals : ∀ value ∈ node.literals, value.IsWritable

theorem IsWritable.of_mem {op : Operator} {args : List Node} (writable : IsWritable (.apply op args))
    {arg : Node} (mem : arg ∈ args) : arg.IsWritable where
  named path pathMem :=
    writable.named path (paths_apply op args ▸ List.mem_flatMap.2 ⟨arg, mem, pathMem⟩)
  literals value valueMem :=
    writable.literals value (literals_apply op args ▸ List.mem_flatMap.2 ⟨arg, mem, valueMem⟩)

/-- Where the text of a tree stands between delimiters, an argument is derived. -/
def IsDerived (node : Node) : Prop :=
  ∀ (p : Place) (rest : List Char), p.Fresh → Stops rest → p.after = node.chars ++ rest →
    ∃ q : Place, q.after = rest ∧ Derives .argument p node.form q

/-- Trees behind commas are further arguments. -/
theorem exists_tail {nodes : List Node} (each : ∀ node ∈ nodes, node.IsDerived) {p : Place}
    {rest : List Char} (stops : Stops rest)
    (here : p.after = (nodes.flatMap fun node => ',' :: node.chars) ++ rest) :
    ∃ q : Place, q.after = rest ∧ DerivesTail .argument p (nodes.map form) q := by
  induction nodes generalizing p with
  | nil => exact ⟨p, here, .nil⟩
  | cons node nodes ih =>
    obtain ⟨derived, others⟩ := List.forall_mem_cons.1 each
    rw [List.flatMap_cons, List.cons_append, List.cons_append, List.append_assoc] at here
    obtain ⟨a, after, fresh, comma⟩ := exists_around (by decide) here
    obtain ⟨b, after', part⟩ := derived a _ fresh (stops_flatMap (by decide) stops chars nodes) after
    obtain ⟨q, last, tail⟩ := ih others after'
    exact ⟨q, last, .cons comma part tail⟩

/-- The name of an operator is the name of a call. -/
theorem exists_name (op : Operator) {p : Place} {rest : List Char}
    (here : p.after = op.name.toList ++ rest) :
    ∃ q : Place, q.after = rest ∧ Name p op.name q := by
  refine ⟨⟨p.before ++ op.name.toList, rest⟩, rfl, ⟨rfl, here⟩, ?_⟩
  cases op <;> exact ⟨_, _, rfl, by decide, by decide⟩

/-- An operator over trees that are derived as arguments is derived as a call. -/
theorem exists_call {op : Operator} {args : List Node} (each : ∀ arg ∈ args, arg.IsDerived)
    {p : Place} {rest : List Char} (here : p.after = chars (.apply op args) ++ rest) :
    ∃ q : Place, q.after = rest ∧ Derives .call p (form (.apply op args)) q := by
  rw [chars, charsAll_eq_map, List.append_assoc] at here
  obtain ⟨a, afterName, name⟩ := exists_name op here
  obtain ⟨b, after, fresh, opening⟩ := exists_mark (by decide) afterName
  rw [form, formAll_eq_map]
  cases args with
  | nil =>
    obtain ⟨q, last, -, closing⟩ := exists_mark (by decide) after
    exact ⟨q, last, .callNone name opening (.refl b) closing⟩
  | cons arg args =>
    obtain ⟨derived, others⟩ := List.forall_mem_cons.1 each
    rw [List.append_eq, List.append_assoc, List.singleton_append, intercalate_cons,
      List.append_assoc] at after
    have stops : Stops (')' :: rest) := stops_cons (by decide) rest
    obtain ⟨c, after', first⟩ := derived b _ fresh (stops_flatMap (by decide) stops chars args) after
    obtain ⟨d, after'', tail⟩ := exists_tail others stops after'
    obtain ⟨q, last, -, closing⟩ := exists_mark (by decide) after''
    exact ⟨q, last, .callSome name opening (.refl b) first tail (.refl d) closing⟩

/-- Token characters are derived as an argument. -/
theorem isDerived_of_token {node : Node} (nonempty : node.chars ≠ [])
    (continues : node.chars.all continuesToken = true)
    (token : node.form = .token (String.ofList node.chars)) : node.IsDerived := by
  intro p rest fresh stops here
  obtain ⟨q, last, word⟩ := exists_word nonempty continues fresh stops here
  exact ⟨q, last, token ▸ .argumentToken word⟩

/-- Every tree that can be written is derived as an argument. -/
theorem IsWritable.isDerived {node : Node} (writable : node.IsWritable) : node.IsDerived := by
  induction node using induct with
  | apply op args ih =>
    intro p rest _ _ here
    obtain ⟨q, last, call⟩ :=
      exists_call (fun arg mem => ih arg mem (writable.of_mem mem)) here
    exact ⟨q, last, .argumentCall call⟩
  | literal value =>
    have tokenizes := Literal.tokenizes_chars (writable.literals value (by simp))
    refine isDerived_of_token ?_ ?_ ?_ <;> rw [chars]
    · exact tokenizes.nonempty
    · exact tokenizes.continues
    · rfl
  | array items =>
    intro p rest _ _ here
    have each : ∀ cs ∈ items.map Literal.chars, cs ≠ [] ∧ cs.all continuesToken = true := by
      intro cs mem
      obtain ⟨value, valueMem, rfl⟩ := List.mem_map.1 mem
      have tokenizes := Literal.tokenizes_chars (writable.literals value (by simpa using valueMem))
      exact ⟨tokenizes.nonempty, tokenizes.continues⟩
    rw [chars, List.cons_append, List.append_assoc] at here
    obtain ⟨q, last, list⟩ := exists_list each here
    rw [List.map_map] at list
    exact ⟨q, last, .argumentList list⟩
  | field path =>
    refine isDerived_of_token ?_ ?_ ?_ <;> rw [chars]
    · rw [ne_eq, Percent.encodeChars_eq_nil, String.toList_eq_nil_iff]
      exact writable.named path (by simp)
    · exact (Literal.encodeChars_spec path.toList).2
    · rfl
  | sortKey path direction =>
    refine isDerived_of_token ?_ ?_ ?_ <;> rw [chars]
    · exact List.cons_ne_nil _ _
    · rw [List.all_cons, (Literal.encodeChars_spec path.toList).2]
      cases direction <;> decide
    · rfl

/-- **Main.** The canonical text of an application that can be written has a derivation, which
denotes the application in function-call form. -/
theorem derivable_render {op : Operator} {args : List Node} (writable : IsWritable (.apply op args)) :
    Derivable (render (.apply op args)).toList (form (.apply op args)) := by
  have here : (Place.start (render (.apply op args)).toList).after =
      chars (.apply op args) ++ [] := by
    rw [List.append_nil, render, String.toList_ofList]
    rfl
  obtain ⟨q, last, call⟩ := exists_call (fun arg mem => (writable.of_mem mem).isDerived) here
  have term := Derives.conjunction (.termCall call) .nil
  exact ⟨_, q, q, .refl _, .disjunction term .nil, .refl q, last⟩

end Node
end ResourceQuery
