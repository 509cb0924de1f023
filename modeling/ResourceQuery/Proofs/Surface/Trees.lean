import ResourceQuery.Surface.Grammar

/-!
# Surface trees without their spans

`Expr.form` forgets where a surface tree was read from. What a query says depends on the form alone;
spans only tell errors where to point.
-/

namespace ResourceQuery.Surface
set_option autoImplicit false

/-- Induction over surface trees: what holds of a call and of joined segments if it holds of the
parts, and of everything else, holds of all surface trees. -/
@[elab_as_elim]
theorem Expr.induct {motive : Expr → Prop} (token : ∀ word, motive (.token word))
    (list : ∀ items span, motive (.list items span))
    (call : ∀ name args span, (∀ arg ∈ args, motive arg) → motive (.call name args span))
    (compare : ∀ field op value span, motive value → motive (.compare field op value span))
    (and : ∀ segments span, (∀ part ∈ segments, motive part) → motive (.and segments span))
    (or : ∀ segments span, (∀ part ∈ segments, motive part) → motive (.or segments span))
    (expr : Expr) : motive expr :=
  expr.rec (motive_2 := fun exprs => ∀ expr ∈ exprs, motive expr) token list call compare and or
    (fun _ mem => nomatch mem)
    (fun _ _ head tail => List.forall_mem_cons.2 ⟨head, tail⟩)

/-! ## Forms -/

/-- A surface tree without spans. -/
inductive Form
  /-- A token by itself. -/
  | token (text : String)
  /-- Tokens in parentheses. -/
  | list (items : List String)
  /-- A name with arguments in parentheses. -/
  | call (name : String) (args : List Form)
  /-- A field, perhaps the name of a comparison, and a value. -/
  | compare (field : String) (op : Option String) (value : Form)
  /-- Segments joined by `&`. -/
  | and (segments : List Form)
  /-- Segments joined by `|`. -/
  | or (segments : List Form)

namespace Expr

mutual

/-- The surface tree without its spans. -/
def form : Expr → Form
  | .token word => .token word.text
  | .list items _ => .list (items.map Token.text)
  | .call name args _ => .call name (formAll args)
  | .compare field op value _ => .compare field.text (op.map Token.text) value.form
  | .and segments _ => .and (formAll segments)
  | .or segments _ => .or (formAll segments)

/-- Surface trees without their spans. -/
def formAll : List Expr → List Form
  | [] => []
  | expr :: exprs => expr.form :: formAll exprs

end

@[simp] theorem formAll_eq_map (exprs : List Expr) : formAll exprs = exprs.map form := by
  induction exprs with
  | nil => rfl
  | cons expr exprs ih => simp [formAll, ih]

end Expr

namespace Form

/-- One form by itself, or several of them joined. -/
def join (wrap : List Form → Form) : List Form → Form
  | [only] => only
  | forms => wrap forms

mutual

/-- Joined segments are always several, here and in all parts. -/
def isSegmented : Form → Bool
  | .token _ | .list _ => true
  | .call _ args => areSegmented args
  | .compare _ _ value => value.isSegmented
  | .and segments | .or segments => 2 ≤ segments.length && areSegmented segments

/-- Joined segments are always several in each of the forms. -/
def areSegmented : List Form → Bool
  | [] => true
  | form :: forms => form.isSegmented && areSegmented forms

end

@[simp] theorem areSegmented_eq_all (forms : List Form) :
    areSegmented forms = forms.all isSegmented := by
  induction forms with
  | nil => rfl
  | cons form forms ih => simp [areSegmented, ih]

/-- Joining keeps one form as it is and takes several as segments. -/
theorem isSegmented_join_and {first : Form} {others : List Form} :
    (join .and (first :: others)).isSegmented = (first :: others).all isSegmented := by
  cases others <;> simp [join, isSegmented]

theorem isSegmented_join_or {first : Form} {others : List Form} :
    (join .or (first :: others)).isSegmented = (first :: others).all isSegmented := by
  cases others <;> simp [join, isSegmented]

end Form

/-- Joining surface trees joins their forms. -/
theorem form_join_and (span : Span) (segments : List Expr) :
    (Grammar.join .and span segments).form = Form.join .and (segments.map Expr.form) := by
  obtain _ | ⟨first, _ | ⟨second, others⟩⟩ := segments <;> simp [Grammar.join, Form.join, Expr.form]

theorem form_join_or (span : Span) (segments : List Expr) :
    (Grammar.join .or span segments).form = Form.join .or (segments.map Expr.form) := by
  obtain _ | ⟨first, _ | ⟨second, others⟩⟩ := segments <;> simp [Grammar.join, Form.join, Expr.form]

end ResourceQuery.Surface
