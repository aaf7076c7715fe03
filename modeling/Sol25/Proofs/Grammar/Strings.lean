import Sol25.Proofs.Grammar.Located

/-!
# The strings of a program

Nothing is done to a string on its way from the tokens to the program: the values of the strings in
a program are those of the string tokens, in the same order and as often
(`Reading.strings_eq_of_classes_eq_ok`).
-/

set_option autoImplicit false
set_option relaxedAutoImplicit false

namespace Sol25

/-! ### What is quoted in a program -/

mutual

/-- The values of the strings in an expression. -/
def Expr.strings : Expr → List String
  | .literal kind value _ => if kind = .string then [value] else []
  | .var _ _ => []
  | .send receiver _ args _ => receiver.strings ++ Expr.stringsOfArgs args
  | .block content => content.strings

def Expr.stringsOfArgs : List Expr → List String
  | [] => []
  | arg :: rest => arg.strings ++ Expr.stringsOfArgs rest

def Block.strings : Block → List String
  | ⟨_, body, _⟩ => Assignment.stringsOfAll body

def Assignment.stringsOfAll : List Assignment → List String
  | [] => []
  | assignment :: rest => assignment.strings ++ Assignment.stringsOfAll rest

def Assignment.strings : Assignment → List String
  | ⟨_, value⟩ => value.strings

end

def ClassDef.strings (declared : ClassDef) : List String :=
  declared.methods.flatMap fun method ↦ method.body.strings

/-- The string that a token holds. -/
def Token.string? (token : Token) : Option String :=
  match token.kind with
  | .stringLit body => some body
  | _ => none

/-! ### What the tokens hold -/

namespace Grammar

open Token (Kind)

/-- The strings in these tokens. -/
def stringsIn (tokens : List Token) : List String := tokens.filterMap Token.string?

variable {used more : List Token} {token : Token}

theorem stringsIn_append : stringsIn (used ++ more) = stringsIn used ++ stringsIn more :=
  List.filterMap_append

theorem stringsIn_cons_of_none (h : token.string? = none) :
    stringsIn (token :: more) = stringsIn more :=
  List.filterMap_cons_none h

theorem string?_of_mark {sign : Mark} (h : token.kind = .mark sign) : token.string? = none := by
  rw [Token.string?, h]

theorem string?_of_keyword {word : Keyword} (h : token.kind = .keyword word) :
    token.string? = none := by
  rw [Token.string?, h]

theorem string?_of_selector {part : String} (h : token.kind = .selector part) :
    token.string? = none := by
  rw [Token.string?, h]

theorem string?_of_anyClass? {name : Ident} (h : Reading.anyClass? token = some name) :
    token.string? = none := by
  obtain ⟨which, hkind, -⟩ := Reading.exists_className_of_anyClass?_eq_some h
  rw [Token.string?, ← hkind]
  cases which <;> rfl

theorem string?_ident (name : String) (span : Span) :
    (Token.mk (.ident name) span).string? = none := rfl

theorem stringsIn_single_of_mark {sign : Mark} (h : token.kind = .mark sign) :
    stringsIn [token] = [] :=
  stringsIn_cons_of_none (string?_of_mark h)

theorem ParamsAt.stringsIn_eq {params : List Ident} (h : ParamsAt used params) :
    stringsIn used = [] := by
  induction h with
  | bar hbar => exact stringsIn_single_of_mark hbar
  | param hcolon _ ih =>
    rw [stringsIn_cons_of_none (string?_of_mark hcolon),
      stringsIn_cons_of_none (string?_ident _ _), ih]

theorem strings_of_atom {expr : Expr} (h : Reading.atom? token = some expr) :
    expr.strings = stringsIn [token] := by
  obtain ⟨kind, span⟩ := token
  cases kind with
  | keyword word => cases word <;> cases h <;> rfl
  | builtin _ | classIdent _ | ident _ | stringLit _ | intLit _ =>
    cases h
    rfl
  | selector _ | mark _ | eof => cases h

mutual

theorem OperandAt.strings_eq : ∀ {used : List Token} {expr : Expr}, OperandAt used expr →
    expr.strings = stringsIn used
  | _, _, .atom h => strings_of_atom h
  | _, _, .parenthesized hleft h hright => by
    rw [stringsIn_cons_of_none (string?_of_mark hleft), stringsIn_append,
      stringsIn_single_of_mark hright, List.append_nil, h.strings_eq]
  | _, _, .block h => by rw [Expr.strings, h.strings_eq]

theorem ExpressionAt.strings_eq : ∀ {used : List Token} {expr : Expr}, ExpressionAt used expr →
    expr.strings = stringsIn used
  | _, _, .plain h => h.strings_eq
  | _, _, .unary h => by
    rw [stringsIn_append, stringsIn_cons_of_none (string?_ident _ _), Expr.strings,
      Expr.stringsOfArgs, h.strings_eq]
    rfl
  | _, _, .keyword h hmore _ => by
    rw [stringsIn_append, Expr.strings, h.strings_eq, hmore.strings_eq]

theorem MessageAt.strings_eq : ∀ {used : List Token} {selector : String} {args : List Expr},
    MessageAt used selector args → Expr.stringsOfArgs args = stringsIn used
  | _, _, _, .last hpart h => by
    rw [stringsIn_cons_of_none (string?_of_selector hpart), Expr.stringsOfArgs,
      Expr.stringsOfArgs, List.append_nil, h.strings_eq]
  | _, _, _, .more hpart h hmore => by
    rw [stringsIn_cons_of_none (string?_of_selector hpart), stringsIn_append, Expr.stringsOfArgs,
      h.strings_eq, hmore.strings_eq]

theorem BlockAt.strings_eq : ∀ {used : List Token} {block : Block}, BlockAt used block →
    block.strings = stringsIn used
  | _, _, .block hleft hparams hbody hright => by
    rw [stringsIn_cons_of_none (string?_of_mark hleft), stringsIn_append, hparams.stringsIn_eq,
      List.nil_append, stringsIn_append, stringsIn_single_of_mark hright, List.append_nil,
      Block.strings, hbody.strings_eq]

theorem BodyAt.strings_eq : ∀ {used : List Token} {body : List Assignment}, BodyAt used body →
    Assignment.stringsOfAll body = stringsIn used
  | _, _, .nil => by
    rw [Assignment.stringsOfAll]
    rfl
  | _, _, .cons (.assignment hsign h hdot) hmore => by
    rw [stringsIn_append, stringsIn_cons_of_none (string?_ident _ _),
      stringsIn_cons_of_none (string?_of_mark hsign), stringsIn_append,
      stringsIn_single_of_mark hdot, List.append_nil, Assignment.stringsOfAll, Assignment.strings,
      h.strings_eq, hmore.strings_eq]

end

theorem HeadingAt.stringsIn_eq {selector : String × Nat} (h : HeadingAt used selector) :
    stringsIn used = [] := by
  cases h with
  | name => rfl
  | @parts _ parts hkinds _ =>
    refine List.filterMap_eq_nil_iff.mpr fun token htoken ↦ ?_
    have hkind : token.kind ∈ parts.map Kind.selector := hkinds ▸ List.mem_map_of_mem htoken
    obtain ⟨part, -, hpart⟩ := List.mem_map.mp hkind
    exact string?_of_selector hpart.symm

theorem MethodAt.strings_eq {method : Method} (h : MethodAt used method) :
    method.body.strings = stringsIn used := by
  obtain ⟨hhead, hbody, -, -⟩ := h
  rw [stringsIn_append, hhead.stringsIn_eq, List.nil_append, hbody.strings_eq]

/-- What holds of each of them holds of all that stand one behind the other. -/
theorem ManyAt.strings_eq {α : Type} {At : List Token → α → Prop} {strings : α → List String}
    {items : List α} (h : ManyAt At used items)
    (hitem : ∀ used item, At used item → strings item = stringsIn used) :
    items.flatMap strings = stringsIn used := by
  induction h with
  | nil => rfl
  | cons hfirst _ ih => rw [List.flatMap_cons, stringsIn_append, hitem _ _ hfirst, ih]

theorem ClassAt.strings_eq {declared : ClassDef} (h : ClassAt used declared) :
    declared.strings = stringsIn used := by
  obtain ⟨hword, hcolon, hparent, hleft, hmethods, hright⟩ := h
  have hstrings := hmethods.strings_eq fun _ _ ↦ MethodAt.strings_eq
  rw [stringsIn_cons_of_none (string?_of_keyword hword), stringsIn_cons_of_none rfl,
    stringsIn_cons_of_none (string?_of_mark hcolon),
    stringsIn_cons_of_none (string?_of_anyClass? hparent),
    stringsIn_cons_of_none (string?_of_mark hleft), stringsIn_append,
    stringsIn_single_of_mark hright, List.append_nil, ← hstrings]
  rfl

end Grammar

/-- The strings of the classes are those of the tokens. -/
theorem Reading.strings_eq_of_classes_eq_ok {tokens : List Token} {declared : List ClassDef}
    (h : classes tokens = .ok declared) :
    declared.flatMap ClassDef.strings = Grammar.stringsIn tokens :=
  (classesAt_of_classes_eq_ok h).strings_eq fun _ _ ↦ Grammar.ClassAt.strings_eq

end Sol25
