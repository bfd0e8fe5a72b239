import Parlance.Grammar.Stmt

namespace Parlance.Grammar

-- The ranks of expressions, the loosest first. An expression of a rank can stand wherever one
-- of a looser rank can.
inductive Rank where
  | assignment
  | logicOr
  | logicAnd
  | equality
  | comparison
  | sum
  | term
  | unary
  | primary
  deriving DecidableEq

namespace Rank

-- The next tighter rank. Nothing is tighter than the last one.
def next : Rank → Rank
  | assignment => logicOr
  | logicOr => logicAnd
  | logicAnd => equality
  | equality => comparison
  | comparison => sum
  | sum => term
  | term => unary
  | unary => primary
  | primary => primary

-- The operators between two operands of a rank. All of them associate to the left.
def operators : Rank → List TokenKind
  | logicOr => [.or]
  | logicAnd => [.and]
  | equality => [.equalEqual, .notEqual]
  | comparison => [.less, .lessEqual, .greater, .greaterEqual]
  | sum => [.plus, .minus]
  | term => [.star, .slash, .percent]
  | _ => []

-- What an operator of a rank makes out of its operands.
def node : Rank → Token → Expr → Expr → Expr
  | logicOr | logicAnd => .logical
  | equality | comparison => .relational
  | _ => .arithmetic

end Rank

-- A precedence level of the reader is the one of a rank.
structure Level.Is (level : Level) (r : Rank) : Prop where
  operator : ∀ kind, level.isOperator kind = true ↔ kind ∈ r.operators
  node : level.node = r.node

namespace Level

theorem logicOr_is : logicOr.Is .logicOr :=
  ⟨fun kind => show _ ↔ kind ∈ [TokenKind.or] by simp [logicOr], rfl⟩

theorem logicAnd_is : logicAnd.Is .logicAnd :=
  ⟨fun kind => show _ ↔ kind ∈ [TokenKind.and] by simp [logicAnd], rfl⟩

theorem equality_is : equality.Is .equality :=
  ⟨fun kind => show _ ↔ kind ∈ [TokenKind.equalEqual, .notEqual] by simp [equality], rfl⟩

theorem comparison_is : comparison.Is .comparison :=
  ⟨fun kind => show _ ↔ kind ∈ [TokenKind.less, .lessEqual, .greater, .greaterEqual] by
    simp [comparison, or_assoc], rfl⟩

theorem sum_is : sum.Is .sum :=
  ⟨fun kind => show _ ↔ kind ∈ [TokenKind.plus, .minus] by simp [sum], rfl⟩

theorem term_is : term.Is .term :=
  ⟨fun kind => show _ ↔ kind ∈ [TokenKind.star, .slash, .percent] by simp [term, or_assoc], rfl⟩

end Level

theorem Rank.eof_not_mem_operators (r : Rank) : TokenKind.eof ∉ r.operators := by
  cases r <;> decide

theorem Rank.other_not_mem_operators (r : Rank) : TokenKind.other ∉ r.operators := by
  cases r <;> decide

def isConstant : TokenKind → Bool
  | .number | .string | .kwTrue | .kwFalse => true
  | _ => false

-- The ways in which phrases are put together. `inner` says which tokens stand for what.
section

variable {α : Type}

-- A phrase behind a token of a class.
inductive Led (kind : TokenKind) (inner : List Token → α → Prop) : List Token → α → Prop
  | intro {t ts a} (hkind : t.kind = kind) (h : inner ts a) : Led kind inner (t :: ts) a

-- A phrase between two tokens.
inductive Enclosed (left right : TokenKind) (inner : List Token → α → Prop) :
    List Token → α → Prop
  | intro {l ts a r} (hleft : l.kind = left) (h : inner ts a) (hright : r.kind = right) :
      Enclosed left right inner (l :: (ts ++ [r])) a

-- A phrase that can be missing.
inductive Maybe (inner : List Token → α → Prop) : List Token → Option α → Prop
  | none : Maybe inner [] none
  | some {ts a} (h : inner ts a) : Maybe inner ts (some a)

-- Phrases with commas between them. A comma may follow the last one.
inductive Commas (inner : List Token → α → Prop) : List Token → List α → Prop
  | nil : Commas inner [] []
  | last {ts a} (h : inner ts a) : Commas inner ts [a]
  | cons {ts us a as comma} (h : inner ts a) (hcomma : comma.kind = .comma)
      (rest : Commas inner us as) : Commas inner (ts ++ comma :: us) (a :: as)

end

-- A name with its type, and a value behind `=` if there is one.
inductive Annotated (value : List Token → Expr → Prop) :
    List Token → Token → Ty → Option Expr → Prop
  | intro {name colon type ts ty e} (hname : name.kind = .id) (hcolon : colon.kind = .colon)
      (htype : type.kind = .typeName) (hty : Ty.ofKeyword? type.lexeme = some ty)
      (h : Maybe (Led .equal value) ts e) :
      Annotated value (name :: colon :: type :: ts) name ty e

-- A parameter is a name with its type, and its default.
inductive Parameter (value : List Token → Expr → Prop) : List Token → Param → Prop
  | intro {ts name ty default} (h : Annotated value ts name ty default) :
      Parameter value ts ⟨name.lexeme, ty, default⟩

-- An entry of a dictionary.
inductive Keyed (value : List Token → Expr → Prop) : List Token → String × Expr → Prop
  | intro {key colon ts e} (hkey : key.kind = .string) (hcolon : colon.kind = .colon)
      (h : value ts e) : Keyed value (key :: colon :: ts) (key.lexeme, e)

section

variable {α : Type} {inner inner' : List Token → α → Prop} {ts : List Token}

theorem Led.imp {kind : TokenKind} {a : α} (h : Led kind inner ts a)
    (himp : ∀ us a, inner us a → inner' us a) : Led kind inner' ts a := by
  cases h with
  | intro hkind h => exact .intro hkind (himp _ _ h)

theorem Enclosed.imp {left right : TokenKind} {a : α} (h : Enclosed left right inner ts a)
    (himp : ∀ us a, inner us a → inner' us a) : Enclosed left right inner' ts a := by
  cases h with
  | intro hleft h hright => exact .intro hleft (himp _ _ h) hright

theorem Maybe.imp {o : Option α} (h : Maybe inner ts o)
    (himp : ∀ us a, inner us a → inner' us a) : Maybe inner' ts o := by
  cases h with
  | none => exact .none
  | some h => exact .some (himp _ _ h)

end

-- What holds of every phrase inside another one, of whose tokens it has some, holds of all
-- that the other one stands for.
section

variable {α : Type} {inner : List Token → α → Prop} {value : List Token → Expr → Prop}
  {ts : List Token} {P : α → Prop} {Q : Expr → Prop}

theorem Led.elim {kind : TokenKind} {a : α} (h : Led kind inner ts a)
    (hP : ∀ us a, us ⊆ ts → inner us a → P a) : P a := by
  cases h with
  | intro _ h => exact hP _ _ (List.subset_cons_self _ _) h

theorem Enclosed.elim {left right : TokenKind} {a : α} (h : Enclosed left right inner ts a)
    (hP : ∀ us a, us ⊆ ts → inner us a → P a) : P a := by
  cases h with
  | intro _ h _ =>
    refine hP _ _ (fun t ht => ?_) h
    exact List.mem_cons_of_mem _ (List.mem_append_left _ ht)

theorem Maybe.elim {o : Option α} (h : Maybe inner ts o)
    (hP : ∀ us a, us ⊆ ts → inner us a → P a) : ∀ a ∈ o, P a := by
  cases h with
  | none => simp
  | some h =>
    rintro _ ⟨⟩
    exact hP _ _ (List.Subset.refl _) h

theorem Commas.elim {as : List α} (h : Commas inner ts as)
    (hP : ∀ us a, us ⊆ ts → inner us a → P a) : ∀ a ∈ as, P a := by
  induction h with
  | nil => simp
  | last h => simpa using hP _ _ (List.Subset.refl _) h
  | cons h _ _ ih =>
    refine List.forall_mem_cons.mpr ⟨hP _ _ (List.subset_append_left _ _) h, ?_⟩
    refine ih fun us a hus ha => hP us a (fun t ht => ?_) ha
    exact List.mem_append_right _ (List.mem_cons_of_mem _ (hus ht))

theorem Annotated.elim {name : Token} {ty : Ty} {e : Option Expr} (h : Annotated value ts name ty e)
    (hQ : ∀ us e, us ⊆ ts → value us e → Q e) : ∀ a ∈ e, Q a := by
  cases h with
  | intro _ _ _ _ h =>
    refine h.elim fun us e hus he => he.elim fun vs e hvs he => hQ vs e (fun t ht => ?_) he
    exact List.mem_cons_of_mem _ (List.mem_cons_of_mem _ (List.mem_cons_of_mem _ (hus (hvs ht))))

theorem Parameter.elim {p : Param} (h : Parameter value ts p)
    (hQ : ∀ us e, us ⊆ ts → value us e → Q e) : ∀ e ∈ p.default, Q e := by
  cases h with
  | intro h => exact h.elim hQ

theorem Keyed.elim {entry : String × Expr} (h : Keyed value ts entry)
    (hQ : ∀ us e, us ⊆ ts → value us e → Q e) : Q entry.2 := by
  cases h with
  | intro _ _ h =>
    exact hQ _ _ (fun t ht => List.mem_cons_of_mem _ (List.mem_cons_of_mem _ ht)) h

end

end Parlance.Grammar

namespace Parlance

-- A return without a value. Only what comes next tells it from one with a value.
def Stmt.isBareReturn : Stmt → Bool
  | .ret none _ => true
  | _ => false

end Parlance
