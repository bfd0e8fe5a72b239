import Parlance.Proofs.Grammar.Phrase

namespace Parlance

namespace Grammar.Rank

-- The place of a rank among all ranks, the loosest first.
def level : Rank → Nat
  | assignment => 0
  | logicOr => 1
  | logicAnd => 2
  | equality => 3
  | comparison => 4
  | sum => 5
  | term => 6
  | unary => 7
  | primary => 8

end Grammar.Rank

open Grammar (Rank)

-- How a class whose tokens all look the same is written.
def TokenKind.spelling : TokenKind → String
  | kwTrue => "true"
  | kwFalse => "false"
  | kwFunc => "func"
  | kwWhile => "while"
  | kwFor => "for"
  | kwIn => "in"
  | kwIf => "if"
  | kwElse => "else"
  | kwReturn => "return"
  | kwBreak => "break"
  | kwContinue => "continue"
  | kwPar => "par"
  | kwSeq => "seq"
  | kwClient => "c_channel"
  | kwServer => "s_channel"
  | kwVar => "var"
  | arrow => "->"
  | or => "||"
  | and => "&&"
  | equalEqual => "=="
  | notEqual => "!="
  | lessEqual => "<="
  | greaterEqual => ">="
  | leftParen => "("
  | rightParen => ")"
  | leftBrace => "\x7b"
  | rightBrace => "\x7d"
  | leftBracket => "["
  | rightBracket => "]"
  | comma => ","
  | colon => ":"
  | semicolon => ";"
  | dot => "."
  | equal => "="
  | plus => "+"
  | minus => "-"
  | star => "*"
  | slash => "/"
  | percent => "%"
  | bang => "!"
  | less => "<"
  | greater => ">"
  | id | number | string | typeName | other | eof => ""

-- The keyword of a type that has one.
def Ty.keyword : Ty → String
  | number => "number"
  | string => "string"
  | bool => "bool"
  | list => "list"
  | dict => "dict"
  | void => "void"
  | func | client | server => ""

theorem Ty.eq_keyword {s : String} {ty : Ty} (h : ofKeyword? s = some ty) : s = ty.keyword := by
  unfold ofKeyword? at h
  split at h <;> cases h <;> rfl

namespace Token

-- A token of a class whose tokens all look the same.
def mark (kind : TokenKind) : Token :=
  ⟨kind, kind.spelling, 0⟩

def ofName (name : String) : Token :=
  ⟨.id, name, 0⟩

def ofKey (key : String) : Token :=
  ⟨.string, key, 0⟩

def ofTy (ty : Ty) : Token :=
  ⟨.typeName, ty.keyword, 0⟩

-- The characters of a token. A string stands between quotes.
def text (t : Token) : List Char :=
  if t.kind = .string then '"' :: (t.lexeme.toList ++ ['"']) else t.lexeme.toList

def unlined (t : Token) : Token :=
  { t with line := 0 }

end Token

open Token (mark)

namespace Expr

-- The rank of an expression that stands without parentheses.
def rank : Expr → Rank
  | assign _ _ _ => .assignment
  | logical operator _ _ => if operator.kind = .or then .logicOr else .logicAnd
  | relational operator _ _ =>
    if operator.kind = .equalEqual ∨ operator.kind = .notEqual then .equality else .comparison
  | arithmetic operator _ _ =>
    if operator.kind = .plus ∨ operator.kind = .minus then .sum else .term
  | unary _ _ => .unary
  | _ => .primary

end Expr

-- The tokens of an expression of rank `own` where one of rank `r` is wanted.
def wrapped (r own : Rank) (ts : List Token) : List Token :=
  if own.level < r.level then mark .leftParen :: (ts ++ [mark .rightParen]) else ts

-- Phrases with commas between them.
def commas : List (List Token) → List Token
  | [] => []
  | [ts] => ts
  | ts :: us :: rest => ts ++ mark .comma :: commas (us :: rest)

namespace Expr

mutual

-- The tokens that an expression is printed as.
def tokens : Expr → List Token
  | constant token => [token]
  | name token _ => [token]
  | access target index =>
    wrapped .primary target.rank target.tokens ++
      mark .leftBracket :: (wrapped .sum index.rank index.tokens ++ [mark .rightBracket])
  | slice target start stop =>
    wrapped .primary target.rank target.tokens ++
      mark .leftBracket :: (tokensOfOption .sum start ++
        mark .colon :: (tokensOfOption .sum stop ++ [mark .rightBracket]))
  | logical operator left right =>
    wrapped (logical operator left right).rank left.rank left.tokens ++
      operator :: wrapped (logical operator left right).rank.next right.rank right.tokens
  | relational operator left right =>
    wrapped (relational operator left right).rank left.rank left.tokens ++
      operator :: wrapped (relational operator left right).rank.next right.rank right.tokens
  | arithmetic operator left right =>
    wrapped (arithmetic operator left right).rank left.rank left.tokens ++
      operator :: wrapped (arithmetic operator left right).rank.next right.rank right.tokens
  | unary operator operand => operator :: wrapped .unary operand.rank operand.tokens
  | call callee _ args =>
    callee :: mark .leftParen :: (commas (tokensOf args) ++ [mark .rightParen])
  | method receiver operation args =>
    wrapped .primary receiver.rank receiver.tokens ++
      mark .dot :: operation :: mark .leftParen ::
        (commas (tokensOf args) ++ [mark .rightParen])
  | array bracket items => bracket :: (commas (tokensOf items) ++ [mark .rightBracket])
  | dict brace entries => brace :: (commas (tokensOfEntries entries) ++ [mark .rightBrace])
  | assign equal target value =>
    wrapped .logicOr target.rank target.tokens ++
      equal :: wrapped .assignment value.rank value.tokens
  | comprehension bracket iterator ty init iterable projection =>
    bracket :: mark .kwFor :: mark .leftParen :: iterator :: mark .colon :: .ofTy ty ::
      (tokensOfInit .logicOr init ++
        mark .kwIn :: (wrapped .assignment iterable.rank iterable.tokens ++
          mark .rightParen :: mark .arrow ::
            (wrapped .assignment projection.rank projection.tokens ++ [mark .rightBracket])))

def tokensOf : List Expr → List (List Token)
  | [] => []
  | e :: rest => wrapped .assignment e.rank e.tokens :: tokensOf rest

def tokensOfEntries : List (String × Expr) → List (List Token)
  | [] => []
  | (key, e) :: rest =>
    (.ofKey key :: mark .colon :: wrapped .assignment e.rank e.tokens) :: tokensOfEntries rest

def tokensOfOption (r : Rank) : Option Expr → List Token
  | none => []
  | some e => wrapped r e.rank e.tokens

-- The tokens of a value behind `=`.
def tokensOfInit (r : Rank) : Option Expr → List Token
  | none => []
  | some e => mark .equal :: wrapped r e.rank e.tokens

end

-- The tokens of an expression where one of rank `r` is wanted.
def tokensAt (r : Rank) (e : Expr) : List Token :=
  wrapped r e.rank e.tokens

theorem tokensAt_of_rank {r : Rank} {e : Expr} (h : e.rank = r) : e.tokensAt r = e.tokens := by
  rw [tokensAt, wrapped, h, if_neg (Nat.lt_irrefl _)]

theorem tokensAt_assignment (e : Expr) : e.tokensAt .assignment = e.tokens := by
  have hlevel : ¬ e.rank.level < Rank.assignment.level := Nat.not_lt_zero _
  rw [tokensAt, wrapped, if_neg hlevel]

theorem tokensOf_eq_map (es : List Expr) : tokensOf es = es.map (tokensAt .assignment) := by
  induction es with
  | nil => rfl
  | cons e es ih => rw [tokensOf, ih, List.map_cons, tokensAt]

-- The tokens of an entry of a dictionary.
def entryTokens (entry : String × Expr) : List Token :=
  .ofKey entry.1 :: mark .colon :: entry.2.tokensAt .assignment

theorem tokensOfEntries_eq_map (entries : List (String × Expr)) :
    tokensOfEntries entries = entries.map entryTokens := by
  induction entries with
  | nil => rfl
  | cons e es ih => rw [tokensOfEntries, ih, List.map_cons, entryTokens, tokensAt]

theorem tokensOfOption_eq_elim (r : Rank) (o : Option Expr) :
    tokensOfOption r o = o.elim [] (tokensAt r) := by
  cases o <;> rfl

theorem tokensOfInit_eq_elim (r : Rank) (init : Option Expr) :
    tokensOfInit r init = init.elim [] fun e => mark .equal :: e.tokensAt r := by
  cases init <;> rfl

section

variable (target index operand receiver value iterable projection : Expr) (args items : List Expr)

@[simp]
theorem tokensAt_constant (token : Token) : (constant token).tokensAt .primary = [token] :=
  tokensAt_of_rank rfl

@[simp]
theorem tokensAt_name (token : Token) (ty : Ty) : (name token ty).tokensAt .primary = [token] :=
  tokensAt_of_rank rfl

@[simp]
theorem tokensAt_access : (access target index).tokensAt .primary =
    target.tokensAt .primary ++
      mark .leftBracket :: (index.tokensAt .sum ++ [mark .rightBracket]) :=
  tokensAt_of_rank rfl

@[simp]
theorem tokensAt_slice (start stop : Option Expr) : (slice target start stop).tokensAt .primary =
    target.tokensAt .primary ++
      mark .leftBracket :: (tokensOfOption .sum start ++
        mark .colon :: (tokensOfOption .sum stop ++ [mark .rightBracket])) :=
  tokensAt_of_rank rfl

@[simp]
theorem tokensAt_unary (operator : Token) : (unary operator operand).tokensAt .unary =
    operator :: operand.tokensAt .unary :=
  tokensAt_of_rank rfl

@[simp]
theorem tokensAt_call (callee : Token) (ty : Ty) : (call callee ty args).tokensAt .primary =
    callee :: mark .leftParen ::
      (commas (args.map (tokensAt .assignment)) ++ [mark .rightParen]) := by
  rw [← tokensOf_eq_map]
  exact tokensAt_of_rank rfl

@[simp]
theorem tokensAt_method (operation : Token) :
    (method receiver operation args).tokensAt .primary =
      receiver.tokensAt .primary ++ mark .dot :: operation :: mark .leftParen ::
        (commas (args.map (tokensAt .assignment)) ++ [mark .rightParen]) := by
  rw [← tokensOf_eq_map]
  exact tokensAt_of_rank rfl

@[simp]
theorem tokensAt_array (bracket : Token) : (array bracket items).tokensAt .primary =
    bracket :: (commas (items.map (tokensAt .assignment)) ++ [mark .rightBracket]) := by
  rw [← tokensOf_eq_map]
  exact tokensAt_of_rank rfl

@[simp]
theorem tokensAt_dict (brace : Token) (entries : List (String × Expr)) :
    (dict brace entries).tokensAt .primary =
      brace :: (commas (entries.map entryTokens) ++ [mark .rightBrace]) := by
  rw [← tokensOfEntries_eq_map]
  exact tokensAt_of_rank rfl

@[simp]
theorem tokensAt_assign (equal : Token) : (assign equal target value).tokensAt .assignment =
    target.tokensAt .logicOr ++ equal :: value.tokensAt .assignment :=
  tokensAt_of_rank rfl

@[simp]
theorem tokensAt_comprehension (bracket iterator : Token) (ty : Ty) (init : Option Expr) :
    (comprehension bracket iterator ty init iterable projection).tokensAt .primary =
      bracket :: mark .kwFor :: mark .leftParen :: iterator :: mark .colon :: .ofTy ty ::
        (tokensOfInit .logicOr init ++ mark .kwIn :: (iterable.tokensAt .assignment ++
          mark .rightParen :: mark .arrow ::
            (projection.tokensAt .assignment ++ [mark .rightBracket]))) :=
  tokensAt_of_rank rfl

end

mutual

-- An expression without the lines of its tokens.
def unlined : Expr → Expr
  | constant token => .constant token.unlined
  | name token ty => .name token.unlined ty
  | access target index => .access target.unlined index.unlined
  | slice target start stop =>
    .slice target.unlined (unlinedOption start) (unlinedOption stop)
  | logical operator left right => .logical operator.unlined left.unlined right.unlined
  | relational operator left right => .relational operator.unlined left.unlined right.unlined
  | arithmetic operator left right => .arithmetic operator.unlined left.unlined right.unlined
  | unary operator operand => .unary operator.unlined operand.unlined
  | call callee ty args => .call callee.unlined ty (unlinedAll args)
  | method receiver operation args =>
    .method receiver.unlined operation.unlined (unlinedAll args)
  | array bracket items => .array bracket.unlined (unlinedAll items)
  | dict brace entries => .dict brace.unlined (unlinedEntries entries)
  | assign equal target value => .assign equal.unlined target.unlined value.unlined
  | comprehension bracket iterator ty init iterable projection =>
    .comprehension bracket.unlined iterator.unlined ty (unlinedOption init) iterable.unlined
      projection.unlined

def unlinedAll : List Expr → List Expr
  | [] => []
  | e :: rest => e.unlined :: unlinedAll rest

def unlinedEntries : List (String × Expr) → List (String × Expr)
  | [] => []
  | (key, e) :: rest => (key, e.unlined) :: unlinedEntries rest

def unlinedOption : Option Expr → Option Expr
  | none => none
  | some e => some e.unlined

end

theorem unlinedAll_eq_map (es : List Expr) : unlinedAll es = es.map unlined := by
  induction es with
  | nil => rfl
  | cons e es ih => rw [unlinedAll, ih, List.map_cons]

theorem unlinedEntries_eq_map (entries : List (String × Expr)) :
    unlinedEntries entries = entries.map fun e => (e.1, e.2.unlined) := by
  induction entries with
  | nil => rfl
  | cons e es ih => rw [unlinedEntries, ih, List.map_cons]

theorem unlinedOption_eq_map (o : Option Expr) : unlinedOption o = o.map unlined := by
  cases o <;> rfl

theorem eq_name_of_unlined {e : Expr} {token : Token} {ty : Ty}
    (h : e.unlined = (name token ty).unlined) :
    ∃ token', e = name token' ty ∧ token'.unlined = token.unlined := by
  cases e with
  | name token' ty' =>
    rw [unlined, unlined] at h
    obtain ⟨htoken, rfl⟩ := name.inj h
    exact ⟨token', rfl, htoken⟩
  | _ => cases h

end Expr

-- The tokens of a name with its type, and of its value if it has one.
def annotated (r : Rank) (name : Token) (ty : Ty) (init : Option Expr) : List Token :=
  name :: mark .colon :: .ofTy ty :: Expr.tokensOfInit r init

namespace Declaration

def tokens (d : Declaration) : List Token :=
  annotated .logicOr d.name d.ty d.init

def unlined (d : Declaration) : Declaration :=
  ⟨d.name.unlined, d.ty, d.init.map Expr.unlined⟩

end Declaration

namespace Param

def tokens (p : Param) : List Token :=
  annotated .assignment (.ofName p.name) p.ty p.default

def unlined (p : Param) : Param :=
  ⟨p.name, p.ty, p.default.map Expr.unlined⟩

end Param

-- The tokens of a block whose statements have the tokens `ts`.
def braced (ts : List Token) : List Token :=
  mark .leftBrace :: (ts ++ [mark .rightBrace])

namespace Stmt

mutual

-- The tokens that a statement is printed as.
def tokens : Stmt → List Token
  | expression e => e.tokensAt .assignment
  | declaration decl => mark .kwVar :: decl.tokens
  | function name returns params body _ =>
    mark .kwFunc :: .ofName name :: mark .leftParen ::
      (commas (params.map Param.tokens) ++
        mark .rightParen :: mark .arrow :: .ofTy returns :: braced (tokensOf body))
  | ret value _ => mark .kwReturn :: Expr.tokensOfOption .logicOr value
  | branch condition yes no =>
    mark .kwIf :: mark .leftParen :: (condition.tokensAt .assignment ++
      mark .rightParen :: (braced (tokensOf yes) ++ tokensOfElse no))
  | loop condition body =>
    mark .kwWhile :: mark .leftParen :: (condition.tokensAt .assignment ++
      mark .rightParen :: braced (tokensOf body))
  | each iterator iterable body =>
    mark .kwFor :: mark .leftParen :: (iterator.tokens ++
      mark .kwIn :: (iterable.tokensAt .assignment ++
        mark .rightParen :: braced (tokensOf body)))
  | brk _ => [mark .kwBreak]
  | cont _ => [mark .kwContinue]
  | par body _ => mark .kwPar :: braced (tokensOf body)
  | seq body => mark .kwSeq :: braced (tokensOf body)
  | client name host port _ =>
    mark .kwClient :: .ofName name :: mark .leftBrace :: (host.tokensAt .sum ++
      mark .comma :: (port.tokensAt .sum ++ [mark .rightBrace]))
  | server name handler description host port _ =>
    mark .kwServer :: .ofName name :: mark .leftBrace :: handler :: mark .comma ::
      (description.tokensAt .sum ++ mark .comma :: (host.tokensAt .sum ++
        mark .comma :: (port.tokensAt .sum ++ [mark .rightBrace])))

-- A semicolon follows every statement.
def tokensOf : List Stmt → List Token
  | [] => []
  | s :: rest => s.tokens ++ mark .semicolon :: tokensOf rest

def tokensOfElse : Option (List Stmt) → List Token
  | none => []
  | some body => mark .kwElse :: braced (tokensOf body)

end

mutual

-- A statement without its lines.
def unlined : Stmt → Stmt
  | expression e => .expression e.unlined
  | declaration decl => .declaration decl.unlined
  | function name returns params body _ =>
    .function name returns (params.map Param.unlined) (unlinedAll body) 0
  | ret value _ => .ret (value.map Expr.unlined) 0
  | branch condition yes no => .branch condition.unlined (unlinedAll yes) (unlinedElse no)
  | loop condition body => .loop condition.unlined (unlinedAll body)
  | each iterator iterable body => .each iterator.unlined iterable.unlined (unlinedAll body)
  | brk _ => .brk 0
  | cont _ => .cont 0
  | par body _ => .par (unlinedAll body) 0
  | seq body => .seq (unlinedAll body)
  | client name host port _ => .client name host.unlined port.unlined 0
  | server name handler description host port _ =>
    .server name handler.unlined description.unlined host.unlined port.unlined 0

def unlinedAll : List Stmt → List Stmt
  | [] => []
  | s :: rest => s.unlined :: unlinedAll rest

def unlinedElse : Option (List Stmt) → Option (List Stmt)
  | none => none
  | some body => some (unlinedAll body)

end

theorem tokensOfElse_eq_elim (no : Option (List Stmt)) :
    tokensOfElse no = no.elim [] fun body => mark .kwElse :: braced (tokensOf body) := by
  cases no <;> rfl

theorem unlinedElse_eq_map (no : Option (List Stmt)) : unlinedElse no = no.map unlinedAll := by
  cases no <;> rfl

end Stmt

namespace Program

-- The text of a program, with a space between any two tokens.
def unparse (p : Program) : String :=
  String.ofList ([' '].intercalate ((Stmt.tokensOf p).map Token.text))

-- A program without its lines.
def unlined (p : Program) : Program :=
  Stmt.unlinedAll p

end Program

end Parlance
