import Parlance.Proofs.Accepted
import Parlance.Proofs.Grammar.Stmt

namespace Parlance

namespace Grammar

mutual

-- The expressions of the language: which tokens form an expression of a rank, and which tree
-- they stand for. Parentheses and commas leave no trace in the tree. Binary operators
-- associate to the left, and an assignment to the right.
inductive Derives : Rank → List Token → Expr → Prop
  | tighter {r ts e} (h : Derives r.next ts e) : Derives r ts e
  | assign {ts target equal us value} (htarget : Derives .logicOr ts target)
      (hassignable : target.isAssignable = true) (hequal : equal.kind = .equal)
      (hvalue : Derives .assignment us value) :
      Derives .assignment (ts ++ equal :: us) (.assign equal target value)
  | binary {r ts left operator us right} (hleft : Derives r ts left)
      (hoperator : operator.kind ∈ r.operators) (hright : Derives r.next us right) :
      Derives r (ts ++ operator :: us) (r.node operator left right)
  | unary {operator ts operand} (hoperator : operator.kind = .bang ∨ operator.kind = .minus)
      (h : Derives .unary ts operand) : Derives .unary (operator :: ts) (.unary operator operand)
  | constant {t} (h : isConstant t.kind = true) : Derives .primary [t] (.constant t)
  | grouped {ts e} (h : Enclosed .leftParen .rightParen (Derives .assignment) ts e) :
      Derives .primary ts e
  | array {bracket ts items close} (hbracket : bracket.kind = .leftBracket)
      (h : Commas (Derives .assignment) ts items) (hclose : close.kind = .rightBracket) :
      Derives .primary (bracket :: (ts ++ [close])) (.array bracket items)
  | dict {brace ts entries close} (hbrace : brace.kind = .leftBrace)
      (h : Commas (Keyed (Derives .assignment)) ts entries) (hclose : close.kind = .rightBrace) :
      Derives .primary (brace :: (ts ++ [close])) (.dict brace entries)
  | comprehension {bracket keyword left var ts iterator ty init in' us iterable right arrow vs
      projection close} (hbracket : bracket.kind = .leftBracket) (hfor : keyword.kind = .kwFor)
      (hleft : left.kind = .leftParen) (hvar : ∀ t ∈ var, t.kind = .kwVar)
      (hiterator : Annotated (Derives .logicOr) ts iterator ty init) (hin : in'.kind = .kwIn)
      (hiterable : Derives .assignment us iterable) (hright : right.kind = .rightParen)
      (harrow : arrow.kind = .arrow) (hprojection : Derives .assignment vs projection)
      (hclose : close.kind = .rightBracket) :
      Derives .primary
        (bracket :: keyword :: left ::
          (Option.toList var ++ (ts ++ in' :: (us ++ right :: arrow :: (vs ++ [close])))))
        (.comprehension bracket iterator ty init iterable projection)
  | suffixed {ts e} (h : DerivesSuffixed ts e) : Derives .primary ts e

-- A name, and what stands behind it. Nothing but a bare name is called, and the name of an
-- operation is followed by its arguments.
inductive DerivesSuffixed : List Token → Expr → Prop
  | name {t} (ty) (h : t.kind = .id) : DerivesSuffixed [t] (.name t ty)
  | call {callee ts args} (ty) (hcallee : callee.kind = .id)
      (hargs : Enclosed .leftParen .rightParen (Commas (Derives .assignment)) ts args) :
      DerivesSuffixed (callee :: ts) (.call callee ty args)
  | access {ts target us index} (htarget : DerivesSuffixed ts target)
      (hindex : Enclosed .leftBracket .rightBracket (Derives .sum) us index) :
      DerivesSuffixed (ts ++ us) (.access target index)
  | slice {ts target left us start colon vs stop right} (htarget : DerivesSuffixed ts target)
      (hleft : left.kind = .leftBracket) (hstart : Maybe (Derives .sum) us start)
      (hcolon : colon.kind = .colon) (hstop : Maybe (Derives .sum) vs stop)
      (hright : right.kind = .rightBracket) :
      DerivesSuffixed (ts ++ left :: (us ++ colon :: (vs ++ [right]))) (.slice target start stop)
  | method {ts receiver dot operation us args} (hreceiver : DerivesSuffixed ts receiver)
      (hdot : dot.kind = .dot) (hoperation : operation.kind = .id)
      (hargs : Enclosed .leftParen .rightParen (Commas (Derives .assignment)) us args) :
      DerivesSuffixed (ts ++ dot :: operation :: us) (.method receiver operation args)

end

mutual

-- The statements of the language. One that is an expression starts with a name.
inductive DerivesStmt : List Token → Stmt → Prop
  | expression {ts e} (h : Derives .assignment ts e) (hname : ∀ t ∈ ts.head?, t.kind = .id) :
      DerivesStmt ts (.expression e)
  | declaration {var ts} {decl : Declaration} (hvar : var.kind = .kwVar)
      (h : Annotated (Derives .logicOr) ts decl.name decl.ty decl.init) :
      DerivesStmt (var :: ts) (.declaration decl)
  | function {keyword name ts params arrow type returns us body}
      (hkeyword : keyword.kind = .kwFunc) (hname : name.kind = .id)
      (hparams : Enclosed .leftParen .rightParen (Commas (Parameter (Derives .assignment))) ts
        params) (harrow : arrow.kind = .arrow) (htype : type.kind = .typeName)
      (hreturns : Ty.ofKeyword? type.lexeme = some returns)
      (hbody : Enclosed .leftBrace .rightBrace DerivesBody us body) :
      DerivesStmt (keyword :: name :: (ts ++ arrow :: type :: us))
        (.function name.lexeme returns params body keyword.line)
  | ret {keyword ts value} (hkeyword : keyword.kind = .kwReturn)
      (h : Maybe (Derives .logicOr) ts value) :
      DerivesStmt (keyword :: ts) (.ret value keyword.line)
  | branch {keyword ts condition us yes vs no} (hkeyword : keyword.kind = .kwIf)
      (hcondition : Enclosed .leftParen .rightParen (Derives .assignment) ts condition)
      (hyes : Enclosed .leftBrace .rightBrace DerivesBody us yes)
      (hno : Maybe (Led .kwElse (Enclosed .leftBrace .rightBrace DerivesBody)) vs no) :
      DerivesStmt (keyword :: (ts ++ (us ++ vs))) (.branch condition yes no)
  | loop {keyword ts condition us body} (hkeyword : keyword.kind = .kwWhile)
      (hcondition : Enclosed .leftParen .rightParen (Derives .assignment) ts condition)
      (hbody : Enclosed .leftBrace .rightBrace DerivesBody us body) :
      DerivesStmt (keyword :: (ts ++ us)) (.loop condition body)
  | each {keyword left var ts} {iterator : Declaration} {in' us iterable right vs body}
      (hkeyword : keyword.kind = .kwFor) (hleft : left.kind = .leftParen)
      (hvar : ∀ t ∈ var, t.kind = .kwVar)
      (hiterator : Annotated (Derives .logicOr) ts iterator.name iterator.ty iterator.init)
      (hin : in'.kind = .kwIn) (hiterable : Derives .assignment us iterable)
      (hright : right.kind = .rightParen)
      (hbody : Enclosed .leftBrace .rightBrace DerivesBody vs body) :
      DerivesStmt (keyword :: left :: (Option.toList var ++ (ts ++ in' :: (us ++ right :: vs))))
        (.each iterator iterable body)
  | brk {keyword} (h : keyword.kind = .kwBreak) : DerivesStmt [keyword] (.brk keyword.line)
  | cont {keyword} (h : keyword.kind = .kwContinue) : DerivesStmt [keyword] (.cont keyword.line)
  | par {keyword ts body} (hkeyword : keyword.kind = .kwPar)
      (hbody : Enclosed .leftBrace .rightBrace DerivesBody ts body) :
      DerivesStmt (keyword :: ts) (.par body keyword.line)
  | seq {keyword ts body} (hkeyword : keyword.kind = .kwSeq)
      (hbody : Enclosed .leftBrace .rightBrace DerivesBody ts body) :
      DerivesStmt (keyword :: ts) (.seq body)
  | client {keyword name left ts host comma us port right} (hkeyword : keyword.kind = .kwClient)
      (hname : name.kind = .id) (hleft : left.kind = .leftBrace) (hhost : Derives .sum ts host)
      (hcomma : comma.kind = .comma) (hport : Derives .sum us port)
      (hright : right.kind = .rightBrace) :
      DerivesStmt (keyword :: name :: left :: (ts ++ comma :: (us ++ [right])))
        (.client name.lexeme host port keyword.line)
  | server {keyword name left handler comma ts description comma' us host comma'' vs port right}
      (hkeyword : keyword.kind = .kwServer) (hname : name.kind = .id)
      (hleft : left.kind = .leftBrace) (hhandler : handler.kind = .id)
      (hcomma : comma.kind = .comma) (hdescription : Derives .sum ts description)
      (hcomma' : comma'.kind = .comma) (hhost : Derives .sum us host)
      (hcomma'' : comma''.kind = .comma) (hport : Derives .sum vs port)
      (hright : right.kind = .rightBrace) :
      DerivesStmt
        (keyword :: name :: left :: handler :: comma ::
          (ts ++ comma' :: (us ++ comma'' :: (vs ++ [right]))))
        (.server name.lexeme handler description host port keyword.line)

-- Statements one after the other, with semicolons wherever one wants. A return without a
-- value is the last of them, or a semicolon follows it.
inductive DerivesBody : List Token → List Stmt → Prop
  | nil : DerivesBody [] []
  | skip {semicolon ts body} (hsemicolon : semicolon.kind = .semicolon) (h : DerivesBody ts body) :
      DerivesBody (semicolon :: ts) body
  | cons {ts s us rest} (hs : DerivesStmt ts s)
      (hbare : s.isBareReturn = true → ∀ t ∈ us.head?, t.kind = .semicolon)
      (hrest : DerivesBody us rest) : DerivesBody (ts ++ us) (s :: rest)

end

-- The relation between sentences and their trees. Which names are visible, and how deep a
-- phrase is nested, does not matter to it.
def sentences : Reading where
  expr _ _ := Derives
  suffixed _ _ := DerivesSuffixed
  stmt _ _ ts s _ := DerivesStmt ts s
  body _ _ ts body _ := DerivesBody ts body

namespace sentences

theorem block {σ : Scope} {d : Nat} {ts : List Token} {body : List Stmt}
    (h : sentences.Block σ d ts body) : Enclosed .leftBrace .rightBrace DerivesBody ts body :=
  h.imp fun _ _ hbody => hbody.choose_spec

theorem closed : sentences.Closed where
  tighter h := .tighter h
  assign _ htarget hassignable hequal hvalue := .assign htarget hassignable hequal hvalue
  binary hleft hoperator hright := .binary hleft hoperator hright
  unary _ hoperator h := .unary hoperator h
  constant _ h := .constant h
  grouped _ h := .grouped h
  array _ hbracket h hclose := .array hbracket h hclose
  dict _ hbrace h hclose := .dict hbrace h hclose
  comprehension _ hbracket hfor hleft hvar hiterator _ hin hiterable hright harrow hprojection
      hclose :=
    .comprehension hbracket hfor hleft hvar hiterator hin hiterable hright harrow hprojection hclose
  primary h := .suffixed h
  name _ h _ := .name _ h
  call _ hcallee _ hargs := .call _ hcallee hargs
  access _ htarget hindex := .access htarget hindex
  slice _ htarget hleft hstart hcolon hstop hright :=
    .slice htarget hleft hstart hcolon hstop hright
  method _ hreceiver hdot hoperation hargs := .method hreceiver hdot hoperation hargs
  expression h hname := .expression h hname
  declaration hvar h _ := .declaration hvar h
  function _ hkeyword hname _ hparams _ harrow htype hreturns hbody :=
    .function hkeyword hname hparams harrow htype hreturns (block hbody)
  ret hkeyword h := .ret hkeyword h
  branch _ hkeyword hcondition hyes hno :=
    .branch hkeyword hcondition (block hyes)
      (hno.imp fun _ _ h => h.imp fun _ _ hbody => block hbody)
  loop _ hkeyword hcondition hbody := .loop hkeyword hcondition (block hbody)
  each _ hkeyword hleft hvar hiterator hin hiterable hright hbody :=
    .each hkeyword hleft hvar hiterator hin hiterable hright (block hbody)
  brk h := .brk h
  cont h := .cont h
  par _ hkeyword hbody := .par hkeyword (block hbody)
  seq _ hkeyword hbody := .seq hkeyword (block hbody)
  client hkeyword hname _ hleft hhost hcomma hport hright :=
    .client hkeyword hname hleft hhost hcomma hport hright
  server hkeyword hname _ hleft hhandler _ hcomma hdescription hcomma' hhost hcomma'' hport
      hright :=
    .server hkeyword hname hleft hhandler hcomma hdescription hcomma' hhost hcomma'' hport hright
  nil := .nil
  skip hsemicolon h := .skip hsemicolon h
  cons hs hbare hrest := .cons hs hbare hrest

end sentences

end Grammar

-- All tokens of a text that can be read, up to its end, form a sentence, and the program is
-- the tree that this sentence stands for.
theorem parsed_text_is_a_sentence {source : String} {p : Program} (h : parse source = .ok p) :
    ∃ ts eof, lex source = ts ++ [eof] ∧ eof.kind = .eof ∧ Grammar.DerivesBody ts p := by
  obtain ⟨ts, eof, _, hlex, heof, hp⟩ := Grammar.Reading.of_parse Grammar.sentences.closed h
  exact ⟨ts, eof, hlex, heof, hp⟩

-- A text with phrases of many kinds, and with much that may be left out or added.
def manyPhrases : String :=
  "var a: list = [1, -2 * (3 + 4) - 5,]; ;
  func f(x: number = a[0],) -> number \x7b if (x) \x7b return \x7d return a[:x] \x7d
  a[1] = a = f(1).pow(2)"

set_option maxRecDepth 10000 in
theorem manyPhrases_is_a_sentence :
    ∃ p, parse manyPhrases = .ok p ∧
      ∃ ts eof, lex manyPhrases = ts ++ [eof] ∧ eof.kind = .eof ∧ Grammar.DerivesBody ts p := by
  obtain ⟨p, hp⟩ : ∃ p, parse manyPhrases = .ok p := exists_of_isOk (by decide +kernel)
  exact ⟨p, hp, parsed_text_is_a_sentence hp⟩

end Parlance
