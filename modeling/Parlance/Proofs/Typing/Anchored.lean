import Parlance.Proofs.Grammar.Anchored
import Parlance.Typing.Stmt

namespace Parlance.Typing

-- A program is refused for its types.
structure Refusal (M : Mark) (f : Fault) : Prop where
  stage : f.cause.stage = .typing
  line : f.IsAt M.line
  quotes : ∀ s ∈ f.cause.quoted, M.text s

-- A check that takes the lines and texts of its failures from the tokens of a program.
def Anchored (M : Mark) {α : Type} (x : Except Fault α) : Prop :=
  ∀ f, x = .error f → Refusal M f

namespace Anchored

variable {M : Mark} {α β : Type} {x : Except Fault α}

theorem pure (a : α) : Anchored M (.ok a) := by
  intro f h
  cases h

theorem typing {cause : TypeFault} {line : Nat} (h : M.line line)
    (hquotes : ∀ s ∈ cause.quoted, M.text s) :
    Anchored M (.error (.typing cause line) : Except Fault α) := by
  intro f hf
  cases hf
  exact ⟨rfl, ⟨line, rfl, h⟩, hquotes⟩

theorem bind {g : α → Except Fault β} (hx : Anchored M x) (hg : ∀ a, Anchored M (g a)) :
    Anchored M (x >>= g) := by
  intro f hf
  cases hcase : x with
  | ok a =>
    rw [hcase] at hf
    exact hg a f hf
  | error e =>
    rw [hcase] at hf
    cases hf
    exact hx f hcase

theorem require {ok : Bool} {cause : TypeFault} {line : Nat} (h : M.line line)
    (hquotes : ∀ s ∈ cause.quoted, M.text s) : Anchored M (require ok cause line) := by
  unfold Typing.require
  split
  · exact pure ()
  · exact typing h hquotes

-- A check before a result that is already known.
theorem before {a : α} {y : Except Fault β} (hy : Anchored M y) :
    Anchored M (do let _ ← y; return a) :=
  hy.bind fun _ => pure a

theorem mustBe {what : String} {expected found : Ty} {e : Expr} (h : e.Marked M)
    (hwhat : Unbroken what) : Anchored M (mustBe what expected e found) :=
  require h.token.line (M.word hwhat)

theorem condition (construct : String) {accepted : List Ty} {e : Expr} {found : Ty}
    (h : e.Marked M) (hconstruct : Unbroken construct) :
    Anchored M (condition construct accepted e found) :=
  require h.token.line (M.word hconstruct)

theorem logicalOperand {operator : Token} {operand : Expr} {found : Ty} (h : operator.Has M) :
    Anchored M (logicalOperand operator operand found) :=
  require h.line h.quoted

theorem access {target index : Expr} {receiver found : Ty} (h : target.Marked M) :
    Anchored M (accessType target index receiver found) := by
  unfold accessType
  split
  · exact typing h.token.line h.token.quoted
  · exact before (require h.token.line (by simp [TypeFault.quoted]))

theorem relational {operator : Token} {left right : Expr} {l r : Ty} (h : operator.Has M) :
    Anchored M (relationalType operator left right l r) :=
  before (require h.line h.quoted)

theorem arithmetic {operator : Token} {left right : Expr} {l r : Ty} (h : operator.Has M) :
    Anchored M (arithmeticType operator left right l r) := by
  unfold arithmeticType
  split
  · exact pure r
  · split
    · exact pure l
    · exact before (require h.line h.quoted)

theorem unary {operator : Token} {operand : Expr} {found : Ty} (h : operator.Has M) :
    Anchored M (unaryType operator operand found) :=
  before (require h.line h.quoted)

theorem assign {target value : Expr} {declared found : Ty} (htarget : target.Marked M)
    (h : value.Marked M) : Anchored M (assignType target value declared found) :=
  before (require h.token.line htarget.token.quoted)

theorem channelArgument {name : Token} {expected : Ty} {args : List (Expr × Ty)}
    (h : name.Has M) : Anchored M (channelArgument name expected args) := by
  unfold Typing.channelArgument
  split
  · exact typing h.line h.quoted
  · exact require h.line h.quoted

theorem call {fs : Functions} {name : Token} {callee : Option Ty} {args : List (Expr × Ty)}
    (h : name.Has M) : Anchored M (callType fs name callee args) := by
  unfold callType
  split
  · split
    · exact before (channelArgument h)
    · exact pure _
  · split
    · exact before (require h.line h.quoted)
    · refine typing h.line ?_
      split
      · split <;> exact h.quoted
      · exact h.quoted

mutual

theorem expr (fs : Functions) : ∀ {e : Expr}, e.Marked M → Anchored M (exprType fs e)
  | .constant _, _ => by
    rw [exprType]
    exact pure _
  | .name _ _, _ => by
    rw [exprType]
    exact pure _
  | .access target index, h => by
    rw [Expr.Marked] at h
    rw [exprType]
    apply (expr fs h.1).bind
    intro receiver
    apply (expr fs h.2).bind
    intro found
    exact access h.1
  | .slice target start stop, h => by
    rw [Expr.Marked] at h
    rw [exprType]
    apply (expr fs h.1).bind
    intro receiver
    refine bind (require h.1.token.line h.1.token.quoted) fun _ => ?_
    apply (bound fs h.2.1).bind
    intro _
    exact before (bound fs h.2.2)
  | .logical operator left right, h => by
    rw [Expr.Marked] at h
    rw [exprType]
    apply (expr fs h.2.1).bind
    intro l
    apply (logicalOperand h.1).bind
    intro _
    apply (expr fs h.2.2).bind
    intro r
    exact before (logicalOperand h.1)
  | .relational operator left right, h => by
    rw [Expr.Marked] at h
    rw [exprType]
    apply (expr fs h.2.1).bind
    intro l
    apply (expr fs h.2.2).bind
    intro r
    exact relational h.1
  | .arithmetic operator left right, h => by
    rw [Expr.Marked] at h
    rw [exprType]
    apply (expr fs h.2.1).bind
    intro l
    apply (expr fs h.2.2).bind
    intro r
    exact arithmetic h.1
  | .unary operator operand, h => by
    rw [Expr.Marked] at h
    rw [exprType]
    apply (expr fs h.2).bind
    intro found
    exact unary h.1
  | .call callee ty args, h => by
    rw [Expr.Marked] at h
    rw [exprType]
    apply (exprs fs h.2).bind
    intro typed
    exact call h.1
  | .method receiver operation args, h => by
    rw [Expr.Marked] at h
    rw [exprType]
    apply (expr fs h.1).bind
    intro found
    apply (exprs fs h.2.2).bind
    intro typed
    exact call h.2.1
  | .array bracket items, h => by
    rw [Expr.Marked] at h
    rw [exprType]
    exact before (exprs fs h.2)
  | .dict brace entries, h => by
    rw [Expr.Marked] at h
    rw [exprType]
    exact before (entryTypes fs h.2)
  | .assign equal target value, h => by
    rw [Expr.Marked] at h
    rw [exprType]
    apply (expr fs h.2.1).bind
    intro declared
    apply (expr fs h.2.2).bind
    intro found
    exact assign h.2.1 h.2.2
  | .comprehension bracket iterator ty init iterable projection, h => by
    rw [Expr.Marked] at h
    obtain ⟨-, hiterator, hinit, hiterable, hprojection⟩ := h
    rw [exprType]
    apply (initial fs hiterator hinit).bind
    intro _
    apply (expr fs hiterable).bind
    intro found
    apply (condition "for" hiterable (by decide)).bind
    intro _
    exact before (expr fs hprojection)

theorem exprs (fs : Functions) :
    ∀ {es : List Expr}, Expr.MarkedAll M es → Anchored M (exprTypes fs es)
  | [], _ => by
    rw [exprTypes]
    exact pure _
  | e :: rest, h => by
    rw [Expr.MarkedAll] at h
    rw [exprTypes]
    apply (expr fs h.1).bind
    intro ty
    exact (exprs fs h.2).bind fun typed => pure _

theorem entryTypes (fs : Functions) :
    ∀ {es : List (String × Expr)}, Expr.MarkedEntries M es → Anchored M (entryTypes fs es)
  | [], _ => by
    rw [Typing.entryTypes]
    exact pure _
  | (_, e) :: rest, h => by
    rw [Expr.MarkedEntries] at h
    rw [Typing.entryTypes]
    exact (expr fs h.2.1).bind fun _ => entryTypes fs h.2.2

theorem bound (fs : Functions) :
    ∀ {o : Option Expr}, Expr.MarkedOption M o → Anchored M (boundType fs o)
  | none, _ => by
    rw [boundType]
    exact pure _
  | some e, h => by
    rw [Expr.MarkedOption] at h
    rw [boundType]
    exact (expr fs h).bind fun found => mustBe h (by decide)

theorem initial (fs : Functions) {name : Token} {ty : Ty} (hname : name.Has M) :
    ∀ {o : Option Expr}, Expr.MarkedOption M o → Anchored M (initType fs name ty o)
  | none, _ => by
    rw [initType]
    exact pure _
  | some e, h => by
    rw [Expr.MarkedOption] at h
    rw [initType]
    exact (expr fs h).bind fun found => require hname.line hname.quoted

end

theorem declared (fs : Functions) {d : Declaration} (h : d.Marked M) :
    Anchored M (declared fs d) :=
  initial fs h.1 (Expr.markedOption_iff.mpr h.2)

theorem paramDefaults (fs : Functions) {params : List Param}
    (h : ∀ p ∈ params, p.Marked M) : Anchored M (paramDefaults fs params) := by
  induction params with
  | nil => exact pure ()
  | cons p rest ih =>
    obtain ⟨hp, hrest⟩ := List.forall_mem_cons.mp h
    rw [Typing.paramDefaults]
    split
    · exact ih hrest
    · next e he =>
      have hdefault := hp.2 e he
      apply (expr fs hdefault).bind
      intro found
      have hname := List.forall_mem_singleton.mpr hp.1
      exact bind (require hdefault.token.line hname) fun _ => ih hrest

theorem returnValue (fs : Functions) (places : List Place) {value : Option Expr} {line : Nat}
    (hline : M.line line) (h : ∀ e ∈ value, e.Marked M) :
    Anchored M (returnValue fs places value line) := by
  unfold Typing.returnValue
  split
  · exact typing hline (by simp [TypeFault.quoted])
  · split
    · exact require hline (by simp [TypeFault.quoted])
    · exact (expr fs (h _ rfl)).bind fun found => require hline (by simp [TypeFault.quoted])

theorem operand (fs : Functions) {what : String} {expected : Ty} {e : Expr} (h : e.Marked M)
    (hwhat : Unbroken what) : Anchored M (operand fs what expected e) :=
  (expr fs h).bind fun _ => mustBe h hwhat

theorem unbroken_of_barrier? {places : List Place} {construct : String}
    (h : barrier? places = some construct) : Unbroken construct := by
  obtain ⟨place, -, hplace⟩ := List.exists_of_findSome?_eq_some h
  cases place <;> cases hplace <;> decide

theorem handler (fs : Functions) {name : Token} (h : name.Has M) :
    Anchored M (handler fs name) := by
  unfold Typing.handler
  split
  · exact require h.line h.quoted
  · exact typing h.line h.quoted

mutual

theorem stmt (places : List Place) (fs : Functions) :
    ∀ {s : Stmt}, s.Marked M → Anchored M (stmt places fs s)
  | .expression e, h => by
    rw [Stmt.Marked] at h
    rw [Typing.stmt]
    exact before (expr fs h)
  | .declaration d, h => by
    rw [Stmt.Marked] at h
    rw [Typing.stmt]
    exact before (declared fs h)
  | .function name returns params body line, h => by
    rw [Stmt.Marked] at h
    rw [Typing.stmt]
    split
    · next construct hbarrier =>
      have hconstruct := M.word (unbroken_of_barrier? hbarrier)
      exact typing h.1 (List.forall_mem_cons.mpr ⟨h.2.1, hconstruct⟩)
    · exact (paramDefaults fs h.2.2.1).bind fun _ => stmts _ _ h.2.2.2
  | .ret value line, h => by
    rw [Stmt.Marked] at h
    rw [Typing.stmt]
    exact before (returnValue fs places h.1 h.2)
  | .brk line, h | .cont line, h => by
    rw [Stmt.Marked] at h
    rw [Typing.stmt]
    exact before (require h (M.word (by decide)))
  | .branch c yes no, h => by
    rw [Stmt.Marked] at h
    rw [Typing.stmt]
    apply (expr fs h.1).bind
    intro found
    apply (condition "if" h.1 (by decide)).bind
    intro _
    exact (stmts _ fs h.2.1).bind fun fs => optionalStmts _ fs h.2.2
  | .loop c body, h => by
    rw [Stmt.Marked] at h
    rw [Typing.stmt]
    apply (expr fs h.1).bind
    intro found
    exact (condition "while" h.1 (by decide)).bind fun _ => stmts _ fs h.2
  | .each iterator iterable body, h => by
    rw [Stmt.Marked] at h
    rw [Typing.stmt]
    apply (declared fs h.1).bind
    intro _
    apply (expr fs h.2.1).bind
    intro found
    exact (condition "for" h.2.1 (by decide)).bind fun _ => stmts _ fs h.2.2
  | .par body line, h => by
    rw [Stmt.Marked] at h
    rw [Typing.stmt]
    exact bind (require h.1 (by simp [TypeFault.quoted])) fun _ => stmts _ fs h.2
  | .seq body, h => by
    rw [Stmt.Marked] at h
    rw [Typing.stmt]
    exact stmts places fs h
  | .client name host port line, h => by
    rw [Stmt.Marked] at h
    rw [Typing.stmt]
    exact (operand fs h.2.1 (by decide)).bind fun _ => before (operand fs h.2.2 (by decide))
  | .server name target description host port line, h => by
    rw [Stmt.Marked] at h
    obtain ⟨-, htarget, hdescription, hhost, hport⟩ := h
    rw [Typing.stmt]
    apply (handler fs htarget).bind
    intro _
    apply (operand fs hdescription (by decide)).bind
    intro _
    exact (operand fs hhost (by decide)).bind fun _ => before (operand fs hport (by decide))

theorem stmts (places : List Place) (fs : Functions) :
    ∀ {body : List Stmt}, Stmt.MarkedAll M body → Anchored M (stmts places fs body)
  | [], _ => by
    rw [Typing.stmts]
    exact pure _
  | s :: rest, h => by
    rw [Stmt.MarkedAll] at h
    rw [Typing.stmts]
    exact (stmt places fs h.1).bind fun fs => stmts places fs h.2

theorem optionalStmts (places : List Place) (fs : Functions) :
    ∀ {o : Option (List Stmt)}, Stmt.MarkedOption M o → Anchored M (optionalStmts places fs o)
  | none, _ => by
    rw [Typing.optionalStmts]
    exact pure _
  | some body, h => by
    rw [Stmt.MarkedOption] at h
    rw [Typing.optionalStmts]
    exact stmts places fs h

end

theorem program {p : Program} (h : Stmt.MarkedAll M p) : Anchored M (program p) :=
  before (stmts [] [] h)

end Anchored

end Parlance.Typing
