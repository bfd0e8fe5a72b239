import Parlance.Host.Local
import Parlance.Proofs.Accepted
import Parlance.Proofs.Builtin
import Parlance.Proofs.Discipline.Run
import Parlance.Proofs.Grammar.Formed
import Parlance.Proofs.Grammar.Literal
import Parlance.Proofs.Lexing.Number

namespace Parlance

-- The failures of what no text is read as: literals that stand for no number, operators that
-- belong to other nodes, and assignments to what has no place.
def RuntimeFault.isInternal : RuntimeFault → Bool
  | .invalidNumber _ | .unknownRelational _ | .unknownArithmetic _ | .notAssignable _ => true
  | _ => false

namespace Token

-- A token that can be read as a number if it is one.
def isLegible (t : Token) : Bool :=
  t.kind != .number || (Builtin.numeral? t.lexeme).isSome

theorem isLegible_of_lex {source : String} {t : Token} (h : t ∈ lex source) :
    t.isLegible = true := by
  unfold isLegible
  by_cases hkind : t.kind = .number
  · have hunsigned := Lexer.lexFrom_unsigned t h hkind
    have hfloat : (Decimal.float? t.lexeme).isSome = true := by
      refine Decimal.isSome_float? ?_
      rw [hunsigned.splitSign_eq]
      exact hunsigned
    rw [Builtin.isSome_numeral?, hfloat, Bool.or_true]
  · simp [hkind]

end Token

namespace Expr

-- An expression that its evaluation has a case for.
def isHandled : Expr → Bool
  | constant t => t.isLegible
  | e => e.isFormed

def Handled (e : Expr) : Prop :=
  ∀ x ∈ e.parts, x.isHandled = true

theorem isHandled_of_formed {e : Expr} (hformed : e.isFormed = true)
    (hliteral : ∀ t, e = .constant t → t.isLegible = true) : e.isHandled = true := by
  cases e with
  | constant t => exact hliteral t rfl
  | _ => exact hformed

theorem Handled.self {e : Expr} (h : e.Handled) : e.isHandled = true :=
  h e (mem_parts_self e)

theorem Handled.child {e x : Expr} (h : e.Handled) (hx : x ∈ e.children) : x.Handled :=
  fun t ht => h t (parts_subset hx t ht)

theorem Handled.operand {e x : Expr} (h : e.Handled) (hx : x ∈ e.operands) : x.Handled :=
  fun t ht => h t (parts_subset_of_operand hx t ht)

end Expr

def Stmt.Handled (s : Stmt) : Prop :=
  ∀ t ∈ s.parts, ∀ e ∈ t.expressions, e.Handled

namespace Stmt.Handled

variable {s t : Stmt}

theorem part (h : s.Handled) (ht : t ∈ s.parts) : t.Handled :=
  fun u hu => h u (parts_trans ht hu)

theorem of_mem_body {body : List Stmt} (h : s.Handled) (hbody : body ∈ s.bodies)
    (ht : t ∈ body) : t.Handled :=
  fun u hu => h u (parts_subset hbody ht u hu)

theorem operand {e : Expr} (h : s.Handled) (he : e ∈ s.operands) : e.Handled := by
  obtain ⟨t, ht, hmem⟩ := exists_part_of_mem_operands he
  exact h t ht e hmem

end Stmt.Handled

-- Whatever is read is handled: literals stand in the text, where all numbers are legible.
theorem handled_of_parse {source : String} {p : Program} (h : parse source = .ok p) :
    ∀ s ∈ p, s.Handled := by
  intro s hs t ht e he x hx
  refine Expr.isHandled_of_formed ((formed_of_parse h s hs t ht).2 e he x hx) ?_
  rintro token rfl
  exact Token.isLegible_of_lex (cites_of_parse h s hs t ht e he token hx)

-- A function that some text defines, accepted or not.
def Parsed (f : Function) : Prop :=
  ∃ source p, parse source = .ok p ∧ f.definition ∈ Program.parts p

namespace Parsed

variable {f : Function}

theorem of_mem_body {g : Function} (hf : Parsed f) (hg : g.definition ∈ Stmt.partsOf f.body) :
    Parsed g := by
  obtain ⟨source, p, hp, hmem⟩ := hf
  exact ⟨source, p, hp, Program.mem_parts_of_mem_body hmem hg⟩

theorem handled (hf : Parsed f) : f.definition.Handled := by
  obtain ⟨source, p, hp, hmem⟩ := hf
  obtain ⟨s, hs, hmem⟩ := Stmt.mem_partsOf.mp hmem
  exact (handled_of_parse hp s hs).part hmem

end Parsed

-- A world in which texts have been run whether or not they are accepted: all functions in it
-- come from texts.
structure World.ParsedOnly (w : World) : Prop where
  functions : ∀ name f, w.functions.get? name = some f → Parsed f
  servers : ∀ s ∈ w.heap.servers, Parsed s.handler

-- Programs that are handled, and whose functions come from texts.
def handling : Discipline Unit where
  expr _ _ e := e.Handled
  stmt _ _ s _ := s.Handled ∧ ∀ f : Function, f.definition ∈ s.parts → Parsed f
  call _ _ := True
  inside _ _ := ()
  project _ _ := ()
  holds _ _ _ _ := True
  func f _ := Parsed f
  signal _ _ := True
  ends _ := True
  allowed := Stop.Avoids RuntimeFault.isInternal

namespace handling

theorem inv_iff {w : World} : handling.Inv w ↔ w.ParsedOnly :=
  ⟨fun h => ⟨h.functions, h.servers⟩, fun h => ⟨h.functions, h.servers⟩⟩

theorem body (n : Nat) {f : Function} (hf : Parsed f ∨ f = idle) :
    handling.Body n () f.body := by
  cases n with
  | zero => exact Stop.avoids_outOfFuel
  | succ n =>
    rcases hf with hf | rfl
    · refine .of_forall fun s hs => ⟨?_, fun g hg => hf.of_mem_body ?_⟩
      · exact hf.handled.of_mem_body (List.mem_singleton.mpr rfl) hs
      · exact Stmt.mem_partsOf.mpr ⟨s, hs, hg⟩
    · exact .nil _

theorem enters {n : Nat} {f : Function} (env : Nat) (w : World) (hf : Parsed f ∨ f = idle) :
    handling.Enters n f env w () () where
  start := trivial
  default p hp e he := by
    rcases hf with hf | rfl
    · exact hf.handled _ (Stmt.mem_parts_self _) e (List.mem_filterMap.mpr ⟨p, hp, he⟩)
    · cases hp
  param _ _ _ _ _ := trivial
  bound _ _ _ _ := trivial
  body := body n hf
  ends _ _ := trivial

-- A legible literal has a value.
theorem constant_ne_error {token : Token} {s : Stop} (h : token.isLegible = true) :
    Eval.constant token ≠ .error s := by
  intro hfails
  unfold Eval.constant at hfails
  split at hfails
  · next hkind =>
    simp only [Token.isLegible, hkind, bne_self_eq_false, Bool.false_or] at h
    obtain ⟨v, hv⟩ := Option.isSome_iff_exists.mp h
    simp [hv] at hfails
  · cases hfails
  · cases hfails

theorem lawful : handling.Lawful where
  operand h _ hx := h.operand hx
  projection h := h.child (List.mem_cons_of_mem _ List.mem_cons_self)
  value hs _ hx := hs.1.operand hx
  block hs body hbody := by
    have hparts := Stmt.mem_bodies_of_mem_blocks hbody
    refine .of_forall fun t ht => ⟨hs.1.of_mem_body hparts ht, fun f hf => hs.2 f ?_⟩
    exact Stmt.parts_subset hparts ht _ hf
  defines hs _ := ⟨hs.2 ⟨_, _, _, _, _⟩ (Stmt.mem_parts_self _), trivial⟩
  enters {n k c env f w} _ _ hf _ := ⟨(), (), enters env w hf⟩
  serves _ _ _ := ⟨(), fun _ => trivial, trivial⟩
  waits _ := Stop.avoids_outOfFuel
  crashes _ _ := Stop.avoids_crash
  ordinary := Stop.avoids_of_ordinary fun cause h => by cases cause <;> first | rfl | cases h
  placed h line _ := Stop.avoids_orLine h line
  fails h := by
    cases h with
    | literal he hvalue => exact absurd hvalue (constant_ne_error he.self)
    | unassignable he hfails | relational he hfails | arithmetic he hfails =>
      exact absurd he.self (by simpa [Expr.isHandled, Expr.isFormed] using hfails)
    | _ => exact Stop.avoids_runtime rfl

theorem runs {source : String} {p : Program} {w : World} (fuel : Nat)
    (hp : parse source = .ok p) (hw : w.ParsedOnly) :
    handling.Runs globals anyName
      (runWith ((Contract.avoiding RuntimeFault.isInternal).watched fuel none) p)
      (runStatements fuel p) w fun _ t => ∃ c, handling.holds none c globals t := by
  have hblock : handling.Block fuel () p := .of_forall fun s hs =>
    ⟨handled_of_parse hp s hs, fun f hf => ⟨source, p, hp, Stmt.mem_partsOf.mpr ⟨s, hs, hf⟩⟩⟩
  have hensures : handling.Ensures (.avoiding RuntimeFault.isInternal) :=
    Discipline.ensures_avoiding fun _ h => h
  refine (Discipline.watched_agrees lawful hensures fuel).run lawful hblock ?_ trivial
    (inv_iff.mpr hw)
  intro signal cause _ hcause
  refine Stop.avoids_runtime ?_
  cases signal <;> cases hcause <;> rfl

end handling

-- No run of a text that can be read, accepted or not, fails for what no text is read as, and
-- neither does anything that is evaluated on the way, in a world in which nothing but such
-- texts has been run. All numbers of the text are legible, all nodes of the program have an
-- operator that their evaluation has a case for, and all assignments are to names and elements.
theorem parsed_programs_are_handled {source : String} {p : Program} {w : World} (fuel : Nat)
    (hp : parse source = .ok p) (hw : w.ParsedOnly) :
    Outcome.fails RuntimeFault.isInternal (runStatements fuel p w) = false ∧
    (Contract.avoiding RuntimeFault.isInternal).Kept fuel p w ∧
    (Outcome.world (runStatements fuel p w)).ParsedOnly ∧
    (∀ t ∈ lex source, t.kind = .number → ∃ v, Builtin.numeral? t.lexeme = some v) ∧
    ∀ e ∈ Program.expressions p, e.isFormed = true := by
  have hrun := handling.runs fuel hp hw
  refine ⟨hrun.meets.fails_eq_false fun _ h => h, hrun.same, handling.inv_iff.mp hrun.meets.inv,
    fun t ht hkind => ?_, fun e he => ?_⟩
  · have hlegible := Token.isLegible_of_lex ht
    simp only [Token.isLegible, hkind, bne_self_eq_false, Bool.false_or] at hlegible
    exact Option.isSome_iff_exists.mp hlegible
  · exact (Expr.formed_iff.mp ((Program.formed_of_mem hp).2 e he)).1

-- A program that is not accepted, with numbers in all their forms.
def unaccepted : String :=
  "func f(a: number = .5) -> number \x7b return -a * 18446744073709551616 \x7d
  var x: number = f(2.50) % 007 x = x * .25 <= !\"a\""

set_option maxRecDepth 10000 in
theorem unaccepted_is_handled :
    (compile unaccepted).isOk = false ∧ ∃ p, parse unaccepted = .ok p ∧
      (World.fresh (.captured "") ⟨true, .loopback⟩).ParsedOnly ∧
      Outcome.fails RuntimeFault.isInternal
        (runStatements 40 p (World.fresh (.captured "") ⟨true, .loopback⟩)) = false := by
  obtain ⟨p, hp⟩ := exists_of_isOk (x := parse unaccepted) (by decide +kernel)
  have hw := handling.inv_iff.mp (handling.inv_fresh (.captured "") ⟨true, .loopback⟩)
  exact ⟨by decide +kernel, p, hp, hw, (parsed_programs_are_handled 40 hp hw).1⟩

end Parlance
