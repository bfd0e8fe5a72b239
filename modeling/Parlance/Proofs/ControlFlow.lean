import Parlance.Host.Local
import Parlance.Proofs.Accepted
import Parlance.Proofs.Discipline.Run

namespace Parlance

-- What is around a statement: a function, and a loop inside that function.
structure Position where
  inFunction : Bool
  inLoop : Bool

namespace Position

-- Outside of everything, and at the start of the body of a function.
def top : Position := ⟨false, false⟩

def body : Position := ⟨true, false⟩

def looping (c : Position) : Position :=
  { c with inLoop := true }

-- The ways to end that there are at a position.
def Permits (c : Position) : Signal → Prop
  | .normal => True
  | .ret _ => c.inFunction = true
  | .brk | .cont => c.inLoop = true

end Position

def Stmt.isExpression : Stmt → Bool
  | expression _ => true
  | _ => false

-- Statements that return inside functions only and break and continue inside loops only, and
-- whose parallel blocks hold nothing but expressions.
inductive Placed : Position → Stmt → Prop
  | expression {c} (e) : Placed c (.expression e)
  | declaration {c} (d) : Placed c (.declaration d)
  | function {c body} (name returns params line) (hbody : ∀ s ∈ body, Placed .body s) :
      Placed c (.function name returns params body line)
  | ret {c} (value line) (h : c.inFunction = true) : Placed c (.ret value line)
  | branch {c yes no} (condition) (hyes : ∀ s ∈ yes, Placed c s)
      (hno : ∀ body ∈ no, ∀ s ∈ body, Placed c s) : Placed c (.branch condition yes no)
  | loop {c : Position} {body} (condition) (hbody : ∀ s ∈ body, Placed c.looping s) :
      Placed c (.loop condition body)
  | each {c : Position} {body} (iterator iterable) (hbody : ∀ s ∈ body, Placed c.looping s) :
      Placed c (.each iterator iterable body)
  | brk {c} (line) (h : c.inLoop = true) : Placed c (.brk line)
  | cont {c} (line) (h : c.inLoop = true) : Placed c (.cont line)
  | par {c body} (line) (hbody : body.all Stmt.isExpression = true) : Placed c (.par body line)
  | seq {c body} (hbody : ∀ s ∈ body, Placed c s) : Placed c (.seq body)
  | client {c} (name host port line) : Placed c (.client name host port line)
  | server {c} (name handler description host port line) :
      Placed c (.server name handler description host port line)

theorem Placed.of_mem_body {c : Position} {s t : Stmt} {body : List Stmt} (h : Placed c s)
    (hbody : body ∈ s.bodies) (ht : t ∈ body) : ∃ c', Placed c' t := by
  cases h with
  | function name returns params line h => exact ⟨_, h t (List.mem_singleton.mp hbody ▸ ht)⟩
  | branch condition hyes hno =>
    rcases List.mem_cons.mp hbody with rfl | hbody
    · exact ⟨c, hyes t ht⟩
    · exact ⟨c, hno body (Option.mem_toList.mp hbody) t ht⟩
  | loop condition h => exact ⟨_, h t (List.mem_singleton.mp hbody ▸ ht)⟩
  | each iterator iterable h => exact ⟨_, h t (List.mem_singleton.mp hbody ▸ ht)⟩
  | seq h => exact ⟨c, h t (List.mem_singleton.mp hbody ▸ ht)⟩
  | par line h =>
    have hexpr := List.all_eq_true.mp h t (List.mem_singleton.mp hbody ▸ ht)
    cases t with
    | expression e => exact ⟨c, .expression e⟩
    | _ => cases hexpr
  | _ => cases hbody

-- What stands inside a placed statement is placed somewhere.
theorem Placed.of_mem_parts {c : Position} {s t : Stmt} (h : Placed c s) (ht : t ∈ s.parts) :
    ∃ c', Placed c' t :=
  Stmt.of_mem_parts (P := fun s => ∃ c, Placed c s)
    (fun _ ⟨_, hs⟩ _ hbody _ ht => hs.of_mem_body hbody ht) ⟨c, h⟩ ht

namespace Typing

-- The position of a statement among the places that the checker keeps track of.
def position (places : List Place) : Position :=
  ⟨(returnType? places).isSome, inLoop places⟩

theorem inFunction_of_returnValue {fs : Functions} {places : List Place} {value : Option Expr}
    {line : Nat} {u : Unit} (h : returnValue fs places value line = .ok u) :
    (position places).inFunction = true := by
  unfold returnValue at h
  cases hr : returnType? places with
  | none =>
    rw [hr] at h
    cases h
  | some ty => simp [position, hr]

theorem isExpression_of_isWorker {s : Stmt} (h : isWorker s = true) : s.isExpression = true := by
  cases s with
  | expression e => rfl
  | _ => cases h

mutual

-- The checker lets placed statements pass only.
theorem placed_of_stmt {places : List Place} {fs gs : Functions} :
    (s : Stmt) → stmt places fs s = .ok gs → Placed (position places) s
  | .expression e, _ => .expression e
  | .declaration d, _ => .declaration d
  | .function name returns params body line, h => by
    rw [stmt] at h
    cases hb : barrier? places with
    | some construct =>
      rw [hb] at h
      cases h
    | none =>
      rw [hb] at h
      obtain ⟨_, _, h⟩ := bind_eq_ok.mp h
      exact .function name returns params line (placed_of_stmts body h)
  | .ret value line, h => by
    rw [stmt] at h
    obtain ⟨_, hv, _⟩ := bind_eq_ok.mp h
    exact .ret value line (inFunction_of_returnValue hv)
  | .brk line, h => by
    rw [stmt] at h
    obtain ⟨_, hloop, _⟩ := bind_eq_ok.mp h
    exact .brk line (of_require hloop)
  | .cont line, h => by
    rw [stmt] at h
    obtain ⟨_, hloop, _⟩ := bind_eq_ok.mp h
    exact .cont line (of_require hloop)
  | .branch c yes no, h => by
    rw [stmt] at h
    obtain ⟨_, _, h⟩ := bind_eq_ok.mp h
    obtain ⟨_, _, h⟩ := bind_eq_ok.mp h
    obtain ⟨_, hyes, hno⟩ := bind_eq_ok.mp h
    have hyes := placed_of_stmts yes hyes
    have hno := placed_of_optionalStmts no hno
    exact .branch c hyes hno
  | .loop c body, h => by
    rw [stmt] at h
    obtain ⟨_, _, h⟩ := bind_eq_ok.mp h
    obtain ⟨_, _, h⟩ := bind_eq_ok.mp h
    exact .loop c (placed_of_stmts body h)
  | .each iterator iterable body, h => by
    rw [stmt] at h
    obtain ⟨_, _, h⟩ := bind_eq_ok.mp h
    obtain ⟨_, _, h⟩ := bind_eq_ok.mp h
    obtain ⟨_, _, h⟩ := bind_eq_ok.mp h
    exact .each iterator iterable (placed_of_stmts body h)
  | .par body line, h => by
    rw [stmt] at h
    obtain ⟨_, hall, _⟩ := bind_eq_ok.mp h
    refine .par line (List.all_eq_true.mpr fun s hs => ?_)
    exact isExpression_of_isWorker (List.all_eq_true.mp (of_require hall) s hs)
  | .seq body, h => by
    rw [stmt] at h
    exact .seq (placed_of_stmts body h)
  | .client name host port line, _ => .client name host port line
  | .server name handler description host port line, _ =>
    .server name handler description host port line
termination_by structural s => s

theorem placed_of_stmts {places : List Place} {fs gs : Functions} :
    (body : List Stmt) → stmts places fs body = .ok gs → ∀ s ∈ body, Placed (position places) s
  | [], _ => by simp
  | s :: rest, h => by
    rw [stmts] at h
    obtain ⟨_, hs, hrest⟩ := bind_eq_ok.mp h
    rintro t ht
    rcases List.mem_cons.mp ht with ht | ht
    · exact ht ▸ placed_of_stmt s hs
    · exact placed_of_stmts rest hrest t ht
termination_by structural body => body

theorem placed_of_optionalStmts {places : List Place} {fs gs : Functions} :
    (no : Option (List Stmt)) → optionalStmts places fs no = .ok gs →
      ∀ body ∈ no, ∀ s ∈ body, Placed (position places) s
  | none, _ => by simp
  | some body, h => by
    rw [optionalStmts] at h
    rintro _ ⟨⟩
    exact placed_of_stmts body h
termination_by structural no => no

end

end Typing

theorem placed_of_compile {source : String} {p : Program} (h : compile source = .ok p) :
    ∀ s ∈ p, Placed .top s := by
  obtain ⟨_, hs, _⟩ := bind_eq_ok.mp (compile_eq_ok.mp h).2
  exact Typing.placed_of_stmts p hs

theorem Accepted.placed {f : Function} (hf : Accepted f) : ∀ s ∈ f.body, Placed .body s := by
  obtain ⟨source, p, hp, hmem⟩ := hf
  obtain ⟨s, hs, hmem⟩ := Stmt.mem_partsOf.mp hmem
  obtain ⟨c, hplaced⟩ := (placed_of_compile hp s hs).of_mem_parts hmem
  cases hplaced with
  | function _ _ _ _ hbody => exact hbody

-- The failures of statements that are not placed.
def RuntimeFault.isEscape : RuntimeFault → Bool
  | .returnOutside => true
  | .outsideLoop _ => true
  | _ => false

-- Programs whose statements are placed, and whose functions come from accepted texts.
def placement : Discipline Position where
  expr _ _ _ := True
  stmt _ c s c' := c' = c ∧ Placed c s ∧ ∀ f : Function, f.definition ∈ s.parts → Accepted f
  call _ _ := True
  inside s c := if s.isLoop || s.isEach then c.looping else c
  project c _ := c
  holds _ _ _ _ := True
  func f _ := Accepted f
  signal := Position.Permits
  ends := Position.body.Permits
  allowed := Stop.Avoids RuntimeFault.isEscape

namespace placement

-- The blocks of a placed statement are placed where the statement says.
theorem inside_block {c : Position} {s : Stmt} {body : List Stmt} (h : Placed c s)
    (hbody : body ∈ s.blocks) : ∀ t ∈ body, Placed (placement.inside s c) t := by
  cases h with
  | branch condition hyes hno =>
    rcases List.mem_cons.mp hbody with rfl | hbody
    · exact hyes
    · exact hno body (Option.mem_toList.mp hbody)
  | loop condition h => exact List.mem_singleton.mp hbody ▸ h
  | each iterator iterable h => exact List.mem_singleton.mp hbody ▸ h
  | seq h => exact List.mem_singleton.mp hbody ▸ h
  | _ => cases hbody

theorem body (n : Nat) {f : Function} (hf : Accepted f ∨ f = idle) :
    placement.Body n .body f.body := by
  cases n with
  | zero => exact Stop.avoids_outOfFuel
  | succ n =>
    rcases hf with hf | rfl
    · refine .of_forall fun s hs => ⟨rfl, hf.placed s hs, fun g hg => hf.of_mem_body ?_⟩
      exact Stmt.mem_partsOf.mpr ⟨s, hs, hg⟩
    · exact .nil _

theorem enters {n : Nat} {f : Function} (env : Nat) (w : World) (hf : Accepted f ∨ f = idle) :
    placement.Enters n f env w .body .body where
  start := trivial
  default _ _ _ _ := trivial
  param _ _ _ _ _ := trivial
  bound _ _ _ _ := trivial
  body := body n hf
  ends _ h := h

theorem signals : placement.Signals where
  normal _ := trivial
  breaks hs := by cases hs.2.1; assumption
  continues hs := by cases hs.2.1; assumption
  returns _ hs := by cases hs.2.1; assumption
  keeps hs h := hs.1 ▸ h
  passes _ hloop heach h := by simpa [placement, hloop, heach] using h
  leaves {n c s c' v} hs h := by
    simp only [placement] at h
    split at h
    · exact h
    · exact h

theorem lawful : placement.Lawful where
  block hs body hbody := by
    have hparts := Stmt.mem_bodies_of_mem_blocks hbody
    refine .of_forall fun t ht => ⟨rfl, inside_block hs.2.1 hbody t ht, fun f hf => hs.2.2 f ?_⟩
    exact Stmt.parts_subset hparts ht _ hf
  defines hs _ := ⟨hs.2.2 ⟨_, _, _, _, _⟩ (Stmt.mem_parts_self _), trivial⟩
  signals := signals
  enters {n k c env f w} _ _ hf _ := ⟨.body, .body, enters env w hf⟩
  serves _ _ _ := ⟨.top, fun _ => trivial, trivial⟩
  waits _ := Stop.avoids_outOfFuel
  crashes _ _ := Stop.avoids_crash
  ordinary := Stop.avoids_of_ordinary fun cause h => by cases cause <;> first | rfl | cases h
  placed h line _ := Stop.avoids_orLine h line
  fails h := by cases h <;> exact Stop.avoids_runtime rfl

-- No body of a function ends with a break or a continue, and no parallel block that runs
-- holds anything but expressions.
def contract : Contract where
  expr _ _ _ _ _ := true
  stmt _ _ s _ _ :=
    match s with
    | .par body _ => body.all Stmt.isExpression
    | _ => true
  body _ _ r :=
    match r with
    | .ok .brk _ => false
    | .ok .cont _ => false
    | _ => true

theorem ensures : placement.Ensures contract where
  expr _ _ _ _ := rfl
  stmt hs _ _ _ := by
    cases hs.2.1 with
    | par line hbody => exact hbody
    | _ => rfl
  body {c scope f w r} _ _ hm := by
    cases r with
    | error s t => rfl
    | ok signal t =>
      cases signal with
      | normal | ret => rfl
      | brk | cont => cases hm.2.2

theorem inv_iff {w : World} : placement.Inv w ↔ w.AcceptedOnly :=
  ⟨fun h => ⟨h.functions, h.servers⟩, fun h => ⟨h.functions, h.servers⟩⟩

theorem stmt_of_compile {source : String} {p : Program} {s : Stmt} (n : Nat)
    (hp : compile source = .ok p) (hs : s ∈ p) : placement.stmt n .top s .top :=
  ⟨rfl, placed_of_compile hp s hs, fun _ hf => ⟨source, p, hp, Stmt.mem_partsOf.mpr ⟨s, hs, hf⟩⟩⟩

theorem no_escape {signal : Signal} (h : Position.top.Permits signal) : signal = .normal := by
  cases signal with
  | normal => rfl
  | ret | brk | cont => cases h

-- The first statements of an accepted program, and so the whole of it.
theorem runs {source : String} {p before after : Program} {w : World} (fuel : Nat)
    (hp : compile source = .ok p) (happend : p = before ++ after) (hw : w.AcceptedOnly) :
    placement.Runs globals anyName (runWith (contract.watched fuel none) before)
      (runStatements fuel before) w fun _ t => ∃ c, placement.holds none c globals t := by
  have hbefore : placement.Block fuel .top before := .of_forall fun s hs =>
    stmt_of_compile fuel hp (happend ▸ List.mem_append_left after hs)
  refine (Discipline.watched_agrees lawful ensures fuel).run lawful hbefore ?_ trivial
    (inv_iff.mpr hw)
  intro signal cause hsignal hcause
  rw [no_escape hsignal] at hcause
  cases hcause

theorem stmt_normal {source : String} {p : Program} {s : Stmt} {w t : World} {fuel : Nat}
    {signal : Signal} (hp : compile source = .ok p) (hmem : s ∈ p) (hw : w.AcceptedOnly)
    (hs : execStmt fuel globals s w = .ok signal t) : signal = .normal := by
  have hruns : placement.Runs globals _ _ (execStmt fuel globals s) w _ :=
    (Discipline.watched_agrees lawful ensures fuel).stmt (k := none)
      (stmt_of_compile fuel hp hmem) trivial (inv_iff.mpr hw)
  have hmeets := hruns.meets
  rw [hs] at hmeets
  exact no_escape hmeets.2.2.1

end placement

-- Accepted programs leave functions and loops from inside only, in a world in which nothing
-- but accepted programs has been run: their statements end normally or fail, and not for
-- having left what they are not in; bodies of functions end normally or return; and parallel
-- blocks run expressions only. The world stays one in which only such programs have been run.
theorem accepted_control_flow {source : String} {p : Program} {w : World} (fuel : Nat)
    (hp : compile source = .ok p) (hw : w.AcceptedOnly) :
    (∀ before s after t signal u, p = before ++ s :: after →
      runStatements fuel before w = .ok () t → execStmt fuel globals s t = .ok signal u →
      signal = .normal) ∧
    Outcome.fails RuntimeFault.isEscape (runStatements fuel p w) = false ∧
    placement.contract.Kept fuel p w ∧
    (Outcome.world (runStatements fuel p w)).AcceptedOnly := by
  have hrun := placement.runs fuel hp (List.append_nil p).symm hw
  refine ⟨?_, hrun.meets.fails_eq_false fun _ h => h, hrun.same,
    placement.inv_iff.mp hrun.meets.inv⟩
  intro before s after t signal u happend hbefore hs
  have ht := (placement.runs fuel hp happend hw).meets
  rw [hbefore] at ht
  have hmem : s ∈ p := happend ▸ List.mem_append_right before List.mem_cons_self
  exact placement.stmt_normal hp hmem (placement.inv_iff.mp ht.2.1) hs

-- A program that leaves a loop and a function in every way there is.
def exits : String :=
  "func f(a: list) -> number \x7b
  for (x: number in a) \x7b if (x < 0) \x7b continue \x7d return x \x7d return 0 \x7d
  par \x7b f([7]) \x7d
  while (true) \x7b break \x7d"

set_option maxRecDepth 10000 in
theorem exits_control_flow :
    ∃ p, compile exits = .ok p ∧
      (World.fresh (.captured "") ⟨true, .loopback⟩).AcceptedOnly ∧
      placement.contract.Kept 40 p (World.fresh (.captured "") ⟨true, .loopback⟩) := by
  obtain ⟨p, hp⟩ := exists_of_isOk (x := compile exits) (by decide +kernel)
  have hw := placement.inv_iff.mp (placement.inv_fresh (.captured "") ⟨true, .loopback⟩)
  exact ⟨p, hp, hw, (accepted_control_flow 40 hp hw).2.2.1⟩

end Parlance
