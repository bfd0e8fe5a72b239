import Parlance.Proofs.Discipline.Stmt

namespace Parlance.Discipline

variable {κ : Type} {D : Discipline κ}

-- A whole program, which ends in a world that still keeps to the discipline.
theorem Agrees.run {n : Nat} {X : Option Activation → Evaluators} {Y : Evaluators}
    (A : D.Agrees n X Y) (L : D.Lawful) {c : κ} {p : Program} {w : World} (hp : D.Block n c p)
    (hescape : ∀ signal cause, D.signal c signal → signal.escape? = some cause →
      D.allowed (.fault (.runtime cause)))
    (hc : D.holds none c globals w) (hw : D.Inv w) :
    D.Runs globals anyName (runWith (X none) p) (runWith Y p) w
      fun _ t => ∃ c', D.holds none c' globals t := by
  induction hp generalizing w with
  | nil c => exact .pure hw ⟨c, hc⟩
  | cons head tail ih =>
    refine .bind (A.stmt head hc hw).anywhere fun signal t _ ht hsignal => ?_
    cases hcause : signal.escape? with
    | none =>
      cases signal with
      | normal =>
        refine ih (fun signal cause h => ?_) (hsignal.2 rfl) ht
        exact hescape signal cause (L.signals.keeps head h)
      | ret v | brk | cont => cases hcause
    | some cause => exact .stop ht (hescape signal cause hsignal.1 hcause)

-- A contract that every outcome keeps which keeps to the discipline.
structure Ensures (D : Discipline κ) (C : Contract) : Prop where
  expr : ∀ {n k c env e w r}, D.expr (n + 1) c e → D.holds k c env w → D.Inv w →
    D.Meets env noName w noMatter r → C.expr k env e w r = true
  stmt : ∀ {n k c c' env s w r}, D.stmt (n + 1) c s c' → D.holds k c env w → D.Inv w →
    D.Meets env (fun x => s.introduces = some x) w (Agrees.Ended D k c c' env) r →
    C.stmt k env s w r = true
  body : ∀ {c scope f w r}, D.holds (some ⟨scope, f⟩) c scope w → D.Inv w →
    D.Meets scope anyName w (fun signal _ => D.ends signal) r → C.body ⟨scope, f⟩ w r = true

-- A discipline under which nothing stops for some failure.
theorem Meets.fails_eq_false {α : Type} {env : Nat} {new : String → Prop} {w : World}
    {Q : α → World → Prop} {r : Outcome α} {bad : RuntimeFault → Bool}
    (h : D.Meets env new w Q r) (hbad : ∀ s, D.allowed s → s.Avoids bad) : r.fails bad = false := by
  cases r with
  | ok a t => rfl
  | error s t =>
    have havoids := hbad s h.2.2
    cases s with
    | fault f =>
      obtain ⟨cause, line⟩ := f
      cases cause with
      | runtime cause => exact havoids _ cause rfl rfl
      | _ => rfl
    | _ => rfl

theorem ensures_avoiding {bad : RuntimeFault → Bool} (hbad : ∀ s, D.allowed s → s.Avoids bad) :
    D.Ensures (.avoiding bad) where
  expr _ _ _ hm := by simp [Contract.avoiding, hm.fails_eq_false hbad]
  stmt _ _ _ hm := by simp [Contract.avoiding, hm.fails_eq_false hbad]
  body _ _ hm := by simp [Contract.avoiding, hm.fails_eq_false hbad]

theorem Runs.checked {α : Type} {env : Nat} {new : String → Prop} {x y : Exec α} {w : World}
    {Q : α → World → Prop} {condition : World → Outcome α → Bool} (h : D.Runs env new x y w Q)
    (hcondition : D.Meets env new w Q (y w) → condition w (y w) = true) :
    D.Runs env new (Contract.checked condition x) y w Q :=
  ⟨Contract.checked_of_condition h.same (hcondition h.meets), h.meets⟩

-- Under a lawful discipline, watching whether a contract is kept changes nothing.
theorem watched_agrees (L : D.Lawful) {C : Contract} (hC : D.Ensures C) (n : Nat) :
    D.Agrees n (C.watched n) (evaluators n) := by
  induction n with
  | zero =>
    rw [C.watched_zero, evaluators_zero]
    exact
      { expr := fun he _ hw => .stop hw (L.waits (.expr he))
        stmt := fun hs _ hw => .stop hw (L.waits (.stmt hs))
        call := fun hcall _ _ hw => .stop hw (L.waits (.call hcall))
        body := fun hbody _ _ hw => .stop hw hbody }
  | succ n A =>
    rw [C.watched_succ, evaluators_succ]
    exact
      { expr := fun he hc hw => ((A.expr_succ L he hc hw).atLine L (L.lines.expr he)).checked
          (hC.expr he hc hw)
        stmt := fun hs hc hw => (A.stmt_succ L hs (fun _ => rfl) hc hw).checked (hC.stmt hs hc hw)
        call := fun hcall hc hf hw => A.call_succ L hcall hc hf hw
        body := fun hbody hends hc hw => (A.body_succ L hbody hends hc hw).checked (hC.body hc hw) }

-- Under a discipline that needs no more fuel than there is, more fuel changes nothing.
theorem evaluators_agree (L : D.Lawful) (hfuel : ¬ D.allowed .outOfFuel) {n m : Nat}
    (h : n ≤ m) : D.Agrees n (fun _ => evaluators m) (evaluators n) := by
  induction n generalizing m with
  | zero =>
    exact
      { expr := fun he _ _ => absurd (L.waits (.expr he)) hfuel
        stmt := fun hs _ _ => absurd (L.waits (.stmt hs)) hfuel
        call := fun hcall _ _ _ => absurd (L.waits (.call hcall)) hfuel
        body := fun hbody _ _ _ => absurd hbody hfuel }
  | succ n ih =>
    obtain ⟨m, rfl⟩ : ∃ k, m = k + 1 := ⟨m - 1, by omega⟩
    have A := ih (Nat.le_of_succ_le_succ h)
    rw [evaluators_succ, evaluators_succ]
    refine
      { expr := fun he hc hw => (A.expr_succ L he hc hw).atLine L (L.lines.expr he)
        stmt := fun {k c c' env s w} hs hc hw => A.stmt_succ L hs (fun hloop => ?_) hc hw
        call := fun hcall hc hf hw => A.call_succ L hcall hc hf hw
        body := fun hbody hends hc hw => A.body_succ L hbody hends hc hw }
    cases s with
    | loop condition body => exact absurd (L.waits (.loop hs)) hfuel
    | _ => cases hloop

end Parlance.Discipline
