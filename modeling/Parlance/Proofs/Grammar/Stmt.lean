import Parlance.Proofs.Grammar.Expr
import Parlance.Proofs.Lexing

namespace Parlance.Grammar

-- The tokens that a return without a value stands in front of.
def endsReturn : TokenKind → Bool
  | .rightBrace | .semicolon | .eof => true
  | _ => false

namespace Reading

-- What is read as a statement declares names in the innermost block at most.
structure StmtRead (J : Reading) (σ : Scope) (d : Nat) (ts : List Token) (stmt : Stmt)
    (t : State) (τ : Scope) : Prop where
  after : t.At τ
  outer : τ.outer = σ.outer
  related : J.stmt σ d ts stmt τ
  ends : stmt.isBareReturn = true → endsReturn t.current.kind = true

-- A reader of statements at a depth, in front of a token that starts one.
def ReadsStmt (J : Reading) (d : Nat) (x : Parse Stmt) : Prop :=
  ∀ ⦃σ s⦄, s.At σ → startsStatement s.current.kind = true → s.current.kind ≠ .semicolon →
    Reads s x fun ts stmt t => ∃ τ, J.StmtRead σ d ts stmt t τ

-- A reader of the blocks of statements at a depth.
def ReadsBlock (J : Reading) (d : Nat) (block : BlockReader) : Prop :=
  ∀ ⦃σ s⦄ (seed : Layer), s.At σ → Gives σ s (block seed) fun ts body =>
    d < maxNesting ∧ J.Block (σ.push.insertAll seed) d ts body

section

variable {J : Reading} {σ : Scope} {s : State} {d : Nat} {r : Readers} {block : BlockReader}

theorem StmtRead.same {ts : List Token} {stmt : Stmt} {t : State} (ht : t.At σ)
    (hstmt : J.stmt σ d ts stmt σ) (hbare : stmt.isBareReturn = false) :
    J.StmtRead σ d ts stmt t σ := by
  refine ⟨ht, rfl, hstmt, fun h => ?_⟩
  rw [hbare] at h
  cases h

theorem StmtRead.declares {ts : List Token} {stmt : Stmt} {t : State} {τ : Scope} {name : String}
    {ty : Ty} (hτ : σ.insert? name ty = some τ) (ht : t.At τ) (hstmt : J.stmt σ d ts stmt τ)
    (hbare : stmt.isBareReturn = false) : J.StmtRead σ d ts stmt t τ := by
  refine ⟨ht, Scope.outer_of_insert? hτ, hstmt, fun h => ?_⟩
  rw [hbare] at h
  cases h

theorem parenthesized (hr : J.ReadsExprs d r) (hs : s.At σ) :
    Gives σ s (parenthesized r) (Enclosed .leftParen .rightParen (J.expr σ d .assignment)) := by
  refine .expect hs (by decide) fun left t hleft ht => ?_
  refine .bind (hr.full ht) fun ts e t he => ?_
  refine .expect he.1 (by decide) fun right t hright ht => .pure ⟨ht, ?_⟩
  exact .intro hleft he.2 hright

theorem branch (C : J.Closed) (hr : J.ReadsExprs d r) (hblock : J.ReadsBlock d block) (hs : s.At σ)
    (hkind : s.current.kind = .kwIf) :
    Reads s (branch r block) fun ts stmt t => ∃ τ, J.StmtRead σ d ts stmt t τ := by
  refine .advance hs (by rw [hkind]; decide) fun t ht => ?_
  refine .bind (parenthesized hr ht) fun ts condition t hcondition => ?_
  refine .bind (hblock [] hcondition.1) fun us yes t hyes => ?_
  have hno : ∀ t : State, t.At σ → Gives σ t (block []) (J.Block σ.push d) := fun t ht =>
    (hblock [] ht).imp fun vs no u h => ⟨h.1, h.2.2⟩
  refine optional hyes.1 (by decide) hno fun vs no t ht hno => .pure ?_
  rw [List.append_nil]
  exact ⟨σ, .same ht (C.branch hyes.2.1 hkind hcondition.2 hyes.2.2 hno) rfl⟩

theorem loop (C : J.Closed) (hr : J.ReadsExprs d r) (hblock : J.ReadsBlock d block) (hs : s.At σ)
    (hkind : s.current.kind = .kwWhile) :
    Reads s (loop r block) fun ts stmt t => ∃ τ, J.StmtRead σ d ts stmt t τ := by
  refine .advance hs (by rw [hkind]; decide) fun t ht => ?_
  refine .bind (parenthesized hr ht) fun ts condition t hcondition => ?_
  refine .last (hblock [] hcondition.1) fun us body t hbody => ?_
  exact ⟨σ, .same hbody.1 (C.loop hbody.2.1 hkind hcondition.2 hbody.2.2) rfl⟩

theorem each (C : J.Closed) (hr : J.ReadsExprs d r) (hblock : J.ReadsBlock d block) (hs : s.At σ)
    (hkind : s.current.kind = .kwFor) :
    Reads s (each r block) fun ts stmt t => ∃ τ, J.StmtRead σ d ts stmt t τ := by
  refine .advance hs (by rw [hkind]; decide) fun t ht => ?_
  refine .expect ht (by decide) fun left t hleft ht => ?_
  refine .bind (declaration hr.plain ht) ?_
  rintro _ iterator t ⟨ht, var, ts, rfl, hvar, hiterator⟩
  refine .expect ht (by decide) fun in' t hin ht => ?_
  refine .bind (hr.full ht) fun us iterable t hiterable => ?_
  refine .expect hiterable.1 (by decide) fun right t hright ht => ?_
  refine .last (hblock _ ht) fun vs body t hbody => ?_
  have h := C.each hbody.2.1 hkind hleft hvar hiterator hin hiterable.2 hright hbody.2.2
  refine ⟨σ, .same hbody.1 ?_ rfl⟩
  simpa only [List.append_assoc] using h

-- The names of the parameters differ from those of `names` and from each other.
theorem params (hr : J.ReadsExprs d r) (names : List String) (fuel : Nat) (hs : s.At σ) :
    Gives σ s (params r names fuel) fun ts ps =>
      Commas (Parameter (J.expr σ d .assignment)) ts ps ∧ (ps.map Param.name).Nodup ∧
        ∀ p ∈ ps, p.name ∉ names := by
  induction fuel generalizing s names with
  | zero => exact .outOfFuel
  | succ fuel ih =>
    refine .check ?_
    split
    · next hid =>
      have hname := of_decide_eq_true hid
      refine .advance hs (by rw [hname]; decide) fun t ht => ?_
      refine .expect ht (by decide) fun colon t hcolon ht => ?_
      refine .expectType ht fun type ty t htype hty ht => ?_
      refine optional ht (by decide) (fun t ht => hr.full ht) fun ts default t ht hdefault => ?_
      split
      · exact .fail _
      · next hnew =>
        rw [List.contains_iff_mem] at hnew
        have hparam : Parameter (J.expr σ d .assignment) (s.current :: colon :: type :: ts)
            ⟨s.current.lexeme, ty, default⟩ := .intro (.intro hname hcolon htype hty hdefault)
        refine .accept ht (by decide) (fun hcomma t ht => ?_) fun _ => .pure ⟨ht, ?_⟩
        · refine .last (ih _ ht) fun us ps u hps => ⟨hps.1, .cons hparam hcomma hps.2.1, ?_, ?_⟩
          · refine List.nodup_cons.mpr ⟨fun hmem => ?_, hps.2.2.1⟩
            obtain ⟨p, hp, hpname⟩ := List.mem_map.mp hmem
            exact hps.2.2.2 p hp (hpname ▸ List.mem_cons_self)
          · refine List.forall_mem_cons.mpr ⟨hnew, fun p hp hmem => ?_⟩
            exact hps.2.2.2 p hp (List.mem_cons_of_mem _ hmem)
        · simp only [List.append_nil]
          exact ⟨.last hparam, by simp, by simpa using hnew⟩
    · exact .pure ⟨hs, .nil, by simp, by simp⟩

theorem function (C : J.Closed) (hr : J.ReadsExprs d r) (hblock : J.ReadsBlock d block)
    (fuel : Nat) (hs : s.At σ) (hkind : s.current.kind = .kwFunc) :
    Reads s (function r block fuel) fun ts stmt t => ∃ τ, J.StmtRead σ d ts stmt t τ := by
  refine .advance hs (by rw [hkind]; decide) fun t ht => ?_
  refine .expect ht (by decide) fun name t hname ht => ?_
  refine .declare ht fun τ t hτ ht => ?_
  refine .expect ht (by decide) fun left t hleft ht => ?_
  refine .bind (params hr [] fuel ht) fun ts ps t hps => ?_
  refine .expect hps.1 (by decide) fun right t hright ht => ?_
  refine .expect ht (by decide) fun arrow t harrow ht => ?_
  refine .expectType ht fun type returns t htype hreturns ht => ?_
  refine .last (hblock _ ht) fun us body t hbody => ?_
  have h := C.function hbody.2.1 hkind hname hτ (.intro hleft hps.2.1 hright) hps.2.2.1 harrow
    htype hreturns hbody.2.2
  refine ⟨τ, .declares hτ hbody.1 ?_ rfl⟩
  simpa only [List.append_assoc, List.cons_append, List.nil_append] using h

theorem ret (C : J.Closed) (hr : J.ReadsExprs d r) (hs : s.At σ)
    (hkind : s.current.kind = .kwReturn) :
    Reads s (ret r) fun ts stmt t => ∃ τ, J.StmtRead σ d ts stmt t τ := by
  refine .advance hs (by rw [hkind]; decide) fun t ht => .peek ?_
  have hbare : endsReturn t.current.kind = true → Reads t (pure (.ret none s.current.line))
      fun ts stmt u => ∃ τ, J.StmtRead σ d (s.current :: ts) stmt u τ := by
    intro hends
    exact .pure ⟨σ, ht, rfl, C.ret hkind .none, fun _ => hends⟩
  split
  · next h => exact hbare (by rw [h]; rfl)
  · next h => exact hbare (by rw [h]; rfl)
  · next h => exact hbare (by rw [h]; rfl)
  · have hvalue : Reads t (some <$> r.plain) fun ts o u =>
        u.At σ ∧ ∃ e, o = some e ∧ J.expr σ d .logicOr ts e :=
      .map ((hr.plain ht).imp fun ts e u he => ⟨he.1, e, rfl, he.2⟩)
    refine .last hvalue ?_
    rintro ts _ u ⟨hu, e, rfl, he⟩
    exact ⟨σ, .same hu (C.ret hkind (.some he)) rfl⟩

theorem client (C : J.Closed) (hr : J.ReadsExprs d r) (hs : s.At σ)
    (hkind : s.current.kind = .kwClient) :
    Reads s (client r) fun ts stmt t => ∃ τ, J.StmtRead σ d ts stmt t τ := by
  refine .advance hs (by rw [hkind]; decide) fun t ht => ?_
  refine .expect ht (by decide) fun name t hname ht => ?_
  refine .declare ht fun τ t hτ ht => ?_
  refine .expect ht (by decide) fun left t hleft ht => ?_
  refine .bind (hr.sum ht) fun ts host t hhost => ?_
  refine .expect hhost.1 (by decide) fun comma t hcomma ht => ?_
  refine .bind (hr.sum ht) fun us port t hport => ?_
  refine .expect hport.1 (by decide) fun right t hright ht => .pure ?_
  exact ⟨τ, .declares hτ ht (C.client hkind hname hτ hleft hhost.2 hcomma hport.2 hright) rfl⟩

theorem server (C : J.Closed) (hr : J.ReadsExprs d r) (hs : s.At σ)
    (hkind : s.current.kind = .kwServer) :
    Reads s (server r) fun ts stmt t => ∃ τ, J.StmtRead σ d ts stmt t τ := by
  refine .advance hs (by rw [hkind]; decide) fun t ht => ?_
  refine .expect ht (by decide) fun name t hname ht => ?_
  refine .declare ht fun τ t hτ ht => ?_
  refine .expect ht (by decide) fun left t hleft ht => ?_
  refine .expect ht (by decide) fun handler t hhandler ht => ?_
  refine .resolve ht fun ty hty => ?_
  refine .expect ht (by decide) fun comma t hcomma ht => ?_
  refine .bind (hr.sum ht) fun ts description t hdescription => ?_
  refine .expect hdescription.1 (by decide) fun comma' t hcomma' ht => ?_
  refine .bind (hr.sum ht) fun us host t hhost => ?_
  refine .expect hhost.1 (by decide) fun comma'' t hcomma'' ht => ?_
  refine .bind (hr.sum ht) fun vs port t hport => ?_
  refine .expect hport.1 (by decide) fun right t hright ht => .pure ?_
  have h := C.server hkind hname hτ hleft hhandler hty hcomma hdescription.2 hcomma' hhost.2
    hcomma'' hport.2 hright
  exact ⟨τ, .declares hτ ht h rfl⟩

theorem statement (C : J.Closed) (hr : J.ReadsExprs d r) (hblock : J.ReadsBlock d block)
    (fuel : Nat) : J.ReadsStmt d (statement r block fuel) := by
  intro σ s hs hstarts hsemicolon
  refine .peek ?_
  split
  · next hkind =>
    refine .map ((registered hr.plain hs).head.imp ?_)
    rintro _ decl t ⟨⟨⟨var, ts, rfl, hvar, hdecl⟩, τ, hτ, ht⟩, hhead⟩
    cases var with
    | some var => exact ⟨τ, .declares hτ ht (C.declaration (hvar var rfl) hdecl hτ) rfl⟩
    | none =>
      -- The first token is `var`, so it is no name.
      cases hdecl with
      | intro hname =>
        rw [hhead _ rfl, hkind] at hname
        cases hname
  · next hkind => exact branch C hr hblock hs hkind
  · next hkind => exact loop C hr hblock hs hkind
  · next hkind => exact each C hr hblock hs hkind
  · next hkind =>
    refine .advance hs (by rw [hkind]; decide) fun t ht => .pure ?_
    exact ⟨σ, .same ht (C.brk hkind) rfl⟩
  · next hkind =>
    refine .advance hs (by rw [hkind]; decide) fun t ht => .pure ?_
    exact ⟨σ, .same ht (C.cont hkind) rfl⟩
  · next hkind => exact function C hr hblock fuel hs hkind
  · next hkind => exact ret C hr hs hkind
  · next hkind =>
    refine .advance hs (by rw [hkind]; decide) fun t ht => .map ((hblock [] ht).imp ?_)
    rintro ts body u ⟨hu, hd, hbody⟩
    exact ⟨σ, .same hu (C.seq hd hkind hbody) rfl⟩
  · next hkind =>
    refine .advance hs (by rw [hkind]; decide) fun t ht => .last (hblock [] ht) ?_
    rintro ts body u ⟨hu, hd, hbody⟩
    exact ⟨σ, .same hu (C.par hd hkind hbody) rfl⟩
  · next hkind => exact client C hr hs hkind
  · next hkind => exact server C hr hs hkind
  · refine .map ((hr.full hs).head.imp fun ts e t he => ⟨σ, .same he.1.1 ?_ rfl⟩)
    refine C.expression he.1.2 fun u hu => ?_
    -- Of the tokens that start a statement only names are left.
    rw [he.2 u hu]
    unfold startsStatement at hstarts
    split at hstarts <;> simp_all

-- Nothing is read in front of a closing brace or the end of the text.
theorem sequence (C : J.Closed) {one : Parse Stmt} (hone : J.ReadsStmt d one) (fuel : Nat)
    (hs : s.At σ) :
    Reads s (sequence one fuel) fun ts body t =>
      (∃ τ, t.At τ ∧ τ.outer = σ.outer ∧ J.body σ d ts body τ) ∧
        (startsStatement s.current.kind = false → ts = []) := by
  induction fuel generalizing s σ with
  | zero => exact .outOfFuel
  | succ fuel ih =>
    refine .peek ?_
    split
    · next hstarts =>
      refine .accept hs (by decide) (fun hsemicolon t ht => ?_) fun hsemicolon => ?_
      · refine (ih ht).imp ?_
        rintro ts body u ⟨⟨τ, hu, houter, hbody⟩, -⟩
        exact ⟨⟨τ, hu, houter, C.skip hsemicolon hbody⟩, by simp [hstarts]⟩
      · refine .bind (hone hs hstarts hsemicolon) ?_
        rintro ts stmt t ⟨τ, hstmt⟩
        refine .accept hstmt.after (by decide) (fun hsemicolon u hu => ?_) fun hsemicolon => ?_
        · refine .last (ih hu) ?_
          rintro us rest v ⟨⟨ρ, hv, houter, hrest⟩, -⟩
          refine ⟨⟨ρ, hv, houter.trans hstmt.outer, ?_⟩, by simp [hstarts]⟩
          refine C.cons hstmt.related (fun _ u hu => ?_) (C.skip hsemicolon hrest)
          cases hu
          exact hsemicolon
        · refine .last (ih hstmt.after) ?_
          rintro us rest v ⟨⟨ρ, hv, houter, hrest⟩, hnone⟩
          refine ⟨⟨ρ, hv, houter.trans hstmt.outer, ?_⟩, by simp [hstarts]⟩
          refine C.cons hstmt.related (fun hbare u hu => ?_) hrest
          have hends := hstmt.ends hbare
          have hstop : startsStatement t.current.kind = false := by
            unfold endsReturn at hends
            split at hends <;> simp_all [startsStatement]
          rw [hnone hstop] at hu
          cases hu
    · split
      · exact .pure ⟨⟨σ, hs, rfl, C.nil⟩, fun _ => rfl⟩
      · exact .fail _

theorem statements (C : J.Closed) (fuel d : Nat) (hs : s.At σ) :
    Reads s (statements fuel d) fun ts body t =>
      ∃ τ, t.At τ ∧ τ.outer = σ.outer ∧ J.body σ d ts body τ := by
  induction fuel generalizing d s σ with
  | zero => exact .outOfFuel
  | succ fuel ih =>
    refine (sequence C (statement C (readsExprs C fuel d) ?_ fuel) fuel hs).imp
      fun ts body t h => h.1
    intro σ s seed hs
    refine .expect hs (by decide) fun left t hleft ht => ?_
    refine .bind (.inBlock (P := fun ts body => d < maxNesting ∧
      ∃ ρ, J.body (σ.push.insertAll seed) (d + 1) ts body ρ) ht fun t ht => ?_)
        fun ts body t hbody => .expect hbody.1 (by decide) fun right t hright ht =>
          .pure ⟨ht, hbody.2.1, .intro hleft hbody.2.2 hright⟩
    refine .nested fun hd => (ih (d + 1) ht).imp ?_
    rintro ts body u ⟨τ, hu, houter, hbody⟩
    exact ⟨⟨τ, hu, houter.trans (Scope.outer_insertAll σ.push seed)⟩, hd, τ, hbody⟩

end

-- All of a text is read, up to its end.
theorem of_parse {J : Reading} (C : J.Closed) {source : String} {p : Program}
    (h : parse source = .ok p) :
    ∃ ts eof τ, lex source = ts ++ [eof] ∧ eof.kind = .eof ∧ J.body Scope.root 0 ts p τ := by
  obtain ⟨⟨q, t⟩, hq, h⟩ := bind_eq_ok.mp h
  cases h
  have htokens : (State.start (lex source)).tokens = lex source := by
    obtain ⟨eof, hlast, -⟩ := lex_ends source
    cases hlex : lex source with
    | nil => simp [hlex] at hlast
    | cons token rest => rfl
  have hstart : (State.start (lex source)).At Scope.root := by
    refine ⟨?_, htokens ▸ lex_ends source⟩
    cases lex source <;> rfl
  have hprogram : Reads (State.start (lex source)) (program (fuelFor (lex source)))
      fun ts body t => t.current.kind = .eof ∧ ∃ τ, J.body Scope.root 0 ts body τ := by
    refine .bind (statements C _ 0 hstart) ?_
    rintro ts body t ⟨τ, ht, -, hbody⟩
    refine .check ?_
    split
    · next hkind =>
      refine .pure ⟨of_decide_eq_true hkind, τ, ?_⟩
      rwa [List.append_nil]
    · exact .unexpected _
  obtain ⟨ts, hts, hkind, τ, hbody⟩ := hprogram p t hq
  rw [htokens, State.tokens] at hts
  have hrest : t.rest = [] := eq_nil_of_lex hts hkind
  rw [hrest] at hts
  exact ⟨ts, t.current, τ, hts, hkind, hbody⟩

end Reading

end Parlance.Grammar
