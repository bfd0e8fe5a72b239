import Parlance.Proofs.Printing.Primary

namespace Parlance

open Token (mark)

namespace Grammar

theorem nextKind_append {ts : List Token} {kind : TokenKind} (h : nextKind ts = kind)
    (hkind : kind ≠ .eof) (us : List Token) : nextKind (ts ++ us) = kind := by
  cases ts with
  | nil => exact absurd h.symm hkind
  | cons t ts => exact h

-- The tokens that a statement can start with. A semicolon alone is none.
def opensStatement (kind : TokenKind) : Bool :=
  startsStatement kind && kind != .semicolon

-- A statement that is read from the tokens that it is printed as, in front of a semicolon.
structure StmtBack (σ : Scope) (d : Nat) (stmt : Stmt) (τ : Scope) : Prop where
  outer : τ.outer = σ.outer
  starts : ∀ us, opensStatement (nextKind (stmt.tokens ++ us)) = true
  reads : ∀ ⦃fuel s us⦄, s.Faces σ (stmt.tokens ++ us) →
    2 * (stmt.tokens ++ us).length + 2 ≤ fuel → nextKind us = .semicolon →
    Yields s (statement (readers fuel d) (block (statements fuel) d) fuel)
      (Leaves τ us fun stmt' => stmt'.unlined = stmt.unlined)

-- Statements that are read from the tokens that they are printed as, up to where a block or
-- the text ends.
structure BodyBack (σ : Scope) (d : Nat) (body : List Stmt) (τ : Scope) : Prop where
  outer : τ.outer = σ.outer
  reads : ∀ ⦃fuel m s us⦄, s.Faces σ (Stmt.tokensOf body ++ us) →
    2 * (Stmt.tokensOf body ++ us).length + 2 ≤ fuel → (Stmt.tokensOf body ++ us).length < m →
    nextKind us = .rightBrace ∨ nextKind us = .eof →
    Yields s (sequence (statement (readers fuel d) (block (statements fuel) d) fuel) m)
      (Leaves τ us fun body' => Stmt.unlinedAll body' = Stmt.unlinedAll body)

section

variable {σ τ : Scope} {s : State} {us : List Token} {d fuel m : Nat}

namespace BodyBack

variable {body : List Stmt}

theorem nil : BodyBack σ d [] σ where
  outer := rfl
  reads fuel m s us hs _ hm hus := by
    obtain ⟨m, rfl⟩ := Nat.exists_eq_succ_of_ne_zero (Nat.ne_zero_of_lt hm)
    refine .peek ?_
    rw [hs.kind, Stmt.tokensOf, List.nil_append]
    have hstart : ¬ startsStatement (nextKind us) = true := by
      rcases hus with h | h <;> rw [h] <;> exact Bool.false_ne_true
    rw [if_neg hstart, if_pos hus]
    exact .pure ⟨rfl, hs⟩

theorem cons {ρ : Scope} {stmt : Stmt} (h : StmtBack σ d stmt τ) (hrest : BodyBack τ d body ρ) :
    BodyBack σ d (stmt :: body) ρ where
  outer := hrest.outer.trans h.outer
  reads fuel m s us hs hfuel hm hus := by
    obtain ⟨m, rfl⟩ := Nat.exists_eq_succ_of_ne_zero (Nat.ne_zero_of_lt hm)
    rw [Stmt.tokensOf, List.append_assoc, List.cons_append] at hs hfuel hm
    have hstarts := h.starts (mark .semicolon :: (Stmt.tokensOf body ++ us))
    obtain ⟨hstarts, hne⟩ := Bool.and_eq_true_iff.mp hstarts
    refine .peek ?_
    rw [hs.kind, if_pos hstarts]
    refine .reject hs (bne_iff_ne.mp hne) (.bind (h.reads hs hfuel rfl) fun stmt' t ht => ?_)
    refine .accept ht.2 rfl fun u hu => ?_
    rw [List.length_append, List.length_cons] at hfuel hm
    refine .bind (hrest.reads hu (by omega) (by omega) hus) fun body' v hv => ?_
    refine .pure ⟨?_, hv.2⟩
    simp only [Stmt.unlinedAll, ht.1, hv.1]

-- The statements of a block declare names that are not visible behind it.
theorem block (seed : Layer) (h : BodyBack (σ.push.insertAll seed) (d + 1) body τ)
    (hd : d < maxNesting) (hs : s.Faces σ (braced (Stmt.tokensOf body) ++ us))
    (hfuel : 2 * (braced (Stmt.tokensOf body) ++ us).length + 1 ≤ fuel) :
    Yields s (block (statements fuel) d seed)
      (Leaves σ us fun body' => Stmt.unlinedAll body' = Stmt.unlinedAll body) := by
  rw [braced, List.cons_append, List.append_assoc, List.singleton_append] at hs hfuel
  rw [List.length_cons] at hfuel
  obtain ⟨fuel, rfl⟩ := Nat.exists_eq_add_of_le' (Nat.le_of_add_left_le hfuel)
  have houter : τ.outer = σ.layers := h.outer.trans (Scope.outer_insertAll _ _)
  refine .expect hs rfl fun _ t _ ht => ?_
  refine .bind (Q := fun body' w => Stmt.unlinedAll body' = _ ∧
    w.Faces σ (mark .rightBrace :: us)) (.inBlock ht fun u hu => .nested hd ?_)
    fun body' w hw => .expect hw.2 rfl fun _ x _ hx => .pure ⟨hw.1, hx⟩
  exact (h.reads hu (by omega) (by omega) (.inl rfl)).imp fun body' v hv =>
    ⟨hv.1, τ, hv.2, houter⟩

end BodyBack

namespace StmtBack

variable {e : Expr} {body : List Stmt} {seed : Layer}

theorem expression (h : e.Readable σ d .assignment)
    (hname : nextKind (e.tokensAt .assignment) = .id) : StmtBack σ d (.expression e) σ where
  outer := rfl
  starts us := by
    rw [Stmt.tokens, nextKind_append hname (by decide)]
    rfl
  reads fuel s us hs hfuel hus := by
    rw [Stmt.tokens] at hs hfuel
    refine .peek ?_
    rw [hs.kind, nextKind_append hname (by decide)]
    have hstops : Stops Rank.assignment.level us := .of_none (by rw [hus]; rfl)
    refine .map (((readBack h).full hs hfuel hstops).imp fun e' t ht => ⟨?_, ht.2⟩)
    simp only [Stmt.unlined, ht.1]

theorem declaration {decl : Declaration} (hname : decl.name.kind = .id)
    (hty : Ty.ofKeyword? decl.ty.keyword = some decl.ty)
    (hinit : ∀ e ∈ decl.init, e.Readable σ d .logicOr)
    (hτ : σ.insert? decl.name.lexeme decl.ty = some τ) : StmtBack σ d (.declaration decl) τ where
  outer := Scope.outer_of_insert? hτ
  starts _ := rfl
  reads fuel s us hs hfuel hus := by
    refine .peek ?_
    rw [hs.kind]
    have hdecl := ReadBack.registered (.inr rfl) hname hty (fun e he => readBack (hinit e he)) hτ
      (by rw [hus]; rfl) hs (Nat.le_of_add_right_le hfuel)
    refine .map (hdecl.imp fun decl' t ht => ⟨?_, ht.2⟩)
    simp only [Stmt.unlined, ht.1]

theorem ret {value : Option Expr} {line : Nat} (h : ∀ e ∈ value, e.Readable σ d .logicOr) :
    StmtBack σ d (.ret value line) σ where
  outer := rfl
  starts _ := rfl
  reads fuel s us hs hfuel hus := by
    rw [Stmt.tokens, List.cons_append] at hs hfuel
    refine .peek ?_
    rw [hs.kind]
    refine .advance hs fun keyword t _ ht => .peek ?_
    rw [ht.kind]
    cases value with
    | none =>
      rw [Expr.tokensOfOption, List.nil_append, hus]
      exact .pure ⟨rfl, ht⟩
    | some e =>
      have hstart : ∀ kind, startsExpr kind = false →
          nextKind (e.tokensAt .logicOr ++ us) ≠ kind :=
        fun kind hkind => (h e rfl).nextKind_ne hkind us
      have hstops : Stops Rank.logicOr.level us := .of_none (by rw [hus]; rfl)
      have hvalue : Yields t (readers fuel d).plain
          (Leaves σ us fun e' => e'.unlined = e.unlined) := by
        rw [Expr.tokensOfOption, ← Expr.tokensAt, List.length_cons] at hfuel
        exact (readBack (h e rfl)).plain ht (by omega) hstops
      split
      · next heq => exact absurd heq (hstart _ rfl)
      · next heq => exact absurd heq (hstart _ rfl)
      · next heq => exact absurd heq (hstart _ rfl)
      · refine .bind hvalue.map_some fun value' u hu => .pure ⟨?_, hu.2⟩
        simp only [Stmt.unlined, hu.1]

theorem brk {line : Nat} : StmtBack σ d (.brk line) σ where
  outer := rfl
  starts _ := rfl
  reads fuel s us hs _ _ := by
    refine .peek ?_
    rw [hs.kind]
    exact .advance hs fun _ t _ ht => .pure ⟨rfl, ht⟩

theorem cont {line : Nat} : StmtBack σ d (.cont line) σ where
  outer := rfl
  starts _ := rfl
  reads fuel s us hs _ _ := by
    refine .peek ?_
    rw [hs.kind]
    exact .advance hs fun _ t _ ht => .pure ⟨rfl, ht⟩

theorem par {line : Nat} (hd : d < maxNesting) (hbody : BodyBack σ.push (d + 1) body τ) :
    StmtBack σ d (.par body line) σ where
  outer := rfl
  starts _ := rfl
  reads fuel s us hs hfuel _ := by
    rw [Stmt.tokens, List.cons_append] at hs hfuel
    rw [List.length_cons] at hfuel
    refine .peek ?_
    rw [hs.kind]
    refine .advance hs fun _ t _ ht => .bind (hbody.block [] hd ht (by omega)) fun body' u hu => ?_
    exact .pure ⟨by simp only [Stmt.unlined, hu.1], hu.2⟩

theorem seq (hd : d < maxNesting) (hbody : BodyBack σ.push (d + 1) body τ) :
    StmtBack σ d (.seq body) σ where
  outer := rfl
  starts _ := rfl
  reads fuel s us hs hfuel _ := by
    rw [Stmt.tokens, List.cons_append] at hs hfuel
    rw [List.length_cons] at hfuel
    refine .peek ?_
    rw [hs.kind]
    refine .advance hs fun _ t _ ht => .map ((hbody.block [] hd ht (by omega)).imp ?_)
    exact fun body' u hu => ⟨by simp only [Stmt.unlined, hu.1], hu.2⟩

theorem parenthesized (h : e.Readable σ d .assignment)
    (hs : s.Faces σ (mark .leftParen :: (e.tokensAt .assignment ++ mark .rightParen :: us)))
    (hfuel : 2 * (mark .leftParen :: (e.tokensAt .assignment ++ mark .rightParen :: us)).length ≤
      fuel) :
    Yields s (parenthesized (readers fuel d)) (Leaves σ us fun e' => e'.unlined = e.unlined) := by
  rw [List.length_cons] at hfuel
  refine .expect hs rfl fun _ t _ ht => ?_
  refine .bind ((readBack h).full ht (by omega) (.of_none rfl)) fun e' u hu => ?_
  exact .expect hu.2 rfl fun _ v _ hv => .pure ⟨hu.1, hv⟩

theorem branch {ρ : Scope} {yes : List Stmt} {no : Option (List Stmt)} (hd : d < maxNesting)
    (hcondition : e.Readable σ d .assignment) (hyes : BodyBack σ.push (d + 1) yes ρ)
    (hno : ∀ body ∈ no, ∃ ρ, BodyBack σ.push (d + 1) body ρ) :
    StmtBack σ d (.branch e yes no) σ where
  outer := rfl
  starts _ := rfl
  reads fuel s us hs hfuel hus := by
    simp only [Stmt.tokens, List.cons_append, List.append_assoc, Stmt.tokensOfElse_eq_elim]
      at hs hfuel
    refine .peek ?_
    rw [hs.kind]
    simp only [List.length_cons, List.length_append] at hfuel
    refine .advance hs fun _ t _ ht => ?_
    refine .bind (parenthesized hcondition ht (by simp; omega)) fun e' u hu => ?_
    refine .bind (hyes.block [] hd hu.2 (by simp; omega)) fun yes' v hv => ?_
    refine .optional (g := Stmt.unlinedAll) hv.2 (by rw [hus]; decide) ?_ ?_
    · intro body hbody w hw
      obtain ⟨ρ, hback⟩ := hno body hbody
      rw [hbody] at hfuel
      simp only [Option.elim_some, List.length_cons] at hfuel
      exact hback.block [] hd hw (by simp; omega)
    · intro no' w hno' hw
      refine .pure ⟨?_, hw⟩
      simp only [Stmt.unlined, Stmt.unlinedElse_eq_map, hu.1, hv.1, hno']

theorem loop (hd : d < maxNesting) (hcondition : e.Readable σ d .assignment)
    (hbody : BodyBack σ.push (d + 1) body τ) : StmtBack σ d (.loop e body) σ where
  outer := rfl
  starts _ := rfl
  reads fuel s us hs hfuel _ := by
    simp only [Stmt.tokens, List.cons_append, List.append_assoc] at hs hfuel
    refine .peek ?_
    rw [hs.kind]
    simp only [List.length_cons, List.length_append] at hfuel
    refine .advance hs fun _ t _ ht => ?_
    refine .bind (parenthesized hcondition ht (by simp; omega)) fun e' u hu => ?_
    refine .bind (hbody.block [] hd hu.2 (by simp; omega)) fun body' v hv => .pure ⟨?_, hv.2⟩
    simp only [Stmt.unlined, hu.1, hv.1]

theorem each {iterator : Declaration} (hd : d < maxNesting) (hname : iterator.name.kind = .id)
    (hty : Ty.ofKeyword? iterator.ty.keyword = some iterator.ty)
    (hinit : ∀ e ∈ iterator.init, e.Readable σ d .logicOr) (hiterable : e.Readable σ d .assignment)
    (hbody : BodyBack (σ.push.insertAll [(iterator.name.lexeme, iterator.ty)]) (d + 1) body τ) :
    StmtBack σ d (.each iterator e body) σ where
  outer := rfl
  starts _ := rfl
  reads fuel s us hs hfuel _ := by
    simp only [Stmt.tokens, List.cons_append, List.append_assoc] at hs hfuel
    refine .peek ?_
    rw [hs.kind]
    simp only [List.length_cons, List.length_append] at hfuel
    refine .advance hs fun _ t _ ht => .expect ht rfl fun _ u _ hu => ?_
    have hreads : ∀ e ∈ iterator.init, ReadBack σ d .logicOr e := fun e he => readBack (hinit e he)
    refine .bind (ReadBack.declaration (.inl rfl) hname hty hreads rfl hu (by simp; omega))
      fun iterator' v hv => ?_
    obtain ⟨hname', hty', -⟩ := Declaration.mk.inj hv.1
    rw [← Token.lexeme_of_unlined hname', ← hty'] at hbody
    refine .expect hv.2 rfl fun _ w _ hw => ?_
    refine .bind ((readBack hiterable).full hw (by simp; omega) (.of_none rfl)) fun e' x hx => ?_
    refine .expect hx.2 rfl fun _ y _ hy => ?_
    refine .bind (hbody.block _ hd hy (by simp; omega)) fun body' z hz => .pure ⟨?_, hz.2⟩
    simp only [Stmt.unlined, hv.1, hx.1, hz.1]

theorem client {name : String} {host port : Expr} {line : Nat}
    (hτ : σ.insert? name .client = some τ) (hhost : host.Readable τ d .sum)
    (hport : port.Readable τ d .sum) : StmtBack σ d (.client name host port line) τ where
  outer := Scope.outer_of_insert? hτ
  starts _ := rfl
  reads fuel s us hs hfuel _ := by
    simp only [Stmt.tokens, List.cons_append, List.append_assoc, List.nil_append] at hs hfuel
    refine .peek ?_
    rw [hs.kind]
    simp only [List.length_cons, List.length_append] at hfuel
    refine .advance hs fun _ t _ ht => .expect ht rfl fun name' u hname' hu => ?_
    have hlexeme : name'.lexeme = name := Token.lexeme_of_unlined hname'
    refine .declare hu (hlexeme ▸ hτ) fun v hv => .expect hv rfl fun _ w _ hw => ?_
    refine .bind ((readBack hhost).sum hw (by simp; omega) (.of_none rfl)) fun host' x hx => ?_
    refine .expect hx.2 rfl fun _ y _ hy => ?_
    refine .bind ((readBack hport).sum hy (by simp; omega) (.of_none rfl)) fun port' z hz => ?_
    refine .expect hz.2 rfl fun _ w _ hw => .pure ⟨?_, hw⟩
    simp only [Stmt.unlined, hlexeme, hx.1, hz.1]

theorem server {name : String} {handler : Token} {ty : Ty} {description host port : Expr}
    {line : Nat} (hτ : σ.insert? name .server = some τ) (hhandler : handler.kind = .id)
    (hty : τ.find? handler.lexeme = some ty) (hdescription : description.Readable τ d .sum)
    (hhost : host.Readable τ d .sum) (hport : port.Readable τ d .sum) :
    StmtBack σ d (.server name handler description host port line) τ where
  outer := Scope.outer_of_insert? hτ
  starts _ := rfl
  reads fuel s us hs hfuel _ := by
    simp only [Stmt.tokens, List.cons_append, List.append_assoc, List.nil_append] at hs hfuel
    refine .peek ?_
    rw [hs.kind]
    simp only [List.length_cons, List.length_append] at hfuel
    refine .advance hs fun _ t _ ht => .expect ht rfl fun name' u hname' hu => ?_
    have hlexeme : name'.lexeme = name := Token.lexeme_of_unlined hname'
    refine .declare hu (hlexeme ▸ hτ) fun v hv => .expect hv rfl fun _ w _ hw => ?_
    refine .expect hw hhandler fun handler' x hhandler' hx => ?_
    refine .resolve hx (Token.lexeme_of_unlined hhandler' ▸ hty) ?_
    refine .expect hx rfl fun _ y _ hy => ?_
    refine .bind ((readBack hdescription).sum hy (by simp; omega) (.of_none rfl)) fun d' t ht => ?_
    refine .expect ht.2 rfl fun _ u _ hu => ?_
    refine .bind ((readBack hhost).sum hu (by simp; omega) (.of_none rfl)) fun host' v hv => ?_
    refine .expect hv.2 rfl fun _ w _ hw => ?_
    refine .bind ((readBack hport).sum hw (by simp; omega) (.of_none rfl)) fun port' z hz => ?_
    refine .expect hz.2 rfl fun _ w _ hw => .pure ⟨?_, hw⟩
    simp only [Stmt.unlined, hlexeme, hhandler', ht.1, hv.1, hz.1]

-- One parameter, whose name is none of those before it.
theorem parameter {G : Except Stop (List Param × State) → Prop} {p : Param} {names : List String}
    (hty : Ty.ofKeyword? p.ty.keyword = some p.ty)
    (hdefault : ∀ e ∈ p.default, e.Readable σ d .assignment) (hnames : p.name ∉ names)
    (hs : s.Faces σ (p.tokens ++ us)) (hfuel : 2 * (p.tokens ++ us).length + 2 ≤ fuel)
    (hus : (nextKind us).binds = none)
    (hf : ∀ p' t, p'.unlined = p.unlined → t.Faces σ us →
      Yields t (accept .comma >>= fun found =>
        if found = true then
          params (readers fuel d) (p.name :: names) m >>= fun rest => pure (p' :: rest)
        else pure [p']) G) :
    Yields s (params (readers fuel d) names (m + 1)) G := by
  simp only [Param.tokens, annotated, List.cons_append] at hs hfuel
  refine .check ?_
  rw [hs.kind]
  refine .advance hs fun name' t hname' ht => .expect ht rfl fun _ u _ hu => ?_
  have hlexeme : name'.lexeme = p.name := Token.lexeme_of_unlined hname'
  have hfresh : ¬ names.contains p.name = true := by simpa using hnames
  refine .expectType hu hty fun v hv => .initializer hv hus ?_ ?_
  · intro e he w hw hlt
    simp only [List.length_append, List.length_cons] at hfuel hlt
    exact (readBack (hdefault e he)).full hw (by simp; omega) (.of_none hus)
  · intro default' w hdefault' hw
    rw [hlexeme]
    show Yields w (if names.contains p.name = true then _ else _) G
    rw [if_neg hfresh]
    refine hf ⟨p.name, p.ty, default'⟩ w ?_ hw
    simp only [Param.unlined, hdefault']

theorem params {ps : List Param} {names : List String}
    (hps : ∀ p ∈ ps, Ty.ofKeyword? p.ty.keyword = some p.ty ∧
      ∀ e ∈ p.default, e.Readable σ d .assignment)
    (hnodup : (ps.map Param.name).Nodup) (hnames : ∀ p ∈ ps, p.name ∉ names)
    (hs : s.Faces σ (commas (ps.map Param.tokens) ++ mark .rightParen :: us))
    (hfuel : 2 * (commas (ps.map Param.tokens) ++ mark .rightParen :: us).length + 2 ≤ fuel)
    (hm : (commas (ps.map Param.tokens) ++ mark .rightParen :: us).length < m) :
    Yields s (params (readers fuel d) names m)
      (Leaves σ (mark .rightParen :: us) fun ps' =>
        ps'.map Param.unlined = ps.map Param.unlined) := by
  induction ps generalizing s names m with
  | nil =>
    obtain ⟨m, rfl⟩ := Nat.exists_eq_succ_of_ne_zero (Nat.ne_zero_of_lt hm)
    refine .check ?_
    rw [hs.kind]
    exact .pure ⟨rfl, hs⟩
  | cons p ps ih =>
    obtain ⟨m, rfl⟩ := Nat.exists_eq_succ_of_ne_zero (Nat.ne_zero_of_lt hm)
    obtain ⟨⟨hty, hdefault⟩, hps⟩ := List.forall_mem_cons.mp hps
    obtain ⟨hname, hnames⟩ := List.forall_mem_cons.mp hnames
    rw [List.map_cons, List.nodup_cons] at hnodup
    cases ps with
    | nil =>
      rw [List.map_singleton, commas] at hs hfuel
      refine parameter hty hdefault hname hs hfuel rfl fun p' t hp' ht => ?_
      refine .reject ht (show TokenKind.rightParen ≠ .comma by decide) ?_
      exact .pure ⟨congrArg (fun q => [q]) hp', ht⟩
    | cons q ps =>
      rw [List.map_cons, List.map_cons, commas, List.append_assoc] at hs hfuel hm
      refine parameter hty hdefault hname hs hfuel rfl fun p' t hp' ht => ?_
      refine .accept ht rfl fun u hu => ?_
      simp only [List.length_append, List.length_cons] at hfuel hm
      have hfresh : ∀ q' ∈ q :: ps, q'.name ∉ p.name :: names := by
        intro q' hq' hmem
        rcases List.mem_cons.mp hmem with heq | hmem
        · exact hnodup.1 (heq ▸ List.mem_map_of_mem hq')
        · exact hnames q' hq' hmem
      refine .bind (ih hps hnodup.2 hfresh hu (by simp; omega) (by simp; omega)) fun ps' v hv => ?_
      exact .pure ⟨List.cons_eq_cons.mpr ⟨hp', hv.1⟩, hv.2⟩

theorem function {name : String} {returns : Ty} {ps : List Param} {line : Nat} {ρ : Scope}
    (hd : d < maxNesting) (hτ : σ.insert? name .func = some τ)
    (hps : ∀ p ∈ ps, Ty.ofKeyword? p.ty.keyword = some p.ty ∧
      ∀ e ∈ p.default, e.Readable τ d .assignment)
    (hnodup : (ps.map Param.name).Nodup) (hreturns : Ty.ofKeyword? returns.keyword = some returns)
    (hbody : BodyBack (τ.push.insertAll (ps.map fun p => (p.name, p.ty))) (d + 1) body ρ) :
    StmtBack σ d (.function name returns ps body line) τ where
  outer := Scope.outer_of_insert? hτ
  starts _ := rfl
  reads fuel s us hs hfuel _ := by
    simp only [Stmt.tokens, List.cons_append, List.append_assoc] at hs hfuel
    refine .peek ?_
    rw [hs.kind]
    simp only [List.length_cons, List.length_append] at hfuel
    refine .advance hs fun _ t _ ht => .expect ht rfl fun name' u hname' hu => ?_
    have hlexeme : name'.lexeme = name := Token.lexeme_of_unlined hname'
    refine .declare hu (hlexeme ▸ hτ) fun v hv => .expect hv rfl fun _ w _ hw => ?_
    refine .bind (params hps hnodup (fun _ _ => List.not_mem_nil) hw (by simp; omega)
      (by simp; omega)) fun ps' x hx => ?_
    have hseed : (ps'.map fun p => (p.name, p.ty)) = ps.map fun p => (p.name, p.ty) := by
      have hmap := congrArg (List.map fun p => (p.name, p.ty)) hx.1
      rw [List.map_map, List.map_map] at hmap
      exact hmap
    rw [← hseed] at hbody
    refine .expect hx.2 rfl fun _ y _ hy => .expect hy rfl fun _ z _ hz => ?_
    refine .expectType hz hreturns fun t ht => ?_
    refine .bind (hbody.block _ hd ht (by simp; omega)) fun body' u hu => .pure ⟨?_, hu.2⟩
    simp only [Stmt.unlined, hlexeme, hx.1, hu.1]

end StmtBack

end

end Grammar

end Parlance
