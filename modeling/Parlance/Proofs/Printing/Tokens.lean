import Parlance.Proofs.Grammar.Stmt
import Parlance.Proofs.Printing.Spelling

namespace Parlance

open Grammar

-- Tokens that can all be read again.
def AllSpelled (ts : List Token) : Prop :=
  ∀ t ∈ ts, t.Spelled

namespace AllSpelled

@[simp]
theorem nil : AllSpelled [] := by
  simp [AllSpelled]

@[simp]
theorem cons {t : Token} {ts : List Token} : AllSpelled (t :: ts) ↔ t.Spelled ∧ AllSpelled ts :=
  List.forall_mem_cons

@[simp]
theorem append {ts us : List Token} : AllSpelled (ts ++ us) ↔ AllSpelled ts ∧ AllSpelled us :=
  List.forall_mem_append

@[simp]
theorem wrapped {r own : Rank} {ts : List Token} :
    AllSpelled (wrapped r own ts) ↔ AllSpelled ts := by
  unfold Parlance.wrapped
  split <;> simp (disch := decide)

@[simp]
theorem tokensAt {r : Rank} {e : Expr} : AllSpelled (e.tokensAt r) ↔ AllSpelled e.tokens :=
  wrapped

@[simp]
theorem braced {ts : List Token} : AllSpelled (braced ts) ↔ AllSpelled ts := by
  simp (disch := decide) [Parlance.braced]

theorem commas {tss : List (List Token)} (h : ∀ ts ∈ tss, AllSpelled ts) :
    AllSpelled (commas tss) := by
  fun_induction Parlance.commas tss with
  | case1 => simp
  | case2 ts => simpa using h
  | case3 ts us rest ih =>
    obtain ⟨hts, hrest⟩ := List.forall_mem_cons.mp h
    simp (disch := decide) [hts, ih hrest]

theorem tokensOf {es : List Expr} (h : ∀ e ∈ es, AllSpelled e.tokens) :
    ∀ ts ∈ Expr.tokensOf es, AllSpelled ts := by
  induction es with
  | nil => simp [Expr.tokensOf]
  | cons e es ih =>
    obtain ⟨he, hes⟩ := List.forall_mem_cons.mp h
    simpa [Expr.tokensOf, he] using ih hes

theorem tokensOfEntries {entries : List (String × Expr)}
    (h : ∀ e ∈ entries, (Token.ofKey e.1).Spelled ∧ AllSpelled e.2.tokens) :
    ∀ ts ∈ Expr.tokensOfEntries entries, AllSpelled ts := by
  induction entries with
  | nil => simp [Expr.tokensOfEntries]
  | cons e entries ih =>
    obtain ⟨he, hentries⟩ := List.forall_mem_cons.mp h
    simpa (disch := decide) [Expr.tokensOfEntries, he] using ih hentries

theorem tokensOfOption {r : Rank} {o : Option Expr} (h : ∀ e ∈ o, AllSpelled e.tokens) :
    AllSpelled (Expr.tokensOfOption r o) := by
  cases o with
  | none => simp [Expr.tokensOfOption]
  | some e => simpa [Expr.tokensOfOption] using h e rfl

theorem tokensOfInit {r : Rank} {o : Option Expr} (h : ∀ e ∈ o, AllSpelled e.tokens) :
    AllSpelled (Expr.tokensOfInit r o) := by
  cases o with
  | none => simp [Expr.tokensOfInit]
  | some e => simpa (disch := decide) [Expr.tokensOfInit] using h e rfl

theorem tokensOfElse {o : Option (List Stmt)} (h : ∀ body ∈ o, AllSpelled (Stmt.tokensOf body)) :
    AllSpelled (Stmt.tokensOfElse o) := by
  cases o with
  | none => simp [Stmt.tokensOfElse]
  | some body => simpa (disch := decide) [Stmt.tokensOfElse] using h body rfl

end AllSpelled

-- A token of a text can be read again, unless it stands for nothing in the language.
def Token.Sourced (t : Token) : Prop :=
  t.kind ≠ .other ∧ t.kind ≠ .eof → t.Spelled

theorem Token.Sourced.spelled {t : Token} {kind : TokenKind} (h : t.Sourced) (hkind : t.kind = kind)
    (hmeant : kind ≠ .other ∧ kind ≠ .eof) : t.Spelled :=
  h (hkind ▸ hmeant)

def AllSourced (ts : List Token) : Prop :=
  ∀ t ∈ ts, t.Sourced

namespace AllSourced

theorem mono {ts us : List Token} (h : AllSourced ts) (hus : us ⊆ ts) : AllSourced us :=
  fun t ht => h t (hus ht)

@[simp]
theorem nil : AllSourced [] := by
  simp [AllSourced]

@[simp]
theorem cons {t : Token} {ts : List Token} :
    AllSourced (t :: ts) ↔ t.Sourced ∧ AllSourced ts :=
  List.forall_mem_cons

@[simp]
theorem append {ts us : List Token} : AllSourced (ts ++ us) ↔ AllSourced ts ∧ AllSourced us :=
  List.forall_mem_append

end AllSourced

-- What has been read from the tokens of a text is printed as tokens that can be read again.
def spelling : Reading where
  expr _ _ _ ts e := AllSourced ts → AllSpelled e.tokens
  suffixed _ _ ts e := AllSourced ts → AllSpelled e.tokens
  stmt _ _ ts s _ := AllSourced ts → AllSpelled s.tokens
  body _ _ ts body _ := AllSourced ts → AllSpelled (Stmt.tokensOf body)

namespace spelling

variable {σ : Scope} {d : Nat} {ts : List Token}

theorem block {body : List Stmt} (h : spelling.Block σ d ts body) (hts : AllSourced ts) :
    AllSpelled (Stmt.tokensOf body) :=
  h.elim fun _ _ hus hbody => hbody.choose_spec (hts.mono hus)

theorem arguments {args : List Expr} (h : spelling.Arguments σ d ts args) (hts : AllSourced ts) :
    AllSpelled (commas (Expr.tokensOf args)) := by
  refine .commas (.tokensOf ?_)
  exact h.elim fun _ _ hus hargs => hargs.elim fun _ _ hvs he => he ((hts.mono hus).mono hvs)

theorem annotated {r r' : Rank} {name : Token} {ty : Ty} {init : Option Expr}
    (h : Annotated (spelling.expr σ d r') ts name ty init) (hts : AllSourced ts) :
    name.Spelled ∧ (Token.ofTy ty).Spelled ∧ AllSpelled (Expr.tokensOfInit r init) := by
  have hinit := h.elim (Q := fun e => AllSpelled e.tokens) fun _ _ hus he => he (hts.mono hus)
  cases h with
  | intro hname _ htype hty _ =>
    simp only [AllSourced.cons] at hts
    refine ⟨hts.1.spelled hname (by decide), ?_, .tokensOfInit hinit⟩
    exact (hts.2.2.1.spelled htype (by decide)).congr htype.symm (Ty.eq_keyword hty).symm

theorem keyed {entry : String × Expr}
    (h : Keyed (spelling.expr σ d .assignment) ts entry) (hts : AllSourced ts) :
    (Token.ofKey entry.1).Spelled ∧ AllSpelled entry.2.tokens := by
  cases h with
  | intro hkey _ h =>
    simp only [AllSourced.cons] at hts
    exact ⟨(hts.1.spelled hkey (by decide)).congr hkey.symm rfl, h hts.2.2⟩

theorem parameter {p : Param}
    (h : Parameter (spelling.expr σ d .assignment) ts p) (hts : AllSourced ts) :
    AllSpelled p.tokens := by
  cases h with
  | intro h =>
    have hannotated := annotated (r := .assignment) h hts
    cases h with
    | intro hname _ _ _ _ =>
      have hspelled := hannotated.1.congr (u := .ofName _) hname.symm rfl
      simpa (disch := decide) [Param.tokens, Parlance.annotated, hspelled] using hannotated.2

theorem operator {r : Rank} {t : Token} (h : t.kind ∈ r.operators) (ht : t.Sourced) :
    t.Spelled :=
  ht ⟨fun heq => r.other_not_mem_operators (heq ▸ h), fun heq => r.eof_not_mem_operators (heq ▸ h)⟩

theorem closed : spelling.Closed where
  tighter h := h
  assign _ htarget _ hequal hvalue := by
    intro hts
    simp only [AllSourced.append, AllSourced.cons] at hts
    obtain ⟨hts, hspelled, hus⟩ := hts
    simp [Expr.tokens, htarget hts, hspelled.spelled hequal (by decide), hvalue hus]
  binary {_ _ r _ _ _ _ _} hleft hoperator hright := by
    intro hts
    simp only [AllSourced.append, AllSourced.cons] at hts
    have hspelled := operator hoperator hts.2.1
    cases r <;> simp [Expr.tokens, Rank.node, hleft hts.1, hspelled, hright hts.2.2]
  unary _ hoperator h := by
    intro hts
    simp only [AllSourced.cons] at hts
    have hspelled := hoperator.elim (hts.1.spelled · (by decide)) (hts.1.spelled · (by decide))
    simp [Expr.tokens, hspelled, h hts.2]
  constant {_ _ t} _ hkind := by
    intro hts
    simp only [AllSourced.cons] at hts
    have hspelled := hts.1 ⟨fun h => by simp [h, isConstant] at hkind,
      fun h => by simp [h, isConstant] at hkind⟩
    simp [Expr.tokens, hspelled]
  grouped _ h := fun hts => h.elim fun _ _ hus he => he (hts.mono hus)
  array _ hbracket h hclose := by
    intro hts
    simp only [AllSourced.append, AllSourced.cons] at hts
    have hitems := h.elim (P := fun e => AllSpelled e.tokens)
      fun _ _ hus he => he (hts.2.1.mono hus)
    simp (disch := decide) [Expr.tokens, hts.1.spelled hbracket,
      AllSpelled.commas (.tokensOf hitems)]
  dict _ hbrace h hclose := by
    intro hts
    simp only [AllSourced.append, AllSourced.cons] at hts
    have hentries := h.elim (P := fun e => (Token.ofKey e.1).Spelled ∧ AllSpelled e.2.tokens)
      fun _ _ hus he => by exact keyed he (hts.2.1.mono hus)
    simp (disch := decide) [Expr.tokens, hts.1.spelled hbrace,
      AllSpelled.commas (.tokensOfEntries hentries)]
  comprehension _ hbracket hfor hleft hvar hiterator _ hin hiterable hright harrow hprojection
      hclose := by
    intro hts
    simp only [AllSourced.append, AllSourced.cons] at hts
    obtain ⟨hspelled, -, -, -, hts, -, hus, -, -, hvs, -⟩ := hts
    have hinit := annotated (r := .logicOr) hiterator hts
    simp (disch := decide) [Expr.tokens, hspelled.spelled hbracket, hinit, hiterable hus,
      hprojection hvs]
  primary h := h
  name _ hkind _ := by
    intro hts
    simp only [AllSourced.cons] at hts
    simp [Expr.tokens, hts.1.spelled hkind (by decide)]
  call _ hcallee _ hargs := by
    intro hts
    simp only [AllSourced.cons] at hts
    simp (disch := decide) [Expr.tokens, hts.1.spelled hcallee, arguments hargs hts.2]
  access _ htarget hindex := by
    intro hts
    simp only [AllSourced.append] at hts
    have hinner := hindex.elim (P := fun e => AllSpelled e.tokens)
      fun _ _ hus he => he (hts.2.mono hus)
    simp (disch := decide) [Expr.tokens, htarget hts.1, hinner]
  slice _ htarget hleft hstart hcolon hstop hright := by
    intro hts
    simp only [AllSourced.append, AllSourced.cons] at hts
    obtain ⟨hts, -, hus, -, hvs, -⟩ := hts
    have hfrom := hstart.elim (P := fun e => AllSpelled e.tokens) fun _ _ h he => he (hus.mono h)
    have hto := hstop.elim (P := fun e => AllSpelled e.tokens) fun _ _ h he => he (hvs.mono h)
    simp (disch := decide) [Expr.tokens, htarget hts, AllSpelled.tokensOfOption hfrom,
      AllSpelled.tokensOfOption hto]
  method _ hreceiver hdot hoperation hargs := by
    intro hts
    simp only [AllSourced.append, AllSourced.cons] at hts
    obtain ⟨hts, -, hspelled, hus⟩ := hts
    simp (disch := decide) [Expr.tokens, hreceiver hts, hspelled.spelled hoperation,
      arguments hargs hus]
  expression h _ := by
    intro hts
    simpa [Stmt.tokens] using h hts
  declaration hvar h _ := by
    intro hts
    simp only [AllSourced.cons] at hts
    have hdecl := annotated (r := .logicOr) h hts.2
    simp (disch := decide) [Stmt.tokens, Declaration.tokens, Parlance.annotated, hdecl]
  function {_ _ _ _ name _ params _ _ _ _ _} _ _ hname _ hparams _ _ htype hreturns hbody := by
    intro hts
    simp only [AllSourced.append, AllSourced.cons] at hts
    obtain ⟨-, hsourced, hts, -, hreturned, hus⟩ := hts
    have hspelled := (hsourced.spelled hname (by decide)).congr (u := .ofName _) hname.symm rfl
    have hty := (hreturned.spelled htype (by decide)).congr (u := .ofTy _) htype.symm
      (Ty.eq_keyword hreturns).symm
    have hps : ∀ p ∈ params, AllSpelled p.tokens := hparams.elim fun _ _ hvs h =>
      h.elim fun _ _ hws hp => parameter hp ((hts.mono hvs).mono hws)
    have hcommas : AllSpelled (commas (params.map Param.tokens)) :=
      .commas (List.forall_mem_map.mpr hps)
    simp (disch := decide) [Stmt.tokens, hspelled, hty, hcommas, block hbody hus]
  ret hkeyword h := by
    intro hts
    simp only [AllSourced.cons] at hts
    have hvalue := h.elim (P := fun e => AllSpelled e.tokens) fun _ _ hus he => he (hts.2.mono hus)
    simp (disch := decide) [Stmt.tokens, AllSpelled.tokensOfOption hvalue]
  branch _ _ hcondition hyes hno := by
    intro hts
    simp only [AllSourced.append, AllSourced.cons] at hts
    obtain ⟨-, hts, hus, hvs⟩ := hts
    have hspelled := hcondition.elim (P := fun e => AllSpelled e.tokens)
      fun _ _ h he => he (hts.mono h)
    have helse := hno.elim (P := fun body => AllSpelled (Stmt.tokensOf body)) fun _ _ h hbody =>
      hbody.elim fun _ _ h' hblock => block hblock ((hvs.mono h).mono h')
    simp (disch := decide) [Stmt.tokens, hspelled, block hyes hus, AllSpelled.tokensOfElse helse]
  loop _ _ hcondition hbody := by
    intro hts
    simp only [AllSourced.append, AllSourced.cons] at hts
    have hspelled := hcondition.elim (P := fun e => AllSpelled e.tokens)
      fun _ _ h he => he (hts.2.1.mono h)
    simp (disch := decide) [Stmt.tokens, hspelled, block hbody hts.2.2]
  each _ _ _ _ hiterator _ hiterable _ hbody := by
    intro hts
    simp only [AllSourced.append, AllSourced.cons] at hts
    obtain ⟨-, -, -, hts, -, hus, -, hvs⟩ := hts
    have hdecl := annotated (r := .logicOr) hiterator hts
    simp (disch := decide) [Stmt.tokens, Declaration.tokens, Parlance.annotated, hdecl,
      hiterable hus, block hbody hvs]
  brk _ := by
    intro _
    simp (disch := decide) [Stmt.tokens]
  cont _ := by
    intro _
    simp (disch := decide) [Stmt.tokens]
  par _ _ hbody := by
    intro hts
    simp only [AllSourced.cons] at hts
    simp (disch := decide) [Stmt.tokens, block hbody hts.2]
  seq _ _ hbody := by
    intro hts
    simp only [AllSourced.cons] at hts
    simp (disch := decide) [Stmt.tokens, block hbody hts.2]
  client _ hname _ _ hhost _ hport _ := by
    intro hts
    simp only [AllSourced.append, AllSourced.cons] at hts
    obtain ⟨-, hsourced, -, hts, -, hus, -⟩ := hts
    have hspelled := (hsourced.spelled hname (by decide)).congr (u := .ofName _) hname.symm rfl
    simp (disch := decide) [Stmt.tokens, hspelled, hhost hts, hport hus]
  server _ hname _ _ hhandler _ _ hdescription _ hhost _ hport _ := by
    intro hts
    simp only [AllSourced.append, AllSourced.cons] at hts
    obtain ⟨-, hsourced, -, htarget, -, hts, -, hus, -, hvs, -⟩ := hts
    have hspelled := (hsourced.spelled hname (by decide)).congr (u := .ofName _) hname.symm rfl
    simp (disch := decide) [Stmt.tokens, hspelled, htarget.spelled hhandler, hdescription hts,
      hhost hus, hport hvs]
  nil := by
    intro _ _ _
    simp [Stmt.tokensOf]
  skip _ h := by
    intro hts
    simp only [AllSourced.cons] at hts
    exact h hts.2
  cons hs _ hrest := by
    intro hts
    simp only [AllSourced.append] at hts
    simp (disch := decide) [Stmt.tokensOf, hs hts.1, hrest hts.2]

end spelling

-- The tokens that a program is printed as can be read again.
theorem allSpelled_of_parse {source : String} {p : Program} (h : parse source = .ok p) :
    AllSpelled (Stmt.tokensOf p) := by
  obtain ⟨ts, eof, _, hlex, _, hp⟩ := Reading.of_parse spelling.closed h
  have hsourced : AllSourced ts := by
    intro t ht hmeant
    exact Token.spelled_of_lex (hlex ▸ List.mem_append_left _ ht) hmeant.1 hmeant.2
  exact hp hsourced

end Parlance
