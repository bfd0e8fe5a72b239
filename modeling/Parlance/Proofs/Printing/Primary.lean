import Parlance.Proofs.Printing.Expr

namespace Parlance

open Token (mark)

namespace Grammar

-- The first of phrases with commas between them, or what follows if there are none.
theorem nextKind_commas {α : Type} {P : TokenKind → Prop} {text : α → List Token} {as : List α}
    {us : List Token} (h : ∀ a ∈ as, ∀ vs, P (nextKind (text a ++ vs))) (hus : P (nextKind us)) :
    P (nextKind (commas (as.map text) ++ us)) := by
  cases as with
  | nil => exact hus
  | cons a rest =>
    cases rest with
    | nil => exact h a List.mem_cons_self us
    | cons b rest =>
      rw [List.map_cons, List.map_cons, commas, List.append_assoc]
      exact h a List.mem_cons_self _

section

variable {σ : Scope} {s : State} {us : List Token} {d fuel m : Nat} {e : Expr}

theorem resume_of_suffixed {e' : Expr} (he : e.isSuffixed = true) (h : e'.unlined = e.unlined) :
    resume fuel d .primary m e' = suffixes (readers fuel (d + 1)) m e' := by
  rw [← Expr.isSuffixed_unlined, ← h, Expr.isSuffixed_unlined] at he
  exact if_pos he

theorem resume_of_not_suffixed {e' : Expr} (he : e.isSuffixed = false)
    (h : e'.unlined = e.unlined) : resume fuel d .primary m e' = pure e' := by
  rw [← Expr.isSuffixed_unlined, ← h, Expr.isSuffixed_unlined] at he
  exact if_neg (he ▸ Bool.false_ne_true)

-- The reader of suffixes goes on after one of them.
theorem Yields.suffixes {e' : Expr} (he : e.isSuffixed = true) (h : e'.unlined = e.unlined)
    (hm : us.length < m) (hs : s.Faces σ us) :
    Yields s (suffixes (readers fuel (d + 1)) m e') (Resumes σ fuel d .primary us e) :=
  ⟨m, e', s, by rw [resume_of_suffixed he h], hm, h, hs⟩

-- The value behind a name and its type, if there is one.
theorem Yields.initializer {β : Type} {G : Except Stop (β × State) → Prop} {r : Rank}
    {x : Parse Expr} {init : Option Expr} {f : Option Expr → Parse β}
    (hs : s.Faces σ (Expr.tokensOfInit r init ++ us)) (hus : (nextKind us).binds = none)
    (hx : ∀ e ∈ init, ∀ t, t.Faces σ (e.tokensAt r ++ us) →
      (e.tokensAt r ++ us).length < (Expr.tokensOfInit r init ++ us).length →
      Yields t x (Leaves σ us fun e' => e'.unlined = e.unlined))
    (hf : ∀ init' t, init'.map Expr.unlined = init.map Expr.unlined → t.Faces σ us →
      Yields t (f init') G) :
    Yields s (Grammar.accept .equal >>= fun found =>
      if found = true then some <$> x >>= f else Pure.pure none >>= f) G := by
  have hequal : nextKind us ≠ .equal := by
    intro heq
    rw [heq] at hus
    cases hus
  rw [Expr.tokensOfInit_eq_elim] at hs hx
  refine .optional hs hequal (fun e he t ht => hx e he t ht ?_) hf
  rw [he]
  exact Nat.lt_succ_self _

-- What follows an item of a list is a comma, or what follows the list.
theorem binds_of_separated {vs : List Token} (hvs : nextKind vs = .comma ∨ vs = us)
    (hus : (nextKind us).binds = none) : (nextKind vs).binds = none := by
  rcases hvs with hvs | rfl
  · rw [hvs]
    rfl
  · exact hus

namespace ReadBack

-- A primary that no suffix can follow is read to its end at once.
theorem of_ends (he : e.isSuffixed = false)
    (h : ∀ ⦃fuel s us⦄, s.Faces σ (e.tokensAt .primary ++ us) →
      2 * (e.tokensAt .primary ++ us).length ≤ fuel →
      Yields s (primary (readers fuel (d + 1)) fuel)
        (Leaves σ us fun e' => e'.unlined = e.unlined)) :
    ReadBack σ d .primary e :=
  fun _ _ _ hs hfuel _ => (h hs hfuel).resumes fun _ _ => resume_of_not_suffixed he

-- A suffix behind what is read.
theorem of_suffix {target : Expr} {suffix : List Token} (htarget : ReadBack σ d .primary target)
    (hsuffixed : target.isSuffixed = true)
    (htokens : e.tokensAt .primary = target.tokensAt .primary ++ suffix)
    (h : ∀ ⦃fuel m target' s us⦄, target'.unlined = target.unlined → s.Faces σ (suffix ++ us) →
      2 * (suffix ++ us).length ≤ fuel → (suffix ++ us).length ≤ m →
      Yields s (suffixes (readers fuel (d + 1)) (m + 1) target')
        (Resumes σ fuel d .primary us e)) :
    ReadBack σ d .primary e := by
  intro fuel s us hs hfuel _
  rw [htokens, List.append_assoc] at hs hfuel
  -- No rank is tighter than a primary, so the reader of suffixes resumes in front of anything.
  have hstops : Stops Rank.primary.resumesAt (suffix ++ us) :=
    fun r _ => Nat.lt_succ_of_le r.level_le_primary
  obtain ⟨m, target', t, heq, hm, htarget', ht⟩ := htarget hs hfuel hstops
  obtain ⟨m, rfl⟩ := Nat.exists_eq_succ_of_ne_zero (Nat.ne_zero_of_lt hm)
  unfold Yields
  rw [heq, resume_of_suffixed hsuffixed htarget']
  rw [List.length_append] at hfuel
  exact h htarget' ht (by omega) (Nat.le_of_lt_succ hm)

theorem grouped (hrank : e.rank ≠ .primary) (h : ReadBack σ (d + 1) .assignment e) :
    ReadBack σ d .primary e := by
  have he : e.isSuffixed = false := by
    cases e with
    | logical | relational | arithmetic | unary | assign => rfl
    | _ => exact absurd rfl hrank
  refine of_ends he fun fuel s us hs hfuel => ?_
  rw [Expr.tokensAt_primary hrank, List.cons_append, List.append_assoc] at hs hfuel
  refine .peek ?_
  rw [hs.kind]
  simp only [List.length_cons] at hfuel
  refine .advance hs fun _ t _ ht => .bind (h.full ht (by omega) (.of_none rfl)) fun e' u hu => ?_
  exact .expect hu.2 rfl fun _ v _ hv => .pure ⟨hu.1, hv⟩

theorem constant {t : Token} (hkind : isConstant t.kind = true) :
    ReadBack σ d .primary (.constant t) := by
  refine of_ends rfl fun fuel s us hs hfuel => ?_
  rw [Expr.tokensAt_constant, List.singleton_append] at hs
  have hconstant : Yields s (Expr.constant <$> advance)
      (Leaves σ us fun e' => e'.unlined = (Expr.constant t).unlined) := by
    show Yields s (advance >>= fun t => pure (Expr.constant t)) _
    exact .advance hs fun t' u ht' hu => .pure ⟨congrArg Expr.constant ht', hu⟩
  have hs' : isConstant s.current.kind = true := by
    rw [hs.kind]
    exact hkind
  refine .peek ?_
  generalize s.current.kind = kind at hs'
  unfold isConstant at hs'
  split at hs'
  · exact hconstant
  · exact hconstant
  · exact hconstant
  · exact hconstant
  · cases hs'

-- Expressions with commas between them are read up to the mark that closes the list.
theorem items {close : TokenKind} {args : List Expr}
    (hreadable : ∀ e ∈ args, e.Readable σ d .assignment)
    (h : ∀ e ∈ args, ReadBack σ d .assignment e) (hstart : startsExpr close = false)
    (hbinds : close.binds = none) (hcomma : close ≠ .comma)
    (hs : s.Faces σ (commas (args.map (Expr.tokensAt .assignment)) ++ mark close :: us))
    (hfuel : 2 * (commas (args.map (Expr.tokensAt .assignment)) ++ mark close :: us).length + 2 ≤
      fuel)
    (hm : (commas (args.map (Expr.tokensAt .assignment)) ++ mark close :: us).length < m) :
    Yields s (Grammar.items (· != close) (readers fuel d).full m)
      (Leaves σ (mark close :: us) fun args' => Expr.unlinedAll args' = Expr.unlinedAll args) := by
  simp only [Expr.unlinedAll_eq_map]
  refine .items (bne_self_eq_false close) hcomma ?_ ?_ hs Nat.le.refl hm
  · exact fun e he vs => bne_iff_ne.mpr ((hreadable e he).nextKind_ne hstart vs)
  · intro e he t vs ht hn hvs
    exact (h e he).full ht (by omega) (.of_none (binds_of_separated hvs hbinds))

theorem array {bracket : Token} {items : List Expr} (hbracket : bracket.kind = .leftBracket)
    (hreadable : ∀ e ∈ items, e.Readable σ (d + 1) .assignment)
    (h : ∀ e ∈ items, ReadBack σ (d + 1) .assignment e) :
    ReadBack σ d .primary (.array bracket items) := by
  refine of_ends rfl fun fuel s us hs hfuel => ?_
  rw [Expr.tokensAt_array, List.cons_append, List.append_assoc, List.singleton_append] at hs hfuel
  refine .peek ?_
  rw [hs.kind, nextKind, hbracket]
  refine .advance hs fun bracket' t hbracket' ht => .check ?_
  have hfor : t.current.kind ≠ .kwFor := by
    rw [ht.kind]
    exact nextKind_commas (P := (· ≠ .kwFor)) (fun e he => (hreadable e he).nextKind_ne rfl)
      (show TokenKind.rightBracket ≠ .kwFor by decide)
  rw [decide_eq_false hfor]
  simp only [List.length_cons] at hfuel
  refine .bind (ReadBack.items hreadable h rfl rfl (by decide) ht (by omega) (by omega)) ?_
  rintro items' u ⟨hitems', hu⟩
  refine .expect hu rfl fun _ v _ hv => .pure ⟨?_, hv⟩
  simp only [Expr.unlined, hbracket', hitems']

theorem dict {brace : Token} {entries : List (String × Expr)} (hbrace : brace.kind = .leftBrace)
    (h : ∀ e ∈ entries, ReadBack σ (d + 1) .assignment e.2) :
    ReadBack σ d .primary (.dict brace entries) := by
  refine of_ends rfl fun fuel s us hs hfuel => ?_
  rw [Expr.tokensAt_dict, List.cons_append, List.append_assoc, List.singleton_append] at hs hfuel
  refine .peek ?_
  rw [hs.kind, nextKind, hbrace]
  refine .advance hs fun brace' t hbrace' ht => ?_
  simp only [List.length_cons] at hfuel
  have hentries : Yields t (Grammar.items (· != .rightBrace) (entry (readers fuel (d + 1))) fuel)
      (Leaves σ (mark .rightBrace :: us) fun entries' =>
        Expr.unlinedEntries entries' = Expr.unlinedEntries entries) := by
    simp only [Expr.unlinedEntries_eq_map]
    refine .items rfl (show TokenKind.rightBrace ≠ .comma by decide) (fun _ _ _ => rfl) ?_ ht
      Nat.le.refl (by omega)
    intro e he u vs hu hn hvs
    have hstops : (nextKind vs).binds = none := binds_of_separated hvs rfl
    rw [Expr.entryTokens, List.cons_append, List.cons_append] at hu hn
    simp only [List.length_cons] at hn
    refine .expect hu rfl fun key' v hkey' hv => .expect hv rfl fun _ w _ hw => ?_
    refine .bind ((h e he).full hw (by omega) (.of_none hstops)) fun value' x hx => ?_
    exact .pure ⟨Prod.ext (Token.lexeme_of_unlined hkey') hx.1, hx.2⟩
  refine .bind hentries fun entries' u hu => .expect hu.2 rfl fun _ v _ hv => .pure ⟨?_, hv⟩
  simp only [Expr.unlined, hbrace', hu.1]

-- A name with its type and its value, with or without the word in front of it.
theorem declaration {decl : Declaration} {word : List Token}
    (hword : word = [] ∨ word = [mark .kwVar]) (hname : decl.name.kind = .id)
    (hty : Ty.ofKeyword? decl.ty.keyword = some decl.ty)
    (hinit : ∀ e ∈ decl.init, ReadBack σ d .logicOr e) (hus : (nextKind us).binds = none)
    (hs : s.Faces σ (word ++ (decl.tokens ++ us)))
    (hfuel : 2 * (word ++ (decl.tokens ++ us)).length ≤ fuel) :
    Yields s (declaration (readers fuel d).plain)
      (Leaves σ us fun decl' => decl'.unlined = decl.unlined) := by
  simp only [Declaration.tokens, annotated, List.cons_append] at hs hfuel
  refine .skip hword hs (by rw [nextKind, hname]; decide) fun _ t ht => ?_
  refine .expect ht hname fun name' u hname' hu => .expect hu rfl fun _ v _ hv => ?_
  refine .expectType hv hty fun w hw => .initializer hw hus ?_ ?_
  · intro e he x hx hlt
    simp only [List.length_append, List.length_cons] at hfuel hlt
    exact (hinit e he).plain hx (by simp; omega) (.of_none hus)
  · intro init' x hinit' hx
    exact .pure ⟨by simp only [Declaration.unlined, hname', hinit'], hx⟩

-- The name is visible from here on.
theorem registered {τ : Scope} {decl : Declaration} {word : List Token}
    (hword : word = [] ∨ word = [mark .kwVar]) (hname : decl.name.kind = .id)
    (hty : Ty.ofKeyword? decl.ty.keyword = some decl.ty)
    (hinit : ∀ e ∈ decl.init, ReadBack σ d .logicOr e)
    (hτ : σ.insert? decl.name.lexeme decl.ty = some τ) (hus : (nextKind us).binds = none)
    (hs : s.Faces σ (word ++ (decl.tokens ++ us)))
    (hfuel : 2 * (word ++ (decl.tokens ++ us)).length ≤ fuel) :
    Yields s (registered (readers fuel d).plain)
      (Leaves τ us fun decl' => decl'.unlined = decl.unlined) := by
  refine .bind (declaration hword hname hty hinit hus hs hfuel) fun decl' t ht => ?_
  obtain ⟨hname', hty', -⟩ := Declaration.mk.inj ht.1
  rw [← Token.lexeme_of_unlined hname', ← hty'] at hτ
  exact .declare ht.2 hτ fun u hu => .pure ⟨ht.1, hu⟩

theorem comprehension {τ : Scope} {bracket iterator : Token} {ty : Ty} {init : Option Expr}
    {iterable projection : Expr} (hbracket : bracket.kind = .leftBracket)
    (hiterator : iterator.kind = .id) (hty : Ty.ofKeyword? ty.keyword = some ty)
    (hinit : ∀ e ∈ init, ReadBack σ.push (d + 1) .logicOr e)
    (hτ : σ.push.insert? iterator.lexeme ty = some τ)
    (hiterable : ReadBack τ (d + 1) .assignment iterable)
    (hprojection : ReadBack τ (d + 1) .assignment projection) :
    ReadBack σ d .primary (.comprehension bracket iterator ty init iterable projection) := by
  refine of_ends rfl fun fuel s us hs hfuel => ?_
  rw [Expr.tokensAt_comprehension] at hs hfuel
  simp only [List.cons_append, List.append_assoc, List.nil_append] at hs hfuel
  refine .peek ?_
  rw [hs.kind, nextKind, hbracket]
  refine .advance hs fun bracket' t hbracket' ht => .check ?_
  rw [ht.kind]
  show Yields t (Grammar.comprehension (readers fuel (d + 1)) bracket') _
  refine .advance ht fun _ u _ hu => .expect hu rfl fun _ v _ hv => ?_
  -- The iterator is declared in a block of its own, which ends with the projection.
  refine .bind (Q := fun e' w => e'.unlined = _ ∧ w.Faces σ (mark .rightBracket :: us))
    (.inBlock hv fun w hw => ?_) fun e' w hw => .expect hw.2 rfl fun _ x _ hx => .pure ⟨hw.1, hx⟩
  simp only [List.length_cons, List.length_append] at hfuel
  have hdecl : Yields w (Grammar.registered (readers fuel (d + 1)).plain)
      (Leaves τ (mark .kwIn :: (iterable.tokensAt .assignment ++ mark .rightParen ::
        mark .arrow :: (projection.tokensAt .assignment ++ mark .rightBracket :: us)))
        fun decl' => decl'.unlined = (⟨iterator, ty, init⟩ : Declaration).unlined) :=
    registered (.inl rfl) hiterator hty hinit hτ rfl hw
      (by simp [Declaration.tokens, annotated]; omega)
  refine .bind hdecl fun decl' x hx => ?_
  obtain ⟨hiterator', hty', hinit'⟩ : decl'.name.unlined = iterator.unlined ∧ decl'.ty = ty ∧
      decl'.init.map Expr.unlined = init.map Expr.unlined := Declaration.mk.inj hx.1
  refine .expect hx.2 rfl fun _ y _ hy => ?_
  refine .bind (hiterable.full hy (by simp; omega) (.of_none rfl)) fun iterable' z hz => ?_
  refine .expect hz.2 rfl fun _ p _ hp => .expect hp rfl fun _ q _ hq => ?_
  refine .bind (hprojection.full hq (by simp; omega) (.of_none rfl)) fun projection' p hp => ?_
  refine .pure ⟨?_, τ, hp.2, ?_⟩
  · simp only [Expr.unlined, Expr.unlinedOption_eq_map, hbracket', hiterator', hty', hinit', hz.1,
      hp.1]
  · exact Scope.outer_of_insert? hτ

theorem name {t : Token} {ty : Ty} (hkind : t.kind = .id) (h : σ.find? t.lexeme = some ty) :
    ReadBack σ d .primary (.name t ty) := by
  intro fuel s us hs hfuel _
  rw [Expr.tokensAt_name, List.singleton_append] at hs hfuel
  refine .peek ?_
  rw [hs.kind, nextKind, hkind]
  refine .advance hs fun t' u ht' hu => ?_
  rw [← Token.lexeme_of_unlined ht'] at h
  refine .resolve hu h ?_
  refine .suffixes rfl ?_ (by simp at hfuel; omega) hu
  simp only [Expr.unlined, ht']

-- The arguments of a call, behind the parenthesis.
theorem arguments {args : List Expr} (hreadable : ∀ e ∈ args, e.Readable σ d .assignment)
    (h : ∀ e ∈ args, ReadBack σ d .assignment e)
    (hs : s.Faces σ (commas (args.map (Expr.tokensAt .assignment)) ++ mark .rightParen :: us))
    (hfuel : 2 * (commas (args.map (Expr.tokensAt .assignment)) ++
      mark .rightParen :: us).length + 2 ≤ fuel)
    (hm : (commas (args.map (Expr.tokensAt .assignment)) ++ mark .rightParen :: us).length < m) :
    Yields s (arguments (readers fuel d) m)
      (Leaves σ us fun args' => Expr.unlinedAll args' = Expr.unlinedAll args) := by
  refine .bind (items hreadable h rfl rfl (by decide) hs hfuel hm) fun args' t ht => ?_
  exact .expect ht.2 rfl fun _ u _ hu => .pure ⟨ht.1, hu⟩

theorem call {callee : Token} {ty : Ty} {args : List Expr}
    (hcallee : ReadBack σ d .primary (.name callee ty))
    (hreadable : ∀ e ∈ args, e.Readable σ (d + 1) .assignment)
    (h : ∀ e ∈ args, ReadBack σ (d + 1) .assignment e) :
    ReadBack σ d .primary (.call callee ty args) := by
  refine hcallee.of_suffix rfl (by rw [Expr.tokensAt_call, Expr.tokensAt_name]; rfl) ?_
  intro fuel m callee' s us hcallee' hs hfuel hm
  obtain ⟨name', rfl, hname'⟩ := Expr.eq_name_of_unlined hcallee'
  simp only [List.cons_append, List.append_assoc, List.nil_append] at hs hfuel hm
  simp only [List.length_cons] at hfuel hm
  refine .peek ?_
  rw [hs.kind]
  refine .advance hs fun _ t _ ht => ?_
  refine .bind (arguments hreadable h ht (by omega) (by omega)) fun args' u hu => ?_
  refine .suffixes rfl ?_ (by simp at hm; omega) hu.2
  simp only [Expr.unlined, hname', hu.1]

theorem method {receiver : Expr} {operation : Token} {args : List Expr}
    (hreceiver : ReadBack σ d .primary receiver) (hsuffixed : receiver.isSuffixed = true)
    (hkind : operation.kind = .id)
    (hreadable : ∀ e ∈ args, e.Readable σ (d + 1) .assignment)
    (h : ∀ e ∈ args, ReadBack σ (d + 1) .assignment e) :
    ReadBack σ d .primary (.method receiver operation args) := by
  refine hreceiver.of_suffix hsuffixed (Expr.tokensAt_method ..) ?_
  intro fuel m receiver' s us hreceiver' hs hfuel hm
  simp only [List.cons_append, List.append_assoc, List.nil_append] at hs hfuel hm
  simp only [List.length_cons] at hfuel hm
  refine .peek ?_
  rw [hs.kind]
  refine .advance hs fun _ t _ ht => .expect ht hkind fun operation' u hoperation' hu => ?_
  refine .expect hu rfl fun _ v _ hv => ?_
  refine .bind (arguments hreadable h hv (by omega) (by omega)) fun args' w hw => ?_
  refine .suffixes rfl ?_ (by simp at hm; omega) hw.2
  simp only [Expr.unlined, hreceiver', hoperation', hw.1]

theorem access {target index : Expr} (htarget : ReadBack σ d .primary target)
    (hsuffixed : target.isSuffixed = true) (hreadable : index.Readable σ (d + 1) .sum)
    (hindex : ReadBack σ (d + 1) .sum index) :
    ReadBack σ d .primary (.access target index) := by
  refine htarget.of_suffix hsuffixed (Expr.tokensAt_access ..) ?_
  intro fuel m target' s us htarget' hs hfuel hm
  simp only [List.cons_append, List.append_assoc, List.nil_append] at hs hfuel hm
  simp only [List.length_cons] at hfuel hm
  have hbracketed : Yields s (bracketed (readers fuel (d + 1)) target')
      (Leaves σ us fun e => e.unlined = (Expr.access target index).unlined) := by
    refine .advance hs fun _ t _ ht => .check ?_
    rw [ht.kind, decide_eq_false (hreadable.nextKind_ne rfl _)]
    have hsome : Yields t (some <$> (readers fuel (d + 1)).sum)
        (Leaves σ (mark .rightBracket :: us) fun start => ∃ index', start = some index' ∧
          index'.unlined = index.unlined) :=
      .map ((hindex.sum ht (by omega) (.of_none rfl)).imp fun index' u hu => ⟨⟨_, rfl, hu.1⟩, hu.2⟩)
    refine .bind hsome ?_
    rintro _ u ⟨⟨index', rfl, hindex'⟩, hu⟩
    refine .reject hu (show TokenKind.rightBracket ≠ .colon by decide) ?_
    refine .expect hu rfl fun _ v _ hv => .pure ⟨?_, hv⟩
    simp only [Expr.unlined, htarget', hindex']
  refine .peek ?_
  rw [hs.kind]
  refine .bind hbracketed fun e' t ht => ?_
  exact .suffixes rfl ht.1 (by simp at hm; omega) ht.2

theorem slice {target : Expr} {start stop : Option Expr} (htarget : ReadBack σ d .primary target)
    (hsuffixed : target.isSuffixed = true)
    (hstartReadable : ∀ e ∈ start, e.Readable σ (d + 1) .sum)
    (hstart : ∀ e ∈ start, ReadBack σ (d + 1) .sum e)
    (hstopReadable : ∀ e ∈ stop, e.Readable σ (d + 1) .sum)
    (hstop : ∀ e ∈ stop, ReadBack σ (d + 1) .sum e) :
    ReadBack σ d .primary (.slice target start stop) := by
  refine htarget.of_suffix hsuffixed (Expr.tokensAt_slice ..) ?_
  intro fuel m target' s us htarget' hs hfuel hm
  simp only [List.cons_append, List.append_assoc, List.nil_append, Expr.tokensOfOption_eq_elim]
    at hs hfuel hm
  simp only [List.length_cons, List.length_append] at hfuel hm
  have hbracketed : Yields s (bracketed (readers fuel (d + 1)) target')
      (Leaves σ us fun e => e.unlined = (Expr.slice target start stop).unlined) := by
    refine .advance hs fun _ t _ ht => ?_
    refine .bound (g := Expr.unlined) ht rfl ?_ ?_ ?_
    · exact fun e he => (hstartReadable e he).nextKind_ne rfl _
    · intro e he u hu
      refine (hstart e he).sum hu ?_ (.of_none rfl)
      rw [he] at hfuel
      simp only [List.length_append, List.length_cons, Option.elim_some] at hfuel ⊢
      omega
    · intro start' u hstart' hu
      refine .accept hu rfl fun v hv => ?_
      refine .bound (g := Expr.unlined) hv rfl ?_ ?_ ?_
      · exact fun e he => (hstopReadable e he).nextKind_ne rfl _
      · intro e he w hw
        refine (hstop e he).sum hw ?_ (.of_none rfl)
        rw [he] at hfuel
        simp only [List.length_append, List.length_cons, Option.elim_some] at hfuel ⊢
        omega
      · intro stop' w hstop' hw
        refine .expect hw rfl fun _ x _ hx => .pure ⟨?_, hx⟩
        simp only [Expr.unlined, Expr.unlinedOption_eq_map, htarget', hstart', hstop']
  refine .peek ?_
  rw [hs.kind]
  refine .bind hbracketed fun e' t ht => ?_
  exact .suffixes rfl ht.1 (by omega) ht.2

end ReadBack

-- What can be read is read back from what it is printed as.
theorem readBack {r : Rank} (h : e.Readable σ d r) : ReadBack σ d r e := by
  induction h with
  | @tighter _ _ r _ hr hrank h ih =>
    by_cases hoperators : r.operators = []
    · cases r with
      | assignment => exact ih.of_logicOr hrank
      | unary => exact ih.of_primary h hrank
      | primary => exact absurd rfl hr
      | _ => cases hoperators
    · exact ih.of_next hoperators hrank
  | grouped _ hrank _ ih => exact ih.grouped hrank
  | assign hd _ hassignable hequal _ ihtarget ihvalue =>
    exact ihtarget.assign hd hassignable hequal ihvalue
  | binary _ hoperator _ ihleft ihright => exact ihleft.binary hoperator ihright
  | unary hd hoperator _ ih => exact ih.unary hd hoperator
  | constant _ hkind => exact .constant hkind
  | array _ hbracket h ih => exact .array hbracket h ih
  | dict _ hbrace _ ih => exact .dict hbrace ih
  | comprehension _ hbracket hiterator hty _ hτ _ _ ihinit ihiterable ihprojection =>
    exact .comprehension hbracket hiterator hty ihinit hτ ihiterable ihprojection
  | name _ hkind h => exact .name hkind h
  | call _ hkind h hargs ih => exact .call (.name hkind h) hargs ih
  | access _ _ hsuffixed hindex ihtarget ihindex => exact ihtarget.access hsuffixed hindex ihindex
  | slice _ _ hsuffixed hstart hstop ihtarget ihstart ihstop =>
    exact ihtarget.slice hsuffixed hstart ihstart hstop ihstop
  | method _ _ hsuffixed hkind hargs ihreceiver ihargs =>
    exact ihreceiver.method hsuffixed hkind hargs ihargs

end

end Grammar

end Parlance
