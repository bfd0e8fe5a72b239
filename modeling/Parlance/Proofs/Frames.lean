import Parlance.World

namespace Parlance.Frames

-- The frame that a frame looks names up in next.
def parent? (fs : Frames) (env : Nat) : Option Nat :=
  fs.all[env]?.bind Frame.parent

-- A frame binds a name itself.
def Binds (fs : Frames) (env : Nat) (name : String) : Prop :=
  (fs.bindings env).contains name = true

theorem bindings_of_size_le (fs : Frames) {env : Nat} (h : fs.size ≤ env) :
    fs.bindings env = Table.empty := by
  simp [bindings, Array.getElem?_eq_none h]

theorem lt_size_of_binds {fs : Frames} {env : Nat} {name : String} (h : fs.Binds env name) :
    env < fs.size := by
  refine Nat.lt_of_not_ge fun hge => ?_
  rw [Binds, bindings_of_size_le fs hge] at h
  simp [Table.contains] at h

theorem lt_size_of_parent? {fs : Frames} {env parent : Nat} (h : fs.parent? env = some parent) :
    env < fs.size := by
  refine Nat.lt_of_not_ge fun hge => ?_
  rw [parent?, Array.getElem?_eq_none hge] at h
  cases h

-- A chain goes on at the parent as long as the parent stands before its frame.
theorem chain_of_lt (fs : Frames) {env : Nat} (h : env < fs.size) :
    fs.chain env =
      env :: match fs.parent? env with
        | none => []
        | some parent => if parent < env then fs.chain parent else [] := by
  have hget : fs.all[env]? = some fs.all[env] := Array.getElem?_eq_getElem h
  rw [chain, parent?, hget]
  simp only [Option.bind_some]
  cases fs.all[env].parent with
  | none => rfl
  | some parent =>
    simp only
    split <;> rfl

theorem chain_of_size_le (fs : Frames) {env : Nat} (h : fs.size ≤ env) : fs.chain env = [] := by
  rw [chain, Array.getElem?_eq_none h]

-- Chains depend on the number of frames and their parents only.
theorem chain_congr {fs gs : Frames} (hsize : gs.size = fs.size)
    (hparent : ∀ i, gs.parent? i = fs.parent? i) (env : Nat) : gs.chain env = fs.chain env := by
  induction env using Nat.strongRecOn with
  | ind env ih =>
    by_cases h : env < fs.size
    · rw [chain_of_lt fs h, chain_of_lt gs (hsize ▸ h), hparent]
      cases fs.parent? env with
      | none => rfl
      | some parent =>
        by_cases hlt : parent < env
        · simp only [hlt, ite_true, ih parent hlt]
        · simp only [hlt, ite_false]
    · have hge := Nat.le_of_not_lt h
      rw [chain_of_size_le fs hge, chain_of_size_le gs (hsize ▸ hge)]

theorem mem_chain_self (fs : Frames) {env : Nat} (h : env < fs.size) : env ∈ fs.chain env := by
  rw [chain_of_lt fs h]
  exact List.mem_cons_self

theorem le_of_mem_chain {fs : Frames} {env i : Nat} (h : i ∈ fs.chain env) : i ≤ env := by
  induction env using Nat.strongRecOn with
  | ind env ih =>
    by_cases hsize : env < fs.size
    · rw [chain_of_lt fs hsize] at h
      rcases List.mem_cons.mp h with rfl | h
      · exact Nat.le_refl _
      · cases hp : fs.parent? env with
        | none => simp [hp] at h
        | some parent =>
          by_cases hlt : parent < env
          · simp only [hp, hlt, ite_true] at h
            exact Nat.le_trans (ih parent hlt h) (Nat.le_of_lt hlt)
          · simp [hp, hlt] at h
    · simp [chain_of_size_le fs (Nat.le_of_not_lt hsize)] at h

theorem lt_size_of_mem_chain {fs : Frames} {env i : Nat} (h : i ∈ fs.chain env) :
    env < fs.size := by
  refine Nat.lt_of_not_ge fun hge => ?_
  rw [chain_of_size_le fs hge] at h
  cases h

-- The owner of a name is the first frame of the chain that binds it.
theorem owner?_eq_find? (fs : Frames) (name : String) (env : Nat) :
    fs.owner? name env = (fs.chain env).find? fun i => (fs.bindings i).contains name := by
  induction env using Nat.strongRecOn with
  | ind env ih =>
    by_cases hsize : env < fs.size
    · have hget : fs.all[env]? = some fs.all[env] := Array.getElem?_eq_getElem hsize
      have hbind : fs.bindings env = fs.all[env].bindings := by simp [bindings, hget]
      rw [owner?, hget, chain_of_lt fs hsize, List.find?_cons, hbind, parent?, hget]
      simp only [Option.bind_some]
      cases hc : fs.all[env].bindings.contains name with
      | true => rfl
      | false =>
        simp only [Bool.false_eq_true, ite_false]
        cases fs.all[env].parent with
        | none => rfl
        | some parent =>
          by_cases hlt : parent < env
          · simp only [hlt, ite_true, ih parent hlt]
          · simp only [hlt, ite_false, List.find?_nil]
    · have hge := Nat.le_of_not_lt hsize
      rw [owner?, Array.getElem?_eq_none hge, chain_of_size_le fs hge, List.find?_nil]

theorem binds_of_owner? {fs : Frames} {name : String} {env owner : Nat}
    (h : fs.owner? name env = some owner) : owner ∈ fs.chain env ∧ fs.Binds owner name := by
  rw [owner?_eq_find?] at h
  have hbinds := List.find?_some (p := fun i => (fs.bindings i).contains name) h
  exact ⟨List.mem_of_find?_eq_some h, hbinds⟩

-- Frames come after those that they look names up in, so the owner is the last to bind.
theorem le_owner? {fs : Frames} {name : String} {env owner i : Nat}
    (h : fs.owner? name env = some owner) (hi : i ∈ fs.chain env) (hb : fs.Binds i name) :
    i ≤ owner := by
  induction env using Nat.strongRecOn with
  | ind env ih =>
    have hlt := lt_size_of_mem_chain hi
    have hchain := chain_of_lt fs hlt
    rw [owner?_eq_find?, hchain, List.find?_cons] at h
    split at h
    · cases h
      exact le_of_mem_chain hi
    · next hnot =>
      rw [hchain] at hi
      rcases List.mem_cons.mp hi with rfl | hi
      · exact absurd hb (Bool.eq_false_iff.mp hnot)
      · cases hp : fs.parent? env with
        | none => simp [hp] at hi
        | some parent =>
          by_cases hparent : parent < env
          · simp only [hp, hparent, ite_true] at h hi
            exact ih parent hparent (owner?_eq_find? fs name parent ▸ h) hi
          · simp [hp, hparent] at hi

theorem owner?_congr {fs gs : Frames} {env : Nat} (name : String)
    (hchain : gs.chain env = fs.chain env)
    (hbinds : ∀ i, gs.Binds i name ↔ fs.Binds i name) :
    gs.owner? name env = fs.owner? name env := by
  have hfun : (fun i => (gs.bindings i).contains name) = fun i => (fs.bindings i).contains name :=
    funext fun i => Bool.eq_iff_iff.mpr (hbinds i)
  rw [owner?_eq_find?, owner?_eq_find?, hchain, hfun]

-- A frame or one above it binds a name.
def Sees (fs : Frames) (env : Nat) (name : String) : Prop :=
  ∃ i ∈ fs.chain env, fs.Binds i name

theorem owner?_isSome_iff (fs : Frames) (name : String) (env : Nat) :
    (fs.owner? name env).isSome ↔ fs.Sees env name := by
  rw [owner?_eq_find?, List.find?_isSome]
  rfl

theorem sees_of_binds {fs : Frames} {env : Nat} {name : String} (h : fs.Binds env name) :
    fs.Sees env name :=
  ⟨env, mem_chain_self fs (lt_size_of_binds h), h⟩

-- A name has the same owner as among the globals if no other frame binds it.
theorem owner?_eq_globals_iff {fs : Frames} {env : Nat} (name : String)
    (hroot : globals ∈ fs.chain env) :
    fs.owner? name env = fs.owner? name globals ↔
      ∀ i ∈ fs.chain env, i ≠ globals → ¬ fs.Binds i name := by
  have honly : ∀ owner, fs.owner? name globals = some owner → owner = globals := fun owner h =>
    Nat.le_zero.mp (le_of_mem_chain (binds_of_owner? h).1)
  constructor
  · intro h i hi hne hb
    obtain ⟨owner, howner⟩ :=
      Option.isSome_iff_exists.mp ((owner?_isSome_iff fs name env).mpr ⟨i, hi, hb⟩)
    have hle := le_owner? howner hi hb
    rw [honly owner (h ▸ howner)] at hle
    exact hne (Nat.le_zero.mp hle)
  · intro h
    cases howner : fs.owner? name env with
    | none =>
      cases hglobal : fs.owner? name globals with
      | none => rfl
      | some owner =>
        have hb := (binds_of_owner? hglobal).2
        rw [honly owner hglobal] at hb
        have hsome := (owner?_isSome_iff fs name env).mpr ⟨globals, hroot, hb⟩
        rw [howner] at hsome
        cases hsome
    | some owner =>
      obtain ⟨hmem, hb⟩ := binds_of_owner? howner
      have heq : owner = globals := Decidable.byContradiction fun hne => h owner hmem hne hb
      subst heq
      obtain ⟨other, hother⟩ :=
        Option.isSome_iff_exists.mp ((owner?_isSome_iff fs name globals).mpr (sees_of_binds hb))
      rw [hother, honly other hother]

-- What an evaluation in the frame `env` may do to the frames: it opens and closes none, it
-- changes values in the chain of `env` and among the globals only, and the only names that
-- it adds are names of `new` in `env` itself.
structure Keeps (env : Nat) (new : String → Prop) (fs gs : Frames) : Prop where
  size : gs.size = fs.size
  parent : ∀ i, gs.parent? i = fs.parent? i
  depth : ∀ i, gs.depth i = fs.depth i
  binds : ∀ i name, fs.Binds i name → gs.Binds i name
  adds : ∀ i name, gs.Binds i name → fs.Binds i name ∨ i = env ∧ new name
  values : ∀ i, i ∉ fs.chain env → i ≠ globals → gs.bindings i = fs.bindings i

namespace Keeps

variable {env : Nat} {new more : String → Prop} {fs gs hs : Frames}

theorem refl (env : Nat) (new : String → Prop) (fs : Frames) : Keeps env new fs fs :=
  ⟨rfl, fun _ => rfl, fun _ => rfl, fun _ _ h => h, fun _ _ h => .inl h, fun _ _ _ => rfl⟩

theorem chain (h : Keeps env new fs gs) (i : Nat) : gs.chain i = fs.chain i :=
  chain_congr h.size h.parent i

theorem trans (h : Keeps env new fs gs) (h' : Keeps env new gs hs) : Keeps env new fs hs where
  size := h'.size.trans h.size
  parent i := (h'.parent i).trans (h.parent i)
  depth i := (h'.depth i).trans (h.depth i)
  binds i name hb := h'.binds i name (h.binds i name hb)
  adds i name hb := (h'.adds i name hb).elim (h.adds i name) .inr
  values i hi hg := (h'.values i (h.chain env ▸ hi) hg).trans (h.values i hi hg)

theorem mono (h : Keeps env new fs gs) (hnew : ∀ name, new name → more name) :
    Keeps env more fs gs :=
  { h with adds := fun i name hb => (h.adds i name hb).imp id fun ⟨hi, hn⟩ => ⟨hi, hnew name hn⟩ }

theorem binds_iff (h : Keeps env new fs gs) (i : Nat) {name : String} (hname : ¬ new name) :
    gs.Binds i name ↔ fs.Binds i name :=
  ⟨fun hb => (h.adds i name hb).elim id fun ⟨_, hf⟩ => absurd hf hname, h.binds i name⟩

theorem sees (h : Keeps env new fs gs) {i : Nat} {name : String} (hs : fs.Sees i name) :
    gs.Sees i name := by
  obtain ⟨j, hj, hb⟩ := hs
  exact ⟨j, h.chain i ▸ hj, h.binds j name hb⟩

theorem owner? (h : Keeps env new fs gs) {name : String} (hname : ¬ new name) (i : Nat) :
    gs.owner? name i = fs.owner? name i :=
  owner?_congr name (h.chain i) fun j => h.binds_iff j hname

end Keeps

theorem parent?_define (fs : Frames) (env i : Nat) (name : String) (v : Value) :
    (fs.define env name v).parent? i = fs.parent? i := by
  rw [parent?, parent?, define, Array.getElem?_modify]
  by_cases h : env = i <;> cases fs.all[i]? <;> simp [h]

theorem depth_define (fs : Frames) (env i : Nat) (name : String) (v : Value) :
    (fs.define env name v).depth i = fs.depth i := by
  rw [depth, depth, define, Array.getElem?_modify]
  by_cases h : env = i <;> cases fs.all[i]? <;> simp [h]

theorem binds_define_iff (fs : Frames) {env : Nat} (name : String) (v : Value)
    (h : env < fs.size) (i : Nat) (x : String) :
    (fs.define env name v).Binds i x ↔ fs.Binds i x ∨ i = env ∧ x = name := by
  by_cases hi : i = env
  · subst hi
    rw [Binds, Binds, bindings_define_self fs name v h, Table.contains, Table.contains,
      Table.get?_insert]
    by_cases hx : x = name <;> simp [hx]
  · rw [Binds, Binds, bindings_define_of_ne fs name v hi]
    simp [hi]

theorem define_of_size_le (fs : Frames) {env : Nat} (name : String) (v : Value)
    (h : fs.size ≤ env) : fs.define env name v = fs := by
  have hall : (fs.define env name v).all = fs.all := by
    refine Array.ext_getElem? fun i => ?_
    rw [define, Array.getElem?_modify]
    split
    · next heq =>
      subst heq
      rw [Array.getElem?_eq_none h]
      rfl
    · rfl
  cases fs
  simpa [define] using hall

-- A declaration adds its own name to its own frame.
theorem keeps_define (fs : Frames) (env : Nat) (name : String) (v : Value) :
    Keeps env (· = name) fs (fs.define env name v) := by
  by_cases h : env < fs.size
  · refine ⟨size_define fs env name v, fun i => parent?_define fs env i name v,
      fun i => depth_define fs env i name v, fun i x hb => ?_, fun i x hb => ?_, fun i hi _ => ?_⟩
    · exact (binds_define_iff fs name v h i x).mpr (.inl hb)
    · exact (binds_define_iff fs name v h i x).mp hb
    · have hne : i ≠ env := by
        rintro rfl
        exact hi (mem_chain_self fs h)
      exact bindings_define_of_ne fs name v hne
  · rw [define_of_size_le fs name v (Nat.le_of_not_lt h)]
    exact Keeps.refl env _ fs

-- An assignment adds no name at all.
theorem keeps_assign {fs : Frames} {env owner : Nat} {name : String}
    (h : fs.owner? name env = some owner) (v : Value) :
    Keeps env (fun _ => False) fs (fs.define owner name v) := by
  obtain ⟨hchain, hbinds⟩ := binds_of_owner? h
  have hlt := lt_size_of_binds hbinds
  refine ⟨size_define fs owner name v, fun i => parent?_define fs owner i name v,
    fun i => depth_define fs owner i name v, fun i x hb => ?_, fun i x hb => ?_, fun i hi _ => ?_⟩
  · exact (binds_define_iff fs name v hlt i x).mpr (.inl hb)
  · rcases (binds_define_iff fs name v hlt i x).mp hb with hb | ⟨rfl, rfl⟩
    · exact .inl hb
    · exact .inl hbinds
  · have hne : i ≠ owner := by
      rintro rfl
      exact hi hchain
    exact bindings_define_of_ne fs name v hne

theorem parent?_child_self (fs : Frames) (env : Nat) :
    (fs.child env).parent? fs.size = some env := by
  simp [parent?, child, size]

theorem parent?_child_of_lt (fs : Frames) (env : Nat) {i : Nat} (h : i < fs.size) :
    (fs.child env).parent? i = fs.parent? i := by
  have hne : i ≠ fs.all.size := Nat.ne_of_lt h
  simp [parent?, child, Array.getElem?_push, hne]

theorem depth_child_of_lt (fs : Frames) (env : Nat) {i : Nat} (h : i < fs.size) :
    (fs.child env).depth i = fs.depth i := by
  have hne : i ≠ fs.all.size := Nat.ne_of_lt h
  rw [depth, depth, child, Array.getElem?_push, if_neg hne]

theorem binds_child_iff (fs : Frames) (env i : Nat) (name : String) :
    (fs.child env).Binds i name ↔ fs.Binds i name := by
  rcases Nat.lt_trichotomy i fs.size with h | rfl | h
  · rw [Binds, Binds, bindings_child_of_lt fs env h]
  · rw [Binds, Binds, bindings_child_self, bindings_of_size_le fs (Nat.le_refl _)]
  · rw [Binds, Binds, bindings_of_size_le fs (Nat.le_of_lt h), bindings_of_size_le]
    rw [size_child]
    exact h

theorem chain_child_of_lt (fs : Frames) (env : Nat) {i : Nat} (h : i < fs.size) :
    (fs.child env).chain i = fs.chain i := by
  induction i using Nat.strongRecOn with
  | ind i ih =>
    have hchild : i < (fs.child env).size := by
      rw [size_child]
      omega
    rw [chain_of_lt fs h, chain_of_lt _ hchild, parent?_child_of_lt fs env h]
    cases fs.parent? i with
    | none => rfl
    | some parent =>
      by_cases hlt : parent < i
      · simp only [hlt, ite_true, ih parent hlt (Nat.lt_trans hlt h)]
      · simp only [hlt, ite_false]

-- A new frame looks names up where the frame under it does.
theorem chain_child_self (fs : Frames) {env : Nat} (h : env < fs.size) :
    (fs.child env).chain fs.size = fs.size :: fs.chain env := by
  have hsize : fs.size < (fs.child env).size := by
    rw [size_child]
    omega
  rw [chain_of_lt _ hsize, parent?_child_self]
  simp only [h, ite_true, chain_child_of_lt fs env h]

theorem owner?_child_of_lt (fs : Frames) (env : Nat) (name : String) {i : Nat}
    (h : i < fs.size) : (fs.child env).owner? name i = fs.owner? name i :=
  owner?_congr name (chain_child_of_lt fs env h) fun j => binds_child_iff fs env j name

theorem owner?_child_self (fs : Frames) {env : Nat} (name : String) (h : env < fs.size) :
    (fs.child env).owner? name fs.size = fs.owner? name env := by
  rw [← owner?_child_of_lt fs env name h, owner?_eq_find?, owner?_eq_find?,
    chain_child_self fs h, chain_child_of_lt fs env h, List.find?_cons, bindings_child_self]
  simp [Table.contains]

theorem sees_child {fs : Frames} {env : Nat} {name : String} (h : fs.Sees env name) :
    (fs.child env).Sees fs.size name := by
  obtain ⟨i, hi, hb⟩ := h
  refine ⟨i, ?_, (binds_child_iff fs env i name).mpr hb⟩
  rw [chain_child_self fs (lt_size_of_mem_chain hi)]
  exact List.mem_cons_of_mem _ hi

theorem all_release (fs : Frames) {n i : Nat} (h : i < n) :
    (fs.release n).all[i]? = fs.all[i]? := by
  simp only [release, Array.shrink_eq_take, Array.take_eq_extract, Array.getElem?_extract]
  by_cases hs : i < fs.all.size
  · have hlt : i < min n fs.all.size - 0 := by omega
    rw [if_pos hlt, Nat.zero_add]
  · have hge : ¬ i < min n fs.all.size - 0 := by omega
    rw [if_neg hge, Array.getElem?_eq_none (Nat.le_of_not_lt hs)]

-- What ran in a frame of its own under `env` ran in `env` once that frame is gone.
theorem keeps_release {fs gs : Frames} {env : Nat} {new : String → Prop}
    (h : Keeps fs.size new (fs.child env) gs) :
    Keeps env (fun _ => False) fs (gs.release fs.size) := by
  have hgs : gs.size = fs.size + 1 := h.size.trans (size_child fs env)
  have hsize : (gs.release fs.size).size = fs.size := by
    rw [size, release, Array.size_shrink]
    exact Nat.min_eq_left (by rw [← size, hgs]; omega)
  have hparent : ∀ i, i < fs.size → (gs.release fs.size).parent? i = fs.parent? i := by
    intro i hi
    rw [parent?, all_release gs hi, ← parent?, h.parent, parent?_child_of_lt fs env hi]
  have hdepth : ∀ i, i < fs.size → (gs.release fs.size).depth i = fs.depth i := by
    intro i hi
    rw [Frames.depth, all_release gs hi, ← Frames.depth, h.depth, depth_child_of_lt fs env hi]
  have hbind : ∀ i, i < fs.size → (gs.release fs.size).bindings i = gs.bindings i := by
    intro i hi
    rw [bindings, all_release gs hi, ← bindings]
  have hout : ∀ (hs : Frames) i, hs.size = fs.size → ¬ i < fs.size → hs.all[i]? = none := by
    intro hs i hsame hi
    have hge : hs.size ≤ i := by omega
    exact Array.getElem?_eq_none hge
  refine ⟨hsize, fun i => ?_, fun i => ?_, fun i name hb => ?_, fun i name hb => .inl ?_,
    fun i hi hg => ?_⟩
  · by_cases hi : i < fs.size
    · exact hparent i hi
    · rw [parent?, parent?, hout _ i hsize hi, hout fs i rfl hi]
  · by_cases hi : i < fs.size
    · exact hdepth i hi
    · rw [Frames.depth, Frames.depth, hout _ i hsize hi, hout fs i rfl hi]
  · have hi := lt_size_of_binds hb
    rw [Binds, hbind i hi]
    exact h.binds i name ((binds_child_iff fs env i name).mpr hb)
  · have hi : i < fs.size := hsize ▸ lt_size_of_binds hb
    rw [Binds, hbind i hi] at hb
    rcases h.adds i name hb with hb | ⟨rfl, _⟩
    · exact (binds_child_iff fs env i name).mp hb
    · exact absurd hi (Nat.lt_irrefl _)
  · by_cases hlt : i < fs.size
    · have hnot : i ∉ (fs.child env).chain fs.size := by
        by_cases henv : env < fs.size
        · rw [chain_child_self fs henv]
          exact fun hm => (List.mem_cons.mp hm).elim (Nat.ne_of_lt hlt) hi
        · rw [chain_of_lt _ (by rw [size_child]; omega), parent?_child_self]
          simp only [henv, ite_false, List.mem_singleton]
          exact Nat.ne_of_lt hlt
      rw [hbind i hlt, h.values i hnot hg, bindings_child_of_lt fs env hlt]
    · rw [bindings, bindings, hout _ i hsize hlt, hout fs i rfl hlt]

end Parlance.Frames
