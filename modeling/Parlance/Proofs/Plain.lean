import Parlance.Proofs.Discipline
import Parlance.Proofs.Marked
import Parlance.Proofs.Quoted
import Parlance.Proofs.Sorting

namespace Parlance

-- Everything that a program says is unbroken, at whatever line it stands.
def Mark.plain : Mark :=
  ⟨fun _ => True, Unbroken, id⟩

def Function.Plain (f : Function) : Prop :=
  f.definition.Marked .plain

-- Values and what holds them, with all texts unbroken.
def Value.Plain : Value → Prop
  | .str s => Unbroken s
  | _ => True

def Table.Plain (t : Table Value) : Prop :=
  ∀ e ∈ t.entries, Unbroken e.1 ∧ e.2.Plain

def Draft.Plain : Draft → Prop
  | .value v => v.Plain
  | .list items => ∀ v ∈ items, v.Plain
  | .dict entries => entries.Plain

structure Server.Plain (s : Server) : Prop where
  description : Unbroken s.description
  host : Unbroken s.endpoint.host
  handler : s.handler.Plain

def Stream.Plain (s : Stream) : Prop :=
  ∀ text ∈ s.texts, Unbroken text

structure Connection.Plain (c : Connection) : Prop where
  requests : c.requests.Plain
  replies : c.replies.Plain

structure Heap.Plain (h : Heap) : Prop where
  lists : ∀ items ∈ h.lists, ∀ v ∈ items, v.Plain
  dicts : ∀ t ∈ h.dicts, t.Plain
  clients : ∀ c ∈ h.clients, Unbroken c.endpoint.host
  servers : ∀ s ∈ h.servers, s.Plain
  connections : ∀ c ∈ h.connections, c.Plain

-- A line that is read from a text as it comes is unbroken in any case.
def Input.Plain : Input → Prop
  | .lines pending => ∀ line ∈ pending, Unbroken line
  | .stream _ => True

structure World.Plain (w : World) : Prop where
  heap : w.heap.Plain
  frames : ∀ env name v, (w.frames.bindings env).get? name = some v → v.Plain
  functions : ∀ name f, w.functions.get? name = some f → f.Plain
  input : w.console.input.Plain

-- A reason to stop whose message quotes unbroken texts only.
def Stop.Plain : Stop → Prop
  | .fault f => ∀ s ∈ f.cause.quoted, Unbroken s
  | _ => True

theorem Input.Plain.next {input : Input} (h : input.Plain) :
    input.next.2.Plain ∧ ∀ line ∈ input.next.1, Unbroken line := by
  cases input with
  | lines pending =>
    cases pending with
    | nil => exact ⟨h, fun _ hline => by cases hline⟩
    | cons line rest =>
      obtain ⟨hline, hrest⟩ := List.forall_mem_cons.mp h
      refine ⟨hrest, ?_⟩
      rintro _ ⟨⟩
      exact hline
  | stream rest =>
    cases rest with
    | nil => exact ⟨trivial, fun _ hline => by cases hline⟩
    | cons c cs =>
      refine ⟨trivial, ?_⟩
      rintro _ ⟨⟩
      exact (unbroken_ofList _).mpr (Text.takeLine_unbroken (c :: cs))

namespace Table

theorem plain_empty : (empty : Table Value).Plain := by
  intro e he
  cases he

theorem Plain.get? {t : Table Value} (h : t.Plain) {key : String} {v : Value}
    (hv : t.get? key = some v) : v.Plain := by
  obtain ⟨before, after, hsplit, -⟩ := List.lookup_eq_some_iff.mp hv
  exact (h (key, v) (by simp [hsplit])).2

theorem Plain.insert {t : Table Value} (h : t.Plain) {key : String} {v : Value}
    (hkey : Unbroken key) (hv : v.Plain) : (t.insert key v).Plain := by
  intro e he
  rcases mem_insertEntry he with rfl | he
  · exact ⟨hkey, hv⟩
  · exact h e he

theorem Plain.keys {t : Table Value} (h : t.Plain) : ∀ key ∈ t.keys, Unbroken key := by
  intro key hkey
  obtain ⟨e, he, rfl⟩ := List.mem_map.mp hkey
  exact (h e he).1

end Table

theorem idle_plain : idle.Plain := by
  simp [Function.Plain, Function.definition, idle, Stmt.Marked, Stmt.MarkedAll, Mark.plain,
    unbroken_empty]

namespace Stream

variable {s rest : Stream} {text : String}

theorem plain_fresh : fresh.Plain := by
  simp [Plain, fresh]

theorem Plain.write (h : s.Plain) (htext : Unbroken text) : (s.write text).Plain := by
  unfold Stream.write
  split
  · exact h
  · intro t ht
    rcases List.mem_append.mp ht with ht | ht
    · exact h t ht
    · exact List.mem_singleton.mp ht ▸ htext

-- A text that is read was written before.
theorem Plain.read? (h : s.Plain) {message : Option String}
    (hread : s.read? = some (message, rest)) : (∀ t ∈ message, Unbroken t) ∧ rest.Plain := by
  unfold Stream.read? at hread
  split at hread
  · next t texts htexts =>
    cases hread
    unfold Stream.Plain at h
    rw [htexts] at h
    obtain ⟨ht, hrest⟩ := List.forall_mem_cons.mp h
    exact ⟨by simpa using ht, hrest⟩
  · split at hread
    · cases hread
      exact ⟨by simp, h⟩
    · cases hread

end Stream

namespace Connection

variable {c rest : Connection} {message : Option String}

theorem plain_fresh (server : Nat) : (fresh server).Plain :=
  ⟨Stream.plain_fresh, Stream.plain_fresh⟩

theorem Plain.fetch? (h : c.Plain) (hread : c.fetch? = some (message, rest)) :
    (∀ t ∈ message, Unbroken t) ∧ rest.Plain := by
  obtain ⟨⟨m, s⟩, hs, hrest⟩ := Option.map_eq_some_iff.mp hread
  cases hrest
  obtain ⟨hm, hs⟩ := h.requests.read? hs
  exact ⟨hm, hs, h.replies⟩

theorem Plain.collect? (h : c.Plain) (hread : c.collect? = some (message, rest)) :
    (∀ t ∈ message, Unbroken t) ∧ rest.Plain := by
  obtain ⟨⟨m, s⟩, hs, hrest⟩ := Option.map_eq_some_iff.mp hread
  cases hrest
  obtain ⟨hm, hs⟩ := h.replies.read? hs
  exact ⟨hm, h.requests, hs⟩

end Connection

section Array

variable {α : Type} {P : α → Prop} {xs : Array α}

theorem forall_mem_push (h : ∀ x ∈ xs, P x) {a : α} (ha : P a) : ∀ x ∈ xs.push a, P x := by
  intro x hx
  rcases Array.mem_push.mp hx with hx | rfl
  · exact h x hx
  · exact ha

theorem forall_mem_modify (h : ∀ x ∈ xs, P x) {f : α → α} (hf : ∀ x, P x → P (f x)) (i : Nat) :
    ∀ x ∈ xs.modify i f, P x := by
  intro x hx
  obtain ⟨j, hj, rfl⟩ := Array.mem_iff_getElem.mp hx
  rw [Array.getElem_modify]
  split
  · exact hf _ (h _ (Array.getElem_mem _))
  · exact h _ (Array.getElem_mem _)

theorem forall_mem_set! (h : ∀ x ∈ xs, P x) {a : α} (ha : P a) (i : Nat) :
    ∀ x ∈ xs.set! i a, P x := by
  intro x hx
  rcases Array.mem_or_eq_of_mem_setIfInBounds hx with hx | rfl
  · exact h x hx
  · exact ha

theorem getD_of_forall_mem (h : ∀ x ∈ xs, P x) {d : α} (hd : P d) (i : Nat) : P (xs.getD i d) := by
  unfold Array.getD
  split
  · exact h _ (Array.getElem_mem _)
  · exact hd

end Array

namespace Heap

variable {h : Heap}

theorem plain_empty : empty.Plain := by
  constructor <;> simp [empty]

theorem listText_unbroken {items : List String} (hitems : ∀ s ∈ items, Unbroken s) :
    Unbroken (listText items) := by
  have hcomma : Unbroken ", " := by decide
  simp +decide [listText, unbroken_intercalate hcomma hitems]

theorem dictText_unbroken {entries : List (String × String)}
    (hentries : ∀ e ∈ entries, Unbroken e.1 ∧ Unbroken e.2) : Unbroken (dictText entries) := by
  have htexts : ∀ s ∈ entries.map fun e => "\"" ++ e.1 ++ "\": " ++ e.2, Unbroken s := by
    intro s hs
    obtain ⟨e, he, rfl⟩ := List.mem_map.mp hs
    simp +decide [hentries e he]
  have hcomma : Unbroken ", " := by decide
  simp +decide [dictText, unbroken_intercalate hcomma htexts]

namespace Plain

theorem list (hh : h.Plain) (ref : Nat) : ∀ v ∈ h.list ref, v.Plain :=
  getD_of_forall_mem hh.lists (by simp) ref

theorem dict (hh : h.Plain) (ref : Nat) : (h.dict ref).Plain :=
  getD_of_forall_mem hh.dicts Table.plain_empty ref

theorem client (hh : h.Plain) (ref : Nat) : Unbroken (h.client ref).endpoint.host :=
  getD_of_forall_mem hh.clients unbroken_empty ref

theorem server (hh : h.Plain) (ref : Nat) : (h.server ref).Plain :=
  getD_of_forall_mem hh.servers ⟨unbroken_empty, unbroken_empty, idle_plain⟩ ref

theorem place (hh : h.Plain) {d : Draft} (hd : d.Plain) :
    (h.place d).2.Plain ∧ (h.place d).1.Plain := by
  cases d with
  | value v => exact ⟨hh, hd⟩
  | list items => exact ⟨{ hh with lists := forall_mem_push hh.lists hd }, trivial⟩
  | dict entries => exact ⟨{ hh with dicts := forall_mem_push hh.dicts hd }, trivial⟩

theorem addClient (hh : h.Plain) {e : Endpoint} (he : Unbroken e.host) :
    (h.addClient e).2.Plain :=
  { hh with clients := forall_mem_push hh.clients he }

theorem addServer (hh : h.Plain) {s : Server} (hs : s.Plain) : (h.addServer s).2.Plain :=
  { hh with servers := forall_mem_push hh.servers hs }

theorem connection (hh : h.Plain) (k : Nat) : (h.connection k).Plain :=
  getD_of_forall_mem hh.connections (Connection.plain_fresh 0) k

theorem onClient (hh : h.Plain) (ref : Nat) {f : Client → Client}
    (hf : ∀ c, (f c).endpoint = c.endpoint) : (h.onClient ref f).Plain :=
  { hh with clients := forall_mem_modify hh.clients (fun c hc => (hf c).symm ▸ hc) ref }

theorem onConnection (hh : h.Plain) (k : Nat) {f : Connection → Connection}
    (hf : ∀ c : Connection, c.Plain → (f c).Plain) : (h.onConnection k f).Plain :=
  { hh with connections := forall_mem_modify hh.connections hf k }

theorem hold (hh : h.Plain) (ref : Nat) (held : Bool) : (h.hold ref held).Plain :=
  hh.onClient ref fun _ => rfl

theorem dial (hh : h.Plain) (ref server : Nat) : (h.dial ref server).Plain :=
  { hh.onClient ref (f := fun c => { c with connection := some h.connections.size })
      fun _ => rfl with
    connections := forall_mem_push hh.connections (Connection.plain_fresh server) }

theorem leave (hh : h.Plain) (ref : Nat) : (h.leave ref).Plain := by
  unfold Heap.leave
  refine onClient ?_ ref fun _ => rfl
  cases (h.client ref).connection with
  | none => exact hh
  | some k => exact hh.onConnection k fun _ hc => ⟨hc.requests, hc.replies⟩

theorem setList (hh : h.Plain) (ref : Nat) {items : Array Value} (hitems : ∀ v ∈ items, v.Plain) :
    (h.setList ref items).Plain :=
  { hh with lists := forall_mem_set! hh.lists hitems ref }

theorem append (hh : h.Plain) (ref : Nat) {v : Value} (hv : v.Plain) : (h.append ref v).Plain :=
  { hh with lists := forall_mem_modify hh.lists (fun _ hs => forall_mem_push hs hv) ref }

theorem put (hh : h.Plain) {v : Value} (hv : v.Plain) {slot : Slot}
    (hslot : ∀ ref key, slot = .entry ref key → Unbroken key) : (h.put v slot).Plain := by
  cases slot with
  | item ref i =>
    exact { hh with lists := forall_mem_modify hh.lists (fun _ hs => forall_mem_set! hs hv i) ref }
  | entry ref key =>
    have hkey := hslot ref key rfl
    exact { hh with dicts := forall_mem_modify hh.dicts (fun _ ht => ht.insert hkey hv) ref }

theorem endpoint_text {e : Endpoint} (he : Unbroken e.host) : Unbroken e.text := by
  simp +decide [Endpoint.text, he]

theorem clientText (hh : h.Plain) (ref : Nat) : Unbroken (h.clientText ref) := by
  unfold Heap.clientText
  split
  · next c hc =>
    have hhost := endpoint_text (hh.clients c (Array.mem_of_getElem? hc))
    simp +decide [hhost]
  · decide

theorem serverText (hh : h.Plain) (ref : Nat) : Unbroken (h.serverText ref) := by
  unfold Heap.serverText
  split
  · next s hs =>
    have hserver := hh.servers s (Array.mem_of_getElem? hs)
    simp +decide [hserver.description, endpoint_text hserver.host]
  · decide

theorem scalarText (hh : h.Plain) (quoted : Bool) {v : Value} (hv : v.Plain) :
    Unbroken (h.scalarText quoted v) := by
  cases v with
  | int n => exact unbroken_int _
  | float x => exact Decimal.display_unbroken x
  | str s =>
    have hs : Unbroken s := hv
    cases quoted <;> simp +decide [Heap.scalarText, hs]
  | bool b => cases b <;> simp +decide [Heap.scalarText]
  | void | list | dict => simp +decide [Heap.scalarText]
  | client ref => exact hh.clientText ref
  | server ref => exact hh.serverText ref

-- A collection is shown on one line, however deep it is.
theorem displayTo (hh : h.Plain) (depth : Nat) (quoted : Bool) {v : Value} (hv : v.Plain) :
    Unbroken (h.displayTo depth quoted v) := by
  induction depth generalizing quoted v with
  | zero =>
    rw [Heap.displayTo]
    · exact hh.scalarText quoted hv
    · rintro _ _ ⟨⟩
    · rintro _ _ ⟨⟩
  | succ depth ih =>
    cases v with
    | list ref =>
      rw [Heap.displayTo]
      refine listText_unbroken fun text htext => ?_
      obtain ⟨v, hv, rfl⟩ := List.mem_map.mp htext
      exact ih true (hh.list ref v (Array.mem_toList_iff.mp hv))
    | dict ref =>
      rw [Heap.displayTo]
      refine dictText_unbroken fun entry hentry => ?_
      obtain ⟨e, he, rfl⟩ := List.mem_map.mp hentry
      obtain ⟨hkey, hvalue⟩ := hh.dict ref e he
      exact ⟨hkey, ih true hvalue⟩
    | _ => exact hh.scalarText quoted hv

theorem display (hh : h.Plain) {v : Value} (hv : v.Plain) : Unbroken (h.display v) :=
  hh.displayTo _ _ hv

end Plain

end Heap

namespace Frames

-- What a frame binds after a step, it has bound before, unless the step has bound it.
theorem get?_bindings_child {fs : Frames} {env i : Nat} {name : String} {v : Value}
    (h : ((fs.child env).bindings i).get? name = some v) : (fs.bindings i).get? name = some v := by
  rcases Nat.lt_trichotomy i fs.size with hlt | rfl | hgt
  · rwa [bindings_child_of_lt fs env hlt] at h
  · rw [bindings_child_self] at h
    cases h
  · rw [bindings_of_size_le _ (by rw [size_child]; exact hgt)] at h
    cases h

theorem get?_bindings_release {fs : Frames} {n i : Nat} {name : String} {v : Value}
    (h : ((fs.release n).bindings i).get? name = some v) : (fs.bindings i).get? name = some v := by
  by_cases hlt : i < n
  · rwa [bindings, all_release fs hlt, ← bindings] at h
  · have hsize : (fs.release n).size ≤ i := by
      rw [size, release, Array.size_shrink]
      omega
    rw [bindings_of_size_le _ hsize] at h
    cases h

theorem get?_bindings_define {fs : Frames} {env i : Nat} {name x : String} {u v : Value}
    (h : ((fs.define env name u).bindings i).get? x = some v) :
    v = u ∨ (fs.bindings i).get? x = some v := by
  by_cases hi : i = env
  · subst hi
    by_cases hlt : i < fs.size
    · rw [bindings_define_self fs name u hlt, Table.get?_insert] at h
      split at h
      · cases h
        exact .inl rfl
      · exact .inr h
    · rw [bindings_of_size_le _ (by rw [size_define]; exact Nat.le_of_not_lt hlt)] at h
      cases h
  · rw [bindings_define_of_ne fs name u hi] at h
    exact .inr h

end Frames

namespace World.Plain

variable {w : World}

theorem opened (hw : w.Plain) (env : Nat) : (w.opened env).Plain :=
  { hw with frames := fun i name v h => hw.frames i name v (Frames.get?_bindings_child h) }

theorem closed (hw : w.Plain) (n : Nat) : (w.closed n).Plain :=
  { hw with frames := fun i name v h => hw.frames i name v (Frames.get?_bindings_release h) }

theorem defined (hw : w.Plain) (env : Nat) (name : String) {v : Value} (hv : v.Plain) :
    (w.defined env name v).Plain := by
  refine { hw with frames := fun i x u h => ?_ }
  rcases Frames.get?_bindings_define h with rfl | h
  · exact hv
  · exact hw.frames i x u h

theorem learned (hw : w.Plain) {f : Function} (hf : f.Plain) : (w.learned f).Plain := by
  refine { hw with functions := fun name g h => ?_ }
  rw [World.learned, Table.get?_insert] at h
  split at h
  · cases h
    exact hf
  · exact hw.functions name g h

theorem get? (hw : w.Plain) {env : Nat} {name : String} {v : Value}
    (h : w.frames.get? env name = some v) : v.Plain := by
  unfold Frames.get? at h
  split at h
  · exact hw.frames _ _ _ h
  · cases h

end World.Plain

-- A computation on values that gives something with a property, or fails with a plain message.
structure Plainly {α : Type} (x : Except Stop α) (Q : α → Prop) : Prop where
  ok : ∀ {a}, x = .ok a → Q a
  error : ∀ {s}, x = .error s → s.Plain

namespace Plainly

variable {α β : Type} {Q : α → Prop} {R : β → Prop}

theorem of_ok {a : α} (h : Q a) : Plainly (.ok a) Q where
  ok ha := by
    cases ha
    exact h
  error hs := by cases hs

theorem of_pure {a : α} (h : Q a) : Plainly (pure a : Except Stop α) Q :=
  of_ok h

theorem of_refuse {cause : RuntimeFault} (h : ∀ s ∈ cause.quoted, Unbroken s) :
    Plainly (refuse cause : Except Stop α) Q where
  ok ha := by cases ha
  error hs := by
    cases hs
    exact h

theorem bind {x : Except Stop α} {f : α → Except Stop β} (hx : Plainly x Q)
    (hf : ∀ a, Q a → Plainly (f a) R) : Plainly (x >>= f) R := by
  cases x with
  | ok a => exact hf a (hx.ok rfl)
  | error s =>
    refine ⟨fun h => ?_, fun h => ?_⟩
    · cases h
    · cases h
      exact hx.error rfl

theorem map {x : Except Stop α} {f : α → β} (hx : Plainly x fun a => R (f a)) :
    Plainly (f <$> x) R := by
  cases x with
  | ok a => exact of_ok (hx.ok rfl)
  | error s =>
    refine ⟨fun h => ?_, fun h => ?_⟩
    · cases h
    · cases h
      exact hx.error rfl

theorem of_ite {p : Prop} [Decidable p] {x y : Except Stop α} (hx : Plainly x Q)
    (hy : Plainly y Q) : Plainly (if p then x else y) Q := by
  split
  · exact hx
  · exact hy

end Plainly

namespace Value

end Value

end Parlance
