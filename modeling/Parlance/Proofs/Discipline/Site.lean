import Parlance.Proofs.Discipline

namespace Parlance

-- A point of a program: whether it is outside of all blocks, and some names.
structure Site where
  top : Bool
  names : String → Prop

namespace Site

-- The globals can be seen from a frame, and it is theirs if the site is outside of all blocks.
structure At (c : Site) (env : Nat) (w : World) : Prop where
  rooted : globals ∈ w.frames.chain env
  top : c.top = true → env = globals

end Site

namespace World

variable {env : Nat} {w t : World}

theorem rooted_opened (h : globals ∈ w.frames.chain env) :
    globals ∈ (w.opened env).frames.chain w.frames.size := by
  rw [opened, Frames.chain_child_self w.frames (Frames.lt_size_of_mem_chain h)]
  exact List.mem_cons_of_mem _ h

theorem Moves.rooted {new : String → Prop} {i : Nat} (hm : w.Moves i new t)
    (h : globals ∈ w.frames.chain env) : globals ∈ t.frames.chain env :=
  hm.frames.chain env ▸ h

-- The globals are the first frame, so that there is one if there are any others.
theorem globals_lt_size (h : globals ∈ w.frames.chain env) : globals < w.frames.size :=
  Nat.lt_of_le_of_lt (Nat.zero_le env) (Frames.lt_size_of_mem_chain h)

end World

namespace Site.At

variable {c : Site} {env : Nat} {w t : World}

theorem lt_size (h : c.At env w) : env < w.frames.size :=
  Frames.lt_size_of_mem_chain h.rooted

theorem globals_lt_size (h : c.At env w) : globals < w.frames.size :=
  World.globals_lt_size h.rooted

theorem moves {new : String → Prop} (h : c.At env w) (hm : w.Moves env new t) : c.At env t :=
  ⟨hm.rooted h.rooted, h.top⟩

-- What is further inside is not outside of all blocks.
theorem inner (h : c.At env w) (names : String → Prop) : Site.At ⟨false, names⟩ env w :=
  ⟨h.rooted, fun htop => by cases htop⟩

theorem opened (h : c.At env w) (names : String → Prop) :
    Site.At ⟨false, names⟩ w.frames.size (w.opened env) :=
  ⟨World.rooted_opened h.rooted, fun htop => by cases htop⟩

end Site.At

end Parlance
