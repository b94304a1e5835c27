import Mathlib.Data.Nat.Notation

/-!
# Loops with fuel

A loop that need not end is a function of its number of rounds, with no result when they are used up.  `Returns` says
that a loop ends: from some fuel on the result is there and does not change any more, and it is as wanted.
-/

namespace Fuel

variable {α β : Type} {run : Nat → Option α} {post : α → Prop}

def Returns (run : Nat → Option α) (post : α → Prop) : Prop := ∃ a, post a ∧ ∃ n, ∀ fuel ≥ n, run fuel = some a

theorem returns_some {a : α} (h : post a) : Returns (fun _ => some a) post := ⟨a, h, 0, fun _ _ => rfl⟩

/-- The first round of a loop. -/
theorem Returns.succ (h : Returns (fun fuel => run (fuel + 1)) post) : Returns run post := by
  obtain ⟨a, ha, n, hn⟩ := h
  refine ⟨a, ha, n + 1, fun fuel hfuel => ?_⟩
  obtain ⟨k, rfl⟩ : ∃ k, fuel = k + 1 := ⟨fuel - 1, by omega⟩
  exact hn k (by omega)

theorem Returns.mono {post' : α → Prop} (h : Returns run post) (himp : ∀ a, post a → post' a) : Returns run post' := by
  obtain ⟨a, ha, hrun⟩ := h
  exact ⟨a, himp a ha, hrun⟩

theorem Returns.map {f : α → β} {post' : β → Prop} (h : Returns run post) (himp : ∀ a, post a → post' (f a)) :
    Returns (fun fuel => (run fuel).map f) post' := by
  obtain ⟨a, ha, n, hn⟩ := h
  refine ⟨f a, himp a ha, n, fun fuel hfuel => ?_⟩
  dsimp only
  rw [hn fuel hfuel, Option.map_some]

theorem Returns.bind {k : α → Nat → Option β} {post' : β → Prop} (h : Returns run post)
    (hk : ∀ a, post a → Returns (k a) post') : Returns (fun fuel => (run fuel).bind fun a => k a fuel) post' := by
  obtain ⟨a, ha, n, hn⟩ := h
  obtain ⟨b, hb, m, hm⟩ := hk a ha
  refine ⟨b, hb, max n m, fun fuel hfuel => ?_⟩
  dsimp only
  rw [hn fuel (Nat.le_trans (Nat.le_max_left n m) hfuel), Option.bind_some]
  exact hm fuel (Nat.le_trans (Nat.le_max_right n m) hfuel)

/-- Termination, and what holds of every result. -/
theorem Returns.of_all (h : Returns run fun _ => True) (hpost : ∀ fuel a, run fuel = some a → post a) :
    Returns run post := by
  obtain ⟨a, -, n, hn⟩ := h
  exact ⟨a, hpost n a (hn n (Nat.le_refl n)), n, hn⟩

/-- There is only one result. -/
theorem Returns.and {post' : α → Prop} (h : Returns run post) (h' : Returns run post') :
    Returns run fun a => post a ∧ post' a := by
  obtain ⟨a, ha, n, hn⟩ := h
  obtain ⟨b, hb, m, hm⟩ := h'
  have hab : some a = some b := (hn _ (Nat.le_max_left n m)).symm.trans (hm _ (Nat.le_max_right n m))
  cases hab
  exact ⟨a, ⟨ha, hb⟩, n, hn⟩

end Fuel
