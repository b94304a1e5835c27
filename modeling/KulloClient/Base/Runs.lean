import Mathlib.Logic.Relation

/-!
# Runs of a transition system

A transition system is a relation between a state, the action taken and the next state.  `Reaches` is a run of any
length whose steps are all allowed; an invariant of the allowed steps holds in every state of the run.
-/

namespace Transition

variable {σ α : Type*}

/-- A step whose action is allowed in its state. -/
def Allowed (step : σ → α → σ → Prop) (ok : σ → α → Prop) (s s' : σ) : Prop := ∃ a, ok s a ∧ step s a s'

/-- A run of allowed steps. -/
def Reaches (step : σ → α → σ → Prop) (ok : σ → α → Prop) : σ → σ → Prop := Relation.ReflTransGen (Allowed step ok)

variable {step : σ → α → σ → Prop} {ok ok' : σ → α → Prop} {s s' s'' : σ}

theorem Reaches.refl : Reaches step ok s s := Relation.ReflTransGen.refl

theorem Reaches.trans (h : Reaches step ok s s') (h' : Reaches step ok s' s'') : Reaches step ok s s'' :=
  Relation.ReflTransGen.trans h h'

theorem Reaches.snoc {a : α} (h : Reaches step ok s s') (hok : ok s' a) (hstep : step s' a s'') :
    Reaches step ok s s'' :=
  Relation.ReflTransGen.tail h ⟨a, hok, hstep⟩

/-- What every allowed step keeps holds in every state of a run. -/
theorem Reaches.keeps {I : σ → Prop} (hkeep : ∀ s a s', I s → ok s a → step s a s' → I s')
    (h : Reaches step ok s s') (hs : I s) : I s' := by
  induction h with
  | refl => exact hs
  | tail _ hstep ih =>
    obtain ⟨a, hok, ha⟩ := hstep
    exact hkeep _ a _ ih hok ha

theorem Reaches.mono (hok : ∀ s a, ok s a → ok' s a) (h : Reaches step ok s s') : Reaches step ok' s s' := by
  induction h with
  | refl => exact .refl
  | tail _ hstep ih =>
    obtain ⟨a, ha, hs⟩ := hstep
    exact ih.snoc (hok _ a ha) hs

end Transition
