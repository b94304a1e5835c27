import Mathlib.Order.Defs.Unbundled
import Mathlib.Tactic.TypeStar

/-!
# Programs with state and exceptions

A program of type `EStateM ε σ α` ends by returning or by raising, and what it changed before it raised stays changed.
`Ends x s post raised` is its weakest precondition; the equivalences below push it through a program, so that
`simp` runs one symbolically.  `Moves R x` says that `x` returns and moves along the relation `R`, the shape of a frame
condition.
-/

namespace Imperative

universe u

variable {ε σ α β : Type u}

/-! ### Running a program -/

section running

variable {s : σ}

@[simp] theorem pure_apply (a : α) : (pure a : EStateM ε σ α) s = .ok a s := rfl

@[simp] theorem throw_apply (e : ε) : (throw e : EStateM ε σ α) s = .error e s := rfl

@[simp] theorem get_apply : (get : EStateM ε σ σ) s = .ok s s := rfl

@[simp] theorem set_apply (t : σ) : (set t : EStateM ε σ PUnit) s = .ok ⟨⟩ t := rfl

@[simp] theorem modify_apply (f : σ → σ) : (modify f : EStateM ε σ PUnit) s = .ok ⟨⟩ (f s) := rfl

theorem bind_apply (x : EStateM ε σ α) (f : α → EStateM ε σ β) :
    (x >>= f) s = match x s with
      | .ok a s' => f a s'
      | .error e s' => .error e s' := rfl

theorem bind_of_ok {x : EStateM ε σ α} {f : α → EStateM ε σ β} {a : α} {s' : σ} (h : x s = .ok a s') :
    (x >>= f) s = f a s' := by
  rw [bind_apply, h]

theorem bind_of_error {x : EStateM ε σ α} {f : α → EStateM ε σ β} {e : ε} {s' : σ} (h : x s = .error e s') :
    (x >>= f) s = .error e s' := by
  rw [bind_apply, h]

end running

/-! ### Weakest preconditions -/

/-- From `s`, `x` returns as `post` says or raises as `raised` says. -/
def Ends (x : EStateM ε σ α) (s : σ) (post : α → σ → Prop) (raised : ε → σ → Prop) : Prop :=
  match x s with
  | .ok a s' => post a s'
  | .error e s' => raised e s'

/-- The state a run leaves behind. -/
def final : EStateM.Result ε σ α → σ
  | .ok _ s => s
  | .error _ s => s

section rules

variable {s : σ} {post : α → σ → Prop} {raised : ε → σ → Prop}

theorem ends_of_ok {x : EStateM ε σ α} {a : α} {s' : σ} (h : Ends x s post raised) (hx : x s = .ok a s') :
    post a s' := by
  unfold Ends at h
  rwa [hx] at h

theorem ends_of_error {x : EStateM ε σ α} {e : ε} {s' : σ} (h : Ends x s post raised) (hx : x s = .error e s') :
    raised e s' := by
  unfold Ends at h
  rwa [hx] at h

theorem ends_final {x : EStateM ε σ α} {Q : σ → Prop} : Ends x s (fun _ => Q) (fun _ => Q) ↔ Q (final (x s)) := by
  unfold Ends final
  cases x s <;> rfl

theorem Ends.of_eq_ok {x : EStateM ε σ α} {a : α} {s' : σ} (hx : x s = .ok a s') (h : post a s') :
    Ends x s post raised := by
  unfold Ends
  rwa [hx]

theorem Ends.of_eq_error {x : EStateM ε σ α} {e : ε} {s' : σ} (hx : x s = .error e s') (h : raised e s') :
    Ends x s post raised := by
  unfold Ends
  rwa [hx]

theorem Ends.mono {x : EStateM ε σ α} {post' : α → σ → Prop} {raised' : ε → σ → Prop} (h : Ends x s post raised)
    (hpost : ∀ a s', post a s' → post' a s') (hraised : ∀ e s', raised e s' → raised' e s') :
    Ends x s post' raised' := by
  unfold Ends at *
  cases hx : x s with
  | ok a s' => rw [hx] at h; exact hpost a s' h
  | error e s' => rw [hx] at h; exact hraised e s' h

@[simp] theorem ends_pure {a : α} : Ends (pure a) s post raised ↔ post a s := Iff.rfl

@[simp] theorem ends_throw {e : ε} : Ends (throw e : EStateM ε σ α) s post raised ↔ raised e s := Iff.rfl

@[simp] theorem ends_get {post : σ → σ → Prop} : Ends (get : EStateM ε σ σ) s post raised ↔ post s s := Iff.rfl

@[simp] theorem ends_set {post : PUnit → σ → Prop} {t : σ} :
    Ends (set t : EStateM ε σ PUnit) s post raised ↔ post ⟨⟩ t := Iff.rfl

@[simp] theorem ends_modify {post : PUnit → σ → Prop} {f : σ → σ} :
    Ends (modify f : EStateM ε σ PUnit) s post raised ↔ post ⟨⟩ (f s) := Iff.rfl

@[simp] theorem ends_bind {x : EStateM ε σ α} {f : α → EStateM ε σ β} {post : β → σ → Prop} :
    Ends (x >>= f) s post raised ↔ Ends x s (fun a s' => Ends (f a) s' post raised) raised := by
  change (match EStateM.bind x f s with | .ok a s' => post a s' | .error e s' => raised e s') ↔ _
  unfold EStateM.bind Ends
  cases x s <;> rfl

@[simp] theorem ends_tryCatch {x : EStateM ε σ α} {handler : ε → EStateM ε σ α} :
    Ends (tryCatch x handler) s post raised ↔ Ends x s post (fun e s' => Ends (handler e) s' post raised) := by
  change (match EStateM.tryCatch x handler s with | .ok a s' => post a s' | .error e s' => raised e s') ↔ _
  unfold EStateM.tryCatch Ends
  cases x s <;> rfl

end rules

/-- `x` raises nothing, and moves along `R`. -/
def Moves (R : σ → σ → Prop) (x : EStateM ε σ α) : Prop :=
  ∀ s, Ends x s (fun _ => R s) (fun _ _ => False)

section moves

variable {R : σ → σ → Prop}

theorem Moves.ends {x : EStateM ε σ α} (h : Moves R x) {s : σ} {post : α → σ → Prop} {raised : ε → σ → Prop}
    (hpost : ∀ a s', R s s' → post a s') : Ends x s post raised :=
  (h s).mono hpost (fun _ _ h => h.elim)

theorem moves_pure [Std.Refl R] (a : α) : Moves R (pure a : EStateM ε σ α) := fun s => refl s

theorem moves_bind [IsTrans σ R] {x : EStateM ε σ α} {f : α → EStateM ε σ β} (hx : Moves R x)
    (hf : ∀ a, Moves R (f a)) : Moves R (x >>= f) := by
  intro s
  rw [ends_bind]
  refine hx.ends ?_
  intro a s' hs'
  exact (hf a).ends (fun _ _ h => trans_of R hs' h)

/-- A loop over a list moves along `R` when each of its iterations does. -/
theorem moves_forIn [Std.Refl R] [IsTrans σ R] {γ : Type u} {body : γ → EStateM ε σ PUnit} (h : ∀ c, Moves R (body c))
    (cs : List γ) : Moves R (forIn cs PUnit.unit fun c _ => do body c; pure (.yield PUnit.unit)) := by
  induction cs with
  | nil => exact moves_pure _
  | cons c cs ih =>
    rw [List.forIn_cons]
    refine moves_bind (moves_bind (h c) (fun _ => moves_pure _)) ?_
    intro r
    cases r with
    | done _ => exact moves_pure _
    | yield _ => exact ih

end moves

/-- `x` moves along `R`, whether it returns or raises. -/
def Along (R : σ → σ → Prop) (x : EStateM ε σ α) : Prop :=
  ∀ s, Ends x s (fun _ => R s) (fun _ => R s)

section along

variable {R : σ → σ → Prop}

theorem Along.of_ok {x : EStateM ε σ α} (h : Along R x) {s s' : σ} {a : α} (hx : x s = .ok a s') : R s s' := by
  have hs := h s
  unfold Ends at hs
  rwa [hx] at hs

theorem Along.of_error {x : EStateM ε σ α} (h : Along R x) {s s' : σ} {e : ε} (hx : x s = .error e s') : R s s' := by
  have hs := h s
  unfold Ends at hs
  rwa [hx] at hs

theorem along_pure [Std.Refl R] (a : α) : Along R (pure a : EStateM ε σ α) := fun s => refl s

theorem along_throw [Std.Refl R] (e : ε) : Along R (throw e : EStateM ε σ α) := fun s => refl s

theorem along_get [Std.Refl R] : Along R (get : EStateM ε σ σ) := fun s => refl s

theorem along_modify {f : σ → σ} (h : ∀ s, R s (f s)) : Along R (modify f : EStateM ε σ PUnit) := h

/-- A step from one state, and a program that moves along `R` after it. -/
theorem Ends.bind_along [IsTrans σ R] {x : EStateM ε σ α} {f : α → EStateM ε σ β} {s : σ}
    (hx : Ends x s (fun _ => R s) (fun _ => R s)) (hf : ∀ a, Along R (f a)) :
    Ends (x >>= f) s (fun _ => R s) (fun _ => R s) := by
  rw [ends_bind]
  refine hx.mono ?_ (fun _ _ h => h)
  intro a s' hs'
  exact (hf a s').mono (fun _ _ h => trans_of R hs' h) (fun _ _ h => trans_of R hs' h)

theorem along_bind [IsTrans σ R] {x : EStateM ε σ α} {f : α → EStateM ε σ β} (hx : Along R x)
    (hf : ∀ a, Along R (f a)) : Along R (x >>= f) :=
  fun s => (hx s).bind_along hf

end along

theorem ok_bind {ε : Type*} {α β : Type u} (a : α) (f : α → Except ε β) : ((.ok a : Except ε α) >>= f) = f a := rfl

theorem error_bind {ε : Type*} {α β : Type u} (e : ε) (f : α → Except ε β) :
    ((.error e : Except ε α) >>= f) = .error e := rfl

theorem bind_eq_ok {ε : Type*} {α β : Type u} {x : Except ε α} {f : α → Except ε β} {b : β} :
    (x >>= f) = .ok b ↔ ∃ a, x = .ok a ∧ f a = .ok b := by
  cases x with
  | error e => exact ⟨fun h => (nomatch h), fun ⟨_, h, _⟩ => (nomatch h)⟩
  | ok a =>
    constructor
    · intro h
      exact ⟨a, rfl, h⟩
    · rintro ⟨_, ha, h⟩
      cases ha
      exact h

/-- Every exception `x` raises satisfies `p`. -/
def RaisesOnly {ε α : Type*} (p : ε → Prop) (x : Except ε α) : Prop :=
  ∀ e, x = .error e → p e

section raises

variable {ε α β : Type*} {p q : ε → Prop}

@[simp] theorem raisesOnly_ok (a : α) : RaisesOnly p (.ok a : Except ε α) := by
  intro e h
  cases h

@[simp] theorem raisesOnly_error {e : ε} : RaisesOnly p (.error e : Except ε α) ↔ p e := by
  simp [RaisesOnly]

theorem RaisesOnly.mono {x : Except ε α} (h : RaisesOnly p x) (hpq : ∀ e, p e → q e) : RaisesOnly q x :=
  fun e he => hpq e (h e he)

end raises

theorem raisesOnly_bind {ε : Type*} {α β : Type u} {p : ε → Prop} {x : Except ε α} {f : α → Except ε β}
    (hx : RaisesOnly p x) (hf : ∀ a, x = .ok a → RaisesOnly p (f a)) : RaisesOnly p (x >>= f) := by
  cases hxe : x with
  | error e =>
    intro e' h
    cases h
    exact hx e hxe
  | ok a => exact hf a hxe

/-- The same, as an equivalence. -/
theorem raisesOnly_bind_iff {ε : Type*} {α β : Type u} {p : ε → Prop} {x : Except ε α} {f : α → Except ε β} :
    RaisesOnly p (x >>= f) ↔ RaisesOnly p x ∧ ∀ a, x = .ok a → RaisesOnly p (f a) := by
  refine ⟨?_, fun ⟨hx, hf⟩ => raisesOnly_bind hx hf⟩
  intro h
  constructor
  · rintro e rfl
    exact h e rfl
  · rintro a rfl
    exact h

/-! ### Observing a part of the state -/

/-- What shows of a run through `f`: how it ended, and the part of the state it left behind. -/
def observe {τ : Type*} (f : σ → τ) : EStateM.Result ε σ α → Except ε α × τ
  | .ok a s => (.ok a, f s)
  | .error e s => (.error e, f s)

/-- Where two states look the same through `f`, so do the runs of `x`. -/
def ReadsOnly {τ : Type*} (f : σ → τ) (x : EStateM ε σ α) : Prop :=
  ∀ s t, f s = f t → observe f (x s) = observe f (x t)

section observing

variable {τ : Type*} {f : σ → τ}

theorem observe_snd (r : EStateM.Result ε σ α) : (observe f r).2 = f (final r) := by
  cases r <;> rfl

theorem observe_eq_ok {r : EStateM.Result ε σ α} {a : α} {y : τ} :
    observe f r = (.ok a, y) ↔ ∃ s, r = .ok a s ∧ f s = y := by
  cases r <;> simp [observe, and_assoc]

theorem observe_eq_error {r : EStateM.Result ε σ α} {e : ε} {y : τ} :
    observe f r = (.error e, y) ↔ ∃ s, r = .error e s ∧ f s = y := by
  cases r <;> simp [observe, and_assoc]

theorem readsOnly_pure (a : α) : ReadsOnly f (pure a : EStateM ε σ α) := by
  intro s t hst
  simp only [pure_apply, observe, hst]

theorem readsOnly_throw (e : ε) : ReadsOnly f (throw e : EStateM ε σ α) := by
  intro s t hst
  simp only [throw_apply, observe, hst]

/-- Two runs that look the same, continued by programs that read only what shows. -/
theorem observe_bind {x : EStateM ε σ α} {g : α → EStateM ε σ β} (hg : ∀ a, ReadsOnly f (g a)) {s t : σ}
    (h : observe f (x s) = observe f (x t)) : observe f ((x >>= g) s) = observe f ((x >>= g) t) := by
  cases ht : x t with
  | ok a t' =>
    rw [ht] at h
    obtain ⟨s', hs, hf⟩ := observe_eq_ok.1 h
    rw [bind_of_ok hs, bind_of_ok ht]
    exact hg a s' t' hf
  | error e t' =>
    rw [ht] at h
    obtain ⟨s', hs, hf⟩ := observe_eq_error.1 h
    rw [bind_of_error hs, bind_of_error ht]
    simp only [observe, hf]

theorem readsOnly_bind {x : EStateM ε σ α} {g : α → EStateM ε σ β} (hx : ReadsOnly f x)
    (hg : ∀ a, ReadsOnly f (g a)) : ReadsOnly f (x >>= g) :=
  fun s t hst => observe_bind hg (hx s t hst)

/-- The state is read through `f` alone. -/
theorem readsOnly_get {g : σ → EStateM ε σ β} (h : ∀ s t, f s = f t → g s = g t) (hg : ∀ s, ReadsOnly f (g s)) :
    ReadsOnly f (get >>= g) := by
  intro s t hst
  rw [bind_of_ok get_apply, bind_of_ok get_apply, h s t hst]
  exact hg t s t hst

/-- What `f` does not show may be read and changed. -/
theorem readsOnly_of_keeps {x : EStateM ε σ α} {a : α} (h : ∀ s, observe f (x s) = (.ok a, f s)) : ReadsOnly f x := by
  intro s t hst
  rw [h s, h t, hst]

theorem readsOnly_modify {m : σ → σ} (h : ∀ s t, f s = f t → f (m s) = f (m t)) :
    ReadsOnly f (modify m : EStateM ε σ PUnit) := by
  intro s t hst
  simp only [modify_apply, observe, h s t hst]

end observing

end Imperative
