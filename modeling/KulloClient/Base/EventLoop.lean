import KulloClient.Base.Runs
import Mathlib.Data.Multiset.AddSub

/-!
# Threads with an event queue

Several threads work on shared data.  An operation changes the data in one step and leaves the events it announces in
the outbox of its thread; the thread puts them into the queue one after the other and does nothing else until they are
all there.  One of the threads takes the events out of the queue, in their order, and handles them.

`pending` are the events on their way.  An invariant of the data and the pending events is proved once for the
operations and once for the handlers, and then holds in every run (`Reaches.keeps`).
-/

namespace Transition

/-- The operations and the handlers of a system of threads. -/
structure EventLoop (τ μ ε σ : Type*) where
  /-- The thread that handles the events. -/
  main : τ
  thread : μ → τ
  /-- `none` where an operation cannot be performed. -/
  perform : μ → σ → Option (σ × List ε)
  handle : ε → σ → σ × List ε

namespace EventLoop

variable {τ μ ε σ : Type*}

structure State (τ ε σ : Type*) where
  data : σ
  queue : List ε := []
  outbox : List (τ × ε) := []
  deriving DecidableEq

inductive Action (τ μ : Type*)
  | perform (op : μ)
  | send (t : τ)
  | handle
  deriving DecidableEq

/-- The events on their way. -/
def State.pending (s : State τ ε σ) : Multiset ε := ↑s.queue + ↑(s.outbox.map Prod.snd)

/-- What is asked of the steps: of an operation, with the pending events, and of an event that is handled, with the
other pending events. -/
structure Guard (μ ε σ : Type*) where
  perform : μ → σ → Multiset ε → Prop
  handle : ε → σ → Multiset ε → Prop

/-- Every step is allowed. -/
def Guard.none : Guard μ ε σ := ⟨fun _ _ _ => True, fun _ _ _ => True⟩

variable [DecidableEq τ]

/-- A thread whose events are all in the queue. -/
def State.Idle (s : State τ ε σ) (t : τ) : Prop := ∀ x ∈ s.outbox, x.1 ≠ t

instance (s : State τ ε σ) (t : τ) : Decidable (s.Idle t) := inferInstanceAs (Decidable (∀ x ∈ s.outbox, x.1 ≠ t))

variable (L : EventLoop τ μ ε σ)

def step (s : State τ ε σ) : Action τ μ → Option (State τ ε σ)
  | .perform op =>
    if s.Idle (L.thread op) then
      -- the events go out one by one, in other steps
      (L.perform op s.data).map fun r =>
        { s with data := r.1, outbox := s.outbox ++ r.2.map (Prod.mk (L.thread op)) }
    else none
  | .send t =>
    (s.outbox.find? (fun x => decide (x.1 = t))).map fun x =>
      { s with queue := s.queue ++ [x.2], outbox := s.outbox.eraseP (fun x => decide (x.1 = t)) }
  | .handle =>
    if s.Idle L.main then
      match s.queue with
      | [] => none
      | e :: queue =>
        some
          { data := (L.handle e s.data).1
            queue := queue
            outbox := s.outbox ++ (L.handle e s.data).2.map (Prod.mk L.main) }
    else none

def Step (s : State τ ε σ) (a : Action τ μ) (s' : State τ ε σ) : Prop := L.step s a = some s'

omit [DecidableEq τ] in
/-- What a guard asks of an action in a state. -/
def Guard.Ok (g : Guard μ ε σ) (s : State τ ε σ) : Action τ μ → Prop
  | .perform op => g.perform op s.data s.pending
  | .send _ => True
  | .handle => ∀ e queue, s.queue = e :: queue → g.handle e s.data { s with queue := queue }.pending

/-- The steps of a list of actions, one after the other. -/
def run (s : State τ ε σ) : List (Action τ μ) → Option (State τ ε σ)
  | [] => some s
  | a :: as => (L.step s a).bind fun s' => run s' as

/-- Operations one after the other, with nothing between them, and the events they announce. -/
def performAll (d : σ) : List μ → Option (σ × List ε)
  | [] => some (d, [])
  | op :: ops => (L.perform op d).bind fun r => (performAll r.1 ops).map fun r' => (r'.1, r.2 ++ r'.2)

variable {L} {g : Guard μ ε σ} {s s' : State τ ε σ}

/-! ### One step -/

theorem step_perform {op : μ} (h : L.step s (.perform op) = some s') :
    ∃ data es, L.perform op s.data = some (data, es) ∧ s'.data = data ∧ s'.pending = s.pending + ↑es := by
  simp only [step] at h
  split at h
  · obtain ⟨⟨data, es⟩, hperform, rfl⟩ := Option.map_eq_some_iff.mp h
    refine ⟨data, es, hperform, rfl, ?_⟩
    simp [State.pending, Function.comp_def, ← Multiset.coe_add, Multiset.add_assoc]
  · cases h

theorem step_perform_outbox {op : μ} {data : σ} {es : List ε} (h : L.step s (.perform op) = some s')
    (hop : L.perform op s.data = some (data, es)) :
    s'.queue = s.queue ∧ s'.outbox = s.outbox ++ es.map (Prod.mk (L.thread op)) := by
  simp only [step] at h
  split at h
  · rw [hop, Option.map_some, Option.some.injEq] at h
    rw [← h]
    exact ⟨rfl, rfl⟩
  · cases h

/-- The first event in the outbox of a thread is put into the queue. -/
theorem step_send_outbox {t : τ} (h : L.step s (.send t) = some s') :
    ∃ e before after, (∀ x ∈ before, x.1 ≠ t) ∧ s.outbox = before ++ (t, e) :: after ∧ s'.data = s.data ∧
      s'.queue = s.queue ++ [e] ∧ s'.outbox = before ++ after := by
  obtain ⟨x, hfind, rfl⟩ := Option.map_eq_some_iff.mp h
  have hthread : decide (x.1 = t) = true := List.find?_some (p := fun x : τ × ε => decide (x.1 = t)) hfind
  obtain ⟨y, before, after, hbefore, hy, hout, herase⟩ :=
    List.exists_of_eraseP (p := fun x : τ × ε => decide (x.1 = t)) (List.mem_of_find?_eq_some hfind) hthread
  have hxy : x = y := by
    rw [hout, List.find?_append, List.find?_eq_none.mpr (by simpa using hbefore)] at hfind
    simpa [hy] using hfind.symm
  subst hxy
  have hx : x = (t, x.2) := Prod.ext (of_decide_eq_true hthread) rfl
  refine ⟨x.2, before, after, by simpa using hbefore, hx ▸ hout, rfl, rfl, herase⟩

theorem step_send {t : τ} (h : L.step s (.send t) = some s') : s'.data = s.data ∧ s'.pending = s.pending := by
  obtain ⟨e, before, after, -, hout, hdata, hqueue, hout'⟩ := step_send_outbox h
  refine ⟨hdata, ?_⟩
  simp only [State.pending, hqueue, hout, hout', Multiset.coe_add, Multiset.coe_eq_coe, List.map_append, List.map_cons,
    List.append_assoc, List.singleton_append]
  exact List.Perm.append_left _ List.perm_middle.symm

theorem step_handle (h : L.step s .handle = some s') :
    ∃ e queue, s.queue = e :: queue ∧ s'.data = (L.handle e s.data).1 ∧
      s'.pending = { s with queue := queue }.pending + ↑(L.handle e s.data).2 := by
  simp only [step] at h
  split at h
  · split at h
    · cases h
    · next e queue hqueue =>
      cases h
      refine ⟨e, queue, hqueue, rfl, ?_⟩
      simp [State.pending, Function.comp_def, ← Multiset.coe_add, Multiset.add_assoc]
  · cases h

omit [DecidableEq τ] in
theorem pending_cons {e : ε} {queue : List ε} (h : s.queue = e :: queue) :
    s.pending = e ::ₘ { s with queue := queue }.pending := by
  simp [State.pending, h, ← Multiset.cons_coe, Multiset.cons_add]

/-! ### Runs -/

/-- What the operations and the handlers keep holds in every state of a run. -/
theorem Reaches.keeps {I : σ → Multiset ε → Prop}
    (hperform : ∀ op d p d' es, I d p → g.perform op d p → L.perform op d = some (d', es) → I d' (p + ↑es))
    (hhandle : ∀ e d p, I d (e ::ₘ p) → g.handle e d p → I (L.handle e d).1 (p + ↑(L.handle e d).2))
    (h : Reaches L.Step g.Ok s s') (hs : I s.data s.pending) : I s'.data s'.pending := by
  refine Transition.Reaches.keeps (I := fun s => I s.data s.pending) ?_ h hs
  intro s a s' hI hok hstep
  cases a with
  | perform op =>
    obtain ⟨data, es, hop, hdata, hpending⟩ := step_perform hstep
    rw [hdata, hpending]
    exact hperform op s.data s.pending data es hI hok hop
  | send t =>
    obtain ⟨hdata, hpending⟩ := step_send hstep
    rw [hdata, hpending]
    exact hI
  | handle =>
    obtain ⟨e, queue, hqueue, hdata, hpending⟩ := step_handle hstep
    rw [hdata, hpending]
    exact hhandle e s.data _ (pending_cons hqueue ▸ hI) (hok e queue hqueue)

/-! ### The events of one thread

`line t` are the events in the queue and then those of a thread `t` that are still in its outbox: the order in which
the events of `t` are handled.  The events that other threads put into the queue come somewhere between them. -/

/-- The queue as a thread sees it. -/
def State.line (s : State τ ε σ) (t : τ) : List ε :=
  s.queue ++ (s.outbox.filter (fun x => decide (x.1 = t))).map Prod.snd

theorem line_of_pending {t : τ} (h : s.pending = 0) : s.line t = [] := by
  unfold State.pending at h
  rw [Multiset.coe_add, Multiset.coe_eq_zero, List.append_eq_nil_iff, List.map_eq_nil_iff] at h
  unfold State.line
  rw [h.1, h.2]
  rfl

theorem line_perform {t : τ} {op : μ} {data : σ} {es : List ε} (h : L.step s (.perform op) = some s')
    (hop : L.perform op s.data = some (data, es)) :
    s'.line t = if L.thread op = t then s.line t ++ es else s.line t := by
  obtain ⟨hqueue, hout⟩ := step_perform_outbox h hop
  unfold State.line
  rw [hqueue, hout, List.filter_append, List.map_append]
  split
  · next ht =>
    have hall : (es.map (Prod.mk (L.thread op))).filter (fun x => decide (x.1 = t)) = es.map (Prod.mk (L.thread op)) := by
      rw [List.filter_eq_self]
      intro x hx
      obtain ⟨e, -, rfl⟩ := List.mem_map.mp hx
      exact decide_eq_true ht
    rw [hall, List.map_map, ← List.append_assoc]
    exact congrArg _ (List.map_id es)
  · next ht =>
    have hnone : (es.map (Prod.mk (L.thread op))).filter (fun x => decide (x.1 = t)) = [] := by
      rw [List.filter_eq_nil_iff]
      intro x hx
      obtain ⟨e, -, rfl⟩ := List.mem_map.mp hx
      simpa using ht
    rw [hnone, List.map_nil, List.append_nil]

/-- An event of the thread keeps its place, and one of another thread is put between the queue and the outbox. -/
theorem line_send {t t' : τ} (h : L.step s (.send t') = some s') :
    s'.line t = s.line t ∨
      ∃ x ∈ s.outbox, x.1 ≠ t ∧ ∃ o, s.line t = s.queue ++ o ∧ s'.line t = s.queue ++ x.2 :: o := by
  obtain ⟨e, before, after, hbefore, hout, -, hqueue, hout'⟩ := step_send_outbox h
  unfold State.line
  rw [hqueue, hout, hout']
  by_cases ht : t' = t
  · subst ht
    have hnone : before.filter (fun x => decide (x.1 = t')) = [] := by
      rw [List.filter_eq_nil_iff]
      intro x hx
      simpa using hbefore x hx
    refine .inl ?_
    simp [List.filter_append, hnone]
  · refine .inr ⟨(t', e), by simp, ht, _, rfl, ?_⟩
    simp [List.filter_append, ht]

theorem line_handle {t : τ} (hmain : L.main ≠ t) (h : L.step s .handle = some s') :
    ∃ e queue, s.queue = e :: queue ∧ s.line t = e :: s'.line t ∧
      s'.outbox = s.outbox ++ (L.handle e s.data).2.map (Prod.mk L.main) := by
  simp only [step] at h
  split at h
  · split at h
    · cases h
    · next e queue hqueue =>
      cases h
      refine ⟨e, queue, hqueue, ?_, rfl⟩
      have hnone : ((L.handle e s.data).2.map (Prod.mk L.main)).filter (fun x => decide (x.1 = t)) = [] := by
        rw [List.filter_eq_nil_iff]
        intro x hx
        obtain ⟨e', -, rfl⟩ := List.mem_map.mp hx
        simpa using hmain
      simp [State.line, hqueue, List.filter_append, hnone]
  · cases h

/-- What the operations of a thread, the operations of the others, whose events are `foreign`, and the handlers keep
holds in every state of a run. -/
theorem Reaches.keeps_line {I : σ → Multiset ε → List ε → Prop} {t : τ} {foreign : ε → Prop} (hmain : L.main ≠ t)
    (hown : ∀ op d p l d' es, L.thread op = t → I d p l → g.perform op d p → L.perform op d = some (d', es) →
      I d' (p + ↑es) (l ++ es))
    (hother : ∀ op d p l d' es, L.thread op ≠ t → I d p l → g.perform op d p → L.perform op d = some (d', es) →
      I d' (p + ↑es) l ∧ ∀ e ∈ es, foreign e)
    (hsend : ∀ d p q o e, foreign e → I d p (q ++ o) → I d p (q ++ e :: o))
    (hhandle : ∀ e d p l, I d (e ::ₘ p) (e :: l) → g.handle e d p →
      I (L.handle e d).1 (p + ↑(L.handle e d).2) l ∧ ∀ e' ∈ (L.handle e d).2, foreign e')
    (h : Reaches L.Step g.Ok s s') (hs : I s.data s.pending (s.line t)) (hempty : s.outbox = []) :
    I s'.data s'.pending (s'.line t) := by
  refine (Transition.Reaches.keeps (I := fun s => I s.data s.pending (s.line t) ∧
    ∀ x ∈ s.outbox, x.1 ≠ t → foreign x.2) ?_ h ⟨hs, by simp [hempty]⟩).1
  -- events of other threads that still wait in the outbox are foreign
  rintro s a s' ⟨hI, hforeign⟩ hok hstep
  cases a with
  | perform op =>
    obtain ⟨data, es, hop, hdata, hpending⟩ := step_perform hstep
    obtain ⟨-, hout⟩ := step_perform_outbox hstep hop
    rw [hdata, hpending, line_perform hstep hop, hout]
    by_cases ht : L.thread op = t
    · rw [if_pos ht]
      refine ⟨hown op s.data s.pending _ data es ht hI hok hop, ?_⟩
      intro x hx hne
      rcases List.mem_append.mp hx with hx | hx
      · exact hforeign x hx hne
      · obtain ⟨e, -, rfl⟩ := List.mem_map.mp hx
        exact absurd ht hne
    · rw [if_neg ht]
      obtain ⟨hI', hes⟩ := hother op s.data s.pending _ data es ht hI hok hop
      refine ⟨hI', ?_⟩
      intro x hx hne
      rcases List.mem_append.mp hx with hx | hx
      · exact hforeign x hx hne
      · obtain ⟨e, he, rfl⟩ := List.mem_map.mp hx
        exact hes e he
  | send t' =>
    obtain ⟨hdata, hpending⟩ := step_send hstep
    obtain ⟨e, before, after, -, hout, -, -, hout'⟩ := step_send_outbox hstep
    rw [hdata, hpending]
    refine ⟨?_, ?_⟩
    · rcases line_send (t := t) hstep with hline | ⟨x, hx, hne, o, hline, hline'⟩
      · rw [hline]
        exact hI
      · rw [hline']
        exact hsend _ _ _ _ _ (hforeign x hx hne) (hline ▸ hI)
    · intro x hx
      apply hforeign x
      rw [hout'] at hx
      rw [hout]
      rcases List.mem_append.mp hx with hx | hx
      · exact List.mem_append_left _ hx
      · exact List.mem_append_right _ (List.mem_cons_of_mem _ hx)
  | handle =>
    obtain ⟨e, queue, hqueue, hdata, hpending⟩ := step_handle hstep
    obtain ⟨e', queue', hqueue', hline, hout⟩ := line_handle hmain hstep
    obtain ⟨rfl, rfl⟩ := List.cons.inj (hqueue.symm.trans hqueue')
    rw [hdata, hpending, hout]
    obtain ⟨hI', hes⟩ := hhandle e s.data _ (s'.line t) (by rw [← pending_cons hqueue, ← hline]; exact hI)
      (hok e queue hqueue)
    refine ⟨hI', ?_⟩
    intro x hx hne
    rcases List.mem_append.mp hx with hx | hx
    · exact hforeign x hx hne
    · obtain ⟨e', he', rfl⟩ := List.mem_map.mp hx
      exact hes e' he'

omit [DecidableEq τ] in
theorem Guard.none_ok (s : State τ ε σ) (a : Action τ μ) : (Guard.none : Guard μ ε σ).Ok s a := by
  cases a with
  | perform op => trivial
  | send t => trivial
  | handle =>
    intro e queue _
    trivial

/-- A run whose actions are allowed in every state. -/
theorem Reaches.of_run_guarded {as : List (Action τ μ)} (hok : ∀ a ∈ as, ∀ s, g.Ok s a) (h : L.run s as = some s') :
    Reaches L.Step g.Ok s s' := by
  induction as generalizing s with
  | nil =>
    cases h
    exact .refl
  | cons a as ih =>
    obtain ⟨s₁, hstep, hrun⟩ := Option.bind_eq_some_iff.mp h
    have hrest := ih (fun a' ha' => hok a' (List.mem_cons_of_mem _ ha')) hrun
    exact Reaches.trans (.snoc .refl (hok a List.mem_cons_self s) hstep) hrest

theorem Reaches.of_run {as : List (Action τ μ)} (h : L.run s as = some s') :
    Reaches L.Step (Guard.none : Guard μ ε σ).Ok s s' :=
  of_run_guarded (fun a _ s => Guard.none_ok s a) h

theorem run_append {as as' : List (Action τ μ)} :
    L.run s (as ++ as') = (L.run s as).bind fun s' => L.run s' as' := by
  induction as generalizing s with
  | nil => rfl
  | cons a as ih =>
    show ((L.step s a).bind fun s' => L.run s' (as ++ as')) = ((L.step s a).bind fun s' => L.run s' as).bind _
    rw [Option.bind_assoc]
    exact congrArg _ (funext fun s' => ih)

/-! ### The operations of one thread, undisturbed -/

/-- A thread puts all its events into the queue. -/
theorem run_sends {t : τ} {d : σ} {queue es : List ε} {out : List (τ × ε)} (hidle : ∀ x ∈ out, x.1 ≠ t) :
    L.run ⟨d, queue, out ++ es.map (Prod.mk t)⟩ (List.replicate es.length (.send t)) =
      some ⟨d, queue ++ es, out⟩ := by
  induction es generalizing queue with
  | nil => simp [run]
  | cons e es ih =>
    have hfind : (out ++ (e :: es).map (Prod.mk t)).find? (fun x => decide (x.1 = t)) = some (t, e) := by
      rw [List.find?_append, List.find?_eq_none.mpr (by simpa using hidle)]
      simp
    have herase : (out ++ (e :: es).map (Prod.mk t)).eraseP (fun x => decide (x.1 = t)) = out ++ es.map (Prod.mk t) := by
      rw [List.eraseP_append_right _ (by simpa using hidle)]
      simp
    have hstep : L.step ⟨d, queue, out ++ (e :: es).map (Prod.mk t)⟩ (.send t) =
        some ⟨d, queue ++ [e], out ++ es.map (Prod.mk t)⟩ := by
      simp only [step]
      rw [hfind, herase]
      rfl
    rw [List.length_cons, List.replicate_succ, run, hstep, Option.bind_some, ih, List.append_assoc]
    rfl

/-- Between two operations the thread puts their events into the queue. -/
theorem run_of_performAll {t : τ} {ops : List μ} (hthread : ∀ op ∈ ops, L.thread op = t) (hidle : s.Idle t) {d : σ}
    {es : List ε} (h : L.performAll s.data ops = some (d, es)) :
    ∃ as, L.run s as = some { s with data := d, queue := s.queue ++ es } := by
  induction ops generalizing s es with
  | nil =>
    cases h
    exact ⟨[], by simp [run]⟩
  | cons op ops ih =>
    obtain ⟨⟨d₁, es₁⟩, hop, h⟩ := Option.bind_eq_some_iff.mp h
    obtain ⟨⟨d₂, es₂⟩, hops, heq⟩ := Option.map_eq_some_iff.mp h
    cases heq
    have ht : L.thread op = t := hthread op List.mem_cons_self
    have hperform : L.step s (.perform op) = some { s with data := d₁, outbox := s.outbox ++ es₁.map (Prod.mk t) } := by
      simp only [step]
      rw [ht, if_pos hidle, hop]
      rfl
    obtain ⟨as, has⟩ := ih (s := { s with data := d₁, queue := s.queue ++ es₁ })
      (fun op' hop' => hthread op' (List.mem_cons_of_mem _ hop')) hidle hops
    refine ⟨.perform op :: (List.replicate es₁.length (.send t) ++ as), ?_⟩
    rw [run, hperform, Option.bind_some, run_append, run_sends hidle, Option.bind_some, has, List.append_assoc]

section decidable

instance [∀ op d p, Decidable (g.perform op d p)] [∀ e d p, Decidable (g.handle e d p)] (s : State τ ε σ)
    (a : Action τ μ) : Decidable (g.Ok s a) :=
  match a with
  | .perform op => inferInstanceAs (Decidable (g.perform op s.data s.pending))
  | .send _ => isTrue trivial
  | .handle =>
    match h : s.queue with
    | [] => isTrue fun _ _ hqueue => by rw [h] at hqueue; cases hqueue
    | e :: queue =>
      decidable_of_iff (g.handle e s.data { s with queue := queue }.pending)
        ⟨fun hok e' queue' hqueue => by rw [h] at hqueue; cases hqueue; exact hok, fun hok => hok e queue h⟩

variable [∀ s a, Decidable (g.Ok (τ := τ) s a)]

variable (L g) in
/-- The steps of a list of actions, each of which is allowed in its state. -/
def runOk (s : State τ ε σ) : List (Action τ μ) → Option (State τ ε σ)
  | [] => some s
  | a :: as => if g.Ok s a then (L.step s a).bind fun s' => runOk s' as else none

theorem Reaches.of_runOk {as : List (Action τ μ)} (h : L.runOk g s as = some s') : Reaches L.Step g.Ok s s' := by
  induction as generalizing s with
  | nil =>
    cases h
    exact .refl
  | cons a as ih =>
    unfold runOk at h
    split at h
    · next hok =>
      obtain ⟨s₁, hstep, hrun⟩ := Option.bind_eq_some_iff.mp h
      exact Reaches.trans (.snoc .refl hok hstep) (ih hrun)
    · cases h

end decidable

end EventLoop

end Transition
