import KulloClient.ApiImpl.SyncerImpl
import Mathlib.Logic.Function.Basic

/-!
# The jobs of the syncer

The worker threads of `SyncerWorker::work` next to the main thread.  A worker copies the listener pointer under its own
mutex and calls through the copy afterwards, so a job can be cancelled, and another one started, between the two.
-/

namespace KulloClient

namespace SyncerJobs

open Function (update)

/-- The callback at the end of a job. -/
inductive LastCall
  | finished
  | error
  deriving DecidableEq

/-- Where a worker is. -/
inductive Pc
  | begin
  /-- It holds a copy of the listener, to call `started`. -/
  | callStarted
  | working
  | ended (call : LastCall)
  /-- It holds a copy of the listener, for its last call. -/
  | callEnd (call : LastCall)
  | quit
  deriving DecidableEq

structure World where
  syncer : SyncerImpl := {}
  /-- The worker of each task. -/
  pc : Nat → Pc := fun _ => .begin

inductive Action
  | requestSync (mode : SyncMode)
  | requestDownloadingAttachmentsForMessage (msgId : IdType)
  | cancel
  /-- `safeListener` before `started`. -/
  | copyForStart (i : Nat)
  | callStarted (i : Nat)
  /-- The end of `doWork`; `none` is `SyncCanceled`. -/
  | endWork (i : Nat) (call : Option LastCall)
  /-- `safeListener` before the last call. -/
  | copyForEnd (i : Nat)
  | callEnd (i : Nat) (now : Nat)

/-- What the last call of a worker does. -/
def callback (now : Nat) (s : SyncerImpl) : LastCall → SyncerImpl
  | .finished => s.finished now
  | .error => s.error

/-- `SyncerWorker::cancel` resets the pointer, and then there is nothing to copy. -/
def Step (w : World) : Action → World → Prop
  | .requestSync mode, w' => w' = { w with syncer := w.syncer.requestSync mode }
  | .requestDownloadingAttachmentsForMessage msgId, w' =>
    w' = { w with syncer := w.syncer.requestDownloadingAttachmentsForMessage msgId }
  | .cancel, w' => ∃ s, w.syncer.cancel = some s ∧ w' = { w with syncer := s }
  | .copyForStart i, w' => ∃ t, w.syncer.tasks[i]? = some t ∧ w.pc i = .begin ∧
    w' = { w with pc := update w.pc i (if t.cancelled then .working else .callStarted) }
  | .callStarted i, w' => w.pc i = .callStarted ∧ w' = { w with pc := update w.pc i .working }
  | .endWork i call, w' => ∃ t, w.syncer.tasks[i]? = some t ∧ w.pc i = .working ∧
    (call = none → t.cancelled = true) ∧
    w' = { w with pc := update w.pc i (match call with | none => .quit | some c => .ended c) }
  | .copyForEnd i, w' => ∃ t c, w.syncer.tasks[i]? = some t ∧ w.pc i = .ended c ∧
    w' = { w with pc := update w.pc i (if t.cancelled then .quit else .callEnd c) }
  | .callEnd i now, w' => ∃ c, w.pc i = .callEnd c ∧
    w' = { syncer := callback now w.syncer c, pc := update w.pc i .quit }

/-- The task was cancelled. -/
def Cancelled (w : World) (i : Nat) : Prop := ∃ t, w.syncer.tasks[i]? = some t ∧ t.cancelled = true

/-- The job of a task that was made is not done, and was not cancelled. -/
def Running (w : World) (i : Nat) : Prop :=
  w.pc i ≠ .quit ∧ ∃ t, w.syncer.tasks[i]? = some t ∧ t.cancelled = false

/-- A full sync: with `WithoutAttachments` or `Everything`. -/
def IsFullSync (w : World) (i : Nat) : Prop :=
  ∃ t, w.syncer.tasks[i]? = some t ∧ (t.job = .run .withoutAttachments ∨ t.job = .run .everything)

/-- The last call of a cancelled job comes before another job is started. -/
def OnTime (w : World) (a : Action) : Prop :=
  ∀ i now, a = .callEnd i now → Cancelled w i → i + 1 = w.syncer.tasks.length

/-- A callback of a cancelled job changes neither `running_` nor the jobs. -/
def CancelledIsSilent (w : World) (a : Action) (w' : World) : Prop :=
  ∀ i now, (a = .callStarted i ∨ a = .callEnd i now) → Cancelled w i →
    w'.syncer.running = w.syncer.running ∧ w'.syncer.tasks.length = w.syncer.tasks.length

/-- The time of the last full sync is set by the completion of a full sync. -/
def HonestLastFullSync (w : World) (a : Action) (w' : World) : Prop :=
  w'.syncer.lastFullSync ≠ w.syncer.lastFullSync →
    ∃ i now, a = .callEnd i now ∧ w.pc i = .callEnd .finished ∧ IsFullSync w i

/-! ### The invariant -/

/-- The syncer and the workers between two steps, but for what waits. -/
structure Consistent (s : SyncerImpl) (pc : Nat → Pc) : Prop where
  unborn : ∀ i, s.tasks.length ≤ i → pc i = .begin
  current : ∀ i, s.task = some i → i + 1 = s.tasks.length
  idle : s.running = true → s.task ≠ none
  running : ∀ i, s.running = true → s.task = some i → pc i ≠ .quit ∧ ∃ t, s.tasks[i]? = some t ∧ t.cancelled = false
  active : ∀ i t, s.tasks[i]? = some t → t.cancelled = false → pc i ≠ .quit → s.running = true ∧ s.task = some i
  mode : ∀ i t, s.tasks[i]? = some t → i + 1 = s.tasks.length → s.lastSyncMode = t.job.mode
  cancelled : ∀ i t, s.tasks[i]? = some t → i + 1 = s.tasks.length → t.cancelled = true → pc i ≠ .quit → s.task = none

structure Inv (w : World) : Prop where
  consistent : Consistent w.syncer w.pc
  waiting : w.syncer.task = none → ¬ w.syncer.HasWork

private theorem getElem?_cancelTask (s : SyncerImpl) (i j : Nat) :
    (s.cancelTask i).tasks[j]? = (s.tasks[j]?).map fun t => if i = j then t.cancel else t := by
  unfold SyncerImpl.cancelTask
  dsimp only
  rw [List.getElem?_modify]
  split <;> rfl

private theorem getElem?_replacedTasks (s : SyncerImpl) (j : Nat) :
    s.replacedTasks[j]? = (s.tasks[j]?).map fun t => if s.task = some j then t.cancel else t := by
  unfold SyncerImpl.replacedTasks
  cases htask : s.task with
  | none => simp
  | some i =>
    have h := getElem?_cancelTask s i j
    unfold SyncerImpl.cancelTask at h
    rw [h]
    simp

theorem Consistent.withWaiting {s : SyncerImpl} {pc : Nat → Pc} (h : Consistent s pc) (e : Option SyncMode)
    (q : List IdType) : Consistent (s.withWaiting e q) pc :=
  ⟨h.unborn, h.current, h.idle, h.running, h.active, h.mode, h.cancelled⟩

/-- An idle syncer starts a job: the only one that is active. -/
theorem Consistent.start {s : SyncerImpl} {pc : Nat → Pc} (h : Consistent s pc) (hidle : s.running = false) (job : Job) :
    Consistent (s.start job) pc := by
  have hlast : ∀ j t, j + 1 = s.tasks.length + 1 → (s.replacedTasks ++ [{ job := job }])[j]? = some t →
      t = { job := job } := by
    intro j t hj ht
    have hlen : j = s.replacedTasks.length := by
      rw [SyncerImpl.length_replacedTasks]
      omega
    rw [hlen, List.getElem?_concat_length] at ht
    exact (Option.some.inj ht).symm
  rw [SyncerImpl.start_eq]
  constructor
  · intro j hj
    refine h.unborn j ?_
    simp only [List.length_append, SyncerImpl.length_replacedTasks, List.length_singleton] at hj
    omega
  · rintro j ⟨⟩
    simp
  · simp
  · rintro j - ⟨⟩
    refine ⟨by rw [h.unborn _ (Nat.le_refl _)]; decide, { job := job }, ?_, rfl⟩
    have hlen : s.tasks.length = s.replacedTasks.length := (SyncerImpl.length_replacedTasks s).symm
    dsimp only
    rw [hlen, List.getElem?_concat_length]
  · intro j t ht hnot hpc
    refine ⟨rfl, ?_⟩
    by_contra hne
    have hlt : j < s.replacedTasks.length := by
      have hj := (List.getElem?_eq_some_iff.mp ht).1
      rw [SyncerImpl.length_replacedTasks]
      simp only [List.length_append, SyncerImpl.length_replacedTasks, List.length_singleton] at hj
      have hneq : s.tasks.length ≠ j := fun he => hne (by rw [he])
      omega
    dsimp only at ht
    rw [List.getElem?_append_left hlt, getElem?_replacedTasks] at ht
    obtain ⟨t₀, ht₀, rfl⟩ := Option.map_eq_some_iff.mp ht
    split at hnot
    · cases hnot
    · have hactive := (h.active j t₀ ht₀ hnot hpc).1
      rw [hidle] at hactive
      cases hactive
  · intro j t ht hj
    simp only [List.length_append, SyncerImpl.length_replacedTasks, List.length_singleton] at hj
    rw [hlast j t hj ht]
  · intro j t ht hj hcancelled
    simp only [List.length_append, SyncerImpl.length_replacedTasks, List.length_singleton] at hj
    rw [hlast j t hj ht] at hcancelled
    cases hcancelled

/-- Work that waits is started, unless a job runs. -/
theorem inv_runNextJobIfIdle {s : SyncerImpl} {pc : Nat → Pc} (h : Consistent s pc) :
    Inv { syncer := s.runNextJobIfIdle, pc := pc } := by
  unfold SyncerImpl.runNextJobIfIdle
  split
  · next hrunning => exact ⟨h, fun hnone => absurd hnone (h.idle hrunning)⟩
  · next hidle =>
    have hidle' := Bool.eq_false_iff.mpr hidle
    split
    · next msgId queue hqueue =>
      have hstart := (h.withWaiting s.enqueuedSync queue).start hidle' (.downloadAttachmentsForMessage msgId)
      refine ⟨hstart, fun hnone => ?_⟩
      dsimp only at hnone
      rw [SyncerImpl.start_eq] at hnone
      cases hnone
    · next hqueue =>
      split
      · next mode henqueued =>
        have hstart := (h.start hidle' (.run mode)).withWaiting none (s.start (.run mode)).messageAttachmentDownloadQueue
        refine ⟨hstart, fun hnone => ?_⟩
        dsimp only at hnone
        rw [SyncerImpl.start_eq] at hnone
        cases hnone
      · next henqueued =>
        refine ⟨h, fun _ hwork => ?_⟩
        rcases hwork with hne | hne
        · exact hne hqueue
        · exact hne henqueued

private theorem inv_cancel {w : World} (hw : Inv w) {s' : SyncerImpl} (hcancel : w.syncer.cancel = some s') :
    Inv { w with syncer := s' } := by
  have h := hw.consistent
  unfold SyncerImpl.cancel at hcancel
  split at hcancel
  · cases hcancel
  next i htask =>
  cases hcancel
  refine ⟨?_, by simp [SyncerImpl.HasWork]⟩
  constructor
  · intro j hj
    exact h.unborn j (by simpa using hj)
  · rintro j ⟨⟩
  · rintro ⟨⟩
  · rintro j ⟨⟩
  · intro j t ht hnot hpc
    dsimp only at ht
    rw [getElem?_cancelTask] at ht
    obtain ⟨t₀, ht₀, rfl⟩ := Option.map_eq_some_iff.mp ht
    split at hnot
    · cases hnot
    · next hne =>
      have htask' := (h.active j t₀ ht₀ hnot hpc).2
      rw [htask] at htask'
      exact absurd (Option.some.inj htask') hne
  · intro j t ht hj
    dsimp only at ht
    rw [getElem?_cancelTask] at ht
    obtain ⟨t₀, ht₀, rfl⟩ := Option.map_eq_some_iff.mp ht
    have hmode := h.mode j t₀ ht₀ (by simpa using hj)
    split
    · exact hmode
    · exact hmode
  · intro j t _ _ _ _
    rfl

/-- A worker goes on; it quits only if its job was cancelled. -/
theorem Consistent.go {s : SyncerImpl} {pc : Nat → Pc} (h : Consistent s pc) {i : Nat} {t : AsyncTask}
    (ht : s.tasks[i]? = some t) (hpc : pc i ≠ .quit) {p : Pc} (hp : p = .quit → t.cancelled = true) :
    Consistent s (update pc i p) := by
  have hold : ∀ j, update pc i p j ≠ .quit → pc j ≠ .quit := by
    intro j hj
    by_cases hji : j = i
    · subst hji
      exact hpc
    · rwa [Function.update_of_ne hji] at hj
  constructor
  · intro j hj
    have hlt := (List.getElem?_eq_some_iff.mp ht).1
    rw [Function.update_of_ne (by omega)]
    exact h.unborn j hj
  · exact h.current
  · exact h.idle
  · intro j hrunning htask
    obtain ⟨hj, t', ht', hnot⟩ := h.running j hrunning htask
    refine ⟨?_, t', ht', hnot⟩
    by_cases hji : j = i
    · subst hji
      rw [ht] at ht'
      cases ht'
      rw [Function.update_self]
      intro hquit
      rw [hp hquit] at hnot
      cases hnot
    · rwa [Function.update_of_ne hji]
  · exact fun j t' ht' hnot hj => h.active j t' ht' hnot (hold j hj)
  · exact h.mode
  · exact fun j t' ht' hlast hcancelled hj => h.cancelled j t' ht' hlast hcancelled (hold j hj)

/-- The last active job is done. -/
theorem Consistent.done {s : SyncerImpl} {pc : Nat → Pc} (h : Consistent s pc) {i : Nat} (hi : i < s.tasks.length)
    (honly : ∀ j t, s.tasks[j]? = some t → t.cancelled = false → pc j ≠ .quit → j = i) (time : Option Nat) :
    Consistent { s with running := false, lastFullSync := time } (update pc i .quit) := by
  have hold : ∀ j, update pc i .quit j ≠ .quit → j ≠ i ∧ pc j ≠ .quit := by
    intro j hj
    by_cases hji : j = i
    · subst hji
      rw [Function.update_self] at hj
      exact absurd rfl hj
    · rw [Function.update_of_ne hji] at hj
      exact ⟨hji, hj⟩
  constructor
  · intro j hj
    dsimp only at hj
    rw [Function.update_of_ne (by omega)]
    exact h.unborn j hj
  · exact h.current
  · rintro ⟨⟩
  · rintro j ⟨⟩
  · intro j t ht hnot hj
    obtain ⟨hne, hpc⟩ := hold j hj
    exact absurd (honly j t ht hnot hpc) hne
  · exact h.mode
  · exact fun j t ht hlast hcancelled hj => h.cancelled j t ht hlast hcancelled (hold j hj).2

/-- Cancelling a job whose worker has quit. -/
theorem Consistent.cancelQuit {s : SyncerImpl} {pc : Nat → Pc} (h : Consistent s pc) {i : Nat} (hpc : pc i = .quit)
    (hidle : s.running = false) : Consistent (s.cancelTask i) pc := by
  constructor
  · intro j hj
    exact h.unborn j (by simpa using hj)
  · intro j hj
    rw [SyncerImpl.length_cancelTask]
    exact h.current j hj
  · exact h.idle
  · intro j hrunning
    have hrunning' : s.running = true := hrunning
    rw [hidle] at hrunning'
    cases hrunning'
  · intro j t ht hnot hj
    rw [getElem?_cancelTask] at ht
    obtain ⟨t₀, ht₀, rfl⟩ := Option.map_eq_some_iff.mp ht
    split at hnot
    · cases hnot
    · exact h.active j t₀ ht₀ hnot hj
  · intro j t ht hj
    rw [getElem?_cancelTask] at ht
    rw [SyncerImpl.length_cancelTask] at hj
    obtain ⟨t₀, ht₀, rfl⟩ := Option.map_eq_some_iff.mp ht
    have hmode := h.mode j t₀ ht₀ hj
    split
    · exact hmode
    · exact hmode
  · intro j t ht hj hcancelled hquit
    rw [getElem?_cancelTask] at ht
    rw [SyncerImpl.length_cancelTask] at hj
    obtain ⟨t₀, ht₀, rfl⟩ := Option.map_eq_some_iff.mp ht
    split at hcancelled
    · next hij =>
      rw [← hij] at hquit
      exact absurd hpc hquit
    · exact h.cancelled j t₀ ht₀ hj hcancelled hquit

/-! ### The last call of a job -/

section lastCall

variable {w : World} {i : Nat} {c : LastCall} {t : AsyncTask}

private theorem exists_task (hw : Inv w) (hpc : w.pc i = .callEnd c) : ∃ t, w.syncer.tasks[i]? = some t := by
  have hlt : i < w.syncer.tasks.length := by
    by_contra hge
    have hbegin := hw.consistent.unborn i (Nat.not_lt.mp hge)
    rw [hpc] at hbegin
    cases hbegin
  exact ⟨_, List.getElem?_eq_getElem hlt⟩

/-- The last call of a cancelled job that is on time finds nothing to do. -/
theorem idle_of_cancelled (hw : Inv w) (hpc : w.pc i = .callEnd c) (ht : w.syncer.tasks[i]? = some t)
    (hlast : i + 1 = w.syncer.tasks.length) (hcancelled : t.cancelled = true) :
    w.syncer.task = none ∧ w.syncer.running = false ∧ ¬ w.syncer.HasWork := by
  have htask := hw.consistent.cancelled i t ht hlast hcancelled (by rw [hpc]; rintro ⟨⟩)
  refine ⟨htask, ?_, hw.waiting htask⟩
  rw [Bool.eq_false_iff]
  intro hrunning
  exact hw.consistent.idle hrunning htask

/-- The job of a last call that is on time was the last one to be started. -/
theorem last_of_onTime {now : Nat} (hw : Inv w) (hpc : w.pc i = .callEnd c) (ht : w.syncer.tasks[i]? = some t)
    (hok : OnTime w (.callEnd i now)) : i + 1 = w.syncer.tasks.length := by
  by_cases hcancelled : t.cancelled = true
  · exact hok i now rfl ⟨t, ht, hcancelled⟩
  · exact hw.consistent.current i
      (hw.consistent.active i t ht (Bool.eq_false_iff.mpr hcancelled) (by rw [hpc]; rintro ⟨⟩)).2

/-- No other job is active at the last call of a job. -/
theorem only_active {now : Nat} (hw : Inv w) (hpc : w.pc i = .callEnd c) (ht : w.syncer.tasks[i]? = some t)
    (hok : OnTime w (.callEnd i now)) (j : Nat) (t' : AsyncTask) (ht' : w.syncer.tasks[j]? = some t')
    (hnot : t'.cancelled = false) (hj : w.pc j ≠ .quit) : j = i := by
  obtain ⟨hrunning, htask⟩ := hw.consistent.active j t' ht' hnot hj
  have hlast := last_of_onTime hw hpc ht hok
  have hlast' := hw.consistent.current j htask
  omega

private theorem inv_callEnd {now : Nat} (hw : Inv w) (hpc : w.pc i = .callEnd c) (hok : OnTime w (.callEnd i now)) :
    Inv { syncer := callback now w.syncer c, pc := update w.pc i .quit } := by
  obtain ⟨t, ht⟩ := exists_task hw hpc
  have hi := (List.getElem?_eq_some_iff.mp ht).1
  have hdone := fun time => hw.consistent.done hi (only_active hw hpc ht hok) time
  cases c with
  | finished => exact inv_runNextJobIfIdle (hdone _)
  | error =>
    have hquit := hdone w.syncer.lastFullSync
    change Inv { syncer := w.syncer.error, pc := update w.pc i .quit }
    unfold SyncerImpl.error
    cases htask : w.syncer.task with
    | some k =>
      have hk := hw.consistent.current k htask
      have hik : k = i := by
        have := last_of_onTime hw hpc ht hok
        omega
      subst hik
      refine ⟨hquit.cancelQuit (Function.update_self ..) rfl, fun hnone => ?_⟩
      have hnone' : w.syncer.task = none := hnone
      rw [htask] at hnone'
      cases hnone'
    | none =>
      rw [htask] at hquit
      exact ⟨hquit, fun _ => hw.waiting htask⟩

end lastCall

private theorem inv_step {w w' : World} {a : Action} (hw : Inv w) (hok : OnTime w a) (hstep : Step w a w') : Inv w' := by
  cases a with
  | requestSync mode =>
    cases hstep
    refine inv_runNextJobIfIdle ?_
    rw [SyncerImpl.enqueue_eq]
    exact hw.consistent.withWaiting _ _
  | requestDownloadingAttachmentsForMessage msgId =>
    cases hstep
    refine inv_runNextJobIfIdle ?_
    rw [SyncerImpl.enqueueDownload_eq]
    exact hw.consistent.withWaiting _ _
  | cancel =>
    obtain ⟨s, hcancel, rfl⟩ := hstep
    exact inv_cancel hw hcancel
  | copyForStart i =>
    obtain ⟨t, ht, hpc, rfl⟩ := hstep
    refine ⟨hw.consistent.go ht (by rw [hpc]; decide) (fun h => ?_), hw.waiting⟩
    split at h <;> cases h
  | callStarted i =>
    obtain ⟨hpc, rfl⟩ := hstep
    have hlt : i < w.syncer.tasks.length := by
      by_contra hge
      have hbegin := hw.consistent.unborn i (Nat.not_lt.mp hge)
      rw [hpc] at hbegin
      cases hbegin
    exact ⟨hw.consistent.go (List.getElem?_eq_getElem hlt) (by rw [hpc]; decide) (by rintro ⟨⟩), hw.waiting⟩
  | endWork i call =>
    obtain ⟨t, ht, hpc, hcanceled, rfl⟩ := hstep
    refine ⟨hw.consistent.go ht (by rw [hpc]; decide) (fun h => ?_), hw.waiting⟩
    cases call with
    | none => exact hcanceled rfl
    | some c => cases h
  | copyForEnd i =>
    obtain ⟨t, c, ht, hpc, rfl⟩ := hstep
    refine ⟨hw.consistent.go ht (by rw [hpc]; intro h; cases h) (fun h => ?_), hw.waiting⟩
    by_contra hnot
    rw [if_neg hnot] at h
    cases h
  | callEnd i now =>
    obtain ⟨c, hpc, rfl⟩ := hstep
    exact inv_callEnd hw hpc hok

/-! ### What a step does to `running_` and `lastFullSync_` -/

@[simp] theorem runNextJobIfIdle_lastFullSync (s : SyncerImpl) : s.runNextJobIfIdle.lastFullSync = s.lastFullSync := by
  unfold SyncerImpl.runNextJobIfIdle
  split
  · rfl
  · split
    · rw [SyncerImpl.start_eq]
    · split
      · rw [SyncerImpl.start_eq]
      · rfl

private theorem runNextJobIfIdle_of_noWork {s : SyncerImpl} (h : ¬ s.HasWork) : s.runNextJobIfIdle = s := by
  unfold SyncerImpl.HasWork at h
  push Not at h
  unfold SyncerImpl.runNextJobIfIdle
  rw [h.1, h.2, ite_self]

private theorem cancelledIsSilent_step {w w' : World} {a : Action} (hw : Inv w) (hok : OnTime w a) (hstep : Step w a w') :
    CancelledIsSilent w a w' := by
  rintro i now (rfl | rfl) ⟨t, ht, hcancelled⟩
  · obtain ⟨-, rfl⟩ := hstep
    exact ⟨rfl, rfl⟩
  · obtain ⟨c, hpc, rfl⟩ := hstep
    obtain ⟨htask, hidle, hwork⟩ := idle_of_cancelled hw hpc ht (last_of_onTime hw hpc ht hok) hcancelled
    cases c with
    | finished =>
      change (w.syncer.finished now).running = _ ∧ (w.syncer.finished now).tasks.length = _
      unfold SyncerImpl.finished
      dsimp only
      rw [runNextJobIfIdle_of_noWork]
      · exact ⟨hidle.symm, rfl⟩
      · exact hwork
    | error =>
      change w.syncer.error.running = _ ∧ w.syncer.error.tasks.length = _
      unfold SyncerImpl.error
      rw [htask]
      exact ⟨hidle.symm, rfl⟩

private theorem honestLastFullSync_step {w w' : World} {a : Action} (hw : Inv w) (hok : OnTime w a) (hstep : Step w a w') :
    HonestLastFullSync w a w' := by
  intro hchanged
  cases a with
  | requestSync mode =>
    cases hstep
    refine absurd ?_ hchanged
    unfold SyncerImpl.requestSync
    rw [runNextJobIfIdle_lastFullSync, SyncerImpl.enqueue_eq]
    rfl
  | requestDownloadingAttachmentsForMessage msgId =>
    cases hstep
    refine absurd ?_ hchanged
    unfold SyncerImpl.requestDownloadingAttachmentsForMessage
    rw [runNextJobIfIdle_lastFullSync, SyncerImpl.enqueueDownload_eq]
    rfl
  | cancel =>
    obtain ⟨s, hcancel, rfl⟩ := hstep
    unfold SyncerImpl.cancel at hcancel
    split at hcancel <;> cases hcancel
    exact absurd rfl hchanged
  | copyForStart i =>
    obtain ⟨t, -, -, rfl⟩ := hstep
    exact absurd rfl hchanged
  | callStarted i =>
    obtain ⟨-, rfl⟩ := hstep
    exact absurd rfl hchanged
  | endWork i call =>
    obtain ⟨t, -, -, -, rfl⟩ := hstep
    exact absurd rfl hchanged
  | copyForEnd i =>
    obtain ⟨t, c, -, -, rfl⟩ := hstep
    exact absurd rfl hchanged
  | callEnd i now =>
    obtain ⟨c, hpc, rfl⟩ := hstep
    cases c with
    | error =>
      refine absurd ?_ hchanged
      change w.syncer.error.lastFullSync = _
      unfold SyncerImpl.error
      split <;> rfl
    -- only `finished` sets the time, after a sync that went to its end
    | finished =>
      obtain ⟨t, ht⟩ := exists_task hw hpc
      have hmode := hw.consistent.mode i t ht (last_of_onTime hw hpc ht hok)
      change (w.syncer.finished now).lastFullSync ≠ _ at hchanged
      unfold SyncerImpl.finished at hchanged
      rw [runNextJobIfIdle_lastFullSync] at hchanged
      dsimp only at hchanged
      have hfull : w.syncer.lastSyncMode = some .withoutAttachments ∨ w.syncer.lastSyncMode = some .everything := by
        by_contra hnot
        rw [if_neg hnot] at hchanged
        exact hchanged rfl
      refine ⟨i, now, rfl, hpc, t, ht, ?_⟩
      rw [hmode] at hfull
      cases hjob : t.job with
      | run mode =>
        rw [hjob] at hfull
        rcases hfull with h | h
        · exact .inl (by rw [Option.some.inj h])
        · exact .inr (by rw [Option.some.inj h])
      | downloadAttachmentsForMessage msgId =>
        rw [hjob] at hfull
        rcases hfull with h | h <;> cases h

/-- In a run in which no job is started between the cancelling of a job and its last call, at most one job is running,
the callbacks of cancelled jobs are silent, and `lastFullSync_` is set by full syncs only. -/
theorem jobs_of_reaches {w : World} (h : Transition.Reaches Step OnTime {} w) :
    (∀ i j, Running w i → Running w j → i = j) ∧
      ∀ a w', OnTime w a → Step w a w' → CancelledIsSilent w a w' ∧ HonestLastFullSync w a w' := by
  have hstart : Inv {} := by
    refine ⟨?_, by simp [SyncerImpl.HasWork]⟩
    constructor <;> simp
  have hw := h.keeps (fun w a w' hw hok hstep => inv_step hw hok hstep) hstart
  refine ⟨?_, fun a w' hok hstep => ⟨cancelledIsSilent_step hw hok hstep, honestLastFullSync_step hw hok hstep⟩⟩
  rintro i j ⟨hi, t, ht, hnot⟩ ⟨hj, t', ht', hnot'⟩
  -- both are the task the syncer holds
  have htask := (hw.consistent.active i t ht hnot hi).2
  have htask' := (hw.consistent.active j t' ht' hnot' hj).2
  rw [htask] at htask'
  exact Option.some.inj htask'

/-- A download that was cancelled while its worker is about to call `finished`. -/
def cancelledDownload : World where
  syncer := ((SyncerImpl.requestDownloadingAttachmentsForMessage 5 {}).cancel).getD {}
  pc := update (update (update (update (fun _ => .begin) 0 .callStarted) 0 .working) 0 (.ended .finished)) 0
    (.callEnd .finished)

private theorem cancelledDownload_reached : Transition.Reaches Step OnTime {} cancelledDownload := by
  let job : AsyncTask := { job := .downloadAttachmentsForMessage 5 }
  have h₀ : Transition.Reaches Step OnTime {} {} := .refl
  have h₁ := h₀.snoc (a := Action.requestDownloadingAttachmentsForMessage 5) (by rintro i now ⟨⟩) (by rfl)
  have h₂ := h₁.snoc (a := Action.copyForStart 0) (by rintro i now ⟨⟩) ⟨job, rfl, rfl, rfl⟩
  have h₃ := h₂.snoc (a := Action.callStarted 0) (by rintro i now ⟨⟩) ⟨rfl, rfl⟩
  have h₄ := h₃.snoc (a := Action.endWork 0 (some .finished)) (by rintro i now ⟨⟩) ⟨job, rfl, rfl, by simp, rfl⟩
  have h₅ := h₄.snoc (a := Action.copyForEnd 0) (by rintro i now ⟨⟩) ⟨job, .finished, rfl, rfl, rfl⟩
  exact h₅.snoc (a := Action.cancel) (by rintro i now ⟨⟩) ⟨_, rfl, rfl⟩

private theorem cancelledDownload_onTime (now : Nat) : OnTime cancelledDownload (.callEnd 0 now) := by
  rintro i now' ⟨⟩ -
  decide

/-- The call of the cancelled download comes in time, and then a sync is requested and started. -/
def syncAfterCancelled : World where
  syncer := (cancelledDownload.syncer.finished 7).requestSync .everything
  pc := update (update (update cancelledDownload.pc 0 .quit) 1 .callStarted) 1 .working

private theorem syncAfterCancelled_reached : Transition.Reaches Step OnTime {} syncAfterCancelled := by
  have h₁ := cancelledDownload_reached.snoc (a := Action.callEnd 0 7) (cancelledDownload_onTime 7) ⟨.finished, rfl, rfl⟩
  have h₂ := h₁.snoc (a := Action.requestSync .everything) (by rintro i now ⟨⟩) (by rfl)
  have h₃ := h₂.snoc (a := Action.copyForStart 1) (by rintro i now ⟨⟩) ⟨{ job := .run .everything }, rfl, rfl, rfl⟩
  exact h₃.snoc (a := Action.callStarted 1) (by rintro i now ⟨⟩) ⟨rfl, rfl⟩

/-- A download is cancelled, its late call changes nothing, and the sync after it is the one job that is running. -/
theorem jobs_of_reaches_cancelled :
    Cancelled cancelledDownload 0 ∧
      (∀ now w', Step cancelledDownload (.callEnd 0 now) w' →
        w'.syncer.running = cancelledDownload.syncer.running ∧ w'.syncer.lastFullSync = none) ∧
      Running syncAfterCancelled 1 ∧ ∀ i, Running syncAfterCancelled i → i = 1 := by
  have hcancelled : Cancelled cancelledDownload 0 :=
    ⟨{ job := .downloadAttachmentsForMessage 5, cancelled := true }, rfl, rfl⟩
  have hrunning : Running syncAfterCancelled 1 := ⟨by decide, { job := .run .everything }, rfl, rfl⟩
  refine ⟨hcancelled, ?_, hrunning, ?_⟩
  · intro now w' hstep
    obtain ⟨hsilent, hhonest⟩ :=
      (jobs_of_reaches cancelledDownload_reached).2 _ w' (cancelledDownload_onTime now) hstep
    refine ⟨(hsilent 0 now (.inr rfl) hcancelled).1, ?_⟩
    by_contra hchanged
    obtain ⟨i, now', heq, -, t, ht, hjob⟩ := hhonest hchanged
    cases heq
    cases ht
    rcases hjob with h | h <;> cases h
  · intro i hi
    exact (jobs_of_reaches syncAfterCancelled_reached).1 i 1 hi hrunning

/-! ### A call that is late -/

/-- A full sync is requested before the cancelled download calls `finished`. -/
def lateCall : World :=
  { cancelledDownload with syncer := cancelledDownload.syncer.requestSync .everything }

private theorem lateCall_reached : Transition.Reaches Step (fun _ _ => True) {} lateCall :=
  (cancelledDownload_reached.mono fun _ _ _ => trivial).snoc (a := Action.requestSync .everything) trivial rfl

/-- The late call of the download stops the sync, and is taken for the end of a full sync. -/
theorem lateCall_not_silent :
    Transition.Reaches Step (fun _ _ => True) {} lateCall ∧ ∃ w', Step lateCall (.callEnd 0 7) w' ∧
      ¬ CancelledIsSilent lateCall (.callEnd 0 7) w' ∧ ¬ HonestLastFullSync lateCall (.callEnd 0 7) w' := by
  refine ⟨lateCall_reached, _, ⟨.finished, rfl, rfl⟩, fun hsilent => ?_, fun hhonest => ?_⟩
  · have hrunning := (hsilent 0 7 (.inr rfl) ⟨{ job := .downloadAttachmentsForMessage 5, cancelled := true }, rfl, rfl⟩).1
    revert hrunning
    decide
  · obtain ⟨i, now, heq, -, t, ht, hjob⟩ := hhonest (by decide)
    cases heq
    cases ht
    rcases hjob with h | h <;> cases h

end SyncerJobs

end KulloClient
