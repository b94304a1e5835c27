import KulloClient.Base.Runs
import KulloClient.Types

/-!
# SyncerImpl

The queue of the syncer.  All of its methods and callbacks hold `queueMutex_`, so each is one step.  The tasks it has
made stay in `tasks`, in the order in which they were made; a task that is replaced is destroyed, and that cancels it.
-/

namespace KulloClient

/-- `Api::SyncMode`. -/
inductive SyncMode
  | sendOnly
  | withoutAttachments
  | everything
  deriving DecidableEq

/-- What a task does: `SyncerRunWorker` or `SyncerDownloadAttachmentsForMessageWorker`. -/
inductive Job
  | run (mode : SyncMode)
  | downloadAttachmentsForMessage (msgId : IdType)
  deriving DecidableEq

structure AsyncTask where
  job : Job
  cancelled : Bool := false
  deriving DecidableEq

structure SyncerImpl where
  enqueuedSync : Option SyncMode := none
  messageAttachmentDownloadQueue : List IdType := []
  running : Bool := false
  /-- Which of the tasks `task_` is. -/
  task : Option Nat := none
  /-- The number of the clock's value. -/
  lastFullSync : Option Nat := none
  lastSyncMode : Option SyncMode := none
  tasks : List AsyncTask := []
  deriving DecidableEq

def AsyncTask.cancel (t : AsyncTask) : AsyncTask := { t with cancelled := true }

/-- The mode a job sets `lastSyncMode_` to. -/
def Job.mode : Job → Option SyncMode
  | .run mode => some mode
  | .downloadAttachmentsForMessage _ => none

namespace SyncerImpl

def cancelTask (s : SyncerImpl) (i : Nat) : SyncerImpl := { s with tasks := s.tasks.modify i AsyncTask.cancel }

/-- `runAsync` and `downloadAttachmentsForMessageAsync`, and the assignment to `task_`. -/
def start (s : SyncerImpl) (job : Job) : SyncerImpl :=
  let replaced := match s.task with
    | some i => s.cancelTask i
    | none => s
  { replaced with
    running := true
    lastSyncMode := job.mode
    task := some s.tasks.length
    tasks := replaced.tasks ++ [{ job := job }] }

def runNextJobIfIdle (s : SyncerImpl) : SyncerImpl :=
  if s.running then s
  else
    -- downloading attachments has highest priority
    match s.messageAttachmentDownloadQueue with
    | msgId :: queue =>
      { s with messageAttachmentDownloadQueue := queue }.start (.downloadAttachmentsForMessage msgId)
    | [] =>
      match s.enqueuedSync with
      | some mode => { s.start (.run mode) with enqueuedSync := none }
      | none => s

/-- How a request changes the enqueued sync and the queue. -/
def enqueue (s : SyncerImpl) : SyncMode → SyncerImpl
  | .sendOnly => if s.enqueuedSync.isNone then { s with enqueuedSync := some .sendOnly } else s
  | .withoutAttachments =>
    if s.enqueuedSync ≠ some .everything then { s with enqueuedSync := some .withoutAttachments } else s
  | .everything => { s with enqueuedSync := some .everything, messageAttachmentDownloadQueue := [] }

def requestSync (mode : SyncMode) (s : SyncerImpl) : SyncerImpl := (s.enqueue mode).runNextJobIfIdle

/-- A message is in the queue at most once; an `everything` sync encloses all attachments. -/
def enqueueDownload (s : SyncerImpl) (msgId : IdType) : SyncerImpl :=
  if s.enqueuedSync ≠ some .everything then
    if s.messageAttachmentDownloadQueue.contains msgId then s
    else { s with messageAttachmentDownloadQueue := s.messageAttachmentDownloadQueue ++ [msgId] }
  else s

def requestDownloadingAttachmentsForMessage (msgId : IdType) (s : SyncerImpl) : SyncerImpl :=
  (s.enqueueDownload msgId).runNextJobIfIdle

/-- `cancel`; there is no next state when `task_` is null, which is dereferenced. -/
def cancel (s : SyncerImpl) : Option SyncerImpl :=
  match s.task with
  | none => none
  | some i =>
    -- the task may still call back
    some { s.cancelTask i with
      messageAttachmentDownloadQueue := [], enqueuedSync := none, task := none, running := false }

def isSyncing (s : SyncerImpl) : Bool :=
  !s.messageAttachmentDownloadQueue.isEmpty || s.enqueuedSync.isSome || s.running

/-- `SyncerSyncerListener::finished`, at a time. -/
def finished (now : Nat) (s : SyncerImpl) : SyncerImpl :=
  -- the mode of the last job that was started
  let lastFullSync :=
    if s.lastSyncMode = some .withoutAttachments ∨ s.lastSyncMode = some .everything then some now else s.lastFullSync
  { s with lastFullSync := lastFullSync, running := false }.runNextJobIfIdle

/-- `SyncerSyncerListener::error`. -/
def error (s : SyncerImpl) : SyncerImpl :=
  -- what is enqueued stays so, and nothing is started
  match s.task with
  | some i => { s.cancelTask i with running := false }
  | none => { s with running := false }

/-! ### The operations as steps -/

inductive Action
  | requestSync (mode : SyncMode)
  | requestDownloadingAttachmentsForMessage (msgId : IdType)
  | cancel
  | started
  | finished (now : Nat)
  | error

/-- One operation; the callbacks are those of the running job. -/
def Step (s : SyncerImpl) : Action → SyncerImpl → Prop
  | .requestSync mode, s' => s' = s.requestSync mode
  | .requestDownloadingAttachmentsForMessage msgId, s' => s' = s.requestDownloadingAttachmentsForMessage msgId
  | .cancel, s' => s.cancel = some s'
  | .started, s' => s.running = true ∧ s' = s
  | .finished now, s' => s.running = true ∧ s' = s.finished now
  | .error, s' => s.running = true ∧ s' = s.error

/-- There is a job to run. -/
def HasWork (s : SyncerImpl) : Prop := s.messageAttachmentDownloadQueue ≠ [] ∨ s.enqueuedSync ≠ none

instance (s : SyncerImpl) : Decidable s.HasWork :=
  inferInstanceAs (Decidable (s.messageAttachmentDownloadQueue ≠ [] ∨ s.enqueuedSync ≠ none))

/-- A job is running, and has not been cancelled. -/
def JobRunning (s : SyncerImpl) : Prop :=
  s.running = true ∧ ∃ i t, s.task = some i ∧ s.tasks[i]? = some t ∧ t.cancelled = false

/-- An error comes when no other job is waiting. -/
def ErrorAtEnd (s : SyncerImpl) (a : Action) : Prop := a = .error → ¬ s.HasWork

/-! ### Starting jobs -/

@[simp] theorem length_cancelTask (s : SyncerImpl) (i : Nat) : (s.cancelTask i).tasks.length = s.tasks.length := by
  simp [cancelTask]

/-- The tasks before a new one: the replaced one is cancelled. -/
def replacedTasks (s : SyncerImpl) : List AsyncTask :=
  match s.task with
  | some i => s.tasks.modify i AsyncTask.cancel
  | none => s.tasks

@[simp] theorem length_replacedTasks (s : SyncerImpl) : s.replacedTasks.length = s.tasks.length := by
  unfold replacedTasks
  cases s.task <;> simp

theorem start_eq (s : SyncerImpl) (job : Job) :
    s.start job = { s with
      running := true, lastSyncMode := job.mode, task := some s.tasks.length,
      tasks := s.replacedTasks ++ [{ job := job }] } := by
  unfold start replacedTasks
  cases s.task <;> rfl

private theorem start_jobRunning (s : SyncerImpl) (job : Job) : (s.start job).JobRunning := by
  rw [start_eq]
  refine ⟨rfl, s.tasks.length, { job := job }, rfl, ?_, rfl⟩
  have hlen : s.tasks.length = s.replacedTasks.length := (length_replacedTasks s).symm
  dsimp only
  rw [hlen, List.getElem?_concat_length]

/-- What waits does not matter for the job that runs. -/
def withWaiting (s : SyncerImpl) (enqueuedSync : Option SyncMode) (queue : List IdType) : SyncerImpl :=
  { s with enqueuedSync := enqueuedSync, messageAttachmentDownloadQueue := queue }

theorem enqueue_eq (s : SyncerImpl) (mode : SyncMode) :
    s.enqueue mode = s.withWaiting (s.enqueue mode).enqueuedSync (s.enqueue mode).messageAttachmentDownloadQueue := by
  cases mode with
  | sendOnly =>
    unfold enqueue
    dsimp only
    split <;> rfl
  | withoutAttachments =>
    unfold enqueue
    dsimp only
    split <;> rfl
  | everything => rfl

theorem enqueueDownload_eq (s : SyncerImpl) (msgId : IdType) :
    s.enqueueDownload msgId =
      s.withWaiting (s.enqueueDownload msgId).enqueuedSync (s.enqueueDownload msgId).messageAttachmentDownloadQueue := by
  unfold enqueueDownload
  split
  · split <;> rfl
  · rfl

/-! ### The syncer does not sleep -/

/-- No job waits while none is running. -/
structure NeverSleeps (s : SyncerImpl) : Prop where
  awake : s.HasWork → s.running = true
  job : s.running = true → s.JobRunning

private theorem neverSleeps_runNextJobIfIdle {s : SyncerImpl} (h : s.running = true → s.JobRunning) :
    s.runNextJobIfIdle.NeverSleeps := by
  unfold runNextJobIfIdle
  split
  · next hrunning => exact ⟨fun _ => hrunning, h⟩
  · next hidle =>
    split
    · next msgId queue hqueue =>
      have hstart := start_jobRunning { s with messageAttachmentDownloadQueue := queue }
        (.downloadAttachmentsForMessage msgId)
      exact ⟨fun _ => hstart.1, fun _ => hstart⟩
    · next hqueue =>
      split
      · next mode henqueued =>
        obtain ⟨hrunning, hjob⟩ := start_jobRunning s (.run mode)
        exact ⟨fun _ => hrunning, fun _ => ⟨hrunning, hjob⟩⟩
      · next henqueued =>
        refine ⟨fun hwork => ?_, h⟩
        rcases hwork with hne | hne
        · exact absurd hqueue hne
        · exact absurd henqueued hne

private theorem neverSleeps_requestSync {s : SyncerImpl} (hs : s.NeverSleeps) (mode : SyncMode) :
    (s.requestSync mode).NeverSleeps := by
  refine neverSleeps_runNextJobIfIdle ?_
  rw [enqueue_eq]
  exact hs.job

private theorem neverSleeps_requestDownloading {s : SyncerImpl} (hs : s.NeverSleeps) (msgId : IdType) :
    (s.requestDownloadingAttachmentsForMessage msgId).NeverSleeps := by
  refine neverSleeps_runNextJobIfIdle ?_
  rw [enqueueDownload_eq]
  exact hs.job

private theorem neverSleeps_cancel {s s' : SyncerImpl} (h : s.cancel = some s') : s'.NeverSleeps := by
  unfold cancel at h
  split at h
  · cases h
  · cases h
    refine ⟨fun hwork => ?_, fun hrunning => ?_⟩
    · rcases hwork with hne | hne
      · exact absurd rfl hne
      · exact absurd rfl hne
    · cases hrunning

private theorem neverSleeps_finished (s : SyncerImpl) (now : Nat) : (s.finished now).NeverSleeps := by
  refine neverSleeps_runNextJobIfIdle (fun hrunning => ?_)
  cases hrunning

private theorem error_running (s : SyncerImpl) : s.error.running = false := by
  unfold error
  split <;> rfl

private theorem error_hasWork (s : SyncerImpl) : s.error.HasWork ↔ s.HasWork := by
  unfold error
  split <;> exact Iff.rfl

private theorem neverSleeps_error {s : SyncerImpl} (hwork : ¬ s.HasWork) : s.error.NeverSleeps := by
  refine ⟨fun h => absurd ((error_hasWork s).mp h) hwork, fun hrunning => ?_⟩
  rw [error_running] at hrunning
  cases hrunning

private theorem neverSleeps_step {s s' : SyncerImpl} {a : Action} (hs : s.NeverSleeps) (hok : ErrorAtEnd s a)
    (hstep : Step s a s') : s'.NeverSleeps := by
  cases a with
  | requestSync mode =>
    cases hstep
    exact neverSleeps_requestSync hs mode
  | requestDownloadingAttachmentsForMessage msgId =>
    cases hstep
    exact neverSleeps_requestDownloading hs msgId
  | cancel => exact neverSleeps_cancel hstep
  | started =>
    obtain ⟨-, rfl⟩ := hstep
    exact hs
  | finished now =>
    obtain ⟨-, rfl⟩ := hstep
    exact neverSleeps_finished s now
  | error =>
    obtain ⟨-, rfl⟩ := hstep
    exact neverSleeps_error (hok rfl)

/-! ### Completions -/

/-- How a job comes to its end: `some` time for `finished`, and `none` for `error`. -/
abbrev Completion := Option Nat

def complete (s : SyncerImpl) : Completion → SyncerImpl
  | some now => s.finished now
  | none => s.error

/-- Jobs that complete one after the other, with errors only at the end. -/
def Completions : List Completion → SyncerImpl → Prop
  | [], _ => True
  | c :: cs, s => s.running = true ∧ (c = none → ¬ s.HasWork) ∧ Completions cs (s.complete c)

/-- The jobs there are: running, in the queue and enqueued. -/
def pending (s : SyncerImpl) : Nat :=
  s.messageAttachmentDownloadQueue.length + (if s.enqueuedSync.isSome then 1 else 0) + if s.running then 1 else 0

private theorem isSyncing_iff {s : SyncerImpl} : s.isSyncing = true ↔ 0 < s.pending := by
  unfold isSyncing pending
  cases s.messageAttachmentDownloadQueue <;> cases s.enqueuedSync <;> cases s.running <;> simp

private theorem isSyncing_of_jobRunning {s : SyncerImpl} (hs : s.NeverSleeps) : s.isSyncing = true ↔ s.JobRunning := by
  unfold isSyncing
  constructor
  · intro h
    refine hs.job ?_
    by_contra hidle
    have hwork : ¬ s.HasWork := fun hwork => hidle (hs.awake hwork)
    unfold HasWork at hwork
    push Not at hwork
    simp [hwork.1, hwork.2, hidle] at h
  · intro h
    simp [h.1]

@[simp] theorem start_queue (s : SyncerImpl) (job : Job) :
    (s.start job).messageAttachmentDownloadQueue = s.messageAttachmentDownloadQueue := by
  rw [start_eq]

@[simp] theorem start_enqueuedSync (s : SyncerImpl) (job : Job) : (s.start job).enqueuedSync = s.enqueuedSync := by
  rw [start_eq]

@[simp] theorem start_running (s : SyncerImpl) (job : Job) : (s.start job).running = true := by
  rw [start_eq]

/-- A job that starts is not in the queue any more. -/
theorem pending_runNextJobIfIdle (s : SyncerImpl) : s.runNextJobIfIdle.pending = s.pending := by
  unfold runNextJobIfIdle
  split
  · rfl
  · next hidle =>
    split
    · next msgId queue hqueue =>
      simp only [pending, start_queue, start_enqueuedSync, start_running, if_true, hqueue, List.length_cons, hidle]
      simp only [Bool.false_eq_true, if_false]
      omega
    · next hqueue =>
      split
      · next mode henqueued => simp [pending, hqueue, henqueued, hidle]
      · rfl

private theorem pending_complete {s : SyncerImpl} (hrunning : s.running = true) (c : Completion) :
    (s.complete c).pending + 1 = s.pending := by
  cases c with
  | some now =>
    unfold complete finished
    rw [pending_runNextJobIfIdle]
    simp [pending, hrunning]
  | none =>
    change s.error.pending + 1 = s.pending
    unfold error
    cases s.task <;> simp [pending, cancelTask, hrunning]

private theorem pending_completions {cs : List Completion} {s : SyncerImpl} (h : Completions cs s) :
    (cs.foldl complete s).pending + cs.length = s.pending := by
  induction cs generalizing s with
  | nil => rfl
  | cons c cs ih =>
    obtain ⟨hrunning, -, hrest⟩ := h
    have hone := pending_complete hrunning c
    have hcs := ih hrest
    rw [List.foldl_cons, List.length_cons]
    omega

private theorem reaches_completions {cs : List Completion} {s : SyncerImpl} (h : Completions cs s) :
    Transition.Reaches Step ErrorAtEnd s (cs.foldl complete s) := by
  induction cs generalizing s with
  | nil => exact .refl
  | cons c cs ih =>
    obtain ⟨hrunning, hend, hrest⟩ := h
    have hone : Transition.Reaches Step ErrorAtEnd s (s.complete c) := by
      cases c with
      | some now => exact Transition.Reaches.refl.snoc (a := .finished now) (by rintro ⟨⟩) ⟨hrunning, rfl⟩
      | none => exact Transition.Reaches.refl.snoc (a := .error) (fun _ => hend rfl) ⟨hrunning, rfl⟩
    exact hone.trans (ih hrest)

/-- In a run in which no job fails while others wait, a waiting job means that one is running; and the jobs there are
complete one after the other, until none is left. -/
theorem neverSleeps_of_reaches {s : SyncerImpl} (h : Transition.Reaches Step ErrorAtEnd {} s) :
    (s.HasWork → s.JobRunning) ∧
      ∃ n, ∀ cs, Completions cs s →
        cs.length ≤ n ∧ ((cs.foldl complete s).isSyncing = true ↔ (cs.foldl complete s).JobRunning) ∧
          (cs.length = n → (cs.foldl complete s).isSyncing = false) := by
  have hstart : NeverSleeps {} := ⟨fun hwork => by simp [HasWork] at hwork, fun hrunning => by cases hrunning⟩
  have hkeeps : ∀ {s'}, Transition.Reaches Step ErrorAtEnd {} s' → s'.NeverSleeps := fun h' =>
    h'.keeps (fun s a s' hs hok hstep => neverSleeps_step hs hok hstep) hstart
  have hs := hkeeps h
  refine ⟨fun hwork => hs.job (hs.awake hwork), s.pending, fun cs hcs => ?_⟩
  -- each completion takes one of the pending jobs
  have hpending := pending_completions hcs
  refine ⟨by omega, isSyncing_of_jobRunning (hkeeps (h.trans (reaches_completions hcs))), fun hlen => ?_⟩
  rw [Bool.eq_false_iff]
  intro hsyncing
  have := isSyncing_iff.mp hsyncing
  omega

/-- A message whose attachments are requested while a sync is running that fails. -/
def failedWithQueue : SyncerImpl := (requestDownloadingAttachmentsForMessage 5 (requestSync .everything {})).error

theorem neverSleeps_of_reaches_syncing :
    (requestDownloadingAttachmentsForMessage 5 (requestSync .everything {})).JobRunning :=
  (neverSleeps_of_reaches (Transition.Reaches.refl.snoc (a := .requestSync .everything) (by rintro ⟨⟩) rfl |>.snoc
    (a := .requestDownloadingAttachmentsForMessage 5) (by rintro ⟨⟩) rfl)).1 (by decide)

/-- After an error the queue is left as it is, and nothing runs. -/
theorem sleeps_after_error :
    Transition.Reaches Step (fun _ _ => True) {} failedWithQueue ∧ failedWithQueue.HasWork ∧
      ¬ failedWithQueue.JobRunning ∧ failedWithQueue.isSyncing = true := by
  refine ⟨?_, by decide, fun h => ?_, by decide⟩
  · exact ((Transition.Reaches.refl.snoc (a := .requestSync .everything) trivial rfl).snoc
      (a := .requestDownloadingAttachmentsForMessage 5) trivial rfl).snoc (a := .error) trivial ⟨by decide, rfl⟩
  · have := h.1
    revert this
    decide

end SyncerImpl

end KulloClient
