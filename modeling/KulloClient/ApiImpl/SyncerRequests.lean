import KulloClient.ApiImpl.SyncerJobs
import Mathlib.Data.List.Induction

/-!
# The requests of the syncer

What becomes of the requests in a sequence of calls and callbacks.  A request waits, in the queue or as the enqueued
sync, or in a request that encloses it, until a job that covers it is started; only `cancel` drops it.  The exception is
`cancel` itself, which dereferences `task_` without a check.
-/

namespace KulloClient

/-- What a sync with the second mode does includes what one with the first does. -/
def SyncMode.Within : SyncMode → SyncMode → Prop
  | .sendOnly, _ => True
  | .withoutAttachments, mode => mode ≠ .sendOnly
  | .everything, mode => mode = .everything

theorem SyncMode.Within.refl (mode : SyncMode) : mode.Within mode := by
  cases mode <;> simp [Within]

private theorem SyncMode.within_everything (mode : SyncMode) : mode.Within .everything := by
  cases mode <;> simp [Within]

namespace SyncerImpl

/-- A call or a callback, at any time; there is no next state when a null pointer is dereferenced. -/
def perform (s : SyncerImpl) : Action → Option SyncerImpl
  | .requestSync mode => some (s.requestSync mode)
  | .requestDownloadingAttachmentsForMessage msgId => some (s.requestDownloadingAttachmentsForMessage msgId)
  | .cancel => s.cancel
  | .started => some s
  | .finished now => some (s.finished now)
  | .error => some s.error

def performs (s : SyncerImpl) (as : List Action) : Option SyncerImpl := as.foldlM perform s

/-- The jobs that were started, in this order. -/
def jobs (s : SyncerImpl) : List Job := s.tasks.map AsyncTask.job

/-- Requests are accepted when the message id is in range. -/
def Action.IsRequest : Action → Prop
  | .requestSync _ => True
  | .requestDownloadingAttachmentsForMessage _ => True
  | _ => False

def Action.downloadId : Action → Option IdType
  | .requestDownloadingAttachmentsForMessage msgId => some msgId
  | _ => none

end SyncerImpl

def Job.downloadId : Job → Option IdType
  | .downloadAttachmentsForMessage msgId => some msgId
  | .run _ => none

/-- The job does what is requested. -/
def Job.Covers (job : Job) : SyncerImpl.Action → Prop
  | .requestSync mode => ∃ mode', job = .run mode' ∧ mode.Within mode'
  | .requestDownloadingAttachmentsForMessage msgId => job = .downloadAttachmentsForMessage msgId ∨ job = .run .everything
  | _ => False

namespace SyncerImpl

/-- A job that will cover the request is in the queue or enqueued. -/
def Waits (s : SyncerImpl) : Action → Prop
  | .requestSync mode => ∃ mode', s.enqueuedSync = some mode' ∧ mode.Within mode'
  | .requestDownloadingAttachmentsForMessage msgId =>
    msgId ∈ s.messageAttachmentDownloadQueue ∨ s.enqueuedSync = some .everything
  | _ => False

/-- One of the jobs that were started from the first state to the second one covers the request. -/
def Covered (s₁ s : SyncerImpl) (a : Action) : Prop := ∃ job ∈ s.jobs.drop s₁.jobs.length, job.Covers a

/-- Neither canceled, nor ended by an error. -/
def Undisturbed (as : List Action) : Prop := ∀ a ∈ as, a ≠ .cancel ∧ a ≠ .error

/-- The requests of a sequence of calls and callbacks are served. -/
structure Served (as : List Action) : Prop where
  safe : (performs {} as).isSome
  /-- An undisturbed request is covered; or it waits while a job is running, and is covered after some completions. -/
  covered : ∀ before a after s₁ s, as = before ++ a :: after → performs {} before = some s₁ →
    performs {} as = some s → a.IsRequest → Undisturbed after →
    (Covered s₁ s a ∨ s.Waits a ∧ s.running = true) ∧
      ∃ n, ∀ times : List Nat, n ≤ times.length →
        ∃ s', performs {} (as ++ times.map .finished) = some s' ∧ Covered s₁ s' a
  /-- No id is queued twice, and downloads are started in the order of their requests. -/
  ordered : ∀ s, performs {} as = some s → s.messageAttachmentDownloadQueue.Nodup ∧
    (s.jobs.filterMap Job.downloadId).Sublist (as.filterMap Action.downloadId)

/-- There was a request after the last `cancel`. -/
def RequestedSinceCancel (as : List Action) : Prop :=
  ∃ before a after, as = before ++ a :: after ∧ a.IsRequest ∧ .cancel ∉ after

/-! ### One step -/

@[simp] theorem jobs_cancelTask (s : SyncerImpl) (i : Nat) : (s.cancelTask i).jobs = s.jobs := by
  unfold jobs cancelTask
  dsimp only
  refine List.ext_getElem? fun j => ?_
  rw [List.getElem?_map, List.getElem?_map, List.getElem?_modify]
  cases s.tasks[j]? with
  | none => rfl
  | some t =>
    by_cases hij : i = j
    · simp [hij, AsyncTask.cancel]
    · simp [hij]

@[simp] theorem jobs_start (s : SyncerImpl) (job : Job) : (s.start job).jobs = s.jobs ++ [job] := by
  have hreplaced : s.replacedTasks.map AsyncTask.job = s.jobs := by
    unfold replacedTasks
    cases s.task with
    | none => rfl
    | some i => exact jobs_cancelTask s i
  rw [start_eq]
  unfold jobs at *
  rw [List.map_append, hreplaced]
  rfl

/-- What one step does to the jobs, and to what waits but for its own request. -/
structure Serves (s s' : SyncerImpl) (started : List Job) : Prop where
  jobs : s'.jobs = s.jobs ++ started
  queue : (started.filterMap Job.downloadId ++ s'.messageAttachmentDownloadQueue).Sublist s.messageAttachmentDownloadQueue
  waits : ∀ a, s.Waits a → s'.Waits a ∨ ∃ job ∈ started, job.Covers a

private theorem serves_refl (s : SyncerImpl) : Serves s s [] :=
  ⟨(List.append_nil _).symm, List.Sublist.refl _, fun _ h => .inl h⟩

private theorem waits_requestDownloading {s : SyncerImpl} {msgId : IdType} :
    s.Waits (.requestDownloadingAttachmentsForMessage msgId) ↔
      msgId ∈ s.messageAttachmentDownloadQueue ∨ s.enqueuedSync = some .everything := Iff.rfl

theorem Waits.of_eq {s s' : SyncerImpl} {a : Action} (h : s.Waits a) (henqueued : s'.enqueuedSync = s.enqueuedSync)
    (hqueue : s'.messageAttachmentDownloadQueue = s.messageAttachmentDownloadQueue) : s'.Waits a := by
  unfold Waits at *
  rw [henqueued, hqueue]
  exact h

/-- The job that is started covers what waited for it. -/
theorem serves_runNextJobIfIdle (s : SyncerImpl) : ∃ started, Serves s s.runNextJobIfIdle started := by
  unfold runNextJobIfIdle
  by_cases hrunning : s.running = true
  · rw [if_pos hrunning]
    exact ⟨[], serves_refl s⟩
  · rw [if_neg hrunning]
    cases hqueue : s.messageAttachmentDownloadQueue with
    -- downloads come before syncs
    | cons msgId queue =>
      refine ⟨[.downloadAttachmentsForMessage msgId], ?_, ?_, ?_⟩
      · exact jobs_start _ _
      · rw [start_queue, hqueue]
        exact List.Sublist.refl _
      · intro a ha
        cases a with
        | requestSync mode =>
          left
          exact Waits.of_eq (s := { s with messageAttachmentDownloadQueue := queue }) ha (start_enqueuedSync _ _)
            (start_queue _ _)
        | requestDownloadingAttachmentsForMessage id =>
          rw [waits_requestDownloading] at ha ⊢
          dsimp only
          rw [hqueue, List.mem_cons] at ha
          rw [start_queue, start_enqueuedSync]
          rcases ha with (rfl | hmem) | heverything
          · exact .inr ⟨_, List.mem_singleton_self _, .inl rfl⟩
          · exact .inl (.inl hmem)
          · exact .inl (.inr heverything)
        | _ => exact ha.elim
    | nil =>
      cases henqueued : s.enqueuedSync with
      | none => exact ⟨[], serves_refl s⟩
      | some mode =>
        refine ⟨[.run mode], ?_, ?_, ?_⟩
        · exact jobs_start s (.run mode)
        · dsimp only
          rw [start_queue]
          exact List.Sublist.refl _
        -- all that waits is covered by the sync that starts
        · intro a ha
          right
          refine ⟨_, List.mem_singleton_self _, ?_⟩
          cases a with
          | requestSync mode' =>
            obtain ⟨enclosing, henclosing, hwithin⟩ := ha
            rw [henqueued] at henclosing
            cases henclosing
            exact ⟨mode, rfl, hwithin⟩
          | requestDownloadingAttachmentsForMessage id =>
            rw [waits_requestDownloading, hqueue, henqueued] at ha
            rcases ha with hmem | heverything
            · cases hmem
            · cases heverything
              exact .inr rfl
          | _ => exact ha.elim

/-- A request waits once it is enqueued, and so does what waited before. -/
theorem waits_enqueue (s : SyncerImpl) (mode : SyncMode) :
    (s.enqueue mode).Waits (.requestSync mode) ∧ ∀ a, s.Waits a → (s.enqueue mode).Waits a := by
  cases mode with
  | everything =>
    -- the largest mode covers whatever waits
    refine ⟨⟨.everything, rfl, SyncMode.Within.refl _⟩, fun a ha => ?_⟩
    cases a with
    | requestSync mode' => exact ⟨.everything, rfl, SyncMode.within_everything mode'⟩
    | requestDownloadingAttachmentsForMessage id => exact .inr rfl
    | _ => exact ha.elim
  | withoutAttachments =>
    unfold enqueue
    dsimp only
    by_cases heverything : s.enqueuedSync = some .everything
    · rw [if_neg (by simp [heverything])]
      exact ⟨⟨.everything, heverything, SyncMode.within_everything _⟩, fun _ ha => ha⟩
    · rw [if_pos heverything]
      refine ⟨⟨.withoutAttachments, rfl, SyncMode.Within.refl _⟩, fun a ha => ?_⟩
      cases a with
      | requestSync mode' =>
        obtain ⟨enclosing, henclosing, hwithin⟩ := ha
        refine ⟨.withoutAttachments, rfl, ?_⟩
        cases mode' with
        | sendOnly => trivial
        | withoutAttachments => exact SyncMode.Within.refl _
        | everything =>
          cases hwithin
          exact absurd henclosing heverything
      | requestDownloadingAttachmentsForMessage id =>
        rcases ha with hmem | heverything'
        · exact .inl hmem
        · exact absurd heverything' heverything
      | _ => exact ha.elim
  | sendOnly =>
    unfold enqueue
    dsimp only
    cases henqueued : s.enqueuedSync with
    | some mode =>
      -- `SendOnly` is part of every mode that waits
      rw [if_neg (by simp)]
      exact ⟨⟨mode, henqueued, trivial⟩, fun _ ha => ha⟩
    | none =>
      rw [if_pos (by simp)]
      refine ⟨⟨.sendOnly, rfl, trivial⟩, fun a ha => ?_⟩
      cases a with
      | requestSync mode' =>
        obtain ⟨enclosing, henclosing, -⟩ := ha
        rw [henqueued] at henclosing
        cases henclosing
      | requestDownloadingAttachmentsForMessage id =>
        rcases ha with hmem | heverything
        · exact .inl hmem
        · rw [henqueued] at heverything
          cases heverything
      | _ => exact ha.elim

private theorem waits_enqueueDownload (s : SyncerImpl) (msgId : IdType) :
    (s.enqueueDownload msgId).Waits (.requestDownloadingAttachmentsForMessage msgId) ∧
      ∀ a, s.Waits a → (s.enqueueDownload msgId).Waits a := by
  unfold enqueueDownload
  by_cases heverything : s.enqueuedSync = some .everything
  · rw [if_neg (by simp [heverything])]
    exact ⟨.inr heverything, fun _ ha => ha⟩
  · rw [if_pos heverything]
    by_cases hmem : s.messageAttachmentDownloadQueue.contains msgId = true
    · rw [if_pos hmem]
      exact ⟨.inl (List.contains_iff_mem.mp hmem), fun _ ha => ha⟩
    · rw [if_neg hmem]
      refine ⟨.inl (by simp), fun a ha => ?_⟩
      cases a with
      | requestSync mode => exact ha
      | requestDownloadingAttachmentsForMessage id =>
        rcases ha with hid | henqueued
        · exact .inl (List.mem_append_left _ hid)
        · exact .inr henqueued
      | _ => exact ha.elim

/-- What a call or a callback does. -/
structure Performed (s : SyncerImpl) (a : Action) (s' : SyncerImpl) (started : List Job) : Prop where
  jobs : s'.jobs = s.jobs ++ started
  ordered : (started.filterMap Job.downloadId ++ s'.messageAttachmentDownloadQueue).Sublist
    (s.messageAttachmentDownloadQueue ++ a.downloadId.toList)
  nodup : s.messageAttachmentDownloadQueue.Nodup → s'.messageAttachmentDownloadQueue.Nodup
  request : a.IsRequest → s'.Waits a ∨ ∃ job ∈ started, job.Covers a
  waits : a ≠ .cancel → ∀ b, s.Waits b → s'.Waits b ∨ ∃ job ∈ started, job.Covers b

theorem Serves.nodup {s s' : SyncerImpl} {started : List Job} (h : Serves s s' started)
    (hs : s.messageAttachmentDownloadQueue.Nodup) : s'.messageAttachmentDownloadQueue.Nodup :=
  ((List.sublist_append_right _ _).trans h.queue).nodup hs

private theorem performed_requestSync (s : SyncerImpl) (mode : SyncMode) :
    ∃ started, Performed s (.requestSync mode) (s.requestSync mode) started := by
  obtain ⟨started, hserves⟩ := serves_runNextJobIfIdle (s.enqueue mode)
  obtain ⟨hrequest, hwaits⟩ := waits_enqueue s mode
  have hqueue : (s.enqueue mode).messageAttachmentDownloadQueue.Sublist s.messageAttachmentDownloadQueue := by
    unfold enqueue
    cases mode with
    | everything => exact List.nil_sublist _
    | _ => dsimp only; split <;> exact List.Sublist.refl _
  have hjobs : (s.enqueue mode).jobs = s.jobs := by rw [enqueue_eq]; rfl
  refine ⟨started, ?_, ?_, ?_, ?_, ?_⟩
  · rw [← hjobs]
    exact hserves.jobs
  · exact (hserves.queue.trans hqueue).trans (List.sublist_append_left _ _)
  · exact fun hs => hserves.nodup (hqueue.nodup hs)
  · exact fun _ => hserves.waits _ hrequest
  · exact fun _ b hb => hserves.waits b (hwaits b hb)

private theorem performed_requestDownloading (s : SyncerImpl) (msgId : IdType) :
    ∃ started, Performed s (.requestDownloadingAttachmentsForMessage msgId)
      (s.requestDownloadingAttachmentsForMessage msgId) started := by
  obtain ⟨started, hserves⟩ := serves_runNextJobIfIdle (s.enqueueDownload msgId)
  obtain ⟨hrequest, hwaits⟩ := waits_enqueueDownload s msgId
  have hqueue : (s.enqueueDownload msgId).messageAttachmentDownloadQueue.Sublist
      (s.messageAttachmentDownloadQueue ++ [msgId]) ∧
        (s.messageAttachmentDownloadQueue.Nodup → (s.enqueueDownload msgId).messageAttachmentDownloadQueue.Nodup) := by
    unfold enqueueDownload
    by_cases heverything : s.enqueuedSync = some .everything
    · rw [if_neg (by simp [heverything])]
      exact ⟨List.sublist_append_left _ _, id⟩
    · rw [if_pos heverything]
      by_cases hmem : s.messageAttachmentDownloadQueue.contains msgId = true
      · rw [if_pos hmem]
        exact ⟨List.sublist_append_left _ _, id⟩
      · rw [if_neg hmem]
        refine ⟨List.Sublist.refl _, fun hs => ?_⟩
        have hnot : msgId ∉ s.messageAttachmentDownloadQueue := fun h => hmem (List.contains_iff_mem.mpr h)
        exact List.nodup_append.mpr ⟨hs, by simp, fun x hx y hy hxy => by
          rw [List.mem_singleton] at hy
          exact hnot (by rwa [hxy, hy] at hx)⟩
  have hjobs : (s.enqueueDownload msgId).jobs = s.jobs := by rw [enqueueDownload_eq]; rfl
  refine ⟨started, ?_, ?_, ?_, ?_, ?_⟩
  · rw [← hjobs]
    exact hserves.jobs
  · exact hserves.queue.trans hqueue.1
  · exact fun hs => hserves.nodup (hqueue.2 hs)
  · exact fun _ => hserves.waits _ hrequest
  · exact fun _ b hb => hserves.waits b (hwaits b hb)

private theorem performed_of_perform {s s' : SyncerImpl} {a : Action} (h : s.perform a = some s') :
    ∃ started, Performed s a s' started := by
  cases a with
  | requestSync mode =>
    cases h
    exact performed_requestSync s mode
  | requestDownloadingAttachmentsForMessage msgId =>
    cases h
    exact performed_requestDownloading s msgId
  | cancel =>
    unfold perform cancel at h
    cases htask : s.task with
    | none =>
      rw [htask] at h
      cases h
    | some i =>
      rw [htask] at h
      cases h
      refine ⟨[], ?_, List.nil_sublist _, fun _ => List.nodup_nil, False.elim, fun hne => absurd rfl hne⟩
      rw [List.append_nil]
      exact jobs_cancelTask s i
  | started =>
    cases h
    refine ⟨[], (List.append_nil _).symm, ?_, id, False.elim, fun _ _ hb => .inl hb⟩
    exact List.sublist_append_left _ _
  | finished now =>
    cases h
    unfold finished
    dsimp only
    generalize (if s.lastSyncMode = some .withoutAttachments ∨ s.lastSyncMode = some .everything then some now
      else s.lastFullSync) = time
    obtain ⟨started, hserves⟩ := serves_runNextJobIfIdle { s with lastFullSync := time, running := false }
    refine ⟨started, hserves.jobs, hserves.queue.trans (List.sublist_append_left _ _), hserves.nodup, False.elim, ?_⟩
    exact fun _ b hb => hserves.waits b (hb.of_eq rfl rfl)
  | error =>
    cases h
    have hsame : s.error.jobs = s.jobs ∧ s.error.messageAttachmentDownloadQueue = s.messageAttachmentDownloadQueue ∧
        s.error.enqueuedSync = s.enqueuedSync := by
      unfold error
      cases s.task with
      | none => exact ⟨rfl, rfl, rfl⟩
      | some i => exact ⟨jobs_cancelTask s i, rfl, rfl⟩
    obtain ⟨hjobs, hqueue, henqueued⟩ := hsame
    refine ⟨[], ?_, ?_, ?_, False.elim, fun _ _ hb => .inl (hb.of_eq henqueued hqueue)⟩
    · rw [hjobs, List.append_nil]
    · rw [hqueue]
      exact List.sublist_append_left _ _
    · rw [hqueue]
      exact id

/-! ### Sequences of calls and callbacks -/

private theorem performs_append (s : SyncerImpl) (as bs : List Action) :
    s.performs (as ++ bs) = (s.performs as).bind fun s' => s'.performs bs := List.foldlM_append

private theorem performs_singleton (s : SyncerImpl) (a : Action) : s.performs [a] = s.perform a := by
  unfold performs
  rw [List.foldlM_cons]
  cases s.perform a <;> rfl

private theorem performs_concat (s : SyncerImpl) (as : List Action) (a : Action) :
    s.performs (as ++ [a]) = (s.performs as).bind fun s' => s'.perform a := by
  rw [performs_append]
  refine congrArg _ (funext fun s' => performs_singleton s' a)

private theorem ordered_of_performs {as : List Action} {s : SyncerImpl} (h : performs {} as = some s) :
    s.messageAttachmentDownloadQueue.Nodup ∧
      (s.jobs.filterMap Job.downloadId ++ s.messageAttachmentDownloadQueue).Sublist (as.filterMap Action.downloadId) := by
  induction as using List.reverseRecOn generalizing s with
  | nil =>
    cases h
    exact ⟨List.nodup_nil, List.Sublist.refl _⟩
  | append_singleton as a ih =>
    rw [performs_concat] at h
    obtain ⟨s', hs', hperform⟩ := Option.bind_eq_some_iff.mp h
    obtain ⟨hnodup, hsublist⟩ := ih hs'
    obtain ⟨started, hperformed⟩ := performed_of_perform hperform
    refine ⟨hperformed.nodup hnodup, ?_⟩
    have hrequest : [a].filterMap Action.downloadId = a.downloadId.toList := by
      cases ha : a.downloadId <;> simp [ha]
    rw [List.filterMap_append, hrequest, hperformed.jobs, List.filterMap_append, List.append_assoc]
    refine ((List.Sublist.refl _).append hperformed.ordered).trans ?_
    rw [← List.append_assoc]
    exact hsublist.append (List.Sublist.refl _)

/-- What is covered stays covered. -/
theorem Covered.of_performed {s₁ s s' : SyncerImpl} {a b : Action} {started : List Job} (h : Covered s₁ s a)
    (hperformed : Performed s b s' started) : Covered s₁ s' a := by
  obtain ⟨job, hmem, hcovers⟩ := h
  refine ⟨job, ?_, hcovers⟩
  rw [hperformed.jobs, List.drop_append]
  exact List.mem_append_left _ hmem

private theorem covered_of_started {s₁ s s' : SyncerImpl} {a b : Action} {started : List Job}
    (hlen : s₁.jobs.length ≤ s.jobs.length) (hperformed : Performed s b s' started)
    (h : ∃ job ∈ started, job.Covers a) : Covered s₁ s' a := by
  obtain ⟨job, hmem, hcovers⟩ := h
  refine ⟨job, ?_, hcovers⟩
  rw [hperformed.jobs, List.drop_append_of_le_length hlen]
  exact List.mem_append_right _ hmem

private theorem hasWork_of_waits {s : SyncerImpl} {a : Action} (h : s.Waits a) : s.HasWork := by
  cases a with
  | requestSync mode =>
    obtain ⟨mode', hmode', -⟩ := h
    exact .inr (by rw [hmode']; exact Option.some_ne_none _)
  | requestDownloadingAttachmentsForMessage msgId =>
    rcases h with hmem | heverything
    · exact .inl (List.ne_nil_of_mem hmem)
    · exact .inr (by rw [heverything]; exact Option.some_ne_none _)
  | _ => exact h.elim

private theorem awake_runNextJobIfIdle (s : SyncerImpl) (h : s.runNextJobIfIdle.HasWork) : s.runNextJobIfIdle.running = true := by
  unfold runNextJobIfIdle at *
  by_cases hrunning : s.running = true
  · rw [if_pos hrunning]
    exact hrunning
  · rw [if_neg hrunning] at *
    cases hqueue : s.messageAttachmentDownloadQueue with
    | cons msgId queue => exact start_running _ _
    | nil =>
      cases henqueued : s.enqueuedSync with
      | some mode => exact start_running s (.run mode)
      | none =>
        rw [hqueue, henqueued] at h
        rcases h with hne | hne
        · exact absurd hqueue hne
        · exact absurd henqueued hne

/-- A request and a completion leave nothing waiting without a job that runs. -/
theorem awake_of_perform {s s' : SyncerImpl} {a : Action} (h : s.perform a = some s')
    (ha : a.IsRequest ∨ (s.HasWork → s.running = true) ∧ a ≠ .cancel ∧ a ≠ .error) :
    s'.HasWork → s'.running = true := by
  cases a with
  | requestSync mode =>
    cases h
    exact awake_runNextJobIfIdle _
  | requestDownloadingAttachmentsForMessage msgId =>
    cases h
    exact awake_runNextJobIfIdle _
  | finished now =>
    cases h
    exact awake_runNextJobIfIdle _
  | started =>
    cases h
    rcases ha with hrequest | ⟨hawake, -⟩
    · exact hrequest.elim
    · exact hawake
  | cancel =>
    rcases ha with hrequest | ⟨-, hne, -⟩
    · exact hrequest.elim
    · exact absurd rfl hne
  | error =>
    rcases ha with hrequest | ⟨-, -, hne⟩
    · exact hrequest.elim
    · exact absurd rfl hne

/-- What is kept of a request while nothing disturbs it. -/
structure Kept (s₁ s : SyncerImpl) (a : Action) : Prop where
  later : s₁.jobs.length ≤ s.jobs.length
  waits : Covered s₁ s a ∨ s.Waits a
  awake : s.HasWork → s.running = true

private theorem kept_request {s s' : SyncerImpl} {a : Action} (ha : a.IsRequest) (h : s.perform a = some s') : Kept s s' a := by
  obtain ⟨started, hperformed⟩ := performed_of_perform h
  refine ⟨?_, ?_, awake_of_perform h (.inl ha)⟩
  · rw [hperformed.jobs, List.length_append]
    omega
  · rcases hperformed.request ha with hwaits | hstarted
    · exact .inr hwaits
    · exact .inl (covered_of_started (Nat.le_refl _) hperformed hstarted)

theorem Kept.perform {s₁ s s' : SyncerImpl} {a b : Action} (hkept : Kept s₁ s a) (hb : b ≠ .cancel ∧ b ≠ .error)
    (h : s.perform b = some s') : Kept s₁ s' a := by
  obtain ⟨started, hperformed⟩ := performed_of_perform h
  refine ⟨?_, ?_, awake_of_perform h (.inr ⟨hkept.awake, hb⟩)⟩
  · have hlater := hkept.later
    rw [hperformed.jobs, List.length_append]
    omega
  · rcases hkept.waits with hcovered | hwaits
    · exact .inl (hcovered.of_performed hperformed)
    · rcases hperformed.waits hb.1 a hwaits with hwaits' | hstarted
      · exact .inr hwaits'
      · exact .inl (covered_of_started hkept.later hperformed hstarted)

private theorem Kept.performs {s₁ s s' : SyncerImpl} {a : Action} {as : List Action} (hkept : Kept s₁ s a)
    (has : Undisturbed as) (h : s.performs as = some s') : Kept s₁ s' a := by
  induction as generalizing s with
  | nil =>
    cases h
    exact hkept
  | cons b as ih =>
    unfold Undisturbed at has
    rw [List.forall_mem_cons] at has
    unfold SyncerImpl.performs at h
    rw [List.foldlM_cons] at h
    obtain ⟨s'', hperform, hrest⟩ := Option.bind_eq_some_iff.mp h
    exact ih (hkept.perform has.1 hperform) has.2 hrest

/-! ### Completions serve what waits -/

def waiting (s : SyncerImpl) : Nat := s.messageAttachmentDownloadQueue.length + if s.enqueuedSync.isSome then 1 else 0

private theorem waiting_finished (s : SyncerImpl) (now : Nat) : (s.finished now).waiting = s.waiting - 1 := by
  unfold finished
  dsimp only
  unfold runNextJobIfIdle
  rw [if_neg (by simp)]
  dsimp only
  cases hqueue : s.messageAttachmentDownloadQueue with
  | cons msgId queue =>
    simp only [waiting, start_queue, start_enqueuedSync, hqueue, List.length_cons]
    omega
  | nil =>
    cases henqueued : s.enqueuedSync with
    | none => simp [waiting, hqueue, henqueued]
    | some mode => simp [waiting, hqueue, henqueued]

private theorem performs_finished (s : SyncerImpl) (times : List Nat) :
    ∃ s', s.performs (times.map .finished) = some s' ∧ s'.waiting = s.waiting - times.length := by
  induction times generalizing s with
  | nil => exact ⟨s, rfl, rfl⟩
  | cons now times ih =>
    obtain ⟨s', hs', hwaiting⟩ := ih (s.finished now)
    refine ⟨s', hs', ?_⟩
    rw [hwaiting, waiting_finished, List.length_cons]
    omega

private theorem not_hasWork_of_waiting {s : SyncerImpl} (h : s.waiting = 0) : ¬ s.HasWork := by
  unfold waiting at h
  rintro (hne | hne)
  · have := List.length_pos_iff.mpr hne
    omega
  · rw [if_pos (Option.isSome_iff_ne_none.mpr hne)] at h
    omega

/-! ### `task_` -/

/-- Without a task there is nothing to do. -/
def IdleWithoutTask (s : SyncerImpl) : Prop := s.task = none → s.running = false ∧ ¬ s.HasWork

private theorem task_runNextJobIfIdle (s : SyncerImpl) :
    s.runNextJobIfIdle.task ≠ none ∨ s.runNextJobIfIdle = s ∧ (s.running = true ∨ ¬ s.HasWork) := by
  unfold runNextJobIfIdle
  by_cases hrunning : s.running = true
  · rw [if_pos hrunning]
    exact .inr ⟨rfl, .inl hrunning⟩
  · rw [if_neg hrunning]
    cases hqueue : s.messageAttachmentDownloadQueue with
    | cons msgId queue =>
      left
      dsimp only
      rw [start_eq]
      exact Option.some_ne_none _
    | nil =>
      cases henqueued : s.enqueuedSync with
      | some mode =>
        left
        dsimp only
        rw [start_eq]
        exact Option.some_ne_none _
      | none =>
        refine .inr ⟨rfl, .inr ?_⟩
        rintro (hne | hne)
        · exact hne hqueue
        · exact hne henqueued

/-- A request sees to it that there is a task. -/
theorem task_of_request {s s' : SyncerImpl} {a : Action} (hs : s.IdleWithoutTask) (ha : a.IsRequest)
    (h : s.perform a = some s') : s'.task ≠ none := by
  have hgeneral : ∀ (s₁ : SyncerImpl), s₁.HasWork → s₁.running = s.running → s₁.task = s.task →
      s₁.runNextJobIfIdle.task ≠ none := by
    intro s₁ hwork hrunning htask
    rcases task_runNextJobIfIdle s₁ with hne | ⟨heq, hcase⟩
    · exact hne
    · rw [heq, htask]
      intro hnone
      obtain ⟨hidle, -⟩ := hs hnone
      rcases hcase with hrun | hnot
      · rw [hrunning, hidle] at hrun
        cases hrun
      · exact hnot hwork
  cases a with
  | requestSync mode =>
    cases h
    exact hgeneral _ (hasWork_of_waits (waits_enqueue s mode).1) (by rw [enqueue_eq]; rfl) (by rw [enqueue_eq]; rfl)
  | requestDownloadingAttachmentsForMessage msgId =>
    cases h
    exact hgeneral _ (hasWork_of_waits (waits_enqueueDownload s msgId).1) (by rw [enqueueDownload_eq]; rfl)
      (by rw [enqueueDownload_eq]; rfl)
  | _ => exact ha.elim

/-- A callback does not touch the pointer, unless there is work. -/
theorem idleWithoutTask_of_callback {s s' : SyncerImpl} {a : Action} (hs : s.IdleWithoutTask) (ha : ¬ a.IsRequest)
    (hne : a ≠ .cancel) (h : s.perform a = some s') : s'.IdleWithoutTask ∧ (s'.task = none ↔ s.task = none) := by
  cases a with
  | started =>
    cases h
    exact ⟨hs, Iff.rfl⟩
  | cancel => exact absurd rfl hne
  | error =>
    cases h
    unfold error
    cases htask : s.task with
    | none => exact ⟨fun _ => ⟨rfl, (hs htask).2⟩, by simp⟩
    | some i =>
      have htask' : (s.cancelTask i).task = some i := htask
      dsimp only
      refine ⟨fun hnone => ?_, ?_⟩
      · rw [htask'] at hnone
        cases hnone
      · rw [htask']
  | finished now =>
    cases h
    unfold finished
    dsimp only
    generalize (if s.lastSyncMode = some .withoutAttachments ∨ s.lastSyncMode = some .everything then some now
      else s.lastFullSync) = time
    have hcases := task_runNextJobIfIdle { s with lastFullSync := time, running := false }
    generalize hs' : runNextJobIfIdle { s with lastFullSync := time, running := false } = s' at hcases ⊢
    rcases hcases with hne | ⟨heq, hcase⟩
    · refine ⟨fun hnone => absurd hnone hne, fun hnone => absurd hnone hne, fun hnone => ?_⟩
      obtain ⟨-, hnot⟩ := hs hnone
      have hqueue : s.messageAttachmentDownloadQueue = [] := by
        by_contra h
        exact hnot (.inl h)
      have henqueued : s.enqueuedSync = none := by
        by_contra h
        exact hnot (.inr h)
      unfold runNextJobIfIdle at hs'
      simp only [hqueue, henqueued, Bool.false_eq_true, if_false] at hs'
      rw [← hs']
      exact hnone
    · rw [heq]
      refine ⟨fun hnone => ⟨rfl, (hs hnone).2⟩, Iff.rfl⟩
  | requestSync mode => exact absurd trivial ha
  | requestDownloadingAttachmentsForMessage msgId => exact absurd trivial ha

private theorem requestedSinceCancel_concat {as : List Action} {a : Action} :
    RequestedSinceCancel (as ++ [a]) ↔ a.IsRequest ∨ a ≠ .cancel ∧ RequestedSinceCancel as := by
  constructor
  · rintro ⟨before, b, after, heq, hrequest, hnot⟩
    rcases List.eq_nil_or_concat after with rfl | ⟨after', c, rfl⟩
    · obtain ⟨-, hab⟩ := List.append_inj' heq rfl
      cases hab
      exact .inl hrequest
    · rw [List.concat_eq_append, ← List.cons_append, ← List.append_assoc] at heq
      obtain ⟨hbefore, hac⟩ := List.append_inj' heq rfl
      cases hac
      refine .inr ⟨?_, before, b, after', hbefore, hrequest, ?_⟩
      · rintro rfl
        exact hnot (by simp)
      · exact fun hmem => hnot (by simp [hmem])
  · rintro (hrequest | ⟨hne, before, b, after, rfl, hrequest, hnot⟩)
    · exact ⟨as, a, [], rfl, hrequest, List.not_mem_nil⟩
    · refine ⟨before, b, after ++ [a], by simp, hrequest, fun hmem => ?_⟩
      rcases List.mem_append.mp hmem with hmem | hmem
      · exact hnot hmem
      · exact hne (List.mem_singleton.mp hmem).symm

private theorem cancel_eq_none {s : SyncerImpl} : s.cancel = none ↔ s.task = none := by
  unfold cancel
  cases s.task <;> simp

/-- `task_` is set by a request and reset by `cancel`. -/
theorem task_of_performs {as : List Action} {s : SyncerImpl} (h : performs {} as = some s) :
    s.IdleWithoutTask ∧ (s.task ≠ none ↔ RequestedSinceCancel as) := by
  induction as using List.reverseRecOn generalizing s with
  | nil =>
    cases h
    refine ⟨fun _ => ⟨rfl, by simp [HasWork]⟩, fun hne => absurd rfl hne, ?_⟩
    rintro ⟨before, a, after, heq, -⟩
    simp at heq
  | append_singleton as a ih =>
    rw [performs_concat] at h
    obtain ⟨s', hs', hperform⟩ := Option.bind_eq_some_iff.mp h
    obtain ⟨hidle, htask⟩ := ih hs'
    rw [requestedSinceCancel_concat]
    by_cases hrequest : a.IsRequest
    · have hne := task_of_request hidle hrequest hperform
      exact ⟨fun hnone => absurd hnone hne, fun _ => .inl hrequest, fun _ => hne⟩
    · by_cases hcancel : a = .cancel
      · subst hcancel
        have hreset : s.task = none ∧ s.IdleWithoutTask := by
          unfold perform cancel at hperform
          cases htask' : s'.task with
          | none =>
            rw [htask'] at hperform
            cases hperform
          | some i =>
            rw [htask'] at hperform
            cases hperform
            exact ⟨rfl, fun _ => ⟨rfl, by simp [HasWork]⟩⟩
        refine ⟨hreset.2, fun hne => absurd hreset.1 hne, ?_⟩
        rintro (h | ⟨h, -⟩)
        · exact h.elim
        · exact absurd rfl h
      · obtain ⟨hidle', htask'⟩ := idleWithoutTask_of_callback hidle hrequest hcancel hperform
        refine ⟨hidle', ?_⟩
        rw [Ne, htask', ← Ne, htask]
        exact ⟨fun h => .inr ⟨hcancel, h⟩, fun h => (h.resolve_left hrequest).2⟩

private theorem performs_isSome_iff (as : List Action) :
    (performs {} as).isSome ↔ ∀ before after, as = before ++ .cancel :: after → RequestedSinceCancel before := by
  constructor
  · rintro hsome before after rfl
    obtain ⟨s, hs⟩ := Option.isSome_iff_exists.mp hsome
    rw [performs_append] at hs
    obtain ⟨s₁, hs₁, hrest⟩ := Option.bind_eq_some_iff.mp hs
    unfold performs at hrest
    rw [List.foldlM_cons] at hrest
    obtain ⟨s₂, hcancel, -⟩ := Option.bind_eq_some_iff.mp hrest
    refine (task_of_performs hs₁).2.mp fun hnone => ?_
    have hnull : s₁.perform .cancel = none := cancel_eq_none.mpr hnone
    rw [hnull] at hcancel
    cases hcancel
  · intro hcancels
    induction as using List.reverseRecOn with
    | nil => rfl
    | append_singleton as a ih =>
      have hrest := ih fun before after heq => hcancels before (after ++ [a]) (by simp [heq])
      obtain ⟨s, hs⟩ := Option.isSome_iff_exists.mp hrest
      rw [performs_concat, hs]
      dsimp only [Option.bind_some]
      cases a with
      | cancel =>
        have htask := (task_of_performs hs).2.mpr (hcancels as [] rfl)
        rw [Option.isSome_iff_ne_none]
        exact fun hnone => htask (cancel_eq_none.mp hnone)
      | _ => rfl

/-- The calls and callbacks are served if and only if before each `cancel` there was a request since the `cancel` before
it. -/
theorem served_iff (as : List Action) :
    Served as ↔ ∀ before after, as = before ++ .cancel :: after → RequestedSinceCancel before := by
  rw [← performs_isSome_iff]
  refine ⟨Served.safe, fun hsafe => ⟨hsafe, ?_, ?_⟩⟩
  · intro before a after s₁ s has hs₁ hs hrequest hundisturbed
    -- what the request asks for runs or waits, and other actions keep it so
    have hkept : Kept s₁ s a := by
      rw [has, performs_append, hs₁] at hs
      unfold performs at hs
      rw [Option.bind_some, List.foldlM_cons] at hs
      obtain ⟨s₂, hperform, hrest⟩ := Option.bind_eq_some_iff.mp hs
      exact (kept_request hrequest hperform).performs hundisturbed hrest
    refine ⟨hkept.waits.imp id fun hwaits => ⟨hwaits, hkept.awake (hasWork_of_waits hwaits)⟩, s.waiting, ?_⟩
    -- each finished job shortens the queue, so that the request has its turn
    intro times hlen
    obtain ⟨s', hs', hwaiting⟩ := performs_finished s times
    refine ⟨s', by rw [performs_append, hs]; exact hs', ?_⟩
    have hkept' : Kept s₁ s' a := by
      refine hkept.performs (fun b hb => ?_) hs'
      obtain ⟨now, -, rfl⟩ := List.mem_map.mp hb
      exact ⟨by rintro ⟨⟩, by rintro ⟨⟩⟩
    rcases hkept'.waits with hcovered | hwaits
    · exact hcovered
    · exact absurd (hasWork_of_waits hwaits) (not_hasWork_of_waiting (by omega))
  · intro s hs
    obtain ⟨hnodup, hsublist⟩ := ordered_of_performs hs
    exact ⟨hnodup, (List.sublist_append_left _ _).trans hsublist⟩

/-- `cancel` before the first job, and twice in a row. -/
theorem cancel_not_served : ¬ Served [.cancel] ∧ ¬ Served [.requestSync .everything, .cancel, .cancel] := by
  refine ⟨fun h => ?_, fun h => ?_⟩
  · exact absurd h.safe (by decide)
  · exact absurd h.safe (by decide)

/-! ### The worker threads call nothing else -/

theorem performs_of_reaches {w : SyncerJobs.World} {ok : SyncerJobs.World → SyncerJobs.Action → Prop}
    (h : Transition.Reaches SyncerJobs.Step ok {} w) : ∃ as, performs {} as = some w.syncer := by
  induction h with
  | refl => exact ⟨[], rfl⟩
  | @tail w₁ w₂ _ hstep ih =>
    obtain ⟨as, has⟩ := ih
    obtain ⟨a, -, hstep⟩ := hstep
    have hone : ∀ {s}, (∃ b, w₁.syncer.perform b = some s) → ∃ as, performs {} as = some s := by
      rintro s ⟨b, hb⟩
      exact ⟨as ++ [b], by rw [performs_concat, has]; exact hb⟩
    cases a with
    | requestSync mode =>
      cases hstep
      exact hone ⟨.requestSync mode, rfl⟩
    | requestDownloadingAttachmentsForMessage msgId =>
      cases hstep
      exact hone ⟨.requestDownloadingAttachmentsForMessage msgId, rfl⟩
    | cancel =>
      obtain ⟨s, hcancel, rfl⟩ := hstep
      exact hone ⟨.cancel, hcancel⟩
    | copyForStart i =>
      obtain ⟨t, -, -, rfl⟩ := hstep
      exact ⟨as, has⟩
    | callStarted i =>
      obtain ⟨-, rfl⟩ := hstep
      exact ⟨as, has⟩
    | endWork i call =>
      obtain ⟨t, -, -, -, rfl⟩ := hstep
      exact ⟨as, has⟩
    | copyForEnd i =>
      obtain ⟨t, c, -, -, rfl⟩ := hstep
      exact ⟨as, has⟩
    | callEnd i now =>
      obtain ⟨c, -, rfl⟩ := hstep
      cases c with
      | finished => exact hone ⟨.finished now, rfl⟩
      | error => exact hone ⟨.error, rfl⟩

end SyncerImpl

end KulloClient
