import KulloClient.ApiImpl.DraftAttachmentsImpl
import KulloClient.Base.Runs

/-!
# The limit for the attachments of a draft

Jobs that add attachments to one draft, each on a thread and a connection of its own.  A job reads the size of what is
there, and adds its file in a transaction later; in between the other jobs go on.
-/

namespace KulloClient

open Relational (Table)
open Transition

namespace DraftAttachmentsAddWorker

/-- How far a job is. -/
inductive Progress
  | started
  /-- The check was passed with the size of the existing attachments. -/
  | checked (sizeOfExisting : Nat)
  | added (attachmentId : IdType)
  | failed
  deriving DecidableEq

/-- What the jobs for one conversation are about. -/
structure Jobs where
  Job : Type
  decEq : DecidableEq Job
  hexDigest : Bytes → String
  convId : IdType
  file : Job → DraftFile
  listener : Job → ContentCallback

instance (J : Jobs) : DecidableEq J.Job := J.decEq

structure State (J : Jobs) where
  db : Db
  progress : J.Job → Progress := fun _ => .started

inductive Action (J : Jobs)
  /-- The size query, with the checks around it. -/
  | query (job : J.Job)
  /-- The transaction. -/
  | insert (job : J.Job)

variable {J : Jobs}

namespace State

def set (s : State J) (job : J.Job) (p : Progress) : State J :=
  { s with progress := Function.update s.progress job p }

private theorem set_self (s : State J) (job : J.Job) (p : Progress) : (s.set job p).progress job = p := by
  unfold set
  exact Function.update_self job p s.progress

private theorem set_of_ne (s : State J) {job job' : J.Job} (hne : job' ≠ job) (p : Progress) :
    (s.set job p).progress job' = s.progress job' := by
  unfold set
  exact Function.update_of_ne hne p s.progress

/-- The size of the draft's attachments. -/
def total (s : State J) : Nat := AttachmentDao.sizeOfAllForMessage s.db true J.convId

def perform (s : State J) : Action J → Option (State J)
  | .query job =>
    match s.progress job with
    | .started => some (s.set job (if check (J.file job) s.total then .checked s.total else .failed))
    | _ => none
  | .insert job =>
    match s.progress job with
    | .checked _ =>
      match store J.hexDigest (J.listener job) J.convId (J.file job) s.db with
      | .ok (attachmentId, db) => some { s.set job (.added attachmentId) with db := db }
      | .error _ => some (s.set job .failed)
    | _ => none

end State

def Step (s : State J) (a : Action J) (s' : State J) : Prop := s.perform a = some s'

/-! ### One step -/

private theorem total_of_rows_append {db db' : Db} {row : AttachmentRow} {convId attId : IdType}
    (hkey : row.key = (true, convId, attId)) (hrows : db'.attachments.rows = db.attachments.rows ++ [row]) :
    AttachmentDao.sizeOfAllForMessage db' true convId = AttachmentDao.sizeOfAllForMessage db true convId + row.size := by
  have hdraft : row.draft = true := congrArg Prod.fst hkey
  have hconv : row.messageId = convId := congrArg (fun k => k.2.1) hkey
  unfold AttachmentDao.sizeOfAllForMessage Table.select
  rw [hrows, List.filter_append, List.map_append, List.sum_append]
  simp [hdraft, hconv]

/-- Whatever a step does: the query writes nothing, and the transaction writes the attachment or nothing. -/
theorem step_cases {s s' : State J} {a : Action J} (h : Step s a s') :
    (∃ job, a = .query job ∧ s.progress job = .started ∧
      s' = s.set job (if check (J.file job) s.total then .checked s.total else .failed)) ∨
    (∃ job n, a = .insert job ∧ s.progress job = .checked n ∧ s' = s.set job .failed) ∨
    ∃ job n db row, a = .insert job ∧ s.progress job = .checked n ∧
      s' = { s.set job (.added (AttachmentDao.idForNewDraftAttachment s.db J.convId)) with db := db } ∧
      row.key = (true, J.convId, AttachmentDao.idForNewDraftAttachment s.db J.convId) ∧
      row.size = (J.file job).size ∧ db.attachments.rows = s.db.attachments.rows ++ [row] := by
  unfold Step at h
  cases a with
  | query job =>
    left
    unfold State.perform at h
    cases hp : s.progress job with
    | started =>
      simp only [hp] at h
      exact ⟨job, rfl, hp, (Option.some.inj h).symm⟩
    | checked n => simp only [hp, reduceCtorEq] at h
    | added attId => simp only [hp, reduceCtorEq] at h
    | failed => simp only [hp, reduceCtorEq] at h
  | insert job =>
    right
    unfold State.perform at h
    cases hp : s.progress job with
    | started => simp only [hp, reduceCtorEq] at h
    | added attId => simp only [hp, reduceCtorEq] at h
    | failed => simp only [hp, reduceCtorEq] at h
    | checked n =>
      simp only [hp] at h
      cases hstore : store J.hexDigest (J.listener job) J.convId (J.file job) s.db with
      | error e =>
        rw [hstore] at h
        exact .inl ⟨job, n, rfl, hp, (Option.some.inj h).symm⟩
      | ok result =>
        obtain ⟨attId, db⟩ := result
        rw [hstore] at h
        obtain ⟨rfl, row, hkey, hsize, hrows⟩ := store_eq_ok hstore
        exact .inr ⟨job, n, db, row, rfl, hp, (Option.some.inj h).symm, hkey, hsize, hrows⟩

/-- The attachments of the draft grow by the file of a job that is done, and not otherwise. -/
theorem total_step {s s' : State J} {a : Action J} (h : Step s a s') :
    s'.total = s.total ∨
      ∃ job n attId, a = .insert job ∧ s.progress job = .checked n ∧ s'.progress job = .added attId ∧
        s'.total = s.total + (J.file job).size := by
  rcases step_cases h with ⟨job, -, -, rfl⟩ | ⟨job, n, -, -, rfl⟩ | ⟨job, n, db, row, rfl, hp, rfl, hkey, hsize, hrows⟩
  · exact .inl rfl
  · exact .inl rfl
  · right
    have htotal := total_of_rows_append hkey hrows
    rw [hsize] at htotal
    exact ⟨job, n, _, rfl, hp, s.set_self job _, htotal⟩

/-! ### The limit -/

/-- A job begins its transaction while its check passes. -/
def Fits (s : State J) : Action J → Prop
  | .query _ => True
  | .insert job => check (J.file job) s.total = true

/-- A job begins its transaction while the attachments are no larger than it has read. -/
def NotStale (s : State J) : Action J → Prop
  | .query _ => True
  | .insert job => ∀ n, s.progress job = .checked n → s.total ≤ n

/-- The limit holds, and the jobs that go on have passed their check. -/
structure WithinLimit (s : State J) : Prop where
  total : s.total ≤ messageAttachmentsMaxBytes
  checked : ∀ job n, s.progress job = .checked n → check (J.file job) n = true

private theorem check_eq_true {file : DraftFile} {n : Nat} :
    check file n = true ↔ file.regular = true ∧ n + file.size ≤ messageAttachmentsMaxBytes := by
  unfold check
  rw [Bool.and_eq_true, decide_eq_true_iff]

private theorem check_mono {file : DraftFile} {n n' : Nat} (hle : n ≤ n') (h : check file n' = true) : check file n = true := by
  rw [check_eq_true] at h ⊢
  exact ⟨h.1, by omega⟩

theorem WithinLimit.fits {s : State J} {a : Action J} (hs : WithinLimit s) (h : NotStale s a)
    (ha : ∃ s', Step s a s') : Fits s a := by
  obtain ⟨s', ha⟩ := ha
  cases a with
  | query job => exact trivial
  | insert job =>
    have hchecked : ∃ n, s.progress job = .checked n := by
      rcases step_cases ha with ⟨job', heq, -⟩ | ⟨job', n, heq, hp, -⟩ | ⟨job', n, db, row, heq, hp, -⟩
      · cases heq
      · cases heq
        exact ⟨n, hp⟩
      · cases heq
        exact ⟨n, hp⟩
    obtain ⟨n, hp⟩ := hchecked
    exact check_mono (h n hp) (hs.checked job n hp)

/-- What a step does to the jobs that go on. -/
theorem checked_step {s s' : State J} {a : Action J} (hs : ∀ job n, s.progress job = .checked n → check (J.file job) n = true)
    (h : Step s a s') (job : J.Job) (n : Nat) (hp : s'.progress job = .checked n) : check (J.file job) n = true := by
  have hother : ∀ job' p, (∀ m, p = .checked m → check (J.file job') m = true) →
      (s.set job' p).progress job = .checked n → check (J.file job) n = true := by
    intro job' p hcheck hset
    by_cases hjob : job = job'
    · subst hjob
      rw [s.set_self] at hset
      exact hcheck n hset
    · rw [s.set_of_ne hjob] at hset
      exact hs job n hset
  rcases step_cases h with ⟨job', -, -, rfl⟩ | ⟨job', m, -, -, rfl⟩ | ⟨job', m, db, row, -, -, rfl, -⟩
  · refine hother job' _ ?_ hp
    intro m hm
    by_cases hcheck : check (J.file job') s.total = true
    · rw [if_pos hcheck] at hm
      cases hm
      exact hcheck
    · rw [if_neg hcheck] at hm
      cases hm
  · exact hother job' _ (fun m hm => by cases hm) hp
  · exact hother job' _ (fun m hm => by cases hm) hp

/-- A transaction keeps to the limit exactly if the check of its job passes. -/
theorem total_le_iff {s s' : State J} {job : J.Job} {attId : IdType} (hs : WithinLimit s) (h : Step s (.insert job) s')
    (hadded : s'.progress job = .added attId) : s'.total ≤ messageAttachmentsMaxBytes ↔ Fits s (.insert job) := by
  rcases step_cases h with ⟨job', heq, -⟩ | ⟨job', n, heq, hp, rfl⟩ | ⟨job', n, db, row, heq, hp, rfl, hkey, hsize, hrows⟩
  · cases heq
  · cases heq
    rw [s.set_self] at hadded
    cases hadded
  · cases heq
    have hregular := (check_eq_true.mp (hs.checked job n hp)).1
    have htotal := total_of_rows_append hkey hrows
    rw [hsize] at htotal
    have hafter : State.total { s.set job (.added (AttachmentDao.idForNewDraftAttachment s.db J.convId)) with db := db } =
        s.total + (J.file job).size := htotal
    show _ ↔ check (J.file job) s.total = true
    rw [hafter, check_eq_true]
    exact ⟨fun hle => ⟨hregular, hle⟩, fun hfits => hfits.2⟩

theorem WithinLimit.step {s s' : State J} {a : Action J} (hs : WithinLimit s) (hfits : Fits s a) (h : Step s a s') :
    WithinLimit s' := by
  refine ⟨?_, checked_step hs.checked h⟩
  rcases total_step h with heq | ⟨job, n, attId, rfl, hp, hadded, -⟩
  · rw [heq]
    exact hs.total
  · exact (total_le_iff hs h hadded).mpr hfits

theorem WithinLimit.run {s s' : State J} (hs : WithinLimit s) (h : Reaches Step Fits s s') : WithinLimit s' :=
  h.keeps (fun _ _ _ hs hfits hstep => hs.step hfits hstep) hs

private theorem WithinLimit.run_notStale {s s' : State J} (hs : WithinLimit s) (h : Reaches Step NotStale s s') : WithinLimit s' :=
  h.keeps (fun _ _ s' hs hstale hstep => hs.step (hs.fits hstale ⟨s', hstep⟩) hstep) hs

/-! ### The attachments of the jobs -/

/-- The draft attachments of a state, in terms of those of an earlier state and of the jobs that are done. -/
structure Accounted (before s : State J) : Prop where
  kept : ∀ attId row, AttachmentDao.draftRow before.db J.convId attId = some row →
    AttachmentDao.draftRow s.db J.convId attId = some row
  added : ∀ job attId, s.progress job = .added attId →
    AttachmentDao.draftRow before.db J.convId attId = none ∧
      ∃ row, AttachmentDao.draftRow s.db J.convId attId = some row ∧ row.size = (J.file job).size
  distinct : ∀ job job' attId, s.progress job = .added attId → s.progress job' = .added attId → job = job'
  only : ∀ attId, (AttachmentDao.draftRow s.db J.convId attId).isSome = true →
    (AttachmentDao.draftRow before.db J.convId attId).isSome = true ∨ ∃ job, s.progress job = .added attId

/-- Steps that write no attachment, and end no job with one. -/
theorem Accounted.set {before s : State J} (hs : Accounted before s) {job : J.Job} {p : Progress}
    (hp : ∀ attId, p ≠ .added attId) (hjob : ∀ attId, s.progress job ≠ .added attId) : Accounted before (s.set job p) := by
  have hadded : ∀ job' attId, (s.set job p).progress job' = .added attId ↔ s.progress job' = .added attId := by
    intro job' attId
    by_cases heq : job' = job
    · subst heq
      rw [s.set_self]
      exact ⟨fun h => absurd h (hp attId), fun h => absurd h (hjob attId)⟩
    · rw [s.set_of_ne heq]
  refine ⟨hs.kept, ?_, ?_, ?_⟩
  · intro job' attId h
    exact hs.added job' attId ((hadded job' attId).mp h)
  · intro job' job'' attId h h'
    exact hs.distinct job' job'' attId ((hadded job' attId).mp h) ((hadded job'' attId).mp h')
  · intro attId h
    rcases hs.only attId h with hbefore | ⟨job', hjob'⟩
    · exact .inl hbefore
    · exact .inr ⟨job', (hadded job' attId).mpr hjob'⟩

theorem Accounted.insert {before s : State J} (hs : Accounted before s) {job : J.Job} {n : Nat} {db : Db}
    {row : AttachmentRow} (hp : s.progress job = .checked n)
    (hkey : row.key = (true, J.convId, AttachmentDao.idForNewDraftAttachment s.db J.convId))
    (hsize : row.size = (J.file job).size) (hrows : db.attachments.rows = s.db.attachments.rows ++ [row]) :
    Accounted before { s.set job (.added (AttachmentDao.idForNewDraftAttachment s.db J.convId)) with db := db } := by
  have hfree := AttachmentDao.draftRow_idForNewDraftAttachment s.db J.convId
  have hrow := draftRow_of_rows_append hkey hrows hfree J.convId
  generalize AttachmentDao.idForNewDraftAttachment s.db J.convId = attId at hfree hrow
  have hself : AttachmentDao.draftRow db J.convId attId = some row := by rw [hrow, if_pos rfl]
  have hother : ∀ attId', attId' ≠ attId →
      AttachmentDao.draftRow db J.convId attId' = AttachmentDao.draftRow s.db J.convId attId' := by
    intro attId' hne
    rw [hrow, if_neg (fun heq => hne (congrArg Prod.snd heq).symm)]
  have hjob : (s.set job (.added attId)).progress job = .added attId := s.set_self job _
  have hjobs : ∀ job', job' ≠ job → (s.set job (.added attId)).progress job' = s.progress job' :=
    fun job' hne => s.set_of_ne hne _
  -- an attachment of a job that is done is in the table, so its index is not the new one
  have hused : ∀ job', s.progress job' ≠ .added attId := by
    intro job' hadded
    obtain ⟨-, row', hrow', -⟩ := hs.added job' attId hadded
    rw [hfree] at hrow'
    cases hrow'
  refine ⟨?_, ?_, ?_, ?_⟩
  · intro attId' row' hbefore
    have hkept := hs.kept attId' row' hbefore
    by_cases heq : attId' = attId
    · subst heq
      rw [hfree] at hkept
      cases hkept
    · exact (hother attId' heq).trans hkept
  · intro job' attId' hadded
    by_cases heq : job' = job
    · subst heq
      cases hjob.symm.trans hadded
      refine ⟨?_, row, hself, hsize⟩
      cases hbefore : AttachmentDao.draftRow before.db J.convId attId with
      | none => rfl
      | some row' =>
        have hkept := hs.kept attId row' hbefore
        rw [hfree] at hkept
        cases hkept
    · have hadded' : s.progress job' = .added attId' := (hjobs job' heq).symm.trans hadded
      obtain ⟨hnone, row', hrow', hsize'⟩ := hs.added job' attId' hadded'
      refine ⟨hnone, row', ?_, hsize'⟩
      rw [← hrow']
      apply hother
      intro hid
      subst hid
      exact hused job' hadded'
  · intro job₁ job₂ attId' h₁ h₂
    by_cases heq₁ : job₁ = job
    · by_cases heq₂ : job₂ = job
      · rw [heq₁, heq₂]
      · subst heq₁
        cases hjob.symm.trans h₁
        exact absurd ((hjobs job₂ heq₂).symm.trans h₂) (hused job₂)
    · by_cases heq₂ : job₂ = job
      · subst heq₂
        cases hjob.symm.trans h₂
        exact absurd ((hjobs job₁ heq₁).symm.trans h₁) (hused job₁)
      · exact hs.distinct job₁ job₂ attId' ((hjobs job₁ heq₁).symm.trans h₁) ((hjobs job₂ heq₂).symm.trans h₂)
  · intro attId' hsome
    by_cases heq : attId' = attId
    · subst heq
      exact .inr ⟨job, hjob⟩
    · have hsome' : (AttachmentDao.draftRow s.db J.convId attId').isSome = true := by
        rw [← hother attId' heq]
        exact hsome
      rcases hs.only attId' hsome' with hbefore | ⟨job', hadded⟩
      · exact .inl hbefore
      · refine .inr ⟨job', (hjobs job' ?_).trans hadded⟩
        intro heq'
        subst heq'
        rw [hp] at hadded
        cases hadded

theorem Accounted.step {before s s' : State J} {a : Action J} (hs : Accounted before s) (h : Step s a s') :
    Accounted before s' := by
  rcases step_cases h with ⟨job, -, hp, rfl⟩ | ⟨job, n, -, hp, rfl⟩ | ⟨job, n, db, row, -, hp, rfl, hkey, hsize, hrows⟩
  · apply hs.set
    · intro attId
      split <;> exact nofun
    · intro attId hadded
      rw [hp] at hadded
      cases hadded
  · apply hs.set
    · exact fun attId => nofun
    · intro attId hadded
      rw [hp] at hadded
      cases hadded
  · exact hs.insert hp hkey hsize hrows

theorem Accounted.start (J : Jobs) (db : Db) : Accounted { db := db : State J } { db := db } :=
  ⟨fun _ _ h => h, nofun, nofun, fun _ h => .inl h⟩

theorem Accounted.run {before s s' : State J} {ok : State J → Action J → Prop} (hs : Accounted before s)
    (h : Reaches Step ok s s') : Accounted before s' :=
  h.keeps (fun _ _ _ hs _ hstep => hs.step hstep) hs

/-- Without a job that is done by it, a step leaves the database alone. -/
theorem db_step {s s' : State J} {a : Action J} (h : Step s a s')
    (hnone : ∀ job attId, s'.progress job = .added attId → s.progress job = .added attId) : s'.db = s.db := by
  rcases step_cases h with ⟨job, -, -, rfl⟩ | ⟨job, n, -, -, rfl⟩ | ⟨job, n, db, row, -, hp, rfl, -⟩
  · rfl
  · rfl
  · have hadded := hnone job _ (s.set_self job _)
    rw [hp] at hadded
    cases hadded

/-- While every job begins its transaction with a check that still passes, the attachments of a draft keep to the limit;
a transaction whose check does not pass any more exceeds it.  In every run a job that is done has added one attachment,
under an index that was free, and the others have added none. -/
theorem draft_limit (J : Jobs) (before : Db)
    (htotal : AttachmentDao.sizeOfAllForMessage before true J.convId ≤ messageAttachmentsMaxBytes) :
    (∀ s : State J, Reaches Step Fits { db := before } s → s.total ≤ messageAttachmentsMaxBytes) ∧
      (∀ s : State J, Reaches Step NotStale { db := before } s → s.total ≤ messageAttachmentsMaxBytes) ∧
      (∀ s : State J, Reaches Step Fits { db := before } s → ∀ job attId s', Step s (.insert job) s' →
        s'.progress job = .added attId → (s'.total ≤ messageAttachmentsMaxBytes ↔ Fits s (.insert job))) ∧
      ∀ s : State J, Reaches Step (fun _ _ => True) { db := before } s → Accounted { db := before } s ∧
        ∀ a s', Step s a s' →
          (∀ job attId, s'.progress job = .added attId → s.progress job = .added attId) → s'.db = s.db := by
  have hstart : WithinLimit { db := before : State J } := ⟨htotal, nofun⟩
  refine ⟨?_, ?_, ?_, ?_⟩
  · intro s h
    exact (hstart.run h).total
  · intro s h
    exact (hstart.run_notStale h).total
  · intro s h job attId s' hstep hadded
    exact total_le_iff (hstart.run h) hstep hadded
  · intro s h
    exact ⟨(Accounted.start J before).run h, fun a s' hstep hnone => db_step hstep hnone⟩

/-! ### Two jobs -/

instance (s : State J) (a : Action J) : Decidable (Fits s a) :=
  match a with
  | .query _ => inferInstanceAs (Decidable True)
  | .insert job => inferInstanceAs (Decidable (check (J.file job) s.total = true))

/-- The steps in this order, as long as they are allowed. -/
def State.run (ok : State J → Action J → Bool) : List (Action J) → State J → Option (State J)
  | [], s => some s
  | a :: as, s => if ok s a then (s.perform a).bind (run ok as) else none

private theorem reaches_of_run {ok : State J → Action J → Bool} {as : List (Action J)} {s s' : State J}
    (h : s.run ok as = some s') : Reaches Step (fun s a => ok s a = true) s s' := by
  induction as generalizing s with
  | nil =>
    cases h
    exact .refl
  | cons a as ih =>
    unfold State.run at h
    split at h
    · next hok =>
      obtain ⟨s₁, hstep, hrun⟩ := Option.bind_eq_some_iff.mp h
      have hfirst : Reaches Step (fun s a => ok s a = true) s s₁ := Reaches.refl.snoc hok hstep
      exact hfirst.trans (ih hrun)
    · cases h

/-- Two jobs with a file of one byte. -/
def twoJobs : Jobs where
  Job := Bool
  decEq := inferInstance
  hexDigest _ := "00"
  convId := 1
  file _ := { filename := "b", mimeType := "text/plain", size := 1, content := { rest := [7] } }
  listener _ _ := .ok ()

/-- A draft with one attachment. -/
def draftWith (size : Nat) : State twoJobs where
  db :=
    { attachments := ⟨[⟨true, 1, 0, "a", "text/plain", size, "00", ""⟩], by simp⟩
      attachmentsContent := ⟨[⟨true, 1, 0, some (zeroblob size)⟩], by simp⟩ }

/-- One job after the other, up to the limit. -/
theorem draft_limit_sequential :
    ∃ s : State twoJobs, Reaches Step Fits (draftWith (messageAttachmentsMaxBytes - 2)) s ∧
      s.progress false = .added 1 ∧ s.progress true = .added 2 ∧ s.total ≤ messageAttachmentsMaxBytes := by
  have hrun : ((draftWith (messageAttachmentsMaxBytes - 2)).run (fun s a => decide (Fits s a))
      [.query false, .insert false, .query true, .insert true]).map (fun s => (s.progress false, s.progress true)) =
      some (.added 1, .added 2) := by decide +kernel
  obtain ⟨s, hs, hprogress⟩ := Option.map_eq_some_iff.mp hrun
  have hreach : Reaches Step Fits (draftWith (messageAttachmentsMaxBytes - 2)) s :=
    (reaches_of_run hs).mono fun s a hok => of_decide_eq_true hok
  refine ⟨s, hreach, congrArg Prod.fst hprogress, congrArg Prod.snd hprogress, ?_⟩
  exact (draft_limit twoJobs (draftWith (messageAttachmentsMaxBytes - 2)).db (by decide)).1 s hreach

/-- Both jobs read the size before either of them has added its file. -/
theorem draft_limit_interleaved :
    ¬ ∀ (J : Jobs) (before : Db), AttachmentDao.sizeOfAllForMessage before true J.convId ≤ messageAttachmentsMaxBytes →
      ∀ s : State J, Reaches Step (fun _ _ => True) { db := before } s → s.total ≤ messageAttachmentsMaxBytes := by
  intro hclaim
  have hrun : ((draftWith (messageAttachmentsMaxBytes - 1)).run (fun _ _ => true)
      [.query false, .query true, .insert false, .insert true]).map State.total =
      some (messageAttachmentsMaxBytes + 1) := by decide +kernel
  obtain ⟨s, hs, htotal⟩ := Option.map_eq_some_iff.mp hrun
  have hreach : Reaches Step (fun _ _ => True) (draftWith (messageAttachmentsMaxBytes - 1)) s :=
    (reaches_of_run hs).mono fun _ _ _ => trivial
  have hle := hclaim twoJobs (draftWith (messageAttachmentsMaxBytes - 1)).db (by decide) s hreach
  rw [htotal] at hle
  omega

end DraftAttachmentsAddWorker

end KulloClient
