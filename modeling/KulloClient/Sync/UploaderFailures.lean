import Mathlib.Data.List.Count
import KulloClient.Sync.UploadedMessage

/-!
# Uploads that fail

A draft whose upload fails goes back to editing and the run goes on with the next one, so that none is left in state
sending in the end.  This needs the conversation of each draft: the handler asks the conversation pointer for its id, and
the pointer is null if loading the conversation is what failed.  `Handled` is the exact condition.
-/

namespace KulloClient

namespace MessagesUploader

open Imperative
open Relational (Table)

variable {P : Platform} {account : Account} {it : Iteration P}

/-! ### What is considered -/

/-- Uploads fail before the server accepted them and are not cancelled; an upload that was accepted is finished. -/
structure OnlyFailures (account : Account) (s : State) (it : Iteration P) : Prop where
  start : it.cancelled .start = false
  failures : ∀ draft e conv requests, DraftDao.firstSendable s.db = some draft →
    Fails account it s.db draft e conv requests → isCancel e = false ∧ (requests ≠ [] → it.accepted = false)
  finished : ∀ msgSent, it.answer = .ok msgSent → FreshMessage s.db msgSent.id ∧ it.cancelled .afterSend = false ∧
    it.throws .store = none ∧ it.throws .clearDraft = none

/-- What raises is inside the try block and comes after loading the conversation, whose row exists; the handler itself
does not raise. -/
structure Handled (account : Account) (s : State) (it : Iteration P) : Prop where
  firstSendable : it.throws .firstSendable = none
  conversation : ∀ draft, DraftDao.firstSendable s.db = some draft → it.throws .sizeOfAllSendable = none ∧
    it.throws .loadConversation = none ∧ s.db.conversations.find? draft.row.conversationId ≠ none
  handler : ∀ draft e conv requests, DraftDao.firstSendable s.db = some draft →
    Fails account it s.db draft e conv requests → it.throws .handler = none

/-- The rows of the draft's attachments with an index that are gone. -/
def removed (db db' : Db) (convId index : IdType) : List AttachmentRow :=
  db.attachments.rows.filter fun r =>
    decide (r.draft = true ∧ r.messageId = convId ∧ r.index = index) && !decide (r ∈ db'.attachments.rows)

/-- The draft is back in state editing and otherwise as it was, as is every other draft; nothing was added; the draft
keeps all of its attachments or none, and there is an event for each one it lost. -/
structure PutBack (db db' : Db) (draft : DraftDao) (events : List Event) : Prop where
  stored : db.drafts.find? draft.row.conversationId = some draft.row
  drafts : ∀ convId, db'.drafts.find? convId =
    if convId = draft.row.conversationId then some (editingRow draft.row) else db.drafts.find? convId
  messages : db'.messages = db.messages
  senders : db'.senders = db.senders
  delivery : db'.delivery = db.delivery
  attachments : (db'.attachments = db.attachments ∧ db'.attachmentsContent = db.attachmentsContent) ∨
    (∀ r, r ∈ db'.attachments ↔ r ∈ db.attachments ∧ ¬ (r.draft = true ∧ r.messageId = draft.row.conversationId)) ∧
      ∀ c, c ∈ db'.attachmentsContent ↔
        c ∈ db.attachmentsContent ∧ ¬ (c.draft = true ∧ c.messageId = draft.row.conversationId)
  events : ∀ index, events.count (.draftAttachmentDeleted draft.row.conversationId index) =
    (removed db db' draft.row.conversationId index).length

/-- An iteration that uploads nothing puts its draft back. -/
def PutsBack (account : Account) (s : State) (it : Iteration P) : Prop :=
  ∀ draft, DraftDao.firstSendable s.db = some draft →
    (∀ conv msgSent delivery req, ¬ Sends account it s.db draft conv msgSent delivery req) →
    ∃ events, (final (iterate P account it s)).trace = s.trace ++ events ∧
      PutBack s.db (final (iterate P account it s)).db draft events

/-! ### The try block has one end -/

private theorem Fails.not_sends {db : Db} {draft : DraftDao} {e : Exn} {conv conv' : _} {requests : List Event}
    {msgSent : MessageSent} {delivery : List KulloAddress} {req : Event}
    (h : Fails account it db draft e conv requests) : ¬ Sends account it db draft conv' msgSent delivery req := by
  rintro ⟨hload, hsendable, hbig, hmeta, hanswer⟩
  cases h <;> simp_all

private theorem Fails.not_tooBig {db : Db} {draft : DraftDao} {e : Exn} {conv : _} {requests : List Event} {part : DraftPart}
    {size maxSize : Nat} (h : Fails account it db draft e conv requests) :
    ¬ TooBig account it db draft part size maxSize := by
  rintro ⟨hload, hsendable, hbig, hthrows⟩
  cases h <;> simp_all

private theorem load_eq_ok_iff {db : Db} {draft : DraftDao} :
    (∃ conv, it.load db draft = .ok conv) ↔
      it.throws .loadConversation = none ∧ db.conversations.find? draft.row.conversationId ≠ none := by
  unfold Iteration.load loadConversation ConversationDao.load
  constructor
  · rintro ⟨conv, h⟩
    obtain ⟨hnone, h⟩ := Iteration.call_eq_ok.mp h
    refine ⟨hnone, ?_⟩
    intro hrow
    rw [hrow] at h
    cases h
  · rintro ⟨hnone, hrow⟩
    obtain ⟨r, hr⟩ := Option.ne_none_iff_exists'.mp hrow
    refine ⟨ConversationDao.ofRow r, ?_⟩
    rw [Iteration.call_of_none hnone, hr]
    rfl

private theorem Fails.load_of_some {db : Db} {draft : DraftDao} {e : Exn} {conv : ConversationDao} {requests : List Event}
    (h : Fails account it db draft e (some conv) requests) : it.load db draft = .ok conv := by
  cases h with
  | sendable hload _ => exact hload
  | saveTooBig hload _ _ _ => exact hload
  | prepareMeta hload _ _ _ => exact hload
  | answer hload _ _ _ _ => exact hload

/-! ### Drafts that are put back -/

private theorem find?_replace_editing {db : Db} {draft : DraftDao} (h : db.drafts.find? draft.row.conversationId = some draft.row)
    (convId : IdType) : (db.drafts.replace (editingRow draft.row)).find? convId =
      if convId = draft.row.conversationId then some (editingRow draft.row) else db.drafts.find? convId := by
  have hkey : (editingRow draft.row).conversationId = draft.row.conversationId := rfl
  rw [Table.find?_replace, hkey]
  by_cases hc : convId = draft.row.conversationId
  · subst hc
    rw [if_pos rfl, if_pos rfl, h]
    rfl
  · rw [if_neg (Ne.symm hc), if_neg hc]

/-- The draft was too large: it keeps its attachments. -/
theorem putBack_resetDb {db : Db} {draft : DraftDao} {part : DraftPart} {size maxSize : Nat}
    (h : db.drafts.find? draft.row.conversationId = some draft.row) :
    PutBack db (resetDb db draft) draft [.draftModified draft.row.conversationId,
      .draftPartTooBig draft.row.conversationId part size maxSize] where
  stored := h
  drafts := find?_replace_editing h
  messages := rfl
  senders := rfl
  delivery := rfl
  attachments := .inl ⟨rfl, rfl⟩
  events := by
    intro index
    have hnone : removed db (resetDb db draft) draft.row.conversationId index = [] := by
      refine List.filter_eq_nil_iff.mpr ?_
      intro r hr
      have hr' : r ∈ (resetDb db draft).attachments.rows := hr
      simp [hr']
    rw [hnone]
    rfl

/-- The number of deleted indexes is the number of rows. -/
theorem count_deletedIndexes (db : Db) (convId index : IdType) :
    (deletedIndexes db convId).count index =
      (db.attachments.rows.filter fun r => decide (r.draft = true ∧ r.messageId = convId ∧ r.index = index)).length := by
  have hperm : (deletedIndexes db convId).Perm
      ((db.attachments.select (fun r => r.draft == true && r.messageId == convId)).map AttachmentRow.index) := by
    unfold deletedIndexes AttachmentDao.allForMessage
    rw [List.map_map]
    exact (List.perm_insertionSort _ _).map _
  rw [hperm.count_eq, List.count, List.countP_map, List.countP_eq_length_filter]
  unfold Table.select
  rw [List.filter_filter]
  congr 1
  apply List.filter_congr
  intro r _
  by_cases hd : r.draft = true <;> by_cases hc : r.messageId = convId <;> by_cases hi : r.index = index <;>
    simp [hd, hc, hi]

/-- The upload failed: the draft loses its attachments. -/
theorem putBack_failedDb {db : Db} {draft : DraftDao} {requests : List Event}
    (h : db.drafts.find? draft.row.conversationId = some draft.row)
    (hrequests : requests.filter isRequest = requests) :
    PutBack db (failedDb db draft) draft (requests ++ failedEvents db draft.row.conversationId) where
  stored := h
  drafts := find?_replace_editing h
  messages := rfl
  senders := rfl
  delivery := rfl
  attachments := by
    right
    constructor
    · intro r
      change r ∈ db.attachments.deleteWhere _ ↔ _
      rw [Table.mem_deleteWhere]
      simp
    · intro c
      change c ∈ db.attachmentsContent.deleteWhere _ ↔ _
      rw [Table.mem_deleteWhere]
      simp
  events := by
    intro index
    have hgone : removed db (failedDb db draft) draft.row.conversationId index =
        db.attachments.rows.filter fun r =>
          decide (r.draft = true ∧ r.messageId = draft.row.conversationId ∧ r.index = index) := by
      unfold removed
      apply List.filter_congr
      intro r hr
      by_cases hd : r.draft = true ∧ r.messageId = draft.row.conversationId ∧ r.index = index
      · have hout : r ∉ (failedDb db draft).attachments.rows := by
          change ¬ r ∈ db.attachments.deleteWhere _
          rw [Table.mem_deleteWhere]
          simp [hd.1, hd.2.1]
        simp [hd, hout]
      · simp [hd]
    have hnone : requests.count (.draftAttachmentDeleted draft.row.conversationId index) = 0 := by
      rw [List.count_eq_zero, ← hrequests]
      intro hmem
      have := (List.mem_filter.mp hmem).2
      simp [isRequest] at this
    have hinj : Function.Injective (Event.draftAttachmentDeleted draft.row.conversationId) := by
      intro i j hij
      injection hij
    rw [hgone, ← count_deletedIndexes, List.count_append, hnone, failedEvents, List.count_append,
      List.count_map_of_injective _ _ hinj]
    simp

/-! ### Drafts to send -/

/-- The number of drafts in state sending. -/
def sendables (db : Db) : Nat := (db.drafts.rows.filter DraftDao.isSendable).length

private theorem sendables_replace {db db' : Db} {r r' : DraftRow} (h : db.drafts.find? r.conversationId = some r)
    (hs : r.state = .sending) (hkey : r'.conversationId = r.conversationId) (hs' : r'.state ≠ .sending)
    (hdb : db'.drafts = db.drafts.replace r') : sendables db' < sendables db := by
  have hrows : db'.drafts.rows.filter DraftDao.isSendable =
      (db.drafts.rows.filter DraftDao.isSendable).filter (fun x => decide (x.conversationId ≠ r'.conversationId)) := by
    rw [hdb, List.filter_filter]
    unfold Table.replace
    rw [List.filter_map]
    generalize db.drafts.rows = rows
    induction rows with
    | nil => rfl
    | cons x rows ih =>
      by_cases hx : x.conversationId = r'.conversationId <;> by_cases hsend : x.state = .sending <;>
        simp_all [DraftDao.isSendable]
  unfold sendables
  rw [hrows, List.length_filter_lt_length_iff_exists]
  refine ⟨r, ?_, by simp [hkey]⟩
  exact List.mem_filter.mpr ⟨Table.mem_of_find? h, by simp [DraftDao.isSendable, hs]⟩

private theorem sendables_resetDb {db : Db} {draft : DraftDao} (h : DraftDao.firstSendable db = some draft) :
    sendables (resetDb db draft) < sendables db := by
  obtain ⟨hfind, hs, _⟩ := DraftDao.of_firstSendable h
  have hkey : (editingRow draft.row).conversationId = draft.row.conversationId := rfl
  exact sendables_replace hfind hs hkey (by simp [editingRow]) rfl

private theorem sendables_clearedDb {db db' : Db} {draft : DraftDao} (h : DraftDao.firstSendable db = some draft)
    (hdrafts : db'.drafts = db.drafts) : sendables (clearedDb db' draft) < sendables db := by
  obtain ⟨hfind, hs, _⟩ := DraftDao.of_firstSendable h
  have hkey : (DraftDao.clearedRow draft.row).conversationId = draft.row.conversationId := rfl
  refine sendables_replace hfind hs hkey (by simp [DraftDao.clearedRow]) ?_
  unfold clearedDb
  rw [hdrafts]

/-- What becomes of the first draft in an iteration that goes on. -/
structure Advances (account : Account) (it : Iteration P) (db db' : Db) (draft : DraftDao) (events : List Event) :
    Prop where
  fewer : sendables db' < sendables db
  putBack : (∀ conv msgSent delivery req, ¬ Sends account it db draft conv msgSent delivery req) →
    PutBack db db' draft events

private theorem Processed.of_handled {s : State} {draft : DraftDao} {stop : Option Stop} {db' : Db} {events : List Event}
    (hscenario : OnlyFailures account s it) (hhandled : Handled account s it)
    (hdraft : DraftDao.firstSendable s.db = some draft) (h : Processed account it s.db draft stop db' events) :
    stop = none ∧ Advances account it s.db db' draft events := by
  have hfind := (DraftDao.of_firstSendable hdraft).1
  obtain ⟨_, hload, hrow⟩ := hhandled.conversation draft hdraft
  cases h with
  | tooBig hbig => exact ⟨rfl, sendables_resetDb hdraft, fun _ => putBack_resetDb hfind⟩
  | canceled hfails hcancel =>
    have := (hscenario.failures _ _ _ _ hdraft hfails).1
    rw [hcancel] at this
    cases this
  | handlerRaises hfails _ hraises =>
    have := hhandled.handler _ _ _ _ hdraft hfails
    rw [hraises] at this
    cases this
  | nullDereference hfails _ _ =>
    obtain ⟨conv, hconv⟩ := load_eq_ok_iff.mpr ⟨hload, hrow⟩
    cases hfails with
    | load herror =>
      rw [hconv] at herror
      cases herror
  | failed hfails _ _ =>
    have hdb : sendables (failedDb s.db draft) < sendables s.db := sendables_resetDb hdraft
    exact ⟨rfl, hdb, fun _ => putBack_failedDb hfind hfails.filter_requests⟩
  | sentCanceled hsends hcancel =>
    have := (hscenario.finished _ hsends.answer).2.1
    rw [hcancel] at this
    cases this
  | storeRaises hsends _ hstore =>
    obtain ⟨hfresh, _, hnone, _⟩ := hscenario.finished _ hsends.answer
    obtain ⟨db₁, hok, _, _⟩ := store_eq_ok (P := P) account.address it.dateSent hfresh hsends.load
    rw [Iteration.call_of_none hnone, hok] at hstore
    cases hstore
  | clearRaises hsends _ _ hraises =>
    have := (hscenario.finished _ hsends.answer).2.2.2
    rw [hraises] at this
    cases this
  | cleared hsends _ hstore _ =>
    obtain ⟨hfresh, _, hnone, _⟩ := hscenario.finished _ hsends.answer
    obtain ⟨db₁, hok, _, hdrafts⟩ := store_eq_ok (P := P) account.address it.dateSent hfresh hsends.load
    rw [Iteration.call_of_none hnone, hok] at hstore
    cases hstore
    exact ⟨rfl, sendables_clearedDb hdraft hdrafts, fun hno => absurd hsends (hno _ _ _ _)⟩

/-- An iteration that meets the condition ends the run or advances. -/
theorem Outcome.of_handled {s : State} {ending : Ending} {db' : Db} {events : List Event}
    (hscenario : OnlyFailures account s it) (hhandled : Handled account s it)
    (h : Outcome account it s.db ending db' events) :
    (ending = .done ∧ DraftDao.firstSendable s.db = none ∧ db' = s.db) ∨
      ending = .more ∧ ∃ draft, DraftDao.firstSendable s.db = some draft ∧
        Advances account it s.db db' draft events := by
  cases h with
  | firstSendableRaises hraises =>
    rw [hhandled.firstSendable] at hraises
    cases hraises
  | done _ hnone => exact .inl ⟨rfl, hnone, rfl⟩
  | early _ hdraft hearly =>
    obtain ⟨hsize, _, _⟩ := hhandled.conversation _ hdraft
    simp [Iteration.early, hscenario.start, hsize] at hearly
  | processed _ hdraft _ hprocessed =>
    obtain ⟨rfl, hadvances⟩ := hprocessed.of_handled hscenario hhandled hdraft
    exact .inr ⟨rfl, _, hdraft, hadvances⟩

private theorem of_endingOf_done {r : EStateM.Result Stop State Bool} (h : endingOf r = .done) : r = .ok false (final r) := by
  cases r with
  | ok more s' =>
    cases more with
    | true => cases h
    | false => rfl
  | error e s' => cases h

private theorem of_endingOf_more {r : EStateM.Result Stop State Bool} (h : endingOf r = .more) : r = .ok true (final r) := by
  cases r with
  | ok more s' =>
    cases more with
    | true => rfl
    | false => cases h
  | error e s' => cases h

private theorem run_of_done {its : Nat → Iteration P} {i fuel : Nat} {s s' : State}
    (h : iterate P account (its i) s = .ok false s') : run P account its i (fuel + 1) s = some (.ok () s') := by
  unfold run
  rw [h]

private theorem run_of_more {its : Nat → Iteration P} {i fuel : Nat} {s s' : State}
    (h : iterate P account (its i) s = .ok true s') :
    run P account its i (fuel + 1) s = run P account its (i + 1) fuel s' := by
  rw [run, h]

/-- A run whose iterations meet the condition ends with no draft left to send. -/
theorem run_of_handled {its : Nat → Iteration P} {count i : Nat} {s : State} (hcount : sendables s.db < count)
    (hscenario : ∀ n, Meets account (OnlyFailures account) its i n s)
    (hhandled : ∀ n, Meets account (Handled account) its i n s) :
    ∃ n s', run P account its i n s = some (.ok () s') ∧ (∀ r ∈ s'.db.drafts, r.state ≠ .sending) ∧
      Meets account (PutsBack account) its i n s := by
  induction count generalizing i s with
  | zero => exact absurd hcount (Nat.not_lt_zero _)
  | succ count ih =>
    obtain ⟨events, houtcome, htrace⟩ := iterate_outcome account (its i) s
    rcases houtcome.of_handled (hscenario 1).1 (hhandled 1).1 with ⟨hending, hnone, hdb⟩ | ⟨hending, draft, hdraft, h⟩
    · have hdone := of_endingOf_done hending
      refine ⟨1, _, run_of_done hdone, ?_, ?_, ?_⟩
      · rw [hdb]
        exact DraftDao.firstSendable_eq_none.mp hnone
      · intro draft hdraft
        rw [hnone] at hdraft
        cases hdraft
      · intro _ _
        trivial
    · have hmore := of_endingOf_more hending
      obtain ⟨n, s', hrun, hdrafts, hputs⟩ := ih (Nat.lt_of_lt_of_le h.fewer (Nat.le_of_lt_succ hcount))
        (fun n => (hscenario (n + 1)).2 _ hmore) (fun n => (hhandled (n + 1)).2 _ hmore)
      refine ⟨n + 1, s', ?_, hdrafts, ?_, ?_⟩
      · rw [run_of_more hmore, hrun]
      · intro draft' hdraft' hno
        rw [hdraft] at hdraft'
        cases hdraft'
        exact ⟨events, htrace, h.putBack hno⟩
      · intro s₁ hs₁
        rw [hmore] at hs₁
        cases hs₁
        exact hputs

/-- Only what is handled lets an iteration go on. -/
theorem Processed.handled {s : State} {draft : DraftDao} {db' : Db} {events : List Event}
    (hdraft : DraftDao.firstSendable s.db = some draft) (hearly : it.early = none)
    (hfirst : it.throws .firstSendable = none) (h : Processed account it s.db draft none db' events) :
    Handled account s it where
  firstSendable := hfirst
  conversation := by
    intro draft' hdraft'
    rw [hdraft] at hdraft'
    cases hdraft'
    have hload : ∃ conv, it.load s.db draft = .ok conv := by
      generalize hstop : (none : Option Stop) = stop at h
      cases h with
      | tooBig hbig =>
        cases hbig with
        | intro hload _ _ _ => exact ⟨_, hload⟩
      | failed hfails _ _ => exact ⟨_, hfails.load_of_some⟩
      | cleared hsends _ _ _ =>
        cases hsends with
        | intro hload _ _ _ _ => exact ⟨_, hload⟩
      | _ => cases hstop
    obtain ⟨hload, hrow⟩ := load_eq_ok_iff.mp hload
    refine ⟨?_, hload, hrow⟩
    unfold Iteration.early at hearly
    split at hearly
    · cases hearly
    · exact hearly
  handler := by
    intro draft' e conv requests hdraft' hfails
    rw [hdraft] at hdraft'
    cases hdraft'
    generalize hstop : (none : Option Stop) = stop at h
    cases h with
    | tooBig hbig => exact absurd hbig hfails.not_tooBig
    | failed _ _ hnone => exact hnone
    | cleared hsends _ _ _ => exact absurd hsends hfails.not_sends
    | _ => cases hstop

private theorem Outcome.handled {s : State} {ending : Ending} {db' : Db} {events : List Event}
    (hgo : ∀ why, ending ≠ .stopped why) (h : Outcome account it s.db ending db' events) : Handled account s it := by
  cases h with
  | firstSendableRaises _ => exact absurd rfl (hgo _)
  | done hfirst hnone =>
    refine ⟨hfirst, ?_, ?_⟩
    · intro draft hdraft
      rw [hnone] at hdraft
      cases hdraft
    · intro draft e conv requests hdraft
      rw [hnone] at hdraft
      cases hdraft
  | early _ _ _ => exact absurd rfl (hgo _)
  | processed hfirst hdraft hearly hprocessed =>
    rename_i draft stop
    cases stop with
    | none => exact hprocessed.handled hdraft hearly hfirst
    | some why => exact absurd rfl (hgo why)

private theorem handled_of_run {its : Nat → Iteration P} {n i : Nat} {s s' : State}
    (h : run P account its i n s = some (.ok () s')) (m : Nat) : Meets account (Handled account) its i m s := by
  induction n generalizing i s m with
  | zero => cases h
  | succ n ih =>
    cases m with
    | zero => trivial
    | succ m =>
      obtain ⟨events, houtcome, _⟩ := iterate_outcome account (its i) s
      rw [run] at h
      cases hr : iterate P account (its i) s with
      | error e s₁ =>
        rw [hr] at h
        cases h
      | ok more s₁ =>
        rw [hr] at h houtcome
        refine ⟨houtcome.handled ?_, ?_⟩
        · cases more <;> simp [endingOf]
        · intro s₂ hs₂
          rw [hr] at hs₂
          cases hs₂
          exact ih h m

/-! ### Runs -/

/-- In a run in which uploads only fail before they are accepted, every draft whose upload fails is put back and the
run ends with no draft in state sending, if and only if each failure is one that is handled. -/
theorem run_putsBack_iff (its : Nat → Iteration P) (s : State)
    (hscenario : ∀ n, Meets account (OnlyFailures account) its 0 n s) :
    (∃ n s', run P account its 0 n s = some (.ok () s') ∧ (∀ r ∈ s'.db.drafts, r.state ≠ .sending) ∧
        Meets account (PutsBack account) its 0 n s) ↔
      ∀ n, Meets account (Handled account) its 0 n s := by
  constructor
  · rintro ⟨n, s', hrun, _, _⟩
    exact handled_of_run hrun
  · intro hhandled
    exact run_of_handled (Nat.lt_succ_self _) hscenario hhandled

/-- An iteration in which the draft cannot be encoded. -/
def failingIteration : Iteration plainPlatform :=
  { plainIteration with
    throws := fun c => if c = .encodeMessage then some (.sqliteException "disk I/O error") else none
    accepted := false
    answer := .error .networkError }

private theorem failing_onlyFailures (s : State) : OnlyFailures plainAccount s failingIteration where
  start := rfl
  failures := by
    intro draft e conv requests _ hfails
    have hencode : failingIteration.sendable plainAccount s.db draft = .error (.sqliteException "disk I/O error") := rfl
    cases hfails with
    | load herror =>
      unfold Iteration.load loadConversation Iteration.call at herror
      cases hconv : ConversationDao.load s.db draft.row.conversationId with
      | none =>
        rw [hconv] at herror
        cases herror
        exact ⟨rfl, fun h => absurd rfl h⟩
      | some conv =>
        rw [hconv] at herror
        cases herror
    | sendable _ herror =>
      rw [hencode] at herror
      cases herror
      exact ⟨rfl, fun h => absurd rfl h⟩
    | saveTooBig _ hok _ _ =>
      rw [hencode] at hok
      cases hok
    | prepareMeta _ hok _ _ =>
      rw [hencode] at hok
      cases hok
    | answer _ hok _ _ _ =>
      rw [hencode] at hok
      cases hok
  finished := by
    intro msgSent hanswer
    cases hanswer

private theorem Meets.of_forall {ok : State → Iteration P → Prop} {its : Nat → Iteration P} (h : ∀ s i, ok s (its i))
    (n i : Nat) (s : State) : Meets account ok its i n s := by
  induction n generalizing i s with
  | zero => trivial
  | succ n ih => exact ⟨h s i, fun s' _ => ih (i + 1) s'⟩

theorem run_putsBack_iff_failing :
    ∃ n s', run plainPlatform plainAccount (fun _ => failingIteration) 0 n { db := plainDb } = some (.ok () s') ∧
      (∀ r ∈ s'.db.drafts, r.state ≠ .sending) ∧
      Meets plainAccount (PutsBack plainAccount) (fun _ => failingIteration) 0 n { db := plainDb } :=
  (run_putsBack_iff (fun _ => failingIteration) { db := plainDb }
    (fun n => Meets.of_forall (fun s _ => failing_onlyFailures s) n 0 _)).mpr
      (handled_of_run (n := 2) rfl)

/-- A draft in state sending whose conversation has no row. -/
def orphanDb : Db := { drafts := plainDb.drafts }

private theorem run_orphan (n : Nat) :
    run plainPlatform plainAccount (fun _ => failingIteration) 0 (n + 1) { db := orphanDb } =
      some (.error .nullDereference (final (iterate plainPlatform plainAccount failingIteration { db := orphanDb }))) :=
  rfl

/-- The handler dereferences the conversation pointer that loading the conversation left null. -/
theorem not_run_putsBack :
    ¬ ∀ (P : Platform) (account : Account) (its : Nat → Iteration P) (s : State),
      (∀ n, Meets account (OnlyFailures account) its 0 n s) →
      ∃ n s', run P account its 0 n s = some (.ok () s') ∧ (∀ r ∈ s'.db.drafts, r.state ≠ .sending) ∧
        Meets account (PutsBack account) its 0 n s := by
  intro h
  obtain ⟨n, s', hrun, _, _⟩ := h plainPlatform plainAccount (fun _ => failingIteration) { db := orphanDb }
    (fun n => Meets.of_forall (fun s _ => failing_onlyFailures s) n 0 _)
  cases n with
  | zero => cases hrun
  | succ n =>
    rw [run_orphan] at hrun
    cases hrun

end MessagesUploader

end KulloClient
