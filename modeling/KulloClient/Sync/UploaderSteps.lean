import KulloClient.Sync.MessagesUploader

/-!
# What an iteration of the uploader does

`Outcome` lists every way in which an iteration ends, with the database and the events it leaves; `iterate_outcome`
says that there is no other.  The invariants of runs are case analyses over it.
-/

namespace KulloClient

namespace MessagesUploader

open Imperative

variable {P : Platform} {account : Account} {it : Iteration P}

/-! ### The stages of the try block -/

namespace Iteration

variable (account it) (db : Db) (draft : DraftDao)

/-- Loading the conversation. -/
def load : Except Exn ConversationDao :=
  it.call .loadConversation (loadConversation db draft.row.conversationId)

/-- From the draft to the encrypted message. -/
def sendable : Except Exn SendableMessage := do
  let encodedMessage ← it.encode account db draft
  it.makeSendableMessage encodedMessage

end Iteration

/-- The draft of conversation `convId` is requested to be stored on the server. -/
def request (it : Iteration P) (convId : IdType) (msg : SendableMessage) (metaData : Bytes) : Event :=
  .sendMessageToSelf convId msg metaData it.accepted

/-- The try block raises `e`, with the conversation and the requests so far. -/
inductive Fails (account : Account) (it : Iteration P) (db : Db) (draft : DraftDao) :
    Exn → Option ConversationDao → List Event → Prop
  | load {e} : it.load db draft = .error e → Fails account it db draft e none []
  | sendable {conv e} : it.load db draft = .ok conv → it.sendable account db draft = .error e →
      Fails account it db draft e (some conv) []
  | saveTooBig {conv msg part e} : it.load db draft = .ok conv → it.sendable account db draft = .ok msg →
      tooBig msg = some part → it.throws .saveTooBig = some e → Fails account it db draft e (some conv) []
  | prepareMeta {conv msg e} : it.load db draft = .ok conv → it.sendable account db draft = .ok msg →
      tooBig msg = none → it.prepareMeta account conv = .error e → Fails account it db draft e (some conv) []
  | answer {conv msg delivery metaData e} : it.load db draft = .ok conv → it.sendable account db draft = .ok msg →
      tooBig msg = none → it.prepareMeta account conv = .ok (delivery, metaData) → it.answer = .error e →
      Fails account it db draft e (some conv) [request it draft.row.conversationId msg metaData]

/-- The try block returns what the server answered. -/
inductive Sends (account : Account) (it : Iteration P) (db : Db) (draft : DraftDao) :
    ConversationDao → MessageSent → List KulloAddress → Event → Prop
  | intro {conv msg delivery metaData msgSent} : it.load db draft = .ok conv →
      it.sendable account db draft = .ok msg → tooBig msg = none →
      it.prepareMeta account conv = .ok (delivery, metaData) → it.answer = .ok msgSent →
      Sends account it db draft conv msgSent delivery (request it draft.row.conversationId msg metaData)

/-- The draft is found to be too large. -/
inductive TooBig (account : Account) (it : Iteration P) (db : Db) (draft : DraftDao) :
    DraftPart → Nat → Nat → Prop
  | intro {conv msg part size maxSize} : it.load db draft = .ok conv → it.sendable account db draft = .ok msg →
      tooBig msg = some (part, size, maxSize) → it.throws .saveTooBig = none →
      TooBig account it db draft part size maxSize

/-! ### How an iteration ends -/

inductive Ending
  | done
  | more
  | stopped (why : Stop)
  deriving DecidableEq

def endingOf : EStateM.Result Stop State Bool → Ending
  | .ok true _ => .more
  | .ok false _ => .done
  | .error why _ => .stopped why

def editingRow (r : DraftRow) : DraftRow := { r with state := .editing }

/-- The database after `resetDraftToEditing`. -/
def resetDb (db : Db) (draft : DraftDao) : Db := { db with drafts := db.drafts.replace (editingRow draft.row) }

/-- The database after the handler. -/
def failedDb (db : Db) (draft : DraftDao) : Db :=
  resetDb (AttachmentDao.deleteAttachments db true draft.row.conversationId) draft

/-- The events of the handler. -/
def failedEvents (db : Db) (convId : IdType) : List Event :=
  (deletedIndexes db convId).map (Event.draftAttachmentDeleted convId) ++ [.draftModified convId]

/-- The events of a stored message. -/
def addedEvents (added : MessagesSyncer.Added) (convId messageId : IdType) : List Event :=
  [.senderAdded added.convId added.msg.id, .messageAdded added.convId added.msg.id,
    if added.newConversation then .conversationAdded added.convId else .conversationModified added.convId,
    .messageAttachmentsDownloaded convId messageId]

def clearedEvents (convId : IdType) (attachments : List AttachmentDao) : List Event :=
  attachments.map fun att => .draftAttachmentDeleted convId att.row.index

/-- The database after `clearDraft`. -/
def clearedDb (db : Db) (draft : DraftDao) : Db :=
  { db with drafts := db.drafts.replace (DraftDao.clearedRow draft.row) }

/-- Cancelling is not handled. -/
def isCancel (e : Exn) : Bool := e == .canceled || e == .syncCanceled

/-- What raises before the try block. -/
def Iteration.early (it : Iteration P) : Option Exn :=
  if it.cancelled .start then some .syncCanceled else it.throws .sizeOfAllSendable

/-- The iteration for a draft. -/
inductive Processed (account : Account) (it : Iteration P) (db : Db) (draft : DraftDao) :
    Option Stop → Db → List Event → Prop
  | tooBig {part size maxSize} : TooBig account it db draft part size maxSize →
      Processed account it db draft none (resetDb db draft)
        [.draftModified draft.row.conversationId,
          .draftPartTooBig draft.row.conversationId part size maxSize]
  | canceled {e conv requests} : Fails account it db draft e conv requests → isCancel e = true →
      Processed account it db draft (some (.exception .syncCanceled)) db requests
  | handlerRaises {e conv requests e'} : Fails account it db draft e conv requests → isCancel e = false →
      it.throws .handler = some e' → Processed account it db draft (some (.exception e')) db requests
  | nullDereference {e requests} : Fails account it db draft e none requests → isCancel e = false →
      it.throws .handler = none → Processed account it db draft (some .nullDereference) db requests
  | failed {e conv requests} : Fails account it db draft e (some conv) requests → isCancel e = false →
      it.throws .handler = none →
      Processed account it db draft none (failedDb db draft)
        (requests ++ failedEvents db draft.row.conversationId)
  | sentCanceled {conv msgSent delivery req} : Sends account it db draft conv msgSent delivery req →
      it.cancelled .afterSend = true → Processed account it db draft (some (.exception .syncCanceled)) db [req]
  | storeRaises {conv msgSent delivery req e} : Sends account it db draft conv msgSent delivery req →
      it.cancelled .afterSend = false →
      it.call .store (store P account.address it.dateSent draft conv msgSent delivery db) = .error e →
      Processed account it db draft (some (.exception e)) db [req]
  | clearRaises {conv msgSent delivery req added attachments db' e} :
      Sends account it db draft conv msgSent delivery req → it.cancelled .afterSend = false →
      it.call .store (store P account.address it.dateSent draft conv msgSent delivery db) =
        .ok (added, attachments, db') →
      it.throws .clearDraft = some e →
      Processed account it db draft (some (.exception e)) db'
        (req :: addedEvents added draft.row.conversationId msgSent.id ++
          clearedEvents draft.row.conversationId attachments)
  | cleared {conv msgSent delivery req added attachments db'} :
      Sends account it db draft conv msgSent delivery req → it.cancelled .afterSend = false →
      it.call .store (store P account.address it.dateSent draft conv msgSent delivery db) =
        .ok (added, attachments, db') →
      it.throws .clearDraft = none →
      Processed account it db draft none (clearedDb db' draft)
        (req :: addedEvents added draft.row.conversationId msgSent.id ++
          clearedEvents draft.row.conversationId attachments ++ [.draftModified draft.row.conversationId])

/-- An iteration. -/
inductive Outcome (account : Account) (it : Iteration P) (db : Db) : Ending → Db → List Event → Prop
  | firstSendableRaises {e} : it.throws .firstSendable = some e →
      Outcome account it db (.stopped (.exception e)) db []
  | done : it.throws .firstSendable = none → DraftDao.firstSendable db = none → Outcome account it db .done db []
  | early {draft e} : it.throws .firstSendable = none → DraftDao.firstSendable db = some draft →
      it.early = some e → Outcome account it db (.stopped (.exception e)) db []
  | processed {draft stop db' events} : it.throws .firstSendable = none → DraftDao.firstSendable db = some draft →
      it.early = none → Processed account it db draft stop db' events →
      Outcome account it db (stop.elim .more .stopped) db' events

/-! ### Running the stages -/

@[simp] theorem ends_lift {α : Type} {x : Except Exn α} {v : State} {post : α → State → Prop}
    {raised : Stop → State → Prop} :
    Ends (lift x) v post raised ↔ (∀ a, x = .ok a → post a v) ∧ (∀ e, x = .error e → raised (.exception e) v) := by
  cases x <;> simp [lift]

@[simp] theorem ends_emit {es : List Event} {v : State} {post : Unit → State → Prop} {raised : Stop → State → Prop} :
    Ends (emit es) v post raised ↔ post () { v with trace := v.trace ++ es } := Iff.rfl

theorem Iteration.call_eq_ok {α : Type} {c : Call} {x : Except Exn α} {a : α} :
    it.call c x = .ok a ↔ it.throws c = none ∧ x = .ok a := by
  unfold call
  cases it.throws c <;> simp

private theorem Iteration.call_ok_eq_error {α : Type} {c : Call} {a : α} {e : Exn} :
    it.call c (.ok a) = .error e ↔ it.throws c = some e := by
  unfold call
  cases it.throws c <;> simp

theorem Iteration.call_of_none {α : Type} {c : Call} (h : it.throws c = none) (x : Except Exn α) : it.call c x = x := by
  unfold call
  rw [h]

private theorem Iteration.check_eq_ok {c : Check} {u : Unit} : it.check c = .ok u ↔ it.cancelled c = false := by
  unfold check
  cases it.cancelled c <;> simp

private theorem Iteration.check_eq_error {c : Check} {e : Exn} :
    it.check c = .error e ↔ it.cancelled c = true ∧ e = .syncCanceled := by
  unfold check
  cases it.cancelled c <;> simp [eq_comm]

/-- A dao that `resetDraftToEditing` writes as the row with the other state. -/
structure Resettable (d : DraftDao) (r : DraftRow) : Prop where
  storedInDb : d.storedInDb = true
  dirty : (d.setState .editing).dirty = true
  row : (d.setState .editing).row = editingRow r

theorem resettable_of_stored {d : DraftDao} (hstored : d.storedInDb = true) (hs : d.row.state = .sending) :
    Resettable d d.row where
  storedInDb := hstored
  dirty := by simp [hs]
  row := by simp [editingRow]

theorem Resettable.setState {d : DraftDao} {r : DraftRow} (h : Resettable d r) : Resettable (d.setState .editing) r where
  storedInDb := by rw [DraftDao.setState_storedInDb, h.storedInDb]
  dirty := by rw [DraftDao.setState_dirty, h.dirty, Bool.true_or]
  row := by
    rw [DraftDao.setState_row, h.row]
    rfl

/-- The draft was reset in `db`. -/
structure Reset (it : Iteration P) (r : DraftRow) (c : Call) (db : Db) (v v' : State) : Prop where
  call : it.throws c = none
  db_eq : v'.db = { db with drafts := db.drafts.replace (editingRow r) }
  trace : v'.trace = v.trace
  draft : v'.draft.row = editingRow r

/-- Saving the reset draft raised `e`. -/
structure ResetRaised (it : Iteration P) (r : DraftRow) (c : Call) (v : State) (e : Exn) (v' : State) : Prop where
  call : it.throws c = some e
  db_eq : v'.db = v.db
  conv : v'.conv = v.conv
  trace : v'.trace = v.trace
  draft : Resettable v'.draft r

private theorem resetDraftToEditing_ends {v : State} {r : DraftRow} (h : Resettable v.draft r) (c : Call) (db : Db) :
    Ends (resetDraftToEditing P it c db) v (fun _ => Reset it r c db v)
      (fun stop v' => ∃ e, stop = .exception e ∧ ResetRaised it r c v e v') := by
  have hsave : (v.draft.setState .editing).save db = _ := DraftDao.save_of_stored h.dirty h.setState.storedInDb
  simp only [resetDraftToEditing, ends_bind, ends_modify, ends_get, ends_lift]
  rw [hsave]
  constructor
  · rintro ⟨draft, db'⟩ hok
    obtain ⟨hnone, hok⟩ := Iteration.call_eq_ok.mp hok
    cases hok
    refine ⟨hnone, ?_, rfl, h.row⟩
    dsimp only
    rw [h.row]
  · intro e herror
    unfold Iteration.call at herror
    cases hthrows : it.throws c with
    | none =>
      rw [hthrows] at herror
      cases herror
    | some e' =>
      rw [hthrows] at herror
      cases herror
      exact ⟨e, rfl, hthrows, rfl, rfl, rfl, h.setState⟩

/-- The try block raised an exception. -/
inductive Raised (account : Account) (it : Iteration P) (v : State) : Stop → State → Prop
  | intro {e conv requests v'} : Fails account it v.db v.draft e conv requests → v'.db = v.db → v'.conv = conv →
      v'.trace = v.trace ++ requests → Resettable v'.draft v.draft.row → Raised account it v (.exception e) v'

/-- The try block returned. -/
inductive Returned (account : Account) (it : Iteration P) (v : State) :
    Option (ConversationDao × MessageSent × List KulloAddress) → State → Prop
  | tooBig {part size maxSize v'} : TooBig account it v.db v.draft part size maxSize → v'.db = resetDb v.db v.draft →
      v'.trace = v.trace ++ [.draftModified v.draft.row.conversationId,
        .draftPartTooBig v.draft.row.conversationId part size maxSize] → Returned account it v none v'
  | sent {conv msgSent delivery req v'} : Sends account it v.db v.draft conv msgSent delivery req → v'.db = v.db →
      v'.trace = v.trace ++ [req] → v'.draft = v.draft → Returned account it v (some (conv, msgSent, delivery)) v'

theorem attempt_ends {v : State} (hstored : v.draft.storedInDb = true) (hs : v.draft.row.state = .sending)
    (hconv : v.conv = none) : Ends (attempt P account it) v (Returned account it v) (Raised account it v) := by
  have hreset : Resettable v.draft v.draft.row := resettable_of_stored hstored hs
  have hnil : v.trace = v.trace ++ [] := (List.append_nil _).symm
  simp only [attempt, upload, ensureSizeLimitCompliance, ends_bind, ends_get, ends_modify, ends_lift]
  refine ⟨?_, fun e he => .intro (.load he) rfl hconv hnil hreset⟩
  intro conv hload
  refine ⟨?_, fun e he => .intro (.sendable hload ?_) rfl rfl hnil hreset⟩
  rotate_left
  · unfold Iteration.sendable
    rw [he, error_bind]
  intro encodedMessage hencode
  have hsendable : it.sendable account v.db v.draft = it.makeSendableMessage encodedMessage := by
    unfold Iteration.sendable
    rw [hencode, ok_bind]
  refine ⟨?_, fun e he => .intro (.sendable hload (hsendable.trans he)) rfl rfl hnil hreset⟩
  intro msg hmsg
  rw [← hsendable] at hmsg
  cases hbig : tooBig msg with
  | none =>
    simp only [ends_pure, if_true, ends_bind, ends_lift, ends_emit]
    refine ⟨?_, fun e he => .intro (.prepareMeta hload hmsg hbig he) rfl rfl hnil hreset⟩
    rintro ⟨delivery, metaData⟩ hmeta
    refine ⟨?_, fun e he => .intro (.answer hload hmsg hbig hmeta he) rfl rfl rfl hreset⟩
    intro msgSent hanswer
    exact .sent (.intro hload hmsg hbig hmeta hanswer) rfl rfl rfl
  | some part =>
    obtain ⟨part, size, maxSize⟩ := part
    simp only [ends_bind, ends_get]
    refine (resetDraftToEditing_ends (v := { v with conv := some conv }) hreset .saveTooBig v.db).mono ?_ ?_
    · intro _ v' hv'
      simp only [ends_emit, ends_pure, Bool.false_eq_true, if_false]
      refine .tooBig (.intro hload hmsg hbig hv'.call) hv'.db_eq ?_
      rw [hv'.trace, hv'.draft]
      rfl
    · rintro stop v' ⟨e, rfl, hv'⟩
      exact .intro (.saveTooBig hload hmsg hbig hv'.call) hv'.db_eq hv'.conv (hv'.trace.trans hnil) hv'.draft

/-! ### The handler and what follows an upload -/

theorem load_id {db : Db} {draft : DraftDao} {conv : ConversationDao} (h : it.load db draft = .ok conv) :
    ConversationDao.load db draft.row.conversationId = some conv ∧ conv.id = draft.row.conversationId := by
  have hload := (Iteration.call_eq_ok.mp h).2
  unfold loadConversation at hload
  cases hc : ConversationDao.load db draft.row.conversationId with
  | none =>
    rw [hc] at hload
    cases hload
  | some conv' =>
    rw [hc] at hload
    cases hload
    obtain ⟨r, hr, rfl⟩ := Option.map_eq_some_iff.mp hc
    have hkey : r.id = draft.row.conversationId := Relational.Table.key_of_find? hr
    exact ⟨rfl, hkey⟩

private theorem Fails.conv_id {db : Db} {draft : DraftDao} {e : Exn} {conv : ConversationDao} {requests : List Event}
    (h : Fails account it db draft e (some conv) requests) : conv.id = draft.row.conversationId := by
  cases h with
  | sendable hload _ => exact (load_id hload).2
  | saveTooBig hload _ _ _ => exact (load_id hload).2
  | prepareMeta hload _ _ _ => exact (load_id hload).2
  | answer hload _ _ _ _ => exact (load_id hload).2

/-- The handler, after the try block raised `e`. -/
theorem handleFailed_ends {db : Db} {draft : DraftDao} {e : Exn} {conv : Option ConversationDao}
    {requests : List Event} {v : State} {trace : List Event} (hfails : Fails account it db draft e conv requests)
    (hcancel : isCancel e = false) (hdb : v.db = db) (hconv : v.conv = conv) (htrace : v.trace = trace ++ requests)
    (hdraft : Resettable v.draft draft.row) :
    Ends (handleFailed P it) v
      (fun _ v' => ∃ events, Processed account it db draft none v'.db events ∧ v'.trace = trace ++ events)
      (fun stop v' => ∃ events, Processed account it db draft (some stop) v'.db events ∧ v'.trace = trace ++ events) := by
  subst hdb hconv
  simp only [handleFailed, ends_bind, ends_get, ends_lift]
  refine ⟨?_, ?_⟩
  · intro _ hcall
    have hnone := (Iteration.call_eq_ok.mp hcall).1
    cases hc : v.conv with
    | none =>
      rw [hc] at hfails
      exact ⟨requests, .nullDereference hfails hcancel hnone, htrace⟩
    | some conv =>
      rw [hc] at hfails
      have hid := hfails.conv_id
      dsimp only
      simp only [ends_bind]
      refine (resetDraftToEditing_ends hdraft .handler _).mono ?_ ?_
      · intro _ v' hv'
        simp only [ends_emit]
        have hfailed : v'.db = failedDb v.db draft := by
          rw [hv'.db_eq, hid]
          rfl
        refine ⟨requests ++ failedEvents v.db draft.row.conversationId, ?_, ?_⟩
        · rw [hfailed]
          exact .failed hfails hcancel hnone
        · rw [hv'.trace, htrace, hid]
          simp [failedEvents]
      · rintro stop v' ⟨e', rfl, hv'⟩
        have hthrows := hv'.call
        rw [hnone] at hthrows
        cases hthrows
  · intro e' he'
    exact ⟨requests, .handlerRaises hfails hcancel (Iteration.call_ok_eq_error.mp he'), htrace⟩

/-- What follows an upload. -/
theorem finish_ends {db : Db} {draft : DraftDao} {conv : ConversationDao} {msgSent : MessageSent}
    {delivery : List KulloAddress} {req : Event} {v : State} {trace : List Event}
    (hstored : draft.storedInDb = true) (hs : draft.row.state = .sending)
    (hsends : Sends account it db draft conv msgSent delivery req) (hdb : v.db = db) (hdraft : v.draft = draft)
    (htrace : v.trace = trace ++ [req]) :
    Ends (finish P account it conv msgSent delivery) v
      (fun _ v' => ∃ events, Processed account it db draft none v'.db events ∧ v'.trace = trace ++ events)
      (fun stop v' => ∃ events, Processed account it db draft (some stop) v'.db events ∧ v'.trace = trace ++ events) := by
  subst hdb hdraft
  simp only [finish, clearDraft, ends_bind, ends_get, ends_lift, ends_modify, ends_emit]
  refine ⟨?_, ?_⟩
  · intro _ hcheck
    have hgo : it.cancelled .afterSend = false := Iteration.check_eq_ok.mp hcheck
    refine ⟨?_, fun e he => ⟨[req], .storeRaises hsends hgo he, htrace⟩⟩
    rintro ⟨added, attachments, db'⟩ hstore
    have hclear : v.draft.clear.dirty = true ∧ v.draft.clear.storedInDb = true := by
      obtain ⟨hdirty, hkeep⟩ := DraftDao.clear_flags hs
      exact ⟨hdirty, hkeep.trans hstored⟩
    dsimp only
    rw [DraftDao.save_of_stored hclear.1 hclear.2]
    refine ⟨?_, ?_⟩
    · rintro ⟨draft', db''⟩ hsave
      obtain ⟨hnone, hsave⟩ := Iteration.call_eq_ok.mp hsave
      cases hsave
      refine ⟨req :: addedEvents added v.draft.row.conversationId msgSent.id ++
        clearedEvents v.draft.row.conversationId attachments ++ [.draftModified v.draft.row.conversationId], ?_, ?_⟩
      · have hcleared : ({ db' with drafts := db'.drafts.replace v.draft.clear.row } : Db) = clearedDb db' v.draft := by
          rw [DraftDao.clear_row]
          rfl
        dsimp only
        rw [hcleared]
        exact .cleared hsends hgo hstore hnone
      · simp [htrace, addedEvents, clearedEvents]
    · intro e he
      unfold Iteration.call at he
      cases hthrows : it.throws .clearDraft with
      | none =>
        rw [hthrows] at he
        cases he
      | some e' =>
        rw [hthrows] at he
        cases he
        refine ⟨_, .clearRaises hsends hgo hstore hthrows, ?_⟩
        simp [htrace, addedEvents, clearedEvents]
  · intro e he
    obtain ⟨hc, rfl⟩ := Iteration.check_eq_error.mp he
    exact ⟨[req], .sentCanceled hsends hc, htrace⟩

/-- The iteration for a draft. -/
theorem process_ends {draft : DraftDao} (hstored : draft.storedInDb = true) (hs : draft.row.state = .sending)
    (s : State) :
    Ends (process P account it draft) s
      (fun _ v' => ∃ events, Processed account it s.db draft none v'.db events ∧ v'.trace = s.trace ++ events)
      (fun stop v' =>
        ∃ events, Processed account it s.db draft (some stop) v'.db events ∧ v'.trace = s.trace ++ events) := by
  simp only [process, ends_bind, ends_modify, ends_tryCatch]
  refine (attempt_ends (v := { s with draft := draft, conv := none }) hstored hs rfl).mono ?_ ?_
  · intro result v' hv'
    cases hv' with
    | tooBig hbig hdb htrace =>
      refine ⟨_, ?_, htrace⟩
      rw [hdb]
      exact .tooBig hbig
    | sent hsends hdb htrace hdraft => exact finish_ends hstored hs hsends hdb hdraft htrace
  · rintro stop v' ⟨hfails, hdb, hconv, htrace, hdraft⟩
    rename_i e conv requests
    by_cases hcancel : isCancel e = true
    · have hthrow : handlers P it (.exception e) = throw (.exception .syncCanceled) := by
        simp only [isCancel, Bool.or_eq_true, beq_iff_eq] at hcancel
        rcases hcancel with rfl | rfl <;> rfl
      rw [hthrow]
      refine ⟨requests, ?_, htrace⟩
      rw [hdb]
      exact .canceled hfails hcancel
    · have hhandle : handlers P it (.exception e) = (do handleFailed P it; pure none) := by
        cases e <;> first | rfl | exact absurd rfl hcancel
      rw [hhandle, ends_bind]
      refine (handleFailed_ends hfails (Bool.eq_false_iff.mpr hcancel) hdb hconv htrace hdraft).mono ?_ ?_
      · intro _ v'' hv''
        simpa using hv''
      · exact fun _ _ h => h

private theorem Iteration.early_of_check {e : Exn} (h : it.check .start = .error e) : it.early = some e := by
  obtain ⟨hc, rfl⟩ := check_eq_error.mp h
  simp [early, hc]

private theorem Iteration.early_of_call {e : Exn} {u : Unit} {size : Nat} (hcheck : it.check .start = .ok u)
    (h : it.call .sizeOfAllSendable (.ok size) = .error e) : it.early = some e := by
  simp [early, check_eq_ok.mp hcheck, call_ok_eq_error.mp h]

private theorem Iteration.early_eq_none {u : Unit} {size size' : Nat} (hcheck : it.check .start = .ok u)
    (h : it.call .sizeOfAllSendable (.ok size) = .ok size') : it.early = none := by
  simp [early, check_eq_ok.mp hcheck, (call_eq_ok.mp h).1]

/-- Every iteration is one of the outcomes. -/
theorem iterate_outcome (account : Account) (it : Iteration P) (s : State) :
    ∃ events, Outcome account it s.db (endingOf (iterate P account it s)) (final (iterate P account it s)).db events ∧
      (final (iterate P account it s)).trace = s.trace ++ events := by
  have h : Ends (iterate P account it) s
      (fun more v' => ∃ events, Outcome account it s.db (if more then .more else .done) v'.db events ∧
        v'.trace = s.trace ++ events)
      (fun stop v' => ∃ events, Outcome account it s.db (.stopped stop) v'.db events ∧
        v'.trace = s.trace ++ events) := by
    simp only [iterate, ends_bind, ends_get, ends_lift]
    refine ⟨?_, ?_⟩
    · intro first hfirst
      obtain ⟨hnone, hfirst⟩ := Iteration.call_eq_ok.mp hfirst
      cases hfirst
      cases hdraft : DraftDao.firstSendable s.db with
      | none => exact ⟨[], .done hnone hdraft, by simp⟩
      | some draft =>
        obtain ⟨_, hs, hrow⟩ := DraftDao.of_firstSendable hdraft
        have hstored : draft.storedInDb = true := by
          rw [hrow]
          rfl
        simp only [ends_bind, ends_lift]
        refine ⟨?_, fun e he => ⟨[], .early hnone hdraft (Iteration.early_of_check he), by simp⟩⟩
        intro _ hcheck
        refine ⟨?_, fun e he => ⟨[], .early hnone hdraft (Iteration.early_of_call hcheck he), by simp⟩⟩
        intro size hcall
        have hearly : it.early = none := Iteration.early_eq_none hcheck hcall
        rw [ends_modify]
        -- what is left of the iteration begins with the try block
        refine (process_ends hstored hs { s with meter := s.meter.start size }).mono ?_ ?_
        · rintro _ v' ⟨events, hprocessed, htrace⟩
          exact ⟨events, .processed hnone hdraft hearly hprocessed, htrace⟩
        · rintro stop v' ⟨events, hprocessed, htrace⟩
          exact ⟨events, .processed hnone hdraft hearly hprocessed, htrace⟩
    · intro e he
      unfold Iteration.call at he
      cases hthrows : it.throws .firstSendable with
      | none =>
        rw [hthrows] at he
        cases he
      | some e' =>
        rw [hthrows] at he
        cases he
        exact ⟨[], .firstSendableRaises hthrows, by simp⟩
  unfold Ends at h
  unfold final
  cases hr : iterate P account it s with
  | ok more v' =>
    rw [hr] at h
    cases more <;> exact h
  | error stop v' =>
    rw [hr] at h
    exact h

/-! ### Reading outcomes -/

/-- After an iteration that goes on, the first draft was processed. -/
theorem Outcome.of_more {db db' : Db} {events : List Event} (h : Outcome account it db .more db' events) :
    ∃ draft, DraftDao.firstSendable db = some draft ∧ Processed account it db draft none db' events := by
  generalize hending : Ending.more = ending at h
  cases h with
  | firstSendableRaises _ => cases hending
  | done _ _ => cases hending
  | early _ _ _ => cases hending
  | processed hnone hdraft hearly hprocessed =>
    rename_i draft stop
    cases stop with
    | none => exact ⟨draft, hdraft, hprocessed⟩
    | some stop => cases hending

/-- The requests of a try block that raised: one, if what raised is the answer. -/
theorem Fails.requests_eq {db : Db} {draft : DraftDao} {e : Exn} {conv : Option ConversationDao} {requests : List Event}
    (h : Fails account it db draft e conv requests) :
    requests = [] ∨ it.answer = .error e ∧ ∃ msg metaData,
      requests = [request it draft.row.conversationId msg metaData] := by
  cases h with
  | load _ => exact .inl rfl
  | sendable _ _ => exact .inl rfl
  | saveTooBig _ _ _ _ => exact .inl rfl
  | prepareMeta _ _ _ _ => exact .inl rfl
  | answer _ _ _ _ hanswer => exact .inr ⟨hanswer, _, _, rfl⟩

/-! ### The requests among the events -/

def isRequest : Event → Bool
  | .sendMessageToSelf _ _ _ _ => true
  | _ => false

@[simp] theorem filter_failedEvents (db : Db) (convId : IdType) : (failedEvents db convId).filter isRequest = [] := by
  simp [failedEvents, isRequest, List.filter_eq_nil_iff]

@[simp] theorem filter_addedEvents (added : MessagesSyncer.Added) (convId messageId : IdType) :
    (addedEvents added convId messageId).filter isRequest = [] := by
  unfold addedEvents
  cases added.newConversation <;> rfl

@[simp] theorem filter_clearedEvents (convId : IdType) (attachments : List AttachmentDao) :
    (clearedEvents convId attachments).filter isRequest = [] := by
  simp [clearedEvents, isRequest, List.filter_eq_nil_iff]

theorem Fails.filter_requests {db : Db} {draft : DraftDao} {e : Exn} {conv : Option ConversationDao}
    {requests : List Event} (h : Fails account it db draft e conv requests) :
    requests.filter isRequest = requests := by
  rcases h.requests_eq with rfl | ⟨_, _, _, rfl⟩ <;> rfl

theorem Sends.isRequest_eq {db : Db} {draft : DraftDao} {conv : ConversationDao} {msgSent : MessageSent}
    {delivery : List KulloAddress} {req : Event} (h : Sends account it db draft conv msgSent delivery req) :
    isRequest req = true := by
  cases h
  rfl

/-! ### What the iterations of a run meet -/

/-- Every iteration of a run with at most `fuel` iterations meets what `ok` asks for. -/
def Meets (account : Account) (ok : State → Iteration P → Prop) (its : Nat → Iteration P) : Nat → Nat → State → Prop
  | _, 0, _ => True
  | i, fuel + 1, s =>
    ok s (its i) ∧ ∀ s', iterate P account (its i) s = .ok true s' → Meets account ok its (i + 1) fuel s'

theorem Meets.mono {ok ok' : State → Iteration P → Prop} {its : Nat → Iteration P} {i fuel : Nat} {s : State}
    (h : Meets account ok its i fuel s) (hok : ∀ s it, ok s it → ok' s it) : Meets account ok' its i fuel s := by
  induction fuel generalizing i s with
  | zero => trivial
  | succ fuel ih => exact ⟨hok _ _ h.1, fun s' hs' => ih (h.2 s' hs')⟩

end MessagesUploader

end KulloClient
