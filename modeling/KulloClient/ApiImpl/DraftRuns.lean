import KulloClient.ApiImpl.DraftsImpl
import KulloClient.Sync.MessageRows
import KulloClient.Sync.UploadOnce

/-!
# The drafts over a run

The main thread changes its cached drafts and writes them with all their columns; the uploader works on a draft that it
has loaded, and writes all its columns, too.  A draft that the uploader has written is stale in the cache until its
`DraftModified` is handled.
-/

namespace KulloClient

open Relational (Table)
open Transition (EventLoop)
open Imperative

/-! ### Drafts as they are meant -/

/-- What can happen to a draft. -/
inductive DraftStep
  | setText (convId : IdType) (text : String)
  | prepareToSend (convId : IdType) (settings : UserSettings)
  | clear (convId : IdType)
  /-- A message was made of it, and is stored. -/
  | sent (convId : IdType)
  /-- It was cleared after it had become a message. -/
  | cleared (convId : IdType)
  /-- It could not be sent. -/
  | returned (convId : IdType)
  deriving DecidableEq

namespace DraftStep

def convId : DraftStep → IdType
  | setText convId _ | prepareToSend convId _ | clear convId | sent convId | cleared convId | returned convId => convId

/-- What becomes of the draft. -/
def row (r : DraftRow) : DraftStep → DraftRow
  | setText _ text => { r with text := text }
  | prepareToSend _ settings => DraftDao.releasedRow settings r
  | sent _ => r
  | clear _ | cleared _ => DraftDao.clearedRow r
  | returned _ => MessagesUploader.editingRow r

def isSent : DraftStep → Bool
  | sent _ => true
  | _ => false

end DraftStep

/-- The drafts, and those that became messages, the latest one first. -/
@[ext] structure DraftBox where
  drafts : IdType → DraftRow
  sent : List DraftRow := []

namespace DraftBox

def perform (b : DraftBox) (step : DraftStep) : DraftBox where
  drafts := Function.update b.drafts step.convId (step.row (b.drafts step.convId))
  sent := if step.isSent then b.drafts step.convId :: b.sent else b.sent

/-- The steps of a log, the latest of which is the first. -/
def replay (b : DraftBox) (log : List DraftStep) : DraftBox := log.foldr (fun step b => b.perform step) b

end DraftBox

/-! ### The session -/

/-- Where an iteration of `MessagesUploader::run` is, with its draft. -/
inductive DraftUploader
  | idle
  | loaded (draft : DraftDao)
  /-- The message is stored and the draft is about to be cleared. -/
  | stored (draft : DraftDao) (attachments : List AttachmentDao)

structure DraftsSession where
  db : Db
  drafts : DraftsImpl
  uploader : DraftUploader := .idle
  /-- What the operations and the handlers have raised. -/
  raised : List Exn := []
  /-- The steps that took effect, the drafts that the server accepted and those that messages were made of, the latest
  ones first. -/
  log : List DraftStep := []
  accepted : List DraftRow := []
  created : List DraftRow := []
  /-- The drafts that are still to be sent although they were accepted: the message was not stored, or it was stored and
  clearing the draft raised. -/
  unstored : List DraftRow := []
  uncleared : List DraftRow := []

inductive DraftsOp
  | setText (convId : IdType) (text : String)
  | prepareToSend (convId : IdType) (settings : UserSettings)
  | clear (convId : IdType)
  /-- `ConversationsImpl::triggerRemoval`, for a conversation that is cached. -/
  | triggerRemoval (convId : IdType)
  /-- The uploader begins an iteration with a draft. -/
  | load
  /-- Its iteration ends by a cancellation or an exception that is not caught; one that is cut short before the
  transaction may have had its upload accepted. -/
  | abort (accepted : Bool)
  /-- The draft is put back, because it is too large or because an exception was caught, maybe one that hid that the
  upload was accepted. -/
  | reset (deleteAttachments accepted : Bool)
  /-- The transaction after the upload. -/
  | store (dateSent : String) (conv : ConversationDao) (msgSent : MessageSent) (delivery : List KulloAddress)
  | clearDraft

namespace DraftsSession

def thread : DraftsOp → SessionThread
  | .setText .. | .prepareToSend .. | .clear _ | .triggerRemoval _ => .main
  | .load | .abort _ | .reset .. | .store .. | .clearDraft => .syncer

/-- What an operation or a handler leaves behind. -/
def apply (s : DraftsSession) (steps : List DraftStep) (e : DraftsImpl.Effect) : DraftsSession :=
  { s with
    db := e.db
    drafts := e.impl
    raised := e.raised.toList ++ s.raised
    log := if e.raised = none then steps ++ s.log else s.log }

/-- A call on the main thread; one that fails its assertion does nothing. -/
def call (s : DraftsSession) (step : DraftStep) (result : Except Exn DraftsImpl.Effect) :
    Option (DraftsSession × List Event) :=
  result.toOption.map fun e => (s.apply [step] e, e.events)

/-- The draft of an iteration, if its upload was accepted. -/
def acceptedRow (draft : DraftDao) (accepted : Bool) : List DraftRow := if accepted then [draft.row] else []

variable (P : Platform) (userAddress : KulloAddress)

/-- The events for the attachments and the messages are announced as well; the drafts do not hear of them. -/
def perform (op : DraftsOp) (s : DraftsSession) : Option (DraftsSession × List Event) :=
  match op with
  | .setText convId text => s.call (.setText convId text) (s.drafts.setText s.db convId text)
  | .prepareToSend convId settings =>
    s.call (.prepareToSend convId settings) (s.drafts.prepareToSend s.db convId settings)
  | .clear convId => s.call (.clear convId) (s.drafts.clear s.db convId)
  | .triggerRemoval convId =>
    (assertId convId "convId").toOption.map fun _ => (s, [.conversationWillBeRemoved convId])
  | .load =>
    match s.uploader with
    | .idle => (DraftDao.firstSendable s.db).map fun draft => ({ s with uploader := .loaded draft }, [])
    | _ => none
  | .abort accepted =>
    match s.uploader with
    | .idle => none
    | .loaded draft =>
      -- the run ended with the draft still in state sending
      let row := acceptedRow draft accepted
      some ({ s with uploader := .idle, accepted := row ++ s.accepted, unstored := row ++ s.unstored }, [])
    | .stored draft attachments =>
      -- saving the cleared draft raised, and its row stays in state sending
      some ({ s with uploader := .idle, uncleared := draft.row :: s.uncleared },
        attachments.map fun att => .draftAttachmentRemoved draft.row.conversationId att.row.index)
  | .reset deleteAttachments accepted =>
    match s.uploader with
    | .loaded draft =>
      let convId := draft.row.conversationId
      let db := if deleteAttachments then AttachmentDao.deleteAttachments s.db true convId else s.db
      let indexes := if deleteAttachments then MessagesUploader.deletedIndexes s.db convId else []
      ((draft.setState .editing).save db).toOption.map fun saved =>
        ({ s with
            db := saved.2
            uploader := .idle
            log := .returned convId :: s.log
            accepted := acceptedRow draft accepted ++ s.accepted },
          indexes.map (Event.draftAttachmentRemoved convId) ++ [.draftModified convId])
    | _ => none
  | .store dateSent conv msgSent delivery =>
    match s.uploader with
    | .loaded draft =>
      (MessagesUploader.store P userAddress dateSent draft conv msgSent delivery s.db).toOption.map fun result =>
        ({ s with
            db := result.2.2
            uploader := .stored draft result.2.1
            log := .sent draft.row.conversationId :: s.log
            accepted := draft.row :: s.accepted
            created := draft.row :: s.created },
          [.senderAdded result.1.convId result.1.msg.id, .messageAdded result.1.convId result.1.msg.id,
            if result.1.newConversation then .conversationAdded result.1.convId
            else .conversationModified result.1.convId])
    | _ => none
  | .clearDraft =>
    match s.uploader with
    | .stored draft attachments =>
      (draft.clear.save s.db).toOption.map fun saved =>
        ({ s with db := saved.2, uploader := .idle, log := .cleared draft.row.conversationId :: s.log },
          attachments.map (fun att => .draftAttachmentRemoved draft.row.conversationId att.row.index) ++
            [.draftModified draft.row.conversationId])
    | _ => none

/-- What an event does to the drafts. -/
def stepsOf : Event → List DraftStep
  | .conversationWillBeRemoved convId => [.clear convId]
  | _ => []

def handle (e : Event) (s : DraftsSession) : DraftsSession × List Event :=
  (s.apply (stepsOf e) (s.drafts.notify s.db e), (s.drafts.notify s.db e).events)

/-- The session of a user. -/
def loop : EventLoop SessionThread DraftsOp Event DraftsSession where
  main := .main
  thread := thread
  perform := perform P userAddress
  handle := handle

/-- The session after its construction. -/
def initial (db : Db) : EventLoop.State SessionThread Event DraftsSession where
  data := { db := db, drafts := .construct db }

/-- The step that an operation of the main thread takes. -/
def stepOf : DraftsOp → Option DraftStep
  | .setText convId text => some (.setText convId text)
  | .prepareToSend convId settings => some (.prepareToSend convId settings)
  | .clear convId => some (.clear convId)
  | _ => none

/-- The row of a draft; a conversation without one has a draft that was never written to. -/
def tableRow (db : Db) (convId : IdType) : DraftRow := (db.drafts.find? convId).getD (DraftDao.blankRow convId)

/-- The draft that the uploader has loaded. -/
def held (s : DraftsSession) : Option DraftDao :=
  match s.uploader with
  | .idle => none
  | .loaded draft => some draft
  | .stored draft _ => some draft

/-! ### The cache and the table -/

open DraftsImpl (Cached Written)

variable {s : DraftsSession} {pending : Multiset Event}

private theorem held_of_loaded {draft : DraftDao} (h : s.uploader = .loaded draft) : s.held = some draft := by
  unfold held
  rw [h]

private theorem held_of_stored {draft : DraftDao} {attachments : List AttachmentDao} (h : s.uploader = .stored draft attachments) :
    s.held = some draft := by
  unfold held
  rw [h]

structure Inv (s : DraftsSession) (pending : Multiset Event) : Prop where
  quiet : ∀ e ∈ s.raised, e = DraftsImpl.noSenderName
  ids : ∀ convId r, s.db.drafts.find? convId = some r → convId ≤ idMax
  cached : ∀ convId, Cached convId (s.db.drafts.find? convId) (s.drafts.drafts convId)
  /-- A stale draft is about to be loaded again. -/
  stale : ∀ convId r, s.db.drafts.find? convId = some r → s.drafts.row convId ≠ r →
    .draftModified convId ∈ pending
  modified : ∀ convId, .draftModified convId ∈ pending → ∃ r, s.db.drafts.find? convId = some r
  removed : ∀ convId, .conversationWillBeRemoved convId ∈ pending → convId ≤ idMax
  held : ∀ draft, s.held = some draft → draft = .ofRow draft.row ∧ draft.row.state = .sending ∧
    ∃ r, s.db.drafts.find? draft.row.conversationId = some r

/-- The database after the uploader has written a row. -/
def Writes (db db' : Db) (r : DraftRow) : Prop :=
  ∀ k, db'.drafts.find? k = if k = r.conversationId then some r else db.drafts.find? k

namespace Inv

/-- Other events do not matter. -/
theorem mono (h : Inv s pending) {es : Multiset Event} (hmodified : ∀ convId, .draftModified convId ∉ es)
    (hremoved : ∀ convId, .conversationWillBeRemoved convId ∈ es → convId ≤ idMax) : Inv s (pending + es) where
  quiet := h.quiet
  ids := h.ids
  cached := h.cached
  stale convId r hr hne := Multiset.mem_add.2 (.inl (h.stale convId r hr hne))
  modified convId hmem := by
    rcases Multiset.mem_add.1 hmem with hmem | hmem
    · exact h.modified convId hmem
    · exact absurd hmem (hmodified convId)
  removed convId hmem := by
    rcases Multiset.mem_add.1 hmem with hmem | hmem
    · exact h.removed convId hmem
    · exact hremoved convId hmem
  held := h.held

/-- The database and the cache after an operation of the main thread. -/
theorem written (h : Inv s pending) {convId : IdType} (hid : convId ≤ idMax) {r : DraftRow} {e : DraftsImpl.Effect}
    (hwritten : Written s.drafts s.db convId r e) (steps : List DraftStep)
    (hraised : ∀ x, e.raised = some x → x = DraftsImpl.noSenderName) : Inv (s.apply steps e) pending where
  quiet x hx := by
    rcases List.mem_append.1 hx with hx | hx
    · exact hraised x (Option.mem_toList.1 hx)
    · exact h.quiet x hx
  ids k r' hr' := by
    by_cases hk : k = convId
    · exact hk ▸ hid
    · exact h.ids k r' ((hwritten.otherRows k hk).symm.trans hr')
  cached k := by
    by_cases hk : k = convId
    · subst hk
      exact hwritten.cached
    · show Cached k (e.db.drafts.find? k) (e.impl.drafts k)
      rw [hwritten.otherRows k hk, hwritten.otherCached k hk]
      exact h.cached k
  stale k r' hr' hne := by
    have hr' : e.db.drafts.find? k = some r' := hr'
    have hne : e.impl.row k ≠ r' := hne
    by_cases hk : k = convId
    · subst hk
      rw [hwritten.shown] at hne
      rcases hwritten.row with hrow | ⟨hrow, hshown⟩
      · rw [hrow, Option.some.injEq] at hr'
        exact absurd hr' hne
      · exact h.stale k r' (hrow.symm.trans hr') (hshown ▸ hne)
    · rw [hwritten.row_of_ne hk] at hne
      exact h.stale k r' ((hwritten.otherRows k hk).symm.trans hr') hne
  modified k hmem := by
    obtain ⟨r', hr'⟩ := h.modified k hmem
    exact hwritten.find?_some hr'
  removed := h.removed
  held draft hdraft := by
    obtain ⟨hclean, hstate, r', hr'⟩ := h.held draft hdraft
    exact ⟨hclean, hstate, hwritten.find?_some hr'⟩

/-- The uploader writes the draft it holds, and announces it. -/
theorem uploaded (h : Inv s pending) {s' : DraftsSession} {r r' : DraftRow} (hrows : Writes s.db s'.db r')
    (hr : s.db.drafts.find? r'.conversationId = some r) (hdrafts : s'.drafts = s.drafts)
    (hraised : s'.raised = s.raised) (huploader : s'.held = none) {es : Multiset Event}
    (hremoved : ∀ k, .conversationWillBeRemoved k ∉ es)
    (hmodified : ∀ k, .draftModified k ∈ es ↔ k = r'.conversationId) :
    Inv s' (pending + es) where
  quiet := hraised ▸ h.quiet
  ids k r'' hr'' := by
    rw [hrows] at hr''
    split at hr''
    · next hk => exact hk ▸ h.ids _ r hr
    · exact h.ids k r'' hr''
  cached k := by
    rw [hrows, hdrafts]
    by_cases hk : k = r'.conversationId
    · subst hk
      rw [if_pos rfl]
      have hcached := h.cached r'.conversationId
      rw [hr] at hcached
      generalize s.drafts.drafts r'.conversationId = found at hcached
      cases hcached with
      | stored r r₁ h₁ h₂ => exact .stored r' r₁ rfl h₂
    · rw [if_neg hk]
      exact h.cached k
  stale k r'' hr'' hne := by
    rw [hrows] at hr''
    rw [hdrafts] at hne
    split at hr''
    · next hk => exact Multiset.mem_add.2 (.inr ((hmodified k).2 hk))
    · exact Multiset.mem_add.2 (.inl (h.stale k r'' hr'' hne))
  modified k hmem := by
    rw [hrows]
    split
    · exact ⟨r', rfl⟩
    · next hk =>
      rcases Multiset.mem_add.1 hmem with hmem | hmem
      · exact h.modified k hmem
      · exact absurd ((hmodified k).1 hmem) hk
  removed k hmem := by
    rcases Multiset.mem_add.1 hmem with hmem | hmem
    · exact h.removed k hmem
    · exact absurd hmem (hremoved k)
  held draft hdraft := by
    rw [huploader] at hdraft
    cases hdraft

end Inv

/-! ### What an operation does -/

/-- All that an operation can do. -/
inductive Does (s : DraftsSession) : DraftsOp → DraftsSession → List Event → Prop
  | write {op : DraftsOp} (step : DraftStep) {e : DraftsImpl.Effect} (hid : step.convId ≤ idMax)
    (hop : stepOf op = some step) (hraised : e.raised = none) (hunrelated : DraftsImpl.Unrelated e.events)
    (hwritten : Written s.drafts s.db step.convId (step.row (s.drafts.row step.convId)) e) :
    Does s op (s.apply [step] e) e.events
  | refuse {convId : IdType} {settings : UserSettings} {e : DraftsImpl.Effect} (hid : convId ≤ idMax)
    (hraised : e.raised = some DraftsImpl.noSenderName) (hdb : e.db = s.db) (hevents : e.events = [])
    (hwritten : Written s.drafts s.db convId (s.drafts.row convId) e) :
    Does s (.prepareToSend convId settings) (s.apply [.prepareToSend convId settings] e) e.events
  | announce {convId : IdType} (hid : convId ≤ idMax) :
    Does s (.triggerRemoval convId) s [.conversationWillBeRemoved convId]
  | load {draft : DraftDao} (huploader : s.uploader = .idle) (hdraft : DraftDao.firstSendable s.db = some draft) :
    Does s .load { s with uploader := .loaded draft } []
  | abort {draft : DraftDao} {accepted : Bool} (huploader : s.uploader = .loaded draft) :
    Does s (.abort accepted)
      { s with
        uploader := .idle
        accepted := acceptedRow draft accepted ++ s.accepted
        unstored := acceptedRow draft accepted ++ s.unstored } []
  | keep {draft : DraftDao} {attachments : List AttachmentDao} {accepted : Bool}
    (huploader : s.uploader = .stored draft attachments) :
    Does s (.abort accepted) { s with uploader := .idle, uncleared := draft.row :: s.uncleared }
      (attachments.map fun att => .draftAttachmentRemoved draft.row.conversationId att.row.index)
  | putBack {draft : DraftDao} {deleteAttachments accepted : Bool} {db : Db} {indexes : List IdType}
    (huploader : s.uploader = .loaded draft) (hrows : Writes s.db db (MessagesUploader.editingRow draft.row)) :
    Does s (.reset deleteAttachments accepted)
      { s with
        db := db
        uploader := .idle
        log := .returned draft.row.conversationId :: s.log
        accepted := acceptedRow draft accepted ++ s.accepted }
      (indexes.map (Event.draftAttachmentRemoved draft.row.conversationId) ++ [.draftModified draft.row.conversationId])
  | store {dateSent : String} {conv : ConversationDao} {msgSent : MessageSent} {delivery : List KulloAddress}
    {draft : DraftDao} {db : Db} {attachments : List AttachmentDao} {es : List Event}
    (huploader : s.uploader = .loaded draft) (hrows : db.drafts = s.db.drafts) (hunrelated : DraftsImpl.Unrelated es) :
    Does s (.store dateSent conv msgSent delivery)
      { s with
        db := db
        uploader := .stored draft attachments
        log := .sent draft.row.conversationId :: s.log
        accepted := draft.row :: s.accepted
        created := draft.row :: s.created } es
  | clearDraft {draft : DraftDao} {attachments : List AttachmentDao} {db : Db}
    (huploader : s.uploader = .stored draft attachments) (hrows : Writes s.db db (DraftDao.clearedRow draft.row)) :
    Does s .clearDraft
      { s with db := db, uploader := .idle, log := .cleared draft.row.conversationId :: s.log }
      (attachments.map (fun att => .draftAttachmentRemoved draft.row.conversationId att.row.index) ++
        [.draftModified draft.row.conversationId])

/-- The uploader's transaction does not touch the drafts. -/
theorem store_drafts {dateSent : String} {draft : DraftDao} {conv : ConversationDao} {msgSent : MessageSent}
    {delivery : List KulloAddress} {db : Db} {result : MessagesSyncer.Added × List AttachmentDao × Db}
    (h : MessagesUploader.store P userAddress dateSent draft conv msgSent delivery db = .ok result) :
    result.2.2.drafts = db.drafts := by
  unfold MessagesUploader.store at h
  obtain ⟨db₁, hconvert, h⟩ := bind_eq_ok.mp h
  obtain ⟨r, hadd, h⟩ := bind_eq_ok.mp h
  cases h
  have hsame := (foldlM_sameRows (fun _ _ _ => AttachmentDao.convert_sameRows) hconvert).1
  have hnew := MessagesUploader.makeMessageDao_isNew userAddress dateSent msgSent draft
  have hold : (MessagesUploader.makeMessageDao userAddress dateSent msgSent draft).row.old = false := by
    rw [MessagesUploader.makeMessageDao_row]
    rfl
  have hadds := (MessagesSyncer.addMessage_eq_ok (by exact hnew) (by exact hold) hadd).1
  show r.2.2.drafts = db.drafts
  rw [hadds.drafts, hsame.drafts]

/-- A draft that the uploader holds is written with all its columns. -/
theorem writes_of_held (h : Inv s pending) {draft draft' : DraftDao} (hdraft : s.held = some draft)
    (hmodifies : DraftDao.Modifies draft draft') (hdirty : draft'.dirty = true) {db : Db}
    (hdb : db.drafts = s.db.drafts) :
    ∃ db', draft'.save db = .ok (.ofRow draft'.row, db') ∧ Writes s.db db' draft'.row := by
  obtain ⟨hclean, -, r, hr⟩ := h.held draft hdraft
  have hcached : Cached draft.row.conversationId (db.drafts.find? draft.row.conversationId) (some draft) := by
    rw [hdb, hr, hclean]
    exact .stored r draft.row (Table.key_of_find? hr) rfl
  obtain ⟨db', hsave, hrows⟩ := DraftsImpl.save_modified hcached hmodifies hdirty
  refine ⟨db', hsave, ?_⟩
  intro k
  rw [hrows, hmodifies.conversationId, hdb]

private theorem call_eq_some {step : DraftStep} {result : Except Exn DraftsImpl.Effect} {s' : DraftsSession} {es : List Event}
    (h : s.call step result = some (s', es)) : ∃ e, result = .ok e ∧ s' = s.apply [step] e ∧ es = e.events := by
  obtain ⟨e, hresult, heq⟩ := Option.map_eq_some_iff.1 h
  cases result with
  | error x => cases hresult
  | ok e' =>
    cases hresult
    cases heq
    exact ⟨_, rfl, rfl, rfl⟩

private theorem toOption_eq_some {α : Type} {x : Except Exn α} {a : α} (h : x.toOption = some a) : x = .ok a := by
  cases x with
  | error e => cases h
  | ok b =>
    cases h
    rfl

private theorem does_of_perform (h : Inv s pending) {op : DraftsOp} {s' : DraftsSession} {es : List Event}
    (hop : perform P userAddress op s = some (s', es)) : Does s op s' es := by
  cases op with
  | setText convId text =>
    obtain ⟨e, hresult, rfl, rfl⟩ := call_eq_some hop
    obtain ⟨_, hassert, -⟩ := bind_eq_ok.1 hresult
    have hid := le_of_assertId hassert
    obtain ⟨e', hresult', hraised, hunrelated, hwritten⟩ := DraftsImpl.setText_written hid (h.cached convId) text
    rw [hresult, Except.ok.injEq] at hresult'
    subst hresult'
    exact .write (.setText convId text) hid rfl hraised hunrelated hwritten
  | prepareToSend convId settings =>
    obtain ⟨e, hresult, rfl, rfl⟩ := call_eq_some hop
    obtain ⟨_, hassert, -⟩ := bind_eq_ok.1 hresult
    have hid := le_of_assertId hassert
    obtain ⟨e', hresult', hrefused, hreleased⟩ := DraftsImpl.prepareToSend_written hid (h.cached convId) settings
    rw [hresult, Except.ok.injEq] at hresult'
    subst hresult'
    cases hname : settings.name.isEmpty with
    | true =>
      obtain ⟨hraised, hdb, hevents, hwritten⟩ := hrefused hname
      exact .refuse hid hraised hdb hevents hwritten
    | false =>
      obtain ⟨hraised, hunrelated, hwritten⟩ := hreleased hname
      exact .write (.prepareToSend convId settings) hid rfl hraised hunrelated hwritten
  | clear convId =>
    obtain ⟨e, hresult, rfl, rfl⟩ := call_eq_some hop
    obtain ⟨_, hassert, -⟩ := bind_eq_ok.1 hresult
    have hid := le_of_assertId hassert
    obtain ⟨e', hresult', hraised, hunrelated, hwritten⟩ := DraftsImpl.clear_written hid (h.cached convId)
    rw [hresult, Except.ok.injEq] at hresult'
    subst hresult'
    exact .write (.clear convId) hid rfl hraised hunrelated hwritten
  | triggerRemoval convId =>
    obtain ⟨_, hassert, heq⟩ := Option.map_eq_some_iff.1 hop
    cases heq
    exact .announce (le_of_assertId (toOption_eq_some hassert))
  | load =>
    simp only [perform] at hop
    split at hop
    · next huploader =>
      obtain ⟨draft, hdraft, heq⟩ := Option.map_eq_some_iff.1 hop
      cases heq
      exact .load huploader hdraft
    · cases hop
  | abort accepted =>
    simp only [perform] at hop
    split at hop
    · cases hop
    · next draft huploader =>
      cases hop
      exact .abort huploader
    · next draft attachments huploader =>
      cases hop
      exact .keep huploader
  | reset deleteAttachments accepted =>
    simp only [perform] at hop
    split at hop
    · next draft huploader =>
      obtain ⟨saved, hsave, heq⟩ := Option.map_eq_some_iff.1 hop
      cases heq
      have hheld := held_of_loaded huploader
      -- the state was sending, so the save writes the row
      have hdirty : (draft.setState .editing).dirty = true := by
        rw [DraftDao.setState_dirty, (h.held draft hheld).2.1]
        simp
      have hdb : (if deleteAttachments = true then
          AttachmentDao.deleteAttachments s.db true draft.row.conversationId else s.db).drafts = s.db.drafts := by
        cases deleteAttachments <;> rfl
      obtain ⟨db', hsave', hrows⟩ := writes_of_held h hheld (DraftDao.setState_modifies draft .editing) hdirty hdb
      have hsaved := toOption_eq_some hsave
      rw [hsave', Except.ok.injEq] at hsaved
      subst hsaved
      exact .putBack huploader (by rwa [DraftDao.setState_row] at hrows)
    · cases hop
  | store dateSent conv msgSent delivery =>
    simp only [perform] at hop
    split at hop
    · next draft huploader =>
      obtain ⟨result, hstore, heq⟩ := Option.map_eq_some_iff.1 hop
      cases heq
      refine .store huploader (store_drafts P userAddress (toOption_eq_some hstore)) ?_
      intro e he convId
      simp only [List.mem_cons, List.not_mem_nil, or_false] at he
      -- the events of the new message: none is about the draft
      rcases he with rfl | rfl | rfl
      · exact ⟨Event.noConfusion, Event.noConfusion⟩
      · exact ⟨Event.noConfusion, Event.noConfusion⟩
      · split
        · exact ⟨Event.noConfusion, Event.noConfusion⟩
        · exact ⟨Event.noConfusion, Event.noConfusion⟩
    · cases hop
  | clearDraft =>
    simp only [perform] at hop
    split at hop
    · next draft attachments huploader =>
      obtain ⟨saved, hsave, heq⟩ := Option.map_eq_some_iff.1 hop
      cases heq
      have hheld := held_of_stored huploader
      -- here too
      have hdirty := (DraftDao.clear_flags (h.held draft hheld).2.1).1
      obtain ⟨db', hsave', hrows⟩ := writes_of_held h hheld (DraftDao.clear_modifies draft) hdirty rfl
      have hsaved := toOption_eq_some hsave
      rw [hsave', Except.ok.injEq] at hsaved
      subst hsaved
      exact .clearDraft huploader (by rwa [DraftDao.clear_row] at hrows)
    · cases hop

/-- All that the handler of an event can do. -/
inductive Handles (s : DraftsSession) : Event → DraftsSession → List Event → Prop
  | reload {convId : IdType} {r : DraftRow} {e : DraftsImpl.Effect} (hr : s.db.drafts.find? convId = some r)
    (hraised : e.raised = none) (hdb : e.db = s.db)
    (hdrafts : e.impl.drafts = Function.update s.drafts.drafts convId (some (.ofRow r))) :
    Handles s (.draftModified convId) (s.apply [] e) []
  | clear {convId : IdType} {e : DraftsImpl.Effect} (hid : convId ≤ idMax) (hraised : e.raised = none)
    (hunrelated : DraftsImpl.Unrelated e.events)
    (hwritten : Written s.drafts s.db convId (DraftDao.clearedRow (s.drafts.row convId)) e) :
    Handles s (.conversationWillBeRemoved convId) (s.apply [.clear convId] e) e.events
  | ignore {e : Event} (hmodified : ∀ convId, e ≠ .draftModified convId)
    (hremoved : ∀ convId, e ≠ .conversationWillBeRemoved convId) : Handles s e s []

private theorem handles_of_handle {e : Event} (h : Inv s (e ::ₘ pending)) :
    Handles s e (handle e s).1 (handle e s).2 := by
  unfold handle DraftsImpl.notify
  cases e with
  | draftModified convId =>
    obtain ⟨r, hr⟩ := h.modified convId (Multiset.mem_cons_self ..)
    obtain ⟨e, hload, hraised, hdb, hevents, hdrafts⟩ :=
      DraftsImpl.draftModified_loads (c := s.drafts) (h.ids convId r hr) hr
    dsimp only
    rw [hload]
    dsimp only
    rw [hevents]
    exact .reload hr hraised hdb hdrafts
  | conversationWillBeRemoved convId =>
    have hid := h.removed convId (Multiset.mem_cons_self ..)
    obtain ⟨e, hclear, hraised, hunrelated, hwritten⟩ :=
      DraftsImpl.conversationWillBeRemoved_written hid (h.cached convId)
    dsimp only
    rw [hclear]
    exact .clear hid hraised hunrelated hwritten
  | _ => exact .ignore (fun convId => Event.noConfusion) fun convId => Event.noConfusion

/-! ### The cache is coherent -/

private theorem unrelated_modified {es : List Event} (h : DraftsImpl.Unrelated es) (convId : IdType) :
    .draftModified convId ∉ (es : Multiset Event) := fun hmem => (h _ (Multiset.mem_coe.1 hmem) convId).1 rfl

private theorem unrelated_removed {es : List Event} (h : DraftsImpl.Unrelated es) (convId : IdType) :
    .conversationWillBeRemoved convId ∉ (es : Multiset Event) :=
  fun hmem => (h _ (Multiset.mem_coe.1 hmem) convId).2 rfl

private theorem mem_uploaded {convId : IdType} {removed : List Event} (hremoved : DraftsImpl.Unrelated removed) (k : IdType) :
    (.draftModified k ∈ ((removed ++ [.draftModified convId] : List Event) : Multiset Event) ↔ k = convId) ∧
      .conversationWillBeRemoved k ∉ ((removed ++ [.draftModified convId] : List Event) : Multiset Event) := by
  simp only [Multiset.mem_coe, List.mem_append, List.mem_singleton]
  constructor
  · constructor
    · rintro (hmem | heq)
      · exact absurd rfl (hremoved _ hmem k).1
      · exact Event.draftModified.inj heq
    · rintro rfl
      exact .inr rfl
  · rintro (hmem | heq)
    · exact (hremoved _ hmem k).2 rfl
    · cases heq

private theorem unrelated_attachmentsRemoved {α : Type} (convId : IdType) (index : α → IdType) (as : List α) :
    DraftsImpl.Unrelated (as.map fun a => .draftAttachmentRemoved convId (index a)) := by
  intro e he k
  obtain ⟨a, -, rfl⟩ := List.mem_map.1 he
  exact ⟨Event.noConfusion, Event.noConfusion⟩

namespace Inv

theorem does (h : Inv s pending) {op : DraftsOp} {s' : DraftsSession} {es : List Event} (hdoes : Does s op s' es) :
    Inv s' (pending + ↑es) := by
  cases hdoes with
  | @write op step e hid hop hraised hunrelated hwritten =>
    have hquiet := h.written hid hwritten [step] (fun x hx => by rw [hraised] at hx; cases hx)
    exact hquiet.mono (unrelated_modified hunrelated) fun k hk => absurd hk (unrelated_removed hunrelated k)
  | @refuse convId settings e hid hraised hdb hevents hwritten =>
    have hquiet := h.written hid hwritten [.prepareToSend convId settings]
      (fun x hx => by rw [hraised] at hx; cases hx; rfl)
    rw [hevents]
    exact hquiet.mono (fun k => Multiset.notMem_zero _) fun k hk => absurd hk (Multiset.notMem_zero _)
  | announce hid =>
    refine h.mono ?_ ?_
    · intro k hk
      rw [Multiset.mem_coe, List.mem_singleton] at hk
      cases hk
    · intro k hk
      rw [Multiset.mem_coe, List.mem_singleton] at hk
      cases hk
      exact hid
  | load huploader hdraft =>
    rw [Multiset.coe_nil, Multiset.add_zero]
    obtain ⟨hrow, hstate, hclean⟩ := DraftDao.of_firstSendable hdraft
    refine ⟨h.quiet, h.ids, h.cached, h.stale, h.modified, h.removed, ?_⟩
    intro draft hheld
    cases hheld
    exact ⟨hclean, hstate, _, hrow⟩
  | abort huploader =>
    rw [Multiset.coe_nil, Multiset.add_zero]
    exact ⟨h.quiet, h.ids, h.cached, h.stale, h.modified, h.removed, fun draft hheld => by cases hheld⟩
  | @keep draft attachments accepted huploader =>
    have hfree : Inv { s with uploader := .idle, uncleared := draft.row :: s.uncleared } pending :=
      ⟨h.quiet, h.ids, h.cached, h.stale, h.modified, h.removed, fun draft hheld => by cases hheld⟩
    have hremoved := unrelated_attachmentsRemoved draft.row.conversationId (fun att : AttachmentDao => att.row.index)
      attachments
    exact hfree.mono (unrelated_modified hremoved) fun k hk => absurd hk (unrelated_removed hremoved k)
  | @putBack draft deleteAttachments accepted db indexes huploader hrows =>
    have hheld := held_of_loaded huploader
    obtain ⟨-, -, r, hr⟩ := h.held _ hheld
    have hfind : s.db.drafts.find? (MessagesUploader.editingRow draft.row).conversationId = some r := hr
    have hremoved := unrelated_attachmentsRemoved draft.row.conversationId id indexes
    refine h.uploaded ?_ hfind ?_ ?_ ?_ (fun k => (mem_uploaded hremoved k).2) fun k => (mem_uploaded hremoved k).1
    · exact hrows
    · rfl
    · rfl
    · rfl
  | @store dateSent conv msgSent delivery draft db attachments es huploader hrows hunrelated =>
    have hheld := held_of_loaded huploader
    -- the transaction leaves the drafts as they are
    have hsame : Inv
        { s with
          db := db
          uploader := .stored draft attachments
          log := .sent draft.row.conversationId :: s.log
          accepted := draft.row :: s.accepted
          created := draft.row :: s.created } pending := by
      refine ⟨h.quiet, ?_, ?_, ?_, ?_, h.removed, ?_⟩
      · dsimp only
        rw [hrows]
        exact h.ids
      · dsimp only
        rw [hrows]
        exact h.cached
      · dsimp only
        rw [hrows]
        exact h.stale
      · dsimp only
        rw [hrows]
        exact h.modified
      · intro draft hdraft
        cases hdraft
        dsimp only
        rw [hrows]
        exact h.held _ hheld
    exact hsame.mono (unrelated_modified hunrelated) fun k hk => absurd hk (unrelated_removed hunrelated k)
  | @clearDraft draft attachments db huploader hrows =>
    have hheld := held_of_stored huploader
    obtain ⟨-, -, r, hr⟩ := h.held _ hheld
    have hfind : s.db.drafts.find? (DraftDao.clearedRow draft.row).conversationId = some r := hr
    have hremoved := unrelated_attachmentsRemoved draft.row.conversationId (fun att : AttachmentDao => att.row.index)
      attachments
    refine h.uploaded ?_ hfind ?_ ?_ ?_ (fun k => (mem_uploaded hremoved k).2) fun k => (mem_uploaded hremoved k).1
    · exact hrows
    · rfl
    · rfl
    · rfl

/-- An event that is not `DraftModified` may be forgotten. -/
theorem forget {e : Event} (h : Inv s (e ::ₘ pending)) (hmodified : ∀ convId, e ≠ .draftModified convId) :
    Inv s pending where
  quiet := h.quiet
  ids := h.ids
  cached := h.cached
  stale convId r hr hne := by
    rcases Multiset.mem_cons.1 (h.stale convId r hr hne) with heq | hmem
    · exact absurd heq.symm (hmodified convId)
    · exact hmem
  modified convId hmem := h.modified convId (Multiset.mem_cons_of_mem hmem)
  removed convId hmem := h.removed convId (Multiset.mem_cons_of_mem hmem)
  held := h.held

/-- A draft that is loaded again is not stale. -/
theorem reloaded {convId : IdType} (h : Inv s (.draftModified convId ::ₘ pending)) {r : DraftRow}
    (hr : s.db.drafts.find? convId = some r) {e : DraftsImpl.Effect} (hraised : e.raised = none) (hdb : e.db = s.db)
    (hdrafts : e.impl.drafts = Function.update s.drafts.drafts convId (some (.ofRow r))) :
    Inv (s.apply [] e) pending where
  quiet x hx := by
    have hx : x ∈ e.raised.toList ++ s.raised := hx
    rw [hraised] at hx
    exact h.quiet x hx
  ids k r' hr' := h.ids k r' (hdb ▸ hr')
  cached k := by
    show Cached k (e.db.drafts.find? k) (e.impl.drafts k)
    rw [hdb, hdrafts]
    by_cases hk : k = convId
    · subst hk
      have hid := Table.key_of_find? hr
      rw [Function.update_self, hr]
      exact .stored r r hid hid
    · rw [Function.update_of_ne hk]
      exact h.cached k
  stale k r' hr' hne := by
    have hr' : e.db.drafts.find? k = some r' := hr'
    have hne : e.impl.row k ≠ r' := hne
    rw [hdb] at hr'
    by_cases hk : k = convId
    · subst hk
      rw [hr, Option.some.injEq] at hr'
      subst hr'
      refine absurd (DraftsImpl.row_of_loaded ?_) hne
      rw [hdrafts, Function.update_self]
    · have hrow : e.impl.row k = s.drafts.row k := by
        unfold DraftsImpl.row
        rw [hdrafts, Function.update_of_ne hk]
      rw [hrow] at hne
      rcases Multiset.mem_cons.1 (h.stale k r' hr' hne) with heq | hmem
      · exact absurd (Event.draftModified.inj heq) hk
      · exact hmem
  modified k hmem := by
    obtain ⟨r', hr'⟩ := h.modified k (Multiset.mem_cons_of_mem hmem)
    refine ⟨r', ?_⟩
    show e.db.drafts.find? k = some r'
    rw [hdb, hr']
  removed k hmem := h.removed k (Multiset.mem_cons_of_mem hmem)
  held draft hdraft := by
    obtain ⟨hclean, hstate, r', hr'⟩ := h.held draft hdraft
    refine ⟨hclean, hstate, r', ?_⟩
    show e.db.drafts.find? draft.row.conversationId = some r'
    rw [hdb, hr']

private theorem handles {e : Event} (h : Inv s (e ::ₘ pending)) {s' : DraftsSession} {es : List Event}
    (hhandles : Handles s e s' es) : Inv s' (pending + ↑es) := by
  cases hhandles with
  | reload hr hraised hdb hdrafts =>
    rw [Multiset.coe_nil, Multiset.add_zero]
    exact h.reloaded hr hraised hdb hdrafts
  | @clear convId e hid hraised hunrelated hwritten =>
    have hquiet := h.forget (fun k => Event.noConfusion)
    have hwrites := hquiet.written hid hwritten [.clear convId] (fun x hx => by rw [hraised] at hx; cases hx)
    exact hwrites.mono (unrelated_modified hunrelated) fun k hk => absurd hk (unrelated_removed hunrelated k)
  | ignore hmodified hremoved =>
    rw [Multiset.coe_nil, Multiset.add_zero]
    exact h.forget hmodified

/-- What the cache shows of a draft that is not about to be loaded again. -/
theorem shown (h : Inv s pending) {convId : IdType} (hmodified : .draftModified convId ∉ pending) :
    s.drafts.row convId = tableRow s.db convId := by
  unfold tableRow
  cases hr : s.db.drafts.find? convId with
  | none =>
    have hcached := h.cached convId
    rw [hr] at hcached
    unfold DraftsImpl.row
    generalize s.drafts.drafts convId = found at hcached
    cases hcached with
    | absent => rfl
    | unsaved => exact DraftDao.blank_row convId
  | some r =>
    by_contra hne
    exact hmodified (h.stale convId r hr hne)

end Inv

theorem inv_initial {db : Db} (hids : ∀ convId r, db.drafts.find? convId = some r → convId ≤ idMax) :
    Inv (initial db).data 0 where
  quiet x hx := absurd hx List.not_mem_nil
  ids := hids
  cached convId := by
    show Cached convId (db.drafts.find? convId) (DraftDao.load db convId)
    cases hr : db.drafts.find? convId with
    | none =>
      have hload : DraftDao.load db convId = none := by
        unfold DraftDao.load
        rw [hr]
        rfl
      rw [hload]
      exact .absent
    | some r =>
      rw [DraftDao.load_eq_some.2 ⟨r, hr, rfl⟩]
      have hid := Table.key_of_find? hr
      exact .stored r r hid hid
  stale convId r hr hne := by
    refine absurd (DraftsImpl.row_of_loaded ?_) hne
    exact DraftDao.load_eq_some.2 ⟨r, hr, rfl⟩
  modified convId hmem := absurd hmem (Multiset.notMem_zero _)
  removed convId hmem := absurd hmem (Multiset.notMem_zero _)
  held draft hdraft := by cases hdraft

/-- A text is entered and released. -/
def release : List (EventLoop.Action SessionThread DraftsOp) :=
  [.perform (.setText 1 "hi"), .send .main, .perform (.prepareToSend 1 { name := "Alice" }), .send .main,
    .perform .load]

/-- Releases of a conversation's draft. -/
def releases (convId : IdType) : DraftStep → Bool
  | .prepareToSend convId' _ => convId' = convId
  | _ => false

/-- Whether the uploader will load a row. -/
def waiting (r : DraftRow) : Nat := if r.state = .sending then 1 else 0

/-- Whether a message will be made of a conversation's draft as it is. -/
def due (uploader : DraftUploader) (convId : IdType) (r : DraftRow) : Nat :=
  match uploader with
  | .idle => waiting r
  | .loaded draft => if draft.row.conversationId = convId then 1 else waiting r
  | .stored draft _ => if draft.row.conversationId = convId then 0 else waiting r

/-- How many drafts of a conversation there are in a list. -/
def draftsOf (convId : IdType) (rows : List DraftRow) : Nat := rows.countP fun r => r.conversationId = convId

/-- What was made of the drafts of a conversation, and what is due, was released, was about to be sent when the session
began, or follows a draft that an iteration lost sight of. -/
def Bounded (db : Db) (s : DraftsSession) (made lost : List DraftRow) : Prop :=
  ∀ convId, draftsOf convId made + due s.uploader convId (tableRow s.db convId) ≤
    s.log.countP (releases convId) + waiting (tableRow db convId) + draftsOf convId lost

/-- The messages that are stored, and the uploads that the server accepted. -/
structure Released (db : Db) (s : DraftsSession) : Prop where
  created : Bounded db s s.created s.uncleared
  accepted : Bounded db s s.accepted (s.uncleared ++ s.unstored)

/-- The text of a draft that the cache shows as being sent is set only if the draft is still being sent. -/
def guard : EventLoop.Guard DraftsOp Event DraftsSession where
  perform op s _ :=
    match op with
    | .setText convId _ => (s.drafts.row convId).state = .sending → (tableRow s.db convId).state = .sending
    | _ => True
  handle _ _ _ := True

private theorem waiting_le {r r' : DraftRow} (h : r.state = .sending → r'.state = .sending) : waiting r ≤ waiting r' := by
  unfold waiting
  by_cases hr : r.state = .sending
  · rw [if_pos hr, if_pos (h hr)]
  · rw [if_neg hr]
    exact Nat.zero_le _

private theorem waiting_of_editing {r : DraftRow} (h : r.state = .editing) : waiting r = 0 := by
  unfold waiting
  rw [h]
  rfl

private theorem waiting_le_one (r : DraftRow) : waiting r ≤ 1 := by
  unfold waiting
  split <;> omega

private theorem due_le_one (uploader : DraftUploader) (convId : IdType) (r : DraftRow) : due uploader convId r ≤ 1 := by
  have hr := waiting_le_one r
  unfold due
  split
  · exact hr
  · split <;> omega
  · split <;> omega

private theorem due_le (uploader : DraftUploader) (convId : IdType) {r r' : DraftRow} (h : waiting r ≤ waiting r') :
    due uploader convId r ≤ due uploader convId r' := by
  unfold due
  split
  · exact h
  · split <;> omega
  · split <;> omega

private theorem tableRow_written {convId : IdType} {r : DraftRow} {e : DraftsImpl.Effect}
    (h : Written s.drafts s.db convId r e) :
    tableRow e.db convId = r ∨ tableRow e.db convId = tableRow s.db convId ∧ s.drafts.row convId = r := by
  unfold tableRow
  rcases h.row with hrow | ⟨hrow, hshown⟩
  · rw [hrow]
    exact .inl rfl
  · rw [hrow]
    exact .inr ⟨rfl, hshown⟩

private theorem tableRow_otherwise {convId : IdType} {r : DraftRow} {e : DraftsImpl.Effect}
    (h : Written s.drafts s.db convId r e) {k : IdType} (hk : k ≠ convId) : tableRow e.db k = tableRow s.db k := by
  unfold tableRow
  rw [h.otherRows k hk]

private theorem tableRow_writes {db db' : Db} {r : DraftRow} (h : Writes db db' r) (k : IdType) :
    tableRow db' k = if k = r.conversationId then r else tableRow db k := by
  unfold tableRow
  rw [h k]
  split <;> rfl

private theorem tableRow_of_drafts {db db' : Db} (h : db'.drafts = db.drafts) (k : IdType) :
    tableRow db' k = tableRow db k := by
  unfold tableRow
  rw [h]

/-- A write of the main thread that does not make the uploader load the draft. -/
theorem waiting_written {convId : IdType} {r : DraftRow} {e : DraftsImpl.Effect} (h : Written s.drafts s.db convId r e)
    (hwaiting : r.state = .sending → (tableRow s.db convId).state = .sending) (k : IdType) :
    waiting (tableRow e.db k) ≤ waiting (tableRow s.db k) := by
  by_cases hk : k = convId
  · subst hk
    rcases tableRow_written h with hrow | ⟨hrow, -⟩
    · rw [hrow]
      exact waiting_le hwaiting
    · rw [hrow]
  · rw [tableRow_otherwise h hk]

private theorem draftsOf_append (convId : IdType) (rows rows' : List DraftRow) :
    draftsOf convId (rows ++ rows') = draftsOf convId rows + draftsOf convId rows' := List.countP_append

private theorem draftsOf_cons (convId : IdType) (r : DraftRow) (rows : List DraftRow) :
    draftsOf convId (r :: rows) = draftsOf convId rows + if r.conversationId = convId then 1 else 0 := by
  unfold draftsOf
  rw [List.countP_cons]
  simp only [decide_eq_true_eq]

private theorem draftsOf_acceptedRow (convId : IdType) (draft : DraftDao) (accepted : Bool) :
    draftsOf convId (acceptedRow draft accepted) ≤ if draft.row.conversationId = convId then 1 else 0 := by
  cases accepted with
  | false => exact Nat.zero_le _
  | true => exact (draftsOf_cons convId draft.row []).trans_le (Nat.zero_add _).le

namespace Bounded

variable {db : Db} {made lost : List DraftRow}

/-- A write that is no release. -/
theorem written (h : Bounded db s made lost) {step : DraftStep} {convId : IdType} {r : DraftRow} {e : DraftsImpl.Effect}
    (hraised : e.raised = none) (hwritten : Written s.drafts s.db convId r e)
    (hwaiting : r.state = .sending → (tableRow s.db convId).state = .sending) :
    Bounded db (s.apply [step] e) made lost := by
  intro k
  have hk := h k
  have hdue := due_le s.uploader k (waiting_written hwritten hwaiting k)
  unfold apply
  dsimp only
  rw [if_pos hraised, List.countP_append]
  omega

theorem write (h : Bounded db s made lost) {op : DraftsOp} {step : DraftStep} (hop : stepOf op = some step)
    (hguard : guard.perform op s pending) {e : DraftsImpl.Effect} (hraised : e.raised = none)
    (hwritten : Written s.drafts s.db step.convId (step.row (s.drafts.row step.convId)) e) :
    Bounded db (s.apply [step] e) made lost := by
  cases op with
  | setText convId text =>
    cases hop
    exact h.written hraised hwritten hguard
  | prepareToSend convId settings =>
    cases hop
    intro k
    have hk := h k
    unfold apply
    dsimp only
    rw [if_pos hraised, List.countP_append]
    by_cases hconv : convId = k
    · have hdue := due_le_one s.uploader k (tableRow e.db k)
      have hcount : [DraftStep.prepareToSend convId settings].countP (releases k) = 1 := by simp [releases, hconv]
      omega
    · rw [tableRow_otherwise hwritten (Ne.symm hconv)]
      omega
  | clear convId =>
    cases hop
    exact h.written hraised hwritten fun hsending => by cases hsending
  | _ => cases hop

theorem load (h : Bounded db s made lost) {draft : DraftDao} (huploader : s.uploader = .idle)
    (hdraft : DraftDao.firstSendable s.db = some draft) :
    Bounded db { s with uploader := .loaded draft } made lost := by
  intro k
  have hk := h k
  obtain ⟨hrow, hstate, -⟩ := DraftDao.of_firstSendable hdraft
  rw [huploader] at hk
  unfold due at hk ⊢
  dsimp only at hk ⊢
  split
  · next hconv =>
    -- the row that is loaded is due before and after
    subst hconv
    unfold tableRow waiting at hk
    rw [hrow, Option.getD_some, if_pos hstate] at hk
    exact hk
  · exact hk

/-- The uploader gives up a draft that it has loaded; if that was made into something, it is lost sight of. -/
theorem abort (h : Bounded db s made lost) {draft : DraftDao} (huploader : s.uploader = .loaded draft)
    {s' : DraftsSession} (hidle : s'.uploader = .idle) (hdb : s'.db = s.db) (hlog : s'.log = s.log)
    (rows : List DraftRow) : Bounded db s' (rows ++ made) (rows ++ lost) := by
  intro k
  have hk := h k
  have hwaiting := waiting_le_one (tableRow s.db k)
  rw [huploader] at hk
  rw [hidle, hdb, hlog, draftsOf_append, draftsOf_append]
  unfold due at hk ⊢
  dsimp only at hk ⊢
  split at hk <;> omega

/-- The uploader gives up a draft whose message is stored. -/
theorem keep (h : Bounded db s made lost) {draft : DraftDao} {attachments : List AttachmentDao}
    (huploader : s.uploader = .stored draft attachments) {s' : DraftsSession} (hidle : s'.uploader = .idle)
    (hdb : s'.db = s.db) (hlog : s'.log = s.log) : Bounded db s' made (draft.row :: lost) := by
  intro k
  have hk := h k
  have hwaiting := waiting_le_one (tableRow s.db k)
  rw [huploader] at hk
  rw [hidle, hdb, hlog, draftsOf_cons]
  unfold due at hk ⊢
  dsimp only at hk ⊢
  split at hk
  · next hconv =>
    rw [if_pos hconv]
    omega
  · omega

/-- A draft that was loaded is put back, and is not due any more. -/
theorem putBack (h : Bounded db s made lost) {draft : DraftDao} (huploader : s.uploader = .loaded draft)
    {s' : DraftsSession} (hidle : s'.uploader = .idle) {r : DraftRow} (hrows : Writes s.db s'.db r)
    (hid : r.conversationId = draft.row.conversationId) (hstate : r.state = .editing)
    (hlog : ∀ k, s'.log.countP (releases k) = s.log.countP (releases k)) (accepted : Bool) :
    Bounded db s' (acceptedRow draft accepted ++ made) lost := by
  intro k
  have hk := h k
  have haccepted := draftsOf_acceptedRow k draft accepted
  rw [huploader] at hk
  rw [hidle, hlog, draftsOf_append, tableRow_writes hrows, hid]
  unfold due at hk ⊢
  dsimp only at hk ⊢
  by_cases hconv : draft.row.conversationId = k
  · rw [if_pos hconv] at hk haccepted
    rw [if_pos hconv.symm, waiting_of_editing hstate]
    omega
  · rw [if_neg hconv] at hk haccepted
    rw [if_neg (Ne.symm hconv)]
    omega

theorem store (h : Bounded db s made lost) {draft : DraftDao} {attachments : List AttachmentDao}
    (huploader : s.uploader = .loaded draft) {s' : DraftsSession} (hstored : s'.uploader = .stored draft attachments)
    (hrows : s'.db.drafts = s.db.drafts) (hlog : ∀ k, s'.log.countP (releases k) = s.log.countP (releases k)) :
    Bounded db s' (draft.row :: made) lost := by
  intro k
  have hk := h k
  rw [huploader] at hk
  rw [hstored, hlog, tableRow_of_drafts hrows, draftsOf_cons]
  unfold due at hk ⊢
  dsimp only at hk ⊢
  split at hk
  · next hconv =>
    rw [if_pos hconv, if_pos hconv]
    omega
  · next hconv =>
    rw [if_neg hconv, if_neg hconv]
    omega

theorem clearDraft (h : Bounded db s made lost) {draft : DraftDao} {attachments : List AttachmentDao}
    (huploader : s.uploader = .stored draft attachments) {s' : DraftsSession} (hidle : s'.uploader = .idle)
    {r : DraftRow} (hrows : Writes s.db s'.db r) (hid : r.conversationId = draft.row.conversationId)
    (hstate : r.state = .editing) (hlog : ∀ k, s'.log.countP (releases k) = s.log.countP (releases k)) :
    Bounded db s' made lost := by
  intro k
  have hk := h k
  rw [huploader] at hk
  rw [hidle, hlog, tableRow_writes hrows, hid]
  unfold due at hk ⊢
  dsimp only at hk ⊢
  by_cases hconv : draft.row.conversationId = k
  · rw [if_pos hconv] at hk
    rw [if_pos hconv.symm, waiting_of_editing hstate]
    exact hk
  · rw [if_neg hconv] at hk
    rw [if_neg (Ne.symm hconv)]
    exact hk

private theorem handles (h : Bounded db s made lost) {e : Event} {s' : DraftsSession} {es : List Event}
    (hhandles : Handles s e s' es) : Bounded db s' made lost := by
  cases hhandles with
  | @reload convId r e hr hraised hdb hdrafts =>
    intro k
    unfold apply
    dsimp only
    rw [hdb, if_pos hraised]
    exact h k
  | clear hid hraised hunrelated hwritten => exact h.written hraised hwritten fun hsending => by cases hsending
  | ignore hmodified hremoved => exact h

end Bounded

namespace Released

variable {db : Db}

theorem does (h : Released db s) {op : DraftsOp} (hguard : guard.perform op s pending) {s' : DraftsSession}
    {es : List Event} (hdoes : Does s op s' es) : Released db s' := by
  have hcons : ∀ {step : DraftStep} {k : IdType}, releases k step = false →
      (step :: s.log).countP (releases k) = s.log.countP (releases k) := by
    intro step k hstep
    exact List.countP_cons_of_neg (by rw [hstep]; exact Bool.false_ne_true)
  cases hdoes with
  | write step hid hop hraised hunrelated hwritten =>
    exact ⟨h.created.write hop hguard hraised hwritten, h.accepted.write hop hguard hraised hwritten⟩
  | @refuse convId settings e hid hraised hdb hevents hwritten =>
    -- a refused release is not logged
    have hlog : (s.apply [.prepareToSend convId settings] e).log = s.log :=
      if_neg (by rw [hraised]; exact Option.some_ne_none _)
    refine ⟨fun k => ?_, fun k => ?_⟩
    · rw [hlog]
      unfold apply
      dsimp only
      rw [hdb]
      exact h.created k
    · rw [hlog]
      unfold apply
      dsimp only
      rw [hdb]
      exact h.accepted k
  | announce hid => exact h
  | load huploader hdraft => exact ⟨h.created.load huploader hdraft, h.accepted.load huploader hdraft⟩
  | @abort draft accepted huploader =>
    constructor
    · show Bounded db _ ([] ++ s.created) ([] ++ s.uncleared)
      refine h.created.abort huploader ?_ ?_ ?_ [] <;> rfl
    -- an upload that was accepted and not stored is among the lost ones
    · have hlost : Bounded db { s with uploader := .idle } (acceptedRow draft accepted ++ s.accepted)
          (acceptedRow draft accepted ++ (s.uncleared ++ s.unstored)) := by
        refine h.accepted.abort huploader ?_ ?_ ?_ (acceptedRow draft accepted) <;> rfl
      intro k
      have hk := hlost k
      simp only [draftsOf_append] at hk ⊢
      exact hk.trans (by omega)
  | @keep draft attachments accepted huploader =>
    exact ⟨h.created.keep huploader rfl rfl rfl, h.accepted.keep huploader rfl rfl rfl⟩
  | @putBack draft deleteAttachments accepted db' indexes huploader hrows =>
    exact ⟨h.created.putBack (r := MessagesUploader.editingRow draft.row) huploader rfl hrows rfl rfl (fun k => hcons rfl)
        false,
      h.accepted.putBack (r := MessagesUploader.editingRow draft.row) huploader rfl hrows rfl rfl (fun k => hcons rfl)
        accepted⟩
  | @store dateSent conv msgSent delivery draft db' attachments es huploader hrows hunrelated =>
    exact ⟨h.created.store huploader rfl hrows fun k => hcons rfl,
      h.accepted.store huploader rfl hrows fun k => hcons rfl⟩
  | @clearDraft draft attachments db' huploader hrows =>
    exact ⟨h.created.clearDraft huploader rfl hrows rfl rfl fun k => hcons rfl,
      h.accepted.clearDraft huploader rfl hrows rfl rfl fun k => hcons rfl⟩

private theorem handles (h : Released db s) {e : Event} {s' : DraftsSession} {es : List Event} (hhandles : Handles s e s' es) :
    Released db s' := by
  have hlists : s'.created = s.created ∧ s'.accepted = s.accepted ∧ s'.uncleared = s.uncleared ∧
      s'.unstored = s.unstored := by
    cases hhandles <;> exact ⟨rfl, rfl, rfl, rfl⟩
  obtain ⟨hcreated, haccepted, huncleared, hunstored⟩ := hlists
  constructor
  · rw [hcreated, huncleared]
    exact h.created.handles hhandles
  · rw [haccepted, huncleared, hunstored]
    exact h.accepted.handles hhandles

end Released

/-- Over every run in which no text is set for a draft that is only believed to be sent, a conversation gets at most as
many messages as its draft was released, one more if that was about to be sent when the session began, and one more for
each message after which clearing the draft raised.  The server accepts no more of them, but for those whose iteration
was cut short before the message was stored. -/
theorem messages_released {db : Db} {s : EventLoop.State SessionThread Event DraftsSession}
    (hids : ∀ convId r, db.drafts.find? convId = some r → convId ≤ idMax)
    (h : Transition.Reaches (loop P userAddress).Step guard.Ok (initial db) s) (convId : IdType) :
    draftsOf convId s.data.created ≤
        s.data.log.countP (releases convId) + waiting (tableRow db convId) + draftsOf convId s.data.uncleared ∧
      draftsOf convId s.data.accepted ≤
        s.data.log.countP (releases convId) + waiting (tableRow db convId) + draftsOf convId s.data.uncleared +
          draftsOf convId s.data.unstored := by
  have hinv : Inv s.data s.pending ∧ Released db s.data := by
    refine EventLoop.Reaches.keeps (I := fun d p => Inv d p ∧ Released db d) ?_ ?_ h ⟨inv_initial hids, ?_⟩
    · rintro op d p d' es ⟨hd, hreleased⟩ hok hop
      have hdoes := does_of_perform P userAddress hd hop
      exact ⟨hd.does hdoes, hreleased.does hok hdoes⟩
    · rintro e d p ⟨hd, hreleased⟩ -
      have hhandles := handles_of_handle hd
      exact ⟨hd.handles hhandles, hreleased.handles hhandles⟩
    -- at first nothing is released, made or lost
    · have hnone : Bounded db (initial db).data [] [] := by
        intro k
        show 0 + waiting (tableRow db k) ≤ 0 + waiting (tableRow db k) + 0
        exact Nat.le_refl _
      exact ⟨hnone, hnone⟩
  have hcreated := hinv.2.created convId
  have haccepted := hinv.2.accepted convId
  rw [draftsOf_append] at haccepted
  constructor <;> omega

instance (op : DraftsOp) (s : DraftsSession) (pending : Multiset Event) : Decidable (guard.perform op s pending) :=
  match op with
  | .setText convId _ =>
    inferInstanceAs (Decidable ((s.drafts.row convId).state = .sending → (tableRow s.db convId).state = .sending))
  | .prepareToSend .. | .clear _ | .triggerRemoval _ | .load | .abort _ | .reset .. | .store .. | .clearDraft =>
    inferInstanceAs (Decidable True)

instance (e : Event) (s : DraftsSession) (pending : Multiset Event) : Decidable (guard.handle e s pending) :=
  inferInstanceAs (Decidable True)

/-- The uploader sends a message. -/
def store (id : IdType) : List (EventLoop.Action SessionThread DraftsOp) :=
  [.perform (.store "2020-01-01T00:00:00Z" (.ofRow ⟨1, "bob#kullo.net"⟩) ⟨id, 1, "2020-01-01T00:00:01Z"⟩ []),
    .send .syncer, .send .syncer, .send .syncer]

/-- Clearing the draft raises, and the next iteration makes a second message of it. -/
theorem messages_released_uncleared : ∃ s,
    Transition.Reaches (loop .transparent .alice).Step guard.Ok (initial {}) s ∧ draftsOf 1 s.data.created = 2 ∧
      draftsOf 1 s.data.created ≤
        s.data.log.countP (releases 1) + waiting (tableRow {} 1) + draftsOf 1 s.data.uncleared ∧
      draftsOf 1 s.data.accepted ≤
        s.data.log.countP (releases 1) + waiting (tableRow {} 1) + draftsOf 1 s.data.uncleared +
          draftsOf 1 s.data.unstored := by
  have hrun : ((loop .transparent .alice).runOk guard (initial {})
      (release ++ store 7 ++ [.perform (.abort false), .perform .load] ++ store 8 ++ [.perform .clearDraft])).map
        (fun s => draftsOf 1 s.data.created) = some 2 := by decide +kernel
  obtain ⟨s, hrun, hcreated⟩ := Option.map_eq_some_iff.mp hrun
  have hreaches := EventLoop.Reaches.of_runOk hrun
  exact ⟨s, hreaches, hcreated, messages_released .transparent .alice (fun convId r hr => by cases hr) hreaches 1⟩

/-- The text of the next draft is set before the main thread hears that the draft was sent, and is sent as well. -/
theorem messages_not_released_stale : ¬ ∀ (P : Platform) (userAddress : KulloAddress) (db : Db) s,
    Transition.Reaches (loop P userAddress).Step EventLoop.Guard.none.Ok (initial db) s →
      draftsOf 1 s.data.created ≤
        s.data.log.countP (releases 1) + waiting (tableRow db 1) + draftsOf 1 s.data.uncleared := by
  intro hclaim
  obtain ⟨s, hrun, hcreated⟩ : ∃ s,
      (loop .transparent .alice).run (initial {})
        (release ++ store 7 ++ [.perform .clearDraft, .perform (.setText 1 "draft"), .send .main, .send .syncer,
          .perform .load] ++ store 8) = some s ∧
      ¬ draftsOf 1 s.data.created ≤
        s.data.log.countP (releases 1) + waiting (tableRow {} 1) + draftsOf 1 s.data.uncleared := by
    refine ⟨_, rfl, ?_⟩
    decide +kernel
  exact hcreated (hclaim .transparent .alice {} s (EventLoop.Reaches.of_run hrun))

/-! ### The drafts as they are meant -/

/-- The drafts of a session. -/
def box (s : DraftsSession) : DraftBox where
  drafts := tableRow s.db
  sent := s.created

/-- A draft is changed only while the cache shows it as being edited. -/
def editing : EventLoop.Guard DraftsOp Event DraftsSession where
  perform op s _ := ∀ step, stepOf op = some step → (s.drafts.row step.convId).state = .editing
  handle e s _ := ∀ step ∈ stepsOf e, (s.drafts.row step.convId).state = .editing

/-- A draft that the cache shows as it is not is about to be loaded again, and the uploader is done with it. -/
structure Synced (b : DraftBox) (s : DraftsSession) (pending : Multiset Event) : Prop where
  shown : ∀ convId, s.drafts.row convId = tableRow s.db convId ∨
    .draftModified convId ∈ pending ∧ (s.drafts.row convId).state = .sending ∧ (tableRow s.db convId).state = .editing
  held : ∀ draft, s.held = some draft →
    tableRow s.db draft.row.conversationId = draft.row ∧ draft.row.state = .sending
  replayed : s.box = b.replay s.log

namespace Synced

variable {b : DraftBox}

private theorem shown_mono (h : Synced b s pending) {c : DraftsImpl} {db : Db} (hcached : ∀ k, c.row k = s.drafts.row k)
    (hrows : ∀ k, tableRow db k = tableRow s.db k) {pending' : Multiset Event}
    (hpending : ∀ k, .draftModified k ∈ pending → .draftModified k ∈ pending') (k : IdType) :
    c.row k = tableRow db k ∨
      .draftModified k ∈ pending' ∧ (c.row k).state = .sending ∧ (tableRow db k).state = .editing := by
  rw [hcached, hrows]
  rcases h.shown k with heq | ⟨hmem, hstates⟩
  · exact .inl heq
  · exact .inr ⟨hpending k hmem, hstates⟩

/-- A draft that the cache shows as being edited is shown as it is, and not in the hands of the uploader. -/
theorem of_editing (h : Synced b s pending) {convId : IdType} (hediting : (s.drafts.row convId).state = .editing) :
    s.drafts.row convId = tableRow s.db convId ∧
      ∀ draft, s.held = some draft → draft.row.conversationId ≠ convId := by
  have heq : s.drafts.row convId = tableRow s.db convId := by
    rcases h.shown convId with heq | ⟨-, hsending, -⟩
    · exact heq
    · rw [hediting] at hsending
      cases hsending
  refine ⟨heq, ?_⟩
  rintro draft hheld rfl
  obtain ⟨hrow, hstate⟩ := h.held draft hheld
  rw [heq, hrow, hstate] at hediting
  cases hediting

/-- The cache shows the draft that the uploader holds as being sent. -/
theorem sending (h : Synced b s pending) {draft : DraftDao} (hheld : s.held = some draft) :
    (s.drafts.row draft.row.conversationId).state = .sending := by
  obtain ⟨hrow, hstate⟩ := h.held draft hheld
  rcases h.shown draft.row.conversationId with heq | ⟨-, hsending, -⟩
  · rw [heq, hrow, hstate]
  · exact hsending

/-- A change of the main thread to a draft that is being edited. -/
theorem written (h : Synced b s pending) (step : DraftStep) (hediting : (s.drafts.row step.convId).state = .editing)
    (hsent : step.isSent = false) {e : DraftsImpl.Effect} (hraised : e.raised = none)
    (hwritten : Written s.drafts s.db step.convId (step.row (s.drafts.row step.convId)) e) {pending' : Multiset Event}
    (hpending : ∀ k, .draftModified k ∈ pending → k = step.convId ∨ .draftModified k ∈ pending') :
    Synced b (s.apply [step] e) pending' := by
  obtain ⟨hrow, hfree⟩ := h.of_editing hediting
  have hnew : tableRow e.db step.convId = step.row (s.drafts.row step.convId) := by
    rcases tableRow_written hwritten with hnew | ⟨hold, hsame⟩
    · exact hnew
    · rw [hold, ← hrow]
      exact hsame
  have hother : ∀ k, k ≠ step.convId → tableRow e.db k = tableRow s.db k := fun k hk => tableRow_otherwise hwritten hk
  refine ⟨?_, ?_, ?_⟩
  · intro k
    show e.impl.row k = tableRow e.db k ∨ _ ∧ (e.impl.row k).state = _ ∧ (tableRow e.db k).state = _
    by_cases hk : k = step.convId
    · subst hk
      exact .inl (hwritten.shown.trans hnew.symm)
    · rw [hwritten.row_of_ne hk, hother k hk]
      rcases h.shown k with heq | ⟨hmem, hstates⟩
      · exact .inl heq
      · exact .inr ⟨(hpending k hmem).resolve_left hk, hstates⟩
  · intro draft hheld
    show tableRow e.db draft.row.conversationId = draft.row ∧ _
    rw [hother _ (hfree draft hheld)]
    exact h.held draft hheld
  · have hlog : (s.apply [step] e).log = step :: s.log := if_pos hraised
    have hbox : (s.apply [step] e).box = s.box.perform step := by
      refine DraftBox.ext (funext fun k => ?_) ?_
      · unfold DraftBox.perform
        dsimp only
        by_cases hk : k = step.convId
        · rw [hk, Function.update_self]
          exact hnew.trans (congrArg step.row hrow)
        · rw [Function.update_of_ne hk]
          exact hother k hk
      · unfold DraftBox.perform
        rw [hsent]
        rfl
    rw [hlog, hbox, h.replayed]
    rfl

/-- The uploader is done with the draft it holds. -/
theorem freed (h : Synced b s pending) {s' : DraftsSession} (draft : DraftDao) (r : DraftRow)
    (hheld : s.held = some draft) (hrows : Writes s.db s'.db r) (hid : r.conversationId = draft.row.conversationId)
    (hstate : r.state = .editing) (hdrafts : s'.drafts = s.drafts) (huploader : s'.uploader = .idle)
    {es : Multiset Event} (hmodified : .draftModified draft.row.conversationId ∈ es)
    (hreplayed : s'.box = b.replay s'.log) : Synced b s' (pending + es) := by
  refine ⟨?_, ?_, hreplayed⟩
  · intro k
    rw [hdrafts, tableRow_writes hrows, hid]
    by_cases hk : k = draft.row.conversationId
    · rw [if_pos hk, hk]
      exact .inr ⟨Multiset.mem_add.2 (.inr hmodified), h.sending hheld, hstate⟩
    · rw [if_neg hk]
      rcases h.shown k with heq | ⟨hmem, hstates⟩
      · exact .inl heq
      · exact .inr ⟨Multiset.mem_add.2 (.inl hmem), hstates⟩
  · intro draft' hheld'
    unfold DraftsSession.held at hheld'
    rw [huploader] at hheld'
    cases hheld'

/-- The drafts after the uploader has written a row, which is what a step makes of the draft. -/
theorem rewritten (step : DraftStep) {db' : Db} {r : DraftRow} (hrows : Writes s.db db' r)
    (hr : r = step.row (tableRow s.db step.convId)) (hid : r.conversationId = step.convId) (k : IdType) :
    tableRow db' k = Function.update (tableRow s.db) step.convId (step.row (tableRow s.db step.convId)) k := by
  rw [tableRow_writes hrows, hid]
  by_cases hk : k = step.convId
  · rw [if_pos hk, hk, Function.update_self, hr]
  · rw [if_neg hk, Function.update_of_ne hk]

theorem does (h : Synced b s pending) {op : DraftsOp} (hguard : editing.perform op s pending) {s' : DraftsSession}
    {es : List Event} (hdoes : Does s op s' es) : Synced b s' (pending + ↑es) := by
  have hadd : ∀ k, .draftModified k ∈ pending → .draftModified k ∈ pending + (es : Multiset Event) :=
    fun k hmem => Multiset.mem_add.2 (.inl hmem)
  cases hdoes with
  | write step hid hop hraised hunrelated hwritten =>
    refine h.written step (hguard step hop) ?_ hraised hwritten fun k hmem => .inr (hadd k hmem)
    cases op <;> cases hop <;> rfl
  | @refuse convId settings e hid hraised hdb hevents hwritten =>
    have hrows : ∀ k, tableRow e.db k = tableRow s.db k := fun k => by rw [hdb]
    -- the release that was refused leaves the row as it was read
    have hcached : ∀ k, e.impl.row k = s.drafts.row k := by
      intro k
      by_cases hk : k = convId
      · rw [hk]
        exact hwritten.shown
      · exact hwritten.row_of_ne hk
    have hlog : (s.apply [.prepareToSend convId settings] e).log = s.log :=
      if_neg (by rw [hraised]; exact Option.some_ne_none _)
    refine ⟨h.shown_mono hcached hrows hadd, ?_, ?_⟩
    · intro draft hheld
      show tableRow e.db draft.row.conversationId = draft.row ∧ _
      rw [hdb]
      exact h.held draft hheld
    · rw [hlog, ← h.replayed]
      unfold box apply
      dsimp only
      rw [hdb]
  | announce hid => exact ⟨h.shown_mono (fun _ => rfl) (fun _ => rfl) hadd, h.held, h.replayed⟩
  | @load draft huploader hdraft =>
    obtain ⟨hrow, hstate, -⟩ := DraftDao.of_firstSendable hdraft
    refine ⟨h.shown_mono (fun _ => rfl) (fun _ => rfl) hadd, ?_, ?_⟩
    · intro draft' hheld
      cases hheld
      refine ⟨?_, hstate⟩
      show tableRow s.db draft.row.conversationId = draft.row
      unfold tableRow
      rw [hrow, Option.getD_some]
    · exact h.replayed
  | @abort draft accepted huploader =>
    refine ⟨h.shown_mono (fun _ => rfl) (fun _ => rfl) hadd, ?_, h.replayed⟩
    intro draft' hheld
    cases hheld
  | @keep draft attachments accepted huploader =>
    refine ⟨h.shown_mono (fun _ => rfl) (fun _ => rfl) hadd, ?_, h.replayed⟩
    intro draft' hheld
    cases hheld
  | @putBack draft deleteAttachments accepted db' indexes huploader hrows =>
    have hheld := held_of_loaded huploader
    have hrow := (h.held draft hheld).1
    refine h.freed draft (MessagesUploader.editingRow draft.row) hheld ?_ ?_ ?_ ?_ ?_ ?_ ?_
    · exact hrows
    · rfl
    · rfl
    · rfl
    · rfl
    · exact Multiset.mem_coe.2 (List.mem_append_right _ (List.mem_singleton.2 rfl))
    refine Eq.trans ?_ (congrArg (fun b => b.perform (.returned draft.row.conversationId)) h.replayed)
    refine DraftBox.ext (funext fun k => ?_) rfl
    exact rewritten (.returned draft.row.conversationId) hrows (congrArg MessagesUploader.editingRow hrow).symm rfl k
  | @store dateSent conv msgSent delivery draft db' attachments es huploader hrows hunrelated =>
    have hheld := held_of_loaded huploader
    have hrow := h.held draft hheld
    have htable : ∀ k, tableRow db' k = tableRow s.db k := fun k => tableRow_of_drafts hrows k
    refine ⟨?_, ?_, ?_⟩
    · exact h.shown_mono (fun _ => rfl) htable hadd
    · intro draft' hheld'
      cases hheld'
      show tableRow db' draft.row.conversationId = draft.row ∧ _
      rw [htable]
      exact hrow
    · refine Eq.trans ?_ (congrArg (fun b => b.perform (.sent draft.row.conversationId)) h.replayed)
      refine DraftBox.ext (funext fun k => ?_) ?_
      -- the message has the row as it was released
      · unfold DraftBox.perform
        dsimp only [DraftStep.convId, DraftStep.row]
        rw [Function.update_eq_self]
        exact htable k
      · show draft.row :: s.created = tableRow s.db draft.row.conversationId :: s.created
        rw [hrow.1]
  | @clearDraft draft attachments db' huploader hrows =>
    have hheld := held_of_stored huploader
    have hrow := (h.held draft hheld).1
    refine h.freed draft (DraftDao.clearedRow draft.row) hheld ?_ ?_ ?_ ?_ ?_ ?_ ?_
    · exact hrows
    · rfl
    · rfl
    · rfl
    · rfl
    · exact Multiset.mem_coe.2 (List.mem_append_right _ (List.mem_singleton.2 rfl))
    refine Eq.trans ?_ (congrArg (fun b => b.perform (.cleared draft.row.conversationId)) h.replayed)
    refine DraftBox.ext (funext fun k => ?_) rfl
    exact rewritten (.cleared draft.row.conversationId) hrows (congrArg DraftDao.clearedRow hrow).symm rfl k

private theorem handles {e : Event} (h : Synced b s (e ::ₘ pending)) (hguard : editing.handle e s pending) {s' : DraftsSession}
    {es : List Event} (hhandles : Handles s e s' es) : Synced b s' (pending + ↑es) := by
  cases hhandles with
  | @reload convId r e hr hraised hdb hdrafts =>
    have hrows : ∀ k, tableRow e.db k = tableRow s.db k := fun k => by rw [hdb]
    rw [Multiset.coe_nil, Multiset.add_zero]
    refine ⟨?_, ?_, ?_⟩
    · intro k
      show e.impl.row k = tableRow e.db k ∨ _ ∧ (e.impl.row k).state = _ ∧ (tableRow e.db k).state = _
      rw [hrows]
      -- the row is read again, and what is pending about another one stays so
      by_cases hk : k = convId
      · subst hk
        have hcached : e.impl.row k = r := by
          refine DraftsImpl.row_of_loaded ?_
          rw [hdrafts, Function.update_self]
        have htable : tableRow s.db k = r := by
          unfold tableRow
          rw [hr, Option.getD_some]
        exact .inl (hcached.trans htable.symm)
      · have hcached : e.impl.row k = s.drafts.row k := by
          unfold DraftsImpl.row
          rw [hdrafts, Function.update_of_ne hk]
        rw [hcached]
        rcases h.shown k with heq | ⟨hmem, hstates⟩
        · exact .inl heq
        · rcases Multiset.mem_cons.1 hmem with heq | hmem
          · exact absurd (Event.draftModified.inj heq) hk
          · exact .inr ⟨hmem, hstates⟩
    · intro draft hheld
      show tableRow e.db draft.row.conversationId = draft.row ∧ _
      rw [hdb]
      exact h.held draft hheld
    · have hlog : (s.apply [] e).log = s.log := if_pos hraised
      rw [hlog, ← h.replayed]
      unfold box apply
      dsimp only
      rw [hdb]
  | @clear convId e hid hraised hunrelated hwritten =>
    refine h.written (.clear convId) ?_ rfl hraised hwritten ?_
    · exact hguard _ (List.mem_singleton.2 rfl)
    · intro k hmem
      rcases Multiset.mem_cons.1 hmem with heq | hmem
      · cases heq
      · exact .inr (Multiset.mem_add.2 (.inl hmem))
  | ignore hmodified hremoved =>
    rw [Multiset.coe_nil, Multiset.add_zero]
    refine ⟨h.shown_mono (fun _ => rfl) (fun _ => rfl) ?_, h.held, h.replayed⟩
    intro k hmem
    rcases Multiset.mem_cons.1 hmem with heq | hmem
    · exact absurd heq.symm (hmodified k)
    · exact hmem

end Synced

/-- Over every run in which a draft is changed only while the cache shows it as being edited, the drafts and the
messages are what the steps, in the order in which they took effect, make of the drafts that the session began with. -/
theorem drafts_replayed {db : Db} {s : EventLoop.State SessionThread Event DraftsSession}
    (hids : ∀ convId r, db.drafts.find? convId = some r → convId ≤ idMax)
    (h : Transition.Reaches (loop P userAddress).Step editing.Ok (initial db) s) :
    s.data.box = DraftBox.replay { drafts := tableRow db } s.data.log := by
  have hinv : Inv s.data s.pending ∧ Synced { drafts := tableRow db } s.data s.pending := by
    refine EventLoop.Reaches.keeps (I := fun d p => Inv d p ∧ Synced { drafts := tableRow db } d p) ?_ ?_ h
      ⟨inv_initial hids, ?_⟩
    · rintro op d p d' es ⟨hd, hsynced⟩ hok hop
      have hdoes := does_of_perform P userAddress hd hop
      exact ⟨hd.does hdoes, hsynced.does hok hdoes⟩
    · rintro e d p ⟨hd, hsynced⟩ hok
      have hhandles := handles_of_handle hd
      exact ⟨hd.handles hhandles, hsynced.handles hok hhandles⟩
    · refine ⟨?_, ?_, rfl⟩
      · intro convId
        exact .inl ((inv_initial hids).shown (Multiset.notMem_zero _))
      · intro draft hheld
        cases hheld
  exact hinv.2.replayed

instance (op : DraftsOp) (s : DraftsSession) (pending : Multiset Event) : Decidable (editing.perform op s pending) :=
  inferInstanceAs (Decidable (∀ step ∈ stepOf op, (s.drafts.row step.convId).state = .editing))

instance (e : Event) (s : DraftsSession) (pending : Multiset Event) : Decidable (editing.handle e s pending) :=
  inferInstanceAs (Decidable (∀ step ∈ stepsOf e, (s.drafts.row step.convId).state = .editing))

/-- Clearing the draft raises, it is sent once more and cleared, and the next text is another draft. -/
theorem drafts_replayed_uncleared : ∃ s,
    Transition.Reaches (loop .transparent .alice).Step editing.Ok (initial {}) s ∧
      s.data.created.map (fun r => (r.text, r.senderName)) = [("hi", "Alice"), ("hi", "Alice")] ∧
      (tableRow s.data.db 1).text = "next" ∧
      s.data.box = DraftBox.replay { drafts := tableRow {} } s.data.log := by
  have hrun : ((loop .transparent .alice).runOk editing (initial {})
      (release ++ store 7 ++ [.perform (.abort false), .perform .load] ++ store 8 ++
        [.perform .clearDraft, .send .syncer] ++ List.replicate 9 .handle ++ [.perform (.setText 1 "next")])).map
        (fun s => (s.data.created.map (fun r => (r.text, r.senderName)), (tableRow s.data.db 1).text)) =
      some ([("hi", "Alice"), ("hi", "Alice")], "next") := by decide +kernel
  obtain ⟨s, hrun, hseen⟩ := Option.map_eq_some_iff.mp hrun
  obtain ⟨hcreated, htext⟩ := Prod.mk.inj hseen
  have hreaches := EventLoop.Reaches.of_runOk hrun
  exact ⟨s, hreaches, hcreated, htext, drafts_replayed .transparent .alice (fun convId r hr => by cases hr) hreaches⟩

/-! ### The iterations of the uploader

What an iteration of `MessagesUploader` does while the main thread rests is done by steps of the session: they leave the
same database and announce the same events. -/

section

open MessagesUploader (Outcome Processed Sends Fails Account Iteration accepts request addedEvents clearedEvents
  failedEvents resetDb failedDb clearedDb)

variable {P : Platform} {account : Account} {it : Iteration P} {draft : DraftDao}

/-- An event of the uploader, as the main thread hears of it. -/
def announced : MessagesUploader.Event → Option Event
  | .draftModified convId => some (.draftModified convId)
  | .draftAttachmentDeleted convId index => some (.draftAttachmentRemoved convId index)
  | .senderAdded convId msgId => some (.senderAdded convId msgId)
  | .messageAdded convId msgId => some (.messageAdded convId msgId)
  | .conversationAdded convId => some (.conversationAdded convId)
  | .conversationModified convId => some (.conversationModified convId)
  | .draftPartTooBig .. | .messageAttachmentsDownloaded .. | .sendMessageToSelf .. => none

def isMessage : MessagesUploader.Event → Bool
  | .messageAdded .. => true
  | _ => false

/-- The session after the uploader has left a database and some events, between two iterations. -/
structure Follows (s : DraftsSession) (db' : Db) (events : List MessagesUploader.Event) (s' : DraftsSession) : Prop where
  db : s'.db = db'
  idle : s'.uploader = .idle
  drafts : s'.drafts = s.drafts
  raised : s'.raised = s.raised
  accepted : ∀ convId, draftsOf convId s.accepted + events.countP (accepts convId) ≤ draftsOf convId s'.accepted
  created : s'.created.length = s.created.length + events.countP isMessage

/-- Steps of the uploader that leave a database and some events. -/
def Follow (P : Platform) (account : Account) (s : DraftsSession) (db' : Db) (events : List MessagesUploader.Event) :
    Prop :=
  ∃ ops s', (∀ op ∈ ops, thread op = .syncer) ∧
    (loop P account.address).performAll s ops = some (s', events.filterMap announced) ∧ Follows s db' events s'

theorem Follows.trans {s s' s'' : DraftsSession} {db' db'' : Db} {events events' : List MessagesUploader.Event}
    (h : Follows s db' events s') (h' : Follows s' db'' events' s'') : Follows s db'' (events ++ events') s'' where
  db := h'.db
  idle := h'.idle
  drafts := h'.drafts.trans h.drafts
  raised := h'.raised.trans h.raised
  accepted convId := by
    have hfirst := h.accepted convId
    have hrest := h'.accepted convId
    rw [List.countP_append]
    omega
  created := by
    rw [h'.created, h.created, List.countP_append]
    omega

private theorem filterMap_addedEvents (added : MessagesSyncer.Added) (convId msgId : IdType) :
    (addedEvents added convId msgId).filterMap announced =
      [.senderAdded added.convId added.msg.id, .messageAdded added.convId added.msg.id,
        if added.newConversation then .conversationAdded added.convId else .conversationModified added.convId] := by
  unfold addedEvents
  cases added.newConversation <;> rfl

private theorem filterMap_clearedEvents (convId : IdType) (attachments : List AttachmentDao) :
    (clearedEvents convId attachments).filterMap announced =
      attachments.map fun att => .draftAttachmentRemoved convId att.row.index := by
  have hcomp : (announced ∘ fun att : AttachmentDao => .draftAttachmentDeleted convId att.row.index) =
      some ∘ fun att : AttachmentDao => .draftAttachmentRemoved convId att.row.index := rfl
  unfold clearedEvents
  rw [List.filterMap_map, hcomp, List.filterMap_eq_map]

private theorem filterMap_failedEvents (db : Db) (convId : IdType) :
    (failedEvents db convId).filterMap announced =
      (MessagesUploader.deletedIndexes db convId).map (Event.draftAttachmentRemoved convId) ++
        [.draftModified convId] := by
  have hcomp : announced ∘ MessagesUploader.Event.draftAttachmentDeleted convId =
      some ∘ Event.draftAttachmentRemoved convId := rfl
  unfold failedEvents
  rw [List.filterMap_append, List.filterMap_map, hcomp, List.filterMap_eq_map]
  rfl

/-- The requests of one iteration. -/
def Requests (it : Iteration P) (draft : DraftDao) (requests : List MessagesUploader.Event) : Prop :=
  requests = [] ∨ ∃ msg metaData, requests = [request it draft.row.conversationId msg metaData]

namespace Requests

variable {requests : List MessagesUploader.Event}

private theorem of_fails {db : Db} {e : Exn} {conv : Option ConversationDao} (h : Fails account it db draft e conv requests) :
    Requests it draft requests := by
  rcases h.requests_eq with hnone | ⟨-, hone⟩
  · exact .inl hnone
  · exact .inr hone

private theorem of_sends {db : Db} {conv : ConversationDao} {msgSent : MessageSent} {delivery : List KulloAddress}
    {req : MessagesUploader.Event} (h : Sends account it db draft conv msgSent delivery req) :
    Requests it draft [req] := by
  cases h with
  | intro _ _ _ _ _ => exact .inr ⟨_, _, rfl⟩

private theorem announced_eq (h : Requests it draft requests) : requests.filterMap announced = [] := by
  rcases h with rfl | ⟨msg, metaData, rfl⟩ <;> rfl

private theorem countP_isMessage (h : Requests it draft requests) : requests.countP isMessage = 0 := by
  rcases h with rfl | ⟨msg, metaData, rfl⟩ <;> rfl

private theorem countP_accepts (h : Requests it draft requests) (convId : IdType) :
    requests.countP (accepts convId) =
      draftsOf convId (acceptedRow draft (requests.any (accepts draft.row.conversationId))) := by
  rcases h with rfl | ⟨msg, metaData, rfl⟩
  · rfl
  · cases haccepted : it.accepted <;>
      simp [request, accepts, haccepted, acceptedRow, draftsOf, List.countP_cons]

/-- A draft whose message is stored was accepted. -/
theorem countP_accepts_le (h : Requests it draft requests) (convId : IdType) :
    requests.countP (accepts convId) ≤ if draft.row.conversationId = convId then 1 else 0 := by
  rw [h.countP_accepts]
  exact draftsOf_acceptedRow convId draft _

end Requests

private theorem performAll_load (userAddress : KulloAddress) (huploader : s.uploader = .idle)
    (hdraft : DraftDao.firstSendable s.db = some draft) (ops : List DraftsOp) :
    (loop P userAddress).performAll s (.load :: ops) =
      (loop P userAddress).performAll { s with uploader := .loaded draft } ops := by
  have hload : (loop P userAddress).perform .load s = some ({ s with uploader := .loaded draft }, []) := by
    simp only [loop, perform]
    rw [huploader, hdraft]
    rfl
  rw [EventLoop.performAll, hload, Option.bind_some]
  exact Option.map_id'

private theorem syncer_ops {op : DraftsOp} (hop : thread op = .syncer) {ops : List DraftsOp}
    (hops : ∀ op' ∈ ops, thread op' = .syncer) : ∀ op' ∈ op :: ops, thread op' = .syncer :=
  List.forall_mem_cons.2 ⟨hop, hops⟩

/-- The iteration is cut short before the transaction. -/
theorem follow_abort (huploader : s.uploader = .idle) (hdraft : DraftDao.firstSendable s.db = some draft)
    {requests : List MessagesUploader.Event} (h : Requests it draft requests) : Follow P account s s.db requests := by
  let accepted := requests.any (accepts draft.row.conversationId)
  refine ⟨[.load, .abort accepted],
    { s with
      uploader := .idle
      accepted := acceptedRow draft accepted ++ s.accepted
      unstored := acceptedRow draft accepted ++ s.unstored },
    syncer_ops rfl (syncer_ops rfl fun op hop => absurd hop List.not_mem_nil), ?_, ?_⟩
  · rw [performAll_load _ huploader hdraft, h.announced_eq]
    rfl
  · refine ⟨rfl, rfl, rfl, rfl, ?_, ?_⟩
    · intro convId
      rw [h.countP_accepts, draftsOf_append, Nat.add_comm]
    · rw [h.countP_isMessage]
      rfl

/-- The draft is put back. -/
theorem follow_reset (huploader : s.uploader = .idle) (hdraft : DraftDao.firstSendable s.db = some draft)
    {requests : List MessagesUploader.Event} (h : Requests it draft requests) (deleteAttachments : Bool)
    {events : List MessagesUploader.Event} (hmessage : events.countP isMessage = 0)
    (haccepts : ∀ convId, events.countP (accepts convId) = 0)
    (hannounced : events.filterMap announced =
      (if deleteAttachments then MessagesUploader.deletedIndexes s.db draft.row.conversationId else []).map
        (Event.draftAttachmentRemoved draft.row.conversationId) ++ [.draftModified draft.row.conversationId]) :
    Follow P account s
      (resetDb (if deleteAttachments then AttachmentDao.deleteAttachments s.db true draft.row.conversationId else s.db)
        draft)
      (requests ++ events) := by
  obtain ⟨-, hstate, hclean⟩ := DraftDao.of_firstSendable hdraft
  have hstored : draft.storedInDb = true := by
    rw [hclean]
    rfl
  have hreset := MessagesUploader.resettable_of_stored hstored hstate
  have hsave : ∀ db : Db, ∃ d, (draft.setState .editing).save db = .ok (d, resetDb db draft) := by
    intro db
    refine ⟨{ row := MessagesUploader.editingRow draft.row, dirty := false, storedInDb := true }, ?_⟩
    rw [DraftDao.save_of_stored hreset.dirty hreset.setState.storedInDb, hreset.row]
    rfl
  let accepted := requests.any (accepts draft.row.conversationId)
  let s' : DraftsSession :=
    { s with
      db := resetDb
        (if deleteAttachments then AttachmentDao.deleteAttachments s.db true draft.row.conversationId else s.db) draft
      uploader := .idle
      log := .returned draft.row.conversationId :: s.log
      accepted := acceptedRow draft accepted ++ s.accepted }
  have hperform : (loop P account.address).perform (.reset deleteAttachments accepted)
      { s with uploader := .loaded draft } = some (s', events.filterMap announced) := by
    obtain ⟨d, hsaved⟩ := hsave
      (if deleteAttachments then AttachmentDao.deleteAttachments s.db true draft.row.conversationId else s.db)
    simp only [loop, perform]
    rw [hannounced, hsaved]
    rfl
  refine ⟨[.load, .reset deleteAttachments accepted], s',
    syncer_ops rfl (syncer_ops rfl fun op hop => absurd hop List.not_mem_nil), ?_, ⟨rfl, rfl, rfl, rfl, ?_, ?_⟩⟩
  · rw [performAll_load _ huploader hdraft, EventLoop.performAll, hperform, List.filterMap_append, h.announced_eq]
    simp [EventLoop.performAll]
  · intro convId
    rw [List.countP_append, h.countP_accepts, haccepts, draftsOf_append]
    exact (Nat.add_comm _ _).le
  · rw [List.countP_append, h.countP_isMessage, hmessage]
    rfl

section stored

variable {dateSent : String} {conv : ConversationDao} {msgSent : MessageSent} {delivery : List KulloAddress}
  {added : MessagesSyncer.Added} {attachments : List AttachmentDao} {db' : Db}

/-- The session after the transaction that stores the message of the draft. -/
def storedSession (s : DraftsSession) (draft : DraftDao) (attachments : List AttachmentDao) (db' : Db) :
    DraftsSession :=
  { s with
    db := db'
    uploader := .stored draft attachments
    log := .sent draft.row.conversationId :: s.log
    accepted := draft.row :: s.accepted
    created := draft.row :: s.created }

private theorem performAll_store (huploader : s.uploader = .idle) (hdraft : DraftDao.firstSendable s.db = some draft)
    (hstore : MessagesUploader.store P account.address dateSent draft conv msgSent delivery s.db =
      .ok (added, attachments, db')) (ops : List DraftsOp) :
    (loop P account.address).performAll s (.load :: .store dateSent conv msgSent delivery :: ops) =
      ((loop P account.address).performAll (storedSession s draft attachments db') ops).map fun r =>
        (r.1, (addedEvents added draft.row.conversationId msgSent.id).filterMap announced ++ r.2) := by
  have hperform : (loop P account.address).perform (.store dateSent conv msgSent delivery)
      { s with uploader := .loaded draft } =
      some (storedSession s draft attachments db',
        (addedEvents added draft.row.conversationId msgSent.id).filterMap announced) := by
    simp only [loop, perform]
    rw [hstore, filterMap_addedEvents]
    rfl
  rw [performAll_load _ huploader hdraft, EventLoop.performAll, hperform, Option.bind_some]

private theorem countP_addedEvents (convId messageId : IdType) :
    (addedEvents added convId messageId).countP isMessage = 1 ∧
      ∀ k, (addedEvents added convId messageId).countP (accepts k) = 0 := by
  unfold addedEvents
  cases added.newConversation <;> exact ⟨rfl, fun k => rfl⟩

private theorem countP_clearedEvents (convId : IdType) :
    (clearedEvents convId attachments).countP isMessage = 0 ∧
      ∀ k, (clearedEvents convId attachments).countP (accepts k) = 0 := by
  constructor
  · simp [clearedEvents, isMessage, List.countP_eq_zero]
  · intro k
    simp [clearedEvents, accepts, List.countP_eq_zero]

private theorem countP_failedEvents (db : Db) (convId : IdType) :
    (failedEvents db convId).countP isMessage = 0 ∧ ∀ k, (failedEvents db convId).countP (accepts k) = 0 := by
  constructor
  · simp [failedEvents, isMessage, List.countP_eq_zero]
  · intro k
    simp [failedEvents, accepts, List.countP_eq_zero]

/-- Saving the cleared draft raises. -/
theorem follow_keep (huploader : s.uploader = .idle) (hdraft : DraftDao.firstSendable s.db = some draft)
    {req : MessagesUploader.Event} (h : Requests it draft [req])
    (hstore : MessagesUploader.store P account.address dateSent draft conv msgSent delivery s.db =
      .ok (added, attachments, db')) :
    Follow P account s db'
      (req :: addedEvents added draft.row.conversationId msgSent.id ++
        clearedEvents draft.row.conversationId attachments) := by
  show Follow P account s db' ([req] ++ (addedEvents added draft.row.conversationId msgSent.id ++
    clearedEvents draft.row.conversationId attachments))
  refine ⟨[.load, .store dateSent conv msgSent delivery, .abort false],
    { storedSession s draft attachments db' with uploader := .idle, uncleared := draft.row :: s.uncleared },
    syncer_ops rfl (syncer_ops rfl (syncer_ops rfl fun op hop => absurd hop List.not_mem_nil)), ?_,
    ⟨rfl, rfl, rfl, rfl, ?_, ?_⟩⟩
  · rw [performAll_store huploader hdraft hstore, List.filterMap_append, List.filterMap_append, h.announced_eq,
      filterMap_clearedEvents]
    simp [EventLoop.performAll, loop, perform, storedSession]
  · intro convId
    have hreq := h.countP_accepts_le convId
    rw [List.countP_append, List.countP_append, (countP_addedEvents ..).2, (countP_clearedEvents ..).2]
    have hcons := draftsOf_cons convId draft.row s.accepted
    show _ ≤ draftsOf convId (draft.row :: s.accepted)
    omega
  · rw [List.countP_append, List.countP_append, h.countP_isMessage, (countP_addedEvents ..).1,
      (countP_clearedEvents ..).1]
    rfl

/-- The message is stored and the draft is cleared. -/
theorem follow_cleared (huploader : s.uploader = .idle) (hdraft : DraftDao.firstSendable s.db = some draft)
    {req : MessagesUploader.Event} (h : Requests it draft [req])
    (hstore : MessagesUploader.store P account.address dateSent draft conv msgSent delivery s.db =
      .ok (added, attachments, db')) :
    Follow P account s (clearedDb db' draft)
      (req :: addedEvents added draft.row.conversationId msgSent.id ++
        clearedEvents draft.row.conversationId attachments ++ [.draftModified draft.row.conversationId]) := by
  obtain ⟨-, hstate, hclean⟩ := DraftDao.of_firstSendable hdraft
  obtain ⟨hdirty, hkeep⟩ := DraftDao.clear_flags hstate
  have hstored : draft.clear.storedInDb = true := by
    rw [hkeep, hclean]
    rfl
  let s' : DraftsSession :=
    { storedSession s draft attachments db' with
      db := clearedDb db' draft
      uploader := .idle
      log := .cleared draft.row.conversationId :: .sent draft.row.conversationId :: s.log }
  have hperform : (loop P account.address).perform .clearDraft (storedSession s draft attachments db') =
      some (s', (clearedEvents draft.row.conversationId attachments).filterMap announced ++
          [.draftModified draft.row.conversationId]) := by
    simp only [loop, perform, storedSession]
    rw [DraftDao.save_of_stored hdirty hstored, DraftDao.clear_row, filterMap_clearedEvents]
    rfl
  show Follow P account s (clearedDb db' draft) ([req] ++ (addedEvents added draft.row.conversationId msgSent.id ++
    (clearedEvents draft.row.conversationId attachments ++ [.draftModified draft.row.conversationId])))
  refine ⟨[.load, .store dateSent conv msgSent delivery, .clearDraft], s',
    syncer_ops rfl (syncer_ops rfl (syncer_ops rfl fun op hop => absurd hop List.not_mem_nil)), ?_,
    ⟨rfl, rfl, rfl, rfl, ?_, ?_⟩⟩
  · rw [performAll_store huploader hdraft hstore, EventLoop.performAll, hperform, List.filterMap_append,
      List.filterMap_append, List.filterMap_append, h.announced_eq]
    simp [EventLoop.performAll, announced]
  · intro convId
    have hreq := h.countP_accepts_le convId
    have hcons := draftsOf_cons convId draft.row s.accepted
    have hlast : [MessagesUploader.Event.draftModified draft.row.conversationId].countP (accepts convId) = 0 := rfl
    rw [List.countP_append, List.countP_append, List.countP_append, (countP_addedEvents ..).2,
      (countP_clearedEvents ..).2, hlast]
    show _ ≤ draftsOf convId (draft.row :: s.accepted)
    omega
  · rw [List.countP_append, List.countP_append, List.countP_append, h.countP_isMessage, (countP_addedEvents ..).1,
      (countP_clearedEvents ..).1]
    rfl

end stored

/-- An iteration for a draft. -/
theorem follow_processed (huploader : s.uploader = .idle) (hdraft : DraftDao.firstSendable s.db = some draft)
    {stop : Option MessagesUploader.Stop} {db' : Db} {events : List MessagesUploader.Event}
    (h : Processed account it s.db draft stop db' events) : Follow P account s db' events := by
  have hnone : Requests it draft [] := .inl rfl
  cases h with
  | @tooBig part size maxSize htooBig =>
    exact follow_reset huploader hdraft hnone false rfl (fun convId => rfl) rfl
  | canceled hfails _ => exact follow_abort huploader hdraft (.of_fails hfails)
  | handlerRaises hfails _ _ => exact follow_abort huploader hdraft (.of_fails hfails)
  | nullDereference hfails _ _ => exact follow_abort huploader hdraft (.of_fails hfails)
  | failed hfails _ _ =>
    exact follow_reset huploader hdraft (.of_fails hfails) true (countP_failedEvents ..).1 (countP_failedEvents ..).2
      (filterMap_failedEvents ..)
  | sentCanceled hsends _ => exact follow_abort huploader hdraft (.of_sends hsends)
  | storeRaises hsends _ _ => exact follow_abort huploader hdraft (.of_sends hsends)
  | clearRaises hsends _ hstore _ =>
    exact follow_keep huploader hdraft (.of_sends hsends) (MessagesUploader.Iteration.call_eq_ok.1 hstore).2
  | cleared hsends _ hstore _ =>
    exact follow_cleared huploader hdraft (.of_sends hsends) (MessagesUploader.Iteration.call_eq_ok.1 hstore).2

private theorem follow_outcome (huploader : s.uploader = .idle) {ending : MessagesUploader.Ending} {db' : Db}
    {events : List MessagesUploader.Event} (h : Outcome account it s.db ending db' events) :
    Follow P account s db' events := by
  have hnothing : Follow P account s s.db [] :=
    ⟨[], s, fun op hop => absurd hop List.not_mem_nil, rfl, ⟨rfl, huploader, rfl, rfl, fun convId => Nat.le_refl _, rfl⟩⟩
  cases h with
  | firstSendableRaises _ => exact hnothing
  | done _ _ => exact hnothing
  | early _ _ _ => exact hnothing
  | processed _ hdraft _ hprocessed => exact follow_processed huploader hdraft hprocessed

/-- A run of the uploader, looked at after any number of iterations, is a run of the session: with the same database,
with its events in the queue, and with every upload that the server accepted and every message that was stored. -/
theorem afterRun_followed (its : Nat → Iteration P) (i n : Nat) (v : MessagesUploader.State)
    (s : EventLoop.State SessionThread Event DraftsSession) (hdb : v.db = s.data.db)
    (huploader : s.data.uploader = .idle) (hidle : s.Idle .syncer) :
    ∃ as s' events, (loop P account.address).run s as = some s' ∧
      (MessagesUploader.afterRun P account its i n v).trace = v.trace ++ events ∧
      Follows s.data (MessagesUploader.afterRun P account its i n v).db events s'.data ∧
      s'.queue = s.queue ++ events.filterMap announced ∧ s'.outbox = s.outbox := by
  induction n generalizing i v s with
  | zero =>
    refine ⟨[], s, [], rfl, (List.append_nil _).symm, ?_, (List.append_nil _).symm, rfl⟩
    exact ⟨hdb.symm, huploader, rfl, rfl, fun convId => Nat.le_refl _, rfl⟩
  | succ n ih =>
    obtain ⟨events, houtcome, htrace⟩ := MessagesUploader.iterate_outcome account (its i) v
    rw [hdb] at houtcome
    obtain ⟨ops, d, hthread, hops, hfollows⟩ := follow_outcome huploader houtcome
    obtain ⟨as, has⟩ := EventLoop.run_of_performAll hthread hidle hops
    rw [MessagesUploader.afterRun]
    cases hiterate : MessagesUploader.iterate P account (its i) v with
    | error stop v' =>
      rw [hiterate] at hfollows htrace
      exact ⟨as, _, events, has, htrace, hfollows, rfl, rfl⟩
    | ok more v' =>
      rw [hiterate] at hfollows htrace
      cases more with
      | false => exact ⟨as, _, events, has, htrace, hfollows, rfl, rfl⟩
      | true =>
        obtain ⟨as', s', events', hrun, htrace', hfollows', hqueue, hout⟩ :=
          ih (i + 1) v' { s with data := d, queue := s.queue ++ events.filterMap announced } hfollows.db.symm
            hfollows.idle hidle
        refine ⟨as ++ as', s', events ++ events', ?_, ?_, ?_, ?_, hout⟩
        · rw [EventLoop.run_append, has, Option.bind_some, hrun]
        · dsimp only
          rw [htrace', ← List.append_assoc]
          exact congrArg (· ++ events') htrace
        · exact hfollows.trans hfollows'
        · rw [hqueue, List.filterMap_append, List.append_assoc]

/-- Every run of the uploader is a run of the session. -/
theorem run_followed {its : Nat → Iteration P} {n : Nat} {v : MessagesUploader.State}
    {result : EStateM.Result MessagesUploader.Stop MessagesUploader.State Unit}
    (hrun : MessagesUploader.run P account its 0 n v = some result)
    (s : EventLoop.State SessionThread Event DraftsSession) (hdb : v.db = s.data.db)
    (huploader : s.data.uploader = .idle) (hidle : s.Idle .syncer) :
    ∃ as s' events, (loop P account.address).run s as = some s' ∧
      (Imperative.final result).trace = v.trace ++ events ∧ Follows s.data (Imperative.final result).db events s'.data ∧
      s'.queue = s.queue ++ events.filterMap announced ∧ s'.outbox = s.outbox := by
  rw [← MessagesUploader.afterRun_of_run hrun]
  exact afterRun_followed its 0 n v s hdb huploader hidle

end

end DraftsSession

end KulloClient
