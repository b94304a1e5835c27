import KulloClient.ApiImpl.DraftAttachmentsImpl
import KulloClient.Sync.MessageRows

/-!
# The draft attachments over a run

The jobs add attachments, the uploader converts or deletes those of a draft, and the main thread removes what it has
cached and handles the events.  Nothing but its key tells an event for which attachment it is.
-/

namespace KulloClient

open Relational (Table)
open Transition (EventLoop)
open Imperative

structure DraftAttachmentsSession where
  db : Db
  attachments : DraftAttachmentsImpl
  /-- What the handlers and the removals have raised. -/
  raised : List Exn := []

inductive DraftAttachmentsOp
  /-- A job that is done; its event is not sent if it was cancelled by then. -/
  | add (job : Nat) (listener : ContentCallback) (convId : IdType) (file : DraftFile) (sizeOfExisting : Nat)
      (cancelled : Bool)
  | remove (convId attId : IdType)
  /-- `DraftsImpl::clear`, for a draft that is cached. -/
  | clear (convId : IdType)
  /-- The transaction of `MessagesUploader` for a message that was sent. -/
  | store (dateSent : String) (draft : DraftDao) (conv : ConversationDao) (msgSent : MessageSent)
      (delivery : List KulloAddress)
  /-- Its transaction for a draft that could not be sent. -/
  | deleteAttachments (convId : IdType)

namespace DraftAttachmentsSession

def thread : DraftAttachmentsOp → SessionThread
  | .add job .. => .draftAttachments job
  | .remove .. | .clear _ => .main
  | .store .. | .deleteAttachments _ => .syncer

/-- What a removal or a handler of the cache leaves behind. -/
def apply (s : DraftAttachmentsSession) (e : DraftAttachmentsImpl.Effect) : DraftAttachmentsSession where
  db := e.db
  attachments := e.impl
  raised := e.raised.toList ++ s.raised

variable (P : Platform) (userAddress : KulloAddress) (hexDigest : Bytes → String)

/-- The events for the other listeners are left out. -/
def perform (op : DraftAttachmentsOp) (s : DraftAttachmentsSession) : Option (DraftAttachmentsSession × List Event) :=
  match op with
  | .add _ listener convId file sizeOfExisting cancelled =>
    (DraftAttachmentsAddWorker.work hexDigest listener convId file sizeOfExisting s.db).map fun added =>
      ({ s with db := added.2 }, if cancelled then [] else [.draftAttachmentAdded convId added.1])
  | .remove convId attId =>
    match s.attachments.remove s.db convId attId with
    | .ok e => some (s.apply e, if e.apiEvents.isEmpty then [] else [.sendApiEvents e.apiEvents])
    | .error _ => none
  | .clear convId =>
    match assertId convId "convId" with
    | .ok _ => some (s, [.draftRemoved convId])
    | .error _ => none
  | .store dateSent draft conv msgSent delivery =>
    match MessagesUploader.store P userAddress dateSent draft conv msgSent delivery s.db with
    | .ok (_, attachments, db) =>
      some ({ s with db := db },
        attachments.map fun att => .draftAttachmentRemoved draft.row.conversationId att.row.index)
    | .error _ => none
  | .deleteAttachments convId =>
    some ({ s with db := AttachmentDao.deleteAttachments s.db true convId },
      (MessagesUploader.deletedIndexes s.db convId).map fun index => .draftAttachmentRemoved convId index)

def handle (e : Event) (s : DraftAttachmentsSession) : DraftAttachmentsSession × List Event :=
  (s.apply (s.attachments.notify s.db e), [])

/-- The session of a user. -/
def loop : EventLoop SessionThread DraftAttachmentsOp Event DraftAttachmentsSession where
  main := .main
  thread := thread
  perform := perform P userAddress hexDigest
  handle := handle

/-- The session after its construction. -/
def initial (db : Db) : EventLoop.State SessionThread Event DraftAttachmentsSession where
  data := { db := db, attachments := .construct db }

/-! ### What a run is asked for -/

/-- Nothing is raised, and when all events are handled the draft attachments of the database are cached, each is listed
once under its draft, and nothing else is. -/
structure Consistent (s : DraftAttachmentsSession) (pending : Multiset Event) : Prop where
  quiet : s.raised = []
  cached : pending = 0 → ∀ convId attId,
    s.attachments.attachments.find? (convId, attId) =
      (AttachmentDao.draftRow s.db convId attId).map AttachmentDao.ofRow
  listed : pending = 0 → ∀ convId attId,
    (s.attachments.attIds convId).count attId = if (AttachmentDao.draftRow s.db convId attId).isSome then 1 else 0

/-- A job is not cancelled.  When an attachment was added, it is still there and its key is not cached; and when an
attachment was removed, its key is not cached any more, or is not in the database, or is about to be added again. -/
def guard : EventLoop.Guard DraftAttachmentsOp Event DraftAttachmentsSession where
  perform op _ _ :=
    match op with
    | .add _ _ _ _ _ cancelled => cancelled = false
    | _ => True
  handle e s pending :=
    match e with
    | .draftAttachmentAdded convId attId =>
      (AttachmentDao.draftRow s.db convId attId).isSome = true ∧
        s.attachments.attachments.find? (convId, attId) = none
    | .draftAttachmentRemoved convId attId =>
      (s.attachments.attachments.find? (convId, attId)).isSome = true →
        (AttachmentDao.draftRow s.db convId attId).isSome = true → .draftAttachmentAdded convId attId ∈ pending
    | _ => True

/-! ### The invariant -/

variable {s : DraftAttachmentsSession} {pending : Multiset Event}

structure Inv (s : DraftAttachmentsSession) (pending : Multiset Event) : Prop where
  quiet : s.raised = []
  listed : s.attachments.Listed
  loaded : ∀ convId attId dao, s.attachments.attachments.find? (convId, attId) = some dao →
    ∃ r : AttachmentRow, dao = .ofRow r ∧ r.draft = true
  /-- A row that is not cached is about to be added. -/
  announced : ∀ convId attId, (AttachmentDao.draftRow s.db convId attId).isSome = true →
    s.attachments.attachments.find? (convId, attId) = none → .draftAttachmentAdded convId attId ∈ pending
  /-- A cached attachment that is not in the database is about to be removed. -/
  stale : ∀ convId attId dao, s.attachments.attachments.find? (convId, attId) = some dao →
    AttachmentDao.draftRow s.db convId attId ≠ some dao.row → .draftAttachmentRemoved convId attId ∈ pending
  cleared : ∀ convId, .draftRemoved convId ∈ pending → convId ≤ idMax

theorem Inv.mono (h : Inv s pending) {es : Multiset Event} (hes : ∀ convId, .draftRemoved convId ∈ es → convId ≤ idMax) :
    Inv s (pending + es) := by
  refine ⟨h.quiet, h.listed, h.loaded, ?_, ?_, ?_⟩
  · intro convId attId hrow hfree
    exact Multiset.mem_add.mpr (.inl (h.announced convId attId hrow hfree))
  · intro convId attId dao hcached hrow
    exact Multiset.mem_add.mpr (.inl (h.stale convId attId dao hcached hrow))
  · intro convId hmem
    rcases Multiset.mem_add.mp hmem with hmem | hmem
    · exact h.cleared convId hmem
    · exact hes convId hmem

/-- An event that is for no draft attachment leaves the queue. -/
theorem Inv.drop {e : Event} (h : Inv s (e ::ₘ pending)) (hadded : ∀ convId attId, e ≠ .draftAttachmentAdded convId attId)
    (hremoved : ∀ convId attId, e ≠ .draftAttachmentRemoved convId attId) : Inv s pending := by
  refine ⟨h.quiet, h.listed, h.loaded, ?_, ?_, ?_⟩
  · intro convId attId hrow hfree
    rcases Multiset.mem_cons.mp (h.announced convId attId hrow hfree) with heq | hmem
    · exact absurd heq.symm (hadded convId attId)
    · exact hmem
  · intro convId attId dao hcached hrow
    rcases Multiset.mem_cons.mp (h.stale convId attId dao hcached hrow) with heq | hmem
    · exact absurd heq.symm (hremoved convId attId)
    · exact hmem
  · intro convId hmem
    exact h.cleared convId (Multiset.mem_cons_of_mem hmem)

/-! #### The database -/

/-- A job has added an attachment. -/
theorem Inv.add (h : Inv s pending) {convId attId : IdType} {row : AttachmentRow} {db : Db}
    (hfree : AttachmentDao.draftRow s.db convId attId = none)
    (hrows : ∀ convId' attId', AttachmentDao.draftRow db convId' attId' =
      if (convId, attId) = (convId', attId') then some row else AttachmentDao.draftRow s.db convId' attId') :
    Inv { s with db := db } (pending + {.draftAttachmentAdded convId attId}) := by
  have h' : Inv s (pending + {.draftAttachmentAdded convId attId}) := h.mono (by simp)
  refine ⟨h.quiet, h.listed, h.loaded, ?_, ?_, h'.cleared⟩
  · intro convId' attId' hrow hnone
    dsimp only at hrow hnone
    rw [hrows] at hrow
    split at hrow
    · next hkey =>
      cases hkey
      simp
    · exact h'.announced convId' attId' hrow hnone
  · intro convId' attId' dao hcached hrow
    dsimp only at hcached hrow
    rw [hrows] at hrow
    split at hrow
    · next hkey =>
      cases hkey
      refine h'.stale convId attId dao hcached ?_
      rw [hfree]
      intro heq
      cases heq
    · exact h'.stale convId' attId' dao hcached hrow

/-- The attachments of a draft have left it. -/
theorem Inv.leave (h : Inv s pending) {convId : IdType} {db : Db} {es : List Event}
    (hrows : ∀ convId' attId, AttachmentDao.draftRow db convId' attId =
      if convId = convId' then none else AttachmentDao.draftRow s.db convId' attId)
    (hevents : ∀ attId, (AttachmentDao.draftRow s.db convId attId).isSome = true →
      .draftAttachmentRemoved convId attId ∈ es)
    (hes : ∀ e ∈ es, ∃ attId, e = .draftAttachmentRemoved convId attId) : Inv { s with db := db } (pending + ↑es) := by
  have h' : Inv s (pending + ↑es) := h.mono (by
    intro convId' hmem
    obtain ⟨attId, heq⟩ := hes _ (Multiset.mem_coe.mp hmem)
    cases heq)
  refine ⟨h.quiet, h.listed, h.loaded, ?_, ?_, h'.cleared⟩
  · intro convId' attId hrow hnone
    dsimp only at hrow hnone
    rw [hrows] at hrow
    split at hrow
    · cases hrow
    · exact h'.announced convId' attId hrow hnone
  · intro convId' attId dao hcached hrow
    dsimp only at hcached hrow
    rw [hrows] at hrow
    split at hrow
    · next hconv =>
      subst hconv
      by_cases hsome : (AttachmentDao.draftRow s.db convId attId).isSome = true
      · exact Multiset.mem_add.mpr (.inr (Multiset.mem_coe.mpr (hevents attId hsome)))
      · refine h'.stale convId attId dao hcached ?_
        intro heq
        rw [heq] at hsome
        exact hsome rfl
    · exact h'.stale convId' attId dao hcached hrow

/-! #### The cache -/

/-- An attachment is removed from the cache and from the database. -/
theorem Inv.doRemove (h : Inv s pending) (convId attId : IdType) :
    Inv (s.apply (s.attachments.doRemove s.db convId attId .yes)) pending ∧
      (s.attachments.doRemove s.db convId attId .yes).raised = none := by
  cases hcached : s.attachments.attachments.find? (convId, attId) with
  | none =>
    rw [DraftAttachmentsImpl.doRemove_of_none hcached]
    exact ⟨h, rfl⟩
  | some dao =>
    obtain ⟨r, rfl, hdraft⟩ := h.loaded convId attId dao hcached
    have hkey : (r.messageId, r.index) = (convId, attId) := DraftAttachmentsImpl.key_of_find? hcached
    rw [h.listed.doRemove hcached, if_pos rfl]
    have hrows : ∀ convId' attId', AttachmentDao.draftRow ((AttachmentDao.ofRow r).deletePermanently s.db) convId' attId' =
        if (convId, attId) = (convId', attId') then none else AttachmentDao.draftRow s.db convId' attId' := by
      intro convId' attId'
      rw [← hkey]
      exact AttachmentDao.draftRow_deletePermanently s.db hdraft convId' attId'
    refine ⟨⟨h.quiet, h.listed.erase (by rw [hcached]; rfl), ?_, ?_, ?_, h.cleared⟩, rfl⟩
    · intro convId' attId' dao' hdao'
      dsimp only [apply] at hdao'
      rw [DraftAttachmentsImpl.find?_erase] at hdao'
      split at hdao'
      · cases hdao'
      · exact h.loaded convId' attId' dao' hdao'
    · intro convId' attId' hrow hnone
      dsimp only [apply] at hrow hnone
      rw [DraftAttachmentsImpl.find?_erase] at hnone
      rw [hrows] at hrow
      split at hrow
      · cases hrow
      · next hne =>
        rw [if_neg hne] at hnone
        exact h.announced convId' attId' hrow hnone
    · intro convId' attId' dao' hdao' hrow
      dsimp only [apply] at hdao' hrow
      rw [DraftAttachmentsImpl.find?_erase] at hdao'
      rw [hrows] at hrow
      split at hdao'
      · cases hdao'
      · next hne =>
        rw [if_neg hne] at hrow
        exact h.stale convId' attId' dao' hdao' hrow

theorem Inv.removeAll (h : Inv s pending) (convId : IdType) (attIds : List IdType) :
    Inv (s.apply (s.attachments.removeAll s.db convId attIds)) pending := by
  induction attIds generalizing s with
  | nil => exact h
  | cons attId attIds ih =>
    obtain ⟨hfirst, hraised⟩ := h.doRemove convId attId
    unfold DraftAttachmentsImpl.removeAll
    dsimp only
    rw [hraised]
    dsimp only
    have hrest := ih hfirst
    have hquiet := hrest.quiet
    unfold apply at hrest hquiet ⊢
    dsimp only at hrest hquiet ⊢
    rw [hraised] at hrest
    exact hrest

/-- The event of an attachment that was added. -/
theorem Inv.handle_added {convId attId : IdType} (h : Inv s (.draftAttachmentAdded convId attId ::ₘ pending))
    (hguard : guard.handle (.draftAttachmentAdded convId attId) s pending) :
    Inv (s.apply (s.attachments.draftAttachmentAdded s.db convId attId)) pending := by
  -- the guard: the attachment is stored, and not cached yet
  obtain ⟨hsome, hfree⟩ := hguard
  obtain ⟨r, hr⟩ := Option.isSome_iff_exists.mp hsome
  obtain ⟨-, hdraft, hconv, hindex⟩ := AttachmentDao.draftRow_eq_some.mp hr
  subst hconv hindex
  have hload : AttachmentDao.load s.db true r.messageId r.index = some (.ofRow r) := by
    unfold AttachmentDao.load
    rw [show s.db.attachments.find? (true, r.messageId, r.index) = some r from hr, Option.map_some]
  have hfind : ∀ k, (s.attachments.emplace (.ofRow r)).attachments.find? k =
      if (r.messageId, r.index) = k then some (.ofRow r) else s.attachments.attachments.find? k := by
    intro k
    unfold DraftAttachmentsImpl.emplace
    rw [Table.find?_insertOrIgnore]
    change (if (r.messageId, r.index) = k then _ else _) = _
    split
    · next hk => rw [← hk, hfree, Option.getD_none]
    · rfl
  have hlisted : (s.attachments.emplace (.ofRow r)).Listed := h.listed.emplace hfree
  unfold DraftAttachmentsImpl.draftAttachmentAdded
  rw [hload]
  change Inv { s with attachments := s.attachments.emplace (.ofRow r) } pending
  refine ⟨h.quiet, hlisted, ?_, ?_, ?_, ?_⟩
  · intro convId' attId' dao hdao
    dsimp only at hdao
    rw [hfind] at hdao
    split at hdao
    · cases hdao
      exact ⟨r, rfl, hdraft⟩
    · exact h.loaded convId' attId' dao hdao
  · intro convId' attId' hrow hnone
    dsimp only at hrow hnone
    rw [hfind] at hnone
    split at hnone
    · cases hnone
    · next hne =>
      rcases Multiset.mem_cons.mp (h.announced convId' attId' hrow hnone) with heq | hmem
      · injection heq with hconv hindex
        exact absurd (Prod.ext hconv.symm hindex.symm) hne
      · exact hmem
  · intro convId' attId' dao hdao hrow
    dsimp only at hdao hrow
    rw [hfind] at hdao
    split at hdao
    · next hkey =>
      cases hkey
      cases hdao
      exact absurd hr hrow
    · rcases Multiset.mem_cons.mp (h.stale convId' attId' dao hdao hrow) with heq | hmem
      · cases heq
      · exact hmem
  · intro convId' hmem
    exact h.cleared convId' (Multiset.mem_cons_of_mem hmem)

/-- The event of an attachment that was removed. -/
theorem Inv.handle_removed {convId attId : IdType} (h : Inv s (.draftAttachmentRemoved convId attId ::ₘ pending))
    (hguard : guard.handle (.draftAttachmentRemoved convId attId) s pending) :
    Inv (s.apply (s.attachments.draftAttachmentRemoved s.db convId attId)) pending := by
  -- what is pending about other attachments stays pending
  have hrest : ∀ convId' attId' dao, (convId, attId) ≠ (convId', attId') →
      s.attachments.attachments.find? (convId', attId') = some dao →
      AttachmentDao.draftRow s.db convId' attId' ≠ some dao.row → .draftAttachmentRemoved convId' attId' ∈ pending := by
    intro convId' attId' dao hne hdao hrow
    rcases Multiset.mem_cons.mp (h.stale convId' attId' dao hdao hrow) with heq | hmem
    · injection heq with hconv hindex
      exact absurd (Prod.ext hconv.symm hindex.symm) hne
    · exact hmem
  have hannounced : ∀ convId' attId', (AttachmentDao.draftRow s.db convId' attId').isSome = true →
      s.attachments.attachments.find? (convId', attId') = none → .draftAttachmentAdded convId' attId' ∈ pending := by
    intro convId' attId' hrow hnone
    rcases Multiset.mem_cons.mp (h.announced convId' attId' hrow hnone) with heq | hmem
    · cases heq
    · exact hmem
  have hcleared : ∀ convId', .draftRemoved convId' ∈ pending → convId' ≤ idMax :=
    fun convId' hmem => h.cleared convId' (Multiset.mem_cons_of_mem hmem)
  unfold DraftAttachmentsImpl.draftAttachmentRemoved
  cases hcached : s.attachments.attachments.find? (convId, attId) with
  | none =>
    rw [DraftAttachmentsImpl.doRemove_of_none hcached]
    refine ⟨h.quiet, h.listed, h.loaded, hannounced, ?_, hcleared⟩
    intro convId' attId' dao hdao hrow
    refine hrest convId' attId' dao ?_ hdao hrow
    intro heq
    cases heq
    have hdao' : s.attachments.attachments.find? (convId, attId) = some dao := hdao
    rw [hcached] at hdao'
    cases hdao'
  | some dao =>
    have hsome : (s.attachments.attachments.find? (convId, attId)).isSome = true := by
      rw [hcached]
      rfl
    rw [h.listed.doRemove hcached, if_neg (by simp)]
    refine ⟨h.quiet, h.listed.erase hsome, ?_, ?_, ?_, hcleared⟩
    · intro convId' attId' dao' hdao'
      dsimp only [apply] at hdao'
      rw [DraftAttachmentsImpl.find?_erase] at hdao'
      split at hdao'
      · cases hdao'
      · exact h.loaded convId' attId' dao' hdao'
    · intro convId' attId' hrow hnone
      dsimp only [apply] at hrow hnone
      rw [DraftAttachmentsImpl.find?_erase] at hnone
      split at hnone
      · next hkey =>
        cases hkey
        -- the guard: the attachment is not there again
        exact hguard hsome hrow
      · exact hannounced convId' attId' hrow hnone
    · intro convId' attId' dao' hdao' hrow
      dsimp only [apply] at hdao' hrow
      rw [DraftAttachmentsImpl.find?_erase] at hdao'
      split at hdao'
      · cases hdao'
      · next hne => exact hrest convId' attId' dao' hne hdao' hrow

private theorem Inv.handle_draftRemoved {convId : IdType} (h : Inv s (.draftRemoved convId ::ₘ pending)) :
    Inv (s.apply (s.attachments.draftRemoved s.db convId)) pending := by
  have hle := h.cleared convId (Multiset.mem_cons_self _ _)
  have h' := h.drop (fun _ _ => Event.noConfusion) (fun _ _ => Event.noConfusion)
  unfold DraftAttachmentsImpl.draftRemoved DraftAttachmentsImpl.allForDraft
  rw [assertId_of_le hle]
  exact h'.removeAll convId _

theorem Inv.handle {e : Event} (h : Inv s (e ::ₘ pending)) (hguard : guard.handle e s pending) :
    Inv (handle e s).1 pending := by
  unfold DraftAttachmentsSession.handle DraftAttachmentsImpl.notify
  cases e with
  | draftAttachmentAdded convId attId => exact h.handle_added hguard
  | draftAttachmentRemoved convId attId => exact h.handle_removed hguard
  | draftRemoved convId => exact h.handle_draftRemoved
  | conversationAdded | conversationModified | conversationWillBeRemoved | messageAdded | messageModified
  | messageRemoved | senderAdded | draftModified | sendApiEvents =>
    exact h.drop (fun _ _ => Event.noConfusion) (fun _ _ => Event.noConfusion)

/-! #### The operations -/

variable {P : Platform} {userAddress : KulloAddress} {hexDigest : Bytes → String}

/-- The attachments are those of the transaction's conversions. -/
theorem addMessage_attachments {decoder : Decoder} {conv : ConversationDao} {message : MessageDao}
    {added : MessagesSyncer.Added} {db db' : Db} (hnew : decoder.message.IsNew)
    (hclean : ∀ att ∈ decoder.attachments, att.dirty = false)
    (h : MessagesSyncer.addMessage P decoder conv db = .ok (added, message, db')) :
    db'.attachments = db.attachments := by
  unfold MessagesSyncer.addMessage at h
  obtain ⟨⟨isNew, conv', db₁⟩, hconv, h⟩ := bind_eq_ok.mp h
  dsimp only at h
  obtain ⟨db₂, hsender, h⟩ := bind_eq_ok.mp h
  obtain ⟨⟨b, saved, db₃⟩, hsave, h⟩ := bind_eq_ok.mp h
  rw [MessagesUploader.foldlM_save_clean hclean, ok_bind] at h
  cases h
  have hassigned : (decoder.message.setConversationId conv'.id).2.IsNew := hnew.assign
  obtain ⟨hfree, -, -, rfl⟩ := hassigned.save_eq_ok hsave
  have hconvRows : db₁.attachments = db.attachments := by
    unfold ConversationDao.save at hconv
    split at hconv
    · obtain ⟨_, -, hconv⟩ := bind_eq_ok.mp hconv
      obtain ⟨_, -, hconv⟩ := bind_eq_ok.mp hconv
      split at hconv
      · cases hconv
      · obtain ⟨_, -, hconv⟩ := bind_eq_ok.mp hconv
        cases hconv
        rfl
    · cases hconv
      rfl
  have hsenderRows : db₂.attachments = db₁.attachments := by
    unfold SenderDao.save at hsender
    split at hsender
    · obtain ⟨_, -, hsender⟩ := bind_eq_ok.mp hsender
      obtain ⟨_, -, hsender⟩ := bind_eq_ok.mp hsender
      obtain ⟨_, -, hsender⟩ := bind_eq_ok.mp hsender
      cases hsender
      rfl
    · cases hsender
      rfl
  exact hsenderRows.trans hconvRows

/-- The transaction of the uploader takes all attachments from the draft. -/
theorem store_draftRow {dateSent : String} {draft : DraftDao} {conv : ConversationDao} {msgSent : MessageSent}
    {delivery : List KulloAddress} {db db' : Db} {added : MessagesSyncer.Added} {attachments : List AttachmentDao}
    (h : MessagesUploader.store P userAddress dateSent draft conv msgSent delivery db = .ok (added, attachments, db')) :
    (∀ convId attId, AttachmentDao.draftRow db' convId attId =
      if draft.row.conversationId = convId then none else AttachmentDao.draftRow db convId attId) ∧
    attachments.map (fun att => att.row.index) =
      (AttachmentDao.allForMessage db true draft.row.conversationId).map fun d => d.row.index := by
  unfold MessagesUploader.store at h
  obtain ⟨db₁, hconvert, h⟩ := bind_eq_ok.mp h
  obtain ⟨⟨added', message, db₂⟩, hadd, h⟩ := bind_eq_ok.mp h
  cases h
  have hds : ∀ d ∈ AttachmentDao.allForMessage db true draft.row.conversationId,
      d.row.messageId = draft.row.conversationId := by
    intro d hd
    obtain ⟨r, -, ⟨-, hconv⟩, rfl⟩ := AttachmentDao.mem_allForMessage.mp hd
    exact hconv
  have hclean : ∀ att ∈ (AttachmentDao.allForMessage db true draft.row.conversationId).map
      (MessagesUploader.converted msgSent.id), att.dirty = false := by
    intro att hatt
    obtain ⟨d, hd, rfl⟩ := List.mem_map.mp hatt
    exact (MessagesUploader.mem_allForMessage_stored d hd).dirty
  have hnew := MessagesUploader.makeMessageDao_isNew userAddress dateSent msgSent draft
  have hattachments := addMessage_attachments (by exact hnew) (by exact hclean) hadd
  have hfind := AttachmentDao.foldlM_convert_find
    (fun d db db' h => (AttachmentDao.convert_eq_ok_find h).2.1) hds hconvert
  constructor
  · intro convId attId
    have hrow : AttachmentDao.draftRow db₂ convId attId = db₁.attachments.find? (true, convId, attId) := by
      unfold AttachmentDao.draftRow
      rw [hattachments]
    refine hrow.trans ?_
    rw [hfind, AttachmentDao.movedAllTo]
    by_cases hconv : draft.row.conversationId = convId
    · subst hconv
      rw [if_pos rfl]
      by_cases hindex : attId ∈ (AttachmentDao.allForMessage db true draft.row.conversationId).map fun d => d.row.index
      · rw [if_pos ⟨rfl, rfl, hindex⟩]
      · rw [if_neg (fun h => hindex h.2.2), if_neg (by simp)]
        exact AttachmentDao.draftRow_eq_none_of_notMem hindex
    · rw [if_neg hconv, if_neg (fun h => hconv h.2.1.symm), if_neg (by simp)]
      rfl
  · rw [List.map_map]
    rfl

theorem Inv.perform (h : Inv s pending) {op : DraftAttachmentsOp} (hguard : guard.perform op s pending)
    {s' : DraftAttachmentsSession} {es : List Event}
    (hop : perform P userAddress hexDigest op s = some (s', es)) : Inv s' (pending + ↑es) := by
  cases op with
  | add job listener convId file sizeOfExisting cancelled =>
    obtain ⟨⟨attId, db⟩, hwork, hadded⟩ := Option.map_eq_some_iff.mp hop
    cases hadded
    have hcancelled : cancelled = false := hguard
    rw [hcancelled]
    -- a job that was not cancelled has stored its file
    have hstore : DraftAttachmentsAddWorker.store hexDigest listener convId file s.db = .ok (attId, db) := by
      unfold DraftAttachmentsAddWorker.work at hwork
      split at hwork
      · cases hresult : DraftAttachmentsAddWorker.store hexDigest listener convId file s.db with
        | error e =>
          rw [hresult] at hwork
          cases hwork
        | ok result =>
          rw [hresult] at hwork
          cases hwork
          rfl
      · cases hwork
    obtain ⟨rfl, row, hkey, -, hrows⟩ := DraftAttachmentsAddWorker.store_eq_ok hstore
    have hfree := AttachmentDao.draftRow_idForNewDraftAttachment s.db convId
    exact h.add hfree (draftRow_of_rows_append hkey hrows hfree)
  | remove convId attId =>
    simp only [DraftAttachmentsSession.perform, DraftAttachmentsImpl.remove] at hop
    cases hconv : assertId convId "convId" with
    | error e =>
      rw [hconv] at hop
      cases hop
    | ok _ =>
      cases hatt : assertId attId "attId" with
      | error e =>
        rw [hconv, hatt] at hop
        cases hop
      | ok _ =>
        rw [hconv, hatt] at hop
        cases hop
        apply (h.doRemove convId attId).1.mono
        intro convId' hmem
        split at hmem
        · cases hmem
        · simp at hmem
  | clear convId =>
    simp only [DraftAttachmentsSession.perform] at hop
    cases hconv : assertId convId "convId" with
    | error e =>
      rw [hconv] at hop
      cases hop
    | ok _ =>
      rw [hconv] at hop
      cases hop
      apply h.mono
      intro convId' hmem
      have heq : convId' = convId := by simpa using hmem
      rw [heq]
      exact le_of_assertId hconv
  | store dateSent draft conv msgSent delivery =>
    simp only [DraftAttachmentsSession.perform] at hop
    split at hop
    · next added attachments db hstore =>
      cases hop
      obtain ⟨hrows, hindices⟩ := store_draftRow hstore
      refine h.leave hrows ?_ ?_
      -- every attachment that left the draft is announced as removed
      · intro attId hsome
        have hmem := AttachmentDao.mem_of_draftRow hsome
        rw [← hindices] at hmem
        obtain ⟨att, hatt, rfl⟩ := List.mem_map.mp hmem
        exact List.mem_map_of_mem hatt
      · intro e he
        obtain ⟨att, -, rfl⟩ := List.mem_map.mp he
        exact ⟨_, rfl⟩
    · cases hop
  | deleteAttachments convId =>
    cases hop
    refine h.leave (AttachmentDao.draftRow_deleteAttachments s.db convId) ?_ ?_
    · intro attId hsome
      exact List.mem_map_of_mem (AttachmentDao.mem_of_draftRow hsome)
    · intro e he
      obtain ⟨index, -, rfl⟩ := List.mem_map.mp he
      exact ⟨_, rfl⟩

/-! ### The run -/

theorem inv_initial (db : Db) : Inv (initial db).data 0 := by
  have hfind := DraftAttachmentsImpl.find?_construct db
  refine ⟨rfl, DraftAttachmentsImpl.listed_construct db, ?_, ?_, ?_, ?_⟩
  · intro convId attId dao hdao
    dsimp only [initial] at hdao
    rw [hfind] at hdao
    obtain ⟨r, hr, rfl⟩ := Option.map_eq_some_iff.mp hdao
    exact ⟨r, rfl, (AttachmentDao.draftRow_eq_some.mp hr).2.1⟩
  · intro convId attId hrow hnone
    dsimp only [initial] at hrow hnone
    rw [hfind, Option.map_eq_none_iff] at hnone
    rw [hnone] at hrow
    cases hrow
  · intro convId attId dao hdao hrow
    dsimp only [initial] at hdao hrow
    rw [hfind] at hdao
    obtain ⟨r, hr, rfl⟩ := Option.map_eq_some_iff.mp hdao
    exact absurd hr hrow
  · intro convId hmem
    cases hmem

theorem Inv.consistent (h : Inv s pending) : s.Consistent pending := by
  have hcached : pending = 0 → ∀ convId attId, s.attachments.attachments.find? (convId, attId) =
      (AttachmentDao.draftRow s.db convId attId).map AttachmentDao.ofRow := by
    rintro rfl convId attId
    cases hfind : s.attachments.attachments.find? (convId, attId) with
    | none =>
      cases hrow : AttachmentDao.draftRow s.db convId attId with
      | none => rfl
      | some r =>
        have hmem := h.announced convId attId (by rw [hrow]; rfl) hfind
        cases hmem
    | some dao =>
      obtain ⟨r, rfl, -⟩ := h.loaded convId attId dao hfind
      by_cases hrow : AttachmentDao.draftRow s.db convId attId = some r
      · rw [hrow, Option.map_some]
      · have hmem := h.stale convId attId _ hfind hrow
        cases hmem
  refine ⟨h.quiet, hcached, ?_⟩
  intro hpending convId attId
  rw [h.listed, hcached hpending, Option.isSome_map]

/-- Handling the event of an attachment that was added raises nothing and keeps the lists if and only if the attachment
is still there and its key is not cached. -/
theorem handle_added_iff {convId attId : IdType} (hlisted : s.attachments.Listed) (hquiet : s.raised = []) :
    (handle (.draftAttachmentAdded convId attId) s).1.raised = [] ∧
        (handle (.draftAttachmentAdded convId attId) s).1.attachments.Listed ↔
      guard.handle (.draftAttachmentAdded convId attId) s pending := by
  have hload : AttachmentDao.load s.db true convId attId =
      (AttachmentDao.draftRow s.db convId attId).map AttachmentDao.ofRow := rfl
  cases hrow : AttachmentDao.draftRow s.db convId attId with
  | none =>
    rw [hrow] at hload
    simp [handle, apply, guard, DraftAttachmentsImpl.notify, DraftAttachmentsImpl.draftAttachmentAdded, hload, hrow]
  | some r =>
    rw [hrow] at hload
    obtain ⟨-, -, hconv, hindex⟩ := AttachmentDao.draftRow_eq_some.mp hrow
    have hkey : (r.messageId, r.index) = (convId, attId) := Prod.ext hconv hindex
    have hnotified : handle (.draftAttachmentAdded convId attId) s =
        ({ s with attachments := s.attachments.emplace (.ofRow r) }, []) := by
      subst hconv hindex
      simp only [handle, apply, DraftAttachmentsImpl.notify, DraftAttachmentsImpl.draftAttachmentAdded, hload,
        Option.map_some]
      rfl
    rw [hnotified]
    constructor
    · rintro ⟨-, hlisted'⟩
      refine ⟨by rw [hrow]; rfl, ?_⟩
      by_contra hcached
      obtain ⟨dao, hdao⟩ := Option.ne_none_iff_exists'.mp hcached
      have hcount := hlisted convId attId
      have hcount' := hlisted' convId attId
      subst hconv hindex
      have hids : (s.attachments.emplace (.ofRow r)).attIds r.messageId = s.attachments.attIds r.messageId ++ [r.index] :=
        Function.update_self _ _ _
      dsimp only at hcount'
      rw [hids, List.count_append, List.count_singleton_self, hcount, hdao] at hcount'
      rw [Option.isSome_some, if_pos rfl] at hcount'
      split at hcount' <;> omega
    · rintro ⟨-, hfree⟩
      exact ⟨hquiet, hlisted.emplace (by rw [← hkey] at hfree; exact hfree)⟩

/-- An attachment that is in the database leaves the cache with no event to come, where an event of its key is handled
against the guard. -/
theorem handle_removed_lost {convId attId : IdType} (hlisted : s.attachments.Listed)
    (hguard : ¬ guard.handle (.draftAttachmentRemoved convId attId) s pending) :
    (AttachmentDao.draftRow (handle (.draftAttachmentRemoved convId attId) s).1.db convId attId).isSome = true ∧
      (handle (.draftAttachmentRemoved convId attId) s).1.attachments.attachments.find? (convId, attId) = none ∧
      .draftAttachmentAdded convId attId ∉ pending := by
  simp only [guard, Classical.not_imp] at hguard
  obtain ⟨hcached, hrow, hnot⟩ := hguard
  obtain ⟨dao, hdao⟩ := Option.isSome_iff_exists.mp hcached
  simp only [handle, DraftAttachmentsImpl.notify, DraftAttachmentsImpl.draftAttachmentRemoved, hlisted.doRemove hdao]
  refine ⟨hrow, ?_, hnot⟩
  dsimp only [apply]
  rw [DraftAttachmentsImpl.find?_erase, if_pos rfl]

def user : KulloAddress := .alice

end DraftAttachmentsSession

end KulloClient
