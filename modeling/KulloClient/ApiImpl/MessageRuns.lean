import KulloClient.ApiImpl.MessagesImpl
import KulloClient.Sync.MessageRows

/-!
# The message cache over a run

The main thread changes and removes messages and handles the events; the syncer adds, modifies and deletes messages in
transactions of its own, between which the main thread may run.  A message is put into the cache by `MessageAdded`, once,
and a message that is deleted on the server stays there until the `MessageRemoved` behind it is handled.
-/

namespace KulloClient

open Relational (Table)
open Transition (EventLoop)
open Imperative

structure MessagesSession where
  db : Db
  messages : MessagesImpl
  /-- The dao `downloadAndProcessMessages` has loaded for the message it processes. -/
  loc : Option MessageDao := none
  /-- The messages the user has removed. -/
  removed : List IdType := []
  /-- What the operations and the handlers have raised. -/
  raised : List Exn := []

inductive MessagesOp
  | setState (state : MessageState) (msgId : IdType) (value : Bool)
  | remove (msgId : IdType)
  | triggerRemoval (convId : IdType)
  /-- `downloadAndProcessMessages` loads the local version of a message. -/
  | load (msgId : IdType)
  | downloadPublicKey (address : KulloAddress) (answer : MessagesSyncer.PublicKeyAnswer)
  | handleNewTombstone (httpMsg : HttpMessage)
  | handleNewMessage (decryptedMessage : DecryptedMessage)
  | handleDeletedMessage (httpMsg : HttpMessage)
  | handleModifiedMessage (decryptedMessage : DecryptedMessage)
  | handleSuccessfulModification (idlm : IdLastModified)
  /-- The transaction of `MessagesUploader`. -/
  | store (dateSent : String) (draft : DraftDao) (conv : ConversationRow) (msgSent : MessageSent)
      (delivery : List KulloAddress)
  /-- The end of a sending of `MessagesSender`, with the reason of a failure. -/
  | markDelivery (convId msgId : IdType) (recipient : KulloAddress) (date : String) (reason : Option Delivery.Reason)

namespace MessagesSession

def thread : MessagesOp → SessionThread
  | .setState .. | .remove _ | .triggerRemoval _ => .main
  | _ => .syncer

/-- What an operation or a handler of the cache leaves behind. -/
def apply (s : MessagesSession) (e : MessagesImpl.Effect) : MessagesSession :=
  { s with
    db := e.db
    messages := e.messages
    removed := e.removed ++ s.removed
    raised := e.raised.toList ++ s.raised }

/-- The events of a message that was added. -/
def addedEvents (added : MessagesSyncer.Added) : List Event :=
  [.senderAdded added.convId added.msg.id, .messageAdded added.convId added.msg.id,
    if added.newConversation then .conversationAdded added.convId else .conversationModified added.convId]

/-- The events of a message that was merged. -/
def mergedEvents (merged : MessagesSyncer.Merged) : List Event :=
  (if merged.localModified then [.messageModified merged.msg.conversationId merged.msg.id] else []) ++
    (if merged.stateModified then [.conversationModified merged.msg.conversationId] else [])

variable (P : Platform) (userAddress : KulloAddress)

/-- A transaction that raises leaves no trace. -/
def perform (op : MessagesOp) (s : MessagesSession) : Option (MessagesSession × List Event) :=
  match op with
  | .setState state msgId value =>
    let e := (s.messages.setState s.db state msgId value).2
    some (s.apply e, e.events)
  | .remove msgId =>
    let e := s.messages.remove s.db msgId
    some (s.apply e, e.events)
  | .triggerRemoval convId => some (s, [.conversationWillBeRemoved convId])
  | .load msgId => some ({ s with loc := MessageDao.load s.db msgId false }, [])
  | .downloadPublicKey address answer =>
    match MessagesSyncer.storePublicKey address answer s.db with
    | .ok db => some ({ s with db := db }, [])
    | .error _ => none
  | .handleNewTombstone httpMsg =>
    match MessagesSyncer.newTombstone httpMsg s.db with
    | .ok db => some ({ s with db := db }, [])
    | .error _ => none
  | .handleNewMessage decryptedMessage =>
    match MessageDecoder.decode P s.db userAddress decryptedMessage with
    | .error _ => none
    | .ok decoder =>
      match MessagesSyncer.addNewMessage P decoder s.db with
      | .ok (added, db) => some ({ s with db := db }, addedEvents added)
      | .error _ => none
  | .handleDeletedMessage httpMsg =>
    -- only the message loaded before is at hand
    match s.loc.filter (fun loc => loc.row.id == httpMsg.id) with
    | none => none
    | some loc =>
      match MessagesSyncer.clearLocal httpMsg loc s.db with
      | .ok db =>
        some ({ s with db := db, loc := none }, [.messageRemoved loc.row.conversationId loc.row.id])
      | .error _ => none
  | .handleModifiedMessage decryptedMessage =>
    match s.loc.filter (fun loc => loc.row.id == decryptedMessage.id),
      MessageDecoder.decode P s.db userAddress decryptedMessage with
    | some loc, .ok decoder =>
      match MessagesSyncer.merge decoder.message loc s.db with
      | .ok (merged, db) => some ({ s with db := db, loc := none }, mergedEvents merged)
      | .error _ => none
    | _, _ => none
  | .handleSuccessfulModification idlm =>
    match MessagesSyncer.applyModification idlm s.db with
    | .ok (msg, db) =>
      some ({ s with db := db }, if msg.deleted then [] else [.messageModified msg.conversationId msg.id])
    | .error _ => none
  | .store dateSent draft conv msgSent delivery =>
    match MessagesUploader.store P userAddress dateSent draft (.ofRow conv) msgSent delivery s.db with
    | .ok (added, _, db) => some ({ s with db := db }, addedEvents added)
    | .error _ => none
  | .markDelivery convId msgId recipient date reason =>
    let db := match reason with
      | none => DeliveryDao.markAsDelivered s.db msgId recipient date
      | some reason => DeliveryDao.markAsFailed s.db msgId recipient date reason
    some ({ s with db := db }, [.messageModified convId msgId])

def handle (e : Event) (s : MessagesSession) : MessagesSession × List Event :=
  let effect := s.messages.notify s.db e
  (s.apply effect, effect.events)

/-- The session of a user. -/
def loop : EventLoop SessionThread MessagesOp Event MessagesSession where
  main := .main
  thread := thread
  perform := perform P userAddress
  handle := handle

/-- The session after its construction. -/
def initial (db : Db) : EventLoop.State SessionThread Event MessagesSession where
  data := { db := db, messages := .construct db }

/-! ### What a run is asked for -/

/-- The cached messages are listed once under their conversations and are not deleted once the events are handled; what
the user has removed is not there; and the assertion on the list of a conversation holds. -/
structure Consistent (s : MessagesSession) (pending : Multiset Event) : Prop where
  listed : s.messages.Listed
  alive : pending = 0 → ∀ msgId dao, s.messages.messages.find? msgId = some dao →
    ∃ row, currentRow s.db msgId = some row ∧ row.deleted = false
  gone : ∀ msgId ∈ s.removed, s.messages.messages.find? msgId = none
  asserted : .assertionFailed "idIter != idsForConv.end()" ∉ s.raised

/-- A modified message is handled while it is cached under the conversation its row has. -/
def guard : EventLoop.Guard MessagesOp Event MessagesSession where
  perform _ _ _ := True
  handle e s _ :=
    match e with
    | .messageModified _ msgId => ∃ dao row, s.messages.messages.find? msgId = some dao ∧
        currentRow s.db msgId = some row ∧ row.conversationId = dao.row.conversationId
    | _ => True

/-! ### The invariant -/

variable {s : MessagesSession} {line : List Event}

/-- The messages that are yet to be added to the cache. -/
def addedIds (line : List Event) : List IdType :=
  line.filterMap fun
    | .messageAdded _ msgId => some msgId
    | _ => none

/-- A message that is deleted: it leaves the cache with a `MessageRemoved`, which is behind its `MessageAdded`. -/
structure RemovalAnnounced (c : MessagesImpl) (line : List Event) (msgId : IdType) : Prop where
  cached : (c.messages.find? msgId).isSome = true → ∃ convId, .messageRemoved convId msgId ∈ line
  added : msgId ∈ addedIds line →
    ∃ convId convId', [.messageAdded convId msgId, .messageRemoved convId' msgId].Sublist line

structure Inv (s : MessagesSession) (line : List Event) : Prop where
  listed : s.messages.Listed
  cached : ∀ msgId dao, s.messages.messages.find? msgId = some dao →
    MessagesSyncer.Loaded dao ∧ (currentRow s.db msgId).isSome = true ∧
      (dao.row.deleted = true → ∃ convId, .messageRemoved convId msgId ∈ line)
  added : ∀ msgId ∈ addedIds line, (currentRow s.db msgId).isSome = true ∧
    s.messages.messages.find? msgId = none ∧ msgId ∉ s.removed
  addedOnce : (addedIds line).Nodup
  deleted : ∀ msgId row, currentRow s.db msgId = some row → row.deleted = true →
    RemovalAnnounced s.messages line msgId
  gone : ∀ msgId ∈ s.removed, s.messages.messages.find? msgId = none ∧ (currentRow s.db msgId).isSome = true
  loaded : ∀ loc, s.loc = some loc → MessagesSyncer.Loaded loc ∧ (currentRow s.db loc.row.id).isSome = true ∧
    (loc.row.deleted = true → RemovalAnnounced s.messages line loc.row.id)
  asserted : .assertionFailed "idIter != idsForConv.end()" ∉ s.raised

/-! #### The events on their way -/

private theorem addedIds_append (line line' : List Event) : addedIds (line ++ line') = addedIds line ++ addedIds line' :=
  List.filterMap_append

private theorem mem_addedIds {msgId : IdType} : msgId ∈ addedIds line ↔ ∃ convId, .messageAdded convId msgId ∈ line := by
  unfold addedIds
  rw [List.mem_filterMap]
  constructor
  · rintro ⟨e, he, h⟩
    split at h
    · cases h
      exact ⟨_, he⟩
    · cases h
  · rintro ⟨convId, h⟩
    exact ⟨_, h, rfl⟩

/-- An event that adds no message. -/
def Foreign (e : Event) : Prop := addedIds [e] = []

private theorem addedIds_of_foreign {es : List Event} (h : ∀ e ∈ es, Foreign e) : addedIds es = [] := by
  induction es with
  | nil => rfl
  | cons e es ih =>
    have hcons : e :: es = [e] ++ es := rfl
    rw [hcons, addedIds_append, h e List.mem_cons_self, ih fun e he => h e (List.mem_cons_of_mem _ he), List.nil_append]

/-- A longer line with no other message to be added announces as much. -/
theorem RemovalAnnounced.mono {c : MessagesImpl} {line' : List Event} {msgId : IdType}
    (h : RemovalAnnounced c line msgId) (hsub : line.Sublist line')
    (hadded : msgId ∈ addedIds line' → msgId ∈ addedIds line) : RemovalAnnounced c line' msgId := by
  constructor
  · intro hcached
    obtain ⟨convId, hremoved⟩ := h.cached hcached
    exact ⟨convId, hsub.subset hremoved⟩
  · intro hmem
    obtain ⟨convId, convId', hboth⟩ := h.added (hadded hmem)
    exact ⟨convId, convId', hboth.trans hsub⟩

/-- A longer line, in which the messages that are to be added are the same. -/
theorem Inv.longer (h : Inv s line) {line' : List Event} (hsub : line.Sublist line')
    (hids : addedIds line' = addedIds line) : Inv s line' := by
  have hannounced : ∀ msgId, RemovalAnnounced s.messages line msgId → RemovalAnnounced s.messages line' msgId :=
    fun msgId hmsg => hmsg.mono hsub (fun hmem => hids ▸ hmem)
  refine ⟨h.listed, ?_, ?_, ?_, ?_, h.gone, ?_, h.asserted⟩
  · intro msgId dao hcached
    obtain ⟨hloaded, hrow, hremoved⟩ := h.cached msgId dao hcached
    refine ⟨hloaded, hrow, ?_⟩
    intro hdeleted
    obtain ⟨convId, hmem⟩ := hremoved hdeleted
    exact ⟨convId, hsub.subset hmem⟩
  · intro msgId hmem
    exact h.added msgId (hids ▸ hmem)
  · rw [hids]
    exact h.addedOnce
  · intro msgId row hrow hdeleted
    exact hannounced msgId (h.deleted msgId row hrow hdeleted)
  · intro loc hloc
    obtain ⟨hloaded, hrow, hdeleted⟩ := h.loaded loc hloc
    exact ⟨hloaded, hrow, fun hdel => hannounced _ (hdeleted hdel)⟩

theorem Inv.append (h : Inv s line) {es : List Event} (hes : ∀ e ∈ es, Foreign e) : Inv s (line ++ es) := by
  apply h.longer (List.sublist_append_left line es)
  rw [addedIds_append, addedIds_of_foreign hes, List.append_nil]

/-- An event of another thread comes into the queue. -/
theorem Inv.put {q o : List Event} {e : Event} (he : Foreign e) (h : Inv s (q ++ o)) : Inv s (q ++ e :: o) := by
  have hcons : q ++ e :: o = q ++ ([e] ++ o) := rfl
  apply h.longer
  · rw [hcons]
    exact List.Sublist.append_left (List.sublist_append_right [e] o) q
  · rw [hcons, addedIds_append, addedIds_append, addedIds_append, he, List.nil_append]

/-- An event that neither adds nor removes a message leaves the queue. -/
theorem Inv.drop {e : Event} (h : Inv s (e :: line)) (he : Foreign e)
    (hremoved : ∀ convId msgId, e ≠ .messageRemoved convId msgId) : Inv s line := by
  have hids : addedIds (e :: line) = addedIds line := by
    have hcons : e :: line = [e] ++ line := rfl
    rw [hcons, addedIds_append, he, List.nil_append]
  have hmem : ∀ {convId msgId}, .messageRemoved convId msgId ∈ e :: line → .messageRemoved convId msgId ∈ line := by
    intro convId msgId hmem
    rcases List.mem_cons.mp hmem with rfl | hmem
    · exact absurd rfl (hremoved convId msgId)
    · exact hmem
  have hannounced : ∀ msgId, RemovalAnnounced s.messages (e :: line) msgId → RemovalAnnounced s.messages line msgId := by
    intro msgId hmsg
    constructor
    · intro hcached
      obtain ⟨convId, hremoved⟩ := hmsg.cached hcached
      exact ⟨convId, hmem hremoved⟩
    · intro hadded
      obtain ⟨convId, convId', hboth⟩ := hmsg.added (hids ▸ hadded)
      refine ⟨convId, convId', ?_⟩
      cases hboth with
      | cons _ hboth => exact hboth
      | cons_cons _ _ => exact absurd he (by simp [Foreign, addedIds])
  refine ⟨h.listed, ?_, ?_, ?_, ?_, h.gone, ?_, h.asserted⟩
  · intro msgId dao hcached
    obtain ⟨hloaded, hrow, hremoved⟩ := h.cached msgId dao hcached
    refine ⟨hloaded, hrow, ?_⟩
    intro hdeleted
    obtain ⟨convId, hconv⟩ := hremoved hdeleted
    exact ⟨convId, hmem hconv⟩
  · intro msgId hmem
    exact h.added msgId (hids ▸ hmem)
  · rw [← hids]
    exact h.addedOnce
  · intro msgId row hrow hdeleted
    exact hannounced msgId (h.deleted msgId row hrow hdeleted)
  · intro loc hloc
    obtain ⟨hloaded, hrow, hdeleted⟩ := h.loaded loc hloc
    exact ⟨hloaded, hrow, fun hdel => hannounced _ (hdeleted hdel)⟩

/-! #### The transactions of the syncer -/

/-- A transaction that writes rows of messages, and deletes only what has its removal announced. -/
theorem Inv.write (h : Inv s line) {db : Db} {es : List Event} (hes : ∀ e ∈ es, Foreign e)
    (hrows : ∀ msgId, (currentRow s.db msgId).isSome = true → (currentRow db msgId).isSome = true)
    (hdeleted : ∀ msgId row, currentRow db msgId = some row → row.deleted = true →
      RemovalAnnounced s.messages (line ++ es) msgId) :
    Inv { s with db := db } (line ++ es) := by
  have h' := h.append hes
  refine ⟨h'.listed, ?_, ?_, h'.addedOnce, hdeleted, ?_, ?_, h'.asserted⟩
  · intro msgId dao hcached
    obtain ⟨hloaded, hrow, hremoved⟩ := h'.cached msgId dao hcached
    exact ⟨hloaded, hrows msgId hrow, hremoved⟩
  · intro msgId hmem
    obtain ⟨hrow, hfree, hremoved⟩ := h'.added msgId hmem
    exact ⟨hrows msgId hrow, hfree, hremoved⟩
  · intro msgId hmem
    obtain ⟨hfree, hrow⟩ := h'.gone msgId hmem
    exact ⟨hfree, hrows msgId hrow⟩
  · intro loc hloc
    obtain ⟨hloaded, hrow, hdel⟩ := h'.loaded loc hloc
    exact ⟨hloaded, hrows _ hrow, hdel⟩

private theorem Inv.unload (h : Inv s line) : Inv { s with loc := none } line := by
  refine ⟨h.listed, h.cached, h.added, h.addedOnce, h.deleted, h.gone, ?_, h.asserted⟩
  intro loc hloc
  cases hloc

theorem Inv.load (h : Inv s line) (msgId : IdType) :
    Inv { s with loc := MessageDao.load s.db msgId false } line := by
  refine ⟨h.listed, h.cached, h.added, h.addedOnce, h.deleted, h.gone, ?_, h.asserted⟩
  intro loc hloc
  obtain ⟨hloaded, hid, hrow⟩ := MessagesSyncer.loaded_of_load hloc
  rw [hid]
  exact ⟨hloaded, Option.isSome_iff_exists.mpr ⟨_, hrow⟩, fun hdeleted => h.deleted msgId loc.row hrow hdeleted⟩

/-- Saving a dao of the syncer deletes no message anew. -/
theorem Inv.saves (h : Inv s line) {loc : MessageDao} {dirty : Bool} {row : MessageRow} {db : Db} {es : List Event}
    (hes : ∀ e ∈ es, Foreign e)
    (hdel : loc.row.deleted = true → RemovalAnnounced s.messages line loc.row.id)
    (hsaves : MessagesSyncer.Saves loc dirty row s.db db) : Inv { s with db := db } (line ++ es) := by
  obtain ⟨hrows, -, -, hdeleted, -⟩ := hsaves
  have hlonger : ∀ msgId, RemovalAnnounced s.messages line msgId → RemovalAnnounced s.messages (line ++ es) msgId := by
    intro msgId hmsg
    apply hmsg.mono (List.sublist_append_left line es)
    rw [addedIds_append, addedIds_of_foreign hes, List.append_nil]
    exact id
  apply h.write hes
  · intro msgId hrow
    rw [hrows]
    split
    · rw [Option.isSome_map, hrow]
    · exact hrow
  · intro msgId row' hrow' hdel'
    rw [hrows] at hrow'
    apply hlonger
    split at hrow'
    · next hcond =>
      obtain ⟨_, -, rfl⟩ := Option.map_eq_some_iff.mp hrow'
      rw [← hcond.2]
      exact hdel (hdeleted ▸ hdel')
    · exact h.deleted msgId row' hrow' hdel'

/-- A message that is deleted on the server. -/
theorem Inv.deletes (h : Inv s line) {loc : MessageDao} {db : Db} {convId : IdType}
    (hdeletes : MessagesSyncer.Deletes loc s.db db) :
    Inv { s with db := db } (line ++ [.messageRemoved convId loc.row.id]) := by
  obtain ⟨hothers, hrow, -⟩ := hdeletes
  have hes : ∀ e ∈ [Event.messageRemoved convId loc.row.id], Foreign e := by
    intro e he
    rw [List.mem_singleton.mp he]
    rfl
  have hids : addedIds (line ++ [.messageRemoved convId loc.row.id]) = addedIds line := by
    rw [addedIds_append, addedIds_of_foreign hes, List.append_nil]
  have hown : RemovalAnnounced s.messages (line ++ [.messageRemoved convId loc.row.id]) loc.row.id := by
    constructor
    · intro _
      exact ⟨convId, List.mem_append_right _ List.mem_cons_self⟩
    · intro hadded
      rw [hids] at hadded
      obtain ⟨convId', hmem⟩ := mem_addedIds.mp hadded
      exact ⟨convId', convId, List.Sublist.append (List.singleton_sublist.mpr hmem) (List.Sublist.refl _)⟩
  apply h.write hes
  · intro msgId hsome
    by_cases hid : msgId = loc.row.id
    · subst hid
      rcases hrow with ⟨-, hsame⟩ | ⟨row, -, hrow⟩
      · rw [hsame]
        exact hsome
      · rw [hrow, Option.isSome_map, hsome]
    · rw [hothers msgId hid]
      exact hsome
  · intro msgId row' hrow' hdel'
    by_cases hid : msgId = loc.row.id
    · rw [hid]
      exact hown
    · rw [hothers msgId hid] at hrow'
      apply (h.deleted msgId row' hrow' hdel').mono (List.sublist_append_left _ _)
      rw [hids]
      exact id

/-- A message that is new, and its event. -/
theorem Inv.announce (h : Inv s line) {msgId convId : IdType} {row : MessageRow}
    (hrow : currentRow s.db msgId = some row) (halive : row.deleted = false)
    (hfree : s.messages.messages.find? msgId = none) (hremoved : msgId ∉ s.removed) (hadded : msgId ∉ addedIds line)
    (hloc : ∀ loc, s.loc = some loc → loc.row.id ≠ msgId) : Inv s (line ++ [.messageAdded convId msgId]) := by
  have hids : addedIds (line ++ [.messageAdded convId msgId]) = addedIds line ++ [msgId] := addedIds_append _ _
  have hannounced : ∀ msgId', msgId' ≠ msgId → RemovalAnnounced s.messages line msgId' →
      RemovalAnnounced s.messages (line ++ [.messageAdded convId msgId]) msgId' := by
    intro msgId' hne hmsg
    apply hmsg.mono (List.sublist_append_left _ _)
    rw [hids, List.mem_append, List.mem_singleton]
    rintro (hmem | hmem)
    · exact hmem
    · exact absurd hmem hne
  refine ⟨h.listed, ?_, ?_, ?_, ?_, h.gone, ?_, h.asserted⟩
  · intro msgId' dao hcached
    obtain ⟨hloaded, hsome, hdel⟩ := h.cached msgId' dao hcached
    refine ⟨hloaded, hsome, ?_⟩
    intro hdeleted
    obtain ⟨convId', hmem⟩ := hdel hdeleted
    exact ⟨convId', List.mem_append_left _ hmem⟩
  · intro msgId' hmem
    rw [hids, List.mem_append, List.mem_singleton] at hmem
    rcases hmem with hmem | rfl
    · exact h.added msgId' hmem
    · exact ⟨Option.isSome_iff_exists.mpr ⟨row, hrow⟩, hfree, hremoved⟩
  · rw [hids, List.nodup_append]
    refine ⟨h.addedOnce, List.nodup_singleton _, ?_⟩
    rintro a ha b hb rfl
    exact hadded (List.mem_singleton.mp hb ▸ ha)
  · intro msgId' row' hrow' hdel'
    apply hannounced
    · rintro rfl
      rw [hrow] at hrow'
      cases hrow'
      rw [halive] at hdel'
      cases hdel'
    · exact h.deleted msgId' row' hrow' hdel'
  · intro loc hloc'
    obtain ⟨hloaded, hsome, hdel⟩ := h.loaded loc hloc'
    exact ⟨hloaded, hsome, fun hdeleted => hannounced _ (hloc loc hloc') (hdel hdeleted)⟩

/-- A message that a transaction adds. -/
theorem Inv.adds (h : Inv s line) {message : MessageDao} {conv : ConversationDao} {added : MessagesSyncer.Added}
    {db : Db} (hadds : MessagesSyncer.Adds message conv added s.db db) (halive : message.row.deleted = false) :
    Inv { s with db := db } (line ++ addedEvents added) := by
  have hnone : ¬ (currentRow s.db message.row.id).isSome = true := by
    rw [hadds.free]
    exact Bool.noConfusion
  -- the row is written while its sender is announced
  have hwritten : Inv { s with db := db } (line ++ [.senderAdded added.convId added.msg.id]) := by
    apply h.write
    · intro e he
      rw [List.mem_singleton.mp he]
      rfl
    · intro msgId hsome
      rw [hadds.row]
      split
      · rfl
      · exact hsome
    · intro msgId row hrow hdel
      rw [hadds.row] at hrow
      split at hrow
      · cases hrow
        rw [hadds.deleted, halive] at hdel
        cases hdel
      · have hmono := (h.deleted msgId row hrow hdel).mono
          (List.sublist_append_left line [.senderAdded added.convId added.msg.id])
        apply hmono
        rw [addedIds_append]
        intro hmem
        simpa [addedIds] using hmem
  -- and it is neither cached nor announced before its own event
  have hannounced : Inv { s with db := db } ((line ++ [.senderAdded added.convId added.msg.id]) ++
      [.messageAdded added.convId added.msg.id]) := by
    rw [hadds.id]
    rw [hadds.id] at hwritten
    apply hwritten.announce
    · change currentRow db message.row.id = some added.msg
      rw [hadds.row, if_pos rfl]
    · rw [hadds.deleted, halive]
    · cases hcached : s.messages.messages.find? message.row.id with
      | none => rfl
      | some dao => exact absurd (h.cached _ dao hcached).2.1 hnone
    · intro hmem
      exact hnone (h.gone _ hmem).2
    · rw [addedIds_append]
      intro hmem
      have hmem' : message.row.id ∈ addedIds line := by simpa [addedIds] using hmem
      exact hnone (h.added _ hmem').1
    · intro loc hloc hid
      exact hnone (hid ▸ (h.loaded loc hloc).2.1)
  have hforeign : ∀ e ∈ [if added.newConversation then Event.conversationAdded added.convId
      else .conversationModified added.convId], Foreign e := by
    intro e he
    rw [List.mem_singleton.mp he]
    split <;> rfl
  have hall := hannounced.append hforeign
  rw [List.append_assoc, List.append_assoc] at hall
  exact hall

/-! #### The cache -/

/-- A message leaves the cache. -/
theorem Inv.erase (h : Inv s line) {dao : MessageDao} (hcached : s.messages.messages.find? dao.row.id = some dao) :
    Inv { s with messages := s.messages.erase dao } line := by
  have hfind : ∀ {msgId dao'}, (s.messages.erase dao).messages.find? msgId = some dao' →
      s.messages.messages.find? msgId = some dao' := by
    intro msgId dao' hfind
    rw [MessagesImpl.find?_erase] at hfind
    split at hfind
    · cases hfind
    · exact hfind
  have hnone : ∀ {msgId}, s.messages.messages.find? msgId = none →
      (s.messages.erase dao).messages.find? msgId = none := by
    intro msgId hfree
    rw [MessagesImpl.find?_erase]
    split
    · rfl
    · exact hfree
  have hannounced : ∀ msgId, RemovalAnnounced s.messages line msgId →
      RemovalAnnounced (s.messages.erase dao) line msgId := by
    intro msgId hmsg
    refine ⟨?_, hmsg.added⟩
    intro hsome
    obtain ⟨dao', hdao'⟩ := Option.isSome_iff_exists.mp hsome
    exact hmsg.cached (Option.isSome_iff_exists.mpr ⟨dao', hfind hdao'⟩)
  refine ⟨h.listed.erase hcached, ?_, ?_, h.addedOnce, ?_, ?_, ?_, h.asserted⟩
  · intro msgId dao' hdao'
    exact h.cached msgId dao' (hfind hdao')
  · intro msgId hmem
    obtain ⟨hrow, hfree, hremoved⟩ := h.added msgId hmem
    exact ⟨hrow, hnone hfree, hremoved⟩
  · intro msgId row hrow hdel
    exact hannounced msgId (h.deleted msgId row hrow hdel)
  · intro msgId hmem
    obtain ⟨hfree, hrow⟩ := h.gone msgId hmem
    exact ⟨hnone hfree, hrow⟩
  · intro loc hloc
    obtain ⟨hloaded, hrow, hdel⟩ := h.loaded loc hloc
    exact ⟨hloaded, hrow, fun hdeleted => hannounced _ (hdel hdeleted)⟩

/-- A `MessageRemoved` is of no use to a message that is not cached. -/
theorem Inv.dropRemoved {convId msgId : IdType} (h : Inv s (.messageRemoved convId msgId :: line))
    (hfree : s.messages.messages.find? msgId = none) : Inv s line := by
  have hids : addedIds (.messageRemoved convId msgId :: line) = addedIds line := rfl
  have hmem : ∀ {convId' msgId'}, msgId' ≠ msgId → .messageRemoved convId' msgId' ∈ Event.messageRemoved convId msgId :: line →
      .messageRemoved convId' msgId' ∈ line := by
    intro convId' msgId' hne hmem
    rcases List.mem_cons.mp hmem with heq | hmem
    · injection heq with _ hid
      exact absurd hid hne
    · exact hmem
  have hcached : ∀ {msgId'}, (s.messages.messages.find? msgId').isSome = true → msgId' ≠ msgId := by
    rintro msgId' hsome rfl
    rw [hfree] at hsome
    cases hsome
  have hannounced : ∀ msgId', RemovalAnnounced s.messages (.messageRemoved convId msgId :: line) msgId' →
      RemovalAnnounced s.messages line msgId' := by
    intro msgId' hmsg
    constructor
    · intro hsome
      obtain ⟨convId', hremoved⟩ := hmsg.cached hsome
      exact ⟨convId', hmem (hcached hsome) hremoved⟩
    · intro hadded
      obtain ⟨convId', convId'', hboth⟩ := hmsg.added hadded
      refine ⟨convId', convId'', ?_⟩
      cases hboth with
      | cons _ hboth => exact hboth
  refine ⟨h.listed, ?_, h.added, h.addedOnce, ?_, h.gone, ?_, h.asserted⟩
  · intro msgId' dao hdao
    obtain ⟨hloaded, hrow, hdel⟩ := h.cached msgId' dao hdao
    refine ⟨hloaded, hrow, ?_⟩
    intro hdeleted
    obtain ⟨convId', hremoved⟩ := hdel hdeleted
    exact ⟨convId', hmem (hcached (Option.isSome_iff_exists.mpr ⟨dao, hdao⟩)) hremoved⟩
  · intro msgId' row hrow hdel
    exact hannounced msgId' (h.deleted msgId' row hrow hdel)
  · intro loc hloc
    obtain ⟨hloaded, hrow, hdel⟩ := h.loaded loc hloc
    exact ⟨hloaded, hrow, fun hdeleted => hannounced _ (hdel hdeleted)⟩

/-- A cached dao is written over by one with the same conversation. -/
theorem Inv.refresh (h : Inv s line) {dao dao' : MessageDao}
    (hcached : s.messages.messages.find? dao.row.id = some dao) (hloaded : MessagesSyncer.Loaded dao')
    (hconv : dao'.row.conversationId = dao.row.conversationId)
    (hdel : dao'.row.deleted = true → ∃ convId, .messageRemoved convId dao.row.id ∈ line)
    {messages : Table (fun dao : MessageDao => dao.row.id)}
    (hmessages : ∀ msgId, messages.find? msgId =
      if dao.row.id = msgId then some dao' else s.messages.messages.find? msgId) :
    Inv { s with messages := { s.messages with messages := messages } } line := by
  have hsome : ∀ msgId, (messages.find? msgId).isSome = (s.messages.messages.find? msgId).isSome := by
    intro msgId
    rw [hmessages]
    split
    · next hid =>
      rw [← hid, hcached]
      rfl
    · rfl
  have hnone : ∀ {msgId}, s.messages.messages.find? msgId = none → messages.find? msgId = none := by
    intro msgId hfree
    have := hsome msgId
    rw [hfree] at this
    simpa using this
  have hannounced : ∀ msgId, RemovalAnnounced s.messages line msgId →
      RemovalAnnounced { s.messages with messages := messages } line msgId := by
    intro msgId hmsg
    refine ⟨?_, hmsg.added⟩
    intro hcached'
    exact hmsg.cached ((hsome msgId).symm.trans hcached')
  refine ⟨h.listed.replace hcached hconv hmessages, ?_, ?_, h.addedOnce, ?_, ?_, ?_, h.asserted⟩
  · intro msgId dao'' hdao''
    change messages.find? msgId = some dao'' at hdao''
    rw [hmessages] at hdao''
    split at hdao''
    · next hid =>
      cases hdao''
      rw [← hid]
      exact ⟨hloaded, (h.cached _ _ hcached).2.1, hdel⟩
    · exact h.cached msgId dao'' hdao''
  · intro msgId hmem
    obtain ⟨hrow, hfree, hremoved⟩ := h.added msgId hmem
    exact ⟨hrow, hnone hfree, hremoved⟩
  · intro msgId row hrow hdeleted
    exact hannounced msgId (h.deleted msgId row hrow hdeleted)
  · intro msgId hmem
    obtain ⟨hfree, hrow⟩ := h.gone msgId hmem
    exact ⟨hnone hfree, hrow⟩
  · intro loc hloc
    obtain ⟨hloaded', hrow, hdeleted⟩ := h.loaded loc hloc
    exact ⟨hloaded', hrow, fun hdel' => hannounced _ (hdeleted hdel')⟩

/-- A message comes into the cache. -/
theorem Inv.insert {convId : IdType} {dao : MessageDao} {ids : List IdType}
    (h : Inv s (.messageAdded convId dao.row.id :: line)) (hrow : currentRow s.db dao.row.id = some dao.row)
    (hloaded : MessagesSyncer.Loaded dao)
    (hids : ids.Perm (s.messages.idsForConvId dao.row.conversationId ++ [dao.row.id])) :
    Inv { s with messages :=
      { idsForConvId := Function.update s.messages.idsForConvId dao.row.conversationId ids
        messages := s.messages.messages.insertOrIgnore dao } } line := by
  have haddedIds : addedIds (.messageAdded convId dao.row.id :: line) = dao.row.id :: addedIds line := rfl
  obtain ⟨-, hfree, hremoved⟩ := h.added dao.row.id (by rw [haddedIds]; exact List.mem_cons_self)
  have honce := h.addedOnce
  rw [haddedIds, List.nodup_cons] at honce
  have hfind : ∀ msgId, (s.messages.messages.insertOrIgnore dao).find? msgId =
      if dao.row.id = msgId then some dao else s.messages.messages.find? msgId := by
    intro msgId
    rw [Table.find?_insertOrIgnore]
    split
    · next hid => rw [← hid, hfree, Option.getD_none]
    · rfl
  have hmem : ∀ {convId' msgId'}, .messageRemoved convId' msgId' ∈ Event.messageAdded convId dao.row.id :: line →
      .messageRemoved convId' msgId' ∈ line := by
    intro convId' msgId' hmem
    rcases List.mem_cons.mp hmem with heq | hmem
    · cases heq
    · exact hmem
  -- a removal announced for the cached message stays so: its event comes later
  have hannounced : ∀ msgId', RemovalAnnounced s.messages (.messageAdded convId dao.row.id :: line) msgId' →
      RemovalAnnounced
        { idsForConvId := Function.update s.messages.idsForConvId dao.row.conversationId ids
          messages := s.messages.messages.insertOrIgnore dao } line msgId' := by
    intro msgId' hmsg
    by_cases hid : dao.row.id = msgId'
    · subst hid
      obtain ⟨convId', convId'', hboth⟩ := hmsg.added (by rw [haddedIds]; exact List.mem_cons_self)
      refine ⟨fun _ => ⟨convId'', ?_⟩, fun hadded => absurd hadded honce.1⟩
      exact hmem (hboth.subset (List.mem_cons_of_mem _ List.mem_cons_self))
    · constructor
      · intro hsome
        dsimp only at hsome
        rw [hfind, if_neg hid] at hsome
        obtain ⟨convId', hremoved'⟩ := hmsg.cached hsome
        exact ⟨convId', hmem hremoved'⟩
      · intro hadded
        obtain ⟨convId', convId'', hboth⟩ := hmsg.added (List.mem_cons_of_mem _ hadded)
        refine ⟨convId', convId'', ?_⟩
        cases hboth with
        | cons _ hboth => exact hboth
        | cons_cons _ _ => exact absurd rfl hid
  -- the parts of the invariant: listed, cached, added, deleted, gone, loaded
  refine ⟨h.listed.insert hfree hids, ?_, ?_, honce.2, ?_, ?_, ?_, h.asserted⟩
  · intro msgId dao' hdao'
    dsimp only at hdao'
    rw [hfind] at hdao'
    split at hdao'
    · next hid =>
      cases hdao'
      subst hid
      refine ⟨hloaded, Option.isSome_iff_exists.mpr ⟨_, hrow⟩, ?_⟩
      intro hdeleted
      apply (hannounced _ (h.deleted _ _ hrow hdeleted)).cached
      dsimp only
      rw [hfind, if_pos rfl]
      rfl
    · obtain ⟨hloaded', hrow', hdel⟩ := h.cached msgId dao' hdao'
      refine ⟨hloaded', hrow', ?_⟩
      intro hdeleted
      obtain ⟨convId', hremoved'⟩ := hdel hdeleted
      exact ⟨convId', hmem hremoved'⟩
  · intro msgId hadded
    obtain ⟨hrow', hfree', hremoved'⟩ := h.added msgId (List.mem_cons_of_mem _ hadded)
    refine ⟨hrow', ?_, hremoved'⟩
    dsimp only
    rw [hfind, if_neg, hfree']
    rintro rfl
    exact honce.1 hadded
  · intro msgId row hrow' hdeleted
    exact hannounced msgId (h.deleted msgId row hrow' hdeleted)
  · intro msgId hgone
    obtain ⟨hfree', hrow'⟩ := h.gone msgId hgone
    refine ⟨?_, hrow'⟩
    dsimp only
    rw [hfind, if_neg, hfree']
    rintro rfl
    exact hremoved hgone
  · intro loc hloc
    obtain ⟨hloaded', hrow', hdel⟩ := h.loaded loc hloc
    exact ⟨hloaded', hrow', fun hdeleted => hannounced _ (hdel hdeleted)⟩

/-! #### The operations of the main thread and the handlers -/

/-- Removing a message from the database writes its row. -/
theorem removeFromDb_spec {dao : MessageDao} (hloaded : MessagesSyncer.Loaded dao) (db : Db) :
    ∃ apiEvents db', MessagesImpl.removeFromDb dao db = .ok (apiEvents, db') ∧
      (∀ msgId, (currentRow db msgId).isSome = true → (currentRow db' msgId).isSome = true) ∧
      ∀ msgId, msgId ≠ dao.row.id → currentRow db' msgId = currentRow db msgId := by
  have hstays := dao.clearData_stays.trans (MessageDao.setDeleted_stays _ true)
  have hloaded' := hloaded.stays hstays
  obtain ⟨messages, hsave, hrows⟩ := MessageDao.save_stored hloaded'.storedInDb hloaded'.old .yes db
  refine ⟨[{ event := .messageRemoved, conversationId := dao.row.conversationId, messageId := dao.row.id }],
    { db with messages := messages }, ?_, ?_, ?_⟩
  · unfold MessagesImpl.removeFromDb
    rw [hsave]
    rfl
  · intro msgId hsome
    refine (congrArg Option.isSome (hrows msgId)).trans ?_
    split
    · rw [Option.isSome_map, hsome]
    · exact hsome
  · intro msgId hne
    refine (hrows msgId).trans ?_
    rw [if_neg]
    rintro ⟨-, hid⟩
    rw [hstays.id] at hid
    exact hne hid.symm

/-- The user removes a cached message. -/
theorem Inv.remove (h : Inv s line) {dao : MessageDao} (hcached : s.messages.messages.find? dao.row.id = some dao)
    {db : Db} (hrows : ∀ msgId, (currentRow s.db msgId).isSome = true → (currentRow db msgId).isSome = true)
    (hothers : ∀ msgId, msgId ≠ dao.row.id → currentRow db msgId = currentRow s.db msgId) :
    Inv { s with db := db, messages := s.messages.erase dao, removed := dao.row.id :: s.removed } line := by
  have herased := h.erase hcached
  have hfree : (s.messages.erase dao).messages.find? dao.row.id = none := by
    rw [MessagesImpl.find?_erase, if_pos rfl]
  have hnotAdded : dao.row.id ∉ addedIds line := by
    intro hmem
    have hnone := (h.added _ hmem).2.1
    rw [hcached] at hnone
    cases hnone
  have hwritten := @Inv.write _ _ herased db [] (by simp) hrows (by
    intro msgId row hrow hdel
    rw [List.append_nil]
    by_cases hid : msgId = dao.row.id
    · subst hid
      refine ⟨?_, fun hadded => absurd hadded hnotAdded⟩
      intro hsome
      rw [hfree] at hsome
      cases hsome
    · rw [hothers msgId hid] at hrow
      exact herased.deleted msgId row hrow hdel)
  rw [List.append_nil] at hwritten
  refine ⟨hwritten.listed, hwritten.cached, ?_, hwritten.addedOnce, hwritten.deleted, ?_, hwritten.loaded,
    hwritten.asserted⟩
  · intro msgId hmem
    obtain ⟨hrow, hnone, hremoved⟩ := hwritten.added msgId hmem
    refine ⟨hrow, hnone, ?_⟩
    intro hmem'
    rcases List.mem_cons.mp hmem' with rfl | hmem'
    · exact hnotAdded hmem
    · exact hremoved hmem'
  · intro msgId hmem
    rcases List.mem_cons.mp hmem with rfl | hmem
    · exact ⟨hfree, hrows _ (h.cached _ _ hcached).2.1⟩
    · exact hwritten.gone msgId hmem

theorem Inv.raise (h : Inv s line) {x : Option Exn}
    (hx : x ≠ some (.assertionFailed "idIter != idsForConv.end()")) :
    Inv { s with raised := x.toList ++ s.raised } line := by
  refine ⟨h.listed, h.cached, h.added, h.addedOnce, h.deleted, h.gone, h.loaded, ?_⟩
  intro hmem
  rcases List.mem_append.mp hmem with hmem | hmem
  · rw [Option.mem_toList] at hmem
    exact hx hmem
  · exact h.asserted hmem

private theorem assertId_ne {id : IdType} {name : String} {x : Exn}
    (hname : name ++ " >= Kullo::ID_MIN && " ++ name ++ " <= Kullo::ID_MAX" ≠ "idIter != idsForConv.end()")
    (h : assertId id name = .error x) : some x ≠ some (.assertionFailed "idIter != idsForConv.end()") := by
  rw [assertId_raises id name x h]
  intro hx
  injection hx with hx
  injection hx with hx
  exact hname hx

private theorem Inv.perform_remove (h : Inv s line) (msgId : IdType) :
    Inv (s.apply (s.messages.remove s.db msgId)) line ∧ ∀ e ∈ (s.messages.remove s.db msgId).events, Foreign e := by
  unfold MessagesImpl.remove
  cases hassert : assertId msgId "msgId" with
  | error x => exact ⟨h.raise (assertId_ne (by decide) hassert), by simp⟩
  | ok _ =>
    cases hcached : s.messages.messages.find? msgId with
    | none =>
      rw [MessagesImpl.removeFromCache_of_none hcached]
      exact ⟨h, by simp⟩
    | some dao =>
      obtain rfl := MessagesImpl.id_of_find? hcached
      rw [h.listed.removeFromCache hcached]
      obtain ⟨apiEvents, db, hdb, hrows, hothers⟩ := removeFromDb_spec (h.cached _ _ hcached).1 s.db
      dsimp only
      rw [hdb]
      refine ⟨h.remove hcached hrows hothers, ?_⟩
      intro e he
      simp only [List.mem_cons, List.not_mem_nil, or_false] at he
      rcases he with rfl | rfl | rfl <;> rfl

/-- A state of a cached message is written to the database and to the cache. -/
theorem Inv.save (h : Inv s line) {dao dao' : MessageDao} (hcached : s.messages.messages.find? dao.row.id = some dao)
    (hmerges : MessagesSyncer.Merges dao dao') (hloaded : MessagesSyncer.Loaded dao')
    {messages : Table MessageRow.key}
    (hrows : ∀ msgId, messages.find? (msgId, false) =
      if dao'.dirty = true ∧ dao'.row.id = msgId then (currentRow s.db msgId).map (fun _ => dao'.row)
      else currentRow s.db msgId) :
    Inv { s with db := { s.db with messages := messages }
                 messages := { s.messages with messages := s.messages.messages.replace { dao' with dirty := false } } }
      line := by
  have hremoved : dao'.row.deleted = true → ∃ convId, .messageRemoved convId dao.row.id ∈ line := by
    rw [hmerges.deleted]
    exact (h.cached _ _ hcached).2.2
  have hwritten := @Inv.write s line h { s.db with messages := messages } [] (by simp) (by
      intro msgId hsome
      refine (congrArg Option.isSome (hrows msgId)).trans ?_
      split
      · rw [Option.isSome_map, hsome]
      · exact hsome) (by
    intro msgId row hrow hdel
    rw [List.append_nil]
    have hrow' := (hrows msgId).symm.trans hrow
    split at hrow'
    · next hcond =>
      obtain ⟨_, -, rfl⟩ := Option.map_eq_some_iff.mp hrow'
      obtain rfl : dao.row.id = msgId := hmerges.id.symm.trans hcond.2
      refine ⟨fun _ => hremoved hdel, ?_⟩
      intro hadded
      have hnone := (h.added _ hadded).2.1
      rw [hcached] at hnone
      cases hnone
    · exact h.deleted msgId row hrow' hdel)
  rw [List.append_nil] at hwritten
  have hclean : MessagesSyncer.Loaded { dao' with dirty := false } := ⟨hloaded.storedInDb, hloaded.old⟩
  apply hwritten.refresh hcached hclean hmerges.conversationId hremoved
  intro msgId
  have hkey : ({ dao' with dirty := false } : MessageDao).row.id = dao.row.id := hmerges.id
  rw [Table.find?_replace, hkey]
  by_cases hid : dao.row.id = msgId
  · subst hid
    rw [if_pos rfl, if_pos rfl, hcached, Option.map_some]
  · rw [if_neg hid, if_neg hid]

private theorem Inv.perform_setState (h : Inv s line) (state : MessageState) (msgId : IdType) (value : Bool) :
    Inv (s.apply (s.messages.setState s.db state msgId value).2) line ∧
      ∀ e ∈ (s.messages.setState s.db state msgId value).2.events, Foreign e := by
  unfold MessagesImpl.setState
  cases hassert : assertId msgId "msgId" with
  | error x => exact ⟨h.raise (assertId_ne (by decide) hassert), by simp⟩
  | ok _ =>
    cases hcached : s.messages.messages.find? msgId with
    | none => exact ⟨h, by simp⟩
    | some dao =>
      obtain rfl := MessagesImpl.id_of_find? hcached
      dsimp only
      by_cases hvalue : dao.row.state state ≠ value
      · rw [if_pos hvalue]
        have hmerges := MessagesSyncer.setState_merges dao state value
        have hloaded := (h.cached _ _ hcached).1.stays hmerges.toStays
        revert hmerges hloaded
        generalize (dao.setState state value).2 = dao'
        intro hmerges hloaded
        obtain ⟨messages, hsave, hrows⟩ := MessageDao.save_stored hloaded.storedInDb hloaded.old .yes s.db
        rw [hsave]
        refine ⟨h.save hcached hmerges hloaded hrows, ?_⟩
        intro e he
        simp only [List.mem_cons, List.not_mem_nil, or_false] at he
        rcases he with rfl | rfl <;> rfl
      · rw [if_neg hvalue]
        exact ⟨h, by simp⟩

/-- The order in which the messages were removed is of no importance. -/
theorem Inv.sameRemoved (h : Inv s line) {removed : List IdType} (hsame : ∀ msgId, msgId ∈ s.removed ↔ msgId ∈ removed) :
    Inv { s with removed := removed } line := by
  refine ⟨h.listed, h.cached, ?_, h.addedOnce, h.deleted, ?_, h.loaded, h.asserted⟩
  · intro msgId hmem
    obtain ⟨hrow, hfree, hremoved⟩ := h.added msgId hmem
    exact ⟨hrow, hfree, mt (hsame msgId).mpr hremoved⟩
  · intro msgId hmem
    exact h.gone msgId ((hsame msgId).mpr hmem)

theorem Inv.removeMessages (h : Inv s line) (msgIds : List IdType) :
    Inv (s.apply (s.messages.removeMessages s.db msgIds)) line ∧
      ∀ e ∈ (s.messages.removeMessages s.db msgIds).events, Foreign e := by
  induction msgIds generalizing s with
  | nil =>
    unfold MessagesImpl.removeMessages
    exact ⟨h, by simp⟩
  | cons msgId msgIds ih =>
    unfold MessagesImpl.removeMessages
    cases hcached : s.messages.messages.find? msgId with
    | none =>
      rw [MessagesImpl.removeFromCache_of_none hcached]
      exact ih h
    | some dao =>
      obtain rfl := MessagesImpl.id_of_find? hcached
      rw [h.listed.removeFromCache hcached]
      obtain ⟨apiEvents, db, hdb, hrows, hothers⟩ := removeFromDb_spec (h.cached _ _ hcached).1 s.db
      dsimp only
      rw [hdb]
      dsimp only
      obtain ⟨hrest, hevents⟩ := ih (h.remove hcached hrows hothers)
      dsimp only at hrest hevents
      revert hrest hevents
      generalize (s.messages.erase dao).removeMessages db msgIds = rest
      intro hrest hevents
      refine ⟨hrest.sameRemoved ?_, ?_⟩
      · intro msgId
        simp only [MessagesSession.apply, List.mem_append, List.mem_cons]
        tauto
      · intro e he
        rcases List.mem_cons.mp he with rfl | he
        · rfl
        · exact hevents e he

theorem Inv.messageAdded {convId msgId : IdType} (h : Inv s (.messageAdded convId msgId :: line)) :
    Inv (s.apply (s.messages.messageAdded s.db msgId)) line := by
  have hmem : msgId ∈ addedIds (.messageAdded convId msgId :: line) := List.mem_cons_self
  obtain ⟨row, hrow⟩ := Option.isSome_iff_exists.mp (h.added msgId hmem).1
  have hload : MessageDao.load s.db msgId false = some (.ofRow row) := by
    unfold MessageDao.load
    rw [show s.db.messages.find? (msgId, false) = some row from hrow, Option.map_some]
  obtain ⟨hloaded, rfl, hcurrent⟩ := MessagesSyncer.loaded_of_load hload
  unfold MessagesImpl.messageAdded
  rw [hload]
  exact h.insert hcurrent hloaded (List.perm_insertionSort _ _)

theorem Inv.messageModified {convId msgId : IdType} (h : Inv s (.messageModified convId msgId :: line))
    {dao : MessageDao} {row : MessageRow} (hcached : s.messages.messages.find? msgId = some dao)
    (hrow : currentRow s.db msgId = some row) (hconv : row.conversationId = dao.row.conversationId) :
    Inv (s.apply (s.messages.messageModified s.db msgId)) line := by
  have h' := h.drop rfl (fun _ _ => Event.noConfusion)
  obtain rfl := MessagesImpl.id_of_find? hcached
  have hload : MessageDao.load s.db dao.row.id false = some (.ofRow row) := by
    unfold MessageDao.load
    rw [show s.db.messages.find? (dao.row.id, false) = some row from hrow, Option.map_some]
  obtain ⟨hloaded, hid, -⟩ := MessagesSyncer.loaded_of_load hload
  unfold MessagesImpl.messageModified
  rw [hload]
  apply h'.refresh hcached hloaded hconv
  · intro hdeleted
    exact (h'.deleted _ row hrow hdeleted).cached (Option.isSome_iff_exists.mpr ⟨dao, hcached⟩)
  · intro msgId
    rw [Table.find?_insertOrReplace, hid]

theorem Inv.messageRemoved {convId msgId : IdType} (h : Inv s (.messageRemoved convId msgId :: line)) :
    Inv (s.apply (s.messages.messageRemoved s.db msgId)) line := by
  unfold MessagesImpl.messageRemoved
  cases hcached : s.messages.messages.find? msgId with
  | none =>
    rw [MessagesImpl.removeFromCache_of_none hcached]
    exact h.dropRemoved hcached
  | some dao =>
    obtain rfl := MessagesImpl.id_of_find? hcached
    rw [h.listed.removeFromCache hcached]
    apply (h.erase hcached).dropRemoved
    rw [MessagesImpl.find?_erase, if_pos rfl]

theorem Inv.conversationWillBeRemoved {convId : IdType} (h : Inv s (.conversationWillBeRemoved convId :: line)) :
    Inv (s.apply (s.messages.conversationWillBeRemoved s.db convId)) line ∧
      ∀ e ∈ (s.messages.conversationWillBeRemoved s.db convId).events, Foreign e := by
  have h' := h.drop rfl (fun _ _ => Event.noConfusion)
  unfold MessagesImpl.conversationWillBeRemoved MessagesImpl.allForConversation
  cases hassert : assertId convId "convId" with
  | error x => exact ⟨h'.raise (assertId_ne (by decide) hassert), by simp [error_bind]⟩
  | ok _ => exact h'.removeMessages _

/-- One event that is handled. -/
theorem Inv.handle {e : Event} {p : Multiset Event} (h : Inv s (e :: line)) (hguard : guard.handle e s p) :
    Inv (handle e s).1 line ∧ ∀ e' ∈ (handle e s).2, Foreign e' := by
  unfold MessagesSession.handle MessagesImpl.notify
  cases e with
  | messageAdded convId msgId =>
    refine ⟨h.messageAdded, ?_⟩
    unfold MessagesImpl.messageAdded
    dsimp only
    split <;> simp
  | messageModified convId msgId =>
    obtain ⟨dao, row, hcached, hrow, hconv⟩ := hguard
    refine ⟨h.messageModified hcached hrow hconv, ?_⟩
    unfold MessagesImpl.messageModified
    dsimp only
    split <;> simp
  | messageRemoved convId msgId =>
    refine ⟨h.messageRemoved, ?_⟩
    unfold MessagesImpl.messageRemoved
    dsimp only
    split <;> simp
  | conversationWillBeRemoved convId => exact h.conversationWillBeRemoved
  | conversationAdded | conversationModified | senderAdded | draftModified | draftRemoved | draftAttachmentAdded
  | draftAttachmentRemoved | sendApiEvents =>
    exact ⟨h.drop rfl (fun _ _ => Event.noConfusion), by simp⟩

/-! #### The operations of the syncer -/

variable {P : Platform} {userAddress : KulloAddress} {s' : MessagesSession} {es : List Event}

theorem Inv.newTombstone (h : Inv s line) {httpMsg : HttpMessage} {db : Db}
    (hdb : MessagesSyncer.newTombstone httpMsg s.db = .ok db) : Inv { s with db := db } line := by
  obtain ⟨hfree, row, -, hrows, -⟩ := MessagesSyncer.newTombstone_eq_ok hdb
  have hnone : ¬ (currentRow s.db httpMsg.id).isSome = true := by
    rw [hfree]
    exact Bool.noConfusion
  have hwritten := @Inv.write s line h db [] (by simp) (by
      intro msgId hsome
      rw [hrows]
      split
      · rfl
      · exact hsome) (by
    intro msgId row' hrow' hdel
    rw [List.append_nil]
    rw [hrows] at hrow'
    split at hrow'
    · next hid =>
      subst hid
      constructor
      · intro hcached
        obtain ⟨dao, hdao⟩ := Option.isSome_iff_exists.mp hcached
        exact absurd (h.cached _ dao hdao).2.1 hnone
      · intro hadded
        exact absurd (h.added _ hadded).1 hnone
    · exact h.deleted msgId row' hrow' hdel)
  rw [List.append_nil] at hwritten
  exact hwritten

/-- A statement that leaves the messages alone. -/
theorem Inv.sameMessages (h : Inv s line) {db : Db} (hdb : db.messages = s.db.messages) {es : List Event}
    (hes : ∀ e ∈ es, Foreign e) : Inv { s with db := db } (line ++ es) := by
  have hrows : ∀ msgId, currentRow db msgId = currentRow s.db msgId := by
    intro msgId
    unfold currentRow
    rw [hdb]
  apply h.write hes
  · intro msgId hsome
    rw [hrows]
    exact hsome
  · intro msgId row hrow hdel
    rw [hrows] at hrow
    exact ((h.append hes).deleted msgId row hrow hdel)

private theorem mergedEvents_foreign (merged : MessagesSyncer.Merged) : ∀ e ∈ mergedEvents merged, Foreign e := by
  intro e he
  unfold mergedEvents at he
  rcases List.mem_append.mp he with he | he
  · split at he
    · rw [List.mem_singleton.mp he]
      rfl
    · cases he
  · split at he
    · rw [List.mem_singleton.mp he]
      rfl
    · cases he

/-- One operation of the syncer. -/
theorem Inv.perform (h : Inv s line) {op : MessagesOp} (hthread : thread op = .syncer)
    (hop : perform P userAddress op s = some (s', es)) : Inv s' (line ++ es) := by
  cases op with
  | setState | remove | triggerRemoval => cases hthread
  | load msgId =>
    cases hop
    rw [List.append_nil]
    exact h.load msgId
  -- a key changes no message
  | downloadPublicKey address answer =>
    simp only [MessagesSession.perform] at hop
    split at hop
    · next db hdb =>
      cases hop
      refine h.sameMessages ?_ (by simp)
      unfold MessagesSyncer.storePublicKey at hdb
      split at hdb
      · cases hdb
        rfl
      · obtain ⟨_, -, hdb⟩ := bind_eq_ok.mp hdb
        cases hdb
        rfl
    · cases hop
  | handleNewTombstone httpMsg =>
    simp only [MessagesSession.perform] at hop
    split at hop
    · next db hdb =>
      cases hop
      rw [List.append_nil]
      exact h.newTombstone hdb
    · cases hop
  | handleNewMessage decryptedMessage =>
    simp only [MessagesSession.perform] at hop
    split at hop
    · cases hop
    · next decoder hdecode =>
      split at hop
      · next added db hadd =>
        cases hop
        obtain ⟨hnew, hold, -, halive⟩ := MessagesSyncer.decode_message hdecode
        exact h.adds (MessagesSyncer.addNewMessage_eq_ok hnew hold hadd) halive
      · cases hop
  | handleDeletedMessage httpMsg =>
    simp only [MessagesSession.perform] at hop
    split at hop
    · cases hop
    · next loc hloc =>
      split at hop
      · next db hdb =>
        cases hop
        have hloaded := (h.loaded loc (Option.filter_eq_some_iff.mp hloc).1).1
        exact (h.deletes (MessagesSyncer.clearLocal_eq_ok hloaded hdb)).unload
      · cases hop
  | handleModifiedMessage decryptedMessage =>
    simp only [MessagesSession.perform] at hop
    split at hop
    · next loc decoder hloc hdecode =>
      split at hop
      · next merged db hmerge =>
        cases hop
        obtain ⟨hloaded, -, hdel⟩ := h.loaded loc (Option.filter_eq_some_iff.mp hloc).1
        exact (h.saves (mergedEvents_foreign merged) hdel (MessagesSyncer.merge_eq_ok hloaded hmerge)).unload
      · cases hop
    · cases hop
  | handleSuccessfulModification idlm =>
    simp only [MessagesSession.perform] at hop
    split at hop
    · next msg db hmodification =>
      cases hop
      obtain ⟨loc, b, -, hid, hrow, hsaves⟩ := MessagesSyncer.applyModification_eq_ok hmodification
      refine h.saves ?_ ?_ hsaves
      · intro e he
        split at he
        · cases he
        · rw [List.mem_singleton.mp he]
          rfl
      · intro hdeleted
        rw [hid]
        exact h.deleted _ _ hrow hdeleted
    · cases hop
  | store dateSent draft conv msgSent delivery =>
    simp only [MessagesSession.perform] at hop
    split at hop
    · next added _ db hstore =>
      cases hop
      obtain ⟨message, -, halive, hadds⟩ := MessagesUploader.store_adds rfl hstore
      exact h.adds hadds halive
    · cases hop
  -- nor does a delivery
  | markDelivery convId msgId recipient date reason =>
    cases hop
    refine h.sameMessages ?_ ?_
    · split <;> rfl
    · intro e he
      rw [List.mem_singleton.mp he]
      rfl

/-! ### The run -/

theorem find?_construct {db : Db} {msgId : IdType} {dao : MessageDao} :
    (MessagesImpl.construct db).messages.find? msgId = some dao ↔
      ∃ row, currentRow db msgId = some row ∧ MessageDao.ofRow row = dao := by
  rw [MessagesImpl.find?_construct]
  constructor
  · rintro ⟨hmem, hid⟩
    obtain ⟨row, hrow, hold, rfl⟩ := MessageDao.mem_all.mp hmem
    refine ⟨row, ?_, rfl⟩
    unfold currentRow
    rw [Table.find?_eq_some]
    exact ⟨hrow, Prod.ext hid hold⟩
  · rintro ⟨row, hrow, rfl⟩
    have hkey : row.key = (msgId, false) := Table.key_of_find? hrow
    exact ⟨MessageDao.mem_all.mpr ⟨row, Table.mem_of_find? hrow, congrArg Prod.snd hkey, rfl⟩, congrArg Prod.fst hkey⟩

theorem inv_initial {db : Db} (hdb : ∀ msgId row, currentRow db msgId = some row → row.deleted = false) :
    Inv (initial db).data [] := by
  have hdead : ∀ {msgId row}, currentRow db msgId = some row → row.deleted ≠ true := by
    intro msgId row hrow hdel
    rw [hdb msgId row hrow] at hdel
    cases hdel
  refine ⟨MessagesImpl.listed_construct db, ?_, ?_, List.nodup_nil, ?_, ?_, ?_, List.not_mem_nil⟩
  · intro msgId dao hdao
    obtain ⟨row, hrow, rfl⟩ := find?_construct.mp hdao
    have hkey : row.key = (msgId, false) := Table.key_of_find? hrow
    exact ⟨⟨rfl, congrArg Prod.snd hkey⟩, Option.isSome_iff_exists.mpr ⟨row, hrow⟩, fun hdel => absurd hdel (hdead hrow)⟩
  · intro msgId hmem
    cases hmem
  · intro msgId row hrow hdel
    exact absurd hdel (hdead hrow)
  · intro msgId hmem
    cases hmem
  · intro loc hloc
    cases hloc

theorem reaches_inv {db : Db} (hdb : ∀ msgId row, currentRow db msgId = some row → row.deleted = false)
    {s : EventLoop.State SessionThread Event MessagesSession}
    (h : Transition.Reaches (loop P userAddress).Step guard.Ok (initial db) s) : Inv s.data (s.line .syncer) := by
  refine @EventLoop.Reaches.keeps_line _ _ _ _ _ _ _ _ _ (fun d _ line => Inv d line) .syncer Foreign
    ?_ ?_ ?_ ?_ ?_ h (inv_initial hdb) rfl
  · exact SessionThread.noConfusion
  · intro op d p l d' es hthread hd _ hop
    exact hd.perform hthread hop
  · intro op d p l d' es hthread hd _ hop
    cases op with
    | setState state msgId value =>
      cases hop
      exact hd.perform_setState state msgId value
    | remove msgId =>
      cases hop
      exact hd.perform_remove msgId
    | triggerRemoval convId =>
      cases hop
      refine ⟨hd, ?_⟩
      intro e he
      rw [List.mem_singleton.mp he]
      rfl
    | _ => exact absurd rfl hthread
  · intro d p q o e he hd
    exact hd.put he
  · intro e d p l hd hok
    exact hd.handle hok

theorem Inv.consistent (h : Inv s line) {pending : Multiset Event} (hline : pending = 0 → line = []) :
    s.Consistent pending := by
  refine ⟨h.listed, ?_, fun msgId hmem => (h.gone msgId hmem).1, h.asserted⟩
  intro hpending msgId dao hcached
  obtain ⟨-, hsome, -⟩ := h.cached msgId dao hcached
  obtain ⟨row, hrow⟩ := Option.isSome_iff_exists.mp hsome
  refine ⟨row, hrow, ?_⟩
  cases hdel : row.deleted with
  | false => rfl
  | true =>
    obtain ⟨convId, hmem⟩ := (h.deleted msgId row hrow hdel).cached (Option.isSome_iff_exists.mpr ⟨dao, hcached⟩)
    rw [hline hpending] at hmem
    cases hmem

/-- Handling a `MessageModified` keeps the lists if and only if the message is cached under the conversation of its
row. -/
theorem listed_messageModified_iff {convId msgId : IdType} {row : MessageRow} (hlisted : s.messages.Listed)
    (hrow : currentRow s.db msgId = some row) {p : Multiset Event} :
    (handle (.messageModified convId msgId) s).1.messages.Listed ↔ guard.handle (.messageModified convId msgId) s p := by
  have hkey : row.key = (msgId, false) := Table.key_of_find? hrow
  obtain rfl : row.id = msgId := congrArg Prod.fst hkey
  have hload : MessageDao.load s.db row.id false = some (.ofRow row) := by
    unfold MessageDao.load
    rw [show s.db.messages.find? (row.id, false) = some row from hrow, Option.map_some]
  have hmessages : (handle (.messageModified convId row.id) s).1.messages =
      { s.messages with messages := s.messages.messages.insertOrReplace (.ofRow row) } := by
    simp only [handle, MessagesImpl.notify, MessagesImpl.messageModified, hload, apply]
  rw [hmessages]
  constructor
  · intro hlisted'
    have hcount := hlisted' row.conversationId row.id
    have hcount' := hlisted row.conversationId row.id
    unfold MessagesImpl.conversationOf at hcount hcount'
    dsimp only at hcount
    rw [Table.find?_insertOrReplace, if_pos (MessageDao.ofRow_id row), Option.map_some,
      if_pos (congrArg some (MessageDao.ofRow_conversationId row)), hcount'] at hcount
    cases hcached : s.messages.messages.find? row.id with
    | none =>
      rw [hcached] at hcount
      cases hcount
    | some dao =>
      refine ⟨dao, row, hcached, hrow, ?_⟩
      by_contra hconv
      rw [hcached, Option.map_some, if_neg (by simpa using Ne.symm hconv)] at hcount
      cases hcount
  · rintro ⟨dao, row', hcached, hrow', hconv⟩
    obtain rfl := Option.some.inj (hrow.symm.trans hrow')
    have hid := MessagesImpl.id_of_find? hcached
    refine @MessagesImpl.Listed.replace _ _ hlisted (.ofRow row) (by rw [hid]; exact hcached) hconv _ ?_
    intro msgId
    rw [Table.find?_insertOrReplace, hid, MessageDao.ofRow_id]

/-- A database with which the cache is consistent at first. -/
theorem consistent_initial {db : Db} (h : (initial db).data.Consistent (initial db).pending) {msgId : IdType}
    {row : MessageRow} (hrow : currentRow db msgId = some row) : row.deleted = false := by
  obtain ⟨row', hrow', halive⟩ := h.alive rfl msgId _ (find?_construct.mpr ⟨row, hrow, rfl⟩)
  obtain rfl := Option.some.inj (hrow.symm.trans hrow')
  exact halive

variable (P userAddress) in
/-- The cache is consistent in every run in which modified messages are handled while they are cached if and only if no
message of the database is deleted when the cache is constructed. -/
theorem messages_consistent_iff (db : Db) :
    (∀ s, Transition.Reaches (loop P userAddress).Step guard.Ok (initial db) s → s.data.Consistent s.pending) ↔
      ∀ msgId row, currentRow db msgId = some row → row.deleted = false := by
  constructor
  · intro hconsistent msgId row hrow
    exact consistent_initial (hconsistent _ .refl) hrow
  · intro hdb s hrun
    exact (reaches_inv hdb hrun).consistent EventLoop.line_of_pending

/-- A message that was deleted before the cache is constructed. -/
theorem messages_not_consistent_tombstone : ¬ ∀ (P : Platform) (userAddress : KulloAddress) (db : Db) s,
    Transition.Reaches (loop P userAddress).Step EventLoop.Guard.none.Ok (initial db) s →
      s.data.Consistent s.pending := by
  intro hclaim
  have hrow : currentRow { messages := ⟨[{ id := 1, deleted := true }], by decide⟩ } 1 =
      some { id := 1, deleted := true } := by
    decide
  have halive := consistent_initial (hclaim .transparent ⟨"alice", "kullo.test", by decide, by decide, by decide, by decide⟩
    _ _ .refl) hrow
  cases halive

end MessagesSession

end KulloClient
