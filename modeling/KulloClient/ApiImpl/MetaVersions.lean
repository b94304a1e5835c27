import KulloClient.ApiImpl.MessagesImpl
import KulloClient.Sync.MessagesUploader
import KulloClient.Sync.ProcessedVersions

/-!
# Meta data of newer versions

The meta version of a message is recorded when it is stored, and `uploadModifications` looks at the copy of the message
for it.  A newer version that is merged into a stored message is not recorded, and its states, which are not read, count
as read and done.  The syncer loads the local version of a message before the transaction in which it processes it, and
makes a request before the one that stores the answer; the main thread may run in between.
-/

namespace KulloClient

open Relational (Table)
open Transition (EventLoop)
open Imperative

/-- A user's messages, with what the syncer has in hand. -/
structure MetaSession where
  db : Db
  messages : MessagesImpl
  /-- The message `downloadAndProcessMessages` has come to, and the local version it has loaded. -/
  loc : Option (IdType × Option MessageDao) := none
  /-- The ids `uploadModifications` has not come to yet. -/
  modifications : List IdType := []
  /-- The meta version of the last version of a message that was processed; a deleted message has none. -/
  versions : IdType → Option MetaVersion := fun _ => none

inductive MetaOp
  | setState (state : MessageState) (msgId : IdType) (value : Bool)
  | remove (msgId : IdType)
  | triggerRemoval (convId : IdType)
  /-- The loop of `downloadAndProcessMessages` loads the local version of a message. -/
  | load (msgId : IdType)
  /-- The rest of its body. -/
  | process (r : MessagesSyncer.Received)
  /-- `uploadModifications` begins. -/
  | uploadModifications
  /-- The body of its loop, up to the request. -/
  | request (iv : Bytes)
  /-- The server has accepted a request. -/
  | handleSuccessfulModification (idlm : IdLastModified)
  /-- The run of the syncer is cancelled, or an answer of the server ends it. -/
  | stop
  /-- The transaction of `MessagesUploader`. -/
  | store (dateSent : String) (draft : DraftDao) (conv : ConversationRow) (msgSent : MessageSent)
      (delivery : List KulloAddress)

namespace MetaSession

/-- The event of the session for an event of the syncer. -/
def internal : MessagesSyncer.Event → Option Event
  | .messageAdded convId msgId => some (.messageAdded convId msgId)
  | .messageModified convId msgId => some (.messageModified convId msgId)
  | .messageDeleted convId msgId => some (.messageRemoved convId msgId)
  | .senderAdded convId msgId => some (.senderAdded convId msgId)
  | .conversationAdded convId => some (.conversationAdded convId)
  | .conversationModified convId => some (.conversationModified convId)
  | .progressed _ => none

def thread : MetaOp → SessionThread
  | .setState .. | .remove _ | .triggerRemoval _ => .main
  | _ => .syncer

/-- What an operation or a handler of the cache leaves behind. -/
def apply (s : MetaSession) (e : MessagesImpl.Effect) : MetaSession :=
  { s with db := e.db, messages := e.messages }

section

variable (P : Platform) (account : MessagesSyncer.Account)

/-- The state in which the syncer works. -/
abbrev syncer (s : MetaSession) : MessagesSyncer.State := { db := s.db }

/-- The versions after a message was processed: a message that cannot be read is not processed. -/
def processed (s : MetaSession) (r : MessagesSyncer.Received) (result : EStateM.Result Exn MessagesSyncer.State Unit) :
    IdType → Option MetaVersion :=
  match result with
  | .error _ _ => s.versions
  | .ok _ _ =>
    if r.msg.deleted then Function.update s.versions r.msg.id none
    else
      match MessagesSyncer.readMessage P account r s.syncer with
      | none => s.versions
      | some (version, _, _) => Function.update s.versions r.msg.id (some version)

/-- The modifications that are left: an exception ends the loop. -/
def left (ids : List IdType) : EStateM.Result Exn MessagesSyncer.State Unit → List IdType
  | .ok _ _ => ids
  | .error _ _ => []

def perform (op : MetaOp) (s : MetaSession) : Option (MetaSession × List Event) :=
  match op with
  | .setState state msgId value =>
    let e := (s.messages.setState s.db state msgId value).2
    some (s.apply e, e.events)
  | .remove msgId =>
    let e := s.messages.remove s.db msgId
    some (s.apply e, e.events)
  | .triggerRemoval convId => some (s, [.conversationWillBeRemoved convId])
  | .load msgId => some ({ s with loc := some (msgId, MessageDao.load s.db msgId false) }, [])
  | .process r =>
    match s.loc.filter (fun loc => loc.1 == r.msg.id) with
    | none => none
    | some (_, loc) =>
      let result := MessagesSyncer.processLoaded P account r loc s.syncer
      some
        ({ s with
            db := (final result).db
            loc := none
            modifications := []
            versions := s.processed P account r result },
          (final result).events.filterMap internal)
  | .uploadModifications =>
    some ({ s with loc := none, modifications := MessageDao.locallyModifiedMessages s.db latestMetaVersion }, [])
  | .request iv =>
    match s.modifications with
    | [] => none
    | id :: ids =>
      match MessagesSyncer.uploadRequest P account iv id s.db with
      -- the server has the request, its answer comes in a later step
      | .ok _ => some ({ s with loc := none, modifications := ids }, [])
      | .error _ => some ({ s with loc := none, modifications := [] }, [])
  | .handleSuccessfulModification idlm =>
    let result := MessagesSyncer.handleSuccessfulModification idlm s.syncer
    some
      ({ s with db := (final result).db, loc := none, modifications := left s.modifications result },
        (final result).events.filterMap internal)
  | .stop => some ({ s with loc := none, modifications := [] }, [])
  | .store dateSent draft conv msgSent delivery =>
    match MessagesUploader.store P account.userAddress dateSent draft (.ofRow conv) msgSent delivery s.db with
    | .ok (added, _, db) =>
      some
        ({ s with db := db, loc := none },
          [.senderAdded added.convId added.msg.id, .messageAdded added.convId added.msg.id,
            if added.newConversation then .conversationAdded added.convId else .conversationModified added.convId])
    | .error _ => none

def handle (e : Event) (s : MetaSession) : MetaSession × List Event :=
  let effect := s.messages.notify s.db e
  (s.apply effect, effect.events)

/-- The session of a user. -/
def loop : EventLoop SessionThread MetaOp Event MetaSession where
  main := .main
  thread := thread
  perform := perform P account
  handle := handle

end

/-- The session after its construction. -/
def initial (db : Db) (versions : IdType → Option MetaVersion) : EventLoop.State SessionThread Event MetaSession where
  data := { db := db, messages := .construct db, versions := versions }

/-! ### What a step is asked for -/

section

variable (P : Platform) (account : MessagesSyncer.Account)

/-- Meta data is sent only for a message whose last version was of a supported meta version. -/
def SendsSupported (op : MetaOp) (s : MetaSession) : Prop :=
  ∀ iv id ids idlm metaData, op = .request iv → s.modifications = id :: ids →
    MessagesSyncer.uploadRequest P account iv id s.db = .ok (some (.modifyMeta idlm metaData)) →
      ∀ version, s.versions idlm.id = some version → version ≤ latestMetaVersion

/-- A newer version leaves the states of a stored message alone. -/
def KeepsStates (op : MetaOp) (s s' : MetaSession) : Prop :=
  ∀ r version decoder synced cur, op = .process r → r.msg.deleted = false →
    MessagesSyncer.readMessage P account r s.syncer = some (version, decoder, synced) → latestMetaVersion < version →
      currentRow s.db r.msg.id = some cur →
        ∃ cur', currentRow s'.db r.msg.id = some cur' ∧ ∀ state, cur'.state state = cur.state state

/-- A stored message to which a newer version does no harm: each of its states is set already or was changed locally,
and it was stored in a newer version, or it is deleted. -/
structure Unharmed (cur : MessageRow) (old : Option MessageRow) : Prop where
  states : ∀ state, cur.state state = true ∨
    ∃ old', old = some old' ∧ (cur.deleted = true ∨ old'.state state ≠ cur.state state)
  stored : cur.deleted = true ∧ old.isSome = true ∨
    cur.deleted = false ∧ latestMetaVersion < cur.metaVersion ∧
      ∀ old', old = some old' → latestMetaVersion < old'.metaVersion

/-- Where a newer version does no harm: it is of a message of somebody else that is not stored, or the stored message is
as it was loaded and is not harmed. -/
def Harmless (r : MessagesSyncer.Received) (s : MetaSession) : Prop :=
  ∀ version decoder synced, MessagesSyncer.readMessage P account r s.syncer = some (version, decoder, synced) →
    latestMetaVersion < version →
      (currentRow s.db r.msg.id = none → decoder.sender.address ≠ account.userAddress) ∧
        ∀ cur, currentRow s.db r.msg.id = some cur →
          s.loc = some (r.msg.id, some (.ofRow cur)) ∧ Unharmed cur (oldRow s.db r.msg.id)

/-- A newer version is processed only where it does no harm. -/
def guard : EventLoop.Guard MetaOp Event MetaSession where
  perform op s _ := ∀ r, op = .process r → r.msg.deleted = false → Harmless P account r s
  handle _ _ _ := True

end

/-- What is stored of the versions: there is a copy only of stored messages, and a message whose last version was newer
is deleted or stored as such. -/
structure Recorded (db : Db) (versions : IdType → Option MetaVersion) : Prop where
  copied : ∀ id, (oldRow db id).isSome = true → (currentRow db id).isSome = true
  newer : ∀ id version, versions id = some version → latestMetaVersion < version →
    ∃ cur, currentRow db id = some cur ∧ (cur.deleted = true ∨
      latestMetaVersion < cur.metaVersion ∧ ∀ old, oldRow db id = some old → latestMetaVersion < old.metaVersion)

theorem recorded_empty : Recorded {} fun _ => none where
  copied id hsome := by cases hsome
  newer id version hversion := by cases hversion

/-! ### The invariant of one message -/

/-- Nothing is left of a message: it is deleted in the database and in the cache. -/
def Dead (cur : MessageRow) (dao : Option MessageDao) : Prop :=
  cur.deleted = true ∧ ∀ d, dao = some d → d.row.deleted = true

/-- A message that is stored in a newer meta version, and so is its copy. -/
def Newer (cur : MessageRow) (old : Option MessageRow) : Prop :=
  cur.deleted = false ∧ latestMetaVersion < cur.metaVersion ∧ ∀ old', old = some old' → latestMetaVersion < old'.metaVersion

/-- Something of a message is not deleted: its row, or its dao in the cache. -/
def Alive (cur : Option MessageRow) (dao : Option MessageDao) : Prop :=
  (∃ r, cur = some r ∧ r.deleted = false) ∨ ∃ d, dao = some d ∧ d.row.deleted = false

/-- The rows of a message, its dao in the cache, what the syncer has loaded of it, the version that was processed last,
and whether its modification is to be uploaded. -/
structure Kept (id : IdType) (cur old : Option MessageRow) (dao : Option MessageDao) (loc : Option (Option MessageDao))
    (version : Option MetaVersion) (listed : Prop) : Prop where
  cached : ∀ d, dao = some d → MessagesSyncer.Loaded d ∧ cur.isSome = true
  absent : loc = some none → cur = none
  loaded : ∀ l, loc = some (some l) → (∃ row, l = .ofRow row ∧ row.id = id ∧ row.old = false) ∧ cur.isSome = true
  copied : old.isSome = true → cur.isSome = true
  -- whatever is not deleted has the meta version with which the message was stored
  agrees : ∃ m, (∀ r, cur = some r → r.deleted = false → r.metaVersion = m) ∧
    (∀ d, dao = some d → d.row.deleted = false → d.row.metaVersion = m) ∧
    ∀ l, loc = some (some l) → l.row.deleted = false → l.row.metaVersion = m
  removed : ∀ d r, dao = some d → cur = some r → r.deleted = true → old.isSome = true → d.row.deleted = true
  -- what brings a deleted message back leaves a deleted copy
  stale : ∀ l, loc = some (some l) → l.row.deleted = true → Alive cur dao →
    (∃ r, cur = some r ∧ r.deleted = true ∧ old = none) ∨ ∃ o, old = some o ∧ o.deleted = true
  newer : ∀ v, version = some v → latestMetaVersion < v → ∃ r, cur = some r ∧ (Dead r dao ∨ Newer r old)
  listed : listed → ∀ v, version = some v → latestMetaVersion < v → ∃ r, cur = some r ∧ Dead r dao

section Kept

variable {id : IdType} {cur old : Option MessageRow} {dao : Option MessageDao} {loc : Option (Option MessageDao)}
  {version : Option MetaVersion} {listed : Prop} {r : MessageRow} {d : MessageDao}

/-- The syncer has gone on. -/
private theorem Kept.leave {listed' : Prop} (h : Kept id cur old dao loc version listed) (hlisted : listed' → listed) :
    Kept id cur old dao none version listed' := by
  obtain ⟨m, hcur, hdao, -⟩ := h.agrees
  exact ⟨h.cached, fun hl => (by cases hl), fun _ hl => (by cases hl), h.copied,
    ⟨m, hcur, hdao, fun _ hl => by cases hl⟩, h.removed, fun _ hl => (by cases hl), h.newer, fun hl => h.listed (hlisted hl)⟩

/-- The syncer loads the message. -/
private theorem Kept.load (h : Kept id cur old dao loc version listed) (hkey : ∀ r, cur = some r → r.id = id ∧ r.old = false) :
    Kept id cur old dao (some (cur.map .ofRow)) version listed := by
  obtain ⟨m, hcur, hdao, -⟩ := h.agrees
  refine ⟨h.cached, ?_, ?_, h.copied, ⟨m, hcur, hdao, ?_⟩, h.removed, ?_, h.newer, h.listed⟩
  · intro hl
    exact Option.map_eq_none_iff.mp (Option.some.inj hl)
  · intro l hl
    obtain ⟨r, hr, rfl⟩ := Option.map_eq_some_iff.mp (Option.some.inj hl)
    exact ⟨⟨r, rfl, hkey r hr⟩, by rw [hr]; rfl⟩
  · intro l hl halive
    obtain ⟨r, hr, rfl⟩ := Option.map_eq_some_iff.mp (Option.some.inj hl)
    exact hcur r hr halive
  · intro l hl hdeleted halive
    obtain ⟨r, hr, rfl⟩ := Option.map_eq_some_iff.mp (Option.some.inj hl)
    refine .inl ⟨r, hr, hdeleted, ?_⟩
    -- only the cache can still show the message, and then there is no copy
    cases hold : old with
    | none => rfl
    | some o =>
      have hdead : ∀ d, dao = some d → d.row.deleted = true :=
        fun d hd => h.removed d r hd hr hdeleted (by rw [hold]; rfl)
      rcases halive with ⟨r', hr', halive'⟩ | ⟨d, hd, halive'⟩
      · rw [hr] at hr'
        cases hr'
        exact absurd (hdeleted.symm.trans halive') (by simp)
      · rw [hdead d hd] at halive'
        cases halive'

/-- A message that is not stored is not cached, has no copy and no newer version. -/
theorem Kept.of_none (h : Kept id none old dao loc version listed) :
    dao = none ∧ old = none ∧ ∀ v, version = some v → ¬ latestMetaVersion < v := by
  refine ⟨?_, ?_, ?_⟩
  · cases hd : dao with
    | none => rfl
    | some d =>
      have hsome := (h.cached d hd).2
      cases hsome
  · cases ho : old with
    | none => rfl
    | some o =>
      rw [ho] at h
      have hsome := h.copied rfl
      cases hsome
  · intro v hv hlt
    obtain ⟨r, hr, -⟩ := h.newer v hv hlt
    cases hr

/-- The message leaves the cache. -/
theorem Kept.uncache (h : Kept id cur old dao loc version listed) : Kept id cur old none loc version listed := by
  obtain ⟨m, hcur, -, hloc⟩ := h.agrees
  refine ⟨fun _ hd => (by cases hd), h.absent, h.loaded, h.copied, ⟨m, hcur, fun _ hd => (by cases hd), hloc⟩,
    fun _ _ hd => (by cases hd), ?_, ?_, ?_⟩
  · rintro l hl hdeleted (halive | ⟨d, hd, -⟩)
    · exact h.stale l hl hdeleted (.inl halive)
    · cases hd
  · intro v hv hlt
    obtain ⟨r, hr, hdead | hnewer⟩ := h.newer v hv hlt
    · exact ⟨r, hr, .inl ⟨hdead.1, fun _ hd => by cases hd⟩⟩
    · exact ⟨r, hr, .inr hnewer⟩
  · intro hl v hv hlt
    obtain ⟨r, hr, hdead⟩ := h.listed hl v hv hlt
    exact ⟨r, hr, hdead.1, fun _ hd => by cases hd⟩

/-- The message is loaded into the cache. -/
theorem Kept.cache (h : Kept id (some r) old dao loc version listed) (hold : r.old = false) :
    Kept id (some r) old (some (.ofRow r)) loc version listed := by
  obtain ⟨m, hcur, -, hloc⟩ := h.agrees
  refine ⟨?_, h.absent, fun l hl => ⟨(h.loaded l hl).1, rfl⟩, h.copied, ⟨m, hcur, ?_, hloc⟩, ?_, ?_, ?_, ?_⟩
  · intro d hd
    cases hd
    exact ⟨⟨rfl, hold⟩, rfl⟩
  · intro d hd halive
    cases hd
    exact hcur r rfl halive
  · intro d r' hd hr' hdeleted _
    cases hd
    cases hr'
    exact hdeleted
  · rintro l hl hdeleted (halive | ⟨d, hd, halive⟩)
    · exact h.stale l hl hdeleted (.inl halive)
    · cases hd
      exact h.stale l hl hdeleted (.inl ⟨r, rfl, halive⟩)
  · intro v hv hlt
    obtain ⟨r', hr', hdead | hnewer⟩ := h.newer v hv hlt
    · cases hr'
      refine ⟨r, rfl, .inl ⟨hdead.1, ?_⟩⟩
      intro d hd
      cases hd
      exact hdead.1
    · exact ⟨r', hr', .inr hnewer⟩
  · intro hl v hv hlt
    obtain ⟨r', hr', hdead⟩ := h.listed hl v hv hlt
    cases hr'
    refine ⟨r, rfl, hdead.1, ?_⟩
    intro d hd
    cases hd
    exact hdead.1

/-- The cached message is saved with other states. -/
theorem Kept.save (h : Kept id (some r) old (some d) loc version listed) {d' : MessageDao}
    (hloaded : MessagesSyncer.Loaded d') (hdeleted : d'.row.deleted = d.row.deleted)
    (hversion : d'.row.metaVersion = d.row.metaVersion) :
    Kept id (some d'.row) (old.or (some r.asOld)) (some d') loc version listed := by
  obtain ⟨m, hcur, hdao, hloc⟩ := h.agrees
  have hsame : d'.row.deleted = false → d'.row.metaVersion = m := by
    intro halive
    rw [hversion]
    exact hdao d rfl (hdeleted ▸ halive)
  refine ⟨?_, ?_, fun l hl => ⟨(h.loaded l hl).1, rfl⟩, fun _ => rfl, ⟨m, ?_, ?_, hloc⟩, ?_, ?_, ?_, ?_⟩
  · intro d₁ hd₁
    cases hd₁
    exact ⟨hloaded, rfl⟩
  · intro hl
    have hnone := h.absent hl
    cases hnone
  · intro r₁ hr₁ halive
    cases hr₁
    exact hsame halive
  · intro d₁ hd₁ halive
    cases hd₁
    exact hsame halive
  · intro d₁ r₁ hd₁ hr₁ hdel _
    cases hd₁
    cases hr₁
    exact hdel
  · intro l hl hdel halive
    have halive' : d.row.deleted = false := by
      rw [← hdeleted]
      rcases halive with ⟨r₁, hr₁, halive'⟩ | ⟨d₁, hd₁, halive'⟩
      · cases hr₁
        exact halive'
      · cases hd₁
        exact halive'
    -- the copy is deleted already, or it is made of the deleted row
    rcases h.stale l hl hdel (.inr ⟨d, rfl, halive'⟩) with ⟨r₁, hr₁, hdel₁, hnone⟩ | ⟨o, ho, hdel₁⟩
    · cases hr₁
      rw [hnone]
      exact .inr ⟨r.asOld, rfl, hdel₁⟩
    · rw [ho]
      exact .inr ⟨o, rfl, hdel₁⟩
  · intro v hv hlt
    refine ⟨d'.row, rfl, ?_⟩
    -- a deleted row stays deleted, a newer one keeps its version
    obtain ⟨r₁, hr₁, hdead | hnewer⟩ := h.newer v hv hlt
    · have hdel : d'.row.deleted = true := hdeleted.trans (hdead.2 d rfl)
      refine .inl ⟨hdel, ?_⟩
      intro d₁ hd₁
      cases hd₁
      exact hdel
    · cases hr₁
      cases hdel : d.row.deleted with
      | true =>
        refine .inl ⟨hdeleted.trans hdel, ?_⟩
        intro d₁ hd₁
        cases hd₁
        exact hdeleted.trans hdel
      | false =>
        refine .inr ⟨hdeleted.trans hdel, ?_, ?_⟩
        · rw [hsame (hdeleted.trans hdel), ← hcur r rfl hnewer.1]
          exact hnewer.2.1
        · intro old' hold'
          cases hold : old with
          | some o =>
            rw [hold] at hold'
            cases hold'
            exact hnewer.2.2 _ hold
          | none =>
            rw [hold] at hold'
            cases hold'
            exact hnewer.2.1
  · intro hl v hv hlt
    obtain ⟨r₁, -, hdead⟩ := h.listed hl v hv hlt
    have hdel : d'.row.deleted = true := hdeleted.trans (hdead.2 d rfl)
    refine ⟨d'.row, rfl, hdel, ?_⟩
    intro d₁ hd₁
    cases hd₁
    exact hdel

/-- The message is removed from the cache and from the database. -/
theorem Kept.of_removed (h : Kept id (some r) old dao loc version listed) {row : MessageRow} (hrow : row.deleted = true)
    (old' : Option MessageRow) : Kept id (some row) old' none loc version listed := by
  obtain ⟨m, -, -, hloc⟩ := h.agrees
  refine ⟨fun _ hd => (by cases hd), ?_, fun l hl => ⟨(h.loaded l hl).1, rfl⟩, fun _ => rfl,
    ⟨m, ?_, fun _ hd => (by cases hd), hloc⟩, fun _ _ hd => (by cases hd), ?_, ?_, ?_⟩
  · intro hl
    have hnone := h.absent hl
    cases hnone
  · intro r₁ hr₁ halive
    cases hr₁
    exact absurd (hrow.symm.trans halive) (by simp)
  · rintro l - - (⟨r₁, hr₁, halive⟩ | ⟨d, hd, -⟩)
    · cases hr₁
      exact absurd (hrow.symm.trans halive) (by simp)
    · cases hd
  · intro _ _ _
    exact ⟨row, rfl, .inl ⟨hrow, fun _ hd => by cases hd⟩⟩
  · intro _ _ _ _
    exact ⟨row, rfl, hrow, fun _ hd => by cases hd⟩

/-- The answer to a request is written: nothing changes of what is recorded, and the copy is dropped. -/
theorem Kept.write (h : Kept id (some r) old dao loc version listed) {row : MessageRow}
    (hdeleted : row.deleted = r.deleted) (hversion : row.metaVersion = r.metaVersion) :
    Kept id (some row) none dao none version listed := by
  obtain ⟨m, hcur, hdao, -⟩ := h.agrees
  refine ⟨fun d hd => ⟨(h.cached d hd).1, rfl⟩, fun hl => (by cases hl), fun _ hl => (by cases hl), fun _ => rfl,
    ⟨m, ?_, hdao, fun _ hl => by cases hl⟩, fun _ _ _ _ _ hold => (by cases hold), fun _ hl => (by cases hl), ?_, ?_⟩
  · intro r₁ hr₁ halive
    cases hr₁
    rw [hversion]
    exact hcur r rfl (hdeleted ▸ halive)
  · intro v hv hlt
    refine ⟨row, rfl, ?_⟩
    obtain ⟨r₁, hr₁, hdead | hnewer⟩ := h.newer v hv hlt
    · cases hr₁
      exact .inl ⟨hdeleted.trans hdead.1, hdead.2⟩
    · cases hr₁
      exact .inr ⟨hdeleted.trans hnewer.1, by rw [hversion]; exact hnewer.2.1, fun _ hold => by cases hold⟩
  · intro hl v hv hlt
    obtain ⟨r₁, hr₁, hdead⟩ := h.listed hl v hv hlt
    cases hr₁
    exact ⟨row, rfl, hdeleted.trans hdead.1, hdead.2⟩

/-- A deleted message is stored without a copy, or left as it is without one. -/
theorem Kept.bury (h : Kept id cur old dao loc version listed) {row : MessageRow}
    (hrow : row.deleted = true ∨ cur = some row) : Kept id (some row) none dao none none False := by
  obtain ⟨m, hcur, hdao, -⟩ := h.agrees
  refine ⟨fun d hd => ⟨(h.cached d hd).1, rfl⟩, fun hl => (by cases hl), fun _ hl => (by cases hl), fun _ => rfl,
    ⟨m, ?_, hdao, fun _ hl => by cases hl⟩, fun _ _ _ _ _ hold => (by cases hold), fun _ hl => (by cases hl),
    fun v hv => (by cases hv), False.elim⟩
  intro r hr halive
  cases hr
  rcases hrow with hdeleted | hsame
  · rw [hdeleted] at halive
    cases halive
  · exact hcur _ hsame halive

/-- A message that was not stored is added. -/
theorem Kept.add (h : Kept id none old dao loc version listed) {row : MessageRow} {old' : Option MessageRow}
    {version' : Option MetaVersion} {listed' : Prop}
    (hnewer : ∀ v, version' = some v → latestMetaVersion < v → Newer row old' ∧ ¬ listed') :
    Kept id (some row) old' dao none version' listed' := by
  obtain ⟨rfl, -, -⟩ := h.of_none
  refine ⟨fun _ hd => (by cases hd), fun hl => (by cases hl), fun _ hl => (by cases hl), fun _ => rfl,
    ⟨row.metaVersion, ?_, fun _ hd => (by cases hd), fun _ hl => by cases hl⟩, fun _ _ hd => (by cases hd),
    fun _ hl => (by cases hl), ?_, ?_⟩
  · intro r hr _
    cases hr
    rfl
  · intro v hv hlt
    exact ⟨row, rfl, .inr (hnewer v hv hlt).1⟩
  · intro hl v hv hlt
    exact absurd hl (hnewer v hv hlt).2

end Kept

/-! ### The main thread -/

/-- What a cache is like after a message was taken out of it. -/
theorem removeFromCache_eq_ok {c c' : MessagesImpl} {msgId : IdType} {removed : Option MessageDao}
    (h : c.removeFromCache msgId = .ok (removed, c')) :
    removed = c.messages.find? msgId ∧
      ∀ i, c'.messages.find? i = if msgId = i then none else c.messages.find? i := by
  unfold MessagesImpl.removeFromCache at h
  cases hfind : c.messages.find? msgId with
  | none =>
    rw [hfind] at h
    cases h
    refine ⟨rfl, ?_⟩
    intro i
    split
    · next hi => rw [← hi, hfind]
    · rfl
  | some dao =>
    rw [hfind] at h
    obtain ⟨_, -, h⟩ := bind_eq_ok.mp h
    cases h
    refine ⟨rfl, ?_⟩
    intro i
    dsimp only
    rw [Table.find?_deleteWhere]
    by_cases hi : msgId = i
    · subst hi
      have hkey := MessagesImpl.id_of_find? hfind
      rw [if_pos rfl, hfind]
      simp [hkey]
    · rw [if_neg hi]
      cases hother : c.messages.find? i with
      | none => rfl
      | some dao' =>
        have hkey := MessagesImpl.id_of_find? hother
        simp [hkey, Ne.symm hi]

/-- Removing a message from the database clears its row, if it is not clear already. -/
theorem removeFromDb_writes {dao : MessageDao} (hloaded : MessagesSyncer.Loaded dao) (db : Db) :
    ∃ apiEvents db', MessagesImpl.removeFromDb dao db = .ok (apiEvents, db') ∧
      ((db' = db ∧ dao.row.deleted = true) ∨
        ∃ row : MessageRow, row.deleted = true ∧ row.lastModified = dao.row.lastModified ∧
          Writes dao.row.id ((currentRow db dao.row.id).map fun _ => row)
            ((oldRow db dao.row.id).or ((currentRow db dao.row.id).map MessageRow.asOld)) db db') := by
  have hstays := dao.clearData_stays.trans (MessageDao.setDeleted_stays _ true)
  have hdeleted : (dao.clearData.setDeleted true).2.row.deleted = true := by rw [MessageDao.setDeleted_row]
  have hmodified : (dao.clearData.setDeleted true).2.row.lastModified = dao.row.lastModified := by
    rw [MessageDao.setDeleted_row]
    unfold MessageDao.clearData
    simp [MessageRow.withState]
  unfold MessagesImpl.removeFromDb
  revert hstays hdeleted hmodified
  generalize (dao.clearData.setDeleted true).2 = d
  intro hstays hdeleted hmodified
  cases hdirty : d.dirty with
  | false =>
    have hsave : d.save .yes db = .ok (false, d, db) := by
      unfold MessageDao.save
      rw [hdirty, if_neg (by simp)]
    rw [hsave, ok_bind]
    rw [hstays.clean hdirty] at hdeleted
    exact ⟨_, db, rfl, .inl ⟨rfl, hdeleted⟩⟩
  | true =>
    obtain ⟨messages, hsave, hwrites⟩ := MessageDao.save_yes_writes (hloaded.stays hstays) hdirty db
    rw [hsave, ok_bind]
    rw [hstays.id] at hwrites
    exact ⟨_, _, rfl, .inr ⟨d.row, hdeleted, hmodified, hwrites⟩⟩

theorem withState_keeps (r : MessageRow) (state : MessageState) (value : Bool) :
    (r.withState state value).id = r.id ∧ (r.withState state value).deleted = r.deleted ∧
      (r.withState state value).metaVersion = r.metaVersion := by
  cases state <;> exact ⟨rfl, rfl, rfl⟩

/-- A state of a cached message is set: the row of the dao is written, and a copy of the stored row is kept. -/
theorem setState_writes {c : MessagesImpl} {msgId : IdType} (db : Db) (state : MessageState) (value : Bool)
    (hloaded : ∀ dao, c.messages.find? msgId = some dao → MessagesSyncer.Loaded dao) :
    ((c.setState db state msgId value).2.db = db ∧ (c.setState db state msgId value).2.messages = c ∧
      (msgId ≤ idMax → ∀ dao, c.messages.find? msgId = some dao → dao.row.state state = value)) ∨
    (msgId ≤ idMax ∧ ∃ dao saved, c.messages.find? msgId = some dao ∧ dao.row.state state ≠ value ∧
      MessagesSyncer.Loaded saved ∧ saved.row = dao.row.withState state value ∧
      (c.setState db state msgId value).2.messages = { c with messages := c.messages.replace saved } ∧
      Writes msgId ((currentRow db msgId).map fun _ => saved.row)
        ((oldRow db msgId).or ((currentRow db msgId).map MessageRow.asOld)) db
        (c.setState db state msgId value).2.db) := by
  unfold MessagesImpl.setState
  cases hassert : assertId msgId "msgId" with
  | error x =>
    refine .inl ⟨rfl, rfl, ?_⟩
    intro hle
    rw [assertId_of_le hle] at hassert
    cases hassert
  | ok _ =>
    cases hfind : c.messages.find? msgId with
    | none => exact .inl ⟨rfl, rfl, fun _ _ hdao => by cases hdao⟩
    | some dao =>
      obtain rfl := MessagesImpl.id_of_find? hfind
      dsimp only
      by_cases hvalue : dao.row.state state ≠ value
      · rw [if_pos hvalue]
        refine .inr ⟨le_of_assertId hassert, ?_⟩
        have hmerges := MessagesSyncer.setState_merges dao state value
        have hrow := dao.setState_row state value
        have hdirty : (dao.setState state value).2.dirty = true := by
          unfold MessageDao.setState
          rw [MessageDao.assign_dirty, decide_eq_true hvalue, Bool.or_true]
        have hloaded' := (hloaded dao hfind).stays hmerges.toStays
        revert hmerges hdirty hrow hloaded'
        generalize (dao.setState state value).2 = d
        intro hmerges hrow hdirty hloaded'
        obtain ⟨messages, hsave, hwrites⟩ := MessageDao.save_yes_writes hloaded' hdirty db
        have hid : d.row.id = dao.row.id := hmerges.id
        rw [hsave]
        rw [hid] at hwrites
        exact ⟨dao, { d with dirty := false }, rfl, hvalue, ⟨hloaded'.storedInDb, hloaded'.old⟩, hrow, rfl, hwrites⟩
      · rw [if_neg hvalue]
        refine .inl ⟨rfl, rfl, ?_⟩
        intro _ dao' hdao'
        cases hdao'
        exact of_not_not hvalue

/-- What the syncer has loaded of a message. -/
def loaded (s : MetaSession) (id : IdType) : Option (Option MessageDao) :=
  (s.loc.filter fun loc => loc.1 == id).map Prod.snd

/-- What holds of every message. -/
def Inv (s : MetaSession) : Prop :=
  ∀ id, Kept id (currentRow s.db id) (oldRow s.db id) (s.messages.messages.find? id) (s.loaded id) (s.versions id)
    (id ∈ s.modifications)

variable {s : MetaSession}

private theorem loaded_self {id : IdType} {loc : Option MessageDao} (h : s.loc = some (id, loc)) : s.loaded id = some loc := by
  unfold loaded
  rw [h, Option.filter_some, beq_self_eq_true, if_pos rfl]
  rfl

/-- The invariant after one message got other rows. -/
theorem Inv.writes (h : Inv s) {id : IdType} {current old : Option MessageRow} {db : Db}
    (hwrites : Writes id current old s.db db) {messages : MessagesImpl}
    (hcached : ∀ i, id ≠ i → messages.messages.find? i = s.messages.messages.find? i)
    (hkept : Kept id current old (messages.messages.find? id) (s.loaded id) (s.versions id) (id ∈ s.modifications)) :
    Inv { s with db := db, messages := messages } := by
  intro i
  by_cases hi : id = i
  · subst hi
    dsimp only
    rw [hwrites.current_self, hwrites.old_self]
    exact hkept
  · dsimp only
    rw [hwrites.current_other hi, hwrites.old_other hi, hcached i hi]
    exact h i

theorem Inv.setState (h : Inv s) (state : MessageState) (msgId : IdType) (value : Bool) :
    Inv (s.apply (s.messages.setState s.db state msgId value).2) := by
  have hloaded : ∀ dao, s.messages.messages.find? msgId = some dao → MessagesSyncer.Loaded dao :=
    fun dao hdao => ((h msgId).cached dao hdao).1
  rcases setState_writes s.db state value hloaded with hsame | ⟨-, dao, saved, hfind, -, hsaved, hrow, hcache, hwrites⟩
  · unfold apply
    rw [hsame.1, hsame.2.1]
    exact h
  · have hkept := h msgId
    rw [hfind] at hkept
    obtain ⟨cur, hcur⟩ := Option.isSome_iff_exists.mp (hkept.cached dao rfl).2
    obtain ⟨hsame, hdeleted, hversion⟩ := withState_keeps dao.row state value
    rw [← hrow] at hsame hdeleted hversion
    have hid : saved.row.id = msgId := hsame.trans (MessagesImpl.id_of_find? hfind)
    rw [hcur] at hkept
    rw [hcur, Option.map_some, Option.map_some] at hwrites
    unfold apply
    rw [hcache]
    apply h.writes hwrites
    · intro i hi
      dsimp only
      rw [Table.find?_replace, if_neg]
      intro heq
      exact hi (hid.symm.trans heq)
    · dsimp only
      rw [Table.find?_replace, if_pos hid, hfind, Option.map_some]
      exact hkept.save hsaved hdeleted hversion

/-- A cached message is removed. -/
theorem Inv.removed (h : Inv s) {msgId : IdType} {dao : MessageDao} {c : MessagesImpl}
    (hcache : s.messages.removeFromCache msgId = .ok (some dao, c)) :
    ∃ apiEvents db, MessagesImpl.removeFromDb dao s.db = .ok (apiEvents, db) ∧ Inv { s with db := db, messages := c } := by
  obtain ⟨hfind, hc⟩ := removeFromCache_eq_ok hcache
  obtain rfl := MessagesImpl.id_of_find? hfind.symm
  have hkept := h dao.row.id
  obtain ⟨hloaded, hsome⟩ := hkept.cached dao hfind.symm
  obtain ⟨cur, hcur⟩ := Option.isSome_iff_exists.mp hsome
  have hothers : ∀ i, dao.row.id ≠ i → c.messages.find? i = s.messages.messages.find? i := by
    intro i hi
    rw [hc, if_neg hi]
  have hself : c.messages.find? dao.row.id = none := by rw [hc, if_pos rfl]
  obtain ⟨apiEvents, db, hdb, ⟨hsame, -⟩ | ⟨row, hdeleted, -, hwrites⟩⟩ := removeFromDb_writes hloaded s.db
  · refine ⟨apiEvents, db, hdb, ?_⟩
    rw [hsame]
    apply h.writes (.nothing rfl dao.row.id) hothers
    rw [hself]
    exact hkept.uncache
  · refine ⟨apiEvents, db, hdb, ?_⟩
    rw [hcur, Option.map_some, Option.map_some] at hwrites
    apply h.writes hwrites hothers
    rw [hself]
    rw [hcur] at hkept
    exact hkept.of_removed hdeleted _

/-- A message leaves the cache. -/
theorem Inv.uncache (h : Inv s) {msgId : IdType} {removed : Option MessageDao} {c : MessagesImpl}
    (hcache : s.messages.removeFromCache msgId = .ok (removed, c)) : Inv { s with messages := c } := by
  obtain ⟨-, hc⟩ := removeFromCache_eq_ok hcache
  apply h.writes (.nothing rfl msgId)
  · intro i hi
    rw [hc, if_neg hi]
  · rw [hc, if_pos rfl]
    exact (h msgId).uncache

theorem Inv.remove (h : Inv s) (msgId : IdType) : Inv (s.apply (s.messages.remove s.db msgId)) := by
  unfold MessagesImpl.remove
  cases hassert : assertId msgId "msgId" with
  | error x => exact h
  | ok _ =>
    cases hcache : s.messages.removeFromCache msgId with
    | error x => exact h
    | ok result =>
      obtain ⟨removed, c⟩ := result
      cases removed with
      | none => exact h.uncache hcache
      | some dao =>
        obtain ⟨apiEvents, db, hdb, hinv⟩ := h.removed hcache
        dsimp only
        rw [hdb]
        exact hinv

/-- The messages of a conversation are removed one after the other. -/
theorem Inv.removeMessages (h : Inv s) (msgIds : List IdType) :
    Inv (s.apply (s.messages.removeMessages s.db msgIds)) := by
  induction msgIds generalizing s with
  | nil => exact h
  | cons msgId msgIds ih =>
    unfold MessagesImpl.removeMessages
    cases hcache : s.messages.removeFromCache msgId with
    | error x => exact h
    | ok result =>
      obtain ⟨removed, c⟩ := result
      cases removed with
      | none => exact ih (h.uncache hcache)
      | some dao =>
        obtain ⟨apiEvents, db, hdb, hinv⟩ := h.removed hcache
        dsimp only
        rw [hdb]
        exact ih hinv

/-- A stored message is put into the cache, unless a cached one stays. -/
theorem Inv.cache (h : Inv s) {msgId : IdType} {dao : MessageDao} {c : MessagesImpl}
    (hload : MessageDao.load s.db msgId false = some dao)
    (hself : c.messages.find? msgId = some dao ∨ c.messages.find? msgId = s.messages.messages.find? msgId)
    (hothers : ∀ i, msgId ≠ i → c.messages.find? i = s.messages.messages.find? i) : Inv { s with messages := c } := by
  obtain ⟨row, hrow, rfl⟩ := Option.map_eq_some_iff.mp hload
  have hcur : currentRow s.db msgId = some row := hrow
  apply h.writes (.nothing rfl msgId) hothers
  rcases hself with hself | hself
  · rw [hself, hcur]
    have hkept := h msgId
    rw [hcur] at hkept
    exact hkept.cache (key_of_currentRow hcur).2
  · rw [hself]
    exact h msgId

theorem Inv.notify (h : Inv s) (e : Event) : Inv (s.apply (s.messages.notify s.db e)) := by
  cases e with
  | messageAdded convId msgId =>
    change Inv (s.apply (s.messages.messageAdded s.db msgId))
    unfold MessagesImpl.messageAdded
    cases hload : MessageDao.load s.db msgId false with
    | none => exact h
    | some dao =>
      have hid : dao.row.id = msgId := (MessagesSyncer.loaded_of_load hload).2.1
      refine h.cache hload ?_ ?_
      · dsimp only
        rw [Table.find?_insertOrIgnore, if_pos hid]
        cases s.messages.messages.find? msgId with
        | none => exact .inl rfl
        | some dao' => exact .inr rfl
      · intro i hi
        dsimp only
        rw [Table.find?_insertOrIgnore, if_neg (hid ▸ hi)]
  | messageModified convId msgId =>
    change Inv (s.apply (s.messages.messageModified s.db msgId))
    unfold MessagesImpl.messageModified
    cases hload : MessageDao.load s.db msgId false with
    | none => exact h
    | some dao =>
      have hid : dao.row.id = msgId := (MessagesSyncer.loaded_of_load hload).2.1
      refine h.cache hload ?_ ?_
      · dsimp only
        rw [Table.find?_insertOrReplace, if_pos hid]
        exact .inl rfl
      · intro i hi
        dsimp only
        rw [Table.find?_insertOrReplace, if_neg (hid ▸ hi)]
  | conversationWillBeRemoved convId =>
    change Inv (s.apply (s.messages.conversationWillBeRemoved s.db convId))
    unfold MessagesImpl.conversationWillBeRemoved
    cases hids : s.messages.allForConversation convId with
    | error x => exact h
    | ok msgIds => exact h.removeMessages msgIds
  | messageRemoved convId msgId =>
    change Inv (s.apply (s.messages.messageRemoved s.db msgId))
    unfold MessagesImpl.messageRemoved
    cases hcache : s.messages.removeFromCache msgId with
    | error x => exact h
    | ok result =>
      obtain ⟨removed, c⟩ := result
      cases removed with
      | none => exact h.uncache hcache
      | some dao => exact h.uncache hcache
  | _ => exact h

/-! ### The syncer -/

section

variable {P : Platform} {account : MessagesSyncer.Account}

/-- Nothing is written to the messages while a message is received. -/
theorem Inv.skip (h : Inv s) {db : Db} (hmessages : db.messages = s.db.messages) :
    Inv { s with db := db, loc := none, modifications := [] } := by
  intro id
  have hsame := Writes.nothing hmessages id
  dsimp only
  rw [hsame.current_self, hsame.old_self]
  exact (h id).leave (by simp)

/-- A version of a message is processed. -/
theorem Inv.record (h : Inv s) {id : IdType} {current old : Option MessageRow} {db : Db}
    (hwrites : Writes id current old s.db db) {version : Option MetaVersion}
    (hkept : Kept id current old (s.messages.messages.find? id) none version False) :
    Inv { s with
      db := db
      loc := none
      modifications := []
      versions := Function.update s.versions id version } := by
  intro i
  by_cases hi : id = i
  · subst hi
    dsimp only
    rw [hwrites.current_self, hwrites.old_self, Function.update_self]
    exact hkept.leave (by simp)
  · dsimp only
    rw [hwrites.current_other hi, hwrites.old_other hi, Function.update_of_ne (Ne.symm hi)]
    exact (h i).leave (by simp)

/-- A message that was deleted when it was loaded leaves no copy that is not deleted. -/
private theorem mergedOld_of_deleted {loc o : MessageRow} (hid : loc.id = o.id) (hloc : loc.deleted = true)
    (ho : o.deleted = true) (remote : MessageRow) : loc.mergedOld (some o) remote = none := by
  have hequals : (MessageDao.ofRow (loc.merged (some o) remote)).equals (.ofRow o) = true := by
    unfold MessageDao.equals
    simp [MessageDao.ofRow, MessageRow.merged, hid, hloc, ho]
  unfold MessageRow.mergedOld
  rw [Option.bind_some, if_pos hequals]

/-- A decoded version is merged into the message as it was loaded. -/
theorem Kept.merge {id : IdType} {loc cur remote written : MessageRow} {old : Option MessageRow} {dao : Option MessageDao}
    {version : Option MetaVersion} {listed : Prop} {v : MetaVersion}
    (h : Kept id (some cur) old dao (some (some (.ofRow loc))) version listed) (hold : ∀ o, old = some o → o.id = id)
    (hsaved : MessageDao.Saved (loc.merged old remote) loc cur written)
    (hharm : latestMetaVersion < v → loc = cur ∧ Unharmed cur old) :
    Kept id (some written) (loc.mergedOld old remote) dao none (some v) False := by
  have hcopy : ∀ o', loc.mergedOld old remote = some o' → ∃ o, old = some o ∧ o'.metaVersion = o.metaVersion := by
    intro o' ho'
    obtain ⟨o, ho, hmerged⟩ := Option.bind_eq_some_iff.mp ho'
    split at hmerged
    · cases hmerged
    · cases hmerged
      exact ⟨o, ho, rfl⟩
  have hlocId : loc.id = id := by
    obtain ⟨⟨row, hrow, hid, -⟩, -⟩ := h.loaded _ rfl
    cases hrow
    exact hid
  obtain ⟨m, hcur, hdao, hloc⟩ := h.agrees
  have hremoved : ∀ d r, dao = some d → some written = some r → r.deleted = true →
      (loc.mergedOld old remote).isSome = true → d.row.deleted = true := by
    intro d r hd hr hdeleted hsome
    cases hr
    obtain ⟨o', ho'⟩ := Option.isSome_iff_exists.mp hsome
    obtain ⟨o, ho, -⟩ := hcopy o' ho'
    by_contra halive
    have halive' : d.row.deleted = false := by simpa using halive
    rcases hsaved with hwritten | ⟨-, hwritten⟩
    · -- the message was deleted when it was loaded, so the copy is dropped
      have hlocDeleted : loc.deleted = true := by
        rw [hwritten] at hdeleted
        exact hdeleted
      rcases h.stale _ rfl hlocDeleted (.inr ⟨d, hd, halive'⟩) with ⟨-, -, -, hnone⟩ | ⟨o₁, ho₁, hdel₁⟩
      · rw [ho] at hnone
        cases hnone
      · rw [ho₁, mergedOld_of_deleted (hlocId.trans (hold o₁ ho₁).symm) hlocDeleted hdel₁] at ho'
        cases ho'
    · rw [hwritten] at hdeleted
      exact halive (h.removed d cur hd rfl hdeleted (by rw [ho]; rfl))
  refine ⟨fun d hd => ⟨(h.cached d hd).1, rfl⟩, fun hl => (by cases hl), fun _ hl => (by cases hl), fun _ => rfl,
    ⟨m, ?_, hdao, fun _ hl => by cases hl⟩, hremoved, fun _ hl => (by cases hl), ?_, False.elim⟩
  · intro r hr halive
    cases hr
    rcases hsaved with hwritten | ⟨-, hwritten⟩
    · rw [hwritten] at halive ⊢
      exact hloc _ rfl halive
    · rw [hwritten] at halive ⊢
      exact hcur cur rfl halive
  · intro v' hv' hlt
    cases hv'
    obtain ⟨rfl, hunharmed⟩ := hharm hlt
    have hwritten := hsaved.eq_of_fresh
    refine ⟨written, rfl, ?_⟩
    rcases hunharmed.stored with ⟨hdeleted, hsome⟩ | ⟨halive, hversion, hversions⟩
    · refine .inl ⟨by rw [hwritten]; exact hdeleted, ?_⟩
      exact fun d hd => h.removed d loc hd rfl hdeleted hsome
    · refine .inr ⟨by rw [hwritten]; exact halive, by rw [hwritten]; exact hversion, ?_⟩
      intro o' ho'
      obtain ⟨o, ho, hsame⟩ := hcopy o' ho'
      rw [hsame]
      exact hversions o ho

/-- A message that was not stored when it was loaded is not stored now. -/
private theorem Inv.processNew (h : Inv s) {r : MessagesSyncer.Received} (hloc : s.loc = some (r.msg.id, none))
    (hharmless : r.msg.deleted = false → Harmless P account r s) :
    Inv { s with
      db := (final (MessagesSyncer.processLoaded P account r none s.syncer)).db
      loc := none
      modifications := []
      versions := s.processed P account r (MessagesSyncer.processLoaded P account r none s.syncer) } := by
  have hkept := h r.msg.id
  have hcur : currentRow s.db r.msg.id = none := hkept.absent (loaded_self hloc)
  rw [hcur] at hkept
  have hprocess : MessagesSyncer.processLoaded P account r none s.syncer =
      MessagesSyncer.process P account { r with cancelled := false } s.syncer := by
    rw [MessagesSyncer.process_eq_processLoaded P account s.syncer rfl, MessageDao.load_current]
    dsimp only
    rw [hcur]
    rfl
  rw [hprocess]
  unfold processed
  cases hdeleted : r.msg.deleted with
  | true =>
    rcases MessagesSyncer.process_deleted (r := { r with cancelled := false }) P account s.syncer rfl hdeleted
      (fun _ => hkept.of_none.2.1) with ⟨synced, hprocess, hwrites⟩ | ⟨e, hprocess⟩
    · rw [hprocess, if_pos rfl]
      exact h.record hwrites (hkept.bury (.inl rfl))
    · rw [hprocess]
      exact h.skip rfl
  | false =>
    rw [if_neg (by simp)]
    cases hread : MessagesSyncer.readMessage P account r s.syncer with
    | none =>
      have hunread : Ends (MessagesSyncer.process P account { r with cancelled := false }) s.syncer _ _ :=
        MessagesSyncer.process_unread hdeleted hread
      cases hprocess : MessagesSyncer.process P account { r with cancelled := false } s.syncer with
      | ok u synced =>
        have hsame := ends_of_ok hunread hprocess
        exact h.skip hsame
      | error e synced =>
        have hsame := ends_of_error hunread hprocess
        exact h.skip hsame
    | some read =>
      obtain ⟨version, decoder, synced⟩ := read
      have hfrom := MessagesSyncer.readFrom_of_read hread
      rcases MessagesSyncer.process_new (r := { r with cancelled := false }) rfl hcur hdeleted hread with
        ⟨synced', convId, row, hprocess, hrow, hwrites⟩ | ⟨e, hprocess⟩
      · rw [hprocess]
        apply h.record hwrites
        apply hkept.add
        intro v hv hlt
        cases hv
        have hversion : row.metaVersion = version := by
          rw [hrow]
          exact hfrom.others ((hharmless hdeleted version decoder synced hread hlt).1 hcur)
        refine ⟨⟨by rw [hrow]; exact hfrom.deleted, ?_, ?_⟩, not_false⟩
        · exact lt_of_lt_of_le (hversion ▸ hlt) (le_max_right _ _)
        · intro old' hold'
          dsimp only at hold'
          rw [hkept.of_none.2.1, if_neg (by rw [hversion]; exact Nat.not_lt.mpr hlt.le)] at hold'
          cases hold'
      · rw [hprocess]
        exact h.skip (MessagesSyncer.readMessage_eq_some hread).1.messages

theorem Inv.process (h : Inv s) {r : MessagesSyncer.Received} {loc : Option MessageDao}
    (hloc : s.loc = some (r.msg.id, loc)) (hharmless : r.msg.deleted = false → Harmless P account r s) :
    Inv { s with
      db := (final (MessagesSyncer.processLoaded P account r loc s.syncer)).db
      loc := none
      modifications := []
      versions := s.processed P account r (MessagesSyncer.processLoaded P account r loc s.syncer) } := by
  cases loc with
  | none => exact h.processNew hloc hharmless
  | some l =>
    have hkept := h r.msg.id
    rw [loaded_self hloc] at hkept
    obtain ⟨⟨row, rfl, hid, hold⟩, hsome⟩ := hkept.loaded l rfl
    obtain ⟨cur, hcur⟩ := Option.isSome_iff_exists.mp hsome
    rw [hcur] at hkept
    unfold processed
    cases hdeleted : r.msg.deleted with
    -- a tombstone clears the message, or raises and changes nothing
    | true =>
      rcases MessagesSyncer.processLoaded_deleted P account s.syncer hid hold hcur hdeleted with
        ⟨synced, written, hprocess, hsaved, hwrites⟩ | ⟨e, hprocess⟩
      · rw [hprocess, if_pos rfl]
        refine h.record hwrites (hkept.bury ?_)
        rcases hsaved with hwritten | ⟨-, hwritten⟩
        · exact .inl (by rw [hwritten]; rfl)
        · exact .inr (by rw [hwritten])
      · rw [hprocess]
        exact h.skip rfl
    | false =>
      rw [if_neg (by simp)]
      cases hread : MessagesSyncer.readMessage P account r s.syncer with
      -- a message that cannot be read is skipped
      | none =>
        have hunread : Ends (MessagesSyncer.processLoaded P account r (some (.ofRow row))) s.syncer _ _ :=
          MessagesSyncer.processLoaded_unread _ hdeleted hread
        cases hprocess : MessagesSyncer.processLoaded P account r (some (.ofRow row)) s.syncer with
        | ok u synced =>
          have hsame := ends_of_ok hunread hprocess
          exact h.skip hsame
        | error e synced =>
          have hsame := ends_of_error hunread hprocess
          exact h.skip hsame
      -- a readable one is merged into the message as it was loaded
      | some read =>
        obtain ⟨version, decoder, synced⟩ := read
        obtain ⟨synced', written, hprocess, hsaved, hwrites⟩ :=
          MessagesSyncer.processLoaded_modified hid hold hcur hdeleted hread
        rw [hprocess]
        refine h.record hwrites (hkept.merge (fun o ho => (key_of_oldRow ho).1) hsaved ?_)
        intro hlt
        obtain ⟨hfresh, hunharmed⟩ := (hharmless hdeleted version decoder synced hread hlt).2 cur hcur
        rw [hloc] at hfresh
        cases hfresh
        exact ⟨rfl, hunharmed⟩

/-- A message is processed as it was loaded: the flag was looked at before it was loaded. -/
theorem perform_process {r : MessagesSyncer.Received} {s' : MetaSession} {es : List Event}
    (hperform : perform P account (.process r) s = some (s', es)) :
    ∃ loc, s.loc = some (r.msg.id, loc) ∧ s' = { s with
      db := (final (MessagesSyncer.processLoaded P account r loc s.syncer)).db
      loc := none
      modifications := []
      versions := s.processed P account r (MessagesSyncer.processLoaded P account r loc s.syncer) } := by
  unfold perform at hperform
  dsimp only at hperform
  split at hperform
  · cases hperform
  · next msgId loc hfilter =>
    obtain ⟨hloc, hid⟩ := Option.filter_eq_some_iff.mp hfilter
    cases hperform
    have hsame : msgId = r.msg.id := beq_iff_eq.mp hid
    rw [hsame] at hloc
    exact ⟨loc, hloc, rfl⟩

/-- What is listed has a copy of a supported meta version. -/
theorem mem_locallyModifiedMessages {db : Db} {id : IdType}
    (h : id ∈ MessageDao.locallyModifiedMessages db latestMetaVersion) :
    ∃ old, oldRow db id = some old ∧ old.metaVersion ≤ latestMetaVersion := by
  obtain ⟨row, hrow, rfl⟩ := List.mem_map.mp h
  obtain ⟨hmem, hselected⟩ := Table.mem_select.mp hrow
  rw [Bool.and_eq_true, decide_eq_true_eq] at hselected
  refine ⟨row, ?_, hselected.2⟩
  have hkey : row.key = (row.id, true) := Prod.ext rfl hselected.1
  exact Table.find?_eq_some.mpr ⟨hmem, hkey⟩

/-- The syncer loads the local version of a message. -/
theorem Inv.load (h : Inv s) (msgId : IdType) :
    Inv { s with loc := some (msgId, MessageDao.load s.db msgId false) } := by
  intro id
  by_cases hid : msgId = id
  · subst hid
    rw [loaded_self (s := { s with loc := some (msgId, MessageDao.load s.db msgId false) }) rfl]
    exact (h msgId).load fun r hr => key_of_currentRow hr
  · have hother : ({ s with loc := some (msgId, MessageDao.load s.db msgId false) } : MetaSession).loaded id = none := by
      unfold loaded
      rw [Option.filter_some, beq_false_of_ne hid]
      rfl
    rw [hother]
    exact (h id).leave fun hlisted => hlisted

theorem Inv.uploadModifications (h : Inv s) :
    Inv { s with loc := none, modifications := MessageDao.locallyModifiedMessages s.db latestMetaVersion } := by
  intro id
  have hkept : Kept id (currentRow s.db id) (oldRow s.db id) (s.messages.messages.find? id) none (s.versions id) False :=
    (h id).leave False.elim
  refine ⟨hkept.cached, hkept.absent, hkept.loaded, hkept.copied, hkept.agrees, hkept.removed, hkept.stale, hkept.newer, ?_⟩
  intro hlisted v hv hlt
  obtain ⟨old, hold, hsupported⟩ := mem_locallyModifiedMessages hlisted
  obtain ⟨r, hr, hdead | hnewer⟩ := hkept.newer v hv hlt
  · exact ⟨r, hr, hdead⟩
  · exact absurd (hnewer.2.2 old hold) (Nat.not_lt.mpr hsupported)

private theorem Inv.leave (h : Inv s) {ids : List IdType} (hids : ∀ id ∈ ids, id ∈ s.modifications) :
    Inv { s with loc := none, modifications := ids } :=
  fun id => (h id).leave (hids id)

theorem Inv.handleSuccessfulModification (h : Inv s) (idlm : IdLastModified) :
    Inv { s with
      db := (final (MessagesSyncer.handleSuccessfulModification idlm s.syncer)).db
      loc := none
      modifications := left s.modifications (MessagesSyncer.handleSuccessfulModification idlm s.syncer) } := by
  have hends : Ends (MessagesSyncer.handleSuccessfulModification idlm) s.syncer _ _ :=
    MessagesSyncer.handleSuccessfulModification_ends idlm s.syncer
  cases hmodify : MessagesSyncer.handleSuccessfulModification idlm s.syncer with
  | error e s' =>
    have hdb := ends_of_error hends hmodify
    rw [final, left, hdb]
    exact h.leave (by simp)
  | ok result s' =>
    obtain ⟨msg, happly⟩ := ends_of_ok hends hmodify
    obtain ⟨cur, messages, hcur, hmsg, -, hwrites⟩ := MessagesSyncer.applyModification_writes happly
    have hleft : Inv { s with loc := none } := h.leave fun _ hid => hid
    have hkept := h idlm.id
    rw [hcur] at hkept
    apply hleft.writes hwrites fun _ _ => rfl
    refine hkept.write ?_ ?_
    · rw [hmsg]
    · rw [hmsg]

theorem store_writes {dateSent : String} {draft : DraftDao} {conv : ConversationDao} {msgSent : MessageSent}
    {delivery : List KulloAddress} {db db' : Db} {added : MessagesSyncer.Added} {attachments : List AttachmentDao}
    (h : MessagesUploader.store P account.userAddress dateSent draft conv msgSent delivery db =
      .ok (added, attachments, db')) :
    currentRow db msgSent.id = none ∧ ∃ row : MessageRow,
      (row.lastModified = msgSent.lastModified ∧ row.deleted = false ∧ row.state = fun _ => true) ∧
        Writes msgSent.id (some row) (oldRow db msgSent.id) db db' := by
  unfold MessagesUploader.store at h
  obtain ⟨db₁, hconvert, h⟩ := bind_eq_ok.mp h
  obtain ⟨⟨added', message, db₂⟩, hadd, h⟩ := bind_eq_ok.mp h
  cases h
  have hrow := MessagesUploader.makeMessageDao_row account.userAddress dateSent msgSent draft
  have hnew := MessagesUploader.makeMessageDao_isNew account.userAddress dateSent msgSent draft
  have hsame := (foldlM_sameRows (fun _ _ _ => AttachmentDao.convert_sameRows) hconvert).1
  -- only its row matters from here on
  generalize MessagesUploader.makeMessageDao account.userAddress dateSent msgSent draft = dao at hrow hnew hadd
  obtain ⟨hfree, -, -, hadded, hwrites⟩ := MessagesSyncer.addMessage_writes hnew (by rw [hrow]; rfl) hadd
  have hid : dao.row.id = msgSent.id := by
    rw [hrow]
    rfl
  dsimp only at hfree hwrites
  rw [hid] at hfree hwrites
  refine ⟨?_, added.msg, ?_, ?_⟩
  · rw [← hsame.current]
    exact hfree
  · rw [hadded]
    dsimp only
    rw [hrow]
    refine ⟨rfl, rfl, ?_⟩
    funext state
    cases state <;> rfl
  · have hold : oldRow db₁ msgSent.id = oldRow db msgSent.id := by
      unfold oldRow
      rw [hsame.messages]
    rw [← hold]
    exact (hwrites.of_messages hsame.messages).then_messages rfl

theorem Inv.perform (h : Inv s) {op : MetaOp} {pending : Multiset Event} {s' : MetaSession} {es : List Event}
    (hguard : (guard P account).perform op s pending) (hperform : perform P account op s = some (s', es)) : Inv s' := by
  cases op with
  | setState state msgId value =>
    cases hperform
    exact h.setState state msgId value
  | remove msgId =>
    cases hperform
    exact h.remove msgId
  | triggerRemoval convId =>
    cases hperform
    exact h
  | load msgId =>
    cases hperform
    exact h.load msgId
  | process r =>
    obtain ⟨loc, hloc, rfl⟩ := perform_process hperform
    exact h.process hloc (hguard r rfl)
  | uploadModifications =>
    cases hperform
    exact h.uploadModifications
  | request iv =>
    unfold MetaSession.perform at hperform
    cases hids : s.modifications with
    | nil =>
      rw [hids] at hperform
      cases hperform
    | cons id ids =>
      have hrest : ∀ i ∈ ids, i ∈ s.modifications := by
        intro i hi
        rw [hids]
        exact List.mem_cons_of_mem _ hi
      rw [hids] at hperform
      dsimp only at hperform
      split at hperform
      · cases hperform
        exact h.leave hrest
      · cases hperform
        exact h.leave (by simp)
  | handleSuccessfulModification idlm =>
    cases hperform
    exact h.handleSuccessfulModification idlm
  | stop =>
    cases hperform
    exact h.leave (by simp)
  | store dateSent draft conv msgSent delivery =>
    unfold MetaSession.perform at hperform
    dsimp only at hperform
    split at hperform
    · next added _ db hstore =>
      cases hperform
      obtain ⟨hfree, row, -, hwrites⟩ := store_writes hstore
      have hleft : Inv { s with loc := none } := h.leave fun _ hid => hid
      have hkept := h msgSent.id
      rw [hfree] at hkept
      apply hleft.writes hwrites fun _ _ => rfl
      apply hkept.add
      intro v hv hlt
      exact absurd hlt (hkept.of_none.2.2 v hv)
    · cases hperform

/-- The messages are cached as they are stored. -/
theorem find?_construct (db : Db) (id : IdType) :
    (MessagesImpl.construct db).messages.find? id = (currentRow db id).map MessageDao.ofRow := by
  ext d
  rw [MessagesImpl.find?_construct, MessageDao.mem_all, Option.map_eq_some_iff]
  constructor
  · rintro ⟨⟨r, hr, hold, rfl⟩, hid⟩
    have hkey : r.key = (id, false) := Prod.ext hid hold
    exact ⟨r, Table.find?_eq_some.mpr ⟨hr, hkey⟩, rfl⟩
  · rintro ⟨r, hr, rfl⟩
    obtain ⟨hid, hold⟩ := key_of_currentRow hr
    exact ⟨⟨r, Table.mem_of_find? hr, hold, rfl⟩, hid⟩

theorem inv_initial {db : Db} {versions : IdType → Option MetaVersion} (h : Recorded db versions) :
    Inv (initial db versions).data := by
  intro id
  have hcached : ∀ d, (MessagesImpl.construct db).messages.find? id = some d →
      ∃ r, currentRow db id = some r ∧ d = .ofRow r := by
    intro d hd
    rw [find?_construct] at hd
    obtain ⟨r, hr, hsame⟩ := Option.map_eq_some_iff.mp hd
    exact ⟨r, hr, hsame.symm⟩
  refine ⟨?_, fun hl => (by cases hl), fun _ hl => (by cases hl), h.copied id, ?_, ?_, fun _ hl => (by cases hl), ?_,
    fun hl => by cases hl⟩
  · intro d hd
    obtain ⟨r, hr, rfl⟩ := hcached d hd
    exact ⟨⟨rfl, (key_of_currentRow hr).2⟩, by rw [initial, hr]; rfl⟩
  · refine ⟨((currentRow db id).map MessageRow.metaVersion).getD 0, ?_, ?_, fun _ hl => by cases hl⟩
    · intro r hr _
      have hcur : currentRow db id = some r := hr
      rw [hcur]
      rfl
    · intro d hd _
      obtain ⟨r, hr, rfl⟩ := hcached d hd
      rw [hr]
      rfl
  · intro d r hd hr hdeleted _
    obtain ⟨r', hr', rfl⟩ := hcached d hd
    rw [initial] at hr
    dsimp only at hr
    rw [hr'] at hr
    cases hr
    exact hdeleted
  · intro v hv hlt
    obtain ⟨cur, hcur, hdeleted | hstored⟩ := h.newer id v hv hlt
    · refine ⟨cur, hcur, .inl ⟨hdeleted, ?_⟩⟩
      intro d hd
      obtain ⟨r, hr, rfl⟩ := hcached d hd
      rw [hcur] at hr
      cases hr
      exact hdeleted
    · cases hdeleted : cur.deleted with
      | true =>
        refine ⟨cur, hcur, .inl ⟨hdeleted, ?_⟩⟩
        intro d hd
        obtain ⟨r, hr, rfl⟩ := hcached d hd
        rw [hcur] at hr
        cases hr
        exact hdeleted
      | false => exact ⟨cur, hcur, .inr ⟨hdeleted, hstored.1, hstored.2⟩⟩

private theorem Inv.recorded (h : Inv s) : Recorded s.db s.versions where
  copied id := (h id).copied
  newer id version hversion hlt := by
    obtain ⟨cur, hcur, hdead | hnewer⟩ := (h id).newer version hversion hlt
    · exact ⟨cur, hcur, .inl hdead.1⟩
    · exact ⟨cur, hcur, .inr hnewer.2⟩

private theorem Inv.sendsSupported (h : Inv s) (op : MetaOp) : SendsSupported P account op s := by
  rintro iv id ids idlm metaData - hids hrequest version hversion
  obtain ⟨cur, old, hcur, -, ⟨-, hdelete⟩ | ⟨halive, data, hmodify, -⟩⟩ :=
    MessagesSyncer.uploadRequest_eq_some hrequest
  · cases hdelete
  · cases hmodify
    by_contra hlt
    obtain ⟨r, hr, hdead⟩ := (h id).listed (by rw [hids]; exact List.mem_cons_self) version hversion
      (Nat.lt_of_not_le hlt)
    rw [hcur] at hr
    cases hr
    rw [hdead.1] at halive
    cases halive

/-- A version whose states are not read keeps a state exactly if it is set already or was changed locally. -/
theorem merged_state_iff {cur remote : MessageRow} {old : Option MessageRow} (hremote : ∀ state, remote.state state = true)
    (state : MessageState) :
    (cur.merged old remote).state state = cur.state state ↔ cur.state state = true ∨
      ∃ old', old = some old' ∧ (cur.deleted = true ∨ old'.state state ≠ cur.state state) := by
  have hstate : (cur.merged old remote).state state = cur.mergedState old remote state := by cases state <;> rfl
  rw [hstate]
  unfold MessageRow.mergedState
  cases hset : cur.state state with
  | true => cases old <;> simp [hremote]
  | false =>
    cases old with
    | none => simp [hremote]
    | some o =>
      dsimp only
      rw [hremote]
      by_cases hdeleted : cur.deleted = true
      · simp [hdeleted]
      · by_cases hchanged : o.state state = false <;> simp [hdeleted, hchanged]

private theorem keepsStates {op : MetaOp} {pending : Multiset Event} {s' : MetaSession} {es : List Event}
    (hguard : (guard P account).perform op s pending) (hperform : perform P account op s = some (s', es)) :
    KeepsStates P account op s s' := by
  rintro r version decoder synced cur rfl hdeleted hread hlt hcur
  obtain ⟨hfresh, hunharmed⟩ := (hguard r rfl hdeleted version decoder synced hread hlt).2 cur hcur
  obtain ⟨loc, hloc, rfl⟩ := perform_process hperform
  rw [hloc] at hfresh
  cases hfresh
  have hfrom := MessagesSyncer.readFrom_of_read hread
  obtain ⟨hid, hold⟩ := key_of_currentRow hcur
  obtain ⟨synced', written, hprocess, hsaved, hwrites⟩ :=
    MessagesSyncer.processLoaded_modified hid hold hcur hdeleted hread
  rw [hsaved.eq_of_fresh] at hwrites
  refine ⟨cur.merged (oldRow s.db r.msg.id) decoder.message.row, ?_, ?_⟩
  · rw [hprocess]
    exact hwrites.current_self
  · intro state
    exact (merged_state_iff (hfrom.newer hlt) state).mpr (hunharmed.states state)

theorem reaches_inv {s₀ s : EventLoop.State SessionThread Event MetaSession} (h₀ : Inv s₀.data)
    (h : Transition.Reaches (loop P account).Step (guard P account).Ok s₀ s) : Inv s.data := by
  apply EventLoop.Reaches.keeps (I := fun s _ => Inv s) ?_ ?_ h h₀
  · intro op d p d' es hinv hok hperform
    exact hinv.perform hok hperform
  · intro e d p hinv _
    exact hinv.notify e

/-- In every run that processes newer versions only where they do no harm, meta data of a newer version is not
overwritten and leaves the states of stored messages alone; and the database stays fit for the next session. -/
theorem newer_meta_kept {db : Db} {versions : IdType → Option MetaVersion} (hdb : Recorded db versions)
    {s : EventLoop.State SessionThread Event MetaSession}
    (h : Transition.Reaches (loop P account).Step (guard P account).Ok (initial db versions) s) :
    Recorded s.data.db s.data.versions ∧
      ∀ op s' es, (guard P account).perform op s.data s.pending → perform P account op s.data = some (s', es) →
        SendsSupported P account op s.data ∧ KeepsStates P account op s.data s' := by
  have hinv := reaches_inv (inv_initial hdb) h
  refine ⟨hinv.recorded, ?_⟩
  intro op s' es hguard hperform
  exact ⟨hinv.sendsSupported op, keepsStates hguard hperform⟩

end

/-! ### An example -/

/-- A platform on which the JSON texts of a message are a few bytes: two for meta data, one for a key safe, three for
the content. -/
def sharing : Platform :=
  { Platform.tagging with
    writeJson := fun json =>
      match json with
      | .object [(_, .int done), (_, .int read)] => [UInt8.ofNat read.toNat, UInt8.ofNat done.toNat]
      | _ => []
    parseJson := fun text =>
      match text with
      | [read, done] => .ok (.ok (MessageEncoder.metaJson (read == 1) (done == 1)))
      | [_] =>
        .ok (.ok (.object
          [("hashAlgo", .string "SHA-512"), ("msgFormat", .int 1), ("symmCipher", .string "AES-256/GCM"),
            ("symmKey", .string (String.ofList (List.replicate 32 'k')))]))
      | _ =>
        .ok (.ok (.object
          [("attachmentsIndex", .array []), ("dateSent", .string "2015-01-01T00:00:00+00:00"), ("footer", .string ""),
            ("recipients", .array [.string "alice#kullo.test"]),
            ("sender", .object [("address", .string "bob#kullo.test"), ("avatar", .object []), ("name", .string "Bob"),
              ("organization", .string "")]), ("text", .string "hello")])) }

def alice : MessagesSyncer.Account := ⟨.alice, []⟩

def zeroIv : Bytes := List.replicate 16 0

/-- Meta data of a version, with these bytes for the states. -/
def sharingMeta (version : UInt8) (states : Bytes) : Bytes :=
  [0, 0, 0, version] ++ (zeroIv ++ sharing.gcmEncrypt [] zeroIv states)

/-- A message of somebody else. -/
def letter (lastModified : LastModified) (metaData : Bytes) : HttpMessage where
  id := 1
  lastModified := lastModified
  dateReceived := some ⟨some 212286873600, 0⟩
  keySafe := [0, 0, 0, 1, 75]
  content := sharing.gcmEncrypt [] [] [0, 0, 0, 1, 0, 0, 0, 0, 1, 2, 3]
  metaData := metaData

/-- The keys with which the message is read. -/
def letterKeys : Db where
  keysAsymm := (∅ : Table AsymmetricKeyPairRow.id).insertOrIgnore ⟨1, .encryption, []⟩
  keysPublic := (∅ : Table PublicKeyRow.key).insertOrIgnore ⟨"bob#kullo.test", .signature, 1, []⟩

/-- A stored message that is read and done. -/
def storedLetter (id : IdType) (metaVersion : MetaVersion) : MessageRow where
  id := id
  conversationId := 1
  sender := "bob#kullo.test"
  lastModified := 5
  metaVersion := metaVersion
  read := true
  done := true

/-- The meta data of the first message is of a newer version, that of the second one is not. -/
def newerDb : Db :=
  { letterKeys with
    messages := ((∅ : Table MessageRow.key).insertOrIgnore (storedLetter 1 2)).insertOrIgnore (storedLetter 2 1) }

def newerVersions (id : IdType) : Option MetaVersion := if id = 1 then some 2 else if id = 2 then some 1 else none

/-- The user marks both messages as unread, and the syncer comes to the first one. -/
def unreadSteps : List (EventLoop.Action SessionThread MetaOp) :=
  [.perform (.setState .read 1 false), .send .main, .send .main, .perform (.setState .read 2 false), .send .main,
    .send .main, .perform (.load 1)]

/-- Another newer version of the first message. -/
def newerLetter : MessagesSyncer.Received := { msg := letter 6 (sharingMeta 2 []) }

/-- The modifications are looked for. -/
def listSteps : List (EventLoop.Action SessionThread MetaOp) := [.send .syncer, .perform .uploadModifications]

def after (s : EventLoop.State SessionThread Event MetaSession) (steps : List (EventLoop.Action SessionThread MetaOp)) :
    EventLoop.State SessionThread Event MetaSession :=
  ((loop sharing alice).run s steps).getD s

def unread : EventLoop.State SessionThread Event MetaSession := after (initial newerDb newerVersions) unreadSteps

def received : EventLoop.State SessionThread Event MetaSession := after unread [.perform (.process newerLetter)]

def listed : EventLoop.State SessionThread Event MetaSession := after received listSteps

private theorem recorded_newerDb : Recorded newerDb newerVersions := by
  constructor
  · intro id hsome
    have hold : oldRow newerDb id = none := by
      unfold oldRow newerDb
      rw [Table.find?_insertOrIgnore, if_neg (by simp [storedLetter, MessageRow.key]), Table.find?_insertOrIgnore,
        if_neg (by simp [storedLetter, MessageRow.key])]
      rfl
    rw [hold] at hsome
    cases hsome
  · intro id version hversion hlt
    unfold newerVersions at hversion
    split at hversion
    · next hid =>
      subst hid
      refine ⟨storedLetter 1 2, rfl, .inr ⟨by decide, ?_⟩⟩
      intro old hold
      cases hold
    · split at hversion
      · cases hversion
        exact absurd hlt (by decide)
      · cases hversion

private theorem after_reaches {s : EventLoop.State SessionThread Event MetaSession}
    {steps : List (EventLoop.Action SessionThread MetaOp)} (hrun : ((loop sharing alice).run s steps).isSome = true)
    (hsteps : ∀ a ∈ steps, ∀ r, a ≠ .perform (.process r)) :
    Transition.Reaches (loop sharing alice).Step (guard sharing alice).Ok s (after s steps) := by
  obtain ⟨s', hs'⟩ := Option.isSome_iff_exists.mp hrun
  have hafter : after s steps = s' := by
    unfold after
    rw [hs']
    rfl
  rw [hafter]
  refine EventLoop.Reaches.of_run_guarded ?_ hs'
  intro a ha s₁
  cases a with
  | perform op =>
    intro r hop
    exact absurd (congrArg EventLoop.Action.perform hop) (hsteps _ ha r)
  | send t => trivial
  | handle =>
    intro e queue _
    trivial

/-- The rows of the first message when it is processed, and that it is. -/
theorem unread_rows :
    (currentRow unread.data.db 1 = some { storedLetter 1 2 with read := false } ∧
      oldRow unread.data.db 1 = some (storedLetter 1 2).asOld ∧
        unread.data.loc = some (1, MessageDao.load unread.data.db 1 false)) ∧
      ((loop sharing alice).run (initial newerDb newerVersions) unreadSteps).isSome = true ∧
        ((loop sharing alice).step unread (.perform (.process newerLetter))).isSome = true := by
  decide +kernel

private theorem guard_received : (guard sharing alice).Ok unread (.perform (.process newerLetter)) := by
  obtain ⟨hcur, hold, hloc⟩ := unread_rows.1
  rintro r hr
  cases hr
  intro _ version decoder synced _ _
  refine ⟨fun hnone => ?_, ?_⟩
  · exact absurd (hcur.symm.trans hnone) (by simp)
  · intro cur hcur'
    have hsame : cur = { storedLetter 1 2 with read := false } := Option.some.inj (hcur'.symm.trans hcur)
    have hold' : oldRow unread.data.db newerLetter.msg.id = some (storedLetter 1 2).asOld := hold
    rw [MessageDao.load_current, hcur] at hloc
    rw [hsame, hold']
    refine ⟨hloc, ?_⟩
    constructor
    · intro state
      cases state with
      | read => exact .inr ⟨_, rfl, .inr (by decide)⟩
      | done => exact .inl rfl
    · refine .inr ⟨rfl, by decide, ?_⟩
      intro old hsome
      cases hsome
      decide

private theorem reaches_unread :
    Transition.Reaches (loop sharing alice).Step (guard sharing alice).Ok (initial newerDb newerVersions) unread :=
  after_reaches unread_rows.2.1 (by simp [unreadSteps])

private theorem step_received : (loop sharing alice).Step unread (.perform (.process newerLetter)) received := by
  obtain ⟨s', hs'⟩ := Option.isSome_iff_exists.mp unread_rows.2.2
  have hreceived : received = s' := by
    unfold received after EventLoop.run
    rw [hs']
    rfl
  rw [hreceived]
  exact hs'

private theorem reaches_listed (h : ((loop sharing alice).run received listSteps).isSome = true) :
    Transition.Reaches (loop sharing alice).Step (guard sharing alice).Ok (initial newerDb newerVersions) listed := by
  have hreceived := reaches_unread.snoc guard_received step_received
  exact hreceived.trans (after_reaches h (by simp [listSteps]))

/-- The first message stays unread, and only the meta data of the second one is uploaded. -/
theorem newer_meta_kept_letter :
    (∃ cur, currentRow received.data.db 1 = some cur ∧ cur.read = false ∧ cur.done = true) ∧
      (∃ metaData, MessagesSyncer.uploadRequest sharing alice zeroIv 2 listed.data.db =
        .ok (some (.modifyMeta ⟨2, 5⟩ metaData))) ∧
      listed.data.modifications = [2] ∧ listed.data.versions 1 = some 2 ∧
      SendsSupported sharing alice (.request zeroIv) listed.data ∧ Recorded listed.data.db listed.data.versions := by
  have hmodified : listed.data.modifications = [2] := by decide +kernel
  refine ⟨?_, ?_, hmodified, by decide +kernel, ?_⟩
  · -- the newer version is read, and it leaves the states as they are
    obtain ⟨s', es, hperform, hdata, -⟩ := EventLoop.step_perform step_received
    have hkept := ((newer_meta_kept recorded_newerDb reaches_unread).2 _ s' es guard_received hperform).2
    obtain ⟨⟨version, decoder, synced⟩, hread⟩ := Option.isSome_iff_exists.mp
      (by decide +kernel : (MessagesSyncer.readMessage sharing alice newerLetter unread.data.syncer).isSome = true)
    have hversion : (MessagesSyncer.readMessage sharing alice newerLetter unread.data.syncer).map Prod.fst = some 2 := by
      decide +kernel
    rw [hread] at hversion
    obtain rfl : version = 2 := Option.some.inj hversion
    obtain ⟨cur, hcur, hstates⟩ := hkept newerLetter 2 decoder synced _ rfl rfl hread (by decide) unread_rows.1.1
    rw [hdata]
    exact ⟨cur, hcur, hstates .read, hstates .done⟩
  · exact ⟨sharingMeta 1 [0, 1], by decide +kernel⟩
  · obtain ⟨hrecorded, hsteps⟩ := newer_meta_kept recorded_newerDb (reaches_listed (by decide +kernel))
    obtain ⟨⟨s', es⟩, hperform⟩ := Option.isSome_iff_exists.mp
      (by decide +kernel : (perform sharing alice (.request zeroIv) listed.data).isSome = true)
    exact ⟨(hsteps _ s' es (fun r hr => by cases hr) hperform).1, hrecorded⟩

/-- The first message is not read, and its meta data is of a supported version. -/
def supportedDb : Db :=
  { letterKeys with messages := (∅ : Table MessageRow.key).insertOrIgnore { storedLetter 1 1 with read := false } }

def supportedVersions (id : IdType) : Option MetaVersion := if id = 1 then some 1 else none

/-- The newer version has arrived, and the stored message is loaded. -/
def arrived : EventLoop.State SessionThread Event MetaSession :=
  after (initial supportedDb supportedVersions) [.perform (.load 1)]

/-- It is processed, the user marks the message as unread once more, and the modifications are looked for. -/
def overwriteSteps : List (EventLoop.Action SessionThread MetaOp) :=
  [.perform (.process newerLetter), .send .syncer, .send .syncer, .handle, .perform (.setState .read 1 false),
    .perform .uploadModifications]

def overwriting : EventLoop.State SessionThread Event MetaSession := after arrived overwriteSteps

private theorem recorded_supportedDb : Recorded supportedDb supportedVersions := by
  constructor
  · intro id hsome
    have hold : oldRow supportedDb id = none := by
      unfold oldRow supportedDb
      rw [Table.find?_insertOrIgnore, if_neg (by simp [storedLetter, MessageRow.key])]
      rfl
    rw [hold] at hsome
    cases hsome
  · intro id version hversion hlt
    unfold supportedVersions at hversion
    split at hversion
    · cases hversion
      exact absurd hlt (by decide)
    · cases hversion

private theorem run_after {s : EventLoop.State SessionThread Event MetaSession}
    {steps : List (EventLoop.Action SessionThread MetaOp)} (h : ((loop sharing alice).run s steps).isSome = true) :
    Transition.Reaches (loop sharing alice).Step EventLoop.Guard.none.Ok s (after s steps) := by
  obtain ⟨s', hs'⟩ := Option.isSome_iff_exists.mp h
  unfold after
  rw [hs']
  exact EventLoop.Reaches.of_run hs'

/-- A newer version of a message that is not read marks it as read, and what the user does to it then is sent over the
newer meta data. -/
theorem newer_meta_overwritten :
    Recorded supportedDb supportedVersions ∧
      Transition.Reaches (loop sharing alice).Step EventLoop.Guard.none.Ok (initial supportedDb supportedVersions) arrived ∧
      (∃ s' es, perform sharing alice (.process newerLetter) arrived.data = some (s', es) ∧
        ¬ KeepsStates sharing alice (.process newerLetter) arrived.data s') ∧
      Transition.Reaches (loop sharing alice).Step EventLoop.Guard.none.Ok (initial supportedDb supportedVersions)
        overwriting ∧
      (∃ s' es, perform sharing alice (.request zeroIv) overwriting.data = some (s', es)) ∧
      ¬ SendsSupported sharing alice (.request zeroIv) overwriting.data := by
  have hreaches : Transition.Reaches (loop sharing alice).Step EventLoop.Guard.none.Ok
      (initial supportedDb supportedVersions) arrived := run_after (by decide +kernel)
  refine ⟨recorded_supportedDb, hreaches, ?_, hreaches.trans (run_after (by decide +kernel)), ?_, ?_⟩
  · obtain ⟨⟨s', es⟩, hperform⟩ := Option.isSome_iff_exists.mp
      (by decide +kernel : (perform sharing alice (.process newerLetter) arrived.data).isSome = true)
    have hread : (perform sharing alice (.process newerLetter) arrived.data).bind
        (fun result => (currentRow result.1.db 1).map MessageRow.read) = some true := by decide +kernel
    have hversion : (MessagesSyncer.readMessage sharing alice newerLetter arrived.data.syncer).map Prod.fst = some 2 := by
      decide +kernel
    obtain ⟨⟨version, decoder, synced⟩, hdecoded⟩ := Option.isSome_iff_exists.mp
      (by decide +kernel : (MessagesSyncer.readMessage sharing alice newerLetter arrived.data.syncer).isSome = true)
    rw [hdecoded] at hversion
    obtain rfl : version = 2 := Option.some.inj hversion
    refine ⟨s', es, hperform, ?_⟩
    intro hkeeps
    obtain ⟨cur', hcur', hstates⟩ :=
      hkeeps newerLetter 2 decoder synced { storedLetter 1 1 with read := false } rfl rfl hdecoded (by decide)
        (by decide +kernel)
    have hcur : currentRow s'.db 1 = some cur' := hcur'
    rw [hperform, Option.bind_some, hcur] at hread
    have hkept : cur'.read = false := hstates .read
    rw [Option.map_some, hkept] at hread
    cases hread
  · obtain ⟨⟨s', es⟩, hperform⟩ := Option.isSome_iff_exists.mp
      (by decide +kernel : (perform sharing alice (.request zeroIv) overwriting.data).isSome = true)
    exact ⟨s', es, hperform⟩
  · intro hsends
    have hsupported := hsends zeroIv 1 [] ⟨1, 6⟩ (sharingMeta 1 [0, 1]) rfl (by decide +kernel) (by decide +kernel) 2
      (by decide +kernel)
    exact absurd hsupported (by decide)

end MetaSession

end KulloClient
