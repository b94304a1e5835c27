import KulloClient.ApiImpl.MetaVersions
import KulloClient.Base.Replica

/-!
# The rows of a message as a replica

What the two rows of a message are for: with the copy of the last sync they make the message a replica of the one on the
server.  A `ShadowSession` does one operation after the other; in a `SyncingSession` the user may be at work while the
syncer has loaded a message or waits for an answer.  As long as the message in hand is not changed, every step of the
user and of the syncer does to a message what it is to do to a replica (`rows_refine_replicas`), and what is uploaded is
the replica's own value, or its deletion (`uploads_changes`).
-/

namespace KulloClient

open Relational (Table)
open Replication (Replica)
open Imperative

/-- A version of a message on the server; of a deleted message it has no states. -/
structure Version where
  lastModified : LastModified
  states : Option (MessageState → Bool)

/-- The messages of a device, and the version of each message that was synchronized last.  Its operations are done one
after the other, each with nothing in between. -/
structure ShadowSession where
  db : Db
  versions : IdType → Option Version := fun _ => none

inductive ShadowOp
  | setState (c : MessagesImpl) (state : MessageState) (msgId : IdType) (value : Bool)
  | remove (c : MessagesImpl) (msgId : IdType)
  | process (r : MessagesSyncer.Received)
  | uploadModification (u : MessagesSyncer.Upload) (id : IdType)
  | store (dateSent : String) (draft : DraftDao) (conv : ConversationRow) (msgSent : MessageSent)
      (delivery : List KulloAddress)

/-- A message as a replica: it is not stored, it is there, it was deleted on this device, or it was deleted on the
server. -/
inductive MessageCopy
  | absent
  | alive (replica : Replica MessageState Bool)
  | removed (base : MessageState → Bool)
  | buried

namespace MessageCopy

def edit (state : MessageState) (value : Bool) : MessageCopy → MessageCopy
  | alive replica => alive (replica.edit state value)
  | c => c

def remove : MessageCopy → MessageCopy
  | alive replica => removed replica.base
  | c => c

/-- A version of the server: a message that was deleted here stays deleted. -/
def pull (theirs : MessageState → Bool) : MessageCopy → MessageCopy
  | absent => alive (.fresh theirs)
  | alive replica => alive (replica.pull theirs)
  | removed _ => removed theirs
  | buried => buried

def bury (_ : MessageCopy) : MessageCopy := buried

def receive (version : Option Version) (c : MessageCopy) : MessageCopy :=
  match version with
  | none => c
  | some ⟨_, none⟩ => c.bury
  | some ⟨_, some theirs⟩ => c.pull theirs

/-- The server has accepted what was uploaded. -/
def push : MessageCopy → MessageCopy
  | alive replica => alive replica.push
  | removed _ => buried
  | c => c

/-- There is something to tell the server. -/
def Changed : MessageCopy → Prop
  | alive replica => ¬ replica.Clean
  | removed _ => True
  | absent | buried => False

end MessageCopy

namespace ShadowSession

section

variable (P : Platform) (account : MessagesSyncer.Account)

abbrev syncer (s : ShadowSession) : MessagesSyncer.State := { db := s.db }

/-- The versions after one of a message was synchronized. -/
def known (s : ShadowSession) (id : IdType) (version : Option Version) : IdType → Option Version :=
  match version with
  | none => s.versions
  | some version => Function.update s.versions id (some version)

/-- The version a message has after it was processed, if it could be read. -/
def processed (s : ShadowSession) (r : MessagesSyncer.Received)
    (result : EStateM.Result Exn MessagesSyncer.State Unit) : Option Version :=
  match result with
  | .error _ _ => none
  | .ok _ _ =>
    if r.msg.deleted then some ⟨r.msg.lastModified, none⟩
    else
      (MessagesSyncer.readMessage P account r s.syncer).map fun read =>
        ⟨r.msg.lastModified, some read.2.1.message.row.state⟩

/-- What processing a message does to it: nothing, if it cannot be read. -/
def received (s : ShadowSession) (r : MessagesSyncer.Received) : Option Version :=
  s.processed P account r (MessagesSyncer.process P account r s.syncer)

/-- The request that was accepted, with the answer. -/
def accepted (s : ShadowSession) (u : MessagesSyncer.Upload) (id : IdType) :
    Option (MessagesSyncer.UploadRequest × IdLastModified) :=
  match MessagesSyncer.uploadModification P account u id s.syncer,
    MessagesSyncer.uploadRequest P account u.iv id s.db with
  | .ok _ _, .ok (some request) =>
    match u.answer request with
    | .ok idlm => some (request, idlm)
    | .error _ => none
  | _, _ => none

/-- The request a replica is to make: it sends its own values, or that it was deleted. -/
def request (iv : Bytes) (idlm : IdLastModified) : MessageCopy → Except Exn (Option MessagesSyncer.UploadRequest)
  | .alive replica => do
    let metaData ← MessageEncryptor.encryptMeta P iv (MessageEncoder.encodeMeta P (replica.mine .read) (replica.mine .done))
      account.privateDataKey
    .ok (some (.modifyMeta idlm metaData))
  | .removed _ => .ok (some (.deleteMessage idlm))
  | .absent | .buried => .ok none

/-- The version the server has after it accepted a request. -/
def uploadedVersion (db : Db) (id : IdType) (lastModified : LastModified) : MessagesSyncer.UploadRequest → Version
  | .deleteMessage _ => ⟨lastModified, none⟩
  | .modifyMeta _ _ => ⟨lastModified, (currentRow db id).map MessageRow.state⟩

def perform (op : ShadowOp) (s : ShadowSession) : Option ShadowSession :=
  match op with
  | .setState c state msgId value => some { s with db := (c.setState s.db state msgId value).2.db }
  | .remove c msgId => some { s with db := (c.remove s.db msgId).db }
  | .process r =>
    some
      { db := (final (MessagesSyncer.process P account r s.syncer)).db
        versions := s.known r.msg.id (s.received P account r) }
  | .uploadModification u id =>
    some
      { db := (final (MessagesSyncer.uploadModification P account u id s.syncer)).db
        versions := s.known id
          ((s.accepted P account u id).map fun (request, idlm) => uploadedVersion s.db id idlm.lastModified request) }
  | .store dateSent draft conv msgSent delivery =>
    match MessagesUploader.store P account.userAddress dateSent draft (.ofRow conv) msgSent delivery s.db with
    | .ok (_, _, db) =>
      some
        { db := db
          versions := s.known msgSent.id (some ⟨msgSent.lastModified, some fun _ => true⟩) }
    | .error _ => none

def Step (s : ShadowSession) (op : ShadowOp) (s' : ShadowSession) : Prop := perform P account op s = some s'

end

/-- A cache that shows a message, if it does, as it is stored; it need not know when it was modified last. -/
structure Shows (c : MessagesImpl) (db : Db) (msgId : IdType) : Prop where
  listed : c.Listed
  stored : ∀ dao, c.messages.find? msgId = some dao →
    ∃ row lastModified, currentRow db msgId = some row ∧ dao = .ofRow { row with lastModified := lastModified }

/-- What is asked of a step: the user is shown the message as it is stored; the server does not restore a deleted
message, and it answers about the message it was asked for. -/
def guard (s : ShadowSession) (op : ShadowOp) : Prop :=
  match op with
  | .setState c _ msgId _ | .remove c msgId => Shows c s.db msgId
  | .process r => r.msg.deleted = false → ∀ version, s.versions r.msg.id = some version → version.states.isSome = true
  | .uploadModification u id => ∀ request idlm, u.answer request = .ok idlm → idlm.id = id
  | .store .. => True

/-- The replica the row of a message and its last version stand for. -/
def copyOf (cur : Option MessageRow) (version : Option Version) : MessageCopy :=
  match cur, version with
  | some cur, some ⟨_, some base⟩ => if cur.deleted then .removed base else .alive ⟨base, cur.state⟩
  | some _, _ => .buried
  | none, _ => .absent

/-- A message as the replica it stands for. -/
def view (s : ShadowSession) (id : IdType) : MessageCopy := copyOf (currentRow s.db id) (s.versions id)

section

variable (P : Platform) (account : MessagesSyncer.Account)

/-- What an operation is to do to a message. -/
def effect (op : ShadowOp) (s : ShadowSession) (id : IdType) (c : MessageCopy) : MessageCopy :=
  match op with
  | .setState cache state msgId value =>
    if msgId = id ∧ msgId ≤ idMax ∧ (cache.messages.find? msgId).isSome then c.edit state value else c
  | .remove cache msgId => if msgId = id ∧ msgId ≤ idMax ∧ (cache.messages.find? msgId).isSome then c.remove else c
  | .process r => if r.msg.id = id then c.receive (s.received P account r) else c
  | .uploadModification u msgId => if msgId = id ∧ (s.accepted P account u msgId).isSome then c.push else c
  | .store _ _ _ msgSent _ => if msgSent.id = id then .alive (.fresh fun _ => true) else c

end

/-! ### The invariant of one message -/

/-- The rows of a message and its last version: the copy, or the row itself if there is none, says when it was modified
and has its states. -/
structure Shadow (cur : MessageRow) (old : Option MessageRow) (version : Version) : Prop where
  lastModified : old = none → cur.lastModified = version.lastModified
  copied : ∀ o, old = some o → o.lastModified = version.lastModified
  buried : version.states = none → cur.deleted = true ∧ ∀ o, old = some o → o.deleted = true
  shadow : ∀ base, version.states = some base → ∀ o, old = some o → o.deleted = false ∧ o.state = base
  synced : ∀ base, version.states = some base → old = none → cur.deleted = false ∧ cur.state = base

/-- What is stored of the last versions. -/
structure Shadowed (s : ShadowSession) : Prop where
  stored : ∀ id cur, currentRow s.db id = some cur →
    ∃ version, s.versions id = some version ∧ Shadow cur (oldRow s.db id) version
  absent : ∀ id, currentRow s.db id = none → s.versions id = none ∧ oldRow s.db id = none

section Shadow

variable {cur : MessageRow} {old : Option MessageRow} {version : Version}

theorem or_asOld {o : MessageRow} (h : old.or (some cur.asOld) = some o) : old = some o ∨ old = none ∧ o = cur.asOld := by
  cases old with
  | none =>
    cases h
    exact .inr ⟨rfl, rfl⟩
  | some o' =>
    cases h
    exact .inl rfl

/-- The row is edited or deleted, and a copy is kept. -/
theorem Shadow.keep (h : Shadow cur old version) {row : MessageRow} (hdeleted : cur.deleted = true → row.deleted = true) :
    Shadow row (old.or (some cur.asOld)) version := by
  refine ⟨?_, ?_, ?_, ?_, ?_⟩
  · intro hnone
    cases old <;> cases hnone
  · intro o ho
    rcases or_asOld ho with hold | ⟨hnone, rfl⟩
    · exact h.copied o hold
    · exact h.lastModified hnone
  · intro hnone
    obtain ⟨hcur, hold⟩ := h.buried hnone
    refine ⟨hdeleted hcur, ?_⟩
    intro o ho
    rcases or_asOld ho with hold' | ⟨-, rfl⟩
    · exact hold o hold'
    · exact hcur
  · intro base hbase o ho
    rcases or_asOld ho with hold | ⟨hnone, rfl⟩
    · exact h.shadow base hbase o hold
    · exact h.synced base hbase hnone
  · intro base _ hnone
    cases old <;> cases hnone

private theorem state_withState (r : MessageRow) (state : MessageState) (value : Bool) :
    (r.withState state value).state = Function.update r.state state value := by
  funext s
  cases state <;> cases s <;> rfl

private theorem merged_state (cur : MessageRow) (old : Option MessageRow) (remote : MessageRow) :
    (cur.merged old remote).state = cur.mergedState old remote := by
  funext s
  cases s <;> rfl

/-- The merge of the code is the merge of a replica whose base is the last version. -/
theorem mergedState_eq_merge (h : Shadow cur old version) {base : MessageState → Bool} (hbase : version.states = some base)
    (halive : cur.deleted = false) (remote : MessageRow) (state : MessageState) :
    cur.mergedState old remote state = Replication.merge (base state) (cur.state state) (remote.state state) := by
  cases old with
  | none =>
    obtain ⟨-, hcur⟩ := h.synced base hbase rfl
    rw [hcur, Replication.merge_unchanged]
    rfl
  | some o =>
    obtain ⟨-, ho⟩ := h.shadow base hbase o rfl
    rw [MessagesSyncer.mergedState_of_not_deleted (by simp [halive]), ho]
    unfold Replication.merge
    by_cases hchanged : cur.state state = base state
    · rw [if_pos hchanged]
      by_cases hsame : cur.state state = remote.state state
      · rw [if_neg (fun hboth => hboth.1 hsame), hsame]
      · rw [if_pos ⟨hsame, hchanged.symm⟩]
    · rw [if_neg hchanged, if_neg (fun hboth => hchanged hboth.2.symm)]

/-- The copy is dropped only if the merged row has the states of the server. -/
theorem state_of_mergedOld_none (h : Shadow cur old version) {base : MessageState → Bool}
    (hbase : version.states = some base) {remote : MessageRow} (hnone : cur.mergedOld old remote = none) :
    (cur.merged old remote).deleted = false ∧ (cur.merged old remote).state = remote.state := by
  cases old with
  | none =>
    obtain ⟨halive, -⟩ := h.synced base hbase rfl
    refine ⟨halive, ?_⟩
    rw [merged_state]
    rfl
  | some o =>
    obtain ⟨hold, ho⟩ := h.shadow base hbase o rfl
    unfold MessageRow.mergedOld at hnone
    rw [Option.bind_some] at hnone
    split at hnone
    · next hequals =>
      unfold MessageDao.equals at hequals
      simp only [MessageDao.ofRow, hold, Bool.and_false, Bool.false_or, Bool.and_eq_true, beq_iff_eq] at hequals
      obtain ⟨-, ⟨⟨halive, -⟩, hread⟩, hdone⟩ := hequals
      have halive' : cur.deleted = false := halive
      refine ⟨halive', ?_⟩
      funext state
      have hsame : (cur.merged (some o) remote).state state = base state := by
        rw [← ho]
        cases state
        · exact hread
        · exact hdone
      rw [merged_state, mergedState_eq_merge h hbase halive'] at hsame ⊢
      rw [hsame, (Replication.merge_eq_base_iff.mp hsame).2]
    · cases hnone

theorem Shadow.merge (h : Shadow cur old version) (hserved : version.states.isSome = true) {remote : MessageRow}
    (halive : remote.deleted = false) :
    Shadow (cur.merged old remote) (cur.mergedOld old remote) ⟨remote.lastModified, some remote.state⟩ := by
  obtain ⟨base, hbase⟩ := Option.isSome_iff_exists.mp hserved
  have hupdated : ∀ o, cur.mergedOld old remote = some o → ∃ o' : MessageRow, o = o'.updated remote := by
    intro o ho
    obtain ⟨o', -, hmerged⟩ := Option.bind_eq_some_iff.mp ho
    split at hmerged
    · cases hmerged
    · cases hmerged
      exact ⟨o', rfl⟩
  refine ⟨fun _ => rfl, ?_, fun hnone => (by cases hnone), ?_, ?_⟩
  · intro o ho
    obtain ⟨o', rfl⟩ := hupdated o ho
    rfl
  · intro base' hbase' o ho
    cases hbase'
    obtain ⟨o', rfl⟩ := hupdated o ho
    refine ⟨halive, ?_⟩
    funext state
    cases state <;> rfl
  · intro base' hbase' hnone
    cases hbase'
    exact state_of_mergedOld_none h hbase hnone

/-! ### What the rows stand for -/

/-- A replica of a version with states. -/
theorem copyOf_deleted {base : MessageState → Bool} (hbase : version.states = some base) (h : cur.deleted = true) :
    copyOf (some cur) (some version) = .removed base := by
  obtain ⟨lastModified, states⟩ := version
  cases hbase
  exact if_pos h

private theorem copyOf_alive {base : MessageState → Bool} (hbase : version.states = some base) (h : cur.deleted = false) :
    copyOf (some cur) (some version) = .alive ⟨base, cur.state⟩ := by
  obtain ⟨lastModified, states⟩ := version
  cases hbase
  exact if_neg (by simp [h])

private theorem copyOf_buried (h : version.states = none) : copyOf (some cur) (some version) = .buried := by
  obtain ⟨lastModified, states⟩ := version
  cases h
  rfl

/-- A stored message is a replica of its last version, or it was deleted on the server. -/
theorem Shadow.cases (h : Shadow cur old version) :
    (version.states = none ∧ cur.deleted = true ∧ copyOf (some cur) (some version) = .buried) ∨
      ∃ base, version.states = some base ∧
        (cur.deleted = true ∧ copyOf (some cur) (some version) = .removed base ∨
          cur.deleted = false ∧ copyOf (some cur) (some version) = .alive ⟨base, cur.state⟩) := by
  cases hstates : version.states with
  | none => exact .inl ⟨rfl, (h.buried hstates).1, copyOf_buried hstates⟩
  | some base =>
    refine .inr ⟨base, rfl, ?_⟩
    cases hdeleted : cur.deleted with
    | true => exact .inl ⟨rfl, copyOf_deleted hstates hdeleted⟩
    | false => exact .inr ⟨rfl, copyOf_alive hstates hdeleted⟩

theorem Shadow.edited (h : Shadow cur old version) {row : MessageRow} {state : MessageState} {value : Bool}
    (hdeleted : row.deleted = cur.deleted) (hstate : row.state = Function.update cur.state state value) :
    copyOf (some row) (some version) = (copyOf (some cur) (some version)).edit state value := by
  rcases h.cases with ⟨hstates, -, hcopy⟩ | ⟨base, hstates, ⟨hcur, hcopy⟩ | ⟨hcur, hcopy⟩⟩
  · rw [hcopy, copyOf_buried hstates]
    rfl
  · rw [hcopy, copyOf_deleted hstates (hdeleted.trans hcur)]
    rfl
  · rw [hcopy, copyOf_alive hstates (hdeleted.trans hcur), hstate]
    rfl

theorem Shadow.removed (h : Shadow cur old version) {row : MessageRow} (hdeleted : row.deleted = true) :
    copyOf (some row) (some version) = (copyOf (some cur) (some version)).remove := by
  rcases h.cases with ⟨hstates, -, hcopy⟩ | ⟨base, hstates, ⟨-, hcopy⟩ | ⟨-, hcopy⟩⟩
  · rw [hcopy, copyOf_buried hstates]
    rfl
  · rw [hcopy, copyOf_deleted hstates hdeleted]
    rfl
  · rw [hcopy, copyOf_deleted hstates hdeleted]
    rfl

private theorem Shadow.pulled (h : Shadow cur old version) (hserved : version.states.isSome = true) (remote : MessageRow) :
    copyOf (some (cur.merged old remote)) (some ⟨remote.lastModified, some remote.state⟩) =
      (copyOf (some cur) (some version)).pull remote.state := by
  rcases h.cases with ⟨hstates, -, -⟩ | ⟨base, hstates, ⟨hcur, hcopy⟩ | ⟨hcur, hcopy⟩⟩
  · rw [hstates] at hserved
    cases hserved
  · have hdeleted : (cur.merged old remote).deleted = true := hcur
    rw [hcopy, copyOf_deleted rfl hdeleted]
    rfl
  · have hdeleted : (cur.merged old remote).deleted = false := hcur
    have hstate : (cur.merged old remote).state = fun state =>
        Replication.merge (base state) (cur.state state) (remote.state state) := by
      funext state
      rw [merged_state, mergedState_eq_merge h hstates hcur]
    rw [hcopy, copyOf_alive rfl hdeleted, hstate]
    rfl

end Shadow

/-! ### The rows after a step -/

variable {s s' : ShadowSession} {id : IdType}

/-- The rows and the versions are as they were. -/
theorem Shadowed.same (h : Shadowed s) (hdb : s'.db.messages = s.db.messages) (hversions : s'.versions = s.versions) :
    Shadowed s' ∧ ∀ i, view s' i = view s i := by
  have hcur : ∀ i, currentRow s'.db i = currentRow s.db i := fun i => congrArg (Table.find? · (i, false)) hdb
  have hold : ∀ i, oldRow s'.db i = oldRow s.db i := fun i => congrArg (Table.find? · (i, true)) hdb
  refine ⟨⟨?_, ?_⟩, ?_⟩
  · intro i cur hi
    rw [hcur] at hi
    rw [hversions, hold]
    exact h.stored i cur hi
  · intro i hi
    rw [hcur] at hi
    rw [hversions, hold]
    exact h.absent i hi
  · intro i
    unfold view
    rw [hcur, hversions]

/-- One message got other rows, and perhaps another version. -/
theorem Shadowed.writes (h : Shadowed s) {row : MessageRow} {old : Option MessageRow} {version : Version}
    (hwrites : Writes id (some row) old s.db s'.db) (hversions : s'.versions = Function.update s.versions id (some version))
    (hshadow : Shadow row old version) :
    Shadowed s' ∧ view s' id = copyOf (some row) (some version) ∧ ∀ i, id ≠ i → view s' i = view s i := by
  have hself : s'.versions id = some version := by rw [hversions, Function.update_self]
  have hother : ∀ i, id ≠ i → s'.versions i = s.versions i := by
    intro i hi
    rw [hversions, Function.update_of_ne (Ne.symm hi)]
  refine ⟨⟨?_, ?_⟩, ?_, ?_⟩
  · intro i cur hcur
    by_cases hi : id = i
    · subst hi
      rw [hwrites.current_self] at hcur
      cases hcur
      rw [hwrites.old_self]
      exact ⟨version, hself, hshadow⟩
    · rw [hwrites.current_other hi] at hcur
      rw [hwrites.old_other hi, hother i hi]
      exact h.stored i cur hcur
  · intro i hcur
    by_cases hi : id = i
    · subst hi
      rw [hwrites.current_self] at hcur
      cases hcur
    · rw [hwrites.current_other hi] at hcur
      rw [hwrites.old_other hi, hother i hi]
      exact h.absent i hcur
  · unfold view
    rw [hwrites.current_self, hself]
  · intro i hi
    unfold view
    rw [hwrites.current_other hi, hother i hi]

/-- A stored message got other rows, and keeps its version. -/
theorem Shadowed.rewrites (h : Shadowed s) {row : MessageRow} {old : Option MessageRow} {version : Version}
    (hversion : s.versions id = some version) (hwrites : Writes id (some row) old s.db s'.db)
    (hversions : s'.versions = s.versions) (hshadow : Shadow row old version) :
    Shadowed s' ∧ view s' id = copyOf (some row) (some version) ∧ ∀ i, id ≠ i → view s' i = view s i := by
  refine h.writes hwrites ?_ hshadow
  rw [hversions, ← hversion, Function.update_eq_self]

theorem Shows.loaded {c : MessagesImpl} {db : Db} {msgId : IdType} (h : Shows c db msgId) (dao : MessageDao)
    (hdao : c.messages.find? msgId = some dao) : MessagesSyncer.Loaded dao := by
  obtain ⟨row, lastModified, hrow, rfl⟩ := h.stored dao hdao
  exact ⟨rfl, (key_of_currentRow hrow).2⟩

/-! ### The user -/

theorem Shadowed.setState (h : Shadowed s) {c : MessagesImpl} {msgId : IdType} (hshows : Shows c s.db msgId)
    (state : MessageState) (value : Bool) (hdb : s'.db = (c.setState s.db state msgId value).2.db)
    (hversions : s'.versions = s.versions) :
    Shadowed s' ∧ ∀ id, view s' id =
      if msgId = id ∧ msgId ≤ idMax ∧ (c.messages.find? msgId).isSome then (view s id).edit state value
      else view s id := by
  rcases MetaSession.setState_writes s.db state value hshows.loaded with
    ⟨hsame, -, hvalue⟩ | ⟨hle, dao, saved, hfind, -, -, hrow, -, hwrites⟩
  · obtain ⟨hinv, hview⟩ := h.same (by rw [hdb, hsame]) hversions
    refine ⟨hinv, ?_⟩
    intro id
    rw [hview]
    split
    · next hedited =>
      -- the message has the value already
      obtain ⟨rfl, hle, hsome⟩ := hedited
      obtain ⟨dao, hdao⟩ := Option.isSome_iff_exists.mp hsome
      obtain ⟨row, lastModified, hrow, rfl⟩ := hshows.stored dao hdao
      obtain ⟨version, hversion, hshadow⟩ := h.stored msgId row hrow
      have hset : row.state state = value := (hvalue hle _ hdao).symm ▸ by cases state <;> rfl
      unfold view
      rw [hrow, hversion]
      exact hshadow.edited rfl (by rw [← hset, Function.update_eq_self])
    · rfl
  · obtain ⟨row, lastModified, hcur, rfl⟩ := hshows.stored dao hfind
    obtain ⟨version, hversion, hshadow⟩ := h.stored msgId row hcur
    rw [hcur, Option.map_some, Option.map_some, hrow, ← hdb] at hwrites
    have hdeleted : ((MessageDao.ofRow { row with lastModified := lastModified }).row.withState state value).deleted =
        row.deleted := by cases state <;> rfl
    obtain ⟨hinv, hself, hother⟩ := h.rewrites hversion hwrites hversions (hshadow.keep fun hgone => hdeleted.trans hgone)
    refine ⟨hinv, ?_⟩
    intro id
    by_cases hid : msgId = id
    · subst hid
      rw [if_pos ⟨rfl, hle, by rw [hfind]; rfl⟩, hself]
      unfold view
      rw [hcur, hversion]
      exact hshadow.edited hdeleted (state_withState _ state value)
    · rw [if_neg (fun hedited => hid hedited.1), hother id hid]

theorem Shadowed.remove (h : Shadowed s) {c : MessagesImpl} {msgId : IdType} (hshows : Shows c s.db msgId)
    (hdb : s'.db = (c.remove s.db msgId).db) (hversions : s'.versions = s.versions) :
    Shadowed s' ∧ ∀ id, view s' id =
      if msgId = id ∧ msgId ≤ idMax ∧ (c.messages.find? msgId).isSome then (view s id).remove else view s id := by
  have hnothing : (c.remove s.db msgId).db = s.db → ¬ (msgId ≤ idMax ∧ (c.messages.find? msgId).isSome) →
      Shadowed s' ∧ ∀ id, view s' id =
        if msgId = id ∧ msgId ≤ idMax ∧ (c.messages.find? msgId).isSome then (view s id).remove else view s id := by
    intro hsame hnot
    obtain ⟨hinv, hview⟩ := h.same (by rw [hdb, hsame]) hversions
    refine ⟨hinv, ?_⟩
    intro id
    rw [if_neg (fun hremoved => hnot hremoved.2), hview]
  by_cases hle : msgId ≤ idMax
  · cases hfind : c.messages.find? msgId with
    | none =>
      rw [← hfind]
      apply hnothing
      · unfold MessagesImpl.remove
        rw [assertId_of_le hle, MessagesImpl.removeFromCache_of_none hfind]
      · rw [hfind]
        exact fun hnot => Bool.false_ne_true hnot.2
    | some dao =>
      obtain ⟨row, lastModified, hcur, rfl⟩ := hshows.stored dao hfind
      obtain ⟨version, hversion, hshadow⟩ := h.stored msgId row hcur
      have hid : (MessageDao.ofRow { row with lastModified := lastModified }).row.id = msgId := (key_of_currentRow hcur).1
      have hcached : c.messages.find? (MessageDao.ofRow { row with lastModified := lastModified }).row.id =
          some (.ofRow { row with lastModified := lastModified }) := by rw [hid, hfind]
      have hcache := hshows.listed.removeFromCache hcached
      obtain ⟨apiEvents, db, hremove, hrows⟩ := MetaSession.removeFromDb_writes (hshows.loaded _ hfind) s.db
      rw [hid] at hcache hrows
      have hdb' : s'.db = db := by
        rw [hdb]
        unfold MessagesImpl.remove
        rw [assertId_of_le hle, hcache]
        dsimp only
        rw [hremove]
      rcases hrows with ⟨rfl, hdeleted⟩ | ⟨row', hdeleted, -, hwrites⟩
      · obtain ⟨hinv, hview⟩ := h.same (by rw [hdb']) hversions
        refine ⟨hinv, ?_⟩
        intro id
        rw [hview]
        split
        · next hremoved =>
          -- it was deleted already
          obtain ⟨rfl, -, -⟩ := hremoved
          unfold view
          rw [hcur, hversion]
          exact hshadow.removed hdeleted
        · rfl
      · rw [hcur, Option.map_some, Option.map_some, ← hdb'] at hwrites
        obtain ⟨hinv, hself, hother⟩ := h.rewrites hversion hwrites hversions
          (hshadow.keep fun _ => hdeleted)
        refine ⟨hinv, ?_⟩
        intro id
        by_cases hid : msgId = id
        · subst hid
          rw [if_pos ⟨rfl, hle, rfl⟩, hself]
          unfold view
          rw [hcur, hversion]
          exact hshadow.removed hdeleted
        · rw [if_neg (fun hremoved => hid hremoved.1), hother id hid]
  · apply hnothing
    · unfold MessagesImpl.remove
      cases hassert : assertId msgId "msgId" with
      | error e => rfl
      | ok _ => exact absurd (le_of_assertId hassert) hle
    · exact fun hnot => hle hnot.1

/-! ### The syncer -/

section

variable {P : Platform} {account : MessagesSyncer.Account} {r : MessagesSyncer.Received}

theorem received_of_error {e : Exn} {synced : MessagesSyncer.State}
    (h : MessagesSyncer.process P account r s.syncer = .error e synced) : s.received P account r = none := by
  unfold received processed
  rw [h]

private theorem received_of_deleted {synced : MessagesSyncer.State}
    (h : MessagesSyncer.process P account r s.syncer = .ok () synced) (hdeleted : r.msg.deleted = true) :
    s.received P account r = some ⟨r.msg.lastModified, none⟩ := by
  unfold received processed
  rw [h]
  exact if_pos hdeleted

theorem received_of_not_deleted {synced : MessagesSyncer.State}
    (h : MessagesSyncer.process P account r s.syncer = .ok () synced) (hdeleted : r.msg.deleted = false) :
    s.received P account r = (MessagesSyncer.readMessage P account r s.syncer).map fun read =>
      ⟨r.msg.lastModified, some read.2.1.message.row.state⟩ := by
  unfold received processed
  rw [h]
  exact if_neg (by simp [hdeleted])

/-- Nothing is done to any message. -/
theorem Shadowed.unprocessed (h : Shadowed s) (hreceived : s.received P account r = none)
    (hdb : s'.db.messages = s.db.messages) (hversions : s'.versions = s.known r.msg.id (s.received P account r)) :
    Shadowed s' ∧ ∀ id, view s' id =
      if r.msg.id = id then (view s id).receive (s.received P account r) else view s id := by
  rw [hreceived] at hversions ⊢
  obtain ⟨hinv, hview⟩ := h.same hdb hversions
  refine ⟨hinv, ?_⟩
  intro id
  rw [hview]
  split <;> rfl

/-- A version of a message was processed. -/
theorem Shadowed.processed (h : Shadowed s) {row : MessageRow} {old : Option MessageRow} {version : Version}
    (hreceived : s.received P account r = some version) (hwrites : Writes r.msg.id (some row) old s.db s'.db)
    (hversions : s'.versions = s.known r.msg.id (s.received P account r)) (hshadow : Shadow row old version)
    (hcopy : copyOf (some row) (some version) = (view s r.msg.id).receive (some version)) :
    Shadowed s' ∧ ∀ id, view s' id =
      if r.msg.id = id then (view s id).receive (s.received P account r) else view s id := by
  rw [hreceived] at hversions ⊢
  obtain ⟨hinv, hself, hother⟩ := h.writes hwrites hversions hshadow
  refine ⟨hinv, ?_⟩
  intro id
  by_cases hid : r.msg.id = id
  · subst hid
    rw [if_pos rfl, hself, hcopy]
  · rw [if_neg hid, hother id hid]

private theorem tombstone_shadow (httpMsg : HttpMessage) : Shadow httpMsg.tombstone none ⟨httpMsg.lastModified, none⟩ where
  lastModified _ := rfl
  copied _ ho := by cases ho
  buried _ := ⟨rfl, fun _ ho => by cases ho⟩
  shadow _ hbase := by cases hbase
  synced _ hbase := by cases hbase

/-- A message that was just downloaded; of one in an old meta format there is a copy. -/
theorem new_shadow {row : MessageRow} {old : Option MessageRow} {lastModified : LastModified}
    {states : MessageState → Bool} (hmodified : row.lastModified = lastModified) (hdeleted : row.deleted = false)
    (hstate : row.state = states)
    (hold : ∀ o, old = some o → o.lastModified = lastModified ∧ o.deleted = false ∧ o.state = states) :
    Shadow row old ⟨lastModified, some states⟩ where
  lastModified _ := hmodified
  copied o ho := (hold o ho).1
  buried hnone := by cases hnone
  shadow base hbase o ho := by
    cases hbase
    exact (hold o ho).2
  synced base hbase _ := by
    cases hbase
    exact ⟨hdeleted, hstate⟩

theorem Shadowed.process_deleted (h : Shadowed s) (hdeleted : r.msg.deleted = true)
    (hdb : s'.db = (final (MessagesSyncer.process P account r s.syncer)).db)
    (hversions : s'.versions = s.known r.msg.id (s.received P account r)) :
    Shadowed s' ∧ ∀ id, view s' id =
      if r.msg.id = id then (view s id).receive (s.received P account r) else view s id := by
  cases hc : r.cancelled with
  | true =>
    have hprocess : MessagesSyncer.process P account r s.syncer = .error .syncCanceled s.syncer :=
      MessagesSyncer.process_of_cancelled hc
    rw [hprocess, final] at hdb
    exact h.unprocessed (received_of_error hprocess) (by rw [hdb]) hversions
  | false =>
    rcases MessagesSyncer.process_deleted P account s.syncer hc hdeleted
      fun hcur => (h.absent r.msg.id hcur).2 with ⟨synced, hprocess, hwrites⟩ | ⟨e, hprocess⟩
    · rw [hprocess, final] at hdb
      rw [← hdb] at hwrites
      exact h.processed (received_of_deleted hprocess hdeleted) hwrites hversions (tombstone_shadow r.msg) rfl
    · rw [hprocess, final] at hdb
      exact h.unprocessed (received_of_error hprocess) (by rw [hdb]) hversions

/-- A message that was not stored yet. -/
theorem Shadowed.process_new (h : Shadowed s) (hdeleted : r.msg.deleted = false) (hc : r.cancelled = false)
    (hcur : currentRow s.db r.msg.id = none) {version : MetaVersion} {decoder : Decoder} {read : MessagesSyncer.State}
    (hread : MessagesSyncer.readMessage P account r s.syncer = some (version, decoder, read))
    (hdb : s'.db = (final (MessagesSyncer.process P account r s.syncer)).db)
    (hversions : s'.versions = s.known r.msg.id (s.received P account r)) :
    Shadowed s' ∧ ∀ id, view s' id =
      if r.msg.id = id then (view s id).receive (s.received P account r) else view s id := by
  have hkeys := (MessagesSyncer.readMessage_eq_some hread).1
  have hfrom := MessagesSyncer.readFrom_of_read hread
  rcases MessagesSyncer.process_new hc hcur hdeleted hread with
    ⟨synced, convId, row, hprocess, hrow, hwrites⟩ | ⟨e, hprocess⟩
  · rw [hprocess, final] at hdb
    have hreceived := received_of_not_deleted hprocess hdeleted
    rw [hread, Option.map_some] at hreceived
    rw [(h.absent r.msg.id hcur).2, Option.none_or, ← hdb] at hwrites
    have hmodified : row.lastModified = r.msg.lastModified := by
      rw [hrow]
      exact hfrom.lastModified
    have halive : row.deleted = false := by
      rw [hrow]
      exact hfrom.deleted
    have hstate : row.state = decoder.message.row.state := by
      rw [hrow]
      funext state
      cases state <;> rfl
    have hupgraded : ({ row with metaVersion := max latestMetaVersion row.metaVersion } : MessageRow).state =
        decoder.message.row.state := by
      rw [← hstate]
      funext state
      cases state <;> rfl
    refine h.processed hreceived hwrites hversions (new_shadow hmodified halive hupgraded ?_) ?_
    · intro o ho
      split at ho
      · cases ho
        refine ⟨hmodified, halive, ?_⟩
        rw [← hstate]
        funext state
        cases state <;> rfl
      · cases ho
    · refine (copyOf_alive rfl (by exact halive)).trans ?_
      rw [hupgraded]
      unfold view
      rw [hcur]
      rfl
  · rw [hprocess, final] at hdb
    exact h.unprocessed (received_of_error hprocess) (by rw [hdb, hkeys.messages]) hversions

/-- A message that is stored. -/
theorem Shadowed.process_modified (h : Shadowed s) (hdeleted : r.msg.deleted = false) (hc : r.cancelled = false)
    {cur : MessageRow} (hcur : currentRow s.db r.msg.id = some cur) {version : MetaVersion} {decoder : Decoder}
    {read : MessagesSyncer.State}
    (hread : MessagesSyncer.readMessage P account r s.syncer = some (version, decoder, read))
    (hserved : ∀ version, s.versions r.msg.id = some version → version.states.isSome = true)
    (hdb : s'.db = (final (MessagesSyncer.process P account r s.syncer)).db)
    (hversions : s'.versions = s.known r.msg.id (s.received P account r)) :
    Shadowed s' ∧ ∀ id, view s' id =
      if r.msg.id = id then (view s id).receive (s.received P account r) else view s id := by
  have hfrom := MessagesSyncer.readFrom_of_read hread
  obtain ⟨last, hlast, hshadow⟩ := h.stored r.msg.id cur hcur
  obtain ⟨synced, hprocess, hwrites⟩ := MessagesSyncer.process_modified hc hcur hdeleted hread
  rw [hprocess, final] at hdb
  rw [← hdb] at hwrites
  have hreceived := received_of_not_deleted hprocess hdeleted
  rw [hread, Option.map_some, ← hfrom.lastModified] at hreceived
  refine h.processed hreceived hwrites hversions (hshadow.merge (hserved last hlast) hfrom.deleted) ?_
  rw [hshadow.pulled (hserved last hlast)]
  unfold view
  rw [hcur, hlast]
  rfl

theorem Shadowed.process (h : Shadowed s) (hguard : guard s (.process r))
    (hdb : s'.db = (final (MessagesSyncer.process P account r s.syncer)).db)
    (hversions : s'.versions = s.known r.msg.id (s.received P account r)) :
    Shadowed s' ∧ ∀ id, view s' id =
      if r.msg.id = id then (view s id).receive (s.received P account r) else view s id := by
  cases hdeleted : r.msg.deleted with
  | true => exact h.process_deleted hdeleted hdb hversions
  | false =>
    cases hc : r.cancelled with
    | true =>
      have hprocess : MessagesSyncer.process P account r s.syncer = .error .syncCanceled s.syncer :=
        MessagesSyncer.process_of_cancelled hc
      rw [hprocess, final] at hdb
      exact h.unprocessed (received_of_error hprocess) (by rw [hdb]) hversions
    | false =>
      cases hread : MessagesSyncer.readMessage P account r s.syncer with
      | some read =>
        obtain ⟨version, decoder, read⟩ := read
        cases hcur : currentRow s.db r.msg.id with
        | none => exact h.process_new hdeleted hc hcur hread hdb hversions
        | some cur => exact h.process_modified hdeleted hc hcur hread (hguard hdeleted) hdb hversions
      | none =>
        have hunread : Ends (MessagesSyncer.process P account r) s.syncer _ _ :=
          MessagesSyncer.process_unread hdeleted hread
        cases hprocess : MessagesSyncer.process P account r s.syncer with
        | ok u synced =>
          have hreceived := received_of_not_deleted hprocess hdeleted
          rw [hread, Option.map_none] at hreceived
          have hsame := ends_of_ok hunread hprocess
          rw [hprocess, final] at hdb
          exact h.unprocessed hreceived (hdb ▸ hsame) hversions
        | error e synced =>
          have hsame := ends_of_error hunread hprocess
          rw [hprocess, final] at hdb
          exact h.unprocessed (received_of_error hprocess) (hdb ▸ hsame) hversions

variable {u : MessagesSyncer.Upload}

/-- The server has accepted a request. -/
theorem Shadowed.applied (h : Shadowed s) {request : MessagesSyncer.UploadRequest} {idlm : IdLastModified} {msg : MessageRow}
    {db : Db} (hrequest : MessagesSyncer.uploadRequest P account u.iv id s.db = .ok (some request)) (hid : idlm.id = id)
    (happly : MessagesSyncer.applyModification idlm s.db = .ok (msg, db)) (hdb : s'.db = db)
    (hversions : s'.versions = s.known id (some (uploadedVersion s.db id idlm.lastModified request))) :
    Shadowed s' ∧ ∀ i, view s' i = if id = i then (view s i).push else view s i := by
  obtain ⟨cur, messages, hcur, hmsg, -, hwrites⟩ := MessagesSyncer.applyModification_writes happly
  rw [hid] at hcur hwrites
  rw [← hdb] at hwrites
  obtain ⟨last, hlast, hshadow⟩ := h.stored id cur hcur
  obtain ⟨cur', old, hcur', -, hkind⟩ := MessagesSyncer.uploadRequest_eq_some hrequest
  rw [hcur] at hcur'
  cases hcur'
  -- the answer sets versions and leaves the states
  have hstate : msg.state = cur.state := by
    rw [hmsg]
    funext state
    cases state <;> rfl
  have hpushed : Shadow msg none (uploadedVersion s.db id idlm.lastModified request) ∧
      copyOf (some msg) (some (uploadedVersion s.db id idlm.lastModified request)) = (view s id).push := by
    unfold view
    rw [hcur, hlast]
    -- a deletion was uploaded, or the states of a message that is there
    rcases hkind with ⟨hdeleted, rfl⟩ | ⟨halive, metaData, rfl, -⟩
    · have hdeleted' : msg.deleted = true := by
        rw [hmsg]
        exact hdeleted
      refine ⟨⟨fun _ => (by rw [hmsg]; rfl), fun _ ho => (by cases ho), fun _ => ⟨hdeleted', fun _ ho => (by cases ho)⟩,
        fun _ hbase => (by cases hbase), fun _ hbase => (by cases hbase)⟩, ?_⟩
      rcases hshadow.cases with ⟨-, -, hcopy⟩ | ⟨base, -, ⟨-, hcopy⟩ | ⟨halive, -⟩⟩
      · rw [hcopy]
        rfl
      · rw [hcopy]
        rfl
      · rw [hdeleted] at halive
        cases halive
    · have halive' : msg.deleted = false := by
        rw [hmsg]
        exact halive
      have hversion : uploadedVersion s.db id idlm.lastModified (.modifyMeta ⟨id, old.lastModified⟩ metaData) =
          ⟨idlm.lastModified, some msg.state⟩ := by
        unfold uploadedVersion
        rw [hcur, hstate]
        rfl
      rw [hversion]
      refine ⟨new_shadow (by rw [hmsg]) halive' rfl (fun _ ho => by cases ho), ?_⟩
      rcases hshadow.cases with ⟨-, hdeleted, -⟩ | ⟨base, -, ⟨hdeleted, -⟩ | ⟨-, hcopy⟩⟩
      · rw [halive] at hdeleted
        cases hdeleted
      · rw [halive] at hdeleted
        cases hdeleted
      · rw [hcopy, copyOf_alive rfl halive', hstate]
        rfl
  obtain ⟨hinv, hself, hother⟩ := h.writes hwrites hversions hpushed.1
  refine ⟨hinv, ?_⟩
  intro i
  by_cases hi : id = i
  · subst hi
    rw [if_pos rfl, hself, hpushed.2]
  · rw [if_neg hi, hother i hi]

theorem Shadowed.uploadModification (h : Shadowed s) (hguard : guard s (.uploadModification u id))
    (hdb : s'.db = (final (MessagesSyncer.uploadModification P account u id s.syncer)).db)
    (hversions : s'.versions = s.known id
      ((s.accepted P account u id).map fun (request, idlm) => uploadedVersion s.db id idlm.lastModified request)) :
    Shadowed s' ∧ ∀ i, view s' i =
      if id = i ∧ (s.accepted P account u id).isSome then (view s i).push else view s i := by
  have hends : Ends (MessagesSyncer.uploadModification P account u id) s.syncer _ _ :=
    MessagesSyncer.uploadModification_ends u id s.syncer
  have hrefused : s.accepted P account u id = none → s'.db = s.db →
      Shadowed s' ∧ ∀ i, view s' i =
        if id = i ∧ (s.accepted P account u id).isSome then (view s i).push else view s i := by
    intro hnone hsame
    rw [hnone] at hversions ⊢
    obtain ⟨hinv, hview⟩ := h.same (by rw [hsame]) hversions
    refine ⟨hinv, ?_⟩
    intro i
    rw [if_neg (fun haccepted => Bool.false_ne_true haccepted.2), hview]
  cases hupload : MessagesSyncer.uploadModification P account u id s.syncer with
  | error e synced =>
    have hsame := ends_of_error hends hupload
    rw [hupload, final, hsame] at hdb
    refine hrefused ?_ hdb
    unfold accepted
    rw [hupload]
  | ok result synced =>
    rw [hupload, final] at hdb
    rcases ends_of_ok hends hupload with ⟨hsame, hanswer⟩ | ⟨request, idlm, msg, hrequest, hanswer, happly⟩
    · refine hrefused ?_ (hdb.trans hsame)
      unfold accepted
      rw [hupload]
      cases hrequest : MessagesSyncer.uploadRequest P account u.iv id s.db with
      | error e => rfl
      | ok request =>
        cases request with
        | none => rfl
        | some request =>
          obtain ⟨e, he⟩ := hanswer request hrequest
          dsimp only
          rw [he]
    · have haccepted : s.accepted P account u id = some (request, idlm) := by
        unfold accepted
        rw [hupload, hrequest]
        dsimp only
        rw [hanswer]
      rw [haccepted] at hversions ⊢
      obtain ⟨hinv, hview⟩ := h.applied hrequest (hguard request idlm hanswer) happly hdb hversions
      refine ⟨hinv, ?_⟩
      intro i
      rw [hview]
      by_cases hi : id = i
      · rw [if_pos hi, if_pos ⟨hi, rfl⟩]
      · rw [if_neg hi, if_neg (fun hboth => hi hboth.1)]

theorem Shadowed.store (h : Shadowed s) {dateSent : String} {draft : DraftDao} {conv : ConversationDao}
    {msgSent : MessageSent} {delivery : List KulloAddress} {added : MessagesSyncer.Added}
    {attachments : List AttachmentDao} {db : Db}
    (hstore : MessagesUploader.store P account.userAddress dateSent draft conv msgSent delivery s.db =
      .ok (added, attachments, db)) (hdb : s'.db = db)
    (hversions : s'.versions = s.known msgSent.id (some ⟨msgSent.lastModified, some fun _ => true⟩)) :
    Shadowed s' ∧ ∀ i, view s' i =
      if msgSent.id = i then .alive (.fresh fun _ => true) else view s i := by
  obtain ⟨hfree, row, ⟨hmodified, halive, hstate⟩, hwrites⟩ := MetaSession.store_writes hstore
  rw [(h.absent msgSent.id hfree).2, ← hdb] at hwrites
  obtain ⟨hinv, hself, hother⟩ := h.writes hwrites hversions
    (new_shadow hmodified halive hstate (fun _ ho => by cases ho))
  refine ⟨hinv, ?_⟩
  intro i
  by_cases hi : msgSent.id = i
  · subst hi
    rw [if_pos rfl, hself, copyOf_alive rfl halive, hstate]
    rfl
  · rw [if_neg hi, hother i hi]

/-! ### Runs -/

theorem step_refines {op : ShadowOp} (h : Shadowed s) (hguard : guard s op) (hstep : Step P account s op s') :
    Shadowed s' ∧ ∀ id, view s' id = effect P account op s id (view s id) := by
  cases op with
  | setState c state msgId value =>
    cases hstep
    exact h.setState hguard state value rfl rfl
  | remove c msgId =>
    cases hstep
    exact h.remove hguard rfl rfl
  | process r =>
    cases hstep
    exact h.process hguard rfl rfl
  | uploadModification u id =>
    cases hstep
    exact h.uploadModification hguard rfl rfl
  | store dateSent draft conv msgSent delivery =>
    unfold Step perform at hstep
    dsimp only at hstep
    split at hstep
    · next added attachments db hstore =>
      cases hstep
      exact h.store hstore rfl rfl
    · cases hstep

/-! ### What is uploaded -/

private theorem uploadRequest_of_rows (P : Platform) (account : MessagesSyncer.Account) (iv : Bytes) {db : Db}
    {cur old : MessageRow} (hcur : currentRow db id = some cur)
    (hold : oldRow db id = some old) :
    MessagesSyncer.uploadRequest P account iv id db =
      if (MessageDao.ofRow cur).equals (.ofRow old) then .ok none
      else if cur.deleted then .ok (some (.deleteMessage ⟨id, old.lastModified⟩))
      else (do
        let metaData ← MessageEncryptor.encryptMeta P iv (MessageEncoder.encodeMeta P cur.read cur.done)
          account.privateDataKey
        .ok (some (.modifyMeta ⟨id, old.lastModified⟩ metaData))) := by
  unfold MessagesSyncer.uploadRequest
  rw [MessageDao.load_current, MessageDao.load_old, hcur, hold]
  dsimp only [Option.map_some, MessageDao.ofRow]
  rw [(key_of_oldRow hold).1]
  rfl

private theorem equals_ofRow (cur old : MessageRow) :
    (MessageDao.ofRow cur).equals (.ofRow old) = true ↔
      cur.id = old.id ∧ (cur.deleted = true ∧ old.deleted = true ∨
        cur.deleted = old.deleted ∧ cur.metaVersion = old.metaVersion ∧ cur.state = old.state) := by
  have hstate : cur.state = old.state ↔ cur.read = old.read ∧ cur.done = old.done := by
    constructor
    · intro h
      exact ⟨congrFun h .read, congrFun h .done⟩
    · rintro ⟨hread, hdone⟩
      funext state
      cases state
      · exact hread
      · exact hdone
  unfold MessageDao.equals
  rw [hstate]
  simp [MessageDao.ofRow, and_assoc]

theorem mem_locallyModifiedMessages_iff {db : Db} {old : MessageRow} (hold : oldRow db id = some old) :
    id ∈ MessageDao.locallyModifiedMessages db latestMetaVersion ↔ old.metaVersion ≤ latestMetaVersion := by
  constructor
  · intro hmem
    obtain ⟨old', hold', hsupported⟩ := MetaSession.mem_locallyModifiedMessages hmem
    rw [hold] at hold'
    cases hold'
    exact hsupported
  · intro hsupported
    obtain ⟨hid, hflag⟩ := key_of_oldRow hold
    refine List.mem_map.mpr ⟨old, Table.mem_select.mpr ⟨Table.mem_of_find? hold, ?_⟩, hid⟩
    rw [hflag, Bool.true_and, decide_eq_true_eq]
    exact hsupported

/-- A changed replica has a copy, and the request says what it is to say. -/
theorem Shadow.request (P : Platform) (account : MessagesSyncer.Account) {version : Version} {cur : MessageRow}
    {old : Option MessageRow} (iv : Bytes) (h : Shadow cur old version) (hcur : currentRow s.db id = some cur) (hold : oldRow s.db id = old) :
    let asked := MessagesSyncer.uploadRequest P account iv id s.db
    let copy := copyOf (some cur) (some version)
    (copy.Changed → old.isSome = true ∧ asked = ShadowSession.request P account iv ⟨id, version.lastModified⟩ copy) ∧
      (asked = .ok none ∨ asked = ShadowSession.request P account iv ⟨id, version.lastModified⟩ copy) := by
  dsimp only
  cases old with
  | none =>
    have hnone : MessagesSyncer.uploadRequest P account iv id s.db = .ok none := by
      unfold MessagesSyncer.uploadRequest
      rw [MessageDao.load_current, MessageDao.load_old, hcur, hold]
      rfl
    refine ⟨?_, .inl hnone⟩
    rcases h.cases with ⟨-, -, hcopy⟩ | ⟨base, hbase, ⟨hdeleted, -⟩ | ⟨-, hcopy⟩⟩
    · rw [hcopy]
      exact False.elim
    · rw [(h.synced base hbase rfl).1] at hdeleted
      cases hdeleted
    · rw [hcopy]
      exact fun hchanged => absurd (h.synced base hbase rfl).2 hchanged
  | some o =>
    have hasked := uploadRequest_of_rows P account iv hcur hold
    rw [h.copied o rfl] at hasked
    have hid : cur.id = o.id := (key_of_currentRow hcur).1.trans (key_of_oldRow hold).1.symm
    -- a message that is gone, one deleted here, and one that is there
    rcases h.cases with ⟨hstates, hdeleted, hcopy⟩ | ⟨base, hbase, hkind⟩
    · have hequals := (equals_ofRow cur o).mpr ⟨hid, .inl ⟨hdeleted, (h.buried hstates).2 o rfl⟩⟩
      rw [if_pos hequals] at hasked
      rw [hcopy]
      exact ⟨False.elim, .inl hasked⟩
    · obtain ⟨halive, hstate⟩ := h.shadow base hbase o rfl
      rcases hkind with ⟨hdeleted, hcopy⟩ | ⟨hdeleted, hcopy⟩
      · have hdiffers : ¬ (MessageDao.ofRow cur).equals (.ofRow o) = true := by
          rw [equals_ofRow, hdeleted, halive]
          simp
        rw [if_neg hdiffers, if_pos hdeleted] at hasked
        rw [hcopy]
        exact ⟨fun _ => ⟨rfl, hasked⟩, .inr hasked⟩
      · rw [hcopy]
        by_cases hequals : (MessageDao.ofRow cur).equals (.ofRow o) = true
        · rw [if_pos hequals] at hasked
          refine ⟨?_, .inl hasked⟩
          intro hchanged
          have hsame := (equals_ofRow cur o).mp hequals
          rw [hdeleted, halive, hstate] at hsame
          rcases hsame.2 with ⟨hno, -⟩ | ⟨-, -, hclean⟩
          · cases hno
          · exact absurd hclean hchanged
        · rw [if_neg hequals, if_neg (by simp [hdeleted])] at hasked
          exact ⟨fun _ => ⟨rfl, hasked⟩, .inr hasked⟩

/-- What is uploaded of a message is the deletion or the values of its replica, under the last version that was
synchronized; and no change is forgotten, unless the meta version is not supported. -/
theorem Shadowed.requests (P : Platform) (account : MessagesSyncer.Account) (hinv : Shadowed s) (iv : Bytes)
    {version : Version} (hversion : s.versions id = some version) :
    let asked := MessagesSyncer.uploadRequest P account iv id s.db
    ((view s id).Changed →
      asked = request P account iv ⟨id, version.lastModified⟩ (view s id) ∧
        ∃ old, oldRow s.db id = some old ∧
          (id ∈ MessageDao.locallyModifiedMessages s.db latestMetaVersion ↔ old.metaVersion ≤ latestMetaVersion)) ∧
      (asked = .ok none ∨ asked = request P account iv ⟨id, version.lastModified⟩ (view s id)) := by
  cases hcur : currentRow s.db id with
  | none =>
    rw [(hinv.absent id hcur).1] at hversion
    cases hversion
  | some cur =>
    obtain ⟨last, hlast, hshadow⟩ := hinv.stored id cur hcur
    rw [hversion] at hlast
    cases hlast
    obtain ⟨hchanged, hasked⟩ := hshadow.request P account iv hcur rfl
    have hview : view s id = copyOf (some cur) (some version) := by
      unfold view
      rw [hcur, hversion]
    rw [hview]
    refine ⟨?_, hasked⟩
    intro hcopy
    obtain ⟨hsome, hequals⟩ := hchanged hcopy
    obtain ⟨old, hold⟩ := Option.isSome_iff_exists.mp hsome
    exact ⟨hequals, old, hold, mem_locallyModifiedMessages_iff hold⟩

end

end ShadowSession

/-! ### The syncer beside the user -/

/-- The request that waits for its answer, with the database it was made from. -/
structure Asked where
  iv : Bytes
  id : IdType
  db : Db

/-- The messages of a device, with what its syncer has in hand while the user goes on. -/
structure SyncingSession where
  shadow : ShadowSession
  /-- The message `downloadAndProcessMessages` has come to, and the local version it has loaded. -/
  loc : Option (IdType × Option MessageDao) := none
  asked : Option Asked := none

inductive SyncingOp
  | setState (c : MessagesImpl) (state : MessageState) (msgId : IdType) (value : Bool)
  | remove (c : MessagesImpl) (msgId : IdType)
  /-- The loop of `downloadAndProcessMessages` loads the local version of a message. -/
  | load (msgId : IdType)
  /-- The rest of its body. -/
  | process (r : MessagesSyncer.Received)
  /-- `processNextModification`, up to the request. -/
  | request (iv : Bytes) (id : IdType)
  /-- The server has answered. -/
  | answer (result : Except Exn IdLastModified)
  | store (dateSent : String) (draft : DraftDao) (conv : ConversationRow) (msgSent : MessageSent)
      (delivery : List KulloAddress)

namespace SyncingSession

section

variable (P : Platform) (account : MessagesSyncer.Account)

/-- The messages after the server has accepted a request. -/
def modified (s : ShadowSession) (asked : Asked) (request : MessagesSyncer.UploadRequest) (idlm : IdLastModified) :
    ShadowSession :=
  match MessagesSyncer.handleSuccessfulModification idlm s.syncer with
  | .ok _ synced =>
    { db := synced.db
      versions := s.known asked.id
        (some (ShadowSession.uploadedVersion asked.db asked.id idlm.lastModified request)) }
  | .error _ synced => { s with db := synced.db }

def perform (op : SyncingOp) (s : SyncingSession) : Option SyncingSession :=
  match op with
  | .setState c state msgId value =>
    some { s with shadow := { s.shadow with db := (c.setState s.shadow.db state msgId value).2.db } }
  | .remove c msgId => some { s with shadow := { s.shadow with db := (c.remove s.shadow.db msgId).db } }
  | .load msgId => some { s with loc := some (msgId, MessageDao.load s.shadow.db msgId false) }
  | .process r =>
    match s.loc.filter (fun loc => loc.1 == r.msg.id) with
    | none => none
    | some (_, loc) =>
      let result := MessagesSyncer.processLoaded P account r loc s.shadow.syncer
      some
        { s with
          shadow := {
            db := (final result).db
            versions := s.shadow.known r.msg.id (s.shadow.processed P account r result) }
          loc := none }
  | .request iv id =>
    match MessagesSyncer.uploadRequest P account iv id s.shadow.db with
    -- what is asked is encoded now, and the answer may find other states
    | .ok (some _) => some { s with asked := some ⟨iv, id, s.shadow.db⟩ }
    | _ => some { s with asked := none }
  | .answer result =>
    match s.asked with
    | none => none
    | some asked =>
      match MessagesSyncer.uploadRequest P account asked.iv asked.id asked.db, result with
      | .ok (some request), .ok idlm => some { s with shadow := modified s.shadow asked request idlm, asked := none }
      | _, _ => some { s with asked := none }
  | .store dateSent draft conv msgSent delivery =>
    match MessagesUploader.store P account.userAddress dateSent draft (.ofRow conv) msgSent delivery s.shadow.db with
    | .ok (_, _, db) =>
      some
        { s with
          shadow := {
            db := db
            versions := s.shadow.known msgSent.id (some ⟨msgSent.lastModified, some fun _ => true⟩) } }
    | .error _ => none

def Step (s : SyncingSession) (op : SyncingOp) (s' : SyncingSession) : Prop := perform P account op s = some s'

end

/-- The user has not changed a message since the database was read. -/
def Untouched (s : SyncingSession) (db : Db) (id : IdType) : Prop :=
  currentRow s.shadow.db id = currentRow db id ∧ oldRow s.shadow.db id = oldRow db id

/-- What is asked of a step: the user is shown the message as it is stored, and does not change it between the moment the
syncer loads it and the transaction, nor between a request and its answer; the server does not restore a deleted message,
and it answers about the message it was asked for. -/
def guard (s : SyncingSession) (op : SyncingOp) : Prop :=
  match op with
  | .setState c _ msgId _ | .remove c msgId => ShadowSession.Shows c s.shadow.db msgId
  | .process r =>
    s.loc = some (r.msg.id, MessageDao.load s.shadow.db r.msg.id false) ∧
      (r.msg.deleted = false →
        ∀ version, s.shadow.versions r.msg.id = some version → version.states.isSome = true)
  | .answer result =>
    ∀ asked, s.asked = some asked →
      s.Untouched asked.db asked.id ∧ ∀ idlm, result = .ok idlm → idlm.id = asked.id
  | .load _ | .request .. | .store .. => True

/-- What a step does to the messages, as one operation; loading and asking do nothing. -/
def operation (s : SyncingSession) : SyncingOp → Option ShadowOp
  | .setState c state msgId value => some (.setState c state msgId value)
  | .remove c msgId => some (.remove c msgId)
  | .load _ | .request .. => none
  | .process r => some (.process { r with cancelled := false })
  | .answer result => s.asked.map fun asked => .uploadModification ⟨false, asked.iv, fun _ => result⟩ asked.id
  | .store dateSent draft conv msgSent delivery => some (.store dateSent draft conv msgSent delivery)

def view (s : SyncingSession) (id : IdType) : MessageCopy := s.shadow.view id

section

variable (P : Platform) (account : MessagesSyncer.Account)

/-- What a step is to do to a message. -/
def effect (op : SyncingOp) (s : SyncingSession) (id : IdType) (c : MessageCopy) : MessageCopy :=
  match s.operation op with
  | none => c
  | some op => ShadowSession.effect P account op s.shadow id c

end

section

variable {P : Platform} {account : MessagesSyncer.Account} {s s' : SyncingSession}

private theorem uploadRequest_of_untouched (P : Platform) (account : MessagesSyncer.Account) {db : Db} {id : IdType}
    (h : s.Untouched db id) (iv : Bytes) :
    MessagesSyncer.uploadRequest P account iv id s.shadow.db = MessagesSyncer.uploadRequest P account iv id db := by
  unfold MessagesSyncer.uploadRequest
  rw [MessageDao.load_current, MessageDao.load_old, MessageDao.load_current, MessageDao.load_old, h.1, h.2]

/-- Without a request that is accepted, an upload leaves everything as it is. -/
theorem upload_of_refused {s : ShadowSession} {u : MessagesSyncer.Upload} {id : IdType}
    (h : ∀ request idlm, MessagesSyncer.uploadRequest P account u.iv id s.db = .ok (some request) →
      u.answer request ≠ .ok idlm) : ShadowSession.Step P account s (.uploadModification u id) s := by
  have hends : Ends (MessagesSyncer.uploadModification P account u id) s.syncer
      (fun _ s' => s'.db = s.db) (fun _ s' => s'.db = s.db) := by
    refine (MessagesSyncer.uploadModification_ends u id s.syncer).mono ?_ fun _ _ hsame => hsame
    rintro _ s' (⟨hsame, -⟩ | ⟨request, idlm, -, hrequest, hanswer, -⟩)
    · exact hsame
    · exact absurd hanswer (h request idlm hrequest)
  have hdb : (final (MessagesSyncer.uploadModification P account u id s.syncer)).db = s.db := by
    cases hupload : MessagesSyncer.uploadModification P account u id s.syncer with
    | ok result synced =>
      have hsame := ends_of_ok hends hupload
      exact hsame
    | error e synced =>
      have hsame := ends_of_error hends hupload
      exact hsame
  have hnone : s.accepted P account u id = none := by
    unfold ShadowSession.accepted
    split
    · next hrequest =>
      split
      · next hanswer => exact absurd hanswer (h _ _ hrequest)
      · rfl
    · rfl
  unfold ShadowSession.Step ShadowSession.perform
  dsimp only
  rw [hdb, hnone]
  rfl

/-- The answer comes to a message that is as it was asked about. -/
theorem step_answer {asked : Asked} {result : Except Exn IdLastModified} (hasked : s.asked = some asked)
    (huntouched : s.Untouched asked.db asked.id) (hstep : Step P account s (.answer result) s') :
    ShadowSession.Step P account s.shadow (.uploadModification ⟨false, asked.iv, fun _ => result⟩ asked.id) s'.shadow := by
  have hrequest := uploadRequest_of_untouched P account huntouched asked.iv
  unfold Step perform at hstep
  dsimp only at hstep
  rw [hasked] at hstep
  dsimp only at hstep
  rw [← hrequest] at hstep
  split at hstep
  · next request idlm hsome =>
    cases hstep
    have hupload : MessagesSyncer.uploadModification P account ⟨false, asked.iv, fun _ => .ok idlm⟩ asked.id
        s.shadow.syncer = MessagesSyncer.handleSuccessfulModification idlm s.shadow.syncer :=
      MessagesSyncer.uploadModification_of_answer rfl hsome rfl
    unfold ShadowSession.Step ShadowSession.perform ShadowSession.accepted modified
    dsimp only
    rw [hupload, hsome]
    cases MessagesSyncer.handleSuccessfulModification idlm s.shadow.syncer with
    | ok _ synced =>
      have hversion : ShadowSession.uploadedVersion s.shadow.db asked.id idlm.lastModified request =
          ShadowSession.uploadedVersion asked.db asked.id idlm.lastModified request := by
        cases request with
        | deleteMessage _ => rfl
        | modifyMeta _ _ =>
          unfold ShadowSession.uploadedVersion
          rw [huntouched.1]
      dsimp only [Option.map_some, final]
      rw [hversion]
    | error e synced => rfl
  · next hno =>
    cases hstep
    refine upload_of_refused ?_
    intro request idlm hsome hresult
    exact hno request idlm hsome hresult

/-- What the syncer does between two steps of the user is one operation on the messages, or nothing. -/
theorem step_shadow {op : SyncingOp} (hguard : guard s op) (hstep : Step P account s op s') :
    (s.operation op = none ∧ s'.shadow = s.shadow) ∨
      ∃ op', s.operation op = some op' ∧ ShadowSession.guard s.shadow op' ∧
        ShadowSession.Step P account s.shadow op' s'.shadow := by
  cases op with
  | setState c state msgId value =>
    cases hstep
    exact .inr ⟨_, rfl, hguard, rfl⟩
  | remove c msgId =>
    cases hstep
    exact .inr ⟨_, rfl, hguard, rfl⟩
  | load msgId =>
    cases hstep
    exact .inl ⟨rfl, rfl⟩
  | process r =>
    obtain ⟨hloc, hserved⟩ := hguard
    refine .inr ⟨_, rfl, hserved, ?_⟩
    -- the copy loaded before is the one the transaction would load
    have hprocess : MessagesSyncer.process P account { r with cancelled := false } s.shadow.syncer =
        MessagesSyncer.processLoaded P account r (MessageDao.load s.shadow.db r.msg.id false) s.shadow.syncer :=
      MessagesSyncer.process_eq_processLoaded P account s.shadow.syncer rfl
    unfold Step perform at hstep
    dsimp only at hstep
    rw [hloc, Option.filter_some, beq_self_eq_true, if_pos rfl] at hstep
    cases hstep
    unfold ShadowSession.Step ShadowSession.perform ShadowSession.received
    dsimp only
    rw [hprocess]
    rfl
  | request iv id =>
    refine .inl ⟨rfl, ?_⟩
    unfold Step perform at hstep
    dsimp only at hstep
    split at hstep <;> cases hstep <;> rfl
  | answer result =>
    cases hasked : s.asked with
    | none =>
      unfold Step perform at hstep
      dsimp only at hstep
      rw [hasked] at hstep
      cases hstep
    | some asked =>
      obtain ⟨huntouched, hid⟩ := hguard asked hasked
      refine .inr ⟨_, congrArg (Option.map _) hasked, ?_, step_answer hasked huntouched hstep⟩
      intro _ idlm hanswer
      exact hid idlm hanswer
  | store dateSent draft conv msgSent delivery =>
    refine .inr ⟨_, rfl, trivial, ?_⟩
    unfold Step perform at hstep
    dsimp only at hstep
    unfold ShadowSession.Step ShadowSession.perform
    dsimp only
    split at hstep
    · cases hstep
      rfl
    · cases hstep

theorem step_refines {op : SyncingOp} (h : s.shadow.Shadowed) (hguard : guard s op) (hstep : Step P account s op s') :
    s'.shadow.Shadowed ∧ ∀ id, s'.view id = effect P account op s id (s.view id) := by
  unfold effect
  rcases step_shadow hguard hstep with ⟨hnone, hsame⟩ | ⟨op', hsome, hguard', hstep'⟩
  · rw [hnone]
    unfold view
    rw [hsame]
    exact ⟨h, fun _ => rfl⟩
  · rw [hsome]
    exact ShadowSession.step_refines h hguard' hstep'

variable {s₀ : SyncingSession}

private theorem shadowed_of_reaches (h₀ : s₀.shadow.Shadowed) (h : Transition.Reaches (Step P account) guard s₀ s) :
    s.shadow.Shadowed :=
  Transition.Reaches.keeps (I := fun s => s.shadow.Shadowed)
    (fun _ _ _ hinv hguard hstep => (step_refines hinv hguard hstep).1) h h₀

/-- In every reachable state what is uploaded of a message is the deletion or the values of its replica, under the last
version that was synchronized; and no change is forgotten, unless the meta version is not supported. -/
theorem uploads_changes (h₀ : s₀.shadow.Shadowed) (h : Transition.Reaches (Step P account) guard s₀ s) (iv : Bytes)
    {id : IdType} {version : Version} (hversion : s.shadow.versions id = some version) :
    let asked := MessagesSyncer.uploadRequest P account iv id s.shadow.db
    ((s.view id).Changed →
      asked = ShadowSession.request P account iv ⟨id, version.lastModified⟩ (s.view id) ∧
        ∃ old, oldRow s.shadow.db id = some old ∧
          (id ∈ MessageDao.locallyModifiedMessages s.shadow.db latestMetaVersion ↔
            old.metaVersion ≤ latestMetaVersion)) ∧
      (asked = .ok none ∨ asked = ShadowSession.request P account iv ⟨id, version.lastModified⟩ (s.view id)) :=
  (shadowed_of_reaches h₀ h).requests P account iv hversion

end

end SyncingSession

/-! ### An example -/

namespace ShadowSession

theorem shows_construct (db : Db) (msgId : IdType) : Shows (.construct db) db msgId where
  listed := MessagesImpl.listed_construct db
  stored dao hdao := by
    rw [MetaSession.find?_construct] at hdao
    obtain ⟨row, hrow, hsame⟩ := Option.map_eq_some_iff.mp hdao
    exact ⟨row, row.lastModified, hrow, hsame.symm⟩

def syncedDb : Db :=
  { MetaSession.letterKeys with messages := (∅ : Table MessageRow.key).insertOrIgnore (MetaSession.storedLetter 1 1) }

/-- A device with a message that is read and done. -/
def synced : ShadowSession where
  db := syncedDb
  versions id := if id = 1 then some ⟨5, some fun _ => true⟩ else none

private theorem state_storedLetter : (MetaSession.storedLetter 1 1).state = fun _ => true := by
  funext state
  cases state <;> rfl

theorem shadowed_synced : Shadowed synced := by
  have hold : ∀ id, oldRow syncedDb id = none := by
    intro id
    unfold oldRow syncedDb
    rw [Table.find?_insertOrIgnore, if_neg (by simp [MetaSession.storedLetter, MessageRow.key])]
    rfl
  have hcur : ∀ id, id ≠ 1 → currentRow syncedDb id = none := by
    intro id hid
    unfold currentRow syncedDb
    rw [Table.find?_insertOrIgnore, if_neg (by simp [MetaSession.storedLetter, MessageRow.key, Ne.symm hid])]
    rfl
  unfold synced
  constructor
  · intro id cur hrow
    by_cases hid : id = 1
    · subst hid
      cases hrow
      refine ⟨⟨5, some fun _ => true⟩, rfl, ?_⟩
      rw [hold]
      exact new_shadow rfl rfl state_storedLetter (fun _ ho => by cases ho)
    · rw [hcur id hid] at hrow
      cases hrow
  · intro id hrow
    refine ⟨?_, hold id⟩
    dsimp only at hrow ⊢
    split
    · next hid =>
      subst hid
      cases hrow
    · rfl

theorem view_synced : view synced 1 = .alive (.fresh fun _ => true) := by
  refine (copyOf_alive rfl rfl).trans ?_
  rw [state_storedLetter]
  rfl

/-- The user marks the message as unread. -/
def marked : ShadowSession :=
  { synced with db := ((MessagesImpl.construct syncedDb).setState syncedDb .read 1 false).2.db }

theorem view_marked : view marked 1 = .alive ⟨fun _ => true, Function.update (fun _ => true) .read false⟩ := by
  have hview : view marked 1 = if 1 = 1 ∧ 1 ≤ idMax ∧ ((MessagesImpl.construct syncedDb).messages.find? 1).isSome = true
      then (view synced 1).edit .read false else view synced 1 :=
    (shadowed_synced.setState (shows_construct syncedDb 1) .read false
      (rfl : marked.db = ((MessagesImpl.construct syncedDb).setState syncedDb .read 1 false).2.db) rfl).2 1
  rw [if_pos (by decide), view_synced] at hview
  exact hview

end ShadowSession

namespace SyncingSession

open MetaSession (sharing alice zeroIv sharingMeta letter)

def after (s : SyncingSession) (op : SyncingOp) : SyncingSession := (perform sharing alice op s).getD s

def start : SyncingSession := { shadow := ShadowSession.synced }

/-- The user marks the message as unread, and the server is asked to store it. -/
def asking : SyncingSession :=
  after (after start (.setState (.construct start.shadow.db) .read 1 false)) (.request zeroIv 1)

def answered : SyncingSession := after asking (.answer (.ok ⟨1, 6⟩))

/-- The message is marked as read again, and the syncer comes to it. -/
def loaded : SyncingSession :=
  after (after answered (.setState (.construct answered.shadow.db) .read 1 true)) (.load 1)

/-- Meanwhile another device has marked it as not done. -/
def merging : SyncingOp := .process { msg := letter 7 (sharingMeta 1 [0, 0]) }

def merged : SyncingSession := after loaded merging

theorem step_after {s : SyncingSession} {op : SyncingOp} (h : (perform sharing alice op s).isSome = true) :
    Step sharing alice s op (after s op) := by
  obtain ⟨s', hs'⟩ := Option.isSome_iff_exists.mp h
  unfold Step after
  rw [hs']
  rfl

theorem isSome_request (iv : Bytes) (id : IdType) (s : SyncingSession) :
    (perform sharing alice (.request iv id) s).isSome = true := by
  unfold perform
  dsimp only
  split <;> rfl

theorem isSome_process {s : SyncingSession} {r : MessagesSyncer.Received} {dao : Option MessageDao}
    (hloc : s.loc = some (r.msg.id, dao)) : (perform sharing alice (.process r) s).isSome = true := by
  unfold perform
  dsimp only
  rw [hloc, Option.filter_some, beq_self_eq_true, if_pos rfl]
  rfl

theorem isSome_answer {s : SyncingSession} (h : s.asked.isSome = true) (result : Except Exn IdLastModified) :
    (perform sharing alice (.answer result) s).isSome = true := by
  obtain ⟨asked, hasked⟩ := Option.isSome_iff_exists.mp h
  unfold perform
  dsimp only
  rw [hasked]
  dsimp only
  split <;> rfl

theorem asked_asking : asking.asked.isSome = true := by decide +kernel

private theorem reaches_asking : Transition.Reaches (Step sharing alice) guard start asking := by
  refine Transition.Reaches.snoc (a := .request zeroIv 1) ?_ trivial (step_after (isSome_request _ _ _))
  refine Transition.Reaches.snoc (a := .setState (.construct start.shadow.db) .read 1 false) .refl ?_ rfl
  exact ShadowSession.shows_construct _ _

private theorem reaches_answered : Transition.Reaches (Step sharing alice) guard start answered := by
  refine Transition.Reaches.snoc reaches_asking ?_ (step_after (isSome_answer asked_asking _))
  intro asked hasked
  cases hasked
  refine ⟨⟨rfl, rfl⟩, ?_⟩
  intro idlm hidlm
  cases hidlm
  rfl

private theorem reaches_loaded : Transition.Reaches (Step sharing alice) guard start loaded := by
  refine Transition.Reaches.snoc (a := .load 1) ?_ trivial rfl
  refine Transition.Reaches.snoc (a := .setState (.construct answered.shadow.db) .read 1 true) reaches_answered ?_ rfl
  exact ShadowSession.shows_construct _ _

theorem guard_merging : guard loaded merging := by
  refine ⟨rfl, ?_⟩
  intro _ version hversion
  have hserved : ((loaded.shadow.versions 1).map fun version => version.states.isSome) = some true := by
    decide +kernel
  have hsome : loaded.shadow.versions 1 = some version := hversion
  rw [hsome] at hserved
  exact Option.some.inj hserved

theorem step_merging : Step sharing alice loaded merging merged := step_after (isSome_process rfl)

/-- The states a replica is based on, and its own: read and done. -/
def shown : MessageCopy → Option ((Bool × Bool) × (Bool × Bool))
  | .alive replica => some ((replica.base .read, replica.base .done), (replica.mine .read, replica.mine .done))
  | _ => none

private theorem changed_of_shown {c : MessageCopy} {base mine : Bool × Bool} (h : shown c = some (base, mine))
    (hne : mine ≠ base) : c.Changed := by
  cases c with
  | alive replica =>
    intro hclean
    cases h
    exact hne (by rw [hclean])
  | absent => cases h
  | removed base => cases h
  | buried => cases h

/-- That the message is read again is uploaded, under the version of the other device. -/
theorem uploads_changes_merged :
    MessagesSyncer.uploadRequest sharing alice zeroIv 1 merged.shadow.db =
        .ok (some (.modifyMeta ⟨1, 7⟩ (sharingMeta 1 [1, 0]))) ∧
      1 ∈ MessageDao.locallyModifiedMessages merged.shadow.db latestMetaVersion := by
  have hshown : shown (merged.view 1) = some ((false, false), (true, false)) := by decide +kernel
  have hrequest : ShadowSession.request sharing alice zeroIv ⟨1, 7⟩ (merged.view 1) =
      .ok (some (.modifyMeta ⟨1, 7⟩ (sharingMeta 1 [1, 0]))) := by decide +kernel
  have hlast : (merged.shadow.versions 1).map Version.lastModified = some 7 := by decide +kernel
  have hsupported : (oldRow merged.shadow.db 1).map MessageRow.metaVersion = some 1 := by decide +kernel
  have hreaches := reaches_loaded.snoc guard_merging step_merging
  -- nothing more is to be computed of the run
  generalize merged = s at hshown hrequest hlast hsupported hreaches ⊢
  obtain ⟨version, hversion, hmodified⟩ := Option.map_eq_some_iff.mp hlast
  obtain ⟨hasked, old, hold, hlisted⟩ := (uploads_changes ShadowSession.shadowed_synced hreaches zeroIv hversion).1
    (changed_of_shown hshown (by decide))
  rw [hmodified, hrequest] at hasked
  rw [hold] at hsupported
  refine ⟨hasked, ?_⟩
  rw [hlisted, Option.some.inj hsupported]
  decide

end SyncingSession

end KulloClient
