import KulloClient.ApiImpl.Events
import KulloClient.Dao.Draft
import Mathlib.Logic.Function.Basic

/-!
# DraftsImpl

The drafts as the main thread has cached them.  Every change is made to the cached dao, which is then saved with all its
columns, whatever the database holds by then; only `draftModified` loads a draft again.
-/

namespace KulloClient

open Imperative

/-- `Util::UserSettings`, without the address, the master key and the reminder. -/
structure UserSettings where
  name : String
  organization : String := ""
  footer : String := ""
  avatar : Bytes := []
  avatarMimeType : String := ""
  deriving DecidableEq

namespace DraftDao

/-- The row of a draft that was never written to. -/
def blankRow (convId : IdType) : DraftRow where
  conversationId := convId

/-- The dao of a conversation that has no draft. -/
def blank (convId : IdType) : DraftDao := new.setConversationId convId

/-- What `prepareToSend` sets. -/
def setSender (d : DraftDao) (settings : UserSettings) : DraftDao :=
  let d := ((d.setState .sending).setFooter settings.footer).setSenderName settings.name
  let d := (d.setSenderOrganization settings.organization).setSenderAvatar settings.avatar
  d.setSenderAvatarMimeType settings.avatarMimeType

end DraftDao

/-- `drafts_`. -/
structure DraftsImpl where
  drafts : IdType → Option DraftDao

namespace DraftsImpl

/-- The constructor. -/
def construct (db : Db) : DraftsImpl where
  drafts := DraftDao.load db

def text (c : DraftsImpl) (convId : IdType) : Except Exn String := do
  assertId convId "convId"
  .ok (((c.drafts convId).map fun dao => dao.row.text).getD "")

def state (c : DraftsImpl) (convId : IdType) : Except Exn DraftState := do
  assertId convId "convId"
  .ok (((c.drafts convId).map fun dao => dao.row.state).getD .editing)

/-- A dao becomes the cached one. -/
def put (c : DraftsImpl) (convId : IdType) (dao : DraftDao) : DraftsImpl where
  drafts := Function.update c.drafts convId (some dao)

/-- What an operation or a handler leaves behind, with the exception it ends with. -/
structure Effect where
  impl : DraftsImpl
  db : Db
  events : List Event := []
  apiEvents : List ApiEvent := []
  raised : Option Exn := none

/-- A transaction that saves a cached dao; what was set in memory stays if it fails. -/
def saved (c : DraftsImpl) (db : Db) (convId : IdType) (dao : DraftDao) (events : List Event) : Effect :=
  match dao.save db with
  | .ok (dao, db) => { impl := c.put convId dao, db := db, events := events }
  | .error e => { impl := c.put convId dao, db := db, raised := some e }

def textChanged (convId : IdType) : ApiEvent := { event := .draftTextChanged, conversationId := convId }

def stateChanged (convId : IdType) : ApiEvent := { event := .draftStateChanged, conversationId := convId }

def setText (c : DraftsImpl) (db : Db) (convId : IdType) (text : String) : Except Exn Effect := do
  assertId convId "convId"
  match c.drafts convId with
  | some dao =>
    if dao.row.text = text then .ok { impl := c, db := db }
    else .ok (c.saved db convId (dao.setText text) [.sendApiEvents [textChanged convId]])
  | none =>
    match ((DraftDao.blank convId).setText text).save db with
    | .ok (dao, db) =>
      .ok { impl := c.put convId dao, db := db, events := [.sendApiEvents [textChanged convId]] }
    -- a new dao is cached only after it was saved
    | .error e => .ok { impl := c, db := db, raised := some e }

def noSenderName : Exn := .logicError "UserSettings::name() must be non-empty"

def prepareToSend (c : DraftsImpl) (db : Db) (convId : IdType) (settings : UserSettings) : Except Exn Effect := do
  assertId convId "convId"
  let dao := (c.drafts convId).getD (.blank convId)
  let c := c.put convId dao
  if settings.name.isEmpty then .ok { impl := c, db := db, raised := some noSenderName }
  else .ok (c.saved db convId (dao.setSender settings) [.sendApiEvents [stateChanged convId]])

def clear (c : DraftsImpl) (db : Db) (convId : IdType) : Except Exn Effect := do
  assertId convId "convId"
  match c.drafts convId with
  | some dao => .ok (c.saved db convId dao.clear [.draftRemoved convId])
  | none => .ok { impl := c, db := db }

def draftModified (c : DraftsImpl) (db : Db) (convId : IdType) : Except Exn Effect := do
  assertId convId "convId"
  match DraftDao.load db convId with
  | none => .error (.databaseIntegrityError "DraftsImpl::draftModified")
  | some dao =>
    let old := c.drafts convId
    .ok
      { impl := c.put convId dao
        db := db
        apiEvents :=
          (if old.map (fun old => old.row.state) = some dao.row.state then [] else [stateChanged convId]) ++
          (if old.map (fun old => old.row.text) = some dao.row.text then [] else [textChanged convId]) }

def conversationWillBeRemoved (c : DraftsImpl) (db : Db) (convId : IdType) : Except Exn Effect :=
  match c.drafts convId with
  | none => .ok { impl := c, db := db }
  | some _ => do
    let e ← c.clear db convId
    .ok { e with apiEvents := if e.raised = none then [stateChanged convId, textChanged convId] else [] }

/-- `SessionImpl::notify`, as far as the drafts hear of it. -/
def notify (c : DraftsImpl) (db : Db) (e : Event) : Effect :=
  let result :=
    match e with
    | .draftModified convId => c.draftModified db convId
    | .conversationWillBeRemoved convId => c.conversationWillBeRemoved db convId
    | _ => .ok { impl := c, db := db }
  match result with
  | .ok effect => effect
  | .error x => { impl := c, db := db, raised := some x }

end DraftsImpl

/-! ### What a cached dao is -/

namespace DraftDao

@[simp] theorem ofRow_row (r : DraftRow) : (ofRow r).row = r := rfl

@[simp] theorem blank_row (convId : IdType) : (blank convId).row = blankRow convId := by
  unfold blank setConversationId
  split
  · next h => rw [← h]; rfl
  · rfl

private theorem blank_flags (convId : IdType) : (blank convId).dirty = true ∧ (blank convId).storedInDb = false := by
  unfold blank setConversationId
  split
  · exact ⟨rfl, rfl⟩
  · exact ⟨rfl, rfl⟩

/-- A dao after assignments to some of its columns: it is dirty unless nothing was changed. -/
structure Modifies (d d' : DraftDao) : Prop where
  storedInDb : d'.storedInDb = d.storedInDb
  conversationId : d'.row.conversationId = d.row.conversationId
  dirty : d.dirty = true → d'.dirty = true
  unchanged : d'.dirty = false → d' = d

namespace Modifies

variable {d d' d'' : DraftDao}

theorem trans (h : Modifies d d') (h' : Modifies d' d'') : Modifies d d'' where
  storedInDb := h'.storedInDb.trans h.storedInDb
  conversationId := h'.conversationId.trans h.conversationId
  dirty hd := h'.dirty (h.dirty hd)
  unchanged hd := by
    have hd' := h'.unchanged hd
    rw [hd'] at hd ⊢
    exact h.unchanged hd

theorem assign {α : Type} [DecidableEq α] {get : DraftRow → α} {set : DraftRow → α → DraftRow} {v : α}
    (hset : (set d.row v).conversationId = d.row.conversationId) : Modifies d (d.assign get set v) := by
  unfold DraftDao.assign
  split
  · exact ⟨rfl, rfl, id, fun _ => rfl⟩
  · exact ⟨rfl, hset, fun _ => rfl, fun h => by cases h⟩

end Modifies

variable (d : DraftDao)

theorem setState_modifies (state : DraftState) : Modifies d (d.setState state) := .assign rfl

private theorem setText_modifies (text : String) : Modifies d (d.setText text) := .assign rfl

private theorem setFooter_modifies (footer : String) : Modifies d (d.setFooter footer) := .assign rfl

private theorem setSenderName_modifies (name : String) : Modifies d (d.setSenderName name) := .assign rfl

private theorem setSenderOrganization_modifies (organization : String) :
    Modifies d (d.setSenderOrganization organization) := .assign rfl

private theorem setSenderAvatar_modifies (avatar : Bytes) : Modifies d (d.setSenderAvatar avatar) := .assign rfl

private theorem setSenderAvatarMimeType_modifies (mimeType : String) : Modifies d (d.setSenderAvatarMimeType mimeType) :=
  .assign rfl

theorem clear_modifies : Modifies d d.clear :=
  (setState_modifies d .editing).trans <| (setText_modifies _ "").trans <| (setFooter_modifies _ "").trans <|
    (setSenderName_modifies _ "").trans <| (setSenderOrganization_modifies _ "").trans <|
    (setSenderAvatar_modifies _ []).trans (setSenderAvatarMimeType_modifies _ "")

private theorem setSender_modifies (settings : UserSettings) : Modifies d (d.setSender settings) :=
  (setState_modifies d .sending).trans <| (setFooter_modifies _ settings.footer).trans <|
    (setSenderName_modifies _ settings.name).trans <|
    (setSenderOrganization_modifies _ settings.organization).trans <|
    (setSenderAvatar_modifies _ settings.avatar).trans (setSenderAvatarMimeType_modifies _ settings.avatarMimeType)

/-- The row of a draft that is released. -/
def releasedRow (settings : UserSettings) (r : DraftRow) : DraftRow :=
  { r with
    state := .sending
    footer := settings.footer
    senderName := settings.name
    senderOrganization := settings.organization
    senderAvatar := settings.avatar
    senderAvatarMimeType := settings.avatarMimeType }

@[simp] theorem setSender_row (settings : UserSettings) : (d.setSender settings).row = releasedRow settings d.row := by
  simp [setSender, releasedRow]

end DraftDao

namespace DraftsImpl

variable {c : DraftsImpl} {db : Db} {convId : IdType}

/-- What may be cached of a conversation with a given row: the dao of some row if there is one, and nothing or a dao that
was never saved if there is none. -/
inductive Cached (convId : IdType) : Option DraftRow → Option DraftDao → Prop
  | absent : Cached convId none none
  | unsaved : Cached convId none (some (.blank convId))
  | stored (r r' : DraftRow) (h : r.conversationId = convId) (h' : r'.conversationId = convId) :
    Cached convId (some r) (some (.ofRow r'))

/-- The row that the cache shows. -/
def row (c : DraftsImpl) (convId : IdType) : DraftRow := ((c.drafts convId).map DraftDao.row).getD (DraftDao.blankRow convId)

/-- An operation on a conversation leaves a row cached; it is also in the table, unless the cache showed it before and the
table was left alone. -/
structure Written (c : DraftsImpl) (db : Db) (convId : IdType) (r : DraftRow) (e : Effect) : Prop where
  shown : e.impl.row convId = r
  cached : Cached convId (e.db.drafts.find? convId) (e.impl.drafts convId)
  row : e.db.drafts.find? convId = some r ∨ (e.db.drafts.find? convId = db.drafts.find? convId ∧ c.row convId = r)
  otherCached : ∀ k, k ≠ convId → e.impl.drafts k = c.drafts k
  otherRows : ∀ k, k ≠ convId → e.db.drafts.find? k = db.drafts.find? k

/-- Events that are not for the drafts. -/
def Unrelated (es : List Event) : Prop :=
  ∀ e ∈ es, ∀ convId, e ≠ .draftModified convId ∧ e ≠ .conversationWillBeRemoved convId

private theorem unrelated_nil : Unrelated [] := fun _ h => absurd h List.not_mem_nil

private theorem unrelated_sendApiEvents (apiEvents : List ApiEvent) : Unrelated [.sendApiEvents apiEvents] := by
  intro e he convId
  rw [List.mem_singleton.1 he]
  exact ⟨Event.noConfusion, Event.noConfusion⟩

private theorem unrelated_draftRemoved (convId : IdType) : Unrelated [.draftRemoved convId] := by
  intro e he convId
  rw [List.mem_singleton.1 he]
  exact ⟨Event.noConfusion, Event.noConfusion⟩

private theorem row_of_some {dao : DraftDao} (h : c.drafts convId = some dao) : c.row convId = dao.row := by
  unfold row
  rw [h]
  rfl

theorem row_of_loaded {r : DraftRow} (h : c.drafts convId = some (.ofRow r)) : c.row convId = r := row_of_some h

private theorem row_of_none (h : c.drafts convId = none) : c.row convId = DraftDao.blankRow convId := by
  unfold row
  rw [h]
  rfl

/-- A draft that has a row keeps one. -/
theorem Written.find?_some {r : DraftRow} {e : Effect} (h : Written c db convId r e) {k : IdType} {r' : DraftRow}
    (hr : db.drafts.find? k = some r') : ∃ r'', e.db.drafts.find? k = some r'' := by
  by_cases hk : k = convId
  · subst hk
    rcases h.row with hrow | ⟨hrow, -⟩
    · exact ⟨r, hrow⟩
    · exact ⟨r', hrow.trans hr⟩
  · exact ⟨r', (h.otherRows k hk).trans hr⟩

theorem Written.row_of_ne {r : DraftRow} {e : Effect} (h : Written c db convId r e) {k : IdType} (hk : k ≠ convId) :
    e.impl.row k = c.row k := by
  unfold DraftsImpl.row
  rw [h.otherCached k hk]

private theorem row_put (c : DraftsImpl) (convId : IdType) (dao : DraftDao) : (c.put convId dao).row convId = dao.row :=
  row_of_some (Function.update_self ..)

private theorem Cached.row_conversationId {r : Option DraftRow} {dao : DraftDao} (h : Cached convId r (some dao)) :
    dao.row.conversationId = convId := by
  cases h with
  | unsaved => rw [DraftDao.blank_row]; rfl
  | stored r r' h h' => exact h'

/-- A changed dao is saved with all its columns. -/
theorem save_modified {dao dao' : DraftDao} (hcached : Cached convId (db.drafts.find? convId) (some dao))
    (h : DraftDao.Modifies dao dao') (hdirty : dao'.dirty = true) :
    ∃ db', dao'.save db = .ok (.ofRow dao'.row, db') ∧
      ∀ k, db'.drafts.find? k = if k = convId then some dao'.row else db.drafts.find? k := by
  have hid : dao'.row.conversationId = convId := h.conversationId.trans hcached.row_conversationId
  generalize hrow : db.drafts.find? convId = found at hcached
  cases hcached with
  | unsaved =>
    have hstored : dao'.storedInDb = false := h.storedInDb.trans (DraftDao.blank_flags convId).2
    have hfree : db.drafts.find? dao'.row.conversationId = none := by rw [hid, hrow]
    have hsave : dao'.save db = .ok (.ofRow dao'.row, { db with drafts := db.drafts.insert dao'.row hfree }) := by
      unfold DraftDao.save
      rw [hdirty, hstored, insertRow_of_find? hfree]
      rfl
    refine ⟨_, hsave, ?_⟩
    intro k
    show (db.drafts.insert dao'.row hfree).find? k = _
    rw [Relational.Table.find?_insert, hid]
    simp only [eq_comm]
  | stored r r' h₁ h₂ =>
    have hstored : dao'.storedInDb = true := h.storedInDb
    refine ⟨_, DraftDao.save_of_stored hdirty hstored, ?_⟩
    intro k
    show (db.drafts.replace dao'.row).find? k = _
    rw [Relational.Table.find?_replace, hid]
    by_cases hk : convId = k
    · rw [if_pos hk, if_pos hk.symm, ← hk, hrow]
      rfl
    · rw [if_neg hk, if_neg (fun h => hk h.symm)]

/-- A transaction of a dao that is cached, or is about to be. -/
theorem saved_written {dao dao' : DraftDao} (hcached : Cached convId (db.drafts.find? convId) (some dao))
    (hrow : c.row convId = dao.row) (h : DraftDao.Modifies dao dao') {events : List Event} (hevents : Unrelated events) :
    (c.saved db convId dao' events).raised = none ∧ Unrelated (c.saved db convId dao' events).events ∧
      Written c db convId dao'.row (c.saved db convId dao' events) := by
  unfold saved
  cases hdirty : dao'.dirty with
  | false =>
    have hsame := h.unchanged hdirty
    have hsave : dao'.save db = .ok (dao', db) := by
      unfold DraftDao.save
      rw [hdirty]
      rfl
    rw [hsave]
    refine ⟨rfl, hevents, ⟨row_put .., ?_, .inr ⟨rfl, ?_⟩, ?_, fun _ _ => rfl⟩⟩
    · show Cached convId (db.drafts.find? convId) (Function.update c.drafts convId (some dao') convId)
      rw [Function.update_self, hsame]
      exact hcached
    · rw [hrow, hsame]
    · intro k hk
      exact Function.update_of_ne hk ..
  | true =>
    obtain ⟨db', hsave, hrows⟩ := save_modified hcached h hdirty
    have hfind : db'.drafts.find? convId = some dao'.row := by rw [hrows, if_pos rfl]
    rw [hsave]
    refine ⟨rfl, hevents, ⟨row_put .., ?_, .inl hfind, ?_, ?_⟩⟩
    · show Cached convId (db'.drafts.find? convId) (Function.update c.drafts convId (some (.ofRow dao'.row)) convId)
      rw [Function.update_self, hfind]
      have hid := h.conversationId.trans hcached.row_conversationId
      exact .stored _ _ hid hid
    · intro k hk
      exact Function.update_of_ne hk ..
    · intro k hk
      show db'.drafts.find? k = _
      rw [hrows, if_neg hk]

/-- The dao that an operation changes, for a conversation without one a new dao. -/
theorem Cached.getD (h : Cached convId (db.drafts.find? convId) (c.drafts convId)) :
    Cached convId (db.drafts.find? convId) (some ((c.drafts convId).getD (.blank convId))) ∧
      c.row convId = ((c.drafts convId).getD (.blank convId)).row := by
  cases hdrafts : c.drafts convId with
  | none =>
    rw [hdrafts] at h
    generalize db.drafts.find? convId = found at h
    cases h
    refine ⟨.unsaved, ?_⟩
    rw [row_of_none hdrafts, Option.getD_none, DraftDao.blank_row]
  | some dao => exact ⟨hdrafts ▸ h, row_of_some hdrafts⟩

/-! ### What the operations do -/

section operations

variable (hid : convId ≤ idMax) (hcached : Cached convId (db.drafts.find? convId) (c.drafts convId))
include hid hcached

theorem setText_written (text : String) :
    ∃ e, c.setText db convId text = .ok e ∧ e.raised = none ∧ Unrelated e.events ∧
      Written c db convId { c.row convId with text := text } e := by
  obtain ⟨hdao, hrow⟩ := hcached.getD
  have hmodifies := DraftDao.setText_modifies ((c.drafts convId).getD (.blank convId)) text
  obtain ⟨hraised, hevents, hwritten⟩ :=
    saved_written hdao hrow hmodifies (unrelated_sendApiEvents [textChanged convId])
  rw [DraftDao.setText_row, ← hrow] at hwritten
  unfold setText
  rw [assertId_of_le hid, ok_bind]
  cases hdrafts : c.drafts convId with
  | none =>
    -- the dao is saved before it is cached, which makes no difference if it is saved
    rw [hdrafts, Option.getD_none] at hdao hmodifies hwritten
    obtain ⟨db', hsave, -⟩ := save_modified hdao hmodifies (hmodifies.dirty (DraftDao.blank_flags convId).1)
    unfold saved at hwritten
    rw [hsave] at hwritten
    dsimp only
    rw [hsave]
    exact ⟨_, rfl, rfl, unrelated_sendApiEvents _, hwritten⟩
  | some dao =>
    rw [hdrafts, Option.getD_some] at hraised hevents hwritten
    dsimp only
    by_cases hsame : dao.row.text = text
    · rw [if_pos hsame]
      have hshown : c.row convId = { c.row convId with text := text } := by rw [row_of_some hdrafts, ← hsame]
      exact ⟨_, rfl, rfl, unrelated_nil, ⟨hshown, hcached, .inr ⟨rfl, hshown⟩, fun _ _ => rfl, fun _ _ => rfl⟩⟩
    · rw [if_neg hsame]
      exact ⟨_, rfl, hraised, hevents, hwritten⟩

/-- Without a name of the sender nothing is written. -/
theorem prepareToSend_written (settings : UserSettings) :
    ∃ e, c.prepareToSend db convId settings = .ok e ∧
      (settings.name.isEmpty = true → e.raised = some noSenderName ∧ e.db = db ∧ e.events = [] ∧
        Written c db convId (c.row convId) e) ∧
      (settings.name.isEmpty = false → e.raised = none ∧ Unrelated e.events ∧
        Written c db convId (DraftDao.releasedRow settings (c.row convId)) e) := by
  obtain ⟨hdao, hrow⟩ := hcached.getD
  have hput : (c.put convId ((c.drafts convId).getD (.blank convId))).row convId = c.row convId := by
    rw [row_put, hrow]
  have hother : ∀ k, k ≠ convId → (c.put convId ((c.drafts convId).getD (.blank convId))).drafts k = c.drafts k :=
    fun k hk => Function.update_of_ne hk ..
  unfold prepareToSend
  rw [assertId_of_le hid, ok_bind]
  dsimp only
  cases settings.name.isEmpty with
  | true =>
    rw [if_pos rfl]
    refine ⟨_, rfl, fun _ => ⟨rfl, rfl, rfl, ⟨hput, ?_, .inr ⟨rfl, rfl⟩, hother, fun _ _ => rfl⟩⟩,
      fun h => absurd h (by decide)⟩
    show Cached convId (db.drafts.find? convId) (Function.update c.drafts convId _ convId)
    rw [Function.update_self]
    exact hdao
  | false =>
    obtain ⟨hraised, hevents, hwritten⟩ := saved_written hdao (hput.trans hrow)
      (DraftDao.setSender_modifies _ settings) (unrelated_sendApiEvents [stateChanged convId])
    rw [DraftDao.setSender_row, ← hrow] at hwritten
    rw [if_neg (by decide)]
    refine ⟨_, rfl, fun h => absurd h (by decide),
      fun _ => ⟨hraised, hevents, ⟨hwritten.shown, hwritten.cached, ?_, ?_, hwritten.otherRows⟩⟩⟩
    · rw [← hput]
      exact hput ▸ hwritten.row
    · intro k hk
      rw [hwritten.otherCached k hk, hother k hk]

theorem clear_written :
    ∃ e, c.clear db convId = .ok e ∧ e.raised = none ∧ Unrelated e.events ∧
      Written c db convId (DraftDao.clearedRow (c.row convId)) e := by
  unfold clear
  rw [assertId_of_le hid, ok_bind]
  cases hdrafts : c.drafts convId with
  | none =>
    have hblank : c.row convId = DraftDao.clearedRow (c.row convId) := by
      rw [row_of_none hdrafts]
      rfl
    exact ⟨_, rfl, rfl, unrelated_nil, ⟨hblank, hcached, .inr ⟨rfl, hblank⟩, fun _ _ => rfl, fun _ _ => rfl⟩⟩
  | some dao =>
    have hrow := row_of_some hdrafts
    rw [hdrafts] at hcached
    obtain ⟨hraised, hevents, hwritten⟩ :=
      saved_written hcached hrow (DraftDao.clear_modifies dao) (unrelated_draftRemoved convId)
    rw [DraftDao.clear_row, ← hrow] at hwritten
    exact ⟨_, rfl, hraised, hevents, hwritten⟩

theorem conversationWillBeRemoved_written :
    ∃ e, c.conversationWillBeRemoved db convId = .ok e ∧ e.raised = none ∧ Unrelated e.events ∧
      Written c db convId (DraftDao.clearedRow (c.row convId)) e := by
  obtain ⟨e, hclear, hraised, hunrelated, hwritten⟩ := clear_written hid hcached
  unfold conversationWillBeRemoved
  cases hdrafts : c.drafts convId with
  | none =>
    have hblank : c.row convId = DraftDao.clearedRow (c.row convId) := by
      rw [row_of_none hdrafts]
      rfl
    exact ⟨_, rfl, rfl, unrelated_nil, ⟨hblank, hcached, .inr ⟨rfl, hblank⟩, fun _ _ => rfl, fun _ _ => rfl⟩⟩
  | some dao =>
    dsimp only
    rw [hclear, ok_bind]
    exact ⟨_, rfl, hraised, hunrelated,
      ⟨hwritten.shown, hwritten.cached, hwritten.row, hwritten.otherCached, hwritten.otherRows⟩⟩

omit hcached in
/-- A draft that has a row is loaded again. -/
theorem draftModified_loads {r : DraftRow} (hrow : db.drafts.find? convId = some r) :
    ∃ e, c.draftModified db convId = .ok e ∧ e.raised = none ∧ e.db = db ∧ e.events = [] ∧
      e.impl.drafts = Function.update c.drafts convId (some (.ofRow r)) := by
  have hload : DraftDao.load db convId = some (.ofRow r) := DraftDao.load_eq_some.2 ⟨r, hrow, rfl⟩
  unfold draftModified
  rw [assertId_of_le hid, ok_bind, hload]
  exact ⟨_, rfl, rfl, rfl, rfl, rfl⟩

end operations

end DraftsImpl

end KulloClient
