import KulloClient.Db.Schema
import Mathlib.Data.List.Sort

/-!
# MessageDao

A `MessageDao` is a row of `messages` in memory, with the flags that say whether it differs from what was loaded
(`dirty`) and whether it is to be inserted or updated (`storedInDb`).
-/

namespace KulloClient

/-- `Dao::Old`, which row of a message is meant. -/
abbrev Old := Bool

/-- `Dao::CreateOld`: whether saving keeps a copy of the stored row, if there is none yet. -/
inductive CreateOld
  | yes
  | no
  deriving DecidableEq

/-- `Dao::MessageState`, without the negated states, which only queries use. -/
inductive MessageState
  | read
  | done
  deriving DecidableEq

structure MessageDao where
  row : MessageRow
  dirty : Bool := true
  storedInDb : Bool := false
  deriving DecidableEq

/-- The columns two devices agree on: what `operator==` compares, and what the server keeps. -/
def MessageRow.state (r : MessageRow) : MessageState → Bool
  | .read => r.read
  | .done => r.done

def MessageRow.withState (r : MessageRow) (s : MessageState) (v : Bool) : MessageRow :=
  match s with
  | .read => { r with read := v }
  | .done => { r with done := v }

namespace MessageDao

/-- `MessageDao(session)` followed by `setId(id)`. -/
def new (id : IdType) : MessageDao where
  row := { id := id }

/-- `loadFromDb`. -/
def ofRow (r : MessageRow) : MessageDao where
  row := r
  dirty := false
  storedInDb := true

@[simp] theorem ofRow_id (r : MessageRow) : (ofRow r).row.id = r.id := rfl

@[simp] theorem ofRow_conversationId (r : MessageRow) : (ofRow r).row.conversationId = r.conversationId := rfl

/-- `MessageDao::load`. -/
def load (db : Db) (id : IdType) (old : Old) : Option MessageDao :=
  (db.messages.find? (id, old)).map ofRow

/-- `all`, ordered by id: the messages that are deleted are among them. -/
def all (db : Db) : List MessageDao :=
  ((db.messages.select (fun r => !r.old)).insertionSort (fun r r' => decide (r.id ≤ r'.id))).map ofRow

/-- `locallyModifiedMessages`: the ids with an `old` row of a supported meta version. -/
def locallyModifiedMessages (db : Db) (maxMetaVersion : MetaVersion) : List IdType :=
  (db.messages.select (fun r => r.old && r.metaVersion ≤ maxMetaVersion)).map MessageRow.id

/-- `assignAndUpdateDirty` for one column: whether the value changed, and the dao with it. -/
def assign {α : Type} [DecidableEq α] (d : MessageDao) (get : MessageRow → α) (set : MessageRow → α → MessageRow)
    (v : α) : Bool × MessageDao :=
  if get d.row = v then (false, d) else (true, { d with row := set d.row v, dirty := true })

def setConversationId (d : MessageDao) (v : IdType) : Bool × MessageDao :=
  d.assign MessageRow.conversationId (fun r v => { r with conversationId := v }) v

def setLastModified (d : MessageDao) (v : LastModified) : Bool × MessageDao :=
  d.assign MessageRow.lastModified (fun r v => { r with lastModified := v }) v

def setSender (d : MessageDao) (v : String) : Bool × MessageDao :=
  d.assign MessageRow.sender (fun r v => { r with sender := v }) v

def setDeleted (d : MessageDao) (v : Bool) : Bool × MessageDao :=
  d.assign MessageRow.deleted (fun r v => { r with deleted := v }) v

def setDateSent (d : MessageDao) (v : String) : Bool × MessageDao :=
  d.assign MessageRow.dateSent (fun r v => { r with dateSent := v }) v

def setDateReceived (d : MessageDao) (v : String) : Bool × MessageDao :=
  d.assign MessageRow.dateReceived (fun r v => { r with dateReceived := v }) v

def setText (d : MessageDao) (v : String) : Bool × MessageDao :=
  d.assign MessageRow.text (fun r v => { r with text := v }) v

def setFooter (d : MessageDao) (v : String) : Bool × MessageDao :=
  d.assign MessageRow.footer (fun r v => { r with footer := v }) v

def setSymmetricKey (d : MessageDao) (v : Bytes) : Bool × MessageDao :=
  d.assign MessageRow.symmetricKey (fun r v => { r with symmetricKey := v }) v

def setMetaVersion (d : MessageDao) (v : MetaVersion) : Bool × MessageDao :=
  d.assign MessageRow.metaVersion (fun r v => { r with metaVersion := v }) v

def setState (d : MessageDao) (s : MessageState) (v : Bool) : Bool × MessageDao :=
  d.assign (fun r => r.state s) (fun r v => r.withState s v) v

/-- `clearData`: every column but id, old, lastModified and deleted. -/
def clearData (d : MessageDao) : MessageDao :=
  let d := (d.setConversationId 0).2
  let d := (d.setSender "").2
  let d := (d.setDateSent "").2
  let d := (d.setDateReceived "").2
  let d := (d.setText "").2
  let d := (d.setFooter "").2
  let d := (d.setSymmetricKey []).2
  let d := (d.setMetaVersion 0).2
  let d := (d.setState .read false).2
  (d.setState .done false).2

/-- `operator==`: the identity and the columns that are synchronized. -/
def equals (d d' : MessageDao) : Bool :=
  d.row.id == d'.row.id &&
    ((d.row.deleted && d'.row.deleted) ||
      (d.row.deleted == d'.row.deleted && d.row.metaVersion == d'.row.metaVersion &&
        d.row.read == d'.row.read && d.row.done == d'.row.done))

/-- The copy of the stored row that `save` keeps, if there is none yet. -/
def createOld (db : Db) (id : IdType) : Except Exn Db :=
  match db.messages.find? (id, true), db.messages.find? (id, false) with
  | none, some stored => do
    let messages ← insertRow db.messages { stored with old := true }
    .ok { db with messages := messages }
  | _, _ => .ok db

/-- `save`: whether the dao was dirty, the dao and the database afterwards. -/
def save (d : MessageDao) (createOldIfDoesntExist : CreateOld) (db : Db) : Except Exn (Bool × MessageDao × Db) :=
  if d.dirty then do
    let db ← match createOldIfDoesntExist with
      | .yes => createOld db d.row.id
      | .no => .ok db
    let saved := { d with dirty := false, storedInDb := true }
    if d.storedInDb then .ok (true, saved, { db with messages := db.messages.replace d.row })
    else do
      let messages ← insertRow db.messages d.row
      .ok (true, saved, { db with messages := messages })
  else .ok (false, d, db)

/-- `dropOld`. -/
def dropOld (d : MessageDao) (db : Db) : Except Exn Db := do
  kulloAssert (!d.row.old) "!old_"
  .ok { db with messages := db.messages.deleteWhere (fun r => r.key == (d.row.id, true)) }

/-! ### What the setters do -/

section assign

variable {α : Type} [DecidableEq α] {d : MessageDao} {get : MessageRow → α} {set : MessageRow → α → MessageRow} {v : α}

/-- The row after an assignment, for a column whose own value assigned to it changes nothing. -/
theorem assign_row (h : set d.row (get d.row) = d.row) : (d.assign get set v).2.row = set d.row v := by
  unfold assign
  split
  · next hv => rw [← hv, h]
  · rfl

theorem assign_dirty : (d.assign get set v).2.dirty = (d.dirty || decide (get d.row ≠ v)) := by
  unfold assign
  split <;> simp [*]

theorem assign_storedInDb : (d.assign get set v).2.storedInDb = d.storedInDb := by
  unfold assign
  split <;> rfl

end assign

@[simp] theorem withState_self (r : MessageRow) (s : MessageState) : r.withState s (r.state s) = r := by
  cases s <;> rfl

@[simp] theorem setConversationId_row (d : MessageDao) (v : IdType) :
    (d.setConversationId v).2.row = { d.row with conversationId := v } := assign_row rfl

@[simp] theorem setLastModified_row (d : MessageDao) (v : LastModified) :
    (d.setLastModified v).2.row = { d.row with lastModified := v } := assign_row rfl

@[simp] theorem setSender_row (d : MessageDao) (v : String) :
    (d.setSender v).2.row = { d.row with sender := v } := assign_row rfl

@[simp] theorem setDeleted_row (d : MessageDao) (v : Bool) :
    (d.setDeleted v).2.row = { d.row with deleted := v } := assign_row rfl

@[simp] theorem setDateSent_row (d : MessageDao) (v : String) :
    (d.setDateSent v).2.row = { d.row with dateSent := v } := assign_row rfl

@[simp] theorem setDateReceived_row (d : MessageDao) (v : String) :
    (d.setDateReceived v).2.row = { d.row with dateReceived := v } := assign_row rfl

@[simp] theorem setText_row (d : MessageDao) (v : String) :
    (d.setText v).2.row = { d.row with text := v } := assign_row rfl

@[simp] theorem setFooter_row (d : MessageDao) (v : String) :
    (d.setFooter v).2.row = { d.row with footer := v } := assign_row rfl

@[simp] theorem setSymmetricKey_row (d : MessageDao) (v : Bytes) :
    (d.setSymmetricKey v).2.row = { d.row with symmetricKey := v } := assign_row rfl

@[simp] theorem setMetaVersion_row (d : MessageDao) (v : MetaVersion) :
    (d.setMetaVersion v).2.row = { d.row with metaVersion := v } := assign_row rfl

@[simp] theorem setState_row (d : MessageDao) (s : MessageState) (v : Bool) :
    (d.setState s v).2.row = d.row.withState s v := assign_row (withState_self d.row s)

/-- A dao that `save` inserts. -/
structure IsNew (d : MessageDao) : Prop where
  dirty : d.dirty = true
  storedInDb : d.storedInDb = false

theorem IsNew.assign {α : Type} [DecidableEq α] {d : MessageDao} {get : MessageRow → α}
    {set : MessageRow → α → MessageRow} {v : α} (h : d.IsNew) : (d.assign get set v).2.IsNew where
  dirty := by rw [assign_dirty, h.dirty, Bool.true_or]
  storedInDb := by rw [assign_storedInDb, h.storedInDb]

theorem IsNew.save {d : MessageDao} {db : Db} (h : d.IsNew) (hfree : db.messages.find? d.row.key = none) :
    d.save .no db =
      .ok (true, { d with dirty := false, storedInDb := true }, { db with messages := db.messages.insert d.row hfree }) := by
  unfold MessageDao.save
  rw [if_pos h.dirty]
  simp only [Imperative.ok_bind, h.storedInDb, Bool.false_eq_true, if_false, insertRow_of_find? hfree]

/-! ### The messages of a database -/

theorem mem_all {db : Db} {d : MessageDao} : d ∈ all db ↔ ∃ r ∈ db.messages, r.old = false ∧ ofRow r = d := by
  simp [all, and_assoc]

theorem nodup_all (db : Db) : ((all db).map fun d => d.row.id).Nodup := by
  have hperm := List.perm_insertionSort (fun r r' : MessageRow => decide (r.id ≤ r'.id))
    (db.messages.select (fun r => !r.old))
  have hids : (all db).map (fun d => d.row.id) = ((db.messages.select (fun r => !r.old)).insertionSort
      (fun r r' => decide (r.id ≤ r'.id))).map MessageRow.id := by
    unfold all
    rw [List.map_map]
    rfl
  rw [hids, (hperm.map MessageRow.id).nodup_iff]
  refine (List.Nodup.of_map _ (db.messages.nodup.sublist (List.filter_sublist.map _))).map_on ?_
  intro r hr r' hr' hid
  obtain ⟨hmem, hold⟩ := List.mem_filter.mp hr
  obtain ⟨hmem', hold'⟩ := List.mem_filter.mp hr'
  apply Relational.Table.eq_of_key_eq hmem hmem'
  have hsame : r.old = r'.old := by simpa using hold.trans hold'.symm
  exact Prod.ext hid hsame

end MessageDao

end KulloClient
