import KulloClient.Db.Schema

/-!
# DraftDao

The draft of a conversation, a row of `drafts` in memory with the flags of every dao.
-/

namespace KulloClient

structure DraftDao where
  row : DraftRow
  dirty : Bool := true
  storedInDb : Bool := false
  deriving DecidableEq

namespace DraftDao

/-- `DraftDao(session)`, which belongs to no conversation. -/
def new : DraftDao where
  row := { conversationId := 0 }

def ofRow (r : DraftRow) : DraftDao where
  row := r
  dirty := false
  storedInDb := true

/-- `DraftDao::load`. -/
def load (db : Db) (conversationId : IdType) : Option DraftDao :=
  (db.drafts.find? conversationId).map ofRow

def isSendable (r : DraftRow) : Bool := r.state == .sending

/-- `firstSendable`: the query has no order, so SQLite answers in the order of the rowids. -/
def firstSendable (db : Db) : Option DraftDao :=
  (db.drafts.rows.find? isSendable).map ofRow

/-- `assignAndUpdateDirty`. -/
def assign {α : Type} [DecidableEq α] (d : DraftDao) (get : DraftRow → α) (set : DraftRow → α → DraftRow) (v : α) :
    DraftDao :=
  if get d.row = v then d else { d with row := set d.row v, dirty := true }

/-- `setConversationId`, which makes the dao a new row. -/
def setConversationId (d : DraftDao) (v : IdType) : DraftDao :=
  if d.row.conversationId = v then d
  else { row := { d.row with conversationId := v }, dirty := true, storedInDb := false }

def setText (d : DraftDao) (v : String) : DraftDao :=
  d.assign DraftRow.text (fun r v => { r with text := v }) v

def setFooter (d : DraftDao) (v : String) : DraftDao :=
  d.assign DraftRow.footer (fun r v => { r with footer := v }) v

def setSenderName (d : DraftDao) (v : String) : DraftDao :=
  d.assign DraftRow.senderName (fun r v => { r with senderName := v }) v

def setSenderOrganization (d : DraftDao) (v : String) : DraftDao :=
  d.assign DraftRow.senderOrganization (fun r v => { r with senderOrganization := v }) v

def setSenderAvatar (d : DraftDao) (v : Bytes) : DraftDao :=
  d.assign DraftRow.senderAvatar (fun r v => { r with senderAvatar := v }) v

def setSenderAvatarMimeType (d : DraftDao) (v : String) : DraftDao :=
  d.assign DraftRow.senderAvatarMimeType (fun r v => { r with senderAvatarMimeType := v }) v

def setState (d : DraftDao) (v : DraftState) : DraftDao :=
  d.assign DraftRow.state (fun r v => { r with state := v }) v

/-- `clear`; the attachments are deleted separately. -/
def clear (d : DraftDao) : DraftDao :=
  let d := (d.setState .editing).setText ""
  let d := (d.setFooter "").setSenderName ""
  let d := (d.setSenderOrganization "").setSenderAvatar []
  d.setSenderAvatarMimeType ""

/-- `save`: the dao and the database afterwards. -/
def save (d : DraftDao) (db : Db) : Except Exn (DraftDao × Db) :=
  if d.dirty then
    let saved := { d with dirty := false, storedInDb := true }
    if d.storedInDb then .ok (saved, { db with drafts := db.drafts.replace d.row })
    else do
      let drafts ← insertRow db.drafts d.row
      .ok (saved, { db with drafts := drafts })
  else .ok (d, db)

/-! ### What the setters and `clear` do -/

section assign

variable {α : Type} [DecidableEq α] {d : DraftDao} {get : DraftRow → α} {set : DraftRow → α → DraftRow} {v : α}

/-- The row after an assignment, for a column whose own value assigned to it changes nothing. -/
theorem assign_row (h : set d.row (get d.row) = d.row) : (d.assign get set v).row = set d.row v := by
  unfold assign
  split
  · next hv => rw [← hv, h]
  · rfl

theorem assign_dirty : (d.assign get set v).dirty = (d.dirty || decide (get d.row ≠ v)) := by
  unfold assign
  split <;> simp [*]

theorem assign_storedInDb : (d.assign get set v).storedInDb = d.storedInDb := by
  unfold assign
  split <;> rfl

end assign

@[simp] theorem setState_row (d : DraftDao) (v : DraftState) : (d.setState v).row = { d.row with state := v } :=
  assign_row rfl

@[simp] theorem setState_dirty (d : DraftDao) (v : DraftState) :
    (d.setState v).dirty = (d.dirty || decide (d.row.state ≠ v)) := assign_dirty

@[simp] theorem setState_storedInDb (d : DraftDao) (v : DraftState) : (d.setState v).storedInDb = d.storedInDb :=
  assign_storedInDb

@[simp] theorem setText_row (d : DraftDao) (v : String) : (d.setText v).row = { d.row with text := v } :=
  assign_row rfl

@[simp] theorem setFooter_row (d : DraftDao) (v : String) : (d.setFooter v).row = { d.row with footer := v } :=
  assign_row rfl

@[simp] theorem setSenderName_row (d : DraftDao) (v : String) :
    (d.setSenderName v).row = { d.row with senderName := v } := assign_row rfl

@[simp] theorem setSenderOrganization_row (d : DraftDao) (v : String) :
    (d.setSenderOrganization v).row = { d.row with senderOrganization := v } := assign_row rfl

@[simp] theorem setSenderAvatar_row (d : DraftDao) (v : Bytes) :
    (d.setSenderAvatar v).row = { d.row with senderAvatar := v } := assign_row rfl

@[simp] theorem setSenderAvatarMimeType_row (d : DraftDao) (v : String) :
    (d.setSenderAvatarMimeType v).row = { d.row with senderAvatarMimeType := v } := assign_row rfl

/-- The row of a cleared draft keeps only its ids and its timestamp. -/
def clearedRow (r : DraftRow) : DraftRow where
  id := r.id
  conversationId := r.conversationId
  lastModified := r.lastModified

@[simp] theorem clear_row (d : DraftDao) : d.clear.row = clearedRow d.row := by
  simp [clear, clearedRow]

/-- Clearing a draft that is being sent changes its state. -/
theorem clear_flags {d : DraftDao} (h : d.row.state = .sending) :
    d.clear.dirty = true ∧ d.clear.storedInDb = d.storedInDb := by
  unfold clear setText setFooter setSenderName setSenderOrganization setSenderAvatar setSenderAvatarMimeType
  simp only [assign_dirty, assign_storedInDb, setState_dirty, setState_storedInDb, h]
  simp

theorem save_of_stored {d : DraftDao} {db : Db} (hd : d.dirty = true) (hs : d.storedInDb = true) :
    d.save db = .ok ({ d with dirty := false, storedInDb := true }, { db with drafts := db.drafts.replace d.row }) := by
  simp [save, hd, hs]

theorem load_eq_some {db : Db} {conversationId : IdType} {d : DraftDao} :
    load db conversationId = some d ↔ ∃ r, db.drafts.find? conversationId = some r ∧ ofRow r = d := by
  simp [load]

theorem firstSendable_eq_none {db : Db} : firstSendable db = none ↔ ∀ r ∈ db.drafts, r.state ≠ .sending := by
  simp only [firstSendable, Option.map_eq_none_iff, List.find?_eq_none, isSendable, beq_iff_eq,
    Relational.Table.mem_rows, ne_eq]

/-- A sendable draft is a stored row in the state of being sent. -/
theorem of_firstSendable {db : Db} {d : DraftDao} (h : firstSendable db = some d) :
    db.drafts.find? d.row.conversationId = some d.row ∧ d.row.state = .sending ∧ d = ofRow d.row := by
  obtain ⟨r, hr, rfl⟩ := Option.map_eq_some_iff.mp h
  refine ⟨?_, ?_, rfl⟩
  · exact Relational.Table.mem_iff_find?.mp (List.mem_of_find?_eq_some hr)
  · simpa [isSendable, ofRow] using List.find?_some hr

end DraftDao

end KulloClient
