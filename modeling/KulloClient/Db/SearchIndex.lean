import KulloClient.Base.FullText
import KulloClient.Dao.Message

/-!
# The search index

The table `messages_fts`, a full-text index of the messages that are neither deleted nor an `old` row, and the triggers
of `migrateTo10` that keep it up to date.  The columns of a record may be NULL as far as the schema goes; what
`MessageDao` writes is not.
-/

namespace KulloClient

open FullText (Command Replaces Indexes applyAll)
open Relational (Table)

/-- A row of `messages`, as SQLite stores it. -/
structure MessageRecord where
  id : IdType
  conversationId : IdType
  sender : Option String
  lastModified : LastModified
  deleted : Bool
  metaVersion : MetaVersion
  read : Bool
  done : Bool
  sent : Option String
  received : Option String
  text : Option String
  footer : Option String
  symmetricKey : Option Bytes
  old : Bool
  deriving DecidableEq

namespace MessageRecord

def key (r : MessageRecord) : IdType × Bool := (r.id, r.old)

/-- The values `MessageDao` binds. -/
def ofRow (r : MessageRow) : MessageRecord where
  id := r.id
  conversationId := r.conversationId
  sender := some r.sender
  lastModified := r.lastModified
  deleted := r.deleted
  metaVersion := r.metaVersion
  read := r.read
  done := r.done
  sent := some r.dateSent
  received := some r.dateReceived
  text := some r.text
  footer := some r.footer
  symmetricKey := if r.symmetricKey.isEmpty then none else some r.symmetricKey
  old := r.old

/-- A row of `messages_searchable`. -/
def searchable (r : MessageRecord) : Bool := !r.old && !r.deleted

/-- No searchable column is NULL. -/
def complete (r : MessageRecord) : Bool :=
  r.sender.isSome && r.sent.isSome && r.received.isSome && r.text.isSome && r.footer.isSome

end MessageRecord

/-- The values of an entry of `messages_fts`. -/
structure SearchEntry where
  rowid : IdType
  conversationId : IdType
  sender : Option String
  sent : Option String
  received : Option String
  text : Option String
  footer : Option String
  deriving DecidableEq

namespace SearchIndex

/-- The columns of a row that are indexed. -/
def entry (r : MessageRecord) : SearchEntry := ⟨r.id, r.conversationId, r.sender, r.sent, r.received, r.text, r.footer⟩

def searchEntry (r : MessageRecord) : Option SearchEntry := if r.searchable then some (entry r) else none

/-! ### The triggers -/

/-- `a != b`, which is NULL if one of the two is. -/
def sqlNe {α : Type} [DecidableEq α] : Option α → Option α → Option Bool
  | some a, some b => some (decide (a ≠ b))
  | _, _ => none

/-- `a OR b`. -/
def sqlOr : Option Bool → Option Bool → Option Bool
  | some true, _ => some true
  | _, some true => some true
  | some false, some false => some false
  | _, _ => none

def insertSearchable (new : MessageRecord) : List (Command SearchEntry) :=
  if new.searchable then [.insert (entry new)] else []

def promoteToSearchable (old new : MessageRecord) : List (Command SearchEntry) :=
  if (old.old || old.deleted) && new.searchable then [.insert (entry new)] else []

def deleteSearchable (old : MessageRecord) : List (Command SearchEntry) :=
  if old.searchable then [.delete (entry old)] else []

def demoteFromSearchable (old new : MessageRecord) : List (Command SearchEntry) :=
  if old.searchable && (new.old || new.deleted) then [.delete (entry old)] else []

/-- Whether a searchable column was changed. -/
def columnsChanged (old new : MessageRecord) : Option Bool :=
  sqlOr (sqlOr (sqlOr (sqlOr (sqlOr (sqlNe (some old.conversationId) (some new.conversationId))
    (sqlNe old.sender new.sender)) (sqlNe old.sent new.sent)) (sqlNe old.received new.received))
    (sqlNe old.text new.text)) (sqlNe old.footer new.footer)

def updateSearchable (old new : MessageRecord) : List (Command SearchEntry) :=
  if old.searchable && new.searchable && columnsChanged old new = some true then
    [.delete (entry old), .insert (entry new)]
  else []

def afterInsert (new : MessageRecord) : List (Command SearchEntry) := insertSearchable new

def afterUpdate (old new : MessageRecord) : List (Command SearchEntry) :=
  promoteToSearchable old new ++ demoteFromSearchable old new ++ updateSearchable old new

def afterDelete (old : MessageRecord) : List (Command SearchEntry) := deleteSearchable old

/-! ### The statements -/

structure State where
  messages : Table MessageRecord.key
  messagesFts : List SearchEntry

/-- The statements of `MessageDao` that write `messages`. -/
inductive Statement
  | insert (row : MessageRow)
  /-- `INSERT INTO messages SELECT ..., 1 FROM messages WHERE id = :id`. -/
  | copyToOld (id : IdType)
  | update (row : MessageRow)
  /-- `DELETE FROM messages WHERE id = :id AND old = 1`. -/
  | dropOld (id : IdType)

/-- A row is inserted, unless its key is taken: then the statement raises, and nothing is changed. -/
def insertRecord (r : MessageRecord) (s : State) : Option State :=
  match s.messages.insert? r with
  | none => some s
  | some messages => (applyAll s.messagesFts (afterInsert r)).map fun messagesFts => ⟨messages, messagesFts⟩

/-- A statement, with its triggers; there is no next state when the index is corrupted. -/
def exec (s : State) : Statement → Option State
  | .insert row => insertRecord (.ofRow row) s
  | .copyToOld id =>
    match s.messages.find? (id, true), s.messages.find? (id, false) with
    | none, some stored => insertRecord { stored with old := true } s
    -- the copy of an `old` row would be a second one
    | _, _ => some s
  | .update row =>
    match s.messages.find? row.key with
    | none => some s
    | some stored =>
      (applyAll s.messagesFts (afterUpdate stored (.ofRow row))).map fun messagesFts =>
        ⟨s.messages.replace (.ofRow row), messagesFts⟩
  | .dropOld id =>
    match s.messages.find? (id, true) with
    | none => some s
    | some stored =>
      (applyAll s.messagesFts (afterDelete stored)).map fun messagesFts =>
        ⟨s.messages.deleteWhere fun r => r.key == (id, true), messagesFts⟩

def execAll (s : State) (statements : List Statement) : Option State := statements.foldlM exec s

/-- `migrateTo10`. -/
def migrateTo10 (messages : Table MessageRecord.key) : State := ⟨messages, messages.rows.filterMap searchEntry⟩

/-- The index has one entry for each searchable row, with its current columns, and no other entry. -/
def Indexed (s : State) : Prop := Indexes searchEntry s.messages.rows s.messagesFts

/-- No searchable row has a NULL in a searchable column. -/
def Complete (messages : Table MessageRecord.key) : Prop := ∀ r ∈ messages, r.searchable = true → r.complete = true

/-! ### The triggers follow a row -/

private theorem replaces_afterInsert (r : MessageRecord) : Replaces (afterInsert r) none (searchEntry r) := by
  unfold afterInsert insertSearchable searchEntry
  by_cases hs : r.searchable = true
  · rw [if_pos hs, if_pos hs]
    exact FullText.replaces_insert _
  · rw [if_neg hs, if_neg hs]
    exact FullText.replaces_nil _

private theorem replaces_afterDelete (r : MessageRecord) : Replaces (afterDelete r) (searchEntry r) none := by
  unfold afterDelete deleteSearchable searchEntry
  by_cases hs : r.searchable = true
  · rw [if_pos hs, if_pos hs]
    exact FullText.replaces_delete _
  · rw [if_neg hs, if_neg hs]
    exact FullText.replaces_nil _

private theorem not_searchable {r : MessageRecord} : (r.old || r.deleted) = !r.searchable := by
  unfold MessageRecord.searchable
  cases r.old <;> cases r.deleted <;> rfl

private theorem sqlNe_some {α : Type} [DecidableEq α] {a b : Option α} (ha : a.isSome) (hb : b.isSome) :
    sqlNe a b = some (decide (a ≠ b)) := by
  obtain ⟨x, rfl⟩ := Option.isSome_iff_exists.mp ha
  obtain ⟨y, rfl⟩ := Option.isSome_iff_exists.mp hb
  simp [sqlNe]

private theorem sqlOr_some (a b : Bool) : sqlOr (some a) (some b) = some (a || b) := by
  cases a <;> cases b <;> rfl

/-- Without a NULL, the update trigger fires if and only if the entry changes. -/
theorem columnsChanged_iff {old new : MessageRecord} (hid : old.id = new.id) (hold : old.complete = true)
    (hnew : new.complete = true) : columnsChanged old new = some true ↔ entry old ≠ entry new := by
  unfold MessageRecord.complete at hold hnew
  simp only [Bool.and_eq_true] at hold hnew
  obtain ⟨⟨⟨⟨hsender, hsent⟩, hreceived⟩, htext⟩, hfooter⟩ := hold
  obtain ⟨⟨⟨⟨hsender', hsent'⟩, hreceived'⟩, htext'⟩, hfooter'⟩ := hnew
  unfold columnsChanged
  rw [sqlNe_some rfl rfl, sqlNe_some hsender hsender', sqlNe_some hsent hsent', sqlNe_some hreceived hreceived',
    sqlNe_some htext htext', sqlNe_some hfooter hfooter']
  simp only [sqlOr_some, Option.some.injEq, Bool.or_eq_true, decide_eq_true_eq, ne_eq]
  unfold entry
  rw [SearchEntry.mk.injEq]
  constructor
  · rintro (((((h | h) | h) | h) | h) | h) ⟨-, hconv, h₁, h₂, h₃, h₄, h₅⟩
    · exact h hconv
    · exact h h₁
    · exact h h₂
    · exact h h₃
    · exact h h₄
    · exact h h₅
  · intro h
    by_contra hall
    push Not at hall
    obtain ⟨⟨⟨⟨⟨hconv, h₁⟩, h₂⟩, h₃⟩, h₄⟩, h₅⟩ := hall
    exact h ⟨hid, hconv, h₁, h₂, h₃, h₄, h₅⟩

private theorem replaces_afterUpdate {old new : MessageRecord} (hid : old.id = new.id)
    (hold : old.searchable = true → old.complete = true) (hnew : new.complete = true) :
    Replaces (afterUpdate old new) (searchEntry old) (searchEntry new) := by
  unfold afterUpdate promoteToSearchable demoteFromSearchable updateSearchable searchEntry
  rw [not_searchable, not_searchable]
  cases ho : old.searchable with
  | false =>
    cases hn : new.searchable with
    | false => exact FullText.replaces_nil _
    | true => exact FullText.replaces_insert _
  | true =>
    cases hn : new.searchable with
    | false => exact FullText.replaces_delete _
    | true =>
      have hchanged := columnsChanged_iff hid (hold ho) hnew
      by_cases hsame : entry old = entry new
      · have hquiet : columnsChanged old new ≠ some true := fun h => hchanged.mp h hsame
        simp only [hquiet, hsame]
        exact FullText.replaces_nil _
      · simp only [hchanged.mpr hsame]
        exact (FullText.replaces_delete _).append (FullText.replaces_insert _)

/-! ### Sequences of statements -/

private theorem complete_ofRow (row : MessageRow) : (MessageRecord.ofRow row).complete = true := rfl

/-- The commands for a row that is changed between two others. -/
theorem indexes_follow {before after : List MessageRecord} {row row' : Option MessageRecord}
    {entries : List SearchEntry} {commands : List (Command SearchEntry)}
    (hcommands : Replaces commands (row.bind searchEntry) (row'.bind searchEntry))
    (h : Indexes searchEntry (before ++ (row.toList ++ after)) entries) :
    ∃ entries', applyAll entries commands = some entries' ∧
      Indexes searchEntry (before ++ (row'.toList ++ after)) entries' := by
  rw [← List.append_assoc] at h ⊢
  exact h.change hcommands

/-- A record that is complete, or not searched, is inserted. -/
theorem insertRecord_indexed {s : State} {r : MessageRecord} (hs : Indexed s) (hcomplete : Complete s.messages)
    (hr : r.searchable = true → r.complete = true) :
    ∃ s', insertRecord r s = some s' ∧ Indexed s' ∧ Complete s'.messages := by
  unfold insertRecord
  cases hinsert : s.messages.insert? r with
  | none => exact ⟨s, rfl, hs, hcomplete⟩
  | some messages =>
    obtain ⟨hfree, rfl⟩ := Table.insert?_eq_some.mp hinsert
    have hcommands : Replaces (afterInsert r) ((none : Option MessageRecord).bind searchEntry)
        ((some r).bind searchEntry) := replaces_afterInsert r
    have hs' : Indexes searchEntry (s.messages.rows ++ ((none : Option MessageRecord).toList ++ [])) s.messagesFts := by
      rw [Option.toList_none, List.append_nil, List.append_nil]
      exact hs
    obtain ⟨entries, happly, hindexes⟩ := indexes_follow hcommands hs'
    rw [List.append_nil] at hindexes
    dsimp only
    rw [happly]
    refine ⟨⟨s.messages.insert r hfree, entries⟩, rfl, hindexes, fun r' hr' => ?_⟩
    rcases (Table.mem_of_insert? hinsert).mp hr' with hmem | rfl
    · exact hcomplete r' hmem
    · exact hr

private theorem exec_update {s : State} (hs : Indexed s) (hcomplete : Complete s.messages) (row : MessageRow) :
    ∃ s', exec s (.update row) = some s' ∧ Indexed s' ∧ Complete s'.messages := by
  dsimp only [exec]
  cases hfind : s.messages.find? row.key with
  | none => exact ⟨s, rfl, hs, hcomplete⟩
  | some stored =>
    obtain ⟨before, after, hrows, hreplace, -⟩ := Table.split_of_find? hfind
    obtain ⟨hmem, hkey⟩ := Table.find?_eq_some.mp hfind
    have hid : stored.id = (MessageRecord.ofRow row).id := congrArg Prod.fst hkey
    have hcommands : Replaces (afterUpdate stored (.ofRow row)) ((some stored).bind searchEntry)
        ((some (.ofRow row)).bind searchEntry) :=
      replaces_afterUpdate hid (hcomplete stored hmem) (complete_ofRow row)
    unfold Indexed at hs
    rw [hrows] at hs
    obtain ⟨entries, happly, hindexes⟩ := @indexes_follow before _ _ _ _ _ hcommands hs
    dsimp only
    rw [happly]
    refine ⟨_, rfl, ?_, fun r' hr' => ?_⟩
    · unfold Indexed
      dsimp only
      rw [hreplace (.ofRow row) rfl]
      exact hindexes
    · have hr'' : r' ∈ (s.messages.replace (.ofRow row)).rows := hr'
      rw [hreplace (.ofRow row) rfl] at hr''
      rcases List.mem_append.mp hr'' with hbefore | hrest
      · exact hcomplete r' (Table.mem_rows.mp (hrows ▸ List.mem_append_left _ hbefore))
      · rcases List.mem_cons.mp hrest with rfl | hafter
        · exact fun _ => complete_ofRow row
        · exact hcomplete r' (Table.mem_rows.mp (hrows ▸ List.mem_append_right _ (List.mem_cons_of_mem _ hafter)))

private theorem exec_dropOld {s : State} (hs : Indexed s) (hcomplete : Complete s.messages) (id : IdType) :
    ∃ s', exec s (.dropOld id) = some s' ∧ Indexed s' ∧ Complete s'.messages := by
  dsimp only [exec]
  cases hfind : s.messages.find? (id, true) with
  | none => exact ⟨s, rfl, hs, hcomplete⟩
  | some stored =>
    obtain ⟨before, after, hrows, -, hdelete⟩ := Table.split_of_find? hfind
    have hcommands : Replaces (afterDelete stored) ((some stored).bind searchEntry)
        ((none : Option MessageRecord).bind searchEntry) := replaces_afterDelete stored
    unfold Indexed at hs
    rw [hrows] at hs
    obtain ⟨entries, happly, hindexes⟩ := @indexes_follow before _ _ _ _ _ hcommands hs
    dsimp only
    rw [happly]
    refine ⟨_, rfl, ?_, fun r' hr' => hcomplete r' (Table.mem_deleteWhere.mp hr').1⟩
    unfold Indexed
    dsimp only
    rw [hdelete _ fun r' => beq_iff_eq]
    exact hindexes

private theorem exec_indexed {s : State} (hs : Indexed s) (hcomplete : Complete s.messages) (statement : Statement) :
    ∃ s', exec s statement = some s' ∧ Indexed s' ∧ Complete s'.messages := by
  cases statement with
  | insert row => exact insertRecord_indexed hs hcomplete fun _ => complete_ofRow row
  | copyToOld id =>
    dsimp only [exec]
    cases s.messages.find? (id, true) with
    | some old => exact ⟨s, rfl, hs, hcomplete⟩
    | none =>
      cases s.messages.find? (id, false) with
      | none => exact ⟨s, rfl, hs, hcomplete⟩
      | some stored => exact insertRecord_indexed hs hcomplete fun hsearchable => by cases hsearchable
  | update row => exact exec_update hs hcomplete row
  | dropOld id => exact exec_dropOld hs hcomplete id

private theorem execAll_indexed {s : State} (hs : Indexed s) (hcomplete : Complete s.messages) (statements : List Statement) :
    ∃ s', execAll s statements = some s' ∧ Indexed s' := by
  induction statements generalizing s with
  | nil => exact ⟨s, rfl, hs⟩
  | cons statement statements ih =>
    obtain ⟨s₁, hexec, hs₁, hcomplete₁⟩ := exec_indexed hs hcomplete statement
    obtain ⟨s', hrest, hs'⟩ := ih hs₁ hcomplete₁
    refine ⟨s', ?_, hs'⟩
    unfold execAll at *
    rw [List.foldlM_cons, hexec]
    exact hrest

/-- From any table without a NULL in a searchable row, after every sequence of statements the index has one entry for
each searchable row and no other, and no entry was deleted with other values than were indexed. -/
theorem messagesFts_indexed (messages : Table MessageRecord.key) (hcomplete : Complete messages)
    (statements : List Statement) : ∃ s, execAll (migrateTo10 messages) statements = some s ∧ Indexed s :=
  execAll_indexed (s := migrateTo10 messages) (List.Perm.refl _) hcomplete statements

/-- A message with a text. -/
def helloRow : MessageRow := { id := 7, conversationId := 1, sender := "bob#kullo.test", text := "hello" }

def helloTable : Table MessageRecord.key := ⟨[.ofRow helloRow], by simp⟩

/-- The message becomes a tombstone. -/
theorem messagesFts_indexed_tombstone :
    ∃ s, execAll (migrateTo10 helloTable) [.copyToOld 7, .update { id := 7, deleted := true }, .dropOld 7] = some s ∧
      Indexed s :=
  messagesFts_indexed helloTable (fun r hr _ => by cases List.mem_singleton.mp hr; rfl) _

/-- A row whose text is NULL. -/
def nullTable : Table MessageRecord.key := ⟨[{ MessageRecord.ofRow helloRow with text := none }], by simp⟩

/-- When the text is set the index is not told, and when the message is deleted the wrong values are. -/
theorem messagesFts_not_indexed_null :
    (∃ s, execAll (migrateTo10 nullTable) [.update helloRow] = some s ∧ ¬ Indexed s) ∧
      execAll (migrateTo10 nullTable) [.update helloRow, .update { helloRow with deleted := true }] = none := by
  refine ⟨⟨_, rfl, fun h => ?_⟩, rfl⟩
  have hmem := h.mem_iff (a := entry (.ofRow helloRow))
  exact absurd hmem (by decide)

/-! ### What `MessageDao` executes -/

/-- The table of records for the rows `MessageDao` wrote. -/
def records (messages : Table MessageRow.key) : Table MessageRecord.key where
  rows := messages.rows.map .ofRow
  nodup := by
    rw [List.map_map]
    exact messages.nodup

/-- The statements of `save`. -/
def saveStatements (d : MessageDao) (createOldIfDoesntExist : CreateOld) (db : Db) : List Statement :=
  if d.dirty then
    (if createOldIfDoesntExist = .yes ∧ db.messages.find? (d.row.id, true) = none then [.copyToOld d.row.id] else []) ++
      [if d.storedInDb then .update d.row else .insert d.row]
  else []

private theorem find?_records (messages : Table MessageRow.key) (k : IdType × Bool) :
    (records messages).find? k = (messages.find? k).map .ofRow := by
  unfold records Table.find?
  rw [List.find?_map]
  rfl

private theorem insert_records {messages messages' : Table MessageRow.key} {r : MessageRow}
    (h : messages.insert? r = some messages') : (records messages).insert? (.ofRow r) = some (records messages') := by
  obtain ⟨hfree, rfl⟩ := Table.insert?_eq_some.mp h
  have hfree' : (records messages).find? (MessageRecord.ofRow r).key = none := by
    rw [find?_records]
    exact congrArg (Option.map MessageRecord.ofRow) hfree
  rw [Table.insert?_of_find? hfree']
  refine congrArg some (Table.ext_rows ?_)
  change messages.rows.map MessageRecord.ofRow ++ [MessageRecord.ofRow r] = (messages.rows ++ [r]).map MessageRecord.ofRow
  rw [List.map_append]
  rfl

private theorem replace_records (messages : Table MessageRow.key) (r : MessageRow) :
    (records messages).replace (.ofRow r) = records (messages.replace r) := by
  refine Table.ext_rows ?_
  change (messages.rows.map MessageRecord.ofRow).map _ = (messages.rows.map _).map MessageRecord.ofRow
  rw [List.map_map, List.map_map]
  refine List.map_congr_left fun r' _ => ?_
  by_cases hkey : r'.key = r.key
  · have hkey' : (MessageRecord.ofRow r').key = (MessageRecord.ofRow r).key := hkey
    simp only [Function.comp_apply, hkey, hkey', if_true]
  · have hkey' : (MessageRecord.ofRow r').key ≠ (MessageRecord.ofRow r).key := hkey
    simp only [Function.comp_apply, hkey, hkey', if_false]

private theorem replace_of_find? {messages : Table MessageRow.key} {r : MessageRow} (h : messages.find? r.key = none) :
    messages.replace r = messages := by
  refine Table.ext_rows ?_
  change messages.rows.map _ = messages.rows
  refine (List.map_congr_left fun r' hr' => ?_).trans (List.map_id _)
  rw [if_neg (Table.find?_eq_none.mp h r' hr'), id]

private theorem messages_of_insertRecord {s s' : State} {r : MessageRecord} {messages : Table MessageRecord.key}
    (h : insertRecord r s = some s') (hinsert : s.messages.insert? r = some messages) : s'.messages = messages := by
  unfold insertRecord at h
  rw [hinsert] at h
  obtain ⟨entries, -, rfl⟩ := Option.map_eq_some_iff.mp h
  rfl

private theorem execAll_append (s : State) (statements statements' : List Statement) :
    execAll s (statements ++ statements') = (execAll s statements).bind fun s' => execAll s' statements' :=
  List.foldlM_append

private theorem execAll_singleton (s : State) (statement : Statement) : execAll s [statement] = exec s statement := by
  unfold execAll
  rw [List.foldlM_cons]
  cases exec s statement <;> rfl

/-- `createOld` is the statement that copies a row. -/
theorem createOld_executes {db db' : Db} {id : IdType} (h : MessageDao.createOld db id = .ok db') {s s' : State}
    (hs : s.messages = records db.messages)
    (hexec : execAll s (if db.messages.find? (id, true) = none then [.copyToOld id] else []) = some s') :
    s'.messages = records db'.messages := by
  unfold MessageDao.createOld at h
  cases hold : db.messages.find? (id, true) with
  | some old =>
    rw [hold] at h hexec
    rw [if_neg (by simp)] at hexec
    cases h
    cases hexec
    exact hs
  | none =>
    rw [hold] at h hexec
    rw [if_pos rfl, execAll_singleton] at hexec
    dsimp only [exec] at hexec
    rw [hs, find?_records, find?_records, hold] at hexec
    cases hstored : db.messages.find? (id, false) with
    | none =>
      rw [hstored] at h hexec
      cases h
      cases hexec
      exact hs
    | some stored =>
      rw [hstored] at h hexec
      obtain ⟨messages, hinsert, hdb⟩ := Imperative.bind_eq_ok.mp h
      cases hdb
      refine messages_of_insertRecord hexec ?_
      rw [hs]
      exact insert_records (insertRow_eq_ok.mp hinsert)

/-- The rest of `save` is an update or an insertion. -/
theorem store_executes {d d' : MessageDao} {db db' : Db} {saved : Bool}
    (h : (if d.storedInDb then
        .ok (true, { d with dirty := false, storedInDb := true }, { db with messages := db.messages.replace d.row })
      else do
        let messages ← insertRow db.messages d.row
        .ok (true, { d with dirty := false, storedInDb := true }, { db with messages := messages })) =
      (.ok (saved, d', db') : Except Exn (Bool × MessageDao × Db))) {s s' : State}
    (hs : s.messages = records db.messages)
    (hexec : exec s (if d.storedInDb then .update d.row else .insert d.row) = some s') :
    s'.messages = records db'.messages := by
  by_cases hstored : d.storedInDb = true
  · rw [if_pos hstored] at h hexec
    cases h
    dsimp only [exec] at hexec
    rw [hs, find?_records] at hexec
    cases hfind : db.messages.find? d.row.key with
    | none =>
      rw [hfind] at hexec
      cases hexec
      dsimp only
      rw [replace_of_find? hfind]
      exact hs
    | some stored =>
      rw [hfind] at hexec
      obtain ⟨entries, -, rfl⟩ := Option.map_eq_some_iff.mp hexec
      exact replace_records db.messages d.row
  · rw [if_neg hstored] at h hexec
    obtain ⟨messages, hinsert, hdb⟩ := Imperative.bind_eq_ok.mp h
    cases hdb
    refine messages_of_insertRecord hexec ?_
    rw [hs]
    exact insert_records (insertRow_eq_ok.mp hinsert)

/-- `save` executes its statements. -/
theorem save_executes {d d' : MessageDao} {createOldIfDoesntExist : CreateOld} {db db' : Db} {saved : Bool}
    (h : d.save createOldIfDoesntExist db = .ok (saved, d', db')) {s s' : State}
    (hs : s.messages = records db.messages)
    (hexec : execAll s (saveStatements d createOldIfDoesntExist db) = some s') :
    s'.messages = records db'.messages := by
  unfold MessageDao.save at h
  unfold saveStatements at hexec
  by_cases hdirty : d.dirty = true
  · rw [if_pos hdirty] at h hexec
    rw [execAll_append] at hexec
    obtain ⟨s₁, hcopy, hlast⟩ := Option.bind_eq_some_iff.mp hexec
    rw [execAll_singleton] at hlast
    cases createOldIfDoesntExist with
    | no =>
      rw [if_neg (by simp)] at hcopy
      cases hcopy
      exact store_executes h hs hlast
    | yes =>
      obtain ⟨db₁, hcreate, hstore⟩ := Imperative.bind_eq_ok.mp h
      have hcopied : s₁.messages = records db₁.messages := createOld_executes hcreate hs (by simpa using hcopy)
      exact store_executes hstore hcopied hlast
  · rw [if_neg hdirty] at h hexec
    cases h
    cases hexec
    exact hs

theorem dropOld_executes {d : MessageDao} {db db' : Db} (h : d.dropOld db = .ok db') {s s' : State}
    (hs : s.messages = records db.messages) (hexec : exec s (.dropOld d.row.id) = some s') :
    s'.messages = records db'.messages := by
  unfold MessageDao.dropOld at h
  obtain ⟨u, -, hdb⟩ := Imperative.bind_eq_ok.mp h
  cases hdb
  have hdelete : (records db.messages).deleteWhere (fun r => r.key == (d.row.id, true)) =
      records (db.messages.deleteWhere fun r => r.key == (d.row.id, true)) := by
    refine Table.ext_rows ?_
    change (db.messages.rows.map MessageRecord.ofRow).filter _ = (db.messages.rows.filter _).map MessageRecord.ofRow
    rw [List.filter_map]
    rfl
  dsimp only [exec] at hexec
  rw [hs, find?_records] at hexec
  cases hfind : db.messages.find? (d.row.id, true) with
  | some stored =>
    rw [hfind] at hexec
    obtain ⟨entries, -, rfl⟩ := Option.map_eq_some_iff.mp hexec
    exact hdelete
  | none =>
    rw [hfind] at hexec
    cases hexec
    rw [hs]
    refine congrArg records (Table.ext_rows (List.filter_eq_self.mpr fun r hr => ?_).symm)
    have hne : r.key ≠ (d.row.id, true) := Table.find?_eq_none.mp hfind r hr
    simp [hne]

end SearchIndex

end KulloClient
