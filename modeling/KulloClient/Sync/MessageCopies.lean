import KulloClient.Sync.DownloadSkips
import KulloClient.Sync.MessageRows

/-!
# The two rows of a message

A message has a current row and, while it is changed locally, a copy of the state that was last synchronized.  Here is
what the operations on messages do to both rows, for a dao that was loaded earlier and for one that is fresh.
-/

namespace KulloClient

open Relational (Table)
open Imperative

/-- The copy of the state of the last sync. -/
def oldRow (db : Db) (id : IdType) : Option MessageRow := db.messages.find? (id, true)

/-- What `save` copies. -/
def MessageRow.asOld (r : MessageRow) : MessageRow := { r with old := true }

/-- The messages after one of them got the rows `current` and `old`. -/
structure Writes (id : IdType) (current old : Option MessageRow) (db db' : Db) : Prop where
  current : ∀ i, currentRow db' i = if id = i then current else currentRow db i
  old : ∀ i, oldRow db' i = if id = i then old else oldRow db i

section Writes

variable {id : IdType} {current current' old old' : Option MessageRow} {db db₁ db' : Db}

theorem Writes.nothing (h : db'.messages = db.messages) (id : IdType) :
    Writes id (currentRow db id) (oldRow db id) db db' := by
  constructor
  · intro i
    unfold currentRow
    rw [h]
    split
    · next hi => rw [hi]
    · rfl
  · intro i
    unfold oldRow
    rw [h]
    split
    · next hi => rw [hi]
    · rfl

theorem Writes.current_self (h : Writes id current old db db') : currentRow db' id = current := by
  rw [h.current, if_pos rfl]

theorem Writes.old_self (h : Writes id current old db db') : oldRow db' id = old := by
  rw [h.old, if_pos rfl]

theorem Writes.current_other (h : Writes id current old db db') {i : IdType} (hi : id ≠ i) :
    currentRow db' i = currentRow db i := by
  rw [h.current, if_neg hi]

theorem Writes.old_other (h : Writes id current old db db') {i : IdType} (hi : id ≠ i) :
    oldRow db' i = oldRow db i := by
  rw [h.old, if_neg hi]

theorem Writes.trans (h : Writes id current old db db₁) (h' : Writes id current' old' db₁ db') :
    Writes id current' old' db db' := by
  constructor
  · intro i
    rw [h'.current, h.current]
    split <;> rfl
  · intro i
    rw [h'.old, h.old]
    split <;> rfl

/-- Only the messages count. -/
theorem Writes.of_messages (h : Writes id current old db₁ db') (hmessages : db₁.messages = db.messages) :
    Writes id current old db db' := by
  constructor
  · intro i
    rw [h.current]
    unfold currentRow
    rw [hmessages]
  · intro i
    rw [h.old]
    unfold oldRow
    rw [hmessages]

theorem Writes.then_messages (h : Writes id current old db db₁) (hmessages : db'.messages = db₁.messages) :
    Writes id current old db db' := by
  have hafter := Writes.nothing hmessages id
  rw [h.current_self, h.old_self] at hafter
  exact h.trans hafter

end Writes

theorem key_of_currentRow {db : Db} {id : IdType} {row : MessageRow} (h : currentRow db id = some row) :
    row.id = id ∧ row.old = false := by
  have hkey : row.key = (id, false) := Table.key_of_find? h
  exact ⟨congrArg Prod.fst hkey, congrArg Prod.snd hkey⟩

theorem key_of_oldRow {db : Db} {id : IdType} {row : MessageRow} (h : oldRow db id = some row) :
    row.id = id ∧ row.old = true := by
  have hkey : row.key = (id, true) := Table.key_of_find? h
  exact ⟨congrArg Prod.fst hkey, congrArg Prod.snd hkey⟩

/-! ### The statements of MessageDao -/

namespace MessageDao

variable {d : MessageDao} {db : Db}

theorem load_current (db : Db) (id : IdType) : load db id false = (currentRow db id).map ofRow := rfl

theorem load_old (db : Db) (id : IdType) : load db id true = (oldRow db id).map ofRow := rfl

/-- The copy is made of the stored row, unless there is one. -/
theorem createOld_writes (db : Db) (id : IdType) :
    ∃ messages, createOld db id = .ok { db with messages := messages } ∧
      Writes id (currentRow db id) ((oldRow db id).or ((currentRow db id).map MessageRow.asOld)) db
        { db with messages := messages } := by
  unfold createOld
  cases hold : db.messages.find? (id, true) with
  | some row =>
    refine ⟨db.messages, rfl, ?_⟩
    have hrow : (oldRow db id).or ((currentRow db id).map MessageRow.asOld) = oldRow db id := by
      unfold oldRow
      rw [hold]
      rfl
    rw [hrow]
    exact .nothing rfl id
  | none =>
    cases hstored : db.messages.find? (id, false) with
    | none =>
      refine ⟨db.messages, rfl, ?_⟩
      have hrow : (oldRow db id).or ((currentRow db id).map MessageRow.asOld) = oldRow db id := by
        unfold oldRow currentRow
        rw [hold, hstored]
        rfl
      rw [hrow]
      exact .nothing rfl id
    | some stored =>
      have hid : stored.id = id := (key_of_currentRow hstored).1
      have hkey : stored.asOld.key = (id, true) := Prod.ext hid rfl
      have hfree : db.messages.find? stored.asOld.key = none := by rw [hkey, hold]
      refine ⟨db.messages.insert _ hfree, ?_, ?_, ?_⟩
      · exact congrArg (fun x : Except Exn (Table MessageRow.key) => x >>= fun messages =>
          (.ok { db with messages := messages } : Except Exn Db)) (insertRow_of_find? hfree)
      · intro i
        unfold currentRow
        rw [Table.find?_insert, hkey, if_neg (by simp)]
        split
        · next hi => rw [hi]
        · rfl
      · intro i
        unfold oldRow currentRow
        rw [Table.find?_insert, hkey, hold, hstored]
        by_cases hi : id = i
        · rw [if_pos (by rw [hi]), if_pos hi]
          rfl
        · rw [if_neg (by simpa using hi), if_neg hi]

/-- The row of a dao in the place of the row with its key. -/
theorem replace_writes (hold : d.row.old = false) (db : Db) :
    Writes d.row.id ((currentRow db d.row.id).map fun _ => d.row) (oldRow db d.row.id) db
      { db with messages := db.messages.replace d.row } := by
  have hkey : d.row.key = (d.row.id, false) := Prod.ext rfl hold
  constructor
  · intro i
    unfold currentRow
    rw [Table.find?_replace, hkey]
    by_cases hi : d.row.id = i
    · rw [if_pos (by rw [hi]), if_pos hi, hi]
    · rw [if_neg (by simpa using hi), if_neg hi]
  · intro i
    unfold oldRow
    rw [Table.find?_replace, hkey, if_neg (by simp)]
    split
    · next hi => rw [hi]
    · rfl

private theorem replace_old_writes (hold : d.row.old = true) (db : Db) :
    Writes d.row.id (currentRow db d.row.id) ((oldRow db d.row.id).map fun _ => d.row) db
      { db with messages := db.messages.replace d.row } := by
  have hkey : d.row.key = (d.row.id, true) := Prod.ext rfl hold
  constructor
  · intro i
    unfold currentRow
    rw [Table.find?_replace, hkey, if_neg (by simp)]
    split
    · next hi => rw [hi]
    · rfl
  · intro i
    unfold oldRow
    rw [Table.find?_replace, hkey]
    by_cases hi : d.row.id = i
    · rw [if_pos (by rw [hi]), if_pos hi, hi]
    · rw [if_neg (by simpa using hi), if_neg hi]

/-- A loaded dao is saved over the row of its message. -/
theorem save_no_writes (hloaded : MessagesSyncer.Loaded d) (db : Db) :
    ∃ messages, d.save .no db = .ok (d.dirty, { d with dirty := false }, { db with messages := messages }) ∧
      Writes d.row.id (if d.dirty then (currentRow db d.row.id).map fun _ => d.row else currentRow db d.row.id)
        (oldRow db d.row.id) db { db with messages := messages } := by
  obtain ⟨row, dirty, storedInDb⟩ := d
  obtain ⟨hstored, hold⟩ := hloaded
  cases hstored
  unfold save
  cases dirty with
  | false => exact ⟨db.messages, rfl, .nothing rfl _⟩
  | true =>
    refine ⟨db.messages.replace row, rfl, ?_⟩
    have hwrites := replace_writes (d := ⟨row, true, true⟩) hold db
    exact hwrites

/-- A loaded dao is saved over the row of its message, of which a copy is kept. -/
theorem save_yes_writes (hloaded : MessagesSyncer.Loaded d) (hdirty : d.dirty = true) (db : Db) :
    ∃ messages, d.save .yes db = .ok (true, { d with dirty := false }, { db with messages := messages }) ∧
      Writes d.row.id ((currentRow db d.row.id).map fun _ => d.row)
        ((oldRow db d.row.id).or ((currentRow db d.row.id).map MessageRow.asOld)) db
        { db with messages := messages } := by
  obtain ⟨row, dirty, storedInDb⟩ := d
  obtain ⟨hstored, hold⟩ := hloaded
  cases hstored
  cases hdirty
  dsimp only at hold ⊢
  obtain ⟨messages, hcopy, hcopied⟩ := createOld_writes db row.id
  refine ⟨messages.replace row, ?_, ?_⟩
  · unfold save
    rw [if_pos rfl]
    dsimp only
    rw [hcopy, ok_bind, if_pos rfl]
  · have hwrites := replace_writes (d := ⟨row, true, true⟩) hold { db with messages := messages }
    rw [hcopied.current_self, hcopied.old_self] at hwrites
    exact hcopied.trans hwrites

/-- A dao that was loaded from a row, which need not be the row that is stored any more. -/
structure Over (d : MessageDao) (loc cur : MessageRow) (db : Db) : Prop where
  loaded : MessagesSyncer.Loaded d
  current : currentRow db d.row.id = some cur
  clean : d.dirty = false → d.row = loc

private theorem over_ofRow {loc cur : MessageRow} {id : IdType} (hid : loc.id = id) (hold : loc.old = false)
    (h : currentRow db id = some cur) : Over (ofRow loc) loc cur db where
  loaded := ⟨rfl, hold⟩
  current := by rw [ofRow_id, hid, h]
  clean _ := rfl

theorem Over.stays {d' : MessageDao} {loc cur : MessageRow} (h : Over d loc cur db) (hstays : Stays d d') :
    Over d' loc cur db where
  loaded := h.loaded.stays hstays
  current := by rw [hstays.id, h.current]
  clean hclean := by
    have hsame := hstays.clean hclean
    rw [hsame] at hclean ⊢
    exact h.clean hclean

/-- What is stored after a row was saved: that row, or, if it is as it was loaded, what is stored already. -/
def Saved (row loc cur written : MessageRow) : Prop := written = row ∨ row = loc ∧ written = cur

theorem Saved.eq_of_fresh {row cur written : MessageRow} (h : Saved row cur cur written) : written = row := by
  rcases h with hrow | ⟨hsame, hcur⟩
  · exact hrow
  · rw [hcur, hsame]

private theorem Over.save_writes {loc cur : MessageRow} (h : Over d loc cur db) :
    ∃ messages written, d.save .no db = .ok (d.dirty, { d with dirty := false }, { db with messages := messages }) ∧
      Saved d.row loc cur written ∧
      Writes d.row.id (some written) (oldRow db d.row.id) db { db with messages := messages } := by
  obtain ⟨messages, hsave, hwrites⟩ := save_no_writes h.loaded db
  rw [h.current] at hwrites
  cases hdirty : d.dirty with
  | false =>
    rw [hdirty] at hsave hwrites
    exact ⟨messages, cur, hsave, .inr ⟨h.clean hdirty, rfl⟩, hwrites⟩
  | true =>
    rw [hdirty] at hsave hwrites
    exact ⟨messages, d.row, hsave, .inl rfl, hwrites⟩

private theorem dropOld_writes (hold : d.row.old = false) (db : Db) :
    ∃ messages, d.dropOld db = .ok { db with messages := messages } ∧
      Writes d.row.id (currentRow db d.row.id) none db { db with messages := messages } := by
  refine ⟨db.messages.deleteWhere (fun r => r.key == (d.row.id, true)), ?_, ?_, ?_⟩
  · unfold dropOld
    rw [hold]
    rfl
  · intro i
    unfold currentRow
    rw [Table.find?_deleteWhere]
    have hkept : (db.messages.find? (i, false)).filter (fun r => !(r.key == (d.row.id, true))) =
        db.messages.find? (i, false) := by
      cases hfind : db.messages.find? (i, false) with
      | none => rfl
      | some r =>
        have hkey : r.key = (i, false) := Table.key_of_find? hfind
        simp [hkey]
    rw [hkept]
    split
    · next hi => rw [hi]
    · rfl
  · intro i
    unfold oldRow
    rw [Table.find?_deleteWhere]
    cases hfind : db.messages.find? (i, true) with
    | none => simp
    | some r =>
      have hkey : r.key = (i, true) := Table.key_of_find? hfind
      by_cases hi : d.row.id = i
      · simp [hkey, hi]
      · rw [if_neg hi]
        simp [hkey, Ne.symm hi]

private theorem IsNew.save_writes {saved : MessageDao} {b : Bool} {db' : Db} (h : d.IsNew) (hold : d.row.old = false)
    (hsave : d.save .no db = .ok (b, saved, db')) :
    currentRow db d.row.id = none ∧ saved = { d with dirty := false, storedInDb := true } ∧
      (∃ messages, db' = { db with messages := messages }) ∧
        Writes d.row.id (some d.row) (oldRow db d.row.id) db db' := by
  obtain ⟨hfree, -, hsaved, rfl⟩ := h.save_eq_ok hsave
  have hkey : d.row.key = (d.row.id, false) := Prod.ext rfl hold
  refine ⟨?_, hsaved, ⟨_, rfl⟩, currentRow_insert hkey, ?_⟩
  · rw [hkey] at hfree
    exact hfree
  · intro i
    unfold oldRow
    rw [Table.find?_insert, hkey, if_neg (by simp)]
    split
    · next hi => rw [hi]
    · rfl

end MessageDao

/-! ### The transactions of the syncer -/

/-- What is stored of a message that is deleted. -/
def HttpMessage.tombstone (httpMsg : HttpMessage) : MessageRow where
  id := httpMsg.id
  lastModified := httpMsg.lastModified
  deleted := true

/-- One state after a merge of the current row with a version of the server. -/
def MessageRow.mergedState (cur : MessageRow) (old : Option MessageRow) (remote : MessageRow) (s : MessageState) : Bool :=
  match old with
  | none => remote.state s
  | some old =>
    if cur.deleted then cur.state s
    else if cur.state s ≠ remote.state s ∧ old.state s = cur.state s then remote.state s else cur.state s

/-- The current row after a merge. -/
def MessageRow.merged (cur : MessageRow) (old : Option MessageRow) (remote : MessageRow) : MessageRow where
  __ := cur
  lastModified := remote.lastModified
  read := cur.mergedState old remote .read
  done := cur.mergedState old remote .done

/-- The copy with the columns of a version of the server. -/
def MessageRow.updated (old remote : MessageRow) : MessageRow where
  __ := old
  lastModified := remote.lastModified
  deleted := remote.deleted
  read := remote.read
  done := remote.done

/-- The copy after a merge: it is dropped if the merged row equals it. -/
def MessageRow.mergedOld (cur : MessageRow) (old : Option MessageRow) (remote : MessageRow) : Option MessageRow :=
  old.bind fun old =>
    if (MessageDao.ofRow (cur.merged (some old) remote)).equals (.ofRow old) then none
    else some (old.updated remote)

namespace MessagesSyncer

variable {db db' : Db}

theorem newTombstone_writes {httpMsg : HttpMessage} (h : newTombstone httpMsg db = .ok db') :
    currentRow db httpMsg.id = none ∧ (∃ messages, db' = { db with messages := messages }) ∧
      Writes httpMsg.id (some httpMsg.tombstone) (oldRow db httpMsg.id) db db' := by
  unfold newTombstone at h
  obtain ⟨⟨b, d, db₁⟩, hsave, h⟩ := bind_eq_ok.mp h
  cases h
  generalize htombstone :
    (((MessageDao.new httpMsg.id).setLastModified httpMsg.lastModified).2.setDeleted true).2 = tombstone at hsave
  have hrow : tombstone.row = httpMsg.tombstone := by
    rw [← htombstone, MessageDao.setDeleted_row, MessageDao.setLastModified_row]
    rfl
  have hnew : tombstone.IsNew := by
    rw [← htombstone]
    exact MessageDao.IsNew.assign (MessageDao.IsNew.assign ⟨rfl, rfl⟩)
  obtain ⟨hfree, -, hmessages, hwrites⟩ := hnew.save_writes (by rw [hrow]; rfl) hsave
  rw [hrow] at hfree hwrites
  exact ⟨hfree, hmessages, hwrites⟩

private theorem clear_writes {httpMsg : HttpMessage} {loc cur : MessageRow} (hid : loc.id = httpMsg.id)
    (hold : loc.old = false) (hcur : currentRow db httpMsg.id = some cur) {db₁ : Db}
    (hmessages : db₁.messages = db.messages)
    (h : (do
      let db ← (MessageDao.ofRow loc).dropOld db₁
      let saved ←
        (((MessageDao.ofRow loc).clearData.setLastModified httpMsg.lastModified).2.setDeleted true).2.save .no db
      .ok saved.2.2) = .ok db') :
    ∃ written, MessageDao.Saved httpMsg.tombstone loc cur written ∧ Writes httpMsg.id (some written) none db db' := by
  have hover := MessageDao.over_ofRow hid hold hcur
  obtain ⟨messages, hdrop, hdropped⟩ := (MessageDao.ofRow loc).dropOld_writes hold db₁
  rw [hdrop, ok_bind] at h
  have hstays := ((MessageDao.ofRow loc).clearData_stays.trans
    (MessageDao.setLastModified_stays _ httpMsg.lastModified)).trans (MessageDao.setDeleted_stays _ true)
  have hrow : (((MessageDao.ofRow loc).clearData.setLastModified httpMsg.lastModified).2.setDeleted true).2.row =
      httpMsg.tombstone := by
    rw [MessageDao.setDeleted_row, MessageDao.setLastModified_row]
    unfold MessageDao.clearData HttpMessage.tombstone
    simp [MessageDao.ofRow, MessageRow.withState, hid, hold]
  have hcleared : ((((MessageDao.ofRow loc).clearData.setLastModified httpMsg.lastModified).2.setDeleted true).2).Over
      loc cur { db₁ with messages := messages } := by
    refine MessageDao.Over.stays ⟨hover.loaded, ?_, hover.clean⟩ hstays
    rw [hdropped.current_self]
    unfold currentRow
    rw [hmessages]
    exact hover.current
  obtain ⟨messages', written, hsave, hsaved, hwrites⟩ := hcleared.save_writes
  rw [hsave, ok_bind] at h
  cases h
  rw [hrow] at hsaved hwrites
  have hsame : (MessageDao.ofRow loc).row.id = httpMsg.tombstone.id := hid
  rw [hsame] at hdropped
  rw [hdropped.old_self] at hwrites
  exact ⟨written, hsaved, (hdropped.trans hwrites).of_messages hmessages⟩

/-- A loaded message is cleared, whatever is stored of it by then. -/
theorem clearLoaded_writes {httpMsg : HttpMessage} {loc cur : MessageRow} (hid : loc.id = httpMsg.id)
    (hold : loc.old = false) (hcur : currentRow db httpMsg.id = some cur)
    (h : clearLocal httpMsg (.ofRow loc) db = .ok db') :
    ∃ written, MessageDao.Saved httpMsg.tombstone loc cur written ∧ Writes httpMsg.id (some written) none db db' := by
  unfold clearLocal at h
  obtain ⟨sender, -, h⟩ := bind_eq_ok.mp h
  cases sender with
  | none =>
    dsimp only at h
    refine clear_writes hid hold hcur ?_ h
    rfl
  | some sender =>
    dsimp only at h
    refine clear_writes hid hold hcur ?_ h
    rfl

/-! #### The merge -/

private theorem mergeState_row (old loc remote : MessageDao) (s : MessageState) :
    (mergeState old loc remote s).2.row = loc.row.withState s
      (if loc.row.state s ≠ remote.row.state s ∧ old.row.state s = loc.row.state s then remote.row.state s
        else loc.row.state s) := by
  unfold mergeState
  split
  · rw [MessageDao.setState_row]
  · rw [MessageDao.withState_self]

private theorem mergedState_of_deleted {cur old remote : MessageRow} (h : cur.deleted = true) (s : MessageState) :
    cur.mergedState (some old) remote s = cur.state s := by
  unfold MessageRow.mergedState
  exact if_pos h

theorem mergedState_of_not_deleted {cur old remote : MessageRow} (h : ¬ cur.deleted = true) (s : MessageState) :
    cur.mergedState (some old) remote s =
      if cur.state s ≠ remote.state s ∧ old.state s = cur.state s then remote.state s else cur.state s := by
  unfold MessageRow.mergedState
  exact if_neg h

/-- The states are merged one by one. -/
theorem mergeStates_row (cur old : MessageRow) (remote : MessageDao) :
    (mergeStates (.ofRow old) ((MessageDao.ofRow cur).setLastModified remote.row.lastModified).2 remote).2.row =
      cur.merged (some old) remote.row := by
  unfold mergeStates MessageRow.merged
  rw [MessageDao.setLastModified_row]
  by_cases hdeleted : cur.deleted = true
  · have hdeleted' : (MessageDao.ofRow cur).row.deleted = true := hdeleted
    rw [if_pos hdeleted', mergedState_of_deleted hdeleted, mergedState_of_deleted hdeleted,
      MessageDao.setLastModified_row]
    rfl
  · have hdeleted' : ¬ (MessageDao.ofRow cur).row.deleted = true := hdeleted
    rw [if_neg hdeleted', mergedState_of_not_deleted hdeleted, mergedState_of_not_deleted hdeleted]
    dsimp only
    rw [mergeState_row, mergeState_row, MessageDao.setLastModified_row]
    rfl

/-- The copy with the state of the server. -/
private theorem updateOld_writes {id : IdType} {old : MessageRow} (hold : oldRow db id = some old) (remote : MessageDao) :
    ∃ (saved : Bool × MessageDao) (messages : _),
      (((((MessageDao.ofRow old).setLastModified remote.row.lastModified).2.setDeleted remote.row.deleted).2.setState .read
        (remote.row.state .read)).2.setState .done (remote.row.state .done)).2.save .no db =
          .ok (saved.1, saved.2, { db with messages := messages }) ∧
        Writes id (currentRow db id) (some (old.updated remote.row)) db { db with messages := messages } := by
  obtain ⟨hid, hflag⟩ := key_of_oldRow hold
  have hstays := (((MessageDao.ofRow old).setLastModified_stays remote.row.lastModified).trans
    (MessageDao.setDeleted_stays _ remote.row.deleted)).trans
      ((MessageDao.setState_stays _ .read (remote.row.state .read)).trans
        (MessageDao.setState_stays _ .done (remote.row.state .done)))
  have hrow : ((((((MessageDao.ofRow old).setLastModified remote.row.lastModified).2.setDeleted
      remote.row.deleted).2.setState .read (remote.row.state .read)).2.setState .done
        (remote.row.state .done)).2).row = old.updated remote.row := by
    rw [MessageDao.setState_row, MessageDao.setState_row, MessageDao.setDeleted_row, MessageDao.setLastModified_row]
    rfl
  revert hstays hrow
  generalize (((((MessageDao.ofRow old).setLastModified remote.row.lastModified).2.setDeleted
    remote.row.deleted).2.setState .read (remote.row.state .read)).2.setState .done (remote.row.state .done)).2 = d
  intro hstays hrow
  unfold MessageDao.save
  cases hdirty : d.dirty with
  | false =>
    have hsame : d.row = old := by
      rw [hstays.clean hdirty]
      rfl
    refine ⟨(false, d), db.messages, rfl, ?_⟩
    rw [← hrow, hsame, ← hold]
    exact .nothing rfl id
  | true =>
    refine ⟨(true, { d with dirty := false, storedInDb := true }), db.messages.replace d.row, ?_, ?_⟩
    · rw [if_pos rfl]
      dsimp only
      have hstored : d.storedInDb = true := hstays.storedInDb
      rw [ok_bind, if_pos hstored]
    · have hflag' : d.row.old = true := hstays.old.trans hflag
      have hid' : d.row.id = id := hstays.id.trans hid
      have hwrites := MessageDao.replace_old_writes hflag' db
      rw [hid', hold, Option.map_some, hrow] at hwrites
      rw [hrow]
      exact hwrites

/-- What a merge with the loaded row leaves, whatever is stored by then. -/
theorem mergeLoaded_writes {remote : MessageDao} {loc cur : MessageRow} (hid : loc.id = remote.row.id)
    (hold : loc.old = false) (hcur : currentRow db remote.row.id = some cur) :
    ∃ merged messages written, merge remote (.ofRow loc) db = .ok (merged, { db with messages := messages }) ∧
      MessageDao.Saved (loc.merged (oldRow db remote.row.id) remote.row) loc cur written ∧
      Writes remote.row.id (some written) (loc.mergedOld (oldRow db remote.row.id) remote.row) db
        { db with messages := messages } := by
  have hover := MessageDao.over_ofRow hid hold hcur
  have hmodified := setLastModified_merges (.ofRow loc) remote.row.lastModified
  unfold merge
  rw [MessageDao.load_old]
  dsimp only
  cases hload : oldRow db remote.row.id with
  | none =>
    -- without a copy nothing was changed here
    have hmerges := (hmodified.trans (setState_merges _ .read (remote.row.state .read))).trans
      (setState_merges _ .done (remote.row.state .done))
    have hrow : (((((MessageDao.ofRow loc).setLastModified remote.row.lastModified).2.setState .read
        (remote.row.state .read)).2.setState .done (remote.row.state .done)).2).row = loc.merged none remote.row := by
      rw [MessageDao.setState_row, MessageDao.setState_row, MessageDao.setLastModified_row]
      rfl
    obtain ⟨messages, written, hsave, hsaved, hwrites⟩ := (hover.stays hmerges.toStays).save_writes
    rw [Option.map_none]
    dsimp only
    rw [ok_bind]
    dsimp only
    rw [hsave, ok_bind]
    rw [hrow] at hsaved hwrites
    rw [show (loc.merged none remote.row).id = remote.row.id from hid, hload] at hwrites
    exact ⟨_, messages, written, rfl, hsaved, hwrites⟩
  | some old =>
    have hmerges := hmodified.trans (mergeStates_merges (.ofRow old) _ remote)
    have hrow := mergeStates_row loc old remote
    have hmerged := hover.stays hmerges.toStays
    rw [Option.map_some]
    dsimp only
    revert hmerges hrow hmerged
    generalize mergeStates (.ofRow old) ((MessageDao.ofRow loc).setLastModified remote.row.lastModified).2 remote = m
    obtain ⟨stateModified, d⟩ := m
    intro hmerges hrow hmerged
    dsimp only at hmerges hrow hmerged ⊢
    have hdId : d.row.id = remote.row.id := hmerges.id.trans hid
    have hequals : d.equals (.ofRow old) =
        (MessageDao.ofRow (loc.merged (some old) remote.row)).equals (.ofRow old) := by
      rw [← hrow]
      rfl
    have hmergedOld : loc.mergedOld (some old) remote.row = if d.equals (.ofRow old) then none else
        some (old.updated remote.row) := by
      rw [hequals]
      rfl
    rw [hmergedOld]
    by_cases hsame : d.equals (.ofRow old) = true
    · -- without a difference the copy is dropped
      obtain ⟨messages, hdrop, hdropped⟩ := d.dropOld_writes hmerged.loaded.old db
      rw [if_pos hsame, if_pos hsame, hdrop, ok_bind, ok_bind]
      dsimp only
      have hmerged' : d.Over loc cur { db with messages := messages } :=
        ⟨hmerged.loaded, by rw [hdropped.current_self, hmerged.current], hmerged.clean⟩
      obtain ⟨messages', written, hsave, hsaved, hwrites⟩ := hmerged'.save_writes
      rw [hsave, ok_bind]
      rw [hrow] at hsaved
      rw [hdropped.old_self] at hwrites
      have hboth := hdropped.trans hwrites
      rw [hdId] at hboth
      exact ⟨_, messages', written, rfl, hsaved, hboth⟩
    · obtain ⟨saved, messages, hupdate, hupdated⟩ := updateOld_writes hload remote
      rw [if_neg hsame, if_neg hsame, hupdate, ok_bind]
      dsimp only
      rw [ok_bind]
      dsimp only
      have hmerged' : d.Over loc cur { db with messages := messages } := by
        refine ⟨hmerged.loaded, ?_, hmerged.clean⟩
        rw [hdId, hupdated.current_self, hcur]
      obtain ⟨messages', written, hsave, hsaved, hwrites⟩ := hmerged'.save_writes
      rw [hsave, ok_bind]
      rw [hrow] at hsaved
      rw [hdId, hupdated.old_self] at hwrites
      exact ⟨_, messages', written, rfl, hsaved, hupdated.trans hwrites⟩

/-- A version that was uploaded is the last one that was synchronized. -/
theorem applyModification_writes {idlm : IdLastModified} {msg : MessageRow}
    (h : applyModification idlm db = .ok (msg, db')) :
    ∃ cur messages, currentRow db idlm.id = some cur ∧ msg = { cur with lastModified := idlm.lastModified } ∧
      db' = { db with messages := messages } ∧ Writes idlm.id (some msg) none db db' := by
  unfold applyModification at h
  rw [MessageDao.load_current] at h
  cases hcur : currentRow db idlm.id with
  | none =>
    rw [hcur] at h
    cases h
  | some cur =>
    rw [hcur, Option.map_some] at h
    dsimp only at h
    obtain ⟨hcurId, hold⟩ := key_of_currentRow hcur
    have hover := (MessageDao.over_ofRow hcurId hold hcur).stays
      ((MessageDao.ofRow cur).setLastModified_stays idlm.lastModified)
    have hrow := (MessageDao.ofRow cur).setLastModified_row idlm.lastModified
    have hid : ((MessageDao.ofRow cur).setLastModified idlm.lastModified).2.row.id = idlm.id := by
      rw [hrow]
      exact hcurId
    obtain ⟨messages, written, hsave, hsaved, hwrites⟩ := hover.save_writes
    rw [hsaved.eq_of_fresh] at hwrites
    rw [hsave, ok_bind] at h
    dsimp only at h
    obtain ⟨messages', hdrop, hdropped⟩ := MessageDao.dropOld_writes
      (d := { ((MessageDao.ofRow cur).setLastModified idlm.lastModified).2 with dirty := false }) hover.loaded.old
      { db with messages := messages }
    rw [hdrop, ok_bind] at h
    cases h
    refine ⟨cur, messages', rfl, hrow, rfl, ?_⟩
    dsimp only at hdropped
    rw [hid] at hwrites hdropped
    rw [hwrites.current_self] at hdropped
    exact hwrites.trans hdropped

/-! #### New messages -/

variable {P : Platform}

theorem addMessage_writes {decoder : Decoder} {conv : ConversationDao} {message : MessageDao} {added : Added}
    (hnew : decoder.message.IsNew) (hold : decoder.message.row.old = false)
    (h : addMessage P decoder conv db = .ok (added, message, db')) :
    currentRow db decoder.message.row.id = none ∧ Loaded message ∧ message.row = added.msg ∧
      added.msg = { decoder.message.row with conversationId := added.convId } ∧
      Writes decoder.message.row.id (some added.msg) (oldRow db decoder.message.row.id) db db' := by
  unfold addMessage at h
  obtain ⟨⟨isNew, conv', db₁⟩, hconv, h⟩ := bind_eq_ok.mp h
  dsimp only at h
  obtain ⟨db₂, hsender, h⟩ := bind_eq_ok.mp h
  obtain ⟨⟨b, saved, db₃⟩, hsave, h⟩ := bind_eq_ok.mp h
  obtain ⟨db₄, hattachments, h⟩ := bind_eq_ok.mp h
  cases h
  have hrow := decoder.message.setConversationId_row conv'.id
  have hassigned : (decoder.message.setConversationId conv'.id).2.IsNew := hnew.assign
  have hflag : (decoder.message.setConversationId conv'.id).2.row.old = false := by
    rw [hrow]
    exact hold
  obtain ⟨hfree, hsaved, -, hwrites⟩ := hassigned.save_writes hflag hsave
  have hmessages : db₂.messages = db.messages := by
    rw [(SenderDao.save_sameRows hsender).messages]
    exact (conversation_save_eq_ok hconv).1
  have hafter := (foldlM_sameRows (fun _ _ _ => AttachmentDao.save_sameRows) hattachments).1.messages
  have hid : (decoder.message.setConversationId conv'.id).2.row.id = decoder.message.row.id := by rw [hrow]
  have hsavedRow : saved.row = { decoder.message.row with conversationId := conv'.id } := by rw [hsaved, hrow]
  have hold₂ : oldRow db₂ decoder.message.row.id = oldRow db decoder.message.row.id := by
    unfold oldRow
    rw [hmessages]
  rw [hid] at hfree hwrites
  rw [hold₂] at hwrites
  refine ⟨?_, ?_, rfl, hsavedRow, ?_⟩
  · unfold currentRow at hfree ⊢
    rw [← hmessages]
    exact hfree
  · rw [hsaved]
    exact ⟨rfl, hflag⟩
  · rw [hsavedRow, ← hrow]
    exact (hwrites.of_messages hmessages).then_messages hafter

/-- A message in an old meta format is upgraded, and a copy of what the server has is kept. -/
theorem addNewMessage_writes {decoder : Decoder} {added : Added} (hnew : decoder.message.IsNew)
    (hold : decoder.message.row.old = false) (h : addNewMessage P decoder db = .ok (added, db')) :
    currentRow db decoder.message.row.id = none ∧ ∃ row : MessageRow,
      row = { decoder.message.row with conversationId := added.convId } ∧
      Writes decoder.message.row.id (some { row with metaVersion := max latestMetaVersion row.metaVersion })
        ((oldRow db decoder.message.row.id).or (if row.metaVersion < latestMetaVersion then some row.asOld else none))
        db db' := by
  unfold addNewMessage at h
  obtain ⟨⟨added', remote, db₁⟩, hadd, h⟩ := bind_eq_ok.mp h
  obtain ⟨hfree, hloaded, hremote, hrow, hwrites⟩ := addMessage_writes hnew hold hadd
  have hversion : added'.msg.metaVersion = decoder.message.row.metaVersion := by rw [hrow]
  dsimp only at h
  rw [hremote] at h
  refine ⟨hfree, ?_⟩
  split at h
  · next hlt =>
    obtain ⟨⟨b, saved, db₂⟩, hsave, h⟩ := bind_eq_ok.mp h
    cases h
    have hupgraded := remote.setMetaVersion_row latestMetaVersion
    have hdirty : (remote.setMetaVersion latestMetaVersion).2.dirty = true := by
      unfold MessageDao.setMetaVersion
      rw [MessageDao.assign_dirty, hremote, decide_eq_true (Nat.ne_of_lt hlt), Bool.or_true]
    have hid : (remote.setMetaVersion latestMetaVersion).2.row.id = decoder.message.row.id := by
      rw [hupgraded, hremote, hrow]
    obtain ⟨messages, hsave', hsaved⟩ := MessageDao.save_yes_writes
      (hloaded.stays (setMetaVersion_merges remote latestMetaVersion).toStays) hdirty db₁
    rw [hsave'] at hsave
    cases hsave
    rw [hid, hwrites.current_self, hwrites.old_self, hupgraded, hremote] at hsaved
    refine ⟨added'.msg, ?_, ?_⟩
    · rw [hrow]
    · rw [if_pos hlt, max_eq_left (Nat.le_of_lt hlt)]
      exact hwrites.trans hsaved
  · next hlt =>
    cases h
    refine ⟨added.msg, ?_, ?_⟩
    · rw [hrow]
    · rw [if_neg hlt, max_eq_right (Nat.le_of_not_lt hlt), Option.or_none]
      exact hwrites

end MessagesSyncer

end KulloClient
