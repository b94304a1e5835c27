import KulloClient.Sync.UploadedMessage

/-!
# What the transactions of a sync write

The current row of a message is the one that is not the copy of the last sync.  Each transaction writes the current row
of one message at most, and no transaction but those that add a message changes more than the messages.
-/

namespace KulloClient

open Relational (Table)
open Imperative

/-- The row of a message that is not `old`. -/
def currentRow (db : Db) (id : IdType) : Option MessageRow := db.messages.find? (id, false)

theorem currentRow_insert {db : Db} {row : MessageRow} {id : IdType} {hfree : db.messages.find? row.key = none}
    (hkey : row.key = (id, false)) (i : IdType) :
    currentRow { db with messages := db.messages.insert row hfree } i = if id = i then some row else currentRow db i := by
  unfold currentRow
  rw [Table.find?_insert, hkey]
  by_cases hi : id = i
  · rw [if_pos (by rw [hi]), if_pos hi]
  · rw [if_neg (by simpa using hi), if_neg hi]

namespace MessageDao

variable {d : MessageDao} {db : Db}

private theorem createOld_spec (db : Db) (id : IdType) :
    ∃ messages, createOld db id = .ok { db with messages := messages } ∧
      ∀ i, messages.find? (i, false) = currentRow db i := by
  unfold createOld
  cases hold : db.messages.find? (id, true) with
  | some _ => exact ⟨db.messages, rfl, fun _ => rfl⟩
  | none =>
    cases hstored : db.messages.find? (id, false) with
    | none => exact ⟨db.messages, rfl, fun _ => rfl⟩
    | some stored =>
      have hkey : ({ stored with old := true } : MessageRow).key = (id, true) := by
        have hkey : stored.key = (id, false) := Table.key_of_find? hstored
        have hid : stored.id = id := congrArg Prod.fst hkey
        exact Prod.ext hid rfl
      have hfree : db.messages.find? ({ stored with old := true } : MessageRow).key = none := by rw [hkey, hold]
      refine ⟨db.messages.insert _ hfree, ?_, ?_⟩
      · simp only [insertRow_of_find? hfree, ok_bind]
      · intro i
        rw [Table.find?_insert, hkey, if_neg (by simp)]
        rfl

/-- Saving a stored dao writes its row over the current one. -/
theorem save_stored (hstored : d.storedInDb = true) (hold : d.row.old = false) (c : CreateOld) (db : Db) :
    ∃ messages, d.save c db = .ok (d.dirty, { d with dirty := false }, { db with messages := messages }) ∧
      ∀ i, messages.find? (i, false) =
        if d.dirty = true ∧ d.row.id = i then (currentRow db i).map (fun _ => d.row) else currentRow db i := by
  obtain ⟨row, dirty, storedInDb⟩ := d
  cases hstored
  dsimp only at hold ⊢
  unfold save
  cases dirty with
  | false =>
    refine ⟨db.messages, rfl, ?_⟩
    intro i
    rw [if_neg (by simp)]
    rfl
  | true =>
    have hreplace : ∀ messages : Table MessageRow.key, (∀ i, messages.find? (i, false) = currentRow db i) →
        ∀ i, (messages.replace row).find? (i, false) =
          if true = true ∧ row.id = i then (currentRow db i).map (fun _ => row) else currentRow db i := by
      intro messages hrows i
      have hkey : row.key = (i, false) ↔ row.id = i := by
        unfold MessageRow.key
        rw [hold, Prod.mk.injEq]
        exact and_iff_left rfl
      rw [Table.find?_replace, hrows]
      by_cases hi : row.id = i
      · rw [if_pos (hkey.mpr hi), if_pos ⟨rfl, hi⟩]
      · rw [if_neg (mt hkey.mp hi), if_neg (fun h => hi h.2)]
    cases c with
    | yes =>
      obtain ⟨messages, hcopy, hrows⟩ := createOld_spec db row.id
      refine ⟨messages.replace row, ?_, hreplace messages hrows⟩
      simp only [if_true, hcopy, ok_bind]
    | no => exact ⟨db.messages.replace row, rfl, hreplace db.messages fun _ => rfl⟩

private theorem dropOld_spec (hold : d.row.old = false) (db : Db) :
    ∃ messages, d.dropOld db = .ok { db with messages := messages } ∧
      ∀ i, messages.find? (i, false) = currentRow db i := by
  refine ⟨db.messages.deleteWhere (fun r => r.key == (d.row.id, true)), ?_, ?_⟩
  · unfold dropOld
    rw [hold]
    rfl
  · intro i
    rw [Table.find?_deleteWhere]
    unfold currentRow
    cases hfind : db.messages.find? (i, false) with
    | none => rfl
    | some r =>
      have hkey : r.key = (i, false) := Table.key_of_find? hfind
      simp [hkey]

theorem IsNew.save_eq_ok {d saved : MessageDao} {b : Bool} {db db' : Db} (h : d.IsNew)
    (hsave : d.save .no db = .ok (b, saved, db')) :
    ∃ hfree : db.messages.find? d.row.key = none, b = true ∧ saved = { d with dirty := false, storedInDb := true } ∧
      db' = { db with messages := db.messages.insert d.row hfree } := by
  have hfree : db.messages.find? d.row.key = none := by
    by_contra hfind
    have hnone : db.messages.insert? d.row = none := Table.insert?_eq_none.mpr hfind
    unfold MessageDao.save at hsave
    rw [if_pos h.dirty] at hsave
    simp only [ok_bind, h.storedInDb, Bool.false_eq_true, if_false, insertRow, hnone, error_bind] at hsave
    cases hsave
  rw [h.save hfree] at hsave
  cases hsave
  exact ⟨hfree, rfl, rfl, rfl⟩

/-- What a chain of setters keeps. -/
structure Stays (d d' : MessageDao) : Prop where
  id : d'.row.id = d.row.id
  old : d'.row.old = d.row.old
  storedInDb : d'.storedInDb = d.storedInDb
  /-- A dao that is clean was not changed. -/
  clean : d'.dirty = false → d' = d

theorem Stays.refl (d : MessageDao) : Stays d d := ⟨rfl, rfl, rfl, fun _ => rfl⟩

theorem Stays.trans {d d' d'' : MessageDao} (h : Stays d d') (h' : Stays d' d'') : Stays d d'' where
  id := h'.id.trans h.id
  old := h'.old.trans h.old
  storedInDb := h'.storedInDb.trans h.storedInDb
  clean hd := by
    have hd' := h'.clean hd
    rw [hd'] at hd ⊢
    exact h.clean hd

theorem Stays.assign {α : Type} [DecidableEq α] (d : MessageDao) {get : MessageRow → α}
    {set : MessageRow → α → MessageRow} {v : α} (hid : (set d.row v).id = d.row.id) (hold : (set d.row v).old = d.row.old) :
    Stays d (d.assign get set v).2 := by
  unfold MessageDao.assign
  split
  · exact .refl d
  · exact ⟨hid, hold, rfl, fun h => Bool.noConfusion h⟩

theorem setState_stays (d : MessageDao) (s : MessageState) (v : Bool) : Stays d (d.setState s v).2 := by
  cases s <;> exact .assign d rfl rfl

theorem setLastModified_stays (d : MessageDao) (v : LastModified) : Stays d (d.setLastModified v).2 :=
  .assign d rfl rfl

theorem setDeleted_stays (d : MessageDao) (v : Bool) : Stays d (d.setDeleted v).2 := .assign d rfl rfl

theorem clearData_stays (d : MessageDao) : Stays d d.clearData := by
  unfold clearData
  have hstep : ∀ {d' : MessageDao} (s : MessageState), Stays d d' → Stays d (d'.setState s false).2 :=
    fun s h => h.trans (setState_stays _ s false)
  apply hstep
  apply hstep
  refine Stays.trans ?_ (.assign _ rfl rfl)
  refine Stays.trans ?_ (.assign _ rfl rfl)
  refine Stays.trans ?_ (.assign _ rfl rfl)
  refine Stays.trans ?_ (.assign _ rfl rfl)
  refine Stays.trans ?_ (.assign _ rfl rfl)
  refine Stays.trans ?_ (.assign _ rfl rfl)
  refine Stays.trans ?_ (.assign _ rfl rfl)
  exact .assign _ rfl rfl

end MessageDao

/-! ### The statements that leave the messages alone -/

/-- Nothing changes that a session caches but the senders. -/
structure SameRows (db db' : Db) : Prop where
  messages : db'.messages = db.messages
  conversations : db'.conversations = db.conversations
  drafts : db'.drafts = db.drafts

theorem SameRows.refl (db : Db) : SameRows db db := ⟨rfl, rfl, rfl⟩

theorem SameRows.trans {db db' db'' : Db} (h : SameRows db db') (h' : SameRows db' db'') : SameRows db db'' :=
  ⟨h'.messages.trans h.messages, h'.conversations.trans h.conversations, h'.drafts.trans h.drafts⟩

theorem SameRows.current {db db' : Db} (h : SameRows db db') (id : IdType) : currentRow db' id = currentRow db id := by
  unfold currentRow
  rw [h.messages]

theorem AttachmentDao.save_sameRows {d : AttachmentDao} {db db' : Db} (h : d.save db = .ok db') :
    SameRows db db' ∧ db'.senders = db.senders := by
  unfold AttachmentDao.save at h
  split at h
  · split at h
    · cases h
      exact ⟨⟨rfl, rfl, rfl⟩, rfl⟩
    · obtain ⟨contents, -, h⟩ := bind_eq_ok.mp h
      obtain ⟨attachments, -, h⟩ := bind_eq_ok.mp h
      cases h
      exact ⟨⟨rfl, rfl, rfl⟩, rfl⟩
  · cases h
    exact ⟨.refl db, rfl⟩

/-- A fold of statements each of which leaves the rows alone. -/
theorem foldlM_sameRows {α : Type} {f : Db → α → Except Exn Db}
    (hf : ∀ db a db', f db a = .ok db' → SameRows db db' ∧ db'.senders = db.senders) {as : List α} {db db' : Db}
    (h : as.foldlM f db = .ok db') : SameRows db db' ∧ db'.senders = db.senders := by
  induction as generalizing db with
  | nil =>
    cases h
    exact ⟨.refl _, rfl⟩
  | cons a as ih =>
    rw [List.foldlM_cons] at h
    obtain ⟨db₁, ha, h⟩ := bind_eq_ok.mp h
    have h₁ := hf db a db₁ ha
    have h₂ := ih h
    exact ⟨h₁.1.trans h₂.1, h₂.2.trans h₁.2⟩

theorem AttachmentDao.convert_sameRows {d : AttachmentDao} {msgId : IdType} {db db' : Db}
    (h : d.convertToMessageAttachment msgId db = .ok db') : SameRows db db' ∧ db'.senders = db.senders := by
  unfold AttachmentDao.convertToMessageAttachment at h
  obtain ⟨_, -, h⟩ := bind_eq_ok.mp h
  obtain ⟨_, -, h⟩ := bind_eq_ok.mp h
  obtain ⟨_, -, h⟩ := bind_eq_ok.mp h
  split at h
  · cases h
    exact ⟨⟨rfl, rfl, rfl⟩, rfl⟩
  · cases h

theorem SenderDao.save_sameRows {d : SenderDao} {db db' : Db} (h : d.save db = .ok db') : SameRows db db' := by
  unfold SenderDao.save at h
  split at h
  · obtain ⟨_, -, h⟩ := bind_eq_ok.mp h
    obtain ⟨_, -, h⟩ := bind_eq_ok.mp h
    obtain ⟨senders, -, h⟩ := bind_eq_ok.mp h
    cases h
    exact ⟨rfl, rfl, rfl⟩
  · cases h
    exact SameRows.refl db

/-! ### The transactions of the syncer -/

namespace MessagesSyncer

/-- A dao the syncer has loaded. -/
structure Loaded (d : MessageDao) : Prop where
  storedInDb : d.storedInDb = true
  old : d.row.old = false

theorem loaded_of_load {db : Db} {id : IdType} {d : MessageDao} (h : MessageDao.load db id false = some d) :
    Loaded d ∧ d.row.id = id ∧ currentRow db id = some d.row := by
  obtain ⟨r, hr, rfl⟩ := Option.map_eq_some_iff.mp h
  have hkey : r.key = (id, false) := Table.key_of_find? hr
  exact ⟨⟨rfl, congrArg Prod.snd hkey⟩, congrArg Prod.fst hkey, hr⟩

theorem Loaded.stays {d d' : MessageDao} (h : Loaded d) (hstays : MessageDao.Stays d d') : Loaded d' :=
  ⟨hstays.storedInDb.trans h.storedInDb, hstays.old.trans h.old⟩

theorem newTombstone_eq_ok {httpMsg : HttpMessage} {db db' : Db} (h : newTombstone httpMsg db = .ok db') :
    currentRow db httpMsg.id = none ∧ ∃ row : MessageRow, row.deleted = true ∧
      (∀ i, currentRow db' i = if httpMsg.id = i then some row else currentRow db i) ∧
      db'.conversations = db.conversations ∧ db'.drafts = db.drafts ∧ db'.senders = db.senders := by
  unfold newTombstone at h
  obtain ⟨⟨b, d, db₁⟩, hsave, h⟩ := bind_eq_ok.mp h
  cases h
  generalize htombstone :
    (((MessageDao.new httpMsg.id).setLastModified httpMsg.lastModified).2.setDeleted true).2 = tombstone at hsave
  have hrow : tombstone.row = { id := httpMsg.id, lastModified := httpMsg.lastModified, deleted := true } := by
    rw [← htombstone]
    simp [MessageDao.new]
  have hnew : tombstone.IsNew := by
    rw [← htombstone]
    exact MessageDao.IsNew.assign (MessageDao.IsNew.assign ⟨rfl, rfl⟩)
  have hkey : tombstone.row.key = (httpMsg.id, false) := by rw [hrow]; rfl
  obtain ⟨hfree, _, _, rfl⟩ := hnew.save_eq_ok hsave
  refine ⟨?_, tombstone.row, by rw [hrow], ?_, rfl, rfl, rfl⟩
  · rw [hkey] at hfree
    exact hfree
  · intro i
    exact currentRow_insert hkey i

/-- The current rows when a message is deleted, unless it was deleted already. -/
def Deletes (loc : MessageDao) (db db' : Db) : Prop :=
  (∀ i, i ≠ loc.row.id → currentRow db' i = currentRow db i) ∧
  (loc.row.deleted = true ∧ currentRow db' loc.row.id = currentRow db loc.row.id ∨
    ∃ row : MessageRow, row.deleted = true ∧
      currentRow db' loc.row.id = (currentRow db loc.row.id).map (fun _ => row)) ∧
  db'.conversations = db.conversations ∧ db'.drafts = db.drafts

private theorem clear_eq_ok (httpMsg : HttpMessage) {loc : MessageDao} {db db₁ db' : Db} (hloc : Loaded loc)
    (hrows : SameRows db db₁)
    (h : (do
      let db ← loc.dropOld db₁
      let saved ← ((loc.clearData.setLastModified httpMsg.lastModified).2.setDeleted true).2.save .no db
      .ok saved.2.2) = .ok db') : Deletes loc db db' := by
  obtain ⟨messages, hdrop, hdropped⟩ := loc.dropOld_spec hloc.old db₁
  rw [hdrop, ok_bind] at h
  generalize hcleared : ((loc.clearData.setLastModified httpMsg.lastModified).2.setDeleted true).2 = cleared at h
  have hstays : MessageDao.Stays loc cleared := by
    rw [← hcleared]
    exact (loc.clearData_stays.trans (MessageDao.setLastModified_stays _ _)).trans (MessageDao.setDeleted_stays _ _)
  have hdeleted : cleared.row.deleted = true := by
    rw [← hcleared, MessageDao.setDeleted_row]
  have hcl := hloc.stays hstays
  obtain ⟨messages', hsave, hsaved⟩ :=
    MessageDao.save_stored hcl.storedInDb hcl.old .no { db₁ with messages := messages }
  rw [hsave, ok_bind] at h
  cases h
  have hcurrent : ∀ i, currentRow { db₁ with messages := messages } i = currentRow db i := by
    intro i
    rw [← hrows.current i]
    exact hdropped i
  refine ⟨?_, ?_, hrows.conversations, hrows.drafts⟩
  · intro i hi
    refine (hsaved i).trans ?_
    rw [if_neg, hcurrent]
    rintro ⟨-, hid⟩
    rw [hstays.id] at hid
    exact hi hid.symm
  · have hrow := hsaved loc.row.id
    rw [hcurrent] at hrow
    cases hdirty : cleared.dirty with
    | false =>
      rw [hdirty, if_neg (by simp)] at hrow
      rw [hstays.clean hdirty] at hdeleted
      exact .inl ⟨hdeleted, hrow⟩
    | true =>
      rw [hdirty, if_pos ⟨rfl, hstays.id⟩] at hrow
      exact .inr ⟨cleared.row, hdeleted, hrow⟩

theorem clearLocal_eq_ok {httpMsg : HttpMessage} {loc : MessageDao} {db db' : Db} (hloc : Loaded loc)
    (h : clearLocal httpMsg loc db = .ok db') : Deletes loc db db' := by
  unfold clearLocal at h
  obtain ⟨sender, -, h⟩ := bind_eq_ok.mp h
  have hattachments : SameRows db (AttachmentDao.deleteAttachments db false loc.row.id) := ⟨rfl, rfl, rfl⟩
  cases sender with
  | none =>
    dsimp only at h
    exact clear_eq_ok httpMsg hloc hattachments h
  | some sender =>
    dsimp only at h
    have hsender : SameRows db (sender.deletePermanently (AttachmentDao.deleteAttachments db false loc.row.id)) :=
      hattachments.trans ⟨rfl, rfl, rfl⟩
    exact clear_eq_ok httpMsg hloc hsender h

/-! #### The merge -/

/-- What the merge keeps of the local dao. -/
structure Merges (loc loc' : MessageDao) : Prop extends MessageDao.Stays loc loc' where
  deleted : loc'.row.deleted = loc.row.deleted
  conversationId : loc'.row.conversationId = loc.row.conversationId

theorem Merges.refl (loc : MessageDao) : Merges loc loc := ⟨.refl loc, rfl, rfl⟩

theorem Merges.trans {d d' d'' : MessageDao} (h : Merges d d') (h' : Merges d' d'') : Merges d d'' :=
  ⟨h.toStays.trans h'.toStays, h'.deleted.trans h.deleted, h'.conversationId.trans h.conversationId⟩

theorem setState_merges (d : MessageDao) (s : MessageState) (v : Bool) : Merges d (d.setState s v).2 := by
  refine ⟨d.setState_stays s v, ?_, ?_⟩
  · rw [MessageDao.setState_row]
    cases s <;> rfl
  · rw [MessageDao.setState_row]
    cases s <;> rfl

theorem setMetaVersion_merges (d : MessageDao) (v : MetaVersion) : Merges d (d.setMetaVersion v).2 := by
  refine ⟨.assign d rfl rfl, ?_, ?_⟩
  · rw [MessageDao.setMetaVersion_row]
  · rw [MessageDao.setMetaVersion_row]

theorem setLastModified_merges (d : MessageDao) (v : LastModified) : Merges d (d.setLastModified v).2 := by
  refine ⟨d.setLastModified_stays v, ?_, ?_⟩
  · rw [MessageDao.setLastModified_row]
  · rw [MessageDao.setLastModified_row]

private theorem mergeState_merges (old loc remote : MessageDao) (s : MessageState) :
    Merges loc (mergeState old loc remote s).2 := by
  unfold mergeState
  split
  · exact setState_merges loc s _
  · exact .refl loc

theorem mergeStates_merges (old loc remote : MessageDao) : Merges loc (mergeStates old loc remote).2 := by
  unfold mergeStates
  split
  · exact .refl loc
  · exact (mergeState_merges old loc remote .read).trans (mergeState_merges old _ remote .done)

/-- The current rows when a dao with the row of a message is saved. -/
def Saves (loc : MessageDao) (dirty : Bool) (row : MessageRow) (db db' : Db) : Prop :=
  (∀ i, currentRow db' i =
    if dirty = true ∧ loc.row.id = i then (currentRow db i).map (fun _ => row) else currentRow db i) ∧
  (dirty = false → row = loc.row) ∧
  row.id = loc.row.id ∧ row.deleted = loc.row.deleted ∧ row.conversationId = loc.row.conversationId ∧
  db'.conversations = db.conversations ∧ db'.drafts = db.drafts ∧ db'.senders = db.senders

private theorem saves_of_merges {loc loc' saved : MessageDao} {c : CreateOld} {b : Bool} {db db₁ db' : Db} (hloc : Loaded loc)
    (hmerge : Merges loc loc') (hmessages : ∃ messages, db₁ = { db with messages := messages })
    (hrows : ∀ i, currentRow db₁ i = currentRow db i) (h : loc'.save c db₁ = .ok (b, saved, db')) :
    Saves loc b saved.row db db' := by
  have hloc' := hloc.stays hmerge.toStays
  obtain ⟨messages, rfl⟩ := hmessages
  obtain ⟨messages', hsave, hsaved⟩ :=
    MessageDao.save_stored hloc'.storedInDb hloc'.old c { db with messages := messages }
  rw [hsave] at h
  cases h
  refine ⟨?_, ?_, hmerge.id, hmerge.deleted, hmerge.conversationId, rfl, rfl, rfl⟩
  rotate_left
  · intro hclean
    change loc'.row = loc.row
    rw [hmerge.clean hclean]
  intro i
  refine (hsaved i).trans ?_
  rw [hrows, hmerge.id]

/-- The `old` row is saved under its own key. -/
private theorem save_old_rows {db db' : Db} {id : IdType} {old remote saved : MessageDao} {b : Bool}
    (hload : MessageDao.load db id true = some old)
    (h : ((((old.setLastModified remote.row.lastModified).2.setDeleted remote.row.deleted).2.setState .read
      (remote.row.state .read)).2.setState .done (remote.row.state .done)).2.save .no db = .ok (b, saved, db')) :
    ∃ messages, db' = { db with messages := messages } ∧ ∀ i, currentRow db' i = currentRow db i := by
  obtain ⟨r, hr, rfl⟩ := Option.map_eq_some_iff.mp hload
  have hkey : r.key = (id, true) := Table.key_of_find? hr
  have hstays := (((MessageDao.ofRow r).setLastModified_stays remote.row.lastModified).trans
    (MessageDao.setDeleted_stays _ remote.row.deleted)).trans
      ((MessageDao.setState_stays _ .read (remote.row.state .read)).trans
        (MessageDao.setState_stays _ .done (remote.row.state .done)))
  revert h hstays
  generalize (((((MessageDao.ofRow r).setLastModified remote.row.lastModified).2.setDeleted
    remote.row.deleted).2.setState .read (remote.row.state .read)).2.setState .done (remote.row.state .done)).2 = d
  intro h hstays
  have hstored : d.storedInDb = true := hstays.storedInDb
  have hold : d.row.old = true := hstays.old.trans (congrArg Prod.snd hkey)
  unfold MessageDao.save at h
  split at h
  · cases h
    refine ⟨_, rfl, ?_⟩
    intro i
    have hne : ¬ d.row.key = (i, false) := by
      intro hi
      have := congrArg Prod.snd hi
      change d.row.old = false at this
      rw [hold] at this
      cases this
    unfold currentRow
    rw [Table.find?_replace, if_neg hne]
  · cases h
    exact ⟨db.messages, rfl, fun _ => rfl⟩

theorem merge_eq_ok {remote loc : MessageDao} {db db' : Db} {merged : Merged} (hloc : Loaded loc)
    (h : merge remote loc db = .ok (merged, db')) : Saves loc merged.localModified merged.msg db db' := by
  unfold merge at h
  have hmodified := setLastModified_merges loc remote.row.lastModified
  dsimp only at h
  cases hload : MessageDao.load db remote.row.id true with
  | none =>
    rw [hload] at h
    obtain ⟨⟨_, loc', db₁⟩, hlocal, h⟩ := bind_eq_ok.mp h
    cases hlocal
    obtain ⟨⟨b, saved, db₂⟩, hsave, h⟩ := bind_eq_ok.mp h
    cases h
    exact saves_of_merges hloc ((hmodified.trans (setState_merges _ _ _)).trans (setState_merges _ _ _))
      ⟨db.messages, rfl⟩ (fun _ => rfl) hsave
  | some old =>
    rw [hload] at h
    have hmerged := hmodified.trans (mergeStates_merges old _ remote)
    dsimp only at h
    split at h
    · obtain ⟨db₁, hdrop, h⟩ := bind_eq_ok.mp h
      obtain ⟨⟨_, loc', db₂⟩, hlocal, h⟩ := bind_eq_ok.mp h
      cases hlocal
      obtain ⟨⟨b, saved, db₃⟩, hsave, h⟩ := bind_eq_ok.mp h
      cases h
      obtain ⟨messages, hdrop', hrows⟩ := MessageDao.dropOld_spec (hloc.stays hmerged.toStays).old db
      rw [hdrop'] at hdrop
      cases hdrop
      exact saves_of_merges hloc hmerged ⟨messages, rfl⟩ hrows hsave
    · obtain ⟨⟨_, _, db₁⟩, hold, h⟩ := bind_eq_ok.mp h
      obtain ⟨⟨_, loc', db₂⟩, hlocal, h⟩ := bind_eq_ok.mp h
      cases hlocal
      obtain ⟨⟨b, saved, db₃⟩, hsave, h⟩ := bind_eq_ok.mp h
      cases h
      obtain ⟨messages, hdb₁, hrows⟩ := save_old_rows hload hold
      exact saves_of_merges hloc hmerged ⟨messages, hdb₁⟩ hrows hsave

/-- A version that was uploaded is stored with its new `lastModified`. -/
theorem applyModification_eq_ok {idlm : IdLastModified} {db db' : Db} {msg : MessageRow}
    (h : applyModification idlm db = .ok (msg, db')) :
    ∃ loc b, Loaded loc ∧ loc.row.id = idlm.id ∧ currentRow db idlm.id = some loc.row ∧ Saves loc b msg db db' := by
  unfold applyModification at h
  cases hload : MessageDao.load db idlm.id false with
  | none =>
    rw [hload] at h
    cases h
  | some loc =>
    rw [hload] at h
    obtain ⟨hloc, hid, hrow⟩ := loaded_of_load hload
    obtain ⟨⟨b, saved, db₁⟩, hsave, h⟩ := bind_eq_ok.mp h
    obtain ⟨db₂, hdrop, h⟩ := bind_eq_ok.mp h
    cases h
    have hsaves := saves_of_merges hloc (setLastModified_merges loc idlm.lastModified) ⟨db.messages, rfl⟩
      (fun _ => rfl) hsave
    refine ⟨loc, b, hloc, hid, hrow, ?_⟩
    have hold : saved.row.old = false := by
      obtain ⟨_, hsave', -⟩ := MessageDao.save_stored (hloc.stays (loc.setLastModified_stays idlm.lastModified)).storedInDb
        (hloc.stays (loc.setLastModified_stays idlm.lastModified)).old .no db
      rw [hsave'] at hsave
      cases hsave
      exact (hloc.stays (loc.setLastModified_stays idlm.lastModified)).old
    obtain ⟨messages, hdrop', hrows⟩ := MessageDao.dropOld_spec hold db₁
    rw [hdrop'] at hdrop
    cases hdrop
    refine ⟨?_, hsaves.2⟩
    intro i
    rw [← hsaves.1 i]
    exact hrows i

/-! #### New messages -/

theorem conversation_save_eq_ok {conv conv' : ConversationDao} {isNew : Bool} {db db' : Db}
    (h : conv.save db = .ok (isNew, conv', db')) :
    db'.messages = db.messages ∧ db'.drafts = db.drafts ∧ db'.senders = db.senders := by
  unfold ConversationDao.save at h
  split at h
  · obtain ⟨_, -, h⟩ := bind_eq_ok.mp h
    obtain ⟨_, -, h⟩ := bind_eq_ok.mp h
    split at h
    · cases h
    · obtain ⟨conversations, -, h⟩ := bind_eq_ok.mp h
      cases h
      exact ⟨rfl, rfl, rfl⟩
  · cases h
    exact ⟨rfl, rfl, rfl⟩

/-- The current rows when a message is added to a conversation. -/
structure Adds (message : MessageDao) (conv : ConversationDao) (added : Added) (db db' : Db) : Prop where
  free : currentRow db message.row.id = none
  row : ∀ i, currentRow db' i = if message.row.id = i then some added.msg else currentRow db i
  id : added.msg.id = message.row.id
  deleted : added.msg.deleted = message.row.deleted
  convId : added.msg.conversationId = added.convId
  drafts : db'.drafts = db.drafts
  conversation : ∃ conv' db₁, conv.save db = .ok (added.newConversation, conv', db₁) ∧ conv'.id = added.convId ∧
    db'.conversations = db₁.conversations

variable {P : Platform}

theorem addMessage_eq_ok {decoder : Decoder} {conv : ConversationDao} {message : MessageDao} {added : Added} {db db' : Db}
    (hnew : decoder.message.IsNew) (hold : decoder.message.row.old = false)
    (h : addMessage P decoder conv db = .ok (added, message, db')) :
    Adds decoder.message conv added db db' ∧ Loaded message ∧ message.row = added.msg := by
  unfold addMessage at h
  obtain ⟨⟨isNew, conv', db₁⟩, hconv, h⟩ := bind_eq_ok.mp h
  dsimp only at h
  obtain ⟨db₂, hsender, h⟩ := bind_eq_ok.mp h
  obtain ⟨⟨b, saved, db₃⟩, hsave, h⟩ := bind_eq_ok.mp h
  obtain ⟨db₄, hattachments, h⟩ := bind_eq_ok.mp h
  cases h
  obtain ⟨hmessages, hdrafts, hsenders⟩ := conversation_save_eq_ok hconv
  have havatar : SameRows db₁ (AvatarDao.store db₁ (P.eightByteHash decoder.avatar) decoder.avatar) :=
    ⟨rfl, rfl, rfl⟩
  have hsenderRows : SameRows db₁ db₂ := havatar.trans (SenderDao.save_sameRows hsender)
  have hattachmentRows := (foldlM_sameRows (fun _ _ _ => AttachmentDao.save_sameRows) hattachments).1
  have hassigned : (decoder.message.setConversationId conv'.id).2.IsNew := hnew.assign
  obtain ⟨hfree, -, hsaved, rfl⟩ := hassigned.save_eq_ok hsave
  have hkey : (decoder.message.setConversationId conv'.id).2.row.key = (decoder.message.row.id, false) := by
    rw [MessageDao.setConversationId_row]
    exact Prod.ext rfl hold
  have hcurrent : ∀ i, currentRow db₂ i = currentRow db i := by
    intro i
    rw [hsenderRows.current]
    unfold currentRow
    rw [hmessages]
  refine ⟨⟨?_, ?_, ?_, ?_, ?_, ?_, conv', db₁, hconv, rfl, ?_⟩, ?_, rfl⟩
  · rw [← hcurrent]
    rw [hkey] at hfree
    exact hfree
  · intro i
    rw [hattachmentRows.current, currentRow_insert hkey, hcurrent, hsaved]
  · rw [hsaved, MessageDao.setConversationId_row]
  · rw [hsaved, MessageDao.setConversationId_row]
  · rw [hsaved, MessageDao.setConversationId_row]
  · rw [hattachmentRows.drafts, hsenderRows.drafts, hdrafts]
  · rw [hattachmentRows.conversations, hsenderRows.conversations]
  · rw [hsaved]
    refine ⟨rfl, ?_⟩
    rw [MessageDao.setConversationId_row]
    exact hold

theorem addNewMessage_eq_ok {decoder : Decoder} {added : Added} {db db' : Db} (hnew : decoder.message.IsNew)
    (hold : decoder.message.row.old = false) (h : addNewMessage P decoder db = .ok (added, db')) :
    Adds decoder.message (MessageDecoder.makeConversation db decoder) added db db' := by
  unfold addNewMessage at h
  obtain ⟨⟨added', remote, db₁⟩, hadd, h⟩ := bind_eq_ok.mp h
  obtain ⟨hadds, hremote, hrow⟩ := addMessage_eq_ok hnew hold hadd
  dsimp only at h
  split at h
  · -- the meta format is upgraded
    obtain ⟨⟨b, saved, db₂⟩, hsave, h⟩ := bind_eq_ok.mp h
    cases h
    obtain ⟨hrows, hclean, hid, hdeleted, hconvId, hconversations, hdrafts, -⟩ :=
      saves_of_merges hremote (setMetaVersion_merges remote latestMetaVersion) ⟨db₁.messages, rfl⟩ (fun _ => rfl) hsave
    rw [hrow] at hid hdeleted hconvId hclean
    refine ⟨hadds.free, ?_, hid.trans hadds.id, hdeleted.trans hadds.deleted, hconvId.trans hadds.convId,
      hdrafts.trans hadds.drafts, ?_⟩
    · intro i
      rw [hrows i, hadds.row i, hrow, hadds.id]
      by_cases hi : decoder.message.row.id = i
      · cases b with
        | true => simp [hi]
        | false => simp [hi, hclean rfl]
      · rw [if_neg (fun h => hi h.2), if_neg hi, if_neg hi]
    · obtain ⟨conv', db₃, hconv, hconv', hsame⟩ := hadds.conversation
      exact ⟨conv', db₃, hconv, hconv', hconversations.trans hsame⟩
  · cases h
    exact hadds

theorem decode_message {db : Db} {userAddress : KulloAddress} {msg : DecryptedMessage} {decoder : Decoder}
    (h : MessageDecoder.decode P db userAddress msg = .ok decoder) :
    decoder.message.IsNew ∧ decoder.message.row.old = false ∧ decoder.message.row.id = msg.id ∧
      decoder.message.row.deleted = false := by
  obtain ⟨_, _, _, -, -, -, -, rfl⟩ := MessageDecoder.decode_eq_ok.mp h
  exact ⟨⟨rfl, rfl⟩, rfl, rfl, rfl⟩

end MessagesSyncer

/-! ### The transaction of the uploader -/

private theorem ConversationDao.save_clean {conv : ConversationDao} (h : conv.dirty = false) (db : Db) :
    conv.save db = .ok (false, conv, db) := by
  unfold ConversationDao.save
  rw [if_neg (by simp [h])]

theorem MessagesUploader.store_adds {P : Platform} {address : KulloAddress} {dateSent : String} {draft : DraftDao}
    {conv : ConversationDao} {msgSent : MessageSent} {delivery : List KulloAddress} {db db' : Db}
    {added : MessagesSyncer.Added} {attachments : List AttachmentDao} (hconv : conv.dirty = false)
    (h : store P address dateSent draft conv msgSent delivery db = .ok (added, attachments, db')) :
    ∃ message : MessageDao, message.row.id = msgSent.id ∧ message.row.deleted = false ∧
      MessagesSyncer.Adds message conv added db db' := by
  unfold store at h
  obtain ⟨db₁, hconvert, h⟩ := bind_eq_ok.mp h
  obtain ⟨⟨added', message, db₂⟩, hadd, h⟩ := bind_eq_ok.mp h
  cases h
  have hrow := makeMessageDao_row address dateSent msgSent draft
  have hold : (makeMessageDao address dateSent msgSent draft).row.old = false := by
    rw [hrow]
    rfl
  have hid : (makeMessageDao address dateSent msgSent draft).row.id = msgSent.id := by
    rw [hrow]
    rfl
  have hdeleted : (makeMessageDao address dateSent msgSent draft).row.deleted = false := by
    rw [hrow]
    rfl
  have hnew := makeMessageDao_isNew address dateSent msgSent draft
  revert hadd hold hid hdeleted hnew
  generalize makeMessageDao address dateSent msgSent draft = message₀
  intro hadd hold hid hdeleted hnew
  have hadds := (MessagesSyncer.addMessage_eq_ok (by exact hnew) (by exact hold) hadd).1
  have hsame := (foldlM_sameRows (fun _ _ _ => AttachmentDao.convert_sameRows) hconvert).1
  have hdelivery : SameRows db₂ (DeliveryDao.insertUnsent db₂ msgSent.id delivery) := ⟨rfl, rfl, rfl⟩
  obtain ⟨conv', db₃, hsave, hconvId, hconversations⟩ := hadds.conversation
  rw [ConversationDao.save_clean hconv, Except.ok.injEq, Prod.mk.injEq, Prod.mk.injEq] at hsave
  obtain ⟨hflag, rfl, rfl⟩ := hsave
  refine ⟨message₀, hid, hdeleted, ?_⟩
  constructor
  · rw [← hsame.current]
    exact hadds.free
  · intro i
    rw [hdelivery.current, hadds.row, hsame.current]
  · exact hadds.id
  · exact hadds.deleted
  · exact hadds.convId
  · rw [hdelivery.drafts, hadds.drafts, hsame.drafts]
  · refine ⟨conv, db, hflag ▸ ConversationDao.save_clean hconv db, hconvId, ?_⟩
    rw [hdelivery.conversations, hconversations, hsame.conversations]

end KulloClient
