import KulloClient.Base.Runs
import KulloClient.Dao.AttachmentContent

/-!
# The two tables of the attachments

An attachment is a row of `attachments` and a row of `attachments_content` under the same key.  Each operation of
`AttachmentDao` writes both rows of its keys or neither, and the attachments of a draft keep their contents and their
order when they become those of a message.
-/

namespace KulloClient

open Relational (Table)
open Imperative

/-- The operations that write the tables; `deleted` is `deleted_` of the dao. -/
inductive AttachmentOp
  | save (d : AttachmentDao) (deleted : Bool)
  | setContent (d : AttachmentDao) (callback : ContentCallback) (input : InputStream)
  | convertToMessageAttachment (d : AttachmentDao) (msgId : IdType)
  | deletePermanently (d : AttachmentDao) (deleted : Bool)
  /-- `deleteAttachmentsForDraft` and `deleteAttachmentsForMessage`. -/
  | deleteAttachments (draft : IsDraft) (messageId : IdType)

namespace AttachmentOp

def perform (db : Db) : AttachmentOp → Except Exn Db
  | .save d deleted => if deleted then .ok db else d.save db
  | .setContent d callback input =>
    match d.setContent callback input db with
    | .ok _ db => .ok db
    | .error e _ => .error e
  | .convertToMessageAttachment d msgId => d.convertToMessageAttachment msgId db
  | .deletePermanently d deleted => .ok (if deleted then db else d.deletePermanently db)
  | .deleteAttachments draft messageId => .ok (AttachmentDao.deleteAttachments db draft messageId)

/-- An operation that raises leaves no trace. -/
def Step (db : Db) (op : AttachmentOp) (db' : Db) : Prop :=
  op.perform db = .ok db' ∨ (∃ e, op.perform db = .error e) ∧ db' = db

/-- The keys an operation is for. -/
def Touches : AttachmentOp → AttachmentKey → Prop
  | .save d _, k => k = d.row.key
  | .setContent d _ _, k => k = d.row.key
  | .convertToMessageAttachment d msgId, k => k = d.row.key ∨ k = (false, msgId, d.row.index)
  | .deletePermanently d _, k => k = d.row.key
  | .deleteAttachments draft messageId, k => k.1 = draft ∧ k.2.1 = messageId

end AttachmentOp

namespace AttachmentDao

variable {db db' : Db} {d : AttachmentDao} {msgId convId : IdType}

/-- The keys of the two tables are the same. -/
def Paired (db : Db) : Prop :=
  ∀ k : AttachmentKey, (db.attachments.find? k).isSome = (db.attachmentsContent.find? k).isSome

/-- What is stored under a key. -/
def SameAt (db db' : Db) (k : AttachmentKey) : Prop :=
  db'.attachments.find? k = db.attachments.find? k ∧ db'.attachmentsContent.find? k = db.attachmentsContent.find? k

/-! ### One operation -/

/-- A new attachment gets a row in each table. -/
theorem IsNew.save_eq_ok (hnew : d.IsNew) (h : d.save db = .ok db') :
    db'.attachments.rows = db.attachments.rows ++ [d.row] ∧
      db'.attachmentsContent.rows =
        db.attachmentsContent.rows ++ [⟨d.row.draft, d.row.messageId, d.row.index, none⟩] := by
  unfold AttachmentDao.save at h
  rw [if_pos hnew.dirty, if_neg (by simp [hnew.storedInDb])] at h
  obtain ⟨contents, hcontents, h⟩ := bind_eq_ok.mp h
  obtain ⟨attachments, hattachments, h⟩ := bind_eq_ok.mp h
  cases h
  obtain ⟨_, rfl⟩ := Table.insert?_eq_some.mp (insertRow_eq_ok.mp hcontents)
  obtain ⟨_, rfl⟩ := Table.insert?_eq_some.mp (insertRow_eq_ok.mp hattachments)
  exact ⟨rfl, rfl⟩

/-- The hash of an attachment whose row is the last one. -/
theorem save_setHash_eq_ok {rows : List AttachmentRow} {hash : String} (hrows : db.attachments.rows = rows ++ [d.row])
    (h : (({ d with dirty := false, storedInDb := true } : AttachmentDao).setHash hash).save db = .ok db') :
    db'.attachments.rows = rows ++ [{ d.row with hash := hash }] := by
  by_cases hhash : d.row.hash = hash
  · unfold setHash assign save at h
    rw [if_pos hhash] at h
    cases h
    rw [hrows, ← hhash]
  · unfold setHash assign save at h
    rw [if_neg hhash, if_pos rfl, if_pos rfl] at h
    cases h
    have hnodup := db.attachments.nodup
    rw [hrows, List.map_append, List.nodup_append] at hnodup
    have hlast : ({ d.row with hash := hash } : AttachmentRow).key = d.row.key := rfl
    change (db.attachments.rows.map _) = _
    rw [hrows, List.map_append]
    congr 1
    · refine (List.map_congr_left ?_).trans (List.map_id rows)
      intro r hr
      rw [if_neg]
      · rfl
      · exact hnodup.2.2 r.key (List.mem_map_of_mem hr) d.row.key (List.mem_singleton.mpr rfl)
    · rw [List.map_singleton, if_pos hlast.symm]

private theorem save_paired (hdb : Paired db) (h : d.save db = .ok db') :
    Paired db' ∧ ∀ k, k ≠ d.row.key → SameAt db db' k := by
  cases hdirty : d.dirty with
  | false =>
    unfold save at h
    rw [hdirty] at h
    cases h
    exact ⟨hdb, fun _ _ => ⟨rfl, rfl⟩⟩
  | true =>
    cases hstored : d.storedInDb with
    | true =>
      unfold save at h
      rw [if_pos hdirty, if_pos hstored] at h
      cases h
      constructor
      · intro k
        rw [← hdb k, Table.find?_replace]
        split
        · rw [Option.isSome_map]
        · rfl
      · intro k hk
        refine ⟨?_, rfl⟩
        rw [Table.find?_replace, if_neg (Ne.symm hk)]
    | false =>
      obtain ⟨hrows, hcontents⟩ := IsNew.save_eq_ok ⟨hdirty, hstored⟩ h
      have hkey : AttachmentContentRow.key ⟨d.row.draft, d.row.messageId, d.row.index, none⟩ = d.row.key := rfl
      have hfind := Table.find?_of_rows_append hrows
      have hfindContent := Table.find?_of_rows_append hcontents
      constructor
      · intro k
        rw [hfind, hfindContent, hkey, Option.isSome_or, Option.isSome_or, hdb k]
        split <;> rfl
      · intro k hk
        constructor
        · rw [hfind, if_neg (Ne.symm hk), Option.or_none]
        · rw [hfindContent, hkey, if_neg (Ne.symm hk), Option.or_none]

theorem setContent_eq_ok {callback : ContentCallback} {input : InputStream} {given : List Bytes}
    (h : d.setContent callback input db = .ok given db') :
    ∃ content, db' = KulloClient.setContent db d.row.key content := by
  cases hrow : db.attachmentsContent.find? d.row.key with
  | none =>
    unfold setContent at h
    rw [hrow] at h
    cases h
  | some c =>
    have hsome : (contentOf db d.row.key).isSome = true := by
      unfold contentOf
      rw [hrow]
      rfl
    by_cases hsize : d.row.size = 0
    · rw [setContent_of_size_eq_zero hsome hsize] at h
      cases h
      exact ⟨_, rfl⟩
    · rcases @setContent_spec d callback db hsome hsize input with ⟨-, -, hok⟩ | ⟨-, e, herror⟩
      · rw [hok] at h
        cases h
        exact ⟨_, rfl⟩
      · rw [herror] at h
        cases h

private theorem setContent_paired (hdb : Paired db) (key : AttachmentKey) (content : Bytes) :
    Paired (KulloClient.setContent db key content) ∧
      ∀ k, k ≠ key → SameAt db (KulloClient.setContent db key content) k := by
  constructor
  · intro k
    rw [setContent_attachments, hdb k, find?_setContent, Option.isSome_map]
  · intro k hk
    refine ⟨rfl, ?_⟩
    rw [find?_setContent]
    cases hfind : db.attachmentsContent.find? k with
    | none => rfl
    | some c =>
      have hkey : c.key = k := Table.key_of_find? hfind
      rw [Option.map_some, if_neg]
      rw [hkey]
      simpa using hk

/-- What is found under a key when a row has moved from the draft to the message. -/
def movedTo {ρ : Type} (find : AttachmentKey → Option ρ) (f : ρ → ρ) (convId msgId index : IdType)
    (k : AttachmentKey) : Option ρ :=
  if k = (true, convId, index) then none
  else if k = (false, msgId, index) then ((find (true, convId, index)).map f).or (find (false, msgId, index))
  else find k

theorem convert_eq_ok_find (h : d.convertToMessageAttachment msgId db = .ok db') :
    d.row.draft = true ∧
      (∀ k, db'.attachments.find? k =
        movedTo db.attachments.find? (convertedRow msgId) d.row.messageId msgId d.row.index k) ∧
      ∀ k, db'.attachmentsContent.find? k =
        movedTo db.attachmentsContent.find? (convertedContent msgId) d.row.messageId msgId d.row.index k := by
  unfold convertToMessageAttachment at h
  obtain ⟨_, hdraft, h⟩ := bind_eq_ok.mp h
  obtain ⟨_, -, h⟩ := bind_eq_ok.mp h
  obtain ⟨_, -, h⟩ := bind_eq_ok.mp h
  have hdraft' : d.row.draft = true := by
    unfold kulloAssert at hdraft
    split at hdraft
    · assumption
    · cases hdraft
  have hkey : d.row.key = (true, d.row.messageId, d.row.index) := by
    unfold AttachmentRow.key
    rw [hdraft']
  have hne : ((true, d.row.messageId, d.row.index) : AttachmentKey) ≠ (false, msgId, d.row.index) := by
    simp
  split at h
  · next attachments contents hattachments hcontents =>
    cases h
    refine ⟨hdraft', ?_, ?_⟩
    · apply Table.find?_of_rekeyWhere? hattachments
      · intro r
        rw [beq_iff_eq, hkey]
      · intro r hr
        exact congrArg (fun k => (false, msgId, k.2.2)) hr
      · exact hne
    · apply Table.find?_of_rekeyWhere? hcontents
      · intro c
        rw [beq_iff_eq, hkey]
      · intro c hc
        exact congrArg (fun k => (false, msgId, k.2.2)) hc
      · exact hne
  · cases h

private theorem convert_paired (hdb : Paired db) (h : d.convertToMessageAttachment msgId db = .ok db') :
    Paired db' ∧ ∀ k, k ≠ d.row.key → k ≠ (false, msgId, d.row.index) → SameAt db db' k := by
  obtain ⟨hdraft, hrows, hcontents⟩ := convert_eq_ok_find h
  have hkey : d.row.key = (true, d.row.messageId, d.row.index) := by
    unfold AttachmentRow.key
    rw [hdraft]
  rw [hkey]
  constructor
  · intro k
    rw [hrows, hcontents]
    unfold movedTo
    split
    · rfl
    · split
      · rw [Option.isSome_or, Option.isSome_or, Option.isSome_map, Option.isSome_map, hdb, hdb]
      · exact hdb k
  · intro k hk hk'
    constructor
    · rw [hrows, movedTo, if_neg hk, if_neg hk']
    · rw [hcontents, movedTo, if_neg hk, if_neg hk']

private theorem delete_paired (hdb : Paired db) {p : AttachmentKey → Bool}
    {attachments : Table AttachmentRow.key} {contents : Table AttachmentContentRow.key}
    (hattachments : attachments = db.attachments.deleteWhere (fun r => p r.key))
    (hcontents : contents = db.attachmentsContent.deleteWhere (fun c => p c.key)) :
    Paired { db with attachments := attachments, attachmentsContent := contents } ∧
      ∀ k, p k = false → SameAt db { db with attachments := attachments, attachmentsContent := contents } k := by
  have hrow : ∀ k, attachments.find? k = if p k then none else db.attachments.find? k := by
    intro k
    rw [hattachments, Table.find?_deleteWhere]
    cases hfind : db.attachments.find? k with
    | none => simp
    | some r =>
      have hkey : r.key = k := Table.key_of_find? hfind
      cases hp : p k <;> simp [hkey, hp]
  have hcontent : ∀ k, contents.find? k = if p k then none else db.attachmentsContent.find? k := by
    intro k
    rw [hcontents, Table.find?_deleteWhere]
    cases hfind : db.attachmentsContent.find? k with
    | none => simp
    | some c =>
      have hkey : c.key = k := Table.key_of_find? hfind
      cases hp : p k <;> simp [hkey, hp]
  constructor
  · intro k
    dsimp only
    rw [hrow, hcontent]
    split
    · rfl
    · exact hdb k
  · intro k hk
    constructor
    · dsimp only
      rw [hrow, hk]
      rfl
    · dsimp only
      rw [hcontent, hk]
      rfl

/-! ### All attachments of a draft -/

/-- The transaction of the uploader moves the attachments one after the other. -/
def convertAll (db : Db) (convId msgId : IdType) : Except Exn Db :=
  (allForMessage db true convId).foldlM (fun db d => d.convertToMessageAttachment msgId db) db

/-- What is found under a key when the rows with these indices have moved. -/
def movedAllTo {ρ : Type} (find : AttachmentKey → Option ρ) (f : ρ → ρ) (convId msgId : IdType)
    (indices : List IdType) (k : AttachmentKey) : Option ρ :=
  if k.1 = true ∧ k.2.1 = convId ∧ k.2.2 ∈ indices then none
  else if k.1 = false ∧ k.2.1 = msgId ∧ k.2.2 ∈ indices then ((find (true, convId, k.2.2)).map f).or (find k)
  else find k

private theorem movedAllTo_cons {ρ : Type} (find : AttachmentKey → Option ρ) (f : ρ → ρ) (convId msgId index : IdType)
    (indices : List IdType) (k : AttachmentKey) :
    movedAllTo (movedTo find f convId msgId index) f convId msgId indices k =
      movedAllTo find f convId msgId (index :: indices) k := by
  obtain ⟨draft, m, i⟩ := k
  unfold movedAllTo movedTo
  by_cases hindex : i = index
  · subst hindex
    cases draft with
    | true => by_cases hm : m = convId <;> simp [hm]
    | false => by_cases hm : m = msgId <;> simp [hm]
  · cases draft with
    | true => by_cases hm : m = convId <;> simp [hm, hindex]
    | false => by_cases hm : m = msgId <;> simp [hm, hindex]

/-- `find` looks for a row in one of the two tables, which `convertToMessageAttachment` moves with `f`. -/
theorem foldlM_convert_find {ρ : Type} {find : Db → AttachmentKey → Option ρ} {f : ρ → ρ}
    (hstep : ∀ (d : AttachmentDao) (db db' : Db), d.convertToMessageAttachment msgId db = .ok db' →
      ∀ k, find db' k = movedTo (find db) f d.row.messageId msgId d.row.index k)
    {ds : List AttachmentDao} (hds : ∀ d ∈ ds, d.row.messageId = convId)
    (h : ds.foldlM (fun db d => d.convertToMessageAttachment msgId db) db = .ok db') (k : AttachmentKey) :
    find db' k = movedAllTo (find db) f convId msgId (ds.map fun d => d.row.index) k := by
  induction ds generalizing db with
  | nil =>
    cases h
    simp [movedAllTo]
  | cons d ds ih =>
    rw [List.forall_mem_cons] at hds
    rw [List.foldlM_cons] at h
    obtain ⟨db₁, hd, h⟩ := bind_eq_ok.mp h
    rw [ih hds.2 h, funext (hstep d db db₁ hd), hds.1, movedAllTo_cons, List.map_cons]

private theorem mem_allForMessage_iff_find? {draft : IsDraft} :
    d ∈ allForMessage db draft msgId ↔
      ∃ r, db.attachments.find? (draft, msgId, d.row.index) = some r ∧ ofRow r = d := by
  rw [mem_allForMessage]
  constructor
  · rintro ⟨r, hr, ⟨hdraft, hmsg⟩, rfl⟩
    refine ⟨r, ?_, rfl⟩
    rw [Table.find?_eq_some]
    exact ⟨hr, Prod.ext hdraft (Prod.ext hmsg rfl)⟩
  · rintro ⟨r, hr, rfl⟩
    obtain ⟨hmem, hkey⟩ := Table.find?_eq_some.mp hr
    exact ⟨r, hmem, ⟨congrArg Prod.fst hkey, congrArg (fun k => k.2.1) hkey⟩, rfl⟩

theorem mem_of_draftRow {index : IdType} (h : (draftRow db convId index).isSome = true) :
    index ∈ (allForMessage db true convId).map fun d => d.row.index := by
  obtain ⟨r, hr⟩ := Option.isSome_iff_exists.mp h
  obtain ⟨hmem, hdraft, hconv, hindex⟩ := draftRow_eq_some.mp hr
  exact List.mem_map.mpr ⟨ofRow r, mem_allForMessage.mpr ⟨r, hmem, ⟨hdraft, hconv⟩, rfl⟩, hindex⟩

theorem draftRow_eq_none_of_notMem {index : IdType}
    (h : index ∉ (allForMessage db true convId).map fun d => d.row.index) : draftRow db convId index = none := by
  cases hrow : draftRow db convId index with
  | none => rfl
  | some r => exact absurd (mem_of_draftRow (by rw [hrow]; rfl)) h

/-- The attachments are in the order of their indices. -/
theorem pairwise_allForMessage (db : Db) (draft : IsDraft) (msgId : IdType) :
    (allForMessage db draft msgId).Pairwise (fun d d' => d.row.index < d'.row.index) := by
  have : Std.Total (fun r r' : AttachmentRow => r.index ≤ r'.index) := ⟨fun r r' => Nat.le_total r.index r'.index⟩
  have : IsTrans AttachmentRow (fun r r' => r.index ≤ r'.index) := ⟨fun r r' r'' => Nat.le_trans⟩
  have hmem : ∀ r, r ∈ (db.attachments.select (fun r => r.draft == draft && r.messageId == msgId)).insertionSort
      (fun r r' => r.index ≤ r'.index) → r ∈ db.attachments ∧ r.draft = draft ∧ r.messageId = msgId := by
    intro r hr
    simpa using hr
  have hnodup : ((db.attachments.select (fun r => r.draft == draft && r.messageId == msgId)).insertionSort
      (fun r r' => r.index ≤ r'.index)).Nodup := by
    rw [(List.perm_insertionSort _ _).nodup_iff]
    exact (List.Nodup.of_map _ db.attachments.nodup).filter _
  unfold allForMessage
  rw [List.pairwise_map]
  have hsorted := List.pairwise_insertionSort (fun r r' : AttachmentRow => r.index ≤ r'.index)
    (db.attachments.select (fun r => r.draft == draft && r.messageId == msgId))
  refine (hsorted.and hnodup).imp_of_mem ?_
  rintro r r' hr hr' ⟨hle, hne⟩
  obtain ⟨hr, hdraft, hmsg⟩ := hmem r hr
  obtain ⟨hr', hdraft', hmsg'⟩ := hmem r' hr'
  refine Nat.lt_of_le_of_ne hle ?_
  intro hindex
  apply hne
  apply Table.eq_of_key_eq hr hr'
  exact Prod.ext (hdraft.trans hdraft'.symm) (Prod.ext (hmsg.trans hmsg'.symm) hindex)

/-- The attachments of a draft have become those of a message. -/
structure MovedAll (convId msgId : IdType) (db db' : Db) : Prop where
  rows : ∀ index row, db.attachments.find? (true, convId, index) = some row →
    db'.attachments.find? (true, convId, index) = none ∧
      db'.attachments.find? (false, msgId, index) = some (convertedRow msgId row)
  contents : ∀ index c, db.attachmentsContent.find? (true, convId, index) = some c →
    db'.attachmentsContent.find? (true, convId, index) = none ∧
      db'.attachmentsContent.find? (false, msgId, index) = some (convertedContent msgId c)
  order : (allForMessage db' false msgId).filter
      (fun d => (db.attachments.find? (true, convId, d.row.index)).isSome) =
    (allForMessage db true convId).map fun d => ofRow (convertedRow msgId d.row)

private theorem convertAll_moved (hdb : Paired db) (h : convertAll db convId msgId = .ok db') : MovedAll convId msgId db db' := by
  have hds : ∀ d ∈ allForMessage db true convId, d.row.messageId = convId := by
    intro d hd
    obtain ⟨r, -, ⟨-, hconv⟩, rfl⟩ := mem_allForMessage.mp hd
    exact hconv
  have hrows := foldlM_convert_find (fun d db db' h => (convert_eq_ok_find h).2.1) hds h
  have hcontents := foldlM_convert_find (fun d db db' h => (convert_eq_ok_find h).2.2) hds h
  -- every draft attachment of the conversation is among the converted ones
  have hindices : ∀ index, index ∈ (allForMessage db true convId).map (fun d => d.row.index) ↔
      (db.attachments.find? (true, convId, index)).isSome = true := by
    intro index
    rw [List.mem_map, Option.isSome_iff_exists]
    constructor
    · rintro ⟨d, hd, rfl⟩
      obtain ⟨r, hr, -⟩ := mem_allForMessage_iff_find?.mp hd
      exact ⟨r, hr⟩
    · rintro ⟨r, hr⟩
      have hkey : r.key = (true, convId, index) := Table.key_of_find? hr
      have hindex : r.index = index := congrArg (fun k => k.2.2) hkey
      refine ⟨ofRow r, mem_allForMessage_iff_find?.mpr ⟨r, ?_, rfl⟩, hindex⟩
      have hof : (ofRow r).row.index = index := hindex
      rw [hof, hr]
  have hmovedRow : ∀ index row, db.attachments.find? (true, convId, index) = some row →
      db'.attachments.find? (false, msgId, index) = some (convertedRow msgId row) := by
    intro index row hrow
    have hmem := (hindices index).mpr (Option.isSome_iff_exists.mpr ⟨row, hrow⟩)
    rw [hrows, movedAllTo, if_neg (by simp), if_pos ⟨rfl, rfl, hmem⟩, hrow]
    rfl
  refine ⟨?_, ?_, ?_⟩
  · intro index row hrow
    have hmem := (hindices index).mpr (Option.isSome_iff_exists.mpr ⟨row, hrow⟩)
    refine ⟨?_, hmovedRow index row hrow⟩
    rw [hrows, movedAllTo, if_pos ⟨rfl, rfl, hmem⟩]
  · intro index c hc
    have hmem := (hindices index).mpr (by rw [hdb, hc]; rfl)
    constructor
    · rw [hcontents, movedAllTo, if_pos ⟨rfl, rfl, hmem⟩]
    · rw [hcontents, movedAllTo, if_neg (by simp), if_pos ⟨rfl, rfl, hmem⟩, hc]
      rfl
  -- both lists are sorted by their index, so the same members make the same list
  · have : Std.Antisymm (fun d d' : AttachmentDao => d.row.index < d'.row.index) :=
      ⟨fun d d' h h' => absurd h' (Nat.lt_asymm h)⟩
    have : Std.Irrefl (fun d d' : AttachmentDao => d.row.index < d'.row.index) := ⟨fun d => Nat.lt_irrefl d.row.index⟩
    have hleft := (pairwise_allForMessage db' false msgId).filter
      (fun d => (db.attachments.find? (true, convId, d.row.index)).isSome)
    have hright : ((allForMessage db true convId).map fun d => ofRow (convertedRow msgId d.row)).Pairwise
        (fun d d' => d.row.index < d'.row.index) := by
      rw [List.pairwise_map]
      exact pairwise_allForMessage db true convId
    refine hleft.eq_of_mem_iff hright ?_
    intro d
    rw [List.mem_filter, mem_allForMessage_iff_find?, List.mem_map]
    constructor
    · rintro ⟨⟨r, hr, hd⟩, hsome⟩
      obtain ⟨row, hrow⟩ := Option.isSome_iff_exists.mp hsome
      have hkey : row.key = (true, convId, d.row.index) := Table.key_of_find? hrow
      have hindex : row.index = d.row.index := congrArg (fun k => k.2.2) hkey
      rw [hmovedRow _ row hrow] at hr
      cases hr
      refine ⟨ofRow row, mem_allForMessage_iff_find?.mpr ⟨row, ?_, rfl⟩, hd⟩
      have hof : (ofRow row).row.index = d.row.index := hindex
      rw [hof, hrow]
    · rintro ⟨d₀, hd₀, rfl⟩
      obtain ⟨row, hrow, rfl⟩ := mem_allForMessage_iff_find?.mp hd₀
      exact ⟨⟨convertedRow msgId row, hmovedRow _ row hrow, rfl⟩, Option.isSome_iff_exists.mpr ⟨row, hrow⟩⟩

/-! ### The run -/

/-- One operation keeps the tables paired and leaves the keys alone that it is not for. -/
theorem step_paired {op : AttachmentOp} (hdb : Paired db) (h : op.Step db db') :
    Paired db' ∧ ∀ k, ¬ op.Touches k → SameAt db db' k := by
  rcases h with h | ⟨-, rfl⟩
  · cases op with
    | save d deleted =>
      cases deleted with
      | true =>
        cases h
        exact ⟨hdb, fun _ _ => ⟨rfl, rfl⟩⟩
      | false => exact save_paired hdb h
    | setContent d callback input =>
      simp only [AttachmentOp.perform] at h
      split at h
      · next given db₁ hset =>
        cases h
        obtain ⟨content, rfl⟩ := setContent_eq_ok hset
        exact setContent_paired hdb d.row.key content
      · cases h
    | convertToMessageAttachment d msgId =>
      obtain ⟨hpaired, hothers⟩ := convert_paired hdb h
      refine ⟨hpaired, ?_⟩
      intro k hk
      exact hothers k (fun heq => hk (.inl heq)) (fun heq => hk (.inr heq))
    | deletePermanently d deleted =>
      cases h
      cases deleted with
      | true => exact ⟨hdb, fun _ _ => ⟨rfl, rfl⟩⟩
      | false =>
        obtain ⟨hpaired, hothers⟩ := @delete_paired db hdb (fun k => k == d.row.key) _ _ rfl rfl
        refine ⟨hpaired, ?_⟩
        intro k hk
        exact hothers k (beq_false_of_ne hk)
    | deleteAttachments draft messageId =>
      cases h
      obtain ⟨hpaired, hothers⟩ :=
        @delete_paired db hdb (fun k => k.1 == draft && k.2.1 == messageId) _ _ rfl rfl
      refine ⟨hpaired, ?_⟩
      intro k hk
      apply hothers k
      rw [Bool.and_eq_false_iff, beq_eq_false_iff_ne, beq_eq_false_iff_ne]
      by_contra hboth
      rw [not_or, not_not, not_not] at hboth
      exact hk hboth
  · exact ⟨hdb, fun _ _ => ⟨rfl, rfl⟩⟩

/-- In every state of a run the tables are paired, an operation leaves the other keys alone, and the attachments of a
draft are converted with their contents and in their order. -/
theorem attachments_paired (hdb : Paired db)
    (h : Transition.Reaches AttachmentOp.Step (fun _ _ => True) db db') :
    Paired db' ∧
      (∀ op db'', AttachmentOp.Step db' op db'' → ∀ k, ¬ op.Touches k → SameAt db' db'' k) ∧
      ∀ convId msgId db'', convertAll db' convId msgId = .ok db'' → MovedAll convId msgId db' db'' := by
  have hpaired : Paired db' := h.keeps (fun _ _ _ hs _ hstep => (step_paired hs hstep).1) hdb
  refine ⟨hpaired, ?_, ?_⟩
  · intro op db'' hstep
    exact (step_paired hpaired hstep).2
  · intro convId msgId db'' hconvert
    exact convertAll_moved hpaired hconvert

private def firstRow : AttachmentRow := ⟨true, 1, 0, "a", "text/plain", 2, "", ""⟩

private def secondRow : AttachmentRow := ⟨true, 1, 1, "b", "text/plain", 3, "", ""⟩

/-- The first attachment with its content. -/
private def firstStored : Db where
  attachments := ⟨[firstRow], by simp⟩
  attachmentsContent := ⟨[⟨true, 1, 0, some [7, 8]⟩], by simp⟩

/-- The second one is saved, without its content. -/
private def secondSaved : Db where
  attachments := ⟨[firstRow, secondRow], by decide⟩
  attachmentsContent := ⟨[⟨true, 1, 0, some [7, 8]⟩, ⟨true, 1, 1, none⟩], by decide⟩

/-- A draft with two attachments and their contents. -/
def twoAttachments : Db where
  attachments := ⟨[firstRow, secondRow], by decide⟩
  attachmentsContent := ⟨[⟨true, 1, 0, some [7, 8]⟩, ⟨true, 1, 1, some [4, 5, 6]⟩], by decide⟩

/-- Each attachment is saved and then gets its content. -/
private theorem twoAttachments_reached :
    Transition.Reaches AttachmentOp.Step (fun _ _ => True) {} twoAttachments := by
  have h₁ : Transition.Reaches AttachmentOp.Step (fun _ _ => True) {} (oneAttachment 2) :=
    .snoc (a := .save ⟨firstRow, true, false⟩ false) .refl trivial (.inl (by decide +kernel))
  have h₂ : Transition.Reaches AttachmentOp.Step (fun _ _ => True) {} firstStored :=
    h₁.snoc (a := .setContent (ofRow firstRow) (fun _ => .ok ()) { rest := [7, 8] }) trivial
      (.inl (by decide +kernel))
  have h₃ : Transition.Reaches AttachmentOp.Step (fun _ _ => True) {} secondSaved :=
    h₂.snoc (a := .save ⟨secondRow, true, false⟩ false) trivial (.inl (by decide +kernel))
  exact h₃.snoc (a := .setContent (ofRow secondRow) (fun _ => .ok ()) { rest := [4, 5, 6] }) trivial
    (.inl (by decide +kernel))

/-- One of the two is converted, both are, and one is deleted. -/
theorem attachments_paired_twoAttachments :
    Paired twoAttachments ∧
      (∃ db, (ofRow firstRow).convertToMessageAttachment 9 twoAttachments = .ok db ∧ Paired db ∧
        SameAt twoAttachments db (true, 1, 1)) ∧
      (∃ db, convertAll twoAttachments 1 9 = .ok db ∧ MovedAll 1 9 twoAttachments db) ∧
      Paired ((ofRow firstRow).deletePermanently twoAttachments) := by
  obtain ⟨hpaired, hothers, hmoved⟩ := attachments_paired (fun _ => rfl) twoAttachments_reached
  refine ⟨hpaired, ?_, ?_, ?_⟩
  · obtain ⟨db, hdb⟩ : ∃ db, (ofRow firstRow).convertToMessageAttachment 9 twoAttachments = .ok db := ⟨_, rfl⟩
    have hstep : AttachmentOp.Step twoAttachments (.convertToMessageAttachment (ofRow firstRow) 9) db := .inl hdb
    exact ⟨db, hdb, (attachments_paired (fun _ => rfl) (twoAttachments_reached.snoc trivial hstep)).1,
      hothers _ db hstep _ (by rintro (h | h) <;> cases h)⟩
  · obtain ⟨db, hdb⟩ : ∃ db, convertAll twoAttachments 1 9 = .ok db := ⟨_, rfl⟩
    exact ⟨db, hdb, hmoved 1 9 db hdb⟩
  · have hstep : AttachmentOp.Step twoAttachments (.deletePermanently (ofRow firstRow) false) _ := .inl rfl
    exact (attachments_paired (fun _ => rfl) (twoAttachments_reached.snoc trivial hstep)).1

end AttachmentDao

end KulloClient
