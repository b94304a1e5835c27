import KulloClient.ApiImpl.Events
import KulloClient.Codec.AttachmentFilters
import KulloClient.Dao.AttachmentPairs
import Mathlib.Logic.Function.Basic

/-!
# DraftAttachmentsImpl

The attachments of the drafts: the job that adds one, on a thread of its own, and what the main thread has cached.  The
index of an attachment that was removed is given to a new one, if it was the last.
-/

namespace KulloClient

open Relational (Table)
open Imperative

/-! ### DraftAttachmentsAddWorker -/

/-- The file that a job adds. -/
structure DraftFile where
  filename : String
  mimeType : String
  /-- Whether there is a regular file at the path. -/
  regular : Bool := true
  size : Nat
  content : InputStream

namespace DraftAttachmentsAddWorker

/-- The transaction that copies the file: the index of the attachment. -/
def store (hexDigest : Bytes → String) (listener : ContentCallback) (convId : IdType) (file : DraftFile) (db : Db) :
    Except Exn (IdType × Db) := do
  let attachmentId := AttachmentDao.idForNewDraftAttachment db convId
  let dao := ((AttachmentDao.new true convId attachmentId).setFilename file.filename).setMimeType file.mimeType
  let dao := dao.setSize file.size
  let db ← dao.save db
  match dao.setContent listener file.content db with
  | .error e _ => .error e
  | .ok given db => do
    let db ← (({ dao with dirty := false, storedInDb := true } : AttachmentDao).setHash (hexDigest given.flatten)).save db
    .ok (attachmentId, db)

/-- The checks before the transaction, with the size of the existing attachments as it was read. -/
def check (file : DraftFile) (sizeOfExisting : Nat) : Bool :=
  file.regular && decide (sizeOfExisting + file.size ≤ messageAttachmentsMaxBytes)

/-- `work`; what it raises is caught.  The size of the existing attachments was read before the transaction. -/
def work (hexDigest : Bytes → String) (listener : ContentCallback) (convId : IdType) (file : DraftFile)
    (sizeOfExisting : Nat) (db : Db) : Option (IdType × Db) :=
  if check file sizeOfExisting then (store hexDigest listener convId file db).toOption else none

/-- A job that is done has added one attachment, behind those of the other keys. -/
theorem store_eq_ok {hexDigest : Bytes → String} {listener : ContentCallback} {convId attId : IdType} {file : DraftFile}
    {db db' : Db} (h : store hexDigest listener convId file db = .ok (attId, db')) :
    attId = AttachmentDao.idForNewDraftAttachment db convId ∧
      ∃ row : AttachmentRow, row.key = (true, convId, attId) ∧ row.size = file.size ∧
        db'.attachments.rows = db.attachments.rows ++ [row] := by
  unfold store at h
  dsimp only at h
  generalize hdao : (((AttachmentDao.new true convId (AttachmentDao.idForNewDraftAttachment db convId)).setFilename
    file.filename).setMimeType file.mimeType).setSize file.size = dao at h
  have hrow : dao.row = ⟨true, convId, AttachmentDao.idForNewDraftAttachment db convId, file.filename, file.mimeType,
      file.size, "", ""⟩ := by
    rw [← hdao]
    simp [AttachmentDao.new]
  have hkey : dao.row.key = (true, convId, AttachmentDao.idForNewDraftAttachment db convId) := by
    rw [hrow]
    rfl
  obtain ⟨db₁, hsave, h⟩ := bind_eq_ok.mp h
  have hnew : dao.IsNew := by
    have hfirst : (AttachmentDao.new true convId (AttachmentDao.idForNewDraftAttachment db convId)).IsNew := ⟨rfl, rfl⟩
    rw [← hdao]
    exact hfirst.assign.assign.assign
  have hinserted := (hnew.save_eq_ok hsave).1
  cases hcontent : dao.setContent listener file.content db₁ with
  | error e db₂ =>
    rw [hcontent] at h
    cases h
  | ok given db₂ =>
    rw [hcontent] at h
    obtain ⟨db₃, hhash, h⟩ := bind_eq_ok.mp h
    cases h
    obtain ⟨bytes, rfl⟩ := AttachmentDao.setContent_eq_ok hcontent
    have hrows : (setContent db₁ dao.row.key bytes).attachments.rows = db.attachments.rows ++ [dao.row] := hinserted
    refine ⟨rfl, _, ?_, ?_, AttachmentDao.save_setHash_eq_ok hrows hhash⟩
    · exact hkey
    · rw [hrow]

end DraftAttachmentsAddWorker

theorem draftRow_of_rows_append {db db' : Db} {row : AttachmentRow} {convId attId : IdType}
    (hkey : row.key = (true, convId, attId)) (hrows : db'.attachments.rows = db.attachments.rows ++ [row])
    (hfree : AttachmentDao.draftRow db convId attId = none) (convId' attId' : IdType) :
    AttachmentDao.draftRow db' convId' attId' =
      if (convId, attId) = (convId', attId') then some row else AttachmentDao.draftRow db convId' attId' := by
  unfold AttachmentDao.draftRow
  rw [Table.find?_of_rows_append hrows, hkey]
  by_cases hid : (convId, attId) = (convId', attId')
  · cases hid
    rw [if_pos rfl, if_pos rfl]
    exact congrArg (fun found => Option.or found (some row)) hfree
  · have hne : ¬ ((true, convId, attId) : AttachmentKey) = (true, convId', attId') := fun heq => hid (congrArg Prod.snd heq)
    rw [if_neg hid, if_neg hne, Option.or_none]

/-! ### The cache -/

structure DraftAttachmentsImpl where
  attIds : IdType → List IdType := fun _ => []
  attachments : Table (fun dao : AttachmentDao => (dao.row.messageId, dao.row.index)) := ∅

inductive AlsoRemoveFromDb
  | yes
  | no
  deriving DecidableEq

namespace DraftAttachmentsImpl

/-- What the constructor does with an attachment of the database. -/
def emplace (c : DraftAttachmentsImpl) (dao : AttachmentDao) : DraftAttachmentsImpl where
  attIds := Function.update c.attIds dao.row.messageId (c.attIds dao.row.messageId ++ [dao.row.index])
  attachments := c.attachments.insertOrIgnore dao

/-- The constructor. -/
def construct (db : Db) : DraftAttachmentsImpl := (AttachmentDao.all db true).foldl emplace {}

def allForDraft (c : DraftAttachmentsImpl) (convId : IdType) : Except Exn (List IdType) := do
  assertId convId "convId"
  .ok (c.attIds convId)

/-- What an operation or a handler leaves behind, with the exception it ends with. -/
structure Effect where
  impl : DraftAttachmentsImpl
  db : Db
  apiEvents : List ApiEvent := []
  raised : Option Exn := none

/-- An attachment that is not cached. -/
def notLoaded (convId attId : IdType) : Exn :=
  .databaseIntegrityError ("DraftAttachmentsImpl::draftAttachmentAdded: Couldn't load attachment (conversationId: " ++
    toString convId ++ "; attachmentId: " ++ toString attId ++ ")")

def draftAttachmentAdded (c : DraftAttachmentsImpl) (db : Db) (convId attId : IdType) : Effect :=
  match AttachmentDao.load db true convId attId with
  | none => { impl := c, db := db, raised := some (notLoaded convId attId) }
  | some dao =>
    { impl :=
        { attIds := Function.update c.attIds convId (c.attIds convId ++ [attId])
          attachments := c.attachments.insertOrIgnore dao }
      db := db
      apiEvents := [{ event := .draftAttachmentAdded, conversationId := convId, attachmentId := attId }] }

/-- `doRemove`; the row is deleted before the assertion on the ids of the draft. -/
def doRemove (c : DraftAttachmentsImpl) (db : Db) (convId attId : IdType) (removeFromDb : AlsoRemoveFromDb) : Effect :=
  match c.attachments.find? (convId, attId) with
  | none => { impl := c, db := db }
  | some dao =>
    let db := if removeFromDb = .yes then dao.deletePermanently db else db
    let attachments := c.attachments.deleteWhere (fun dao => (dao.row.messageId, dao.row.index) == (convId, attId))
    let idsForConv := c.attIds convId
    if idsForConv.contains attId then
      { impl := { attIds := Function.update c.attIds convId (idsForConv.erase attId), attachments := attachments }
        db := db
        apiEvents := [{ event := .draftAttachmentRemoved, conversationId := convId, attachmentId := attId }] }
    else
      { impl := { c with attachments := attachments }
        db := db
        raised := some (.assertionFailed "idIter != idsForConv.end()") }

/-- `remove`; an assertion on the ids is for the caller. -/
def remove (c : DraftAttachmentsImpl) (db : Db) (convId attId : IdType) : Except Exn Effect := do
  assertId convId "convId"
  assertId attId "attId"
  .ok (c.doRemove db convId attId .yes)

def draftAttachmentRemoved (c : DraftAttachmentsImpl) (db : Db) (convId attId : IdType) : Effect :=
  c.doRemove db convId attId .no

/-- The loop of `draftRemoved`. -/
def removeAll (c : DraftAttachmentsImpl) (db : Db) (convId : IdType) : List IdType → Effect
  | [] => { impl := c, db := db }
  | attId :: attIds =>
    let first := c.doRemove db convId attId .yes
    match first.raised with
    | some _ => first
    | none =>
      let rest := removeAll first.impl first.db convId attIds
      { rest with apiEvents := first.apiEvents ++ rest.apiEvents }

def draftRemoved (c : DraftAttachmentsImpl) (db : Db) (convId : IdType) : Effect :=
  match c.allForDraft convId with
  | .error e => { impl := c, db := db, raised := some e }
  | .ok attIds => c.removeAll db convId attIds

/-- The event a handler is called for; events for the other listeners change nothing here. -/
def notify (c : DraftAttachmentsImpl) (db : Db) : Event → Effect
  | .draftAttachmentAdded convId attId => c.draftAttachmentAdded db convId attId
  | .draftAttachmentRemoved convId attId => c.draftAttachmentRemoved db convId attId
  | .draftRemoved convId => c.draftRemoved db convId
  | _ => { impl := c, db := db }

/-! ### The two maps -/

/-- The ids of a draft are those of its cached attachments, each once. -/
def Listed (c : DraftAttachmentsImpl) : Prop :=
  ∀ convId attId, (c.attIds convId).count attId = if (c.attachments.find? (convId, attId)).isSome then 1 else 0

variable {c : DraftAttachmentsImpl} {dao : AttachmentDao}

theorem listed_empty : Listed {} := by
  intro convId attId
  rfl

/-- The cache with one more attachment. -/
theorem Listed.emplace (h : c.Listed) (hfree : c.attachments.find? (dao.row.messageId, dao.row.index) = none) :
    (c.emplace dao).Listed := by
  intro convId attId
  unfold DraftAttachmentsImpl.emplace
  dsimp only
  rw [Table.find?_insertOrIgnore]
  by_cases hconv : dao.row.messageId = convId
  · subst hconv
    rw [Function.update_self, List.count_append, h]
    by_cases hid : dao.row.index = attId
    · subst hid
      simp [hfree]
    · have hne : (dao.row.index == attId) = false := by simpa using hid
      have hkey : ¬ (dao.row.messageId, dao.row.index) = (dao.row.messageId, attId) :=
        fun heq => hid (congrArg Prod.snd heq)
      rw [if_neg hkey, List.count_singleton, hne]
      rfl
  · have hkey : ¬ (dao.row.messageId, dao.row.index) = (convId, attId) := fun heq => hconv (congrArg Prod.fst heq)
    rw [if_neg hkey, Function.update_of_ne (Ne.symm hconv), h]

/-- The cache without an attachment. -/
def erase (c : DraftAttachmentsImpl) (convId attId : IdType) : DraftAttachmentsImpl where
  attIds := Function.update c.attIds convId ((c.attIds convId).erase attId)
  attachments := c.attachments.deleteWhere (fun dao => (dao.row.messageId, dao.row.index) == (convId, attId))

theorem key_of_find? {k : IdType × IdType} (h : c.attachments.find? k = some dao) :
    (dao.row.messageId, dao.row.index) = k := by
  have hkey := Table.key_of_find? h
  exact hkey

theorem find?_erase (c : DraftAttachmentsImpl) (convId attId : IdType) (k : IdType × IdType) :
    (c.erase convId attId).attachments.find? k = if (convId, attId) = k then none else c.attachments.find? k := by
  unfold erase
  rw [Table.find?_deleteWhere]
  cases hfind : c.attachments.find? k with
  | none => simp
  | some dao =>
    have hkey := key_of_find? hfind
    by_cases hid : (convId, attId) = k
    · simp [hid, hkey]
    · have hne : (k == (convId, attId)) = false := by simpa using Ne.symm hid
      rw [if_neg hid, Option.filter_some, hkey, hne]
      rfl

theorem Listed.erase (h : c.Listed) {convId attId : IdType} (hcached : (c.attachments.find? (convId, attId)).isSome) :
    (c.erase convId attId).Listed := by
  intro convId' attId'
  have hcount := h convId' attId'
  rw [find?_erase]
  unfold DraftAttachmentsImpl.erase
  dsimp only
  by_cases hconv : convId = convId'
  · subst hconv
    rw [Function.update_self]
    by_cases hid : attId = attId'
    · subst hid
      rw [List.count_erase_self, hcount, if_pos hcached, if_pos rfl]
      rfl
    · have hkey : ¬ (convId, attId) = (convId, attId') := fun heq => hid (congrArg Prod.snd heq)
      rw [List.count_erase_of_ne (Ne.symm hid), hcount, if_neg hkey]
  · have hkey : ¬ (convId, attId) = (convId', attId') := fun heq => hconv (congrArg Prod.fst heq)
    rw [Function.update_of_ne (Ne.symm hconv), hcount, if_neg hkey]

theorem doRemove_of_none {convId attId : IdType} {db : Db} {removeFromDb : AlsoRemoveFromDb}
    (h : c.attachments.find? (convId, attId) = none) :
    c.doRemove db convId attId removeFromDb = { impl := c, db := db } := by
  unfold doRemove
  rw [h]

/-- The assertion holds in a cache whose attachments are listed. -/
theorem Listed.doRemove (h : c.Listed) {convId attId : IdType} {db : Db} {removeFromDb : AlsoRemoveFromDb}
    (hcached : c.attachments.find? (convId, attId) = some dao) :
    c.doRemove db convId attId removeFromDb =
      { impl := c.erase convId attId
        db := if removeFromDb = .yes then dao.deletePermanently db else db
        apiEvents := [{ event := .draftAttachmentRemoved, conversationId := convId, attachmentId := attId }] } := by
  have hcount := h convId attId
  rw [hcached, Option.isSome_some, if_pos rfl] at hcount
  have hmem : (c.attIds convId).contains attId = true := by
    rw [List.contains_iff_mem]
    exact List.count_pos_iff.mp (by rw [hcount]; exact Nat.one_pos)
  unfold DraftAttachmentsImpl.doRemove
  rw [hcached]
  dsimp only
  rw [if_pos hmem]
  rfl

/-- The attachments with which the cache is constructed. -/
theorem foldl_emplace {daos : List AttachmentDao} (h : c.Listed)
    (hnodup : (daos.map fun dao => (dao.row.messageId, dao.row.index)).Nodup)
    (hfree : ∀ dao ∈ daos, c.attachments.find? (dao.row.messageId, dao.row.index) = none) :
    (daos.foldl DraftAttachmentsImpl.emplace c).Listed ∧
      ∀ k dao, (daos.foldl DraftAttachmentsImpl.emplace c).attachments.find? k = some dao ↔
        c.attachments.find? k = some dao ∨ dao ∈ daos ∧ (dao.row.messageId, dao.row.index) = k := by
  induction daos generalizing c with
  | nil => exact ⟨h, by simp⟩
  | cons dao daos ih =>
    rw [List.map_cons, List.nodup_cons] at hnodup
    have hhead := hfree dao List.mem_cons_self
    have hfind : ∀ k, (c.emplace dao).attachments.find? k =
        if (dao.row.messageId, dao.row.index) = k then some dao else c.attachments.find? k := by
      intro k
      unfold DraftAttachmentsImpl.emplace
      rw [Table.find?_insertOrIgnore]
      split
      · next hk => rw [← hk, hhead, Option.getD_none]
      · rfl
    have hrest : ∀ dao' ∈ daos, (c.emplace dao).attachments.find? (dao'.row.messageId, dao'.row.index) = none := by
      intro dao' hdao'
      rw [hfind, if_neg, hfree dao' (List.mem_cons_of_mem _ hdao')]
      intro hk
      rw [hk] at hnodup
      exact hnodup.1 (List.mem_map_of_mem hdao')
    obtain ⟨hlisted, hcached⟩ := ih (h.emplace hhead) hnodup.2 hrest
    refine ⟨hlisted, ?_⟩
    intro k dao'
    rw [List.foldl_cons, hcached, hfind, List.mem_cons]
    by_cases hk : (dao.row.messageId, dao.row.index) = k
    · rw [if_pos hk, ← hk, hhead]
      constructor
      · rintro (heq | ⟨hmem, hk'⟩)
        · cases heq
          exact .inr ⟨.inl rfl, rfl⟩
        · exact .inr ⟨.inr hmem, hk'⟩
      · rintro (heq | ⟨rfl | hmem, hk'⟩)
        · cases heq
        · exact .inl rfl
        · exact .inr ⟨hmem, hk'⟩
    · rw [if_neg hk]
      constructor
      · rintro (hold | ⟨hmem, hk'⟩)
        · exact .inl hold
        · exact .inr ⟨.inr hmem, hk'⟩
      · rintro (hold | ⟨rfl | hmem, hk'⟩)
        · exact .inl hold
        · exact absurd hk' hk
        · exact .inr ⟨hmem, hk'⟩

theorem listed_construct (db : Db) : (construct db).Listed :=
  (foldl_emplace listed_empty (AttachmentDao.nodup_all db true) fun _ _ => rfl).1

/-- The cache is constructed with the rows of the drafts. -/
theorem find?_construct (db : Db) (convId attId : IdType) :
    (construct db).attachments.find? (convId, attId) = (AttachmentDao.draftRow db convId attId).map AttachmentDao.ofRow := by
  apply Option.ext
  intro dao
  have hcached := (foldl_emplace listed_empty (AttachmentDao.nodup_all db true) fun _ _ => rfl).2 (convId, attId) dao
  refine hcached.trans ?_
  rw [Option.map_eq_some_iff, AttachmentDao.mem_all]
  constructor
  · rintro (hempty | ⟨⟨r, hr, hdraft, rfl⟩, hk⟩)
    · cases hempty
    · exact ⟨r, AttachmentDao.draftRow_eq_some.mpr ⟨hr, hdraft, congrArg Prod.fst hk, congrArg Prod.snd hk⟩, rfl⟩
  · rintro ⟨r, hr, rfl⟩
    obtain ⟨hmem, hdraft, hconv, hindex⟩ := AttachmentDao.draftRow_eq_some.mp hr
    exact .inr ⟨⟨r, hmem, hdraft, rfl⟩, Prod.ext hconv hindex⟩

end DraftAttachmentsImpl

end KulloClient
