import KulloClient.Dao.Conversation
import KulloClient.Util.Platform

/-!
# migrateTo8

The migration that takes the avatars out of the participants: a row of `senders` for each participant, and each avatar
once in `avatars`, under its hash.
-/

namespace KulloClient

open Relational (Table)

/-- A row of `participants` as version 6 left the table: only the avatar may be NULL. -/
structure ParticipantRow where
  messageId : IdType
  name : String
  address : String
  organization : String
  avatarMimeType : String
  avatar : Option Bytes

namespace ParticipantRow

/-- What is read of the column `avatar`. -/
def avatarBytes (r : ParticipantRow) : Bytes := r.avatar.getD []

/-- What `INSERT INTO senders SELECT` makes of a participant. -/
def toSenderRow (r : ParticipantRow) : SenderRow :=
  ⟨r.messageId, r.name, r.address, r.organization, r.avatarMimeType, none⟩

end ParticipantRow

namespace Migration

variable (P : Platform)

def insertSenders (participants : Table ParticipantRow.messageId) : Except Exn (Table SenderRow.messageId) :=
  participants.rows.foldlM (fun senders row => insertRow senders row.toSenderRow) ∅

/-- A round of the loop over `SELECT message_id, avatar FROM participants`. -/
def migrateAvatar (db : Db) (row : ParticipantRow) : Db :=
  let avatar := row.avatarBytes
  if !avatar.isEmpty then
    let hash := P.eightByteHash avatar
    { db with
      avatars := db.avatars.insertOrIgnore ⟨hash, avatar⟩
      senders := db.senders.updateWhere (fun r => r.messageId == row.messageId)
        (fun r => { r with avatarHash := some hash }) fun _ => rfl }
  else db

/-- `migrateTo8`, from the table that it drops. -/
def migrateTo8 (participants : Table ParticipantRow.messageId) (db : Db) : Except Exn Db := do
  let senders ← insertSenders participants
  .ok (participants.rows.foldl (migrateAvatar P) { db with avatars := ∅, senders := senders })

/-! ### The senders without avatars -/

private theorem foldlM_insertRow {rows : List ParticipantRow} (senders : Table SenderRow.messageId)
    (h : ((senders.rows ++ rows.map ParticipantRow.toSenderRow).map SenderRow.messageId).Nodup) :
    ∃ senders', rows.foldlM (fun senders row => insertRow senders row.toSenderRow) senders = .ok senders' ∧
      senders'.rows = senders.rows ++ rows.map ParticipantRow.toSenderRow := by
  induction rows generalizing senders with
  | nil => exact ⟨senders, rfl, by simp⟩
  | cons row rows ih =>
    have hfree : senders.find? row.toSenderRow.messageId = none := by
      rw [Table.find?_eq_none]
      intro r hr hid
      rw [List.map_append, List.nodup_append] at h
      exact h.2.2 r.messageId (List.mem_map_of_mem hr) row.toSenderRow.messageId (by simp) hid
    have hrows : (senders.insert row.toSenderRow hfree).rows = senders.rows ++ [row.toSenderRow] := rfl
    rw [List.foldlM_cons, insertRow_of_find? hfree, Imperative.ok_bind]
    obtain ⟨senders', hfold, heq⟩ := ih (senders.insert row.toSenderRow hfree) (by
      rw [hrows]
      simpa using h)
    refine ⟨senders', hfold, ?_⟩
    rw [heq, hrows]
    simp

private theorem insertSenders_eq (participants : Table ParticipantRow.messageId) :
    ∃ senders, insertSenders participants = .ok senders ∧
      senders.rows = participants.rows.map ParticipantRow.toSenderRow := by
  have hkeys : (participants.rows.map ParticipantRow.toSenderRow).map SenderRow.messageId =
      participants.rows.map ParticipantRow.messageId := by
    rw [List.map_map]
    rfl
  have hnodup := participants.nodup
  rw [← hkeys] at hnodup
  obtain ⟨senders, hfold, hrows⟩ := foldlM_insertRow ∅ hnodup
  exact ⟨senders, hfold, hrows⟩

/-! ### The loop -/

/-- The sender that a participant becomes. -/
def migrated (row : ParticipantRow) : SenderRow :=
  { row.toSenderRow with avatarHash := if row.avatarBytes = [] then none else some (P.eightByteHash row.avatarBytes) }

variable {P}

/-- What holds between the rounds, after the participants `done` and before those of `rest`. -/
structure LoopInv (P : Platform) (done rest : List ParticipantRow) (db : Db) : Prop where
  keys : db.senders.rows.map SenderRow.messageId = (done ++ rest).map ParticipantRow.messageId
  written : ∀ p ∈ done, db.senders.find? p.messageId = some (migrated P p)
  pending : ∀ p ∈ rest, db.senders.find? p.messageId = some p.toSenderRow
  stored : ∀ p ∈ done, p.avatarBytes ≠ [] → ∃ a ∈ db.avatars, a.hash = P.eightByteHash p.avatarBytes
  avatars : ∀ a ∈ db.avatars, a.hash = P.eightByteHash a.avatar ∧ a.avatar ≠ [] ∧ ∃ p ∈ done, p.avatarBytes = a.avatar

theorem LoopInv.step {done rest : List ParticipantRow} {row : ParticipantRow} {db : Db}
    (h : LoopInv P done (row :: rest) db) (hnodup : ((done ++ row :: rest).map ParticipantRow.messageId).Nodup) :
    LoopInv P (done ++ [row]) rest (migrateAvatar P db row) := by
  have hkeys : (done ++ [row] ++ rest).map ParticipantRow.messageId =
      (done ++ row :: rest).map ParticipantRow.messageId := by simp
  -- the rows of the others have other ids
  have hother : ∀ p, p ∈ done ∨ p ∈ rest → p.messageId ≠ row.messageId := by
    intro p hp heq
    rw [List.map_append, List.map_cons, List.nodup_append, List.nodup_cons] at hnodup
    rcases hp with hp | hp
    · exact hnodup.2.2 p.messageId (List.mem_map_of_mem hp) row.messageId List.mem_cons_self heq
    · exact hnodup.2.1.1 (heq ▸ List.mem_map_of_mem hp)
  unfold migrateAvatar
  -- without an avatar the row stays as it was copied
  by_cases hempty : row.avatarBytes = []
  · have hsender : migrated P row = row.toSenderRow := by
      unfold migrated
      rw [if_pos hempty]
      rfl
    rw [hempty]
    simp only [List.isEmpty_nil, Bool.not_true, Bool.false_eq_true, if_false]
    constructor
    · rw [hkeys, h.keys]
    · intro p hp
      rcases List.mem_append.mp hp with hp | hp
      · exact h.written p hp
      · rw [List.mem_singleton.mp hp, hsender]
        exact h.pending row List.mem_cons_self
    · intro p hp
      exact h.pending p (List.mem_cons_of_mem row hp)
    · intro p hp hne
      rcases List.mem_append.mp hp with hp | hp
      · exact h.stored p hp hne
      · rw [List.mem_singleton.mp hp] at hne
        exact absurd hempty hne
    · intro a ha
      obtain ⟨hhash, hne, p, hp, heq⟩ := h.avatars a ha
      exact ⟨hhash, hne, p, List.mem_append_left [row] hp, heq⟩
  · have hnonempty : (!row.avatarBytes.isEmpty) = true := by simpa using hempty
    have hupdate : ∀ p, p ∈ done ∨ p ∈ rest → (p.messageId == row.messageId) = false := by
      intro p hp
      simpa using hother p hp
    rw [if_pos hnonempty]
    constructor
    · rw [hkeys]
      dsimp only
      rw [Table.keys_updateWhere, h.keys]
    · intro p hp
      dsimp only
      rw [Table.find?_updateWhere]
      rcases List.mem_append.mp hp with hp | hp
      · have hid : (migrated P p).messageId = p.messageId := rfl
        rw [h.written p hp, Option.map_some, hid, hupdate p (.inl hp)]
        rfl
      · rw [List.mem_singleton.mp hp, h.pending row List.mem_cons_self, Option.map_some]
        have hid : (row.toSenderRow.messageId == row.messageId) = true := beq_self_eq_true row.messageId
        rw [if_pos hid]
        unfold migrated
        rw [if_neg hempty]
    · intro p hp
      dsimp only
      have hid : p.toSenderRow.messageId = p.messageId := rfl
      rw [Table.find?_updateWhere, h.pending p (List.mem_cons_of_mem row hp), Option.map_some, hid, hupdate p (.inr hp)]
      rfl
    · intro p hp hne
      dsimp only
      have hmem : ∀ hash, (∃ a ∈ db.avatars, a.hash = hash) ∨ hash = P.eightByteHash row.avatarBytes →
          ∃ a ∈ db.avatars.insertOrIgnore ⟨P.eightByteHash row.avatarBytes, row.avatarBytes⟩, a.hash = hash := by
        intro hash hhash
        have hsome : (db.avatars.insertOrIgnore ⟨P.eightByteHash row.avatarBytes, row.avatarBytes⟩).find? hash ≠ none := by
          rw [Table.find?_insertOrIgnore]
          split
          · simp
          · next hne =>
            rcases hhash with ⟨a, ha, hhash⟩ | hhash
            · rw [← hhash, Table.mem_iff_find?.mp ha]
              simp
            · exact absurd hhash.symm hne
        obtain ⟨a, ha⟩ := Option.ne_none_iff_exists'.mp hsome
        exact ⟨a, Table.mem_of_find? ha, Table.key_of_find? ha⟩
      rcases List.mem_append.mp hp with hp | hp
      · exact hmem _ (.inl (h.stored p hp hne))
      · rw [List.mem_singleton.mp hp]
        exact hmem _ (.inr rfl)
    · intro a ha
      rcases Table.mem_of_insertOrIgnore ha with ha | rfl
      · obtain ⟨hhash, hne, p, hp, heq⟩ := h.avatars a ha
        exact ⟨hhash, hne, p, List.mem_append_left [row] hp, heq⟩
      · exact ⟨rfl, hempty, row, by simp, rfl⟩

theorem LoopInv.run {rest done : List ParticipantRow} {db : Db} (h : LoopInv P done rest db)
    (hnodup : ((done ++ rest).map ParticipantRow.messageId).Nodup) :
    LoopInv P (done ++ rest) [] (rest.foldl (migrateAvatar P) db) := by
  induction rest generalizing done db with
  | nil => simpa using h
  | cons row rest ih =>
    have hsplit : done ++ row :: rest = done ++ [row] ++ rest := by simp
    have hstep := h.step hnodup
    rw [hsplit] at hnodup ⊢
    exact ih hstep hnodup

/-! ### The whole migration -/

/-- The hashes of different avatars of the table are different. -/
def NoCollision (P : Platform) (participants : Table ParticipantRow.messageId) : Prop :=
  ∀ p ∈ participants.rows, ∀ q ∈ participants.rows, p.avatarBytes ≠ [] → q.avatarBytes ≠ [] →
    P.eightByteHash p.avatarBytes = P.eightByteHash q.avatarBytes → p.avatarBytes = q.avatarBytes

instance (P : Platform) (participants : Table ParticipantRow.messageId) : Decidable (NoCollision P participants) :=
  inferInstanceAs (Decidable (∀ p ∈ participants.rows, ∀ q ∈ participants.rows, p.avatarBytes ≠ [] → q.avatarBytes ≠ [] →
    P.eightByteHash p.avatarBytes = P.eightByteHash q.avatarBytes → p.avatarBytes = q.avatarBytes))

private theorem migrateTo8_eq (participants : Table ParticipantRow.messageId) (db : Db) :
    ∃ db', migrateTo8 P participants db = .ok db' ∧ LoopInv P participants.rows [] db' := by
  obtain ⟨senders, hsenders, hrows⟩ := insertSenders_eq participants
  have hinv : LoopInv P [] participants.rows { db with avatars := ∅, senders := senders } := by
    constructor
    · dsimp only
      rw [hrows, List.map_map]
      rfl
    · intro p hp
      cases hp
    · intro p hp
      have hmem : p.toSenderRow ∈ senders := by
        rw [← Table.mem_rows, hrows]
        exact List.mem_map_of_mem hp
      exact Table.mem_iff_find?.mp hmem
    · intro p hp
      cases hp
    · intro a ha
      cases ha
  refine ⟨_, ?_, hinv.run participants.nodup⟩
  unfold migrateTo8
  rw [hsenders, Imperative.ok_bind]

/-- The other tables keep their rows. -/
theorem migrateTo8_frame {participants : Table ParticipantRow.messageId} {db db' : Db}
    (h : migrateTo8 P participants db = .ok db') : db' = { db with avatars := db'.avatars, senders := db'.senders } := by
  have hloop : ∀ (rows : List ParticipantRow) (db : Db), ∃ avatars senders,
      rows.foldl (migrateAvatar P) db = { db with avatars := avatars, senders := senders } := by
    intro rows
    induction rows with
    | nil => exact fun db => ⟨db.avatars, db.senders, rfl⟩
    | cons row rows ih =>
      intro db
      obtain ⟨avatars, senders, heq⟩ := ih (migrateAvatar P db row)
      refine ⟨avatars, senders, ?_⟩
      rw [List.foldl_cons, heq]
      unfold migrateAvatar
      dsimp only
      split <;> rfl
  unfold migrateTo8 at h
  obtain ⟨senders, -, h⟩ := Imperative.bind_eq_ok.mp h
  obtain ⟨avatars, senders', heq⟩ := hloop participants.rows { db with avatars := ∅, senders := senders }
  cases h
  rw [heq]

/-- The migration does not fail: every participant is a sender with the avatar it had, and no avatar is kept twice. -/
theorem migrateTo8_lossless {participants : Table ParticipantRow.messageId} (hcollision : NoCollision P participants)
    (db : Db) :
    ∃ db', migrateTo8 P participants db = .ok db' ∧
      db' = { db with avatars := db'.avatars, senders := db'.senders } ∧
      db'.senders.rows.map SenderRow.messageId = participants.rows.map ParticipantRow.messageId ∧
      (∀ p ∈ participants, ∃ s ∈ db'.senders, s.messageId = p.messageId ∧ s.name = p.name ∧ s.address = p.address ∧
        s.organization = p.organization ∧ s.avatarMimeType = p.avatarMimeType ∧
        (p.avatar = none ∨ p.avatar = some [] → s.avatarHash = none) ∧
        ∀ avatar, p.avatar = some avatar → avatar ≠ [] →
          ∃ hash, s.avatarHash = some hash ∧ AvatarDao.load db' hash = .ok avatar) ∧
      (db'.avatars.rows.map AvatarRow.avatar).Nodup ∧
      ∀ avatar, avatar ∈ db'.avatars.rows.map AvatarRow.avatar ↔ avatar ≠ [] ∧ ∃ p ∈ participants, p.avatar = some avatar := by
  obtain ⟨db', heq, h⟩ := @migrateTo8_eq P participants db
  have hsome : ∀ p : ParticipantRow, ∀ avatar, avatar ≠ [] → (p.avatarBytes = avatar ↔ p.avatar = some avatar) := by
    intro p avatar hne
    unfold ParticipantRow.avatarBytes
    cases hp : p.avatar with
    | none => simp [Ne.symm hne]
    | some a => simp
  -- the avatar under the hash of a participant is the participant's own, as no two collide
  have hstored : ∀ p ∈ participants, p.avatarBytes ≠ [] →
      db'.avatars.find? (P.eightByteHash p.avatarBytes) = some ⟨P.eightByteHash p.avatarBytes, p.avatarBytes⟩ := by
    intro p hp hne
    obtain ⟨a, ha, hhash⟩ := h.stored p hp hne
    obtain ⟨hhash', hane, q, hq, hqa⟩ := h.avatars a ha
    have havatar : a.avatar = p.avatarBytes := by
      rw [← hqa]
      exact hcollision q hq p hp (by rwa [hqa]) hne (by rw [hqa, ← hhash', hhash])
    have hrow : a = ⟨P.eightByteHash p.avatarBytes, p.avatarBytes⟩ := by
      obtain ⟨hash, avatar⟩ := a
      dsimp only at hhash havatar
      rw [hhash, havatar]
    rw [← hrow, ← hhash]
    exact Table.mem_iff_find?.mp ha
  refine ⟨db', heq, migrateTo8_frame heq, ?_, ?_, ?_, ?_⟩
  · have hkeys := h.keys
    rwa [List.append_nil] at hkeys
  · intro p hp
    refine ⟨migrated P p, Table.mem_of_find? (h.written p hp), rfl, rfl, rfl, rfl, rfl, ?_, ?_⟩
    · intro hnone
      have hempty : p.avatarBytes = [] := by
        unfold ParticipantRow.avatarBytes
        rcases hnone with hnone | hnone <;> rw [hnone] <;> rfl
      exact if_pos hempty
    · intro avatar havatar hne
      have hbytes : p.avatarBytes = avatar := (hsome p avatar hne).mpr havatar
      have hne' : p.avatarBytes ≠ [] := by rwa [hbytes]
      refine ⟨P.eightByteHash p.avatarBytes, if_neg hne', ?_⟩
      unfold AvatarDao.load
      rw [hstored p hp hne', hbytes]
  -- avatars that are the same have the same hash, and the hashes are keys
  · have hnodup := db'.avatars.nodup
    have hhashes : db'.avatars.rows.map AvatarRow.hash =
        (db'.avatars.rows.map AvatarRow.avatar).map P.eightByteHash := by
      rw [List.map_map]
      apply List.map_congr_left
      intro a ha
      exact (h.avatars a ha).1
    rw [hhashes] at hnodup
    exact List.Nodup.of_map _ hnodup
  · intro avatar
    rw [List.mem_map]
    constructor
    · intro hmem
      obtain ⟨a, ha, rfl⟩ := hmem
      obtain ⟨-, hne, p, hp, hpa⟩ := h.avatars a ha
      exact ⟨hne, p, hp, (hsome p a.avatar hne).mp hpa⟩
    · intro hmem
      obtain ⟨hne, p, hp, havatar⟩ := hmem
      have hbytes : p.avatarBytes = avatar := (hsome p avatar hne).mpr havatar
      have hne' : p.avatarBytes ≠ [] := by rwa [hbytes]
      exact ⟨_, Table.mem_of_find? (hstored p hp hne'), hbytes⟩

/-- Two senders with the same avatar, one with another one, and two without any. -/
theorem migrateTo8_lossless_five :
    let participants : Table ParticipantRow.messageId :=
      ⟨[⟨1, "Alice", "alice#kullo.test", "", "image/png", some [1, 2]⟩,
        ⟨2, "Bob", "bob#kullo.test", "", "image/png", some [3]⟩,
        ⟨3, "Alice", "alice#kullo.test", "", "image/png", some [1, 2]⟩,
        ⟨4, "Carol", "carol#kullo.test", "", "", none⟩,
        ⟨5, "Dave", "dave#kullo.test", "", "", some []⟩], by decide⟩
    let P : Platform :=
      { Platform.transparent with eightByteHash := fun bytes => bytes.foldl (fun n b => 256 * n + b.toNat) 0 }
    ∃ db', migrateTo8 P participants {} = .ok db' ∧
      db'.senders.rows.map SenderRow.messageId = [1, 2, 3, 4, 5] ∧
      (db'.avatars.rows.map AvatarRow.avatar).Nodup ∧ [1, 2] ∈ db'.avatars.rows.map AvatarRow.avatar ∧
      ∃ s ∈ db'.senders, s.messageId = 4 ∧ s.avatarHash = none := by
  intro participants P
  have hcollision : NoCollision P participants := by decide
  obtain ⟨db', heq, -, hkeys, hsenders, hnodup, havatars⟩ := migrateTo8_lossless hcollision {}
  refine ⟨db', heq, hkeys, hnodup, ?_, ?_⟩
  · rw [havatars]
    exact ⟨by decide, ⟨1, "Alice", "alice#kullo.test", "", "image/png", some [1, 2]⟩, List.mem_cons_self, rfl⟩
  · obtain ⟨s, hs, hid, -, -, -, -, hnone, -⟩ := hsenders ⟨4, "Carol", "carol#kullo.test", "", "", none⟩
      (List.mem_of_getElem? (show participants.rows[3]? = _ from rfl))
    exact ⟨s, hs, hid, hnone (.inl rfl)⟩

end Migration

end KulloClient
