import KulloClient.Dao.Sync

/-!
# UserSettingsDao

The user's settings: for each key the value of the server and the value set here.  A version of the server is told
from the stored one by `lastModified` alone; `find?_setRemoteValue` says what `setRemoteValue` makes of a row.
-/

namespace KulloClient

open Relational (Table)

/-- `Protocol::ProfileInfo`; the value is a byte string in the database and an encrypted text at the server. -/
structure ProfileInfo (α : Type) where
  key : String
  value : α
  lastModified : LastModified
  deriving DecidableEq

namespace UserSettingsDao

/-- `coalesce(local_value, remote_value)`: what `load` reads for a key, apart from the empty default. -/
def value (db : Db) (key : String) : Option Bytes :=
  (db.usersettings.find? key).bind fun r => r.localValue <|> r.remoteValue

/-- `last_modified` of a key; the column's default stands for a missing row. -/
def lastModified (db : Db) (key : String) : LastModified :=
  ((db.usersettings.find? key).map UserSettingRow.lastModified).getD 0

/-- `WHERE local_value IS NOT NULL AND ((remote_value IS NULL) OR (local_value != remote_value))`. -/
def isChanged (r : UserSettingRow) : Bool :=
  r.localValue.isSome && (r.remoteValue.isNone || r.localValue != r.remoteValue)

def localChanges (db : Db) : List (ProfileInfo Bytes) :=
  (db.usersettings.select isChanged).map fun r => ⟨r.key, r.localValue.getD [], r.lastModified⟩

/-- The row of `setRemoteValue`'s `INSERT`. -/
def remoteRow (info : ProfileInfo Bytes) : UserSettingRow where
  key := info.key
  remoteValue := some info.value
  lastModified := info.lastModified

/-- The row of `setLocalValue`'s `INSERT`. -/
def localRow (key : String) (localValue : Bytes) : UserSettingRow where
  key := key
  localValue := some localValue

/-- The assignment of `setRemoteValue`'s `UPDATE`. -/
def assignRemote (info : ProfileInfo Bytes) (r : UserSettingRow) : UserSettingRow :=
  { r with localValue := none, remoteValue := some info.value, lastModified := info.lastModified }

/-- The assignment of `setLocalValue`'s `UPDATE`. -/
def assignLocal (localValue : Bytes) (r : UserSettingRow) : UserSettingRow :=
  { r with localValue := some localValue }

@[simp] theorem assignRemote_key (info : ProfileInfo Bytes) (r : UserSettingRow) : (assignRemote info r).key = r.key :=
  rfl

@[simp] theorem assignLocal_key (localValue : Bytes) (r : UserSettingRow) : (assignLocal localValue r).key = r.key :=
  rfl

@[simp] theorem remoteRow_key (info : ProfileInfo Bytes) : (remoteRow info).key = info.key := rfl

@[simp] theorem localRow_key (key : String) (localValue : Bytes) : (localRow key localValue).key = key := rfl

/-- `setRemoteValue`: the row is inserted when the update changed nothing, and the insertion is ignored when there is
a row after all. -/
def setRemoteValue (db : Db) (info : ProfileInfo Bytes) : Db :=
  let isOther := fun r : UserSettingRow => r.key == info.key && r.lastModified != info.lastModified
  if (db.usersettings.select isOther).isEmpty then
    { db with usersettings := db.usersettings.insertOrIgnore (remoteRow info) }
  else
    { db with usersettings := db.usersettings.updateWhere isOther (assignRemote info) (assignRemote_key info) }

/-- `setLocalValue`. -/
def setLocalValue (db : Db) (key : String) (localValue : Bytes) : Except Exn Db :=
  let isKey := fun r : UserSettingRow => r.key == key
  if (db.usersettings.select isKey).isEmpty then do
    let usersettings ← insertRow db.usersettings (localRow key localValue)
    .ok { db with usersettings := usersettings }
  else
    .ok { db with usersettings :=
      db.usersettings.updateWhere isKey (assignLocal localValue) (assignLocal_key localValue) }

/-! ### What the statements leave in a row -/

/-- What a version of the server makes of the row with its key. -/
def received (info : ProfileInfo Bytes) : Option UserSettingRow → UserSettingRow
  | none => remoteRow info
  | some r => if r.lastModified = info.lastModified then r else assignRemote info r

@[simp] theorem received_lastModified (info : ProfileInfo Bytes) (r : Option UserSettingRow) :
    (received info r).lastModified = info.lastModified := by
  cases r with
  | none => rfl
  | some r =>
    simp only [received]
    split
    · assumption
    · rfl

private theorem received_of_eq {info : ProfileInfo Bytes} {r : UserSettingRow} (h : r.lastModified = info.lastModified) :
    received info (some r) = r := by
  simp [received, h]

theorem received_of_ne {info : ProfileInfo Bytes} {r : UserSettingRow} (h : r.lastModified ≠ info.lastModified) :
    received info (some r) = assignRemote info r := by
  simp [received, h]

private theorem select_isEmpty (db : Db) (key : String) (p : UserSettingRow → Bool) :
    (db.usersettings.select fun r => r.key == key && p r).isEmpty = true ↔
      ∀ r, db.usersettings.find? key = some r → p r = false := by
  rw [List.isEmpty_iff, List.eq_nil_iff_forall_not_mem]
  constructor
  · intro h r hr
    obtain ⟨hmem, hkey⟩ := Table.find?_eq_some.mp hr
    by_contra hp
    exact h r (by simp [hmem, hkey, hp])
  · intro h r hr
    simp only [Table.mem_select, Bool.and_eq_true, beq_iff_eq] at hr
    have := h r (Table.find?_eq_some.mpr ⟨hr.1, hr.2.1⟩)
    simp [hr.2.2] at this

@[simp] theorem find?_setRemoteValue (db : Db) (info : ProfileInfo Bytes) (key : String) :
    (setRemoteValue db info).usersettings.find? key =
      if info.key = key then some (received info (db.usersettings.find? key))
      else db.usersettings.find? key := by
  unfold setRemoteValue
  dsimp only
  split
  · next h =>
    have hsame := (select_isEmpty _ _ _).mp h
    rw [Table.find?_insertOrIgnore]
    by_cases hk : info.key = key
    · subst hk
      rw [remoteRow_key, if_pos rfl, if_pos rfl]
      cases hr : db.usersettings.find? info.key with
      | none => rfl
      | some r =>
        have hlm : r.lastModified = info.lastModified := by simpa using hsame r hr
        rw [received_of_eq hlm, Option.getD_some]
    · rw [remoteRow_key, if_neg hk, if_neg hk]
  · next h =>
    rw [Table.find?_updateWhere]
    split
    · next hk =>
      subst hk
      cases hr : db.usersettings.find? info.key with
      | none =>
        refine absurd ((select_isEmpty _ _ _).mpr ?_) h
        intro r hr'
        rw [hr] at hr'
        cases hr'
      | some r =>
        by_cases hlm : r.lastModified = info.lastModified
        · simp [received_of_eq hlm, hlm]
        · simp [received_of_ne hlm, hlm, Table.key_of_find? hr]
    · next hk =>
      cases hr : db.usersettings.find? key with
      | none => rfl
      | some r =>
        have hne : ¬ r.key = info.key := fun e => hk (e ▸ Table.key_of_find? hr)
        simp [hne]

@[simp] theorem sync_setRemoteValue (db : Db) (info : ProfileInfo Bytes) : (setRemoteValue db info).sync = db.sync := by
  unfold setRemoteValue
  dsimp only
  split <;> rfl

/-- A version that is stored already changes nothing. -/
theorem setRemoteValue_of_stored {db : Db} {info : ProfileInfo Bytes} {r : UserSettingRow}
    (hr : db.usersettings.find? info.key = some r) (hlm : r.lastModified = info.lastModified) :
    setRemoteValue db info = db := by
  have hnone : (db.usersettings.select
      fun r => r.key == info.key && r.lastModified != info.lastModified).isEmpty = true := by
    refine (select_isEmpty _ _ _).mpr ?_
    intro r' hr'
    rw [hr] at hr'
    cases hr'
    simp [hlm]
  unfold setRemoteValue
  simp only [hnone, if_true]
  rw [Table.insertOrIgnore_of_find? hr]

/-- What setting a value makes of the row with its key. -/
def edited (key : String) (localValue : Bytes) : Option UserSettingRow → UserSettingRow
  | none => localRow key localValue
  | some r => assignLocal localValue r

theorem setLocalValue_eq_ok (db : Db) (key : String) (localValue : Bytes) :
    ∃ db', setLocalValue db key localValue = .ok db' ∧ db'.sync = db.sync ∧
      ∀ k, db'.usersettings.find? k =
        if key = k then some (edited key localValue (db.usersettings.find? k)) else db.usersettings.find? k := by
  have hiff := select_isEmpty db key (fun _ => true)
  simp only [Bool.and_true] at hiff
  unfold setLocalValue
  dsimp only
  split
  · next h =>
    have hfree : db.usersettings.find? (localRow key localValue).key = none := by
      rw [localRow_key]
      cases hr : db.usersettings.find? key with
      | none => rfl
      | some r => exact absurd (hiff.mp h r hr) (by simp)
    rw [insertRow_of_find? hfree]
    refine ⟨_, rfl, rfl, ?_⟩
    intro k
    rw [Table.find?_insert]
    by_cases hk : key = k
    · subst hk
      rw [localRow_key] at hfree ⊢
      rw [if_pos rfl, if_pos rfl, hfree]
      rfl
    · rw [localRow_key, if_neg hk, if_neg hk]
  · next h =>
    refine ⟨_, rfl, rfl, ?_⟩
    intro k
    rw [Table.find?_updateWhere]
    split
    · next hk =>
      subst hk
      cases hr : db.usersettings.find? key with
      | none =>
        refine absurd (hiff.mpr ?_) h
        intro r hr'
        rw [hr] at hr'
        cases hr'
      | some r => simp [edited, Table.key_of_find? hr]
    · next hk =>
      cases hr : db.usersettings.find? k with
      | none => rfl
      | some r =>
        have hne : ¬ r.key = key := fun e => hk (e ▸ Table.key_of_find? hr)
        simp [hne]

theorem lastModified_of_find? {db : Db} {key : String} {r : UserSettingRow}
    (h : db.usersettings.find? key = some r) : lastModified db key = r.lastModified := by
  simp [lastModified, h]

@[simp] theorem lastModified_setRemoteValue (db : Db) (info : ProfileInfo Bytes) (key : String) :
    lastModified (setRemoteValue db info) key = if info.key = key then info.lastModified else lastModified db key := by
  unfold lastModified
  rw [find?_setRemoteValue]
  split <;> simp

theorem lastModified_setLocalValue {db db' : Db} {key : String} {localValue : Bytes}
    (h : setLocalValue db key localValue = .ok db') (k : String) : lastModified db' k = lastModified db k := by
  obtain ⟨db'', hok, _, hfind⟩ := setLocalValue_eq_ok db key localValue
  rw [h] at hok
  cases hok
  unfold lastModified
  rw [hfind]
  split
  · cases db.usersettings.find? k <;> rfl
  · rfl

theorem mem_localChanges {db : Db} {info : ProfileInfo Bytes} :
    info ∈ localChanges db ↔
      ∃ r, db.usersettings.find? info.key = some r ∧ isChanged r = true ∧ info = ⟨r.key, r.localValue.getD [], r.lastModified⟩ := by
  simp only [localChanges, List.mem_map, Table.mem_select, Table.mem_iff_find?]
  constructor
  · rintro ⟨r, ⟨hr, hch⟩, rfl⟩
    exact ⟨r, hr, hch, rfl⟩
  · rintro ⟨r, hr, hch, rfl⟩
    exact ⟨r, ⟨hr, hch⟩, rfl⟩

theorem localChanges_keys_nodup (db : Db) : ((localChanges db).map ProfileInfo.key).Nodup := by
  unfold localChanges
  rw [List.map_map]
  exact (List.Sublist.map UserSettingRow.key List.filter_sublist).nodup db.usersettings.nodup

/-! ### Storing a list of versions twice -/

section idempotence

/-- What a list of versions makes of the row with a key. -/
private def receivedAll (key : String) (infos : List (ProfileInfo Bytes)) (r : Option UserSettingRow) :
    Option UserSettingRow :=
  infos.foldl (fun r info => if info.key = key then some (received info r) else r) r

private theorem receivedAll_cons (key : String) (info : ProfileInfo Bytes) (infos : List (ProfileInfo Bytes))
    (r : Option UserSettingRow) : receivedAll key (info :: infos) r =
      receivedAll key infos (if info.key = key then some (received info r) else r) := rfl

private theorem find?_setRemoteValues (infos : List (ProfileInfo Bytes)) (db : Db) (key : String) :
    (infos.foldl setRemoteValue db).usersettings.find? key =
      receivedAll key infos (db.usersettings.find? key) := by
  induction infos generalizing db with
  | nil => rfl
  | cons info infos ih =>
    rw [List.foldl_cons, ih, receivedAll_cons, find?_setRemoteValue]

/-- Rows of one key and one `lastModified` become the same row, unless every version of the key is the stored one. -/
private theorem receivedAll_eq_or {key : String} (infos : List (ProfileInfo Bytes)) {r r' : UserSettingRow}
    (hk : r.key = key) (hk' : r'.key = key) (hlm : r.lastModified = r'.lastModified) :
    receivedAll key infos (some r) = receivedAll key infos (some r') ∨
      ∀ info ∈ infos, info.key = key → info.lastModified = r.lastModified := by
  induction infos with
  | nil => exact .inr (by simp)
  | cons info infos ih =>
    rw [receivedAll_cons, receivedAll_cons]
    by_cases hinfo : info.key = key
    · rw [if_pos hinfo, if_pos hinfo]
      by_cases h : r.lastModified = info.lastModified
      · rw [received_of_eq h, received_of_eq (hlm ▸ h)]
        rcases ih with heq | hall
        · exact .inl heq
        · refine .inr ?_
          intro info' hmem hkey
          rcases List.mem_cons.mp hmem with rfl | hmem
          · exact h.symm
          · exact hall info' hmem hkey
      · left
        have hsame : assignRemote info r = assignRemote info r' := by
          unfold assignRemote
          cases r; cases r'
          simp_all
        rw [received_of_ne h, received_of_ne (hlm ▸ h), hsame]
    · rw [if_neg hinfo, if_neg hinfo]
      rcases ih with heq | hall
      · exact .inl heq
      · refine .inr ?_
        intro info' hmem hkey
        rcases List.mem_cons.mp hmem with rfl | hmem
        · exact absurd hkey hinfo
        · exact hall info' hmem hkey

private theorem receivedAll_eq_self {key : String} {infos : List (ProfileInfo Bytes)} {r : UserSettingRow}
    (h : ∀ info ∈ infos, info.key = key → info.lastModified = r.lastModified) :
    receivedAll key infos (some r) = some r := by
  induction infos with
  | nil => rfl
  | cons info infos ih =>
    rw [List.forall_mem_cons] at h
    rw [receivedAll_cons]
    by_cases hinfo : info.key = key
    · rw [if_pos hinfo, received_of_eq (h.1 hinfo).symm]
      exact ih h.2
    · rw [if_neg hinfo]
      exact ih h.2

/-- Versions of one `lastModified`: there is none of the key, or it is the one that is stored in the end. -/
private theorem receivedAll_of_same {key : String} {lm : LastModified} {infos : List (ProfileInfo Bytes)}
    (h : ∀ info ∈ infos, info.key = key → info.lastModified = lm) (r : Option UserSettingRow) :
    receivedAll key infos r = r ∨ ∃ r', receivedAll key infos r = some r' ∧ r'.lastModified = lm := by
  induction infos with
  | nil => exact .inl rfl
  | cons info infos ih =>
    rw [List.forall_mem_cons] at h
    rw [receivedAll_cons]
    by_cases hinfo : info.key = key
    · have hlm : (received info r).lastModified = lm := by rw [received_lastModified, h.1 hinfo]
      rw [if_pos hinfo, receivedAll_eq_self (by rw [hlm]; exact h.2)]
      exact .inr ⟨_, rfl, hlm⟩
    · rw [if_neg hinfo]
      exact ih h.2

private theorem received_key {info : ProfileInfo Bytes} {r : Option UserSettingRow}
    (hr : ∀ r', r = some r' → r'.key = info.key) : (received info r).key = info.key := by
  cases r with
  | none => rfl
  | some r =>
    by_cases h : r.lastModified = info.lastModified
    · rw [received_of_eq h]; exact hr r rfl
    · rw [received_of_ne h]; exact hr r rfl

/-- Two rows for a key become the same row, unless all versions of the key are the same. -/
private theorem receivedAll_eq_or_same {key : String} (infos : List (ProfileInfo Bytes)) {r r' : Option UserSettingRow}
    (hr : ∀ r₀, r = some r₀ → r₀.key = key) (hr' : ∀ r₀, r' = some r₀ → r₀.key = key) :
    receivedAll key infos r = receivedAll key infos r' ∨
      ∃ lm, ∀ info ∈ infos, info.key = key → info.lastModified = lm := by
  induction infos with
  | nil => exact .inr ⟨0, by simp⟩
  | cons info infos ih =>
    rw [receivedAll_cons, receivedAll_cons]
    by_cases hinfo : info.key = key
    · subst hinfo
      rw [if_pos rfl, if_pos rfl]
      rcases receivedAll_eq_or infos (received_key hr) (received_key hr') (by simp) with heq | hall
      · exact .inl heq
      · refine .inr ⟨info.lastModified, ?_⟩
        rw [List.forall_mem_cons]
        refine ⟨fun _ => rfl, ?_⟩
        intro info' hmem hkey
        rw [hall info' hmem hkey, received_lastModified]
    · rw [if_neg hinfo, if_neg hinfo]
      rcases ih with heq | ⟨lm, hall⟩
      · exact .inl heq
      · refine .inr ⟨lm, ?_⟩
        rw [List.forall_mem_cons]
        exact ⟨fun hkey => absurd hkey hinfo, hall⟩

private theorem keys_setRemoteValue {db : Db} {info : ProfileInfo Bytes}
    (h : db.usersettings.find? info.key ≠ none) :
    (setRemoteValue db info).usersettings.rows.map UserSettingRow.key =
      db.usersettings.rows.map UserSettingRow.key := by
  obtain ⟨r, hr⟩ := Option.ne_none_iff_exists'.mp h
  unfold setRemoteValue
  dsimp only
  split
  · rw [Table.insertOrIgnore_of_find? hr]
  · exact Table.keys_updateWhere _ _ _ (assignRemote_key info)

private theorem find?_setRemoteValue_ne_none {db : Db} {info : ProfileInfo Bytes} {key : String}
    (h : db.usersettings.find? key ≠ none ∨ info.key = key) :
    (setRemoteValue db info).usersettings.find? key ≠ none := by
  rw [find?_setRemoteValue]
  split
  · simp
  · next hk => exact h.resolve_right hk

private theorem setRemoteValues_keys {infos : List (ProfileInfo Bytes)} {db : Db}
    (h : ∀ info ∈ infos, db.usersettings.find? info.key ≠ none) :
    (infos.foldl setRemoteValue db).usersettings.rows.map UserSettingRow.key =
      db.usersettings.rows.map UserSettingRow.key := by
  induction infos generalizing db with
  | nil => rfl
  | cons info infos ih =>
    rw [List.forall_mem_cons] at h
    rw [List.foldl_cons, ih, keys_setRemoteValue h.1]
    intro info' hmem
    exact find?_setRemoteValue_ne_none (.inl (h.2 info' hmem))

private theorem setRemoteValues_ne_none {infos : List (ProfileInfo Bytes)} {db : Db} {key : String}
    (h : db.usersettings.find? key ≠ none ∨ ∃ info ∈ infos, info.key = key) :
    (infos.foldl setRemoteValue db).usersettings.find? key ≠ none := by
  induction infos generalizing db with
  | nil => simpa using h
  | cons info infos ih =>
    rw [List.foldl_cons]
    apply ih
    rcases h with h | ⟨info', hmem, hkey⟩
    · exact .inl (find?_setRemoteValue_ne_none (.inl h))
    · rcases List.mem_cons.mp hmem with rfl | hmem
      · exact .inl (find?_setRemoteValue_ne_none (.inr hkey))
      · exact .inr ⟨info', hmem, hkey⟩

/-- Only `usersettings` is written. -/
theorem setRemoteValues_eq (infos : List (ProfileInfo Bytes)) (db : Db) :
    infos.foldl setRemoteValue db =
      { db with usersettings := (infos.foldl setRemoteValue db).usersettings } := by
  induction infos generalizing db with
  | nil => rfl
  | cons info infos ih =>
    rw [List.foldl_cons, ih]
    unfold setRemoteValue
    dsimp only
    split <;> rfl

/-- Storing a list of versions a second time changes nothing. -/
theorem setRemoteValues_twice (infos : List (ProfileInfo Bytes)) (db : Db) :
    infos.foldl setRemoteValue (infos.foldl setRemoteValue db) = infos.foldl setRemoteValue db := by
  have hpresent : ∀ info ∈ infos, (infos.foldl setRemoteValue db).usersettings.find? info.key ≠ none :=
    fun info hmem => setRemoteValues_ne_none (.inr ⟨info, hmem, rfl⟩)
  have hrow : ∀ key, receivedAll key infos (receivedAll key infos (db.usersettings.find? key)) =
      receivedAll key infos (db.usersettings.find? key) := by
    intro key
    have hkey : ∀ r, db.usersettings.find? key = some r → r.key = key := fun r => Table.key_of_find?
    have hkey' : ∀ r, receivedAll key infos (db.usersettings.find? key) = some r → r.key = key := by
      rw [← find?_setRemoteValues]
      exact fun r => Table.key_of_find?
    rcases receivedAll_eq_or_same infos hkey hkey' with heq | ⟨lm, hall⟩
    · exact heq.symm
    · rcases receivedAll_of_same hall (db.usersettings.find? key) with hself | ⟨r, hr, hlm⟩
      · rw [hself, hself]
      · rw [hr]
        apply receivedAll_eq_self
        rw [hlm]
        exact hall
  have htable : (infos.foldl setRemoteValue (infos.foldl setRemoteValue db)).usersettings =
      (infos.foldl setRemoteValue db).usersettings := by
    apply Table.ext_find? (setRemoteValues_keys hpresent)
    intro key
    rw [find?_setRemoteValues, find?_setRemoteValues]
    exact hrow key
  rw [setRemoteValues_eq infos (infos.foldl setRemoteValue db), htable]

end idempotence

end UserSettingsDao

end KulloClient
