import KulloClient.Sync.ProfileSyncer

/-!
# No edit of the settings is lost

`HoldsEdits` is the invariant: what the user set last is what `load` reads, until a version of another device has
replaced it.  A version that was uploaded here breaks it when the user has set another value in the meantime, and
`Unedited` excludes just that.  `Consistent` relates the database to the server over every run; with it, a run
that nothing disturbs meets no conflict and leaves no local change.
-/

namespace KulloClient

open Imperative
open Relational (Table)
open Transition

namespace ProfileSyncer

variable {P : Platform} {privateDataKey : Bytes}

private theorem storeRemote_eq_ok {db db' : Db} {remoteChange : ProfileInfo String}
    (h : storeRemote P privateDataKey db remoteChange = .ok db') :
    ∃ value, decrypt P privateDataKey remoteChange.value = .ok value ∧
      db' = UserSettingsDao.setRemoteValue db ⟨remoteChange.key, value, remoteChange.lastModified⟩ := by
  unfold storeRemote at h
  cases hv : decrypt P privateDataKey remoteChange.value with
  | error e => rw [hv] at h; cases h
  | ok value =>
    rw [hv] at h
    cases h
    exact ⟨value, rfl, rfl⟩

private theorem storeRemote_of_decrypt {db : Db} {remoteChange : ProfileInfo String} {value : Bytes}
    (h : decrypt P privateDataKey remoteChange.value = .ok value) :
    storeRemote P privateDataKey db remoteChange =
      .ok (UserSettingsDao.setRemoteValue db ⟨remoteChange.key, value, remoteChange.lastModified⟩) := by
  unfold storeRemote
  rw [h]
  rfl

/-! ### Edits -/

/-- The user has set no other value than that of the version. -/
def Unedited (P : Platform) (privateDataKey : Bytes) (s : State) (remoteChange : ProfileInfo String) : Prop :=
  ∀ value edit, decrypt P privateDataKey remoteChange.value = .ok value → s.edits remoteChange.key = some edit →
    edit = value

/-- Where a version uploaded here is stored that is not stored yet, the user has set no other value since. -/
def UneditedWhenStored (P : Platform) (privateDataKey : Bytes) (s : State) : Action → Prop
  | .storeRemote => ∀ initialLatestSync maxLastModified remoteChange remoteChanges,
      s.phase = .storing initialLatestSync maxLastModified (remoteChange :: remoteChanges) →
      remoteChange ∈ s.uploads → IsStored s.db remoteChange ∨ Unedited P privateDataKey s remoteChange
  | .storeUploaded => ∀ remoteChange localChanges, s.phase = .uploaded remoteChange localChanges →
      remoteChange ∈ s.uploads → IsStored s.db remoteChange ∨ Unedited P privateDataKey s remoteChange
  | _ => True

/-- What the user set last is what is read. -/
def HoldsEdits (s : State) : Prop :=
  ∀ key value, s.edits key = some value → UserSettingsDao.value s.db key = some value

private theorem holdsEdits_setLocalValue {s : State} {key : String} {localValue : Bytes} {db : Db} (h : HoldsEdits s)
    (hdb : UserSettingsDao.setLocalValue s.db key localValue = .ok db) :
    HoldsEdits { s with db := db, edits := Function.update s.edits key (some localValue) } := by
  obtain ⟨db', hok, _, hfind⟩ := UserSettingsDao.setLocalValue_eq_ok s.db key localValue
  rw [hdb] at hok
  cases hok
  intro k v hv
  change Function.update s.edits key (some localValue) k = some v at hv
  change UserSettingsDao.value db k = some v
  unfold UserSettingsDao.value
  rw [hfind]
  by_cases hk : key = k
  · subst hk
    rw [Function.update_self] at hv
    cases hv
    rw [if_pos rfl]
    cases s.db.usersettings.find? key <;> rfl
  · rw [Function.update_of_ne (Ne.symm hk)] at hv
    rw [if_neg hk]
    exact h k v hv

/-- The one step that can lose an edit. -/
theorem holdsEdits_stored {s : State} {remoteChange : ProfileInfo String} {db : Db} (h : HoldsEdits s)
    (hok : remoteChange ∈ s.uploads → IsStored s.db remoteChange ∨ Unedited P privateDataKey s remoteChange)
    (hdb : storeRemote P privateDataKey s.db remoteChange = .ok db) : HoldsEdits (s.stored remoteChange db) := by
  obtain ⟨value, hvalue, rfl⟩ := storeRemote_eq_ok hdb
  intro k v hv
  change UserSettingsDao.value (UserSettingsDao.setRemoteValue s.db _) k = some v
  by_cases hstored : IsStored s.db remoteChange
  · obtain ⟨r, hr, hlm⟩ := hstored
    have hedits : (s.stored remoteChange (UserSettingsDao.setRemoteValue s.db
        ⟨remoteChange.key, value, remoteChange.lastModified⟩)).edits = s.edits := if_pos (.inr ⟨r, hr, hlm⟩)
    rw [hedits] at hv
    rw [UserSettingsDao.setRemoteValue_of_stored (r := r) hr hlm]
    exact h k v hv
  · by_cases hk : remoteChange.key = k
    · subst hk
      by_cases hup : remoteChange ∈ s.uploads
      · have hv' : s.edits remoteChange.key = some v := by
          have hedits : (s.stored remoteChange (UserSettingsDao.setRemoteValue s.db
            ⟨remoteChange.key, value, remoteChange.lastModified⟩)).edits = s.edits := if_pos (.inl hup)
          rwa [hedits] at hv
        have heq : v = value := (hok hup).resolve_left hstored value v hvalue hv'
        unfold UserSettingsDao.value
        rw [UserSettingsDao.find?_setRemoteValue, if_pos rfl]
        cases hr : s.db.usersettings.find? remoteChange.key with
        | none => simp [UserSettingsDao.received, UserSettingsDao.remoteRow, heq]
        | some r =>
          have hne : r.lastModified ≠ remoteChange.lastModified := fun hlm => hstored ⟨r, hr, hlm⟩
          rw [UserSettingsDao.received_of_ne hne]
          simp [UserSettingsDao.assignRemote, heq]
      · have hedits : (s.stored remoteChange (UserSettingsDao.setRemoteValue s.db
          ⟨remoteChange.key, value, remoteChange.lastModified⟩)).edits =
            Function.update s.edits remoteChange.key none := if_neg (by simp [hup, hstored])
        rw [hedits, Function.update_self] at hv
        cases hv
    · have hv' : s.edits k = some v := by
        unfold State.stored at hv
        dsimp only at hv
        split at hv
        · exact hv
        · rwa [Function.update_of_ne (Ne.symm hk)] at hv
      unfold UserSettingsDao.value
      rw [UserSettingsDao.find?_setRemoteValue, if_neg hk]
      exact h k v hv'

private theorem timestamp_only {db : Db} {i m : LastModified} :
    (updateLatestSync i m db).usersettings = db.usersettings := by
  unfold updateLatestSync
  split <;> rfl

private theorem holdsEdits_step {s s' : State} {a : Action} (h : HoldsEdits s) (hok : UneditedWhenStored P privateDataKey s a)
    (hstep : Step P privateDataKey s a s') : HoldsEdits s' := by
  cases a with
  | setLocalValue key localValue =>
    obtain ⟨db, hdb, rfl⟩ := hstep
    exact holdsEdits_setLocalValue h hdb
  | storeRemote =>
    obtain ⟨i, m, remoteChange, remoteChanges, db, hphase, hdb, rfl⟩ := hstep
    exact holdsEdits_stored h (hok i m remoteChange remoteChanges hphase) hdb
  | storeUploaded =>
    obtain ⟨remoteChange, localChanges, db, hphase, hdb, rfl⟩ := hstep
    exact holdsEdits_stored h (hok remoteChange localChanges hphase) hdb
  | updateLatestSync =>
    obtain ⟨i, m, _, rfl⟩ := hstep
    intro k v hv
    unfold UserSettingsDao.value
    rw [timestamp_only]
    exact h k v hv
  | uploadChange u =>
    obtain ⟨localChange, localChanges, _, hs'⟩ := hstep
    split at hs'
    · subst hs'; exact h
    · subst hs'; exact h
  | otherDevice later key value => subst hstep; exact h
  | downloadChanges remoteChanges => obtain ⟨_, _, rfl⟩ := hstep; exact h
  | localChanges => obtain ⟨_, rfl⟩ := hstep; exact h
  | finish => obtain ⟨_, rfl⟩ := hstep; exact h
  | stop => subst hstep; exact h

/-- Without the condition the edit is lost: what is read is the version that was uploaded before it. -/
theorem value_of_stored_edited {s : State} {remoteChange : ProfileInfo String} {db : Db} {value : Bytes}
    (hstored : ¬ IsStored s.db remoteChange) (hvalue : decrypt P privateDataKey remoteChange.value = .ok value)
    (hdb : storeRemote P privateDataKey s.db remoteChange = .ok db) :
    UserSettingsDao.value db remoteChange.key = some value := by
  rw [storeRemote_of_decrypt hvalue] at hdb
  cases hdb
  unfold UserSettingsDao.value
  rw [UserSettingsDao.find?_setRemoteValue, if_pos rfl]
  cases hr : s.db.usersettings.find? remoteChange.key with
  | none => rfl
  | some r =>
    have hne : r.lastModified ≠ remoteChange.lastModified := fun hlm => hstored ⟨r, hr, hlm⟩
    rw [UserSettingsDao.received_of_ne hne]
    rfl

/-! ### The database and the server -/

section consistent

theorem decrypt_encrypt {iv : Bytes} (hbase64 : ∀ b, P.base64Decode (P.base64Encode b) = .ok b)
    (hgcm : GcmRoundTrips P privateDataKey iv) (hiv : iv.length = SymmetricCryptor.randomIVBytes) (value : Bytes) :
    decrypt P privateDataKey (encrypt P privateDataKey iv value) = .ok value := by
  unfold decrypt encrypt
  rw [hbase64]
  exact SymmetricCryptor.decryptWithIV_encrypt hgcm hiv value

/-- The largest `lastModified` after the changes that are left. -/
def latest (maxLastModified : LastModified) (remoteChanges : List (ProfileInfo String)) : LastModified :=
  remoteChanges.foldl (fun m r => max m r.lastModified) maxLastModified

private theorem le_latest (m : LastModified) (remoteChanges : List (ProfileInfo String)) :
    m ≤ latest m remoteChanges ∧ ∀ r ∈ remoteChanges, r.lastModified ≤ latest m remoteChanges := by
  induction remoteChanges generalizing m with
  | nil => exact ⟨le_refl m, by simp⟩
  | cons r rs ih =>
    obtain ⟨hm, hrs⟩ := ih (max m r.lastModified)
    have hle : max m r.lastModified ≤ latest m (r :: rs) := hm
    refine ⟨le_trans (le_max_left _ _) hle, ?_⟩
    rw [List.forall_mem_cons]
    exact ⟨le_trans (le_max_right _ _) hle, hrs⟩

private theorem latest_le {m n : LastModified} {remoteChanges : List (ProfileInfo String)} (hm : m ≤ n)
    (h : ∀ r ∈ remoteChanges, r.lastModified ≤ n) : latest m remoteChanges ≤ n := by
  induction remoteChanges generalizing m with
  | nil => exact hm
  | cons r rs ih =>
    rw [List.forall_mem_cons] at h
    exact ih (max_le hm h.1) h.2

/-- A version the server has delivered and that is not stored yet: it is the server's, unless the server has got
another one since, which is newer than `m`. -/
structure Pending (w : World) (m : LastModified) (remoteChange : ProfileInfo String) : Prop where
  new : SyncDao.timestamp w.db .profile < remoteChange.lastModified
  le : remoteChange.lastModified ≤ m
  known : w.server.records.find? remoteChange.key ≠ none
  current : ∀ r ∈ w.server.records, r.key = remoteChange.key → r = remoteChange ∨ m < r.lastModified

/-- Up to the timestamp of the last sync, the stored versions are those of the server. -/
structure Synced (w : World) : Prop where
  record_le : ∀ r ∈ w.server.records, r.lastModified ≤ w.server.clock
  timestamp_le : SyncDao.timestamp w.db .profile ≤ w.server.clock
  stored_le : ∀ key, UserSettingsDao.lastModified w.db key ≤ w.server.clock
  synced : ∀ r ∈ w.server.records, r.lastModified ≤ SyncDao.timestamp w.db .profile →
    UserSettingsDao.lastModified w.db r.key = r.lastModified
  absent : ∀ key, w.server.records.find? key = none → UserSettingsDao.lastModified w.db key = 0

/-- What holds of the versions that are stored one by one. -/
structure Storing (w : World) (maxLastModified : LastModified) (remoteChanges : List (ProfileInfo String)) : Prop where
  latest_le : latest maxLastModified remoteChanges ≤ w.server.clock
  pending : ∀ r ∈ remoteChanges, Pending w (latest maxLastModified remoteChanges) r
  stored : ∀ r ∈ w.server.records, r.lastModified ≤ latest maxLastModified remoteChanges →
    r ∈ remoteChanges ∨ UserSettingsDao.lastModified w.db r.key = r.lastModified

def PhaseConsistent (w : World) : Phase → Prop
  | .storing initialLatestSync maxLastModified remoteChanges =>
    initialLatestSync = SyncDao.timestamp w.db .profile ∧ Storing w maxLastModified remoteChanges
  | .uploaded remoteChange _ =>
    remoteChange.lastModified ≤ w.server.clock ∧ Pending w remoteChange.lastModified remoteChange
  | _ => True

/-- The invariant of every run. -/
def Consistent (s : State) : Prop := Synced s.toWorld ∧ PhaseConsistent s.toWorld s.phase

/-! #### A version of the server is stored -/

theorem Pending.of_db {w w' : World} {m : LastModified} {r : ProfileInfo String} (h : Pending w m r)
    (hserver : w'.server = w.server)
    (hsync : SyncDao.timestamp w'.db .profile = SyncDao.timestamp w.db .profile) : Pending w' m r := by
  refine ⟨?_, h.le, ?_, ?_⟩
  · rw [hsync]; exact h.new
  · rw [hserver]; exact h.known
  · rw [hserver]; exact h.current

private theorem timestamp_setRemoteValue (db : Db) (info : ProfileInfo Bytes) (type : SyncDataType) :
    SyncDao.timestamp (UserSettingsDao.setRemoteValue db info) type = SyncDao.timestamp db type := by
  unfold SyncDao.timestamp
  rw [UserSettingsDao.sync_setRemoteValue]

theorem Synced.setRemoteValue {w : World} {m : LastModified} {remoteChange : ProfileInfo String} (h : Synced w)
    (hr : Pending w m remoteChange) (hm : m ≤ w.server.clock) (value : Bytes) :
    Synced { w with db :=
      UserSettingsDao.setRemoteValue w.db ⟨remoteChange.key, value, remoteChange.lastModified⟩ } := by
  constructor
  · exact h.record_le
  · rw [timestamp_setRemoteValue]
    exact h.timestamp_le
  · intro key
    rw [UserSettingsDao.lastModified_setRemoteValue]
    split
    · exact le_trans hr.le hm
    · exact h.stored_le key
  · intro r hmem hle
    rw [timestamp_setRemoteValue] at hle
    rw [UserSettingsDao.lastModified_setRemoteValue]
    by_cases hk : remoteChange.key = r.key
    · have hnew := hr.new
      have hmax := hr.le
      rcases hr.current r hmem hk.symm with rfl | hlt
      · exact absurd hle (not_le.mpr hnew)
      · exact absurd hle (not_le.mpr (lt_trans hnew (lt_of_le_of_lt hmax hlt)))
    · rw [if_neg hk]
      exact h.synced r hmem hle
  · intro key hkey
    rw [UserSettingsDao.lastModified_setRemoteValue]
    have hk : ¬ remoteChange.key = key := fun e => hr.known (e ▸ hkey)
    rw [if_neg hk]
    exact h.absent key hkey

theorem Storing.setRemoteValue {w : World} {m : LastModified} {remoteChange : ProfileInfo String}
    {remoteChanges : List (ProfileInfo String)} (h : Storing w m (remoteChange :: remoteChanges)) (value : Bytes) :
    Storing { w with db :=
        UserSettingsDao.setRemoteValue w.db ⟨remoteChange.key, value, remoteChange.lastModified⟩ }
      (max m remoteChange.lastModified) remoteChanges := by
  have hlatest : latest (max m remoteChange.lastModified) remoteChanges = latest m (remoteChange :: remoteChanges) :=
    rfl
  constructor
  · rw [hlatest]
    exact h.latest_le
  · intro r hr
    rw [hlatest]
    exact (h.pending r (List.mem_cons_of_mem _ hr)).of_db rfl (timestamp_setRemoteValue _ _ _)
  · intro r hmem hle
    rw [hlatest] at hle
    rw [UserSettingsDao.lastModified_setRemoteValue]
    by_cases hk : remoteChange.key = r.key
    · right
      rcases (h.pending remoteChange List.mem_cons_self).current r hmem hk.symm with rfl | hlt
      · rw [if_pos rfl]
      · exact absurd hle (not_le.mpr hlt)
    · rw [if_neg hk]
      rcases h.stored r hmem hle with hin | hst
      · rcases List.mem_cons.mp hin with rfl | hin
        · exact absurd rfl hk
        · exact .inl hin
      · exact .inr hst

/-! #### The server stores a version -/

section server

variable {w : World} (later : Nat) (key value : String)

private theorem mem_records_store {r : ProfileInfo String} :
    r ∈ (w.server.store later key value).1.records ↔
      r = (w.server.store later key value).2 ∨ r ∈ w.server.records ∧ r.key ≠ key :=
  Table.mem_insertOrReplace

private theorem find?_records_store (k : String) :
    (w.server.store later key value).1.records.find? k =
      if key = k then some (w.server.store later key value).2 else w.server.records.find? k :=
  Table.find?_insertOrReplace k

private theorem clock_lt_store : w.server.clock < (w.server.store later key value).2.lastModified := by
  exact Nat.lt_succ_of_le (Nat.le_add_right _ _)

private theorem store_clock : (w.server.store later key value).1.clock = (w.server.store later key value).2.lastModified := rfl

theorem Synced.store (h : Synced w) : Synced { w with server := (w.server.store later key value).1 } := by
  have hlt := clock_lt_store (w := w) later key value
  constructor
  · intro r hr
    rw [store_clock]
    rcases (mem_records_store later key value).mp hr with rfl | ⟨hmem, _⟩
    · exact le_refl _
    · exact le_trans (h.record_le r hmem) hlt.le
  · exact le_trans h.timestamp_le hlt.le
  · intro k
    exact le_trans (h.stored_le k) hlt.le
  · intro r hr hle
    rcases (mem_records_store later key value).mp hr with rfl | ⟨hmem, _⟩
    · exact absurd (le_trans hle h.timestamp_le) (not_le.mpr hlt)
    · exact h.synced r hmem hle
  · intro k hk
    change (w.server.store later key value).1.records.find? k = none at hk
    rw [find?_records_store] at hk
    split at hk
    · cases hk
    · exact h.absent k hk

theorem Pending.store {m : LastModified} {r : ProfileInfo String} (h : Pending w m r) (hm : m ≤ w.server.clock) :
    Pending { w with server := (w.server.store later key value).1 } m r := by
  have hlt := clock_lt_store (w := w) later key value
  refine ⟨h.new, h.le, ?_, ?_⟩
  · change (w.server.store later key value).1.records.find? r.key ≠ none
    rw [find?_records_store]
    split
    · simp
    · exact h.known
  · intro r' hr' hk
    rcases (mem_records_store later key value).mp hr' with rfl | ⟨hmem, _⟩
    · exact .inr (lt_of_le_of_lt hm hlt)
    · exact h.current r' hmem hk

/-- The version the server has just stored. -/
theorem pending_store (h : Synced w) :
    Pending { w with server := (w.server.store later key value).1 }
      (w.server.store later key value).2.lastModified (w.server.store later key value).2 := by
  refine ⟨?_, le_refl _, ?_, ?_⟩
  · exact lt_of_le_of_lt h.timestamp_le (clock_lt_store later key value)
  · change (w.server.store later key value).1.records.find? key ≠ none
    rw [find?_records_store, if_pos rfl]
    simp
  · intro r hr hk
    rcases (mem_records_store later key value).mp hr with rfl | ⟨_, hne⟩
    · exact .inl rfl
    · exact absurd hk hne

theorem PhaseConsistent.store {phase : Phase} (h : PhaseConsistent w phase) :
    PhaseConsistent { w with server := (w.server.store later key value).1 } phase := by
  have hlt := clock_lt_store (w := w) later key value
  cases phase with
  | storing i m remoteChanges =>
    obtain ⟨hi, hst⟩ := h
    refine ⟨hi, ?_, ?_, ?_⟩
    · exact le_trans hst.latest_le hlt.le
    · intro r hr
      exact (hst.pending r hr).store later key value hst.latest_le
    · intro r hr hle
      rcases (mem_records_store later key value).mp hr with rfl | ⟨hmem, _⟩
      · exact absurd (le_trans hle hst.latest_le) (not_le.mpr hlt)
      · exact hst.stored r hmem hle
  | uploaded remoteChange _ =>
    exact ⟨le_trans h.1 hlt.le, h.2.store later key value h.1⟩
  | idle => trivial
  | downloaded => trivial
  | uploading _ => trivial

end server

/-! #### The invariant -/

theorem Synced.of_db {w : World} {db : Db} (h : Synced w)
    (hsync : SyncDao.timestamp db .profile = SyncDao.timestamp w.db .profile)
    (hlm : ∀ key, UserSettingsDao.lastModified db key = UserSettingsDao.lastModified w.db key) :
    Synced { w with db := db } := by
  refine ⟨h.record_le, ?_, ?_, ?_, ?_⟩
  · rw [hsync]; exact h.timestamp_le
  · intro key; rw [hlm]; exact h.stored_le key
  · intro r hr hle
    rw [hsync] at hle
    rw [hlm]
    exact h.synced r hr hle
  · intro key hk; rw [hlm]; exact h.absent key hk

theorem PhaseConsistent.of_db {w : World} {db : Db} {phase : Phase} (h : PhaseConsistent w phase)
    (hsync : SyncDao.timestamp db .profile = SyncDao.timestamp w.db .profile)
    (hlm : ∀ key, UserSettingsDao.lastModified db key = UserSettingsDao.lastModified w.db key) :
    PhaseConsistent { w with db := db } phase := by
  cases phase with
  | storing i m remoteChanges =>
    obtain ⟨hi, hst⟩ := h
    refine ⟨hi.trans hsync.symm, hst.latest_le, ?_, ?_⟩
    · intro r hr
      exact (hst.pending r hr).of_db rfl hsync
    · intro r hr hle
      rw [hlm]
      exact hst.stored r hr hle
  | uploaded remoteChange _ => exact ⟨h.1, h.2.of_db rfl hsync⟩
  | idle => trivial
  | downloaded => trivial
  | uploading _ => trivial

/-- What the server delivers. -/
theorem storing_of_perm {w : World} (h : Synced w) {remoteChanges : List (ProfileInfo String)}
    (hperm : remoteChanges.Perm (w.server.changesAfter (SyncDao.timestamp w.db .profile))) :
    Storing w (SyncDao.timestamp w.db .profile) remoteChanges := by
  have hmem : ∀ r, r ∈ remoteChanges ↔
      r ∈ w.server.records ∧ SyncDao.timestamp w.db .profile < r.lastModified := by
    intro r
    rw [hperm.mem_iff]
    simp [ProfileServer.changesAfter]
  have hle := le_latest (SyncDao.timestamp w.db .profile) remoteChanges
  constructor
  · apply latest_le h.timestamp_le
    intro r hr
    exact h.record_le r ((hmem r).mp hr).1
  · intro r hr
    obtain ⟨hrec, hnew⟩ := (hmem r).mp hr
    refine ⟨hnew, hle.2 r hr, ?_, ?_⟩
    · rw [Table.mem_iff_find?.mp hrec]
      simp
    · intro r' hr' hk
      exact .inl (Table.eq_of_key_eq hr' hrec hk)
  · intro r hr _
    by_cases hnew : SyncDao.timestamp w.db .profile < r.lastModified
    · exact .inl ((hmem r).mpr ⟨hr, hnew⟩)
    · exact .inr (h.synced r hr (not_lt.mp hnew))

private theorem lastModified_updateLatestSync (i m : LastModified) (db : Db) (key : String) :
    UserSettingsDao.lastModified (updateLatestSync i m db) key = UserSettingsDao.lastModified db key := by
  unfold UserSettingsDao.lastModified
  rw [timestamp_only]

/-- The timestamp moves when every version up to it is stored. -/
theorem Synced.updateLatestSync {w : World} {m : LastModified} (h : Synced w) (hst : Storing w m []) :
    Synced { w with db := updateLatestSync (SyncDao.timestamp w.db .profile) m w.db } := by
  have hts : SyncDao.timestamp (ProfileSyncer.updateLatestSync (SyncDao.timestamp w.db .profile) m w.db) .profile =
      if SyncDao.timestamp w.db .profile < m then m else SyncDao.timestamp w.db .profile := by
    unfold ProfileSyncer.updateLatestSync
    split
    · exact SyncDao.timestamp_setTimestamp _ _ _
    · rfl
  have hm : m ≤ w.server.clock := hst.latest_le
  refine ⟨h.record_le, ?_, ?_, ?_, ?_⟩
  · rw [hts]
    split
    · exact hm
    · exact h.timestamp_le
  · intro key
    rw [lastModified_updateLatestSync]
    exact h.stored_le key
  · intro r hr hle
    rw [hts] at hle
    rw [lastModified_updateLatestSync]
    split at hle
    · rcases hst.stored r hr hle with hin | heq
      · cases hin
      · exact heq
    · exact h.synced r hr hle
  · intro key hk
    rw [lastModified_updateLatestSync]
    exact h.absent key hk

private theorem uploadChange_eq {server : ProfileServer} {later : Nat} {newValue : ProfileInfo String}
    {p : ProfileServer × ProfileInfo String} (h : server.uploadChange later newValue = .ok p) :
    p = server.store later newValue.key newValue.value := by
  unfold ProfileServer.uploadChange at h
  split at h
  · cases h; rfl
  · cases h

private theorem consistent_step {s s' : State} {a : Action} (h : Consistent s) (hstep : Step P privateDataKey s a s') :
    Consistent s' := by
  obtain ⟨hs, hphase⟩ := h
  cases a with
  | setLocalValue key localValue =>
    obtain ⟨db, hdb, rfl⟩ := hstep
    -- an edit leaves the time of the last sync and the versions
    have hsync : db.sync = s.db.sync := by
      obtain ⟨db', hok, hsync, _⟩ := UserSettingsDao.setLocalValue_eq_ok s.db key localValue
      rw [hdb] at hok
      cases hok
      exact hsync
    have hts : SyncDao.timestamp db .profile = SyncDao.timestamp s.db .profile := by
      unfold SyncDao.timestamp
      rw [hsync]
    have hlm := UserSettingsDao.lastModified_setLocalValue hdb
    exact ⟨hs.of_db hts hlm, hphase.of_db hts hlm⟩
  | otherDevice later key value =>
    subst hstep
    exact ⟨hs.store later key value, hphase.store later key value⟩
  | downloadChanges remoteChanges =>
    obtain ⟨_, hperm, rfl⟩ := hstep
    exact ⟨hs, rfl, storing_of_perm hs hperm⟩
  | storeRemote =>
    obtain ⟨i, m, remoteChange, remoteChanges, db, hp, hdb, rfl⟩ := hstep
    obtain ⟨value, _, rfl⟩ := storeRemote_eq_ok hdb
    rw [hp] at hphase
    obtain ⟨hi, hst⟩ := hphase
    refine ⟨hs.setRemoteValue (hst.pending remoteChange List.mem_cons_self) hst.latest_le value, ?_, ?_⟩
    · exact hi.trans (timestamp_setRemoteValue _ _ _).symm
    · exact hst.setRemoteValue value
  | updateLatestSync =>
    obtain ⟨i, m, hp, rfl⟩ := hstep
    rw [hp] at hphase
    obtain ⟨rfl, hst⟩ := hphase
    exact ⟨hs.updateLatestSync hst, trivial⟩
  | localChanges =>
    obtain ⟨_, rfl⟩ := hstep
    exact ⟨hs, trivial⟩
  | uploadChange u =>
    obtain ⟨localChange, localChanges, _, hs'⟩ := hstep
    split at hs'
    · next server remoteChange hup =>
      have heq := uploadChange_eq hup
      have hserver := congrArg Prod.fst heq
      have hremote := congrArg Prod.snd heq
      dsimp only at hserver hremote
      subst hserver hremote hs'
      exact ⟨hs.store _ _ _, le_refl _, pending_store _ _ _ hs⟩
    · subst hs'
      exact ⟨hs, trivial⟩
  | storeUploaded =>
    obtain ⟨remoteChange, localChanges, db, hp, hdb, rfl⟩ := hstep
    obtain ⟨value, _, rfl⟩ := storeRemote_eq_ok hdb
    rw [hp] at hphase
    exact ⟨hs.setRemoteValue hphase.2 hphase.1 value, trivial⟩
  | finish =>
    obtain ⟨_, rfl⟩ := hstep
    exact ⟨hs, trivial⟩
  | stop =>
    subst hstep
    exact ⟨hs, trivial⟩

end consistent

/-! ### A whole run -/

section run

theorem transaction_of_ok {f : Db → Except Exn Db} {w : World} {db : Db} (h : f w.db = .ok db) :
    transaction f w = .ok () { w with db := db } := by
  unfold transaction
  rw [bind_of_ok get_apply, h]
  rfl

theorem transaction_of_error {f : Db → Except Exn Db} {w : World} {e : Exn} (h : f w.db = .error e) :
    transaction f w = .error e w := by
  unfold transaction
  rw [bind_of_ok get_apply, h]
  rfl

private theorem storeChanges_reaches {s : State} {i m : LastModified} {remoteChanges : List (ProfileInfo String)}
    (hphase : s.phase = .storing i m remoteChanges) :
    Ends (storeChanges P privateDataKey m remoteChanges) s.toWorld
      (fun m' w' => ∃ s', s'.toWorld = w' ∧ s'.phase = .storing i m' [] ∧
        Reaches (Step P privateDataKey) (fun _ _ => True) s s')
      (fun _ w' => ∃ s', s'.toWorld = w' ∧ Reaches (Step P privateDataKey) (fun _ _ => True) s s') := by
  induction remoteChanges generalizing s m with
  | nil =>
    unfold storeChanges
    rw [ends_pure]
    exact ⟨s, rfl, hphase, .refl⟩
  | cons r rs ih =>
    unfold storeChanges
    rw [ends_bind]
    cases hdb : storeRemote P privateDataKey s.db r with
    | error e =>
      apply Ends.of_eq_error (transaction_of_error hdb)
      exact ⟨s, rfl, .refl⟩
    | ok db =>
      apply Ends.of_eq_ok (transaction_of_ok hdb)
      have hstep : Step P privateDataKey s .storeRemote
          { s.stored r db with phase := .storing i (max m r.lastModified) rs } := ⟨i, m, r, rs, db, hphase, hdb, rfl⟩
      have hreach : Reaches (Step P privateDataKey) (fun _ _ => True) s
          { s.stored r db with phase := .storing i (max m r.lastModified) rs } := Reaches.refl.snoc trivial hstep
      refine (ih (s := { s.stored r db with phase := .storing i (max m r.lastModified) rs }) rfl).mono ?_ ?_
      · rintro m' w' ⟨s', hw, hp, hr⟩
        exact ⟨s', hw, hp, hreach.trans hr⟩
      · rintro e w' ⟨s', hw, hr⟩
        exact ⟨s', hw, hreach.trans hr⟩

private theorem uploadChange_reaches {u : Upload} {s : State} {c : ProfileInfo Bytes} {cs : List (ProfileInfo Bytes)}
    (hphase : s.phase = .uploading (c :: cs)) :
    Ends (uploadChange P privateDataKey u c) s.toWorld
      (fun _ w' => ∃ s', s'.toWorld = w' ∧ s'.phase = .uploading cs ∧
        Reaches (Step P privateDataKey) (fun _ _ => True) s s')
      (fun _ w' => ∃ s', s'.toWorld = w' ∧ Reaches (Step P privateDataKey) (fun _ _ => True) s s') := by
  unfold uploadChange
  rw [ends_bind, ends_get]
  cases hup : s.server.uploadChange u.later (encryptChange P privateDataKey u.iv c) with
  | error e =>
    have hconflict : e = .conflict := by
      unfold ProfileServer.uploadChange at hup
      split at hup
      · cases hup
      · cases hup; rfl
    subst hconflict
    have hstep : Step P privateDataKey s (.uploadChange u) { s with phase := .uploading cs } := by
      refine ⟨c, cs, hphase, ?_⟩
      rw [hup]
    exact ⟨{ s with phase := .uploading cs }, rfl, rfl, Reaches.refl.snoc trivial hstep⟩
  | ok p =>
    obtain ⟨server, r⟩ := p
    have hstep : Step P privateDataKey s (.uploadChange u)
        { s with server := server, phase := .uploaded r cs, uploads := r :: s.uploads } := by
      refine ⟨c, cs, hphase, ?_⟩
      rw [hup]
    have hreach : Reaches (Step P privateDataKey) (fun _ _ => True) s
        { s with server := server, phase := .uploaded r cs, uploads := r :: s.uploads } :=
      Reaches.refl.snoc trivial hstep
    dsimp only
    rw [ends_bind, ends_modify]
    cases hdb : storeRemote P privateDataKey s.db r with
    | error e =>
      apply Ends.of_eq_error (transaction_of_error hdb)
      exact ⟨_, rfl, hreach⟩
    | ok db =>
      apply Ends.of_eq_ok (transaction_of_ok hdb)
      have hreach' := hreach.snoc (a := Action.storeUploaded) trivial ⟨r, cs, db, rfl, hdb, rfl⟩
      exact ⟨_, rfl, rfl, hreach'⟩

private theorem uploadChanges_reaches (us : Nat → Upload) {s : State} {localChanges : List (ProfileInfo Bytes)} {n : Nat}
    (hphase : s.phase = .uploading localChanges) :
    Ends (uploadChanges P privateDataKey us localChanges n) s.toWorld
      (fun _ w' => ∃ s', s'.toWorld = w' ∧ Reaches (Step P privateDataKey) (fun _ _ => True) s s')
      (fun _ w' => ∃ s', s'.toWorld = w' ∧ Reaches (Step P privateDataKey) (fun _ _ => True) s s') := by
  induction localChanges generalizing s n with
  | nil =>
    unfold uploadChanges
    rw [ends_pure]
    exact ⟨s, rfl, .refl⟩
  | cons c cs ih =>
    unfold uploadChanges
    rw [ends_bind]
    refine (uploadChange_reaches hphase).mono ?_ (fun _ _ h => h)
    rintro _ w ⟨s₁, rfl, hp₁, hr₁⟩
    refine (ih hp₁).mono ?_ ?_
    · rintro _ w ⟨s₂, hw, hr₂⟩
      exact ⟨s₂, hw, hr₁.trans hr₂⟩
    · rintro e w ⟨s₂, hw, hr₂⟩
      exact ⟨s₂, hw, hr₁.trans hr₂⟩

/-- A run is a run of the steps. -/
theorem run_reaches {s : State} (hidle : s.phase = .idle) {remoteChanges : List (ProfileInfo String)}
    (hperm : remoteChanges.Perm (s.server.changesAfter (SyncDao.timestamp s.db .profile))) (us : Nat → Upload) :
    ∃ s', s'.toWorld = final (run P privateDataKey remoteChanges us s.toWorld) ∧ s'.phase = .idle ∧
      Reaches (Step P privateDataKey) (fun _ _ => True) s s' := by
  have hdownload : Step P privateDataKey s (.downloadChanges remoteChanges) _ := ⟨hidle, hperm, rfl⟩
  have hstart : Reaches (Step P privateDataKey) (fun _ _ => True) s _ := Reaches.refl.snoc trivial hdownload
  have hstop : ∀ {s' : State}, Reaches (Step P privateDataKey) (fun _ _ => True) s s' →
      Reaches (Step P privateDataKey) (fun _ _ => True) s { s' with phase := .idle } :=
    fun h => h.snoc (a := Action.stop) trivial rfl
  rw [← ends_final (Q := fun w => ∃ s' : State, s'.toWorld = w ∧ s'.phase = .idle ∧
    Reaches (Step P privateDataKey) (fun _ _ => True) s s')]
  unfold run
  rw [ends_bind, ends_get, ends_bind]
  refine (storeChanges_reaches (i := SyncDao.timestamp s.db .profile) (s := { s with phase := _ }) rfl).mono ?_ ?_
  · rintro m w ⟨s₁, rfl, hp₁, hr₁⟩
    rw [ends_bind, ends_modify, ends_bind, ends_get]
    have hr₂ := (hstart.trans hr₁).snoc (a := Action.updateLatestSync) trivial ⟨_, m, hp₁, rfl⟩
    have hr₃ := hr₂.snoc (a := Action.localChanges) trivial ⟨rfl, rfl⟩
    refine (uploadChanges_reaches us (s := { s₁ with
      db := updateLatestSync (SyncDao.timestamp s.db .profile) m s₁.db
      phase := .uploading (UserSettingsDao.localChanges
        (updateLatestSync (SyncDao.timestamp s.db .profile) m s₁.db)) }) rfl).mono ?_ ?_
    · rintro _ w ⟨s₄, rfl, hr₄⟩
      exact ⟨{ s₄ with phase := .idle }, rfl, rfl, hstop (hr₃.trans hr₄)⟩
    · rintro e w ⟨s₄, rfl, hr₄⟩
      exact ⟨{ s₄ with phase := .idle }, rfl, rfl, hstop (hr₃.trans hr₄)⟩
  · rintro e w ⟨s₁, rfl, hr₁⟩
    exact ⟨{ s₁ with phase := .idle }, rfl, rfl, hstop (hstart.trans hr₁)⟩

private theorem storeChanges_runs {w : World} {m : LastModified} {remoteChanges : List (ProfileInfo String)} (hs : Synced w)
    (hst : Storing w m remoteChanges)
    (hdec : ∀ r ∈ remoteChanges, ∃ value, decrypt P privateDataKey r.value = .ok value) :
    ∃ db, storeChanges P privateDataKey m remoteChanges w = .ok (latest m remoteChanges) { w with db := db } ∧
      SyncDao.timestamp db .profile = SyncDao.timestamp w.db .profile ∧
      Synced { w with db := db } ∧ Storing { w with db := db } (latest m remoteChanges) [] := by
  induction remoteChanges generalizing w m with
  | nil => exact ⟨w.db, rfl, rfl, hs, hst⟩
  | cons r rs ih =>
    rw [List.forall_mem_cons] at hdec
    obtain ⟨value, hvalue⟩ := hdec.1
    have hs₁ := hs.setRemoteValue (hst.pending r List.mem_cons_self) hst.latest_le value
    obtain ⟨db, hrun, hts, hs₂, hst₂⟩ := ih hs₁ (hst.setRemoteValue value) hdec.2
    refine ⟨db, ?_, ?_, hs₂, hst₂⟩
    · unfold storeChanges
      rw [bind_of_ok (transaction_of_ok (storeRemote_of_decrypt hvalue))]
      exact hrun
    · rw [hts, timestamp_setRemoteValue]

/-- The uploads that are left: the server accepts each, and nothing else is changed. -/
structure Uploading (w : World) (localChanges : List (ProfileInfo Bytes)) : Prop where
  nodup : (localChanges.map ProfileInfo.key).Nodup
  current : ∀ c ∈ localChanges, w.server.lastModified c.key = c.lastModified
  stored_le : ∀ key, UserSettingsDao.lastModified w.db key ≤ w.server.clock
  changed : ∀ key r, w.db.usersettings.find? key = some r → UserSettingsDao.isChanged r = true →
    ∃ c ∈ localChanges, c.key = key

private theorem uploading_localChanges {w : World} (h : Synced w)
    (hall : ∀ r ∈ w.server.records, UserSettingsDao.lastModified w.db r.key = r.lastModified) :
    Uploading w (UserSettingsDao.localChanges w.db) := by
  constructor
  · exact UserSettingsDao.localChanges_keys_nodup w.db
  · intro c hc
    obtain ⟨r, hr, _, hc⟩ := UserSettingsDao.mem_localChanges.mp hc
    have hlm : UserSettingsDao.lastModified w.db c.key = c.lastModified := by
      rw [UserSettingsDao.lastModified_of_find? hr, hc]
    rw [← hlm]
    unfold ProfileServer.lastModified
    cases hrec : w.server.records.find? c.key with
    | none => exact (h.absent c.key hrec).symm
    | some rec =>
      obtain ⟨hmem, hk⟩ := Table.find?_eq_some.mp hrec
      rw [← hk]
      exact (hall rec hmem).symm
  · exact h.stored_le
  · intro key r hr hch
    have hk : r.key = key := Table.key_of_find? hr
    refine ⟨⟨r.key, r.localValue.getD [], r.lastModified⟩, ?_, hk⟩
    rw [UserSettingsDao.mem_localChanges]
    exact ⟨r, by rw [hk]; exact hr, hch, rfl⟩

/-- A version under a new `lastModified` leaves no change. -/
theorem isChanged_received {info : ProfileInfo Bytes} {r : Option UserSettingRow}
    (h : ∀ r', r = some r' → r'.lastModified ≠ info.lastModified) :
    UserSettingsDao.isChanged (UserSettingsDao.received info r) = false := by
  cases r with
  | none => rfl
  | some r =>
    rw [UserSettingsDao.received_of_ne (h r rfl)]
    rfl

private theorem uploadChange_runs {u : Upload} {w : World} {c : ProfileInfo Bytes} {cs : List (ProfileInfo Bytes)}
    (h : Uploading w (c :: cs))
    (hdec : decrypt P privateDataKey (encrypt P privateDataKey u.iv c.value) = .ok c.value) :
    ∃ w', uploadChange P privateDataKey u c w = .ok () w' ∧ Uploading w' cs := by
  obtain ⟨hnotin, hnodup⟩ := List.nodup_cons.mp h.nodup
  -- the server accepts a change made to its last version
  have haccepted : w.server.uploadChange u.later (encryptChange P privateDataKey u.iv c) =
      .ok (w.server.store u.later c.key (encrypt P privateDataKey u.iv c.value)) :=
    if_pos (h.current c List.mem_cons_self)
  have hclock := clock_lt_store (w := w) u.later c.key (encrypt P privateDataKey u.iv c.value)
  have hstored : storeRemote P privateDataKey w.db
      (w.server.store u.later c.key (encrypt P privateDataKey u.iv c.value)).2 = .ok _ :=
    @storeRemote_of_decrypt P privateDataKey w.db _ c.value hdec
  refine ⟨⟨UserSettingsDao.setRemoteValue w.db ⟨c.key, c.value, w.server.clock + u.later + 1⟩,
    (w.server.store u.later c.key (encrypt P privateDataKey u.iv c.value)).1⟩, ?_, ?_⟩
  · unfold uploadChange
    rw [bind_of_ok get_apply, haccepted]
    dsimp only
    rw [bind_of_ok (modify_apply _), transaction_of_ok hstored]
    rfl
  · constructor
    · exact hnodup
    · intro c' hc'
      have hne : ¬ c.key = c'.key := fun e => hnotin (e ▸ List.mem_map_of_mem hc')
      rw [← h.current c' (List.mem_cons_of_mem _ hc')]
      unfold ProfileServer.lastModified
      dsimp only
      rw [find?_records_store, if_neg hne]
    · intro key
      rw [UserSettingsDao.lastModified_setRemoteValue]
      split
      · exact le_refl _
      · exact le_trans (h.stored_le key) hclock.le
    · intro key r hr hch
      dsimp only at hr
      rw [UserSettingsDao.find?_setRemoteValue] at hr
      by_cases hk : c.key = key
      · subst hk
        rw [if_pos rfl] at hr
        cases hr
        rw [isChanged_received] at hch
        · cases hch
        · intro r hr hlm
          have hle := h.stored_le c.key
          rw [UserSettingsDao.lastModified_of_find? hr, hlm] at hle
          exact absurd hclock (not_lt.mpr hle)
      · rw [if_neg hk] at hr
        obtain ⟨c', hc', hk'⟩ := h.changed key r hr hch
        rcases List.mem_cons.mp hc' with rfl | hc'
        · exact absurd hk' hk
        · exact ⟨c', hc', hk'⟩

private theorem uploadChanges_runs {us : Nat → Upload}
    (hdec : ∀ i value, decrypt P privateDataKey (encrypt P privateDataKey (us i).iv value) = .ok value)
    (localChanges : List (ProfileInfo Bytes)) {w : World} (h : Uploading w localChanges) (i : Nat) :
    ∃ w', uploadChanges P privateDataKey us localChanges i w = .ok () w' ∧ Uploading w' [] := by
  induction localChanges generalizing w i with
  | nil => exact ⟨w, rfl, h⟩
  | cons c cs ih =>
    obtain ⟨w₁, hrun₁, h₁⟩ := uploadChange_runs h (hdec i c.value)
    obtain ⟨w₂, hrun₂, h₂⟩ := ih h₁ (i + 1)
    refine ⟨w₂, ?_, h₂⟩
    unfold uploadChanges
    rw [bind_of_ok hrun₁, hrun₂]

/-- A run of its own ends without a local change. -/
theorem run_uploads {w : World} (hs : Synced w) {us : Nat → Upload}
    (hdec : ∀ i value, decrypt P privateDataKey (encrypt P privateDataKey (us i).iv value) = .ok value)
    (hrec : ∀ r ∈ w.server.records, ∃ value, decrypt P privateDataKey r.value = .ok value)
    {remoteChanges : List (ProfileInfo String)}
    (hperm : remoteChanges.Perm (w.server.changesAfter (SyncDao.timestamp w.db .profile))) :
    ∃ w', run P privateDataKey remoteChanges us w = .ok () w' ∧ UserSettingsDao.localChanges w'.db = [] := by
  have hmem : ∀ r, r ∈ remoteChanges ↔
      r ∈ w.server.records ∧ SyncDao.timestamp w.db .profile < r.lastModified := by
    intro r
    rw [hperm.mem_iff]
    simp [ProfileServer.changesAfter]
  have hst := storing_of_perm hs hperm
  obtain ⟨db, hrun, hts, hs₁, hst₁⟩ :=
    storeChanges_runs hs hst (fun r hr => hrec r ((hmem r).mp hr).1)
  have hle := le_latest (SyncDao.timestamp w.db .profile) remoteChanges
  have hall : ∀ r ∈ w.server.records, UserSettingsDao.lastModified db r.key = r.lastModified := by
    intro r hr
    have hbound : r.lastModified ≤ latest (SyncDao.timestamp w.db .profile) remoteChanges := by
      by_cases hnew : SyncDao.timestamp w.db .profile < r.lastModified
      · exact hle.2 r ((hmem r).mpr ⟨hr, hnew⟩)
      · exact le_trans (not_lt.mp hnew) hle.1
    rcases hst₁.stored r hr hbound with hin | heq
    · cases hin
    · exact heq
  have hs₂ := hs₁.updateLatestSync hst₁
  have hup := uploading_localChanges hs₂ (by
    intro r hr
    dsimp only
    rw [lastModified_updateLatestSync]
    exact hall r hr)
  obtain ⟨w', hrun', hend⟩ := uploadChanges_runs hdec _ hup 0
  refine ⟨w', ?_, ?_⟩
  · unfold run
    rw [bind_of_ok get_apply, bind_of_ok hrun, bind_of_ok (modify_apply _), bind_of_ok get_apply]
    dsimp only at hrun' ⊢
    rw [hts] at hrun'
    exact hrun'
  · rw [List.eq_nil_iff_forall_not_mem]
    intro c hc
    obtain ⟨r, hr, hch, _⟩ := UserSettingsDao.mem_localChanges.mp hc
    obtain ⟨c', hc', _⟩ := hend.changed _ r hr hch
    cases hc'

end run

/-! ### No edit is lost -/

/-- A client without settings and a server with any. -/
structure Initial (s : State) : Prop where
  usersettings : s.db.usersettings = ∅
  timestamp : SyncDao.timestamp s.db .profile = 0
  records : ∀ r ∈ s.server.records, r.lastModified ≤ s.server.clock
  phase : s.phase = .idle
  edits : s.edits = fun _ => none

private theorem consistent_of_initial {s : State} (h : Initial s) : Consistent s := by
  have hlm : ∀ key, UserSettingsDao.lastModified s.db key = 0 := by
    intro key
    unfold UserSettingsDao.lastModified
    rw [h.usersettings]
    rfl
  refine ⟨⟨h.records, ?_, ?_, ?_, ?_⟩, ?_⟩
  · rw [h.timestamp]; exact Nat.zero_le _
  · intro key; rw [hlm]; exact Nat.zero_le _
  · intro r _ hle
    rw [h.timestamp] at hle
    rw [hlm]
    exact (Nat.le_zero.mp hle).symm
  · intro key _; exact hlm key
  · rw [h.phase]
    trivial

/-- In every run in which no version uploaded here is stored after the user has set another value, what the user set
last is what is read until a new version of someone else is stored.  A stored version changes nothing when it is
delivered again, storing versions twice is storing them once, and after any steps at all a run that nothing disturbs
leaves no local change. -/
theorem edits_of_reaches (hbase64 : ∀ b, P.base64Decode (P.base64Encode b) = .ok b)
    (hgcm : ∀ iv : Bytes, iv.length = SymmetricCryptor.randomIVBytes → GcmRoundTrips P privateDataKey iv)
    {s₀ : State} (h₀ : Initial s₀) :
    (∀ s, Reaches (Step P privateDataKey) (UneditedWhenStored P privateDataKey) s₀ s →
      ∀ key value, s.edits key = some value → UserSettingsDao.value s.db key = some value) ∧
    (∀ (db : Db) (info : ProfileInfo Bytes) (r : UserSettingRow), db.usersettings.find? info.key = some r →
      r.lastModified = info.lastModified → UserSettingsDao.setRemoteValue db info = db) ∧
    (∀ (db : Db) (infos : List (ProfileInfo Bytes)),
      infos.foldl UserSettingsDao.setRemoteValue (infos.foldl UserSettingsDao.setRemoteValue db) =
        infos.foldl UserSettingsDao.setRemoteValue db) ∧
    ∀ s, Reaches (Step P privateDataKey) (fun _ _ => True) s₀ s →
      (∀ r ∈ s.server.records, ∃ value, decrypt P privateDataKey r.value = .ok value) →
      ∀ remoteChanges, remoteChanges.Perm (s.server.changesAfter (SyncDao.timestamp s.db .profile)) →
      ∀ us : Nat → Upload, (∀ i, (us i).iv.length = SymmetricCryptor.randomIVBytes) →
      ∃ w, run P privateDataKey remoteChanges us s.toWorld = .ok () w ∧ UserSettingsDao.localChanges w.db = [] := by
  refine ⟨?_, ?_, ?_, ?_⟩
  · intro s h
    have hstart : HoldsEdits s₀ := by
      intro key value hv
      rw [h₀.edits] at hv
      cases hv
    exact h.keeps (I := HoldsEdits) (fun _ _ _ hI hok hstep => holdsEdits_step hI hok hstep) hstart
  · intro db info r hr hlm
    exact UserSettingsDao.setRemoteValue_of_stored hr hlm
  · intro db infos
    exact UserSettingsDao.setRemoteValues_twice infos db
  -- a run stores what it downloaded and then uploads every change left
  · intro s h hrec remoteChanges hperm us hiv
    have hs : Consistent s :=
      h.keeps (I := Consistent) (fun _ _ _ hI _ hstep => consistent_step hI hstep) (consistent_of_initial h₀)
    exact run_uploads hs.1 (fun i value => decrypt_encrypt hbase64 (hgcm _ (hiv i)) (hiv i) value) hrec hperm

/-- A client without settings and an empty server. -/
def fresh : State where
  db := {}
  server := {}

private theorem initial_fresh : Initial fresh where
  usersettings := rfl
  timestamp := rfl
  records := fun _ hr => absurd hr List.not_mem_nil
  phase := rfl
  edits := rfl

/-- The version that the upload of a name makes. -/
private def uploadedName : ProfileInfo String :=
  ⟨"name", encrypt Platform.tagging [] (List.replicate 16 0) [97], 1⟩

private theorem decrypt_uploadedName : decrypt Platform.tagging [] uploadedName.value = .ok [97] :=
  decrypt_encrypt Platform.tagging_base64 (Platform.tagging_gcm _ _) rfl _

/-- The user sets a name, a run uploads it, the user sets an address while the answer is on its way, and the
acknowledgement of the name is stored. -/
theorem edits_of_reaches_acknowledged :
    ∃ s, Reaches (Step Platform.tagging []) (UneditedWhenStored Platform.tagging []) fresh s ∧
      s.uploads = [uploadedName] ∧ IsStored s.db uploadedName ∧
      UserSettingsDao.value s.db "name" = some [97] ∧ UserSettingsDao.value s.db "address" = some [98] := by
  have h₁ : Reaches (Step Platform.tagging []) (UneditedWhenStored Platform.tagging []) fresh _ :=
    Reaches.refl.snoc (a := Action.setLocalValue "name" [97]) trivial ⟨_, rfl, rfl⟩
  have h₂ := h₁.snoc (a := Action.downloadChanges []) trivial ⟨rfl, List.Perm.refl _, rfl⟩
  have h₃ := h₂.snoc (a := Action.updateLatestSync) trivial ⟨_, _, rfl, rfl⟩
  have h₄ := h₃.snoc (a := Action.localChanges) trivial ⟨rfl, rfl⟩
  have h₅ := h₄.snoc (a := Action.uploadChange ⟨List.replicate 16 0, 0⟩) trivial ⟨⟨"name", [97], 0⟩, [], rfl, rfl⟩
  have h₆ := h₅.snoc (a := Action.setLocalValue "address" [98]) trivial ⟨_, rfl, rfl⟩
  have h₇ := h₆.snoc (a := Action.storeUploaded) (by
    intro remoteChange localChanges hphase _
    cases hphase
    right
    intro value edit hvalue hedit
    cases decrypt_uploadedName.symm.trans hvalue
    cases hedit
    rfl) ⟨uploadedName, [], _, rfl, storeRemote_of_decrypt decrypt_uploadedName, rfl⟩
  have hread := (@edits_of_reaches Platform.tagging [] Platform.tagging_base64
    (fun iv _ => Platform.tagging_gcm [] iv) _ initial_fresh).1 _ h₇
  exact ⟨_, h₇, rfl, ⟨_, rfl, rfl⟩, hread "name" [97] rfl, hread "address" [98] rfl⟩

/-- A name that is set while the one before it is uploaded is overwritten by the acknowledgement. -/
theorem edits_lost :
    ¬ ∀ s, Reaches (Step Platform.tagging []) (fun _ _ => True) fresh s →
      ∀ key value, s.edits key = some value → UserSettingsDao.value s.db key = some value := by
  intro h
  have h₁ : Reaches (Step Platform.tagging []) (fun _ _ => True) fresh _ :=
    Reaches.refl.snoc (a := Action.setLocalValue "name" [97]) trivial ⟨_, rfl, rfl⟩
  have h₂ := h₁.snoc (a := Action.downloadChanges []) trivial ⟨rfl, List.Perm.refl _, rfl⟩
  have h₃ := h₂.snoc (a := Action.updateLatestSync) trivial ⟨_, _, rfl, rfl⟩
  have h₄ := h₃.snoc (a := Action.localChanges) trivial ⟨rfl, rfl⟩
  have h₅ := h₄.snoc (a := Action.uploadChange ⟨List.replicate 16 0, 0⟩) trivial ⟨⟨"name", [97], 0⟩, [], rfl, rfl⟩
  have h₆ := h₅.snoc (a := Action.setLocalValue "name" [98]) trivial ⟨_, rfl, rfl⟩
  have h₇ := h₆.snoc (a := Action.storeUploaded) trivial
    ⟨uploadedName, [], _, rfl, storeRemote_of_decrypt decrypt_uploadedName, rfl⟩
  have hlost := h _ h₇ "name" [98] rfl
  exact absurd hlost (by decide)

end ProfileSyncer

end KulloClient
