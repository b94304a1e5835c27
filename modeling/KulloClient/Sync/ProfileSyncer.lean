import KulloClient.Base.Runs
import KulloClient.Crypto.SymmetricCryptor
import KulloClient.Dao.UserSettings
import Mathlib.Logic.Function.Basic

/-!
# ProfileSyncer

Downloading and uploading the user's settings.  `run` is the whole run; `Step` takes it apart into its database steps
and requests, between which the main thread sets values and other devices upload theirs.  The server keeps one
version of each key and gives every change a larger `lastModified`.
-/

namespace KulloClient

open Imperative
open Relational (Table)
open Transition

/-- The profile of a user at the server. -/
structure ProfileServer where
  records : Table (ProfileInfo.key (α := String)) := ∅
  /-- At least every `lastModified` that was given. -/
  clock : LastModified := 0

namespace ProfileServer

def lastModified (server : ProfileServer) (key : String) : LastModified :=
  ((server.records.find? key).map ProfileInfo.lastModified).getD 0

def changesAfter (server : ProfileServer) (modifiedAfter : LastModified) : List (ProfileInfo String) :=
  server.records.select fun r => modifiedAfter < r.lastModified

/-- A change is stored `later` than the latest one. -/
def store (server : ProfileServer) (later : Nat) (key value : String) : ProfileServer × ProfileInfo String :=
  let r : ProfileInfo String := ⟨key, value, server.clock + later + 1⟩
  (⟨server.records.insertOrReplace r, r.lastModified⟩, r)

/-- A change of the current version is stored, any other one is a conflict. -/
def uploadChange (server : ProfileServer) (later : Nat) (newValue : ProfileInfo String) :
    Except Exn (ProfileServer × ProfileInfo String) :=
  if server.lastModified newValue.key = newValue.lastModified then
    .ok (server.store later newValue.key newValue.value)
  else .error .conflict

end ProfileServer

namespace ProfileSyncer

/-- What the syncer works on. -/
structure World where
  db : Db
  server : ProfileServer

/-- What one upload draws: the IV, and when the server stores it. -/
structure Upload where
  iv : Bytes
  later : Nat

section

variable (P : Platform) (privateDataKey : Bytes)

def encrypt (iv plaintext : Bytes) : String :=
  P.base64Encode (iv ++ SymmetricCryptor.encrypt P plaintext privateDataKey iv)

def decrypt (ciphertext : String) : Except Exn Bytes := do
  let ivAndCiphertext ← Platform.ofBotan (P.base64Decode ciphertext)
  SymmetricCryptor.decryptWithIV P ivAndCiphertext privateDataKey SymmetricCryptor.randomIVBytes

/-- A version of the server is decrypted and stored, in a transaction of its own. -/
def storeRemote (db : Db) (remoteChange : ProfileInfo String) : Except Exn Db := do
  let value ← decrypt P privateDataKey remoteChange.value
  .ok (UserSettingsDao.setRemoteValue db ⟨remoteChange.key, value, remoteChange.lastModified⟩)

/-- A local change as it is sent. -/
def encryptChange (iv : Bytes) (localChange : ProfileInfo Bytes) : ProfileInfo String :=
  ⟨localChange.key, encrypt P privateDataKey iv localChange.value, localChange.lastModified⟩

/-! ### A run -/

def transaction (f : Db → Except Exn Db) : EStateM Exn World Unit := do
  match f (← get).db with
  | .ok db => modify fun w => { w with db := db }
  | .error e => throw e

/-- The download loop, with the largest `lastModified` so far. -/
def storeChanges (maxLastModified : LastModified) : List (ProfileInfo String) → EStateM Exn World LastModified
  | [] => pure maxLastModified
  | remoteChange :: remoteChanges => do
    transaction fun db => storeRemote P privateDataKey db remoteChange
    storeChanges (max maxLastModified remoteChange.lastModified) remoteChanges

/-- The upload of one change; a newer version is downloaded on the next sync. -/
def uploadChange (u : Upload) (localChange : ProfileInfo Bytes) : EStateM Exn World Unit := do
  match (← get).server.uploadChange u.later (encryptChange P privateDataKey u.iv localChange) with
  | .ok (server, remoteChange) => do
    modify fun w => { w with server := server }
    transaction fun db => storeRemote P privateDataKey db remoteChange
  | .error .conflict => pure ()
  | .error e => throw e

def uploadChanges (us : Nat → Upload) : List (ProfileInfo Bytes) → Nat → EStateM Exn World Unit
  | [], _ => pure ()
  | localChange :: localChanges, i => do
    uploadChange P privateDataKey (us i) localChange
    uploadChanges us localChanges (i + 1)

/-- `updateLatestSync`, if there is something new. -/
def updateLatestSync (initialLatestSync maxLastModified : LastModified) (db : Db) : Db :=
  if initialLatestSync < maxLastModified then SyncDao.setTimestamp db .profile maxLastModified else db

/-- `ProfileSyncer::run`, for the server's answer to the download. -/
def run (remoteChanges : List (ProfileInfo String)) (us : Nat → Upload) : EStateM Exn World Unit := do
  let initialLatestSync := SyncDao.timestamp (← get).db .profile
  let maxLastModified ← storeChanges P privateDataKey initialLatestSync remoteChanges
  modify fun w => { w with db := updateLatestSync initialLatestSync maxLastModified w.db }
  uploadChanges P privateDataKey us (UserSettingsDao.localChanges (← get).db) 0

/-! ### The run among other steps -/

/-- Where the run is. -/
inductive Phase
  | idle
  | storing (initialLatestSync maxLastModified : LastModified) (remoteChanges : List (ProfileInfo String))
  | downloaded
  | uploading (localChanges : List (ProfileInfo Bytes))
  /-- The server has stored the version, the database has not. -/
  | uploaded (remoteChange : ProfileInfo String) (localChanges : List (ProfileInfo Bytes))

structure State extends World where
  phase : Phase := .idle
  /-- The value the user set last for a key, unless the server has delivered a version of someone else since. -/
  edits : String → Option Bytes := fun _ => none
  /-- The versions the server has stored for this client. -/
  uploads : List (ProfileInfo String) := []

inductive Action
  | setLocalValue (key : String) (localValue : Bytes)
  | otherDevice (later : Nat) (key value : String)
  | downloadChanges (remoteChanges : List (ProfileInfo String))
  | storeRemote
  | updateLatestSync
  | localChanges
  | uploadChange (u : Upload)
  | storeUploaded
  | finish
  /-- The run is cancelled or raises. -/
  | stop

/-- The stored version has this `lastModified`. -/
def IsStored (db : Db) (remoteChange : ProfileInfo String) : Prop :=
  ∃ r, db.usersettings.find? remoteChange.key = some r ∧ r.lastModified = remoteChange.lastModified

instance (db : Db) (remoteChange : ProfileInfo String) : Decidable (IsStored db remoteChange) :=
  decidable_of_iff ((db.usersettings.find? remoteChange.key).any
    fun r => r.lastModified == remoteChange.lastModified) (by simp [IsStored, Option.any_eq_true])

/-- A version is stored; a new one that was not uploaded here takes the place of what the user set. -/
def State.stored (s : State) (remoteChange : ProfileInfo String) (db : Db) : State :=
  { s with
    db := db
    edits := if remoteChange ∈ s.uploads ∨ IsStored s.db remoteChange then s.edits
      else Function.update s.edits remoteChange.key none }

def Step (s : State) : Action → State → Prop
  | .setLocalValue key localValue, s' =>
    ∃ db, UserSettingsDao.setLocalValue s.db key localValue = .ok db ∧
      s' = { s with db := db, edits := Function.update s.edits key (some localValue) }
  | .otherDevice later key value, s' => s' = { s with server := (s.server.store later key value).1 }
  | .downloadChanges remoteChanges, s' =>
    let initialLatestSync := SyncDao.timestamp s.db .profile
    s.phase = .idle ∧ remoteChanges.Perm (s.server.changesAfter initialLatestSync) ∧
      s' = { s with phase := .storing initialLatestSync initialLatestSync remoteChanges }
  | .storeRemote, s' =>
    ∃ initialLatestSync maxLastModified remoteChange remoteChanges db,
      s.phase = .storing initialLatestSync maxLastModified (remoteChange :: remoteChanges) ∧
      storeRemote P privateDataKey s.db remoteChange = .ok db ∧
      s' = { s.stored remoteChange db with
        phase := .storing initialLatestSync (max maxLastModified remoteChange.lastModified) remoteChanges }
  | .updateLatestSync, s' =>
    ∃ initialLatestSync maxLastModified, s.phase = .storing initialLatestSync maxLastModified [] ∧
      s' = { s with db := updateLatestSync initialLatestSync maxLastModified s.db, phase := .downloaded }
  | .localChanges, s' =>
    s.phase = .downloaded ∧ s' = { s with phase := .uploading (UserSettingsDao.localChanges s.db) }
  | .uploadChange u, s' =>
    ∃ localChange localChanges, s.phase = .uploading (localChange :: localChanges) ∧
      match s.server.uploadChange u.later (encryptChange P privateDataKey u.iv localChange) with
      | .ok (server, remoteChange) =>
        s' = { s with
          server := server, phase := .uploaded remoteChange localChanges, uploads := remoteChange :: s.uploads }
      | .error _ => s' = { s with phase := .uploading localChanges }
  | .storeUploaded, s' =>
    ∃ remoteChange localChanges db, s.phase = .uploaded remoteChange localChanges ∧
      storeRemote P privateDataKey s.db remoteChange = .ok db ∧
      s' = { s.stored remoteChange db with phase := .uploading localChanges }
  | .finish, s' => s.phase = .uploading [] ∧ s' = { s with phase := .idle }
  | .stop, s' => s' = { s with phase := .idle }

end

end ProfileSyncer

end KulloClient
