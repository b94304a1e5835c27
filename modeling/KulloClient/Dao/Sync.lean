import KulloClient.Db.Schema

/-!
# SyncDao

The timestamps up to which the server's changes have been processed, one for each kind of data.
-/

namespace KulloClient

namespace SyncDao

def timestamp (db : Db) (type : SyncDataType) : LastModified :=
  ((db.sync.find? type).map SyncRow.timestamp).getD 0

def setTimestamp (db : Db) (type : SyncDataType) (t : LastModified) : Db :=
  { db with sync := db.sync.insertOrReplace ⟨type, t⟩ }

@[simp] theorem timestamp_setTimestamp (db : Db) (type : SyncDataType) (t : LastModified) :
    timestamp (setTimestamp db type t) type = t := by
  simp [timestamp, setTimestamp]

end SyncDao

end KulloClient
