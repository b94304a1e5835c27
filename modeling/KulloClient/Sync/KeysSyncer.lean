import KulloClient.Codec.MessageDecryptor
import KulloClient.Codec.MessageRoundTrip
import KulloClient.Protocol.AccountKeys

/-!
# KeysSyncer

The keys of the account are downloaded, decrypted and stored, each statement in a transaction of its own, so that a run
that is interrupted leaves what it has stored.  `PrivateKeyProvider` keeps the private keys it has loaded and never looks
at the table again: that is right because a stored key pair never changes, whatever the server answers.
-/

namespace KulloClient

open Relational (Table)
open Imperative

/-! ### The tables of the keys -/

inductive SymmetricKeyType
  | masterKey
  | privateDataKey
  deriving DecidableEq

/-- A row of `keys_symm`. -/
structure SymmetricKeyRow where
  keyType : SymmetricKeyType
  key : Bytes
  deriving DecidableEq

/-- A row of `keys_asymm`, with all its columns. -/
structure KeyPairRow where
  id : IdType
  keyType : AsymmetricKeyType
  pubkey : Bytes := []
  privkey : Bytes := []
  validFrom : String := ""
  validUntil : String := ""
  revocation : Bytes := []
  deriving DecidableEq

structure KeyTables where
  keysSymm : Table SymmetricKeyRow.keyType := ∅
  keysAsymm : Table KeyPairRow.id := ∅

abbrev KeysM := EStateM Exn KeyTables

namespace KeysM

/-- A computation on the tables that changes nothing if it raises. -/
def lift {α : Type} (x : KeyTables → Except Exn (α × KeyTables)) : KeysM α := fun t =>
  match x t with
  | .ok (a, t') => .ok a t'
  | .error e => .error e t

end KeysM

structure SymmetricKeyDao where
  row : SymmetricKeyRow
  dirty : Bool := true
  storedInDb : Bool := false

namespace SymmetricKeyDao

def load (t : KeyTables) (type : SymmetricKeyType) : Option SymmetricKeyDao :=
  (t.keysSymm.find? type).map fun row => ⟨row, false, true⟩

def loadKey (t : KeyTables) (type : SymmetricKeyType) : Except Exn Bytes :=
  match load t type with
  | some dao => .ok dao.row.key
  | none => .error (.databaseIntegrityError "Couldn't load SymmetricKeyDao of privateDataKey")

/-- `SymmetricKeyDao(session)` with `setKeyType`, which makes it a new row. -/
def new (type : SymmetricKeyType) : SymmetricKeyDao where
  row := ⟨type, []⟩

def setKey (d : SymmetricKeyDao) (key : Bytes) : SymmetricKeyDao :=
  if d.row.key = key then d else { d with row := { d.row with key }, dirty := true }

def save (d : SymmetricKeyDao) (t : KeyTables) : Except Exn KeyTables :=
  if d.dirty then
    if d.storedInDb then .ok { t with keysSymm := t.keysSymm.replace d.row }
    else do .ok { t with keysSymm := ← insertRow t.keysSymm d.row }
  else .ok t

end SymmetricKeyDao

structure AsymmetricKeyPairDao where
  row : KeyPairRow
  dirty : Bool := true
  storedInDb : Bool := false

namespace AsymmetricKeyPairDao

def load (t : KeyTables) (type : AsymmetricKeyType) (id : IdType) : Option AsymmetricKeyPairDao :=
  ((t.keysAsymm.find? id).filter fun row => row.keyType == type).map fun row => ⟨row, false, true⟩

/-- `loadPrivateKey`. -/
def loadPrivateKey (P : Platform) (t : KeyTables) (type : AsymmetricKeyType) (keyId : IdType) :
    Except Exn P.PrivateKey :=
  match load t type keyId with
  | none => .error (.databaseIntegrityError ("Couldn't load AsymmetricKeyPairDao with id " ++ toString keyId))
  | some dao => Platform.ofBotan (P.loadPrivateKey dao.row.privkey)

def setRevocation (d : AsymmetricKeyPairDao) (revocation : Bytes) : AsymmetricKeyPairDao :=
  if d.row.revocation = revocation then d else { d with row := { d.row with revocation }, dirty := true }

/-- The update sets every column but the id, which it looks for. -/
def save (d : AsymmetricKeyPairDao) (t : KeyTables) : Except Exn KeyTables :=
  if d.dirty then
    if d.storedInDb then .ok { t with keysAsymm := t.keysAsymm.replace d.row }
    else do .ok { t with keysAsymm := ← insertRow t.keysAsymm d.row }
  else .ok t

end AsymmetricKeyPairDao

/-- The table `keys_asymm` of the database, as far as it is modelled there. -/
def KeyTables.InDb (t : KeyTables) (db : Db) : Prop :=
  ∀ id, db.keysAsymm.find? id = (t.keysAsymm.find? id).map fun row => ⟨row.id, row.keyType, row.privkey⟩

/-! ### KeysSyncer -/

namespace KeysSyncer

variable (P : Platform)

/-- `RANDOM_IV_BYTES`. -/
def randomIvBytes : Nat := 16

def storePrivateDataKey (masterKey : MasterKey) (symmKeys : SymmetricKeys) : KeysM Unit :=
  KeysM.lift fun t => do
    let privateDataKey ← SymmetricCryptor.decryptWithIV P symmKeys.privateDataKey masterKey.data randomIvBytes
    let dao := (SymmetricKeyDao.load t .privateDataKey).getD (.new .privateDataKey)
    .ok ((), ← (dao.setKey privateDataKey).save t)

/-- A round of the loop of `storeAsymmKeyPairs`. -/
def storeKeyPair (keyPair : KeyPair) (t : KeyTables) : Except Exn KeyTables := do
  match AsymmetricKeyType.ofString keyPair.type with
  | none => .error (.invalidContentFormat "unknown keyPair.type")
  | some type =>
    -- a pair without its private key is of no use for signing
    if keyPair.privkey = [] then .ok t
    else
      match AsymmetricKeyPairDao.load t type keyPair.id with
      | some dao => (dao.setRevocation keyPair.revocation).save t
      | none => do
        let privateDataKey ← SymmetricKeyDao.loadKey t .privateDataKey
        let privkey ← SymmetricCryptor.decryptWithIV P keyPair.privkey privateDataKey randomIvBytes
        let validFrom ← P.printDateTime keyPair.validFrom
        let validUntil ← P.printDateTime keyPair.validUntil
        let dao : AsymmetricKeyPairDao :=
          ⟨⟨keyPair.id, type, keyPair.pubkey, privkey, validFrom, validUntil, []⟩, true, false⟩
        (dao.setRevocation keyPair.revocation).save t

def storeAsymmKeyPairs : List KeyPair → KeysM Unit
  | [] => pure ()
  | keyPair :: keyPairs => do
    KeysM.lift fun t => do .ok ((), ← storeKeyPair P keyPair t)
    storeAsymmKeyPairs keyPairs

/-- What a run meets: the answers of the server, and whether it is cancelled between them. -/
structure Inputs where
  symm : Except Exn Json
  cancelled : Bool := false
  asymm : Except Exn Json

def run (masterKey : MasterKey) (inputs : Inputs) : KeysM Unit := do
  let symmKeys ← KeysM.lift fun t => do .ok (← KeysClient.getSymmKeys P inputs.symm, t)
  storePrivateDataKey P masterKey symmKeys
  if inputs.cancelled then throw .syncCanceled
  let keyPairs ← KeysM.lift fun t => do .ok (← KeysClient.getAsymmKeyPairs P inputs.asymm, t)
  storeAsymmKeyPairs P keyPairs

end KeysSyncer

/-! ### PrivateKeyProvider -/

/-- A `PrivateKeyProvider`, with the keys it has loaded, and the tables. -/
structure KeySession (P : Platform) where
  tables : KeyTables := {}
  cache : AsymmetricKeyType × IdType → Option P.PrivateKey := fun _ => none

namespace KeySession

variable {P : Platform}

/-- `PrivateKeyProvider::getKey`. -/
def getKey (s : KeySession P) (type : AsymmetricKeyType) (keyId : IdType) : Except Exn P.PrivateKey × KeySession P :=
  match s.cache (type, keyId) with
  | some key => (.ok key, s)
  | none =>
    match AsymmetricKeyPairDao.loadPrivateKey P s.tables type keyId with
    | .ok key => (.ok key, { s with cache := Function.update s.cache (type, keyId) (some key) })
    | .error e => (.error e, s)

/-- A key is asked for, or the keys are synchronized, however that ends. -/
inductive Step (masterKey : MasterKey) : KeySession P → KeySession P → Prop
  | getKey (s : KeySession P) (type : AsymmetricKeyType) (keyId : IdType) : Step masterKey s (s.getKey type keyId).2
  | sync (s : KeySession P) (inputs : KeysSyncer.Inputs) :
    Step masterKey s { s with tables := final (KeysSyncer.run P masterKey inputs s.tables) }

end KeySession

/-! ### A stored key pair never changes -/

/-- Every key pair is still there, with another revocation at most. -/
def KeyTables.Kept (t t' : KeyTables) : Prop :=
  ∀ id row, t.keysAsymm.find? id = some row →
    ∃ revocation, t'.keysAsymm.find? id = some { row with revocation := revocation }

namespace KeyTables

instance : Std.Refl Kept := ⟨fun _ _ row h => ⟨row.revocation, h⟩⟩

instance : IsTrans KeyTables Kept where
  trans := by
    intro t t' t'' h h' id row hrow
    obtain ⟨revocation, hrow'⟩ := h id row hrow
    obtain ⟨revocation', hrow''⟩ := h' id _ hrow'
    exact ⟨revocation', hrow''⟩

theorem Kept.loadPrivateKey {P : Platform} {t t' : KeyTables} (h : Kept t t') {type : AsymmetricKeyType} {keyId : IdType}
    {key : P.PrivateKey} (hkey : AsymmetricKeyPairDao.loadPrivateKey P t type keyId = .ok key) :
    AsymmetricKeyPairDao.loadPrivateKey P t' type keyId = .ok key := by
  unfold AsymmetricKeyPairDao.loadPrivateKey AsymmetricKeyPairDao.load at hkey ⊢
  cases hrow : t.keysAsymm.find? keyId with
  | none =>
    rw [hrow] at hkey
    cases hkey
  | some row =>
    obtain ⟨revocation, hrow'⟩ := h keyId row hrow
    rw [hrow] at hkey
    rw [hrow']
    cases htype : row.keyType == type with
    | false =>
      rw [Option.filter_some, htype] at hkey
      cases hkey
    | true =>
      rw [Option.filter_some, htype] at hkey
      rw [Option.filter_some]
      dsimp only at hkey ⊢
      rw [htype]
      exact hkey

end KeyTables

private theorem KeysM.lift_of_ok {α : Type} {x : KeyTables → Except Exn (α × KeyTables)} {t t' : KeyTables} {a : α}
    (h : x t = .ok (a, t')) : KeysM.lift x t = .ok a t' := by
  unfold KeysM.lift
  rw [h]

theorem KeysM.along_lift {α : Type} {R : KeyTables → KeyTables → Prop} [Std.Refl R]
    {x : KeyTables → Except Exn (α × KeyTables)} (h : ∀ t a t', x t = .ok (a, t') → R t t') : Along R (KeysM.lift x) := by
  intro t
  unfold Ends KeysM.lift
  cases hx : x t with
  | ok r => exact h t r.1 r.2 hx
  | error e => exact refl t

namespace AsymmetricKeyPairDao

/-- A stored key pair gets a revocation. -/
theorem save_revocation {t : KeyTables} {row : KeyPairRow} (hrow : t.keysAsymm.find? row.id = some row)
    (revocation : Bytes) :
    ∃ t', ((⟨row, false, true⟩ : AsymmetricKeyPairDao).setRevocation revocation).save t = .ok t' ∧
      t'.keysSymm = t.keysSymm ∧ ∀ id, t'.keysAsymm.find? id =
        if row.id = id then some { row with revocation := revocation } else t.keysAsymm.find? id := by
  by_cases hsame : row.revocation = revocation
  · refine ⟨t, ?_, rfl, ?_⟩
    · unfold setRevocation
      rw [if_pos hsame]
      rfl
    · intro id
      by_cases hid : row.id = id
      · rw [if_pos hid, ← hid, hrow, ← hsame]
      · rw [if_neg hid]
  · refine ⟨{ t with keysAsymm := t.keysAsymm.replace { row with revocation := revocation } }, ?_, rfl, ?_⟩
    · unfold setRevocation
      rw [if_neg hsame]
      rfl
    · intro id
      rw [Relational.Table.find?_replace]
      by_cases hid : row.id = id
      · rw [if_pos hid, if_pos hid, ← hid, hrow, Option.map_some]
      · rw [if_neg hid, if_neg hid]

/-- A new key pair is inserted with its revocation. -/
theorem save_new (row : KeyPairRow) (revocation : Bytes) (t : KeyTables) :
    ((⟨row, true, false⟩ : AsymmetricKeyPairDao).setRevocation revocation).save t =
      (do .ok { t with keysAsymm := ← insertRow t.keysAsymm { row with revocation := revocation } }) := by
  unfold setRevocation
  by_cases hsame : row.revocation = revocation
  · rw [if_pos hsame, ← hsame]
    rfl
  · rw [if_neg hsame]
    rfl

end AsymmetricKeyPairDao

namespace KeysSyncer

variable {P : Platform} {t t' : KeyTables} {keyPair : KeyPair}

/-- A key pair that is stored gets the revocation, and one that is not is inserted. -/
theorem storeKeyPair_kept (h : storeKeyPair P keyPair t = .ok t') : KeyTables.Kept t t' := by
  unfold storeKeyPair at h
  split at h
  · cases h
  split at h
  · cases h
    exact refl t
  split at h
  · next dao hload =>
    obtain ⟨row, hrow, rfl⟩ := Option.map_eq_some_iff.1 hload
    obtain ⟨hrow, -⟩ := Option.filter_eq_some_iff.1 hrow
    have hid : row.id = keyPair.id := Relational.Table.key_of_find? hrow
    obtain ⟨t₁, hsave, -, hfind⟩ := AsymmetricKeyPairDao.save_revocation (hid ▸ hrow) keyPair.revocation
    rw [hsave] at h
    cases h
    intro id row' hrow'
    rw [hfind id]
    by_cases heq : row.id = id
    · rw [if_pos heq]
      rw [← heq, hid, hrow] at hrow'
      cases hrow'
      exact ⟨keyPair.revocation, rfl⟩
    · rw [if_neg heq]
      exact ⟨row'.revocation, hrow'⟩
  · obtain ⟨privateDataKey, -, h⟩ := bind_eq_ok.1 h
    obtain ⟨privkey, -, h⟩ := bind_eq_ok.1 h
    obtain ⟨validFrom, -, h⟩ := bind_eq_ok.1 h
    obtain ⟨validUntil, -, h⟩ := bind_eq_ok.1 h
    dsimp only at h
    rw [AsymmetricKeyPairDao.save_new] at h
    obtain ⟨keysAsymm, hinsert, hdb⟩ := bind_eq_ok.1 h
    cases hdb
    rw [insertRow_eq_ok] at hinsert
    obtain ⟨hfree, -⟩ := Relational.Table.insert?_eq_some.1 hinsert
    intro id row hrow
    refine ⟨row.revocation, ?_⟩
    have hne : keyPair.id ≠ id := by
      rintro rfl
      rw [hfree] at hrow
      cases hrow
    rw [Relational.Table.find?_of_insert? hinsert, if_neg hne]
    exact hrow

variable (P) in
private theorem storeAsymmKeyPairs_kept (keyPairs : List KeyPair) : Along KeyTables.Kept (storeAsymmKeyPairs P keyPairs) := by
  induction keyPairs with
  | nil => exact along_pure _
  | cons keyPair keyPairs ih =>
    refine along_bind (KeysM.along_lift ?_) (fun _ => ih)
    intro t _ t' h
    obtain ⟨t₁, hstore, heq⟩ := bind_eq_ok.1 h
    cases heq
    exact storeKeyPair_kept hstore

/-- Saving a symmetric key leaves the key pairs alone. -/
theorem keysAsymm_of_save {d : SymmetricKeyDao} (h : d.save t = .ok t') : t'.keysAsymm = t.keysAsymm := by
  unfold SymmetricKeyDao.save at h
  split at h
  · split at h
    · cases h
      rfl
    · obtain ⟨keysSymm, -, heq⟩ := bind_eq_ok.1 h
      cases heq
      rfl
  · cases h
    rfl

variable (P) in
/-- Whatever the server answers and however the run ends, the stored key pairs are kept. -/
theorem run_kept (masterKey : MasterKey) (inputs : Inputs) : Along KeyTables.Kept (run P masterKey inputs) := by
  refine along_bind (KeysM.along_lift ?_) ?_
  · intro t _ t' h
    obtain ⟨symmKeys, -, heq⟩ := bind_eq_ok.1 h
    cases heq
    exact refl t
  intro symmKeys
  refine along_bind (KeysM.along_lift ?_) ?_
  · intro t _ t' h
    obtain ⟨privateDataKey, -, h⟩ := bind_eq_ok.1 h
    obtain ⟨t₁, hsave, heq⟩ := bind_eq_ok.1 h
    cases heq
    intro id row hrow
    rw [keysAsymm_of_save hsave]
    exact ⟨row.revocation, hrow⟩
  intro _
  have hpairs : Along KeyTables.Kept (do
      let keyPairs ← KeysM.lift fun t => do .ok (← KeysClient.getAsymmKeyPairs P inputs.asymm, t)
      storeAsymmKeyPairs P keyPairs) := by
    refine along_bind (KeysM.along_lift ?_) (fun keyPairs => storeAsymmKeyPairs_kept P keyPairs)
    intro t _ t' h
    obtain ⟨keyPairs, -, heq⟩ := bind_eq_ok.1 h
    cases heq
    exact refl t
  split
  · exact along_bind (along_throw _) (fun _ => hpairs)
  · exact hpairs

end KeysSyncer

namespace KeySession

variable {P : Platform} {masterKey : MasterKey} {s s' : KeySession P}

/-- The cache holds what the table says. -/
def Agrees (s : KeySession P) : Prop :=
  ∀ type keyId key, s.cache (type, keyId) = some key →
    AsymmetricKeyPairDao.loadPrivateKey P s.tables type keyId = .ok key

private theorem Agrees.getKey_fst (h : s.Agrees) (type : AsymmetricKeyType) (keyId : IdType) :
    (s.getKey type keyId).1 = AsymmetricKeyPairDao.loadPrivateKey P s.tables type keyId := by
  unfold KeySession.getKey
  cases hcache : s.cache (type, keyId) with
  | some key => exact (h type keyId key hcache).symm
  | none => cases hload : AsymmetricKeyPairDao.loadPrivateKey P s.tables type keyId <;> rfl

private theorem getKey_tables (s : KeySession P) (type : AsymmetricKeyType) (keyId : IdType) :
    (s.getKey type keyId).2.tables = s.tables := by
  unfold KeySession.getKey
  cases s.cache (type, keyId) with
  | some key => rfl
  | none => cases AsymmetricKeyPairDao.loadPrivateKey P s.tables type keyId <;> rfl

theorem Agrees.step (h : s.Agrees) (hstep : Step masterKey s s') : s'.Agrees := by
  cases hstep with
  | getKey type keyId =>
    intro type' keyId' key hkey
    rw [getKey_tables]
    unfold KeySession.getKey at hkey
    cases hcache : s.cache (type, keyId) with
    | some key' =>
      rw [hcache] at hkey
      exact h type' keyId' key hkey
    | none =>
      rw [hcache] at hkey
      cases hload : AsymmetricKeyPairDao.loadPrivateKey P s.tables type keyId with
      | error e =>
        rw [hload] at hkey
        exact h type' keyId' key hkey
      | ok key' =>
        rw [hload] at hkey
        dsimp only at hkey
        by_cases hsame : (type', keyId') = (type, keyId)
        · cases hsame
          rw [Function.update_self] at hkey
          cases hkey
          exact hload
        · rw [Function.update_of_ne hsame] at hkey
          exact h type' keyId' key hkey
  | sync inputs =>
    intro type keyId key hkey
    have hkept := ends_final.1 (KeysSyncer.run_kept P masterKey inputs s.tables)
    exact hkept.loadPrivateKey (h type keyId key hkey)

private theorem kept_of_step (hstep : Step masterKey s s') : KeyTables.Kept s.tables s'.tables := by
  cases hstep with
  | getKey type keyId =>
    rw [getKey_tables]
    exact refl s.tables
  | sync inputs => exact ends_final.1 (KeysSyncer.run_kept P masterKey inputs s.tables)

private theorem kept_of_steps (hsteps : Relation.ReflTransGen (Step masterKey) s s') : KeyTables.Kept s.tables s'.tables := by
  induction hsteps with
  | refl => exact refl s.tables
  | tail _ hlast ih => exact trans_of KeyTables.Kept ih (kept_of_step hlast)

theorem Agrees.steps (h : s.Agrees) (hsteps : Relation.ReflTransGen (Step masterKey) s s') : s'.Agrees := by
  induction hsteps with
  | refl => exact h
  | tail _ hlast ih => exact ih.step hlast

/-- In every run of key synchronizations, with any answers of the server and any end, and of requests for keys, a key
is what the table says when it is asked for; once it could be loaded, it stays the same for ever. -/
theorem keys_stay {s₀ : KeySession P} (hempty : s₀.cache = fun _ => none)
    (hs : Relation.ReflTransGen (Step masterKey) s₀ s) (hs' : Relation.ReflTransGen (Step masterKey) s s')
    (type : AsymmetricKeyType) (keyId : IdType) :
    (s.getKey type keyId).1 = AsymmetricKeyPairDao.loadPrivateKey P s.tables type keyId ∧
      ∀ key, (s.getKey type keyId).1 = .ok key → (s'.getKey type keyId).1 = .ok key := by
  have hinitial : s₀.Agrees := by
    intro type keyId key hkey
    rw [hempty] at hkey
    cases hkey
  have hagrees := hinitial.steps hs
  refine ⟨hagrees.getKey_fst type keyId, ?_⟩
  intro key hkey
  rw [hagrees.getKey_fst] at hkey
  rw [(hagrees.steps hs').getKey_fst]
  exact (kept_of_steps hs').loadPrivateKey hkey

end KeySession

/-! ### From the registration to the tables -/

/-- What is relied on when the keys of an account are registered: the cipher and Base64 undo themselves, the IVs have
their length, and no public key is empty. -/
structure Registrable (P : Platform) (keys : GeneratedKeys) (ivs : Registration.Ivs) : Prop where
  base64 : ∀ data, P.base64Decode (P.base64Encode data) = .ok data
  base64_empty : P.base64Decode "" = .ok []
  privateDataKey : GcmRoundTrips P keys.masterKey.data ivs.privateDataKey
  encryption : GcmRoundTrips P keys.privateDataKey ivs.encryption
  signature : GcmRoundTrips P keys.privateDataKey ivs.signature
  length_privateDataKey : ivs.privateDataKey.length = KeysSyncer.randomIvBytes
  length_encryption : ivs.encryption.length = KeysSyncer.randomIvBytes
  length_signature : ivs.signature.length = KeysSyncer.randomIvBytes
  encryptionPublic_ne : keys.encryptionPublic ≠ []
  signaturePublic_ne : keys.signaturePublic ≠ []

/-- The member of a member. -/
def Json.getIn (json : Json) (key key' : String) : Except Exn Json := do
  (← json.get key).get key'

/-- The dates have texts. -/
structure KeyPair.Printable (P : Platform) (keyPair : KeyPair) : Prop where
  validFrom : ∃ text, P.printDateTime keyPair.validFrom = .ok text
  validUntil : ∃ text, P.printDateTime keyPair.validUntil = .ok text

/-- A member with a date that has a text of its own. -/
def DescribesDate (P : Platform) (json : Json) (member : String) : Prop :=
  ∃ text dateTime date, json.get member = .ok (.string text) ∧ P.toDateTime (.string text) = .ok dateTime ∧
    P.printDateTime dateTime = .ok date

/-- The server describes the key pair that is the member of a registration document, under the id it gave it. -/
structure DescribesPair (P : Platform) (document : Json) (member : String) (type : AsymmetricKeyType) (id : IdType)
    (json : Json) : Prop where
  isObject : json.isObject = true
  id_le : id ≤ Json.maxUInt
  id : json.get "id" = .ok (.int id)
  type : json.get "type" = .ok (.string type.toString)
  pubkey : json.get "pubkey" = document.getIn member "pubkey"
  privkey : json.get "privkey" = document.getIn member "privkey"
  validFrom : DescribesDate P json "validFrom"
  validUntil : DescribesDate P json "validUntil"
  revocation : ∃ text revocation, json.get "revocation" = .ok (.string text) ∧ P.base64Decode text = .ok revocation

/-- The server describes a key pair without its private key. -/
def DescribesPublic (P : Platform) (json : Json) : Prop :=
  ∃ keyPair, KeysClient.parseElement P json = .ok keyPair ∧ keyPair.privkey = [] ∧
    (AsymmetricKeyType.ofString keyPair.type).isSome = true

/-- The server's answer about the symmetric keys of an account that was registered with a document. -/
def DescribesSymm (document json : Json) : Prop :=
  json.isObject = true ∧ json.get "privateDataKey" = document.get "privateDataKey"

/-- The server describes one of the two key pairs, or a public key. -/
def DescribesAny (P : Platform) (document : Json) (encId sigId : IdType) (json : Json) : Prop :=
  DescribesPair P document "keypairEncryption" .encryption encId json ∨
    DescribesPair P document "keypairSigning" .signature sigId json ∨ DescribesPublic P json

/-- The server's answer about the key pairs of an account that was registered with a document. -/
structure DescribesPairs (P : Platform) (document : Json) (encId sigId : IdType) (pairs : List Json) : Prop where
  described : ∀ json ∈ pairs, DescribesAny P document encId sigId json
  encryption : ∃ json ∈ pairs, DescribesPair P document "keypairEncryption" .encryption encId json
  signature : ∃ json ∈ pairs, DescribesPair P document "keypairSigning" .signature sigId json

/-- The server answers a run with what it keeps of the account, or not at all. -/
structure KeysSyncer.Inputs.Serve (inputs : KeysSyncer.Inputs) (P : Platform) (document : Json) (encId sigId : IdType) :
    Prop where
  symm : ∀ json, inputs.symm = .ok json → DescribesSymm document json
  asymm : ∀ json, inputs.asymm = .ok json → ∃ pairs, json = .array pairs ∧ DescribesPairs P document encId sigId pairs

/-- The same with some of the key pairs: a run that breaks off between two pairs is one that gets the first of them. -/
structure KeysSyncer.Inputs.ServeSome (inputs : KeysSyncer.Inputs) (P : Platform) (document : Json)
    (encId sigId : IdType) : Prop where
  symm : ∀ json, inputs.symm = .ok json → DescribesSymm document json
  asymm : ∀ json, inputs.asymm = .ok json →
    ∃ pairs, json = .array pairs ∧ ∀ json ∈ pairs, DescribesAny P document encId sigId json

private theorem KeysSyncer.Inputs.Serve.serveSome {inputs : KeysSyncer.Inputs} {P : Platform} {document : Json}
    {encId sigId : IdType} (h : inputs.Serve P document encId sigId) : inputs.ServeSome P document encId sigId where
  symm := h.symm
  asymm := by
    intro json hjson
    obtain ⟨pairs, hpairs, hdescribed⟩ := h.asymm json hjson
    exact ⟨pairs, hpairs, hdescribed.described⟩

namespace Registration

section

variable {P : Platform} {makeLoginKey : KulloAddress → MasterKey → String} {address : KulloAddress} {keys : GeneratedKeys}
  {ivs : Ivs} {validFrom validUntil : DateTime} {acceptedTerms : Option String} {challenge : Option Challenge}
  {challengeAnswer : String}

private theorem document_members {json : Json} (hjson : json = document P makeLoginKey address keys ivs validFrom validUntil
      acceptedTerms challenge challengeAnswer) :
    json.get "privateDataKey" = .ok (.string (P.base64Encode
        (encryptWithIV P keys.privateDataKey keys.masterKey.data ivs.privateDataKey))) ∧
      json.get "keypairEncryption" = .ok (keyPairJson P (encodeKeyPair P keys .encryption keys.encryptionPublic
        keys.encryptionPrivate ivs.encryption validFrom validUntil)) ∧
      json.get "keypairSigning" = .ok (keyPairJson P (encodeKeyPair P keys .signature keys.signaturePublic
        keys.signaturePrivate ivs.signature validFrom validUntil)) := by
  subst hjson
  unfold document makeRegistrationDocument
  cases hempty : challengeAnswer.isEmpty with
  | true => cases acceptedTerms <;> cases challenge <;> exact ⟨rfl, rfl, rfl⟩
  | false => cases acceptedTerms <;> cases challenge <;> exact ⟨rfl, rfl, rfl⟩

end

end Registration

/-! ### A device gets the keys -/

private theorem Platform.toVector_string {P : Platform} {text : String} {data : Bytes} (h : P.base64Decode text = .ok data)
    {allowEmpty : AllowEmpty} (hne : allowEmpty = .no → text.isEmpty = false) :
    P.toVector (.string text) allowEmpty = .ok data := by
  have hstring : CheckedConverter.toString (.string text) allowEmpty = .ok text := by
    unfold CheckedConverter.toString
    dsimp only
    rw [if_neg]
    rintro ⟨hno, hempty⟩
    rw [hne hno] at hempty
    cases hempty
  unfold Platform.toVector
  rw [hstring, ok_bind, h]

private theorem CheckedConverter.toUint32_int {n : Nat} (h : n ≤ Json.maxUInt) : CheckedConverter.toUint32 (.int n) = .ok n := by
  have hvalue : (Json.int n).asUInt? = some n := by
    unfold Json.asUInt?
    dsimp only
    rw [if_pos ⟨Int.natCast_nonneg n, Int.ofNat_le.2 h⟩, Int.toNat_natCast]
  unfold CheckedConverter.toUint32
  rw [hvalue]

namespace Registrable

variable {P : Platform} {keys : GeneratedKeys} {ivs : Registration.Ivs}

private theorem base64Encode_isEmpty (h : Registrable P keys ivs) {data : Bytes} (hne : data ≠ []) :
    (P.base64Encode data).isEmpty = false := by
  rw [Bool.eq_false_iff, ne_eq, String.isEmpty_iff]
  intro hempty
  have hdata := h.base64 data
  rw [hempty, h.base64_empty] at hdata
  exact hne (Except.ok.inj hdata).symm

end Registrable

namespace KeysSyncer

private theorem encryptWithIV_ne_nil {P : Platform} (plaintext key : Bytes) {iv : Bytes} (h : iv.length = randomIvBytes) :
    Registration.encryptWithIV P plaintext key iv ≠ [] := by
  intro hnil
  have hlength := congrArg List.length hnil
  unfold Registration.encryptWithIV at hlength
  rw [List.length_append, h] at hlength
  unfold randomIvBytes at hlength
  simp at hlength

/-- A description is parsed as the key pair that was registered. -/
theorem parseElement_of_describes {P : Platform} {keys : GeneratedKeys} {ivs : Registration.Ivs}
    (hkeys : Registrable P keys ivs) {document json : Json} {member : String} {type : AsymmetricKeyType} {id : IdType}
    {pubkey privkey iv : Bytes} {validFrom validUntil : DateTime} (hpubkey : pubkey ≠ [])
    (hdocument : document.get member = .ok (Registration.keyPairJson P
      (Registration.encodeKeyPair P keys type pubkey privkey iv validFrom validUntil)))
    (h : DescribesPair P document member type id json) :
    ∃ keyPair, KeysClient.parseElement P json = .ok keyPair ∧ keyPair.id = id ∧ keyPair.type = type.toString ∧
      keyPair.privkey = Registration.encryptWithIV P privkey keys.privateDataKey iv ∧ keyPair.Printable P := by
  have hpub : json.get "pubkey" = .ok (.string (P.base64Encode pubkey)) := by
    rw [h.pubkey, Json.getIn, hdocument]
    rfl
  have hpriv : json.get "privkey" = .ok (.string (P.base64Encode
      (Registration.encryptWithIV P privkey keys.privateDataKey iv))) := by
    rw [h.privkey, Json.getIn, hdocument]
    rfl
  obtain ⟨fromText, validFrom', fromDate, hfrom, hfromTime, hfromDate⟩ := h.validFrom
  obtain ⟨untilText, validUntil', untilDate, huntil, huntilTime, huntilDate⟩ := h.validUntil
  obtain ⟨revocationText, revocation, hrevocation, hrevocationData⟩ := h.revocation
  have htype : CheckedConverter.toString (.string type.toString) .no = .ok type.toString := by
    unfold CheckedConverter.toString
    dsimp only
    rw [if_neg (by rw [AsymmetricKeyType.toString_ne_empty]; simp)]
  refine ⟨⟨id, type.toString, pubkey, _, validFrom', validUntil', revocation⟩, ?_, rfl, rfl, rfl,
    ⟨⟨fromDate, hfromDate⟩, ⟨untilDate, huntilDate⟩⟩⟩
  unfold KeysClient.parseElement
  rw [if_pos h.isObject, fwdNested_eq_ok]
  unfold KeysClient.parseJsonKeyPair
  rw [hfrom, ok_bind, hfromTime, ok_bind, huntil, ok_bind, huntilTime, ok_bind, h.id, ok_bind,
    CheckedConverter.toUint32_int h.id_le, ok_bind, h.type, ok_bind, htype, ok_bind, hpub, ok_bind,
    Platform.toVector_string (hkeys.base64 pubkey) (fun _ => hkeys.base64Encode_isEmpty hpubkey), ok_bind, hpriv, ok_bind,
    Platform.toVector_string (hkeys.base64 _) (fun hno => by cases hno), ok_bind, hrevocation, ok_bind,
    Platform.toVector_string hrevocationData (fun hno => by cases hno), ok_bind]
  rfl

/-- The list that a loop of successful rounds makes. -/
theorem mapM_ok {α β : Type} {f : α → Except Exn β} {as : List α} (h : ∀ a ∈ as, ∃ b, f a = .ok b) :
    ∃ bs, as.mapM f = .ok bs ∧ (∀ b ∈ bs, ∃ a ∈ as, f a = .ok b) ∧ ∀ a ∈ as, ∃ b ∈ bs, f a = .ok b := by
  induction as with
  | nil => exact ⟨[], rfl, by simp, by simp⟩
  | cons a as ih =>
    rw [List.forall_mem_cons] at h
    obtain ⟨b, hb⟩ := h.1
    obtain ⟨bs, hbs, hfrom, hto⟩ := ih h.2
    refine ⟨b :: bs, ?_, ?_, ?_⟩
    · rw [List.mapM_cons, hb, ok_bind, hbs, ok_bind]
      rfl
    · rw [List.forall_mem_cons]
      refine ⟨⟨a, List.mem_cons_self, hb⟩, ?_⟩
      intro b' hb'
      obtain ⟨a', ha', hf⟩ := hfrom b' hb'
      exact ⟨a', List.mem_cons_of_mem _ ha', hf⟩
    · rw [List.forall_mem_cons]
      refine ⟨⟨b, List.mem_cons_self, hb⟩, ?_⟩
      intro a' ha'
      obtain ⟨b', hb', hf⟩ := hto a' ha'
      exact ⟨b', List.mem_cons_of_mem _ hb', hf⟩

/-- The pairs of the account. -/
def IsAccountPair (keys : GeneratedKeys) (encId sigId id : IdType) (type : AsymmetricKeyType) (privkey : Bytes) : Prop :=
  (id = encId ∧ type = .encryption ∧ privkey = keys.encryptionPrivate) ∨
    (id = sigId ∧ type = .signature ∧ privkey = keys.signaturePrivate)

theorem IsAccountPair.unique {keys : GeneratedKeys} {encId sigId id : IdType} (hids : encId ≠ sigId)
    {type type' : AsymmetricKeyType} {privkey privkey' : Bytes} (h : IsAccountPair keys encId sigId id type privkey)
    (h' : IsAccountPair keys encId sigId id type' privkey') : type' = type ∧ privkey' = privkey := by
  rcases h with ⟨rfl, rfl, rfl⟩ | ⟨rfl, rfl, rfl⟩
  · rcases h' with ⟨-, rfl, rfl⟩ | ⟨hid, -, -⟩
    · exact ⟨rfl, rfl⟩
    · exact absurd hid hids
  · rcases h' with ⟨hid, -, -⟩ | ⟨-, rfl, rfl⟩
    · exact absurd hid.symm hids
    · exact ⟨rfl, rfl⟩

/-- The table holds no key pair but those of the account. -/
def HoldsOnly (keys : GeneratedKeys) (encId sigId : IdType) (t : KeyTables) : Prop :=
  ∀ id row, t.keysAsymm.find? id = some row → IsAccountPair keys encId sigId id row.keyType row.privkey

section stores

variable {P : Platform} {keys : GeneratedKeys} {encId sigId : IdType} {t : KeyTables}

/-- The private data key is stored. -/
theorem storePrivateDataKey_ok {masterKey : MasterKey} {symmKeys : SymmetricKeys} {privateDataKey : Bytes}
    (h : SymmetricCryptor.decryptWithIV P symmKeys.privateDataKey masterKey.data randomIvBytes = .ok privateDataKey)
    (t : KeyTables) :
    ∃ t', storePrivateDataKey P masterKey symmKeys t = .ok () t' ∧ t'.keysAsymm = t.keysAsymm ∧
      SymmetricKeyDao.loadKey t' .privateDataKey = .ok privateDataKey := by
  have hstore : ∀ t', (((SymmetricKeyDao.load t .privateDataKey).getD (.new .privateDataKey)).setKey privateDataKey).save t =
      .ok t' → storePrivateDataKey P masterKey symmKeys t = .ok () t' := by
    intro t' hsave
    refine KeysM.lift_of_ok ?_
    rw [h, ok_bind]
    dsimp only
    rw [hsave, ok_bind]
  cases hrow : t.keysSymm.find? .privateDataKey with
  | none =>
    have hload : SymmetricKeyDao.load t .privateDataKey = none := by
      unfold SymmetricKeyDao.load
      rw [hrow]
      rfl
    have hinsert : insertRow t.keysSymm ⟨.privateDataKey, privateDataKey⟩ =
        .ok (t.keysSymm.insert ⟨.privateDataKey, privateDataKey⟩ hrow) :=
      insertRow_eq_ok.2 (Relational.Table.insert?_of_find? hrow)
    -- a new row is dirty from the start, so it does not matter whether the key is empty
    have hset : ((SymmetricKeyDao.new .privateDataKey).setKey privateDataKey) =
        ⟨⟨.privateDataKey, privateDataKey⟩, true, false⟩ := by
      unfold SymmetricKeyDao.setKey SymmetricKeyDao.new
      by_cases hempty : [] = privateDataKey
      · rw [if_pos hempty, hempty]
      · rw [if_neg hempty]
    refine ⟨{ t with keysSymm := t.keysSymm.insert ⟨.privateDataKey, privateDataKey⟩ hrow }, hstore _ ?_, rfl, ?_⟩
    · rw [hload, Option.getD_none, hset]
      unfold SymmetricKeyDao.save
      dsimp only
      rw [if_pos rfl, if_neg (by decide), hinsert, ok_bind]
    · unfold SymmetricKeyDao.loadKey SymmetricKeyDao.load
      dsimp only
      rw [Relational.Table.find?_insert, if_pos rfl]
      rfl
  | some row =>
    have htype : row.keyType = .privateDataKey := Relational.Table.key_of_find? hrow
    have hload : SymmetricKeyDao.load t .privateDataKey = some ⟨row, false, true⟩ := by
      unfold SymmetricKeyDao.load
      rw [hrow]
      rfl
    -- a key that is the same is not saved again
    by_cases hsame : row.key = privateDataKey
    · refine ⟨t, hstore t ?_, rfl, ?_⟩
      · unfold SymmetricKeyDao.setKey
        rw [hload, Option.getD_some, if_pos hsame]
        rfl
      · unfold SymmetricKeyDao.loadKey
        rw [hload]
        exact congrArg _ hsame
    · refine ⟨{ t with keysSymm := t.keysSymm.replace { row with key := privateDataKey } }, hstore _ ?_, rfl, ?_⟩
      · unfold SymmetricKeyDao.setKey
        rw [hload, Option.getD_some, if_neg hsame]
        rfl
      · unfold SymmetricKeyDao.loadKey SymmetricKeyDao.load
        dsimp only
        rw [Relational.Table.find?_replace, if_pos htype, hrow]
        rfl

/-- A key pair of the account is stored. -/
theorem storeKeyPair_ok (hids : encId ≠ sigId) (honly : HoldsOnly keys encId sigId t)
    (hkey : SymmetricKeyDao.loadKey t .privateDataKey = .ok keys.privateDataKey) {keyPair : KeyPair}
    {type : AsymmetricKeyType} {privkey iv : Bytes} (hpair : IsAccountPair keys encId sigId keyPair.id type privkey)
    (htype : keyPair.type = type.toString)
    (hprivkey : keyPair.privkey = Registration.encryptWithIV P privkey keys.privateDataKey iv)
    (hgcm : GcmRoundTrips P keys.privateDataKey iv) (hiv : iv.length = randomIvBytes) (hdates : keyPair.Printable P) :
    ∃ t', storeKeyPair P keyPair t = .ok t' ∧ t'.keysSymm = t.keysSymm ∧ HoldsOnly keys encId sigId t' ∧
      (t'.keysAsymm.find? keyPair.id).isSome = true := by
  have hne : keyPair.privkey ≠ [] := by
    rw [hprivkey]
    exact encryptWithIV_ne_nil privkey keys.privateDataKey hiv
  have hdecrypt : SymmetricCryptor.decryptWithIV P keyPair.privkey keys.privateDataKey randomIvBytes = .ok privkey := by
    rw [hprivkey]
    exact SymmetricCryptor.decryptWithIV_encrypt hgcm hiv privkey
  unfold storeKeyPair
  rw [htype, AsymmetricKeyType.ofString_toString]
  dsimp only
  rw [if_neg hne]
  cases hrow : t.keysAsymm.find? keyPair.id with
  -- a pair that is new is stored with its decrypted key
  | none =>
    have hload : AsymmetricKeyPairDao.load t type keyPair.id = none := by
      unfold AsymmetricKeyPairDao.load
      rw [hrow]
      rfl
    rw [hload]
    dsimp only
    obtain ⟨validFrom, hvalidFrom⟩ := hdates.validFrom
    obtain ⟨validUntil, hvalidUntil⟩ := hdates.validUntil
    rw [hkey, ok_bind, hdecrypt, ok_bind, hvalidFrom, ok_bind, hvalidUntil, ok_bind, AsymmetricKeyPairDao.save_new]
    have hinsert : insertRow t.keysAsymm ⟨keyPair.id, type, keyPair.pubkey, privkey, validFrom, validUntil,
        keyPair.revocation⟩ = .ok (t.keysAsymm.insert _ hrow) :=
      insertRow_eq_ok.2 (Relational.Table.insert?_of_find? hrow)
    rw [hinsert, ok_bind]
    refine ⟨_, rfl, rfl, ?_, ?_⟩
    · intro id row hid
      rw [Relational.Table.find?_insert] at hid
      by_cases heq : keyPair.id = id
      · rw [if_pos heq] at hid
        cases hid
        exact heq ▸ hpair
      · rw [if_neg heq] at hid
        exact honly id row hid
    · dsimp only
      rw [Relational.Table.find?_insert, if_pos rfl]
      rfl
  -- of one that is there only the revocation changes
  | some row =>
    have hid : row.id = keyPair.id := Relational.Table.key_of_find? hrow
    obtain ⟨hrowType, -⟩ := hpair.unique hids (honly _ _ hrow)
    have hload : AsymmetricKeyPairDao.load t type keyPair.id = some ⟨row, false, true⟩ := by
      unfold AsymmetricKeyPairDao.load
      rw [hrow, Option.filter_some, hrowType]
      simp
    rw [hload]
    dsimp only
    obtain ⟨t', hsave, hsymm, hfind⟩ := AsymmetricKeyPairDao.save_revocation (hid ▸ hrow) keyPair.revocation
    refine ⟨t', hsave, hsymm, ?_, ?_⟩
    · intro id row' hrow'
      rw [hfind id] at hrow'
      by_cases heq : row.id = id
      · rw [if_pos heq] at hrow'
        cases hrow'
        exact honly id row (by rw [← heq, hid]; exact hrow)
      · rw [if_neg heq] at hrow'
        exact honly id row' hrow'
    · rw [hfind, if_pos hid]
      rfl

/-- A key pair that the run can store, or passes over. -/
def Storable (P : Platform) (keys : GeneratedKeys) (encId sigId : IdType) (keyPair : KeyPair) : Prop :=
  (keyPair.privkey = [] ∧ (AsymmetricKeyType.ofString keyPair.type).isSome = true) ∨
    ∃ type privkey iv, IsAccountPair keys encId sigId keyPair.id type privkey ∧ keyPair.type = type.toString ∧
      keyPair.privkey = Registration.encryptWithIV P privkey keys.privateDataKey iv ∧
      GcmRoundTrips P keys.privateDataKey iv ∧ iv.length = randomIvBytes ∧ keyPair.Printable P

private theorem storeAsymmKeyPairs_ok (hids : encId ≠ sigId) {keyPairs : List KeyPair}
    (hpairs : ∀ keyPair ∈ keyPairs, Storable P keys encId sigId keyPair) (honly : HoldsOnly keys encId sigId t)
    (hkey : SymmetricKeyDao.loadKey t .privateDataKey = .ok keys.privateDataKey) :
    ∃ t', storeAsymmKeyPairs P keyPairs t = .ok () t' ∧ t'.keysSymm = t.keysSymm ∧ HoldsOnly keys encId sigId t' ∧
      ∀ keyPair ∈ keyPairs, keyPair.privkey ≠ [] → (t'.keysAsymm.find? keyPair.id).isSome = true := by
  induction keyPairs generalizing t with
  | nil => exact ⟨t, rfl, rfl, honly, by simp⟩
  | cons keyPair keyPairs ih =>
    rw [List.forall_mem_cons] at hpairs
    have hstored : ∃ t₁, storeKeyPair P keyPair t = .ok t₁ ∧ t₁.keysSymm = t.keysSymm ∧ HoldsOnly keys encId sigId t₁ ∧
        (keyPair.privkey ≠ [] → (t₁.keysAsymm.find? keyPair.id).isSome = true) := by
      rcases hpairs.1 with ⟨hempty, htype⟩ | ⟨type, privkey, iv, hpair, htype, hprivkey, hgcm, hiv, hdates⟩
      · obtain ⟨type, htype⟩ := Option.isSome_iff_exists.1 htype
        refine ⟨t, ?_, rfl, honly, fun hne => absurd hempty hne⟩
        unfold storeKeyPair
        rw [htype]
        dsimp only
        rw [if_pos hempty]
      · obtain ⟨t₁, hstore, hsymm, honly₁, hsome⟩ := storeKeyPair_ok hids honly hkey hpair htype hprivkey hgcm hiv hdates
        exact ⟨t₁, hstore, hsymm, honly₁, fun _ => hsome⟩
    obtain ⟨t₁, hstore, hsymm, honly₁, hsome⟩ := hstored
    have hkey₁ : SymmetricKeyDao.loadKey t₁ .privateDataKey = .ok keys.privateDataKey := by
      unfold SymmetricKeyDao.loadKey SymmetricKeyDao.load at hkey ⊢
      rwa [hsymm]
    obtain ⟨t', hrest, hsymm', honly', hsome'⟩ := ih hpairs.2 honly₁ hkey₁
    refine ⟨t', ?_, hsymm'.trans hsymm, honly', ?_⟩
    · have hlift : KeysM.lift (fun t => do .ok ((), ← storeKeyPair P keyPair t)) t = .ok () t₁ :=
        KeysM.lift_of_ok (by rw [hstore, ok_bind])
      rw [storeAsymmKeyPairs, bind_of_ok hlift]
      exact hrest
    · rw [List.forall_mem_cons]
      refine ⟨?_, hsome'⟩
      intro hne
      obtain ⟨row, hrow⟩ := Option.isSome_iff_exists.1 (hsome hne)
      obtain ⟨revocation, hrow'⟩ := (storeAsymmKeyPairs_kept P keyPairs).of_ok hrest _ row hrow
      rw [hrow']
      rfl

private theorem loadPrivateKey_of_holdsOnly (hids : encId ≠ sigId) (honly : HoldsOnly keys encId sigId t) {id : IdType}
    {type : AsymmetricKeyType} {privkey : Bytes} (hpair : IsAccountPair keys encId sigId id type privkey)
    (hsome : (t.keysAsymm.find? id).isSome = true) :
    AsymmetricKeyPairDao.loadPrivateKey P t type id = Platform.ofBotan (P.loadPrivateKey privkey) := by
  obtain ⟨row, hrow⟩ := Option.isSome_iff_exists.1 hsome
  obtain ⟨htype, hprivkey⟩ := hpair.unique hids (honly id row hrow)
  have hload : AsymmetricKeyPairDao.load t type id = some ⟨row, false, true⟩ := by
    unfold AsymmetricKeyPairDao.load
    rw [hrow, Option.filter_some, htype]
    simp
  unfold AsymmetricKeyPairDao.loadPrivateKey
  rw [hload, ← hprivkey]

end stores

/-- The database gives the private key that the tables give. -/
theorem getPrivateKey_of_inDb {P : Platform} {t : KeyTables} {db : Db} (h : t.InDb db) (type : AsymmetricKeyType)
    (keyId : IdType) : getPrivateKey P db type keyId = AsymmetricKeyPairDao.loadPrivateKey P t type keyId := by
  unfold getPrivateKey AsymmetricKeyPairDao.loadPrivateKey AsymmetricKeyPairDao.load
  rw [h keyId]
  cases t.keysAsymm.find? keyId with
  | none => rfl
  | some row =>
    rw [Option.map_some, Option.filter_some, Option.filter_some]
    dsimp only
    cases row.keyType == type <;> rfl

section account

variable {P : Platform} {keys : GeneratedKeys} {ivs : Registration.Ivs} {encId sigId : IdType} {document : Json}
  {makeLoginKey : KulloAddress → MasterKey → String} {address : KulloAddress} {validFrom validUntil : DateTime}
  {acceptedTerms : Option String} {challenge : Option Challenge} {challengeAnswer : String}

/-- What the server says of the key pairs is parsed, and can be stored. -/
theorem getAsymmKeyPairs_ok (hkeys : Registrable P keys ivs)
    (hdocument : document = Registration.document P makeLoginKey address keys ivs validFrom validUntil acceptedTerms
      challenge challengeAnswer)
    {pairs : List Json} (hpairs : ∀ json ∈ pairs, DescribesAny P document encId sigId json) :
    ∃ keyPairs, KeysClient.getAsymmKeyPairs P (.ok (.array pairs)) = .ok keyPairs ∧
      (∀ keyPair ∈ keyPairs, Storable P keys encId sigId keyPair) ∧
      (DescribesPairs P document encId sigId pairs →
        (∃ keyPair ∈ keyPairs, keyPair.id = encId ∧ keyPair.privkey ≠ []) ∧
        ∃ keyPair ∈ keyPairs, keyPair.id = sigId ∧ keyPair.privkey ≠ []) := by
  obtain ⟨-, henc, hsig⟩ := Registration.document_members hdocument
  have hparseEnc : ∀ json, DescribesPair P document "keypairEncryption" .encryption encId json →
      ∃ keyPair, KeysClient.parseElement P json = .ok keyPair ∧ keyPair.id = encId ∧
        keyPair.type = AsymmetricKeyType.encryption.toString ∧
        keyPair.privkey = Registration.encryptWithIV P keys.encryptionPrivate keys.privateDataKey ivs.encryption ∧
        keyPair.Printable P :=
    fun _ h => parseElement_of_describes hkeys hkeys.encryptionPublic_ne henc h
  have hparseSig : ∀ json, DescribesPair P document "keypairSigning" .signature sigId json →
      ∃ keyPair, KeysClient.parseElement P json = .ok keyPair ∧ keyPair.id = sigId ∧
        keyPair.type = AsymmetricKeyType.signature.toString ∧
        keyPair.privkey = Registration.encryptWithIV P keys.signaturePrivate keys.privateDataKey ivs.signature ∧
        keyPair.Printable P :=
    fun _ h => parseElement_of_describes hkeys hkeys.signaturePublic_ne hsig h
  -- each element is one of the two pairs or a public key, and each can be stored or passed over
  have hround : ∀ json ∈ pairs, ∃ keyPair, KeysClient.parseElement P json = .ok keyPair ∧
      Storable P keys encId sigId keyPair := by
    intro json hjson
    rcases hpairs json hjson with h | h | ⟨keyPair, hparse, hprivkey, htype⟩
    · obtain ⟨keyPair, hparse, hid, htype, hprivkey, hdates⟩ := hparseEnc json h
      exact ⟨keyPair, hparse, .inr ⟨_, _, _, .inl ⟨hid, rfl, rfl⟩, htype, hprivkey, hkeys.encryption,
        hkeys.length_encryption, hdates⟩⟩
    · obtain ⟨keyPair, hparse, hid, htype, hprivkey, hdates⟩ := hparseSig json h
      exact ⟨keyPair, hparse, .inr ⟨_, _, _, .inr ⟨hid, rfl, rfl⟩, htype, hprivkey, hkeys.signature,
        hkeys.length_signature, hdates⟩⟩
    · exact ⟨keyPair, hparse, .inl ⟨hprivkey, htype⟩⟩
  obtain ⟨keyPairs, hmap, hfrom, hto⟩ :=
    mapM_ok fun json hjson => (hround json hjson).imp fun _ hkeyPair => hkeyPair.1
  refine ⟨keyPairs, ?_, ?_, fun hall => ⟨?_, ?_⟩⟩
  · unfold KeysClient.getAsymmKeyPairs
    rw [ok_bind]
    show List.mapM (KeysClient.parseElement P) pairs = .ok keyPairs
    exact hmap
  · intro keyPair hkeyPair
    obtain ⟨json, hjson, hparse⟩ := hfrom keyPair hkeyPair
    obtain ⟨keyPair', hparse', hstorable⟩ := hround json hjson
    rw [hparse] at hparse'
    cases hparse'
    exact hstorable
  -- when the whole document is served, both pairs are among the keys
  · obtain ⟨json, hjson, h⟩ := hall.encryption
    obtain ⟨keyPair', hparse', hid, -, hprivkey, -⟩ := hparseEnc json h
    obtain ⟨keyPair, hkeyPair, hparse⟩ := hto json hjson
    rw [hparse'] at hparse
    cases hparse
    exact ⟨_, hkeyPair, hid, hprivkey ▸ encryptWithIV_ne_nil _ _ hkeys.length_encryption⟩
  · obtain ⟨json, hjson, h⟩ := hall.signature
    obtain ⟨keyPair', hparse', hid, -, hprivkey, -⟩ := hparseSig json h
    obtain ⟨keyPair, hkeyPair, hparse⟩ := hto json hjson
    rw [hparse'] at hparse
    cases hparse
    exact ⟨_, hkeyPair, hid, hprivkey ▸ encryptWithIV_ne_nil _ _ hkeys.length_signature⟩

/-- The private data key that the server describes is the one that was registered. -/
theorem getSymmKeys_ok (hkeys : Registrable P keys ivs)
    (hdocument : document = Registration.document P makeLoginKey address keys ivs validFrom validUntil acceptedTerms
      challenge challengeAnswer)
    {json : Json} (hjson : DescribesSymm document json) :
    ∃ symmKeys, KeysClient.getSymmKeys P (.ok json) = .ok symmKeys ∧
      SymmetricCryptor.decryptWithIV P symmKeys.privateDataKey keys.masterKey.data randomIvBytes =
        .ok keys.privateDataKey := by
  obtain ⟨hmember, -, -⟩ := Registration.document_members hdocument
  refine ⟨⟨"", Registration.encryptWithIV P keys.privateDataKey keys.masterKey.data ivs.privateDataKey⟩, ?_,
    SymmetricCryptor.decryptWithIV_encrypt hkeys.privateDataKey hkeys.length_privateDataKey _⟩
  have hempty := hkeys.base64Encode_isEmpty
    (encryptWithIV_ne_nil (P := P) keys.privateDataKey keys.masterKey.data hkeys.length_privateDataKey)
  unfold KeysClient.getSymmKeys
  rw [ok_bind, if_pos hjson.1, fwdNested_eq_ok]
  unfold KeysClient.parseJsonSymmKeys
  rw [hjson.2, hmember, ok_bind, Platform.toVector_string (hkeys.base64 _) (fun _ => hempty), ok_bind]

/-- A run that gets some of the keys stores nothing but the keys of the account, and all of them if nothing fails and
it gets all of them. -/
theorem run_serve (hkeys : Registrable P keys ivs)
    (hdocument : document = Registration.document P makeLoginKey address keys ivs validFrom validUntil acceptedTerms
      challenge challengeAnswer)
    (hids : encId ≠ sigId) {t : KeyTables} (honly : HoldsOnly keys encId sigId t) {inputs : Inputs}
    (hserve : inputs.ServeSome P document encId sigId) :
    HoldsOnly keys encId sigId (final (run P keys.masterKey inputs t)) ∧
      ∀ symm pairs, inputs.symm = .ok symm → inputs.asymm = .ok (.array pairs) →
        DescribesPairs P document encId sigId pairs → inputs.cancelled = false →
        ∃ t', run P keys.masterKey inputs t = .ok () t' ∧ HoldsOnly keys encId sigId t' ∧
          SymmetricKeyDao.loadKey t' .privateDataKey = .ok keys.privateDataKey ∧
          (t'.keysAsymm.find? encId).isSome = true ∧ (t'.keysAsymm.find? sigId).isSome = true := by
  cases hsymm : inputs.symm with
  | error e =>
    have hrun : run P keys.masterKey inputs t = .error e t := by
      unfold run
      rw [hsymm]
      rfl
    rw [hrun]
    exact ⟨honly, fun _ _ h => by cases h⟩
  | ok symm =>
    obtain ⟨symmKeys, hget, hdecrypt⟩ := getSymmKeys_ok hkeys hdocument (hserve.symm symm hsymm)
    -- the first transaction stores the private data key, the second one the pairs
    obtain ⟨t₁, hstore, hasymm, hkey⟩ := storePrivateDataKey_ok hdecrypt t
    have honly₁ : HoldsOnly keys encId sigId t₁ := by
      unfold HoldsOnly
      rwa [hasymm]
    have hfirst : KeysM.lift (fun t => do .ok (← KeysClient.getSymmKeys P (.ok symm), t)) t = .ok symmKeys t :=
      KeysM.lift_of_ok (by rw [hget, ok_bind])
    unfold run
    rw [hsymm, bind_of_ok hfirst, bind_of_ok hstore]
    cases hcancelled : inputs.cancelled with
    | true => exact ⟨honly₁, fun _ _ _ _ _ h => by cases h⟩
    | false =>
      rw [if_neg (by decide)]
      cases hanswer : inputs.asymm with
      | error e => exact ⟨honly₁, fun _ _ _ h => by cases h⟩
      | ok asymm =>
        obtain ⟨pairs, rfl, hpairs⟩ := hserve.asymm asymm hanswer
        obtain ⟨keyPairs, hgetPairs, hstorable, hboth⟩ := getAsymmKeyPairs_ok hkeys hdocument hpairs
        have hsecond : KeysM.lift (fun t => do .ok (← KeysClient.getAsymmKeyPairs P (.ok (.array pairs)), t)) t₁ =
            .ok keyPairs t₁ := KeysM.lift_of_ok (by rw [hgetPairs, ok_bind])
        obtain ⟨t', hstorePairs, hkeysSymm, honly', hsome⟩ := storeAsymmKeyPairs_ok hids hstorable honly₁ hkey
        dsimp only
        rw [bind_of_ok hsecond, hstorePairs]
        refine ⟨honly', ?_⟩
        intro _ pairs' _ heq hall _
        cases heq
        obtain ⟨⟨encPair, henc, rfl, hencKey⟩, ⟨sigPair, hsig, rfl, hsigKey⟩⟩ := hboth hall
        refine ⟨t', rfl, honly', ?_, hsome encPair henc hencKey, hsome sigPair hsig hsigKey⟩
        unfold SymmetricKeyDao.loadKey SymmetricKeyDao.load at hkey ⊢
        rwa [hkeysSymm]

/-- A run on a device of the account, which may break off anywhere. -/
def Served (P : Platform) (keys : GeneratedKeys) (document : Json) (encId sigId : IdType) (t t' : KeyTables) : Prop :=
  ∃ inputs : Inputs, inputs.ServeSome P document encId sigId ∧ t' = final (run P keys.masterKey inputs t)

private theorem holdsOnly_of_served (hkeys : Registrable P keys ivs)
    (hdocument : document = Registration.document P makeLoginKey address keys ivs validFrom validUntil acceptedTerms
      challenge challengeAnswer)
    (hids : encId ≠ sigId) {t₀ t : KeyTables} (h₀ : HoldsOnly keys encId sigId t₀)
    (hruns : Relation.ReflTransGen (Served P keys document encId sigId) t₀ t) : HoldsOnly keys encId sigId t := by
  induction hruns with
  | refl => exact h₀
  | tail _ hlast ih =>
    obtain ⟨inputs, hserve, rfl⟩ := hlast
    exact (run_serve hkeys hdocument hids ih hserve).1

/-- A run that gets all the answers makes the generated keys available: the private data key, and both private keys
under the ids the server gave. -/
theorem run_available (hkeys : Registrable P keys ivs)
    (hdocument : document = Registration.document P makeLoginKey address keys ivs validFrom validUntil acceptedTerms
      challenge challengeAnswer)
    (hids : encId ≠ sigId) {t : KeyTables} (honly : HoldsOnly keys encId sigId t)
    {inputs : Inputs} (hserve : inputs.Serve P document encId sigId) {symm asymm : Json} (hsymm : inputs.symm = .ok symm)
    (hasymm : inputs.asymm = .ok asymm) (hcancelled : inputs.cancelled = false) :
    ∃ t', run P keys.masterKey inputs t = .ok () t' ∧
      SymmetricKeyDao.loadKey t' .privateDataKey = .ok keys.privateDataKey ∧
      AsymmetricKeyPairDao.loadPrivateKey P t' .encryption encId =
        Platform.ofBotan (P.loadPrivateKey keys.encryptionPrivate) ∧
      AsymmetricKeyPairDao.loadPrivateKey P t' .signature sigId =
        Platform.ofBotan (P.loadPrivateKey keys.signaturePrivate) ∧
      ∀ db, t'.InDb db →
        getPrivateKey P db .encryption encId = Platform.ofBotan (P.loadPrivateKey keys.encryptionPrivate) := by
  obtain ⟨pairs, rfl, hpairs⟩ := hserve.asymm asymm hasymm
  obtain ⟨t', hrun, honly', hkey, henc, hsig⟩ :=
    (run_serve hkeys hdocument hids honly hserve.serveSome).2 symm pairs hsymm hasymm hpairs hcancelled
  have hencKey := loadPrivateKey_of_holdsOnly (P := P) hids honly' (.inl ⟨rfl, rfl, rfl⟩) henc
  refine ⟨t', hrun, hkey, hencKey, loadPrivateKey_of_holdsOnly hids honly' (.inr ⟨rfl, rfl, rfl⟩) hsig, ?_⟩
  intro db hdb
  rw [getPrivateKey_of_inDb hdb, hencKey]

/-- On a device that has none of the keys, or some of them from a run that broke off while it stored them, and whose later
runs may have failed or been cancelled anywhere, a run that gets all the answers ends well and makes the generated keys
available. -/
theorem keys_available (hkeys : Registrable P keys ivs)
    (hdocument : document = Registration.document P makeLoginKey address keys ivs validFrom validUntil acceptedTerms
      challenge challengeAnswer)
    (hids : encId ≠ sigId) {t₀ t : KeyTables} (h₀ : HoldsOnly keys encId sigId t₀)
    (hruns : Relation.ReflTransGen (Served P keys document encId sigId) t₀ t)
    {inputs : Inputs} (hserve : inputs.Serve P document encId sigId) {symm asymm : Json} (hsymm : inputs.symm = .ok symm)
    (hasymm : inputs.asymm = .ok asymm) (hcancelled : inputs.cancelled = false) :
    ∃ t', run P keys.masterKey inputs t = .ok () t' ∧
      SymmetricKeyDao.loadKey t' .privateDataKey = .ok keys.privateDataKey ∧
      AsymmetricKeyPairDao.loadPrivateKey P t' .encryption encId =
        Platform.ofBotan (P.loadPrivateKey keys.encryptionPrivate) ∧
      AsymmetricKeyPairDao.loadPrivateKey P t' .signature sigId =
        Platform.ofBotan (P.loadPrivateKey keys.signaturePrivate) ∧
      ∀ db, t'.InDb db →
        getPrivateKey P db .encryption encId = Platform.ofBotan (P.loadPrivateKey keys.encryptionPrivate) :=
  run_available hkeys hdocument hids (holdsOnly_of_served hkeys hdocument hids h₀ hruns) hserve hsymm hasymm hcancelled

end account

/-! ### Alice registers and syncs a device -/

def generated : GeneratedKeys where
  masterKey := ⟨List.replicate 32 1, none, by decide⟩
  privateDataKey := [2, 2]
  encryptionPublic := [3]
  encryptionPrivate := [7]
  signaturePublic := [4]
  signaturePrivate := [8]

def registrationIvs : Registration.Ivs :=
  ⟨List.replicate 16 5, List.replicate 16 6, List.replicate 16 9⟩

/-- 2015-01-01T00:00:00Z and 2020-01-01T00:00:00Z. -/
def registeredFrom : DateTime := ⟨some 212286873600, 0⟩

def registeredUntil : DateTime := ⟨some 212444640000, 0⟩

def registration : Json :=
  Registration.document .tagging (fun _ _ => "login") .alice generated registrationIvs registeredFrom registeredUntil none
    none ""

/-- What the server says of a key pair: the members of the document, and its own. -/
def described (id : Nat) (type : AsymmetricKeyType) (pubkey privkey iv : Bytes) (revocation : String) : Json :=
  .object [("id", .int id), ("privkey", .string (Platform.tagging.base64Encode
      (Registration.encryptWithIV .tagging privkey generated.privateDataKey iv))),
    ("pubkey", .string (Platform.tagging.base64Encode pubkey)), ("revocation", .string revocation),
    ("type", .string type.toString), ("validFrom", .string "2015-01-01T00:00:00+00:00"),
    ("validUntil", .string "2020-01-01T00:00:00+00:00")]

def describedSymm : Json :=
  .object [("privateDataKey", .string (Platform.tagging.base64Encode (Registration.encryptWithIV .tagging
    generated.privateDataKey generated.masterKey.data registrationIvs.privateDataKey)))]

def describedPairs (revocation : String) : List Json :=
  [described 1 .encryption [3] [7] registrationIvs.encryption revocation,
    described 2 .signature [4] [8] registrationIvs.signature ""]

def answers (revocation : String) : Inputs where
  symm := .ok describedSymm
  asymm := .ok (.array (describedPairs revocation))

private theorem registrable : Registrable .tagging generated registrationIvs where
  base64 := Platform.tagging_base64
  base64_empty := rfl
  privateDataKey := Platform.tagging_gcm _ _
  encryption := Platform.tagging_gcm _ _
  signature := Platform.tagging_gcm _ _
  length_privateDataKey := rfl
  length_encryption := rfl
  length_signature := rfl
  encryptionPublic_ne := by decide
  signaturePublic_ne := by decide

private theorem toDateTime_registeredFrom :
    Platform.tagging.toDateTime (.string "2015-01-01T00:00:00+00:00") = .ok registeredFrom :=
  Platform.tagging.toDateTime_printed DateLibrary.gregorian_documented
    ⟨2015, 1, 1, 0, 0, by decide, by decide, by decide, by decide, rfl⟩ rfl

private theorem toDateTime_registeredUntil :
    Platform.tagging.toDateTime (.string "2020-01-01T00:00:00+00:00") = .ok registeredUntil :=
  Platform.tagging.toDateTime_printed DateLibrary.gregorian_documented
    ⟨2020, 1, 1, 0, 0, by decide, by decide, by decide, by decide, rfl⟩ rfl

private theorem described_encryption (revocation : String) :
    DescribesPair .tagging registration "keypairEncryption" .encryption 1
      (described 1 .encryption [3] [7] registrationIvs.encryption revocation) where
  isObject := rfl
  id_le := by decide
  id := rfl
  type := rfl
  pubkey := rfl
  privkey := rfl
  validFrom := ⟨_, _, _, rfl, toDateTime_registeredFrom, rfl⟩
  validUntil := ⟨_, _, _, rfl, toDateTime_registeredUntil, rfl⟩
  revocation := ⟨revocation, _, rfl, rfl⟩

private theorem described_signature :
    DescribesPair .tagging registration "keypairSigning" .signature 2
      (described 2 .signature [4] [8] registrationIvs.signature "") where
  isObject := rfl
  id_le := by decide
  id := rfl
  type := rfl
  pubkey := rfl
  privkey := rfl
  validFrom := ⟨_, _, _, rfl, toDateTime_registeredFrom, rfl⟩
  validUntil := ⟨_, _, _, rfl, toDateTime_registeredUntil, rfl⟩
  revocation := ⟨"", _, rfl, rfl⟩

private theorem describes_describedPairs (revocation : String) :
    DescribesPairs .tagging registration 1 2 (describedPairs revocation) where
  described := by
    unfold describedPairs
    rw [List.forall_mem_cons, List.forall_mem_singleton]
    exact ⟨.inl (described_encryption revocation), .inr (.inl described_signature)⟩
  encryption := ⟨_, List.mem_cons_self, described_encryption revocation⟩
  signature := ⟨_, List.mem_cons_of_mem _ List.mem_cons_self, described_signature⟩

private theorem serve_answers (revocation : String) (cancelled : Bool) :
    ({ answers revocation with cancelled } : Inputs).Serve .tagging registration 1 2 where
  symm := by
    intro json h
    cases h
    exact ⟨rfl, rfl⟩
  asymm := by
    intro json h
    cases h
    exact ⟨_, rfl, describes_describedPairs revocation⟩

/-- The answer of a run that breaks off after the first of the two pairs. -/
def firstAnswers : Inputs :=
  { answers "" with asymm := .ok (.array [described 1 .encryption [3] [7] registrationIvs.encryption ""]) }

private theorem serveSome_firstAnswers : firstAnswers.ServeSome .tagging registration 1 2 where
  symm := (serve_answers "" false).symm
  asymm := by
    intro json h
    cases h
    refine ⟨_, rfl, ?_⟩
    rw [List.forall_mem_singleton]
    exact .inl (described_encryption "")

/-- The first run is cancelled after the private data key, and the second one breaks off between the two pairs. -/
theorem keys_available_alice :
    let cancelled := final (run .tagging generated.masterKey { answers "" with cancelled := true } {})
    ∃ t', run .tagging generated.masterKey (answers "")
        (final (run .tagging generated.masterKey firstAnswers cancelled)) = .ok () t' ∧
      SymmetricKeyDao.loadKey t' .privateDataKey = .ok [2, 2] ∧
      AsymmetricKeyPairDao.loadPrivateKey .tagging t' .encryption 1 = .ok [7] ∧
      AsymmetricKeyPairDao.loadPrivateKey .tagging t' .signature 2 = .ok [8] ∧
      ∀ db, t'.InDb db → getPrivateKey .tagging db .encryption 1 = .ok [7] := by
  intro cancelled
  have hruns : Relation.ReflTransGen (Served .tagging generated registration 1 2) {}
      (final (run .tagging generated.masterKey firstAnswers cancelled)) :=
    .tail (.single ⟨_, (serve_answers "" true).serveSome, rfl⟩) ⟨_, serveSome_firstAnswers, rfl⟩
  exact keys_available registrable rfl (by decide) (fun id row hrow => by cases hrow) hruns (serve_answers "" false) rfl rfl rfl

end KeysSyncer

namespace KeySession

open KeysSyncer

def synced : KeySession .tagging where
  tables := final (run .tagging generated.masterKey (answers "") {})

/-- The key is loaded, and then its pair is revoked. -/
def revoked : KeySession .tagging :=
  let asked := (synced.getKey .encryption 1).2
  { asked with tables := final (run .tagging generated.masterKey (answers "r") asked.tables) }

theorem keys_stay_revoked :
    (synced.getKey .encryption 1).1 = .ok [7] ∧ (revoked.getKey .encryption 1).1 = .ok [7] := by
  have hsynced : Relation.ReflTransGen (Step generated.masterKey) {} synced := .single (.sync {} (answers ""))
  have hrevoked : Relation.ReflTransGen (Step generated.masterKey) synced revoked :=
    .tail (.single (.getKey synced .encryption 1)) (.sync _ (answers "r"))
  have hkeys := keys_stay rfl hsynced hrevoked .encryption 1
  obtain ⟨t, hrun, -, hload, -⟩ : ∃ t, run .tagging generated.masterKey (answers "") {} = .ok () t ∧ _ :=
    run_available registrable rfl (by decide) (fun id row hrow => by cases hrow) (serve_answers "" false) rfl rfl rfl
  have htables : synced.tables = t := by
    unfold synced
    dsimp only
    rw [hrun]
    rfl
  have hkey : (synced.getKey .encryption 1).1 = .ok [7] := by
    rw [hkeys.1, htables, hload]
    rfl
  exact ⟨hkey, hkeys.2 _ hkey⟩

end KeySession

end KulloClient
