import KulloClient.Codec.MessageEncoder

/-!
# MessageDecryptor

From a message of the server to its decrypted key safe, content and meta data.  `decrypt_raises` says which
exceptions leave `decrypt`, and `decrypt_eq_decryptionKeyMissing_iff` when it is the one the syncer expects.
-/

namespace KulloClient

open Imperative

/-- `Protocol::Message`: what the server holds of a message. -/
structure HttpMessage where
  id : IdType
  lastModified : LastModified
  deleted : Bool := false
  dateReceived : Option DateTime := none
  keySafe : Bytes := []
  content : Bytes := []
  metaData : Bytes := []
  deriving DecidableEq

structure KeySafe where
  symmKey : Bytes
  deriving DecidableEq

structure DecryptedContent where
  sigKeyId : IdType
  signature : Bytes
  data : Bytes
  deriving DecidableEq

structure DecryptedMessage where
  id : IdType
  lastModified : LastModified
  dateReceived : DateTime
  keySafe : KeySafe
  content : DecryptedContent
  metaVersion : MetaVersion
  metaText : Bytes
  deriving DecidableEq

/-- `AsymmetricKeyPairDao::loadPrivateKey`, behind `PrivateKeyProvider::getKey`. -/
def getPrivateKey (P : Platform) (db : Db) (type : AsymmetricKeyType) (keyId : IdType) : Except Exn P.PrivateKey :=
  match (db.keysAsymm.find? keyId).filter (fun r => r.keyType == type) with
  | none => .error (.databaseIntegrityError ("Couldn't load AsymmetricKeyPairDao with id " ++ toString keyId))
  | some r => Platform.ofBotan (P.loadPrivateKey r.privkey)

namespace MessageDecryptor

variable (P : Platform)

def messageSymmKeyBits : Nat := 256

def checkSize (msg : HttpMessage) : Except Exn Unit :=
  if messageKeySafeMaxBytes < msg.keySafe.length then
    .error (.invalidContentFormat ("keySafe too large: " ++ toString msg.keySafe.length))
  else if messageContentMaxBytes < msg.content.length then
    .error (.invalidContentFormat ("content too large: " ++ toString msg.content.length))
  else if messageMetaMaxBytes < msg.metaData.length then
    .error (.invalidContentFormat ("meta too large: " ++ toString msg.metaData.length))
  else .ok ()

def failed (msg : HttpMessage) (what : String) : Exn :=
  .invalidContentFormat ("Failed to decrypt message " ++ toString msg.id ++ ": " ++ what)

def decryptKeySafe (db : Db) (msg : HttpMessage) : Except Exn Bytes :=
  if msg.keySafe.length ≤ 4 then .error (failed msg "keySafe too short")
  else
    let result : Except Exn Bytes := do
      let privkey ← getPrivateKey P db .encryption (readUint32 msg.keySafe 0)
      Platform.ofBotan (P.asymmDecrypt (msg.keySafe.drop 4) privkey)
    fwdNested result Exn.isDatabaseIntegrityError .decryptionKeyMissing

def parseKeySafe (keySafeText : Bytes) : Except Exn KeySafe := do
  let json ← fwdNested (P.readObject keySafeText) Exn.isJsonException (.invalidContentFormat "keySafe invalid")
  let msgFormat ← CheckedConverter.toUint32 (← json.get "msgFormat")
  if msgFormat ≠ 1 then .error (.unsupportedContentVersion (toString msgFormat))
  else do
    let symmCipher ← CheckedConverter.toString (← json.get "symmCipher") .no
    if symmCipher ≠ "AES-256/GCM" then
      .error (.invalidContentFormat "MessageDecryptor::parseKeySafe: bad symmCipher")
    else do
      let hashAlgo ← CheckedConverter.toString (← json.get "hashAlgo") .no
      if hashAlgo ≠ "SHA-512" then
        .error (.invalidContentFormat "MessageDecryptor::parseKeySafe: bad hashAlgo")
      else do
        let symmKey ← P.toVector (← json.get "symmKey") .no
        if 8 * symmKey.length ≠ messageSymmKeyBits then
          .error (.invalidContentFormat "MessageDecryptor::parseKeySafe: bad symmKey")
        else .ok ⟨symmKey⟩

def decryptContent (msg : HttpMessage) (keySafe : KeySafe) : Except Exn DecryptedContent := do
  let content ← SymmetricCryptor.decrypt P msg.content keySafe.symmKey SymmetricCryptor.contentIV
  if content.length < 8 then .error (failed msg "decrypted data too short")
  else
    let sigLen := readUint32 content 4
    if content.length - 8 < sigLen then .error (failed msg "decrypted data too short [2]")
    else
      .ok
        { sigKeyId := readUint32 content 0
          signature := (content.drop 8).take sigLen
          data := content.drop (8 + sigLen) }

/-- `decryptMeta`: without a version there is nothing to decrypt, and neither is there for an unknown version. -/
def decryptMeta (msg : HttpMessage) (privateDataKey : Bytes) : Except Exn (MetaVersion × Bytes) :=
  if msg.metaData.length < 4 then .ok (latestMetaVersion, [])
  else
    let ciphertext := msg.metaData.drop 4
    match readUint32 msg.metaData 0 with
    | 0 => do .ok (0, ← SymmetricCryptor.decrypt P ciphertext privateDataKey (toBytes "meta"))
    | 1 => do .ok (1, ← SymmetricCryptor.decryptWithIV P ciphertext privateDataKey SymmetricCryptor.randomIVBytes)
    | version => .ok (version, [])

def decrypt (db : Db) (privateDataKey : Bytes) (msg : HttpMessage) : Except Exn DecryptedMessage := do
  checkSize msg
  match msg.dateReceived with
  | none => .error (.assertionFailed "message_.dateReceived.is_initialized()")
  | some dateReceived => do
    let keySafe ← fwdNested (do parseKeySafe P (← decryptKeySafe P db msg)) Exn.isConversionException
      (.invalidContentFormat "MessageDecryptor::decrypt()")
    let (content, metaVersion, metaText) ← fwdNested
      (do
        let content ← decryptContent P msg keySafe
        let (metaVersion, metaText) ← decryptMeta P msg privateDataKey
        .ok (content, metaVersion, metaText))
      Exn.isIntegrityFailure (.invalidContentFormat "MessageDecryptor::decrypt()")
    .ok ⟨msg.id, msg.lastModified, dateReceived, keySafe, content, metaVersion, metaText⟩

/-! ### What decrypting raises -/

/-- The exceptions of `decrypt`, apart from the missing key. -/
def isRefusal : Exn → Bool
  | .invalidContentFormat _ => true
  | .unsupportedContentVersion _ => true
  | .assertionFailed _ => true
  | .botanException _ => true
  | .jsonRuntimeError _ => true
  | _ => false

private theorem isRefusal_of_isBotanException {e : Exn} (h : e.isBotanException = true) : isRefusal e = true := by
  cases e <;> simp_all [isRefusal, Exn.isBotanException]

/-- Behind the JSON reader, parsing refuses the format, the version or a value. -/
theorem parseKeySafe_raises_of {p : Exn → Prop} {keySafeText : Bytes}
    (hread : RaisesOnly (fun e => p e ∨ e.isJsonException = true) (P.readObject keySafeText))
    (hformat : ∀ message, p (.invalidContentFormat message)) (hversion : ∀ message, p (.unsupportedContentVersion message))
    (hconv : ∀ e : Exn, e.isConversionException = true → p e) : RaisesOnly p (parseKeySafe P keySafeText) := by
  refine raisesOnly_bind ((fwdNested_raises_iff (hformat _)).mpr hread) ?_
  intro json hjson
  have hobj : json.isObject = true := P.readObject_isObject (fwdNested_eq_ok.mp hjson)
  refine raisesOnly_bind (Json.get_raises_of_isObject hobj _) (fun v _ => ?_)
  refine raisesOnly_bind ((CheckedConverter.toUint32_raises v).mono hconv) (fun msgFormat _ => ?_)
  split
  · simp [hversion]
  refine raisesOnly_bind (Json.get_raises_of_isObject hobj _) (fun v _ => ?_)
  refine raisesOnly_bind ((CheckedConverter.toString_raises v .no).mono hconv) (fun symmCipher _ => ?_)
  split
  · simp [hformat]
  refine raisesOnly_bind (Json.get_raises_of_isObject hobj _) (fun v _ => ?_)
  refine raisesOnly_bind ((CheckedConverter.toString_raises v .no).mono hconv) (fun hashAlgo _ => ?_)
  split
  · simp [hformat]
  refine raisesOnly_bind (Json.get_raises_of_isObject hobj _) (fun v _ => ?_)
  refine raisesOnly_bind ((P.toVector_raises v .no).mono hconv) (fun symmKey _ => ?_)
  split <;> simp [hformat]

private theorem parseKeySafe_raises (keySafeText : Bytes) :
    RaisesOnly (fun e => isRefusal e = true ∨ e.isConversionException = true) (parseKeySafe P keySafeText) := by
  refine parseKeySafe_raises_of P ?_ (fun _ => .inl rfl) (fun _ => .inl rfl) (fun _ => .inr)
  intro e he
  rcases P.readObject_raises keySafeText e he with hjson | hruntime
  · exact .inr hjson
  · cases e <;> simp_all [isRefusal, Exn.isJsonRuntimeError]

private theorem symmetricDecrypt_raises (ciphertext key iv : Bytes) :
    RaisesOnly (fun e => isRefusal e = true ∨ e.isIntegrityFailure = true)
      (SymmetricCryptor.decrypt P ciphertext key iv) := by
  unfold SymmetricCryptor.decrypt
  split
  · simp
  · split <;> simp [isRefusal, Exn.isIntegrityFailure]

private theorem decryptContent_raises (msg : HttpMessage) (keySafe : KeySafe) :
    RaisesOnly (fun e => isRefusal e = true ∨ e.isIntegrityFailure = true) (decryptContent P msg keySafe) := by
  refine raisesOnly_bind (symmetricDecrypt_raises P _ _ _) (fun content _ => ?_)
  split
  · simp [isRefusal, failed]
  · dsimp only
    split <;> simp [isRefusal, failed]

private theorem decryptMeta_raises (msg : HttpMessage) (privateDataKey : Bytes) :
    RaisesOnly (fun e => isRefusal e = true ∨ e.isIntegrityFailure = true) (decryptMeta P msg privateDataKey) := by
  unfold decryptMeta
  split
  · simp
  split
  · exact raisesOnly_bind (symmetricDecrypt_raises P _ _ _) (fun _ _ => raisesOnly_ok _)
  · refine raisesOnly_bind (raisesOnly_bind ?_ (fun _ _ => symmetricDecrypt_raises P _ _ _))
      (fun _ _ => raisesOnly_ok _)
    unfold kulloAssert
    split <;> simp [isRefusal]
  · simp

/-- The message fits its limits and names a private key that is not stored. -/
structure NamesMissingKey (db : Db) (msg : HttpMessage) : Prop where
  fits : checkSize msg = .ok ()
  dated : msg.dateReceived ≠ none
  long : 4 < msg.keySafe.length
  missing : (db.keysAsymm.find? (readUint32 msg.keySafe 0)).filter (fun r => r.keyType == .encryption) = none

private theorem getPrivateKey_raises {db : Db} {type : AsymmetricKeyType} {keyId : IdType}
    (h : (db.keysAsymm.find? keyId).filter (fun r => r.keyType == type) ≠ none) :
    RaisesOnly (fun e => e.isBotanException = true) (getPrivateKey P db type keyId) := by
  unfold getPrivateKey
  split
  · next hnone => exact absurd hnone h
  · exact Platform.ofBotan_raises _

private theorem decryptKeySafe_raises {db : Db} {msg : HttpMessage}
    (h : 4 < msg.keySafe.length →
      (db.keysAsymm.find? (readUint32 msg.keySafe 0)).filter (fun r => r.keyType == .encryption) ≠ none) :
    RaisesOnly (fun e => isRefusal e = true) (decryptKeySafe P db msg) := by
  unfold decryptKeySafe
  split
  · simp [isRefusal, failed]
  next hlong =>
    have hbotan : RaisesOnly (fun e => e.isBotanException = true) (do
        let privkey ← getPrivateKey P db .encryption (readUint32 msg.keySafe 0)
        Platform.ofBotan (P.asymmDecrypt (msg.keySafe.drop 4) privkey)) :=
      raisesOnly_bind (getPrivateKey_raises P (h (not_le.mp hlong))) (fun _ _ => Platform.ofBotan_raises _)
    dsimp only
    rw [fwdNested_eq_self (hbotan.mono ?_)]
    · exact hbotan.mono (fun _ => isRefusal_of_isBotanException)
    · intro e he
      cases e <;> simp_all [Exn.isBotanException, Exn.isDatabaseIntegrityError]

/-- What `decrypt` raises for a message that names a stored key, or no key. -/
theorem decrypt_raises {db : Db} {privateDataKey : Bytes} {msg : HttpMessage} (h : ¬ NamesMissingKey db msg) :
    RaisesOnly (fun e => isRefusal e = true) (decrypt P db privateDataKey msg) := by
  refine raisesOnly_bind ?_ (fun _ hfits => ?_)
  · unfold checkSize
    repeat' split
    all_goals simp [isRefusal]
  split
  · simp [isRefusal]
  next dateReceived hdate =>
    refine raisesOnly_bind (fwdNested_raises (raisesOnly_bind ?_ fun text _ => parseKeySafe_raises P text) rfl ?_)
      (fun keySafe _ => ?_)
    · refine (decryptKeySafe_raises P ?_).mono (fun _ => .inl)
      intro hlong hmissing
      exact h ⟨hfits, by simp [hdate], hlong, hmissing⟩
    · rintro e (he | he) hc
      · exact he
      · rw [he] at hc; cases hc
    refine raisesOnly_bind (fwdNested_raises (raisesOnly_bind (decryptContent_raises P msg keySafe) fun content _ =>
      raisesOnly_bind (decryptMeta_raises P msg privateDataKey) fun _ _ => raisesOnly_ok _) rfl ?_)
      (fun _ _ => raisesOnly_ok _)
    rintro e (he | he) hc
    · exact he
    · rw [he] at hc; cases hc

/-- The one failure of `decrypt` the syncer expects, in terms of the message and the stored keys. -/
theorem decrypt_eq_decryptionKeyMissing_iff {db : Db} {privateDataKey : Bytes} {msg : HttpMessage} :
    decrypt P db privateDataKey msg = .error .decryptionKeyMissing ↔ NamesMissingKey db msg := by
  constructor
  · intro herr
    by_contra h
    have href := decrypt_raises P h _ herr
    cases href
  · intro h
    obtain ⟨dateReceived, hdate⟩ := Option.ne_none_iff_exists'.mp h.dated
    have hsafe : decryptKeySafe P db msg = .error .decryptionKeyMissing := by
      have hkey : getPrivateKey P db .encryption (readUint32 msg.keySafe 0) = .error (.databaseIntegrityError
          ("Couldn't load AsymmetricKeyPairDao with id " ++ toString (readUint32 msg.keySafe 0))) := by
        unfold getPrivateKey
        rw [h.missing]
      unfold decryptKeySafe
      rw [if_neg (not_le.mpr h.long), hkey]
      rfl
    unfold decrypt
    rw [h.fits, hdate]
    simp only [hsafe]
    rfl

end MessageDecryptor

end KulloClient
