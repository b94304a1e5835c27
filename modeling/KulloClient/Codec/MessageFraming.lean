import KulloClient.Codec.MessageDecryptor
import KulloClient.Crypto.SymmetricCryptor

/-!
# Framing

The decryptor takes apart what the encryptor has put together: key ids and lengths of four bytes, the prepended IV and
the version of the meta data.  For any other message, `decrypt_isRefused_iff` says when it is refused with one of the
three exceptions of the codec, and `decryptChecked_eq` that no access leaves its buffer.
-/

namespace KulloClient

open Imperative

/-! ### Four bytes -/

@[simp] theorem length_writeUint32 (n : Nat) : (writeUint32 n).length = 4 := rfl

private theorem readUint32_append {n : Nat} (h : n < 2 ^ 32) (rest : Bytes) : readUint32 (writeUint32 n ++ rest) 0 = n := by
  have h0 : (UInt8.ofNat (n >>> 24)).toNat = n / 2 ^ 24 % 256 := by
    rw [Nat.shiftRight_eq_div_pow]
    exact UInt8.toNat_ofNat'
  have h1 : (UInt8.ofNat (n >>> 16)).toNat = n / 2 ^ 16 % 256 := by
    rw [Nat.shiftRight_eq_div_pow]
    exact UInt8.toNat_ofNat'
  have h2 : (UInt8.ofNat (n >>> 8)).toNat = n / 2 ^ 8 % 256 := by
    rw [Nat.shiftRight_eq_div_pow]
    exact UInt8.toNat_ofNat'
  have h3 : (UInt8.ofNat n).toNat = n % 256 := UInt8.toNat_ofNat'
  simp only [readUint32, writeUint32, List.cons_append, List.nil_append, List.getD_cons_zero, List.getD_cons_succ, h0,
    h1, h2, h3]
  omega

/-- A number behind `k` bytes. -/
theorem readUint32_append_right (front rest : Bytes) :
    readUint32 (front ++ rest) front.length = readUint32 rest 0 := by
  have hget : ∀ i, (front ++ rest).getD (front.length + i) 0 = rest.getD i 0 := by
    intro i
    simp [List.getD_eq_getElem?_getD, List.getElem?_append_right]
  unfold readUint32
  rw [hget 1, hget 2, hget 3, ← hget 0]
  rfl

/-! ### What the encryptor has made -/

section encryptor

variable {P : Platform}

/-- The key safe `makeKeySafe` writes. -/
def MessageEncryptor.keySafeJson (P : Platform) (symmKey : Bytes) : Json :=
  .object [("hashAlgo", .string "SHA-512"), ("msgFormat", .int 1), ("symmCipher", .string "AES-256/GCM"),
    ("symmKey", .string (P.base64Encode symmKey))]

/-- The key safe can be opened: the private key of the id undoes the encryption, and the text and the key in it can
be read back. -/
structure KeySafeOpens (P : Platform) (db : Db) (random : MessageEncryptor.Randomness) (encKeyId : IdType)
    (encKey : P.PublicKey) : Prop where
  json : P.parseJson (P.writeJson (MessageEncryptor.keySafeJson P random.symmKey)) =
    .ok (.ok (MessageEncryptor.keySafeJson P random.symmKey))
  base64 : P.base64Decode (P.base64Encode random.symmKey) = .ok random.symmKey
  base64_ne : P.base64Encode random.symmKey ≠ ""
  symmKey : 8 * random.symmKey.length = MessageDecryptor.messageSymmKeyBits
  rsa : ∃ privateKey, getPrivateKey P db .encryption encKeyId = .ok privateKey ∧
    P.asymmDecrypt (P.asymmEncrypt random.padding (P.writeJson (MessageEncryptor.keySafeJson P random.symmKey)) encKey)
      privateKey = .ok (P.writeJson (MessageEncryptor.keySafeJson P random.symmKey))
  rsa_ne : P.asymmEncrypt random.padding (P.writeJson (MessageEncryptor.keySafeJson P random.symmKey)) encKey ≠ []

private theorem MessageDecryptor.parseKeySafe_keySafeJson {db : Db} {random : MessageEncryptor.Randomness} {encKeyId : IdType}
    {encKey : P.PublicKey} (h : KeySafeOpens P db random encKeyId encKey) :
    parseKeySafe P (P.writeJson (MessageEncryptor.keySafeJson P random.symmKey)) = .ok ⟨random.symmKey⟩ := by
  have hread : P.readObject (P.writeJson (MessageEncryptor.keySafeJson P random.symmKey)) =
      .ok (MessageEncryptor.keySafeJson P random.symmKey) := by
    unfold Platform.readObject
    rw [h.json]
    rfl
  have hkey : P.toVector (.string (P.base64Encode random.symmKey)) .no = .ok random.symmKey := by
    have hne : (P.base64Encode random.symmKey).isEmpty = false := by
      simpa [String.isEmpty_iff] using h.base64_ne
    have hstring : CheckedConverter.toString (.string (P.base64Encode random.symmKey)) .no =
        .ok (P.base64Encode random.symmKey) := by
      unfold CheckedConverter.toString
      simp [hne]
    unfold Platform.toVector
    rw [hstring, ok_bind, h.base64]
  have hgetFormat : (MessageEncryptor.keySafeJson P random.symmKey).get "msgFormat" = .ok (.int 1) := rfl
  have hgetCipher : (MessageEncryptor.keySafeJson P random.symmKey).get "symmCipher" = .ok (.string "AES-256/GCM") :=
    rfl
  have hgetHash : (MessageEncryptor.keySafeJson P random.symmKey).get "hashAlgo" = .ok (.string "SHA-512") := rfl
  have hgetKey : (MessageEncryptor.keySafeJson P random.symmKey).get "symmKey" =
      .ok (.string (P.base64Encode random.symmKey)) := rfl
  have hformat : CheckedConverter.toUint32 (.int 1) = .ok 1 := rfl
  have hcipher : CheckedConverter.toString (.string "AES-256/GCM") .no = .ok "AES-256/GCM" := rfl
  have hhash : CheckedConverter.toString (.string "SHA-512") .no = .ok "SHA-512" := rfl
  unfold parseKeySafe
  rw [hread]
  simp only [fwdNested, bind, Except.bind, hgetFormat, hgetCipher, hgetHash, hgetKey, hformat, hcipher, hhash, hkey,
    ne_eq, not_true, if_false, h.symmKey]

private theorem MessageDecryptor.decryptKeySafe_makeKeySafe {db : Db} {random : MessageEncryptor.Randomness} {encKeyId : IdType}
    {encKey : P.PublicKey} (h : KeySafeOpens P db random encKeyId encKey) (hid : encKeyId < 2 ^ 32)
    (msg : HttpMessage) (hmsg : msg.keySafe = MessageEncryptor.makeKeySafe P random encKeyId encKey) :
    decryptKeySafe P db msg = .ok (P.writeJson (MessageEncryptor.keySafeJson P random.symmKey)) := by
  have hsafe : msg.keySafe = writeUint32 encKeyId ++
      P.asymmEncrypt random.padding (P.writeJson (MessageEncryptor.keySafeJson P random.symmKey)) encKey := hmsg
  have hlen : ¬ msg.keySafe.length ≤ 4 := by
    have hpos := List.length_pos_iff.mpr h.rsa_ne
    rw [hsafe, List.length_append, length_writeUint32]
    omega
  obtain ⟨privateKey, hkey, hdec⟩ := h.rsa
  unfold decryptKeySafe
  rw [if_neg hlen, hsafe, readUint32_append hid, hkey, List.drop_left' (length_writeUint32 _)]
  simp only [bind, Except.bind, hdec, Platform.ofBotan, fwdNested]

/-- The plaintext of the content. -/
def framed (sigKeyId : IdType) (signature data : Bytes) : Bytes :=
  writeUint32 sigKeyId ++ (writeUint32 signature.length ++ (signature ++ data))

private theorem encryptContent_eq_framed (symmKey data : Bytes) (sigKeyId : IdType) (sigKeyPair : P.PrivateKey) :
    MessageEncryptor.encryptContent P symmKey data sigKeyId sigKeyPair =
      SymmetricCryptor.encrypt P (framed sigKeyId (P.sign data sigKeyPair) data) symmKey
        SymmetricCryptor.contentIV := by
  unfold MessageEncryptor.encryptContent framed
  simp only [List.append_assoc]

private theorem length_framed (sigKeyId : IdType) (signature data : Bytes) :
    (framed sigKeyId signature data).length = 8 + signature.length + data.length := by
  unfold framed
  simp only [List.length_append, length_writeUint32]
  omega

private theorem drop_framed (sigKeyId : IdType) (signature data : Bytes) :
    (framed sigKeyId signature data).drop 8 = signature ++ data := by
  unfold framed
  rw [← List.append_assoc]
  exact List.drop_left' rfl

private theorem readUint32_framed (sigKeyId : IdType) {signature : Bytes} (h : signature.length < 2 ^ 32) (data : Bytes) :
    readUint32 (framed sigKeyId signature data) 4 = signature.length := by
  have hright := readUint32_append_right (writeUint32 sigKeyId) (writeUint32 signature.length ++ (signature ++ data))
  rw [readUint32_append h] at hright
  exact hright

/-- The signature's length fits into its four bytes when the content fits into its limit. -/
theorem signature_length_lt {symmKey signature data : Bytes} {sigKeyId : IdType}
    (hgcm : GcmRoundTrips P symmKey SymmetricCryptor.contentIV)
    (hfits : (SymmetricCryptor.encrypt P (framed sigKeyId signature data) symmKey SymmetricCryptor.contentIV).length ≤
      messageContentMaxBytes) : signature.length < 2 ^ 32 := by
  have hne : framed sigKeyId signature data ≠ [] := by
    rw [← List.length_pos_iff, length_framed]
    omega
  rw [SymmetricCryptor.length_encrypt hgcm, if_neg hne, length_framed] at hfits
  have hmax : messageContentMaxBytes < 2 ^ 32 := by decide
  omega

private theorem MessageDecryptor.decryptContent_encryptContent {symmKey data : Bytes} {sigKeyId : IdType}
    {sigKeyPair : P.PrivateKey} (hgcm : GcmRoundTrips P symmKey SymmetricCryptor.contentIV) (hid : sigKeyId < 2 ^ 32)
    {msg : HttpMessage} (hmsg : msg.content = MessageEncryptor.encryptContent P symmKey data sigKeyId sigKeyPair)
    (hfits : msg.content.length ≤ messageContentMaxBytes) :
    decryptContent P msg ⟨symmKey⟩ = .ok ⟨sigKeyId, P.sign data sigKeyPair, data⟩ := by
  rw [encryptContent_eq_framed] at hmsg
  rw [hmsg] at hfits
  have hsigLen := readUint32_framed sigKeyId (signature_length_lt hgcm hfits) data
  have hsigKeyId : readUint32 (framed sigKeyId (P.sign data sigKeyPair) data) 0 = sigKeyId := readUint32_append hid _
  have hlen := length_framed sigKeyId (P.sign data sigKeyPair) data
  unfold decryptContent
  rw [hmsg, SymmetricCryptor.decrypt_encrypt hgcm]
  rw [ok_bind]
  dsimp only
  rw [if_neg (by omega), hsigLen, if_neg (by omega), hsigKeyId, drop_framed, List.take_left, ← List.drop_drop,
    drop_framed, List.drop_left]

theorem MessageDecryptor.decryptMeta_encryptMeta {iv text privateDataKey metaData : Bytes}
    (hgcm : GcmRoundTrips P privateDataKey iv) (hiv : iv.length = SymmetricCryptor.randomIVBytes)
    (hmeta : MessageEncryptor.encryptMeta P iv text privateDataKey = .ok metaData) (msg : HttpMessage)
    (hmsg : msg.metaData = metaData) :
    metaData.length ≤ messageMetaMaxBytes ∧ decryptMeta P msg privateDataKey = .ok (1, text) := by
  unfold MessageEncryptor.encryptMeta at hmeta
  by_cases hlen : (writeUint32 1 ++ (iv ++ SymmetricCryptor.encrypt P text privateDataKey iv)).length ≤
      messageMetaMaxBytes
  · dsimp only at hmeta
    rw [decide_eq_true hlen] at hmeta
    cases hmeta
    refine ⟨hlen, ?_⟩
    have hshort : ¬ msg.metaData.length < 4 := by
      rw [hmsg, List.length_append, length_writeUint32]
      omega
    unfold decryptMeta
    rw [if_neg hshort, hmsg, readUint32_append (by decide), List.drop_left' (length_writeUint32 _)]
    dsimp only
    rw [SymmetricCryptor.decryptWithIV_encrypt hgcm hiv]
    rfl
  · dsimp only at hmeta
    rw [decide_eq_false hlen] at hmeta
    cases hmeta

private theorem MessageDecryptor.checkSize_of_le {msg : HttpMessage} (hsafe : msg.keySafe.length ≤ messageKeySafeMaxBytes)
    (hcontent : msg.content.length ≤ messageContentMaxBytes) (hmeta : msg.metaData.length ≤ messageMetaMaxBytes) :
    checkSize msg = .ok () := by
  unfold checkSize
  rw [if_neg (not_lt.mpr hsafe), if_neg (not_lt.mpr hcontent), if_neg (not_lt.mpr hmeta)]

/-- What is received of an encrypted message. -/
theorem MessageDecryptor.decrypt_encrypted {db : Db} {random : MessageEncryptor.Randomness} {encKeyId sigKeyId : IdType}
    {encKey : P.PublicKey} {sigKeyPair : P.PrivateKey} {data iv metaText privateDataKey : Bytes} {msg : HttpMessage}
    {dateReceived : DateTime} (hopens : KeySafeOpens P db random encKeyId encKey)
    (hgcmContent : GcmRoundTrips P random.symmKey SymmetricCryptor.contentIV)
    (hgcmMeta : GcmRoundTrips P privateDataKey iv) (hiv : iv.length = SymmetricCryptor.randomIVBytes)
    (hencKeyId : encKeyId < 2 ^ 32) (hsigKeyId : sigKeyId < 2 ^ 32) (hdate : msg.dateReceived = some dateReceived)
    (hkeySafe : msg.keySafe = MessageEncryptor.makeKeySafe P random encKeyId encKey)
    (hcontent : msg.content = MessageEncryptor.encryptContent P random.symmKey data sigKeyId sigKeyPair)
    (hmeta : MessageEncryptor.encryptMeta P iv metaText privateDataKey = .ok msg.metaData)
    (hkeySafeFits : msg.keySafe.length ≤ messageKeySafeMaxBytes)
    (hcontentFits : msg.content.length ≤ messageContentMaxBytes) :
    decrypt P db privateDataKey msg = .ok ⟨msg.id, msg.lastModified, dateReceived, ⟨random.symmKey⟩,
      ⟨sigKeyId, P.sign data sigKeyPair, data⟩, 1, metaText⟩ := by
  obtain ⟨hmetaFits, hdecMeta⟩ := decryptMeta_encryptMeta hgcmMeta hiv hmeta msg rfl
  have hsize := checkSize_of_le hkeySafeFits hcontentFits hmetaFits
  have hdecSafe := decryptKeySafe_makeKeySafe hopens hencKeyId msg hkeySafe
  have hparse := parseKeySafe_keySafeJson hopens
  have hdecContent := decryptContent_encryptContent hgcmContent hsigKeyId hcontent hcontentFits
  unfold decrypt
  rw [hsize, hdate]
  simp only [bind, Except.bind, hdecSafe, hparse, hdecContent, hdecMeta, fwdNested]

end encryptor

/-! ### What a message raises -/

section errors

variable {P : Platform}

/-- The exceptions of `codec/exceptions.h` for a message that cannot be decrypted. -/
def isCodecError : Exn → Bool
  | .invalidContentFormat _ => true
  | .unsupportedContentVersion _ => true
  | .decryptionKeyMissing => true
  | _ => false

/-- The cipher raises nothing but an integrity failure. -/
def CipherTranslated (P : Platform) (ciphertext key iv : Bytes) : Prop :=
  ciphertext ≠ [] → ∀ message, P.gcmDecrypt key iv ciphertext ≠ .error (.other message)

/-- The meta data of version 1 has room for its IV, and the cipher raises nothing but an integrity failure. -/
def MetaTranslated (P : Platform) (privateDataKey : Bytes) (msg : HttpMessage) : Prop :=
  4 ≤ msg.metaData.length →
    (readUint32 msg.metaData 0 = 0 → CipherTranslated P (msg.metaData.drop 4) privateDataKey (toBytes "meta")) ∧
    (readUint32 msg.metaData 0 = 1 → SymmetricCryptor.randomIVBytes ≤ (msg.metaData.drop 4).length ∧
      CipherTranslated P ((msg.metaData.drop 4).drop SymmetricCryptor.randomIVBytes) privateDataKey
        ((msg.metaData.drop 4).take SymmetricCryptor.randomIVBytes))

/-- As far as decrypting gets, the libraries raise nothing that is passed on, and the meta data is not too short. -/
def Translated (P : Platform) (db : Db) (privateDataKey : Bytes) (msg : HttpMessage) : Prop :=
  MessageDecryptor.checkSize msg = .ok () → 4 < msg.keySafe.length →
  ∀ r, (db.keysAsymm.find? (readUint32 msg.keySafe 0)).filter (fun r => r.keyType == .encryption) = some r →
  ∃ privateKey keySafeText, P.loadPrivateKey r.privkey = .ok privateKey ∧
    P.asymmDecrypt (msg.keySafe.drop 4) privateKey = .ok keySafeText ∧
    (∀ message, P.parseJson keySafeText ≠ .error message) ∧
    ∀ keySafe, MessageDecryptor.parseKeySafe P keySafeText = .ok keySafe →
      CipherTranslated P msg.content keySafe.symmKey SymmetricCryptor.contentIV ∧
      ∀ content, MessageDecryptor.decryptContent P msg keySafe = .ok content → MetaTranslated P privateDataKey msg

private theorem ofBotan_raises_iff {α : Type} {p : Exn → Prop} {result : Except BotanError α}
    (hp : ∀ message, ¬ p (.botanException message)) :
    RaisesOnly p (Platform.ofBotan result) ↔ ∃ a, result = .ok a := by
  unfold Platform.ofBotan
  split
  · simp
  · simp [hp]
  · simp [hp]

private theorem symmetricDecrypt_raises_iff {p : Exn → Prop} {ciphertext key iv : Bytes}
    (hp : ∀ message, ¬ p (.botanException message)) (hintegrity : ∀ message, p (.integrityFailure message)) :
    RaisesOnly p (SymmetricCryptor.decrypt P ciphertext key iv) ↔ CipherTranslated P ciphertext key iv := by
  unfold SymmetricCryptor.decrypt CipherTranslated
  by_cases hempty : ciphertext = []
  · simp [hempty]
  · have hne : ciphertext.isEmpty = false := by simpa using hempty
    simp only [hne, ne_eq, hempty, not_false_iff, true_implies, Bool.false_eq_true, if_false]
    split
    · next h => simp [h]
    · next h => simp [h, hintegrity]
    · next message h => simp [h, hp]

private theorem decryptWithIV_raises_iff {p : Exn → Prop} {ivAndCiphertext key : Bytes} {ivLength : Nat}
    (hp : ∀ message, ¬ p (.botanException message)) (hintegrity : ∀ message, p (.integrityFailure message))
    (hassert : ∀ expression, ¬ p (.assertionFailed expression)) :
    RaisesOnly p (SymmetricCryptor.decryptWithIV P ivAndCiphertext key ivLength) ↔
      ivLength ≤ ivAndCiphertext.length ∧
        CipherTranslated P (ivAndCiphertext.drop ivLength) key (ivAndCiphertext.take ivLength) := by
  unfold SymmetricCryptor.decryptWithIV
  by_cases hlen : ivLength ≤ ivAndCiphertext.length
  · rw [decide_eq_true hlen, kulloAssert_true, ok_bind, symmetricDecrypt_raises_iff hp hintegrity]
    simp [hlen]
  · rw [decide_eq_false hlen, kulloAssert_false, error_bind, raisesOnly_error]
    simp [hlen, hassert]

namespace MessageDecryptor

private theorem decryptKeySafe_raises_iff {db : Db} {msg : HttpMessage} :
    RaisesOnly (fun e => isCodecError e = true ∨ e.isConversionException = true) (decryptKeySafe P db msg) ↔
      (4 < msg.keySafe.length →
        ∀ r, (db.keysAsymm.find? (readUint32 msg.keySafe 0)).filter (fun r => r.keyType == .encryption) = some r →
          ∃ privateKey keySafeText, P.loadPrivateKey r.privkey = .ok privateKey ∧
            P.asymmDecrypt (msg.keySafe.drop 4) privateKey = .ok keySafeText) := by
  unfold decryptKeySafe
  by_cases hlen : msg.keySafe.length ≤ 4
  · rw [if_pos hlen, raisesOnly_error]
    exact iff_of_true (.inl rfl) (fun hlong => absurd hlong (not_lt.mpr hlen))
  · rw [if_neg hlen]
    dsimp only
    rw [fwdNested_raises_iff (.inl rfl), raisesOnly_bind_iff]
    simp only [not_le.mp hlen, true_implies]
    unfold getPrivateKey
    cases hrow : (db.keysAsymm.find? (readUint32 msg.keySafe 0)).filter (fun r => r.keyType == .encryption) with
    | none => simp [Exn.isDatabaseIntegrityError]
    | some r =>
      have hbotan : ∀ message, ¬ ((isCodecError (.botanException message) = true ∨
          (Exn.botanException message).isConversionException = true) ∨
            (Exn.botanException message).isDatabaseIntegrityError = true) := by
        intro message
        simp [isCodecError, Exn.isConversionException, Exn.isDatabaseIntegrityError]
      dsimp only
      rw [ofBotan_raises_iff hbotan]
      constructor
      · rintro ⟨⟨privateKey, hload⟩, hdec⟩ r' hr'
        cases hr'
        have hraises := hdec privateKey (by rw [hload]; rfl)
        rw [ofBotan_raises_iff hbotan] at hraises
        obtain ⟨text, htext⟩ := hraises
        exact ⟨privateKey, text, hload, htext⟩
      · intro h
        obtain ⟨privateKey, text, hload, htext⟩ := h r rfl
        refine ⟨⟨privateKey, hload⟩, ?_⟩
        intro k hk
        rw [hload] at hk
        cases hk
        rw [ofBotan_raises_iff hbotan]
        exact ⟨text, htext⟩

private theorem parseKeySafe_raises_iff {keySafeText : Bytes} :
    RaisesOnly (fun e => isCodecError e = true ∨ e.isConversionException = true) (parseKeySafe P keySafeText) ↔
      ∀ message, P.parseJson keySafeText ≠ .error message := by
  constructor
  · intro h message hjson
    have herr : parseKeySafe P keySafeText = .error (.jsonRuntimeError message) := by
      unfold parseKeySafe Platform.readObject
      rw [hjson]
      rfl
    rcases h _ herr with he | he
    · cases he
    · cases he
  · intro h
    refine parseKeySafe_raises_of P ?_ (fun _ => .inl rfl) (fun _ => .inl rfl) (fun _ => .inr)
    unfold Platform.readObject
    split
    · next message hjson => exact absurd hjson (h message)
    · rw [raisesOnly_error]; exact .inr rfl
    · split
      · simp
      · rw [raisesOnly_error]; exact .inr rfl

private theorem decryptContent_raises_iff {msg : HttpMessage} {keySafe : KeySafe} :
    RaisesOnly (fun e => isCodecError e = true ∨ e.isIntegrityFailure = true) (decryptContent P msg keySafe) ↔
      CipherTranslated P msg.content keySafe.symmKey SymmetricCryptor.contentIV := by
  unfold decryptContent
  rw [raisesOnly_bind_iff, symmetricDecrypt_raises_iff]
  · constructor
    · exact fun h => h.1
    · intro h
      refine ⟨h, ?_⟩
      intro content _
      split
      · rw [raisesOnly_error]; exact .inl rfl
      · dsimp only
        split
        · rw [raisesOnly_error]; exact .inl rfl
        · simp
  · simp [isCodecError, Exn.isIntegrityFailure]
  · simp [Exn.isIntegrityFailure]

private theorem decryptMeta_raises_iff {msg : HttpMessage} {privateDataKey : Bytes} :
    RaisesOnly (fun e => isCodecError e = true ∨ e.isIntegrityFailure = true) (decryptMeta P msg privateDataKey) ↔
      MetaTranslated P privateDataKey msg := by
  have hp : ∀ message, ¬ (isCodecError (.botanException message) = true ∨
      (Exn.botanException message).isIntegrityFailure = true) := by simp [isCodecError, Exn.isIntegrityFailure]
  have hintegrity : ∀ message, isCodecError (.integrityFailure message) = true ∨
      (Exn.integrityFailure message).isIntegrityFailure = true := fun _ => .inr rfl
  have hassert : ∀ expression, ¬ (isCodecError (.assertionFailed expression) = true ∨
      (Exn.assertionFailed expression).isIntegrityFailure = true) := by simp [isCodecError, Exn.isIntegrityFailure]
  unfold decryptMeta MetaTranslated
  by_cases hlen : msg.metaData.length < 4
  · rw [if_pos hlen]
    have hshort : ¬ 4 ≤ msg.metaData.length := not_le.mpr hlen
    simp [hshort]
  · rw [if_neg hlen]
    simp only [not_lt.mp hlen, true_implies]
    split
    · next hversion =>
      rw [raisesOnly_bind_iff, symmetricDecrypt_raises_iff hp hintegrity]
      simp [hversion]
    · next hversion =>
      rw [raisesOnly_bind_iff, decryptWithIV_raises_iff hp hintegrity hassert]
      simp [hversion]
    · next version h0 h1 =>
      exact iff_of_true (raisesOnly_ok _) ⟨fun h => absurd h h0, fun h => absurd h h1⟩

private theorem decryptKeySafe_eq_ok {db : Db} {msg : HttpMessage} {keySafeText : Bytes} :
    decryptKeySafe P db msg = .ok keySafeText ↔
      4 < msg.keySafe.length ∧
        ∃ r privateKey,
          (db.keysAsymm.find? (readUint32 msg.keySafe 0)).filter (fun r => r.keyType == .encryption) = some r ∧
          P.loadPrivateKey r.privkey = .ok privateKey ∧
          P.asymmDecrypt (msg.keySafe.drop 4) privateKey = .ok keySafeText := by
  have hbotan : ∀ {α : Type} {result : Except BotanError α} {a : α},
      Platform.ofBotan result = .ok a ↔ result = .ok a := by
    intro α result a
    unfold Platform.ofBotan
    split <;> simp
  unfold decryptKeySafe
  by_cases hlen : msg.keySafe.length ≤ 4
  · simp [hlen]
  · rw [if_neg hlen]
    dsimp only
    rw [fwdNested_eq_ok, bind_eq_ok]
    simp only [not_le.mp hlen, true_and]
    unfold getPrivateKey
    cases (db.keysAsymm.find? (readUint32 msg.keySafe 0)).filter (fun r => r.keyType == .encryption) with
    | none => simp
    | some r => simp [hbotan]

/-- A message is decrypted or refused with an exception of the codec, unless a library raises something that is passed
on or the meta data is too short. -/
theorem decrypt_raises_iff {db : Db} {privateDataKey : Bytes} {msg : HttpMessage} (hdate : msg.dateReceived ≠ none) :
    RaisesOnly (fun e => isCodecError e = true) (decrypt P db privateDataKey msg) ↔
      Translated P db privateDataKey msg := by
  obtain ⟨dateReceived, hdate⟩ := Option.ne_none_iff_exists'.mp hdate
  have hsize : RaisesOnly (fun e => isCodecError e = true) (checkSize msg) := by
    unfold checkSize
    repeat' split
    all_goals simp [isCodecError]
  unfold decrypt
  rw [hdate, raisesOnly_bind_iff]
  dsimp only
  constructor
  · rintro ⟨_, h⟩ hok hlen r hr
    have hall := h () hok
    rw [raisesOnly_bind_iff, fwdNested_raises_iff (p := fun e => isCodecError e = true) rfl, raisesOnly_bind_iff] at hall
    obtain ⟨⟨hsafe, hparse⟩, hrest⟩ := hall
    obtain ⟨privateKey, text, hload, hdec⟩ := decryptKeySafe_raises_iff.mp hsafe hlen r hr
    have htext : decryptKeySafe P db msg = .ok text := decryptKeySafe_eq_ok.mpr ⟨hlen, r, privateKey, hr, hload, hdec⟩
    refine ⟨privateKey, text, hload, hdec, parseKeySafe_raises_iff.mp (hparse text htext), ?_⟩
    intro keySafe hkeySafe
    have hcontents := hrest keySafe (by rw [fwdNested_eq_ok, htext, ok_bind, hkeySafe])
    rw [raisesOnly_bind_iff, fwdNested_raises_iff (p := fun e => isCodecError e = true) rfl, raisesOnly_bind_iff] at hcontents
    obtain ⟨⟨hcontent, hmeta⟩, _⟩ := hcontents
    refine ⟨decryptContent_raises_iff.mp hcontent, ?_⟩
    intro content hok
    have hmetaContent := hmeta content hok
    rw [raisesOnly_bind_iff] at hmetaContent
    exact decryptMeta_raises_iff.mp hmetaContent.1
  · intro h
    refine ⟨hsize, ?_⟩
    intro _ hok
    have hsafe := (decryptKeySafe_raises_iff (P := P)).mpr fun hlen r hr => by
      obtain ⟨privateKey, text, hload, hdec, _⟩ := h hok hlen r hr
      exact ⟨privateKey, text, hload, hdec⟩
    -- what has been decrypted is what the condition is about
    have hopened : ∀ text, decryptKeySafe P db msg = .ok text →
        (∀ message, P.parseJson text ≠ .error message) ∧
        ∀ keySafe, parseKeySafe P text = .ok keySafe →
          CipherTranslated P msg.content keySafe.symmKey SymmetricCryptor.contentIV ∧
          ∀ content, decryptContent P msg keySafe = .ok content → MetaTranslated P privateDataKey msg := by
      intro text htext
      obtain ⟨hlen, r, privateKey, hr, hload, hdec⟩ := decryptKeySafe_eq_ok.mp htext
      obtain ⟨privateKey', text', hload', hdec', hrest⟩ := h hok hlen r hr
      rw [hload] at hload'
      cases hload'
      rw [hdec] at hdec'
      cases hdec'
      exact hrest
    rw [raisesOnly_bind_iff, fwdNested_raises_iff (p := fun e => isCodecError e = true) rfl, raisesOnly_bind_iff]
    refine ⟨⟨hsafe, fun text htext => parseKeySafe_raises_iff.mpr (hopened text htext).1⟩, ?_⟩
    intro keySafe hkeySafe
    rw [fwdNested_eq_ok, bind_eq_ok] at hkeySafe
    obtain ⟨text, htext, hparse⟩ := hkeySafe
    obtain ⟨hcontent, hmeta⟩ := (hopened text htext).2 keySafe hparse
    rw [raisesOnly_bind_iff, fwdNested_raises_iff (p := fun e => isCodecError e = true) rfl, raisesOnly_bind_iff]
    refine ⟨⟨decryptContent_raises_iff.mpr hcontent, ?_⟩, fun _ _ => raisesOnly_ok _⟩
    intro content hok
    rw [raisesOnly_bind_iff]
    exact ⟨decryptMeta_raises_iff.mpr (hmeta content hok), fun _ _ => raisesOnly_ok _⟩

end MessageDecryptor

end errors

/-! ### The buffers -/

section buffers

variable (P : Platform)

namespace MessageDecryptor

/-- What an access outside of its buffer would be. -/
def outOfBounds : Exn := .logicError "out of bounds"

def readUint32Checked (data : Bytes) (offset : Nat) : Except Exn Nat :=
  if offset + 4 ≤ data.length then .ok (readUint32 data offset) else .error outOfBounds

/-- What lies between two iterators. -/
def range (data : Bytes) (first last : Nat) : Except Exn Bytes :=
  if first ≤ last ∧ last ≤ data.length then .ok ((data.drop first).take (last - first)) else .error outOfBounds

def decryptKeySafeChecked (db : Db) (msg : HttpMessage) : Except Exn Bytes :=
  if msg.keySafe.length ≤ 4 then .error (failed msg "keySafe too short")
  else do
    let encKeyId ← readUint32Checked msg.keySafe 0
    let encryptedKeySafe ← range msg.keySafe 4 msg.keySafe.length
    let result : Except Exn Bytes := do
      let privkey ← getPrivateKey P db .encryption encKeyId
      Platform.ofBotan (P.asymmDecrypt encryptedKeySafe privkey)
    fwdNested result Exn.isDatabaseIntegrityError .decryptionKeyMissing

def decryptWithIVChecked (ivAndCiphertext key : Bytes) (ivLength : Nat) : Except Exn Bytes := do
  kulloAssert (ivLength ≤ ivAndCiphertext.length) "ivAndCiphertext.size() >= ivLength"
  let iv ← range ivAndCiphertext 0 ivLength
  let ciphertext ← range ivAndCiphertext ivLength ivAndCiphertext.length
  SymmetricCryptor.decrypt P ciphertext key iv

def decryptContentChecked (msg : HttpMessage) (keySafe : KeySafe) : Except Exn DecryptedContent := do
  let content ← SymmetricCryptor.decrypt P msg.content keySafe.symmKey SymmetricCryptor.contentIV
  if content.length < 8 then .error (failed msg "decrypted data too short")
  else do
    let sigKeyId ← readUint32Checked content 0
    let sigLen ← readUint32Checked content 4
    if content.length - 8 < sigLen then .error (failed msg "decrypted data too short [2]")
    else do
      let signature ← range content 8 (8 + sigLen)
      let data ← range content (8 + sigLen) content.length
      .ok ⟨sigKeyId, signature, data⟩

def decryptMetaChecked (msg : HttpMessage) (privateDataKey : Bytes) : Except Exn (MetaVersion × Bytes) :=
  if msg.metaData.length < 4 then .ok (latestMetaVersion, [])
  else do
    let ciphertext ← range msg.metaData 4 msg.metaData.length
    let version ← readUint32Checked msg.metaData 0
    match version with
    | 0 => do .ok (0, ← SymmetricCryptor.decrypt P ciphertext privateDataKey (toBytes "meta"))
    | 1 => do .ok (1, ← decryptWithIVChecked P ciphertext privateDataKey SymmetricCryptor.randomIVBytes)
    | version => .ok (version, [])

/-- `decrypt` with every access checked. -/
def decryptChecked (db : Db) (privateDataKey : Bytes) (msg : HttpMessage) : Except Exn DecryptedMessage := do
  checkSize msg
  match msg.dateReceived with
  | none => .error (.assertionFailed "message_.dateReceived.is_initialized()")
  | some dateReceived => do
    let keySafe ← fwdNested (do parseKeySafe P (← decryptKeySafeChecked P db msg)) Exn.isConversionException
      (.invalidContentFormat "MessageDecryptor::decrypt()")
    let (content, metaVersion, metaText) ← fwdNested
      (do
        let content ← decryptContentChecked P msg keySafe
        let (metaVersion, metaText) ← decryptMetaChecked P msg privateDataKey
        .ok (content, metaVersion, metaText))
      Exn.isIntegrityFailure (.invalidContentFormat "MessageDecryptor::decrypt()")
    .ok ⟨msg.id, msg.lastModified, dateReceived, keySafe, content, metaVersion, metaText⟩

private theorem readUint32Checked_of_le {data : Bytes} {offset : Nat} (h : offset + 4 ≤ data.length) :
    readUint32Checked data offset = .ok (readUint32 data offset) := if_pos h

/-- The range up to the end. -/
theorem range_to_end {data : Bytes} {first : Nat} (h : first ≤ data.length) :
    range data first data.length = .ok (data.drop first) := by
  unfold range
  rw [if_pos ⟨h, le_refl _⟩, List.take_of_length_le (by rw [List.length_drop])]

private theorem range_of_le {data : Bytes} {first last : Nat} (h : first ≤ last) (h' : last ≤ data.length) :
    range data first last = .ok ((data.drop first).take (last - first)) := if_pos ⟨h, h'⟩

private theorem decryptKeySafeChecked_eq (db : Db) (msg : HttpMessage) :
    decryptKeySafeChecked P db msg = decryptKeySafe P db msg := by
  unfold decryptKeySafeChecked decryptKeySafe
  by_cases hlen : msg.keySafe.length ≤ 4
  · rw [if_pos hlen, if_pos hlen]
  · rw [if_neg hlen, if_neg hlen, readUint32Checked_of_le (by omega), ok_bind, range_to_end (by omega), ok_bind]

private theorem decryptWithIVChecked_eq (ivAndCiphertext key : Bytes) (ivLength : Nat) :
    decryptWithIVChecked P ivAndCiphertext key ivLength =
      SymmetricCryptor.decryptWithIV P ivAndCiphertext key ivLength := by
  unfold decryptWithIVChecked SymmetricCryptor.decryptWithIV
  by_cases hlen : ivLength ≤ ivAndCiphertext.length
  · rw [decide_eq_true hlen, kulloAssert_true, ok_bind, ok_bind, range_of_le (Nat.zero_le _) hlen, ok_bind,
      range_to_end hlen, ok_bind]
    rfl
  · rw [decide_eq_false hlen, kulloAssert_false, error_bind, error_bind]

private theorem decryptContentChecked_eq (msg : HttpMessage) (keySafe : KeySafe) :
    decryptContentChecked P msg keySafe = decryptContent P msg keySafe := by
  unfold decryptContentChecked decryptContent
  congr 1
  funext content
  by_cases hshort : content.length < 8
  · rw [if_pos hshort, if_pos hshort]
  · rw [if_neg hshort, if_neg hshort, readUint32Checked_of_le (by omega), ok_bind, readUint32Checked_of_le (by omega),
      ok_bind]
    dsimp only
    by_cases hsig : content.length - 8 < readUint32 content 4
    · rw [if_pos hsig, if_pos hsig]
    · rw [if_neg hsig, if_neg hsig, range_of_le (by omega) (by omega), ok_bind, range_to_end (by omega), ok_bind,
        Nat.add_sub_cancel_left]

private theorem decryptMetaChecked_eq (msg : HttpMessage) (privateDataKey : Bytes) :
    decryptMetaChecked P msg privateDataKey = decryptMeta P msg privateDataKey := by
  unfold decryptMetaChecked decryptMeta
  by_cases hshort : msg.metaData.length < 4
  · rw [if_pos hshort, if_pos hshort]
  · rw [if_neg hshort, if_neg hshort, range_to_end (by omega), ok_bind, readUint32Checked_of_le (by omega), ok_bind]
    rcases readUint32 msg.metaData 0 with _ | _ | version <;> simp only [decryptWithIVChecked_eq]

/-- No access leaves its buffer. -/
theorem decryptChecked_eq (db : Db) (privateDataKey : Bytes) (msg : HttpMessage) :
    decryptChecked P db privateDataKey msg = decrypt P db privateDataKey msg := by
  unfold decryptChecked decrypt
  cases msg.dateReceived <;> simp only [decryptKeySafeChecked_eq, decryptContentChecked_eq, decryptMetaChecked_eq]

variable {P}

/-- What is returned of the content lies behind the first eight bytes of the decrypted buffer. -/
theorem decryptContent_inside {msg : HttpMessage} {keySafe : KeySafe} {content : DecryptedContent}
    (h : decryptContent P msg keySafe = .ok content) :
    ∃ buffer, SymmetricCryptor.decrypt P msg.content keySafe.symmKey SymmetricCryptor.contentIV = .ok buffer ∧
      8 ≤ buffer.length ∧ buffer.drop 8 = content.signature ++ content.data ∧
      content.sigKeyId = readUint32 buffer 0 ∧ content.signature.length = readUint32 buffer 4 := by
  unfold decryptContent at h
  obtain ⟨buffer, hbuffer, h⟩ := bind_eq_ok.mp h
  refine ⟨buffer, hbuffer, ?_⟩
  split at h
  · cases h
  next hshort =>
    dsimp only at h
    split at h
    · cases h
    next hsig =>
      cases h
      refine ⟨not_lt.mp hshort, ?_, rfl, ?_⟩
      · dsimp only
        rw [← List.drop_drop, List.take_append_drop]
      · dsimp only
        rw [List.length_take, List.length_drop]
        omega

private theorem decrypt_inside {db : Db} {privateDataKey : Bytes} {msg : HttpMessage} {m : DecryptedMessage}
    (h : decrypt P db privateDataKey msg = .ok m) :
    ∃ keySafeText buffer, decryptKeySafe P db msg = .ok keySafeText ∧ parseKeySafe P keySafeText = .ok m.keySafe ∧
      SymmetricCryptor.decrypt P msg.content m.keySafe.symmKey SymmetricCryptor.contentIV = .ok buffer ∧
      8 ≤ buffer.length ∧ buffer.drop 8 = m.content.signature ++ m.content.data ∧
      m.content.sigKeyId = readUint32 buffer 0 ∧ m.content.signature.length = readUint32 buffer 4 ∧
      decryptMeta P msg privateDataKey = .ok (m.metaVersion, m.metaText) := by
  unfold decrypt at h
  obtain ⟨_, _, h⟩ := bind_eq_ok.mp h
  cases hdate : msg.dateReceived with
  | none => rw [hdate] at h; cases h
  | some dateReceived =>
    rw [hdate] at h
    dsimp only at h
    obtain ⟨keySafe, hsafe, h⟩ := bind_eq_ok.mp h
    rw [fwdNested_eq_ok] at hsafe
    obtain ⟨text, htext, hparse⟩ := bind_eq_ok.mp hsafe
    obtain ⟨⟨content, version, metaText⟩, hcontents, h⟩ := bind_eq_ok.mp h
    rw [fwdNested_eq_ok] at hcontents
    obtain ⟨content', hcontent, hcontents⟩ := bind_eq_ok.mp hcontents
    obtain ⟨⟨version', metaText'⟩, hmeta, hcontents⟩ := bind_eq_ok.mp hcontents
    cases hcontents
    cases h
    obtain ⟨buffer, hbuffer, hinside⟩ := decryptContent_inside hcontent
    exact ⟨text, buffer, htext, hparse, hbuffer, hinside.1, hinside.2.1, hinside.2.2.1, hinside.2.2.2, hmeta⟩

end MessageDecryptor

end buffers

/-! ### A platform on which messages can be opened -/

/-- A platform on which a key safe is the text of its key, and a signature is two bytes. -/
def Platform.framing : Platform :=
  { Platform.tagging with
    sign := fun _ _ => [9, 9]
    writeJson := fun json =>
      match json with
      | .object [_, _, _, (_, .string symmKey)] => symmKey.toList.map fun c => UInt8.ofNat c.toNat
      | _ => []
    parseJson := fun text =>
      .ok (.ok (MessageEncryptor.keySafeJson Platform.tagging text)) }

def framingKey : AsymmetricKeyPairRow := ⟨1, .encryption, []⟩

/-- A database with one private key. -/
def framingDb : Db where
  keysAsymm := ⟨[framingKey], by simp⟩

def framingRandom : MessageEncryptor.Randomness := ⟨List.replicate 32 7, []⟩

private theorem framing_writeJson : Platform.framing.writeJson
    (MessageEncryptor.keySafeJson Platform.framing framingRandom.symmKey) = framingRandom.symmKey :=
  Except.ok.inj (Platform.tagging_base64 framingRandom.symmKey)

private theorem framing_opens : KeySafeOpens Platform.framing framingDb framingRandom 1 ([] : Bytes) := by
  constructor
  · rw [framing_writeJson]
    rfl
  · exact Platform.tagging_base64 _
  · intro h
    have hlen := congrArg String.length h
    simp [Platform.framing, Platform.tagging, framingRandom] at hlen
  · rfl
  · exact ⟨[], rfl, rfl⟩
  · rw [framing_writeJson]
    simp [Platform.framing, Platform.tagging, Platform.transparent, framingRandom]

/-- 2020-01-01T00:00:00Z. -/
def framingDate : DateTime := ⟨some 212444640000, 0⟩

/-- The message with the meta data that the server gives. -/
def framedMessage (metaData : Bytes) : HttpMessage where
  id := 5
  lastModified := 1
  dateReceived := some framingDate
  keySafe := MessageEncryptor.makeKeySafe Platform.framing framingRandom 1 ([] : Bytes)
  content := MessageEncryptor.encryptContent Platform.framing framingRandom.symmKey [65] 1 ([] : Bytes)
  metaData := metaData

private theorem framing_gcm (key iv : Bytes) : GcmRoundTrips Platform.framing key iv :=
  ⟨(Platform.tagging_gcm key iv).decrypt_encrypt, (Platform.tagging_gcm key iv).length_encrypt⟩

private theorem framedMessage_keySafe_le (metaData : Bytes) :
    (framedMessage metaData).keySafe.length ≤ messageKeySafeMaxBytes := by
  have hsafe : (framedMessage metaData).keySafe = writeUint32 1 ++ framingRandom.symmKey := by
    rw [← framing_writeJson]
    rfl
  rw [hsafe]
  decide

private theorem framedMessage_content_le (metaData : Bytes) :
    (framedMessage metaData).content.length ≤ messageContentMaxBytes := by
  have hcontent := encryptContent_eq_framed (P := Platform.framing) framingRandom.symmKey [65] 1 ([] : Bytes)
  change (MessageEncryptor.encryptContent Platform.framing framingRandom.symmKey [65] 1 ([] : Bytes)).length ≤ _
  have hlen := length_framed 1 (Platform.framing.sign [65] ([] : Bytes)) [65]
  have hne : framed 1 (Platform.framing.sign [65] ([] : Bytes)) [65] ≠ [] := by
    rw [← List.length_pos_iff, hlen]
    omega
  rw [hcontent, SymmetricCryptor.length_encrypt (framing_gcm _ _), if_neg hne, hlen]
  exact Nat.le_of_ble_eq_true rfl

/-! ### Framing -/

/-- A message made by the encryptor is decrypted to what went into it.  Any other one is decrypted to what lies inside
the decrypted buffers or refused with an exception of the codec, precisely when `Translated` holds; no access leaves
its buffer. -/
theorem MessageDecryptor.decrypt_framing (P : Platform) (db : Db) (privateDataKey : Bytes) :
    (∀ (random : MessageEncryptor.Randomness) (encKeyId sigKeyId : IdType) (encKey : P.PublicKey)
        (sigKeyPair : P.PrivateKey) (data iv metaText : Bytes) (msg : HttpMessage) (dateReceived : DateTime),
      KeySafeOpens P db random encKeyId encKey → GcmRoundTrips P random.symmKey SymmetricCryptor.contentIV →
      GcmRoundTrips P privateDataKey iv → iv.length = SymmetricCryptor.randomIVBytes →
      encKeyId < 2 ^ 32 → sigKeyId < 2 ^ 32 → msg.dateReceived = some dateReceived →
      msg.keySafe = MessageEncryptor.makeKeySafe P random encKeyId encKey →
      msg.content = MessageEncryptor.encryptContent P random.symmKey data sigKeyId sigKeyPair →
      MessageEncryptor.encryptMeta P iv metaText privateDataKey = .ok msg.metaData →
      msg.keySafe.length ≤ messageKeySafeMaxBytes → msg.content.length ≤ messageContentMaxBytes →
      decrypt P db privateDataKey msg = .ok ⟨msg.id, msg.lastModified, dateReceived, ⟨random.symmKey⟩,
        ⟨sigKeyId, P.sign data sigKeyPair, data⟩, 1, metaText⟩) ∧
    (∀ msg : HttpMessage, msg.dateReceived ≠ none →
      (RaisesOnly (fun e => isCodecError e = true) (decrypt P db privateDataKey msg) ↔
        Translated P db privateDataKey msg)) ∧
    (∀ (msg : HttpMessage) (m : DecryptedMessage), decrypt P db privateDataKey msg = .ok m →
      ∃ keySafeText buffer, decryptKeySafe P db msg = .ok keySafeText ∧ parseKeySafe P keySafeText = .ok m.keySafe ∧
        SymmetricCryptor.decrypt P msg.content m.keySafe.symmKey SymmetricCryptor.contentIV = .ok buffer ∧
        8 ≤ buffer.length ∧ buffer.drop 8 = m.content.signature ++ m.content.data ∧
        m.content.sigKeyId = readUint32 buffer 0 ∧ m.content.signature.length = readUint32 buffer 4 ∧
        decryptMeta P msg privateDataKey = .ok (m.metaVersion, m.metaText)) ∧
    ∀ msg : HttpMessage, decryptChecked P db privateDataKey msg = decrypt P db privateDataKey msg := by
  refine ⟨?_, ?_, ?_, ?_⟩
  · intro random encKeyId sigKeyId encKey sigKeyPair data iv metaText msg dateReceived hopens hgcmContent hgcmMeta hiv
      hencKeyId hsigKeyId hdate hkeySafe hcontent hmeta hkeySafeFits hcontentFits
    exact decrypt_encrypted hopens hgcmContent hgcmMeta hiv hencKeyId hsigKeyId hdate hkeySafe hcontent hmeta
      hkeySafeFits hcontentFits
  · intro msg hdate
    exact decrypt_raises_iff hdate
  · intro msg m h
    exact decrypt_inside h
  · intro msg
    exact decryptChecked_eq P db privateDataKey msg

/-- A message of one byte with its signature and an empty JSON object for its meta text. -/
theorem MessageDecryptor.decrypt_framing_signed :
    decrypt Platform.framing framingDb []
        (framedMessage (writeUint32 1 ++ List.replicate 16 0 ++ [123, 125] ++ List.replicate 16 0)) =
      .ok ⟨5, 1, framingDate, ⟨List.replicate 32 7⟩, ⟨1, [9, 9], [65]⟩, 1, [123, 125]⟩ :=
  (decrypt_framing Platform.framing framingDb []).1 framingRandom 1 1 ([] : Bytes) ([] : Bytes) [65]
    (List.replicate 16 0) [123, 125] (framedMessage _) framingDate
    framing_opens (framing_gcm _ _) (framing_gcm _ _) rfl (by decide) (by decide) rfl rfl rfl rfl
    (framedMessage_keySafe_le _) (framedMessage_content_le _)

/-- Meta data that ends behind its version fails an assertion. -/
theorem MessageDecryptor.decrypt_shortMeta :
    ¬ ∀ msg : HttpMessage, msg.dateReceived ≠ none →
      RaisesOnly (fun e => isCodecError e = true) (decrypt Platform.framing framingDb [] msg) := by
  intro h
  have hsize : checkSize (framedMessage [0, 0, 0, 1]) = .ok () :=
    checkSize_of_le (framedMessage_keySafe_le _) (framedMessage_content_le _) (by decide)
  have hsafe := decryptKeySafe_makeKeySafe framing_opens (by decide) (framedMessage [0, 0, 0, 1]) rfl
  have hparse := parseKeySafe_keySafeJson framing_opens
  have hcontent : decryptContent Platform.framing (framedMessage [0, 0, 0, 1]) ⟨framingRandom.symmKey⟩ = .ok _ :=
    decryptContent_encryptContent (framing_gcm _ _) (by decide) rfl (framedMessage_content_le _)
  have hmeta : decryptMeta Platform.framing (framedMessage [0, 0, 0, 1]) [] =
      .error (.assertionFailed "ivAndCiphertext.size() >= ivLength") := rfl
  have herr : decrypt Platform.framing framingDb [] (framedMessage [0, 0, 0, 1]) =
      .error (.assertionFailed "ivAndCiphertext.size() >= ivLength") := by
    unfold decrypt
    rw [hsize, ok_bind, show (framedMessage [0, 0, 0, 1]).dateReceived = some framingDate from rfl]
    dsimp only
    rw [hsafe, ok_bind, hparse, fwdNested_eq_ok.mpr rfl, ok_bind, hcontent, ok_bind, hmeta]
    rfl
  have hcodec := h (framedMessage [0, 0, 0, 1]) (by simp [framedMessage]) _ herr
  cases hcodec

end KulloClient
