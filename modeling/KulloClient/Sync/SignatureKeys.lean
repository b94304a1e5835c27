import KulloClient.Base.Runs
import KulloClient.Codec.MessageRoundTrip
import KulloClient.Sync.DownloadSkips

/-!
# Fetching signature keys

`tryDecode` downloads the signature key of a message when it is not stored, stores what the server returned, and tries
again.  One download is enough if and only if the server returns the key that was asked for; the type of the key is not
looked at.
-/

namespace KulloClient

open Imperative
open Relational (Table)

namespace MessageDecoder

variable {P : Platform} {userAddress : KulloAddress} {msg : DecryptedMessage}

/-! ### What decoding reads of the stored keys -/

private theorem parseAttachments_keysPublic (db : Db) (keys : Table PublicKeyRow.key) (messageId : IdType) (vals : List Json)
    (index : IdType) :
    parseAttachments { db with keysPublic := keys } messageId vals index = parseAttachments db messageId vals index := by
  induction vals generalizing index with
  | nil => rfl
  | cons val vals ih =>
    unfold parseAttachments
    rw [ih]
    rfl

private theorem parseContent_keysPublic (db : Db) (keys : Table PublicKeyRow.key) (messageId : IdType)
    (content : DecryptedContent) :
    parseContent P { db with keysPublic := keys } userAddress messageId content =
      parseContent P db userAddress messageId content := by
  unfold parseContent
  simp only [parseAttachments_keysPublic]
  rfl

private theorem parseContent_ne_missing (db : Db) (messageId : IdType) (content : DecryptedContent) :
    parseContent P db userAddress messageId content ≠ .error .signatureVerificationKeyMissing := by
  intro h
  have hfailure := parseContent_raises P db userAddress messageId content _ h
  cases hfailure

/-- What remains to be done with the content parsed. -/
def finishDecoding (P : Platform) (db : Db) (userAddress : KulloAddress) (msg : DecryptedMessage)
    (dateReceived : String) (parsed : ParsedContent) : Except Exn Decoder := do
  verifyContent P db parsed.sender.address msg.content
  let (metaVersion, read, done) ← parseMeta P userAddress parsed.sender.address msg.metaVersion msg.metaText
  .ok
    { message := { row := messageRow msg dateReceived parsed metaVersion read done }
      sender := parsed.sender
      avatar := parsed.avatar
      participantAddresses := parsed.participantAddresses
      attachments := parsed.attachments }

private theorem decode_eq (db : Db) :
    decode P db userAddress msg =
      P.printDateTime msg.dateReceived >>= fun dateReceived =>
        converting "MessageDecoder::decode()"
          (parseContent P db userAddress msg.id msg.content >>=
            finishDecoding P db userAddress msg dateReceived) := rfl

private theorem converting_eq_missing {α : Type} {message : String} {x : Except Exn α} :
    converting message x = .error .signatureVerificationKeyMissing ↔ x = .error .signatureVerificationKeyMissing := by
  unfold converting fwdNested
  cases x with
  | ok a => simp
  | error e =>
    by_cases hc : e.isConversionException = true
    · cases e <;> simp_all [Exn.isConversionException]
    · simp [hc]

/-- With the key nothing raises that it is missing. -/
theorem finishDecoding_raises {db : Db} {dateReceived : String} {parsed : ParsedContent} {row : PublicKeyRow}
    (hload : PublicKeyDao.load db parsed.sender.address .signature msg.content.sigKeyId = some row) :
    RaisesOnly (fun e => e ≠ .signatureVerificationKeyMissing) (finishDecoding P db userAddress msg dateReceived parsed) := by
  have hbotan : ∀ {α : Type} (x : Except BotanError α),
      RaisesOnly (fun e => e ≠ .signatureVerificationKeyMissing) (Platform.ofBotan x) := fun x =>
    (Platform.ofBotan_raises x).mono fun e he => by rintro rfl; cases he
  refine raisesOnly_bind ?_ (fun _ _ => raisesOnly_bind ?_ (fun _ _ => raisesOnly_ok _))
  · unfold verifyContent
    rw [hload]
    refine raisesOnly_bind (hbotan _) (fun sigKey _ => raisesOnly_bind (hbotan _) (fun verified _ => ?_))
    split <;> simp
  · exact (parseMeta_raises P _ _ _ _).mono fun e he => by rintro rfl; cases he

/-- The key is missing if the content is parsed and the sender's key is not stored. -/
theorem decode_eq_missing_iff (db : Db) :
    decode P db userAddress msg = .error .signatureVerificationKeyMissing ↔
      ∃ address, senderAddress P db userAddress msg = some address ∧
        PublicKeyDao.load db address .signature msg.content.sigKeyId = none := by
  unfold senderAddress
  rw [decode_eq]
  cases hdate : P.printDateTime msg.dateReceived with
  | error e =>
    rw [error_bind]
    constructor
    · intro h
      cases h
      obtain ⟨message, he⟩ := P.printDateTime_raises _ _ hdate
      cases he
    · rintro ⟨address, haddress, -⟩
      cases haddress
  | ok dateReceived =>
  rw [ok_bind, converting_eq_missing]
  cases hparse : parseContent P db userAddress msg.id msg.content with
  | error e =>
    rw [error_bind]
    constructor
    · intro h
      cases h
      exact absurd hparse (parseContent_ne_missing db msg.id msg.content)
    · rintro ⟨address, haddress, -⟩
      cases haddress
  | ok parsed =>
    rw [ok_bind]
    cases hload : PublicKeyDao.load db parsed.sender.address .signature msg.content.sigKeyId with
    | none =>
      have hmissing : finishDecoding P db userAddress msg dateReceived parsed = .error .signatureVerificationKeyMissing := by
        unfold finishDecoding verifyContent
        rw [hload]
        rfl
      exact ⟨fun _ => ⟨_, rfl, hload⟩, fun _ => hmissing⟩
    | some row =>
      constructor
      · exact fun h => absurd rfl (finishDecoding_raises hload _ h)
      · rintro ⟨address, haddress, hnone⟩
        cases haddress
        rw [hload] at hnone
        cases hnone

/-- A message is decoded only if its signature verifies under the stored key. -/
theorem verified_of_decode {db : Db} {decoder : Decoder} (h : decode P db userAddress msg = .ok decoder) :
    ∃ row key, PublicKeyDao.load db decoder.sender.address .signature msg.content.sigKeyId = some row ∧
      P.loadPublicKey row.keyData = .ok key ∧ P.verify msg.content.data msg.content.signature key = .ok true := by
  obtain ⟨_, parsed, flags, -, -, hverify, -, rfl⟩ := decode_eq_ok.mp h
  unfold verifyContent at hverify
  cases hload : PublicKeyDao.load db parsed.sender.address .signature msg.content.sigKeyId with
  | none =>
    rw [hload] at hverify
    cases hverify
  | some row =>
    rw [hload] at hverify
    obtain ⟨key, hkey, hrest⟩ := bind_eq_ok.mp hverify
    obtain ⟨verified, hverified, hthen⟩ := bind_eq_ok.mp hrest
    refine ⟨row, key, rfl, ?_, ?_⟩
    · exact Platform.ofBotan_eq_ok.mp hkey
    · cases verified with
      | true => exact Platform.ofBotan_eq_ok.mp hverified
      | false => cases hthen

end MessageDecoder

namespace MessagesSyncer

variable (P : Platform) (account : Account)

/-- A call of `downloadPublicKey`. -/
structure KeyDownload where
  address : KulloAddress
  id : IdType
  answer : Except Exn PublicKeyAnswer

/-- The calls of `downloadPublicKey` in `tryDecode`; the one there is no answer for is the last. -/
def keyDownloads (decryptedMessage : DecryptedMessage) : List (Except Exn PublicKeyAnswer) → Db → List KeyDownload
  | answers, db =>
    match MessageDecoder.decode P db account.userAddress decryptedMessage,
      MessageDecoder.senderAddress P db account.userAddress decryptedMessage with
    | .error .signatureVerificationKeyMissing, some address =>
      match answers with
      | [] => [⟨address, decryptedMessage.content.sigKeyId, .error .networkError⟩]
      | answer :: answers =>
        ⟨address, decryptedMessage.content.sigKeyId, answer⟩ ::
          match answer with
          | .ok keyPair =>
            match storePublicKey address keyPair db with
            | .ok db' => keyDownloads decryptedMessage answers db'
            | .error _ => []
          | .error _ => []
    | _, _ => []

/-- A key, or `NotFound`. -/
def answerOf : Option PublicKeyAnswer → Except Exn PublicKeyAnswer
  | some keyPair => .ok keyPair
  | none => .error .notFound

def firstAnswers (answers : Nat → Option PublicKeyAnswer) (n : Nat) : List (Except Exn PublicKeyAnswer) :=
  (List.range n).map fun i => answerOf (answers i)

/-- However many answers the key server gives, at most one key is downloaded, and then the message is decoded or
skipped. -/
structure FetchedOnce (decryptedMessage : DecryptedMessage) (answers : Nat → Option PublicKeyAnswer) (s : State) :
    Prop where
  once : ∀ n, (keyDownloads P account decryptedMessage (firstAnswers answers n) s.db).length ≤ 1
  returns : ∀ n, 0 < n → ∃ decoder s', tryDecode P account decryptedMessage (firstAnswers answers n) s = .ok decoder s'

/-- The database after a key is stored. -/
def withKey (address : KulloAddress) (keyPair : PublicKeyAnswer) (db : Db) : Db :=
  { db with keysPublic := db.keysPublic.insertOrIgnore ⟨address.toString, .signature, keyPair.id, keyPair.pubkey⟩ }

/-- The sender of the message, if the key the message names is not stored for him. -/
def KeyMissing (decryptedMessage : DecryptedMessage) (db : Db) (address : KulloAddress) : Prop :=
  MessageDecoder.senderAddress P db account.userAddress decryptedMessage = some address ∧
    PublicKeyDao.load db address .signature decryptedMessage.content.sigKeyId = none

/-- If the key is missing, the first answer has the id that was asked for; and neither with the stored keys nor with the
answer does decoding raise an exception that `tryDecode` does not expect. -/
structure AnsweredAsAsked (decryptedMessage : DecryptedMessage) (answers : Nat → Option PublicKeyAnswer) (db : Db) :
    Prop where
  asked : ∀ address keyPair, KeyMissing P account decryptedMessage db address → answers 0 = some keyPair →
    keyPair.id = decryptedMessage.content.sigKeyId
  read : ∀ e, MessageDecoder.decode P db account.userAddress decryptedMessage = .error e →
    e = .signatureVerificationKeyMissing ∨ isSkipped e = true
  readWith : ∀ address keyPair, KeyMissing P account decryptedMessage db address → answers 0 = some keyPair →
    ∀ e, MessageDecoder.decode P (withKey address keyPair db) account.userAddress decryptedMessage = .error e →
      isSkipped e = true

variable {P account} {decryptedMessage : DecryptedMessage} {s : State}

/-! ### The attempts of `tryDecode` -/

private theorem storePublicKey_eq_ok (address : KulloAddress) (keyPair : PublicKeyAnswer) (db : Db) :
    storePublicKey address keyPair db = .ok (withKey address keyPair db) := by
  unfold storePublicKey withKey
  cases hload : PublicKeyDao.load db address .signature keyPair.id with
  | some row =>
    have hsame : db.keysPublic.insertOrIgnore ⟨address.toString, .signature, keyPair.id, keyPair.pubkey⟩ =
        db.keysPublic := Table.insertOrIgnore_of_find? hload
    rw [hsame]
  | none =>
    have hfree : db.keysPublic.find? (PublicKeyRow.key ⟨address.toString, .signature, keyPair.id, keyPair.pubkey⟩) = none :=
      hload
    dsimp only
    rw [insertRow_of_find? hfree, ok_bind, Table.insertOrIgnore_of_free hfree]

private theorem load_withKey {address : KulloAddress} {keyPair : PublicKeyAnswer} {db : Db} {id : IdType}
    (hmissing : PublicKeyDao.load db address .signature id = none) :
    PublicKeyDao.load (withKey address keyPair db) address .signature id = none ↔ keyPair.id ≠ id := by
  unfold PublicKeyDao.load withKey at *
  dsimp only
  rw [Table.find?_insertOrIgnore]
  by_cases hid : keyPair.id = id
  · simp [PublicKeyRow.key, hid]
  · simp [PublicKeyRow.key, hid, hmissing]

private theorem senderAddress_withKey (address : KulloAddress) (keyPair : PublicKeyAnswer) (db : Db) :
    MessageDecoder.senderAddress P (withKey address keyPair db) account.userAddress decryptedMessage =
      MessageDecoder.senderAddress P db account.userAddress decryptedMessage := by
  unfold MessageDecoder.senderAddress withKey
  rw [MessageDecoder.parseContent_keysPublic]

/-- After one key was stored, the key is still missing if and only if it was another one. -/
theorem keyMissing_withKey {db : Db} {address : KulloAddress} (keyPair : PublicKeyAnswer)
    (h : KeyMissing P account decryptedMessage db address) :
    KeyMissing P account decryptedMessage (withKey address keyPair db) address ↔
      keyPair.id ≠ decryptedMessage.content.sigKeyId := by
  unfold KeyMissing
  rw [senderAddress_withKey, load_withKey h.2]
  exact ⟨fun h => h.2, fun hne => ⟨h.1, hne⟩⟩

theorem KeyMissing.decode {db : Db} {address : KulloAddress} (h : KeyMissing P account decryptedMessage db address) :
    MessageDecoder.decode P db account.userAddress decryptedMessage = .error .signatureVerificationKeyMissing :=
  (MessageDecoder.decode_eq_missing_iff db).mpr ⟨address, h⟩

private theorem keyDownloads_of_missing_nil {db : Db} {address : KulloAddress}
    (h : KeyMissing P account decryptedMessage db address) :
    keyDownloads P account decryptedMessage [] db =
      [⟨address, decryptedMessage.content.sigKeyId, .error .networkError⟩] := by
  unfold keyDownloads
  rw [h.decode, h.1]

private theorem keyDownloads_of_missing {db : Db} {address : KulloAddress} (keyPair : PublicKeyAnswer)
    (answers : List (Except Exn PublicKeyAnswer)) (h : KeyMissing P account decryptedMessage db address) :
    keyDownloads P account decryptedMessage (.ok keyPair :: answers) db =
      ⟨address, decryptedMessage.content.sigKeyId, .ok keyPair⟩ ::
        keyDownloads P account decryptedMessage answers (withKey address keyPair db) := by
  rw [keyDownloads, h.decode, h.1]
  dsimp only
  rw [storePublicKey_eq_ok]

private theorem keyDownloads_of_refused {db : Db} {address : KulloAddress} (e : Exn) (answers : List (Except Exn PublicKeyAnswer))
    (h : KeyMissing P account decryptedMessage db address) :
    keyDownloads P account decryptedMessage (.error e :: answers) db =
      [⟨address, decryptedMessage.content.sigKeyId, .error e⟩] := by
  rw [keyDownloads, h.decode, h.1]

private theorem keyDownloads_of_decode {db : Db} (answers : List (Except Exn PublicKeyAnswer))
    (h : MessageDecoder.decode P db account.userAddress decryptedMessage ≠ .error .signatureVerificationKeyMissing) :
    keyDownloads P account decryptedMessage answers db = [] := by
  unfold keyDownloads
  split
  · next hdecode _ => exact absurd hdecode h
  · rfl

theorem tryDecode_of_ok {decoder : Decoder} (answers : List (Except Exn PublicKeyAnswer))
    (h : MessageDecoder.decode P s.db account.userAddress decryptedMessage = .ok decoder) :
    tryDecode P account decryptedMessage answers s = .ok (some decoder) s := by
  cases answers with
  | nil =>
    unfold tryDecode
    rw [bind_of_ok get_apply, h]
    rfl
  | cons answer answers =>
    unfold tryDecode
    rw [bind_of_ok get_apply, h]
    rfl

theorem tryDecode_of_error {e : Exn} (answers : List (Except Exn PublicKeyAnswer))
    (h : MessageDecoder.decode P s.db account.userAddress decryptedMessage = .error e)
    (he : e ≠ .signatureVerificationKeyMissing) :
    tryDecode P account decryptedMessage answers s = if isSkipped e then .ok none s else .error e s := by
  have hdecoding : decoding P account decryptedMessage answers s.db = (s.db, .error e) := by
    cases answers with
    | nil =>
      unfold decoding
      rw [h]
    | cons answer answers =>
      unfold decoding
      rw [h]
      cases e <;> first | rfl | exact absurd rfl he
  exact tryDecode_of_decoding hdecoding he

theorem tryDecode_of_missing {address : KulloAddress} (answers : List (Except Exn PublicKeyAnswer))
    (h : KeyMissing P account decryptedMessage s.db address) :
    tryDecode P account decryptedMessage answers s =
      match answers with
      | [] => .error .networkError s
      | .error .notFound :: _ => .ok none s
      | .error e :: _ => .error e s
      | .ok keyPair :: answers =>
        tryDecode P account decryptedMessage answers { s with db := withKey address keyPair s.db } := by
  cases answers with
  | nil =>
    unfold tryDecode
    rw [bind_of_ok get_apply, h.decode]
    rfl
  | cons answer answers =>
    rw [tryDecode, bind_of_ok get_apply, h.decode, h.1]
    cases answer with
    | error e => cases e <;> rfl
    | ok keyPair =>
      have hstore : transaction (fun db => do .ok ((), ← storePublicKey address keyPair db)) s =
          .ok () { s with db := withKey address keyPair s.db } :=
        transaction_of_ok (by rw [storePublicKey_eq_ok]; rfl)
      dsimp only
      rw [bind_of_ok hstore]

/-! ### One download is enough -/

private theorem firstAnswers_succ (answers : Nat → Option PublicKeyAnswer) (n : Nat) :
    firstAnswers answers (n + 1) = answerOf (answers 0) :: firstAnswers (fun i => answers (i + 1)) n := by
  unfold firstAnswers
  rw [List.range_succ_eq_map, List.map_cons, List.map_map]
  rfl

variable {answers : Nat → Option PublicKeyAnswer}

private theorem AnsweredAsAsked.fetchedOnce (h : AnsweredAsAsked P account decryptedMessage answers s.db) :
    FetchedOnce P account decryptedMessage answers s := by
  by_cases hmissing : ∃ address, KeyMissing P account decryptedMessage s.db address
  · obtain ⟨address, haddress⟩ := hmissing
    cases hanswer : answers 0 with
    | none =>
      constructor
      · intro n
        cases n with
        | zero => simp [firstAnswers, keyDownloads_of_missing_nil haddress]
        | succ n => simp [firstAnswers_succ, hanswer, answerOf, keyDownloads_of_refused _ _ haddress]
      · intro n hn
        obtain ⟨n, rfl⟩ := Nat.exists_eq_succ_of_ne_zero (Nat.pos_iff_ne_zero.mp hn)
        refine ⟨none, s, ?_⟩
        rw [Nat.succ_eq_add_one, firstAnswers_succ, hanswer, tryDecode_of_missing _ haddress]
        rfl
    | some keyPair =>
      -- the key that was asked for is stored now, so it is not missing a second time
      have hid := h.asked address keyPair haddress hanswer
      have hfound : ¬ KeyMissing P account decryptedMessage (withKey address keyPair s.db) address :=
        fun hstill => (keyMissing_withKey keyPair haddress).mp hstill hid
      have hdecode : MessageDecoder.decode P (withKey address keyPair s.db) account.userAddress decryptedMessage ≠
          .error .signatureVerificationKeyMissing := by
        intro hstill
        have hskipped := h.readWith address keyPair haddress hanswer _ hstill
        cases hskipped
      constructor
      · intro n
        cases n with
        | zero => simp [firstAnswers, keyDownloads_of_missing_nil haddress]
        | succ n =>
          rw [firstAnswers_succ, hanswer, answerOf, keyDownloads_of_missing _ _ haddress,
            keyDownloads_of_decode _ hdecode]
          simp
      · intro n hn
        obtain ⟨n, rfl⟩ := Nat.exists_eq_succ_of_ne_zero (Nat.pos_iff_ne_zero.mp hn)
        rw [Nat.succ_eq_add_one, firstAnswers_succ, hanswer, tryDecode_of_missing _ haddress]
        dsimp only [answerOf]
        cases hresult : MessageDecoder.decode P (withKey address keyPair s.db) account.userAddress decryptedMessage with
        | ok decoder => exact ⟨_, _, tryDecode_of_ok (s := { s with db := withKey address keyPair s.db }) _ hresult⟩
        | error e =>
          have hskipped := h.readWith address keyPair haddress hanswer e hresult
          refine ⟨none, { s with db := withKey address keyPair s.db }, ?_⟩
          rw [tryDecode_of_error (s := { s with db := withKey address keyPair s.db }) _ hresult
            (by rintro rfl; exact hdecode hresult), if_pos hskipped]
  -- no key is missing, and none is asked for
  · have hdecode : MessageDecoder.decode P s.db account.userAddress decryptedMessage ≠
        .error .signatureVerificationKeyMissing :=
      fun hstill => hmissing ((MessageDecoder.decode_eq_missing_iff s.db).mp hstill)
    constructor
    · intro n
      rw [keyDownloads_of_decode _ hdecode]
      simp
    · intro n _
      cases hresult : MessageDecoder.decode P s.db account.userAddress decryptedMessage with
      | ok decoder => exact ⟨_, _, tryDecode_of_ok _ hresult⟩
      | error e =>
        have hne : e ≠ .signatureVerificationKeyMissing := by
          rintro rfl
          exact hdecode hresult
        refine ⟨none, s, ?_⟩
        rw [tryDecode_of_error _ hresult hne, if_pos ((h.read e hresult).resolve_left hne)]

private theorem FetchedOnce.answeredAsAsked (h : FetchedOnce P account decryptedMessage answers s) :
    AnsweredAsAsked P account decryptedMessage answers s.db := by
  obtain ⟨decoder, s', hreturns⟩ := h.returns 1 Nat.one_pos
  rw [firstAnswers_succ] at hreturns
  constructor
  · intro address keyPair haddress hanswer
    by_contra hid
    have honce := h.once 1
    rw [firstAnswers_succ, hanswer, answerOf, keyDownloads_of_missing _ _ haddress] at honce
    have hstill := (keyMissing_withKey keyPair haddress).mpr hid
    have hnil : firstAnswers (fun i => answers (i + 1)) 0 = [] := rfl
    rw [hnil, keyDownloads_of_missing_nil hstill] at honce
    simp at honce
  · intro e he
    by_cases hne : e = .signatureVerificationKeyMissing
    · exact .inl hne
    · rw [tryDecode_of_error _ he hne] at hreturns
      by_contra hnot
      rw [if_neg (fun hskipped => hnot (.inr hskipped))] at hreturns
      cases hreturns
  · intro address keyPair haddress hanswer e he
    rw [hanswer, tryDecode_of_missing _ haddress] at hreturns
    dsimp only [answerOf] at hreturns
    by_cases hne : e = .signatureVerificationKeyMissing
    · subst hne
      obtain ⟨address', hstill⟩ := (MessageDecoder.decode_eq_missing_iff _).mp he
      rw [tryDecode_of_missing (s := { s with db := withKey address keyPair s.db }) _ hstill] at hreturns
      cases hreturns
    · rw [tryDecode_of_error (s := { s with db := withKey address keyPair s.db }) _ he hne] at hreturns
      by_contra hnot
      rw [if_neg hnot] at hreturns
      cases hreturns

/-! ### The keys that are stored -/

/-- The database, and the key downloads there were. -/
structure KeyHistory where
  db : Db
  downloads : List KeyDownload := []

inductive KeyAction
  | tryDecode (decryptedMessage : DecryptedMessage) (answers : List (Except Exn PublicKeyAnswer))
  | others (db : Db)

/-- Nothing else writes the table of public keys. -/
def KeyStep (P : Platform) (account : Account) (h : KeyHistory) : KeyAction → KeyHistory → Prop
  | .tryDecode decryptedMessage answers, h' => ∃ s, s.db = h.db ∧
    h' = ⟨(final (MessagesSyncer.tryDecode P account decryptedMessage answers s)).db,
      h.downloads ++ keyDownloads P account decryptedMessage answers h.db⟩
  | .others db, h' => db.keysPublic = h.db.keysPublic ∧ h' = { h with db := db }

/-- The keys the server returns are signature keys. -/
def SignatureKeys (answers : List (Except Exn PublicKeyAnswer)) : Prop :=
  ∀ keyPair, .ok keyPair ∈ answers → keyPair.type = "sig"

def ReturnsSignatureKeys (_ : KeyHistory) : KeyAction → Prop
  | .tryDecode _ answers => SignatureKeys answers
  | .others _ => True

/-- The server returned the key as the signature key of the address with the id. -/
def Returned (downloads : List KeyDownload) (address : String) (id : IdType) (pubkey : Bytes) : Prop :=
  ∃ d ∈ downloads, ∃ keyPair, d.answer = .ok keyPair ∧ d.address.toString = address ∧ keyPair.id = id ∧
    keyPair.type = "sig" ∧ keyPair.pubkey = pubkey

/-- A message that is decoded verifies under a key that was returned as the signature key of its sender with the
message's id. -/
def Genuine (P : Platform) (account : Account) (h : KeyHistory) : Prop :=
  ∀ decryptedMessage answers s decoder s', s.db = h.db → SignatureKeys answers →
    tryDecode P account decryptedMessage answers s = .ok (some decoder) s' →
    ∃ pubkey key, Returned (h.downloads ++ keyDownloads P account decryptedMessage answers h.db)
        decoder.sender.address.toString decryptedMessage.content.sigKeyId pubkey ∧
      P.loadPublicKey pubkey = .ok key ∧
      P.verify decryptedMessage.content.data decryptedMessage.content.signature key = .ok true

/-- Every stored key was returned. -/
def KeysReturned (h : KeyHistory) : Prop :=
  ∀ row ∈ h.db.keysPublic, Returned h.downloads row.address row.id row.keyData

theorem Returned.append {downloads downloads' : List KeyDownload} {address : String} {id : IdType} {pubkey : Bytes}
    (h : Returned downloads address id pubkey) : Returned (downloads ++ downloads') address id pubkey := by
  obtain ⟨d, hd, hrest⟩ := h
  exact ⟨d, List.mem_append_left _ hd, hrest⟩

/-- A signature key that was returned is stored. -/
theorem KeysReturned.withKey {h : KeyHistory} (hkeys : KeysReturned h) {d : KeyDownload} {keyPair : PublicKeyAnswer}
    (hanswer : d.answer = .ok keyPair) (htype : keyPair.type = "sig") :
    KeysReturned ⟨MessagesSyncer.withKey d.address keyPair h.db, h.downloads ++ [d]⟩ := by
  intro row hrow
  rcases Table.mem_of_insertOrIgnore hrow with hold | rfl
  · exact (hkeys row hold).append
  · exact ⟨d, by simp, keyPair, hanswer, rfl, rfl, htype, rfl⟩

/-- When the key is not missing the first attempt is the last, and nothing is stored. -/
theorem tryDecode_settled (answers : List (Except Exn PublicKeyAnswer))
    (h : MessageDecoder.decode P s.db account.userAddress decryptedMessage ≠ .error .signatureVerificationKeyMissing) :
    final (tryDecode P account decryptedMessage answers s) = s ∧
      ∀ decoder s', tryDecode P account decryptedMessage answers s = .ok (some decoder) s' →
        MessageDecoder.decode P s'.db account.userAddress decryptedMessage = .ok decoder := by
  cases hdecode : MessageDecoder.decode P s.db account.userAddress decryptedMessage with
  | ok decoder =>
    rw [tryDecode_of_ok _ hdecode]
    refine ⟨rfl, fun decoder' s' h' => ?_⟩
    cases h'
    exact hdecode
  | error e =>
    rw [tryDecode_of_error _ hdecode (by rintro rfl; exact h hdecode)]
    by_cases hskipped : isSkipped e = true
    · rw [if_pos hskipped]
      exact ⟨rfl, fun _ _ h' => by cases h'⟩
    · rw [if_neg hskipped]
      exact ⟨rfl, fun _ _ h' => by cases h'⟩

variable (P account) in
/-- The keys stay returned in `tryDecode`, and the decoder it returns is made with them. -/
theorem tryDecode_keys {answers : List (Except Exn PublicKeyAnswer)} (hsig : SignatureKeys answers) {h : KeyHistory}
    (hkeys : KeysReturned h) {s : State} (hs : s.db = h.db) :
    KeysReturned ⟨(final (tryDecode P account decryptedMessage answers s)).db,
        h.downloads ++ keyDownloads P account decryptedMessage answers h.db⟩ ∧
      ∀ decoder s', tryDecode P account decryptedMessage answers s = .ok (some decoder) s' →
        MessageDecoder.decode P s'.db account.userAddress decryptedMessage = .ok decoder := by
  have hsame : ∀ downloads, KeysReturned ⟨s.db, h.downloads ++ downloads⟩ := by
    intro downloads row hrow
    rw [hs] at hrow
    exact (hkeys row hrow).append
  induction answers generalizing s h with
  | nil =>
    by_cases hmissing : ∃ address, KeyMissing P account decryptedMessage s.db address
    · obtain ⟨address, haddress⟩ := hmissing
      rw [tryDecode_of_missing _ haddress]
      exact ⟨hsame _, fun _ _ h' => by cases h'⟩
    · obtain ⟨hfinal, hdecoder⟩ := tryDecode_settled (s := s) []
        (fun hstill => hmissing ((MessageDecoder.decode_eq_missing_iff s.db).mp hstill))
      rw [hfinal]
      exact ⟨hsame _, hdecoder⟩
  | cons answer answers ih =>
    by_cases hmissing : ∃ address, KeyMissing P account decryptedMessage s.db address
    · obtain ⟨address, haddress⟩ := hmissing
      rw [tryDecode_of_missing _ haddress]
      cases answer with
      | error e =>
        cases e with
        | notFound => exact ⟨hsame _, fun _ _ h' => by cases h'⟩
        | _ => exact ⟨hsame _, fun _ _ h' => by cases h'⟩
      | ok keyPair =>
        rw [hs] at haddress ⊢
        rw [keyDownloads_of_missing _ _ haddress]
        have hstored := hkeys.withKey (d := ⟨address, decryptedMessage.content.sigKeyId, .ok keyPair⟩) rfl
          (hsig keyPair (by simp))
        have hrest := ih (fun kp hkp => hsig kp (List.mem_cons_of_mem _ hkp)) hstored
          (s := { s with db := withKey address keyPair h.db }) rfl
          (fun downloads row hrow => (hstored row hrow).append)
        rwa [List.append_assoc, List.singleton_append] at hrest
    · obtain ⟨hfinal, hdecoder⟩ := tryDecode_settled (s := s) (answer :: answers)
        (fun hstill => hmissing ((MessageDecoder.decode_eq_missing_iff s.db).mp hstill))
      rw [hfinal]
      exact ⟨hsame _, hdecoder⟩

private theorem keysReturned_of_reaches {db : Db} (hempty : db.keysPublic.rows = []) {h : KeyHistory}
    (hreaches : Transition.Reaches (KeyStep P account) ReturnsSignatureKeys ⟨db, []⟩ h) : KeysReturned h := by
  refine hreaches.keeps ?_ ?_
  · rintro h₁ a h₂ hkeys hsig hstep
    cases a with
    | tryDecode decryptedMessage answers =>
      obtain ⟨s, hs, rfl⟩ := hstep
      exact (tryDecode_keys P account hsig hkeys hs).1
    | others db' =>
      obtain ⟨hdb, rfl⟩ := hstep
      intro row hrow
      dsimp only at hrow
      rw [hdb] at hrow
      exact hkeys row hrow
  · intro row hrow
    have hrow' : row ∈ db.keysPublic.rows := hrow
    rw [hempty] at hrow'
    cases hrow'

private theorem KeysReturned.genuine {h : KeyHistory} (hkeys : KeysReturned h) : Genuine P account h := by
  intro decryptedMessage answers s decoder s' hs hsig hdecoded
  obtain ⟨hafter, hdecode⟩ := tryDecode_keys P account hsig hkeys hs
  obtain ⟨row, key, hload, hkey, hverify⟩ := MessageDecoder.verified_of_decode (hdecode decoder s' hdecoded)
  rw [hdecoded] at hafter
  have hrow := hafter row (Table.mem_of_find? hload)
  have hrowKey := Table.key_of_find? hload
  unfold PublicKeyRow.key at hrowKey
  simp only [Prod.mk.injEq] at hrowKey
  obtain ⟨haddress, hid, -⟩ := hrowKey
  rw [haddress, hid] at hrow
  exact ⟨row.keyData, key, hrow, hkey, hverify⟩

/-- One download is enough, and the message is decoded or skipped, if and only if the server returns what was asked for
and what decoding raises is expected.  And as long as the keys that the server returns are signature keys, a message is
accepted only if it verifies under the key that was returned for its sender and its id. -/
theorem signatureKeys_of_answers (P : Platform) (account : Account) :
    (∀ decryptedMessage answers s,
      FetchedOnce P account decryptedMessage answers s ↔
        AnsweredAsAsked P account decryptedMessage answers s.db) ∧
    ∀ (db : Db) (h : KeyHistory), db.keysPublic.rows = [] →
      Transition.Reaches (KeyStep P account) ReturnsSignatureKeys ⟨db, []⟩ h → Genuine P account h := by
  constructor
  · exact fun decryptedMessage answers s => ⟨FetchedOnce.answeredAsAsked, AnsweredAsAsked.fetchedOnce⟩
  · exact fun db h hempty hreaches => (keysReturned_of_reaches hempty hreaches).genuine

/-! ### A server that returns another key -/

/-- Every key with another id is followed by one more download. -/
theorem length_keyDownloads_of_otherKey {db : Db} {address : KulloAddress} {keyPair : PublicKeyAnswer}
    (hmissing : KeyMissing P account decryptedMessage db address)
    (hid : keyPair.id ≠ decryptedMessage.content.sigKeyId) (n : Nat) :
    (keyDownloads P account decryptedMessage (firstAnswers (fun _ => some keyPair) n) db).length = n + 1 := by
  induction n generalizing db with
  | zero =>
    have hnil : firstAnswers (fun _ => some keyPair) 0 = [] := rfl
    rw [hnil, keyDownloads_of_missing_nil hmissing]
    rfl
  | succ n ih =>
    rw [firstAnswers_succ, answerOf, keyDownloads_of_missing _ _ hmissing, List.length_cons,
      ih ((keyMissing_withKey keyPair hmissing).mpr hid)]

def bobAccount : Account := ⟨MessageDecoder.bob, []⟩

open MessageDecoder in
private theorem letter_parsed (db : Db) (hsenders : db.senders.rows = []) :
    ∃ parsed, parseContent letterPlatform db bobAccount.userAddress letterMessage.id letterMessage.content =
      .ok parsed ∧ parsed.sender.address = alice := by
  have hstored : StoredSender db letterMessage.id alice := by
    intro r hr
    have hmem := Table.mem_of_find? hr
    rw [← Table.mem_rows, hsenders] at hmem
    cases hmem
  obtain ⟨parsed, hparsed, haddress, -⟩ := parseContent_encoded letter_binary
    DateLibrary.gregorian_documented bobAccount.userAddress letterMessage.content letter_sendable rfl rfl hstored
  exact ⟨parsed, hparsed, haddress⟩

open MessageDecoder in
private theorem letter_dateReceived : ∃ dateReceived, letterPlatform.printDateTime letterMessage.dateReceived = .ok dateReceived :=
  letterPlatform.printDateTime_isTime DateLibrary.gregorian_documented letterTime_isTime

open MessageDecoder in
private theorem letter_keyMissing : KeyMissing letterPlatform bobAccount letterMessage {} alice := by
  obtain ⟨parsed, hparsed, haddress⟩ := letter_parsed {} rfl
  obtain ⟨dateReceived, hdate⟩ := letter_dateReceived
  refine ⟨?_, rfl⟩
  unfold senderAddress
  rw [hdate, hparsed]
  exact congrArg some haddress

/-- The server answers with an encryption key. -/
def encryptionKey : PublicKeyAnswer := ⟨1, "enc", []⟩

open MessageDecoder in
private theorem letter_decoded : ∃ decoder, decode letterPlatform (withKey alice encryptionKey {}) bobAccount.userAddress
    letterMessage = .ok decoder := by
  obtain ⟨parsed, hparsed, haddress⟩ := letter_parsed (withKey alice encryptionKey {}) rfl
  obtain ⟨dateReceived, hdate⟩ := letter_dateReceived
  have hverify : verifyContent letterPlatform (withKey alice encryptionKey {}) alice letterMessage.content = .ok () := rfl
  have hmeta : parseMeta letterPlatform bobAccount.userAddress alice letterMessage.metaVersion letterMessage.metaText =
      .ok (0, false, false) := rfl
  refine ⟨_, decode_eq_ok.mpr ⟨dateReceived, parsed, (0, false, false), hdate, hparsed, ?_, ?_, rfl⟩⟩
  · rw [haddress]
    exact hverify
  · rw [haddress]
    exact hmeta

open MessageDecoder in
/-- A server that answers with another key is asked again and again, and an encryption key is taken for a signature
key. -/
theorem signatureKeys_not_fetchedOnce :
    (∀ n, (keyDownloads letterPlatform bobAccount letterMessage (firstAnswers (fun _ => some ⟨2, "sig", []⟩) n)
      {}).length = n + 1) ∧
    ¬ FetchedOnce letterPlatform bobAccount letterMessage (fun _ => some ⟨2, "sig", []⟩) { db := {} } ∧
    (∃ decoder s', tryDecode letterPlatform bobAccount letterMessage [.ok encryptionKey] { db := {} } =
      .ok (some decoder) s') ∧
    ¬ ∃ address pubkey, Returned (keyDownloads letterPlatform bobAccount letterMessage [.ok encryptionKey] {}) address
      letterMessage.content.sigKeyId pubkey := by
  have hdownloads : ∀ n, (keyDownloads letterPlatform bobAccount letterMessage
      (firstAnswers (fun _ => some ⟨2, "sig", []⟩) n) {}).length = n + 1 :=
    length_keyDownloads_of_otherKey letter_keyMissing (by decide)
  obtain ⟨decoder, hdecoder⟩ := letter_decoded
  refine ⟨hdownloads, fun h => ?_, ⟨decoder, { db := withKey alice encryptionKey {} }, ?_⟩, ?_⟩
  · have honce := h.once 1
    rw [hdownloads 1] at honce
    omega
  · have hstored : tryDecode letterPlatform bobAccount letterMessage [] { db := withKey alice encryptionKey {} } =
        .ok (some decoder) { db := withKey alice encryptionKey {} } := tryDecode_of_ok [] hdecoder
    have hfetched := tryDecode_of_missing (s := { db := {} }) [.ok encryptionKey] letter_keyMissing
    dsimp only at hfetched
    rw [hfetched]
    exact hstored
  · rintro ⟨address, pubkey, d, hd, keyPair, hanswer, -, -, htype, -⟩
    have hdecode : decode letterPlatform (withKey alice encryptionKey {}) bobAccount.userAddress letterMessage ≠
        .error .signatureVerificationKeyMissing := by
      rw [hdecoder]
      rintro ⟨⟩
    rw [keyDownloads_of_missing _ _ letter_keyMissing, keyDownloads_of_decode _ hdecode, List.mem_singleton] at hd
    subst hd
    cases hanswer
    exact absurd htype (by decide)

end MessagesSyncer

end KulloClient
