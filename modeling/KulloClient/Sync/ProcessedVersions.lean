import KulloClient.Sync.MessageCopies
import KulloClient.Sync.SignatureKeys

/-!
# The versions the syncer processes

A received message is processed if it is deleted, or if it decrypts and decodes.  One lemma for each of the four cases
says what handling it does to the rows of the message; a message that is not processed leaves the messages alone.
-/

namespace KulloClient

open Relational (Table)
open Imperative

namespace MessagesSyncer

variable (P : Platform) (account : Account)

/-- The decoded message, as `withDecoder` gets it, and the version of its meta data. -/
def readMessage (r : Received) (s : State) : Option (MetaVersion × Decoder × State) :=
  match tryDecrypt P account r.msg s with
  | .ok (some decryptedMessage) s =>
    match tryDecode P account decryptedMessage r.answers s with
    | .ok (some decoder) s => some (decryptedMessage.metaVersion, decoder, s)
    | _ => none
  | _ => none

variable {P account} {r : Received} {s : State}

/-- Decrypting a message writes nothing. -/
theorem tryDecrypt_ends (msg : HttpMessage) (s : State) :
    Ends (tryDecrypt P account msg) s
      (fun decryptedMessage s' => s' = s ∧ ∀ m, decryptedMessage = some m →
        MessageDecryptor.decrypt P s.db account.privateDataKey msg = .ok m)
      (fun _ s' => s' = s) := by
  cases hdecrypt : MessageDecryptor.decrypt P s.db account.privateDataKey msg with
  | ok m =>
    have htry : tryDecrypt P account msg s = .ok (some m) s := by
      unfold tryDecrypt
      simp only [bind_apply, get_apply, hdecrypt, pure_apply]
    refine Ends.of_eq_ok htry ⟨rfl, ?_⟩
    intro m' hm'
    cases hm'
    rfl
  | error e =>
    by_cases he : e = .decryptionKeyMissing
    · subst he
      have htry : tryDecrypt P account msg s = .ok none s := by
        unfold tryDecrypt
        simp only [bind_apply, get_apply, hdecrypt, pure_apply]
      refine Ends.of_eq_ok htry ⟨rfl, ?_⟩
      intro m hm
      cases hm
    · have htry : tryDecrypt P account msg s = .error e s := by
        unfold tryDecrypt
        simp only [bind_apply, get_apply, hdecrypt]
        cases e <;> first | exact absurd rfl he | rfl
      exact Ends.of_eq_error htry rfl

/-- The state after public keys were stored. -/
def StoresKeys (s s' : State) : Prop := ∃ keys, s' = { s with db := { s.db with keysPublic := keys } }

theorem StoresKeys.refl (s : State) : StoresKeys s s := ⟨_, rfl⟩

theorem StoresKeys.messages {s s' : State} (h : StoresKeys s s') : s'.db.messages = s.db.messages := by
  obtain ⟨keys, rfl⟩ := h
  rfl

private theorem tryDecode_error_ends {m : DecryptedMessage} {e : Exn} (answers : List (Except Exn PublicKeyAnswer))
    (h : MessageDecoder.decode P s.db account.userAddress m = .error e) (he : e ≠ .signatureVerificationKeyMissing) :
    Ends (tryDecode P account m answers) s
      (fun decoder s' => StoresKeys s s' ∧ ∀ d, decoder = some d →
        MessageDecoder.decode P s'.db account.userAddress m = .ok d)
      (fun _ s' => StoresKeys s s') := by
  have htry := tryDecode_of_error answers h he
  by_cases hskip : isSkipped e = true
  · rw [if_pos hskip] at htry
    exact Ends.of_eq_ok htry ⟨.refl s, fun d hd => by cases hd⟩
  · rw [if_neg hskip] at htry
    exact Ends.of_eq_error htry (.refl s)

/-- Decoding stores public keys at most. -/
theorem tryDecode_ends (m : DecryptedMessage) (answers : List (Except Exn PublicKeyAnswer)) (s : State) :
    Ends (tryDecode P account m answers) s
      (fun decoder s' => StoresKeys s s' ∧ ∀ d, decoder = some d →
        MessageDecoder.decode P s'.db account.userAddress m = .ok d)
      (fun _ s' => StoresKeys s s') := by
  induction answers generalizing s with
  | nil =>
    cases hdecode : MessageDecoder.decode P s.db account.userAddress m with
    | ok decoder =>
      refine Ends.of_eq_ok (tryDecode_of_ok [] hdecode) ⟨.refl s, ?_⟩
      intro d hd
      cases hd
      exact hdecode
    | error e =>
      by_cases he : e = .signatureVerificationKeyMissing
      · subst he
        obtain ⟨address, hmissing⟩ := (MessageDecoder.decode_eq_missing_iff s.db).mp hdecode
        exact Ends.of_eq_error (tryDecode_of_missing [] hmissing) (.refl s)
      · exact tryDecode_error_ends [] hdecode he
  | cons answer answers ih =>
    cases hdecode : MessageDecoder.decode P s.db account.userAddress m with
    | ok decoder =>
      refine Ends.of_eq_ok (tryDecode_of_ok _ hdecode) ⟨.refl s, ?_⟩
      intro d hd
      cases hd
      exact hdecode
    | error e =>
      by_cases he : e = .signatureVerificationKeyMissing
      · subst he
        obtain ⟨address, hmissing⟩ := (MessageDecoder.decode_eq_missing_iff s.db).mp hdecode
        have htry := tryDecode_of_missing (answer :: answers) hmissing
        cases answer with
        | error e =>
          by_cases hfound : e = .notFound
          · subst hfound
            exact Ends.of_eq_ok htry ⟨.refl s, fun d hd => by cases hd⟩
          · refine Ends.of_eq_error (e := e) (htry.trans ?_) (.refl s)
            cases e <;> first | exact absurd rfl hfound | rfl
        | ok keyPair =>
          unfold Ends
          rw [htry]
          refine (ih { s with db := withKey address keyPair s.db }).mono ?_ ?_
          · rintro decoder s' ⟨⟨keys, rfl⟩, hdecoded⟩
            exact ⟨⟨keys, rfl⟩, hdecoded⟩
          · rintro _ s' ⟨keys, rfl⟩
            exact ⟨keys, rfl⟩
      · exact tryDecode_error_ends _ hdecode he

/-- What is read was decrypted and decoded, and nothing but public keys was stored for it. -/
theorem readMessage_eq_some {version : MetaVersion} {decoder : Decoder} {s' : State}
    (h : readMessage P account r s = some (version, decoder, s')) :
    StoresKeys s s' ∧ ∃ m : DecryptedMessage, m.metaVersion = version ∧
      MessageDecryptor.decrypt P s.db account.privateDataKey r.msg = .ok m ∧
        MessageDecoder.decode P s'.db account.userAddress m = .ok decoder := by
  unfold readMessage at h
  split at h
  · next m s₁ htry =>
    obtain ⟨rfl, hdecrypt⟩ := ends_of_ok (tryDecrypt_ends r.msg s) htry
    split at h
    · next d s₂ hdecode =>
      cases h
      obtain ⟨hkeys, hdecoded⟩ := ends_of_ok (tryDecode_ends m r.answers _) hdecode
      exact ⟨hkeys, m, rfl, hdecrypt m rfl, hdecoded _ rfl⟩
    · cases h
  · cases h

private theorem withDecoder_of_read {version : MetaVersion} {decoder : Decoder} {s' : State}
    (h : readMessage P account r s = some (version, decoder, s')) (body : Decoder → SyncM Unit) :
    withDecoder P account r body s = body decoder s' := by
  unfold readMessage at h
  split at h
  · next m s₁ htry =>
    split at h
    · next d s₂ hdecode =>
      cases h
      unfold withDecoder
      rw [bind_of_ok htry]
      dsimp only
      rw [bind_of_ok hdecode]
    · cases h
  · cases h

/-- A message that is not read is skipped, or stops the run. -/
theorem withDecoder_of_unread (h : readMessage P account r s = none) (body : Decoder → SyncM Unit) :
    Ends (withDecoder P account r body) s (fun _ => StoresKeys s) (fun _ => StoresKeys s) := by
  unfold readMessage at h
  have hdecrypt : Ends (tryDecrypt P account r.msg) s _ _ := tryDecrypt_ends r.msg s
  cases htry : tryDecrypt P account r.msg s with
  | error e s₁ =>
    have hsame := ends_of_error hdecrypt htry
    have hwith : withDecoder P account r body s = .error e s₁ := by
      unfold withDecoder
      rw [bind_of_error htry]
    exact Ends.of_eq_error hwith (hsame ▸ .refl s)
  | ok decrypted s₁ =>
    obtain ⟨hsame, -⟩ := ends_of_ok hdecrypt htry
    subst hsame
    rw [htry] at h
    cases decrypted with
    | none =>
      have hwith : withDecoder P account r body s₁ = .ok () s₁ := by
        unfold withDecoder
        rw [bind_of_ok htry]
        rfl
      exact Ends.of_eq_ok hwith (.refl s₁)
    | some m =>
      dsimp only at h
      have hdecode : Ends (tryDecode P account m r.answers) s₁ _ _ := tryDecode_ends m r.answers s₁
      cases hdecoded : tryDecode P account m r.answers s₁ with
      | error e s₂ =>
        have hkeys := ends_of_error hdecode hdecoded
        have hwith : withDecoder P account r body s₁ = .error e s₂ := by
          unfold withDecoder
          rw [bind_of_ok htry]
          dsimp only
          rw [bind_of_error hdecoded]
        exact Ends.of_eq_error hwith hkeys
      | ok decoder s₂ =>
        rw [hdecoded] at h
        cases decoder with
        | some d => cases h
        | none =>
          have hwith : withDecoder P account r body s₁ = .ok () s₂ := by
            unfold withDecoder
            rw [bind_of_ok htry]
            dsimp only
            rw [bind_of_ok hdecoded]
            rfl
          exact Ends.of_eq_ok hwith (ends_of_ok hdecode hdecoded).1

/-! ### What is read -/

private theorem decrypt_ids {db : Db} {key : Bytes} {msg : HttpMessage} {m : DecryptedMessage}
    (h : MessageDecryptor.decrypt P db key msg = .ok m) : m.id = msg.id ∧ m.lastModified = msg.lastModified := by
  unfold MessageDecryptor.decrypt at h
  obtain ⟨_, -, h⟩ := bind_eq_ok.mp h
  split at h
  · cases h
  · obtain ⟨_, -, h⟩ := bind_eq_ok.mp h
    obtain ⟨_, -, h⟩ := bind_eq_ok.mp h
    cases h
    exact ⟨rfl, rfl⟩

/-- The meta version and the states a decoded message has: those of the user's own messages and of newer versions are
not read. -/
structure ReadMeta (userAddress : KulloAddress) (version : MetaVersion) (decoder : Decoder) : Prop where
  own : decoder.sender.address = userAddress → decoder.message.row.metaVersion = latestMetaVersion
  others : decoder.sender.address ≠ userAddress → decoder.message.row.metaVersion = version
  newer : latestMetaVersion < version → ∀ state, decoder.message.row.state state = true

private theorem decode_meta {db : Db} {userAddress : KulloAddress} {m : DecryptedMessage} {decoder : Decoder}
    (h : MessageDecoder.decode P db userAddress m = .ok decoder) :
    decoder.message.row.lastModified = m.lastModified ∧ ReadMeta userAddress m.metaVersion decoder := by
  obtain ⟨_, parsed, ⟨metaVersion, read, done⟩, -, -, -, hmeta, rfl⟩ := MessageDecoder.decode_eq_ok.mp h
  refine ⟨rfl, ?_⟩
  unfold MessageDecoder.parseMeta at hmeta
  by_cases hown : userAddress = parsed.sender.address
  · rw [if_pos hown] at hmeta
    cases hmeta
    refine ⟨fun _ => rfl, fun hne => absurd hown.symm hne, ?_⟩
    intro _ state
    cases state <;> rfl
  · rw [if_neg hown] at hmeta
    by_cases hsupported : m.metaVersion ≤ latestMetaVersion
    · have hversion : metaVersion = m.metaVersion := by
        rw [if_pos hsupported] at hmeta
        dsimp only at hmeta
        split at hmeta
        · obtain ⟨_, -, hmeta⟩ := bind_eq_ok.mp hmeta
          obtain ⟨_, -, hmeta⟩ := bind_eq_ok.mp hmeta
          obtain ⟨_, -, hmeta⟩ := bind_eq_ok.mp hmeta
          cases hmeta
          rfl
        · obtain ⟨_, -, hmeta⟩ := bind_eq_ok.mp hmeta
          obtain ⟨_, -, hmeta⟩ := bind_eq_ok.mp hmeta
          obtain ⟨_, -, hmeta⟩ := bind_eq_ok.mp hmeta
          cases hmeta
          rfl
      refine ⟨fun heq => absurd heq.symm hown, fun _ => hversion, ?_⟩
      intro hlt
      exact absurd hlt (Nat.not_lt.mpr hsupported)
    · rw [if_neg hsupported] at hmeta
      cases hmeta
      refine ⟨fun heq => absurd heq.symm hown, fun _ => rfl, ?_⟩
      intro _ state
      cases state <;> rfl

/-- A decoded message that was read. -/
structure ReadFrom (userAddress : KulloAddress) (r : Received) (version : MetaVersion) (decoder : Decoder) : Prop
    extends ReadMeta userAddress version decoder where
  isNew : decoder.message.IsNew
  old : decoder.message.row.old = false
  id : decoder.message.row.id = r.msg.id
  deleted : decoder.message.row.deleted = false
  lastModified : decoder.message.row.lastModified = r.msg.lastModified

theorem readFrom_of_read {version : MetaVersion} {decoder : Decoder} {s' : State}
    (h : readMessage P account r s = some (version, decoder, s')) : ReadFrom account.userAddress r version decoder := by
  obtain ⟨-, m, rfl, hdecrypt, hdecode⟩ := readMessage_eq_some h
  obtain ⟨hid, hmodified⟩ := decrypt_ids hdecrypt
  obtain ⟨hnew, hold, hid', hdeleted⟩ := decode_message hdecode
  obtain ⟨hmodified', hmeta⟩ := decode_meta hdecode
  exact ⟨hmeta, hnew, hold, hid'.trans hid, hdeleted, hmodified'.trans hmodified⟩

/-! ### The four cases -/

private theorem handle_newTombstone (P : Platform) (account : Account) (s : State) (hcur : currentRow s.db r.msg.id = none)
    (hdeleted : r.msg.deleted = true) :
    ∃ db, newTombstone r.msg s.db = .ok db ∧ handle P account r s = .ok () { s with db := db } := by
  have hok : ∃ db, newTombstone r.msg s.db = .ok db := by
    unfold newTombstone
    have hnew : (((MessageDao.new r.msg.id).setLastModified r.msg.lastModified).2.setDeleted true).2.IsNew :=
      MessageDao.IsNew.assign (MessageDao.IsNew.assign ⟨rfl, rfl⟩)
    have hfree : s.db.messages.find?
        (((MessageDao.new r.msg.id).setLastModified r.msg.lastModified).2.setDeleted true).2.row.key = none := by
      rw [MessageDao.setDeleted_row, MessageDao.setLastModified_row]
      exact hcur
    dsimp only
    rw [hnew.save hfree, ok_bind]
    exact ⟨_, rfl⟩
  obtain ⟨db, hdb⟩ := hok
  refine ⟨db, hdb, ?_⟩
  unfold handle handleLoaded
  rw [bind_of_ok get_apply, MessageDao.load_current, hcur, hdeleted]
  exact transaction_of_ok (by rw [hdb]; rfl)

private theorem handleLoaded_deleted (P : Platform) (account : Account) (s : State) (loc : MessageRow)
    (hdeleted : r.msg.deleted = true) :
    (∃ s', handleLoaded P account r (some (.ofRow loc)) s = .ok () s' ∧
      clearLocal r.msg (.ofRow loc) s.db = .ok s'.db) ∨
      ∃ e, handleLoaded P account r (some (.ofRow loc)) s = .error e s := by
  unfold handleLoaded
  rw [hdeleted]
  dsimp only
  unfold handleDeletedMessage
  cases hclear : clearLocal r.msg (.ofRow loc) s.db with
  | ok db =>
    refine .inl ?_
    have htx : transaction (fun db => do .ok ((), ← clearLocal r.msg (.ofRow loc) db)) s = .ok () { s with db := db } :=
      transaction_of_ok (by rw [hclear]; rfl)
    rw [bind_of_ok htx]
    exact ⟨_, rfl, rfl⟩
  | error e =>
    refine .inr ⟨e, ?_⟩
    have htx : transaction (fun db => do .ok ((), ← clearLocal r.msg (.ofRow loc) db)) s = .error e s :=
      transaction_of_error (by rw [hclear]; rfl)
    rw [bind_of_error htx]

private theorem handleLoaded_unread (loc : Option MessageDao) (hdeleted : r.msg.deleted = false)
    (hread : readMessage P account r s = none) :
    Ends (handleLoaded P account r loc) s (fun _ => StoresKeys s) (fun _ => StoresKeys s) := by
  unfold Ends handleLoaded
  rw [hdeleted]
  cases loc with
  | none => exact withDecoder_of_unread hread _
  | some loc => exact withDecoder_of_unread hread _

private theorem handle_new {version : MetaVersion} {decoder : Decoder} {s₁ : State} (hcur : currentRow s.db r.msg.id = none)
    (hdeleted : r.msg.deleted = false) (hread : readMessage P account r s = some (version, decoder, s₁)) :
    (∃ added s', handle P account r s = .ok () s' ∧ addNewMessage P decoder s₁.db = .ok (added, s'.db)) ∨
      ∃ e, handle P account r s = .error e s₁ := by
  unfold handle handleLoaded
  rw [bind_of_ok get_apply, MessageDao.load_current, hcur, hdeleted]
  dsimp only [Option.map_none]
  unfold handleNewMessage
  rw [withDecoder_of_read hread]
  cases hadd : addNewMessage P decoder s₁.db with
  | ok result =>
    obtain ⟨added, db⟩ := result
    refine .inl ⟨added, ?_⟩
    rw [bind_of_ok (transaction_of_ok hadd)]
    exact ⟨_, rfl, rfl⟩
  | error e =>
    refine .inr ⟨e, ?_⟩
    rw [bind_of_error (transaction_of_error hadd)]

private theorem handleLoaded_modified {version : MetaVersion} {decoder : Decoder} {s₁ : State} {loc cur : MessageRow}
    (hid : loc.id = r.msg.id) (hold : loc.old = false) (hcur : currentRow s.db r.msg.id = some cur)
    (hdeleted : r.msg.deleted = false) (hread : readMessage P account r s = some (version, decoder, s₁)) :
    ∃ s' written, handleLoaded P account r (some (.ofRow loc)) s = .ok () s' ∧
      MessageDao.Saved (loc.merged (oldRow s.db r.msg.id) decoder.message.row) loc cur written ∧
      Writes r.msg.id (some written) (loc.mergedOld (oldRow s.db r.msg.id) decoder.message.row) s.db s'.db := by
  have hfrom := readFrom_of_read hread
  have hkeys := (readMessage_eq_some hread).1
  have hcur₁ : currentRow s₁.db decoder.message.row.id = some cur := by
    unfold currentRow at hcur ⊢
    rw [hkeys.messages, hfrom.id, hcur]
  have hold₁ : oldRow s₁.db decoder.message.row.id = oldRow s.db r.msg.id := by
    unfold oldRow
    rw [hkeys.messages, hfrom.id]
  obtain ⟨merged, messages, written, hmerge, hsaved, hwrites⟩ :=
    mergeLoaded_writes (hid.trans hfrom.id.symm) hold hcur₁
  rw [hold₁] at hsaved
  rw [hold₁, hfrom.id] at hwrites
  have hends : Ends (handleLoaded P account r (some (.ofRow loc))) s
      (fun _ s' => s'.db = { s₁.db with messages := messages }) (fun _ _ => False) := by
    unfold Ends handleLoaded
    rw [hdeleted]
    dsimp only
    unfold handleModifiedMessage
    rw [withDecoder_of_read hread, bind_of_ok (transaction_of_ok hmerge)]
    cases merged.localModified <;> cases merged.stateModified <;> rfl
  cases hhandle : handleLoaded P account r (some (.ofRow loc)) s with
  | ok u s' =>
    have hdb := ends_of_ok hends hhandle
    refine ⟨s', written, rfl, hsaved, ?_⟩
    rw [hdb]
    exact hwrites.of_messages hkeys.messages
  | error e s' => exact absurd hhandle fun h => ends_of_error hends h

/-! ### The loop's body -/

/-- Nothing has changed since the local version was loaded. -/
theorem process_eq_processLoaded (P : Platform) (account : Account) (s : State) (hc : r.cancelled = false) :
    process P account r s = processLoaded P account r (MessageDao.load s.db r.msg.id false) s := by
  unfold process
  rw [hc]
  rfl

theorem process_of_cancelled (hc : r.cancelled = true) : process P account r s = .error .syncCanceled s := by
  unfold process
  rw [hc]
  rfl

theorem process_of_ok {s' : State} (hc : r.cancelled = false) (h : handle P account r s = .ok () s') :
    ∃ s'', process P account r s = .ok () s'' ∧ s''.db = SyncDao.setTimestamp s'.db .message r.msg.lastModified := by
  unfold process
  rw [hc]
  simp only [Bool.false_eq_true, if_false]
  rw [bind_of_ok h]
  exact ⟨_, rfl, rfl⟩

theorem process_of_error {e : Exn} {s' : State} (hc : r.cancelled = false) (h : handle P account r s = .error e s') :
    process P account r s = .error e s' := by
  unfold process
  rw [hc]
  simp only [Bool.false_eq_true, if_false]
  rw [bind_of_error h]

private theorem processLoaded_of_ok {loc : Option MessageDao} {s' : State}
    (h : handleLoaded P account r loc s = .ok () s') :
    ∃ s'', processLoaded P account r loc s = .ok () s'' ∧
      s''.db = SyncDao.setTimestamp s'.db .message r.msg.lastModified := by
  unfold processLoaded
  rw [bind_of_ok h]
  exact ⟨_, rfl, rfl⟩

private theorem processLoaded_of_error {loc : Option MessageDao} {e : Exn} {s' : State}
    (h : handleLoaded P account r loc s = .error e s') : processLoaded P account r loc s = .error e s' := by
  unfold processLoaded
  rw [bind_of_error h]

/-- A message that was deleted on the server is cleared as it was loaded. -/
theorem processLoaded_deleted (P : Platform) (account : Account) (s : State) {loc cur : MessageRow}
    (hid : loc.id = r.msg.id) (hold : loc.old = false) (hcur : currentRow s.db r.msg.id = some cur)
    (hdeleted : r.msg.deleted = true) :
    (∃ synced written, processLoaded P account r (some (.ofRow loc)) s = .ok () synced ∧
      MessageDao.Saved r.msg.tombstone loc cur written ∧ Writes r.msg.id (some written) none s.db synced.db) ∨
      ∃ e, processLoaded P account r (some (.ofRow loc)) s = .error e s := by
  rcases handleLoaded_deleted P account s loc hdeleted with ⟨s', hhandle, hclear⟩ | ⟨e, hhandle⟩
  · obtain ⟨synced, hprocess, hdb⟩ := processLoaded_of_ok hhandle
    obtain ⟨written, hsaved, hwrites⟩ := clearLoaded_writes hid hold hcur hclear
    exact .inl ⟨synced, written, hprocess, hsaved, hwrites.then_messages (by rw [hdb]; rfl)⟩
  · exact .inr ⟨e, processLoaded_of_error hhandle⟩

theorem processLoaded_unread (loc : Option MessageDao) (hdeleted : r.msg.deleted = false)
    (hread : readMessage P account r s = none) :
    Ends (processLoaded P account r loc) s (fun _ s' => s'.db.messages = s.db.messages)
      (fun _ s' => s'.db.messages = s.db.messages) := by
  have hends := handleLoaded_unread loc hdeleted hread
  cases hhandle : handleLoaded P account r loc s with
  | ok u s' =>
    obtain ⟨synced, hprocess, hdb⟩ := processLoaded_of_ok hhandle
    refine Ends.of_eq_ok hprocess ?_
    rw [hdb]
    exact (ends_of_ok hends hhandle).messages
  | error e s' => exact Ends.of_eq_error (processLoaded_of_error hhandle) (ends_of_error hends hhandle).messages

/-- A version that is read is merged into the message as it was loaded. -/
theorem processLoaded_modified {version : MetaVersion} {decoder : Decoder} {s₁ : State} {loc cur : MessageRow}
    (hid : loc.id = r.msg.id) (hold : loc.old = false) (hcur : currentRow s.db r.msg.id = some cur)
    (hdeleted : r.msg.deleted = false) (hread : readMessage P account r s = some (version, decoder, s₁)) :
    ∃ synced written, processLoaded P account r (some (.ofRow loc)) s = .ok () synced ∧
      MessageDao.Saved (loc.merged (oldRow s.db r.msg.id) decoder.message.row) loc cur written ∧
      Writes r.msg.id (some written) (loc.mergedOld (oldRow s.db r.msg.id) decoder.message.row) s.db synced.db := by
  obtain ⟨s', written, hhandle, hsaved, hwrites⟩ := handleLoaded_modified hid hold hcur hdeleted hread
  obtain ⟨synced, hprocess, hdb⟩ := processLoaded_of_ok hhandle
  exact ⟨synced, written, hprocess, hsaved, hwrites.then_messages (by rw [hdb]; rfl)⟩

/-- A message that was deleted on the server; what is not stored has no copy. -/
theorem process_deleted (P : Platform) (account : Account) (s : State) (hc : r.cancelled = false) (hdeleted : r.msg.deleted = true)
    (hcopied : currentRow s.db r.msg.id = none → oldRow s.db r.msg.id = none) :
    (∃ synced, process P account r s = .ok () synced ∧
      Writes r.msg.id (some r.msg.tombstone) none s.db synced.db) ∨ ∃ e, process P account r s = .error e s := by
  cases hcur : currentRow s.db r.msg.id with
  | none =>
    obtain ⟨db, htombstone, hhandle⟩ := handle_newTombstone P account s hcur hdeleted
    obtain ⟨synced, hprocess, hdb⟩ := process_of_ok hc hhandle
    obtain ⟨-, -, hwrites⟩ := newTombstone_writes htombstone
    rw [hcopied hcur] at hwrites
    exact .inl ⟨synced, hprocess, hwrites.then_messages (by rw [hdb]; rfl)⟩
  | some cur =>
    obtain ⟨hid, hold⟩ := key_of_currentRow hcur
    rw [process_eq_processLoaded P account s hc, MessageDao.load_current, hcur]
    rcases processLoaded_deleted P account s hid hold hcur hdeleted with
      ⟨synced, written, hprocess, hsaved, hwrites⟩ | ⟨e, hprocess⟩
    · rw [hsaved.eq_of_fresh] at hwrites
      exact .inl ⟨synced, hprocess, hwrites⟩
    · exact .inr ⟨e, hprocess⟩

theorem process_unread (hdeleted : r.msg.deleted = false) (hread : readMessage P account r s = none) :
    Ends (process P account r) s (fun _ s' => s'.db.messages = s.db.messages)
      (fun _ s' => s'.db.messages = s.db.messages) := by
  cases hc : r.cancelled with
  | true => exact Ends.of_eq_error (process_of_cancelled hc) rfl
  | false =>
    unfold Ends
    rw [process_eq_processLoaded P account s hc]
    exact processLoaded_unread _ hdeleted hread

theorem process_new {version : MetaVersion} {decoder : Decoder} {s₁ : State} (hc : r.cancelled = false)
    (hcur : currentRow s.db r.msg.id = none) (hdeleted : r.msg.deleted = false)
    (hread : readMessage P account r s = some (version, decoder, s₁)) :
    (∃ synced convId row, process P account r s = .ok () synced ∧
      row = { decoder.message.row with conversationId := convId } ∧
      Writes r.msg.id (some { row with metaVersion := max latestMetaVersion row.metaVersion })
        ((oldRow s.db r.msg.id).or (if row.metaVersion < latestMetaVersion then some row.asOld else none)) s.db
        synced.db) ∨
      ∃ e, process P account r s = .error e s₁ := by
  have hfrom := readFrom_of_read hread
  have hkeys := (readMessage_eq_some hread).1
  rcases handle_new hcur hdeleted hread with ⟨added, s', hhandle, hadd⟩ | ⟨e, hhandle⟩
  · obtain ⟨synced, hprocess, hdb⟩ := process_of_ok hc hhandle
    obtain ⟨-, row, hrow, hwrites⟩ := addNewMessage_writes hfrom.isNew hfrom.old hadd
    have hold : oldRow s₁.db r.msg.id = oldRow s.db r.msg.id := by
      unfold oldRow
      rw [hkeys.messages]
    rw [hfrom.id, hold] at hwrites
    exact .inl ⟨synced, added.convId, row, hprocess, hrow,
      (hwrites.of_messages hkeys.messages).then_messages (by rw [hdb]; rfl)⟩
  · exact .inr ⟨e, process_of_error hc hhandle⟩

theorem process_modified {version : MetaVersion} {decoder : Decoder} {s₁ : State} {cur : MessageRow}
    (hc : r.cancelled = false) (hcur : currentRow s.db r.msg.id = some cur) (hdeleted : r.msg.deleted = false)
    (hread : readMessage P account r s = some (version, decoder, s₁)) :
    ∃ synced, process P account r s = .ok () synced ∧
      Writes r.msg.id (some (cur.merged (oldRow s.db r.msg.id) decoder.message.row))
        (cur.mergedOld (oldRow s.db r.msg.id) decoder.message.row) s.db synced.db := by
  obtain ⟨hid, hold⟩ := key_of_currentRow hcur
  obtain ⟨synced, written, hprocess, hsaved, hwrites⟩ := processLoaded_modified hid hold hcur hdeleted hread
  rw [hsaved.eq_of_fresh] at hwrites
  rw [process_eq_processLoaded P account s hc, MessageDao.load_current, hcur]
  exact ⟨synced, hprocess, hwrites⟩

/-- A request is made of a message with a copy from which it differs. -/
theorem uploadRequest_eq_some {iv : Bytes} {id : IdType} {db : Db} {request : UploadRequest}
    (h : uploadRequest P account iv id db = .ok (some request)) :
    ∃ cur old, currentRow db id = some cur ∧ oldRow db id = some old ∧
      (cur.deleted = true ∧ request = .deleteMessage ⟨id, old.lastModified⟩ ∨
        cur.deleted = false ∧ ∃ metaData, request = .modifyMeta ⟨id, old.lastModified⟩ metaData ∧
          MessageEncryptor.encryptMeta P iv (MessageEncoder.encodeMeta P cur.read cur.done) account.privateDataKey =
            .ok metaData) := by
  unfold uploadRequest at h
  rw [MessageDao.load_current, MessageDao.load_old] at h
  cases hcur : currentRow db id with
  | none =>
    rw [hcur] at h
    cases h
  | some cur =>
    cases hold : oldRow db id with
    | none =>
      rw [hcur, hold] at h
      cases h
    | some old =>
      rw [hcur, hold, Option.map_some, Option.map_some] at h
      dsimp only [MessageDao.ofRow] at h
      rw [(key_of_oldRow hold).1] at h
      refine ⟨cur, old, rfl, rfl, ?_⟩
      split at h
      · cases h
      · cases hdeleted : cur.deleted with
        | true =>
          rw [if_pos hdeleted] at h
          cases h
          exact .inl ⟨rfl, rfl⟩
        | false =>
          rw [if_neg (by simp [hdeleted])] at h
          obtain ⟨metaData, hencrypt, h⟩ := bind_eq_ok.mp h
          cases h
          exact .inr ⟨rfl, metaData, rfl, hencrypt⟩

theorem uploadModification_of_cancelled {u : Upload} (hc : u.cancelled = true) (id : IdType) (s : State) :
    uploadModification P account u id s = .error .syncCanceled s := by
  unfold uploadModification
  rw [if_pos hc]
  exact bind_of_error rfl

theorem uploadModification_of_answer {u : Upload} {id : IdType} {request : UploadRequest} {idlm : IdLastModified}
    (hc : u.cancelled = false) (hrequest : uploadRequest P account u.iv id s.db = .ok (some request))
    (hanswer : u.answer request = .ok idlm) :
    uploadModification P account u id s = handleSuccessfulModification idlm s := by
  unfold uploadModification
  rw [hc]
  simp only [Bool.false_eq_true, if_false, bind_apply, get_apply, hrequest, hanswer]

theorem handleSuccessfulModification_ends (idlm : IdLastModified) (s : State) :
    Ends (handleSuccessfulModification idlm) s
      (fun _ s' => ∃ msg, applyModification idlm s.db = .ok (msg, s'.db)) (fun _ s' => s'.db = s.db) := by
  unfold Ends handleSuccessfulModification
  cases happly : applyModification idlm s.db with
  | error e => rw [bind_of_error (transaction_of_error happly)]
  | ok result =>
    obtain ⟨msg, db⟩ := result
    rw [bind_of_ok (transaction_of_ok happly)]
    cases msg.deleted <;> exact ⟨msg, rfl⟩

/-- Uploading a modification writes what the server answered to the request, or nothing. -/
theorem uploadModification_ends (u : Upload) (id : IdType) (s : State) :
    Ends (uploadModification P account u id) s
      (fun _ s' =>
        (s'.db = s.db ∧ ∀ request, uploadRequest P account u.iv id s.db = .ok (some request) →
          ∃ e, u.answer request = .error e) ∨
        ∃ request idlm msg, uploadRequest P account u.iv id s.db = .ok (some request) ∧ u.answer request = .ok idlm ∧
          applyModification idlm s.db = .ok (msg, s'.db))
      (fun _ s' => s'.db = s.db) := by
  by_cases hc : u.cancelled = true
  · exact Ends.of_eq_error (uploadModification_of_cancelled hc id s) rfl
  · unfold uploadModification
    rw [if_neg hc]
    cases hrequest : uploadRequest P account u.iv id s.db with
    | error e =>
      unfold Ends
      simp only [bind_apply, get_apply, hrequest]
      rfl
    | ok request =>
      cases request with
      | none =>
        unfold Ends
        simp only [bind_apply, pure_apply, get_apply, hrequest]
        refine .inl ⟨trivial, ?_⟩
        intro request hnone
        cases hnone
      | some request =>
        cases hanswer : u.answer request with
        | error e =>
          by_cases he : e = .conflict
          · subst he
            unfold Ends
            simp only [bind_apply, pure_apply, get_apply, hrequest, hanswer]
            refine .inl ⟨trivial, ?_⟩
            intro request' hsame
            cases hsame
            exact ⟨_, hanswer⟩
          · unfold Ends
            simp only [bind_apply, get_apply, hrequest, hanswer]
            cases e <;> first | exact absurd rfl he | rfl
        | ok idlm =>
          unfold Ends
          simp only [bind_apply, get_apply, hrequest, hanswer]
          refine (handleSuccessfulModification_ends idlm s).mono ?_ fun _ _ hsame => hsame
          rintro _ s' ⟨msg, happly⟩
          exact .inr ⟨request, idlm, msg, rfl, hanswer, happly⟩

end MessagesSyncer

end KulloClient
