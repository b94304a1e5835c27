import KulloClient.Sync.MessagesSyncer

/-!
# Skipping messages that cannot be read

A download is compared with one that skips every message whose bytes do not decrypt or decode, whatever the exception:
the timestamp moves past the message, and nothing else is written but the keys that were downloaded for it.
`downloadAndProcessMessages_eq_skipping_iff` says for which pages the two are the same.
-/

namespace KulloClient

namespace MessagesSyncer

open Imperative

variable (P : Platform) (account : Account)

/-! ### Messages that cannot be read -/

/-- Decoding with the answers of the key server: the database with the keys they gave, and what the last attempt
returned. -/
def decoding (decryptedMessage : DecryptedMessage) : List (Except Exn PublicKeyAnswer) → Db → Db × Except Exn Decoder
  | [], db => (db, MessageDecoder.decode P db account.userAddress decryptedMessage)
  | answer :: answers, db =>
    match MessageDecoder.decode P db account.userAddress decryptedMessage with
    | .error .signatureVerificationKeyMissing =>
      match answer, MessageDecoder.senderAddress P db account.userAddress decryptedMessage with
      | .ok keyPair, some address =>
        match storePublicKey address keyPair db with
        | .ok db' => decoding decryptedMessage answers db'
        | .error _ => (db, .error .signatureVerificationKeyMissing)
      | _, _ => (db, .error .signatureVerificationKeyMissing)
    | result => (db, result)

/-- The private key a message names can be loaded, if it is stored. -/
def privateKeyLoads (db : Db) (msg : HttpMessage) : Bool :=
  match getPrivateKey P db .encryption (readUint32 msg.keySafe 0) with
  | .ok _ => true
  | .error e => e.isDatabaseIntegrityError

/-- The stored rows a message is decoded with, its sender and its signature key, can be loaded. -/
def storedRowsLoad (db : Db) (decryptedMessage : DecryptedMessage) : Bool :=
  (match SenderDao.load db decryptedMessage.id with
    | .ok _ => true
    | .error _ => false) &&
  match MessageDecoder.senderAddress P db account.userAddress decryptedMessage with
  | none => true
  | some address =>
    match PublicKeyDao.load db address .signature decryptedMessage.content.sigKeyId with
    | none => true
    | some row =>
      match P.loadPublicKey row.keyData with
      | .ok _ => true
      | .error _ => false

/-- How the bytes of a message refuse to be read: with the exception, and with the keys that were stored before. -/
inductive Refusal
  | undecryptable (e : Exn)
  | undecodable (db : Db) (e : Exn)

/-- What decrypting or decoding a message raises because of its bytes.  A signature key that cannot be had is no fault
of the message, and neither is a stored row that does not load. -/
def refusal (db : Db) (r : Received) : Option Refusal :=
  if r.msg.deleted then none
  else
    match MessageDecryptor.decrypt P db account.privateDataKey r.msg with
    | .error e => if privateKeyLoads P db r.msg then some (.undecryptable e) else none
    | .ok decryptedMessage =>
      match decoding P account decryptedMessage r.answers db with
      | (_, .ok _) => none
      | (_, .error .signatureVerificationKeyMissing) => none
      | (db', .error e) => if storedRowsLoad P account db' decryptedMessage then some (.undecodable db' e) else none

namespace Refusal

def exn : Refusal → Exn
  | undecryptable e => e
  | undecodable _ e => e

/-- The database when the message has been given up. -/
def db (before : Db) : Refusal → Db
  | undecryptable _ => before
  | undecodable db _ => db

/-- The refusals the syncer is prepared for: a private key the client does not have, and the codec's own exceptions
while decoding. -/
def IsExpected (before : Db) (msg : HttpMessage) : Refusal → Prop
  | undecryptable _ => MessageDecryptor.NamesMissingKey before msg
  | undecodable _ e => isSkipped e = true

end Refusal

/-! ### The download that skips -/

/-- What a message that cannot be read is to leave behind. -/
def skip (lastModified : LastModified) (db : Db) : SyncM Unit := do
  modify fun s =>
    { s with db := db, progress := { s.progress with processedMessages := s.progress.processedMessages + 1 } }
  emit [.progressed (← get).progress]
  modify fun s => { s with db := SyncDao.setTimestamp s.db .message lastModified }

/-- `process`, with `skip` for a message that cannot be read. -/
def processSkipping (r : Received) : SyncM Unit := do
  if r.cancelled then throw .syncCanceled
  match refusal P account (← get).db r with
  | some refused => skip r.msg.lastModified (refused.db (← get).db)
  | none => process P account r

def processPageSkipping : List Received → SyncM Unit
  | [] => pure ()
  | r :: rs => do
    processSkipping P account r
    processPageSkipping rs

/-- The state in which the messages of a page are processed. -/
def announced (page : Page) (s : State) : State :=
  let progress := { s.progress with totalMessages := page.countLeft + s.progress.processedMessages }
  { s with progress := progress, events := s.events ++ [.progressed progress] }

/-- `downloadAndProcessMessages`, with `skip` for every message that cannot be read. -/
def downloadSkipping : List (LastModified → Except Exn Page) → SyncM Unit
  | [] => throw .networkError
  | answer :: answers => do
    match answer (SyncDao.timestamp (← get).db .message) with
    | .error e => throw e
    | .ok page => do
      modify (announced page)
      processPageSkipping P account page.messages
      if page.countReturned < page.countLeft then downloadSkipping answers

/-! ### The condition -/

/-- Every message of a page that cannot be read when it is its turn is expected. -/
def PageExpected : List Received → State → Prop
  | [], _ => True
  | r :: rs, s =>
    (r.cancelled = false → ∀ refused ∈ refusal P account s.db r, refused.IsExpected s.db r.msg) ∧
      ∀ s', processSkipping P account r s = .ok () s' → PageExpected rs s'

/-- Every message of the pages that cannot be read when it is its turn is expected. -/
def DownloadExpected : List (LastModified → Except Exn Page) → State → Prop
  | [], _ => True
  | answer :: answers, s =>
    ∀ page, answer (SyncDao.timestamp s.db .message) = .ok page →
      PageExpected P account page.messages (announced page s) ∧
        (page.countReturned < page.countLeft →
          ∀ s', processPageSkipping P account page.messages (announced page s) = .ok () s' →
            DownloadExpected answers s')

/-! ### One message -/

variable {P account}

/-- What `tryDecode` does with an exception other than the missing key. -/
theorem giveUp_apply (e : Exn) (s : State) :
    (if isSkipped e = true then pure none else throw e : SyncM (Option Decoder)) s =
      if isSkipped e then .ok none s else .error e s := by
  split <;> rfl

/-- `tryDecode` gives up with the exception of the last attempt, or skips. -/
theorem tryDecode_of_decoding {decryptedMessage : DecryptedMessage} {answers : List (Except Exn PublicKeyAnswer)}
    {s : State} {db' : Db} {e : Exn} (h : decoding P account decryptedMessage answers s.db = (db', .error e))
    (he : e ≠ .signatureVerificationKeyMissing) :
    tryDecode P account decryptedMessage answers s =
      if isSkipped e then .ok none { s with db := db' } else .error e { s with db := db' } := by
  induction answers generalizing s with
  | nil =>
    obtain ⟨rfl, hdecode⟩ := Prod.mk.inj h
    unfold tryDecode
    simp only [bind_apply, get_apply, hdecode]
    exact giveUp_apply e s
  | cons answer answers ih =>
    unfold decoding at h
    unfold tryDecode
    simp only [bind_apply, get_apply]
    cases hdecode : MessageDecoder.decode P s.db account.userAddress decryptedMessage with
    | ok decoder => simp [hdecode] at h
    | error e' =>
      rw [hdecode] at h
      by_cases hkey : e' = .signatureVerificationKeyMissing
      · subst hkey
        dsimp only at h ⊢
        split at h
        · next keyPair address haddress =>
          split at h
          · next db'' hstore =>
            have hstep : transaction (fun db => do .ok ((), ← storePublicKey address keyPair db)) s =
                .ok () { s with db := db'' } := transaction_of_ok (by rw [hstore]; rfl)
            rw [haddress]
            dsimp only
            rw [bind_of_ok hstep]
            exact ih (s := { s with db := db'' }) h
          · simp_all
        · simp_all
      · split at h
        · simp_all
        · obtain ⟨rfl, hres⟩ := Prod.mk.inj h
          cases hres
          cases e <;> first | exact absurd rfl hkey | exact giveUp_apply _ s

/-- A message that cannot be read is skipped if that is expected, and stops the run otherwise. -/
theorem withDecoder_of_refusal {r : Received} {s : State} {refused : Refusal} (body : Decoder → SyncM Unit)
    (h : refusal P account s.db r = some refused) :
    (refused.IsExpected s.db r.msg → withDecoder P account r body s = .ok () { s with db := refused.db s.db }) ∧
      (¬ refused.IsExpected s.db r.msg →
        withDecoder P account r body s = .error refused.exn { s with db := refused.db s.db }) := by
  unfold refusal at h
  split at h
  · cases h
  unfold withDecoder
  split at h
  -- refused by the decryption: skipped for a missing key only
  · next e hdecrypt =>
    rw [Option.ite_none_right_eq_some, Option.some.injEq] at h
    obtain ⟨-, rfl⟩ := h
    constructor
    · intro hexp
      rw [(MessageDecryptor.decrypt_eq_decryptionKeyMissing_iff P).mpr hexp] at hdecrypt
      cases hdecrypt
      have htry : tryDecrypt P account r.msg s = .ok none s := by
        unfold tryDecrypt
        simp only [bind_apply, get_apply, (MessageDecryptor.decrypt_eq_decryptionKeyMissing_iff P).mpr hexp, pure_apply]
      rw [bind_of_ok htry]
      rfl
    · intro hexp
      have he : e ≠ .decryptionKeyMissing := fun he =>
        hexp ((MessageDecryptor.decrypt_eq_decryptionKeyMissing_iff P).mp (he ▸ hdecrypt))
      have htry : tryDecrypt P account r.msg s = .error e s := by
        unfold tryDecrypt
        simp only [bind_apply, get_apply, hdecrypt]
        cases e <;> first | exact absurd rfl he | rfl
      rw [bind_of_error htry]
      rfl
  · next decryptedMessage hdecrypt =>
    have htry : tryDecrypt P account r.msg s = .ok (some decryptedMessage) s := by
      unfold tryDecrypt
      simp only [bind_apply, get_apply, hdecrypt, pure_apply]
    rw [bind_of_ok htry]
    dsimp only
    split at h
    · cases h
    · cases h
    -- refused by the decoder, once the key of the sender is there
    · next db' e hkey hdecoding =>
      rw [Option.ite_none_right_eq_some, Option.some.injEq] at h
      obtain ⟨-, rfl⟩ := h
      have hdecode := tryDecode_of_decoding hdecoding hkey
      constructor
      · intro hexp
        rw [if_pos (show isSkipped e = true from hexp)] at hdecode
        rw [bind_of_ok hdecode]
        rfl
      · intro hexp
        rw [if_neg (show ¬ isSkipped e = true from hexp)] at hdecode
        rw [bind_of_error hdecode]
        rfl

/-- The step for a message that cannot be read. -/
theorem process_of_refusal {r : Received} {s : State} {refused : Refusal} (hc : r.cancelled = false)
    (h : refusal P account s.db r = some refused) :
    (refused.IsExpected s.db r.msg →
        process P account r s = skip r.msg.lastModified (refused.db s.db) s) ∧
      (¬ refused.IsExpected s.db r.msg →
        process P account r s = .error refused.exn { s with db := refused.db s.db }) := by
  have hdel : r.msg.deleted = false := by
    unfold refusal at h
    split at h
    · cases h
    · next hdel => simpa using hdel
  -- both handlers of a message that is not deleted begin with `withDecoder`
  have hhandle : ∃ body, handle P account r s = withDecoder P account r body s := by
    unfold handle handleLoaded
    rw [bind_of_ok get_apply, hdel]
    cases MessageDao.load s.db r.msg.id false with
    | none => exact ⟨_, rfl⟩
    | some loc => exact ⟨_, rfl⟩
  obtain ⟨body, hbody⟩ := hhandle
  obtain ⟨hok, herror⟩ := withDecoder_of_refusal body h
  unfold process
  rw [hc]
  constructor
  · intro hexp
    simp only [Bool.false_eq_true, if_false]
    rw [bind_of_ok (hbody.trans (hok hexp))]
    rfl
  · intro hexp
    simp only [Bool.false_eq_true, if_false]
    rw [bind_of_error (hbody.trans (herror hexp))]

/-- The database after a skipped message. -/
theorem skip_db (lastModified : LastModified) (db : Db) (s : State) :
    ∃ s', skip lastModified db s = .ok () s' ∧ s'.db = SyncDao.setTimestamp db .message lastModified ∧
      s'.events = s.events ++ [.progressed s'.progress] :=
  ⟨_, rfl, rfl, rfl⟩

private theorem processSkipping_of_refusal {r : Received} {s : State} {refused : Refusal} (hc : r.cancelled = false)
    (h : refusal P account s.db r = some refused) :
    processSkipping P account r s = skip r.msg.lastModified (refused.db s.db) s := by
  unfold processSkipping
  rw [hc]
  simp only [Bool.false_eq_true, if_false]
  rw [bind_of_ok get_apply, h]
  rfl

private theorem processSkipping_of_readable {r : Received} {s : State}
    (h : r.cancelled = true ∨ refusal P account s.db r = none) :
    processSkipping P account r s = process P account r s := by
  by_cases hc : r.cancelled = true
  · unfold processSkipping process
    rw [hc]
    rfl
  · have hnone := h.resolve_left hc
    unfold processSkipping
    rw [Bool.eq_false_iff.mpr hc]
    simp only [Bool.false_eq_true, if_false]
    rw [bind_of_ok get_apply, hnone]

/-! ### Events are never taken back -/

/-- `s'` has all events of `s`, in front. -/
def Follows (s s' : State) : Prop := s.events <+: s'.events

instance : Std.Refl Follows := ⟨fun s => List.prefix_refl s.events⟩

instance : IsTrans State Follows := ⟨fun _ _ _ => List.IsPrefix.trans⟩

private theorem emit_follows (es : List Event) : Along Follows (emit es) :=
  along_modify fun s => List.prefix_append s.events es

private theorem transaction_follows {α : Type} (body : Db → Except Exn (α × Db)) : Along Follows (transaction body) := by
  intro s
  unfold transaction
  rw [ends_bind, ends_get]
  cases body s.db with
  | ok ab => exact List.prefix_refl s.events
  | error e => exact List.prefix_refl s.events

private theorem tryDecrypt_follows (msg : HttpMessage) : Along Follows (tryDecrypt P account msg) := by
  refine along_bind along_get (fun s => ?_)
  split
  · exact along_pure _
  · exact along_pure _
  · exact along_throw _

private theorem giveUp_follows (e : Exn) :
    Along Follows (if isSkipped e = true then pure none else throw e : SyncM (Option Decoder)) := by
  split
  · exact along_pure _
  · exact along_throw _

private theorem tryDecode_follows (m : DecryptedMessage) (answers : List (Except Exn PublicKeyAnswer)) :
    Along Follows (tryDecode P account m answers) := by
  induction answers with
  | nil =>
    refine along_bind along_get (fun s => ?_)
    split
    · exact along_pure _
    · exact along_throw _
    · exact giveUp_follows _
  | cons answer answers ih =>
    refine along_bind along_get (fun s => ?_)
    dsimp only
    split
    · exact along_pure _
    · split
      · exact along_bind (transaction_follows _) (fun _ => ih)
      · exact along_pure _
      · exact along_throw _
      · exact along_throw _
    · exact giveUp_follows _

private theorem withDecoder_follows (r : Received) {body : Decoder → SyncM Unit} (h : ∀ d, Along Follows (body d)) :
    Along Follows (withDecoder P account r body) := by
  refine along_bind (tryDecrypt_follows r.msg) (fun decrypted => ?_)
  split
  · exact along_pure _
  · refine along_bind (tryDecode_follows _ _) (fun decoded => ?_)
    split
    · exact along_pure _
    · exact h _

private theorem handle_follows (r : Received) : Along Follows (handle P account r) := by
  refine along_bind along_get (fun s => ?_)
  unfold handleLoaded
  split
  · exact transaction_follows _
  · refine withDecoder_follows r (fun decoder => along_bind (transaction_follows _) (fun added => ?_))
    exact along_bind (along_modify fun s => List.prefix_refl s.events) (fun _ => emit_follows _)
  · refine along_bind (transaction_follows _) (fun _ => ?_)
    exact along_bind (along_modify fun s => List.prefix_refl s.events) (fun _ => emit_follows _)
  · refine withDecoder_follows r (fun decoder => along_bind (transaction_follows _) (fun merged => ?_))
    have hlast : Along Follows (if merged.stateModified = true then
        emit [.conversationModified merged.msg.conversationId] else pure () : SyncM Unit) := by
      split
      · exact emit_follows _
      · exact along_pure _
    dsimp only
    split
    · refine along_bind (along_modify fun s => List.prefix_refl s.events) (fun _ => ?_)
      exact along_bind (emit_follows _) (fun _ => hlast)
    · exact hlast

private theorem process_follows (r : Received) : Along Follows (process P account r) := by
  unfold process
  dsimp only
  split
  · exact along_throw _
  refine along_bind (handle_follows r) (fun _ => ?_)
  unfold advance
  refine along_bind (along_modify fun s => List.prefix_refl s.events) (fun _ => ?_)
  refine along_bind along_get (fun s => along_bind (emit_follows _) (fun _ => ?_))
  exact along_modify fun s => List.prefix_refl s.events

private theorem skip_follows (lastModified : LastModified) (db : Db) : Along Follows (skip lastModified db) := by
  refine along_bind (along_modify fun s => List.prefix_refl s.events) (fun _ => ?_)
  refine along_bind along_get (fun s => along_bind (emit_follows _) (fun _ => ?_))
  exact along_modify fun s => List.prefix_refl s.events

private theorem processSkipping_follows (r : Received) : Along Follows (processSkipping P account r) := by
  unfold processSkipping
  dsimp only
  split
  · exact along_throw _
  refine along_bind along_get (fun s => ?_)
  split
  · exact along_bind along_get (fun _ => skip_follows _ _)
  · exact process_follows r

private theorem processPageSkipping_follows (rs : List Received) : Along Follows (processPageSkipping P account rs) := by
  induction rs with
  | nil => exact along_pure _
  | cons r rs ih => exact along_bind (processSkipping_follows r) (fun _ => ih)

private theorem downloadSkipping_follows (answers : List (LastModified → Except Exn Page)) :
    Along Follows (downloadSkipping P account answers) := by
  induction answers with
  | nil => exact along_throw _
  | cons answer answers ih =>
    refine along_bind along_get (fun s => ?_)
    split
    · exact along_throw _
    refine along_bind (along_modify fun s => List.prefix_append s.events _) (fun _ => ?_)
    refine along_bind (processPageSkipping_follows _) (fun _ => ?_)
    split
    · exact ih
    · exact along_pure _

/-! ### The run -/

private theorem skip_grows (lastModified : LastModified) (db : Db) (s : State) :
    ∃ s', skip lastModified db s = .ok () s' ∧ s.events.length < s'.events.length := by
  obtain ⟨s', hskip, -, hevents⟩ := skip_db lastModified db s
  exact ⟨s', hskip, by simp [hevents]⟩

/-- A program that moves on from `s` ends with more events than there were before `s`. -/
theorem ends_more {α : Type} {x : SyncM α} (h : Along Follows x) {n : Nat} {s : State} (hn : n < s.events.length) :
    Ends x s (fun _ t => n < t.events.length) (fun _ t => n < t.events.length) :=
  (h s).mono (fun _ _ ht => lt_of_lt_of_le hn ht.length_le) (fun _ _ ht => lt_of_lt_of_le hn ht.length_le)

private theorem process_of_expected {r : Received} {s : State}
    (h : r.cancelled = false → ∀ refused ∈ refusal P account s.db r, refused.IsExpected s.db r.msg) :
    process P account r s = processSkipping P account r s := by
  by_cases hc : r.cancelled = true
  · exact (processSkipping_of_readable (.inl hc)).symm
  have hc' := Bool.eq_false_iff.mpr hc
  cases href : refusal P account s.db r with
  | none => exact (processSkipping_of_readable (.inr href)).symm
  | some refused =>
    rw [processSkipping_of_refusal hc' href]
    exact (process_of_refusal hc' href).1 (h hc' refused href)

private theorem processPage_of_expected {rs : List Received} {s : State} (h : PageExpected P account rs s) :
    processPage P account rs s = processPageSkipping P account rs s := by
  induction rs generalizing s with
  | nil => rfl
  | cons r rs ih =>
    obtain ⟨hr, hrs⟩ := h
    unfold processPage processPageSkipping
    rw [bind_apply, bind_apply, process_of_expected hr]
    cases hrun : processSkipping P account r s with
    | ok a s' => exact ih (hrs s' hrun)
    | error e s' => rfl

/-- A message that cannot be read and is not expected stops the page, at a point the skipping run goes beyond. -/
theorem processPage_of_unexpected {rs : List Received} {s : State} (h : ¬ PageExpected P account rs s) :
    ∃ e s', processPage P account rs s = .error e s' ∧
      Ends (processPageSkipping P account rs) s (fun _ t => s'.events.length < t.events.length)
        (fun _ t => s'.events.length < t.events.length) := by
  induction rs generalizing s with
  | nil => exact absurd trivial h
  | cons r rs ih =>
    unfold processPage processPageSkipping
    simp only [ends_bind]
    by_cases hr : r.cancelled = false → ∀ refused ∈ refusal P account s.db r, refused.IsExpected s.db r.msg
    · -- the run stops after this message, so this one returned
      have hrs : ∃ s', processSkipping P account r s = .ok () s' ∧ ¬ PageExpected P account rs s' := by
        by_contra hnone
        exact h ⟨hr, fun s' hs' => by_contra fun hrs => hnone ⟨s', hs', hrs⟩⟩
      obtain ⟨s₁, hrun, hrs⟩ := hrs
      obtain ⟨e, s', hstop, hends⟩ := ih hrs
      refine ⟨e, s', ?_, ?_⟩
      · rw [bind_apply, process_of_expected hr, hrun]
        exact hstop
      · unfold Ends
        rw [hrun]
        exact hends
    · push Not at hr
      obtain ⟨hc, refused, href, hexp⟩ := hr
      obtain ⟨s₁, hskip, hgrows⟩ := skip_grows r.msg.lastModified (refused.db s.db) s
      refine ⟨refused.exn, { s with db := refused.db s.db }, ?_, ?_⟩
      · rw [bind_apply, (process_of_refusal hc href).2 hexp]
      · unfold Ends
        rw [processSkipping_of_refusal hc href, hskip]
        exact ends_more (processPageSkipping_follows rs) hgrows

private theorem download_of_expected {answers : List (LastModified → Except Exn Page)} {s : State}
    (h : DownloadExpected P account answers s) :
    downloadAndProcessMessages P account answers s = downloadSkipping P account answers s := by
  induction answers generalizing s with
  | nil => rfl
  | cons answer answers ih =>
    unfold downloadAndProcessMessages downloadSkipping
    rw [bind_of_ok get_apply, bind_of_ok get_apply]
    cases hanswer : answer (SyncDao.timestamp s.db .message) with
    | error e => rfl
    | ok page =>
      obtain ⟨hpage, hrest⟩ := h page hanswer
      dsimp only
      change (processPage P account page.messages >>= fun _ => _) (announced page s) =
        (processPageSkipping P account page.messages >>= fun _ => _) (announced page s)
      rw [bind_apply, bind_apply, processPage_of_expected hpage]
      cases hrun : processPageSkipping P account page.messages (announced page s) with
      | error e s' => rfl
      | ok a s' =>
        dsimp only
        by_cases hleft : page.countReturned < page.countLeft
        · rw [if_pos hleft, if_pos hleft]
          exact ih (hrest hleft s' hrun)
        · rw [if_neg hleft, if_neg hleft]

private theorem download_of_unexpected {answers : List (LastModified → Except Exn Page)} {s : State}
    (h : ¬ DownloadExpected P account answers s) :
    ∃ e s', downloadAndProcessMessages P account answers s = .error e s' ∧
      Ends (downloadSkipping P account answers) s (fun _ t => s'.events.length < t.events.length)
        (fun _ t => s'.events.length < t.events.length) := by
  induction answers generalizing s with
  | nil => exact absurd trivial h
  | cons answer answers ih =>
    unfold DownloadExpected at h
    push Not at h
    obtain ⟨page, hanswer, hrest⟩ := h
    unfold downloadAndProcessMessages downloadSkipping
    unfold Ends
    rw [bind_of_ok get_apply, bind_of_ok get_apply, hanswer]
    dsimp only
    by_cases hpage : PageExpected P account page.messages (announced page s)
    · obtain ⟨hleft, s₁, hrun, hlater⟩ := hrest hpage
      obtain ⟨e, s', hstop, hends⟩ := ih hlater
      refine ⟨e, s', ?_, ?_⟩
      · change (processPage P account page.messages >>= fun _ => _) (announced page s) = _
        rw [bind_of_ok ((processPage_of_expected hpage).trans hrun), if_pos hleft]
        exact hstop
      · rw [bind_of_ok (modify_apply _), bind_of_ok hrun, if_pos hleft]
        exact hends
    · obtain ⟨e, s', hstop, hends⟩ := processPage_of_unexpected hpage
      refine ⟨e, s', ?_, ?_⟩
      · change (processPage P account page.messages >>= fun _ => _) (announced page s) = _
        rw [bind_of_error hstop]
      · rw [bind_of_ok (modify_apply _)]
        change Ends (processPageSkipping P account page.messages >>= fun _ => _) (announced page s) _ _
        rw [ends_bind]
        refine hends.mono (fun _ t ht => ?_) (fun _ _ ht => ht)
        split
        · exact ends_more (downloadSkipping_follows answers) ht
        · exact ht

/-- Downloading skips exactly what cannot be read, and goes on, if every such message is expected. -/
theorem downloadAndProcessMessages_eq_skipping_iff (answers : List (LastModified → Except Exn Page)) (s : State) :
    downloadAndProcessMessages P account answers s = downloadSkipping P account answers s ↔
      DownloadExpected P account answers s := by
  refine ⟨fun heq => ?_, download_of_expected⟩
  by_contra h
  obtain ⟨e, s', hstop, hends⟩ := download_of_unexpected h
  unfold Ends at hends
  rw [← heq, hstop] at hends
  exact lt_irrefl _ hends

/-! ### A message that stops the run -/

/-- A page with a message whose key safe is a key id and nothing more, and with a tombstone after it. -/
def shortKeySafePage : Page where
  messages :=
    [{ msg := { id := 1, lastModified := 10, dateReceived := some ⟨some 212286873600, 0⟩
                keySafe := [0, 0, 0, 1], content := [1] } },
      { msg := { id := 2, lastModified := 11, deleted := true } }]
  countReturned := 2
  countLeft := 2

def someAccount : Account where
  userAddress := ⟨"alice", "kullo.net", KulloAddress.alice.validUsername, by decide, by decide, by decide⟩
  privateDataKey := []

/-- The message with the short key safe stops the run: the tombstone behind it is not stored, and the timestamp stays
before the message. -/
theorem download_shortKeySafe :
    downloadAndProcessMessages Platform.transparent someAccount [fun _ => .ok shortKeySafePage] { db := {} } ≠
      downloadSkipping Platform.transparent someAccount [fun _ => .ok shortKeySafePage] { db := {} } := by
  intro h
  have hevents := congrArg (fun result => match result with
    | .ok _ s => s.events.length
    | .error _ s => s.events.length) h
  revert hevents
  decide

end MessagesSyncer

end KulloClient
