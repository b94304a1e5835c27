import KulloClient.ApiImpl.ShadowRows
import KulloClient.Codec.MessageFraming
import KulloClient.Codec.MessageRoundTrip

/-!
# The devices of a user

The states of a message of somebody else are shared by the devices of its user: each device merges what the server has
into its rows, and sends its own states as meta data, which the server accepts only under the last version.  A download,
and an upload with its answer, is one step, in which the device does nothing else to the message.  With its devices a
message is a system of replicas (`Simulates`), so the devices agree after two rounds of syncing (`devices_converge`), and
a state that one device was given and no other device has changed is what all of them end with (`edit_survives`).
-/

namespace KulloClient

open Relational (Table)
open Replication (Replica System)
open Imperative

/-! ### Meta data -/

/-- What is assumed of JSON: meta data that was written is read again, and it is not empty. -/
structure MetaRoundTrips (P : Platform) : Prop where
  json : ∀ read done, JsonRoundTrips P (MessageEncoder.metaJson read done)
  written : ∀ read done, MessageEncoder.encodeMeta P read done ≠ []

namespace MessageDecoder

variable {P : Platform} {user author : KulloAddress}

private theorem parseMeta_encodeMeta (hmeta : MetaRoundTrips P) (hne : author ≠ user) (read done : Bool) :
    parseMeta P user author 1 (MessageEncoder.encodeMeta P read done) = .ok (1, read, done) := by
  have hread : P.readObject (MessageEncoder.encodeMeta P read done) = .ok (MessageEncoder.metaJson read done) :=
    (hmeta.json read done).readObject
  have hflagRead : metaFlag 1 (MessageEncoder.metaJson read done) "read" = .ok read := by cases read <;> rfl
  have hflagDone : metaFlag 1 (MessageEncoder.metaJson read done) "done" = .ok done := by cases done <;> rfl
  unfold parseMeta
  rw [if_neg (Ne.symm hne), if_pos (by decide)]
  dsimp only
  rw [if_neg (by simpa using hmeta.written read done), hread, fwdNested_ok, ok_bind, hflagRead, ok_bind, hflagDone,
    ok_bind]

end MessageDecoder

namespace MessagesSyncer

variable {P : Platform} {account : Account}

/-- Whoever else wrote the message, its meta data is read as these states. -/
def Encodes (P : Platform) (account : Account) (metaData : Bytes) (states : MessageState → Bool) : Prop :=
  ∀ (msg : HttpMessage) (author : KulloAddress), msg.metaData = metaData → author ≠ account.userAddress →
    ∃ version metaText, MessageDecryptor.decryptMeta P msg account.privateDataKey = .ok (version, metaText) ∧
      version ≤ latestMetaVersion ∧
        MessageDecoder.parseMeta P account.userAddress author version metaText =
          .ok (version, states .read, states .done)

/-- What is uploaded. -/
theorem encodes_encryptMeta (hmeta : MetaRoundTrips P) {iv metaData : Bytes}
    (hgcm : GcmRoundTrips P account.privateDataKey iv) (hiv : iv.length = SymmetricCryptor.randomIVBytes)
    {states : MessageState → Bool}
    (hencrypt : MessageEncryptor.encryptMeta P iv (MessageEncoder.encodeMeta P (states .read) (states .done))
      account.privateDataKey = .ok metaData) : Encodes P account metaData states := by
  intro msg author hmsg hne
  have hdecrypt := (MessageDecryptor.decryptMeta_encryptMeta hgcm hiv hencrypt msg hmsg).2
  exact ⟨1, _, hdecrypt, Nat.le_refl 1, MessageDecoder.parseMeta_encodeMeta hmeta hne _ _⟩

/-- The meta data of a message that was read. -/
theorem read_meta {r : Received} {s s' : State} {version : MetaVersion} {decoder : Decoder}
    (h : readMessage P account r s = some (version, decoder, s')) :
    ∃ metaText, MessageDecryptor.decryptMeta P r.msg account.privateDataKey = .ok (version, metaText) ∧
      MessageDecoder.parseMeta P account.userAddress decoder.sender.address version metaText =
        .ok (decoder.message.row.metaVersion, decoder.message.row.state .read, decoder.message.row.state .done) := by
  obtain ⟨-, m, rfl, hdecrypt, hdecode⟩ := readMessage_eq_some h
  refine ⟨m.metaText, ?_, ?_⟩
  · unfold MessageDecryptor.decrypt at hdecrypt
    obtain ⟨_, -, hdecrypt⟩ := bind_eq_ok.mp hdecrypt
    split at hdecrypt
    · cases hdecrypt
    · obtain ⟨keySafe, -, hdecrypt⟩ := bind_eq_ok.mp hdecrypt
      obtain ⟨⟨content, metaVersion, metaText⟩, hboth, hdecrypt⟩ := bind_eq_ok.mp hdecrypt
      cases hdecrypt
      rw [fwdNested_eq_ok] at hboth
      obtain ⟨_, -, hboth⟩ := bind_eq_ok.mp hboth
      obtain ⟨_, hmeta, hboth⟩ := bind_eq_ok.mp hboth
      cases hboth
      exact hmeta
  · obtain ⟨_, _, _, -, -, -, hmeta, rfl⟩ := MessageDecoder.decode_eq_ok.mp hdecode
    exact hmeta

theorem Encodes.read {metaData : Bytes} {states : MessageState → Bool} (h : Encodes P account metaData states)
    {r : Received} {s s' : State} {version : MetaVersion} {decoder : Decoder} (hmsg : r.msg.metaData = metaData)
    (hne : decoder.sender.address ≠ account.userAddress)
    (hread : readMessage P account r s = some (version, decoder, s')) :
    decoder.message.row.metaVersion ≤ latestMetaVersion ∧ decoder.message.row.state = states := by
  obtain ⟨metaText, hdecrypt, hparse⟩ := read_meta hread
  obtain ⟨version', metaText', hdecrypt', hle, hparse'⟩ := h r.msg decoder.sender.address hmsg hne
  rw [hdecrypt] at hdecrypt'
  cases hdecrypt'
  rw [hparse] at hparse'
  obtain ⟨hversion, hstates⟩ := Prod.mk.inj (Except.ok.inj hparse')
  obtain ⟨hread, hdone⟩ := Prod.mk.inj hstates
  refine ⟨hversion ▸ hle, ?_⟩
  funext state
  cases state
  · exact hread
  · exact hdone

end MessagesSyncer

/-! ### The devices and their server -/

/-- A message on the server, and the devices of its user. -/
structure Devices (ι : Type*) where
  msg : HttpMessage
  sessions : ι → ShadowSession

/-- What is done to the message. -/
inductive DeviceAction (ι : Type*)
  | setState (i : ι) (c : MessagesImpl) (state : MessageState) (value : Bool)
  | download (i : ι) (r : MessagesSyncer.Received)
  | upload (i : ι) (u : MessagesSyncer.Upload)

namespace Devices

variable {ι : Type*} [DecidableEq ι] (P : Platform) (account : MessagesSyncer.Account)

/-- The server accepts meta data under the last version, and gives it a later one; an answer can get lost. -/
inductive Answered (msg : HttpMessage) :
    MessagesSyncer.UploadRequest → Except Exn IdLastModified → HttpMessage → Prop
  | refused (request : MessagesSyncer.UploadRequest) (e : Exn) : Answered msg request (.error e) msg
  | accepted (metaData : Bytes) (next : LastModified) (h : msg.lastModified < next)
      (answer : Except Exn IdLastModified) (hanswer : ∀ idlm, answer = .ok idlm → idlm = ⟨msg.id, next⟩) :
      Answered msg (.modifyMeta ⟨msg.id, msg.lastModified⟩ metaData) answer
        { msg with lastModified := next, metaData := metaData }

/-- The request that reaches the server. -/
def asked (d : Devices ι) (i : ι) (u : MessagesSyncer.Upload) : Option MessagesSyncer.UploadRequest :=
  if u.cancelled then none
  else
    match MessagesSyncer.uploadRequest P account u.iv d.msg.id (d.sessions i).db with
    | .ok request => request
    | .error _ => none

/-- The message on the server after an action. -/
def Serves (d : Devices ι) (a : DeviceAction ι) (msg : HttpMessage) : Prop :=
  match a with
  | .setState .. | .download .. => msg = d.msg
  | .upload i u =>
    (asked P account d i u = none ∧ msg = d.msg) ∨
      ∃ request, asked P account d i u = some request ∧ Answered d.msg request (u.answer request) msg

def device : DeviceAction ι → ι
  | .setState i .. | .download i _ | .upload i _ => i

def op (d : Devices ι) : DeviceAction ι → ShadowOp
  | .setState _ c state value => .setState c state d.msg.id value
  | .download _ r => .process r
  | .upload _ u => .uploadModification u d.msg.id

def Step (d : Devices ι) (a : DeviceAction ι) (d' : Devices ι) : Prop :=
  ∃ s', ShadowSession.Step P account (d.sessions (device a)) (d.op a) s' ∧
    d'.sessions = Function.update d.sessions (device a) s' ∧ Serves P account d a d'.msg

/-- What is asked of a step: the user is shown the message as it is stored; the message is downloaded as the server has
it, and it is not the user's own; an initialization vector is random, and an answer is about the message. -/
def guard (d : Devices ι) (a : DeviceAction ι) : Prop :=
  match a with
  | .setState i c _ _ => ShadowSession.Shows c (d.sessions i).db d.msg.id
  | .download i r => r.msg = d.msg ∧
      ∀ version decoder s', MessagesSyncer.readMessage P account r (d.sessions i).syncer = some (version, decoder, s') →
        decoder.sender.address ≠ account.userAddress
  | .upload _ u => u.iv.length = SymmetricCryptor.randomIVBytes ∧ GcmRoundTrips P account.privateDataKey u.iv ∧
      ∀ request idlm, u.answer request = .ok idlm → idlm.id = d.msg.id

/-- The meta versions of the rows of a message are supported. -/
def Supported (s : ShadowSession) (id : IdType) : Prop :=
  ∀ row, currentRow s.db id = some row ∨ oldRow s.db id = some row → row.metaVersion ≤ latestMetaVersion

/-- Devices of which each has the message in a version the server gave it, or not at all. -/
structure Shared (d : Devices ι) : Prop where
  deleted : d.msg.deleted = false
  shadowed : ∀ i, (d.sessions i).Shadowed
  supported : ∀ i, Supported (d.sessions i) d.msg.id
  alive : ∀ i cur, currentRow (d.sessions i).db d.msg.id = some cur → cur.deleted = false
  readable : ∃ record, MessagesSyncer.Encodes P account d.msg.metaData record ∧
    ∀ i version, (d.sessions i).versions d.msg.id = some version →
      version.lastModified ≤ d.msg.lastModified ∧
        (version.lastModified = d.msg.lastModified → version.states = some record)

/-! ### Syncing -/

/-- A device downloads the message, or has it already. -/
def Downloaded (i : ι) (d d' : Devices ι) : Prop :=
  (d' = d ∧ ∃ version, (d.sessions i).versions d.msg.id = some version ∧ version.lastModified = d.msg.lastModified) ∨
    ∃ r, guard P account d (.download i r) ∧ Step P account d (.download i r) d' ∧
      ((d.sessions i).received P account r).isSome = true

/-- A device uploads its states, if the message is listed as modified and they differ from the last version. -/
def Uploaded (i : ι) (d d' : Devices ι) : Prop :=
  (d' = d ∧ d.msg.id ∉ MessageDao.locallyModifiedMessages (d.sessions i).db latestMetaVersion) ∨
    ∃ u, guard P account d (.upload i u) ∧ Step P account d (.upload i u) d' ∧
      (MessagesSyncer.uploadRequest P account u.iv d.msg.id (d.sessions i).db = .ok none ∨
        ((d.sessions i).accepted P account u d.msg.id).isSome = true)

def Synced (i : ι) (d d' : Devices ι) : Prop := ∃ d₁, Downloaded P account i d d₁ ∧ Uploaded P account i d₁ d'

/-- The devices sync one after the other. -/
def SyncedAll : List ι → Devices ι → Devices ι → Prop
  | [], d, d' => d' = d
  | i :: is, d, d' => ∃ d₁, Synced P account i d d₁ ∧ SyncedAll is d₁ d'

/-! ### The rows of a device -/

section

variable {P : Platform} {account : MessagesSyncer.Account} {s s' : ShadowSession} {id : IdType}

theorem Supported.writes {row : MessageRow} {old : Option MessageRow} (hwrites : Writes id (some row) old s.db s'.db)
    (hrow : row.metaVersion ≤ latestMetaVersion) (hold : ∀ o, old = some o → o.metaVersion ≤ latestMetaVersion) :
    Supported s' id := by
  intro r hr
  rw [hwrites.current_self, hwrites.old_self] at hr
  rcases hr with hr | hr
  · cases hr
    exact hrow
  · exact hold r hr

theorem Supported.same (h : Supported s id) (hdb : s'.db.messages = s.db.messages) : Supported s' id := by
  intro r hr
  unfold currentRow oldRow at hr
  rw [hdb] at hr
  exact h r hr

theorem Supported.setState (h : Supported s id) {c : MessagesImpl} (hshows : ShadowSession.Shows c s.db id)
    (state : MessageState) (value : Bool) (hdb : s'.db = (c.setState s.db state id value).2.db) : Supported s' id := by
  rcases MetaSession.setState_writes s.db state value hshows.loaded with
    ⟨hsame, -, -⟩ | ⟨-, dao, saved, hfind, -, -, hrow, -, hwrites⟩
  · exact h.same (by rw [hdb, hsame])
  · obtain ⟨row, lastModified, hcur, rfl⟩ := hshows.stored dao hfind
    rw [hcur, Option.map_some, Option.map_some, hrow, ← hdb] at hwrites
    refine .writes hwrites ?_ ?_
    · rw [(MetaSession.withState_keeps _ state value).2.2]
      exact h row (.inl hcur)
    · intro o ho
      rcases ShadowSession.or_asOld ho with hold | ⟨-, rfl⟩
      · exact h o (.inr hold)
      · exact h row (.inl hcur)

theorem Supported.process (h : Supported s id) (hshadowed : s.Shadowed) {r : MessagesSyncer.Received} (hid : r.msg.id = id)
    (hdeleted : r.msg.deleted = false)
    (hread : ∀ version decoder read, MessagesSyncer.readMessage P account r s.syncer = some (version, decoder, read) →
      decoder.message.row.metaVersion ≤ latestMetaVersion)
    (hdb : s'.db = (final (MessagesSyncer.process P account r s.syncer)).db) : Supported s' id := by
  subst hid
  cases hc : r.cancelled with
  | true =>
    rw [MessagesSyncer.process_of_cancelled hc, final] at hdb
    exact h.same (by rw [hdb])
  | false =>
    cases hdecoded : MessagesSyncer.readMessage P account r s.syncer with
    | none =>
      -- a message that cannot be read changes nothing
      have hunread : Ends (MessagesSyncer.process P account r) s.syncer _ _ :=
        MessagesSyncer.process_unread hdeleted hdecoded
      cases hprocess : MessagesSyncer.process P account r s.syncer with
      | ok u synced =>
        have hsame := ends_of_ok hunread hprocess
        rw [hprocess, final] at hdb
        exact h.same (hdb ▸ hsame)
      | error e synced =>
        have hsame := ends_of_error hunread hprocess
        rw [hprocess, final] at hdb
        exact h.same (hdb ▸ hsame)
    | some read =>
      obtain ⟨version, decoder, read⟩ := read
      have hversion := hread version decoder read hdecoded
      cases hcur : currentRow s.db r.msg.id with
      | none =>
        rcases MessagesSyncer.process_new hc hcur hdeleted hdecoded with
          ⟨synced, convId, row, hprocess, hrow, hwrites⟩ | ⟨e, hprocess⟩
        · rw [hprocess, final] at hdb
          rw [(hshadowed.absent r.msg.id hcur).2, Option.none_or, ← hdb] at hwrites
          -- a new row has the version of the message that was read
          have hrow' : row.metaVersion ≤ latestMetaVersion := by
            rw [hrow]
            exact hversion
          refine .writes hwrites (max_le (Nat.le_refl _) hrow') ?_
          intro o ho
          split at ho
          · cases ho
            exact hrow'
          · cases ho
        · rw [hprocess, final] at hdb
          exact h.same (by rw [hdb, (MessagesSyncer.readMessage_eq_some hdecoded).1.messages])
      | some cur =>
        obtain ⟨synced, hprocess, hwrites⟩ := MessagesSyncer.process_modified hc hcur hdeleted hdecoded
        rw [hprocess, final] at hdb
        rw [← hdb] at hwrites
        refine .writes hwrites (h cur (.inl hcur)) ?_
        intro o ho
        obtain ⟨o', ho', hmerged⟩ := Option.bind_eq_some_iff.mp ho
        split at hmerged
        · cases hmerged
        · cases hmerged
          exact h o' (.inr ho')

theorem Supported.uploadModification (h : Supported s id) {u : MessagesSyncer.Upload}
    (hguard : ShadowSession.guard s (.uploadModification u id))
    (hdb : s'.db = (final (MessagesSyncer.uploadModification P account u id s.syncer)).db) : Supported s' id := by
  have hends : Ends (MessagesSyncer.uploadModification P account u id) s.syncer _ _ :=
    MessagesSyncer.uploadModification_ends u id s.syncer
  cases hupload : MessagesSyncer.uploadModification P account u id s.syncer with
  | error e synced =>
    have hsame := ends_of_error hends hupload
    rw [hupload, final, hsame] at hdb
    exact h.same (by rw [hdb])
  | ok result synced =>
    rw [hupload, final] at hdb
    rcases ends_of_ok hends hupload with ⟨hsame, -⟩ | ⟨request, idlm, msg, -, hanswer, happly⟩
    · exact h.same (by rw [hdb, hsame])
    · obtain ⟨cur, messages, hcur, hmsg, -, hwrites⟩ := MessagesSyncer.applyModification_writes happly
      rw [← hdb, hguard request idlm hanswer] at hwrites
      rw [hguard request idlm hanswer] at hcur
      refine .writes hwrites ?_ (fun _ ho => by cases ho)
      rw [hmsg]
      exact h cur (.inl hcur)

/-- The replica of a device: a device without the message has nothing to say. -/
structure Replicated (s : ShadowSession) (id : IdType) (replica : Replica MessageState Bool) (seen : Nat) : Prop where
  shadowed : s.Shadowed
  supported : Supported s id
  copy : (s.view id = .absent ∧ replica.Clean) ∨
    (s.view id = .alive replica ∧ ∃ version, s.versions id = some version ∧ version.lastModified = seen)

variable {replica : Replica MessageState Bool} {seen : Nat}

theorem Replicated.same (h : Replicated s id replica seen) (hdb : s'.db.messages = s.db.messages)
    (hversions : s'.versions = s.versions) : Replicated s' id replica seen := by
  obtain ⟨hinv, hview⟩ := h.shadowed.same hdb hversions
  refine ⟨hinv, h.supported.same hdb, ?_⟩
  rw [hview, hversions]
  exact h.copy

/-- The replica that is stored. -/
theorem copy_of_view {replica : Replica MessageState Bool} (h : s.view id = .alive replica) :
    ∃ cur version, currentRow s.db id = some cur ∧ s.versions id = some version ∧
      version.states = some replica.base ∧ cur.deleted = false ∧ cur.state = replica.mine := by
  unfold ShadowSession.view at h
  cases hcur : currentRow s.db id with
  | none =>
    rw [hcur] at h
    cases h
  | some cur =>
    cases hversion : s.versions id with
    | none =>
      rw [hcur, hversion] at h
      cases h
    | some version =>
      obtain ⟨lastModified, states⟩ := version
      cases states with
      | none =>
        rw [hcur, hversion] at h
        cases h
      | some base =>
        rw [hcur, hversion] at h
        unfold ShadowSession.copyOf at h
        dsimp only at h
        split at h
        · cases h
        · next halive =>
          cases h
          exact ⟨cur, _, rfl, rfl, rfl, Bool.eq_false_of_not_eq_true halive, rfl⟩

private theorem row_of_absent (h : s.view id = .absent) : currentRow s.db id = none := by
  unfold ShadowSession.view at h
  cases hcur : currentRow s.db id with
  | none => rfl
  | some cur =>
    rw [hcur] at h
    generalize s.versions id = version at h
    rcases version with _ | ⟨lastModified, _ | base⟩
    · cases h
    · cases h
    · unfold ShadowSession.copyOf at h
      dsimp only at h
      split at h <;> cases h

theorem Replicated.setState (h : Replicated s id replica seen) {c : MessagesImpl} (hshows : ShadowSession.Shows c s.db id)
    {state : MessageState} {value : Bool} (hstep : ShadowSession.Step P account s (.setState c state id value) s') :
    Replicated s' id replica seen ∨ Replicated s' id (replica.edit state value) seen := by
  cases hstep
  generalize hs' : ({ s with db := (c.setState s.db state id value).2.db } : ShadowSession) = s'
  have hdb : s'.db = (c.setState s.db state id value).2.db := by rw [← hs']
  have hversions : s'.versions = s.versions := by rw [← hs']
  obtain ⟨hinv, hview⟩ := h.shadowed.setState hshows state value hdb hversions
  have hsupported := h.supported.setState hshows state value hdb
  have hself := hview id
  by_cases hcond : id = id ∧ id ≤ idMax ∧ (c.messages.find? id).isSome = true
  · rw [if_pos hcond] at hself
    refine .inr ⟨hinv, hsupported, ?_⟩
    rcases h.copy with ⟨habsent, -⟩ | ⟨halive, hversion⟩
    · -- what is not stored is not shown
      obtain ⟨dao, hdao⟩ := Option.isSome_iff_exists.mp hcond.2.2
      obtain ⟨row, lastModified, hrow, -⟩ := hshows.stored dao hdao
      rw [row_of_absent habsent] at hrow
      cases hrow
    · rw [halive] at hself
      rw [hversions]
      exact .inr ⟨hself, hversion⟩
  · rw [if_neg hcond] at hself
    refine .inl ⟨hinv, hsupported, ?_⟩
    rw [hself, hversions]
    exact h.copy

/-- The message is downloaded as the server has it. -/
theorem Replicated.process (h : Replicated s id replica seen) {r : MessagesSyncer.Received} (hid : r.msg.id = id)
    (hdeleted : r.msg.deleted = false) {record : MessageState → Bool}
    (hrecord : MessagesSyncer.Encodes P account r.msg.metaData record)
    (hothers : ∀ version decoder read, MessagesSyncer.readMessage P account r s.syncer = some (version, decoder, read) →
      decoder.sender.address ≠ account.userAddress)
    (hstep : ShadowSession.Step P account s (.process r) s') :
    (s.received P account r = none ∧ Replicated s' id replica seen) ∨
      Replicated s' id (replica.pull record) r.msg.lastModified ∧ s'.view id = .alive (replica.pull record) := by
  subst hid
  cases hstep
  generalize hs' : ({ s with
    db := (final (MessagesSyncer.process P account r s.syncer)).db
    versions := s.known r.msg.id (s.received P account r) } : ShadowSession) = s'
  have hdb : s'.db = (final (MessagesSyncer.process P account r s.syncer)).db := by rw [← hs']
  have hversions : s'.versions = s.known r.msg.id (s.received P account r) := by rw [← hs']
  -- the last version of a copy that is there is no deletion
  have hguard : ShadowSession.guard s (.process r) := by
    intro _ version hversion
    rcases h.copy with ⟨habsent, -⟩ | ⟨halive, -⟩
    · rw [(h.shadowed.absent _ (row_of_absent habsent)).1] at hversion
      cases hversion
    · obtain ⟨_, version', -, hversion', hstates, -⟩ := copy_of_view halive
      rw [hversion] at hversion'
      cases hversion'
      rw [hstates]
      rfl
  obtain ⟨hinv, hview⟩ := h.shadowed.process hguard hdb hversions
  have hsupported : Supported s' r.msg.id := by
    refine h.supported.process h.shadowed rfl hdeleted ?_ hdb
    intro version decoder read hread
    exact (hrecord.read rfl (hothers version decoder read hread) hread).1
  have hself := hview r.msg.id
  rw [if_pos rfl] at hself
  cases hreceived : s.received P account r with
  | none =>
    rw [hreceived] at hself hversions
    have hsame : s'.versions = s.versions := hversions
    refine .inl ⟨rfl, hinv, hsupported, ?_⟩
    rw [hself, hsame]
    exact h.copy
  | some version =>
    have hversion : version = ⟨r.msg.lastModified, some record⟩ := by
      cases hprocess : MessagesSyncer.process P account r s.syncer with
      | error e synced =>
        rw [ShadowSession.received_of_error hprocess] at hreceived
        cases hreceived
      | ok u synced =>
        rw [ShadowSession.received_of_not_deleted hprocess hdeleted] at hreceived
        obtain ⟨⟨metaVersion, decoder, read⟩, hread, hsome⟩ := Option.map_eq_some_iff.mp hreceived
        rw [← hsome]
        dsimp only
        rw [(hrecord.read rfl (hothers _ _ _ hread) hread).2]
    rw [hreceived, hversion] at hself hversions
    -- in the terms of the replicas: a pull of the record
    have hpulled : s'.view r.msg.id = .alive (replica.pull record) := by
      rw [hself]
      rcases h.copy with ⟨habsent, hclean⟩ | ⟨halive, -⟩
      · rw [habsent]
        have hfresh : replica.pull record = .fresh record := Replica.ext rfl (hclean.pull record)
        rw [hfresh]
        rfl
      · rw [halive]
        rfl
    refine .inr ⟨⟨hinv, hsupported, .inr ⟨hpulled, ⟨r.msg.lastModified, some record⟩, ?_, rfl⟩⟩, hpulled⟩
    rw [hversions]
    exact Function.update_self _ _ _

/-- What a device asks the server for. -/
theorem Replicated.request (h : Replicated s id replica seen) {iv : Bytes} {request : MessagesSyncer.UploadRequest}
    (hrequest : MessagesSyncer.uploadRequest P account iv id s.db = .ok (some request)) :
    s.view id = .alive replica ∧ ∃ metaData, request = .modifyMeta ⟨id, seen⟩ metaData ∧
      MessageEncryptor.encryptMeta P iv (MessageEncoder.encodeMeta P (replica.mine .read) (replica.mine .done))
        account.privateDataKey = .ok metaData := by
  obtain ⟨cur, old, hcur, hold, hkind⟩ := MessagesSyncer.uploadRequest_eq_some hrequest
  rcases h.copy with ⟨habsent, -⟩ | ⟨halive, version, hversion, hseen⟩
  · rw [row_of_absent habsent] at hcur
    cases hcur
  · refine ⟨halive, ?_⟩
    obtain ⟨cur', version', hcur', hversion', -, hdeleted, hmine⟩ := copy_of_view halive
    rw [hcur] at hcur'
    cases hcur'
    obtain ⟨version'', hversion'', hshadow⟩ := h.shadowed.stored id cur hcur
    rw [hversion] at hversion''
    cases hversion''
    rcases hkind with ⟨hdead, -⟩ | ⟨-, metaData, hmodify, hencrypt⟩
    · rw [hdeleted] at hdead
      cases hdead
    · rw [hshadow.copied old hold, hseen] at hmodify
      refine ⟨metaData, hmodify, ?_⟩
      rw [← hmine]
      exact hencrypt

/-- The device learns that its states were accepted, or nothing happens to it. -/
theorem Replicated.uploadModification (h : Replicated s id replica seen) {u : MessagesSyncer.Upload}
    (hguard : ShadowSession.guard s (.uploadModification u id))
    (hstep : ShadowSession.Step P account s (.uploadModification u id) s') :
    (s.accepted P account u id = none ∧ Replicated s' id replica seen) ∨
      ∃ request idlm, s.accepted P account u id = some (request, idlm) ∧
        (s.view id = .alive replica → Replicated s' id replica.push idlm.lastModified) := by
  cases hstep
  generalize hs' : ({ s with
    db := (final (MessagesSyncer.uploadModification P account u id s.syncer)).db
    versions := s.known id ((s.accepted P account u id).map fun r =>
      ShadowSession.uploadedVersion s.db id r.2.lastModified r.1) } : ShadowSession) = s'
  have hdb : s'.db = (final (MessagesSyncer.uploadModification P account u id s.syncer)).db := by rw [← hs']
  have hversions : s'.versions = s.known id ((s.accepted P account u id).map fun r =>
      ShadowSession.uploadedVersion s.db id r.2.lastModified r.1) := by rw [← hs']
  obtain ⟨hinv, hview⟩ := h.shadowed.uploadModification hguard hdb hversions
  have hsupported := h.supported.uploadModification hguard hdb
  have hself := hview id
  cases haccepted : s.accepted P account u id with
  | none =>
    rw [haccepted] at hself hversions
    have hsame : s'.versions = s.versions := hversions
    rw [if_neg (fun hboth => Bool.false_ne_true hboth.2)] at hself
    refine .inl ⟨rfl, hinv, hsupported, ?_⟩
    rw [hself, hsame]
    exact h.copy
  | some result =>
    obtain ⟨request, idlm⟩ := result
    rw [haccepted] at hself hversions
    rw [if_pos ⟨rfl, rfl⟩] at hself
    refine .inr ⟨request, idlm, rfl, ?_⟩
    intro halive
    rw [halive] at hself
    refine ⟨hinv, hsupported, .inr ⟨hself, ShadowSession.uploadedVersion s.db id idlm.lastModified request, ?_, ?_⟩⟩
    · rw [hversions]
      exact Function.update_self _ _ _
    · cases request <;> rfl

private theorem accepted_eq_some {u : MessagesSyncer.Upload} {request : MessagesSyncer.UploadRequest} {idlm : IdLastModified}
    (h : s.accepted P account u id = some (request, idlm)) :
    u.cancelled = false ∧ MessagesSyncer.uploadRequest P account u.iv id s.db = .ok (some request) ∧
      u.answer request = .ok idlm := by
  unfold ShadowSession.accepted at h
  split at h
  · next hupload hrequest =>
    split at h
    · next hanswer =>
      cases h
      refine ⟨?_, hrequest, hanswer⟩
      cases hc : u.cancelled with
      | false => rfl
      | true =>
        rw [MessagesSyncer.uploadModification_of_cancelled hc] at hupload
        cases hupload
    · cases h
  · cases h

/-! ### The simulation -/

variable (P account)

/-- The devices and the server as a system of replicas. -/
structure Simulates (d : Devices ι) (a : System ι MessageState Bool) : Prop where
  inv : a.Inv
  version : a.version = d.msg.lastModified
  deleted : d.msg.deleted = false
  record : MessagesSyncer.Encodes P account d.msg.metaData a.record
  replicas : ∀ i, Replicated (d.sessions i) d.msg.id (a.replicas i) (a.seen i)

variable {P account} {d d' : Devices ι} {a a' : System ι MessageState Bool}

/-- The replicas after one of them changed. -/
theorem Simulates.update (h : Simulates P account d a) {i : ι} {session : ShadowSession}
    {r : Replica MessageState Bool} {n : Nat} (hself : Replicated session d.msg.id r n) (j : ι) :
    Replicated (Function.update d.sessions i session j) d.msg.id (Function.update a.replicas i r j)
      (Function.update a.seen i n j) := by
  by_cases hj : j = i
  · subst hj
    rw [Function.update_self, Function.update_self, Function.update_self]
    exact hself
  · rw [Function.update_of_ne hj, Function.update_of_ne hj, Function.update_of_ne hj]
    exact h.replicas j

/-- Only the device knows of what was done. -/
theorem Simulates.unchanged (h : Simulates P account d a) {i : ι} {session : ShadowSession}
    (hself : Replicated session d.msg.id (a.replicas i) (a.seen i))
    (hsessions : d'.sessions = Function.update d.sessions i session) (hmsg : d'.msg = d.msg) :
    Simulates P account d' a := by
  refine ⟨h.inv, by rw [hmsg, h.version], by rw [hmsg, h.deleted], by rw [hmsg]; exact h.record, ?_⟩
  intro j
  have hj := h.update (i := i) hself j
  rw [Function.update_eq_self, Function.update_eq_self] at hj
  rw [hmsg, hsessions]
  exact hj

theorem Simulates.setState (h : Simulates P account d a) {i : ι} {c : MessagesImpl} {state : MessageState} {value : Bool}
    (hguard : guard P account d (.setState i c state value)) (hstep : Step P account d (.setState i c state value) d') :
    ∃ a', (a' = a ∨ System.Step a (.edit i state value) a') ∧ Simulates P account d' a' := by
  obtain ⟨session, hop, hsessions, hmsg⟩ := hstep
  rcases (h.replicas i).setState hguard hop with hself | hself
  · exact ⟨a, .inl rfl, h.unchanged hself hsessions hmsg⟩
  · refine ⟨_, .inr rfl, ?_, ?_, ?_, ?_, ?_⟩
    · exact h.inv.step (a := .edit i state value) rfl
    · exact h.version.trans (by rw [hmsg])
    · rw [hmsg]
      exact h.deleted
    · rw [hmsg]
      exact h.record
    · intro j
      have hj := h.update (i := i) hself j
      rw [Function.update_eq_self i a.seen] at hj
      rw [hmsg, hsessions]
      exact hj

theorem Simulates.download (h : Simulates P account d a) {i : ι} {r : MessagesSyncer.Received}
    (hguard : guard P account d (.download i r)) (hstep : Step P account d (.download i r) d') :
    ((d.sessions i).received P account r = none ∧ Simulates P account d' a) ∨
      ∃ a', System.Step a (.pull i) a' ∧ Simulates P account d' a' ∧
        (d'.sessions i).view d.msg.id = .alive (a'.replicas i) := by
  obtain ⟨session, hop, hsessions, hmsg⟩ := hstep
  obtain ⟨hr, hothers⟩ := hguard
  have hrecord : MessagesSyncer.Encodes P account r.msg.metaData a.record := hr ▸ h.record
  rcases (h.replicas i).process (congrArg HttpMessage.id hr) (hr ▸ h.deleted) hrecord hothers hop with
    ⟨hreceived, hself⟩ | ⟨hself, hview⟩
  · exact .inl ⟨hreceived, h.unchanged hself hsessions hmsg⟩
  · refine .inr ⟨_, rfl, ⟨?_, ?_, ?_, ?_, ?_⟩, ?_⟩
    · exact h.inv.step (a := .pull i) rfl
    · exact h.version.trans (by rw [hmsg])
    · rw [hmsg]
      exact h.deleted
    · rw [hmsg]
      exact h.record
    · intro j
      rw [hr, ← h.version] at hself
      have hj := h.update (i := i) hself j
      rw [hmsg, hsessions]
      exact hj
    · rw [hsessions]
      dsimp only [device]
      rw [Function.update_self, System.setReplica_self]
      exact hview

omit [DecidableEq ι] in
private theorem asked_eq_some {i : ι} {u : MessagesSyncer.Upload} {request : MessagesSyncer.UploadRequest}
    (h : asked P account d i u = some request) :
    MessagesSyncer.uploadRequest P account u.iv d.msg.id (d.sessions i).db = .ok (some request) := by
  unfold asked at h
  split at h
  · cases h
  · split at h
    · next result hrequest =>
      rw [hrequest, h]
    · cases h

omit [DecidableEq ι] in
/-- A device learns only what it has asked for. -/
theorem asked_of_accepted {i : ι} {u : MessagesSyncer.Upload} {request : MessagesSyncer.UploadRequest}
    {idlm : IdLastModified} (h : (d.sessions i).accepted P account u d.msg.id = some (request, idlm)) :
    asked P account d i u = some request ∧ u.answer request = .ok idlm := by
  obtain ⟨hc, hrequest, hanswer⟩ := accepted_eq_some h
  refine ⟨?_, hanswer⟩
  unfold asked
  rw [if_neg (by simp [hc]), hrequest]

/-- An upload is a push, a push without an answer, or nothing. -/
theorem Simulates.upload (hmeta : MetaRoundTrips P) (h : Simulates P account d a) {i : ι} {u : MessagesSyncer.Upload}
    (hguard : guard P account d (.upload i u)) (hstep : Step P account d (.upload i u) d') :
    ((d.sessions i).accepted P account u d.msg.id = none ∧ ∃ a', (a' = a ∨ ∃ v, System.Step a (.lost i v) a') ∧
        Simulates P account d' a') ∨
      ∃ v a', System.Step a (.push i v) a' ∧ Simulates P account d' a' := by
  obtain ⟨session, hop, hsessions, hserves⟩ := hstep
  obtain ⟨hiv, hgcm, hid⟩ := hguard
  have hreplica := (h.replicas i).uploadModification hid hop
  rcases hserves with ⟨hasked, hmsg⟩ | ⟨request, hasked, hanswered⟩
  · -- nothing reaches the server
    rcases hreplica with ⟨haccepted, hself⟩ | ⟨request, idlm, haccepted, -⟩
    · exact .inl ⟨haccepted, a, .inl rfl, h.unchanged hself hsessions hmsg⟩
    · rw [(asked_of_accepted haccepted).1] at hasked
      cases hasked
  · generalize hanswer : u.answer request = answer at hanswered
    generalize hmsg : d'.msg = msg at hanswered
    cases hanswered with
    | refused _ e =>
      rcases hreplica with ⟨haccepted, hself⟩ | ⟨request', idlm, haccepted, -⟩
      · exact .inl ⟨haccepted, a, .inl rfl, h.unchanged hself hsessions hmsg⟩
      · obtain ⟨hasked', hanswer'⟩ := asked_of_accepted haccepted
        rw [hasked] at hasked'
        cases hasked'
        rw [hanswer] at hanswer'
        cases hanswer'
    | accepted metaData next hlt _ hidlm =>
      obtain ⟨halive, metaData', hmodify, hencrypt⟩ := (h.replicas i).request (asked_eq_some hasked)
      obtain ⟨hversion, rfl⟩ := MessagesSyncer.UploadRequest.modifyMeta.inj hmodify
      have hseen : a.seen i = a.version := by
        rw [h.version]
        exact (congrArg IdLastModified.lastModified hversion).symm
      have hrecord := MessagesSyncer.encodes_encryptMeta hmeta hgcm hiv hencrypt
      have hnext : a.version < next := h.version ▸ hlt
      rcases hreplica with ⟨haccepted, hself⟩ | ⟨request', idlm, haccepted, hself⟩
      · -- the answer is lost
        have hlost : System.Step a (.lost i next) { a with version := next, record := (a.replicas i).mine } :=
          ⟨hnext, hseen, rfl⟩
        refine .inl ⟨haccepted, _, .inr ⟨next, hlost⟩, h.inv.step hlost, ?_, ?_, ?_, ?_⟩
        · rw [hmsg]
        · rw [hmsg]
          exact h.deleted
        · rw [hmsg]
          exact hrecord
        · intro j
          have hj := h.update (i := i) hself j
          rw [Function.update_eq_self, Function.update_eq_self] at hj
          rw [hmsg, hsessions]
          exact hj
      · obtain ⟨hasked', hanswer'⟩ := asked_of_accepted haccepted
        rw [hasked] at hasked'
        cases hasked'
        have hnew : idlm = ⟨d.msg.id, next⟩ := hidlm idlm (hanswer.symm.trans hanswer')
        have hself := hself halive
        rw [hnew] at hself
        refine .inr ⟨next, _, ⟨hnext, hseen, rfl⟩, ?_, ?_, ?_, ?_, ?_⟩
        · exact h.inv.step (a := .push i next) ⟨hnext, hseen, rfl⟩
        · rw [hmsg]
        · rw [hmsg]
          exact h.deleted
        · rw [hmsg]
          exact hrecord
        · intro j
          rw [hmsg, hsessions]
          exact h.update (i := i) hself j

/-! ### Runs -/

/-- Every run of the devices is one of the replicas. -/
theorem Simulates.reaches (ok : DeviceAction ι → Prop) (ok' : Replication.Action ι MessageState Bool → Prop)
    (hedit : ∀ i c state value, ok (.setState i c state value) → ok' (.edit i state value))
    (hsync : ∀ i v, ok' (.pull i) ∧ ok' (.push i v) ∧ ok' (.lost i v)) (hmeta : MetaRoundTrips P)
    (h : Simulates P account d a)
    (hrun : Transition.Reaches (Step P account) (fun d act => guard P account d act ∧ ok act) d d') :
    ∃ a', Transition.Reaches System.Step (fun _ act => ok' act) a a' ∧ Simulates P account d' a' := by
  refine Transition.Reaches.keeps (I := fun d' => ∃ a', Transition.Reaches System.Step (fun _ act => ok' act) a a' ∧
    Simulates P account d' a') ?_ hrun ⟨a, .refl, h⟩
  rintro d act d' ⟨a', hreach, hsim⟩ ⟨hguard, hok⟩ hstep
  cases act with
  | setState i c state value =>
    obtain ⟨a'', hedited, hsim'⟩ := hsim.setState hguard hstep
    rcases hedited with rfl | hedited
    · exact ⟨a'', hreach, hsim'⟩
    · exact ⟨a'', hreach.snoc (hedit i c state value hok) hedited, hsim'⟩
  | download i r =>
    rcases hsim.download hguard hstep with ⟨-, hsim'⟩ | ⟨a'', hpull, hsim', -⟩
    · exact ⟨a', hreach, hsim'⟩
    · exact ⟨a'', hreach.snoc (hsync i 0).1 hpull, hsim'⟩
  | upload i u =>
    rcases hsim.upload hmeta hguard hstep with ⟨-, a'', rfl | ⟨v, hlost⟩, hsim'⟩ | ⟨v, a'', hpush, hsim'⟩
    · exact ⟨a'', hreach, hsim'⟩
    · exact ⟨a'', hreach.snoc (hsync i v).2.2 hlost, hsim'⟩
    · exact ⟨a'', hreach.snoc (hsync i v).2.1 hpush, hsim'⟩

theorem Simulates.downloaded (h : Simulates P account d a) {i : ι} (hdown : Downloaded P account i d d') :
    ∃ a', System.Step a (.pull i) a' ∧ Simulates P account d' a' ∧ d'.msg = d.msg ∧
      (d'.sessions i).view d.msg.id = .alive (a'.replicas i) ∧ ∀ j, j ≠ i → d'.sessions j = d.sessions j := by
  rcases hdown with ⟨rfl, version, hversion, hlast⟩ | ⟨r, hguard, hstep, hreceived⟩
  · rcases (h.replicas i).copy with ⟨habsent, -⟩ | ⟨halive, version', hversion', hseen⟩
    · rw [((h.replicas i).shadowed.absent _ (row_of_absent habsent)).1] at hversion
      cases hversion
    · -- the device has the version already
      rw [hversion] at hversion'
      cases hversion'
      have hlatest : a.seen i = a.version := by rw [← hseen, hlast, h.version]
      refine ⟨a, ?_, h, rfl, halive, fun _ _ => rfl⟩
      unfold System.Step System.setReplica
      dsimp only
      rw [← h.inv.base i hlatest, Replica.pull_base, Function.update_eq_self, ← hlatest, Function.update_eq_self,
        hlatest, h.inv.base i hlatest]
  · have hsessions : ∀ j, j ≠ i → d'.sessions j = d.sessions j := by
      obtain ⟨session, -, hsessions, -⟩ := hstep
      intro j hj
      rw [hsessions]
      exact Function.update_of_ne hj _ _
    have hmsg : d'.msg = d.msg := by
      obtain ⟨session, -, -, hmsg⟩ := hstep
      exact hmsg
    rcases h.download hguard hstep with ⟨hnone, -⟩ | ⟨a', hpull, hsim, hview⟩
    · rw [hnone] at hreceived
      cases hreceived
    · exact ⟨a', hpull, hsim, hmsg, hview, hsessions⟩

/-- A changed replica asks the server for something, and it is listed. -/
theorem Replicated.changed (P : Platform) (account : MessagesSyncer.Account) {s : ShadowSession} {id : IdType} {replica : Replica MessageState Bool} {seen : Nat}
    (h : Replicated s id replica seen) (halive : s.view id = .alive replica) (hchanged : ¬ replica.Clean) :
    id ∈ MessageDao.locallyModifiedMessages s.db latestMetaVersion ∧
      ∀ iv, MessagesSyncer.uploadRequest P account iv id s.db ≠ .ok none := by
  obtain ⟨cur, version, hcur, hversion, -⟩ := copy_of_view halive
  obtain ⟨version', hversion', hshadow⟩ := h.shadowed.stored id cur hcur
  rw [hversion] at hversion'
  cases hversion'
  have hcopy : ShadowSession.copyOf (some cur) (some version) = .alive replica := by
    rw [← hcur, ← hversion]
    exact halive
  have hrequest := fun iv => (hshadow.request P account iv hcur rfl).1 (by
    rw [hcopy]
    exact hchanged)
  constructor
  · obtain ⟨old, hold⟩ := Option.isSome_iff_exists.mp (hrequest []).1
    exact (ShadowSession.mem_locallyModifiedMessages_iff hold).mpr (h.supported old (.inr hold))
  · intro iv hnone
    have hasked := (hrequest iv).2
    rw [hcopy, hnone] at hasked
    obtain ⟨metaData, -, hsome⟩ := bind_eq_ok.mp hasked.symm
    cases hsome

/-- Uploading does not remove the message. -/
theorem Replicated.view_uploaded {s s' : ShadowSession} {id : IdType} {replica : Replica MessageState Bool} {seen : Nat}
    (h : Replicated s id replica seen) (halive : s.view id = .alive replica) {u : MessagesSyncer.Upload}
    (hguard : ShadowSession.guard s (.uploadModification u id))
    (hstep : ShadowSession.Step P account s (.uploadModification u id) s') : s'.view id ≠ .absent := by
  have hview := (ShadowSession.step_refines h.shadowed hguard hstep).2 id
  rw [halive] at hview
  unfold ShadowSession.effect at hview
  dsimp only at hview
  rw [hview]
  split
  · exact fun habsent => by cases habsent
  · exact fun habsent => by cases habsent

theorem Simulates.uploaded (hmeta : MetaRoundTrips P) (h : Simulates P account d a) {i : ι}
    (hview : (d.sessions i).view d.msg.id = .alive (a.replicas i)) (hup : Uploaded P account i d d') :
    ∃ a', ((∃ v, System.Step a (.push i v) a') ∨ (a.replicas i).Clean ∧ a' = a) ∧ Simulates P account d' a' ∧
      d'.msg.id = d.msg.id ∧ (d'.sessions i).view d.msg.id ≠ .absent ∧
        ∀ j, j ≠ i → d'.sessions j = d.sessions j := by
  have hchanged := fun hchanged => (h.replicas i).changed P account hview hchanged
  rcases hup with ⟨rfl, hlisted⟩ | ⟨u, hguard, hstep, hdone⟩
  · have hclean : (a.replicas i).Clean := by
      by_contra hnot
      exact hlisted (hchanged hnot).1
    refine ⟨a, .inr ⟨hclean, rfl⟩, h, rfl, ?_, fun _ _ => rfl⟩
    rw [hview]
    exact fun habsent => by cases habsent
  · have hsessions : ∀ j, j ≠ i → d'.sessions j = d.sessions j := by
      obtain ⟨session, -, hsessions, -⟩ := hstep
      intro j hj
      rw [hsessions]
      exact Function.update_of_ne hj _ _
    have hstored : (d'.sessions i).view d.msg.id ≠ .absent := by
      obtain ⟨session, hop, hsessions, -⟩ := hstep
      have hself : d'.sessions i = session := by
        rw [hsessions]
        exact Function.update_self _ _ _
      rw [hself]
      exact (h.replicas i).view_uploaded hview hguard.2.2 hop
    have hid : d'.msg.id = d.msg.id := by
      obtain ⟨session, -, -, ⟨-, hmsg⟩ | ⟨request, -, hanswered⟩⟩ := hstep
      · rw [hmsg]
      · generalize u.answer request = answer at hanswered
        generalize d'.msg = msg at hanswered
        cases hanswered <;> rfl
    rcases hdone with hnone | haccepted
    · have hclean : (a.replicas i).Clean := by
        by_contra hnot
        exact (hchanged hnot).2 u.iv hnone
      refine ⟨a, .inr ⟨hclean, rfl⟩, ?_, hid, hstored, hsessions⟩
      obtain ⟨session, hop, hupdate, ⟨-, hmsg⟩ | ⟨request, hasked, -⟩⟩ := hstep
      · rcases (h.replicas i).uploadModification hguard.2.2 hop with ⟨-, hself⟩ | ⟨request, idlm, haccepted, -⟩
        · exact h.unchanged hself hupdate hmsg
        · rw [(accepted_eq_some haccepted).2.1] at hnone
          cases hnone
      · rw [asked_eq_some hasked] at hnone
        cases hnone
    · rcases h.upload hmeta hguard hstep with ⟨hnone, -⟩ | ⟨v, a', hpush, hsim⟩
      · rw [hnone] at haccepted
        cases haccepted
      · exact ⟨a', .inl ⟨v, hpush⟩, hsim, hid, hstored, hsessions⟩

/-- A round of the devices is a round of the replicas, after which those that took part have the message. -/
theorem Simulates.syncedAll (hmeta : MetaRoundTrips P) {is : List ι} (h : Simulates P account d a)
    (hsync : SyncedAll P account is d d') :
    ∃ a', System.SyncAll is a a' ∧ Simulates P account d' a' ∧ d'.msg.id = d.msg.id ∧
      ∀ i, i ∈ is ∨ (d.sessions i).view d.msg.id ≠ .absent → (d'.sessions i).view d'.msg.id ≠ .absent := by
  induction is generalizing d a with
  | nil =>
    cases hsync
    exact ⟨a, rfl, h, rfl, fun i hi => hi.resolve_left List.not_mem_nil⟩
  | cons i is ih =>
    obtain ⟨d₁, ⟨d₂, hdown, hup⟩, hrest⟩ := hsync
    obtain ⟨a₁, hpull, hsim₁, hmsg, hview, hothers⟩ := h.downloaded hdown
    rw [← hmsg] at hview
    obtain ⟨a₂, hpush, hsim₂, hid, hself, hothers'⟩ := hsim₁.uploaded hmeta hview hup
    obtain ⟨a', hall, hsim, hid', hstored⟩ := ih hsim₂ hrest
    refine ⟨a', ⟨a₂, ⟨a₁, hpull, hpush⟩, hall⟩, hsim, ?_, ?_⟩
    · rw [hid', hid, hmsg]
    · intro j hj
      apply hstored j
      by_cases hji : j = i
      · subst hji
        rw [hid]
        exact .inr hself
      · refine hj.imp (fun hmem => (List.mem_cons.mp hmem).resolve_left hji) ?_
        rw [hothers' j hji, hothers j hji, hid, hmsg]
        exact id

omit [DecidableEq ι] in
private theorem Shared.simulates (h : Shared P account d) : ∃ a, Simulates P account d a := by
  obtain ⟨record, hrecord, hversions⟩ := h.readable
  have hdevice : ∀ i, ∃ replica seen, Replicated (d.sessions i) d.msg.id replica seen ∧ seen ≤ d.msg.lastModified ∧
      (seen = d.msg.lastModified → replica.base = record) := by
    intro i
    cases hcur : currentRow (d.sessions i).db d.msg.id with
    | none =>
      have habsent : (d.sessions i).view d.msg.id = .absent := by
        unfold ShadowSession.view
        rw [hcur]
        rfl
      exact ⟨.fresh record, d.msg.lastModified, ⟨h.shadowed i, h.supported i, .inl ⟨habsent, rfl⟩⟩, Nat.le_refl _,
        fun _ => rfl⟩
    | some cur =>
      obtain ⟨version, hversion, hshadow⟩ := (h.shadowed i).stored d.msg.id cur hcur
      obtain ⟨hle, hlast⟩ := hversions i version hversion
      have halive := h.alive i cur hcur
      rcases hshadow.cases with ⟨-, hdeleted, -⟩ | ⟨base, hbase, ⟨hdeleted, -⟩ | ⟨-, hcopy⟩⟩
      · rw [halive] at hdeleted
        cases hdeleted
      · rw [halive] at hdeleted
        cases hdeleted
      · have hview : (d.sessions i).view d.msg.id = .alive ⟨base, cur.state⟩ := by
          unfold ShadowSession.view
          rw [hcur, hversion, hcopy]
        refine ⟨_, version.lastModified, ⟨h.shadowed i, h.supported i, .inr ⟨hview, version, hversion, rfl⟩⟩, hle, ?_⟩
        intro hsame
        rw [hlast hsame] at hbase
        exact (Option.some.inj hbase).symm
  choose replica seen hreplica hle hbase using hdevice
  exact ⟨⟨d.msg.lastModified, record, replica, seen⟩, ⟨hle, hbase⟩, rfl, h.deleted, hrecord, hreplica⟩

private theorem Simulates.settled (hmeta : MetaRoundTrips P) (h : Simulates P account d a) {d₁ d₂ : Devices ι} {is js : List ι}
    (h₁ : SyncedAll P account is d d₁) (h₂ : SyncedAll P account js d₁ d₂) (his : ∀ i, i ∈ is) (hjs : ∀ i, i ∈ js) :
    ∃ a₁ a₂, System.SyncAll is a a₁ ∧ System.SyncAll js a₁ a₂ ∧ Simulates P account d₂ a₂ ∧ a₂.Settled ∧
      ∀ i, (d₂.sessions i).view d₂.msg.id = .alive (.fresh a₂.record) := by
  obtain ⟨a₁, hall₁, hsim₁, -, -⟩ := h.syncedAll hmeta h₁
  obtain ⟨a₂, hall₂, hsim₂, -, hstored⟩ := hsim₁.syncedAll hmeta h₂
  have hsettled := System.settled_of_syncAll hall₁ hall₂ his hjs
  refine ⟨a₁, a₂, hall₁, hall₂, hsim₂, hsettled, ?_⟩
  intro i
  rcases (hsim₂.replicas i).copy with ⟨habsent, -⟩ | ⟨halive, -⟩
  · exact absurd habsent (hstored i (.inl (hjs i)))
  · have hreplica : a₂.replicas i = .fresh a₂.record := Replica.ext (hsettled i).1 (hsettled.mine i)
    rw [halive, hreplica]

/-- Whatever the devices have done under the guard, in any order and with answers that got lost: after two rounds of
syncing they have the same states, which are those the server has, and nothing is left to upload. -/
theorem devices_converge (hmeta : MetaRoundTrips P) {d₀ d₁ d₂ : Devices ι} (h₀ : Shared P account d₀)
    (hrun : Transition.Reaches (Step P account) (guard P account) d₀ d) {is js : List ι}
    (h₁ : SyncedAll P account is d d₁) (h₂ : SyncedAll P account js d₁ d₂) (his : ∀ i, i ∈ is) (hjs : ∀ i, i ∈ js) :
    ∃ states, MessagesSyncer.Encodes P account d₂.msg.metaData states ∧
      ∀ i, (d₂.sessions i).view d₂.msg.id = .alive (.fresh states) := by
  obtain ⟨a₀, hsim₀⟩ := h₀.simulates
  obtain ⟨a, -, hsim⟩ := hsim₀.reaches (fun _ => True) (fun _ => True) (fun _ _ _ _ _ => trivial)
    (fun _ _ => ⟨trivial, trivial, trivial⟩) hmeta (hrun.mono fun _ _ hguard => ⟨hguard, trivial⟩)
  obtain ⟨a₁, a₂, -, -, hsim₂, -, hviews⟩ := hsim.settled hmeta h₁ h₂ his hjs
  exact ⟨a₂.record, hsim₂.record, hviews⟩

/-- A state that was changed on the device `i` and on no other. -/
structure EditedOn (d : Devices ι) (i : ι) (state : MessageState) (value : Bool) : Prop where
  edited : ∃ replica, (d.sessions i).view d.msg.id = .alive replica ∧ replica.mine state = value ∧
    replica.base state ≠ value
  others : ∀ j, j ≠ i → ∀ replica, (d.sessions j).view d.msg.id = .alive replica →
    replica.mine state = replica.base state

omit [DecidableEq ι] in
theorem EditedOn.pending {i : ι} {state : MessageState} {value : Bool} (h : EditedOn d i state value)
    (hsim : Simulates P account d a) : a.Pending i state value := by
  obtain ⟨replica, hview, hmine, hbase⟩ := h.edited
  have hreplica : a.replicas i = replica := by
    rcases (hsim.replicas i).copy with ⟨habsent, -⟩ | ⟨halive, -⟩
    · rw [hview] at habsent
      cases habsent
    · rw [hview] at halive
      cases halive
      rfl
  refine ⟨by rw [hreplica, hmine], by rw [hreplica]; exact hbase, ?_⟩
  intro j hj
  rcases (hsim.replicas j).copy with ⟨-, hclean⟩ | ⟨halive, -⟩
  · exact congrFun hclean state
  · exact h.others j hj _ halive

/-- A state that one device was given, and no other device changes, is what every device ends with, whatever else is
done, in any order and with answers that got lost. -/
theorem edit_survives (hmeta : MetaRoundTrips P) {d₀ d₁ d₂ d₃ : Devices ι} (h₀ : Shared P account d₀)
    (hrun : Transition.Reaches (Step P account) (guard P account) d₀ d) {i : ι} {state : MessageState} {value : Bool}
    (hedited : EditedOn d i state value)
    (hrest : Transition.Reaches (Step P account)
      (fun d act => guard P account d act ∧ ∀ j c b, act ≠ .setState j c state b) d d₁)
    {is js : List ι} (h₂ : SyncedAll P account is d₁ d₂) (h₃ : SyncedAll P account js d₂ d₃) (his : ∀ i, i ∈ is)
    (hjs : ∀ i, i ∈ js) :
    ∀ j, ∃ cur, currentRow (d₃.sessions j).db d₃.msg.id = some cur ∧ cur.state state = value := by
  obtain ⟨a₀, hsim₀⟩ := h₀.simulates
  obtain ⟨a, -, hsim⟩ := hsim₀.reaches (fun _ => True) (fun _ => True) (fun _ _ _ _ _ => trivial)
    (fun _ _ => ⟨trivial, trivial, trivial⟩) hmeta (hrun.mono fun _ _ hguard => ⟨hguard, trivial⟩)
  -- after the edit the value is proposed, and from there no other edit of the state follows
  have hproposed : a.Proposed i state value := .inl (hedited.pending hsim)
  obtain ⟨a₁, hreach, hsim₁⟩ := hsim.reaches (fun act => ∀ j c b, act ≠ .setState j c state b)
    (fun act => ∀ j b, act ≠ .edit j state b)
    (by
      intro j c state' value' hne j' b hedit
      cases hedit
      exact hne j c value' rfl)
    (fun _ _ => ⟨fun _ _ h => (by cases h), fun _ _ h => (by cases h), fun _ _ h => (by cases h)⟩) hmeta hrest
  obtain ⟨a₂, a₃, hall₂, hall₃, -, hsettled, hviews⟩ := hsim₁.settled hmeta h₂ h₃ his hjs
  have hround : ∀ {is : List ι} {a a' : System ι MessageState Bool}, System.SyncAll is a a' →
      Transition.Reaches System.Step (fun _ act => ∀ j b, act ≠ .edit j state b) a a' :=
    System.SyncAll.reaches fun _ _ _ => ⟨fun _ _ h => (by cases h), fun _ _ h => (by cases h)⟩
  -- the value stays proposed through the rounds, and then all replicas agree
  have hfinal := (hproposed.reaches hsim.inv hreach).reaches hsim₁.inv ((hround hall₂).trans (hround hall₃))
  intro j
  obtain ⟨cur, version, hcur, -, -, -, hmine⟩ := copy_of_view (hviews j)
  refine ⟨cur, hcur, ?_⟩
  rw [hmine]
  have hvalue := System.settled_of_proposed hfinal hsettled j
  rw [hsettled.mine j] at hvalue
  exact hvalue

end

/-! ### An example -/

open MetaSession (sharing alice zeroIv sharingMeta letter)

private theorem sharing_meta : MetaRoundTrips sharing where
  json read done := by cases read <;> cases done <;> rfl
  written read done := by cases read <;> cases done <;> exact List.cons_ne_nil _ _

/-- Two devices that have the message. -/
def before : Devices Bool := ⟨letter 5 (sharingMeta 1 [1, 1]), fun _ => ShadowSession.synced⟩

/-- A device after an operation. -/
def after (s : ShadowSession) (op : ShadowOp) : ShadowSession := (ShadowSession.perform sharing alice op s).getD s

private theorem sharing_gcm (key iv : Bytes) : GcmRoundTrips sharing key iv :=
  ⟨(Platform.tagging_gcm key iv).decrypt_encrypt, (Platform.tagging_gcm key iv).length_encrypt⟩

private theorem shared_before : Shared sharing alice before := by
  have hcur : ∀ row, currentRow ShadowSession.synced.db 1 = some row →
      row.deleted = false ∧ row.metaVersion ≤ latestMetaVersion := by
    intro row hrow
    cases hrow
    exact ⟨rfl, by decide⟩
  have hmeta : MessageEncryptor.encryptMeta sharing zeroIv (MessageEncoder.encodeMeta sharing true true) [] =
      .ok (sharingMeta 1 [1, 1]) := rfl
  refine ⟨rfl, fun _ => ShadowSession.shadowed_synced, ?_, fun _ row hrow => (hcur row hrow).1, fun _ => true, ?_, ?_⟩
  · intro _ row hrow
    rcases hrow with hrow | hrow
    · exact (hcur row hrow).2
    · cases hrow
  · exact MessagesSyncer.encodes_encryptMeta sharing_meta (sharing_gcm _ _) rfl hmeta
  · intro _ version hversion
    cases hversion
    exact ⟨Nat.le_refl _, fun _ => rfl⟩

/-- The first device marks the message as unread. -/
def edited : Devices Bool :=
  ⟨before.msg, Function.update before.sessions true
    (after ShadowSession.synced (.setState (.construct ShadowSession.synced.db) .read 1 false))⟩

def upload : MessagesSyncer.Upload := { iv := zeroIv, answer := fun _ => .ok ⟨1, 6⟩ }

def uploaded : Devices Bool where
  msg := letter 6 (sharingMeta 1 [0, 1])
  sessions := Function.update edited.sessions true (after (edited.sessions true) (.uploadModification upload 1))

def downloaded : Devices Bool where
  msg := uploaded.msg
  sessions := Function.update uploaded.sessions false (after (uploaded.sessions false) (.process { msg := uploaded.msg }))

private theorem reaches_edited : Transition.Reaches (Step sharing alice) (guard sharing alice) before edited := by
  refine Transition.Reaches.snoc (a := .setState true (.construct ShadowSession.synced.db) .read false) .refl ?_ ?_
  · exact ShadowSession.shows_construct ShadowSession.synced.db 1
  · exact ⟨_, rfl, rfl, rfl⟩

/-- The first device uploads its states, and the second one downloads them. -/
theorem syncedAll_uploaded : SyncedAll sharing alice [true, false] edited downloaded := by
  refine ⟨uploaded, ⟨edited, ?_, ?_⟩, downloaded, ⟨downloaded, ?_, ?_⟩, rfl⟩
  · exact .inl ⟨rfl, _, rfl, rfl⟩
  · refine .inr ⟨upload, ⟨rfl, sharing_gcm _ _, ?_⟩, ⟨_, rfl, rfl, ?_⟩, .inr ?_⟩
    · intro request idlm h
      cases h
      rfl
    · refine .inr ⟨.modifyMeta ⟨1, 5⟩ (sharingMeta 1 [0, 1]), by decide +kernel, ?_⟩
      exact Answered.accepted (sharingMeta 1 [0, 1]) 6 (by decide) _ (fun idlm h => by cases h; rfl)
    · decide +kernel
  · refine .inr ⟨{ msg := uploaded.msg }, ⟨rfl, ?_⟩,
      ⟨after (uploaded.sessions false) (.process { msg := uploaded.msg }), rfl, rfl, rfl⟩, by decide +kernel⟩
    intro version decoder s' hread
    have hsender : (MessagesSyncer.readMessage sharing alice { msg := uploaded.msg }
        (uploaded.sessions false).syncer).map (fun read => read.2.1.sender.address) = some .bob := by decide +kernel
    rw [hread] at hsender
    have hbob : decoder.sender.address = .bob := Option.some.inj hsender
    rw [hbob]
    decide
  · exact .inl ⟨rfl, by decide +kernel⟩

private theorem syncedAll_again : SyncedAll sharing alice [true, false] downloaded downloaded := by
  have hlast : ∀ i, ((downloaded.sessions i).versions 1).map Version.lastModified = some 6 := by decide +kernel
  refine ⟨downloaded, ⟨downloaded, ?_, ?_⟩, downloaded, ⟨downloaded, ?_, ?_⟩, rfl⟩
  · exact .inl ⟨rfl, Option.map_eq_some_iff.mp (hlast true)⟩
  · exact .inl ⟨rfl, by decide +kernel⟩
  · exact .inl ⟨rfl, Option.map_eq_some_iff.mp (hlast false)⟩
  · exact .inl ⟨rfl, by decide +kernel⟩

theorem devices_converge_letter :
    ∃ states, MessagesSyncer.Encodes sharing alice downloaded.msg.metaData states ∧
      ∀ i, (downloaded.sessions i).view 1 = .alive (.fresh states) :=
  devices_converge sharing_meta shared_before reaches_edited syncedAll_uploaded syncedAll_again (by decide) (by decide)

/-- The message is unread on both devices. -/
theorem edit_survives_letter :
    (∃ cur, currentRow (downloaded.sessions true).db 1 = some cur ∧ cur.read = false) ∧
      ∃ cur, currentRow (downloaded.sessions false).db 1 = some cur ∧ cur.read = false := by
  have hothers : (edited.sessions false).view 1 = .alive (.fresh fun _ => true) := ShadowSession.view_synced
  have hedited : EditedOn edited true .read false := by
    refine ⟨⟨⟨fun _ => true, Function.update (fun _ => true) .read false⟩, ShadowSession.view_marked, rfl, ?_⟩, ?_⟩
    · decide
    · intro j hj replica hview
      have hfalse : j = false := by simpa using hj
      rw [hfalse] at hview
      cases hothers.symm.trans hview
      rfl
  have hread := edit_survives sharing_meta shared_before reaches_edited hedited .refl syncedAll_uploaded syncedAll_again
    (by decide) (by decide)
  exact ⟨hread true, hread false⟩

end Devices

end KulloClient
