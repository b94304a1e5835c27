import KulloClient.Sync.SenderEffects
import KulloClient.Sync.UploadOnce

/-!
# The states of the deliveries

The uploader and the sender share the table of deliveries: the uploader adds unsent deliveries, the sender marks them as
delivered or failed.  A `System` is the database with the sender's run in progress, the requests so far and the tables
the transactions have left; a step is one iteration of either loop.
-/

namespace KulloClient

namespace Deliveries

open Imperative
open MessagesSender (IdAndRecipient requestsIn requested marksIn)

/-! ### The system -/

/-- A request of the sender: whether the server accepted it, and whether it returned normally. -/
structure Request where
  message : IdType
  recipient : KulloAddress
  accepted : Bool
  returned : Bool

def Request.pair (q : Request) : IdAndRecipient := (q.message, q.recipient)

/-- The database, the pairs left and the variables of the sender's run in progress, the requests so far, the ids the
server gave to messages, and every table of deliveries that a transaction has left. -/
structure System where
  db : Db
  sending : Option (List IdAndRecipient × MessagesSender.State) := none
  requests : List Request := []
  ids : List IdType
  history : List (List DeliveryRow)

inductive Action (P : Platform)
  | upload (it : MessagesUploader.Iteration P)
  | startSending (previouslyUploaded : Nat)
  | send (it : MessagesSender.Iteration P) (accepted : Bool)
  | stopSending
  | others (db : Db)

/-- The participants of every conversation were written by `ConversationDao` from a set of addresses. -/
def ParticipantsWritten (db : Db) : Prop :=
  ∀ r ∈ db.conversations, ∃ participants : List KulloAddress, participants.Nodup ∧ participants ≠ [] ∧
    r.participants = ConversationDao.makeParticipantsString participants

variable {P : Platform}

def answeredIds (it : MessagesUploader.Iteration P) : List IdType :=
  match it.answer with
  | .ok msgSent => [msgSent.id]
  | .error _ => []

/-- The requests an iteration of the sender adds. -/
def newRequests (it : MessagesSender.Iteration P) (accepted : Bool) (v v' : MessagesSender.State) : List Request :=
  ((requestsIn v'.trace).drop (requestsIn v.trace).length).map fun q =>
    ⟨q.1, q.2, accepted, (it.throws .sendMessage).isNone⟩

/-- The tables an iteration of the sender leaves, the last one at its end. -/
def newTables (v v' : MessagesSender.State) : List (List DeliveryRow) :=
  (marksIn v'.trace).drop (marksIn v.trace).length ++ [v'.db.delivery]

/-- The run of the sender after an iteration. -/
def continuing (rest : List IdAndRecipient) :
    EStateM.Result Exn MessagesSender.State Unit → Option (List IdAndRecipient × MessagesSender.State)
  | .ok () v => some (rest, v)
  | .error _ _ => none

/-- One iteration of the uploader or of the sender.  The other threads leave the deliveries alone. -/
inductive Step (account : MessagesUploader.Account) : System → Action P → System → Prop
  | upload {s u} (it : MessagesUploader.Iteration P) : s.sending = none → u.db = s.db →
      Step account s (.upload it)
        { s with
          db := (final (MessagesUploader.iterate P account it u)).db
          ids := s.ids ++ answeredIds it
          history := s.history ++ [(final (MessagesUploader.iterate P account it u)).db.delivery] }
  | startSending {s pairs} (previouslyUploaded : Nat) : s.sending = none → DeliveryDao.unsentMessages s.db = .ok pairs →
      Step account s (.startSending previouslyUploaded)
        { s with sending := some (pairs, { db := s.db, previouslyUploaded := previouslyUploaded }) }
  | send {s p rest v} (it : MessagesSender.Iteration P) (accepted : Bool) : s.sending = some (p :: rest, v) →
      it.db = s.db →
      Step account s (.send it accepted)
        { s with
          db := (final (MessagesSender.iterate it p v)).db
          sending := continuing rest (MessagesSender.iterate it p v)
          requests := s.requests ++ newRequests it accepted v (final (MessagesSender.iterate it p v))
          history := s.history ++ newTables v (final (MessagesSender.iterate it p v)) }
  | stopSending {s} : Step account s .stopSending { s with sending := none }
  | others {s} (db : Db) : db.delivery = s.db.delivery → ParticipantsWritten db →
      Step account s (.others db) { s with db := db }

/-- The server gives a new id to every message. -/
def NewIds (s : System) : Action P → Prop
  | .upload it => ∀ msgSent, it.answer = .ok msgSent → msgSent.id ∉ s.ids
  | _ => True

/-- No listener raises after a delivery was marked as delivered, unless the run is canceled. -/
def Undisturbed (_ : System) : Action P → Prop
  | .send it _ => ¬ it.Disturbed
  | _ => True

/-- A request that the server accepted returns normally, its delivery is marked, and that is not disturbed. -/
def Acknowledged (_ : System) : Action P → Prop
  | .send it accepted => accepted = true → ¬ it.Unrecorded ∧ ¬ it.Disturbed
  | _ => True

def key (r : DeliveryRow) : IdType × String := (r.messageId, r.recipient)

/-- The deliveries are those the uploader adds and the sender marks. -/
structure WellFormed (db : Db) : Prop where
  recipients : ∀ r ∈ db.delivery, ∃ a : KulloAddress, r.recipient = a.toString
  unique : (db.delivery.map key).Nodup
  participants : ParticipantsWritten db

def start (db : Db) : System where
  db := db
  ids := db.delivery.map DeliveryRow.messageId
  history := [db.delivery]

/-! ### Runs are sequences of steps -/

/-- The iterations of a run of the sender find the database as it was left. -/
def Follows : List (IdAndRecipient × MessagesSender.Iteration P) → Db → MessagesSender.State → Prop
  | [], _, _ => True
  | (p, it) :: rest, db, v => it.db = db ∧ ∀ v', MessagesSender.iterate it p v = .ok () v' → Follows rest v'.db v'

private theorem reaches_loop (account : MessagesUploader.Account) (l : List (IdAndRecipient × MessagesSender.Iteration P))
    (accepted : Nat → Bool) {s : System} {v : MessagesSender.State} (hs : s.sending = some (l.map Prod.fst, v))
    (hv : v.db = s.db) (hfollows : Follows l s.db v) :
    ∃ s', Transition.Reaches (Step account) (fun _ (_ : Action P) => True) s s' ∧
      s'.db = (final (MessagesSender.loop l v)).db := by
  induction l generalizing s v accepted with
  | nil => exact ⟨s, .refl, hv.symm⟩
  | cons x l ih =>
    obtain ⟨p, it⟩ := x
    obtain ⟨hdb, hrest⟩ := hfollows
    have hstep : Step account s (.send it (accepted 0)) _ := Step.send it (accepted 0) hs hdb
    have hloop : MessagesSender.loop ((p, it) :: l) v =
        (MessagesSender.iterate it p >>= fun _ => MessagesSender.loop l) v := rfl
    cases hr : MessagesSender.iterate it p v with
    | error e v' =>
      rw [hr] at hstep
      refine ⟨_, Transition.Reaches.refl.snoc trivial hstep, ?_⟩
      rw [hloop, bind_of_error hr]
    | ok u v' =>
      rw [hr] at hstep
      obtain ⟨s', hreaches, hdb'⟩ := ih (fun n => accepted (n + 1))
        (s := { s with
          db := v'.db
          sending := some (l.map Prod.fst, v')
          requests := s.requests ++ newRequests it (accepted 0) v v'
          history := s.history ++ newTables v v' }) (v := v') rfl rfl (hrest v' hr)
      refine ⟨s', (Transition.Reaches.refl.snoc trivial hstep).trans hreaches, ?_⟩
      rw [hdb', hloop, bind_of_ok hr]

/-- A call of the sender's `run`. -/
theorem reaches_senderRun {account : MessagesUploader.Account} {s : System} {its : Nat → MessagesSender.Iteration P}
    {pairs : List IdAndRecipient} (previouslyUploaded : Nat) (accepted : Nat → Bool) (v : MessagesSender.State)
    (hs : s.sending = none) (hpairs : DeliveryDao.unsentMessages s.db = .ok pairs)
    (hfollows : Follows (MessagesSender.withIterations its pairs) s.db
      { db := s.db, previouslyUploaded := previouslyUploaded }) :
    ∃ s', Transition.Reaches (Step account) (fun _ (_ : Action P) => True) s s' ∧
      s'.db = (final (MessagesSender.run s.db its previouslyUploaded v)).db := by
  have hstep : Step (P := P) account s (.startSending previouslyUploaded) _ :=
    Step.startSending previouslyUploaded hs hpairs
  have hfst : (MessagesSender.withIterations its pairs).map Prod.fst = pairs := by
    unfold MessagesSender.withIterations
    rw [List.map_map]
    have hfun : (Prod.fst ∘ fun (x : IdAndRecipient × Nat) => (x.1, its x.2)) = Prod.fst := rfl
    exact (congrArg (fun f => List.map f pairs.zipIdx) hfun).trans (List.zipIdx_map_fst 0 pairs)
  obtain ⟨s', hreaches, hdb⟩ := reaches_loop account (MessagesSender.withIterations its pairs) accepted
    (s := { s with sending := some (pairs, { db := s.db, previouslyUploaded := previouslyUploaded }) })
    (by rw [hfst]) rfl hfollows
  refine ⟨s', (Transition.Reaches.refl.snoc trivial hstep).trans hreaches, ?_⟩
  rw [hdb]
  unfold MessagesSender.run
  rw [bind_of_ok (set_apply _), hpairs]
  rfl

/-- A call of the uploader's `run`, or its first iterations. -/
theorem reaches_uploaderRun {account : MessagesUploader.Account} (its : Nat → MessagesUploader.Iteration P) (i n : Nat)
    {s : System} {u : MessagesUploader.State} (hs : s.sending = none) (hu : u.db = s.db) :
    ∃ s', Transition.Reaches (Step account) (fun _ (_ : Action P) => True) s s' ∧
      s'.db = (MessagesUploader.afterRun P account its i n u).db := by
  induction n generalizing i s u with
  | zero => exact ⟨s, .refl, hu.symm⟩
  | succ n ih =>
    have hstep : Step account s (.upload (its i)) _ := Step.upload (its i) hs hu
    rw [MessagesUploader.afterRun]
    cases hr : MessagesUploader.iterate P account (its i) u with
    | error e u' =>
      rw [hr] at hstep
      exact ⟨_, Transition.Reaches.refl.snoc trivial hstep, rfl⟩
    | ok more u' =>
      rw [hr] at hstep
      cases more with
      | false => exact ⟨_, Transition.Reaches.refl.snoc trivial hstep, rfl⟩
      | true =>
        obtain ⟨s', hreaches, hdb⟩ := ih (i + 1)
          (s := { s with
            db := u'.db
            ids := s.ids ++ answeredIds (its i)
            history := s.history ++ [u'.db.delivery] }) (u := u') hs rfl
        exact ⟨s', (Transition.Reaches.refl.snoc trivial hstep).trans hreaches, hdb⟩

/-! ### What an upload adds -/

/-- The deliveries and the conversations are as before. -/
structure SameDeliveries (db db' : Db) : Prop where
  delivery : db'.delivery = db.delivery
  conversations : db'.conversations = db.conversations

theorem SameDeliveries.refl (db : Db) : SameDeliveries db db := ⟨rfl, rfl⟩

theorem SameDeliveries.trans {db db' db'' : Db} (h : SameDeliveries db db') (h' : SameDeliveries db' db'') :
    SameDeliveries db db'' :=
  ⟨h'.delivery.trans h.delivery, h'.conversations.trans h.conversations⟩

private theorem foldlM_same {α : Type} {f : Db → α → Except Exn Db} (hf : ∀ db a db', f db a = .ok db' → SameDeliveries db db')
    {as : List α} {db db' : Db} (h : as.foldlM f db = .ok db') : SameDeliveries db db' := by
  induction as generalizing db with
  | nil =>
    cases h
    exact .refl _
  | cons a as ih =>
    rw [List.foldlM_cons] at h
    obtain ⟨db₁, ha, h⟩ := bind_eq_ok.mp h
    exact (hf _ _ _ ha).trans (ih h)

private theorem convert_same {d : AttachmentDao} {msgId : IdType} {db db' : Db}
    (h : d.convertToMessageAttachment msgId db = .ok db') : SameDeliveries db db' := by
  unfold AttachmentDao.convertToMessageAttachment at h
  obtain ⟨_, _, h⟩ := bind_eq_ok.mp h
  obtain ⟨_, _, h⟩ := bind_eq_ok.mp h
  obtain ⟨_, _, h⟩ := bind_eq_ok.mp h
  split at h
  · cases h
    exact ⟨rfl, rfl⟩
  · cases h

private theorem attachmentSave_same {d : AttachmentDao} {db db' : Db} (h : d.save db = .ok db') : SameDeliveries db db' := by
  unfold AttachmentDao.save at h
  split at h
  · split at h
    · cases h
      exact ⟨rfl, rfl⟩
    · obtain ⟨_, _, h⟩ := bind_eq_ok.mp h
      obtain ⟨_, _, h⟩ := bind_eq_ok.mp h
      cases h
      exact ⟨rfl, rfl⟩
  · cases h
    exact .refl _

private theorem senderSave_same {d : SenderDao} {db db' : Db} (h : d.save db = .ok db') : SameDeliveries db db' := by
  unfold SenderDao.save at h
  split at h
  · obtain ⟨_, _, h⟩ := bind_eq_ok.mp h
    obtain ⟨_, _, h⟩ := bind_eq_ok.mp h
    obtain ⟨_, _, h⟩ := bind_eq_ok.mp h
    cases h
    exact ⟨rfl, rfl⟩
  · cases h
    exact .refl _

private theorem messageSave_same {d d' : MessageDao} {b : Bool} {db db' : Db} (h : d.save .no db = .ok (b, d', db')) :
    SameDeliveries db db' := by
  unfold MessageDao.save at h
  dsimp only at h
  split at h
  · rw [ok_bind] at h
    split at h
    · cases h
      exact ⟨rfl, rfl⟩
    · obtain ⟨_, _, h⟩ := bind_eq_ok.mp h
      cases h
      exact ⟨rfl, rfl⟩
  · cases h
    exact .refl _

private theorem addMessage_same {decoder : Decoder} {conv : ConversationDao} {db db' : Db} {added : MessagesSyncer.Added}
    {message : MessageDao} (hclean : conv.dirty = false)
    (h : MessagesSyncer.addMessage P decoder conv db = .ok (added, message, db')) : SameDeliveries db db' := by
  have hconv : conv.save db = .ok (false, conv, db) := by
    unfold ConversationDao.save
    rw [hclean]
    rfl
  unfold MessagesSyncer.addMessage at h
  rw [hconv, ok_bind] at h
  obtain ⟨db₁, hsender, h⟩ := bind_eq_ok.mp h
  obtain ⟨⟨b, message', db₂⟩, hmessage, h⟩ := bind_eq_ok.mp h
  obtain ⟨db₃, hattachments, h⟩ := bind_eq_ok.mp h
  cases h
  have havatar : ∀ hash avatar, SameDeliveries db (AvatarDao.store db hash avatar) := fun _ _ => ⟨rfl, rfl⟩
  exact (havatar _ _).trans ((senderSave_same hsender).trans ((messageSave_same hmessage).trans
    (foldlM_same (fun _ _ _ h => attachmentSave_same h) hattachments)))

/-- The unsent deliveries of a message were added. -/
structure Added (db db' : Db) (messageId : IdType) (recipients : List KulloAddress) : Prop where
  delivery : db'.delivery = db.delivery ++ recipients.map (MessagesUploader.unsentRow messageId)
  conversations : db'.conversations = db.conversations

private theorem store_added {address : KulloAddress} {dateSent : String} {draft : DraftDao} {conv : ConversationDao}
    {msgSent : MessageSent} {recipients : List KulloAddress} {db : Db}
    {result : MessagesSyncer.Added × List AttachmentDao × Db} (hclean : conv.dirty = false)
    (h : MessagesUploader.store P address dateSent draft conv msgSent recipients db = .ok result) :
    Added db result.2.2 msgSent.id recipients := by
  unfold MessagesUploader.store at h
  obtain ⟨db₁, hconvert, h⟩ := bind_eq_ok.mp h
  obtain ⟨⟨added, message, db₂⟩, hadd, h⟩ := bind_eq_ok.mp h
  cases h
  have hsame := (foldlM_same (fun _ _ _ h => convert_same h) hconvert).trans (addMessage_same hclean hadd)
  exact ⟨congrArg (fun rows => rows ++ _) hsame.delivery, hsame.conversations⟩

/-- An iteration of the uploader leaves the deliveries alone, or adds those of the message the server answered. -/
inductive Uploaded (it : MessagesUploader.Iteration P) (db db' : Db) : Prop
  | same : SameDeliveries db db' → Uploaded it db db'
  | added {msgSent conv recipients} (draft : DraftDao) : it.answer = .ok msgSent →
      ConversationDao.load db draft.row.conversationId = some conv →
      MessagesUploader.makeDelivery conv = .ok recipients → Added db db' msgSent.id recipients → Uploaded it db db'

private theorem uploaded_iterate (account : MessagesUploader.Account) (it : MessagesUploader.Iteration P)
    (u : MessagesUploader.State) : Uploaded it u.db (final (MessagesUploader.iterate P account it u)).db := by
  obtain ⟨events, houtcome, _⟩ := MessagesUploader.iterate_outcome account it u
  generalize MessagesUploader.endingOf (MessagesUploader.iterate P account it u) = ending at houtcome
  generalize (final (MessagesUploader.iterate P account it u)).db = db' at houtcome ⊢
  have hsent : ∀ {draft conv msgSent delivery req result db₁},
      MessagesUploader.Sends account it u.db draft conv msgSent delivery req →
      it.call .store (MessagesUploader.store P account.address it.dateSent draft conv msgSent delivery u.db) = .ok result →
      SameDeliveries result.2.2 db₁ → Uploaded it u.db db₁ := by
    intro draft conv msgSent delivery req result db₁ hsends hstore hsame
    have hload := hsends.load
    have hclean : conv.dirty = false := by
      obtain ⟨r, _, rfl⟩ := Option.map_eq_some_iff.mp hload
      rfl
    have hadded := store_added hclean (MessagesUploader.Iteration.call_eq_ok.mp hstore).2
    exact .added draft hsends.answer hload hsends.recipients
      ⟨hsame.delivery.trans hadded.delivery, hsame.conversations.trans hadded.conversations⟩
  cases houtcome with
  | firstSendableRaises _ => exact .same (.refl _)
  | done _ _ => exact .same (.refl _)
  | early _ _ _ => exact .same (.refl _)
  | processed _ _ _ hprocessed =>
    cases hprocessed with
    | tooBig _ => exact .same ⟨rfl, rfl⟩
    | failed _ _ _ => exact .same ⟨rfl, rfl⟩
    | clearRaises hsends _ hstore _ => exact hsent hsends hstore (.refl _)
    | cleared hsends _ hstore _ => exact hsent hsends hstore ⟨rfl, rfl⟩
    | _ => exact .same (.refl _)

/-! ### What the sender marks -/

def pairKey (p : IdAndRecipient) : IdType × String := (p.1, p.2.toString)

private theorem pairKey_injective : Function.Injective pairKey := by
  rintro ⟨id, a⟩ ⟨id', a'⟩ h
  simp only [pairKey, Prod.mk.injEq] at h
  exact Prod.ext h.1 (KulloAddress.toString_injective h.2)

section update

variable {db : Db} {id : IdType} {a : KulloAddress} {set : DeliveryRow → DeliveryRow}

private theorem keys_update (hset : ∀ r, key (set r) = key r) :
    (DeliveryDao.update db id a set).delivery.map key = db.delivery.map key := by
  unfold DeliveryDao.update
  rw [List.map_map]
  apply List.map_congr_left
  intro r _
  simp only [Function.comp_apply]
  split
  · exact hset r
  · rfl

private theorem mem_update {r' : DeliveryRow} (h : r' ∈ (DeliveryDao.update db id a set).delivery) :
    (r' ∈ db.delivery ∧ key r' ≠ pairKey (id, a)) ∨ ∃ r ∈ db.delivery, key r = pairKey (id, a) ∧ r' = set r := by
  obtain ⟨r, hr, rfl⟩ := List.mem_map.mp h
  by_cases hkey : r.messageId = id ∧ r.recipient = a.toString
  · rw [if_pos hkey]
    exact .inr ⟨r, hr, Prod.ext hkey.1 hkey.2, rfl⟩
  · rw [if_neg hkey]
    refine .inl ⟨hr, ?_⟩
    intro h
    exact hkey ⟨congrArg Prod.fst h, congrArg Prod.snd h⟩

end update

/-- A delivery that has not changed, or was unsent and is not any more. -/
def Moved (state state' : String) : Prop :=
  state' = state ∨ state = Delivery.State.unsent.toString ∧
    (state' = Delivery.State.delivered.toString ∨ state' = Delivery.State.failed.toString)

/-- Every delivery of a table that is still there in a later one has moved forward. -/
def Forward (t t' : List DeliveryRow) : Prop := ∀ r ∈ t, ∀ r' ∈ t', key r = key r' → Moved r.state r'.state

private theorem forward_refl {t : List DeliveryRow} (hunique : (t.map key).Nodup) : Forward t t := by
  intro r hr r' hr' hkey
  have hsame : r = r' := List.inj_on_of_nodup_map hunique hr hr' hkey
  exact .inl (congrArg DeliveryRow.state hsame.symm)

/-- A table an iteration of the sender leaves: only the delivery of its pair has changed. -/
structure Marked (it : MessagesSender.Iteration P) (p : IdAndRecipient) (made : Bool) (t t' : List DeliveryRow) :
    Prop where
  keys : (t'.map key).Sublist (t.map key)
  rows : ∀ r' ∈ t', r' ∈ t ∨ (∃ r ∈ t, key r = key r') ∧ key r' = pairKey p ∧
    (r'.state = Delivery.State.delivered.toString ∧ made = true ∧ it.throws .sendMessage = none ∨
      r'.state = Delivery.State.failed.toString)

/-- What an iteration of the sender does to the deliveries, with the tables it leaves on the way. -/
structure Marking (it : MessagesSender.Iteration P) (p : IdAndRecipient) (made : Bool) (db : Db)
    (tables : List (List DeliveryRow)) (db' : Db) : Prop where
  conversations : db'.conversations = db.conversations
  last : Marked it p made db.delivery db'.delivery
  between : ∀ t ∈ tables, Marked it p made db.delivery t
  marked : made = true → ¬ it.Unrecorded → ¬ it.Disturbed → ∀ r' ∈ db'.delivery, key r' = pairKey p →
    r'.state = Delivery.State.delivered.toString
  forward : ¬ it.Disturbed → (tables ++ [db'.delivery]).Pairwise Forward

section marking

variable {it : MessagesSender.Iteration P} {p : IdAndRecipient} {made : Bool} {db : Db} {t : List DeliveryRow}
  {set : DeliveryRow → DeliveryRow}

private theorem Marking.marked_of_mem {db' : Db} {tables : List (List DeliveryRow)} (h : Marking it p made db tables db')
    (ht : t ∈ tables ++ [db'.delivery]) : Marked it p made db.delivery t := by
  rcases List.mem_append.mp ht with ht | ht
  · exact h.between t ht
  · rw [List.mem_singleton.mp ht]
    exact h.last

private theorem marked_refl : Marked it p made t t := ⟨List.Sublist.refl _, fun _ hr => .inl hr⟩

private theorem Marked.update (h : Marked it p made t db.delivery) (hset : ∀ r, key (set r) = key r)
    (hstate : ∀ r, (set r).state = Delivery.State.delivered.toString ∧ made = true ∧ it.throws .sendMessage = none ∨
      (set r).state = Delivery.State.failed.toString) :
    Marked it p made t (DeliveryDao.update db p.1 p.2 set).delivery where
  keys := by
    rw [keys_update hset]
    exact h.keys
  rows := by
    intro r' hr'
    rcases mem_update hr' with ⟨hr, _⟩ | ⟨r, hr, hkey, rfl⟩
    · exact h.rows r' hr
    · refine .inr ⟨?_, (hset r).trans hkey, hstate r⟩
      rcases h.rows r hr with hold | ⟨⟨r₀, hr₀, hkey₀⟩, _⟩
      · exact ⟨r, hold, (hset r).symm⟩
      · exact ⟨r₀, hr₀, hkey₀.trans (hset r).symm⟩

private theorem Marked.failed (h : Marked it p made t db.delivery) (date : String) (reason : Delivery.Reason) :
    Marked it p made t (DeliveryDao.markAsFailed db p.1 p.2 date reason).delivery :=
  h.update (fun _ => rfl) (fun _ => .inr rfl)

private theorem forward_update (hunique : (db.delivery.map key).Nodup) (hset : ∀ r, key (set r) = key r)
    (hmoved : ∀ r ∈ db.delivery, key r = pairKey p → Moved r.state (set r).state) :
    Forward db.delivery (DeliveryDao.update db p.1 p.2 set).delivery := by
  intro r hr r' hr' hkey
  rcases mem_update hr' with ⟨hold, _⟩ | ⟨r₀, hr₀, hkey₀, rfl⟩
  · exact forward_refl hunique r hr r' hold hkey
  · have hsame : r = r₀ := List.inj_on_of_nodup_map hunique hr hr₀ (hkey.trans (hset r₀))
    rw [hsame]
    exact hmoved r₀ hr₀ hkey₀

private theorem unique_failed (hunique : (db.delivery.map key).Nodup) (date : String) (reason : Delivery.Reason) :
    ((DeliveryDao.markAsFailed db p.1 p.2 date reason).delivery.map key).Nodup := by
  have hkeys : (DeliveryDao.markAsFailed db p.1 p.2 date reason).delivery.map key = db.delivery.map key :=
    keys_update (fun _ => rfl)
  rw [hkeys]
  exact hunique

/-- A delivery that is marked as failed by a handler was not delivered before, unless there was a disturbance. -/
private theorem forward_failed {tables : List (List DeliveryRow)} (hunique : (it.db.delivery.map key).Nodup)
    (h : MessagesSender.Attempted it p db made tables) (hcause : made = true → it.Unrecorded ∨ it.Disturbed)
    (hdisturbed : ¬ it.Disturbed) (date : String) (reason : Delivery.Reason) :
    (tables ++ [(DeliveryDao.markAsFailed db p.1 p.2 date reason).delivery] ++
      [(DeliveryDao.markAsFailed db p.1 p.2 date reason).delivery]).Pairwise Forward := by
  cases h with
  | idle => exact List.pairwise_pair.mpr (forward_refl (unique_failed hunique date reason))
  | unmarked _ => exact List.pairwise_pair.mpr (forward_refl (unique_failed hunique date reason))
  | failed date' reason' _ =>
    have hunique' := unique_failed (p := p) hunique date' reason'
    have hagain : Forward (DeliveryDao.markAsFailed it.db p.1 p.2 date' reason').delivery
        (DeliveryDao.markAsFailed (DeliveryDao.markAsFailed it.db p.1 p.2 date' reason') p.1 p.2 date reason).delivery := by
      refine forward_update hunique' (fun _ => rfl) ?_
      intro r hr hkey
      rcases mem_update hr with ⟨_, hne⟩ | ⟨_, _, _, rfl⟩
      · exact absurd hkey hne
      · exact .inl rfl
    have hthree : ∀ {t t' : List DeliveryRow}, Forward t t' → Forward t' t' → [t, t', t'].Pairwise Forward := by
      intro t t' hforward hlast
      simp [hforward, hlast]
    exact hthree hagain (forward_refl (unique_failed hunique' date reason))
  | delivered _ hsend hmark =>
    rcases hcause rfl with (hthrows | hthrows) | hd
    · exact absurd hsend hthrows
    · exact absurd hmark hthrows
    · exact absurd hd hdisturbed

private theorem marking_of_attempted {db' : Db} {tables : List (List DeliveryRow)}
    (hunique : (it.db.delivery.map key).Nodup) (h : MessagesSender.Attempted it p db' made tables) :
    Marking it p made it.db tables db' := by
  have hnone : ∀ t ∈ ([] : List (List DeliveryRow)), Marked it p made it.db.delivery t := fun _ ht => by cases ht
  cases h with
  | idle =>
    exact ⟨rfl, marked_refl, hnone, fun h => Bool.noConfusion h, fun _ => List.pairwise_singleton _ _⟩
  | unmarked hu =>
    exact ⟨rfl, marked_refl, hnone, fun _ h => absurd hu h, fun _ => List.pairwise_singleton _ _⟩
  | failed date reason hu =>
    have hmarked : Marked it p true it.db.delivery (DeliveryDao.markAsFailed it.db p.1 p.2 date reason).delivery :=
      marked_refl.failed date reason
    refine ⟨rfl, hmarked, ?_, fun _ h => absurd hu h, ?_⟩
    · intro t ht
      rw [List.mem_singleton.mp ht]
      exact hmarked
    · exact fun _ => List.pairwise_pair.mpr (forward_refl (unique_failed hunique date reason))
  | delivered date hsend hmark =>
    have hmarked : Marked it p true it.db.delivery (DeliveryDao.markAsDelivered it.db p.1 p.2 date).delivery :=
      marked_refl.update (fun _ => rfl) (fun _ => .inl ⟨rfl, rfl, hsend⟩)
    have hkeys : (DeliveryDao.markAsDelivered it.db p.1 p.2 date).delivery.map key = it.db.delivery.map key :=
      keys_update (fun _ => rfl)
    refine ⟨rfl, hmarked, ?_, ?_, ?_⟩
    · intro t ht
      rw [List.mem_singleton.mp ht]
      exact hmarked
    · intro _ _ _ r' hr' hkey'
      rcases mem_update hr' with ⟨_, hne⟩ | ⟨r, _, _, rfl⟩
      · exact absurd hkey' hne
      · rfl
    · intro _
      refine List.pairwise_pair.mpr (forward_refl ?_)
      rw [hkeys]
      exact hunique

private theorem marking_of_effect {db' : Db} {tables : List (List DeliveryRow)} (hunique : (it.db.delivery.map key).Nodup)
    (h : MessagesSender.Effect it p db' made tables) : Marking it p made it.db tables db' := by
  cases h with
  | removed =>
    refine ⟨rfl, ⟨List.Sublist.map _ List.filter_sublist, ?_⟩, fun _ ht => (by cases ht), fun h => Bool.noConfusion h,
      fun _ => List.pairwise_singleton _ _⟩
    exact fun r' hr' => .inl (List.mem_filter.mp hr').1
  | attempted h => exact marking_of_attempted hunique h
  | failed date reason h hcause =>
    have hattempted := marking_of_attempted hunique h
    have hlast := hattempted.last.failed date reason
    refine ⟨hattempted.conversations, hlast, ?_, ?_, ?_⟩
    · intro t ht
      rcases List.mem_append.mp ht with ht | ht
      · exact hattempted.between t ht
      · rw [List.mem_singleton.mp ht]
        exact hlast
    · intro hmade hu hd
      rcases hcause hmade with h | h
      · exact absurd h hu
      · exact absurd h hd
    · exact fun hd => forward_failed hunique h hcause hd date reason

end marking

variable {it : MessagesSender.Iteration P} {p : IdAndRecipient}

private theorem newTables_eq {v v' : MessagesSender.State} {tables : List (List DeliveryRow)}
    (h : marksIn v'.trace = marksIn v.trace ++ tables) : newTables v v' = tables ++ [v'.db.delivery] := by
  unfold newTables
  rw [h, List.drop_left]

private theorem newRequests_eq {v v' : MessagesSender.State} {made accepted : Bool}
    (h : requestsIn v'.trace = requestsIn v.trace ++ requested p made) :
    newRequests it accepted v v' =
      if made then [⟨p.1, p.2, accepted, (it.throws .sendMessage).isNone⟩] else [] := by
  unfold newRequests
  rw [h, List.drop_left]
  cases made <;> rfl

/-! ### What always holds -/

/-- What holds of the deliveries and of the requests in every state of a run. -/
structure Invariant (db₀ : Db) (s : System) : Prop where
  wellFormed : WellFormed s.db
  ids : ∀ r ∈ s.db.delivery, r.messageId ∈ s.ids
  requestIds : ∀ q ∈ s.requests, q.message ∈ s.ids
  sending : ∀ pairs v, s.sending = some (pairs, v) → pairs.Nodup ∧ ∀ p ∈ pairs, p.1 ∈ s.ids ∧
    ∀ r ∈ s.db.delivery, key r = pairKey p → r.state = Delivery.State.unsent.toString
  delivered : ∀ t ∈ s.history, ∀ r ∈ t, r.state = Delivery.State.delivered.toString →
    (∃ r₀ ∈ db₀.delivery, key r₀ = key r ∧ r₀.state = Delivery.State.delivered.toString) ∨
      ∃ q ∈ s.requests, pairKey q.pair = key r ∧ q.returned = true
  current : s.db.delivery ∈ s.history

private theorem invariant_start {db : Db} (h : WellFormed db) : Invariant db (start db) where
  wellFormed := h
  ids := fun r hr => List.mem_map_of_mem hr
  requestIds := by
    intro q hq
    cases hq
  sending := by
    intro pairs v hs
    cases hs
  delivered := by
    intro t ht r hr hstate
    rw [List.mem_singleton.mp ht] at hr
    exact .inl ⟨r, hr, rfl, hstate⟩
  current := List.mem_singleton.mpr rfl

/-- The pairs of a run stand for unsent deliveries, one for each. -/
theorem pairs_unsent {db : Db} {pairs : List IdAndRecipient} (hwf : WellFormed db)
    (h : DeliveryDao.unsentMessages db = .ok pairs) :
    pairs.Nodup ∧ ∀ p ∈ pairs, ∃ r ∈ db.delivery, key r = pairKey p ∧ r.state = Delivery.State.unsent.toString := by
  have hall := DeliveryDao.unsentMessages_forall₂ h
  have hkeys : pairs.map pairKey = (DeliveryDao.unsentRows db).map key := by
    have hcanonical : ∀ r ∈ DeliveryDao.unsentRows db, ∃ a : KulloAddress, r.recipient = a.toString :=
      fun r hr => hwf.recipients r (DeliveryDao.mem_unsentRows.mp hr).1
    generalize DeliveryDao.unsentRows db = rows at hall hcanonical
    clear h
    induction hall with
    | nil => rfl
    | @cons r p rows ps hp _ ih =>
      rw [List.forall_mem_cons] at hcanonical
      obtain ⟨a, ha⟩ := hcanonical.1
      have hrecipient : r.recipient = p.2.toString := by
        have hparse := hp.2
        rw [ha, KulloAddress.ofString_toString] at hparse
        cases hparse
        exact ha
      rw [List.map_cons, List.map_cons, ih hcanonical.2]
      congr 1
      exact Prod.ext hp.1 hrecipient.symm
  have hperm : (DeliveryDao.unsentRows db).Perm
      (db.delivery.filter (fun r => r.state == Delivery.State.unsent.toString)) := List.perm_insertionSort _ _
  have hnodup : ((DeliveryDao.unsentRows db).map key).Nodup := by
    rw [(hperm.map key).nodup_iff]
    exact (List.Sublist.map key List.filter_sublist).nodup hwf.unique
  constructor
  · rw [← hkeys] at hnodup
    exact List.Nodup.of_map _ hnodup
  · intro p hp
    have hmem : pairKey p ∈ (DeliveryDao.unsentRows db).map key := by
      rw [← hkeys]
      exact List.mem_map_of_mem hp
    obtain ⟨r, hr, hkey⟩ := List.mem_map.mp hmem
    obtain ⟨hin, hstate⟩ := DeliveryDao.mem_unsentRows.mp hr
    exact ⟨r, hin, hkey, hstate⟩

private theorem map_toString_of_mapM {names : List String} {recipients : List KulloAddress}
    (h : names.mapM KulloAddress.ofString = .ok recipients) (hnames : ∀ n ∈ names, ∃ a : KulloAddress, n = a.toString) :
    recipients.map KulloAddress.toString = names := by
  induction names generalizing recipients with
  | nil =>
    rw [List.mapM_nil] at h
    cases h
    rfl
  | cons n names ih =>
    rw [List.forall_mem_cons] at hnames
    obtain ⟨a, rfl⟩ := hnames.1
    rw [List.mapM_cons, KulloAddress.ofString_toString, ok_bind] at h
    obtain ⟨as, has, h⟩ := bind_eq_ok.mp h
    cases h
    rw [List.map_cons, ih has hnames.2]

/-- The participants of a conversation are distinct. -/
theorem recipients_nodup {db : Db} {id : IdType} {conv : ConversationDao} {recipients : List KulloAddress}
    (hwritten : ParticipantsWritten db) (hload : ConversationDao.load db id = some conv)
    (h : MessagesUploader.makeDelivery conv = .ok recipients) : recipients.Nodup := by
  obtain ⟨r, hr, rfl⟩ := Option.map_eq_some_iff.mp hload
  obtain ⟨participants, hnodup, hne, hwrite⟩ := hwritten r (Relational.Table.mem_of_find? hr)
  have hlist := ConversationDao.participantsList_make (d := ConversationDao.ofRow r) hne hwrite
  unfold MessagesUploader.makeDelivery at h
  rw [hlist] at h
  have hmap := map_toString_of_mapM h (by
    intro n hn
    obtain ⟨a, _, rfl⟩ := ConversationDao.mem_sortedNames.mp hn
    exact ⟨a, rfl⟩)
  have hperm : (ConversationDao.sortedNames participants).Perm (participants.map KulloAddress.toString) :=
    List.perm_insertionSort _ _
  have hnames : (ConversationDao.sortedNames participants).Nodup := by
    rw [hperm.nodup_iff]
    exact hnodup.map KulloAddress.toString_injective
  rw [← hmap] at hnames
  exact List.Nodup.of_map _ hnames

/-- New deliveries of a new message keep the table well formed. -/
theorem wellFormed_added {db db' : Db} {id : IdType} {recipients : List KulloAddress} (hwf : WellFormed db)
    (hnew : ∀ r ∈ db.delivery, r.messageId ≠ id) (hnodup : recipients.Nodup) (h : Added db db' id recipients) :
    WellFormed db' where
  recipients := by
    intro r hr
    rw [h.delivery, List.mem_append] at hr
    rcases hr with hr | hr
    · exact hwf.recipients r hr
    · obtain ⟨a, _, rfl⟩ := List.mem_map.mp hr
      exact ⟨a, rfl⟩
  unique := by
    rw [h.delivery, List.map_append, List.nodup_append]
    refine ⟨hwf.unique, ?_, ?_⟩
    · rw [List.map_map]
      refine hnodup.map ?_
      intro a a' heq
      have hpair : (id, a) = (id, a') := pairKey_injective heq
      exact congrArg Prod.snd hpair
    · intro k hk k' hk' heq
      obtain ⟨r, hr, rfl⟩ := List.mem_map.mp hk
      obtain ⟨r', hr', rfl⟩ := List.mem_map.mp hk'
      obtain ⟨a, _, rfl⟩ := List.mem_map.mp hr'
      exact hnew r hr (congrArg Prod.fst heq)
  participants := by
    unfold ParticipantsWritten
    rw [h.conversations]
    exact hwf.participants

/-- What an upload does, as seen from the deliveries. -/
theorem uploaded_cases {db₀ : Db} {s : System} {it : MessagesUploader.Iteration P} {db' : Db} (hs : Invariant db₀ s)
    (hnew : NewIds s (.upload it)) (h : Uploaded it s.db db') :
    WellFormed db' ∧ (∀ r ∈ db'.delivery, r.messageId ∈ s.ids ++ answeredIds it) ∧
      ∀ r ∈ db'.delivery, r ∈ s.db.delivery ∨ r.messageId ∉ s.ids ∧ r.state = Delivery.State.unsent.toString := by
  cases h with
  | same hsame =>
    refine ⟨⟨?_, ?_, ?_⟩, ?_, ?_⟩
    · rw [hsame.delivery]
      exact hs.wellFormed.recipients
    · rw [hsame.delivery]
      exact hs.wellFormed.unique
    · unfold ParticipantsWritten
      rw [hsame.conversations]
      exact hs.wellFormed.participants
    · rw [hsame.delivery]
      exact fun r hr => List.mem_append_left _ (hs.ids r hr)
    · rw [hsame.delivery]
      exact fun r hr => .inl hr
  | added draft hanswer hload hrecipients hadded =>
    rename_i msgSent conv recipients
    have hid := hnew msgSent hanswer
    have hids : answeredIds it = [msgSent.id] := by
      unfold answeredIds
      rw [hanswer]
    refine ⟨wellFormed_added hs.wellFormed ?_ (recipients_nodup hs.wellFormed.participants hload hrecipients) hadded, ?_,
      ?_⟩
    · intro r hr heq
      exact hid (heq ▸ hs.ids r hr)
    · intro r hr
      rw [hadded.delivery, List.mem_append] at hr
      rcases hr with hr | hr
      · exact List.mem_append_left _ (hs.ids r hr)
      · obtain ⟨a, _, rfl⟩ := List.mem_map.mp hr
        rw [hids]
        exact List.mem_append_right _ (List.mem_singleton.mpr rfl)
    · intro r hr
      rw [hadded.delivery, List.mem_append] at hr
      rcases hr with hr | hr
      · exact .inl hr
      · obtain ⟨a, _, rfl⟩ := List.mem_map.mp hr
        exact .inr ⟨hid, rfl⟩

private theorem unsent_ne_delivered : Delivery.State.unsent.toString ≠ Delivery.State.delivered.toString := by decide

private theorem failed_ne_delivered : Delivery.State.failed.toString ≠ Delivery.State.delivered.toString := by decide

theorem Invariant.upload {db₀ : Db} {s : System} {it : MessagesUploader.Iteration P} {db' : Db} (hs : Invariant db₀ s)
    (hsending : s.sending = none) (hnew : NewIds s (.upload it)) (h : Uploaded it s.db db') :
    Invariant db₀
      { s with
        db := db'
        ids := s.ids ++ answeredIds it
        history := s.history ++ [db'.delivery] } := by
  obtain ⟨hwf, hids, hrows⟩ := uploaded_cases hs hnew h
  refine ⟨hwf, hids, fun q hq => List.mem_append_left _ (hs.requestIds q hq), ?_, ?_, ?_⟩
  · intro pairs v hv
    rw [hsending] at hv
    cases hv
  · intro t ht r hr hstate
    rcases List.mem_append.mp ht with ht | ht
    · exact hs.delivered t ht r hr hstate
    · rw [List.mem_singleton.mp ht] at hr
      rcases hrows r hr with hold | ⟨_, hunsent⟩
      · exact hs.delivered _ hs.current r hold hstate
      · rw [hunsent] at hstate
        exact absurd hstate unsent_ne_delivered
  · exact List.mem_append_right _ (List.mem_singleton.mpr rfl)

/-- The iteration of a pair, as seen from the deliveries. -/
theorem send_cases {s : System} {v : MessagesSender.State} (it : MessagesSender.Iteration P) (p : IdAndRecipient)
    (accepted : Bool) (hdb : it.db = s.db) (hunique : (s.db.delivery.map key).Nodup) :
    ∃ made tables, Marking it p made s.db tables (final (MessagesSender.iterate it p v)).db ∧
      newRequests it accepted v (final (MessagesSender.iterate it p v)) =
        (if made then [⟨p.1, p.2, accepted, (it.throws .sendMessage).isNone⟩] else []) ∧
      newTables v (final (MessagesSender.iterate it p v)) =
        tables ++ [(final (MessagesSender.iterate it p v)).db.delivery] := by
  obtain ⟨made, tables, hdone⟩ := MessagesSender.iterate_effect it p v
  rw [← hdb] at hunique
  have hmarking := marking_of_effect hunique hdone.effect
  rw [hdb] at hmarking
  exact ⟨made, tables, hmarking, newRequests_eq hdone.requests, newTables_eq hdone.marks⟩

private theorem of_continuing {rest pairs : List IdAndRecipient} {r : EStateM.Result Exn MessagesSender.State Unit}
    {v : MessagesSender.State} (h : continuing rest r = some (pairs, v)) : pairs = rest := by
  cases r with
  | ok u v' =>
    cases h
    rfl
  | error e v' => cases h

theorem Invariant.send {db₀ : Db} {s : System} {p : IdAndRecipient} {rest : List IdAndRecipient}
    {v : MessagesSender.State} {it : MessagesSender.Iteration P} {made accepted : Bool} {db' : Db}
    {tables : List (List DeliveryRow)} {sending : Option (List IdAndRecipient × MessagesSender.State)}
    (hs : Invariant db₀ s) (hsending : s.sending = some (p :: rest, v)) (h : Marking it p made s.db tables db')
    (hrest : ∀ pairs v', sending = some (pairs, v') → pairs = rest) :
    Invariant db₀
      { s with
        db := db'
        sending := sending
        requests := s.requests ++ if made then [⟨p.1, p.2, accepted, (it.throws .sendMessage).isNone⟩] else []
        history := s.history ++ (tables ++ [db'.delivery]) } := by
  obtain ⟨hnodup, hpairs⟩ := hs.sending _ _ hsending
  rw [List.nodup_cons] at hnodup
  rw [List.forall_mem_cons] at hpairs
  -- no row is new
  have hold : ∀ r' ∈ db'.delivery, ∃ r ∈ s.db.delivery, key r = key r' := by
    intro r' hr'
    rcases h.last.rows r' hr' with hr | ⟨hr, _⟩
    · exact ⟨r', hr, rfl⟩
    · exact hr
  refine ⟨⟨?_, h.last.keys.nodup hs.wellFormed.unique, ?_⟩, ?_, ?_, ?_, ?_, ?_⟩
  · intro r' hr'
    obtain ⟨r, hr, hkey⟩ := hold r' hr'
    obtain ⟨a, ha⟩ := hs.wellFormed.recipients r hr
    exact ⟨a, (congrArg Prod.snd hkey).symm.trans ha⟩
  · unfold ParticipantsWritten
    rw [h.conversations]
    exact hs.wellFormed.participants
  · intro r' hr'
    obtain ⟨r, hr, hkey⟩ := hold r' hr'
    have hid : r.messageId = r'.messageId := congrArg Prod.fst hkey
    rw [← hid]
    exact hs.ids r hr
  · intro q hq
    rcases List.mem_append.mp hq with hq | hq
    · exact hs.requestIds q hq
    · cases made with
      | false => cases hq
      | true =>
        have hrequest := List.mem_singleton.mp hq
        subst hrequest
        exact hpairs.1.1
  · intro pairs v' hv'
    have hrest' := hrest pairs v' hv'
    subst hrest'
    refine ⟨hnodup.2, ?_⟩
    intro q hq
    refine ⟨(hpairs.2 q hq).1, ?_⟩
    intro r' hr' hkey'
    rcases h.last.rows r' hr' with hr | ⟨_, hkey, _⟩
    · exact (hpairs.2 q hq).2 r' hr hkey'
    -- a pair still waiting is another one
    · have hsame : q = p := pairKey_injective (hkey'.symm.trans hkey)
      subst hsame
      exact absurd hq hnodup.1
  · intro t ht r' hr' hstate
    -- what was delivered before has its request before
    have hbefore : ∀ t ∈ s.history, r' ∈ t →
        (∃ r₀ ∈ db₀.delivery, key r₀ = key r' ∧ r₀.state = Delivery.State.delivered.toString) ∨
          ∃ q ∈ s.requests ++ (if made then [⟨p.1, p.2, accepted, (it.throws .sendMessage).isNone⟩] else []),
            pairKey q.pair = key r' ∧ q.returned = true := by
      intro t ht hr
      rcases hs.delivered t ht r' hr hstate with hfirst | ⟨q, hq, hreturned⟩
      · exact .inl hfirst
      · exact .inr ⟨q, List.mem_append_left _ hq, hreturned⟩
    rcases List.mem_append.mp ht with ht | ht
    · exact hbefore t ht hr'
    rcases (h.marked_of_mem ht).rows r' hr' with hr | ⟨_, hkey, hdelivered | hfailed⟩
    · exact hbefore _ hs.current hr
    -- marked by this request, which returned
    · obtain ⟨_, rfl, hthrows⟩ := hdelivered
      refine .inr ⟨⟨p.1, p.2, accepted, (it.throws .sendMessage).isNone⟩, ?_, hkey.symm, ?_⟩
      · exact List.mem_append_right _ (List.mem_singleton.mpr rfl)
      · simp [hthrows]
    · rw [hfailed] at hstate
      exact absurd hstate failed_ne_delivered
  · exact List.mem_append_right _ (List.mem_append_right _ (List.mem_singleton.mpr rfl))

theorem Invariant.step {account : MessagesUploader.Account} {db₀ : Db} {s s' : System} {a : Action P}
    (hs : Invariant db₀ s) (hnew : NewIds s a) (h : Step account s a s') : Invariant db₀ s' := by
  cases h with
  | upload it hsending hu =>
    have huploaded := uploaded_iterate account it ‹MessagesUploader.State›
    rw [hu] at huploaded
    exact hs.upload hsending hnew huploaded
  | startSending n hsending hpairs =>
    obtain ⟨hnodup, hunsent⟩ := pairs_unsent hs.wellFormed hpairs
    refine ⟨hs.wellFormed, hs.ids, hs.requestIds, ?_, hs.delivered, hs.current⟩
    intro pairs v hv
    cases hv
    refine ⟨hnodup, ?_⟩
    intro p hp
    obtain ⟨r, hr, hkey, hstate⟩ := hunsent p hp
    have hid : r.messageId = p.1 := congrArg Prod.fst hkey
    refine ⟨hid ▸ hs.ids r hr, ?_⟩
    intro r' hr' hkey'
    have hsame : r = r' := List.inj_on_of_nodup_map hs.wellFormed.unique hr hr' (hkey.trans hkey'.symm)
    rw [← hsame]
    exact hstate
  | send it accepted hsending hdb =>
    obtain ⟨made, tables, hmarking, hrequests, htables⟩ := send_cases it _ accepted hdb hs.wellFormed.unique
    rw [hrequests, htables]
    exact hs.send hsending hmarking (fun _ _ h => of_continuing h)
  | stopSending =>
    refine ⟨hs.wellFormed, hs.ids, hs.requestIds, ?_, hs.delivered, hs.current⟩
    intro pairs v hv
    cases hv
  | others db hdelivery hwritten =>
    refine ⟨⟨?_, ?_, hwritten⟩, ?_, hs.requestIds, ?_, hs.delivered, ?_⟩
    · rw [hdelivery]
      exact hs.wellFormed.recipients
    · rw [hdelivery]
      exact hs.wellFormed.unique
    · rw [hdelivery]
      exact hs.ids
    · intro pairs v hv
      rw [hdelivery]
      exact hs.sending pairs v hv
    · rw [hdelivery]
      exact hs.current

/-! ### Deliveries move forward -/

/-- The tables have moved forward from one to the next and to the current one, and know no other ids. -/
structure Progressing (s : System) : Prop where
  forward : s.history.Pairwise Forward
  current : ∀ t ∈ s.history, Forward t s.db.delivery
  known : ∀ t ∈ s.history, ∀ r ∈ t, r.messageId ∈ s.ids

private theorem progressing_start {db : Db} (h : WellFormed db) : Progressing (start db) where
  forward := List.pairwise_singleton _ _
  current := by
    intro t ht
    rw [List.mem_singleton.mp ht]
    exact forward_refl h.unique
  known := by
    intro t ht r hr
    rw [List.mem_singleton.mp ht] at hr
    exact List.mem_map_of_mem hr

theorem Progressing.upload {db₀ : Db} {s : System} {it : MessagesUploader.Iteration P} {db' : Db} (h : Progressing s)
    (hs : Invariant db₀ s) (hnew : NewIds s (.upload it)) (huploaded : Uploaded it s.db db') :
    Progressing
      { s with
        db := db'
        ids := s.ids ++ answeredIds it
        history := s.history ++ [db'.delivery] } := by
  obtain ⟨hwf, hids, hrows⟩ := uploaded_cases hs hnew huploaded
  have hforward : ∀ t ∈ s.history, Forward t db'.delivery := by
    intro t ht r hr r' hr' hkey
    rcases hrows r' hr' with hold | ⟨hid, _⟩
    · exact h.current t ht r hr r' hold hkey
    · have hid' : r.messageId = r'.messageId := congrArg Prod.fst hkey
      rw [← hid'] at hid
      exact absurd (h.known t ht r hr) hid
  refine ⟨List.pairwise_append.mpr ⟨h.forward, List.pairwise_singleton _ _, ?_⟩, ?_, ?_⟩
  · intro t ht t' ht'
    rw [List.mem_singleton.mp ht']
    exact hforward t ht
  · intro t ht
    rcases List.mem_append.mp ht with ht | ht
    · exact hforward t ht
    · rw [List.mem_singleton.mp ht]
      exact forward_refl hwf.unique
  · intro t ht r hr
    rcases List.mem_append.mp ht with ht | ht
    · exact List.mem_append_left _ (h.known t ht r hr)
    · rw [List.mem_singleton.mp ht] at hr
      exact hids r hr

theorem Progressing.send {db₀ : Db} {s : System} {rest : List IdAndRecipient} {v : MessagesSender.State}
    {made : Bool} {tables : List (List DeliveryRow)} {db' : Db} (h : Progressing s) (hs : Invariant db₀ s)
    (hsending : s.sending = some (p :: rest, v)) (hmarking : Marking it p made s.db tables db')
    (hdisturbed : ¬ it.Disturbed) (sending : Option (List IdAndRecipient × MessagesSender.State))
    (requests : List Request) :
    Progressing
      { s with
        db := db'
        sending := sending
        requests := requests
        history := s.history ++ (tables ++ [db'.delivery]) } := by
  obtain ⟨_, hpairs⟩ := hs.sending _ _ hsending
  rw [List.forall_mem_cons] at hpairs
  have hforward : ∀ t ∈ s.history, ∀ t' ∈ tables ++ [db'.delivery], Forward t t' := by
    intro t ht t' ht' r hr r' hr' hkey
    rcases (hmarking.marked_of_mem ht').rows r' hr' with hold | ⟨⟨r₁, hr₁, hkey₁⟩, hkey', hstate⟩
    · exact h.current t ht r hr r' hold hkey
    · -- the delivery of the pair was unsent until now
      have hunsent : r₁.state = Delivery.State.unsent.toString := hpairs.1.2 r₁ hr₁ (hkey₁.trans hkey')
      have hmoved := h.current t ht r hr r₁ hr₁ (hkey.trans hkey₁.symm)
      have hbefore : r.state = Delivery.State.unsent.toString := by
        rcases hmoved with heq | ⟨hr, _⟩
        · exact heq.symm.trans hunsent
        · exact hr
      refine .inr ⟨hbefore, ?_⟩
      rcases hstate with ⟨hdelivered, _⟩ | hfailed
      · exact .inl hdelivered
      · exact .inr hfailed
  have hnew := hmarking.forward hdisturbed
  refine ⟨List.pairwise_append.mpr ⟨h.forward, hnew, hforward⟩, ?_, ?_⟩
  · intro t ht
    rcases List.mem_append.mp ht with ht | ht
    · exact hforward t ht _ (List.mem_append_right _ (List.mem_singleton.mpr rfl))
    · rcases List.mem_append.mp ht with ht | ht
      · exact (List.pairwise_append.mp hnew).2.2 t ht _ (List.mem_singleton.mpr rfl)
      · rw [List.mem_singleton.mp ht]
        exact forward_refl (hmarking.last.keys.nodup hs.wellFormed.unique)
  · intro t ht r hr
    rcases List.mem_append.mp ht with ht | ht
    · exact h.known t ht r hr
    · have hkey : key r ∈ s.db.delivery.map key := (hmarking.marked_of_mem ht).keys.subset (List.mem_map_of_mem hr)
      obtain ⟨r₀, hr₀, hkey₀⟩ := List.mem_map.mp hkey
      have hid : r₀.messageId = r.messageId := congrArg Prod.fst hkey₀
      rw [← hid]
      exact hs.ids r₀ hr₀

theorem Progressing.step {account : MessagesUploader.Account} {db₀ : Db} {s s' : System} {a : Action P}
    (h : Progressing s) (hs : Invariant db₀ s) (hnew : NewIds s a) (hquiet : Undisturbed s a)
    (hstep : Step account s a s') : Progressing s' := by
  cases hstep with
  | upload it hsending hu =>
    have huploaded := uploaded_iterate account it ‹MessagesUploader.State›
    rw [hu] at huploaded
    exact h.upload hs hnew huploaded
  | startSending n _ _ => exact ⟨h.forward, h.current, h.known⟩
  | send it accepted hsending hdb =>
    obtain ⟨made, tables, hmarking, _, htables⟩ := send_cases it _ accepted hdb hs.wellFormed.unique
    rw [htables]
    exact h.send hs hsending hmarking hquiet _ _
  | stopSending => exact ⟨h.forward, h.current, h.known⟩
  | others db hdelivery _ =>
    refine ⟨h.forward, ?_, h.known⟩
    rw [hdelivery]
    exact h.current

/-! ### Requests that the server accepted -/

/-- What holds in every state of a run in which accepted requests are acknowledged. -/
structure Settled (s : System) : Prop where
  delivered : ∀ q ∈ s.requests, q.accepted = true → ∀ r ∈ s.db.delivery, key r = pairKey q.pair →
    r.state = Delivery.State.delivered.toString
  once : ((s.requests.filter Request.accepted).map Request.pair).Nodup
  waiting : ∀ pairs v, s.sending = some (pairs, v) → ∀ p ∈ pairs, ∀ q ∈ s.requests, q.accepted = true → q.pair ≠ p

private theorem settled_start (db : Db) : Settled (start db) where
  delivered := by
    intro q hq
    cases hq
  once := List.nodup_nil
  waiting := by
    intro pairs v hs
    cases hs

theorem Settled.send {db₀ : Db} {s : System} {p : IdAndRecipient} {rest : List IdAndRecipient}
    {v : MessagesSender.State} {it : MessagesSender.Iteration P} {made accepted : Bool} {db' : Db}
    {tables : List (List DeliveryRow)} {sending : Option (List IdAndRecipient × MessagesSender.State)}
    (hset : Settled s) (hs : Invariant db₀ s) (hsending : s.sending = some (p :: rest, v))
    (h : Marking it p made s.db tables db') (hrest : ∀ pairs v', sending = some (pairs, v') → pairs = rest)
    (hack : accepted = true → ¬ it.Unrecorded ∧ ¬ it.Disturbed) (history : List (List DeliveryRow)) :
    Settled
      { s with
        db := db'
        sending := sending
        requests := s.requests ++ if made then [⟨p.1, p.2, accepted, (it.throws .sendMessage).isNone⟩] else []
        history := history } := by
  have hnotYet := hset.waiting _ _ hsending
  rw [List.forall_mem_cons] at hnotYet
  have hnodup := (hs.sending _ _ hsending).1
  rw [List.nodup_cons] at hnodup
  -- the only request that is new is the one of this iteration
  have hnew : ∀ q ∈ (if made then [(⟨p.1, p.2, accepted, (it.throws .sendMessage).isNone⟩ : Request)] else []),
      made = true ∧ q = ⟨p.1, p.2, accepted, (it.throws .sendMessage).isNone⟩ := by
    intro q hq
    cases made with
    | false => cases hq
    | true => exact ⟨rfl, List.mem_singleton.mp hq⟩
  refine ⟨?_, ?_, ?_⟩
  · intro q hq hq' r' hr' hkey
    rcases List.mem_append.mp hq with hq | hq
    · rcases h.last.rows r' hr' with hr | ⟨_, hkey', _⟩
      · exact hset.delivered q hq hq' r' hr hkey
      · exact absurd (pairKey_injective (hkey.symm.trans hkey')) (hnotYet.1 q hq hq')
    · obtain ⟨hmade, rfl⟩ := hnew q hq
      exact h.marked hmade (hack hq').1 (hack hq').2 r' hr' hkey
  · rw [List.filter_append, List.map_append, List.nodup_append]
    refine ⟨hset.once, ?_, ?_⟩
    · cases made with
      | false => exact List.nodup_nil
      | true => cases accepted <;> simp
    · intro x hx y hy heq
      obtain ⟨q, hq, rfl⟩ := List.mem_map.mp hx
      obtain ⟨q', hq', rfl⟩ := List.mem_map.mp hy
      obtain ⟨_, rfl⟩ := hnew q' (List.mem_filter.mp hq').1
      exact hnotYet.1 q (List.mem_filter.mp hq).1 (List.mem_filter.mp hq).2 heq
  · intro pairs v' hv' p' hp' q hq hq'
    have hrest' := hrest pairs v' hv'
    subst hrest'
    rcases List.mem_append.mp hq with hq | hq
    · exact hnotYet.2 p' hp' q hq hq'
    · obtain ⟨_, rfl⟩ := hnew q hq
      intro heq
      rw [← heq] at hp'
      exact hnodup.1 hp'

theorem Settled.step {account : MessagesUploader.Account} {db₀ : Db} {s s' : System} {a : Action P} (hset : Settled s)
    (hs : Invariant db₀ s) (hnew : NewIds s a) (hack : Acknowledged s a) (h : Step account s a s') : Settled s' := by
  cases h with
  | upload it hsending hu =>
    have huploaded := uploaded_iterate account it ‹MessagesUploader.State›
    rw [hu] at huploaded
    obtain ⟨_, _, hrows⟩ := uploaded_cases hs hnew huploaded
    refine ⟨?_, hset.once, ?_⟩
    · intro q hq hq' r hr hkey
      rcases hrows r hr with hold | ⟨hid, _⟩
      · exact hset.delivered q hq hq' r hold hkey
      · have hid' : r.messageId = q.message := congrArg Prod.fst hkey
        rw [hid'] at hid
        exact absurd (hs.requestIds q hq) hid
    · intro pairs v hv
      rw [hsending] at hv
      cases hv
  | startSending n hsending hpairs =>
    obtain ⟨_, hunsent⟩ := pairs_unsent hs.wellFormed hpairs
    refine ⟨hset.delivered, hset.once, ?_⟩
    intro pairs v hv p hp q hq hq' heq
    cases hv
    obtain ⟨r, hr, hkey, hstate⟩ := hunsent p hp
    have hdelivered := hset.delivered q hq hq' r hr (by rw [hkey, heq])
    rw [hstate] at hdelivered
    exact unsent_ne_delivered hdelivered
  | send it accepted hsending hdb =>
    obtain ⟨made, tables, hmarking, hrequests, _⟩ := send_cases it _ accepted hdb hs.wellFormed.unique
    rw [hrequests]
    exact hset.send hs hsending hmarking (fun _ _ h => of_continuing h) hack _
  | stopSending =>
    refine ⟨hset.delivered, hset.once, ?_⟩
    intro pairs v hv
    cases hv
  | others db hdelivery _ =>
    refine ⟨?_, hset.once, hset.waiting⟩
    rw [hdelivery]
    exact hset.delivered

/-! ### Runs -/

/-- A delivery that is delivered in a table was so at first, or a request for it returned normally. -/
def DeliveredAfterReturn (db₀ : Db) (s : System) : Prop :=
  ∀ t ∈ s.history, ∀ r ∈ t, r.state = Delivery.State.delivered.toString →
    (∃ r₀ ∈ db₀.delivery, key r₀ = key r ∧ r₀.state = Delivery.State.delivered.toString) ∨
      ∃ q ∈ s.requests, pairKey q.pair = key r ∧ q.returned = true

/-- No request for a failed delivery was accepted. -/
def FailedNotAccepted (s : System) : Prop :=
  ∀ r ∈ s.db.delivery, r.state = Delivery.State.failed.toString → ∀ q ∈ s.requests, pairKey q.pair = key r →
    q.accepted = false

/-- No pair was accepted twice. -/
def AcceptedOnce (s : System) : Prop := ((s.requests.filter Request.accepted).map Request.pair).Nodup

/-- In every run a delivery is delivered only after a request for it returned normally, and in runs without
disturbances deliveries only move forward.  In runs in which accepted requests return normally and are marked, no request
for a failed delivery was accepted and none is accepted twice. -/
theorem reaches_deliveries (account : MessagesUploader.Account) (db₀ : Db) (hwf : WellFormed db₀) :
    (∀ s, Transition.Reaches (Step (P := P) account) NewIds (start db₀) s → DeliveredAfterReturn db₀ s) ∧
      (∀ s, Transition.Reaches (Step (P := P) account) (fun s a => NewIds s a ∧ Undisturbed s a) (start db₀) s →
        s.db.delivery ∈ s.history ∧ s.history.Pairwise Forward) ∧
      ∀ s, Transition.Reaches (Step (P := P) account) (fun s a => NewIds s a ∧ Acknowledged s a) (start db₀) s →
        FailedNotAccepted s ∧ AcceptedOnce s := by
  refine ⟨?_, ?_, ?_⟩
  · intro s hs
    have hinv : Invariant db₀ s := hs.keeps (fun _ _ _ h hnew hstep => h.step hnew hstep) (invariant_start hwf)
    exact hinv.delivered
  · intro s hs
    have hboth : Invariant db₀ s ∧ Progressing s := by
      refine hs.keeps (I := fun s => Invariant db₀ s ∧ Progressing s) ?_ ⟨invariant_start hwf, progressing_start hwf⟩
      rintro s₁ a s₂ ⟨h₁, hprogressing⟩ ⟨hnew, hquiet⟩ hstep
      exact ⟨h₁.step hnew hstep, hprogressing.step h₁ hnew hquiet hstep⟩
    exact ⟨hboth.1.current, hboth.2.forward⟩
  · intro s hs
    have hboth : Invariant db₀ s ∧ Settled s := by
      refine hs.keeps (I := fun s => Invariant db₀ s ∧ Settled s) ?_ ⟨invariant_start hwf, settled_start db₀⟩
      rintro s₁ a s₂ ⟨h₁, hset⟩ ⟨hnew, hack⟩ hstep
      exact ⟨h₁.step hnew hstep, hset.step h₁ hnew hack hstep⟩
    refine ⟨?_, hboth.2.once⟩
    intro r hr hfailed q hq hkey
    -- an accepted request has marked its delivery, which is not failed then
    cases haccepted : q.accepted with
    | false => rfl
    | true =>
      have hdelivered := hboth.2.delivered q hq haccepted r hr hkey.symm
      rw [hfailed] at hdelivered
      exact absurd hdelivered failed_ne_delivered

/-! ### A message that is uploaded and sent -/

open MessagesUploader (plainPlatform plainAccount plainDb plainIteration)

private theorem plain_wellFormed : WellFormed plainDb where
  recipients := by
    intro r hr
    cases hr
  unique := List.nodup_nil
  participants := by
    intro r hr
    have hrow : r = ⟨1, "bob#kullo.test"⟩ := List.mem_singleton.mp hr
    exact ⟨[MessageDecoder.bob], List.nodup_singleton _, by simp, by rw [hrow]; decide⟩

def uploadedDb : Db := (final (MessagesUploader.iterate plainPlatform plainAccount plainIteration { db := plainDb })).db

/-- An iteration that sends the uploaded message, with what its calls raise. -/
def sendIteration (throws : MessagesSender.Call → Option Exn) : MessagesSender.Iteration plainPlatform where
  db := uploadedDb
  throws := throws
  encKeyId := 1
  encPubkey := []
  sigKeyId := 2
  sigKey := ([] : Bytes)
  random := ⟨[1], []⟩

def sendingPairs : List IdAndRecipient := [(7, MessageDecoder.bob)]

/-- The system after the message was uploaded and sent. -/
def sentSystem (throws : MessagesSender.Call → Option Exn) : System :=
  let result := MessagesSender.iterate (sendIteration throws) (7, MessageDecoder.bob) { db := uploadedDb }
  { db := (final result).db
    sending := continuing [] result
    requests := [] ++ newRequests (sendIteration throws) true { db := uploadedDb } (final result)
    ids := [7]
    history := [plainDb.delivery] ++ [uploadedDb.delivery] ++ newTables { db := uploadedDb } (final result) }

private theorem reaches_sent {ok : System → Action plainPlatform → Prop} (throws : MessagesSender.Call → Option Exn)
    (hupload : ok (start plainDb) (.upload plainIteration))
    (hstart : ∀ s, ok s (.startSending 0)) (hsend : ∀ s, ok s (.send (sendIteration throws) true)) :
    Transition.Reaches (Step plainAccount) ok (start plainDb) (sentSystem throws) := by
  have hpairs : DeliveryDao.unsentMessages uploadedDb = .ok sendingPairs := by decide
  let uploaded : System := { db := uploadedDb, ids := [7], history := [plainDb.delivery] ++ [uploadedDb.delivery] }
  have h₁ : Step plainAccount (start plainDb) (.upload plainIteration) uploaded :=
    .upload (u := { db := plainDb }) plainIteration rfl rfl
  have h₂ : Step plainAccount uploaded (.startSending 0 : Action plainPlatform)
      { uploaded with sending := some (sendingPairs, { db := uploadedDb }) } := .startSending 0 rfl hpairs
  have hsending : some (sendingPairs, { db := uploadedDb : MessagesSender.State }) =
      some ((7, MessageDecoder.bob) :: [], { db := uploadedDb }) := rfl
  have h₃ : Step plainAccount { uploaded with sending := some (sendingPairs, { db := uploadedDb }) }
      (.send (sendIteration throws) true) (sentSystem throws) :=
    .send (sendIteration throws) true hsending rfl
  exact ((Transition.Reaches.refl.snoc hupload h₁).snoc (hstart _) h₂).snoc (hsend _) h₃

private theorem plain_newIds : NewIds (start plainDb) (.upload plainIteration) := by
  intro msgSent _ hmem
  cases hmem

/-- The request returns, its delivery is marked, and the listener of the event raises a cancellation. -/
def deliveredThenCanceled (c : MessagesSender.Call) : Option Exn := if c = .emitDelivered then some .syncCanceled else none

private theorem deliveredThenCanceled_undisturbed : ¬ (sendIteration deliveredThenCanceled).Disturbed := by
  rintro ⟨e, he, -, hne⟩
  cases he
  exact hne rfl

/-- The delivery goes from unsent to delivered, and the request is accepted once. -/
theorem reaches_deliveries_plain :
    DeliveredAfterReturn plainDb (sentSystem deliveredThenCanceled) ∧
      (sentSystem deliveredThenCanceled).history.Pairwise Forward ∧
      (FailedNotAccepted (sentSystem deliveredThenCanceled) ∧ AcceptedOnce (sentSystem deliveredThenCanceled)) ∧
      (sentSystem deliveredThenCanceled).requests.map Request.accepted = [true] ∧
      (sentSystem deliveredThenCanceled).history.map (fun t => t.map DeliveryRow.state) =
        [[], ["unsent"], ["delivered"], ["delivered"]] := by
  have h := reaches_deliveries (P := plainPlatform) plainAccount plainDb plain_wellFormed
  have hack : ∀ s, Acknowledged s (.send (sendIteration deliveredThenCanceled) true) := by
    intro s _
    refine ⟨?_, deliveredThenCanceled_undisturbed⟩
    rintro (hu | hu) <;> exact hu rfl
  have hruns : Transition.Reaches (Step plainAccount) NewIds (start plainDb) (sentSystem deliveredThenCanceled) :=
    reaches_sent _ plain_newIds (fun _ => trivial) (fun _ => trivial)
  have hundisturbed : Transition.Reaches (Step plainAccount) (fun s a => NewIds s a ∧ Undisturbed s a) (start plainDb)
      (sentSystem deliveredThenCanceled) :=
    reaches_sent _ ⟨plain_newIds, trivial⟩ (fun _ => ⟨trivial, trivial⟩)
      (fun _ => ⟨trivial, deliveredThenCanceled_undisturbed⟩)
  have hacknowledged : Transition.Reaches (Step plainAccount) (fun s a => NewIds s a ∧ Acknowledged s a) (start plainDb)
      (sentSystem deliveredThenCanceled) :=
    reaches_sent _ ⟨plain_newIds, trivial⟩ (fun _ => ⟨trivial, trivial⟩) (fun s => ⟨trivial, hack s⟩)
  exact ⟨h.1 _ hruns, (h.2.1 _ hundisturbed).2, h.2.2 _ hacknowledged, by decide +kernel, by decide +kernel⟩

/-- The server accepts a request that ends with a timeout, and the delivery is marked as failed; and a listener that
raises after the delivery was marked as delivered has it marked as failed, too. -/
theorem not_failedNotAccepted_timeout :
    (¬ ∀ (P : Platform) (account : MessagesUploader.Account) (db₀ : Db), WellFormed db₀ → ∀ s,
      Transition.Reaches (Step (P := P) account) NewIds (start db₀) s → FailedNotAccepted s ∧ AcceptedOnce s) ∧
    ¬ ∀ (P : Platform) (account : MessagesUploader.Account) (db₀ : Db), WellFormed db₀ → ∀ s,
      Transition.Reaches (Step (P := P) account) NewIds (start db₀) s → s.history.Pairwise Forward := by
  constructor
  · intro h
    let throws : MessagesSender.Call → Option Exn := fun c => if c = .sendMessage then some .timeout else none
    have hruns : Transition.Reaches (Step plainAccount) NewIds (start plainDb) (sentSystem throws) :=
      reaches_sent _ plain_newIds (fun _ => trivial) (fun _ => trivial)
    have hfailed := (h plainPlatform plainAccount plainDb plain_wellFormed _ hruns).1
    have hrows : (sentSystem throws).db.delivery.map (fun r => (key r, r.state)) =
        [((7, "bob#kullo.test"), "failed")] := by decide +kernel
    have hrequests : (sentSystem throws).requests.map (fun q => (pairKey q.pair, q.accepted)) =
        [((7, "bob#kullo.test"), true)] := by decide +kernel
    obtain ⟨r, hrow, hr⟩ := List.map_eq_singleton_iff.mp hrows
    obtain ⟨q, hrequest, hq⟩ := List.map_eq_singleton_iff.mp hrequests
    obtain ⟨hkey, hstate⟩ := Prod.mk.inj hr
    obtain ⟨hpair, haccepted⟩ := Prod.mk.inj hq
    have hrefused := hfailed r (by rw [hrow]; exact List.mem_singleton.mpr rfl) hstate q
      (by rw [hrequest]; exact List.mem_singleton.mpr rfl) (hpair.trans hkey.symm)
    rw [haccepted] at hrefused
    cases hrefused
  · intro h
    let throws : MessagesSender.Call → Option Exn := fun c => if c = .emitDelivered then some .timeout else none
    have hruns : Transition.Reaches (Step plainAccount) NewIds (start plainDb) (sentSystem throws) :=
      reaches_sent _ plain_newIds (fun _ => trivial) (fun _ => trivial)
    have hforward := h plainPlatform plainAccount plainDb plain_wellFormed _ hruns
    have hseen : (sentSystem throws).history.map (fun t => t.map fun r => (key r, r.state)) =
        [[], [((7, "bob#kullo.test"), "unsent")], [((7, "bob#kullo.test"), "delivered")],
          [((7, "bob#kullo.test"), "failed")], [((7, "bob#kullo.test"), "failed")]] := by decide +kernel
    have hmoved : ((sentSystem throws).history.map fun t => t.map fun r => (key r, r.state)).Pairwise
        fun u u' => ∀ x ∈ u, ∀ y ∈ u', x.1 = y.1 → Moved x.2 y.2 := by
      refine List.pairwise_map.mpr (hforward.imp ?_)
      intro t t' ht x hx y hy hkey
      obtain ⟨r, hr, rfl⟩ := List.mem_map.mp hx
      obtain ⟨r', hr', rfl⟩ := List.mem_map.mp hy
      exact ht r hr r' hr' hkey
    rw [hseen] at hmoved
    simp only [List.pairwise_cons] at hmoved
    have hback : Moved "delivered" "failed" :=
      hmoved.2.2.1 _ List.mem_cons_self _ (List.mem_singleton.mpr rfl) _ (List.mem_singleton.mpr rfl) rfl
    revert hback
    unfold Moved
    decide

end Deliveries

end KulloClient
