import KulloClient.ApiImpl.ConversationsImpl
import KulloClient.Codec.MessageDecoder

/-!
# Conversations over a run

The main thread adds, looks up and removes conversations and handles the events; the syncer inserts the conversations
of new messages on its own.  A conversation is in the database and not in the cache exactly while its
`ConversationAdded` is on its way, so `add` finds the conversation it is asked for unless that event is on its way.
-/

namespace KulloClient

open Relational (Table)
open Transition (EventLoop)

/-- What a call or a delivery answered. -/
inductive ConversationsRecord
  | added (participants : List KulloAddress) (result : Except Exn IdType)
  | got (participants : List KulloAddress) (result : Except Exn (Option IdType))
  | delivered (event : Event) (result : Except Exn (List ApiEvent))
  deriving DecidableEq

/-- The database, the cache and what was answered, the latest answer first. -/
structure ConversationsSession where
  db : Db
  conversations : ConversationsImpl
  history : List ConversationsRecord := []

inductive ConversationsOp
  | add (participants : List KulloAddress)
  | get (participants : List KulloAddress)
  | triggerRemoval (convId : IdType)
  /-- `MessagesImpl::setState` or `remove`, for a message of the conversation. -/
  | modifyMessage (convId : IdType)
  /-- The syncer adds a message. -/
  | addMessage (participants : List KulloAddress)
  /-- The syncer modifies a message of the conversation, or the uploader stores one. -/
  | storeMessage (convId : IdType)
  deriving DecidableEq

namespace ConversationsSession

def record (s : ConversationsSession) (r : ConversationsRecord) : ConversationsSession := { s with history := r :: s.history }

def thread : ConversationsOp → SessionThread
  | .add _ | .get _ | .triggerRemoval _ | .modifyMessage _ => .main
  | .addMessage _ | .storeMessage _ => .syncer

def perform (currentUserAddress : KulloAddress) (op : ConversationsOp) (s : ConversationsSession) :
    Option (ConversationsSession × List Event) :=
  match op with
  | .add participants =>
    match s.conversations.add s.db currentUserAddress participants with
    -- an existing conversation is found without an event
    | .ok (convId, db, events) => some ({ s with db := db }.record (.added participants (.ok convId)), events)
    | .error e => some (s.record (.added participants (.error e)), [])
  | .get participants => some (s.record (.got participants (s.conversations.get participants)), [])
  | .triggerRemoval convId =>
    match s.conversations.triggerRemoval convId with
    | .ok events => some (s, events)
    | .error _ => some (s, [])
  | .modifyMessage convId | .storeMessage convId => some (s, [.conversationModified convId])
  | .addMessage participants =>
    match (conversationFor s.db participants).save s.db with
    | .ok (isNew, dao, db) =>
      some ({ s with db := db }, [if isNew then .conversationAdded dao.id else .conversationModified dao.id])
    -- the transaction is rolled back
    | .error _ => none

def handle (e : Event) (s : ConversationsSession) : ConversationsSession × List Event :=
  match s.conversations.notify s.db e with
  | .ok (apiEvents, conversations, db) =>
    ({ s with conversations := conversations, db := db }.record (.delivered e (.ok apiEvents)), [])
  | .error x => (s.record (.delivered e (.error x)), [])

/-- The session of a user. -/
def loop (currentUserAddress : KulloAddress) : EventLoop SessionThread ConversationsOp Event ConversationsSession where
  main := .main
  thread := thread
  perform := perform currentUserAddress
  handle := handle

/-- The session after its construction. -/
def initial (db : Db) : EventLoop.State SessionThread Event ConversationsSession where
  data := { db := db, conversations := .construct db }

end ConversationsSession

/-! ### What a run is asked for -/

namespace ConversationsRecord

/-- The call found or made the conversation of the participants. -/
def Answers (r : ConversationsRecord) (participants : List KulloAddress) (convId : IdType) : Prop :=
  r = .added participants (.ok convId) ∨ r = .got participants (.ok (some convId))

/-- A call for the same set of participants has the same answer. -/
def Agrees (r : ConversationsRecord) (participants : List KulloAddress) (convId : IdType) : Prop :=
  ∀ participants', (∀ a, a ∈ participants' ↔ a ∈ participants) →
    (∀ convId', r = .added participants' (.ok convId') → convId' = convId) ∧
    (∀ answer, r = .got participants' (.ok answer) → answer = some convId)

/-- The conversation is removed. -/
def Removes (r : ConversationsRecord) (convId : IdType) : Prop :=
  ∃ e apiEvents, r = .delivered e (.ok apiEvents) ∧ { event := .conversationRemoved, conversationId := convId } ∈ apiEvents

/-- A call of `add` finds or makes a conversation, and no delivery fails the assertion about the participants. -/
structure Fine (currentUserAddress : KulloAddress) (r : ConversationsRecord) : Prop where
  added : ∀ participants result, r = .added participants result →
    result ≠ .error sqliteConstraint ∧
    (participants ≠ [] → currentUserAddress ∉ participants → ∃ convId, result = .ok convId)
  erased : ∀ e, r ≠ .delivered e (.error (.assertionFailed "countErased > 0"))

end ConversationsRecord

namespace ConversationsSession

/-- No event is on its way that adds the conversation of the participants to the cache. -/
def Settled (s : ConversationsSession) (participants : List KulloAddress) (pending : Multiset Event) : Prop :=
  ∀ r ∈ s.db.conversations, r.participants = ConversationsImpl.participantsToString participants →
    .conversationAdded r.id ∉ pending

/-- `add` and `get` are called for settled participants, a modified conversation is handled after it is added, and the
ids stay in range. -/
def guard : EventLoop.Guard ConversationsOp Event ConversationsSession where
  perform op s pending :=
    match op with
    | .add participants => s.Settled participants pending ∧ ConversationDao.nextId s.db ≤ idMax
    | .get participants => s.Settled participants pending
    | .addMessage _ => ConversationDao.nextId s.db ≤ idMax
    | _ => True
  handle e _ pending :=
    match e with
    | .conversationModified convId => .conversationAdded convId ∉ pending
    | _ => True

instance (s : ConversationsSession) (participants : List KulloAddress) (pending : Multiset Event) :
    Decidable (s.Settled participants pending) :=
  inferInstanceAs (Decidable (∀ r ∈ s.db.conversations.rows,
    r.participants = ConversationsImpl.participantsToString participants → .conversationAdded r.id ∉ pending))

instance (op : ConversationsOp) (s : ConversationsSession) (pending : Multiset Event) :
    Decidable (guard.perform op s pending) :=
  match op with
  | .add participants => inferInstanceAs (Decidable (s.Settled participants pending ∧ _ ≤ _))
  | .get participants => inferInstanceAs (Decidable (s.Settled participants pending))
  | .addMessage _ => inferInstanceAs (Decidable (_ ≤ _))
  | .triggerRemoval _ | .modifyMessage _ | .storeMessage _ => isTrue trivial

instance (e : Event) (s : ConversationsSession) (pending : Multiset Event) : Decidable (guard.handle e s pending) :=
  match e with
  | .conversationModified convId => inferInstanceAs (Decidable (Event.conversationAdded convId ∉ pending))
  | .conversationAdded _ | .conversationWillBeRemoved _ | .messageAdded .. | .messageModified .. | .messageRemoved ..
  | .senderAdded .. | .draftModified _ | .draftRemoved _ | .draftAttachmentAdded .. | .draftAttachmentRemoved ..
  | .sendApiEvents _ => isTrue trivial

end ConversationsSession

/-! ### The invariant -/

namespace ConversationsSession

variable {currentUserAddress : KulloAddress} {s : ConversationsSession} {pending : Multiset Event}

/-- What the answers say about the database. -/
structure Remembers (currentUserAddress : KulloAddress) (db : Db) (history : List ConversationsRecord) : Prop where
  fine : ∀ r ∈ history, r.Fine currentUserAddress
  agree : ∀ later second between first earlier participants convId,
    history = later ++ second :: (between ++ first :: earlier) → first.Answers participants convId →
    (∀ r ∈ between, ¬ r.Removes convId) → second.Agrees participants convId
  live : ∀ between first earlier participants convId,
    history = between ++ first :: earlier → first.Answers participants convId →
    (∀ r ∈ between, ¬ r.Removes convId) →
    ⟨convId, ConversationsImpl.participantsToString participants⟩ ∈ db.conversations

structure Inv (currentUserAddress : KulloAddress) (s : ConversationsSession) (pending : Multiset Event) : Prop where
  inverse : s.conversations.MutuallyInverse
  cached : ∀ convId dao, s.conversations.conversations.find? convId = some dao →
    ConversationDao.load s.db convId = some dao
  unique : ConversationDao.UniqueParticipants s.db
  /-- An event is on its way, once, for each conversation that is not cached. -/
  announced : ∀ convId, pending.count (.conversationAdded convId) =
    ((ConversationDao.load s.db convId).isSome && (s.conversations.conversations.find? convId).isNone).toNat
  inRange : ∀ convId, .conversationAdded convId ∈ pending → convId ≤ idMax
  remembers : Remembers currentUserAddress s.db s.history

/-! #### The answers -/

theorem Remembers.push {db db' : Db} {history : List ConversationsRecord} {r : ConversationsRecord}
    (h : Remembers currentUserAddress db history) (hfine : r.Fine currentUserAddress)
    (hagree : ∀ participants convId,
      ⟨convId, ConversationsImpl.participantsToString participants⟩ ∈ db.conversations → r.Agrees participants convId)
    (hanswers : ∀ participants convId, r.Answers participants convId →
      ⟨convId, ConversationsImpl.participantsToString participants⟩ ∈ db'.conversations)
    (hkeep : ∀ row ∈ db.conversations, ¬ r.Removes row.id → row ∈ db'.conversations) :
    Remembers currentUserAddress db' (r :: history) := by
  constructor
  · intro r' hr'
    rcases List.mem_cons.mp hr' with rfl | hr'
    · exact hfine
    · exact h.fine r' hr'
  · intro later second between first earlier participants convId hsplit hfirst hbetween
    cases later with
    | nil =>
      obtain ⟨rfl, hhistory⟩ := List.cons.inj hsplit
      exact hagree participants convId (h.live between first earlier participants convId hhistory hfirst hbetween)
    | cons r' later =>
      obtain ⟨-, hhistory⟩ := List.cons.inj hsplit
      exact h.agree later second between first earlier participants convId hhistory hfirst hbetween
  · intro between first earlier participants convId hsplit hfirst hbetween
    cases between with
    | nil =>
      obtain ⟨rfl, -⟩ := List.cons.inj hsplit
      exact hanswers participants convId hfirst
    | cons r' between =>
      obtain ⟨rfl, hhistory⟩ := List.cons.inj hsplit
      have hlive := h.live between first earlier participants convId hhistory hfirst
        (fun x hx => hbetween x (List.mem_cons_of_mem _ hx))
      exact hkeep _ hlive (hbetween r List.mem_cons_self)

theorem Remembers.mono {db db' : Db} {history : List ConversationsRecord}
    (h : Remembers currentUserAddress db history) (hkeep : ∀ row ∈ db.conversations, row ∈ db'.conversations) :
    Remembers currentUserAddress db' history :=
  ⟨h.fine, h.agree, fun between first earlier participants convId hsplit hfirst hbetween =>
    hkeep _ (h.live between first earlier participants convId hsplit hfirst hbetween)⟩

/-- A delivery answers nothing. -/
theorem Remembers.delivered {db db' : Db} {history : List ConversationsRecord} {e : Event}
    {result : Except Exn (List ApiEvent)} (h : Remembers currentUserAddress db history)
    (hresult : result ≠ .error (.assertionFailed "countErased > 0"))
    (hkeep : ∀ row ∈ db.conversations, ¬ (ConversationsRecord.delivered e result).Removes row.id →
      row ∈ db'.conversations) :
    Remembers currentUserAddress db' (.delivered e result :: history) := by
  refine h.push ⟨?_, ?_⟩ ?_ ?_ hkeep
  · intro participants result h
    cases h
  · intro e' h
    cases h
    exact hresult rfl
  · intro participants convId _ participants' _
    constructor
    · intro convId' h
      cases h
    · intro answer h
      cases h
  · rintro participants convId (h | h)
    · cases h
    · cases h

/-! #### The cache and the database -/

private theorem Inv.row_of_cached (h : Inv currentUserAddress s pending) {convId : IdType} {dao : ConversationDao}
    (hcached : s.conversations.conversations.find? convId = some dao) :
    ⟨convId, dao.participants⟩ ∈ s.db.conversations := by
  obtain ⟨r, hr, rfl, rfl⟩ := ConversationDao.load_eq_some.mp (h.cached convId dao hcached)
  exact hr

private theorem Inv.row_of_lookup (h : Inv currentUserAddress s pending) {participants : String} {convId : IdType}
    (hlookup : s.conversations.lookup participants = some convId) :
    ⟨convId, participants⟩ ∈ s.db.conversations := by
  obtain ⟨dao, hcached, rfl⟩ := Option.map_eq_some_iff.mp ((h.inverse participants convId).mp hlookup)
  exact h.row_of_cached hcached

private theorem Inv.cached_of_row (h : Inv currentUserAddress s pending) {r : ConversationRow}
    (hr : r ∈ s.db.conversations) (hpending : .conversationAdded r.id ∉ pending) :
    s.conversations.conversations.find? r.id = some (ConversationDao.ofRow r) := by
  have hload : ConversationDao.load s.db r.id = some (.ofRow r) := ConversationDao.load_eq_some.mpr ⟨r, hr, rfl, rfl⟩
  have hcount := h.announced r.id
  rw [Multiset.count_eq_zero_of_notMem hpending, hload] at hcount
  cases hcached : s.conversations.conversations.find? r.id with
  | none => simp [hcached] at hcount
  | some dao =>
    rw [h.cached r.id dao hcached] at hload
    exact hload

/-- The cache knows the conversation of settled participants. -/
theorem Inv.lookup_iff (h : Inv currentUserAddress s pending) {participants : List KulloAddress}
    (hsettled : s.Settled participants pending) (convId : IdType) :
    s.conversations.lookup (ConversationsImpl.participantsToString participants) = some convId ↔
      ⟨convId, ConversationsImpl.participantsToString participants⟩ ∈ s.db.conversations := by
  constructor
  · exact h.row_of_lookup
  · intro hr
    rw [h.inverse, h.cached_of_row hr (hsettled _ hr rfl)]
    rfl

private theorem Inv.load_unique (h : Inv currentUserAddress s pending) {convId convId' : IdType} {participants : String}
    (hr : ⟨convId, participants⟩ ∈ s.db.conversations) (hr' : ⟨convId', participants⟩ ∈ s.db.conversations) :
    convId = convId' :=
  congrArg ConversationRow.id (h.unique _ hr _ hr' rfl)

/-! #### The operations -/

/-- A new conversation, with its event on its way. -/
theorem Inv.insert (h : Inv currentUserAddress s pending) {participants : String}
    (hfree : ∀ r ∈ s.db.conversations, r.participants ≠ participants) (hid : ConversationDao.nextId s.db ≤ idMax) :
    Inv currentUserAddress { s with db := ConversationDao.insertNew s.db participants }
      (pending + {.conversationAdded (ConversationDao.nextId s.db)}) := by
  have huncached : s.conversations.conversations.find? (ConversationDao.nextId s.db) = none := by
    cases hcached : s.conversations.conversations.find? (ConversationDao.nextId s.db) with
    | none => rfl
    | some dao =>
      have hload := h.cached _ _ hcached
      rw [ConversationDao.load_nextId] at hload
      cases hload
  refine ⟨h.inverse, ?_, ?_, ?_, ?_, h.remembers.mono ?_⟩
  · intro convId dao hcached
    rw [ConversationDao.load_insertNew, if_neg, h.cached convId dao hcached]
    rintro rfl
    rw [huncached] at hcached
    cases hcached
  · intro r hr r' hr' hp
    rcases ConversationDao.mem_insertNew.mp hr with hr | rfl
    · rcases ConversationDao.mem_insertNew.mp hr' with hr' | rfl
      · exact h.unique r hr r' hr' hp
      · exact absurd hp (hfree r hr)
    · rcases ConversationDao.mem_insertNew.mp hr' with hr' | rfl
      · exact absurd hp.symm (hfree r' hr')
      · rfl
  · intro convId
    have hcount := h.announced convId
    rw [Multiset.count_add, Multiset.count_singleton, ConversationDao.load_insertNew, hcount]
    by_cases heq : ConversationDao.nextId s.db = convId
    · subst heq
      simp [ConversationDao.load_nextId, huncached]
    · have hne : Event.conversationAdded convId ≠ .conversationAdded (ConversationDao.nextId s.db) := by
        intro hevent
        injection hevent with hevent
        exact heq hevent.symm
      rw [if_neg hne, if_neg heq, Nat.add_zero]
  · intro convId hmem
    rcases Multiset.mem_add.mp hmem with hmem | hmem
    · exact h.inRange convId hmem
    · cases Multiset.mem_singleton.mp hmem
      exact hid
  · intro row hrow
    exact ConversationDao.mem_insertNew.mpr (.inl hrow)

theorem Inv.record (h : Inv currentUserAddress s pending) {r : ConversationsRecord}
    (hremembers : Remembers currentUserAddress s.db (r :: s.history)) :
    Inv currentUserAddress (s.record r) pending :=
  ⟨h.inverse, h.cached, h.unique, h.announced, h.inRange, hremembers⟩

/-- Only `ConversationAdded` counts. -/
theorem Inv.announce (h : Inv currentUserAddress s pending) {e : Event} (he : ∀ convId, e ≠ .conversationAdded convId) :
    Inv currentUserAddress s (pending + {e}) := by
  refine ⟨h.inverse, h.cached, h.unique, ?_, ?_, h.remembers⟩
  · intro convId
    rw [Multiset.count_add, Multiset.count_singleton, if_neg (he convId).symm, Nat.add_zero]
    exact h.announced convId
  · intro convId hmem
    rcases Multiset.mem_add.mp hmem with hmem | hmem
    · exact h.inRange convId hmem
    · exact absurd (Multiset.mem_singleton.mp hmem).symm (he convId)

/-- A call of `add` that answers with the conversation of the participants. -/
theorem Inv.added (h : Inv currentUserAddress s pending) {participants : List KulloAddress} {convId : IdType}
    (hrow : ⟨convId, ConversationsImpl.participantsToString participants⟩ ∈ s.db.conversations) :
    Inv currentUserAddress (s.record (.added participants (.ok convId))) pending := by
  refine h.record (h.remembers.push ⟨?_, ?_⟩ ?_ ?_ ?_)
  · rintro participants' result ⟨rfl, rfl⟩
    refine ⟨?_, fun _ _ => ⟨convId, rfl⟩⟩
    intro hr
    cases hr
  · intro e hr
    cases hr
  · intro participants' convId' hrow' qs hsame
    constructor
    · intro convId'' hr
      cases hr
      rw [← ConversationsImpl.participantsToString_congr hsame] at hrow'
      exact h.load_unique hrow hrow'
    · intro answer hr
      cases hr
  · rintro participants' convId' (hr | hr)
    · cases hr
      exact hrow
    · cases hr
  · intro row hr _
    exact hr

/-- A call that fails an assertion. -/
theorem Inv.notAdded (h : Inv currentUserAddress s pending) {participants : List KulloAddress} {expression : String}
    (hinvalid : participants ≠ [] → currentUserAddress ∈ participants) :
    Inv currentUserAddress (s.record (.added participants (.error (.assertionFailed expression)))) pending := by
  refine h.record (h.remembers.push ⟨?_, ?_⟩ ?_ ?_ fun row hr _ => hr)
  · rintro participants' result ⟨rfl, rfl⟩
    refine ⟨?_, ?_⟩
    · intro hr
      cases hr
    · intro hne hself
      exact absurd (hinvalid hne) hself
  · intro e hr
    cases hr
  · intro participants' convId _ qs _
    refine ⟨?_, ?_⟩
    · intro convId' hr
      cases hr
    · intro answer hr
      cases hr
  · rintro participants' convId (hr | hr)
    · cases hr
    · cases hr

private theorem Inv.perform_add (h : Inv currentUserAddress s pending) {participants : List KulloAddress}
    (hsettled : s.Settled participants pending) (hid : ConversationDao.nextId s.db ≤ idMax)
    {s' : ConversationsSession} {events : List Event}
    (hstep : perform currentUserAddress (.add participants) s = some (s', events)) :
    Inv currentUserAddress s' (pending + ↑events) := by
  simp only [perform] at hstep
  rcases ConversationsImpl.add_cases s.conversations s.db currentUserAddress participants with
    ⟨hinvalid, expression, hadd⟩ | ⟨convId, hlookup, hadd⟩ | ⟨hne, hlookup, hadd⟩
  · rw [hadd] at hstep
    cases hstep
    simpa using h.notAdded hinvalid
  · rw [hadd] at hstep
    cases hstep
    simpa using h.added (h.row_of_lookup hlookup)
  · have hfree : ∀ r ∈ s.db.conversations, r.participants ≠ ConversationsImpl.participantsToString participants := by
      rintro ⟨convId, _⟩ hr rfl
      have := (h.lookup_iff hsettled convId).mpr hr
      rw [hlookup] at this
      cases this
    rw [hadd, ConversationDao.save_new (ConversationsImpl.participantsToString_ne_empty hne) hfree] at hstep
    cases hstep
    exact (h.insert hfree hid).added (ConversationDao.mem_insertNew.mpr (.inr rfl))

private theorem Inv.perform_get (h : Inv currentUserAddress s pending) {participants : List KulloAddress}
    (hsettled : s.Settled participants pending) :
    Inv currentUserAddress (s.record (.got participants (s.conversations.get participants))) pending := by
  have hget : ∀ answer, s.conversations.get participants = .ok answer →
      answer = s.conversations.lookup (ConversationsImpl.participantsToString participants) := by
    intro answer hanswer
    obtain ⟨_, -, hanswer⟩ := Imperative.bind_eq_ok.mp hanswer
    cases hanswer
    rfl
  refine h.record (h.remembers.push ⟨?_, ?_⟩ ?_ ?_ fun row hr _ => hr)
  · intro participants' result hr
    cases hr
  · intro e hr
    cases hr
  · intro participants' convId hrow qs hsame
    refine ⟨?_, ?_⟩
    · intro convId' hr
      cases hr
    · intro answer hr
      injection hr with hqs hanswer
      subst hqs
      rw [hget answer hanswer, h.lookup_iff hsettled, ConversationsImpl.participantsToString_congr hsame]
      exact hrow
  · rintro participants' convId (hr | hr)
    · cases hr
    · injection hr with hps hanswer
      subst hps
      exact h.row_of_lookup (hget _ hanswer).symm

/-- The syncer finds the conversation in the database or inserts it. -/
theorem Inv.perform_addMessage (h : Inv currentUserAddress s pending) {participants : List KulloAddress}
    (hid : ConversationDao.nextId s.db ≤ idMax) {s' : ConversationsSession} {events : List Event}
    (hstep : perform currentUserAddress (.addMessage participants) s = some (s', events)) :
    Inv currentUserAddress s' (pending + ↑events) := by
  simp only [perform, conversationFor, ConversationDao.loadByParticipants] at hstep
  cases hfind : s.db.conversations.rows.find?
      (fun r => r.participants == ConversationDao.makeParticipantsString participants) with
  | some r =>
    rw [hfind] at hstep
    cases hstep
    exact h.announce fun convId => Event.noConfusion
  | none =>
    have hfree : ∀ r ∈ s.db.conversations, r.participants ≠ ConversationDao.makeParticipantsString participants := by
      intro r hr
      simpa using List.find?_eq_none.mp hfind r hr
    rw [hfind] at hstep
    by_cases hempty : ConversationDao.makeParticipantsString participants = ""
    · have hconv : ({} : ConversationDao).setParticipants participants = {} := by
        unfold ConversationDao.setParticipants
        rw [if_pos hempty.symm]
      rw [Option.map_none] at hstep
      simp only [hconv, ConversationDao.save_empty] at hstep
      cases hstep
    · have hconv : ({} : ConversationDao).setParticipants participants =
          { participants := ConversationDao.makeParticipantsString participants } := by
        unfold ConversationDao.setParticipants
        rw [if_neg (fun hsame => hempty hsame.symm)]
      rw [Option.map_none] at hstep
      simp only [hconv, ConversationDao.save_new hempty hfree] at hstep
      cases hstep
      exact h.insert hfree hid

/-! #### The deliveries -/

private theorem handle_of_ok {e : Event} {apiEvents : List ApiEvent} {conversations : ConversationsImpl} {db : Db}
    (h : s.conversations.notify s.db e = .ok (apiEvents, conversations, db)) :
    (handle e s).1 = { s with conversations := conversations, db := db }.record (.delivered e (.ok apiEvents)) := by
  unfold handle
  rw [h]

private theorem handle_of_error {e : Event} {x : Exn} (h : s.conversations.notify s.db e = .error x) :
    (handle e s).1 = s.record (.delivered e (.error x)) := by
  unfold handle
  rw [h]

/-- A delivered event other than `ConversationAdded` was not counted. -/
theorem Inv.taken {e : Event} (h : Inv currentUserAddress s (e ::ₘ pending))
    (he : ∀ convId, e ≠ .conversationAdded convId) : Inv currentUserAddress s pending := by
  refine ⟨h.inverse, h.cached, h.unique, ?_, ?_, h.remembers⟩
  · intro convId
    rw [← h.announced convId, Multiset.count_cons_of_ne (he convId).symm]
  · intro convId hmem
    exact h.inRange convId (Multiset.mem_cons_of_mem hmem)

private theorem Inv.handle_conversationAdded {convId : IdType}
    (h : Inv currentUserAddress s (.conversationAdded convId ::ₘ pending)) :
    Inv currentUserAddress (handle (.conversationAdded convId) s).1 pending := by
  have hrange := h.inRange convId (Multiset.mem_cons_self _ _)
  have hcount := h.announced convId
  rw [Multiset.count_cons_self] at hcount
  -- the event is the one that announces the conversation, so it is stored and not cached
  have hstate : ((ConversationDao.load s.db convId).isSome &&
      (s.conversations.conversations.find? convId).isNone) = true := by
    by_contra hnot
    rw [Bool.eq_false_iff.mpr hnot, Bool.toNat_false] at hcount
    omega
  rw [hstate, Bool.toNat_true] at hcount
  rw [Bool.and_eq_true, Option.isNone_iff_eq_none] at hstate
  obtain ⟨dao, hload⟩ := Option.isSome_iff_exists.mp hstate.1
  obtain ⟨row, hrow, hid, hdao⟩ := ConversationDao.load_eq_some.mp hload
  subst hid hdao
  have huncached := hstate.2
  have hnotify : s.conversations.notify s.db (.conversationAdded row.id) =
      .ok ([{ event := .conversationAdded, conversationId := row.id }], s.conversations.emplace (.ofRow row), s.db) := by
    simp only [ConversationsImpl.notify, ConversationsImpl.conversationAdded_eq hrange hload]
    rfl
  -- no other conversation is cached under its participants
  have hunknown : s.conversations.lookup row.participants = none := by
    cases hlookup : s.conversations.lookup row.participants with
    | none => rfl
    | some convId =>
      have hid := h.load_unique (h.row_of_lookup hlookup) hrow
      obtain ⟨dao, hcached, -⟩ := Option.map_eq_some_iff.mp ((h.inverse _ _).mp hlookup)
      rw [hid, huncached] at hcached
      cases hcached
  rw [handle_of_ok hnotify]
  refine ⟨?_, ?_, h.unique, ?_, ?_, h.remembers.delivered ?_ fun r hr _ => hr⟩
  · exact h.inverse.emplace huncached hunknown
  · intro i dao hcached
    dsimp only [ConversationsSession.record] at hcached
    rw [ConversationsImpl.find?_emplace huncached] at hcached
    split at hcached
    · next hi =>
      subst hi
      cases hcached
      exact hload
    · exact h.cached i dao hcached
  · intro i
    dsimp only [ConversationsSession.record]
    rw [ConversationsImpl.find?_emplace huncached]
    by_cases hi : row.id = i
    · subst hi
      simp only [ConversationDao.ofRow_id, if_true, Option.isNone_some, Bool.and_false, Bool.toNat_false]
      omega
    · have hne : Event.conversationAdded i ≠ .conversationAdded row.id := by
        intro hevent
        injection hevent with hevent
        exact hi hevent.symm
      rw [if_neg (by simpa using hi), ← h.announced i, Multiset.count_cons_of_ne hne]
  · intro i hmem
    exact h.inRange i (Multiset.mem_cons_of_mem hmem)
  · intro hr
    cases hr

/-- A modified conversation is cached already, as it is. -/
theorem Inv.handle_conversationModified {convId : IdType} (h : Inv currentUserAddress s pending)
    (hadded : .conversationAdded convId ∉ pending) :
    Inv currentUserAddress (handle (.conversationModified convId) s).1 pending := by
  cases hmodified : s.conversations.conversationModified s.db convId with
  | error x =>
    have hnotify : s.conversations.notify s.db (.conversationModified convId) = .error x := by
      simp only [ConversationsImpl.notify, hmodified]
      rfl
    rw [handle_of_error hnotify]
    refine h.record (h.remembers.delivered ?_ fun r hr _ => hr)
    intro hx
    injection hx with hx
    exact ConversationsImpl.conversationModified_raises _ _ _ x hmodified hx
  | ok result =>
    obtain ⟨apiEvents, conversations⟩ := result
    obtain ⟨rfl, dao, hload, rfl⟩ := ConversationsImpl.conversationModified_eq_ok hmodified
    have hnotify : s.conversations.notify s.db (.conversationModified convId) =
        .ok ([{ event := .conversationChanged, conversationId := convId }],
          { s.conversations with conversations := s.conversations.conversations.insertOrReplace dao }, s.db) := by
      simp only [ConversationsImpl.notify, hmodified]
      rfl
    obtain ⟨row, hrow, rfl, rfl⟩ := ConversationDao.load_eq_some.mp hload
    have hcached := h.cached_of_row hrow hadded
    have hfind : ∀ i, (s.conversations.conversations.insertOrReplace (.ofRow row)).find? i =
        s.conversations.conversations.find? i := by
      intro i
      rw [Table.find?_insertOrReplace]
      split
      · next hi => rw [← hi, ConversationDao.ofRow_id, hcached]
      · rfl
    rw [handle_of_ok hnotify]
    refine ⟨?_, ?_, h.unique, ?_, h.inRange, h.remembers.delivered ?_ fun r hr _ => hr⟩
    · intro p i
      dsimp only [ConversationsSession.record]
      rw [hfind]
      exact h.inverse p i
    · intro i dao
      dsimp only [ConversationsSession.record]
      rw [hfind]
      exact h.cached i dao
    · intro i
      dsimp only [ConversationsSession.record]
      rw [hfind]
      exact h.announced i
    · intro hr
      cases hr

/-- A removed conversation leaves the cache and the database. -/
theorem Inv.handle_conversationWillBeRemoved {convId : IdType} (h : Inv currentUserAddress s pending) :
    Inv currentUserAddress (handle (.conversationWillBeRemoved convId) s).1 pending := by
  cases hcached : s.conversations.conversations.find? convId with
  | none =>
    have hnotify : s.conversations.notify s.db (.conversationWillBeRemoved convId) = .ok ([], s.conversations, s.db) :=
      ConversationsImpl.conversationWillBeRemoved_of_none hcached
    rw [handle_of_ok hnotify]
    refine h.record (h.remembers.delivered ?_ fun r hr _ => hr)
    intro hr
    cases hr
  | some dao =>
    have hid : dao.id = convId := Table.key_of_find? hcached
    subst hid
    have hnotify : s.conversations.notify s.db (.conversationWillBeRemoved dao.id) =
        .ok ([{ event := .conversationRemoved, conversationId := dao.id }], s.conversations.erase dao,
          dao.deletePermanently s.db) :=
      ConversationsImpl.conversationWillBeRemoved_of_some h.inverse hcached
    rw [handle_of_ok hnotify]
    refine ⟨h.inverse.erase hcached, ?_, ?_, ?_, h.inRange, h.remembers.delivered ?_ ?_⟩
    · intro i dao' hcached'
      dsimp only [ConversationsSession.record] at hcached' ⊢
      rw [ConversationsImpl.find?_erase] at hcached'
      rw [ConversationDao.load_deletePermanently]
      split at hcached'
      · cases hcached'
      · next hi => rw [if_neg hi, h.cached i dao' hcached']
    · intro r hr r' hr'
      exact h.unique r (Table.mem_deleteWhere.mp hr).1 r' (Table.mem_deleteWhere.mp hr').1
    · intro i
      have hcount := h.announced i
      dsimp only [ConversationsSession.record]
      rw [ConversationDao.load_deletePermanently, ConversationsImpl.find?_erase, hcount]
      by_cases hi : dao.id = i
      · subst hi
        simp [hcached]
      · rw [if_neg hi, if_neg hi]
    · intro hr
      cases hr
    · intro r hr hkept
      refine Table.mem_deleteWhere.mpr ⟨hr, ?_⟩
      by_contra hsame
      have hsame : r.id = dao.id := by simpa using hsame
      exact hkept ⟨_, _, rfl, by simp [hsame]⟩

/-- The events of the other listeners. -/
theorem Inv.handle_other {e : Event} (h : Inv currentUserAddress s pending)
    (hnotify : s.conversations.notify s.db e = .ok ([], s.conversations, s.db)) :
    Inv currentUserAddress (handle e s).1 pending := by
  rw [handle_of_ok hnotify]
  refine h.record (h.remembers.delivered ?_ fun r hr _ => hr)
  intro hr
  cases hr

/-! ### Runs -/

theorem inv_initial {db : Db} (hdb : ConversationDao.UniqueParticipants db) :
    Inv currentUserAddress (initial db).data (initial db).pending := by
  obtain ⟨hinverse, hfind⟩ := ConversationsImpl.construct_spec hdb
  refine ⟨hinverse, ?_, hdb, ?_, ?_, ?_⟩
  · intro convId dao hcached
    exact (hfind convId).symm.trans hcached
  · intro convId
    have hnone : ((ConversationDao.load db convId).isSome &&
        ((ConversationsImpl.construct db).conversations.find? convId).isNone) = false := by
      rw [hfind]
      cases ConversationDao.load db convId <;> rfl
    exact (congrArg Bool.toNat hnone).symm
  · intro convId hmem
    cases hmem
  · constructor
    · intro r hr
      cases hr
    · intro later second between first earlier participants convId hsplit
      simp [initial] at hsplit
    · intro between first earlier participants convId hsplit
      simp [initial] at hsplit

theorem Inv.perform (h : Inv currentUserAddress s pending) {op : ConversationsOp}
    (hok : guard.perform op s pending) {s' : ConversationsSession} {events : List Event}
    (hstep : ConversationsSession.perform currentUserAddress op s = some (s', events)) :
    Inv currentUserAddress s' (pending + ↑events) := by
  cases op with
  | add participants => exact h.perform_add hok.1 hok.2 hstep
  | get participants =>
    cases hstep
    simpa using h.perform_get hok
  | triggerRemoval convId =>
    simp only [ConversationsSession.perform] at hstep
    cases htrigger : s.conversations.triggerRemoval convId with
    | error x =>
      rw [htrigger] at hstep
      cases hstep
      simpa using h
    | ok removal =>
      rw [htrigger] at hstep
      cases hstep
      rcases ConversationsImpl.triggerRemoval_eq_ok htrigger with rfl | rfl
      · simpa using h
      · exact h.announce fun convId => Event.noConfusion
  | modifyMessage convId =>
    cases hstep
    exact h.announce fun convId => Event.noConfusion
  | addMessage participants => exact h.perform_addMessage hok hstep
  | storeMessage convId =>
    cases hstep
    exact h.announce fun convId => Event.noConfusion

theorem Inv.handle {e : Event} (h : Inv currentUserAddress s (e ::ₘ pending)) (hok : guard.handle e s pending) :
    Inv currentUserAddress (ConversationsSession.handle e s).1 pending := by
  cases e with
  | conversationAdded convId => exact h.handle_conversationAdded
  | conversationModified convId => exact (h.taken fun convId => Event.noConfusion).handle_conversationModified hok
  | conversationWillBeRemoved convId => exact (h.taken fun convId => Event.noConfusion).handle_conversationWillBeRemoved
  | _ => exact (h.taken fun convId => Event.noConfusion).handle_other rfl

private theorem handle_events (e : Event) (s : ConversationsSession) : (handle e s).2 = [] := by
  unfold handle
  split <;> rfl

theorem reaches_inv {db : Db} (hdb : ConversationDao.UniqueParticipants db)
    {s : EventLoop.State SessionThread Event ConversationsSession}
    (h : Transition.Reaches (loop currentUserAddress).Step guard.Ok (initial db) s) :
    Inv currentUserAddress s.data s.pending := by
  refine EventLoop.Reaches.keeps ?_ ?_ h (inv_initial hdb)
  · intro op d p d' events hd hok hstep
    exact hd.perform hok hstep
  · intro e d p hd hok
    have hevents : ((loop currentUserAddress).handle e d).2 = [] := handle_events e d
    rw [hevents, Multiset.coe_nil, Multiset.add_zero]
    exact hd.handle hok

/-- Two users. -/
def alice : KulloAddress := .alice

def bob : KulloAddress := .bob

/-- The calls of `add` and `get`, the latest first. -/
def answers (s : ConversationsSession) : List ConversationsRecord :=
  s.history.filter fun
    | .delivered _ _ => false
    | _ => true

end ConversationsSession

end KulloClient
