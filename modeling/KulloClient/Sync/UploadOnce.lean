import KulloClient.Base.Runs
import KulloClient.Sync.UploadedMessage

/-!
# A draft is uploaded once

Over any sequence of runs the server accepts a draft at most once, and a draft it accepted has become one message with
its deliveries.  This needs an accepted upload to be recorded: what is accepted in an iteration that is canceled or
raises afterwards is uploaded again by the next run.
-/

namespace KulloClient

namespace MessagesUploader

open Imperative
open Relational (Table)

variable {P : Platform} {account : Account} {it : Iteration P}

/-! ### Sequences of runs -/

/-- A call of `run` with what its iterations meet, looked at after `length` iterations at the latest. -/
structure RunCall (P : Platform) where
  its : Nat → Iteration P
  length : Nat

/-- The state after a run or its first `n` iterations. -/
def afterRun (P : Platform) (account : Account) (its : Nat → Iteration P) : Nat → Nat → State → State
  | _, 0, s => s
  | i, n + 1, s =>
    match iterate P account (its i) s with
    | .ok true s' => afterRun P account its (i + 1) n s'
    | .ok false s' => s'
    | .error _ s' => s'

theorem afterRun_of_run {its : Nat → Iteration P} {i n : Nat} {s : State} {r : EStateM.Result Stop State Unit}
    (h : run P account its i n s = some r) : afterRun P account its i n s = final r := by
  induction n generalizing i s with
  | zero => cases h
  | succ n ih =>
    rw [run] at h
    rw [afterRun]
    cases hr : iterate P account (its i) s with
    | error e s' =>
      rw [hr] at h
      cases h
      rfl
    | ok more s' =>
      rw [hr] at h
      cases more with
      | true => exact ih h
      | false =>
        cases h
        rfl

/-- The variables of a new run. -/
def State.restart (s : State) : State := { db := s.db, trace := s.trace }

def RunStep (account : Account) (s : State) (call : RunCall P) (s' : State) : Prop :=
  s' = afterRun P account call.its 0 call.length s.restart

/-! ### What is asked of an iteration -/

/-- The try block gets as far as the request. -/
def Requests (account : Account) (it : Iteration P) (db : Db) (draft : DraftDao) : Prop :=
  ∃ conv msg delivery metaData, it.load db draft = .ok conv ∧ it.sendable account db draft = .ok msg ∧
    tooBig msg = none ∧ it.prepareMeta account conv = .ok (delivery, metaData)

/-- An upload that the server accepted is recorded: the answer arrives and has a new id, and nothing is canceled or
raised before the draft is cleared. -/
def Recorded (account : Account) (s : State) (it : Iteration P) : Prop :=
  ∀ draft, DraftDao.firstSendable s.db = some draft → Requests account it s.db draft →
    it.accepted = true ∨ (∃ msgSent, it.answer = .ok msgSent) →
    (∃ msgSent, it.answer = .ok msgSent ∧ FreshMessage s.db msgSent.id) ∧ it.cancelled .afterSend = false ∧
      it.throws .store = none ∧ it.throws .clearDraft = none

/-- Every iteration of a call records what it uploads. -/
def RunRecorded (account : Account) (s : State) (call : RunCall P) : Prop :=
  Meets account (Recorded account) call.its 0 call.length s.restart

/-! ### What an iteration does to a draft -/

/-- The server accepts the draft of a conversation. -/
def accepts (convId : IdType) : Event → Bool
  | .sendMessageToSelf c _ _ accepted => c == convId && accepted
  | _ => false

private theorem filter_accepts (convId : IdType) (events : List Event) :
    events.filter (accepts convId) = (events.filter isRequest).filter (accepts convId) := by
  rw [List.filter_filter]
  apply List.filter_congr
  intro e _
  cases e <;> simp [accepts, isRequest]

/-- Nothing is stored; a draft may be put back. -/
structure NoUpload (db db' : Db) (draft : DraftRow) : Prop where
  messages : db'.messages = db.messages
  conversations : db'.conversations = db.conversations
  delivery : db'.delivery = db.delivery
  drafts : db'.drafts = db.drafts ∨ db'.drafts = db.drafts.replace (editingRow draft)

theorem NoUpload.refl (db : Db) (draft : DraftRow) : NoUpload db db draft := ⟨rfl, rfl, rfl, .inl rfl⟩

/-- The draft became a message. -/
structure Upload (P : Platform) (account : Account) (it : Iteration P) (db db' : Db) (draft : DraftRow)
    (conv : ConversationDao) (delivery : List KulloAddress) (msgSent : MessageSent) : Prop where
  fresh : FreshMessage db msgSent.id
  load : ConversationDao.load db draft.conversationId = some conv
  recipients : makeDelivery conv = .ok delivery
  stored : Stored P account.address it.dateSent draft msgSent delivery db db'
  drafts : db'.drafts = db.drafts.replace (DraftDao.clearedRow draft)

theorem Sends.requests {db : Db} {draft : DraftDao} {conv : ConversationDao} {msgSent : MessageSent}
    {delivery : List KulloAddress} {req : Event} (h : Sends account it db draft conv msgSent delivery req) :
    Requests account it db draft := by
  cases h with
  | intro hload hmsg hbig hmeta _ => exact ⟨_, _, _, _, hload, hmsg, hbig, hmeta⟩

theorem Sends.recipients {db : Db} {draft : DraftDao} {conv : ConversationDao} {msgSent : MessageSent}
    {delivery : List KulloAddress} {req : Event} (h : Sends account it db draft conv msgSent delivery req) :
    makeDelivery conv = .ok delivery := by
  cases h with
  | intro _ _ _ hmeta _ =>
    unfold Iteration.prepareMeta at hmeta
    obtain ⟨_, _, hmeta⟩ := bind_eq_ok.mp hmeta
    obtain ⟨_, hdelivery, hmeta⟩ := bind_eq_ok.mp hmeta
    obtain ⟨_, _, hmeta⟩ := bind_eq_ok.mp hmeta
    obtain ⟨_, _, hmeta⟩ := bind_eq_ok.mp hmeta
    obtain ⟨_, _, hmeta⟩ := bind_eq_ok.mp hmeta
    cases hmeta
    exact (Iteration.call_eq_ok.mp hdelivery).2

/-- What raised was not accepted. -/
theorem Fails.filter_accepts {s : State} {draft : DraftDao} {e : Exn} {conv : Option ConversationDao}
    {requests : List Event} (hrecorded : Recorded account s it) (hdraft : DraftDao.firstSendable s.db = some draft)
    (h : Fails account it s.db draft e conv requests) (convId : IdType) : requests.filter (accepts convId) = [] := by
  cases h with
  | answer hload hmsg hbig hmeta hanswer =>
    cases haccepted : it.accepted with
    | false => simp [request, accepts, haccepted]
    | true =>
      obtain ⟨⟨msgSent, hok, _⟩, _⟩ := hrecorded draft hdraft ⟨_, _, _, _, hload, hmsg, hbig, hmeta⟩ (.inl haccepted)
      rw [hanswer] at hok
      cases hok
  | _ => rfl

/-- An iteration that records what it uploads stores the message of an accepted draft, or leaves the messages alone. -/
theorem Processed.of_recorded {s : State} {draft : DraftDao} {stop : Option Stop} {db' : Db} {events : List Event}
    (hrecorded : Recorded account s it) (hdraft : DraftDao.firstSendable s.db = some draft)
    (h : Processed account it s.db draft stop db' events) :
    (NoUpload s.db db' draft.row ∧ ∀ convId, events.filter (accepts convId) = []) ∨
      ∃ conv delivery msgSent, Upload P account it s.db db' draft.row conv delivery msgSent ∧
        ∀ convId, (events.filter (accepts convId)).length =
          if convId = draft.row.conversationId ∧ it.accepted = true then 1 else 0 := by
  cases h with
  | tooBig _ => exact .inl ⟨⟨rfl, rfl, rfl, .inr rfl⟩, fun _ => rfl⟩
  | canceled hfails _ => exact .inl ⟨.refl _ _, hfails.filter_accepts hrecorded hdraft⟩
  | handlerRaises hfails _ _ => exact .inl ⟨.refl _ _, hfails.filter_accepts hrecorded hdraft⟩
  | nullDereference hfails _ _ => exact .inl ⟨.refl _ _, hfails.filter_accepts hrecorded hdraft⟩
  | failed hfails _ _ =>
    refine .inl ⟨⟨rfl, rfl, rfl, .inr rfl⟩, ?_⟩
    intro convId
    rw [List.filter_append, hfails.filter_accepts hrecorded hdraft, List.nil_append, filter_accepts,
      filter_failedEvents, List.filter_nil]
  -- the endings in which an accepted upload would be lost contradict `Recorded`
  | sentCanceled hsends hcancel =>
    have := (hrecorded draft hdraft hsends.requests (.inr ⟨_, hsends.answer⟩)).2.1
    rw [hcancel] at this
    cases this
  | storeRaises hsends _ hstore =>
    obtain ⟨⟨msgSent, hanswer, hfresh⟩, _, hnone, _⟩ := hrecorded draft hdraft hsends.requests (.inr ⟨_, hsends.answer⟩)
    rw [hsends.answer] at hanswer
    cases hanswer
    obtain ⟨db₁, hok, _, _⟩ := store_eq_ok (P := P) account.address it.dateSent hfresh hsends.load
    rw [Iteration.call_of_none hnone, hok] at hstore
    cases hstore
  | clearRaises hsends _ _ hraises =>
    have := (hrecorded draft hdraft hsends.requests (.inr ⟨_, hsends.answer⟩)).2.2.2
    rw [hraises] at this
    cases this
  | cleared hsends _ hstore _ =>
    obtain ⟨⟨msgSent, hanswer, hfresh⟩, _, hnone, _⟩ := hrecorded draft hdraft hsends.requests (.inr ⟨_, hsends.answer⟩)
    rw [hsends.answer] at hanswer
    cases hanswer
    obtain ⟨db₁, hok, hstored, hdrafts⟩ := store_eq_ok (P := P) account.address it.dateSent hfresh hsends.load
    rw [Iteration.call_of_none hnone, hok] at hstore
    cases hstore
    right
    refine ⟨_, _, _, ⟨hfresh, hsends.load, hsends.recipients, hstored.cleared, ?_⟩, ?_⟩
    · unfold clearedDb
      rw [hdrafts]
    · intro convId
      have hreq := hsends.isRequest_eq
      rw [filter_accepts, List.cons_append, List.cons_append, List.filter_cons_of_pos hreq, List.filter_append,
        List.filter_append, filter_addedEvents, filter_clearedEvents]
      cases hsends with
      | intro _ _ _ _ _ =>
        by_cases hc : convId = draft.row.conversationId
        · subst hc
          cases haccepted : it.accepted <;> simp [request, accepts, isRequest, haccepted]
        · simp [request, accepts, isRequest, hc, Ne.symm hc]

/-! ### The draft of a conversation over a sequence of runs -/

/-- The messages of a conversation. -/
def messagesOf (db : Db) (convId : IdType) : List MessageRow :=
  db.messages.rows.filter fun r => r.conversationId = convId

/-- The deliveries of a message. -/
def deliveriesOf (db : Db) (messageId : IdType) : List DeliveryRow :=
  db.delivery.filter fun r => r.messageId = messageId

def unsentRow (messageId : IdType) (recipient : KulloAddress) : DeliveryRow where
  messageId := messageId
  recipient := recipient.toString
  state := Delivery.State.unsent.toString

/-- The draft of a conversation is not in state sending. -/
def NotSending (db : Db) (convId : IdType) : Prop :=
  ∀ r, db.drafts.find? convId = some r → r.state ≠ .sending

/-- Between `db₀` and `db` the draft became one message of its conversation, with one unsent delivery for each
participant. -/
def BecameMessage (db₀ db : Db) (convId : IdType) : Prop :=
  ∃ draft row conv recipients, db₀.drafts.find? convId = some draft ∧ row.text = draft.text ∧ row.footer = draft.footer ∧
    row.old = false ∧ messagesOf db convId = messagesOf db₀ convId ++ [row] ∧
    ConversationDao.load db₀ convId = some conv ∧ makeDelivery conv = .ok recipients ∧
    deliveriesOf db row.id = recipients.map (unsentRow row.id)

/-- At most one upload of the draft was accepted, and then it became a message and is no longer in state sending. -/
structure UploadedOnce (db₀ : Db) (convId : IdType) (s : State) : Prop where
  once : (s.trace.filter (accepts convId)).length ≤ 1
  became : s.trace.filter (accepts convId) ≠ [] → BecameMessage db₀ s.db convId ∧ NotSending s.db convId

/-- Where the draft stands: not yet processed, done with without having been accepted, or accepted. -/
inductive Phase (db₀ : Db) (convId : IdType) (s : State) : Prop
  | waiting : (s.trace.filter (accepts convId)).length = 0 → s.db.drafts.find? convId = db₀.drafts.find? convId →
      messagesOf s.db convId = messagesOf db₀ convId → Phase db₀ convId s
  | ended : (s.trace.filter (accepts convId)).length = 0 → NotSending s.db convId → Phase db₀ convId s
  | uploaded : (s.trace.filter (accepts convId)).length = 1 → BecameMessage db₀ s.db convId →
      NotSending s.db convId → Phase db₀ convId s

/-- The invariant of sequences of runs. -/
structure Invariant (db₀ : Db) (convId : IdType) (s : State) : Prop where
  conversations : s.db.conversations = db₀.conversations
  phase : Phase db₀ convId s

/-- The variables of a run do not matter. -/
theorem Invariant.congr {db₀ : Db} {convId : IdType} {s s' : State} (h : Invariant db₀ convId s) (hdb : s'.db = s.db)
    (htrace : s'.trace = s.trace) : Invariant db₀ convId s' := by
  obtain ⟨db, _, _, trace⟩ := s
  obtain ⟨db', _, _, trace'⟩ := s'
  cases hdb
  cases htrace
  obtain ⟨hconversations, hphase⟩ := h
  refine ⟨hconversations, ?_⟩
  cases hphase with
  | waiting hnone hdraft hmessages => exact .waiting hnone hdraft hmessages
  | ended hnone hsending => exact .ended hnone hsending
  | uploaded hone hbecame hsending => exact .uploaded hone hbecame hsending

private theorem Invariant.uploadedOnce {db₀ : Db} {convId : IdType} {s : State} (h : Invariant db₀ convId s) :
    UploadedOnce db₀ convId s := by
  cases h.phase with
  | waiting hnone _ _ =>
    refine ⟨by omega, fun hne => absurd (List.length_eq_zero_iff.mp hnone) hne⟩
  | ended hnone _ => exact ⟨by omega, fun hne => absurd (List.length_eq_zero_iff.mp hnone) hne⟩
  | uploaded hone hbecame hsending => exact ⟨by omega, fun _ => ⟨hbecame, hsending⟩⟩

section step

variable {db₀ db' : Db} {convId : IdType} {s s' : State} {draft : DraftRow}

private theorem find?_replace_row {db : Db} {r r' : DraftRow} (h : db.drafts.find? r.conversationId = some r)
    (hkey : r'.conversationId = r.conversationId) (c : IdType) :
    (db.drafts.replace r').find? c = if c = r.conversationId then some r' else db.drafts.find? c := by
  rw [Table.find?_replace, hkey]
  by_cases hc : c = r.conversationId
  · subst hc
    rw [if_pos rfl, if_pos rfl, h]
    rfl
  · rw [if_neg (Ne.symm hc), if_neg hc]

private theorem notSending_replace {db : Db} {r r' : DraftRow} (h : db.drafts.find? r.conversationId = some r)
    (hkey : r'.conversationId = r.conversationId) (hstate : r'.state ≠ .sending)
    (hdrafts : db'.drafts = db.drafts.replace r') {c : IdType} (hc : c = r.conversationId ∨ NotSending db c) :
    NotSending db' c := by
  intro r₁ hr₁
  rw [hdrafts, find?_replace_row h hkey] at hr₁
  split at hr₁
  · cases hr₁
    exact hstate
  · next hne => exact (hc.resolve_left hne) r₁ hr₁

private theorem BecameMessage.of_noUpload {db : Db} (h : BecameMessage db₀ db convId) (hno : NoUpload db db' draft) :
    BecameMessage db₀ db' convId := by
  unfold BecameMessage messagesOf deliveriesOf at *
  rw [hno.messages, hno.delivery]
  exact h

/-- Without an upload the draft stays where it stands, or is done with. -/
theorem Invariant.of_noUpload (h : Invariant db₀ convId s) (hfind : s.db.drafts.find? draft.conversationId = some draft)
    (hno : NoUpload s.db s'.db draft) (haccepts : (s'.trace.filter (accepts convId)).length =
      (s.trace.filter (accepts convId)).length) : Invariant db₀ convId s' where
  conversations := hno.conversations.trans h.conversations
  phase := by
    have hediting : (editingRow draft).state ≠ .sending := by simp [editingRow]
    have hkey : (editingRow draft).conversationId = draft.conversationId := rfl
    have hkeep : NotSending s.db convId → NotSending s'.db convId := by
      intro hsending
      rcases hno.drafts with hdrafts | hdrafts
      · unfold NotSending
        rw [hdrafts]
        exact hsending
      · exact notSending_replace hfind hkey hediting hdrafts (.inr hsending)
    cases h.phase with
    | waiting hnone hdraft hmessages =>
      rcases hno.drafts with hdrafts | hdrafts
      · refine .waiting (haccepts.trans hnone) ?_ ?_
        · rw [hdrafts, hdraft]
        · unfold messagesOf
          rw [hno.messages]
          exact hmessages
      · by_cases hc : convId = draft.conversationId
        · exact .ended (haccepts.trans hnone) (notSending_replace hfind hkey hediting hdrafts (.inl hc))
        · refine .waiting (haccepts.trans hnone) ?_ ?_
          · rw [hdrafts, find?_replace_row hfind hkey, if_neg hc, hdraft]
          · unfold messagesOf
            rw [hno.messages]
            exact hmessages
    | ended hnone hsending => exact .ended (haccepts.trans hnone) (hkeep hsending)
    | uploaded hone hbecame hsending =>
      exact .uploaded (haccepts.trans hone) (hbecame.of_noUpload hno) (hkeep hsending)

variable {conv : ConversationDao} {delivery : List KulloAddress} {msgSent : MessageSent}

private theorem Upload.messagesOf {db : Db} (h : Upload P account it db db' draft conv delivery msgSent) :
    messagesOf db' convId = messagesOf db convId ++
      if draft.conversationId = convId then [messageRow account.address it.dateSent msgSent draft] else [] := by
  unfold MessagesUploader.messagesOf
  rw [h.stored.message, List.filter_append]
  congr 1
  by_cases hc : draft.conversationId = convId <;> simp [messageRow, hc]

/-- The deliveries of the messages before an upload stay. -/
theorem Upload.deliveriesOf {db : Db} {messageId : IdType} (h : Upload P account it db db' draft conv delivery msgSent) :
    deliveriesOf db' messageId =
      if messageId = msgSent.id then delivery.map (unsentRow msgSent.id) else deliveriesOf db messageId := by
  have hnew : (delivery.map (unsentRow msgSent.id)).filter (fun r => decide (r.messageId = messageId)) =
      if messageId = msgSent.id then delivery.map (unsentRow msgSent.id) else [] := by
    rw [List.filter_map]
    by_cases hid : messageId = msgSent.id
    · subst hid
      simp [unsentRow, Function.comp_def]
    · simp [unsentRow, Function.comp_def, hid, Ne.symm hid]
  unfold MessagesUploader.deliveriesOf
  rw [h.stored.delivery]
  unfold DeliveryDao.insertUnsent
  rw [List.filter_append]
  change _ ++ (delivery.map (unsentRow msgSent.id)).filter _ = _
  rw [hnew]
  by_cases hid : messageId = msgSent.id
  · rw [if_pos hid, if_pos hid]
    have hnone : db.delivery.filter (fun r => decide (r.messageId = messageId)) = [] := by
      refine List.filter_eq_nil_iff.mpr ?_
      intro r hr
      rw [hid]
      simpa using h.fresh.delivery r hr
    rw [hnone, List.nil_append]
  · rw [if_neg hid, if_neg hid, List.append_nil]

private theorem BecameMessage.of_upload {db : Db} (h : BecameMessage db₀ db convId)
    (hupload : Upload P account it db db' draft conv delivery msgSent) (hc : draft.conversationId ≠ convId) :
    BecameMessage db₀ db' convId := by
  obtain ⟨draft₀, row, conv₀, recipients, hdraft, htext, hfooter, hold, hmessages, hconv, hrecipients, hdeliveries⟩ := h
  refine ⟨draft₀, row, conv₀, recipients, hdraft, htext, hfooter, hold, ?_, hconv, hrecipients, ?_⟩
  · rw [hupload.messagesOf, if_neg hc, List.append_nil, hmessages]
  · have hmem : row ∈ db.messages := by
      have hrow : row ∈ MessagesUploader.messagesOf db convId := by
        rw [hmessages]
        simp
      exact (List.mem_filter.mp hrow).1
    have hne : row.id ≠ msgSent.id := by
      intro heq
      refine Table.find?_eq_none.mp hupload.fresh.message row hmem ?_
      rw [← heq, ← hold]
      rfl
    rw [hupload.deliveriesOf, if_neg hne, hdeliveries]

/-- With an upload the draft is accepted, or is done with. -/
theorem Invariant.of_upload (h : Invariant db₀ convId s) (hfind : s.db.drafts.find? draft.conversationId = some draft)
    (hsending : draft.state = .sending) (hupload : Upload P account it s.db s'.db draft conv delivery msgSent)
    (haccepts : (s'.trace.filter (accepts convId)).length = (s.trace.filter (accepts convId)).length +
      if convId = draft.conversationId ∧ it.accepted = true then 1 else 0) : Invariant db₀ convId s' where
  conversations := hupload.stored.conversations.trans h.conversations
  phase := by
    have hcleared : (DraftDao.clearedRow draft).state ≠ .sending := by simp [DraftDao.clearedRow]
    have hkey : (DraftDao.clearedRow draft).conversationId = draft.conversationId := rfl
    by_cases hc : convId = draft.conversationId
    · subst hc
      have hover := notSending_replace hfind hkey hcleared hupload.drafts (.inl rfl)
      cases h.phase with
      | waiting hnone hdraft hmessages =>
        cases haccepted : it.accepted with
        | false => exact .ended (by simp [haccepts, hnone, haccepted]) hover
        | true =>
          refine .uploaded (by simp [haccepts, hnone, haccepted]) ?_ hover
          have hload : ConversationDao.load db₀ draft.conversationId = some conv := by
            have := hupload.load
            unfold ConversationDao.load at this ⊢
            rw [← h.conversations]
            exact this
          refine ⟨draft, messageRow account.address it.dateSent msgSent draft, conv, delivery, ?_, rfl, rfl, rfl, ?_, hload,
            hupload.recipients, ?_⟩
          · rw [← hdraft, hfind]
          · rw [hupload.messagesOf, if_pos rfl, hmessages]
          · have hid : (messageRow account.address it.dateSent msgSent draft).id = msgSent.id := rfl
            rw [hupload.deliveriesOf, hid, if_pos rfl]
      | ended _ hnot => exact absurd hsending (hnot draft hfind)
      | uploaded _ _ hnot => exact absurd hsending (hnot draft hfind)
    · have haccepts' : (s'.trace.filter (accepts convId)).length = (s.trace.filter (accepts convId)).length := by
        rw [haccepts, if_neg (fun h => hc h.1), Nat.add_zero]
      cases h.phase with
      | waiting hnone hdraft hmessages =>
        refine .waiting (haccepts'.trans hnone) ?_ ?_
        · rw [hupload.drafts, find?_replace_row hfind hkey, if_neg hc, hdraft]
        · rw [hupload.messagesOf, if_neg (Ne.symm hc), List.append_nil, hmessages]
      | ended hnone hnot =>
        exact .ended (haccepts'.trans hnone) (notSending_replace hfind hkey hcleared hupload.drafts (.inr hnot))
      | uploaded hone hbecame hnot =>
        exact .uploaded (haccepts'.trans hone) (hbecame.of_upload hupload (Ne.symm hc))
          (notSending_replace hfind hkey hcleared hupload.drafts (.inr hnot))

end step

theorem Invariant.iterate {db₀ : Db} {convId : IdType} {s : State} (h : Invariant db₀ convId s)
    (hrecorded : Recorded account s it) : Invariant db₀ convId (final (iterate P account it s)) := by
  obtain ⟨events, houtcome, htrace⟩ := iterate_outcome account it s
  have hcount : ((final (MessagesUploader.iterate P account it s)).trace.filter (accepts convId)).length =
      (s.trace.filter (accepts convId)).length + (events.filter (accepts convId)).length := by
    rw [htrace, List.filter_append, List.length_append]
  generalize endingOf (MessagesUploader.iterate P account it s) = ending at houtcome
  generalize final (MessagesUploader.iterate P account it s) = s' at houtcome htrace hcount
  generalize hdb : s'.db = db' at houtcome
  cases houtcome with
  | firstSendableRaises _ => exact h.congr hdb (htrace.trans (List.append_nil _))
  | done _ _ => exact h.congr hdb (htrace.trans (List.append_nil _))
  | early _ _ _ => exact h.congr hdb (htrace.trans (List.append_nil _))
  | processed _ hdraft _ hprocessed =>
    obtain ⟨hfind, hsending, _⟩ := DraftDao.of_firstSendable hdraft
    subst hdb
    rcases hprocessed.of_recorded hrecorded hdraft with ⟨hno, hevents⟩ | ⟨conv, delivery, msgSent, hupload, hevents⟩
    · refine h.of_noUpload hfind hno ?_
      rw [hcount, hevents, List.length_nil, Nat.add_zero]
    · refine h.of_upload hfind hsending hupload ?_
      rw [hcount, hevents]

theorem Invariant.afterRun {db₀ : Db} {convId : IdType} {its : Nat → Iteration P} {i n : Nat} {s : State}
    (h : Invariant db₀ convId s) (hrecorded : Meets account (Recorded account) its i n s) :
    Invariant db₀ convId (afterRun P account its i n s) := by
  induction n generalizing i s with
  | zero => exact h
  | succ n ih =>
    have hstep := h.iterate hrecorded.1
    rw [MessagesUploader.afterRun]
    cases hr : MessagesUploader.iterate P account (its i) s with
    | error e s' =>
      rw [hr] at hstep
      exact hstep
    | ok more s' =>
      rw [hr] at hstep
      cases more with
      | false => exact hstep
      | true => exact ih hstep (hrecorded.2 s' hr)

/-- Over every sequence of runs, each looked at after any number of iterations, in which accepted uploads are recorded,
the server accepts the draft of a conversation at most once, and if it did the draft is one message. -/
theorem reaches_uploadedOnce (db₀ : Db) (convId : IdType) (s : State)
    (h : Transition.Reaches (RunStep account) (RunRecorded (P := P) account) { db := db₀ } s) :
    UploadedOnce db₀ convId s := by
  have hinitial : Invariant db₀ convId { db := db₀ } := ⟨rfl, .waiting rfl rfl rfl⟩
  refine Invariant.uploadedOnce (h.keeps ?_ hinitial)
  rintro s₁ call s₂ hs₁ hrecorded rfl
  -- a new run starts with the database and the history of the last one
  have hrestart : Invariant db₀ convId s₁.restart := hs₁.congr rfl rfl
  exact hrestart.afterRun hrecorded

/-- A run that uploads the draft and finds no other. -/
def plainCall : RunCall plainPlatform := ⟨fun _ => plainIteration, 2⟩

def plainUploaded : State := afterRun plainPlatform plainAccount plainCall.its 0 2 { db := plainDb }

private theorem plain_recorded : RunRecorded plainAccount { db := plainDb } plainCall := by
  refine ⟨?_, ?_⟩
  · intro draft _ _ _
    exact ⟨⟨_, rfl, plain_fresh⟩, rfl, rfl, rfl⟩
  · intro s' hs'
    refine ⟨?_, fun _ _ => trivial⟩
    intro draft hdraft
    have hnone : DraftDao.firstSendable (final (iterate plainPlatform plainAccount plainIteration { db := plainDb })).db =
        none := rfl
    have hs : final (iterate plainPlatform plainAccount plainIteration { db := plainDb }) = s' := congrArg final hs'
    rw [hs, hdraft] at hnone
    cases hnone

theorem reaches_uploadedOnce_plain : UploadedOnce plainDb 1 plainUploaded ∧
    (plainUploaded.trace.filter (accepts 1)).length = 1 :=
  ⟨@reaches_uploadedOnce plainPlatform plainAccount plainDb 1 plainUploaded
    (Transition.Reaches.refl.snoc plain_recorded rfl), rfl⟩

/-- A run that is canceled after the server accepted the message. -/
def canceledCall : RunCall plainPlatform :=
  ⟨fun _ => { plainIteration with cancelled := fun c => c = .afterSend }, 1⟩

/-- After a run that was canceled between the upload and storing the message, the next run uploads the draft again. -/
theorem not_uploadedOnce_canceled :
    ¬ ∀ (P : Platform) (account : Account) (db₀ : Db) (convId : IdType) (s : State),
      Transition.Reaches (RunStep (P := P) account) (fun _ _ => True) { db := db₀ } s → UploadedOnce db₀ convId s := by
  intro h
  have hcanceled : Transition.Reaches (RunStep (P := plainPlatform) plainAccount) (fun _ _ => True) { db := plainDb } _ :=
    Transition.Reaches.refl.snoc (a := canceledCall) trivial rfl
  have honce := (h plainPlatform plainAccount plainDb 1 _ (hcanceled.snoc (a := plainCall) trivial rfl)).once
  exact absurd honce (by decide)

end MessagesUploader

end KulloClient
