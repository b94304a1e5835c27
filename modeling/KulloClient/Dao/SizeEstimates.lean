import KulloClient.Codec.MessageEncoder
import Mathlib.Algebra.Order.BigOperators.Group.List
import Mathlib.Data.List.Count
import Mathlib.Data.List.TakeWhile

/-!
# The size of what is to be sent

The estimates are computed by two queries, the amounts they stand for by the uploader and the sender, from what they
encode.  The two agree unless a text is longer in bytes than in characters, attachments of a draft and of a message
share an id, or a message has an `old` row.
-/

namespace KulloClient

open Imperative

/-! ### The amounts -/

/-- SQL's `replace(text, ',', '')`. -/
def removeCommas (text : String) : String :=
  String.ofList (text.toList.filter (fun c => c ≠ ','))

/-- `DraftDao::sizeOfAllSendable`. -/
def DraftDao.sizeOfAllSendable (bareRow : List AttachmentRow → Option AttachmentRow) (db : Db) : Nat :=
  (db.drafts.rows.flatMap fun d =>
    (db.conversations.rows.filter fun c => d.conversationId = c.id ∧ d.state = .sending).map fun c =>
      (perMessageOverhead + sqlLength d.text + attsizes bareRow db true c.id) *
        (sqlLength c.participants - sqlLength (removeCommas c.participants) + 2)).sum

namespace SizeEstimates

/-- The drafts in state sending that have a conversation. -/
def sendable (db : Db) : List (DraftRow × ConversationRow) :=
  db.drafts.rows.flatMap fun d =>
    (db.conversations.rows.filter fun c => d.conversationId = c.id ∧ d.state = .sending).map fun c => (d, c)

/-- The unsent deliveries, each with a row of its message. -/
def unsent (db : Db) : List (MessageRow × DeliveryRow) :=
  db.messages.rows.flatMap fun m =>
    (db.delivery.filter fun d => m.id = d.messageId ∧ d.state = Delivery.State.unsent.toString).map fun d => (m, d)

/-- The unsent deliveries of current messages. -/
def undelivered (db : Db) : List (MessageRow × DeliveryRow) :=
  (unsent db).filter fun p => p.1.old = false

/-- What the uploader counts for a draft. -/
def draftAmount (db : Db) (d : DraftRow) : Nat :=
  perMessageOverhead + d.text.utf8ByteSize + AttachmentDao.sizeOfAllForMessage db true d.conversationId

/-- What the sender counts for a message. -/
def messageAmount (db : Db) (m : MessageRow) : Nat :=
  perMessageOverhead + m.text.utf8ByteSize + AttachmentDao.sizeOfAllForMessage db false m.id

/-- What the query counts for a row of a message, if it counts the attachments of the message. -/
def countedRow (db : Db) (m : MessageRow) : Nat :=
  perMessageOverhead + sqlLength m.text + AttachmentDao.sizeOfAllForMessage db false m.id

/-- A pick of a row from every group that has one. -/
structure Bare (bareRow : List AttachmentRow → Option AttachmentRow) : Prop where
  mem : ∀ group r, bareRow group = some r → r ∈ group
  picks : ∀ group, group ≠ [] → ∃ r, bareRow group = some r

/-- The estimates are the sums of what is counted when it is sent. -/
structure Agree (P : Platform) (db : Db) : Prop where
  sendable : ∀ bareRow, Bare bareRow → DraftDao.sizeOfAllSendable bareRow db =
    ((sendable db).map fun p =>
      draftAmount db p.1 * ((ConversationDao.ofRow p.2).participantsList.length + 1)).sum
  undelivered : ∀ bareRow, Bare bareRow → MessageDao.sizeOfAllUndelivered bareRow db =
    ((undelivered db).map fun p => messageAmount db p.1).sum
  totalSize : ∀ address draft dateSent msg, MessageEncoder.encodeDraft P db address draft dateSent = .ok msg →
    perMessageOverhead + draft.row.text.utf8ByteSize + msg.attachments.length = draftAmount db draft.row
  estimatedSize : ∀ message msg, MessageEncoder.encodeMessage P db message = .ok msg →
    perMessageOverhead + message.row.text.utf8ByteSize + msg.attachments.length = messageAmount db message.row

/-! ### When they agree -/

/-- A text of ASCII characters other than NUL. -/
def Plain (text : String) : Prop := ∀ c ∈ text.toList, c ≠ '\x00' ∧ c.utf8Size = 1

/-- Attachments of a draft and of a message share the id, and not all of them are empty. -/
structure Shared (db : Db) (id : IdType) : Prop where
  draft : ∃ r ∈ db.attachments, r.messageId = id ∧ r.draft = true
  message : ∃ r ∈ db.attachments, r.messageId = id ∧ r.draft = false
  size : ∃ r ∈ db.attachments, r.messageId = id ∧ r.size ≠ 0

/-- The bytes of a text that `length` does not count. -/
def uncounted (text : String) : Nat := text.utf8ByteSize - sqlLength text

/-- The condition on the drafts. -/
def DraftsCounted (db : Db) : Prop :=
  ∀ p ∈ sendable db, Plain p.1.text ∧ ¬ Shared db p.1.conversationId

/-- The condition on the messages: what `length` leaves out is what the `old` rows add. -/
structure MessagesCounted (db : Db) : Prop where
  shared : ∀ p ∈ unsent db, ¬ Shared db p.1.id
  balance : ((undelivered db).map fun p => uncounted p.1.text).sum =
    (((unsent db).filter fun p => p.1.old = true).map fun p => countedRow db p.1).sum

/-! ### Sums -/

/-- Two sums of which one is below the other in every term are equal if all terms are. -/
theorem sum_map_eq_iff {α : Type} {l : List α} {f g : α → Nat} (hle : ∀ a ∈ l, f a ≤ g a) :
    (l.map f).sum = (l.map g).sum ↔ ∀ a ∈ l, f a = g a := by
  constructor
  · intro heq a ha
    by_contra hne
    have hlt : f a < g a := Nat.lt_of_le_of_ne (hle a ha) hne
    have := List.sum_lt_sum f g hle ⟨a, ha, hlt⟩
    omega
  · intro h
    rw [List.map_congr_left h]

/-! ### Texts -/

private theorem length_le_utf8ByteSize (cs : List Char) : cs.length ≤ (String.ofList cs).utf8ByteSize := by
  induction cs with
  | nil => simp
  | cons c cs ih =>
    have hpos := c.utf8Size_pos
    rw [List.length_cons, ← List.singleton_append, String.ofList_append, String.utf8ByteSize_append]
    have hc : (String.ofList [c]).utf8ByteSize = c.utf8Size := by simp
    omega

private theorem sqlLength_ofList_le (cs : List Char) :
    (cs.takeWhile (fun c => c ≠ '\x00')).length ≤ (String.ofList cs).utf8ByteSize := by
  have htake : (cs.takeWhile (fun c => c ≠ '\x00')).length ≤ cs.length := (List.takeWhile_sublist _).length_le
  have := length_le_utf8ByteSize cs
  omega

private theorem sqlLength_le (text : String) : sqlLength text ≤ text.utf8ByteSize := by
  have := sqlLength_ofList_le text.toList
  rwa [String.ofList_toList] at this

private theorem sqlLength_ofList_eq_iff (cs : List Char) :
    (cs.takeWhile (fun c => c ≠ '\x00')).length = (String.ofList cs).utf8ByteSize ↔
      ∀ c ∈ cs, c ≠ '\x00' ∧ c.utf8Size = 1 := by
  induction cs with
  | nil => simp
  | cons c cs ih =>
    have hpos := c.utf8Size_pos
    have hle := sqlLength_ofList_le cs
    have hbytes : (String.ofList (c :: cs)).utf8ByteSize = c.utf8Size + (String.ofList cs).utf8ByteSize := by
      rw [← List.singleton_append, String.ofList_append, String.utf8ByteSize_append]
      simp
    rw [hbytes, List.forall_mem_cons, ← ih]
    by_cases hc : c = '\x00'
    · subst hc
      simp
      omega
    · rw [List.takeWhile_cons_of_pos (by simpa using hc), List.length_cons]
      constructor
      · intro h
        refine ⟨⟨hc, ?_⟩, ?_⟩ <;> omega
      · rintro ⟨⟨_, h1⟩, h2⟩
        omega

private theorem sqlLength_eq_iff (text : String) : sqlLength text = text.utf8ByteSize ↔ Plain text := by
  have := sqlLength_ofList_eq_iff text.toList
  rwa [String.ofList_toList] at this

/-! ### Groups of attachments -/

section groups

variable {db : Db} {id : IdType} {bareRow : List AttachmentRow → Option AttachmentRow}

/-- The rows with a message id, of drafts and of messages. -/
def group (db : Db) (id : IdType) : List AttachmentRow := db.attachments.select (fun r => r.messageId == id)

private theorem mem_group {r : AttachmentRow} : r ∈ group db id ↔ r ∈ db.attachments ∧ r.messageId = id := by
  simp [group]

private theorem sizeOfAllForMessage_eq (db : Db) (k : IsDraft) (id : IdType) :
    AttachmentDao.sizeOfAllForMessage db k id =
      (((group db id).filter fun r => r.draft = k).map AttachmentRow.size).sum := by
  unfold AttachmentDao.sizeOfAllForMessage group Relational.Table.select
  rw [List.filter_filter]
  congr 2

private theorem sum_group (db : Db) (k : IsDraft) (id : IdType) :
    ((group db id).map AttachmentRow.size).sum =
      AttachmentDao.sizeOfAllForMessage db k id + AttachmentDao.sizeOfAllForMessage db (!k) id := by
  rw [sizeOfAllForMessage_eq, sizeOfAllForMessage_eq,
    ← List.sum_map_filter_add_sum_map_filter_not (fun r : AttachmentRow => r.draft = k) AttachmentRow.size (group db id)]
  congr 3
  apply List.filter_congr
  intro r _
  cases r.draft <;> cases k <;> rfl

/-- A group of one kind, or of nothing but empty attachments, is counted for its kind. -/
theorem attsizes_of_not_shared (hbare : Bare bareRow) (h : ¬ Shared db id) (k : IsDraft) :
    attsizes bareRow db k id = AttachmentDao.sizeOfAllForMessage db k id := by
  have hsum := sum_group db k id
  have hdef : attsizes bareRow db k id = if (bareRow (group db id)).map AttachmentRow.draft = some k then
      ((group db id).map AttachmentRow.size).sum else 0 := rfl
  have hzero : ∀ k', (∀ r ∈ group db id, r.draft = k' → r.size = 0) →
      AttachmentDao.sizeOfAllForMessage db k' id = 0 := by
    intro k' hall
    rw [sizeOfAllForMessage_eq, List.sum_eq_zero_iff]
    simp only [List.mem_map, List.mem_filter, decide_eq_true_eq]
    rintro n ⟨r, ⟨hr, hk⟩, rfl⟩
    exact hall r hr hk
  by_cases hk : ∃ r ∈ group db id, r.draft = k
  · by_cases hk' : ∃ r ∈ group db id, r.draft = !k
    · -- both kinds, so every attachment is empty
      have hempty : ∀ r ∈ group db id, r.size = 0 := by
        intro r hr
        by_contra hne
        obtain ⟨a, ha, hak⟩ := hk
        obtain ⟨b, hb, hbk⟩ := hk'
        rw [mem_group] at ha hb hr
        cases k with
        | false => exact h ⟨⟨b, hb.1, hb.2, hbk⟩, ⟨a, ha.1, ha.2, hak⟩, ⟨r, hr.1, hr.2, hne⟩⟩
        | true => exact h ⟨⟨a, ha.1, ha.2, hak⟩, ⟨b, hb.1, hb.2, hbk⟩, ⟨r, hr.1, hr.2, hne⟩⟩
      have h1 := hzero k (fun r hr _ => hempty r hr)
      have h2 := hzero (!k) (fun r hr _ => hempty r hr)
      rw [hdef]
      split <;> omega
    · have h2 := hzero (!k) (fun r hr hrk => absurd ⟨r, hr, hrk⟩ hk')
      obtain ⟨a, ha, _⟩ := hk
      obtain ⟨r, hpick⟩ := hbare.picks (group db id) (List.ne_nil_of_mem ha)
      have hr := hbare.mem _ _ hpick
      have hrk : r.draft = k := by
        by_contra hne
        exact hk' ⟨r, hr, Bool.eq_not_of_ne hne⟩
      rw [hdef, hpick, Option.map_some, hrk, if_pos rfl]
      omega
  · have h1 := hzero k (fun r hr hrk => absurd ⟨r, hr, hrk⟩ hk)
    rw [hdef, if_neg, h1]
    intro hpick
    obtain ⟨r, hr, hrk⟩ := Option.map_eq_some_iff.mp hpick
    exact hk ⟨r, hbare.mem _ _ hr, hrk⟩

/-- The pick of a row of one kind, where there is one. -/
def prefer (k : IsDraft) (group : List AttachmentRow) : Option AttachmentRow :=
  (group.find? fun r => r.draft = k).or group.head?

private theorem bare_prefer (k : IsDraft) : Bare (prefer k) where
  mem := by
    intro group r h
    unfold prefer at h
    rcases Option.or_eq_some_iff.mp h with h | ⟨_, h⟩
    · exact List.mem_of_find?_eq_some h
    · exact List.mem_of_head? h
  picks := by
    intro group hne
    unfold prefer
    cases hf : group.find? fun r => r.draft = k with
    | some r => exact ⟨r, rfl⟩
    | none =>
      obtain ⟨r, hr⟩ := Option.ne_none_iff_exists'.mp (mt List.head?_eq_none_iff.mp hne)
      exact ⟨r, hr⟩

private theorem prefer_draft {k : IsDraft} (h : ∃ r ∈ group db id, r.draft = k) :
    (prefer k (group db id)).map AttachmentRow.draft = some k := by
  unfold prefer
  cases hf : (group db id).find? fun r => r.draft = k with
  | some r => simpa using List.find?_some hf
  | none =>
    obtain ⟨r, hr, hk⟩ := h
    have := List.find?_eq_none.mp hf r hr
    simp [hk] at this

private theorem Shared.exists_draft (h : Shared db id) (k : IsDraft) : ∃ r ∈ group db id, r.draft = k := by
  cases k with
  | true =>
    obtain ⟨r, hr, hid, hk⟩ := h.draft
    exact ⟨r, mem_group.mpr ⟨hr, hid⟩, hk⟩
  | false =>
    obtain ⟨r, hr, hid, hk⟩ := h.message
    exact ⟨r, mem_group.mpr ⟨hr, hid⟩, hk⟩

/-- A shared group is counted with all of its attachments or with none, as the pick decides. -/
theorem Shared.attsizes_prefer (h : Shared db id) (k : IsDraft) :
    attsizes (prefer (!k)) db k id = 0 ∧ 
      attsizes (prefer k) db k id = ((group db id).map AttachmentRow.size).sum := by
  have hyes : (prefer k (group db id)).map AttachmentRow.draft = some k := prefer_draft (h.exists_draft k)
  have hno : (prefer (!k) (group db id)).map AttachmentRow.draft = some (!k) := prefer_draft (h.exists_draft (!k))
  constructor
  · refine if_neg ?_
    change (prefer (!k) (group db id)).map AttachmentRow.draft ≠ some k
    rw [hno]
    cases k <;> decide
  · exact if_pos hyes

private theorem Shared.sum_pos (h : Shared db id) : 0 < ((group db id).map AttachmentRow.size).sum := by
  obtain ⟨r, hr, hid, hsize⟩ := h.size
  have hmem : r.size ∈ (group db id).map AttachmentRow.size := List.mem_map_of_mem (mem_group.mpr ⟨hr, hid⟩)
  have hle := List.le_sum_of_mem hmem
  omega

/-- The two picks have the attachments of one kind between them. -/
theorem attsizes_prefer_le (db : Db) (k : IsDraft) (id : IdType) :
    attsizes (prefer (!k)) db k id ≤ AttachmentDao.sizeOfAllForMessage db k id ∧
      AttachmentDao.sizeOfAllForMessage db k id ≤ attsizes (prefer k) db k id := by
  by_cases h : Shared db id
  · obtain ⟨hnone, hall⟩ := h.attsizes_prefer k
    have hsum := sum_group db k id
    omega
  · rw [attsizes_of_not_shared (bare_prefer k) h, attsizes_of_not_shared (bare_prefer (!k)) h]
    exact ⟨Nat.le_refl _, Nat.le_refl _⟩

/-- Where the pick makes no difference, the group is not shared. -/
theorem not_shared_of_attsizes_eq {k : IsDraft} (h : attsizes (prefer (!k)) db k id = attsizes (prefer k) db k id) :
    ¬ Shared db id := by
  intro hs
  obtain ⟨hnone, hall⟩ := hs.attsizes_prefer k
  have hpos := hs.sum_pos
  omega

end groups

/-! ### Participants -/

/-- What `ConversationDao::save` writes: the participants are not empty, and they are joined by `setParticipants`. -/
def Written (c : ConversationRow) : Prop :=
  ∃ participants, participants ≠ [] ∧ c.participants = ConversationDao.makeParticipantsString participants

private theorem count_intercalate {α : Type} [DecidableEq α] {sep : α} {ls : List (List α)} (hne : ls ≠ [])
    (hsep : ∀ l ∈ ls, sep ∉ l) : ([sep].intercalate ls).count sep + 1 = ls.length := by
  induction ls with
  | nil => exact absurd rfl hne
  | cons l ls ih =>
    have hl : l.count sep = 0 := List.count_eq_zero.mpr (hsep l (by simp))
    by_cases hls : ls = []
    · subst hls
      simp [hl]
    · have := ih hls (fun l hl => hsep l (by simp [hl]))
      rw [List.intercalate_cons_of_ne_nil hls, List.count_append, List.count_append, hl, List.count_singleton_self,
        List.length_cons]
      omega

private theorem takeWhile_of_notMem {α : Type} [DecidableEq α] {a : α} {l : List α} (h : a ∉ l) :
    l.takeWhile (fun b => b ≠ a) = l := by
  rw [List.takeWhile_eq_self_iff]
  intro b hb
  exact decide_eq_true (fun hba => h (hba ▸ hb))

/-- The commas of a participants string count its participants. -/
theorem participants_length {c : ConversationRow} (h : Written c) :
    sqlLength c.participants - sqlLength (removeCommas c.participants) + 2 =
      (ConversationDao.ofRow c).participantsList.length + 1 := by
  obtain ⟨participants, hne, hmake⟩ := h
  have hlist : (ConversationDao.ofRow c).participantsList = ConversationDao.sortedNames participants :=
    ConversationDao.participantsList_make hne hmake
  have hlength : (ConversationDao.sortedNames participants).length = participants.length := by
    simp [ConversationDao.sortedNames]
  have hchars : c.participants.toList =
      [','].intercalate ((ConversationDao.sortedNames participants).map String.toList) := by
    have hjoin : c.participants = String.intercalate "," (ConversationDao.sortedNames participants) := hmake
    rw [hjoin, String.toList_intercalate]
    rfl
  have hname : ∀ l ∈ (ConversationDao.sortedNames participants).map String.toList, ',' ∉ l ∧ '\x00' ∉ l := by
    intro l hl
    obtain ⟨name, hname, rfl⟩ := List.mem_map.mp hl
    obtain ⟨p, _, rfl⟩ := ConversationDao.mem_sortedNames.mp hname
    exact ⟨p.comma_notMem_toString, p.notMem_toString (by decide) (by decide)⟩
  have hcount : c.participants.toList.count ',' + 1 = participants.length := by
    rw [hchars, count_intercalate, List.length_map, hlength]
    · rw [ne_eq, List.map_eq_nil_iff, ← List.length_eq_zero_iff, hlength, List.length_eq_zero_iff]
      exact hne
    · exact fun l hl => (hname l hl).1
  have hnul : '\x00' ∉ c.participants.toList := by
    rw [hchars]
    intro hmem
    rcases Strings.mem_intercalate hmem with h | ⟨l, hl, h⟩
    · exact absurd h (by decide)
    · exact (hname l hl).2 h
  have hall : sqlLength c.participants = c.participants.toList.length := by
    unfold sqlLength
    rw [takeWhile_of_notMem hnul]
  have hrest : sqlLength (removeCommas c.participants) = (c.participants.toList.filter fun b => b ≠ ',').length := by
    unfold sqlLength removeCommas
    rw [String.toList_ofList, takeWhile_of_notMem]
    exact fun h => hnul (List.mem_of_mem_filter h)
  have hsplit : c.participants.toList.length =
      c.participants.toList.count ',' + (c.participants.toList.filter fun b => b ≠ ',').length := by
    rw [List.length_eq_countP_add_countP (fun b => b == ','), ← List.count_eq_countP, ← List.countP_eq_length_filter]
    congr 2
    funext b
    simp
  rw [hlist, hlength, hall, hrest]
  omega

/-! ### What is encoded -/

private theorem encodeAttachments_length {db : Db} {daos : List AttachmentDao} {data : Bytes} {index : List Json}
    (h : MessageEncoder.encodeAttachments db daos = .ok (data, index)) :
    data.length = (daos.map fun dao => dao.row.size).sum := by
  induction daos generalizing data index with
  | nil =>
    cases h
    rfl
  | cons dao daos ih =>
    unfold MessageEncoder.encodeAttachments at h
    obtain ⟨content, _, h⟩ := bind_eq_ok.mp h
    by_cases hsize : dao.row.size = content.length
    · rw [if_neg (not_not.mpr hsize)] at h
      obtain ⟨⟨data', index'⟩, hrest, h⟩ := bind_eq_ok.mp h
      cases h
      rw [List.length_append, ih hrest, List.map_cons, List.sum_cons, hsize]
    · rw [if_pos hsize] at h
      cases h

private theorem sum_allForMessage (db : Db) (k : IsDraft) (id : IdType) :
    ((AttachmentDao.allForMessage db k id).map fun dao => dao.row.size).sum =
      AttachmentDao.sizeOfAllForMessage db k id := by
  unfold AttachmentDao.allForMessage AttachmentDao.sizeOfAllForMessage
  rw [List.map_map]
  exact ((List.perm_insertionSort _ _).map _).sum_eq

theorem encodeParts_length {P : Platform} {db : Db} {convId : IdType} {sender : SenderDao} {avatar : Bytes}
    {dateSent text footer : String} {k : IsDraft} {id : IdType} {msg : EncodedMessage}
    (h : MessageEncoder.encodeParts P db convId sender avatar dateSent text footer
      (AttachmentDao.allForMessage db k id) = .ok msg) :
    msg.attachments.length = AttachmentDao.sizeOfAllForMessage db k id := by
  unfold MessageEncoder.encodeParts at h
  cases hconv : ConversationDao.load db convId with
  | none =>
    rw [hconv] at h
    cases h
  | some conv =>
    rw [hconv] at h
    obtain ⟨⟨data, index⟩, hatts, h⟩ := bind_eq_ok.mp h
    cases h
    exact (encodeAttachments_length hatts).trans (sum_allForMessage db k id)

theorem encodeMessage_length {P : Platform} {db : Db} {message : MessageDao} {msg : EncodedMessage}
    (h : MessageEncoder.encodeMessage P db message = .ok msg) :
    msg.attachments.length = AttachmentDao.sizeOfAllForMessage db false message.row.id := by
  unfold MessageEncoder.encodeMessage at h
  obtain ⟨sender, _, h⟩ := bind_eq_ok.mp h
  cases sender with
  | none => cases h
  | some sender =>
    dsimp only at h
    cases hhash : sender.avatarHash with
    | none =>
      rw [hhash] at h
      exact encodeParts_length h
    | some hash =>
      rw [hhash] at h
      obtain ⟨avatar, _, h⟩ := bind_eq_ok.mp h
      exact encodeParts_length h

/-! ### The estimates -/

section agree

variable {db : Db} {bareRow : List AttachmentRow → Option AttachmentRow}

/-- What the query counts for a draft. -/
def countedDraft (bareRow : List AttachmentRow → Option AttachmentRow) (db : Db) (p : DraftRow × ConversationRow) :
    Nat :=
  (perMessageOverhead + sqlLength p.1.text + attsizes bareRow db true p.1.conversationId) *
    ((ConversationDao.ofRow p.2).participantsList.length + 1)

/-- What the query counts for a delivery. -/
def countedMessage (bareRow : List AttachmentRow → Option AttachmentRow) (db : Db) (p : MessageRow × DeliveryRow) :
    Nat :=
  perMessageOverhead + sqlLength p.1.text + attsizes bareRow db false p.1.id

private theorem mem_sendable {p : DraftRow × ConversationRow} :
    p ∈ sendable db ↔ p.1 ∈ db.drafts ∧ p.2 ∈ db.conversations ∧ p.1.conversationId = p.2.id ∧ p.1.state = .sending := by
  obtain ⟨d, c⟩ := p
  simp [sendable]

private theorem sizeOfAllSendable_eq (hconv : ∀ c ∈ db.conversations, Written c) :
    DraftDao.sizeOfAllSendable bareRow db = ((sendable db).map (countedDraft bareRow db)).sum := by
  have hmap : (sendable db).map (countedDraft bareRow db) =
      (sendable db).map fun p => (perMessageOverhead + sqlLength p.1.text + attsizes bareRow db true p.2.id) *
        (sqlLength p.2.participants - sqlLength (removeCommas p.2.participants) + 2) := by
    apply List.map_congr_left
    intro p hp
    obtain ⟨_, hc, hid, _⟩ := mem_sendable.mp hp
    rw [participants_length (hconv p.2 hc), ← hid]
    rfl
  rw [hmap]
  unfold DraftDao.sizeOfAllSendable sendable
  rw [List.map_flatMap]
  simp only [List.map_map, Function.comp_def]

private theorem sizeOfAllUndelivered_eq :
    MessageDao.sizeOfAllUndelivered bareRow db = ((unsent db).map (countedMessage bareRow db)).sum := by
  unfold MessageDao.sizeOfAllUndelivered unsent countedMessage
  rw [List.map_flatMap]
  simp only [List.map_map, Function.comp_def]

private theorem sendable_agree_iff (hconv : ∀ c ∈ db.conversations, Written c) :
    (∀ bareRow, Bare bareRow → DraftDao.sizeOfAllSendable bareRow db =
      ((sendable db).map fun p =>
        draftAmount db p.1 * ((ConversationDao.ofRow p.2).participantsList.length + 1)).sum) ↔ DraftsCounted db := by
  have hsum : ∀ bareRow, DraftDao.sizeOfAllSendable bareRow db = ((sendable db).map (countedDraft bareRow db)).sum :=
    fun _ => sizeOfAllSendable_eq hconv
  simp only [hsum]
  constructor
  · intro h
    -- with the pick that counts the least, every draft is counted too low or exactly
    have hlow : ∀ p ∈ sendable db, countedDraft (prefer (!true)) db p ≤
        draftAmount db p.1 * ((ConversationDao.ofRow p.2).participantsList.length + 1) := by
      intro p _
      have h1 := sqlLength_le p.1.text
      have h2 := (attsizes_prefer_le db true p.1.conversationId).1
      apply Nat.mul_le_mul_right
      unfold draftAmount
      omega
    have heq := (sum_map_eq_iff hlow).mp (h _ (bare_prefer _))
    have hexact : ∀ p ∈ sendable db, sqlLength p.1.text = p.1.text.utf8ByteSize ∧
        attsizes (prefer (!true)) db true p.1.conversationId =
          AttachmentDao.sizeOfAllForMessage db true p.1.conversationId := by
      intro p hp
      have h1 := sqlLength_le p.1.text
      have h2 := (attsizes_prefer_le db true p.1.conversationId).1
      have h3 := Nat.eq_of_mul_eq_mul_right (by omega) (heq p hp)
      unfold draftAmount at h3
      constructor <;> omega
    have hhigh : ∀ p ∈ sendable db, draftAmount db p.1 * ((ConversationDao.ofRow p.2).participantsList.length + 1) ≤
        countedDraft (prefer true) db p := by
      intro p hp
      have h1 := (hexact p hp).1
      have h2 := (attsizes_prefer_le db true p.1.conversationId).2
      apply Nat.mul_le_mul_right
      unfold draftAmount
      omega
    have heq' := (sum_map_eq_iff hhigh).mp (h _ (bare_prefer _)).symm
    intro p hp
    obtain ⟨htext, hatts⟩ := hexact p hp
    refine ⟨(sqlLength_eq_iff _).mp htext, not_shared_of_attsizes_eq (k := true) ?_⟩
    have h3 := Nat.eq_of_mul_eq_mul_right (by omega) (heq' p hp)
    unfold draftAmount at h3
    omega
  · intro h bareRow hbare
    congr 1
    apply List.map_congr_left
    intro p hp
    obtain ⟨htext, hshared⟩ := h p hp
    unfold countedDraft draftAmount
    rw [(sqlLength_eq_iff _).mpr htext, attsizes_of_not_shared hbare hshared]

private theorem undelivered_agree_iff :
    (∀ bareRow, Bare bareRow → MessageDao.sizeOfAllUndelivered bareRow db =
      ((undelivered db).map fun p => messageAmount db p.1).sum) ↔ MessagesCounted db := by
  -- the two kinds of rows, where no group is shared
  have hsplit : ∀ {bareRow}, Bare bareRow → (∀ p ∈ unsent db, ¬ Shared db p.1.id) →
      (MessageDao.sizeOfAllUndelivered bareRow db + ((undelivered db).map fun p => uncounted p.1.text).sum =
        ((undelivered db).map fun p => messageAmount db p.1).sum +
          (((unsent db).filter fun p => p.1.old = true).map fun p => countedRow db p.1).sum) := by
    intro bareRow hbare hshared
    have hterm : ∀ p ∈ unsent db, countedMessage bareRow db p = countedRow db p.1 := by
      intro p hp
      unfold countedMessage countedRow
      rw [attsizes_of_not_shared hbare (hshared p hp)]
    have hcurrent : (undelivered db).map (fun p => messageAmount db p.1) =
        (undelivered db).map (fun p => countedRow db p.1 + uncounted p.1.text) := by
      apply List.map_congr_left
      intro p _
      have := sqlLength_le p.1.text
      unfold messageAmount countedRow uncounted
      omega
    have hnot : (unsent db).filter (fun p => ¬ p.1.old = false) = (unsent db).filter fun p => p.1.old = true := by
      apply List.filter_congr
      intro p _
      simp
    rw [sizeOfAllUndelivered_eq, List.map_congr_left hterm, hcurrent, List.sum_map_add,
      ← List.sum_map_filter_add_sum_map_filter_not (fun p : MessageRow × DeliveryRow => p.1.old = false) _ (unsent db),
      hnot]
    unfold undelivered
    omega
  constructor
  · intro h
    have hle : ∀ p ∈ unsent db, countedMessage (prefer (!false)) db p ≤ countedMessage (prefer false) db p := by
      intro p _
      have h1 := attsizes_prefer_le db false p.1.id
      unfold countedMessage
      omega
    have hall := (sum_map_eq_iff hle).mp (by
      rw [← sizeOfAllUndelivered_eq, ← sizeOfAllUndelivered_eq, h _ (bare_prefer _), h _ (bare_prefer _)])
    have hshared : ∀ p ∈ unsent db, ¬ Shared db p.1.id := by
      intro p hp
      apply not_shared_of_attsizes_eq (k := false)
      have := hall p hp
      unfold countedMessage at this
      omega
    refine ⟨hshared, ?_⟩
    have := hsplit (bare_prefer true) hshared
    rw [h _ (bare_prefer true)] at this
    omega
  · rintro ⟨hshared, hbalance⟩ bareRow hbare
    have := hsplit hbare hshared
    omega

end agree

/-- The estimates agree with what is counted when it is sent exactly if every text to be sent as a draft is ASCII
without NUL, no id of what is to be sent has attachments of a draft and of a message, and the rows counted twice make
up for the bytes not counted. -/
theorem agree_iff (P : Platform) {db : Db} (hconv : ∀ c ∈ db.conversations, Written c) :
    Agree P db ↔ DraftsCounted db ∧ MessagesCounted db := by
  constructor
  · intro h
    exact ⟨(sendable_agree_iff hconv).mp h.sendable, undelivered_agree_iff.mp h.undelivered⟩
  · rintro ⟨hdrafts, hmessages⟩
    refine ⟨(sendable_agree_iff hconv).mpr hdrafts, undelivered_agree_iff.mpr hmessages, ?_, ?_⟩
    · intro address draft dateSent msg h
      rw [encodeParts_length h]
      rfl
    · intro message msg h
      rw [encodeMessage_length h]
      rfl

def bob : KulloAddress := .bob

private theorem bob_conversation_nodup : (([⟨1, "bob#kullo.test"⟩] : List ConversationRow).map ConversationRow.id).Nodup := by
  simp

/-- A message that is sent to one recipient. -/
def sentDb (text : String) : Db where
  messages := ⟨[{ id := 7, conversationId := 1, text := text }], by simp⟩
  conversations := ⟨[⟨1, "bob#kullo.test"⟩], bob_conversation_nodup⟩
  delivery := [{ messageId := 7, recipient := "bob#kullo.test", state := "unsent" }]

private theorem sentDb_written (text : String) : ∀ c ∈ (sentDb text).conversations, Written c := by
  intro c hc
  have hrow : c = ⟨1, "bob#kullo.test"⟩ := List.mem_singleton.mp hc
  exact ⟨[bob], by simp, by rw [hrow]; decide⟩

/-- The same message with an attachment, and a draft with another one. -/
def draftDb : Db :=
  { sentDb "hi" with
    drafts := ⟨[{ conversationId := 1, text := "hello", state := .sending }], by simp⟩
    attachments := ⟨[⟨true, 1, 0, "a", "text/plain", 100, "", ""⟩, ⟨false, 7, 0, "b", "text/plain", 20, "", ""⟩],
      by decide⟩ }

private theorem not_shared_draftDb {id : IdType} : ¬ Shared draftDb id := by
  rintro ⟨⟨r, hr, hid, hdraft⟩, ⟨r', hr', hid', hdraft'⟩, _⟩
  have hrows : ∀ r ∈ draftDb.attachments, r.messageId = if r.draft then 1 else 7 :=
    show ∀ r ∈ draftDb.attachments.rows, _ by decide
  have hone := hrows r hr
  have hseven := hrows r' hr'
  rw [hdraft, hid] at hone
  rw [hdraft', hid', hone] at hseven
  exact absurd hseven (by decide)

theorem agree_iff_ascii : Agree Platform.transparent draftDb := by
  have hwritten : ∀ c ∈ draftDb.conversations, Written c := sentDb_written "hi"
  have htexts : (sendable draftDb).map (fun p => p.1.text) = ["hello"] := rfl
  have hplain : ∀ p ∈ sendable draftDb, ∀ c ∈ p.1.text.toList, c ≠ '\x00' ∧ c.utf8Size = 1 := by
    intro p hp
    have htext : p.1.text ∈ (sendable draftDb).map (fun p => p.1.text) := List.mem_map_of_mem hp
    rw [htexts, List.mem_singleton] at htext
    have hletters : "hello".toList = ['h', 'e', 'l', 'l', 'o'] := by simp
    rw [htext, hletters]
    intro c hc
    simp only [List.mem_cons, List.not_mem_nil, or_false] at hc
    rcases hc with rfl | rfl | rfl | rfl | rfl <;> exact ⟨by decide, rfl⟩
  apply (agree_iff Platform.transparent hwritten).mpr
  exact ⟨fun p hp => ⟨hplain p hp, not_shared_draftDb⟩, fun p _ => not_shared_draftDb, by decide⟩

/-- The bytes of an accented letter are counted as one. -/
theorem not_agree_accent : ¬ ∀ (P : Platform) (db : Db), (∀ c ∈ db.conversations, Written c) → Agree P db := by
  intro h
  have hagree := (h Platform.transparent (sentDb "é") (sentDb_written "é")).undelivered (prefer true) (bare_prefer true)
  have hcounted : MessageDao.sizeOfAllUndelivered (prefer true) (sentDb "é") = 23501 := by decide
  have hamount : ((undelivered (sentDb "é")).map fun p => messageAmount (sentDb "é") p.1).sum = 23502 := by decide
  omega

end SizeEstimates

end KulloClient
