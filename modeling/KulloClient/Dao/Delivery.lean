import KulloClient.Dao.Message
import KulloClient.Util.KulloAddress
import Mathlib.Data.List.Sort
import Mathlib.Data.String.Basic

/-!
# DeliveryDao

The state of sending a message to its recipients, one row for a message and a recipient.
-/

namespace KulloClient

namespace Delivery

inductive State
  | unsent
  | delivered
  | failed
  deriving DecidableEq

inductive Reason
  | unknown
  | doesntExist
  | tooLarge
  | canceled
  deriving DecidableEq

def State.toString : State → String
  | unsent => "unsent"
  | delivered => "delivered"
  | failed => "failed"

def Reason.toString : Reason → String
  | unknown => "unknown"
  | doesntExist => "doesnt_exist"
  | tooLarge => "too_large"
  | canceled => "canceled"

theorem State.toString_injective : Function.Injective State.toString := by
  intro s s' h
  cases s <;> cases s' <;> first | rfl | (exact absurd h (by decide))

end Delivery

namespace DeliveryDao

/-- `UPDATE delivery SET ... WHERE message_id = :messageId AND recipient = :recipient`. -/
def update (db : Db) (msgId : IdType) (recipient : KulloAddress) (set : DeliveryRow → DeliveryRow) : Db :=
  { db with
    delivery := db.delivery.map fun r =>
      if r.messageId = msgId ∧ r.recipient = recipient.toString then set r else r }

def markAsDelivered (db : Db) (msgId : IdType) (recipient : KulloAddress) (date : String) : Db :=
  update db msgId recipient fun r =>
    { r with state := Delivery.State.delivered.toString, reason := none, date := some date, lockHolder := none,
             lockExpires := none }

def markAsFailed (db : Db) (msgId : IdType) (recipient : KulloAddress) (date : String) (reason : Delivery.Reason) : Db :=
  update db msgId recipient fun r =>
    { r with state := Delivery.State.failed.toString, reason := some reason.toString, date := some date,
             lockHolder := none, lockExpires := none }

/-- `insertDelivery` of unsent deliveries without a lock, the only ones the uploader makes. -/
def insertUnsent (db : Db) (msgId : IdType) (recipients : List KulloAddress) : Db :=
  { db with
    delivery := db.delivery ++ recipients.map fun a =>
      { messageId := msgId, recipient := a.toString, state := Delivery.State.unsent.toString } }

/-- `DeliveryDao::remove`. -/
def remove (db : Db) (msgId : IdType) : Db :=
  { db with delivery := db.delivery.filter (fun r => r.messageId ≠ msgId) }

/-- `ORDER BY message_id, recipient`. -/
def rowOrder (r r' : DeliveryRow) : Prop :=
  r.messageId < r'.messageId ∨ (r.messageId = r'.messageId ∧ r.recipient ≤ r'.recipient)

instance : DecidableRel rowOrder := fun r r' =>
  inferInstanceAs (Decidable (r.messageId < r'.messageId ∨ (r.messageId = r'.messageId ∧ r.recipient ≤ r'.recipient)))

instance : Std.Total rowOrder :=
  ⟨fun r r' => by
    unfold rowOrder
    rcases Nat.lt_trichotomy r.messageId r'.messageId with h | h | h
    · exact .inl (.inl h)
    · rcases le_total r.recipient r'.recipient with hr | hr
      · exact .inl (.inr ⟨h, hr⟩)
      · exact .inr (.inr ⟨h.symm, hr⟩)
    · exact .inr (.inl h)⟩

instance : IsTrans DeliveryRow rowOrder :=
  ⟨fun r r' r'' h h' => by
    unfold rowOrder at *
    rcases h with h | ⟨h, hr⟩ <;> rcases h' with h' | ⟨h', hr'⟩
    · exact .inl (Nat.lt_trans h h')
    · exact .inl (h' ▸ h)
    · exact .inl (h ▸ h')
    · exact .inr ⟨h.trans h', hr.trans hr'⟩⟩

/-- The rows with state unsent, ordered. -/
def unsentRows (db : Db) : List DeliveryRow :=
  (db.delivery.filter (fun r => r.state == Delivery.State.unsent.toString)).insertionSort rowOrder

/-- `unsentMessages`: the pairs of a message and a recipient that are still to be sent. -/
def unsentMessages (db : Db) : Except Exn (List (IdType × KulloAddress)) :=
  (unsentRows db).mapM fun r => do
    let recipient ← KulloAddress.ofString r.recipient
    .ok (r.messageId, recipient)

private theorem unsentRows_sorted (db : Db) : (unsentRows db).Pairwise rowOrder :=
  List.pairwise_insertionSort rowOrder _

theorem mem_unsentRows {db : Db} {r : DeliveryRow} :
    r ∈ unsentRows db ↔ r ∈ db.delivery ∧ r.state = Delivery.State.unsent.toString := by
  simp [unsentRows]

/-- The pairs stand for the unsent rows, one by one. -/
theorem unsentMessages_forall₂ {db : Db} {ps : List (IdType × KulloAddress)} (h : unsentMessages db = .ok ps) :
    List.Forall₂ (fun r p => p.1 = r.messageId ∧ KulloAddress.ofString r.recipient = .ok p.2) (unsentRows db) ps := by
  unfold unsentMessages at h
  generalize unsentRows db = rows at h
  induction rows generalizing ps with
  | nil =>
    obtain rfl : [] = ps := by simpa [List.mapM_nil, pure, Except.pure] using h
    exact .nil
  | cons r rows ih =>
    rw [List.mapM_cons] at h
    cases hr : KulloAddress.ofString r.recipient with
    | error e => simp [hr, bind, Except.bind] at h
    | ok a =>
      simp only [hr, bind, Except.bind] at h
      split at h
      · simp at h
      · next ps' hps =>
        obtain rfl : (r.messageId, a) :: ps' = ps := by simpa [pure, Except.pure] using h
        exact .cons ⟨rfl, hr⟩ (ih hps)

/-- The pairs are ordered by message. -/
theorem unsentMessages_sorted {db : Db} {ps : List (IdType × KulloAddress)} (h : unsentMessages db = .ok ps) :
    ps.Pairwise (fun p q => p.1 ≤ q.1) := by
  have hsorted := unsentRows_sorted db
  have hall := unsentMessages_forall₂ h
  clear h
  generalize unsentRows db = rows at hsorted hall
  induction hall with
  | nil => exact .nil
  | @cons r p rows ps hp hall ih =>
    rw [List.pairwise_cons] at hsorted ⊢
    refine ⟨fun q hq => ?_, ih hsorted.2⟩
    obtain ⟨i, hi, rfl⟩ := List.mem_iff_getElem.mp hq
    have hi' : i < rows.length := hall.length_eq ▸ hi
    have hq := (List.forall₂_iff_get.mp hall).2 i hi' hi
    have hle := hsorted.1 (rows.get ⟨i, hi'⟩) (List.get_mem rows _)
    rw [hp.1]
    change r.messageId ≤ (ps.get ⟨i, hi⟩).1
    rw [hq.1]
    rcases hle with h | ⟨h, -⟩
    · exact Nat.le_of_lt h
    · exact Nat.le_of_eq h

/-- Every pair comes from an unsent delivery. -/
theorem mem_unsentMessages {db : Db} {ps : List (IdType × KulloAddress)} (h : unsentMessages db = .ok ps)
    {p : IdType × KulloAddress} (hp : p ∈ ps) :
    ∃ r ∈ db.delivery, r.messageId = p.1 ∧ r.state = Delivery.State.unsent.toString ∧
      KulloAddress.ofString r.recipient = .ok p.2 := by
  have hall := unsentMessages_forall₂ h
  obtain ⟨i, hi, rfl⟩ := List.mem_iff_getElem.mp hp
  have hi' : i < (unsentRows db).length := hall.length_eq ▸ hi
  obtain ⟨hid, ha⟩ := (List.forall₂_iff_get.mp hall).2 i hi' hi
  obtain ⟨hmem, hstate⟩ := mem_unsentRows.mp (List.get_mem (unsentRows db) ⟨i, hi'⟩)
  exact ⟨_, hmem, hid.symm, hstate, ha⟩

end DeliveryDao

/-! ### The size of what is not delivered yet -/

/-- `PER_MESSAGE_OVERHEAD`: an empty message has about 23.5 kB. -/
def perMessageOverhead : Nat := 23500

/-- SQL's `length` of a text: the characters before the first NUL. -/
def sqlLength (text : String) : Nat :=
  (text.toList.takeWhile (fun c => c ≠ '\x00')).length

/-- `attsizes`: the total size of the attachments with a message id, for a group that passes `HAVING draft = :draft`.
The column is not aggregated, so its value is that of the row `bareRow` picks. -/
def attsizes (bareRow : List AttachmentRow → Option AttachmentRow) (db : Db) (draft : Bool) (messageId : IdType) :
    Nat :=
  let group := db.attachments.select (fun r => r.messageId == messageId)
  if (bareRow group).map AttachmentRow.draft = some draft then (group.map AttachmentRow.size).sum else 0

/-- `MessageDao::sizeOfAllUndelivered`. -/
def MessageDao.sizeOfAllUndelivered (bareRow : List AttachmentRow → Option AttachmentRow) (db : Db) : Nat :=
  ((db.messages.rows.flatMap fun m =>
    (db.delivery.filter fun d => m.id = d.messageId ∧ d.state = Delivery.State.unsent.toString).map fun _ =>
      perMessageOverhead + sqlLength m.text + attsizes bareRow db false m.id)).sum

end KulloClient
