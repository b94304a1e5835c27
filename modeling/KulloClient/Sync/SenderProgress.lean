import KulloClient.Dao.SizeEstimates
import KulloClient.Sync.SenderContent

/-!
# The progress of the sender

What an iteration does to the members that count, which the sender keeps among its variables.
-/

namespace KulloClient

namespace MessagesSender

open Imperative

/-- The progress among the events. -/
def progressedIn (trace : List (IdAndRecipient × Event)) : List ProgressSums :=
  trace.filterMap fun e =>
    match e with
    | (_, .progressed sums) => some sums
    | _ => none

@[simp] theorem progressedIn_append (trace trace' : List (IdAndRecipient × Event)) :
    progressedIn (trace ++ trace') = progressedIn trace ++ progressedIn trace' := List.filterMap_append

/-- The members that count, after what was emitted before the sender was started. -/
def meterOf (before : List ProgressSums) (v : State) : Meter where
  previouslyUploaded := v.previouslyUploaded
  estimatedRemaining := v.estimatedRemaining
  progress := v.progress
  progressed := before ++ progressedIn v.trace

variable {P : Platform} {it : Iteration P} {p : IdAndRecipient} (before : List ProgressSums)

private theorem meterOf_record {v : State} {e : Event} (h : ∀ sums, e ≠ .progressed sums) :
    meterOf before { v with trace := v.trace ++ [(p, e)] } = meterOf before v := by
  have hnone : progressedIn [(p, e)] = [] := by
    cases e with
    | progressed sums => exact absurd rfl (h sums)
    | _ => rfl
  unfold meterOf
  rw [progressedIn_append, hnone, List.append_nil]

/-- A callback. -/
theorem transferProgress_meter (size : Nat) (t : TransferProgress) (v : State) :
    Ends (transferProgress size t p) v
      (fun _ v' => meterOf before v' = (meterOf before v).transfer size t) (fun _ _ => False) := by
  simp only [transferProgress, ends_bind, ends_get]
  have hsums : transferSums (meterOf before v).previouslyUploaded (meterOf before v).estimatedRemaining size t =
      newProgress v size t := rfl
  by_cases h : (newProgress v size t).toProgress ≠ v.progress
  · rw [if_pos h, Meter.transfer_of_ne hsums h]
    simp only [ends_bind, ends_set, record, ends_modify]
    unfold meterOf
    rw [progressedIn_append, ← List.append_assoc]
    rfl
  · rw [if_neg h, Meter.transfer_of_eq hsums h]
    exact rfl

private theorem transfers_meter (size : Nat) (ts : List TransferProgress) (v : State) :
    Ends (forIn ts PUnit.unit fun t _ => do transferProgress size t p; pure (.yield PUnit.unit) : SenderM PUnit) v
      (fun _ v' => meterOf before v' = (meterOf before v).transfers size ts) (fun _ _ => False) := by
  induction ts generalizing v with
  | nil => exact rfl
  | cons t ts ih =>
    rw [List.forIn_cons]
    simp only [ends_bind, ends_pure]
    refine (transferProgress_meter before size t v).mono ?_ (fun _ _ h => h)
    intro _ v' hv'
    refine (ih v').mono ?_ (fun _ _ h => h)
    intro _ v'' hv''
    rw [hv'', hv', Meter.transfers_cons]

/-- Marking a delivery is not counted. -/
theorem emitModified_meter (emit : Call) (v : State) :
    Ends (emitModified it p emit) v (fun _ v' => meterOf before v' = meterOf before v)
      (fun _ v' => meterOf before v' = meterOf before v) := by
  simp only [emitModified, record, ends_bind, ends_get, ends_lift, ends_modify]
  have hmarked : meterOf before { v with trace := v.trace ++ [(p, .marked v.db.delivery)] } = meterOf before v :=
    meterOf_record before (fun _ h => by cases h)
  have hmodified := (meterOf_record (p := p) before
    (v := { v with trace := v.trace ++ [(p, .marked v.db.delivery)] })
    (e := .messageModified v.currentConversationId v.currentMessageId) (fun _ h => by cases h)).trans hmarked
  exact ⟨fun _ _ => hmodified, fun _ _ => hmodified⟩

private theorem handleFailed_meter (mark emit : Call) (r : Option KulloAddress) (reason : Delivery.Reason) (v : State) :
    Ends (handleFailed it p mark emit r reason) v (fun _ v' => meterOf before v' = meterOf before v)
      (fun _ v' => meterOf before v' = meterOf before v) := by
  unfold handleFailed
  cases r with
  | none => exact rfl
  | some r =>
    simp only [ends_bind, ends_lift, ends_modify]
    exact ⟨fun _ _ => emitModified_meter before emit _, fun _ _ => trivial⟩

/-! ### The message and its request -/

/-- The estimate covers the message that is sent, what the request is reported to transfer is what it counts for, and
the sums stay below `2 ^ 63`. -/
structure Fits (it : Iteration P) (p : IdAndRecipient) (v : State) : Prop where
  started : v.previouslyUploaded + MessageDao.sizeOfAllUndelivered P.bareRow it.db < 2 ^ 63
  loaded : v.currentMessageId ≠ p.1 → it.transfers ≠ [] → ∀ m, MessageDao.load it.db p.1 false = some m →
    SizeEstimates.messageAmount it.db m.row ≤ MessageDao.sizeOfAllUndelivered P.bareRow it.db
  kept : v.currentMessageId = p.1 → it.transfers ≠ [] →
    v.currentMessageEstimatedSize ≤ MessageDao.sizeOfAllUndelivered P.bareRow it.db
  ascending : it.transfers.Pairwise (fun t t' => t.uploadTransferred ≤ t'.uploadTransferred)
  bounded : ∀ t ∈ it.transfers, v.previouslyUploaded + MessageDao.sizeOfAllUndelivered P.bareRow it.db +
    max t.uploadTotal t.uploadTransferred < 2 ^ 63
  answered : it.throws .sendMessage = none → v.previouslyUploaded + it.uploadedBytes < 2 ^ 63 ∧
    ∀ t ∈ it.transfers, t.uploadTransferred ≤ it.uploadedBytes
  failed : ∀ e, it.throws .sendMessage = some e → e ≠ .canceled → e ≠ .syncCanceled →
    ∀ t ∈ it.transfers, t.uploadTransferred = 0

/-- How a program that sends may leave the members that count: exceptions that end the run may stop a request halfway. -/
def Leaves (e : Exn) (v : State) : Prop :=
  (meterOf before v).Upto 0 ∨ ((e = .canceled ∨ e = .syncCanceled) ∧ ∃ n, (meterOf before v).Upto n)

private theorem sendMessage_upto {v w : State} {recipient : KulloAddress} {msg : SendableMessage} {size : Nat}
    (h : Fits it p v) (hprev : w.previouslyUploaded = v.previouslyUploaded)
    (hremaining : w.estimatedRemaining = MessageDao.sizeOfAllUndelivered P.bareRow it.db)
    (hsize : it.transfers ≠ [] → size ≤ MessageDao.sizeOfAllUndelivered P.bareRow it.db)
    (hupto : (meterOf before w).Upto 0) :
    Ends (sendMessage it p recipient msg size) w (fun _ w' => (meterOf before w').Upto 0) (Leaves before) := by
  have hrecord : meterOf before { w with trace := w.trace ++ [(p, .sendMessage recipient msg)] } = meterOf before w :=
    meterOf_record before (fun _ h => by cases h)
  -- the transfers of this request, above what was uploaded before
  have htransfers : ∀ bound, (∀ t ∈ it.transfers, t.uploadTransferred ≤ bound) →
      ((meterOf before w).transfers size it.transfers).Upto bound := by
    intro bound hbound
    refine hupto.transfers (fun _ _ => Nat.zero_le _) (Nat.zero_le _) h.ascending hbound ?_ ?_
    · intro hne
      change size ≤ w.estimatedRemaining
      rw [hremaining]
      exact hsize hne
    · intro t ht
      change w.previouslyUploaded + w.estimatedRemaining + _ < _
      rw [hprev, hremaining]
      exact h.bounded t ht
  simp only [sendMessage, record, ends_bind, ends_modify]
  refine (transfers_meter before size it.transfers _).mono ?_ (fun _ _ h => h.elim)
  intro _ w' hw'
  rw [hrecord] at hw'
  cases hs : it.throws .sendMessage with
  | none =>
    obtain ⟨hlt, hbound⟩ := h.answered hs
    have hcall : it.call .sendMessage (.ok ()) = .ok () := by simp [hs]
    have hfinish : ((meterOf before w').finish it.uploadedBytes).Upto 0 := by
      rw [hw']
      refine (htransfers _ hbound).finish ?_
      rw [Meter.transfers_eq]
      change w.previouslyUploaded + _ < _
      rw [hprev]
      omega
    simp only [hcall, ends_bind, ends_modify, ends_lift]
    refine ⟨fun _ _ => ?_, fun _ _ => .inl hfinish⟩
    refine (emitModified_meter before .emitDelivered _).mono ?_ ?_
    · intro _ w'' hw''
      rw [hw'']
      exact hfinish
    · intro _ w'' hw''
      exact .inl (by rw [hw'']; exact hfinish)
  | some e =>
    have hcall : it.call .sendMessage (.ok ()) = .error e := Iteration.call_unit_eq_error.mpr hs
    simp only [hcall]
    -- a cancelled request leaves its last total, any other failure leaves zero
    by_cases hcancel : e = .canceled ∨ e = .syncCanceled
    · obtain ⟨bound, hbound⟩ : ∃ bound, ∀ t ∈ it.transfers, t.uploadTransferred ≤ bound :=
        ⟨(it.transfers.map TransferProgress.uploadTransferred).sum,
          fun t ht => List.le_sum_of_mem (List.mem_map_of_mem ht)⟩
      have hleft : Leaves before e w' := .inr ⟨hcancel, bound, by rw [hw']; exact htransfers bound hbound⟩
      rcases hcancel with rfl | rfl <;> exact hleft
    · rw [not_or] at hcancel
      have hzero := h.failed e hs hcancel.1 hcancel.2
      have hw₀ : (meterOf before w').Upto 0 := by
        rw [hw']
        exact htransfers 0 (fun t ht => Nat.le_of_eq (hzero t ht))
      have hfailed : ∀ reason, Ends (handleFailed it p .markAsFailedInSend .emitFailedInSend (some recipient) reason) w'
          (fun _ w'' => (meterOf before w'').Upto 0) (Leaves before) := by
        intro reason
        refine (handleFailed_meter before _ _ _ _ w').mono ?_ ?_
        · intro _ w'' hw''
          rw [hw'']
          exact hw₀
        · intro _ w'' hw''
          exact .inl (by rw [hw'']; exact hw₀)
      cases e <;> first | exact hfailed _ | exact .inl hw₀

/-- Nothing was counted, and a message that is ready is the one that was loaded. -/
def Prepared (it : Iteration P) (p : IdAndRecipient) (v : State) (ready : Bool) (v' : State) : Prop :=
  meterOf before v' = meterOf before v ∧ (ready = true → ∃ m, MessageDao.load it.db p.1 false = some m ∧
    v'.currentMessageEstimatedSize = SizeEstimates.messageAmount it.db m.row)

private theorem prepare_meter (v : State) :
    Ends (prepare it p) v (Prepared before it p v) (fun _ v' => meterOf before v' = meterOf before v) := by
  have hgone : ∀ v : State, Ends (prepare.gone it p) v (Prepared before it p v)
      (fun _ v' => meterOf before v' = meterOf before v) := by
    intro v
    simp only [prepare.gone, ends_bind, ends_lift, ends_modify, ends_pure]
    exact ⟨fun _ _ => ⟨rfl, fun h => by cases h⟩, fun _ _ => trivial⟩
  simp only [prepare, ends_bind, ends_lift]
  refine ⟨?_, fun _ _ => trivial⟩
  intro found hload
  have hfound := (Iteration.call_eq_ok.mp hload).2
  cases found with
  | none => exact hgone v
  | some messageDao =>
    dsimp only
    by_cases hdeleted : messageDao.row.deleted = true
    · rw [if_pos hdeleted]
      exact hgone v
    · rw [if_neg hdeleted]
      simp only [ends_bind, ends_lift, ends_modify, record, ends_pure]
      refine ⟨?_, fun _ _ => rfl⟩
      intro msg hencode
      refine ⟨?_, fun _ _ => rfl⟩
      intro msg' _
      refine ⟨?_, fun _ _ => rfl⟩
      intro msg'' _
      refine ⟨meterOf_record before (fun _ h => by cases h), fun _ => ⟨messageDao, ?_, ?_⟩⟩
      · exact Except.ok.inj hfound
      · obtain ⟨_, _, hencode⟩ := bind_eq_ok.mp hencode
        have hlength := SizeEstimates.encodeMessage_length (Iteration.call_eq_ok.mp hencode).2
        rw [hlength]
        rfl

private theorem dispatch_upto {v w : State} (h : Fits it p v) (hprev : w.previouslyUploaded = v.previouslyUploaded)
    (hremaining : w.estimatedRemaining = MessageDao.sizeOfAllUndelivered P.bareRow it.db)
    (hsize : it.transfers ≠ [] → w.currentMessageEstimatedSize ≤ MessageDao.sizeOfAllUndelivered P.bareRow it.db)
    (hupto : (meterOf before w).Upto 0) :
    Ends (dispatch it p) w (fun _ w' => (meterOf before w').Upto 0) (Leaves before) := by
  simp only [dispatch, ends_bind, ends_get, ends_lift]
  exact ⟨fun _ _ => sendMessage_upto before h hprev hremaining hsize hupto, fun _ _ => .inl hupto⟩

private theorem attempt_upto {v : State} (h : Fits it p v) (hupto : (meterOf before v).Upto 0) :
    Ends (attempt it p) v (fun _ w => (meterOf before w).Upto 0) (Leaves before) := by
  unfold attempt
  rw [ends_bind, ends_lift]
  refine ⟨?_, fun _ _ => .inl hupto⟩
  intro size hsize
  obtain ⟨_, _, hsize⟩ := bind_eq_ok.mp hsize
  have hsize := (Iteration.call_eq_ok.mp hsize).2
  cases hsize
  simp only [record, ends_bind, ends_modify, ends_get, ends_set, ends_lift]
  have hstart : (meterOf before
      { v with
        estimatedRemaining := MessageDao.sizeOfAllUndelivered P.bareRow it.db
        progress := (startSums v.previouslyUploaded (MessageDao.sizeOfAllUndelivered P.bareRow it.db)).toProgress
        trace := v.trace ++
          [(p, .progressed (startSums v.previouslyUploaded (MessageDao.sizeOfAllUndelivered P.bareRow it.db)))]
        currentMessageId := p.1
        currentRecipient := some p.2 }).Upto 0 := by
    have hstart := hupto.start h.started
    unfold meterOf
    rw [progressedIn_append, ← List.append_assoc]
    exact hstart
  refine ⟨fun _ _ => ?_, fun _ _ => .inl hstart⟩
  by_cases hloaded : v.currentMessageId = p.1
  · rw [if_pos hloaded]
    exact dispatch_upto before h rfl rfl (h.kept hloaded) hstart
  · rw [if_neg hloaded, ends_bind]
    refine (prepare_meter before _).mono ?_ ?_
    · rintro ready w ⟨hw, hready⟩
      have hw₀ : (meterOf before w).Upto 0 := by
        rw [hw]
        exact hstart
      cases ready with
      | false => exact hw₀
      | true =>
        obtain ⟨m, hm, hsize⟩ := hready rfl
        have hprev : w.previouslyUploaded = v.previouslyUploaded := congrArg Meter.previouslyUploaded hw
        have hremaining : w.estimatedRemaining = MessageDao.sizeOfAllUndelivered P.bareRow it.db :=
          congrArg Meter.estimatedRemaining hw
        refine dispatch_upto before h hprev hremaining ?_ hw₀
        intro hne
        rw [hsize]
        exact h.loaded hloaded hne m hm
    · intro e w hw
      exact .inl (by rw [hw]; exact hstart)

/-- An iteration that fits keeps the progress sane. -/
theorem iterate_upto {v : State} (h : Fits it p v) (hupto : (meterOf before v).Upto 0) :
    Ends (iterate it p) v (fun _ w => (meterOf before w).Upto 0) (fun _ w => ∃ n, (meterOf before w).Upto n) := by
  simp only [iterate, ends_bind, ends_modify, ends_tryCatch]
  have hfits : Fits it p { v with db := it.db, currentRecipient := none } :=
    ⟨h.started, h.loaded, h.kept, h.ascending, h.bounded, h.answered, h.failed⟩
  refine (attempt_upto before hfits hupto).mono (fun _ _ h => h) ?_
  rintro e w (hw | ⟨hcancel, n, hw⟩)
  · have hhandled : ∀ reason, Ends (do handleFailed it p .markAsFailed .emitFailed (← get).currentRecipient reason : SenderM Unit) w
        (fun _ w' => (meterOf before w').Upto 0) (fun _ w' => ∃ n, (meterOf before w').Upto n) := by
      intro reason
      simp only [ends_bind, ends_get]
      refine (handleFailed_meter before _ _ _ _ w).mono ?_ ?_
      · intro _ w' hw'
        rw [hw']
        exact hw
      · intro _ w' hw'
        exact ⟨0, by rw [hw']; exact hw⟩
    cases e <;> first | exact hhandled _ | exact ⟨0, hw⟩
  · rcases hcancel with rfl | rfl <;> exact ⟨n, hw⟩

end MessagesSender

end KulloClient
