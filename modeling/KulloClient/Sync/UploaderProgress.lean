import KulloClient.Sync.UploaderSteps

/-!
# The progress of the uploader

What an iteration does to the members that count.  Only the start of an iteration, the request and its end touch them.
-/

namespace KulloClient

namespace MessagesUploader

open Imperative

variable {P : Platform} {account : Account} {it : Iteration P}

/-- The members that count have not changed. -/
def SameMeter (v v' : State) : Prop := v'.meter = v.meter

instance : Std.Refl SameMeter := ⟨fun _ => rfl⟩

instance : IsTrans State SameMeter := ⟨fun _ _ _ h h' => Eq.trans h' h⟩

theorem along_lift {α : Type} (x : Except Exn α) : Along SameMeter (lift x) := by
  intro v
  rw [ends_lift]
  exact ⟨fun _ _ => rfl, fun _ _ => rfl⟩

private theorem along_emit (es : List Event) : Along SameMeter (emit es) := along_modify fun _ => rfl

private theorem along_resetDraftToEditing (c : Call) (db : Db) : Along SameMeter (resetDraftToEditing P it c db) := by
  unfold resetDraftToEditing
  refine along_bind (along_modify fun _ => rfl) fun _ => ?_
  refine along_bind along_get fun v => ?_
  refine along_bind (along_lift _) fun saved => ?_
  exact along_modify fun _ => rfl

private theorem along_ensureSizeLimitCompliance (msg : SendableMessage) :
    Along SameMeter (ensureSizeLimitCompliance P it msg) := by
  unfold ensureSizeLimitCompliance
  cases tooBig msg with
  | none => exact along_pure _
  | some big =>
    refine along_bind along_get fun v => ?_
    refine along_bind (along_resetDraftToEditing _ _) fun _ => ?_
    refine along_bind along_get fun v => ?_
    exact along_bind (along_emit _) fun _ => along_pure _

private theorem along_handleFailed : Along SameMeter (handleFailed P it) := by
  unfold handleFailed
  refine along_bind along_get fun v => ?_
  refine along_bind (along_lift _) fun _ => ?_
  cases v.conv with
  | none => exact along_throw _
  | some conv =>
    refine along_bind (along_resetDraftToEditing _ _) fun _ => ?_
    exact along_bind (along_emit _) fun _ => along_emit _

private theorem handlers_meter (stop : Stop) (v : State) :
    Ends (handlers P it stop) v (fun result v' => result = none ∧ v'.meter = v.meter) (fun _ v' => v'.meter = v.meter) := by
  cases stop with
  | nullDereference => exact rfl
  | exception e =>
    have hhandled : Ends
        (do handleFailed P it; pure none : UploaderM (Option (ConversationDao × MessageSent × List KulloAddress))) v
        (fun result v' => result = none ∧ v'.meter = v.meter) (fun _ v' => v'.meter = v.meter) := by
      rw [ends_bind]
      exact (along_handleFailed v).mono (fun _ _ h => ⟨rfl, h⟩) (fun _ _ h => h)
    cases e <;> first | exact rfl | exact hhandled

/-- Cancelling is passed on. -/
theorem handlers_cancel {e : Exn} (h : isCancel e = true) :
    handlers P it (.exception e) = throw (.exception .syncCanceled) := by
  simp only [isCancel, Bool.or_eq_true, beq_iff_eq] at h
  rcases h with rfl | rfl <;> rfl

private theorem along_clearDraft (attachments : List AttachmentDao) : Along SameMeter (clearDraft P it attachments) := by
  unfold clearDraft
  refine along_bind along_get fun v => ?_
  refine along_bind (along_emit _) fun _ => ?_
  refine along_bind (along_modify fun _ => rfl) fun _ => ?_
  refine along_bind along_get fun v => ?_
  refine along_bind (along_lift _) fun saved => ?_
  exact along_bind (along_modify fun _ => rfl) fun _ => along_emit _

/-! ### The request -/

/-- The members after the callbacks of the request for `draft`. -/
def transferred (account : Account) (it : Iteration P) (v : State) : Meter :=
  v.meter.transfers (it.totalSize account v.db v.draft) it.transfers

/-- The try block makes its callbacks only if it gets to the request. -/
theorem attempt_meter (v : State) :
    Ends (attempt P account it) v
      (fun result v' =>
        (result = none ∧ v'.meter = v.meter) ∨
          ((∃ sent, result = some sent) ∧ (∃ msgSent, it.answer = .ok msgSent) ∧ v'.meter = transferred account it v))
      (fun stop v' =>
        v'.meter = v.meter ∨ ∃ e, stop = .exception e ∧ it.answer = .error e ∧ v'.meter = transferred account it v) := by
  simp only [attempt, upload, ends_bind, ends_get, ends_modify, ends_lift]
  refine ⟨fun conv _ => ?_, fun _ _ => .inl trivial⟩
  refine ⟨fun encodedMessage _ => ?_, fun _ _ => .inl trivial⟩
  refine ⟨fun sendableMsg _ => ?_, fun _ _ => .inl trivial⟩
  refine (along_ensureSizeLimitCompliance sendableMsg _).mono ?_ (fun _ _ h => .inl h)
  intro compliant v' hv'
  cases compliant with
  | false => exact .inl ⟨rfl, hv'⟩
  | true =>
    simp only [if_true, ends_bind, ends_lift, ends_emit, ends_modify]
    refine ⟨?_, fun _ _ => .inl hv'⟩
    intro prepared _
    simp only [ends_pure]
    refine ⟨?_, ?_⟩
    · intro msgSent hanswer
      refine .inr ⟨⟨_, rfl⟩, ⟨msgSent, hanswer⟩, ?_⟩
      rw [hv']
      rfl
    · intro e he
      refine .inr ⟨e, rfl, he, ?_⟩
      rw [hv']
      rfl

/-! ### An iteration -/

/-- The uploader counts a draft for no more than the estimate should. -/
theorem totalSize_le (account : Account) (it : Iteration P) (db : Db) (draft : DraftDao) :
    it.totalSize account db draft ≤ SizeEstimates.draftAmount db draft.row := by
  unfold Iteration.totalSize
  cases h : MessageEncoder.encodeDraft P db account.address draft it.dateSent with
  | ok encodedMessage =>
    have hlength : encodedMessage.attachments.length =
        AttachmentDao.sizeOfAllForMessage db true draft.row.conversationId := SizeEstimates.encodeParts_length h
    dsimp only
    rw [hlength]
    exact Nat.le_refl _
  | error e => exact Nat.zero_le _

/-- The estimate covers the draft that is sent, what the request is reported to transfer is what it counts for, and the
sums stay below `2 ^ 63`. -/
structure Fits (s : State) (it : Iteration P) : Prop where
  started : s.meter.previouslyUploaded + sizeOfAll P s.db < 2 ^ 63
  estimated : ∀ draft, DraftDao.firstSendable s.db = some draft → it.transfers ≠ [] →
    SizeEstimates.draftAmount s.db draft.row ≤ sizeOfAll P s.db
  ascending : it.transfers.Pairwise (fun t t' => t.uploadTransferred ≤ t'.uploadTransferred)
  bounded : ∀ t ∈ it.transfers,
    s.meter.previouslyUploaded + sizeOfAll P s.db + max t.uploadTotal t.uploadTransferred < 2 ^ 63
  answered : ∀ msgSent, it.answer = .ok msgSent →
    s.meter.previouslyUploaded + it.requestBodySize < 2 ^ 63 ∧
      ∀ t ∈ it.transfers, t.uploadTransferred ≤ it.requestBodySize
  failed : ∀ e, it.answer = .error e → isCancel e = false → ∀ t ∈ it.transfers, t.uploadTransferred = 0

variable (account) in
private theorem Fits.transferred {s : State} {draft : DraftDao} {bound : Nat} (h : Fits s it)
    (hfirst : DraftDao.firstSendable s.db = some draft) (hupto : s.meter.Upto 0)
    (hbound : ∀ t ∈ it.transfers, t.uploadTransferred ≤ bound) :
    (transferred account it { s with draft := draft, meter := s.meter.start (sizeOfAll P s.db), conv := none }).Upto
      bound := by
  have hstart := hupto.start h.started
  refine hstart.transfers (fun _ _ => Nat.zero_le _) (Nat.zero_le _) h.ascending hbound ?_ h.bounded
  intro hne
  exact Nat.le_trans (totalSize_le account it s.db draft) (h.estimated draft hfirst hne)

private theorem finish_meter (conv : ConversationDao) (msgSent : MessageSent) (delivery : List KulloAddress) (v : State) :
    Ends (finish P account it conv msgSent delivery) v
      (fun _ v' => v'.meter = v.meter.finish it.requestBodySize)
      (fun _ v' => v'.meter = v.meter.finish it.requestBodySize) := by
  simp only [finish, ends_bind, ends_get, ends_modify, ends_lift]
  refine ⟨fun _ _ => ?_, fun _ _ => trivial⟩
  refine ⟨?_, fun _ _ => trivial⟩
  rintro ⟨added, attachments, db⟩ _
  simp only [ends_emit]
  exact along_clearDraft attachments _

variable (account) in
/-- An iteration that fits keeps the progress sane. -/
theorem iterate_upto {s : State} (h : Fits s it) (hupto : s.meter.Upto 0) :
    Ends (iterate P account it) s (fun _ s' => s'.meter.Upto 0) (fun _ s' => ∃ n, s'.meter.Upto n) := by
  simp only [iterate, ends_bind, ends_get, ends_lift]
  refine ⟨?_, fun _ _ => ⟨0, hupto⟩⟩
  intro first hcall
  obtain ⟨_, hok⟩ := Iteration.call_eq_ok.mp hcall
  cases hok
  cases hfirst : DraftDao.firstSendable s.db with
  | none => exact hupto
  | some draft =>
    simp only [ends_bind, ends_lift, ends_modify]
    refine ⟨fun _ _ => ⟨?_, fun _ _ => ⟨0, hupto⟩⟩, fun _ _ => ⟨0, hupto⟩⟩
    intro size hsize
    obtain ⟨_, hok⟩ := Iteration.call_eq_ok.mp hsize
    cases hok
    have hstart := hupto.start h.started
    simp only [process, ends_bind, ends_modify, ends_tryCatch]
    refine (attempt_meter _).mono ?_ ?_
    · rintro result v' (⟨rfl, hmeter⟩ | ⟨⟨⟨conv, msgSent', delivery⟩, rfl⟩, ⟨msgSent, hanswer⟩, hmeter⟩)
      · simp only [ends_pure]
        rw [hmeter]
        exact hstart
      · obtain ⟨hlt, hbound⟩ := h.answered msgSent hanswer
        have hsent := h.transferred account hfirst hupto hbound
        have hprev : (transferred account it
            { s with draft := draft, meter := s.meter.start (sizeOfAll P s.db), conv := none }).previouslyUploaded =
              s.meter.previouslyUploaded := Meter.transfers_eq _ _ _
        have hdone := hsent.finish (by rw [hprev]; omega)
        refine (finish_meter conv msgSent' delivery v').mono ?_ ?_
        · intro _ v'' hv''
          simp only [ends_pure]
          rw [hv'', hmeter]
          exact hdone
        · intro _ v'' hv''
          rw [hv'', hmeter]
          exact ⟨0, hdone⟩
    · -- a failed request is handled, or it ends the run
      rintro stop v' hraised
      have hends : v'.meter.Upto 0 → Ends (handlers P it stop) v'
          (fun result w => result = none ∧ w.meter.Upto 0) (fun _ w => ∃ n, w.meter.Upto n) := by
        intro hv'
        refine (handlers_meter stop v').mono ?_ ?_
        · rintro result w ⟨rfl, hw⟩
          exact ⟨rfl, by rw [hw]; exact hv'⟩
        · intro _ w hw
          exact ⟨0, by rw [hw]; exact hv'⟩
      suffices hall : Ends (handlers P it stop) v'
          (fun result w => result = none ∧ w.meter.Upto 0) (fun _ w => ∃ n, w.meter.Upto n) by
        refine hall.mono ?_ (fun _ _ h => h)
        rintro result w ⟨rfl, hw⟩
        exact hw
      rcases hraised with hmeter | ⟨e, rfl, hanswer, hmeter⟩
      · exact hends (by rw [hmeter]; exact hstart)
      · by_cases hcancel : isCancel e = true
        · rw [handlers_cancel hcancel, ends_throw, hmeter]
          obtain ⟨bound, hbound⟩ : ∃ bound, ∀ t ∈ it.transfers, t.uploadTransferred ≤ bound :=
            ⟨(it.transfers.map TransferProgress.uploadTransferred).sum,
              fun t ht => List.le_sum_of_mem (List.mem_map_of_mem ht)⟩
          exact ⟨bound, h.transferred account hfirst hupto hbound⟩
        · have hnone := h.failed e hanswer (Bool.eq_false_iff.mpr hcancel)
          refine hends ?_
          rw [hmeter]
          exact h.transferred account hfirst hupto (fun t ht => Nat.le_of_eq (hnone t ht))

end MessagesUploader

end KulloClient
