import KulloClient.Base.Imperative
import KulloClient.Sync.MessagesSender

/-!
# Right content to the right recipient

When does every `sendMessage` of a run carry the message of its own iteration?  The encoded message outlives the
iteration that made it, and an iteration whose message id is the current one does not load anything.  `PreparedWhenSent`
is the condition on what the iterations meet, and `run_rightContent` says that it is exact.
-/

namespace KulloClient

namespace MessagesSender

open Imperative

/-! ### The property -/

/-- `msg` is the compressed encoding of the stored message `id`. -/
def EncodingOf (P : Platform) (db : Db) (id : IdType) (msg : EncodedMessage) : Prop :=
  ∃ dao raw, MessageDao.load db id false = some dao ∧ dao.row.deleted = false ∧
    MessageEncoder.encodeMessage P db dao = .ok raw ∧ MessageCompressor.compress P raw = .ok msg

/-- `s` was made from `msg`, with whatever keys. -/
def MadeFrom (P : Platform) (msg : EncodedMessage) (s : SendableMessage) : Prop :=
  ∃ random encKeyId encKey sigKeyId sigKey,
    s = MessageEncryptor.makeSendableMessage P random msg encKeyId encKey sigKeyId sigKey

/-- The delivery of message `id` to `recipient` is unsent. -/
def DeliveryUnsent (db : Db) (id : IdType) (recipient : KulloAddress) : Prop :=
  ∃ row ∈ db.delivery, row.messageId = id ∧ row.state = Delivery.State.unsent.toString ∧
    KulloAddress.ofString row.recipient = .ok recipient

/-- A message `s` sent to `r` in the iteration of `p`, after the events `before`, is right: it was made from an
encoding of `p`'s own message that this run finished, and `r` is the recipient of `p`, still unsent in `db`. -/
def RightSend (P : Platform) (db : Db) (before : List (IdAndRecipient × Event)) (p : IdAndRecipient) (r : KulloAddress)
    (s : SendableMessage) : Prop :=
  r = p.2 ∧ DeliveryUnsent db p.1 r ∧
    ∃ r₀ dbₘ msg, ((p.1, r₀), Event.prepared dbₘ msg) ∈ before ∧ EncodingOf P dbₘ p.1 msg ∧ MadeFrom P msg s

/-- Every `sendMessage` of a run is right. -/
def RightContent (P : Platform) (db : Db) (trace : List (IdAndRecipient × Event)) : Prop :=
  ∀ before after p r s, trace = before ++ (p, Event.sendMessage r s) :: after → RightSend P db before p r s

/-! ### The condition -/

namespace Iteration

variable {P : Platform} (it : Iteration P)

/-- What comes before the message of the iteration becomes the current one. -/
def begins : Except Exn Unit := do
  let _ ← it.start
  it.call .emitProgressed (.ok ())

/-- How preparing message `id` ends: an exception, nothing to send, or the encoded message. -/
def preparation (id : IdType) : Except Exn (Option EncodedMessage) := do
  match ← it.load id with
  | none => .ok none
  | some dao =>
    if dao.row.deleted then .ok none
    else do
      let msg ← it.encode dao
      let msg ← it.compressContent msg
      let msg ← it.compressAttachments msg
      .ok (some msg)

/-- The message is loaded, encoded and compressed to the end. -/
def prepares (id : IdType) : Bool :=
  match it.preparation id with
  | .ok (some _) => true
  | _ => false

/-- Nothing stops the iteration between the encoded message and `sendMessage`. -/
def dispatches : Bool := (it.address {}).isOk

/-- What the nested function `sendMessage` raises. -/
def sendFailure : Option Exn :=
  match it.throws .sendMessage with
  | some .notFound => (it.throws .markAsFailedInSend).or (it.throws .emitFailedInSend)
  | some e => some e
  | none => (it.throws .markAsDelivered).or (it.throws .emitDelivered)

/-- What the try block raises after it has begun. -/
def failure (loads : Bool) (id : IdType) : Option Exn :=
  match if loads then it.preparation id else .ok (some {}) with
  | .error e => some e
  | .ok none => it.throws .remove
  | .ok (some _) =>
    match it.address {} with
    | .error e => some e
    | .ok _ => it.sendFailure

/-- The exceptions that leave the loop: cancellations, and those whose handler fails itself. -/
def escapes : Exn → Bool
  | .canceled => true
  | .syncCanceled => true
  | _ => ((it.throws .markAsFailed).or (it.throws .emitFailed)).isSome

/-- Whether the run ends with this iteration. -/
def stops (loads : Bool) (id : IdType) : Bool :=
  ((it.failure loads id).map it.escapes).getD false

end Iteration

/-- Every iteration that gets as far as sending without loading its message comes after an iteration that prepared
this message to the end.  `current` is the message of the iteration before and `ready` whether it was prepared. -/
def PreparedWhenSent {P : Platform} : IdType → Bool → List (IdAndRecipient × Iteration P) → Prop
  | _, _, [] => True
  | current, ready, (p, it) :: rest =>
    match it.begins with
    | .error _ => True
    | .ok _ =>
      if current = p.1 then
        (it.dispatches = true → ready = true) ∧ (it.stops false p.1 = false → PreparedWhenSent p.1 ready rest)
      else it.stops true p.1 = false → PreparedWhenSent p.1 (it.prepares p.1) rest

/-! ### What an iteration does -/

/-- An event that neither sends nor prepares anything. -/
def Event.IsQuiet : Event → Prop
  | .progressed _ => True
  | .marked _ => True
  | .messageModified _ _ => True
  | _ => False

/-- The events of `p` between two states that are otherwise alike. -/
structure Quiet (p : IdAndRecipient) (v v' : State) : Prop where
  trace : ∃ es : List Event, (∀ e ∈ es, e.IsQuiet) ∧ v'.trace = v.trace ++ es.map (Prod.mk p)
  currentMessageId : v'.currentMessageId = v.currentMessageId
  encodedMessage : v'.encodedMessage = v.encodedMessage
  currentRecipient : v'.currentRecipient = v.currentRecipient

instance (p : IdAndRecipient) : Std.Refl (Quiet p) :=
  ⟨fun v => ⟨⟨[], by simp, by simp⟩, rfl, rfl, rfl⟩⟩

instance (p : IdAndRecipient) : IsTrans State (Quiet p) :=
  ⟨fun v v' v'' h h' => by
    obtain ⟨es, hes, ht⟩ := h.trace
    obtain ⟨es', hes', ht'⟩ := h'.trace
    refine ⟨⟨es ++ es', ?_, ?_⟩, ?_, ?_, ?_⟩
    · intro e he
      rcases List.mem_append.mp he with he | he
      · exact hes e he
      · exact hes' e he
    · rw [ht', ht, List.map_append, List.append_assoc]
    · rw [h'.currentMessageId, h.currentMessageId]
    · rw [h'.encodedMessage, h.encodedMessage]
    · rw [h'.currentRecipient, h.currentRecipient]⟩

/-- A change of anything else is quiet. -/
theorem Quiet.of_eq {p : IdAndRecipient} {v v' : State} (htrace : v'.trace = v.trace)
    (hid : v'.currentMessageId = v.currentMessageId) (hmsg : v'.encodedMessage = v.encodedMessage)
    (hrecipient : v'.currentRecipient = v.currentRecipient) : Quiet p v v' :=
  ⟨⟨[], by simp, by simp [htrace]⟩, hid, hmsg, hrecipient⟩

theorem Quiet.before {p : IdAndRecipient} {v v₁ v' : State} (h : Quiet p v₁ v') (htrace : v₁.trace = v.trace)
    (hid : v₁.currentMessageId = v.currentMessageId) (hmsg : v₁.encodedMessage = v.encodedMessage)
    (hrecipient : v₁.currentRecipient = v.currentRecipient) : Quiet p v v' :=
  trans_of (Quiet p) (Quiet.of_eq htrace hid hmsg hrecipient) h

theorem Quiet.after {p : IdAndRecipient} {v v₁ v' : State} (h : Quiet p v v₁) (htrace : v'.trace = v₁.trace)
    (hid : v'.currentMessageId = v₁.currentMessageId) (hmsg : v'.encodedMessage = v₁.encodedMessage)
    (hrecipient : v'.currentRecipient = v₁.currentRecipient) : Quiet p v v' :=
  trans_of (Quiet p) h (Quiet.of_eq htrace hid hmsg hrecipient)

private theorem quiet_transferProgress (size : Nat) (t : TransferProgress) (p : IdAndRecipient) :
    Moves (Quiet p) (transferProgress size t p) := by
  intro v
  simp only [transferProgress, ends_bind, ends_get]
  by_cases hnew : (newProgress v size t).toProgress ≠ v.progress
  · rw [if_pos hnew]
    simp only [ends_bind, ends_set, record, ends_modify]
    exact ⟨⟨[_], by simp [Event.IsQuiet], rfl⟩, rfl, rfl, rfl⟩
  · rw [if_neg hnew]
    exact refl v

@[simp] theorem ends_lift {α : Type} {x : Except Exn α} {v : State} {post : α → State → Prop}
    {raised : Exn → State → Prop} :
    Ends (lift x) v post raised ↔ (∀ a, x = .ok a → post a v) ∧ (∀ e, x = .error e → raised e v) := by
  cases x <;> simp [lift]

variable {P : Platform}

@[simp] theorem Iteration.call_eq_ok {α : Type} {it : Iteration P} {c : Call} {x : Except Exn α} {a : α} :
    it.call c x = .ok a ↔ it.throws c = none ∧ x = .ok a := by
  unfold call
  cases it.throws c <;> simp

theorem Iteration.call_unit_eq_error {it : Iteration P} {c : Call} {e : Exn} :
    it.call c (.ok ()) = .error e ↔ it.throws c = some e := by
  unfold call
  cases it.throws c <;> simp

private theorem emitModified_ends (it : Iteration P) (p : IdAndRecipient) (emit : Call) (v : State) :
    Ends (emitModified it p emit) v (fun _ v' => Quiet p v v' ∧ it.throws emit = none)
      (fun e v' => Quiet p v v' ∧ it.throws emit = some e) := by
  simp only [emitModified, record, ends_bind, ends_get, ends_modify, ends_lift]
  have hquiet : Quiet p v
      { v with
        trace := v.trace ++ [(p, .marked v.db.delivery)] ++
          [(p, .messageModified v.currentConversationId v.currentMessageId)] } :=
    ⟨⟨[_, _], by simp [Event.IsQuiet], List.append_assoc _ _ _⟩, rfl, rfl, rfl⟩
  refine ⟨?_, ?_⟩
  · intro _ h
    exact ⟨hquiet, (Iteration.call_eq_ok.mp h).1⟩
  · intro e h
    exact ⟨hquiet, Iteration.call_unit_eq_error.mp h⟩

/-- `handleFailed` fails without a recipient, or with the exception its database call or its listener raises. -/
theorem handleFailed_ends (it : Iteration P) (p : IdAndRecipient) (mark emit : Call) (r : Option KulloAddress)
    (reason : Delivery.Reason) (v : State) :
    Ends (handleFailed it p mark emit r reason) v
      (fun _ v' => Quiet p v v' ∧ r ≠ none ∧ (it.throws mark).or (it.throws emit) = none)
      (fun e v' => Quiet p v v' ∧ (r = none ∨ (it.throws mark).or (it.throws emit) = some e)) := by
  cases r with
  | none => exact ⟨refl v, .inl rfl⟩
  | some r =>
    simp only [handleFailed, ends_bind, ends_lift, ends_modify]
    refine ⟨?_, ?_⟩
    · intro _ h
      rw [(Iteration.call_eq_ok.mp h).1, Option.none_or]
      refine (emitModified_ends it p emit _).mono ?_ ?_
      · rintro _ v' ⟨hquiet, hemit⟩
        exact ⟨hquiet.before rfl rfl rfl rfl, by simp, hemit⟩
      · rintro e v' ⟨hquiet, hemit⟩
        exact ⟨hquiet.before rfl rfl rfl rfl, .inr hemit⟩
    · intro e h
      rw [Iteration.call_unit_eq_error.mp h]
      exact ⟨refl v, .inr rfl⟩

/-- After the request itself, `sendMessage` is quiet, and it raises `sendFailure`. -/
theorem sendMessage_ends (it : Iteration P) (p : IdAndRecipient) (r : KulloAddress) (s : SendableMessage) (size : Nat)
    (v : State) :
    Ends (sendMessage it p r s size) v
      (fun _ v' => Quiet p { v with trace := v.trace ++ [(p, .sendMessage r s)] } v' ∧ it.sendFailure = none)
      (fun e v' => Quiet p { v with trace := v.trace ++ [(p, .sendMessage r s)] } v' ∧ it.sendFailure = some e) := by
  simp only [sendMessage, ends_bind, record, ends_modify]
  refine (moves_forIn (fun t => quiet_transferProgress size t p) it.transfers).ends ?_
  intro _ v₁ hv₁
  cases hs : it.throws .sendMessage with
  | none =>
    have hcall : it.call .sendMessage (.ok ()) = .ok () := by simp [hs]
    have hfail : it.sendFailure = (it.throws .markAsDelivered).or (it.throws .emitDelivered) := by
      simp [Iteration.sendFailure, hs]
    simp only [hcall, hfail, ends_bind, ends_modify, ends_lift]
    refine ⟨?_, ?_⟩
    · intro _ hd
      rw [(Iteration.call_eq_ok.mp hd).1, Option.none_or]
      refine (emitModified_ends it p .emitDelivered _).mono ?_ ?_
      all_goals
        rintro _ v' ⟨hquiet, hemit⟩
        exact ⟨trans_of (Quiet p) hv₁ (hquiet.before rfl rfl rfl rfl), hemit⟩
    · intro e hd
      rw [Iteration.call_unit_eq_error.mp hd]
      exact ⟨hv₁.after rfl rfl rfl rfl, rfl⟩
  | some e =>
    have hcall : it.call .sendMessage (.ok ()) = .error e := Iteration.call_unit_eq_error.mpr hs
    simp only [hcall]
    by_cases hnf : e = .notFound
    · subst hnf
      have hfail : it.sendFailure = (it.throws .markAsFailedInSend).or (it.throws .emitFailedInSend) := by
        simp [Iteration.sendFailure, hs]
      rw [hfail]
      refine (handleFailed_ends it p .markAsFailedInSend .emitFailedInSend (some r) .doesntExist v₁).mono ?_ ?_
      · exact fun _ v' h => ⟨trans_of (Quiet p) hv₁ h.1, h.2.2⟩
      · exact fun e v' h => ⟨trans_of (Quiet p) hv₁ h.1, h.2.resolve_left (by simp)⟩
    · have hfail : it.sendFailure = some e := by
        unfold Iteration.sendFailure
        rw [hs]
        cases e <;> simp_all
      cases e <;> first | exact absurd rfl hnf | exact ⟨hv₁, hfail⟩

/-- `x` fails for no message or for all of them, and what it makes of a message is related to it by `R`. -/
private def Uniform {β : Type} (x : EncodedMessage → Except Exn β) (R : EncodedMessage → β → Prop) : Prop :=
  (∃ e, ∀ msg, x msg = .error e) ∨ ∀ msg, ∃ b, x msg = .ok b ∧ R msg b

private theorem Uniform.bind {α β : Type} {y : Except Exn α} {x : α → EncodedMessage → Except Exn β}
    {R : EncodedMessage → β → Prop} (h : ∀ a, Uniform (x a) R) : Uniform (fun msg => y >>= fun a => x a msg) R := by
  cases y with
  | error e => exact .inl ⟨e, fun _ => rfl⟩
  | ok a => exact h a

private theorem uniform_address (it : Iteration P) : Uniform it.address (MadeFrom P) := by
  unfold Iteration.address
  refine .bind fun _ => .bind fun _ => .bind fun _ => .bind fun _ => .bind fun _ => .bind fun encKey => .bind fun _ => ?_
  unfold Iteration.call
  cases it.throws .makeSendableMessage with
  | some e => exact .inl ⟨e, fun _ => rfl⟩
  | none =>
    cases it.check .beforeSend with
    | error e => exact .inl ⟨e, fun _ => rfl⟩
    | ok _ => exact .inr fun msg => ⟨_, rfl, _, _, _, _, _, rfl⟩

/-- An iteration that does not dispatch fails for every message in the same way. -/
theorem Iteration.address_of_not_dispatches {it : Iteration P} (h : it.dispatches = false) :
    ∃ e, ∀ msg, it.address msg = .error e := by
  rcases uniform_address it with he | hok
  · exact he
  · obtain ⟨s, hs, -⟩ := hok {}
    simp [Iteration.dispatches, hs, Except.isOk, Except.toBool] at h

/-- An iteration that dispatches makes the message it sends from the encoded message. -/
theorem Iteration.address_of_dispatches {it : Iteration P} (h : it.dispatches = true) (msg : EncodedMessage) :
    ∃ s, it.address msg = .ok s ∧ MadeFrom P msg s := by
  rcases uniform_address it with ⟨e, he⟩ | hok
  · simp [Iteration.dispatches, he, Except.isOk, Except.toBool] at h
  · exact hok msg

/-- What preparing the message of `p` leaves behind: a recorded, finished encoding if it is `ready`, else no event. -/
private def PrepareReturned (it : Iteration P) (p : IdAndRecipient) (v : State) (ready : Bool) (v' : State) : Prop :=
  v'.currentMessageId = v.currentMessageId ∧ v'.currentRecipient = v.currentRecipient ∧
    if ready then
      it.preparation p.1 = .ok (some v'.encodedMessage) ∧
        v'.trace = v.trace ++ [(p, .prepared it.db v'.encodedMessage)]
    else it.preparation p.1 = .ok none ∧ it.throws .remove = none ∧ v'.trace = v.trace

private def PrepareRaised (it : Iteration P) (p : IdAndRecipient) (v : State) (e : Exn) (v' : State) : Prop :=
  v'.currentMessageId = v.currentMessageId ∧ v'.currentRecipient = v.currentRecipient ∧ v'.trace = v.trace ∧
    (it.preparation p.1 = .error e ∨ it.preparation p.1 = .ok none ∧ it.throws .remove = some e)

private theorem gone_ends {it : Iteration P} {p : IdAndRecipient} (v : State) (h : it.preparation p.1 = .ok none) :
    Ends (prepare.gone it p) v (PrepareReturned it p v) (PrepareRaised it p v) := by
  simp only [prepare.gone, ends_bind, ends_lift, ends_modify, ends_pure]
  refine ⟨fun _ hr => ?_, fun e hr => ?_⟩
  · simp [PrepareReturned, h, (Iteration.call_eq_ok.mp hr).1]
  · simp [PrepareRaised, h, Iteration.call_unit_eq_error.mp hr]

private theorem prepare_ends (it : Iteration P) (p : IdAndRecipient) (v : State) :
    Ends (prepare it p) v (PrepareReturned it p v) (PrepareRaised it p v) := by
  unfold prepare
  rw [ends_bind, ends_lift]
  refine ⟨?_, ?_⟩
  · intro dao? hload
    cases dao? with
    | none => exact gone_ends v (by simp [Iteration.preparation, hload, bind, Except.bind])
    | some dao =>
      by_cases hdel : dao.row.deleted = true
      · simp only [hdel, if_true]
        exact gone_ends v (by simp [Iteration.preparation, hload, hdel, bind, Except.bind])
      · have hprep : it.preparation p.1 = (do
            let msg ← it.encode dao
            let msg ← it.compressContent msg
            let msg ← it.compressAttachments msg
            .ok (some msg)) := by
          simp [Iteration.preparation, hload, hdel, bind, Except.bind]
        simp only [hdel, Bool.false_eq_true, if_false, record, ends_bind, ends_modify, ends_lift, ends_pure]
        refine ⟨fun msg he => ⟨fun msg' hc => ⟨fun msg'' ha => ?_, fun e ha => ?_⟩, fun e hc => ?_⟩, fun e he => ?_⟩
        · simp [PrepareReturned, hprep, he, hc, ha, bind, Except.bind]
        all_goals simp [PrepareRaised, bind, Except.bind, *]
  · intro e hload
    simp [PrepareRaised, Iteration.preparation, hload, bind, Except.bind]

/-! ### What an iteration leaves behind -/

namespace Iteration

private theorem prepares_iff {it : Iteration P} {id : IdType} :
    it.prepares id = true ↔ ∃ msg, it.preparation id = .ok (some msg) := by
  unfold prepares
  split
  · next h => simp [h]
  · next h =>
    simp only [Bool.false_eq_true, false_iff, not_exists]
    exact h

/-- Whether there is an encoded message to send: one that was just prepared, or the one already there. -/
def ready (it : Iteration P) (loads : Bool) (id : IdType) : Bool :=
  !loads || it.prepares id

end Iteration

/-- The request of an iteration, and quiet events after it. -/
private def Sent (P : Platform) (p : IdAndRecipient) (v v' : State) : Prop :=
  ∃ s, MadeFrom P v.encodedMessage s ∧ Quiet p { v with trace := v.trace ++ [(p, .sendMessage p.2 s)] } v'

private theorem dispatch_ends (it : Iteration P) (p : IdAndRecipient) (v : State) :
    Ends (dispatch it p) v
      (fun _ v' => it.dispatches = true ∧ it.sendFailure = none ∧ Sent P p v v')
      (fun e v' => it.dispatches = false ∧ it.address {} = .error e ∧ v' = v ∨
        it.dispatches = true ∧ it.sendFailure = some e ∧ Sent P p v v') := by
  unfold dispatch
  rw [ends_bind, ends_get]
  rw [ends_bind, ends_lift]
  cases hd : it.dispatches with
  | true =>
    obtain ⟨s, hs, hmade⟩ := Iteration.address_of_dispatches hd v.encodedMessage
    rw [hs]
    refine ⟨fun s' h => ?_, fun e h => by simp at h⟩
    obtain rfl : s = s' := by simpa using h
    refine (sendMessage_ends it p p.2 s v.currentMessageEstimatedSize v).mono ?_ ?_
    · exact fun _ v' h => ⟨rfl, h.2, s, hmade, h.1⟩
    · exact fun e v' h => .inr ⟨rfl, h.2, s, hmade, h.1⟩
  | false =>
    obtain ⟨e, he⟩ := Iteration.address_of_not_dispatches hd
    rw [he, he]
    refine ⟨fun s h => by simp at h, fun e' h => .inl ⟨rfl, ?_, rfl⟩⟩
    simpa using h

/-- The state of an iteration before it sends anything. -/
structure Begun (it : Iteration P) (p : IdAndRecipient) (v v' : State) : Prop where
  currentMessageId : v'.currentMessageId = p.1
  currentRecipient : v'.currentRecipient = some p.2
  encodedMessage : v.currentMessageId = p.1 → v'.encodedMessage = v.encodedMessage
  preparation : v.currentMessageId ≠ p.1 → it.prepares p.1 = true → it.preparation p.1 = .ok (some v'.encodedMessage)
  trace : ∃ progress, v'.trace = v.trace ++ (p, .progressed progress) ::
    if v.currentMessageId ≠ p.1 ∧ it.prepares p.1 = true then [(p, .prepared it.db v'.encodedMessage)] else []

/-- The state after an iteration that has begun. -/
def Iterated (it : Iteration P) (p : IdAndRecipient) (v v' : State) : Prop :=
  ∃ w, Begun it p v w ∧
    if it.ready (v.currentMessageId ≠ p.1) p.1 = true ∧ it.dispatches = true then Sent P p w v' else v' = w

private def AttemptReturned (it : Iteration P) (p : IdAndRecipient) (v v' : State) : Prop :=
  it.begins.isOk = true ∧ it.failure (v.currentMessageId ≠ p.1) p.1 = none ∧ Iterated it p v v'

private def AttemptRaised (it : Iteration P) (p : IdAndRecipient) (v : State) (e : Exn) (v' : State) : Prop :=
  it.begins = .error e ∧ Quiet p v v' ∨
    it.begins.isOk = true ∧ it.failure (v.currentMessageId ≠ p.1) p.1 = some e ∧ Iterated it p v v'

/-- The last part of the try block, from a state in which there is an encoded message. -/
private theorem dispatch_attempt {it : Iteration P} {p : IdAndRecipient} {v w : State} (hok : it.begins.isOk = true)
    (hw : Begun it p v w) (hready : it.ready (v.currentMessageId ≠ p.1) p.1 = true)
    (hfail : it.failure (v.currentMessageId ≠ p.1) p.1 =
      match it.address {} with | .error e => some e | .ok _ => it.sendFailure) :
    Ends (dispatch it p) w (fun _ => AttemptReturned it p v) (AttemptRaised it p v) := by
  have hadd : it.dispatches = true → ∃ s, it.address {} = .ok s := fun hd => by
    obtain ⟨s, hs, -⟩ := Iteration.address_of_dispatches hd {}
    exact ⟨s, hs⟩
  refine (dispatch_ends it p w).mono ?_ ?_
  · rintro _ v' ⟨hd, hf, hsent⟩
    obtain ⟨s, hs⟩ := hadd hd
    refine ⟨hok, by rw [hfail, hs]; exact hf, w, hw, ?_⟩
    rwa [if_pos ⟨hready, hd⟩]
  · rintro e v' (⟨hd, he, rfl⟩ | ⟨hd, hf, hsent⟩)
    · refine .inr ⟨hok, by rw [hfail, he], v', hw, ?_⟩
      rw [if_neg (by simp [hd])]
    · obtain ⟨s, hs⟩ := hadd hd
      refine .inr ⟨hok, by rw [hfail, hs]; exact hf, w, hw, ?_⟩
      rwa [if_pos ⟨hready, hd⟩]

private theorem attempt_ends (it : Iteration P) (p : IdAndRecipient) (v : State) :
    Ends (attempt it p) v (fun _ => AttemptReturned it p v) (AttemptRaised it p v) := by
  unfold attempt
  rw [ends_bind, ends_lift]
  refine ⟨fun size hstart => ?_, fun e hstart => .inl ⟨by unfold Iteration.begins; rw [hstart]; rfl, refl v⟩⟩
  have hbegins : it.begins = it.call .emitProgressed (.ok ()) := by
    unfold Iteration.begins
    rw [hstart]
    rfl
  simp only [record, ends_bind, ends_modify, ends_get, ends_set, ends_lift]
  refine ⟨?_, ?_⟩
  rotate_left
  · intro e hemit
    exact .inl ⟨hbegins.trans hemit, ⟨[_], by simp [Event.IsQuiet], rfl⟩, rfl, rfl, rfl⟩
  intro _ hemit
  have hok : it.begins.isOk = true := by
    rw [hbegins, hemit]
    rfl
  -- the message of the iteration before is not loaded again
  by_cases hload : v.currentMessageId = p.1
  · rw [if_pos hload]
    refine dispatch_attempt hok ?_ (by simp [Iteration.ready, hload]) (by simp [Iteration.failure, hload])
    exact ⟨rfl, rfl, fun _ => rfl, fun h => absurd hload h, _, by rw [if_neg (fun h => h.1 hload)]⟩
  · rw [if_neg hload, ends_bind]
    refine (prepare_ends it p _).mono ?_ ?_
    · rintro ready w ⟨hid, hrec, hrest⟩
      cases ready with
      | true =>
        obtain ⟨hprep, htrace⟩ := hrest
        have hp : it.prepares p.1 = true := Iteration.prepares_iff.mpr ⟨_, hprep⟩
        refine dispatch_attempt hok ?_ (by simp [Iteration.ready, hp]) (by simp [Iteration.failure, hload, hprep])
        refine ⟨hid, hrec, fun h => absurd h hload, fun _ _ => hprep, startSums v.previouslyUploaded size, ?_⟩
        rw [if_pos ⟨hload, hp⟩, htrace, List.append_assoc]
        rfl
      | false =>
        obtain ⟨hprep, hremove, htrace⟩ := hrest
        have hp : it.prepares p.1 = false := by simp [Iteration.prepares, hprep]
        refine ⟨hok, by simp [Iteration.failure, hload, hprep, hremove], w,
          ⟨hid, hrec, fun h => absurd h hload, by simp [hp], startSums v.previouslyUploaded size, ?_⟩, ?_⟩
        · rw [if_neg (by simp [hp]), htrace]
        · rw [if_neg (by simp [Iteration.ready, hp, hload])]
    · rintro e w ⟨hid, hrec, htrace, hraised⟩
      have hp : it.prepares p.1 = false := by
        rcases hraised with h | h <;> simp [Iteration.prepares, h]
      have hf : it.failure (v.currentMessageId ≠ p.1) p.1 = some e := by
        rcases hraised with h | h <;> simp [Iteration.failure, hload, h]
      refine .inr ⟨hok, hf, w,
        ⟨hid, hrec, fun h => absurd h hload, by simp [hp], startSums v.previouslyUploaded size, ?_⟩, ?_⟩
      · rw [if_neg (by simp [hp]), htrace]
      · rw [if_neg (by simp [Iteration.ready, hp, hload])]

private theorem Iterated.of_entered {it : Iteration P} {p : IdAndRecipient} {v w : State} {db : Db}
    (h : Iterated it p { v with db := db, currentRecipient := none } w) : Iterated it p v w := by
  obtain ⟨w₀, ⟨hid, hrec, hmsg, hprep, htrace⟩, hsent⟩ := h
  exact ⟨w₀, ⟨hid, hrec, hmsg, hprep, htrace⟩, hsent⟩

/-- The handlers of an iteration end the run for the exceptions that escape, and for all of them before the recipient
is known. -/
private theorem handler_ends (it : Iteration P) (p : IdAndRecipient) (e : Exn) (v : State) :
    Ends
      (match e with
        | .canceled => throw .syncCanceled
        | .notFound => do handleFailed it p .markAsFailed .emitFailed (← get).currentRecipient .doesntExist
        | .syncCanceled => throw .syncCanceled
        | _ => do handleFailed it p .markAsFailed .emitFailed (← get).currentRecipient .unknown : SenderM Unit) v
      (fun _ v' => Quiet p v v' ∧ v.currentRecipient ≠ none ∧ it.escapes e = false)
      (fun _ v' => Quiet p v v' ∧ (v.currentRecipient = none ∨ it.escapes e = true)) := by
  have hfailed : ∀ reason, it.escapes e = ((it.throws .markAsFailed).or (it.throws .emitFailed)).isSome →
      Ends (do handleFailed it p .markAsFailed .emitFailed (← get).currentRecipient reason : SenderM Unit) v
        (fun _ v' => Quiet p v v' ∧ v.currentRecipient ≠ none ∧ it.escapes e = false)
        (fun _ v' => Quiet p v v' ∧ (v.currentRecipient = none ∨ it.escapes e = true)) := by
    intro reason he
    rw [ends_bind, ends_get, he]
    refine (handleFailed_ends it p .markAsFailed .emitFailed v.currentRecipient reason v).mono ?_ ?_
    · exact fun _ v' h => ⟨h.1, h.2.1, by rw [h.2.2]; rfl⟩
    · exact fun e' v' h => ⟨h.1, h.2.imp_right (fun h => by rw [h]; rfl)⟩
  cases e with
  | canceled => exact ⟨refl v, .inr rfl⟩
  | syncCanceled => exact ⟨refl v, .inr rfl⟩
  | notFound => exact hfailed .doesntExist rfl
  | _ => exact hfailed .unknown rfl

/-- An iteration that begins leaves a state `Iterated` describes, up to quiet events of its handlers; whether the run
goes on is `stops`.  An iteration that does not begin ends the run. -/
theorem iterate_ends (it : Iteration P) (p : IdAndRecipient) (v : State) :
    Ends (iterate it p) v
      (fun _ v' => it.begins.isOk = true ∧ it.stops (v.currentMessageId ≠ p.1) p.1 = false ∧
        ∃ w, Iterated it p v w ∧ Quiet p w v')
      (fun _ v' => (it.begins.isOk = false ∧ Quiet p { v with db := it.db, currentRecipient := none } v') ∨
        (it.begins.isOk = true ∧ it.stops (v.currentMessageId ≠ p.1) p.1 = true ∧
          ∃ w, Iterated it p v w ∧ Quiet p w v')) := by
  unfold iterate
  rw [ends_bind, ends_modify, ends_tryCatch]
  refine (attempt_ends it p _).mono ?_ ?_
  · rintro _ w ⟨hok, hf, hw⟩
    exact ⟨hok, by unfold Iteration.stops; rw [hf]; rfl, w, hw.of_entered, refl w⟩
  · rintro e w (⟨hbegins, hquiet⟩ | ⟨hok, hf, hw⟩)
    · have hno : it.begins.isOk = false := by rw [hbegins]; rfl
      refine (handler_ends it p e _).mono ?_ ?_
      · exact fun _ v' h => absurd hquiet.currentRecipient h.2.1
      · exact fun _ v' h => .inl ⟨hno, trans_of (Quiet p) hquiet h.1⟩
    · have hrec : w.currentRecipient ≠ none := by
        obtain ⟨w₀, hw₀, hw⟩ := hw
        split at hw
        · obtain ⟨s, -, hq⟩ := hw
          rw [hq.currentRecipient]
          change w₀.currentRecipient ≠ none
          rw [hw₀.currentRecipient]
          simp
        · rw [hw, hw₀.currentRecipient]
          simp
      have hstops : it.stops (v.currentMessageId ≠ p.1) p.1 = it.escapes e := by
        unfold Iteration.stops
        rw [hf]
        rfl
      rw [hstops]
      refine (handler_ends it p e w).mono ?_ ?_
      · exact fun _ v' h => ⟨hok, h.2.2, w, hw.of_entered, h.1⟩
      · exact fun _ v' h => .inr ⟨hok, h.2.resolve_left hrec, w, hw.of_entered, h.1⟩

/-! ### Right content over a run -/

private theorem rightContent_nil (db : Db) : RightContent P db [] := by
  intro before after p r s h
  simp at h

/-- Events that send nothing keep a trace right. -/
theorem rightContent_append_of_not_send {db : Db} {trace es : List (IdAndRecipient × Event)}
    (hes : ∀ p r s, (p, Event.sendMessage r s) ∉ es) : RightContent P db (trace ++ es) ↔ RightContent P db trace := by
  constructor
  · intro h before after p r s heq
    exact h before (after ++ es) p r s (by rw [heq]; simp)
  · intro h before after p r s heq
    rcases List.append_eq_append_iff.mp heq with ⟨as, hb, he⟩ | ⟨bs, ht, he⟩
    · exact absurd (by rw [he]; simp) (hes p r s)
    · cases bs with
      | nil => exact absurd (by rw [← List.nil_append es, ← he]; simp) (hes p r s)
      | cons b bs =>
        simp only [List.cons_append, List.cons.injEq] at he
        exact h before bs p r s (by rw [ht, ← he.1])

/-- A sent message keeps a trace right if it is right itself. -/
theorem rightContent_append_send {db : Db} {trace : List (IdAndRecipient × Event)} {p : IdAndRecipient}
    {r : KulloAddress} {s : SendableMessage} :
    RightContent P db (trace ++ [(p, .sendMessage r s)]) ↔ RightContent P db trace ∧ RightSend P db trace p r s := by
  constructor
  · intro h
    refine ⟨fun before after p' r' s' heq => ?_, h trace [] p r s rfl⟩
    exact h before (after ++ [(p, .sendMessage r s)]) p' r' s' (by rw [heq]; simp)
  · rintro ⟨h, hs⟩ before after p' r' s' heq
    rcases List.eq_nil_or_concat after with rfl | ⟨after, x, rfl⟩
    · obtain ⟨ht, hx⟩ := List.append_inj' heq rfl
      simp only [List.cons.injEq, and_true, Prod.mk.injEq, Event.sendMessage.injEq] at hx
      obtain ⟨rfl, rfl, rfl⟩ := hx
      rwa [← ht]
    · rw [List.concat_eq_append, ← List.cons_append, ← List.append_assoc] at heq
      obtain ⟨ht, -⟩ := List.append_inj' heq rfl
      exact h before after p' r' s' ht

private theorem Quiet.rightContent {db : Db} {p : IdAndRecipient} {v v' : State} (h : Quiet p v v') :
    RightContent P db v'.trace ↔ RightContent P db v.trace := by
  obtain ⟨es, hes, ht⟩ := h.trace
  rw [ht]
  refine rightContent_append_of_not_send ?_
  intro q r s hmem
  obtain ⟨e, he, heq⟩ := List.mem_map.mp hmem
  simp only [Prod.mk.injEq] at heq
  have hq := hes e he
  rw [heq.2] at hq
  exact hq

/-- An encoding that was prepared is one of the stored message. -/
theorem Iteration.encodingOf_preparation {it : Iteration P} {id : IdType} {msg : EncodedMessage}
    (h : it.preparation id = .ok (some msg)) : EncodingOf P it.db id msg := by
  unfold preparation at h
  cases hload : it.load id with
  | error e => simp [hload, bind, Except.bind] at h
  | ok dao? =>
    obtain ⟨-, hdao⟩ := call_eq_ok.mp hload
    simp only [hload, bind, Except.bind] at h
    cases dao? with
    | none => simp at h
    | some dao =>
      cases hdel : dao.row.deleted with
      | true => simp [hdel] at h
      | false =>
        simp only [hdel, Bool.false_eq_true, if_false] at h
        cases hraw : it.encode dao with
        | error e => simp [hraw] at h
        | ok raw =>
          simp only [hraw] at h
          cases hc : it.compressContent raw with
          | error e => simp [hc] at h
          | ok half =>
            simp only [hc] at h
            cases ha : it.compressAttachments half with
            | error e => simp [ha] at h
            | ok msg' =>
              simp only [ha, Except.ok.injEq, Option.some.injEq] at h
              subst h
              refine ⟨dao, raw, by simpa using hdao, hdel, ?_, ?_⟩
              · unfold encode at hraw
                cases hcheck : it.check .afterLoad with
                | error e => simp [hcheck, bind, Except.bind] at hraw
                | ok _ =>
                  simp only [hcheck, bind, Except.bind] at hraw
                  exact (call_eq_ok.mp hraw).2
              · simp only [MessageCompressor.compress, bind, Except.bind, (call_eq_ok.mp hc).2]
                exact (call_eq_ok.mp ha).2

/-- What the loop knows between two iterations about the message of the last one: if it is `ready`, its encoding is
the encoded message and was recorded; otherwise no encoding of it was, and none of a later message ever is. -/
structure Knows (P : Platform) (v : State) (current : IdType) (ready : Bool)
    (ps : List (IdAndRecipient × Iteration P)) : Prop where
  currentMessageId : v.currentMessageId = current
  prepared : ready = true →
    ∃ r₀ db, ((current, r₀), Event.prepared db v.encodedMessage) ∈ v.trace ∧ EncodingOf P db current v.encodedMessage
  unprepared : ready = false → ∀ r₀ db msg, ((current, r₀), Event.prepared db msg) ∉ v.trace
  later : ∀ q ∈ ps, q.1.1 ≠ current → ∀ r₀ db msg, ((q.1.1, r₀), Event.prepared db msg) ∉ v.trace

/-- Events without an encoding leave the knowledge of the loop as it is. -/
theorem Knows.append {v v' : State} {current : IdType} {ready : Bool} {ps : List (IdAndRecipient × Iteration P)}
    (h : Knows P v current ready ps) (hid : v'.currentMessageId = v.currentMessageId)
    (hmsg : v'.encodedMessage = v.encodedMessage) {es : List (IdAndRecipient × Event)}
    (hes : ∀ q db msg, (q, Event.prepared db msg) ∉ es) (ht : v'.trace = v.trace ++ es) :
    Knows P v' current ready ps where
  currentMessageId := by rw [hid, h.currentMessageId]
  prepared hr := by
    obtain ⟨r₀, db, hmem, henc⟩ := h.prepared hr
    rw [hmsg, ht]
    exact ⟨r₀, db, List.mem_append_left _ hmem, henc⟩
  unprepared hr r₀ db msg hmem := by
    rw [ht] at hmem
    rcases List.mem_append.mp hmem with hm | hm
    · exact h.unprepared hr r₀ db msg hm
    · exact hes _ _ _ hm
  later q hq hne r₀ db msg hmem := by
    rw [ht] at hmem
    rcases List.mem_append.mp hmem with hm | hm
    · exact h.later q hq hne r₀ db msg hm
    · exact hes _ _ _ hm

theorem Knows.quiet {p : IdAndRecipient} {v v' : State} {current : IdType} {ready : Bool}
    {ps : List (IdAndRecipient × Iteration P)} (h : Knows P v current ready ps) (hq : Quiet p v v') :
    Knows P v' current ready ps := by
  obtain ⟨es, hes, ht⟩ := hq.trace
  refine h.append hq.currentMessageId hq.encodedMessage ?_ ht
  intro q db msg hmem
  obtain ⟨e, he, heq⟩ := List.mem_map.mp hmem
  have hquiet := hes e he
  simp only [Prod.mk.injEq] at heq
  rw [heq.2] at hquiet
  exact hquiet

/-- Beginning an iteration, the loop knows about the message of its pair. -/
theorem Knows.begun {it : Iteration P} {p : IdAndRecipient} {rest : List (IdAndRecipient × Iteration P)} {v w : State}
    {ready : Bool} (h : Knows P v v.currentMessageId ready ((p, it) :: rest)) (hw : Begun it p v w)
    (hsorted : ∀ q ∈ rest, p.1 ≤ q.1.1) (hle : v.currentMessageId ≤ p.1) :
    Knows P w p.1 (if v.currentMessageId = p.1 then ready else it.prepares p.1) rest := by
  obtain ⟨progress, htrace⟩ := hw.trace
  -- a later message is not the current one, whether the current one is that of `p` or comes before it
  have hlater : ∀ q ∈ rest, q.1.1 ≠ p.1 → ∀ r₀ db msg, ((q.1.1, r₀), Event.prepared db msg) ∉ w.trace := by
    intro q hq hne r₀ db msg hmem
    have hne' : q.1.1 ≠ v.currentMessageId := fun he =>
      hne (Nat.le_antisymm (he ▸ hle) (hsorted q hq))
    rw [htrace] at hmem
    rcases List.mem_append.mp hmem with hm | hm
    · exact h.later q (List.mem_cons_of_mem _ hq) hne' r₀ db msg hm
    · split at hm
      · simp only [List.mem_cons, Prod.mk.injEq, reduceCtorEq, and_false, List.not_mem_nil, or_false, false_or] at hm
        exact hne (by rw [← hm.1])
      · simp at hm
  by_cases hload : v.currentMessageId = p.1
  · rw [if_pos hload]
    rw [if_neg (fun hc => hc.1 hload)] at htrace
    have hknows : Knows P v p.1 ready rest :=
      ⟨hload, hload ▸ h.prepared, hload ▸ h.unprepared, fun q hq hne =>
        h.later q (List.mem_cons_of_mem _ hq) (hload ▸ hne)⟩
    exact hknows.append (by rw [hw.currentMessageId, hload]) (hw.encodedMessage hload) (by simp) htrace
  · rw [if_neg hload]
    refine ⟨hw.currentMessageId, fun hp => ?_, fun hp => ?_, hlater⟩
    · rw [if_pos ⟨hload, hp⟩] at htrace
      exact ⟨p.2, it.db, by rw [htrace]; simp, it.encodingOf_preparation (hw.preparation hload hp)⟩
    · intro r₀ db msg hmem
      rw [htrace, if_neg (by simp [hp])] at hmem
      rcases List.mem_append.mp hmem with hm | hm
      · exact h.later (p, it) (by simp) (fun e => hload e.symm) r₀ db msg hm
      · simp at hm

/-- One iteration: what the loop knows afterwards, and when it keeps the trace right. -/
private theorem iterated_rightContent {it : Iteration P} {p : IdAndRecipient}
    {rest : List (IdAndRecipient × Iteration P)} {db : Db} {v w v' : State} {ready : Bool}
    (h : Knows P v v.currentMessageId ready ((p, it) :: rest)) (hw : Iterated it p v w) (hv' : Quiet p w v')
    (hsorted : ∀ q ∈ rest, p.1 ≤ q.1.1) (hle : v.currentMessageId ≤ p.1) (hunsent : DeliveryUnsent db p.1 p.2) :
    Knows P v' p.1 (if v.currentMessageId = p.1 then ready else it.prepares p.1) rest ∧
      (RightContent P db v'.trace ↔
        RightContent P db v.trace ∧ (v.currentMessageId = p.1 → it.dispatches = true → ready = true)) := by
  obtain ⟨w₀, hbegun, hsent⟩ := hw
  have hknows := h.begun hbegun hsorted hle
  have hright : RightContent P db w₀.trace ↔ RightContent P db v.trace := by
    obtain ⟨progress, htrace⟩ := hbegun.trace
    rw [htrace]
    refine rightContent_append_of_not_send ?_
    intro q r s hmem
    split at hmem <;> simp at hmem
  split at hsent
  · next hsends =>
    obtain ⟨s, hmade, hq⟩ := hsent
    have hknows' : Knows P { w₀ with trace := w₀.trace ++ [(p, .sendMessage p.2 s)] } p.1
        (if v.currentMessageId = p.1 then ready else it.prepares p.1) rest :=
      hknows.append rfl rfl (by simp) rfl
    refine ⟨(hknows'.quiet hq).quiet hv', ?_⟩
    rw [hv'.rightContent, hq.rightContent, rightContent_append_send, hright]
    refine and_congr_right fun _ => ?_
    by_cases hload : v.currentMessageId = p.1
    · rw [if_pos hload] at hknows
      constructor
      · rintro ⟨-, -, r₀, dbₘ, msg, hmem, -, -⟩ _ _
        cases hr : ready with
        | true => rfl
        | false => exact absurd hmem (hknows.unprepared hr r₀ dbₘ msg)
      · intro hr
        obtain ⟨r₀, dbₘ, hmem, henc⟩ := hknows.prepared (hr hload hsends.2)
        exact ⟨rfl, hunsent, r₀, dbₘ, _, hmem, henc, hmade⟩
    · have hp : it.prepares p.1 = true := by
        have := hsends.1
        simpa [Iteration.ready, hload] using this
      rw [if_neg hload] at hknows
      obtain ⟨r₀, dbₘ, hmem, henc⟩ := hknows.prepared hp
      exact iff_of_true ⟨rfl, hunsent, r₀, dbₘ, _, hmem, henc, hmade⟩ (fun h => absurd h hload)
  · next hsends =>
    subst hsent
    refine ⟨hknows.quiet hv', ?_⟩
    rw [hv'.rightContent, hright]
    refine (and_iff_left ?_).symm
    intro hload hd
    exact absurd ⟨by simp [Iteration.ready, hload], hd⟩ hsends

/-- The condition at an iteration that ends the run. -/
private theorem preparedWhenSent_of_stops {it : Iteration P} {p : IdAndRecipient} {current : IdType} {ready : Bool}
    {rest : List (IdAndRecipient × Iteration P)} (hok : it.begins.isOk = true)
    (hstop : it.stops (current ≠ p.1) p.1 = true) :
    PreparedWhenSent current ready ((p, it) :: rest) ↔ (current = p.1 → it.dispatches = true → ready = true) := by
  obtain ⟨_, hbegins⟩ : ∃ u, it.begins = .ok u := by
    cases h : it.begins with
    | error e => rw [h] at hok; simp [Except.isOk, Except.toBool] at hok
    | ok u => exact ⟨u, rfl⟩
  unfold PreparedWhenSent
  by_cases hload : current = p.1 <;> simp_all

/-- The condition at an iteration after which the run goes on. -/
private theorem preparedWhenSent_of_goes_on {it : Iteration P} {p : IdAndRecipient} {current : IdType} {ready : Bool}
    {rest : List (IdAndRecipient × Iteration P)} (hok : it.begins.isOk = true)
    (hgo : it.stops (current ≠ p.1) p.1 = false) :
    PreparedWhenSent current ready ((p, it) :: rest) ↔
      (current = p.1 → it.dispatches = true → ready = true) ∧
        PreparedWhenSent p.1 (if current = p.1 then ready else it.prepares p.1) rest := by
  obtain ⟨_, hbegins⟩ : ∃ u, it.begins = .ok u := by
    cases h : it.begins with
    | error e => rw [h] at hok; simp [Except.isOk, Except.toBool] at hok
    | ok u => exact ⟨u, rfl⟩
  conv_lhs => unfold PreparedWhenSent
  by_cases hload : current = p.1 <;> simp_all

/-- A run keeps the trace right exactly if its iterations send only what was prepared. -/
private theorem loop_rightContent (db : Db) {ps : List (IdAndRecipient × Iteration P)} {v : State} {ready : Bool}
    (h : Knows P v v.currentMessageId ready ps) (hsorted : ps.Pairwise (fun q q' => q.1.1 ≤ q'.1.1))
    (hle : ∀ q ∈ ps, v.currentMessageId ≤ q.1.1) (hunsent : ∀ q ∈ ps, DeliveryUnsent db q.1.1 q.1.2) :
    Ends (loop ps) v
      (fun _ v' => RightContent P db v'.trace ↔
        RightContent P db v.trace ∧ PreparedWhenSent v.currentMessageId ready ps)
      (fun _ v' => RightContent P db v'.trace ↔
        RightContent P db v.trace ∧ PreparedWhenSent v.currentMessageId ready ps) := by
  induction ps generalizing v ready with
  | nil => simp [loop, PreparedWhenSent]
  | cons q rest ih =>
    obtain ⟨p, it⟩ := q
    rw [List.pairwise_cons] at hsorted
    have hle' : v.currentMessageId ≤ p.1 := hle (p, it) (by simp)
    have hunsent' : DeliveryUnsent db p.1 p.2 := hunsent (p, it) (by simp)
    unfold loop
    rw [ends_bind]
    refine (iterate_ends it p v).mono ?_ ?_
    · rintro _ v' ⟨hok, hgo, w, hw, hv'⟩
      obtain ⟨hknows, hright⟩ := iterated_rightContent h hw hv' hsorted.1 hle' hunsent'
      have hid : v'.currentMessageId = p.1 := hknows.currentMessageId
      rw [← hid] at hknows
      have hrest := ih hknows hsorted.2 (fun q hq => hid ▸ hsorted.1 q hq)
        (fun q hq => hunsent q (List.mem_cons_of_mem _ hq))
      rw [hid] at hrest
      refine hrest.mono ?_ ?_ <;> intro _ v'' hv'' <;>
        rw [hv'', hright, preparedWhenSent_of_goes_on hok hgo, and_assoc]
    · rintro _ v' (⟨hno, hq⟩ | ⟨hok, hstop, w, hw, hv'⟩)
      · have hcond : PreparedWhenSent v.currentMessageId ready ((p, it) :: rest) := by
          unfold PreparedWhenSent
          cases h : it.begins with
          | error e => trivial
          | ok _ => rw [h] at hno; simp [Except.isOk, Except.toBool] at hno
        rw [hq.rightContent]
        exact (and_iff_left hcond).symm
      · obtain ⟨-, hright⟩ := iterated_rightContent h hw hv' hsorted.1 hle' hunsent'
        rw [hright, preparedWhenSent_of_stops hok hstop]

/-- What a run did, whether it returned or raised. -/
def runTrace (db : Db) (its : Nat → Iteration P) (previouslyUploaded : Nat) : List (IdAndRecipient × Event) :=
  match run db its previouslyUploaded {} with
  | .ok _ v => v.trace
  | .error _ v => v.trace

/-- Every message `run` sends is right if and only if every iteration that sends without loading its message comes
after one that prepared the message. -/
theorem run_rightContent (db : Db) (its : Nat → Iteration P) (previouslyUploaded : Nat) :
    RightContent P db (runTrace db its previouslyUploaded) ↔
      ∀ pairs, DeliveryDao.unsentMessages db = .ok pairs →
        PreparedWhenSent 0 false (withIterations its pairs) := by
  have hends : Ends (run db its previouslyUploaded) {}
      (fun _ v => RightContent P db v.trace ↔ ∀ pairs, DeliveryDao.unsentMessages db = .ok pairs →
        PreparedWhenSent 0 false (withIterations its pairs))
      (fun _ v => RightContent P db v.trace ↔ ∀ pairs, DeliveryDao.unsentMessages db = .ok pairs →
        PreparedWhenSent 0 false (withIterations its pairs)) := by
    simp only [run, ends_bind, ends_set, ends_lift]
    refine ⟨fun pairs hpairs => ?_, fun e he => ?_⟩
    · have hpair : ∀ q ∈ withIterations its pairs, q.1 ∈ pairs := by
        intro q hq
        obtain ⟨⟨p, i⟩, hp, rfl⟩ := List.mem_map.mp hq
        exact List.fst_mem_of_mem_zipIdx hp
      -- the deliveries of one message follow each other, so the encoding kept from the first serves them all
      have hsorted : (withIterations its pairs).Pairwise (fun q q' => q.1.1 ≤ q'.1.1) := by
        have h := DeliveryDao.unsentMessages_sorted hpairs
        have hfst : (withIterations its pairs).map Prod.fst = pairs := by
          unfold withIterations
          rw [List.map_map]
          exact List.zipIdx_map_fst 0 pairs
        rw [← hfst, List.pairwise_map] at h
        exact h
      have hknows : Knows P { previouslyUploaded := previouslyUploaded, db := db : State } 0 false
          (withIterations its pairs) := ⟨rfl, by simp, by simp, by simp⟩
      refine (loop_rightContent db hknows hsorted (fun q _ => Nat.zero_le _) ?_).mono ?_ ?_
      · exact fun q hq => DeliveryDao.mem_unsentMessages hpairs (hpair q hq)
      all_goals
        intro _ v hv
        rw [hv]
        simp [rightContent_nil, hpairs]
    · exact iff_of_true (rightContent_nil db) (by simp [he])
  unfold Ends at hends
  unfold runTrace
  cases hrun : run db its previouslyUploaded {} with
  | ok _ v => rwa [hrun] at hends
  | error e v => rwa [hrun] at hends

/-! ### A message that was removed before it was sent -/

/-- The user has removed message 5, whose two deliveries are unsent. -/
def removedDb : Db where
  messages := ⟨[{ id := 5, deleted := true }], by decide⟩
  delivery := [{ messageId := 5, recipient := "alice#kullo.test", state := "unsent" },
    { messageId := 5, recipient := "bob#kullo.test", state := "unsent" }]

/-- An iteration in which nothing fails. -/
def undisturbed (db : Db) : Iteration Platform.transparent where
  db := db
  encKeyId := 1
  encPubkey := []
  sigKeyId := 2
  sigKey := []
  random := ⟨[], []⟩

private def isPrepared : Event → Bool
  | .prepared _ _ => true
  | _ => false

/-- The removed message is skipped for the first recipient, and the second one gets an encoded message that was never
made. -/
theorem run_removed_not_rightContent :
    ¬ RightContent Platform.transparent removedDb (runTrace removedDb (fun _ => undisturbed removedDb) 0) := by
  intro h
  let bob : KulloAddress := ⟨"bob", "kullo.test", by decide, by decide, by decide, by decide⟩
  let trace := runTrace removedDb (fun _ => undisturbed removedDb) 0
  have hsend := h (trace.take 2) (trace.drop 3) (5, bob) bob ⟨[0, 0, 0, 1], [0, 0, 0, 2, 0, 0, 0, 0], []⟩ rfl
  obtain ⟨-, -, r₀, db, msg, hmem, -, -⟩ := hsend
  have hnone : ∀ x ∈ trace.take 2, isPrepared x.2 = false := by decide
  have := hnone _ hmem
  simp [isPrepared] at this

end MessagesSender

end KulloClient
