import KulloClient.Sync.SenderContent

/-!
# What an iteration of the sender does to the deliveries

`Effect` lists what an iteration makes of the database it finds, together with whether it made its request and with the
tables of deliveries it left on the way; `iterate_effect` says that there is nothing else.
-/

namespace KulloClient

namespace MessagesSender

open Imperative

/-- The requests among the events: the message of the iteration and the recipient. -/
def requestsIn (trace : List (IdAndRecipient × Event)) : List IdAndRecipient :=
  trace.filterMap fun e =>
    match e with
    | (p, .sendMessage recipient _) => some (p.1, recipient)
    | _ => none

@[simp] theorem requestsIn_append (trace trace' : List (IdAndRecipient × Event)) :
    requestsIn (trace ++ trace') = requestsIn trace ++ requestsIn trace' := List.filterMap_append

/-- The tables among the events. -/
def marksIn (trace : List (IdAndRecipient × Event)) : List (List DeliveryRow) :=
  trace.filterMap fun e =>
    match e with
    | (_, .marked delivery) => some delivery
    | _ => none

@[simp] theorem marksIn_append (trace trace' : List (IdAndRecipient × Event)) :
    marksIn (trace ++ trace') = marksIn trace ++ marksIn trace' := List.filterMap_append

/-- Nothing that the deliveries depend on has changed. -/
structure Still (v v' : State) : Prop where
  db : v'.db = v.db
  currentMessageId : v'.currentMessageId = v.currentMessageId
  currentRecipient : v'.currentRecipient = v.currentRecipient
  requests : requestsIn v'.trace = requestsIn v.trace
  marks : marksIn v'.trace = marksIn v.trace

instance : Std.Refl Still := ⟨fun _ => ⟨rfl, rfl, rfl, rfl, rfl⟩⟩

instance : IsTrans State Still :=
  ⟨fun _ _ _ h h' => ⟨h'.db.trans h.db, h'.currentMessageId.trans h.currentMessageId,
    h'.currentRecipient.trans h.currentRecipient, h'.requests.trans h.requests, h'.marks.trans h.marks⟩⟩

private theorem still_transferProgress (size : Nat) (t : TransferProgress) (p : IdAndRecipient) :
    Moves Still (transferProgress size t p) := by
  intro v
  simp only [transferProgress, ends_bind, ends_get]
  by_cases hnew : (newProgress v size t).toProgress ≠ v.progress
  · rw [if_pos hnew]
    simp only [ends_bind, ends_set, record, ends_modify]
    refine ⟨rfl, rfl, rfl, ?_, ?_⟩
    · rw [requestsIn_append]
      exact List.append_nil _
    · rw [marksIn_append]
      exact List.append_nil _
  · rw [if_neg hnew]
    exact refl v

variable {P : Platform} {it : Iteration P} {p : IdAndRecipient}

/-- The request or what records its success raised. -/
def Iteration.Unrecorded (it : Iteration P) : Prop :=
  it.throws .sendMessage ≠ none ∨ it.throws .markAsDelivered ≠ none

/-- The listener of the event of a delivered message raised something other than a cancellation. -/
def Iteration.Disturbed (it : Iteration P) : Prop :=
  ∃ e, it.throws .emitDelivered = some e ∧ e ≠ .canceled ∧ e ≠ .syncCanceled

/-- The database after the try block of an iteration, whether a request was made, and the tables that were left. -/
inductive Attempted (it : Iteration P) (p : IdAndRecipient) : Db → Bool → List (List DeliveryRow) → Prop
  | idle : Attempted it p it.db false []
  | unmarked : it.Unrecorded → Attempted it p it.db true []
  | failed (date reason) : it.Unrecorded →
      Attempted it p (DeliveryDao.markAsFailed it.db p.1 p.2 date reason) true
        [(DeliveryDao.markAsFailed it.db p.1 p.2 date reason).delivery]
  | delivered (date) : it.throws .sendMessage = none → it.throws .markAsDelivered = none →
      Attempted it p (DeliveryDao.markAsDelivered it.db p.1 p.2 date) true
        [(DeliveryDao.markAsDelivered it.db p.1 p.2 date).delivery]

/-- The same after the iteration: a handler may have marked the delivery as failed, whatever it was before. -/
inductive Effect (it : Iteration P) (p : IdAndRecipient) : Db → Bool → List (List DeliveryRow) → Prop
  | removed : Effect it p (DeliveryDao.remove it.db p.1) false []
  | attempted {db made tables} : Attempted it p db made tables → Effect it p db made tables
  | failed {db made tables} (date reason) : Attempted it p db made tables →
      (made = true → it.Unrecorded ∨ it.Disturbed) →
      Effect it p (DeliveryDao.markAsFailed db p.1 p.2 date reason) made
        (tables ++ [(DeliveryDao.markAsFailed db p.1 p.2 date reason).delivery])

def requested (p : IdAndRecipient) (made : Bool) : List IdAndRecipient := if made then [p] else []

/-- The iteration of `p` has had its effect. -/
structure Done (it : Iteration P) (p : IdAndRecipient) (v v' : State) (made : Bool) (tables : List (List DeliveryRow)) :
    Prop where
  effect : Effect it p v'.db made tables
  requests : requestsIn v'.trace = requestsIn v.trace ++ requested p made
  marks : marksIn v'.trace = marksIn v.trace ++ tables

/-- The try block raised `e`, and the recipient is not set or `p`'s. -/
structure Pending (it : Iteration P) (p : IdAndRecipient) (v : State) (e : Exn) (v' : State) (made : Bool)
    (tables : List (List DeliveryRow)) : Prop where
  attempted : Attempted it p v'.db made tables
  target : v'.currentRecipient = none ∨ v'.currentRecipient = some p.2 ∧ v'.currentMessageId = p.1
  cause : made = true → it.Unrecorded ∨ it.throws .emitDelivered = some e
  requests : requestsIn v'.trace = requestsIn v.trace ++ requested p made
  marks : marksIn v'.trace = marksIn v.trace ++ tables

/-- The iteration of `p` between its start and its request. -/
structure Ready (it : Iteration P) (p : IdAndRecipient) (v v' : State) : Prop where
  db : v'.db = it.db
  recipient : v'.currentRecipient = some p.2
  message : v'.currentMessageId = p.1
  requests : requestsIn v'.trace = requestsIn v.trace
  marks : marksIn v'.trace = marksIn v.trace

theorem Ready.pending {v v' : State} (h : Ready it p v v') (e : Exn) : Pending it p v e v' false [] where
  attempted := by
    rw [h.db]
    exact .idle
  target := .inr ⟨h.recipient, h.message⟩
  cause := by
    intro hmade
    cases hmade
  requests := h.requests.trans (List.append_nil _).symm
  marks := h.marks.trans (List.append_nil _).symm

theorem Pending.done {v v' : State} {e : Exn} {made : Bool} {tables : List (List DeliveryRow)}
    (h : Pending it p v e v' made tables) : Done it p v v' made tables :=
  ⟨.attempted h.attempted, h.requests, h.marks⟩

/-- A delivery was marked in `v`, and its event was emitted. -/
structure Announced (v v' : State) : Prop where
  db : v'.db = v.db
  currentMessageId : v'.currentMessageId = v.currentMessageId
  currentRecipient : v'.currentRecipient = v.currentRecipient
  requests : requestsIn v'.trace = requestsIn v.trace
  marks : marksIn v'.trace = marksIn v.trace ++ [v.db.delivery]

private theorem emitModified_effect (emit : Call) (v : State) :
    Ends (emitModified it p emit) v (fun _ v' => Announced v v') (fun e v' => Announced v v' ∧ it.throws emit = some e) := by
  simp only [emitModified, record, ends_bind, ends_get, ends_modify, ends_lift]
  have hannounced : Announced v
      { v with
        trace := v.trace ++ [(p, .marked v.db.delivery)] ++
          [(p, .messageModified v.currentConversationId v.currentMessageId)] } := by
    refine ⟨rfl, rfl, rfl, ?_, ?_⟩
    · rw [requestsIn_append, requestsIn_append]
      exact (List.append_nil _).trans (List.append_nil _)
    · rw [marksIn_append, marksIn_append]
      exact List.append_nil _
  refine ⟨fun _ _ => hannounced, ?_⟩
  intro e h
  exact ⟨hannounced, Iteration.call_unit_eq_error.mp h⟩

/-- The try block has marked the delivery, and its table is the first one. -/
theorem Announced.attempted {v w v' : State} (h : Announced w v') (hattempted : Attempted it p w.db true [w.db.delivery])
    (hmarks : marksIn w.trace = marksIn v.trace) :
    Attempted it p v'.db true [w.db.delivery] ∧ marksIn v'.trace = marksIn v.trace ++ [w.db.delivery] := by
  rw [h.db, h.marks, hmarks]
  exact ⟨hattempted, rfl⟩

/-- The delivery of the current message and `a` was marked as failed. -/
def MarkedFailed (it : Iteration P) (mark : Call) (a : KulloAddress) (reason : Delivery.Reason) (v v' : State) : Prop :=
  Announced { v with db := DeliveryDao.markAsFailed v.db v.currentMessageId a (it.nowUtc mark) reason } v'

private theorem handleFailed_effect (mark emit : Call) (r : Option KulloAddress) (reason : Delivery.Reason) (v : State) :
    Ends (handleFailed it p mark emit r reason) v (fun _ v' => ∃ a, r = some a ∧ MarkedFailed it mark a reason v v')
      (fun _ v' => v' = v ∨ ∃ a, r = some a ∧ MarkedFailed it mark a reason v v') := by
  cases r with
  | none => exact .inl rfl
  | some a =>
    simp only [handleFailed, ends_bind, ends_lift, ends_modify]
    refine ⟨?_, fun _ _ => .inl trivial⟩
    intro _ _
    refine (emitModified_effect emit _).mono ?_ ?_
    · exact fun _ v' h => ⟨a, rfl, h⟩
    · exact fun _ v' h => .inr ⟨a, rfl, h.1⟩

/-- The handlers of an iteration. -/
theorem handle_effect {v w : State} {e : Exn} {made : Bool} {tables : List (List DeliveryRow)}
    (h : Pending it p v e w made tables) (hcanceled : e ≠ .canceled) (hsyncCanceled : e ≠ .syncCanceled)
    (reason : Delivery.Reason) :
    Ends (do handleFailed it p .markAsFailed .emitFailed (← get).currentRecipient reason : SenderM Unit) w
      (fun _ v' => ∃ tables, Done it p v v' made tables) (fun _ v' => ∃ tables, Done it p v v' made tables) := by
  rw [ends_bind, ends_get]
  have hfailed : ∀ v' a, w.currentRecipient = some a → MarkedFailed it .markAsFailed a reason w v' →
      ∃ tables, Done it p v v' made tables := by
    intro v' a ha hmarked
    rcases h.target with hnone | ⟨hsome, hid⟩
    · rw [hnone] at ha
      cases ha
    · rw [hsome] at ha
      cases ha
      have hcause : made = true → it.Unrecorded ∨ it.Disturbed := by
        intro hmade
        rcases h.cause hmade with hu | hlistener
        · exact .inl hu
        · exact .inr ⟨e, hlistener, hcanceled, hsyncCanceled⟩
      have heffect := Effect.failed (it.nowUtc .markAsFailed) reason h.attempted hcause
      have hdb : v'.db = DeliveryDao.markAsFailed w.db p.1 p.2 (it.nowUtc .markAsFailed) reason := by
        rw [← hid]
        exact hmarked.db
      rw [← hdb] at heffect
      refine ⟨_, heffect, hmarked.requests.trans h.requests, ?_⟩
      rw [hmarked.marks, ← hmarked.db, ← List.append_assoc]
      exact congrArg (fun marks => marks ++ _) h.marks
  refine (handleFailed_effect .markAsFailed .emitFailed w.currentRecipient reason w).mono ?_ ?_
  · rintro _ v' ⟨a, ha, hmarked⟩
    exact hfailed v' a ha hmarked
  · rintro _ v' (rfl | ⟨a, ha, hmarked⟩)
    · exact ⟨tables, h.done⟩
    · exact hfailed v' a ha hmarked

private theorem sendMessage_effect {v w : State} (h : Ready it p v w) (s : SendableMessage) (size : Nat) :
    Ends (sendMessage it p p.2 s size) w (fun _ v' => ∃ tables, Done it p v v' true tables)
      (fun e v' => ∃ tables, Pending it p v e v' true tables) := by
  simp only [sendMessage, ends_bind, record, ends_modify]
  refine (moves_forIn (fun t => still_transferProgress size t p) it.transfers).ends ?_
  intro _ w₁ hw₁
  have hrequests : requestsIn w₁.trace = requestsIn v.trace ++ requested p true := by
    rw [hw₁.requests, requestsIn_append, h.requests]
    rfl
  have hmarks : marksIn w₁.trace = marksIn v.trace := by
    rw [hw₁.marks, marksIn_append, h.marks]
    exact List.append_nil _
  have hdb : w₁.db = it.db := hw₁.db.trans h.db
  have hid : w₁.currentMessageId = p.1 := hw₁.currentMessageId.trans h.message
  have hrecipient : w₁.currentRecipient = some p.2 := hw₁.currentRecipient.trans h.recipient
  -- the request is made, its mark is not
  have hpending : ∀ e, it.Unrecorded → Pending it p v e w₁ true [] := fun e hu =>
    ⟨by rw [hdb]; exact .unmarked hu, .inr ⟨hrecipient, hid⟩, fun _ => .inl hu, hrequests,
      hmarks.trans (List.append_nil _).symm⟩
  cases hs : it.throws .sendMessage with
  | none =>
    have hcall : it.call .sendMessage (.ok ()) = .ok () := by simp [hs]
    simp only [hcall, ends_bind, ends_modify, ends_lift]
    refine ⟨?_, ?_⟩
    · intro _ hmark
      have hattempted := Attempted.delivered (p := p) (it.nowUtc .markAsDelivered) hs (Iteration.call_eq_ok.mp hmark).1
      rw [← hdb, ← hid] at hattempted
      refine (emitModified_effect .emitDelivered _).mono ?_ ?_
      · intro _ v' hv'
        obtain ⟨hattempted', hmarks'⟩ := hv'.attempted hattempted hmarks
        exact ⟨_, .attempted hattempted', hv'.requests.trans hrequests, hmarks'⟩
      · rintro e v' ⟨hv', hemit⟩
        obtain ⟨hattempted', hmarks'⟩ := hv'.attempted hattempted hmarks
        exact ⟨_, hattempted', .inr ⟨hv'.currentRecipient.trans hrecipient, hv'.currentMessageId.trans hid⟩,
          fun _ => .inr hemit, hv'.requests.trans hrequests, hmarks'⟩
    · intro e hmark
      have hthrows := Iteration.call_unit_eq_error.mp hmark
      obtain ⟨hdb', htarget, hu, hr, hm⟩ := hpending e (.inr (by simp [hthrows]))
      exact ⟨[], hdb', htarget, hu, hr, hm⟩
  | some e =>
    have hcall : it.call .sendMessage (.ok ()) = .error e := Iteration.call_unit_eq_error.mpr hs
    have hu : it.Unrecorded := .inl (by simp [hs])
    simp only [hcall]
    by_cases hnf : e = .notFound
    · subst hnf
      have hattempted := Attempted.failed (p := p) (it.nowUtc .markAsFailedInSend) .doesntExist hu
      rw [← hdb, ← hid] at hattempted
      refine (handleFailed_effect .markAsFailedInSend .emitFailedInSend (some p.2) .doesntExist w₁).mono ?_ ?_
      · rintro _ v' ⟨a, ha, hv'⟩
        cases ha
        obtain ⟨hattempted', hmarks'⟩ := hv'.attempted hattempted hmarks
        exact ⟨_, .attempted hattempted', hv'.requests.trans hrequests, hmarks'⟩
      · rintro e v' (rfl | ⟨a, ha, hv'⟩)
        · exact ⟨[], hpending e hu⟩
        · cases ha
          obtain ⟨hattempted', hmarks'⟩ := hv'.attempted hattempted hmarks
          exact ⟨_, hattempted', .inr ⟨hv'.currentRecipient.trans hrecipient, hv'.currentMessageId.trans hid⟩,
            fun _ => .inl hu, hv'.requests.trans hrequests, hmarks'⟩
    · cases e <;> first | exact absurd rfl hnf | exact ⟨[], hpending _ hu⟩

private theorem dispatch_effect {v w : State} (h : Ready it p v w) :
    Ends (dispatch it p) w (fun _ v' => ∃ made tables, Done it p v v' made tables)
      (fun e v' => ∃ made tables, Pending it p v e v' made tables) := by
  simp only [dispatch, ends_bind, ends_get, ends_lift]
  refine ⟨?_, fun e _ => ⟨false, [], h.pending e⟩⟩
  intro s _
  exact (sendMessage_effect h s _).mono (fun _ _ h => ⟨true, h⟩) (fun _ _ h => ⟨true, h⟩)

private theorem gone_effect {v w : State} (h : Ready it p v w) :
    Ends (prepare.gone it p) w (fun ready v' => ready = false ∧ Done it p v v' false [])
      (fun _ v' => Ready it p v v') := by
  simp only [prepare.gone, ends_bind, ends_lift, ends_modify, ends_pure]
  refine ⟨?_, fun _ _ => h⟩
  intro _ _
  refine ⟨trivial, ?_, h.requests.trans (List.append_nil _).symm, h.marks.trans (List.append_nil _).symm⟩
  dsimp only
  rw [h.db]
  exact .removed

private theorem prepare_effect {v w : State} (h : Ready it p v w) :
    Ends (prepare it p) w
      (fun ready v' => if ready = true then Ready it p v v' else Done it p v v' false [])
      (fun _ v' => Ready it p v v') := by
  have hgone : Ends (prepare.gone it p) w
      (fun ready v' => if ready = true then Ready it p v v' else Done it p v v' false []) (fun _ v' => Ready it p v v') := by
    refine (gone_effect h).mono ?_ (fun _ _ h => h)
    rintro _ v' ⟨rfl, hdone⟩
    exact hdone
  unfold prepare
  rw [ends_bind, ends_lift]
  refine ⟨?_, fun _ _ => h⟩
  intro dao? _
  cases dao? with
  | none => exact hgone
  | some dao =>
    dsimp only
    split
    · exact hgone
    · simp only [ends_bind, ends_lift, ends_modify, record, ends_pure, if_true]
      refine ⟨?_, fun _ _ => ⟨h.db, h.recipient, h.message, h.requests, h.marks⟩⟩
      intro _ _
      refine ⟨?_, fun _ _ => ⟨h.db, h.recipient, h.message, h.requests, h.marks⟩⟩
      intro _ _
      refine ⟨?_, fun _ _ => ⟨h.db, h.recipient, h.message, h.requests, h.marks⟩⟩
      intro _ _
      refine ⟨h.db, h.recipient, h.message, ?_, ?_⟩
      · rw [requestsIn_append, h.requests]
        exact List.append_nil _
      · rw [marksIn_append, h.marks]
        exact List.append_nil _

private theorem attempt_effect {v : State} (hdb : v.db = it.db) (hnone : v.currentRecipient = none) :
    Ends (attempt it p) v (fun _ v' => ∃ made tables, Done it p v v' made tables)
      (fun e v' => ∃ made tables, Pending it p v e v' made tables) := by
  have hunmade : ∀ {e v'}, v'.db = it.db → v'.currentRecipient = none → requestsIn v'.trace = requestsIn v.trace →
      marksIn v'.trace = marksIn v.trace → Pending it p v e v' false [] := by
    intro e v' hdb' hnone' hrequests hmarks
    refine ⟨?_, .inl hnone', ?_, hrequests.trans (List.append_nil _).symm, hmarks.trans (List.append_nil _).symm⟩
    · rw [hdb']
      exact .idle
    · intro h
      cases h
  unfold attempt
  rw [ends_bind, ends_lift]
  refine ⟨?_, fun _ _ => ⟨false, [], hunmade hdb hnone rfl rfl⟩⟩
  intro size _
  simp only [record, ends_bind, ends_modify, ends_get, ends_set, ends_lift]
  have hrequests : ∀ sums, requestsIn (v.trace ++ [(p, .progressed sums)]) = requestsIn v.trace := by
    intro sums
    rw [requestsIn_append]
    exact List.append_nil _
  have hmarks : ∀ sums, marksIn (v.trace ++ [(p, .progressed sums)]) = marksIn v.trace := by
    intro sums
    rw [marksIn_append]
    exact List.append_nil _
  refine ⟨?_, fun _ _ => ⟨false, [], hunmade hdb hnone (hrequests _) (hmarks _)⟩⟩
  intro _ _
  have hready : ∀ sums, Ready it p v
      { v with
        estimatedRemaining := size
        progress := sums.toProgress
        trace := v.trace ++ [(p, .progressed sums)]
        currentMessageId := p.1
        currentRecipient := some p.2 } := fun sums => ⟨hdb, rfl, rfl, hrequests sums, hmarks sums⟩
  split
  · exact dispatch_effect (hready _)
  · rw [ends_bind]
    refine (prepare_effect (hready _)).mono ?_ (fun e _ h => ⟨false, [], h.pending e⟩)
    intro ready w hw
    cases ready with
    | false => exact ⟨false, [], hw⟩
    | true => exact dispatch_effect hw

/-- Every iteration has one of the effects. -/
theorem iterate_effect (it : Iteration P) (p : IdAndRecipient) (v : State) :
    ∃ made tables, Done it p v (final (iterate it p v)) made tables := by
  rw [← ends_final (Q := fun v' => ∃ made tables, Done it p v v' made tables)]
  unfold iterate
  rw [ends_bind, ends_modify, ends_tryCatch]
  have hattempt := @attempt_effect P it p { v with db := it.db, currentRecipient := none } rfl rfl
  have hback : ∀ {v' made tables}, Done it p { v with db := it.db, currentRecipient := none } v' made tables →
      ∃ made tables, Done it p v v' made tables := fun h => ⟨_, _, h.effect, h.requests, h.marks⟩
  refine hattempt.mono (fun _ _ ⟨_, _, h⟩ => hback h) ?_
  rintro e w ⟨made, tables, hw⟩
  have hhandle : e ≠ .canceled → e ≠ .syncCanceled → ∀ reason,
      Ends (do handleFailed it p .markAsFailed .emitFailed (← get).currentRecipient reason : SenderM Unit) w
        (fun _ v' => ∃ made tables, Done it p v v' made tables)
        (fun _ v' => ∃ made tables, Done it p v v' made tables) := by
    intro hcanceled hsyncCanceled reason
    refine (handle_effect hw hcanceled hsyncCanceled reason).mono ?_ ?_
    · exact fun _ v' ⟨_, h⟩ => hback h
    · exact fun _ v' ⟨_, h⟩ => hback h
  cases e with
  | canceled => exact hback hw.done
  | syncCanceled => exact hback hw.done
  | notFound => exact hhandle (by simp) (by simp) .doesntExist
  | _ => exact hhandle (by simp) (by simp) .unknown

end MessagesSender

end KulloClient
