import KulloClient.Sync.SenderProgress
import KulloClient.Sync.UploaderProgress

/-!
# The outgoing progress of a run of the syncer

`Syncer::run` reports an initial estimate, then what the uploader reports, then what the sender reports, which goes on
counting where the last report stopped.  Other threads may change the database between two iterations.
-/

namespace KulloClient

namespace Syncer

open Imperative

variable {P : Platform}

/-- The iterations of the uploader, each with the database it finds; `true` if there is another one. -/
def uploads (account : MessagesUploader.Account) :
    List (Db × MessagesUploader.Iteration P) → MessagesUploader.State →
      EStateM.Result MessagesUploader.Stop MessagesUploader.State Bool
  | [], s => .ok true s
  | (db, it) :: rest, s =>
    match MessagesUploader.iterate P account it { s with db := db } with
    | .ok true s' => uploads account rest s'
    | .ok false s' => .ok false s'
    | .error stop s' => .error stop s'

/-- What a run meets: the database for the initial estimate, the iterations of the uploader, and the database and the
iterations of the sender. -/
structure Outgoing (P : Platform) where
  db : Db
  uploads : List (Db × MessagesUploader.Iteration P)
  sendDb : Db
  sends : Nat → MessagesSender.Iteration P

/-- The progress before the uploader: nothing, and its `initialProgress`. -/
def initialSums (db : Db) (P : Platform) : List ProgressSums :=
  [⟨0, 0⟩, startSums 0 (MessagesUploader.sizeOfAll P db)]

/-- The last progress, as the number of bytes the sender starts with. -/
def lastUploaded (reported : List ProgressSums) : Nat :=
  toSize ((reported.getLast?.map fun s => s.toProgress.uploadedBytes).getD 0)

/-- The uploader as `Syncer::run` starts it. -/
def startUploads (r : Outgoing P) : MessagesUploader.State where
  db := r.db
  meter := { progressed := initialSums r.db P }

/-- The outgoing progress a run reports. -/
def outgoing (account : MessagesUploader.Account) (r : Outgoing P) : List ProgressSums :=
  match uploads account r.uploads (startUploads r) with
  | .ok false s =>
    s.meter.progressed ++ MessagesSender.progressedIn
      (final (MessagesSender.run r.sendDb r.sends (lastUploaded s.meter.progressed) {})).trace
  | .ok true s => s.meter.progressed
  | .error _ s => s.meter.progressed

/-- Each report is within its total, as are the 64 bits of it, and what was uploaded never decreases. -/
structure SaneProgress (reported : List ProgressSums) : Prop where
  bounds : ∀ s ∈ reported, 0 ≤ s.toProgress.uploadedBytes ∧ s.toProgress.uploadedBytes ≤ s.toProgress.totalBytes
  exact : ∀ s ∈ reported, s.toProgress = ⟨s.uploaded, s.total⟩
  ascending : (reported.map fun s => s.toProgress.uploadedBytes).Pairwise (· ≤ ·)

/-! ### Runs whose iterations fit -/

/-- Every iteration of the uploader fits. -/
def UploadsFit (account : MessagesUploader.Account) :
    List (Db × MessagesUploader.Iteration P) → MessagesUploader.State → Prop
  | [], _ => True
  | (db, it) :: rest, s =>
    MessagesUploader.Fits { s with db := db } it ∧
      ∀ s', MessagesUploader.iterate P account it { s with db := db } = .ok true s' → UploadsFit account rest s'

/-- Every iteration of the sender fits. -/
def SendsFit : List (MessagesSender.IdAndRecipient × MessagesSender.Iteration P) → MessagesSender.State → Prop
  | [], _ => True
  | (p, it) :: rest, v =>
    MessagesSender.Fits it p v ∧ ∀ v', MessagesSender.iterate it p v = .ok () v' → SendsFit rest v'

/-- Every iteration of a run fits. -/
structure RunFits (account : MessagesUploader.Account) (r : Outgoing P) : Prop where
  initial : MessagesUploader.sizeOfAll P r.db < 2 ^ 63
  uploads : UploadsFit account r.uploads (startUploads r)
  sends : ∀ s pairs, Syncer.uploads account r.uploads (startUploads r) = .ok false s →
    DeliveryDao.unsentMessages r.sendDb = .ok pairs → SendsFit (MessagesSender.withIterations r.sends pairs)
      { previouslyUploaded := lastUploaded s.meter.progressed, db := r.sendDb }

private theorem uploads_upto (account : MessagesUploader.Account) {its : List (Db × MessagesUploader.Iteration P)}
    {s : MessagesUploader.State} (h : UploadsFit account its s) (hupto : s.meter.Upto 0) :
    ∃ n, (final (uploads account its s)).meter.Upto n := by
  induction its generalizing s with
  | nil => exact ⟨0, hupto⟩
  | cons found rest ih =>
    obtain ⟨db, it⟩ := found
    obtain ⟨hfits, hrest⟩ := h
    have hiterate := MessagesUploader.iterate_upto account hfits hupto
    unfold Ends at hiterate
    unfold uploads
    cases hr : MessagesUploader.iterate P account it { s with db := db } with
    | ok more s' =>
      rw [hr] at hiterate
      cases more with
      | true => exact ih (hrest s' hr) hiterate
      | false => exact ⟨0, hiterate⟩
    | error stop s' =>
      rw [hr] at hiterate
      exact hiterate

private theorem loop_upto (before : List ProgressSums)
    {its : List (MessagesSender.IdAndRecipient × MessagesSender.Iteration P)} {v : MessagesSender.State}
    (h : SendsFit its v) (hupto : (MessagesSender.meterOf before v).Upto 0) :
    ∃ n, (MessagesSender.meterOf before (final (MessagesSender.loop its v))).Upto n := by
  induction its generalizing v with
  | nil => exact ⟨0, hupto⟩
  | cons found rest ih =>
    obtain ⟨p, it⟩ := found
    obtain ⟨hfits, hrest⟩ := h
    have hiterate := MessagesSender.iterate_upto before hfits hupto
    rw [← ends_final (Q := fun w => ∃ n, (MessagesSender.meterOf before w).Upto n)]
    unfold MessagesSender.loop
    rw [ends_bind]
    unfold Ends at hiterate ⊢
    cases hr : MessagesSender.iterate it p v with
    | ok u v' =>
      rw [hr] at hiterate
      exact ends_final.mpr (ih (hrest v' hr) hiterate)
    | error e v' =>
      rw [hr] at hiterate
      exact hiterate

/-- The sender goes on where the last report stopped. -/
theorem le_lastUploaded {m : Meter} {n : Nat} (h : m.Upto n) : ∀ s ∈ m.progressed, s.uploaded ≤ lastUploaded m.progressed := by
  intro s hs
  rcases List.eq_nil_or_concat m.progressed with hnil | ⟨init, last, hlast⟩
  · rw [hnil] at hs
    cases hs
  · rw [List.concat_eq_append] at hlast
    have hsane : last.Sane := h.sane last (by rw [hlast]; simp)
    have hnonneg := hsane.nonneg
    have hlt : last.uploaded < 2 ^ 63 := Int.lt_of_le_of_lt hsane.le hsane.lt
    have huploaded : (lastUploaded m.progressed : Int) = last.uploaded := by
      unfold lastUploaded
      rw [hlast, List.getLast?_concat, Option.map_some, Option.getD_some, hsane.toProgress_eq]
      dsimp only
      unfold toSize
      omega
    rw [huploaded]
    have hascending := h.ascending
    rw [hlast, List.pairwise_append] at hascending
    rw [hlast, List.mem_append, List.mem_singleton] at hs
    rcases hs with hs | rfl
    · exact hascending.2.2 s hs last (by simp)
    · exact Int.le_refl _

private theorem Upto.saneProgress {m : Meter} {n : Nat} (h : m.Upto n) : SaneProgress m.progressed where
  bounds := by
    intro s hs
    have hsane := h.sane s hs
    rw [hsane.toProgress_eq]
    exact ⟨hsane.nonneg, hsane.le⟩
  exact := fun s hs => (h.sane s hs).toProgress_eq
  ascending := by
    rw [List.pairwise_map]
    refine h.ascending.imp_of_mem ?_
    intro s s' hs hs' hle
    rw [(h.sane s hs).toProgress_eq, (h.sane s' hs').toProgress_eq]
    exact hle

/-- In every run whose iterations fit, the reported progress is sane. -/
theorem outgoing_sane (account : MessagesUploader.Account) (r : Outgoing P) (h : RunFits account r) :
    SaneProgress (outgoing account r) := by
  have hinitial : (startUploads r).meter.Upto 0 := by
    have hzero : (⟨0, 0, {}, [⟨0, 0⟩]⟩ : Meter).Upto 0 := by
      refine ⟨?_, List.pairwise_singleton _ _, ?_⟩
      · intro s hs
        rw [List.mem_singleton.mp hs]
        exact ⟨by decide, by decide, by decide⟩
      · intro s hs
        rw [List.mem_singleton.mp hs]
        decide
    have hlt := h.initial
    exact hzero.emit rfl rfl ⟨by simp [startSums], by simp [startSums], by simp only [startSums]; omega⟩ rfl (Nat.le_refl 0)
  obtain ⟨n, hupto⟩ := uploads_upto account h.uploads hinitial
  unfold outgoing
  cases hr : uploads account r.uploads (startUploads r) with
  | error stop s =>
    rw [hr] at hupto
    exact Upto.saneProgress hupto
  | ok more s =>
    rw [hr] at hupto
    cases more with
    | true => exact Upto.saneProgress hupto
    | false =>
      have hupto : s.meter.Upto n := hupto
      -- the sender goes on from the last total of the uploader
      have hsent : ∃ n, (MessagesSender.meterOf s.meter.progressed
          (final (MessagesSender.run r.sendDb r.sends (lastUploaded s.meter.progressed) {}))).Upto n := by
        rw [← ends_final (Q := fun w => ∃ n, (MessagesSender.meterOf s.meter.progressed w).Upto n)]
        have hstart : (MessagesSender.meterOf s.meter.progressed
            { previouslyUploaded := lastUploaded s.meter.progressed, db := r.sendDb }).Upto 0 := by
          have hprogressed : s.meter.progressed ++ MessagesSender.progressedIn [] = s.meter.progressed :=
            List.append_nil _
          unfold MessagesSender.meterOf
          rw [hprogressed]
          refine ⟨hupto.sane, hupto.ascending, ?_⟩
          intro sums hsums
          have := le_lastUploaded hupto sums hsums
          dsimp only
          omega
        simp only [MessagesSender.run, ends_bind, ends_set, MessagesSender.ends_lift]
        refine ⟨?_, fun _ _ => ⟨0, hstart⟩⟩
        intro pairs hpairs
        exact ends_final.mpr (loop_upto _ (h.sends s pairs hr hpairs) hstart)
      obtain ⟨n', hsent⟩ := hsent
      exact Upto.saneProgress hsent

/-! ### A run with one message -/

/-- A message that is sent to one recipient, and its sender. -/
def lettersDb (text : String) : Db :=
  { SizeEstimates.sentDb text with
    senders := ⟨[⟨7, "", "alice#kullo.test", "", "", none⟩], by simp⟩ }

/-- The request of the only message transfers `bytes` bytes. -/
def letterRun (text : String) (bytes : Nat) : Outgoing Platform.transparent where
  db := lettersDb text
  uploads := [(lettersDb text,
    { dateSent := "", encKeyId := 1, encKey := ([] : Bytes), sigKeyId := 2, sigKey := ([] : Bytes), random := ⟨[], []⟩,
      iv := [], accepted := false, answer := .error .networkError })]
  sendDb := lettersDb text
  sends := fun _ =>
    { db := lettersDb text, encKeyId := 1, encPubkey := [], sigKeyId := 2, sigKey := ([] : Bytes), random := ⟨[], []⟩,
      transfers := [⟨bytes, bytes⟩], uploadedBytes := bytes }

def letterAccount : MessagesUploader.Account := ⟨SizeEstimates.bob, []⟩

/-- Nothing is wrong with a text of ASCII characters. -/
theorem outgoing_sane_ascii : SaneProgress (outgoing letterAccount (letterRun "hi" 600)) := by
  have huploads : uploads letterAccount (letterRun "hi" 600).uploads (startUploads (letterRun "hi" 600)) =
      .ok false (startUploads (letterRun "hi" 600)) := rfl
  have hpairs : DeliveryDao.unsentMessages (lettersDb "hi") = .ok [(7, SizeEstimates.bob)] := by decide
  have hlast : lastUploaded (initialSums (lettersDb "hi") Platform.transparent) = 0 := by decide +kernel
  have hsize : MessageDao.sizeOfAllUndelivered Platform.transparent.bareRow (lettersDb "hi") = 23502 := by decide
  apply outgoing_sane
  refine ⟨by decide +kernel, ⟨?_, fun _ _ => trivial⟩, ?_⟩
  · refine ⟨by decide +kernel, ?_, List.Pairwise.nil, ?_, ?_, ?_⟩
    · intro _ _ hne
      exact absurd rfl hne
    · intro t ht
      cases ht
    · intro _ h
      cases h
    · intro _ _ _ t ht
      cases ht
  · intro s pairs hs hp
    rw [huploads] at hs
    cases hs
    change DeliveryDao.unsentMessages (lettersDb "hi") = _ at hp
    rw [hpairs] at hp
    cases hp
    change SendsFit _ { previouslyUploaded := lastUploaded (initialSums (lettersDb "hi") Platform.transparent),
                        db := lettersDb "hi" }
    rw [hlast]
    refine ⟨⟨?_, ?_, ?_, List.pairwise_singleton _ _, ?_, ?_, ?_⟩, fun _ _ => trivial⟩
    · change 0 + MessageDao.sizeOfAllUndelivered Platform.transparent.bareRow (lettersDb "hi") < 2 ^ 63
      omega
    · intro _ _ m hm
      obtain rfl : MessageDao.ofRow { id := 7, conversationId := 1, text := "hi" } = m := Option.some.inj hm
      decide
    · intro h
      cases h
    · intro t ht
      obtain rfl : t = ⟨600, 600⟩ := List.mem_singleton.mp ht
      change 0 + MessageDao.sizeOfAllUndelivered Platform.transparent.bareRow (lettersDb "hi") + max 600 600 < 2 ^ 63
      omega
    · intro _
      refine ⟨by decide, ?_⟩
      intro t ht
      obtain rfl : t = ⟨600, 600⟩ := List.mem_singleton.mp ht
      exact Nat.le_refl 600
    · intro e h
      cases h

/-- The last callback for an accented letter reports more than its total. -/
theorem outgoing_not_sane_accent :
    ¬ ∀ (P : Platform) (account : MessagesUploader.Account) (r : Outgoing P),
      (∀ u ∈ r.uploads, u.2.transfers.Pairwise (fun t t' => t.uploadTransferred ≤ t'.uploadTransferred)) →
      (∀ i, (r.sends i).transfers.Pairwise (fun t t' => t.uploadTransferred ≤ t'.uploadTransferred)) →
      SaneProgress (outgoing account r) := by
  intro h
  have hsane := h Platform.transparent letterAccount (letterRun "é" 600) (by simp [letterRun]) (by simp [letterRun])
  have houtgoing : outgoing letterAccount (letterRun "é" 600) = [⟨0, 0⟩, ⟨0, 23501⟩, ⟨0, 23501⟩, ⟨600, 599⟩] := by
    decide +kernel
  rw [houtgoing] at hsane
  have hbounds := (hsane.bounds ⟨600, 599⟩ (by simp)).2
  exact absurd hbounds (by decide +kernel)

end Syncer

end KulloClient
