import KulloClient.Sync.ProcessedVersions

/-!
# Downloading in pages, and resuming

The server hands out the messages after the timestamp in pages of its own choice, and the run may be cancelled before
every message.  Neither makes a difference to the database: all that a download depends on is which messages are
pending, and the timestamp says that.
-/

namespace KulloClient

namespace MessagesSyncer

open Imperative

variable {P : Platform} {account : Account}

/-! ### What processing a message depends on -/

section reading

private theorem readsOnly_emit (es : List Event) : ReadsOnly State.db (emit es) :=
  readsOnly_of_keeps (fun _ => rfl)

private theorem readsOnly_progressed {x : SyncM Unit} (hx : ReadsOnly State.db x) :
    ReadsOnly State.db (do emit [.progressed (← get).progress]; x) := by
  have hemit : ReadsOnly State.db (do emit [.progressed (← get).progress] : SyncM Unit) :=
    readsOnly_of_keeps (a := ()) (fun _ => rfl)
  simpa only [bind_assoc] using readsOnly_bind hemit (fun _ => hx)

private theorem readsOnly_transaction {α : Type} (body : Db → Except Exn (α × Db)) :
    ReadsOnly State.db (transaction body) := by
  intro s t hst
  cases h : body t.db with
  | ok r =>
    rw [transaction_of_ok h, transaction_of_ok (s := s) (by rw [hst]; exact h)]
    rfl
  | error e =>
    rw [transaction_of_error h, transaction_of_error (s := s) (by rw [hst]; exact h)]
    simp only [observe, hst]

private theorem readsOnly_tryDecrypt (msg : HttpMessage) : ReadsOnly State.db (tryDecrypt P account msg) := by
  unfold tryDecrypt
  refine readsOnly_get ?_ ?_
  · intro s t hst
    rw [hst]
  · intro s
    split
    · exact readsOnly_pure _
    · exact readsOnly_pure _
    · exact readsOnly_throw _

private theorem readsOnly_tryDecode (decryptedMessage : DecryptedMessage) (answers : List (Except Exn PublicKeyAnswer)) :
    ReadsOnly State.db (tryDecode P account decryptedMessage answers) := by
  induction answers with
  | nil =>
    unfold tryDecode
    refine readsOnly_get ?_ ?_
    · intro s t hst
      rw [hst]
    · intro s
      split
      · exact readsOnly_pure _
      · exact readsOnly_throw _
      · split
        · exact readsOnly_pure _
        · exact readsOnly_throw _
  | cons answer answers ih =>
    unfold tryDecode
    refine readsOnly_get ?_ ?_
    · intro s t hst
      simp only [hst]
    · intro s
      dsimp only
      split
      · exact readsOnly_pure _
      · split
        · exact readsOnly_bind (readsOnly_transaction _) (fun _ => ih)
        · exact readsOnly_pure _
        · exact readsOnly_throw _
        · exact readsOnly_throw _
      · split
        · exact readsOnly_pure _
        · exact readsOnly_throw _

private theorem readsOnly_withDecoder (r : Received) {body : Decoder → SyncM Unit}
    (hbody : ∀ decoder, ReadsOnly State.db (body decoder)) : ReadsOnly State.db (withDecoder P account r body) := by
  unfold withDecoder
  refine readsOnly_bind (readsOnly_tryDecrypt _) ?_
  intro decryptedMessage
  cases decryptedMessage with
  | none => exact readsOnly_pure _
  | some decryptedMessage =>
    refine readsOnly_bind (readsOnly_tryDecode _ _) ?_
    intro decoder
    cases decoder with
    | none => exact readsOnly_pure _
    | some decoder => exact hbody decoder

private theorem readsOnly_handle (r : Received) : ReadsOnly State.db (handle P account r) := by
  unfold handle handleLoaded
  refine readsOnly_get ?_ ?_
  · intro s t hst
    rw [hst]
  · intro s
    split
    · exact readsOnly_transaction _
    · refine readsOnly_withDecoder r ?_
      intro decoder
      refine readsOnly_bind (readsOnly_transaction _) ?_
      intro added
      exact readsOnly_bind (readsOnly_of_keeps (fun _ => rfl)) (fun _ => readsOnly_emit _)
    · refine readsOnly_bind (readsOnly_transaction _) ?_
      intro _
      exact readsOnly_bind (readsOnly_of_keeps (fun _ => rfl)) (fun _ => readsOnly_emit _)
    · refine readsOnly_withDecoder r ?_
      intro decoder
      refine readsOnly_bind (readsOnly_transaction _) ?_
      intro merged
      have hconversation : ReadsOnly State.db (if merged.stateModified = true then
          emit [.conversationModified merged.msg.conversationId] else pure ()) := by
        split
        · exact readsOnly_emit _
        · exact readsOnly_pure _
      dsimp only
      split
      · refine readsOnly_bind (readsOnly_of_keeps (fun _ => rfl)) ?_
        intro _
        exact readsOnly_bind (readsOnly_emit _) (fun _ => hconversation)
      · exact hconversation

/-- What the events and the progress are has no bearing on how a message is processed. -/
theorem readsOnly_process (r : Received) : ReadsOnly State.db (process P account r) := by
  have hrest : ReadsOnly State.db (do
      handle P account r
      advance r) := by
    refine readsOnly_bind (readsOnly_handle r) ?_
    intro _
    unfold advance
    refine readsOnly_bind (readsOnly_of_keeps (fun _ => rfl)) ?_
    intro _
    refine readsOnly_progressed (readsOnly_modify ?_)
    intro s t hst
    simp only [hst]
  unfold process
  split
  · exact readsOnly_bind (readsOnly_throw _) (fun _ => hrest)
  · exact hrest

private theorem readsOnly_processPage (rs : List Received) : ReadsOnly State.db (processPage P account rs) := by
  induction rs with
  | nil => exact readsOnly_pure _
  | cons r rs ih => exact readsOnly_bind (readsOnly_process r) (fun _ => ih)

private theorem readsOnly_downloadAndProcessMessages (answers : List (LastModified → Except Exn Page)) :
    ReadsOnly State.db (downloadAndProcessMessages P account answers) := by
  induction answers with
  | nil => exact readsOnly_throw _
  | cons answer answers ih =>
    unfold downloadAndProcessMessages
    refine readsOnly_get ?_ ?_
    · intro s t hst
      rw [hst]
    · intro s
      split
      · exact readsOnly_throw _
      · refine readsOnly_bind (readsOnly_of_keeps (fun _ => rfl)) ?_
        intro _
        refine readsOnly_progressed (readsOnly_bind (readsOnly_processPage _) ?_)
        intro _
        split
        · exact ih
        · exact readsOnly_pure _

end reading

/-! ### What is pending -/

/-- The messages of the server that changed after a timestamp. -/
def pending (msgs : List Received) (t : LastModified) : List Received :=
  msgs.filter fun r => t < r.msg.lastModified

/-- The server's messages in the order of their changes. -/
def Chronological (msgs : List Received) : Prop :=
  msgs.Pairwise fun r r' => r.msg.lastModified < r'.msg.lastModified

section pending

variable {msgs : List Received} {t : LastModified} {r : Received} {rs rest : List Received}

private theorem pending_of_cons (hmsgs : Chronological msgs) (h : pending msgs t = r :: rest) :
    pending msgs r.msg.lastModified = rest := by
  have hrest : Chronological (r :: rest) := h ▸ hmsgs.filter _
  unfold Chronological at hrest
  rw [List.pairwise_cons] at hrest
  have ht : t < r.msg.lastModified := by
    have hr : r ∈ pending msgs t := by rw [h]; exact List.mem_cons_self
    simpa using (List.mem_filter.1 hr).2
  calc pending msgs r.msg.lastModified
      = (pending msgs t).filter fun r' => r.msg.lastModified < r'.msg.lastModified := by
        unfold pending
        rw [List.filter_filter]
        apply List.filter_congr
        intro r' _
        by_cases hr' : r.msg.lastModified < r'.msg.lastModified
        · simp [hr', ht.trans hr']
        · simp [hr']
    _ = rest := by
        rw [h, List.filter_cons_of_neg (by simp)]
        apply List.filter_eq_self.2
        intro r' hr'
        simpa using hrest.1 r' hr'

private theorem process_eq_ok_timestamp {s s' : State} (h : process P account r s = .ok () s') :
    SyncDao.timestamp s'.db .message = r.msg.lastModified := by
  cases hc : r.cancelled with
  | true =>
    rw [process_of_cancelled hc] at h
    cases h
  | false =>
    cases hhandle : handle P account r s with
    | error e s₁ =>
      rw [process_of_error hc hhandle] at h
      cases h
    | ok _ s₁ =>
      obtain ⟨s₂, hprocess, hdb⟩ := process_of_ok hc hhandle
      rw [hprocess] at h
      cases h
      rw [hdb, SyncDao.timestamp_setTimestamp]

private theorem processPage_append (rs rest : List Received) :
    processPage P account (rs ++ rest) = (do processPage P account rs; processPage P account rest) := by
  induction rs with
  | nil => rfl
  | cons r rs ih =>
    change (process P account r >>= fun _ => processPage P account (rs ++ rest)) =
      ((process P account r >>= fun _ => processPage P account rs) >>= fun _ => processPage P account rest)
    rw [ih, bind_assoc]

/-- Once a part of what was pending is processed, the rest is pending. -/
theorem pending_of_processPage (hmsgs : Chronological msgs) {s s' : State}
    (h : processPage P account rs s = .ok () s') (hs : pending msgs (SyncDao.timestamp s.db .message) = rs ++ rest) :
    pending msgs (SyncDao.timestamp s'.db .message) = rest := by
  induction rs generalizing s with
  | nil =>
    cases h
    exact hs
  | cons r rs ih =>
    cases hr : process P account r s with
    | error e s₁ =>
      rw [processPage, bind_of_error hr] at h
      cases h
    | ok _ s₁ =>
      rw [processPage, bind_of_ok hr] at h
      apply ih h
      rw [process_eq_ok_timestamp hr]
      exact pending_of_cons hmsgs hs

end pending

/-! ### Pages -/

/-- The server answers with the first messages that are pending, at least one if there are any, and with how many are
pending. -/
def Serves (msgs : List Received) (answer : LastModified → Except Exn Page) : Prop :=
  ∀ t, ∃ page, answer t = .ok page ∧ page.messages <+: pending msgs t ∧
    (pending msgs t ≠ [] → page.messages ≠ []) ∧ page.countReturned = page.messages.length ∧
    page.countLeft = (pending msgs t).length

/-- The server that hands out `n + 1` messages at a time. -/
def paged (msgs : List Received) (n : Nat) (t : LastModified) : Except Exn Page :=
  let page := (pending msgs t).take (n + 1)
  .ok ⟨page, page.length, (pending msgs t).length⟩

section pages

variable {msgs : List Received}

private theorem serves_paged (msgs : List Received) (n : Nat) : Serves msgs (paged msgs n) := by
  intro t
  refine ⟨_, rfl, List.take_prefix _ _, ?_, rfl, rfl⟩
  intro hne hnil
  rcases List.take_eq_nil_iff.1 hnil with h | h
  · omega
  · exact hne h

/-- A page of a download: what it holds is processed, and if more was pending the download goes on. -/
theorem observe_download_cons {answer : LastModified → Except Exn Page}
    {answers : List (LastModified → Except Exn Page)} {s : State} {page : Page}
    (hpage : answer (SyncDao.timestamp s.db .message) = .ok page) :
    observe State.db (downloadAndProcessMessages P account (answer :: answers) s) =
      observe State.db ((do
        processPage P account page.messages
        if page.countReturned < page.countLeft then downloadAndProcessMessages P account answers) s) := by
  have hrest : ReadsOnly State.db (do
      processPage P account page.messages
      if page.countReturned < page.countLeft then downloadAndProcessMessages P account answers) := by
    refine readsOnly_bind (readsOnly_processPage _) ?_
    intro _
    split
    · exact readsOnly_downloadAndProcessMessages _
    · exact readsOnly_pure _
  rw [downloadAndProcessMessages, bind_of_ok get_apply, hpage]
  exact hrest _ _ rfl

/-- A page is processed, and what is pending behind it is what the next request asks for. -/
private theorem observe_download (hmsgs : Chronological msgs) {answers : List (LastModified → Except Exn Page)}
    (hserves : ∀ answer ∈ answers, Serves msgs answer) (hne : answers ≠ []) (s : State)
    (hlen : (pending msgs (SyncDao.timestamp s.db .message)).length ≤ answers.length) :
    observe State.db (downloadAndProcessMessages P account answers s) =
      observe State.db (processPage P account (pending msgs (SyncDao.timestamp s.db .message)) s) := by
  induction answers generalizing s with
  | nil => exact absurd rfl hne
  | cons answer answers ih =>
    obtain ⟨page, hpage, ⟨rest, hrest⟩, hprogress, hreturned, hleft⟩ :=
      hserves answer List.mem_cons_self (SyncDao.timestamp s.db .message)
    rw [observe_download_cons hpage, ← hrest, processPage_append]
    rw [← hrest] at hlen hprogress hleft
    simp only [List.length_append, List.length_cons] at hlen hleft
    cases hrun : processPage P account page.messages s with
    | error e s' => rw [bind_of_error hrun, bind_of_error hrun]
    | ok _ s' =>
      rw [bind_of_ok hrun, bind_of_ok hrun]
      have hpending := pending_of_processPage hmsgs hrun hrest.symm
      by_cases hmore : rest = []
      · rw [if_neg (by rw [hreturned, hleft, hmore]; simp), hmore]
        rfl
      · have hpos : 0 < rest.length := List.length_pos_iff.2 hmore
        have hfirst : 0 < page.messages.length := List.length_pos_iff.2 (hprogress (by simp [hmore]))
        rw [if_pos (by omega), ← hpending]
        apply ih (fun a ha => hserves a (List.mem_cons_of_mem _ ha))
        · intro hnil
          rw [hnil] at hlen
          simp only [List.length_nil] at hlen
          omega
        · rw [hpending]
          omega

/-- However the server divides what is pending into pages, the download ends as if it processed all of it in one go. -/
theorem download_eq_processPage (hmsgs : Chronological msgs) {answers : List (LastModified → Except Exn Page)}
    (hserves : ∀ answer ∈ answers, Serves msgs answer) (hne : answers ≠ []) (s : State)
    (hlen : (pending msgs (SyncDao.timestamp s.db .message)).length ≤ answers.length) :
    observe State.db (downloadAndProcessMessages P account answers s) =
      observe State.db (processPage P account (pending msgs (SyncDao.timestamp s.db .message)) s) :=
  observe_download hmsgs hserves hne s hlen

/-- Three messages that were deleted before this client has seen them. -/
def tombstones : List Received :=
  [⟨{ id := 7, lastModified := 2, deleted := true }, false, []⟩,
    ⟨{ id := 8, lastModified := 3, deleted := true }, false, []⟩,
    ⟨{ id := 9, lastModified := 6, deleted := true }, false, []⟩]

private theorem chronological_tombstones : Chronological tombstones := by
  unfold Chronological tombstones
  decide

/-- In pages of two messages. -/
theorem download_eq_processPage_tombstones :
    observe State.db (downloadAndProcessMessages .transparent ⟨.alice, []⟩
      [paged tombstones 1, paged tombstones 1, paged tombstones 1] { db := {} }) =
    observe State.db (processPage .transparent ⟨.alice, []⟩ (pending tombstones 0) { db := {} }) :=
  download_eq_processPage chronological_tombstones (by simp [serves_paged]) (by simp) { db := {} } (by decide)

end pages

/-! ### Interrupted downloads -/

/-- The message without the user's cancelling. -/
def Received.uncancelled (r : Received) : Received :=
  { r with cancelled := false }

/-- The server answers with messages that are pending, in order, or not at all.  The user may cancel at any of them. -/
def Offers (msgs : List Received) (answer : LastModified → Except Exn Page) : Prop :=
  ∀ t page, answer t = .ok page → page.messages.map Received.uncancelled <+: pending msgs t

/-- The message with the user cancelling before it if `stop` says so. -/
def cancelling (stop : Received → Bool) (r : Received) : Received :=
  { r with cancelled := stop r }

variable (P account) in
/-- A download from the messages of the server, however it ends. -/
def Attempt (msgs : List Received) (db db' : Db) : Prop :=
  ∃ answers, (∀ answer ∈ answers, Offers msgs answer) ∧
    db' = (final (downloadAndProcessMessages P account answers { db := db })).db

variable (P account) in
/-- Processing what is pending ends with the database `done`. -/
def LeadsTo (msgs : List Received) (done db : Db) : Prop :=
  observe State.db (processPage P account (pending msgs (SyncDao.timestamp db .message)) { db := db }) = (.ok (), done)

section interrupted

variable {msgs : List Received} {done : Db}

private theorem offers_paged (hready : ∀ r ∈ msgs, r.cancelled = false) (stop : Received → Bool) (n : Nat) :
    Offers msgs (paged (msgs.map (cancelling stop)) n) := by
  intro t page hpage
  cases hpage
  have hpending : pending (msgs.map (cancelling stop)) t = (pending msgs t).map (cancelling stop) := List.filter_map
  have hall : ((pending msgs t).map (cancelling stop)).map Received.uncancelled = pending msgs t := by
    rw [List.map_map]
    calc (pending msgs t).map (Received.uncancelled ∘ cancelling stop)
        = (pending msgs t).map id := by
          apply List.map_congr_left
          intro r hr
          have hc := hready r (List.mem_of_mem_filter hr)
          simp [Received.uncancelled, cancelling, ← hc]
      _ = pending msgs t := List.map_id _
  rw [hpending, List.map_take, hall]
  exact List.take_prefix _ _

/-- The next message is processed, or nothing happens. -/
theorem LeadsTo.process (hmsgs : Chronological msgs) {s : State} (h : LeadsTo P account msgs done s.db) {r : Received}
    {rest : List Received} (hs : pending msgs (SyncDao.timestamp s.db .message) = r.uncancelled :: rest) :
    Ends (process P account r) s
      (fun _ s' => LeadsTo P account msgs done s'.db ∧ pending msgs (SyncDao.timestamp s'.db .message) = rest)
      (fun _ s' => LeadsTo P account msgs done s'.db) := by
  cases hc : r.cancelled with
  | true => exact Ends.of_eq_error (process_of_cancelled hc) h
  | false =>
    have hr : r.uncancelled = r := by
      unfold Received.uncancelled
      rw [← hc]
    rw [hr] at hs
    have hobserve : observe State.db (processPage P account (r :: rest) s) = (.ok (), done) := by
      rw [readsOnly_processPage (r :: rest) s { db := s.db } rfl, ← hs]
      exact h
    cases hprocess : MessagesSyncer.process P account r s with
    | error e s' =>
      rw [processPage, bind_of_error hprocess] at hobserve
      cases hobserve
    | ok _ s' =>
      rw [processPage, bind_of_ok hprocess] at hobserve
      have hpending : pending msgs (SyncDao.timestamp s'.db .message) = rest := by
        rw [process_eq_ok_timestamp hprocess]
        exact pending_of_cons hmsgs hs
      refine Ends.of_eq_ok hprocess ⟨?_, hpending⟩
      unfold LeadsTo
      rw [hpending, readsOnly_processPage rest { db := s'.db } s' rfl]
      exact hobserve

theorem LeadsTo.processPage (hmsgs : Chronological msgs) {rs rest : List Received} {s : State}
    (h : LeadsTo P account msgs done s.db)
    (hs : pending msgs (SyncDao.timestamp s.db .message) = rs.map Received.uncancelled ++ rest) :
    Ends (processPage P account rs) s (fun _ s' => LeadsTo P account msgs done s'.db)
      (fun _ s' => LeadsTo P account msgs done s'.db) := by
  induction rs generalizing s with
  | nil => exact h
  | cons r rs ih =>
    rw [MessagesSyncer.processPage, ends_bind]
    refine (h.process hmsgs hs).mono ?_ (fun _ _ h' => h')
    rintro _ s' ⟨h', hs'⟩
    exact ih h' hs'

theorem LeadsTo.download (hmsgs : Chronological msgs) {answers : List (LastModified → Except Exn Page)}
    (hoffers : ∀ answer ∈ answers, Offers msgs answer) {s : State} (h : LeadsTo P account msgs done s.db) :
    LeadsTo P account msgs done (final (downloadAndProcessMessages P account answers s)).db := by
  induction answers generalizing s with
  | nil => exact h
  | cons answer answers ih =>
    cases hanswer : answer (SyncDao.timestamp s.db .message) with
    | error e =>
      rw [downloadAndProcessMessages, bind_of_ok get_apply, hanswer]
      exact h
    | ok page =>
      obtain ⟨rest, hrest⟩ := hoffers answer List.mem_cons_self _ _ hanswer
      have hobserve : _ = (observe State.db _).2 :=
        congrArg Prod.snd (observe_download_cons (P := P) hanswer : observe State.db
          (downloadAndProcessMessages P account (answer :: answers) s) = _)
      rw [observe_snd, observe_snd] at hobserve
      rw [hobserve]
      have hends := h.processPage hmsgs hrest.symm
      cases hrun : MessagesSyncer.processPage P account page.messages s with
      | error e s' =>
        rw [bind_of_error hrun]
        have h' := ends_of_error hends hrun
        exact h'
      | ok _ s' =>
        rw [bind_of_ok hrun]
        have h' := ends_of_ok hends hrun
        split
        · exact ih (fun a ha => hoffers a (List.mem_cons_of_mem _ ha)) h'
        · exact h'

private theorem LeadsTo.attempts (hmsgs : Chronological msgs) {db db' : Db}
    (h : LeadsTo P account msgs done db) (hattempts : Relation.ReflTransGen (Attempt P account msgs) db db') :
    LeadsTo P account msgs done db' := by
  induction hattempts with
  | refl => exact h
  | tail _ hlast ih =>
    obtain ⟨answers, hoffers, rfl⟩ := hlast
    exact LeadsTo.download hmsgs hoffers ih

/-- Resuming: after any number of downloads that were cancelled or broke off, a download that is let run ends with
the same database as processing everything without an interruption. -/
theorem download_resumes (hmsgs : Chronological msgs) {db db' : Db} {s : State}
    (hdone : MessagesSyncer.processPage P account (pending msgs (SyncDao.timestamp db .message)) { db := db } = .ok () s)
    (hattempts : Relation.ReflTransGen (Attempt P account msgs) db db')
    {answers : List (LastModified → Except Exn Page)} (hserves : ∀ answer ∈ answers, Serves msgs answer)
    (hne : answers ≠ []) (hlen : (pending msgs (SyncDao.timestamp db' .message)).length ≤ answers.length) :
    ∃ s', downloadAndProcessMessages P account answers { db := db' } = .ok () s' ∧ s'.db = s.db ∧
      pending msgs (SyncDao.timestamp s'.db .message) = [] := by
  have hleads : LeadsTo P account msgs s.db db := by
    unfold LeadsTo
    rw [hdone]
    rfl
  have hobserve : observe State.db (downloadAndProcessMessages P account answers { db := db' }) = _ :=
    observe_download hmsgs hserves hne { db := db' } hlen
  rw [hleads.attempts hmsgs hattempts] at hobserve
  obtain ⟨s', hrun, hdb⟩ := observe_eq_ok.1 hobserve
  refine ⟨s', hrun, hdb, ?_⟩
  rw [hdb]
  exact pending_of_processPage hmsgs hdone (by simp)

/-- The user cancels before the second message, the next download breaks off after it. -/
def brokenOff : Db :=
  let cancelled := (final (downloadAndProcessMessages .transparent ⟨.alice, []⟩
    [paged (tombstones.map (cancelling fun r => r.msg.id == 8)) 2] { db := {} })).db
  (final (downloadAndProcessMessages .transparent ⟨.alice, []⟩ [paged tombstones 0] { db := cancelled })).db

private theorem attempts_brokenOff :
    Relation.ReflTransGen (Attempt .transparent ⟨.alice, []⟩ tombstones) {} brokenOff := by
  have hready : ∀ r ∈ tombstones, r.cancelled = false := by decide
  refine .tail (.single ⟨_, ?_, rfl⟩) ⟨[paged tombstones 0], ?_, rfl⟩
  · intro answer hanswer
    rw [List.mem_singleton.1 hanswer]
    exact offers_paged hready _ 2
  · intro answer hanswer
    rw [List.mem_singleton.1 hanswer]
    exact offers_paged hready (fun _ => false) 0

private theorem processPage_tombstones :
    MessagesSyncer.processPage .transparent ⟨.alice, []⟩ (pending tombstones (SyncDao.timestamp {} .message))
      { db := {} } =
    .ok () (final (MessagesSyncer.processPage .transparent ⟨.alice, []⟩ tombstones { db := {} })) := rfl

theorem download_resumes_tombstones :
    ∃ s', downloadAndProcessMessages .transparent ⟨.alice, []⟩ [paged tombstones 2] { db := brokenOff } = .ok () s' ∧
      s'.db = (final (MessagesSyncer.processPage .transparent ⟨.alice, []⟩ tombstones { db := {} })).db ∧
      pending tombstones (SyncDao.timestamp s'.db .message) = [] :=
  download_resumes chronological_tombstones processPage_tombstones attempts_brokenOff
    (by simp [serves_paged]) (by simp) (by decide +kernel)

end interrupted

end MessagesSyncer

end KulloClient
