import KulloClient.Sync.AttachmentFrame

/-!
# The loop over the downloadable messages

`run` asks the database for the first message with a missing content and downloads it, until there is none.  It makes
progress only when a download fills all contents of its message, so it comes to its end exactly if every message it
reaches is good.
-/

namespace KulloClient

namespace AttachmentSyncer

open Imperative Pipeline

variable {P : StreamPlatform}

/-! ### The messages of a database -/

/-- A message attachment of the message has no content yet. -/
def Downloadable (db : Db) (m : Nat) : Prop :=
  ∃ r ∈ db.attachments, r.draft = false ∧ r.messageId = m ∧ contentOf db r.key = some none

variable (P) in
/-- All contents of the message are there, and genuine. -/
def Fetched (db : Db) (m : Nat) : Prop :=
  ∀ r ∈ db.attachments, r.draft = false → r.messageId = m →
    ∃ bytes, contentOf db r.key = some (some bytes) ∧ IsContent P r bytes

private theorem Fetched.not_downloadable {db : Db} {m : Nat} (h : Fetched P db m) : ¬ Downloadable db m := by
  rintro ⟨r, hr, hdraft, hm, hnull⟩
  obtain ⟨bytes, hbytes, -⟩ := h r hr hdraft hm
  rw [hnull] at hbytes
  cases hbytes

private theorem downloadable_iff {db : Db} {m : Nat} :
    Downloadable db m ↔ m ∈ (AttachmentDao.downloadable db).map AttachmentRow.messageId := by
  have hnull : ∀ r : AttachmentRow, contentOf db r.key = some none ↔
      ((db.attachmentsContent.find? r.key).map (fun c => c.content.isNone)).getD false = true := by
    intro r
    unfold contentOf
    cases db.attachmentsContent.find? r.key with
    | none => simp
    | some c => simp
  unfold Downloadable AttachmentDao.downloadable
  simp only [List.mem_map, Relational.Table.mem_select, Bool.and_eq_true, Bool.not_eq_true', hnull]
  constructor
  · rintro ⟨r, hr, hdraft, hm, hcontent⟩
    exact ⟨r, ⟨hr, hdraft, hcontent⟩, hm⟩
  · rintro ⟨r, ⟨hr, hdraft, hcontent⟩, hm⟩
    exact ⟨r, hr, hdraft, hm, hcontent⟩

/-- The first downloadable message is the one with the least id. -/
theorem first_eq_some {db : Db} {m : Nat} (h : AttachmentDao.msgIdForFirstDownloadable db = some m) :
    Downloadable db m ∧ ∀ m', Downloadable db m' → m ≤ m' := by
  obtain ⟨hmem, hmin⟩ := List.min?_eq_some_iff.mp h
  exact ⟨downloadable_iff.mpr hmem, fun m' hm' => hmin m' (downloadable_iff.mp hm')⟩

private theorem first_eq_none {db : Db} (h : AttachmentDao.msgIdForFirstDownloadable db = none) (m : Nat) :
    ¬ Downloadable db m := by
  have hnil := List.min?_eq_none_iff.mp h
  rw [downloadable_iff, hnil]
  exact List.not_mem_nil

private theorem downloadable_of_filled {D D' : Db} {m : Nat} (h : Filled D D') (hm : Downloadable D' m) :
    Downloadable D m := by
  obtain ⟨r, hr, hdraft, hid, hnull⟩ := hm
  exact ⟨r, h.attachments ▸ hr, hdraft, hid, h.missing _ hnull⟩

theorem mem_allForMessage {db : Db} {m : Nat} {r : AttachmentRow} :
    AttachmentDao.ofRow r ∈ AttachmentDao.allForMessage db false m ↔
      r ∈ db.attachments ∧ r.draft = false ∧ r.messageId = m := by
  unfold AttachmentDao.allForMessage
  simp only [List.mem_map, List.mem_insertionSort, Relational.Table.mem_select, AttachmentDao.ofRow, Bool.and_eq_true,
    beq_iff_eq]
  constructor
  · rintro ⟨r', hr', h⟩
    cases h
    exact hr'
  · intro hr
    exact ⟨r, hr, rfl⟩

/-! ### Good and bad messages -/

/-- `attachmentsBlockTotalBytes`. -/
def totalBytes (db : Db) (m : Nat) : Nat :=
  ((AttachmentDao.allForMessage db false m).map (fun dao => dao.row.size)).sum

/-- The text of a block that is read to its end; nothing is asked for when all attachments are empty. -/
def BlockText (total : Nat) (answer : Except Exn Bytes) (filters : AttachmentFilters P) (text : Bytes) : Prop :=
  if total = 0 then text = []
  else
    ∃ block, answer = .ok block ∧ (filters.write block).raised = none ∧ (filters.write block).state.close.raised = none ∧
      (filters.output block).flatten = text

variable (P) in
/-- The message is stored with a key, and its block is right: it has the right tag, is one compressed stream, is not too
large, and consists of the contents the attachments promise. -/
def Good (db : Db) (answer : Except Exn Bytes) (m : Nat) : Prop :=
  ∃ msg cipher text, MessageDao.load db m false = some msg ∧ P.setKey msg.row.symmetricKey = .ok cipher ∧
    BlockText (totalBytes db m) answer (AttachmentFilters.new (P := P) cipher) text ∧
    Fits P db (AttachmentDao.allForMessage db false m) text

variable (P) in
/-- The block is asked for, and there is no answer but an exception that is passed on. -/
def RequestFails (db : Db) (answer : Except Exn Bytes) (m : Nat) (e : Exn) : Prop :=
  (∃ msg cipher, MessageDao.load db m false = some msg ∧ P.setKey msg.row.symmetricKey = .ok cipher) ∧
    (∀ a ∈ (AttachmentDao.allForMessage db false m).head?, ∃ h, P.hexDecode a.row.hash = .ok h ∧
      h.length = AttachmentSplittingSink.hashLength) ∧
    0 < totalBytes db m ∧ ∃ e', answer = .error e' ∧ catchStream 0 e' = .error e

/-- Every message is asked for at most once, so the answers of the server are given by message. -/
def answered (answer : IdType → Except Exn Bytes) : Nat → Round :=
  fun _ => { call := fun msgId => { answer := answer msgId } }

variable (P) in
/-- A downloadable message with no failing request up to it. -/
def Reached (db : Db) (answer : IdType → Except Exn Bytes) (m : Nat) : Prop :=
  Downloadable db m ∧ ∀ m' ≤ m, Downloadable db m' → ∀ e, ¬ RequestFails P db (answer m') m' e

variable (P) in
/-- The run ends, by returning or with the exception of a request, and the good messages it reaches are fetched while
the others are left as they are. -/
def Completes (answer : IdType → Except Exn Bytes) (db : Db) : Prop :=
  ∃ fuel result, run P (answered answer) 0 fuel { db := db } = some result ∧
    (∀ m, Reached P db answer m → Good P db (answer m) m → Fetched P (final result).db m) ∧
    (∀ m, Reached P db answer m → ¬ Good P db (answer m) m → Downloadable (final result).db m) ∧
    ∀ e s, result = .error e s → ∃ m ∈ s.attachmentsBlocks, Downloadable db m ∧ RequestFails P db (answer m) m e

/-! ### The order of the run -/

/-- No message comes before one that was asked for. -/
def Ordered (s : State) : Prop := ∀ b ∈ s.attachmentsBlocks, ∀ m, Downloadable s.db m → b ≤ m

private theorem round_ordered {s : State} (hs : Ordered s) (r : Round) :
    Ends (round P r) s
      (fun more s' => Filled s.db s'.db ∧ Ordered s' ∧
        (more = false → s' = s ∧ ∀ m, Downloadable s.db m → Downloadable s.db 0))
      (fun _ s' => Filled s.db s'.db ∧ Ordered s') := by
  unfold round
  split
  · exact ⟨.refl _, hs⟩
  rw [ends_bind, ends_get]
  split
  · next hfirst => exact ⟨.refl _, hs, fun _ => ⟨rfl, fun m hm => absurd hm (first_eq_none hfirst m)⟩⟩
  · next hfirst => exact ⟨.refl _, hs, fun _ => ⟨rfl, fun _ _ => (first_eq_some hfirst).1⟩⟩
  · next msgId _ hfirst =>
    split
    · exact ⟨.refl _, hs⟩
    have hcalled : ∀ s', Called msgId s s' → Filled s.db s'.db ∧ Ordered s' := by
      intro s' h
      refine ⟨h.db.toFilled, fun b hb m hm => ?_⟩
      have hm' := downloadable_of_filled h.db.toFilled hm
      rcases h.blocks b hb with hold | rfl
      · exact hs b hold m hm'
      · exact (first_eq_some hfirst).2 m hm'
    rw [ends_bind]
    refine (downloadForMessage_called _ msgId s).mono (fun _ s' h => ?_) (fun _ s' h => hcalled s' h)
    rw [ends_bind, ends_modify, ends_pure]
    exact ⟨(hcalled s' h).1, (hcalled s' h).2, by simp⟩

private theorem run_ordered {rounds : Nat → Round} {fuel i : Nat} {s : State} {result : EStateM.Result Exn State Unit}
    (hs : Ordered s) (hrun : run P rounds i fuel s = some result) :
    Filled s.db (final result).db ∧ Ordered (final result) ∧
      ∀ s', result = .ok () s' → ∀ m, Downloadable s'.db m → Downloadable s'.db 0 := by
  induction fuel generalizing i s with
  | zero => cases hrun
  | succ fuel ih =>
    have hround := round_ordered (P := P) hs (rounds i)
    unfold Ends at hround
    unfold run at hrun
    cases hr : round P (rounds i) s with
    | error e s' =>
      rw [hr] at hrun hround
      cases hrun
      exact ⟨hround.1, hround.2, by simp⟩
    | ok more s' =>
      rw [hr] at hrun hround
      obtain ⟨hfilled, hordered, hstop⟩ := hround
      cases more with
      | false =>
        cases hrun
        refine ⟨hfilled, hordered, ?_⟩
        rintro _ ⟨⟩ m hm
        obtain ⟨rfl, hzero⟩ := hstop rfl
        exact hzero m hm
      | true =>
        obtain ⟨hrest, hrest'⟩ := ih hordered hrun
        exact ⟨hfilled.trans hrest, hrest'⟩

/-- A run that completes has met no bad message. -/
theorem good_of_completes {answer : IdType → Except Exn Bytes} {db : Db} (h : Completes P answer db) {m : Nat}
    (hm : Reached P db answer m) (hzero : ¬ Downloadable db 0) : Good P db (answer m) m := by
  by_contra hbad
  obtain ⟨fuel, result, hrun, -, hleft, hraised⟩ := h
  have hstart : Ordered { db := db } := fun b hb => absurd hb List.not_mem_nil
  obtain ⟨hfilled, hordered, hreturned⟩ := run_ordered hstart hrun
  have hstill := hleft m hm hbad
  cases result with
  | ok u s => exact hzero (downloadable_of_filled hfilled (hreturned s rfl m hstill))
  | error e s =>
    obtain ⟨m', hblock, hdown, hfails⟩ := hraised e s rfl
    exact hm.2 m' (hordered m' hblock m hstill) hdown e hfails

/-! ### A good message -/

private def anyDb : Db → Prop := fun _ => True

private theorem anyDb_keeps : Keeps P anyDb := fun _ _ _ => trivial

/-- Closing behind the last bytes of a text that fits. -/
theorem closeAndDestroy_good {msgId : IdType} {D : Db} {daos : List AttachmentDao} {text : Bytes}
    {filters : AttachmentFilters P} {sink : AttachmentSplittingSink} (n : Nat) (hm : OfMessage D msgId daos)
    (hclose : filters.close.raised = none) (hfits : Fits P D daos (text ++ filters.close.output.flatten))
    (hs : Taken P msgId D daos text sink) :
    (closeAndDestroy P n filters sink).raised = none ∧
      (closeAndDestroy P n filters sink).sink.db = stored D daos (text ++ filters.close.output.flatten) := by
  unfold closeAndDestroy
  dsimp only
  rcases feed_taken (e := filters.close) anyDb_keeps (I := anyDb) trivial hm (List.prefix_refl _) hfits.sound hs with
    ⟨hraised, -, htaken⟩ | ⟨-, hrefused⟩
  · have hclosed := close_taken anyDb_keeps (I := anyDb) trivial hm hfits.sound htaken
    have hchain := closeChain_sink filters sink
    rw [hraised, hclose] at hchain
    unfold Ends at hclosed
    unfold closeChain at hchain ⊢
    dsimp only at hchain ⊢
    rw [hraised, hclose] at hchain ⊢
    dsimp only at hchain ⊢
    split at hclosed
    · next u s' heq =>
      rw [heq]
      refine ⟨rfl, ?_⟩
      have hdestroy : Ends (AttachmentSplittingSink.destroy P) s' (fun _ t => t.db = s'.db) (fun _ t => t.db = s'.db) :=
        destroy_of_dead hclosed.1.1
      exact (ends_final.mp hdestroy).trans hclosed.2
    · exact absurd hfits hclosed.2
  · exact absurd hfits hrefused.2

private theorem useStream_good {msgId : IdType} {D : Db} {daos : List AttachmentDao} {text : Bytes} {total : Nat}
    {answer : Except Exn Bytes} {cipher : P.Cipher} {sink : AttachmentSplittingSink} (hm : OfMessage D msgId daos)
    (htext : BlockText total answer (AttachmentFilters.new (P := P) cipher) text) (hfits : Fits P D daos text)
    (hs : Taken P msgId D daos [] sink) :
    (useStream P { answer := answer } total (AttachmentFilters.new cipher) sink).raised = none ∧
      (useStream P { answer := answer } total (AttachmentFilters.new cipher) sink).sink.db = stored D daos text := by
  unfold useStream
  unfold BlockText at htext
  by_cases htotal : total = 0
  · rw [if_pos htotal] at htext
    subst htext
    rw [if_neg (by omega)]
    exact closeAndDestroy_good 0 hm rfl hfits hs
  · rw [if_neg htotal] at htext
    obtain ⟨block, rfl, hwrite, hclose, rfl⟩ := htext
    rw [if_pos (Nat.pos_of_ne_zero htotal), if_neg Bool.false_ne_true]
    dsimp only
    unfold AttachmentFilters.output at hfits ⊢
    rw [List.flatten_append] at hfits ⊢
    rcases feed_taken (e := (AttachmentFilters.new (P := P) cipher).write block) anyDb_keeps (I := anyDb) trivial hm
        (List.prefix_append _ _) hfits.sound hs with ⟨hraised, hfilter, htaken⟩ | ⟨-, hrefused⟩
    · rw [hraised, hwrite, hfilter]
      exact closeAndDestroy_good block.length hm hclose hfits htaken
    · exact absurd hfits hrefused.2

private theorem fetched_stored {db : Db} {m : Nat} {text : Bytes}
    (hfits : Fits P db (AttachmentDao.allForMessage db false m) text) :
    Fetched P (stored db (AttachmentDao.allForMessage db false m) text) m := by
  intro r hr hdraft hm
  rw [stored_attachments] at hr
  have hmem : AttachmentDao.ofRow r ∈ AttachmentDao.allForMessage db false m := mem_allForMessage.mpr ⟨hr, hdraft, hm⟩
  rcases contentOf_stored hfits r.key with ⟨a, ha, hkey, bytes, hbytes, hcontent⟩ | ⟨hne, -⟩
  · have hrow := Relational.Table.eq_of_key_eq ((ofMessage_allForMessage db m).mem a ha) hr hkey
    exact ⟨bytes, hbytes, hrow ▸ hcontent⟩
  · exact absurd rfl (hne _ hmem)

private theorem not_allAttachmentsDownloaded {db : Db} {m : Nat} (h : Downloadable db m) :
    AttachmentDao.allAttachmentsDownloaded db m = false := by
  obtain ⟨r, -, hdraft, rfl, hnull⟩ := h
  obtain ⟨c, hc, hnone⟩ := Option.map_eq_some_iff.mp hnull
  have hkey := Relational.Table.key_of_find? hc
  have hid : c.messageId = r.messageId := congrArg (fun k : AttachmentKey => k.2.1) hkey
  unfold AttachmentDao.allAttachmentsDownloaded
  rw [List.isEmpty_eq_false_iff_exists_mem]
  refine ⟨c, Relational.Table.mem_select.mpr ⟨Relational.Table.mem_of_find? hc, ?_⟩⟩
  simp [hid, hnone]

/-- The part of a call before the stream is used. -/
theorem downloadForMessage_of_newSink {s : State} {answer : Except Exn Bytes} {m : Nat} {msg : MessageDao}
    {sink : AttachmentSplittingSink} (hload : MessageDao.load s.db m false = some msg) (hdown : Downloadable s.db m)
    (hsink : newSink P s.db m = .ok () sink) :
    downloadForMessage P { answer := answer } m s =
      downloadWith P { answer := answer } msg (totalBytes s.db m) sink s := by
  obtain rfl := load_id hload
  unfold downloadForMessage
  rw [bind_of_ok get_apply]
  dsimp only
  rw [hload]
  dsimp only
  rw [not_allAttachmentsDownloaded hdown, hsink]
  rfl

private theorem downloadWith_of_key {s : State} (call : Call) {msg : MessageDao} (total : Nat) (sink : AttachmentSplittingSink)
    {cipher : P.Cipher} (hkey : P.setKey msg.row.symmetricKey = .ok cipher) (hblock : msg.row.id ∉ s.attachmentsBlocks) :
    Ends (downloadWith P call msg total sink) s
      (fun _ s' => s'.db = (useStream P call total (AttachmentFilters.new cipher) sink).sink.db ∧
        ∀ e', (useStream P call total (AttachmentFilters.new cipher) sink).raised = some e' →
          ∃ n, catchStream (useStream P call total (AttachmentFilters.new cipher) sink).downloadedBytes e' = .ok n)
      (fun e s' => msg.row.id ∈ s'.attachmentsBlocks ∧
        ∃ e', (useStream P call total (AttachmentFilters.new cipher) sink).raised = some e' ∧
          catchStream (useStream P call total (AttachmentFilters.new cipher) sink).downloadedBytes e' = .error e) := by
  unfold downloadWith
  dsimp only
  rw [hkey]
  dsimp only
  rw [ends_bind, ends_get, if_neg (by simpa using hblock), ends_bind, ends_modify]
  split
  · next e hraised =>
    split
    · next n hcaught =>
      rw [ends_pure, hraised]
      refine ⟨rfl, ?_⟩
      rintro _ ⟨⟩
      exact ⟨n, hcaught⟩
    · next e' hpassed =>
      rw [ends_throw]
      exact ⟨by simp, e, hraised, hpassed⟩
  · next hraised =>
    rw [ends_bind, ends_modify, ends_pure, hraised]
    exact ⟨rfl, by simp⟩

/-- A good message is fetched. -/
theorem downloadForMessage_good {s : State} {answer : Except Exn Bytes} {m : Nat} (hgood : Good P s.db answer m)
    (hdown : Downloadable s.db m) (hblock : m ∉ s.attachmentsBlocks) :
    Ends (downloadForMessage P { answer := answer } m) s (fun _ s' => Fetched P s'.db m) (fun _ _ => False) := by
  obtain ⟨msg, cipher, text, hload, hkey, htext, hfits⟩ := hgood
  have hof := ofMessage_allForMessage s.db m
  have hmake := makeStream_taken (P := P) (I := anyDb) trivial hof
    (s := { db := s.db, messageId := m, attachmentDaos := AttachmentDao.allForMessage s.db false m }) rfl (fun _ => rfl)
  unfold Ends at hmake
  cases hsink : newSink P s.db m with
  | error e sink =>
    unfold newSink at hsink
    rw [hsink] at hmake
    exact absurd hfits (hmake text).2
  | ok u sink =>
    unfold Ends
    rw [downloadForMessage_of_newSink hload hdown hsink]
    obtain ⟨hraised, hdb⟩ := useStream_good hof htext hfits (newSink_taken hsink)
    obtain rfl := load_id hload
    have hends := downloadWith_of_key { answer := answer } (totalBytes s.db msg.row.id) sink
      hkey hblock
    refine hends.mono (fun _ s' h => ?_) (fun e s' h => ?_)
    · rw [h.1, hdb]
      exact fetched_stored hfits
    · obtain ⟨-, e', he', -⟩ := h
      rw [hraised] at he'
      cases he'

/-- A request that fails ends the call. -/
theorem downloadForMessage_fails {s : State} {answer : Except Exn Bytes} {m : Nat} {e : Exn}
    (hfails : RequestFails P s.db answer m e) (hdown : Downloadable s.db m) (hblock : m ∉ s.attachmentsBlocks) :
    Ends (downloadForMessage P { answer := answer } m) s (fun _ _ => False)
      (fun e' s' => e' = e ∧ m ∈ s'.attachmentsBlocks) := by
  obtain ⟨⟨msg, cipher, hload, hkey⟩, hhash, htotal, e', rfl, hpassed⟩ := hfails
  have hnew : ∃ sink, newSink P s.db m = .ok () sink := by
    unfold newSink AttachmentSplittingSink.makeStream
    rw [bind_of_ok get_apply]
    dsimp only
    cases hdaos : AttachmentDao.allForMessage s.db false m with
    | nil => exact ⟨_, rfl⟩
    | cons a rest =>
      obtain ⟨hash, hdecode, hlen⟩ := hhash a (by rw [hdaos]; rfl)
      dsimp only
      rw [bind_of_ok (set_apply _), hdecode]
      dsimp only
      rw [if_neg (by simpa using hlen)]
      exact ⟨_, rfl⟩
  obtain ⟨sink, hsink⟩ := hnew
  obtain rfl := load_id hload
  have hraised : (useStream P { answer := .error e' } (totalBytes s.db msg.row.id) (AttachmentFilters.new cipher) sink).raised =
      some e' := by
    unfold useStream
    rw [if_pos htotal]
    rfl
  have hbytes : (useStream P { answer := .error e' } (totalBytes s.db msg.row.id) (AttachmentFilters.new cipher)
      sink).downloadedBytes = 0 := by
    unfold useStream
    rw [if_pos htotal]
    rfl
  unfold Ends
  rw [downloadForMessage_of_newSink hload hdown hsink]
  have hends := downloadWith_of_key { answer := .error e' } (totalBytes s.db msg.row.id) sink
    hkey hblock
  rw [hbytes] at hends
  refine hends.mono (fun _ s' h => ?_) (fun e'' s' h => ?_)
  · obtain ⟨n, hn⟩ := h.2 e' hraised
    rw [hpassed] at hn
    cases hn
  · obtain ⟨hmem, e₁, he₁, hpassed'⟩ := h
    rw [hraised] at he₁
    cases he₁
    rw [hpassed] at hpassed'
    cases hpassed'
    exact ⟨rfl, hmem⟩

/-! ### The run -/

private theorem good_of_filled {D D' : Db} {answer : Except Exn Bytes} {m : Nat} (h : Filled D D')
    (hgood : Good P D answer m) : Good P D' answer m := by
  have hdaos : AttachmentDao.allForMessage D' false m = AttachmentDao.allForMessage D false m := by
    unfold AttachmentDao.allForMessage
    rw [h.attachments]
  obtain ⟨msg, cipher, text, hload, hkey, htext, hfits⟩ := hgood
  unfold Good totalBytes at *
  rw [hdaos]
  refine ⟨msg, cipher, text, ?_, hkey, htext, hfits.of_rows h.rows⟩
  unfold MessageDao.load at hload ⊢
  rw [h.messages]
  exact hload

private theorem requestFails_of_filled {D D' : Db} {answer : Except Exn Bytes} {m : Nat} {e : Exn} (h : Filled D D')
    (hfails : RequestFails P D answer m e) : RequestFails P D' answer m e := by
  have hdaos : AttachmentDao.allForMessage D' false m = AttachmentDao.allForMessage D false m := by
    unfold AttachmentDao.allForMessage
    rw [h.attachments]
  unfold RequestFails totalBytes MessageDao.load at *
  rw [hdaos, h.messages]
  exact hfails

/-- The run has dealt with the messages before `k`, and has not touched the others. -/
structure Progress (P : StreamPlatform) (db : Db) (k : Nat) (s : State) : Prop where
  filled : Filled db s.db
  blocks : ∀ b ∈ s.attachmentsBlocks, b < k
  left : ∀ m, Downloadable s.db m → k ≤ m
  fetched : ∀ m, Downloadable db m → m < k → Fetched P s.db m
  untouched : ∀ key : AttachmentKey, k ≤ key.2.1 → contentOf s.db key = contentOf db key

theorem Progress.start (db : Db) : Progress P db 0 { db := db } where
  filled := .refl db
  blocks := by simp
  left m _ := Nat.zero_le m
  fetched m _ h := absurd h (Nat.not_lt_zero m)
  untouched _ _ := rfl

/-- The downloadable messages from `k` on are still so. -/
theorem Progress.downloadable {db : Db} {k m : Nat} {s : State} (h : Progress P db k s) (hm : Downloadable db m)
    (hk : k ≤ m) : Downloadable s.db m := by
  obtain ⟨r, hr, hdraft, hid, hnull⟩ := hm
  have hkey : k ≤ r.key.2.1 := by
    change k ≤ r.messageId
    rw [hid]
    exact hk
  exact ⟨r, h.filled.attachments.symm ▸ hr, hdraft, hid, (h.untouched _ hkey).trans hnull⟩

private theorem fetched_of_called {m m' : Nat} {s s' : State} (h : Called m s s') (hne : m' ≠ m)
    (hfetched : Fetched P s.db m') : Fetched P s'.db m' := by
  intro r hr hdraft hid
  have hkey : r.key.2.1 ≠ m := by
    change r.messageId ≠ m
    rw [hid]
    exact hne
  rw [h.db.others _ hkey]
  exact hfetched r (h.db.attachments ▸ hr) hdraft hid

/-- After the first downloadable message is fetched. -/
theorem Progress.next {db : Db} {k m : Nat} {s s' : State} (h : Progress P db k s)
    (hfirst : AttachmentDao.msgIdForFirstDownloadable s.db = some m) (hcalled : Called m s s')
    (hfetched : Fetched P s'.db m) : Progress P db (m + 1) s' := by
  obtain ⟨hdown, hmin⟩ := first_eq_some hfirst
  have hk := h.left m hdown
  constructor
  · exact h.filled.trans hcalled.db.toFilled
  · intro b hb
    rcases hcalled.blocks b hb with hold | rfl
    · exact Nat.lt_succ_of_lt (Nat.lt_of_lt_of_le (h.blocks b hold) hk)
    · exact Nat.lt_succ_self b
  · intro m' hm'
    have hle := hmin m' (downloadable_of_filled hcalled.db.toFilled hm')
    have hne : m' ≠ m := by
      rintro rfl
      exact hfetched.not_downloadable hm'
    omega
  · intro m' hm' hlt
    by_cases hm : m' = m
    · subst hm
      exact hfetched
    · refine fetched_of_called hcalled hm (h.fetched m' hm' ?_)
      by_contra hge
      have := hmin m' (h.downloadable hm' (by omega))
      omega
  · intro key hkey
    rw [hcalled.db.others key (Nat.ne_of_gt hkey)]
    exact h.untouched key (Nat.le_trans hk (Nat.le_of_succ_le hkey))

/-- What a run that completes ends with. -/
def Completed (P : StreamPlatform) (answer : IdType → Except Exn Bytes) (db : Db)
    (result : EStateM.Result Exn State Unit) : Prop :=
  (∀ m, Reached P db answer m → Fetched P (final result).db m) ∧
    ∀ e s, result = .error e s → ∃ m ∈ s.attachmentsBlocks, Downloadable db m ∧ RequestFails P db (answer m) m e

private theorem round_of_first (answer : IdType → Except Exn Bytes) (i : Nat) {s : State} {m : Nat}
    (hfirst : AttachmentDao.msgIdForFirstDownloadable s.db = some m) (hpos : 0 < m) :
    round P (answered answer i) s = (do
      let n ← downloadForMessage P { answer := answer m } m
      modify fun s => { s with previouslyDownloaded := s.previouslyDownloaded + n }
      pure true : SyncerM Bool) s := by
  obtain ⟨m, rfl⟩ := Nat.exists_eq_succ_of_ne_zero (Nat.pos_iff_ne_zero.mp hpos)
  unfold round
  rw [if_neg (by simp [answered]), bind_of_ok get_apply, hfirst]
  rfl

/-- The run ends when there is nothing left. -/
theorem run_of_none {answer : IdType → Except Exn Bytes} {db : Db} {k i : Nat} {s : State} (hs : Progress P db k s)
    (hfirst : AttachmentDao.msgIdForFirstDownloadable s.db = none) :
    ∃ fuel result, run P (answered answer) i fuel s = some result ∧ Completed P answer db result := by
  have hround : round P (answered answer i) s = .ok false s := by
    unfold round
    rw [if_neg (by simp [answered]), bind_of_ok get_apply, hfirst]
    rfl
  refine ⟨1, .ok () s, ?_, fun m hm => ?_, ?_⟩
  · rw [run, hround]
  · refine hs.fetched m hm.1 ?_
    by_contra hge
    exact first_eq_none hfirst m (hs.downloadable hm.1 (Nat.not_lt.mp hge))
  · rintro e s' ⟨⟩

/-- The run over the messages from `k` on, `n` at most: each is fetched, or its request fails and ends the run. -/
theorem run_completed {answer : IdType → Except Exn Bytes} {db : Db} (hzero : ¬ Downloadable db 0)
    (hgood : ∀ m, Reached P db answer m → Good P db (answer m) m) {bound : Nat}
    (hbound : ∀ m, Downloadable db m → m < bound) (n i k : Nat) (hn : bound ≤ k + n) (s : State)
    (hs : Progress P db k s)
    (hpast : ∀ m < k, Downloadable db m → ∀ e, ¬ RequestFails P db (answer m) m e) :
    ∃ fuel result, run P (answered answer) i fuel s = some result ∧ Completed P answer db result := by
  induction n generalizing i k s with
  | zero =>
    cases hfirst : AttachmentDao.msgIdForFirstDownloadable s.db with
    | none => exact run_of_none hs hfirst
    | some m =>
      have hdown := (first_eq_some hfirst).1
      have := hs.left m hdown
      have := hbound m (downloadable_of_filled hs.filled hdown)
      omega
  | succ n ih =>
    cases hfirst : AttachmentDao.msgIdForFirstDownloadable s.db with
    | none => exact run_of_none hs hfirst
    | some m =>
      obtain ⟨hdown, hmin⟩ := first_eq_some hfirst
      have hdown' := downloadable_of_filled hs.filled hdown
      have hk := hs.left m hdown
      have hpos : 0 < m := by
        rw [Nat.pos_iff_ne_zero]
        rintro rfl
        exact hzero hdown'
      -- a message has its turn once, as the ids grow
      have hblock : m ∉ s.attachmentsBlocks := fun hmem => Nat.lt_irrefl m (Nat.lt_of_lt_of_le (hs.blocks m hmem) hk)
      have hcalled := downloadForMessage_called (P := P) { answer := answer m } m s
      have hround := round_of_first (P := P) answer i hfirst hpos
      by_cases hfails : ∃ e, RequestFails P db (answer m) m e
      · -- the request for this message ends the run, and the messages before it are fetched
        obtain ⟨e, hfails⟩ := hfails
        have hends := downloadForMessage_fails (requestFails_of_filled hs.filled hfails) hdown hblock
        unfold Ends at hends hcalled
        cases hcall : downloadForMessage P { answer := answer m } m s with
        | ok n s' =>
          rw [hcall] at hends
          exact hends.elim
        | error e' s' =>
          rw [hcall] at hends hcalled
          obtain ⟨rfl, hmem⟩ := hends
          refine ⟨1, .error e' s', ?_, fun m' hm' => ?_, ?_⟩
          · rw [run, hround, bind_of_error hcall]
          · have hlt : m' < m := by
              by_contra hge
              exact hm'.2 m (Nat.not_lt.mp hge) hdown' e' hfails
            refine fetched_of_called hcalled (Nat.ne_of_lt hlt) (hs.fetched m' hm'.1 ?_)
            by_contra hge
            have := hmin m' (hs.downloadable hm'.1 (Nat.not_lt.mp hge))
            omega
          · rintro e s'' ⟨⟩
            exact ⟨m, hmem, hdown', hfails⟩
      · have hnot : ∀ m' < m + 1, Downloadable db m' → ∀ e, ¬ RequestFails P db (answer m') m' e := by
          intro m' hlt hm' e hf
          by_cases hm : m' = m
          · subst hm
            exact hfails ⟨e, hf⟩
          · refine hpast m' ?_ hm' e hf
            by_contra hge
            have hle := hmin m' (hs.downloadable hm' (Nat.not_lt.mp hge))
            exact hm (Nat.le_antisymm (Nat.le_of_lt_succ hlt) hle)
        have hreached : Reached P db answer m := ⟨hdown', fun m' hle => hnot m' (Nat.lt_succ_of_le hle)⟩
        have hends := downloadForMessage_good (good_of_filled hs.filled (hgood m hreached)) hdown hblock
        unfold Ends at hends hcalled
        cases hcall : downloadForMessage P { answer := answer m } m s with
        | error e s' =>
          rw [hcall] at hends
          exact hends.elim
        | ok bytes s' =>
          rw [hcall] at hends hcalled
          let s'' : State := { s' with previouslyDownloaded := s'.previouslyDownloaded + bytes }
          have hcalled' : Called m s s'' := ⟨hcalled.db, hcalled.blocks⟩
          obtain ⟨fuel, result, hrun, hcompleted⟩ :=
            ih (i + 1) (m + 1) (by omega) s'' (hs.next hfirst hcalled' hends) hnot
          refine ⟨fuel + 1, result, ?_, hcompleted⟩
          rw [run, hround, bind_of_ok hcall, bind_of_ok (modify_apply _)]
          exact hrun

private theorem downloadable_bounded (db : Db) : ∃ bound, ∀ m, Downloadable db m → m < bound := by
  have hlist : ∀ ids : List Nat, ∃ bound, ∀ m ∈ ids, m < bound := by
    intro ids
    induction ids with
    | nil => exact ⟨0, by simp⟩
    | cons n ids ih =>
      obtain ⟨bound, hbound⟩ := ih
      refine ⟨n + 1 + bound, fun m hm => ?_⟩
      rcases List.mem_cons.mp hm with rfl | hm
      · omega
      · have := hbound m hm
        omega
  obtain ⟨bound, hbound⟩ := hlist ((AttachmentDao.downloadable db).map AttachmentRow.messageId)
  exact ⟨bound, fun m hm => hbound m (downloadable_iff.mp hm)⟩

/-- The run completes if and only if the messages it reaches are good; a message with the id 0 ends it at once. -/
theorem completes_iff (answer : IdType → Except Exn Bytes) (db : Db) :
    Completes P answer db ↔ ∀ m, Reached P db answer m → (Good P db (answer m) m ↔ ¬ Downloadable db 0) := by
  by_cases hzero : Downloadable db 0
  -- the id 0 comes first, and the loop takes it for no message left
  · have hfirst : AttachmentDao.msgIdForFirstDownloadable db = some 0 := by
      cases hfirst : AttachmentDao.msgIdForFirstDownloadable db with
      | none => exact absurd hzero (first_eq_none hfirst 0)
      | some m =>
        have hle := (first_eq_some hfirst).2 0 hzero
        rw [Nat.le_zero.mp hle]
    have hrun : ∀ i fuel, run P (answered answer) i (fuel + 1) { db := db } = some (.ok () { db := db }) := by
      intro i fuel
      have hround : round P (answered answer i) { db := db } = .ok false { db := db } := by
        unfold round
        rw [if_neg (by simp [answered]), bind_of_ok get_apply]
        dsimp only
        rw [hfirst]
        rfl
      rw [run, hround]
    constructor
    · rintro ⟨fuel, result, hresult, hfetched, -, -⟩ m hm
      refine iff_of_false (fun hgood => ?_) (fun h => h hzero)
      cases fuel with
      | zero => cases hresult
      | succ fuel =>
        rw [hrun] at hresult
        cases hresult
        exact (hfetched m hm hgood).not_downloadable hm.1
    · intro h
      refine ⟨1, .ok () { db := db }, hrun 0 0, fun m hm hgood => ?_, fun m hm _ => hm.1, ?_⟩
      · exact absurd hzero ((h m hm).mp hgood)
      · rintro e s ⟨⟩
  · constructor
    · intro h m hm
      exact iff_of_true (good_of_completes h hm hzero) hzero
    · intro h
      have hgood : ∀ m, Reached P db answer m → Good P db (answer m) m := fun m hm => (h m hm).mpr hzero
      -- the ids grow from round to round and are bounded by those of the database
      obtain ⟨bound, hbound⟩ := downloadable_bounded db
      obtain ⟨fuel, result, hrun, hfetched, hraised⟩ := run_completed hzero hgood hbound bound 0 0 (by omega)
        { db := db } (.start db) (fun m hlt => absurd hlt (Nat.not_lt_zero m))
      exact ⟨fuel, result, hrun, fun m hm _ => hfetched m hm, fun m hm hbad => absurd (hgood m hm) hbad, hraised⟩

/-! ### A message that is not stored -/

/-- Attachments of message 1, which has no row, and of message 2. -/
def orphanedDb : Db where
  messages := ⟨[{ id := 2 }], by decide⟩
  attachments := ⟨[someAttachment, { someAttachment with messageId := 2 }], by decide⟩
  attachmentsContent := ⟨[⟨false, 1, 0, none⟩, ⟨false, 2, 0, none⟩], by decide⟩

/-- The run asks for message 1 again and again, and never for message 2. -/
theorem not_completes_orphaned :
    ¬ Completes StreamPlatform.transparent (fun _ => .ok [1, 2, 3, 255, 0]) orphanedDb := by
  rintro ⟨fuel, result, hrun, -⟩
  have hround : ∀ i n, round StreamPlatform.transparent (answered (fun _ => .ok [1, 2, 3, 255, 0]) i)
      { db := orphanedDb, previouslyDownloaded := n } = .ok true { db := orphanedDb, previouslyDownloaded := n } := by
    intro i n
    rfl
  have hloop : ∀ fuel i, run StreamPlatform.transparent (answered (fun _ => .ok [1, 2, 3, 255, 0])) i fuel
      { db := orphanedDb } = none := by
    intro fuel
    induction fuel with
    | zero => intro i; rfl
    | succ fuel ih =>
      intro i
      rw [run, hround]
      exact ih (i + 1)
  rw [hloop] at hrun
  cases hrun

end AttachmentSyncer

end KulloClient
