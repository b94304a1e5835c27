import KulloClient.Codec.AttachmentStore
import KulloClient.Sync.AttachmentSyncer

/-!
# Stored attachments are genuine

A content is no longer NULL when its first byte arrives, and what arrives is not authenticated yet.  `CallSound` is the
condition on a call under which only genuine contents are left, whatever is raised: the text that comes out of
decryption and decompression, as far as it goes, must be what the attachments promise.
-/

namespace KulloClient

namespace AttachmentSyncer

open Imperative Pipeline

variable {P : StreamPlatform}

/-! ### The condition -/

/-- The text that reaches the sink: none without a block, and otherwise what decryption and decompression hand on. -/
def streamText (attachmentsBlockTotalBytes : Nat) (call : Call) (filters : AttachmentFilters P) : Bytes :=
  if attachmentsBlockTotalBytes = 0 ∨ call.cancelledBeforeDownload = true then []
  else
    match call.answer with
    | .error _ => []
    | .ok attachments => (filters.output attachments).flatten

/-! ### The stream -/

variable {I : Db → Prop}

private theorem write_of_stopped {s : AttachmentSplittingSink} (hs : Stopped P I s) (buffer : Bytes) :
    Ends (AttachmentSplittingSink.write P buffer) s (fun _ s' => Stopped P I s')
      (fun _ s' => Stopped P I s') :=
  (write_of_dead hs.1 buffer).mono (fun _ _ h => ⟨h.1, by rw [h.2]; exact hs.2⟩)
    (fun _ _ h => ⟨h.1, by rw [h.2]; exact hs.2⟩)

private theorem close_of_stopped {s : AttachmentSplittingSink} (hs : Stopped P I s) :
    Ends (AttachmentSplittingSink.close P) s (fun _ s' => Stopped P I s')
      (fun _ s' => Stopped P I s') :=
  (close_of_dead hs.1).mono (fun _ _ h => ⟨h.1, by rw [h.2]; exact hs.2⟩)
    (fun _ _ h => ⟨h.1, by rw [h.2]; exact hs.2⟩)

private theorem destroySink_of_stopped {s : AttachmentSplittingSink} (hs : Stopped P I s) :
    I (destroySink P s).db := by
  have hdestroy : Ends (AttachmentSplittingSink.destroy P) s (fun _ s' => I s'.db)
      (fun _ s' => I s'.db) :=
    (destroy_of_dead hs.1).mono (fun _ _ h => by rw [h]; exact hs.2) (fun _ _ h => by rw [h]; exact hs.2)
  exact ends_final.mp hdestroy

/-- The sink after the chain is closed: closed itself, if no filter raised. -/
theorem closeChain_sink (filters : AttachmentFilters P) (s : AttachmentSplittingSink) :
    (closeChain P filters s).2 =
      match (feed (AttachmentSplittingSink.write P) filters.close s).raised with
      | some _ => (feed (AttachmentSplittingSink.write P) filters.close s).sink
      | none => final (AttachmentSplittingSink.close P (feed (AttachmentSplittingSink.write P) filters.close s).sink) := by
  unfold closeChain
  dsimp only
  cases (feed (AttachmentSplittingSink.write P) filters.close s).raised with
  | some e => rfl
  | none =>
    cases AttachmentSplittingSink.close P (feed (AttachmentSplittingSink.write P) filters.close s).sink <;> rfl

private theorem destroyChain_of_stopped {filters : AttachmentFilters P} {s : AttachmentSplittingSink}
    (hs : Stopped P I s) : I (destroyChain P filters s).db := by
  have hfed : Stopped P I (feed (AttachmentSplittingSink.write P) filters.close s).sink :=
    feed_keeps _ hs (fun b s hs => write_of_stopped hs b)
  unfold destroyChain
  rw [closeChain_sink]
  split
  · exact destroySink_of_stopped hfed
  · exact destroySink_of_stopped (ends_final.mp (close_of_stopped hfed))

/-- Chunks of a sound text, handed to a sink that took what came before. -/
theorem feed_taken {F : Type} {msgId : IdType} {daos : List AttachmentDao} {D : Db} {text total : Bytes}
    {e : Emission Exn Bytes F} {s : AttachmentSplittingSink} (hI : Keeps P I) (hD : I D) (hm : OfMessage D msgId daos)
    (hpre : text ++ e.output.flatten <+: total) (hsound : Sound P daos total) (hs : Taken P msgId D daos text s) :
    ((feed (AttachmentSplittingSink.write P) e s).raised = e.raised ∧
        (feed (AttachmentSplittingSink.write P) e s).filter = e.state ∧
        Taken P msgId D daos (text ++ e.output.flatten) (feed (AttachmentSplittingSink.write P) e s).sink) ∨
      ((feed (AttachmentSplittingSink.write P) e s).raised ≠ none ∧
        Refused P I D daos total (feed (AttachmentSplittingSink.write P) e s).sink) := by
  have hstart : Taken P msgId D daos (text ++ ([] : List Bytes).flatten) s := by simpa using hs
  have hfed := feed_induction (e := e) (I := fun before s' => Taken P msgId D daos (text ++ before.flatten) s')
    (H := Refused P I D daos total) hstart
    (fun before b s' hb hs' => by
      have hb' : text ++ before.flatten ++ b <+: total := by
        obtain ⟨t, ht⟩ := hb
        refine List.IsPrefix.trans ⟨t.flatten, ?_⟩ hpre
        rw [List.nil_append] at ht
        rw [← ht]
        simp
      have hwrite := write_taken hI hD hm hb' hsound hs'
      simpa using hwrite)
  rcases hfed with ⟨heq, htaken⟩ | hstopped
  · rw [List.nil_append] at htaken
    exact .inl ⟨by rw [heq], by rw [heq], htaken⟩
  · exact .inr hstopped

/-- Closing the chain and destroying the sink, with the rest of the text still in the filters. -/
theorem destroyChain_taken {msgId : IdType} {daos : List AttachmentDao} {D : Db} {text : Bytes}
    {filters : AttachmentFilters P} {s : AttachmentSplittingSink} (hI : Keeps P I) (hD : I D) (hm : OfMessage D msgId daos)
    (hsound : Sound P daos (text ++ filters.close.output.flatten)) (hs : Taken P msgId D daos text s) :
    I (destroyChain P filters s).db := by
  have hfed := feed_taken (e := filters.close) hI hD hm (List.prefix_refl _) hsound hs
  unfold destroyChain
  rw [closeChain_sink]
  rcases hfed with ⟨-, -, htaken⟩ | ⟨hraised, hstopped⟩
  · split
    · exact ends_final.mp (destroy_taken hI hD hm hsound htaken)
    · exact destroySink_of_stopped (ends_final.mp ((close_taken hI hD hm hsound htaken).mono
        (fun _ _ h => h.1) (fun _ _ h => h.1)))
  · split
    · exact destroySink_of_stopped hstopped.1
    · next hnone => exact absurd hnone hraised

/-- The whole use of a stream for a block. -/
theorem useStream_taken {msgId : IdType} {daos : List AttachmentDao} {D : Db} {call : Call} (totalBytes : Nat)
    {filters : AttachmentFilters P} {s : AttachmentSplittingSink} (hI : Keeps P I) (hD : I D) (hm : OfMessage D msgId daos)
    (hempty : filters.close.output = []) (hsound : Sound P daos (streamText totalBytes call filters))
    (hs : Taken P msgId D daos [] s) : I (useStream P call totalBytes filters s).sink.db := by
  -- when nothing is written the text is empty
  have hnothing : streamText totalBytes call filters = [] → I (destroyChain P filters s).db := by
    intro htext
    rw [htext] at hsound
    exact destroyChain_taken hI hD hm (by rw [hempty]; exact hsound) hs
  unfold useStream
  by_cases htotal : totalBytes = 0
  · rw [if_neg (by omega)]
    exact hnothing (by simp [streamText, htotal])
  rw [if_pos (Nat.pos_of_ne_zero htotal)]
  by_cases hcancel : call.cancelledBeforeDownload = true
  · rw [if_pos hcancel]
    exact hnothing (by simp [streamText, hcancel])
  rw [if_neg hcancel]
  unfold streamText at hsound hnothing
  rw [if_neg (by simp [htotal, hcancel])] at hsound hnothing
  cases hanswer : call.answer with
  | error e =>
    rw [hanswer] at hnothing
    exact hnothing rfl
  | ok attachments =>
    rw [hanswer] at hsound
    dsimp only at hsound ⊢
    have htext : (filters.output attachments).flatten =
        (filters.write attachments).output.flatten ++ (filters.write attachments).state.close.output.flatten := by
      unfold AttachmentFilters.output
      rw [List.flatten_append]
    have hpre : [] ++ (filters.write attachments).output.flatten <+: (filters.output attachments).flatten := by
      rw [htext]
      exact List.prefix_append _ _
    rcases feed_taken (e := filters.write attachments) hI hD hm hpre hsound hs with ⟨-, hfilter, htaken⟩ | ⟨hraised, hstop⟩
    · have hdone : I (destroyChain P (feed (AttachmentSplittingSink.write P) (filters.write attachments) s).filter
          (feed (AttachmentSplittingSink.write P) (filters.write attachments) s).sink).db := by
        refine destroyChain_taken hI hD hm ?_ htaken
        rw [hfilter, List.nil_append, ← htext]
        exact hsound
      split
      · exact hdone
      · exact hdone
    · split
      · exact destroyChain_of_stopped hstop.1
      · next hnone => exact absurd hnone hraised

/-! ### One call -/

theorem ofMessage_allForMessage (db : Db) (msgId : IdType) :
    OfMessage db msgId (AttachmentDao.allForMessage db false msgId) := by
  have hall : ∀ a ∈ AttachmentDao.allForMessage db false msgId,
      a.row ∈ db.attachments ∧ a.row.draft = false ∧ a.row.messageId = msgId := by
    intro a ha
    unfold AttachmentDao.allForMessage at ha
    obtain ⟨r, hr, rfl⟩ := List.mem_map.mp ha
    rw [List.mem_insertionSort, Relational.Table.mem_select] at hr
    simpa [AttachmentDao.ofRow] using hr
  exact ⟨fun a ha => (hall a ha).1, fun a ha => (hall a ha).2⟩

variable (P) in
/-- The text of a call: that of its stream, if the stream is used at all. -/
def callText (s : State) (call : Call) (msgId : IdType) (msg : MessageDao) : Bytes :=
  match P.setKey msg.row.symmetricKey with
  | .error _ => []
  | .ok cipher =>
    if s.attachmentsBlocks.contains msgId then []
    else
      streamText ((AttachmentDao.allForMessage s.db false msg.row.id).map (fun dao => dao.row.size)).sum call
        (AttachmentFilters.new cipher)

variable (P) in
/-- A call that makes a stream gives it a sound text. -/
def CallSound (s : State) (call : Call) (msgId : IdType) : Prop :=
  ∀ msg, MessageDao.load s.db msgId false = some msg → AttachmentDao.allAttachmentsDownloaded s.db msgId = false →
    call.cancelledAtStart = false → call.cancelledBeforeStream = false →
    (newSink P s.db msgId matches .ok ..) →
    Sound P (AttachmentDao.allForMessage s.db false msgId) (callText P s call msgId msg)

/-- The stream of the first attachment is made when the sink is. -/
theorem newSink_taken {db : Db} {msgId : IdType} {u : Unit} {sink : AttachmentSplittingSink}
    (h : newSink P db msgId = .ok u sink) : Taken P msgId db (AttachmentDao.allForMessage db false msgId) [] sink := by
  have hmake := makeStream_taken (P := P) (I := fun _ => True) trivial (ofMessage_allForMessage db msgId)
    (s := { db := db, messageId := msgId, attachmentDaos := AttachmentDao.allForMessage db false msgId }) rfl
    (fun _ => rfl)
  unfold Ends at hmake
  unfold newSink at h
  rw [h] at hmake
  exact hmake

private theorem downloadWith_genuine {s : State} {call : Call} {msg : MessageDao} {totalBytes : Nat}
    {sink : AttachmentSplittingSink} {daos : List AttachmentDao} {text : Bytes} (hs : Genuine P s.db)
    (hm : OfMessage s.db msg.row.id daos) (htaken : Taken P msg.row.id s.db daos [] sink)
    (htext : text = match P.setKey msg.row.symmetricKey with
      | .error _ => []
      | .ok cipher =>
        if s.attachmentsBlocks.contains msg.row.id then []
        else streamText totalBytes call (AttachmentFilters.new cipher))
    (hsound : Sound P daos text) :
    Ends (downloadWith P call msg totalBytes sink) s (fun _ s' => Genuine P s'.db) (fun _ s' => Genuine P s'.db) := by
  unfold downloadWith
  dsimp only
  cases hkey : P.setKey msg.row.symmetricKey with
  | error e =>
    rw [hkey] at htext
    rw [htext] at hsound
    dsimp only
    rw [ends_bind, ends_modify, ends_throw]
    exact destroySink_of_stopped (ends_final.mp ((close_taken genuine_keeps hs hm hsound htaken).mono
      (fun _ _ h => h.1) (fun _ _ h => h.1)))
  | ok cipher =>
    rw [hkey] at htext
    have hclose : (AttachmentFilters.new cipher).close.output = [] := rfl
    dsimp only at htext ⊢
    rw [ends_bind, ends_get]
    by_cases hblock : s.attachmentsBlocks.contains msg.row.id = true
    · rw [if_pos hblock] at htext
      rw [if_pos hblock, ends_bind, ends_modify, ends_throw]
      exact destroyChain_taken genuine_keeps hs hm (by rw [hclose, List.flatten_nil, List.append_nil, ← htext]; exact hsound) htaken
    · rw [if_neg hblock] at htext
      rw [htext] at hsound
      have hused := useStream_taken totalBytes genuine_keeps hs hm hclose hsound htaken
      rw [if_neg hblock, ends_bind, ends_modify]
      split
      · split
        · exact hused
        · exact hused
      · rw [ends_bind, ends_modify]
        exact hused

/-- A call with a sound text leaves genuine contents, however it ends. -/
theorem downloadForMessage_genuine {s : State} {call : Call} {msgId : IdType} (hs : Genuine P s.db)
    (hsound : CallSound P s call msgId) : Genuine P (final (downloadForMessage P call msgId s)).db := by
  suffices h : Ends (downloadForMessage P call msgId) s (fun _ s' => Genuine P s'.db) (fun _ s' => Genuine P s'.db) from
    ends_final.mp h
  unfold downloadForMessage
  rw [ends_bind, ends_get]
  dsimp only
  cases hload : MessageDao.load s.db msgId false with
  | none => exact hs
  | some msg =>
    dsimp only
    have hid : msg.row.id = msgId := by
      unfold MessageDao.load at hload
      obtain ⟨r, hr, rfl⟩ := Option.map_eq_some_iff.mp hload
      exact congrArg Prod.fst (Relational.Table.key_of_find? hr)
    by_cases hall : AttachmentDao.allAttachmentsDownloaded s.db msgId = true
    · rw [if_pos hall]
      exact hs
    rw [if_neg hall]
    by_cases hstart : call.cancelledAtStart = true
    · rw [if_pos hstart]
      exact hs
    rw [if_neg hstart]
    by_cases hstream : call.cancelledBeforeStream = true
    · rw [if_pos hstream]
      exact hs
    rw [if_neg hstream]
    cases hsink : newSink P s.db msgId with
    | error e sink => exact hs
    | ok u sink =>
      have htext := hsound msg hload (Bool.eq_false_iff.mpr hall) (Bool.eq_false_iff.mpr hstart)
        (Bool.eq_false_iff.mpr hstream) (by rw [hsink])
      subst hid
      exact downloadWith_genuine hs (ofMessage_allForMessage s.db msg.row.id) (newSink_taken hsink) rfl htext

/-! ### Sequences of calls -/

/-- A call, of the same syncer as the one before or of a new one. -/
structure NextCall where
  newSyncer : Bool
  call : Call
  msgId : IdType

def NextCall.start (c : NextCall) (s : State) : State := if c.newSyncer then { db := s.db } else s

variable (P) in
/-- The state after a sequence of calls; what they raise is dealt with elsewhere. -/
def afterCalls : List NextCall → State → State
  | [], s => s
  | c :: cs, s => afterCalls cs (final (downloadForMessage P c.call c.msgId (c.start s)))

variable (P) in
def CallsSound : List NextCall → State → Prop
  | [], _ => True
  | c :: cs, s =>
    CallSound P (c.start s) c.call c.msgId ∧ CallsSound cs (final (downloadForMessage P c.call c.msgId (c.start s)))

/-- Whatever calls there are, with whatever answers, cancelled or failing anywhere: if their texts are sound, every
stored content is of its attachment's size and has its hash. -/
theorem afterCalls_genuine (calls : List NextCall) (s : State) (hs : Genuine P s.db) (hsound : CallsSound P calls s) :
    Genuine P (afterCalls P calls s).db := by
  induction calls generalizing s with
  | nil => exact hs
  | cons c cs ih =>
    have hstart : Genuine P (c.start s).db := by
      unfold NextCall.start
      split
      · exact hs
      · exact hs
    exact ih _ (downloadForMessage_genuine hstart hsound.1) hsound.2

/-! ### A block with and without the right tag -/

/-- The attachment of message 1, whose content is to be the bytes 1, 2 and 3. -/
def someAttachment : AttachmentRow where
  draft := false
  messageId := 1
  index := 0
  filename := "a"
  mimeType := "b"
  size := 3
  hash := "01020300000000000000000000000000000000000000000000000000000000000000000000000000000000000000000000000000000000000000000000000000"
  note := ""

def someAttachmentDb : Db where
  messages := ⟨[{ id := 1 }], by decide⟩
  attachments := ⟨[someAttachment], by decide⟩
  attachmentsContent := ⟨[⟨false, 1, 0, none⟩], by decide⟩

/-- One call for message 1. -/
def onlyCall (answer : Bytes) : List NextCall :=
  [{ newSyncer := true, call := { answer := .ok answer }, msgId := 1 }]

private theorem someAttachmentDb_genuine : Genuine StreamPlatform.transparent someAttachmentDb := by
  intro r hr _ bytes hbytes
  cases List.mem_singleton.mp hr
  have hnull : contentOf someAttachmentDb someAttachment.key = some none := by decide
  rw [hnull] at hbytes
  cases hbytes

private theorem someAttachment_isContent : IsContent StreamPlatform.transparent someAttachment [1, 2, 3] :=
  ⟨rfl, by
    set_option maxRecDepth 4000 in
    decide⟩

theorem afterCalls_genuine_rightTag :
    Genuine StreamPlatform.transparent
      (afterCalls StreamPlatform.transparent (onlyCall [1, 2, 3, 255, 0]) { db := someAttachmentDb }).db := by
  refine afterCalls_genuine _ _ someAttachmentDb_genuine ⟨fun msg hload _ _ _ _ => ?_, trivial⟩
  have hmsg : MessageDao.ofRow { id := 1 } = msg := Option.some.inj hload
  subst hmsg
  have hdaos : AttachmentDao.allForMessage someAttachmentDb false 1 = [AttachmentDao.ofRow someAttachment] := by
    rfl
  have htext : callText StreamPlatform.transparent { db := someAttachmentDb } { answer := .ok [1, 2, 3, 255, 0] } 1
      (MessageDao.ofRow { id := 1 }) = [1, 2, 3] := by
    rfl
  change Sound _ (AttachmentDao.allForMessage someAttachmentDb false 1) (callText StreamPlatform.transparent
    { db := someAttachmentDb } { answer := .ok [1, 2, 3, 255, 0] } 1 (MessageDao.ofRow { id := 1 }))
  rw [htext, hdaos]
  unfold Sound
  rw [if_neg (by decide), if_neg (by decide)]
  exact ⟨someAttachment_isContent, trivial⟩

/-- With a wrong tag, the first bytes stay: they are stored before the tag is looked at. -/
theorem afterCalls_wrongTag :
    Genuine StreamPlatform.transparent someAttachmentDb ∧
      ¬ Genuine StreamPlatform.transparent
        (afterCalls StreamPlatform.transparent (onlyCall [7, 8, 255, 9]) { db := someAttachmentDb }).db := by
  refine ⟨someAttachmentDb_genuine, fun h => ?_⟩
  have hmem : someAttachment ∈
      (afterCalls StreamPlatform.transparent (onlyCall [7, 8, 255, 9]) { db := someAttachmentDb }).db.attachments := by
    set_option maxRecDepth 4000 in
    exact List.mem_singleton.mpr rfl
  have hcontent := h someAttachment hmem rfl [7, 8, 0] (by
    set_option maxRecDepth 4000 in
    decide)
  have hhash := congrArg List.head? (Except.ok.inj hcontent.2)
  revert hhash
  decide

end AttachmentSyncer

end KulloClient
