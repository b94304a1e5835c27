import KulloClient.Sync.AttachmentContents

/-!
# What a download can change

Whatever the answer is and wherever it fails, a call of `downloadForMessage` only puts contents into rows of its own
message, and a content that is not NULL does not become NULL again.
-/

namespace KulloClient

open Imperative Pipeline

variable {P : StreamPlatform}

/-- The same messages and attachments, and contents that are there stay there. -/
structure Filled (D D' : Db) : Prop where
  messages : D'.messages = D.messages
  attachments : D'.attachments = D.attachments
  rows : ∀ k, (contentOf D' k).isSome = (contentOf D k).isSome
  missing : ∀ k, contentOf D' k = some none → contentOf D k = some none

/-- Only contents of one message are new. -/
structure FilledFor (msgId : IdType) (D D' : Db) : Prop extends Filled D D' where
  others : ∀ k : AttachmentKey, k.2.1 ≠ msgId → contentOf D' k = contentOf D k

theorem Filled.refl (D : Db) : Filled D D := ⟨rfl, rfl, fun _ => rfl, fun _ h => h⟩

theorem Filled.trans {D D' D'' : Db} (h : Filled D D') (h' : Filled D' D'') : Filled D D'' where
  messages := h'.messages.trans h.messages
  attachments := h'.attachments.trans h.attachments
  rows k := (h'.rows k).trans (h.rows k)
  missing k hk := h.missing k (h'.missing k hk)

theorem FilledFor.refl (msgId : IdType) (D : Db) : FilledFor msgId D D := ⟨.refl D, fun _ _ => rfl⟩

theorem FilledFor.trans {msgId : IdType} {D D' D'' : Db} (h : FilledFor msgId D D') (h' : FilledFor msgId D' D'') :
    FilledFor msgId D D'' :=
  ⟨h.toFilled.trans h'.toFilled, fun k hk => (h'.others k hk).trans (h.others k hk)⟩

private theorem setContent_filled (D : Db) (key : AttachmentKey) (content : Bytes) :
    FilledFor key.2.1 D (setContent D key content) where
  messages := rfl
  attachments := rfl
  rows k := isSome_contentOf_setContent D key k content
  missing k hk := by
    rw [contentOf_setContent] at hk
    split at hk
    · obtain ⟨c, -, hc⟩ := Option.map_eq_some_iff.mp hk
      cases hc
    · exact hk
  others k hk := by
    have hne : k ≠ key := by
      rintro rfl
      exact hk rfl
    rw [contentOf_setContent, if_neg hne]

/-- A step of the stream of one attachment. -/
structure FillsStream (p p' : AttachmentStream × Db) : Prop where
  messageId : p'.1.messageId = p.1.messageId
  db : FilledFor p.1.messageId p.2 p'.2

theorem FillsStream.of_db {p p' : AttachmentStream × Db} (h : p'.1.messageId = p.1.messageId) (hdb : p'.2 = p.2) :
    FillsStream p p' :=
  ⟨h, by rw [hdb]; exact .refl _ _⟩

instance : Std.Refl FillsStream := ⟨fun _ => .of_db rfl rfl⟩

instance : IsTrans (AttachmentStream × Db) FillsStream :=
  ⟨fun _ _ _ h h' => ⟨h'.messageId.trans h.messageId, h.db.trans (h.messageId ▸ h'.db)⟩⟩

/-- The current stream is one of the sink's message. -/
def OwnStream (s : AttachmentSplittingSink) : Prop := ∀ stream, s.stream = some stream → stream.messageId = s.messageId

/-- A step of the sink. -/
structure FillsSink (s s' : AttachmentSplittingSink) : Prop where
  messageId : s'.messageId = s.messageId
  db : OwnStream s → OwnStream s' ∧ FilledFor s.messageId s.db s'.db

theorem FillsSink.of_db {s s' : AttachmentSplittingSink} (h : s'.messageId = s.messageId) (hdb : s'.db = s.db)
    (hown : OwnStream s → OwnStream s') : FillsSink s s' :=
  ⟨h, fun hs => ⟨hown hs, by rw [hdb]; exact .refl _ _⟩⟩

instance : Std.Refl FillsSink := ⟨fun _ => .of_db rfl rfl (fun hs => hs)⟩

instance : IsTrans AttachmentSplittingSink FillsSink :=
  ⟨fun _ _ _ h h' => ⟨h'.messageId.trans h.messageId, fun hs =>
    ⟨(h'.db (h.db hs).1).1, (h.db hs).2.trans (h.messageId ▸ (h'.db (h.db hs).1).2)⟩⟩⟩

section frame

private theorem MessageAttachmentSink.openIfNotOpen_filled :
    Along FillsStream MessageAttachmentSink.openIfNotOpen := by
  intro p
  unfold MessageAttachmentSink.openIfNotOpen
  rw [ends_bind, ends_get]
  dsimp only
  split
  · exact refl p
  · split
    · exact refl p
    · exact ⟨rfl, setContent_filled p.2 p.1.key _⟩

private theorem MessageAttachmentSink.write_filled (buffer : Bytes) :
    Along FillsStream (MessageAttachmentSink.write buffer) := by
  refine along_bind MessageAttachmentSink.openIfNotOpen_filled (fun _ p => ?_)
  rw [ends_bind, ends_get]
  dsimp only
  split
  · exact refl p
  · exact ⟨rfl, setContent_filled p.2 p.1.key _⟩

private theorem MessageAttachmentSink.close_filled : Along FillsStream MessageAttachmentSink.close := by
  refine along_bind MessageAttachmentSink.openIfNotOpen_filled (fun _ p => ?_)
  rw [ends_bind, ends_get]
  dsimp only
  rw [ends_bind, ends_set]
  split
  · exact FillsStream.of_db rfl rfl
  · exact FillsStream.of_db rfl rfl

private theorem AttachmentStream.write_filled (buffer : Bytes) :
    Along FillsStream (AttachmentStream.write buffer) := by
  intro p
  unfold AttachmentStream.write HashVerifyingFilter.write
  rw [ends_bind, ends_get]
  dsimp only
  split
  · exact refl p
  · refine along_bind (R := FillsStream) (along_modify ?_) (fun _ => MessageAttachmentSink.write_filled buffer) p
    exact fun p => .of_db rfl rfl

private theorem AttachmentStream.close_filled : Along FillsStream (AttachmentStream.close P) := by
  intro p
  unfold AttachmentStream.close HashVerifyingFilter.close
  rw [ends_bind, ends_get]
  dsimp only
  split
  · exact refl p
  · refine along_bind (R := FillsStream) (along_modify ?_) (fun _ =>
      along_bind (fun p => ?_) (fun _ => MessageAttachmentSink.close_filled)) p
    · exact fun p => .of_db rfl rfl
    · rw [ends_bind, ends_get]
      split
      · exact refl p
      · exact refl p

private theorem AttachmentStream.destroy_filled : Along FillsStream (AttachmentStream.destroy P) := by
  intro p
  unfold AttachmentStream.destroy
  rw [ends_bind, ends_get]
  dsimp only
  split
  · exact refl p
  · rw [ends_tryCatch]
    exact (AttachmentStream.close_filled p).mono (fun _ _ h => h) (fun _ _ h => h)

namespace AttachmentSplittingSink

private theorem onStream_filled {s : AttachmentSplittingSink} {stream : AttachmentStream} {x : StreamM Unit}
    (hs : s.stream = some stream) (hx : Along FillsStream x) :
    Ends (onStream stream x) s (fun _ => FillsSink s) (fun _ => FillsSink s) := by
  have hstep : ∀ p, FillsStream (stream, s.db) p → FillsSink s { s with stream := some p.1, db := p.2 } := by
    intro p hp
    refine ⟨rfl, fun hown => ?_⟩
    have hid := hown stream hs
    refine ⟨?_, hid ▸ hp.db⟩
    rintro _ ⟨⟩
    exact hp.messageId.trans hid
  rw [ends_onStream]
  exact (hx (stream, s.db)).mono (fun _ p hp => hstep p hp) (fun _ p hp => hstep p hp)

private theorem makeStream_filled : Along FillsSink (makeStream P) := by
  intro s
  unfold makeStream
  rw [ends_bind, ends_get]
  cases s.attachmentDaos with
  | nil => exact refl s
  | cons dao daos =>
    dsimp only
    rw [ends_bind, ends_set]
    split
    · exact .of_db rfl rfl (fun hs => hs)
    · exact .of_db rfl rfl (fun hs => hs)
    · split
      · exact .of_db rfl rfl (fun hs => hs)
      · refine .of_db rfl rfl (fun _ => ?_)
        rintro _ ⟨⟩
        rfl

private theorem closeStream_filled : Along FillsSink (closeStream P) := by
  intro s
  unfold closeStream
  rw [ends_bind, ends_get]
  cases hs : s.stream with
  | none => exact refl s
  | some stream =>
    refine (onStream_filled hs AttachmentStream.close_filled).bind_along (fun _ => along_modify (fun s => ?_))
    refine .of_db rfl rfl (fun _ => ?_)
    rintro _ ⟨⟩

private theorem writeRound_filled (buffer : Bytes) : Along FillsSink (writeRound P buffer) := by
  intro s
  unfold writeRound
  rw [ends_bind, ends_get]
  dsimp only
  cases hs : s.stream with
  | none => exact refl s
  | some stream =>
    dsimp only
    split
    · exact refl s
    · refine (onStream_filled hs (AttachmentStream.write_filled _)).bind_along (fun _ =>
        along_bind (along_modify fun s => .of_db rfl rfl (fun hs => hs)) (fun _ => ?_))
      split
      · exact along_bind closeStream_filled (fun _ => along_bind makeStream_filled (fun _ => along_pure _))
      · exact along_pure _

private theorem writeLoop_filled (n : Nat) (buffer : Bytes) : Along FillsSink (writeLoop P n buffer) := by
  induction n generalizing buffer with
  | zero => exact along_pure _
  | succ n ih =>
    refine along_bind (writeRound_filled buffer) (fun result => ?_)
    obtain ⟨more, rest⟩ := result
    dsimp only
    split
    · exact ih rest
    · exact along_pure _

private theorem write_filled (buffer : Bytes) : Along FillsSink (write P buffer) := by
  refine along_bind along_get (fun s => ?_)
  have hrest : Along FillsSink (do
        let bytesLeft ← writeLoop P ((← get).attachmentDaos.length + 2) buffer
        if !bytesLeft.isEmpty then
          throw (.databaseIntegrityError "AttachmentSplittingSink: stream is too long") : SinkM Unit) := by
    refine along_bind along_get (fun s => along_bind (writeLoop_filled _ buffer) (fun left => ?_))
    split
    · exact along_throw _
    · exact along_pure _
  split
  · exact along_bind makeStream_filled (fun _ => hrest)
  · exact hrest

private theorem closeLoop_filled (daos : List AttachmentDao) : Along FillsSink (closeLoop P daos) := by
  induction daos with
  | nil =>
    refine along_bind along_get (fun s => ?_)
    split
    · exact along_bind closeStream_filled (fun _ => makeStream_filled)
    · exact along_pure _
  | cons dao daos ih =>
    refine along_bind along_get (fun s => ?_)
    split
    · exact along_bind closeStream_filled (fun _ => along_bind makeStream_filled (fun _ => ih))
    · exact along_pure _

private theorem close_filled : Along FillsSink (close P) := by
  refine along_bind along_get (fun s => along_bind (closeLoop_filled _) (fun _ =>
    along_bind closeStream_filled (fun _ => along_bind along_get (fun s => ?_))))
  split
  · exact along_throw _
  · exact along_pure _

private theorem destroy_filled : Along FillsSink (destroy P) := by
  intro s
  unfold destroy
  rw [ends_bind, ends_get]
  cases hs : s.stream with
  | none => exact refl s
  | some stream => exact onStream_filled hs AttachmentStream.destroy_filled

end AttachmentSplittingSink

end frame

namespace AttachmentSyncer

private theorem feed_filled {F : Type} (e : Emission Exn Bytes F) (s : AttachmentSplittingSink) :
    FillsSink s (feed (AttachmentSplittingSink.write P) e s).sink :=
  feed_keeps (I := FillsSink s) e (refl s) (fun b s' hs' =>
    (AttachmentSplittingSink.write_filled b s').mono (fun _ _ h => trans_of FillsSink hs' h)
      (fun _ _ h => trans_of FillsSink hs' h))

private theorem destroySink_filled (s : AttachmentSplittingSink) : FillsSink s (destroySink P s) :=
  ends_final.mp (AttachmentSplittingSink.destroy_filled s)

private theorem closeSink_filled (s : AttachmentSplittingSink) : FillsSink s (final (AttachmentSplittingSink.close P s)) :=
  ends_final.mp (AttachmentSplittingSink.close_filled s)

private theorem closeChain_filled (filters : AttachmentFilters P) (s : AttachmentSplittingSink) :
    FillsSink s (closeChain P filters s).2 := by
  have hfed := feed_filled (P := P) filters.close s
  rw [closeChain_sink]
  split
  · exact hfed
  · exact trans_of FillsSink hfed (closeSink_filled _)

private theorem destroyChain_filled (filters : AttachmentFilters P) (s : AttachmentSplittingSink) :
    FillsSink s (destroyChain P filters s) :=
  trans_of FillsSink (closeChain_filled filters s) (destroySink_filled _)

private theorem useStream_filled (call : Call) (totalBytes : Nat) (filters : AttachmentFilters P)
    (s : AttachmentSplittingSink) : FillsSink s (useStream P call totalBytes filters s).sink := by
  unfold useStream
  split
  · split
    · exact destroyChain_filled filters s
    · split
      · exact destroyChain_filled filters s
      · dsimp only
        split
        · exact trans_of FillsSink (feed_filled _ s) (destroyChain_filled _ _)
        · exact trans_of FillsSink (feed_filled _ s) (destroyChain_filled _ _)
  · exact destroyChain_filled filters s

/-- What a call for a message does to the state of the syncer. -/
structure Called (msgId : IdType) (s s' : State) : Prop where
  db : FilledFor msgId s.db s'.db
  blocks : ∀ b ∈ s'.attachmentsBlocks, b ∈ s.attachmentsBlocks ∨ b = msgId

theorem Called.refl (msgId : IdType) (s : State) : Called msgId s s := ⟨.refl msgId s.db, fun _ h => .inl h⟩

/-- A new sink, for which every step fills contents of its message. -/
theorem newSink_filled {db : Db} {msgId : IdType} {u : Unit} {sink sink' : AttachmentSplittingSink}
    (h : newSink P db msgId = .ok u sink) (hstep : FillsSink sink sink') : FilledFor msgId db sink'.db := by
  have hnew := trans_of FillsSink (AttachmentSplittingSink.makeStream_filled.of_ok h) hstep
  refine (hnew.db ?_).2
  rintro _ ⟨⟩

private theorem downloadWith_called {call : Call} {msg : MessageDao} {totalBytes : Nat} {sink : AttachmentSplittingSink}
    {s : State} (hs : newSink P s.db msg.row.id = .ok () sink) :
    Ends (downloadWith P call msg totalBytes sink) s (fun _ s' => Called msg.row.id s s')
      (fun _ s' => Called msg.row.id s s') := by
  unfold downloadWith
  dsimp only
  split
  · rw [ends_bind, ends_modify, ends_throw]
    have hclosed := trans_of FillsSink (closeSink_filled (P := P) sink) (destroySink_filled (P := P) _)
    exact ⟨newSink_filled hs hclosed, fun _ h => .inl h⟩
  · next cipher hkey =>
    rw [ends_bind, ends_get]
    split
    · rw [ends_bind, ends_modify, ends_throw]
      exact ⟨newSink_filled hs (destroyChain_filled _ sink), fun _ h => .inl h⟩
    · have hused : Called msg.row.id s { s with
          db := (useStream P call totalBytes (AttachmentFilters.new cipher) sink).sink.db,
          attachmentsBlocks := s.attachmentsBlocks ++ [msg.row.id] } :=
        ⟨newSink_filled hs (useStream_filled _ _ _ sink), fun b hb => by simpa using hb⟩
      rw [ends_bind, ends_modify]
      split
      · split
        · exact hused
        · exact hused
      · rw [ends_bind, ends_modify]
        exact ⟨hused.db, hused.blocks⟩

theorem load_id {db : Db} {id : IdType} {old : Old} {msg : MessageDao} (h : MessageDao.load db id old = some msg) :
    msg.row.id = id := by
  unfold MessageDao.load at h
  obtain ⟨r, hr, rfl⟩ := Option.map_eq_some_iff.mp h
  exact congrArg Prod.fst (Relational.Table.key_of_find? hr)

theorem downloadForMessage_called (call : Call) (msgId : IdType) (s : State) :
    Ends (downloadForMessage P call msgId) s (fun _ s' => Called msgId s s') (fun _ s' => Called msgId s s') := by
  unfold downloadForMessage
  rw [ends_bind, ends_get]
  dsimp only
  cases hload : MessageDao.load s.db msgId false with
  | none => exact .refl msgId s
  | some msg =>
    dsimp only
    split
    · exact .refl msgId s
    · split
      · exact .refl msgId s
      · split
        · exact .refl msgId s
        · split
          · exact .refl msgId s
          · next hsink =>
            obtain rfl := load_id hload
            exact downloadWith_called hsink

end AttachmentSyncer

end KulloClient
