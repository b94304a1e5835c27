import KulloClient.Codec.AttachmentSplittingSink

/-!
# What the splitting sink stores

The sink is given the text of a block in pieces.  `Taken` says in which state it is after a text it could take: some
attachments are complete, and the next one has the rest of the text.  A sink that raised is `Dead`: no call changes the
database any more.
-/

namespace KulloClient

open Imperative

variable (P : StreamPlatform)

/-! ### Contents -/

/-- The bytes are what the row promises: of its size, and with its hash. -/
def IsContent (r : AttachmentRow) (bytes : Bytes) : Prop :=
  bytes.length = r.size ∧ P.hexDecode r.hash = .ok (P.sha512 bytes)

/-- Every message attachment whose content is not NULL is genuine. -/
def Genuine (db : Db) : Prop :=
  ∀ r ∈ db.attachments, r.draft = false → ∀ bytes, contentOf db r.key = some (some bytes) → IsContent P r bytes

theorem isSome_contentOf_setContent (db : Db) (key k : AttachmentKey) (content : Bytes) :
    (contentOf (setContent db key content) k).isSome = (contentOf db k).isSome := by
  rw [contentOf_setContent]
  split <;> simp

theorem Genuine.setContent {db : Db} {r : AttachmentRow} {bytes : Bytes} (h : Genuine P db) (hr : r ∈ db.attachments)
    (hbytes : IsContent P r bytes) : Genuine P (setContent db r.key bytes) := by
  intro r' hr' hdraft bytes' hc
  rw [contentOf_setContent] at hc
  split at hc
  · next hkey =>
    obtain ⟨c, -, hc⟩ := Option.map_eq_some_iff.mp hc
    cases hc
    rw [Relational.Table.eq_of_key_eq hr' hr hkey]
    exact hbytes
  · exact h r' hr' hdraft bytes' hc

/-- The zeros behind what has been written so far. -/
def padded (r : AttachmentRow) (bytes : Bytes) : Bytes := bytes ++ zeroblob (r.size - bytes.length)

private theorem overwrite_padded {r : AttachmentRow} {bytes buffer : Bytes} (h : bytes.length + buffer.length ≤ r.size) :
    overwrite (padded r bytes) bytes.length buffer = padded r (bytes ++ buffer) := by
  unfold overwrite padded zeroblob
  rw [List.take_left, List.drop_append, List.drop_of_length_le (by omega), List.length_append, List.drop_replicate]
  simp only [List.nil_append, List.append_assoc]
  congr 3
  omega

/-! ### The stream of one attachment -/

/-- The stream of an attachment and the database `D`, before and after the blob is opened, with what was written. -/
inductive StreamAt (D : Db) (r : AttachmentRow) (hash : Bytes) : Bytes → AttachmentStream → Db → Prop
  | fresh : StreamAt D r hash [] { messageId := r.messageId, index := r.index, size := r.size, expectedHash := hash } D
  | opened (bytes : Bytes) (hrow : contentOf D r.key ≠ none) :
    StreamAt D r hash bytes
      { messageId := r.messageId, index := r.index, size := r.size, expectedHash := hash, hashed := bytes,
        bytesWritten := some bytes.length }
      (setContent D r.key (padded r bytes))

variable {P} {D db : Db} {r : AttachmentRow} {hash bytes buffer : Bytes} {stream : AttachmentStream}

theorem StreamAt.key (h : StreamAt D r hash bytes stream db) (hd : r.draft = false) : stream.key = r.key := by
  unfold AttachmentStream.key AttachmentRow.key
  cases h <;> simp [hd]

theorem StreamAt.closed (h : StreamAt D r hash bytes stream db) : stream.closed = false := by
  cases h <;> rfl

theorem openIfNotOpen_of_none (stream : AttachmentStream) (db : Db) (h : contentOf db stream.key = none)
    (hb : stream.bytesWritten = none) :
    MessageAttachmentSink.openIfNotOpen (stream, db) =
      .error (.sqliteException "query returned no rows") (stream, db) := by
  have hnone : db.attachmentsContent.find? stream.key = none := by simpa [contentOf] using h
  unfold MessageAttachmentSink.openIfNotOpen
  simp only [bind_apply, get_apply, hb, hnone, throw_apply]

theorem openIfNotOpen_of_some {c : Option Bytes} (h : contentOf db stream.key = some c)
    (hb : stream.bytesWritten = none) :
    MessageAttachmentSink.openIfNotOpen (stream, db) =
      .ok () ({ stream with bytesWritten := some 0 }, setContent db stream.key (zeroblob stream.size)) := by
  obtain ⟨row, hrow, -⟩ := Option.map_eq_some_iff.mp h
  unfold MessageAttachmentSink.openIfNotOpen
  simp only [bind_apply, get_apply, hb, hrow, set_apply]

theorem openIfNotOpen_of_open {n : Nat} (hb : stream.bytesWritten = some n) :
    MessageAttachmentSink.openIfNotOpen (stream, db) = .ok () (stream, db) := by
  unfold MessageAttachmentSink.openIfNotOpen
  simp only [bind_apply, get_apply, hb, pure_apply]

/-- Opening the blob in any position; what was hashed and whether the chain is closed does not matter. -/
theorem StreamAt.open {c : Option Bytes} (h : StreamAt D r hash bytes stream db) (hd : r.draft = false)
    (hrow : contentOf D r.key = some c) (hashed : Bytes) (closed : Bool) :
    MessageAttachmentSink.openIfNotOpen
        (⟨r.messageId, r.index, r.size, hash, hashed, stream.bytesWritten, closed⟩, db) =
      .ok () (⟨r.messageId, r.index, r.size, hash, hashed, some bytes.length, closed⟩,
        setContent D r.key (padded r bytes)) := by
  have hkey := h.key hd
  cases h with
  | fresh =>
    rw [openIfNotOpen_of_some (c := c) (hkey ▸ hrow) rfl]
    simp only [padded, List.nil_append, List.length_nil, Nat.sub_zero]
    rw [← hkey]
    rfl
  | opened => exact openIfNotOpen_of_open rfl

private theorem StreamAt.eq_mk (h : StreamAt D r hash bytes stream db) :
    stream = ⟨r.messageId, r.index, r.size, hash, bytes, stream.bytesWritten, false⟩ := by
  cases h <;> rfl

private theorem contentOf_setContent_self {c : Option Bytes} (hrow : contentOf D r.key = some c) (content : Bytes) :
    contentOf (setContent D r.key content) r.key = some (some content) := by
  rw [contentOf_setContent, if_pos rfl, hrow]
  rfl

private theorem key_mk (hd : r.draft = false) (hashed : Bytes) (n : Option Nat) (closed : Bool) :
    AttachmentStream.key ⟨r.messageId, r.index, r.size, hash, hashed, n, closed⟩ = r.key := by
  simp [AttachmentStream.key, AttachmentRow.key, hd]

/-- Writing bytes that fit. -/
theorem StreamAt.write {c : Option Bytes} (h : StreamAt D r hash bytes stream db) (hd : r.draft = false)
    (hrow : contentOf D r.key = some c) (hfit : bytes.length + buffer.length ≤ r.size) :
    ∃ stream' db', AttachmentStream.write buffer (stream, db) = .ok () (stream', db') ∧
      StreamAt D r hash (bytes ++ buffer) stream' db' := by
  refine ⟨_, _, ?_, .opened (bytes ++ buffer) (by simp [hrow])⟩
  obtain ⟨row, hfind, hcontent⟩ := Option.map_eq_some_iff.mp (contentOf_setContent_self hrow (padded r bytes))
  have hnofit : ¬ r.size < bytes.length + buffer.length := Nat.not_lt.mpr hfit
  rw [h.eq_mk]
  unfold AttachmentStream.write HashVerifyingFilter.write MessageAttachmentSink.write
  simp only [bind_apply, get_apply, Bool.false_eq_true, if_false, modify_apply, h.open hd hrow, if_neg hnofit, Option.getD_some,
    key_mk hd, hfind, set_apply, Option.bind_some, hcontent, overwrite_padded hfit,
    setContent_setContent, List.length_append]

private theorem StreamAt.close_of_mismatch (h : StreamAt D r hash bytes stream db) (hne : P.sha512 bytes ≠ hash) :
    ∃ stream', AttachmentStream.close P (stream, db) = .error .hashDoesntMatch (stream', db) ∧
      stream'.closed = true := by
  refine ⟨{ stream with closed := true }, ?_, rfl⟩
  rw [h.eq_mk]
  unfold AttachmentStream.close HashVerifyingFilter.close
  simp only [bind_apply, get_apply, Bool.false_eq_true, if_false, modify_apply, ne_eq, hne, not_false_iff, if_true, throw_apply]

/-- Closing a stream whose hash is right: the blob is opened if it is not, and must have been filled. -/
theorem StreamAt.close_of_match {c : Option Bytes} (h : StreamAt D r hash bytes stream db) (hd : r.draft = false)
    (hrow : contentOf D r.key = some c) (heq : P.sha512 bytes = hash) :
    ∃ stream', stream'.closed = true ∧
      if bytes.length < r.size then
        ∃ e, AttachmentStream.close P (stream, db) = .error e (stream', setContent D r.key (padded r bytes))
      else AttachmentStream.close P (stream, db) = .ok () (stream', setContent D r.key (padded r bytes)) := by
  refine ⟨⟨r.messageId, r.index, r.size, hash, bytes, none, true⟩, rfl, ?_⟩
  rw [h.eq_mk]
  unfold AttachmentStream.close HashVerifyingFilter.close MessageAttachmentSink.close
  simp only [bind_apply, get_apply, Bool.false_eq_true, if_false, pure_apply, modify_apply, heq, ne_eq, not_true,
    h.open hd hrow, set_apply, Option.getD_some]
  by_cases hlt : bytes.length < r.size
  · simp only [if_pos hlt, throw_apply]
    exact ⟨_, rfl⟩
  · simp only [if_neg hlt, pure_apply]

private theorem StreamAt.close_of_noRow (h : StreamAt D r hash [] stream D) (hd : r.draft = false)
    (hopen : stream.bytesWritten = none) (hrow : contentOf D r.key = none) (heq : P.sha512 [] = hash) :
    ∃ e stream', AttachmentStream.close P (stream, D) = .error e (stream', D) ∧ stream'.closed = true := by
  refine ⟨.sqliteException "query returned no rows", { stream with closed := true }, ?_, rfl⟩
  rw [h.eq_mk, hopen]
  unfold AttachmentStream.close HashVerifyingFilter.close MessageAttachmentSink.close
  have hnone : MessageAttachmentSink.openIfNotOpen
      (⟨r.messageId, r.index, r.size, hash, [], none, true⟩, D) = _ :=
    openIfNotOpen_of_none _ _ (by rw [key_mk hd]; exact hrow) rfl
  simp only [bind_apply, get_apply, Bool.false_eq_true, if_false, pure_apply, modify_apply, heq, ne_eq, not_true, hnone]

/-! ### A sink that raised -/

variable (P) in
/-- A sink that has no more attachments to write to, or that cannot write to the next one. -/
def Dead (s : AttachmentSplittingSink) : Prop :=
  match s.stream with
  | none => ∀ dao ∈ s.attachmentDaos.head?, ∀ h, P.hexDecode dao.row.hash = .ok h →
      h.length ≠ AttachmentSplittingSink.hashLength
  | some stream => stream.closed = true ∨ (contentOf s.db stream.key = none ∧ stream.bytesWritten = none)

/-- A dead sink stays so, and the database stays as it is. -/
def StaysDead (s s' : AttachmentSplittingSink) : Prop := Dead P s' ∧ s'.db = s.db

private theorem makeStream_of_dead {s : AttachmentSplittingSink} (hs : Dead P s) (hnone : s.stream = none) :
    Ends (AttachmentSplittingSink.makeStream P) s (fun _ s' => s' = s) (fun _ s' => StaysDead (P := P) s s') := by
  unfold Dead at hs
  rw [hnone] at hs
  unfold AttachmentSplittingSink.makeStream
  rw [ends_bind, ends_get]
  cases hdaos : s.attachmentDaos with
  | nil => rfl
  | cons dao daos =>
    have hbad := hs dao (by simp [hdaos])
    have hdead : StaysDead (P := P) s { s with bytesLeftInCurrentStream := dao.row.size } := by
      refine ⟨?_, rfl⟩
      unfold Dead
      dsimp only
      rw [hnone]
      simpa [hdaos] using hbad
    dsimp only
    rw [hdaos] at hdead
    rw [ends_bind, ends_set]
    split
    · exact hdead
    · exact hdead
    · next h hdecode =>
      rw [if_pos (hbad h hdecode)]
      exact hdead

/-- The streams of dead sinks: every call raises and leaves the database alone. -/
def DeadStream (stream : AttachmentStream) (db : Db) : Prop :=
  stream.closed = true ∨ (contentOf db stream.key = none ∧ stream.bytesWritten = none)

private theorem write_of_deadStream {stream : AttachmentStream} {db : Db} (h : DeadStream stream db) (buffer : Bytes) :
    ∃ e stream', AttachmentStream.write buffer (stream, db) = .error e (stream', db) ∧ DeadStream stream' db := by
  unfold AttachmentStream.write
  by_cases hc : stream.closed = true
  · refine ⟨.assertionFailed "!closed_", stream, ?_, h⟩
    simp only [bind_apply, get_apply, hc, if_true, throw_apply]
  · obtain ⟨hrow, hopen⟩ := h.resolve_left hc
    have hnone := openIfNotOpen_of_none { stream with hashed := stream.hashed ++ buffer } db hrow hopen
    refine ⟨.sqliteException "query returned no rows", { stream with hashed := stream.hashed ++ buffer }, ?_,
      .inr ⟨hrow, hopen⟩⟩
    unfold HashVerifyingFilter.write MessageAttachmentSink.write
    simp only [bind_apply, get_apply, Bool.eq_false_iff.mpr hc, Bool.false_eq_true, if_false, modify_apply] at hnone ⊢
    rw [hnone]

private theorem close_of_deadStream {stream : AttachmentStream} {db : Db} (h : DeadStream stream db) :
    ∃ e stream', AttachmentStream.close P (stream, db) = .error e (stream', db) ∧ DeadStream stream' db := by
  unfold AttachmentStream.close
  by_cases hc : stream.closed = true
  · refine ⟨.assertionFailed "!closed_", stream, ?_, h⟩
    simp only [bind_apply, get_apply, hc, if_true, throw_apply]
  · obtain ⟨hrow, hopen⟩ := h.resolve_left hc
    have hnone := openIfNotOpen_of_none { stream with closed := true } db hrow hopen
    unfold HashVerifyingFilter.close MessageAttachmentSink.close
    simp only [bind_apply, get_apply, Bool.eq_false_iff.mpr hc, Bool.false_eq_true, if_false, modify_apply]
    by_cases hhash : P.sha512 stream.hashed = stream.expectedHash
    · refine ⟨.sqliteException "query returned no rows", { stream with closed := true }, ?_, .inl rfl⟩
      simp only [hhash, ne_eq, not_true, if_false, pure_apply] at hnone ⊢
      rw [hnone]
    · refine ⟨.hashDoesntMatch, { stream with closed := true }, ?_, .inl rfl⟩
      simp only [hhash, ne_eq, not_false_iff, if_true, throw_apply]

/-- A step of the current stream, as a step of the sink. -/
theorem ends_onStream {s : AttachmentSplittingSink} {stream : AttachmentStream} {x : StreamM Unit}
    {post : Unit → AttachmentSplittingSink → Prop} {raised : Exn → AttachmentSplittingSink → Prop} :
    Ends (AttachmentSplittingSink.onStream stream x) s post raised ↔
      Ends x (stream, s.db) (fun a p => post a { s with stream := some p.1, db := p.2 })
        (fun e p => raised e { s with stream := some p.1, db := p.2 }) := by
  unfold Ends AttachmentSplittingSink.onStream
  dsimp only
  cases x (stream, s.db) <;> rfl

private theorem onStream_of_deadStream {s : AttachmentSplittingSink} {stream : AttachmentStream} {x : StreamM Unit}
    (h : ∃ e stream', x (stream, s.db) = .error e (stream', s.db) ∧ DeadStream stream' s.db) :
    Ends (AttachmentSplittingSink.onStream stream x) s (fun _ _ => False) (fun _ s' => StaysDead (P := P) s s') := by
  obtain ⟨e, stream', hx, hdead⟩ := h
  rw [ends_onStream]
  exact Ends.of_eq_error hx ⟨hdead, rfl⟩

theorem StaysDead.refl {s : AttachmentSplittingSink} (h : Dead P s) : StaysDead (P := P) s s := ⟨h, rfl⟩

private theorem closeStream_of_dead {s : AttachmentSplittingSink} (hs : Dead P s) :
    Ends (AttachmentSplittingSink.closeStream P) s (fun _ s' => s' = s ∧ s.stream = none)
      (fun _ s' => StaysDead (P := P) s s') := by
  unfold AttachmentSplittingSink.closeStream
  rw [ends_bind, ends_get]
  cases hstream : s.stream with
  | none => exact ⟨rfl, rfl⟩
  | some stream =>
    have hdead : DeadStream stream s.db := by
      unfold Dead at hs
      rwa [hstream] at hs
    dsimp only
    rw [ends_bind]
    exact (onStream_of_deadStream (close_of_deadStream hdead)).mono (fun _ _ h => h.elim) (fun _ _ h => h)

theorem write_of_dead {s : AttachmentSplittingSink} (hs : Dead P s) (buffer : Bytes) :
    Ends (AttachmentSplittingSink.write P buffer) s (fun _ s' => StaysDead (P := P) s s')
      (fun _ s' => StaysDead (P := P) s s') := by
  -- a dead stream raises at every write, and without a stream nothing is written
  have hround : Ends (AttachmentSplittingSink.writeRound P buffer) s (fun a s' => a.1 = false ∧ s' = s)
      (fun _ s' => StaysDead (P := P) s s') := by
    unfold AttachmentSplittingSink.writeRound
    rw [ends_bind, ends_get]
    cases hstream : s.stream with
    | none => exact ⟨rfl, rfl⟩
    | some stream =>
      dsimp only
      have hdead : DeadStream stream s.db := by
        unfold Dead at hs
        rwa [hstream] at hs
      split
      · exact ⟨rfl, rfl⟩
      · rw [ends_bind]
        exact (onStream_of_deadStream (write_of_deadStream hdead _)).mono (fun _ _ h => h.elim) (fun _ _ h => h)
  have hloop : ∀ n, Ends (AttachmentSplittingSink.writeLoop P n buffer) s (fun _ s' => s' = s)
      (fun _ s' => StaysDead (P := P) s s') := by
    intro n
    cases n with
    | zero => rfl
    | succ n =>
      unfold AttachmentSplittingSink.writeLoop
      rw [ends_bind]
      refine hround.mono (fun a s' h => ?_) (fun _ _ h => h)
      obtain ⟨hmore, rfl⟩ := h
      obtain ⟨more, rest⟩ := a
      cases hmore
      rfl
  have hrest : Ends (do
        let bytesLeft ← AttachmentSplittingSink.writeLoop P ((← get).attachmentDaos.length + 2) buffer
        if !bytesLeft.isEmpty then
          throw (.databaseIntegrityError "AttachmentSplittingSink: stream is too long") : SinkM Unit) s
      (fun _ s' => StaysDead (P := P) s s') (fun _ s' => StaysDead (P := P) s s') := by
    rw [ends_bind, ends_get, ends_bind]
    refine (hloop _).mono (fun bytesLeft s' h => ?_) (fun _ _ h => h)
    subst h
    split
    · exact .refl hs
    · exact .refl hs
  unfold AttachmentSplittingSink.write
  rw [ends_bind, ends_get]
  dsimp only
  split
  · next hnone =>
    rw [ends_bind]
    refine (makeStream_of_dead hs (Option.isNone_iff_eq_none.mp hnone)).mono (fun _ s' h => ?_) (fun _ _ h => h)
    subst h
    exact hrest
  · exact hrest

private theorem closeLoop_of_dead {s : AttachmentSplittingSink} (hs : Dead P s) (daos : List AttachmentDao) :
    Ends (AttachmentSplittingSink.closeLoop P daos) s (fun _ s' => s' = s) (fun _ s' => StaysDead (P := P) s s') := by
  have hstep : s.stream.isSome = true → ∀ k : SinkM Unit, Ends (do
        AttachmentSplittingSink.closeStream P
        k : SinkM Unit) s (fun _ s' => s' = s) (fun _ s' => StaysDead (P := P) s s') := by
    intro hsome k
    rw [ends_bind]
    refine (closeStream_of_dead hs).mono (fun _ s' h => ?_) (fun _ _ h => h)
    rw [h.2] at hsome
    cases hsome
  cases daos with
  | nil =>
    unfold AttachmentSplittingSink.closeLoop
    rw [ends_bind, ends_get]
    split
    · next hc => exact hstep (Bool.and_elim_left hc) _
    · rfl
  | cons dao daos =>
    unfold AttachmentSplittingSink.closeLoop
    rw [ends_bind, ends_get]
    split
    · next hc => exact hstep (Bool.and_elim_left hc) _
    · rfl

theorem close_of_dead {s : AttachmentSplittingSink} (hs : Dead P s) :
    Ends (AttachmentSplittingSink.close P) s (fun _ s' => StaysDead (P := P) s s')
      (fun _ s' => StaysDead (P := P) s s') := by
  unfold AttachmentSplittingSink.close
  rw [ends_bind, ends_get, ends_bind]
  refine (closeLoop_of_dead hs _).mono (fun _ s' h => ?_) (fun _ _ h => h)
  subst h
  rw [ends_bind]
  refine (closeStream_of_dead hs).mono (fun _ s' h => ?_) (fun _ _ h => h)
  obtain ⟨rfl, -⟩ := h
  rw [ends_bind, ends_get]
  split
  · exact .refl hs
  · exact .refl hs

theorem destroy_of_dead {s : AttachmentSplittingSink} (hs : Dead P s) :
    Ends (AttachmentSplittingSink.destroy P) s (fun _ s' => s'.db = s.db) (fun _ s' => s'.db = s.db) := by
  unfold AttachmentSplittingSink.destroy
  rw [ends_bind, ends_get]
  cases hstream : s.stream with
  | none => rfl
  | some stream =>
    have hdead : DeadStream stream s.db := by
      unfold Dead at hs
      rwa [hstream] at hs
    dsimp only
    obtain ⟨e, stream', hclose, -⟩ := close_of_deadStream (P := P) hdead
    rw [ends_onStream]
    unfold AttachmentStream.destroy
    rw [ends_bind, ends_get]
    dsimp only
    split
    · rfl
    · rw [ends_tryCatch]
      exact Ends.of_eq_error hclose rfl

/-! ### The text of a block -/

variable (P) in
/-- The text fills the attachments with what they promise, as far as it goes: where it ends within an attachment, the
zeros behind it make the content genuine, and an attachment it does not reach has the hash of nothing only if its
zeros do. -/
def Sound : List AttachmentDao → Bytes → Prop
  | [], _ => True
  | a :: rest, text =>
    if text = [] then P.hexDecode a.row.hash = .ok (P.sha512 []) → IsContent P a.row (zeroblob a.row.size) ∧ Sound rest []
    else if text.length < a.row.size then IsContent P a.row (padded a.row text)
    else IsContent P a.row (text.take a.row.size) ∧ Sound rest (text.drop a.row.size)

variable (P) in
/-- The state of a sink that took a text: for the attachments it began with and the database then. -/
inductive Taken (msgId : IdType) : Db → List AttachmentDao → Bytes → AttachmentSplittingSink → Prop
  | finished (D : Db) : Taken msgId D [] [] { db := D, messageId := msgId, attachmentDaos := [] }
  | current {D db : Db} {a : AttachmentDao} {rest : List AttachmentDao} {hash bytes : Bytes} {stream : AttachmentStream}
    (hat : StreamAt D a.row hash bytes stream db) (hleft : bytes.length < a.row.size ∨ bytes = [])
    (hopen : bytes = [] → stream.bytesWritten = none) (hdecode : P.hexDecode a.row.hash = .ok hash) :
    Taken msgId D (a :: rest) bytes
      { db := db, messageId := msgId, attachmentDaos := rest, stream := some stream,
        bytesLeftInCurrentStream := a.row.size - bytes.length }
  | filled {D : Db} {a : AttachmentDao} {rest : List AttachmentDao} {text : Bytes} {s : AttachmentSplittingSink}
    (hne : text ≠ []) (hfull : a.row.size ≤ text.length)
    (hrest : Taken msgId (setContent D a.row.key (text.take a.row.size)) rest (text.drop a.row.size) s) :
    Taken msgId D (a :: rest) text s

/-- The attachments of a message, as they are stored. -/
structure OfMessage (D : Db) (msgId : IdType) (daos : List AttachmentDao) : Prop where
  mem : ∀ a ∈ daos, a.row ∈ D.attachments
  message : ∀ a ∈ daos, a.row.draft = false ∧ a.row.messageId = msgId

theorem OfMessage.tail {D : Db} {msgId : IdType} {a : AttachmentDao} {rest : List AttachmentDao} {content : Bytes}
    (h : OfMessage D msgId (a :: rest)) : OfMessage (setContent D a.row.key content) msgId rest :=
  ⟨fun b hb => h.mem b (List.mem_cons_of_mem a hb), fun b hb => h.message b (List.mem_cons_of_mem a hb)⟩

variable (P) in
/-- The text is all the contents, and there are rows for them. -/
def Fits (D : Db) : List AttachmentDao → Bytes → Prop
  | [], text => text = []
  | a :: rest, text =>
    contentOf D a.row.key ≠ none ∧ (P.sha512 (text.take a.row.size)).length = AttachmentSplittingSink.hashLength ∧
      IsContent P a.row (text.take a.row.size) ∧ Fits D rest (text.drop a.row.size)

/-- The database with the contents of a text that fits. -/
def stored : Db → List AttachmentDao → Bytes → Db
  | D, [], _ => D
  | D, a :: rest, text => stored (setContent D a.row.key (text.take a.row.size)) rest (text.drop a.row.size)

variable (P) in
/-- A property of the database that storing a promised content keeps. -/
def Keeps (I : Db → Prop) : Prop :=
  ∀ {D r bytes}, I D → r ∈ D.attachments → IsContent P r bytes → I (setContent D r.key bytes)

theorem genuine_keeps : Keeps P (Genuine P) := fun hD hr hbytes => hD.setContent P hr hbytes

variable (P) in
/-- A sink that raised, or has nothing left to do. -/
def Stopped (I : Db → Prop) (s : AttachmentSplittingSink) : Prop := Dead P s ∧ I s.db

variable (P) in
/-- A sink that raised with a text that does not fit. -/
def Refused (I : Db → Prop) (D : Db) (daos : List AttachmentDao) (text : Bytes) (s : AttachmentSplittingSink) : Prop :=
  Stopped P I s ∧ ¬ Fits P D daos text

variable {I : Db → Prop}

theorem Fits.of_rows {D D' : Db} {daos : List AttachmentDao} {text : Bytes}
    (hrows : ∀ k, (contentOf D' k).isSome = (contentOf D k).isSome) (h : Fits P D daos text) : Fits P D' daos text := by
  induction daos generalizing text with
  | nil => exact h
  | cons a rest ih =>
    refine ⟨?_, h.2.1, h.2.2.1, ih h.2.2.2⟩
    rw [← Option.isSome_iff_ne_none, hrows, Option.isSome_iff_ne_none]
    exact h.1

@[simp] theorem fits_setContent {D : Db} {key : AttachmentKey} {content : Bytes} {daos : List AttachmentDao}
    {text : Bytes} : Fits P (setContent D key content) daos text ↔ Fits P D daos text :=
  ⟨.of_rows (fun k => (isSome_contentOf_setContent D key k content).symm),
    .of_rows (fun k => isSome_contentOf_setContent D key k content)⟩

theorem Refused.cons {D : Db} {a : AttachmentDao} {rest : List AttachmentDao} {content text : Bytes}
    {s : AttachmentSplittingSink} (h : Refused P I (setContent D a.row.key content) rest (text.drop a.row.size) s) :
    Refused P I D (a :: rest) text s :=
  ⟨h.1, fun hfits => h.2 (fits_setContent.mpr hfits.2.2.2)⟩

/-- A text that fits goes to the end of the first attachment. -/
theorem Fits.size_le {D : Db} {a : AttachmentDao} {rest : List AttachmentDao} {text : Bytes}
    (h : Fits P D (a :: rest) text) : a.row.size ≤ text.length := by
  have hlen := h.2.2.1.1
  rw [List.length_take] at hlen
  omega

theorem Fits.sound {D : Db} {daos : List AttachmentDao} {text : Bytes} (h : Fits P D daos text) :
    Sound P daos text := by
  induction daos generalizing text with
  | nil => trivial
  | cons a rest ih =>
    have hrest := ih h.2.2.2
    have hsize := h.size_le
    unfold Sound
    by_cases hempty : text = []
    · subst hempty
      rw [if_pos rfl]
      have hzero : a.row.size = 0 := by simpa using hsize
      intro _
      have hcontent := h.2.2.1
      rw [hzero, List.take_nil] at hcontent
      rw [List.drop_nil] at hrest
      rw [hzero]
      exact ⟨hcontent, hrest⟩
    · rw [if_neg hempty, if_neg (by omega)]
      exact ⟨h.2.2.1, hrest⟩

/-- A stream for the first attachment of the queue. -/
theorem makeStream_taken {D : Db} {msgId : IdType} {daos : List AttachmentDao} {s : AttachmentSplittingSink}
    (hD : I D) (hm : OfMessage D msgId daos)
    (hs : s = { s with db := D, messageId := msgId, attachmentDaos := daos, stream := none })
    (hleft : daos = [] → s.bytesLeftInCurrentStream = 0) :
    Ends (AttachmentSplittingSink.makeStream P) s (fun _ s' => Taken P msgId D daos [] s')
      (fun _ s' => ∀ text, Refused P I D daos text s') := by
  rw [hs]
  unfold AttachmentSplittingSink.makeStream
  rw [ends_bind, ends_get]
  cases daos with
  | nil =>
    dsimp only
    rw [ends_pure, hleft rfl]
    exact .finished D
  | cons a rest =>
    obtain ⟨-, rfl⟩ := hm.message a List.mem_cons_self
    dsimp only
    rw [ends_bind, ends_set]
    have hdead : (∀ h, P.hexDecode a.row.hash = .ok h → h.length ≠ AttachmentSplittingSink.hashLength) →
        ∀ text, Refused P I D (a :: rest) text { s with
          db := D, messageId := a.row.messageId, attachmentDaos := a :: rest, stream := none,
          bytesLeftInCurrentStream := a.row.size } := by
      intro hbad text
      refine ⟨⟨?_, hD⟩, fun hfits => hbad _ hfits.2.2.1.2 hfits.2.1⟩
      unfold Dead
      simpa using hbad
    split
    · next hdecode => exact hdead (by simp [hdecode])
    · next hdecode => exact hdead (by simp [hdecode])
    · next hash hdecode =>
      split
      · next hlen => exact hdead (by simpa [hdecode] using hlen)
      · exact .current .fresh (.inr rfl) (fun _ => rfl) hdecode

private theorem padded_of_length {r : AttachmentRow} {bytes : Bytes} (h : bytes.length = r.size) : padded r bytes = bytes := by
  simp [padded, zeroblob, h]

/-- A text that goes to the end of the first attachment. -/
theorem Sound.filled {a : AttachmentDao} {rest : List AttachmentDao} {text total : Bytes} (h : Sound P (a :: rest) total)
    (hpre : text <+: total) (hne : text ≠ []) (hfull : a.row.size ≤ text.length) :
    IsContent P a.row (text.take a.row.size) ∧ Sound P rest (total.drop a.row.size) := by
  have hlen := hpre.length_le
  have htotal : total ≠ [] := by
    rintro rfl
    exact hne (List.prefix_nil.mp hpre)
  have htake : total.take a.row.size = text.take a.row.size := by
    obtain ⟨t, rfl⟩ := hpre
    exact List.take_append_of_le_length hfull
  unfold Sound at h
  rw [if_neg htotal, if_neg (by omega), htake] at h
  exact h

/-- One round that has something to write. -/
theorem writeRound_taken {D db : Db} {msgId : IdType} {a : AttachmentDao} {rest : List AttachmentDao}
    {hash bytes buffer total : Bytes} {stream : AttachmentStream} (hI : Keeps P I) (hD : I D) (hm : OfMessage D msgId (a :: rest))
    (hat : StreamAt D a.row hash bytes stream db) (hleft : bytes.length < a.row.size ∨ bytes = [])
    (hopen : bytes = [] → stream.bytesWritten = none) (hdecode : P.hexDecode a.row.hash = .ok hash)
    (hne : buffer ≠ []) (hpre : bytes ++ buffer <+: total) (hsound : Sound P (a :: rest) total) :
    Ends (AttachmentSplittingSink.writeRound P buffer)
      { db := db, messageId := msgId, attachmentDaos := rest, stream := some stream,
        bytesLeftInCurrentStream := a.row.size - bytes.length }
      (fun result s' => result.1 = true ∧
        if bytes.length + buffer.length < a.row.size then
          result.2 = [] ∧ ∃ stream' db', StreamAt D a.row hash (bytes ++ buffer) stream' db' ∧
            s' = { db := db', messageId := msgId, attachmentDaos := rest, stream := some stream',
                   bytesLeftInCurrentStream := a.row.size - (bytes ++ buffer).length }
        else
          result.2 = (bytes ++ buffer).drop a.row.size ∧
            Taken P msgId (setContent D a.row.key ((bytes ++ buffer).take a.row.size)) rest [] s')
      (fun _ s' => Refused P I D (a :: rest) total s') := by
  obtain ⟨hdraft, -⟩ := hm.message a List.mem_cons_self
  have hlen : bytes.length ≤ a.row.size := by
    rcases hleft with h | rfl
    · exact h.le
    · exact Nat.zero_le _
  unfold AttachmentSplittingSink.writeRound
  rw [ends_bind, ends_get]
  dsimp only
  rw [if_neg (by simpa using hne), ends_bind, ends_onStream]
  cases hrow : contentOf D a.row.key with
  | none =>
    -- without a row the blob cannot be opened
    have hfresh : bytes = [] ∧ db = D := by
      cases hat with
      | fresh => exact ⟨rfl, rfl⟩
      | opened _ hr => exact absurd hrow hr
    obtain ⟨rfl, rfl⟩ := hfresh
    have hdead : DeadStream stream db := .inr ⟨by rw [hat.key hdraft]; exact hrow, hopen rfl⟩
    obtain ⟨e, stream', hwrite, hdead'⟩ := write_of_deadStream hdead (buffer.take (min buffer.length
      (a.row.size - ([] : Bytes).length)))
    exact Ends.of_eq_error hwrite ⟨⟨hdead', hD⟩, fun hfits => hfits.1 hrow⟩
  | some c =>
    by_cases hlt : bytes.length + buffer.length < a.row.size
    · have hmin : min buffer.length (a.row.size - bytes.length) = buffer.length := by omega
      have hbytes : List.take buffer.length buffer = buffer := List.take_length
      obtain ⟨stream', db', hwrite, hat'⟩ := hat.write hdraft hrow hlt.le
      rw [hmin, hbytes]
      refine Ends.of_eq_ok hwrite ?_
      rw [ends_bind, ends_modify]
      have hmore : a.row.size - bytes.length - buffer.length ≠ 0 := by omega
      dsimp only
      rw [if_neg hmore]
      refine ⟨rfl, ?_⟩
      rw [if_pos hlt]
      refine ⟨List.drop_length, stream', db', hat', ?_⟩
      rw [List.length_append, Nat.sub_sub]
    · -- the attachment is filled: its stream is closed and the next one is made
      have hmin : min buffer.length (a.row.size - bytes.length) = a.row.size - bytes.length := by omega
      have htake : bytes ++ buffer.take (a.row.size - bytes.length) = (bytes ++ buffer).take a.row.size := by
        rw [List.take_append, List.take_of_length_le hlen]
      have hdrop : buffer.drop (a.row.size - bytes.length) = (bytes ++ buffer).drop a.row.size := by
        rw [List.drop_append, List.drop_of_length_le hlen, List.nil_append]
      have hfit : bytes.length + (buffer.take (a.row.size - bytes.length)).length ≤ a.row.size := by
        rw [List.length_take]
        omega
      obtain ⟨stream', db', hwrite, hat'⟩ := hat.write hdraft hrow hfit
      obtain ⟨hcontent, -⟩ := hsound.filled hpre (by simp [hne]) (by rw [List.length_append]; omega)
      rw [htake] at hat'
      have hhash : P.sha512 ((bytes ++ buffer).take a.row.size) = hash := by
        have hok := hcontent.2.symm.trans hdecode
        exact Except.ok.inj hok
      obtain ⟨stream'', hclosed, hclose⟩ := hat'.close_of_match hdraft hrow hhash
      rw [if_neg (by rw [hcontent.1]; exact lt_irrefl _), padded_of_length hcontent.1] at hclose
      rw [hmin]
      refine Ends.of_eq_ok hwrite ?_
      rw [ends_bind, ends_modify]
      dsimp only
      rw [if_pos (Nat.sub_self _), ends_bind]
      unfold AttachmentSplittingSink.closeStream
      rw [ends_bind, ends_get]
      dsimp only
      rw [ends_bind, ends_onStream]
      refine Ends.of_eq_ok hclose ?_
      rw [ends_modify, ends_bind]
      refine (makeStream_taken (hI hD (hm.mem a List.mem_cons_self) hcontent) hm.tail rfl
        (fun _ => Nat.sub_self _)).mono (fun _ s' hs' => ?_) (fun _ _ h => (h _).cons)
      rw [ends_pure]
      refine ⟨rfl, ?_⟩
      rw [if_neg hlt]
      exact ⟨hdrop, hs'⟩

theorem writeLoop_nil (n : Nat) (s : AttachmentSplittingSink) :
    AttachmentSplittingSink.writeLoop P n [] s = .ok [] s := by
  cases n with
  | zero => rfl
  | succ n =>
    have hround : AttachmentSplittingSink.writeRound P [] s = .ok (false, []) s := by
      unfold AttachmentSplittingSink.writeRound
      rw [bind_of_ok get_apply]
      cases s.stream <;> rfl
    unfold AttachmentSplittingSink.writeLoop
    rw [bind_of_ok hround]
    rfl

/-- Without a stream nothing is taken. -/
theorem writeLoop_of_none {n : Nat} {s : AttachmentSplittingSink} (hs : s.stream = none) (buffer : Bytes) :
    AttachmentSplittingSink.writeLoop P n buffer s = .ok buffer s := by
  cases n with
  | zero => rfl
  | succ n =>
    have hround : AttachmentSplittingSink.writeRound P buffer s = .ok (false, buffer) s := by
      unfold AttachmentSplittingSink.writeRound
      rw [bind_of_ok get_apply, hs]
      rfl
    unfold AttachmentSplittingSink.writeLoop
    rw [bind_of_ok hround]
    rfl

/-- The loop of `write` when one more attachment may be filled, given what it does after that. -/
theorem writeLoop_succ_taken {msgId : IdType} {rest : List AttachmentDao} {D db : Db} {a : AttachmentDao}
    {hash bytes buffer total : Bytes} {stream : AttachmentStream} {k : Nat} (hI : Keeps P I) (hD : I D)
    (hm : OfMessage D msgId (a :: rest)) (hat : StreamAt D a.row hash bytes stream db)
    (hleft : bytes.length < a.row.size ∨ bytes = []) (hopen : bytes = [] → stream.bytesWritten = none)
    (hdecode : P.hexDecode a.row.hash = .ok hash) (hpre : bytes ++ buffer <+: total)
    (hsound : Sound P (a :: rest) total)
    (hnext : ∀ D' buffer' total' s', I D' → OfMessage D' msgId rest → buffer' <+: total' →
      Sound P rest total' → Taken P msgId D' rest [] s' →
      Ends (AttachmentSplittingSink.writeLoop P k buffer') s'
        (fun left s' => if left = [] then Taken P msgId D' rest buffer' s' else Refused P I D' rest total' s')
        (fun _ s' => Refused P I D' rest total' s')) :
    Ends (AttachmentSplittingSink.writeLoop P (k + 1) buffer)
      { db := db, messageId := msgId, attachmentDaos := rest, stream := some stream,
        bytesLeftInCurrentStream := a.row.size - bytes.length }
      (fun left s' =>
        if left = [] then Taken P msgId D (a :: rest) (bytes ++ buffer) s' else Refused P I D (a :: rest) total s')
      (fun _ s' => Refused P I D (a :: rest) total s') := by
  by_cases hne : buffer = []
  · subst hne
    refine Ends.of_eq_ok (writeLoop_nil (k + 1) _) ?_
    rw [if_pos rfl, List.append_nil]
    exact .current hat hleft hopen hdecode
  unfold AttachmentSplittingSink.writeLoop
  rw [ends_bind]
  refine (writeRound_taken hI hD hm hat hleft hopen hdecode hne hpre hsound).mono ?_ (fun _ _ h => h)
  rintro ⟨more, left⟩ s' ⟨rfl, hs'⟩
  dsimp only at hs' ⊢
  rw [if_pos rfl]
  split at hs'
  -- the write stays within the current stream
  · next hlt =>
    obtain ⟨rfl, stream', db', hat', rfl⟩ := hs'
    refine Ends.of_eq_ok (writeLoop_nil k _) ?_
    rw [if_pos rfl]
    refine .current hat' (.inl (by rwa [List.length_append])) (fun h => ?_) hdecode
    exact absurd (List.append_eq_nil_iff.mp h).2 hne
  -- the stream is full: the rest of the buffer goes to the next one
  · next hlt =>
    obtain ⟨rfl, htaken⟩ := hs'
    have hfull : a.row.size ≤ (bytes ++ buffer).length := by
      rw [List.length_append]
      omega
    have htext : bytes ++ buffer ≠ [] := by simp [hne]
    obtain ⟨hcontent, hrest⟩ := hsound.filled hpre htext hfull
    have hpre' : (bytes ++ buffer).drop a.row.size <+: total.drop a.row.size := by
      obtain ⟨t, rfl⟩ := hpre
      rw [List.drop_append_of_le_length hfull]
      exact List.prefix_append _ _
    refine (hnext _ _ _ s' (hI hD (hm.mem a List.mem_cons_self) hcontent) hm.tail hpre' hrest htaken).mono
      (fun left s' h => ?_) (fun _ _ h => h.cons)
    split at h
    · next hempty =>
      rw [if_pos hempty]
      exact .filled htext hfull h
    · next hempty =>
      rw [if_neg hempty]
      exact h.cons

/-- The loop of `write`, from the state after a text. -/
theorem writeLoop_taken {msgId : IdType} {rest : List AttachmentDao} {D : Db} {buffer total : Bytes} {n : Nat}
    {s : AttachmentSplittingSink} (hn : rest.length ≤ n) (hI : Keeps P I) (hD : I D) (hm : OfMessage D msgId rest)
    (hpre : buffer <+: total) (hsound : Sound P rest total) (hs : Taken P msgId D rest [] s) :
    Ends (AttachmentSplittingSink.writeLoop P n buffer) s
      (fun left s' => if left = [] then Taken P msgId D rest buffer s' else Refused P I D rest total s')
      (fun _ s' => Refused P I D rest total s') := by
  induction rest generalizing D buffer total n s with
  | nil =>
    cases hs
    refine Ends.of_eq_ok (writeLoop_of_none rfl buffer) ?_
    split
    · next hempty =>
      subst hempty
      exact .finished D
    · next hleft =>
      refine ⟨⟨by unfold Dead; simp, hD⟩, fun hfits => ?_⟩
      cases hfits
      exact hleft (List.prefix_nil.mp hpre)
  | cons a rest ih =>
    obtain ⟨k, rfl⟩ : ∃ k, n = k + 1 := ⟨n - 1, by have hcons : (a :: rest).length = rest.length + 1 := rfl; omega⟩
    cases hs with
    | filled hne => exact absurd rfl hne
    | current hat hleft hopen hdecode =>
      refine writeLoop_succ_taken hI hD hm hat hleft hopen hdecode hpre hsound ?_
      intro D' buffer' total' s' hD' hm' hpre' hsound' hs'
      exact ih (Nat.le_of_succ_le_succ hn) hD' hm' hpre' hsound' hs'

/-- The end of `write`: what is left over is too long. -/
theorem ends_tooLong {s : AttachmentSplittingSink} {n : Nat} {buffer : Bytes}
    {Q R : AttachmentSplittingSink → Prop}
    (h : Ends (AttachmentSplittingSink.writeLoop P n buffer) s
      (fun left s' => if left = [] then Q s' else R s') (fun _ s' => R s')) :
    Ends (do
        let bytesLeft ← AttachmentSplittingSink.writeLoop P n buffer
        if !bytesLeft.isEmpty then
          throw (.databaseIntegrityError "AttachmentSplittingSink: stream is too long") : SinkM Unit) s
      (fun _ s' => Q s') (fun _ s' => R s') := by
  rw [ends_bind]
  refine h.mono (fun left s' hs' => ?_) (fun _ _ h => h)
  cases left with
  | nil =>
    rw [if_pos rfl] at hs'
    exact hs'
  | cons b left =>
    rw [if_neg (List.cons_ne_nil b left)] at hs'
    exact hs'

/-- One write to a sink that took a text, with more of the text. -/
theorem write_taken {msgId : IdType} {daos : List AttachmentDao} {D : Db} {text buffer total : Bytes}
    {s : AttachmentSplittingSink} (hI : Keeps P I) (hD : I D) (hm : OfMessage D msgId daos)
    (hpre : text ++ buffer <+: total) (hsound : Sound P daos total) (hs : Taken P msgId D daos text s) :
    Ends (AttachmentSplittingSink.write P buffer) s (fun _ s' => Taken P msgId D daos (text ++ buffer) s')
      (fun _ s' => Refused P I D daos total s') := by
  induction hs generalizing total with
  | finished D =>
    have hloop := writeLoop_taken (n := 2) (Nat.zero_le _) hI hD hm hpre hsound (.finished D)
    exact ends_tooLong hloop
  | @current D db a rest hash bytes stream hat hleft hopen hdecode =>
    refine ends_tooLong (writeLoop_succ_taken (k := rest.length + 1) hI hD hm hat hleft hopen hdecode hpre hsound ?_)
    intro D' buffer' total' s' hD' hm' hpre' hsound' hs'
    exact writeLoop_taken (Nat.le_succ _) hI hD' hm' hpre' hsound' hs'
  | @filled D a rest text s hne hfull hrest ih =>
    have hpre' : text <+: total := (List.prefix_append text buffer).trans hpre
    obtain ⟨hcontent, hsound'⟩ := hsound.filled hpre' hne hfull
    have hdrop : text.drop a.row.size ++ buffer = (text ++ buffer).drop a.row.size :=
      (List.drop_append_of_le_length hfull).symm
    have htake : text.take a.row.size = (text ++ buffer).take a.row.size :=
      (List.take_append_of_le_length hfull).symm
    have hdrop' : text.drop a.row.size ++ buffer <+: total.drop a.row.size := by
      obtain ⟨t, rfl⟩ := hpre
      have hlen : a.row.size ≤ (text ++ buffer).length := by
        rw [List.length_append]
        omega
      rw [hdrop, List.drop_append_of_le_length hlen]
      exact List.prefix_append _ _
    refine (ih (hI hD (hm.mem a List.mem_cons_self) hcontent) hm.tail hdrop' hsound').mono
      (fun _ s' hs' => ?_) (fun _ _ h => h.cons)
    refine .filled (by simp [hne]) (by rw [List.length_append]; omega) ?_
    rw [← htake, ← hdrop]
    exact hs'

/-! ### The stored contents -/

@[simp] theorem stored_attachments (D : Db) (daos : List AttachmentDao) (text : Bytes) :
    (stored D daos text).attachments = D.attachments := by
  induction daos generalizing D text with
  | nil => rfl
  | cons a rest ih => rw [stored, ih, setContent_attachments]

/-- A content after storing is a new one of one of the attachments, or the old one of none of them. -/
theorem contentOf_stored {D : Db} {daos : List AttachmentDao} {text : Bytes} (h : Fits P D daos text)
    (k : AttachmentKey) :
    (∃ a ∈ daos, a.row.key = k ∧
        ∃ bytes, contentOf (stored D daos text) k = some (some bytes) ∧ IsContent P a.row bytes) ∨
      ((∀ a ∈ daos, a.row.key ≠ k) ∧ contentOf (stored D daos text) k = contentOf D k) := by
  induction daos generalizing D text with
  | nil => exact .inr ⟨by simp, rfl⟩
  | cons a rest ih =>
    obtain ⟨hrow, -, hcontent, hrest⟩ := h
    rw [stored]
    have hfits : Fits P (setContent D a.row.key (text.take a.row.size)) rest (text.drop a.row.size) :=
      fits_setContent.mpr hrest
    rcases ih hfits with ⟨b, hb, hk, hnew⟩ | ⟨hne, hold⟩
    · exact .inl ⟨b, List.mem_cons_of_mem a hb, hk, hnew⟩
    · by_cases hk : a.row.key = k
      · refine .inl ⟨a, List.mem_cons_self, hk, _, ?_, hcontent⟩
        obtain ⟨c, hc⟩ := Option.ne_none_iff_exists'.mp hrow
        rw [hold, ← hk, contentOf_setContent, if_pos rfl, hc]
        rfl
      · refine .inr ⟨?_, ?_⟩
        · simpa [hk] using hne
        · rw [hold, contentOf_setContent, if_neg (Ne.symm hk)]

/-! ### The end of the text -/

/-- What the stream of an attachment leaves behind when it is closed with the text at its end. -/
theorem closeStreamAt {D db : Db} {a : AttachmentDao} {rest : List AttachmentDao} {hash text : Bytes}
    {stream : AttachmentStream} (hI : Keeps P I) (hD : I D) (ha : a.row ∈ D.attachments) (hdraft : a.row.draft = false)
    (hat : StreamAt D a.row hash text stream db) (hopen : text = [] → stream.bytesWritten = none)
    (hleft : text.length < a.row.size ∨ text = []) (hdecode : P.hexDecode a.row.hash = .ok hash)
    (hsound : Sound P (a :: rest) text) :
    I db ∧ Ends (AttachmentStream.close P) (stream, db)
      (fun _ p => a.row.size = 0 ∧ Sound P rest [] ∧ p.2 = setContent D a.row.key [] ∧ I p.2)
      (fun _ p => DeadStream p.1 p.2 ∧ I p.2 ∧ ¬ Fits P D (a :: rest) text) := by
  -- where the text ends here, the content with its zeros is genuine
  have hcontent : P.sha512 text = hash ∨ text ≠ [] → IsContent P a.row (padded a.row text) := by
    intro h
    unfold Sound at hsound
    by_cases hempty : text = []
    · subst hempty
      rw [if_pos rfl] at hsound
      have hhash : P.sha512 [] = hash := h.resolve_right (by simp)
      have hc := (hsound (by rw [hhash]; exact hdecode)).1
      simpa [padded] using hc
    · rw [if_neg hempty, if_pos (hleft.resolve_right hempty)] at hsound
      exact hsound
  have hdb : I db := by
    cases hat with
    | fresh => exact hD
    | opened _ _ =>
      refine hI hD ha (hcontent (.inr ?_))
      rintro rfl
      have := hopen rfl
      cases this
  refine ⟨hdb, ?_⟩
  -- close compares the hash first, then looks for the row, then for the size
  by_cases hhash : P.sha512 text = hash
  · cases hrow : contentOf D a.row.key with
    | none =>
      have hfresh : text = [] ∧ db = D := by
        cases hat with
        | fresh => exact ⟨rfl, rfl⟩
        | opened _ hr => exact absurd hrow hr
      obtain ⟨rfl, rfl⟩ := hfresh
      obtain ⟨e, stream', hclose, hclosed⟩ := hat.close_of_noRow hdraft (hopen rfl) hrow hhash
      exact Ends.of_eq_error hclose ⟨.inl hclosed, hD, fun hfits => hfits.1 hrow⟩
    | some c =>
      obtain ⟨stream', hclosed, hclose⟩ := hat.close_of_match hdraft hrow hhash
      have hgenuine := hI hD ha (hcontent (.inl hhash))
      split at hclose
      · next hlt =>
        obtain ⟨e, hclose⟩ := hclose
        exact Ends.of_eq_error hclose ⟨.inl hclosed, hgenuine, fun hfits => hlt.not_ge hfits.size_le⟩
      · next hfull =>
        have hempty : text = [] := hleft.resolve_left hfull
        subst hempty
        have hsize : a.row.size = 0 := by
          rw [List.length_nil] at hfull
          omega
        refine Ends.of_eq_ok hclose ⟨hsize, ?_, ?_, hgenuine⟩
        · unfold Sound at hsound
          rw [if_pos rfl] at hsound
          exact (hsound (by rw [hhash]; exact hdecode)).2
        · rw [show padded a.row [] = [] from padded_of_length hsize.symm]
  · obtain ⟨stream', hclose, hclosed⟩ := hat.close_of_mismatch hhash
    refine Ends.of_eq_error hclose ⟨.inl hclosed, hdb, fun hfits => hhash ?_⟩
    have hempty : text = [] := hleft.resolve_left hfits.size_le.not_gt
    have hpromised := hfits.2.2.1.2
    rw [hempty, List.take_nil, hdecode] at hpromised
    rw [hempty]
    exact (Except.ok.inj hpromised).symm

variable (P) in
/-- What follows the loop in `close`. -/
def closeRest : SinkM Unit := do
  AttachmentSplittingSink.closeStream P
  let s ← get
  if !s.attachmentDaos.isEmpty || 0 < s.bytesLeftInCurrentStream then
    throw (.databaseIntegrityError "AttachmentSplittingSink: stream is too short")

private theorem closeStream_taken {msgId : IdType} {D db : Db} {a : AttachmentDao} {rest : List AttachmentDao}
    {hash text : Bytes} {stream : AttachmentStream} (hI : Keeps P I) (hD : I D) (hm : OfMessage D msgId (a :: rest))
    (hat : StreamAt D a.row hash text stream db) (hopen : text = [] → stream.bytesWritten = none)
    (hleft : text.length < a.row.size ∨ text = []) (hdecode : P.hexDecode a.row.hash = .ok hash)
    (hsound : Sound P (a :: rest) text) :
    Ends (AttachmentSplittingSink.closeStream P)
      { db := db, messageId := msgId, attachmentDaos := rest, stream := some stream,
        bytesLeftInCurrentStream := a.row.size - text.length }
      (fun _ s' => a.row.size = 0 ∧ Sound P rest [] ∧ I (setContent D a.row.key []) ∧
        s' = { db := setContent D a.row.key [], messageId := msgId, attachmentDaos := rest,
               bytesLeftInCurrentStream := a.row.size - text.length })
      (fun _ s' => Refused P I D (a :: rest) text s') := by
  obtain ⟨-, hclose⟩ := closeStreamAt hI hD (hm.mem a List.mem_cons_self) (hm.message a List.mem_cons_self).1 hat hopen
    hleft hdecode hsound
  unfold AttachmentSplittingSink.closeStream
  rw [ends_bind, ends_get]
  dsimp only
  rw [ends_bind, ends_onStream]
  refine hclose.mono (fun _ p h => ?_) (fun _ p h => ⟨⟨h.1, h.2.1⟩, h.2.2⟩)
  obtain ⟨hsize, hrest, hp, hgenuine⟩ := h
  rw [ends_modify]
  rw [hp] at hgenuine
  exact ⟨hsize, hrest, hgenuine, by rw [hp]⟩

variable (P) in
/-- A sink that is closed, with everything stored. -/
def Closed (I : Db → Prop) (D : Db) (daos : List AttachmentDao) (text : Bytes) (s : AttachmentSplittingSink) : Prop :=
  Stopped P I s ∧ s.db = stored D daos text

/-- An empty attachment at the end of the text. -/
theorem stored_cons_of_empty {D : Db} {a : AttachmentDao} {rest : List AttachmentDao} {text : Bytes}
    (htext : text = []) : stored D (a :: rest) text = stored (setContent D a.row.key []) rest [] := by
  subst htext
  rw [stored, List.take_nil, List.drop_nil]

private theorem Refused.cons_of_empty {D : Db} {a : AttachmentDao} {rest : List AttachmentDao} {content text : Bytes}
    {s : AttachmentSplittingSink} (htext : text = []) (h : Refused P I (setContent D a.row.key content) rest [] s) :
    Refused P I D (a :: rest) text s := by
  subst htext
  have hdrop : Refused P I (setContent D a.row.key content) rest (List.drop a.row.size []) s := by rwa [List.drop_nil]
  exact hdrop.cons

/-- Without attachments there is nothing to close. -/
theorem closeRest_finished (D : Db) (msgId : IdType) :
    closeRest P { db := D, messageId := msgId, attachmentDaos := [] } =
      .ok () { db := D, messageId := msgId, attachmentDaos := [] } := rfl

theorem Closed.finished {D : Db} (hD : I D) (msgId : IdType) (text : Bytes) :
    Closed P I D [] text { db := D, messageId := msgId, attachmentDaos := [] } :=
  ⟨⟨by unfold Dead; simp, hD⟩, rfl⟩

/-- An attachment that still waits for bytes cannot be closed. -/
theorem closeRest_taken {msgId : IdType} {D db : Db} {a : AttachmentDao} {rest : List AttachmentDao}
    {hash text : Bytes} {stream : AttachmentStream} (hI : Keeps P I) (hD : I D) (hm : OfMessage D msgId (a :: rest))
    (hat : StreamAt D a.row hash text stream db) (hopen : text = [] → stream.bytesWritten = none)
    (hleft : text.length < a.row.size) (hdecode : P.hexDecode a.row.hash = .ok hash)
    (hsound : Sound P (a :: rest) text) :
    Ends (closeRest P)
      { db := db, messageId := msgId, attachmentDaos := rest, stream := some stream,
        bytesLeftInCurrentStream := a.row.size - text.length }
      (fun _ s' => Closed P I D (a :: rest) text s') (fun _ s' => Refused P I D (a :: rest) text s') := by
  unfold closeRest
  rw [ends_bind]
  refine (closeStream_taken hI hD hm hat hopen (.inl hleft) hdecode hsound).mono (fun _ s' h => ?_) (fun _ _ h => h)
  have := h.1
  omega

/-- The loop of `close` and what follows it, for what is left of the queue at the end of the text. -/
theorem closeLoop_taken {msgId : IdType} {rest : List AttachmentDao} {D db : Db} {a : AttachmentDao}
    {hash text : Bytes} {stream : AttachmentStream} (hI : Keeps P I) (hD : I D) (hm : OfMessage D msgId (a :: rest))
    (hat : StreamAt D a.row hash text stream db) (hopen : text = [] → stream.bytesWritten = none)
    (hleft : text.length < a.row.size ∨ text = []) (hdecode : P.hexDecode a.row.hash = .ok hash)
    (hsound : Sound P (a :: rest) text) :
    Ends (AttachmentSplittingSink.closeLoop P rest >>= fun _ => closeRest P)
      { db := db, messageId := msgId, attachmentDaos := rest, stream := some stream,
        bytesLeftInCurrentStream := a.row.size - text.length }
      (fun _ s' => Closed P I D (a :: rest) text s') (fun _ s' => Refused P I D (a :: rest) text s') := by
  induction rest generalizing D db a hash text stream with
  | nil =>
    unfold AttachmentSplittingSink.closeLoop
    rw [ends_bind, ends_bind, ends_get]
    dsimp only
    by_cases hlt : text.length < a.row.size
    · rw [if_neg (by simp; omega), ends_pure]
      exact closeRest_taken hI hD hm hat hopen hlt hdecode hsound
    · have hempty := hleft.resolve_left hlt
      rw [if_pos (by simp; omega), ends_bind]
      refine (closeStream_taken hI hD hm hat hopen hleft hdecode hsound).mono (fun _ s' h => ?_) (fun _ _ h => h)
      obtain ⟨hsize, -, hD', rfl⟩ := h
      refine (makeStream_taken hD' hm.tail rfl (fun _ => by dsimp only; omega)).mono (fun _ s' hs' => ?_)
        (fun _ _ h => (h []).cons_of_empty hempty)
      cases hs'
      refine Ends.of_eq_ok (closeRest_finished _ msgId) ?_
      unfold Closed
      rw [stored_cons_of_empty hempty]
      exact Closed.finished hD' msgId []
  | cons a' rest ih =>
    unfold AttachmentSplittingSink.closeLoop
    rw [ends_bind, ends_bind, ends_get]
    dsimp only
    by_cases hlt : text.length < a.row.size
    · rw [if_neg (by simp; omega), ends_pure]
      exact closeRest_taken hI hD hm hat hopen hlt hdecode hsound
    · have hempty := hleft.resolve_left hlt
      rw [if_pos (by simp; omega), ends_bind]
      refine (closeStream_taken hI hD hm hat hopen hleft hdecode hsound).mono (fun _ s' h => ?_) (fun _ _ h => h)
      obtain ⟨hsize, hrest, hD', rfl⟩ := h
      rw [ends_bind]
      refine (makeStream_taken hD' hm.tail rfl (by simp)).mono (fun _ s' hs' => ?_)
        (fun _ _ h => (h []).cons_of_empty hempty)
      cases hs' with
      | filled hne => exact absurd rfl hne
      | current hat' hleft' hopen' hdecode' =>
        rw [← ends_bind]
        unfold Closed
        rw [stored_cons_of_empty hempty]
        exact (ih hD' hm.tail hat' hopen' hleft' hdecode' hrest).mono (fun _ _ h => h)
          (fun _ _ h => h.cons_of_empty hempty)

/-- Closing a sink at the end of its text: it returns only if everything is stored. -/
theorem close_taken {msgId : IdType} {daos : List AttachmentDao} {D : Db} {text : Bytes} {s : AttachmentSplittingSink}
    (hI : Keeps P I) (hD : I D) (hm : OfMessage D msgId daos) (hsound : Sound P daos text)
    (hs : Taken P msgId D daos text s) :
    Ends (AttachmentSplittingSink.close P) s (fun _ s' => Closed P I D daos text s')
      (fun _ s' => Refused P I D daos text s') := by
  induction hs with
  | finished D =>
    have hclose : AttachmentSplittingSink.close P { db := D, messageId := msgId, attachmentDaos := [] } =
        .ok () { db := D, messageId := msgId, attachmentDaos := [] } := rfl
    exact Ends.of_eq_ok hclose (.finished hD msgId [])
  | current hat hleft hopen hdecode => exact closeLoop_taken hI hD hm hat hopen hleft hdecode hsound
  | filled hne hfull hrest ih =>
    obtain ⟨hcontent, hsound'⟩ := hsound.filled (List.prefix_refl _) hne hfull
    exact (ih (hI hD (hm.mem _ List.mem_cons_self) hcontent) hm.tail hsound').mono (fun _ _ h => h)
      (fun _ _ h => h.cons)

/-- Destroying a sink at the end of its text. -/
theorem destroy_taken {msgId : IdType} {daos : List AttachmentDao} {D : Db} {text : Bytes} {s : AttachmentSplittingSink}
    (hI : Keeps P I) (hD : I D) (hm : OfMessage D msgId daos) (hsound : Sound P daos text) (hs : Taken P msgId D daos text s) :
    Ends (AttachmentSplittingSink.destroy P) s (fun _ s' => I s'.db) (fun _ s' => I s'.db) := by
  induction hs with
  | finished D => exact hD
  | current hat hleft hopen hdecode =>
    obtain ⟨hgenuine, hclose⟩ := closeStreamAt hI hD (hm.mem _ List.mem_cons_self) (hm.message _ List.mem_cons_self).1
      hat hopen hleft hdecode hsound
    unfold AttachmentSplittingSink.destroy
    rw [ends_bind, ends_get]
    dsimp only
    rw [ends_onStream]
    unfold AttachmentStream.destroy
    rw [ends_bind, ends_get]
    dsimp only
    split
    · exact hgenuine
    · rw [ends_tryCatch]
      exact hclose.mono (fun _ _ h => h.2.2.2) (fun _ _ h => h.2.1)
  | filled hne hfull hrest ih =>
    obtain ⟨hcontent, hsound'⟩ := hsound.filled (List.prefix_refl _) hne hfull
    exact ih (hI hD (hm.mem _ List.mem_cons_self) hcontent) hm.tail hsound'

end KulloClient
