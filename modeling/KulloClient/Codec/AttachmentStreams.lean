import KulloClient.Codec.StreamSplitting
import KulloClient.Codec.AttachmentStore

/-!
# The streams of the attachments

`AttachmentSplittingSink` over the streams that the client makes.  It is the sink of the previous module with one factory,
and for its streams only the bytes matter, not the writes they came in.
-/

namespace KulloClient

open Pipeline Imperative SplittingSink

variable (P : StreamPlatform)

/-- The constructor with these attachments, some calls of `write`, and `close`, up to the first exception. -/
def AttachmentSplittingSink.run (db : Db) (messageId : IdType) (attachmentDaos : List AttachmentDao)
    (writes : List Bytes) : EStateM.Result Exn AttachmentSplittingSink Unit :=
  (AttachmentSplittingSink.makeStream P >>= fun _ =>
    writeEach (AttachmentSplittingSink.write P) writes >>= fun _ => AttachmentSplittingSink.close P)
    { db := db, messageId := messageId, attachmentDaos := attachmentDaos }

/-- `Hex::decode`, and the chain of a `HashVerifyingFilter` and a `MessageAttachmentSink`. -/
def makeAttachmentStream (messageId : IdType) (dao : AttachmentDao) : EStateM Exn Db AttachmentStream := fun db =>
  match P.hexDecode dao.row.hash with
  | .error .integrityFailure => .error (.botanException "integrity failure") db
  | .error (.other message) => .error (.botanException message) db
  | .ok expectedHash =>
    if expectedHash.length ≠ AttachmentSplittingSink.hashLength then .error (HashVerifyingFilter.wrongSize expectedHash) db
    else .ok { messageId := messageId, index := dao.row.index, size := dao.row.size, expectedHash := expectedHash } db

def attachmentStreams : StreamFactory where
  World := Db
  Stream := AttachmentStream
  makeStream := makeAttachmentStream P
  write := AttachmentStream.write
  close := AttachmentStream.close P

/-! ### One sink in terms of the other -/

/-- The same sink, with the database for the world. -/
def ofSink (s : AttachmentSplittingSink) : SplittingSink (attachmentStreams P) where
  world := s.db
  messageId := s.messageId
  attachmentDaos := s.attachmentDaos
  stream := s.stream
  bytesLeftInCurrentStream := s.bytesLeftInCurrentStream

def ofResult {α : Type} : EStateM.Result Exn AttachmentSplittingSink α →
    EStateM.Result Exn (SplittingSink (attachmentStreams P)) α
  | .ok a s => .ok a (ofSink P s)
  | .error e s => .error e (ofSink P s)

/-- Both steps do the same. -/
def Agree {α : Type} (x : SinkM α) (y : SplitM (attachmentStreams P) α) : Prop :=
  ∀ s, ofResult P (x s) = y (ofSink P s)

variable {P}

theorem Agree.pure {α : Type} (a : α) : Agree P (pure a) (pure a) := fun _ => rfl

theorem Agree.throw {α : Type} (e : Exn) : Agree (α := α) P (throw e) (throw e) := fun _ => rfl

theorem Agree.bind {α β : Type} {x : SinkM α} {y : SplitM (attachmentStreams P) α} {f : α → SinkM β}
    {g : α → SplitM (attachmentStreams P) β} (hx : Agree P x y) (hf : ∀ a, Agree P (f a) (g a)) :
    Agree P (x >>= f) (y >>= g) := by
  intro s
  have hstep := hx s
  rw [bind_apply, bind_apply, ← hstep]
  cases x s with
  | ok a s' => exact hf a s'
  | error e s' => rfl

theorem Agree.get {β : Type} {f : AttachmentSplittingSink → SinkM β}
    {g : SplittingSink (attachmentStreams P) → SplitM (attachmentStreams P) β}
    (hf : ∀ s, Agree P (f s) (g (ofSink P s))) : Agree P (get >>= f) (get >>= g) := by
  intro s
  rw [bind_apply, bind_apply, get_apply, get_apply]
  exact hf s s

theorem Agree.modify {f : AttachmentSplittingSink → AttachmentSplittingSink}
    {g : SplittingSink (attachmentStreams P) → SplittingSink (attachmentStreams P)}
    (hf : ∀ s, ofSink P (f s) = g (ofSink P s)) : Agree P (modify f) (modify g) := by
  intro s
  rw [modify_apply, modify_apply, ← hf s]
  rfl

private theorem Agree.ite {α : Type} (c : Prop) [Decidable c] {x x' : SinkM α} {y y' : SplitM (attachmentStreams P) α}
    (hx : Agree P x y) (hx' : Agree P x' y') : Agree P (if c then x else x') (if c then y else y') := by
  by_cases hc : c
  · rw [if_pos hc, if_pos hc]
    exact hx
  · rw [if_neg hc, if_neg hc]
    exact hx'

private theorem onStream_of_ok {F : StreamFactory} {stream : F.Stream} {x : EStateM Exn (F.Stream × F.World) Unit}
    {s : SplittingSink F} {t : F.Stream × F.World} (h : x (stream, s.world) = .ok () t) :
    onStream stream x s = .ok () { s with stream := some t.1, world := t.2 } := by
  unfold onStream
  rw [h]

private theorem onStream_of_error {F : StreamFactory} {stream : F.Stream} {x : EStateM Exn (F.Stream × F.World) Unit}
    {s : SplittingSink F} {e : Exn} {t : F.Stream × F.World} (h : x (stream, s.world) = .error e t) :
    onStream stream x s = .error e { s with stream := some t.1, world := t.2 } := by
  unfold onStream
  rw [h]

private theorem agree_onStream (stream : AttachmentStream) (x : StreamM Unit) :
    Agree P (AttachmentSplittingSink.onStream stream x) (onStream (F := attachmentStreams P) stream x) := by
  intro s
  unfold AttachmentSplittingSink.onStream
  cases h : x (stream, s.db) with
  | ok u t => exact (onStream_of_ok (F := attachmentStreams P) (s := ofSink P s) h).symm
  | error e t => exact (onStream_of_error (F := attachmentStreams P) (s := ofSink P s) h).symm

private theorem agree_makeStream : Agree P (AttachmentSplittingSink.makeStream P) makeStream := by
  intro s
  obtain ⟨db, messageId, attachmentDaos, stream, bytesLeft⟩ := s
  rw [makeStream_apply]
  unfold AttachmentSplittingSink.makeStream
  rw [bind_apply, get_apply]
  cases attachmentDaos with
  | nil => rfl
  | cons dao attachmentDaos =>
    have hmake : (attachmentStreams P).makeStream messageId dao db = makeAttachmentStream P messageId dao db := rfl
    simp only [ofSink, hmake, bind_apply, set_apply, makeAttachmentStream]
    cases P.hexDecode dao.row.hash with
    | error e => cases e <;> rfl
    | ok expectedHash =>
      by_cases hlength : expectedHash.length ≠ AttachmentSplittingSink.hashLength
      · simp only [if_pos hlength]
        rfl
      · simp only [if_neg hlength]
        rfl

private theorem agree_closeStream : Agree P (AttachmentSplittingSink.closeStream P) closeStream := by
  apply Agree.get
  intro s
  have hstream : (ofSink P s).stream = s.stream := rfl
  rw [hstream]
  cases s.stream with
  | none => exact Agree.pure ()
  | some stream => exact (agree_onStream stream (AttachmentStream.close P)).bind fun _ => Agree.modify fun s => rfl

private theorem agree_writeRound (buffer : Bytes) : Agree P (AttachmentSplittingSink.writeRound P buffer) (writeRound buffer) := by
  apply Agree.get
  intro s
  have hstream : (ofSink P s).stream = s.stream := rfl
  rw [hstream]
  cases s.stream with
  | none => exact Agree.pure (false, buffer)
  | some stream =>
    refine Agree.ite _ (Agree.pure (false, buffer)) ?_
    have hwrite := agree_onStream (P := P) stream
      (AttachmentStream.write (buffer.take (min buffer.length s.bytesLeftInCurrentStream)))
    refine hwrite.bind fun _ => Agree.bind (Agree.modify fun s => rfl) fun _ => ?_
    dsimp only
    refine Agree.ite _ ?_ (Agree.pure _)
    exact agree_closeStream.bind fun _ => agree_makeStream.bind fun _ => Agree.pure _

private theorem agree_writeLoop (n : Nat) (buffer : Bytes) :
    Agree P (AttachmentSplittingSink.writeLoop P n buffer) (writeLoop n buffer) := by
  induction n generalizing buffer with
  | zero => exact Agree.pure buffer
  | succ n ih =>
    refine (agree_writeRound buffer).bind fun r => ?_
    exact Agree.ite _ (ih r.2) (Agree.pure r.2)

private theorem agree_write (buffer : Bytes) : Agree P (AttachmentSplittingSink.write P buffer) (write buffer) := by
  have hloop : Agree P
      (get >>= fun s : AttachmentSplittingSink =>
        AttachmentSplittingSink.writeLoop P (s.attachmentDaos.length + 2) buffer >>= fun bytesLeft =>
          if !bytesLeft.isEmpty then throw tooLong else pure ())
      (get >>= fun s : SplittingSink (attachmentStreams P) =>
        writeLoop (s.attachmentDaos.length + 2) buffer >>= fun bytesLeft =>
          if !bytesLeft.isEmpty then throw tooLong else pure ()) := by
    apply Agree.get
    intro s
    exact (agree_writeLoop _ buffer).bind fun bytesLeft => Agree.ite _ (Agree.throw tooLong) (Agree.pure ())
  apply Agree.get
  intro s
  refine Agree.ite _ ?_ hloop
  exact agree_makeStream.bind fun _ => hloop

private theorem agree_closeLoop (daos : List AttachmentDao) :
    Agree P (AttachmentSplittingSink.closeLoop P daos) (closeLoop daos) := by
  induction daos with
  | nil =>
    apply Agree.get
    intro s
    exact Agree.ite _ (agree_closeStream.bind fun _ => agree_makeStream) (Agree.pure ())
  | cons dao daos ih =>
    apply Agree.get
    intro s
    refine Agree.ite _ ?_ (Agree.pure ())
    exact agree_closeStream.bind fun _ => agree_makeStream.bind fun _ => ih

private theorem agree_close : Agree P (AttachmentSplittingSink.close P) close := by
  apply Agree.get
  intro s
  refine (agree_closeLoop _).bind fun _ => agree_closeStream.bind fun _ => ?_
  apply Agree.get
  intro s
  exact Agree.ite _ (Agree.throw tooShort) (Agree.pure ())

private theorem agree_writeEach (writes : List Bytes) :
    Agree P (writeEach (AttachmentSplittingSink.write P) writes) (writeEach write writes) := by
  induction writes with
  | nil => exact Agree.pure ()
  | cons buffer rest ih => exact (agree_write buffer).bind fun _ => ih

private theorem run_eq (db : Db) (messageId : IdType) (daos : List AttachmentDao) (writes : List Bytes) :
    ofResult P (AttachmentSplittingSink.run P db messageId daos writes) =
      SplittingSink.run (attachmentStreams P) db messageId daos writes := by
  have hrun := agree_makeStream (P := P) |>.bind fun _ => (agree_writeEach writes).bind fun _ => agree_close
  exact hrun { db := db, messageId := messageId, attachmentDaos := daos }

/-! ### Two writes of a stream -/

private theorem length_overwrite {c b : Bytes} {n : Nat} (hn : n ≤ c.length) : n + b.length ≤ (overwrite c n b).length := by
  unfold overwrite
  rw [List.length_append, List.length_append, List.length_take]
  omega

private theorem overwrite_overwrite {c b b' : Bytes} {n : Nat} (hn : n ≤ c.length) :
    overwrite (overwrite c n b) (n + b.length) b' = overwrite c n (b ++ b') := by
  have hlength : (c.take n ++ b).length = n + b.length := by
    rw [List.length_append, List.length_take]
    omega
  have htake : (c.take n ++ b ++ c.drop (n + b.length)).take (n + b.length) = c.take n ++ b := by
    rw [← hlength]
    exact List.take_left
  have hdrop : (c.take n ++ b ++ c.drop (n + b.length)).drop (n + b.length + b'.length) =
      c.drop (n + b.length + b'.length) := by
    rw [List.drop_append, hlength, List.drop_of_length_le (by omega), List.nil_append, List.drop_drop]
    congr 1
    omega
  unfold overwrite
  rw [htake, hdrop, List.length_append, Nat.add_assoc, List.append_assoc (c.take n)]

/-- The blob of an open stream is in the database, as long as what was written. -/
def HasBlob (t : AttachmentStream × Db) : Prop :=
  ∀ n, t.1.bytesWritten = some n → ∃ content, contentOf t.2 t.1.key = some (some content) ∧ n ≤ content.length

/-- What a write makes of an open stream. -/
def written (stream : AttachmentStream) (db : Db) (n : Nat) (content buffer : Bytes) : AttachmentStream × Db :=
  ({ stream with hashed := stream.hashed ++ buffer, bytesWritten := some (n + buffer.length) },
    setContent db stream.key (overwrite content n buffer))

def storedTooSmall : Exn :=
  .databaseIntegrityError "MessageAttachmentSink::write: The stored size is smaller than the stream length"

variable {stream : AttachmentStream} {db : Db} {content : Bytes} {n : Nat}

private theorem write_of_closed (hclosed : stream.closed = true) (buffer : Bytes) :
    AttachmentStream.write buffer (stream, db) = .error (.assertionFailed "!closed_") (stream, db) := by
  unfold AttachmentStream.write
  simp only [bind_apply, get_apply, hclosed, if_true, throw_apply]

private theorem write_of_open (hclosed : stream.closed = false) (hopen : stream.bytesWritten = some n)
    (hcontent : contentOf db stream.key = some (some content)) (buffer : Bytes) :
    AttachmentStream.write buffer (stream, db) =
      if stream.size < n + buffer.length then
        .error storedTooSmall ({ stream with hashed := stream.hashed ++ buffer }, db)
      else .ok () (written stream db n content buffer) := by
  obtain ⟨row, hrow, hc⟩ := Option.map_eq_some_iff.mp hcontent
  have hopened : MessageAttachmentSink.openIfNotOpen ({ stream with hashed := stream.hashed ++ buffer }, db) =
      .ok () ({ stream with hashed := stream.hashed ++ buffer }, db) := openIfNotOpen_of_open hopen
  have hkey : AttachmentStream.key { stream with hashed := stream.hashed ++ buffer } = stream.key := rfl
  unfold AttachmentStream.write HashVerifyingFilter.write MessageAttachmentSink.write
  simp only [bind_apply, get_apply, hclosed, Bool.false_eq_true, if_false, modify_apply]
  rw [hopen] at hopened
  rw [hclosed] at hopened hkey
  rw [hopen] at hkey
  rw [hopen, hopened]
  dsimp only
  rw [hkey, hrow, Option.getD_some, Option.bind_some, hc, Option.getD_some]
  by_cases hsize : stream.size < n + buffer.length
  · rw [if_pos hsize, if_pos hsize]
    rfl
  · rw [if_neg hsize, if_neg hsize]
    unfold written
    rw [hclosed]
    rfl

/-- A stream without a blob makes it first. -/
theorem write_of_fresh {c : Option Bytes} (hclosed : stream.closed = false) (hfresh : stream.bytesWritten = none)
    (hcontent : contentOf db stream.key = some c) (buffer : Bytes) :
    AttachmentStream.write buffer (stream, db) =
      AttachmentStream.write buffer
        ({ stream with bytesWritten := some 0 }, setContent db stream.key (zeroblob stream.size)) := by
  have hopened : MessageAttachmentSink.openIfNotOpen ({ stream with hashed := stream.hashed ++ buffer }, db) =
      .ok ()
        ({ stream with hashed := stream.hashed ++ buffer, bytesWritten := some 0 },
          setContent db stream.key (zeroblob stream.size)) :=
    openIfNotOpen_of_some hcontent hfresh
  have hagain : MessageAttachmentSink.openIfNotOpen
      ({ stream with hashed := stream.hashed ++ buffer, bytesWritten := some 0 },
        setContent db stream.key (zeroblob stream.size)) =
      .ok ()
        ({ stream with hashed := stream.hashed ++ buffer, bytesWritten := some 0 },
          setContent db stream.key (zeroblob stream.size)) := openIfNotOpen_of_open rfl
  unfold AttachmentStream.write HashVerifyingFilter.write MessageAttachmentSink.write
  simp only [bind_apply, get_apply, hclosed, Bool.false_eq_true, if_false, modify_apply]
  rw [hclosed] at hopened hagain
  rw [hopened, hagain]

private theorem write_of_noRow (hclosed : stream.closed = false) (hfresh : stream.bytesWritten = none)
    (hcontent : contentOf db stream.key = none) (buffer : Bytes) :
    AttachmentStream.write buffer (stream, db) =
      .error (.sqliteException "query returned no rows") ({ stream with hashed := stream.hashed ++ buffer }, db) := by
  have hopened : MessageAttachmentSink.openIfNotOpen ({ stream with hashed := stream.hashed ++ buffer }, db) =
      .error (.sqliteException "query returned no rows") ({ stream with hashed := stream.hashed ++ buffer }, db) :=
    openIfNotOpen_of_none { stream with hashed := stream.hashed ++ buffer } db hcontent hfresh
  unfold AttachmentStream.write HashVerifyingFilter.write MessageAttachmentSink.write
  simp only [bind_apply, get_apply, hclosed, Bool.false_eq_true, if_false, modify_apply]
  rw [hclosed] at hopened
  rw [hopened]

private theorem contentOf_written (hcontent : contentOf db stream.key = some (some content)) (buffer : Bytes) :
    contentOf (written stream db n content buffer).2 stream.key = some (some (overwrite content n buffer)) := by
  unfold written
  rw [contentOf_setContent, if_pos rfl, hcontent]
  rfl

private theorem written_written (hn : n ≤ content.length) (buffer buffer' : Bytes) :
    written (written stream db n content buffer).1 (written stream db n content buffer).2 (n + buffer.length)
        (overwrite content n buffer) buffer' =
      written stream db n content (buffer ++ buffer') := by
  have hkey : (written stream db n content buffer).1.key = stream.key := rfl
  unfold written at hkey ⊢
  rw [hkey]
  dsimp only
  rw [setContent_setContent, overwrite_overwrite hn, List.append_assoc, List.length_append, Nat.add_assoc]

/-- Opening the blob of a fresh stream. -/
theorem hasBlob_zeroblob {c : Option Bytes} (hcontent : contentOf db stream.key = some c) :
    HasBlob ({ stream with bytesWritten := some 0 }, setContent db stream.key (zeroblob stream.size)) := by
  intro n hn
  refine ⟨zeroblob stream.size, ?_, ?_⟩
  · have hkey : AttachmentStream.key { stream with bytesWritten := some 0 } = stream.key := rfl
    rw [hkey, contentOf_setContent, if_pos rfl, hcontent]
    rfl
  · cases hn
    exact Nat.zero_le _

private theorem merge_of_open (hclosed : stream.closed = false) (hopen : stream.bytesWritten = some n)
    (hblob : HasBlob (stream, db)) (buffer buffer' : Bytes) :
    Same ((AttachmentStream.write buffer >>= fun _ => AttachmentStream.write buffer') (stream, db))
      (AttachmentStream.write (buffer ++ buffer') (stream, db)) := by
  obtain ⟨content, hcontent, hn⟩ := hblob n hopen
  rw [bind_apply, write_of_open hclosed hopen hcontent, write_of_open hclosed hopen hcontent, List.length_append]
  by_cases hsize : stream.size < n + buffer.length
  · rw [if_pos hsize, if_pos (by omega)]
    rfl
  · rw [if_neg hsize]
    dsimp only
    have hcontent' := contentOf_written (n := n) hcontent buffer
    have hclosed' : (written stream db n content buffer).1.closed = false := hclosed
    have hopen' : (written stream db n content buffer).1.bytesWritten = some (n + buffer.length) := rfl
    have hnext : AttachmentStream.write buffer' (written stream db n content buffer) =
        if stream.size < n + buffer.length + buffer'.length then
          .error storedTooSmall
            ({ (written stream db n content buffer).1 with hashed := stream.hashed ++ buffer ++ buffer' },
              (written stream db n content buffer).2)
        else
          .ok ()
            (written (written stream db n content buffer).1 (written stream db n content buffer).2 (n + buffer.length)
              (overwrite content n buffer) buffer') :=
      write_of_open hclosed' hopen' hcontent' buffer'
    rw [hnext, written_written hn, Nat.add_assoc]
    by_cases hsize' : stream.size < n + (buffer.length + buffer'.length)
    · rw [if_pos hsize', if_pos hsize']
      rfl
    · rw [if_neg hsize', if_neg hsize']
      rfl

private theorem hasBlob_write_of_open (hclosed : stream.closed = false) (hopen : stream.bytesWritten = some n)
    (hblob : HasBlob (stream, db)) {buffer : Bytes} {t' : AttachmentStream × Db}
    (hw : AttachmentStream.write buffer (stream, db) = .ok () t') : HasBlob t' := by
  obtain ⟨content, hcontent, hn⟩ := hblob n hopen
  rw [write_of_open hclosed hopen hcontent] at hw
  by_cases hsize : stream.size < n + buffer.length
  · rw [if_pos hsize] at hw
    cases hw
  · rw [if_neg hsize] at hw
    cases hw
    intro m hm
    cases hm
    exact ⟨_, contentOf_written hcontent buffer, length_overwrite hn⟩

private theorem hasBlob_write {buffer : Bytes} {t t' : AttachmentStream × Db} (ht : HasBlob t)
    (hw : AttachmentStream.write buffer t = .ok () t') : HasBlob t' := by
  obtain ⟨stream, db⟩ := t
  cases hclosed : stream.closed with
  | true =>
    rw [write_of_closed hclosed] at hw
    cases hw
  | false =>
    cases hopen : stream.bytesWritten with
    | some n => exact hasBlob_write_of_open hclosed hopen ht hw
    | none =>
      cases hcontent : contentOf db stream.key with
      | none =>
        rw [write_of_noRow hclosed hopen hcontent] at hw
        cases hw
      | some c =>
        rw [write_of_fresh hclosed hopen hcontent] at hw
        have hblob := hasBlob_zeroblob hcontent
        have hopened : AttachmentStream.bytesWritten { stream with bytesWritten := some 0 } = some 0 := rfl
        have hclosed' : AttachmentStream.closed { stream with bytesWritten := some 0 } = false := hclosed
        exact hasBlob_write_of_open hclosed' hopened hblob hw

private theorem merge_write (buffer buffer' : Bytes) {t : AttachmentStream × Db} (ht : HasBlob t) :
    Same ((AttachmentStream.write buffer >>= fun _ => AttachmentStream.write buffer') t)
      (AttachmentStream.write (buffer ++ buffer') t) := by
  obtain ⟨stream, db⟩ := t
  cases hclosed : stream.closed with
  | true =>
    rw [bind_apply, write_of_closed hclosed, write_of_closed hclosed]
    rfl
  | false =>
    cases hopen : stream.bytesWritten with
    | some n => exact merge_of_open hclosed hopen ht buffer buffer'
    | none =>
      cases hcontent : contentOf db stream.key with
      | none =>
        rw [bind_apply, write_of_noRow hclosed hopen hcontent, write_of_noRow hclosed hopen hcontent]
        rfl
      | some c =>
        rw [bind_apply, write_of_fresh hclosed hopen hcontent, write_of_fresh hclosed hopen hcontent, ← bind_apply]
        have hblob := hasBlob_zeroblob hcontent
        have hopened : AttachmentStream.bytesWritten { stream with bytesWritten := some 0 } = some 0 := rfl
        have hclosed' : AttachmentStream.closed { stream with bytesWritten := some 0 } = false := hclosed
        exact merge_of_open hclosed' hopened hblob buffer buffer'

/-- For the streams of the attachments the division into writes does not matter. -/
theorem merges_attachmentStreams : Merges (attachmentStreams P) HasBlob where
  make := by
    intro messageId dao db stream db' hmake n hn
    have hmake' : makeAttachmentStream P messageId dao db = .ok stream db' := hmake
    unfold makeAttachmentStream at hmake'
    cases hdecode : P.hexDecode dao.row.hash with
    | error e =>
      rw [hdecode] at hmake'
      cases e <;> cases hmake'
    | ok expectedHash =>
      rw [hdecode] at hmake'
      dsimp only at hmake'
      split at hmake'
      · cases hmake'
      · cases hmake'
        cases hn
  write buffer t t' ht hw := hasBlob_write ht hw
  merge buffer buffer' t ht := merge_write buffer buffer' ht

/-! ### The sink -/

/-- Both end in the same way, and with the same database if they return. -/
inductive SameSink : EStateM.Result Exn AttachmentSplittingSink Unit → EStateM.Result Exn AttachmentSplittingSink Unit → Prop
  | ok {s s' : AttachmentSplittingSink} (hdb : s.db = s'.db) : SameSink (.ok () s) (.ok () s')
  | error (e : Exn) (s s' : AttachmentSplittingSink) : SameSink (.error e s) (.error e s')

private theorem SameSink.of_ofResult {r r' : EStateM.Result Exn AttachmentSplittingSink Unit}
    (h : SameRun (ofResult P r) (ofResult P r')) : SameSink r r' := by
  cases r with
  | ok u s =>
    cases r' with
    | ok u' s' =>
      cases h with
      | ok hworld => exact .ok hworld
    | error e' s' => cases h
  | error e s =>
    cases r' with
    | ok u' s' => cases h
    | error e' s' =>
      cases h
      exact .error e s s'

private theorem sameSink_run (db : Db) (messageId : IdType) (daos : List AttachmentDao) {writes writes' : List Bytes}
    (hflat : writes'.flatten = writes.flatten) :
    SameSink (AttachmentSplittingSink.run P db messageId daos writes)
      (AttachmentSplittingSink.run P db messageId daos writes') := by
  have hsame := run_of_flatten (merges_attachmentStreams (P := P)) db messageId daos hflat
  rw [← run_eq, ← run_eq] at hsame
  exact .of_ofResult hsame

/-- What the streams are given, in order: each with its part of the text. -/
def delivered (slices : List (AttachmentDao × List Bytes)) : List (AttachmentDao × Bytes) :=
  slices.map fun slice => (slice.1, slice.2.flatten)

theorem SplittingSink.Slices.delivered {daos : List AttachmentDao} {text : Bytes} {slices : List (AttachmentDao × List Bytes)}
    {e : Option Exn} (h : Slices daos text slices e) (hle : total daos ≤ text.length) :
    KulloClient.delivered slices = SplittingSink.parts daos text := by
  refine h.parts.eq_of_length ?_
  rw [List.length_map, h.length hle, length_parts]

/-- How a run on a text of this length ends, if no stream raises. -/
def endingFor (daos : List AttachmentDao) (length : Nat) : Option Exn :=
  if length = total daos then none else if total daos < length then some tooLong else some tooShort

/-- Whatever the streams are: each is made, written and closed once, in the order of the queue, with its part of the text;
if none of them raises, the lengths decide how the run ends.  For the streams of the attachments the division of the text
into writes does not matter, nor for others of their kind. -/
theorem splits_text (P : StreamPlatform) :
    (∀ (F : StreamFactory) (world : F.World) (messageId : IdType) (daos : List AttachmentDao) (writes : List Bytes),
      ∃ slices : List (AttachmentDao × List Bytes),
        delivered slices <+: parts daos writes.flatten ∧
        (total daos ≤ writes.flatten.length → delivered slices = parts daos writes.flatten) ∧
        EndsAs (SplittingSink.run F world messageId daos writes) (endingFor daos writes.flatten.length)
          (writeEach (exec F messageId) (slices.flatMap streamCalls) (none, world))) ∧
    (∀ (F : StreamFactory) (I : F.Stream × F.World → Prop), Merges F I →
      ∀ (world : F.World) (messageId : IdType) (daos : List AttachmentDao) (writes writes' : List Bytes),
        writes'.flatten = writes.flatten →
          SameRun (SplittingSink.run F world messageId daos writes) (SplittingSink.run F world messageId daos writes')) ∧
    (∀ (db : Db) (messageId : IdType),
      (AttachmentDao.allForMessage db false messageId).Pairwise fun dao dao' => dao.row.index < dao'.row.index) ∧
    ∀ (db : Db) (messageId : IdType) (daos : List AttachmentDao) (writes : List Bytes),
      ofResult P (AttachmentSplittingSink.run P db messageId daos writes) =
        SplittingSink.run (attachmentStreams P) db messageId daos writes ∧
      ∀ writes' : List Bytes, writes'.flatten = writes.flatten →
        SameSink (AttachmentSplittingSink.run P db messageId daos writes)
          (AttachmentSplittingSink.run P db messageId daos writes') := by
  refine ⟨?_, ?_, ?_, ?_⟩
  · intro F world messageId daos writes
    obtain ⟨slices, e, hslices, hrun⟩ := run_slices world messageId daos writes
    refine ⟨slices, hslices.parts, hslices.delivered, ?_⟩
    rw [hslices.ending] at hrun
    exact hrun
  · intro F I h world messageId daos writes writes' hflat
    exact run_of_flatten h world messageId daos hflat
  · intro db messageId
    exact AttachmentDao.pairwise_allForMessage db false messageId
  · intro db messageId daos writes
    refine ⟨run_eq db messageId daos writes, ?_⟩
    intro writes' hflat
    exact sameSink_run db messageId daos hflat

/-- An attachment of message 7 whose hash is that of a text with these two digits and zeros. -/
def sampleAttachment (index size : Nat) (digits : List Char) : AttachmentRow :=
  ⟨false, 7, index, "a", "b", size, String.ofList (digits ++ List.replicate 124 '0'), ""⟩

/-- An empty attachment, one of two bytes and another empty one. -/
def sampleAttachments : List AttachmentRow :=
  [sampleAttachment 0 0 ['0', '0', '0', '0'], sampleAttachment 1 2 ['0', '1', '0', '2'],
    sampleAttachment 2 0 ['0', '0', '0', '0']]

def sampleAttachmentsDb : Db where
  attachments := ⟨sampleAttachments, by simp [sampleAttachments, sampleAttachment, AttachmentRow.key]⟩
  attachmentsContent := ⟨[⟨false, 7, 0, none⟩, ⟨false, 7, 1, none⟩, ⟨false, 7, 2, none⟩], by decide⟩

/-- The two bytes in one write, and in two with empty writes around them. -/
theorem splits_text_three :
    (∃ slices : List (AttachmentDao × List Bytes),
      (delivered slices).map Prod.snd = [[], [1, 2], []] ∧
      EndsAs
        (SplittingSink.run (attachmentStreams .transparent) sampleAttachmentsDb 7
          (sampleAttachments.map AttachmentDao.ofRow) [[1, 2]]) none
        (writeEach (exec (attachmentStreams .transparent) 7) (slices.flatMap streamCalls) (none, sampleAttachmentsDb))) ∧
    SameRun
      (SplittingSink.run (attachmentStreams .transparent) sampleAttachmentsDb 7 (sampleAttachments.map AttachmentDao.ofRow)
        [[1, 2]])
      (SplittingSink.run (attachmentStreams .transparent) sampleAttachmentsDb 7 (sampleAttachments.map AttachmentDao.ofRow)
        [[], [1], [], [2], []]) ∧
    SameSink
      (AttachmentSplittingSink.run .transparent sampleAttachmentsDb 7 (sampleAttachments.map AttachmentDao.ofRow) [[1, 2]])
      (AttachmentSplittingSink.run .transparent sampleAttachmentsDb 7 (sampleAttachments.map AttachmentDao.ofRow)
        [[], [1], [], [2], []]) := by
  obtain ⟨hslices, hdivision, -, hsink⟩ := splits_text .transparent
  have hflat : ([[], [1], [], [2], []] : List Bytes).flatten = ([[1, 2]] : List Bytes).flatten := rfl
  refine ⟨?_, ?_, ?_⟩
  · obtain ⟨slices, -, hdelivered, hrun⟩ :=
      hslices (attachmentStreams .transparent) sampleAttachmentsDb 7 (sampleAttachments.map AttachmentDao.ofRow) [[1, 2]]
    have hsize : total (sampleAttachments.map AttachmentDao.ofRow) = 2 := rfl
    refine ⟨slices, ?_, hrun⟩
    rw [hdelivered (Nat.le_of_eq hsize)]
    rfl
  · exact hdivision (attachmentStreams .transparent) HasBlob merges_attachmentStreams sampleAttachmentsDb 7
      (sampleAttachments.map AttachmentDao.ofRow) [[1, 2]] [[], [1], [], [2], []] hflat
  · exact (hsink sampleAttachmentsDb 7 (sampleAttachments.map AttachmentDao.ofRow) [[1, 2]]).2 [[], [1], [], [2], []] hflat

example :
    (match AttachmentSplittingSink.run .transparent sampleAttachmentsDb 7 (sampleAttachments.map AttachmentDao.ofRow)
        [[], [1], [], [2], []] with
    | .ok _ s => s.db.attachmentsContent.rows.map AttachmentContentRow.content
    | .error _ _ => []) = [some [], some [1, 2], some []] := by decide +kernel

end KulloClient
