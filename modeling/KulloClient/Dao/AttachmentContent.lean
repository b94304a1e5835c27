import KulloClient.Base.Imperative
import KulloClient.Dao.Attachment

/-!
# The content of an attachment

`setContent` copies a stream into a blob of the size that was declared for the attachment, block by block and inside a
savepoint.  The stream must end at the last byte of the blob; the copy is given up where it does not.
-/

namespace KulloClient

open Imperative

def AttachmentContentRow.withContent (content : Bytes) (c : AttachmentContentRow) : AttachmentContentRow :=
  { c with content := some content }

@[simp] theorem AttachmentContentRow.withContent_key (content : Bytes) (c : AttachmentContentRow) :
    (c.withContent content).key = c.key := rfl

/-- `UPDATE attachments_content SET content = ... WHERE rowid = ...`. -/
def setContent (db : Db) (key : AttachmentKey) (content : Bytes) : Db :=
  { db with
    attachmentsContent := db.attachmentsContent.updateWhere (fun c => c.key == key)
      (AttachmentContentRow.withContent content) (AttachmentContentRow.withContent_key content) }

/-- Writing to a blob of fixed size. -/
def overwrite (content : Bytes) (offset : Nat) (buffer : Bytes) : Bytes :=
  content.take offset ++ buffer ++ content.drop (offset + buffer.length)

def zeroblob (size : Nat) : Bytes := List.replicate size 0

/-- The content column of an attachment; `none` without a row. -/
def contentOf (db : Db) (key : AttachmentKey) : Option (Option Bytes) :=
  (db.attachmentsContent.find? key).map AttachmentContentRow.content

@[simp] theorem setContent_attachments (db : Db) (key : AttachmentKey) (content : Bytes) :
    (setContent db key content).attachments = db.attachments := rfl

@[simp] theorem setContent_messages (db : Db) (key : AttachmentKey) (content : Bytes) :
    (setContent db key content).messages = db.messages := rfl

@[simp] theorem find?_setContent (db : Db) (key k : AttachmentKey) (content : Bytes) :
    (setContent db key content).attachmentsContent.find? k =
      (db.attachmentsContent.find? k).map fun c => if c.key == key then c.withContent content else c := by
  unfold setContent
  rw [Relational.Table.find?_updateWhere]

theorem contentOf_setContent (db : Db) (key k : AttachmentKey) (content : Bytes) :
    contentOf (setContent db key content) k =
      if k = key then (contentOf db k).map fun _ => some content else contentOf db k := by
  unfold contentOf
  rw [find?_setContent]
  cases h : db.attachmentsContent.find? k with
  | none => simp
  | some c =>
    have hk : c.key = k := Relational.Table.key_of_find? h
    by_cases hkey : k = key
    · simp [hk, hkey, AttachmentContentRow.withContent]
    · simp [hk, hkey]

/-- The last write to a content counts. -/
theorem setContent_setContent (db : Db) (key : AttachmentKey) (c c' : Bytes) :
    setContent (setContent db key c) key c' = setContent db key c' := by
  unfold setContent
  congr 1
  apply Relational.Table.ext_rows
  unfold Relational.Table.updateWhere
  simp only [List.map_map]
  apply List.map_congr_left
  intro r _
  simp only [Function.comp_apply]
  by_cases hk : r.key == key
  · have hcollapse : (r.withContent c).withContent c' = r.withContent c' := rfl
    simp [hk, hcollapse]
  · simp [hk]

/-! ### Input streams -/

/-- The state of a `std::istream`: `eof` is `eofbit` with `failbit`. -/
inductive IoState
  | good
  | eof
  | bad
  deriving DecidableEq

/-- A `std::istream`: the bytes it still delivers, and whether it ends with a read error. -/
structure InputStream where
  rest : Bytes
  fault : Bool := false
  state : IoState := .good
  deriving DecidableEq

namespace InputStream

/-- `read` and `gcount`. -/
def read (s : InputStream) (n : Nat) : Bytes × InputStream :=
  if n ≤ s.rest.length then (s.rest.take n, { s with rest := s.rest.drop n })
  else (s.rest, { s with rest := [], state := if s.fault then .bad else .eof })

/-- The bytes that can be read; none once the stream is not good any more. -/
def content (s : InputStream) : Bytes := if s.state = .good then s.rest else []

/-- Whether reading to the end is an error. -/
def fails (s : InputStream) : Bool := if s.state = .good then s.fault else s.state == .bad

end InputStream

/-- `STREAM_BUF_SIZE`. -/
def streamBufSize : Nat := 1024

/-- The blocks in which a stream is read, the last of which is not full. -/
def InputStream.blocks (content : Bytes) : List Bytes :=
  if _h : streamBufSize ≤ content.length then
    content.take streamBufSize :: InputStream.blocks (content.drop streamBufSize)
  else [content]
termination_by content.length
decreasing_by
  rw [List.length_drop]
  unfold streamBufSize at *
  omega

/-! ### The copy -/

/-- The callback of `setContent`: whether it raises when it is given the last of these blocks. -/
abbrev ContentCallback := List Bytes → Except Exn Unit

/-- The state of the copy. -/
structure Copying where
  db : Db
  input : InputStream
  /-- The blocks the callback was given. -/
  given : List Bytes := []
  bytesProcessed : Nat := 0

abbrev CopyM := EStateM Exn Copying

namespace AttachmentDao

variable (d : AttachmentDao) (callback : ContentCallback)

/-- The body of the loop. -/
def copyBlock : CopyM Unit := do
  let s ← get
  let (buffer, input) := s.input.read streamBufSize
  set { s with input := input }
  if d.row.size < s.bytesProcessed + buffer.length then
    throw (.databaseIntegrityError "AttachmentDao::setContent: The stored size is smaller than the stream size")
  else do
    -- the blob has its size from the start and is overwritten in place
    let blob := ((contentOf s.db d.row.key).join).getD []
    set
      { db := KulloClient.setContent s.db d.row.key (overwrite blob s.bytesProcessed buffer)
        input := input
        given := s.given ++ [buffer]
        bytesProcessed := s.bytesProcessed + buffer.length : Copying }
    match callback (s.given ++ [buffer]) with
    | .ok () => pure ()
    | .error e => throw e

/-- The loop, for at most `fuel` rounds. -/
def copyLoop : Nat → CopyM Unit
  | 0 => pure ()
  | fuel + 1 => do
    if (← get).input.state = .good then do
      copyBlock d callback
      copyLoop fuel
    else pure ()

/-- What is done for an attachment that is not empty.  A round in which the stream does not end takes a whole block. -/
def copy : CopyM Unit := do
  copyLoop d callback ((← get).input.rest.length / streamBufSize + 2)
  let s ← get
  if s.input.state = .bad then throw (.filesystemError "Failed to read attachment from stream")
  else if s.bytesProcessed < d.row.size then
    throw (.databaseIntegrityError "AttachmentDao::setContent: The stored size is larger than the stream size")
  else pure ()

/-- `setContent`: the blocks the callback was given.  The savepoint is rolled back when something is raised. -/
def setContent (input : InputStream) : EStateM Exn Db (List Bytes) := fun db =>
  match db.attachmentsContent.find? d.row.key with
  | none => .error (.sqliteException "query returned no rows") db
  | some _ =>
    let zeroed := KulloClient.setContent db d.row.key (zeroblob d.row.size)
    if d.row.size = 0 then .ok [] zeroed
    else
      match copy d callback { db := zeroed, input := input } with
      | .ok _ s => .ok s.given s.db
      | .error e _ => .error e db

/-! ### Which streams are copied -/

/-- The callback raises at none of the blocks that follow those it was given. -/
def Accepts : List Bytes → List Bytes → Prop
  | _, [] => True
  | given, buffer :: buffers => callback (given ++ [buffer]) = .ok () ∧ Accepts (given ++ [buffer]) buffers

/-- What the stream still delivers fits into the blob and is taken by the callback. -/
def Fits (s : Copying) : Prop :=
  s.bytesProcessed + s.input.rest.length ≤ d.row.size ∧ Accepts callback s.given (InputStream.blocks s.input.rest)

variable {d callback} {db : Db} {s : Copying} {copied : Bytes}

private theorem flatten_blocks (content : Bytes) : (InputStream.blocks content).flatten = content := by
  induction content using InputStream.blocks.induct with
  | case1 content h ih =>
    rw [InputStream.blocks, dif_pos h, List.flatten_cons, ih, List.take_append_drop]
  | case2 content h =>
    rw [InputStream.blocks, dif_neg h, List.flatten_singleton]

private theorem overwrite_append (copied buffer : Bytes) (n : Nat) :
    overwrite (copied ++ zeroblob n) copied.length buffer = copied ++ buffer ++ zeroblob (n - buffer.length) := by
  unfold overwrite zeroblob
  rw [List.take_left, List.drop_append, List.drop_eq_nil_of_le (Nat.le_add_right _ _), List.nil_append,
    List.drop_replicate]
  congr 2
  omega

/-- One round of the loop, when the buffer is what the stream delivers. -/
theorem copyBlock_ends {buffer : Bytes} {input : InputStream} (hread : s.input.read streamBufSize = (buffer, input))
    (hrow : (contentOf db d.row.key).isSome = true)
    (hdb : s.db = KulloClient.setContent db d.row.key (copied ++ zeroblob (d.row.size - copied.length)))
    (hprocessed : s.bytesProcessed = copied.length) :
    Ends (copyBlock d callback) s
      (fun _ s' => copied.length + buffer.length ≤ d.row.size ∧ callback (s.given ++ [buffer]) = .ok () ∧
        s' =
          { db := KulloClient.setContent db d.row.key
              (copied ++ buffer ++ zeroblob (d.row.size - (copied ++ buffer).length))
            input := input
            given := s.given ++ [buffer]
            bytesProcessed := (copied ++ buffer).length })
      (fun _ _ => ¬ (copied.length + buffer.length ≤ d.row.size ∧ callback (s.given ++ [buffer]) = .ok ())) := by
  have hblob : (contentOf s.db d.row.key).join.getD [] = copied ++ zeroblob (d.row.size - copied.length) := by
    obtain ⟨c, hc⟩ := Option.isSome_iff_exists.mp hrow
    rw [hdb, contentOf_setContent, if_pos rfl, hc]
    rfl
  unfold copyBlock
  simp only [ends_bind, ends_get, hread, ends_set]
  by_cases hfits : d.row.size < s.bytesProcessed + buffer.length
  · rw [if_pos hfits]
    simp only [ends_throw]
    omega
  · rw [if_neg hfits]
    simp only [ends_bind, ends_set, hblob, hprocessed]
    cases hcallback : callback (s.given ++ [buffer]) with
    | error e =>
      simp only [ends_throw]
      rintro ⟨-, hok⟩
      cases hok
    | ok _ =>
      simp only [ends_pure]
      refine ⟨by omega, trivial, ?_⟩
      rw [overwrite_append, hdb, setContent_setContent, List.length_append, Nat.sub_add_eq]

/-- The loop ends at the end of the stream. -/
theorem copyLoop_ends {fuel : Nat} (hfuel : s.input.rest.length < streamBufSize * fuel) (hgood : s.input.state = .good)
    (hrow : (contentOf db d.row.key).isSome = true)
    (hdb : s.db = KulloClient.setContent db d.row.key (copied ++ zeroblob (d.row.size - copied.length)))
    (hprocessed : s.bytesProcessed = copied.length) :
    Ends (copyLoop d callback fuel) s
      (fun _ s' => Fits d callback s ∧
        s' =
          { db := KulloClient.setContent db d.row.key
              (copied ++ s.input.rest ++ zeroblob (d.row.size - (copied ++ s.input.rest).length))
            input := { rest := [], fault := s.input.fault, state := if s.input.fault then .bad else .eof }
            given := s.given ++ InputStream.blocks s.input.rest
            bytesProcessed := (copied ++ s.input.rest).length })
      (fun _ _ => ¬ Fits d callback s) := by
  induction fuel generalizing s copied with
  | zero => omega
  | succ fuel ih =>
    unfold copyLoop Fits
    simp only [ends_bind, ends_get, hgood, if_true]
    by_cases hfull : streamBufSize ≤ s.input.rest.length
    · -- the stream goes on after the block
      have hread : s.input.read streamBufSize =
          (s.input.rest.take streamBufSize, { s.input with rest := s.input.rest.drop streamBufSize }) := if_pos hfull
      have hlength : (s.input.rest.take streamBufSize).length = streamBufSize := by
        rw [List.length_take]
        omega
      have hblocks : InputStream.blocks s.input.rest =
          s.input.rest.take streamBufSize :: InputStream.blocks (s.input.rest.drop streamBufSize) := by
        rw [InputStream.blocks, dif_pos hfull]
      rw [hblocks]
      refine (copyBlock_ends hread hrow hdb hprocessed).mono ?_ ?_
      · rintro _ s' ⟨hle, hcallback, rfl⟩
        have hrest : (s.input.rest.drop streamBufSize).length < streamBufSize * fuel := by
          rw [List.length_drop]
          rw [Nat.mul_succ] at hfuel
          omega
        refine Ends.mono (@ih ⟨_, { s.input with rest := s.input.rest.drop streamBufSize }, _, _⟩
          (copied ++ s.input.rest.take streamBufSize) hrest hgood rfl rfl) ?_ ?_
        · rintro _ s'' ⟨⟨hsize, haccepts⟩, rfl⟩
          refine ⟨⟨?_, hcallback, haccepts⟩, ?_⟩
          · dsimp only at hsize
            rw [List.length_append, List.length_drop, hlength] at hsize
            omega
          · simp only [List.append_assoc, List.take_append_drop, List.singleton_append]
        · rintro _ s'' hfits ⟨hsize, -, haccepts⟩
          refine hfits ⟨?_, haccepts⟩
          dsimp only
          rw [List.length_append, List.length_drop, hlength]
          omega
      · rintro _ _ hfits ⟨hsize, hcallback, -⟩
        refine hfits ⟨?_, hcallback⟩
        rw [hlength]
        omega
    · -- the stream ends in the block
      have hread : s.input.read streamBufSize =
          (s.input.rest, { s.input with rest := [], state := if s.input.fault then .bad else .eof }) := if_neg hfull
      have hblocks : InputStream.blocks s.input.rest = [s.input.rest] := by
        rw [InputStream.blocks, dif_neg hfull]
      rw [hblocks]
      refine (copyBlock_ends hread hrow hdb hprocessed).mono ?_ ?_
      · rintro _ s' ⟨hle, hcallback, rfl⟩
        have hstop : ∀ fuel, ∀ s' : Copying, s'.input.state ≠ .good →
            copyLoop d callback fuel s' = .ok () s' := by
          intro fuel s' hstate
          cases fuel with
          | zero => rfl
          | succ fuel => simp only [copyLoop, bind_apply, get_apply, if_neg hstate, pure_apply]
        have hstate : (if s.input.fault then IoState.bad else .eof) ≠ .good := by
          split <;> exact IoState.noConfusion
        refine Ends.of_eq_ok (hstop fuel _ hstate) ⟨⟨?_, hcallback, trivial⟩, rfl⟩
        omega
      · rintro _ _ hfits ⟨hsize, hcallback, -⟩
        exact hfits ⟨by omega, hcallback⟩

/-- No read and no callback fails; nothing is read for an attachment without content. -/
def NoError (d : AttachmentDao) (callback : ContentCallback) (input : InputStream) : Prop :=
  d.row.size = 0 ∨ input.fails = false ∧ Accepts callback [] (InputStream.blocks input.content)

theorem setContent_of_size_eq_zero (hrow : (contentOf db d.row.key).isSome = true) (hsize : d.row.size = 0)
    (input : InputStream) : setContent d callback input db = .ok [] (KulloClient.setContent db d.row.key []) := by
  obtain ⟨content, hcontent⟩ := Option.isSome_iff_exists.mp hrow
  obtain ⟨c, hc, -⟩ := Option.map_eq_some_iff.mp hcontent
  unfold setContent
  rw [hc]
  dsimp only
  rw [if_pos hsize, hsize]
  rfl

/-- A stream is copied if it has the size of the attachment and nothing fails. -/
theorem copy_ends (hrow : (contentOf db d.row.key).isSome = true) {input : InputStream} (hgood : input.state = .good) :
    Ends (copy d callback)
      { db := KulloClient.setContent db d.row.key (zeroblob d.row.size), input := input }
      (fun _ s' => (input.rest.length = d.row.size ∧ input.fault = false ∧
          Accepts callback [] (InputStream.blocks input.rest)) ∧
        s'.given = InputStream.blocks input.rest ∧ s'.db = KulloClient.setContent db d.row.key input.rest)
      (fun _ _ => ¬ (input.rest.length = d.row.size ∧ input.fault = false ∧
        Accepts callback [] (InputStream.blocks input.rest))) := by
  unfold copy
  simp only [ends_bind, ends_get]
  have hfuel : input.rest.length < streamBufSize * (input.rest.length / streamBufSize + 2) := by
    unfold streamBufSize
    omega
  refine Ends.mono (@copyLoop_ends d callback db
    { db := KulloClient.setContent db d.row.key (zeroblob d.row.size), input := input } [] _ hfuel hgood hrow rfl rfl)
    ?_ ?_
  · rintro _ s' ⟨⟨hle, haccepts⟩, rfl⟩
    dsimp only at hle ⊢
    rw [Nat.zero_add] at hle
    cases hfault : input.fault with
    | true =>
      simp only [if_true, ends_throw]
      rintro ⟨-, hfalse, -⟩
      cases hfalse
    | false =>
      simp only [Bool.false_eq_true, if_false, reduceCtorEq, List.nil_append]
      by_cases hshort : input.rest.length < d.row.size
      · rw [if_pos hshort]
        simp only [ends_throw]
        omega
      · rw [if_neg hshort]
        simp only [ends_pure]
        refine ⟨⟨by omega, trivial, haccepts⟩, trivial, ?_⟩
        have hfull : d.row.size - input.rest.length = 0 := by omega
        rw [hfull, zeroblob, List.replicate_zero, List.append_nil]
  · rintro _ s' hfits ⟨hlength, -, haccepts⟩
    refine hfits ⟨?_, haccepts⟩
    dsimp only
    omega

/-- What `setContent` does with a stream for an attachment that has a size. -/
theorem setContent_spec (hrow : (contentOf db d.row.key).isSome = true) (hsize : d.row.size ≠ 0) (input : InputStream) :
    (input.content.length = d.row.size ∧ NoError d callback input ∧
      setContent d callback input db =
        .ok (InputStream.blocks input.content) (KulloClient.setContent db d.row.key input.content)) ∨
    (¬ (input.content.length = d.row.size ∧ NoError d callback input) ∧
      ∃ e, setContent d callback input db = .error e db) := by
  obtain ⟨content, hcontent⟩ := Option.isSome_iff_exists.mp hrow
  obtain ⟨c, hc, -⟩ := Option.map_eq_some_iff.mp hcontent
  unfold setContent NoError
  rw [hc]
  dsimp only
  rw [if_neg hsize]
  by_cases hgood : input.state = .good
  · have hcopy := @copy_ends d callback db hrow input hgood
    unfold InputStream.content InputStream.fails
    rw [if_pos hgood, if_pos hgood]
    revert hcopy
    unfold Ends
    cases copy d callback { db := KulloClient.setContent db d.row.key (zeroblob d.row.size), input := input } with
    | ok _ s =>
      rintro ⟨⟨hlength, hfault, haccepts⟩, hgiven, hdb⟩
      refine .inl ⟨hlength, .inr ⟨hfault, haccepts⟩, ?_⟩
      rw [← hgiven, ← hdb]
    | error e s =>
      intro hnot
      refine .inr ⟨?_, e, rfl⟩
      rintro ⟨hlength, hzero | ⟨hfault, haccepts⟩⟩
      · exact hsize hzero
      · exact hnot ⟨hlength, hfault, haccepts⟩
  · -- nothing is read from the stream
    have hcontent : input.content = [] := if_neg hgood
    refine .inr ⟨?_, ?_⟩
    · rintro ⟨hlength, -⟩
      rw [hcontent] at hlength
      exact hsize hlength.symm
    · have hpos : 0 < d.row.size := Nat.pos_of_ne_zero hsize
      unfold copy copyLoop
      simp only [bind_apply, get_apply, if_neg hgood, pure_apply, if_pos hpos]
      split
      · next h =>
        split at h <;> cases h
      · exact ⟨_, rfl⟩

/-- The content is stored as a whole or not at all, and it is stored if the stream has the size of the attachment and
nothing fails. -/
structure AllOrNothing (d : AttachmentDao) (callback : ContentCallback) (input : InputStream) (db : Db) : Prop where
  stored : ∀ given db', setContent d callback input db = .ok given db' →
    input.content.length = d.row.size ∧ contentOf db' d.row.key = some (some input.content) ∧
      given.flatten = input.content
  unchanged : ∀ e db', setContent d callback input db = .error e db' → db' = db
  succeeds : (∃ given db', setContent d callback input db = .ok given db') ↔
    input.content.length = d.row.size ∧ NoError d callback input

/-- The content of an attachment is all or nothing, but for streams that are given for an attachment of size 0 and
are not empty. -/
theorem setContent_allOrNothing_iff (hrow : (contentOf db d.row.key).isSome = true) (input : InputStream) :
    AllOrNothing d callback input db ↔ d.row.size ≠ 0 ∨ input.content = [] := by
  constructor
  · intro hall
    by_cases hsize : d.row.size = 0
    -- with the size 0 nothing of the stream is read
    · have hlength := (hall.stored _ _ (setContent_of_size_eq_zero hrow hsize input)).1
      rw [hsize] at hlength
      exact .inr (List.eq_nil_of_length_eq_zero hlength)
    · exact .inl hsize
  · intro hcond
    have hcontent : ∀ content, contentOf (KulloClient.setContent db d.row.key content) d.row.key = some (some content) := by
      intro content
      obtain ⟨c, hc⟩ := Option.isSome_iff_exists.mp hrow
      rw [contentOf_setContent, if_pos rfl, hc, Option.map_some]
    by_cases hsize : d.row.size = 0
    -- an empty stream fits into the size 0
    · have hempty : input.content = [] := hcond.resolve_left (fun h => h hsize)
      have hok := @setContent_of_size_eq_zero d callback db hrow hsize input
      constructor
      · intro given db' h
        rw [hok] at h
        cases h
        rw [hempty, hsize]
        exact ⟨rfl, hcontent [], rfl⟩
      · intro e db' h
        rw [hok] at h
        cases h
      · rw [hempty, hsize]
        exact ⟨fun _ => ⟨rfl, .inl hsize⟩, fun _ => ⟨_, _, hok⟩⟩
    · rcases @setContent_spec d callback db hrow hsize input with ⟨hlength, hnoError, hok⟩ | ⟨hnot, e, herror⟩
      · constructor
        · intro given db' h
          rw [hok] at h
          cases h
          exact ⟨hlength, hcontent _, flatten_blocks _⟩
        · intro e db' h
          rw [hok] at h
          cases h
        · exact ⟨fun _ => ⟨hlength, hnoError⟩, fun _ => ⟨_, _, hok⟩⟩
      · constructor
        · intro given db' h
          rw [herror] at h
          cases h
        · intro e' db' h
          rw [herror] at h
          cases h
          rfl
        · refine ⟨?_, fun h => absurd h hnot⟩
          rintro ⟨given, db', h⟩
          rw [herror] at h
          cases h

/-- A database with one attachment without content. -/
def oneAttachment (size : Nat) : Db where
  attachments := ⟨[⟨true, 1, 0, "a", "text/plain", size, "", ""⟩], by simp⟩
  attachmentsContent := ⟨[⟨true, 1, 0, none⟩], by simp⟩

theorem setContent_allOrNothing_twoBytes :
    AllOrNothing (ofRow ⟨true, 1, 0, "a", "text/plain", 2, "", ""⟩) (fun _ => .ok ()) { rest := [7, 8] }
      (oneAttachment 2) :=
  (setContent_allOrNothing_iff (by decide) _).mpr (.inl (by decide))

/-- A stream that grew after the size of its file was read. -/
theorem setContent_not_allOrNothing_grown : ¬ ∀ (d : AttachmentDao) (callback : ContentCallback) (input : InputStream)
    (db : Db), (contentOf db d.row.key).isSome = true → AllOrNothing d callback input db := by
  intro hclaim
  have hall := hclaim (ofRow ⟨true, 1, 0, "a", "text/plain", 0, "", ""⟩) (fun _ => .ok ()) { rest := [7] }
    (oneAttachment 0) (by decide)
  have hlength := (hall.stored [] _ (setContent_of_size_eq_zero (by decide) rfl _)).1
  cases hlength

end AttachmentDao

end KulloClient
