import KulloClient.Codec.AttachmentSplittingSink
import KulloClient.Dao.AttachmentPairs

/-!
# Splitting a stream

`AttachmentSplittingSink` with any factory of streams.  What it does to a text is a list of calls of the streams, which
depends on the sizes of the attachments only; the streams may raise whatever they like.
-/

namespace KulloClient

open Pipeline Imperative

/-- `AttachmentProcessingStreamFactory` and the chains of its streams, which all work on one world. -/
structure StreamFactory where
  World : Type
  Stream : Type
  /-- `Hex::decode` of the hash, and `makeStream`. -/
  makeStream : IdType → AttachmentDao → EStateM Exn World Stream
  write : Bytes → EStateM Exn (Stream × World) Unit
  close : EStateM Exn (Stream × World) Unit

structure SplittingSink (F : StreamFactory) where
  world : F.World
  messageId : IdType
  attachmentDaos : List AttachmentDao
  stream : Option F.Stream := none
  bytesLeftInCurrentStream : Nat := 0

namespace SplittingSink

variable {F : StreamFactory}

abbrev SplitM (F : StreamFactory) := EStateM Exn (SplittingSink F)

/-- Runs a call of the current stream. -/
def onStream (stream : F.Stream) (x : EStateM Exn (F.Stream × F.World) Unit) : SplitM F Unit := fun s =>
  match x (stream, s.world) with
  | .ok _ t => .ok () { s with stream := some t.1, world := t.2 }
  | .error e t => .error e { s with stream := some t.1, world := t.2 }

def makeStream : SplitM F Unit := fun s =>
  match s.attachmentDaos with
  | [] => .ok () s
  | dao :: attachmentDaos =>
    let s := { s with bytesLeftInCurrentStream := dao.row.size }
    match F.makeStream s.messageId dao s.world with
    | .ok stream world => .ok () { s with stream := some stream, world := world, attachmentDaos := attachmentDaos }
    | .error e world => .error e { s with world := world }

theorem makeStream_apply (s : SplittingSink F) :
    makeStream s =
      match s.attachmentDaos with
      | [] => .ok () s
      | dao :: attachmentDaos =>
        match F.makeStream s.messageId dao s.world with
        | .ok stream world =>
          .ok ()
            { s with
              bytesLeftInCurrentStream := dao.row.size
              stream := some stream
              world := world
              attachmentDaos := attachmentDaos }
        | .error e world => .error e { s with bytesLeftInCurrentStream := dao.row.size, world := world } := rfl

def closeStream : SplitM F Unit := do
  match (← get).stream with
  | none => pure ()
  | some stream => do
    onStream stream F.close
    modify fun s => { s with stream := none }

/-- One round of the loop of `write`: whether it goes on, and what is left of the buffer. -/
def writeRound (buffer : Bytes) : SplitM F (Bool × Bytes) := do
  let s ← get
  match s.stream with
  | none => pure (false, buffer)
  | some stream =>
    if buffer.isEmpty then pure (false, buffer)
    else do
      let bytesToWrite := min buffer.length s.bytesLeftInCurrentStream
      onStream stream (F.write (buffer.take bytesToWrite))
      modify fun s => { s with bytesLeftInCurrentStream := s.bytesLeftInCurrentStream - bytesToWrite }
      if s.bytesLeftInCurrentStream - bytesToWrite = 0 then do
        closeStream
        makeStream
      pure (true, buffer.drop bytesToWrite)

/-- The loop of `write`, with the rounds it has at most. -/
def writeLoop : Nat → Bytes → SplitM F Bytes
  | 0, buffer => pure buffer
  | n + 1, buffer => do
    let (more, buffer) ← writeRound buffer
    if more then writeLoop n buffer else pure buffer

def tooLong : Exn := .databaseIntegrityError "AttachmentSplittingSink: stream is too long"

def tooShort : Exn := .databaseIntegrityError "AttachmentSplittingSink: stream is too short"

def write (buffer : Bytes) : SplitM F Unit := do
  if (← get).stream.isNone then makeStream
  let bytesLeft ← writeLoop ((← get).attachmentDaos.length + 2) buffer
  if !bytesLeft.isEmpty then throw tooLong

/-- The loop of `close`, which drains empty attachments from the queue. -/
def closeLoop : List AttachmentDao → SplitM F Unit
  | [] => do
    let s ← get
    if s.stream.isSome && s.bytesLeftInCurrentStream == 0 then do
      closeStream
      makeStream
  | _ :: attachmentDaos => do
    let s ← get
    if s.stream.isSome && s.bytesLeftInCurrentStream == 0 then do
      closeStream
      makeStream
      closeLoop attachmentDaos

def close : SplitM F Unit := do
  closeLoop (← get).attachmentDaos
  closeStream
  let s ← get
  if !s.attachmentDaos.isEmpty || 0 < s.bytesLeftInCurrentStream then throw tooShort

/-- The constructor, some calls of `write`, and `close`, up to the first exception. -/
def run (F : StreamFactory) (world : F.World) (messageId : IdType) (attachmentDaos : List AttachmentDao)
    (writes : List Bytes) : EStateM.Result Exn (SplittingSink F) Unit :=
  (makeStream >>= fun _ => writeEach write writes >>= fun _ => close)
    { world := world, messageId := messageId, attachmentDaos := attachmentDaos }

/-! ### The calls of the streams -/

inductive StreamCall
  | make (dao : AttachmentDao)
  | write (buffer : Bytes)
  | close
  | throw (e : Exn)
  deriving DecidableEq

/-- A call, with the stream that is open, if there is one. -/
def exec (F : StreamFactory) (messageId : IdType) : StreamCall → EStateM Exn (Option F.Stream × F.World) Unit
  | .make dao => fun t =>
    match F.makeStream messageId dao t.2 with
    | .ok stream world => .ok () (some stream, world)
    | .error e world => .error e (t.1, world)
  | .write buffer => fun t =>
    match t.1 with
    | none => .ok () t
    | some stream =>
      match F.write buffer (stream, t.2) with
      | .ok _ t => .ok () (some t.1, t.2)
      | .error e t => .error e (some t.1, t.2)
  | .close => fun t =>
    match t.1 with
    | none => .ok () t
    | some stream =>
      match F.close (stream, t.2) with
      | .ok _ t => .ok () (none, t.2)
      | .error e t => .error e (some t.1, t.2)
  | .throw e => fun t => .error e t

private theorem exec_write (F : StreamFactory) (messageId : IdType) (buffer : Bytes) (stream : F.Stream) (world : F.World) :
    exec F messageId (.write buffer) (some stream, world) =
      match F.write buffer (stream, world) with
      | .ok _ t => .ok () (some t.1, t.2)
      | .error e t => .error e (some t.1, t.2) := rfl

private theorem exec_close (F : StreamFactory) (messageId : IdType) (stream : F.Stream) (world : F.World) :
    exec F messageId .close (some stream, world) =
      match F.close (stream, world) with
      | .ok _ t => .ok () (none, t.2)
      | .error e t => .error e (some t.1, t.2) := rfl

private theorem exec_make (F : StreamFactory) (messageId : IdType) (dao : AttachmentDao) (t : Option F.Stream × F.World) :
    exec F messageId (.make dao) t =
      match F.makeStream messageId dao t.2 with
      | .ok stream world => .ok () (some stream, world)
      | .error e world => .error e (t.1, world) := rfl

/-- Between two calls: how much the current stream still gets and what is in the queue, or nothing at all. -/
abbrev Status := Option (Nat × List AttachmentDao)

/-- The calls of the loop of `write`, with what follows: the status, and what is left of the buffer. -/
def loopCalls (left : Nat) : List AttachmentDao → Bytes → List StreamCall × Status × Bytes
  | [], buffer =>
    if buffer.isEmpty then ([], some (left, []), [])
    else if buffer.length < left then ([.write buffer], some (left - buffer.length, []), [])
    else ([.write (buffer.take left), .close], none, buffer.drop left)
  | dao :: daos, buffer =>
    if buffer.isEmpty then ([], some (left, dao :: daos), [])
    else if buffer.length < left then ([.write buffer], some (left - buffer.length, dao :: daos), [])
    else
      let (calls, rest) := loopCalls dao.row.size daos (buffer.drop left)
      (.write (buffer.take left) :: .close :: .make dao :: calls, rest)

def writeCalls (status : Status) (buffer : Bytes) : List StreamCall × Status :=
  match status with
  | none => (if buffer.isEmpty then [] else [.throw tooLong], none)
  | some (left, daos) =>
    let (calls, status, bytesLeft) := loopCalls left daos buffer
    (calls ++ if bytesLeft.isEmpty then [] else [.throw tooLong], status)

def drainCalls (left : Nat) : List AttachmentDao → List StreamCall × Status
  | [] => if left = 0 then ([.close], none) else ([], some (left, []))
  | dao :: daos =>
    if left = 0 then
      let (calls, status) := drainCalls dao.row.size daos
      (.close :: .make dao :: calls, status)
    else ([], some (left, dao :: daos))

def closeCalls : Status → List StreamCall
  | none => []
  | some (left, daos) =>
    match drainCalls left daos with
    | (calls, none) => calls
    | (calls, some _) => calls ++ [.close, .throw tooShort]

def newCalls : List AttachmentDao → List StreamCall × Status
  | [] => ([], none)
  | dao :: daos => ([.make dao], some (dao.row.size, daos))

/-- The calls of some writes, and of `close`. -/
def restCalls (status : Status) : List Bytes → List StreamCall
  | [] => closeCalls status
  | buffer :: rest => (writeCalls status buffer).1 ++ restCalls (writeCalls status buffer).2 rest

def calls (daos : List AttachmentDao) (writes : List Bytes) : List StreamCall :=
  (newCalls daos).1 ++ restCalls (newCalls daos).2 writes

/-- The sink in a status. -/
def ofStatus (messageId : IdType) (status : Status) (t : Option F.Stream × F.World) : SplittingSink F where
  world := t.2
  messageId := messageId
  attachmentDaos := (status.map Prod.snd).getD []
  stream := t.1
  bytesLeftInCurrentStream := (status.map Prod.fst).getD 0

/-- A step of the sink makes these calls, and returns if they all do. -/
def Follows {α : Type} (messageId : IdType) (x : SplitM F α) (s : SplittingSink F) (calls : List StreamCall)
    (t : Option F.Stream × F.World) (a : α) (status : Status) : Prop :=
  match writeEach (exec F messageId) calls t with
  | .ok _ t' => x s = .ok a (ofStatus messageId status t') ∧ t'.1.isSome = status.isSome
  | .error e t' => ∃ s', x s = .error e s' ∧ s'.world = t'.2

theorem Follows.bind {α β : Type} {messageId : IdType} {x : SplitM F α} {f : α → SplitM F β} {s : SplittingSink F}
    (before after : List StreamCall) {t : Option F.Stream × F.World} {a : α} {b : β} {status status' : Status}
    (hx : Follows messageId x s before t a status)
    (hf : ∀ t', t'.1.isSome = status.isSome → Follows messageId (f a) (ofStatus messageId status t') after t' b status') :
    Follows messageId (x >>= f) s (before ++ after) t b status' := by
  unfold Follows at hx ⊢
  rw [writeEach_append, bind_apply]
  cases hbefore : writeEach (exec F messageId) before t with
  | error e t' =>
    rw [hbefore] at hx
    obtain ⟨s', hs', hworld⟩ := hx
    exact ⟨s', bind_of_error hs', hworld⟩
  | ok u t' =>
    rw [hbefore] at hx
    obtain ⟨hs', hsome⟩ := hx
    rw [bind_of_ok hs']
    exact hf t' hsome

theorem Follows.pure {α : Type} {messageId : IdType} {t : Option F.Stream × F.World} {status : Status} (a : α)
    (hsome : t.1.isSome = status.isSome) :
    Follows messageId (pure a : SplitM F α) (ofStatus messageId status t) [] t a status := ⟨rfl, hsome⟩

/-- A round of the loop that leaves the stream open. -/
theorem writeRound_within {messageId : IdType} {left : Nat} {daos : List AttachmentDao} {buffer : Bytes}
    (hbuffer : buffer ≠ []) (hlt : buffer.length < left) (stream : F.Stream) (world : F.World) :
    Follows messageId (writeRound buffer) (ofStatus messageId (some (left, daos)) (some stream, world)) [.write buffer]
      (some stream, world) (true, []) (some (left - buffer.length, daos)) := by
  have hempty : buffer.isEmpty = false := by simpa using hbuffer
  have hmin : min buffer.length left = buffer.length := Nat.min_eq_left (by omega)
  have hleft : left - buffer.length ≠ 0 := by omega
  unfold Follows writeRound
  simp only [writeEach, bind_apply, get_apply, ofStatus, hempty, Option.map_some, Option.getD_some, hmin, List.take_length,
    List.drop_length, exec_write, onStream, Bool.false_eq_true, if_false, pure_apply, modify_apply, hleft]
  cases F.write buffer (stream, world) with
  | ok u t => exact ⟨rfl, rfl⟩
  | error e t => exact ⟨_, rfl, rfl⟩

/-- A round of the loop with the end of the last attachment. -/
theorem writeRound_last {messageId : IdType} {left : Nat} {buffer : Bytes} (hbuffer : buffer ≠ [])
    (hle : left ≤ buffer.length) (stream : F.Stream) (world : F.World) :
    Follows messageId (writeRound buffer) (ofStatus messageId (some (left, [])) (some stream, world))
      [.write (buffer.take left), .close] (some stream, world) (true, buffer.drop left) none := by
  have hempty : buffer.isEmpty = false := by simpa using hbuffer
  have hmin : min buffer.length left = left := Nat.min_eq_right hle
  unfold Follows writeRound
  simp only [writeEach, bind_apply, get_apply, ofStatus, hempty, Option.map_some, Option.getD_some, hmin, exec_write, onStream,
    Bool.false_eq_true, if_false, pure_apply, modify_apply, Nat.sub_self, if_true, closeStream, makeStream]
  cases F.write (buffer.take left) (stream, world) with
  | error e t => exact ⟨_, rfl, rfl⟩
  | ok u t =>
    simp only [bind_apply, exec_close, onStream, modify_apply]
    cases F.close (t.1, t.2) with
    | error e t' => exact ⟨_, rfl, rfl⟩
    | ok u t' => exact ⟨by simp, rfl⟩

/-- A round of the loop with the end of an attachment that is not the last one. -/
theorem writeRound_next {messageId : IdType} {left : Nat} {dao : AttachmentDao} {daos : List AttachmentDao} {buffer : Bytes}
    (hbuffer : buffer ≠ []) (hle : left ≤ buffer.length) (stream : F.Stream) (world : F.World) :
    Follows messageId (writeRound buffer) (ofStatus messageId (some (left, dao :: daos)) (some stream, world))
      [.write (buffer.take left), .close, .make dao] (some stream, world) (true, buffer.drop left)
      (some (dao.row.size, daos)) := by
  have hempty : buffer.isEmpty = false := by simpa using hbuffer
  have hmin : min buffer.length left = left := Nat.min_eq_right hle
  unfold Follows writeRound
  simp only [writeEach, bind_apply, get_apply, ofStatus, hempty, Option.map_some, Option.getD_some, hmin, exec_write, onStream,
    Bool.false_eq_true, if_false, pure_apply, modify_apply, Nat.sub_self, if_true, closeStream, makeStream]
  cases F.write (buffer.take left) (stream, world) with
  | error e t => exact ⟨_, rfl, rfl⟩
  | ok u t =>
    simp only [bind_apply, exec_close, onStream, modify_apply]
    cases F.close (t.1, t.2) with
    | error e t' => exact ⟨_, rfl, rfl⟩
    | ok u t' =>
      simp only [exec_make]
      cases F.makeStream messageId dao t'.2 with
      | error e w => exact ⟨_, rfl, rfl⟩
      | ok stream' w => exact ⟨rfl, rfl⟩

/-- The loop stops when the buffer is empty, or when there is no stream. -/
theorem writeLoop_nil (n : Nat) (s : SplittingSink F) : writeLoop n [] s = .ok [] s := by
  cases n with
  | zero => rfl
  | succ n =>
    unfold writeLoop writeRound
    rw [bind_apply, bind_apply, get_apply]
    dsimp only
    cases s.stream <;> rfl

private theorem writeLoop_none (n : Nat) (buffer : Bytes) {s : SplittingSink F} (hs : s.stream = none) :
    writeLoop n buffer s = .ok buffer s := by
  cases n with
  | zero => rfl
  | succ n =>
    unfold writeLoop writeRound
    rw [bind_apply, bind_apply, get_apply]
    dsimp only
    rw [hs]
    rfl

private theorem writeLoop_follows {messageId : IdType} {n : Nat} {left : Nat} {daos : List AttachmentDao} {buffer : Bytes}
    (hn : daos.length < n) (stream : F.Stream) (world : F.World) :
    Follows messageId (writeLoop n buffer) (ofStatus messageId (some (left, daos)) (some stream, world))
      (loopCalls left daos buffer).1 (some stream, world) (loopCalls left daos buffer).2.2
      (loopCalls left daos buffer).2.1 := by
  induction daos generalizing n left buffer stream world with
  | nil =>
    obtain ⟨k, rfl⟩ : ∃ k, n = k + 1 := ⟨n - 1, by omega⟩
    by_cases hbuffer : buffer = []
    · subst hbuffer
      exact ⟨writeLoop_nil _ _, rfl⟩
    · have hempty : buffer.isEmpty = false := by simpa using hbuffer
      unfold loopCalls writeLoop
      rw [if_neg (by simp [hempty])]
      by_cases hlt : buffer.length < left
      · rw [if_pos hlt]
        refine (writeRound_within hbuffer hlt stream world).bind [_] [] fun t ht => ?_
        exact ⟨writeLoop_nil _ _, ht⟩
      · rw [if_neg hlt]
        refine (writeRound_last hbuffer (by omega) stream world).bind [_, _] [] fun t ht => ?_
        have hnone : t.1 = none := by simpa using ht
        exact ⟨writeLoop_none _ _ hnone, ht⟩
  | cons dao daos ih =>
    obtain ⟨k, rfl⟩ : ∃ k, n = k + 1 := ⟨n - 1, by omega⟩
    by_cases hbuffer : buffer = []
    · subst hbuffer
      exact ⟨writeLoop_nil _ _, rfl⟩
    · have hempty : buffer.isEmpty = false := by simpa using hbuffer
      unfold loopCalls writeLoop
      rw [if_neg (by simp [hempty])]
      by_cases hlt : buffer.length < left
      · rw [if_pos hlt]
        refine (writeRound_within hbuffer hlt stream world).bind [_] [] fun t ht => ?_
        exact ⟨writeLoop_nil _ _, ht⟩
      · rw [if_neg hlt]
        refine (writeRound_next hbuffer (by omega) stream world).bind [_, _, _] _ fun t ht => ?_
        obtain ⟨stream', hstream'⟩ := Option.isSome_iff_exists.mp ht
        obtain ⟨str, w⟩ := t
        cases hstream'
        rw [List.length_cons] at hn
        exact ih (by omega) stream' w

private theorem write_follows {messageId : IdType} {status : Status} (buffer : Bytes) {t : Option F.Stream × F.World}
    (ht : t.1.isSome = status.isSome) :
    Follows messageId (write buffer) (ofStatus messageId status t) (writeCalls status buffer).1 t ()
      (writeCalls status buffer).2 := by
  have hend : ∀ (status : Status) (bytesLeft : Bytes) (t : Option F.Stream × F.World), t.1.isSome = status.isSome →
      Follows messageId (if !bytesLeft.isEmpty then throw tooLong else pure ()) (ofStatus messageId status t)
        (if bytesLeft.isEmpty then [] else [.throw tooLong]) t () status := by
    intro status bytesLeft t ht
    cases hempty : bytesLeft.isEmpty with
    | true => exact ⟨rfl, ht⟩
    | false => exact ⟨_, rfl, rfl⟩
  obtain ⟨str, world⟩ := t
  cases status with
  | none =>
    have hnone : str = none := by simpa using ht
    subst hnone
    have hloop : ∀ n, writeLoop n buffer (ofStatus messageId none (none, world) : SplittingSink F) =
        .ok buffer (ofStatus messageId none (none, world)) := fun n => writeLoop_none n buffer rfl
    have hwrite : write buffer (ofStatus messageId none (none, world) : SplittingSink F) =
        (if !buffer.isEmpty then throw tooLong else pure () : SplitM F Unit) (ofStatus messageId none (none, world)) := by
      have hbind : write buffer (ofStatus messageId none (none, world) : SplittingSink F) =
          (writeLoop 2 buffer >>= fun bytesLeft => if !bytesLeft.isEmpty then throw tooLong else pure () : SplitM F Unit)
            (ofStatus messageId none (none, world)) := by
        unfold write
        rw [bind_of_ok (get_apply)]
        rfl
      rw [hbind, bind_of_ok (hloop 2)]
    have hthrow := hend none buffer (none, world) rfl
    unfold Follows at hthrow ⊢
    rw [hwrite]
    exact hthrow
  | some status =>
    obtain ⟨left, daos⟩ := status
    obtain ⟨stream, rfl⟩ := Option.isSome_iff_exists.mp ht
    have hwrite : write buffer (ofStatus messageId (some (left, daos)) (some stream, world) : SplittingSink F) =
        (writeLoop (daos.length + 2) buffer >>= fun bytesLeft =>
          if !bytesLeft.isEmpty then throw tooLong else pure () : SplitM F Unit)
            (ofStatus messageId (some (left, daos)) (some stream, world)) := by
      unfold write
      rw [bind_of_ok (get_apply)]
      rfl
    have hloop : Follows messageId (writeLoop (daos.length + 2) buffer)
        (ofStatus messageId (some (left, daos)) (some stream, world)) (loopCalls left daos buffer).1 (some stream, world)
        (loopCalls left daos buffer).2.2 (loopCalls left daos buffer).2.1 :=
      writeLoop_follows (by omega) stream world
    unfold Follows
    rw [hwrite]
    exact hloop.bind _ _ fun t' ht' => hend _ _ t' ht'

/-- The end of an empty attachment, and the next stream. -/
theorem closeMake_last {messageId : IdType} (stream : F.Stream) (world : F.World) :
    Follows messageId (closeStream >>= fun _ => makeStream) (ofStatus messageId (some (0, [])) (some stream, world))
      [.close] (some stream, world) () none := by
  unfold Follows closeStream
  simp only [writeEach, bind_apply, get_apply, ofStatus, Option.map_some, Option.getD_some, exec_close, onStream,
    makeStream_apply,    pure_apply, modify_apply]
  cases F.close (stream, world) with
  | error e t => exact ⟨_, rfl, rfl⟩
  | ok u t => exact ⟨rfl, rfl⟩

private theorem closeMake_next {messageId : IdType} (dao : AttachmentDao) (daos : List AttachmentDao) (stream : F.Stream)
    (world : F.World) :
    Follows messageId (closeStream >>= fun _ => makeStream) (ofStatus messageId (some (0, dao :: daos)) (some stream, world))
      [.close, .make dao] (some stream, world) () (some (dao.row.size, daos)) := by
  unfold Follows closeStream
  simp only [writeEach, bind_apply, get_apply, ofStatus, Option.map_some, Option.getD_some, exec_close, onStream,
    makeStream_apply,    pure_apply, modify_apply]
  cases F.close (stream, world) with
  | error e t => exact ⟨_, rfl, rfl⟩
  | ok u t =>
    simp only [exec_make]
    cases F.makeStream messageId dao t.2 with
    | error e w => exact ⟨_, rfl, rfl⟩
    | ok stream' w => exact ⟨rfl, rfl⟩

/-- What was not drained still waits for bytes. -/
theorem drainCalls_left {left : Nat} {daos : List AttachmentDao} {l : Nat} {d : List AttachmentDao}
    (h : (drainCalls left daos).2 = some (l, d)) : l ≠ 0 := by
  induction daos generalizing left with
  | nil =>
    unfold drainCalls at h
    split at h
    · cases h
    · next hleft =>
      cases h
      exact hleft
  | cons dao daos ih =>
    unfold drainCalls at h
    split at h
    · exact ih h
    · next hleft =>
      cases h
      exact hleft

private theorem closeLoop_nil (s : SplittingSink F) :
    closeLoop [] s =
      if s.stream.isSome && s.bytesLeftInCurrentStream == 0 then (closeStream >>= fun _ => makeStream) s else .ok () s := by
  rw [closeLoop, bind_of_ok (get_apply)]
  cases s.stream.isSome && s.bytesLeftInCurrentStream == 0 <;> rfl

private theorem closeLoop_cons (dao : AttachmentDao) (daos : List AttachmentDao) (s : SplittingSink F) :
    closeLoop (dao :: daos) s =
      if s.stream.isSome && s.bytesLeftInCurrentStream == 0 then
        ((closeStream >>= fun _ => makeStream) >>= fun _ => closeLoop daos) s
      else .ok () s := by
  rw [closeLoop, bind_of_ok (get_apply), bind_assoc]
  cases s.stream.isSome && s.bytesLeftInCurrentStream == 0 <;> rfl

private theorem closeLoop_follows {messageId : IdType} {left : Nat} {daos : List AttachmentDao} (stream : F.Stream)
    (world : F.World) :
    Follows messageId (closeLoop daos) (ofStatus messageId (some (left, daos)) (some stream, world))
      (drainCalls left daos).1 (some stream, world) () (drainCalls left daos).2 := by
  induction daos generalizing left stream world with
  | nil =>
    unfold Follows
    rw [closeLoop_nil]
    by_cases hleft : left = 0
    · subst hleft
      exact closeMake_last stream world
    · unfold drainCalls
      rw [if_neg hleft, if_neg (by simpa [ofStatus] using hleft)]
      exact ⟨rfl, rfl⟩
  | cons dao daos ih =>
    unfold Follows
    rw [closeLoop_cons]
    by_cases hleft : left = 0
    · subst hleft
      exact (closeMake_next dao daos stream world).bind [_, _] _ fun t ht => by
        obtain ⟨str, w⟩ := t
        obtain ⟨stream', rfl⟩ := Option.isSome_iff_exists.mp ht
        exact ih stream' w
    · unfold drainCalls
      rw [if_neg hleft, if_neg (by simpa [ofStatus] using hleft)]
      exact ⟨rfl, rfl⟩

/-- What `close` does when the queue is drained. -/
def closeRest : SplitM F Unit := do
  closeStream
  let s ← get
  if !s.attachmentDaos.isEmpty || 0 < s.bytesLeftInCurrentStream then throw tooShort

private theorem closeRest_short {messageId : IdType} {left : Nat} {daos : List AttachmentDao} (hleft : left ≠ 0)
    (stream : F.Stream) (world : F.World) :
    Follows messageId closeRest (ofStatus messageId (some (left, daos)) (some stream, world)) [.close, .throw tooShort]
      (some stream, world) () none := by
  have hpos : (!daos.isEmpty || decide (0 < left)) = true := by
    rw [decide_eq_true (by omega), Bool.or_true]
  unfold Follows closeRest closeStream
  simp only [writeEach, bind_apply, get_apply, ofStatus, Option.map_some, Option.getD_some, exec_close, onStream,
    pure_apply, modify_apply]
  cases F.close (stream, world) with
  | error e t => exact ⟨_, rfl, rfl⟩
  | ok u t =>
    dsimp only
    rw [if_pos hpos]
    exact ⟨_, rfl, rfl⟩

private theorem close_follows {messageId : IdType} {status : Status} {t : Option F.Stream × F.World}
    (ht : t.1.isSome = status.isSome) :
    Follows messageId close (ofStatus messageId status t) (closeCalls status) t () none := by
  obtain ⟨str, world⟩ := t
  cases status with
  | none =>
    have hnone : str = none := by simpa using ht
    subst hnone
    exact ⟨rfl, rfl⟩
  | some status =>
    obtain ⟨left, daos⟩ := status
    obtain ⟨stream, rfl⟩ := Option.isSome_iff_exists.mp ht
    have hclose : close (ofStatus messageId (some (left, daos)) (some stream, world) : SplittingSink F) =
        (closeLoop daos >>= fun _ => closeRest) (ofStatus messageId (some (left, daos)) (some stream, world)) := by
      unfold close
      rw [bind_of_ok (get_apply)]
      rfl
    have hloop : Follows messageId (closeLoop daos) (ofStatus messageId (some (left, daos)) (some stream, world))
        (drainCalls left daos).1 (some stream, world) () (drainCalls left daos).2 := closeLoop_follows stream world
    have hleft : ∀ l d, (drainCalls left daos).2 = some (l, d) → l ≠ 0 := fun _ _ => drainCalls_left
    unfold Follows closeCalls
    rw [hclose]
    dsimp only
    generalize drainCalls left daos = drained at *
    obtain ⟨calls, status⟩ := drained
    cases status with
    | none =>
      rw [← List.append_nil calls]
      refine hloop.bind calls [] fun t ht => ?_
      obtain ⟨str, w⟩ := t
      have hnone : str = none := by simpa using ht
      subst hnone
      exact ⟨rfl, rfl⟩
    | some status =>
      refine hloop.bind calls _ fun t ht => ?_
      obtain ⟨str, w⟩ := t
      obtain ⟨stream', rfl⟩ := Option.isSome_iff_exists.mp ht
      exact closeRest_short (hleft _ _ rfl) stream' w

private theorem restCalls_follows {messageId : IdType} (writes : List Bytes) {status : Status} {t : Option F.Stream × F.World}
    (ht : t.1.isSome = status.isSome) :
    Follows messageId (writeEach write writes >>= fun _ => close) (ofStatus messageId status t) (restCalls status writes) t ()
      none := by
  induction writes generalizing status t with
  | nil => exact close_follows ht
  | cons buffer rest ih =>
    rw [writeEach, bind_assoc]
    exact (write_follows buffer ht).bind _ _ fun t' ht' => ih ht'

/-- A run makes the calls of its writes, and ends as they do. -/
theorem run_follows (world : F.World) (messageId : IdType) (daos : List AttachmentDao) (writes : List Bytes) :
    match writeEach (exec F messageId) (calls daos writes) (none, world) with
    | .ok _ t => ∃ s, run F world messageId daos writes = .ok () s ∧ s.world = t.2
    | .error e t => ∃ s, run F world messageId daos writes = .error e s ∧ s.world = t.2 := by
  have hnew : Follows messageId makeStream { world := world, messageId := messageId, attachmentDaos := daos }
      (newCalls daos).1 (none, world) () (newCalls daos).2 := by
    unfold Follows
    rw [makeStream_apply]
    cases daos with
    | nil => exact ⟨rfl, rfl⟩
    | cons dao daos =>
      unfold newCalls
      simp only [writeEach, bind_apply, exec_make, pure_apply]
      cases F.makeStream messageId dao world with
      | error e w => exact ⟨_, rfl, rfl⟩
      | ok stream w => exact ⟨rfl, rfl⟩
  have hrun : Follows messageId (makeStream >>= fun _ => writeEach write writes >>= fun _ => close)
      { world := world, messageId := messageId, attachmentDaos := daos } (calls daos writes) (none, world) () none :=
    hnew.bind _ _ fun t ht => restCalls_follows writes ht
  unfold Follows at hrun
  unfold run
  cases hcalls : writeEach (exec F messageId) (calls daos writes) (none, world) with
  | error e t =>
    rw [hcalls] at hrun
    exact hrun
  | ok u t =>
    rw [hcalls] at hrun
    exact ⟨_, hrun.1, rfl⟩

/-! ### The calls are those of the slices -/

/-- What an attachment's stream gets: it is made, written to, and closed. -/
def streamCalls (slice : AttachmentDao × List Bytes) : List StreamCall :=
  .make slice.1 :: (slice.2.map .write ++ [.close])

/-- The pieces of the next `left` bytes of a text.  An empty attachment gets an empty write, if there is more text. -/
def Pieces (left : Nat) (text : Bytes) (pieces : List Bytes) : Prop :=
  if left = 0 then pieces = if text.isEmpty then [] else [[]]
  else pieces.flatten = text.take left ∧ ∀ piece ∈ pieces, piece ≠ []

/-- A text cut into the attachments, each in pieces, and how it ends if no stream raises. -/
inductive Slices : List AttachmentDao → Bytes → List (AttachmentDao × List Bytes) → Option Exn → Prop
  | finished : Slices [] [] [] none
  | tooLong {text : Bytes} (hne : text ≠ []) : Slices [] text [] (some tooLong)
  | full {dao : AttachmentDao} {daos : List AttachmentDao} {text : Bytes} {pieces : List Bytes}
    {slices : List (AttachmentDao × List Bytes)} {e : Option Exn} (hle : dao.row.size ≤ text.length)
    (hpieces : Pieces dao.row.size text pieces) (hrest : Slices daos (text.drop dao.row.size) slices e) :
    Slices (dao :: daos) text ((dao, pieces) :: slices) e
  | tooShort {dao : AttachmentDao} {daos : List AttachmentDao} {text : Bytes} {pieces : List Bytes}
    (hlt : text.length < dao.row.size) (hpieces : Pieces dao.row.size text pieces) :
    Slices (dao :: daos) text [(dao, pieces)] (some tooShort)

/-- The same with a stream that is open and still gets `left` bytes. -/
def SlicesFrom (left : Nat) (daos : List AttachmentDao) (text : Bytes) (pieces : List Bytes)
    (slices : List (AttachmentDao × List Bytes)) (e : Option Exn) : Prop :=
  Pieces left text pieces ∧
    (left ≤ text.length ∧ Slices daos (text.drop left) slices e ∨
      text.length < left ∧ slices = [] ∧ e = some tooShort)

theorem SlicesFrom.slices {dao : AttachmentDao} {daos : List AttachmentDao} {text : Bytes} {pieces : List Bytes}
    {slices : List (AttachmentDao × List Bytes)} {e : Option Exn}
    (h : SlicesFrom dao.row.size daos text pieces slices e) : Slices (dao :: daos) text ((dao, pieces) :: slices) e := by
  obtain ⟨hpieces, ⟨hle, hrest⟩ | ⟨hlt, rfl, rfl⟩⟩ := h
  · exact .full hle hpieces hrest
  · exact .tooShort hlt hpieces

/-- Nothing that comes after an exception is called. -/
def ending (e : Option Exn) (after : List StreamCall) : List StreamCall :=
  match e with
  | none => []
  | some x => .throw x :: after

/-- Calls that are right for a status and the text that is still to come. -/
def RightCalls (status : Status) (text : Bytes) (calls : List StreamCall) : Prop :=
  match status with
  | none => ∃ after, calls = ending (if text.isEmpty then none else some tooLong) after
  | some (left, daos) => ∃ pieces slices e after,
    calls = pieces.map .write ++ .close :: (slices.flatMap streamCalls ++ ending e after) ∧
      SlicesFrom left daos text pieces slices e

/-- Bytes for a stream that gets more than them. -/
theorem rightCalls_within {left : Nat} {daos : List AttachmentDao} {buffer text : Bytes} {calls : List StreamCall}
    (hbuffer : buffer ≠ []) (hlt : buffer.length < left)
    (h : RightCalls (some (left - buffer.length, daos)) text calls) :
    RightCalls (some (left, daos)) (buffer ++ text) (.write buffer :: calls) := by
  obtain ⟨pieces, slices, e, after, rfl, hpieces, hrest⟩ := h
  refine ⟨buffer :: pieces, slices, e, after, rfl, ?_, ?_⟩
  · unfold Pieces at hpieces ⊢
    rw [if_neg (by omega)] at hpieces ⊢
    have htake : buffer.take left = buffer := List.take_of_length_le (by omega)
    refine ⟨?_, ?_⟩
    · rw [List.flatten_cons, hpieces.1, List.take_append, htake]
    · intro piece hpiece
      rcases List.mem_cons.mp hpiece with rfl | hpiece
      · exact hbuffer
      · exact hpieces.2 piece hpiece
  · rw [List.length_append]
    rcases hrest with ⟨hle, hslices⟩ | ⟨hshort, hnone⟩
    · left
      refine ⟨by omega, ?_⟩
      rwa [List.drop_append, List.drop_of_length_le (by omega), List.nil_append]
    · right
      exact ⟨by omega, hnone⟩

/-- The bytes that a stream still gets, as one piece. -/
theorem pieces_take {left : Nat} {buffer : Bytes} (text : Bytes) (hbuffer : buffer ≠ []) (hle : left ≤ buffer.length) :
    Pieces left (buffer ++ text) [buffer.take left] := by
  unfold Pieces
  split
  · next hleft =>
    have hne : (buffer ++ text).isEmpty = false := by
      rw [List.isEmpty_eq_false_iff]
      exact List.append_ne_nil_of_left_ne_nil hbuffer text
    rw [hleft, hne, List.take_zero]
    rfl
  · next hleft =>
    refine ⟨?_, fun piece hpiece => ?_⟩
    · rw [List.flatten_singleton, List.take_append_of_le_length hle]
    · rw [List.mem_singleton.mp hpiece, Ne, List.take_eq_nil_iff]
      rintro (h | h)
      · exact hleft h
      · exact hbuffer h

/-- Bytes that fill a stream. -/
theorem rightCalls_filled {left : Nat} {daos : List AttachmentDao} {buffer text : Bytes} {e : Option Exn}
    (slices : List (AttachmentDao × List Bytes)) (after : List StreamCall) (hbuffer : buffer ≠ []) (hle : left ≤ buffer.length)
    (h : Slices daos (buffer.drop left ++ text) slices e) :
    RightCalls (some (left, daos)) (buffer ++ text)
      (.write (buffer.take left) :: .close :: (slices.flatMap streamCalls ++ ending e after)) := by
  refine ⟨[buffer.take left], slices, e, after, rfl, pieces_take text hbuffer hle, .inl ⟨?_, ?_⟩⟩
  · rw [List.length_append]
    omega
  · rwa [List.drop_append_of_le_length hle]

/-- The loop of `write`, and what comes after it. -/
theorem rightCalls_loop {left : Nat} {daos : List AttachmentDao} {buffer text : Bytes} {calls : List StreamCall}
    (h : (loopCalls left daos buffer).2.2 = [] → RightCalls (loopCalls left daos buffer).2.1 text calls) :
    RightCalls (some (left, daos)) (buffer ++ text)
      ((loopCalls left daos buffer).1 ++
        (if (loopCalls left daos buffer).2.2.isEmpty then [] else [.throw tooLong]) ++ calls) := by
  induction daos generalizing left buffer with
  | nil =>
    by_cases hbuffer : buffer = []
    · subst hbuffer
      exact h rfl
    · have hempty : buffer.isEmpty = false := by simpa using hbuffer
      unfold loopCalls at h ⊢
      rw [if_neg (by simp [hempty])] at h ⊢
      by_cases hlt : buffer.length < left
      · rw [if_pos hlt] at h ⊢
        exact rightCalls_within hbuffer hlt (h rfl)
      · rw [if_neg hlt] at h ⊢
        dsimp only at h ⊢
        cases hrest : buffer.drop left with
        | nil =>
          obtain ⟨after, rfl⟩ := h hrest
          refine rightCalls_filled [] after hbuffer (by omega) ?_
          rw [hrest, List.nil_append]
          cases text with
          | nil => exact .finished
          | cons b text => exact .tooLong (by simp)
        | cons b rest =>
          refine rightCalls_filled (e := some tooLong) [] calls hbuffer (by omega) ?_
          rw [hrest]
          exact .tooLong (by simp)
  | cons dao daos ih =>
    by_cases hbuffer : buffer = []
    · subst hbuffer
      exact h rfl
    · have hempty : buffer.isEmpty = false := by simpa using hbuffer
      unfold loopCalls at h ⊢
      rw [if_neg (by simp [hempty])] at h ⊢
      by_cases hlt : buffer.length < left
      · rw [if_pos hlt] at h ⊢
        exact rightCalls_within hbuffer hlt (h rfl)
      · rw [if_neg hlt] at h ⊢
        obtain ⟨pieces, slices, e, after, hcalls, hslices⟩ := @ih dao.row.size (buffer.drop left) h
        have hfilled := rightCalls_filled _ after hbuffer (by omega) hslices.slices
        dsimp only
        rw [List.cons_append, List.cons_append, List.cons_append, List.cons_append, List.cons_append, List.cons_append,
          hcalls]
        simpa [streamCalls] using hfilled

private theorem closeCalls_next (dao : AttachmentDao) (daos : List AttachmentDao) :
    closeCalls (some (0, dao :: daos)) = .close :: .make dao :: closeCalls (some (dao.row.size, daos)) := by
  unfold closeCalls
  dsimp only
  rw [drainCalls, if_pos rfl]
  generalize drainCalls dao.row.size daos = drained
  obtain ⟨calls, status⟩ := drained
  cases status <;> rfl

private theorem closeCalls_waiting {left : Nat} (daos : List AttachmentDao) (hleft : left ≠ 0) :
    closeCalls (some (left, daos)) = [.close, .throw tooShort] := by
  have hdrain : drainCalls left daos = ([], some (left, daos)) := by
    cases daos with
    | nil => exact if_neg hleft
    | cons dao daos => exact if_neg hleft
  unfold closeCalls
  dsimp only
  rw [hdrain]
  rfl

/-- A stream that still waits for bytes at the end of the text. -/
theorem rightCalls_waiting {left : Nat} (daos : List AttachmentDao) (hleft : left ≠ 0) :
    RightCalls (some (left, daos)) [] (closeCalls (some (left, daos))) := by
  refine ⟨[], [], some tooShort, [], closeCalls_waiting daos hleft, ?_, .inr ⟨Nat.pos_of_ne_zero hleft, rfl, rfl⟩⟩
  unfold Pieces
  rw [if_neg hleft]
  exact ⟨by simp, by simp⟩

private theorem rightCalls_close (left : Nat) (daos : List AttachmentDao) :
    RightCalls (some (left, daos)) [] (closeCalls (some (left, daos))) := by
  induction daos generalizing left with
  | nil =>
    by_cases hleft : left = 0
    · subst hleft
      exact ⟨[], [], none, [], rfl, rfl, .inl ⟨Nat.le_refl 0, .finished⟩⟩
    · exact rightCalls_waiting [] hleft
  | cons dao daos ih =>
    by_cases hleft : left = 0
    · subst hleft
      obtain ⟨pieces, slices, e, after, hcalls, hslices⟩ := ih dao.row.size
      refine ⟨[], (dao, pieces) :: slices, e, after, ?_, rfl, .inl ⟨Nat.le_refl 0, hslices.slices⟩⟩
      rw [closeCalls_next, hcalls]
      simp [streamCalls]
    · exact rightCalls_waiting (dao :: daos) hleft

private theorem rightCalls_rest (writes : List Bytes) (status : Status) :
    RightCalls status writes.flatten (restCalls status writes) := by
  induction writes generalizing status with
  | nil =>
    cases status with
    | none => exact ⟨[], rfl⟩
    | some status => exact rightCalls_close status.1 status.2
  | cons buffer rest ih =>
    rw [List.flatten_cons, restCalls]
    cases status with
    | none =>
      cases buffer with
      | nil => exact ih none
      | cons b buffer => exact ⟨restCalls none rest, rfl⟩
    | some status =>
      obtain ⟨left, daos⟩ := status
      exact rightCalls_loop fun _ => ih _

private theorem calls_eq (daos : List AttachmentDao) (writes : List Bytes) :
    ∃ slices e after, calls daos writes = slices.flatMap streamCalls ++ ending e after ∧
      Slices daos writes.flatten slices e := by
  unfold calls
  cases daos with
  | nil =>
    obtain ⟨after, hcalls⟩ := rightCalls_rest writes none
    refine ⟨[], _, after, hcalls, ?_⟩
    cases writes.flatten with
    | nil => exact .finished
    | cons b text => exact .tooLong (by simp)
  | cons dao daos =>
    obtain ⟨pieces, slices, e, after, hcalls, hslices⟩ := rightCalls_rest writes (some (dao.row.size, daos))
    refine ⟨(dao, pieces) :: slices, e, after, ?_, hslices.slices⟩
    unfold newCalls
    dsimp only
    rw [hcalls]
    simp [streamCalls]

/-! ### The lengths -/

/-- The attachments with their parts of a text. -/
def parts : List AttachmentDao → Bytes → List (AttachmentDao × Bytes)
  | [], _ => []
  | dao :: daos, text => (dao, text.take dao.row.size) :: parts daos (text.drop dao.row.size)

/-- The sum of the sizes. -/
def total (daos : List AttachmentDao) : Nat := (daos.map fun dao => dao.row.size).sum

private theorem total_cons (dao : AttachmentDao) (daos : List AttachmentDao) : total (dao :: daos) = dao.row.size + total daos := rfl

theorem Pieces.flatten {left : Nat} {text : Bytes} {pieces : List Bytes} (h : Pieces left text pieces) :
    pieces.flatten = text.take left := by
  unfold Pieces at h
  split at h
  · next hleft =>
    rw [hleft, List.take_zero, h]
    split <;> rfl
  · exact h.1

/-- The pieces of an attachment are its part of the text. -/
theorem Slices.parts {daos : List AttachmentDao} {text : Bytes} {slices : List (AttachmentDao × List Bytes)}
    {e : Option Exn} (h : Slices daos text slices e) :
    (slices.map fun slice => (slice.1, slice.2.flatten)) <+: parts daos text := by
  induction h with
  | finished => exact List.prefix_refl _
  | tooLong hne => exact List.prefix_refl _
  | full hle hpieces hrest ih =>
    rw [List.map_cons, hpieces.flatten]
    exact List.cons_prefix_cons.mpr ⟨rfl, ih⟩
  | tooShort hlt hpieces =>
    rw [List.map_cons, hpieces.flatten]
    exact List.cons_prefix_cons.mpr ⟨rfl, List.nil_prefix⟩

theorem Slices.length {daos : List AttachmentDao} {text : Bytes} {slices : List (AttachmentDao × List Bytes)}
    {e : Option Exn} (h : Slices daos text slices e) (hle : total daos ≤ text.length) : slices.length = daos.length := by
  induction h with
  | finished => rfl
  | tooLong hne => rfl
  | full hfits hpieces hrest ih =>
    rw [total_cons] at hle
    rw [List.length_cons, List.length_cons, ih (by rw [List.length_drop]; omega)]
  | tooShort hlt hpieces =>
    rw [total_cons] at hle
    omega

theorem length_parts (daos : List AttachmentDao) (text : Bytes) : (SplittingSink.parts daos text).length = daos.length := by
  induction daos generalizing text with
  | nil => rfl
  | cons dao daos ih => rw [SplittingSink.parts, List.length_cons, List.length_cons, ih]

/-- How the run ends is a matter of the lengths. -/
theorem Slices.ending {daos : List AttachmentDao} {text : Bytes} {slices : List (AttachmentDao × List Bytes)}
    {e : Option Exn} (h : Slices daos text slices e) :
    e = if text.length = total daos then none
      else if total daos < text.length then some SplittingSink.tooLong else some SplittingSink.tooShort := by
  induction h with
  | finished => rfl
  | tooLong hne =>
    have hpos := List.length_pos_iff.mpr hne
    unfold total
    rw [List.map_nil, List.sum_nil, if_neg (by omega), if_pos hpos]
  | full hle hpieces hrest ih =>
    rw [ih, List.length_drop, total_cons]
    congr 1
    · exact propext ⟨fun _ => by omega, fun _ => by omega⟩
    · congr 1
      exact propext ⟨fun _ => by omega, fun _ => by omega⟩
  | tooShort hlt hpieces =>
    rw [total_cons, if_neg (by omega), if_neg (by omega)]

/-! ### Streams for which the division does not matter -/

/-- Both return, in one state, or both raise the same. -/
def Same {σ : Type} (r r' : EStateM.Result Exn σ Unit) : Prop :=
  match r, r' with
  | .ok _ s, .ok _ s' => s = s'
  | .error e _, .error e' _ => e = e'
  | _, _ => False

theorem Same.refl {σ : Type} (r : EStateM.Result Exn σ Unit) : Same r r := by
  unfold Same
  cases r <;> rfl

theorem Same.symm {σ : Type} {r r' : EStateM.Result Exn σ Unit} (h : Same r r') : Same r' r := by
  unfold Same at h ⊢
  cases r <;> cases r' <;> first | exact h.symm | exact h

theorem Same.trans {σ : Type} {r r' r'' : EStateM.Result Exn σ Unit} (h : Same r r') (h' : Same r' r'') : Same r r'' := by
  unfold Same at h h' ⊢
  cases r <;> cases r' <;> cases r'' <;> first | exact h.trans h' | exact h.elim | exact h'.elim

theorem Same.bind {σ : Type} {x x' y y' : EStateM Exn σ Unit} {s s' : σ} (h : Same (x s) (x' s'))
    (hy : ∀ t, Same (y t) (y' t)) : Same ((x >>= fun _ => y) s) ((x' >>= fun _ => y') s') := by
  rw [bind_apply, bind_apply]
  cases hx : x s with
  | ok u t =>
    cases hx' : x' s' with
    | ok u' t' =>
      rw [hx, hx'] at h
      cases h
      exact hy t
    | error e t' =>
      rw [hx, hx'] at h
      exact False.elim h
  | error e t =>
    cases hx' : x' s' with
    | ok u' t' =>
      rw [hx, hx'] at h
      exact False.elim h
    | error e' t' =>
      rw [hx, hx'] at h
      exact h

/-- Two writes of a stream are as good as one, as long as it is in a state it can get into. -/
structure Merges (F : StreamFactory) (I : F.Stream × F.World → Prop) : Prop where
  make : ∀ messageId dao world stream world', F.makeStream messageId dao world = .ok stream world' → I (stream, world')
  write : ∀ buffer t t', I t → F.write buffer t = .ok () t' → I t'
  merge : ∀ buffer buffer' t, I t → Same ((F.write buffer >>= fun _ => F.write buffer') t) (F.write (buffer ++ buffer') t)

variable {I : F.Stream × F.World → Prop}

theorem Merges.flatten (h : Merges F I) {pieces : List Bytes} (hne : pieces ≠ []) {t : F.Stream × F.World} (ht : I t) :
    Same (writeEach F.write pieces t) (F.write pieces.flatten t) := by
  induction pieces generalizing t with
  | nil => exact absurd rfl hne
  | cons piece rest ih =>
    rw [writeEach, List.flatten_cons]
    by_cases hrest : rest = []
    · subst hrest
      rw [List.flatten_nil, List.append_nil, bind_apply]
      cases F.write piece t with
      | ok u t' => exact Same.refl (.ok () t')
      | error e t' => exact Same.refl (.error e t')
    · refine Same.trans ?_ (h.merge piece rest.flatten t ht)
      rw [bind_apply, bind_apply]
      cases hw : F.write piece t with
      | ok u t' => exact ih hrest (h.write piece t t' ht hw)
      | error e t' => exact Same.refl _

/-- Two lists of pieces of the same bytes. -/
theorem Merges.pieces (h : Merges F I) {left : Nat} {text : Bytes} {pieces pieces' : List Bytes}
    (hpieces : Pieces left text pieces) (hpieces' : Pieces left text pieces') {t : F.Stream × F.World} (ht : I t) :
    Same (writeEach F.write pieces t) (writeEach F.write pieces' t) := by
  have hflat : pieces.flatten = pieces'.flatten := hpieces.flatten.trans hpieces'.flatten.symm
  unfold Pieces at hpieces hpieces'
  split at hpieces
  · next hleft =>
    rw [if_pos hleft] at hpieces'
    rw [hpieces, hpieces']
    exact Same.refl _
  · next hleft =>
    rw [if_neg hleft] at hpieces'
    -- pieces are not empty, so without bytes there are none
    have hnil : ∀ {ps : List Bytes}, (∀ p ∈ ps, p ≠ []) → ps.flatten = [] → ps = [] := by
      intro ps hps hempty
      rw [List.flatten_eq_nil_iff] at hempty
      exact List.eq_nil_iff_forall_not_mem.mpr fun p hp => hps p hp (hempty p hp)
    by_cases hempty : pieces = []
    · subst hempty
      rw [hnil hpieces'.2 hflat.symm]
      exact Same.refl _
    · have hempty' : pieces' ≠ [] := by
        intro hnone
        subst hnone
        exact hempty (hnil hpieces.2 hflat)
      have hone := h.flatten hempty ht
      rw [hflat] at hone
      exact hone.trans (h.flatten hempty' ht).symm

/-- Writes of the open stream. -/
theorem exec_writes (messageId : IdType) (pieces : List Bytes) (stream : F.Stream) (world : F.World) :
    writeEach (exec F messageId) (pieces.map .write) (some stream, world) =
      match writeEach F.write pieces (stream, world) with
      | .ok _ t => .ok () (some t.1, t.2)
      | .error e t => .error e (some t.1, t.2) := by
  induction pieces generalizing stream world with
  | nil => rfl
  | cons piece rest ih =>
    rw [List.map_cons, writeEach, writeEach, bind_apply, bind_apply, exec_write]
    cases F.write piece (stream, world) with
    | ok u t => exact ih t.1 t.2
    | error e t => rfl

/-- The calls of one attachment, in pieces or in other pieces. -/
theorem Merges.streamCalls (h : Merges F I) (messageId : IdType) (dao : AttachmentDao) {text : Bytes}
    {pieces pieces' : List Bytes} (hpieces : Pieces dao.row.size text pieces)
    (hpieces' : Pieces dao.row.size text pieces') (t : Option F.Stream × F.World) :
    Same (writeEach (exec F messageId) (SplittingSink.streamCalls (dao, pieces)) t)
      (writeEach (exec F messageId) (SplittingSink.streamCalls (dao, pieces')) t) := by
  unfold SplittingSink.streamCalls
  rw [writeEach, writeEach, bind_apply, bind_apply, exec_make]
  cases hmake : F.makeStream messageId dao t.2 with
  | error e world => exact Same.refl _
  | ok stream world =>
    dsimp only
    rw [writeEach_append, writeEach_append]
    refine Same.bind ?_ fun t => Same.refl _
    have hsame := h.pieces hpieces hpieces' (h.make messageId dao t.2 stream world hmake)
    rw [exec_writes, exec_writes]
    cases hp : writeEach F.write pieces (stream, world) with
    | ok u s =>
      cases hp' : writeEach F.write pieces' (stream, world) with
      | ok u' s' =>
        rw [hp, hp'] at hsame
        cases hsame
        exact Same.refl _
      | error e s' =>
        rw [hp, hp'] at hsame
        exact False.elim hsame
    | error e s =>
      cases hp' : writeEach F.write pieces' (stream, world) with
      | ok u' s' =>
        rw [hp, hp'] at hsame
        exact False.elim hsame
      | error e' s' =>
        rw [hp, hp'] at hsame
        exact hsame

/-- The calls for two divisions of one text. -/
theorem Merges.slices (h : Merges F I) (messageId : IdType) {daos : List AttachmentDao} {text : Bytes}
    {slices slices' : List (AttachmentDao × List Bytes)} {e e' : Option Exn} (hs : Slices daos text slices e)
    (hs' : Slices daos text slices' e') (t : Option F.Stream × F.World) :
    Same (writeEach (exec F messageId) (slices.flatMap SplittingSink.streamCalls) t)
      (writeEach (exec F messageId) (slices'.flatMap SplittingSink.streamCalls) t) := by
  induction hs generalizing slices' e' t with
  | finished =>
    cases hs' with
    | finished => exact Same.refl _
    | tooLong hne => exact absurd rfl hne
  | tooLong hne =>
    cases hs' with
    | finished => exact absurd rfl hne
    | tooLong hne => exact Same.refl _
  | full hle hpieces hrest ih =>
    cases hs' with
    | full hle' hpieces' hrest' =>
      rw [List.flatMap_cons, List.flatMap_cons, writeEach_append, writeEach_append]
      exact (h.streamCalls messageId _ hpieces hpieces' t).bind fun t' => ih hrest' t'
    | tooShort hlt hpieces' => omega
  | tooShort hlt hpieces =>
    cases hs' with
    | full hle hpieces' hrest' => omega
    | tooShort hlt' hpieces' =>
      rw [List.flatMap_cons, List.flatMap_cons, List.flatMap_nil, List.append_nil, List.append_nil]
      exact h.streamCalls messageId _ hpieces hpieces' t

/-- Both end in the same way, and in the same world if they return. -/
inductive SameRun : EStateM.Result Exn (SplittingSink F) Unit → EStateM.Result Exn (SplittingSink F) Unit → Prop
  | ok {s s' : SplittingSink F} (hworld : s.world = s'.world) : SameRun (.ok () s) (.ok () s')
  | error (e : Exn) (s s' : SplittingSink F) : SameRun (.error e s) (.error e s')

/-- The calls of the slices of a text decide how a run ends. -/
def EndsAs (r : EStateM.Result Exn (SplittingSink F) Unit) (e : Option Exn)
    (streams : EStateM.Result Exn (Option F.Stream × F.World) Unit) : Prop :=
  match streams with
  | .error x t => ∃ s, r = .error x s ∧ s.world = t.2
  | .ok _ t =>
    match e with
    | none => ∃ s, r = .ok () s ∧ s.world = t.2
    | some x => ∃ s, r = .error x s ∧ s.world = t.2

theorem run_slices (world : F.World) (messageId : IdType) (daos : List AttachmentDao) (writes : List Bytes) :
    ∃ slices e, Slices daos writes.flatten slices e ∧
      EndsAs (run F world messageId daos writes) e
        (writeEach (exec F messageId) (slices.flatMap streamCalls) (none, world)) := by
  obtain ⟨slices, e, after, hcalls, hslices⟩ := calls_eq daos writes
  refine ⟨slices, e, hslices, ?_⟩
  have hrun := run_follows world messageId daos writes
  rw [hcalls, writeEach_append, bind_apply] at hrun
  unfold EndsAs
  cases hstreams : writeEach (exec F messageId) (slices.flatMap streamCalls) (none, world) with
  | error x t =>
    rw [hstreams] at hrun
    exact hrun
  | ok u t =>
    rw [hstreams] at hrun
    cases e with
    | none => exact hrun
    | some x => exact hrun

theorem run_of_flatten (h : Merges F I) (world : F.World) (messageId : IdType) (daos : List AttachmentDao)
    {writes writes' : List Bytes} (hflat : writes'.flatten = writes.flatten) :
    SameRun (run F world messageId daos writes) (run F world messageId daos writes') := by
  obtain ⟨slices, e, hslices, hrun⟩ := run_slices world messageId daos writes
  obtain ⟨slices', e', hslices', hrun'⟩ := run_slices world messageId daos writes'
  rw [hflat] at hslices'
  have hsame := h.slices messageId hslices hslices' (none, world)
  have hend : e = e' := hslices.ending.trans hslices'.ending.symm
  subst hend
  unfold EndsAs at hrun hrun'
  cases hc : writeEach (exec F messageId) (slices.flatMap streamCalls) (none, world) with
  | error x t =>
    cases hc' : writeEach (exec F messageId) (slices'.flatMap streamCalls) (none, world) with
    | ok u' t' =>
      rw [hc, hc'] at hsame
      exact False.elim hsame
    | error x' t' =>
      rw [hc] at hrun hsame
      rw [hc'] at hrun' hsame
      obtain ⟨s, hs, -⟩ := hrun
      obtain ⟨s', hs', -⟩ := hrun'
      have hexn : x = x' := hsame
      rw [hs, hs', hexn]
      exact .error x' s s'
  | ok u t =>
    cases hc' : writeEach (exec F messageId) (slices'.flatMap streamCalls) (none, world) with
    | error x' t' =>
      rw [hc, hc'] at hsame
      exact False.elim hsame
    | ok u' t' =>
      rw [hc] at hrun hsame
      rw [hc'] at hrun' hsame
      have hworld : t = t' := hsame
      subst hworld
      cases e with
      | none =>
        obtain ⟨s, hs, hw⟩ := hrun
        obtain ⟨s', hs', hw'⟩ := hrun'
        rw [hs, hs']
        exact .ok (hw.trans hw'.symm)
      | some x =>
        obtain ⟨s, hs, -⟩ := hrun
        obtain ⟨s', hs', -⟩ := hrun'
        rw [hs, hs']
        exact .error x s s'

end SplittingSink

end KulloClient
