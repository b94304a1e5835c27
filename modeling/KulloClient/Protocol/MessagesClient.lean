import KulloClient.Codec.MessageEncoder
import KulloClient.Util.MimeMultipart

/-!
# MessagesClient

The request that sends a message.  Its boundary is drawn at random and is not compared with the message, so that a
few of the boundaries make a body that is not read back; they are at most as many as the message has bytes, up to one
for each part.
-/

namespace KulloClient

open Imperative

namespace MessagesClient

structure SendRequest where
  authenticated : Bool
  contentType : Bytes
  contentLength : Nat
  body : Bytes

/-- `doSendMessage` up to the request; without a recipient the message goes to the user. -/
def doSendMessage (rand : Nat → Nat) (recipient : Option KulloAddress) (message : SendableMessage)
    (metaData : Bytes) : Except Exn SendRequest := do
  let toSelf := recipient.isNone
  kulloAssert ((!toSelf && metaData.isEmpty) || (toSelf && !metaData.isEmpty))
    "(!toSelf && meta.empty()) || (toSelf && !meta.empty())"
  let multipart := MimeMultipart.random rand
  let multipart ← multipart.addVectorPart (toBytes "keySafe") message.keySafe
  let multipart ← multipart.addVectorPart (toBytes "content") message.content
  let multipart ← if !metaData.isEmpty then multipart.addVectorPart (toBytes "meta") metaData else .ok multipart
  let multipart ← multipart.addVectorPart (toBytes "attachments") message.attachments
  let contentType := toBytes "multipart/form-data; boundary=\"" ++ multipart.boundary ++ toBytes "\""
  let body := multipart.toString.1
  return { authenticated := toSelf, contentType, contentLength := body.length, body }

/-- The parts of a message. -/
def sentParts (message : SendableMessage) (metaData : Bytes) : List (Bytes × Bytes) :=
  [(toBytes "keySafe", message.keySafe), (toBytes "content", message.content)] ++
    (if !metaData.isEmpty then [(toBytes "meta", metaData)] else []) ++
    [(toBytes "attachments", message.attachments)]

/-- What a reader should see. -/
def sentForms (message : SendableMessage) (metaData : Bytes) : List Mime.FormPart :=
  (sentParts message metaData).map fun p => ⟨p.1, none, none, p.2⟩

/-- The assertion of `doSendMessage`. -/
def Sendable (recipient : Option KulloAddress) (metaData : Bytes) : Prop := recipient.isNone = !metaData.isEmpty

private theorem length_sentParts (message : SendableMessage) (metaData : Bytes) :
    ((sentParts message metaData).map fun p => p.2.length + 1).sum ≤
      message.keySafe.length + message.content.length + metaData.length + message.attachments.length + 4 := by
  unfold sentParts
  split
  · simp
    omega
  · simp
    omega

private theorem sentForms_name {message : SendableMessage} {metaData : Bytes} :
    ∀ f ∈ sentForms message metaData, Mime.Plain f.name ∧ f.filename = none ∧ f.contentType = none := by
  intro f hf
  obtain ⟨p, hp, rfl⟩ := List.mem_map.mp hf
  refine ⟨?_, rfl, rfl⟩
  have hname : p.1 ∈ [toBytes "keySafe", toBytes "content", toBytes "meta", toBytes "attachments"] := by
    unfold sentParts at hp
    split at hp
    · rcases (by simpa using hp) with rfl | rfl | rfl | rfl <;> simp
    · rcases (by simpa using hp) with rfl | rfl | rfl <;> simp
  have hplain : ∀ name ∈ [toBytes "keySafe", toBytes "content", toBytes "meta", toBytes "attachments"],
      Mime.Plain name := by decide +kernel
  exact hplain p.1 hname

/-- The parts of a message can be written if no part collides with the boundary. -/
theorem writable_sentForms {boundary : Bytes} {message : SendableMessage} {metaData : Bytes}
    (h : ∀ f ∈ sentForms message metaData, ¬Mime.Collides boundary f.octets) :
    ∀ f ∈ sentForms message metaData, Mime.Writable boundary f := by
  intro f hf
  obtain ⟨hname, hfilename, hcontentType⟩ := sentForms_name f hf
  exact ⟨hname, by simp [hfilename], by simp [hcontentType], h f hf⟩

/-- `doSendMessage` adds the parts one by one to a new body. -/
theorem doSendMessage_holds {recipient : Option KulloAddress} {metaData : Bytes} (h : Sendable recipient metaData)
    (rand : Nat → Nat) (message : SendableMessage) :
    ∃ m : MimeMultipart, m.boundary = MimeMultipart.randomBoundary rand ∧ m.Holds (sentForms message metaData) ∧
      doSendMessage rand recipient message metaData = .ok {
        authenticated := recipient.isNone
        contentType := toBytes "multipart/form-data; boundary=\"" ++ MimeMultipart.randomBoundary rand ++ toBytes "\""
        contentLength := m.toString.1.length
        body := m.toString.1 } := by
  have hadd : ∀ {m : MimeMultipart} {forms : List Mime.FormPart} (name data : Bytes), m.Holds forms →
      ∃ m', m.addVectorPart name data = .ok m' ∧ m'.boundary = m.boundary ∧
        m'.Holds (forms ++ [⟨name, none, none, data⟩]) := by
    intro m forms name data hm
    exact @MimeMultipart.Holds.add ⟨id, fun _ => .ok []⟩ m forms hm (.vector name data) _ rfl
  have hassert : ((!recipient.isNone && metaData.isEmpty) || (recipient.isNone && !metaData.isEmpty)) = true := by
    rw [h]
    cases metaData.isEmpty <;> rfl
  obtain ⟨m₁, h₁, hb₁, hm₁⟩ := hadd (toBytes "keySafe") message.keySafe (MimeMultipart.Fresh.random rand).holds
  obtain ⟨m₂, h₂, hb₂, hm₂⟩ := hadd (toBytes "content") message.content hm₁
  -- the meta data is a part of messages to the user himself only
  have hmeta : ∃ m₃, (if !metaData.isEmpty then m₂.addVectorPart (toBytes "meta") metaData else .ok m₂) = .ok m₃ ∧
      m₃.boundary = m₂.boundary ∧
      m₃.Holds ([⟨toBytes "keySafe", none, none, message.keySafe⟩, ⟨toBytes "content", none, none, message.content⟩] ++
        (if !metaData.isEmpty then [⟨toBytes "meta", none, none, metaData⟩] else [])) := by
    split
    · exact hadd (toBytes "meta") metaData hm₂
    · exact ⟨m₂, rfl, rfl, hm₂⟩
  obtain ⟨m₃, h₃, hb₃, hm₃⟩ := hmeta
  obtain ⟨m₄, h₄, hb₄, hm₄⟩ := hadd (toBytes "attachments") message.attachments hm₃
  have hboundary : m₄.boundary = MimeMultipart.randomBoundary rand := by
    rw [hb₄, hb₃, hb₂, hb₁]
    rfl
  refine ⟨m₄, hboundary, ?_, ?_⟩
  · have hforms : sentForms message metaData =
        [⟨toBytes "keySafe", none, none, message.keySafe⟩, ⟨toBytes "content", none, none, message.content⟩] ++
          (if !metaData.isEmpty then [⟨toBytes "meta", none, none, metaData⟩] else []) ++
          [⟨toBytes "attachments", none, none, message.attachments⟩] := by
      unfold sentForms sentParts
      cases metaData.isEmpty <;> rfl
    rw [hforms]
    exact hm₄
  · rw [doSendMessage]
    dsimp only
    rw [hassert, kulloAssert_true, ok_bind, h₁, ok_bind, h₂, ok_bind]
    cases hempty : metaData.isEmpty with
    | false =>
      rw [hempty] at h₃
      have h₃' : m₂.addVectorPart (toBytes "meta") metaData = .ok m₃ := h₃
      simp only [ok_bind, h₃', h₄, hboundary, Bool.not_false, if_true]
      rfl
    | true =>
      rw [hempty] at h₃
      have h₃' : (.ok m₂ : Except Exn MimeMultipart) = .ok m₃ := h₃
      simp only [ok_bind, h₃', h₄, hboundary, Bool.not_true, Bool.false_eq_true,
        if_false]
      rfl

/-- The body is read back unless a part collides with the boundary. -/
theorem doSendMessage_reads {recipient : Option KulloAddress} {metaData : Bytes} (h : Sendable recipient metaData)
    (rand : Nat → Nat) (message : SendableMessage) :
    ∃ request, doSendMessage rand recipient message metaData = .ok request ∧
      request.contentType =
        toBytes "multipart/form-data; boundary=\"" ++ MimeMultipart.randomBoundary rand ++ toBytes "\"" ∧
      request.contentLength = request.body.length ∧
      ((∀ f ∈ sentForms message metaData, ¬Mime.Collides (MimeMultipart.randomBoundary rand) f.octets) →
        Mime.formData (MimeMultipart.randomBoundary rand) request.body = some (sentForms message metaData)) := by
  obtain ⟨m, hboundary, hm, hrequest⟩ := doSendMessage_holds h rand message
  refine ⟨_, hrequest, rfl, rfl, fun hcollides => ?_⟩
  have hne : sentForms message metaData ≠ [] := by simp [sentForms, sentParts]
  have hwritable := writable_sentForms hcollides
  rw [← hboundary] at hwritable ⊢
  exact hm.reads hne hwritable

/-- The boundaries for which the body is not read back are few. -/
theorem ncard_not_reads {recipient : Option KulloAddress} {metaData : Bytes} (h : Sendable recipient metaData)
    (message : SendableMessage) :
    {boundary | ∃ rand request, MimeMultipart.randomBoundary rand = boundary ∧
      doSendMessage rand recipient message metaData = .ok request ∧
      Mime.formData boundary request.body ≠ some (sentForms message metaData)}.ncard ≤
    message.keySafe.length + message.content.length + metaData.length + message.attachments.length + 4 := by
  have hcollides : ∀ boundary ∈ {boundary | ∃ rand request, MimeMultipart.randomBoundary rand = boundary ∧
        doSendMessage rand recipient message metaData = .ok request ∧
        Mime.formData boundary request.body ≠ some (sentForms message metaData)},
      boundary.length = 70 ∧
        ∃ octets ∈ (sentParts message metaData).map Prod.snd, Mime.Collides boundary octets := by
    rintro boundary ⟨rand, request, rfl, hrequest, hlost⟩
    refine ⟨MimeMultipart.length_randomBoundary rand, ?_⟩
    by_contra hnone
    obtain ⟨request', hrequest', -, -, hreads⟩ := doSendMessage_reads h rand message
    rw [hrequest] at hrequest'
    cases hrequest'
    refine hlost (hreads ?_)
    intro f hf hcollides
    obtain ⟨p, hp, rfl⟩ := List.mem_map.mp hf
    exact hnone ⟨p.2, List.mem_map_of_mem hp, hcollides⟩
  calc _ ≤ _ := Mime.ncard_collides hcollides
    _ ≤ _ := by
      rw [List.map_map]
      exact length_sentParts message metaData

/-- Bodies are read back: of every list of parts that do not collide with the boundary, and of a message for all
boundaries but a few. -/
theorem bodies_read_back :
    (∀ (fs : Filesystem) (m : MimeMultipart) (parts : List MimeMultipart.Part) (forms : List Mime.FormPart),
      m.Fresh → parts ≠ [] → parts.mapM (MimeMultipart.Part.form fs) = .ok forms →
      (∀ f ∈ forms, MimeMultipart.Readable m.boundary f) →
      ∃ m', parts.foldlM (MimeMultipart.add fs) m = .ok m' ∧ Mime.formData m.boundary m'.toString.1 = some forms ∧
        ∀ k, (Nat.iterate (fun m'' : MimeMultipart => m''.toString.2) k m').toString.1 = m'.toString.1) ∧
    (∀ (recipient : Option KulloAddress) (message : SendableMessage) (metaData : Bytes), Sendable recipient metaData →
      (∀ rand, ∃ request, doSendMessage rand recipient message metaData = .ok request ∧
        request.contentType =
          toBytes "multipart/form-data; boundary=\"" ++ MimeMultipart.randomBoundary rand ++ toBytes "\"" ∧
        request.contentLength = request.body.length ∧
        ((∀ f ∈ sentForms message metaData, ¬Mime.Collides (MimeMultipart.randomBoundary rand) f.octets) →
          Mime.formData (MimeMultipart.randomBoundary rand) request.body = some (sentForms message metaData))) ∧
      {boundary | ∃ rand request, MimeMultipart.randomBoundary rand = boundary ∧
        doSendMessage rand recipient message metaData = .ok request ∧
        Mime.formData boundary request.body ≠ some (sentForms message metaData)}.ncard ≤
      message.keySafe.length + message.content.length + metaData.length + message.attachments.length + 4) := by
  refine ⟨?_, fun recipient message metaData h =>
    ⟨fun rand => doSendMessage_reads h rand message, ncard_not_reads h message⟩⟩
  intro fs m parts forms hfresh hne hforms hread
  obtain ⟨m', hall, hboundary, hm'⟩ := hfresh.holds.addAll hforms
  rw [List.nil_append] at hm'
  -- as many forms are read as parts were written
  have hne' : forms ≠ [] := by
    rintro rfl
    rcases parts with _ | ⟨part, parts⟩
    · exact hne rfl
    · rw [List.mapM_cons] at hforms
      obtain ⟨f, -, hcons⟩ := bind_eq_ok.mp hforms
      obtain ⟨rest, -, heq⟩ := bind_eq_ok.mp hcons
      cases heq
  have hwritable := MimeMultipart.writable_of_mapM hforms hread
  rw [← hboundary] at hwritable ⊢
  exact ⟨m', hall, hm'.reads hne' hwritable, MimeMultipart.toString_iterate m'⟩

private theorem valid_b : MimeMultipart.ValidBoundary (toBytes "b") :=
  ⟨by decide +kernel, by decide +kernel, by decide +kernel⟩

/-- A body of a text with line breaks and of an empty file, and a message to the user. -/
theorem bodies_read_back_two :
    let fs : Filesystem := ⟨id, fun _ => .ok []⟩
    let m : MimeMultipart := { boundary := toBytes "b", valid := valid_b }
    let forms : List Mime.FormPart := [⟨toBytes "comments", none, none, toBytes "a\r\n\r\n--x"⟩,
      ⟨toBytes "file", some (toBytes "f.txt"), some (toBytes "application/octet-stream"), []⟩]
    (∃ m', [MimeMultipart.Part.string (toBytes "comments") (toBytes "a\r\n\r\n--x"),
        MimeMultipart.Part.file (toBytes "file") (toBytes "f.txt")].foldlM (MimeMultipart.add fs) m = .ok m' ∧
      Mime.formData m.boundary m'.toString.1 = some forms ∧
      ∀ k, (Nat.iterate (fun m'' : MimeMultipart => m''.toString.2) k m').toString.1 = m'.toString.1) ∧
    (∃ request, doSendMessage (fun _ => 0) none ⟨[1], [13, 10, 45, 45], [2]⟩ [3] = .ok request ∧
      Mime.formData (MimeMultipart.randomBoundary fun _ => 0) request.body =
        some (sentForms ⟨[1], [13, 10, 45, 45], [2]⟩ [3])) := by
  have hm : MimeMultipart.ofBoundary (toBytes "b") = .ok { boundary := toBytes "b", valid := valid_b } :=
    MimeMultipart.ofBoundary_eq_ok.mpr ⟨valid_b, rfl⟩
  refine ⟨bodies_read_back.1 _ _ _ _ (.ofBoundary hm) (by simp) rfl ?_, ?_⟩
  · intro f hf
    rcases (by simpa using hf) with rfl | rfl
    · exact ⟨by decide +kernel, by simp, by decide +kernel⟩
    · exact ⟨by decide +kernel, by simp; decide +kernel, by decide +kernel⟩
  · obtain ⟨request, hrequest, -, -, hreads⟩ :=
      (bodies_read_back.2 none ⟨[1], [13, 10, 45, 45], [2]⟩ [3] rfl).1 fun _ => 0
    exact ⟨request, hrequest, hreads (by decide +kernel)⟩

/-- What the boundary's checks leave out: data that start with the delimiter after the blank line, a name with a
backslash, a body without parts, and a message that holds the delimiter of the boundary that is drawn. -/
theorem bodies_not_read_back :
    (∃ m m', MimeMultipart.ofBoundary (toBytes "b") = .ok m ∧
      m.addPart (toBytes "name") (toBytes "--bx") = .ok m' ∧ ¬Mime.delimiter (toBytes "b") <:+: toBytes "--bx" ∧
      Mime.formData (toBytes "b") m'.toString.1 = none) ∧
    (∃ m m', MimeMultipart.ofBoundary (toBytes "b") = .ok m ∧ m.addPart (toBytes "a\\") [] = .ok m' ∧
      Mime.formData (toBytes "b") m'.toString.1 = none) ∧
    (∃ m, MimeMultipart.ofBoundary (toBytes "b") = .ok m ∧ Mime.formData (toBytes "b") m.toString.1 = none) ∧
    (∃ message request, doSendMessage (fun _ => 0) none message [1] = .ok request ∧
      Mime.delimiter (MimeMultipart.randomBoundary fun _ => 0) <:+: message.content ∧
      Mime.formData (MimeMultipart.randomBoundary fun _ => 0) request.body ≠ some (sentForms message [1])) := by
  have hm : MimeMultipart.ofBoundary (toBytes "b") = .ok { boundary := toBytes "b", valid := valid_b } :=
    MimeMultipart.ofBoundary_eq_ok.mpr ⟨valid_b, rfl⟩
  refine ⟨⟨_, _, hm, rfl, ?_, ?_⟩, ⟨_, _, hm, rfl, ?_⟩, ⟨_, hm, ?_⟩, ?_⟩
  · decide +kernel
  · decide +kernel
  · decide +kernel
  · decide +kernel
  · refine ⟨⟨[], Mime.delimiter (MimeMultipart.randomBoundary fun _ => 0), []⟩, _, rfl, List.infix_refl _, ?_⟩
    decide +kernel

end MessagesClient

end KulloClient
