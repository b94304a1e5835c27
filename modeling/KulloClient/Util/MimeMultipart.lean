import Mathlib.Logic.Function.Iterate
import KulloClient.Base.Mime
import KulloClient.Util.Platform

/-!
# MimeMultipart

The writer of multipart bodies.  What it writes for a list of parts is the library's encoding of a form, so the
parts are read back from it under the library's conditions; the writer itself checks nothing about names and data.
-/

namespace KulloClient

open Imperative

/-- What the code reads from files: the last component of a path, and the content of a regular file. -/
structure Filesystem where
  filename : Bytes → Bytes
  getContent : Bytes → Except Exn Bytes

namespace MimeMultipart

def bcharsNoSpace : Bytes :=
  toBytes "0123456789abcdefghijklmnopqrstuvwxyzABCDEFGHIJKLMNOPQRSTUVWXYZ'()+_,-./:=?"

def bchars : Bytes := bcharsNoSpace ++ toBytes " "

def minBoundaryLength : Nat := 1

def maxBoundaryLength : Nat := 70

private theorem bcharsNoSpace_length : bcharsNoSpace.length = 74 := by decide +kernel

/-- `randomBoundary`; `rand i` is what the call of `std::rand` for the `i`-th character returns. -/
def randomBoundary (rand : Nat → Nat) : Bytes :=
  (List.range maxBoundaryLength).map fun i =>
    bcharsNoSpace.get ⟨rand i % bcharsNoSpace.length, Nat.mod_lt _ (by rw [bcharsNoSpace_length]; decide)⟩

/-- What the constructor lets through. -/
structure ValidBoundary (boundary : Bytes) : Prop where
  length : minBoundaryLength ≤ boundary.length ∧ boundary.length ≤ maxBoundaryLength
  back : boundary.getLast? ≠ some 32
  chars : ∀ bchar ∈ boundary, bchar ∈ bchars

private theorem ValidBoundary.cr_not_mem {boundary : Bytes} (h : ValidBoundary boundary) : 13 ∉ boundary :=
  fun hmem => absurd (h.chars 13 hmem) (by decide +kernel)

private theorem mem_bcharsNoSpace_of_randomBoundary {rand : Nat → Nat} {b : UInt8} (h : b ∈ randomBoundary rand) :
    b ∈ bcharsNoSpace := by
  obtain ⟨i, -, rfl⟩ := List.mem_map.mp h
  exact List.get_mem _ _

@[simp] theorem length_randomBoundary (rand : Nat → Nat) : (randomBoundary rand).length = 70 := by
  simp [randomBoundary, maxBoundaryLength]

private theorem randomBoundary_valid (rand : Nat → Nat) : ValidBoundary (randomBoundary rand) where
  length := by rw [length_randomBoundary]; decide
  back h := by
    have hmem := mem_bcharsNoSpace_of_randomBoundary (List.mem_of_getLast? h)
    exact absurd hmem (by decide +kernel)
  chars _ h := List.mem_append_left _ (mem_bcharsNoSpace_of_randomBoundary h)

end MimeMultipart

open MimeMultipart in
/-- `boundary_` is checked by one constructor and valid by construction in the other. -/
structure MimeMultipart where
  boundary : Bytes
  valid : ValidBoundary boundary
  out : Bytes := []
  finalized : Bool := false

namespace MimeMultipart

/-- The constructor without arguments. -/
def random (rand : Nat → Nat) : MimeMultipart where
  boundary := randomBoundary rand
  valid := randomBoundary_valid rand

/-- The constructor with a boundary; a `char` is signed. -/
def ofBoundary (boundary : Bytes) : Except Exn MimeMultipart :=
  if hlength : boundary.length < minBoundaryLength ∨ maxBoundaryLength < boundary.length then
    .error (.utilInvalidArgument ("Bad boundary length: " ++ toString boundary.length))
  else if hback : boundary.getLast? = some 32 then
    .error (.utilInvalidArgument "Boundary must not end with a space")
  else match hchars : boundary.find? fun bchar => !bchars.contains bchar with
    | some bchar => .error (.utilInvalidArgument ("Invalid char in boundary: " ++ toString bchar.toInt8.toInt))
    | none => .ok {
        boundary
        valid := {
          length := by omega
          back := hback
          chars := by
            intro bchar hmem
            have := List.find?_eq_none.mp hchars bchar hmem
            simpa using this } }

/-- The constructor accepts the valid boundaries and no others. -/
theorem ofBoundary_eq_ok {boundary : Bytes} {m : MimeMultipart} :
    ofBoundary boundary = .ok m ↔ ∃ h : ValidBoundary boundary, m = { boundary, valid := h } := by
  constructor
  · intro hm
    rw [ofBoundary] at hm
    split at hm
    · cases hm
    · split at hm
      · cases hm
      · split at hm
        · cases hm
        · cases hm
          exact ⟨_, rfl⟩
  · rintro ⟨h, rfl⟩
    have hlength := h.length
    rw [ofBoundary, dif_neg (by omega), dif_neg h.back]
    split
    · next bchar hbchar =>
      have hmem := h.chars bchar (List.mem_of_find?_eq_some hbchar)
      have hnot := List.find?_some hbchar
      exact absurd hmem (by simpa using hnot)
    · rfl

def writePartHeader (boundary name : Bytes) : Bytes :=
  toBytes "--" ++ boundary ++ toBytes "\r\n" ++
    toBytes "Content-Disposition: form-data; name=\"" ++ name ++ toBytes "\"\r\n" ++
    toBytes "\r\n"

variable (m : MimeMultipart)

def makePart (name data : Bytes) : Bytes :=
  writePartHeader m.boundary name ++ data ++ toBytes "\r\n"

/-- `makePart` for a number. -/
def makeNumberPart (name : Bytes) (data : UInt32) : Bytes :=
  m.makePart name (toBytes (toString data.toNat))

def makeFilePart (fs : Filesystem) (name path : Bytes) : Except Exn Bytes := do
  let filename := fs.filename path
  let data ← fs.getContent path
  return toBytes "--" ++ m.boundary ++ toBytes "\r\n" ++
    toBytes "Content-Disposition: form-data; name=\"" ++ name ++ toBytes "\"; filename=\"" ++ filename ++
      toBytes "\"\r\n" ++
    toBytes "Content-Type: application/octet-stream\r\n" ++
    toBytes "\r\n" ++
    data ++ toBytes "\r\n"

def write (text : Bytes) : MimeMultipart := { m with out := m.out ++ text }

def addPart (name data : Bytes) : Except Exn MimeMultipart := do
  kulloAssert (!m.finalized) "!finalized_"
  return m.write (m.makePart name data)

/-- `addPart` for a number. -/
def addNumberPart (name : Bytes) (data : UInt32) : Except Exn MimeMultipart := do
  kulloAssert (!m.finalized) "!finalized_"
  return m.write (m.makeNumberPart name data)

/-- `addPart` for a vector. -/
def addVectorPart (name data : Bytes) : Except Exn MimeMultipart := do
  kulloAssert (!m.finalized) "!finalized_"
  return ((m.write (writePartHeader m.boundary name)).write data).write (toBytes "\r\n")

def addFilePart (fs : Filesystem) (name path : Bytes) : Except Exn MimeMultipart := do
  kulloAssert (!m.finalized) "!finalized_"
  return m.write (← m.makeFilePart fs name path)

/-- `toString`, with the object it leaves. -/
def toString : Bytes × MimeMultipart :=
  let m' :=
    if !m.finalized then { m.write (toBytes "--" ++ m.boundary ++ toBytes "--\r\n") with finalized := true } else m
  (m'.out, m')

/-! ### Parts -/

/-- What is added to a body, by the function that adds it. -/
inductive Part
  | string (name data : Bytes)
  | number (name : Bytes) (data : UInt32)
  | vector (name data : Bytes)
  | file (name path : Bytes)

variable (fs : Filesystem)

def add (m : MimeMultipart) : Part → Except Exn MimeMultipart
  | .string name data => m.addPart name data
  | .number name data => m.addNumberPart name data
  | .vector name data => m.addVectorPart name data
  | .file name path => m.addFilePart fs name path

/-- The part that a reader should see. -/
def Part.form : Part → Except Exn Mime.FormPart
  | .string name data => .ok ⟨name, none, none, data⟩
  | .number name data => .ok ⟨name, none, none, toBytes (ToString.toString data.toNat)⟩
  | .vector name data => .ok ⟨name, none, none, data⟩
  | .file name path => do
    let data ← fs.getContent path
    return ⟨name, some (fs.filename path), some (toBytes "application/octet-stream"), data⟩

/-- What the parts must be like: names without quotes, backslashes and line breaks, and data that do not collide with
the boundary. -/
structure Readable (boundary : Bytes) (f : Mime.FormPart) : Prop where
  name : Mime.Plain f.name
  filename : ∀ v ∈ f.filename, Mime.Plain v
  octets : ¬Mime.Collides boundary f.octets

variable {fs}

/-- The code adds only the content type that it names. -/
theorem Readable.writable {boundary : Bytes} {part : Part} {f : Mime.FormPart} (hform : part.form fs = .ok f)
    (h : Readable boundary f) : Mime.Writable boundary f := by
  refine ⟨h.name, h.filename, ?_, h.octets⟩
  intro v hv
  have hnone : f.contentType = none ∨ f.contentType = some (toBytes "application/octet-stream") := by
    rcases part with ⟨name, data⟩ | ⟨name, data⟩ | ⟨name, data⟩ | ⟨name, path⟩
    · cases hform
      exact .inl rfl
    · cases hform
      exact .inl rfl
    · cases hform
      exact .inl rfl
    · obtain ⟨data, -, hdata⟩ := bind_eq_ok.mp hform
      cases hdata
      exact .inr rfl
  rcases hnone with hnone | hsome
  · rw [hnone] at hv
    cases hv
  · rw [hsome] at hv
    cases hv
    decide +kernel

private theorem writePartHeader_eq (boundary name data : Bytes) :
    writePartHeader boundary name ++ data ++ toBytes "\r\n" = Mime.encodePart boundary ⟨name, none, none, data⟩ := by
  have hdashes : toBytes "--" = [45, 45] := by decide +kernel
  have hcrlf : toBytes "\r\n" = Mime.crlf := by decide +kernel
  have hend : toBytes "\"\r\n" = 34 :: Mime.crlf := by decide +kernel
  have hdisposition : toBytes "Content-Disposition: form-data; name=\"" =
      Mime.text "Content-Disposition" ++ 58 :: 32 :: (Mime.text "form-data" ++ 59 :: 32 :: (Mime.text "name" ++
        [61, 34])) := by decide +kernel
  simp [writePartHeader, Mime.encodePart, Mime.dashBoundary, Mime.encodeBody, Mime.header, Mime.disposition,
    Mime.encodeParameter, hdashes, hcrlf, hend, hdisposition]

private theorem makeFilePart_eq {m : MimeMultipart} {name path : Bytes} {f : Mime.FormPart}
    (hform : (Part.file name path).form fs = .ok f) :
    m.makeFilePart fs name path = .ok (Mime.encodePart m.boundary f) := by
  obtain ⟨data, hdata, hf⟩ := bind_eq_ok.mp hform
  cases hf
  have hdashes : toBytes "--" = [45, 45] := by decide +kernel
  have hcrlf : toBytes "\r\n" = Mime.crlf := by decide +kernel
  have hend : toBytes "\"\r\n" = 34 :: Mime.crlf := by decide +kernel
  have hdisposition : toBytes "Content-Disposition: form-data; name=\"" =
      Mime.text "Content-Disposition" ++ 58 :: 32 :: (Mime.text "form-data" ++ 59 :: 32 :: (Mime.text "name" ++
        [61, 34])) := by decide +kernel
  have hfilename : toBytes "\"; filename=\"" = 34 :: 59 :: 32 :: (Mime.text "filename" ++ [61, 34]) := by
    decide +kernel
  have hcontentType : toBytes "Content-Type: application/octet-stream\r\n" =
      Mime.text "Content-Type" ++ 58 :: 32 :: (toBytes "application/octet-stream" ++ Mime.crlf) := by decide +kernel
  rw [makeFilePart, hdata]
  simp [Mime.encodePart, Mime.dashBoundary, Mime.encodeBody, Mime.header, Mime.disposition,
    Mime.encodeParameter, Mime.contentTypeLine, hdashes, hcrlf, hend, hdisposition, hfilename, hcontentType]

/-- An object that has not been finalized, and the parts that were added to it. -/
structure Holds (m : MimeMultipart) (forms : List Mime.FormPart) : Prop where
  out : m.out = forms.flatMap (Mime.encodePart m.boundary)
  opened : m.finalized = false

/-- Adding a part writes its encoding. -/
theorem Holds.add {m : MimeMultipart} {forms : List Mime.FormPart} (h : Holds m forms) {part : Part}
    {f : Mime.FormPart} (hform : part.form fs = .ok f) :
    ∃ m', m.add fs part = .ok m' ∧ m'.boundary = m.boundary ∧ Holds m' (forms ++ [f]) := by
  have hopen : kulloAssert (!m.finalized) "!finalized_" = .ok () := by simp [h.opened]
  have hwritten : Holds (m.write (Mime.encodePart m.boundary f)) (forms ++ [f]) :=
    ⟨by simp [write, h.out], h.opened⟩
  refine ⟨m.write (Mime.encodePart m.boundary f), ?_, rfl, hwritten⟩
  rcases part with ⟨name, data⟩ | ⟨name, data⟩ | ⟨name, data⟩ | ⟨name, path⟩
  · cases hform
    rw [MimeMultipart.add, addPart, hopen, makePart, writePartHeader_eq]
    rfl
  · cases hform
    rw [MimeMultipart.add, addNumberPart, hopen, makeNumberPart, makePart, writePartHeader_eq]
    rfl
  · cases hform
    rw [MimeMultipart.add, addVectorPart, hopen, ← writePartHeader_eq]
    simp [write]
  · rw [MimeMultipart.add, addFilePart, hopen, makeFilePart_eq hform]
    rfl

/-- Adding a list of parts writes their encodings in order. -/
theorem Holds.addAll {m : MimeMultipart} {before : List Mime.FormPart} (h : Holds m before) {parts : List Part}
    {forms : List Mime.FormPart} (hforms : parts.mapM (Part.form fs) = .ok forms) :
    ∃ m', parts.foldlM (MimeMultipart.add fs) m = .ok m' ∧ m'.boundary = m.boundary ∧ Holds m' (before ++ forms) := by
  induction parts generalizing m before forms with
  | nil =>
    rw [List.mapM_nil] at hforms
    cases hforms
    exact ⟨m, rfl, rfl, by rwa [List.append_nil]⟩
  | cons part parts ih =>
    rw [List.mapM_cons] at hforms
    obtain ⟨f, hf, hcons⟩ := bind_eq_ok.mp hforms
    obtain ⟨rest, hrest, heq⟩ := bind_eq_ok.mp hcons
    cases heq
    obtain ⟨m₁, hadd, hboundary, h₁⟩ := h.add hf
    obtain ⟨m', hall, hboundary', h'⟩ := ih h₁ hrest
    refine ⟨m', ?_, hboundary'.trans hboundary, ?_⟩
    · rw [List.foldlM_cons, hadd]
      exact hall
    · rwa [List.append_assoc] at h'

/-- The first `toString` closes the body. -/
theorem Holds.toString {m : MimeMultipart} {forms : List Mime.FormPart} (h : Holds m forms) :
    m.toString.1 = Mime.encode m.boundary forms := by
  have hdashes : toBytes "--" = [45, 45] := by decide +kernel
  have hclose : toBytes "--\r\n" = 45 :: 45 :: Mime.crlf := by decide +kernel
  simp [MimeMultipart.toString, h.opened, write, h.out, Mime.encode, Mime.dashBoundary, hdashes, hclose]

private theorem toString_toString (m : MimeMultipart) : m.toString.2.toString = m.toString := by
  rcases m with ⟨boundary, valid, out, finalized⟩
  cases finalized <;> rfl

/-- However often it is called, it returns the same. -/
theorem toString_iterate (m : MimeMultipart) (k : Nat) :
    (Nat.iterate (fun m' : MimeMultipart => m'.toString.2) k m).toString.1 = m.toString.1 := by
  induction k with
  | zero => rfl
  | succ k ih => rw [Function.iterate_succ_apply', toString_toString, ih]

/-- The parts are read back in order, byte by byte. -/
theorem Holds.reads {m : MimeMultipart} {forms : List Mime.FormPart} (h : Holds m forms) (hne : forms ≠ [])
    (hforms : ∀ f ∈ forms, Mime.Writable m.boundary f) : Mime.formData m.boundary m.toString.1 = some forms := by
  rw [h.toString, Mime.formData_encode m.valid.cr_not_mem hne hforms]

/-- A body that its constructor has just made. -/
inductive Fresh : MimeMultipart → Prop
  | random (rand : Nat → Nat) : Fresh (random rand)
  | ofBoundary {boundary : Bytes} {m : MimeMultipart} : ofBoundary boundary = .ok m → Fresh m

theorem Fresh.holds {m : MimeMultipart} (h : Fresh m) : Holds m [] := by
  cases h with
  | random rand => exact ⟨rfl, rfl⟩
  | ofBoundary hm =>
    obtain ⟨hvalid, rfl⟩ := ofBoundary_eq_ok.mp hm
    exact ⟨rfl, rfl⟩

theorem writable_of_mapM {boundary : Bytes} {parts : List Part} {forms : List Mime.FormPart}
    (hforms : parts.mapM (Part.form fs) = .ok forms) (hread : ∀ f ∈ forms, Readable boundary f) :
    ∀ f ∈ forms, Mime.Writable boundary f := by
  induction parts generalizing forms with
  | nil =>
    rw [List.mapM_nil] at hforms
    cases hforms
    simp
  | cons part parts ih =>
    rw [List.mapM_cons] at hforms
    obtain ⟨f, hf, hcons⟩ := bind_eq_ok.mp hforms
    obtain ⟨rest, hrest, heq⟩ := bind_eq_ok.mp hcons
    cases heq
    intro g hg
    rcases List.mem_cons.mp hg with rfl | hg
    · exact (hread g List.mem_cons_self).writable hf
    · exact ih hrest (fun f' hf' => hread f' (List.mem_cons_of_mem _ hf')) g hg

end MimeMultipart

end KulloClient
