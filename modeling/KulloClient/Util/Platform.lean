import KulloClient.Util.DateTime
import KulloClient.Util.Json

/-!
# What the code calls

The functions of jsoncpp's reader and writer, Botan, zlib and boost's dates, as parameters of the model.  Nothing is
assumed of them here; a result that relies on what one of them does names it as a hypothesis.
-/

namespace KulloClient

open Imperative

/-- What Botan raises: the failed authentication of a ciphertext, which the code looks for, or anything else. -/
inductive BotanError
  | integrityFailure
  | other (message : String)
  deriving DecidableEq

structure Platform where
  PublicKey : Type
  PrivateKey : Type
  /-- `Json::Reader::parse` in strict mode: what a raised `Json::RuntimeError` says, the error messages of a refused
  text, or the root. -/
  parseJson : Bytes → Except String (Except String Json)
  /-- `Json::FastWriter::write`. -/
  writeJson : Json → Bytes
  dates : DateLibrary
  base64Encode : Bytes → String
  base64Decode : String → Except BotanError Bytes
  eightByteHash : Bytes → Int
  gzip : Bytes → Except Exn Bytes
  /-- `GZip::decompress`; the error is the text of a `GZipStreamError`. -/
  gunzip : Bytes → Except String Bytes
  loadPublicKey : Bytes → Except BotanError PublicKey
  loadPrivateKey : Bytes → Except BotanError PrivateKey
  /-- RSA with OAEP; the first argument is the randomness of the padding. -/
  asymmEncrypt : Bytes → Bytes → PublicKey → Bytes
  asymmDecrypt : Bytes → PrivateKey → Except BotanError Bytes
  sign : Bytes → PrivateKey → Bytes
  verify : Bytes → Bytes → PublicKey → Except BotanError Bool
  /-- AES-256/GCM with key, IV and input. -/
  gcmEncrypt : Bytes → Bytes → Bytes → Bytes
  gcmDecrypt : Bytes → Bytes → Bytes → Except BotanError Bytes
  /-- The row of a group from which SQLite takes a column that is not aggregated; it does not say which one. -/
  bareRow : {α : Type} → List α → Option α := List.getLast?

namespace Platform

/-- A platform whose functions change nothing, for runs in which it does not matter what they do. -/
def transparent : Platform where
  PublicKey := Bytes
  PrivateKey := Bytes
  parseJson _ := .ok (.error "")
  writeJson _ := []
  dates := .gregorian
  base64Encode _ := ""
  base64Decode _ := .ok []
  eightByteHash _ := 0
  gzip := .ok
  gunzip := .ok
  loadPublicKey := .ok
  loadPrivateKey := .ok
  asymmEncrypt _ text _ := text
  asymmDecrypt text _ := .ok text
  sign _ _ := []
  verify _ _ _ := .ok true
  gcmEncrypt _ _ text := text
  gcmDecrypt _ _ text := .ok text

variable (P : Platform)

/-- `JsonHelper::readObject`. -/
def readObject (text : Bytes) : Except Exn Json :=
  match P.parseJson text with
  | .error message => .error (.jsonRuntimeError message)
  | .ok (.error messages) => .error (.jsonException messages)
  | .ok (.ok root) => if root.isObject then .ok root else .error (.jsonException "root is not an object")

/-- A Botan exception as the rest of the code sees it. -/
def ofBotan {α : Type} (result : Except BotanError α) : Except Exn α :=
  match result with
  | .ok a => .ok a
  | .error .integrityFailure => .error (.botanException "integrity failure")
  | .error (.other message) => .error (.botanException message)

/-- `CheckedConverter::toVector`. -/
def toVector (value : Json) (allowEmpty : AllowEmpty) : Except Exn Bytes := do
  let stringEncoded ← CheckedConverter.toString value allowEmpty
  match P.base64Decode stringEncoded with
  | .ok out => .ok out
  | .error _ => .error (.conversionException "Couldn't decode value from base64.")

/-- `CheckedConverter::toDateTime`. -/
def toDateTime (value : Json) : Except Exn DateTime := do
  let text ← CheckedConverter.toString value .no
  match DateTime.ofString P.dates text.toList with
  | .ok dateTime => .ok dateTime
  | .error _ => .error (.conversionException "couldn't convert value to DateTime (not a valid date/time)")

/-- `DateTime::toString`, which no conversion catches. -/
def printDateTime (dateTime : DateTime) : Except Exn String := do return String.ofList (← dateTime.toString P.dates)

theorem readObject_raises (text : Bytes) :
    RaisesOnly (fun e => e.isJsonException = true ∨ e.isJsonRuntimeError = true) (P.readObject text) := by
  unfold readObject
  split
  · rw [raisesOnly_error]; exact .inr rfl
  · rw [raisesOnly_error]; exact .inl rfl
  · split
    · simp
    · rw [raisesOnly_error]; exact .inl rfl

theorem readObject_isObject {text : Bytes} {root : Json} (h : P.readObject text = .ok root) : root.isObject = true := by
  unfold readObject at h
  split at h
  · cases h
  · cases h
  · split at h
    · next hroot => cases h; exact hroot
    · cases h

theorem ofBotan_eq_ok {α : Type} {result : Except BotanError α} {a : α} : ofBotan result = .ok a ↔ result = .ok a := by
  unfold ofBotan
  split <;> simp

theorem ofBotan_raises {α : Type} (result : Except BotanError α) :
    RaisesOnly (fun e => e.isBotanException = true) (ofBotan result) := by
  unfold ofBotan
  split
  · simp
  · rw [raisesOnly_error]; rfl
  · rw [raisesOnly_error]; rfl

theorem toVector_raises (value : Json) (allowEmpty : AllowEmpty) :
    RaisesOnly (fun e => e.isConversionException = true) (P.toVector value allowEmpty) := by
  refine raisesOnly_bind (CheckedConverter.toString_raises value allowEmpty) ?_
  intro s _
  split
  · simp
  · rw [raisesOnly_error]; rfl

theorem toDateTime_raises (value : Json) :
    RaisesOnly (fun e => e.isConversionException = true) (P.toDateTime value) := by
  refine raisesOnly_bind (CheckedConverter.toString_raises value .no) ?_
  intro s _
  split
  · simp
  · rw [raisesOnly_error]; rfl

theorem printDateTime_raises (dateTime : DateTime) :
    RaisesOnly (fun e => ∃ message, e = .outOfRange message) (P.printDateTime dateTime) :=
  raisesOnly_bind (dateTime.toString_raises P.dates) (fun _ _ => raisesOnly_ok _)

private theorem printDateTime_eq_ok {dateTime : DateTime} {text : String} :
    P.printDateTime dateTime = .ok text ↔ dateTime.toString P.dates = .ok text.toList := by
  unfold printDateTime
  cases dateTime.toString P.dates with
  | error e => simp
  | ok chars =>
    rw [ok_bind]
    constructor
    · intro h
      cases h
      rw [String.toList_ofList]
    · intro h
      cases h
      exact congrArg Except.ok String.ofList_toList

/-- A printed time is read again. -/
theorem toDateTime_printed (hdates : P.dates.Documented) {dateTime : DateTime} {text : String} (htime : dateTime.IsTime)
    (h : P.printDateTime dateTime = .ok text) : P.toDateTime (.string text) = .ok dateTime := by
  obtain ⟨chars, hprint, hread⟩ := htime.ofString_toString hdates
  rw [printDateTime_eq_ok, hprint] at h
  cases h
  have hne : text ≠ "" := by
    rintro rfl
    cases hread
  unfold toDateTime
  rw [CheckedConverter.toString_of_ne hne, ok_bind, hread]

theorem printDateTime_isTime (hdates : P.dates.Documented) {dateTime : DateTime} (htime : dateTime.IsTime) :
    ∃ text, P.printDateTime dateTime = .ok text := by
  obtain ⟨chars, hprint, -⟩ := htime.ofString_toString hdates
  exact ⟨String.ofList chars, by rw [printDateTime_eq_ok, String.toList_ofList, hprint]⟩

end Platform

/-- `readUint32`, and what the first bytes of a big-endian number say. -/
def readUint32 (data : Bytes) (offset : Nat) : Nat :=
  (data.getD offset 0).toNat * 2 ^ 24 + (data.getD (offset + 1) 0).toNat * 2 ^ 16 +
    (data.getD (offset + 2) 0).toNat * 2 ^ 8 + (data.getD (offset + 3) 0).toNat

/-- The four bytes of a number, most significant first. -/
def writeUint32 (n : Nat) : Bytes :=
  [UInt8.ofNat (n >>> 24), UInt8.ofNat (n >>> 16), UInt8.ofNat (n >>> 8), UInt8.ofNat n]

/-- The UTF-8 bytes of a string. -/
def toBytes (s : String) : Bytes := s.toUTF8.toList

end KulloClient
