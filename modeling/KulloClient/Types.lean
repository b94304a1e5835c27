import Mathlib.Algebra.Ring.Int.Defs
import Mathlib.Algebra.Ring.Nat
import Mathlib.Data.Rat.Defs
import KulloClient.Base.Imperative

/-!
# Identifiers, byte strings and exceptions

The integer types of `types.h` are natural numbers: every id, timestamp and version the code handles is read from
a JSON number in range or from a row that was written from one.  `Exn` has one constructor for each exception class
a modelled function throws or catches, and one for each library below it whose exceptions pass through.
-/

namespace KulloClient

abbrev IdType := Nat
abbrev LastModified := Nat
abbrev MetaVersion := Nat
abbrev Bytes := List UInt8

/-- A fact about bytes, checked for each of them. -/
theorem forall_byte {p : UInt8 → Prop} (h : ∀ n < 256, p (UInt8.ofNat n)) (b : UInt8) : p b := by
  have hb := h b.toNat (UInt8.toNat_lt b)
  rw [UInt8.ofNat_toNat] at hb
  exact hb

/-- `ID_MAX`: the largest integer a JSON number can hold. -/
def idMax : Nat := 2 ^ 53

/-! The size limits of `limits.h`. -/

def messageKeySafeMaxBytes : Nat := 1024

def messageContentMaxBytes : Nat := 64 * 1024

def messageMetaMaxBytes : Nat := 1024

def messageAttachmentsMaxBytes : Nat := 100 * 1024 * 1024

/-- The exceptions of the library, by the header that declares them. -/
inductive Exn
  -- codec/exceptions.h
  | invalidContentFormat (message : String)
  | decryptionKeyMissing
  | unsupportedContentVersion (message : String)
  | signatureVerificationKeyMissing
  | signatureVerificationFailed
  -- crypto/exceptions.h
  | hashDoesntMatch
  | integrityFailure (message : String)
  -- crypto/pbkdf.h
  | pbkdfFailed (message : String)
  -- db/exceptions.h
  | databaseIntegrityError (message : String)
  -- protocol/exceptions.h
  | unhandledHttpStatus (statusCode : Nat)
  | unauthorized
  | forbidden
  | notFound
  | conflict
  | serverError (statusCode : Nat)
  | networkError
  | canceled
  | timeout
  | protocolError (message : String)
  -- sync/exceptions.h
  | syncCanceled
  -- util
  | assertionFailed (expression : String)
  | conversionException (message : String)
  | jsonException (message : String)
  | gzipStreamError (message : String)
  | filesystemError (message : String)
  | utilInvalidArgument (message : String)
  | invalidDateTime (message : String)
  | emptyDateTime
  -- raised below the library
  | invalidArgument (message : String)
  | outOfRange (message : String)
  | logicError (message : String)
  | jsonLogicError (message : String)
  | jsonRuntimeError (message : String)
  | botanException (message : String)
  | sqliteException (message : String)
  deriving DecidableEq

/-- `kulloAssert(expr)`. -/
def kulloAssert (condition : Bool) (expression : String) : Except Exn Unit :=
  if condition then .ok () else .error (.assertionFailed expression)

@[simp] theorem kulloAssert_true (e : String) : kulloAssert true e = .ok () := rfl

@[simp] theorem kulloAssert_false (e : String) : kulloAssert false e = .error (.assertionFailed e) := rfl

/-- `FWD_NESTED(statement, catchType, nestedException)`: exceptions of the caught class are replaced. -/
def fwdNested {α : Type} (statement : Except Exn α) (catches : Exn → Bool) (nested : Exn) : Except Exn α :=
  match statement with
  | .ok a => .ok a
  | .error e => if catches e then .error nested else .error e

theorem fwdNested_ok {α : Type} (a : α) (catches : Exn → Bool) (nested : Exn) :
    fwdNested (.ok a) catches nested = .ok a := rfl

@[simp] theorem fwdNested_eq_ok {α : Type} {x : Except Exn α} {catches : Exn → Bool} {nested : Exn} {a : α} :
    fwdNested x catches nested = .ok a ↔ x = .ok a := by
  unfold fwdNested
  split
  · rfl
  · split <;> simp

/-- What is left when the caught class is replaced. -/
theorem fwdNested_raises {α : Type} {p q : Exn → Prop} {x : Except Exn α} {catches : Exn → Bool} {nested : Exn}
    (hx : Imperative.RaisesOnly q x) (hn : p nested) (hq : ∀ e, q e → catches e = false → p e) :
    Imperative.RaisesOnly p (fwdNested x catches nested) := by
  intro e he
  unfold fwdNested at he
  split at he
  · cases he
  · next e' =>
    split at he
    · cases he
      exact hn
    · next hc =>
      cases he
      exact hq _ (hx _ rfl) (Bool.eq_false_iff.mpr hc)

theorem fwdNested_raises_iff {α : Type} {p : Exn → Prop} {x : Except Exn α} {catches : Exn → Bool} {nested : Exn}
    (hn : p nested) :
    Imperative.RaisesOnly p (fwdNested x catches nested) ↔
      Imperative.RaisesOnly (fun e => p e ∨ catches e = true) x := by
  constructor
  · rintro h e rfl
    by_cases hc : catches e = true
    · exact .inr hc
    · exact .inl (h e (by simp [fwdNested, hc]))
  · intro h
    refine fwdNested_raises h hn ?_
    intro e he hc
    rcases he with he | he
    · exact he
    · rw [he] at hc
      cases hc

theorem fwdNested_eq_self {α : Type} {x : Except Exn α} {catches : Exn → Bool} {nested : Exn}
    (h : Imperative.RaisesOnly (fun e => catches e = false) x) : fwdNested x catches nested = x := by
  unfold fwdNested
  split
  · rfl
  · next e => rw [if_neg (by simp [h e rfl])]

namespace Exn

def isConversionException : Exn → Bool
  | conversionException _ => true
  | _ => false

def isJsonException : Exn → Bool
  | jsonException _ => true
  | _ => false

def isJsonLogicError : Exn → Bool
  | jsonLogicError _ => true
  | _ => false

def isJsonRuntimeError : Exn → Bool
  | jsonRuntimeError _ => true
  | _ => false

def isBotanException : Exn → Bool
  | botanException _ => true
  | _ => false

def isInvalidArgument : Exn → Bool
  | invalidArgument _ => true
  | _ => false

def isGZipStreamError : Exn → Bool
  | gzipStreamError _ => true
  | _ => false

def isIntegrityFailure : Exn → Bool
  | integrityFailure _ => true
  | _ => false

def isDatabaseIntegrityError : Exn → Bool
  | databaseIntegrityError _ => true
  | _ => false

end Exn

end KulloClient
