import KulloClient.Codec.MessageEncoder
import KulloClient.Util.MasterKey

/-!
# The keys of an account

What a registration sends of the keys that were generated for an account, and how the answers of the server about them
are parsed.  The private data key is encrypted with the master key, the private keys with the private data key.
-/

namespace KulloClient

open Imperative

/-! ### What is exchanged -/

/-- `Protocol::SymmetricKeys`. -/
structure SymmetricKeys where
  loginKey : String := ""
  privateDataKey : Bytes := []
  deriving DecidableEq

/-- `Protocol::KeyPair`. -/
structure KeyPair where
  id : IdType := 0
  type : String
  pubkey : Bytes
  privkey : Bytes
  validFrom : DateTime
  validUntil : DateTime
  revocation : Bytes := []
  deriving DecidableEq

/-- `Protocol::Challenge`. -/
structure Challenge where
  auth : String
  type : String
  text : String
  user : String
  timestamp : Nat
  deriving DecidableEq

namespace AsymmetricKeyType

/-- The values are fixed by the protocol. -/
def toString : AsymmetricKeyType → String
  | encryption => "enc"
  | signature => "sig"

/-- `keyTypeFromString`. -/
def ofString (type : String) : Option AsymmetricKeyType :=
  if type = "enc" then some encryption
  else if type = "sig" then some signature
  else none

@[simp] theorem ofString_toString (t : AsymmetricKeyType) : ofString t.toString = some t := by
  cases t <;> rfl

theorem toString_ne_empty (t : AsymmetricKeyType) : t.toString.isEmpty = false := by
  cases t <;> rfl

end AsymmetricKeyType

/-! ### Registration -/

/-- What `ClientGenerateKeysWorker` generated; a key pair is the encodings of its two keys. -/
structure GeneratedKeys where
  masterKey : MasterKey
  privateDataKey : Bytes
  encryptionPublic : Bytes
  encryptionPrivate : Bytes
  signaturePublic : Bytes
  signaturePrivate : Bytes

namespace Registration

variable (P : Platform)

/-- The three IVs that are drawn for one request. -/
structure Ivs where
  privateDataKey : Bytes
  encryption : Bytes
  signature : Bytes

/-- `SymmetricCryptor::encrypt` with `PrependIV::True`. -/
def encryptWithIV (plaintext key iv : Bytes) : Bytes := iv ++ SymmetricCryptor.encrypt P plaintext key iv

/-- `encodeSymmKeys`; `makeLoginKey` derives the login key from the address and the master key. -/
def encodeSymmKeys (makeLoginKey : KulloAddress → MasterKey → String) (address : KulloAddress) (keys : GeneratedKeys)
    (iv : Bytes) : SymmetricKeys where
  loginKey := makeLoginKey address keys.masterKey
  privateDataKey := encryptWithIV P keys.privateDataKey keys.masterKey.data iv

/-- `encodeKeyPair`. -/
def encodeKeyPair (keys : GeneratedKeys) (type : AsymmetricKeyType) (pubkey privkey iv : Bytes)
    (validFrom validUntil : DateTime) : KeyPair where
  type := type.toString
  pubkey := pubkey
  privkey := encryptWithIV P privkey keys.privateDataKey iv
  validFrom := validFrom
  validUntil := validUntil

def keyPairJson (keyPair : KeyPair) : Json :=
  .object [("privkey", .string (P.base64Encode keyPair.privkey)), ("pubkey", .string (P.base64Encode keyPair.pubkey))]

def challengeJson (challenge : Challenge) : Json :=
  .object [("text", .string challenge.text), ("timestamp", .int challenge.timestamp), ("type", .string challenge.type),
    ("user", .string challenge.user)]

/-- `makeRegistrationDocument`. -/
def makeRegistrationDocument (address : KulloAddress) (symmKeys : SymmetricKeys) (encKeys sigKeys : KeyPair)
    (acceptedTerms : Option String) (challenge : Option Challenge) (challengeAnswer : Option String) : Json :=
  .object <|
    (acceptedTerms.toList.map fun terms => ("acceptedTerms", .string terms)) ++
    [("address", .string address.toString)] ++
    (match challenge, challengeAnswer with
      | some challenge, some answer =>
        [("challenge", challengeJson challenge), ("challengeAnswer", .string answer),
          ("challengeAuth", .string challenge.auth)]
      | _, _ => []) ++
    [("keypairEncryption", keyPairJson P encKeys), ("keypairSigning", keyPairJson P sigKeys),
      ("loginKey", .string symmKeys.loginKey), ("privateDataKey", .string (P.base64Encode symmKeys.privateDataKey))]

/-- The document that one run of `RegistrationRegisterAccountWorker` sends; an empty answer counts as none. -/
def document (makeLoginKey : KulloAddress → MasterKey → String) (address : KulloAddress) (keys : GeneratedKeys)
    (ivs : Ivs) (validFrom validUntil : DateTime) (acceptedTerms : Option String) (challenge : Option Challenge)
    (challengeAnswer : String) : Json :=
  makeRegistrationDocument P address (encodeSymmKeys P makeLoginKey address keys ivs.privateDataKey)
    (encodeKeyPair P keys .encryption keys.encryptionPublic keys.encryptionPrivate ivs.encryption validFrom validUntil)
    (encodeKeyPair P keys .signature keys.signaturePublic keys.signaturePrivate ivs.signature validFrom validUntil)
    acceptedTerms challenge (if challengeAnswer.isEmpty then none else some challengeAnswer)

end Registration

/-! ### The answers about the keys -/

namespace KeysClient

variable (P : Platform)

def parseJsonSymmKeys (json : Json) : Except Exn SymmetricKeys := do
  let privateDataKey ← P.toVector (← json.get "privateDataKey") .no
  .ok { privateDataKey }

/-- `getSymmKeys`, for what the request raises or the JSON value of its answer. -/
def getSymmKeys (answer : Except Exn Json) : Except Exn SymmetricKeys := do
  let json ← answer
  if json.isObject then fwdNested (parseJsonSymmKeys P json) Exn.isConversionException (.protocolError "Failed to parse symmKeys")
  else .error (.protocolError "Malformed JSON document (object expected)")

def parseJsonKeyPair (json : Json) : Except Exn KeyPair := do
  let validFrom ← P.toDateTime (← json.get "validFrom")
  let validUntil ← P.toDateTime (← json.get "validUntil")
  let id ← CheckedConverter.toUint32 (← json.get "id")
  let type ← CheckedConverter.toString (← json.get "type") .no
  let pubkey ← P.toVector (← json.get "pubkey") .no
  let privkey ← P.toVector (← json.get "privkey") .yes
  let revocation ← P.toVector (← json.get "revocation") .yes
  .ok { id, type, pubkey, privkey, validFrom, validUntil, revocation }

/-- One round of the loop of `getAsymmKeyPairs`. -/
def parseElement (json : Json) : Except Exn KeyPair :=
  if json.isObject then fwdNested (parseJsonKeyPair P json) Exn.isConversionException (.protocolError "Failed to parse keyPair")
  else .error (.protocolError "Malformed JSON document (object expected)")

def getAsymmKeyPairs (answer : Except Exn Json) : Except Exn (List KeyPair) := do
  let json ← answer
  if json.isArray then json.elements.mapM (parseElement P)
  else .error (.protocolError "Malformed JSON document (array expected)")

end KeysClient

end KulloClient
