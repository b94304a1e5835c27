import KulloClient.Crypto.Pbkdf
import KulloClient.Crypto.SymmetricCryptor
import KulloClient.Util.MasterKey

/-!
# MasterKeyHelpers

A master key, encrypted with a password, as a text of six fields: the algorithm, its three numbers, the salt and the
ciphertext, which begins with its IV.
-/

namespace KulloClient

open Imperative

/-- `std::stol`, for a `long` of 64 bits. -/
def stol (text : List Char) : Except Exn Int :=
  match leadingNumber text with
  | none => .error (.invalidArgument "stol")
  | some n => if -2 ^ 63 ≤ n ∧ n < 2 ^ 63 then .ok n else .error (.outOfRange "stol")

/-- `Util::numeric_cast<uint32_t>`. -/
def numericCast (n : Int) : Except Exn UInt32 :=
  if n < 0 then .error (.assertionFailed "bad numeric conversion: negative overflow")
  else if n < 2 ^ 32 then .ok (UInt32.ofNat n.toNat)
  else .error (.assertionFailed "bad numeric conversion: positive overflow")

/-- `Api::MasterKey`, whose constructors take the blocks from a `Util::MasterKey`. -/
structure ApiMasterKey (uninit : MasterKey.Uninitialized) where
  blocks : List (List Char)
  valid : ∃ k : MasterKey, k.dataBlocks uninit = blocks

def ApiMasterKey.ofMasterKey (uninit : MasterKey.Uninitialized) (masterKey : MasterKey) : ApiMasterKey uninit :=
  ⟨masterKey.dataBlocks uninit, masterKey, rfl⟩

structure EncryptedMasterKey where
  algorithm : List Char
  argon2MemoryKiB : UInt32
  argon2Times : UInt32
  argon2Parallelism : UInt32
  argon2Salt : Bytes
  ciphertext : Bytes

namespace EncryptedMasterKey

/-- The constructor. -/
def ofString (P : Platform) (encryptedMasterKey : List Char) : Except Exn EncryptedMasterKey :=
  match encryptedMasterKey.splitOn '_' with
  | [algorithm, memory, times, parallelism, salt, ciphertext] => do
    let argon2MemoryKiB ← stol memory >>= numericCast
    let argon2Times ← stol times >>= numericCast
    let argon2Parallelism ← stol parallelism >>= numericCast
    let argon2Salt ← Platform.ofBotan (P.base64Decode (String.ofList salt))
    let ciphertext ← Platform.ofBotan (P.base64Decode (String.ofList ciphertext))
    .ok ⟨algorithm, argon2MemoryKiB, argon2Times, argon2Parallelism, argon2Salt, ciphertext⟩
  | _ => .error (.invalidArgument "!= 5 args")

def toString (P : Platform) (e : EncryptedMasterKey) : List Char :=
  e.algorithm ++
    '_' :: Nat.toDigits 10 e.argon2MemoryKiB.toNat ++
    '_' :: Nat.toDigits 10 e.argon2Times.toNat ++
    '_' :: Nat.toDigits 10 e.argon2Parallelism.toNat ++
    '_' :: (P.base64Encode e.argon2Salt).toList ++
    '_' :: (P.base64Encode e.ciphertext).toList

end EncryptedMasterKey

namespace MasterKeyHelpers

def argon2Times : UInt32 := 2

def argon2MemoryKiB : UInt32 := UInt32.ofNat (1 <<< 16)

def argon2Parallelism : UInt32 := 2

def argon2HashBytes : Nat := 256 / 8

/-- `SymmetricCryptor::RANDOM_IV_BYTES`. -/
def randomIVBytes : Nat := 128 / 8

variable (P : Platform) (A : Argon2) (uninit : MasterKey.Uninitialized)

/-- `encrypt`, with the salt and the IV that are drawn. -/
def encrypt (password : Bytes) (masterKey : ApiMasterKey uninit) (salt iv : Bytes) : Except Exn (List Char) := do
  let key ← Pbkdf.argon2i A argon2Times argon2MemoryKiB argon2Parallelism password salt argon2HashBytes
  let rawPlaintext := (← MasterKey.ofBlocks uninit masterKey.blocks 1).data
  let encrypted : EncryptedMasterKey := {
    algorithm := "argon2i".toList
    argon2MemoryKiB := argon2MemoryKiB
    argon2Times := argon2Times
    argon2Parallelism := argon2Parallelism
    argon2Salt := salt
    ciphertext := iv ++ SymmetricCryptor.encrypt P rawPlaintext key iv }
  .ok (encrypted.toString P)

/-- The key that `decrypt` uses. -/
def deriveKey (password : Bytes) (encrypted : EncryptedMasterKey) : Except Exn Bytes :=
  Pbkdf.argon2i A encrypted.argon2Times encrypted.argon2MemoryKiB encrypted.argon2Parallelism password
    encrypted.argon2Salt argon2HashBytes

def decrypt (password : Bytes) (encryptedMasterKey : List Char) : Except Exn (Option (ApiMasterKey uninit)) := do
  let encrypted ← EncryptedMasterKey.ofString P encryptedMasterKey
  if encrypted.algorithm ≠ "argon2i".toList then
    .error (.invalidArgument ("Bad algorithm: " ++ String.ofList encrypted.algorithm))
  else
    let key ← deriveKey A password encrypted
    match SymmetricCryptor.decryptWithIV P encrypted.ciphertext key randomIVBytes with
    | .error (.integrityFailure _) => .ok none
    | .error e => .error e
    | .ok rawPlaintext => do
      let masterKey ← MasterKey.ofVector rawPlaintext 1
      .ok (some (.ofMasterKey uninit masterKey))

end MasterKeyHelpers

/-! ### Numbers -/

/-- What a field of a number does: it is refused, accepted, or too large for one of the two types. -/
theorem number_cases (part : List Char) :
    (leadingNumber part = none ∧ stol part >>= numericCast = .error (.invalidArgument "stol")) ∨
    (∃ n : Int, leadingNumber part = some n ∧ (0 ≤ n ∧ n < 2 ^ 32) ∧
      stol part >>= numericCast = .ok (UInt32.ofNat n.toNat)) ∨
    ∃ n : Int, leadingNumber part = some n ∧ ¬ (0 ≤ n ∧ n < 2 ^ 32) ∧
      ∃ e, stol part >>= numericCast = .error e ∧ e.isInvalidArgument = false := by
  unfold stol
  cases hnumber : leadingNumber part with
  | none => exact .inl ⟨rfl, rfl⟩
  | some n =>
    right
    dsimp only
    by_cases hlong : -2 ^ 63 ≤ n ∧ n < 2 ^ 63
    · rw [if_pos hlong, ok_bind]
      unfold numericCast
      by_cases hneg : n < 0
      · rw [if_pos hneg]
        exact .inr ⟨n, rfl, by omega, _, rfl, rfl⟩
      · rw [if_neg hneg]
        by_cases hfits : n < 2 ^ 32
        · rw [if_pos hfits]
          exact .inl ⟨n, rfl, ⟨by omega, hfits⟩, rfl⟩
        · rw [if_neg hfits]
          exact .inr ⟨n, rfl, by omega, _, rfl, rfl⟩
    · rw [if_neg hlong]
      exact .inr ⟨n, rfl, by omega, _, rfl, rfl⟩

private theorem number_toDigits (u : UInt32) : stol (Nat.toDigits 10 u.toNat) >>= numericCast = .ok u := by
  have hlt := u.toNat_lt
  have hnumber := leadingNumber_toDigits u.toNat
  rcases number_cases (Nat.toDigits 10 u.toNat) with ⟨hnone, -⟩ | ⟨n, hn, -, heq⟩ | ⟨n, hn, hfits, -⟩
  · rw [hnone] at hnumber
    cases hnumber
  · rw [hn, Option.some.injEq] at hnumber
    rw [heq, hnumber, Int.toNat_natCast, UInt32.ofNat_toNat]
  · rw [hn, Option.some.injEq] at hnumber
    omega

/-! ### The text form -/

/-- Base64 decodes what it encoded, and has no underscores. -/
structure Base64Specified (P : Platform) : Prop where
  decode_encode : ∀ bytes, P.base64Decode (P.base64Encode bytes) = .ok bytes
  underscore_notMem : ∀ bytes, '_' ∉ (P.base64Encode bytes).toList

namespace EncryptedMasterKey

private theorem splitOn_toString {P : Platform} (hbase64 : Base64Specified P) {e : EncryptedMasterKey} (h : '_' ∉ e.algorithm) :
    (e.toString P).splitOn '_' =
      [e.algorithm, Nat.toDigits 10 e.argon2MemoryKiB.toNat, Nat.toDigits 10 e.argon2Times.toNat,
        Nat.toDigits 10 e.argon2Parallelism.toNat, (P.base64Encode e.argon2Salt).toList,
        (P.base64Encode e.ciphertext).toList] := by
  have hdigits : ∀ n : Nat, '_' ∉ Nat.toDigits 10 n := by
    intro n hmem
    have := Nat.isDigit_of_mem_toDigits (by decide) (by decide) hmem
    cases this
  have hjoin : e.toString P = ['_'].intercalate
      [e.algorithm, Nat.toDigits 10 e.argon2MemoryKiB.toNat, Nat.toDigits 10 e.argon2Times.toNat,
        Nat.toDigits 10 e.argon2Parallelism.toNat, (P.base64Encode e.argon2Salt).toList,
        (P.base64Encode e.ciphertext).toList] := by
    simp [toString, List.intercalate, List.intersperse]
  rw [hjoin]
  apply List.splitOn_intercalate
  · intro part hpart
    simp only [List.mem_cons, List.not_mem_nil, or_false] at hpart
    rcases hpart with rfl | rfl | rfl | rfl | rfl | rfl
    · exact h
    · exact hdigits _
    · exact hdigits _
    · exact hdigits _
    · exact hbase64.underscore_notMem _
    · exact hbase64.underscore_notMem _
  · simp

/-- What is written is read again. -/
theorem ofString_toString {P : Platform} (hbase64 : Base64Specified P) {e : EncryptedMasterKey}
    (h : '_' ∉ e.algorithm) : ofString P (e.toString P) = .ok e := by
  have hdecode : ∀ bytes, Platform.ofBotan (P.base64Decode (String.ofList (P.base64Encode bytes).toList)) = .ok bytes := by
    intro bytes
    rw [String.ofList_toList, hbase64.decode_encode]
    rfl
  unfold ofString
  rw [splitOn_toString hbase64 h]
  simp only [number_toDigits, hdecode, ok_bind]

end EncryptedMasterKey

/-- AES-GCM under keys of 32 bytes: a text is decrypted if it was encrypted under the key, and a wrong tag is told from
a text that is too short to have one. -/
structure GcmSpecified (P : Platform) : Prop where
  decrypt_eq_ok : ∀ key iv ciphertext plaintext, key.length = 32 →
    (P.gcmDecrypt key iv ciphertext = .ok plaintext ↔ ciphertext = P.gcmEncrypt key iv plaintext)
  length_encrypt : ∀ key iv plaintext, (P.gcmEncrypt key iv plaintext).length = plaintext.length + 16
  integrityFailure : ∀ key iv ciphertext e, key.length = 32 → 16 ≤ ciphertext.length →
    P.gcmDecrypt key iv ciphertext = .error e → e = .integrityFailure
  tooShort : ∀ key iv ciphertext, ciphertext.length < 16 →
    ∃ message, P.gcmDecrypt key iv ciphertext = .error (.other message)

private theorem GcmSpecified.roundTrips {P : Platform} (h : GcmSpecified P) {key : Bytes} (hkey : key.length = 32) (iv : Bytes) :
    GcmRoundTrips P key iv :=
  ⟨fun plaintext _ => (h.decrypt_eq_ok key iv _ plaintext hkey).mpr rfl,
    fun plaintext _ => h.length_encrypt key iv plaintext⟩

namespace MasterKeyHelpers

variable {P : Platform} {A : Argon2} {uninit : MasterKey.Uninitialized}

/-- The blocks of a key are read as its data again. -/
theorem ofBlocks_valid (masterKey : ApiMasterKey uninit) :
    ∃ k, MasterKey.ofBlocks uninit masterKey.blocks 1 = .ok k ∧ k.dataBlocks uninit = masterKey.blocks := by
  obtain ⟨k, hk⟩ := masterKey.valid
  have hblocks : MasterKey.ofBlocks uninit (k.dataBlocks uninit) 1 = .ok ⟨k.data, some 1, k.size⟩ :=
    MasterKey.ofBlocks_eq_ok.mpr
      ⟨MasterKey.checkKey_dataBlocks uninit k, (MasterKey.blockListToRawData_dataBlocks k).symm, rfl⟩
  rw [hk] at hblocks
  exact ⟨_, hblocks, hk⟩

/-- `decrypt` behind the fields of the text. -/
def decryptFields (P : Platform) (A : Argon2) (uninit : MasterKey.Uninitialized) (password : Bytes)
    (encrypted : EncryptedMasterKey) : Except Exn (Option (ApiMasterKey uninit)) :=
  if encrypted.algorithm ≠ "argon2i".toList then
    .error (.invalidArgument ("Bad algorithm: " ++ String.ofList encrypted.algorithm))
  else do
    let key ← deriveKey A password encrypted
    match SymmetricCryptor.decryptWithIV P encrypted.ciphertext key randomIVBytes with
    | .error (.integrityFailure _) => .ok none
    | .error e => .error e
    | .ok rawPlaintext => do
      let masterKey ← MasterKey.ofVector rawPlaintext 1
      .ok (some (.ofMasterKey uninit masterKey))

private theorem decrypt_eq (password : Bytes) (encryptedMasterKey : List Char) :
    decrypt P A uninit password encryptedMasterKey =
      EncryptedMasterKey.ofString P encryptedMasterKey >>= decryptFields P A uninit password := rfl

private theorem usable_constants {salt : Bytes} (hsalt : salt.length = 16) :
    Pbkdf.Usable argon2Times argon2MemoryKiB argon2Parallelism salt :=
  ⟨by omega, by decide, by decide, by decide⟩

/-- What is encrypted with a password is decrypted with it, whatever the salt and the IV are. -/
theorem decrypt_encrypt (hbase64 : Base64Specified P) (hgcm : GcmSpecified P) (password : Bytes)
    (masterKey : ApiMasterKey uninit) {salt iv : Bytes} (hsalt : salt.length = 16) (hiv : iv.length = randomIVBytes)
    {rawKey : Bytes}
    (hfill : A.fill (Pbkdf.context argon2Times argon2MemoryKiB argon2Parallelism password salt 32) = .ok rawKey) :
    ∃ text, encrypt P A uninit password masterKey salt iv = .ok text ∧
      decrypt P A uninit password text = .ok (some masterKey) := by
  obtain ⟨k, hk, hblocks⟩ := ofBlocks_valid masterKey
  obtain ⟨hlength, hkey⟩ : rawKey.length = 32 ∧
      Pbkdf.argon2i A argon2Times argon2MemoryKiB argon2Parallelism password salt argon2HashBytes = .ok rawKey := by
    rcases Pbkdf.argon2i_cases A argon2Times argon2MemoryKiB argon2Parallelism password salt with
      ⟨-, output, houtput, hlength, heq⟩ | ⟨hunusable, -⟩
    · rw [hfill] at houtput
      cases houtput
      exact ⟨hlength, heq⟩
    · exact absurd ⟨usable_constants hsalt, rawKey, hfill⟩ hunusable
  obtain ⟨encrypted, hencrypted⟩ : ∃ encrypted : EncryptedMasterKey, encrypted = {
      algorithm := "argon2i".toList
      argon2MemoryKiB := argon2MemoryKiB
      argon2Times := argon2Times
      argon2Parallelism := argon2Parallelism
      argon2Salt := salt
      ciphertext := iv ++ SymmetricCryptor.encrypt P k.data rawKey iv } := ⟨_, rfl⟩
  have halgorithm : '_' ∉ encrypted.algorithm := by
    have hname : '_' ∉ "argon2i".toList := by decide
    rw [hencrypted]
    exact hname
  refine ⟨encrypted.toString P, ?_, ?_⟩
  · unfold encrypt
    rw [hkey, ok_bind, hk, ok_bind, hencrypted]
  · rw [decrypt_eq, EncryptedMasterKey.ofString_toString hbase64 halgorithm, ok_bind, hencrypted]
    have hsize : ¬ k.data.length * 8 ≠ 256 := by
      have := k.size
      omega
    unfold decryptFields deriveKey
    rw [if_neg (by simp), hkey, ok_bind, SymmetricCryptor.decryptWithIV_encrypt (hgcm.roundTrips hlength iv) hiv]
    dsimp only
    unfold MasterKey.ofVector
    rw [dif_neg hsize, ok_bind]
    unfold ApiMasterKey.ofMasterKey
    obtain ⟨blocks, hvalid⟩ := masterKey
    dsimp only at hblocks
    simp only [← hblocks]
    rfl

/-! ### Texts that were not made with the password -/

/-- The ciphertext of the text was made under the key that is derived from the password. -/
def Produced (P : Platform) (A : Argon2) (password : Bytes) (encryptedMasterKey : List Char) : Prop :=
  ∃ encrypted rawKey iv plaintext, EncryptedMasterKey.ofString P encryptedMasterKey = .ok encrypted ∧
    deriveKey A password encrypted = .ok rawKey ∧ iv.length = randomIVBytes ∧
    encrypted.ciphertext = iv ++ P.gcmEncrypt rawKey iv plaintext

/-- No key: none, or `std::invalid_argument`. -/
def Rejected {α : Type} (result : Except Exn (Option α)) : Prop :=
  result = .ok none ∨ ∃ e, result = .error e ∧ e.isInvalidArgument = true

/-- The texts of six fields that are taken care of: the first number that is no number ends it, or all of them fit and
both byte strings can be decoded; then, for the one algorithm, Argon2 has to accept its inputs and not to fail, and the
ciphertext is an IV or is long enough for a tag. -/
def Handled (P : Platform) (A : Argon2) (password : Bytes) : List (List Char) → Prop
  | [algorithm, memory, times, parallelism, salt, ciphertext] =>
    ∀ m, leadingNumber memory = some m → (0 ≤ m ∧ m < 2 ^ 32) ∧
    ∀ t, leadingNumber times = some t → (0 ≤ t ∧ t < 2 ^ 32) ∧
    ∀ p, leadingNumber parallelism = some p → (0 ≤ p ∧ p < 2 ^ 32) ∧
    ∃ saltBytes, P.base64Decode (String.ofList salt) = .ok saltBytes ∧
    ∃ ciphertextBytes, P.base64Decode (String.ofList ciphertext) = .ok ciphertextBytes ∧
      (algorithm = "argon2i".toList →
        (Pbkdf.Usable (UInt32.ofNat t.toNat) (UInt32.ofNat m.toNat) (UInt32.ofNat p.toNat) saltBytes ∧
          ∃ output, A.fill (Pbkdf.context (UInt32.ofNat t.toNat) (UInt32.ofNat m.toNat) (UInt32.ofNat p.toNat) password
            saltBytes 32) = .ok output) ∧
        (ciphertextBytes.length = 16 ∨ 32 ≤ ciphertextBytes.length))
  | _ => True

/-- No key is returned, and the result is as it should be under a condition. -/
def Refuses {α : Type} (result : Except Exn (Option α)) (condition : Prop) : Prop :=
  (∀ a, result ≠ .ok (some a)) ∧ (Rejected result ↔ condition)

private theorem refuses_error {α : Type} {e : Exn} {condition : Prop} :
    Refuses (.error e : Except Exn (Option α)) condition ↔ (e.isInvalidArgument = true ↔ condition) := by
  simp [Refuses, Rejected]

private theorem refuses_none {α : Type} {condition : Prop} (h : condition) :
    Refuses (.ok none : Except Exn (Option α)) condition :=
  ⟨fun _ => by simp, fun _ => h, fun _ => .inl rfl⟩

/-- A text is never accepted that was not made under the key, and it is rejected as it should be if there is a tag or
nothing behind the IV. -/
theorem decryptFields_of_not_produced (hgcm : GcmSpecified P) {password : Bytes} {encrypted : EncryptedMasterKey}
    (h : ∀ rawKey iv plaintext, deriveKey A password encrypted = .ok rawKey → iv.length = randomIVBytes →
      encrypted.ciphertext ≠ iv ++ P.gcmEncrypt rawKey iv plaintext) :
    Refuses (decryptFields P A uninit password encrypted)
      (encrypted.algorithm = "argon2i".toList →
        (Pbkdf.Usable encrypted.argon2Times encrypted.argon2MemoryKiB encrypted.argon2Parallelism encrypted.argon2Salt ∧
          ∃ output, A.fill (Pbkdf.context encrypted.argon2Times encrypted.argon2MemoryKiB encrypted.argon2Parallelism
            password encrypted.argon2Salt 32) = .ok output) ∧
        (encrypted.ciphertext.length = 16 ∨ 32 ≤ encrypted.ciphertext.length)) := by
  unfold decryptFields
  by_cases halgorithm : encrypted.algorithm = "argon2i".toList
  · rw [if_neg (not_not.mpr halgorithm)]
    have hderive : deriveKey A password encrypted = Pbkdf.argon2i A encrypted.argon2Times encrypted.argon2MemoryKiB
      encrypted.argon2Parallelism password encrypted.argon2Salt 32 := rfl
    rcases Pbkdf.argon2i_cases A encrypted.argon2Times encrypted.argon2MemoryKiB encrypted.argon2Parallelism password
      encrypted.argon2Salt with ⟨husable, rawKey, hfill, hlength, heq⟩ | ⟨hunusable, message, heq⟩
    · rw [hderive, heq, ok_bind]
      rw [hderive, heq] at h
      have hargon : Pbkdf.Usable encrypted.argon2Times encrypted.argon2MemoryKiB encrypted.argon2Parallelism
          encrypted.argon2Salt ∧ ∃ output, A.fill (Pbkdf.context encrypted.argon2Times encrypted.argon2MemoryKiB
            encrypted.argon2Parallelism password encrypted.argon2Salt 32) = .ok output := ⟨husable, rawKey, hfill⟩
      simp only [halgorithm, hargon, true_and, forall_const]
      by_cases hshort : encrypted.ciphertext.length < 16
      · -- not even an IV
        have hassert : SymmetricCryptor.decryptWithIV P encrypted.ciphertext rawKey randomIVBytes =
            .error (.assertionFailed "ivAndCiphertext.size() >= ivLength") := by
          unfold SymmetricCryptor.decryptWithIV
          have hle : decide (randomIVBytes ≤ encrypted.ciphertext.length) = false :=
            decide_eq_false (by unfold randomIVBytes; omega)
          rw [hle]
          rfl
        rw [hassert]
        refine refuses_error.mpr ?_
        constructor
        · intro hargument
          cases hargument
        · intro hlong
          omega
      · -- the IV and what follows it
        obtain ⟨iv, rest, hsplit, hiv⟩ : ∃ iv rest, encrypted.ciphertext = iv ++ rest ∧ iv.length = randomIVBytes := by
          refine ⟨encrypted.ciphertext.take 16, encrypted.ciphertext.drop 16, (List.take_append_drop 16 _).symm, ?_⟩
          rw [List.length_take]
          unfold randomIVBytes
          omega
        have hlen : encrypted.ciphertext.length = 16 + rest.length := by
          rw [hsplit, List.length_append, hiv]
          rfl
        have hnot : ∀ plaintext, rest ≠ P.gcmEncrypt rawKey iv plaintext := by
          intro plaintext heq
          exact h rawKey iv plaintext rfl hiv (by rw [hsplit, heq])
        rw [hlen, hsplit, SymmetricCryptor.decryptWithIV_append rest hiv]
        unfold SymmetricCryptor.decrypt
        by_cases hempty : rest = []
        · -- no ciphertext is taken for that of the empty text
          subst hempty
          refine refuses_error.mpr ?_
          constructor
          · intro _
            exact .inl rfl
          · intro _
            rfl
        · have hne : rest.isEmpty = false := by simpa using hempty
          have hpos : 0 < rest.length := List.length_pos_iff.mpr hempty
          rw [hne]
          by_cases htag : rest.length < 16
          · obtain ⟨message, herror⟩ := hgcm.tooShort rawKey iv rest htag
            simp only [herror, Bool.false_eq_true, if_false]
            refine refuses_error.mpr ?_
            constructor
            · intro hargument
              cases hargument
            · intro hlong
              omega
          · cases hdecrypt : P.gcmDecrypt rawKey iv rest with
            | ok plaintext => exact absurd ((hgcm.decrypt_eq_ok rawKey iv rest plaintext hlength).mp hdecrypt) (hnot plaintext)
            | error e =>
              obtain rfl := hgcm.integrityFailure rawKey iv rest e hlength (by omega) hdecrypt
              simp only [Bool.false_eq_true, if_false]
              exact refuses_none (.inr (by omega))
    · rw [hderive, heq, error_bind, refuses_error]
      constructor
      · intro hargument
        cases hargument
      · intro hhandled
        exact absurd (hhandled halgorithm).1 hunusable
  · rw [if_pos halgorithm, refuses_error]
    constructor
    · intro _ heq
      exact absurd heq halgorithm
    · intro _
      rfl

private theorem refuses_number {α : Type} {part : List Char} {k : UInt32 → Except Exn (Option α)} {condition : Int → Prop}
    (h : ∀ n, leadingNumber part = some n → stol part >>= numericCast = .ok (UInt32.ofNat n.toNat) →
      Refuses (k (UInt32.ofNat n.toNat)) (condition n)) :
    Refuses (stol part >>= numericCast >>= k)
      (∀ n, leadingNumber part = some n → (0 ≤ n ∧ n < 2 ^ 32) ∧ condition n) := by
  rcases number_cases part with ⟨hnumber, heq⟩ | ⟨n, hnumber, hfits, heq⟩ | ⟨n, hnumber, hfits, e, heq, he⟩
  · rw [heq, hnumber, error_bind, refuses_error]
    constructor
    · intro _ n hn
      cases hn
    · intro _
      rfl
  · obtain ⟨hnone, hiff⟩ := h n hnumber heq
    rw [heq, ok_bind, hnumber]
    refine ⟨hnone, ?_⟩
    rw [hiff]
    constructor
    · intro hcondition n' hn'
      cases hn'
      exact ⟨hfits, hcondition⟩
    · intro hall
      exact (hall n rfl).2
  · rw [heq, hnumber, error_bind, refuses_error, he]
    constructor
    · intro hfalse
      cases hfalse
    · intro hall
      exact absurd (hall n rfl).1 hfits

private theorem refuses_decode {α : Type} {text : String} {k : Bytes → Except Exn (Option α)} {condition : Bytes → Prop}
    (h : ∀ bytes, P.base64Decode text = .ok bytes → Refuses (k bytes) (condition bytes)) :
    Refuses (Platform.ofBotan (P.base64Decode text) >>= k) (∃ bytes, P.base64Decode text = .ok bytes ∧ condition bytes) := by
  cases hdecode : P.base64Decode text with
  | error e =>
    have herror : ∃ message, (Platform.ofBotan (.error e) : Except Exn Bytes) = .error (.botanException message) := by
      cases e with
      | integrityFailure => exact ⟨_, rfl⟩
      | other message => exact ⟨_, rfl⟩
    obtain ⟨message, hbotan⟩ := herror
    rw [hbotan, error_bind, refuses_error]
    constructor
    · intro hfalse
      cases hfalse
    · intro hexists
      obtain ⟨bytes, hbytes, -⟩ := hexists
      cases hbytes
  | ok bytes =>
    obtain ⟨hnone, hiff⟩ := h bytes hdecode
    refine ⟨hnone, ?_⟩
    have hresult : Platform.ofBotan (.ok bytes) >>= k = k bytes := rfl
    rw [hresult, hiff]
    constructor
    · intro hcondition
      exact ⟨bytes, rfl, hcondition⟩
    · intro hexists
      obtain ⟨bytes', hbytes', hcondition⟩ := hexists
      cases hbytes'
      exact hcondition

/-- Every text of six fields that was not made with the password. -/
theorem refuses_of_not_produced (hgcm : GcmSpecified P) {password : Bytes} {text : List Char}
    (hfields : (text.splitOn '_').length = 6) (h : ¬ Produced P A password text) :
    Refuses (decrypt P A uninit password text) (Handled P A password (text.splitOn '_')) := by
  obtain ⟨algorithm, memory, times, parallelism, salt, ciphertext, hsplit⟩ : ∃ algorithm memory times parallelism salt
      ciphertext, text.splitOn '_' = [algorithm, memory, times, parallelism, salt, ciphertext] := by
    generalize text.splitOn '_' = fields at hfields
    match fields, hfields with
    | [a, b, c, d, e, f], _ => exact ⟨a, b, c, d, e, f, rfl⟩
  have hparse : EncryptedMasterKey.ofString P text = (do
      let argon2MemoryKiB ← stol memory >>= numericCast
      let argon2Times ← stol times >>= numericCast
      let argon2Parallelism ← stol parallelism >>= numericCast
      let argon2Salt ← Platform.ofBotan (P.base64Decode (String.ofList salt))
      let ciphertext ← Platform.ofBotan (P.base64Decode (String.ofList ciphertext))
      .ok ⟨algorithm, argon2MemoryKiB, argon2Times, argon2Parallelism, argon2Salt, ciphertext⟩) := by
    unfold EncryptedMasterKey.ofString
    rw [hsplit]
  rw [hsplit, decrypt_eq, hparse, bind_assoc]
  apply refuses_number
  intro m hm hmemory
  rw [bind_assoc]
  apply refuses_number
  intro t ht htimes
  rw [bind_assoc]
  apply refuses_number
  intro p hp hparallelism
  rw [bind_assoc]
  apply refuses_decode
  intro saltBytes hsalt
  rw [bind_assoc]
  apply refuses_decode
  intro ciphertextBytes hciphertext
  apply decryptFields_of_not_produced hgcm
  intro rawKey iv plaintext hkey hiv heq
  refine h ⟨_, rawKey, iv, plaintext, ?_, hkey, hiv, heq⟩
  rw [hparse, hmemory, ok_bind, htimes, ok_bind, hparallelism, ok_bind, hsalt, hciphertext]
  rfl

/-- The encryption of a master key: it can be undone, its text form can be read, and a text that was not made with the
password gives no key, and no other exception exactly if it is handled. -/
theorem encryptedMasterKey_iff (hbase64 : Base64Specified P) (hgcm : GcmSpecified P) :
    (∀ password (masterKey : ApiMasterKey uninit) salt iv rawKey, salt.length = 16 → iv.length = randomIVBytes →
      A.fill (Pbkdf.context argon2Times argon2MemoryKiB argon2Parallelism password salt 32) = .ok rawKey →
      ∃ text, encrypt P A uninit password masterKey salt iv = .ok text ∧
        decrypt P A uninit password text = .ok (some masterKey)) ∧
    (∀ e : EncryptedMasterKey, '_' ∉ e.algorithm → EncryptedMasterKey.ofString P (e.toString P) = .ok e) ∧
    ∀ password text, (text.splitOn '_').length = 6 → ¬ Produced P A password text →
      (∀ masterKey, decrypt P A uninit password text ≠ .ok (some masterKey)) ∧
      (Rejected (decrypt P A uninit password text) ↔ Handled P A password (text.splitOn '_')) := by
  refine ⟨?_, ?_, ?_⟩
  · intro password masterKey salt iv rawKey hsalt hiv hfill
    exact decrypt_encrypt hbase64 hgcm password masterKey hsalt hiv hfill
  · intro e h
    exact EncryptedMasterKey.ofString_toString hbase64 h
  · intro password text hfields h
    exact refuses_of_not_produced hgcm hfields h

/-! ### A platform in which keys do not matter -/

def nibble (n : Nat) : Char := Char.ofNat (65 + n)

def decodeNibbles : List Char → Except BotanError Bytes
  | [] => .ok []
  | [_] => .error (.other "Invalid number of characters")
  | a :: b :: rest => (decodeNibbles rest).map (UInt8.ofNat ((a.toNat - 65) * 16 + (b.toNat - 65)) :: ·)

/-- Bytes are encoded as two letters, and encrypting appends a tag of 16 bytes. -/
def sealing : Platform :=
  { Platform.tagging with
    base64Encode := fun bytes => String.ofList (bytes.flatMap fun b => [nibble (b.toNat / 16), nibble (b.toNat % 16)])
    base64Decode := fun text => decodeNibbles text.toList
    gcmDecrypt := fun _ _ ciphertext =>
      if ciphertext.length < 16 then .error (.other "Have the tag as part of final input")
      else if ciphertext.drop (ciphertext.length - 16) = List.replicate 16 0 then
        .ok (ciphertext.take (ciphertext.length - 16))
      else .error .integrityFailure }

private theorem sealing_base64 : Base64Specified sealing := by
  have hletter : ∀ n < 16, (nibble n).toNat = 65 + n ∧ nibble n ≠ '_' := by decide
  constructor
  · intro bytes
    simp only [sealing, String.toList_ofList]
    induction bytes with
    | nil => rfl
    | cons b bytes ih =>
      have hlt := b.toNat_lt
      have hbyte : ((nibble (b.toNat / 16)).toNat - 65) * 16 + ((nibble (b.toNat % 16)).toNat - 65) = b.toNat := by
        rw [(hletter (b.toNat / 16) (by omega)).1, (hletter (b.toNat % 16) (by omega)).1]
        omega
      rw [List.flatMap_cons, List.cons_append, List.cons_append, List.nil_append, decodeNibbles, ih, hbyte,
        UInt8.ofNat_toNat]
      rfl
  · intro bytes hmem
    simp only [sealing, String.toList_ofList, List.mem_flatMap, List.mem_cons, List.not_mem_nil, or_false] at hmem
    obtain ⟨b, -, hb⟩ := hmem
    have hlt := b.toNat_lt
    rcases hb with hb | hb
    · exact (hletter (b.toNat / 16) (by omega)).2 hb.symm
    · exact (hletter (b.toNat % 16) (by omega)).2 hb.symm

private theorem sealing_gcm : GcmSpecified sealing := by
  constructor
  · intro key iv ciphertext plaintext _
    simp only [sealing, Platform.tagging]
    constructor
    · intro h
      split at h
      · cases h
      · split at h
        · next hzeros =>
          cases h
          rw [← hzeros, List.take_append_drop]
        · cases h
    · intro h
      subst h
      simp
  · intro key iv plaintext
    simp [sealing, Platform.tagging]
  · intro key iv ciphertext e _ hlong h
    simp only [sealing] at h
    rw [if_neg (by omega)] at h
    split at h
    · cases h
    · cases h
      rfl
  · intro key iv ciphertext hshort
    exact ⟨_, if_pos hshort⟩

/-- An Argon2 that derives the same key from everything. -/
def constantArgon2 : Argon2 where
  fill ctx := .ok (List.replicate ctx.outlen.toNat 7)
  length_fill := by
    intro ctx out h
    cases h
    exact List.length_replicate

/-- A text with usable parameters and without a ciphertext. -/
def withoutCiphertext : EncryptedMasterKey where
  algorithm := "argon2i".toList
  argon2MemoryKiB := argon2MemoryKiB
  argon2Times := argon2Times
  argon2Parallelism := argon2Parallelism
  argon2Salt := List.replicate 16 0
  ciphertext := []

example : withoutCiphertext.toString sealing =
    "argon2i_65536_2_2_AAAAAAAAAAAAAAAAAAAAAAAAAAAAAAAA_".toList := by decide +kernel

private theorem not_produced_withoutCiphertext (P : Platform) (hbase64 : Base64Specified P) (A : Argon2) (password : Bytes) :
    ¬ Produced P A password (withoutCiphertext.toString P) := by
  intro hproduced
  obtain ⟨encrypted, rawKey, iv, plaintext, hparse, -, hiv, hciphertext⟩ := hproduced
  have halgorithm : '_' ∉ withoutCiphertext.algorithm := by decide
  rw [EncryptedMasterKey.ofString_toString hbase64 halgorithm] at hparse
  cases hparse
  have hempty : iv = [] := (List.append_eq_nil_iff.mp hciphertext.symm).1
  rw [hempty] at hiv
  cases hiv

theorem encryptedMasterKey_iff_sealing :
    let k : MasterKey := ⟨List.replicate 32 1, some 1, rfl⟩
    let uninit : MasterKey.Uninitialized := ⟨fun _ _ => 0, fun _ => 0, fun _ => 0⟩
    (∃ text, encrypt sealing constantArgon2 uninit [104, 105] (.ofMasterKey uninit k) (List.replicate 16 3)
        (List.replicate 16 4) = .ok text ∧
      decrypt sealing constantArgon2 uninit [104, 105] text = .ok (some (.ofMasterKey uninit k))) ∧
    EncryptedMasterKey.ofString sealing (withoutCiphertext.toString sealing) = .ok withoutCiphertext ∧
    (Rejected (decrypt sealing constantArgon2 uninit [104, 105] (withoutCiphertext.toString sealing)) ↔
      Handled sealing constantArgon2 [104, 105] ((withoutCiphertext.toString sealing).splitOn '_')) := by
  intro k uninit
  obtain ⟨hround, htext, hrejected⟩ := @encryptedMasterKey_iff sealing constantArgon2 uninit sealing_base64 sealing_gcm
  have hfields : ((withoutCiphertext.toString sealing).splitOn '_').length = 6 := by
    rw [EncryptedMasterKey.splitOn_toString sealing_base64 (by decide)]
    rfl
  exact ⟨hround _ _ _ _ (List.replicate 32 7) rfl rfl rfl, htext _ (by decide),
    (hrejected _ _ hfields (not_produced_withoutCiphertext sealing sealing_base64 constantArgon2 _)).2⟩

/-- Without a ciphertext, an assertion fails. -/
theorem not_rejected_withoutCiphertext :
    ¬ ∀ (P : Platform) (A : Argon2) (uninit : MasterKey.Uninitialized), Base64Specified P → GcmSpecified P →
      ∀ password text, (text.splitOn '_').length = 6 → ¬ Produced P A password text →
        Rejected (decrypt P A uninit password text) := by
  intro hclaim
  have hfields := EncryptedMasterKey.splitOn_toString sealing_base64 (show '_' ∉ withoutCiphertext.algorithm by decide)
  have hlength : ((withoutCiphertext.toString sealing).splitOn '_').length = 6 := by
    rw [hfields]
    rfl
  have hnot := not_produced_withoutCiphertext sealing sealing_base64 constantArgon2 []
  have hrejected := hclaim sealing constantArgon2 ⟨fun _ _ => 0, fun _ => 0, fun _ => 0⟩ sealing_base64 sealing_gcm []
    (withoutCiphertext.toString sealing) hlength hnot
  have hhandled := (refuses_of_not_produced sealing_gcm hlength hnot).2.mp hrejected
  rw [hfields] at hhandled
  obtain ⟨-, hmemory⟩ := hhandled _ (leadingNumber_toDigits _)
  obtain ⟨-, htimes⟩ := hmemory _ (leadingNumber_toDigits _)
  obtain ⟨-, saltBytes, -, ciphertextBytes, hciphertext, hlong⟩ := htimes _ (leadingNumber_toDigits _)
  have hempty : ciphertextBytes = [] := by
    have hdecode := sealing_base64.decode_encode []
    rw [String.ofList_toList] at hciphertext
    have := hdecode.symm.trans hciphertext
    cases this
    rfl
  have hbound := (hlong rfl).2
  rw [hempty] at hbound
  simp at hbound

end MasterKeyHelpers

end KulloClient
