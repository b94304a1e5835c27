import KulloClient.Codec.MessageDecryptor
import KulloClient.Sync.ProfileSyncer

/-!
# What decryption accepts

With an ideal cipher a ciphertext is accepted only when it was made under the same key and IV.  The wrapper passes
empty inputs through, so an empty ciphertext is the one that nobody needs the key for: it is the empty text.  The three
formats that are decrypted inherit this.
-/

namespace KulloClient

open Imperative

/-- AES-GCM as an ideal authenticated cipher; `calls` are the calls of `SymmetricCryptor::encrypt` so far, with the
key, the IV and the plaintext.  The empty ones do not get as far as the cipher. -/
structure IdealGcm (P : Platform) (calls : Bytes → Bytes → Bytes → Prop) : Prop where
  authentic : ∀ key iv ciphertext plaintext, P.gcmDecrypt key iv ciphertext = .ok plaintext →
    calls key iv plaintext ∧ plaintext ≠ [] ∧ ciphertext = P.gcmEncrypt key iv plaintext
  decrypts : ∀ key iv plaintext, calls key iv plaintext → plaintext ≠ [] →
    P.gcmEncrypt key iv plaintext ≠ [] ∧ P.gcmDecrypt key iv (P.gcmEncrypt key iv plaintext) = .ok plaintext

section

variable {P : Platform} {calls : Bytes → Bytes → Bytes → Prop}

namespace SymmetricCryptor

private theorem decrypt_cases (h : IdealGcm P calls) {key iv ciphertext plaintext : Bytes}
    (hok : decrypt P ciphertext key iv = .ok plaintext) :
    ciphertext = [] ∧ plaintext = [] ∨
      calls key iv plaintext ∧ plaintext ≠ [] ∧ ciphertext = encrypt P plaintext key iv := by
  unfold decrypt at hok
  split at hok
  · next hempty =>
    cases hok
    exact .inl ⟨List.isEmpty_iff.mp hempty, rfl⟩
  · right
    split at hok
    · next p hp =>
      cases hok
      obtain ⟨hcall, hne, hc⟩ := h.authentic _ _ _ _ hp
      exact ⟨hcall, hne, by rw [encrypt_of_ne_nil hne, hc]⟩
    · cases hok
    · cases hok

private theorem decrypt_of_call (h : IdealGcm P calls) {key iv plaintext : Bytes} (hcall : calls key iv plaintext) :
    decrypt P (encrypt P plaintext key iv) key iv = .ok plaintext := by
  by_cases hne : plaintext = []
  · subst hne
    rfl
  · obtain ⟨hc, hdec⟩ := h.decrypts key iv plaintext hcall hne
    unfold decrypt
    rw [encrypt_of_ne_nil hne, if_neg (by simpa using hc), hdec]

private theorem decryptWithIV_eq_ok {ivAndCiphertext key plaintext : Bytes} {ivLength : Nat}
    (hok : decryptWithIV P ivAndCiphertext key ivLength = .ok plaintext) :
    ∃ iv ciphertext, iv.length = ivLength ∧ ivAndCiphertext = iv ++ ciphertext ∧
      decrypt P ciphertext key iv = .ok plaintext := by
  unfold decryptWithIV at hok
  by_cases hlen : ivLength ≤ ivAndCiphertext.length
  · rw [decide_eq_true hlen] at hok
    refine ⟨ivAndCiphertext.take ivLength, ivAndCiphertext.drop ivLength, ?_, ?_, hok⟩
    · rw [List.length_take]
      exact Nat.min_eq_left hlen
    · rw [List.take_append_drop]
  · rw [decide_eq_false hlen] at hok
    cases hok

private theorem decryptWithIV_cases (h : IdealGcm P calls) {key ivAndCiphertext plaintext : Bytes} {ivLength : Nat}
    (hok : decryptWithIV P ivAndCiphertext key ivLength = .ok plaintext) :
    ivAndCiphertext.length = ivLength ∧ plaintext = [] ∨
      ∃ iv : Bytes, iv.length = ivLength ∧ calls key iv plaintext ∧ plaintext ≠ [] ∧
        ivAndCiphertext = iv ++ encrypt P plaintext key iv := by
  obtain ⟨iv, ciphertext, hiv, rfl, hdec⟩ := decryptWithIV_eq_ok hok
  rcases decrypt_cases h hdec with ⟨rfl, hp⟩ | ⟨hcall, hne, rfl⟩
  · left
    rw [List.append_nil]
    exact ⟨hiv, hp⟩
  · exact .inr ⟨iv, hiv, hcall, hne, rfl⟩

end SymmetricCryptor

/-! ### The formats -/

/-- Content is never empty, so it is always authentic. -/
theorem MessageDecryptor.decryptContent_authentic (h : IdealGcm P calls) {msg : HttpMessage} {keySafe : KeySafe}
    {content : DecryptedContent} (hok : decryptContent P msg keySafe = .ok content) :
    ∃ plaintext, calls keySafe.symmKey SymmetricCryptor.contentIV plaintext ∧
      msg.content = SymmetricCryptor.encrypt P plaintext keySafe.symmKey SymmetricCryptor.contentIV := by
  unfold decryptContent at hok
  cases hdec : SymmetricCryptor.decrypt P msg.content keySafe.symmKey SymmetricCryptor.contentIV with
  | error e =>
    rw [hdec] at hok
    cases hok
  | ok plaintext =>
    rw [hdec] at hok
    rcases SymmetricCryptor.decrypt_cases h hdec with ⟨_, rfl⟩ | ⟨hcall, _, hc⟩
    · -- the decrypted text is too short
      exact nomatch hok
    · exact ⟨plaintext, hcall, hc⟩

/-- A meta text that says anything is authentic. -/
theorem MessageDecryptor.decryptMeta_authentic (h : IdealGcm P calls) {msg : HttpMessage} {privateDataKey : Bytes}
    {version : MetaVersion} {text : Bytes} (hok : decryptMeta P msg privateDataKey = .ok (version, text))
    (htext : text ≠ []) :
    ∃ iv, calls privateDataKey iv text ∧
      (version = 0 ∧ iv = toBytes "meta" ∧
          msg.metaData.drop 4 = SymmetricCryptor.encrypt P text privateDataKey iv ∨
        version = 1 ∧ iv.length = SymmetricCryptor.randomIVBytes ∧
          msg.metaData.drop 4 = iv ++ SymmetricCryptor.encrypt P text privateDataKey iv) := by
  unfold decryptMeta at hok
  split at hok
  · cases hok
    exact absurd rfl htext
  dsimp only at hok
  split at hok
  · cases hdec : SymmetricCryptor.decrypt P (msg.metaData.drop 4) privateDataKey (toBytes "meta") with
    | error e =>
      rw [hdec] at hok
      cases hok
    | ok plaintext =>
      rw [hdec] at hok
      cases hok
      rcases SymmetricCryptor.decrypt_cases h hdec with ⟨_, rfl⟩ | ⟨hcall, _, hc⟩
      · exact absurd rfl htext
      · exact ⟨_, hcall, .inl ⟨rfl, rfl, hc⟩⟩
  · cases hdec : SymmetricCryptor.decryptWithIV P (msg.metaData.drop 4) privateDataKey
        SymmetricCryptor.randomIVBytes with
    | error e =>
      rw [hdec] at hok
      cases hok
    | ok plaintext =>
      rw [hdec] at hok
      cases hok
      rcases SymmetricCryptor.decryptWithIV_cases h hdec with ⟨_, rfl⟩ | ⟨iv, hiv, hcall, _, hc⟩
      · exact absurd rfl htext
      · exact ⟨iv, hcall, .inr ⟨rfl, hiv, hc⟩⟩
  · cases hok
    exact absurd rfl htext

/-- A profile value that is not empty is authentic. -/
theorem ProfileSyncer.decrypt_sealed (h : IdealGcm P calls) {privateDataKey : Bytes} {ciphertext : String}
    {plaintext : Bytes} (hok : ProfileSyncer.decrypt P privateDataKey ciphertext = .ok plaintext)
    (hne : plaintext ≠ []) :
    ∃ iv : Bytes, iv.length = SymmetricCryptor.randomIVBytes ∧ calls privateDataKey iv plaintext ∧
      P.base64Decode ciphertext = .ok (iv ++ SymmetricCryptor.encrypt P plaintext privateDataKey iv) := by
  unfold ProfileSyncer.decrypt Platform.ofBotan at hok
  split at hok
  · next ivAndCiphertext hb =>
    rcases SymmetricCryptor.decryptWithIV_cases h hok with ⟨_, rfl⟩ | ⟨iv, hiv, hcall, _, rfl⟩
    · exact absurd rfl hne
    · exact ⟨iv, hiv, hcall, hb⟩
  · cases hok
  · cases hok

end

/-- Both overloads accept what was encrypted under the same key, and otherwise only the empty ciphertext; they undo
every encryption.  Content, meta texts and profile values that are not empty were encrypted under their key. -/
theorem SymmetricCryptor.decrypt_authentic {P : Platform} {calls : Bytes → Bytes → Bytes → Prop} (h : IdealGcm P calls) :
    (∀ key iv ciphertext plaintext, decrypt P ciphertext key iv = .ok plaintext →
      ciphertext = [] ∧ plaintext = [] ∨
        calls key iv plaintext ∧ plaintext ≠ [] ∧ ciphertext = encrypt P plaintext key iv) ∧
    (∀ key ivAndCiphertext ivLength plaintext, decryptWithIV P ivAndCiphertext key ivLength = .ok plaintext →
      ivAndCiphertext.length = ivLength ∧ plaintext = [] ∨
        ∃ iv : Bytes, iv.length = ivLength ∧ calls key iv plaintext ∧ plaintext ≠ [] ∧
          ivAndCiphertext = iv ++ encrypt P plaintext key iv) ∧
    (∀ key iv plaintext, plaintext = [] ∨ calls key iv plaintext →
      decrypt P (encrypt P plaintext key iv) key iv = .ok plaintext ∧
        decryptWithIV P (iv ++ encrypt P plaintext key iv) key iv.length = .ok plaintext) ∧
    (∀ msg keySafe content, MessageDecryptor.decryptContent P msg keySafe = .ok content →
      ∃ plaintext, calls keySafe.symmKey contentIV plaintext ∧
        msg.content = encrypt P plaintext keySafe.symmKey contentIV) ∧
    (∀ msg privateDataKey version text, MessageDecryptor.decryptMeta P msg privateDataKey = .ok (version, text) →
      text ≠ [] → ∃ iv, calls privateDataKey iv text) ∧
    ∀ privateDataKey ciphertext plaintext, ProfileSyncer.decrypt P privateDataKey ciphertext = .ok plaintext →
      plaintext ≠ [] → ∃ iv, calls privateDataKey iv plaintext := by
  refine ⟨?_, ?_, ?_, ?_, ?_, ?_⟩
  · intro key iv ciphertext plaintext hok
    exact decrypt_cases h hok
  · intro key ivAndCiphertext ivLength plaintext hok
    exact decryptWithIV_cases h hok
  · intro key iv plaintext hcall
    have hdec : decrypt P (encrypt P plaintext key iv) key iv = .ok plaintext := by
      rcases hcall with rfl | hcall
      · rfl
      · exact decrypt_of_call h hcall
    exact ⟨hdec, by rw [decryptWithIV_append _ rfl, hdec]⟩
  · intro msg keySafe content hok
    exact MessageDecryptor.decryptContent_authentic h hok
  · intro msg privateDataKey version text hok htext
    obtain ⟨iv, hcall, _⟩ := MessageDecryptor.decryptMeta_authentic h hok htext
    exact ⟨iv, hcall⟩
  · intro privateDataKey ciphertext plaintext hok hne
    obtain ⟨iv, _, hcall, _⟩ := ProfileSyncer.decrypt_sealed h hok hne
    exact ⟨iv, hcall⟩

/-- A platform on which one text was encrypted. -/
def Platform.sealedOnce : Platform :=
  { Platform.tagging with
    gcmDecrypt := fun key iv ciphertext =>
      if key = [7] ∧ iv = List.replicate 16 0 ∧ ciphertext = [1] ++ List.replicate 16 0 then .ok [1]
      else .error .integrityFailure }

/-- The one call. -/
def sealedCalls (key iv plaintext : Bytes) : Prop := key = [7] ∧ iv = List.replicate 16 0 ∧ plaintext = [1]

private theorem idealGcm_sealedOnce : IdealGcm Platform.sealedOnce sealedCalls := by
  constructor
  · intro key iv ciphertext plaintext hok
    simp only [Platform.sealedOnce] at hok
    split at hok
    · next hc =>
      cases hok
      obtain ⟨rfl, rfl, rfl⟩ := hc
      exact ⟨⟨rfl, rfl, rfl⟩, by simp, rfl⟩
    · cases hok
  · rintro key iv plaintext ⟨rfl, rfl, rfl⟩ _
    exact ⟨by decide, by decide⟩

/-- What is accepted under the key was encrypted. -/
theorem SymmetricCryptor.decrypt_authentic_sealedOnce :
    ∃ iv : Bytes, iv.length = randomIVBytes ∧ sealedCalls [7] iv [1] := by
  rcases (decrypt_authentic idealGcm_sealedOnce).2.1 [7] (List.replicate 16 0 ++ ([1] ++ List.replicate 16 0))
    randomIVBytes [1] (by decide) with ⟨_, h⟩ | ⟨iv, hiv, hcall, _⟩
  · cases h
  · exact ⟨iv, hiv, hcall⟩

/-- Sixteen bytes that nobody encrypted are accepted as an empty profile value, under any key. -/
theorem SymmetricCryptor.decrypt_empty_not_authentic :
    IdealGcm Platform.sealedOnce sealedCalls ∧
    ¬ ∀ ivAndCiphertext plaintext : Bytes,
      decryptWithIV Platform.sealedOnce ivAndCiphertext [9] randomIVBytes = .ok plaintext →
        ∃ iv : Bytes, iv.length = randomIVBytes ∧ sealedCalls [9] iv plaintext ∧
          ivAndCiphertext = iv ++ encrypt Platform.sealedOnce plaintext [9] iv := by
  refine ⟨idealGcm_sealedOnce, ?_⟩
  intro h
  obtain ⟨iv, _, ⟨hkey, _⟩, _⟩ := h (List.replicate 16 5) [] (by decide)
  exact absurd hkey (by decide)

end KulloClient
