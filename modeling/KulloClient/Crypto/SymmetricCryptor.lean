import KulloClient.Codec.MessageEncoder

/-!
# SymmetricCryptor

What is decrypted of an encrypted text.  The cipher is a parameter; `GcmRoundTrips` is what is relied on of it.
-/

namespace KulloClient

open Imperative

/-- Under a key and an IV, AES-GCM undoes itself and adds a tag of 16 bytes. -/
structure GcmRoundTrips (P : Platform) (key iv : Bytes) : Prop where
  decrypt_encrypt : ∀ plaintext, plaintext ≠ [] → P.gcmDecrypt key iv (P.gcmEncrypt key iv plaintext) = .ok plaintext
  length_encrypt : ∀ plaintext, plaintext ≠ [] → (P.gcmEncrypt key iv plaintext).length = plaintext.length + 16

namespace SymmetricCryptor

variable {P : Platform} {key iv : Bytes}

private theorem encrypt_nil : encrypt P [] key iv = [] := rfl

theorem encrypt_of_ne_nil {plaintext : Bytes} (h : plaintext ≠ []) :
    encrypt P plaintext key iv = P.gcmEncrypt key iv plaintext := by
  simp [encrypt, h]

theorem length_encrypt (hgcm : GcmRoundTrips P key iv) (plaintext : Bytes) :
    (encrypt P plaintext key iv).length = if plaintext = [] then 0 else plaintext.length + 16 := by
  by_cases h : plaintext = []
  · simp [h, encrypt_nil]
  · rw [encrypt_of_ne_nil h, hgcm.length_encrypt plaintext h, if_neg h]

/-- `decrypt` undoes `encrypt`; the empty text has an empty ciphertext. -/
theorem decrypt_encrypt (hgcm : GcmRoundTrips P key iv) (plaintext : Bytes) :
    decrypt P (encrypt P plaintext key iv) key iv = .ok plaintext := by
  by_cases h : plaintext = []
  · subst h
    rfl
  · have hlen : (P.gcmEncrypt key iv plaintext).length = plaintext.length + 16 := hgcm.length_encrypt plaintext h
    have hne : (P.gcmEncrypt key iv plaintext).isEmpty = false := by
      cases hc : P.gcmEncrypt key iv plaintext with
      | nil => rw [hc] at hlen; simp at hlen
      | cons => rfl
    unfold decrypt
    rw [encrypt_of_ne_nil h, hne, hgcm.decrypt_encrypt plaintext h]
    rfl

/-- A text that is long enough is split into the IV and the ciphertext. -/
theorem decryptWithIV_append (ciphertext : Bytes) {ivLength : Nat} (h : iv.length = ivLength) :
    decryptWithIV P (iv ++ ciphertext) key ivLength = decrypt P ciphertext key iv := by
  subst h
  have hlen : decide (iv.length ≤ (iv ++ ciphertext).length) = true := by simp
  unfold decryptWithIV
  rw [hlen, List.drop_left, List.take_left]
  rfl

/-- The overload that splits off the IV undoes an encryption with the IV in front. -/
theorem decryptWithIV_encrypt (hgcm : GcmRoundTrips P key iv) {ivLength : Nat} (h : iv.length = ivLength)
    (plaintext : Bytes) : decryptWithIV P (iv ++ encrypt P plaintext key iv) key ivLength = .ok plaintext := by
  rw [decryptWithIV_append _ h, decrypt_encrypt hgcm]

end SymmetricCryptor

/-! ### A platform whose texts can be read -/

namespace Platform

/-- Base64 is a character for each byte, and encrypting appends a tag of 16 bytes. -/
def tagging : Platform :=
  { transparent with
    base64Encode := fun bytes => String.ofList (bytes.map fun b => Char.ofNat b.toNat)
    base64Decode := fun text => .ok (text.toList.map fun c => UInt8.ofNat c.toNat)
    gcmEncrypt := fun _ _ plaintext => plaintext ++ List.replicate 16 0
    gcmDecrypt := fun _ _ ciphertext =>
      if ciphertext.drop (ciphertext.length - 16) = List.replicate 16 0 then .ok (ciphertext.take (ciphertext.length - 16))
      else .error .integrityFailure }

theorem tagging_base64 (bytes : Bytes) : tagging.base64Decode (tagging.base64Encode bytes) = .ok bytes := by
  have hbyte : ∀ b : UInt8, UInt8.ofNat (Char.ofNat b.toNat).toNat = b := by
    intro b
    have hlt := b.toNat_lt
    have hvalid : Nat.isValidChar b.toNat := Or.inl (by omega)
    have hchar : (Char.ofNat b.toNat).toNat = b.toNat := by
      unfold Char.ofNat
      rw [dif_pos hvalid]
      rfl
    rw [hchar, UInt8.ofNat_toNat]
  simp only [tagging, String.toList_ofList, List.map_map]
  congr 1
  have hid : (fun c : Char => UInt8.ofNat c.toNat) ∘ (fun b : UInt8 => Char.ofNat b.toNat) = id := funext hbyte
  rw [hid, List.map_id]

theorem tagging_gcm (key iv : Bytes) : GcmRoundTrips tagging key iv := by
  constructor
  · intro plaintext _
    simp [tagging]
  · intro plaintext _
    simp [tagging]

end Platform

end KulloClient
