import Urheilulaatikko.Server.Error

/-!
# Encryption of secrets at rest

`crypto.rs` of the server. AES-256-GCM with the configured key is a parameter, the nonce that
`encrypt` draws an argument.
-/

namespace Urheilulaatikko.Server

/-- A 96-bit nonce. -/
abbrev Nonce := Vector UInt8 12

/-- `Aes256Gcm` under a fixed key. Its errors carry nothing. -/
structure Cipher where
  encrypt : Nonce → List UInt8 → Option (List UInt8)
  decrypt : Nonce → List UInt8 → Option (List UInt8)

/-- Decryption with the same nonce inverts encryption. -/
def Cipher.Inverts (cipher : Cipher) : Prop :=
  ∀ nonce plaintext ciphertext, cipher.encrypt nonce plaintext = some ciphertext →
    cipher.decrypt nonce ciphertext = some plaintext

namespace Crypto

variable (cipher : Cipher)

/-- `encrypt`, with the nonce it draws: ciphertext and nonce. -/
def encrypt (nonce : Nonce) (plaintext : List UInt8) :
    Except AppError (List UInt8 × List UInt8) :=
  match cipher.encrypt nonce plaintext with
  | none            => .error (.internal "failed to encrypt secret")
  | some ciphertext => .ok (ciphertext, nonce.toList)

def decrypt (ciphertext nonce : List UInt8) : Except AppError (List UInt8) :=
  let len := nonce.length
  if h : nonce.toArray.size = 12 then
    match cipher.decrypt ⟨nonce.toArray, h⟩ ciphertext with
    | none           => .error (.internal "failed to decrypt stored secret")
    | some plaintext => .ok plaintext
  else .error (.internal s!"stored nonce has the wrong length: {len}")

/-- What `encrypt` returns, `decrypt` opens. -/
theorem decrypt_of_encrypt {cipher : Cipher} (hcipher : cipher.Inverts) {nonce : Nonce}
    {plaintext ciphertext stored : List UInt8}
    (h : encrypt cipher nonce plaintext = .ok (ciphertext, stored)) :
    decrypt cipher ciphertext stored = .ok plaintext := by
  unfold encrypt at h
  split at h
  · cases h
  · next ct hct =>
      cases h
      have hopen := hcipher nonce plaintext ciphertext hct
      have hsize : nonce.toList.toArray.size = 12 := by simp
      have hnonce : (⟨nonce.toList.toArray, hsize⟩ : Nonce) = nonce := by
        apply Vector.toArray_inj.mp
        exact Array.toArray_toList
      rw [decrypt, dif_pos hsize, hnonce, hopen]

theorem error_of_encrypt {cipher : Cipher} {nonce : Nonce} {plaintext : List UInt8} {e : AppError}
    (h : encrypt cipher nonce plaintext = .error e) : ∃ source, e = .internal source := by
  unfold encrypt at h
  split at h
  · cases h
    exact ⟨_, rfl⟩
  · cases h

/-- Whatever goes wrong with a stored secret is an internal error. -/
theorem error_of_decrypt {cipher : Cipher} {ciphertext nonce : List UInt8} {e : AppError}
    (h : decrypt cipher ciphertext nonce = .error e) : ∃ source, e = .internal source := by
  unfold decrypt at h
  split at h
  · split at h
    · cases h
      exact ⟨_, rfl⟩
    · cases h
  · cases h
    exact ⟨_, rfl⟩

end Crypto

end Urheilulaatikko.Server
