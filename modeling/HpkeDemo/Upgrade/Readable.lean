import HpkeDemo.Clamped
import HpkeDemo.Upgrade.Wallet

/-! Crates behind `v2` that hide nothing: the shared secret is the recipient's key and the
KEM ciphertext, the AEAD lists its key and nonce before the plaintext, and its ciphertexts
end in a mark. -/
namespace HpkeDemo.Upgrade.Readable
open V2 (ENCAPSULATION_KEY_SIZE CIPHERTEXT_SIZE)

/-- The byte every ciphertext ends in. -/
def mark : UInt8 := 1

def crates : V2.Crates where
  EncapsulationKey := {b : Bytes // b.length = ENCAPSULATION_KEY_SIZE}
  DecapsulationKey := {b : Bytes // b.length = ENCAPSULATION_KEY_SIZE}
  Randomness := {b : Bytes // b.length = CIPHERTEXT_SIZE}
  Prk := Bytes × Bytes
  encapsulationKey dk := dk
  toBytes ek := ek
  new b := .ok b
  encapsulate ek rng := (rng, ek.1 ++ rng.1)
  decapsulate dk ct := dk.1 ++ ct.1
  extract salt ikm := (salt, ikm)
  expand prk info length :=
    if length ≤ 255 * 32 then
      .ok ((info ++ prk.1 ++ prk.2 ++ List.replicate length 0).take length)
    else .error "InvalidLength"
  encrypt key nonce plaintext := .ok (chunks [key, nonce] ++ plaintext ++ [mark])
  decrypt key nonce ciphertext :=
    if ciphertext.getLast? = some mark then
      Transparent.hpke.ctxOpen [key] ciphertext.dropLast nonce
    else .error "aead::Error"

theorem decrypt_eq_ok_iff {key nonce ct m : Bytes} :
    crates.decrypt key nonce ct = .ok m ↔ crates.encrypt key nonce m = .ok ct := by
  simp only [crates, Except.ok.injEq]
  exact Clamped.opens_marked_iff mark

theorem encrypt_marked {key nonce m ct : Bytes} (h : crates.encrypt key nonce m = .ok ct) :
    ct.getLast? = some mark := by
  rw [← Except.ok.inj h]
  exact List.getLast?_concat

theorem correct : crates.Correct where
  toBytes_length ek := ek.2
  new_toBytes _ _ := rfl
  decapsulates _ _ := rfl
  expands := by
    intro prk info n hn
    refine ⟨_, if_pos hn, ?_⟩
    rw [List.length_take, List.length_append, List.length_replicate]
    omega
  encrypts _ _ _ := ⟨_, rfl⟩
  decrypts := decrypt_eq_ok_iff.mpr

theorem authentic : crates.Authentic := decrypt_eq_ok_iff.mp

def scalar (b : UInt8) (h : b ≠ 0) : Clamped.Scalar where
  val := Transparent.key b
  property := fun hkey => h (List.head_eq_of_cons_eq (congrArg Subtype.val hkey))

def wallet : Wallet Clamped.hpke crates where
  v1 := (scalar 1 (by decide), Transparent.key 1)
  v2 := (⟨List.replicate 1216 3, List.length_replicate⟩,
    ⟨List.replicate 1216 3, List.length_replicate⟩)
  v1_keys := rfl
  v2_keys := rfl

def client : Clamped.hpke.PrivateKey × Clamped.hpke.PublicKey :=
  (scalar 2 (by decide), Transparent.key 2)

def randomness : crates.Randomness := ⟨List.replicate 1120 5, List.length_replicate⟩

end HpkeDemo.Upgrade.Readable
