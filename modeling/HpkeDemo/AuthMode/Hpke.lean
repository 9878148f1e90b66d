import HpkeDemo.Transparent

/-! `hpke_auth` of `secp256k1_authmode.rs`: HPKE in Auth mode over the `hpke_secp` fork, whose
KEM keys are the identities. Both directions use it. -/
namespace HpkeDemo.AuthMode

/-- The fork as the variant uses it: Auth mode, one-shot contexts, and the OS randomness as
an argument. -/
structure HpkeSecp where
  PrivateKey : Type
  PublicKey : Type
  EncappedKey : Type
  SenderContext : Type
  ReceiverContext : Type
  Randomness : Type
  skToPk : PrivateKey → PublicKey
  toBytes : PublicKey → Bytes
  fromBytes : Bytes → Except String PublicKey
  setupSender : (sender : PrivateKey × PublicKey) → PublicKey → Bytes → Randomness →
    Except String (EncappedKey × SenderContext)
  setupReceiver : (senderPk : PublicKey) → PrivateKey → EncappedKey → Bytes →
    Except String ReceiverContext
  ctxSeal : SenderContext → (plaintext aad : Bytes) → Except String Bytes
  ctxOpen : ReceiverContext → (ciphertext aad : Bytes) → Except String Bytes

/-- A public key reads back from its own bytes, a sender is never refused, and opening with
the recipient's key and the sender's undoes sealing. -/
structure HpkeSecp.Correct (H : HpkeSecp) : Prop where
  from_to : ∀ pk, H.fromBytes (H.toBytes pk) = .ok pk
  sets_up : ∀ sender pkR info rng, ∃ out, H.setupSender sender pkR info rng = .ok out
  seals : ∀ {sender pkR info rng enc ctx}, H.setupSender sender pkR info rng = .ok (enc, ctx) →
    ∀ m, ∃ ct, H.ctxSeal ctx m [] = .ok ct
  opens_sealed : ∀ {skS skR info rng enc ctxS m ct},
    H.setupSender (skS, H.skToPk skS) (H.skToPk skR) info rng = .ok (enc, ctxS) →
    H.ctxSeal ctxS m [] = .ok ct →
    ∃ ctx, H.setupReceiver (H.skToPk skS) skR enc info = .ok ctx ∧ H.ctxOpen ctx ct [] = .ok m

/-- Ideal Auth mode: what opens was sealed to the recipient with the sender's key and the
same info, and one sealed message binds both keys, the info and the plaintext. -/
structure HpkeSecp.Ideal (H : HpkeSecp) : Prop where
  opened_was_sealed : ∀ {skR pkS enc info ctx m ct},
    H.setupReceiver pkS skR enc info = .ok ctx → H.ctxOpen ctx ct [] = .ok m →
    ∃ skS rng ctxS, H.skToPk skS = pkS ∧
      H.setupSender (skS, pkS) (H.skToPk skR) info rng = .ok (enc, ctxS) ∧
      H.ctxSeal ctxS m [] = .ok ct
  sealed_binds : ∀ {s s' pkR pkR' info info' rng rng' enc ctx ctx' m m' ct},
    H.setupSender s pkR info rng = .ok (enc, ctx) →
    H.setupSender s' pkR' info' rng' = .ok (enc, ctx') →
    H.ctxSeal ctx m [] = .ok ct → H.ctxSeal ctx' m' [] = .ok ct →
    s.2 = s'.2 ∧ pkR = pkR' ∧ info = info' ∧ m = m'

def INFO_REQUEST : Bytes := Bytes.ofString "hpke-demo secp256k1-authmode request"
def INFO_RESPONSE : Bytes := Bytes.ofString "hpke-demo secp256k1-authmode response"

theorem info_ne : INFO_REQUEST ≠ INFO_RESPONSE := by decide +kernel

variable (H : HpkeSecp)

def pkBytes (pk : H.PublicKey) : Bytes := H.toBytes pk

def pkFromBytes (bytes : Bytes) : Except String H.PublicKey :=
  (H.fromBytes bytes).mapError ("bad pubkey: " ++ ·)

/-- `hpke_auth::seal`; `rng` is what the OS random generator yields. -/
def sealAuth (rng : H.Randomness) (sender : H.PrivateKey × H.PublicKey)
    (recipientPk : H.PublicKey) (info plaintext : Bytes) :
    Except Panic (H.EncappedKey × Bytes) := do
  let (enc, ctx) ← expect "sender setup" (H.setupSender sender recipientPk info rng)
  let ciphertext ← expect "seal" (H.ctxSeal ctx plaintext [])
  return (enc, ciphertext)

/-- `hpke_auth::open`. -/
def openAuth (recipientSk : H.PrivateKey) (senderPk : H.PublicKey) (info : Bytes)
    (enc : H.EncappedKey) (ciphertext : Bytes) : Except String Bytes := do
  let ctx ← (H.setupReceiver senderPk recipientSk enc info).mapError ("receiver setup: " ++ ·)
  (H.ctxOpen ctx ciphertext []).mapError ("decrypt: " ++ ·)

variable {H} {rng rng' : H.Randomness} {sender sender' : H.PrivateKey × H.PublicKey}
  {skS skR : H.PrivateKey} {pkS pkR pkR' : H.PublicKey} {enc : H.EncappedKey}
  {info info' m m' ct : Bytes}

theorem sealAuth_eq_ok_iff : sealAuth H rng sender pkR info m = .ok (enc, ct) ↔
    ∃ ctx, H.setupSender sender pkR info rng = .ok (enc, ctx) ∧ H.ctxSeal ctx m [] = .ok ct := by
  simp only [sealAuth, bind_eq_ok_iff, expect_eq_ok_iff]
  constructor
  · rintro ⟨⟨enc', ctx⟩, hs, ct', hc, h⟩
    obtain ⟨rfl, rfl⟩ := Prod.mk.inj (Except.ok.inj h)
    exact ⟨ctx, hs, hc⟩
  · rintro ⟨ctx, hs, hc⟩
    exact ⟨(enc, ctx), hs, ct, hc, rfl⟩

theorem exists_sealAuth (correct : H.Correct) (rng : H.Randomness)
    (sender : H.PrivateKey × H.PublicKey) (pkR : H.PublicKey) (info m : Bytes) :
    ∃ enc ct, sealAuth H rng sender pkR info m = .ok (enc, ct) := by
  obtain ⟨⟨enc, ctx⟩, hsetup⟩ := correct.sets_up sender pkR info rng
  obtain ⟨ct, hct⟩ := correct.seals hsetup m
  exact ⟨enc, ct, sealAuth_eq_ok_iff.mpr ⟨ctx, hsetup, hct⟩⟩

/-- A message opens exactly if a holder of the sender's key sealed it to the recipient. -/
theorem openAuth_eq_ok_iff (correct : H.Correct) (ideal : H.Ideal) :
    openAuth H skR pkS info enc ct = .ok m ↔ ∃ skS rng, H.skToPk skS = pkS ∧
      sealAuth H rng (skS, pkS) (H.skToPk skR) info m = .ok (enc, ct) := by
  simp only [openAuth, bind_eq_ok_iff, mapError_eq_ok_iff, sealAuth_eq_ok_iff]
  constructor
  · rintro ⟨ctx, hctx, hm⟩
    obtain ⟨skS, rng, ctxS, hsk, hsetup, hseal⟩ := ideal.opened_was_sealed hctx hm
    exact ⟨skS, rng, hsk, ctxS, hsetup, hseal⟩
  · rintro ⟨skS, rng, rfl, ctxS, hsetup, hseal⟩
    exact correct.opens_sealed hsetup hseal

/-- One message has one sender key, recipient, info and plaintext. -/
theorem sealAuth_binds (ideal : H.Ideal)
    (h : sealAuth H rng sender pkR info m = .ok (enc, ct))
    (h' : sealAuth H rng' sender' pkR' info' m' = .ok (enc, ct)) :
    sender.2 = sender'.2 ∧ pkR = pkR' ∧ info = info' ∧ m = m' := by
  obtain ⟨ctx, hsetup, hseal⟩ := sealAuth_eq_ok_iff.mp h
  obtain ⟨ctx', hsetup', hseal'⟩ := sealAuth_eq_ok_iff.mp h'
  exact ideal.sealed_binds hsetup hsetup' hseal hseal'

/-- What a sealed message opens to is what was sealed, for its recipient, under the key of
its sender and its info. -/
theorem openAuth_sealed (correct : H.Correct) (ideal : H.Ideal)
    (hseal : sealAuth H rng sender pkR info m = .ok (enc, ct))
    (hopen : openAuth H skR pkS info' enc ct = .ok m') :
    sender.2 = pkS ∧ pkR = H.skToPk skR ∧ info = info' ∧ m = m' := by
  obtain ⟨skS, rng', _, hseal'⟩ := (openAuth_eq_ok_iff correct ideal).mp hopen
  exact sealAuth_binds ideal hseal hseal'

/-- A fork that hides nothing: a private key is its own public key, and a ciphertext lists
what it was sealed with before the plaintext. -/
def plainSecp : HpkeSecp where
  PrivateKey := Transparent.Key
  PublicKey := Transparent.Key
  EncappedKey := Transparent.Key
  SenderContext := List Bytes
  ReceiverContext := List Bytes
  Randomness := Transparent.Key
  skToPk sk := sk
  toBytes pk := pk
  fromBytes := Transparent.keyFromBytes
  setupSender sender pkR info rng := .ok (rng, [sender.2.1, pkR.1, info, rng.1])
  setupReceiver pkS skR enc info := .ok [pkS.1, skR.1, info, enc.1]
  ctxSeal := Transparent.hpke.ctxSeal
  ctxOpen := Transparent.hpke.ctxOpen

namespace PlainSecp

theorem setupSender_eq_ok_iff {s : Transparent.Key × Transparent.Key}
    {pkR rng enc : Transparent.Key} {info : Bytes} {ctx : List Bytes} :
    plainSecp.setupSender s pkR info rng = .ok (enc, ctx) ↔
      rng = enc ∧ [s.2.1, pkR.1, info, rng.1] = ctx := by
  simp [plainSecp]

theorem correct : plainSecp.Correct where
  from_to _ := Transparent.keyFromBytes_eq_ok_iff.mpr rfl
  sets_up _ _ _ _ := ⟨_, rfl⟩
  seals _ _ := ⟨_, rfl⟩
  opens_sealed := by
    intro skS skR info rng enc ctxS m ct hsetup hseal
    obtain ⟨rfl, rfl⟩ := setupSender_eq_ok_iff.mp hsetup
    exact ⟨_, rfl, Transparent.ctxOpen_eq_ok_iff.mpr hseal⟩

theorem ideal : plainSecp.Ideal where
  opened_was_sealed := by
    intro skR pkS enc info ctx m ct hsetup hopen
    obtain rfl := Except.ok.inj hsetup
    exact ⟨pkS, enc, _, rfl, setupSender_eq_ok_iff.mpr ⟨rfl, rfl⟩,
      Transparent.ctxOpen_eq_ok_iff.mp hopen⟩
  sealed_binds := by
    intro s s' pkR pkR' info info' rng rng' enc ctx ctx' m m' ct hs hs' hm hm'
    obtain ⟨rfl, rfl⟩ := setupSender_eq_ok_iff.mp hs
    obtain ⟨rfl, rfl⟩ := setupSender_eq_ok_iff.mp hs'
    obtain ⟨hctx, rfl⟩ := chunks_append_inj (by simp) (Except.ok.inj (hm.trans hm'.symm))
    simp only [List.cons_append, List.nil_append, List.cons.injEq, and_true] at hctx
    obtain ⟨hpk, hpkR, hinfo⟩ := hctx
    exact ⟨Subtype.ext hpk, Subtype.ext hpkR, hinfo, rfl⟩

end PlainSecp
end HpkeDemo.AuthMode
