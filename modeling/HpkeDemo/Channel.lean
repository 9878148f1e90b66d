import HpkeDemo.Hpke

/-! The sealing layer of `src/channel.rs`, over any `hpke` crate. -/
namespace HpkeDemo.Channel

def KEM_PUBLIC_KEY_LEN : Nat := 32

def PSK_ID : Bytes := Bytes.ofString "bwc-connection"

variable (H : Hpke)

def kemPkFromBytes (bytes : Bytes) : Except String H.PublicKey :=
  (H.pkFromBytes bytes).mapError ("malformed KEM public key: " ++ ·)

/-- A public key reads back from its own bytes. -/
theorem kemPkFromBytes_pkToBytes {H : Hpke} (encodings : H.Encodings) (pk : H.PublicKey) :
    kemPkFromBytes H (H.pkToBytes pk) = .ok pk := by
  rw [kemPkFromBytes, encodings.pk_from_to]
  rfl

/-- `channel::seal`; `rng` is what the OS random generator yields. -/
def sealWire (rng : H.Randomness) (sender : H.PrivateKey × H.PublicKey) (recipientPk : H.PublicKey)
    (psk info plaintext : Bytes) : Except Panic Bytes := do
  let bundle ← expect "non-empty psk + psk_id" (H.pskBundle psk PSK_ID)
  let mode := .authPsk sender bundle
  let (enc, ctx) ← expect "sender setup" (H.setupSender mode recipientPk info rng)
  let ciphertext ← expect "seal" (H.ctxSeal ctx plaintext [])
  return H.encToBytes enc ++ ciphertext

/-- `channel::open`. -/
def openWire (recipientSk : H.PrivateKey) (senderPk : H.PublicKey) (psk info wire : Bytes) :
    Except String Bytes := do
  if wire.length < KEM_PUBLIC_KEY_LEN then
    throw "message too short"
  let (encBytes, ciphertext) := wire.splitAt KEM_PUBLIC_KEY_LEN
  let enc ← (H.encFromBytes encBytes).mapError ("malformed enc: " ++ ·)
  let bundle ← (H.pskBundle psk PSK_ID).mapError ("psk bundle: " ++ ·)
  let mode := .authPsk senderPk bundle
  let ctx ← (H.setupReceiver mode recipientSk enc info).mapError ("receiver setup: " ++ ·)
  (H.ctxOpen ctx ciphertext []).mapError fun _ => "authentication/decryption failed"

variable {H} {rng rng' : H.Randomness} {sender sender' : H.PrivateKey × H.PublicKey}
  {skR : H.PrivateKey} {pkS pkR pkR' : H.PublicKey} {psk psk' info info' m m' wire : Bytes}

theorem sealWire_eq_ok_iff : sealWire H rng sender pkR psk info m = .ok wire ↔
    ∃ bundle enc ctx ct, H.pskBundle psk PSK_ID = .ok bundle ∧
      H.setupSender (.authPsk sender bundle) pkR info rng = .ok (enc, ctx) ∧
      H.ctxSeal ctx m [] = .ok ct ∧ H.encToBytes enc ++ ct = wire := by
  simp only [sealWire, bind_eq_ok_iff, expect_eq_ok_iff]
  constructor
  · rintro ⟨bundle, hb, ⟨enc, ctx⟩, hs, ct, hc, hw⟩
    exact ⟨bundle, enc, ctx, ct, hb, hs, hc, Except.ok.inj hw⟩
  · rintro ⟨bundle, enc, ctx, ct, hb, hs, hc, hw⟩
    exact ⟨bundle, hb, (enc, ctx), hs, ct, hc, congrArg _ hw⟩

/-- Exactly what sealing takes for granted. -/
theorem exists_sealWire_iff {LowOrder : H.PublicKey → Prop} (pskRule : H.PskRule)
    (encapsulates : H.Encapsulates LowOrder) :
    (∃ wire, sealWire H rng sender pkR psk info m = .ok wire) ↔ psk ≠ [] ∧ ¬ LowOrder pkR := by
  have hid : PSK_ID ≠ [] := by decide
  simp only [sealWire_eq_ok_iff]
  constructor
  · rintro ⟨wire, bundle, enc, ctx, ct, hb, hsetup, _, _⟩
    refine ⟨fun hpsk => hid ((pskRule _ _).mp ⟨bundle, hb⟩ |>.mp hpsk), ?_⟩
    exact encapsulates.setup_ok_iff.mp ⟨_, hsetup⟩
  · rintro ⟨hpsk, hlow⟩
    obtain ⟨bundle, hb⟩ := (pskRule psk PSK_ID).mpr (iff_of_false hpsk hid)
    obtain ⟨⟨enc, ctx⟩, hsetup⟩ := encapsulates.setup_ok_iff.mpr hlow
    obtain ⟨ct, hct⟩ := encapsulates.seals hsetup m
    exact ⟨_, bundle, enc, ctx, ct, hb, hsetup, hct, rfl⟩

theorem openWire_eq_ok_iff : openWire H skR pkS psk info wire = .ok m ↔
    KEM_PUBLIC_KEY_LEN ≤ wire.length ∧
    ∃ enc bundle ctx, H.encFromBytes (wire.take KEM_PUBLIC_KEY_LEN) = .ok enc ∧
      H.pskBundle psk PSK_ID = .ok bundle ∧
      H.setupReceiver (.authPsk pkS bundle) skR enc info = .ok ctx ∧
      H.ctxOpen ctx (wire.drop KEM_PUBLIC_KEY_LEN) [] = .ok m := by
  simp only [openWire, List.splitAt_eq]
  by_cases hlen : wire.length < KEM_PUBLIC_KEY_LEN
  · simp [hlen, Nat.not_le.mpr hlen, throw, throwThe, MonadExceptOf.throw, bind, Except.bind]
  · simp only [hlen, Nat.not_lt.mp hlen, if_false, bind_eq_ok_iff, mapError_eq_ok_iff, true_and]
    constructor
    · rintro ⟨enc, henc, bundle, hb, ctx, hctx, hm⟩
      exact ⟨enc, bundle, ctx, henc, hb, hctx, hm⟩
    · rintro ⟨enc, bundle, ctx, henc, hb, hctx, hm⟩
      exact ⟨enc, henc, bundle, hb, ctx, hctx, hm⟩

theorem openWire_sealWire (encodings : H.Encodings) (correct : H.Correct) {skS : H.PrivateKey}
    (h : sealWire H rng (skS, H.skToPk skS) (H.skToPk skR) psk info m = .ok wire) :
    openWire H skR (H.skToPk skS) psk info wire = .ok m := by
  obtain ⟨bundle, enc, ctx, ct, hb, hsetup, hseal, rfl⟩ := sealWire_eq_ok_iff.mp h
  obtain ⟨ctxR, hctx, hopen⟩ := correct.opens_sealed hsetup hseal
  have hlen : (H.encToBytes enc).length = KEM_PUBLIC_KEY_LEN := encodings.enc_length enc
  refine openWire_eq_ok_iff.mpr ⟨by simp [hlen], enc, bundle, ctxR, ?_, hb, hctx, ?_⟩
  · rw [List.take_left' hlen]
    exact encodings.enc_from_to enc
  · rwa [List.drop_left' hlen]

/-- What opens was sealed by a holder of the sender's key, under the same secret and
info, to the recipient. -/
theorem openWire_was_sealed (encodings : H.Encodings) (ideal : H.IdealAuthPsk)
    (h : openWire H skR pkS psk info wire = .ok m) :
    ∃ skS rng, H.skToPk skS = pkS ∧
      sealWire H rng (skS, pkS) (H.skToPk skR) psk info m = .ok wire := by
  obtain ⟨_, enc, bundle, ctx, henc, hb, hctx, hm⟩ := openWire_eq_ok_iff.mp h
  obtain ⟨skS, rng, ctxS, hsk, hsetup, hseal⟩ := ideal.opened_was_sealed hctx hm
  refine ⟨skS, rng, hsk, sealWire_eq_ok_iff.mpr ⟨bundle, enc, ctxS, _, hb, hsetup, hseal, ?_⟩⟩
  rw [encodings.enc_to_from henc, List.take_append_drop]

/-- One wire message has one sender key, recipient, secret, info and plaintext. -/
theorem sealWire_binds (encodings : H.Encodings) (ideal : H.IdealAuthPsk)
    (h : sealWire H rng sender pkR psk info m = .ok wire)
    (h' : sealWire H rng' sender' pkR' psk' info' m' = .ok wire) :
    sender.2 = sender'.2 ∧ pkR = pkR' ∧ psk = psk' ∧ info = info' ∧ m = m' := by
  obtain ⟨bundle, enc, ctx, ct, hb, hsetup, hseal, rfl⟩ := sealWire_eq_ok_iff.mp h
  obtain ⟨bundle', enc', ctx', ct', hb', hsetup', hseal', hw⟩ := sealWire_eq_ok_iff.mp h'
  obtain ⟨henc, rfl⟩ := List.append_inj hw (by simp only [encodings.enc_length])
  obtain rfl : enc' = enc := by
    have := encodings.enc_from_to enc
    rw [← henc, encodings.enc_from_to] at this
    exact Except.ok.inj this
  obtain ⟨hpk, rfl, hpkR, hinfo, hm⟩ := ideal.sealed_binds hsetup hsetup' hseal hseal'
  exact ⟨hpk, hpkR, (ideal.bundle_binds hb hb').1, hinfo, hm⟩

end HpkeDemo.Channel
