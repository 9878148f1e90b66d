import HpkeDemo.Hpke

/-! `hpke_base`, the sealing layer that both signing variants carry: HPKE base mode, for
confidentiality only. -/
namespace HpkeDemo.Signing

def PUBLIC_KEY_LEN : Nat := 32

/-- The `info` of each direction. -/
def INFO_REQUEST : Bytes := Bytes.ofString "hpke-demo request"
def INFO_RESPONSE : Bytes := Bytes.ofString "hpke-demo response"

theorem info_ne : INFO_REQUEST ≠ INFO_RESPONSE := by decide

variable (H : Hpke)

def pkFromBytes (bytes : Bytes) : Except String H.PublicKey :=
  (H.pkFromBytes bytes).mapError ("malformed KEM public key: " ++ ·)

/-- `hpke_base::seal`; `rng` is what the OS random generator yields. -/
def sealBase (rng : H.Randomness) (recipientPk : H.PublicKey) (info plaintext : Bytes) :
    Except Panic (H.EncappedKey × Bytes) := do
  let (enc, ctx) ← expect "sender setup" (H.setupSender .base recipientPk info rng)
  let ciphertext ← expect "seal" (H.ctxSeal ctx plaintext [])
  return (enc, ciphertext)

/-- `hpke_base::open`. -/
def openBase (recipientSk : H.PrivateKey) (info : Bytes) (enc : H.EncappedKey)
    (ciphertext : Bytes) : Except String Bytes := do
  let ctx ← (H.setupReceiver .base recipientSk enc info).mapError ("receiver setup: " ++ ·)
  (H.ctxOpen ctx ciphertext []).mapError ("decrypt: " ++ ·)

variable {H} {rng rng' : H.Randomness} {skR : H.PrivateKey} {pkR pkR' : H.PublicKey}
  {enc : H.EncappedKey} {info info' m m' ct : Bytes}

theorem sealBase_eq_ok_iff : sealBase H rng pkR info m = .ok (enc, ct) ↔
    ∃ ctx, H.setupSender .base pkR info rng = .ok (enc, ctx) ∧ H.ctxSeal ctx m [] = .ok ct := by
  simp only [sealBase, bind_eq_ok_iff, expect_eq_ok_iff]
  constructor
  · rintro ⟨⟨enc', ctx⟩, hs, ct', hc, h⟩
    obtain ⟨rfl, rfl⟩ := Prod.mk.inj (Except.ok.inj h)
    exact ⟨ctx, hs, hc⟩
  · rintro ⟨ctx, hs, hc⟩
    exact ⟨(enc, ctx), hs, ct, hc, rfl⟩

theorem exists_sealBase_iff {LowOrder : H.PublicKey → Prop}
    (encapsulates : H.Encapsulates LowOrder) :
    (∃ out, sealBase H rng pkR info m = .ok out) ↔ ¬ LowOrder pkR := by
  have hsetup_ok : (∃ out, H.setupSender .base pkR info rng = .ok out) ↔ ¬ LowOrder pkR :=
    encapsulates.setup_ok_iff
  rw [← hsetup_ok]
  constructor
  · rintro ⟨⟨enc, ct⟩, h⟩
    obtain ⟨ctx, hsetup, _⟩ := sealBase_eq_ok_iff.mp h
    exact ⟨_, hsetup⟩
  · rintro ⟨⟨enc, ctx⟩, hsetup⟩
    obtain ⟨ct, hct⟩ := encapsulates.seals hsetup m
    exact ⟨(enc, ct), sealBase_eq_ok_iff.mpr ⟨ctx, hsetup, hct⟩⟩

theorem openBase_eq_ok_iff : openBase H skR info enc ct = .ok m ↔
    ∃ ctx, H.setupReceiver .base skR enc info = .ok ctx ∧ H.ctxOpen ctx ct [] = .ok m := by
  simp only [openBase, bind_eq_ok_iff, mapError_eq_ok_iff]

theorem openBase_sealBase (correct : H.CorrectBase)
    (h : sealBase H rng (H.skToPk skR) info m = .ok (enc, ct)) :
    openBase H skR info enc ct = .ok m := by
  obtain ⟨ctx, hsetup, hseal⟩ := sealBase_eq_ok_iff.mp h
  exact openBase_eq_ok_iff.mpr (correct.opens_sealed hsetup hseal)

/-- What a sealed message opens to is what was sealed, for its recipient and info. -/
theorem openBase_sealed (ideal : H.IdealBase) (hseal : sealBase H rng pkR info m = .ok (enc, ct))
    (hopen : openBase H skR info' enc ct = .ok m') :
    pkR = H.skToPk skR ∧ info = info' ∧ m = m' := by
  obtain ⟨ctx, hs, hc⟩ := sealBase_eq_ok_iff.mp hseal
  obtain ⟨ctxR, hr, ho⟩ := openBase_eq_ok_iff.mp hopen
  obtain ⟨rng', ctx', hs', hc'⟩ := ideal.opened_was_sealed hr ho
  exact ideal.sealed_binds hs hs' hc hc'

end HpkeDemo.Signing
