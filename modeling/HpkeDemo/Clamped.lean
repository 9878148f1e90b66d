import HpkeDemo.Transparent

/-! The crate that hides nothing, with two more traits of the real one: no private key has
a public key of low order, and the receiver refuses a sender's key of low order. Its
ciphertexts end in a mark. -/
namespace HpkeDemo.Clamped
open Transparent

abbrev Scalar := {k : Key // k ≠ lowOrder}

/-- The byte every ciphertext ends in. -/
def mark : UInt8 := 0

def headerS : OpModeS Scalar Key (Bytes × Bytes) → Key → Bytes → Key → List Bytes
  | .base => Transparent.headerS .base
  | .authPsk sender bundle => Transparent.headerS (.authPsk (sender.1.1, sender.2) bundle)

def hpke : Hpke where
  PrivateKey := Scalar
  PublicKey := Key
  EncappedKey := Key
  PskBundle := Bytes × Bytes
  SenderContext := List Bytes
  ReceiverContext := List Bytes
  Randomness := Key
  skToPk sk := sk.1
  pkToBytes pk := pk
  pkFromBytes := keyFromBytes
  encToBytes enc := enc
  encFromBytes := keyFromBytes
  pskBundle := Transparent.hpke.pskBundle
  setupSender mode pkR info rng :=
    if pkR = lowOrder then .error "EncapError" else .ok (rng, headerS mode pkR info rng)
  setupReceiver mode skR enc info :=
    match mode with
    | .base => .ok (headerR .base skR.1 enc info)
    | .authPsk pkS bundle =>
      if pkS = lowOrder then .error "DecapError"
      else .ok (headerR (.authPsk pkS bundle) skR.1 enc info)
  ctxSeal ctx plaintext aad := .ok (chunks (ctx ++ [aad]) ++ plaintext ++ [mark])
  ctxOpen ctx ciphertext aad :=
    if ciphertext.getLast? = some mark then
      Transparent.hpke.ctxOpen ctx ciphertext.dropLast aad
    else .error "OpenError"

/-- Taking off the mark and opening undoes sealing and putting on the mark. -/
theorem opens_marked_iff (mark : UInt8) {ctx : List Bytes} {ct aad m : Bytes} {e : String} :
    (if ct.getLast? = some mark then Transparent.hpke.ctxOpen ctx ct.dropLast aad
      else .error e) = .ok m ↔ chunks (ctx ++ [aad]) ++ m ++ [mark] = ct := by
  have plain : Transparent.hpke.ctxOpen ctx ct.dropLast aad = .ok m ↔
      Transparent.hpke.ctxSeal ctx m aad = .ok ct.dropLast := Transparent.ctxOpen_eq_ok_iff
  by_cases hlast : ct.getLast? = some mark
  · have hct := List.dropLast_append_getLast? mark hlast
    rw [if_pos hlast, plain]
    simp only [Transparent.hpke, Except.ok.injEq]
    constructor
    · intro h
      rw [h, hct]
    · intro h
      rw [← h, List.dropLast_concat]
  · rw [if_neg hlast]
    simp only [reduceCtorEq, false_iff]
    rintro rfl
    exact hlast List.getLast?_concat

theorem ctxOpen_eq_ok_iff {ctx : List Bytes} {ct aad m : Bytes} :
    hpke.ctxOpen ctx ct aad = .ok m ↔ hpke.ctxSeal ctx m aad = .ok ct := by
  simp only [hpke, Except.ok.injEq]
  exact opens_marked_iff mark

theorem setupSender_eq_ok_iff {mode : OpModeS Scalar Key (Bytes × Bytes)} {pkR rng enc : Key}
    {info : Bytes} {ctx : List Bytes} : hpke.setupSender mode pkR info rng = .ok (enc, ctx) ↔
      pkR ≠ lowOrder ∧ rng = enc ∧ headerS mode pkR info rng = ctx := by
  by_cases h : pkR = lowOrder <;> simp [hpke, h]

theorem setupReceiver_eq_ok_iff {pkS enc : Key} {bundle : Bytes × Bytes} {skR : Scalar}
    {info : Bytes} {ctx : List Bytes} :
    hpke.setupReceiver (.authPsk pkS bundle) skR enc info = .ok ctx ↔
      pkS ≠ lowOrder ∧ headerR (.authPsk pkS bundle) skR.1 enc info = ctx := by
  by_cases h : pkS = lowOrder <;> simp [hpke, h]

theorem encodings : hpke.Encodings where
  pk_length pk := pk.2
  pk_from_to _ := keyFromBytes_eq_ok_iff.mpr rfl
  enc_length enc := enc.2
  enc_from_to _ := keyFromBytes_eq_ok_iff.mpr rfl
  enc_to_from h := (keyFromBytes_eq_ok_iff.mp h).symm

theorem correct : hpke.Correct where
  opens_sealed := by
    intro skS skR bundle info rng enc ctxS m ct hsetup hseal
    obtain ⟨_, rfl, rfl⟩ := setupSender_eq_ok_iff.mp hsetup
    exact ⟨_, setupReceiver_eq_ok_iff.mpr ⟨skS.2, rfl⟩, ctxOpen_eq_ok_iff.mpr hseal⟩

theorem correctBase : hpke.CorrectBase where
  opens_sealed := by
    intro skR info rng enc ctxS m ct hsetup hseal
    obtain ⟨_, rfl, rfl⟩ := setupSender_eq_ok_iff.mp hsetup
    exact ⟨_, rfl, ctxOpen_eq_ok_iff.mpr hseal⟩

theorem pskRule : hpke.PskRule := Transparent.pskRule

theorem encapsulates : hpke.Encapsulates (· = lowOrder) where
  setup_ok_iff := by
    intro mode pkR info rng
    constructor
    · rintro ⟨⟨enc, ctx⟩, h⟩
      exact (setupSender_eq_ok_iff.mp h).1
    · intro h
      exact ⟨_, setupSender_eq_ok_iff.mpr ⟨h, rfl, rfl⟩⟩
  seals := fun _ _ => ⟨_, rfl⟩

theorem honest (sk : hpke.PrivateKey) : hpke.skToPk sk ≠ lowOrder := sk.2

theorem idealAuthPsk : hpke.IdealAuthPsk where
  opened_was_sealed := by
    intro skR pkS bundle enc info ctx m ct hsetup hopen
    obtain ⟨hpkS, rfl⟩ := setupReceiver_eq_ok_iff.mp hsetup
    exact ⟨⟨pkS, hpkS⟩, enc, _, rfl, setupSender_eq_ok_iff.mpr ⟨skR.2, rfl, rfl⟩,
      ctxOpen_eq_ok_iff.mp hopen⟩
  sealed_binds := by
    intro s s' bundle bundle' pkR pkR' info info' rng rng' enc ctx ctx' m m' ct hs hs' hm hm'
    obtain ⟨_, rfl, rfl⟩ := setupSender_eq_ok_iff.mp hs
    obtain ⟨_, rfl, rfl⟩ := setupSender_eq_ok_iff.mp hs'
    have hct := Except.ok.inj (hm.trans hm'.symm)
    obtain ⟨hct, _⟩ := List.append_inj' hct rfl
    obtain ⟨hctx, rfl⟩ := chunks_append_inj (by simp [headerS, Transparent.headerS]) hct
    simp only [headerS, Transparent.headerS, List.cons_append, List.nil_append, List.cons.injEq,
      true_and, and_true] at hctx
    obtain ⟨hpk, hpsk, hid, hpkR, hinfo⟩ := hctx
    exact ⟨Subtype.ext hpk, Prod.ext hpsk hid, Subtype.ext hpkR, hinfo, rfl⟩
  bundle_binds := Transparent.idealAuthPsk.bundle_binds

end HpkeDemo.Clamped
