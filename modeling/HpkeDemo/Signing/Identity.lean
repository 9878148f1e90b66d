import HpkeDemo.Signing.Base

/-! The client and the server of the signing variants, over the identity scheme in which
the variants differ. -/
namespace HpkeDemo.Signing

def SIG_LEN : Nat := 64

/-- The `identity` module of a variant. No request transcript is a response transcript. -/
structure Identity where
  SigningKey : Type
  VerifyingKey : Type
  PK_LEN : Nat
  REQUEST_DOMAIN : Bytes
  RESPONSE_DOMAIN : Bytes
  domains_apart : ∀ x y, REQUEST_DOMAIN ++ x ≠ RESPONSE_DOMAIN ++ y
  pubkey : SigningKey → {b : Bytes // b.length = PK_LEN}
  readKey : {b : Bytes // b.length = PK_LEN} → Except String VerifyingKey
  sign : SigningKey → Bytes → {b : Bytes // b.length = SIG_LEN}
  verify : VerifyingKey → Bytes → Bytes → Bool

namespace Identity

/-- A serialized identity, as the allowlists hold it. -/
abbrev Id (I : Identity) := {b : Bytes // b.length = I.PK_LEN}

variable (I : Identity)

def requestTranscript (replyPkBytes body : Bytes) : Bytes :=
  I.REQUEST_DOMAIN ++ replyPkBytes ++ body

def responseTranscript (replyPkBytes body : Bytes) : Bytes :=
  I.RESPONSE_DOMAIN ++ replyPkBytes ++ body

theorem request_ne_response (kb body kb' body' : Bytes) :
    I.requestTranscript kb body ≠ I.responseTranscript kb' body' := by
  simp only [requestTranscript, responseTranscript, List.append_assoc]
  exact I.domains_apart _ _

theorem requestTranscript_inj {kb kb' body body' : Bytes} (hlen : kb.length = kb'.length)
    (h : I.requestTranscript kb body = I.requestTranscript kb' body') :
    kb = kb' ∧ body = body' := by
  simp only [requestTranscript, List.append_assoc, List.append_cancel_left_eq] at h
  exact List.append_inj h hlen

theorem responseTranscript_inj {kb kb' body body' : Bytes} (hlen : kb.length = kb'.length)
    (h : I.responseTranscript kb body = I.responseTranscript kb' body') :
    kb = kb' ∧ body = body' := by
  simp only [responseTranscript, List.append_assoc, List.append_cancel_left_eq] at h
  exact List.append_inj h hlen

end Identity

variable {H : Hpke} {I : Identity}

structure Client (H : Hpke) (I : Identity) where
  id : I.SigningKey
  serverPk : H.PublicKey
  serverId : I.VerifyingKey

structure Server (H : Hpke) (I : Identity) where
  sk : H.PrivateKey
  id : I.SigningKey
  allowlist : List I.Id

/-- `id || sig || reply_pk || body`. -/
def Client.payload (client : Client H I) (replyPk : H.PublicKey) (body : Bytes) : Bytes :=
  let replyPkBytes := H.pkToBytes replyPk
  let sig := I.sign client.id (I.requestTranscript replyPkBytes body)
  (I.pubkey client.id).1 ++ sig.1 ++ replyPkBytes ++ body

def Client.frameRequest (client : Client H I) (rng : H.Randomness) (replyPk : H.PublicKey)
    (body : Bytes) : Except Panic (H.EncappedKey × Bytes) :=
  sealBase H rng client.serverPk INFO_REQUEST (client.payload replyPk body)

def Server.frameResponse (server : Server H I) (rng : H.Randomness) (replyPk : H.PublicKey)
    (body : Bytes) : Except Panic (H.EncappedKey × Bytes) :=
  let sig := I.sign server.id (I.responseTranscript (H.pkToBytes replyPk) body)
  sealBase H rng replyPk INFO_RESPONSE (sig.1 ++ body)

/-- `open_request`, with a step that reads the verifying key. -/
def Server.openRequest (server : Server H I) (enc : H.EncappedKey) (ciphertext : Bytes) :
    Except String (H.PublicKey × Bytes) := do
  let payload ← openBase H server.sk INFO_REQUEST enc ciphertext
  if hlen : payload.length < I.PK_LEN + SIG_LEN + PUBLIC_KEY_LEN then
    .error "malformed request"
  else
    let id : I.Id := ⟨payload.take I.PK_LEN, by simp; omega⟩
    let rest := payload.drop I.PK_LEN
    let sig := rest.take SIG_LEN
    let replyPkBytes := (rest.drop SIG_LEN).take PUBLIC_KEY_LEN
    let body := (rest.drop SIG_LEN).drop PUBLIC_KEY_LEN
    if id ∉ server.allowlist then
      .error "unauthorized: client not on allowlist"
    else
      let clientId ← I.readKey id
      if !I.verify clientId (I.requestTranscript replyPkBytes body) sig then
        .error "bad client signature"
      else
        let replyPk ← pkFromBytes H replyPkBytes
        return (replyPk, body)

/-- A request is accepted exactly when its payload is laid out as `frame_request` does,
the identity is allowlisted and reads, the signature verifies, and the key reads. -/
theorem openRequest_eq_ok_iff {server : Server H I} {enc : H.EncappedKey} {ct : Bytes}
    {replyPk : H.PublicKey} {body : Bytes} :
    server.openRequest enc ct = .ok (replyPk, body) ↔
      ∃ (id : I.Id) (sig kb : Bytes) (clientId : I.VerifyingKey),
        openBase H server.sk INFO_REQUEST enc ct = .ok (id.1 ++ sig ++ kb ++ body) ∧
        sig.length = SIG_LEN ∧ kb.length = PUBLIC_KEY_LEN ∧ id ∈ server.allowlist ∧
        I.readKey id = .ok clientId ∧
        I.verify clientId (I.requestTranscript kb body) sig = true ∧
        H.pkFromBytes kb = .ok replyPk := by
  constructor
  · intro h
    obtain ⟨payload, hopen, h⟩ := bind_eq_ok_iff.mp h
    split at h
    · cases h
    · next hlen =>
      dsimp only at h
      split at h
      · cases h
      · next hmem =>
        obtain ⟨clientId, hkey, h⟩ := bind_eq_ok_iff.mp h
        split at h
        · cases h
        · next hverify =>
          obtain ⟨replyPk', hpk, h⟩ := bind_eq_ok_iff.mp h
          obtain ⟨rfl, rfl⟩ := Prod.mk.inj (Except.ok.inj h)
          refine ⟨_, _, _, clientId, ?_, ?_, ?_, not_not.mp hmem, hkey, by simpa using hverify,
            mapError_eq_ok_iff.mp hpk⟩
          · simp only [List.append_assoc, List.take_append_drop, hopen]
          · simp only [List.length_take, List.length_drop]
            omega
          · simp only [List.length_take, List.length_drop]
            omega
  · rintro ⟨id, sig, kb, clientId, hopen, hsig, hkb, hmem, hkey, hverify, hpk⟩
    refine bind_eq_ok_iff.mpr ⟨_, hopen, ?_⟩
    have hlen : ¬ (id.1 ++ sig ++ kb ++ body).length < I.PK_LEN + SIG_LEN + PUBLIC_KEY_LEN := by
      simp only [List.length_append, id.2, hsig, hkb]
      omega
    rw [dif_neg hlen]
    simp only [List.append_assoc, List.take_left' id.2, List.drop_left' id.2, List.take_left' hsig,
      List.drop_left' hsig, List.take_left' hkb, List.drop_left' hkb, hmem, not_true_eq_false,
      if_false, hkey]
    refine bind_eq_ok_iff.mpr ⟨clientId, rfl, ?_⟩
    simp only [hverify, Bool.not_true, Bool.false_eq_true, if_false]
    exact bind_eq_ok_iff.mpr ⟨replyPk, mapError_eq_ok_iff.mpr hpk, rfl⟩

end HpkeDemo.Signing
