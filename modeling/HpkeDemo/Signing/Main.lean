import HpkeDemo.Signing.Refusals

/-! `main` of the signing variants, over whatever it draws and with any bodies in the place of
its constants. Both variants have the same one, over their own `identity`. -/
namespace HpkeDemo.Signing

/-- What `main` draws: the keys of a server, a client, a stranger and an attacker, a reply key,
and the randomness of the four messages. -/
structure Draw (H : Hpke) (I : Identity) where
  serverSk : H.PrivateKey
  serverId : I.SigningKey
  clientId : I.SigningKey
  strangerId : I.SigningKey
  attacker : I.SigningKey
  replySk : H.PrivateKey
  request : H.Randomness
  response : H.Randomness
  strange : H.Randomness
  forged : H.Randomness

/-- What `main` prints. -/
inductive Line where
  | clientVerified (request : Bytes)
  | serverVerified (response : Bytes)
  | rejectedUnknown (e : String)
  | rejectedImpersonation (e : String)

/-- The key of a signing key that peers pin. -/
def Variant.verifyingKey : (v : Variant) → v.identity.SigningKey → v.identity.VerifyingKey
  | .ed25519 ring => ring.publicKey
  | .secp256k1 secp => secp.fromSecretKey

/-- `hpke_base::pk_bytes`. -/
def pkBytes (H : Hpke) (pk : H.PublicKey) : Except Panic {b : Bytes // b.length = PUBLIC_KEY_LEN} :=
  if h : (H.pkToBytes pk).length = PUBLIC_KEY_LEN then .ok ⟨H.pkToBytes pk, h⟩
  else .error ⟨"source slice length does not match destination slice length"⟩

variable {H : Hpke}

namespace Draw
variable {v : Variant} (draw : Draw H v.identity)

def server : Server H v.identity where
  sk := draw.serverSk
  id := draw.serverId
  allowlist := [v.identity.pubkey draw.clientId]

def client : Client H v.identity where
  id := draw.clientId
  serverPk := H.skToPk draw.serverSk
  serverId := v.verifyingKey draw.serverId

def stranger : Client H v.identity := { draw.client with id := draw.strangerId }

def replyPk : H.PublicKey := H.skToPk draw.replySk

/-- The client's name over the attacker's signature. -/
def impersonation (kb body : Bytes) : Bytes :=
  (v.identity.pubkey draw.clientId).1 ++
    (v.identity.sign draw.attacker (v.identity.requestTranscript kb body)).1 ++ kb ++ body

end Draw

def main (v : Variant) (draw : Draw H v.identity) (request response : Bytes) :
    Except Failure (List Line) := do
  let (enc, ct) ← (draw.client.frameRequest draw.request draw.replyPk request).mapError .panic
  let (clientReplyPk, body) ← (v.openRequest draw.server enc ct).mapError .err
  let (respEnc, respCt) ←
    (draw.server.frameResponse draw.response clientReplyPk response).mapError .panic
  let replyPkBytes ← (pkBytes H draw.replyPk).mapError .panic
  let answer ← (draw.client.openResponse draw.replySk replyPkBytes respEnc respCt).mapError .err
  let (enc, ct) ← (draw.stranger.frameRequest draw.strange draw.replyPk request).mapError .panic
  let unknown ← expectErr "a stranger's request should have been rejected"
    (v.openRequest draw.server enc ct)
  let (enc, ct) ← (sealBase H draw.forged draw.client.serverPk INFO_REQUEST
    (draw.impersonation replyPkBytes request)).mapError .panic
  let impersonation ← expectErr "an impersonated request should have been rejected"
    (v.openRequest draw.server enc ct)
  return [.clientVerified body, .serverVerified answer, .rejectedUnknown unknown,
    .rejectedImpersonation impersonation]

def Ed25519.main {ring : Ring} (draw : Draw H (identity ring)) (request response : Bytes) :
    Except Failure (List Line) :=
  Signing.main (.ed25519 ring) draw request response

def Secp256k1Signing.main {secp : Secp256k1} (draw : Draw H (identity secp))
    (request response : Bytes) : Except Failure (List Line) :=
  Signing.main (.secp256k1 secp) draw request response

section
variable {LowOrder : H.PublicKey → Prop} {v : Variant} {draw : Draw H v.identity}

theorem verifyingKey_read (hv : v.Correct) (sk : v.identity.SigningKey) :
    v.identity.readKey (v.identity.pubkey sk) = .ok (v.verifyingKey sk) := by
  cases v with
  | ed25519 ring => rfl
  | secp256k1 secp => exact mapError_eq_ok_iff.mpr (hv.fromSlice_serialize _)

theorem Draw.allowed (draw : Draw H v.identity) : Allowed draw.client draw.server where
  serverPk := rfl
  allowed := List.mem_singleton_self _

/-- What is sealed to the server as a request, it cuts into its parts. -/
theorem exists_laid_of_seal (correct : H.CorrectBase) (encapsulates : H.Encapsulates LowOrder)
    (honest : ∀ sk, ¬ LowOrder (H.skToPk sk)) {I : Identity} (server : Server H I)
    (rng : H.Randomness) (id : I.Id) {sig kb : Bytes} (hsig : sig.length = SIG_LEN)
    (hkb : kb.length = PUBLIC_KEY_LEN) (body : Bytes) :
    ∃ enc ct, sealBase H rng (H.skToPk server.sk) INFO_REQUEST (id.1 ++ sig ++ kb ++ body) =
        .ok (enc, ct) ∧ Laid server enc ct id sig kb body := by
  obtain ⟨⟨enc, ct⟩, hseal⟩ := (exists_sealBase_iff encapsulates).mpr (honest server.sk)
  exact ⟨enc, ct, hseal, openBase_sealBase correct hseal, hsig, hkb⟩

/-- **What the signing demos report.** Whatever is drawn, in either variant the client's request
is verified and its reply too; a stranger is refused for not being allowlisted, and an
impersonation of the client for its signature, unless the attacker's signature happens to be
the client's. -/
theorem signing_main_reports (v : Variant) (encodings : H.Encodings) (correct : H.CorrectBase)
    (encapsulates : H.Encapsulates LowOrder) (honest : ∀ sk, ¬ LowOrder (H.skToPk sk))
    (hv : v.Correct) (draw : Draw H v.identity) (request response : Bytes)
    (hstranger : v.identity.pubkey draw.strangerId ≠ v.identity.pubkey draw.clientId)
    (hattacker : v.identity.verify (v.verifyingKey draw.clientId)
      (v.identity.requestTranscript (H.pkToBytes draw.replyPk) request)
      (v.identity.sign draw.attacker
        (v.identity.requestTranscript (H.pkToBytes draw.replyPk) request)).1 = false) :
    main v draw request response =
      .ok [.clientVerified request, .serverVerified response,
        .rejectedUnknown "unauthorized: client not on allowlist",
        .rejectedImpersonation "bad client signature"] := by
  have verifies := Variant.identity_verifies hv
  have pinned : Pinned draw.client draw.server := verifyingKey_read hv draw.serverId
  have hkb : (H.pkToBytes draw.replyPk).length = PUBLIC_KEY_LEN := encodings.pk_length draw.replyPk
  have hbytes : pkBytes H draw.replyPk = .ok ⟨H.pkToBytes draw.replyPk, hkb⟩ := dif_pos hkb
  obtain ⟨enc, ct, hframe, hopen⟩ := openRequest_frameRequest encodings correct encapsulates honest
    verifies draw.allowed draw.request draw.replyPk request
  obtain ⟨enc', ct', hreply, hopen'⟩ : ∃ enc ct,
      draw.server.frameResponse draw.response draw.replyPk response = .ok (enc, ct) ∧
        draw.client.openResponse draw.replySk ⟨H.pkToBytes draw.replyPk, hkb⟩ enc ct =
          .ok response :=
    openResponse_frameResponse correct encapsulates honest verifies pinned draw.response
      draw.replySk rfl response
  obtain ⟨enc₁, ct₁, hstrange, laid₁⟩ := exists_laid_of_seal correct encapsulates honest draw.server
    draw.strange (v.identity.pubkey draw.strangerId)
    (v.identity.sign draw.strangerId
      (v.identity.requestTranscript (H.pkToBytes draw.replyPk) request)).2 hkb request
  obtain ⟨enc₂, ct₂, hforged, laid₂⟩ := exists_laid_of_seal correct encapsulates honest draw.server
    draw.forged (v.identity.pubkey draw.clientId)
    (v.identity.sign draw.attacker
      (v.identity.requestTranscript (H.pkToBytes draw.replyPk) request)).2 hkb request
  have hunknown : draw.server.openRequest enc₁ ct₁ =
      .error "unauthorized: client not on allowlist" :=
    openRequest_error_iff.mpr (.unauthorized laid₁ (mt List.mem_singleton.mp hstranger))
  have hrefused : draw.server.openRequest enc₂ ct₂ = .error "bad client signature" :=
    openRequest_error_iff.mpr (.unsigned laid₂ (List.mem_singleton_self _)
      (verifyingKey_read hv draw.clientId) hattacker)
  have hstranger' : draw.stranger.frameRequest draw.strange draw.replyPk request =
      .ok (enc₁, ct₁) := hstrange
  have hforged' : sealBase H draw.forged draw.client.serverPk INFO_REQUEST
      (draw.impersonation (H.pkToBytes draw.replyPk) request) = .ok (enc₂, ct₂) := hforged
  simp only [main, v.openRequest_eq, hframe, hopen, hreply, hbytes, hopen', hstranger', hunknown,
    hforged', hrefused, expectErr, Except.mapError, bind, Except.bind]
  rfl

end

namespace Demo
open Transparent (key)

def draw : Draw Clamped.hpke (Variant.ed25519 ring).identity where
  serverSk := framingServer.sk
  serverId := (6 : UInt8)
  clientId := (5 : UInt8)
  strangerId := (7 : UInt8)
  attacker := (8 : UInt8)
  replySk := framingServer.sk
  request := key 3
  response := key 3
  strange := key 3
  forged := key 3

end Demo

theorem signing_main_reports_drawn : main (.ed25519 Demo.ring) Demo.draw [7] [8] =
    .ok [.clientVerified [7], .serverVerified [8],
      .rejectedUnknown "unauthorized: client not on allowlist",
      .rejectedImpersonation "bad client signature"] :=
  signing_main_reports (.ed25519 Demo.ring) Clamped.encodings Clamped.correctBase
    Clamped.encapsulates Clamped.honest Demo.ring_correct Demo.draw [7] [8] (by decide) (by decide)

end HpkeDemo.Signing
