import HpkeDemo.AuthMode.Parties

/-! `main` of `secp256k1_authmode.rs`, over whatever it draws and with any bodies in the place of
its constants. -/
namespace HpkeDemo.AuthMode

/-- The keys that `main` draws, and the randomness of its four messages. -/
structure Draw (H : HpkeSecp) where
  serverSk : H.PrivateKey
  clientSk : H.PrivateKey
  strangerSk : H.PrivateKey
  attackerSk : H.PrivateKey
  request : H.Randomness
  response : H.Randomness
  strange : H.Randomness
  forged : H.Randomness

/-- What `main` prints. -/
inductive Line where
  | clientAuthenticated (request : Bytes)
  | replyVerified (response : Bytes)
  | rejectedUnknown (e : String)
  | rejectedImpersonation (e : String)
  deriving DecidableEq

variable {H : HpkeSecp}

namespace Draw
variable (draw : Draw H)

/-- A client with this key that pins the server's. -/
def clientOf (sk : H.PrivateKey) : Client H where
  sk := sk
  pk := H.skToPk sk
  serverPk := H.skToPk draw.serverSk

def client : Client H := draw.clientOf draw.clientSk
def stranger : Client H := draw.clientOf draw.strangerSk
def attacker : Client H := draw.clientOf draw.attackerSk

def server : Server H where
  sk := draw.serverSk
  pk := H.skToPk draw.serverSk
  allowlist := [pkBytes H (H.skToPk draw.clientSk)]

end Draw

def main (draw : Draw H) (request response : Bytes) : Except Failure (List Line) := do
  let (enc, ct) ← (draw.client.sealRequest draw.request request).mapError .panic
  let body ← (draw.server.handle draw.client.identity enc ct).mapError .err
  let (respEnc, respCt) ←
    (draw.server.sealResponse draw.response draw.client.pk response).mapError .panic
  let answer ← (draw.client.openResponse respEnc respCt).mapError .err
  let (enc, ct) ← (draw.stranger.sealRequest draw.strange request).mapError .panic
  let unknown ← expectErr "a stranger's request should have been rejected"
    (draw.server.handle draw.stranger.identity enc ct)
  let (enc, ct) ← (draw.attacker.sealRequest draw.forged request).mapError .panic
  let impersonation ← expectErr "an impersonated request should have been rejected"
    (draw.server.handle draw.client.identity enc ct)
  return [.clientAuthenticated body, .replyVerified answer, .rejectedUnknown unknown,
    .rejectedImpersonation impersonation]

/-- The demo reports an exchange in both directions, and the two rejections. -/
theorem main_eq (correct : H.Correct) (ideal : H.Ideal) (draw : Draw H) (request response : Bytes)
    (hstranger : H.skToPk draw.strangerSk ≠ H.skToPk draw.clientSk)
    (hattacker : H.skToPk draw.attackerSk ≠ H.skToPk draw.clientSk) :
    main draw request response =
      .ok [.clientAuthenticated request, .replyVerified response,
        .rejectedUnknown "unauthorized: client not on allowlist",
        .rejectedImpersonation "authentication failed"] := by
  have server_keyed : draw.server.Keyed := rfl
  have client_keyed : draw.client.Keyed := rfl
  have pinned : draw.client.serverPk = draw.server.pk := rfl
  have listed : draw.client.identity ∈ draw.server.allowlist := List.mem_singleton_self _
  have unlisted : draw.stranger.identity ∉ draw.server.allowlist := by
    intro hmem
    have hbytes : H.toBytes (H.skToPk draw.strangerSk) = H.toBytes (H.skToPk draw.clientSk) :=
      List.mem_singleton.mp hmem
    have hread := correct.from_to (H.skToPk draw.strangerSk)
    rw [hbytes, correct.from_to] at hread
    exact hstranger (Except.ok.inj hread).symm
  obtain ⟨enc, ct, hrequest, hbody⟩ :=
    handle_sealRequest correct ideal server_keyed client_keyed pinned listed draw.request request
  obtain ⟨enc', ct', hresponse, hanswer⟩ := openResponse_sealResponse correct ideal server_keyed
    client_keyed pinned draw.response response
  obtain ⟨enc₁, ct₁, hstrange⟩ : ∃ enc ct,
      draw.stranger.sealRequest draw.strange request = .ok (enc, ct) :=
    exists_sealAuth correct draw.strange _ _ INFO_REQUEST request
  obtain ⟨enc₂, ct₂, hforged⟩ : ∃ enc ct,
      draw.attacker.sealRequest draw.forged request = .ok (enc, ct) :=
    exists_sealAuth correct draw.forged _ _ INFO_REQUEST request
  have hunknown : draw.server.handle draw.stranger.identity enc₁ ct₁ =
      .error "unauthorized: client not on allowlist" := handle_of_unlisted unlisted
  have himpersonation := handle_impersonation correct ideal listed hattacker hforged
  simp only [main, hrequest, hbody, hresponse, hanswer, hstrange, hunknown, hforged,
    himpersonation, expectErr, Except.mapError, bind, Except.bind]
  rfl

end HpkeDemo.AuthMode
