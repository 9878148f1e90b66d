import HpkeDemo.Signing.Servers

/-! The reply key of a request, which its client chooses. `open_request` reads it as a key
and never asks whether anything can be sealed to it. -/
namespace HpkeDemo.Signing

variable {H : Hpke} {I : Identity}

/-- Where `frame_request` puts the reply key. -/
def replyKeyBytes (I : Identity) (payload : Bytes) : Bytes :=
  ((payload.drop I.PK_LEN).drop SIG_LEN).take PUBLIC_KEY_LEN

/-- The reply key in what the ciphertext holds for the server is not of low order. -/
def ReplyKeyOfUse (LowOrder : H.PublicKey → Prop) (server : Server H I) (enc : H.EncappedKey)
    (ciphertext : Bytes) : Prop :=
  ∀ payload replyPk, openBase H server.sk INFO_REQUEST enc ciphertext = .ok payload →
    H.pkFromBytes (replyKeyBytes I payload) = .ok replyPk → ¬ LowOrder replyPk

theorem replyKeyBytes_payload {id sig kb body : Bytes} (hid : id.length = I.PK_LEN)
    (hsig : sig.length = SIG_LEN) (hkb : kb.length = PUBLIC_KEY_LEN) :
    replyKeyBytes I (id ++ sig ++ kb ++ body) = kb := by
  simp only [replyKeyBytes, List.append_assoc, List.drop_left' hid, List.drop_left' hsig,
    List.take_left' hkb]

/-- The key that `open_request` returns is the one its payload holds. -/
theorem replyKey_of_openRequest {server : Server H I} {enc : H.EncappedKey} {ct body : Bytes}
    {replyPk : H.PublicKey} (h : server.openRequest enc ct = .ok (replyPk, body)) :
    ∃ payload, openBase H server.sk INFO_REQUEST enc ct = .ok payload ∧
      H.pkFromBytes (replyKeyBytes I payload) = .ok replyPk := by
  obtain ⟨id, sig, kb, clientId, hopen, hsig, hkb, _, _, _, hpk⟩ := openRequest_eq_ok_iff.mp h
  refine ⟨_, hopen, ?_⟩
  rw [replyKeyBytes_payload id.2 hsig hkb]
  exact hpk

/-- **A reply is sealed exactly to a key of use.** Once a request is accepted, framing any
reply to it fails its `expect` exactly if the request's reply key is of low order. -/
theorem reply_sealed_iff {v : Variant} {LowOrder : H.PublicKey → Prop}
    (encapsulates : H.Encapsulates LowOrder) {server : Server H v.identity} {enc : H.EncappedKey}
    {ct body : Bytes} {replyPk : H.PublicKey}
    (h : v.openRequest server enc ct = .ok (replyPk, body)) (rng : H.Randomness)
    (replyBody : Bytes) :
    (∃ out, server.frameResponse rng replyPk replyBody = .ok out) ↔
      ReplyKeyOfUse LowOrder server enc ct := by
  rw [v.openRequest_eq] at h
  obtain ⟨payload, hopen, hpk⟩ := replyKey_of_openRequest h
  have sealable : (∃ out, server.frameResponse rng replyPk replyBody = .ok out) ↔
      ¬ LowOrder replyPk := exists_sealBase_iff encapsulates
  rw [sealable]
  constructor
  · intro hlow payload' replyPk' hopen' hpk'
    obtain rfl := Except.ok.inj (hopen.symm.trans hopen')
    obtain rfl := Except.ok.inj (hpk.symm.trans hpk')
    exact hlow
  · intro huse
    exact huse payload replyPk hopen hpk

theorem reply_sealed_resealed :
    ReplyKeyOfUse (· = Transparent.lowOrder) (Demo.world.servers true) (Transparent.key 3)
      (Demo.sealed 1) :=
  (reply_sealed_iff Transparent.encapsulates Demo.opens_resealed (Transparent.key 3) [8]).mp
    ⟨_, rfl⟩

namespace Demo
open Transparent (key lowOrder)

/-- The allowlisted client asks the honest server for a reply to the key of all zeros. -/
def zeroReply : Bytes :=
  ((sealBase Transparent.hpke (key 3) (key 1) INFO_REQUEST (client.payload lowOrder [7])).map
    Prod.snd).toOption.getD []

set_option maxRecDepth 10000 in
theorem opens_zeroReply :
    (Variant.ed25519 ring).openRequest (world.servers true) (key 3) zeroReply =
      .ok (lowOrder, [7]) := by rfl

end Demo

/-- The server accepts the request, and fails to answer it. -/
theorem accepted_request_fails_reply :
    ¬ ∀ (server : Server Transparent.hpke (Variant.ed25519 Demo.ring).identity) enc ct replyPk
      body rng replyBody,
      (Variant.ed25519 Demo.ring).openRequest server enc ct = .ok (replyPk, body) →
        ∃ out, server.frameResponse rng replyPk replyBody = .ok out := by
  intro h
  obtain ⟨out, hout⟩ := h _ _ _ _ _ (Transparent.key 3) [8] Demo.opens_zeroReply
  cases hout

end HpkeDemo.Signing
