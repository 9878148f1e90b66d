import HpkeDemo.Clamped
import HpkeDemo.Signing.Replies
import HpkeDemo.Signing.Transcripts

/-! What the signing variants frame, and that the peer takes exactly that for a frame. -/
namespace HpkeDemo.Signing

/-- Signatures of the `ring` crate verify. -/
structure Ring.Correct (ring : Ring) : Prop where
  verifies : ∀ kp t, ring.verify (ring.publicKey kp) t (ring.sign kp t) = true

/-- Keys and signatures of the `secp256k1` crate read back, and signatures verify. -/
structure Secp256k1.Correct (secp : Secp256k1) : Prop where
  fromSlice_serialize : ∀ pk, secp.fromSlice (secp.serialize pk) = .ok pk
  fromCompact_serializeCompact : ∀ sig, secp.fromCompact (secp.serializeCompact sig) = some sig
  verifies : ∀ sk digest,
    secp.verifyEcdsa digest (secp.signEcdsa digest sk) (secp.fromSecretKey sk) = true

def Variant.Correct : Variant → Prop
  | .ed25519 ring => ring.Correct
  | .secp256k1 secp => secp.Correct

/-- An identity reads back from its own bytes, and what it signed verifies under it. -/
def Identity.Verifies (I : Identity) : Prop :=
  ∀ sk, ∃ id, I.readKey (I.pubkey sk) = .ok id ∧ ∀ t, I.verify id t (I.sign sk t).1 = true

theorem Variant.identity_verifies {v : Variant} (correct : v.Correct) : v.identity.Verifies := by
  cases v with
  | ed25519 ring =>
    intro kp
    exact ⟨ring.publicKey kp, rfl, correct.verifies kp⟩
  | secp256k1 secp =>
    intro sk
    refine ⟨secp.fromSecretKey sk, ?_, ?_⟩
    · exact mapError_eq_ok_iff.mpr (correct.fromSlice_serialize _)
    · intro t
      have hread := correct.fromCompact_serializeCompact (secp.signEcdsa (secp.sha256 t) sk)
      have hverify := correct.verifies sk (secp.sha256 t)
      simp only [Variant.identity, Secp256k1Signing.identity, hread, hverify]

variable {H : Hpke} {I : Identity}

/-- The client seals to the server's key, and the server allows the client. -/
structure Allowed (client : Client H I) (server : Server H I) : Prop where
  serverPk : client.serverPk = H.skToPk server.sk
  allowed : I.pubkey client.id ∈ server.allowlist

/-- The client pins the server's identity. -/
def Pinned (client : Client H I) (server : Server H I) : Prop :=
  I.readKey (I.pubkey server.id) = .ok client.serverId

section
variable {LowOrder : H.PublicKey → Prop} {client : Client H I} {server : Server H I}

/-- What an allowed client frames, its server accepts. -/
theorem openRequest_frameRequest (encodings : H.Encodings) (correct : H.CorrectBase)
    (encapsulates : H.Encapsulates LowOrder) (honest : ∀ sk, ¬ LowOrder (H.skToPk sk))
    (verifies : I.Verifies) (allowed : Allowed client server) (rng : H.Randomness)
    (replyPk : H.PublicKey) (body : Bytes) :
    ∃ enc ct, client.frameRequest rng replyPk body = .ok (enc, ct) ∧
      server.openRequest enc ct = .ok (replyPk, body) := by
  unfold Client.frameRequest
  rw [allowed.serverPk]
  obtain ⟨⟨enc, ct⟩, hseal⟩ := (exists_sealBase_iff encapsulates).mpr (honest server.sk)
  obtain ⟨clientId, hread, hverify⟩ := verifies client.id
  refine ⟨enc, ct, hseal, ?_⟩
  apply openRequest_eq_ok_iff.mpr
  exact ⟨I.pubkey client.id, _, H.pkToBytes replyPk, clientId, openBase_sealBase correct hseal,
    (I.sign client.id _).2, encodings.pk_length replyPk, allowed.allowed, hread, hverify _,
    encodings.pk_from_to replyPk⟩

/-- What a server frames for a reply key, the holder of that key accepts. -/
theorem openResponse_frameResponse (correct : H.CorrectBase)
    (encapsulates : H.Encapsulates LowOrder) (honest : ∀ sk, ¬ LowOrder (H.skToPk sk))
    (verifies : I.Verifies) (pinned : Pinned client server) (rng : H.Randomness)
    (replySk : H.PrivateKey) {kb : {b : Bytes // b.length = PUBLIC_KEY_LEN}}
    (hkb : kb.1 = H.pkToBytes (H.skToPk replySk)) (body : Bytes) :
    ∃ enc ct, server.frameResponse rng (H.skToPk replySk) body = .ok (enc, ct) ∧
      client.openResponse replySk kb enc ct = .ok body := by
  unfold Server.frameResponse
  obtain ⟨⟨enc, ct⟩, hseal⟩ := (exists_sealBase_iff encapsulates).mpr (honest replySk)
  obtain ⟨serverId, hread, hverify⟩ := verifies server.id
  obtain rfl := Except.ok.inj (hread.symm.trans pinned)
  refine ⟨enc, ct, hseal, ?_⟩
  apply openResponse_eq_ok_iff.mpr
  refine ⟨_, openBase_sealBase correct hseal, (I.sign server.id _).2, ?_⟩
  rw [hkb]
  exact hverify _

end

theorem ed25519_openRequest_iff {ring : Ring} {server : Server H (Ed25519.identity ring)}
    {enc : H.EncappedKey} {ct body : Bytes} {replyPk : H.PublicKey} :
    Ed25519.openRequest server enc ct = .ok (replyPk, body) ↔
      ∃ (id : {b : Bytes // b.length = 32}) (sig kb : Bytes),
        openBase H server.sk INFO_REQUEST enc ct = .ok (id.1 ++ sig ++ kb ++ body) ∧
        sig.length = 64 ∧ kb.length = 32 ∧ id ∈ server.allowlist ∧
        ring.verify id (Ed25519.requestTranscript kb body) sig = true ∧
        H.pkFromBytes kb = .ok replyPk := by
  rw [Ed25519.openRequest_eq, openRequest_eq_ok_iff]
  constructor
  · rintro ⟨id, sig, kb, clientId, hopen, hsig, hkb, hmem, hread, hverify, hpk⟩
    obtain rfl := Except.ok.inj hread
    exact ⟨id, sig, kb, hopen, hsig, hkb, hmem, hverify, hpk⟩
  · rintro ⟨id, sig, kb, hopen, hsig, hkb, hmem, hverify, hpk⟩
    exact ⟨id, sig, kb, id, hopen, hsig, hkb, hmem, rfl, hverify, hpk⟩

/-- The secp256k1 variant reads the identity as a curve point besides. -/
theorem secp256k1_openRequest_iff {secp : Secp256k1}
    {server : Server H (Secp256k1Signing.identity secp)} {enc : H.EncappedKey} {ct body : Bytes}
    {replyPk : H.PublicKey} :
    Secp256k1Signing.openRequest server enc ct = .ok (replyPk, body) ↔
      ∃ (id : {b : Bytes // b.length = 33}) (sig kb : Bytes) (clientId : secp.PublicKey),
        openBase H server.sk INFO_REQUEST enc ct = .ok (id.1 ++ sig ++ kb ++ body) ∧
        sig.length = 64 ∧ kb.length = 32 ∧ id ∈ server.allowlist ∧
        secp.fromSlice id = .ok clientId ∧
        (Secp256k1Signing.identity secp).verify clientId
          (Secp256k1Signing.requestTranscript kb body) sig = true ∧
        H.pkFromBytes kb = .ok replyPk := by
  rw [Secp256k1Signing.openRequest_eq, openRequest_eq_ok_iff]
  constructor
  · rintro ⟨id, sig, kb, clientId, hopen, hsig, hkb, hmem, hread, hverify, hpk⟩
    exact ⟨id, sig, kb, clientId, hopen, hsig, hkb, hmem, mapError_eq_ok_iff.mp hread, hverify,
      hpk⟩
  · rintro ⟨id, sig, kb, clientId, hopen, hsig, hkb, hmem, hread, hverify, hpk⟩
    exact ⟨id, sig, kb, clientId, hopen, hsig, hkb, hmem, mapError_eq_ok_iff.mpr hread, hverify,
      hpk⟩

/-- **Framing is exact, and round trips.** Each variant accepts exactly the payloads that are
laid out and signed as a request. Over a correct crate, what an allowed client frames its server
gets back, and a client that pins the server's identity gets back the server's replies. -/
theorem framing_exact :
    (∀ ring (server : Server H (Ed25519.identity ring)) enc ct replyPk body,
      Ed25519.openRequest server enc ct = .ok (replyPk, body) ↔
        ∃ (id : {b : Bytes // b.length = 32}) (sig kb : Bytes),
          openBase H server.sk INFO_REQUEST enc ct = .ok (id.1 ++ sig ++ kb ++ body) ∧
          sig.length = 64 ∧ kb.length = 32 ∧ id ∈ server.allowlist ∧
          ring.verify id (Ed25519.requestTranscript kb body) sig = true ∧
          H.pkFromBytes kb = .ok replyPk) ∧
    (∀ secp (server : Server H (Secp256k1Signing.identity secp)) enc ct replyPk body,
      Secp256k1Signing.openRequest server enc ct = .ok (replyPk, body) ↔
        ∃ (id : {b : Bytes // b.length = 33}) (sig kb : Bytes) (clientId : secp.PublicKey),
          openBase H server.sk INFO_REQUEST enc ct = .ok (id.1 ++ sig ++ kb ++ body) ∧
          sig.length = 64 ∧ kb.length = 32 ∧ id ∈ server.allowlist ∧
          secp.fromSlice id = .ok clientId ∧
          (Secp256k1Signing.identity secp).verify clientId
            (Secp256k1Signing.requestTranscript kb body) sig = true ∧
          H.pkFromBytes kb = .ok replyPk) ∧
    ∀ LowOrder, H.Encodings → H.CorrectBase → H.Encapsulates LowOrder →
      (∀ sk, ¬ LowOrder (H.skToPk sk)) →
      ∀ (v : Variant) (client : Client H v.identity) (server : Server H v.identity), v.Correct →
        (Allowed client server → ∀ rng replyPk body, ∃ enc ct,
          client.frameRequest rng replyPk body = .ok (enc, ct) ∧
            v.openRequest server enc ct = .ok (replyPk, body)) ∧
        (Pinned client server →
          ∀ rng replySk (kb : {b : Bytes // b.length = PUBLIC_KEY_LEN}) body,
            kb.1 = H.pkToBytes (H.skToPk replySk) → ∃ enc ct,
              server.frameResponse rng (H.skToPk replySk) body = .ok (enc, ct) ∧
                client.openResponse replySk kb enc ct = .ok body) := by
  refine ⟨?_, ?_, ?_⟩
  · intro ring server enc ct replyPk body
    exact ed25519_openRequest_iff
  · intro secp server enc ct replyPk body
    exact secp256k1_openRequest_iff
  · intro LowOrder encodings correct encapsulates honest v client server hv
    constructor
    · intro allowed rng replyPk body
      rw [v.openRequest_eq]
      exact openRequest_frameRequest encodings correct encapsulates honest
        (Variant.identity_verifies hv) allowed rng replyPk body
    · intro pinned rng replySk kb body hkb
      exact openResponse_frameResponse correct encapsulates honest
        (Variant.identity_verifies hv) pinned rng replySk hkb body

namespace Demo
open Transparent (key)

theorem ring_correct : ring.Correct where
  verifies _ _ := decide_eq_true rfl

theorem key_one_useful : key 1 ≠ Transparent.lowOrder := by decide

def framingServer : Server Clamped.hpke (Variant.ed25519 ring).identity where
  sk := (⟨key 1, key_one_useful⟩ : Clamped.Scalar)
  id := (6 : UInt8)
  allowlist := [ring.publicKey (5 : UInt8)]

def framingClient : Client Clamped.hpke (Variant.ed25519 ring).identity where
  id := (5 : UInt8)
  serverPk := key 1
  serverId := ring.publicKey (6 : UInt8)

theorem framing_allowed : Allowed framingClient framingServer where
  serverPk := rfl
  allowed := List.mem_singleton_self _

end Demo

/-- A request with body 7 for the reply key 4, and the reply with body 8. -/
theorem framing_exact_demo :
    (∃ enc ct, Demo.framingClient.frameRequest (Transparent.key 3) (Transparent.key 4) [7] =
        .ok (enc, ct) ∧
      (Variant.ed25519 Demo.ring).openRequest Demo.framingServer enc ct =
        .ok (Transparent.key 4, [7])) ∧
    ∃ enc ct, Demo.framingServer.frameResponse (Transparent.key 3) (Transparent.key 4) [8] =
        .ok (enc, ct) ∧
      Demo.framingClient.openResponse (⟨Transparent.key 4, by decide⟩ : Clamped.Scalar)
        ⟨Transparent.key 4, (Transparent.key 4).2⟩ enc ct = .ok [8] := by
  have ⟨requests, replies⟩ := framing_exact.2.2 _ Clamped.encodings Clamped.correctBase
    Clamped.encapsulates Clamped.honest (.ed25519 Demo.ring) Demo.framingClient
    Demo.framingServer Demo.ring_correct
  constructor
  · exact requests Demo.framing_allowed (Transparent.key 3) (Transparent.key 4) [7]
  · exact replies rfl (Transparent.key 3) (⟨Transparent.key 4, by decide⟩ : Clamped.Scalar) _ [8]
      rfl

end HpkeDemo.Signing
