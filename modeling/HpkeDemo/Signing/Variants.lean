import HpkeDemo.Signing.Identity

/-! The ed25519 and the secp256k1 variant: their `identity` modules over the `ring` and
`secp256k1` crates, and their `open_request`. -/
namespace HpkeDemo.Signing

/-- Texts that part where they first differ stay apart however they go on. -/
theorem append_ne_of_take_ne {a b : Bytes} {n : Nat} (ha : n ≤ a.length) (hb : n ≤ b.length)
    (h : a.take n ≠ b.take n) (x y : Bytes) : a ++ x ≠ b ++ y := by
  intro heq
  have := congrArg (List.take n) heq
  rw [List.take_append_of_le_length ha, List.take_append_of_le_length hb] at this
  exact h this

/-- ed25519 of the `ring` crate. -/
structure Ring where
  Ed25519KeyPair : Type
  publicKey : Ed25519KeyPair → {b : Bytes // b.length = 32}
  sign : Ed25519KeyPair → Bytes → {b : Bytes // b.length = 64}
  verify : (publicKey message signature : Bytes) → Bool

/-- ECDSA of the `secp256k1` crate, and SHA-256. -/
structure Secp256k1 where
  SecretKey : Type
  PublicKey : Type
  Signature : Type
  fromSecretKey : SecretKey → PublicKey
  serialize : PublicKey → {b : Bytes // b.length = 33}
  fromSlice : Bytes → Except String PublicKey
  serializeCompact : Signature → {b : Bytes // b.length = 64}
  fromCompact : Bytes → Option Signature
  signEcdsa : (digest : Bytes) → SecretKey → Signature
  verifyEcdsa : (digest : Bytes) → Signature → PublicKey → Bool
  sha256 : Bytes → Bytes

namespace Ed25519

def PK_LEN : Nat := 32
def REQUEST_DOMAIN : Bytes := Bytes.ofString "hpke-demo ed25519 request"
def RESPONSE_DOMAIN : Bytes := Bytes.ofString "hpke-demo ed25519 response"

/-- `mod identity`. Its identities are bytes, and are read as they are. -/
def identity (ring : Ring) : Identity where
  SigningKey := ring.Ed25519KeyPair
  VerifyingKey := {b : Bytes // b.length = PK_LEN}
  PK_LEN := PK_LEN
  REQUEST_DOMAIN := REQUEST_DOMAIN
  RESPONSE_DOMAIN := RESPONSE_DOMAIN
  domains_apart := append_ne_of_take_ne (n := 21) (by decide) (by decide) (by decide)
  pubkey := ring.publicKey
  readKey := .ok
  sign := ring.sign
  verify id transcript sig := ring.verify id transcript sig

/-- `Server::open_request` of the ed25519 variant. -/
def openRequest {H : Hpke} {ring : Ring} (server : Server H (identity ring)) (enc : H.EncappedKey)
    (ciphertext : Bytes) : Except String (H.PublicKey × Bytes) := do
  let payload ← openBase H server.sk INFO_REQUEST enc ciphertext
  if hlen : payload.length < PK_LEN + SIG_LEN + PUBLIC_KEY_LEN then
    .error "malformed request"
  else
    let id : (identity ring).Id := ⟨payload.take PK_LEN, by simp [identity]; omega⟩
    let rest := payload.drop PK_LEN
    let sig := rest.take SIG_LEN
    let replyPkBytes := (rest.drop SIG_LEN).take PUBLIC_KEY_LEN
    let body := (rest.drop SIG_LEN).drop PUBLIC_KEY_LEN
    if id ∉ server.allowlist then
      .error "unauthorized: client not on allowlist"
    else if !(identity ring).verify id
        ((identity ring).requestTranscript replyPkBytes body) sig then
      .error "bad client signature"
    else
      let replyPk ← pkFromBytes H replyPkBytes
      return (replyPk, body)

theorem openRequest_eq {H : Hpke} {ring : Ring} (server : Server H (identity ring)) :
    openRequest server = server.openRequest := rfl

end Ed25519

namespace Secp256k1Signing

def PK_LEN : Nat := 33
def REQUEST_DOMAIN : Bytes := Bytes.ofString "hpke-demo secp256k1 request"
def RESPONSE_DOMAIN : Bytes := Bytes.ofString "hpke-demo secp256k1 response"

/-- `mod identity`. Signatures are ECDSA over the SHA-256 of the transcript. -/
def identity (secp : Secp256k1) : Identity where
  SigningKey := secp.SecretKey
  VerifyingKey := secp.PublicKey
  PK_LEN := PK_LEN
  REQUEST_DOMAIN := REQUEST_DOMAIN
  RESPONSE_DOMAIN := RESPONSE_DOMAIN
  domains_apart := append_ne_of_take_ne (n := 23) (by decide) (by decide) (by decide)
  pubkey sk := secp.serialize (secp.fromSecretKey sk)
  readKey id := (secp.fromSlice id).mapError ("bad client key: " ++ ·)
  sign sk transcript := secp.serializeCompact (secp.signEcdsa (secp.sha256 transcript) sk)
  verify pk transcript sig :=
    match secp.fromCompact sig with
    | some sig => secp.verifyEcdsa (secp.sha256 transcript) sig pk
    | none => false

/-- `Server::open_request` of the secp256k1 variant, which reads the identity as a curve
point before it verifies. -/
def openRequest {H : Hpke} {secp : Secp256k1} (server : Server H (identity secp))
    (enc : H.EncappedKey) (ciphertext : Bytes) : Except String (H.PublicKey × Bytes) := do
  let payload ← openBase H server.sk INFO_REQUEST enc ciphertext
  if hlen : payload.length < PK_LEN + SIG_LEN + PUBLIC_KEY_LEN then
    .error "malformed request"
  else
    let id : (identity secp).Id := ⟨payload.take PK_LEN, by simp [identity]; omega⟩
    let rest := payload.drop PK_LEN
    let sig := rest.take SIG_LEN
    let replyPkBytes := (rest.drop SIG_LEN).take PUBLIC_KEY_LEN
    let body := (rest.drop SIG_LEN).drop PUBLIC_KEY_LEN
    if id ∉ server.allowlist then
      .error "unauthorized: client not on allowlist"
    else
      let clientId ← (secp.fromSlice id).mapError ("bad client key: " ++ ·)
      if !(identity secp).verify clientId
          ((identity secp).requestTranscript replyPkBytes body) sig then
        .error "bad client signature"
      else
        let replyPk ← pkFromBytes H replyPkBytes
        return (replyPk, body)

theorem openRequest_eq {H : Hpke} {secp : Secp256k1} (server : Server H (identity secp)) :
    openRequest server = server.openRequest := rfl

end Secp256k1Signing

/-- One of the two signing examples. -/
inductive Variant where
  | ed25519 (ring : Ring)
  | secp256k1 (secp : Secp256k1)

namespace Variant

def identity : Variant → Identity
  | .ed25519 ring => Ed25519.identity ring
  | .secp256k1 secp => Secp256k1Signing.identity secp

def openRequest {H : Hpke} : (variant : Variant) → Server H variant.identity → H.EncappedKey →
    Bytes → Except String (H.PublicKey × Bytes)
  | .ed25519 _ => Ed25519.openRequest
  | .secp256k1 _ => Secp256k1Signing.openRequest

theorem openRequest_eq {H : Hpke} (variant : Variant) (server : Server H variant.identity) :
    variant.openRequest server = server.openRequest := by
  cases variant with
  | ed25519 ring => exact Ed25519.openRequest_eq server
  | secp256k1 secp => exact Secp256k1Signing.openRequest_eq server

end Variant
end HpkeDemo.Signing
