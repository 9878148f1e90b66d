import HpkeDemo.PrefixFree
import HpkeDemo.Signing.Variants

/-! The transcripts that are signed, of both directions and both variants: a domain, the
reply key and the body, one after the other. -/
namespace HpkeDemo.Signing

namespace Ed25519

def requestTranscript (replyPkBytes body : Bytes) : Bytes :=
  REQUEST_DOMAIN ++ replyPkBytes ++ body

def responseTranscript (replyPkBytes body : Bytes) : Bytes :=
  RESPONSE_DOMAIN ++ replyPkBytes ++ body

theorem identity_transcripts (ring : Ring) :
    (identity ring).requestTranscript = requestTranscript ∧
      (identity ring).responseTranscript = responseTranscript := ⟨rfl, rfl⟩

end Ed25519

namespace Secp256k1Signing

def requestTranscript (replyPkBytes body : Bytes) : Bytes :=
  REQUEST_DOMAIN ++ replyPkBytes ++ body

def responseTranscript (replyPkBytes body : Bytes) : Bytes :=
  RESPONSE_DOMAIN ++ replyPkBytes ++ body

theorem identity_transcripts (secp : Secp256k1) :
    (identity secp).requestTranscript = requestTranscript ∧
      (identity secp).responseTranscript = responseTranscript := ⟨rfl, rfl⟩

end Secp256k1Signing

/-- The four transcript functions. -/
inductive TranscriptFn where
  | ed25519Request
  | ed25519Response
  | secp256k1Request
  | secp256k1Response
  deriving DecidableEq, Repr

namespace TranscriptFn

def domain : TranscriptFn → Bytes
  | .ed25519Request => Ed25519.REQUEST_DOMAIN
  | .ed25519Response => Ed25519.RESPONSE_DOMAIN
  | .secp256k1Request => Secp256k1Signing.REQUEST_DOMAIN
  | .secp256k1Response => Secp256k1Signing.RESPONSE_DOMAIN

def transcript : TranscriptFn → (replyPkBytes body : Bytes) → Bytes
  | .ed25519Request => Ed25519.requestTranscript
  | .ed25519Response => Ed25519.responseTranscript
  | .secp256k1Request => Secp256k1Signing.requestTranscript
  | .secp256k1Response => Secp256k1Signing.responseTranscript

theorem transcript_eq (f : TranscriptFn) (replyPkBytes body : Bytes) :
    f.transcript replyPkBytes body = f.domain ++ replyPkBytes ++ body := by
  cases f <;> rfl

/-- The domains share long beginnings, but none is the beginning of another. -/
theorem domain_prefixFree : PrefixFree domain := by
  intro f g h
  cases f <;> cases g <;> first | rfl | exact absurd h (by decide)

end TranscriptFn

/-- **Signing transcripts are unambiguous.** A transcript determines its function, reply key
and body. -/
theorem transcripts_unambiguous (f g : TranscriptFn)
    (kb kb' : {b : Bytes // b.length = PUBLIC_KEY_LEN}) (body body' : Bytes) :
    f.transcript kb body = g.transcript kb' body' ↔ f = g ∧ kb = kb' ∧ body = body' := by
  rw [f.transcript_eq, g.transcript_eq]
  exact TranscriptFn.domain_prefixFree.framed_inj_iff

end HpkeDemo.Signing
