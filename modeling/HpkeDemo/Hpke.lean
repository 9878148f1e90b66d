import HpkeDemo.Bytes

/-! The `hpke` crate as the demo uses it: one cipher suite, one-shot contexts, and
the OS randomness as an argument. The crate's errors are carried as Debug texts. -/
namespace HpkeDemo

inductive OpModeS (PrivateKey PublicKey PskBundle : Type) where
  | base
  | authPsk (sender : PrivateKey × PublicKey) (bundle : PskBundle)

inductive OpModeR (PublicKey PskBundle : Type) where
  | base
  | authPsk (senderPk : PublicKey) (bundle : PskBundle)

structure Hpke where
  PrivateKey : Type
  PublicKey : Type
  EncappedKey : Type
  PskBundle : Type
  SenderContext : Type
  ReceiverContext : Type
  Randomness : Type
  skToPk : PrivateKey → PublicKey
  pkToBytes : PublicKey → Bytes
  pkFromBytes : Bytes → Except String PublicKey
  encToBytes : EncappedKey → Bytes
  encFromBytes : Bytes → Except String EncappedKey
  pskBundle : Bytes → Bytes → Except String PskBundle
  setupSender : OpModeS PrivateKey PublicKey PskBundle → PublicKey → Bytes → Randomness →
    Except String (EncappedKey × SenderContext)
  setupReceiver : OpModeR PublicKey PskBundle → PrivateKey → EncappedKey → Bytes →
    Except String ReceiverContext
  ctxSeal : SenderContext → (plaintext aad : Bytes) → Except String Bytes
  ctxOpen : ReceiverContext → (ciphertext aad : Bytes) → Except String Bytes

/-- An X25519 public key or encapsulated key is 32 bytes, carried as they are. -/
structure Hpke.Encodings (H : Hpke) : Prop where
  pk_length : ∀ pk, (H.pkToBytes pk).length = 32
  pk_from_to : ∀ pk, H.pkFromBytes (H.pkToBytes pk) = .ok pk
  enc_length : ∀ enc, (H.encToBytes enc).length = 32
  enc_from_to : ∀ enc, H.encFromBytes (H.encToBytes enc) = .ok enc
  enc_to_from : ∀ {b enc}, H.encFromBytes b = .ok enc → H.encToBytes enc = b

/-- Ideal AuthPSK: what opens was sealed by a holder of the sender's key, with the
same psk and info, to the recipient; and one sealed message binds them all. -/
structure Hpke.IdealAuthPsk (H : Hpke) : Prop where
  opened_was_sealed : ∀ {skR pkS bundle enc info ctx m ct},
    H.setupReceiver (.authPsk pkS bundle) skR enc info = .ok ctx → H.ctxOpen ctx ct [] = .ok m →
    ∃ skS rng ctxS, H.skToPk skS = pkS ∧
      H.setupSender (.authPsk (skS, pkS) bundle) (H.skToPk skR) info rng = .ok (enc, ctxS) ∧
      H.ctxSeal ctxS m [] = .ok ct
  sealed_binds : ∀ {s s' bundle bundle' pkR pkR' info info' rng rng' enc ctx ctx' m m' ct},
    H.setupSender (.authPsk s bundle) pkR info rng = .ok (enc, ctx) →
    H.setupSender (.authPsk s' bundle') pkR' info' rng' = .ok (enc, ctx') →
    H.ctxSeal ctx m [] = .ok ct → H.ctxSeal ctx' m' [] = .ok ct →
    s.2 = s'.2 ∧ bundle = bundle' ∧ pkR = pkR' ∧ info = info' ∧ m = m'
  bundle_binds : ∀ {psk psk' pskId pskId' bundle},
    H.pskBundle psk pskId = .ok bundle → H.pskBundle psk' pskId' = .ok bundle →
    psk = psk' ∧ pskId = pskId'

/-- Ideal base mode: what opens was sealed to the recipient under the same info, by
anyone; and one sealed message binds recipient, info and plaintext. -/
structure Hpke.IdealBase (H : Hpke) : Prop where
  opened_was_sealed : ∀ {skR enc info ctx m ct},
    H.setupReceiver .base skR enc info = .ok ctx → H.ctxOpen ctx ct [] = .ok m →
    ∃ rng ctxS, H.setupSender .base (H.skToPk skR) info rng = .ok (enc, ctxS) ∧
      H.ctxSeal ctxS m [] = .ok ct
  sealed_binds : ∀ {pkR pkR' info info' rng rng' enc ctx ctx' m m' ct},
    H.setupSender .base pkR info rng = .ok (enc, ctx) →
    H.setupSender .base pkR' info' rng' = .ok (enc, ctx') →
    H.ctxSeal ctx m [] = .ok ct → H.ctxSeal ctx' m' [] = .ok ct →
    pkR = pkR' ∧ info = info' ∧ m = m'

/-- Opening with the recipient's key undoes sealing. -/
structure Hpke.Correct (H : Hpke) : Prop where
  opens_sealed : ∀ {skS skR bundle info rng enc ctxS m ct},
    H.setupSender (.authPsk (skS, H.skToPk skS) bundle) (H.skToPk skR) info rng = .ok (enc, ctxS) →
    H.ctxSeal ctxS m [] = .ok ct →
    ∃ ctx, H.setupReceiver (.authPsk (H.skToPk skS) bundle) skR enc info = .ok ctx ∧
      H.ctxOpen ctx ct [] = .ok m

/-- Base mode opens with the recipient's key what was sealed to it. -/
structure Hpke.CorrectBase (H : Hpke) : Prop where
  opens_sealed : ∀ {skR info rng enc ctxS m ct},
    H.setupSender .base (H.skToPk skR) info rng = .ok (enc, ctxS) →
    H.ctxSeal ctxS m [] = .ok ct →
    ∃ ctx, H.setupReceiver .base skR enc info = .ok ctx ∧ H.ctxOpen ctx ct [] = .ok m

/-- `PskBundle::new` refuses a psk without an id and an id without a psk, no other. -/
def Hpke.PskRule (H : Hpke) : Prop :=
  ∀ psk pskId, (∃ bundle, H.pskBundle psk pskId = .ok bundle) ↔ (psk = [] ↔ pskId = [])

/-- A sender is refused exactly for a recipient key of low order, and a fresh context seals.
`LowOrder` says no more of a key than that: it stands for the keys with which every
Diffie-Hellman result is all zero, but no result is modelled here. -/
structure Hpke.Encapsulates (H : Hpke) (LowOrder : H.PublicKey → Prop) : Prop where
  setup_ok_iff : ∀ {mode pkR info rng},
    (∃ out, H.setupSender mode pkR info rng = .ok out) ↔ ¬ LowOrder pkR
  seals : ∀ {mode pkR info rng enc ctx}, H.setupSender mode pkR info rng = .ok (enc, ctx) →
    ∀ m, ∃ ct, H.ctxSeal ctx m [] = .ok ct

/-- A failed `expect`. -/
structure Panic where
  message : String
  deriving DecidableEq, Repr

def expect {α : Type} (message : String) : Except String α → Except Panic α
  | .ok a => .ok a
  | .error e => .error ⟨message ++ ": " ++ e⟩

/-- What a fallible function that may also panic ends in, short of a result. -/
inductive Failure where
  | err (message : String)
  | panic (panic : Panic)
  deriving DecidableEq, Repr

/-- The error of what must not succeed. -/
def expectErr {α : Type} (message : String) : Except String α → Except Failure String
  | .ok _ => .error (.err message)
  | .error e => .ok e

@[simp] theorem expect_eq_ok_iff {α : Type} {message : String} {x : Except String α} {a : α} :
    expect message x = .ok a ↔ x = .ok a := by
  cases x <;> simp [expect]

@[simp] theorem mapError_eq_ok_iff {ε ε' α : Type} {f : ε → ε'} {x : Except ε α} {a : α} :
    x.mapError f = .ok a ↔ x = .ok a := by
  cases x <;> simp [Except.mapError]

theorem bind_eq_ok_iff {ε α β : Type} {x : Except ε α} {f : α → Except ε β} {b : β} :
    x >>= f = .ok b ↔ ∃ a, x = .ok a ∧ f a = .ok b := by
  cases x <;> simp [bind, Except.bind]

end HpkeDemo
