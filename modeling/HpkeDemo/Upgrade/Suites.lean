import HpkeDemo.Channel
import HpkeDemo.Connect.ConnString

/-! The two suites of `bwc_post_quantum_upgrade.rs`: `v1` over the `hpke` crate, and `v2`
over the `x_wing`, `hkdf` and `chacha20poly1305` crates. -/
namespace HpkeDemo.Upgrade

namespace V1

def PUBLIC_KEY_LEN : Nat := 32
def INFO : Bytes := Bytes.ofString "bwc-v1 request"
def PSK_ID : Bytes := Bytes.ofString "bwc-connection"

variable (H : Hpke)

def pkBytes (pk : H.PublicKey) : Bytes := H.pkToBytes pk

def pkFromBytes (bytes : Bytes) : Except String H.PublicKey :=
  (H.pkFromBytes bytes).mapError ("malformed KEM public key: " ++ ·)

/-- `v1::seal`; `rng` is what the OS random generator yields. -/
def sealWire (rng : H.Randomness) (walletPk : H.PublicKey) (client : H.PrivateKey × H.PublicKey)
    (secret plaintext : Bytes) : Except Panic Bytes := do
  let psk ← expect "non-empty psk + psk_id" (H.pskBundle secret PSK_ID)
  let mode := .authPsk client psk
  let (enc, ctx) ← expect "sender setup" (H.setupSender mode walletPk INFO rng)
  let ciphertext ← expect "seal" (H.ctxSeal ctx plaintext [])
  return H.encToBytes enc ++ ciphertext

/-- `v1::open`. -/
def openWire (walletSk : H.PrivateKey) (clientPk : H.PublicKey) (secret wire : Bytes) :
    Except String Bytes := do
  if wire.length < PUBLIC_KEY_LEN then
    throw "v1 message too short"
  let (encBytes, ciphertext) := wire.splitAt PUBLIC_KEY_LEN
  let enc ← (H.encFromBytes encBytes).mapError ("malformed enc: " ++ ·)
  let psk ← (H.pskBundle secret PSK_ID).mapError ("psk bundle: " ++ ·)
  let mode := .authPsk clientPk psk
  let ctx ← (H.setupReceiver mode walletSk enc INFO).mapError ("receiver setup: " ++ ·)
  (H.ctxOpen ctx ciphertext []).mapError fun _ => "v1 authentication/decryption failed"

variable {H} {rng : H.Randomness} {walletPk clientPk : H.PublicKey} {walletSk : H.PrivateKey}
  {client : H.PrivateKey × H.PublicKey} {secret m wire : Bytes}

/-- `v1` seals as the library does with the info of requests. -/
theorem sealWire_eq : sealWire H rng walletPk client secret m =
    Channel.sealWire H rng client walletPk secret Connect.INFO_REQUEST m := rfl

/-- `v1` opens what the library does with the info of requests; the error texts differ. -/
theorem openWire_eq_ok_iff : openWire H walletSk clientPk secret wire = .ok m ↔
    Channel.openWire H walletSk clientPk secret Connect.INFO_REQUEST wire = .ok m := by
  rw [Channel.openWire_eq_ok_iff]
  simp only [openWire, List.splitAt_eq]
  by_cases hlen : wire.length < PUBLIC_KEY_LEN
  · have hshort : ¬ Channel.KEM_PUBLIC_KEY_LEN ≤ wire.length := Nat.not_le.mpr hlen
    simp [hlen, hshort, throw, throwThe, MonadExceptOf.throw, bind, Except.bind]
  · have hlong : Channel.KEM_PUBLIC_KEY_LEN ≤ wire.length := Nat.not_lt.mp hlen
    simp only [hlen, hlong, if_false, bind_eq_ok_iff, mapError_eq_ok_iff, true_and]
    constructor
    · rintro ⟨enc, henc, psk, hpsk, ctx, hctx, hm⟩
      exact ⟨enc, psk, ctx, henc, hpsk, hctx, hm⟩
    · rintro ⟨enc, psk, ctx, henc, hpsk, hctx, hm⟩
      exact ⟨enc, henc, psk, hpsk, ctx, hctx, hm⟩

/-- So it opens what the library seals. -/
theorem openWire_sealWire {clientSk : H.PrivateKey} (encodings : H.Encodings)
    (correct : H.Correct) (h : Channel.sealWire H rng (clientSk, H.skToPk clientSk)
      (H.skToPk walletSk) secret Connect.INFO_REQUEST m = .ok wire) :
    openWire H walletSk (H.skToPk clientSk) secret wire = .ok m := by
  rw [openWire_eq_ok_iff]
  exact Channel.openWire_sealWire encodings correct h

end V1

namespace V2

def ENCAPSULATION_KEY_SIZE : Nat := 1216
def CIPHERTEXT_SIZE : Nat := 1120
def INFO : Bytes := Bytes.ofString "bwc-v2 request"

/-- The crates behind `v2`: the X-Wing KEM, HKDF-SHA256 (`extract` is `Hkdf::new` with a
salt) and ChaCha20Poly1305. -/
structure Crates where
  EncapsulationKey : Type
  DecapsulationKey : Type
  Randomness : Type
  Prk : Type
  encapsulationKey : DecapsulationKey → EncapsulationKey
  toBytes : EncapsulationKey → Bytes
  new : {b : Bytes // b.length = ENCAPSULATION_KEY_SIZE} → Except String EncapsulationKey
  encapsulate : EncapsulationKey → Randomness →
    {b : Bytes // b.length = CIPHERTEXT_SIZE} × Bytes
  decapsulate : DecapsulationKey → {b : Bytes // b.length = CIPHERTEXT_SIZE} → Bytes
  extract : (salt ikm : Bytes) → Prk
  expand : Prk → (info : Bytes) → (length : Nat) → Except String Bytes
  encrypt : (key nonce plaintext : Bytes) → Except String Bytes
  decrypt : (key nonce ciphertext : Bytes) → Except String Bytes

/-- `try_from` of a slice into an array of `n` bytes. -/
def tryFrom (n : Nat) (bytes : Bytes) : Except String {b : Bytes // b.length = n} :=
  if h : bytes.length = n then .ok ⟨bytes, h⟩ else .error "TryFromSliceError"

variable (C : Crates)

def ekBytes (ek : C.EncapsulationKey) : Bytes := C.toBytes ek

/-- `v2::derive`, the AEAD key and nonce. -/
def derive (shared secret : Bytes) : Except Panic (Bytes × Bytes) := do
  let okm ← expect "HKDF expand of 44 bytes never fails"
    (C.expand (C.extract secret shared) INFO 44)
  return (okm.take 32, okm.drop 32)

/-- `v2::seal`; `rng` is what the encapsulation draws. -/
def sealWire (rng : C.Randomness) (walletEkBytes secret plaintext : Bytes) :
    Except Failure Bytes := do
  let key ← (tryFrom ENCAPSULATION_KEY_SIZE walletEkBytes).mapError
    fun _ => .err "bad X-Wing key length"
  let ek ← (C.new key).mapError fun _ => .err "invalid X-Wing key"
  let (ct, shared) := C.encapsulate ek rng
  let (aeadKey, nonce) ← (derive C shared secret).mapError .panic
  let sealed ← (C.encrypt aeadKey nonce plaintext).mapError fun _ => .err "v2 seal failed"
  return ct.1 ++ sealed

/-- `v2::open`. -/
def openWire (dk : C.DecapsulationKey) (secret wire : Bytes) : Except Failure Bytes := do
  if wire.length < CIPHERTEXT_SIZE then
    throw (.err "v2 message too short")
  let (ctBytes, sealed) := wire.splitAt CIPHERTEXT_SIZE
  let ct ← (tryFrom CIPHERTEXT_SIZE ctBytes).mapError fun _ => .err "bad X-Wing ciphertext"
  let shared := C.decapsulate dk ct
  let (aeadKey, nonce) ← (derive C shared secret).mapError .panic
  (C.decrypt aeadKey nonce sealed).mapError fun _ =>
    .err "v2 authentication/decryption failed"

/-- The crates undo and read back what they do, and HKDF gives up to 255 blocks. -/
structure Crates.Correct (C : Crates) : Prop where
  toBytes_length : ∀ ek, (C.toBytes ek).length = ENCAPSULATION_KEY_SIZE
  new_toBytes : ∀ ek h, C.new ⟨C.toBytes ek, h⟩ = .ok ek
  decapsulates : ∀ dk rng, C.decapsulate dk (C.encapsulate (C.encapsulationKey dk) rng).1 =
    (C.encapsulate (C.encapsulationKey dk) rng).2
  expands : ∀ prk info n, n ≤ 255 * 32 → ∃ okm, C.expand prk info n = .ok okm ∧ okm.length = n
  encrypts : ∀ {key nonce : Bytes}, key.length = 32 → nonce.length = 12 → ∀ m,
    ∃ ct, C.encrypt key nonce m = .ok ct
  decrypts : ∀ {key nonce m ct}, C.encrypt key nonce m = .ok ct → C.decrypt key nonce ct = .ok m

/-- The AEAD opens nothing but what it made under the same key and nonce. -/
def Crates.Authentic (C : Crates) : Prop :=
  ∀ {key nonce ct m}, C.decrypt key nonce ct = .ok m → C.encrypt key nonce m = .ok ct

variable {C} {rng : C.Randomness} {dk : C.DecapsulationKey}
  {shared secret ekBytes m wire : Bytes}

theorem tryFrom_eq_ok_iff {n : Nat} {b : Bytes} {a : {b : Bytes // b.length = n}} :
    tryFrom n b = .ok a ↔ b = a.1 := by
  by_cases h : b.length = n
  · simp [tryFrom, h, Subtype.ext_iff]
  · simp only [tryFrom, h, dif_neg, not_false_eq_true, reduceCtorEq, false_iff]
    exact fun hb => h (hb ▸ a.2)

theorem exists_derive (correct : C.Correct) (shared secret : Bytes) :
    ∃ key nonce, derive C shared secret = .ok (key, nonce) ∧ key.length = 32 ∧
      nonce.length = 12 := by
  obtain ⟨okm, hokm, hlen⟩ := correct.expands (C.extract secret shared) INFO 44 (by decide)
  refine ⟨okm.take 32, okm.drop 32, ?_, ?_, ?_⟩
  · simp only [derive, hokm, expect, bind, Except.bind]
    rfl
  · rw [List.length_take, hlen]
    rfl
  · rw [List.length_drop, hlen]

theorem sealWire_eq_ok_iff : sealWire C rng ekBytes secret m = .ok wire ↔
    ∃ h ek key nonce ct, C.new ⟨ekBytes, h⟩ = .ok ek ∧
      derive C (C.encapsulate ek rng).2 secret = .ok (key, nonce) ∧
      C.encrypt key nonce m = .ok ct ∧ (C.encapsulate ek rng).1.1 ++ ct = wire := by
  simp only [sealWire, bind_eq_ok_iff, mapError_eq_ok_iff]
  constructor
  · rintro ⟨key, hkey, ek, hek, ⟨aeadKey, nonce⟩, hderive, ct, hct, hwire⟩
    obtain rfl := tryFrom_eq_ok_iff.mp hkey
    exact ⟨key.2, ek, aeadKey, nonce, ct, hek, hderive, hct, Except.ok.inj hwire⟩
  · rintro ⟨h, ek, key, nonce, ct, hek, hderive, hct, hwire⟩
    exact ⟨⟨ekBytes, h⟩, tryFrom_eq_ok_iff.mpr rfl, ek, hek, (key, nonce), hderive, ct, hct,
      congrArg _ hwire⟩

theorem openWire_eq_ok_iff : openWire C dk secret wire = .ok m ↔
    ∃ (kem : {b : Bytes // b.length = CIPHERTEXT_SIZE}) (ct key nonce : Bytes),
      wire = kem.1 ++ ct ∧ derive C (C.decapsulate dk kem) secret = .ok (key, nonce) ∧
      C.decrypt key nonce ct = .ok m := by
  simp only [openWire, List.splitAt_eq]
  by_cases hlen : wire.length < CIPHERTEXT_SIZE
  · rw [if_pos hlen]
    refine iff_of_false (by rintro ⟨⟩) ?_
    rintro ⟨kem, ct, key, nonce, rfl, _⟩
    rw [List.length_append, kem.2] at hlen
    omega
  · simp only [hlen, if_false, bind_eq_ok_iff, mapError_eq_ok_iff, tryFrom_eq_ok_iff]
    constructor
    · rintro ⟨kem, hkem, ⟨key, nonce⟩, hderive, hm⟩
      refine ⟨kem, wire.drop CIPHERTEXT_SIZE, key, nonce, ?_, hderive, hm⟩
      rw [← hkem, List.take_append_drop]
    · rintro ⟨kem, ct, key, nonce, rfl, hderive, hm⟩
      refine ⟨kem, List.take_left' kem.2, (key, nonce), hderive, ?_⟩
      rwa [List.drop_left' kem.2]

theorem sealWire_ne_panic (correct : C.Correct) (panic : Panic) :
    sealWire C rng ekBytes secret m ≠ .error (.panic panic) := by
  unfold sealWire
  cases hkey : tryFrom ENCAPSULATION_KEY_SIZE ekBytes with
  | error e => exact nofun
  | ok key =>
    cases hek : C.new key with
    | error e => simp [hek, Except.mapError, bind, Except.bind]
    | ok ek =>
      obtain ⟨aeadKey, nonce, hderive, _⟩ := exists_derive correct (C.encapsulate ek rng).2 secret
      cases hct : C.encrypt aeadKey nonce m <;>
        simp [hek, hderive, hct, Except.mapError, bind, Except.bind, pure, Except.pure]

theorem openWire_ne_panic (correct : C.Correct) (panic : Panic) :
    openWire C dk secret wire ≠ .error (.panic panic) := by
  unfold openWire
  by_cases hlen : wire.length < CIPHERTEXT_SIZE
  · rw [if_pos hlen]
    exact nofun
  · have hkem : (wire.take CIPHERTEXT_SIZE).length = CIPHERTEXT_SIZE := by
      rw [List.length_take]
      omega
    obtain ⟨key, nonce, hderive, _⟩ :=
      exists_derive correct (C.decapsulate dk ⟨_, hkem⟩) secret
    cases hm : C.decrypt key nonce (wire.drop CIPHERTEXT_SIZE) <;>
      simp [hlen, tryFrom, hkem, hderive, hm, Except.mapError, bind, Except.bind]

/-- `v2` seals for every key that reads, and what it seals it opens. -/
theorem exists_sealWire (correct : C.Correct) (dk : C.DecapsulationKey) (rng : C.Randomness)
    (secret m : Bytes) : ∃ wire,
      sealWire C rng (V2.ekBytes C (C.encapsulationKey dk)) secret m = .ok wire ∧
      openWire C dk secret wire = .ok m := by
  obtain ⟨key, nonce, hderive, hkey, hnonce⟩ :=
    exists_derive correct (C.encapsulate (C.encapsulationKey dk) rng).2 secret
  obtain ⟨ct, hct⟩ := correct.encrypts hkey hnonce m
  refine ⟨_, sealWire_eq_ok_iff.mpr ⟨correct.toBytes_length _, _, key, nonce, ct,
    correct.new_toBytes _ _, hderive, hct, rfl⟩, openWire_eq_ok_iff.mpr ⟨_, ct, key, nonce, rfl,
    ?_, correct.decrypts hct⟩⟩
  rw [correct.decapsulates]
  exact hderive

end V2
end HpkeDemo.Upgrade
