import HpkeDemo.Bwc.Credentials
import HpkeDemo.Upgrade.Interop

/-! What sealing takes for granted, and which connection strings grant it. -/
namespace HpkeDemo.Upgrade
open Text
open Connect (ConnString HexCodec lastOf params lowerHex parse_toUri)

/-- If the last wallet key of the string reads as a public key, then as one that can be
encapsulated to, and the last secret is not empty. -/
def Sealable (hex : HexCodec) {H : Hpke} (LowOrder : H.PublicKey → Prop) (uri : String) : Prop :=
  ∀ w b pk, lastOf "wallet_pk" (params uri) = some w → hex.decode w = .ok b →
    H.pkFromBytes b = .ok pk →
    ¬ LowOrder pk ∧ ∀ s, lastOf "secret" (params uri) = some s → hex.decode s ≠ .ok []

variable {hex : HexCodec} {H : Hpke} {C : V2.Crates} {LowOrder : H.PublicKey → Prop}
  {uri : String} {c : ConnString}

theorem sealable_iff (h : ConnString.parse hex uri = .ok c) :
    Sealable hex LowOrder uri ↔
      ∀ pk, H.pkFromBytes c.walletPk = .ok pk → c.secret ≠ [] ∧ ¬ LowOrder pk := by
  have reads := Connect.reads_params h
  obtain ⟨w, hw, hwallet⟩ := reads.walletPk
  obtain ⟨s, hs, hsecret⟩ := reads.secret
  constructor
  · intro sealable pk hpk
    have ⟨hlow, hnonempty⟩ := sealable w c.walletPk pk hw hwallet hpk
    refine ⟨?_, hlow⟩
    intro hempty
    rw [hempty] at hsecret
    exact hnonempty s hs hsecret
  · intro granted w' b pk hw' hb hpk
    obtain rfl := Option.some.inj (hw.symm.trans hw')
    obtain rfl := Except.ok.inj (hwallet.symm.trans hb)
    have ⟨hnonempty, hlow⟩ := granted pk hpk
    refine ⟨hlow, ?_⟩
    intro s' hs' hempty
    obtain rfl := Option.some.inj (hs.symm.trans hs')
    exact hnonempty (Except.ok.inj (hsecret.symm.trans hempty))

/-- The client of `bwc_full.rs`. -/
theorem client_seal_iff (pskRule : H.PskRule) (encapsulates : H.Encapsulates LowOrder)
    (h : ConnString.parse hex uri = .ok c) {sk : H.PrivateKey} {pk : H.PublicKey}
    {client : Bwc.Client H} (hnew : Bwc.Client.new hex c sk pk = .ok client)
    (rng : H.Randomness) (nonce : Bwc.Nonce) (timestamp : UInt64) (body : Bytes) :
    (∃ wire, client.seal rng nonce timestamp body = .ok wire) ↔ Sealable hex LowOrder uri := by
  obtain ⟨_, _, hwallet, hsecret, _⟩ := Bwc.new_eq_ok hnew
  unfold Bwc.Client.seal
  rw [Channel.exists_sealWire_iff pskRule encapsulates, sealable_iff h, hsecret]
  constructor
  · intro granted pk hpk
    obtain rfl := Except.ok.inj (hwallet.symm.trans hpk)
    exact granted
  · intro granted
    exact granted client.walletPk hwallet

/-- A `Result` made from what may panic panics unless it is a value. -/
theorem mapError_panic_iff {α : Type} {x : Except Panic α} :
    (∀ panic, x.mapError Failure.panic ≠ .error (.panic panic)) ↔ ∃ a, x = .ok a := by
  cases x <;> simp [Except.mapError]

theorem version_v1_iff (h : ConnString.parse hex uri = .ok c) :
    Version.same c.version = .V1 ↔ lastOf "v" (params uri) = some "1" := by
  obtain ⟨x, hx, hversion⟩ := (Connect.reads_params h).version
  rw [hx]
  rcases Connect.version_parse_ok_iff.mp hversion with ⟨rfl, hv⟩ | ⟨rfl, hv⟩ <;>
    simp [hv, Version.same]

/-- The `v1` arm of `client_seal`, with a client. -/
theorem clientSeal_v1_ne_panic_iff (pskRule : H.PskRule) (encapsulates : H.Encapsulates LowOrder)
    {conn : ParsedConn} (hversion : conn.version = .V1) (client : H.PrivateKey × H.PublicKey)
    (rng : H.Randomness) (rng' : C.Randomness) (plaintext : Bytes) :
    (∀ panic, clientSeal rng rng' conn (some client) plaintext ≠ .error (.panic panic)) ↔
      ∀ pk, H.pkFromBytes conn.walletPk = .ok pk → conn.secret ≠ [] ∧ ¬ LowOrder pk := by
  unfold clientSeal
  rw [hversion]
  cases hpk : H.pkFromBytes conn.walletPk with
  | error e => simp [V1.pkFromBytes, hpk, Except.mapError, bind, Except.bind]
  | ok pk =>
    simp only [V1.pkFromBytes, hpk, Except.mapError, Option.elim_some, bind, Except.bind,
      Except.ok.injEq, forall_eq']
    have hseals : (∃ wire, V1.sealWire H rng pk client conn.secret plaintext = .ok wire) ↔
        conn.secret ≠ [] ∧ ¬ LowOrder pk := Channel.exists_sealWire_iff pskRule encapsulates
    rw [← hseals]
    exact mapError_panic_iff

/-- Without a client the `v1` arm is an error. -/
theorem clientSeal_v1_none_ne_panic {conn : ParsedConn} (hversion : conn.version = .V1)
    {rng : H.Randomness} {rng' : C.Randomness} {plaintext : Bytes} (panic : Panic) :
    clientSeal rng rng' conn none plaintext ≠ .error (.panic panic) := by
  unfold clientSeal
  rw [hversion]
  cases hpk : H.pkFromBytes conn.walletPk <;>
    simp [V1.pkFromBytes, hpk, Except.mapError, bind, Except.bind]

theorem clientSeal_ne_panic_iff (pskRule : H.PskRule) (encapsulates : H.Encapsulates LowOrder)
    (crates : C.Correct) {p : ParsedConn} (h : ParsedConn.parse uri = .ok p)
    (client : Option (H.PrivateKey × H.PublicKey)) (rng : H.Randomness) (rng' : C.Randomness)
    (plaintext : Bytes) :
    (∀ panic, clientSeal rng rng' p client plaintext ≠ .error (.panic panic)) ↔
      (lastOf "v" (params uri) = some "1" → client ≠ none →
        Sealable Hex.codec LowOrder uri) := by
  obtain ⟨c, hc, rfl⟩ := parsedConn_parse_iff.mp h
  rw [← version_v1_iff hc, sealable_iff hc]
  cases hversion : Version.same c.version with
  | V1 =>
    have hv1 : (ParsedConn.ofConnString c).version = .V1 := hversion
    cases client with
    | none => exact iff_of_true (clientSeal_v1_none_ne_panic hv1) fun _ hnone => absurd rfl hnone
    | some client =>
      rw [clientSeal_v1_ne_panic_iff pskRule encapsulates hv1]
      simp [ParsedConn.ofConnString]
  | V2 =>
    have hv2 : (ParsedConn.ofConnString c).version = .V2 := hversion
    constructor
    · intro _ hv1
      cases hv1
    · intro _ panic
      unfold clientSeal
      rw [hv2]
      exact V2.sealWire_ne_panic crates panic

/-- **Which strings cannot crash a client.** Over every accepted string, the library's client
seals, and the example's returns `Ok` or `Err`, exactly if the last secret is not empty and
the last wallet key not of low order; without a `v1` keypair, and under `v2`, always. -/
theorem seals_without_panic_iff (pskRule : H.PskRule) (encapsulates : H.Encapsulates LowOrder)
    (crates : C.Correct) :
    (∀ hex uri c sk pk (client : Bwc.Client H), ConnString.parse hex uri = .ok c →
      Bwc.Client.new hex c sk pk = .ok client → ∀ rng nonce timestamp body,
        (∃ wire, client.seal rng nonce timestamp body = .ok wire) ↔
          Sealable hex LowOrder uri) ∧
    ∀ uri p, ParsedConn.parse uri = .ok p →
      ∀ client (rng : H.Randomness) (rng' : C.Randomness) plaintext,
        (∀ panic, clientSeal rng rng' p client plaintext ≠ .error (.panic panic)) ↔
          (lastOf "v" (params uri) = some "1" → client ≠ none →
            Sealable Hex.codec LowOrder uri) := by
  constructor
  · intro hex uri c sk pk client hparse hnew rng nonce timestamp body
    exact client_seal_iff pskRule encapsulates hparse hnew rng nonce timestamp body
  · intro uri p hparse client rng rng' plaintext
    exact clientSeal_ne_panic_iff pskRule encapsulates crates hparse client rng rng' plaintext

/-- A secret of one byte, and a key that can be encapsulated to. -/
theorem seals_without_panic_seven : ∃ wire,
    (Bwc.Demo.credentialsClient [7] none).seal (Transparent.key 3) (Bwc.Demo.nonce 4) 1000 [8] =
      .ok wire := by
  have hparse := parse_toUri Connect.lowerHex_lawful
    (Bwc.Demo.credentials_carryable [7] (nofun : ∀ t, none = some t → Free '&' t))
  refine ((seals_without_panic_iff Transparent.pskRule Transparent.encapsulates
    Readable.correct).1 lowerHex _ _ (Transparent.key 1) (Transparent.key 1) _ hparse rfl _ _ _
    _).mpr ?_
  refine (sealable_iff hparse).mpr ?_
  intro pk hpk
  have hread : Transparent.keyFromBytes (Transparent.key 2).1 = .ok pk := hpk
  obtain rfl := Subtype.ext (Transparent.keyFromBytes_eq_ok_iff.mp hread)
  exact ⟨by decide, (by decide : Transparent.key 2 ≠ Transparent.lowOrder)⟩

/-- A string whose secret is empty crashes both clients. -/
theorem empty_secret_panics :
    (¬ ∀ uri c sk pk client, ConnString.parse lowerHex uri = .ok c → c.version = .V1 →
      Bwc.Client.new (H := Transparent.hpke) lowerHex c sk pk = .ok client →
        ∀ rng nonce timestamp body, ∃ wire, client.seal rng nonce timestamp body = .ok wire) ∧
    ¬ ∀ uri p, ParsedConn.parse uri = .ok p →
      ∀ client (rng : Transparent.hpke.Randomness) (rng' : Readable.crates.Randomness) plaintext
        panic, clientSeal rng rng' p client plaintext ≠ .error (.panic panic) := by
  have hcarry := Bwc.Demo.credentials_carryable [] (nofun : ∀ t, none = some t → Free '&' t)
  constructor
  · intro h
    have hseal := h _ _ _ _ (Bwc.Demo.credentialsClient [] none)
      (parse_toUri Connect.lowerHex_lawful hcarry) rfl rfl (Transparent.key 3)
      (Bwc.Demo.nonce 4) 1000 [8]
    have granted := (Channel.exists_sealWire_iff Transparent.pskRule
      Transparent.encapsulates).mp hseal
    exact granted.1 rfl
  · intro h
    exact h _ _ (parsedConn_toUri lowerHex_lowercase hcarry)
      (some (Transparent.key 1, Transparent.key 1)) (Transparent.key 3) Readable.randomness [8]
      ⟨"non-empty psk + psk_id: InvalidPskBundle"⟩ rfl

end HpkeDemo.Upgrade
