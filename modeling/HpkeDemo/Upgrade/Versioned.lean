import HpkeDemo.Upgrade.Readable

/-! The whole versioned path: a minted string is parsed, the client seals by its version,
and the wallet opens under that version and under no other. -/
namespace HpkeDemo.Upgrade
open Text

/-- No tail of an AuthPSK ciphertext was made by the AEAD under a key that `v2` derives. This is
an idealisation across the suites: it says of the two together what `authentic` says of the AEAD
alone, that nothing decrypts but what was made under the same key and nonce. An AEAD that does
not commit to its key has it only for bodies that nobody crafted from the keys of both. -/
def Apart (H : Hpke) (C : V2.Crates) : Prop :=
  ∀ {sender bundle pkR info rng enc ctx m ct},
    H.setupSender (.authPsk sender bundle) pkR info rng = .ok (enc, ctx) →
    H.ctxSeal ctx m [] = .ok ct → ∀ {shared secret key nonce} m' n,
    V2.derive C shared secret = .ok (key, nonce) → C.encrypt key nonce m' ≠ .ok (ct.drop n)

/-- The primitives of both suites do what they are for. -/
structure CorrectPrimitives (H : Hpke) (C : V2.Crates) (LowOrder : H.PublicKey → Prop) :
    Prop where
  encodings : H.Encodings
  correct : H.Correct
  pskRule : H.PskRule
  encapsulates : H.Encapsulates LowOrder
  honest : ∀ sk, ¬ LowOrder (H.skToPk sk)
  crates : C.Correct

/-- And each opens nothing but what it sealed itself. -/
structure AuthenticPrimitives (H : Hpke) (C : V2.Crates) : Prop where
  ideal : H.IdealAuthPsk
  authentic : C.Authentic
  apart : Apart H C

/-- The primitives of both suites are correct and authentic. -/
structure Primitives (H : Hpke) (C : V2.Crates) (LowOrder : H.PublicKey → Prop) : Prop extends
  CorrectPrimitives H C LowOrder, AuthenticPrimitives H C

variable {H : Hpke} {C : V2.Crates} {LowOrder : H.PublicKey → Prop} {wallet : Wallet H C}
  {secret wire m m' : Bytes}

/-- A `v1` message is no `v2` message: behind the 32 bytes of the one and the 1120 of the
other there is no common ciphertext. -/
theorem not_both (primitives : Primitives H C LowOrder) {rng : H.Randomness}
    {sender : H.PrivateKey × H.PublicKey} {pkR : H.PublicKey} {psk info shared key nonce ct : Bytes}
    {kem : {b : Bytes // b.length = V2.CIPHERTEXT_SIZE}}
    (h1 : Channel.sealWire H rng sender pkR psk info m = .ok wire) (h2 : wire = kem.1 ++ ct)
    (hderive : V2.derive C shared secret = .ok (key, nonce)) :
    C.encrypt key nonce m' ≠ .ok ct := by
  obtain ⟨bundle, enc, ctx, ct1, _, hsetup, hseal, hwire⟩ := Channel.sealWire_eq_ok_iff.mp h1
  have htail : ct = ct1.drop (V2.CIPHERTEXT_SIZE - 32) := by
    have henc := primitives.encodings.enc_length enc
    have hlen : (H.encToBytes enc).length ≤ V2.CIPHERTEXT_SIZE := by
      rw [henc]
      decide
    calc ct = wire.drop V2.CIPHERTEXT_SIZE := by rw [h2, List.drop_left' kem.2]
      _ = ct1.drop (V2.CIPHERTEXT_SIZE - (H.encToBytes enc).length) := by
        rw [← hwire, List.drop_append, List.drop_eq_nil_of_le hlen, List.nil_append]
      _ = ct1.drop (V2.CIPHERTEXT_SIZE - 32) := by rw [henc]
  rw [htail]
  exact primitives.apart hsetup hseal m' _ hderive

theorem v2_rejects_v1 (primitives : Primitives H C LowOrder) {rng : H.Randomness}
    {walletPk : H.PublicKey} {client : H.PrivateKey × H.PublicKey} {dk : C.DecapsulationKey}
    {secret' : Bytes} (h : V1.sealWire H rng walletPk client secret m = .ok wire) :
    V2.openWire C dk secret' wire ≠ .ok m' := by
  intro hopen
  obtain ⟨kem, ct, key, nonce, hwire, hderive, hm⟩ := V2.openWire_eq_ok_iff.mp hopen
  exact not_both primitives h hwire hderive (primitives.authentic hm)

theorem v1_rejects_v2 (primitives : Primitives H C LowOrder) {rng : C.Randomness}
    {ekBytes : Bytes} {walletSk : H.PrivateKey} {clientPk : H.PublicKey} {secret' : Bytes}
    (h : V2.sealWire C rng ekBytes secret m = .ok wire) :
    V1.openWire H walletSk clientPk secret' wire ≠ .ok m' := by
  intro hopen
  obtain ⟨_, ek, key, nonce, ct, _, hderive, hct, hwire⟩ := V2.sealWire_eq_ok_iff.mp h
  obtain ⟨skS, rng', _, hseal⟩ := Channel.openWire_was_sealed primitives.encodings
    primitives.ideal (V1.openWire_eq_ok_iff.mp hopen)
  exact not_both primitives hseal hwire.symm hderive hct

/-- What does not open is an error, under either version, and not a panic. -/
theorem openWire_error (crates : C.Correct) {version : Version}
    {clientPk : Option H.PublicKey}
    (h : ∀ m, wallet.openWire version secret clientPk wire ≠ .ok m) :
    ∃ e, wallet.openWire version secret clientPk wire = .error (.err e) := by
  cases version with
  | V1 =>
    cases clientPk with
    | none => exact ⟨_, rfl⟩
    | some pk =>
      cases hopen : V1.openWire H wallet.v1.1 pk secret wire with
      | ok m =>
        refine absurd ?_ (h m)
        rw [Wallet.openWire_v1, hopen]
        rfl
      | error e =>
        refine ⟨e, ?_⟩
        rw [Wallet.openWire_v1, hopen]
        rfl
  | V2 =>
    cases hopen : V2.openWire C wallet.v2.1 secret wire with
    | ok m => exact absurd hopen (h m)
    | error failure =>
      cases failure with
      | err e => exact ⟨e, hopen⟩
      | panic panic => exact absurd hopen (V2.openWire_ne_panic crates panic)

/-- A `v1` client with a secret seals, and the wallet opens for that client. -/
theorem exists_clientSeal_v1 (primitives : CorrectPrimitives H C LowOrder) (wallet : Wallet H C)
    (rng : H.Randomness) (rng' : C.Randomness) (relay : String) (hsecret : secret ≠ [])
    {client : H.PrivateKey × H.PublicKey} (hclient : H.skToPk client.1 = client.2)
    (body : Bytes) : ∃ wire,
      clientSeal rng rng' { relay, version := .V1, walletPk := wallet.keyBytes .V1, secret }
        (some client) body = .ok wire ∧
      V1.sealWire H rng wallet.v1.2 client secret body = .ok wire ∧
      wallet.openWire .V1 secret (some client.2) wire = .ok body := by
  obtain ⟨sk, pk⟩ := client
  simp only at hclient
  subst hclient
  have hlow : ¬ LowOrder wallet.v1.2 := wallet.v1_keys ▸ primitives.honest wallet.v1.1
  obtain ⟨wire, hwire⟩ : ∃ wire, V1.sealWire H rng wallet.v1.2 (sk, H.skToPk sk) secret body =
      .ok wire :=
    (Channel.exists_sealWire_iff primitives.pskRule primitives.encapsulates).mpr ⟨hsecret, hlow⟩
  have hread : V1.pkFromBytes H (wallet.keyBytes .V1) = .ok wallet.v1.2 :=
    mapError_eq_ok_iff.mpr (primitives.encodings.pk_from_to wallet.v1.2)
  have hopen : V1.openWire H wallet.v1.1 (H.skToPk sk) secret wire = .ok body := by
    rw [V1.sealWire_eq, ← wallet.v1_keys] at hwire
    exact V1.openWire_sealWire primitives.encodings primitives.correct hwire
  refine ⟨wire, ?_, hwire, ?_⟩
  · simp only [clientSeal, hread, hwire, Except.mapError, Option.elim_some, bind, Except.bind]
  · rw [Wallet.openWire_v1, hopen]
    rfl

/-- **The versioned path is correct for either suite.** A minted string parses to what was
minted, the client seals by its version, the wallet opens that, and under the other
version it returns an error. -/
theorem versioned_path (primitives : Primitives H C LowOrder) (wallet : Wallet H C)
    (version : Version) {relay : String} (hrelay : Free '?' relay) (hsecret : secret ≠ [])
    (client : Option (H.PrivateKey × H.PublicKey))
    (hclient : ∀ keys, client = some keys → H.skToPk keys.1 = keys.2)
    (hpresent : version = .V1 → client ≠ none) (rng : H.Randomness) (rng' : C.Randomness)
    (body : Bytes) :
    ∃ p wire, ParsedConn.parse (wallet.connectionString version relay secret) = .ok p ∧
      p.relay = relay ∧ p.version = version ∧ p.secret = secret ∧
      p.walletPk = wallet.keyBytes version ∧ clientSeal rng rng' p client body = .ok wire ∧
      (∀ clientPk, (version = .V1 → clientPk = client.map Prod.snd) →
        wallet.openWire version secret clientPk wire = .ok body) ∧
      ∀ other, other ≠ version → ∀ clientPk,
        ∃ e, wallet.openWire other secret clientPk wire = .error (.err e) := by
  have hparse := wallet.parsedConn_connectionString version secret hrelay
  cases version with
  | V1 =>
    obtain ⟨keys, rfl⟩ := Option.ne_none_iff_exists'.mp (hpresent rfl)
    obtain ⟨wire, hclientSeal, hseal, hopen⟩ := exists_clientSeal_v1
      primitives.toCorrectPrimitives wallet rng rng' relay hsecret (hclient keys rfl) body
    refine ⟨_, wire, hparse, rfl, rfl, rfl, rfl, hclientSeal, ?_, ?_⟩
    · intro clientPk hclientPk
      rw [hclientPk rfl]
      exact hopen
    intro other hother clientPk
    apply openWire_error primitives.crates
    intro m
    cases other with
    | V1 => exact absurd rfl hother
    | V2 => exact v2_rejects_v1 primitives hseal
  | V2 =>
    obtain ⟨wire, hseal, hopen⟩ :=
      V2.exists_sealWire primitives.crates wallet.v2.1 rng' secret body
    rw [wallet.v2_keys] at hseal
    refine ⟨_, wire, hparse, rfl, rfl, rfl, rfl, hseal, fun _ _ => hopen, ?_⟩
    intro other hother clientPk
    apply openWire_error primitives.crates
    intro m
    cases other with
    | V1 =>
      cases clientPk with
      | none => exact nofun
      | some pk =>
        intro hopen'
        obtain ⟨pk', hpk', hopen'⟩ := bind_eq_ok_iff.mp hopen'
        exact v1_rejects_v2 primitives hseal (mapError_eq_ok_iff.mp hopen')
    | V2 => exact absurd rfl hother

/-- Ciphertexts that end in another mark keep crates apart from the clamped one. -/
theorem Readable.apart (marked : ∀ {key nonce m ct}, C.encrypt key nonce m = .ok ct →
    ct.getLast? = some Readable.mark) : Apart Clamped.hpke C := by
  intro sender bundle pkR info rng enc ctx m ct _ hseal shared secret key nonce m' n _ hct
  have hlast : ct.getLast? = some Clamped.mark := by
    rw [← Except.ok.inj hseal]
    exact List.getLast?_concat
  have hlast' : (ct.drop n).getLast? = some Readable.mark := marked hct
  rw [List.getLast?_drop, hlast] at hlast'
  split at hlast'
  · exact nomatch hlast'
  · exact absurd (Option.some.inj hlast') (by decide)

theorem Readable.correctPrimitives (crates : C.Correct) :
    CorrectPrimitives Clamped.hpke C (· = Transparent.lowOrder) where
  encodings := Clamped.encodings
  correct := Clamped.correct
  pskRule := Clamped.pskRule
  encapsulates := Clamped.encapsulates
  honest := Clamped.honest
  crates := crates

theorem Readable.primitives :
    Primitives Clamped.hpke Readable.crates (· = Transparent.lowOrder) where
  toCorrectPrimitives := Readable.correctPrimitives Readable.correct
  ideal := Clamped.idealAuthPsk
  authentic := Readable.authentic
  apart := Readable.apart Readable.encrypt_marked

/-- A minted, parsed, sealed and opened `v1` connection, whose messages `v2` refuses. -/
theorem versioned_path_v1 : ∃ p wire,
    ParsedConn.parse (Readable.wallet.connectionString .V1 "r" [7]) = .ok p ∧
      p.relay = "r" ∧ p.version = .V1 ∧ p.secret = [7] ∧
      p.walletPk = Readable.wallet.keyBytes .V1 ∧
      clientSeal (Transparent.key 5) Readable.randomness p (some Readable.client) [8] =
        .ok wire ∧
      (∀ clientPk, (Version.V1 = .V1 → clientPk = some (Transparent.key 2)) →
        Readable.wallet.openWire .V1 [7] clientPk wire = .ok [8]) ∧
      ∀ other, other ≠ .V1 → ∀ clientPk,
        ∃ e, Readable.wallet.openWire other [7] clientPk wire = .error (.err e) :=
  versioned_path Readable.primitives Readable.wallet .V1 (by simp [Free]) (by decide)
    (some Readable.client) (fun _ h => Option.some.inj h ▸ rfl) (fun _ => nofun)
    (Transparent.key 5) Readable.randomness [8]

end HpkeDemo.Upgrade
