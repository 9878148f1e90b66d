import HpkeDemo.Upgrade.Readable

/-! The library and `bwc_post_quantum_upgrade.rs` share a wire format: each parses what
the other writes, and each opens what the other seals. -/
namespace HpkeDemo.Upgrade
open Text
open Connect (ConnString HexCodec Carryable lowerHex INFO_REQUEST)

/-- Both parsers found the same relay, version, wallet key and secret. -/
structure SameFields (p : ParsedConn) (c : ConnString) : Prop where
  relay : p.relay = c.relay
  version : p.version.asU8 = c.version.asU8
  walletPk : p.walletPk = c.walletPk
  secret : p.secret = c.secret

theorem sameFields_ofConnString (c : ConnString) : SameFields (ParsedConn.ofConnString c) c where
  relay := rfl
  version := Version.asU8_same c.version
  walletPk := rfl
  secret := rfl

variable {hex : HexCodec} {H : Hpke} {C : V2.Crates}

/-- The example reads the library's strings, with a token and params it does not know. -/
theorem parsedConn_toUri (lowercase : LowercaseHex hex) {c : ConnString} (h : Carryable c) :
    ParsedConn.parse (c.toUri hex) = .ok (ParsedConn.ofConnString c) := by
  rw [toUri_congr lowercase Hex.codec_lowercase]
  exact parsedConn_parse_iff.mpr ⟨c, Connect.parse_toUri Hex.codec_lowercase.lawful h, rfl⟩

/-- Both read the example's strings. -/
theorem minted_parses (lowercase : LowercaseHex hex) (wallet : Wallet H C) (version : Version)
    {relay : String} (hrelay : Free '?' relay) (secret : Bytes) :
    ∃ p c, ParsedConn.parse (wallet.connectionString version relay secret) = .ok p ∧
      ConnString.parse hex (wallet.connectionString version relay secret) = .ok c ∧
      SameFields p c ∧ c.token = none ∧ c.relayParams = [] := by
  have hlibrary : ConnString.parse hex (wallet.connectionString version relay secret) =
      .ok (wallet.issued version relay secret) :=
    wallet.parse_connectionString version secret lowercase hrelay
  have hexample := wallet.parsedConn_connectionString version secret hrelay
  refine ⟨_, _, hexample, hlibrary, ?_, rfl, rfl⟩
  exact { relay := rfl, version := (Version.asU8_library version).symm, walletPk := rfl,
          secret := rfl }

/-- The library opens what `v1` seals. -/
theorem library_opens_v1 {rng : H.Randomness} {walletSk clientSk : H.PrivateKey}
    {secret m wire : Bytes} (encodings : H.Encodings) (correct : H.Correct)
    (h : V1.sealWire H rng (H.skToPk walletSk) (clientSk, H.skToPk clientSk) secret m =
      .ok wire) :
    Channel.openWire H walletSk (H.skToPk clientSk) secret INFO_REQUEST wire = .ok m := by
  rw [V1.sealWire_eq] at h
  exact Channel.openWire_sealWire encodings correct h

/-- **The library and the example interoperate**, string by string and message by message. With
a secret and a wallet key that is of use, both seal. -/
theorem interoperate (lowercase : LowercaseHex hex) (encodings : H.Encodings)
    (correct : H.Correct) :
    (∀ c, Carryable c → ∃ p, ParsedConn.parse (c.toUri hex) = .ok p ∧
      ConnString.parse hex (c.toUri hex) = .ok c ∧ SameFields p c) ∧
    (∀ (wallet : Wallet H C) version relay secret, Free '?' relay →
      ∃ p c, ParsedConn.parse (wallet.connectionString version relay secret) = .ok p ∧
        ConnString.parse hex (wallet.connectionString version relay secret) = .ok c ∧
        SameFields p c ∧ c.token = none ∧ c.relayParams = []) ∧
    (∀ rng walletSk clientSk secret m wire,
      (V1.sealWire H rng (H.skToPk walletSk) (clientSk, H.skToPk clientSk) secret m = .ok wire →
        Channel.openWire H walletSk (H.skToPk clientSk) secret INFO_REQUEST wire = .ok m) ∧
      (Channel.sealWire H rng (clientSk, H.skToPk clientSk) (H.skToPk walletSk) secret
          INFO_REQUEST m = .ok wire →
        V1.openWire H walletSk (H.skToPk clientSk) secret wire = .ok m)) ∧
    ∀ LowOrder, H.PskRule → H.Encapsulates LowOrder → ∀ rng walletSk clientSk secret m,
      secret ≠ [] → ¬ LowOrder (H.skToPk walletSk) →
        (∃ wire, V1.sealWire H rng (H.skToPk walletSk) (clientSk, H.skToPk clientSk) secret m =
            .ok wire ∧
          Channel.openWire H walletSk (H.skToPk clientSk) secret INFO_REQUEST wire = .ok m) ∧
        ∃ wire, Channel.sealWire H rng (clientSk, H.skToPk clientSk) (H.skToPk walletSk) secret
            INFO_REQUEST m = .ok wire ∧
          V1.openWire H walletSk (H.skToPk clientSk) secret wire = .ok m := by
  refine ⟨?_, ?_, ?_, ?_⟩
  · intro c hc
    exact ⟨_, parsedConn_toUri lowercase hc, Connect.parse_toUri lowercase.lawful hc,
      sameFields_ofConnString c⟩
  · intro wallet version relay secret hrelay
    exact minted_parses lowercase wallet version hrelay secret
  · intro rng walletSk clientSk secret m wire
    exact ⟨library_opens_v1 encodings correct, V1.openWire_sealWire encodings correct⟩
  · intro LowOrder pskRule encapsulates rng walletSk clientSk secret m hsecret huseful
    obtain ⟨wire, hwire⟩ : ∃ wire, Channel.sealWire H rng (clientSk, H.skToPk clientSk)
        (H.skToPk walletSk) secret INFO_REQUEST m = .ok wire :=
      (Channel.exists_sealWire_iff pskRule encapsulates).mpr ⟨hsecret, huseful⟩
    have hv1 : V1.sealWire H rng (H.skToPk walletSk) (clientSk, H.skToPk clientSk) secret m =
        .ok wire := V1.sealWire_eq.trans hwire
    exact ⟨⟨wire, hv1, library_opens_v1 encodings correct hv1⟩,
      wire, hwire, V1.openWire_sealWire encodings correct hwire⟩

/-- A string with a token and with params that only the library keeps, a minted string, and a
request that either seals for the other. -/
theorem interoperate_awkward :
    (∃ p, ParsedConn.parse (Connect.awkward.toUri lowerHex) = .ok p ∧
      ConnString.parse lowerHex (Connect.awkward.toUri lowerHex) = .ok Connect.awkward ∧
      SameFields p Connect.awkward) ∧
    (∃ p c, ParsedConn.parse (Readable.wallet.connectionString .V2 "r" [7]) = .ok p ∧
      ConnString.parse lowerHex (Readable.wallet.connectionString .V2 "r" [7]) = .ok c ∧
      SameFields p c) ∧
    (∃ wire, V1.sealWire Clamped.hpke (Transparent.key 5) Readable.wallet.v1.2 Readable.client [7]
        [8] = .ok wire ∧
      Channel.openWire Clamped.hpke Readable.wallet.v1.1 Readable.client.2 [7] INFO_REQUEST wire =
        .ok [8]) ∧
    ∃ wire, Channel.sealWire Clamped.hpke (Transparent.key 5) Readable.client
        Readable.wallet.v1.2 [7] INFO_REQUEST [8] = .ok wire ∧
      V1.openWire Clamped.hpke Readable.wallet.v1.1 Readable.client.2 [7] wire = .ok [8] := by
  obtain ⟨strings, minted, _, messages⟩ := interoperate (C := Readable.crates) lowerHex_lowercase
    Clamped.encodings Clamped.correct
  obtain ⟨p, c, hp, hc, same, _⟩ := minted Readable.wallet .V2 "r" [7] (by decide)
  exact ⟨strings _ Connect.awkward_carryable, ⟨p, c, hp, hc, same⟩,
    messages _ Clamped.pskRule Clamped.encapsulates (Transparent.key 5) Readable.wallet.v1.1
      Readable.client.1 [7] [8] (by decide) (Clamped.honest Readable.wallet.v1.1)⟩

end HpkeDemo.Upgrade
