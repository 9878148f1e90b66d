import HpkeDemo.Connect.RoundTrip
import HpkeDemo.Upgrade.Conn
import HpkeDemo.Upgrade.Suites

/-! The wallet of `bwc_post_quantum_upgrade.rs` and the client's side of it: minting a
connection string, sealing by its version, and opening. -/
namespace HpkeDemo.Upgrade
open Text
open Connect (ConnString HexCodec lowerHex lowerHex_lawful Carryable parse_toUri)

/-- `Wallet::new` generates both keypairs. -/
structure Wallet (H : Hpke) (C : V2.Crates) where
  v1 : H.PrivateKey × H.PublicKey
  v2 : C.DecapsulationKey × C.EncapsulationKey
  v1_keys : H.skToPk v1.1 = v1.2
  v2_keys : C.encapsulationKey v2.1 = v2.2

variable {H : Hpke} {C : V2.Crates}

namespace Wallet

def connectionString (wallet : Wallet H C) (version : Version) (relay : String)
    (secret : Bytes) : String :=
  let walletPk := match version with
    | .V1 => Hex.encode (V1.pkBytes H wallet.v1.2)
    | .V2 => Hex.encode (V2.ekBytes C wallet.v2.2)
  "bwc://" ++ relay ++ "?v=" ++ toString version.asU8 ++ "&wallet_pk=" ++ walletPk ++
    "&secret=" ++ Hex.encode secret

/-- `Wallet::open`. -/
def openWire (wallet : Wallet H C) (version : Version) (secret : Bytes)
    (clientPk : Option H.PublicKey) (wire : Bytes) : Except Failure Bytes :=
  match version with
  | .V1 => do
    let clientPk ← clientPk.elim (.error (.err "v1 requires the client's registered key")) .ok
    (V1.openWire H wallet.v1.1 clientPk secret wire).mapError .err
  | .V2 => V2.openWire C wallet.v2.1 secret wire

theorem openWire_v1 (wallet : Wallet H C) (secret wire : Bytes) (clientPk : H.PublicKey) :
    wallet.openWire .V1 secret (some clientPk) wire =
      (V1.openWire H wallet.v1.1 clientPk secret wire).mapError .err := rfl

end Wallet

/-- `client_seal`; `rng` and `rng'` are what the two suites draw. -/
def clientSeal (rng : H.Randomness) (rng' : C.Randomness) (conn : ParsedConn)
    (clientV1 : Option (H.PrivateKey × H.PublicKey)) (plaintext : Bytes) : Except Failure Bytes :=
  match conn.version with
  | .V1 => do
    let walletPk ← (V1.pkFromBytes H conn.walletPk).mapError .err
    let client ← clientV1.elim
      (.error (.err "v1 requires a client identity keypair (AuthPSK)")) .ok
    (V1.sealWire H rng walletPk client conn.secret plaintext).mapError .panic
  | .V2 => V2.sealWire C rng' conn.walletPk conn.secret plaintext

/-- A codec that writes lowercase hex and reads back what is written so. -/
structure LowercaseHex (hex : HexCodec) : Prop where
  encode_eq : ∀ b, hex.encode b = lowerHex.encode b
  decode_eq : ∀ b, hex.decode (lowerHex.encode b) = .ok b

theorem LowercaseHex.lawful {hex : HexCodec} (h : LowercaseHex hex) : hex.Lawful where
  decode_encode b := by rw [h.encode_eq, h.decode_eq]
  digits b := by
    rw [h.encode_eq]
    exact lowerHex_lawful.digits b

theorem lowerHex_lowercase : LowercaseHex lowerHex where
  encode_eq _ := rfl
  decode_eq := lowerHex_lawful.decode_encode

theorem Hex.codec_lowercase : LowercaseHex Hex.codec where
  encode_eq := Hex.encode_eq
  decode_eq b := Hex.codec_decode_iff.mpr (Hex.decode_encode b)

theorem toUri_congr {hex hex' : HexCodec} (h : LowercaseHex hex) (h' : LowercaseHex hex')
    (c : ConnString) : c.toUri hex = c.toUri hex' := by
  simp only [ConnString.toUri, h.encode_eq, h'.encode_eq]

/-- The library's version of the same number. -/
def Version.library : Version → Connect.Version
  | .V1 => .V1
  | .V2 => .V2

@[simp] theorem Version.asU8_library (v : Version) : v.library.asU8 = v.asU8 := by
  cases v <;> rfl

@[simp] theorem Version.same_library (v : Version) : Version.same v.library = v := by
  cases v <;> rfl

namespace Wallet

/-- The wallet's recipient key for a version. -/
def keyBytes (wallet : Wallet H C) : Version → Bytes
  | .V1 => V1.pkBytes H wallet.v1.2
  | .V2 => V2.ekBytes C wallet.v2.2

/-- The connection that a minted string is for. -/
def issued (wallet : Wallet H C) (version : Version) (relay : String) (secret : Bytes) :
    ConnString where
  relay := relay
  version := version.library
  walletPk := wallet.keyBytes version
  secret := secret
  token := none
  relayParams := []

variable (wallet : Wallet H C) (version : Version) {relay : String} (secret : Bytes)

/-- A minted string is what the library writes for that connection. -/
theorem connectionString_eq {hex : HexCodec} (h : LowercaseHex hex) (relay : String) :
    wallet.connectionString version relay secret =
      (wallet.issued version relay secret).toUri hex := by
  unfold connectionString issued ConnString.toUri
  simp only [h.encode_eq, Hex.encode_eq, Version.asU8_library]
  cases version with
  | V1 => rfl
  | V2 => rfl

theorem issued_carryable (hrelay : Free '?' relay) :
    Carryable (wallet.issued version relay secret) where
  relay := hrelay
  token := nofun
  keys := nofun
  values := nofun

/-- The library parses a minted string into its connection. -/
theorem parse_connectionString {hex : HexCodec} (h : LowercaseHex hex) (hrelay : Free '?' relay) :
    ConnString.parse hex (wallet.connectionString version relay secret) =
      .ok (wallet.issued version relay secret) := by
  rw [connectionString_eq wallet version secret h]
  exact parse_toUri h.lawful (issued_carryable wallet version secret hrelay)

/-- And so does the example. -/
theorem parsedConn_connectionString (hrelay : Free '?' relay) :
    ParsedConn.parse (wallet.connectionString version relay secret) =
      .ok { relay, version, walletPk := wallet.keyBytes version, secret } := by
  refine parsedConn_parse_iff.mpr
    ⟨_, parse_connectionString wallet version secret Hex.codec_lowercase hrelay, ?_⟩
  simp only [ParsedConn.ofConnString, issued, Version.same_library]

end Wallet
end HpkeDemo.Upgrade
