import HpkeDemo.Bwc.Exchange
import HpkeDemo.Connect.LowerHex
import HpkeDemo.Connect.RoundTrip

/-! `main` of `bwc_basic.rs`: a wallet and a client without a relay between them, over whatever
`main` draws and with any relay address, request and reply in the place of its constants. -/
namespace HpkeDemo.Bwc.Basic
open Channel Connect Text

/-- What `main` draws. -/
structure Draw (H : Hpke) where
  walletSk : H.PrivateKey
  clientSk : H.PrivateKey
  secret : {b : Bytes // b.length = 16}
  wrongSecret : {b : Bytes // b.length = 16}
  request : H.Randomness
  reply : H.Randomness
  forged : H.Randomness

/-- What `main` prints. -/
inductive Line where
  | issues (conn : String)
  | sealed (length : Nat)
  | clientAuthenticated (request : Bytes)
  | walletAuthenticated (response : Bytes)
  | rejected (e : String)

variable {H : Hpke}

/-- A seal that panics, where `?` gives up on errors. -/
def sealed (message : Except Panic Bytes) : Except Failure Bytes := message.mapError .panic

/-- The connection string that the wallet mints. -/
def Draw.connString (draw : Draw H) (relay : String) : ConnString where
  relay := relay
  version := .V1
  walletPk := H.pkToBytes (H.skToPk draw.walletSk)
  secret := draw.secret
  token := none
  relayParams := []

def main (hex : HexCodec) (draw : Draw H) (relay : String) (request reply : Bytes) :
    Except Failure (List Line) := do
  let conn := draw.connString relay
  let parsed ← (ConnString.parse hex (conn.toUri hex)).mapError .err
  if parsed.version ≠ .V1 then
    throw (.err "this example implements v1 only; see bwc_post_quantum_upgrade for v2")
  let walletPk ← (kemPkFromBytes H parsed.walletPk).mapError .err
  let clientPk := H.skToPk draw.clientSk
  let wire ← sealed (sealWire H draw.request (draw.clientSk, clientPk) walletPk parsed.secret
    INFO_REQUEST request)
  let body ← (openWire H draw.walletSk clientPk draw.secret INFO_REQUEST wire).mapError .err
  let answer ← sealed (sealWire H draw.reply (draw.walletSk, walletPk) clientPk draw.secret
    INFO_RESPONSE reply)
  let response ← (openWire H draw.clientSk walletPk parsed.secret INFO_RESPONSE answer).mapError
    .err
  let forged ← sealed (sealWire H draw.forged (draw.clientSk, clientPk) walletPk draw.wrongSecret
    INFO_REQUEST request)
  match openWire H draw.walletSk clientPk draw.secret INFO_REQUEST forged with
  | .ok _ => throw (.err "a request with the wrong secret should have been rejected")
  | .error e => return [.issues (conn.toUri hex), .sealed wire.length, .clientAuthenticated body,
      .walletAuthenticated response, .rejected e]

section
variable {LowOrder : H.PublicKey → Prop}

/-- With a secret and keys that the crate generates, sealing and opening are a round trip. -/
theorem exists_round_trip (encodings : H.Encodings) (correct : H.Correct) (pskRule : H.PskRule)
    (encapsulates : H.Encapsulates LowOrder) (honest : ∀ sk, ¬ LowOrder (H.skToPk sk))
    (rng : H.Randomness) (skS skR : H.PrivateKey) {psk : Bytes} (hpsk : psk ≠ []) (info m : Bytes) :
    ∃ wire, sealWire H rng (skS, H.skToPk skS) (H.skToPk skR) psk info m = .ok wire ∧
      openWire H skR (H.skToPk skS) psk info wire = .ok m := by
  obtain ⟨wire, hwire⟩ : ∃ wire, sealWire H rng (skS, H.skToPk skS) (H.skToPk skR) psk info m =
      .ok wire :=
    (exists_sealWire_iff pskRule encapsulates).mpr ⟨hpsk, honest skR⟩
  exact ⟨wire, hwire, openWire_sealWire encodings correct hwire⟩

/-- What was sealed under another secret does not open. -/
theorem exists_refusal (encodings : H.Encodings) (ideal : H.IdealAuthPsk) {rng : H.Randomness}
    {sender : H.PrivateKey × H.PublicKey} {skR : H.PrivateKey} {pkS pkR : H.PublicKey}
    {psk psk' info info' m wire : Bytes} (hwire : sealWire H rng sender pkR psk info m = .ok wire)
    (hne : psk ≠ psk') : ∃ e, openWire H skR pkS psk' info' wire = .error e := by
  cases h : openWire H skR pkS psk' info' wire with
  | error e => exact ⟨e, rfl⟩
  | ok m' =>
    obtain ⟨skS, rng', _, hwire'⟩ := openWire_was_sealed encodings ideal h
    obtain ⟨_, _, hpsk, _⟩ := sealWire_binds encodings ideal hwire hwire'
    exact absurd hpsk hne

/-- **The basic round trip.** Whatever is drawn, the client that parses the wallet's string is
authenticated and answered, authenticates the answer, and both read what the other sent; and
a client with another secret is rejected. -/
theorem basic_main_reports (encodings : H.Encodings) (correct : H.Correct) (pskRule : H.PskRule)
    (encapsulates : H.Encapsulates LowOrder) (honest : ∀ sk, ¬ LowOrder (H.skToPk sk))
    (ideal : H.IdealAuthPsk) {hex : HexCodec} (lawful : hex.Lawful) (draw : Draw H)
    {relay : String} (hrelay : Free '?' relay) (hwrong : draw.wrongSecret ≠ draw.secret)
    (request reply : Bytes) : ∃ n e, main hex draw relay request reply =
      .ok [.issues ((draw.connString relay).toUri hex), .sealed n, .clientAuthenticated request,
        .walletAuthenticated reply, .rejected e] := by
  have nonempty (secret : {b : Bytes // b.length = 16}) : secret.1 ≠ [] :=
    List.ne_nil_of_length_eq_add_one secret.2
  have round_trip (rng : H.Randomness) (skS skR : H.PrivateKey) (info m : Bytes) :=
    exists_round_trip encodings correct pskRule encapsulates honest rng skS skR
      (nonempty draw.secret) info m
  obtain ⟨wire, hwire, hbody⟩ :=
    round_trip draw.request draw.clientSk draw.walletSk INFO_REQUEST request
  obtain ⟨answer, hanswer, hresponse⟩ :=
    round_trip draw.reply draw.walletSk draw.clientSk INFO_RESPONSE reply
  obtain ⟨forged, hforged, _⟩ := exists_round_trip encodings correct pskRule encapsulates honest
    draw.forged draw.clientSk draw.walletSk (nonempty draw.wrongSecret) INFO_REQUEST request
  obtain ⟨e, he⟩ : ∃ e, openWire H draw.walletSk (H.skToPk draw.clientSk) draw.secret INFO_REQUEST
      forged = .error e :=
    exists_refusal encodings ideal hforged fun h => hwrong (Subtype.ext h)
  have hkey := kemPkFromBytes_pkToBytes encodings (H.skToPk draw.walletSk)
  have carryable : Carryable (draw.connString relay) := ⟨hrelay, nofun, nofun, nofun⟩
  have hparse := parse_toUri lawful carryable
  have hversion : (draw.connString relay).version = .V1 := rfl
  have hwalletPk : (draw.connString relay).walletPk = H.pkToBytes (H.skToPk draw.walletSk) := rfl
  have hsecret : (draw.connString relay).secret = draw.secret := rfl
  refine ⟨wire.length, e, ?_⟩
  simp only [main, hparse, hversion, hwalletPk, hsecret, hkey, sealed, hwire, hbody, hanswer,
    hresponse, hforged, he, Except.mapError, bind, Except.bind, ne_eq, not_true_eq_false, if_false]
  rfl

end

namespace Demo
open Transparent (key secret)
open Bwc.Demo (honestConnection)

def draw : Draw Clamped.hpke where
  walletSk := honestConnection.wallet.sk
  clientSk := honestConnection.client.sk
  secret := secret 7
  wrongSecret := secret 9
  request := key 3
  reply := key 4
  forged := key 5

end Demo

theorem basic_main_reports_drawn : ∃ n e, main lowerHex Demo.draw "relay.example.com" [5] [6] =
    .ok [.issues ((Demo.draw.connString "relay.example.com").toUri lowerHex), .sealed n,
      .clientAuthenticated [5], .walletAuthenticated [6], .rejected e] :=
  basic_main_reports Clamped.encodings Clamped.correct Clamped.pskRule Clamped.encapsulates
    Clamped.honest Clamped.idealAuthPsk lowerHex_lawful Demo.draw (by decide) (by decide) [5] [6]

end HpkeDemo.Bwc.Basic
