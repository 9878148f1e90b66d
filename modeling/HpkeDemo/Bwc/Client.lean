import HpkeDemo.Bwc.Wallet
import HpkeDemo.Transparent

/-! The client of `bwc_full.rs`, and the connection between a client and a wallet. -/
namespace HpkeDemo.Bwc
open Channel Connect Text

structure Client (H : Hpke) where
  base : String
  conn : String
  sk : H.PrivateKey
  pk : H.PublicKey
  walletPk : H.PublicKey
  secret : Bytes
  token : Option String
  relayParams : List (String × String)

/-- What a client posts to the relay. -/
structure Request where
  url : String
  query : List (String × String)
  bearer : Option String
  sealed : Bytes

/-- What the relay answers: a status that is no success with its text, or a reply. -/
inductive Answer where
  | failure (status : Nat) (body : String)
  | success (sealed : Bytes)

/-- The outcomes that `send` prints. -/
inductive Outcome where
  | relayRejected (status : Nat) (body : String)
  | accepted (body : Bytes)
  | rejected (reason : String)
  deriving DecidableEq, Repr

variable {H : Hpke}

def Client.new (hex : HexCodec) (conn : ConnString) (sk : H.PrivateKey) (pk : H.PublicKey) :
    Except String (Client H) := do
  let walletPk ← kemPkFromBytes H conn.walletPk
  return { base := "http://" ++ conn.relay, conn := hex.encode conn.walletPk, sk, pk, walletPk,
           secret := conn.secret, token := conn.token, relayParams := conn.relayParams }

/-- `Client::seal`; the nonce and `rng` are what the OS random generator yields. -/
def Client.seal (client : Client H) (rng : H.Randomness) (nonce : Nonce) (timestamp : UInt64)
    (body : Bytes) : Except Panic Bytes :=
  sealWire H rng (client.sk, client.pk) client.walletPk client.secret INFO_REQUEST
    (nonce ++ Bytes.ofU64 timestamp ++ body)

/-- `Client::send`, over whatever `post` makes of the request. -/
def Client.send (client : Client H) (post : Request → Except String Answer) (sealed : Bytes)
    (token : Option String) : Except String Outcome := do
  let url := client.base ++ "/" ++ client.conn ++ "/request"
  match ← post { url, query := client.relayParams, bearer := token, sealed } with
  | .failure status body => return .relayRejected status body
  | .success reply =>
    let payload ← openWire H client.sk client.walletPk client.secret INFO_RESPONSE reply
    match Response.decode payload with
    | .ok body => return .accepted body
    | .error reason => return .rejected reason

/-- A client and a wallet with matching keys, one secret, and each other's public key. -/
structure Connection (H : Hpke) where
  client : Client H
  wallet : Wallet H
  client_keys : H.skToPk client.sk = client.pk
  wallet_keys : H.skToPk wallet.sk = wallet.pk
  registered : wallet.clientPk = client.pk
  pinned : client.walletPk = wallet.pk
  shared : client.secret = wallet.secret

/-- What a connection's client seals, its wallet opens. -/
theorem Connection.opens_of_seal (encodings : H.Encodings) (correct : H.Correct)
    (c : Connection H) {rng : H.Randomness} {nonce : Nonce} {timestamp : UInt64} {body wire : Bytes}
    (h : c.client.seal rng nonce timestamp body = .ok wire) :
    c.wallet.Opens wire nonce timestamp body := by
  rw [Client.seal, c.shared, c.pinned, ← c.wallet_keys, ← c.client_keys] at h
  rw [Wallet.Opens, c.registered, ← c.client_keys]
  exact openWire_sealWire encodings correct h

namespace Demo
open Transparent (key)

/-- A client and a wallet over the crate that hides nothing. -/
def connection : Connection Transparent.hpke where
  client := { base := "http://relay", conn := "wallet", sk := key 1, pk := key 1,
              walletPk := key 2, secret := [7], token := none, relayParams := [] }
  wallet := { sk := key 2, pk := key 2, secret := [7], clientPk := key 1 }
  client_keys := rfl
  wallet_keys := rfl
  registered := rfl
  pinned := rfl
  shared := rfl

def nonce (b : UInt8) : Nonce := ⟨List.replicate 16 b, by simp [NONCE_LEN]⟩

/-- A request that `connection`'s client sealed. -/
def request (b : UInt8) (timestamp : UInt64) (body : Bytes) : Bytes :=
  (connection.client.seal (key 3) (nonce b) timestamp body).toOption.getD []

end Demo
end HpkeDemo.Bwc
