import HpkeDemo.Bwc.Client
import HpkeDemo.Connect.Params

/-! Where the credentials of a connection string go: the token into the `Authorization`
header, the secret into the sealed bytes, and neither into the URL. -/
namespace HpkeDemo.Bwc
open Channel Connect Text

variable {H : Hpke}

namespace Client

/-- What `send` has built when it sends. -/
def request (client : Client H) (sealed : Bytes) (token : Option String) : Request where
  url := client.base ++ "/" ++ client.conn ++ "/request"
  query := client.relayParams
  bearer := token
  sealed := sealed

/-- `Client::round_trip`. -/
def roundTrip (client : Client H) (post : Request → Except String Answer) (sealed : Bytes) :
    Except String Outcome :=
  client.send post sealed client.token

/-- `Client::round_trip_unauthed`. -/
def roundTripUnauthed (client : Client H) (post : Request → Except String Answer)
    (sealed : Bytes) : Except String Outcome :=
  client.send post sealed none

end Client

/-- All that `run` puts on the network is `request`, once and whatever comes back. -/
def Posts (run : (Request → Except String Answer) → Except String Outcome)
    (request : Request) : Prop :=
  ∃ receive : Answer → Except String Outcome, ∀ post, run post = post request >>= receive

/-- A run posts one request. -/
theorem Posts.unique {run : (Request → Except String Answer) → Except String Outcome}
    {r r' : Request} (h : Posts run r) (h' : Posts run r') : r = r' := by
  classical
  obtain ⟨receive, hrun⟩ := h
  obtain ⟨receive', hrun'⟩ := h'
  by_contra hne
  -- A network that answers every request but `r` with its own error tells them apart.
  have hpost := (hrun fun q => if q = r then .error "r" else .error "r'").symm.trans (hrun' _)
  rw [if_pos rfl, if_neg (Ne.symm hne)] at hpost
  have hne' : "r" ≠ "r'" := by decide
  exact hne' (Except.error.inj hpost)

variable {hex : HexCodec} {uri uri' : String} {c c' : ConnString} {sk sk' : H.PrivateKey}
  {pk pk' : H.PublicKey} {client client' : Client H}

theorem send_posts (client : Client H) (sealed : Bytes) (token : Option String) :
    Posts (client.send · sealed token) (client.request sealed token) :=
  ⟨_, fun _ => rfl⟩

/-- What a connection string and a keypair make a client of. -/
theorem new_eq_ok (h : Client.new hex c sk pk = .ok client) :
    client.base = "http://" ++ c.relay ∧ client.conn = hex.encode c.walletPk ∧
      H.pkFromBytes c.walletPk = .ok client.walletPk ∧ client.secret = c.secret ∧
      client.token = c.token ∧ client.relayParams = c.relayParams ∧
      client.sk = sk ∧ client.pk = pk := by
  obtain ⟨walletPk, hpk, h⟩ := bind_eq_ok_iff.mp h
  obtain rfl := Except.ok.inj h
  exact ⟨rfl, rfl, mapError_eq_ok_iff.mp hpk, rfl, rfl, rfl, rfl, rfl⟩

/-- The URL and query of a client's requests, from its string. -/
theorem request_eq (hparse : ConnString.parse hex uri = .ok c)
    (hnew : Client.new hex c sk pk = .ok client) (sealed : Bytes) (token : Option String) :
    client.request sealed token =
      ⟨"http://" ++ c.relay ++ "/" ++ hex.encode c.walletPk ++ "/request", unrecognised uri,
        token, sealed⟩ := by
  obtain ⟨hbase, hconn, _, _, _, hparams, _, _⟩ := new_eq_ok hnew
  rw [Client.request, hbase, hconn, hparams, relayParams_eq_unrecognised hparse]

/-- **The credentials stay out of the URL.** Two strings that agree but for their version,
secret and token pairs give clients that post to one URL with one query. The header is
the token that was read, and the secret reaches nothing but the sealed bytes. -/
theorem credentials_stay_out (hparse : ConnString.parse hex uri = .ok c)
    (hparse' : ConnString.parse hex uri' = .ok c') (hnew : Client.new hex c sk pk = .ok client)
    (hnew' : Client.new hex c' sk' pk' = .ok client') (hrelay : c.relay = c'.relay)
    (hwallet : c.walletPk = c'.walletPk) (hrest : unrecognised uri = unrecognised uri') :
    ∃ url query, ∀ sealed,
      (∀ token, Posts (client.send · sealed token) ⟨url, query, token, sealed⟩ ∧
        Posts (client'.send · sealed token) ⟨url, query, token, sealed⟩) ∧
      Posts (client.roundTrip · sealed) ⟨url, query, c.token, sealed⟩ ∧
      Posts (client'.roundTrip · sealed) ⟨url, query, c'.token, sealed⟩ ∧
      Posts (client.roundTripUnauthed · sealed) ⟨url, query, none, sealed⟩ ∧
      Posts (client'.roundTripUnauthed · sealed) ⟨url, query, none, sealed⟩ := by
  refine ⟨"http://" ++ c.relay ++ "/" ++ hex.encode c.walletPk ++ "/request", unrecognised uri, ?_⟩
  intro sealed
  have posts (token : Option String) := send_posts client sealed token
  have posts' (token : Option String) := send_posts client' sealed token
  simp only [request_eq hparse hnew] at posts
  simp only [request_eq hparse' hnew', ← hrelay, ← hwallet, ← hrest] at posts'
  refine ⟨fun token => ⟨posts token, posts' token⟩, ?_, ?_, posts none, posts' none⟩
  · rw [← (new_eq_ok hnew).2.2.2.2.1]
    exact posts client.token
  · rw [← (new_eq_ok hnew').2.2.2.2.1]
    exact posts' client'.token

namespace Demo
open Transparent (key)

/-- Two connections to one wallet that differ in their credentials. -/
def credentials (secret : Bytes) (token : Option String) : ConnString :=
  ⟨"relay.example.com", .V1, (key 2).1, secret, token, [("k", "x")]⟩

theorem credentials_carryable (secret : Bytes) {token : Option String}
    (h : ∀ t, token = some t → Free '&' t) : Carryable (credentials secret token) where
  relay := (by decide : Free '?' "relay.example.com")
  token := h
  keys := (by decide : ∀ kv ∈ [("k", "x")], kv.1 ∉ reserved ∧ Free '&' kv.1 ∧ Free '=' kv.1)
  values := (by decide : ∀ kv ∈ [("k", "x")], Free '&' kv.2)

def credentialsClient (secret : Bytes) (token : Option String) : Client Transparent.hpke where
  base := "http://" ++ "relay.example.com"
  conn := lowerHex.encode (key 2).1
  sk := key 1
  pk := key 1
  walletPk := key 2
  secret := secret
  token := token
  relayParams := [("k", "x")]

end Demo

/-- A secret and token against another secret and none. -/
theorem credentials_stay_out_two : ∃ url query, ∀ sealed,
    (∀ token, Posts ((Demo.credentialsClient [7] (some "t")).send · sealed token)
        ⟨url, query, token, sealed⟩ ∧
      Posts ((Demo.credentialsClient [8, 9] none).send · sealed token)
        ⟨url, query, token, sealed⟩) ∧
    Posts ((Demo.credentialsClient [7] (some "t")).roundTrip · sealed)
      ⟨url, query, some "t", sealed⟩ ∧
    Posts ((Demo.credentialsClient [8, 9] none).roundTrip · sealed) ⟨url, query, none, sealed⟩ ∧
    Posts ((Demo.credentialsClient [7] (some "t")).roundTripUnauthed · sealed)
      ⟨url, query, none, sealed⟩ ∧
    Posts ((Demo.credentialsClient [8, 9] none).roundTripUnauthed · sealed)
      ⟨url, query, none, sealed⟩ := by
  have withToken := parse_toUri lowerHex_lawful
    (Demo.credentials_carryable [7]
      (by rintro _ ⟨⟩; decide : ∀ t, some "t" = some t → Free '&' t))
  have without := parse_toUri lowerHex_lawful
    (Demo.credentials_carryable [8, 9] (nofun : ∀ t, none = some t → Free '&' t))
  have hrest := relayParams_eq_unrecognised withToken
  have hrest' := relayParams_eq_unrecognised without
  exact credentials_stay_out (H := Transparent.hpke) withToken without
    (show Client.new lowerHex _ (Transparent.key 1) (Transparent.key 1) = _ from rfl)
    (show Client.new lowerHex _ (Transparent.key 1) (Transparent.key 1) = _ from rfl) rfl rfl
    (hrest.symm.trans hrest')

end HpkeDemo.Bwc
