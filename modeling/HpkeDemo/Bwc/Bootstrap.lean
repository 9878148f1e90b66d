import HpkeDemo.Bwc.Deployment

/-! `main` of `bwc_full.rs`: what it draws, the wallet, the relay and the connection string it
makes of that, and the client that comes of parsing the string. -/
namespace HpkeDemo.Bwc.Deployment
open Channel Connect Text
open Transparent (key)
open Bwc.Demo (honestConnection nonce)

/-- What `main` draws, and the addresses it is given. -/
structure Draw (H : Hpke) where
  walletSk : H.PrivateKey
  clientSk : H.PrivateKey
  secret : {b : Bytes // b.length = 16}
  token : {b : Bytes // b.length = 32}
  walletAddr : String
  relayAddr : String

variable {H : Hpke} {V : Type}

namespace Draw
variable (hex : HexCodec) (draw : Draw H)

def walletPk : H.PublicKey := H.skToPk draw.walletSk
def clientPk : H.PublicKey := H.skToPk draw.clientSk

def connId : String := hex.encode (H.pkToBytes draw.walletPk)
def bearer : String := hex.encode draw.token

def wallet : Wallet H where
  sk := draw.walletSk
  pk := draw.walletPk
  secret := draw.secret
  clientPk := draw.clientPk

def relay : Relay where
  wallets conn := if conn = draw.connId hex then some ("http://" ++ draw.walletAddr) else none
  tokens token := if token = draw.bearer hex then some (draw.connId hex) else none

def connString : ConnString where
  relay := draw.relayAddr
  version := .V1
  walletPk := H.pkToBytes draw.walletPk
  secret := draw.secret
  token := some (draw.bearer hex)
  relayParams := [("region", "us-west")]

/-- The client's side, from the URI that the wallet hands out. -/
def bootstrap : Except String (Client H) := do
  let conn ← ConnString.parse hex ((draw.connString hex).toUri hex)
  if conn.version ≠ .V1 then
    throw "this example implements v1 only; see bwc_post_quantum_upgrade for v2"
  Client.new hex conn draw.clientSk draw.clientPk

/-- The client that comes of it. -/
def client : Client H where
  base := "http://" ++ draw.relayAddr
  conn := draw.connId hex
  sk := draw.clientSk
  pk := draw.clientPk
  walletPk := draw.walletPk
  secret := draw.secret
  token := some (draw.bearer hex)
  relayParams := [("region", "us-west")]

def connection : Connection H where
  client := draw.client hex
  wallet := draw.wallet
  client_keys := rfl
  wallet_keys := rfl
  registered := rfl
  pinned := rfl
  shared := rfl

def site (http : Http V) : Site H V Unit where
  http := http
  relay := draw.relay hex
  reach url := if url = "http://" ++ draw.walletAddr ++ "/request" then some () else none
  conns _ := draw.connection hex

variable {hex draw}

theorem carryable (lawful : hex.Lawful) (hrelay : Free '?' draw.relayAddr) :
    Carryable (draw.connString hex) where
  relay := hrelay
  token := by
    rintro _ ⟨⟩
    exact lawful.free _ (by decide)
  keys := (by decide : ∀ kv ∈ [("region", "us-west")],
    kv.1 ∉ reserved ∧ Free '&' kv.1 ∧ Free '=' kv.1)
  values := (by decide : ∀ kv ∈ [("region", "us-west")], Free '&' kv.2)

theorem bootstrap_eq (lawful : hex.Lawful) (encodings : H.Encodings)
    (hrelay : Free '?' draw.relayAddr) : draw.bootstrap hex = .ok (draw.client hex) := by
  have hparse := parse_toUri lawful (carryable lawful hrelay)
  rw [bootstrap, hparse]
  simp only [bind, Except.bind, connString, Client.new, kemPkFromBytes_pkToBytes encodings]
  rfl

theorem serves {http : Http V} (delivers : http.Delivers (draw.client hex)) :
    (draw.site hex http).Serves () where
  delivers := delivers
  token := ⟨draw.bearer hex, rfl, if_pos rfl⟩
  wallet := ⟨"http://" ++ draw.walletAddr, if_pos rfl, if_pos rfl⟩
  secret := List.ne_nil_of_length_eq_add_one draw.secret.2

end Draw

/-- Ten minutes before a reading is outside the window of any later one. -/
theorem not_near_sub {now t : UInt64} (ht : 600 ≤ t) (hnow : t ≤ now) :
    ¬ Near now (t - 10 * 60) := by
  have hsub : (t - 10 * 60).toNat = t.toNat - 600 := UInt64.toNat_sub_of_le t (10 * 60) ht
  rw [UInt64.le_iff_toNat_le] at ht hnow
  have h600 : (600 : UInt64).toNat = 600 := rfl
  rintro ⟨h, _⟩
  omega

/-- **What `main` reports.** Whatever is drawn, the wallet's string makes a client, and if its
requests are delivered to the relay, its four calls end as the program says: a fresh request is
acknowledged, its replay within the window is rejected as one, a request sealed for ten minutes
ago is rejected as stale, and one without the token never passes the relay. -/
theorem main_reports {LowOrder : H.PublicKey → Prop} (encodings : H.Encodings)
    (correct : H.Correct) (pskRule : H.PskRule) (encapsulates : H.Encapsulates LowOrder)
    (honest : ∀ sk, ¬ LowOrder (H.skToPk sk)) {hex : HexCodec} (lawful : hex.Lawful)
    (draw : Draw H) (hrelay : Free '?' draw.relayAddr) (http : Http V)
    (delivers : http.Delivers (draw.client hex)) :
    ∃ client, draw.bootstrap hex = .ok client ∧
      ∀ (r₁ r₂ r₃ q₁ q₂ q₃ q₄ : H.Randomness) (n₁ n₂ n₃ : Nonce) (body body' : Bytes)
        (t₁ now₁ now₂ t₂ now₃ t₃ now₄ : UInt64),
        Near now₁ t₁ → Near now₂ t₁ → 600 ≤ t₂ → t₂ ≤ now₃ →
        ∃ fresh stale barred, client.seal r₁ n₁ t₁ body = .ok fresh ∧
          client.seal r₂ n₂ (t₂ - 10 * 60) body' = .ok stale ∧
          client.seal r₃ n₃ t₃ body = .ok barred ∧
          ((draw.site hex http).session
            [⟨(), fresh, true, now₁, q₁⟩, ⟨(), fresh, true, now₂, q₂⟩,
              ⟨(), stale, true, now₃, q₃⟩, ⟨(), barred, false, now₄, q₄⟩]).2.map Prod.snd =
            [.ok (.accepted (Wallet.ack body)),
              .ok (.rejected "replayed: nonce already seen this session"),
              .ok (.rejected "clock skew: timestamp outside the freshness window"),
              .ok (.relayRejected 401 "unauthorized: missing bearer token")] := by
  refine ⟨draw.client hex, Draw.bootstrap_eq lawful encodings hrelay, ?_⟩
  intro r₁ r₂ r₃ q₁ q₂ q₃ q₄ n₁ n₂ n₃ body body' t₁ now₁ now₂ t₂ now₃ t₃ now₄ h₁ h₂ ht₂ h₃
  have serves : (draw.site hex http).Serves () := Draw.serves delivers
  have seals := (draw.connection hex).exists_seal pskRule encapsulates honest serves.secret
  obtain ⟨fresh, hfresh⟩ := seals r₁ n₁ t₁ body
  obtain ⟨stale, hstale⟩ := seals r₂ n₂ (t₂ - 10 * 60) body'
  obtain ⟨barred, hbarred⟩ := seals r₃ n₃ t₃ body
  refine ⟨fresh, stale, barred, hfresh, hstale, hbarred, ?_⟩
  have opensFresh := (draw.connection hex).opens_of_seal encodings correct hfresh
  have opensStale := (draw.connection hex).opens_of_seal encodings correct hstale
  have authed (sealed : Bytes) (now : UInt64) (q : H.Randomness) (s : Unit → Seen) :
      (draw.site hex http).perform ⟨(), sealed, true, now, q⟩ s =
        (Function.update s () (draw.wallet.handle now sealed (s ())).1,
          .ok (.ofResult (draw.wallet.handle now sealed (s ())).2)) :=
    perform_authed encodings correct pskRule encapsulates honest serves rfl
  have hwallet : (draw.connection hex).wallet = draw.wallet := rfl
  rw [hwallet] at opensFresh opensStale
  have hnew : ¬ Remembered (fun _ => none) now₁ n₁ := by
    rintro ⟨seenAt, h, _⟩
    cases h
  obtain ⟨hok, hkept⟩ := seen_of_accepted opensFresh h₁ hnew
  have hseen : Remembered (draw.wallet.handle now₁ fresh fun _ => none).1 now₂ n₁ :=
    ⟨now₁, hkept, by have := h₁.2; have := h₂.1; omega⟩
  simp only [Site.session, Machine.run_cons, Machine.run_nil, authed, Function.update_self,
    perform_unauthed serves, List.map_cons, List.map_nil]
  rw [hok, replayed_of_remembered opensFresh h₂ hseen,
    stale_of_far opensStale (not_near_sub ht₂ h₃)]
  rfl

namespace Demo

def draw : Draw Clamped.hpke where
  walletSk := honestConnection.wallet.sk
  clientSk := honestConnection.client.sk
  secret := Transparent.secret 7
  token := key 8
  walletAddr := "127.0.0.1:8081"
  relayAddr := "127.0.0.1:8080"

theorem draw_delivers :
    (http "http://127.0.0.1:8080").Delivers (draw.client lowerHex) :=
  @http_delivers _ (draw.client lowerHex) (lowerHex_lawful.free _ (by decide))

end Demo

/-- With the replay at the far end of the window. -/
theorem main_reports_drawn : ∃ client fresh stale barred,
    Demo.draw.bootstrap lowerHex = .ok client ∧
      client.seal (key 3) (nonce 9) 700 [5] = .ok fresh ∧
      ((Demo.draw.site lowerHex (Demo.http "http://127.0.0.1:8080")).session
        [⟨(), fresh, true, 700, key 4⟩, ⟨(), fresh, true, 1000, key 4⟩,
          ⟨(), stale, true, 1000, key 4⟩, ⟨(), barred, false, 1000, key 4⟩]).2.map Prod.snd =
        [.ok (.accepted (Wallet.ack [5])),
          .ok (.rejected "replayed: nonce already seen this session"),
          .ok (.rejected "clock skew: timestamp outside the freshness window"),
          .ok (.relayRejected 401 "unauthorized: missing bearer token")] := by
  obtain ⟨client, hclient, reports⟩ := main_reports Clamped.encodings Clamped.correct
    Clamped.pskRule Clamped.encapsulates Clamped.honest lowerHex_lawful Demo.draw (by decide)
    _ Demo.draw_delivers
  obtain ⟨fresh, stale, barred, hfresh, _, _, houtcomes⟩ := reports (key 3) (key 3) (key 3)
    (key 4) (key 4) (key 4) (key 4) (nonce 9) (nonce 8) (nonce 7) [5] [6] 700 700 1000 1000 1000
    1000 1000 ⟨by decide, by decide⟩ ⟨by decide, by decide⟩ (by decide) (by decide)
  exact ⟨client, fresh, stale, barred, hclient, hfresh, houtcomes⟩

end HpkeDemo.Bwc.Deployment
