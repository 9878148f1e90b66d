import HpkeDemo.Bwc.Credentials
import HpkeDemo.Bwc.Exchange
import HpkeDemo.Bwc.Isolation

/-! The deployment of `bwc_full.rs`: clients, one relay and the wallets behind it, joined by
HTTP that is assumed to deliver every message. Seen from a client, the relay is not there: what
`send` reports is what its wallet answers, whatever the other clients do meanwhile. -/
namespace HpkeDemo.Bwc.Deployment
open Channel Connect Text

variable {H : Hpke} {V ι : Type}

/-- What `reqwest`, the network and the router of `axum` make of a client's request: the `{conn}`
and the headers that `forward_request` is called with, or what the client gets instead. `toStr`
reads the value of a header. -/
structure Http (V : Type) where
  deliver : Request → Except (Except String Answer) (String × List (String × V))
  toStr : V → Option String

/-- What is assumed of HTTP: every request of the client is delivered, in time, under its
connection id and with its token as the first `Authorization` header, or with none. So its
address is no more than that of the relay, without user or path, the connection id is one
segment of the path, the token can be a header's value, and no body is over the 2 MB that
`axum` takes by default. -/
def Http.Delivers (http : Http V) (client : Client H) : Prop :=
  ∀ sealed token, token = none ∨ token = client.token → ∃ headers,
    http.deliver (client.request sealed token) = .ok (client.conn, headers) ∧
      (header headers AUTHORIZATION).bind http.toStr = token.map ("Bearer " ++ ·)

/-- A relay, the wallets that listen behind URLs, and their clients. A post of the relay's to a
URL that `reach` knows is delivered, with the same limit on its body. -/
structure Site (H : Hpke) (V ι : Type) where
  http : Http V
  relay : Relay
  reach : String → Option ι
  conns : ι → Connection H

structure Call (H : Hpke) (ι : Type) where
  i : ι
  sealed : Bytes
  authed : Bool
  now : UInt64
  rng : H.Randomness

def Call.token (call : Call H ι) (client : Client H) : Option String :=
  if call.authed then client.token else none

namespace Site

/-- A wallet reads its clock and draws randomness for its reply. A panic of its handler
closes the connection. -/
def backend (site : Site H V ι) : Backend (UInt64 × H.Randomness) ι Seen where
  reach := site.reach
  serve i env sealed seen :=
    let (seen, reply) := (site.conns i).wallet.postRequest env.2 env.1 sealed seen
    (seen, reply.mapError Panic.message)

/-- What becomes of a client's request. -/
def post [DecidableEq ι] (site : Site H V ι) (env : UInt64 × H.Randomness) (request : Request)
    (s : ι → Seen) : (ι → Seen) × Except String Answer :=
  match site.http.deliver request with
  | .error answer => (s, answer)
  | .ok (conn, headers) =>
    let (s, answer) := site.relay.forwardRequest site.http.toStr (site.backend.post env)
      { conn, headers, sealed := request.sealed } s
    (s, .ok answer)

/-- A call of `round_trip`, or of `round_trip_unauthed`. All that it does to the wallets is
what its one request does. -/
def perform [DecidableEq ι] (site : Site H V ι) (call : Call H ι) (s : ι → Seen) :
    (ι → Seen) × Except String Outcome :=
  let client := (site.conns call.i).client
  let request := client.request call.sealed (call.token client)
  let answer := fun request => (site.post (call.now, call.rng) request s).2
  ((site.post (call.now, call.rng) request s).1,
    if call.authed then client.roundTrip answer call.sealed
    else client.roundTripUnauthed answer call.sealed)

/-- Calls of any clients, one after another, from the empty caches of `Wallet::new`. -/
def session [DecidableEq ι] (site : Site H V ι) (calls : List (Call H ι)) :
    (ι → Seen) × List (Call H ι × Except String Outcome) :=
  Machine.run site.perform (fun _ _ => none) calls

/-- What `Relay::new` and the connection string set up for a connection, with HTTP that
delivers. -/
structure Serves (site : Site H V ι) (i : ι) : Prop where
  delivers : site.http.Delivers (site.conns i).client
  token : ∃ token, (site.conns i).client.token = some token ∧
    site.relay.tokens token = some (site.conns i).client.conn
  wallet : ∃ url, site.relay.wallets (site.conns i).client.conn = some url ∧
    site.reach (url ++ "/request") = some i
  secret : (site.conns i).client.secret ≠ []

end Site

section
variable {toStr : V → Option String} {relay : Relay} {σ : Type}
  {post : String → Bytes → σ → σ × Except String Bytes} {req : Incoming V} {s : σ}

theorem forwardRequest_of_reply {url : String} {t : σ} {reply : Bytes}
    (hauth : relay.authorize toStr req.conn req.headers = .ok ())
    (hurl : relay.wallets req.conn = some url)
    (hpost : post (url ++ "/request") req.sealed s = (t, .ok reply)) :
    relay.forwardRequest toStr post req s = (t, .success reply) := by
  simp only [Relay.forwardRequest, hauth, hurl, hpost]

theorem forwardRequest_without_token
    (hheaders : (header req.headers AUTHORIZATION).bind toStr = none) :
    relay.forwardRequest toStr post req s =
      (s, .failure 401 "unauthorized: missing bearer token") := by
  have hauth : relay.authorize toStr req.conn req.headers = .error "missing bearer token" := by
    simp [Relay.authorize, hheaders]
  simp only [Relay.forwardRequest, hauth]
  rfl

end

/-- `send` looks at nothing of the network but the answer to its one request. -/
theorem send_eq (client : Client H) (answer : Request → Except String Answer) (sealed : Bytes)
    (token : Option String) : client.send answer sealed token =
      client.send (fun _ => answer (client.request sealed token)) sealed token := rfl

theorem send_of_reply {client : Client H} {reply sealed : Bytes} {token : Option String}
    {result : Except String Bytes} (hopen : openWire H client.sk client.walletPk client.secret
      INFO_RESPONSE reply = .ok (Wallet.payload result)) :
    client.send (fun _ => .ok (.success reply)) sealed token = .ok (.ofResult result) := by
  refine send_reply_eq_ok_iff.mpr ⟨_, hopen, ?_⟩
  rw [decode_payload]
  cases result <;> rfl

section
variable {site : Site H V ι} {i : ι} {s : ι → Seen} {call : Call H ι}
  {env : UInt64 × H.Randomness} {sealed : Bytes}

variable [DecidableEq ι]

/-- A request with the client's token reaches its wallet, and brings back the reply. -/
theorem post_of_serves (serves : site.Serves i) {reply : Bytes}
    (hreply : (site.conns i).wallet.reply env.2
      ((site.conns i).wallet.handle env.1 sealed (s i)).2 = .ok reply) :
    site.post env ((site.conns i).client.request sealed (site.conns i).client.token) s =
      (Function.update s i ((site.conns i).wallet.handle env.1 sealed (s i)).1,
        .ok (.success reply)) := by
  obtain ⟨token, htoken, hgranted⟩ := serves.token
  obtain ⟨url, hurl, hreach⟩ := serves.wallet
  obtain ⟨headers, hdeliver, hheaders⟩ := serves.delivers sealed _ (Or.inr rfl)
  rw [htoken] at hheaders
  let req : Incoming V := { conn := (site.conns i).client.conn, headers, sealed }
  have hauth : site.relay.authorize site.http.toStr req.conn req.headers = .ok () :=
    Relay.authorize_eq_ok_iff.mpr ⟨token, Option.bind_eq_some_iff.mp hheaders, hgranted⟩
  have hpost : site.backend.post env (url ++ "/request") sealed s =
      (Function.update s i ((site.conns i).wallet.handle env.1 sealed (s i)).1, .ok reply) := by
    simp only [Backend.post, Site.backend, hreach, Wallet.postRequest, hreply, Except.mapError]
  simp only [Site.post, hdeliver]
  have hforward : site.relay.forwardRequest site.http.toStr (site.backend.post env) req s =
      (Function.update s i ((site.conns i).wallet.handle env.1 sealed (s i)).1,
        .success reply) := forwardRequest_of_reply hauth hurl hpost
  simp only [Client.request]
  rw [hforward]

/-- A request without a token is refused by the relay, and no wallet hears of it. -/
theorem post_without_token (serves : site.Serves i) :
    site.post env ((site.conns i).client.request sealed none) s =
      (s, .ok (.failure 401 "unauthorized: missing bearer token")) := by
  obtain ⟨headers, hdeliver, hheaders⟩ := serves.delivers sealed none (Or.inl rfl)
  simp only [Site.post, hdeliver]
  rw [forwardRequest_without_token hheaders]

theorem perform_unauthed (serves : site.Serves call.i) (h : call.authed = false) :
    site.perform call s =
      (s, .ok (.relayRejected 401 "unauthorized: missing bearer token")) := by
  simp only [Site.perform, Call.token, h, Bool.false_eq_true, if_false, Client.roundTripUnauthed]
  rw [send_eq, post_without_token serves]
  rfl

section
variable {LowOrder : H.PublicKey → Prop} (encodings : H.Encodings) (correct : H.Correct)
  (pskRule : H.PskRule) (encapsulates : H.Encapsulates LowOrder)
  (honest : ∀ sk, ¬ LowOrder (H.skToPk sk))
include encodings correct pskRule encapsulates honest

/-- A call with the token is a call of `handle`, and the client reports its result. -/
theorem perform_authed (serves : site.Serves call.i) (h : call.authed = true) :
    site.perform call s =
      (Function.update s call.i
          ((site.conns call.i).wallet.handle call.now call.sealed (s call.i)).1,
        .ok (.ofResult
          ((site.conns call.i).wallet.handle call.now call.sealed (s call.i)).2)) := by
  obtain ⟨reply, hreply, hopen⟩ := (site.conns call.i).exists_reply encodings correct pskRule
    encapsulates honest serves.secret call.rng
    ((site.conns call.i).wallet.handle call.now call.sealed (s call.i)).2
  simp only [Site.perform, Call.token, h, if_true, Client.roundTrip]
  rw [send_eq, post_of_serves serves hreply, send_of_reply hopen]

/-- The calls of client `i` that carry its token, as its wallet gets them. -/
def callsOf (i : ι) (call : Call H ι) : Option (UInt64 × Bytes) :=
  if call.i = i ∧ call.authed = true then some (call.now, call.sealed) else none

/-- One client's calls are a session of its wallet. -/
theorem session_of_wallet (serves : ∀ i, site.Serves i) (calls : List (Call H ι)) (i : ι) :
    (site.session calls).1 i =
        ((site.conns i).wallet.session (calls.filterMap (callsOf i))).1 ∧
      (site.session calls).2.filterMap
          (fun x => (callsOf i x.1).map fun call => (call, x.2)) =
        ((site.conns i).wallet.session (calls.filterMap (callsOf i))).2.map
          fun x => (x.1, .ok (.ofResult x.2)) := by
  refine Machine.run_project (fun s : ι → Seen => s i) (callsOf i)
    (fun result => Except.ok (Outcome.ofResult result)) ?_ ?_ (fun _ _ => none) calls
  · rintro call own s hown
    obtain ⟨⟨rfl, hauthed⟩, hcall⟩ := Option.ite_none_right_eq_some.mp hown
    obtain rfl := Option.some.inj hcall
    rw [perform_authed encodings correct pskRule encapsulates honest (serves call.i) hauthed]
    exact ⟨Function.update_self .., rfl⟩
  · intro call s hother
    cases hauthed : call.authed with
    | false => rw [perform_unauthed (serves call.i) hauthed]
    | true =>
      have hne : i ≠ call.i := by
        rintro rfl
        simp [callsOf, hauthed] at hother
      rw [perform_authed encodings correct pskRule encapsulates honest (serves call.i) hauthed]
      exact Function.update_of_ne hne _ _

/-- **The relay is transparent.** In every run of any number of clients' calls through one
relay: what client `i` reports of its calls with the token is what a session of its wallet
with just these calls answers, and its wallet ends with the cache of that session. A call
without the token is refused by the relay and changes nothing. -/
theorem relay_is_transparent (site : Site H V ι) (serves : ∀ i, site.Serves i)
    (calls : List (Call H ι)) :
    (∀ i, (site.session calls).1 i =
        ((site.conns i).wallet.session (calls.filterMap (callsOf i))).1 ∧
      (site.session calls).2.filterMap
          (fun x => (callsOf i x.1).map fun call => (call, x.2)) =
        ((site.conns i).wallet.session (calls.filterMap (callsOf i))).2.map
          fun x => (x.1, .ok (.ofResult x.2))) ∧
    ∀ x ∈ (site.session calls).2, x.1.authed = false →
      x.2 = .ok (.relayRejected 401 "unauthorized: missing bearer token") := by
  refine ⟨session_of_wallet encodings correct pskRule encapsulates honest serves calls, ?_⟩
  intro x hx hauthed
  obtain ⟨s, hstep⟩ := Machine.exists_step_of_mem _ hx
  rw [← hstep, perform_unauthed (serves x.1.i) hauthed]

end
end

namespace Demo
open Transparent (key)
open Bwc.Demo (honestConnection nonce)

/-- The `{conn}` of a URL that the route `/{conn}/request` of a relay at `base` takes. -/
def route (base url : String) : Option String := do
  let path ← stripPrefix (base ++ "/") url
  let (conn, rest) ← splitOnce '/' path
  if rest = "request" then some conn else none

/-- HTTP that takes an address for what it says, and any text for a header's value. -/
def http (base : String) : Http String where
  deliver request :=
    match route base request.url with
    | none => .error (.ok (.failure 404 ""))
    | some conn => .ok (conn, request.bearer.toList.map fun token =>
        (AUTHORIZATION, "Bearer " ++ token))
  toStr := some

theorem http_delivers {client : Client H} (hconn : Free '/' client.conn) :
    (http client.base).Delivers client := by
  intro sealed token _
  have hpath : stripPrefix (client.base ++ "/") (client.request sealed token).url =
      some (client.conn ++ "/request") :=
    stripPrefix_eq_some_iff.mpr (by simp only [Client.request, String.append_assoc])
  have hsplit : splitOnce '/' (client.conn ++ "/request") = some (client.conn, "request") := by
    refine splitOnce_eq_some_iff.mpr ⟨hconn, ?_⟩
    rw [String.append_assoc]
    rfl
  have hroute : route client.base (client.request sealed token).url = some client.conn := by
    simp [route, hpath, hsplit]
  simp only [http, hroute]
  exact ⟨_, rfl, by cases token <;> rfl⟩

/-- A connection with a token, behind a relay that issued it. -/
def site : Site Clamped.hpke String Unit where
  http := http "http://relay"
  relay := { wallets := fun conn => if conn = "wallet" then some "http://w" else none
             tokens := fun token => if token = "t" then some "wallet" else none }
  reach url := if url = "http://w/request" then some () else none
  conns _ := { honestConnection with
    client := { honestConnection.client with token := some "t" }
    client_keys := rfl
    registered := rfl
    pinned := rfl
    shared := rfl }

theorem site_serves : site.Serves () where
  delivers := @http_delivers _ (site.conns ()).client (by decide)
  token := ⟨"t", rfl, by decide⟩
  wallet := ⟨"http://w", by decide, by decide⟩
  secret := by decide

/-- A call with the token and one without. -/
def calls : List (Call Clamped.hpke Unit) :=
  [⟨(), [7], true, 300, key 4⟩, ⟨(), [7], false, 300, key 4⟩]

end Demo

/-- The wallet hears of the call with the token only. -/
theorem relay_is_transparent_two : (Demo.site.session Demo.calls).1 () =
    ((Demo.site.conns ()).wallet.session [(300, [7])]).1 :=
  ((relay_is_transparent Clamped.encodings Clamped.correct Clamped.pskRule Clamped.encapsulates
    Clamped.honest Demo.site (fun _ => Demo.site_serves) Demo.calls).1 ()).1

end HpkeDemo.Bwc.Deployment
