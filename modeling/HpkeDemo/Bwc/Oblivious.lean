import HpkeDemo.Bwc.Deployment

/-! What the relay of `bwc_full.rs` gets to see besides sealed bytes: where a request goes, with
which params and token, and how it is answered. Nothing of it tells what was asked, or what the
wallet made of it. -/
namespace HpkeDemo.Bwc.Deployment
open Channel

variable {H : Hpke} {V ι : Type}

/-- The relay's view of a call, as far as it is not sealed. -/
structure Sight where
  url : String
  query : List (String × String)
  bearer : Option String
  answer : Except String (Nat × String)
  deriving DecidableEq

/-- The status and the text of an answer. A sealed reply comes with status 200. -/
def statusOf : Answer → Nat × String
  | .failure status body => (status, body)
  | .success _ => (200, "")

/-- What of a client is not secret from the relay. -/
def routing (client : Client H) : String × String × List (String × String) × Option String :=
  (client.base, client.conn, client.relayParams, client.token)

namespace Site
variable [DecidableEq ι] (site : Site H V ι)

/-- A call with the relay's view of it. -/
def watched (call : Call H ι) (s : ι → Seen) : (ι → Seen) × Sight :=
  let client := (site.conns call.i).client
  let request := client.request call.sealed (call.token client)
  ((site.perform call s).1,
    { url := request.url, query := request.query, bearer := request.bearer,
      answer := (site.post (call.now, call.rng) request s).2.map statusOf })

/-- The relay's view of calls of any clients, one after another. -/
def sights (calls : List (Call H ι)) : List Sight :=
  (Machine.run site.watched (fun _ _ => none) calls).2.map Prod.snd

end Site

/-- What the relay sees of a call through it, whatever the call is for. -/
def foreseenSight (client : Client H) (authed : Bool) : Sight where
  url := client.base ++ "/" ++ client.conn ++ "/request"
  query := client.relayParams
  bearer := if authed then client.token else none
  answer := .ok (if authed then (200, "") else (401, "unauthorized: missing bearer token"))

theorem foreseenSight_congr {client client' : Client H} (h : routing client = routing client')
    (authed : Bool) : foreseenSight client authed = foreseenSight client' authed := by
  simp only [routing, Prod.mk.injEq] at h
  obtain ⟨hbase, hconn, hparams, htoken⟩ := h
  simp only [foreseenSight, hbase, hconn, hparams, htoken]

section
variable [DecidableEq ι] {LowOrder : H.PublicKey → Prop} (encodings : H.Encodings)
  (correct : H.Correct) (pskRule : H.PskRule) (encapsulates : H.Encapsulates LowOrder)
  (honest : ∀ sk, ¬ LowOrder (H.skToPk sk)) {site site' : Site H V ι}
include encodings correct pskRule encapsulates honest

theorem watched_sight (serves : ∀ i, site.Serves i) (call : Call H ι) (s : ι → Seen) :
    (site.watched call s).2 = foreseenSight (site.conns call.i).client call.authed := by
  cases hauthed : call.authed with
  | false =>
    simp only [Site.watched, Call.token, hauthed, Bool.false_eq_true, if_false]
    rw [post_without_token (serves call.i)]
    rfl
  | true =>
    obtain ⟨reply, hreply, _⟩ := (site.conns call.i).exists_reply encodings correct pskRule
      encapsulates honest (serves call.i).secret call.rng
      ((site.conns call.i).wallet.handle call.now call.sealed (s call.i)).2
    simp only [Site.watched, Call.token, hauthed, if_true]
    rw [post_of_serves (serves call.i) hreply]
    rfl

theorem sights_eq (serves : ∀ i, site.Serves i) (calls : List (Call H ι)) :
    site.sights calls =
      calls.map fun call => foreseenSight (site.conns call.i).client call.authed := by
  unfold Site.sights
  generalize (fun _ _ => none : ι → Seen) = s
  induction calls generalizing s with
  | nil => rfl
  | cons call calls ih =>
    rw [Machine.run_cons, List.map_cons, List.map_cons,
      watched_sight encodings correct pskRule encapsulates honest serves, ih]

/-- **The relay learns nothing.** Two deployments with other keys and secrets, and two runs
of them with other messages, clock readings and randomness, so also with other requests
accepted by the wallets, look the same to the relay: if only the clients' addresses, params and
tokens are the same, and the clients call in the same order. -/
theorem relay_learns_nothing (serves : ∀ i, site.Serves i) (serves' : ∀ i, site'.Serves i)
    (same : ∀ i, routing (site.conns i).client = routing (site'.conns i).client)
    (calls calls' : List (Call H ι))
    (order : calls.map (fun call => (call.i, call.authed)) =
      calls'.map fun call => (call.i, call.authed)) :
    site.sights calls = site'.sights calls' := by
  rw [sights_eq encodings correct pskRule encapsulates honest serves,
    sights_eq encodings correct pskRule encapsulates honest serves']
  calc calls.map (fun call => foreseenSight (site.conns call.i).client call.authed)
    _ = (calls.map fun call => (call.i, call.authed)).map
        fun x => foreseenSight (site.conns x.1).client x.2 := by rw [List.map_map]; rfl
    _ = (calls'.map fun call => (call.i, call.authed)).map
        fun x => foreseenSight (site'.conns x.1).client x.2 := by
      rw [order]
      simp only [foreseenSight_congr (same _)]
    _ = calls'.map fun call => foreseenSight (site'.conns call.i).client call.authed := by
      rw [List.map_map]; rfl

end

namespace Demo
open Transparent (key)
open Bwc.Demo (honestConnection nonce)

/-- The same addresses and token, and another secret. -/
def otherSite : Site Clamped.hpke String Unit :=
  { site with
    conns := fun _ => { honestConnection with
      client := { honestConnection.client with token := some "t", secret := [8] }
      wallet := { honestConnection.wallet with secret := [8] }
      client_keys := rfl
      wallet_keys := rfl
      registered := rfl
      pinned := rfl
      shared := rfl } }

theorem otherSite_serves : otherSite.Serves () where
  delivers := @http_delivers _ (otherSite.conns ()).client (by decide)
  token := ⟨"t", rfl, by decide⟩
  wallet := ⟨"http://w", by decide, by decide⟩
  secret := by decide

/-- What `site`'s client asks for, and a message that nobody sealed. -/
def asked : Call Clamped.hpke Unit :=
  ⟨(), (honestConnection.client.seal (key 3) (nonce 9) 300 [5]).toOption.getD [], true, 300, key 4⟩

def noise : Call Clamped.hpke Unit := ⟨(), [0], true, 7, key 5⟩

end Demo

/-- A request that is accepted, and a message that is not, from a client with another secret. -/
theorem relay_learns_nothing_rejected :
    Demo.site.sights [Demo.asked] = Demo.otherSite.sights [Demo.noise] :=
  relay_learns_nothing Clamped.encodings Clamped.correct Clamped.pskRule Clamped.encapsulates
    Clamped.honest (fun _ => Demo.site_serves) (fun _ => Demo.otherSite_serves) (fun _ => rfl) _ _
    rfl

end HpkeDemo.Bwc.Deployment
