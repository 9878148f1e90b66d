import HpkeDemo.Bwc.Client

/-! The relay of `bwc_full.rs`: `authorize` and `forward_request`. A header value is read
by `toStr`; what the relay posts is recorded with what came back. -/
namespace HpkeDemo.Bwc
open Text

structure Relay where
  wallets : String → Option String
  tokens : String → Option String

/-- What the framework hands to `forward_request`. Header names are in lower case. -/
structure Incoming (V : Type) where
  conn : String
  headers : List (String × V)
  sealed : Bytes

def AUTHORIZATION : String := "authorization"

/-- `HeaderMap::get`, the first value of a header. -/
def header {V : Type} (headers : List (String × V)) (name : String) : Option V :=
  (headers.find? (·.1 = name)).map Prod.snd

/-- A post of the relay's, with the reply or the error it got. -/
structure Forwarded where
  url : String
  sealed : Bytes
  reply : Except String Bytes
  deriving DecidableEq

namespace Relay
variable {V σ : Type} (toStr : V → Option String) (relay : Relay)

def authorize (conn : String) (headers : List (String × V)) : Except String Unit :=
  match ((header headers AUTHORIZATION).bind toStr).bind (stripPrefix "Bearer ") with
  | none => .error "missing bearer token"
  | some token =>
    match relay.tokens token with
    | some granted =>
      if granted = conn then .ok () else .error "token not valid for this connection"
    | none => .error "unknown token"

/-- `forward_request`, over whatever `post` does to the wallet behind a URL. -/
def forwardRequest (post : String → Bytes → σ → σ × Except String Bytes) (req : Incoming V)
    (s : σ) : σ × Answer :=
  match relay.authorize toStr req.conn req.headers with
  | .error e => (s, .failure 401 ("unauthorized: " ++ e))
  | .ok () =>
    match relay.wallets req.conn with
    | none => (s, .failure 404 "unknown connection")
    | some walletUrl =>
      match post (walletUrl ++ "/request") req.sealed s with
      | (s, .ok reply) => (s, .success reply)
      | (s, .error _) => (s, .failure 502 "")

/-- `post`, with a record of its calls. -/
def recorded (post : String → Bytes → σ → σ × Except String Bytes) (url : String)
    (sealed : Bytes) (s : σ × List Forwarded) : (σ × List Forwarded) × Except String Bytes :=
  let (state, reply) := post url sealed s.1
  ((state, s.2 ++ [⟨url, sealed, reply⟩]), reply)

/-- One request, with what the relay posted for it and what it answered. -/
def step (post : String → Bytes → σ → σ × Except String Bytes) (req : Incoming V) (s : σ) :
    σ × List Forwarded × Answer :=
  let ((state, posts), answer) := relay.forwardRequest toStr (recorded post) req (s, [])
  (state, posts, answer)

/-- The first `Authorization` header is readable and presents this token. -/
def Presents (req : Incoming V) (token : String) : Prop :=
  ∃ value, header req.headers AUTHORIZATION = some value ∧ toStr value = some ("Bearer " ++ token)

/-- The request is for `conn`, presents a token issued for it, and `conn` has a wallet. -/
def Admitted (conn : String) (req : Incoming V) : Prop :=
  req.conn = conn ∧ (∃ token, Presents toStr req token ∧ relay.tokens token = some conn) ∧
    ∃ url, relay.wallets conn = some url

variable {toStr relay} {conn : String} {req : Incoming V}

theorem presents_iff {token : String} : Presents toStr req token ↔
    ((header req.headers AUTHORIZATION).bind toStr).bind (stripPrefix "Bearer ") = some token := by
  simp only [Presents, Option.bind_eq_some_iff, stripPrefix_eq_some_iff]
  constructor
  · rintro ⟨value, hvalue, hread⟩
    exact ⟨_, ⟨value, hvalue, hread⟩, rfl⟩
  · rintro ⟨_, ⟨value, hvalue, hread⟩, rfl⟩
    exact ⟨value, hvalue, hread⟩

theorem authorize_eq_ok_iff : relay.authorize toStr conn req.headers = .ok () ↔
    ∃ token, Presents toStr req token ∧ relay.tokens token = some conn := by
  simp only [presents_iff, authorize]
  cases ((header req.headers AUTHORIZATION).bind toStr).bind (stripPrefix "Bearer ") with
  | none => simp
  | some token =>
    cases hgranted : relay.tokens token with
    | none => simp [hgranted]
    | some granted => by_cases h : granted = conn <;> simp [hgranted, h]

instance : DecidablePred (relay.Admitted toStr conn) := fun req =>
  decidable_of_iff (req.conn = conn ∧ relay.authorize toStr conn req.headers = .ok () ∧
    (relay.wallets conn).isSome) (by
      rw [Admitted, authorize_eq_ok_iff, Option.isSome_iff_exists])

/-- What comes of a request that is admitted. -/
def outcome (url : String) (req : Incoming V) (reply : Except String Bytes) :
    List Forwarded × Answer :=
  ([⟨url, req.sealed, reply⟩],
    match reply with
    | .ok reply => .success reply
    | .error _ => .failure 502 "")

/-- An admitted request is posted once, as it is, and its reply handed back. -/
theorem step_of_admitted {url : String} (h : relay.Admitted toStr req.conn req)
    (hurl : relay.wallets req.conn = some url)
    (post : String → Bytes → σ → σ × Except String Bytes) (s : σ) :
    relay.step toStr post req s = ((post (url ++ "/request") req.sealed s).1,
      outcome (url ++ "/request") req (post (url ++ "/request") req.sealed s).2) := by
  have hauth := authorize_eq_ok_iff.mpr h.2.1
  simp only [step, forwardRequest, hauth, hurl, recorded, List.nil_append, outcome]
  cases (post (url ++ "/request") req.sealed s).2 <;> rfl

/-- Any other request gets an error status, and no wallet is contacted. -/
theorem step_of_not_admitted (h : ¬ relay.Admitted toStr req.conn req)
    (post : String → Bytes → σ → σ × Except String Bytes) (s : σ) :
    ∃ status body, 400 ≤ status ∧
      relay.step toStr post req s = (s, [], .failure status body) := by
  cases hauth : relay.authorize toStr req.conn req.headers with
  | error e =>
    exact ⟨401, "unauthorized: " ++ e, by decide, by simp only [step, forwardRequest, hauth]⟩
  | ok =>
    cases hurl : relay.wallets req.conn with
    | none =>
      exact ⟨404, "unknown connection", by decide, by simp only [step, forwardRequest, hauth, hurl]⟩
    | some url => exact absurd ⟨rfl, authorize_eq_ok_iff.mp hauth, url, hurl⟩ h

end Relay
end HpkeDemo.Bwc
