import HpkeDemo.Bwc.Relay
import HpkeDemo.Replay.Machine

/-! Whole runs of the relay in front of any wallets. What it posts for a connection is what
was admitted for it, and a request without a token for a connection that is routed to a
wallet leaves no trace at that wallet. -/
namespace HpkeDemo.Bwc

/-- The wallets behind the URLs. `E` is what a wallet finds when it is called, like its
clock's reading; `τ` is what it keeps. -/
structure Backend (E ω τ : Type) where
  reach : String → Option ω
  serve : ω → E → Bytes → τ → τ × Except String Bytes

abbrev RelayLog (E V : Type) := List ((E × Incoming V) × List Forwarded × Answer)

variable {E V ω τ : Type} [DecidableEq ω]

/-- A post changes the wallet that its URL reaches, and no other. -/
def Backend.post (backend : Backend E ω τ) (env : E) (url : String) (sealed : Bytes)
    (s : ω → τ) : (ω → τ) × Except String Bytes :=
  match backend.reach url with
  | none => (s, .error "unreachable")
  | some w =>
    (Function.update s w (backend.serve w env sealed (s w)).1,
      (backend.serve w env sealed (s w)).2)

namespace Relay

/-- `forward_request` on one request after another. -/
def session (relay : Relay) (toStr : V → Option String) (backend : Backend E ω τ) (s : ω → τ)
    (inputs : List (E × Incoming V)) : (ω → τ) × RelayLog E V :=
  Machine.run (fun input => relay.step toStr (backend.post input.1) input.2) s inputs

/-- What was posted for the requests with this path, in order. -/
def postsFor (conn : String) (log : RelayLog E V) : List (String × Bytes) :=
  (log.filter (·.1.2.conn = conn)).flatMap fun x => x.2.1.map fun p => (p.url, p.sealed)

/-- No token that the request presents is issued for a connection routed to `w`. -/
def Foreign (relay : Relay) (toStr : V → Option String) (backend : Backend E ω τ) (w : ω)
    (req : Incoming V) : Prop :=
  ∀ token conn url, Presents toStr req token → relay.tokens token = some conn →
    relay.wallets conn = some url → backend.reach (url ++ "/request") ≠ some w

variable {toStr : V → Option String} {relay : Relay} {backend : Backend E ω τ} {conn : String}
  {s s' : ω → τ} {w : ω} {inputs : List (E × Incoming V)}

theorem postsFor_cons (x : (E × Incoming V) × List Forwarded × Answer) (log : RelayLog E V) :
    postsFor conn (x :: log) =
      (if x.1.2.conn = conn then x.2.1.map fun p => (p.url, p.sealed) else []) ++
        postsFor conn log := by
  by_cases h : x.1.2.conn = conn <;> simp [postsFor, h]

/-- What one request adds to the posts for a connection with a wallet. -/
theorem posts_of_step {url : String} (hurl : relay.wallets conn = some url)
    (input : E × Incoming V) (hconn : input.2.conn = conn) :
    ((relay.step toStr (backend.post input.1) input.2 s).2.1.map fun p => (p.url, p.sealed)) =
      if relay.Admitted toStr conn input.2 then [(url ++ "/request", input.2.sealed)] else [] := by
  subst hconn
  by_cases h : relay.Admitted toStr input.2.conn input.2
  · rw [step_of_admitted h hurl, if_pos h]
    rfl
  · obtain ⟨status, body, _, hstep⟩ := step_of_not_admitted h (backend.post input.1) s
    rw [hstep, if_neg h]
    rfl

/-- The posts for a connection are the requests admitted for it. -/
theorem postsFor_session {url : String} (hurl : relay.wallets conn = some url) (s : ω → τ)
    (inputs : List (E × Incoming V)) :
    postsFor conn (relay.session toStr backend s inputs).2 =
      ((inputs.map Prod.snd).filter (relay.Admitted toStr conn)).map
        fun req => (url ++ "/request", req.sealed) := by
  induction inputs generalizing s with
  | nil => rfl
  | cons input inputs ih =>
    rw [session, Machine.run_cons, postsFor_cons]
    have rest := ih (relay.step toStr (backend.post input.1) input.2 s).1
    rw [session] at rest
    rw [rest, List.map_cons, List.filter_cons]
    by_cases hconn : input.2.conn = conn
    · rw [if_pos hconn, posts_of_step hurl input hconn]
      by_cases h : relay.Admitted toStr conn input.2 <;> simp [h]
    · have h : ¬ relay.Admitted toStr conn input.2 := fun h => hconn h.1
      simp [hconn, h]

/-- A request that is not admitted is answered with an error, and nothing is posted. -/
theorem refused_of_mem {x : (E × Incoming V) × List Forwarded × Answer}
    (hx : x ∈ (relay.session toStr backend s inputs).2)
    (h : ¬ relay.Admitted toStr x.1.2.conn x.1.2) :
    x.2.1 = [] ∧ ∃ status body, 400 ≤ status ∧ x.2.2 = .failure status body := by
  obtain ⟨s', hstep⟩ := Machine.exists_step_of_mem _ hx
  obtain ⟨status, body, hstatus, hrefused⟩ := step_of_not_admitted h (backend.post x.1.1) s'
  rw [← hstep, hrefused]
  exact ⟨rfl, status, body, hstatus, rfl⟩

/-- A reply that is handed back is the reply to a post made for that request. -/
theorem reply_of_mem {x : (E × Incoming V) × List Forwarded × Answer}
    (hx : x ∈ (relay.session toStr backend s inputs).2) {reply : Bytes}
    (h : x.2.2 = .success reply) : ∃ p ∈ x.2.1, p.reply = .ok reply := by
  obtain ⟨s', hstep⟩ := Machine.exists_step_of_mem _ hx
  rw [← hstep] at h ⊢
  by_cases hadmitted : relay.Admitted toStr x.1.2.conn x.1.2
  · obtain ⟨url, hurl⟩ := hadmitted.2.2
    rw [step_of_admitted hadmitted hurl] at h ⊢
    refine ⟨_, List.mem_singleton_self _, ?_⟩
    simp only [outcome] at h
    split at h
    · next hreply => rw [hreply, Answer.success.inj h]
    · cases h
  · obtain ⟨status, body, _, hrefused⟩ := step_of_not_admitted hadmitted (backend.post x.1.1) s'
    rw [hrefused] at h
    cases h

section
variable {env : E} {url : String} {sealed : Bytes}

theorem post_elsewhere (h : backend.reach url ≠ some w) :
    (backend.post env url sealed s).1 w = s w := by
  unfold Backend.post
  cases hreach : backend.reach url with
  | none => rfl
  | some v =>
    have hne : w ≠ v := fun hwv => h (hwv ▸ hreach)
    exact Function.update_of_ne hne _ _

theorem post_agrees (h : s w = s' w) :
    (backend.post env url sealed s).1 w = (backend.post env url sealed s').1 w := by
  unfold Backend.post
  cases backend.reach url with
  | none => exact h
  | some v =>
    by_cases hwv : w = v
    · subst hwv
      simp only [Function.update_self, h]
    · simpa only [Function.update_of_ne hwv] using h

end

/-- A foreign request changes nothing at `w`, and is not posted there. -/
theorem step_foreign {input : E × Incoming V} (h : Foreign relay toStr backend w input.2) :
    (relay.step toStr (backend.post input.1) input.2 s).1 w = s w ∧
      ∀ p ∈ (relay.step toStr (backend.post input.1) input.2 s).2.1,
        backend.reach p.url ≠ some w := by
  by_cases hadmitted : relay.Admitted toStr input.2.conn input.2
  · obtain ⟨_, ⟨token, hpresents, htoken⟩, url, hurl⟩ := id hadmitted
    have helsewhere := h token _ url hpresents htoken hurl
    rw [step_of_admitted hadmitted hurl]
    refine ⟨post_elsewhere helsewhere, fun p hp => ?_⟩
    rw [List.mem_singleton.mp hp]
    exact helsewhere
  · obtain ⟨status, body, _, hrefused⟩ := step_of_not_admitted hadmitted (backend.post input.1) s
    rw [hrefused]
    exact ⟨rfl, by simp⟩

/-- What a request does at `w` depends on the state at `w` only. -/
theorem step_agrees (input : E × Incoming V) (h : s w = s' w) :
    (relay.step toStr (backend.post input.1) input.2 s).1 w =
      (relay.step toStr (backend.post input.1) input.2 s').1 w := by
  by_cases hadmitted : relay.Admitted toStr input.2.conn input.2
  · obtain ⟨url, hurl⟩ := hadmitted.2.2
    rw [step_of_admitted hadmitted hurl, step_of_admitted hadmitted hurl]
    exact post_agrees h
  · obtain ⟨_, _, _, hs⟩ := step_of_not_admitted hadmitted (backend.post input.1) s
    obtain ⟨_, _, _, hs'⟩ := step_of_not_admitted hadmitted (backend.post input.1) s'
    rw [hs, hs']
    exact h

/-- Foreign requests might as well not have been made, for all that `w` keeps. -/
theorem session_foreign {caller : E × Incoming V → Bool}
    (hforeign : ∀ x ∈ inputs, caller x = true → Foreign relay toStr backend w x.2)
    (h : s w = s' w) :
    (relay.session toStr backend s inputs).1 w =
      (relay.session toStr backend s' (inputs.filter (!caller ·))).1 w := by
  induction inputs generalizing s s' with
  | nil => exact h
  | cons input inputs ih =>
    have later := fun x hx => hforeign x (List.mem_cons_of_mem input hx)
    rw [session, Machine.run_cons]
    cases hcaller : caller input with
    | true =>
      rw [List.filter_cons_of_neg (by simp [hcaller])]
      have hstep := (step_foreign (s := s) (hforeign input List.mem_cons_self hcaller)).1
      exact ih later (hstep.trans h)
    | false =>
      rw [List.filter_cons_of_pos (by simp [hcaller]), session, Machine.run_cons]
      exact ih later (step_agrees input h)

theorem foreign_of_mem {caller : E × Incoming V → Bool}
    (hforeign : ∀ x ∈ inputs, caller x = true → Foreign relay toStr backend w x.2)
    {x : (E × Incoming V) × List Forwarded × Answer}
    (hx : x ∈ (relay.session toStr backend s inputs).2) (hcaller : caller x.1 = true) :
    ∀ p ∈ x.2.1, backend.reach p.url ≠ some w := by
  have hinput : x.1 ∈ inputs := by
    have hmem := List.mem_map_of_mem (f := Prod.fst) hx
    rwa [session, Machine.run_inputs] at hmem
  obtain ⟨s', hstep⟩ := Machine.exists_step_of_mem _ hx
  rw [← hstep]
  exact (step_foreign (hforeign x.1 hinput hcaller)).2

/-- **The relay keeps connections apart.** In every run, what is posted for a connection is
what was admitted for it, in order and unchanged; any other request gets an error status
and reaches no wallet; and a caller without a token for a connection that is routed to
`w` neither changes what `w` keeps nor has anything posted there. -/
theorem relay_isolation (relay : Relay) (toStr : V → Option String) (backend : Backend E ω τ)
    (s : ω → τ) (inputs : List (E × Incoming V)) :
    (∀ conn url, relay.wallets conn = some url →
      postsFor conn (relay.session toStr backend s inputs).2 =
        ((inputs.map Prod.snd).filter (relay.Admitted toStr conn)).map
          fun req => (url ++ "/request", req.sealed)) ∧
    (∀ x ∈ (relay.session toStr backend s inputs).2,
      ¬ relay.Admitted toStr x.1.2.conn x.1.2 →
        x.2.1 = [] ∧ ∃ status body, 400 ≤ status ∧ x.2.2 = .failure status body) ∧
    (∀ x ∈ (relay.session toStr backend s inputs).2, ∀ reply, x.2.2 = .success reply →
      ∃ p ∈ x.2.1, p.reply = .ok reply) ∧
    ∀ w (caller : E × Incoming V → Bool),
      (∀ x ∈ inputs, caller x = true → Foreign relay toStr backend w x.2) →
        (relay.session toStr backend s inputs).1 w =
          (relay.session toStr backend s (inputs.filter (!caller ·))).1 w ∧
        ∀ x ∈ (relay.session toStr backend s inputs).2, caller x.1 = true →
          ∀ p ∈ x.2.1, backend.reach p.url ≠ some w := by
  refine ⟨fun conn url hurl => postsFor_session hurl s inputs, fun x hx => refused_of_mem hx,
    fun x hx reply => reply_of_mem hx, fun w caller hforeign => ⟨?_, ?_⟩⟩
  · exact session_foreign hforeign rfl
  · exact fun x hx => foreign_of_mem hforeign hx

end Relay

namespace Demo
open Transparent (key)

/-- `connection`'s wallet behind one URL; it finds its clock's reading and randomness. -/
def backend : Backend (UInt64 × Transparent.Key) Unit Seen where
  reach url := if url = "http://wallet/request" then some () else none
  serve _ env sealed seen :=
    let (seen, reply) := connection.wallet.postRequest env.2 env.1 sealed seen
    (seen, reply.mapError Panic.message)

/-- Two connections that are routed to one wallet, and a token for one of them. -/
def sharedRoute : Relay where
  wallets conn := if conn = "c" ∨ conn = "d" then some "http://wallet" else none
  tokens token := if token = "t" then some "d" else none

/-- A request over the connection that the token is for. -/
def overOther : Incoming String where
  conn := "d"
  headers := [("authorization", "Bearer t")]
  sealed := request 9 300 [5]

set_option maxRecDepth 10000 in
theorem overOther_remembered :
    (sharedRoute.session some backend (fun _ _ => none) [((300, key 4), overOther)]).1 ()
      (nonce 9) = some 300 := by decide +kernel

end Demo

/-- A token for another connection does change the replay cache of the wallet of `c`, if
the table routes that connection to the same wallet. -/
theorem shared_route_reached :
    ¬ ∀ (relay : Relay) (conn url : String)
      (inputs : List ((UInt64 × Transparent.Key) × Incoming String)),
      relay.wallets conn = some url → Demo.backend.reach (url ++ "/request") = some () →
      (∀ x ∈ inputs, ∀ token, Relay.Presents some x.2 token →
        relay.tokens token ≠ some conn) →
      (relay.session some Demo.backend (fun _ _ => none) inputs).1 () = fun _ => none := by
  intro h
  have notIssued (token : String) : Demo.sharedRoute.tokens token ≠ some "c" := by
    intro htoken
    simp only [Demo.sharedRoute] at htoken
    split at htoken
    · exact absurd htoken (by decide)
    · cases htoken
  have hcache := h Demo.sharedRoute "c" "http://wallet"
    [((300, Transparent.key 4), Demo.overOther)] rfl (by decide) fun _ _ token _ => notIssued token
  have hnonce := Demo.overOther_remembered
  rw [hcache] at hnonce
  cases hnonce

end HpkeDemo.Bwc
