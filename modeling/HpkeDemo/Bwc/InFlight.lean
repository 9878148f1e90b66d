import HpkeDemo.Bwc.Deployment

/-! Any number of requests in flight at one time. Each goes through the relay to its wallet
and back in steps of its own, and the steps of all of them may interleave in any way; the
lock on a wallet's cache makes one step of a critical section. -/
namespace HpkeDemo.Bwc

namespace Relay
variable {V σ : Type} {toStr : V → Option String} {relay : Relay} {req : Incoming V}
  {post : String → Bytes → σ → σ × Except String Bytes} {s : σ}

/-- The part of `forward_request` before it awaits the wallet: the URL that it posts to, or
what it answers at once. -/
def destination (toStr : V → Option String) (relay : Relay) (req : Incoming V) :
    Except Answer String :=
  match relay.authorize toStr req.conn req.headers with
  | .error e => .error (.failure 401 ("unauthorized: " ++ e))
  | .ok () =>
    match relay.wallets req.conn with
    | none => .error (.failure 404 "unknown connection")
    | some walletUrl => .ok (walletUrl ++ "/request")

theorem forwardRequest_of_refused {answer : Answer}
    (h : relay.destination toStr req = .error answer) :
    relay.forwardRequest toStr post req s = (s, answer) := by
  unfold destination at h
  unfold forwardRequest
  cases hauth : relay.authorize toStr req.conn req.headers with
  | error e =>
    rw [hauth] at h
    cases h
    rfl
  | ok =>
    cases hurl : relay.wallets req.conn with
    | none =>
      rw [hauth, hurl] at h
      cases h
      rfl
    | some walletUrl =>
      rw [hauth, hurl] at h
      cases h

theorem forwardRequest_of_admitted {url : String} (h : relay.destination toStr req = .ok url) :
    relay.forwardRequest toStr post req s = ((post url req.sealed s).1,
      (outcome url req (post url req.sealed s).2).2) := by
  unfold destination at h
  unfold forwardRequest
  cases hauth : relay.authorize toStr req.conn req.headers with
  | error e =>
    rw [hauth] at h
    cases h
  | ok =>
    cases hurl : relay.wallets req.conn with
    | none =>
      rw [hauth, hurl] at h
      cases h
    | some walletUrl =>
      rw [hauth, hurl] at h
      cases h
      cases hpost : post (walletUrl ++ "/request") req.sealed s with
      | mk t reply => cases reply <;> simp only [hpost, outcome]

end Relay

namespace Deployment
open Channel Connect Text

variable {H : Hpke} {V ι κ : Type}

namespace Site

/-- The wallet that a client's request is forwarded to, or what comes back instead. -/
def dispatch (site : Site H V ι) (request : Request) : Except (Except String Answer) ι :=
  match site.http.deliver request with
  | .error answer => .error answer
  | .ok (conn, headers) =>
    match site.relay.destination site.http.toStr { conn, headers, sealed := request.sealed } with
    | .error answer => .error (.ok answer)
    | .ok url =>
      match site.reach url with
      | none => .error (.ok (.failure 502 ""))
      | some w => .ok w

/-- What the relay answers when wallet `w` is through with a request. -/
def answer (site : Site H V ι) (w : ι) (rng : H.Randomness) (result : Except String Bytes) :
    Answer :=
  match (site.conns w).wallet.reply rng result with
  | .ok reply => .success reply
  | .error _ => .failure 502 ""

/-- What the client makes of the answer to a call. -/
def report (site : Site H V ι) (call : Call H ι) (answer : Except String Answer) :
    Except String Outcome :=
  if call.authed then (site.conns call.i).client.roundTrip (fun _ => answer) call.sealed
  else (site.conns call.i).client.roundTripUnauthed (fun _ => answer) call.sealed

def request (site : Site H V ι) (call : Call H ι) : Request :=
  (site.conns call.i).client.request call.sealed (call.token (site.conns call.i).client)

end Site

/-- Where a request is. -/
inductive Stage (ι : Type) where
  | unsent
  | forwarded (w : ι)
  | handled (w : ι) (result : Except String Bytes)
  | answered (answer : Except String Answer)
  | reported (outcome : Except String Outcome)

/-- `order` are the requests that have taken effect, oldest first. A refused one takes
effect when it is refused, any other in its critical section. -/
structure Flights (ι κ : Type) where
  stage : κ → Stage ι
  seen : ι → Seen
  order : List κ

section
variable [DecidableEq ι] [DecidableEq κ]

namespace Site

/-- The next step of request `k`. The reading that `handle` takes before it locks is the
call's own, so critical sections need not come in the order of their readings. -/
def advance (site : Site H V ι) (calls : κ → Call H ι) (s : Flights ι κ) (k : κ) :
    Flights ι κ :=
  match s.stage k with
  | .unsent =>
    match site.dispatch (site.request (calls k)) with
    | .error answer =>
      { s with stage := Function.update s.stage k (.answered answer), order := s.order ++ [k] }
    | .ok w => { s with stage := Function.update s.stage k (.forwarded w) }
  | .forwarded w =>
    let (seen, result) := (site.conns w).wallet.handle (calls k).now (calls k).sealed (s.seen w)
    { stage := Function.update s.stage k (.handled w result)
      seen := Function.update s.seen w seen
      order := s.order ++ [k] }
  | .handled w result =>
    { s with stage :=
        Function.update s.stage k (.answered (.ok (site.answer w (calls k).rng result))) }
  | .answered answer =>
    { s with stage := Function.update s.stage k (.reported (site.report (calls k) answer)) }
  | .reported _ => s

/-- The requests `calls` after the steps of a schedule. -/
def flights (site : Site H V ι) (calls : κ → Call H ι) (schedule : List κ) : Flights ι κ :=
  schedule.foldl (site.advance calls)
    { stage := fun _ => .unsent, seen := fun _ _ => none, order := [] }

/-- What the client will report, once the request has taken effect. -/
def foreseen (site : Site H V ι) (call : Call H ι) : Stage ι → Option (Except String Outcome)
  | .unsent => none
  | .forwarded _ => none
  | .handled w result => some (site.report call (.ok (site.answer w call.rng result)))
  | .answered answer => some (site.report call answer)
  | .reported outcome => some outcome

end Site

section
variable {site : Site H V ι} {call : Call H ι} {request : Request} {env : UInt64 × H.Randomness}
  {s : ι → Seen}

/-- A post is one step of the wallet that it is dispatched to, or of none. -/
theorem post_cases (site : Site H V ι) (env : UInt64 × H.Randomness) (request : Request)
    (s : ι → Seen) :
    (∃ answer, site.dispatch request = .error answer ∧ site.post env request s = (s, answer)) ∨
    ∃ w, site.dispatch request = .ok w ∧
      site.post env request s =
        (Function.update s w ((site.conns w).wallet.handle env.1 request.sealed (s w)).1,
          .ok (site.answer w env.2
            ((site.conns w).wallet.handle env.1 request.sealed (s w)).2)) := by
  unfold Site.dispatch Site.post
  cases site.http.deliver request with
  | error answer => exact Or.inl ⟨_, rfl, rfl⟩
  | ok incoming =>
    simp only
    cases hurl : site.relay.destination site.http.toStr
        { conn := incoming.1, headers := incoming.2, sealed := request.sealed } with
    | error answer =>
      rw [Relay.forwardRequest_of_refused hurl]
      exact Or.inl ⟨_, rfl, rfl⟩
    | ok url =>
      rw [Relay.forwardRequest_of_admitted hurl]
      simp only [Backend.post, Site.backend, Relay.outcome]
      cases site.reach url with
      | none => exact Or.inl ⟨_, rfl, rfl⟩
      | some w =>
        refine Or.inr ⟨w, rfl, ?_⟩
        simp only [Wallet.postRequest, Site.answer]
        cases (site.conns w).wallet.reply env.2
          ((site.conns w).wallet.handle env.1 request.sealed (s w)).2 <;> rfl

theorem perform_eq (site : Site H V ι) (call : Call H ι) (s : ι → Seen) :
    site.perform call s = ((site.post (call.now, call.rng) (site.request call) s).1,
      site.report call (site.post (call.now, call.rng) (site.request call) s).2) := by
  unfold Site.perform Site.report Site.request
  cases hauthed : call.authed with
  | false =>
    simp only [Call.token, hauthed, Bool.false_eq_true, if_false, Client.roundTripUnauthed]
    rw [send_eq]
  | true =>
    simp only [Call.token, hauthed, if_true, Client.roundTrip]
    rw [send_eq]

section
variable {calls : κ → Call H ι} {s : Flights ι κ} {k : κ}

/-- A step of a request either changes nothing for the others and nothing that it will
report, or is the request taking effect: what it does then is its whole call. -/
theorem advance_cases
    (hforwarded : ∀ w, s.stage k = .forwarded w →
      site.dispatch (site.request (calls k)) = .ok w) :
    (∃ stage, site.advance calls s k = { s with stage := Function.update s.stage k stage } ∧
      site.foreseen (calls k) stage = site.foreseen (calls k) (s.stage k) ∧
      ∀ w, stage = .forwarded w → site.dispatch (site.request (calls k)) = .ok w) ∨
    ∃ stage, site.advance calls s k =
        { stage := Function.update s.stage k stage
          seen := (site.perform (calls k) s.seen).1
          order := s.order ++ [k] } ∧
      site.foreseen (calls k) (s.stage k) = none ∧
      site.foreseen (calls k) stage = some (site.perform (calls k) s.seen).2 ∧
      ∀ w, stage ≠ .forwarded w := by
  unfold Site.advance
  cases hstage : s.stage k with
  | unsent =>
    obtain ⟨answer, hdispatch, hpost⟩ | ⟨w, hdispatch, hpost⟩ := post_cases site
      ((calls k).now, (calls k).rng) (site.request (calls k)) s.seen
    · refine Or.inr ⟨.answered answer, ?_, rfl, ?_, by simp⟩
      · rw [perform_eq, hpost]
        simp only [hdispatch]
      · rw [perform_eq, hpost]
        rfl
    · refine Or.inl ⟨.forwarded w, by simp only [hdispatch], rfl, ?_⟩
      rintro _ ⟨⟩
      exact hdispatch
  | forwarded w =>
    obtain ⟨answer, hdispatch, hpost⟩ | ⟨v, hdispatch, hpost⟩ := post_cases site
      ((calls k).now, (calls k).rng) (site.request (calls k)) s.seen
    · rw [hforwarded w hstage] at hdispatch
      cases hdispatch
    · rw [hforwarded w hstage] at hdispatch
      cases hdispatch
      refine Or.inr ⟨.handled w
        ((site.conns w).wallet.handle (calls k).now (calls k).sealed (s.seen w)).2, ?_, rfl, ?_,
        by simp⟩
      · rw [perform_eq, hpost]
        rfl
      · rw [perform_eq, hpost]
        rfl
  | handled w result => exact Or.inl ⟨_, rfl, rfl, by simp⟩
  | answered answer => exact Or.inl ⟨_, rfl, rfl, by simp⟩
  | reported outcome => exact Or.inl ⟨.reported outcome, by simp [← hstage], rfl, by simp⟩

end

/-- The requests that have taken effect did so as if one after another. -/
structure Flights.Inv (site : Site H V ι) (calls : κ → Call H ι) (s : Flights ι κ) : Prop where
  forwarded : ∀ k w, s.stage k = .forwarded w → site.dispatch (site.request (calls k)) = .ok w
  mem_order : ∀ k, k ∈ s.order ↔ site.foreseen (calls k) (s.stage k) ≠ none
  nodup : s.order.Nodup
  seen : (site.session (s.order.map calls)).1 = s.seen
  log : (site.session (s.order.map calls)).2.map (fun x => some x.2) =
    s.order.map fun k => site.foreseen (calls k) (s.stage k)

section
variable {calls : κ → Call H ι} {s : Flights ι κ}

omit [DecidableEq ι] in
theorem foreseen_update {stage : Stage ι} {j k : κ} (h : j ≠ k) :
    site.foreseen (calls j) (Function.update s.stage k stage j) =
      site.foreseen (calls j) (s.stage j) := by
  rw [Function.update_of_ne h]

theorem Flights.Inv.forwarded_update (inv : Flights.Inv site calls s) {k : κ} {stage : Stage ι}
    (h : ∀ w, stage = .forwarded w → site.dispatch (site.request (calls k)) = .ok w) :
    ∀ j w, Function.update s.stage k stage j = .forwarded w →
      site.dispatch (site.request (calls j)) = .ok w := by
  intro j w hstage
  by_cases hj : j = k
  · subst hj
    rw [Function.update_self] at hstage
    exact h w hstage
  · rw [Function.update_of_ne hj] at hstage
    exact inv.forwarded j w hstage

theorem Flights.Inv.quiet (inv : Flights.Inv site calls s) {k : κ} {stage : Stage ι}
    (hsame : site.foreseen (calls k) stage = site.foreseen (calls k) (s.stage k))
    (hforwarded : ∀ w, stage = .forwarded w →
      site.dispatch (site.request (calls k)) = .ok w) :
    Flights.Inv site calls { s with stage := Function.update s.stage k stage } := by
  have same (j : κ) : site.foreseen (calls j) (Function.update s.stage k stage j) =
      site.foreseen (calls j) (s.stage j) := by
    by_cases hj : j = k
    · subst hj
      rw [Function.update_self, hsame]
    · exact foreseen_update hj
  refine ⟨inv.forwarded_update hforwarded, fun j => ?_, inv.nodup, inv.seen, ?_⟩
  · rw [same]
    exact inv.mem_order j
  · simp only [same]
    exact inv.log

theorem Flights.Inv.effect (inv : Flights.Inv site calls s) {k : κ} {stage : Stage ι}
    (hbefore : site.foreseen (calls k) (s.stage k) = none)
    (hafter : site.foreseen (calls k) stage = some (site.perform (calls k) s.seen).2)
    (hnot : ∀ w, stage ≠ .forwarded w) :
    Flights.Inv site calls { stage := Function.update s.stage k stage
                             seen := (site.perform (calls k) s.seen).1
                             order := s.order ++ [k] } := by
  have hnew : k ∉ s.order := by
    rw [inv.mem_order]
    exact not_not_intro hbefore
  have hseen := inv.seen
  have hlog := inv.log
  rw [Site.session] at hseen hlog
  constructor
  · exact inv.forwarded_update fun w h => absurd h (hnot w)
  · intro j
    by_cases hj : j = k
    · subst hj
      simp [hafter]
    · rw [foreseen_update hj, ← inv.mem_order j]
      simp [hj]
  · refine List.nodup_append.mpr ⟨inv.nodup, List.nodup_singleton k, ?_⟩
    rintro j hj _ hk rfl
    exact hnew (List.mem_singleton.mp hk ▸ hj)
  · rw [Site.session, List.map_append, List.map_singleton, Machine.run_concat, hseen]
  · have hothers : s.order.map (fun j => site.foreseen (calls j) (s.stage j)) =
        s.order.map fun j => site.foreseen (calls j) (Function.update s.stage k stage j) := by
      refine List.map_congr_left fun j hj => (foreseen_update ?_).symm
      rintro rfl
      exact hnew hj
    rw [Site.session, List.map_append, List.map_singleton, Machine.run_concat, List.map_append,
      hlog, hseen, hothers]
    simp [hafter]

theorem Flights.Inv.advance (inv : Flights.Inv site calls s) (k : κ) :
    Flights.Inv site calls (site.advance calls s k) := by
  obtain ⟨stage, hstep, hsame, hforwarded⟩ | ⟨stage, hstep, hbefore, hafter, hnot⟩ :=
    advance_cases (inv.forwarded k)
  · rw [hstep]
    exact inv.quiet hsame hforwarded
  · rw [hstep]
    exact inv.effect hbefore hafter hnot

omit [DecidableEq κ] in
/-- A request that has been reported is in the order, and so is its outcome in the log. -/
theorem Flights.Inv.reported (inv : Flights.Inv site calls s) {k : κ}
    {outcome : Except String Outcome} (h : s.stage k = .reported outcome) :
    ∃ n : Nat, s.order[n]? = some k ∧
      (site.session (s.order.map calls)).2[n]? = some (calls k, outcome) := by
  have hmem : k ∈ s.order := by
    rw [inv.mem_order, h]
    simp [Site.foreseen]
  obtain ⟨n, hn⟩ := List.mem_iff_getElem?.mp hmem
  refine ⟨n, hn, ?_⟩
  have hcall := congrArg (·[n]?) (Machine.run_inputs site.perform (fun _ _ => none)
    (s.order.map calls))
  have houtcome := congrArg (·[n]?) inv.log
  simp only [List.getElem?_map, hn, Option.map_some, h, Site.foreseen] at hcall houtcome
  rw [← Site.session] at hcall
  cases hentry : (site.session (s.order.map calls)).2[n]? with
  | none =>
    rw [hentry] at hcall
    cases hcall
  | some entry =>
    rw [hentry] at hcall houtcome
    refine congrArg some (Prod.ext (Option.some.inj hcall) ?_)
    exact Option.some.inj (Option.some.inj houtcome)

omit [DecidableEq κ] in
/-- What a request reports is what its call does after those before it in the order. -/
theorem Flights.Inv.outcome_eq (inv : Flights.Inv site calls s) {k : κ}
    {outcome : Except String Outcome} (h : s.stage k = .reported outcome) {before after : List κ}
    (horder : s.order = before ++ k :: after) :
    outcome = (site.perform (calls k) (site.session (before.map calls)).1).2 := by
  have hlog := inv.log
  rw [horder, Site.session, List.map_append, List.map_cons, Machine.run_append, Machine.run_cons,
    List.map_append, List.map_append, List.map_cons, List.map_cons, h] at hlog
  obtain ⟨_, htail⟩ := List.append_inj hlog (by simp)
  exact (Option.some.inj (List.cons.inj htail).1).symm

theorem flights_concat (site : Site H V ι) (calls : κ → Call H ι) (schedule : List κ) (k : κ) :
    site.flights calls (schedule ++ [k]) = site.advance calls (site.flights calls schedule) k := by
  simp [Site.flights]

theorem flights_inv (site : Site H V ι) (calls : κ → Call H ι) (schedule : List κ) :
    Flights.Inv site calls (site.flights calls schedule) := by
  induction schedule using List.reverseRecOn with
  | nil => constructor <;> simp [Site.flights, Site.foreseen, Site.session]
  | append_singleton schedule k ih =>
    rw [flights_concat]
    exact ih.advance k

end
end
end
end Deployment
end HpkeDemo.Bwc
