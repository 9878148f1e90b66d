import HpkeDemo.AuthMode.Parties
import HpkeDemo.Replay.Trace

/-! Any number of clients and servers of `secp256k1_authmode.rs` over a hostile network. A
key may serve in both roles, allowlists and pinned keys may name anyone, and the attacker
holds every key that is not theirs. -/
namespace HpkeDemo.AuthMode
open History

/-- The parties that keep their keys. -/
structure World (H : HpkeSecp) (ω σ : Type) where
  clients : ω → Client H
  servers : σ → Server H
  clients_keyed : ∀ c, (clients c).Keyed
  servers_keyed : ∀ s, (servers s).Keyed

inductive Event (H : HpkeSecp) (ω σ : Type) where
  | requested (c : ω) (body : Bytes) (enc : H.EncappedKey) (ciphertext : Bytes)
  | handled (s : σ) (claimedId : Bytes) (enc : H.EncappedKey) (ciphertext : Bytes)
      (result : Except String Bytes)
  | replied (s : σ) (clientPk : H.PublicKey) (body : Bytes) (enc : H.EncappedKey)
      (ciphertext : Bytes)
  | received (c : ω) (enc : H.EncappedKey) (ciphertext : Bytes) (result : Except String Bytes)

variable {H : HpkeSecp} {ω σ : Type}

section
variable (w : World H ω σ) (trace : List (Event H ω σ))

/-- The key of a party that keeps it, in whatever role. -/
def HonestKey (pk : H.PublicKey) : Prop :=
  (∃ c, (w.clients c).pk = pk) ∨ ∃ s, (w.servers s).pk = pk

/-- The message went over the network. -/
def Seen (enc : H.EncappedKey) (ct : Bytes) : Prop :=
  (∃ c body, .requested c body enc ct ∈ trace) ∨
    ∃ s clientPk body, .replied s clientPk body enc ct ∈ trace

/-- To make the message takes the private key of one of the parties, for it is sealed from
one to one. What is sealed to the attacker itself, its own key makes from any sender. -/
def Protected (enc : H.EncappedKey) (ct : Bytes) : Prop :=
  ∃ sk rng recipientPk info m, HonestKey w (H.skToPk sk) ∧ HonestKey w recipientPk ∧
    sealAuth H rng (sk, H.skToPk sk) recipientPk info m = .ok (enc, ct)

def CanSend (enc : H.EncappedKey) (ct : Bytes) : Prop :=
  Seen trace enc ct ∨ ¬ Protected w enc ct

end

/-- A server seals replies to any key. -/
inductive Step (w : World H ω σ) : List (Event H ω σ) → List (Event H ω σ) → Prop where
  | requests (trace c rng body enc ct) (h : (w.clients c).sealRequest rng body = .ok (enc, ct)) :
      Step w trace (trace ++ [.requested c body enc ct])
  | handles (trace s claimed enc ct) (hsend : CanSend w trace enc ct) :
      Step w trace (trace ++ [.handled s claimed enc ct ((w.servers s).handle claimed enc ct)])
  | replies (trace s rng clientPk body enc ct)
      (h : (w.servers s).sealResponse rng clientPk body = .ok (enc, ct)) :
      Step w trace (trace ++ [.replied s clientPk body enc ct])
  | receives (trace c enc ct) (hsend : CanSend w trace enc ct) :
      Step w trace (trace ++ [.received c enc ct ((w.clients c).openResponse enc ct)])

inductive Reachable (w : World H ω σ) : List (Event H ω σ) → Prop where
  | start : Reachable w []
  | next {trace trace'} (h : Reachable w trace) (step : Step w trace trace') : Reachable w trace'

/-- What an event says was sealed, was sealed by its party. -/
def Genuine (w : World H ω σ) : Event H ω σ → Prop
  | .requested c body enc ct => ∃ rng, (w.clients c).sealRequest rng body = .ok (enc, ct)
  | .replied s clientPk body enc ct =>
    ∃ rng, (w.servers s).sealResponse rng clientPk body = .ok (enc, ct)
  | _ => True

/-- A request accepted under a client's identity was sealed, for that server, by a client
with that identity; and a reply accepted under an honest key was sealed, for that client,
by a server with the key. -/
def Agrees (w : World H ω σ) (before : List (Event H ω σ)) : Event H ω σ → Prop
  | .handled s claimed enc ct (.ok body) => ∀ named, claimed = (w.clients named).identity →
    ∃ c, .requested c body enc ct ∈ before ∧ (w.clients c).pk = (w.clients named).pk ∧
      (w.clients c).serverPk = (w.servers s).pk
  | .received c enc ct (.ok body) => HonestKey w (w.clients c).serverPk →
    ∃ s, .replied s (w.clients c).pk body enc ct ∈ before ∧
      (w.servers s).pk = (w.clients c).serverPk
  | _ => True

variable {w : World H ω σ} {trace trace' : List (Event H ω σ)} {enc : H.EncappedKey}
  {ct body : Bytes}

/-- What opens between two parties went over the network, and says who sealed it. -/
theorem seen_of_open (correct : H.Correct) (ideal : H.Ideal) (hsend : CanSend w trace enc ct)
    {skR : H.PrivateKey} {pkS : H.PublicKey} {info : Bytes} (hpkS : HonestKey w pkS)
    (hpkR : HonestKey w (H.skToPk skR)) (hopen : openAuth H skR pkS info enc ct = .ok body) :
    Seen trace enc ct := by
  obtain ⟨skS, rng, rfl, hseal⟩ := (openAuth_eq_ok_iff correct ideal).mp hopen
  refine hsend.resolve_right fun hfree => ?_
  exact hfree ⟨skS, rng, _, info, body, hpkS, hpkR, hseal⟩

theorem agrees_handled (correct : H.Correct) (ideal : H.Ideal)
    (genuine : ∀ event ∈ trace, Genuine w event) (hsend : CanSend w trace enc ct) {s : σ}
    {claimed : Bytes} {named : ω} (hclaimed : claimed = (w.clients named).identity)
    (h : (w.servers s).handle claimed enc ct = .ok body) :
    ∃ c, .requested c body enc ct ∈ trace ∧ (w.clients c).pk = (w.clients named).pk ∧
      (w.clients c).serverPk = (w.servers s).pk := by
  subst hclaimed
  obtain ⟨_, clientPk, hkey, hopen⟩ := handle_eq_ok_iff.mp h
  obtain rfl : (w.clients named).pk = clientPk :=
    Except.ok.inj ((correct.from_to (w.clients named).pk).symm.trans hkey)
  have hserver : HonestKey w (H.skToPk (w.servers s).sk) :=
    Or.inr ⟨s, (w.servers_keyed s).symm⟩
  obtain ⟨c, body', hmem⟩ | ⟨t, clientPk, body', hmem⟩ :=
    seen_of_open correct ideal hsend (Or.inl ⟨named, rfl⟩) hserver hopen
  · obtain ⟨rng, hseal⟩ := genuine _ hmem
    obtain ⟨hpk, hpkR, _, rfl⟩ := openAuth_sealed correct ideal hseal hopen
    exact ⟨c, hmem, hpk, hpkR.trans (w.servers_keyed s)⟩
  · obtain ⟨rng, hseal⟩ := genuine _ hmem
    obtain ⟨_, _, hinfo, _⟩ := openAuth_sealed correct ideal hseal hopen
    exact absurd hinfo.symm info_ne

theorem agrees_received (correct : H.Correct) (ideal : H.Ideal)
    (genuine : ∀ event ∈ trace, Genuine w event) (hsend : CanSend w trace enc ct) {c : ω}
    (pinned : HonestKey w (w.clients c).serverPk)
    (h : (w.clients c).openResponse enc ct = .ok body) :
    ∃ s, .replied s (w.clients c).pk body enc ct ∈ trace ∧
      (w.servers s).pk = (w.clients c).serverPk := by
  have hclient : HonestKey w (H.skToPk (w.clients c).sk) :=
    Or.inl ⟨c, (w.clients_keyed c).symm⟩
  obtain ⟨d, body', hmem⟩ | ⟨s, clientPk, body', hmem⟩ :=
    seen_of_open correct ideal hsend pinned hclient h
  · obtain ⟨rng, hseal⟩ := genuine _ hmem
    obtain ⟨_, _, hinfo, _⟩ := openAuth_sealed correct ideal hseal h
    exact absurd hinfo info_ne
  · obtain ⟨rng, hseal⟩ := genuine _ hmem
    obtain ⟨hpk, rfl, _, rfl⟩ := openAuth_sealed correct ideal hseal h
    refine ⟨s, ?_, hpk⟩
    rwa [w.clients_keyed c] at hmem

/-- A step adds one event, which is genuine and agrees with those before it. -/
theorem step_cases (correct : H.Correct) (ideal : H.Ideal)
    (genuine : ∀ event ∈ trace, Genuine w event) (h : Step w trace trace') :
    ∃ event, trace' = trace ++ [event] ∧ Genuine w event ∧ Agrees w trace event := by
  cases h with
  | requests c rng body enc ct h => exact ⟨_, rfl, ⟨rng, h⟩, trivial⟩
  | handles s claimed enc ct hsend =>
    refine ⟨_, rfl, trivial, ?_⟩
    cases hresult : (w.servers s).handle claimed enc ct with
    | error e => trivial
    | ok body =>
      exact fun named hclaimed => agrees_handled correct ideal genuine hsend hclaimed hresult
  | replies s rng clientPk body enc ct h => exact ⟨_, rfl, ⟨rng, h⟩, trivial⟩
  | receives c enc ct hsend =>
    refine ⟨_, rfl, trivial, ?_⟩
    cases hresult : (w.clients c).openResponse enc ct with
    | error e => trivial
    | ok body => exact fun pinned => agrees_received correct ideal genuine hsend pinned hresult

theorem reachable_inv (correct : H.Correct) (ideal : H.Ideal) (h : Reachable w trace) :
    (∀ event ∈ trace, Genuine w event) ∧ Each (Agrees w) trace := by
  induction h with
  | start => exact ⟨by simp, each_nil⟩
  | next h step ih =>
    obtain ⟨genuine, agreed⟩ := ih
    obtain ⟨event, rfl, hgenuine, hagrees⟩ := step_cases correct ideal genuine step
    constructor
    · exact List.forall_mem_append.mpr ⟨genuine, List.forall_mem_singleton.mpr hgenuine⟩
    · exact each_concat.mpr ⟨agreed, hagrees⟩

/-- **Requests come from the identity they claim.** In every run, a server accepts a message
under the identity of a client only if a client with that identity sealed this message,
with this body, for this server. -/
theorem requests_authentic (correct : H.Correct) (ideal : H.Ideal) (h : Reachable w trace) :
    ∀ before after s enc ct body named,
      trace = before ++ .handled s (w.clients named).identity enc ct (.ok body) :: after →
        ∃ c, .requested c body enc ct ∈ before ∧ (w.clients c).pk = (w.clients named).pk ∧
          (w.clients c).serverPk = (w.servers s).pk := by
  intro before after s enc ct body named htrace
  exact (reachable_inv correct ideal h).2 before _ after htrace named rfl

namespace Demo
open Transparent (key)

/-- `client 1` and `server`, and nobody else who keeps a key. -/
def world : World plainSecp Unit Unit where
  clients _ := client 1
  servers _ := server
  clients_keyed _ := rfl
  servers_keyed _ := rfl

def exchange : List (Event plainSecp Unit Unit) :=
  [.requested () [7] (key 4) sealed,
   .handled () (client 1).identity (key 4) sealed (.ok [7])]

theorem exchange_reachable : Reachable world exchange := by
  have hrequest : (world.clients ()).sealRequest (key 4) [7] = .ok (key 4, sealed) :=
    sealAuth_eq_ok_iff.mpr ⟨_, rfl, rfl⟩
  have hopen : openAuth plainSecp (key 2) (key 1) INFO_REQUEST (key 4) sealed = .ok [7] :=
    (openAuth_eq_ok_iff PlainSecp.correct PlainSecp.ideal).mpr ⟨key 1, key 4, rfl, hrequest⟩
  have hhandle : (world.servers ()).handle (client 1).identity (key 4) sealed = .ok [7] :=
    handle_eq_ok_iff.mpr ⟨List.mem_singleton_self _, key 1, rfl, hopen⟩
  have step := Step.handles (w := world) (exchange.take 1) () (client 1).identity (key 4) sealed
    (Or.inl (Or.inl ⟨(), [7], List.mem_singleton_self _⟩))
  rw [hhandle] at step
  have first := Step.requests (w := world) [] () (key 4) [7] (key 4) sealed hrequest
  exact .next (.next .start first) step

/-- The ciphertext of `server`'s reply 8 to `client 1`. -/
def sealedReply : Bytes :=
  chunks [(key 2).1, (key 1).1, INFO_RESPONSE, (key 5).1, []] ++ [8]

def answered : List (Event plainSecp Unit Unit) :=
  [.replied () (key 1) [8] (key 5) sealedReply, .received () (key 5) sealedReply (.ok [8])]

theorem answered_reachable : Reachable world answered := by
  have hreply : (world.servers ()).sealResponse (key 5) (key 1) [8] = .ok (key 5, sealedReply) :=
    sealAuth_eq_ok_iff.mpr ⟨_, rfl, rfl⟩
  have hopen : (world.clients ()).openResponse (key 5) sealedReply = .ok [8] :=
    (openAuth_eq_ok_iff PlainSecp.correct PlainSecp.ideal).mpr ⟨key 2, key 5, rfl, hreply⟩
  have step := Step.receives (w := world) (answered.take 1) () (key 5) sealedReply
    (Or.inl (Or.inr ⟨(), key 1, [8], List.mem_singleton_self _⟩))
  rw [hopen] at step
  have first := Step.replies (w := world) [] () (key 5) (key 1) [8] (key 5) sealedReply hreply
  exact .next (.next .start first) step

end Demo

/-- The accepted request of an exchange, traced to its client. -/
theorem requests_authentic_exchange :
    ∃ c, .requested c [7] (Transparent.key 4) Demo.sealed ∈ Demo.exchange.take 1 ∧
      (Demo.world.clients c).pk = (Demo.client 1).pk ∧
      (Demo.world.clients c).serverPk = Demo.server.pk :=
  requests_authentic PlainSecp.correct PlainSecp.ideal Demo.exchange_reachable
    (Demo.exchange.take 1) [] () (Transparent.key 4) Demo.sealed [7] () rfl

/-- **Replies come from the pinned server.** In every run, a client that pins a party's key
accepts a message only if a server with that key sealed this message, with this body, for
the client's own key. -/
theorem replies_authentic (correct : H.Correct) (ideal : H.Ideal) (h : Reachable w trace) :
    ∀ before after c enc ct body, HonestKey w (w.clients c).serverPk →
      trace = before ++ .received c enc ct (.ok body) :: after →
        ∃ s, .replied s (w.clients c).pk body enc ct ∈ before ∧
          (w.servers s).pk = (w.clients c).serverPk := by
  intro before after c enc ct body pinned htrace
  exact (reachable_inv correct ideal h).2 before _ after htrace pinned

/-- The accepted reply of an exchange, traced to its server. -/
theorem replies_authentic_answered :
    ∃ s, .replied s (Demo.client 1).pk [8] (Transparent.key 5) Demo.sealedReply ∈
        Demo.answered.take 1 ∧
      (Demo.world.servers s).pk = (Demo.client 1).serverPk :=
  replies_authentic PlainSecp.correct PlainSecp.ideal Demo.answered_reachable
    (Demo.answered.take 1) [] () (Transparent.key 5) Demo.sealedReply [8] (Or.inr ⟨(), rfl⟩) rfl

end HpkeDemo.AuthMode
