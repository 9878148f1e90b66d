import HpkeDemo.Bwc.ReplayCache
import HpkeDemo.Replay.Trace

/-! Clients and wallets of any number of connections over one hostile relay. The relay
sees every message, and delivers whatever it has seen or can build itself to any wallet
as a request and to any client as a reply. -/
namespace HpkeDemo.Bwc
open Channel Connect Replay History

variable {H : Hpke} {ι : Type}

inductive Event (ι : Type) where
  | sealed (i : ι) (timestamp : UInt64) (body wire : Bytes)
  | handled (i : ι) (now : UInt64) (wire : Bytes) (result : Except String Bytes)
      (reply : Except Panic Bytes)
  | received (i : ι) (request : Bytes) (answer : Answer) (outcome : Except String Outcome)

/-- `clock` holds the last reading of each wallet. -/
structure Network (ι : Type) where
  seen : ι → Seen
  clock : ι → UInt64
  trace : List (Event ι)

/-- The relay has seen `wire`, as a request or as a reply. -/
def Observed (trace : List (Event ι)) (wire : Bytes) : Prop :=
  (∃ i timestamp body, .sealed i timestamp body wire ∈ trace) ∨
    ∃ i now request result, .handled i now request result (.ok wire) ∈ trace

/-- Building `wire` takes a private key and the secret of one of the connections. -/
def Protected (conns : ι → Connection H) (wire : Bytes) : Prop :=
  ∃ i sk pk rng recipient info plaintext,
    (pk = (conns i).client.pk ∨ pk = (conns i).wallet.pk) ∧ H.skToPk sk = pk ∧
    sealWire H rng (sk, pk) recipient (conns i).wallet.secret info plaintext = .ok wire

def CanSend (conns : ι → Connection H) (trace : List (Event ι)) (wire : Bytes) : Prop :=
  Observed trace wire ∨ ¬ Protected conns wire

namespace Network

def start : Network ι := { seen := fun _ _ => none, clock := fun _ => 0, trace := [] }

def log (s : Network ι) (event : Event ι) : Network ι := { s with trace := s.trace ++ [event] }

/-- Wallet `i` answers `wire` at the reading `now`. -/
def deliver [DecidableEq ι] (conns : ι → Connection H) (s : Network ι) (i : ι)
    (rng : H.Randomness) (now : UInt64) (wire : Bytes) : Network ι :=
  let answer := (conns i).wallet.postRequest rng now wire (s.seen i)
  let result := ((conns i).wallet.handle now wire (s.seen i)).2
  { seen := Function.update s.seen i answer.1
    clock := Function.update s.clock i now
    trace := s.trace ++ [.handled i now wire result answer.2] }

/-- Client `i` takes `answer` as the relay's answer to `request`. -/
def receive (conns : ι → Connection H) (s : Network ι) (i : ι) (request : Bytes)
    (token : Option String) (answer : Answer) : Network ι :=
  s.log (.received i request answer ((conns i).client.send (fun _ => .ok answer) request token))

end Network

inductive Step [DecidableEq ι] (conns : ι → Connection H) : Network ι → Network ι → Prop where
  | seals (s i rng nonce timestamp body wire)
      (h : (conns i).client.seal rng nonce timestamp body = .ok wire) :
      Step conns s (s.log (.sealed i timestamp body wire))
  | delivers (s i rng now wire) (hwire : CanSend conns s.trace wire) (hnow : s.clock i ≤ now) :
      Step conns s (s.deliver conns i rng now wire)
  | answers (s i request token answer)
      (hreply : ∀ reply, answer = .success reply → CanSend conns s.trace reply) :
      Step conns s (s.receive conns i request token answer)

inductive Reachable [DecidableEq ι] (conns : ι → Connection H) : Network ι → Prop where
  | start : Reachable conns .start
  | next {s t} (h : Reachable conns s) (step : Step conns s t) : Reachable conns t

/-- No two connections have the same client key, wallet key and secret. -/
def Distinct (conns : ι → Connection H) : Prop :=
  ∀ i j, (conns i).client.pk = (conns j).client.pk → (conns i).wallet.pk = (conns j).wallet.pk →
    (conns i).wallet.secret = (conns j).wallet.secret → i = j

/-- What an event says was sealed, was sealed by its party. -/
def Genuine (conns : ι → Connection H) : Event ι → Prop
  | .sealed i timestamp body wire =>
    ∃ rng nonce, (conns i).client.seal rng nonce timestamp body = .ok wire
  | .handled i _ _ result reply => ∃ rng, (conns i).wallet.reply rng result = reply
  | .received .. => True

/-- An accepted request was sealed before by the connection's client, for a time near
the wallet's reading. -/
def Agrees (before : List (Event ι)) : Event ι → Prop
  | .handled i now wire (.ok body) _ =>
    ∃ timestamp, .sealed i timestamp body wire ∈ before ∧ Near now timestamp
  | _ => True

/-- The wire of an accepted request. -/
def Event.acceptedWire : Event ι → Option Bytes
  | .handled _ _ wire (.ok _) _ => some wire
  | _ => none

def acceptedWires (trace : List (Event ι)) : List Bytes := trace.filterMap Event.acceptedWire

variable {conns : ι → Connection H} {s t : Network ι}

section Origin
variable (encodings : H.Encodings) (ideal : H.IdealAuthPsk)
include encodings ideal

/-- What a connection's key and secret open, the relay has seen. -/
theorem observed_of_open {trace : List (Event ι)} {i : ι} {wire : Bytes}
    (hsend : CanSend conns trace wire) {skR : H.PrivateKey} {pkS : H.PublicKey} {info m : Bytes}
    (hpk : pkS = (conns i).client.pk ∨ pkS = (conns i).wallet.pk)
    (h : openWire H skR pkS (conns i).wallet.secret info wire = .ok m) :
    Observed trace wire ∧ ∃ sk rng,
      sealWire H rng (sk, pkS) (H.skToPk skR) (conns i).wallet.secret info m = .ok wire := by
  obtain ⟨sk, rng, hsk, hseal⟩ := openWire_was_sealed encodings ideal h
  refine ⟨hsend.resolve_right fun hfree => ?_, sk, rng, hseal⟩
  exact hfree ⟨i, sk, pkS, rng, _, _, _, hpk, hsk, hseal⟩

/-- A request that a wallet opens was sealed by its client. -/
theorem sealed_of_opens (distinct : Distinct conns) {trace : List (Event ι)}
    (genuine : ∀ event ∈ trace, Genuine conns event) {i : ι} {wire : Bytes}
    (hsend : CanSend conns trace wire) {nonce : Nonce} {timestamp : UInt64} {body : Bytes}
    (h : (conns i).wallet.Opens wire nonce timestamp body) :
    .sealed i timestamp body wire ∈ trace := by
  rw [Wallet.Opens, (conns i).registered] at h
  obtain ⟨hseen, sk, rng, hseal⟩ := observed_of_open encodings ideal hsend (Or.inl rfl) h
  rw [(conns i).wallet_keys] at hseal
  obtain ⟨j, timestamp', body', hmem⟩ | ⟨j, now, request, result, hmem⟩ := hseen
  · obtain ⟨rng', nonce', hseal'⟩ := genuine _ hmem
    obtain ⟨hpk, hpkR, hsecret, _, hm⟩ := sealWire_binds encodings ideal hseal hseal'
    obtain rfl := distinct i j hpk (hpkR.trans (conns j).pinned)
      (hsecret.trans (conns j).shared)
    obtain ⟨_, rfl, rfl⟩ := payload_inj hm
    exact hmem
  · obtain ⟨rng', hseal'⟩ := genuine _ hmem
    obtain ⟨_, _, _, hinfo, _⟩ := sealWire_binds encodings ideal hseal hseal'
    exact absurd hinfo info_ne

/-- One sealed request has one connection. -/
theorem seal_connection (distinct : Distinct conns) {i j : ι} {rng rng' : H.Randomness}
    {nonce nonce' : Nonce} {timestamp timestamp' : UInt64} {body body' wire : Bytes}
    (h : (conns i).client.seal rng nonce timestamp body = .ok wire)
    (h' : (conns j).client.seal rng' nonce' timestamp' body' = .ok wire) : i = j := by
  obtain ⟨hpk, hpkR, hsecret, _⟩ := sealWire_binds encodings ideal h h'
  rw [(conns i).pinned, (conns j).pinned] at hpkR
  rw [(conns i).shared, (conns j).shared] at hsecret
  exact distinct i j hpk hpkR hsecret

/-- A reply that a client opens was given by its wallet. -/
theorem handled_of_open (distinct : Distinct conns) {trace : List (Event ι)}
    (genuine : ∀ event ∈ trace, Genuine conns event) {i : ι} {wire m : Bytes}
    (hsend : CanSend conns trace wire)
    (h : openWire H (conns i).client.sk (conns i).client.walletPk (conns i).client.secret
      INFO_RESPONSE wire = .ok m) :
    ∃ now request result, .handled i now request result (.ok wire) ∈ trace ∧
      m = Wallet.payload result := by
  rw [(conns i).pinned, (conns i).shared] at h
  obtain ⟨hseen, sk, rng, hseal⟩ := observed_of_open encodings ideal hsend (Or.inr rfl) h
  rw [(conns i).client_keys] at hseal
  obtain ⟨j, timestamp', body', hmem⟩ | ⟨j, now, request, result, hmem⟩ := hseen
  · obtain ⟨rng', nonce', hseal'⟩ := genuine _ hmem
    obtain ⟨_, _, _, hinfo, _⟩ := sealWire_binds encodings ideal hseal hseal'
    exact absurd hinfo.symm info_ne
  · obtain ⟨rng', hseal'⟩ := genuine _ hmem
    obtain ⟨hpk, hpkR, hsecret, _, hm⟩ := sealWire_binds encodings ideal hseal hseal'
    obtain rfl := distinct i j (hpkR.trans (conns j).registered) hpk hsecret
    exact ⟨now, request, result, hmem, hm⟩

end Origin

structure Inv (conns : ι → Connection H) (s : Network ι) : Prop where
  genuine : ∀ event ∈ s.trace, Genuine conns event
  settled : ∀ {i now wire body reply}, .handled i now wire (.ok body) reply ∈ s.trace →
    ∀ {nonce timestamp body'}, (conns i).wallet.Opens wire nonce timestamp body' →
      (conns i).wallet.guard.Settled (s.seen i) (s.clock i) nonce now ∧ Near now timestamp
  agreed : Each Agrees s.trace
  once : (acceptedWires s.trace).Nodup

theorem start_inv : Inv conns .start where
  genuine := by simp [Network.start]
  settled h := by simp [Network.start] at h
  agreed := each_nil
  once := List.nodup_nil

theorem acceptedWires_concat (trace : List (Event ι)) (event : Event ι) :
    acceptedWires (trace ++ [event]) = acceptedWires trace ++ event.acceptedWire.toList := by
  rw [acceptedWires, List.filterMap_append, acceptedWires]
  cases h : event.acceptedWire <;> simp [h]

theorem acceptedWire_eq_some_iff {event : Event ι} {wire : Bytes} :
    event.acceptedWire = some wire ↔
      ∃ i now body reply, event = .handled i now wire (.ok body) reply := by
  cases event with
  | sealed => simp [Event.acceptedWire]
  | received => simp [Event.acceptedWire]
  | handled i now wire' result reply => cases result <;> simp [Event.acceptedWire, eq_comm]

theorem mem_acceptedWires {trace : List (Event ι)} {wire : Bytes} :
    wire ∈ acceptedWires trace ↔
      ∃ i now body reply, .handled i now wire (.ok body) reply ∈ trace := by
  simp only [acceptedWires, List.mem_filterMap, acceptedWire_eq_some_iff]
  constructor
  · rintro ⟨_, h, i, now, body, reply, rfl⟩
    exact ⟨i, now, body, reply, h⟩
  · rintro ⟨i, now, body, reply, h⟩
    exact ⟨_, h, i, now, body, reply, rfl⟩

theorem agrees_of_quiet {before : List (Event ι)} {event : Event ι}
    (quiet : event.acceptedWire = none) : Agrees before event := by
  cases event with
  | sealed => trivial
  | received => trivial
  | handled i now wire result reply => cases result with
    | error e => trivial
    | ok body => cases quiet

/-- An event that accepts no request, on wallets that have settled the earlier ones. -/
theorem Inv.quiet (inv : Inv conns s) {event : Event ι} (htrace : t.trace = s.trace ++ [event])
    (genuine : Genuine conns event) (quiet : event.acceptedWire = none)
    (settled : ∀ {i now wire body reply}, .handled i now wire (.ok body) reply ∈ s.trace →
      ∀ {nonce timestamp body'}, (conns i).wallet.Opens wire nonce timestamp body' →
        (conns i).wallet.guard.Settled (t.seen i) (t.clock i) nonce now ∧ Near now timestamp) :
    Inv conns t where
  genuine := htrace ▸ List.forall_mem_append.mpr
    ⟨inv.genuine, List.forall_mem_singleton.mpr genuine⟩
  settled {i now wire body reply} h := by
    rw [htrace, List.mem_append, List.mem_singleton] at h
    obtain h | rfl := h
    · exact settled h
    · cases quiet
  agreed := htrace ▸ each_concat.mpr ⟨inv.agreed, agrees_of_quiet quiet⟩
  once := by
    rw [htrace, acceptedWires_concat, quiet]
    simpa using inv.once

section deliver
variable {i : ι} {rng : H.Randomness} {now : UInt64} {wire : Bytes}

/-- What a wallet accepts was accepted nowhere before: its connection is the only one
it can belong to, and there its nonce is settled. -/
theorem not_accepted_before (encodings : H.Encodings) (ideal : H.IdealAuthPsk)
    (distinct : Distinct conns) (inv : Inv conns s) (hnow : s.clock i ≤ now)
    {nonce : Nonce} {timestamp : UInt64} {body : Bytes}
    (hsealed : .sealed i timestamp body wire ∈ s.trace)
    (hopens : (conns i).wallet.Opens wire nonce timestamp body)
    (hresult : ((conns i).wallet.handle now wire (s.seen i)).2 = .ok body) :
    wire ∉ acceptedWires s.trace := by
  intro hmem
  obtain ⟨j, a, body', reply, hacc⟩ := mem_acceptedWires.mp hmem
  obtain ⟨before, hbefore, timestamp', hsealed', _⟩ := inv.agreed.of_mem hacc
  have hij : i = j := by
    obtain ⟨rng, nonce, hseal⟩ := inv.genuine _ hsealed
    obtain ⟨rng', nonce', hseal'⟩ := inv.genuine _ (hbefore _ hsealed')
    exact seal_connection encodings ideal distinct hseal hseal'
  subst hij
  obtain ⟨hset, hnear⟩ := inv.settled hacc hopens
  have hfresh : (conns i).wallet.guard.fresh a timestamp = true := Wallet.guard_fresh.mpr hnear
  rw [(conns i).wallet.handle_eq_step (now, wire)] at hresult
  exact Guard.not_admitted_again (conns i).wallet.guard_lawful hset hnow
    (Wallet.read_eq_ok_iff.mpr hopens) hfresh hresult

variable [DecidableEq ι]

theorem deliver_trace {result : Except String Bytes}
    (h : ((conns i).wallet.handle now wire (s.seen i)).2 = result) :
    (s.deliver conns i rng now wire).trace =
      s.trace ++ [.handled i now wire result ((conns i).wallet.reply rng result)] := by
  subst h
  rfl

/-- The wallet that answers takes a step of its guard. -/
theorem deliver_seen : (s.deliver conns i rng now wire).seen i =
    ((conns i).wallet.guard.step (now, wire) (s.seen i)).1 := by
  rw [← (conns i).wallet.handle_eq_step (now, wire)]
  exact Function.update_self ..

theorem deliver_clock : (s.deliver conns i rng now wire).clock i = now :=
  Function.update_self ..

/-- What was settled stays settled. -/
theorem settled_deliver (inv : Inv conns s) (hnow : s.clock i ≤ now) {j : ι} {a : UInt64}
    {wire' body : Bytes} {reply : Except Panic Bytes}
    (h : .handled j a wire' (.ok body) reply ∈ s.trace)
    {nonce : Nonce} {timestamp : UInt64} {body' : Bytes}
    (hopens : (conns j).wallet.Opens wire' nonce timestamp body') :
    (conns j).wallet.guard.Settled ((s.deliver conns i rng now wire).seen j)
      ((s.deliver conns i rng now wire).clock j) nonce a ∧ Near a timestamp := by
  obtain ⟨hset, hnear⟩ := inv.settled h hopens
  refine ⟨?_, hnear⟩
  by_cases hij : j = i
  · subst hij
    rw [deliver_seen, deliver_clock]
    exact Guard.settled_step hset hnow
  · simpa only [Network.deliver, Function.update_of_ne hij] using hset

/-- The wallet that accepts a request has settled it. -/
theorem settled_accepted {nonce : Nonce} {timestamp : UInt64} {body : Bytes}
    (hopens : (conns i).wallet.Opens wire nonce timestamp body)
    (hresult : ((conns i).wallet.handle now wire (s.seen i)).2 = .ok body) :
    (conns i).wallet.guard.Settled ((s.deliver conns i rng now wire).seen i)
      ((s.deliver conns i rng now wire).clock i) nonce now := by
  rw [deliver_seen, deliver_clock]
  rw [(conns i).wallet.handle_eq_step (now, wire)] at hresult
  have hread := Wallet.read_eq_ok_iff.mpr hopens
  exact Guard.settled_of_admits ⟨⟨timestamp, body, hread⟩, body, hresult⟩

theorem Inv.deliver (encodings : H.Encodings) (ideal : H.IdealAuthPsk) (distinct : Distinct conns)
    (inv : Inv conns s) (hwire : CanSend conns s.trace wire) (hnow : s.clock i ≤ now) :
    Inv conns (s.deliver conns i rng now wire) := by
  cases hresult : ((conns i).wallet.handle now wire (s.seen i)).2 with
  | error e =>
    exact inv.quiet (deliver_trace hresult) ⟨rng, rfl⟩ rfl (settled_deliver inv hnow)
  | ok body =>
    obtain ⟨nonce, timestamp, hopens, hnear, _⟩ := Wallet.handle_eq_ok_iff.mp hresult
    have htrace : (s.deliver conns i rng now wire).trace = _ := deliver_trace hresult
    have hsealed := sealed_of_opens encodings ideal distinct inv.genuine hwire hopens
    have hfirst := not_accepted_before encodings ideal distinct inv hnow hsealed hopens hresult
    constructor
    · rw [htrace]
      exact List.forall_mem_append.mpr
        ⟨inv.genuine, List.forall_mem_singleton.mpr ⟨rng, rfl⟩⟩
    · intro j a wire' body' reply h nonce' timestamp' body'' hopens'
      rw [htrace, List.mem_append, List.mem_singleton] at h
      obtain h | h := h
      · exact settled_deliver inv hnow h hopens'
      · cases h
        obtain ⟨rfl, rfl, rfl⟩ := Wallet.opens_unique hopens hopens'
        exact ⟨settled_accepted hopens hresult, hnear⟩
    · rw [htrace]
      exact each_concat.mpr ⟨inv.agreed, timestamp, hsealed, hnear⟩
    · rw [htrace, acceptedWires_concat]
      refine inv.once.append (List.nodup_singleton wire) ?_
      simpa [Event.acceptedWire] using hfirst

end deliver

variable [DecidableEq ι]

theorem step_inv (encodings : H.Encodings) (ideal : H.IdealAuthPsk) (distinct : Distinct conns)
    (inv : Inv conns s) (h : Step conns s t) : Inv conns t := by
  cases h with
  | seals i rng nonce timestamp body wire h =>
    exact inv.quiet rfl ⟨rng, nonce, h⟩ rfl inv.settled
  | delivers i rng now wire hwire hnow => exact inv.deliver encodings ideal distinct hwire hnow
  | answers i request token answer hreply => exact inv.quiet rfl trivial rfl inv.settled

theorem reachable_inv (encodings : H.Encodings) (ideal : H.IdealAuthPsk)
    (distinct : Distinct conns) (h : Reachable conns s) : Inv conns s := by
  induction h with
  | start => exact start_inv
  | next _ step inv => exact step_inv encodings ideal distinct inv step

/-- **Agreement for requests.** Whatever the relay does, every accepted request was
sealed before by the client of that connection, with that body and for a time near the
wallet's reading; and over the whole run no wire is accepted twice, by any wallet. -/
theorem requests_agree (encodings : H.Encodings) (ideal : H.IdealAuthPsk)
    (distinct : Distinct conns) (h : Reachable conns s) :
    (∀ before after i now wire body reply,
      s.trace = before ++ .handled i now wire (.ok body) reply :: after →
        ∃ timestamp, .sealed i timestamp body wire ∈ before ∧ Near now timestamp) ∧
      (acceptedWires s.trace).Nodup := by
  have inv := reachable_inv encodings ideal distinct h
  refine ⟨?_, inv.once⟩
  intro before after i now wire body reply htrace
  exact inv.agreed before _ after htrace

namespace Demo
open Transparent (key)

/-- Two connections in which each keypair is the client of one and the wallet of the
other. -/
def connections : Bool → Connection Transparent.hpke
  | false => connection
  | true =>
    { client := { connection.client with
        sk := key 2, pk := key 2, walletPk := key 1, secret := [8] }
      wallet := { sk := key 1, pk := key 1, secret := [8], clientPk := key 2 }
      client_keys := rfl
      wallet_keys := rfl
      registered := rfl
      pinned := rfl
      shared := rfl }

theorem connections_distinct : Distinct connections := by
  intro i j hclient _ _
  have hne : key 1 ≠ key 2 := by decide
  cases i <;> cases j
  · rfl
  · exact absurd hclient hne
  · exact absurd hclient.symm hne
  · rfl

/-- A request of the first connection, delivered to its wallet twice, and to the other
wallet. -/
def delivered : Network Bool :=
  (((Network.start.log (.sealed false 300 [5] (request 9 300 [5]))).deliver connections false
    (key 4) 10 (request 9 300 [5])).deliver connections false (key 4) 600
    (request 9 300 [5])).deliver connections true (key 4) 300 (request 9 300 [5])

theorem delivered_reachable : Reachable connections delivered := by
  have sent : ∀ trace, CanSend connections
      (.sealed false 300 [5] (request 9 300 [5]) :: trace) (request 9 300 [5]) :=
    fun _ => Or.inl (Or.inl ⟨_, _, _, List.mem_cons_self⟩)
  exact .next (.next (.next (.next .start (.seals _ _ (key 3) (nonce 9) _ _ _ rfl))
    (.delivers _ _ _ _ _ (sent _) (by decide))) (.delivers _ _ _ _ _ (sent _) (by decide)))
    (.delivers _ _ _ _ _ (sent _) (by decide))

end Demo

set_option maxRecDepth 10000 in
theorem requests_agree_delivered :
    acceptedWires Demo.delivered.trace = [Demo.request 9 300 [5]] ∧
      (acceptedWires Demo.delivered.trace).Nodup :=
  ⟨by decide, (requests_agree Transparent.encodings Transparent.idealAuthPsk
    Demo.connections_distinct Demo.delivered_reachable).2⟩

end HpkeDemo.Bwc
