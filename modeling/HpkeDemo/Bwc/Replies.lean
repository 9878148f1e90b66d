import HpkeDemo.Bwc.Network

/-! What a client may conclude from a reply: it is an answer of its wallet to some
request, not always to the request it was returned for. -/
namespace HpkeDemo.Bwc
open Channel Connect History

variable {H : Hpke} {ι : Type} {conns : ι → Connection H} {s : Network ι}

/-- What a client makes of the wallet's reply to a result of `handle`. -/
def Outcome.ofResult : Except String Bytes → Outcome
  | .ok body => .accepted (Wallet.ack body)
  | .error e => .rejected e

theorem decode_payload (result : Except String Bytes) :
    Response.decode (Wallet.payload result) = match result with
      | .ok body => .ok (Wallet.ack body)
      | .error e => .error e := by
  cases result <;> simp [Wallet.payload]

/-- The client reports what it decodes from the reply that it opens. -/
theorem send_reply_eq_ok_iff {client : Client H} {request reply : Bytes} {token : Option String}
    {outcome : Outcome} :
    client.send (fun _ => .ok (.success reply)) request token = .ok outcome ↔
      ∃ m, openWire H client.sk client.walletPk client.secret INFO_RESPONSE reply = .ok m ∧
        outcome = match Response.decode m with
          | .ok body => .accepted body
          | .error reason => .rejected reason := by
  have hpost : ∀ f : Answer → Except String Outcome,
      (Except.ok (Answer.success reply) : Except String Answer) >>= f = f (.success reply) :=
    fun _ => rfl
  simp only [Client.send, hpost, bind_eq_ok_iff]
  refine exists_congr fun m => and_congr_right fun _ => ?_
  cases Response.decode m <;> simp [pure, Except.pure, eq_comm]

/-- A reply was given by the wallet of its connection, to some request. -/
def Answered (before : List (Event ι)) : Event ι → Prop
  | .received i _ (.success reply) (.ok outcome) => ∃ now wire result,
    .handled i now wire result (.ok reply) ∈ before ∧ outcome = .ofResult result
  | _ => True

theorem answered_receive (encodings : H.Encodings) (ideal : H.IdealAuthPsk)
    (distinct : Distinct conns) (inv : Inv conns s) {i : ι} {request : Bytes}
    {token : Option String} {answer : Answer}
    (hreply : ∀ reply, answer = .success reply → CanSend conns s.trace reply) :
    Answered s.trace (.received i request answer
      ((conns i).client.send (fun _ => .ok answer) request token)) := by
  cases answer with
  | failure status body => trivial
  | success reply =>
    cases hsend : (conns i).client.send (fun _ => .ok (.success reply)) request token with
    | error e => trivial
    | ok outcome =>
      obtain ⟨m, hopen, houtcome⟩ := send_reply_eq_ok_iff.mp hsend
      obtain ⟨now, wire, result, hmem, rfl⟩ :=
        handled_of_open encodings ideal distinct inv.genuine (hreply reply rfl) hopen
      refine ⟨now, wire, result, hmem, ?_⟩
      rw [houtcome, decode_payload]
      cases result <;> rfl

variable [DecidableEq ι]

theorem each_answered (encodings : H.Encodings) (ideal : H.IdealAuthPsk)
    (distinct : Distinct conns) (h : Reachable conns s) : Each Answered s.trace := by
  induction h with
  | start => exact each_nil
  | next h step ih =>
    have inv := reachable_inv encodings ideal distinct h
    cases step with
    | seals => exact each_concat.mpr ⟨ih, trivial⟩
    | delivers => exact each_concat.mpr ⟨ih, trivial⟩
    | answers i request token answer hreply =>
      exact each_concat.mpr ⟨ih, answered_receive encodings ideal distinct inv hreply⟩

/-- **Replies come from the wallet.** A reply that a client opens and decodes was given
by the wallet of its connection when the relay delivered some request to it, and the
outcome is that of the wallet's own handling of that request. -/
theorem replies_come_from_wallet (encodings : H.Encodings) (ideal : H.IdealAuthPsk)
    (distinct : Distinct conns) (h : Reachable conns s) :
    ∀ before after i request reply outcome,
      s.trace = before ++ .received i request (.success reply) (.ok outcome) :: after →
        ∃ now wire result, .handled i now wire result (.ok reply) ∈ before ∧
          outcome = .ofResult result := by
  intro before after i request reply outcome htrace
  exact each_answered encodings ideal distinct h before _ after htrace

namespace Demo
open Transparent (key)

/-- The wallet's acknowledgement of the request with body 5. -/
def ackReply : Bytes := (connection.wallet.reply (key 4) (.ok [5])).toOption.getD []

/-- The client seals two requests. The relay delivers the first, and returns its reply
as the reply to the second. -/
def crossed : Network Bool :=
  ((((Network.start.log (.sealed false 300 [5] (request 9 300 [5]))).log
    (.sealed false 300 [6] (request 8 300 [6]))).deliver connections false (key 4) 300
    (request 9 300 [5])).receive connections false (request 8 300 [6]) none (.success ackReply))

def crossedTrace : List (Event Bool) :=
  [.sealed false 300 [5] (request 9 300 [5]), .sealed false 300 [6] (request 8 300 [6]),
   .handled false 300 (request 9 300 [5]) (.ok [5]) (.ok ackReply),
   .received false (request 8 300 [6]) (.success ackReply)
     (.ok (.accepted (Bytes.ofString "ack: \x05")))]

set_option maxRecDepth 10000 in
theorem crossed_trace : crossed.trace = crossedTrace := by rfl

set_option maxRecDepth 10000 in
theorem crossed_reachable : Reachable connections crossed := by
  refine .next (.next (.next (.next .start (.seals _ _ (key 3) (nonce 9) _ _ _ rfl))
    (.seals _ _ (key 3) (nonce 8) _ _ _ rfl)) (.delivers _ _ _ _ _ ?_ (by decide)))
    (.answers _ _ _ _ _ ?_)
  · exact Or.inl (Or.inl ⟨_, _, _, List.mem_cons_self⟩)
  · rintro _ ⟨⟩
    refine Or.inl (Or.inr ⟨false, 300, request 9 300 [5], .ok [5], ?_⟩)
    exact List.mem_cons_of_mem _ (List.mem_cons_of_mem _ List.mem_cons_self)

end Demo

theorem replies_come_from_wallet_crossed :
    ∃ now wire result, .handled false now wire result (.ok Demo.ackReply) ∈
        Demo.crossedTrace.take 3 ∧
      .accepted (Bytes.ofString "ack: \x05") = Outcome.ofResult result :=
  replies_come_from_wallet Transparent.encodings Transparent.idealAuthPsk
    Demo.connections_distinct Demo.crossed_reachable (Demo.crossedTrace.take 3) [] false
    (Demo.request 8 300 [6]) Demo.ackReply _ Demo.crossed_trace

set_option maxRecDepth 10000 in
/-- The wallet never gave the crossed reply to the request it was returned for. -/
theorem reply_of_another_request : ¬ ∀ s, Reachable Demo.connections s →
    ∀ i request reply outcome, .received i request (.success reply) (.ok outcome) ∈ s.trace →
      ∃ now result, .handled i now request result (.ok reply) ∈ s.trace := by
  intro h
  obtain ⟨now, result, hmem⟩ := h _ Demo.crossed_reachable false (Demo.request 8 300 [6])
    Demo.ackReply (.accepted (Bytes.ofString "ack: \x05"))
    (by rw [Demo.crossed_trace]; simp [Demo.crossedTrace])
  rw [Demo.crossed_trace] at hmem
  have hne : Demo.request 8 300 [6] ≠ Demo.request 9 300 [5] := by decide
  simp [Demo.crossedTrace, hne] at hmem

end HpkeDemo.Bwc
