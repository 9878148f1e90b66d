import HpkeDemo.Bwc.Replies
import HpkeDemo.Replay.Once

/-! The network of `Network.lean` with an attacker that is also an insider: besides what it
sees, it holds the private keys and the secrets of some of the connections. For a connection
that stays safe, the wallet is an ideal mailbox: it takes in each request of its client
once, within its window, and nothing else. -/
namespace HpkeDemo.Bwc
open Channel Connect Replay History

variable {H : Hpke} {ι : Type}

/-- What the attacker holds: a private key of each of these public keys, and these secrets. -/
structure Knowledge (H : Hpke) where
  key : H.PublicKey → Prop
  secret : Bytes → Prop

/-- The attacker can make `wire`: if it is a sealed message at all, the attacker holds its
secret, and the sender's key or the recipient's. -/
def Knowledge.Makes (knows : Knowledge H) (wire : Bytes) : Prop :=
  ∀ sk rng recipientPk psk info m,
    sealWire H rng (sk, H.skToPk sk) recipientPk psk info m = .ok wire →
      knows.secret psk ∧ (knows.key (H.skToPk sk) ∨ knows.key recipientPk)

/-- The secret is kept, or both private keys are. -/
def Safe (knows : Knowledge H) (c : Connection H) : Prop :=
  ¬ knows.secret c.wallet.secret ∨ ¬ knows.key c.client.pk ∧ ¬ knows.key c.wallet.pk

namespace Insider

def CanSend (knows : Knowledge H) (trace : List (Event ι)) (wire : Bytes) : Prop :=
  Observed trace wire ∨ knows.Makes wire

inductive Step [DecidableEq ι] (knows : Knowledge H) (conns : ι → Connection H) :
    Network ι → Network ι → Prop where
  | seals (s i rng nonce timestamp body wire)
      (h : (conns i).client.seal rng nonce timestamp body = .ok wire) :
      Step knows conns s (s.log (.sealed i timestamp body wire))
  | delivers (s i rng now wire) (hwire : CanSend knows s.trace wire) (hnow : s.clock i ≤ now) :
      Step knows conns s (s.deliver conns i rng now wire)
  | answers (s i request token answer)
      (hreply : ∀ reply, answer = .success reply → CanSend knows s.trace reply) :
      Step knows conns s (s.receive conns i request token answer)

inductive Reachable [DecidableEq ι] (knows : Knowledge H) (conns : ι → Connection H) :
    Network ι → Prop where
  | start : Reachable knows conns .start
  | next {s t} (h : Reachable knows conns s) (step : Step knows conns s t) :
      Reachable knows conns t

end Insider

/-- The call of wallet `i` that an event records, with its result. -/
def Event.callTo [DecidableEq ι] (i : ι) :
    Event ι → Option ((UInt64 × Bytes) × Except String Bytes)
  | .handled j now wire result _ => if j = i then some ((now, wire), result) else none
  | _ => none

def callsTo [DecidableEq ι] (i : ι) (trace : List (Event ι)) :
    List ((UInt64 × Bytes) × Except String Bytes) :=
  trace.filterMap (Event.callTo i)

/-- Wallet `i` has taken `wire` in. -/
def Taken (i : ι) (trace : List (Event ι)) (wire : Bytes) : Prop :=
  ∃ now body reply, .handled i now wire (.ok body) reply ∈ trace

/-- No two requests that client `i` sealed carry one nonce. -/
def FreshNonces (conns : ι → Connection H) (i : ι) (trace : List (Event ι)) : Prop :=
  ∀ wire wire' nonce timestamp timestamp' body body',
    .sealed i timestamp body wire ∈ trace → .sealed i timestamp' body' wire' ∈ trace →
    (conns i).wallet.Opens wire nonce timestamp body →
    (conns i).wallet.Opens wire' nonce timestamp' body' → wire = wire'

/-- A request that the wallet of a safe connection opens was sealed by its client. -/
def Sent (knows : Knowledge H) (conns : ι → Connection H) (before : List (Event ι)) :
    Event ι → Prop
  | .handled i _ wire _ _ => Safe knows (conns i) → ∀ nonce timestamp body,
    (conns i).wallet.Opens wire nonce timestamp body → .sealed i timestamp body wire ∈ before
  | .received i request answer outcome =>
    Safe knows (conns i) → Answered before (.received i request answer outcome)
  | .sealed .. => True

variable {knows : Knowledge H} {conns : ι → Connection H} {s t : Network ι}

/-- What passes between the parties of a safe connection, the attacker has seen. -/
theorem observed_of_safe (encodings : H.Encodings) (ideal : H.IdealAuthPsk) {c : Connection H}
    (safe : Safe knows c) {trace : List (Event ι)} {wire m info : Bytes} {skR : H.PrivateKey}
    {pkS : H.PublicKey} (hsend : Insider.CanSend knows trace wire)
    (hkeys : pkS = c.client.pk ∧ H.skToPk skR = c.wallet.pk ∨
      pkS = c.wallet.pk ∧ H.skToPk skR = c.client.pk)
    (h : openWire H skR pkS c.wallet.secret info wire = .ok m) : Observed trace wire := by
  obtain ⟨sk, rng, rfl, hseal⟩ := openWire_was_sealed encodings ideal h
  refine hsend.resolve_right fun hmakes => ?_
  obtain ⟨hsecret, hkey⟩ := hmakes sk rng _ _ info m hseal
  obtain hkept | ⟨hclient, hwallet⟩ := safe
  · exact hkept hsecret
  · obtain ⟨hS, hR⟩ | ⟨hS, hR⟩ := hkeys
    · rw [hS, hR] at hkey
      exact hkey.elim hclient hwallet
    · rw [hS, hR] at hkey
      exact hkey.elim hwallet hclient

/-- The client of a safe connection opens nothing but what its wallet gave. -/
theorem answered_of_safe (encodings : H.Encodings) (ideal : H.IdealAuthPsk)
    (distinct : Distinct conns) {trace : List (Event ι)}
    (genuine : ∀ event ∈ trace, Genuine conns event) {i : ι} (safe : Safe knows (conns i))
    {request : Bytes} {token : Option String} {answer : Answer}
    (hreply : ∀ reply, answer = .success reply → Insider.CanSend knows trace reply) :
    Answered trace (.received i request answer
      ((conns i).client.send (fun _ => .ok answer) request token)) := by
  cases answer with
  | failure status body => trivial
  | success reply =>
    cases hsend : (conns i).client.send (fun _ => .ok (.success reply)) request token with
    | error e => trivial
    | ok outcome =>
      obtain ⟨m, hopen, houtcome⟩ := send_reply_eq_ok_iff.mp hsend
      have hobserved : Observed trace reply := by
        rw [(conns i).pinned, (conns i).shared] at hopen
        exact observed_of_safe encodings ideal safe (hreply reply rfl)
          (Or.inr ⟨rfl, (conns i).client_keys⟩) hopen
      obtain ⟨now, wire, result, hmem, rfl⟩ :=
        handled_of_open encodings ideal distinct genuine (Or.inl hobserved) hopen
      refine ⟨now, wire, result, hmem, ?_⟩
      rw [houtcome, decode_payload]
      cases result <;> rfl

section callsTo
variable [DecidableEq ι] {i : ι} {trace : List (Event ι)}

theorem callsTo_concat (event : Event ι) :
    callsTo i (trace ++ [event]) = callsTo i trace ++ (event.callTo i).toList := by
  rw [callsTo, List.filterMap_append, callsTo]
  cases h : event.callTo i <;> simp [h]

theorem mem_callsTo {now : UInt64} {wire : Bytes} {result : Except String Bytes} :
    ((now, wire), result) ∈ callsTo i trace ↔
      ∃ reply, .handled i now wire result reply ∈ trace := by
  simp only [callsTo, List.mem_filterMap]
  constructor
  · rintro ⟨event, hmem, hcall⟩
    cases event with
    | sealed => cases hcall
    | received => cases hcall
    | handled j now' wire' result' reply =>
      simp only [Event.callTo] at hcall
      split at hcall
      · next hj =>
        cases hcall
        exact ⟨reply, hj ▸ hmem⟩
      · cases hcall
  · rintro ⟨reply, hmem⟩
    exact ⟨_, hmem, by simp [Event.callTo]⟩

theorem callsTo_split {before after : List (Event ι)} {now : UInt64} {wire : Bytes}
    {result : Except String Bytes} {reply : Except Panic Bytes}
    (h : trace = before ++ .handled i now wire result reply :: after) :
    callsTo i trace = callsTo i before ++ ((now, wire), result) :: callsTo i after := by
  simp [h, callsTo, Event.callTo]

end callsTo

/-- Each wallet has run a session of the calls that the trace records for it. -/
structure Insider.Inv [DecidableEq ι] (knows : Knowledge H) (conns : ι → Connection H)
    (s : Network ι) : Prop where
  genuine : ∀ event ∈ s.trace, Genuine conns event
  session : ∀ i, (conns i).wallet.session ((callsTo i s.trace).map Prod.fst) =
    (s.seen i, callsTo i s.trace)
  mono : ∀ i, (callsTo i s.trace).Pairwise fun x y => x.1.1 ≤ y.1.1
  last : ∀ i, ∀ x ∈ callsTo i s.trace, x.1.1 ≤ s.clock i
  sent : Each (Sent knows conns) s.trace

section Inv
variable [DecidableEq ι]

theorem Insider.start_inv : Insider.Inv knows conns .start where
  genuine := by simp [Network.start]
  session _ := rfl
  mono _ := List.Pairwise.nil
  last _ := by simp [Network.start, callsTo]
  sent := each_nil

/-- An event that is no call of a wallet. -/
theorem Insider.Inv.log (inv : Insider.Inv knows conns s) {event : Event ι}
    (genuine : Genuine conns event) (nocall : ∀ i, event.callTo i = none)
    (sent : Sent knows conns s.trace event) : Insider.Inv knows conns (s.log event) where
  genuine := List.forall_mem_append.mpr ⟨inv.genuine, List.forall_mem_singleton.mpr genuine⟩
  session i := by simpa [Network.log, callsTo_concat, nocall i] using inv.session i
  mono i := by simpa [Network.log, callsTo_concat, nocall i] using inv.mono i
  last i := by simpa [Network.log, callsTo_concat, nocall i] using inv.last i
  sent := each_concat.mpr ⟨inv.sent, sent⟩

theorem Insider.Inv.deliver (inv : Insider.Inv knows conns s) {i : ι} {rng : H.Randomness}
    {now : UInt64} {wire : Bytes} (hnow : s.clock i ≤ now)
    (sent : ∀ result reply, Sent knows conns s.trace (.handled i now wire result reply)) :
    Insider.Inv knows conns (s.deliver conns i rng now wire) := by
  have htrace : (s.deliver conns i rng now wire).trace = _ := deliver_trace rfl
  have calls (j : ι) : callsTo j (s.deliver conns i rng now wire).trace =
      callsTo j s.trace ++ if i = j then
        [((now, wire), ((conns i).wallet.handle now wire (s.seen i)).2)] else [] := by
    rw [htrace, callsTo_concat]
    by_cases hij : i = j <;> simp [Event.callTo, hij]
  constructor
  · rw [htrace]
    exact List.forall_mem_append.mpr ⟨inv.genuine, List.forall_mem_singleton.mpr ⟨rng, rfl⟩⟩
  · intro j
    have hsession := inv.session j
    rw [Wallet.session] at hsession ⊢
    rw [calls]
    by_cases hij : i = j
    · subst hij
      rw [if_pos rfl, List.map_append, List.map_singleton, Machine.run_concat, hsession]
      simp [Network.deliver, Wallet.postRequest]
    · simp only [if_neg hij, List.append_nil, hsession, Network.deliver,
        Function.update_of_ne (Ne.symm hij)]
  · intro j
    rw [calls]
    by_cases hij : i = j
    · subst hij
      rw [if_pos rfl]
      refine List.pairwise_append.mpr ⟨inv.mono i, List.pairwise_singleton _ _, ?_⟩
      intro x hx y hy
      rw [List.mem_singleton.mp hy]
      exact UInt64.le_trans (inv.last i x hx) hnow
    · simpa only [if_neg hij, List.append_nil] using inv.mono j
  · intro j x hx
    rw [calls] at hx
    by_cases hij : i = j
    · subst hij
      rw [deliver_clock]
      rw [if_pos rfl, List.mem_append, List.mem_singleton] at hx
      obtain hx | rfl := hx
      · exact UInt64.le_trans (inv.last i x hx) hnow
      · exact UInt64.le_refl now
    · rw [if_neg hij, List.append_nil] at hx
      simpa only [Network.deliver, Function.update_of_ne (Ne.symm hij)] using inv.last j x hx
  · rw [htrace]
    exact each_concat.mpr ⟨inv.sent, sent _ _⟩

theorem Insider.step_inv (encodings : H.Encodings) (ideal : H.IdealAuthPsk)
    (distinct : Distinct conns) (inv : Insider.Inv knows conns s)
    (h : Insider.Step knows conns s t) : Insider.Inv knows conns t := by
  cases h with
  | seals i rng nonce timestamp body wire h =>
    exact inv.log ⟨rng, nonce, h⟩ (fun _ => rfl) trivial
  | delivers i rng now wire hwire hnow =>
    refine inv.deliver hnow fun result reply safe nonce timestamp body hopens => ?_
    have hobserved := observed_of_safe encodings ideal safe hwire
      (Or.inl ⟨(conns i).registered, (conns i).wallet_keys⟩) hopens
    exact sealed_of_opens encodings ideal distinct inv.genuine (Or.inl hobserved) hopens
  | answers i request token answer hreply =>
    refine inv.log trivial (fun _ => rfl) fun safe => ?_
    exact answered_of_safe encodings ideal distinct inv.genuine safe hreply

theorem Insider.reachable_inv (encodings : H.Encodings) (ideal : H.IdealAuthPsk)
    (distinct : Distinct conns) (h : Insider.Reachable knows conns s) :
    Insider.Inv knows conns s := by
  induction h with
  | start => exact Insider.start_inv
  | next _ step inv => exact Insider.step_inv encodings ideal distinct inv step

end Inv

section Mailbox
variable [DecidableEq ι] {before after : List (Event ι)} {i : ι} {now : UInt64}
  {wire body : Bytes} {result : Except String Bytes} {reply : Except Panic Bytes}

/-- What a wallet answers is its guard's step from the session so far. -/
theorem Insider.Inv.answer (inv : Insider.Inv knows conns s)
    (htrace : s.trace = before ++ .handled i now wire result reply :: after) :
    (Machine.run (conns i).wallet.guard.step (fun _ => none)
        ((callsTo i s.trace).map Prod.fst)).2 =
      callsTo i before ++ ((now, wire), result) :: callsTo i after := by
  rw [← callsTo_split htrace, ← Wallet.session_eq_run, inv.session]

theorem Insider.Inv.earlier (inv : Insider.Inv knows conns s)
    (htrace : s.trace = before ++ .handled i now wire result reply :: after) :
    ∀ y ∈ callsTo i before, y.1.1 ≤ now := by
  intro y hy
  have hmono := inv.mono i
  rw [callsTo_split htrace] at hmono
  exact (List.pairwise_append.mp hmono).2.2 y hy _ List.mem_cons_self

/-- An earlier call that admitted a nonce took in a request of the client with it. -/
theorem Insider.Inv.sealed_of_admits (inv : Insider.Inv knows conns s)
    (safe : Safe knows (conns i))
    (htrace : s.trace = before ++ .handled i now wire result reply :: after)
    {y : (UInt64 × Bytes) × Except String Bytes} {nonce : Nonce} (hy : y ∈ callsTo i before)
    (hadmits : (conns i).wallet.guard.Admits y nonce) :
    Taken i before y.1.2 ∧ ∃ timestamp body,
      .sealed i timestamp body y.1.2 ∈ before ∧
        (conns i).wallet.Opens y.1.2 nonce timestamp body := by
  obtain ⟨⟨now', wire'⟩, result'⟩ := y
  obtain ⟨⟨timestamp, body, hread⟩, body', rfl⟩ := hadmits
  have hopens := Wallet.read_eq_ok_iff.mp hread
  obtain ⟨reply', hmem⟩ := mem_callsTo.mp hy
  refine ⟨⟨now', body', reply', hmem⟩, timestamp, body, ?_, hopens⟩
  obtain ⟨before', after', rfl⟩ := List.append_of_mem hmem
  have hsent := inv.sent before' _ (after' ++ .handled i now wire result reply :: after)
    (by simpa using htrace)
  exact List.mem_append_left _ (hsent safe nonce timestamp body hopens)

/-- A request that opens is admitted exactly if it is near and was not taken in before. -/
theorem Insider.Inv.admits_iff (inv : Insider.Inv knows conns s) (safe : Safe knows (conns i))
    (fresh : FreshNonces conns i s.trace)
    (htrace : s.trace = before ++ .handled i now wire result reply :: after) {nonce : Nonce}
    {timestamp : UInt64} (hopens : (conns i).wallet.Opens wire nonce timestamp body) :
    (conns i).wallet.guard.Admits ((now, wire), result) nonce ↔
      Near now timestamp ∧ ¬ Taken i before wire := by
  have hread := Wallet.read_eq_ok_iff.mpr hopens
  have hsealed := inv.sent before _ after htrace safe nonce timestamp body hopens
  have earlier : ∀ event ∈ before, event ∈ s.trace :=
    fun event h => htrace ▸ List.mem_append_left _ h
  -- A call that admitted the nonce before had the same wire.
  have same {y : (UInt64 × Bytes) × Except String Bytes} (hy : y ∈ callsTo i before)
      (hadmits : (conns i).wallet.guard.Admits y nonce) :
      y.1.2 = wire ∧ Taken i before y.1.2 := by
    obtain ⟨htaken, timestamp', body', hsealed', hopens'⟩ :=
      inv.sealed_of_admits safe htrace hy hadmits
    exact ⟨fresh _ _ nonce timestamp' timestamp body' body (earlier _ hsealed')
      (earlier _ hsealed) hopens' hopens, htaken⟩
  rw [Guard.admits_iff_unadmitted (conns i).wallet.guard_lawful (inv.answer htrace)
    (inv.earlier htrace)]
  · constructor
    · rintro ⟨hoffers, hfirst⟩
      obtain ⟨timestamp', body', hread', hnear⟩ := hoffers
      obtain ⟨_, rfl, rfl⟩ := Wallet.opens_unique hopens (Wallet.read_eq_ok_iff.mp hread')
      refine ⟨Wallet.guard_fresh.mp hnear, ?_⟩
      rintro ⟨now', body', reply', hmem⟩
      exact hfirst _ (mem_callsTo.mpr ⟨reply', hmem⟩) ⟨⟨timestamp, body, hread⟩, body', rfl⟩
    · rintro ⟨hnear, huntaken⟩
      refine ⟨⟨timestamp, body, hread, Wallet.guard_fresh.mpr hnear⟩, fun y hy hadmits => ?_⟩
      obtain ⟨rfl, htaken⟩ := same hy hadmits
      exact huntaken htaken
  · intro y hy hadmits s b s' b' hs hs'
    rw [(same hy hadmits).1] at hs
    exact (Wallet.opens_unique (Wallet.read_eq_ok_iff.mp hs) (Wallet.read_eq_ok_iff.mp hs')).2.1

/-- The step of the guard that answered. -/
theorem Insider.Inv.exists_step (inv : Insider.Inv knows conns s)
    (htrace : s.trace = before ++ .handled i now wire result reply :: after) :
    ∃ seen, ((conns i).wallet.guard.step (now, wire) seen).2 = result :=
  ⟨_, (Machine.run_split _ (inv.answer htrace)).2⟩

theorem Insider.Inv.opens_of_sealed (inv : Insider.Inv knows conns s) (encodings : H.Encodings)
    (correct : H.Correct) {timestamp : UInt64} {body : Bytes}
    (h : .sealed i timestamp body wire ∈ s.trace) :
    ∃ nonce, (conns i).wallet.Opens wire nonce timestamp body := by
  obtain ⟨rng, nonce, hseal⟩ := inv.genuine _ h
  exact ⟨nonce, (conns i).opens_of_seal encodings correct hseal⟩

theorem Insider.Inv.ok_iff (inv : Insider.Inv knows conns s) (encodings : H.Encodings)
    (correct : H.Correct) (safe : Safe knows (conns i)) (fresh : FreshNonces conns i s.trace)
    (htrace : s.trace = before ++ .handled i now wire result reply :: after) (body : Bytes) :
    result = .ok body ↔ ∃ timestamp, .sealed i timestamp body wire ∈ before ∧
      Near now timestamp ∧ ¬ Taken i before wire := by
  obtain ⟨seen, hstep⟩ := inv.exists_step htrace
  constructor
  · rintro rfl
    obtain ⟨nonce, timestamp, hread, _⟩ := Guard.step_eq_ok_iff.mp hstep
    have hopens := Wallet.read_eq_ok_iff.mp hread
    refine ⟨timestamp, inv.sent before _ after htrace safe nonce timestamp body hopens, ?_⟩
    exact (inv.admits_iff safe fresh htrace hopens).mp ⟨⟨timestamp, body, hread⟩, body, rfl⟩
  · rintro ⟨timestamp, hsealed, htaken⟩
    obtain ⟨nonce, hopens⟩ := inv.opens_of_sealed encodings correct
      (htrace ▸ List.mem_append_left _ hsealed)
    obtain ⟨_, body', rfl⟩ := (inv.admits_iff safe fresh htrace hopens).mpr htaken
    obtain ⟨nonce', timestamp', hread, _⟩ := Guard.step_eq_ok_iff.mp hstep
    rw [(Wallet.opens_unique (Wallet.read_eq_ok_iff.mp hread) hopens).2.2]

end Mailbox

/-- **The wallet is a mailbox.** Whatever the attacker does and whichever other keys and
secrets it holds: the wallet of a safe connection whose client drew fresh nonces accepts a
message exactly if its client sealed it, for a time near the reading, and it was not accepted
before; and a message of its client's that it refuses is refused as stale or as replayed,
whichever it is. -/
theorem wallet_is_mailbox [DecidableEq ι] (encodings : H.Encodings) (correct : H.Correct)
    (ideal : H.IdealAuthPsk) (distinct : Distinct conns) (h : Insider.Reachable knows conns s)
    (i : ι) (safe : Safe knows (conns i)) (fresh : FreshNonces conns i s.trace) :
    ∀ before after now wire result reply,
      s.trace = before ++ .handled i now wire result reply :: after →
        (∀ body, result = .ok body ↔ ∃ timestamp, .sealed i timestamp body wire ∈ before ∧
          Near now timestamp ∧ ¬ Taken i before wire) ∧
        ∀ timestamp body e, .sealed i timestamp body wire ∈ before → result = .error e →
          ¬ Near now timestamp ∧ e = "clock skew: timestamp outside the freshness window" ∨
          Near now timestamp ∧ Taken i before wire ∧
            e = "replayed: nonce already seen this session" := by
  intro before after now wire result reply htrace
  have inv := Insider.reachable_inv encodings ideal distinct h
  refine ⟨inv.ok_iff encodings correct safe fresh htrace, ?_⟩
  rintro timestamp body e hsealed rfl
  obtain ⟨seen, hstep⟩ := inv.exists_step htrace
  obtain ⟨nonce, hopens⟩ := inv.opens_of_sealed encodings correct
    (htrace ▸ List.mem_append_left _ hsealed)
  have hread := Wallet.read_eq_ok_iff.mpr hopens
  by_cases hnear : Near now timestamp
  · refine Or.inr ⟨hnear, ?_, Guard.step_of_repeated hread (Wallet.guard_fresh.mpr hnear) hstep⟩
    by_contra huntaken
    have hok := (inv.ok_iff encodings correct safe fresh htrace body).mpr
      ⟨timestamp, hsealed, hnear, huntaken⟩
    cases hok
  · have hstale : (conns i).wallet.guard.fresh now timestamp = false :=
      Bool.eq_false_iff.mpr (mt Wallet.guard_fresh.mp hnear)
    exact Or.inl ⟨hnear, Except.error.inj (hstep.symm.trans (Guard.step_of_stale hread hstale))⟩

namespace Demo
open Transparent (key)

/-- An attacker that has read every connection string, and holds no key of `connections`. -/
def reader : Knowledge Transparent.hpke where
  key pk := pk = key 9
  secret _ := True

theorem reader_safe (i : Bool) : Safe reader (connections i) := by
  have h1 : key 1 ≠ key 9 := by decide
  have h2 : key 2 ≠ key 9 := by decide
  cases i with
  | false => exact Or.inr ⟨h1, h2⟩
  | true => exact Or.inr ⟨h2, h1⟩

def deliveredTrace : List (Event Bool) :=
  [.sealed false 300 [5] (request 9 300 [5]),
   .handled false 10 (request 9 300 [5]) (.ok [5]) (connection.wallet.reply (key 4) (.ok [5])),
   .handled false 600 (request 9 300 [5]) (.error "replayed: nonce already seen this session")
    (connection.wallet.reply (key 4) (.error "replayed: nonce already seen this session")),
   .handled true 300 (request 9 300 [5]) (.error "authentication/decryption failed")
    ((connections true).wallet.reply (key 4) (.error "authentication/decryption failed"))]

set_option maxRecDepth 10000 in
theorem delivered_trace : delivered.trace = deliveredTrace := by rfl

theorem delivered_insider : Insider.Reachable reader connections delivered := by
  have sent : ∀ trace, Insider.CanSend reader
      (.sealed false 300 [5] (request 9 300 [5]) :: trace) (request 9 300 [5]) :=
    fun _ => Or.inl (Or.inl ⟨_, _, _, List.mem_cons_self⟩)
  exact .next (.next (.next (.next .start (.seals _ _ (key 3) (nonce 9) _ _ _ rfl))
    (.delivers _ _ _ _ _ (sent _) (by decide))) (.delivers _ _ _ _ _ (sent _) (by decide)))
    (.delivers _ _ _ _ _ (sent _) (by decide))

theorem delivered_fresh : FreshNonces connections false delivered.trace := by
  intro wire wire' nonce timestamp timestamp' body body' h h' _ _
  simp only [delivered_trace, deliveredTrace, List.mem_cons, Event.sealed.injEq, reduceCtorEq,
    List.not_mem_nil, or_false, true_and] at h h'
  rw [h.2.2, h'.2.2]

end Demo

/-- The second delivery of a request, inside its window. -/
theorem wallet_is_mailbox_delivered :
    Taken false (Demo.deliveredTrace.take 2) (Demo.request 9 300 [5]) := by
  obtain ⟨_, refused⟩ := wallet_is_mailbox Transparent.encodings Transparent.correct
    Transparent.idealAuthPsk Demo.connections_distinct Demo.delivered_insider false
    (Demo.reader_safe false) Demo.delivered_fresh (Demo.deliveredTrace.take 2)
    (Demo.deliveredTrace.drop 3) 600 (Demo.request 9 300 [5]) _ _ Demo.delivered_trace
  obtain ⟨hstale, _⟩ | ⟨_, htaken, _⟩ := refused 300 [5] _ (by simp [Demo.deliveredTrace]) rfl
  · exact absurd ⟨by decide, by decide⟩ hstale
  · exact htaken

/-- The wire of a request that wallet `i` accepted. -/
def Event.takenBy [DecidableEq ι] (i : ι) : Event ι → Option Bytes
  | .handled j _ wire (.ok _) _ => if j = i then some wire else none
  | _ => none

def takenBy [DecidableEq ι] (i : ι) (trace : List (Event ι)) : List Bytes :=
  trace.filterMap (Event.takenBy i)

theorem eq_handled_of_takenBy [DecidableEq ι] {i : ι} {event : Event ι} {wire : Bytes}
    (h : event.takenBy i = some wire) :
    ∃ now body reply, event = .handled i now wire (.ok body) reply := by
  cases event with
  | sealed => cases h
  | received => cases h
  | handled j now wire' result reply =>
    cases result with
    | error => cases h
    | ok body =>
      simp only [Event.takenBy, Option.ite_none_right_eq_some, Option.some.injEq] at h
      obtain ⟨rfl, rfl⟩ := h
      exact ⟨now, body, reply, rfl⟩

theorem mem_takenBy [DecidableEq ι] {i : ι} {trace : List (Event ι)} {wire : Bytes} :
    wire ∈ takenBy i trace ↔ Taken i trace wire := by
  simp only [takenBy, List.mem_filterMap]
  constructor
  · rintro ⟨event, hmem, htaken⟩
    obtain ⟨now, body, reply, rfl⟩ := eq_handled_of_takenBy htaken
    exact ⟨now, body, reply, hmem⟩
  · rintro ⟨now, body, reply, hmem⟩
    exact ⟨_, hmem, by simp [Event.takenBy]⟩

/-- **Exactly once.** The wallet of a safe connection whose client drew fresh nonces accepts
each request of its client once, however often it is delivered, if it is ever delivered within
its window; and it accepts nothing else. -/
theorem exactly_once [DecidableEq ι] (encodings : H.Encodings) (correct : H.Correct)
    (ideal : H.IdealAuthPsk) (distinct : Distinct conns) (h : Insider.Reachable knows conns s)
    (i : ι) (safe : Safe knows (conns i)) (fresh : FreshNonces conns i s.trace) :
    (takenBy i s.trace).Nodup ∧ ∀ wire, wire ∈ takenBy i s.trace ↔
      ∃ before now result reply after timestamp body,
        s.trace = before ++ .handled i now wire result reply :: after ∧
          .sealed i timestamp body wire ∈ before ∧ Near now timestamp := by
  have inv := Insider.reachable_inv encodings ideal distinct h
  constructor
  · refine nodup_filterMap_of_each fun before event after htrace wire htaken => ?_
    change wire ∉ takenBy i before
    rw [mem_takenBy]
    obtain ⟨now, body, reply, rfl⟩ := eq_handled_of_takenBy htaken
    obtain ⟨_, _, _, huntaken⟩ := (inv.ok_iff encodings correct safe fresh htrace body).mp rfl
    exact huntaken
  · intro wire
    rw [mem_takenBy]
    constructor
    · rintro ⟨now, body, reply, hmem⟩
      obtain ⟨before, after, htrace⟩ := List.append_of_mem hmem
      obtain ⟨timestamp, hsealed, hnear, _⟩ :=
        (inv.ok_iff encodings correct safe fresh htrace body).mp rfl
      exact ⟨before, now, .ok body, reply, after, timestamp, body, htrace, hsealed, hnear⟩
    · rintro ⟨before, now, result, reply, after, timestamp, body, htrace, hsealed, hnear⟩
      by_cases htaken : Taken i before wire
      · obtain ⟨now', body', reply', hmem⟩ := htaken
        exact ⟨now', body', reply', htrace ▸ List.mem_append_left _ hmem⟩
      · obtain rfl := (inv.ok_iff encodings correct safe fresh htrace body).mpr
          ⟨timestamp, hsealed, hnear, htaken⟩
        exact ⟨now, body, reply, by simp [htrace]⟩

/-- Of two deliveries of one request, one accepted it. -/
theorem exactly_once_delivered : Demo.request 9 300 [5] ∈ takenBy false Demo.delivered.trace :=
  ((exactly_once Transparent.encodings Transparent.correct Transparent.idealAuthPsk
      Demo.connections_distinct Demo.delivered_insider false (Demo.reader_safe false)
      Demo.delivered_fresh).2 _).mpr
    ⟨Demo.deliveredTrace.take 1, 10, _, _, Demo.deliveredTrace.drop 2, 300, [5],
      Demo.delivered_trace, List.mem_singleton_self _, by decide, by decide⟩

/-- What the client of a safe connection is told was accepted, its wallet accepted. -/
theorem Insider.Inv.accepted_of_received [DecidableEq ι] (inv : Insider.Inv knows conns s)
    {before after : List (Event ι)} {i : ι} {request reply answer : Bytes}
    (safe : Safe knows (conns i))
    (htrace : s.trace =
      before ++ .received i request (.success reply) (.ok (.accepted answer)) :: after) :
    ∃ now wire body timestamp, .handled i now wire (.ok body) (.ok reply) ∈ before ∧
      answer = Wallet.ack body ∧ .sealed i timestamp body wire ∈ before ∧
      Near now timestamp := by
  obtain ⟨now, wire, result, hmem, houtcome⟩ := inv.sent before _ after htrace safe
  cases result with
  | error e => cases houtcome
  | ok body =>
    obtain ⟨before', after', rfl⟩ := List.append_of_mem hmem
    have htrace' : s.trace = before' ++ .handled i now wire (.ok body) (.ok reply) ::
        (after' ++ .received i request (.success reply) (.ok (.accepted answer)) :: after) := by
      simpa using htrace
    obtain ⟨seen, hstep⟩ := inv.exists_step htrace'
    obtain ⟨nonce, timestamp, hread, hnear, _⟩ := Guard.step_eq_ok_iff.mp hstep
    have hsealed := inv.sent before' _ _ htrace' safe nonce timestamp body
      (Wallet.read_eq_ok_iff.mp hread)
    exact ⟨now, wire, body, timestamp, hmem, Outcome.accepted.inj houtcome,
      List.mem_append_left _ hsealed, Wallet.guard_fresh.mp hnear⟩

/-- **An acknowledgement tells of a request of one's own.** When the client of a safe
connection reports a request as accepted, its wallet did accept one that this client had
sealed, for a time near the wallet's reading, and acknowledged its body. -/
theorem acknowledged_was_accepted [DecidableEq ι] (encodings : H.Encodings)
    (ideal : H.IdealAuthPsk) (distinct : Distinct conns) (h : Insider.Reachable knows conns s) :
    ∀ before after i request reply answer, Safe knows (conns i) →
      s.trace = before ++ .received i request (.success reply) (.ok (.accepted answer)) :: after →
        ∃ now wire body timestamp, .handled i now wire (.ok body) (.ok reply) ∈ before ∧
          answer = Wallet.ack body ∧ .sealed i timestamp body wire ∈ before ∧
          Near now timestamp := by
  intro before after i request reply answer safe htrace
  exact (Insider.reachable_inv encodings ideal distinct h).accepted_of_received safe htrace

set_option maxRecDepth 10000 in
theorem Demo.crossed_insider : Insider.Reachable reader connections crossed := by
  refine .next (.next (.next (.next .start
    (.seals _ _ (Transparent.key 3) (nonce 9) _ _ _ rfl))
    (.seals _ _ (Transparent.key 3) (nonce 8) _ _ _ rfl)) (.delivers _ _ _ _ _ ?_ (by decide)))
    (.answers _ _ _ _ _ ?_)
  · exact Or.inl (Or.inl ⟨_, _, _, List.mem_cons_self⟩)
  · rintro _ ⟨⟩
    refine Or.inl (Or.inr ⟨false, 300, request 9 300 [5], .ok [5], ?_⟩)
    exact List.mem_cons_of_mem _ (List.mem_cons_of_mem _ List.mem_cons_self)

/-- An acknowledgement that was returned for another request of the same client. -/
theorem acknowledged_was_accepted_crossed :
    ∃ now wire body timestamp,
      .handled false now wire (.ok body) (.ok Demo.ackReply) ∈ Demo.crossedTrace.take 3 ∧
        Bytes.ofString "ack: \x05" = Wallet.ack body ∧
        .sealed false timestamp body wire ∈ Demo.crossedTrace.take 3 ∧ Near now timestamp :=
  acknowledged_was_accepted Transparent.encodings Transparent.idealAuthPsk
    Demo.connections_distinct Demo.crossed_insider (Demo.crossedTrace.take 3) [] false
    (Demo.request 8 300 [6]) Demo.ackReply _ (Demo.reader_safe false) Demo.crossed_trace

end HpkeDemo.Bwc
