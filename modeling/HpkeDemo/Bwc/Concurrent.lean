import HpkeDemo.Bwc.ReplayCache
import HpkeDemo.Replay.Order

/-! Concurrent requests on one wallet. A `handle` call reads the clock before it takes
the lock on the cache, so critical sections need not run in the order of their
readings. -/
namespace HpkeDemo.Bwc
open Channel Connect Replay History

variable {H : Hpke}

/-- `waiting` are the calls that have read the clock and not yet taken the lock. -/
structure Server where
  clock : UInt64
  waiting : List (UInt64 × Bytes)
  seen : Seen
  log : List ((UInt64 × Bytes) × Except String Bytes)

inductive Action where
  | tick (now : UInt64)
  | call (wire : Bytes)
  | lock (i : Nat)

namespace Server

def start (clock : UInt64) : Server :=
  { clock, waiting := [], seen := fun _ => none, log := [] }

def step (wallet : Wallet H) (s : Server) : Action → Option Server
  | .tick now => if s.clock ≤ now then some { s with clock := now } else none
  | .call wire => some { s with waiting := s.waiting ++ [(s.clock, wire)] }
  | .lock i => s.waiting[i]?.map fun call =>
    let (seen, result) := wallet.handle call.1 call.2 s.seen
    { s with waiting := s.waiting.eraseIdx i, seen, log := s.log ++ [(call, result)] }

/-- The server after a schedule, if the clock never goes back in it. -/
def schedule (wallet : Wallet H) (clock : UInt64) (actions : List Action) : Option Server :=
  actions.foldlM (step wallet) (start clock)

end Server

/-- No two calls of the log accepted one wire. -/
def NoReplay (log : List ((UInt64 × Bytes) × Except String Bytes)) : Prop :=
  log.Pairwise fun x y => (∃ body, x.2 = .ok body) → (∃ body, y.2 = .ok body) → x.1.2 ≠ y.1.2

/-- The wire of `call` opens to a request that carries `nonce` and is fresh at the
reading of the call. -/
def Offers (wallet : Wallet H) (call : UInt64 × Bytes) (nonce : Nonce) : Prop :=
  ∃ timestamp body, wallet.Opens call.2 nonce timestamp body ∧ Near call.1 timestamp

/-- `first` is the first of `calls` that offers `nonce`, and `since` are those after it. -/
def FirstOffer (wallet : Wallet H) (nonce : Nonce) (calls : List (UInt64 × Bytes))
    (first : UInt64 × Bytes) (since : List (UInt64 × Bytes)) : Prop :=
  ∃ earlier, calls = earlier ++ first :: since ∧ Offers wallet first nonce ∧
    ∀ call ∈ earlier, ¬ Offers wallet call nonce

/-- `call` offers a nonce although, since the first call that offered it, a critical
section ran with a reading more than 600 s past the reading of that first call. -/
def Overtaken (wallet : Wallet H) (before : List (UInt64 × Bytes)) (call : UInt64 × Bytes) : Prop :=
  ∃ nonce first since, Offers wallet call nonce ∧ FirstOffer wallet nonce before first since ∧
    ∃ passing ∈ since, first.1.toNat + 600 < passing.1.toNat

/-- No call is overtaken, the calls taken in the order of their critical sections. -/
def Orderly (wallet : Wallet H) (calls : List (UInt64 × Bytes)) : Prop :=
  Each (fun before call => ¬ Overtaken wallet before call) calls

/-- The calls that offer one nonce have one wire. -/
def OneWirePerNonce (wallet : Wallet H) (calls : List (UInt64 × Bytes)) : Prop :=
  ∀ x ∈ calls, ∀ y ∈ calls, ∀ nonce, Offers wallet x nonce → Offers wallet y nonce → x.2 = y.2

variable {wallet : Wallet H} {clock : UInt64} {s : Server}

/-- The log of a server is the log of the session of its calls, in lock order. -/
theorem Server.step_session {t : Server} {action : Action} (h : s.step wallet action = some t)
    (hs : wallet.session (s.log.map Prod.fst) = (s.seen, s.log)) :
    wallet.session (t.log.map Prod.fst) = (t.seen, t.log) := by
  cases action with
  | tick now =>
    simp only [Server.step, Option.ite_none_right_eq_some, Option.some.injEq] at h
    obtain ⟨_, rfl⟩ := h
    exact hs
  | call wire =>
    simp only [Server.step, Option.some.injEq] at h
    obtain rfl := h
    exact hs
  | lock i =>
    simp only [Server.step, Option.map_eq_some_iff] at h
    obtain ⟨call, _, rfl⟩ := h
    simp only [List.map_append, List.map_cons, List.map_nil]
    rw [Wallet.session] at hs ⊢
    rw [Machine.run_concat, hs]

theorem Server.foldlM_session {actions : List Action} {s₀ : Server}
    (hs : wallet.session (s₀.log.map Prod.fst) = (s₀.seen, s₀.log))
    (h : actions.foldlM (step wallet) s₀ = some s) :
    wallet.session (s.log.map Prod.fst) = (s.seen, s.log) := by
  induction actions generalizing s₀ with
  | nil =>
    obtain rfl := Option.some.inj h
    exact hs
  | cons action actions ih =>
    rw [List.foldlM_cons, Option.bind_eq_bind, Option.bind_eq_some_iff] at h
    obtain ⟨s₁, hstep, h⟩ := h
    exact ih (step_session hstep hs) h

/-- The log is that of the guard's run over the calls, taken in lock order. -/
theorem Server.schedule_log {actions : List Action}
    (h : Server.schedule wallet clock actions = some s) :
    (Machine.run wallet.guard.step (fun _ => none) (s.log.map Prod.fst)).2 = s.log := by
  have hs : wallet.session ((start clock).log.map Prod.fst) =
      ((start clock).seen, (start clock).log) := rfl
  rw [← wallet.session_eq_run, foldlM_session hs h]

theorem offers_iff {call : UInt64 × Bytes} {nonce : Nonce} :
    wallet.guard.Offers call nonce ↔ Offers wallet call nonce := by
  simp only [Guard.Offers, Offers, Wallet.guard_read, Wallet.read_eq_ok_iff, Wallet.guard_fresh]

theorem overtaken_iff {before : List (UInt64 × Bytes)} {call : UInt64 × Bytes} :
    wallet.guard.Overtaken before call ↔ Overtaken wallet before call := by
  simp only [Guard.Overtaken, Overtaken, Guard.FirstOffer, FirstOffer, offers_iff,
    Wallet.guard_lets_go]

theorem noReplay_of_orderly {actions : List Action}
    (h : Server.schedule wallet clock actions = some s)
    (orderly : Orderly wallet (s.log.map Prod.fst)) : NoReplay s.log := by
  have hrun := Server.schedule_log h
  apply pairwise_of_splits
  intro before x mid y after hlog hx hy same
  obtain ⟨body, hbody⟩ := hx
  have hlog' := hrun.trans hlog
  obtain ⟨nonce, hread, hok⟩ := Guard.exists_admits hlog' hbody
  have hovertaken := Guard.overtaken_of_repeated wallet.guard_lawful hlog' ⟨hread, hok⟩
    ⟨same ▸ hread, hy⟩ same
  apply orderly ((before ++ x :: mid).map Prod.fst) y.1 (after.map Prod.fst)
  · simp [hlog]
  · exact overtaken_iff.mp hovertaken

theorem orderly_of_noReplay {actions : List Action}
    (h : Server.schedule wallet clock actions = some s)
    (single : OneWirePerNonce wallet (s.log.map Prod.fst)) (noReplay : NoReplay s.log) :
    Orderly wallet (s.log.map Prod.fst) := by
  have hrun := Server.schedule_log h
  intro before call after hcalls overtaken
  obtain ⟨before, rest, hlog, rfl, hrest⟩ := List.map_eq_append_iff.mp hcalls
  obtain ⟨y, after, rfl, rfl, rfl⟩ := List.map_eq_cons_iff.mp hrest
  obtain ⟨nonce, l₁, u, l₂, v, l₃, hsplit, hu, hv⟩ :=
    Guard.repeated_of_overtaken (hrun.trans hlog) (overtaken_iff.mpr overtaken)
  have offers_u := ((Guard.admits_iff_not_kept hsplit).mp hu).1
  have offers_v : wallet.guard.Offers v.1 nonce := by
    rw [← List.cons_append, ← List.append_assoc] at hsplit
    exact ((Guard.admits_iff_not_kept hsplit).mp hv).1
  rw [hrun] at hsplit
  have same : u.1.2 = v.1.2 := by
    apply single u.1 _ v.1 _ nonce (offers_iff.mp offers_u) (offers_iff.mp offers_v)
    · exact List.mem_map_of_mem (by simp [hsplit])
    · exact List.mem_map_of_mem (by simp [hsplit])
  rw [NoReplay, hsplit] at noReplay
  obtain ⟨_, htail, _⟩ := List.pairwise_append.mp noReplay
  exact (List.pairwise_cons.mp htail).1 v (by simp) hu.2 hv.2 same

/-- **No replay unless a call is overtaken.** In every schedule in which no call is overtaken,
no wire is accepted twice. The converse needs that the calls that offer one nonce have one
wire: then an overtaken call does make a wire accepted twice. -/
theorem no_replay_unless_overtaken (actions : List Action)
    (h : Server.schedule wallet clock actions = some s) :
    (Orderly wallet (s.log.map Prod.fst) → NoReplay s.log) ∧
      (OneWirePerNonce wallet (s.log.map Prod.fst) → NoReplay s.log →
        Orderly wallet (s.log.map Prod.fst)) :=
  ⟨noReplay_of_orderly h, orderly_of_noReplay h⟩

set_option maxRecDepth 10000 in
/-- Two calls in the wrong order, none overtaken. -/
theorem no_replay_unless_overtaken_two :
    ∃ s, Server.schedule Demo.connection.wallet 0 [.call (Demo.request 9 300 [5]), .tick 1,
        .call (Demo.request 9 300 [5]), .lock 1, .lock 0] = some s ∧
      s.log.map (·.2.toOption) = [some [5], none] ∧ NoReplay s.log := by
  obtain ⟨s, hs, hlog⟩ := Option.map_eq_some_iff.mp
    (show (Server.schedule Demo.connection.wallet 0 [.call (Demo.request 9 300 [5]), .tick 1,
        .call (Demo.request 9 300 [5]), .lock 1, .lock 0]).map Server.log =
      some [((1, Demo.request 9 300 [5]), .ok [5]), ((0, Demo.request 9 300 [5]),
        .error "replayed: nonce already seen this session")] from rfl)
  refine ⟨s, hs, by rw [hlog]; rfl, (no_replay_unless_overtaken _ hs).1 ?_⟩
  rintro before call after hcalls
    ⟨nonce, first, since, _, ⟨earlier, rfl, _⟩, passing, hpassing, hpast⟩
  have hmem : passing ∈ s.log.map Prod.fst := by simp [hcalls, hpassing]
  have early : ∀ call ∈ s.log.map Prod.fst, call.1.toNat ≤ 1 := by simp [hlog]
  have hle := early passing hmem
  omega

/-- The call with reading 601 runs first and forgets what the call with reading 600
still needs. -/
def overtaking : List Action :=
  [.call (Demo.request 9 300 [5]), .lock 0, .tick 600, .call (Demo.request 9 300 [5]),
   .tick 601, .call [], .lock 1, .lock 0]

set_option maxRecDepth 10000 in
theorem replayed_when_overtaken : ¬ ∀ actions s,
    Server.schedule Demo.connection.wallet 0 actions = some s → NoReplay s.log := by
  intro h
  obtain ⟨s, hs, hlog⟩ := Option.map_eq_some_iff.mp
    (show (Server.schedule Demo.connection.wallet 0 overtaking).map Server.log =
      some [((0, Demo.request 9 300 [5]), .ok [5]), ((601, []), .error "message too short"),
        ((600, Demo.request 9 300 [5]), .ok [5])] from rfl)
  have hno := h overtaking s hs
  rw [NoReplay, hlog] at hno
  exact (List.pairwise_cons.mp hno).1 ((600, Demo.request 9 300 [5]), .ok [5])
    (List.mem_cons_of_mem _ List.mem_cons_self) ⟨_, rfl⟩ ⟨_, rfl⟩ rfl

end HpkeDemo.Bwc
