import HpkeDemo.Bwc.ReplayCache
import HpkeDemo.Replay.Restart

/-! A wallet that is restarted. Its replay cache is in memory, so that each session starts
from the empty one of `Wallet::new`. -/
namespace HpkeDemo.Bwc
open Channel Connect Replay History

variable {H : Hpke} {wallet : Wallet H} {sessions : List (List (UInt64 × Bytes))}

/-- What the wallet answers from one restart to the next. -/
def Wallet.restarted (wallet : Wallet H) (sessions : List (List (UInt64 × Bytes))) :
    List ((UInt64 × Bytes) × Except String Bytes) :=
  sessions.flatMap fun calls => (wallet.session calls).2

theorem restarted_eq_guard (wallet : Wallet H) (sessions : List (List (UInt64 × Bytes))) :
    wallet.restarted sessions = wallet.guard.restarted sessions := by
  simp only [Wallet.restarted, Guard.restarted, Wallet.session_eq_run]

/-- **A restart that waits is not noticed.** If the first reading after each restart is more
than ten minutes past every reading before it, all calls are answered as by a wallet that
was never restarted. -/
theorem restart_unnoticed (wallet : Wallet H) (sessions : List (List (UInt64 × Bytes)))
    (waits : ∀ before calls after, sessions = before ++ calls :: after →
      ∀ first ∈ calls.head?, ∀ earlier ∈ before.flatten,
        earlier.1.toNat + 600 < first.1.toNat) :
    wallet.restarted sessions = (wallet.session sessions.flatten).2 := by
  have hwaits : wallet.guard.Waits sessions := by
    intro before calls after hsessions first hfirst earlier hearlier
    exact Wallet.guard_lets_go.mpr (waits before calls after hsessions first hfirst earlier
      hearlier)
  rw [restarted_eq_guard, Guard.restarted_of_waits hwaits, Wallet.session_eq_run]

/-- Two deliveries of one request, and a restart before the next request. -/
def Demo.waited : List (List (UInt64 × Bytes)) :=
  [[(0, request 9 0 [5]), (300, request 9 0 [5])], [(901, request 8 901 [6])]]

theorem Demo.waited_waits : ∀ before calls after, waited = before ++ calls :: after →
    ∀ first ∈ calls.head?, ∀ earlier ∈ before.flatten,
      earlier.1.toNat + 600 < first.1.toNat := by
  have first : Each (fun before calls => ∀ first ∈ calls.head?, ∀ earlier ∈ before.flatten,
      earlier.1.toNat + 600 < first.1.toNat)
      ([] ++ [[(0, request 9 0 [5]), (300, request 9 0 [5])]] : List (List (UInt64 × Bytes))) :=
    each_concat.mpr ⟨each_nil, by simp⟩
  refine each_concat.mpr ⟨first, ?_⟩
  rintro _ ⟨⟩ earlier hearlier
  obtain rfl | rfl : earlier = (0, request 9 0 [5]) ∨ earlier = (300, request 9 0 [5]) := by
    simpa using hearlier
  · decide
  · decide

theorem restart_unnoticed_waited : Demo.connection.wallet.restarted Demo.waited =
    (Demo.connection.wallet.session Demo.waited.flatten).2 :=
  restart_unnoticed Demo.connection.wallet Demo.waited Demo.waited_waits

/-- The call brings `wire`, in the window of a request for `timestamp`. -/
def timely (wire : Bytes) (timestamp : UInt64) (call : UInt64 × Bytes) : Bool :=
  call.2 = wire ∧ absDiff call.1 timestamp ≤ MAX_CLOCK_SKEW_SECS

/-- The call brought `wire` and was accepted. -/
def accepts (wire : Bytes) (x : (UInt64 × Bytes) × Except String Bytes) : Bool :=
  x.1.2 = wire ∧ x.2.isOk

section
variable {wire body : Bytes} {nonce : Nonce} {timestamp : UInt64} {calls : List (UInt64 × Bytes)}

theorem timely_iff {call : UInt64 × Bytes} :
    timely wire timestamp call = true ↔ call.2 = wire ∧ Near call.1 timestamp := by
  simp [timely, absDiff_le_iff]

theorem accepts_iff {x : (UInt64 × Bytes) × Except String Bytes} :
    accepts wire x = true ↔ x.1.2 = wire ∧ ∃ body, x.2 = .ok body := by
  cases h : x.2 <;> simp [accepts, h, Except.isOk, Except.toBool]

/-- A call offers the nonce exactly if it is a timely delivery of its one wire. -/
theorem offers_iff_timely (hopens : wallet.Opens wire nonce timestamp body)
    {call : UInt64 × Bytes} (alone : ∀ timestamp body,
      wallet.Opens call.2 nonce timestamp body → call.2 = wire) :
    wallet.guard.Offers call nonce ↔ timely wire timestamp call = true := by
  rw [timely_iff]
  constructor
  · rintro ⟨timestamp', body', hread, hfresh⟩
    have hopens' := Wallet.read_eq_ok_iff.mp hread
    have hwire := alone timestamp' body' hopens'
    rw [hwire] at hopens'
    obtain ⟨_, rfl, _⟩ := Wallet.opens_unique hopens hopens'
    exact ⟨hwire, Wallet.guard_fresh.mp hfresh⟩
  · rintro ⟨rfl, hnear⟩
    exact ⟨timestamp, body, Wallet.read_eq_ok_iff.mpr hopens, Wallet.guard_fresh.mpr hnear⟩

theorem admits_iff_accepts (hopens : wallet.Opens wire nonce timestamp body)
    {x : (UInt64 × Bytes) × Except String Bytes} (alone : ∀ timestamp body,
      wallet.Opens x.1.2 nonce timestamp body → x.1.2 = wire) :
    wallet.guard.Admits x nonce ↔ accepts wire x = true := by
  rw [accepts_iff]
  constructor
  · rintro ⟨⟨timestamp', body', hread⟩, hok⟩
    exact ⟨alone timestamp' body' (Wallet.read_eq_ok_iff.mp hread), hok⟩
  · rintro ⟨hwire, hok⟩
    refine ⟨⟨timestamp, body, ?_⟩, hok⟩
    rw [hwire]
    exact Wallet.read_eq_ok_iff.mpr hopens

/-- In one session, a request is accepted once if it is delivered in its window, else never. -/
theorem countP_session (hopens : wallet.Opens wire nonce timestamp body)
    (mono : calls.Pairwise fun x y => x.1 ≤ y.1)
    (alone : ∀ call ∈ calls, ∀ timestamp body,
      wallet.Opens call.2 nonce timestamp body → call.2 = wire) :
    (wallet.session calls).2.countP (accepts wire) =
      if calls.any (timely wire timestamp) then 1 else 0 := by
  have hinputs := Machine.run_inputs wallet.guard.step (fun _ => none) calls
  rw [Wallet.session_eq_run]
  have hany : calls.any (timely wire timestamp) =
      (Machine.run wallet.guard.step (fun _ => none) calls).2.any
        fun x => timely wire timestamp x.1 := by
    rw [← hinputs, List.any_map, hinputs]
    rfl
  rw [hany]
  refine countP_of_first fun before x after hlog => ?_
  rw [hlog] at hinputs
  have entry {y : (UInt64 × Bytes) × Except String Bytes} (hy : y ∈ before ++ x :: after) :=
    alone y.1 (hinputs ▸ List.mem_map_of_mem hy)
  have earlier {y : (UInt64 × Bytes) × Except String Bytes} (hy : y ∈ before) :=
    entry (List.mem_append_left _ hy)
  have own := entry (List.mem_append_right before List.mem_cons_self)
  have hmono : ∀ y ∈ before, y.1.1 ≤ x.1.1 := by
    rw [← hinputs, List.map_append, List.map_cons] at mono
    intro y hy
    exact (List.pairwise_append.mp mono).2.2 y.1 (List.mem_map_of_mem hy) x.1
      List.mem_cons_self
  have one : ∀ y ∈ before, wallet.guard.Admits y nonce → ∀ s b s' b',
      wallet.guard.read y.1.2 = .ok (nonce, s, b) →
      wallet.guard.read x.1.2 = .ok (nonce, s', b') → s = s' := by
    intro y hy _ s b s' b' hread hread'
    rw [earlier hy s b (Wallet.read_eq_ok_iff.mp hread)] at hread
    rw [own s' b' (Wallet.read_eq_ok_iff.mp hread')] at hread'
    exact (Wallet.opens_unique (Wallet.read_eq_ok_iff.mp hread)
      (Wallet.read_eq_ok_iff.mp hread')).2.1
  rw [← admits_iff_accepts hopens own, ← offers_iff_timely hopens own,
    Guard.admits_iff_unadmitted wallet.guard_lawful hlog hmono one]
  refine and_congr_right fun _ => forall₂_congr fun y hy => ?_
  rw [admits_iff_accepts hopens (earlier hy), Bool.not_eq_true]

end

/-- **Accepted once a session.** Over any number of restarts, a request is accepted exactly
as many times as there are sessions that have it delivered within its window; if readings do
not go back within a session, and no other message carries its nonce. -/
theorem accepted_once_a_session {wire body : Bytes} {nonce : Nonce} {timestamp : UInt64}
    (hopens : wallet.Opens wire nonce timestamp body)
    (mono : ∀ calls ∈ sessions, calls.Pairwise fun x y => x.1 ≤ y.1)
    (alone : ∀ calls ∈ sessions, ∀ call ∈ calls, ∀ timestamp body,
      wallet.Opens call.2 nonce timestamp body → call.2 = wire) :
    (wallet.restarted sessions).countP (accepts wire) =
      sessions.countP fun calls => calls.any (timely wire timestamp) := by
  induction sessions with
  | nil => rfl
  | cons calls sessions ih =>
    obtain ⟨hmono, mono⟩ := List.forall_mem_cons.mp mono
    obtain ⟨halone, alone⟩ := List.forall_mem_cons.mp alone
    rw [Wallet.restarted, List.flatMap_cons, List.countP_append, ← Wallet.restarted,
      countP_session hopens hmono halone, ih mono alone, List.countP_cons, Nat.add_comm]

/-- Delivered three times in its window, with a restart before the last time. -/
def Demo.hasty : List (List (UInt64 × Bytes)) :=
  [[(0, request 9 300 [5]), (300, request 9 300 [5])], [(600, request 9 300 [5])]]

theorem Demo.hasty_wire : ∀ calls ∈ hasty, ∀ call ∈ calls, call.2 = request 9 300 [5] := by
  simp only [hasty, List.forall_mem_cons, List.not_mem_nil, false_implies, implies_true, and_self]

theorem Demo.hasty_mono : ∀ calls ∈ hasty, calls.Pairwise fun x y => x.1 ≤ y.1 := by
  simp [hasty]

theorem Demo.hasty_timely :
    hasty.countP (fun calls => calls.any (timely (request 9 300 [5]) 300)) = 2 := by
  have first : timely (request 9 300 [5]) 300 (0, request 9 300 [5]) = true :=
    timely_iff.mpr ⟨rfl, by decide, by decide⟩
  have last : timely (request 9 300 [5]) 300 (600, request 9 300 [5]) = true :=
    timely_iff.mpr ⟨rfl, by decide, by decide⟩
  simp [hasty, first, last]

/-- Once before the restart and once after it. -/
theorem accepted_once_a_session_hasty :
    (Demo.connection.wallet.restarted Demo.hasty).countP (accepts (Demo.request 9 300 [5])) =
      2 := by
  have hseal : Demo.connection.client.seal (Transparent.key 3) (Demo.nonce 9) 300 [5] =
      .ok (Demo.request 9 300 [5]) := by rfl
  have hopens := Demo.connection.opens_of_seal Transparent.encodings Transparent.correct hseal
  rw [← Demo.hasty_timely]
  exact accepted_once_a_session hopens Demo.hasty_mono
    fun calls hcalls call hcall _ _ _ => Demo.hasty_wire calls hcalls call hcall

end HpkeDemo.Bwc
