import Mathlib.Data.Set.Card
import HpkeDemo.Bwc.Mailbox

/-! What the replay cache of a safe connection's wallet can hold, whatever the attacker sends:
the requests of its own client that it took in during the last ten minutes. -/
namespace HpkeDemo.Bwc
open Channel Connect Replay History

variable {H : Hpke} {ι : Type}

/-- A set is no larger than a list that has an element for each of its own. -/
theorem encard_le_length {α β : Type} {S : Set α} {l : List β} {R : α → β → Prop}
    (has : ∀ x ∈ S, ∃ y ∈ l, R x y) (inj : ∀ x x' y, R x y → R x' y → x = x') :
    S.encard ≤ l.length := by
  classical
  obtain rfl | ⟨x, hx⟩ := S.eq_empty_or_nonempty
  · rw [Set.encard_empty]
    exact zero_le
  obtain ⟨y, _⟩ := has x hx
  have : Nonempty β := ⟨y⟩
  choose! f hf using has
  calc S.encard
    _ ≤ (l.toFinset : Set β).encard :=
      Set.encard_le_encard_of_injOn (fun x hx => List.mem_toFinset.mpr (hf x hx).1)
        fun x hx x' hx' heq => inj x x' (f x) (hf x hx).2 (heq ▸ (hf x' hx').2)
    _ = l.toFinset.card := Set.encard_coe_eq_coe_finsetCard _
    _ ≤ l.length := Nat.cast_le.mpr l.toFinset_card_le

/-- The nonces in a cache. -/
def remembered (seen : Seen) : Set Nonce := {nonce | ∃ a, seen nonce = some a}

/-- Client `i` sealed a request for a time from fifteen minutes before `now` to five after. -/
def Event.recent [DecidableEq ι] (i : ι) (now : UInt64) : Event ι → Bool
  | .sealed j timestamp _ _ =>
    decide (j = i ∧ now.toNat ≤ timestamp.toNat + 900 ∧ timestamp.toNat ≤ now.toNat + 300)
  | _ => false

variable {knows : Knowledge H} {conns : ι → Connection H} {s t : Network ι}

/-- No wallet remembers a nonce for more than ten minutes. -/
def Trimmed (s : Network ι) : Prop :=
  ∀ i nonce a, s.seen i nonce = some a → (s.clock i).toNat ≤ a.toNat + 600

section
variable [DecidableEq ι]

theorem Insider.step_trimmed (trimmed : Trimmed s) (h : Insider.Step knows conns s t) :
    Trimmed t := by
  cases h with
  | seals => exact trimmed
  | answers => exact trimmed
  | delivers i rng now wire hwire hnow =>
    intro j nonce a hseen
    by_cases hij : i = j
    · subst hij
      rw [deliver_clock]
      rw [deliver_seen] at hseen
      obtain ⟨_, ha⟩ | ⟨_, _, hkeeps⟩ := Guard.step_seen_iff.mp hseen
      · have hnow : now = a := ha
        rw [hnow]
        omega
      · exact Wallet.guard_keeps.mp hkeeps
    · simp only [Network.deliver, Function.update_of_ne (Ne.symm hij)] at hseen ⊢
      exact trimmed j nonce a hseen

theorem Insider.reachable_trimmed (h : Insider.Reachable knows conns s) : Trimmed s := by
  induction h with
  | start =>
    intro i nonce a hseen
    cases hseen
  | next _ step trimmed => exact Insider.step_trimmed trimmed step

variable {i : ι} {now : UInt64} {wire body : Bytes} {reply : Except Panic Bytes} {nonce : Nonce}
  {a : UInt64}

theorem Insider.Inv.opens_of_ok (inv : Insider.Inv knows conns s)
    (h : .handled i now wire (.ok body) reply ∈ s.trace) :
    ∃ nonce timestamp, (conns i).wallet.Opens wire nonce timestamp body ∧ Near now timestamp := by
  obtain ⟨before, after, htrace⟩ := List.append_of_mem h
  obtain ⟨seen, hstep⟩ := inv.exists_step htrace
  obtain ⟨nonce, timestamp, hread, hfresh, _⟩ := Guard.step_eq_ok_iff.mp hstep
  exact ⟨nonce, timestamp, Wallet.read_eq_ok_iff.mp hread, Wallet.guard_fresh.mp hfresh⟩

theorem Insider.Inv.seen_iff_kept (inv : Insider.Inv knows conns s) :
    s.seen i nonce = some a ↔ (conns i).wallet.guard.Kept (callsTo i s.trace) nonce a := by
  have hsession := inv.session i
  rw [Wallet.session_eq_run] at hsession
  have hseen : (Machine.run (conns i).wallet.guard.step (fun _ => none)
      ((callsTo i s.trace).map Prod.fst)).1 = s.seen i := congrArg Prod.fst hsession
  rw [← hseen, Guard.seen_eq_some_iff_kept, hsession]

/-- The cache of any wallet holds what it took in during the last ten minutes. -/
theorem Insider.Inv.seen_iff (inv : Insider.Inv knows conns s) (trimmed : Trimmed s) :
    s.seen i nonce = some a ↔ ∃ wire timestamp body,
      (conns i).wallet.Opens wire nonce timestamp body ∧
      (∃ reply, .handled i a wire (.ok body) reply ∈ s.trace) ∧
      (s.clock i).toNat ≤ a.toNat + 600 := by
  constructor
  · intro hseen
    have hclock := trimmed i nonce a hseen
    obtain ⟨before, ⟨⟨a', wire⟩, result⟩, after, hcalls, ⟨⟨⟨_, _, hread⟩, body, hok⟩, ha⟩, _⟩ :=
      inv.seen_iff_kept.mp hseen
    obtain rfl : a' = a := ha
    obtain rfl : result = .ok body := hok
    have hmem : ((a', wire), .ok body) ∈ callsTo i s.trace := by simp [hcalls]
    obtain ⟨reply, hhandled⟩ := mem_callsTo.mp hmem
    obtain ⟨nonce', timestamp', hopens, _⟩ := inv.opens_of_ok hhandled
    obtain ⟨rfl, _, _⟩ := Wallet.opens_unique (Wallet.read_eq_ok_iff.mp hread) hopens
    exact ⟨wire, timestamp', body, hopens, ⟨reply, hhandled⟩, hclock⟩
  · rintro ⟨wire, timestamp, body, hopens, ⟨reply, hhandled⟩, hclock⟩
    obtain ⟨before, after, hcalls⟩ := List.append_of_mem (mem_callsTo.mpr ⟨reply, hhandled⟩)
    refine inv.seen_iff_kept.mpr ⟨before, _, after, hcalls,
      ⟨⟨⟨timestamp, body, Wallet.read_eq_ok_iff.mpr hopens⟩, body, rfl⟩, rfl⟩, fun y hy => ?_⟩
    have hlast : y.1.1 ≤ s.clock i := inv.last i y (by simp [hcalls, hy])
    rw [UInt64.le_iff_toNat_le] at hlast
    apply Wallet.guard_keeps.mpr
    show y.1.1.toNat ≤ a.toNat + 600
    omega

/-- What the wallet of a safe connection took in, its client had sealed. -/
theorem Insider.Inv.sealed_of_handled (inv : Insider.Inv knows conns s)
    (safe : Safe knows (conns i)) {timestamp : UInt64}
    (hopens : (conns i).wallet.Opens wire nonce timestamp body)
    (h : .handled i now wire (.ok body) reply ∈ s.trace) :
    .sealed i timestamp body wire ∈ s.trace := by
  obtain ⟨before, after, htrace⟩ := List.append_of_mem h
  rw [htrace]
  exact List.mem_append_left _ (inv.sent before _ after htrace safe nonce timestamp body hopens)

/-- **The cache holds the client's own requests.** Whatever the attacker sends, the cache of a
safe connection's wallet holds just the nonces of requests that its client sealed and that it took
in during the last ten minutes, so never more than the client sealed around that time. -/
theorem cache_holds_own_requests (encodings : H.Encodings) (ideal : H.IdealAuthPsk)
    (distinct : Distinct conns) (h : Insider.Reachable knows conns s) (i : ι)
    (safe : Safe knows (conns i)) :
    (∀ nonce a, s.seen i nonce = some a ↔ ∃ wire timestamp body,
      .sealed i timestamp body wire ∈ s.trace ∧
      (conns i).wallet.Opens wire nonce timestamp body ∧
      (∃ reply, .handled i a wire (.ok body) reply ∈ s.trace) ∧
      (s.clock i).toNat ≤ a.toNat + 600) ∧
    (remembered (s.seen i)).encard ≤ (s.trace.filter (Event.recent i (s.clock i))).length := by
  have inv := Insider.reachable_inv encodings ideal distinct h
  have trimmed := Insider.reachable_trimmed h
  constructor
  · intro nonce a
    rw [inv.seen_iff trimmed]
    constructor
    · rintro ⟨wire, timestamp, body, hopens, ⟨reply, hhandled⟩, hclock⟩
      exact ⟨wire, timestamp, body, inv.sealed_of_handled safe hopens hhandled, hopens,
        ⟨reply, hhandled⟩, hclock⟩
    · rintro ⟨wire, timestamp, body, _, hrest⟩
      exact ⟨wire, timestamp, body, hrest⟩
  · apply encard_le_length (R := fun nonce event => ∃ wire timestamp body,
      event = .sealed i timestamp body wire ∧ (conns i).wallet.Opens wire nonce timestamp body)
    · rintro nonce ⟨a, hseen⟩
      obtain ⟨wire, timestamp, body, hopens, ⟨reply, hhandled⟩, hclock⟩ :=
        (inv.seen_iff trimmed).mp hseen
      obtain ⟨nonce', timestamp', hopens', hnear⟩ := inv.opens_of_ok hhandled
      obtain ⟨_, rfl, _⟩ := Wallet.opens_unique hopens hopens'
      have hlast : a ≤ s.clock i := inv.last i _ (mem_callsTo.mpr ⟨reply, hhandled⟩)
      rw [UInt64.le_iff_toNat_le] at hlast
      obtain ⟨hbefore, hafter⟩ := hnear
      refine ⟨.sealed i timestamp body wire, List.mem_filter.mpr
        ⟨inv.sealed_of_handled safe hopens hhandled, ?_⟩, wire, timestamp, body, rfl, hopens⟩
      simp only [Event.recent, true_and, decide_eq_true_eq]
      omega
    · rintro nonce nonce' event ⟨wire, timestamp, body, rfl, hopens⟩
        ⟨wire', timestamp', body', heq, hopens'⟩
      cases heq
      exact (Wallet.opens_unique hopens hopens').1

end

/-- One request, delivered twice to its wallet and once to another. -/
theorem cache_holds_own_requests_delivered :
    (remembered (Demo.delivered.seen false)).encard ≤ 1 := by
  have hrecent : (Demo.delivered.trace.filter
      (Event.recent false (Demo.delivered.clock false))).length = 1 := by
    rw [Demo.delivered_trace]
    rfl
  have hbound := (cache_holds_own_requests Transparent.encodings Transparent.idealAuthPsk
    Demo.connections_distinct Demo.delivered_insider false (Demo.reader_safe false)).2
  rwa [hrecent, Nat.cast_one] at hbound

end HpkeDemo.Bwc
