import HpkeDemo.Bwc.InFlight

/-! One request of a client, delivered any number of times among other requests in flight. -/
namespace HpkeDemo.Bwc
open Channel Connect Replay

variable {H : Hpke}

/-- Within ten minutes of readings, what a wallet remembers is what it was offered. -/
theorem remembered_session_iff {wallet : Wallet H} {calls : List (UInt64 × Bytes)}
    {now : UInt64} {nonce : Nonce}
    (hcalls : ∀ x ∈ calls, ∀ y ∈ calls, y.1.toNat ≤ x.1.toNat + 600)
    (hnow : ∀ x ∈ calls, now.toNat ≤ x.1.toNat + 600) :
    Remembered (wallet.session calls).1 now nonce ↔
      ∃ call ∈ calls, wallet.guard.Offers call nonce := by
  rw [Wallet.session_eq_run]
  constructor
  · rintro ⟨seenAt, hseen, _⟩
    obtain ⟨call, hcall, _, hoffers⟩ := Guard.offered_of_seen hseen
    exact ⟨call, hcall, hoffers⟩
  · intro hoffered
    have hkeeps : ∀ x ∈ calls, ∀ y ∈ calls, wallet.guard.keeps y.1 x.1 = true :=
      fun x hx y hy => Wallet.guard_keeps.mpr (hcalls x hx y hy)
    obtain ⟨call, hcall, hseen⟩ := Guard.seen_of_offered hkeeps hoffered
    have hle := hnow call hcall
    exact ⟨call.1, hseen, by omega⟩

namespace Deployment
variable {V ι κ : Type}

/-- The call brings `wire` to wallet `i`, past the relay. -/
def Call.Delivers (call : Call H ι) (i : ι) (wire : Bytes) : Prop :=
  call.i = i ∧ call.authed = true ∧ call.sealed = wire

section
variable [DecidableEq ι] [DecidableEq κ] {site : Site H V ι} {calls : κ → Call H ι} {i : ι}
  {wire body : Bytes} {nonce : Nonce} {timestamp : UInt64} {before : List κ}

omit [DecidableEq κ] in
theorem mem_callsOf {x : UInt64 × Bytes} : x ∈ (before.map calls).filterMap (callsOf i) ↔
    ∃ j ∈ before, (calls j).i = i ∧ (calls j).authed = true ∧
      x = ((calls j).now, (calls j).sealed) := by
  simp only [List.mem_filterMap, List.mem_map, callsOf, Option.ite_none_right_eq_some,
    Option.some.injEq]
  constructor
  · rintro ⟨_, ⟨j, hj, rfl⟩, ⟨hi, hauthed⟩, rfl⟩
    exact ⟨j, hj, hi, hauthed, rfl⟩
  · rintro ⟨j, hj, hi, hauthed, rfl⟩
    exact ⟨_, ⟨j, hj, rfl⟩, ⟨hi, hauthed⟩, rfl⟩

omit [DecidableEq κ] in
/-- A nonce that is drawn once was offered exactly if its request was delivered in time. -/
theorem offered_iff_delivered (hopens : (site.conns i).wallet.Opens wire nonce timestamp body)
    (hnonce : ∀ k timestamp body, (calls k).i = i →
      (site.conns i).wallet.Opens (calls k).sealed nonce timestamp body →
        (calls k).sealed = wire) :
    (∃ call ∈ (before.map calls).filterMap (callsOf i),
        (site.conns i).wallet.guard.Offers call nonce) ↔
      ∃ j ∈ before, (calls j).Delivers i wire ∧ Near (calls j).now timestamp := by
  constructor
  · rintro ⟨_, hmem, timestamp', body', hread, hfresh⟩
    obtain ⟨j, hj, hi, hauthed, rfl⟩ := mem_callsOf.mp hmem
    have hopens' := Wallet.read_eq_ok_iff.mp hread
    have hsealed := hnonce j timestamp' body' hi hopens'
    rw [hsealed] at hopens'
    obtain ⟨_, rfl, _⟩ := Wallet.opens_unique hopens hopens'
    exact ⟨j, hj, ⟨hi, hauthed, hsealed⟩, Wallet.guard_fresh.mp hfresh⟩
  · rintro ⟨j, hj, ⟨hi, hauthed, rfl⟩, hnear⟩
    exact ⟨_, mem_callsOf.mpr ⟨j, hj, hi, hauthed, rfl⟩, timestamp, body,
      Wallet.read_eq_ok_iff.mpr hopens, Wallet.guard_fresh.mpr hnear⟩

/-- **One delivery is accepted.** However many times a request with a fresh nonce is delivered
at once, and whatever else is in flight: of its deliveries within the window the first to take
effect is acknowledged and each other is reported as replayed, and those outside the window are
reported as stale; if the wallet's readings span no more than ten minutes. -/
theorem one_delivery_wins {LowOrder : H.PublicKey → Prop} (encodings : H.Encodings)
    (correct : H.Correct) (pskRule : H.PskRule) (encapsulates : H.Encapsulates LowOrder)
    (honest : ∀ sk, ¬ LowOrder (H.skToPk sk)) (site : Site H V ι)
    (serves : ∀ i, site.Serves i) (calls : κ → Call H ι) (schedule : List κ) (i : ι)
    (rng : H.Randomness) (hseal : (site.conns i).client.seal rng nonce timestamp body = .ok wire)
    (hnonce : ∀ k timestamp body, (calls k).i = i →
      (site.conns i).wallet.Opens (calls k).sealed nonce timestamp body →
        (calls k).sealed = wire)
    (hclock : ∀ j k, (calls j).i = i → (calls k).i = i →
      (calls k).now.toNat ≤ (calls j).now.toNat + 600) :
    ∀ before k after outcome, (site.flights calls schedule).order = before ++ k :: after →
      (calls k).Delivers i wire → (site.flights calls schedule).stage k = .reported outcome →
        (¬ Near (calls k).now timestamp → outcome =
          .ok (.rejected "clock skew: timestamp outside the freshness window")) ∧
        (Near (calls k).now timestamp →
          (∀ j ∈ before, (calls j).Delivers i wire → ¬ Near (calls j).now timestamp) →
            outcome = .ok (.accepted (Wallet.ack body))) ∧
        (Near (calls k).now timestamp →
          (∃ j ∈ before, (calls j).Delivers i wire ∧ Near (calls j).now timestamp) →
            outcome = .ok (.rejected "replayed: nonce already seen this session")) := by
  intro before k after outcome horder hdelivers hstage
  obtain ⟨rfl, hauthed, rfl⟩ := hdelivers
  have inv := flights_inv site calls schedule
  have hopens := (site.conns (calls k).i).opens_of_seal encodings correct hseal
  have hcalls : ∀ x ∈ (before.map calls).filterMap (callsOf (calls k).i),
      ∀ y ∈ (before.map calls).filterMap (callsOf (calls k).i), y.1.toNat ≤ x.1.toNat + 600 := by
    intro x hx y hy
    obtain ⟨j, _, hj, _, rfl⟩ := mem_callsOf.mp hx
    obtain ⟨l, _, hl, _, rfl⟩ := mem_callsOf.mp hy
    exact hclock j l hj hl
  have hnow : ∀ x ∈ (before.map calls).filterMap (callsOf (calls k).i),
      (calls k).now.toNat ≤ x.1.toNat + 600 := by
    intro x hx
    obtain ⟨j, _, hj, _, rfl⟩ := mem_callsOf.mp hx
    exact hclock j k hj rfl
  have hremembered := (remembered_session_iff hcalls hnow).trans
    (offered_iff_delivered hopens hnonce)
  rw [inv.outcome_eq hstage horder, perform_authed encodings correct pskRule encapsulates honest
    (serves _) hauthed,
    (session_of_wallet encodings correct pskRule encapsulates honest serves _ _).1]
  refine ⟨fun hfar => ?_, fun hnear hfirst => ?_, fun hnear hearlier => ?_⟩
  · rw [stale_of_far hopens hfar]
    rfl
  · have hnew : ¬ Remembered ((site.conns (calls k).i).wallet.session
        ((before.map calls).filterMap (callsOf (calls k).i))).1 (calls k).now nonce := by
      rw [hremembered]
      rintro ⟨j, hj, hdelivers, hnear'⟩
      exact hfirst j hj hdelivers hnear'
    rw [(seen_of_accepted hopens hnear hnew).1]
    rfl
  · rw [replayed_of_remembered hopens hnear (hremembered.mpr hearlier)]
    rfl

end

namespace Demo
open Transparent (key)
open Bwc.Demo (honestConnection nonce)

/-- A request of the client behind `site`. -/
def wire : Bytes := (honestConnection.client.seal (key 3) (nonce 9) 300 [5]).toOption.getD []

/-- Two deliveries of it, with readings at the ends of its window. -/
def twice (late : Bool) : Call Clamped.hpke Unit :=
  ⟨(), wire, true, if late then 600 else 0, key 4⟩

/-- The late one overtakes the other on its way. -/
def overtake : List Bool := [false, true, true, false, true, true, false, false]

set_option maxRecDepth 10000 in
theorem overtake_order : (site.flights twice overtake).order = [true, false] := by decide +kernel

set_option maxRecDepth 10000 in
theorem overtake_reported : (site.flights twice overtake).stage false =
    .reported (.ok (.rejected "replayed: nonce already seen this session")) := by rfl

theorem wire_sealed : (site.conns ()).client.seal (key 3) (nonce 9) 300 [5] = .ok wire := by rfl

theorem twice_readings (j k : Bool) : (twice k).now.toNat ≤ (twice j).now.toNat + 600 := by
  cases j <;> cases k <;> decide

end Demo

/-- The delivery that came second to the lock. -/
theorem one_delivery_wins_overtaken :
    ∃ outcome, (Demo.site.flights Demo.twice Demo.overtake).stage false = .reported outcome ∧
      outcome = .ok (.rejected "replayed: nonce already seen this session") :=
  ⟨_, Demo.overtake_reported, (one_delivery_wins Clamped.encodings Clamped.correct
    Clamped.pskRule Clamped.encapsulates Clamped.honest Demo.site (fun _ => Demo.site_serves)
    Demo.twice Demo.overtake () (Transparent.key 3) Demo.wire_sealed (fun _ _ _ _ _ => rfl)
    (fun j k _ _ => Demo.twice_readings j k) [true] false [] _ Demo.overtake_order
    ⟨rfl, rfl, rfl⟩ Demo.overtake_reported).2.2 ⟨by decide, by decide⟩
    ⟨true, List.mem_singleton_self _, ⟨rfl, rfl, rfl⟩, by decide, by decide⟩⟩

end Deployment
end HpkeDemo.Bwc
