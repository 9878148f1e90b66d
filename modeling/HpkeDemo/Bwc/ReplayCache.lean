import HpkeDemo.Bwc.Client
import HpkeDemo.Replay.Forgetting
import HpkeDemo.Replay.History

/-! The wallet's replay cache as a guard that admits each nonce once, and what follows
for whole sessions of `handle` calls. -/
namespace HpkeDemo.Bwc
open Channel Connect Replay History

variable {H : Hpke}

/-- The cache holds the nonce, with an age that retention keeps. -/
def Remembered (seen : Seen) (now : UInt64) (nonce : Nonce) : Prop :=
  ∃ seenAt, seen nonce = some seenAt ∧ now.toNat - seenAt.toNat ≤ 600

namespace Wallet

/-- Opening and parsing of a request, the part of `handle` that reads no state. -/
def read (wallet : Wallet H) (wire : Bytes) : Except String (Nonce × UInt64 × Bytes) :=
  match openWire H wallet.sk wallet.clientPk wallet.secret INFO_REQUEST wire with
  | .error e => .error e
  | .ok payload =>
    if hlen : payload.length < NONCE_LEN + TS_LEN then .error "malformed request"
    else .ok (⟨payload.take NONCE_LEN, length_take_nonce hlen⟩,
      Bytes.toU64 ((payload.drop NONCE_LEN).take TS_LEN), (payload.drop NONCE_LEN).drop TS_LEN)

/-- The guard that `handle` implements. -/
def guard (wallet : Wallet H) : Guard UInt64 Bytes Nonce UInt64 String Bytes where
  keeps now seenAt := saturatingSub now seenAt ≤ 2 * MAX_CLOCK_SKEW_SECS
  read := wallet.read
  fresh now timestamp := absDiff now timestamp ≤ MAX_CLOCK_SKEW_SECS
  stale := "clock skew: timestamp outside the freshness window"
  repeated := "replayed: nonce already seen this session"

variable {wallet : Wallet H} {now : UInt64} {wire : Bytes} {seen : Seen} {nonce nonce' : Nonce}
  {timestamp timestamp' : UInt64} {body body' : Bytes}

theorem read_eq_ok_iff :
    wallet.read wire = .ok (nonce, timestamp, body) ↔ wallet.Opens wire nonce timestamp body := by
  cases hopen : openWire H wallet.sk wallet.clientPk wallet.secret INFO_REQUEST wire with
  | error e => simp [read, Opens, hopen]
  | ok payload =>
    have hnonce := nonce.2
    simp only [read, Opens, hopen, Except.ok.injEq]
    constructor
    · split
      · simp
      · next hlen =>
        simp only [Except.ok.injEq, Prod.mk.injEq]
        rintro ⟨rfl, rfl, rfl⟩
        rw [Bytes.ofU64_toU64 (by simp [NONCE_LEN, TS_LEN] at hlen ⊢; omega), List.append_assoc,
          List.take_append_drop, List.take_append_drop]
    · rintro rfl
      have hlen : ¬ (nonce.1 ++ Bytes.ofU64 timestamp ++ body).length < NONCE_LEN + TS_LEN := by
        simp [hnonce, TS_LEN]
      have hts : (Bytes.ofU64 timestamp).length = TS_LEN := Bytes.length_ofU64 timestamp
      rw [dif_neg hlen]
      simp only [List.append_assoc, List.take_left' hnonce, List.drop_left' hnonce,
        List.take_left' hts, List.drop_left' hts, Bytes.toU64_ofU64]

theorem opens_unique (h : wallet.Opens wire nonce timestamp body)
    (h' : wallet.Opens wire nonce' timestamp' body') :
    nonce = nonce' ∧ timestamp = timestamp' ∧ body = body' :=
  payload_inj (Except.ok.inj (h.symm.trans h'))

@[simp] theorem guard_keeps {seenAt : UInt64} :
    wallet.guard.keeps now seenAt = true ↔ now.toNat ≤ seenAt.toNat + 600 := by
  simp [guard, saturatingSub_le_iff]

@[simp] theorem guard_lets_go {seenAt : UInt64} :
    wallet.guard.keeps now seenAt = false ↔ seenAt.toNat + 600 < now.toNat := by
  rw [← Bool.not_eq_true, guard_keeps, Nat.not_le]

theorem retain_eq_none_iff_not_remembered :
    wallet.guard.retain now seen nonce = none ↔ ¬ Remembered seen now nonce := by
  rw [Guard.retain_eq_none_iff, Remembered]
  simp only [guard_lets_go, not_exists, not_and, Nat.not_le]
  constructor
  · intro h seenAt hseen
    have := h seenAt hseen
    omega
  · intro h seenAt hseen
    have := h seenAt hseen
    omega

@[simp] theorem guard_fresh : wallet.guard.fresh now timestamp = true ↔ Near now timestamp := by
  simp [guard, absDiff_le_iff]

@[simp] theorem guard_read : wallet.guard.read = wallet.read := rfl

/-- `handlePlain` is the guard's step without forgetting. -/
theorem handlePlain_eq_step (wallet : Wallet H) (call : UInt64 × Bytes) (seen : Seen) :
    wallet.handlePlain call.1 call.2 seen = wallet.guard.plain.step call seen := by
  simp only [handlePlain, checkIn, Guard.step, Guard.plain_retain, Guard.plain_read,
    Guard.plain_fresh, Guard.plain_stale, Guard.plain_repeated, guard, read]
  cases openWire H wallet.sk wallet.clientPk wallet.secret INFO_REQUEST call.2 with
  | error e => rfl
  | ok payload =>
    by_cases hlen : payload.length < NONCE_LEN + TS_LEN
    · simp only [hlen, dif_pos]
    · simp only [hlen, dif_neg, not_false_eq_true, decide_eq_true_eq, gt_iff_lt,
        ← UInt64.not_le, ite_not]

/-- `handle` is the guard's step. -/
theorem handle_eq_step (wallet : Wallet H) (call : UInt64 × Bytes) (seen : Seen) :
    wallet.handle call.1 call.2 seen = wallet.guard.step call seen := by
  rw [Guard.step_eq_plain, ← handlePlain_eq_step]
  rfl

theorem handle_eq_ok_iff : (wallet.handle now wire seen).2 = .ok body ↔
    ∃ nonce timestamp, wallet.Opens wire nonce timestamp body ∧ Near now timestamp ∧
      wallet.guard.retain now seen nonce = none := by
  simp only [wallet.handle_eq_step (now, wire), Guard.step_eq_ok_iff, guard_read, read_eq_ok_iff,
    guard_fresh]

theorem guard_lawful (wallet : Wallet H) : wallet.guard.Lawful where
  keeps_antitone h := by
    rw [UInt64.le_iff_toNat_le] at h
    simp only [guard_keeps]
    omega
  window := by
    simp only [guard_fresh, guard_keeps, Near]
    omega

/-- A call whose wire carries `nonce` was answered with a body. -/
def Accepted (wallet : Wallet H) (x : (UInt64 × Bytes) × Except String Bytes) (nonce : Nonce) :
    Prop :=
  (∃ timestamp body, wallet.Opens x.1.2 nonce timestamp body) ∧ ∃ body, x.2 = .ok body

theorem admits_iff {x : (UInt64 × Bytes) × Except String Bytes} :
    wallet.guard.Admits x nonce ↔ wallet.Accepted x nonce := by
  simp only [Guard.Admits, Accepted, guard_read, read_eq_ok_iff]

/-- A session is a run of the guard. -/
theorem session_eq_run (wallet : Wallet H) (calls : List (UInt64 × Bytes)) :
    wallet.session calls = Machine.run wallet.guard.step (fun _ => none) calls := by
  rw [session, Machine.run_congr wallet.handle_eq_step]

/-- **The cache is the recent accept history.** For any clock readings: after a session
the cache holds `nonce` with `a` exactly when the last accepted call that carried it
was read at `a` and no later reading is past `a + 600`; and the next call is accepted
exactly when it opens, is fresh, and no accepted call of its nonce is within reach of
every reading since. -/
theorem cache_is_recent_history (wallet : Wallet H) (calls : List (UInt64 × Bytes)) :
    (∀ nonce a, (wallet.session calls).1 nonce = some a ↔
      ∃ before x after, (wallet.session calls).2 = before ++ x :: after ∧
        wallet.Accepted x nonce ∧ x.1.1 = a ∧
        ∀ y ∈ after, ¬ wallet.Accepted y nonce ∧ y.1.1.toNat ≤ a.toNat + 600) ∧
    ∀ now wire body, (wallet.handle now wire (wallet.session calls).1).2 = .ok body ↔
      ∃ nonce timestamp, wallet.Opens wire nonce timestamp body ∧ Near now timestamp ∧
        ¬ ∃ a, (∃ before x after, (wallet.session calls).2 = before ++ x :: after ∧
            wallet.Accepted x nonce ∧ x.1.1 = a ∧ ∀ y ∈ after, y.1.1.toNat ≤ a.toNat + 600) ∧
          now.toNat ≤ a.toNat + 600 := by
  constructor
  · intro nonce a
    rw [session_eq_run, Guard.seen_eq_some_iff]
    simp only [Guard.LastKept, Since, admits_iff, guard_keeps, and_assoc]
  · intro now wire body
    rw [wallet.handle_eq_step (now, wire), session_eq_run, Guard.next_eq_ok_iff]
    simp only [Guard.Kept, Since, admits_iff, guard_read, guard_keeps, guard_fresh,
      read_eq_ok_iff, and_assoc]

/-- **Forgetting loses nothing.** Under increasing readings, the wallet answers every
call like one whose cache never forgets, when the requests that carry one nonce carry
one timestamp. -/
theorem evicting_answers_as_plain (wallet : Wallet H) (calls : List (UInt64 × Bytes))
    (mono : calls.Pairwise fun x y => x.1 ≤ y.1)
    (same : ∀ x ∈ calls, ∀ y ∈ calls, ∀ nonce timestamp timestamp' body body',
      wallet.Opens x.2 nonce timestamp body → wallet.Opens y.2 nonce timestamp' body' →
        timestamp = timestamp') :
    (wallet.session calls).2 =
      (Machine.run (fun call => wallet.handlePlain call.1 call.2) (fun _ => none) calls).2 := by
  rw [session_eq_run, Machine.run_congr wallet.handlePlain_eq_step]
  refine Guard.run_eq_plain wallet.guard_lawful calls mono fun x hx y hy k s b s' b' h h' => ?_
  exact same x hx y hy k s s' b b' (read_eq_ok_iff.mp h) (read_eq_ok_iff.mp h')

set_option maxRecDepth 10000 in
/-- One request, fresh, then replayed at the end of its window, then stale. -/
theorem evicting_answers_as_plain_replays :
    let calls := [300, 600, 601].map fun now => (now, Demo.request 9 300 [5])
    (Demo.connection.wallet.session calls).2.map (·.2.toOption) = [some [5], none, none] ∧
    (Demo.connection.wallet.session calls).2 =
      (Machine.run (fun call => Demo.connection.wallet.handlePlain call.1 call.2)
        (fun _ => none) calls).2 := by
  refine ⟨by decide, evicting_answers_as_plain _ _ (by decide) ?_⟩
  intro x hx y hy nonce timestamp timestamp' body body' h h'
  have one : ∀ z ∈ [300, 600, 601].map (fun now => ((now : UInt64), Demo.request 9 300 [5])),
      z.2 = Demo.request 9 300 [5] := by simp
  rw [one x hx] at h
  rw [one y hy] at h'
  exact (opens_unique h h').2.1

/-- **Rejections are inert.** Under increasing readings, leaving rejected calls out of a
session changes no other answer, and a further call ends in the same cache. -/
theorem rejected_calls_are_inert (wallet : Wallet H) (seen : Seen) (calls : List (UInt64 × Bytes))
    (log : List ((UInt64 × Bytes) × Except String Bytes))
    (mono : calls.Pairwise fun x y => x.1 ≤ y.1)
    (h : Guard.Deletion
      (Machine.run (fun call => wallet.handle call.1 call.2) seen calls).2 log) :
    let handle := fun call : UInt64 × Bytes => wallet.handle call.1 call.2
    (Machine.run handle seen (log.map Prod.fst)).2 = log ∧
      ∀ call, (∀ x ∈ calls, x.1 ≤ call.1) →
        handle call (Machine.run handle seen calls).1 =
          handle call (Machine.run handle seen (log.map Prod.fst)).1 := by
  rw [Machine.run_congr wallet.handle_eq_step] at h
  simp only [Machine.run_congr wallet.handle_eq_step, wallet.handle_eq_step]
  exact Guard.run_without_rejected wallet.guard_lawful mono h

set_option maxRecDepth 10000 in
/-- A garbled message and a replay, left out. -/
theorem rejected_calls_are_inert_two :
    let handle := fun call : UInt64 × Bytes => Demo.connection.wallet.handle call.1 call.2
    let calls := [(0, [1]), (0, Demo.request 9 300 [5]), (600, Demo.request 9 300 [5]),
      (601, Demo.request 8 700 [6])]
    let rest := [(0, Demo.request 9 300 [5]), (601, Demo.request 8 700 [6])]
    (Machine.run handle (fun _ => none) rest).2.map (·.2.toOption) = [some [5], some [6]] ∧
      handle (601, Demo.request 8 700 [6]) (Machine.run handle (fun _ => none) calls).1 =
        handle (601, Demo.request 8 700 [6]) (Machine.run handle (fun _ => none) rest).1 := by
  intro handle calls rest
  have hlog : (Machine.run handle (fun _ => none) calls).2 =
      [((0, [1]), .error "message too short"), ((0, Demo.request 9 300 [5]), .ok [5]),
       ((600, Demo.request 9 300 [5]), .error "replayed: nonce already seen this session"),
       ((601, Demo.request 8 700 [6]), .ok [6])] := by rfl
  have deletion : Guard.Deletion (Machine.run handle (fun _ => none) calls).2
      [((0, Demo.request 9 300 [5]), .ok [5]), ((601, Demo.request 8 700 [6]), .ok [6])] :=
    hlog ▸ .drop _ _ _ _ (.keep _ _ _ (.drop _ _ _ _ (.keep _ _ _ .nil)))
  obtain ⟨hanswers, hend⟩ := rejected_calls_are_inert _ _ calls _ (by decide) deletion
  refine ⟨congrArg (List.map (·.2.toOption)) hanswers, hend _ (by decide)⟩

end Wallet
end HpkeDemo.Bwc
