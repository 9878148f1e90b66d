import HpkeDemo.Bwc.ReplayCache
import HpkeDemo.Replay.Batch

/-! Requests that `handle` reads at one clock reading, in any order. -/
namespace HpkeDemo.Bwc.Wallet
open Replay

variable {H : Hpke} {wallet : Wallet H} {now : UInt64} {seen : Seen} {wires wires' : List Bytes}

/-- `wires` handled one after another at the reading `now`. -/
def batch (wallet : Wallet H) (now : UInt64) (seen : Seen) (wires : List Bytes) :
    Seen × List (Bytes × Except String Bytes) :=
  Machine.run (wallet.handle now) seen wires

/-- The nonces of the wires that were answered with a body. -/
def acceptedNonces (wallet : Wallet H) (log : List (Bytes × Except String Bytes)) : List Nonce :=
  log.filterMap fun x =>
    match x.2, wallet.read x.1 with
    | .ok _, .ok (nonce, _, _) => some nonce
    | _, _ => none

/-- The bodies returned. -/
def bodies (log : List (Bytes × Except String Bytes)) : List Bytes :=
  log.filterMap fun x => x.2.toOption

/-- Payloads with one nonce are equal. -/
def OnePayload (wallet : Wallet H) (wires : List Bytes) : Prop :=
  ∀ wire ∈ wires, ∀ wire' ∈ wires, ∀ nonce timestamp timestamp' body body',
    wallet.Opens wire nonce timestamp body → wallet.Opens wire' nonce timestamp' body' →
      timestamp = timestamp' ∧ body = body'

theorem batch_eq_guard : wallet.batch now seen wires = wallet.guard.batch now seen wires := by
  have hstep : ∀ wire seen, wallet.handle now wire seen = wallet.guard.step (now, wire) seen := by
    intro wire seen
    exact wallet.handle_eq_step (now, wire) seen
  rw [batch, Machine.run_congr hstep, Guard.batch]

theorem acceptedNonces_eq (log : List (Bytes × Except String Bytes)) :
    wallet.acceptedNonces log = (wallet.guard.admissions log).map Prod.fst := by
  rw [acceptedNonces, Guard.admissions, List.map_filterMap]
  apply List.filterMap_congr
  rintro ⟨wire, result⟩ _
  rw [Guard.admission, guard_read]
  cases result with
  | error e => rfl
  | ok body =>
    cases wallet.read wire with
    | error e => rfl
    | ok msg => rfl

theorem onePayload_iff : wallet.guard.OnePayload wires ↔ wallet.OnePayload wires := by
  simp only [Guard.OnePayload, OnePayload, guard_read, read_eq_ok_iff]

theorem offered_iff {nonce : Nonce} : wallet.guard.Offered now wires nonce ↔
    ∃ wire ∈ wires, ∃ timestamp body, wallet.Opens wire nonce timestamp body ∧
      Near now timestamp := by
  simp only [Guard.Offered, Guard.Offers, guard_read, read_eq_ok_iff, guard_fresh]

/-- **The order of simultaneous requests does not matter.** Two orders of a batch end in
one cache and accept the same nonces, each once: those that the cache does not remember at
this reading and that some wire carries in a fresh payload. If payloads with one nonce are
equal, they return the same bodies. -/
theorem batch_order_independent (wallet : Wallet H) (now : UInt64) (seen : Seen)
    (perm : wires.Perm wires') :
    let first := wallet.batch now seen wires
    let second := wallet.batch now seen wires'
    first.1 = second.1 ∧
    (wallet.acceptedNonces first.2).Perm (wallet.acceptedNonces second.2) ∧
    (wallet.acceptedNonces first.2).Nodup ∧
    (∀ nonce, nonce ∈ wallet.acceptedNonces first.2 ↔ ¬ Remembered seen now nonce ∧
      ∃ wire ∈ wires, ∃ timestamp body, wallet.Opens wire nonce timestamp body ∧
        Near now timestamp) ∧
    (wallet.OnePayload wires → (bodies first.2).Perm (bodies second.2)) := by
  intro first second
  have hnow : wallet.guard.keeps now now = true := by
    rw [guard_keeps]
    omega
  simp only [first, second, batch_eq_guard, acceptedNonces_eq]
  refine ⟨Guard.batch_seen_perm hnow perm seen, Guard.batch_keys_perm hnow perm seen,
    Guard.nodup_keys_batch hnow seen, ?_, ?_⟩
  · intro nonce
    rw [Guard.mem_keys_batch hnow, offered_iff, retain_eq_none_iff_not_remembered]
  · intro one
    exact Guard.batch_bodies_perm hnow perm seen (onePayload_iff.mpr one)

set_option maxRecDepth 10000 in
/-- A request, its replay, another request and a garbled wire, in two orders. -/
theorem batch_order_independent_replay :
    let wires := [Demo.request 9 300 [5], [1], Demo.request 9 300 [5], Demo.request 8 300 [6]]
    let wires' := [Demo.request 8 300 [6], Demo.request 9 300 [5], [1], Demo.request 9 300 [5]]
    let first := Demo.connection.wallet.batch 300 (fun _ => none) wires
    let second := Demo.connection.wallet.batch 300 (fun _ => none) wires'
    first.1 = second.1 ∧ bodies first.2 = [[5], [6]] ∧ bodies second.2 = [[6], [5]] ∧
      (bodies first.2).Perm (bodies second.2) := by
  intro wires wires' first second
  have perm : wires.Perm wires' := by decide
  obtain ⟨hseen, _, _, _, hbodies⟩ :=
    batch_order_independent Demo.connection.wallet 300 (fun _ => none) perm
  have one : Demo.connection.wallet.OnePayload wires := by
    have payloads : ∀ wire ∈ wires, ∀ msg, Demo.connection.wallet.read wire = .ok msg →
        msg = (Demo.nonce 9, 300, [5]) ∨ msg = (Demo.nonce 8, 300, [6]) := by
      have h9 : Demo.connection.wallet.read (Demo.request 9 300 [5]) =
          .ok (Demo.nonce 9, 300, [5]) := rfl
      have h8 : Demo.connection.wallet.read (Demo.request 8 300 [6]) =
          .ok (Demo.nonce 8, 300, [6]) := rfl
      have h1 : Demo.connection.wallet.read [1] = .error "message too short" := rfl
      intro wire hwire msg hmsg
      simp only [wires, List.mem_cons, List.not_mem_nil, or_false] at hwire
      obtain rfl | rfl | rfl | rfl := hwire
      · exact Or.inl (Except.ok.inj (hmsg.symm.trans h9))
      · rw [h1] at hmsg
        cases hmsg
      · exact Or.inl (Except.ok.inj (hmsg.symm.trans h9))
      · exact Or.inr (Except.ok.inj (hmsg.symm.trans h8))
    have distinct : Demo.nonce 9 ≠ Demo.nonce 8 := by decide
    intro wire hwire wire' hwire' nonce timestamp timestamp' body body' h h'
    obtain h | h := payloads wire hwire _ (read_eq_ok_iff.mpr h) <;>
    obtain h' | h' := payloads wire' hwire' _ (read_eq_ok_iff.mpr h') <;>
    simp_all
  exact ⟨hseen, by rfl, by rfl, hbodies one⟩

end HpkeDemo.Bwc.Wallet
