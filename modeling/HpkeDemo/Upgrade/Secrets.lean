import HpkeDemo.Hkdf
import HpkeDemo.Upgrade.Readable

/-! Which secrets open a `v2` message. The secret is the salt of the key schedule, so it
counts as HMAC fills it up to a block. -/
namespace HpkeDemo.Upgrade
open Hkdf (Alike CollisionFree)

namespace V2

/-- The crates' HKDF is that of RFC 5869 over `sha256`. -/
def Crates.Rfc5869 (C : Crates) (sha256 : Hkdf.Hash 64 32) : Prop :=
  ∀ salt ikm info n, (C.expand (C.extract salt ikm) info n).toOption =
    Hkdf.expand sha256 (Hkdf.extract sha256 salt ikm) info n

/-- The AEAD opens a ciphertext only under the key and nonce that made it. -/
def Crates.Ideal (C : Crates) : Prop :=
  ∀ {key nonce key' nonce' m m' ct}, C.encrypt key nonce m = .ok ct →
    C.decrypt key' nonce' ct = .ok m' → key = key' ∧ nonce = nonce'

variable {C : Crates} {sha256 : Hkdf.Hash 64 32} {dk : C.DecapsulationKey} {rng : C.Randomness}
  {shared s s' m wire : Bytes}

theorem derive_eq_expand (hkdf : C.Rfc5869 sha256) (shared secret : Bytes) :
    ∃ okm, Hkdf.expand sha256 (Hkdf.extract sha256 secret shared) INFO 44 = some okm ∧
      derive C shared secret = .ok (okm.take 32, okm.drop 32) := by
  have hmax : 44 ≤ 255 * 32 := by decide
  obtain ⟨okm, hokm, _⟩ :=
    Hkdf.exists_expand sha256 (Hkdf.extract sha256 secret shared) INFO hmax
  have hexpand := (hkdf secret shared INFO 44).trans hokm
  refine ⟨okm, hokm, ?_⟩
  unfold derive
  cases h : C.expand (C.extract secret shared) INFO 44 with
  | error e =>
    rw [h] at hexpand
    cases hexpand
  | ok okm' =>
    rw [h] at hexpand
    obtain rfl := Option.some.inj hexpand
    rfl

/-- The key schedule gives two secrets one key and nonce exactly if they are alike. -/
theorem derive_eq_iff (hkdf : C.Rfc5869 sha256) (free : CollisionFree sha256 shared INFO s s') :
    derive C shared s = derive C shared s' ↔ Alike sha256 s s' := by
  obtain ⟨okm, hokm, hderive⟩ := derive_eq_expand hkdf shared s
  obtain ⟨okm', hokm', hderive'⟩ := derive_eq_expand hkdf shared s'
  rw [hderive, hderive']
  constructor
  · intro heq
    have hkey : okm.take 32 = okm'.take 32 := (Prod.mk.inj (Except.ok.inj heq)).1
    rw [Hkdf.take_expand (by decide) (by decide) hokm,
      Hkdf.take_expand (by decide) (by decide) hokm'] at hkey
    exact (Hkdf.firstBlock_eq_iff free).mp hkey
  · intro alike
    rw [alike.extract_eq, hokm'] at hokm
    obtain rfl := Option.some.inj hokm
    rfl

/-- A sealed message is opened exactly with the secrets that derive its key and nonce. -/
theorem exists_open_iff (correct : C.Correct) (ideal : C.Ideal)
    (h : sealWire C rng (ekBytes C (C.encapsulationKey dk)) s m = .ok wire) :
    (∃ m', openWire C dk s' wire = .ok m') ↔
      derive C (C.encapsulate (C.encapsulationKey dk) rng).2 s =
        derive C (C.encapsulate (C.encapsulationKey dk) rng).2 s' := by
  obtain ⟨hlen, ek, key, nonce, ct, hek, hderive, hct, rfl⟩ := sealWire_eq_ok_iff.mp h
  obtain rfl : C.encapsulationKey dk = ek :=
    Except.ok.inj ((correct.new_toBytes _ hlen).symm.trans hek)
  constructor
  · rintro ⟨m', hopen⟩
    obtain ⟨kem, ct', key', nonce', hwire, hderive', hm'⟩ := openWire_eq_ok_iff.mp hopen
    obtain ⟨hkem, rfl⟩ := List.append_inj hwire
      ((C.encapsulate (C.encapsulationKey dk) rng).1.2.trans kem.2.symm)
    rw [← Subtype.ext hkem, correct.decapsulates] at hderive'
    obtain ⟨rfl, rfl⟩ := ideal hct hm'
    rw [hderive, hderive']
  · intro hsame
    refine ⟨m, openWire_eq_ok_iff.mpr ⟨_, ct, key, nonce, rfl, ?_, correct.decrypts hct⟩⟩
    rw [correct.decapsulates, ← hsame]
    exact hderive

theorem rejects_iff (correct : C.Correct) :
    (∃ message, openWire C dk s wire = .error (.err message)) ↔
      ¬ ∃ m, openWire C dk s wire = .ok m := by
  cases h : openWire C dk s wire with
  | ok m => simp
  | error failure =>
    cases failure with
    | err message => simp
    | panic panic => exact absurd h (openWire_ne_panic correct panic)

end V2

namespace Demo

/-- A hash that cuts off what it is given. -/
def cutHash : Hkdf.Hash 64 32 where
  digest m := (m ++ Hkdf.zeros 32).take 32
  length_digest m := by
    rw [List.length_take, List.length_append, Hkdf.length_zeros]
    omega
  fits := by decide

/-- The readable crates, with HKDF over that hash. -/
def hkdfCrates : V2.Crates :=
  { Readable.crates with
    Prk := Bytes
    extract := Hkdf.extract cutHash
    expand := fun prk info n =>
      (Hkdf.expand cutHash prk info n).elim (.error "InvalidLength") .ok }

theorem hkdfCrates_expand (prk : hkdfCrates.Prk) (info : Bytes) (n : Nat) :
    hkdfCrates.expand prk info n =
      (Hkdf.expand cutHash prk info n).elim (.error "InvalidLength") .ok := rfl

theorem hkdfCrates_correct : hkdfCrates.Correct where
  toBytes_length := Readable.correct.toBytes_length
  new_toBytes := Readable.correct.new_toBytes
  decapsulates := Readable.correct.decapsulates
  expands := by
    intro prk info n hn
    obtain ⟨okm, hokm, hlen⟩ := Hkdf.exists_expand cutHash prk info hn
    refine ⟨okm, ?_, hlen⟩
    rw [hkdfCrates_expand, hokm]
    rfl
  encrypts := Readable.correct.encrypts
  decrypts := Readable.correct.decrypts

theorem hkdfCrates_ideal : hkdfCrates.Ideal := by
  intro key nonce key' nonce' m m' ct hct hm'
  have hsealed : Readable.crates.encrypt key nonce m = Readable.crates.encrypt key' nonce' m' :=
    Eq.trans hct (Readable.authentic hm').symm
  have hchunks := Except.ok.inj hsealed
  simp only [List.append_assoc] at hchunks
  have hcount : [key, nonce].length = [key', nonce'].length := rfl
  obtain ⟨hkeys, _⟩ := chunks_append_inj hcount hchunks
  obtain ⟨rfl, hnonce⟩ := List.cons.inj hkeys
  exact ⟨rfl, (List.cons.inj hnonce).1⟩

theorem hkdfCrates_rfc5869 : hkdfCrates.Rfc5869 cutHash := by
  intro salt ikm info n
  rw [hkdfCrates_expand]
  show _ = Hkdf.expand cutHash (hkdfCrates.extract salt ikm) info n
  cases Hkdf.expand cutHash (hkdfCrates.extract salt ikm) info n <;> rfl

/-- A decapsulation key, and what its owner and a client share. -/
def dk : hkdfCrates.DecapsulationKey := Readable.wallet.v2.1

def rng : hkdfCrates.Randomness := Readable.randomness

def sharedSecret : Bytes := (hkdfCrates.encapsulate (hkdfCrates.encapsulationKey dk) rng).2

set_option maxRecDepth 20000 in
theorem collisionFree_other : CollisionFree cutHash sharedSecret V2.INFO [1] [2] := by
  unfold CollisionFree
  decide +kernel

set_option maxRecDepth 20000 in
theorem collisionFree_padded : CollisionFree cutHash sharedSecret V2.INFO [1] [1, 0] := by
  unfold CollisionFree
  decide +kernel

end Demo
variable {C : V2.Crates} {sha256 : Hkdf.Hash 64 32}

/-- **Which secrets are told apart.** Two secrets derive different keys, and a message
sealed with one is rejected with the other, exactly if they are not alike: each replaced
by its digest if longer than a block, they differ in more than zero bytes at the end. -/
theorem secrets_told_apart_iff (correct : C.Correct) (ideal : C.Ideal)
    (hkdf : C.Rfc5869 sha256) :
    (∀ shared s s', CollisionFree sha256 shared V2.INFO s s' →
      (V2.derive C shared s ≠ V2.derive C shared s' ↔ ¬ Alike sha256 s s')) ∧
    ∀ dk rng s s' m wire,
      CollisionFree sha256 (C.encapsulate (C.encapsulationKey dk) rng).2 V2.INFO s s' →
      V2.sealWire C rng (V2.ekBytes C (C.encapsulationKey dk)) s m = .ok wire →
        ((∃ message, V2.openWire C dk s' wire = .error (.err message)) ↔
          ¬ Alike sha256 s s') := by
  constructor
  · intro shared s s' free
    exact not_congr (V2.derive_eq_iff hkdf free)
  · intro dk rng s s' m wire free h
    rw [V2.rejects_iff correct, V2.exists_open_iff correct ideal h, V2.derive_eq_iff hkdf free]

open Demo in
/-- Another byte is another secret. -/
theorem secrets_told_apart_other :
    V2.derive hkdfCrates sharedSecret [1] ≠ V2.derive hkdfCrates sharedSecret [2] ∧
    ∃ wire, V2.sealWire hkdfCrates rng
        (V2.ekBytes hkdfCrates (hkdfCrates.encapsulationKey dk)) [1] [8] = .ok wire ∧
      ∃ message, V2.openWire hkdfCrates dk [2] wire = .error (.err message) := by
  have unlike : ¬ Alike cutHash [1] [2] := by
    rw [← Hkdf.prepare_eq_iff]
    decide +kernel
  obtain ⟨hderive, hopen⟩ :=
    secrets_told_apart_iff hkdfCrates_correct hkdfCrates_ideal hkdfCrates_rfc5869
  obtain ⟨wire, hwire, _⟩ := V2.exists_sealWire hkdfCrates_correct dk rng [1] [8]
  exact ⟨(hderive _ _ _ collisionFree_other).mpr unlike, wire, hwire,
    (hopen _ _ _ _ _ _ collisionFree_other hwire).mpr unlike⟩

open Demo in
/-- A zero byte more is no other secret. -/
theorem padded_secret_opens :
    Hex.decode "01" = .ok [1] ∧ Hex.decode "0100" = .ok [1, 0] ∧
    (¬ ∀ shared s s', s ≠ s' → CollisionFree cutHash shared V2.INFO s s' →
      V2.derive hkdfCrates shared s ≠ V2.derive hkdfCrates shared s') ∧
    ¬ ∀ dk rng s s' m wire, s ≠ s' →
      CollisionFree cutHash (hkdfCrates.encapsulate (hkdfCrates.encapsulationKey dk) rng).2
        V2.INFO s s' →
      V2.sealWire hkdfCrates rng (V2.ekBytes hkdfCrates (hkdfCrates.encapsulationKey dk)) s m =
        .ok wire →
      ∃ message, V2.openWire hkdfCrates dk s' wire = .error (.err message) := by
  have different : ([1] : Bytes) ≠ [1, 0] := by decide
  have alike : Alike cutHash [1] [1, 0] := ⟨1, 0, by decide⟩
  have same : V2.derive hkdfCrates sharedSecret [1] = V2.derive hkdfCrates sharedSecret [1, 0] :=
    (V2.derive_eq_iff hkdfCrates_rfc5869 collisionFree_padded).mpr alike
  refine ⟨by decide +kernel, by decide +kernel, ?_, ?_⟩
  · intro apart
    exact apart _ _ _ different collisionFree_padded same
  · intro rejects
    obtain ⟨wire, hwire, _⟩ := V2.exists_sealWire hkdfCrates_correct dk rng [1] [8]
    have hopen := (V2.exists_open_iff hkdfCrates_correct hkdfCrates_ideal hwire).mpr same
    have hrejects := rejects _ _ _ _ _ _ different collisionFree_padded hwire
    exact (V2.rejects_iff hkdfCrates_correct).mp hrejects hopen

end HpkeDemo.Upgrade
