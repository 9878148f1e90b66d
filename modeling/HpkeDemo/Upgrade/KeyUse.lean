import HpkeDemo.Upgrade.Secrets

/-! When `v2` uses one AEAD key for two messages. The key schedule counts nothing: only a
fresh KEM secret for each message keeps its key, and with it the nonce, from coming again. -/
namespace HpkeDemo.Upgrade
open Hkdf (Alike Distinguishes)

/-- What `v2::seal` is called with, and draws. -/
structure Sealing (C : V2.Crates) where
  ek : C.EncapsulationKey
  rng : C.Randomness
  secret : Bytes
  body : Bytes

namespace Sealing
variable {C : V2.Crates} {sha256 : Hkdf.Hash 64 32}

def wire (s : Sealing C) : Except Failure Bytes :=
  V2.sealWire C s.rng (V2.ekBytes C s.ek) s.secret s.body

def kem (s : Sealing C) : Bytes := (C.encapsulate s.ek s.rng).1

def shared (s : Sealing C) : Bytes := (C.encapsulate s.ek s.rng).2

/-- The first 32 bytes of the key schedule. -/
def aeadKey (s : Sealing C) : Except Panic Bytes := (V2.derive C s.shared s.secret).map Prod.fst

/-- What HMAC hashes in the key schedule. -/
def strings (sha256 : Hkdf.Hash 64 32) (s : Sealing C) : List Bytes :=
  Hkdf.strings sha256 s.secret s.shared V2.INFO

theorem aeadKey_eq (hkdf : C.Rfc5869 sha256) (s : Sealing C) :
    s.aeadKey = .ok (Hkdf.firstBlock sha256 s.secret s.shared V2.INFO) := by
  obtain ⟨okm, hokm, hderive⟩ := V2.derive_eq_expand hkdf s.shared s.secret
  rw [aeadKey, hderive, Hkdf.firstBlock, ← Hkdf.take_expand (by decide) (by decide) hokm]
  rfl

theorem aeadKey_eq_iff (hkdf : C.Rfc5869 sha256) {s t : Sealing C}
    (distinguishes : Distinguishes sha256 (s.strings sha256 ++ t.strings sha256)) :
    s.aeadKey = t.aeadKey ↔ s.shared = t.shared ∧ Alike sha256 s.secret t.secret := by
  rw [aeadKey_eq hkdf, aeadKey_eq hkdf, Except.ok.injEq]
  exact Hkdf.firstBlock_eq_iff_both distinguishes

/-- A wire is the KEM ciphertext and what the AEAD makes under the key and nonce. -/
theorem encrypted_of_wire (correct : C.Correct) {s : Sealing C} {wire : Bytes}
    (h : s.wire = .ok wire) : ∃ key nonce ct, V2.derive C s.shared s.secret = .ok (key, nonce) ∧
      s.aeadKey = .ok key ∧ C.encrypt key nonce s.body = .ok ct ∧ wire = s.kem ++ ct := by
  obtain ⟨hlen, ek, key, nonce, ct, hek, hderive, hct, rfl⟩ := V2.sealWire_eq_ok_iff.mp h
  obtain rfl : s.ek = ek := Except.ok.inj ((correct.new_toBytes _ hlen).symm.trans hek)
  refine ⟨key, nonce, ct, hderive, ?_, hct, rfl⟩
  rw [aeadKey, shared, hderive]
  rfl

end Sealing

variable {C : V2.Crates} {sha256 : Hkdf.Hash 64 32}

/-- **When a key is used twice.** Each sealed message is encrypted under the key and nonce of its
own schedule. Of any messages, to any wallets and with any secrets, no two are encrypted under
one key, exactly if no two of alike secrets have one KEM secret. -/
theorem no_key_used_twice_iff (correct : C.Correct) (hkdf : C.Rfc5869 sha256)
    (sealings : List (Sealing C))
    (distinguishes : Distinguishes sha256 (sealings.flatMap (Sealing.strings sha256))) :
    (∀ s ∈ sealings, ∀ wire, s.wire = .ok wire → ∃ key nonce ct,
      V2.derive C s.shared s.secret = .ok (key, nonce) ∧ s.aeadKey = .ok key ∧
        C.encrypt key nonce s.body = .ok ct ∧ wire = s.kem ++ ct) ∧
    (sealings.Pairwise (fun s t => s.aeadKey ≠ t.aeadKey) ↔
      sealings.Pairwise fun s t => ¬ (s.shared = t.shared ∧ Alike sha256 s.secret t.secret)) := by
  refine ⟨fun s _ wire h => Sealing.encrypted_of_wire correct h, ?_⟩
  have mem {s : Sealing C} (hs : s ∈ sealings) {x : Bytes} (hx : x ∈ s.strings sha256) :
      x ∈ sealings.flatMap (Sealing.strings sha256) :=
    List.mem_flatMap.mpr ⟨s, hs, hx⟩
  apply List.Pairwise.iff_of_mem
  intro s t hs ht
  refine not_congr (Sealing.aeadKey_eq_iff hkdf fun x hx y hy => ?_)
  have inside (z : Bytes) (hz : z ∈ s.strings sha256 ++ t.strings sha256) :=
    (List.mem_append.mp hz).elim (mem hs) (mem ht)
  exact distinguishes x (inside x hx) y (inside y hy)

namespace Demo

/-- The input as a number to the base 257, in 32 digits to the base 256. -/
def numberDigest (m : Bytes) : Bytes :=
  (List.range 32).map fun i =>
    UInt8.ofNat (m.foldl (fun n b => 257 * n + b.toNat + 1) 0 / 256 ^ i)

theorem length_numberDigest (m : Bytes) : (numberDigest m).length = 32 := by
  rw [numberDigest, List.length_map, List.length_range]

theorem digest_fits : (32 : Nat) ≤ 64 := by decide

/-- A hash that reads its input as a number. -/
def numberHash : Hkdf.Hash 64 32 := ⟨numberDigest, length_numberDigest, digest_fits⟩

/-- The readable crates with HKDF over that hash, and KEM secrets of one byte. -/
def countingCrates : V2.Crates :=
  { Readable.crates with
    Prk := Bytes
    encapsulate := fun _ rng => (rng, rng.1.take 1)
    decapsulate := fun _ kem => kem.1.take 1
    extract := Hkdf.extract numberHash
    expand := fun prk info n =>
      (Hkdf.expand numberHash prk info n).elim (.error "InvalidLength") .ok }

theorem countingCrates_expand (prk : countingCrates.Prk) (info : Bytes) (n : Nat) :
    countingCrates.expand prk info n =
      (Hkdf.expand numberHash prk info n).elim (.error "InvalidLength") .ok := rfl

theorem countingCrates_correct : countingCrates.Correct where
  toBytes_length := Readable.correct.toBytes_length
  new_toBytes := Readable.correct.new_toBytes
  decapsulates _ _ := rfl
  expands := by
    intro prk info n hn
    obtain ⟨okm, hokm, hlen⟩ := Hkdf.exists_expand numberHash prk info hn
    refine ⟨okm, ?_, hlen⟩
    rw [countingCrates_expand, hokm]
    rfl
  encrypts := Readable.correct.encrypts
  decrypts := Readable.correct.decrypts

theorem countingCrates_rfc5869 : countingCrates.Rfc5869 numberHash := by
  intro salt ikm info n
  rw [countingCrates_expand]
  show _ = Hkdf.expand numberHash (countingCrates.extract salt ikm) info n
  cases Hkdf.expand numberHash (countingCrates.extract salt ikm) info n <;> rfl

theorem length_draws (b : UInt8) : (List.replicate 1120 b).length = 1120 := List.length_replicate

def sealing (b : UInt8) : Sealing countingCrates where
  ek := Readable.wallet.v2.2
  rng := ⟨List.replicate 1120 b, length_draws b⟩
  secret := [7]
  body := [8]

set_option maxRecDepth 20000 in
theorem sealings_distinguished :
    Distinguishes numberHash ([sealing 1, sealing 2].flatMap (Sealing.strings numberHash)) := by
  unfold Distinguishes
  decide +kernel

end Demo

/-- Two messages of one secret, encapsulated afresh. -/
theorem no_key_used_twice_two :
    (∃ wire, (Demo.sealing 1).wire = .ok wire ∧ ∃ key nonce ct,
      V2.derive Demo.countingCrates (Demo.sealing 1).shared [7] = .ok (key, nonce) ∧
        Demo.countingCrates.encrypt key nonce [8] = .ok ct ∧
        wire = (Demo.sealing 1).kem ++ ct) ∧
    [Demo.sealing 1, Demo.sealing 2].Pairwise (fun s t => s.aeadKey ≠ t.aeadKey) := by
  obtain ⟨encrypted, distinct⟩ := no_key_used_twice_iff Demo.countingCrates_correct
    Demo.countingCrates_rfc5869 [Demo.sealing 1, Demo.sealing 2] Demo.sealings_distinguished
  constructor
  · obtain ⟨wire, hwire, _⟩ := V2.exists_sealWire Demo.countingCrates_correct
      Readable.wallet.v2.1 (Demo.sealing 1).rng [7] [8]
    obtain ⟨key, nonce, ct, hderive, _, hct, hkem⟩ :=
      encrypted (Demo.sealing 1) List.mem_cons_self wire hwire
    exact ⟨wire, hwire, key, nonce, ct, hderive, hct, hkem⟩
  · apply distinct.mpr
    refine List.pairwise_pair.mpr ?_
    rintro ⟨hshared, _⟩
    exact absurd hshared (by decide +kernel)

end HpkeDemo.Upgrade
