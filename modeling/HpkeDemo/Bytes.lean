import Mathlib.Algebra.Group.Nat.Defs
import Mathlib.Data.List.Basic

/-! Byte strings, and the big-endian bytes of a 64-bit word. -/

abbrev Bytes := List UInt8

namespace Bytes

/-- `str::as_bytes`. -/
def ofString (s : String) : Bytes := s.toList.flatMap String.utf8EncodeChar

/-- `u64::to_be_bytes`. -/
def ofU64 (x : UInt64) : Bytes :=
  (List.range 8).map fun i => UInt8.ofNat (x.toNat / 256 ^ (7 - i))

/-- `u64::from_be_bytes`, read from however many bytes are given. -/
def toU64 (b : Bytes) : UInt64 := UInt64.ofNat (b.foldl (fun acc x => acc * 256 + x.toNat) 0)

/-- The last `n` big-endian bytes of `x`. -/
def digits : Nat → Nat → Bytes
  | 0, _ => []
  | n + 1, x => UInt8.ofNat (x / 256 ^ n) :: digits n x

/-- The number that `acc` becomes when the bytes of `b` are read after it. -/
def number (acc : Nat) (b : Bytes) : Nat := b.foldl (fun acc x => acc * 256 + x.toNat) acc

theorem number_cons (acc : Nat) (x : UInt8) (b : Bytes) :
    number acc (x :: b) = number (acc * 256 + x.toNat) b := rfl

theorem ofU64_eq_digits (x : UInt64) : ofU64 x = digits 8 x.toNat := rfl

theorem toU64_eq_number (b : Bytes) : toU64 b = UInt64.ofNat (number 0 b) := rfl

theorem number_digits (acc n x : Nat) :
    number acc (digits n x) = acc * 256 ^ n + x % 256 ^ n := by
  induction n generalizing acc with
  | zero => simp [digits, number, Nat.mod_one]
  | succ n ih =>
    have hbyte : (UInt8.ofNat (x / 256 ^ n)).toNat = x / 256 ^ n % 256 := UInt8.toNat_ofNat'
    have hmod : x % 256 ^ (n + 1) = x % 256 ^ n + 256 ^ n * (x / 256 ^ n % 256) := Nat.mod_pow_succ
    calc number acc (digits (n + 1) x)
        = (acc * 256 + x / 256 ^ n % 256) * 256 ^ n + x % 256 ^ n := by
          rw [digits, number_cons, ih, hbyte]
      _ = acc * 256 ^ (n + 1) + x % 256 ^ (n + 1) := by
          rw [hmod, Nat.pow_succ', Nat.add_mul, Nat.mul_assoc, Nat.mul_comm (x / 256 ^ n % 256)]
          omega

/-- What stands before the bytes read stays above them. -/
theorem number_div (acc : Nat) (b : Bytes) : number acc b / 256 ^ b.length = acc := by
  induction b generalizing acc with
  | nil => simp [number]
  | cons x b ih =>
    have hx := x.toNat_lt
    rw [number_cons, List.length_cons, Nat.pow_succ, ← Nat.div_div_eq_div_mul, ih]
    omega

theorem digits_number (acc : Nat) (b : Bytes) : digits b.length (number acc b) = b := by
  induction b generalizing acc with
  | nil => rfl
  | cons x b ih =>
    have hx := x.toNat_lt
    have hhead : UInt8.ofNat (acc * 256 + x.toNat) = x := by
      apply UInt8.toNat_inj.mp
      rw [UInt8.toNat_ofNat']
      omega
    rw [List.length_cons, digits, number_cons, number_div, ih, hhead]

theorem number_lt (b : Bytes) : number 0 b < 256 ^ b.length := by
  have h := number_div 0 b
  exact (Nat.div_eq_zero_iff_lt (Nat.pow_pos (by omega))).mp h

@[simp] theorem length_ofU64 (x : UInt64) : (ofU64 x).length = 8 := by simp [ofU64]

@[simp] theorem toU64_ofU64 (x : UInt64) : toU64 (ofU64 x) = x := by
  have hx : x.toNat < 256 ^ 8 := x.toNat_lt
  rw [toU64_eq_number, ofU64_eq_digits, number_digits, Nat.zero_mul, Nat.zero_add,
    Nat.mod_eq_of_lt hx, UInt64.ofNat_toNat]

theorem ofU64_toU64 {b : Bytes} (h : b.length = 8) : ofU64 (toU64 b) = b := by
  have hlt : number 0 b < 2 ^ 64 := by
    have hb := number_lt b
    rwa [h] at hb
  have hread : (toU64 b).toNat = number 0 b := by
    rw [toU64_eq_number, UInt64.toNat_ofNat', Nat.mod_eq_of_lt hlt]
  rw [ofU64_eq_digits, hread, ← h, digits_number]

end Bytes
