import HpkeDemo.Connect.LowerHex
import HpkeDemo.Hpke

/-! `mod hex` of `bwc_post_quantum_upgrade.rs`. It slices the text two bytes at a time, so
it panics where a slice would cut a character, and it reads a slice as `u8::from_str_radix`
does. -/
namespace HpkeDemo.Upgrade.Hex
open Connect (hexDigits lowerHex)

def HEX : List Char := "0123456789abcdef".toList

def encode (bytes : Bytes) : String :=
  String.ofList (bytes.flatMap fun b =>
    [HEX.getD (b.toNat >>> 4) '?', HEX.getD (b.toNat &&& 0x0f) '?'])

/-- `str::len`. -/
def len (s : String) : Nat := (Bytes.ofString s).length

/-- What follows the first `n` bytes, if a character starts there. -/
def dropBytes : Nat → List Char → Option (List Char)
  | 0, cs => some cs
  | _ + 1, [] => none
  | n + 1, c :: cs =>
    if c.utf8Size ≤ n + 1 then dropBytes (n + 1 - c.utf8Size) cs else none

/-- The first `n` bytes, if a character ends there. -/
def takeBytes : Nat → List Char → Option (List Char)
  | 0, _ => some []
  | _ + 1, [] => none
  | n + 1, c :: cs =>
    if c.utf8Size ≤ n + 1 then (takeBytes (n + 1 - c.utf8Size) cs).map (c :: ·) else none

/-- `&s[i..j]`. -/
def slice (s : String) (i j : Nat) : Except Failure String :=
  match (dropBytes i s.toList).bind (takeBytes (j - i)) with
  | some cs => .ok (String.ofList cs)
  | none => .error (.panic ⟨"byte index is not a char boundary"⟩)

/-- `char::to_digit(16)`. -/
def toDigit (c : Char) : Option Nat :=
  if '0' ≤ c ∧ c ≤ '9' then some (c.toNat - '0'.toNat)
  else if 'a' ≤ c ∧ c ≤ 'f' then some (c.toNat - 'a'.toNat + 10)
  else if 'A' ≤ c ∧ c ≤ 'F' then some (c.toNat - 'A'.toNat + 10)
  else none

/-- One more digit of a `u8`. -/
def readDigit (acc : Nat) (c : Char) : Except String Nat :=
  match toDigit c with
  | none => .error "invalid digit found in string"
  | some d =>
    if acc * 16 + d < 256 then .ok (acc * 16 + d)
    else .error "number too large to fit in target type"

def readDigits (digits : List Char) : Except String UInt8 :=
  (digits.foldlM readDigit 0).map UInt8.ofNat

/-- `u8::from_str_radix(s, 16)`; a leading plus sign is skipped. -/
def fromStrRadix (s : String) : Except String UInt8 :=
  match s.toList with
  | [] => .error "cannot parse integer from empty string"
  | ['+'] | ['-'] => .error "invalid digit found in string"
  | '+' :: digits => readDigits digits
  | digits => readDigits digits

/-- The byte read at index `i`. -/
def byteAt (s : String) (i : Nat) : Except Failure UInt8 := do
  let digits ← slice s i (i + 2)
  (fromStrRadix digits).mapError fun e => .err ("bad hex: " ++ e)

def decode (s : String) : Except Failure Bytes :=
  if len s % 2 ≠ 0 then .error (.err "odd-length hex")
  else (List.range' 0 (len s / 2) 2).mapM (byteAt s)

theorem hex_digit : ∀ n < 16, HEX.getD n '?' = Nat.digitChar n := by decide

/-- Both codecs write the same lowercase digits. -/
theorem encode_eq (bytes : Bytes) : encode bytes = lowerHex.encode bytes := by
  have digits (b : UInt8) :
      [HEX.getD (b.toNat >>> 4) '?', HEX.getD (b.toNat &&& 0x0f) '?'] = hexDigits b := by
    have hb := b.toNat_lt
    have high : b.toNat >>> 4 = b.toNat / 16 := Nat.shiftRight_eq_div_pow b.toNat 4
    have low : b.toNat &&& 0x0f = b.toNat % 16 := Nat.and_two_pow_sub_one_eq_mod b.toNat 4
    rw [high, low, hex_digit _ (by omega), hex_digit _ (by omega), hexDigits]
  simp only [encode, lowerHex, digits]

end HpkeDemo.Upgrade.Hex
