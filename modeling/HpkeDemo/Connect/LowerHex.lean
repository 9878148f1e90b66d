import HpkeDemo.Connect.ConnString

/-! Lowercase hex as a concrete codec, and that it is a lawful one. -/
namespace HpkeDemo.Connect

def hexDigits (b : UInt8) : List Char :=
  [Nat.digitChar (b.toNat / 16), Nat.digitChar (b.toNat % 16)]

def hexValue (c : Char) : Option Nat := (List.range 16).find? fun n => Nat.digitChar n = c

def unhex : List Char → Except String Bytes
  | [] => .ok []
  | [_] => .error "OddLength"
  | hi :: lo :: rest =>
    match hexValue hi, hexValue lo with
    | some h, some l => (unhex rest).map (UInt8.ofNat (h * 16 + l) :: ·)
    | _, _ => .error "InvalidCharacter"

def lowerHex : HexCodec where
  encode b := String.ofList (b.flatMap hexDigits)
  decode s := unhex s.toList

theorem digitChar_mem : ∀ n < 16, Nat.digitChar n ∈ "0123456789abcdef".toList := by decide

theorem hexValue_digitChar : ∀ n < 16, hexValue (Nat.digitChar n) = some n := by decide

theorem unhex_hexDigits (b : Bytes) : unhex (b.flatMap hexDigits) = .ok b := by
  induction b with
  | nil => rfl
  | cons x xs ih =>
    have hx := x.toNat_lt
    have value : x.toNat / 16 * 16 + x.toNat % 16 = x.toNat := by omega
    simp [hexDigits, unhex, hexValue_digitChar (x.toNat / 16) (by omega),
      hexValue_digitChar (x.toNat % 16) (by omega), ih, Except.map, value]

theorem lowerHex_lawful : lowerHex.Lawful where
  decode_encode b := by simpa [lowerHex] using unhex_hexDigits b
  digits b c hc := by
    obtain ⟨x, _, hx⟩ := List.mem_flatMap.mp (by simpa [lowerHex] using hc)
    have hlt := x.toNat_lt
    simp only [hexDigits, List.mem_cons, List.not_mem_nil, or_false] at hx
    rcases hx with rfl | rfl
    · exact digitChar_mem _ (by omega)
    · exact digitChar_mem _ (by omega)

end HpkeDemo.Connect
