import HpkeDemo.Bytes

/-! `String::from_utf8_lossy`: characters are decoded, and each longest prefix of a
character that its next byte breaks off becomes one replacement character. -/
namespace Text

/-- The second bytes that may follow a first byte of a long character. -/
def secondOk (b0 b1 : UInt8) : Bool :=
  if b0 = 0xE0 then 0xA0 ≤ b1 && b1 ≤ 0xBF
  else if b0 = 0xED then 0x80 ≤ b1 && b1 ≤ 0x9F
  else if b0 = 0xF0 then 0x90 ≤ b1 && b1 ≤ 0xBF
  else if b0 = 0xF4 then 0x80 ≤ b1 && b1 ≤ 0x8F
  else 0xE1 ≤ b0 && b0 ≤ 0xF3 && 0x80 ≤ b1 && b1 ≤ 0xBF

/-- Length of the broken piece that starts bytes which start with no character. -/
def brokenLength : Bytes → Nat
  | b0 :: b1 :: rest =>
    if !secondOk b0 b1 then 1
    else if b0 < 0xF0 then 2
    else match rest with
      | b2 :: _ => if 0x80 ≤ b2 && b2 ≤ 0xBF then 3 else 2
      | [] => 2
  | _ => 1

def lossyChars : Nat → Bytes → List Char
  | 0, _ => []
  | _, [] => []
  | fuel + 1, b =>
    match b.toByteArray.utf8DecodeChar? 0 with
    | some c => c :: lossyChars fuel (b.drop c.utf8Size)
    | none => '\uFFFD' :: lossyChars fuel (b.drop (brokenLength b))

def fromUtf8Lossy (b : Bytes) : String := String.ofList (lossyChars b.length b)

theorem lossyChars_encode (cs : List Char) (fuel : Nat)
    (h : (cs.flatMap String.utf8EncodeChar).length ≤ fuel) :
    lossyChars fuel (cs.flatMap String.utf8EncodeChar) = cs := by
  induction cs generalizing fuel with
  | nil => cases fuel <;> rfl
  | cons c cs ih =>
    have hc := c.utf8Size_pos
    rw [List.flatMap_cons] at h ⊢
    simp only [List.length_append, String.length_utf8EncodeChar] at h
    obtain ⟨fuel, rfl⟩ : ∃ n, fuel = n + 1 := ⟨fuel - 1, by omega⟩
    have decodes : ByteArray.utf8DecodeChar?
        (String.utf8EncodeChar c ++ cs.flatMap String.utf8EncodeChar).toByteArray 0 = some c := by
      rw [List.toByteArray_append]
      exact ByteArray.utf8DecodeChar?_utf8EncodeChar_append
    have dropped : (String.utf8EncodeChar c ++ cs.flatMap String.utf8EncodeChar).drop c.utf8Size =
        cs.flatMap String.utf8EncodeChar := List.drop_left' (String.length_utf8EncodeChar c)
    rw [lossyChars, decodes]
    · simp only [dropped, ih fuel (by omega)]
    · intro hnil
      have hlen := congrArg List.length hnil
      simp only [List.length_append, String.length_utf8EncodeChar, List.length_nil] at hlen
      omega

@[simp] theorem fromUtf8Lossy_ofString (s : String) : fromUtf8Lossy (Bytes.ofString s) = s := by
  rw [fromUtf8Lossy, Bytes.ofString, lossyChars_encode _ _ (Nat.le_refl _), String.ofList_toList]

end Text
