import HpkeDemo.Text.Utf8

/-!
# What lossy decoding keeps

* `eq_ofString_of_lossy`: bytes that decode without a replacement character are those of the text;
* `lossy_determines_iff`: no other bytes decode to the text exactly if it has none.
-/
namespace Text

theorem utf8EncodeChar_head (c : Char) {rest bytes : Bytes} :
    String.utf8EncodeChar c ++ rest ≠ 0xFF :: bytes := by
  intro h
  have hval (n : Nat) (hn : n < 255) : UInt8.ofNat n ≠ 0xFF := by
    intro heq
    have := congrArg UInt8.toNat heq
    simp at this
    omega
  simp only [String.utf8EncodeChar] at h
  split at h
  · exact hval _ (by omega) (List.cons.inj h).1
  · split at h
    · exact hval _ (by omega) (List.cons.inj h).1
    · split at h
      · exact hval _ (by omega) (List.cons.inj h).1
      · exact hval _ (by omega) (List.cons.inj h).1

theorem eq_append_of_decode {b : Bytes} {c : Char}
    (h : b.toByteArray.utf8DecodeChar? 0 = some c) :
    b = String.utf8EncodeChar c ++ b.drop c.utf8Size := by
  obtain ⟨l, hl⟩ := ByteArray.exists_of_utf8DecodeChar?_eq_some h
  have hbytes : b = String.utf8EncodeChar c ++ l.data.toList := by
    have := congrArg (fun b => b.data.toList) hl
    simpa using this
  have hdrop : (String.utf8EncodeChar c ++ l.data.toList).drop c.utf8Size = l.data.toList :=
    List.drop_left' (String.length_utf8EncodeChar c)
  rw [← hbytes] at hdrop
  rwa [hdrop]

/-- No character starts with this byte. -/
theorem decode_ff (rest : Bytes) : (0xFF :: rest : Bytes).toByteArray.utf8DecodeChar? 0 = none := by
  by_contra h
  obtain ⟨c, hc⟩ := Option.ne_none_iff_exists'.mp h
  exact utf8EncodeChar_head c (eq_append_of_decode hc).symm

theorem lossyChars_ff (fuel : Nat) (rest : Bytes) :
    lossyChars (fuel + 1) (0xFF :: rest) = '\uFFFD' :: lossyChars fuel rest := by
  have hbroken : brokenLength (0xFF :: rest) = 1 := by
    cases rest with
    | nil => rfl
    | cons b rest => simp [brokenLength, secondOk]
  rw [lossyChars, decode_ff, hbroken]
  · rfl
  · rintro ⟨⟩

/-- The characters of a text are decoded before what follows it. -/
theorem exists_lossyChars_append (cs : List Char) (rest : Bytes) (fuel : Nat)
    (h : (cs.flatMap String.utf8EncodeChar ++ rest).length ≤ fuel) :
    ∃ fuel', rest.length ≤ fuel' ∧
      lossyChars fuel (cs.flatMap String.utf8EncodeChar ++ rest) = cs ++ lossyChars fuel' rest := by
  induction cs generalizing fuel with
  | nil => exact ⟨fuel, h, rfl⟩
  | cons c cs ih =>
    have hc := c.utf8Size_pos
    rw [List.flatMap_cons, List.append_assoc] at h ⊢
    rw [List.length_append, String.length_utf8EncodeChar] at h
    obtain ⟨fuel, rfl⟩ : ∃ n, fuel = n + 1 := ⟨fuel - 1, by omega⟩
    obtain ⟨fuel', hfuel', htail⟩ := ih fuel (by omega)
    refine ⟨fuel', hfuel', ?_⟩
    have decodes : ByteArray.utf8DecodeChar? (String.utf8EncodeChar c ++
        (cs.flatMap String.utf8EncodeChar ++ rest)).toByteArray 0 = some c := by
      rw [List.toByteArray_append]
      exact ByteArray.utf8DecodeChar?_utf8EncodeChar_append
    rw [lossyChars, decodes]
    · simp only [List.drop_left' (String.length_utf8EncodeChar c), htail, List.cons_append]
    · intro hnil
      have hlen := congrArg List.length hnil
      simp only [List.length_append, String.length_utf8EncodeChar, List.length_nil] at hlen
      omega

theorem eq_encode_of_lossyChars (fuel : Nat) (b : Bytes) (hfuel : b.length ≤ fuel)
    (h : '\uFFFD' ∉ lossyChars fuel b) :
    b = (lossyChars fuel b).flatMap String.utf8EncodeChar := by
  induction fuel generalizing b with
  | zero =>
    rw [List.length_eq_zero_iff.mp (Nat.le_zero.mp hfuel)]
    rfl
  | succ fuel ih =>
    by_cases hb : b = []
    · rw [hb]
      rfl
    · rw [lossyChars] at h ⊢
      · cases hdecode : b.toByteArray.utf8DecodeChar? 0 with
        | none => simp [hdecode] at h
        | some c =>
          simp only [hdecode, List.mem_cons, not_or] at h ⊢
          have hsplit := eq_append_of_decode hdecode
          have hlen : (b.drop c.utf8Size).length ≤ fuel := by
            have hc := c.utf8Size_pos
            rw [List.length_drop]
            omega
          rw [List.flatMap_cons, ← ih _ hlen h.2]
          exact hsplit
      · exact hb
      · exact hb

theorem eq_ofString_of_lossy {b : Bytes} (h : '\uFFFD' ∉ (fromUtf8Lossy b).toList) :
    b = Bytes.ofString (fromUtf8Lossy b) := by
  rw [fromUtf8Lossy, String.toList_ofList] at h
  rw [fromUtf8Lossy, Bytes.ofString, String.toList_ofList]
  exact eq_encode_of_lossyChars _ b (Nat.le_refl _) h

/-- One byte that breaks off a text decodes to its replacement character. -/
theorem fromUtf8Lossy_broken (before after : List Char) :
    fromUtf8Lossy (before.flatMap String.utf8EncodeChar ++
      0xFF :: after.flatMap String.utf8EncodeChar) =
        String.ofList (before ++ '\uFFFD' :: after) := by
  obtain ⟨fuel, hfuel, hbefore⟩ := exists_lossyChars_append before
    (0xFF :: after.flatMap String.utf8EncodeChar) _ (Nat.le_refl _)
  rw [List.length_cons] at hfuel
  obtain ⟨fuel, rfl⟩ : ∃ n, fuel = n + 1 := ⟨fuel - 1, by omega⟩
  rw [fromUtf8Lossy, hbefore, lossyChars_ff, lossyChars_encode _ _ (by omega)]

/-- Bytes are determined by the text they decode to exactly if nothing in it was replaced, or
could have been. -/
theorem lossy_determines_iff (b : Bytes) :
    (∀ b', fromUtf8Lossy b' = fromUtf8Lossy b → b' = b) ↔
      '\uFFFD' ∉ (fromUtf8Lossy b).toList := by
  constructor
  · intro h hmem
    have hown : Bytes.ofString (fromUtf8Lossy b) = b := h _ (fromUtf8Lossy_ofString _)
    obtain ⟨before, after, htext⟩ := List.append_of_mem hmem
    have hbroken : before.flatMap String.utf8EncodeChar ++
        0xFF :: after.flatMap String.utf8EncodeChar = b := by
      apply h
      rw [fromUtf8Lossy_broken, ← htext, String.ofList_toList]
    rw [Bytes.ofString, htext, ← hbroken, List.flatMap_append, List.flatMap_cons] at hown
    have hlen := congrArg List.length (List.append_cancel_left hown)
    have hthree : (String.utf8EncodeChar '\uFFFD').length = 3 := rfl
    rw [List.length_append, List.length_cons, hthree] at hlen
    omega
  · intro h b' heq
    have h' : '\uFFFD' ∉ (fromUtf8Lossy b').toList := heq ▸ h
    rw [eq_ofString_of_lossy h', heq, ← eq_ofString_of_lossy h]

end Text
