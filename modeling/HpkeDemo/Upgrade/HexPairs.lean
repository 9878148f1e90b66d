import HpkeDemo.Upgrade.Hex

/-! `hex::decode` over the characters of its text: which pairs it reads as numbers, which
slices cut a character, that it reads what is encoded, and what it fails with. -/
namespace HpkeDemo.Upgrade.Hex
open Connect (hexDigits lowerHex)

def HexDigit (c : Char) : Prop :=
  ('0' ≤ c ∧ c ≤ '9') ∨ ('a' ≤ c ∧ c ≤ 'f') ∨ ('A' ≤ c ∧ c ≤ 'F')

/-- Bytes of a list of characters. -/
def size (cs : List Char) : Nat := (cs.flatMap String.utf8EncodeChar).length

@[simp] theorem size_nil : size [] = 0 := rfl

@[simp] theorem size_cons (c : Char) (cs : List Char) : size (c :: cs) = c.utf8Size + size cs := by
  simp [size]

theorem size_append (cs ds : List Char) : size (cs ++ ds) = size cs + size ds := by
  simp [size]

theorem dropBytes_size (before after : List Char) :
    dropBytes (size before) (before ++ after) = some after := by
  induction before with
  | nil => cases after <;> rfl
  | cons c before ih =>
    obtain ⟨n, hn⟩ : ∃ n, size (c :: before) = n + 1 :=
      ⟨c.utf8Size - 1 + size before, by have := c.utf8Size_pos; rw [size_cons]; omega⟩
    have hle : c.utf8Size ≤ n + 1 := by rw [← hn, size_cons]; omega
    have hrest : n + 1 - c.utf8Size = size before := by rw [← hn, size_cons]; omega
    rw [hn, List.cons_append, dropBytes, if_pos hle, hrest, ih]

/-- The two bytes behind `before`. -/
theorem slice_of_take {before after cs : List Char} (h : takeBytes 2 after = some cs) :
    slice (String.ofList (before ++ after)) (size before) (size before + 2) =
      .ok (String.ofList cs) := by
  rw [slice, String.toList_ofList, dropBytes_size, Option.bind_some, Nat.add_sub_cancel_left, h]

theorem slice_of_cut {before after : List Char} (h : takeBytes 2 after = none) :
    slice (String.ofList (before ++ after)) (size before) (size before + 2) =
      .error (.panic ⟨"byte index is not a char boundary"⟩) := by
  rw [slice, String.toList_ofList, dropBytes_size, Option.bind_some, Nat.add_sub_cancel_left, h]

section digits
variable {c hi lo : Char} {d h l : Nat}

theorem toDigit_eq_some : ∀ n < 128, ∀ d ∈ toDigit (Char.ofNat n),
    d < 16 ∧ Nat.digitChar d = (Char.ofNat n).toLower := by decide +kernel

theorem toDigit_isSome_iff : (toDigit c).isSome ↔ HexDigit c := by
  unfold toDigit HexDigit
  split
  · simp [*]
  split
  · simp [*]
  split <;> simp [*]

theorem toNat_lt_of_hexDigit (h : HexDigit c) : c.toNat < 128 := by
  simp only [HexDigit, Char.le_def, UInt32.le_iff_toNat_le, Char.toNat_val] at h
  have h9 : '9'.toNat = 57 := rfl
  have hf : 'f'.toNat = 102 := rfl
  have hF : 'F'.toNat = 70 := rfl
  omega

theorem utf8Size_of_hexDigit (h : HexDigit c) : c.utf8Size = 1 := by
  have hlt := toNat_lt_of_hexDigit h
  have h127 : (127 : UInt32).toNat = 127 := rfl
  rw [Char.utf8Size_eq_one_iff, UInt32.le_iff_toNat_le, Char.toNat_val, h127]
  omega

theorem exists_digit (hc : HexDigit c) :
    ∃ d, toDigit c = some d ∧ d < 16 ∧ Nat.digitChar d = c.toLower := by
  obtain ⟨d, hd⟩ := Option.isSome_iff_exists.mp (toDigit_isSome_iff.mpr hc)
  have hread := toDigit_eq_some c.toNat (toNat_lt_of_hexDigit hc) d
  rw [Char.ofNat_toNat] at hread
  exact ⟨d, hd, hread hd⟩

theorem toDigit_eq_none (hc : ¬ HexDigit c) : toDigit c = none := by
  rw [← toDigit_isSome_iff, Bool.not_eq_true, Option.isSome_eq_false_iff] at hc
  exact Option.isNone_iff_eq_none.mp hc

theorem readDigits_of_not_hexDigit {rest : List Char} (hc : ¬ HexDigit c) :
    readDigits (c :: rest) = .error "invalid digit found in string" := by
  rw [readDigits, List.foldlM_cons, readDigit, toDigit_eq_none hc]
  rfl

theorem readDigit_of_digit {acc : Nat} (hd : toDigit c = some d) (hfits : acc * 16 + d < 256) :
    readDigit acc c = .ok (acc * 16 + d) := by
  simp only [readDigit, hd, if_pos hfits]

/-- Up to two digits fit, whatever they are. -/
theorem exists_foldlM_readDigit_iff {cs : List Char} {acc k : Nat} (hacc : acc < 16 ^ k)
    (hlen : k + cs.length ≤ 2) :
    (∃ n, cs.foldlM readDigit acc = .ok n) ↔ ∀ c ∈ cs, HexDigit c := by
  induction cs generalizing acc k with
  | nil => simp [pure, Except.pure]
  | cons c cs ih =>
    rw [List.length_cons] at hlen
    rw [List.foldlM_cons, List.forall_mem_cons]
    by_cases hc : HexDigit c
    · obtain ⟨d, hd, hlt, _⟩ := exists_digit hc
      have hnext : acc * 16 + d < 16 ^ (k + 1) := by
        rw [Nat.pow_succ]
        omega
      have hmax : 16 ^ (k + 1) ≤ 16 ^ 2 := Nat.pow_le_pow_right (by decide) (by omega)
      rw [readDigit_of_digit hd (by omega), and_iff_right hc]
      exact ih hnext (by omega)
    · rw [readDigit, toDigit_eq_none hc]
      exact iff_of_false (by simp [bind, Except.bind]) (by simp [hc])

theorem exists_readDigits_iff {cs : List Char} (hlen : cs.length ≤ 2) :
    (∃ b, readDigits cs = .ok b) ↔ ∀ c ∈ cs, HexDigit c := by
  have hzero : 0 < 16 ^ 0 := by decide
  rw [← exists_foldlM_readDigit_iff hzero (by omega), readDigits]
  cases cs.foldlM readDigit 0 <;> simp [Except.map]

theorem readDigits_two (hh : toDigit hi = some h) (hhlt : h < 16) (hl : toDigit lo = some l)
    (hllt : l < 16) : readDigits [hi, lo] = .ok (UInt8.ofNat (h * 16 + l)) := by
  rw [readDigits, List.foldlM_cons, readDigit_of_digit hh (by omega), Nat.zero_mul, Nat.zero_add]
  show ([lo].foldlM readDigit h).map UInt8.ofNat = _
  rw [List.foldlM_cons, readDigit_of_digit hl (by omega)]
  rfl

theorem fromStrRadix_plus (lo : Char) :
    fromStrRadix (String.ofList ['+', lo]) = readDigits [lo] := by
  rw [fromStrRadix, String.toList_ofList]
  rfl

theorem fromStrRadix_pair (hplus : hi ≠ '+') :
    fromStrRadix (String.ofList [hi, lo]) = readDigits [hi, lo] := by
  rw [fromStrRadix, String.toList_ofList]
  split
  · next h => cases h
  · next h => cases h
  · next h => cases h
  · next h => exact absurd (List.cons.inj h).1 hplus
  · rfl

theorem not_hexDigit_plus : ¬ HexDigit '+' := by
  unfold HexDigit
  decide

/-- Which pairs are read as a number. -/
theorem exists_fromStrRadix_iff : (∃ b, fromStrRadix (String.ofList [hi, lo]) = .ok b) ↔
    (HexDigit hi ∨ hi = '+') ∧ HexDigit lo := by
  by_cases hplus : hi = '+'
  · subst hplus
    rw [fromStrRadix_plus, exists_readDigits_iff (by simp : [lo].length ≤ 2)]
    simp
  · rw [fromStrRadix_pair hplus, exists_readDigits_iff (by simp : [hi, lo].length ≤ 2)]
    simp [hplus]

/-- The byte of two hex digits is written with the same digits. -/
theorem hexDigits_of_fromStrRadix {b : UInt8} (hhi : HexDigit hi) (hlo : HexDigit lo)
    (hread : fromStrRadix (String.ofList [hi, lo]) = .ok b) :
    hexDigits b = [hi.toLower, lo.toLower] := by
  obtain ⟨h, hh, hhlt, hhigh⟩ := exists_digit hhi
  obtain ⟨l, hl, hllt, hlow⟩ := exists_digit hlo
  have hplus : hi ≠ '+' := by
    rintro rfl
    exact not_hexDigit_plus hhi
  rw [fromStrRadix_pair hplus, readDigits_two hh hhlt hl hllt] at hread
  obtain rfl := Except.ok.inj hread
  have hvalue : (UInt8.ofNat (h * 16 + l)).toNat = h * 16 + l := by
    rw [UInt8.toNat_ofNat']
    omega
  have hdiv : (h * 16 + l) / 16 = h := by omega
  have hmod : (h * 16 + l) % 16 = l := by omega
  rw [hexDigits, hvalue, hdiv, hmod, hhigh, hlow]

end digits

/-- The error of a slice that is no number. -/
def badDigit : Failure := .err ("bad hex: " ++ "invalid digit found in string")

def notBoundary : Failure := .panic ⟨"byte index is not a char boundary"⟩

/-- The byte that a pair of characters stands for. -/
def readPair (hi lo : Char) : Except Failure UInt8 :=
  (fromStrRadix (String.ofList [hi, lo])).mapError fun e => .err ("bad hex: " ++ e)

/-- The loop of `decode` over the characters themselves. -/
def readPairs : List Char → Except Failure Bytes
  | [] => .ok []
  | [c] => if c.utf8Size = 2 then .error badDigit else .error notBoundary
  | hi :: lo :: rest =>
    if hi.utf8Size = 2 then .error badDigit
    else if hi.utf8Size = 1 ∧ lo.utf8Size = 1 then do
      let b ← readPair hi lo
      let bytes ← readPairs rest
      return b :: bytes
    else .error notBoundary

section slices
variable {before after cs : List Char} {c d : Char}

theorem takeBytes_two (hc : c.utf8Size = 2) : takeBytes 2 (c :: cs) = some [c] := by
  simp [takeBytes, hc]

theorem takeBytes_pair (hc : c.utf8Size = 1) (hd : d.utf8Size = 1) :
    takeBytes 2 (c :: d :: cs) = some [c, d] := by
  simp [takeBytes, hc, hd]

theorem takeBytes_wide (hc : 2 < c.utf8Size) : takeBytes 2 (c :: cs) = none := by
  rw [takeBytes, if_neg (by omega)]

theorem takeBytes_second (hc : c.utf8Size = 1) (hd : d.utf8Size ≠ 1) :
    takeBytes 2 (c :: d :: cs) = none := by
  have := d.utf8Size_pos
  have hlt : ¬ d.utf8Size ≤ 1 := by omega
  simp [takeBytes, hc, hlt]

theorem byteAt_of_take (h : takeBytes 2 after = some cs) :
    byteAt (String.ofList (before ++ after)) (size before) =
      (fromStrRadix (String.ofList cs)).mapError fun e => .err ("bad hex: " ++ e) := by
  rw [byteAt, slice_of_take h]
  rfl

theorem byteAt_of_cut (h : takeBytes 2 after = none) :
    byteAt (String.ofList (before ++ after)) (size before) = .error notBoundary := by
  rw [byteAt, slice_of_cut h]
  rfl

/-- A character of two bytes is no digit. -/
theorem fromStrRadix_two (hc : c.utf8Size = 2) :
    fromStrRadix (String.ofList [c]) = .error "invalid digit found in string" := by
  have hdigit : ¬ HexDigit c := by
    intro h
    have hlt := toNat_lt_of_hexDigit h
    have hgt := (Char.utf8Size_eq_two_iff.mp hc).1
    rw [UInt32.lt_iff_toNat_lt, Char.toNat_val] at hgt
    have h127 : (127 : UInt32).toNat = 127 := rfl
    omega
  rw [fromStrRadix, String.toList_ofList]
  split
  · next h => cases h
  · rfl
  · rfl
  · next hne heq => exact (hne (List.cons.inj heq).2.symm).elim
  · exact readDigits_of_not_hexDigit hdigit

theorem byteAt_of_two (hc : c.utf8Size = 2) :
    byteAt (String.ofList (before ++ c :: cs)) (size before) = .error badDigit := by
  rw [byteAt_of_take (takeBytes_two hc), fromStrRadix_two hc]
  rfl

theorem exists_half (heven : size (c :: cs) % 2 = 0) : ∃ k, size (c :: cs) / 2 = k + 1 := by
  have := c.utf8Size_pos
  rw [size_cons] at heven ⊢
  exact ⟨(c.utf8Size + size cs) / 2 - 1, by omega⟩

/-- The loop stops at the first slice that fails. -/
theorem mapM_of_error {failure : Failure} (heven : size (c :: cs) % 2 = 0)
    (h : byteAt (String.ofList (before ++ c :: cs)) (size before) = .error failure) :
    (List.range' (size before) (size (c :: cs) / 2) 2).mapM
      (byteAt (String.ofList (before ++ c :: cs))) = .error failure := by
  obtain ⟨k, hk⟩ := exists_half heven
  rw [hk, List.range'_succ, List.mapM_cons, h]
  rfl

end slices

/-- `decode` reads a text of even length pair by pair. -/
theorem mapM_byteAt_chars (before after : List Char) (heven : size after % 2 = 0) :
    (List.range' (size before) (size after / 2) 2).mapM
      (byteAt (String.ofList (before ++ after))) = readPairs after := by
  induction after using readPairs.induct generalizing before with
  | case1 => rfl
  | case2 c hc =>
    rw [readPairs, if_pos hc]
    exact mapM_of_error heven (byteAt_of_two hc)
  | case3 c hc =>
    have hwide : 2 < c.utf8Size := by
      have := c.utf8Size_pos
      rw [size_cons, size_nil] at heven
      omega
    rw [readPairs, if_neg hc]
    exact mapM_of_error heven (byteAt_of_cut (takeBytes_wide hwide))
  | case4 hi lo rest hhi =>
    rw [readPairs, if_pos hhi]
    exact mapM_of_error heven (byteAt_of_two hhi)
  | case5 hi lo rest hhi hone ih =>
    have hsize : size (hi :: lo :: rest) = size rest + 2 := by
      rw [size_cons, size_cons, hone.1, hone.2]
      omega
    have hpast : size before + 2 = size (before ++ [hi, lo]) := by
      simp [size, hone.1, hone.2]
    have happend : before ++ hi :: lo :: rest = (before ++ [hi, lo]) ++ rest := by simp
    have hrest := ih (before ++ [hi, lo]) (by omega)
    rw [readPairs, if_neg hhi, if_pos hone, hsize, Nat.add_div_right _ (by omega),
      List.range'_succ, List.mapM_cons, byteAt_of_take (takeBytes_pair hone.1 hone.2), hpast,
      happend, hrest]
    rfl
  | case6 hi lo rest hhi hone =>
    have hcut : takeBytes 2 (hi :: lo :: rest) = none := by
      by_cases hnarrow : hi.utf8Size = 1
      · exact takeBytes_second hnarrow fun hlo => hone ⟨hnarrow, hlo⟩
      · have := hi.utf8Size_pos
        exact takeBytes_wide (by omega)
    rw [readPairs, if_neg hhi, if_neg hone]
    exact mapM_of_error heven (byteAt_of_cut hcut)

theorem decode_eq_readPairs {s : String} (heven : len s % 2 = 0) :
    decode s = readPairs s.toList := by
  have h := mapM_byteAt_chars [] s.toList heven
  rw [List.nil_append, String.ofList_toList] at h
  rw [decode, if_neg (by omega)]
  exact h

theorem decode_odd {s : String} (hodd : len s % 2 ≠ 0) :
    decode s = .error (.err "odd-length hex") := by
  rw [decode, if_pos hodd]

theorem utf8Size_digit : ∀ n < 16, (Nat.digitChar n).utf8Size = 1 := by decide

theorem toDigit_digitChar : ∀ n < 16, toDigit (Nat.digitChar n) = some n := by decide

theorem digitChar_ne_plus : ∀ n < 16, Nat.digitChar n ≠ '+' := by decide

theorem size_hexDigits (bytes : Bytes) : size (bytes.flatMap hexDigits) = 2 * bytes.length := by
  induction bytes with
  | nil => rfl
  | cons b bytes ih =>
    have hlt := b.toNat_lt
    rw [List.flatMap_cons, size_append, ih, hexDigits, size_cons, size_cons, size_nil,
      utf8Size_digit _ (by omega), utf8Size_digit _ (by omega), List.length_cons]
    omega

theorem readPair_hexDigits (b : UInt8) :
    readPair (Nat.digitChar (b.toNat / 16)) (Nat.digitChar (b.toNat % 16)) = .ok b := by
  have hlt := b.toNat_lt
  have hvalue : b.toNat / 16 * 16 + b.toNat % 16 = b.toNat := by omega
  have hhigh : b.toNat / 16 < 16 := by omega
  have hlow : b.toNat % 16 < 16 := by omega
  rw [readPair, fromStrRadix_pair (digitChar_ne_plus _ hhigh), readDigits_two
    (toDigit_digitChar _ hhigh) hhigh (toDigit_digitChar _ hlow) hlow, hvalue, UInt8.ofNat_toNat]
  rfl

theorem readPairs_hexDigits (bytes : Bytes) : readPairs (bytes.flatMap hexDigits) = .ok bytes := by
  induction bytes with
  | nil => rfl
  | cons b bytes ih =>
    have hlt := b.toNat_lt
    have hhi : (Nat.digitChar (b.toNat / 16)).utf8Size = 1 := utf8Size_digit _ (by omega)
    have hlo : (Nat.digitChar (b.toNat % 16)).utf8Size = 1 := utf8Size_digit _ (by omega)
    rw [List.flatMap_cons, hexDigits, List.cons_append, List.cons_append, List.nil_append,
      readPairs, if_neg (by omega), if_pos ⟨hhi, hlo⟩, readPair_hexDigits, ih]
    rfl

theorem decode_encode (bytes : Bytes) : decode (lowerHex.encode bytes) = .ok bytes := by
  have hchars : (lowerHex.encode bytes).toList = bytes.flatMap hexDigits := by
    rw [lowerHex, String.toList_ofList]
  have hlen : len (lowerHex.encode bytes) = 2 * bytes.length := by
    rw [len, Bytes.ofString, hchars]
    exact size_hexDigits bytes
  rw [decode_eq_readPairs (by omega), hchars, readPairs_hexDigits]

theorem readPair_error {hi lo : Char} {failure : Failure} (h : readPair hi lo = .error failure) :
    ∃ e, failure = .err ("bad hex: " ++ e) := by
  unfold readPair at h
  cases hread : fromStrRadix (String.ofList [hi, lo]) with
  | ok b =>
    rw [hread] at h
    cases h
  | error e =>
    rw [hread] at h
    exact ⟨e, (Except.error.inj h).symm⟩

theorem readPairs_error {cs : List Char} {failure : Failure} (h : readPairs cs = .error failure) :
    failure = notBoundary ∨ ∃ e, failure = .err ("bad hex: " ++ e) := by
  induction cs using readPairs.induct with
  | case1 => cases h
  | case2 c hc =>
    rw [readPairs, if_pos hc] at h
    exact Or.inr ⟨_, (Except.error.inj h).symm⟩
  | case3 c hc =>
    rw [readPairs, if_neg hc] at h
    exact Or.inl (Except.error.inj h).symm
  | case4 hi lo rest hhi =>
    rw [readPairs, if_pos hhi] at h
    exact Or.inr ⟨_, (Except.error.inj h).symm⟩
  | case5 hi lo rest hhi hone ih =>
    rw [readPairs, if_neg hhi, if_pos hone] at h
    cases hpair : readPair hi lo with
    | error e =>
      rw [hpair] at h
      obtain rfl := Except.error.inj h
      exact Or.inr (readPair_error hpair)
    | ok b =>
      cases hrest : readPairs rest with
      | error e =>
        rw [hpair, hrest] at h
        obtain rfl := Except.error.inj h
        exact ih hrest
      | ok bytes =>
        rw [hpair, hrest] at h
        cases h
  | case6 hi lo rest hhi hone =>
    rw [readPairs, if_neg hhi, if_neg hone] at h
    exact Or.inl (Except.error.inj h).symm

/-- What `decode` fails with. -/
theorem decode_failure {s : String} {failure : Failure} (h : decode s = .error failure) :
    failure = notBoundary ∨ failure = .err "odd-length hex" ∨
      ∃ e, failure = .err ("bad hex: " ++ e) := by
  by_cases heven : len s % 2 = 0
  · rw [decode_eq_readPairs heven] at h
    rcases readPairs_error h with hcut | hbad
    · exact Or.inl hcut
    · exact Or.inr (Or.inr hbad)
  · rw [decode_odd heven] at h
    exact Or.inr (Or.inl (Except.error.inj h).symm)

end HpkeDemo.Upgrade.Hex
