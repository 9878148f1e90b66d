import HpkeDemo.Upgrade.Conn

/-! Where the example's hex codec is exact. A plus sign may stand for the first digit of a
pair, and a slice that cuts a character panics, in `decode` and in `ParsedConn::parse`. -/
namespace HpkeDemo.Upgrade
open Text

namespace Hex
open Connect (hexDigits)

/-- Pairs of hex digits. -/
def HexText (s : String) : Prop := s.toList.length % 2 = 0 ∧ ∀ c ∈ s.toList, HexDigit c

/-- Pairs of a hex digit or a plus sign, and a hex digit. -/
inductive NumberText : List Char → Prop
  | nil : NumberText []
  | pair {hi lo : Char} {rest : List Char} (high : HexDigit hi ∨ hi = '+') (low : HexDigit lo)
      (tail : NumberText rest) : NumberText (hi :: lo :: rest)

/-- Behind such pairs, the next two bytes end within a character. -/
inductive CutText : List Char → Prop
  | wide {c : Char} {rest : List Char} (first : 3 ≤ c.utf8Size) : CutText (c :: rest)
  | second {c d : Char} {rest : List Char} (first : c.utf8Size = 1) (wide : 2 ≤ d.utf8Size) :
      CutText (c :: d :: rest)
  | pair {hi lo : Char} {rest : List Char} (high : HexDigit hi ∨ hi = '+') (low : HexDigit lo)
      (tail : CutText rest) : CutText (hi :: lo :: rest)

/-- What the codec promises of one text: no panic, and hex digits in pairs, as written in
lower case, or an error. -/
structure ExactAt (s : String) : Prop where
  noPanic : ∀ panic, decode s ≠ .error (.panic panic)
  accepts : (∃ b, decode s = .ok b) ↔ HexText s
  lowercase : ∀ b, decode s = .ok b → encode b = s.toLower
  rejects : ¬ HexText s → ∃ message, decode s = .error (.err message)

section texts
variable {hi lo : Char} {cs rest : List Char}

theorem utf8Size_of_high (h : HexDigit hi ∨ hi = '+') : hi.utf8Size = 1 := by
  rcases h with h | rfl
  · exact utf8Size_of_hexDigit h
  · rfl

theorem numberText_pair_iff : NumberText (hi :: lo :: rest) ↔
    ((HexDigit hi ∨ hi = '+') ∧ HexDigit lo) ∧ NumberText rest := by
  constructor
  · rintro (_ | ⟨high, low, tail⟩)
    exact ⟨⟨high, low⟩, tail⟩
  · rintro ⟨⟨high, low⟩, tail⟩
    exact .pair high low tail

theorem cutText_pair_iff (hhi : hi.utf8Size = 1) (hlo : lo.utf8Size = 1) :
    CutText (hi :: lo :: rest) ↔ ((HexDigit hi ∨ hi = '+') ∧ HexDigit lo) ∧ CutText rest := by
  constructor
  · rintro (wide | ⟨_, wide⟩ | ⟨high, low, tail⟩)
    · omega
    · omega
    · exact ⟨⟨high, low⟩, tail⟩
  · rintro ⟨⟨high, low⟩, tail⟩
    exact .pair high low tail

theorem exists_readPair_iff : (∃ b, readPair hi lo = .ok b) ↔
    (HexDigit hi ∨ hi = '+') ∧ HexDigit lo := by
  rw [← exists_fromStrRadix_iff, readPair]
  cases fromStrRadix (String.ofList [hi, lo]) <;> simp [Except.mapError]

/-- The loop ends exactly if every pair is a number. -/
theorem exists_readPairs_iff : (∃ bytes, readPairs cs = .ok bytes) ↔ NumberText cs := by
  induction cs using readPairs.induct with
  | case1 => exact iff_of_true ⟨[], rfl⟩ .nil
  | case2 c hc =>
    rw [readPairs, if_pos hc]
    exact iff_of_false (by simp) (fun h => by cases h)
  | case3 c hc =>
    rw [readPairs, if_neg hc]
    exact iff_of_false (by simp) (fun h => by cases h)
  | case4 hi lo rest hhi =>
    rw [readPairs, if_pos hhi, numberText_pair_iff]
    refine iff_of_false (by simp) ?_
    rintro ⟨⟨high, _⟩, _⟩
    rw [utf8Size_of_high high] at hhi
    cases hhi
  | case5 hi lo rest hhi hone ih =>
    rw [readPairs, if_neg hhi, if_pos hone, numberText_pair_iff, ← exists_readPair_iff, ← ih]
    cases readPair hi lo with
    | error e => exact iff_of_false (by simp [bind, Except.bind]) (by simp)
    | ok b => cases readPairs rest <;> simp [bind, Except.bind, pure, Except.pure]
  | case6 hi lo rest hhi hone =>
    rw [readPairs, if_neg hhi, if_neg hone, numberText_pair_iff]
    refine iff_of_false (by simp) ?_
    rintro ⟨⟨high, low⟩, _⟩
    exact hone ⟨utf8Size_of_high high, utf8Size_of_hexDigit low⟩

/-- The loop panics exactly if it comes to a slice that cuts a character. -/
theorem exists_panic_iff (heven : size cs % 2 = 0) :
    (∃ panic, readPairs cs = .error (.panic panic)) ↔ CutText cs := by
  induction cs using readPairs.induct with
  | case1 => exact iff_of_false (by simp [readPairs]) (fun h => by cases h)
  | case2 c hc =>
    rw [readPairs, if_pos hc]
    refine iff_of_false (by simp [badDigit]) ?_
    rintro (wide | _ | _)
    omega
  | case3 c hc =>
    have := c.utf8Size_pos
    rw [size_cons, size_nil] at heven
    rw [readPairs, if_neg hc]
    exact iff_of_true ⟨_, rfl⟩ (.wide (by omega))
  | case4 hi lo rest hhi =>
    rw [readPairs, if_pos hhi]
    refine iff_of_false (by simp [badDigit]) ?_
    rintro (wide | ⟨narrow, _⟩ | ⟨high, _, _⟩)
    · omega
    · omega
    · rw [utf8Size_of_high high] at hhi
      cases hhi
  | case5 hi lo rest hhi hone ih =>
    have hrest := ih (by rw [size_cons, size_cons, hone.1, hone.2] at heven; omega)
    rw [readPairs, if_neg hhi, if_pos hone, cutText_pair_iff hone.1 hone.2, ← exists_readPair_iff,
      ← hrest]
    cases hpair : readPair hi lo with
    | error e =>
      obtain ⟨message, rfl⟩ := readPair_error hpair
      exact iff_of_false (by simp [bind, Except.bind]) (by simp)
    | ok b => cases readPairs rest <;> simp [bind, Except.bind, pure, Except.pure]
  | case6 hi lo rest hhi hone =>
    rw [readPairs, if_neg hhi, if_neg hone]
    refine iff_of_true ⟨_, rfl⟩ ?_
    have := hi.utf8Size_pos
    have := lo.utf8Size_pos
    by_cases hnarrow : hi.utf8Size = 1
    · have hlo : lo.utf8Size ≠ 1 := fun h => hone ⟨hnarrow, h⟩
      exact .second hnarrow (by omega)
    · exact .wide (by omega)

/-- What is read without a plus sign is written as the text in lower case. -/
theorem flatMap_hexDigits_of_readPairs {bytes : Bytes} (h : NumberText cs) (hplus : '+' ∉ cs)
    (hread : readPairs cs = .ok bytes) : bytes.flatMap hexDigits = cs.map Char.toLower := by
  induction h generalizing bytes with
  | nil =>
    obtain rfl := Except.ok.inj hread
    rfl
  | @pair hi lo rest high low tail ih =>
    have hhi : HexDigit hi := high.resolve_right fun h => hplus (h ▸ List.mem_cons_self)
    have hone : hi.utf8Size = 1 ∧ lo.utf8Size = 1 :=
      ⟨utf8Size_of_hexDigit hhi, utf8Size_of_hexDigit low⟩
    obtain ⟨b, hb⟩ := exists_fromStrRadix_iff.mpr ⟨high, low⟩
    obtain ⟨tailBytes, htail⟩ := exists_readPairs_iff.mpr tail
    rw [readPairs, if_neg (by omega), if_pos hone, readPair, hb, htail] at hread
    obtain rfl : b :: tailBytes = bytes := Except.ok.inj hread
    have hrest := ih (fun h => hplus (List.mem_cons_of_mem _ (List.mem_cons_of_mem _ h))) htail
    rw [List.flatMap_cons, hexDigits_of_fromStrRadix hhi low hb, hrest]
    rfl

theorem numberText_of_hexDigits : ∀ {cs : List Char}, cs.length % 2 = 0 →
    (∀ c ∈ cs, HexDigit c) → NumberText cs
  | [], _, _ => .nil
  | [_], heven, _ => by simp at heven
  | hi :: lo :: rest, heven, hdigits => by
    obtain ⟨hhi, hdigits⟩ := List.forall_mem_cons.mp hdigits
    obtain ⟨hlo, hdigits⟩ := List.forall_mem_cons.mp hdigits
    have hrest : rest.length % 2 = 0 := by
      rw [List.length_cons, List.length_cons] at heven
      omega
    exact .pair (Or.inl hhi) hlo (numberText_of_hexDigits hrest hdigits)

theorem NumberText.size_even (h : NumberText cs) : size cs % 2 = 0 := by
  induction h with
  | nil => rfl
  | pair high low _ ih =>
    rw [size_cons, size_cons, utf8Size_of_high high, utf8Size_of_hexDigit low]
    omega

theorem NumberText.hexDigits (h : NumberText cs) (hplus : '+' ∉ cs) :
    cs.length % 2 = 0 ∧ ∀ c ∈ cs, HexDigit c := by
  induction h with
  | nil => exact ⟨rfl, by simp⟩
  | @pair hi lo rest high low _ ih =>
    obtain ⟨heven, hdigits⟩ :=
      ih fun h => hplus (List.mem_cons_of_mem _ (List.mem_cons_of_mem _ h))
    have hhi : HexDigit hi := high.resolve_right fun h => hplus (h ▸ List.mem_cons_self)
    refine ⟨by rw [List.length_cons, List.length_cons]; omega, ?_⟩
    exact List.forall_mem_cons.mpr ⟨hhi, List.forall_mem_cons.mpr ⟨low, hdigits⟩⟩

end texts

theorem hexText_iff {s : String} : HexText s ↔ NumberText s.toList ∧ '+' ∉ s.toList := by
  constructor
  · rintro ⟨heven, hdigits⟩
    exact ⟨numberText_of_hexDigits heven hdigits, fun h => not_hexDigit_plus (hdigits _ h)⟩
  · rintro ⟨hnumber, hplus⟩
    exact hnumber.hexDigits hplus

/-- A slice of the text cuts a character. -/
def Cut (s : String) : Prop := len s % 2 = 0 ∧ CutText s.toList

theorem exists_decode_iff {s : String} : (∃ b, decode s = .ok b) ↔ NumberText s.toList := by
  by_cases heven : len s % 2 = 0
  · rw [decode_eq_readPairs heven, exists_readPairs_iff]
  · rw [decode_odd heven]
    exact iff_of_false (by simp) (fun h => heven h.size_even)

theorem exists_decode_panic_iff {s : String} :
    (∃ panic, decode s = .error (.panic panic)) ↔ Cut s := by
  by_cases heven : len s % 2 = 0
  · rw [decode_eq_readPairs heven, exists_panic_iff heven, Cut, and_iff_right heven]
  · rw [decode_odd heven]
    exact iff_of_false (by simp) (fun h => heven h.1)

theorem encode_of_decode {s : String} {b : Bytes} (hplus : '+' ∉ s.toList)
    (h : decode s = .ok b) : encode b = s.toLower := by
  have hnumber := exists_decode_iff.mp ⟨b, h⟩
  rw [decode_eq_readPairs hnumber.size_even] at h
  have hwritten := flatMap_hexDigits_of_readPairs hnumber hplus h
  rw [encode_eq]
  show String.ofList (b.flatMap hexDigits) = s.map Char.toLower
  rw [hwritten, ← String.toList_map, String.ofList_toList]

/-- The codec is exact but on numbers with a plus sign and on texts that it cuts. -/
theorem exactAt_iff {s : String} : ExactAt s ↔
    ¬ (NumberText s.toList ∧ '+' ∈ s.toList) ∧ ¬ Cut s := by
  constructor
  · rintro ⟨noPanic, accepts, _, _⟩
    constructor
    · rintro ⟨hnumber, hplus⟩
      have hhex := accepts.mp (exists_decode_iff.mpr hnumber)
      exact (hexText_iff.mp hhex).2 hplus
    · intro hcut
      obtain ⟨panic, h⟩ := exists_decode_panic_iff.mpr hcut
      exact noPanic panic h
  · rintro ⟨hsigned, hcut⟩
    have noPanic : ∀ panic, decode s ≠ .error (.panic panic) := by
      intro panic h
      exact hcut (exists_decode_panic_iff.mp ⟨panic, h⟩)
    have accepts : (∃ b, decode s = .ok b) ↔ HexText s := by
      rw [exists_decode_iff, hexText_iff, iff_self_and]
      intro hnumber hplus
      exact hsigned ⟨hnumber, hplus⟩
    refine ⟨noPanic, accepts, ?_, ?_⟩
    · intro b h
      exact encode_of_decode (hexText_iff.mp (accepts.mp ⟨b, h⟩)).2 h
    · intro hno
      cases h : decode s with
      | ok b => exact absurd (accepts.mp ⟨b, h⟩) hno
      | error failure =>
        cases failure with
        | panic panic => exact absurd h (noPanic panic)
        | err message => exact ⟨message, rfl⟩

end Hex

/-- A param that `parse`'s loop goes past. -/
def Passes (piece : String) : Prop :=
  ∃ key val, splitOnce '=' piece = some (key, val) ∧ (key = "v" → val = "1" ∨ val = "2") ∧
    (key = "wallet_pk" ∨ key = "secret" → Hex.NumberText val.toList)

/-- A wallet key or secret that is cut. -/
def CutParam (piece : String) : Prop :=
  ∃ key val, splitOnce '=' piece = some (key, val) ∧ (key = "wallet_pk" ∨ key = "secret") ∧
    Hex.Cut val

/-- Behind params that the loop goes past stands one that is cut. -/
inductive CutQuery : List String → Prop
  | here {piece : String} {rest : List String} (cut : CutParam piece) : CutQuery (piece :: rest)
  | past {piece : String} {rest : List String} (passes : Passes piece) (tail : CutQuery rest) :
      CutQuery (piece :: rest)

def CutUri (uri : String) : Prop :=
  ∃ rest relay query, stripPrefix "bwc://" uri = some rest ∧
    splitOnce '?' rest = some (relay, query) ∧ CutQuery (split '&' query)

namespace ParsedConn
variable {slots : Slots} {piece uri : String} {pieces : List String}

theorem exists_map_iff {α β : Type} {x : Except Failure α} {f : α → β} :
    (∃ b, x.map f = .ok b) ↔ ∃ a, x = .ok a := by
  cases x <;> simp [Except.map]

theorem exists_map_panic_iff {α β : Type} {x : Except Failure α} {f : α → β} :
    (∃ panic, x.map f = .error (.panic panic)) ↔ ∃ panic, x = .error (.panic panic) := by
  cases x <;> simp [Except.map]

theorem exists_version_iff {val : String} :
    (∃ v, (Version.parse val).mapError Failure.err = .ok v) ↔ val = "1" ∨ val = "2" := by
  by_cases h1 : val = "1"
  · subst h1
    exact iff_of_true ⟨.V1, rfl⟩ (Or.inl rfl)
  by_cases h2 : val = "2"
  · subst h2
    exact iff_of_true ⟨.V2, rfl⟩ (Or.inr rfl)
  rw [parse_unsupported h1 h2]
  exact iff_of_false (by simp) (by simp [h1, h2])

/-- A turn goes on exactly with the params that pass, whatever the slots. -/
theorem exists_turn_iff : (∃ slots', slots.turn piece = .ok slots') ↔ Passes piece := by
  cases hcut : splitOnce '=' piece with
  | none => simp [Slots.turn, Passes, hcut]
  | some kv =>
    obtain ⟨key, val⟩ := kv
    have hpasses : Passes piece ↔ (key = "v" → val = "1" ∨ val = "2") ∧
        (key = "wallet_pk" ∨ key = "secret" → Hex.NumberText val.toList) := by
      simp [Passes, hcut]
    rw [hpasses]
    simp only [Slots.turn, hcut]
    split
    · rw [exists_map_iff, exists_version_iff]
      simp
    · rw [exists_map_iff, Hex.exists_decode_iff]
      simp
    · rw [exists_map_iff, Hex.exists_decode_iff]
      simp
    · next hv hw hs =>
      exact iff_of_true ⟨_, rfl⟩ ⟨fun h => absurd h hv, fun h => absurd h (not_or.mpr ⟨hw, hs⟩)⟩

/-- It panics exactly with the params that are cut. -/
theorem exists_turn_panic_iff :
    (∃ panic, slots.turn piece = .error (.panic panic)) ↔ CutParam piece := by
  cases hcut : splitOnce '=' piece with
  | none => simp [Slots.turn, CutParam, hcut]
  | some kv =>
    obtain ⟨key, val⟩ := kv
    have hparam : CutParam piece ↔ (key = "wallet_pk" ∨ key = "secret") ∧ Hex.Cut val := by
      simp [CutParam, hcut]
    rw [hparam]
    simp only [Slots.turn, hcut]
    split
    · rw [exists_map_panic_iff]
      cases Version.parse val <;> simp [Except.mapError]
    · rw [exists_map_panic_iff, Hex.exists_decode_panic_iff]
      simp
    · rw [exists_map_panic_iff, Hex.exists_decode_panic_iff]
      simp
    · next hv hw hs =>
      exact iff_of_false (by simp) fun h => not_or.mpr ⟨hw, hs⟩ h.1

theorem exists_loop_panic_iff (slots : Slots) :
    (∃ panic, pieces.foldlM Slots.turn slots = .error (.panic panic)) ↔ CutQuery pieces := by
  induction pieces generalizing slots with
  | nil => exact iff_of_false (by simp [pure, Except.pure]) (fun h => by cases h)
  | cons piece rest ih =>
    have hok : (∃ slots', slots.turn piece = .ok slots') ↔ Passes piece := exists_turn_iff
    have hpanic : (∃ panic, slots.turn piece = .error (.panic panic)) ↔ CutParam piece :=
      exists_turn_panic_iff
    rw [List.foldlM_cons]
    cases hturn : slots.turn piece with
    | ok slots' =>
      rw [hturn] at hok hpanic
      have passes : Passes piece := hok.mp ⟨slots', rfl⟩
      have uncut : ¬ CutParam piece := fun h => by
        obtain ⟨_, h⟩ := hpanic.mpr h
        cases h
      refine (ih slots').trans ⟨.past passes, ?_⟩
      rintro (cut | ⟨_, tail⟩)
      · exact absurd cut uncut
      · exact tail
    | error failure =>
      rw [hturn] at hok hpanic
      have stops : ¬ Passes piece := fun h => by
        obtain ⟨_, h⟩ := hok.mpr h
        cases h
      refine hpanic.trans ⟨.here, ?_⟩
      rintro (cut | ⟨passes, _⟩)
      · exact cut
      · exact absurd passes stops

theorem build_ne_panic {relay : String} (panic : Panic) :
    slots.build relay ≠ .error (.panic panic) := by
  unfold Slots.build
  cases slots.version <;> cases slots.walletPk <;> cases slots.secret <;>
    simp [bind, Except.bind, pure, Except.pure]

theorem exists_parse_panic_iff :
    (∃ panic, parse uri = .error (.panic panic)) ↔ CutUri uri := by
  unfold parse
  cases hrest : stripPrefix "bwc://" uri with
  | none => simp [CutUri, hrest, bind, Except.bind]
  | some rest =>
    cases hquery : splitOnce '?' rest with
    | none => simp [CutUri, hrest, hquery, bind, Except.bind]
    | some cut =>
      obtain ⟨relay, query⟩ := cut
      have huri : CutUri uri ↔ CutQuery (split '&' query) := by
        simp [CutUri, hrest, hquery]
      simp only [Option.elim_some, bind, Except.bind, hquery]
      rw [huri, ← exists_loop_panic_iff {}]
      cases (split '&' query).foldlM Slots.turn {} with
      | error failure => simp only [Except.error.injEq]
      | ok slots =>
        refine iff_of_false ?_ (by simp)
        rintro ⟨panic, h⟩
        exact build_ne_panic panic h

end ParsedConn

/-- **Where the codec is exact, and the parser does not panic.** The codec: everywhere but
on numbers with a plus sign, which it reads, and on texts that it cuts. The parser: on
every string in which no wallet key or secret that its loop comes to is cut. -/
theorem hex_codec_exact_iff (s uri : String) :
    (Hex.ExactAt s ↔ ¬ (Hex.NumberText s.toList ∧ '+' ∈ s.toList) ∧ ¬ Hex.Cut s) ∧
    ((∀ panic, ParsedConn.parse uri ≠ .error (.panic panic)) ↔ ¬ CutUri uri) := by
  constructor
  · exact Hex.exactAt_iff
  · rw [← ParsedConn.exists_parse_panic_iff, not_exists]

/-- A sign is read as a digit, and a character of two bytes is cut, also in a string. -/
theorem hex_codec_inexact :
    ¬ Hex.ExactAt "+5" ∧ ¬ Hex.ExactAt "aéa" ∧
      ¬ ∀ uri panic, ParsedConn.parse uri ≠ .error (.panic panic) := by
  have hsigned : Hex.decode "+5" = .ok [5] := by decide +kernel
  have hcut : Hex.decode "aéa" = .error Hex.notBoundary := by decide +kernel
  have hparse : ParsedConn.parse "bwc://r?secret=aéa" = .error Hex.notBoundary := by
    decide +kernel
  refine ⟨?_, ?_, ?_⟩
  · intro h
    have hhex := h.accepts.mp ⟨_, hsigned⟩
    have hplus : '+' ∈ "+5".toList := by decide
    exact (Hex.hexText_iff.mp hhex).2 hplus
  · intro h
    exact h.noPanic _ hcut
  · intro noPanic
    exact noPanic _ _ hparse

end HpkeDemo.Upgrade
