import HpkeDemo.Text.Search
import HpkeDemo.Upgrade.Readable

/-! `display::abbreviate` of `bwc_post_quantum_upgrade.rs`, which shortens the wallet key of a
connection string for the console. -/
namespace HpkeDemo.Upgrade
open Text
open Connect (lowerHex lowerHex_lawful)

namespace Display

/-- The value at the front of `rest`, and what follows it from its `&` on. -/
def value (rest : String) : String × String :=
  match splitOnce '&' rest with
  | some (val, more) => (val, "&" ++ more)
  | none => (rest, "")

def abbreviate (conn : String) : Except Failure String :=
  match splitText "wallet_pk=" conn with
  | none => .ok conn
  | some (before, rest) =>
    let (val, tail) := value rest
    if Hex.len val ≤ 24 then .ok conn
    else do
      let head ← Hex.slice val 0 16
      return before ++ "wallet_pk=" ++ head ++ "…(" ++ toString (Hex.len val) ++ " hex chars)" ++
        tail

/-- `conn` around the value of its first `wallet_pk=`. -/
structure Field (conn before val tail : String) : Prop where
  text : conn = before ++ "wallet_pk=" ++ (val ++ tail)
  first : Clear "wallet_pk=".toList before.toList ("wallet_pk=" ++ (val ++ tail)).toList
  free : Free '&' val
  tail : tail = "" ∨ ∃ more, tail = "&" ++ more

theorem value_eq_iff {rest val tail : String} : value rest = (val, tail) ↔
    rest = val ++ tail ∧ Free '&' val ∧ (tail = "" ∨ ∃ more, tail = "&" ++ more) := by
  unfold value
  cases hcut : splitOnce '&' rest with
  | none =>
    have hfree := splitOnce_eq_none_iff.mp hcut
    simp only [Prod.mk.injEq]
    constructor
    · rintro ⟨rfl, rfl⟩
      exact ⟨by simp, hfree, Or.inl rfl⟩
    · rintro ⟨rfl, _, rfl | ⟨more, rfl⟩⟩
      · simp
      · rw [free_append, free_append] at hfree
        exact absurd hfree.2.1 (by decide)
  | some cut =>
    obtain ⟨a, b⟩ := cut
    obtain ⟨hfree, rfl⟩ := splitOnce_eq_some_iff.mp hcut
    simp only [Prod.mk.injEq]
    constructor
    · rintro ⟨rfl, rfl⟩
      exact ⟨String.append_assoc, hfree, Or.inr ⟨b, rfl⟩⟩
    · rintro ⟨heq, hval, rfl | ⟨more, rfl⟩⟩
      · rw [String.append_empty] at heq
        rw [← heq, free_append, free_append] at hval
        exact absurd hval.1.2 (by decide)
      · rw [← String.append_assoc] at heq
        have hcut' := splitOnce_append hval more
        rw [show val ++ String.singleton '&' ++ more = val ++ "&" ++ more from rfl, ← heq,
          splitOnce_append hfree] at hcut'
        obtain ⟨rfl, rfl⟩ := Prod.mk.inj (Option.some.inj hcut')
        exact ⟨rfl, rfl⟩

theorem field_iff {conn before val tail : String} : Field conn before val tail ↔
    ∃ rest, splitText "wallet_pk=" conn = some (before, rest) ∧ value rest = (val, tail) := by
  simp only [splitText_eq_some_iff, value_eq_iff]
  constructor
  · intro h
    exact ⟨val ++ tail, ⟨h.text, h.first⟩, rfl, h.free, h.tail⟩
  · rintro ⟨_, ⟨htext, hfirst⟩, rfl, hfree, htail⟩
    exact ⟨htext, hfirst, hfree, htail⟩

theorem takeBytes_eq_some_iff {n : Nat} {cs front : List Char} :
    Hex.takeBytes n cs = some front ↔ ∃ rest, cs = front ++ rest ∧ Hex.size front = n := by
  induction cs generalizing n front with
  | nil =>
    cases n with
    | zero => cases front <;> simp [Hex.takeBytes]
    | succ n => cases front <;> simp [Hex.takeBytes]
  | cons c cs ih =>
    cases n with
    | zero =>
      cases front with
      | nil => simp [Hex.takeBytes]
      | cons d front =>
        have hpos := d.utf8Size_pos
        simp only [Hex.takeBytes, Hex.size_cons, Option.some.injEq, reduceCtorEq, false_iff]
        rintro ⟨_, _, hsize⟩
        omega
    | succ n =>
      rw [Hex.takeBytes]
      by_cases hle : c.utf8Size ≤ n + 1
      · rw [if_pos hle, Option.map_eq_some_iff]
        simp only [ih]
        constructor
        · rintro ⟨front, ⟨rest, rfl, hsize⟩, rfl⟩
          exact ⟨rest, rfl, by rw [Hex.size_cons]; omega⟩
        · rintro ⟨rest, heq, hsize⟩
          cases front with
          | nil => cases hsize
          | cons d front =>
            obtain ⟨rfl, rfl⟩ := List.cons.inj heq
            rw [Hex.size_cons] at hsize
            exact ⟨front, ⟨rest, rfl, by omega⟩, rfl⟩
      · rw [if_neg hle]
        refine iff_of_false (by simp) ?_
        rintro ⟨rest, heq, hsize⟩
        cases front with
        | nil => cases hsize
        | cons d front =>
          obtain ⟨rfl, rfl⟩ := List.cons.inj heq
          rw [Hex.size_cons] at hsize
          omega

theorem slice_front_iff {s front : String} {n : Nat} :
    Hex.slice s 0 n = .ok front ↔ ∃ rest, s = front ++ rest ∧ Hex.len front = n := by
  have htake : Hex.slice s 0 n = .ok front ↔
      Hex.takeBytes n s.toList = some front.toList := by
    rw [Hex.slice, Hex.dropBytes, Option.bind_some, Nat.sub_zero]
    cases h : Hex.takeBytes n s.toList with
    | none => simp
    | some cs =>
      simp only [Except.ok.injEq, Option.some.injEq]
      constructor
      · rintro rfl
        simp
      · rintro rfl
        simp
  rw [htake, takeBytes_eq_some_iff]
  constructor
  · rintro ⟨rest, hs, hsize⟩
    exact ⟨String.ofList rest, String.toList_injective (by simpa using hs), hsize⟩
  · rintro ⟨rest, rfl, hlen⟩
    exact ⟨rest.toList, by simp, hlen⟩

theorem slice_front_panic {s : String} {n : Nat}
    (h : ¬ ∃ front rest, s = front ++ rest ∧ Hex.len front = n) :
    Hex.slice s 0 n = .error (.panic ⟨"byte index is not a char boundary"⟩) := by
  cases hslice : Hex.slice s 0 n with
  | ok front =>
    obtain ⟨rest, hs⟩ := slice_front_iff.mp hslice
    exact absurd ⟨front, rest, hs⟩ h
  | error failure =>
    unfold Hex.slice at hslice
    split at hslice
    · cases hslice
    · rw [← hslice]

theorem abbreviate_of_field {conn before val tail : String} (h : Field conn before val tail) :
    abbreviate conn = if Hex.len val ≤ 24 then .ok conn else
      (Hex.slice val 0 16).map fun front =>
        before ++ "wallet_pk=" ++ front ++ "…(" ++ toString (Hex.len val) ++ " hex chars)" ++
          tail := by
  obtain ⟨rest, hcut, hvalue⟩ := field_iff.mp h
  simp only [abbreviate, hcut, hvalue]
  split
  · rfl
  · cases Hex.slice val 0 16 <;> rfl

/-- **What is abbreviated.** A string is printed as it is if it has no `wallet_pk=`, or a value
of at most 24 bytes behind the first one. A longer value is cut to its first 16 bytes and its
length, with all around it left as it is; and if these 16 bytes end within a character, the
console output panics. -/
theorem abbreviate_exact (conn : String) :
    (¬ "wallet_pk=".toList <:+: conn.toList → abbreviate conn = .ok conn) ∧
    ("wallet_pk=".toList <:+: conn.toList → ∃ before val tail, Field conn before val tail) ∧
    ∀ before val tail, Field conn before val tail →
      (Hex.len val ≤ 24 → abbreviate conn = .ok conn) ∧
      (24 < Hex.len val → ∀ front rest, val = front ++ rest → Hex.len front = 16 →
        abbreviate conn = .ok (before ++ "wallet_pk=" ++ front ++ "…(" ++
          toString (Hex.len val) ++ " hex chars)" ++ tail)) ∧
      (24 < Hex.len val → (¬ ∃ front rest, val = front ++ rest ∧ Hex.len front = 16) →
        abbreviate conn = .error (.panic ⟨"byte index is not a char boundary"⟩)) := by
  refine ⟨fun hnone => ?_, fun hsome => ?_, fun before val tail hfield => ⟨?_, ?_, ?_⟩⟩
  · rw [← splitText_eq_none_iff] at hnone
    simp only [abbreviate, hnone]
  · cases hcut : splitText "wallet_pk=" conn with
    | none => exact absurd hsome (splitText_eq_none_iff.mp hcut)
    | some cut => exact ⟨cut.1, _, _, field_iff.mpr ⟨cut.2, hcut, rfl⟩⟩
  · intro hshort
    rw [abbreviate_of_field hfield, if_pos hshort]
  · intro hlong front rest hval hfront
    rw [abbreviate_of_field hfield, if_neg (Nat.not_le.mpr hlong),
      slice_front_iff.mpr ⟨rest, hval, hfront⟩]
    rfl
  · intro hlong hcut
    rw [abbreviate_of_field hfield, if_neg (Nat.not_le.mpr hlong), slice_front_panic hcut]
    rfl

end Display

section minted
variable {H : Hpke} {C : V2.Crates} (wallet : Wallet H C) (version : Version) {relay : String}
  (secret : Bytes)

theorem Hex.len_encode (bytes : Bytes) : Hex.len (Hex.encode bytes) = 2 * bytes.length := by
  rw [Hex.encode_eq, ← Hex.size_hexDigits]
  simp [Hex.len, Bytes.ofString, Hex.size, Connect.lowerHex]

theorem Hex.len_append (s t : String) : Hex.len (s ++ t) = Hex.len s + Hex.len t := by
  simp [Hex.len, Bytes.ofString]

theorem Hex.encode_append (a b : Bytes) : Hex.encode (a ++ b) = Hex.encode a ++ Hex.encode b := by
  simp [Hex.encode]

theorem free_encode {d : Char} (h : d ∉ "0123456789abcdef".toList) (bytes : Bytes) :
    Free d (Hex.encode bytes) := by
  rw [Hex.encode_eq]
  exact fun hd => h (lowerHex_lawful.digits bytes d hd)

def versionDigit : Version → Char
  | .V1 => '1'
  | .V2 => '2'

/-- A minted string up to its wallet key. -/
def preamble (relay : String) (version : Version) : String :=
  "bwc://" ++ relay ++ "?v=" ++ toString version.asU8 ++ "&"

theorem connectionString_split : wallet.connectionString version relay secret =
    preamble relay version ++ "wallet_pk=" ++
      (Hex.encode (wallet.keyBytes version) ++ ("&secret=" ++ Hex.encode secret)) := by
  unfold Wallet.connectionString preamble Wallet.keyBytes
  apply String.toList_injective
  cases version <;> simp only [String.toList_append, List.append_assoc] <;> rfl

theorem toString_asU8 : toString version.asU8 = String.singleton (versionDigit version) := by
  cases version <;> decide +kernel

theorem toList_preamble : (preamble relay version).toList =
    "bwc://".toList ++ (relay.toList ++ '?' :: ['v', '=', versionDigit version, '&']) := by
  simp [preamble, toString_asU8]

theorem minted_field (hrelay : ¬ "wallet_pk=".toList <:+: relay.toList) :
    Display.Field (wallet.connectionString version relay secret) (preamble relay version)
      (Hex.encode (wallet.keyBytes version)) ("&secret=" ++ Hex.encode secret) where
  text := connectionString_split wallet version secret
  first := by
    have hscheme (rest : List Char) : Clear "wallet_pk=".toList "bwc://".toList rest := by
      simp [clear_cons, clear_nil]
    rw [toList_preamble, clear_append, clear_append]
    refine ⟨hscheme _, clear_of_not_infix (by simp) hrelay, clear_of_head ?_⟩
    cases version <;> decide
  free := free_encode (by decide) _
  tail := Or.inr ⟨"secret=" ++ Hex.encode secret, by rw [← String.append_assoc]; rfl⟩

theorem parsedConn_query (hrelay : Free '?' relay) (query : String) :
    ParsedConn.parse ("bwc://" ++ relay ++ "?" ++ query) =
      (split '&' query).foldlM ParsedConn.Slots.turn {} >>= (·.build relay) := by
  have hrest : stripPrefix "bwc://" ("bwc://" ++ relay ++ "?" ++ query) =
      some (relay ++ "?" ++ query) :=
    stripPrefix_eq_some_iff.mpr (by simp only [String.append_assoc])
  have hcut : splitOnce '?' (relay ++ "?" ++ query) = some (relay, query) :=
    splitOnce_append hrelay query
  simp only [ParsedConn.parse, hrest, hcut, bind, Except.bind, Option.elim_some]

/-- A wallet key that does not decode is what a minted string with it fails by. -/
theorem parse_of_bad_key (hrelay : Free '?' relay) {val tail : String} {failure : Failure}
    (hval : Free '&' val) (hdecode : Hex.decode val = .error failure) :
    ParsedConn.parse (preamble relay version ++ "wallet_pk=" ++ val ++ "&" ++ tail) =
      .error failure := by
  have hv : Free '&' ("v=" ++ toString version.asU8) := by
    rw [toString_asU8]
    cases version <;> decide
  have hkey : Free '&' ("wallet_pk=" ++ val) := free_append.mpr ⟨by decide, hval⟩
  have htext : preamble relay version ++ "wallet_pk=" ++ val ++ "&" ++ tail =
      "bwc://" ++ relay ++ "?" ++ (("v=" ++ toString version.asU8) ++ String.singleton '&' ++
        (("wallet_pk=" ++ val) ++ String.singleton '&' ++ tail)) := by
    apply String.toList_injective
    simp [preamble]
  have hfirst : ParsedConn.Slots.turn {} ("v=" ++ toString version.asU8) =
      .ok { version := some version } := by
    cases version <;> decide +kernel
  have hcut : splitOnce '=' ("wallet_pk=" ++ val) = some ("wallet_pk", val) :=
    splitOnce_eq_some_iff.mpr ⟨by decide, rfl⟩
  have hsecond (slots : ParsedConn.Slots) :
      slots.turn ("wallet_pk=" ++ val) = .error failure := by
    simp [ParsedConn.Slots.turn, hcut, hdecode, Except.map]
  rw [htext, parsedConn_query hrelay, split_append, split_append, split_of_free hv,
    split_of_free hkey]
  simp only [List.cons_append, List.nil_append, List.foldlM_cons, hfirst, hsecond, bind,
    Except.bind]

/-- What the console shows of a minted string. -/
def Wallet.shown (relay : String) : String :=
  "bwc://" ++ relay ++ "?v=" ++ toString version.asU8 ++ "&wallet_pk=" ++
    Hex.encode ((wallet.keyBytes version).take 8) ++ "…(" ++
    toString (2 * (wallet.keyBytes version).length) ++ " hex chars)&secret=" ++ Hex.encode secret

theorem length_keyBytes (encodings : H.Encodings) (correct : C.Correct) :
    (wallet.keyBytes version).length = 32 ∨ (wallet.keyBytes version).length = 1216 := by
  cases version with
  | V1 => exact Or.inl (encodings.pk_length _)
  | V2 => exact Or.inr (correct.toBytes_length _)

theorem len_front (hlen : 16 < (wallet.keyBytes version).length) :
    Hex.len (Hex.encode ((wallet.keyBytes version).take 8)) = 16 := by
  rw [Hex.len_encode, List.length_take]
  omega

theorem abbreviate_minted (encodings : H.Encodings) (correct : C.Correct)
    (hname : ¬ "wallet_pk=".toList <:+: relay.toList) :
    Display.abbreviate (wallet.connectionString version relay secret) =
      .ok (wallet.shown version secret relay) := by
  have hfield := minted_field wallet version secret hname
  have hlen : 16 < (wallet.keyBytes version).length := by
    rcases length_keyBytes wallet version encodings correct with h | h <;> omega
  have hfront : Hex.encode (wallet.keyBytes version) =
      Hex.encode ((wallet.keyBytes version).take 8) ++
        Hex.encode ((wallet.keyBytes version).drop 8) := by
    rw [← Hex.encode_append, List.take_append_drop]
  have hlong : ¬ Hex.len (Hex.encode (wallet.keyBytes version)) ≤ 24 := by
    rw [Hex.len_encode]
    omega
  rw [Display.abbreviate_of_field hfield, if_neg hlong,
    Display.slice_front_iff.mpr ⟨_, hfront, len_front wallet version hlen⟩, Hex.len_encode]
  delta Wallet.shown
  simp only [Except.map, preamble, Except.ok.injEq]
  apply String.toList_injective
  simp

/-- **A shortened string is for the eyes only.** A minted string is printed without a panic,
with the first 16 digits of the wallet key and all else, the secret included, in full; and
what is printed is not accepted as a connection string. -/
theorem minted_abbreviates (encodings : H.Encodings) (correct : C.Correct)
    (hrelay : Free '?' relay) (hname : ¬ "wallet_pk=".toList <:+: relay.toList) :
    ∃ out, Display.abbreviate (wallet.connectionString version relay secret) = .ok out ∧
      out = "bwc://" ++ relay ++ "?v=" ++ toString version.asU8 ++ "&wallet_pk=" ++
        Hex.encode ((wallet.keyBytes version).take 8) ++ "…(" ++
        toString (2 * (wallet.keyBytes version).length) ++ " hex chars)&secret=" ++
        Hex.encode secret ∧
      ParsedConn.parse out = .error (.err "odd-length hex") := by
  have hlen := length_keyBytes wallet version encodings correct
  refine ⟨_, abbreviate_minted wallet version secret encodings correct hname, rfl, ?_⟩
  obtain ⟨mark, hmark⟩ : ∃ mark, mark =
    "…(" ++ toString (2 * (wallet.keyBytes version).length) ++ " hex chars)" := ⟨_, rfl⟩
  have hfree : Free '&' mark := by
    rcases hlen with hlen | hlen <;> rw [hmark, hlen] <;> decide +kernel
  have hodd : Hex.len mark % 2 = 1 := by
    rcases hlen with hlen | hlen <;> rw [hmark, hlen] <;> decide +kernel
  have hval : Hex.len (Hex.encode ((wallet.keyBytes version).take 8) ++ mark) % 2 ≠ 0 := by
    rw [Hex.len_append, len_front wallet version (by omega)]
    omega
  have hbad : ParsedConn.parse (preamble relay version ++ "wallet_pk=" ++
      (Hex.encode ((wallet.keyBytes version).take 8) ++ mark) ++ "&" ++
        ("secret=" ++ Hex.encode secret)) = .error (.err "odd-length hex") :=
    parse_of_bad_key version hrelay
      (free_append.mpr ⟨free_encode (by decide) _, hfree⟩) (Hex.decode_odd hval)
  have htext : wallet.shown version secret relay = preamble relay version ++ "wallet_pk=" ++
      (Hex.encode ((wallet.keyBytes version).take 8) ++ mark) ++ "&" ++
        ("secret=" ++ Hex.encode secret) := by
    delta Wallet.shown
    apply String.toList_injective
    simp [preamble, hmark]
  rw [htext, hbad]

end minted

/-- The wallet key of version 2, of 1216 bytes. -/
theorem minted_abbreviates_v2 :
    ∃ out, Display.abbreviate (Readable.wallet.connectionString .V2 "r" [7]) = .ok out ∧
      out = "bwc://" ++ "r" ++ "?v=" ++ toString Version.V2.asU8 ++ "&wallet_pk=" ++
        Hex.encode ((Readable.wallet.keyBytes .V2).take 8) ++ "…(" ++
        toString (2 * (Readable.wallet.keyBytes .V2).length) ++ " hex chars)&secret=" ++
        Hex.encode [7] ∧
      ParsedConn.parse out = .error (.err "odd-length hex") :=
  minted_abbreviates Readable.wallet .V2 [7] Clamped.encodings Readable.correct (by decide)
    (by decide)

end HpkeDemo.Upgrade
