import HpkeDemo.Connect.Grammar
import HpkeDemo.FoldFaults

/-! Why a connection string is rejected: the error for every string that `parse` does not
accept. It is stated for any reader of the form of `parse`. -/
namespace HpkeDemo.Connect
open Text

variable {ε σ α : Type}

/-- The keys without a default, in the order in which they are missed. -/
def required : List String := ["v", "wallet_pk", "secret"]

/-- What is wrong with one piece between two `&`: `text` makes an error of a message, and
`fails` says how a value is no hex. -/
inductive PieceFault (text : String → ε) (fails : String → ε → Prop) : String → ε → Prop where
  | malformed {piece} (free : Free '=' piece) : PieceFault text fails piece (text "malformed param")
  | version {val} (h1 : val ≠ "1") (h2 : val ≠ "2") :
      PieceFault text fails (render ("v", val)) (text ("UNSUPPORTED_VERSION: " ++ val))
  | hex {key val e} (hkey : key = "wallet_pk" ∨ key = "secret") (h : fails val e) :
      PieceFault text fails (render (key, val)) e

/-- The piece is a param with this key. -/
def HasKey (key piece : String) : Prop := ∃ val, piece = render (key, val)

/-- The first of the required keys that no piece has. -/
def Missing (pieces : List String) (key : String) : Prop :=
  ∃ earlier later, required = earlier ++ key :: later ∧
    (∀ k ∈ earlier, ∃ piece ∈ pieces, HasKey k piece) ∧ ∀ piece ∈ pieces, ¬ HasKey key piece

/-- What is wrong with a string, looked for in this order. -/
inductive Fault (text : String → ε) (fails : String → ε → Prop) : String → ε → Prop where
  | notUri {uri} (h : ¬ "bwc://".toList <+: uri.toList) :
      Fault text fails uri (text "not a bwc:// URI")
  | noQuery {rest} (free : Free '?' rest) :
      Fault text fails ("bwc://" ++ rest) (text "missing query")
  | piece {relay query e} (free : Free '?' relay)
      (h : FoldFaults.First (PieceFault text fails) (split '&' query) e) :
      Fault text fails ("bwc://" ++ relay ++ "?" ++ query) e
  | missing {relay query key} (free : Free '?' relay)
      (sound : ∀ piece ∈ split '&' query, ∀ e, ¬ PieceFault text fails piece e)
      (h : Missing (split '&' query) key) :
      Fault text fails ("bwc://" ++ relay ++ "?" ++ query) (text ("missing " ++ key))

/-- A parser that goes over the pieces of a string and fills a slot for each key. -/
structure Reader (ε σ α : Type) where
  text : String → ε
  fails : String → ε → Prop
  start : σ
  turn : σ → String → Except ε σ
  build : σ → String → Except ε α
  filled : σ → String → Prop

namespace Reader

def parse (r : Reader ε σ α) (uri : String) : Except ε α := do
  let rest ← (stripPrefix "bwc://" uri).elim (.error (r.text "not a bwc:// URI")) .ok
  let (relay, query) ← (splitOnce '?' rest).elim (.error (r.text "missing query")) .ok
  let slots ← (split '&' query).foldlM r.turn r.start
  r.build slots relay

structure Lawful (r : Reader ε σ α) : Prop where
  turn_error : ∀ s piece e, r.turn s piece = .error e ↔ PieceFault r.text r.fails piece e
  turn_filled : ∀ key ∈ required, ∀ s piece s', r.turn s piece = .ok s' →
    (r.filled s' key ↔ r.filled s key ∨ HasKey key piece)
  start_empty : ∀ key, ¬ r.filled r.start key
  build_error : ∀ s relay e, r.build s relay = .error e ↔ ∃ earlier key later,
    required = earlier ++ key :: later ∧ (∀ k ∈ earlier, r.filled s k) ∧ ¬ r.filled s key ∧
      e = r.text ("missing " ++ key)

variable {r : Reader ε σ α} {uri relay query rest : String} {e : ε}

theorem parse_of_query (free : Free '?' relay) : r.parse ("bwc://" ++ relay ++ "?" ++ query) =
    (split '&' query).foldlM r.turn r.start >>= (r.build · relay) := by
  have hrest : stripPrefix "bwc://" ("bwc://" ++ relay ++ "?" ++ query) =
      some (relay ++ "?" ++ query) :=
    stripPrefix_eq_some_iff.mpr (by simp only [String.append_assoc])
  have hcut : splitOnce '?' (relay ++ "?" ++ query) = some (relay, query) :=
    splitOnce_append free query
  simp only [parse, hrest, hcut, bind, Except.bind, Option.elim_some]

theorem parse_of_rest (free : Free '?' rest) :
    r.parse ("bwc://" ++ rest) = .error (r.text "missing query") := by
  have hrest : stripPrefix "bwc://" ("bwc://" ++ rest) = some rest :=
    stripPrefix_eq_some_iff.mpr rfl
  simp only [parse, hrest, splitOnce_eq_none_iff.mpr free, bind, Except.bind, Option.elim_some,
    Option.elim_none]

theorem parse_of_other (h : ¬ "bwc://".toList <+: uri.toList) :
    r.parse uri = .error (r.text "not a bwc:// URI") := by
  simp only [parse, stripPrefix, if_neg h, bind, Except.bind, Option.elim_none]

/-- After sound pieces, what is missing is what the pieces do not have. -/
theorem build_error_iff (lawful : r.Lawful) {pieces : List String} {s : σ}
    (h : pieces.foldlM r.turn r.start = .ok s) :
    r.build s relay = .error e ↔ ∃ key, Missing pieces key ∧ e = r.text ("missing " ++ key) := by
  have hfilled (key : String) (hkey : key ∈ required) :
      r.filled s key ↔ ∃ piece ∈ pieces, HasKey key piece := by
    rw [FoldFaults.foldlM_recorded_iff (lawful.turn_filled key hkey) h,
      or_iff_right (lawful.start_empty key)]
  rw [lawful.build_error]
  constructor
  · rintro ⟨earlier, key, later, hrequired, hearlier, hkey, rfl⟩
    have hmem (k : String) (hk : k ∈ earlier ++ key :: later) : k ∈ required := hrequired ▸ hk
    refine ⟨key, ⟨earlier, later, hrequired, fun k hk => ?_, ?_⟩, rfl⟩
    · exact (hfilled k (hmem k (List.mem_append_left _ hk))).mp (hearlier k hk)
    · rw [hfilled key (hmem key (by simp))] at hkey
      exact fun piece hpiece hhas => hkey ⟨piece, hpiece, hhas⟩
  · rintro ⟨key, ⟨earlier, later, hrequired, hearlier, hkey⟩, rfl⟩
    have hmem (k : String) (hk : k ∈ earlier ++ key :: later) : k ∈ required := hrequired ▸ hk
    refine ⟨earlier, key, later, hrequired, fun k hk => ?_, ?_, rfl⟩
    · exact (hfilled k (hmem k (List.mem_append_left _ hk))).mpr (hearlier k hk)
    · rw [hfilled key (hmem key (by simp))]
      rintro ⟨piece, hpiece, hhas⟩
      exact hkey piece hpiece hhas

theorem parse_query_error_iff (lawful : r.Lawful) (free : Free '?' relay) :
    r.parse ("bwc://" ++ relay ++ "?" ++ query) = .error e ↔
      FoldFaults.First (PieceFault r.text r.fails) (split '&' query) e ∨
      (∀ piece ∈ split '&' query, ∀ e, ¬ PieceFault r.text r.fails piece e) ∧
        ∃ key, Missing (split '&' query) key ∧ e = r.text ("missing " ++ key) := by
  have hloop (e : ε) : (split '&' query).foldlM r.turn r.start = .error e ↔
      FoldFaults.First (PieceFault r.text r.fails) (split '&' query) e :=
    FoldFaults.foldlM_eq_error_iff lawful.turn_error
  rw [parse_of_query free]
  cases h : (split '&' query).foldlM r.turn r.start with
  | error e' =>
    have hfirst := (hloop e').mp h
    have hnot : ¬ ∀ piece ∈ split '&' query, ∀ e, ¬ PieceFault r.text r.fails piece e := by
      obtain ⟨before, piece, after, hsplit, hbad, _⟩ := hfirst
      intro sound
      exact sound piece (by simp [hsplit]) e' hbad
    rw [← hloop, h, or_iff_left (fun hmissing => hnot hmissing.1)]
    simp only [bind, Except.bind, Except.error.injEq]
  | ok s =>
    have hsound : ∀ piece ∈ split '&' query, ∀ e, ¬ PieceFault r.text r.fails piece e :=
      FoldFaults.sound_of_ok lawful.turn_error h
    rw [← hloop, h, or_iff_right (by rintro ⟨⟩), and_iff_right hsound]
    exact build_error_iff lawful h

theorem parse_error_iff (lawful : r.Lawful) :
    r.parse uri = .error e ↔ Fault r.text r.fails uri e := by
  constructor
  · intro h
    cases hrest : stripPrefix "bwc://" uri with
    | none =>
      have hprefix : ¬ "bwc://".toList <+: uri.toList := by
        intro hprefix
        rw [stripPrefix, if_pos hprefix] at hrest
        cases hrest
      rw [parse_of_other hprefix] at h
      cases h
      exact .notUri hprefix
    | some rest =>
      obtain rfl := stripPrefix_eq_some_iff.mp hrest
      by_cases free : Free '?' rest
      · rw [parse_of_rest free] at h
        cases h
        exact .noQuery free
      · obtain ⟨relay, query, hrelay, rfl⟩ := exists_first free
        have htext : "bwc://" ++ (relay ++ String.singleton '?' ++ query) =
            "bwc://" ++ relay ++ "?" ++ query := by
          rw [← String.append_assoc, ← String.append_assoc]
          rfl
        rw [htext] at h ⊢
        obtain hpiece | ⟨sound, key, hkey, rfl⟩ := (parse_query_error_iff lawful hrelay).mp h
        · exact .piece hrelay hpiece
        · exact .missing hrelay sound hkey
  · intro h
    cases h with
    | notUri h => exact parse_of_other h
    | noQuery free => exact parse_of_rest free
    | piece free h => exact (parse_query_error_iff lawful free).mpr (Or.inl h)
    | missing free sound h =>
      exact (parse_query_error_iff lawful free).mpr (Or.inr ⟨sound, _, h, rfl⟩)

end Reader

section pieces
variable {text : String → ε} {fails : String → ε → Prop} {piece key val : String} {e : ε}

theorem pieceFault_of_free (free : Free '=' piece) :
    PieceFault text fails piece e ↔ e = text "malformed param" := by
  have hrender {key val : String} (h : piece = render (key, val)) : False := by
    rw [h, render, free_append, free_append] at free
    exact absurd free.1.2 (by decide)
  constructor
  · intro h
    cases h with
    | malformed => rfl
    | version => exact (hrender rfl).elim
    | hex => exact (hrender rfl).elim
  · rintro rfl
    exact .malformed free

theorem pieceFault_render (free : Free '=' key) : PieceFault text fails (render (key, val)) e ↔
    key = "v" ∧ val ≠ "1" ∧ val ≠ "2" ∧ e = text ("UNSUPPORTED_VERSION: " ++ val) ∨
      (key = "wallet_pk" ∨ key = "secret") ∧ fails val e := by
  have hcut : splitOnce '=' (render (key, val)) = some (key, val) := splitOnce_append free val
  have hsame {key' val' : String} (free' : Free '=' key')
      (h : render (key', val') = render (key, val)) : key' = key ∧ val' = val := by
    have hcut' : splitOnce '=' (render (key', val')) = some (key', val') :=
      splitOnce_append free' val'
    rw [h, hcut] at hcut'
    exact (Prod.mk.inj (Option.some.inj hcut')).imp Eq.symm Eq.symm
  constructor
  · intro h
    generalize hpiece : render (key, val) = piece at h
    cases h with
    | malformed free' =>
      rw [← splitOnce_eq_none_iff, ← hpiece, hcut] at free'
      cases free'
    | version h1 h2 =>
      obtain ⟨rfl, rfl⟩ := hsame (by decide) hpiece.symm
      exact Or.inl ⟨rfl, h1, h2, rfl⟩
    | @hex key' _ _ hkey h =>
      have free' : Free '=' key' := by
        rcases hkey with rfl | rfl <;> decide
      obtain ⟨rfl, rfl⟩ := hsame free' hpiece.symm
      exact Or.inr ⟨hkey, h⟩
  · rintro (⟨rfl, h1, h2, rfl⟩ | ⟨hkey, h⟩)
    · exact .version h1 h2
    · exact .hex hkey h

theorem hasKey_render {key' : String} (free : Free '=' key) (free' : Free '=' key') :
    HasKey key' (render (key, val)) ↔ key = key' := by
  constructor
  · rintro ⟨val', h⟩
    have hcut : splitOnce '=' (render (key, val)) = some (key, val) := splitOnce_append free val
    have hcut' : splitOnce '=' (render (key', val')) = some (key', val') :=
      splitOnce_append free' val'
    rw [h, hcut'] at hcut
    exact (Prod.mk.inj (Option.some.inj hcut)).1.symm
  · rintro rfl
    exact ⟨val, rfl⟩

end pieces

theorem required_split {P : List String → String → Prop} :
    (∃ earlier key later, required = earlier ++ key :: later ∧ P earlier key) ↔
      P [] "v" ∨ P ["v"] "wallet_pk" ∨ P ["v", "wallet_pk"] "secret" := by
  constructor
  · rintro ⟨earlier, key, later, h, hP⟩
    obtain _ | ⟨first, _ | ⟨second, _ | ⟨third, rest⟩⟩⟩ := earlier
    · obtain ⟨rfl, _⟩ := List.cons.inj h
      exact Or.inl hP
    · obtain ⟨rfl, h'⟩ := List.cons.inj h
      obtain ⟨rfl, _⟩ := List.cons.inj h'
      exact Or.inr (Or.inl hP)
    · obtain ⟨rfl, h'⟩ := List.cons.inj h
      obtain ⟨rfl, h''⟩ := List.cons.inj h'
      obtain ⟨rfl, _⟩ := List.cons.inj h''
      exact Or.inr (Or.inr hP)
    · simp [required] at h
  · rintro (h | h | h)
    · exact ⟨[], "v", _, rfl, h⟩
    · exact ⟨["v"], "wallet_pk", _, rfl, h⟩
    · exact ⟨["v", "wallet_pk"], "secret", _, rfl, h⟩

theorem free_of_required {key : String} (h : key ∈ required) : Free '=' key := by
  have free : ∀ key ∈ required, Free '=' key := by decide
  exact free key h

/-- How a value is no hex to the codec. -/
def Undecodable (hex : HexCodec) (val e : String) : Prop :=
  ∃ d, hex.decode val = .error d ∧ e = "bad hex: " ++ d

/-- `ConnString::parse`. -/
def library (hex : HexCodec) : Reader String Slots ConnString where
  text := id
  fails := Undecodable hex
  start := {}
  turn := Slots.turn hex
  build := Slots.build
  filled slots key := (key, true) ∈ [("v", slots.version.isSome),
    ("wallet_pk", slots.walletPk.isSome), ("secret", slots.secret.isSome)]

theorem library_parse (hex : HexCodec) (uri : String) :
    (library hex).parse uri = ConnString.parse hex uri := rfl

theorem decode_error_iff {hex : HexCodec} {val e : String} :
    decode hex val = .error e ↔ Undecodable hex val e := by
  unfold decode Undecodable
  cases hex.decode val <;> simp [Except.mapError, eq_comm]

theorem version_parse_error_iff {val e : String} : Version.parse val = .error e ↔
    val ≠ "1" ∧ val ≠ "2" ∧ e = "UNSUPPORTED_VERSION: " ++ val := by
  unfold Version.parse
  split <;> simp_all [eq_comm]

theorem map_eq_error_iff {ε α β : Type} {f : α → β} {x : Except ε α} {e : ε} :
    x.map f = .error e ↔ x = .error e := by
  cases x <;> simp [Except.map]

theorem map_eq_ok_iff {ε α β : Type} {f : α → β} {x : Except ε α} {b : β} :
    x.map f = .ok b ↔ ∃ a, x = .ok a ∧ f a = b := by
  cases x <;> simp [Except.map]

theorem library_turn_error {hex : HexCodec} (slots : Slots) (piece e : String) :
    slots.turn hex piece = .error e ↔ PieceFault id (Undecodable hex) piece e := by
  cases hcut : splitOnce '=' piece with
  | none =>
    rw [pieceFault_of_free (splitOnce_eq_none_iff.mp hcut)]
    simp [Slots.turn, hcut, eq_comm]
  | some kv =>
    obtain ⟨key, val⟩ := kv
    obtain ⟨free, htext⟩ := splitOnce_eq_some_iff.mp hcut
    obtain rfl : piece = render (key, val) := htext
    rw [pieceFault_render free]
    simp only [Slots.turn, hcut]
    split
    · simp [map_eq_error_iff, version_parse_error_iff]
    · simp [map_eq_error_iff, decode_error_iff]
    · simp [map_eq_error_iff, decode_error_iff]
    · simp
    · next hv hw hs _ =>
      have hv : key ≠ "v" := hv
      have hw : key ≠ "wallet_pk" := hw
      have hs : key ≠ "secret" := hs
      simp [hv, hw, hs]

theorem library_turn_filled {hex : HexCodec} {key : String} (hkey : key ∈ required) (slots : Slots)
    (piece : String) (slots' : Slots) (h : slots.turn hex piece = .ok slots') :
    (library hex).filled slots' key ↔ (library hex).filled slots key ∨ HasKey key piece := by
  obtain ⟨kv, rfl, free, taken⟩ := turn_eq_ok h
  rw [turn_render hex slots free taken] at h
  obtain rfl := Except.ok.inj h
  obtain ⟨key', val⟩ := kv
  rw [hasKey_render free (free_of_required hkey)]
  have hversion (hv : key' = "v") : (Version.parse val).toOption.isSome = true := by
    rcases taken.1 hv with h | h <;> simp only at h <;> subst h <;> rfl
  have hdecode (hk : key' = "wallet_pk" ∨ key' = "secret") :
      (hex.decode val).toOption.isSome = true := by
    obtain ⟨b, hb⟩ := taken.2 hk
    simp only at hb
    rw [hb]
    rfl
  simp only [library, Slots.put, List.mem_cons, Prod.mk.injEq, List.not_mem_nil, or_false]
  simp only [required, List.mem_cons, List.not_mem_nil, or_false] at hkey
  rcases hkey with rfl | rfl | rfl
  · by_cases hk : key' = "v" <;> simp [hk, hversion]
  · by_cases hk : key' = "wallet_pk" <;> simp [hk, hdecode]
  · by_cases hk : key' = "secret" <;> simp [hk, hdecode]

theorem library_lawful (hex : HexCodec) : (library hex).Lawful where
  turn_error := library_turn_error
  turn_filled _ hkey := library_turn_filled hkey
  start_empty key := by simp [library]
  build_error slots relay e := by
    rw [required_split]
    simp only [List.forall_mem_cons]
    cases hv : slots.version <;> cases hw : slots.walletPk <;> cases hs : slots.secret <;>
      simp [library, Slots.build, hv, hw, hs, bind, Except.bind, pure, Except.pure,
        @eq_comm _ e]

end HpkeDemo.Connect
