import Mathlib.Tactic.TFAE
import HpkeDemo.Connect.Grammar
import HpkeDemo.Connect.LowerHex

/-! What `to_uri` writes, as the pieces `parse` will find in it, and which records
come back. Nothing is escaped, so a free text contributes one piece exactly when
it has no `&`. -/
namespace HpkeDemo.Connect
open Text

def versionPair (c : ConnString) : String × String := ("v", toString c.version.asU8)

/-- The pairs of the two hex fields, in the order they are written. -/
def ownPairs (hex : HexCodec) (c : ConnString) : List (String × String) :=
  [("wallet_pk", hex.encode c.walletPk), ("secret", hex.encode c.secret)]

/-- The pieces the token and then the relay params are found in. -/
def tailPieces (c : ConnString) : List String :=
  (c.token.elim [] fun token => split '&' (render ("token", token))) ++
    c.relayParams.flatMap fun kv => split '&' (render kv)

theorem version_parse_versionPair (c : ConnString) :
    Version.parse (versionPair c).2 = .ok c.version := by
  unfold versionPair
  cases c.version <;> rfl

theorem HexCodec.Lawful.free {hex : HexCodec} (lawful : hex.Lawful) (b : Bytes) {d : Char}
    (hd : d ∉ "0123456789abcdef".toList) : Free d (hex.encode b) :=
  fun h => hd (lawful.digits b d h)

theorem split_amp (a b : String) : split '&' (a ++ "&" ++ b) = split '&' a ++ split '&' b :=
  split_append a b

/-- The loop over `relay_params` appends one text, cut where the params are. -/
theorem exists_params_text (params : List (String × String)) :
    ∃ text, (∀ uri, params.foldl (fun uri kv => uri ++ "&" ++ kv.1 ++ "=" ++ kv.2) uri =
        uri ++ text) ∧
      ∀ s, split '&' (s ++ text) =
        split '&' s ++ params.flatMap fun kv => split '&' (render kv) := by
  induction params with
  | nil => exact ⟨"", by simp, by simp⟩
  | cons kv params ih =>
    obtain ⟨text, happ, hsplit⟩ := ih
    refine ⟨"&" ++ (render kv ++ text), ?_, ?_⟩
    · intro uri
      rw [List.foldl_cons, happ]
      simp only [render, String.append_assoc]
    · intro s
      rw [← String.append_assoc, split_amp, hsplit, List.flatMap_cons]

/-- The hex fields are one piece each, whatever bytes they hold. -/
theorem split_own {hex : HexCodec} (lawful : hex.Lawful) (c : ConnString) {kv : String × String}
    (h : kv ∈ ownPairs hex c) : split '&' (render kv) = [render kv] := by
  apply split_of_free
  simp only [ownPairs, List.mem_cons, List.not_mem_nil, or_false] at h
  rcases h with rfl | rfl <;> simp only [render, free_append]
  · exact ⟨⟨by decide, by decide⟩, lawful.free _ (by decide)⟩
  · exact ⟨⟨by decide, by decide⟩, lawful.free _ (by decide)⟩

/-- The query `to_uri` writes, and its pieces behind any text. -/
theorem toUri_pieces {hex : HexCodec} (lawful : hex.Lawful) (c : ConnString) :
    ∃ query, c.toUri hex = "bwc://" ++ c.relay ++ "?" ++ query ∧
      ∀ lead, split '&' (lead ++ query) = split '&' (lead ++ render (versionPair c)) ++
        ((ownPairs hex c).map render ++ tailPieces c) := by
  obtain ⟨params, happ, hsplit⟩ := exists_params_text c.relayParams
  let walletPk := render ("wallet_pk", hex.encode c.walletPk)
  let secret := render ("secret", hex.encode c.secret)
  let fields := render (versionPair c) ++ "&" ++ walletPk ++ "&" ++ secret
  have hfields (lead : String) : split '&' (lead ++ fields) =
      split '&' (lead ++ render (versionPair c)) ++ (ownPairs hex c).map render := by
    have regroup : lead ++ fields =
        lead ++ render (versionPair c) ++ "&" ++ walletPk ++ "&" ++ secret := by
      simp only [fields, String.append_assoc]
    rw [regroup, split_amp, split_amp, split_own lawful c (by simp [ownPairs]),
      split_own lawful c (by simp [ownPairs]), List.append_assoc]
    rfl
  have literals : "?v=" = "?" ++ "v" ++ "=" ∧ "&wallet_pk=" = "&" ++ "wallet_pk" ++ "=" ∧
      "&secret=" = "&" ++ "secret" ++ "=" ∧ "&token=" = "&" ++ "token" ++ "=" := by decide
  cases htoken : c.token with
  | none =>
    refine ⟨fields ++ params, ?_, ?_⟩
    · simp only [ConnString.toUri, htoken, happ, literals]
      simp only [fields, walletPk, secret, render, versionPair, String.append_assoc]
    · intro lead
      rw [← String.append_assoc, hsplit, hfields]
      simp [tailPieces, htoken]
  | some token =>
    refine ⟨fields ++ ("&" ++ (render ("token", token) ++ params)), ?_, ?_⟩
    · simp only [ConnString.toUri, htoken, happ, literals]
      simp only [fields, walletPk, secret, render, versionPair, String.append_assoc]
    · intro lead
      rw [← String.append_assoc, ← String.append_assoc, split_amp, hsplit, hfields]
      simp [tailPieces, htoken]

/-- The records the format can carry. -/
structure Carryable (c : ConnString) : Prop where
  relay : Free '?' c.relay
  token : ∀ token, c.token = some token → Free '&' token
  keys : ∀ kv ∈ c.relayParams, kv.1 ∉ reserved ∧ Free '&' kv.1 ∧ Free '=' kv.1
  values : ∀ kv ∈ c.relayParams, Free '&' kv.2

/-- The pairs a carryable record is written as. -/
def pairsOf (hex : HexCodec) (c : ConnString) : List (String × String) :=
  versionPair c :: ownPairs hex c ++ (c.token.elim [] fun token => [("token", token)]) ++
    c.relayParams

theorem mem_pairsOf {hex : HexCodec} {c : ConnString} {kv : String × String} :
    kv ∈ pairsOf hex c ↔ kv = versionPair c ∨ kv = ("wallet_pk", hex.encode c.walletPk) ∨
      kv = ("secret", hex.encode c.secret) ∨
      (∃ token, c.token = some token ∧ kv = ("token", token)) ∨
      kv ∈ c.relayParams := by
  cases htoken : c.token <;> simp [pairsOf, ownPairs, htoken]

theorem tailPieces_of_carryable {c : ConnString} (h : Carryable c) :
    tailPieces c =
      ((c.token.elim [] fun token => [("token", token)]) ++ c.relayParams).map render := by
  have hparams : (c.relayParams.flatMap fun kv => split '&' (render kv)) =
      c.relayParams.map render := by
    rw [List.map_eq_flatMap]
    apply List.flatMap_congr
    intro kv hkv
    apply split_of_free
    simp only [render, free_append]
    exact ⟨⟨(h.keys kv hkv).2.1, by decide⟩, h.values kv hkv⟩
  cases htoken : c.token with
  | none => simp [tailPieces, htoken, hparams]
  | some token =>
    have hfree : Free '&' (render ("token", token)) := by
      simp only [render, free_append]
      exact ⟨⟨by decide, by decide⟩, h.token token htoken⟩
    simp [tailPieces, htoken, hparams, split_of_free hfree]

theorem carryable_pieces {hex : HexCodec} (lawful : hex.Lawful) {c : ConnString}
    (h : Carryable c) : Pieces (c.toUri hex) c.relay (pairsOf hex c) where
  relayFree := h.relay
  keysFree := by
    intro kv hkv
    rcases mem_pairsOf.mp hkv with rfl | rfl | rfl | ⟨token, _, rfl⟩ | hkv
    · exact (by decide : Free '=' "v")
    · exact (by decide : Free '=' "wallet_pk")
    · exact (by decide : Free '=' "secret")
    · exact (by decide : Free '=' "token")
    · exact (h.keys kv hkv).2.2
  text := by
    obtain ⟨query, htext, hsplit⟩ := toUri_pieces lawful c
    refine ⟨query, htext, ?_⟩
    have hversion : Free '&' (render (versionPair c)) := by
      simp only [render, versionPair, free_append]
      cases c.version <;> decide
    have := hsplit ""
    simp only [String.empty_append, split_of_free hversion, tailPieces_of_carryable h] at this
    rw [this]
    simp [pairsOf]

theorem lastOf_append (key : String) (xs ys : List (String × String)) :
    lastOf key (xs ++ ys) = (lastOf key ys).or (lastOf key xs) := by
  simp only [lastOf, List.filter_append, List.getLast?_append, Option.map_or]

theorem lastOf_params {c : ConnString} (h : Carryable c) {key : String} (hkey : key ∈ reserved) :
    lastOf key c.relayParams = none :=
  lastOf_eq_none_iff.mpr fun kv hkv he => (h.keys kv hkv).1 (he ▸ hkey)

theorem carryable_reads {hex : HexCodec} (lawful : hex.Lawful) {c : ConnString}
    (h : Carryable c) : Reads hex (pairsOf hex c) c := by
  have last (key : String) (hkey : key ∈ reserved) : lastOf key (pairsOf hex c) =
      lastOf key (versionPair c :: ownPairs hex c ++
        (c.token.elim [] fun token => [("token", token)])) := by
    rw [pairsOf, lastOf_append, lastOf_params h hkey, Option.none_or]
  have front : ∀ token : Option String,
      lastOf "v" (versionPair c :: ownPairs hex c ++ (token.elim [] fun t => [("token", t)])) =
        some (versionPair c).2 ∧
      lastOf "wallet_pk" (versionPair c :: ownPairs hex c ++
        (token.elim [] fun t => [("token", t)])) = some (hex.encode c.walletPk) ∧
      lastOf "secret" (versionPair c :: ownPairs hex c ++
        (token.elim [] fun t => [("token", t)])) = some (hex.encode c.secret) ∧
      lastOf "token" (versionPair c :: ownPairs hex c ++
        (token.elim [] fun t => [("token", t)])) = token := by
    intro token
    cases token <;> simp [lastOf, versionPair, ownPairs]
  obtain ⟨hv, hw, hs, ht⟩ := front c.token
  refine ⟨⟨_, (last _ (by decide)).trans hv, version_parse_versionPair c⟩,
    ⟨_, (last _ (by decide)).trans hw, lawful.decode_encode _⟩,
    ⟨_, (last _ (by decide)).trans hs, lawful.decode_encode _⟩,
    ((last _ (by decide)).trans ht).symm, ?_⟩
  have kept : c.relayParams.filter (·.1 ∉ reserved) = c.relayParams :=
    List.filter_eq_self.mpr fun kv hkv => by simpa using (h.keys kv hkv).1
  have gone : (versionPair c :: ownPairs hex c ++
      (c.token.elim [] fun token => [("token", token)])).filter (·.1 ∉ reserved) = [] := by
    cases c.token <;> simp [versionPair, ownPairs, reserved]
  rw [pairsOf, List.filter_append, kept, gone, List.nil_append]

theorem taken_of_reserved_free {hex : HexCodec} {kv : String × String} (h : kv.1 ∉ reserved) :
    Taken hex kv := by
  simp only [reserved, List.mem_cons, List.not_mem_nil, or_false, not_or] at h
  exact ⟨fun hv => absurd hv h.1, fun hk => hk.elim (absurd · h.2.1) (absurd · h.2.2.1)⟩

theorem carryable_taken {hex : HexCodec} (lawful : hex.Lawful) {c : ConnString}
    (h : Carryable c) : ∀ kv ∈ pairsOf hex c, Taken hex kv := by
  intro kv hkv
  rcases mem_pairsOf.mp hkv with rfl | rfl | rfl | ⟨token, _, rfl⟩ | hkv
  · refine ⟨fun _ => ?_, fun hk => absurd hk (by simp [versionPair])⟩
    unfold versionPair
    cases c.version <;> decide
  · exact ⟨fun hv => absurd hv (by simp), fun _ => ⟨_, lawful.decode_encode _⟩⟩
  · exact ⟨fun hv => absurd hv (by simp), fun _ => ⟨_, lawful.decode_encode _⟩⟩
  · exact ⟨fun hv => absurd hv (by simp), fun hk => absurd hk (by simp)⟩
  · exact taken_of_reserved_free (h.keys kv hkv).1

theorem parse_toUri {hex : HexCodec} (lawful : hex.Lawful) {c : ConnString} (h : Carryable c) :
    ConnString.parse hex (c.toUri hex) = .ok c :=
  parse_eq_ok_iff.mpr
    ⟨pairsOf hex c, carryable_pieces lawful h, carryable_taken lawful h, carryable_reads lawful h⟩

/-- Everything the parser can return is carryable. -/
theorem carryable_of_parse {hex : HexCodec} {uri : String} {c : ConnString}
    (h : ConnString.parse hex uri = .ok c) : Carryable c := by
  obtain ⟨pairs, ⟨hrelay, hkeys, query, _, hpieces⟩, _, hreads⟩ := parse_eq_ok_iff.mp h
  have hamp : ∀ kv ∈ pairs, Free '&' kv.1 ∧ Free '&' kv.2 := by
    intro kv hkv
    have hpiece : Free '&' (render kv) :=
      free_of_mem_split (s := query) (hpieces ▸ List.mem_map_of_mem hkv)
    simp only [render, free_append] at hpiece
    exact ⟨hpiece.1.1, hpiece.2⟩
  have hparam : ∀ kv ∈ c.relayParams, kv ∈ pairs ∧ kv.1 ∉ reserved := by
    intro kv hkv
    rw [hreads.relayParams] at hkv
    simpa using List.mem_filter.mp hkv
  refine ⟨hrelay, ?_, ?_, ?_⟩
  · intro token htoken
    rw [hreads.token] at htoken
    exact (hamp _ (mem_of_lastOf htoken)).2
  · intro kv hkv
    exact ⟨(hparam kv hkv).2, (hamp kv (hparam kv hkv).1).1, hkeys kv (hparam kv hkv).1⟩
  · intro kv hkv
    exact (hamp kv (hparam kv hkv).1).2

/-- **Exact round trip.** A record comes back from its own URI exactly when some
text parses to it, and exactly when no free text holds a delimiter that would
cut it or a key that is not its own. -/
theorem round_trip_exact {hex : HexCodec} (lawful : hex.Lawful) (c : ConnString) :
    List.TFAE [ConnString.parse hex (c.toUri hex) = .ok c,
      ∃ uri, ConnString.parse hex uri = .ok c, Carryable c] := by
  tfae_have 1 → 2 := fun h => ⟨_, h⟩
  tfae_have 2 → 3 := fun ⟨_, h⟩ => carryable_of_parse h
  tfae_have 3 → 1 := parse_toUri lawful
  tfae_finish

/-- An empty token, an empty key, `=` in a value and a repeated param. -/
def awkward : ConnString :=
  ⟨"relay.example.com/a", .V2, [0xab], [], some "", [("", "x=y"), ("k", ""), ("k", "?")]⟩

theorem awkward_carryable : Carryable awkward where
  relay := by decide
  token := by intro token h; cases h; decide
  keys := by decide
  values := by decide

theorem awkward_round_trip :
    ConnString.parse lowerHex (awkward.toUri lowerHex) = .ok awkward :=
  ((round_trip_exact lowerHex_lawful awkward).out 0 2).mpr awkward_carryable

end HpkeDemo.Connect
