import HpkeDemo.Upgrade.Conn

/-! When a string of a version that neither parser knows is reported as one. The params are
read from left to right, so a wallet key or secret that cannot be decoded hides a `v`
behind it. -/
namespace HpkeDemo.Upgrade
open Text
open Connect (HexCodec ConnString Pieces Taken render turn_render)

/-- A `v` pair with a version that neither parser knows. -/
def Unsupported (kv : String × String) : Prop := kv.1 = "v" ∧ kv.2 ≠ "1" ∧ kv.2 ≠ "2"

/-- The pair is no wallet key or secret, or one that can be decoded. -/
def Decodable (decodes : String → Prop) (kv : String × String) : Prop :=
  kv.1 = "wallet_pk" ∨ kv.1 = "secret" → decodes kv.2

/-- An unsupported version stands before every wallet key and secret that cannot be
decoded. -/
def ReachesVersion (decodes : String → Prop) (pairs : List (String × String)) : Prop :=
  ∃ before kv after, pairs = before ++ kv :: after ∧ Unsupported kv ∧
    ∀ p ∈ before, Decodable decodes p

theorem not_reachesVersion_nil {decodes : String → Prop} : ¬ ReachesVersion decodes [] := by
  rintro ⟨before, kv, after, h, _⟩
  simp at h

theorem reachesVersion_cons {decodes : String → Prop} {kv : String × String}
    {pairs : List (String × String)} : ReachesVersion decodes (kv :: pairs) ↔
      Unsupported kv ∨ Decodable decodes kv ∧ ReachesVersion decodes pairs := by
  constructor
  · rintro ⟨before, kv', after, h, hv, hbefore⟩
    cases before with
    | nil =>
      obtain ⟨rfl, _⟩ := List.cons.inj h
      exact Or.inl hv
    | cons p before =>
      obtain ⟨rfl, rfl⟩ := List.cons.inj h
      obtain ⟨hp, hbefore⟩ := List.forall_mem_cons.mp hbefore
      exact Or.inr ⟨hp, before, kv', after, rfl, hv, hbefore⟩
  · rintro (hv | ⟨hkv, before, kv', after, rfl, hv, hbefore⟩)
    · exact ⟨[], kv, pairs, rfl, hv, by simp⟩
    · exact ⟨kv :: before, kv', after, rfl, hv, List.forall_mem_cons.mpr ⟨hkv, hbefore⟩⟩

variable {hex : HexCodec} {uri relay : String} {kv : String × String}
  {pairs : List (String × String)} {slots : Connect.Slots}

/-- The texts the library's codec can read. -/
def Decodes (hex : HexCodec) (s : String) : Prop := ∃ b, hex.decode s = .ok b

/-- A pair is taken exactly if it is no unsupported version and can be decoded. -/
theorem taken_iff : Taken hex kv ↔ ¬ Unsupported kv ∧ Decodable (Decodes hex) kv := by
  unfold Taken Unsupported Decodable Decodes
  tauto

theorem turn_unsupported (hkey : Free '=' kv.1) (h : Unsupported kv) :
    slots.turn hex (render kv) = .error (unsupported kv.2) := by
  obtain ⟨key, val⟩ := kv
  obtain ⟨rfl, h1, h2⟩ := h
  have hcut : splitOnce '=' (render ("v", val)) = some ("v", val) := splitOnce_append hkey val
  simp only [Connect.Slots.turn, hcut, library_parse_unsupported h1 h2, Except.map]

/-- A wallet key or secret that cannot be decoded is reported as such. -/
theorem turn_undecodable (hkey : Free '=' kv.1) (h : ¬ Decodable (Decodes hex) kv) :
    ∃ e, slots.turn hex (render kv) = .error ("bad hex: " ++ e) := by
  obtain ⟨key, val⟩ := kv
  obtain ⟨hk, hval⟩ := Classical.not_imp.mp h
  have hcut : splitOnce '=' (render (key, val)) = some (key, val) := splitOnce_append hkey val
  cases hdecode : hex.decode val with
  | ok b => exact absurd ⟨b, hdecode⟩ hval
  | error e =>
    refine ⟨e, ?_⟩
    simp only at hk
    rcases hk with rfl | rfl <;>
      simp [Connect.Slots.turn, hcut, Connect.decode, hdecode, Except.map, Except.mapError]

/-- The loop reports a version exactly if it reaches an unsupported one. -/
theorem loop_unsupported_iff (hkeys : ∀ kv ∈ pairs, Free '=' kv.1) (slots : Connect.Slots) :
    (∃ other, (pairs.map render).foldlM (Connect.Slots.turn hex) slots =
      .error (unsupported other)) ↔ ReachesVersion (Decodes hex) pairs := by
  induction pairs generalizing slots with
  | nil => exact iff_of_false (by rintro ⟨other, h⟩; cases h) not_reachesVersion_nil
  | cons kv pairs ih =>
    obtain ⟨hkey, hkeys⟩ := List.forall_mem_cons.mp hkeys
    rw [List.map_cons, List.foldlM_cons, reachesVersion_cons]
    by_cases hv : Unsupported kv
    · rw [turn_unsupported hkey hv]
      exact iff_of_true ⟨kv.2, rfl⟩ (Or.inl hv)
    by_cases hd : Decodable (Decodes hex) kv
    · rw [turn_render hex slots hkey (taken_iff.mpr ⟨hv, hd⟩), or_iff_right hv, and_iff_right hd]
      exact ih hkeys (slots.put hex kv)
    · obtain ⟨e, he⟩ : ∃ e, slots.turn hex (render kv) = .error ("bad hex: " ++ e) :=
        turn_undecodable hkey hd
      rw [he]
      refine iff_of_false ?_ (by simp [hv, hd])
      rintro ⟨other, h⟩
      exact ne_unsupported (by simp) other (Except.error.inj h)

/-- What is missing at the end is no version error. -/
theorem build_error_ne {e : String} (h : slots.build relay = .error e) (other : String) :
    e ≠ unsupported other := by
  have texts : e = "missing v" ∨ e = "missing wallet_pk" ∨ e = "missing secret" := by
    unfold Connect.Slots.build at h
    cases hv : slots.version with
    | none =>
      rw [hv] at h
      exact Or.inl (Except.error.inj h).symm
    | some version =>
      cases hw : slots.walletPk with
      | none =>
        rw [hv, hw] at h
        exact Or.inr (Or.inl (Except.error.inj h).symm)
      | some walletPk =>
        cases hs : slots.secret with
        | none =>
          rw [hv, hw, hs] at h
          exact Or.inr (Or.inr (Except.error.inj h).symm)
        | some secret =>
          rw [hv, hw, hs] at h
          cases h
  rcases texts with rfl | rfl | rfl
  · exact ne_unsupported (by simp) other
  · exact ne_unsupported (by simp) other
  · exact ne_unsupported (by simp) other

theorem parse_of_pieces (h : Pieces uri relay pairs) :
    ConnString.parse hex uri =
      (pairs.map render).foldlM (Connect.Slots.turn hex) {} >>= (·.build relay) := by
  obtain ⟨query, rfl, hpieces⟩ := h.text
  rw [Connect.parse_query h.relayFree, hpieces]

theorem parse_unsupported_iff (h : Pieces uri relay pairs) :
    (∃ other, ConnString.parse hex uri = .error (unsupported other)) ↔
      ReachesVersion (Decodes hex) pairs := by
  rw [← loop_unsupported_iff h.keysFree {}, parse_of_pieces h]
  cases (pairs.map render).foldlM (Connect.Slots.turn hex) {} with
  | error e =>
    show (∃ other, (Except.error e : Except String ConnString) = .error (unsupported other)) ↔ _
    simp only [Except.error.injEq]
  | ok slots =>
    refine iff_of_false ?_ (by rintro ⟨other, h⟩; cases h)
    rintro ⟨other, hbuild⟩
    exact build_error_ne hbuild other rfl

/-- The example reports a version when the library does, over the example's codec. -/
theorem parsedConn_unsupported_iff :
    (∃ other, ParsedConn.parse uri = .error (.err (unsupported other))) ↔
      ∃ other, ConnString.parse Hex.codec uri = .error (unsupported other) := by
  refine exists_congr fun other => ?_
  exact ((parse_related uri).error_iff fun d d' h => h other).symm

/-- **When the version gates.** Of a query of pairs, a parser reports an unsupported version
exactly if such a `v` stands before every wallet key and secret that the parser's own
codec cannot decode. -/
theorem version_gates_iff (hex : HexCodec) (h : Pieces uri relay pairs) :
    ((∃ other, ConnString.parse hex uri = .error ("UNSUPPORTED_VERSION: " ++ other)) ↔
      ReachesVersion (fun s => ∃ b, hex.decode s = .ok b) pairs) ∧
    ((∃ other, ParsedConn.parse uri = .error (.err ("UNSUPPORTED_VERSION: " ++ other))) ↔
      ReachesVersion (fun s => ∃ b, Hex.decode s = .ok b) pairs) := by
  refine ⟨parse_unsupported_iff h, ?_⟩
  have hdecodes : Decodes Hex.codec = fun s => ∃ b, Hex.decode s = .ok b := by
    funext s
    simp only [Decodes, Hex.codec_decode_iff]
  rw [← hdecodes, ← parse_unsupported_iff h]
  exact parsedConn_unsupported_iff

/-- A string of version 3 with a wallet key that is no hex, before and behind the `v`. -/
def hiddenVersion : List (String × String) := [("wallet_pk", "zz"), ("v", "3"), ("secret", "00")]
def openVersion : List (String × String) := [("v", "3"), ("wallet_pk", "zz"), ("secret", "00")]

theorem hiddenVersion_pieces : Pieces "bwc://r?wallet_pk=zz&v=3&secret=00" "r" hiddenVersion where
  relayFree := by decide
  keysFree := by decide
  text := ⟨"wallet_pk=zz&v=3&secret=00", rfl, by decide +kernel⟩

theorem openVersion_pieces : Pieces "bwc://r?v=3&wallet_pk=zz&secret=00" "r" openVersion where
  relayFree := by decide
  keysFree := by decide
  text := ⟨"v=3&wallet_pk=zz&secret=00", rfl, by decide +kernel⟩

theorem version_gates_open :
    (∃ other, ConnString.parse Connect.lowerHex "bwc://r?v=3&wallet_pk=zz&secret=00" =
      .error ("UNSUPPORTED_VERSION: " ++ other)) ∧
    ∃ other, ParsedConn.parse "bwc://r?v=3&wallet_pk=zz&secret=00" =
      .error (.err ("UNSUPPORTED_VERSION: " ++ other)) := by
  obtain ⟨hlibrary, hexample⟩ := version_gates_iff Connect.lowerHex openVersion_pieces
  have first (decodes : String → Prop) : ReachesVersion decodes openVersion :=
    ⟨[], ("v", "3"), _, rfl, ⟨rfl, by decide, by decide⟩, by simp⟩
  exact ⟨hlibrary.mpr (first _), hexample.mpr (first _)⟩

/-- Both parsers report the hidden version as bad hex. -/
theorem version_hidden_by_hex :
    (¬ ∀ uri relay pairs, Pieces uri relay pairs → (∃ kv ∈ pairs, Unsupported kv) →
      ∃ other, ConnString.parse Connect.lowerHex uri =
        .error ("UNSUPPORTED_VERSION: " ++ other)) ∧
    ¬ ∀ uri relay pairs, Pieces uri relay pairs → (∃ kv ∈ pairs, Unsupported kv) →
      ∃ other, ParsedConn.parse uri = .error (.err ("UNSUPPORTED_VERSION: " ++ other)) := by
  have hv : ∃ kv ∈ hiddenVersion, Unsupported kv :=
    ⟨("v", "3"), by simp [hiddenVersion], rfl, by decide, by decide⟩
  constructor
  · intro h
    obtain ⟨other, hparse⟩ := h _ _ _ hiddenVersion_pieces hv
    have hbad : ConnString.parse Connect.lowerHex "bwc://r?wallet_pk=zz&v=3&secret=00" =
        .error ("bad hex: " ++ "InvalidCharacter") := by decide +kernel
    exact ne_unsupported (by simp) other (Except.error.inj (hbad.symm.trans hparse))
  · intro h
    obtain ⟨other, hparse⟩ := h _ _ _ hiddenVersion_pieces hv
    have hbad : ParsedConn.parse "bwc://r?wallet_pk=zz&v=3&secret=00" =
        .error (.err ("bad hex: " ++ "invalid digit found in string")) := by decide +kernel
    exact ne_unsupported (by simp) other
      (Failure.err.inj (Except.error.inj (hbad.symm.trans hparse)))

end HpkeDemo.Upgrade
