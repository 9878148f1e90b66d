import HpkeDemo.Connect.Injection

/-! The params of a connection string as a list, and what their order decides. A key
with an arm of its own is read at its last occurrence, so the order counts exactly
where such a key stands twice with different values. -/
namespace HpkeDemo.Connect
open Text

/-- The pairs of a string's query, in order. -/
def params (uri : String) : List (String × String) :=
  (splitOnce '?' uri).elim [] fun cut => pairsIn (split '&' cut.2)

/-- The params that `parse` has no arm for. -/
def unrecognised (uri : String) : List (String × String) :=
  (params uri).filter (·.1 ∉ reserved)

/-- `uri'` is `uri` with the params in another order. -/
def Permuted (uri uri' : String) : Prop :=
  ∃ relay query query', Free '?' relay ∧ uri = "bwc://" ++ relay ++ "?" ++ query ∧
    uri' = "bwc://" ++ relay ++ "?" ++ query' ∧ (split '&' query).Perm (split '&' query')

/-- Under this key `parse` makes the same of both values. -/
def SameMeaning (hex : HexCodec) (key x y : String) : Prop :=
  (key = "v" ∨ key = "token" → x = y) ∧
  (key = "wallet_pk" ∨ key = "secret" → hex.decode x = hex.decode y)

instance (hex : HexCodec) (key x y : String) : Decidable (SameMeaning hex key x y) :=
  inferInstanceAs (Decidable (_ ∧ _))

/-- No key that `parse` has an arm for stands with two different values. -/
def OneValuePerKey (hex : HexCodec) (uri : String) : Prop :=
  ∀ kv ∈ params uri, ∀ kv' ∈ params uri, kv.1 = kv'.1 → SameMeaning hex kv.1 kv.2 kv'.2

instance (hex : HexCodec) (uri : String) : Decidable (OneValuePerKey hex uri) :=
  inferInstanceAs (Decidable (∀ kv ∈ params uri, ∀ kv' ∈ params uri, _ → _))

/-- The same record but for the order of its relay params. -/
structure SameUpToOrder (c c' : ConnString) : Prop where
  relay : c.relay = c'.relay
  version : c.version = c'.version
  walletPk : c.walletPk = c'.walletPk
  secret : c.secret = c'.secret
  token : c.token = c'.token
  relayParams : c.relayParams.Perm c'.relayParams

variable {hex : HexCodec} {uri uri' relay : String} {pairs pairs' : List (String × String)}
  {c c' : ConnString}

theorem params_uri {query : String} (h : Free '?' relay) :
    params ("bwc://" ++ relay ++ "?" ++ query) = pairsIn (split '&' query) := by
  have hfree : Free '?' ("bwc://" ++ relay) := free_append.mpr ⟨by decide, h⟩
  have hcut : splitOnce '?' ("bwc://" ++ relay ++ "?" ++ query) = some ("bwc://" ++ relay, query) :=
    splitOnce_append hfree query
  rw [params, hcut, Option.elim_some]

theorem Pieces.params_eq (h : Pieces uri relay pairs) : params uri = pairs := by
  obtain ⟨query, rfl, hpieces⟩ := h.text
  rw [params_uri h.relayFree, hpieces, pairsIn_render h.keysFree]

/-- An accepted string is read off its params. -/
theorem reads_params (h : ConnString.parse hex uri = .ok c) : Reads hex (params uri) c := by
  obtain ⟨pairs, hpieces, _, hreads⟩ := parse_eq_ok_iff.mp h
  rw [hpieces.params_eq]
  exact hreads

theorem relayParams_eq_unrecognised (h : ConnString.parse hex uri = .ok c) :
    c.relayParams = unrecognised uri := (reads_params h).relayParams

/-- Texts without `&` are the pieces of some query. -/
theorem exists_query {pieces : List String} (hne : pieces ≠ [])
    (hfree : ∀ piece ∈ pieces, Free '&' piece) : ∃ query, split '&' query = pieces := by
  induction pieces with
  | nil => exact absurd rfl hne
  | cons piece rest ih =>
    have hpiece := hfree piece List.mem_cons_self
    by_cases hrest : rest = []
    · exact ⟨piece, by rw [split_of_free hpiece, hrest]⟩
    · obtain ⟨query, hquery⟩ := ih hrest fun p hp => hfree p (List.mem_cons_of_mem _ hp)
      exact ⟨piece ++ "&" ++ query, by rw [split_amp, split_of_free hpiece, hquery]; rfl⟩

/-- The pairs in another order stand in a permuted string. -/
theorem Pieces.exists_permuted (h : Pieces uri relay pairs) (hperm : pairs.Perm pairs')
    (hne : pairs ≠ []) : ∃ uri', Permuted uri uri' ∧ Pieces uri' relay pairs' := by
  obtain ⟨query, huri, hpieces⟩ := h.text
  have hne' : pairs'.map render ≠ [] := by
    intro hnil
    rw [List.map_eq_nil_iff] at hnil
    exact hne (hnil ▸ hperm).eq_nil
  have hfree : ∀ piece ∈ pairs'.map render, Free '&' piece := by
    intro piece hp
    apply free_of_mem_split (s := query)
    rw [hpieces]
    exact (hperm.map render).mem_iff.mpr hp
  obtain ⟨query', hquery'⟩ := exists_query hne' hfree
  refine ⟨"bwc://" ++ relay ++ "?" ++ query',
    ⟨relay, query, query', h.relayFree, huri, rfl, ?_⟩, h.relayFree, ?_, query', rfl, hquery'⟩
  · rw [hpieces, hquery']
    exact hperm.map render
  · exact fun kv hkv => h.keysFree kv (hperm.mem_iff.mpr hkv)

/-- The last values of a key in two orders of the same pairs, if it has one meaning. -/
theorem sameMeaning_lastOf (hperm : pairs.Perm pairs')
    (hone : ∀ kv ∈ pairs, ∀ kv' ∈ pairs, kv.1 = kv'.1 → SameMeaning hex kv.1 kv.2 kv'.2)
    {key x : String} (h : lastOf key pairs = some x) :
    ∃ y, lastOf key pairs' = some y ∧ SameMeaning hex key x y := by
  have hmem := mem_of_lastOf h
  obtain ⟨y, hy⟩ := exists_lastOf ⟨_, hperm.mem_iff.mp hmem, rfl⟩
  exact ⟨y, hy, hone _ hmem _ (hperm.mem_iff.mpr (mem_of_lastOf hy)) rfl⟩

theorem lastOf_eq_none_of_perm {key : String} (hperm : pairs.Perm pairs')
    (h : lastOf key pairs = none) : lastOf key pairs' = none :=
  lastOf_eq_none_iff.mpr fun kv hkv => lastOf_eq_none_iff.mp h kv (hperm.mem_iff.mpr hkv)

/-- Pairs with one value a key denote one record, but for the order of its params. -/
theorem Reads.of_perm (h : Reads hex pairs c) (hperm : pairs.Perm pairs')
    (hone : ∀ kv ∈ pairs, ∀ kv' ∈ pairs, kv.1 = kv'.1 → SameMeaning hex kv.1 kv.2 kv'.2) :
    Reads hex pairs' { c with relayParams := pairs'.filter (·.1 ∉ reserved) } := by
  obtain ⟨⟨v, hv, hversion⟩, ⟨w, hw, hwallet⟩, ⟨s, hs, hsecret⟩, htoken, _⟩ := h
  obtain ⟨v', hv', sameV⟩ := sameMeaning_lastOf hperm hone hv
  obtain ⟨w', hw', sameW⟩ := sameMeaning_lastOf hperm hone hw
  obtain ⟨s', hs', sameS⟩ := sameMeaning_lastOf hperm hone hs
  refine ⟨⟨v', hv', ?_⟩, ⟨w', hw', ?_⟩, ⟨s', hs', ?_⟩, ?_, rfl⟩
  · rw [← sameV.1 (Or.inl rfl)]
    exact hversion
  · rw [← sameW.2 (Or.inl rfl)]
    exact hwallet
  · rw [← sameS.2 (Or.inr rfl)]
    exact hsecret
  · show c.token = lastOf "token" pairs'
    rw [htoken]
    cases ht : lastOf "token" pairs with
    | none => rw [lastOf_eq_none_of_perm hperm ht]
    | some t =>
      obtain ⟨t', ht', sameT⟩ := sameMeaning_lastOf hperm hone ht
      rw [ht', sameT.1 (Or.inr rfl)]

theorem Permuted.pieces (h : Permuted uri uri') (hpieces : Pieces uri relay pairs)
    (htaken : ∀ kv ∈ pairs, Taken hex kv) :
    ∃ pairs', pairs.Perm pairs' ∧ Pieces uri' relay pairs' := by
  obtain ⟨relay', query, query', hfree, huri, rfl, hperm⟩ := h
  obtain ⟨p, huri', hp⟩ := hpieces.text
  obtain ⟨rfl, rfl⟩ := uri_inj hpieces.relayFree hfree (huri'.symm.trans huri)
  have hok : ∀ piece ∈ split '&' query', ¬ Refused hex piece := by
    intro piece hpiece
    have hmem : piece ∈ pairs.map render := hp ▸ hperm.mem_iff.mpr hpiece
    obtain ⟨kv, hkv, rfl⟩ := List.mem_map.mp hmem
    exact not_refused_render (hpieces.keysFree kv hkv) (htaken kv hkv)
  obtain ⟨pairs', hquery', hkeys, _⟩ := exists_pairs_of_not_refused hok
  refine ⟨pairs', ?_, hfree, hkeys, query', rfl, hquery'⟩
  have hpairs : (pairsIn (split '&' p)).Perm (pairsIn (split '&' query')) := hperm.filterMap _
  rwa [hp, hquery', pairsIn_render hpieces.keysFree, pairsIn_render hkeys] at hpairs

/-- Any pair of a string can be put last. -/
theorem Pieces.exists_permuted_last (h : Pieces uri relay pairs) {kv : String × String}
    (hkv : kv ∈ pairs) : ∃ uri' pairs', Permuted uri uri' ∧ Pieces uri' relay pairs' ∧
      lastOf kv.1 pairs' = some kv.2 := by
  obtain ⟨before, after, rfl⟩ := List.append_of_mem hkv
  have hperm : (before ++ kv :: after).Perm (before ++ after ++ [kv]) := by
    rw [List.append_assoc]
    exact (List.perm_append_singleton kv after).symm.append_left before
  obtain ⟨uri', hpermuted, hpieces⟩ := h.exists_permuted hperm (by simp)
  exact ⟨uri', _, hpermuted, hpieces, by rw [lastOf_concat, if_pos rfl]⟩

/-- A record that survives every order of its string has the meaning of each pair. -/
theorem means_of_permuted (hpieces : Pieces uri relay pairs)
    (h : ∀ uri', Permuted uri uri' → ∃ c', ConnString.parse hex uri' = .ok c' ∧
      SameUpToOrder c c' ∧ c'.relayParams = unrecognised uri')
    {kv : String × String} (hkv : kv ∈ pairs) :
    (kv.1 = "v" → Version.parse kv.2 = .ok c.version) ∧
    (kv.1 = "wallet_pk" → hex.decode kv.2 = .ok c.walletPk) ∧
    (kv.1 = "secret" → hex.decode kv.2 = .ok c.secret) ∧
    (kv.1 = "token" → c.token = some kv.2) := by
  obtain ⟨uri', pairs', hpermuted, hpieces', hlast⟩ := hpieces.exists_permuted_last hkv
  obtain ⟨c', hparse, same, _⟩ := h uri' hpermuted
  have hreads := reads_params hparse
  rw [hpieces'.params_eq] at hreads
  obtain ⟨⟨v, hv, hversion⟩, ⟨w, hw, hwallet⟩, ⟨s, hs, hsecret⟩, htoken, _⟩ := hreads
  refine ⟨fun hk => ?_, fun hk => ?_, fun hk => ?_, fun hk => ?_⟩
  · obtain rfl := Option.some.inj (hv.symm.trans (hk ▸ hlast))
    rw [hversion, same.version]
  · obtain rfl := Option.some.inj (hw.symm.trans (hk ▸ hlast))
    rw [hwallet, same.walletPk]
  · obtain rfl := Option.some.inj (hs.symm.trans (hk ▸ hlast))
    rw [hsecret, same.secret]
  · rw [same.token, htoken]
    exact hk ▸ hlast

/-- **The order of the params counts exactly when a key has two values.** -/
theorem order_independent_iff (h : ConnString.parse hex uri = .ok c) :
    (∀ uri', Permuted uri uri' → ∃ c', ConnString.parse hex uri' = .ok c' ∧
      SameUpToOrder c c' ∧ c'.relayParams = unrecognised uri') ↔ OneValuePerKey hex uri := by
  obtain ⟨pairs, hpieces, htaken, hreads⟩ := parse_eq_ok_iff.mp h
  simp only [OneValuePerKey, hpieces.params_eq]
  constructor
  · intro hall kv hkv kv' hkv' hkey
    obtain ⟨version, walletPk, secret, token⟩ := means_of_permuted hpieces hall hkv
    obtain ⟨version', walletPk', secret', token'⟩ := means_of_permuted hpieces hall hkv'
    rw [← hkey] at version' walletPk' secret' token'
    constructor
    · rintro (hk | hk)
      · exact version_parse_inj (version hk) (version' hk)
      · exact Option.some.inj ((token hk).symm.trans (token' hk))
    · rintro (hk | hk)
      · rw [walletPk hk, walletPk' hk]
      · rw [secret hk, secret' hk]
  · intro hone uri' hpermuted
    obtain ⟨pairs', hperm, hpieces'⟩ := hpermuted.pieces hpieces htaken
    have htaken' : ∀ kv ∈ pairs', Taken hex kv := fun kv hkv => htaken kv (hperm.mem_iff.mpr hkv)
    refine ⟨{ c with relayParams := pairs'.filter (·.1 ∉ reserved) },
      parse_eq_ok_iff.mpr ⟨pairs', hpieces', htaken', hreads.of_perm hperm hone⟩,
      ⟨rfl, rfl, rfl, rfl, rfl, ?_⟩, ?_⟩
    · rw [hreads.relayParams]
      exact hperm.filter _
    · rw [unrecognised, hpieces'.params_eq]

/-- A secret given twice, with two values. -/
def twice : String := "bwc://r?v=1&wallet_pk=01&secret=aa&secret=bb"

theorem order_decides_secret : ¬ ∀ uri c, ConnString.parse lowerHex uri = .ok c →
    ∀ uri', Permuted uri uri' → ∃ c', ConnString.parse lowerHex uri' = .ok c' ∧
      SameUpToOrder c c' := by
  intro h
  have hparse : ConnString.parse lowerHex twice = .ok ⟨"r", .V1, [0x01], [0xbb], none, []⟩ := by
    decide +kernel
  have hother : ConnString.parse lowerHex "bwc://r?v=1&wallet_pk=01&secret=bb&secret=aa" =
      .ok ⟨"r", .V1, [0x01], [0xaa], none, []⟩ := by decide +kernel
  obtain ⟨c', hc', same⟩ := h _ _ hparse _
    ⟨"r", "v=1&wallet_pk=01&secret=aa&secret=bb", "v=1&wallet_pk=01&secret=bb&secret=aa",
      by decide, rfl, rfl, by decide +kernel⟩
  obtain rfl := Except.ok.inj (hother.symm.trans hc')
  cases same.secret

/-- One secret twice, and a param of the relay's twice. -/
theorem order_independent_repeated : ∃ c', ConnString.parse lowerHex
      "bwc://r?k=2&secret=aa&v=1&k=1&wallet_pk=01&secret=aa" = .ok c' ∧
    SameUpToOrder ⟨"r", .V1, [0x01], [0xaa], none, [("k", "1"), ("k", "2")]⟩ c' ∧
    c'.relayParams = unrecognised "bwc://r?k=2&secret=aa&v=1&k=1&wallet_pk=01&secret=aa" := by
  have hparse : ConnString.parse lowerHex "bwc://r?v=1&k=1&wallet_pk=01&secret=aa&secret=aa&k=2" =
      .ok ⟨"r", .V1, [0x01], [0xaa], none, [("k", "1"), ("k", "2")]⟩ := by decide +kernel
  refine (order_independent_iff hparse).mpr ?_ _ ?_
  · decide +kernel
  · exact ⟨"r", "v=1&k=1&wallet_pk=01&secret=aa&secret=aa&k=2",
      "k=2&secret=aa&v=1&k=1&wallet_pk=01&secret=aa", by decide, rfl, rfl, by decide +kernel⟩

end HpkeDemo.Connect
