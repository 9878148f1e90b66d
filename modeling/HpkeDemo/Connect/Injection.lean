import HpkeDemo.Connect.RoundTrip

/-! Which free texts can change the wallet key, the secret or the version a client
reads. `to_uri` escapes nothing and `parse` lets a later pair replace an earlier
one, so the relay, the token and the relay params can smuggle pairs in. -/
namespace HpkeDemo.Connect
open Text

/-- The pieces found before the hex fields: the version pair, behind whatever the
relay holds after its first `?`. -/
def leadPieces (c : ConnString) : List String :=
  match splitOnce '?' c.relay with
  | none => [render (versionPair c)]
  | some (_, rest) => split '&' (rest ++ "?" ++ render (versionPair c))

/-- The relay `parse` will report. -/
def relayHead (c : ConnString) : String := (splitOnce '?' c.relay).elim c.relay Prod.fst

/-- `parse` fails on this piece. -/
def Refused (hex : HexCodec) (piece : String) : Prop :=
  ∀ kv, splitOnce '=' piece = some kv → ¬ Taken hex kv

def pairsIn (pieces : List String) : List (String × String) := pieces.filterMap (splitOnce '=')

/-- Either some piece around the hex fields is refused, or no version pair is
left, or the last pair of each key among those pieces carries the record's own
value: its version before or after the hex fields, its key and secret after. -/
def Harmless (hex : HexCodec) (c : ConnString) : Prop :=
  (∃ piece ∈ leadPieces c ++ tailPieces c, Refused hex piece) ∨
  lastOf "v" (pairsIn (leadPieces c ++ tailPieces c)) = none ∨
  (lastOf "v" (pairsIn (leadPieces c ++ tailPieces c)) = some (versionPair c).2 ∧
    (∀ x, lastOf "wallet_pk" (pairsIn (tailPieces c)) = some x → hex.decode x = .ok c.walletPk) ∧
    ∀ x, lastOf "secret" (pairsIn (tailPieces c)) = some x → hex.decode x = .ok c.secret)

/-- All pieces of the query. -/
def allPieces (hex : HexCodec) (c : ConnString) : List String :=
  leadPieces c ++ ((ownPairs hex c).map render ++ tailPieces c)

theorem pairsIn_append (xs ys : List String) : pairsIn (xs ++ ys) = pairsIn xs ++ pairsIn ys :=
  List.filterMap_append

theorem pairsIn_render {pairs : List (String × String)} (h : ∀ kv ∈ pairs, Free '=' kv.1) :
    pairsIn (pairs.map render) = pairs := by
  rw [pairsIn, List.filterMap_map]
  have cut : ∀ kv ∈ pairs, (splitOnce '=' ∘ render) kv = some kv :=
    fun kv hkv => splitOnce_append (h kv hkv) kv.2
  rw [List.filterMap_congr cut, List.filterMap_some]

/-- Pieces that are not refused are the rendered pairs they are read as. -/
theorem exists_pairs_of_not_refused {hex : HexCodec} {pieces : List String}
    (h : ∀ piece ∈ pieces, ¬ Refused hex piece) :
    ∃ pairs : List (String × String), pieces = pairs.map render ∧
      (∀ kv ∈ pairs, Free '=' kv.1) ∧ ∀ kv ∈ pairs, Taken hex kv := by
  induction pieces with
  | nil => exact ⟨[], rfl, by simp, by simp⟩
  | cons piece pieces ih =>
    obtain ⟨pairs, rfl, hkeys, htaken⟩ := ih fun p hp => h p (List.mem_cons_of_mem _ hp)
    have hp := h piece List.mem_cons_self
    simp only [Refused, not_forall, not_not] at hp
    obtain ⟨kv, hcut, htake⟩ := hp
    obtain ⟨hkey, htext⟩ := splitOnce_eq_some_iff.mp hcut
    exact ⟨kv :: pairs, by rw [List.map_cons, htext]; rfl,
      List.forall_mem_cons.mpr ⟨hkey, hkeys⟩, List.forall_mem_cons.mpr ⟨htake, htaken⟩⟩

theorem not_refused_render {hex : HexCodec} {kv : String × String} (hkey : Free '=' kv.1)
    (htaken : Taken hex kv) : ¬ Refused hex (render kv) :=
  fun h => h kv (splitOnce_append hkey kv.2) htaken

/-- A URI fixes its relay and its query. -/
theorem uri_inj {a b p q : String} (ha : Free '?' a) (hb : Free '?' b)
    (h : "bwc://" ++ a ++ "?" ++ p = "bwc://" ++ b ++ "?" ++ q) : a = b ∧ p = q := by
  have rest : a ++ "?" ++ p = b ++ "?" ++ q := by
    apply (String.append_right_inj "bwc://").mp
    simpa only [String.append_assoc] using h
  have cut : some (a, p) = some (b, q) :=
    calc some (a, p) = splitOnce '?' (a ++ "?" ++ p) := (splitOnce_append ha p).symm
      _ = splitOnce '?' (b ++ "?" ++ q) := by rw [rest]
      _ = some (b, q) := splitOnce_append hb q
  exact Prod.mk.inj (Option.some.inj cut)

/-- What `parse` sees of a record's URI. -/
theorem toUri_eq {hex : HexCodec} (lawful : hex.Lawful) (c : ConnString) :
    Free '?' (relayHead c) ∧ ∃ query, c.toUri hex = "bwc://" ++ relayHead c ++ "?" ++ query ∧
      split '&' query = allPieces hex c := by
  obtain ⟨query, htext, hsplit⟩ := toUri_pieces lawful c
  cases hcut : splitOnce '?' c.relay with
  | none =>
    refine ⟨by simpa [relayHead, hcut] using splitOnce_eq_none_iff.mp hcut, query, ?_, ?_⟩
    · simpa [relayHead, hcut] using htext
    · have own : Free '&' (render (versionPair c)) := by
        simp only [render, versionPair, free_append]
        cases c.version <;> decide
      simpa [allPieces, leadPieces, hcut, split_of_free own] using hsplit ""
  | some cut =>
    obtain ⟨head, rest⟩ := cut
    obtain ⟨hfree, hrelay⟩ := splitOnce_eq_some_iff.mp hcut
    refine ⟨by simpa [relayHead, hcut] using hfree, rest ++ "?" ++ query, ?_, ?_⟩
    · have hhead : relayHead c = head := by simp [relayHead, hcut]
      rw [htext, hhead, hrelay]
      simp only [String.append_assoc]
      rfl
    · simpa [allPieces, leadPieces, hcut] using hsplit (rest ++ "?")

/-- Parsing a record's own URI, piece by piece. -/
theorem parse_toUri_iff {hex : HexCodec} (lawful : hex.Lawful) {c d : ConnString} :
    ConnString.parse hex (c.toUri hex) = .ok d ↔
      d.relay = relayHead c ∧ (∀ piece ∈ allPieces hex c, ¬ Refused hex piece) ∧
        Reads hex (pairsIn (allPieces hex c)) d := by
  obtain ⟨hfree, query, htext, hsplit⟩ := toUri_eq lawful c
  rw [parse_eq_ok_iff]
  constructor
  · rintro ⟨pairs, ⟨hrelay, hkeys, query', htext', hpieces⟩, htaken, hreads⟩
    obtain ⟨hhead, rfl⟩ := uri_inj hfree hrelay (htext.symm.trans htext')
    rw [hsplit] at hpieces
    refine ⟨hhead.symm, ?_, ?_⟩
    · intro piece hp
      rw [hpieces] at hp
      obtain ⟨kv, hkv, rfl⟩ := List.mem_map.mp hp
      exact not_refused_render (hkeys kv hkv) (htaken kv hkv)
    · rwa [hpieces, pairsIn_render hkeys]
  · rintro ⟨hrelay, hok, hreads⟩
    obtain ⟨pairs, hpieces, hkeys, htaken⟩ := exists_pairs_of_not_refused hok
    rw [hpieces, pairsIn_render hkeys] at hreads
    exact ⟨pairs, ⟨hrelay ▸ hfree, hkeys, query, hrelay ▸ htext, hsplit.trans hpieces⟩, htaken,
      hreads⟩

/-- The trust-critical fields of two records. -/
def SameTrust (c d : ConnString) : Prop :=
  d.version = c.version ∧ d.walletPk = c.walletPk ∧ d.secret = c.secret

theorem ownPairs_ok {hex : HexCodec} (lawful : hex.Lawful) (c : ConnString) :
    ∀ kv ∈ ownPairs hex c, Free '=' kv.1 ∧ Taken hex kv := by
  simp only [ownPairs, List.forall_mem_cons]
  exact ⟨⟨(by decide : Free '=' "wallet_pk"), by simp, fun _ => ⟨_, lawful.decode_encode _⟩⟩,
    ⟨(by decide : Free '=' "secret"), by simp, fun _ => ⟨_, lawful.decode_encode _⟩⟩, by simp⟩

/-- Where the last pair of each key can stand. -/
theorem lastOf_allPieces {hex : HexCodec} (lawful : hex.Lawful) (c : ConnString) :
    lastOf "v" (pairsIn (allPieces hex c)) = lastOf "v" (pairsIn (leadPieces c ++ tailPieces c)) ∧
    lastOf "wallet_pk" (pairsIn (allPieces hex c)) =
      (lastOf "wallet_pk" (pairsIn (tailPieces c))).or (some (hex.encode c.walletPk)) ∧
    lastOf "secret" (pairsIn (allPieces hex c)) =
      (lastOf "secret" (pairsIn (tailPieces c))).or (some (hex.encode c.secret)) := by
  have own : pairsIn ((ownPairs hex c).map render) = ownPairs hex c :=
    pairsIn_render fun kv hkv => (ownPairs_ok lawful c kv hkv).1
  have hv : lastOf "v" (ownPairs hex c) = none := by simp [lastOf, ownPairs]
  have hw : lastOf "wallet_pk" (ownPairs hex c) = some (hex.encode c.walletPk) := by
    simp [lastOf, ownPairs]
  have hs : lastOf "secret" (ownPairs hex c) = some (hex.encode c.secret) := by
    simp [lastOf, ownPairs]
  simp only [allPieces, pairsIn_append, own, lastOf_append, hv, hw, hs]
  simp

theorem version_parse_inj {x y : String} {v : Version} (hx : Version.parse x = .ok v)
    (hy : Version.parse y = .ok v) : x = y := by
  rcases version_parse_ok_iff.mp hx with ⟨rfl, rfl⟩ | ⟨rfl, rfl⟩ <;>
    rcases version_parse_ok_iff.mp hy with ⟨rfl, h⟩ | ⟨rfl, h⟩ <;> first | rfl | cases h

/-- A hex field is read as `own` if the last pair behind `own` says so. -/
theorem field_survives {hex : HexCodec} (lawful : hex.Lawful) {own bytes : Bytes}
    {last : Option String} {x : String} (hlast : ∀ y, last = some y → hex.decode y = .ok own)
    (hx : last.or (some (hex.encode own)) = some x) (hread : hex.decode x = .ok bytes) :
    bytes = own := by
  have hown : hex.decode x = .ok own := by
    cases last with
    | none =>
      rw [← Option.some.inj hx]
      exact lawful.decode_encode own
    | some y =>
      rw [← Option.some.inj hx]
      exact hlast y rfl
  exact Except.ok.inj (hread.symm.trans hown)

/-- A harmless record keeps its trust-critical fields. -/
theorem sameTrust_of_harmless {hex : HexCodec} (lawful : hex.Lawful) {c d : ConnString}
    (h : Harmless hex c) (hparse : ConnString.parse hex (c.toUri hex) = .ok d) : SameTrust c d := by
  obtain ⟨_, hok, ⟨v, hv, hversion⟩, ⟨w, hw, hwallet⟩, ⟨s, hs, hsecret⟩, _, _⟩ :=
    (parse_toUri_iff lawful).mp hparse
  obtain ⟨lastV, lastW, lastS⟩ := lastOf_allPieces lawful c
  rcases h with ⟨piece, hp, hrefused⟩ | hnone | ⟨hown, hpk, hsec⟩
  · refine absurd hrefused (hok piece ?_)
    rw [List.mem_append] at hp
    rw [allPieces, List.mem_append, List.mem_append]
    exact hp.imp_right Or.inr
  · rw [lastV, hnone] at hv
    cases hv
  · refine ⟨?_, ?_, ?_⟩
    · rw [lastV, hown] at hv
      obtain rfl := Option.some.inj hv
      exact Except.ok.inj (hversion.symm.trans (version_parse_versionPair c))
    · exact field_survives lawful hpk (lastW ▸ hw) hwallet
    · exact field_survives lawful hsec (lastS ▸ hs) hsecret

/-- A record whose pieces are all taken and hold a version parses to something. -/
theorem exists_parse {hex : HexCodec} (lawful : hex.Lawful) {c : ConnString}
    (hok : ∀ piece ∈ leadPieces c ++ tailPieces c, ¬ Refused hex piece)
    (hversion : lastOf "v" (pairsIn (leadPieces c ++ tailPieces c)) ≠ none) :
    ∃ d, ConnString.parse hex (c.toUri hex) = .ok d := by
  have hall : ∀ piece ∈ allPieces hex c, ¬ Refused hex piece := by
    intro piece hp
    simp only [allPieces, List.mem_append, List.mem_map] at hp
    rcases hp with hp | ⟨kv, hkv, rfl⟩ | hp
    · exact hok piece (List.mem_append_left _ hp)
    · exact not_refused_render (ownPairs_ok lawful c kv hkv).1 (ownPairs_ok lawful c kv hkv).2
    · exact hok piece (List.mem_append_right _ hp)
  obtain ⟨pairs, hpieces, hkeys, htaken⟩ := exists_pairs_of_not_refused hall
  have hpairs : pairsIn (allPieces hex c) = pairs := by rw [hpieces, pairsIn_render hkeys]
  obtain ⟨lastV, lastW, lastS⟩ := lastOf_allPieces lawful c
  rw [hpairs] at lastV lastW lastS
  have present (key : String) (h : lastOf key pairs ≠ none) : ∃ kv ∈ pairs, kv.1 = key := by
    by_contra hno
    exact h (lastOf_eq_none_iff.mpr fun kv hkv he => hno ⟨kv, hkv, he⟩)
  have admissible : Admissible hex pairs := by
    refine ⟨htaken, ?_⟩
    simp only [List.forall_mem_cons]
    exact ⟨present _ (lastV ▸ hversion), present _ (by simp [lastW]), present _ (by simp [lastS]),
      by simp⟩
  obtain ⟨d, hrelay, hreads⟩ := admissible.reads (relayHead c)
  exact ⟨d, (parse_toUri_iff lawful).mpr ⟨hrelay, hall, hpairs.symm ▸ hreads⟩⟩

/-- **The trust-critical fields survive exactly for harmless records.** -/
theorem trust_survives_iff {hex : HexCodec} (lawful : hex.Lawful) (c : ConnString) :
    (∀ d, ConnString.parse hex (c.toUri hex) = .ok d → SameTrust c d) ↔ Harmless hex c := by
  constructor
  · intro h
    by_cases hrefused : ∃ piece ∈ leadPieces c ++ tailPieces c, Refused hex piece
    · exact Or.inl hrefused
    by_cases hnone : lastOf "v" (pairsIn (leadPieces c ++ tailPieces c)) = none
    · exact Or.inr (Or.inl hnone)
    have hok : ∀ piece ∈ leadPieces c ++ tailPieces c, ¬ Refused hex piece :=
      fun piece hp hr => hrefused ⟨piece, hp, hr⟩
    obtain ⟨d, hparse⟩ := exists_parse lawful hok hnone
    obtain ⟨sameV, sameW, sameS⟩ := h d hparse
    obtain ⟨_, _, ⟨v, hv, hversion⟩, ⟨w, hw, hwallet⟩, ⟨s, hs, hsecret⟩, _, _⟩ :=
      (parse_toUri_iff lawful).mp hparse
    obtain ⟨lastV, lastW, lastS⟩ := lastOf_allPieces lawful c
    refine Or.inr (Or.inr ⟨?_, ?_, ?_⟩)
    · rw [← lastV, hv]
      exact congrArg some (version_parse_inj (sameV ▸ hversion) (version_parse_versionPair c))
    · intro x hx
      rw [lastW, hx, Option.some_or] at hw
      rw [Option.some.inj hw, hwallet, sameW]
    · intro x hx
      rw [lastS, hx, Option.some_or] at hs
      rw [Option.some.inj hs, hsecret, sameS]
  · intro h d hparse
    exact sameTrust_of_harmless lawful h hparse

theorem trust_survives_awkward : ∃ d,
    ConnString.parse lowerHex (awkward.toUri lowerHex) = .ok d ∧ SameTrust awkward d := by
  have hparse := parse_toUri lowerHex_lawful awkward_carryable
  have harmless : Harmless lowerHex awkward :=
    Or.inr (Or.inr ⟨by decide, by decide, by decide⟩)
  exact ⟨awkward, hparse, (trust_survives_iff lowerHex_lawful awkward).mpr harmless awkward hparse⟩

/-- A token that holds a pair of its own. -/
def poisoned : ConnString :=
  ⟨"relay.example.com", .V1, [0x01], [0xaa, 0xbb], some "t&secret=00", []⟩

theorem token_replaces_secret :
    ¬ ∀ c d, ConnString.parse lowerHex (c.toUri lowerHex) = .ok d → SameTrust c d := by
  intro h
  have hparse : ConnString.parse lowerHex (poisoned.toUri lowerHex) =
      .ok { poisoned with secret := [0x00], token := some "t" } := by decide +kernel
  have := (h _ _ hparse).2.2
  cases this

end HpkeDemo.Connect
