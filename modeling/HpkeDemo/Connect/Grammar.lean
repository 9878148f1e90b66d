import Mathlib.Data.List.Induction
import HpkeDemo.Connect.ConnString

/-! What `parse` accepts and what it returns. A text is read as its relay and its
pairs; the loop's slots after some pairs are a function of those pairs
(`slotsOf`), so an accepted text and its result determine each other. -/
namespace HpkeDemo.Connect
open Text

/-- A pair as it stands between two `&`. -/
def render (kv : String × String) : String := kv.1 ++ "=" ++ kv.2

/-- The keys the loop has an arm for. -/
def reserved : List String := ["v", "wallet_pk", "secret", "token"]

/-- The value of the last pair with this key. -/
def lastOf (key : String) (pairs : List (String × String)) : Option String :=
  (pairs.filter (·.1 = key)).getLast?.map Prod.snd

/-- The loop takes this pair: a version it knows, hex it can decode. -/
def Taken (hex : HexCodec) (kv : String × String) : Prop :=
  (kv.1 = "v" → kv.2 = "1" ∨ kv.2 = "2") ∧
  (kv.1 = "wallet_pk" ∨ kv.1 = "secret" → ∃ b, hex.decode kv.2 = .ok b)

/-- `uri` is `bwc://`, a relay up to the first `?`, and pairs between `&`s, each
cut at its first `=`. -/
structure Pieces (uri relay : String) (pairs : List (String × String)) : Prop where
  relayFree : Free '?' relay
  keysFree : ∀ kv ∈ pairs, Free '=' kv.1
  text : ∃ query, uri = "bwc://" ++ relay ++ "?" ++ query ∧ split '&' query = pairs.map render

/-- Every pair is taken, and the three keys without a default are there. -/
structure Admissible (hex : HexCodec) (pairs : List (String × String)) : Prop where
  taken : ∀ kv ∈ pairs, Taken hex kv
  present : ∀ key ∈ ["v", "wallet_pk", "secret"], ∃ kv ∈ pairs, kv.1 = key

/-- The fields come from the last pair with their key, the rest in order. -/
structure Reads (hex : HexCodec) (pairs : List (String × String)) (c : ConnString) : Prop where
  version : ∃ x, lastOf "v" pairs = some x ∧ Version.parse x = .ok c.version
  walletPk : ∃ x, lastOf "wallet_pk" pairs = some x ∧ hex.decode x = .ok c.walletPk
  secret : ∃ x, lastOf "secret" pairs = some x ∧ hex.decode x = .ok c.secret
  token : c.token = lastOf "token" pairs
  relayParams : c.relayParams = pairs.filter (·.1 ∉ reserved)

section lastOf

theorem lastOf_concat (key : String) (pairs : List (String × String)) (kv : String × String) :
    lastOf key (pairs ++ [kv]) = if kv.1 = key then some kv.2 else lastOf key pairs := by
  by_cases h : kv.1 = key <;> simp [lastOf, h]

theorem lastOf_eq_none_iff {key : String} {pairs : List (String × String)} :
    lastOf key pairs = none ↔ ∀ kv ∈ pairs, kv.1 ≠ key := by
  simp [lastOf]

theorem mem_of_lastOf {key x : String} {pairs : List (String × String)}
    (h : lastOf key pairs = some x) : (key, x) ∈ pairs := by
  obtain ⟨kv, hkv, rfl⟩ := Option.map_eq_some_iff.mp h
  have := List.mem_filter.mp (List.mem_of_getLast? hkv)
  simp only [decide_eq_true_eq] at this
  exact this.2 ▸ this.1

theorem exists_lastOf {key : String} {pairs : List (String × String)}
    (h : ∃ kv ∈ pairs, kv.1 = key) : ∃ x, lastOf key pairs = some x := by
  apply Option.ne_none_iff_exists'.mp
  obtain ⟨kv, hm, hk⟩ := h
  exact fun hn => lastOf_eq_none_iff.mp hn kv hm hk

end lastOf

/-- The slots after a pair that is taken. -/
def Slots.put (hex : HexCodec) (slots : Slots) (kv : String × String) : Slots where
  version := if kv.1 = "v" then (Version.parse kv.2).toOption else slots.version
  walletPk := if kv.1 = "wallet_pk" then (hex.decode kv.2).toOption else slots.walletPk
  secret := if kv.1 = "secret" then (hex.decode kv.2).toOption else slots.secret
  token := if kv.1 = "token" then some kv.2 else slots.token
  relayParams := if kv.1 ∈ reserved then slots.relayParams else slots.relayParams ++ [kv]

/-- The slots after all of `pairs`. -/
def slotsOf (hex : HexCodec) (pairs : List (String × String)) : Slots where
  version := (lastOf "v" pairs).bind fun x => (Version.parse x).toOption
  walletPk := (lastOf "wallet_pk" pairs).bind fun x => (hex.decode x).toOption
  secret := (lastOf "secret" pairs).bind fun x => (hex.decode x).toOption
  token := lastOf "token" pairs
  relayParams := pairs.filter (·.1 ∉ reserved)

theorem slotsOf_concat (hex : HexCodec) (pairs : List (String × String)) (kv : String × String) :
    slotsOf hex (pairs ++ [kv]) = (slotsOf hex pairs).put hex kv := by
  simp only [slotsOf, Slots.put, lastOf_concat, List.filter_append]
  congr 1
  · split <;> simp_all
  · split <;> simp_all
  · split <;> simp_all
  · by_cases h : kv.1 ∈ reserved <;> simp [h]

theorem version_parse_ok_iff {x : String} {v : Version} :
    Version.parse x = .ok v ↔ x = "1" ∧ v = .V1 ∨ x = "2" ∧ v = .V2 := by
  unfold Version.parse
  split <;> simp_all [eq_comm]

theorem turn_render (hex : HexCodec) (slots : Slots) {kv : String × String}
    (hkey : Free '=' kv.1) (htaken : Taken hex kv) :
    slots.turn hex (render kv) = .ok (slots.put hex kv) := by
  obtain ⟨key, val⟩ := kv
  have cut : splitOnce '=' (render (key, val)) = some (key, val) := splitOnce_append hkey val
  simp only [Slots.turn, cut]
  split
  · rcases htaken.1 rfl with h | h <;> simp only at h <;> subst h <;> rfl
  · obtain ⟨b, hb⟩ := htaken.2 (Or.inl rfl)
    simp only at hb
    simp [decode, hb, Slots.put, reserved, Except.map, Except.mapError, Except.toOption]
  · obtain ⟨b, hb⟩ := htaken.2 (Or.inr rfl)
    simp only at hb
    simp [decode, hb, Slots.put, reserved, Except.map, Except.mapError, Except.toOption]
  · simp [Slots.put, reserved]
  · rename_i hv hp hs ht
    have other : key ∉ reserved := by simp only [reserved, List.mem_cons]; tauto
    have hv : key ≠ "v" := hv
    have hp : key ≠ "wallet_pk" := hp
    have hs : key ≠ "secret" := hs
    have ht : key ≠ "token" := ht
    simp [Slots.put, other, hv, hp, hs, ht]

/-- A turn that succeeds read a pair it could take. -/
theorem turn_eq_ok {hex : HexCodec} {slots slots' : Slots} {piece : String}
    (h : slots.turn hex piece = .ok slots') :
    ∃ kv, piece = render kv ∧ Free '=' kv.1 ∧ Taken hex kv := by
  cases hcut : splitOnce '=' piece with
  | none => simp [Slots.turn, hcut] at h
  | some kv =>
    obtain ⟨hfree, htext⟩ := splitOnce_eq_some_iff.mp hcut
    refine ⟨kv, htext, hfree, ?_, ?_⟩
    · intro hk
      obtain ⟨key, val⟩ := kv
      simp only at hk
      subst hk
      simp only [Slots.turn, hcut] at h
      cases hv : Version.parse val with
      | error e => simp [hv, Except.map] at h
      | ok v =>
        rcases version_parse_ok_iff.mp hv with hx | hx
        · exact Or.inl hx.1
        · exact Or.inr hx.1
    · intro hk
      obtain ⟨key, val⟩ := kv
      cases hd : hex.decode val with
      | ok b => exact ⟨b, rfl⟩
      | error e =>
        simp only at hk
        rcases hk with hk | hk <;> subst hk <;>
          simp [Slots.turn, hcut, decode, hd, Except.map, Except.mapError] at h

theorem loop_concat (hex : HexCodec) (pieces : List String) (piece : String) :
    (pieces ++ [piece]).foldlM (Slots.turn hex) {} =
      (pieces.foldlM (Slots.turn hex) {}).bind fun slots => slots.turn hex piece := by
  rw [List.foldlM_append]
  cases pieces.foldlM (Slots.turn hex) {} with
  | error e => rfl
  | ok slots => simp [bind, Except.bind]; split <;> simp_all [pure, Except.pure]

theorem loop_render (hex : HexCodec) {pairs : List (String × String)}
    (hkeys : ∀ kv ∈ pairs, Free '=' kv.1) (htaken : ∀ kv ∈ pairs, Taken hex kv) :
    (pairs.map render).foldlM (Slots.turn hex) {} = .ok (slotsOf hex pairs) := by
  induction pairs using List.reverseRecOn with
  | nil => rfl
  | append_singleton pairs kv ih =>
    have before := ih (fun x hx => hkeys x (List.mem_append_left _ hx))
      (fun x hx => htaken x (List.mem_append_left _ hx))
    rw [List.map_append, List.map_singleton, loop_concat, before, slotsOf_concat]
    exact turn_render hex (slotsOf hex pairs) (hkeys kv (by simp)) (htaken kv (by simp))

theorem loop_eq_ok {hex : HexCodec} {pieces : List String} {slots : Slots}
    (h : pieces.foldlM (Slots.turn hex) {} = .ok slots) :
    ∃ pairs : List (String × String), pieces = pairs.map render ∧
      (∀ kv ∈ pairs, Free '=' kv.1) ∧ ∀ kv ∈ pairs, Taken hex kv := by
  induction pieces using List.reverseRecOn generalizing slots with
  | nil => exact ⟨[], rfl, by simp, by simp⟩
  | append_singleton pieces piece ih =>
    rw [loop_concat] at h
    cases hb : pieces.foldlM (Slots.turn hex) {} with
    | error e => rw [hb] at h; cases h
    | ok mid =>
      rw [hb] at h
      obtain ⟨pairs, rfl, hkeys, htaken⟩ := ih hb
      obtain ⟨kv, rfl, hkey, htake⟩ := turn_eq_ok h
      refine ⟨pairs ++ [kv], by simp, ?_, ?_⟩
      · exact List.forall_mem_append.mpr ⟨hkeys, List.forall_mem_singleton.mpr hkey⟩
      · exact List.forall_mem_append.mpr ⟨htaken, List.forall_mem_singleton.mpr htake⟩

theorem loop_eq_ok_iff {hex : HexCodec} {pieces : List String} {slots : Slots} :
    pieces.foldlM (Slots.turn hex) {} = .ok slots ↔
      ∃ pairs, pieces = pairs.map render ∧ (∀ kv ∈ pairs, Free '=' kv.1) ∧
        (∀ kv ∈ pairs, Taken hex kv) ∧ slots = slotsOf hex pairs := by
  constructor
  · intro h
    obtain ⟨pairs, rfl, hkeys, htaken⟩ := loop_eq_ok h
    rw [loop_render hex hkeys htaken] at h
    exact ⟨pairs, rfl, hkeys, htaken, (Except.ok.inj h).symm⟩
  · rintro ⟨pairs, rfl, hkeys, htaken, rfl⟩
    exact loop_render hex hkeys htaken

theorem build_eq_ok_iff {slots : Slots} {relay : String} {c : ConnString} :
    slots.build relay = .ok c ↔ c.relay = relay ∧ slots.version = some c.version ∧
      slots.walletPk = some c.walletPk ∧ slots.secret = some c.secret ∧
      c.token = slots.token ∧ c.relayParams = slots.relayParams := by
  obtain ⟨version, walletPk, secret, token, relayParams⟩ := slots
  obtain ⟨r, v, w, s, t, ps⟩ := c
  cases version with
  | none => simp [Slots.build, bind, Except.bind]
  | some version =>
    cases walletPk with
    | none => simp [Slots.build, bind, Except.bind]
    | some walletPk =>
      cases secret with
      | none => simp [Slots.build, bind, Except.bind]
      | some secret =>
        simp [Slots.build, bind, Except.bind, pure, Except.pure]
        grind

theorem toOption_eq_some_iff {ε α : Type} {x : Except ε α} {a : α} :
    x.toOption = some a ↔ x = .ok a := by
  cases x <;> simp [Except.toOption]

/-- The slots of taken pairs build exactly the record those pairs denote. -/
theorem build_slotsOf_iff {hex : HexCodec} {pairs : List (String × String)} {relay : String}
    {c : ConnString} :
    (slotsOf hex pairs).build relay = .ok c ↔ c.relay = relay ∧ Reads hex pairs c := by
  simp only [build_eq_ok_iff, slotsOf, Option.bind_eq_some_iff, toOption_eq_some_iff]
  constructor
  · rintro ⟨hr, hv, hw, hs, ht, hp⟩
    exact ⟨hr, hv, hw, hs, ht, hp⟩
  · rintro ⟨hr, hv, hw, hs, ht, hp⟩
    exact ⟨hr, hv, hw, hs, ht, hp⟩

/-- Behind a relay without `?` stands the query. -/
theorem parse_query {hex : HexCodec} {relay : String} (h : Free '?' relay) (query : String) :
    ConnString.parse hex ("bwc://" ++ relay ++ "?" ++ query) =
      (split '&' query).foldlM (Slots.turn hex) {} >>= (·.build relay) := by
  have hrest : stripPrefix "bwc://" ("bwc://" ++ relay ++ "?" ++ query) =
      some (relay ++ "?" ++ query) :=
    stripPrefix_eq_some_iff.mpr (by simp only [String.append_assoc])
  have hcut : splitOnce '?' (relay ++ "?" ++ query) = some (relay, query) :=
    splitOnce_append h query
  simp only [ConnString.parse, hrest, hcut, bind, Except.bind, Option.elim_some]

theorem parse_eq_ok_iff {hex : HexCodec} {uri : String} {c : ConnString} :
    ConnString.parse hex uri = .ok c ↔
      ∃ pairs, Pieces uri c.relay pairs ∧ (∀ kv ∈ pairs, Taken hex kv) ∧ Reads hex pairs c := by
  constructor
  · intro h
    cases hrest : stripPrefix "bwc://" uri with
    | none => simp [ConnString.parse, hrest, bind, Except.bind] at h
    | some rest =>
      cases hcut : splitOnce '?' rest with
      | none => simp [ConnString.parse, hrest, hcut, bind, Except.bind] at h
      | some cut =>
        obtain ⟨relay, query⟩ := cut
        cases hloop : (split '&' query).foldlM (Slots.turn hex) {} with
        | error e => simp [ConnString.parse, hrest, hcut, hloop, bind, Except.bind] at h
        | ok slots =>
          simp only [ConnString.parse, hrest, hcut, hloop, bind, Except.bind,
            Option.elim_some] at h
          obtain ⟨pairs, hpieces, hkeys, htaken, rfl⟩ := loop_eq_ok_iff.mp hloop
          obtain ⟨rfl, hreads⟩ := build_slotsOf_iff.mp h
          obtain ⟨hfree, rfl⟩ := splitOnce_eq_some_iff.mp hcut
          refine ⟨pairs, ⟨hfree, hkeys, query, ?_, hpieces⟩, htaken, hreads⟩
          rw [stripPrefix_eq_some_iff.mp hrest, String.append_assoc, String.append_assoc,
            String.append_assoc]
          rfl
  · rintro ⟨pairs, ⟨hfree, hkeys, query, rfl, hpieces⟩, htaken, hreads⟩
    rw [parse_query hfree, loop_eq_ok_iff.mpr ⟨pairs, hpieces, hkeys, htaken, rfl⟩]
    exact build_slotsOf_iff.mpr ⟨rfl, hreads⟩

theorem admissible_of_reads {hex : HexCodec} {pairs : List (String × String)} {c : ConnString}
    (htaken : ∀ kv ∈ pairs, Taken hex kv) (h : Reads hex pairs c) : Admissible hex pairs := by
  obtain ⟨⟨v, hv, _⟩, ⟨w, hw, _⟩, ⟨s, hs, _⟩, _, _⟩ := h
  refine ⟨htaken, ?_⟩
  intro key hkey
  simp only [List.mem_cons, List.not_mem_nil, or_false] at hkey
  rcases hkey with rfl | rfl | rfl
  · exact ⟨_, mem_of_lastOf hv, rfl⟩
  · exact ⟨_, mem_of_lastOf hw, rfl⟩
  · exact ⟨_, mem_of_lastOf hs, rfl⟩

/-- Admissible pairs denote a record, whatever the relay in front of them. -/
theorem Admissible.reads {hex : HexCodec} {pairs : List (String × String)}
    (h : Admissible hex pairs) (relay : String) : ∃ c, c.relay = relay ∧ Reads hex pairs c := by
  obtain ⟨v, hv⟩ := exists_lastOf (h.present "v" (by simp))
  obtain ⟨w, hw⟩ := exists_lastOf (h.present "wallet_pk" (by simp))
  obtain ⟨s, hs⟩ := exists_lastOf (h.present "secret" (by simp))
  obtain ⟨walletPk, hwb⟩ := (h.taken _ (mem_of_lastOf hw)).2 (Or.inl rfl)
  obtain ⟨secret, hsb⟩ := (h.taken _ (mem_of_lastOf hs)).2 (Or.inr rfl)
  obtain ⟨version, hvp⟩ : ∃ version, Version.parse v = .ok version := by
    rcases (h.taken _ (mem_of_lastOf hv)).1 rfl with hx | hx <;> simp only at hx <;> subst hx
    · exact ⟨.V1, rfl⟩
    · exact ⟨.V2, rfl⟩
  exact ⟨⟨relay, version, walletPk, secret, lastOf "token" pairs,
    pairs.filter (·.1 ∉ reserved)⟩, rfl, ⟨v, hv, hvp⟩, ⟨w, hw, hwb⟩, ⟨s, hs, hsb⟩, rfl, rfl⟩

/-- **The parser accepts exactly its grammar**, and what it returns is read off
the pairs: last occurrence for the four keys, all other pairs in order. -/
theorem parse_accepts_exactly (hex : HexCodec) (uri : String) :
    ((∃ c, ConnString.parse hex uri = .ok c) ↔
      ∃ relay pairs, Pieces uri relay pairs ∧ Admissible hex pairs) ∧
    (∀ c, ConnString.parse hex uri = .ok c ↔
      ∃ pairs, Pieces uri c.relay pairs ∧ Admissible hex pairs ∧ Reads hex pairs c) ∧
    ∀ c pairs, Reads hex pairs c →
      (c.token = none ↔ ∀ kv ∈ pairs, kv.1 ≠ "token") ∧
      ∀ kv ∈ c.relayParams, kv.1 ∉ reserved := by
  have exact (c : ConnString) : ConnString.parse hex uri = .ok c ↔
      ∃ pairs, Pieces uri c.relay pairs ∧ Admissible hex pairs ∧ Reads hex pairs c := by
    rw [parse_eq_ok_iff]
    constructor
    · rintro ⟨pairs, hp, ht, hr⟩
      exact ⟨pairs, hp, admissible_of_reads ht hr, hr⟩
    · rintro ⟨pairs, hp, ha, hr⟩
      exact ⟨pairs, hp, ha.taken, hr⟩
  refine ⟨⟨?_, ?_⟩, exact, ?_⟩
  · rintro ⟨c, h⟩
    obtain ⟨pairs, hp, ha, _⟩ := (exact c).mp h
    exact ⟨c.relay, pairs, hp, ha⟩
  · rintro ⟨relay, pairs, hp, ha⟩
    obtain ⟨c, rfl, hr⟩ := ha.reads relay
    exact ⟨c, (exact c).mpr ⟨pairs, hp, ha, hr⟩⟩
  · intro c pairs hr
    refine ⟨by rw [hr.token, lastOf_eq_none_iff], ?_⟩
    intro kv hkv
    rw [hr.relayParams] at hkv
    simpa using (List.mem_filter.mp hkv).2

end HpkeDemo.Connect
