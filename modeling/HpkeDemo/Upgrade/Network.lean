import HpkeDemo.Bwc.Mailbox
import HpkeDemo.Upgrade.Secrets
import HpkeDemo.Upgrade.Versioned

/-! Connections of both versions side by side, over a hostile network. Wallets issue any
number of them, and the attacker holds private keys and secrets of its choice: a connection
of version 2 is safe as long as its own secret is, whatever keys are broken. -/
namespace HpkeDemo.Upgrade
open Text History
open Bwc (Knowledge)

variable {H : Hpke} {C : V2.Crates} {ι : Type}

/-- A connection string as issued, and the client that it was given to. -/
structure Issued (H : Hpke) (C : V2.Crates) where
  wallet : Wallet H C
  version : Version
  relay : String
  secret : Bytes
  client : Option (H.PrivateKey × H.PublicKey)
  relay_free : Free '?' relay
  client_keys : ∀ keys ∈ client, H.skToPk keys.1 = keys.2

namespace Issued

/-- The client's path: it parses the string, and seals by what it says. -/
def sealRequest (c : Issued H C) (rng : H.Randomness) (rng' : C.Randomness) (body : Bytes) :
    Except Failure Bytes := do
  let parsed ← ParsedConn.parse (c.wallet.connectionString c.version c.relay c.secret)
  clientSeal rng rng' parsed c.client body

def openRequest (c : Issued H C) (wire : Bytes) : Except Failure Bytes :=
  c.wallet.openWire c.version c.secret (c.client.map Prod.snd) wire

variable {c : Issued H C} {rng : H.Randomness} {rng' : C.Randomness} {body wire : Bytes}

theorem sealRequest_eq : c.sealRequest rng rng' body = clientSeal rng rng'
    { relay := c.relay, version := c.version, walletPk := c.wallet.keyBytes c.version,
      secret := c.secret } c.client body := by
  rw [sealRequest, c.wallet.parsedConn_connectionString c.version c.secret c.relay_free]
  rfl

theorem sealRequest_v1 (encodings : H.Encodings) (hv : c.version = .V1) :
    c.sealRequest rng rng' body = .ok wire ↔ ∃ keys ∈ c.client,
      Channel.sealWire H rng keys c.wallet.v1.2 c.secret Connect.INFO_REQUEST body = .ok wire := by
  have hread : V1.pkFromBytes H (c.wallet.keyBytes .V1) = .ok c.wallet.v1.2 :=
    mapError_eq_ok_iff.mpr (encodings.pk_from_to c.wallet.v1.2)
  rw [sealRequest_eq]
  simp only [clientSeal, hv, hread]
  cases c.client with
  | none => simp [bind, Except.bind, Except.mapError]
  | some keys =>
    simp only [Except.mapError, bind, Except.bind, Option.elim_some, Option.mem_some_iff,
      exists_eq_left', ← V1.sealWire_eq]
    cases V1.sealWire H rng c.wallet.v1.2 keys c.secret body <;> simp

theorem sealRequest_v2 (hv : c.version = .V2) : c.sealRequest rng rng' body = .ok wire ↔
    V2.sealWire C rng' (V2.ekBytes C (C.encapsulationKey c.wallet.v2.1)) c.secret body =
      .ok wire := by
  rw [sealRequest_eq, c.wallet.v2_keys]
  simp only [clientSeal, hv]
  rfl

theorem openRequest_v1 (hv : c.version = .V1) : c.openRequest wire = .ok body ↔
    ∃ keys ∈ c.client, Channel.openWire H c.wallet.v1.1 keys.2 c.secret Connect.INFO_REQUEST wire =
      .ok body := by
  rw [openRequest, hv]
  cases c.client with
  | none => simp [Wallet.openWire, bind, Except.bind]
  | some keys =>
    rw [Option.map_some, Wallet.openWire_v1, mapError_eq_ok_iff, V1.openWire_eq_ok_iff]
    simp

theorem openRequest_v2 (hv : c.version = .V2) : c.openRequest wire = .ok body ↔
    V2.openWire C c.wallet.v2.1 c.secret wire = .ok body := by
  rw [openRequest, hv]
  rfl

end Issued

/-- The key schedule makes the key and nonce of the secret, in some message. -/
def V2.Derives (C : V2.Crates) (secret key nonce : Bytes) : Prop :=
  ∃ shared, V2.derive C shared secret = .ok (key, nonce)

/-- The attacker can make `wire` under version 2: if its end is a ciphertext at all, under a
key and nonce of the key schedule, then some secret that the attacker holds makes these. -/
def MakesV2 (C : V2.Crates) (knows : Knowledge H) (wire : Bytes) : Prop :=
  ∀ (kem : {b : Bytes // b.length = V2.CIPHERTEXT_SIZE}) ct secret key nonce m,
    wire = kem.1 ++ ct → V2.Derives C secret key nonce → C.encrypt key nonce m = .ok ct →
      ∃ s, knows.secret s ∧ V2.Derives C s key nonce

/-- Under version 1 the secret is kept, or both private keys are. Under version 2 nothing but
the secret has to be. -/
def Safe (knows : Knowledge H) (c : Issued H C) : Prop :=
  match c.version with
  | .V1 => ¬ knows.secret c.secret ∨
      (∀ keys ∈ c.client, ¬ knows.key keys.2) ∧ ¬ knows.key c.wallet.v1.2
  | .V2 => ∀ s key nonce, knows.secret s → V2.Derives C s key nonce →
      ¬ V2.Derives C c.secret key nonce

inductive Event (ι : Type) where
  | sealed (i : ι) (body wire : Bytes)
  | opened (i : ι) (wire : Bytes) (result : Except Failure Bytes)

/-- The message went over the network. -/
def Observed (trace : List (Event ι)) (wire : Bytes) : Prop :=
  ∃ i body, .sealed i body wire ∈ trace

def CanSend (C : V2.Crates) (knows : Knowledge H) (trace : List (Event ι)) (wire : Bytes) : Prop :=
  Observed trace wire ∨ knows.Makes wire ∧ MakesV2 C knows wire

inductive Step (knows : Knowledge H) (conns : ι → Issued H C) :
    List (Event ι) → List (Event ι) → Prop where
  | seals (trace i rng rng' body wire)
      (h : (conns i).sealRequest rng rng' body = .ok wire) :
      Step knows conns trace (trace ++ [.sealed i body wire])
  | opens (trace i wire) (hwire : CanSend C knows trace wire) :
      Step knows conns trace (trace ++ [.opened i wire ((conns i).openRequest wire)])

inductive Reachable (knows : Knowledge H) (conns : ι → Issued H C) : List (Event ι) → Prop where
  | start : Reachable knows conns []
  | next {trace trace'} (h : Reachable knows conns trace) (step : Step knows conns trace trace') :
      Reachable knows conns trace'

/-- No two connections of version 1 have the same keys and secret, and no secrets of two
connections of version 2 make one key and nonce. -/
structure Distinct (conns : ι → Issued H C) : Prop where
  v1 : ∀ {i j}, (conns i).version = .V1 → (conns j).version = .V1 →
    (conns i).client.map Prod.snd = (conns j).client.map Prod.snd →
    (conns i).wallet.v1.2 = (conns j).wallet.v1.2 → (conns i).secret = (conns j).secret → i = j
  v2 : ∀ {i j key nonce}, (conns i).version = .V2 → (conns j).version = .V2 →
    V2.Derives C (conns i).secret key nonce → V2.Derives C (conns j).secret key nonce → i = j

/-- What an event says was sealed, was sealed by its connection's client. -/
def Genuine (conns : ι → Issued H C) : Event ι → Prop
  | .sealed i body wire => ∃ rng rng', (conns i).sealRequest rng rng' body = .ok wire
  | .opened .. => True

/-- The wallet of a safe connection opens exactly what the client sealed before. -/
def Exact (knows : Knowledge H) (conns : ι → Issued H C) (before : List (Event ι)) :
    Event ι → Prop
  | .opened i wire result => Safe knows (conns i) →
    ∀ body, result = .ok body ↔ .sealed i body wire ∈ before
  | .sealed .. => True

variable {LowOrder : H.PublicKey → Prop} {knows : Knowledge H} {conns : ι → Issued H C}
  {trace trace' : List (Event ι)} {i : ι} {body wire : Bytes}

section
variable (primitives : Primitives H C LowOrder)
include primitives

/-- What the client sealed, its wallet opens, under either version. -/
theorem opens_of_seal {c : Issued H C} {rng : H.Randomness} {rng' : C.Randomness}
    (h : c.sealRequest rng rng' body = .ok wire) : c.openRequest wire = .ok body := by
  cases hv : c.version with
  | V1 =>
    obtain ⟨⟨sk, pk⟩, hkeys, hseal⟩ := (Issued.sealRequest_v1 primitives.encodings hv).mp h
    obtain rfl : H.skToPk sk = pk := c.client_keys _ hkeys
    rw [← c.wallet.v1_keys] at hseal
    exact (Issued.openRequest_v1 hv).mpr
      ⟨_, hkeys, Channel.openWire_sealWire primitives.encodings primitives.correct hseal⟩
  | V2 =>
    rw [Issued.sealRequest_v2 hv] at h
    obtain ⟨wire', hseal, hopen⟩ :=
      V2.exists_sealWire primitives.crates c.wallet.v2.1 rng' c.secret body
    obtain rfl : wire = wire' := Except.ok.inj (h.symm.trans hseal)
    exact (Issued.openRequest_v2 hv).mpr hopen

theorem sealed_of_open_v1 (distinct : Distinct conns)
    (genuine : ∀ event ∈ trace, Genuine conns event) (hwire : CanSend C knows trace wire)
    (safe : Safe knows (conns i)) (hv : (conns i).version = .V1)
    (h : (conns i).openRequest wire = .ok body) : .sealed i body wire ∈ trace := by
  obtain ⟨keys, hkeys, hopen⟩ := (Issued.openRequest_v1 hv).mp h
  obtain ⟨skS, rng, hsk, hseal⟩ :=
    Channel.openWire_was_sealed primitives.encodings primitives.ideal hopen
  rw [(conns i).wallet.v1_keys] at hseal
  obtain ⟨j, body', hmem⟩ | ⟨hmakes, _⟩ := hwire
  · obtain ⟨rng, rng', hsealed⟩ := genuine _ hmem
    cases hv' : (conns j).version with
    | V1 =>
      obtain ⟨keys', hkeys', hseal'⟩ := (Issued.sealRequest_v1 primitives.encodings hv').mp hsealed
      obtain ⟨hpk, hpkR, hsecret, _, rfl⟩ :=
        Channel.sealWire_binds primitives.encodings primitives.ideal hseal hseal'
      have hclient : (conns i).client.map Prod.snd = (conns j).client.map Prod.snd := by
        rw [Option.mem_def.mp hkeys, Option.mem_def.mp hkeys']
        exact congrArg some hpk
      obtain rfl := distinct.v1 hv hv' hclient hpkR hsecret
      exact hmem
    | V2 =>
      rw [Issued.sealRequest_v2 hv'] at hsealed
      exact absurd (V1.openWire_eq_ok_iff.mpr hopen) (v1_rejects_v2 primitives hsealed)
  · rw [← hsk] at hseal
    obtain ⟨hsecret, hkey⟩ := hmakes skS rng _ _ _ _ hseal
    rw [Safe, hv] at safe
    obtain hkept | ⟨hclient, hwallet⟩ := safe
    · exact absurd hsecret hkept
    · rw [hsk] at hkey
      exact absurd hkey (not_or.mpr ⟨hclient keys hkeys, hwallet⟩)

theorem sealed_of_open_v2 (ideal : C.Ideal) (distinct : Distinct conns)
    (genuine : ∀ event ∈ trace, Genuine conns event) (hwire : CanSend C knows trace wire)
    (safe : Safe knows (conns i)) (hv : (conns i).version = .V2)
    (h : (conns i).openRequest wire = .ok body) : .sealed i body wire ∈ trace := by
  rw [Issued.openRequest_v2 hv] at h
  obtain ⟨kem, ct, key, nonce, hcut, hderive, hm⟩ := V2.openWire_eq_ok_iff.mp h
  obtain ⟨j, body', hmem⟩ | ⟨_, hmakes⟩ := hwire
  · obtain ⟨rng, rng', hsealed⟩ := genuine _ hmem
    cases hv' : (conns j).version with
    | V1 =>
      obtain ⟨keys, _, hseal⟩ := (Issued.sealRequest_v1 primitives.encodings hv').mp hsealed
      exact absurd h (v2_rejects_v1 primitives hseal)
    | V2 =>
      rw [Issued.sealRequest_v2 hv'] at hsealed
      obtain ⟨_, ek, key', nonce', ct', _, hderive', hct', hcut'⟩ :=
        V2.sealWire_eq_ok_iff.mp hsealed
      obtain ⟨_, rfl⟩ := List.append_inj (hcut.symm.trans hcut'.symm)
        (kem.2.trans (C.encapsulate ek rng').1.2.symm)
      obtain ⟨rfl, rfl⟩ := ideal hct' hm
      obtain rfl := distinct.v2 hv hv' ⟨_, hderive⟩ ⟨_, hderive'⟩
      obtain rfl : body = body' :=
        Except.ok.inj (hm.symm.trans (primitives.crates.decrypts hct'))
      exact hmem
  · obtain ⟨s, hs, hknown⟩ :=
      hmakes kem ct _ key nonce body hcut ⟨_, hderive⟩ (primitives.authentic hm)
    rw [Safe, hv] at safe
    exact absurd ⟨_, hderive⟩ (safe s key nonce hs hknown)

/-- A step adds one event, which is genuine, and exact if the wallet is asked. -/
theorem step_cases (ideal : C.Ideal) (distinct : Distinct conns)
    (genuine : ∀ event ∈ trace, Genuine conns event) (h : Step knows conns trace trace') :
    ∃ event, trace' = trace ++ [event] ∧ Genuine conns event ∧ Exact knows conns trace event := by
  cases h with
  | seals i rng rng' body wire h => exact ⟨_, rfl, ⟨rng, rng', h⟩, trivial⟩
  | opens i wire hwire =>
    refine ⟨_, rfl, trivial, fun safe body => ⟨fun h => ?_, fun hmem => ?_⟩⟩
    · cases hv : (conns i).version with
      | V1 => exact sealed_of_open_v1 primitives distinct genuine hwire safe hv h
      | V2 => exact sealed_of_open_v2 primitives ideal distinct genuine hwire safe hv h
    · obtain ⟨rng, rng', hseal⟩ := genuine _ hmem
      exact opens_of_seal primitives hseal

theorem reachable_inv (ideal : C.Ideal) (distinct : Distinct conns)
    (h : Reachable knows conns trace) :
    (∀ event ∈ trace, Genuine conns event) ∧ Each (Exact knows conns) trace := by
  induction h with
  | start => exact ⟨by simp, each_nil⟩
  | next h step ih =>
    obtain ⟨genuine, opened⟩ := ih
    obtain ⟨event, rfl, hgenuine, hexact⟩ :=
      step_cases primitives ideal distinct genuine step
    constructor
    · exact List.forall_mem_append.mpr ⟨genuine, List.forall_mem_singleton.mpr hgenuine⟩
    · exact each_concat.mpr ⟨opened, hexact⟩

end

/-- **Versions stay apart on one network.** In every run, the wallet opens a message on a safe
connection exactly if the connection's own client sealed it before, by the version that its
string says: however many connections of either version there are, and for version 2 even if
every private key is in the attacker's hands. -/
theorem versions_agree (primitives : Primitives H C LowOrder) (ideal : C.Ideal)
    (distinct : Distinct conns) (h : Reachable knows conns trace) :
    ∀ before after i wire result, trace = before ++ .opened i wire result :: after →
      Safe knows (conns i) → ∀ body, result = .ok body ↔ .sealed i body wire ∈ before := by
  intro before after i wire result htrace
  exact (reachable_inv primitives ideal distinct h).2 before _ after htrace

namespace Demo

theorem readable_ideal : Readable.crates.Ideal := hkdfCrates_ideal

/-- Only version 1 has a client with a key. -/
def holder : Version → Option (Clamped.hpke.PrivateKey × Clamped.hpke.PublicKey)
  | .V1 => some Readable.client
  | .V2 => none

def issuedSecret : Version → Bytes
  | .V1 => [7]
  | .V2 => [9]

theorem holder_keys (version : Version) :
    ∀ keys ∈ holder version, Clamped.hpke.skToPk keys.1 = keys.2 := by
  intro keys hkeys
  cases version with
  | V1 =>
    obtain rfl := Option.some.inj hkeys
    rfl
  | V2 => cases hkeys

/-- A connection of each version, from one wallet. -/
def issued (version : Version) : Issued Clamped.hpke Readable.crates where
  wallet := Readable.wallet
  version := version
  relay := "r"
  secret := issuedSecret version
  client := holder version
  relay_free := by decide
  client_keys := holder_keys version

/-- The attacker has broken every key, and the secret of version 1. -/
def broken : Knowledge Clamped.hpke where
  key _ := True
  secret s := s = [7]

theorem issued_distinct : Distinct issued where
  v1 hi hj _ _ _ := hi.trans hj.symm
  v2 hi hj _ _ := hi.trans hj.symm

/-- The first byte of the secret stands behind the info in the key. -/
theorem derive_secret {shared key nonce : Bytes} {b : UInt8}
    (h : V2.derive Readable.crates shared [b] = .ok (key, nonce)) : key[14]? = some b := by
  obtain ⟨okm, hokm, hkey⟩ := bind_eq_ok_iff.mp h
  rw [expect_eq_ok_iff] at hokm
  obtain ⟨rfl, _⟩ := Prod.mk.inj (Except.ok.inj hkey)
  rw [← Except.ok.inj hokm]
  rfl

theorem issued_safe : Safe broken (issued .V2) := by
  rintro s key nonce rfl ⟨shared, h⟩ ⟨shared', h'⟩
  have hbyte := (derive_secret h).symm.trans (derive_secret h')
  exact absurd hbyte (by decide)

/-- The client of version 2 seals 8, and the wallet opens it. -/
theorem upgraded_reachable (rng : Clamped.hpke.Randomness) (rng' : Readable.crates.Randomness) :
    ∃ wire, Reachable broken issued [.sealed .V2 [8] wire, .opened .V2 wire (.ok [8])] := by
  obtain ⟨wire, hseal, hopen⟩ := V2.exists_sealWire Readable.correct (issued .V2).wallet.v2.1
    rng' (issued .V2).secret [8]
  have hv : (issued .V2).version = .V2 := rfl
  have hsealed : (issued .V2).sealRequest rng rng' [8] = .ok wire :=
    (Issued.sealRequest_v2 hv).mpr hseal
  have hopened : (issued .V2).openRequest wire = .ok [8] := (Issued.openRequest_v2 hv).mpr hopen
  have first : Step broken issued [] [.sealed .V2 [8] wire] :=
    @Step.seals _ _ _ broken issued [] .V2 rng rng' [8] wire hsealed
  have second : Step broken issued [.sealed .V2 [8] wire]
      [.sealed .V2 [8] wire, .opened .V2 wire ((issued .V2).openRequest wire)] :=
    @Step.opens _ _ _ broken issued _ .V2 wire (Or.inl ⟨.V2, [8], List.mem_singleton_self _⟩)
  rw [hopened] at second
  exact ⟨wire, .next (.next .start first) second⟩

end Demo

/-- The opened message of version 2, with every key broken. -/
theorem versions_agree_broken : ∃ wire, ∀ body,
    (Except.ok [8] : Except Failure Bytes) = .ok body ↔
      Event.sealed Version.V2 body wire ∈ [Event.sealed Version.V2 [8] wire] := by
  obtain ⟨wire, h⟩ := Demo.upgraded_reachable (Transparent.key 5) Readable.randomness
  exact ⟨wire, versions_agree Readable.primitives Demo.readable_ideal Demo.issued_distinct h
    [.sealed .V2 [8] wire] [] .V2 wire (.ok [8]) rfl Demo.issued_safe⟩

end HpkeDemo.Upgrade
