import HpkeDemo.Replay.Trace
import HpkeDemo.Signing.Variants
import HpkeDemo.Transparent

/-! Any number of servers that allowlist the same clients, some of them dishonest, and an
attacker who holds the dishonest servers' keys and the network. The attacker reads what
is sealed to a dishonest server, seals whatever it knows to anyone, and forges no
signature. -/
namespace HpkeDemo.Signing
open History

/-- `owners` are the clients' signing keys, `honest` the servers that keep their keys. -/
structure World (H : Hpke) (I : Identity) (ω σ : Type) where
  owners : ω → I.SigningKey
  servers : σ → Server H I
  honest : σ → Prop

inductive Event (H : Hpke) (I : Identity) (ω σ : Type) where
  | framed (o : ω) (client : Client H I) (replyPk : H.PublicKey) (body : Bytes)
      (enc : H.EncappedKey) (ciphertext : Bytes)
  | opened (i : σ) (enc : H.EncappedKey) (ciphertext : Bytes)
      (result : Except String (H.PublicKey × Bytes))
  | answered (i : σ) (replyPk : H.PublicKey) (body : Bytes) (enc : H.EncappedKey)
      (ciphertext : Bytes)

variable {H : Hpke} {ω σ : Type}

section
variable {I : Identity} (w : World H I ω σ) (trace : List (Event H I ω σ))

/-- The message went over the network. -/
def Seen (enc : H.EncappedKey) (ct : Bytes) : Prop :=
  (∃ o client replyPk body, .framed o client replyPk body enc ct ∈ trace) ∨
    ∃ i replyPk body, .answered i replyPk body enc ct ∈ trace

/-- `pk` is an honest server's key. -/
def HonestKey (pk : H.PublicKey) : Prop := ∃ i, w.honest i ∧ H.skToPk (w.servers i).sk = pk

/-- A signature of `id` over `transcript` came into the attacker's hands: in a request
for a server that is not honest, or in a reply. -/
def Leaked (id : I.Id) (transcript : Bytes) : Prop :=
  (∃ o client replyPk body enc ct, .framed o client replyPk body enc ct ∈ trace ∧
    I.pubkey (w.owners o) = id ∧ ¬ HonestKey w client.serverPk ∧
    I.requestTranscript (H.pkToBytes replyPk) body = transcript) ∨
  ∃ i replyPk body enc ct, .answered i replyPk body enc ct ∈ trace ∧
    I.pubkey (w.servers i).id = id ∧
    I.responseTranscript (H.pkToBytes replyPk) body = transcript

/-- The attacker can write `payload`: what verifies in it as an owner's request has
leaked. -/
def CanBuild (payload : Bytes) : Prop :=
  ∀ (id : I.Id) (sig kb body : Bytes) (clientId : I.VerifyingKey),
    payload = id.1 ++ sig ++ kb ++ body → sig.length = SIG_LEN → kb.length = PUBLIC_KEY_LEN →
    (∃ o, I.pubkey (w.owners o) = id) → I.readKey id = .ok clientId →
    I.verify clientId (I.requestTranscript kb body) sig = true →
    Leaked w trace id (I.requestTranscript kb body)

/-- The attacker can send the message to server `i`: it has seen it, or it can write
what the message opens to. -/
def CanSubmit (i : σ) (enc : H.EncappedKey) (ct : Bytes) : Prop :=
  Seen trace enc ct ∨
    ∀ payload, openBase H (w.servers i).sk INFO_REQUEST enc ct = .ok payload →
      CanBuild w trace payload

end

inductive Step (v : Variant) (w : World H v.identity ω σ) :
    List (Event H v.identity ω σ) → List (Event H v.identity ω σ) → Prop where
  | frames (trace o client rng replyPk body enc ct) (hid : client.id = w.owners o)
      (h : client.frameRequest rng replyPk body = .ok (enc, ct)) :
      Step v w trace (trace ++ [.framed o client replyPk body enc ct])
  | opens (trace i enc ct) (hi : w.honest i) (hsubmit : CanSubmit w trace i enc ct) :
      Step v w trace (trace ++ [.opened i enc ct (v.openRequest (w.servers i) enc ct)])
  | answers (trace i rng replyPk body enc ct) (hi : w.honest i)
      (h : (w.servers i).frameResponse rng replyPk body = .ok (enc, ct)) :
      Step v w trace (trace ++ [.answered i replyPk body enc ct])

inductive Reachable (v : Variant) (w : World H v.identity ω σ) :
    List (Event H v.identity ω σ) → Prop where
  | start : Reachable v w []
  | next {trace trace'} (h : Reachable v w trace) (step : Step v w trace trace') :
      Reachable v w trace'

/-- Honest servers allowlist owners only. -/
def Allowlisted {I : Identity} (w : World H I ω σ) : Prop :=
  ∀ i, w.honest i → ∀ id ∈ (w.servers i).allowlist, ∃ o, I.pubkey (w.owners o) = id

/-- An accepted request was framed before by an allowlisted owner: for this server, or
for a server that is not honest. -/
def Framed {I : Identity} (w : World H I ω σ) (before : List (Event H I ω σ)) :
    Event H I ω σ → Prop
  | .opened i _ _ (.ok (replyPk, body)) =>
    ∃ o client enc ct, .framed o client replyPk body enc ct ∈ before ∧
      client.id = w.owners o ∧ I.pubkey client.id ∈ (w.servers i).allowlist ∧
      (client.serverPk = H.skToPk (w.servers i).sk ∨ ¬ HonestKey w client.serverPk)
  | _ => True

/-- What an event says was sealed, was sealed by its party. -/
def Genuine {I : Identity} (w : World H I ω σ) : Event H I ω σ → Prop
  | .framed o client replyPk body enc ct =>
    client.id = w.owners o ∧ ∃ rng, client.frameRequest rng replyPk body = .ok (enc, ct)
  | .opened .. => True
  | .answered i replyPk body enc ct =>
    ∃ rng, (w.servers i).frameResponse rng replyPk body = .ok (enc, ct)

section
variable {I : Identity} {w : World H I ω σ} {trace : List (Event H I ω σ)} {i : σ}
  {enc : H.EncappedKey} {ct body : Bytes} {replyPk : H.PublicKey}

theorem payload_inj (encodings : H.Encodings) {client : Client H I} {id : I.Id}
    {sig kb body' : Bytes} (hsig : sig.length = SIG_LEN) (hkb : kb.length = PUBLIC_KEY_LEN)
    (h : client.payload replyPk body = id.1 ++ sig ++ kb ++ body') :
    I.pubkey client.id = id ∧ H.pkToBytes replyPk = kb ∧ body = body' := by
  simp only [Client.payload, List.append_assoc] at h
  obtain ⟨hid, h⟩ := List.append_inj h ((I.pubkey client.id).2.trans id.2.symm)
  obtain ⟨_, h⟩ := List.append_inj h ((I.sign client.id _).2.trans hsig.symm)
  obtain ⟨hk, hbody⟩ := List.append_inj h ((encodings.pk_length replyPk).trans hkb.symm)
  exact ⟨Subtype.ext hid, hk, hbody⟩

theorem framed_of_openRequest (encodings : H.Encodings) (ideal : H.IdealBase)
    (allowlisted : Allowlisted w) (genuine : ∀ event ∈ trace, Genuine w event)
    (hi : w.honest i) (hsubmit : CanSubmit w trace i enc ct)
    (h : (w.servers i).openRequest enc ct = .ok (replyPk, body)) :
    Framed w trace (.opened i enc ct (.ok (replyPk, body))) := by
  obtain ⟨id, sig, kb, clientId, hopen, hsig, hkb, hmem, hkey, hverify, hpk⟩ :=
    openRequest_eq_ok_iff.mp h
  have readBack : ∀ replyPk', H.pkToBytes replyPk' = kb → replyPk' = replyPk := by
    rintro replyPk' rfl
    exact Except.ok.inj ((encodings.pk_from_to replyPk').symm.trans hpk)
  obtain (⟨o, client, replyPk', body', hframed⟩ | ⟨j, replyPk', body', hanswered⟩) | hbuild :=
    hsubmit
  · obtain ⟨hid, rng, hseal⟩ := genuine _ hframed
    obtain ⟨hserver, _, hpayload⟩ := openBase_sealed ideal hseal hopen
    obtain ⟨rfl, hk, rfl⟩ := payload_inj encodings hsig hkb hpayload
    obtain rfl := readBack replyPk' hk
    exact ⟨o, client, enc, ct, hframed, hid, hmem, Or.inl hserver⟩
  · obtain ⟨rng, hseal⟩ := genuine _ hanswered
    obtain ⟨_, hinfo, _⟩ := openBase_sealed ideal hseal hopen
    exact absurd hinfo.symm info_ne
  · obtain ⟨o, client, replyPk', body', enc', ct', hframed, hid, hdishonest, htranscript⟩ |
      ⟨j, replyPk', body', enc', ct', _, _, htranscript⟩ :=
      hbuild _ hopen id sig kb body clientId rfl hsig hkb (allowlisted i hi id hmem) hkey hverify
    · obtain ⟨hk, rfl⟩ := I.requestTranscript_inj
        ((encodings.pk_length replyPk').trans hkb.symm) htranscript
      obtain rfl := readBack replyPk' hk
      obtain ⟨hclient, _⟩ := genuine _ hframed
      exact ⟨o, client, enc', ct', hframed, hclient, by rwa [hclient, hid], Or.inr hdishonest⟩
    · exact absurd htranscript.symm (I.request_ne_response _ _ _ _)

end

variable {v : Variant} {w : World H v.identity ω σ} {trace trace' : List (Event H v.identity ω σ)}

/-- A step adds one event, which is genuine, and framed if it accepts a request. -/
theorem step_cases (encodings : H.Encodings) (ideal : H.IdealBase) (allowlisted : Allowlisted w)
    (genuine : ∀ event ∈ trace, Genuine w event) (h : Step v w trace trace') :
    ∃ event, trace' = trace ++ [event] ∧ Genuine w event ∧ Framed w trace event := by
  cases h with
  | frames o client rng replyPk body enc ct hid h =>
    exact ⟨_, rfl, ⟨hid, rng, h⟩, trivial⟩
  | opens i enc ct hi hsubmit =>
    refine ⟨_, rfl, trivial, ?_⟩
    cases hresult : v.openRequest (w.servers i) enc ct with
    | error e => trivial
    | ok accepted =>
      rw [v.openRequest_eq] at hresult
      exact framed_of_openRequest encodings ideal allowlisted genuine hi hsubmit hresult
  | answers i rng replyPk body enc ct hi h =>
    exact ⟨_, rfl, ⟨rng, h⟩, trivial⟩

theorem reachable_inv (encodings : H.Encodings) (ideal : H.IdealBase)
    (allowlisted : Allowlisted w) (h : Reachable v w trace) :
    (∀ event ∈ trace, Genuine w event) ∧ Each (Framed w) trace := by
  induction h with
  | start => exact ⟨by simp, each_nil⟩
  | next h step ih =>
    obtain ⟨genuine, framed⟩ := ih
    obtain ⟨event, rfl, hgenuine, hframed⟩ :=
      step_cases encodings ideal allowlisted genuine step
    constructor
    · exact List.forall_mem_append.mpr ⟨genuine, List.forall_mem_singleton.mpr hgenuine⟩
    · exact each_concat.mpr ⟨framed, hframed⟩

/-- **Accepted requests were framed.** Whatever the attacker does, an honest server
accepts a reply key and body only if the owner of an allowlisted identity framed them:
for this server, or for a server that is not honest. -/
theorem accepted_was_framed (encodings : H.Encodings) (ideal : H.IdealBase)
    (allowlisted : Allowlisted w) (h : Reachable v w trace) :
    ∀ before after i enc ct replyPk body,
      trace = before ++ .opened i enc ct (.ok (replyPk, body)) :: after →
        ∃ o client enc' ct', .framed o client replyPk body enc' ct' ∈ before ∧
          client.id = w.owners o ∧ v.identity.pubkey client.id ∈ (w.servers i).allowlist ∧
          (client.serverPk = H.skToPk (w.servers i).sk ∨ ¬ HonestKey w client.serverPk) := by
  intro before after i enc ct replyPk body htrace
  exact (reachable_inv encodings ideal allowlisted h).2 before _ after htrace

namespace Demo
open Transparent (key)

def checksum (b : Bytes) : UInt8 := b.foldr (· + ·) 0

/-- Signatures name the key and sum up the message. -/
def ring : Ring where
  Ed25519KeyPair := UInt8
  publicKey k := key k
  sign k t := ⟨List.replicate 32 k ++ List.replicate 32 (checksum t), by simp⟩
  verify pk t sig := sig = pk ++ List.replicate 32 (checksum t)

/-- An honest and a dishonest server, with the keys 1 and 2, and one owner. -/
def world : World Transparent.hpke (Variant.ed25519 ring).identity Unit Bool where
  owners _ := (5 : UInt8)
  servers honest :=
    { sk := if honest then key 1 else key 2, id := (6 : UInt8)
      allowlist := [ring.publicKey (5 : UInt8)] }
  honest i := i = true

/-- The owner's client of the dishonest server. -/
def client : Client Transparent.hpke (Variant.ed25519 ring).identity where
  id := (5 : UInt8)
  serverPk := key 2
  serverId := ring.publicKey (6 : UInt8)

/-- The bytes that seal `client`'s request with body 7 to the server with key `b`. -/
def sealed (b : UInt8) : Bytes :=
  ((sealBase Transparent.hpke (key 3) (key b) INFO_REQUEST (client.payload (key 4) [7])).map
    Prod.snd).toOption.getD []

/-- The dishonest server seals what it read to the honest one. -/
def resealed : List (Event Transparent.hpke (Variant.ed25519 ring).identity Unit Bool) :=
  [.framed () client (key 4) [7] (key 3) (sealed 2),
   .opened true (key 3) (sealed 1) (.ok (key 4, [7]))]

set_option maxRecDepth 10000 in
theorem opens_resealed :
    (Variant.ed25519 ring).openRequest (world.servers true) (key 3) (sealed 1) =
      .ok (key 4, [7]) := by rfl

theorem seal_resealed : sealBase Transparent.hpke (key 3) (key 1) INFO_REQUEST
    (client.payload (key 4) [7]) = .ok (key 3, sealed 1) := rfl

theorem key_two_dishonest : ¬ HonestKey world client.serverPk := by
  rintro ⟨i, hi, hkey⟩
  have hne : key 1 ≠ key 2 := by decide
  cases i with
  | false => exact absurd hi Bool.false_ne_true
  | true => exact hne hkey

theorem resealed_reachable : Reachable (.ed25519 ring) world resealed := by
  have submit : CanSubmit world [.framed () client (key 4) [7] (key 3) (sealed 2)] true (key 3)
      (sealed 1) := by
    refine Or.inr fun payload hopen id sig kb body clientId hpayload hsig hkb _ _ _ => ?_
    obtain ⟨_, _, rfl⟩ := openBase_sealed Transparent.idealBase seal_resealed hopen
    obtain ⟨rfl, rfl, rfl⟩ := payload_inj Transparent.encodings hsig hkb hpayload
    exact Or.inl ⟨(), client, key 4, [7], key 3, sealed 2, List.mem_singleton_self _, rfl,
      key_two_dishonest, rfl⟩
  have h := Reachable.next (.next (w := world) (v := .ed25519 ring) .start
    (.frames _ () client (key 3) (key 4) [7] (key 3) (sealed 2) rfl rfl))
    (.opens _ true _ _ rfl submit)
  rwa [opens_resealed] at h

end Demo

/-- The honest server's acceptance of the resealed request, traced to its owner. -/
theorem accepted_was_framed_resealed :
    ∃ o client enc' ct', .framed o client (Transparent.key 4) [7] enc' ct' ∈ Demo.resealed.take 1 ∧
      client.id = Demo.world.owners o ∧
      (Variant.ed25519 Demo.ring).identity.pubkey client.id ∈
        (Demo.world.servers true).allowlist ∧
      (client.serverPk = Transparent.key 1 ∨ ¬ HonestKey Demo.world client.serverPk) :=
  accepted_was_framed Transparent.encodings Transparent.idealBase
    (fun _ _ _ hid => ⟨(), (List.mem_singleton.mp hid).symm⟩) Demo.resealed_reachable
    (Demo.resealed.take 1) [] true (Transparent.key 3) (Demo.sealed 1) (Transparent.key 4) [7] rfl

/-- The honest server accepts a request that was framed for the dishonest one only. -/
theorem request_for_another_server : ¬ ∀ trace, Reachable (.ed25519 Demo.ring) Demo.world trace →
    ∀ i enc ct replyPk body, .opened i enc ct (.ok (replyPk, body)) ∈ trace →
      ∃ o client enc' ct', .framed o client replyPk body enc' ct' ∈ trace ∧
        client.serverPk = Transparent.hpke.skToPk (Demo.world.servers i).sk := by
  intro h
  obtain ⟨o, client, enc', ct', hmem, hserver⟩ :=
    h _ Demo.resealed_reachable true (Transparent.key 3) (Demo.sealed 1) (Transparent.key 4) [7]
      (by simp [Demo.resealed])
  have hne : Transparent.key 2 ≠ Transparent.key 1 := by decide
  obtain hmem | hmem := List.mem_cons.mp hmem
  · obtain ⟨_, rfl, _⟩ := Event.framed.inj hmem
    exact hne hserver
  · cases List.mem_singleton.mp hmem

end HpkeDemo.Signing
