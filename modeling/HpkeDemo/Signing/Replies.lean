import HpkeDemo.Signing.Servers

/-! The reply direction of the signing variants. Any number of owners frame requests and
replies, each in both roles and to anyone; the attacker holds the network and may hold
every KEM key. It delivers what it likes, but forges no owner's signature. -/
namespace HpkeDemo.Signing
open History

variable {H : Hpke} {I : Identity} {ω : Type}

/-- `open_response`. -/
def Client.openResponse (client : Client H I) (replySk : H.PrivateKey)
    (replyPkBytes : {b : Bytes // b.length = PUBLIC_KEY_LEN}) (enc : H.EncappedKey)
    (ciphertext : Bytes) : Except String Bytes := do
  let payload ← openBase H replySk INFO_RESPONSE enc ciphertext
  if payload.length < SIG_LEN then
    .error "malformed response"
  else
    let (sig, body) := payload.splitAt SIG_LEN
    if !I.verify client.serverId (I.responseTranscript replyPkBytes body) sig then
      .error "bad server signature"
    else
      return body

/-- A reply is accepted exactly when it opens to a signature and the body, and the pinned
identity signed the body for this reply key. -/
theorem openResponse_eq_ok_iff {client : Client H I} {replySk : H.PrivateKey}
    {kb : {b : Bytes // b.length = PUBLIC_KEY_LEN}} {enc : H.EncappedKey} {ct body : Bytes} :
    client.openResponse replySk kb enc ct = .ok body ↔
      ∃ sig, openBase H replySk INFO_RESPONSE enc ct = .ok (sig ++ body) ∧
        sig.length = SIG_LEN ∧
        I.verify client.serverId (I.responseTranscript kb body) sig = true := by
  constructor
  · intro h
    obtain ⟨payload, hopen, h⟩ := bind_eq_ok_iff.mp h
    split at h
    · cases h
    · next hlen =>
      simp only [List.splitAt_eq] at h
      split at h
      · cases h
      · next hverify =>
        obtain rfl := Except.ok.inj h
        refine ⟨payload.take SIG_LEN, ?_, ?_, by simpa using hverify⟩
        · rw [List.take_append_drop, hopen]
        · rw [List.length_take]
          omega
  · rintro ⟨sig, hopen, hsig, hverify⟩
    refine bind_eq_ok_iff.mpr ⟨_, hopen, ?_⟩
    have hlen : ¬ (sig ++ body).length < SIG_LEN := by
      rw [List.length_append]
      omega
    rw [if_neg hlen]
    simp only [List.splitAt_eq, List.take_left' hsig, List.drop_left' hsig, hverify,
      Bool.not_true, Bool.false_eq_true, if_false]
    rfl

namespace Replies

inductive Event (H : Hpke) (I : Identity) (ω : Type) where
  | requested (o : ω) (client : Client H I) (replyPk : H.PublicKey) (body : Bytes)
      (enc : H.EncappedKey) (ciphertext : Bytes)
  | replied (o : ω) (server : Server H I) (replyPk : H.PublicKey) (body : Bytes)
      (enc : H.EncappedKey) (ciphertext : Bytes)
  | opened (client : Client H I) (replyPk : H.PublicKey) (enc : H.EncappedKey)
      (ciphertext : Bytes) (result : Except String Bytes)

section
variable (owners : ω → I.SigningKey) (trace : List (Event H I ω))

/-- The identity of owner `o` reads as `id`. -/
def Owns (o : ω) (id : I.VerifyingKey) : Prop := I.readKey (I.pubkey (owners o)) = .ok id

/-- An owner of `id` signed the transcript, in a request or in a reply. -/
def Signed (id : I.VerifyingKey) (transcript : Bytes) : Prop :=
  ∃ o, Owns owners o id ∧
    ((∃ client replyPk body enc ct, .requested o client replyPk body enc ct ∈ trace ∧
        I.requestTranscript (H.pkToBytes replyPk) body = transcript) ∨
      ∃ server replyPk body enc ct, .replied o server replyPk body enc ct ∈ trace ∧
        I.responseTranscript (H.pkToBytes replyPk) body = transcript)

/-- What verifies in the payload as an owner's, for the reply key `kb`, that owner signed:
in whatever role, for whatever peer. -/
def Unforged (kb payload : Bytes) : Prop :=
  ∀ id sig body, payload = sig ++ body → sig.length = SIG_LEN → (∃ o, Owns owners o id) →
    I.verify id (I.responseTranscript kb body) sig = true →
      Signed owners trace id (I.responseTranscript kb body)

end

/-- `delivers` opens with any private key, for the reply key of any outstanding request. -/
inductive Step (owners : ω → I.SigningKey) :
    List (Event H I ω) → List (Event H I ω) → Prop where
  | requests (trace o client rng replyPk body enc ct) (hid : client.id = owners o)
      (h : client.frameRequest rng replyPk body = .ok (enc, ct)) :
      Step owners trace (trace ++ [.requested o client replyPk body enc ct])
  | replies (trace o server rng replyPk body enc ct) (hid : server.id = owners o)
      (h : server.frameResponse rng replyPk body = .ok (enc, ct)) :
      Step owners trace (trace ++ [.replied o server replyPk body enc ct])
  | delivers (trace client replySk replyPk) (kb : {b : Bytes // b.length = PUBLIC_KEY_LEN})
      (enc ct) (hkb : kb.1 = H.pkToBytes replyPk)
      (unforged : ∀ payload, openBase H replySk INFO_RESPONSE enc ct = .ok payload →
        Unforged owners trace kb payload) :
      Step owners trace
        (trace ++ [.opened client replyPk enc ct (client.openResponse replySk kb enc ct)])

inductive Reachable (owners : ω → I.SigningKey) : List (Event H I ω) → Prop where
  | start : Reachable owners []
  | next {trace trace'} (h : Reachable owners trace) (step : Step owners trace trace') :
      Reachable owners trace'

/-- An accepted reply was framed before, for its reply key, by an owner of the identity
that the client pins. -/
def Framed (owners : ω → I.SigningKey) (before : List (Event H I ω)) : Event H I ω → Prop
  | .opened client replyPk _ _ (.ok body) => (∃ o, Owns owners o client.serverId) →
    ∃ o server enc ct, .replied o server replyPk body enc ct ∈ before ∧
      Owns owners o client.serverId
  | _ => True

/-- A reply was framed by a server with its owner's key. -/
def Genuine (owners : ω → I.SigningKey) : Event H I ω → Prop
  | .replied o server replyPk body enc ct =>
    server.id = owners o ∧ ∃ rng, server.frameResponse rng replyPk body = .ok (enc, ct)
  | _ => True

variable {owners : ω → I.SigningKey} {trace trace' : List (Event H I ω)}

/-- A transcript of the reply direction was signed in a reply, for its own key and body. -/
theorem replied_of_signed (encodings : H.Encodings) {id : I.VerifyingKey}
    {replyPk : H.PublicKey} {body : Bytes}
    (h : Signed owners trace id (I.responseTranscript (H.pkToBytes replyPk) body)) :
    ∃ o server enc ct, .replied o server replyPk body enc ct ∈ trace ∧ Owns owners o id := by
  obtain ⟨o, howns, ⟨client, replyPk', body', enc, ct, _, htranscript⟩ |
    ⟨server, replyPk', body', enc, ct, hmem, htranscript⟩⟩ := h
  · exact absurd htranscript (I.request_ne_response _ _ _ _)
  · have hlen : (H.pkToBytes replyPk').length = (H.pkToBytes replyPk).length := by
      rw [encodings.pk_length, encodings.pk_length]
    obtain ⟨hkb, rfl⟩ := I.responseTranscript_inj hlen htranscript
    have hread := encodings.pk_from_to replyPk'
    rw [hkb, encodings.pk_from_to] at hread
    obtain rfl := Except.ok.inj hread
    exact ⟨o, server, enc, ct, hmem, howns⟩

theorem framed_of_openResponse (encodings : H.Encodings) {client : Client H I}
    {replySk : H.PrivateKey} {replyPk : H.PublicKey} {enc : H.EncappedKey} {ct body : Bytes}
    {kb : {b : Bytes // b.length = PUBLIC_KEY_LEN}} (hkb : kb.1 = H.pkToBytes replyPk)
    (unforged : ∀ payload, openBase H replySk INFO_RESPONSE enc ct = .ok payload →
      Unforged owners trace kb payload)
    (h : client.openResponse replySk kb enc ct = .ok body) :
    Framed owners trace (.opened client replyPk enc ct (.ok body)) := by
  intro hpinned
  obtain ⟨sig, hopen, hsig, hverify⟩ := openResponse_eq_ok_iff.mp h
  have hsigned := unforged _ hopen client.serverId sig body rfl hsig hpinned hverify
  rw [hkb] at hsigned
  exact replied_of_signed encodings hsigned

/-- A step adds one event, which is genuine, and framed if it accepts a reply. -/
theorem step_cases (encodings : H.Encodings) (h : Step owners trace trace') :
    ∃ event, trace' = trace ++ [event] ∧ Genuine owners event ∧ Framed owners trace event := by
  cases h with
  | requests o client rng replyPk body enc ct hid h => exact ⟨_, rfl, trivial, trivial⟩
  | replies o server rng replyPk body enc ct hid h => exact ⟨_, rfl, ⟨hid, rng, h⟩, trivial⟩
  | delivers client replySk replyPk kb enc ct hkb unforged =>
    refine ⟨_, rfl, trivial, ?_⟩
    cases hresult : client.openResponse replySk kb enc ct with
    | error e => trivial
    | ok body => exact framed_of_openResponse encodings hkb unforged hresult

theorem reachable_inv (encodings : H.Encodings) (h : Reachable owners trace) :
    (∀ event ∈ trace, Genuine owners event) ∧ Each (Framed owners) trace := by
  induction h with
  | start => exact ⟨by simp, each_nil⟩
  | next h step ih =>
    obtain ⟨genuine, framed⟩ := ih
    obtain ⟨event, rfl, hgenuine, hframed⟩ := step_cases encodings step
    constructor
    · exact List.forall_mem_append.mpr ⟨genuine, List.forall_mem_singleton.mpr hgenuine⟩
    · exact each_concat.mpr ⟨framed, hframed⟩

/-- **Accepted replies were framed for their key.** Whatever the attacker delivers, a
client that opens a reply with reply key `replyPk` gets a body only if an owner of the
identity it pins framed that body as a reply to that very key. -/
theorem reply_was_framed {v : Variant} {owners : ω → v.identity.SigningKey}
    {trace : List (Event H v.identity ω)} (encodings : H.Encodings) (h : Reachable owners trace) :
    ∀ before after client replyPk enc ct body,
      trace = before ++ .opened client replyPk enc ct (.ok body) :: after →
      (∃ o, Owns owners o client.serverId) →
        ∃ o server enc' ct', .replied o server replyPk body enc' ct' ∈ before ∧
          Owns owners o client.serverId ∧ server.id = owners o := by
  intro before after client replyPk enc ct body htrace hpinned
  obtain ⟨genuine, framed⟩ := reachable_inv encodings h
  obtain ⟨o, server, enc', ct', hmem, howns⟩ := framed before _ after htrace hpinned
  have hin : .replied o server replyPk body enc' ct' ∈ trace := by
    rw [htrace]
    exact List.mem_append_left _ hmem
  exact ⟨o, server, enc', ct', hmem, howns, (genuine _ hin).1⟩

namespace Demo
open Signing.Demo
open Transparent (key)

abbrev v : Variant := .ed25519 ring

/-- One owner, whose key serves in both roles. -/
def ownerKey (_ : Unit) : v.identity.SigningKey := (6 : UInt8)

/-- The owner as a client of the server with key 2. -/
def asClient : Client Transparent.hpke v.identity where
  id := (6 : UInt8)
  serverPk := key 2
  serverId := ring.publicKey (5 : UInt8)

def server : Server Transparent.hpke v.identity where
  sk := key 1
  id := (6 : UInt8)
  allowlist := []

/-- What the owner's request and reply for the reply key 4, with body 8, are sealed as. -/
def request : Bytes :=
  ((asClient.frameRequest (key 3) (key 4) [8]).map Prod.snd).toOption.getD []

def replyPayload : Bytes :=
  (v.identity.sign (6 : UInt8) (v.identity.responseTranscript (key 4) [8])).1 ++ [8]

def reply : Bytes := ((server.frameResponse (key 3) (key 4) [8]).map Prod.snd).toOption.getD []

/-- The owner frames a request, then a reply, and `client` opens the reply. -/
def bothRoles : List (Event Transparent.hpke v.identity Unit) :=
  [.requested () asClient (key 4) [8] (key 3) request,
   .replied () server (key 4) [8] (key 3) reply,
   .opened client (key 4) (key 3) reply (.ok [8])]

set_option maxRecDepth 10000 in
theorem opens_reply : client.openResponse (H := Transparent.hpke) (key 4) ⟨key 4, (key 4).2⟩ (key 3)
    reply = .ok [8] := by rfl

theorem seal_reply : sealBase Transparent.hpke (key 3) (key 4) INFO_RESPONSE replyPayload =
    .ok (key 3, reply) := rfl

theorem owns_six : Owns ownerKey () (ring.publicKey (6 : UInt8)) := rfl

theorem bothRoles_reachable : Reachable ownerKey bothRoles := by
  have unforged : ∀ payload,
      openBase Transparent.hpke (key 4) INFO_RESPONSE (key 3) reply = .ok payload →
      Unforged ownerKey (bothRoles.take 2) (key 4).1 payload := by
    intro payload hopen id sig body hpayload hsig howner _
    obtain ⟨_, _, rfl⟩ := openBase_sealed Transparent.idealBase seal_reply hopen
    obtain ⟨_, rfl⟩ := List.append_inj hpayload ((v.identity.sign _ _).2.trans hsig.symm)
    obtain ⟨o, howns⟩ := howner
    exact ⟨o, howns, Or.inr ⟨server, key 4, [8], key 3, reply, by simp [bothRoles], rfl⟩⟩
  have h := Reachable.next (.next (.next .start
    (.requests _ () asClient (key 3) (key 4) [8] (key 3) request rfl rfl))
    (.replies _ () server (key 3) (key 4) [8] (key 3) reply rfl rfl))
    (.delivers _ client (key 4) (key 4) ⟨key 4, (key 4).2⟩ (key 3) reply rfl unforged)
  rwa [opens_reply] at h

end Demo

theorem reply_was_framed_both_roles :
    ∃ o server enc' ct', .replied o server (Transparent.key 4) [8] enc' ct' ∈
        Demo.bothRoles.take 2 ∧
      Owns Demo.ownerKey o Signing.Demo.client.serverId ∧ server.id = Demo.ownerKey o :=
  reply_was_framed Transparent.encodings Demo.bothRoles_reachable (Demo.bothRoles.take 2) []
    Signing.Demo.client (Transparent.key 4) (Transparent.key 3) Demo.reply [8] rfl
    ⟨(), Demo.owns_six⟩

end Replies
end HpkeDemo.Signing
