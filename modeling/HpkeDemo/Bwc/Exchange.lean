import HpkeDemo.Bwc.Replies
import HpkeDemo.Clamped
import HpkeDemo.Replay.Once

/-! One exchange over a connection with both parties honest: what the client seals, the
wallet answers, and the client decodes the answer. -/
namespace HpkeDemo.Bwc
open Channel Connect Text

variable {H : Hpke} {LowOrder : H.PublicKey → Prop} {wallet : Wallet H} {now timestamp : UInt64}
  {wire body body' : Bytes} {seen : Seen} {nonce : Nonce}

/-- A wire that opens is accepted if it is near and its nonce is not remembered. -/
theorem handle_of_opens (h : wallet.Opens wire nonce timestamp body) :
    (wallet.handle now wire seen).2 = .ok body' ↔
      body' = body ∧ Near now timestamp ∧ ¬ Remembered seen now nonce := by
  rw [Wallet.handle_eq_ok_iff]
  constructor
  · rintro ⟨nonce', timestamp', hopens, hnear, hnone⟩
    obtain ⟨rfl, rfl, rfl⟩ := Wallet.opens_unique hopens h
    exact ⟨rfl, hnear, Wallet.retain_eq_none_iff_not_remembered.mp hnone⟩
  · rintro ⟨rfl, hnear, hnew⟩
    exact ⟨nonce, timestamp, h, hnear, Wallet.retain_eq_none_iff_not_remembered.mpr hnew⟩

/-- An accepted request leaves its nonce in the cache, with the reading. -/
theorem seen_of_accepted (hopens : wallet.Opens wire nonce timestamp body)
    (hnear : Near now timestamp) (hnew : ¬ Remembered seen now nonce) :
    (wallet.handle now wire seen).2 = .ok body ∧
      (wallet.handle now wire seen).1 nonce = some now := by
  have hok := (handle_of_opens hopens).mpr ⟨rfl, hnear, hnew⟩
  refine ⟨hok, ?_⟩
  rw [wallet.handle_eq_step (now, wire)] at hok ⊢
  have hread := Wallet.read_eq_ok_iff.mpr hopens
  exact Replay.Guard.step_seen_iff.mpr (Or.inl ⟨⟨⟨timestamp, body, hread⟩, body, hok⟩, rfl⟩)

theorem replayed_of_remembered (hopens : wallet.Opens wire nonce timestamp body)
    (hnear : Near now timestamp) (hseen : Remembered seen now nonce) :
    (wallet.handle now wire seen).2 = .error "replayed: nonce already seen this session" := by
  cases hresult : (wallet.handle now wire seen).2 with
  | ok body' => exact absurd hseen ((handle_of_opens hopens).mp hresult).2.2
  | error e =>
    rw [wallet.handle_eq_step (now, wire)] at hresult
    rw [Replay.Guard.step_of_repeated (Wallet.read_eq_ok_iff.mpr hopens)
      (Wallet.guard_fresh.mpr hnear) hresult]
    rfl

theorem stale_of_far (hopens : wallet.Opens wire nonce timestamp body)
    (hfar : ¬ Near now timestamp) : (wallet.handle now wire seen).2 =
      .error "clock skew: timestamp outside the freshness window" := by
  have hstale : wallet.guard.fresh now timestamp = false :=
    Bool.eq_false_iff.mpr (mt Wallet.guard_fresh.mp hfar)
  rw [wallet.handle_eq_step (now, wire),
    Replay.Guard.step_of_stale (Wallet.read_eq_ok_iff.mpr hopens) hstale]
  rfl

namespace Connection
variable (c : Connection H)

/-- A client with a secret seals. -/
theorem exists_seal (pskRule : H.PskRule) (encapsulates : H.Encapsulates LowOrder)
    (honest : ∀ sk, ¬ LowOrder (H.skToPk sk)) (hsecret : c.client.secret ≠ [])
    (rng : H.Randomness) (nonce : Nonce) (timestamp : UInt64) (body : Bytes) :
    ∃ wire, c.client.seal rng nonce timestamp body = .ok wire := by
  apply (exists_sealWire_iff pskRule encapsulates).mpr
  refine ⟨hsecret, ?_⟩
  rw [c.pinned, ← c.wallet_keys]
  exact honest c.wallet.sk

/-- The wallet seals a reply to any result, and the client opens it. -/
theorem exists_reply (encodings : H.Encodings) (correct : H.Correct) (pskRule : H.PskRule)
    (encapsulates : H.Encapsulates LowOrder) (honest : ∀ sk, ¬ LowOrder (H.skToPk sk))
    (hsecret : c.client.secret ≠ []) (rng : H.Randomness) (result : Except String Bytes) :
    ∃ reply, c.wallet.reply rng result = .ok reply ∧
      openWire H c.client.sk c.client.walletPk c.client.secret INFO_RESPONSE reply =
        .ok (Wallet.payload result) := by
  have seals : ∃ reply, c.wallet.reply rng result = .ok reply := by
    apply (exists_sealWire_iff pskRule encapsulates).mpr
    refine ⟨c.shared ▸ hsecret, ?_⟩
    rw [c.registered, ← c.client_keys]
    exact honest c.client.sk
  obtain ⟨reply, hreply⟩ := seals
  refine ⟨reply, hreply, ?_⟩
  rw [Wallet.reply, ← c.shared, c.registered, ← c.client_keys, ← c.wallet_keys] at hreply
  rw [c.pinned, ← c.wallet_keys]
  exact openWire_sealWire encodings correct hreply

end Connection

/-- **An honest exchange.** The client's request is answered, and what the client decodes
is the acknowledgement of the body it sealed, exactly if its timestamp is near and its
nonce not remembered; else it is the reason for which the wallet rejected the request. -/
theorem honest_exchange (encodings : H.Encodings) (correct : H.Correct) (pskRule : H.PskRule)
    (encapsulates : H.Encapsulates LowOrder) (honest : ∀ sk, ¬ LowOrder (H.skToPk sk))
    (c : Connection H) (hsecret : c.client.secret ≠ []) (rng rng' : H.Randomness) (nonce : Nonce)
    (timestamp now : UInt64) (body : Bytes) (seen : Seen) :
    ∃ wire reply payload, c.client.seal rng nonce timestamp body = .ok wire ∧
      (c.wallet.postRequest rng' now wire seen).2 = .ok reply ∧
      openWire H c.client.sk c.client.walletPk c.client.secret INFO_RESPONSE reply = .ok payload ∧
      (Response.decode payload = .ok (Bytes.ofString ("ack: " ++ fromUtf8Lossy body)) ↔
        Near now timestamp ∧ ¬ Remembered seen now nonce) ∧
      (¬ (Near now timestamp ∧ ¬ Remembered seen now nonce) →
        ∃ reason, (c.wallet.handle now wire seen).2 = .error reason ∧
          Response.decode payload = .error reason) ∧
      ∀ body', (c.wallet.handle now wire seen).2 = .ok body' → body' = body := by
  obtain ⟨wire, hwire⟩ :=
    c.exists_seal pskRule encapsulates honest hsecret rng nonce timestamp body
  have hopens : c.wallet.Opens wire nonce timestamp body := c.opens_of_seal encodings correct hwire
  obtain ⟨reply, hreply, hopen⟩ := c.exists_reply encodings correct pskRule encapsulates honest
    hsecret rng' (c.wallet.handle now wire seen).2
  have accepts (body' : Bytes) : (c.wallet.handle now wire seen).2 = .ok body' ↔
      body' = body ∧ Near now timestamp ∧ ¬ Remembered seen now nonce := handle_of_opens hopens
  refine ⟨wire, reply, _, hwire, hreply, hopen, ?_, ?_, fun body' h => ((accepts body').mp h).1⟩
  · rw [decode_payload]
    cases hresult : (c.wallet.handle now wire seen).2 with
    | ok body' =>
      obtain ⟨rfl, hok⟩ := (accepts body').mp hresult
      exact iff_of_true rfl hok
    | error reason =>
      refine iff_of_false nofun fun hok => ?_
      have := (accepts body).mpr ⟨rfl, hok⟩
      rw [hresult] at this
      cases this
  · intro hno
    rw [decode_payload]
    cases hresult : (c.wallet.handle now wire seen).2 with
    | ok body' => exact absurd ((accepts body').mp hresult).2 hno
    | error reason => exact ⟨reason, rfl, rfl⟩

namespace Demo
open Transparent (key)

/-- A connection with a secret, over the crate whose keys are all of use. -/
def honestConnection : Connection Clamped.hpke where
  client := { base := "http://relay", conn := "wallet", sk := ⟨key 1, by decide⟩, pk := key 1,
              walletPk := key 2, secret := [7], token := none, relayParams := [] }
  wallet := { sk := ⟨key 2, by decide⟩, pk := key 2, secret := [7], clientPk := key 1 }
  client_keys := rfl
  wallet_keys := rfl
  registered := rfl
  pinned := rfl
  shared := rfl

end Demo

/-- A request at the far end of the window, to a wallet that has seen nothing. -/
theorem honest_exchange_accepted :
    ∃ wire reply payload,
      Demo.honestConnection.client.seal (Transparent.key 3) (Demo.nonce 9) 300 [5] = .ok wire ∧
      (Demo.honestConnection.wallet.postRequest (Transparent.key 4) 600 wire fun _ => none).2 =
        .ok reply ∧
      openWire Clamped.hpke Demo.honestConnection.client.sk (Transparent.key 2) [7] INFO_RESPONSE
        reply = .ok payload ∧
      Response.decode payload = .ok (Bytes.ofString ("ack: " ++ fromUtf8Lossy [5])) := by
  obtain ⟨wire, reply, payload, hwire, hreply, hopen, haccept, _⟩ :=
    honest_exchange Clamped.encodings Clamped.correct Clamped.pskRule Clamped.encapsulates
      Clamped.honest Demo.honestConnection (by decide) (Transparent.key 3) (Transparent.key 4)
      (Demo.nonce 9) 300 600 [5] fun _ => none
  refine ⟨wire, reply, payload, hwire, hreply, hopen, haccept.mpr ⟨?_, ?_⟩⟩
  · exact ⟨by decide, by decide⟩
  · rintro ⟨seenAt, hseen, _⟩
    cases hseen

end HpkeDemo.Bwc
