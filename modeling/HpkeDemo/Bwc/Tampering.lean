import HpkeDemo.Bwc.Bootstrap

/-! A connection string on its way from the wallet to the client may be edited. What has to come
through is its last wallet key and its last secret; a client of any other string is as good as a
stranger to the wallet, and the wallet to it. -/
namespace HpkeDemo.Bwc
open Channel Connect Text

variable {H : Hpke}

/-- The last wallet key of the string is `pk`, and its last secret is `secret`. -/
structure Carries (H : Hpke) (hex : HexCodec) (uri : String) (pk : H.PublicKey) (secret : Bytes) :
    Prop where
  walletPk : ∃ val bytes, lastOf "wallet_pk" (params uri) = some val ∧
    hex.decode val = .ok bytes ∧ H.pkFromBytes bytes = .ok pk
  secret : ∃ val, lastOf "secret" (params uri) = some val ∧ hex.decode val = .ok secret

/-- A client made of a string, and a wallet that has its public key. -/
structure Registered (hex : HexCodec) (uri : String) (client : Client H) (wallet : Wallet H) :
    Prop where
  made : ∃ c sk, ConnString.parse hex uri = .ok c ∧
    Client.new hex c sk (H.skToPk sk) = .ok client
  client : wallet.clientPk = client.pk
  wallet_keys : H.skToPk wallet.sk = wallet.pk

variable {hex : HexCodec} {uri : String} {client : Client H} {wallet : Wallet H}
  {LowOrder : H.PublicKey → Prop}

namespace Registered

theorem client_keys (h : Registered hex uri client wallet) : H.skToPk client.sk = client.pk := by
  obtain ⟨c, sk, _, hnew⟩ := h.made
  obtain ⟨_, _, _, _, _, _, hsk, hpk⟩ := new_eq_ok hnew
  rw [hsk, hpk]

theorem carries_iff (h : Registered hex uri client wallet) : Carries H hex uri wallet.pk
    wallet.secret ↔ client.walletPk = wallet.pk ∧ client.secret = wallet.secret := by
  obtain ⟨c, sk, hparse, hnew⟩ := h.made
  obtain ⟨_, _, hpk, hsecret, _⟩ := new_eq_ok hnew
  obtain ⟨_, ⟨w, hw, hwallet⟩, ⟨s, hs, hdecode⟩, _, _⟩ := reads_params hparse
  constructor
  · rintro ⟨⟨val, bytes, hval, hbytes, hown⟩, val', hval', hsecret'⟩
    obtain rfl := Option.some.inj (hw.symm.trans hval)
    obtain rfl := Except.ok.inj (hwallet.symm.trans hbytes)
    obtain rfl := Option.some.inj (hs.symm.trans hval')
    exact ⟨Except.ok.inj (hpk.symm.trans hown),
      hsecret.trans (Except.ok.inj (hdecode.symm.trans hsecret'))⟩
  · rintro ⟨hown, hshared⟩
    exact ⟨⟨w, _, hw, hwallet, hown ▸ hpk⟩, s, hs, by rw [hdecode, ← hsecret, hshared]⟩

theorem carries_of_handle (h : Registered hex uri client wallet) (encodings : H.Encodings)
    (ideal : H.IdealAuthPsk) {rng : H.Randomness} {nonce : Nonce} {timestamp now : UInt64}
    {body body' wire : Bytes} {seen : Seen}
    (hseal : client.seal rng nonce timestamp body = .ok wire)
    (hok : (wallet.handle now wire seen).2 = .ok body') :
    Carries H hex uri wallet.pk wallet.secret := by
  obtain ⟨_, _, hopens, _⟩ := Wallet.handle_eq_ok_iff.mp hok
  obtain ⟨_, _, _, hwire⟩ := openWire_was_sealed encodings ideal hopens
  obtain ⟨_, hpk, hpsk, _⟩ := sealWire_binds encodings ideal hseal hwire
  exact h.carries_iff.mpr ⟨hpk.trans h.wallet_keys, hpsk⟩

theorem carries_of_open (h : Registered hex uri client wallet) (encodings : H.Encodings)
    (ideal : H.IdealAuthPsk) {rng : H.Randomness} {result : Except String Bytes}
    {reply payload : Bytes} (hreply : wallet.reply rng result = .ok reply)
    (hopen : openWire H client.sk client.walletPk client.secret INFO_RESPONSE reply =
      .ok payload) : Carries H hex uri wallet.pk wallet.secret := by
  obtain ⟨_, _, _, hwire⟩ := openWire_was_sealed encodings ideal hopen
  obtain ⟨hpk, _, hpsk, _⟩ := sealWire_binds encodings ideal hreply hwire
  exact h.carries_iff.mpr ⟨hpk.symm, hpsk.symm⟩

def connection (h : Registered hex uri client wallet)
    (carries : Carries H hex uri wallet.pk wallet.secret) : Connection H where
  client := client
  wallet := wallet
  client_keys := h.client_keys
  wallet_keys := h.wallet_keys
  registered := h.client
  pinned := (h.carries_iff.mp carries).1
  shared := (h.carries_iff.mp carries).2

end Registered

/-- **An edited string fails closed.** Whatever string the client was made of, if the wallet has a
secret: where the string's last wallet key and secret are the wallet's, requests are accepted as
near and new ones are; where not, the wallet accepts no request of this client, at any time, and
the client takes no answer of this wallet. -/
theorem edited_string_fails_closed (encodings : H.Encodings) (correct : H.Correct)
    (pskRule : H.PskRule) (encapsulates : H.Encapsulates LowOrder)
    (honest : ∀ sk, ¬ LowOrder (H.skToPk sk)) (ideal : H.IdealAuthPsk)
    (registered : Registered hex uri client wallet) (hsecret : wallet.secret ≠ []) :
    (Carries H hex uri wallet.pk wallet.secret → ∀ rng nonce timestamp body, ∃ wire,
      client.seal rng nonce timestamp body = .ok wire ∧ ∀ now seen body',
        (wallet.handle now wire seen).2 = .ok body' ↔
          body' = body ∧ Near now timestamp ∧ ¬ Remembered seen now nonce) ∧
    (¬ Carries H hex uri wallet.pk wallet.secret → ∀ rng nonce timestamp body wire,
      client.seal rng nonce timestamp body = .ok wire →
        (∀ now seen, ∃ e, (wallet.handle now wire seen).2 = .error e) ∧
        ∀ rng' result reply, wallet.reply rng' result = .ok reply →
          ∃ e, client.send (fun _ => .ok (.success reply)) wire client.token = .error e) := by
  constructor
  · intro carries rng nonce timestamp body
    obtain ⟨wire, hwire⟩ := (registered.connection carries).exists_seal pskRule encapsulates honest
      ((registered.connection carries).shared ▸ hsecret) rng nonce timestamp body
    refine ⟨wire, hwire, fun now seen body' => ?_⟩
    exact handle_of_opens ((registered.connection carries).opens_of_seal encodings correct hwire)
  · intro edited rng nonce timestamp body wire hwire
    constructor
    · intro now seen
      cases hresult : (wallet.handle now wire seen).2 with
      | ok body' => exact absurd (registered.carries_of_handle encodings ideal hwire hresult) edited
      | error e => exact ⟨e, rfl⟩
    · intro rng' result reply hreply
      cases hsend : client.send (fun _ => .ok (.success reply)) wire client.token with
      | error e => exact ⟨e, rfl⟩
      | ok outcome =>
        obtain ⟨payload, hopen, _⟩ := send_reply_eq_ok_iff.mp hsend
        exact absurd (registered.carries_of_open encodings ideal hreply hopen) edited

namespace Deployment.Demo

/-- The drawn wallet, had its secret been another. -/
def otherWallet : Wallet Clamped.hpke := { draw.wallet with secret := [9] }

theorem otherWallet_registered : Registered lowerHex ((draw.connString lowerHex).toUri lowerHex)
    (draw.client lowerHex) otherWallet where
  made := by
    have carryable : Carryable (draw.connString lowerHex) :=
      Draw.carryable lowerHex_lawful (by decide)
    have hparse := parse_toUri lowerHex_lawful carryable
    refine ⟨_, draw.clientSk, hparse, ?_⟩
    simp only [Client.new, Draw.connString, kemPkFromBytes_pkToBytes Clamped.encodings, bind,
      Except.bind]
    rfl
  client := rfl
  wallet_keys := rfl

theorem otherWallet_edited : ¬ Carries Clamped.hpke lowerHex
    ((draw.connString lowerHex).toUri lowerHex) otherWallet.pk otherWallet.secret := by
  intro h
  have hshared := (otherWallet_registered.carries_iff.mp h).2
  have hlen := congrArg List.length hshared
  cases hlen

end Deployment.Demo

/-- A request sealed with the secret of the string, to a wallet with another. -/
theorem edited_string_fails_closed_other : ∃ wire,
    (Deployment.Demo.draw.client lowerHex).seal (Transparent.key 3) (Demo.nonce 9) 300 [5] =
      .ok wire ∧
    ∃ e, (Deployment.Demo.otherWallet.handle 300 wire fun _ => none).2 = .error e := by
  have hsecret : (Deployment.Demo.draw.client lowerHex).secret ≠ [] := by decide
  obtain ⟨wire, hwire⟩ := (Deployment.Demo.draw.connection lowerHex).exists_seal Clamped.pskRule
    Clamped.encapsulates Clamped.honest hsecret (Transparent.key 3) (Demo.nonce 9) 300 [5]
  have hclosed := (edited_string_fails_closed Clamped.encodings Clamped.correct Clamped.pskRule
    Clamped.encapsulates Clamped.honest Clamped.idealAuthPsk Deployment.Demo.otherWallet_registered
    (by decide)).2 Deployment.Demo.otherWallet_edited
  exact ⟨wire, hwire, (hclosed _ _ _ _ wire hwire).1 300 fun _ => none⟩

end HpkeDemo.Bwc
