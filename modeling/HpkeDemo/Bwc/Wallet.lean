import HpkeDemo.Bwc.Window
import HpkeDemo.Channel
import HpkeDemo.Connect.ConnString
import HpkeDemo.Text.Utf8

/-! The wallet server of `bwc_full.rs`: `handle` with its replay cache, the framing of
replies, and `post_request`. The clock reading and the cache are arguments. -/
namespace HpkeDemo.Bwc
open Channel Connect Text

def NONCE_LEN : Nat := 16
def TS_LEN : Nat := 8

abbrev Nonce := {b : Bytes // b.length = NONCE_LEN}

theorem payload_inj {nonce nonce' : Nonce} {timestamp timestamp' : UInt64} {body body' : Bytes}
    (h : nonce.1 ++ Bytes.ofU64 timestamp ++ body = nonce'.1 ++ Bytes.ofU64 timestamp' ++ body') :
    nonce = nonce' ∧ timestamp = timestamp' ∧ body = body' := by
  simp only [List.append_assoc] at h
  obtain ⟨hnonce, h⟩ := List.append_inj h (nonce.2.trans nonce'.2.symm)
  obtain ⟨hts, hbody⟩ := List.append_inj h (by simp)
  exact ⟨Subtype.ext hnonce, by simpa using congrArg Bytes.toU64 hts, hbody⟩

theorem length_take_nonce {payload : Bytes} (h : ¬ payload.length < NONCE_LEN + TS_LEN) :
    (payload.take NONCE_LEN).length = NONCE_LEN := by
  have hle : NONCE_LEN ≤ payload.length := by omega
  rw [List.length_take, Nat.min_eq_left hle]

/-- Nonces seen this session, with the wallet's receive time. -/
abbrev Seen := Replay.Cache Nonce UInt64

namespace Response

def OK : UInt8 := 0
def ERR : UInt8 := 1

def ok (body : Bytes) : Bytes := OK :: body

def err (reason : String) : Bytes := ERR :: Bytes.ofString reason

/-- `response::decode`. -/
def decode (payload : Bytes) : Except String Bytes :=
  match payload with
  | status :: rest =>
    if status = OK then .ok rest
    else if status = ERR then .error (fromUtf8Lossy rest)
    else .error "malformed response"
  | [] => .error "malformed response"

@[simp] theorem decode_ok (body : Bytes) : decode (ok body) = .ok body := rfl

@[simp] theorem decode_err (reason : String) : decode (err reason) = .error reason := by
  rw [err, decode, if_neg (by decide), if_pos rfl, fromUtf8Lossy_ofString]

end Response

structure Wallet (H : Hpke) where
  sk : H.PrivateKey
  pk : H.PublicKey
  secret : Bytes
  clientPk : H.PublicKey

variable {H : Hpke}

namespace Wallet

/-- The `seen.retain(..)` line of `handle`. -/
def retain (now : UInt64) (seen : Seen) : Seen :=
  fun nonce => (seen nonce).filter fun seenAt => saturatingSub now seenAt ≤ 2 * MAX_CLOCK_SKEW_SECS

/-- `handle` from the opening of the message on. -/
def checkIn (wallet : Wallet H) (now : UInt64) (wire : Bytes) (seen : Seen) :
    Seen × Except String Bytes :=
  match openWire H wallet.sk wallet.clientPk wallet.secret INFO_REQUEST wire with
  | .error e => (seen, .error e)
  | .ok payload =>
    if hlen : payload.length < NONCE_LEN + TS_LEN then (seen, .error "malformed request")
    else
      let nonce : Nonce := ⟨payload.take NONCE_LEN, length_take_nonce hlen⟩
      let rest := payload.drop NONCE_LEN
      let timestamp := Bytes.toU64 (rest.take TS_LEN)
      let body := rest.drop TS_LEN
      if absDiff now timestamp > MAX_CLOCK_SKEW_SECS then
        (seen, .error "clock skew: timestamp outside the freshness window")
      else if (seen nonce).isSome then
        (seen, .error "replayed: nonce already seen this session")
      else (Function.update seen nonce (some now), .ok body)

/-- `Wallet::handle`, at the clock reading `now`. -/
def handle (wallet : Wallet H) (now : UInt64) (wire : Bytes) (seen : Seen) :
    Seen × Except String Bytes :=
  wallet.checkIn now wire (retain now seen)

/-- `handle` without its `seen.retain(..)` line. -/
def handlePlain (wallet : Wallet H) (now : UInt64) (wire : Bytes) (seen : Seen) :
    Seen × Except String Bytes :=
  wallet.checkIn now wire seen

/-- The text that acknowledges a request. -/
def ack (body : Bytes) : Bytes := Bytes.ofString ("ack: " ++ fromUtf8Lossy body)

/-- The `payload` of `post_request`. -/
def payload : Except String Bytes → Bytes
  | .ok body => Response.ok (ack body)
  | .error e => Response.err e

/-- `post_request` from the result of `handle` on. -/
def reply (wallet : Wallet H) (rng : H.Randomness) (result : Except String Bytes) :
    Except Panic Bytes :=
  sealWire H rng (wallet.sk, wallet.pk) wallet.clientPk wallet.secret INFO_RESPONSE
    (payload result)

/-- `Wallet::post_request`; `rng` is what the OS random generator yields for the reply. -/
def postRequest (wallet : Wallet H) (rng : H.Randomness) (now : UInt64) (req : Bytes)
    (seen : Seen) : Seen × Except Panic Bytes :=
  let (seen, result) := wallet.handle now req seen
  (seen, wallet.reply rng result)

/-- `handle` on one call after another, from the empty cache of `Wallet::new`. -/
def session (wallet : Wallet H) (calls : List (UInt64 × Bytes)) :
    Seen × List ((UInt64 × Bytes) × Except String Bytes) :=
  Machine.run (fun call => wallet.handle call.1 call.2) (fun _ => none) calls

/-- `wire` opens to `nonce || timestamp || body`. -/
def Opens (wallet : Wallet H) (wire : Bytes) (nonce : Nonce) (timestamp : UInt64)
    (body : Bytes) : Prop :=
  openWire H wallet.sk wallet.clientPk wallet.secret INFO_REQUEST wire =
    .ok (nonce ++ Bytes.ofU64 timestamp ++ body)

end Wallet
end HpkeDemo.Bwc
