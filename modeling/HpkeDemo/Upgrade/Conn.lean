import HpkeDemo.Connect.Grammar
import HpkeDemo.Lockstep
import HpkeDemo.Upgrade.HexPairs

/-! `ParsedConn` of `bwc_post_quantum_upgrade.rs`, a second parser of the connection string
with a hex codec of its own. It runs in lock step with the library's parser over that
codec. -/
namespace HpkeDemo.Upgrade
open Text
open Connect (HexCodec ConnString)
open Lockstep (Related)

inductive Version where
  | V1
  | V2
  deriving DecidableEq, Repr

def Version.parse (s : String) : Except String Version :=
  match s with
  | "1" => .ok .V1
  | "2" => .ok .V2
  | other => .error ("UNSUPPORTED_VERSION: " ++ other)

def Version.asU8 : Version → UInt8
  | .V1 => 1
  | .V2 => 2

structure ParsedConn where
  relay : String
  version : Version
  walletPk : Bytes
  secret : Bytes
  deriving DecidableEq, Repr

namespace ParsedConn

/-- The mutable locals of `parse`'s loop. -/
structure Slots where
  version : Option Version := none
  walletPk : Option Bytes := none
  secret : Option Bytes := none
  deriving DecidableEq, Repr

/-- One turn of `parse`'s loop. -/
def Slots.turn (slots : Slots) (pair : String) : Except Failure Slots :=
  match splitOnce '=' pair with
  | none => .error (.err "malformed param")
  | some (key, val) =>
    match key with
    | "v" => ((Version.parse val).mapError .err).map fun v => { slots with version := some v }
    | "wallet_pk" => (Hex.decode val).map fun b => { slots with walletPk := some b }
    | "secret" => (Hex.decode val).map fun b => { slots with secret := some b }
    | _ => .ok slots

/-- The struct literal that ends `parse`, its fields checked in order. -/
def Slots.build (slots : Slots) (relay : String) : Except Failure ParsedConn := do
  let version ← slots.version.elim (.error (.err "missing v")) .ok
  let walletPk ← slots.walletPk.elim (.error (.err "missing wallet_pk")) .ok
  let secret ← slots.secret.elim (.error (.err "missing secret")) .ok
  return { relay, version, walletPk, secret }

def parse (uri : String) : Except Failure ParsedConn := do
  let rest ← (stripPrefix "bwc://" uri).elim (.error (.err "not a bwc:// URI")) .ok
  let (relay, query) ← (splitOnce '?' rest).elim (.error (.err "missing query")) .ok
  let slots ← (split '&' query).foldlM Slots.turn {}
  slots.build relay

end ParsedConn

/-- The text of a failure. -/
def failureText : Failure → String
  | .err message => message
  | .panic panic => panic.message

/-- The example's codec, as the library's parser would use it. -/
def Hex.codec : HexCodec where
  encode := Hex.encode
  decode s := (Hex.decode s).mapError failureText

theorem Hex.codec_decode_iff {s : String} {b : Bytes} :
    Hex.codec.decode s = .ok b ↔ Hex.decode s = .ok b := mapError_eq_ok_iff

/-- The two version types hold the same versions. -/
def Version.same : Connect.Version → Version
  | .V1 => .V1
  | .V2 => .V2

@[simp] theorem Version.asU8_same (v : Connect.Version) : (same v).asU8 = v.asU8 := by
  cases v <;> rfl

def unsupported (other : String) : String := "UNSUPPORTED_VERSION: " ++ other

theorem ne_unsupported {s : String} (h : s.toList.head? ≠ some 'U') (other : String) :
    s ≠ unsupported other := by
  rintro rfl
  have hliteral : "UNSUPPORTED_VERSION: ".toList.head? = some 'U' := by simp
  unfold unsupported at h
  rw [String.toList_append, List.head?_append, hliteral] at h
  exact h rfl

/-- The errors agree on whether, and for which version, they report one not supported. -/
def SameVersionError (message : String) (failure : Failure) : Prop :=
  ∀ other, message = unsupported other ↔ failure = .err (unsupported other)

theorem sameVersionError_err (message : String) : SameVersionError message (.err message) :=
  fun _ => by simp

/-- Errors that report no version. -/
theorem sameVersionError_of_ne {message : String} {failure : Failure}
    (h : ∀ other, message ≠ unsupported other) (h' : ∀ other, failure ≠ .err (unsupported other)) :
    SameVersionError message failure :=
  fun other => iff_of_false (h other) (h' other)

/-- Slots that agree on what both parsers keep. -/
def SameSlots (slots : Connect.Slots) (slots' : ParsedConn.Slots) : Prop :=
  slots'.version = slots.version.map Version.same ∧ slots'.walletPk = slots.walletPk ∧
    slots'.secret = slots.secret

/-- What the example keeps of a connection string. -/
def ParsedConn.ofConnString (c : ConnString) : ParsedConn where
  relay := c.relay
  version := Version.same c.version
  walletPk := c.walletPk
  secret := c.secret

section
variable {s : String} (h1 : s ≠ "1") (h2 : s ≠ "2")
include h1 h2

theorem library_parse_unsupported : Connect.Version.parse s = .error (unsupported s) := by
  unfold Connect.Version.parse
  split
  · exact absurd rfl h1
  · exact absurd rfl h2
  · rfl

theorem parse_unsupported : Version.parse s = .error (unsupported s) := by
  unfold Version.parse
  split
  · exact absurd rfl h1
  · exact absurd rfl h2
  · rfl

end

theorem version_parse_related (s : String) :
    Related SameVersionError (fun v v' => v' = Version.same v) (Connect.Version.parse s)
      ((Version.parse s).mapError .err) := by
  by_cases h1 : s = "1"
  · subst h1
    exact .ok rfl
  by_cases h2 : s = "2"
  · subst h2
    exact .ok rfl
  rw [library_parse_unsupported h1 h2, parse_unsupported h1 h2]
  exact .error (sameVersionError_err _)

/-- A failure of the example's codec reports no version. -/
theorem decode_failure_ne {s : String} {failure : Failure} (h : Hex.decode s = .error failure)
    (other : String) : failure ≠ .err (unsupported other) := by
  rcases Hex.decode_failure h with rfl | rfl | ⟨e, rfl⟩
  · exact nofun
  · exact fun he => ne_unsupported (by simp) other (Failure.err.inj he)
  · exact fun he => ne_unsupported (by simp) other (Failure.err.inj he)

theorem decode_related (s : String) :
    Related SameVersionError (fun b b' => b' = b) (Connect.decode Hex.codec s) (Hex.decode s) := by
  cases h : Hex.decode s with
  | ok b =>
    simp only [Connect.decode, Hex.codec, h, Except.mapError]
    exact .ok rfl
  | error failure =>
    simp only [Connect.decode, Hex.codec, h, Except.mapError]
    refine .error (sameVersionError_of_ne (fun other => ne_unsupported ?_ other) ?_)
    · simp
    · exact decode_failure_ne h

/-- A turn of either loop keeps the slots the same; a token or an unknown param is stored
by the library and passed over by the example. -/
theorem turn_related {slots : Connect.Slots} {slots' : ParsedConn.Slots}
    (h : SameSlots slots slots') (pair : String) :
    Related SameVersionError SameSlots (slots.turn Hex.codec pair) (slots'.turn pair) := by
  obtain ⟨hv, hw, hs⟩ := h
  cases hcut : splitOnce '=' pair with
  | none =>
    simp only [Connect.Slots.turn, ParsedConn.Slots.turn, hcut]
    exact .error (sameVersionError_err _)
  | some kv =>
    obtain ⟨key, val⟩ := kv
    simp only [Connect.Slots.turn, ParsedConn.Slots.turn, hcut]
    split
    · exact (version_parse_related val).map fun v v' hvv => ⟨congrArg some hvv, hw, hs⟩
    · exact (decode_related val).map fun b b' hb => ⟨hv, congrArg some hb, hs⟩
    · exact (decode_related val).map fun b b' hb => ⟨hv, hw, congrArg some hb⟩
    · exact .ok ⟨hv, hw, hs⟩
    · next hkey hkey' hkey'' _ =>
      split
      · exact absurd rfl hkey
      · exact absurd rfl hkey'
      · exact absurd rfl hkey''
      · exact .ok ⟨hv, hw, hs⟩

/-- A value that both parsers require, under one text. -/
theorem require_related {α β : Type} {f : α → β} {x : Option α} {x' : Option β}
    (h : x' = x.map f) (message : String) :
    Related SameVersionError (fun a a' => a' = f a) (x.elim (.error message) .ok)
      (x'.elim (.error (.err message)) .ok) := by
  subst h
  cases x with
  | none => exact .error (sameVersionError_err message)
  | some a => exact .ok rfl

theorem build_related {slots : Connect.Slots} {slots' : ParsedConn.Slots}
    (h : SameSlots slots slots') (relay : String) :
    Related SameVersionError (fun c p => p = ParsedConn.ofConnString c) (slots.build relay)
      (slots'.build relay) := by
  obtain ⟨hv, hw, hs⟩ := h
  have hw' : slots'.walletPk = slots.walletPk.map id := by rw [hw, Option.map_id_fun, id]
  have hs' : slots'.secret = slots.secret.map id := by rw [hs, Option.map_id_fun, id]
  unfold Connect.Slots.build ParsedConn.Slots.build
  refine (require_related hv "missing v").bind fun version _ hversion => ?_
  refine (require_related hw' "missing wallet_pk").bind fun walletPk _ hwallet => ?_
  refine (require_related hs' "missing secret").bind fun secret _ hsecret => ?_
  subst hversion hwallet hsecret
  exact .ok rfl

/-- **The two parsers run in lock step**: over one codec the example returns what the
library returns, without token and relay params, and they report the same versions. -/
theorem parse_related (uri : String) :
    Related SameVersionError (fun c p => p = ParsedConn.ofConnString c)
      (ConnString.parse Hex.codec uri) (ParsedConn.parse uri) := by
  have hrest : stripPrefix "bwc://" uri = (stripPrefix "bwc://" uri).map id := by
    rw [Option.map_id_fun, id]
  have hcut (rest : String) : splitOnce '?' rest = (splitOnce '?' rest).map id := by
    rw [Option.map_id_fun, id]
  unfold ConnString.parse ParsedConn.parse
  refine (require_related hrest "not a bwc:// URI").bind fun rest rest' h => ?_
  obtain rfl : rest' = rest := h
  refine (require_related (hcut rest') "missing query").bind fun cut cut' h => ?_
  obtain rfl : cut' = cut := h
  exact (Related.foldlM _ (fun _ _ pair h => turn_related h pair) ⟨rfl, rfl, rfl⟩).bind
    fun _ _ h => build_related h cut'.1

theorem parsedConn_parse_iff {uri : String} {p : ParsedConn} :
    ParsedConn.parse uri = .ok p ↔
      ∃ c, ConnString.parse Hex.codec uri = .ok c ∧ p = ParsedConn.ofConnString c := by
  constructor
  · intro h
    exact (parse_related uri).exists_left h
  · rintro ⟨c, hc, rfl⟩
    obtain ⟨p, hp, rfl⟩ := (parse_related uri).exists_right hc
    exact hp

end HpkeDemo.Upgrade
