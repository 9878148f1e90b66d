import HpkeDemo.Bytes
import HpkeDemo.Text.Split

/-! The connection string of `src/connect.rs`: its type, `to_uri` and `parse`.
`parse`'s loop over the params is a fold whose state is the loop's own slots. -/
namespace HpkeDemo.Connect
open Text

/-- The `lexe_hex` crate. A decoding error is carried as its Debug text. -/
structure HexCodec where
  encode : Bytes → String
  decode : String → Except String Bytes

/-- Lowercase hex: decoding undoes encoding, which writes hex digits only. -/
structure HexCodec.Lawful (hex : HexCodec) : Prop where
  decode_encode : ∀ b, hex.decode (hex.encode b) = .ok b
  digits : ∀ b, ∀ c ∈ (hex.encode b).toList, c ∈ "0123456789abcdef".toList

inductive Version where
  | V1
  | V2
  deriving DecidableEq, Repr

def Version.parse (s : String) : Except String Version :=
  match s with
  | "1" => .ok .V1
  | "2" => .ok .V2
  | other => .error ("UNSUPPORTED_VERSION: " ++ other)

def Version.asU8 : Version → UInt8
  | .V1 => 1
  | .V2 => 2

structure ConnString where
  relay : String
  version : Version
  walletPk : Bytes
  secret : Bytes
  token : Option String
  relayParams : List (String × String)
  deriving DecidableEq, Repr

def ConnString.toUri (hex : HexCodec) (c : ConnString) : String :=
  let uri := "bwc://" ++ c.relay ++ "?v=" ++ toString c.version.asU8 ++
    "&wallet_pk=" ++ hex.encode c.walletPk ++ "&secret=" ++ hex.encode c.secret
  let uri := match c.token with
    | some token => uri ++ "&token=" ++ token
    | none => uri
  c.relayParams.foldl (fun uri kv => uri ++ "&" ++ kv.1 ++ "=" ++ kv.2) uri

/-- The mutable locals of `parse`'s loop. -/
structure Slots where
  version : Option Version := none
  walletPk : Option Bytes := none
  secret : Option Bytes := none
  token : Option String := none
  relayParams : List (String × String) := []
  deriving DecidableEq, Repr

def decode (hex : HexCodec) (v : String) : Except String Bytes :=
  (hex.decode v).mapError ("bad hex: " ++ ·)

/-- One turn of `parse`'s loop. -/
def Slots.turn (hex : HexCodec) (slots : Slots) (pair : String) : Except String Slots :=
  match splitOnce '=' pair with
  | none => .error "malformed param"
  | some (key, val) =>
    match key with
    | "v" => (Version.parse val).map fun v => { slots with version := some v }
    | "wallet_pk" => (decode hex val).map fun b => { slots with walletPk := some b }
    | "secret" => (decode hex val).map fun b => { slots with secret := some b }
    | "token" => .ok { slots with token := some val }
    | _ => .ok { slots with relayParams := slots.relayParams ++ [(key, val)] }

/-- The struct literal that ends `parse`, its fields checked in order. -/
def Slots.build (slots : Slots) (relay : String) : Except String ConnString := do
  let version ← slots.version.elim (.error "missing v") .ok
  let walletPk ← slots.walletPk.elim (.error "missing wallet_pk") .ok
  let secret ← slots.secret.elim (.error "missing secret") .ok
  return { relay, version, walletPk, secret, token := slots.token,
           relayParams := slots.relayParams }

def ConnString.parse (hex : HexCodec) (uri : String) : Except String ConnString := do
  let rest ← (stripPrefix "bwc://" uri).elim (.error "not a bwc:// URI") .ok
  let (relay, query) ← (splitOnce '?' rest).elim (.error "missing query") .ok
  let slots ← (split '&' query).foldlM (Slots.turn hex) {}
  slots.build relay

/-- The `info` of each direction of a connection. -/
def INFO_REQUEST : Bytes := Bytes.ofString "bwc-v1 request"
def INFO_RESPONSE : Bytes := Bytes.ofString "bwc-v1 response"

theorem info_ne : INFO_REQUEST ≠ INFO_RESPONSE := by decide

end HpkeDemo.Connect
