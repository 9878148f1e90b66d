import HpkeDemo.Connect.Faults
import HpkeDemo.Upgrade.Conn

/-! The faults that the library's parser and the example's find, each with its own codec. -/
namespace HpkeDemo.Upgrade
open Text
open Connect (ConnString HexCodec Fault PieceFault HasKey Reader Undecodable required
  pieceFault_of_free pieceFault_render hasKey_render required_split free_of_required
  map_eq_error_iff map_eq_ok_iff render)

/-- `ParsedConn::parse`. A value that the codec panics on makes it panic. -/
def ParsedConn.reader : Reader Failure ParsedConn.Slots ParsedConn where
  text := .err
  fails val failure := Hex.decode val = .error failure
  start := {}
  turn := Slots.turn
  build := Slots.build
  filled slots key := (key, true) ∈ [("v", slots.version.isSome),
    ("wallet_pk", slots.walletPk.isSome), ("secret", slots.secret.isSome)]

theorem ParsedConn.reader_parse (uri : String) : reader.parse uri = ParsedConn.parse uri := rfl

theorem version_parse_error_iff {val : String} {failure : Failure} :
    (Version.parse val).mapError .err = .error failure ↔
      val ≠ "1" ∧ val ≠ "2" ∧ failure = .err ("UNSUPPORTED_VERSION: " ++ val) := by
  unfold Version.parse
  split <;> simp_all [Except.mapError, eq_comm]

namespace ParsedConn

theorem turn_error (slots : Slots) (piece : String) (failure : Failure) :
    slots.turn piece = .error failure ↔
      PieceFault .err (fun val failure => Hex.decode val = .error failure) piece failure := by
  cases hcut : splitOnce '=' piece with
  | none =>
    rw [pieceFault_of_free (splitOnce_eq_none_iff.mp hcut)]
    simp [Slots.turn, hcut, eq_comm]
  | some kv =>
    obtain ⟨key, val⟩ := kv
    obtain ⟨free, htext⟩ := splitOnce_eq_some_iff.mp hcut
    obtain rfl : piece = render (key, val) := htext
    rw [pieceFault_render free]
    simp only [Slots.turn, hcut]
    split
    · simp [map_eq_error_iff, version_parse_error_iff]
    · simp [map_eq_error_iff]
    · simp [map_eq_error_iff]
    · next hv hw hs =>
      have hv : key ≠ "v" := hv
      have hw : key ≠ "wallet_pk" := hw
      have hs : key ≠ "secret" := hs
      simp [hv, hw, hs]

theorem turn_filled {key : String} (hkey : key ∈ required) (slots : Slots) (piece : String)
    (slots' : Slots) (h : slots.turn piece = .ok slots') :
    reader.filled slots' key ↔ reader.filled slots key ∨ HasKey key piece := by
  cases hcut : splitOnce '=' piece with
  | none => simp [Slots.turn, hcut] at h
  | some kv =>
    obtain ⟨key', val⟩ := kv
    obtain ⟨free, htext⟩ := splitOnce_eq_some_iff.mp hcut
    obtain rfl : piece = render (key', val) := htext
    rw [hasKey_render free (free_of_required hkey)]
    simp only [Slots.turn, hcut] at h
    simp only [required, List.mem_cons, List.not_mem_nil, or_false] at hkey
    split at h
    · obtain ⟨version, _, rfl⟩ := map_eq_ok_iff.mp h
      rcases hkey with rfl | rfl | rfl <;> simp [reader]
    · obtain ⟨walletPk, _, rfl⟩ := map_eq_ok_iff.mp h
      rcases hkey with rfl | rfl | rfl <;> simp [reader]
    · obtain ⟨secret, _, rfl⟩ := map_eq_ok_iff.mp h
      rcases hkey with rfl | rfl | rfl <;> simp [reader]
    · next hv hw hs =>
      have hv : key' ≠ "v" := hv
      have hw : key' ≠ "wallet_pk" := hw
      have hs : key' ≠ "secret" := hs
      obtain rfl := Except.ok.inj h
      rcases hkey with rfl | rfl | rfl <;> simp [hv, hw, hs]

theorem reader_lawful : reader.Lawful where
  turn_error := turn_error
  turn_filled _ hkey := turn_filled hkey
  start_empty key := by simp [reader]
  build_error slots relay e := by
    rw [required_split]
    simp only [List.forall_mem_cons]
    cases hv : slots.version <;> cases hw : slots.walletPk <;> cases hs : slots.secret <;>
      simp [reader, Slots.build, hv, hw, hs, bind, Except.bind, pure, Except.pure, @eq_comm _ e]

end ParsedConn

/-- **Every rejection has its reason.** Both parsers, each with its own codec, reject a string
exactly by its fault: no `bwc://` in front, else no `?` behind it, else the first piece that is
no param, of an unknown version or no hex to the codec, else the first of the version, the
wallet key and the secret that no piece has. -/
theorem faults_exact (hex : HexCodec) (uri : String) :
    (∀ e, ConnString.parse hex uri = .error e ↔ Fault id (Undecodable hex) uri e) ∧
    ∀ failure, ParsedConn.parse uri = .error failure ↔
      Fault .err (fun val failure => Hex.decode val = .error failure) uri failure := by
  constructor
  · intro e
    rw [← Connect.library_parse]
    exact Reader.parse_error_iff (Connect.library_lawful hex)
  · intro failure
    rw [← ParsedConn.reader_parse]
    exact Reader.parse_error_iff ParsedConn.reader_lawful

end HpkeDemo.Upgrade
