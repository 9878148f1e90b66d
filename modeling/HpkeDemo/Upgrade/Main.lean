import HpkeDemo.Upgrade.Display
import HpkeDemo.Upgrade.Secrets
import HpkeDemo.Upgrade.Versioned

/-! `main` of `bwc_post_quantum_upgrade.rs`, over whatever it draws and with any relay and
request in the place of its constants. -/
namespace HpkeDemo.Upgrade
open Text
open Hkdf (CollisionFree)

/-- What `main` draws. -/
structure Draw (H : Hpke) (C : V2.Crates) where
  wallet : Wallet H C
  client : H.PrivateKey × H.PublicKey
  client_keys : H.skToPk client.1 = client.2
  secret : {b : Bytes // b.length = 16}
  secret' : {b : Bytes // b.length = 16}
  wrong : {b : Bytes // b.length = 16}
  rng : H.Randomness
  rng' : C.Randomness
  forging : C.Randomness

/-- What `main` prints. -/
inductive Line where
  | issues (version : Version) (conn : String)
  | roundTrip (version : Version) (wireLength : Nat) (body : Bytes)
  | rejectedVersion (e : String)
  | rejectedSecret (e : String)

/-- The error of what must not succeed. -/
def expectErr {α : Type} (message : String) : Except Failure α → Except Failure String
  | .ok _ => .error (.err message)
  | .error (.err e) => .ok e
  | .error (.panic panic) => .error (.panic panic)

variable {H : Hpke} {C : V2.Crates}

def main (draw : Draw H C) (relay : String) (body : Bytes) : Except Failure (List Line) := do
  let conn := draw.wallet.connectionString .V1 relay draw.secret
  let shown ← Display.abbreviate conn
  let parsed ← ParsedConn.parse conn
  let wire ← clientSeal draw.rng draw.rng' parsed (some draw.client) body
  let opened ← draw.wallet.openWire parsed.version draw.secret (some draw.client.2) wire
  let conn' := draw.wallet.connectionString .V2 relay draw.secret'
  let shown' ← Display.abbreviate conn'
  let parsed' ← ParsedConn.parse conn'
  let wire' ← clientSeal draw.rng draw.rng' parsed' none body
  let opened' ← draw.wallet.openWire parsed'.version draw.secret' none wire'
  let bad := replace "v=2" "v=3" conn'
  let unknown ← expectErr "an unknown version should have been rejected" (ParsedConn.parse bad)
  let forged := { parsed' with secret := draw.wrong.1 }
  let wire'' ← clientSeal draw.rng draw.forging forged none body
  let refused ← expectErr "a request with the wrong secret should have been rejected"
    (draw.wallet.openWire .V2 draw.secret' none wire'')
  return [.issues .V1 shown, .roundTrip parsed.version wire.length opened,
    .issues .V2 shown', .roundTrip parsed'.version wire'.length opened',
    .rejectedVersion unknown, .rejectedSecret refused]

section replace
variable {relay : String}

/-- What stands behind the version of a minted string. -/
def postamble (wallet : Wallet H C) (secret : Bytes) : String :=
  "wallet_pk=" ++ (Hex.encode (wallet.keyBytes .V2) ++ ("&secret=" ++ Hex.encode secret))

theorem free_postamble (wallet : Wallet H C) (secret : Bytes) :
    Free 'v' (postamble wallet secret) := by
  simp only [postamble, free_append]
  exact ⟨by decide, free_encode (by decide) _, by decide, free_encode (by decide) _⟩

/-- The relay of a minted string is replaced apart from the rest, in which only the version is. -/
theorem replace_version (wallet : Wallet H C) (relay : String) (secret : Bytes) :
    replace "v=2" "v=3" (wallet.connectionString .V2 relay secret) =
      "bwc://" ++ replace "v=2" "v=3" relay ++ "?" ++
        ("v=3" ++ String.singleton '&' ++ postamble wallet secret) := by
  obtain ⟨rest, hrest⟩ : ∃ rest, rest = '&' :: (postamble wallet secret).toList := ⟨_, rfl⟩
  have htext : (wallet.connectionString .V2 relay secret).toList =
      "bwc://".toList ++ (relay.toList ++ '?' :: ("v=2".toList ++ rest)) := by
    rw [connectionString_split, String.append_assoc, String.toList_append, toList_preamble, hrest]
    simp [versionDigit, postamble]
  have hscheme (l : List Char) : Clear "v=2".toList "bwc://".toList l :=
    clear_of_head (by decide)
  have hend : Clear "v=2".toList rest [] := by
    refine clear_of_head ?_
    rw [hrest, List.mem_cons, not_or]
    exact ⟨by decide, free_postamble wallet secret⟩
  have htail : replaceFrom "v=2".toList "v=3".toList 0 (rest ++ []) = rest ++ [] :=
    replaceFrom_of_clear hend
  rw [List.append_nil] at htail
  rw [replace, htext, replaceFrom_of_clear (hscheme _),
    replaceFrom_append_cons (by decide) (by decide) (Nat.zero_le _),
    replaceFrom_pattern (by decide), htail, hrest]
  apply String.toList_injective
  simp [replace]

theorem free_replace (hrelay : Free '?' relay) : Free '?' (replace "v=2" "v=3" relay) := by
  rw [replace, free_ofList]
  intro hmem
  obtain hrep | hin := mem_of_mem_replaceFrom hmem
  · exact absurd hrep (by decide)
  · exact hrelay hin

/-- And what comes of it is no string of a known version. -/
theorem parse_replaced (wallet : Wallet H C) (hrelay : Free '?' relay) (secret : Bytes) :
    ParsedConn.parse (replace "v=2" "v=3" (wallet.connectionString .V2 relay secret)) =
      .error (.err "UNSUPPORTED_VERSION: 3") := by
  have hfirst : ParsedConn.Slots.turn {} "v=3" = .error (.err "UNSUPPORTED_VERSION: 3") := by
    decide +kernel
  have hfree : Free '&' "v=3" := by decide
  rw [replace_version, parsedConn_query (free_replace hrelay), split_append, split_of_free hfree,
    List.singleton_append, List.foldlM_cons, hfirst]
  rfl

end replace

/-- A message is refused under every secret that derives another key and nonce. -/
theorem V2.openWire_refused {rng : C.Randomness} {dk : C.DecapsulationKey} {s s' m wire : Bytes}
    (correct : C.Correct) (ideal : C.Ideal)
    (h : sealWire C rng (ekBytes C (C.encapsulationKey dk)) s m = .ok wire)
    (hne : derive C (C.encapsulate (C.encapsulationKey dk) rng).2 s ≠
      derive C (C.encapsulate (C.encapsulationKey dk) rng).2 s') :
    openWire C dk s' wire = .error (.err "v2 authentication/decryption failed") := by
  have hclosed : ¬ ∃ m', openWire C dk s' wire = .ok m' :=
    mt (exists_open_iff correct ideal h).mp hne
  obtain ⟨hlen, ek, key, nonce, ct, hek, _, _, rfl⟩ := sealWire_eq_ok_iff.mp h
  obtain rfl : C.encapsulationKey dk = ek :=
    Except.ok.inj ((correct.new_toBytes _ hlen).symm.trans hek)
  obtain ⟨key', nonce', hderive, _⟩ :=
    exists_derive correct (C.encapsulate (C.encapsulationKey dk) rng).2 s'
  have hkem := (C.encapsulate (C.encapsulationKey dk) rng).1.2
  have hdecrypt (m' : Bytes) : C.decrypt key' nonce' ct ≠ .ok m' := by
    intro hm'
    refine hclosed ⟨m', openWire_eq_ok_iff.mpr ⟨_, ct, key', nonce', rfl, ?_, hm'⟩⟩
    rw [correct.decapsulates]
    exact hderive
  have hlong : ¬ ((C.encapsulate (C.encapsulationKey dk) rng).1.1 ++ ct).length <
      CIPHERTEXT_SIZE := by
    rw [List.length_append, hkem]
    omega
  have hread : tryFrom CIPHERTEXT_SIZE (C.encapsulate (C.encapsulationKey dk) rng).1.1 =
      .ok (C.encapsulate (C.encapsulationKey dk) rng).1 :=
    tryFrom_eq_ok_iff.mpr rfl
  simp only [openWire, if_neg hlong, List.splitAt_eq, List.take_left' hkem, List.drop_left' hkem,
    hread, correct.decapsulates, hderive, Except.mapError, bind, Except.bind]
  cases hm : C.decrypt key' nonce' ct with
  | ok m' => exact absurd hm (hdecrypt m')
  | error e => rfl

/-- **What the upgrade demo reports.** Whatever is drawn, and for any relay that has no `?` and no
`wallet_pk=` in it, requests of both versions make their round trips, by one path from the minted
string on; the string with an unknown version is rejected as one, and a request of another secret
of the same length as not authentic. -/
theorem upgrade_main_reports {LowOrder : H.PublicKey → Prop} {sha256 : Hkdf.Hash 64 32}
    (primitives : CorrectPrimitives H C LowOrder) (ideal : C.Ideal) (hkdf : C.Rfc5869 sha256)
    (draw : Draw H C) {relay : String} (hrelay : Free '?' relay)
    (hname : ¬ "wallet_pk=".toList <:+: relay.toList) (hwrong : draw.wrong ≠ draw.secret')
    (free : CollisionFree sha256 (C.encapsulate draw.wallet.v2.2 draw.forging).2 V2.INFO
      draw.wrong draw.secret')
    (body : Bytes) : ∃ n n', main draw relay body =
      .ok [.issues .V1 (draw.wallet.shown .V1 draw.secret relay), .roundTrip .V1 n body,
        .issues .V2 (draw.wallet.shown .V2 draw.secret' relay), .roundTrip .V2 n' body,
        .rejectedVersion "UNSUPPORTED_VERSION: 3",
        .rejectedSecret "v2 authentication/decryption failed"] := by
  have shown (version : Version) (secret : Bytes) :=
    abbreviate_minted draw.wallet version secret primitives.encodings primitives.crates hname
  have parsed (version : Version) (secret : Bytes) :=
    draw.wallet.parsedConn_connectionString version secret hrelay
  have hsecret : draw.secret.1 ≠ [] := List.ne_nil_of_length_eq_add_one draw.secret.2
  obtain ⟨wire, hwire, _, hopen⟩ := exists_clientSeal_v1 primitives draw.wallet draw.rng
    draw.rng' relay hsecret draw.client_keys body
  obtain ⟨wire', hwire', hopen'⟩ := V2.exists_sealWire primitives.crates draw.wallet.v2.1
    draw.rng' draw.secret' body
  obtain ⟨wire'', hwire'', _⟩ := V2.exists_sealWire primitives.crates draw.wallet.v2.1
    draw.forging draw.wrong body
  have hrefused : V2.openWire C draw.wallet.v2.1 draw.secret' wire'' =
      .error (.err "v2 authentication/decryption failed") := by
    refine V2.openWire_refused primitives.crates ideal hwire'' ?_
    rw [← draw.wallet.v2_keys] at free
    rw [ne_eq, V2.derive_eq_iff hkdf free, Hkdf.alike_iff_of_length (by rw [draw.wrong.2]; decide)
      (draw.secret'.2.trans draw.wrong.2.symm), ← Subtype.ext_iff]
    exact hwrong
  have hkey : V2.ekBytes C (C.encapsulationKey draw.wallet.v2.1) = draw.wallet.keyBytes .V2 := by
    rw [draw.wallet.v2_keys]
    rfl
  rw [hkey] at hwire' hwire''
  have hseal' : clientSeal draw.rng draw.rng'
      { relay, version := .V2, walletPk := draw.wallet.keyBytes .V2, secret := draw.secret' }
      none body = .ok wire' := hwire'
  have hseal'' : clientSeal draw.rng draw.forging
      { relay, version := .V2, walletPk := draw.wallet.keyBytes .V2, secret := draw.wrong }
      none body = .ok wire'' := hwire''
  have hopened' : draw.wallet.openWire .V2 draw.secret' none wire' = .ok body := hopen'
  have hrefused' : draw.wallet.openWire .V2 draw.secret' none wire'' =
      .error (.err "v2 authentication/decryption failed") := hrefused
  have hunknown := parse_replaced draw.wallet hrelay draw.secret'
  refine ⟨wire.length, wire'.length, ?_⟩
  simp only [main, shown, parsed, hwire, hopen, hseal', hopened', hunknown, hseal'', hrefused',
    expectErr, bind, Except.bind]
  rfl

namespace Demo

def draw : Draw Clamped.hpke hkdfCrates where
  wallet := { v1 := Readable.wallet.v1, v2 := Readable.wallet.v2, v1_keys := rfl, v2_keys := rfl }
  client := Readable.client
  client_keys := rfl
  secret := Transparent.secret 7
  secret' := Transparent.secret 8
  wrong := Transparent.secret 9
  rng := Transparent.key 5
  rng' := rng
  forging := rng

set_option maxRecDepth 20000 in
theorem collisionFree_wrong : CollisionFree cutHash
    (hkdfCrates.encapsulate draw.wallet.v2.2 draw.forging).2 V2.INFO draw.wrong draw.secret' := by
  unfold CollisionFree
  decide +kernel

end Demo

theorem upgrade_main_reports_drawn : ∃ n n', main Demo.draw "relay.example.com" [8] =
    .ok [.issues .V1 (Demo.draw.wallet.shown .V1 Demo.draw.secret "relay.example.com"),
      .roundTrip .V1 n [8],
      .issues .V2 (Demo.draw.wallet.shown .V2 Demo.draw.secret' "relay.example.com"),
      .roundTrip .V2 n' [8], .rejectedVersion "UNSUPPORTED_VERSION: 3",
      .rejectedSecret "v2 authentication/decryption failed"] :=
  upgrade_main_reports (Readable.correctPrimitives Demo.hkdfCrates_correct) Demo.hkdfCrates_ideal
    Demo.hkdfCrates_rfc5869 Demo.draw (by decide) (by decide) (by decide) Demo.collisionFree_wrong
    [8]

end HpkeDemo.Upgrade
