import HpkeDemo.Hpke

/-! An `hpke` crate that hides nothing: a private key is its own public key, and a
ciphertext lists what it was sealed with before the plaintext. It satisfies every
ideal assumption, and its messages can be evaluated. -/
namespace HpkeDemo

/-- `n` ones and a zero announce the `n` bytes that follow. -/
def chunk (b : Bytes) : Bytes := List.replicate b.length 1 ++ 0 :: b

theorem replicate_zero_inj {n n' : Nat} {r r' : Bytes}
    (h : List.replicate n 1 ++ 0 :: r = List.replicate n' 1 ++ 0 :: r') : n = n' ∧ r = r' := by
  induction n generalizing n' with
  | zero => cases n' <;> simp_all [List.replicate_succ]
  | succ n ih =>
    cases n' with
    | zero => simp [List.replicate_succ] at h
    | succ n' =>
      simp only [List.replicate_succ, List.cons_append, List.cons.injEq, true_and] at h
      obtain ⟨rfl, rfl⟩ := ih h
      exact ⟨rfl, rfl⟩

theorem chunk_append_inj {a b x y : Bytes} (h : chunk a ++ x = chunk b ++ y) : a = b ∧ x = y := by
  simp only [chunk, List.append_assoc, List.cons_append] at h
  obtain ⟨hlen, h⟩ := replicate_zero_inj h
  exact List.append_inj h hlen

def chunks (bs : List Bytes) : Bytes := bs.flatMap chunk

theorem chunks_cons (b : Bytes) (bs : List Bytes) : chunks (b :: bs) = chunk b ++ chunks bs :=
  List.flatMap_cons

theorem chunks_append_inj {as bs : List Bytes} {x y : Bytes} (hlen : as.length = bs.length)
    (h : chunks as ++ x = chunks bs ++ y) : as = bs ∧ x = y := by
  induction as generalizing bs with
  | nil =>
    obtain rfl := List.length_eq_zero_iff.mp hlen.symm
    exact ⟨rfl, h⟩
  | cons a as ih =>
    obtain ⟨b, bs, rfl⟩ := List.exists_cons_of_length_eq_add_one hlen.symm
    simp only [chunks_cons, List.append_assoc] at h
    obtain ⟨rfl, hrest⟩ := chunk_append_inj h
    obtain ⟨rfl, rfl⟩ := ih (Nat.succ.inj hlen) hrest
    exact ⟨rfl, rfl⟩

namespace Transparent

abbrev Key := {b : Bytes // b.length = 32}

/-- The key of 32 equal bytes. -/
def key (b : UInt8) : Key := ⟨List.replicate 32 b, by simp⟩

theorem length_secret (b : UInt8) : (List.replicate 16 b).length = 16 := List.length_replicate

/-- The secret of 16 equal bytes. -/
def secret (b : UInt8) : {b : Bytes // b.length = 16} := ⟨List.replicate 16 b, length_secret b⟩

/-- The low-order point, with which the crate refuses to agree on a secret. -/
def lowOrder : Key := key 0

def keyFromBytes (b : Bytes) : Except String Key :=
  if h : b.length = 32 then .ok ⟨b, h⟩ else .error "IncorrectInputLength"

def headerS : OpModeS Key Key (Bytes × Bytes) → Key → Bytes → Key → List Bytes
  | .base, pkR, info, enc => [[0], [], [], [], pkR, info, enc]
  | .authPsk sender bundle, pkR, info, enc =>
    [[1], sender.2, bundle.1, bundle.2, pkR, info, enc]

def headerR : OpModeR Key (Bytes × Bytes) → Key → Key → Bytes → List Bytes
  | .base, skR, enc, info => [[0], [], [], [], skR, info, enc]
  | .authPsk pkS bundle, skR, enc, info => [[1], pkS, bundle.1, bundle.2, skR, info, enc]

def hpke : Hpke where
  PrivateKey := Key
  PublicKey := Key
  EncappedKey := Key
  PskBundle := Bytes × Bytes
  SenderContext := List Bytes
  ReceiverContext := List Bytes
  Randomness := Key
  skToPk := id
  pkToBytes pk := pk
  pkFromBytes := keyFromBytes
  encToBytes enc := enc
  encFromBytes := keyFromBytes
  pskBundle psk pskId :=
    if psk.isEmpty = pskId.isEmpty then .ok (psk, pskId) else .error "InvalidPskBundle"
  setupSender mode pkR info rng :=
    if pkR = lowOrder then .error "EncapError" else .ok (rng, headerS mode pkR info rng)
  setupReceiver mode skR enc info :=
    if skR = lowOrder then .error "DecapError" else .ok (headerR mode skR enc info)
  ctxSeal ctx plaintext aad := .ok (chunks (ctx ++ [aad]) ++ plaintext)
  ctxOpen ctx ciphertext aad :=
    match (chunks (ctx ++ [aad])).isPrefixOf? ciphertext with
    | some plaintext => .ok plaintext
    | none => .error "OpenError"

theorem keyFromBytes_eq_ok_iff {b : Bytes} {k : Key} : keyFromBytes b = .ok k ↔ b = k.1 := by
  by_cases h : b.length = 32
  · simp [keyFromBytes, h, Subtype.ext_iff]
  · simp only [keyFromBytes, h, dif_neg, not_false_eq_true, reduceCtorEq, false_iff]
    exact fun hb => h (hb ▸ k.2)

theorem isPrefixOf?_eq_some_iff {p b r : Bytes} : p.isPrefixOf? b = some r ↔ b = p ++ r := by
  induction p generalizing b with
  | nil => simp [List.isPrefixOf?]
  | cons x p ih =>
    cases b with
    | nil => simp [List.isPrefixOf?]
    | cons y b =>
      by_cases h : x = y
      · simp [List.isPrefixOf?, h, ih]
      · simp [List.isPrefixOf?, h, Ne.symm h]

theorem ctxOpen_eq_ok_iff {ctx : List Bytes} {ct aad m : Bytes} :
    hpke.ctxOpen ctx ct aad = .ok m ↔ hpke.ctxSeal ctx m aad = .ok ct := by
  simp only [hpke]
  split
  · next r h => simp [isPrefixOf?_eq_some_iff.mp h, eq_comm]
  · next h =>
    simp only [reduceCtorEq, Except.ok.injEq, false_iff]
    exact fun hct => by simp [isPrefixOf?_eq_some_iff.mpr hct.symm] at h

theorem encodings : hpke.Encodings where
  pk_length pk := pk.2
  pk_from_to _ := keyFromBytes_eq_ok_iff.mpr rfl
  enc_length enc := enc.2
  enc_from_to _ := keyFromBytes_eq_ok_iff.mpr rfl
  enc_to_from h := (keyFromBytes_eq_ok_iff.mp h).symm

theorem setupSender_eq_ok_iff {mode : OpModeS Key Key (Bytes × Bytes)} {pkR rng enc : Key}
    {info : Bytes} {ctx : List Bytes} : hpke.setupSender mode pkR info rng = .ok (enc, ctx) ↔
      pkR ≠ lowOrder ∧ rng = enc ∧ headerS mode pkR info rng = ctx := by
  by_cases h : pkR = lowOrder <;> simp [hpke, h]

theorem setupReceiver_eq_ok_iff {mode : OpModeR Key (Bytes × Bytes)} {skR enc : Key}
    {info : Bytes} {ctx : List Bytes} : hpke.setupReceiver mode skR enc info = .ok ctx ↔
      skR ≠ lowOrder ∧ headerR mode skR enc info = ctx := by
  by_cases h : skR = lowOrder <;> simp [hpke, h]

theorem pskBundle_eq_ok_iff {psk pskId : Bytes} {bundle : Bytes × Bytes} :
    hpke.pskBundle psk pskId = .ok bundle ↔
      psk.isEmpty = pskId.isEmpty ∧ (psk, pskId) = bundle := by
  by_cases h : psk.isEmpty = pskId.isEmpty <;> simp [hpke, h]

theorem correct : hpke.Correct where
  opens_sealed := by
    intro skS skR bundle info rng enc ctxS m ct hsetup hseal
    obtain ⟨hpkR, rfl, rfl⟩ := setupSender_eq_ok_iff.mp hsetup
    exact ⟨_, setupReceiver_eq_ok_iff.mpr ⟨hpkR, rfl⟩, ctxOpen_eq_ok_iff.mpr hseal⟩

theorem idealAuthPsk : hpke.IdealAuthPsk where
  opened_was_sealed := by
    intro skR pkS bundle enc info ctx m ct hsetup hopen
    obtain ⟨hskR, rfl⟩ := setupReceiver_eq_ok_iff.mp hsetup
    exact ⟨pkS, enc, _, rfl, setupSender_eq_ok_iff.mpr ⟨hskR, rfl, rfl⟩,
      ctxOpen_eq_ok_iff.mp hopen⟩
  sealed_binds := by
    intro s s' bundle bundle' pkR pkR' info info' rng rng' enc ctx ctx' m m' ct hs hs' hm hm'
    obtain ⟨_, rfl, rfl⟩ := setupSender_eq_ok_iff.mp hs
    obtain ⟨_, rfl, rfl⟩ := setupSender_eq_ok_iff.mp hs'
    obtain ⟨hctx, rfl⟩ := chunks_append_inj (by simp [headerS])
      (Except.ok.inj (hm.trans hm'.symm))
    simp only [headerS, List.cons_append, List.nil_append, List.cons.injEq, true_and,
      and_true] at hctx
    obtain ⟨hpk, hpsk, hid, hpkR, hinfo⟩ := hctx
    exact ⟨Subtype.ext hpk, Prod.ext hpsk hid, Subtype.ext hpkR, hinfo, rfl⟩
  bundle_binds := by
    intro psk psk' pskId pskId' bundle h h'
    obtain ⟨_, rfl⟩ := pskBundle_eq_ok_iff.mp h
    obtain ⟨_, h'⟩ := pskBundle_eq_ok_iff.mp h'
    exact ⟨(congrArg Prod.fst h').symm, (congrArg Prod.snd h').symm⟩

theorem idealBase : hpke.IdealBase where
  opened_was_sealed := by
    intro skR enc info ctx m ct hsetup hopen
    obtain ⟨hskR, rfl⟩ := setupReceiver_eq_ok_iff.mp hsetup
    exact ⟨enc, _, setupSender_eq_ok_iff.mpr ⟨hskR, rfl, rfl⟩, ctxOpen_eq_ok_iff.mp hopen⟩
  sealed_binds := by
    intro pkR pkR' info info' rng rng' enc ctx ctx' m m' ct hs hs' hm hm'
    obtain ⟨_, rfl, rfl⟩ := setupSender_eq_ok_iff.mp hs
    obtain ⟨_, rfl, rfl⟩ := setupSender_eq_ok_iff.mp hs'
    obtain ⟨hctx, rfl⟩ := chunks_append_inj (by simp [headerS])
      (Except.ok.inj (hm.trans hm'.symm))
    simp only [headerS, List.cons_append, List.nil_append, List.cons.injEq, true_and,
      and_true] at hctx
    exact ⟨Subtype.ext hctx.1, hctx.2, rfl⟩

theorem pskRule : hpke.PskRule := by
  intro psk pskId
  constructor
  · rintro ⟨bundle, h⟩
    rw [← List.isEmpty_iff, ← List.isEmpty_iff, (pskBundle_eq_ok_iff.mp h).1]
  · intro h
    have hempty : psk.isEmpty = pskId.isEmpty := by
      rw [Bool.eq_iff_iff, List.isEmpty_iff, List.isEmpty_iff, h]
    exact ⟨(psk, pskId), pskBundle_eq_ok_iff.mpr ⟨hempty, rfl⟩⟩

theorem encapsulates : hpke.Encapsulates (· = lowOrder) where
  setup_ok_iff := by
    intro mode pkR info rng
    constructor
    · rintro ⟨⟨enc, ctx⟩, h⟩
      exact (setupSender_eq_ok_iff.mp h).1
    · intro h
      exact ⟨_, setupSender_eq_ok_iff.mpr ⟨h, rfl, rfl⟩⟩
  seals := fun _ _ => ⟨_, rfl⟩

end Transparent
end HpkeDemo
