import HpkeDemo.Bytes

/-!
# HMAC and HKDF over any hash

HMAC as in RFC 2104: a key longer than a block is hashed, a shorter one filled up with
zero bytes. HKDF as in RFC 5869: the salt is the key that extracts.

* `prepare_eq_iff`: which keys fill up to one block;
* `Alike.extract_eq`: for HMAC such keys are one;
* `firstBlock_eq_iff`: without collisions, other salts derive other blocks;
* `firstBlock_eq_iff_both`: and so do other inputs;
* `take_expand`: what is derived begins with the first block.
-/

namespace Hkdf

/-- A hash of byte strings, with blocks of `B` bytes and digests of `L`. -/
structure Hash (B L : Nat) where
  digest : Bytes → Bytes
  length_digest : ∀ m, (digest m).length = L
  fits : L ≤ B

variable {B L : Nat}

def zeros (n : Nat) : Bytes := List.replicate n 0

/-- A key longer than a block is replaced by its digest. -/
def keyBytes (h : Hash B L) (key : Bytes) : Bytes :=
  if key.length ≤ B then key else h.digest key

/-- The block that a key is filled up to. -/
def prepare (h : Hash B L) (key : Bytes) : Bytes :=
  keyBytes h key ++ zeros (B - (keyBytes h key).length)

def mask (b : UInt8) (block : Bytes) : Bytes := block.map (· ^^^ b)

def inner (h : Hash B L) (block text : Bytes) : Bytes := h.digest (mask 0x36 block ++ text)

/-- What HMAC hashes last. -/
def outer (h : Hash B L) (block text : Bytes) : Bytes := mask 0x5c block ++ inner h block text

def hmac (h : Hash B L) (key text : Bytes) : Bytes := h.digest (outer h (prepare h key) text)

def extract (h : Hash B L) (salt ikm : Bytes) : Bytes := hmac h salt ikm

/-- `count` blocks from the `i`-th on, each fed with the one before. -/
def blocks (h : Hash B L) (prk info : Bytes) (i : Nat) (previous : Bytes) : Nat → Bytes
  | 0 => []
  | count + 1 =>
    let block := hmac h prk (previous ++ info ++ [UInt8.ofNat i])
    block ++ blocks h prk info (i + 1) block count

/-- `n` bytes of output, of at most 255 blocks. -/
def expand (h : Hash B L) (prk info : Bytes) (n : Nat) : Option Bytes :=
  if n ≤ 255 * L then some ((blocks h prk info 1 [] ((n + L - 1) / L)).take n) else none

def firstBlock (h : Hash B L) (salt ikm info : Bytes) : Bytes :=
  hmac h (extract h salt ikm) (info ++ [1])

/-- The keys, each replaced by its digest if longer than a block, differ only in zero
bytes at the end. -/
def Alike (h : Hash B L) (key key' : Bytes) : Prop :=
  ∃ n n', keyBytes h key ++ zeros n = keyBytes h key' ++ zeros n'

/-- What is hashed last for the key that a salt extracts, and for its first block. -/
def hashed (h : Hash B L) (salt ikm info : Bytes) : List Bytes :=
  [outer h (prepare h salt) ikm, outer h (prepare h (extract h salt ikm)) (info ++ [1])]

/-- Of what two salts make HMAC hash last, no two strings have one digest. -/
def CollisionFree (h : Hash B L) (ikm info salt salt' : Bytes) : Prop :=
  ∀ x ∈ hashed h salt ikm info ++ hashed h salt' ikm info,
    ∀ y ∈ hashed h salt ikm info ++ hashed h salt' ikm info, h.digest x = h.digest y → x = y

variable {h : Hash B L} {key key' salt salt' ikm info prk previous text : Bytes}

@[simp] theorem length_zeros (n : Nat) : (zeros n).length = n := List.length_replicate

theorem zeros_add (m n : Nat) : zeros (m + n) = zeros m ++ zeros n := by
  simp [zeros]

theorem length_keyBytes : (keyBytes h key).length ≤ B := by
  unfold keyBytes
  split
  · next hle => exact hle
  · rw [h.length_digest]
    exact h.fits

@[simp] theorem length_prepare : (prepare h key).length = B := by
  have hle : (keyBytes h key).length ≤ B := length_keyBytes
  rw [prepare, List.length_append, length_zeros]
  omega

@[simp] theorem length_hmac : (hmac h key text).length = L := h.length_digest _

/-- A key and any zero bytes, filled up and cut to a block. -/
theorem take_zeros (n : Nat) : (keyBytes h key ++ zeros n ++ zeros B).take B = prepare h key := by
  have hle : (keyBytes h key).length ≤ B := length_keyBytes
  have hfill : n + B = (B - (keyBytes h key).length) + (n + (keyBytes h key).length) := by omega
  rw [List.append_assoc, ← zeros_add, hfill, zeros_add, ← List.append_assoc]
  exact List.take_left' length_prepare

theorem prepare_eq_iff : prepare h key = prepare h key' ↔ Alike h key key' := by
  constructor
  · intro heq
    exact ⟨_, _, heq⟩
  · rintro ⟨n, n', heq⟩
    rw [← take_zeros n, heq, take_zeros]

theorem Alike.extract_eq (alike : Alike h salt salt') (ikm : Bytes) :
    extract h salt ikm = extract h salt' ikm := by
  rw [extract, hmac, prepare_eq_iff.mpr alike]
  rfl

theorem mask_inj {b : UInt8} {x y : Bytes} (heq : mask b x = mask b y) : x = y := by
  have hinj : Function.Injective (· ^^^ b : UInt8 → UInt8) := fun _ _ => (UInt8.xor_left_inj b).mp
  exact List.map_injective_iff.mpr hinj heq

/-- Keys of one length that a block holds are told apart. -/
theorem prepare_inj (hkey : key.length = L) (hkey' : key'.length = L)
    (heq : prepare h key = prepare h key') : key = key' := by
  have hfits := h.fits
  have bytes (k : Bytes) (hk : k.length = L) : keyBytes h k = k := by
    rw [keyBytes, if_pos (by omega)]
  rw [prepare, prepare, bytes key hkey, bytes key' hkey', hkey, hkey'] at heq
  exact (List.append_inj heq (hkey.trans hkey'.symm)).1

/-- Nor are keys of one length alike, if they are no longer than a block. -/
theorem alike_iff_of_length (hkey : key.length ≤ B) (hsame : key'.length = key.length) :
    Alike h key key' ↔ key = key' := by
  have bytes (k : Bytes) (hk : k.length ≤ B) : keyBytes h k = k := if_pos hk
  constructor
  · rintro ⟨n, n', heq⟩
    rw [bytes key hkey, bytes key' (hsame ▸ hkey)] at heq
    exact (List.append_inj heq hsame.symm).1
  · rintro rfl
    exact ⟨0, 0, rfl⟩

theorem prepare_of_outer_eq {text' : Bytes}
    (heq : outer h (prepare h key) text = outer h (prepare h key') text') :
    prepare h key = prepare h key' := by
  have hlen : (mask 0x5c (prepare h key)).length = (mask 0x5c (prepare h key')).length := by
    simp [mask]
  exact mask_inj (List.append_inj heq hlen).1

/-- Without collisions, salts derive one first block only if they are alike. -/
theorem firstBlock_eq_iff (free : CollisionFree h ikm info salt salt') :
    firstBlock h salt ikm info = firstBlock h salt' ikm info ↔ Alike h salt salt' := by
  constructor
  · intro heq
    -- From the block back to the extracted key, and from there to the salt.
    have hlast : outer h (prepare h (extract h salt ikm)) (info ++ [1]) =
        outer h (prepare h (extract h salt' ikm)) (info ++ [1]) :=
      free _ (by simp [hashed]) _ (by simp [hashed]) heq
    have hprk : extract h salt ikm = extract h salt' ikm :=
      prepare_inj length_hmac length_hmac (prepare_of_outer_eq hlast)
    have hfirst : outer h (prepare h salt) ikm = outer h (prepare h salt') ikm :=
      free _ (by simp [hashed]) _ (by simp [hashed]) hprk
    exact prepare_eq_iff.mp (prepare_of_outer_eq hfirst)
  · intro alike
    rw [firstBlock, alike.extract_eq]
    rfl

/-- All that HMAC hashes for the key that a salt extracts, and what it hashes last for that
key's first block. -/
def strings (h : Hash B L) (salt ikm info : Bytes) : List Bytes :=
  (mask 0x36 (prepare h salt) ++ ikm) :: hashed h salt ikm info

/-- Of these strings, no two have one digest. -/
def Distinguishes (h : Hash B L) (texts : List Bytes) : Prop :=
  ∀ x ∈ texts, ∀ y ∈ texts, h.digest x = h.digest y → x = y

/-- Without collisions, the first block tells both what it was extracted from and, up to
zero bytes, the salt. -/
theorem firstBlock_eq_iff_both {ikm' : Bytes}
    (distinguishes : Distinguishes h (strings h salt ikm info ++ strings h salt' ikm' info)) :
    firstBlock h salt ikm info = firstBlock h salt' ikm' info ↔
      ikm = ikm' ∧ Alike h salt salt' := by
  constructor
  · intro heq
    have hlast : outer h (prepare h (extract h salt ikm)) (info ++ [1]) =
        outer h (prepare h (extract h salt' ikm')) (info ++ [1]) :=
      distinguishes _ (by simp [strings, hashed]) _ (by simp [strings, hashed]) heq
    have hprk : extract h salt ikm = extract h salt' ikm' :=
      prepare_inj length_hmac length_hmac (prepare_of_outer_eq hlast)
    have hfirst : outer h (prepare h salt) ikm = outer h (prepare h salt') ikm' :=
      distinguishes _ (by simp [strings, hashed]) _ (by simp [strings, hashed]) hprk
    have hblock : prepare h salt = prepare h salt' := prepare_of_outer_eq hfirst
    -- With one block, the inner digests are one, and so are their texts.
    rw [outer, outer, hblock, List.append_cancel_left_eq, inner, inner, ← hblock] at hfirst
    have hinner : mask 0x36 (prepare h salt) ++ ikm = mask 0x36 (prepare h salt) ++ ikm' := by
      refine distinguishes _ (by simp [strings]) _ ?_ hfirst
      rw [hblock]
      simp [strings]
    exact ⟨List.append_cancel_left hinner, prepare_eq_iff.mp hblock⟩
  · rintro ⟨rfl, alike⟩
    rw [firstBlock, alike.extract_eq]
    rfl

theorem length_blocks (i count : Nat) :
    (blocks h prk info i previous count).length = count * L := by
  induction count generalizing i previous with
  | zero => simp [blocks]
  | succ count ih =>
    rw [blocks, List.length_append, length_hmac, ih, Nat.succ_mul, Nat.add_comm]

section output
variable {n : Nat} {okm : Bytes}

/-- The blocks up to the last one asked for, if any. -/
theorem count_blocks (hL : 0 < L) (hn : 0 < n) : (n + L - 1) / L = (n - 1) / L + 1 := by
  rw [← Nat.add_div_right _ hL]
  congr 1
  omega

theorem le_length_blocks (hmax : n ≤ 255 * L) : n ≤ (n + L - 1) / L * L := by
  by_cases hn : 0 < n
  · have hL : 0 < L := Nat.pos_of_ne_zero fun h => by subst h; omega
    have hlt : n - 1 < (n - 1) / L * L + L := Nat.lt_div_mul_add hL
    rw [count_blocks hL hn, Nat.succ_mul]
    omega
  · omega

theorem exists_expand (h : Hash B L) (prk info : Bytes) (hmax : n ≤ 255 * L) :
    ∃ okm, expand h prk info n = some okm ∧ okm.length = n := by
  refine ⟨_, if_pos hmax, ?_⟩
  rw [List.length_take, length_blocks, Nat.min_eq_left (le_length_blocks hmax)]

/-- The output begins with the first block. -/
theorem take_expand (hn : 0 < n) (hle : L ≤ n) (heq : expand h prk info n = some okm) :
    okm.take L = hmac h prk (info ++ [1]) := by
  rw [expand, Option.ite_none_right_eq_some] at heq
  obtain ⟨hmax, hokm⟩ := heq
  have hL : 0 < L := Nat.pos_of_ne_zero fun h => by subst h; omega
  rw [← Option.some.inj hokm, count_blocks hL hn, blocks, List.take_take, Nat.min_eq_left hle]
  exact List.take_left' length_hmac

end output

end Hkdf
