import CkbScriptIpc.Interaction.Stream
import Mathlib.Algebra.Group.Nat.Defs

/-!
# The C library: errors, memory and allocators

What `ckb_script_ipc.c` works on besides its pipes: non-zero return codes, a byte
memory with addresses, and the allocator behind `payload_malloc`. Address 0 is
`NULL`, and `PANIC` does not return.

* `load_store_append`: bytes stored one behind the other are loaded as a whole;
* `FixedAllocator.malloc_block`, `free_block`: a payload finds a block, and freeing
  it clears its flag.
-/

namespace CkbScriptIpc

open Interaction

/-- A return code that is not 0: the error of a C function. -/
structure Code where
  val : Int32
  ne_zero : val ≠ 0
  deriving DecidableEq, Repr

theorem otherEndClosed_ne_zero : (7 : Int32) ≠ 0 := by decide

/-- The code of a `ckb_read` whose other end is closed. -/
def otherEndClosed : Code := ⟨7, otherEndClosed_ne_zero⟩

/-- `CSIErrorCode` without `CSI_SUCCESS`. -/
inductive CSIErrorCode where
  | internal
  | invalidRequest
  | vlq
  | malloc
  | mallocTooLarge
  | invalidFd
  | readVlq
  | sendRequest
  | sendResponse
  | sendVlq
  | inheritedFds
  | payloadTooSmall
  | iobufTooSmall
  | faTooManyBlock
  | faNotAligned
  deriving DecidableEq, Repr

/-- The codes count up from `CSI_ERROR_INTERNAL = 50`. -/
def CSIErrorCode.toInt32 : CSIErrorCode → Int32
  | .internal => 50
  | .invalidRequest => 51
  | .vlq => 52
  | .malloc => 53
  | .mallocTooLarge => 54
  | .invalidFd => 55
  | .readVlq => 56
  | .sendRequest => 57
  | .sendResponse => 58
  | .sendVlq => 59
  | .inheritedFds => 60
  | .payloadTooSmall => 61
  | .iobufTooSmall => 62
  | .faTooManyBlock => 63
  | .faNotAligned => 64

def CSIErrorCode.toCode (e : CSIErrorCode) : Code :=
  ⟨e.toInt32, by cases e <;> decide⟩

/-- The answers to the syscalls of a C program and to its callback. -/
abbrev CsiRes (X Y : Type) : StreamOp X → Type := StreamOp.Res Code Y

/-! ## Memory -/

abbrev Memory := Nat → UInt8

/-- The `n` bytes at `p`. -/
def load (m : Memory) (p : Nat) : Nat → Bytes
  | 0 => []
  | n + 1 => m p :: load m (p + 1) n

/-- Put `bs` at `p`, as `memcpy` does. -/
def store (m : Memory) (p : Nat) (bs : Bytes) : Memory :=
  fun a => if p ≤ a then (bs[a - p]?).getD (m a) else m a

@[simp] theorem length_load (m : Memory) (p n : Nat) : (load m p n).length = n := by
  induction n generalizing p with
  | zero => rfl
  | succ n ih => simp [load, ih]

theorem load_congr {m m' : Memory} {p n : Nat} (h : ∀ a, p ≤ a → a < p + n → m a = m' a) :
    load m p n = load m' p n := by
  induction n generalizing p with
  | zero => rfl
  | succ n ih =>
    have hhead : m p = m' p := h p (by omega) (by omega)
    have htail : load m (p + 1) n = load m' (p + 1) n :=
      ih fun a hle hlt => h a (by omega) (by omega)
    simp [load, hhead, htail]

theorem load_add (m : Memory) (p k n : Nat) :
    load m p (k + n) = load m p k ++ load m (p + k) n := by
  induction k generalizing p with
  | zero => simp [load]
  | succ k ih =>
    have hk : k + 1 + n = (k + n) + 1 := by omega
    have hp : p + 1 + k = p + (k + 1) := by omega
    rw [hk, load, load, ih, List.cons_append, hp]

theorem take_load (m : Memory) (p n k : Nat) : (load m p n).take k = load m p (min k n) := by
  rcases Nat.le_total k n with hk | hk
  · obtain ⟨j, rfl⟩ := Nat.exists_eq_add_of_le hk
    rw [load_add, Nat.min_eq_left hk, List.take_left' (length_load m p k)]
  · rw [Nat.min_eq_right hk, List.take_of_length_le (by rwa [length_load])]

theorem drop_load (m : Memory) (p n k : Nat) : (load m p n).drop k = load m (p + k) (n - k) := by
  rcases Nat.le_total k n with hk | hk
  · obtain ⟨j, rfl⟩ := Nat.exists_eq_add_of_le hk
    rw [load_add, List.drop_left' (length_load m p k), Nat.add_sub_cancel_left]
  · rw [Nat.sub_eq_zero_of_le hk, List.drop_eq_nil_of_le (by rwa [length_load]), load]

/-- A store does not touch what lies below it. -/
theorem load_store_below (m : Memory) {p q n : Nat} (bs : Bytes) (h : p + n ≤ q) :
    load (store m q bs) p n = load m p n := by
  apply load_congr
  intro a _ hlt
  have hq : ¬ q ≤ a := by omega
  simp [store, hq]

theorem load_store (m : Memory) (p : Nat) (bs : Bytes) : load (store m p bs) p bs.length = bs := by
  induction bs generalizing p m with
  | nil => rfl
  | cons b bs ih =>
    have htail : load (store m p (b :: bs)) (p + 1) bs.length =
        load (store m (p + 1) bs) (p + 1) bs.length := by
      apply load_congr
      intro a hle hlt
      have hsub : a - p = (a - (p + 1)) + 1 := by omega
      have hp : p ≤ a := by omega
      simp [store, hle, hp, hsub]
    have hhead : store m p (b :: bs) p = b := by simp [store]
    rw [List.length_cons, load, hhead, htail, ih]

@[simp] theorem store_nil (m : Memory) (p : Nat) : store m p [] = m := by
  funext a
  simp [store]

/-- One byte stored, and others behind it. -/
theorem store_cons (m : Memory) (p : Nat) (b : UInt8) (bs : Bytes) :
    store (store m p [b]) (p + 1) bs = store m p (b :: bs) := by
  funext a
  rcases Nat.lt_trichotomy a p with hlt | rfl | hgt
  · have hp : ¬ p ≤ a := by omega
    have hp' : ¬ p + 1 ≤ a := by omega
    simp [store, hp, hp']
  · have hp' : ¬ a + 1 ≤ a := by omega
    simp [store, hp']
  · have hsub : a - p = (a - (p + 1)) + 1 := by omega
    have hp : p ≤ a := by omega
    have hp' : p + 1 ≤ a := by omega
    simp [store, hp, hp', hsub]

/-- A store leaves alone what lies before and behind its bytes. -/
theorem store_outside (m : Memory) {p a : Nat} (bs : Bytes) (h : a < p ∨ p + bs.length ≤ a) :
    store m p bs a = m a := by
  by_cases hp : p ≤ a
  · have hlen : bs.length ≤ a - p := by omega
    simp [store, hp, List.getElem?_eq_none hlen]
  · simp [store, hp]

/-- Bytes stored behind `k` others are loaded with them. -/
theorem load_store_append (m : Memory) (p k : Nat) (bs : Bytes) :
    load (store m (p + k) bs) p (k + bs.length) = load m p k ++ bs := by
  rw [load_add, load_store_below m bs (Nat.le_refl _), load_store]

/-! ## Allocators -/

/-- `payload_malloc` and `payload_free`; a `free` that gives nothing panics. -/
class PayloadAllocator (A : Type) where
  malloc : Nat → A → Nat × A
  free : Nat → A → Option A

structure FixedAllocator where
  usedFlags : UInt64
  blockCount : UInt64
  len : UInt64
  buf : Nat
  deriving DecidableEq, Repr

namespace FixedAllocator

/-- `__builtin_ctzll`, of a word that is not 0. -/
def ctz (x : UInt64) : Nat := ((List.range 64).find? fun i => x.toBitVec.getLsbD i).getD 64

/-- `1 << index`: a shift of an `int`, whose sign bit is extended to 64 bits. -/
def flag (index : Nat) : UInt64 := ((1 : Int32) <<< Int32.ofNat (index % 32)).toInt64.toUInt64

def blockSize (a : FixedAllocator) : Nat := (a.len / a.blockCount).toNat

/-- `fixed_allocator_malloc`. A block that is too small for `size` is marked as
used all the same. -/
def malloc (size : Nat) (a : FixedAllocator) : Nat × FixedAllocator :=
  let revertFlags := ~~~ a.usedFlags
  if revertFlags = 0 then (0, a)
  else
    let index := ctz revertFlags
    if index ≥ a.blockCount.toNat then (0, a)
    else
      let a' := { a with usedFlags := a.usedFlags ||| flag index }
      if size > a.blockSize then (0, a') else (a.buf + a.blockSize * index, a')

/-- `fixed_allocator_free`. -/
def free (ptr : Nat) (a : FixedAllocator) : Option FixedAllocator :=
  if ptr = 0 then some a
  else if ptr < a.buf ∨ ptr ≥ a.buf + a.len.toNat then none
  else
    let offset := ptr - a.buf
    if offset % a.blockSize ≠ 0 then none
    else
      let index := offset / a.blockSize
      some { a with usedFlags := a.usedFlags &&& ~~~ flag index }

instance : PayloadAllocator FixedAllocator where
  malloc := malloc
  free := free

/-- A block is found where the lowest clear flag is that of a block. -/
theorem malloc_block {a : FixedAllocator} {size index : Nat} (hfree : ~~~ a.usedFlags ≠ 0)
    (hctz : ctz (~~~ a.usedFlags) = index) (hcount : index < a.blockCount.toNat)
    (hsize : size ≤ a.blockSize) :
    a.malloc size =
      (a.buf + a.blockSize * index, { a with usedFlags := a.usedFlags ||| flag index }) := by
  have hindex : ¬ index ≥ a.blockCount.toNat := by omega
  have hfits : ¬ size > a.blockSize := by omega
  simp only [malloc, hfree, hctz, hindex, hfits, ↓reduceIte]

/-- What is handed out is large enough. -/
theorem malloc_fits {a : FixedAllocator} {size : Nat} (h : (a.malloc size).1 ≠ 0) :
    size ≤ a.blockSize := by
  refine Nat.le_of_not_lt fun hlt => h ?_
  by_cases hfree : ~~~ a.usedFlags = 0
  · simp only [malloc, hfree, ↓reduceIte]
  · by_cases hindex : ctz (~~~ a.usedFlags) ≥ a.blockCount.toNat
    · simp only [malloc, hfree, hindex, ↓reduceIte]
    · simp only [malloc, hfree, hindex, hlt, ↓reduceIte]

/-- Freeing a block clears its flag. -/
theorem free_block {a : FixedAllocator} (index : Nat)
    (hnull : a.buf + a.blockSize * index ≠ 0) (hsize : 0 < a.blockSize)
    (hindex : index < a.blockCount.toNat) :
    a.free (a.buf + a.blockSize * index) =
      some { a with usedFlags := a.usedFlags &&& ~~~ flag index } := by
  have hblocks : a.blockSize * a.blockCount.toNat ≤ a.len.toNat := by
    rw [blockSize, UInt64.toNat_div]
    exact Nat.div_mul_le_self _ _
  have hlt : a.blockSize * index + a.blockSize ≤ a.blockSize * a.blockCount.toNat := by
    rw [← Nat.mul_succ]
    exact Nat.mul_le_mul_left _ hindex
  have hrange : ¬ (a.buf + a.blockSize * index < a.buf ∨
      a.buf + a.blockSize * index ≥ a.buf + a.len.toNat) := by omega
  have hoff : a.buf + a.blockSize * index - a.buf = a.blockSize * index := by omega
  simp only [free, hnull, hrange, ↓reduceIte, hoff, Nat.mul_mod_right, ne_eq, not_true_eq_false,
    Nat.mul_div_cancel_left index hsize]

theorem blockSize_lt (a : FixedAllocator) : a.blockSize < 2 ^ 64 := UInt64.toNat_lt _

/-- Where a block has room there is one. -/
theorem blockCount_pos {a : FixedAllocator} (h : 0 < a.blockSize) : 0 < a.blockCount.toNat := by
  rcases Nat.eq_zero_or_pos a.blockCount.toNat with h0 | hpos
  · rw [blockSize, UInt64.toNat_div, h0, Nat.div_zero] at h
    omega
  · exact hpos

end FixedAllocator

/-- Where a payload of `len` bytes goes, and the allocator then. Without a payload
the address stays `payload`. -/
def placed {A : Type} [PayloadAllocator A] (len payload : Nat) (a : A) : Nat × A :=
  if 0 < len then PayloadAllocator.malloc len a else (payload, a)

/-- `payload_malloc` succeeds for a payload of `len` bytes, if there is one. -/
def Placeable {A : Type} [PayloadAllocator A] (len : Nat) (a : A) : Prop :=
  0 < len → (PayloadAllocator.malloc len a).1 ≠ 0

theorem placeable_zero {A : Type} [PayloadAllocator A] (a : A) : Placeable 0 a :=
  fun h => absurd h (Nat.lt_irrefl 0)

theorem placeable_of_placed {A : Type} [PayloadAllocator A] {n : Nat} {a : A}
    (h : (placed n 0 a).1 ≠ 0) : Placeable n a := by
  intro hn
  rwa [placed, if_pos hn] at h

namespace FixedAllocator

/-- An allocator of which no block is in use. -/
structure Unused (a : FixedAllocator) : Prop where
  usedFlags : a.usedFlags = 0
  buf : 0 < a.buf

variable {a : FixedAllocator} {len n : Nat}

/-- The first payload goes to the first block. -/
theorem placed_first (ha : a.Unused) (hlen : 0 < len) (hfit : len ≤ a.blockSize) :
    placed len 0 a = (a.buf, { a with usedFlags := 1 }) := by
  have hused := ha.usedFlags
  have hfree : ~~~ a.usedFlags ≠ 0 := by rw [hused]; decide
  have hctz : ctz (~~~ a.usedFlags) = 0 := by rw [hused]; decide +kernel
  have hflag : (0 : UInt64) ||| flag 0 = 1 := by decide +kernel
  have hblock := malloc_block hfree hctz (blockCount_pos (by omega)) hfit
  rw [hused, hflag, Nat.mul_zero, Nat.add_zero] at hblock
  rw [placed, if_pos hlen]
  exact hblock

theorem placeable_first (ha : a.Unused) (hfit : len ≤ a.blockSize) : Placeable len a := by
  intro hlen
  have hplaced := placed_first ha hlen hfit
  rw [placed, if_pos hlen] at hplaced
  rw [hplaced]
  exact Nat.ne_of_gt ha.buf

/-- Another one goes to the second. -/
theorem placed_second (hn : 0 < n) (hfit : n ≤ a.blockSize) (hcount : 2 ≤ a.blockCount.toNat) :
    placed n 0 { a with usedFlags := 1 } =
      (a.buf + a.blockSize * 1, { a with usedFlags := 3 }) := by
  have hfree : ~~~ (1 : UInt64) ≠ 0 := by decide
  have hctz : ctz (~~~ (1 : UInt64)) = 1 := by decide +kernel
  have hflag : (1 : UInt64) ||| flag 1 = 3 := by decide +kernel
  have hblock := malloc_block (a := { a with usedFlags := 1 }) hfree hctz hcount hfit
  rw [hflag] at hblock
  rw [placed, if_pos hn]
  exact hblock

theorem le_of_placeable (h : Placeable n a) : n ≤ a.blockSize := by
  rcases Nat.eq_zero_or_pos n with rfl | hn
  · exact Nat.zero_le _
  · exact malloc_fits (h hn)

theorem free_first (ha : a.Unused) (hsize : 0 < a.blockSize) (flags : UInt64) :
    FixedAllocator.free a.buf { a with usedFlags := flags } =
      some { a with usedFlags := flags &&& ~~~ 1 } := by
  have hflag : flag 0 = 1 := by decide +kernel
  have hfree := free_block (a := { a with usedFlags := flags }) 0 (Nat.ne_of_gt ha.buf) hsize
    (blockCount_pos hsize)
  rw [hflag, Nat.mul_zero, Nat.add_zero] at hfree
  exact hfree

/-- A payload of `n` bytes fits a block besides a payload of `held` bytes. -/
def FitsBeside (a : FixedAllocator) (held n : Nat) : Prop :=
  n = 0 ∨ n ≤ a.blockSize ∧ (if held = 0 then 1 else 2) ≤ a.blockCount.toNat

instance (a : FixedAllocator) (held n : Nat) : Decidable (a.FitsBeside held n) :=
  inferInstanceAs (Decidable (_ ∨ _))

/-- **Two payloads.** A request payload and then a response payload find their
blocks, and freeing both in this order leaves no block in use. -/
theorem payload_cycle (ha : a.Unused) (hlen : len ≤ a.blockSize)
    (hn : a.FitsBeside len n) :
    Placeable n (placed len 0 a).2 ∧
      ∃ a', PayloadAllocator.free (placed len 0 a).1 (placed n 0 (placed len 0 a).2).2 = some a' ∧
        PayloadAllocator.free (placed n 0 (placed len 0 a).2).1 a' = some a := by
  rw [FitsBeside] at hn
  have hself : { a with usedFlags := 0 } = a := by rw [← ha.usedFlags]
  have hnone : ∀ b : FixedAllocator, placed 0 0 b = (0, b) := fun _ => rfl
  rcases Nat.eq_zero_or_pos len with rfl | hlen0
  · rw [hnone]
    rcases Nat.eq_zero_or_pos n with rfl | hn0
    · rw [hnone]
      exact ⟨placeable_zero a, a, rfl, rfl⟩
    · have hfit : n ≤ a.blockSize := by omega
      have hclear : (1 : UInt64) &&& ~~~ 1 = 0 := by decide
      have hfree := free_first ha (by omega) 1
      rw [hclear, hself] at hfree
      have hplaced := placed_first ha hn0 hfit
      rw [hplaced]
      exact ⟨placeable_of_placed (by rw [hplaced]; exact Nat.ne_of_gt ha.buf), _, rfl, hfree⟩
  · rw [placed_first ha hlen0 hlen]
    rcases Nat.eq_zero_or_pos n with rfl | hn0
    · have hclear : (1 : UInt64) &&& ~~~ 1 = 0 := by decide
      have hfree := free_first ha (by omega) 1
      rw [hclear, hself] at hfree
      rw [hnone]
      exact ⟨placeable_zero _, a, hfree, rfl⟩
    · have hne : len ≠ 0 := by omega
      simp only [hne, ↓reduceIte] at hn
      have hfit : n ≤ a.blockSize := by omega
      have hcount : 2 ≤ a.blockCount.toNat := by omega
      have hclear : (3 : UInt64) &&& ~~~ 1 = 2 := by decide
      have hfirst := free_first ha (by omega) 3
      rw [hclear] at hfirst
      have hflag : (2 : UInt64) &&& ~~~ flag 1 = 0 := by decide +kernel
      have hbuf := ha.buf
      have hnull : a.buf + a.blockSize * 1 ≠ 0 := by omega
      have hsecond := free_block (a := { a with usedFlags := 2 }) 1 hnull
        (show 0 < a.blockSize by omega) hcount
      rw [hflag, hself] at hsecond
      have hplaced := placed_second hn0 hfit hcount
      rw [hplaced]
      exact ⟨placeable_of_placed (by rw [hplaced]; exact hnull), _, hfirst, hsecond⟩

end FixedAllocator

end CkbScriptIpc
