import CkbScriptIpc.Csi.Context
import Mathlib.Logic.Relation
import Mathlib.Data.List.Nodup

/-!
# The C library: the fixed-size allocator over whole histories

`fixed_allocator_init`, and what `fixed_allocator_malloc` and `fixed_allocator_free`
do in any order. A history (`Heap`) keeps the pointers that were handed out and not
given back; the flag word stands for a list of block numbers (`Holds`).

* `malloc_cases`: a `malloc` finds all blocks in use, or takes one that is not;
* `blocks_isolated`: what is handed out are disjoint blocks of the buffer;
* `allocator_provides_iff`: there are as many blocks as the caller asked for, if it
  asked for at most 32.
-/

namespace CkbScriptIpc

/-- `fixed_allocator_init`, or the code that it panics with. -/
def fixedAllocatorInit (buf : Nat) (len blockCount : UInt64) :
    Except CSIErrorCode FixedAllocator :=
  if blockCount > 64 then .error .faTooManyBlock
  else if len % blockCount ≠ 0 then .error .faNotAligned
  else .ok ⟨0, blockCount, len, buf⟩

/-- `csi_init_payload`. -/
def csiInitPayload (buf : Nat) (len blockCount : UInt64) : Except CSIErrorCode FixedAllocator :=
  if len < 1024 then .error .payloadTooSmall else fixedAllocatorInit buf len blockCount

/-- `csi_init_iobuf`. -/
def csiInitIobuf (buf : Nat) (len blockCount : UInt64) : Except CSIErrorCode FixedAllocator :=
  if len < 1024 then .error .iobufTooSmall else fixedAllocatorInit buf len blockCount

/-! ## Histories -/

/-- An allocator, with the pointers that it has handed out and not taken back. -/
structure Heap (A : Type) where
  allocator : A
  live : List Nat

/-- A `malloc` of a size in `ok`, or a `free` of a live pointer. -/
inductive Heap.Step {A : Type} [PayloadAllocator A] (ok : Nat → Prop) : Heap A → Heap A → Prop
  | malloc {h : Heap A} {size : Nat} : ok size →
      Heap.Step ok h ⟨(PayloadAllocator.malloc size h.allocator).2,
        if (PayloadAllocator.malloc size h.allocator).1 = 0 then h.live
        else (PayloadAllocator.malloc size h.allocator).1 :: h.live⟩
  | free {h : Heap A} {ptr : Nat} {a : A} : ptr ∈ h.live →
      PayloadAllocator.free ptr h.allocator = some a → Heap.Step ok h ⟨a, h.live.erase ptr⟩

/-- The histories of `malloc` and `free`. -/
abbrev Heap.Reach {A : Type} [PayloadAllocator A] (ok : Nat → Prop) : Heap A → Heap A → Prop :=
  Relation.ReflTransGen (Heap.Step ok)

namespace FixedAllocator

/-! ## The flag word -/

def bit (flags : UInt64) (i : Nat) : Bool := flags.toBitVec.getLsbD i

@[simp] theorem bit_zero (i : Nat) : bit 0 i = false := by
  simp [bit]

@[simp] theorem bit_or (x y : UInt64) (i : Nat) : bit (x ||| y) i = (bit x i || bit y i) := by
  simp [bit]

theorem bit_not {x : UInt64} {i : Nat} (hi : i < 64) : bit (~~~ x) i = !bit x i := by
  simp [bit, hi]

theorem bit_and_not {x y : UInt64} {i : Nat} (hi : i < 64) :
    bit (x &&& ~~~ y) i = (bit x i && !bit y i) := by
  simp [bit, hi]

theorem bit_ext {x y : UInt64} (h : ∀ i < 64, bit x i = bit y i) : x = y :=
  UInt64.toBitVec_inj.mp (BitVec.eq_of_getLsbD_eq fun i hi => h i hi)

/-- `1 << index` sets one bit, or from the sign bit of an `int` on all of them. -/
theorem bit_flag {index i : Nat} (hindex : index < 32) (hi : i < 64) :
    bit (flag index) i = (decide (i = index) || decide (index = 31 ∧ 31 ≤ i)) := by
  have htable : ∀ k : Fin 32, ∀ j : Fin 64, bit (flag k.1) j.1 =
      (decide (j.1 = k.1) || decide (k.1 = 31 ∧ 31 ≤ j.1)) := by decide +kernel
  exact htable ⟨index, hindex⟩ ⟨i, hi⟩

/-- `__builtin_ctzll` finds the lowest bit. -/
theorem ctz_spec {x : UInt64} (hx : x ≠ 0) :
    ctz x < 64 ∧ bit x (ctz x) ∧ ∀ j < ctz x, bit x j = false := by
  cases hfind : (List.range 64).find? fun i => x.toBitVec.getLsbD i with
  | none =>
    refine absurd (bit_ext fun i hi => ?_) hx
    simpa [bit] using List.find?_eq_none.mp hfind i (List.mem_range.mpr hi)
  | some k =>
    obtain ⟨hbit, hk, hbelow⟩ := List.find?_range_eq_some.mp hfind
    have hctz : ctz x = k := by rw [ctz, hfind, Option.getD_some]
    rw [hctz]
    exact ⟨List.mem_range.mp hk, hbit, fun j hj => by simpa [bit] using hbelow j hj⟩

/-- From bit 31 on all bits are equal: they come from the sign of an `int`. -/
def Coherent (flags : UInt64) : Prop := ∀ i, 31 ≤ i → i < 64 → bit flags i = bit flags 31

/-- Mark block `i` as used. -/
def mark (a : FixedAllocator) (i : Nat) : FixedAllocator :=
  { a with usedFlags := a.usedFlags ||| flag i }

/-- Mark block `i` as free. -/
def unmark (a : FixedAllocator) (i : Nat) : FixedAllocator :=
  { a with usedFlags := a.usedFlags &&& ~~~ flag i }

section

variable {a : FixedAllocator} {i j size : Nat}

theorem bit_mark (hi : i < 32) (hj : j < 64) :
    bit (a.mark i).usedFlags j =
      (bit a.usedFlags j || (decide (j = i) || decide (i = 31 ∧ 31 ≤ j))) := by
  rw [mark, bit_or, bit_flag hi hj]

theorem bit_unmark (hi : i < 32) (hj : j < 64) :
    bit (a.unmark i).usedFlags j =
      (bit a.usedFlags j && !(decide (j = i) || decide (i = 31 ∧ 31 ≤ j))) := by
  rw [unmark, bit_and_not hj, bit_flag hi hj]

theorem coherent_mark (h : Coherent a.usedFlags) (hi : i < 32) :
    Coherent (a.mark i).usedFlags := by
  intro j hj hlt
  rw [bit_mark hi hlt, bit_mark hi (by omega), h j hj hlt]
  by_cases hi' : i = 31
  · simp [hi', hj]
  · have hne : j ≠ i := by omega
    have hne' : 31 ≠ i := by omega
    simp [hi', hne, hne']

theorem coherent_unmark (h : Coherent a.usedFlags) (hi : i < 32) :
    Coherent (a.unmark i).usedFlags := by
  intro j hj hlt
  rw [bit_unmark hi hlt, bit_unmark hi (by omega), h j hj hlt]
  by_cases hi' : i = 31
  · simp [hi', hj]
  · have hne : j ≠ i := by omega
    have hne' : 31 ≠ i := by omega
    simp [hi', hne, hne']

/-! ## What one call does -/

/-- Where block `i` starts. -/
def block (a : FixedAllocator) (i : Nat) : Nat := a.buf + a.blockSize * i

/-- **What a `malloc` does.** It changes nothing when the flags of all blocks below
the 32nd are set; else it takes the first block whose flag is not, also when that is
too small. -/
theorem malloc_cases (h : Coherent a.usedFlags) (size : Nat) :
    (a.malloc size = (0, a) ∧ ∀ i < 32, i < a.blockCount.toNat → bit a.usedFlags i) ∨
      ∃ i < 32, i < a.blockCount.toNat ∧ bit a.usedFlags i = false ∧
        a.malloc size = (if size > a.blockSize then 0 else a.block i, a.mark i) := by
  by_cases hfull : ~~~ a.usedFlags = 0
  · refine .inl ⟨by simp [malloc, hfull], fun i hi _ => ?_⟩
    have hbit : bit (~~~ a.usedFlags) i = false := by rw [hfull, bit_zero]
    rw [bit_not (by omega)] at hbit
    simpa using hbit
  obtain ⟨hlt, hset, hbelow⟩ := ctz_spec hfull
  rw [bit_not hlt, Bool.not_eq_true'] at hset
  have hbelow' : ∀ j < ctz (~~~ a.usedFlags), bit a.usedFlags j := by
    intro j hj
    have hclear := hbelow j hj
    rw [bit_not (by omega)] at hclear
    simpa using hclear
  -- a clear bit above the 31st would make the 31st a lower one
  have hindex : ctz (~~~ a.usedFlags) < 32 := by
    refine Nat.lt_of_not_le fun hle => ?_
    have h31 := hbelow' 31 (by omega)
    rw [← h _ (by omega) hlt, hset] at h31
    cases h31
  by_cases hcount : ctz (~~~ a.usedFlags) < a.blockCount.toNat
  · refine .inr ⟨_, hindex, hcount, hset, ?_⟩
    have hnot : ¬ ctz (~~~ a.usedFlags) ≥ a.blockCount.toNat := by omega
    simp only [malloc, hfull, hnot, ↓reduceIte]
    by_cases hsize : size > a.blockSize
    · simp only [hsize, ↓reduceIte, mark]
    · simp only [hsize, ↓reduceIte, mark, block]
  · refine .inl ⟨?_, fun i _ hi => hbelow' i (by omega)⟩
    simp only [malloc, hfull, ↓reduceIte, ge_iff_le, Nat.le_of_not_lt hcount]

/-- Freeing the start of a block clears its flag. -/
theorem free_unmark (hsize : 0 < a.blockSize) (hi : i < a.blockCount.toNat)
    (hne : a.block i ≠ 0) : a.free (a.block i) = some (a.unmark i) :=
  free_block i hne hsize hi

theorem block_inj (hsize : 0 < a.blockSize) (h : a.block i = a.block j) : i = j :=
  Nat.eq_of_mul_eq_mul_left hsize (Nat.add_left_cancel h)

end

/-! ## What a history keeps -/

/-- The blocks `slots` are live: their flags are set, and no block is in use twice. -/
structure Holds (slots : List Nat) (h : Heap FixedAllocator) : Prop where
  coherent : Coherent h.allocator.usedFlags
  nodup : slots.Nodup
  used : ∀ i ∈ slots, i < 32 ∧ i < h.allocator.blockCount.toNat ∧ bit h.allocator.usedFlags i
  live : h.live = slots.map h.allocator.block
  nonnull : ∀ i ∈ slots, h.allocator.block i ≠ 0

/-- What a step makes of the live blocks: nothing, it takes one, it takes one without
handing it out, or it frees one. -/
inductive Moves (ok : Nat → Prop) (slots : List Nat) (h : Heap FixedAllocator) :
    List Nat → Heap FixedAllocator → Prop
  | stays : Moves ok slots h slots h
  | takes {i : Nat} : i < 32 → i < h.allocator.blockCount.toNat →
      bit h.allocator.usedFlags i = false → h.allocator.block i ≠ 0 →
      Moves ok slots h (i :: slots) ⟨h.allocator.mark i, h.allocator.block i :: h.live⟩
  | loses {i size : Nat} : i < 32 → ok size →
      size > h.allocator.blockSize ∨ h.allocator.block i = 0 →
      Moves ok slots h slots ⟨h.allocator.mark i, h.live⟩
  | frees {i : Nat} : i ∈ slots →
      Moves ok slots h (slots.erase i)
        ⟨h.allocator.unmark i, h.live.erase (h.allocator.block i)⟩

variable {ok : Nat → Prop} {slots slots' : List Nat} {h h' : Heap FixedAllocator}

/-- Whatever a step does, it is one of the moves. -/
theorem step_moves (hsize : 0 < h.allocator.blockSize) (hh : Holds slots h)
    (hs : Heap.Step ok h h') : ∃ slots', Moves ok slots h slots' h' := by
  cases hs with
  | @malloc size hok =>
    show ∃ slots', Moves ok slots h slots' ⟨(h.allocator.malloc size).2,
      if (h.allocator.malloc size).1 = 0 then h.live else (h.allocator.malloc size).1 :: h.live⟩
    rcases malloc_cases hh.coherent size with ⟨hm, -⟩ | ⟨i, hi, hcount, hclear, hm⟩
    · rw [hm]
      exact ⟨slots, .stays⟩
    · rw [hm]
      by_cases hnull : (if size > h.allocator.blockSize then 0 else h.allocator.block i) = 0
      · simp only [hnull, ↓reduceIte]
        refine ⟨slots, .loses hi hok (Decidable.or_iff_not_imp_left.mpr fun hfit => ?_)⟩
        rwa [if_neg hfit] at hnull
      · have hfit : ¬ size > h.allocator.blockSize := fun hlarge => hnull (if_pos hlarge)
        rw [if_neg hfit] at hnull
        simp only [hfit, hnull, ↓reduceIte]
        exact ⟨i :: slots, .takes hi hcount hclear hnull⟩
  | @free ptr a hptr hfree =>
    rw [hh.live] at hptr
    obtain ⟨i, hi, rfl⟩ := List.mem_map.mp hptr
    have hfree' := free_unmark hsize (hh.used i hi).2.1 (hh.nonnull i hi)
    rw [show PayloadAllocator.free _ _ = h.allocator.free _ from rfl, hfree'] at hfree
    cases hfree
    exact ⟨slots.erase i, .frees hi⟩

/-- A move keeps the account of the live blocks. -/
theorem moves_holds (hsize : 0 < h.allocator.blockSize) (hh : Holds slots h)
    (hm : Moves ok slots h slots' h') : Holds slots' h' := by
  cases hm with
  | stays => exact hh
  | @takes i hi hcount hclear hnull =>
    refine ⟨coherent_mark hh.coherent hi, ?_, ?_, ?_, ?_⟩
    · refine List.nodup_cons.mpr ⟨fun hmem => ?_, hh.nodup⟩
      rw [(hh.used i hmem).2.2] at hclear
      cases hclear
    · intro j hj
      rcases List.mem_cons.mp hj with rfl | hj
      · exact ⟨hi, hcount, by rw [bit_mark hi (by omega)]; simp⟩
      · obtain ⟨hlt, hcount', hbit⟩ := hh.used j hj
        exact ⟨hlt, hcount', by rw [bit_mark hi (by omega), hbit]; rfl⟩
    · rw [hh.live]
      rfl
    · intro j hj
      rcases List.mem_cons.mp hj with rfl | hj
      · exact hnull
      · exact hh.nonnull j hj
  | @loses i _ hi =>
    refine ⟨coherent_mark hh.coherent hi, hh.nodup, fun j hj => ?_, hh.live, hh.nonnull⟩
    obtain ⟨hlt, hcount', hbit⟩ := hh.used j hj
    exact ⟨hlt, hcount', by rw [bit_mark hi (by omega), hbit]; rfl⟩
  | @frees i hi =>
    have hi32 := (hh.used i hi).1
    refine ⟨coherent_unmark hh.coherent hi32, hh.nodup.erase i, fun j hj => ?_, ?_,
      fun j hj => hh.nonnull j (List.mem_of_mem_erase hj)⟩
    · obtain ⟨hne, hj⟩ := hh.nodup.mem_erase_iff.mp hj
      obtain ⟨hlt, hcount, hbit⟩ := hh.used j hj
      refine ⟨hlt, hcount, ?_⟩
      have hsign : ¬ (i = 31 ∧ 31 ≤ j) := by omega
      rw [bit_unmark hi32 (by omega), hbit]
      simp [hne, hsign]
    · rw [hh.live]
      exact (List.map_erase (fun _ _ he => block_inj hsize he) slots).symm

/-- A live pointer is that of a block, and can be freed. -/
theorem live_frees (hsize : 0 < h.allocator.blockSize) (hh : Holds slots h) {ptr : Nat}
    (hptr : ptr ∈ h.live) : ∃ a, h.allocator.free ptr = some a := by
  rw [hh.live] at hptr
  obtain ⟨i, hi, rfl⟩ := List.mem_map.mp hptr
  exact ⟨_, free_unmark hsize (hh.used i hi).2.1 (hh.nonnull i hi)⟩

/-- The buffer of an allocator stays what it is. -/
structure SameBuffer (a a' : FixedAllocator) : Prop where
  blockCount : a'.blockCount = a.blockCount
  len : a'.len = a.len
  buf : a'.buf = a.buf

theorem SameBuffer.trans {a b c : FixedAllocator} (h : SameBuffer a b) (h' : SameBuffer b c) :
    SameBuffer a c :=
  ⟨h'.blockCount.trans h.blockCount, h'.len.trans h.len, h'.buf.trans h.buf⟩

theorem SameBuffer.blockSize {a a' : FixedAllocator} (h : SameBuffer a a') :
    a'.blockSize = a.blockSize := by
  rw [FixedAllocator.blockSize, FixedAllocator.blockSize, h.len, h.blockCount]

theorem placed_sameBuffer (size payload : Nat) (a : FixedAllocator) :
    SameBuffer a (placed size payload a).2 := by
  by_cases hsize : 0 < size
  · rw [placed, if_pos hsize]
    show SameBuffer a (a.malloc size).2
    rw [malloc]
    by_cases hfree : ~~~ a.usedFlags = 0
    · rw [if_pos hfree]
      exact ⟨rfl, rfl, rfl⟩
    · rw [if_neg hfree]
      by_cases hindex : ctz (~~~ a.usedFlags) ≥ a.blockCount.toNat
      · rw [if_pos hindex]
        exact ⟨rfl, rfl, rfl⟩
      · rw [if_neg hindex]
        split <;> exact ⟨rfl, rfl, rfl⟩
  · rw [placed, if_neg hsize]
    exact ⟨rfl, rfl, rfl⟩

theorem moves_sameBuffer (hm : Moves ok slots h slots' h') :
    SameBuffer h.allocator h'.allocator := by
  cases hm <;> exact ⟨rfl, rfl, rfl⟩

variable {a : FixedAllocator}

theorem holds_start (hflags : a.usedFlags = 0) : Holds [] ⟨a, []⟩ where
  coherent i _ _ := by rw [hflags, bit_zero, bit_zero]
  nodup := List.nodup_nil
  used i hi := absurd hi List.not_mem_nil
  live := rfl
  nonnull i hi := absurd hi List.not_mem_nil

/-- What holds of the live blocks at the start and is kept by every move holds in
every history. -/
theorem reach_holds {J : List Nat → Heap FixedAllocator → Prop} (hsize : 0 < a.blockSize)
    (hflags : a.usedFlags = 0) (hstart : J [] ⟨a, []⟩)
    (hmove : ∀ {slots h slots' h'}, SameBuffer a h.allocator → Holds slots h → J slots h →
      Moves ok slots h slots' h' → J slots' h')
    (hr : Heap.Reach ok ⟨a, []⟩ h) :
    ∃ slots, SameBuffer a h.allocator ∧ Holds slots h ∧ J slots h := by
  induction hr with
  | refl => exact ⟨[], ⟨rfl, rfl, rfl⟩, holds_start hflags, hstart⟩
  | tail _ hs ih =>
    obtain ⟨slots, hsame, hh, hj⟩ := ih
    have hsize' := hsame.blockSize ▸ hsize
    obtain ⟨slots', hm⟩ := step_moves hsize' hh hs
    exact ⟨slots', hsame.trans (moves_sameBuffer hm), moves_holds hsize' hh hm,
      hmove hsame hh hj hm⟩

end FixedAllocator

/-! ## Isolation -/

section

open FixedAllocator

variable {buf : Nat} {len blockCount : UInt64} {a : FixedAllocator} {h : Heap FixedAllocator}

/-- What `fixed_allocator_init` accepts of a buffer that is not empty. -/
theorem fixedAllocatorInit_ok (hlen : 1024 ≤ len)
    (hinit : fixedAllocatorInit buf len blockCount = .ok a) :
    a = ⟨0, blockCount, len, buf⟩ ∧ 0 < blockCount.toNat ∧ blockCount.toNat ≤ 64 := by
  rw [fixedAllocatorInit] at hinit
  split at hinit
  · cases hinit
  · rename_i hmany
    split at hinit
    · cases hinit
    · rename_i hdvd
      cases hinit
      refine ⟨rfl, Nat.pos_of_ne_zero fun hzero => hdvd ?_, ?_⟩
      · rw [ne_eq, ← UInt64.toNat_inj, UInt64.toNat_mod, hzero, Nat.mod_zero]
        rw [UInt64.le_iff_toNat_le] at hlen
        have h1024 : (1024 : UInt64).toNat = 1024 := rfl
        simp only [UInt64.toNat_zero]
        omega
      · rw [gt_iff_lt, UInt64.lt_iff_toNat_lt] at hmany
        have h64 : (64 : UInt64).toNat = 64 := rfl
        omega

/-- The blocks that it cuts the buffer into are not empty, and lie inside. -/
theorem blockSize_of_init (hlen : 1024 ≤ len)
    (hinit : fixedAllocatorInit buf len blockCount = .ok a) :
    a.blockSize = len.toNat / blockCount.toNat ∧ 0 < a.blockSize ∧
      a.blockSize * blockCount.toNat ≤ len.toNat := by
  obtain ⟨rfl, hpos, hmax⟩ := fixedAllocatorInit_ok hlen hinit
  have h1024 : 1024 ≤ len.toNat := UInt64.le_iff_toNat_le.mp hlen
  have hsize : blockSize ⟨0, blockCount, len, buf⟩ = len.toNat / blockCount.toNat :=
    UInt64.toNat_div _ _
  rw [hsize]
  exact ⟨rfl, Nat.div_pos (by omega) hpos, Nat.div_mul_le_self _ _⟩

/-- The live blocks of any history. -/
theorem reach_slots {ok : Nat → Prop} (hlen : 1024 ≤ len)
    (hinit : fixedAllocatorInit buf len blockCount = .ok a) (hr : Heap.Reach ok ⟨a, []⟩ h) :
    ∃ slots, SameBuffer a h.allocator ∧ Holds slots h := by
  obtain ⟨-, hsize, -⟩ := blockSize_of_init hlen hinit
  obtain ⟨rfl, -, -⟩ := fixedAllocatorInit_ok hlen hinit
  obtain ⟨slots, hsame, hh, -⟩ := reach_holds (J := fun _ _ => True) hsize rfl trivial
    (fun _ _ _ _ => trivial) hr
  exact ⟨slots, hsame, hh⟩

/-- After any history a live pointer can be freed. -/
theorem reach_frees {ok : Nat → Prop} (hlen : 1024 ≤ len)
    (hinit : fixedAllocatorInit buf len blockCount = .ok a) (hr : Heap.Reach ok ⟨a, []⟩ h)
    {ptr : Nat} (hptr : ptr ∈ h.live) : ∃ a', h.allocator.free ptr = some a' := by
  obtain ⟨-, hsize, -⟩ := blockSize_of_init hlen hinit
  obtain ⟨slots, hsame, hh⟩ := reach_slots hlen hinit hr
  exact live_frees (hsame.blockSize ▸ hsize) hh hptr

/-- The blocks of `n` bytes at `p` and at `q` have no byte in common. -/
def Apart (n p q : Nat) : Prop := p + n ≤ q ∨ q + n ≤ p

theorem apart_block {i j : Nat} (hne : i ≠ j) : Apart a.blockSize (a.block i) (a.block j) := by
  have hlt : ∀ {i j : Nat}, i < j → a.block i + a.blockSize ≤ a.block j := by
    intro i j hij
    rw [block, block, Nat.add_assoc, ← Nat.mul_succ]
    exact Nat.add_le_add_left (Nat.mul_le_mul_left _ hij) _
  rcases Nat.lt_or_gt_of_ne hne with hij | hji
  · exact .inl (hlt hij)
  · exact .inr (hlt hji)

/-- **Isolation.** After any history a pointer that is not `NULL` starts a block inside
the buffer, and no two live blocks overlap. -/
theorem blocks_isolated (hlen : 1024 ≤ len)
    (hinit : fixedAllocatorInit buf len blockCount = .ok a)
    (hr : Heap.Reach (fun _ => True) ⟨a, []⟩ h) :
    (∀ size, (h.allocator.malloc size).1 ≠ 0 →
      ∃ i < blockCount.toNat,
        (h.allocator.malloc size).1 = buf + len.toNat / blockCount.toNat * i ∧
        (h.allocator.malloc size).1 + len.toNat / blockCount.toNat ≤ buf + len.toNat) ∧
      h.live.Pairwise (Apart (len.toNat / blockCount.toNat)) := by
  obtain ⟨hblock, hsize, hinside⟩ := blockSize_of_init hlen hinit
  obtain ⟨slots, hsame, hh⟩ := reach_slots hlen hinit hr
  obtain ⟨rfl, -, -⟩ := fixedAllocatorInit_ok hlen hinit
  have hsize' := hsame.blockSize.trans hblock
  constructor
  · intro size hne
    rcases malloc_cases hh.coherent size with ⟨hm, -⟩ | ⟨i, -, hcount, -, hm⟩
    · rw [hm] at hne
      exact absurd rfl hne
    · rw [hsame.blockCount] at hcount
      have hptr : (h.allocator.malloc size).1 = buf + len.toNat / blockCount.toNat * i := by
        rw [hm] at hne ⊢
        split at hne
        · exact absurd rfl hne
        · rename_i hfit
          rw [if_neg hfit, block, hsize', hsame.buf]
      refine ⟨i, hcount, hptr, ?_⟩
      rw [hptr, Nat.add_assoc, ← Nat.mul_succ]
      rw [hblock] at hinside
      exact Nat.add_le_add_left (Nat.le_trans (Nat.mul_le_mul_left _ hcount) hinside) _
  · rw [hh.live, List.pairwise_map, ← hsize']
    exact hh.nodup.imp fun hne => apart_block hne

/-- Two blocks are taken, and a request that is too large marks a third one. -/
theorem blocks_isolated_beside_refused :
    [4112, 4096].Pairwise (Apart (1024 / 64)) :=
  (blocks_isolated (h := ⟨⟨7, 64, 1024, 4096⟩, [4112, 4096]⟩) (by decide)
    (show fixedAllocatorInit 4096 1024 64 = .ok _ from rfl)
    (.tail (.tail (.tail .refl (@Heap.Step.malloc _ _ _ _ 16 trivial))
      (@Heap.Step.malloc _ _ _ _ 16 trivial)) (@Heap.Step.malloc _ _ _ _ 17 trivial))).2

/-! ## How many blocks there are -/

/-- Every flag is that of a live block. -/
def Exact (slots : List Nat) (h : Heap FixedAllocator) : Prop :=
  ∀ i < 32, bit h.allocator.usedFlags i → i ∈ slots

theorem moves_exact {ok : Nat → Prop} {slots slots' : List Nat} {h' : Heap FixedAllocator}
    (hok : ∀ size, ok size → size ≤ h.allocator.blockSize) (hbuf : 0 < h.allocator.buf)
    (hh : Holds slots h) (hx : Exact slots h) (hm : Moves ok slots h slots' h') :
    Exact slots' h' := by
  intro j hj hbit
  cases hm with
  | stays => exact hx j hj hbit
  | @takes i hi =>
    rw [bit_mark hi (by omega)] at hbit
    simp only [Bool.or_eq_true, decide_eq_true_eq] at hbit
    rcases hbit with hbit | rfl | ⟨rfl, hle⟩
    · exact List.mem_cons_of_mem _ (hx j hj hbit)
    · exact List.mem_cons_self
    · have : j = 31 := by omega
      exact this ▸ List.mem_cons_self
  | @loses i size _ hsize hlost =>
    have hfit := hok size hsize
    have hnonnull : h.allocator.block i ≠ 0 := by
      rw [block]
      omega
    rcases hlost with hlarge | hnull
    · omega
    · exact absurd hnull hnonnull
  | @frees i hi =>
    rw [bit_unmark (hh.used i hi).1 (by omega)] at hbit
    simp only [Bool.and_eq_true, Bool.not_eq_true', Bool.or_eq_false_iff,
      decide_eq_false_iff_not] at hbit
    exact (hh.nodup.mem_erase_iff).mpr ⟨hbit.2.1, hx j hj hbit.1⟩

/-- Blocks are handed out until as many are live as there are, or 32. -/
theorem malloc_null_iff {slots : List Nat} {size : Nat} (hbuf : 0 < h.allocator.buf)
    (hsize : size ≤ h.allocator.blockSize) (hh : Holds slots h) (hx : Exact slots h) :
    (h.allocator.malloc size).1 = 0 ↔ h.live.length = min 32 h.allocator.blockCount.toNat := by
  have hlength : h.live.length = slots.length := by rw [hh.live, List.length_map]
  have hmem : ∀ i ∈ slots, i ∈ List.range (min 32 h.allocator.blockCount.toNat) := by
    intro i hi
    obtain ⟨hlt, hcount, -⟩ := hh.used i hi
    exact List.mem_range.mpr (by omega)
  have hle := hh.nodup.length_le_of_subset hmem
  rw [List.length_range] at hle
  rw [hlength]
  rcases malloc_cases hh.coherent size with ⟨hm, hfull⟩ | ⟨i, hi, hcount, hclear, hm⟩
  · have hall : List.range (min 32 h.allocator.blockCount.toNat) ⊆ slots := by
      intro i hi
      rw [List.mem_range] at hi
      exact hx i (by omega) (hfull i (by omega) (by omega))
    have hge := List.nodup_range.length_le_of_subset hall
    rw [List.length_range] at hge
    simp only [hm, true_iff]
    omega
  · have hnotMem : i ∉ slots := by
      intro hi'
      rw [(hh.used i hi').2.2] at hclear
      cases hclear
    have hlt := (List.nodup_cons.mpr ⟨hnotMem, hh.nodup⟩).length_le_of_subset
      (List.cons_subset.mpr ⟨List.mem_range.mpr (by omega : i < min 32 _), hmem⟩)
    rw [List.length_range, List.length_cons] at hlt
    have hptr : (h.allocator.malloc size).1 ≠ 0 := by
      rw [hm, if_neg (by omega), block]
      omega
    constructor
    · exact fun hnull => absurd hnull hptr
    · intro hfull
      omega

/-- The allocator gives all its blocks: after any history of requests that fit a block,
such a request fails only when `block_count` blocks are live. -/
def ProvidesAllBlocks (a : FixedAllocator) : Prop :=
  ∀ h, Heap.Reach (· ≤ a.blockSize) ⟨a, []⟩ h → ∀ size ≤ a.blockSize,
    (h.allocator.malloc size).1 = 0 → h.live.length = a.blockCount.toNat

section

variable (hbuf : 0 < buf) (hlen : 1024 ≤ len)
  (hinit : fixedAllocatorInit buf len blockCount = .ok a)

include hbuf hlen hinit

/-- The flags that such a history has set are those of the live blocks. -/
theorem reach_exact (hr : Heap.Reach (· ≤ a.blockSize) ⟨a, []⟩ h) :
    ∃ slots, SameBuffer a h.allocator ∧ Holds slots h ∧ Exact slots h := by
  obtain ⟨-, hpos, -⟩ := blockSize_of_init hlen hinit
  obtain ⟨rfl, -, -⟩ := fixedAllocatorInit_ok hlen hinit
  exact reach_holds (J := Exact) hpos rfl (fun i _ hbit => by simp at hbit)
    (fun hsame hh hx hm => moves_exact (fun size hs => hsame.blockSize.symm ▸ hs)
      (hsame.buf.symm ▸ hbuf) hh hx hm) hr

theorem provides_null_iff (hr : Heap.Reach (· ≤ a.blockSize) ⟨a, []⟩ h) {size : Nat}
    (hsize : size ≤ a.blockSize) :
    (h.allocator.malloc size).1 = 0 ↔ h.live.length = min 32 blockCount.toNat := by
  obtain ⟨slots, hsame, hh, hx⟩ := reach_exact hbuf hlen hinit hr
  obtain ⟨rfl, -, -⟩ := fixedAllocatorInit_ok hlen hinit
  rw [malloc_null_iff (hsame.buf.symm ▸ hbuf) (hsame.blockSize.symm ▸ hsize) hh hx,
    hsame.blockCount]

/-- When nothing is live the allocator is what it was at first. -/
theorem reach_restores (hr : Heap.Reach (· ≤ a.blockSize) ⟨a, []⟩ h) (hlive : h.live = []) :
    h.allocator = a := by
  obtain ⟨slots, hsame, hh, hx⟩ := reach_exact hbuf hlen hinit hr
  obtain ⟨rfl, -, -⟩ := fixedAllocatorInit_ok hlen hinit
  have hslots : slots = [] := by
    rw [hh.live] at hlive
    exact List.map_eq_nil_iff.mp hlive
  have hclear : ∀ i < 32, bit h.allocator.usedFlags i = false := by
    intro i hi
    refine Bool.eq_false_iff.mpr fun hbit => ?_
    have hmem := hx i hi hbit
    rw [hslots] at hmem
    cases hmem
  have hflags : h.allocator.usedFlags = 0 := by
    refine bit_ext fun i hi => ?_
    rw [bit_zero]
    by_cases hlow : i < 32
    · exact hclear i hlow
    · rw [hh.coherent i (by omega) hi]
      exact hclear 31 (by decide)
  obtain ⟨⟨flags, count, len', buf'⟩, live⟩ := h
  obtain ⟨rfl, rfl, rfl⟩ := hsame
  cases hflags
  rfl

/-- Up to 32 blocks can be taken one after the other. -/
theorem exists_taken (n : Nat) (hn : n ≤ min 32 blockCount.toNat) :
    ∃ h, Heap.Reach (· ≤ a.blockSize) ⟨a, []⟩ h ∧ h.live.length = n := by
  induction n with
  | zero => exact ⟨_, .refl, rfl⟩
  | succ n ih =>
    obtain ⟨h, hr, hlength⟩ := ih (by omega)
    have hne : (h.allocator.malloc 0).1 ≠ 0 := by
      rw [ne_eq, provides_null_iff hbuf hlen hinit hr (Nat.zero_le _)]
      omega
    refine ⟨_, .tail hr (.malloc (Nat.zero_le a.blockSize)), ?_⟩
    show (if (h.allocator.malloc 0).1 = 0 then h.live else _).length = n + 1
    rw [if_neg hne, List.length_cons, hlength]

/-- **All blocks.** The allocator gives all its blocks exactly when there are at most 32:
its flags are those of an `int`. -/
theorem allocator_provides_iff : ProvidesAllBlocks a ↔ blockCount.toNat ≤ 32 := by
  obtain ⟨rfl, -, -⟩ := fixedAllocatorInit_ok hlen hinit
  constructor
  · intro hall
    refine Nat.le_of_not_lt fun hlt => ?_
    obtain ⟨h, hr, hlength⟩ := exists_taken hbuf hlen hinit 32 (by omega)
    have hnull := (provides_null_iff hbuf hlen hinit hr (Nat.zero_le _)).mpr (by omega)
    have hcount := hall h hr 0 (Nat.zero_le _) hnull
    show False
    simp only at hcount
    omega
  · intro hle h hr size hsize hnull
    rw [(provides_null_iff hbuf hlen hinit hr hsize).mp hnull]
    exact Nat.min_eq_right hle

end

/-- Thirty-two blocks are all given. -/
theorem provides_thirty_two : ProvidesAllBlocks ⟨0, 32, 1024, 4096⟩ :=
  (allocator_provides_iff (by decide) (by decide)
    (show fixedAllocatorInit 4096 1024 32 = .ok _ from rfl)).mpr (by decide)

/-- Thirty-three blocks are accepted, and thirty-two of them given. -/
theorem withholds_thirty_third :
    csiInitPayload 4096 1056 33 = .ok ⟨0, 33, 1056, 4096⟩ ∧
      ¬ ProvidesAllBlocks ⟨0, 33, 1056, 4096⟩ := by
  have hinit : fixedAllocatorInit 4096 1056 33 = .ok ⟨0, 33, 1056, 4096⟩ := rfl
  refine ⟨rfl, fun hall => ?_⟩
  obtain ⟨h, hr, hlength⟩ := exists_taken (by decide) (by decide) hinit 32 (by decide)
  have hnull := (provides_null_iff (by decide) (by decide) hinit hr (Nat.zero_le _)).mpr hlength
  have hcount := hall h hr 0 (Nat.zero_le _) hnull
  rw [hlength] at hcount
  exact absurd hcount (by decide)

end

end CkbScriptIpc
