import CkbScriptIpc.Csi.Allocator

/-!
# The C library: allocations that are refused

`fixed_allocator_malloc` marks a block before it looks at the size, so a request that
is too large may use a block up.

* `keepsFlags_iff`, `unnoticed_iff`: when a `NULL` comes with the flags as they were, and
  when no later request can tell;
* `answersBeside_eq`: requests that are refused for want of a free block do not show in
  the answers of the others, in any history.
-/

namespace CkbScriptIpc

/-! ## Requests -/

inductive AllocRequest where
  | malloc (size : Nat)
  | free (ptr : Nat)

/-- What a request gives. -/
inductive AllocAnswer where
  | pointer (ptr : Nat)
  | freed
  | panic
  deriving DecidableEq, Repr

namespace FixedAllocator

/-- The answer to a request, and the allocator then, unless it was a panic. -/
def serve (a : FixedAllocator) : AllocRequest → AllocAnswer × Option FixedAllocator
  | .malloc size => (.pointer (a.malloc size).1, some (a.malloc size).2)
  | .free ptr =>
    match a.free ptr with
    | some a' => (.freed, some a')
    | none => (.panic, none)

/-- The answers to the requests of a history, up to a panic. -/
def answers : List AllocRequest → FixedAllocator → List AllocAnswer
  | [], _ => []
  | r :: rs, a => (a.serve r).1 :: ((a.serve r).2.map (answers rs)).getD []

/-- The allocator after a `malloc`. -/
def refuse (size : Nat) (a : FixedAllocator) : FixedAllocator := (a.malloc size).2

/-- The answers to the requests `.inl r` of a history, into which the requests of the sizes
`.inr size` have been inserted. -/
def answersBeside : List (AllocRequest ⊕ Nat) → FixedAllocator → List AllocAnswer
  | [], _ => []
  | .inl r :: rs, a => (a.serve r).1 :: ((a.serve r).2.map (answersBeside rs)).getD []
  | .inr size :: rs, a => answersBeside rs (a.refuse size)

/-- The requests that were not inserted. -/
def others (history : List (AllocRequest ⊕ Nat)) : List AllocRequest :=
  history.filterMap Sum.getLeft?

/-- The flags of all blocks below the 32nd are set: none is free. -/
def Full (a : FixedAllocator) : Prop := ∀ i < 32, i < a.blockCount.toNat → bit a.usedFlags i

/-- Every inserted request is too large for a block, and finds none free. -/
def InsertedFull : List (AllocRequest ⊕ Nat) → FixedAllocator → Prop
  | [], _ => True
  | .inl r :: rs, a => ∀ a', (a.serve r).2 = some a' → InsertedFull rs a'
  | .inr size :: rs, a => size > a.blockSize ∧ a.Full ∧ InsertedFull rs (a.refuse size)

/-- The allocators of all histories of requests. -/
def Served : FixedAllocator → FixedAllocator → Prop :=
  Relation.ReflTransGen fun a a' => ∃ r, (a.serve r).2 = some a'

/-- A `NULL` leaves the flags as they were. -/
def KeepsFlags (a : FixedAllocator) (size : Nat) : Prop :=
  (a.malloc size).1 = 0 → (a.malloc size).2.usedFlags = a.usedFlags

/-- After a `NULL` all later requests get what they would have got without it. -/
def Unnoticed (a : FixedAllocator) (size : Nat) : Prop :=
  (a.malloc size).1 = 0 → ∀ rs, answers rs (a.refuse size) = answers rs a

/-! ## One request -/

section

variable {a : FixedAllocator} {i size : Nat}

/-- Freeing clears a flag below the 32nd, or none: `index` is taken modulo 32. -/
theorem free_cases {a' : FixedAllocator} {ptr : Nat} (h : a.free ptr = some a') :
    a' = a ∨ ∃ i < 32, a' = a.unmark i := by
  rw [free] at h
  split at h
  · exact .inl (Option.some.inj h).symm
  split at h
  · cases h
  simp only at h
  split at h
  · cases h
  · refine .inr ⟨(ptr - a.buf) / a.blockSize % 32, Nat.mod_lt _ (by decide), ?_⟩
    rw [← Option.some.inj h, unmark, flag, flag, Nat.mod_mod]

/-- Any request, a wrong `free` as well, keeps the flags coherent and the buffer. -/
theorem serve_keeps {a' : FixedAllocator} {r : AllocRequest} (hc : Coherent a.usedFlags)
    (h : (a.serve r).2 = some a') : Coherent a'.usedFlags ∧ SameBuffer a a' := by
  cases r with
  | malloc size =>
    obtain rfl := Option.some.inj h
    rcases malloc_cases hc size with ⟨hm, -⟩ | ⟨i, hi, -, -, hm⟩
    · rw [hm]
      exact ⟨hc, rfl, rfl, rfl⟩
    · rw [hm]
      exact ⟨coherent_mark hc hi, rfl, rfl, rfl⟩
  | free ptr =>
    rw [serve] at h
    cases hfree : a.free ptr with
    | none => rw [hfree] at h; cases h
    | some b =>
      rw [hfree] at h
      obtain rfl := Option.some.inj h
      rcases free_cases hfree with rfl | ⟨i, hi, rfl⟩
      · exact ⟨hc, rfl, rfl, rfl⟩
      · exact ⟨coherent_unmark hc hi, rfl, rfl, rfl⟩

theorem served_keeps {a' : FixedAllocator} (hc : Coherent a.usedFlags) (hr : Served a a') :
    Coherent a'.usedFlags ∧ SameBuffer a a' := by
  induction hr with
  | refl => exact ⟨hc, rfl, rfl, rfl⟩
  | tail _ hs ih =>
    obtain ⟨r, hs⟩ := hs
    obtain ⟨hc', hsame⟩ := serve_keeps ih.1 hs
    exact ⟨hc', ih.2.trans hsame⟩

/-- Without a free block nothing happens. -/
theorem refuse_full (hc : Coherent a.usedFlags) (hfull : a.Full) : a.refuse size = a := by
  rcases malloc_cases hc size with ⟨hm, -⟩ | ⟨i, hi, hcount, hclear, -⟩
  · rw [refuse, hm]
  · rw [hfull i hi hcount] at hclear
    cases hclear

/-- A `NULL` for a request that fits a block changes nothing. -/
theorem refuse_fits (hc : Coherent a.usedFlags) (hbuf : 0 < a.buf) (hfits : size ≤ a.blockSize)
    (hnull : (a.malloc size).1 = 0) : a.refuse size = a := by
  rcases malloc_cases hc size with ⟨hm, -⟩ | ⟨i, -, -, -, hm⟩
  · rw [refuse, hm]
  · rw [hm, if_neg (Nat.not_lt.mpr hfits), block] at hnull
    omega

theorem refuse_same (hc : Coherent a.usedFlags) (hbuf : 0 < a.buf)
    (hcond : size ≤ a.blockSize ∨ a.Full) (hnull : (a.malloc size).1 = 0) :
    a.refuse size = a :=
  hcond.elim (fun hfits => refuse_fits hc hbuf hfits hnull) fun hfull => refuse_full hc hfull

/-- Which block is marked does not depend on the size. -/
theorem refuse_eq (size size' : Nat) : a.refuse size = a.refuse size' := by
  simp only [refuse, malloc]
  split
  · rfl
  split
  · rfl
  · split <;> split <;> rfl

/-- A request that is too large takes the block that the next one could have had. -/
theorem refuse_large (hc : Coherent a.usedFlags) (hcond : ¬ (size ≤ a.blockSize ∨ a.Full)) :
    ∃ i < 32, bit a.usedFlags i = false ∧ (a.malloc 0).1 = a.block i ∧
      (a.malloc size).1 = 0 ∧ a.refuse size = a.mark i := by
  obtain ⟨hlarge, hnot⟩ := not_or.mp hcond
  have hnull : (a.malloc size).1 = 0 := by
    rcases malloc_cases hc size with ⟨hm, -⟩ | ⟨i, -, -, -, hm⟩
    · rw [hm]
    · rw [hm, if_pos (Nat.lt_of_not_le hlarge)]
  rcases malloc_cases hc 0 with ⟨-, hfull⟩ | ⟨i, hi, -, hclear, hm⟩
  · exact absurd hfull hnot
  · refine ⟨i, hi, hclear, by rw [hm, if_neg (Nat.not_lt_zero _)], hnull, ?_⟩
    rw [refuse_eq size 0, refuse, hm]

/-- The flag of a block that has been marked. -/
theorem bit_mark_self (hi : i < 32) : bit (a.mark i).usedFlags i := by
  rw [bit_mark hi (by omega)]
  simp

theorem keepsFlags_iff (hc : Coherent a.usedFlags) (hbuf : 0 < a.buf) :
    a.KeepsFlags size ↔ size ≤ a.blockSize ∨ a.Full := by
  constructor
  · intro hkeeps
    refine Classical.byContradiction fun hcond => ?_
    obtain ⟨i, hi, hclear, -, hnull, hmark⟩ := refuse_large hc hcond
    have hset := bit_mark_self (a := a) hi
    rw [← hmark, refuse, hkeeps hnull, hclear] at hset
    cases hset
  · intro hcond hnull
    exact congrArg (·.usedFlags) (refuse_same hc hbuf hcond hnull)

theorem unnoticed_iff (hc : Coherent a.usedFlags) (hbuf : 0 < a.buf) (hsize : 0 < a.blockSize) :
    a.Unnoticed size ↔ size ≤ a.blockSize ∨ a.Full := by
  constructor
  · intro hsame
    refine Classical.byContradiction fun hcond => ?_
    obtain ⟨i, hi, hclear, hfirst, hnull, hmark⟩ := refuse_large hc hcond
    -- the next request for nothing tells the two apart
    have hanswer := hsame hnull [.malloc 0]
    rw [hmark] at hanswer
    injection hanswer with hanswer
    injection hanswer with hptr
    rw [hfirst] at hptr
    rcases malloc_cases (coherent_mark hc hi) 0 with ⟨hm, -⟩ | ⟨j, -, -, hclear', hm⟩
    · rw [hm, block] at hptr
      omega
    · rw [hm, if_neg (Nat.not_lt_zero _)] at hptr
      obtain rfl : j = i := block_inj hsize hptr
      rw [bit_mark_self hi] at hclear'
      cases hclear'
  · intro hcond hnull rs
    rw [refuse_same hc hbuf hcond hnull]

/-! ## Histories -/

/-- Requests that are refused for want of a free block do not show. -/
theorem answersBeside_eq (hc : Coherent a.usedFlags) (history : List (AllocRequest ⊕ Nat))
    (hins : InsertedFull history a) :
    answersBeside history a = answers (others history) a := by
  induction history generalizing a with
  | nil => rfl
  | cons x rs ih =>
    rcases x with r | size
    · show _ :: ((a.serve r).2.map (answersBeside rs)).getD [] =
        _ :: ((a.serve r).2.map (answers (others rs))).getD []
      cases hs : (a.serve r).2 with
      | none => rfl
      | some a' =>
        simp only [Option.map_some, Option.getD_some]
        rw [ih (serve_keeps hc hs).1 (hins a' hs)]
    · obtain ⟨-, hfull, hins⟩ := hins
      rw [refuse_full hc hfull] at hins
      show answersBeside rs (a.refuse size) = answers (others rs) a
      rw [refuse_full hc hfull]
      exact ih hc hins

end

end FixedAllocator

section

open FixedAllocator

variable {buf : Nat} {len blockCount : UInt64} {a : FixedAllocator}

/-- **A refused allocation changes nothing** exactly when it fits a block or there is no free
one; and any number of requests that are too large, each made while no block is free, changes
nothing for the others of a history. -/
theorem refusals_harmless_iff (hbuf : 0 < buf) (hlen : 1024 ≤ len)
    (hinit : fixedAllocatorInit buf len blockCount = .ok a) :
    (∀ a', Served a a' → ∀ size,
      (a'.KeepsFlags size ↔ size ≤ a'.blockSize ∨ a'.Full) ∧
      (a'.Unnoticed size ↔ size ≤ a'.blockSize ∨ a'.Full)) ∧
    ∀ history, InsertedFull history a → answersBeside history a = answers (others history) a := by
  obtain ⟨-, hsize, -⟩ := blockSize_of_init hlen hinit
  obtain ⟨rfl, -, -⟩ := fixedAllocatorInit_ok hlen hinit
  have hstart : Coherent 0 := (holds_start (a := ⟨0, blockCount, len, buf⟩) rfl).coherent
  refine ⟨fun a' hr size => ?_, fun history => answersBeside_eq hstart history⟩
  obtain ⟨hc, hsame⟩ := served_keeps hstart hr
  have hbuf' : 0 < a'.buf := hsame.buf.symm ▸ hbuf
  exact ⟨keepsFlags_iff hc hbuf', unnoticed_iff hc hbuf' (hsame.blockSize.symm ▸ hsize)⟩

/-- One block: a request for 1025 bytes, while it is in use. -/
theorem used_block_refuses :
    answersBeside [.inl (.malloc 16), .inr 1025, .inl (.free 4096), .inl (.malloc 16)]
      ⟨0, 1, 1024, 4096⟩ =
    answers [.malloc 16, .free 4096, .malloc 16] ⟨0, 1, 1024, 4096⟩ := by
  have hfirst : (serve ⟨0, 1, 1024, 4096⟩ (.malloc 16)).2 = some ⟨1, 1, 1024, 4096⟩ := rfl
  refine (refusals_harmless_iff (by decide) (by decide)
    (show fixedAllocatorInit 4096 1024 1 = .ok _ from rfl)).2
    [.inl (.malloc 16), .inr 1025, .inl (.free 4096), .inl (.malloc 16)] ?_
  intro a ha
  obtain rfl := Option.some.inj (hfirst.symm.trans ha)
  refine ⟨by decide +kernel, ?_, fun _ _ _ _ => trivial⟩
  intro i _ hi
  obtain rfl : i = 0 := Nat.lt_one_iff.mp hi
  decide +kernel

/-- One block, free: a request for 1025 bytes uses it up. -/
theorem large_request_uses_block :
    csiInitPayload 4096 1024 1 = .ok ⟨0, 1, 1024, 4096⟩ ∧
      FixedAllocator.malloc 1025 ⟨0, 1, 1024, 4096⟩ = (0, ⟨1, 1, 1024, 4096⟩) ∧
      answers [.malloc 16] ⟨0, 1, 1024, 4096⟩ = [.pointer 4096] ∧
      answersBeside [.inr 1025, .inl (.malloc 16)] ⟨0, 1, 1024, 4096⟩ = [.pointer 0] :=
  ⟨rfl, by decide +kernel, by decide +kernel, by decide +kernel⟩

end

end CkbScriptIpc
