import CkbScriptIpc.Vlq

/-!
# Bytes supplied one by one

A reader is asked for one byte after the other, where `f i` is what it gives on the read with
number `i`, or `none` when it gives no byte.

* `Terminated.eq`: at most one terminated sequence is supplied;
* `supply_shapes`: how a sequence can begin, over the first `n + 1` reads.
-/

namespace CkbScriptIpc

open Interaction

/-- Of these bytes the last one, and no other, has a clear high bit. -/
def Terminated (bs : Bytes) : Prop :=
  ∃ q b, bs = q ++ [b] ∧ (∀ d ∈ q, d &&& 0x80 ≠ 0) ∧ b &&& 0x80 = 0

/-- The first reads give the bytes `bs`. -/
def Supplies (f : Nat → Option UInt8) (bs : Bytes) : Prop :=
  ∀ i (h : i < bs.length), f i = some bs[i]

section

variable {f : Nat → Option UInt8} {bs bs' : Bytes} {b : UInt8}

theorem supplies_nil (f : Nat → Option UInt8) : Supplies f [] :=
  fun _ h => absurd h (Nat.not_lt_zero _)

theorem supplies_concat (h : Supplies f bs) (hb : f bs.length = some b) :
    Supplies f (bs ++ [b]) := by
  intro i hi
  rw [List.length_append, List.length_singleton] at hi
  rcases Nat.lt_or_eq_of_le (Nat.le_of_lt_succ hi) with hlt | rfl
  · rw [List.getElem_append_left hlt]
    exact h i hlt
  · rw [List.getElem_concat_length rfl]
    exact hb

theorem supplies_left (h : Supplies f (bs ++ bs')) : Supplies f bs := by
  intro i hi
  have hi' : i < (bs ++ bs').length := by
    rw [List.length_append]
    omega
  rw [h i hi', List.getElem_append_left hi]

theorem supplies_last (h : Supplies f (bs ++ [b])) : f bs.length = some b := by
  have hlast := h bs.length (by simp)
  rwa [List.getElem_concat_length rfl] at hlast

/-- What is supplied first is the beginning of what is supplied. -/
theorem supplies_begins (h : Supplies f bs) (h' : Supplies f bs')
    (hlen : bs.length ≤ bs'.length) : bs <+: bs' := by
  rw [List.prefix_iff_eq_take]
  refine List.ext_getElem (by rw [List.length_take]; omega) fun i hi hi' => ?_
  have hget := h' i (Nat.lt_of_lt_of_le hi hlen)
  rw [h i hi] at hget
  rw [List.getElem_take]
  exact Option.some.inj hget

/-- A terminated sequence goes on behind bytes that all ask for more. -/
theorem Terminated.longer (h : Terminated bs) (hs : Supplies f bs) (hs' : Supplies f bs')
    (hopen : ∀ d ∈ bs', d &&& 0x80 ≠ 0) : bs'.length < bs.length := by
  refine Nat.lt_of_not_le fun hle => ?_
  obtain ⟨q, b, rfl, -, hb⟩ := h
  exact hopen b ((supplies_begins hs hs' hle).subset (by simp)) hb

theorem Terminated.length_le (h : Terminated bs) (h' : Terminated bs') (hs : Supplies f bs)
    (hs' : Supplies f bs') : bs'.length ≤ bs.length := by
  obtain ⟨q, b, rfl, hq, -⟩ := h'
  have hlt := h.longer hs (supplies_left hs') hq
  rw [List.length_append, List.length_singleton]
  exact hlt

/-- At most one terminated sequence is supplied. -/
theorem Terminated.eq (h : Terminated bs) (h' : Terminated bs') (hs : Supplies f bs)
    (hs' : Supplies f bs') : bs = bs' :=
  (supplies_begins hs hs' (h'.length_le h hs' hs)).eq_of_length
    (Nat.le_antisymm (h'.length_le h hs' hs) (h.length_le h' hs hs'))

/-- Either fewer than `n` bytes that ask for more and a last one are supplied, or behind at
most `n` of them there is no byte, or one more is supplied behind `n` of them. -/
theorem supply_shapes (f : Nat → Option UInt8) (n : Nat) :
    (∃ bs, Terminated bs ∧ bs.length ≤ n ∧ Supplies f bs) ∨
    (∃ q, q.length ≤ n ∧ (∀ d ∈ q, d &&& 0x80 ≠ 0) ∧ Supplies f q ∧ f q.length = none) ∨
    ∃ q b, q.length = n ∧ (∀ d ∈ q, d &&& 0x80 ≠ 0) ∧ Supplies f (q ++ [b]) := by
  induction n with
  | zero =>
    cases h : f 0 with
    | none => exact .inr (.inl ⟨[], Nat.le_refl _, by simp, supplies_nil f, h⟩)
    | some b => exact .inr (.inr ⟨[], b, rfl, by simp, supplies_concat (supplies_nil f) h⟩)
  | succ n ih =>
    rcases ih with ⟨bs, hterm, hlen, hs⟩ | ⟨q, hlen, hq, hs, hnone⟩ | ⟨q, b, hlen, hq, hs⟩
    · exact .inl ⟨bs, hterm, Nat.le_succ_of_le hlen, hs⟩
    · exact .inr (.inl ⟨q, Nat.le_succ_of_le hlen, hq, hs, hnone⟩)
    · have hlen' : (q ++ [b]).length = n + 1 := by rw [List.length_append, hlen]; rfl
      by_cases hb : b &&& 0x80 = 0
      · exact .inl ⟨q ++ [b], ⟨q, b, rfl, hq, hb⟩, Nat.le_of_eq hlen', hs⟩
      -- the byte asks for one more
      have hopen : ∀ d ∈ q ++ [b], d &&& 0x80 ≠ 0 := by
        simpa [or_imp, forall_and] using ⟨hq, hb⟩
      cases h : f (q ++ [b]).length with
      | none => exact .inr (.inl ⟨q ++ [b], Nat.le_of_eq hlen', hopen, hs, h⟩)
      | some b' => exact .inr (.inr ⟨q ++ [b], b', hlen', hopen, supplies_concat hs h⟩)

/-- Behind `w` reads the bytes `s` are still to be supplied, the last of them by the read with
number `m - 1`. -/
def Upcoming (f : Nat → Option UInt8) (m w : Nat) (s : Bytes) : Prop :=
  w + s.length = m ∧ Supplies (fun i => f (w + i)) s

theorem upcoming_all (h : Supplies f bs) : Upcoming f bs.length 0 bs := by
  refine ⟨Nat.zero_add _, ?_⟩
  simpa only [Nat.zero_add] using h

theorem Upcoming.next {m w : Nat} (h : Upcoming f m w (b :: bs)) :
    f w = some b ∧ Upcoming f m (w + 1) bs := by
  obtain ⟨hlen, hs⟩ := h
  rw [List.length_cons] at hlen
  refine ⟨hs 0 (Nat.succ_pos _), by omega, fun i hi => ?_⟩
  have hnext : f (w + (i + 1)) = some bs[i] := hs (i + 1) (Nat.succ_lt_succ hi)
  rwa [← Nat.add_assoc, Nat.add_right_comm] at hnext

end

end CkbScriptIpc
