import CkbScriptIpc.Error
import Mathlib.Algebra.Group.Nat.Defs
import Mathlib.Data.Nat.Size

/-!
# Variable-length quantities

`vlq_encode` and `vlq_decode`, and the first VLQ sequence of a byte stream
(`splitVlq`), which is what a reader that stops at the first byte with a clear
high bit takes from it.

* `vlqDecode_vlqEncode`: decoding an encoding gives the number back, whatever
  follows it;
* `splitVlq_vlqEncode`: an encoding is exactly one sequence;
* `length_vlqEncode`: it has one byte for seven bits of the number;
* `vlqEncode_prefix_inj`: no encoding is a prefix of another;
* `vlqDecode_open`: a sequence without its last byte does not decode.
-/

namespace CkbScriptIpc

open Interaction

/-- `(value & 0x7F) as u8`. -/
def low7 (value : UInt64) : UInt8 := (value &&& 0x7F).toUInt8

theorem toNat_shiftRight7 (v : UInt64) : (v >>> 7).toNat = v.toNat / 128 := by
  simp [UInt64.toNat_shiftRight, Nat.shiftRight_eq_div_pow]

theorem shiftRight7_eq_zero {v : UInt64} : v >>> 7 = 0 ↔ v.toNat < 128 := by
  rw [← UInt64.toNat_inj, toNat_shiftRight7, UInt64.toNat_zero]
  omega

def vlqEncode (value : UInt64) : Bytes :=
  if value >>> 7 ≠ 0 then (low7 value ||| 0x80) :: vlqEncode (value >>> 7) else [low7 value]
termination_by value.toNat
decreasing_by
  rename_i h
  rw [ne_eq, shiftRight7_eq_zero] at h
  rw [toNat_shiftRight7]
  omega

def vlqDecodeLoop : Bytes → UInt64 → Nat → Except IpcError UInt64
  | [], _, _ => .error .incompleteVlqSeq
  | byte :: bytes, value, shift =>
    let value := value ||| ((byte &&& 0x7F).toUInt64 <<< UInt64.ofNat shift)
    if byte &&& 0x80 = 0 then .ok value
    else if shift + 7 ≥ 64 then .error .decodeVlqOverflow
    else vlqDecodeLoop bytes value (shift + 7)

def vlqDecode (bytes : Bytes) : Except IpcError UInt64 := vlqDecodeLoop bytes 0 0

/-- The bytes up to the first one with a clear high bit, and what follows. -/
def splitVlq : Bytes → Bytes × Bytes
  | [] => ([], [])
  | byte :: bytes =>
    if byte &&& 0x80 = 0 then ([byte], bytes)
    else (byte :: (splitVlq bytes).1, (splitVlq bytes).2)

/-! ## Machine arithmetic as numbers -/

theorem toNat_low7 (v : UInt64) : (low7 v).toNat = v.toNat % 128 := by
  have h : (v &&& 0x7F).toNat = v.toNat % 128 := by
    rw [UInt64.toNat_and]
    exact Nat.and_two_pow_sub_one_eq_mod v.toNat 7
  rw [low7, UInt64.toNat_toUInt8, h]
  omega

theorem forall_byte {P : UInt8 → Prop} (h : ∀ i : Fin 256, P (UInt8.ofNat i.1)) (b : UInt8) :
    P b := by
  have hb := h ⟨b.toNat, b.toNat_lt⟩
  rwa [UInt8.ofNat_toNat] at hb

theorem highBit_iff (b : UInt8) : b &&& 0x80 = 0 ↔ b.toNat < 128 :=
  forall_byte (P := fun b => b &&& 0x80 = 0 ↔ b.toNat < 128) (by decide +kernel) b

theorem toNat_or80 {b : UInt8} (h : b.toNat < 128) : (b ||| 0x80).toNat = b.toNat + 128 :=
  forall_byte (P := fun b => b.toNat < 128 → (b ||| 0x80).toNat = b.toNat + 128)
    (by decide +kernel) b h

theorem toNat_and7F (b : UInt8) : (b &&& 0x7F).toUInt64.toNat = b.toNat % 128 :=
  forall_byte (P := fun b => (b &&& 0x7F).toUInt64.toNat = b.toNat % 128) (by decide +kernel) b

theorem toNat_shiftLeft_ofNat (d : UInt64) {shift : Nat} (hs : shift < 64) :
    (d <<< UInt64.ofNat shift).toNat = 2 ^ shift * d.toNat % 2 ^ 64 := by
  have hsh : (UInt64.ofNat shift).toNat % 64 = shift := by
    rw [UInt64.toNat_ofNat', Nat.mod_eq_of_lt (by omega : shift < 2 ^ 64), Nat.mod_eq_of_lt hs]
  rw [UInt64.toNat_shiftLeft, hsh, Nat.shiftLeft_eq, Nat.mul_comm]

/-- Bits put in above `shift` bits that are already there; what does not fit is cut off. -/
theorem toNat_or_shift_mod {acc d : UInt64} {shift : Nat} (hs : shift < 64)
    (hacc : acc.toNat < 2 ^ shift) :
    (acc ||| (d <<< UInt64.ofNat shift)).toNat = (acc.toNat + d.toNat * 2 ^ shift) % 2 ^ 64 := by
  obtain ⟨k, hk⟩ : ∃ k, 64 = shift + k := ⟨64 - shift, by omega⟩
  have hpow : 2 ^ 64 = 2 ^ shift * 2 ^ k := by rw [← Nat.pow_add, ← hk]
  have hcut : 2 ^ shift * d.toNat % 2 ^ 64 = 2 ^ shift * (d.toNat % 2 ^ k) := by
    rw [hpow, Nat.mul_mod_mul_left]
  have hfit : acc.toNat + 2 ^ shift * (d.toNat % 2 ^ k) < 2 ^ 64 := by
    have hlt : d.toNat % 2 ^ k < 2 ^ k := Nat.mod_lt _ (Nat.two_pow_pos k)
    have hmul := Nat.mul_le_mul_left (2 ^ shift) (Nat.succ_le_of_lt hlt)
    rw [← hpow, Nat.mul_succ] at hmul
    omega
  rw [UInt64.toNat_or, toNat_shiftLeft_ofNat d hs, Nat.mul_comm d.toNat, Nat.add_mod, hcut,
    Nat.or_comm, ← Nat.two_pow_add_eq_or_of_lt hacc, Nat.add_comm,
    Nat.mod_eq_of_lt (show acc.toNat < 2 ^ 64 from acc.toNat_lt), Nat.mod_eq_of_lt hfit]

/-- The low seven bits of `v`, put in above `shift` bits that are already there. -/
theorem toNat_or_shift {acc d : UInt64} {shift : Nat} (hs : shift < 64)
    (hacc : acc.toNat < 2 ^ shift) (hfit : d.toNat * 2 ^ shift < 2 ^ 64) :
    (acc ||| (d <<< UInt64.ofNat shift)).toNat = acc.toNat + d.toNat * 2 ^ shift := by
  rw [UInt64.toNat_or, toNat_shiftLeft_ofNat d hs, Nat.mul_comm, Nat.mod_eq_of_lt hfit,
    Nat.mul_comm, Nat.or_comm, ← Nat.two_pow_add_eq_or_of_lt hacc, Nat.add_comm, Nat.mul_comm]

/-! ## The encoding -/

theorem vlqEncode_small {v : UInt64} (h : v.toNat < 128) : vlqEncode v = [low7 v] := by
  rw [vlqEncode, if_neg (fun h0 => h0 (shiftRight7_eq_zero.mpr h))]

theorem vlqEncode_large {v : UInt64} (h : 128 ≤ v.toNat) :
    vlqEncode v = (low7 v ||| 0x80) :: vlqEncode (v >>> 7) := by
  rw [vlqEncode, if_pos (fun h0 => absurd (shiftRight7_eq_zero.mp h0) (by omega))]

theorem low7_last (v : UInt64) : low7 v &&& 0x80 = 0 := by
  rw [highBit_iff, toNat_low7]
  omega

theorem low7_more (v : UInt64) : (low7 v ||| 0x80) &&& 0x80 ≠ 0 := by
  rw [ne_eq, highBit_iff, toNat_or80 (by rw [toNat_low7]; omega)]
  omega

theorem toNat_digit_last (v : UInt64) :
    (low7 v &&& 0x7F).toUInt64.toNat = v.toNat % 128 := by
  rw [toNat_and7F, toNat_low7]
  omega

theorem toNat_digit_more (v : UInt64) :
    ((low7 v ||| 0x80) &&& 0x7F).toUInt64.toNat = v.toNat % 128 := by
  rw [toNat_and7F, toNat_or80 (by rw [toNat_low7]; omega), toNat_low7]
  omega

/-- Induction along the bytes of an encoding. -/
theorem vlq_induction {P : UInt64 → Prop} (small : ∀ v : UInt64, v.toNat < 128 → P v)
    (large : ∀ v : UInt64, 128 ≤ v.toNat → P (v >>> 7) → P v) (v : UInt64) : P v := by
  induction hn : v.toNat using Nat.strongRecOn generalizing v with
  | ind n ih =>
    by_cases h : v.toNat < 128
    · exact small v h
    · exact large v (by omega) (ih _ (by rw [toNat_shiftRight7]; omega) (v >>> 7) rfl)

theorem vlqEncode_ne_nil (v : UInt64) : vlqEncode v ≠ [] := by
  by_cases h : v.toNat < 128
  · simp [vlqEncode_small h]
  · simp [vlqEncode_large (Nat.le_of_not_lt h)]

/-- An encoding is one sequence, whatever follows it. -/
theorem splitVlq_vlqEncode (v : UInt64) (rest : Bytes) :
    splitVlq (vlqEncode v ++ rest) = (vlqEncode v, rest) := by
  induction v using vlq_induction with
  | small v h => rw [vlqEncode_small h]; simp [splitVlq, low7_last]
  | large v h ih => rw [vlqEncode_large h]; simp [splitVlq, low7_more, ih]

theorem vlqDecodeLoop_vlqEncode (v acc : UInt64) (shift : Nat) (rest : Bytes)
    (hs : shift < 64) (hacc : acc.toNat < 2 ^ shift) (hfit : v.toNat * 2 ^ shift < 2 ^ 64) :
    ∃ r, vlqDecodeLoop (vlqEncode v ++ rest) acc shift = .ok r ∧
      r.toNat = acc.toNat + v.toNat * 2 ^ shift := by
  induction v using vlq_induction generalizing acc shift with
  | small v h =>
    rw [vlqEncode_small h]
    refine ⟨_, by simp only [List.singleton_append, vlqDecodeLoop, low7_last, ↓reduceIte]; rfl, ?_⟩
    have hd : (low7 v &&& 0x7F).toUInt64.toNat = v.toNat := by
      rw [toNat_digit_last]; omega
    rw [toNat_or_shift hs hacc (by rwa [hd]), hd]
  | large v h ih =>
    have hp := Nat.two_pow_pos shift
    have hq : v.toNat / 128 * 2 ^ (shift + 7) ≤ v.toNat * 2 ^ shift := by
      rw [Nat.pow_add, Nat.mul_comm (2 ^ shift), ← Nat.mul_assoc]
      exact Nat.mul_le_mul_right _ (by omega)
    have hs7 : shift + 7 < 64 := by
      have h1 : 1 * 2 ^ (shift + 7) ≤ v.toNat / 128 * 2 ^ (shift + 7) :=
        Nat.mul_le_mul_right _ (by omega)
      exact (Nat.pow_lt_pow_iff_right (by decide : 1 < 2)).mp (by omega)
    have hdigit : v.toNat % 128 * 2 ^ shift ≤ v.toNat * 2 ^ shift :=
      Nat.mul_le_mul_right _ (Nat.mod_le _ _)
    have hor := toNat_or_shift hs hacc
      (d := ((low7 v ||| 0x80) &&& 0x7F).toUInt64)
      (by rw [toNat_digit_more]; omega)
    rw [toNat_digit_more] at hor
    have hacc' : acc.toNat + v.toNat % 128 * 2 ^ shift < 2 ^ (shift + 7) := by
      have : v.toNat % 128 * 2 ^ shift ≤ 127 * 2 ^ shift := Nat.mul_le_mul_right _ (by omega)
      rw [Nat.pow_add]
      omega
    obtain ⟨r, hr, hrv⟩ := ih _ _ hs7 (by rw [hor]; exact hacc')
      (by rw [toNat_shiftRight7]; omega)
    refine ⟨r, ?_, ?_⟩
    · rw [vlqEncode_large h, List.cons_append, vlqDecodeLoop]
      simp only [low7_more, ↓reduceIte, ge_iff_le, Nat.not_le.mpr hs7]
      exact hr
    · rw [hrv, hor, toNat_shiftRight7, Nat.pow_add, Nat.add_assoc, Nat.mul_comm (2 ^ shift),
        ← Nat.mul_assoc, ← Nat.add_mul]
      congr 2
      omega

/-- **Round trip.** -/
theorem vlqDecode_vlqEncode (v : UInt64) (rest : Bytes) :
    vlqDecode (vlqEncode v ++ rest) = .ok v := by
  obtain ⟨r, hr, hrv⟩ := vlqDecodeLoop_vlqEncode v 0 0 rest (by omega)
    (by simp) (by simpa using v.toNat_lt)
  rw [vlqDecode, hr, UInt64.toNat_inj.mp (by simpa using hrv : r.toNat = v.toNat)]

example : vlqEncode 16384 = [128, 128, 1] := by decide +kernel

/-- Encodings are a prefix code. -/
theorem vlqEncode_prefix_inj {v w : UInt64} (h : vlqEncode v <+: vlqEncode w) : v = w := by
  obtain ⟨t, ht⟩ := h
  have hv := vlqDecode_vlqEncode v t
  have hw := vlqDecode_vlqEncode w []
  rw [List.append_nil, ← ht, hv] at hw
  exact Except.ok.inj hw

/-! ## The length of an encoding -/

/-- The number of seven-bit groups of a number; zero has one. -/
def vlqLength (v : UInt64) : Nat := max 1 ((v.toNat.size + 6) / 7)

theorem size_div128 {n : Nat} (h : 128 ≤ n) : n.size = (n / 128).size + 7 := by
  have hle : ∀ k, n.size ≤ k + 7 ↔ (n / 128).size ≤ k := by
    intro k
    rw [Nat.size_le, Nat.size_le, Nat.pow_add]
    omega
  have hseven : 7 < n.size := Nat.lt_size.mpr h
  have hdown := (hle (n.size - 7)).mp (by omega)
  have hup := (hle (n / 128).size).mpr (Nat.le_refl _)
  omega

theorem length_vlqEncode (v : UInt64) : (vlqEncode v).length = vlqLength v := by
  induction v using vlq_induction with
  | small v h =>
    have hsize : v.toNat.size ≤ 7 := Nat.size_le.mpr h
    rw [vlqEncode_small h, vlqLength, List.length_singleton]
    omega
  | large v h ih =>
    have hpos : 0 < (v.toNat / 128).size := Nat.size_pos.mpr (by omega)
    rw [vlqEncode_large h, List.length_cons, ih, vlqLength, vlqLength, toNat_shiftRight7,
      size_div128 h]
    omega

theorem vlqLength_le (v : UInt64) : vlqLength v ≤ 10 := by
  have hsize : v.toNat.size ≤ 64 := Nat.size_le.mpr v.toNat_lt
  rw [vlqLength]
  omega

/-! ## Sequences of a stream -/

theorem splitVlq_append (s : Bytes) : (splitVlq s).1 ++ (splitVlq s).2 = s := by
  induction s with
  | nil => rfl
  | cons b s ih =>
    simp only [splitVlq]
    split
    · rfl
    · simp [ih]

/-- A sequence goes on behind bytes that ask for more. -/
theorem splitVlq_behind {q : Bytes} (hq : ∀ d ∈ q, d &&& 0x80 ≠ 0) (s : Bytes) :
    splitVlq (q ++ s) = (q ++ (splitVlq s).1, (splitVlq s).2) := by
  induction q with
  | nil => rfl
  | cons d q ih =>
    rw [List.cons_append, splitVlq, if_neg (hq d (by simp)), ih fun d hd => hq d (by simp [hd])]
    rfl

theorem splitVlq_closed {buf : Bytes} {b : UInt8} (hopen : ∀ d ∈ buf, d &&& 0x80 ≠ 0)
    (hb : b &&& 0x80 = 0) (x : Bytes) : splitVlq (buf ++ [b] ++ x) = (buf ++ [b], x) := by
  rw [List.append_assoc, splitVlq_behind hopen]
  simp [splitVlq, hb]

/-- A sequence with a last byte is one, whatever follows it. -/
theorem splitVlq_self {s : Bytes} (h : ∃ b ∈ s, b &&& 0x80 = 0) (x : Bytes) :
    splitVlq ((splitVlq s).1 ++ x) = ((splitVlq s).1, x) := by
  induction s with
  | nil => simp at h
  | cons b s ih =>
    by_cases hb : b &&& 0x80 = 0
    · simp [splitVlq, hb]
    · simp [splitVlq, hb, ih (by simpa [hb] using h)]

/-- A sequence whose bytes all ask for more does not decode. -/
theorem vlqDecode_open {s : Bytes} (h : ∀ b ∈ s, b &&& 0x80 ≠ 0) : ∃ e, vlqDecode s = .error e := by
  have hloop : ∀ (s : Bytes) (acc : UInt64) (shift : Nat), (∀ b ∈ s, b &&& 0x80 ≠ 0) →
      ∃ e, vlqDecodeLoop s acc shift = .error e := by
    intro s
    induction s with
    | nil => exact fun _ _ _ => ⟨_, rfl⟩
    | cons b s ih =>
      intro acc shift h
      simp only [vlqDecodeLoop, h b (by simp), ↓reduceIte]
      split
      · exact ⟨_, rfl⟩
      · exact ih _ _ fun b hb => h b (by simp [hb])
  exact hloop s 0 0 h

/-- What decodes has a last byte. -/
theorem closed_of_vlqDecode {s : Bytes} {v : UInt64} (h : vlqDecode s = .ok v) :
    ∃ b ∈ s, b &&& 0x80 = 0 := by
  refine Classical.byContradiction fun hopen => ?_
  obtain ⟨e, he⟩ := vlqDecode_open (s := s) fun b hb h0 => hopen ⟨b, hb, h0⟩
  rw [h] at he
  cases he

/-- All but the last byte of an encoding ask for more. -/
theorem vlqEncode_init (v : UInt64) : ∀ b ∈ (vlqEncode v).dropLast, b &&& 0x80 ≠ 0 := by
  induction v using vlq_induction with
  | small v h => simp [vlqEncode_small h]
  | large v h ih =>
    intro b hb
    rw [vlqEncode_large h, List.dropLast_cons_of_ne_nil (vlqEncode_ne_nil _),
      List.mem_cons] at hb
    rcases hb with rfl | hb
    · exact low7_more v
    · exact ih b hb

end CkbScriptIpc
