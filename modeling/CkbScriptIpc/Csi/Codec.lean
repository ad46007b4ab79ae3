import CkbScriptIpc.Csi.Vlq
import Mathlib.Data.Nat.Digits.Defs

/-!
# The two codecs

The number that a VLQ sequence stands for against what the decoders make of it, and the
codec of the C library against that of the Rust side.

* `vlqDecode_value`: a sequence of at most ten bytes decodes to its value, cut to 64 bits;
* `decoders_exact_iff`: the decoders give a wrong number for ten bytes of which the last
  carries more than one bit, and for no others;
* `csiVlqEncodeInto_load`: what `csi_vlq_encode` leaves in memory is what `csi_write_vlq` sends;
* `codecs_agree`: the codecs of the two sides are the same function.
-/

namespace CkbScriptIpc

open Interaction

/-! ## The value of a sequence -/

/-- The sum of the `(b & 0x7F) * 128 ^ i`. -/
def vlqValue (s : Bytes) : Nat := Nat.ofDigits 128 (s.map fun b => (b &&& 0x7F).toNat)

theorem toNat_digit (b : UInt8) : (b &&& 0x7F).toNat = b.toNat % 128 := by
  rw [← toNat_and7F, UInt8.toNat_toUInt64]

theorem vlqValue_cons (b : UInt8) (s : Bytes) :
    vlqValue (b :: s) = b.toNat % 128 + 128 * vlqValue s := by
  rw [vlqValue, List.map_cons, Nat.ofDigits_cons, toNat_digit]
  rfl

theorem vlqValue_append (s t : Bytes) :
    vlqValue (s ++ t) = vlqValue s + 128 ^ s.length * vlqValue t := by
  rw [vlqValue, List.map_append, Nat.ofDigits_append, List.length_map]
  rfl

theorem vlqValue_lt (s : Bytes) : vlqValue s < 128 ^ s.length := by
  have hlt := Nat.ofDigits_lt_base_pow_length (b := 128)
    (l := s.map fun b => (b &&& 0x7F).toNat) (by decide) fun d hd => by
      obtain ⟨b, -, rfl⟩ := List.mem_map.mp hd
      rw [toNat_digit]
      exact Nat.mod_lt _ (by decide)
  rwa [List.length_map] at hlt

theorem vlqValue_last {b : UInt8} (hb : b &&& 0x80 = 0) : vlqValue [b] = b.toNat := by
  have hlt := (highBit_iff b).mp hb
  rw [vlqValue_cons, Nat.mod_eq_of_lt hlt]
  rfl

/-- In ten bytes there is room for one bit more than in nine. -/
theorem vlqValue_fits_iff {q : Bytes} {b : UInt8} (hb : b &&& 0x80 = 0)
    (hlen : q.length < maxVlqLen) :
    vlqValue (q ++ [b]) < 2 ^ 64 ↔ ¬ (q.length = 9 ∧ 1 < b.toNat) := by
  have hten : q.length < 10 := hlen
  have hq := vlqValue_lt q
  have hlt := (highBit_iff b).mp hb
  rw [vlqValue_append, vlqValue_last hb]
  by_cases hnine : q.length = 9
  · rw [hnine] at hq ⊢
    simp only [true_and, Nat.not_lt]
    omega
  · have hpow : 128 ^ q.length ≤ 128 ^ 8 := Nat.pow_le_pow_right (by decide) (by omega)
    have hmul := Nat.mul_le_mul hpow (Nat.le_of_lt_succ hlt)
    simp only [hnine, false_and, not_false_eq_true, iff_true]
    omega

/-! ## What a sequence decodes to -/

theorem vlqDecodeLoop_value {q : Bytes} {b : UInt8} (hq : ∀ d ∈ q, d &&& 0x80 ≠ 0)
    (hb : b &&& 0x80 = 0) (t : Bytes) {acc : UInt64} {shift : Nat} (hacc : acc.toNat < 2 ^ shift)
    (h : shift + 7 * q.length < 64) :
    ∃ v, vlqDecodeLoop (q ++ b :: t) acc shift = .ok v ∧
      v.toNat = (acc.toNat + vlqValue (q ++ [b]) * 2 ^ shift) % 2 ^ 64 := by
  induction q generalizing acc shift with
  | nil =>
    refine ⟨_, by simp only [List.nil_append, vlqDecodeLoop, hb, ↓reduceIte]; rfl, ?_⟩
    rw [toNat_or_shift_mod (by simpa using h) hacc, toNat_and7F, List.nil_append, vlqValue_cons]
    rfl
  | cons d q ih =>
    rw [List.length_cons] at h
    have hd : d &&& 0x80 ≠ 0 := hq d (by simp)
    have hshift : ¬ shift + 7 ≥ 64 := by omega
    have hpow : 2 ^ (shift + 7) = 2 ^ shift * 128 := Nat.pow_add 2 shift 7
    have hdigit : d.toNat % 128 * 2 ^ shift ≤ 127 * 2 ^ shift :=
      Nat.mul_le_mul_right _ (by omega)
    have hle : 2 ^ (shift + 7) ≤ 2 ^ 64 := Nat.pow_le_pow_right (by decide) (by omega)
    have hor := toNat_or_shift (d := (d &&& 0x7F).toUInt64) (by omega : shift < 64) hacc
      (by rw [toNat_and7F]; omega)
    rw [toNat_and7F] at hor
    obtain ⟨v, hv, hval⟩ := ih (fun c hc => hq c (by simp [hc]))
      (by rw [hor, hpow]; omega) (by omega)
    refine ⟨v, by simp only [List.cons_append, vlqDecodeLoop, hd, hshift, ↓reduceIte, hv], ?_⟩
    rw [hval, hor, List.cons_append, vlqValue_cons, hpow, Nat.add_mul, Nat.add_assoc]
    congr 3
    rw [Nat.mul_comm (2 ^ shift), ← Nat.mul_assoc, Nat.mul_comm (vlqValue _)]

/-- A sequence of at most ten bytes decodes to its value, cut to 64 bits. -/
theorem vlqDecode_value {q : Bytes} {b : UInt8} (hlen : q.length < maxVlqLen)
    (hq : ∀ d ∈ q, d &&& 0x80 ≠ 0) (hb : b &&& 0x80 = 0) (t : Bytes) :
    vlqDecode (q ++ b :: t) = .ok (UInt64.ofNat (vlqValue (q ++ [b]))) := by
  have hten : q.length < 10 := hlen
  have hstart : (0 : UInt64).toNat < 2 ^ 0 := by decide
  obtain ⟨v, hv, hval⟩ := vlqDecodeLoop_value hq hb t hstart (by omega)
  have hv' : v = UInt64.ofNat (vlqValue (q ++ [b])) := by
    rw [← UInt64.toNat_inj, hval, UInt64.toNat_ofNat']
    simp
  rw [vlqDecode, hv, hv']

/-! ## Wrong numbers -/

/-- A decoder gives no wrong number for `bytes`: what it gives is the value of the sequence at
the front, and a value of 64 bits and more in at most ten bytes is `overflow`. -/
structure DecodesExactly {ε : Type} (decode : Bytes → Except ε UInt64) (overflow : ε)
    (bytes : Bytes) : Prop where
  sound : ∀ v, decode bytes = .ok v → (∃ b ∈ bytes, b &&& 0x80 = 0) ∧
    vlqValue (splitVlq bytes).1 < 2 ^ 64 ∧ vlqValue (splitVlq bytes).1 = v.toNat
  overflows : (∃ b ∈ bytes, b &&& 0x80 = 0) → (splitVlq bytes).1.length ≤ 10 →
    2 ^ 64 ≤ vlqValue (splitVlq bytes).1 → decode bytes = .error overflow

/-- The slice starts with a sequence of ten bytes whose last one carries more than one bit. -/
def TenthTooLarge (bytes : Bytes) : Prop :=
  ∃ q b t, bytes = q ++ b :: t ∧ q.length = 9 ∧ (∀ d ∈ q, d &&& 0x80 ≠ 0) ∧ b &&& 0x80 = 0 ∧
    1 < b.toNat

/-- `csi_vlq_decode` without the length. -/
def csiVlqValue (bytes : Bytes) : Except Code UInt64 := (csiVlqDecode bytes).map Prod.fst

theorem csiVlqValue_ok_iff (bytes : Bytes) (v : UInt64) :
    csiVlqValue bytes = .ok v ↔ vlqDecode bytes = .ok v := by
  rw [csiVlqValue, csiVlqDecode_eq]
  cases vlqDecode bytes with
  | error e => simp [Except.map]
  | ok u => simp [Except.map]

theorem splitVlq_short {q t : Bytes} {b : UInt8} (hq : ∀ d ∈ q, d &&& 0x80 ≠ 0)
    (hb : b &&& 0x80 = 0) : splitVlq (q ++ b :: t) = (q ++ [b], t) := by
  have hclosed := splitVlq_closed hq hb t
  rwa [List.append_assoc] at hclosed

/-- Ten bytes that ask for more, and another one, are more than ten bytes of a sequence. -/
theorem length_splitVlq_long {q t : Bytes} {b : UInt8} (hq : ∀ d ∈ q, d &&& 0x80 ≠ 0) :
    q.length < (splitVlq (q ++ b :: t)).1.length := by
  rw [splitVlq_behind hq, List.length_append]
  have hpos : 0 < (splitVlq (b :: t)).1.length := by
    rw [splitVlq]
    split <;> simp
  omega

section

variable {ε : Type} {decode : Bytes → Except ε UInt64} {overflow : ε}
  (hdecode : ∀ bytes v, decode bytes = .ok v ↔ vlqDecode bytes = .ok v)

include hdecode

/-- A sequence of at most ten bytes is decoded exactly when its value fits. -/
theorem decodesExactly_short {q : Bytes} {b : UInt8} (hlen : q.length < maxVlqLen)
    (hq : ∀ d ∈ q, d &&& 0x80 ≠ 0) (hb : b &&& 0x80 = 0) (t : Bytes) :
    DecodesExactly decode overflow (q ++ b :: t) ↔ vlqValue (q ++ [b]) < 2 ^ 64 := by
  have hdec := (hdecode _ _).mpr (vlqDecode_value hlen hq hb t)
  have hterm : ∃ d ∈ q ++ b :: t, d &&& 0x80 = 0 := ⟨b, by simp, hb⟩
  constructor
  · intro h
    have hsound := (h.sound _ hdec).2.1
    rwa [splitVlq_short hq hb] at hsound
  · intro hfit
    refine ⟨fun v hv => ⟨hterm, ?_⟩, fun _ _ hlarge => ?_⟩
    · rw [hdec] at hv
      cases hv
      rw [splitVlq_short hq hb, UInt64.toNat_ofNat', Nat.mod_eq_of_lt hfit]
      exact ⟨hfit, rfl⟩
    · simp only [splitVlq_short hq hb] at hlarge
      omega

/-- Nothing is wrong where nothing is decoded and there is no short sequence. -/
theorem decodesExactly_refused {bytes : Bytes} (herr : ∃ e, vlqDecode bytes = .error e)
    (hlong : (∃ b ∈ bytes, b &&& 0x80 = 0) → 10 < (splitVlq bytes).1.length) :
    DecodesExactly decode overflow bytes := by
  obtain ⟨e, he⟩ := herr
  refine ⟨fun v hv => ?_, fun hterm hlen _ => ?_⟩
  · rw [hdecode, he] at hv
    cases hv
  · have := hlong hterm
    omega

/-- A decoder that decodes like `vlq_decode` is wrong exactly about a tenth byte that is too
large. -/
theorem decodesExactly_iff (bytes : Bytes) :
    DecodesExactly decode overflow bytes ↔ ¬ TenthTooLarge bytes := by
  rcases field_shapes maxVlqLen bytes with ⟨-, hopen⟩ | ⟨q, b, t, rfl, hlen, hq, hb⟩ |
    ⟨q, b, t, rfl, hlen, hq⟩
  · have hterm : ¬ ∃ b ∈ bytes, b &&& 0x80 = 0 := fun ⟨b, hmem, hb⟩ => hopen b hmem hb
    refine iff_of_true (decodesExactly_refused hdecode (vlqDecode_open hopen)
      fun h => absurd h hterm) ?_
    rintro ⟨q, b, t, rfl, -, -, hb, -⟩
    exact hterm ⟨b, by simp, hb⟩
  · rw [decodesExactly_short hdecode hlen hq hb, vlqValue_fits_iff hb hlen]
    refine not_congr ⟨fun h => ⟨q, b, t, rfl, h.1, hq, hb, h.2⟩, ?_⟩
    rintro ⟨q', b', t', heq, hnine, hq', hb', hlarge⟩
    -- the sequence at the front is the same
    have hfirst := congrArg (fun s => (splitVlq s).1) heq
    simp only [splitVlq_short hq hb, splitVlq_short hq' hb'] at hfirst
    obtain ⟨rfl, hlast⟩ := List.append_inj' hfirst rfl
    cases hlast
    exact ⟨hnine, hlarge⟩
  · have hten : q.length = 10 := hlen
    refine iff_of_true (decodesExactly_refused hdecode ?_ fun _ => ?_) ?_
    · exact ⟨_, vlqDecodeLoop_long hq (b :: t) 0 (by decide) (by omega)⟩
    · rw [← hten]
      exact length_splitVlq_long hq
    · rintro ⟨q', b', t', heq, hnine, hq', hb', -⟩
      have hlong := length_splitVlq_long (t := t) (b := b) hq
      rw [heq, splitVlq_short hq' hb', List.length_append, List.length_singleton] at hlong
      omega

end

/-- **The decoders of both sides are exact**, but for ten bytes of which the last carries more
than the one bit that is left. -/
theorem decoders_exact_iff (bytes : Bytes) :
    (DecodesExactly vlqDecode .decodeVlqOverflow bytes ↔ ¬ TenthTooLarge bytes) ∧
      (DecodesExactly csiVlqValue CSIErrorCode.vlq.toCode bytes ↔ ¬ TenthTooLarge bytes) :=
  ⟨decodesExactly_iff (fun _ _ => Iff.rfl) bytes, decodesExactly_iff csiVlqValue_ok_iff bytes⟩

/-- The value `2 ^ 64` in ten bytes. -/
def tenthTwo : Bytes := [0x80, 0x80, 0x80, 0x80, 0x80, 0x80, 0x80, 0x80, 0x80, 0x02]

/-- It decodes to 0. -/
theorem decoders_wrap :
    (vlqDecode tenthTwo = .ok 0 ∧ csiVlqValue tenthTwo = .ok 0 ∧ vlqValue tenthTwo = 2 ^ 64) ∧
      ¬ (∀ bytes, DecodesExactly vlqDecode .decodeVlqOverflow bytes) ∧
      ¬ ∀ bytes, DecodesExactly csiVlqValue CSIErrorCode.vlq.toCode bytes := by
  have hvlq : vlqDecode tenthTwo = .ok 0 := by decide +kernel
  have hcsi : csiVlqValue tenthTwo = .ok 0 := by decide +kernel
  have hvalue : vlqValue tenthTwo = 2 ^ 64 := by decide +kernel
  have hsplit : (splitVlq tenthTwo).1 = tenthTwo := by decide +kernel
  refine ⟨⟨hvlq, hcsi, hvalue⟩, fun h => ?_, fun h => ?_⟩
  · have hsound := ((h tenthTwo).sound _ hvlq).2.1
    rw [hsplit, hvalue] at hsound
    exact absurd hsound (Nat.lt_irrefl _)
  · have hsound := ((h tenthTwo).sound _ hcsi).2.1
    rw [hsplit, hvalue] at hsound
    exact absurd hsound (Nat.lt_irrefl _)

/-! ## The same function -/

/-- The loop of `csi_vlq_encode` with what it writes to memory, and `*out_len`. -/
def csiVlqEncodeLoop (buf len : Nat) (value : UInt64) (written : Nat) (m : Memory) :
    Except Code Nat × Memory :=
  if written ≥ len then (.error CSIErrorCode.vlq.toCode, m)
  else
    let byte := low7 value
    let value := value >>> 7
    if value ≠ 0 then
      csiVlqEncodeLoop buf len value (written + 1) (store m (buf + written) [byte ||| 0x80])
    else (.ok (written + 1), store m (buf + written) [byte])
termination_by len - written

/-- `csi_vlq_encode` into the `len` bytes at `buf`. -/
def csiVlqEncodeInto (buf len : Nat) (value : UInt64) (m : Memory) : Except Code Nat × Memory :=
  csiVlqEncodeLoop buf len value 0 m

/-- Without room nothing is written. -/
theorem csiVlqEncodeLoop_full {buf len written : Nat} (value : UInt64) (m : Memory)
    (h : len ≤ written) :
    csiVlqEncodeLoop buf len value written m = (.error CSIErrorCode.vlq.toCode,
      store m (buf + written) ((vlqEncode value).take (len - written))) := by
  rw [csiVlqEncodeLoop, if_pos h, Nat.sub_eq_zero_of_le h, List.take_zero, store_nil]

/-- The loop writes the encoding as far as there is room, and says whether there was. -/
theorem csiVlqEncodeLoop_eq (buf len : Nat) (value : UInt64) (written : Nat) (m : Memory) :
    csiVlqEncodeLoop buf len value written m =
      (if written + (vlqEncode value).length ≤ len then .ok (written + (vlqEncode value).length)
        else .error CSIErrorCode.vlq.toCode,
        store m (buf + written) ((vlqEncode value).take (len - written))) := by
  induction value using vlq_induction generalizing written m with
  | small v h =>
    rcases Nat.lt_or_ge written len with hroom | hfull
    · obtain ⟨k, hk⟩ : ∃ k, len - written = k + 1 := ⟨len - written - 1, by omega⟩
      have hfit : written + 1 ≤ len := hroom
      rw [csiVlqEncodeLoop, if_neg (by omega)]
      simp [vlqEncode_small h, shiftRight7_eq_zero.mpr h, hfit, hk]
    · rw [csiVlqEncodeLoop_full v m hfull, vlqEncode_small h, if_neg (by simp; omega)]
  | large v h ih =>
    rcases Nat.lt_or_ge written len with hroom | hfull
    · obtain ⟨k, hk⟩ : ∃ k, len - written = k + 1 := ⟨len - written - 1, by omega⟩
      have hk' : len - (written + 1) = k := by omega
      have hne : v >>> 7 ≠ 0 := fun h0 => absurd (shiftRight7_eq_zero.mp h0) (by omega)
      rw [csiVlqEncodeLoop, if_neg (by omega)]
      simp only [hne, ne_eq, not_false_eq_true, ↓reduceIte, ih]
      rw [vlqEncode_large h, List.length_cons, hk, hk', List.take_succ_cons, Nat.add_assoc,
        Nat.add_comm 1, ← Nat.add_assoc buf, store_cons]
    · rw [csiVlqEncodeLoop_full v m hfull, vlqEncode_large h, List.length_cons,
        if_neg (by omega)]

theorem csiVlqEncodeInto_eq (buf len : Nat) (value : UInt64) (m : Memory) :
    csiVlqEncodeInto buf len value m =
      (if (vlqEncode value).length ≤ len then .ok (vlqEncode value).length
        else .error CSIErrorCode.vlq.toCode,
        store m buf ((vlqEncode value).take len)) := by
  rw [csiVlqEncodeInto, csiVlqEncodeLoop_eq, Nat.zero_add, Nat.add_zero, Nat.sub_zero]

/-- What it leaves in the buffer is what `csi_write_vlq` goes on with. -/
theorem csiVlqEncodeInto_load (buf len : Nat) (value : UInt64) (m : Memory) :
    (csiVlqEncodeInto buf len value m).1.map (load (csiVlqEncodeInto buf len value m).2 buf) =
      csiVlqEncode len value := by
  rw [csiVlqEncodeInto_eq]
  by_cases hfit : (vlqEncode value).length ≤ len
  · rw [csiVlqEncode_eq hfit, if_pos hfit, List.take_of_length_le hfit]
    exact congrArg Except.ok (load_store m buf (vlqEncode value))
  · rw [if_neg hfit, csiVlqEncode_short (by omega)]
    rfl

/-- The sequence at the front ends at the first byte with a clear high bit. -/
theorem length_splitVlq {s : Bytes} (h : ∃ b ∈ s, b &&& 0x80 = 0) :
    (splitVlq s).1.length = s.findIdx (fun b => b &&& 0x80 == 0) + 1 := by
  induction s with
  | nil => simp at h
  | cons b s ih =>
    by_cases hb : b &&& 0x80 = 0
    · simp [splitVlq, hb, List.findIdx_cons]
    · have hbeq : (b &&& 0x80 == 0) = false := beq_eq_false_iff_ne.mpr hb
      simp [splitVlq, hb, List.findIdx_cons, hbeq, ih (by simpa [hb] using h)]

/-- `csi_vlq_encode` does what `vlq_encode` does, in a buffer of `len` bytes. -/
structure EncodesAlike (buf len : Nat) (value : UInt64) (m : Memory) : Prop where
  succeeds_iff : (∃ n, (csiVlqEncodeInto buf len value m).1 = .ok n) ↔
    (vlqEncode value).length ≤ len
  written : ∀ n, (csiVlqEncodeInto buf len value m).1 = .ok n → n = (vlqEncode value).length ∧
    load (csiVlqEncodeInto buf len value m).2 buf n = vlqEncode value
  inside : ∀ a, a < buf ∨ buf + len ≤ a → (csiVlqEncodeInto buf len value m).2 a = m a

/-- `csi_vlq_decode` does what `vlq_decode` does, and counts the bytes. -/
structure DecodesAlike (bytes : Bytes) : Prop where
  decodes_iff : ∀ v, (∃ n, csiVlqDecode bytes = .ok (v, n)) ↔ vlqDecode bytes = .ok v
  counts : ∀ v n, csiVlqDecode bytes = .ok (v, n) →
    n = bytes.findIdx (fun b => b &&& 0x80 == 0) + 1

theorem encodesAlike (buf len : Nat) (value : UInt64) (m : Memory) :
    EncodesAlike buf len value m := by
  have heq := csiVlqEncodeInto_eq buf len value m
  by_cases hfit : (vlqEncode value).length ≤ len
  · rw [if_pos hfit, List.take_of_length_le hfit] at heq
    refine ⟨⟨fun _ => hfit, fun _ => ⟨_, by rw [heq]⟩⟩, fun n hn => ?_, fun a ha => ?_⟩
    · rw [heq] at hn ⊢
      cases hn
      exact ⟨rfl, load_store m buf (vlqEncode value)⟩
    · rw [heq]
      exact store_outside m _ (by omega)
  · rw [if_neg hfit] at heq
    refine ⟨⟨fun ⟨n, hn⟩ => ?_, fun h => absurd h hfit⟩, fun n hn => ?_, fun a ha => ?_⟩
    · rw [heq] at hn
      cases hn
    · rw [heq] at hn
      cases hn
    · rw [heq]
      exact store_outside m _ (by rw [List.length_take]; omega)

theorem decodesAlike (bytes : Bytes) : DecodesAlike bytes := by
  have heq := csiVlqDecode_eq bytes
  cases hdec : vlqDecode bytes with
  | error e =>
    rw [hdec] at heq
    exact ⟨fun v => by simp [heq, hdec], fun v n hn => by rw [heq] at hn; cases hn⟩
  | ok u =>
    rw [hdec] at heq
    refine ⟨fun v => by simp [heq, hdec], fun v n hn => ?_⟩
    rw [heq] at hn
    cases hn
    exact length_splitVlq (closed_of_vlqDecode hdec)

/-- **The two codecs are the same function.** -/
theorem codecs_agree :
    (∀ (buf len : Nat) (value : UInt64) (m : Memory), EncodesAlike buf len value m) ∧
      ∀ bytes : Bytes, DecodesAlike bytes :=
  ⟨encodesAlike, decodesAlike⟩

end CkbScriptIpc
