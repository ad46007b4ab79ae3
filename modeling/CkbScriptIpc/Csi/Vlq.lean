import CkbScriptIpc.Csi.Buffer
import CkbScriptIpc.Packet

/-!
# The C library: variable-length quantities

`csi_vlq_encode`, `csi_vlq_decode`, `csi_write_vlq` and `csi_read_vlq`.

* `csiVlqEncode_eq`, `csiVlqDecode_eq`: the two codecs are those of the Rust side;
* `csiReadVlq_ok`: a field is read as on the Rust side;
* `csiReadVlq_tooLong`: ten bytes that ask for more, and an eleventh, are an error;
* `csiReadVlq_refused`: a reader that fails inside a field is not noticed.
-/

namespace CkbScriptIpc

open Interaction

variable {X Y W : Type}

/-- `MAX_VLQ_LEN`. -/
def maxVlqLen : Nat := 10

/-! ## The codec -/

/-- `csi_vlq_encode` into a buffer of `len` bytes. -/
def csiVlqEncode : Nat → UInt64 → Except Code Bytes
  | 0, _ => .error CSIErrorCode.vlq.toCode
  | len + 1, value =>
    let byte := low7 value
    let value := value >>> 7
    if value ≠ 0 then (csiVlqEncode len value).map ((byte ||| 0x80) :: ·) else .ok [byte]

def csiVlqDecodeLoop : Bytes → UInt64 → Nat → Nat → Except Code (UInt64 × Nat)
  | [], _, _, _ => .error CSIErrorCode.vlq.toCode
  | byte :: bytes, result, shift, read =>
    let result := result ||| ((byte &&& 0x7F).toUInt64 <<< UInt64.ofNat shift)
    if byte &&& 0x80 = 0 then .ok (result, read + 1)
    else if shift + 7 ≥ 64 then .error CSIErrorCode.vlq.toCode
    else csiVlqDecodeLoop bytes result (shift + 7) (read + 1)

/-- `csi_vlq_decode`: the number, and how many bytes it took. -/
def csiVlqDecode (bytes : Bytes) : Except Code (UInt64 × Nat) := csiVlqDecodeLoop bytes 0 0 0

theorem csiVlqEncode_eq {v : UInt64} {len : Nat} (h : (vlqEncode v).length ≤ len) :
    csiVlqEncode len v = .ok (vlqEncode v) := by
  induction v using vlq_induction generalizing len with
  | small v hv =>
    rw [vlqEncode_small hv] at h ⊢
    obtain ⟨len, rfl⟩ : ∃ n, len = n + 1 := ⟨len - 1, by simp at h; omega⟩
    simp [csiVlqEncode, shiftRight7_eq_zero.mpr hv]
  | large v hv ih =>
    rw [vlqEncode_large hv] at h ⊢
    rw [List.length_cons] at h
    obtain ⟨len, rfl⟩ : ∃ n, len = n + 1 := ⟨len - 1, by omega⟩
    have hne : v >>> 7 ≠ 0 := fun h0 => by
      have := shiftRight7_eq_zero.mp h0
      omega
    rw [csiVlqEncode, if_pos hne, ih (by omega)]
    rfl

/-- Too small a buffer is an error. -/
theorem csiVlqEncode_short {v : UInt64} {len : Nat} (h : len < (vlqEncode v).length) :
    csiVlqEncode len v = .error CSIErrorCode.vlq.toCode := by
  induction v using vlq_induction generalizing len with
  | small v hv =>
    rw [vlqEncode_small hv, List.length_singleton] at h
    obtain rfl : len = 0 := by omega
    rfl
  | large v hv ih =>
    rw [vlqEncode_large hv, List.length_cons] at h
    cases len with
    | zero => rfl
    | succ len =>
      have hne : v >>> 7 ≠ 0 := fun h0 => absurd (shiftRight7_eq_zero.mp h0) (by omega)
      rw [csiVlqEncode, if_pos hne, ih (by omega)]
      rfl

theorem vlqEncode_length_le_maxVlqLen (v : UInt64) : (vlqEncode v).length ≤ maxVlqLen :=
  length_vlqEncode v ▸ vlqLength_le v

theorem csiVlqDecodeLoop_eq (bytes : Bytes) (value : UInt64) (shift read : Nat) :
    csiVlqDecodeLoop bytes value shift read =
      match vlqDecodeLoop bytes value shift with
      | .ok v => .ok (v, read + (splitVlq bytes).1.length)
      | .error _ => .error CSIErrorCode.vlq.toCode := by
  induction bytes generalizing value shift read with
  | nil => rfl
  | cons byte bytes ih =>
    by_cases hlast : byte &&& 0x80 = 0
    · simp [csiVlqDecodeLoop, vlqDecodeLoop, splitVlq, hlast]
    · by_cases hshift : shift + 7 ≥ 64
      · simp [csiVlqDecodeLoop, vlqDecodeLoop, hlast, hshift]
      · have hsum : ∀ n, read + 1 + n = read + (n + 1) := by omega
        simp [csiVlqDecodeLoop, vlqDecodeLoop, splitVlq, hlast, hshift, ih, hsum]

theorem csiVlqDecode_eq (bytes : Bytes) :
    csiVlqDecode bytes =
      match vlqDecode bytes with
      | .ok v => .ok (v, (splitVlq bytes).1.length)
      | .error _ => .error CSIErrorCode.vlq.toCode := by
  rw [csiVlqDecode, csiVlqDecodeLoop_eq, vlqDecode]
  simp

/-! ## Writing and reading -/

def csiWriteVlq {V : Type} [CSIWrite V] (value : UInt64) : Method (CsiRes X Y) Code V Unit := do
  let buf ← Method.ofExcept (csiVlqEncode maxVlqLen value)
  let writtenLen ← CSIWrite.write buf
  if writtenLen ≠ buf.length then Method.throw CSIErrorCode.sendVlq.toCode
  else return ()

/-- One turn of the loop of `csi_read_vlq`. When the reader fails, `CHECK` sets the
`err` of the loop body and leaves the loop: `none`. A read that gives no byte leaves
`peek` as it was. -/
def csiReadVlqTurn {R : Type} [CSIRead R] (buf : Filled maxVlqLen) :
    Method (CsiRes X Y) Code R (Filled maxVlqLen ⊕ Option (Filled maxVlqLen)) := do
  match ← Method.attempt (CSIRead.read 1) with
  | .error (_ : Code) => return .inr none
  | .ok bs =>
    let peek := bs.headD (buf.1.getLastD 0)
    if buf.1.length ≥ maxVlqLen then Method.throw CSIErrorCode.readVlq.toCode
    else if peek &&& 0x80 = 0 then return .inr (some (buf.push [peek]))
    else return .inl (buf.push [peek])

/-- `csi_read_vlq`, where `value` is what `*value` holds before. The `err` that is
returned when the reader fails is the outer one, which is 0. -/
def csiReadVlq {R : Type} [CSIRead R] (value : UInt64) : Method (CsiRes X Y) Code R UInt64 := do
  match ← Method.iter csiReadVlqTurn (Filled.empty maxVlqLen) with
  | none => return value
  | some buf =>
    let decoded ← Method.ofExcept (csiVlqDecode buf.1)
    if decoded.2 ≠ buf.1.length then Method.throw CSIErrorCode.readVlq.toCode
    else return decoded.1

/-! ## The shapes of a field -/

/-- The stream ends before its first field does, and before the eleventh byte that
makes a field too long. -/
def EndsInField (s : Bytes) : Prop := s.length ≤ maxVlqLen ∧ ∀ b ∈ s, b &&& 0x80 ≠ 0

instance (s : Bytes) : Decidable (EndsInField s) :=
  inferInstanceAs (Decidable (s.length ≤ maxVlqLen ∧ ∀ b ∈ s, b &&& 0x80 ≠ 0))

/-- Either all of `s` asks for more, and it has at most `n` bytes, or fewer than `n`
such bytes and a last one start it, or `n` such bytes and one more do. -/
theorem field_shapes (n : Nat) (s : Bytes) :
    (s.length ≤ n ∧ ∀ d ∈ s, d &&& 0x80 ≠ 0) ∨
    (∃ q b t, s = q ++ b :: t ∧ q.length < n ∧ (∀ d ∈ q, d &&& 0x80 ≠ 0) ∧ b &&& 0x80 = 0) ∨
    ∃ q b t, s = q ++ b :: t ∧ q.length = n ∧ ∀ d ∈ q, d &&& 0x80 ≠ 0 := by
  induction n generalizing s with
  | zero =>
    cases s with
    | nil => simp
    | cons b t => exact .inr (.inr ⟨[], b, t, rfl, rfl, by simp⟩)
  | succ n ih =>
    cases s with
    | nil => simp
    | cons d s =>
      by_cases hd : d &&& 0x80 = 0
      · exact .inr (.inl ⟨[], d, s, rfl, by simp, by simp, hd⟩)
      · rcases ih s with ⟨hlen, hs⟩ | ⟨q, b, t, rfl, hlen, hq, hb⟩ | ⟨q, b, t, rfl, hlen, hq⟩
        · exact .inl ⟨by simpa using hlen, by simpa [hd] using hs⟩
        · exact .inr (.inl ⟨d :: q, b, t, rfl, by simpa using hlen, by simpa [hd] using hq, hb⟩)
        · exact .inr (.inr ⟨d :: q, b, t, rfl, by simpa using hlen, by simpa [hd] using hq⟩)

/-- Fewer than ten bytes that ask for more, and a last one, decode. -/
theorem vlqDecodeLoop_short {q : Bytes} {b : UInt8} (hq : ∀ d ∈ q, d &&& 0x80 ≠ 0)
    (hb : b &&& 0x80 = 0) (value : UInt64) (shift : Nat) (h : shift + 7 * q.length < 64) :
    ∃ v, vlqDecodeLoop (q ++ [b]) value shift = .ok v := by
  induction q generalizing value shift with
  | nil => exact ⟨_, by simp [vlqDecodeLoop, hb]; rfl⟩
  | cons d q ih =>
    rw [List.length_cons] at h
    have hd : d &&& 0x80 ≠ 0 := hq d (by simp)
    have hshift : ¬ shift + 7 ≥ 64 := by omega
    obtain ⟨v, hv⟩ := ih (fun c hc => hq c (by simp [hc]))
      (value ||| ((d &&& 0x7F).toUInt64 <<< UInt64.ofNat shift)) (shift + 7) (by omega)
    exact ⟨v, by simp only [List.cons_append, vlqDecodeLoop, hd, hshift, ↓reduceIte, hv]⟩

/-- Ten bytes that ask for more do not decode. -/
theorem vlqDecodeLoop_long {q : Bytes} (hq : ∀ d ∈ q, d &&& 0x80 ≠ 0) (t : Bytes) (value : UInt64)
    {shift : Nat} (hshift : shift < 64) (h : 64 ≤ shift + 7 * q.length) :
    vlqDecodeLoop (q ++ t) value shift = .error .decodeVlqOverflow := by
  induction q generalizing value shift with
  | nil => simp at h; omega
  | cons d q ih =>
    rw [List.length_cons] at h
    have hd : d &&& 0x80 ≠ 0 := hq d (by simp)
    simp only [List.cons_append, vlqDecodeLoop, hd, ↓reduceIte]
    split
    · rfl
    · exact ih (fun c hc => hq c (by simp [hc])) _ (by omega) (by omega)

theorem field_short {q t : Bytes} {b : UInt8} (hlen : q.length < maxVlqLen)
    (hq : ∀ d ∈ q, d &&& 0x80 ≠ 0) (hb : b &&& 0x80 = 0) :
    ∃ v, field (q ++ b :: t) = .ok (v, t) ∧ vlqDecode (q ++ [b]) = .ok v := by
  have hten : q.length < 10 := hlen
  obtain ⟨v, hv⟩ := vlqDecodeLoop_short hq hb 0 0 (by omega)
  have hsplit : splitVlq (q ++ b :: t) = (q ++ [b], t) := by
    have := splitVlq_closed hq hb t
    rwa [List.append_assoc] at this
  refine ⟨v, ?_, hv⟩
  rw [field, hsplit, vlqDecode, hv]
  rfl

theorem field_long {q t : Bytes} {b : UInt8} (hlen : q.length = maxVlqLen)
    (hq : ∀ d ∈ q, d &&& 0x80 ≠ 0) : field (q ++ b :: t) = .error .decodeVlqOverflow := by
  have hten : q.length = 10 := hlen
  have hsplit : ∀ q : Bytes, (∀ d ∈ q, d &&& 0x80 ≠ 0) →
      ∃ r, (splitVlq (q ++ b :: t)).1 = q ++ r := by
    intro q hq
    induction q with
    | nil => exact ⟨_, rfl⟩
    | cons d q ih =>
      obtain ⟨r, hr⟩ := ih fun c hc => hq c (by simp [hc])
      exact ⟨r, by simp [splitVlq, hq d (by simp), hr]⟩
  obtain ⟨r, hr⟩ := hsplit q hq
  rw [field, hr, vlqDecode, vlqDecodeLoop_long hq r 0 (by omega) (by omega)]
  rfl

/-- A field that decodes has at most ten bytes. -/
theorem shape_of_field {s t : Bytes} {v : UInt64} (h : field s = .ok (v, t)) :
    ∃ q b, s = q ++ b :: t ∧ q.length < maxVlqLen ∧ (∀ d ∈ q, d &&& 0x80 ≠ 0) ∧
      b &&& 0x80 = 0 ∧ vlqDecode (q ++ [b]) = .ok v := by
  rcases field_shapes maxVlqLen s with ⟨-, hs⟩ | ⟨q, b, t', rfl, hlen, hq, hb⟩ |
    ⟨q, b, t', rfl, hlen, hq⟩
  · obtain ⟨e, he⟩ := field_open hs
    rw [he] at h
    cases h
  · obtain ⟨v', hv', hdec⟩ := field_short (t := t') hlen hq hb
    rw [hv'] at h
    cases h
    exact ⟨q, b, rfl, hlen, hq, hb, hdec⟩
  · rw [field_long hlen hq] at h
    cases h

/-- A field that does not decode is too long, or the stream ends in it. -/
theorem shape_of_bad_field {s : Bytes} {e : IpcError} (h : field s = .error e)
    (hend : ¬ EndsInField s) :
    ∃ q b t, s = q ++ b :: t ∧ q.length = maxVlqLen ∧ ∀ d ∈ q, d &&& 0x80 ≠ 0 := by
  rcases field_shapes maxVlqLen s with hs | ⟨q, b, t, rfl, hlen, hq, hb⟩ | hlong
  · exact absurd hs hend
  · obtain ⟨v, hv, -⟩ := field_short (t := t) hlen hq hb
    rw [hv] at h
    cases h
  · exact hlong

/-! ## Reading a field -/

section

variable {R : Type} [CSIRead R] {E : Env (CsiRes X Y) W} {St : R → W → Bytes → Prop} {r : R} {w : W}
  {s t : Bytes}

/-- A read of one byte gets the next byte. -/
theorem readByte_ok (h : Streams CSIRead.read E St) {b : UInt8} (hst : St r w (b :: t)) :
    Always E (succeeds fun c r' w' => c = [b] ∧ St r' w' t) (CSIRead.read 1 r) w := by
  refine (h.chunk hst (by simp) (by decide)).mono (succeeds_mono ?_)
  rintro c r' w' ⟨t', happ, hc, hlen, hst'⟩
  obtain ⟨d, c, rfl⟩ := List.exists_cons_of_ne_nil hc
  obtain rfl : c = [] := by simpa using hlen
  rw [List.singleton_append, List.cons.injEq] at happ
  obtain ⟨rfl, rfl⟩ := happ
  exact ⟨rfl, hst'⟩

theorem push_byte {buf : Filled maxVlqLen} (b : UInt8) (hlen : buf.1.length < maxVlqLen) :
    (buf.push [b]).1 = buf.1 ++ [b] := by
  apply Filled.push_val
  rw [List.length_singleton]
  omega

/-- A byte that asks for another one is pushed, and the loop goes on. -/
theorem csiReadVlqTurn_open (h : Streams CSIRead.read E St) {d : UInt8} {buf : Filled maxVlqLen}
    (hst : St r w (d :: s)) (hlen : buf.1.length < maxVlqLen) (hd : d &&& 0x80 ≠ 0) :
    Always E (succeeds fun x r' w' => x = .inl (buf.push [d]) ∧ St r' w' s)
      (csiReadVlqTurn buf r) w := by
  have hroom : ¬ buf.1.length ≥ maxVlqLen := Nat.not_le.mpr hlen
  apply always_seq_ok (always_attempt_ok (readByte_ok h hst))
  rintro _ r' w' ⟨_, rfl, rfl, hst'⟩
  simp only [List.headD, hroom, hd, ↓reduceIte]
  exact .ret ⟨rfl, hst'⟩

theorem csiReadVlq_go (h : Streams CSIRead.read E St) {q : Bytes} {b : UInt8}
    {buf : Filled maxVlqLen} (hst : St r w (q ++ b :: t))
    (hlen : buf.1.length + q.length < maxVlqLen)
    (hq : ∀ d ∈ q, d &&& 0x80 ≠ 0) (hb : b &&& 0x80 = 0) :
    Always E (succeeds fun l r' w' => ∃ buf', l = some buf' ∧ buf'.1 = buf.1 ++ q ++ [b] ∧
      St r' w' t)
      (Method.iter csiReadVlqTurn buf r) w := by
  induction q generalizing buf r w with
  | nil =>
    have hroom : ¬ buf.1.length ≥ maxVlqLen := by simp at hlen; omega
    apply always_iter
    apply always_seq_ok (always_attempt_ok (readByte_ok h hst))
    rintro _ r' w' ⟨_, rfl, rfl, hst'⟩
    simp only [List.headD, hroom, hb, ↓reduceIte]
    exact .ret ⟨_, rfl, by simp [push_byte b (Nat.lt_of_not_le hroom)], hst'⟩
  | cons d q ih =>
    rw [List.length_cons] at hlen
    have hroom : buf.1.length < maxVlqLen := by omega
    have hpush := push_byte d hroom
    refine always_iter_next (csiReadVlqTurn_open h hst hroom (hq d (by simp))) ?_ ?_
    · rintro _ r' w' ⟨⟨⟩, hst'⟩
      have hlen' : (buf.push [d]).1.length + q.length < maxVlqLen := by simp [hpush]; omega
      refine (ih hst' hlen' fun c hc => hq c (by simp [hc])).mono (succeeds_mono ?_)
      rintro l r'' w'' ⟨buf'', rfl, hbuf, hst''⟩
      exact ⟨buf'', rfl, by simp [hbuf, hpush], hst''⟩
    · rintro _ _ _ ⟨⟨⟩, -⟩

theorem csiReadVlq_go_long (h : Streams CSIRead.read E St) {F : W → Prop}
    (hF : ∀ {r w s}, St r w s → F w) {q : Bytes} {b : UInt8} {buf : Filled maxVlqLen}
    (hst : St r w (q ++ b :: t)) (hlen : buf.1.length + q.length = maxVlqLen)
    (hq : ∀ d ∈ q, d &&& 0x80 ≠ 0) :
    Always E (fails fun _ _ w' => F w') (Method.iter csiReadVlqTurn buf r) w := by
  induction q generalizing buf r w with
  | nil =>
    have hfull : buf.1.length ≥ maxVlqLen := by simp at hlen; omega
    apply always_iter
    apply always_seq_ok (always_attempt_ok (readByte_ok h hst))
    rintro _ r' w' ⟨_, rfl, rfl, hst'⟩
    simp only [hfull, ↓reduceIte]
    exact .ret (hF hst')
  | cons d q ih =>
    rw [List.length_cons] at hlen
    have hroom : buf.1.length < maxVlqLen := by omega
    have hpush := push_byte d hroom
    refine always_iter_next (csiReadVlqTurn_open h hst hroom (hq d (by simp))) ?_ ?_
    · rintro _ r' w' ⟨⟨⟩, hst'⟩
      exact ih hst' (by simp [hpush]; omega) fun c hc => hq c (by simp [hc])
    · rintro _ _ _ ⟨⟨⟩, -⟩

/-- A field is read as on the Rust side. -/
theorem csiReadVlq_ok (h : Streams CSIRead.read E St) (hst : St r w s) {v : UInt64}
    (hf : field s = .ok (v, t)) (value : UInt64) :
    Always E (succeeds fun v' r' w' => v' = v ∧ St r' w' t) (csiReadVlq value r) w := by
  obtain ⟨q, b, rfl, hlen, hq, hb, hdec⟩ := shape_of_field hf
  have hlen' : (Filled.empty maxVlqLen).1.length + q.length < maxVlqLen := by
    simpa [Filled.empty] using hlen
  apply always_seq_ok (csiReadVlq_go h hst hlen' hq hb)
  rintro _ r' w' ⟨buf, rfl, hbuf, hst'⟩
  have hbuf' : buf.1 = q ++ [b] := by simpa [Filled.empty] using hbuf
  have hsplit : splitVlq (q ++ [b]) = (q ++ [b], []) := by
    have := splitVlq_closed hq hb []
    rwa [List.append_nil] at this
  have hdec' : csiVlqDecode buf.1 = .ok (v, buf.1.length) := by
    rw [hbuf', csiVlqDecode_eq, hdec, hsplit]
  simp only [hdec', ofExcept_ok_seq, ne_eq, not_true_eq_false, ↓reduceIte]
  exact .ret ⟨rfl, hst'⟩

/-- A field that is too long is an error at its eleventh byte. -/
theorem csiReadVlq_tooLong (h : Streams CSIRead.read E St) {F : W → Prop}
    (hF : ∀ {r w s}, St r w s → F w) (hst : St r w s) {e : IpcError} (hf : field s = .error e)
    (hend : ¬ EndsInField s) (value : UInt64) :
    Always E (fails fun _ _ w' => F w') (csiReadVlq value r) w := by
  obtain ⟨q, b, t, rfl, hlen, hq⟩ := shape_of_bad_field hf hend
  have hlen' : (Filled.empty maxVlqLen).1.length + q.length = maxVlqLen := by
    simpa [Filled.empty] using hlen
  exact always_seq_fails (csiReadVlq_go_long h hF hst hlen' hq)

theorem csiReadVlq_go_refused {F : W → Prop} (h : StreamsThenFails CSIRead.read E St F)
    {q : Bytes} {buf : Filled maxVlqLen} (hst : St r w q)
    (hlen : buf.1.length + q.length ≤ maxVlqLen) (hq : ∀ d ∈ q, d &&& 0x80 ≠ 0) :
    Always E (succeeds fun l _ w' => l = none ∧ F w') (Method.iter csiReadVlqTurn buf r) w := by
  induction q generalizing buf r w with
  | nil =>
    apply always_iter
    apply always_seq_ok (always_attempt_resolves ((h.fail hst Nat.one_pos).mono
      (resolves_of_fails (P := fun _ _ _ => False))))
    rintro _ r' w' (⟨_, -, hfalse⟩ | ⟨e, rfl, hF⟩)
    · exact hfalse.elim
    · exact .ret ⟨rfl, hF⟩
  | cons d q ih =>
    rw [List.length_cons] at hlen
    have hroom : buf.1.length < maxVlqLen := by omega
    have hpush := push_byte d hroom
    refine always_iter_next (csiReadVlqTurn_open h.toStreams hst hroom (hq d (by simp))) ?_ ?_
    · rintro _ r' w' ⟨⟨⟩, hst'⟩
      exact ih hst' (by simp [hpush]; omega) fun c hc => hq c (by simp [hc])
    · rintro _ _ _ ⟨⟨⟩, -⟩

/-- **The failure is lost.** When the reader fails inside a field, 0 is returned and `*value`
stays what it was. -/
theorem csiReadVlq_refused {F : W → Prop} (h : StreamsThenFails CSIRead.read E St F)
    {q : Bytes} (hst : St r w q) (hlen : q.length ≤ maxVlqLen) (hq : ∀ d ∈ q, d &&& 0x80 ≠ 0)
    (value : UInt64) :
    Always E (succeeds fun v _ w' => v = value ∧ F w') (csiReadVlq value r) w := by
  have hlen' : (Filled.empty maxVlqLen).1.length + q.length ≤ maxVlqLen := by
    simpa [Filled.empty] using hlen
  apply always_seq_ok (csiReadVlq_go_refused h hst hlen' hq)
  rintro _ r' w' ⟨rfl, hF⟩
  exact .ret ⟨rfl, hF⟩

/-- A field is written in one piece, as on the Rust side. -/
theorem csiWriteVlq_eq {V : Type} [CSIWrite V] (value : UInt64) :
    (csiWriteVlq value : Method (CsiRes X Y) Code V Unit) = (do
      let writtenLen ← CSIWrite.write (vlqEncode value)
      if writtenLen ≠ (vlqEncode value).length then Method.throw CSIErrorCode.sendVlq.toCode
      else return ()) := by
  rw [csiWriteVlq, csiVlqEncode_eq (vlqEncode_length_le_maxVlqLen value)]
  rfl

theorem csiWriteVlq_full {E : Env (CsiRes X Y) W} {St : W → Bytes → Prop} (h : Takes E St)
    {o : Bytes} (hst : St w o) {b : CSIBuffer} (hb : b.filledLen ≤ b.maxLen) (value : UInt64) :
    Always E (succeeds fun _ b' w' => CSIBuffer.Written St b o (vlqEncode value) b' w')
      (csiWriteVlq value b) w := by
  rw [csiWriteVlq_eq]
  apply always_seq_ok (CSIBuffer.bufWrite_full h hst hb (vlqEncode value))
  rintro _ b' w' ⟨rfl, hwritten⟩
  simp only [ne_eq, not_true_eq_false, ↓reduceIte]
  exact .ret hwritten

end

end CkbScriptIpc
