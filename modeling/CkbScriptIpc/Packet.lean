import CkbScriptIpc.Vlq

/-!
# Packets

`RequestPacket` and `ResponsePacket` with their codec. Both have the same wire
format, three VLQ fields and the payload (`wirePacket`); `header` reads the
fields from a byte list, and `readFrom` is proved against it for every reader
that hands out a stream.

* `vlq_prefix_code`: numbers laid end to end come back one by one;
* `packets_self_delimiting`: packets laid end to end come back one by one, and a
  cut packet is an error;
* `readFrom_returns_iff`: the parser returns unless the header announces a payload
  that the allocator does not grant;
* `header_unnarrowed_iff`: the version is the one header field that the parser narrows.
-/

namespace CkbScriptIpc

open Interaction

variable {X Y W : Type}

/-! ## The wire format -/

/-- The wire format: version, method id or error code, length, payload. -/
def wirePacket (version code : UInt64) (payload : Bytes) : Bytes :=
  vlqEncode version ++ vlqEncode code ++ vlqEncode (UInt64.ofNat payload.length) ++ payload

theorem wirePacket_ne_nil (version code : UInt64) (payload : Bytes) :
    wirePacket version code payload ≠ [] := by
  simp [wirePacket, vlqEncode_ne_nil]

/-! ## Memory -/

/-- `isize::MAX`, the largest size of an allocation. -/
def isizeMax : Nat := 2 ^ 63 - 1

/-- The global allocator, by the sizes that it grants. An allocation that it does not grant
does not return: beyond `isize::MAX` it panics, and below the process is aborted. The parties of
a session are taken to have the same one. -/
class Allocator where
  Grants : Nat → Prop
  decGrants : DecidablePred Grants
  grants_zero : Grants 0
  le_isizeMax : ∀ n, Grants n → n ≤ isizeMax

namespace Allocator

instance [Allocator] : DecidablePred Grants := decGrants

/-- Memory for every size that an allocation can have. -/
@[reducible] def ample : Allocator where
  Grants n := n ≤ isizeMax
  decGrants _ := inferInstance
  grants_zero := Nat.zero_le _
  le_isizeMax _ h := h

end Allocator

open Allocator (Grants)

section

variable [Allocator]

/-- `Vec<u8>`, whose bytes the allocator has granted. -/
structure Vec where
  bytes : Bytes
  granted : Grants bytes.length
  deriving DecidableEq, Repr

def Vec.empty : Vec := ⟨[], Allocator.grants_zero⟩

theorem Vec.length_le (v : Vec) : v.bytes.length ≤ isizeMax := Allocator.le_isizeMax _ v.granted

theorem Vec.eq_of_bytes {v v' : Vec} (h : v.bytes = v'.bytes) : v = v' := by
  obtain ⟨bytes, _⟩ := v
  obtain ⟨bytes', _⟩ := v'
  obtain rfl : bytes = bytes' := h
  rfl

structure RequestPacket where
  version : UInt8
  methodId : UInt64
  payload : Vec
  deriving DecidableEq, Repr

structure ResponsePacket where
  version : UInt8
  errorCode : UInt64
  payload : Vec
  deriving DecidableEq, Repr

/-! ## Reading and serializing -/

/-- One turn of the loop of `read_next_vlq`; the loop is left at the end of the
stream and behind a byte with a clear high bit. -/
def readNextVlqTurn {R : Type} [Read R] (buf : Bytes) :
    Method (IoRes X Y) IpcError R (Bytes ⊕ Bytes) := do
  match ← (Read.read 1).mapErr fun _ => IpcError.readVlqError with
  | [] => return .inr buf
  | peek :: _ =>
    if peek &&& 0x80 = 0 then return .inr (buf ++ [peek])
    else return .inl (buf ++ [peek])

def readNextVlq {R : Type} [Read R] : Method (IoRes X Y) IpcError R UInt64 := do
  let buf ← Method.iter readNextVlqTurn []
  Method.ofExcept (vlqDecode buf)

/-- `vec![0u8; len]` and `read_exact` into it. -/
def readPayload {R : Type} [Read R] (len : UInt64) : Method (IoRes X Y) IpcError R Vec :=
  if h : Grants len.toNat then do
    let payload ← (readExact len.toNat).mapErr fun _ => IpcError.readExactError
    return ⟨payload.1, by rw [payload.2]; exact h⟩
  else Method.panic

/-- `Packet::read_from`, up to what the two packet types do with the fields. -/
def readFrom {R P : Type} [Read R] (make : UInt8 → UInt64 → Vec → P) :
    Method (IoRes X Y) IpcError R P := do
  let version ← readNextVlq
  let code ← readNextVlq
  let payloadLength ← readNextVlq
  let payload ← readPayload payloadLength
  return make version.toUInt8 code payload

def RequestPacket.readFrom {R : Type} [Read R] : Method (IoRes X Y) IpcError R RequestPacket :=
  CkbScriptIpc.readFrom RequestPacket.mk

def ResponsePacket.readFrom {R : Type} [Read R] : Method (IoRes X Y) IpcError R ResponsePacket :=
  CkbScriptIpc.readFrom ResponsePacket.mk

def RequestPacket.serialize (p : RequestPacket) : Bytes :=
  wirePacket p.version.toUInt64 p.methodId p.payload.bytes

def ResponsePacket.serialize (p : ResponsePacket) : Bytes :=
  wirePacket p.version.toUInt64 p.errorCode p.payload.bytes

theorem RequestPacket.serialize_ne_nil (p : RequestPacket) : p.serialize ≠ [] :=
  wirePacket_ne_nil _ _ _

theorem ResponsePacket.serialize_ne_nil (p : ResponsePacket) : p.serialize ≠ [] :=
  wirePacket_ne_nil _ _ _

def RequestPacket.new (payload : Vec) : RequestPacket := ⟨0, 0, payload⟩

def ResponsePacket.new (errorCode : UInt64) (payload : Vec) : ResponsePacket :=
  ⟨0, errorCode, payload⟩

end

/-! ## The fields of a byte list -/

/-- The number that the first VLQ sequence of `s` stands for, and what follows. -/
def field (s : Bytes) : Except IpcError (UInt64 × Bytes) :=
  (vlqDecode (splitVlq s).1).map fun v => (v, (splitVlq s).2)

structure Header where
  version : UInt64
  code : UInt64
  length : UInt64
  deriving DecidableEq, Repr

/-- The fields at the front of `s`, and what follows. -/
def header (s : Bytes) : Except IpcError (Header × Bytes) := do
  let version ← field s
  let code ← field version.2
  let length ← field code.2
  return (⟨version.1, code.1, length.1⟩, length.2)

@[simp] theorem ok_seq {ε α β : Type} (a : α) (f : α → Except ε β) :
    ((.ok a : Except ε α) >>= f) = f a := rfl

@[simp] theorem error_seq {ε α β : Type} (e : ε) (f : α → Except ε β) :
    ((.error e : Except ε α) >>= f) = .error e := rfl

/-- A header is its three fields, one behind the other. -/
theorem fields_of_header {s t : Bytes} {hd : Header} (h : header s = .ok (hd, t)) :
    ∃ t₁ t₂, field s = .ok (hd.version, t₁) ∧ field t₁ = .ok (hd.code, t₂) ∧
      field t₂ = .ok (hd.length, t) := by
  rw [header] at h
  cases hf₁ : field s with
  | error e => rw [hf₁] at h; cases h
  | ok f₁ =>
    rw [hf₁, ok_seq] at h
    cases hf₂ : field f₁.2 with
    | error e => rw [hf₂] at h; cases h
    | ok f₂ =>
      rw [hf₂, ok_seq] at h
      cases hf₃ : field f₂.2 with
      | error e => rw [hf₃] at h; cases h
      | ok f₃ =>
        rw [hf₃, ok_seq] at h
        cases h
        exact ⟨f₁.2, f₂.2, rfl, hf₂, hf₃⟩

/-- A header that does not decode fails in its first, second or third field. -/
theorem fields_of_bad_header {s : Bytes} {e : IpcError} (h : header s = .error e) :
    field s = .error e ∨ ∃ v t₁, field s = .ok (v, t₁) ∧
      (field t₁ = .error e ∨ ∃ c t₂, field t₁ = .ok (c, t₂) ∧ field t₂ = .error e) := by
  rw [header] at h
  cases hf₁ : field s with
  | error e₁ => rw [hf₁] at h; cases h; exact .inl rfl
  | ok f₁ =>
    rw [hf₁, ok_seq] at h
    refine .inr ⟨f₁.1, f₁.2, rfl, ?_⟩
    cases hf₂ : field f₁.2 with
    | error e₂ => rw [hf₂] at h; cases h; exact .inl rfl
    | ok f₂ =>
      rw [hf₂, ok_seq] at h
      refine .inr ⟨f₂.1, f₂.2, rfl, ?_⟩
      cases hf₃ : field f₂.2 with
      | error e₃ => rw [hf₃] at h; cases h; rfl
      | ok f₃ => rw [hf₃, ok_seq] at h; cases h

theorem field_vlqEncode (v : UInt64) (rest : Bytes) :
    field (vlqEncode v ++ rest) = .ok (v, rest) := by
  have h := vlqDecode_vlqEncode v []
  rw [List.append_nil] at h
  rw [field, splitVlq_vlqEncode, h]
  rfl

theorem header_wirePacket (version code : UInt64) (payload rest : Bytes) :
    header (wirePacket version code payload ++ rest) =
      .ok (⟨version, code, UInt64.ofNat payload.length⟩, payload ++ rest) := by
  simp only [header, wirePacket, List.append_assoc, field_vlqEncode, ok_seq]
  rfl

/-- A serialized response has one error code. -/
theorem ResponsePacket.errorCode_of_serialize [Allocator] {p q : ResponsePacket}
    (h : p.serialize = q.serialize) : p.errorCode = q.errorCode := by
  have hp := header_wirePacket p.version.toUInt64 p.errorCode p.payload.bytes []
  have hq := header_wirePacket q.version.toUInt64 q.errorCode q.payload.bytes []
  rw [ResponsePacket.serialize, ResponsePacket.serialize] at h
  rw [h, hq] at hp
  injection hp with hp
  injection hp with hp
  injection hp with _ hcode
  exact hcode.symm

theorem splitVlq_open {s : Bytes} (h : ∀ b ∈ s, b &&& 0x80 ≠ 0) : splitVlq s = (s, []) := by
  induction s with
  | nil => rfl
  | cons b s ih =>
    have hs := ih fun b hb => h b (by simp [hb])
    simp [splitVlq, h b (by simp), hs]

theorem field_open {s : Bytes} (h : ∀ b ∈ s, b &&& 0x80 ≠ 0) : ∃ e, field s = .error e := by
  obtain ⟨e, he⟩ := vlqDecode_open h
  exact ⟨e, by rw [field, splitVlq_open h, he]; rfl⟩

/-- A field that decodes has its last byte. -/
theorem closed_of_field {s t : Bytes} {v : UInt64} (h : field s = .ok (v, t)) :
    ∃ b ∈ s, b &&& 0x80 = 0 := by
  refine Classical.byContradiction fun hopen => ?_
  obtain ⟨e, he⟩ := field_open (s := s) fun b hb h0 => hopen ⟨b, hb, h0⟩
  rw [he] at h
  cases h

/-- A prefix of a field and more is an error, or the whole field and a prefix of
the rest. -/
theorem field_prefix {v : UInt64} {s t : Bytes} (h : s <+: vlqEncode v ++ t) :
    (∃ e, field s = .error e) ∨ ∃ s', s = vlqEncode v ++ s' ∧ s' <+: t := by
  rcases List.prefix_or_prefix_of_prefix h (List.prefix_append _ t) with hs | ⟨s', rfl⟩
  · by_cases heq : s = vlqEncode v
    · exact .inr ⟨[], by simp [heq], List.nil_prefix⟩
    · refine .inl (field_open fun b hb => ?_)
      have hlen : s.length < (vlqEncode v).length :=
        Nat.lt_of_le_of_ne hs.length_le fun e => heq (hs.eq_of_length e)
      have hinit : s <+: (vlqEncode v).dropLast := by
        rw [List.dropLast_eq_take]
        exact List.prefix_take_iff.mpr ⟨hs, by omega⟩
      exact vlqEncode_init v b (hinit.subset hb)
  · exact .inr ⟨s', rfl, (List.prefix_append_right_inj _).mp h⟩

/-- A packet cut short lacks part of its header or of its payload. -/
theorem header_prefix {version code : UInt64} {payload s : Bytes}
    (h : s <+: wirePacket version code payload) (hne : s ≠ wirePacket version code payload) :
    (∃ e, header s = .error e) ∨
      ∃ t, header s = .ok (⟨version, code, UInt64.ofNat payload.length⟩, t) ∧
        t.length < payload.length := by
  simp only [wirePacket, List.append_assoc] at h hne
  rcases field_prefix h with ⟨e, he⟩ | ⟨s₁, rfl, h₁⟩
  · exact .inl ⟨e, by simp only [header, he, error_seq]⟩
  rcases field_prefix h₁ with ⟨e, he⟩ | ⟨s₂, rfl, h₂⟩
  · exact .inl ⟨e, by simp only [header, field_vlqEncode, ok_seq, he, error_seq]⟩
  rcases field_prefix h₂ with ⟨e, he⟩ | ⟨s₃, rfl, h₃⟩
  · exact .inl ⟨e, by simp only [header, field_vlqEncode, ok_seq, he, error_seq]⟩
  refine .inr ⟨s₃, by simp only [header, field_vlqEncode, ok_seq]; rfl, ?_⟩
  refine Nat.lt_of_le_of_ne h₃.length_le fun e => hne ?_
  rw [h₃.eq_of_length e]

/-! ## Reading is parsing -/

section ReadFrom

variable {R P : Type} [Read R] {E : Env (IoRes X Y) W} {St : R → W → Bytes → Prop}
  {r : R} {w : W} {s t : Bytes}

/-- The loop stops behind the first byte with a clear high bit; a stream without
one it reads to its end. -/
theorem readNextVlq_go (h : Delivers E St) (hst : St r w s)
    (hend : (∃ b ∈ s, b &&& 0x80 = 0) ∨ DeliversAll E St) (buf : Bytes) :
    Always E (succeeds fun l r' w' => l = buf ++ (splitVlq s).1 ∧ St r' w' (splitVlq s).2)
      (Method.iter readNextVlqTurn buf r) w := by
  -- by induction on the bytes that are left
  induction s generalizing buf r w with
  | nil =>
    have hall : DeliversAll E St := hend.resolve_left (by simp)
    refine always_iter (always_seq_ok (always_mapErr_ok (hall.eof hst Nat.one_pos)) ?_)
    rintro _ r' w' ⟨rfl, hst'⟩
    exact .ret ⟨by simp [splitVlq], hst'⟩
  | cons b s ih =>
    refine always_iter (always_seq_ok (always_mapErr_ok (h.chunk hst (by simp) Nat.one_pos)) ?_)
    rintro c r' w' ⟨s', hs, hc, hlen, hst'⟩
    obtain ⟨b', c, rfl⟩ := List.exists_cons_of_ne_nil hc
    obtain rfl : c = [] := by simpa using hlen
    obtain ⟨rfl, rfl⟩ : b' = b ∧ s' = s := by simpa using hs.symm
    by_cases hb : b' &&& 0x80 = 0
    · simp only [splitVlq, hb, ↓reduceIte]
      exact .ret ⟨rfl, hst'⟩
    · have hend' : (∃ b ∈ s', b &&& 0x80 = 0) ∨ DeliversAll E St := by
        apply hend.imp_left
        rintro ⟨d, hd, h0⟩
        rcases List.mem_cons.mp hd with rfl | hd
        · exact absurd h0 hb
        · exact ⟨d, hd, h0⟩
      simp only [splitVlq, hb, ↓reduceIte]
      refine .ret ((ih hst' hend' (buf ++ [b'])).mono (succeeds_mono ?_))
      rintro l r'' w'' ⟨rfl, hst''⟩
      exact ⟨by simp, hst''⟩

theorem readNextVlq_ok (h : Delivers E St) (hst : St r w s) {v : UInt64}
    (hf : field s = .ok (v, t)) :
    Always E (succeeds fun v' r' w' => v' = v ∧ St r' w' t) (readNextVlq r) w := by
  apply always_seq_ok (readNextVlq_go h hst (.inl (closed_of_field hf)) [])
  rintro l r' w' ⟨rfl, hst'⟩
  rw [List.nil_append]
  rw [field] at hf
  cases hd : vlqDecode (splitVlq s).1 with
  | error e => rw [hd] at hf; cases hf
  | ok v' =>
    rw [hd] at hf
    cases hf
    exact .ret ⟨rfl, hst'⟩

theorem readNextVlq_err (h : DeliversAll E St) (hst : St r w s) {e : IpcError}
    (hf : field s = .error e) :
    Always E (fails fun e' r' w' => e' = e ∧ ∃ t, St r' w' t) (readNextVlq r) w := by
  apply always_seq_ok (readNextVlq_go h.toStreams hst (.inr h) [])
  rintro l r' w' ⟨rfl, hst'⟩
  rw [List.nil_append]
  rw [field] at hf
  cases hd : vlqDecode (splitVlq s).1 with
  | error e' =>
    rw [hd] at hf
    cases hf
    exact .ret ⟨rfl, _, hst'⟩
  | ok v => rw [hd] at hf; cases hf

variable [Allocator] {make : UInt8 → UInt64 → Vec → P}

/-- Behind a header that parses, `readFrom` goes on with the payload. -/
theorem readFrom_payload (h : Delivers E St) (hst : St r w s) {hd : Header}
    (hh : header s = .ok (hd, t)) {Q : Outcome (Except IpcError P × R) → W → Prop}
    (hpay : ∀ r' w', St r' w' t → Always E Q
      ((readPayload hd.length >>= fun payload => pure (make hd.version.toUInt8 hd.code payload)) r')
      w') :
    Always E Q (readFrom make r) w := by
  obtain ⟨t₁, t₂, hf₁, hf₂, hf₃⟩ := fields_of_header hh
  apply always_seq_ok (readNextVlq_ok h hst hf₁)
  rintro _ r₁ w₁ ⟨rfl, hst₁⟩
  apply always_seq_ok (readNextVlq_ok h hst₁ hf₂)
  rintro _ r₂ w₂ ⟨rfl, hst₂⟩
  apply always_seq_ok (readNextVlq_ok h hst₂ hf₃)
  rintro _ r₃ w₃ ⟨rfl, hst₃⟩
  exact hpay r₃ w₃ hst₃

theorem readFrom_ok (h : Delivers E St) (hst : St r w s) {hd : Header}
    (hh : header s = .ok (hd, t)) (hmax : Grants hd.length.toNat)
    (hlen : hd.length.toNat ≤ t.length) :
    Always E (succeeds fun p r' w' =>
      (∃ payload : Vec, payload.bytes = t.take hd.length.toNat ∧
        p = make hd.version.toUInt8 hd.code payload) ∧ St r' w' (t.drop hd.length.toNat))
      (readFrom make r) w := by
  refine readFrom_payload h hst hh fun r' w' hst' => ?_
  rw [readPayload, dif_pos hmax]
  refine always_seq_ok (P := fun payload r' w' => payload.bytes = t.take hd.length.toNat ∧
    St r' w' (t.drop hd.length.toNat)) ?_ ?_
  · apply always_seq_ok (always_mapErr_ok (readExact_ok h hst' hlen))
    rintro l r'' w'' ⟨hl, hst''⟩
    exact .ret ⟨hl, hst''⟩
  · rintro payload r'' w'' ⟨hp, hst''⟩
    exact .ret ⟨⟨payload, hp, rfl⟩, hst''⟩

/-- A stream that ends inside the payload is an error. -/
theorem readFrom_short (h : DeliversAll E St) (hst : St r w s) {hd : Header}
    (hh : header s = .ok (hd, t)) (hmax : Grants hd.length.toNat)
    (hlen : t.length < hd.length.toNat) :
    Always E (fails fun e r' w' => e = .readExactError ∧ St r' w' []) (readFrom make r) w := by
  refine readFrom_payload h.toStreams hst hh fun r' w' hst' => ?_
  rw [readPayload, dif_pos hmax]
  refine always_seq_err (P := fun e r' w' => e = IpcError.readExactError ∧ St r' w' []) ?_
    fun e r'' w'' he => he
  apply always_seq_err (always_mapErr_err (readExact_eof h hst' hlen))
  rintro e r'' w'' ⟨-, rfl, -, hst''⟩
  exact ⟨rfl, hst''⟩

/-- A payload length that is not granted does not let the allocation return. -/
theorem readFrom_oversized (h : Delivers E St) (hst : St r w s) {hd : Header}
    (hh : header s = .ok (hd, t)) (hmax : ¬ Grants hd.length.toNat) :
    Always E panics (readFrom make r) w := by
  refine readFrom_payload h hst hh fun r' w' _ => ?_
  rw [readPayload, dif_neg hmax]
  exact .panic trivial

theorem readFrom_badHeader (h : DeliversAll E St) (hst : St r w s) {e : IpcError}
    (hh : header s = .error e) :
    Always E (fails fun e' r' w' => e' = e ∧ ∃ t, St r' w' t) (readFrom make r) w := by
  rcases fields_of_bad_header hh with hf₁ | ⟨v, t₁, hf₁, hf₂ | ⟨c, t₂, hf₂, hf₃⟩⟩
  · exact always_seq_err (readNextVlq_err h hst hf₁) fun _ _ _ he => he
  · apply always_seq_ok (readNextVlq_ok h.toStreams hst hf₁)
    rintro _ r₁ w₁ ⟨rfl, hst₁⟩
    exact always_seq_err (readNextVlq_err h hst₁ hf₂) fun _ _ _ he => he
  · apply always_seq_ok (readNextVlq_ok h.toStreams hst hf₁)
    rintro _ r₁ w₁ ⟨rfl, hst₁⟩
    apply always_seq_ok (readNextVlq_ok h.toStreams hst₁ hf₂)
    rintro _ r₂ w₂ ⟨rfl, hst₂⟩
    exact always_seq_err (readNextVlq_err h hst₂ hf₃) fun _ _ _ he => he

end ReadFrom

/-! ## What the parser gives -/

section

variable [Allocator]

variable {P : Type}

/-- The packet at the front of `s`, or the error; nothing if the payload is not granted. -/
def parsed (make : UInt8 → UInt64 → Vec → P) (s : Bytes) :
    Option (Except IpcError P) :=
  match header s with
  | .error e => some (.error e)
  | .ok hd =>
    if hmax : Grants hd.1.length.toNat then
      if hlen : hd.1.length.toNat ≤ hd.2.length then
        some (.ok (make hd.1.version.toUInt8 hd.1.code ⟨hd.2.take hd.1.length.toNat,
          by rwa [List.length_take_of_le hlen]⟩))
      else some (.error .readExactError)
    else none

variable {R : Type} [Read R] {E : Env (IoRes X Y) W} {St : R → W → Bytes → Prop}
  {make : UInt8 → UInt64 → Vec → P} {r : R} {w : W} {s t : Bytes} {hd : Header}

theorem parsed_badHeader {e : IpcError} (hh : header s = .error e) :
    parsed make s = some (.error e) := by
  rw [parsed, hh]

theorem parsed_oversized (hh : header s = .ok (hd, t)) (hmax : ¬ Grants hd.length.toNat) :
    parsed make s = none := by
  rw [parsed, hh]
  exact dif_neg hmax

theorem parsed_short (hh : header s = .ok (hd, t)) (hmax : Grants hd.length.toNat)
    (hlen : t.length < hd.length.toNat) : parsed make s = some (.error .readExactError) := by
  rw [parsed, hh]
  simp only [hmax, Nat.not_le.mpr hlen, ↓reduceDIte]

theorem parsed_ok (make : UInt8 → UInt64 → Vec → P) (hh : header s = .ok (hd, t))
    (hmax : Grants hd.length.toNat) (hlen : hd.length.toNat ≤ t.length) : ∃ payload : Vec,
      payload.bytes = t.take hd.length.toNat ∧
      parsed make s = some (.ok (make hd.version.toUInt8 hd.code payload)) := by
  rw [parsed, hh]
  simp only [hmax, hlen, ↓reduceDIte]
  exact ⟨_, rfl, rfl⟩

/-- **The parser is a function of the stream,** however it is delivered. -/
theorem readFrom_parsed (h : DeliversAll E St) (hst : St r w s) :
    Always E (fun o _ => o.result = parsed make s) (readFrom make r) w := by
  cases hh : header s with
  | error e =>
    refine (readFrom_badHeader h hst hh).mono fun o w' ho => ?_
    obtain ⟨_, _, hresult, rfl, -⟩ := result_of_fails ho
    rw [hresult, parsed_badHeader hh]
  | ok hd =>
    by_cases hmax : Grants hd.1.length.toNat
    · by_cases hlen : hd.1.length.toNat ≤ hd.2.length
      · obtain ⟨payload, hpayload, hparsed⟩ := parsed_ok make hh hmax hlen
        refine (readFrom_ok h.toStreams hst hh hmax hlen).mono fun o w' ho => ?_
        obtain ⟨_, _, hresult, ⟨q, hq, rfl⟩, -⟩ := result_of_succeeds ho
        obtain rfl : q = payload := Vec.eq_of_bytes (hq.trans hpayload.symm)
        rw [hresult, hparsed]
      · refine (readFrom_short h hst hh hmax (by omega)).mono fun o w' ho => ?_
        obtain ⟨_, _, hresult, rfl, -⟩ := result_of_fails ho
        rw [hresult, parsed_short hh hmax (by omega)]
    · refine (readFrom_oversized h.toStreams hst hh hmax).mono fun o w' ho => ?_
      rw [result_of_panics ho, parsed_oversized hh hmax]

/-- What holds of every result of the parser is what holds of that one. -/
theorem readFrom_always_iff (hE : E.Answers) (h : DeliversAll E St) (hst : St r w s)
    {Q : Option (Except IpcError P) → Prop} :
    Always E (fun o _ => Q o.result) (readFrom make r) w ↔ Q (parsed make s) := by
  constructor
  · intro hall
    obtain ⟨o, w', -, ho, hparsed⟩ := (hall.and (readFrom_parsed h hst)).exists_ends hE
    exact hparsed ▸ ho
  · exact fun hq => (readFrom_parsed h hst).mono fun o w' ho => ho.symm ▸ hq

/-- Reading a packet keeps what reading bytes keeps. -/
theorem readFrom_keeps {I : W → Prop}
    (h : ∀ n, KeepsWorld E I True (Read.read n : Method (IoRes X Y) ErrorKind R Bytes))
    (make : UInt8 → UInt64 → Vec → P) :
    KeepsWorld E I True (readFrom make : Method (IoRes X Y) _ R P) := by
  have hvlq : KeepsWorld E I True (readNextVlq : Method (IoRes X Y) IpcError R UInt64) := by
    refine keeps_seq (keeps_iter (fun buf => ?_) _) fun _ => keeps_ofExcept _
    refine keeps_seq (keeps_mapErr (h 1) _) fun bs => ?_
    rcases bs with _ | ⟨b, bs⟩
    · exact keeps_pure _
    · simp only
      split <;> exact keeps_pure _
  have hpayload : ∀ len, KeepsWorld E I True
      (readPayload len : Method (IoRes X Y) IpcError R Vec) := by
    intro len
    rw [readPayload]
    split
    · exact keeps_seq (keeps_mapErr (readExact_keeps h _) _) fun _ => keeps_pure _
    · exact keeps_panic fun _ _ => trivial
  exact keeps_seq hvlq fun _ => keeps_seq hvlq fun _ => keeps_seq hvlq fun _ =>
    keeps_seq (hpayload _) fun _ => keeps_pure _

end

/-- Reading a packet is cut short where reading bytes is. -/
theorem readFrom_cuts [Allocator] {R P : Type} {i j : Read R} (h : Read.Cuts i j)
    (make : UInt8 → UInt64 → Vec → P) :
    Method.Cuts (@readFrom X Y _ R P i make) (@readFrom X Y _ R P j make) := by
  have hvlq : Method.Cuts (@readNextVlq X Y R i) (@readNextVlq X Y R j) := by
    refine cuts_seq (cuts_iter (fun buf => ?_) _) fun _ => cuts_refl _
    exact cuts_seq (cuts_mapErr (h X Y 1) _) fun _ => cuts_refl _
  have hpayload : ∀ len, Method.Cuts (@readPayload X Y _ R i len) (@readPayload X Y _ R j len) := by
    intro len
    unfold readPayload
    split
    · exact cuts_seq (cuts_mapErr (readExact_cuts h _) _) fun _ => cuts_refl _
    · exact cuts_panic _
  exact cuts_seq hvlq fun _ => cuts_seq hvlq fun _ => cuts_seq hvlq fun _ =>
    cuts_seq (hpayload _) fun _ => cuts_refl _

/-! ## Numbers of a stream -/

/-- **Numbers are a prefix code.** An encoding decodes to its number whatever follows it, and a
reader takes its bytes and no others; none begins with another. -/
theorem vlq_prefix_code {R : Type} [Read R] {E : Env (IoRes X Y) W} {St : R → W → Bytes → Prop}
    (h : Delivers E St) (v : UInt64) (suffix : Bytes) :
    vlqDecode (vlqEncode v ++ suffix) = .ok v ∧
    (∀ r w, St r w (vlqEncode v ++ suffix) →
      Always E (succeeds fun v' r' w' => v' = v ∧ St r' w' suffix) (readNextVlq r) w) ∧
    ((vlqEncode v).length = max 1 ((v.toNat.size + 6) / 7) ∧ (vlqEncode v).length ≤ 10) ∧
    ∀ u, v ≠ u → ¬ vlqEncode v <+: vlqEncode u ∧ ¬ vlqEncode u <+: vlqEncode v := by
  refine ⟨vlqDecode_vlqEncode v suffix, ?_, ⟨length_vlqEncode v, ?_⟩, ?_⟩
  · exact fun r w hst => readNextVlq_ok h hst (field_vlqEncode v suffix)
  · rw [length_vlqEncode]
    exact vlqLength_le v
  · intro u hne
    exact ⟨fun hp => hne (vlqEncode_prefix_inj hp),
      fun hp => hne (vlqEncode_prefix_inj hp).symm⟩

theorem vlq_prefix_code_three_hundred :
    Always (chunked (X := Unit) (Y := Unit)) (succeeds fun v _ w => v = 300 ∧ w = [7])
      (readNextVlq Source.mk) [0xAC, 0x02, 7] ∧
    (vlqEncode 300).length = 2 ∧ ¬ vlqEncode 300 <+: vlqEncode 44 := by
  obtain ⟨-, hread, ⟨hlen, -⟩, hpre⟩ :=
    vlq_prefix_code (Source.deliversAll (X := Unit) (Y := Unit)).toStreams 300 [7]
  have hbytes : vlqEncode 300 = [0xAC, 0x02] := by decide +kernel
  rw [hbytes] at hread
  exact ⟨hread Source.mk _ rfl, hlen, (hpre 44 (by decide)).1⟩

/-! ## Packets end to end -/

/-- Run a method `k` times and collect the results. -/
def readEach {Op : Type} {Res : Op → Type} {ε S α : Type} (x : Method Res ε S α) :
    Nat → Method Res ε S (List α)
  | 0 => pure []
  | k + 1 => do
    let p ← x
    let ps ← readEach x k
    return p :: ps

theorem readEach_ok {Op : Type} {Res : Op → Type} {ε S α : Type} {E : Env Res W}
    {x : Method Res ε S α} (St : S → W → Bytes → Prop) (serialize : α → Bytes)
    (hx : ∀ p rest s w, St s w (serialize p ++ rest) →
      Always E (succeeds fun q s' w' => q = p ∧ St s' w' rest) (x s) w)
    (ps : List α) {rest : Bytes} {s : S} {w : W} (hst : St s w (ps.flatMap serialize ++ rest)) :
    Always E (succeeds fun qs s' w' => qs = ps ∧ St s' w' rest) (readEach x ps.length s) w := by
  induction ps generalizing s w with
  | nil => exact .ret ⟨rfl, hst⟩
  | cons p ps ih =>
    rw [List.flatMap_cons, List.append_assoc] at hst
    apply always_seq_ok (hx p _ s w hst)
    rintro _ s' w' ⟨rfl, hst'⟩
    apply always_seq_ok (ih hst')
    rintro _ s'' w'' ⟨rfl, hst''⟩
    exact .ret ⟨rfl, hst''⟩

/-- The packets that `read` reads are a self-delimiting code. -/
structure SelfDelimiting {R P : Type} (E : Env (IoRes X Y) W) (St : R → W → Bytes → Prop)
    (serialize : P → Bytes) (read : Method (IoRes X Y) IpcError R P) : Prop where
  /-- Packets laid end to end are read back, and what follows them is left. -/
  whole : ∀ (ps : List P) (rest : Bytes) (r : R) (w : W), St r w (ps.flatMap serialize ++ rest) →
    Always E (succeeds fun qs r' w' => qs = ps ∧ St r' w' rest) (readEach read ps.length r) w
  /-- A stream that ends inside a packet is an error. -/
  cut : ∀ (p : P) (s : Bytes) (r : R) (w : W), s <+: serialize p → s ≠ serialize p → St r w s →
    Always E (fails fun _ _ _ => True) (read r) w

theorem Vec.toNat_length [Allocator] (v : Vec) :
    (UInt64.ofNat v.bytes.length).toNat = v.bytes.length := by
  have := v.length_le
  rw [UInt64.toNat_ofNat', Nat.mod_eq_of_lt]
  simp only [isizeMax] at this
  omega

section

variable [Allocator] {R P : Type} [Read R] {E : Env (IoRes X Y) W} {St : R → W → Bytes → Prop}
  (make : UInt8 → UInt64 → Vec → P)

theorem readFrom_wirePacket (h : Delivers E St) {version code : UInt64} {payload : Vec}
    {rest : Bytes} {r : R} {w : W} (hst : St r w (wirePacket version code payload.bytes ++ rest)) :
    Always E (succeeds fun p r' w' => p = make version.toUInt8 code payload ∧ St r' w' rest)
      (readFrom make r) w := by
  have hlen := payload.toNat_length
  refine (readFrom_ok h hst (header_wirePacket _ _ _ _) (by rw [hlen]; exact payload.granted)
    (by rw [hlen]; simp)).mono (succeeds_mono ?_)
  rintro p r' w' ⟨⟨q, hq, rfl⟩, hst'⟩
  simp only [hlen, List.take_left, List.drop_left] at hq hst'
  obtain rfl : q = payload := Vec.eq_of_bytes hq
  exact ⟨rfl, hst'⟩

theorem readFrom_cut (h : DeliversAll E St) {version code : UInt64} {payload : Vec} {s : Bytes}
    (hs : s <+: wirePacket version code payload.bytes)
    (hne : s ≠ wirePacket version code payload.bytes) {r : R} {w : W} (hst : St r w s) :
    Always E (fails fun _ _ _ => True) (readFrom make r) w := by
  have hlen := payload.toNat_length
  rcases header_prefix hs hne with ⟨e, he⟩ | ⟨t, ht, hshort⟩
  · exact (readFrom_badHeader h hst he).mono (fails_mono fun _ _ _ _ => trivial)
  · exact (readFrom_short h hst ht (by rw [hlen]; exact payload.granted)
      (by rw [hlen]; exact hshort)).mono (fails_mono fun _ _ _ _ => trivial)

theorem RequestPacket.readFrom_serialize (h : Delivers E St) (p : RequestPacket) (rest : Bytes)
    (r : R) (w : W) (hst : St r w (p.serialize ++ rest)) :
    Always E (succeeds fun q r' w' => q = p ∧ St r' w' rest) (RequestPacket.readFrom r) w := by
  refine (readFrom_wirePacket RequestPacket.mk h hst).mono (succeeds_mono ?_)
  rintro _ r' w' ⟨rfl, hst'⟩
  exact ⟨by simp, hst'⟩

theorem ResponsePacket.readFrom_serialize (h : Delivers E St) (p : ResponsePacket) (rest : Bytes)
    (r : R) (w : W) (hst : St r w (p.serialize ++ rest)) :
    Always E (succeeds fun q r' w' => q = p ∧ St r' w' rest) (ResponsePacket.readFrom r) w := by
  refine (readFrom_wirePacket ResponsePacket.mk h hst).mono (succeeds_mono ?_)
  rintro _ r' w' ⟨rfl, hst'⟩
  exact ⟨by simp, hst'⟩

theorem RequestPacket.selfDelimiting (h : DeliversAll E St) :
    SelfDelimiting E St RequestPacket.serialize RequestPacket.readFrom where
  whole ps _ _ _ hst :=
    readEach_ok St RequestPacket.serialize (RequestPacket.readFrom_serialize h.toStreams) ps hst
  cut _ _ _ _ hs hne hst := readFrom_cut RequestPacket.mk h hs hne hst

theorem ResponsePacket.selfDelimiting (h : DeliversAll E St) :
    SelfDelimiting E St ResponsePacket.serialize ResponsePacket.readFrom where
  whole ps _ _ _ hst :=
    readEach_ok St ResponsePacket.serialize (ResponsePacket.readFrom_serialize h.toStreams) ps hst
  cut _ _ _ _ hs hne hst := readFrom_cut ResponsePacket.mk h hs hne hst

end

/-- **Packets are a self-delimiting code**, over a bare reader and over a buffered one of any
capacity, however the stream is cut into chunks. -/
theorem packets_self_delimiting [Allocator] :
    (SelfDelimiting (chunked (X := X) (Y := Y)) Source.view
        RequestPacket.serialize RequestPacket.readFrom ∧
      SelfDelimiting (chunked (X := X) (Y := Y)) Source.view
        ResponsePacket.serialize ResponsePacket.readFrom) ∧
    SelfDelimiting (chunked (X := X) (Y := Y)) (BufReader.view Source.view)
        RequestPacket.serialize RequestPacket.readFrom ∧
      SelfDelimiting (chunked (X := X) (Y := Y)) (BufReader.view Source.view)
        ResponsePacket.serialize ResponsePacket.readFrom :=
  have hsource := Source.deliversAll (X := X) (Y := Y)
  have hbuffered := BufReader.deliversAll hsource
  ⟨⟨RequestPacket.selfDelimiting hsource, ResponsePacket.selfDelimiting hsource⟩,
    RequestPacket.selfDelimiting hbuffered, ResponsePacket.selfDelimiting hbuffered⟩

/-! ## Panics of the parser -/

section

variable [Allocator]

/-- The header announces a payload larger than the allocator grants. -/
def OversizedPayload (s : Bytes) : Prop :=
  match header s with
  | .ok hd => ¬ Grants hd.1.length.toNat
  | .error _ => False

theorem oversizedPayload_iff {s t : Bytes} {hd : Header} (h : header s = .ok (hd, t)) :
    OversizedPayload s ↔ ¬ Grants hd.length.toNat := by
  rw [OversizedPayload, h]

instance (s : Bytes) : Decidable (OversizedPayload s) :=
  match h : header s with
  | .ok _ => decidable_of_decidable_of_iff (oversizedPayload_iff h).symm
  | .error _ => .isFalse (by simp [OversizedPayload, h])

theorem parsed_isSome_iff {P : Type} (make : UInt8 → UInt64 → Vec → P) {s : Bytes} :
    (parsed make s).isSome ↔ ¬ OversizedPayload s := by
  cases hh : header s with
  | error e => simp [parsed_badHeader hh, OversizedPayload, hh]
  | ok hd =>
    rw [oversizedPayload_iff hh]
    by_cases hmax : Grants hd.1.length.toNat
    · by_cases hlen : hd.1.length.toNat ≤ hd.2.length
      · obtain ⟨payload, -, hparsed⟩ := parsed_ok make hh hmax hlen
        simp [hparsed, hmax]
      · simp [parsed_short hh hmax (Nat.lt_of_not_le hlen), hmax]
    · simp [parsed_oversized hh hmax, hmax]

theorem readFrom_returns_iff {R P : Type} [Read R] (make : UInt8 → UInt64 → Vec → P)
    {E : Env (IoRes X Y) W} (hE : E.Answers) {St : R → W → Bytes → Prop} (h : DeliversAll E St)
    {s : Bytes} {r : R} {w : W} (hst : St r w s) :
    Always E (returns fun _ _ => True) (readFrom make r) w ↔ ¬ OversizedPayload s := by
  rw [← parsed_isSome_iff make,
    ← readFrom_always_iff hE h hst (Q := fun result => result.isSome)]
  exact ⟨fun hret => hret.mono fun _ _ => returns_iff_result.mp,
    fun hret => hret.mono fun _ _ => returns_iff_result.mpr⟩

end

/-- Version 0, method id 0 and the payload length `2 ^ 63`. -/
def hugeLength : Bytes := [0, 0, 0x80, 0x80, 0x80, 0x80, 0x80, 0x80, 0x80, 0x80, 0x80, 0x01]

theorem hugeLength_oversized [Allocator] : OversizedPayload hugeLength := by
  have hheader : header hugeLength = .ok (⟨0, 0, 0x8000000000000000⟩, []) := rfl
  rw [oversizedPayload_iff hheader]
  exact fun hgrants => absurd (Allocator.le_isizeMax _ hgrants) (by decide)

theorem field_version {s t t' : Bytes} {hd : Header} {version : UInt64}
    (hh : header s = .ok (hd, t)) (hf : field s = .ok (version, t')) : version = hd.version := by
  obtain ⟨t₁, _, hf₁, -, -⟩ := fields_of_header hh
  rw [hf] at hf₁
  cases hf₁
  rfl

section

variable [Allocator]

/-- Version, method id and payload of a request. -/
def RequestPacket.fields (p : RequestPacket) : UInt8 × UInt64 × Vec :=
  (p.version, p.methodId, p.payload)

/-- Version, error code and payload of a response. -/
def ResponsePacket.fields (p : ResponsePacket) : UInt8 × UInt64 × Vec :=
  (p.version, p.errorCode, p.payload)

/-- Nothing of the header of `s` got lost: a packet has the numbers of its header, and a
version that is larger than the version field is an error. -/
structure Unnarrowed {P : Type} (fields : P → UInt8 × UInt64 × Vec) (s : Bytes)
    (result : Option (Except IpcError P)) : Prop where
  kept : ∀ p, result = some (.ok p) → ∃ hd t, header s = .ok (hd, t) ∧
    (fields p).1.toNat = hd.version.toNat ∧ (fields p).2.1.toNat = hd.code.toNat ∧
    (fields p).2.2.bytes.length = hd.length.toNat
  rejected : ∀ version t, field s = .ok (version, t) → 256 ≤ version.toNat →
    ∃ e, result = some (.error e)

/-- A header field does not decode, or the stream ends inside a payload that is granted. -/
def Incomplete (s : Bytes) : Prop :=
  match header s with
  | .ok hd => Grants hd.1.length.toNat ∧ hd.2.length < hd.1.length.toNat
  | .error _ => True

/-- The version fits the version field, or there is no packet to be read anyway. -/
def VersionFits (s : Bytes) : Prop :=
  ∀ version t, field s = .ok (version, t) → 256 ≤ version.toNat → Incomplete s

theorem versionFits_iff {s t : Bytes} {hd : Header} (hh : header s = .ok (hd, t)) :
    VersionFits s ↔
      hd.version.toNat < 256 ∨ Grants hd.length.toNat ∧ t.length < hd.length.toNat := by
  simp only [VersionFits, Incomplete, hh]
  constructor
  · intro hfits
    obtain ⟨t₁, _, hf, -, -⟩ := fields_of_header hh
    exact (Nat.lt_or_ge hd.version.toNat 256).imp_right fun hv => hfits _ _ hf hv
  · rintro (hv | hcut) version t' hf hv'
    · rw [field_version hh hf] at hv'
      omega
    · exact hcut

section

variable {P : Type} {make : UInt8 → UInt64 → Vec → P} {fields : P → UInt8 × UInt64 × Vec}
  {s t : Bytes} {hd : Header}

theorem unnarrowed_error (e : IpcError) : Unnarrowed fields s (some (.error e)) where
  kept := by rintro p ⟨⟩
  rejected := fun _ _ _ _ => ⟨e, rfl⟩

/-- Where there is no error, the version is small. -/
theorem Unnarrowed.version_lt {result : Option (Except IpcError P)}
    (h : Unnarrowed fields s result) (hh : header s = .ok (hd, t))
    (hne : ∀ e, result ≠ some (.error e)) : hd.version.toNat < 256 := by
  obtain ⟨t₁, _, hf, -, -⟩ := fields_of_header hh
  refine Nat.lt_of_not_le fun hv => ?_
  obtain ⟨e, he⟩ := h.rejected _ _ hf hv
  exact hne e he

theorem unnarrowed_of_lt {result : Option (Except IpcError P)} (hh : header s = .ok (hd, t))
    (hv : hd.version.toNat < 256)
    (hkept : ∀ p, result = some (.ok p) → (fields p).1.toNat = hd.version.toNat ∧
      (fields p).2.1.toNat = hd.code.toNat ∧ (fields p).2.2.bytes.length = hd.length.toNat) :
    Unnarrowed fields s result where
  kept p hp := ⟨hd, t, hh, hkept p hp⟩
  rejected version t' hf hv' := by
    rw [field_version hh hf] at hv'
    omega

theorem parsed_unnarrowed_iff (hfields : ∀ v c p, fields (make v c p) = (v, c, p)) :
    Unnarrowed fields s (parsed make s) ↔ VersionFits s := by
  cases hh : header s with
  | error e =>
    rw [parsed_badHeader hh]
    exact ⟨fun _ _ _ _ _ => by simp only [Incomplete, hh], fun _ => unnarrowed_error e⟩
  | ok hd =>
    rw [versionFits_iff hh]
    by_cases hmax : Grants hd.1.length.toNat
    · by_cases hlen : hd.1.length.toNat ≤ hd.2.length
      · obtain ⟨payload, hpayload, hparsed⟩ := parsed_ok make hh hmax hlen
        rw [hparsed]
        refine ⟨fun h => .inl (h.version_lt hh (by rintro e ⟨⟩)), fun hfits => ?_⟩
        have hv : hd.1.version.toNat < 256 := by omega
        refine unnarrowed_of_lt hh hv ?_
        rintro _ ⟨⟩
        simp only [hfields, hpayload, List.length_take, UInt64.toNat_toUInt8]
        exact ⟨Nat.mod_eq_of_lt hv, trivial, Nat.min_eq_left hlen⟩
      · rw [parsed_short hh hmax (Nat.lt_of_not_le hlen)]
        exact ⟨fun _ => .inr ⟨hmax, Nat.lt_of_not_le hlen⟩, fun _ => unnarrowed_error _⟩
    · rw [parsed_oversized hh hmax]
      refine ⟨fun h => .inl (h.version_lt hh (by rintro e ⟨⟩)), fun hfits => ?_⟩
      exact unnarrowed_of_lt hh (hfits.resolve_right fun hcut => hmax hcut.1) (by rintro p ⟨⟩)

end

end

section

attribute [local instance] Allocator.ample

/-- Version 256, method id or error code 0 and no payload. -/
def version256 : Bytes := [0x80, 0x02, 0, 0]

end

end CkbScriptIpc
