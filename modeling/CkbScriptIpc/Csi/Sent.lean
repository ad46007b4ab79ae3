import CkbScriptIpc.Csi.Codec
import CkbScriptIpc.Frames

/-!
# What was sent

A byte stream as its sender means it: a number is the value of its VLQ sequence, whatever a
decoder makes of it. As long as no number of a header needs more than 64 bits, the packets are
those that the decoders find.

* `Sent.packets_append`: what has been sent stays when more is;
* `Sent.takeFrame_packet`, `Sent.packet_takeFrame`: the sender and the decoders agree.
-/

namespace CkbScriptIpc

open Interaction

namespace Sent

/-! ## Numbers -/

/-- A VLQ sequence of at most ten bytes starts the stream. -/
def StartsWithVlq (s : Bytes) : Prop :=
  (∃ b ∈ s, b &&& 0x80 = 0) ∧ (splitVlq s).1.length ≤ 10

instance (s : Bytes) : Decidable (StartsWithVlq s) := inferInstanceAs (Decidable (_ ∧ _))

/-- The number at the start of a stream, if it has 64 bits, and what follows. -/
def number (s : Bytes) : Option (UInt64 × Bytes) :=
  if StartsWithVlq s ∧ vlqValue (splitVlq s).1 < 2 ^ 64 then
    some (UInt64.ofNat (vlqValue (splitVlq s).1), (splitVlq s).2)
  else none

/-- The stream starts with a number that needs more. -/
def NumberTooLarge (s : Bytes) : Prop := StartsWithVlq s ∧ 2 ^ 64 ≤ vlqValue (splitVlq s).1

instance (s : Bytes) : Decidable (NumberTooLarge s) := inferInstanceAs (Decidable (_ ∧ _))

section

variable {s t q : Bytes} {b : UInt8} {v : UInt64}

theorem startsWithVlq_short (hlen : q.length < maxVlqLen) (hq : ∀ d ∈ q, d &&& 0x80 ≠ 0)
    (hb : b &&& 0x80 = 0) (t : Bytes) : StartsWithVlq (q ++ b :: t) := by
  refine ⟨⟨b, by simp, hb⟩, ?_⟩
  rw [splitVlq_short hq hb, List.length_append]
  exact hlen

/-- Up to nine bytes ask for more, and then one does not. -/
theorem StartsWithVlq.shape (h : StartsWithVlq s) : ∃ q b t, s = q ++ b :: t ∧
    q.length < maxVlqLen ∧ (∀ d ∈ q, d &&& 0x80 ≠ 0) ∧ b &&& 0x80 = 0 := by
  obtain ⟨⟨d, hd, hlast⟩, hlen⟩ := h
  rcases field_shapes maxVlqLen s with ⟨-, hopen⟩ | hshort | ⟨q, b, t, rfl, hten, hq⟩
  · exact absurd hlast (hopen d hd)
  · exact hshort
  · have hlong := length_splitVlq_long (t := t) (b := b) hq
    rw [hten] at hlong
    exact absurd hlen (Nat.not_le.mpr hlong)

theorem number_short (hlen : q.length < maxVlqLen) (hq : ∀ d ∈ q, d &&& 0x80 ≠ 0)
    (hb : b &&& 0x80 = 0) (t : Bytes) : number (q ++ b :: t) =
      if vlqValue (q ++ [b]) < 2 ^ 64 then some (UInt64.ofNat (vlqValue (q ++ [b])), t)
      else none := by
  simp only [number, startsWithVlq_short hlen hq hb t, splitVlq_short hq hb, true_and]

/-- The decoders make of a sequence its value, cut to 64 bits. -/
theorem field_short_value (hlen : q.length < maxVlqLen) (hq : ∀ d ∈ q, d &&& 0x80 ≠ 0)
    (hb : b &&& 0x80 = 0) (t : Bytes) :
    field (q ++ b :: t) = .ok (UInt64.ofNat (vlqValue (q ++ [b])), t) := by
  rw [field, splitVlq_short hq hb, vlqDecode_value hlen hq hb []]
  rfl

/-- A number is a sequence of at most ten bytes. -/
theorem number_shape (h : number s = some (v, t)) : ∃ q b, s = q ++ b :: t ∧
    q.length < maxVlqLen ∧ (∀ d ∈ q, d &&& 0x80 ≠ 0) ∧ b &&& 0x80 = 0 ∧
    vlqValue (q ++ [b]) < 2 ^ 64 ∧ v = UInt64.ofNat (vlqValue (q ++ [b])) := by
  have hstarts : StartsWithVlq s := by
    by_contra hnot
    rw [number, if_neg fun h => hnot h.1] at h
    cases h
  obtain ⟨q, b, t', rfl, hlen, hq, hb⟩ := hstarts.shape
  rw [number_short hlen hq hb, Option.ite_none_right_eq_some] at h
  obtain ⟨hfit, h⟩ := h
  cases h
  exact ⟨q, b, rfl, hlen, hq, hb, hfit, rfl⟩

/-- It is its bytes, whatever follows them. -/
theorem number_split (h : number s = some (v, t)) :
    ∃ q, s = q ++ t ∧ ∀ x, number (q ++ x) = some (v, x) := by
  obtain ⟨q, b, rfl, hlen, hq, hb, hfit, rfl⟩ := number_shape h
  refine ⟨q ++ [b], by simp, fun x => ?_⟩
  rw [List.append_assoc, List.singleton_append, number_short hlen hq hb, if_pos hfit]

/-- A number is decoded. -/
theorem field_number (h : number s = some (v, t)) : field s = .ok (v, t) := by
  obtain ⟨q, b, rfl, hlen, hq, hb, -, rfl⟩ := number_shape h
  exact field_short_value hlen hq hb t

/-- What is decoded is the number, unless this is too large. -/
theorem number_field (h : field s = .ok (v, t)) (hfit : ¬ NumberTooLarge s) :
    number s = some (v, t) := by
  obtain ⟨q, b, rfl, hlen, hq, hb, -⟩ := shape_of_field h
  have hvalue : vlqValue (q ++ [b]) < 2 ^ 64 := by
    rw [NumberTooLarge, splitVlq_short hq hb] at hfit
    exact Nat.not_le.mp fun hle => hfit ⟨startsWithVlq_short hlen hq hb t, hle⟩
  rw [field_short_value hlen hq hb] at h
  cases h
  rw [number_short hlen hq hb, if_pos hvalue]

end

/-! ## Packets -/

/-- The numbers in front of a packet, and what follows. -/
def header (s : Bytes) : Option (Header × Bytes) := do
  let version ← number s
  let code ← number version.2
  let length ← number code.2
  return (⟨version.1, code.1, length.1⟩, length.2)

/-- The packet at the start of a stream, if it is complete, and what follows. -/
def packet (s : Bytes) : Option (Frame × Bytes) := do
  let hd ← header s
  if hd.1.length.toNat ≤ hd.2.length then
    some (⟨hd.1, hd.2.take hd.1.length.toNat⟩, hd.2.drop hd.1.length.toNat)
  else none

/-- One of the first `n` numbers of a stream is too large. -/
def TooLarge : Nat → Bytes → Prop
  | 0, _ => False
  | n + 1, s => NumberTooLarge s ∨ ∃ p ∈ number s, TooLarge n p.2

instance decidableTooLarge : (n : Nat) → (s : Bytes) → Decidable (TooLarge n s)
  | 0, _ => .isFalse id
  | n + 1, s =>
    match h : number s with
    | some p =>
      have := decidableTooLarge n p.2
      decidable_of_iff (NumberTooLarge s ∨ TooLarge n p.2) (by simp [TooLarge, h])
    | none => decidable_of_iff (NumberTooLarge s) (by simp [TooLarge, h])

/-- A number in front of a packet is too large. -/
abbrev HeaderTooLarge (s : Bytes) : Prop := TooLarge 3 s

section

variable {s t : Bytes} {f : Frame} {hd : Header}

theorem header_eq_some (h : header s = some (hd, t)) : ∃ t₁ t₂, number s = some (hd.version, t₁) ∧
    number t₁ = some (hd.code, t₂) ∧ number t₂ = some (hd.length, t) := by
  simp only [header, Option.bind_eq_bind, Option.bind_eq_some_iff] at h
  obtain ⟨⟨v, t₁⟩, hv, ⟨c, t₂⟩, hc, ⟨l, t₃⟩, hl, h⟩ := h
  cases h
  exact ⟨t₁, t₂, hv, hc, hl⟩

theorem header_of_numbers {t₁ t₂ : Bytes} (hv : number s = some (hd.version, t₁))
    (hc : number t₁ = some (hd.code, t₂)) (hl : number t₂ = some (hd.length, t)) :
    header s = some (hd, t) := by
  simp only [header, hv, hc, hl, Option.bind_eq_bind, Option.bind_some]
  rfl

theorem packet_eq_some (h : packet s = some (f, t)) :
    header s = some (f.header, f.payload ++ t) ∧ f.payload.length = f.header.length.toNat := by
  simp only [packet, Option.bind_eq_bind, Option.bind_eq_some_iff,
    Option.ite_none_right_eq_some] at h
  obtain ⟨⟨hd, t'⟩, hh, hle, h⟩ := h
  cases h
  exact ⟨by rw [List.take_append_drop]; exact hh, List.length_take_of_le hle⟩

theorem packet_of_header (hh : header s = some (f.header, f.payload ++ t))
    (hlen : f.payload.length = f.header.length.toNat) : packet s = some (f, t) := by
  simp [packet, hh, ← hlen]

/-- A packet is its bytes, whatever follows them. -/
theorem packet_split (h : packet s = some (f, t)) :
    ∃ c, s = c ++ t ∧ ∀ x, packet (c ++ x) = some (f, x) := by
  obtain ⟨hh, hlen⟩ := packet_eq_some h
  obtain ⟨t₁, t₂, hv, hc, hl⟩ := header_eq_some hh
  obtain ⟨q₁, rfl, hq₁⟩ := number_split hv
  obtain ⟨q₂, rfl, hq₂⟩ := number_split hc
  obtain ⟨q₃, rfl, hq₃⟩ := number_split hl
  refine ⟨q₁ ++ (q₂ ++ (q₃ ++ f.payload)), by simp, fun x => packet_of_header ?_ hlen⟩
  simp only [List.append_assoc]
  exact header_of_numbers (hq₁ _) (hq₂ _) (hq₃ _)

/-- A packet that was sent is found. -/
theorem takeFrame_packet (h : packet s = some (f, t)) : takeFrame s = some (f, t) := by
  obtain ⟨hh, hlen⟩ := packet_eq_some h
  obtain ⟨t₁, t₂, hv, hc, hl⟩ := header_eq_some hh
  have hheader : CkbScriptIpc.header s = .ok (f.header, f.payload ++ t) := by
    simp only [CkbScriptIpc.header, field_number hv, field_number hc, field_number hl, ok_seq]
    rfl
  rw [takeFrame, hheader]
  simp [← hlen]

/-- What is decoded are the numbers, unless one of them is too large. -/
theorem header_decoded (h : CkbScriptIpc.header s = .ok (hd, t)) (hfit : ¬ HeaderTooLarge s) :
    header s = some (hd, t) := by
  obtain ⟨t₁, t₂, hf₁, hf₂, hf₃⟩ := fields_of_header h
  simp only [HeaderTooLarge, TooLarge, not_or] at hfit
  obtain ⟨hfit₁, hfit⟩ := hfit
  have hv := number_field hf₁ hfit₁
  simp only [hv, Option.mem_def, Option.some.injEq, exists_eq_left', not_or] at hfit
  have hc := number_field hf₂ hfit.1
  simp only [hc, Option.some.injEq, exists_eq_left', not_or] at hfit
  exact header_of_numbers hv hc (number_field hf₃ hfit.2.1)

/-- What is found was sent, unless a number in front of it is too large. -/
theorem packet_takeFrame (h : takeFrame s = some (f, t)) (hfit : ¬ HeaderTooLarge s) :
    packet s = some (f, t) := by
  obtain ⟨hh, hlen⟩ := takeFrame_eq_some h
  exact packet_of_header (header_decoded hh hfit) hlen

theorem packet_length (h : packet s = some (f, t)) : t.length < s.length :=
  takeFrame_length (takeFrame_packet h)

end

/-- The complete packets at the start of a stream, and what is left behind them. -/
def split (s : Bytes) : List Frame × Bytes :=
  match _h : packet s with
  | some (f, t) => (f :: (split t).1, (split t).2)
  | none => ([], s)
termination_by s.length
decreasing_by all_goals exact packet_length _h

def packets (s : Bytes) : List Frame := (split s).1

def rest (s : Bytes) : Bytes := (split s).2

theorem split_some {s t : Bytes} {f : Frame} (h : packet s = some (f, t)) :
    split s = (f :: packets t, rest t) := by
  rw [split]
  split
  · rename_i h'
    rw [h] at h'
    cases h'
    rfl
  · rename_i h'
    rw [h] at h'
    cases h'

theorem split_none {s : Bytes} (h : packet s = none) : split s = ([], s) := by
  rw [split]
  split
  · rename_i h'
    rw [h] at h'
    cases h'
  · rfl

theorem packets_some {s t : Bytes} {f : Frame} (h : packet s = some (f, t)) :
    packets s = f :: packets t := by
  rw [packets, split_some h]

theorem rest_some {s t : Bytes} {f : Frame} (h : packet s = some (f, t)) : rest s = rest t := by
  rw [rest, split_some h]

theorem packets_none {s : Bytes} (h : packet s = none) : packets s = [] := by
  rw [packets, split_none h]

theorem rest_none {s : Bytes} (h : packet s = none) : rest s = s := by
  rw [rest, split_none h]

/-- What has been sent stays when more is. -/
theorem packets_append (s x : Bytes) : packets s <+: packets (s ++ x) := by
  induction hn : s.length using Nat.strongRecOn generalizing s with
  | ind n ih =>
    cases hs : packet s with
    | none =>
      rw [packets_none hs]
      exact List.nil_prefix
    | some p =>
      obtain ⟨f, t⟩ := p
      have hlt := packet_length hs
      obtain ⟨c, rfl, hc⟩ := packet_split hs
      rw [List.append_assoc, packets_some (hc _), packets_some (hc _)]
      exact List.cons_prefix_cons.mpr ⟨rfl, ih t.length (by omega) t rfl⟩

end Sent

end CkbScriptIpc
