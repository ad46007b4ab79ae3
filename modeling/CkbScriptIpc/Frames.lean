import CkbScriptIpc.Packet

/-!
# The packets of a byte stream

What a byte stream means as a sequence of packets: the complete packets at its
start (`framesIn`) and what is left behind them (`leftover`). A byte list that is
one packet whatever follows it is a `IsFrame`.

* `framesIn_flatten`: frames laid end to end come apart again;
* `framesIn_append`: what has arrived stays when more does;
* `framesIn_prefix`: a prefix of serialized packets holds some of them, from the
  first on.
-/

namespace CkbScriptIpc

open Interaction

/-- A packet as it stands in a stream. -/
structure Frame where
  header : Header
  payload : Bytes
  deriving DecidableEq, Repr

/-- The first packet of a stream, if it is complete, and what follows. -/
def takeFrame (s : Bytes) : Option (Frame × Bytes) :=
  match header s with
  | .ok (hd, t) =>
    if hd.length.toNat ≤ t.length then
      some (⟨hd, t.take hd.length.toNat⟩, t.drop hd.length.toNat)
    else none
  | .error _ => none

theorem takeFrame_eq_some {s t : Bytes} {f : Frame} (h : takeFrame s = some (f, t)) :
    header s = .ok (f.header, f.payload ++ t) ∧ f.payload.length = f.header.length.toNat := by
  rw [takeFrame] at h
  cases hh : header s with
  | error e => rw [hh] at h; cases h
  | ok p =>
    rw [hh] at h
    simp only [Option.ite_none_right_eq_some] at h
    obtain ⟨hle, h⟩ := h
    cases h
    exact ⟨by rw [List.take_append_drop], List.length_take_of_le hle⟩

/-- A field that decodes is its bytes, whatever follows them. -/
theorem field_split {s t : Bytes} {v : UInt64} (h : field s = .ok (v, t)) :
    ∃ q, s = q ++ t ∧ ∀ x, field (q ++ x) = .ok (v, x) := by
  have hclosed := closed_of_field h
  rw [field] at h
  cases hd : vlqDecode (splitVlq s).1 with
  | error e => rw [hd] at h; cases h
  | ok v' =>
    rw [hd] at h
    cases h
    refine ⟨(splitVlq s).1, (splitVlq_append s).symm, fun x => ?_⟩
    rw [field, splitVlq_self hclosed, hd]
    rfl

/-- A field takes at least one byte. -/
theorem field_length {s t : Bytes} {v : UInt64} (h : field s = .ok (v, t)) :
    t.length < s.length := by
  obtain ⟨q, rfl, hq⟩ := field_split h
  have hne : q ≠ [] := by
    rintro rfl
    cases hq []
  have hpos := List.length_pos_iff.mpr hne
  rw [List.length_append]
  omega

theorem header_length {s t : Bytes} {hd : Header} (h : header s = .ok (hd, t)) :
    t.length < s.length := by
  obtain ⟨t₁, t₂, hf₁, hf₂, hf₃⟩ := fields_of_header h
  exact Nat.lt_trans (field_length hf₃) (Nat.lt_trans (field_length hf₂) (field_length hf₁))

theorem takeFrame_length {s t : Bytes} {f : Frame} (h : takeFrame s = some (f, t)) :
    t.length < s.length := by
  have hlen := header_length (takeFrame_eq_some h).1
  rw [List.length_append] at hlen
  omega

/-- The complete packets at the start of a stream, and what is left behind them. -/
def splitFrames (s : Bytes) : List Frame × Bytes :=
  match _h : takeFrame s with
  | some (f, t) => (f :: (splitFrames t).1, (splitFrames t).2)
  | none => ([], s)
termination_by s.length
decreasing_by all_goals exact takeFrame_length _h

def framesIn (s : Bytes) : List Frame := (splitFrames s).1

def leftover (s : Bytes) : Bytes := (splitFrames s).2

theorem splitFrames_some {s t : Bytes} {f : Frame} (h : takeFrame s = some (f, t)) :
    splitFrames s = (f :: framesIn t, leftover t) := by
  rw [splitFrames]
  split
  · rename_i h'
    rw [h] at h'
    cases h'
    rfl
  · rename_i h'
    rw [h] at h'
    cases h'

theorem splitFrames_none {s : Bytes} (h : takeFrame s = none) : splitFrames s = ([], s) := by
  rw [splitFrames]
  split
  · rename_i h'
    rw [h] at h'
    cases h'
  · rfl

theorem splitFrames_nil : splitFrames [] = ([], []) := splitFrames_none rfl

/-- `c` is one complete packet, whatever follows it. -/
def IsFrame (c : Bytes) (f : Frame) : Prop := ∀ x, takeFrame (c ++ x) = some (f, x)

theorem splitFrames_append {c : Bytes} {f : Frame} (h : IsFrame c f) (x : Bytes) :
    splitFrames (c ++ x) = (f :: framesIn x, leftover x) := splitFrames_some (h x)

/-- Frames laid end to end come apart again. -/
theorem splitFrames_flatten {cs : List (Bytes × Frame)} (h : ∀ c ∈ cs, IsFrame c.1 c.2)
    (x : Bytes) :
    splitFrames ((cs.map Prod.fst).flatten ++ x) = (cs.map Prod.snd ++ framesIn x, leftover x) := by
  induction cs with
  | nil => rfl
  | cons c cs ih =>
    rw [List.map_cons, List.flatten_cons, List.append_assoc, splitFrames_append (h c (by simp)),
      framesIn, leftover, ih fun c' hc' => h c' (by simp [hc'])]
    rfl

/-- The first packet of a stream is its bytes, whatever follows them. -/
theorem takeFrame_split {s t : Bytes} {f : Frame} (h : takeFrame s = some (f, t)) :
    ∃ c, s = c ++ t ∧ IsFrame c f := by
  obtain ⟨hh, hlen⟩ := takeFrame_eq_some h
  obtain ⟨t₁, t₂, hf₁, hf₂, hf₃⟩ := fields_of_header hh
  obtain ⟨q₁, rfl, hq₁⟩ := field_split hf₁
  obtain ⟨q₂, rfl, hq₂⟩ := field_split hf₂
  obtain ⟨q₃, rfl, hq₃⟩ := field_split hf₃
  refine ⟨q₁ ++ (q₂ ++ (q₃ ++ f.payload)), by simp, fun x => ?_⟩
  have hheader :
      header (q₁ ++ (q₂ ++ (q₃ ++ f.payload)) ++ x) = .ok (f.header, f.payload ++ x) := by
    simp only [header, List.append_assoc, hq₁, hq₂, hq₃, ok_seq]
    rfl
  rw [takeFrame, hheader]
  simp [← hlen]

/-- What a stream holds it still holds when more arrives. -/
theorem framesIn_append (s x : Bytes) : framesIn s <+: framesIn (s ++ x) := by
  induction hn : s.length using Nat.strongRecOn generalizing s with
  | ind n ih =>
    cases hs : takeFrame s with
    | none => simp [framesIn, splitFrames_none hs]
    | some p =>
      obtain ⟨c, rfl, hc⟩ := takeFrame_split hs
      have hlt := takeFrame_length hs
      rw [List.append_assoc, framesIn, framesIn, splitFrames_append hc, splitFrames_append hc]
      exact List.cons_prefix_cons.mpr ⟨rfl, ih p.2.length (by omega) p.2 rfl⟩

/-! ## Serialized packets -/

/-- The frame that a serialized packet is. -/
def wireFrame (version code : UInt64) (payload : Bytes) : Frame :=
  ⟨⟨version, code, UInt64.ofNat payload.length⟩, payload⟩

section

variable [Allocator]

theorem isFrame_wirePacket (version code : UInt64) (payload : Vec) :
    IsFrame (wirePacket version code payload.bytes) (wireFrame version code payload.bytes) := by
  intro x
  rw [takeFrame, header_wirePacket]
  simp [wireFrame, payload.toNat_length]

/-- A packet cut short is no frame. -/
theorem takeFrame_cut {version code : UInt64} {payload : Vec} {s : Bytes}
    (h : s <+: wirePacket version code payload.bytes)
    (hne : s ≠ wirePacket version code payload.bytes) : takeFrame s = none := by
  rcases header_prefix h hne with ⟨e, he⟩ | ⟨t, ht, hlt⟩
  · rw [takeFrame, he]
  · rw [takeFrame, ht]
    simp only [payload.toNat_length, Nat.not_le.mpr hlt, ↓reduceIte]

def ResponsePacket.frame (p : ResponsePacket) : Frame :=
  wireFrame p.version.toUInt64 p.errorCode p.payload.bytes

/-- A prefix of serialized packets holds some of them, from the first on. -/
theorem framesIn_prefix {ps : List ResponsePacket} {s : Bytes}
    (h : s <+: ps.flatMap ResponsePacket.serialize) :
    framesIn s <+: ps.map ResponsePacket.frame := by
  induction ps generalizing s with
  | nil =>
    obtain rfl : s = [] := List.prefix_nil.mp h
    rw [framesIn, splitFrames_nil]
    exact List.nil_prefix
  | cons p ps ih =>
    rw [List.flatMap_cons] at h
    have hframe : IsFrame p.serialize p.frame := isFrame_wirePacket _ _ _
    rcases List.prefix_or_prefix_of_prefix h (List.prefix_append _ _) with hs | ⟨t, rfl⟩
    · by_cases heq : s = p.serialize
      · rw [framesIn, heq, ← List.append_nil p.serialize, splitFrames_append hframe, framesIn,
          splitFrames_nil]
        exact List.prefix_append [p.frame] _
      · rw [framesIn, splitFrames_none (takeFrame_cut hs heq)]
        exact List.nil_prefix
    · rw [framesIn, splitFrames_append hframe]
      exact List.cons_prefix_cons.mpr ⟨rfl, ih ((List.prefix_append_right_inj _).mp h)⟩

end

/-! ## What a read packet was -/

section

variable {X Y W R P : Type} [Read R] {E : Env (IoRes X Y) W} {I : W → Prop}
  {St : R → W → Bytes → Prop} {r : R} {w : W} {c : Bytes}

/-- The bytes of a field that has been read are that field, whatever follows. -/
theorem readNextVlq_tracks (h : Tracks E I St) (hst : St r w c) :
    Safely E I (settles (fun v r' w' => ∃ b, (∀ x, field (b ++ x) = .ok (v, x)) ∧ St r' w' (c ++ b))
      fun _ r' w' => ∃ b, St r' w' (c ++ b)) (readNextVlq r) w := by
  have hloop : Safely E I (settles
      (fun l r' w' => St r' w' (c ++ l) ∧
        ((∀ b ∈ l, b &&& 0x80 ≠ 0) ∨ ∀ x, splitVlq (l ++ x) = (l, x)))
      fun _ r' w' => ∃ b, St r' w' (c ++ b)) (Method.iter readNextVlqTurn [] r) w := by
    refine safely_iter_settles (fun buf r w => St r w (c ++ buf) ∧ ∀ b ∈ buf, b &&& 0x80 ≠ 0) ?_
      ⟨by simpa using hst, by simp⟩
    rintro buf r w ⟨hst, hopen⟩
    refine safely_seq_settles (safely_mapErr_settles
      ((h.read hst).settles_mono (fun _ _ _ _ hp => hp) fun _ r' w' _ hf => ⟨buf, hf⟩)) ?_
      fun _ _ _ hf => hf
    rintro bs r' w' ⟨hlen, hst'⟩
    rcases bs with _ | ⟨b, bs⟩
    · exact safely_ret (h.inv hst') ⟨by simpa using hst', .inl hopen⟩
    · obtain rfl : bs = [] := by simpa using hlen
      rw [List.append_assoc] at hst'
      by_cases hb : b &&& 0x80 = 0
      · simp only [hb, ↓reduceIte]
        exact safely_ret (h.inv hst') ⟨hst', .inr (splitVlq_closed hopen hb)⟩
      · simp only [hb, ↓reduceIte]
        refine safely_ret (h.inv hst') ⟨hst', ?_⟩
        simp only [List.mem_append, List.mem_singleton]
        rintro d (hd | rfl)
        · exact hopen d hd
        · exact hb
  refine safely_seq_settles hloop ?_ fun _ _ _ hf => hf
  rintro l r' w' ⟨hst', hl⟩
  cases hd : vlqDecode l with
  | error e => exact safely_ret (h.inv hst') ⟨l, hst'⟩
  | ok v =>
    refine safely_ret (h.inv hst') ⟨l, fun x => ?_, hst'⟩
    rcases hl with hopen | hsplit
    · obtain ⟨e, he⟩ := vlqDecode_open hopen
      rw [hd] at he
      cases he
    · rw [field, hsplit, hd]
      rfl

variable [Allocator]

/-- The bytes of a packet that has been read are one frame. -/
theorem readFrom_tracks (make : UInt8 → UInt64 → Vec → P) (h : Tracks E I St) (hst : St r w c) :
    Safely E I (settles (fun p r' w' => ∃ b f payload, IsFrame b f ∧ payload.bytes = f.payload ∧
        p = make f.header.version.toUInt8 f.header.code payload ∧ St r' w' (c ++ b))
      fun _ r' w' => ∃ b, St r' w' (c ++ b)) (readFrom make r) w := by
  refine safely_seq_settles (readNextVlq_tracks h hst) ?_ fun _ _ _ hf => hf
  rintro version r₁ w₁ ⟨b₁, hb₁, hst₁⟩
  refine safely_seq_settles ((readNextVlq_tracks h hst₁).settles_mono (fun _ _ _ _ hp => hp) ?_) ?_
    fun _ _ _ hf => hf
  · rintro _ r' w' - ⟨b, hst'⟩
    exact ⟨b₁ ++ b, by rwa [← List.append_assoc]⟩
  rintro code r₂ w₂ ⟨b₂, hb₂, hst₂⟩
  refine safely_seq_settles ((readNextVlq_tracks h hst₂).settles_mono (fun _ _ _ _ hp => hp) ?_) ?_
    fun _ _ _ hf => hf
  · rintro _ r' w' - ⟨b, hst'⟩
    exact ⟨b₁ ++ (b₂ ++ b), by simpa only [List.append_assoc] using hst'⟩
  rintro len r₃ w₃ ⟨b₃, hb₃, hst₃⟩
  have hheader : ∀ x, header (b₁ ++ (b₂ ++ b₃) ++ x) = .ok (⟨version, code, len⟩, x) := by
    intro x
    simp only [header, List.append_assoc, hb₁, hb₂, hb₃, ok_seq]
    rfl
  have hst₃' : St r₃ w₃ (c ++ (b₁ ++ (b₂ ++ b₃))) := by simpa only [List.append_assoc] using hst₃
  refine safely_seq_settles (P := fun payload r' w' => payload.bytes.length = len.toNat ∧
      St r' w' (c ++ (b₁ ++ (b₂ ++ b₃) ++ payload.bytes)))
    (F := fun _ r' w' => ∃ b, St r' w' (c ++ b)) ?_ ?_ fun _ _ _ hf => hf
  · rw [readPayload]
    split
    · refine safely_seq_settles (safely_mapErr_settles (readExact_tracks h hst₃')) ?_ ?_
      · rintro l r' w' hst'
        exact safely_ret (h.inv hst') ⟨l.2, by rwa [← List.append_assoc]⟩
      · rintro _ r' w' ⟨b, hst'⟩
        exact ⟨b₁ ++ (b₂ ++ b₃) ++ b, by rwa [← List.append_assoc]⟩
    · exact safely_panic (h.inv hst₃) trivial
  · rintro payload r' w' ⟨hlen, hst'⟩
    refine safely_ret (h.inv hst') ⟨_, ⟨⟨version, code, len⟩, payload.bytes⟩, payload, ?_, rfl, rfl,
      hst'⟩
    intro x
    rw [takeFrame, List.append_assoc, hheader]
    simp [← hlen]

end

end CkbScriptIpc
