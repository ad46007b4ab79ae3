import CkbScriptIpc.Channel

/-!
# What a client receives

`receive_response` and `receive_json_response` on a response packet of any peer.
`receive_survives_iff`: they return exactly on the error codes that
`ProtocolErrorCode` names.
-/

namespace CkbScriptIpc

open Interaction

variable {X Y W : Type}

theorem view_source {r : BufReader Source} {w s : Bytes} :
    BufReader.view Source.view r w s ↔ r.buf ++ w = s := by
  constructor
  · rintro ⟨t, rfl, rfl⟩
    rfl
  · rintro rfl
    exact ⟨w, rfl, rfl⟩

section

variable [Allocator]

namespace Channel

section

variable {R V Resp : Type} [Read R] {E : Env (IoRes X Y) W} {St : R → W → Bytes → Prop}
  {s : Channel R V} {w : W} {version code : UInt64} {payload : Vec} {rest : Bytes}
  {c : ProtocolErrorCode}

/-- A packet of any peer reaches the check of its error code. -/
theorem receivePacket_read (h : Delivers E St)
    (hst : BufReader.view St s.reader w (wirePacket version code payload.bytes ++ rest)) :
    Always E (succeeds fun p s' w' => p = ⟨version.toUInt8, code, payload⟩ ∧
      s'.writer = s.writer ∧ BufReader.view St s'.reader w' rest)
      (onReader ResponsePacket.readFrom s) w := by
  refine (onReader_ok (readFrom_wirePacket ResponsePacket.mk (BufReader.delivers h) hst)).mono
    (succeeds_mono ?_)
  rintro p _ w' ⟨r, ⟨rfl, hst'⟩, rfl⟩
  exact ⟨rfl, rfl, hst'⟩

theorem receivePacket_ok (h : Delivers E St)
    (hst : BufReader.view St s.reader w (wirePacket version code payload.bytes ++ rest))
    (hc : ProtocolErrorCode.n code = some .ok) :
    Always E (succeeds fun p s' w' => p = ⟨version.toUInt8, code, payload⟩ ∧
      s'.writer = s.writer ∧ BufReader.view St s'.reader w' rest) (receivePacket s) w := by
  apply always_seq_ok (receivePacket_read h hst)
  rintro _ s' w' ⟨rfl, hwriter, hst'⟩
  simp only [ProtocolErrorCode.ofU64, hc]
  exact .ret ⟨rfl, hwriter, hst'⟩

theorem receivePacket_error (h : Delivers E St)
    (hst : BufReader.view St s.reader w (wirePacket version code payload.bytes ++ rest))
    (hc : ProtocolErrorCode.n code = some c) (hne : c ≠ .ok) :
    Always E (fails fun e s' w' => e = .protocolError c ∧ s'.writer = s.writer ∧
      BufReader.view St s'.reader w' rest) (receivePacket s) w := by
  apply always_seq_ok (receivePacket_read h hst)
  rintro _ s' w' ⟨rfl, hwriter, hst'⟩
  simp only [ProtocolErrorCode.ofU64, hc]
  cases c <;> first | exact absurd rfl hne | exact .ret ⟨rfl, hwriter, hst'⟩

/-- A code without a variant panics in `From<u64>`. -/
theorem receivePacket_unknown (h : Delivers E St)
    (hst : BufReader.view St s.reader w (wirePacket version code payload.bytes ++ rest))
    (hc : ProtocolErrorCode.n code = none) :
    Always E panics (receivePacket s) w := by
  apply always_seq_ok (receivePacket_read h hst)
  rintro _ s' w' ⟨rfl, -, -⟩
  simp only [ProtocolErrorCode.ofU64, hc]
  exact .panic trivial

end

end Channel

/-- The call returns, has consumed the one packet, and a non-zero error code is an
error. -/
def SurvivesPacket {α : Type} (code : UInt64) (rest : Bytes) :
    Outcome (Except IpcError α × Channel Source Sink) → Bytes → Prop :=
  returns fun r w => r.2.reader.buf ++ w = rest ∧ (code ≠ 0 → ∃ c, r.1 = .error (.protocolError c))

/-- The client survives every response packet with this error code, on both of its
receive paths. -/
def SurvivesCode (Resp : Type) [Serde Resp] (code : UInt64) : Prop :=
  ∀ (version : UInt64) (payload : Vec) (rest : Bytes) (s : Channel Source Sink) (w : Bytes),
    s.reader.buf ++ w = wirePacket version code payload.bytes ++ rest →
    Always (chunked (X := Unit) (Y := Unit)) (SurvivesPacket code rest)
        ((Channel.receiveResponse : Method _ _ _ Resp) s) w ∧
      Always (chunked (X := Unit) (Y := Unit)) (SurvivesPacket code rest)
        (Channel.receiveJsonResponse s) w

variable {Resp : Type} [Serde Resp] {code : UInt64}

theorem survives_ok (hc : ProtocolErrorCode.n code = some .ok) : SurvivesCode Resp code := by
  intro version payload rest s w hst
  obtain rfl : code = 0 := by rw [← ProtocolErrorCode.toU64_of_n hc]; rfl
  have hread := Channel.receivePacket_ok (Source.deliversAll (X := Unit) (Y := Unit)).toStreams
    (view_source.mpr hst) hc
  constructor
  · apply always_seq_ok hread
    rintro _ s' w' ⟨rfl, -, hst'⟩
    simp only
    cases Serde.fromSlice (T := Resp) payload.bytes <;>
      exact .ret ⟨view_source.mp hst', fun h => absurd rfl h⟩
  · apply always_seq_ok hread
    rintro _ s' w' ⟨rfl, -, hst'⟩
    exact .ret ⟨view_source.mp hst', fun h => absurd rfl h⟩

theorem survives_error {c : ProtocolErrorCode} (hc : ProtocolErrorCode.n code = some c)
    (hne : c ≠ .ok) : SurvivesCode Resp code := by
  intro version payload rest s w hst
  have hread := Channel.receivePacket_error (Source.deliversAll (X := Unit) (Y := Unit)).toStreams
    (view_source.mpr hst) hc hne
  constructor
  · apply always_seq_err hread
    rintro _ s' w' ⟨rfl, -, hst'⟩
    exact ⟨view_source.mp hst', fun _ => ⟨c, rfl⟩⟩
  · apply always_seq_err hread
    rintro _ s' w' ⟨rfl, -, hst'⟩
    exact ⟨view_source.mp hst', fun _ => ⟨c, rfl⟩⟩

/-- A code that `ProtocolErrorCode` does not name brings the client down. -/
theorem panics_unknown (hc : ProtocolErrorCode.n code = none) : ¬ SurvivesCode Resp code := by
  intro h
  have hst : [] ++ wirePacket 0 code Vec.empty.bytes = wirePacket 0 code Vec.empty.bytes ++ [] :=
    (List.append_nil _).symm
  obtain ⟨hsurvives, -⟩ := h 0 Vec.empty [] (Channel.new 0 ⟨⟩ ⟨⟩) _ hst
  have hpanics : Always (chunked (X := Unit) (Y := Unit)) panics
      ((Channel.receiveResponse : Method _ _ _ Resp) (Channel.new 0 Source.mk Sink.mk))
      (wirePacket 0 code Vec.empty.bytes) :=
    always_seq_panic (Channel.receivePacket_unknown
      (Source.deliversAll (X := Unit) (Y := Unit)).toStreams (view_source.mpr hst) hc)
      fun _ => trivial
  obtain ⟨o, w', -, ho, ho'⟩ := (hsurvives.and hpanics).exists_ends chunked_answers
  cases o
  · exact ho'
  · exact ho

/-- **The client survives exactly the codes that have a variant**: 0 to 9 and 20 to 29. -/
theorem receive_survives_iff (Resp : Type) [Serde Resp] (code : UInt64) :
    SurvivesCode Resp code ↔ code.toNat ≤ 9 ∨ 20 ≤ code.toNat ∧ code.toNat ≤ 29 := by
  rw [← ProtocolErrorCode.n_isSome]
  cases hc : ProtocolErrorCode.n code with
  | none => exact iff_of_false (panics_unknown hc) (by simp)
  | some c =>
    refine iff_of_true ?_ rfl
    by_cases hne : c = .ok
    · exact survives_ok (hne ▸ hc)
    · exact survives_error hc hne

end

/-- The C library's `CSI_ERROR_INTERNAL`, 50, has no variant. -/
theorem receive_panics_on_fifty : ¬ ∃ _ : Allocator, SurvivesCode Vec 50 :=
  fun ⟨_, h⟩ => panics_unknown (by decide) h

end CkbScriptIpc
