import CkbScriptIpc.Csi.Call

/-!
# The C library: what a call returns

`csi_call` returns the 64-bit error code of the response as an `int`. It should say
success exactly when the response does.

* `csiCall_complete`: with a complete response, every call returns the low half of the code;
* `csiCall_truthful_iff`: that is right unless the code is not 0 and its low half is.
-/

namespace CkbScriptIpc

open Interaction

/-- The conversion to an `int` keeps the low 32 bits. -/
theorem toInt32_eq_zero_iff (code : UInt64) :
    code.toInt64.toInt32 = 0 ↔ code.toNat % 2 ^ 32 = 0 := by
  have hbits : code.toInt64.toInt32.toBitVec = code.toBitVec.setWidth 32 :=
    BitVec.signExtend_eq_setWidth_of_le _ (by decide)
  rw [← Int32.toBitVec_inj, hbits, ← BitVec.toNat_inj, BitVec.toNat_setWidth]
  rfl

/-- Whatever a client asks for is answered. -/
theorem client_answers : client.Answers := by
  intro w op hpre
  cases hsteady : w.steady with
  | false =>
    cases op with
    | read n =>
      refine ⟨.ok [], w, ?_⟩
      simp only [client, hsteady]
      exact ⟨by rintro c ⟨⟩; exact Nat.zero_le _, trivial⟩
    | write bs => exact ⟨.ok 0, w, by simp [client, hsteady]⟩
    | flush => exact ⟨.ok (), w, by simp [client, hsteady]⟩
    | ext x => exact hpre.elim
  | true =>
    cases op with
    | read n =>
      cases hinput : w.input with
      | nil =>
        refine ⟨.error CSIErrorCode.internal.toCode, w, ?_⟩
        simp only [client, hsteady, ↓reduceIte]
        exact .inl ⟨hinput, ⟨_, rfl⟩, trivial⟩
      | cons b t =>
        refine ⟨.ok [b], { w with input := t }, ?_⟩
        simp only [client, hsteady, ↓reduceIte]
        exact .inr ⟨[b], by simp, hpre, hinput, rfl, trivial⟩
    | write bs =>
      refine ⟨.ok bs.length, { w with sent := w.sent ++ bs }, ?_⟩
      simp only [client, hsteady, ↓reduceIte]
      exact ⟨rfl, trivial⟩
    | flush =>
      refine ⟨.ok (), w, ?_⟩
      simp only [client, hsteady, ↓reduceIte]
      exact ⟨rfl, trivial⟩
    | ext x => exact hpre.elim

section

variable {A : Type} [PayloadAllocator A] {c : CSI CSIBuffer CSIBuffer A} {p : CSIPacket}
  {w : Client} {hd : Header}

/-- The request can be sent, and the response that comes back is complete, with the header
`hd`, and finds a place for its payload. -/
structure Completes (hd : Header) (c : CSI CSIBuffer CSIBuffer A) (w : Client) : Prop
    extends Responds hd c w where
  payload : ∀ t, CkbScriptIpc.header (c.reader.unread ++ w.input) = .ok (hd, t) →
    hd.length.toNat ≤ t.length
  placeable : Placeable hd.length.toNat c.allocator

omit [PayloadAllocator A] in
/-- What `csi_call` makes of the response that it has received. -/
theorem csiCall_returns (x : CSI CSIBuffer CSIBuffer A × CSIPacket) (v : Client) :
    Always client (fun o _ => ∃ r x', o = .ret (r, x') ∧
      (r = .ok () ↔ x.2.code.toNat % 2 ^ 32 = 0)) ((do
        let s ← Method.get
        let err := s.2.code.toInt64.toInt32
        if h : err = 0 then return () else Method.throw ⟨err, h⟩ :
          Method ServerRes Code (CSI CSIBuffer CSIBuffer A × CSIPacket) Unit) x) v := by
  rw [get_seq, ← toInt32_eq_zero_iff]
  by_cases hzero : x.2.code.toInt64.toInt32 = 0
  · simp only [hzero, ↓reduceDIte]
    exact .ret ⟨_, _, rfl, by simp⟩
  · simp only [hzero, ↓reduceDIte]
    exact .ret ⟨_, _, rfl, by simp⟩

/-- **With a complete response** every call comes back, and with 0 exactly when the low half
of the error code is 0. -/
theorem csiCall_complete (h : Completes hd c w) (request : CSIPacket) :
    Always client (fun o _ => ∃ r x, o = .ret (r, x) ∧
      (r = .ok () ↔ hd.code.toNat % 2 ^ 32 = 0)) (csiCall request (c, p)) w := by
  obtain ⟨t, hheader⟩ := h.header
  apply always_seq_ok (always_zoom_ok (csiSendRequest_steady h.steady h.writer request))
  rintro _ _ w₀ ⟨_, ⟨⟨b, rfl⟩, hsteady, hinput⟩, rfl⟩
  have hview : CSIBuffer.view (fun (w : Client) t => w.steady = true ∧ w.input = t) c.reader w₀
      (c.reader.unread ++ w.input) := ⟨h.reader, w₀.input, by rw [hinput], hsteady, rfl⟩
  apply always_seq_ok (csiReceive_complete (s := { c with writer := b })
    (CSIBuffer.streams client_feeds) hview hheader (h.payload t hheader) h.placeable)
  rintro _ x w₁ hcode
  rw [← hcode]
  exact csiCall_returns x w₁

/-- `csi_call` tells success from failure: every call comes back, and it returns 0 if and
only if the error code of the response is 0. -/
def CallTruthful (code : UInt64) (request : CSIPacket) (c : CSI CSIBuffer CSIBuffer A)
    (p : CSIPacket) (w : Client) : Prop :=
  Always client (fun o _ => ∃ r x, o = .ret (r, x) ∧ (r = .ok () ↔ code = 0))
    (csiCall request (c, p)) w

/-- **Success is told from failure** exactly for the code 0 and the codes whose low half is
not 0. -/
theorem csiCall_truthful_iff (h : Completes hd c w) (request : CSIPacket) :
    CallTruthful hd.code request c p w ↔ hd.code = 0 ∨ hd.code.toNat % 2 ^ 32 ≠ 0 := by
  have hcall := csiCall_complete (p := p) h request
  have hzero : hd.code = 0 → hd.code.toNat % 2 ^ 32 = 0 := fun h0 => by rw [h0]; rfl
  constructor
  · intro htruth
    obtain ⟨o, v, -, ⟨r, x, rfl, hr⟩, r', x', he, hr'⟩ :=
      (Always.and htruth hcall).exists_ends client_answers
    cases he
    by_cases hlow : hd.code.toNat % 2 ^ 32 = 0
    · exact .inl (hr.mp (hr'.mpr hlow))
    · exact .inr hlow
  · intro hcode
    refine hcall.mono ?_
    rintro o v ⟨r, x, rfl, hr⟩
    refine ⟨r, x, rfl, hr.trans ⟨fun hlow => ?_, hzero⟩⟩
    exact hcode.resolve_right fun hne => hne hlow

end

/-! ## A failure that looks like success -/

/-- A client that waits for a response without payload. -/
def awaitingResponse (response : Bytes) : Client := ⟨response, [], true⟩

theorem awaitingResponse_completes {response t : Bytes} {version code : UInt64}
    (h : header response = .ok (⟨version, code, 0⟩, t)) :
    Completes ⟨version, code, 0⟩ freshClient (awaitingResponse response) where
  steady := rfl
  reader := ⟨by decide, by decide, by decide⟩
  writer := by decide
  header := ⟨t, h⟩
  payload _ _ := Nat.zero_le _
  placeable := placeable_zero _

/-- A response with the code 5. -/
theorem code_five_fails :
    CallTruthful 5 ⟨0, 0, 0, 0⟩ freshClient ⟨0, 0, 0, 0⟩ (awaitingResponse [0, 5, 0]) := by
  have hcompletes : Completes ⟨0, 5, 0⟩ freshClient (awaitingResponse [0, 5, 0]) :=
    awaitingResponse_completes (t := []) (by decide +kernel)
  exact (csiCall_truthful_iff hcompletes _).mpr (by decide)

/-- Version 0, the error code `2 ^ 32` and no payload. -/
def highCode : Bytes := [0, 0x80, 0x80, 0x80, 0x80, 0x10, 0]

/-- It is received, and every call returns 0. -/
theorem high_code_succeeds :
    Completes ⟨0, 4294967296, 0⟩ freshClient (awaitingResponse highCode) ∧
      Always client (fun o _ => ∃ x, o = .ret (.ok (), x))
        (csiCall ⟨0, 0, 0, 0⟩ (freshClient, ⟨0, 0, 0, 0⟩)) (awaitingResponse highCode) ∧
      ¬ CallTruthful 4294967296 ⟨0, 0, 0, 0⟩ freshClient ⟨0, 0, 0, 0⟩
        (awaitingResponse highCode) := by
  have hcompletes : Completes ⟨0, 4294967296, 0⟩ freshClient (awaitingResponse highCode) :=
    awaitingResponse_completes (t := []) (by decide +kernel)
  have hzero : (4294967296 : UInt64).toNat % 2 ^ 32 = 0 := by decide
  have hcall := csiCall_complete (p := ⟨0, 0, 0, 0⟩) hcompletes ⟨0, 0, 0, 0⟩
  have hsucceeds : Always client (fun o _ => ∃ x, o = .ret (.ok (), x))
      (csiCall ⟨0, 0, 0, 0⟩ (freshClient, ⟨0, 0, 0, 0⟩)) (awaitingResponse highCode) := by
    refine hcall.mono ?_
    rintro o v ⟨r, x, rfl, hr⟩
    exact ⟨x, by rw [hr.mpr hzero]⟩
  refine ⟨hcompletes, hsucceeds, fun htruth => ?_⟩
  obtain ⟨o, v, -, ⟨r, x, rfl, hr⟩, y, he⟩ :=
    (Always.and htruth hsucceeds).exists_ends client_answers
  cases he
  exact absurd (hr.mp rfl) (by decide)

end CkbScriptIpc
