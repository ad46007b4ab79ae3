import CkbScriptIpc.Csi.Packet

/-!
# One wire format

The C and the Rust library read and write the same packets:
`csi_speaks_wire_format`.
-/

namespace CkbScriptIpc

open Interaction

variable {X Y W R V A : Type}

/-- The packet has these fields, and its payload is in the memory. -/
structure CSIPacket.Carries (p : CSIPacket) (m : Memory) (version code : UInt64) (payload : Bytes) :
    Prop where
  version : p.version = version
  code : p.code = code
  payloadLen : p.payloadLen = UInt64.ofNat payload.length
  payload : load m p.payload payload.length = payload

section

variable [Allocator]

/-- A packet is sent in the wire format. -/
theorem csiSend_wire {E : Env (CsiRes X Y) W} {St : W → Bytes → Prop} (h : Takes E St) {w : W}
    {o : Bytes} (hst : St w o) {s : CSI R CSIBuffer A} (hempty : s.writer.filledLen = 0)
    {p : CSIPacket}
    {version code : UInt64} {payload : Vec} (hp : p.Carries s.memory version code payload.bytes)
    (sendError : CSIErrorCode) :
    Always E (succeeds fun _ _ w' => St w' (o ++ wirePacket version code payload.bytes))
      (csiSend sendError p s) w := by
  have hs : s.writer.filledLen ≤ s.writer.maxLen := by omega
  have hnil := CSIBuffer.filled_empty hempty
  have hload : load s.memory p.payload p.payloadLen.toNat = payload.bytes := by
    rw [hp.payloadLen, payload.toNat_length, hp.payload]
  refine (csiSend_full h hst hs sendError p).mono (succeeds_mono ?_)
  rintro _ _ w' ⟨b, -, -, hst'⟩
  rwa [hnil, List.append_nil, hload, hp.version, hp.code] at hst'

/-- A packet of the wire format is received, and what follows it stays unread. -/
theorem csiReceive_wire [CSIRead R] [PayloadAllocator A] {E : Env (CsiRes X Y) W}
    {St : R → W → Bytes → Prop} (h : Streams CSIRead.read E St) {s : CSI R V A} {p : CSIPacket}
    {version code : UInt64} {payload : Vec} {rest : Bytes} {w : W}
    (hst : St s.reader w (wirePacket version code payload.bytes ++ rest))
    (hint : payload.bytes.length < 2 ^ 31) (hplace : Placeable payload.bytes.length s.allocator) :
    Always E (succeeds fun _ x w' => x.2.Carries x.1.memory version code payload.bytes ∧
      St x.1.reader w' rest) (csiReceive (s, p)) w := by
  have hlen := payload.toNat_length
  have hok := csiReceive_ok (p := p) h hst (header_wirePacket version code payload.bytes rest)
    (by simp [hlen]) (by simpa [hlen] using hint) (by simpa [hlen] using hplace)
  refine hok.mono (succeeds_mono ?_)
  rintro _ _ w' ⟨r, m, rfl, hst', hload⟩
  simp only [hlen, List.drop_left, List.take_left] at hst' hload
  exact ⟨⟨rfl, rfl, rfl, by simpa [hlen] using hload⟩, hst'⟩

/-- **One wire format.** The C library writes what the Rust library serializes, and
reads it back. -/
theorem csi_speaks_wire_format [PayloadAllocator A] (version : UInt8) (code : UInt64)
    (payload : Vec) (hint : payload.bytes.length < 2 ^ 31) :
    (∀ (W : Type) (E : Env (CsiRes X Y) W) (out : W → Bytes), FullWriter E out →
      ∀ (s : CSI R CSIBuffer A) (p : CSIPacket) (w : W), s.writer.filledLen = 0 →
      p.Carries s.memory version.toUInt64 code payload.bytes →
      Always E (succeeds fun _ _ w' =>
          out w' = out w ++ (RequestPacket.mk version code payload).serialize)
        (csiSendRequest p s) w ∧
      Always E (succeeds fun _ _ w' =>
          out w' = out w ++ (ResponsePacket.mk version code payload).serialize)
        (csiSendResponse p s) w) ∧
    ∀ (W : Type) (E : Env (CsiRes X Y) W) (St : W → Bytes → Prop), Feeds E St →
      ∀ (s : CSI CSIBuffer V A) (p : CSIPacket) (rest : Bytes) (w : W),
      Placeable payload.bytes.length s.allocator →
      (CSIBuffer.view St s.reader w ((RequestPacket.mk version code payload).serialize ++ rest) →
        Always E (succeeds fun _ x w' =>
          x.2.Carries x.1.memory version.toUInt64 code payload.bytes ∧
            CSIBuffer.view St x.1.reader w' rest) (csiReceiveRequest (s, p)) w) ∧
      (CSIBuffer.view St s.reader w ((ResponsePacket.mk version code payload).serialize ++ rest) →
        Always E (succeeds fun _ x w' =>
          x.2.Carries x.1.memory version.toUInt64 code payload.bytes ∧
            CSIBuffer.view St x.1.reader w' rest) (csiReceiveResponse (s, p)) w) := by
  constructor
  · intro W E out h s p w hempty hp
    exact ⟨csiSend_wire h.takes rfl hempty hp _, csiSend_wire h.takes rfl hempty hp _⟩
  · intro W E St h s p rest w hplace
    have hstreams := CSIBuffer.streams h
    exact ⟨fun hst => csiReceive_wire hstreams hst hint hplace,
      fun hst => csiReceive_wire hstreams hst hint hplace⟩

end

/-- Two empty buffers of four bytes, two payload blocks, and a 7 at address 16. -/
def smallCsi : CSI CSIBuffer CSIBuffer FixedAllocator where
  reader := ⟨0, 0, 4, fun _ => 0⟩
  writer := ⟨0, 0, 4, fun _ => 0⟩
  allocator := ⟨0, 2, 1024, 4096⟩
  memory := store (fun _ => 0) 16 [7]

section

attribute [local instance] Allocator.ample

theorem smallCsi_speaks_wire_format :
    Always (collecting : Env (CsiRes Unit Unit) Bytes) (succeeds fun _ _ w' => w' = [1, 5, 1, 7])
      (csiSendRequest ⟨1, 5, 1, 16⟩ smallCsi) [] ∧
    Always (chunked : Env (CsiRes Unit Unit) Bytes)
      (succeeds fun _ x w' => x.2.Carries x.1.memory 1 5 [7] ∧
        CSIBuffer.view (· = ·) x.1.reader w' [9])
      (csiReceiveRequest (smallCsi, ⟨0, 0, 0, 0⟩)) [1, 5, 1, 7, 9] := by
  have hwire := @csi_speaks_wire_format Unit Unit CSIBuffer CSIBuffer FixedAllocator _ _ 1 5
    ⟨[7], by decide⟩ (by decide)
  have hbytes : (RequestPacket.mk 1 5 ⟨[7], by decide⟩).serialize = [1, 5, 1, 7] := by
    decide +kernel
  constructor
  · have hsend := (hwire.1 Bytes collecting id collecting_full smallCsi ⟨1, 5, 1, 16⟩ [] rfl
      ⟨rfl, rfl, rfl, rfl⟩).1
    refine hsend.mono (succeeds_mono ?_)
    rintro _ _ w' hout
    rwa [hbytes] at hout
  · apply (hwire.2 Bytes chunked (· = ·) chunked_feeds smallCsi ⟨0, 0, 0, 0⟩ [9] _ _).1
    · rw [hbytes]
      exact ⟨⟨Nat.le_refl _, by decide, by decide⟩, _, rfl, rfl⟩
    · exact fun _ => by decide +kernel

end

end CkbScriptIpc
