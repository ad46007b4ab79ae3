import CkbScriptIpc.Csi.Server
import CkbScriptIpc.Csi.Call
import CkbScriptIpc.Csi.Iobuf
import CkbScriptIpc.Interaction.Pacing

/-!
# The C library: whole conversations

A client that makes one `csi_call` after another and `csi_run_server` at the other end, over
pipes that cut the bytes into chunks. Either may write a packet in pieces: its buffer is flushed
when it is full.

* `csiCalls_paced`: the client sends its requests, takes the responses in, and frees every
  payload;
* `csiRunServer_paced`: the server answers what it receives, and keeps no block;
* `csi_end_to_end`: in every interleaving each call gets the answer of the callback to it.
-/

namespace CkbScriptIpc

open Interaction

variable {X Y R V A σ : Type}

/-! ## The client -/

/-- What `csi_call` makes of the error code of a response. -/
def csiResult (errorCode : UInt64) : Except Code Unit :=
  let err := errorCode.toInt64.toInt32
  if h : err = 0 then .ok () else .error ⟨err, h⟩

theorem csiResult_zero : csiResult 0 = .ok () := rfl

/-- What the user of the library does for one call: craft the request, whose payload lies at
`buf`, call with a zeroed response, use what came back, and free its payload. -/
def csiUserCall (buf : Nat) [CSIRead R] [CSIWrite V] [PayloadAllocator A] (q : CSIRequest) :
    Method ServerRes Code (CSI R V A × CSIPacket) (Except Code Unit × CSIAnswer) := do
  let request : CSIPacket := ⟨q.version, q.methodId, UInt64.ofNat q.payload.length, buf⟩
  Method.modify fun x => ({ x.1 with memory := store x.1.memory buf q.payload }, ⟨0, 0, 0, 0⟩)
  let result ← Method.attempt (csiCall request)
  let x ← Method.get
  let payload := load x.1.memory x.2.payload x.2.payloadLen.toNat
  Method.zoom Prod.fst (fun c x => (c, x.2)) (csiClientFreeResponsePayload x.2)
  return (result, ⟨x.2.version, x.2.code, payload⟩)

def csiUserCalls (buf : Nat) [CSIRead R] [CSIWrite V] [PayloadAllocator A] : List CSIRequest →
    Method ServerRes Code (CSI R V A × CSIPacket) (List (Except Code Unit × CSIAnswer))
  | [] => pure []
  | q :: qs => do
    let answer ← csiUserCall buf q
    let answers ← csiUserCalls buf qs
    return answer :: answers

/-- The last part of `csi_spawn_server`, for the ends `fds[0]` and `fds2[1]` that it keeps. -/
def csiClientBuffers (source sink : UInt64) :
    Method (CsiRes X Y) Code CSIProcess (CSIBuffer × CSIBuffer) := do
  newPipeReader source
  let reader ← newBuffer
  newPipeWriter sink
  let writer ← newBuffer
  return (reader, writer)

/-- The calls of `c/tests/client.c`, which gives up when one fails. -/
def csiCheckedCalls (buf : Nat) [CSIRead R] [CSIWrite V] [PayloadAllocator A] : List CSIRequest →
    Method ServerRes Code (CSI R V A × CSIPacket) (List (Except Code Unit × CSIAnswer))
  | [] => pure []
  | q :: qs => do
    let answer ← csiUserCall buf q
    match answer.1 with
    | .error _ => return [answer]
    | .ok () => do
      let answers ← csiCheckedCalls buf qs
      return answer :: answers

/-- A whole client: the two buffers, and then the calls. -/
def csiClientWith {α : Type} (source sink : UInt64)
    (calls : Method ServerRes Code (CSI CSIBuffer CSIBuffer FixedAllocator × CSIPacket) α) :
    Method ServerRes Code CSIProcess α := do
  let (reader, writer) ← csiClientBuffers source sink
  Method.zoom (fun s => ((⟨reader, writer, s.payload, s.memory⟩, ⟨0, 0, 0, 0⟩) : CSI _ _ _ × _))
    (fun x s => { s with payload := x.1.allocator, memory := x.1.memory }) calls

def csiClient (buf : Nat) (source sink : UInt64) (qs : List CSIRequest) :
    Method ServerRes Code CSIProcess (List (Except Code Unit × CSIAnswer)) :=
  csiClientWith source sink (csiUserCalls buf qs)

def csiCheckedClient (buf : Nat) (source sink : UInt64) (qs : List CSIRequest) :
    Method ServerRes Code CSIProcess (List (Except Code Unit × CSIAnswer)) :=
  csiClientWith source sink (csiCheckedCalls buf qs)

/-! ## What is said -/

def CSIRequest.wire (q : CSIRequest) : Bytes := wirePacket q.version q.methodId q.payload

def CSIAnswer.wire (a : CSIAnswer) : Bytes := wirePacket a.version a.errorCode a.payload

theorem CSIRequest.wire_ne_nil (q : CSIRequest) : q.wire ≠ [] := wirePacket_ne_nil _ _ _

theorem CSIAnswer.wire_ne_nil (a : CSIAnswer) : a.wire ≠ [] := wirePacket_ne_nil _ _ _

/-- What the server needs of the payloads: the one of the request finds a block, and the one of
the answer another beside it. All lengths fit an `int`. -/
structure ServerFits (a : FixedAllocator) (x : CSIRequest × CSIAnswer) : Prop where
  request : x.1.payload.length ≤ a.blockSize
  request_int : x.1.payload.length < 2 ^ 31
  beside : a.FitsBeside x.1.payload.length x.2.payload.length
  answer_int : x.2.payload.length < 2 ^ 31

/-- What the client needs of them. -/
structure ClientFits (a : FixedAllocator) (x : CSIRequest × CSIAnswer) : Prop where
  request_int : x.1.payload.length < 2 ^ 31
  answer : x.2.payload.length ≤ a.blockSize
  answer_int : x.2.payload.length < 2 ^ 31

theorem toNat_length {n : Nat} (h : n < 2 ^ 31) : (UInt64.ofNat n).toNat = n := by
  rw [UInt64.toNat_ofNat']
  exact Nat.mod_eq_of_lt (by omega)

/-! ## A channel that follows a script -/

/-- Nothing is buffered on either side. -/
structure CSI.Idle (s : CSI CSIBuffer CSIBuffer A) : Prop where
  reader : s.reader.Wf
  unread : s.reader.unread = []
  writer : s.writer.filledLen = 0

section

variable {s : CSI CSIBuffer CSIBuffer A} {p : CSIPacket} {L : List (Event X Y)}

theorem CSI.Idle.with_memory (h : s.Idle) (m : Memory) : CSI.Idle { s with memory := m } :=
  ⟨h.reader, h.unread, h.writer⟩

theorem CSI.Idle.with_allocator {B : Type} (h : s.Idle) (b : B) :
    CSI.Idle { s with allocator := b } :=
  ⟨h.reader, h.unread, h.writer⟩

/-- A packet is sent, perhaps in pieces. -/
theorem csiSend_paced (hs : s.Idle) (sendError : CSIErrorCode) (p : CSIPacket) :
    Always paced (succeeds fun _ s' w => s'.Idle ∧ s'.reader = s.reader ∧
        s'.allocator = s.allocator ∧ s'.memory = s.memory ∧ w = L) (csiSend sendError p s)
      (.send (wirePacket p.version p.code (load s.memory p.payload p.payloadLen.toNat)) :: L) := by
  have hle : s.writer.filledLen ≤ s.writer.maxLen := by rw [hs.writer]; exact Nat.zero_le _
  have hsend := csiSend_full (X := X) (Y := Y) (o := []) collecting_full.takes rfl hle sendError p
  rw [CSIBuffer.filled_empty hs.writer, List.nil_append, List.nil_append] at hsend
  have hpieces := always_sending (L := L) (t := wirePacket p.version p.code
    (load s.memory p.payload p.payloadLen.toNat)) (Q := fun r => succeeds (fun _ s' (_ : Unit) =>
      ∃ b : CSIBuffer, b.filledLen = 0 ∧ s' = { s with writer := b }) r ()) (hsend.mono ?_) rfl
  · rw [sending_ne_nil (wirePacket_ne_nil _ _ _)] at hpieces
    refine hpieces.mono ?_
    rintro (⟨_ | _, s'⟩ | _) w ⟨hq, hw⟩
    · exact hq.elim
    · obtain ⟨b, hb, rfl⟩ := hq
      exact ⟨⟨hs.reader, hs.unread, hb⟩, rfl, rfl, rfl, hw⟩
    · exact hq.elim
  · rintro (⟨_ | _, s'⟩ | _) w hw
    · exact hw.elim
    · obtain ⟨b, hs', hb, hw⟩ := hw
      exact ⟨⟨b, hb, hs'⟩, hw⟩
    · exact hw.elim

/-- A packet is received, in whatever chunks it comes. -/
theorem csiReceive_paced [PayloadAllocator A] (hs : s.Idle) {version code : UInt64}
    {payload : Bytes} (hint : payload.length < 2 ^ 31)
    (hplace : Placeable payload.length s.allocator) :
    Always paced (succeeds fun _ x w => x.1.Idle ∧
        x.1.allocator = (placed payload.length p.payload s.allocator).2 ∧
        x.2 = ⟨version, code, UInt64.ofNat payload.length,
          (placed payload.length p.payload s.allocator).1⟩ ∧
        load x.1.memory x.2.payload payload.length = payload ∧ w = L)
      (csiReceive (s, p)) (.recv (wirePacket version code payload) :: L) := by
  have hlen := toNat_length hint
  have hne : wirePacket version code payload ≠ [] := wirePacket_ne_nil _ _ _
  have hview : CSIBuffer.view (fun (w : List (Event X Y)) t => w = awaiting t L) s.reader
      (.recv (wirePacket version code payload) :: L) (wirePacket version code payload ++ []) :=
    ⟨hs.reader, _, by rw [hs.unread, List.append_nil, List.nil_append],
      (awaiting_ne_nil hne L).symm⟩
  have hok := csiReceive_ok (p := p) (CSIBuffer.streams_on (paced_feeds L)) hview
    (header_wirePacket version code payload []) (by simp [hlen]) (by simpa [hlen] using hint)
    (by simpa [hlen] using hplace)
  refine hok.mono (succeeds_mono ?_)
  rintro _ _ w ⟨r, m, rfl, hview', hload⟩
  simp only [hlen, List.append_nil, List.drop_length, List.take_length] at hview' hload ⊢
  obtain ⟨hr, t, ht, hw⟩ := hview'
  obtain ⟨hunread, rfl⟩ := List.append_eq_nil_iff.mp ht.symm
  exact ⟨⟨hr, hunread, hs.writer⟩, trivial, trivial, hload, hw⟩

end

/-! ## One call -/

section

variable {s : CSI CSIBuffer CSIBuffer FixedAllocator} {p : CSIPacket} {a : FixedAllocator}
  {L : List (Event CSIRequest (Except Code CSIAnswer))} {q : CSIRequest} {ans : CSIAnswer}

/-- A payload that was placed alone is freed again. -/
theorem FixedAllocator.free_placed {n : Nat} (ha : a.Unused) (hn : n ≤ a.blockSize) :
    PayloadAllocator.free (placed n 0 a).1 (placed n 0 a).2 = some a := by
  obtain ⟨-, a', hfirst, hsecond⟩ := FixedAllocator.payload_cycle (n := 0) ha hn (.inl rfl)
  have hnone : ∀ b : FixedAllocator, placed 0 0 b = (0, b) := fun _ => rfl
  rw [hnone] at hfirst hsecond
  have hnull : PayloadAllocator.free 0 a' = some a' := rfl
  rw [hnull, Option.some.injEq] at hsecond
  rw [hfirst, hsecond]

/-- A call sends its request and takes the response in. -/
theorem csiCall_paced (request : CSIPacket) (hs : s.Idle) (ha : s.allocator = a)
    (hunused : a.Unused)
    (hrequest : wirePacket request.version request.code
      (load s.memory request.payload request.payloadLen.toNat) = q.wire)
    (hfit : ans.payload.length ≤ a.blockSize) (hint : ans.payload.length < 2 ^ 31) :
    Always paced (returns fun r w => r.1 = csiResult ans.errorCode ∧ r.2.1.Idle ∧
        r.2.1.allocator = (placed ans.payload.length 0 a).2 ∧
        r.2.2 = ⟨ans.version, ans.errorCode, UInt64.ofNat ans.payload.length,
          (placed ans.payload.length 0 a).1⟩ ∧
        load r.2.1.memory r.2.2.payload ans.payload.length = ans.payload ∧ w = L)
      (csiCall request (s, ⟨0, 0, 0, 0⟩)) (.send q.wire :: .recv ans.wire :: L) := by
  have hsend := csiSend_paced (X := CSIRequest) (Y := Except Code CSIAnswer)
    (L := .recv ans.wire :: L) hs .sendRequest request
  rw [hrequest] at hsend
  apply always_seq_ok (always_zoom_ok hsend)
  rintro _ _ w ⟨s₁, ⟨hs₁, -, halloc, -, rfl⟩, rfl⟩
  have hplace : Placeable ans.payload.length s₁.allocator := by
    rw [halloc, ha]
    exact FixedAllocator.placeable_first hunused hfit
  apply always_seq_ok (csiReceive_paced hs₁ hint hplace)
  rintro _ ⟨s₂, response⟩ w ⟨hs₂, halloc₂, hresponse, hload, rfl⟩
  simp only at hs₂ halloc₂ hresponse hload
  subst hresponse
  rw [halloc, ha] at halloc₂ hload ⊢
  rw [get_seq, csiResult]
  by_cases hzero : ans.errorCode.toInt64.toInt32 = 0
  · simp only [hzero, ↓reduceDIte]
    exact .ret ⟨rfl, hs₂, halloc₂, rfl, hload, rfl⟩
  · simp only [hzero, ↓reduceDIte]
    exact .ret ⟨rfl, hs₂, halloc₂, rfl, hload, rfl⟩

/-- One call of the user, behind which the channel is as it was. -/
theorem csiUserCall_paced (buf : Nat) (hs : s.Idle) (ha : s.allocator = a) (hunused : a.Unused)
    (hfit : ClientFits a (q, ans)) :
    Always paced (succeeds fun r x w => r = (csiResult ans.errorCode, ans) ∧ x.1.Idle ∧
        x.1.allocator = a ∧ w = L)
      (csiUserCall buf q (s, p)) (.send q.wire :: .recv ans.wire :: L) := by
  obtain ⟨hlen, hfit, hint⟩ := hfit
  rw [csiUserCall, modify_seq]
  have hrequest : wirePacket q.version q.methodId (load (store s.memory buf q.payload) buf
      (UInt64.ofNat q.payload.length).toNat) = q.wire := by
    rw [toNat_length hlen, load_store]
    rfl
  have hcall := csiCall_paced (s := { s with memory := store s.memory buf q.payload }) (L := L)
    ⟨q.version, q.methodId, UInt64.ofNat q.payload.length, buf⟩ (hs.with_memory _) ha hunused
    hrequest hfit hint
  refine always_seq (always_map (hcall.mono ?_))
  rintro (⟨r, s₁, response⟩ | _) w ho
  · obtain ⟨rfl, hs₁, halloc, hresponse, hload, rfl⟩ := ho
    simp only at hresponse hload hs₁ halloc
    subst hresponse
    show Always paced _ ((Method.get >>= _) (s₁, _)) w
    rw [get_seq]
    have hfree := FixedAllocator.free_placed hunused hfit
    rw [← halloc] at hfree
    have hret : csiClientFreeResponsePayload (X := CSIRequest) (Y := Except Code CSIAnswer)
        ⟨ans.version, ans.errorCode, UInt64.ofNat ans.payload.length,
          (placed ans.payload.length 0 a).1⟩ s₁ = _ := csiClientFreeResponsePayload_ret rfl hfree
    rw [seq_ok (zoom_ret hret), toNat_length hint, hload]
    exact .ret ⟨rfl, hs₁.with_allocator a, rfl, rfl⟩
  · exact ho.elim

/-! ## The client's side -/

/-- The requests and answers of an exchange, as the client's script has them. -/
def exchangeEvents : List (CSIRequest × CSIAnswer) → List (Event X Y)
  | [] => []
  | x :: xs => .send x.1.wire :: .recv x.2.wire :: exchangeEvents xs

/-- **Client.** The calls follow the script, and every call returns what its answer says. -/
theorem csiCalls_paced (buf : Nat) (hs : s.Idle) (ha : s.allocator = a) (hunused : a.Unused)
    {xs : List (CSIRequest × CSIAnswer)} (hfit : ∀ x ∈ xs, ClientFits a x) :
    Always paced (succeeds fun r _ w => r = xs.map (fun x => (csiResult x.2.errorCode, x.2)) ∧
        w = []) (csiUserCalls buf (xs.map Prod.fst) (s, p)) (exchangeEvents xs) := by
  induction xs generalizing s p with
  | nil => exact .ret ⟨rfl, rfl⟩
  | cons x xs ih =>
    apply always_seq_ok (csiUserCall_paced buf hs ha hunused (hfit x (by simp)))
    rintro _ ⟨s₁, p₁⟩ w ⟨rfl, hs₁, ha₁, rfl⟩
    apply always_seq_ok (ih hs₁ ha₁ fun y hy => hfit y (by simp [hy]))
    rintro _ x₂ w ⟨rfl, rfl⟩
    exact .ret ⟨rfl, rfl⟩

end

theorem csiClientBuffers_eq (source sink : UInt64) (s : CSIProcess) :
    csiClientBuffers (X := X) (Y := Y) source sink s = csiServerBuffers (.ok [source, sink]) s :=
  rfl

/-- A client with its buffers. -/
theorem csiClientWith_paced {α : Type} {client : CSIProcess} (hclient : client.Ready)
    {source sink : UInt64} (hsource : source % 2 = 0) (hsink : sink % 2 = 1)
    {calls : Method ServerRes Code (CSI CSIBuffer CSIBuffer FixedAllocator × CSIPacket) α} {v : α}
    {L : List (Event CSIRequest (Except Code CSIAnswer))}
    (hcalls : ∀ (s : CSI CSIBuffer CSIBuffer FixedAllocator) p, s.Idle →
      s.allocator = client.payload →
      Always paced (succeeds fun r _ w => r = v ∧ w = []) (calls (s, p)) L) :
    Always paced (returns fun r w => r.1 = .ok v ∧ w = []) (csiClientWith source sink calls client)
      L := by
  obtain ⟨reader, writer, s', hreader, hwriter, hpayload, hset⟩ :=
    csiServerBuffers_ret (X := CSIRequest) (Y := Except Code CSIAnswer) hclient hsource hsink
  rw [← csiClientBuffers_eq] at hset
  rw [csiClientWith, seq_ok hset]
  have hcalls' := hcalls ⟨reader, writer, s'.payload, s'.memory⟩ ⟨0, 0, 0, 0⟩
    ⟨hreader.wf, hreader.unread_eq_nil, hwriter.filledLen⟩ hpayload
  refine always_map (hcalls'.mono ?_)
  rintro (⟨_ | r, x⟩ | _) w ho
  · exact ho.elim
  · obtain ⟨rfl, rfl⟩ := ho
    exact ⟨rfl, rfl⟩
  · exact ho.elim

theorem csiClient_paced {client : CSIProcess} (hclient : client.Ready) {source sink : UInt64}
    (hsource : source % 2 = 0) (hsink : sink % 2 = 1) (buf : Nat)
    {xs : List (CSIRequest × CSIAnswer)} (hfit : ∀ x ∈ xs, ClientFits client.payload x) :
    Always paced (returns fun r w => r.1 = .ok (xs.map fun x => (csiResult x.2.errorCode, x.2)) ∧
        w = []) (csiClient buf source sink (xs.map Prod.fst) client) (exchangeEvents xs) :=
  csiClientWith_paced hclient hsource hsink fun _ _ hs ha =>
    csiCalls_paced buf hs ha hclient.payload hfit

/-! ## The server's side -/

section

variable {s : CSI CSIBuffer CSIBuffer FixedAllocator} {a : FixedAllocator}
  {L : List (Event CSIRequest (Except Code CSIAnswer))} {q : CSIRequest} {ans : CSIAnswer}

/-- The callback answers in a payload that it finds. -/
theorem csiServe_paced {request : CSIPacket}
    (hrequest : ⟨request.version, request.code,
      load s.memory request.payload request.payloadLen.toNat⟩ = q)
    (hint : ans.payload.length < 2 ^ 31) (hplace : Placeable ans.payload.length s.allocator) :
    Always paced (succeeds fun response s' w => w = L ∧
        (∃ m, s' = { s with
          allocator := (placed ans.payload.length 0 s.allocator).2, memory := m }) ∧
        response = ⟨ans.version, ans.errorCode, UInt64.ofNat ans.payload.length,
          (placed ans.payload.length 0 s.allocator).1⟩ ∧
        load s'.memory response.payload ans.payload.length = ans.payload)
      (csiServe request s) (.ask q (.ok ans) :: L) := by
  have hcall : Always paced (returns fun r w => r = .ok ans ∧ w = L)
      (.call (.ext q) .ret : Prog ServerRes (Except Code CSIAnswer)) (.ask q (.ok ans) :: L) := by
    refine .call ⟨_, _, rfl⟩ ?_
    rintro r w hs
    cases hs
    exact .ret ⟨rfl, rfl⟩
  rw [csiServe, get_seq, hrequest]
  apply always_seq_ok (always_lift_ok hcall)
  rintro _ s _ ⟨⟨rfl, rfl⟩, rfl⟩
  have hlen := toNat_length hint
  have hmalloc := csiServerMallocResponsePayload_ret (X := CSIRequest)
    (Y := Except Code CSIAnswer) (s := s) (n := UInt64.ofNat ans.payload.length)
    (by rwa [hlen])
  rw [hlen] at hmalloc
  rw [ofExcept_ok_seq, seq_ok hmalloc]
  exact .ret ⟨rfl, ⟨_, rfl⟩, rfl, load_store _ _ _⟩

/-- A turn serves the request that arrives, and gives both payloads back. -/
theorem csiRunServerTurn_paced (hs : s.Idle) (ha : s.allocator = a) (hunused : a.Unused)
    (hfit : ServerFits a (q, ans)) :
    Always paced (succeeds fun x s' w => x = .inl () ∧ s'.Idle ∧ s'.allocator = a ∧ w = L)
      (csiRunServerTurn csiServe () s)
      (.recv q.wire :: .ask q (.ok ans) :: .send ans.wire :: L) := by
  subst ha
  obtain ⟨hrequest, hreq, hbeside, hans⟩ := hfit
  obtain ⟨hplace, a', hfree, hfree'⟩ := FixedAllocator.payload_cycle hunused hrequest hbeside
  apply always_seq_ok (always_out_ok (csiReceive_paced hs hreq
    (FixedAllocator.placeable_first hunused hrequest)))
  rintro request s₁ _ ⟨hs₁, halloc₁, hpacket, hload, rfl⟩
  simp only at hs₁ halloc₁ hpacket hload
  subst hpacket
  have hseen : (⟨q.version, q.methodId, load s₁.memory (placed q.payload.length 0 s.allocator).1
      (UInt64.ofNat q.payload.length).toNat⟩ : CSIRequest) = q := by
    rw [toNat_length hreq, hload]
  apply always_seq_ok (csiServe_paced (L := .send ans.wire :: L) hseen hans (by rwa [halloc₁]))
  rintro response _ _ ⟨rfl, ⟨m, rfl⟩, rfl, hload₂⟩
  rw [← halloc₁] at hfree hfree'
  rw [seq_ok (payloadFree_ret hfree)]
  have hsend := csiSend_paced (X := CSIRequest) (Y := Except Code CSIAnswer) (L := L)
    (s := { s₁ with allocator := a', memory := m }) ⟨hs₁.reader, hs₁.unread, hs₁.writer⟩
    .sendResponse ⟨ans.version, ans.errorCode, UInt64.ofNat ans.payload.length,
      (placed ans.payload.length 0 s₁.allocator).1⟩
  rw [toNat_length hans, hload₂] at hsend
  apply always_seq_ok hsend
  rintro _ s₂ w ⟨hs₂, -, halloc₂, -, rfl⟩
  have halloc₂' : s₂.allocator = a' := halloc₂
  rw [← halloc₂'] at hfree'
  rw [seq_ok (csiClientFreeResponsePayload_ret rfl hfree')]
  exact .ret ⟨rfl, hs₂.with_allocator _, rfl, rfl⟩

/-- At the end of the script the server waits for a request. -/
theorem csiRunServerTurn_listen (hs : s.Idle) :
    Always paced (fun _ _ => False) (csiRunServerTurn csiServe () s) [.listen] := by
  have hread : Always paced (fun _ _ => False)
      (CSIBuffer.bufRead 1 s.reader : Prog ServerRes _) [.listen] := by
    rw [CSIBuffer.bufRead_empty ((CSIBuffer.unread_eq_nil hs.reader).mp hs.unread)]
    exact paced_listen hs.reader.maxLen_pos
  have hvlq : Always paced (fun _ _ => False) (csiReadVlq 0 s.reader : Prog ServerRes _)
      [.listen] :=
    always_seq_never (always_iter_never (always_seq_never (always_map_never hread)))
  have hfield : Always paced (fun _ _ => False) (csiReadField (·.version)
      (fun v p => { p with version := v }) (s, ⟨0, 0, 0, 0⟩) : Prog ServerRes _) [.listen] := by
    rw [csiReadField, get_seq]
    exact always_seq_never (always_map_never (always_map_never hvlq))
  exact always_seq_never (always_map_never (always_seq_never hfield))

end

/-! ## Both together -/

section

/-- The answers of a callback that works on a state, one after the other. -/
def csiExchanges (answer : σ → CSIRequest → CSIAnswer × σ) :
    σ → List CSIRequest → List (CSIRequest × CSIAnswer)
  | _, [] => []
  | st, q :: qs => (q, (answer st q).1) :: csiExchanges answer (answer st q).2 qs

/-- Requests and responses of the C library, with a callback that computes its answers by
`answer` and never fails. -/
def csiProtocol (answer : σ → CSIRequest → CSIAnswer × σ) :
    Protocol CSIRequest (Except Code CSIAnswer) σ where
  request q := q.wire
  reply _
    | .ok ans => ans.wire
    | .error _ => wirePacket 0 0 []
  answer st q := (.ok (answer st q).1, (answer st q).2)
  request_ne_nil q := q.wire_ne_nil
  reply_ne_nil
    | _, .ok ans => ans.wire_ne_nil
    | _, .error _ => wirePacket_ne_nil _ _ _

variable {answer : σ → CSIRequest → CSIAnswer × σ}

theorem csiExchanges_fst (st : σ) (qs : List CSIRequest) :
    (csiExchanges answer st qs).map Prod.fst = qs := by
  induction qs generalizing st with
  | nil => rfl
  | cons q qs ih => simp only [csiExchanges, List.map_cons, ih]

theorem csiProtocol_clientEvents (st : σ) (qs : List CSIRequest) :
    clientEvents ((csiProtocol answer).rounds st qs) =
      (exchangeEvents (csiExchanges answer st qs) : List (Event X Y)) := by
  induction qs generalizing st with
  | nil => rfl
  | cons q qs ih =>
    rw [Protocol.rounds, clientEvents, ih]
    rfl

variable {s : CSI CSIBuffer CSIBuffer FixedAllocator} {a : FixedAllocator}

/-- **Server.** The loop follows the server's script; it neither panics nor returns. -/
theorem csiRunServer_paced {qs : List CSIRequest} {st : σ} (hs : s.Idle)
    (ha : s.allocator = a) (hunused : a.Unused)
    (hfit : ∀ x ∈ csiExchanges answer st qs, ServerFits a x) :
    Always paced (fun _ _ => False) (Method.iter (csiRunServerTurn csiServe) () s)
      ((csiProtocol answer).serverScript st qs) := by
  induction qs generalizing s st with
  | nil => exact always_iter_never (csiRunServerTurn_listen hs)
  | cons q qs ih =>
    have hx := hfit (q, (answer st q).1) List.mem_cons_self
    apply always_iter_next (csiRunServerTurn_paced hs ha hunused hx)
    · rintro _ s' w ⟨-, hs', ha', rfl⟩
      exact ih hs' ha' fun y hy => hfit y (List.mem_cons_of_mem _ hy)
    · rintro _ s' w ⟨hx, -⟩
      cases hx

/-- The server with its buffers. -/
theorem csiServer_paced {server : CSIProcess} (hserver : server.Ready) {source sink : UInt64}
    (hsource : source % 2 = 0) (hsink : sink % 2 = 1) {qs : List CSIRequest} {st : σ}
    (hfit : ∀ x ∈ csiExchanges answer st qs, ServerFits server.payload x) :
    Always paced (fun _ _ => False) (csiRunServer csiServe (.ok [source, sink]) server)
      ((csiProtocol answer).serverScript st qs) := by
  obtain ⟨reader, writer, s', hreader, hwriter, hpayload, hset⟩ :=
    csiServerBuffers_ret hserver hsource hsink
  rw [csiRunServer, seq_ok hset]
  apply always_map_never
  exact csiRunServer_paced (s := ⟨reader, writer, s'.payload, s'.memory⟩)
    ⟨hreader.wf, hreader.unread_eq_nil, hwriter.filledLen⟩ hpayload hserver.payload hfit

/-- **Both together.** A client and a server of the C library, each with its own blocks: in every
interleaving the callback is given the requests, once each and in order, and every call returns
its answer. -/
theorem csi_end_to_end {server client : CSIProcess} (hserver : server.Ready)
    (hclient : client.Ready)
    {source sink source' sink' : UInt64} (hsource : source % 2 = 0) (hsink : sink % 2 = 1)
    (hsource' : source' % 2 = 0) (hsink' : sink' % 2 = 1) (buf : Nat)
    (answer : σ → CSIRequest → CSIAnswer × σ) (st : σ) (qs : List CSIRequest)
    (hfit : ∀ x ∈ csiExchanges answer st qs,
      ServerFits server.payload x ∧ ClientFits client.payload x) :
    (csiProtocol answer).Converses (csiClient buf source sink qs client)
      (csiRunServer csiServe (.ok [source', sink']) server) st qs
      fun r => r.1 = .ok ((csiExchanges answer st qs).map fun x =>
        (csiResult x.2.errorCode, x.2)) := by
  apply Protocol.converse
  · have hclients := csiClient_paced hclient hsource hsink buf fun x hx => (hfit x hx).2
    rw [csiExchanges_fst, ← csiProtocol_clientEvents] at hclients
    exact hclients
  · exact csiServer_paced hserver hsource' hsink' fun x hx => (hfit x hx).1

end

/-- `serve_call_back` of the tests: method 1 sums the bytes of the payload into a `uint64_t`, and
other methods leave the zeroed response. -/
def sumCallback (_ : Unit) (q : CSIRequest) : CSIAnswer × Unit :=
  let sum := q.payload.foldl (fun sum b => sum + b.toUInt64) 0
  (⟨0, 0, if q.methodId = 1 then leBytes 8 sum.toNat else []⟩, ())

/-- Three calls, the last of another method, with blocks of 512 bytes. -/
theorem csi_sum_end_to_end :
    (csiProtocol sumCallback).Converses
      (csiClient 64 4 7 [⟨0, 1, [1, 2, 3]⟩, ⟨0, 1, []⟩, ⟨0, 9, [255]⟩] zeroedProcess)
      (csiRunServer csiServe (.ok [2, 3]) zeroedProcess) ()
      [⟨0, 1, [1, 2, 3]⟩, ⟨0, 1, []⟩, ⟨0, 9, [255]⟩]
      fun r => r.1 = .ok ((csiExchanges sumCallback ()
        [⟨0, 1, [1, 2, 3]⟩, ⟨0, 1, []⟩, ⟨0, 9, [255]⟩]).map fun x =>
          (csiResult x.2.errorCode, x.2)) := by
  apply csi_end_to_end zeroedProcess_ready zeroedProcess_ready (by decide) (by decide) (by decide)
    (by decide)
  intro x hx
  simp only [csiExchanges, List.mem_cons, List.not_mem_nil, or_false] at hx
  rcases hx with rfl | rfl | rfl
  · exact ⟨⟨by decide, by decide, by decide, by decide⟩, ⟨by decide, by decide, by decide⟩⟩
  · exact ⟨⟨by decide, by decide, by decide, by decide⟩, ⟨by decide, by decide, by decide⟩⟩
  · exact ⟨⟨by decide, by decide, by decide, by decide⟩, ⟨by decide, by decide, by decide⟩⟩

end CkbScriptIpc
