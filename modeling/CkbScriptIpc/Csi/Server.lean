import CkbScriptIpc.Csi.Packet
import CkbScriptIpc.Csi.Sent

/-!
# The C library: the server

`csi_run_server`, with the two buffers it sets up and its callback. What it should
do is `ServesReceived`: hand out the complete packets of the stream, as they were sent,
and return an error where the stream fails.

* `csi_server_serves_received`: it does, unless the stream ends while a header is
  read, or a header has a number that is too large;
* `csi_server_serves_phantom`: when the other end is closed before any request, a
  request is served that was never sent.
-/

namespace CkbScriptIpc

open Interaction

/-- What the callback sees of a request. -/
structure CSIRequest where
  version : UInt64
  methodId : UInt64
  payload : Bytes
  deriving DecidableEq, Repr

/-- What the callback answers. -/
structure CSIAnswer where
  version : UInt64
  errorCode : UInt64
  payload : Bytes
  deriving DecidableEq, Repr

/-- The syscalls of a server, and the calls of its callback. -/
abbrev ServerRes : StreamOp CSIRequest → Type := CsiRes CSIRequest (Except Code CSIAnswer)

variable {X Y R V A W : Type}

/-! ## Setting up -/

/-- What the library works on before any channel is set up. -/
structure CSIProcess where
  payload : FixedAllocator
  iobuf : FixedAllocator
  memory : Memory

/-- `sizeof(CSIBuffer)`: the six words in front of the buffered data. -/
def sizeofCSIBuffer : Nat := 48

/-- `new_buffer`. The buffered data are whatever the block held. -/
def newBuffer : Method (CsiRes X Y) Code CSIProcess CSIBuffer := do
  let s ← Method.get
  let bufLen := s.iobuf.blockSize
  let block := s.iobuf.malloc bufLen
  Method.set { s with iobuf := block.2 }
  if block.1 = 0 then Method.panic
  else
    let maxLen := UInt64.ofNat bufLen - UInt64.ofNat sizeofCSIBuffer
    return ⟨0, 0, maxLen.toNat, fun i => s.memory (block.1 + sizeofCSIBuffer + i)⟩

def newPipeReader (fd : UInt64) : Method (CsiRes X Y) Code CSIProcess Unit :=
  if fd % 2 ≠ 0 then Method.throw CSIErrorCode.invalidFd.toCode else pure ()

def newPipeWriter (fd : UInt64) : Method (CsiRes X Y) Code CSIProcess Unit :=
  if fd % 2 ≠ 1 then Method.throw CSIErrorCode.invalidFd.toCode else pure ()

/-! ## Serving -/

def payloadFree [PayloadAllocator A] (ptr : Nat) : Method (CsiRes X Y) Code (CSI R V A) Unit := do
  let s ← Method.get
  match PayloadAllocator.free ptr s.allocator with
  | some allocator => Method.set { s with allocator := allocator }
  | none => Method.panic

def csiClientFreeResponsePayload [PayloadAllocator A] (response : CSIPacket) :
    Method (CsiRes X Y) Code (CSI R V A) Unit := do
  if response.payload = 0 then return () else payloadFree response.payload

def csiServerMallocResponsePayload [PayloadAllocator A] (payloadLen : UInt64) :
    Method (CsiRes X Y) Code (CSI R V A) Nat := do
  if payloadLen = 0 then return 0
  else
    let s ← Method.get
    let block := PayloadAllocator.malloc payloadLen.toNat s.allocator
    Method.set { s with allocator := block.2 }
    if block.1 = 0 then Method.panic else return block.1

/-- The `serve` callback. It looks at the request, and puts its answer into a
payload from `csi_server_malloc_response_payload`, as it must. -/
def csiServe [PayloadAllocator A] (request : CSIPacket) :
    Method ServerRes Code (CSI R V A) CSIPacket := do
  let s ← Method.get
  let seen :=
    ⟨request.version, request.code, load s.memory request.payload request.payloadLen.toNat⟩
  let result ← Method.lift (.call (.ext seen) .ret)
  let answer ← Method.ofExcept result
  let payloadLen := UInt64.ofNat answer.payload.length
  let payload ← csiServerMallocResponsePayload payloadLen
  Method.modify fun s => { s with memory := store s.memory payload answer.payload }
  return ⟨answer.version, answer.errorCode, payloadLen, payload⟩

/-- One turn of `csi_run_server`; request and response are zeroed before. -/
def csiRunServerTurn [CSIRead R] [CSIWrite V] [PayloadAllocator A]
    (serve : CSIPacket → Method (CsiRes X Y) Code (CSI R V A) CSIPacket) (_ : Unit) :
    Method (CsiRes X Y) Code (CSI R V A) (Unit ⊕ Unit) := do
  let request ← Method.out ⟨0, 0, 0, 0⟩ csiReceiveRequest
  let response ← serve request
  payloadFree request.payload
  csiSendResponse response
  csiClientFreeResponsePayload response
  return .inl ()

/-- The first part of `csi_run_server`, where `inherited` is what `ckb_inherited_fds`
gives: the buffers of its reader and its writer. -/
def csiServerBuffers (inherited : Except Code (List UInt64)) :
    Method (CsiRes X Y) Code CSIProcess (CSIBuffer × CSIBuffer) := do
  let fds ← Method.ofExcept inherited
  match fds with
  | [source, sink] =>
    newPipeReader source
    let reader ← newBuffer
    newPipeWriter sink
    let writer ← newBuffer
    return (reader, writer)
  | _ => Method.throw CSIErrorCode.inheritedFds.toCode

def csiRunServer (serve : CSIPacket →
      Method (CsiRes X Y) Code (CSI CSIBuffer CSIBuffer FixedAllocator) CSIPacket)
    (inherited : Except Code (List UInt64)) : Method (CsiRes X Y) Code CSIProcess Unit := do
  let (reader, writer) ← csiServerBuffers inherited
  Method.zoom (fun s => (⟨reader, writer, s.payload, s.memory⟩ : CSI _ _ _))
    (fun c s => { s with payload := c.allocator, memory := c.memory })
    (Method.iter (csiRunServerTurn serve) ())

/-! ## What a server should do -/

/-- The world of a server: what is still to be read, what has been read and written,
and the requests that its callback was given. -/
structure Session where
  input : Bytes
  received : Bytes
  sent : Bytes
  served : List CSIRequest
  deriving DecidableEq, Repr

def Session.start (input : Bytes) : Session := ⟨input, [], [], []⟩

def Frame.request (f : Frame) : CSIRequest := ⟨f.header.version, f.header.code, f.payload⟩

/-- The requests whose packets are complete at the start of a stream, as they were sent. -/
def requestsIn (s : Bytes) : List CSIRequest := (Sent.packets s).map Frame.request

/-- The stream arrives in chunks, and its reads then fail; every write is taken in
full, and the callback returns 0, having found a block for its payload. It may be
called only with the next request that has been received completely. -/
def session (a : FixedAllocator) : Env ServerRes Session where
  pre
    | _, .read n => 0 < n
    | _, .write _ => True
    | _, .flush => True
    | w, .ext req => w.served ++ [req] <+: requestsIn w.received
  step
    | w, .read n, r, w' =>
      (w.input = [] ∧ (∃ e, r = .error e) ∧ w' = w) ∨
        ∃ c, c ≠ [] ∧ c.length ≤ n ∧ w.input = c ++ w'.input ∧ r = .ok c ∧
          w' = { w with input := w'.input, received := w.received ++ c }
    | w, .write bs, r, w' => r = .ok bs.length ∧ w' = { w with sent := w.sent ++ bs }
    | w, .flush, r, w' => r = .ok () ∧ w' = w
    | w, .ext req, r, w' =>
      (∃ answer, r = .ok answer ∧ a.FitsBeside req.payload.length answer.payload.length) ∧
        w' = { w with served := w.served ++ [req] }

/-- Every run ends with an error, when the complete requests of the stream have been
served; and no request is ever served before it has been received completely. -/
def ServesReceived (inherited : Except Code (List UInt64)) (s : CSIProcess) (input : Bytes) :
    Prop :=
  Always (session s.payload) (fails fun _ _ w' => w'.served = requestsIn input)
      (csiRunServer csiServe inherited s) (Session.start input) ∧
    Safely (session s.payload) (fun w => w.served <+: requestsIn w.received) (fun _ _ => True)
      (csiRunServer csiServe inherited s) (Session.start input)

theorem requestsIn_append (s x : Bytes) : requestsIn s <+: requestsIn (s ++ x) := by
  rw [requestsIn, requestsIn]
  exact List.IsPrefix.map Frame.request (Sent.packets_append s x)

/-- Requests are served only when they are due. -/
theorem served_due {a : FixedAllocator} {w w' : Session} {op : StreamOp CSIRequest}
    {r : ServerRes op} (hw : w.served <+: requestsIn w.received) (hpre : (session a).pre w op)
    (hs : (session a).step w op r w') : w'.served <+: requestsIn w'.received := by
  cases op with
  | read n =>
    rcases hs with ⟨-, -, rfl⟩ | ⟨c, -, -, -, -, hw'⟩
    · exact hw
    · rw [hw']
      exact hw.trans (requestsIn_append _ _)
  | write bs =>
    rw [hs.2]
    exact hw
  | flush =>
    rw [hs.2]
    exact hw
  | ext req =>
    rw [hs.2]
    exact hpre

/-! ## The session as a stream -/

/-- Of the stream `whole` the bytes `t` are still to be read, and `served` was served. -/
def Session.reading (whole : Bytes) (served : List CSIRequest) (w : Session) (t : Bytes) : Prop :=
  w.input = t ∧ w.received ++ t = whole ∧ w.served = served

section

variable {a : FixedAllocator} {whole : Bytes} {served : List CSIRequest}

theorem session_feeds :
    FeedsThenFails (session a) (Session.reading whole served) (·.served = served) where
  pre _ hn := hn
  chunk := by
    rintro w s n r w' ⟨hin, hwhole, hserved⟩ hs (⟨hnil, -, -⟩ | ⟨c, hc, hlen, hsplit, rfl, hw'⟩)
    · exact absurd (hin.symm.trans hnil) hs
    · refine ⟨c, w'.input, hin.symm.trans hsplit, hc, hlen, rfl, rfl, ?_, ?_⟩
      · rw [hw']
        show w.received ++ c ++ w'.input = whole
        rw [List.append_assoc, ← hsplit, hin, hwhole]
      · rw [hw']
        exact hserved
  fail := by
    rintro w n r w' ⟨hin, -, hserved⟩ (⟨-, he, rfl⟩ | ⟨c, hc, -, hsplit, -, -⟩)
    · exact ⟨he, hserved⟩
    · rw [hin] at hsplit
      exact absurd (List.append_eq_nil_iff.mp hsplit.symm).1 hc

theorem session_streams (a : FixedAllocator) (whole : Bytes) (served : List CSIRequest) :
    StreamsThenFails CSIRead.read (session a) (CSIBuffer.view (Session.reading whole served))
      (·.served = served) := CSIBuffer.streamsThenFails session_feeds

/-- Sending changes nothing but what was sent. -/
theorem session_takes (w₀ : Session) :
    Takes (session a) fun w o => w = { w₀ with sent := o } where
  pre _ _ := trivial
  write := by
    rintro w o bs r w' rfl ⟨rfl, rfl⟩
    exact ⟨rfl, rfl⟩

end

/-! ## One turn -/

section

variable [PayloadAllocator A] {s : CSI R V A} {w : Session}

theorem payloadFree_ret {ptr : Nat} {allocator : A}
    (h : PayloadAllocator.free ptr s.allocator = some allocator) :
    payloadFree (X := X) (Y := Y) ptr s = .ret (.ok (), { s with allocator := allocator }) := by
  simp only [payloadFree, get_seq, h]
  rfl

theorem csiClientFreeResponsePayload_ret {response : CSIPacket} {allocator : A}
    (hnull : PayloadAllocator.free 0 s.allocator = some s.allocator)
    (h : PayloadAllocator.free response.payload s.allocator = some allocator) :
    csiClientFreeResponsePayload (X := X) (Y := Y) response s =
      .ret (.ok (), { s with allocator := allocator }) := by
  by_cases h0 : response.payload = 0
  · rw [h0, hnull] at h
    cases h
    simp only [csiClientFreeResponsePayload, h0, ↓reduceIte]
    rfl
  · simp only [csiClientFreeResponsePayload, h0, ↓reduceIte]
    exact payloadFree_ret h

theorem csiServerMallocResponsePayload_ret {n : UInt64} (h : Placeable n.toNat s.allocator) :
    csiServerMallocResponsePayload (X := X) (Y := Y) n s =
      .ret (.ok (placed n.toNat 0 s.allocator).1,
        { s with allocator := (placed n.toNat 0 s.allocator).2 }) := by
  by_cases hn : n = 0
  · simp only [csiServerMallocResponsePayload, hn, ↓reduceIte]
    rfl
  · have hpos : 0 < n.toNat := by
      rcases Nat.eq_zero_or_pos n.toNat with h0 | hpos
      · exact absurd (UInt64.toNat_inj.mp h0) hn
      · exact hpos
    have hne := h hpos
    simp only [csiServerMallocResponsePayload, hn, ↓reduceIte, get_seq, set_seq, hne, placed, hpos]
    rfl

/-- The callback is given the request, and answers in a payload that it finds. -/
theorem csiServe_ok {a : FixedAllocator} {request : CSIPacket} {req : CSIRequest}
    (hreq : ⟨request.version, request.code,
      load s.memory request.payload request.payloadLen.toNat⟩ = req)
    (hdue : w.served ++ [req] <+: requestsIn w.received)
    (hplace : ∀ n, a.FitsBeside req.payload.length n → Placeable n s.allocator) :
    Always (session a) (succeeds fun response s' w' =>
        w' = { w with served := w.served ++ [req] } ∧
        ∃ n m, a.FitsBeside req.payload.length n ∧
          s' = { s with allocator := (placed n 0 s.allocator).2, memory := m } ∧
          response.payload = (placed n 0 s.allocator).1)
      (csiServe request s) w := by
  have hcall : Always (session a) (returns fun r w' =>
      (∃ answer, r = .ok answer ∧ a.FitsBeside req.payload.length answer.payload.length) ∧
        w' = { w with served := w.served ++ [req] }) (.call (.ext req) .ret) w :=
    .call hdue fun r w' hs => .ret hs
  rw [csiServe, get_seq, hreq]
  apply always_seq_ok (always_lift_ok hcall)
  rintro _ s _ ⟨⟨⟨answer, rfl, hfit⟩, rfl⟩, rfl⟩
  have hlen : (UInt64.ofNat answer.payload.length).toNat = answer.payload.length := by
    rw [UInt64.toNat_ofNat']
    apply Nat.mod_eq_of_lt
    have hsize := a.blockSize_lt
    rcases hfit with h0 | ⟨hle, -⟩ <;> omega
  have hmalloc := csiServerMallocResponsePayload_ret (X := CSIRequest)
    (Y := Except Code CSIAnswer) (s := s) (n := UInt64.ofNat answer.payload.length)
    (by rw [hlen]; exact hplace _ hfit)
  rw [hlen] at hmalloc
  rw [ofExcept_ok_seq, seq_ok hmalloc]
  exact .ret ⟨rfl, _, _, hfit, rfl, rfl⟩

end

/-- At the head of the loop the bytes `t` of the stream are still to be read, and
the requests in front of them have been served. -/
structure AtLoopHead (a : FixedAllocator) (whole : Bytes) (served : List CSIRequest) (t : Bytes)
    (s : CSI CSIBuffer CSIBuffer FixedAllocator) (w : Session) : Prop where
  allocator : s.allocator = a
  writer : s.writer.filledLen = 0
  view : CSIBuffer.view (Session.reading whole served) s.reader w t
  consumed : ∃ c, whole = c ++ t ∧ ∀ x, requestsIn (c ++ x) = served ++ requestsIn x

section

variable {a : FixedAllocator} {whole t t' : Bytes} {served : List CSIRequest}
  {s : CSI CSIBuffer CSIBuffer FixedAllocator} {w : Session} {f : Frame}

/-- Once a packet has been read, its request is due. -/
theorem request_due (hconsumed : ∃ c, whole = c ++ t' ∧
      ∀ x, requestsIn (c ++ x) = served ++ [f.request] ++ requestsIn x)
    (hview : CSIBuffer.view (Session.reading whole served) s.reader w t') :
    w.served ++ [f.request] <+: requestsIn w.received := by
  obtain ⟨c, hwhole, hc⟩ := hconsumed
  obtain ⟨-, rest, rfl, -, hreceived, rfl⟩ := hview
  have hsplit : w.received = c ++ s.reader.unread := by
    rw [hwhole, ← List.append_assoc] at hreceived
    exact List.append_cancel_right hreceived
  rw [hsplit, hc]
  exact List.prefix_append _ _

theorem consumed_next (hpacket : Sent.packet t = some (f, t'))
    (hconsumed : ∃ c, whole = c ++ t ∧ ∀ x, requestsIn (c ++ x) = served ++ requestsIn x) :
    ∃ c, whole = c ++ t' ∧ ∀ x, requestsIn (c ++ x) = served ++ [f.request] ++ requestsIn x := by
  obtain ⟨c, rfl, hc⟩ := hconsumed
  obtain ⟨d, rfl, hd⟩ := Sent.packet_split hpacket
  refine ⟨c ++ d, by rw [List.append_assoc], fun x => ?_⟩
  rw [List.append_assoc, hc, requestsIn, Sent.packets_some (hd x), List.append_assoc]
  rfl

/-- A response is sent, and the buffer is empty again. -/
theorem csiSendResponse_session {s : CSI R CSIBuffer A} (hs : s.writer.filledLen = 0)
    (response : CSIPacket) :
    Always (session a) (succeeds fun _ s' w' => ∃ b o, s' = { s with writer := b } ∧
      b.filledLen = 0 ∧ w' = { w with sent := o }) (csiSendResponse response s) w := by
  have hle : s.writer.filledLen ≤ s.writer.maxLen := by omega
  refine (csiSend_full (session_takes w) rfl hle _ response).mono (succeeds_mono ?_)
  rintro _ _ w' ⟨b, hs', hb, hw'⟩
  exact ⟨b, _, hs', hb, hw'⟩

/-- A complete packet is served in one turn. -/
theorem csiRunServerTurn_ok (ha : a.Unused) (hhead : AtLoopHead a whole served t s w)
    (hpacket : Sent.packet t = some (f, t')) (hfit : f.payload.length ≤ a.blockSize)
    (hint : f.payload.length < 2 ^ 31) :
    Always (session a) (succeeds fun x s' w' => x = .inl () ∧
      AtLoopHead a whole (served ++ [f.request]) t' s' w') (csiRunServerTurn csiServe () s) w := by
  obtain ⟨hh, hlen⟩ := takeFrame_eq_some (Sent.takeFrame_packet hpacket)
  have hconsumed := consumed_next hpacket hhead.consumed
  have hcycle := @FixedAllocator.payload_cycle a f.payload.length
  have hreceive : Always (session a) (succeeds fun request s' w' =>
      (∃ r m, s' = { s with reader := r, memory := m,
                            allocator := (placed f.payload.length 0 a).2 }) ∧
      request.payload = (placed f.payload.length 0 a).1 ∧
      ⟨request.version, request.code, load s'.memory request.payload request.payloadLen.toNat⟩ =
        f.request ∧
      CSIBuffer.view (Session.reading whole served) s'.reader w' t')
      (Method.out ⟨0, 0, 0, 0⟩ csiReceiveRequest s) w := by
    have hstreams := (session_streams a whole served).toStreams
    have hplace : Placeable f.header.length.toNat s.allocator := by
      rw [hhead.allocator, ← hlen]
      exact FixedAllocator.placeable_first ha hfit
    refine (always_out_ok (csiReceive_ok hstreams hhead.view hh (by simp [hlen]) (hlen ▸ hint)
      hplace)).mono (succeeds_mono ?_)
    rintro request s' w' ⟨r, m, hx, hview, hload⟩
    cases hx
    simp only [← hlen, List.drop_left, List.take_left, hhead.allocator] at hview hload ⊢
    exact ⟨⟨r, m, rfl⟩, trivial, congrArg (CSIRequest.mk _ _) hload, hview⟩
  apply always_seq_ok hreceive
  rintro request _ w₁ ⟨⟨r, m, rfl⟩, hpayload, hrequest, hview⟩
  apply always_seq_ok (csiServe_ok hrequest (request_due hconsumed hview)
    fun n hn => (hcycle ha hfit hn).1)
  rintro response _ _ ⟨rfl, n, m', hn, rfl, hresponse⟩
  obtain ⟨-, a', hfree, hfree'⟩ := hcycle ha hfit hn
  rw [← hpayload] at hfree
  rw [seq_ok (payloadFree_ret hfree)]
  refine always_seq_ok (csiSendResponse_session ?_ response) ?_
  · exact hhead.writer
  rintro _ _ _ ⟨b, o, rfl, hb, rfl⟩
  rw [← hresponse] at hfree'
  rw [seq_ok (csiClientFreeResponsePayload_ret rfl hfree')]
  obtain ⟨hwf, rest, hrest, hin, hreceived, hserved⟩ := hview
  exact .ret ⟨rfl, rfl, hb, ⟨hwf, rest, hrest, hin, hreceived, by rw [hserved]⟩, hconsumed⟩

/-- Behind the last complete packet a turn fails, and nothing is served. -/
theorem csiRunServerTurn_fails (ha : a.Unused) (hhead : AtLoopHead a whole served t s w)
    (hframe : takeFrame t = none) (hend : ¬ EndsInHeader t)
    (hfit : ∀ {hd r}, header t = .ok (hd, r) →
      hd.length.toNat ≤ a.blockSize ∧ hd.length.toNat < 2 ^ 31) :
    Always (session a) (fails fun _ _ w' => w'.served = served)
      (csiRunServerTurn csiServe () s) w := by
  have hstreams := session_streams a whole served
  have hserved : ∀ {r w s}, CSIBuffer.view (Session.reading whole served) r w s →
      w.served = served := by
    rintro r w s ⟨-, _, -, -, -, h⟩
    exact h
  apply always_seq_fails
  apply always_out_fails
  cases hh : header t with
  | error e => exact csiReceive_badHeader hstreams.toStreams hserved hhead.view hh hend
  | ok hd =>
    obtain ⟨hd, r⟩ := hd
    obtain ⟨hblock, hint⟩ := hfit hh
    have hcut : r.length < hd.length.toNat := by
      rw [takeFrame, hh] at hframe
      simpa using hframe
    have hplace : Placeable hd.length.toNat s.allocator := by
      rw [hhead.allocator]
      exact FixedAllocator.placeable_first ha hblock
    exact csiReceive_cut hstreams hhead.view hh hcut hint hplace

end

/-! ## Whole runs -/

/-- The length of the payload that is cut at the end of a stream, if one is. -/
def cutLength (s : Bytes) : Nat :=
  match Sent.header (Sent.rest s) with
  | some (hd, _) => hd.length.toNat
  | none => 0

/-- All payloads fit a block, and their lengths an `int`. -/
def PayloadsFit (a : FixedAllocator) (s : Bytes) : Prop :=
  (∀ f ∈ Sent.packets s, f.payload.length ≤ a.blockSize ∧ f.payload.length < 2 ^ 31) ∧
    cutLength s ≤ a.blockSize ∧ cutLength s < 2 ^ 31

instance (a : FixedAllocator) (s : Bytes) : Decidable (PayloadsFit a s) :=
  inferInstanceAs (Decidable (_ ∧ _))

section

variable {a : FixedAllocator} {whole t : Bytes} {served : List CSIRequest}
  {s : CSI CSIBuffer CSIBuffer FixedAllocator} {w : Session}

/-- The loop serves the complete packets and then fails. -/
theorem csiRunServer_loop (ha : a.Unused) (hhead : AtLoopHead a whole served t s w)
    (hfit : PayloadsFit a t) (hend : ¬ EndsInHeader (Sent.rest t))
    (hlarge : ¬ Sent.HeaderTooLarge (Sent.rest t)) :
    Always (session a) (fails fun _ _ w' => w'.served = served ++ requestsIn t)
      (Method.iter (csiRunServerTurn csiServe) () s) w := by
  -- by induction on the number of bytes still to be read
  induction hn : t.length using Nat.strongRecOn generalizing t served s w with
  | ind n ih =>
    apply always_iter
    obtain ⟨hpackets, hcut⟩ := hfit
    cases hpacket : Sent.packet t with
    | none =>
      rw [Sent.rest_none hpacket] at hend hlarge
      have hframe : takeFrame t = none := by
        cases hframe : takeFrame t with
        | none => rfl
        | some p => cases hpacket.symm.trans (Sent.packet_takeFrame hframe hlarge)
      rw [requestsIn, Sent.packets_none hpacket, List.map_nil, List.append_nil]
      refine (csiRunServerTurn_fails ha hhead hframe hend ?_).mono ?_
      · intro hd r hh
        simpa [cutLength, Sent.rest_none hpacket, Sent.header_decoded hh hlarge] using hcut
      · rintro (⟨e | _, s'⟩ | _) w' hserved
        · exact hserved
        · exact False.elim hserved
        · exact hserved
    | some p =>
      obtain ⟨f, t'⟩ := p
      have hlt := Sent.packet_length hpacket
      have hf := Sent.packets_some hpacket
      have hrest := Sent.rest_some hpacket
      have hrequests : served ++ requestsIn t = served ++ [f.request] ++ requestsIn t' := by
        simp [requestsIn, hf]
      obtain ⟨hblock, hint⟩ := hpackets f (by simp [hf])
      have hfit' : PayloadsFit a t' :=
        ⟨fun g hg => hpackets g (by simp [hf, hg]), by simpa [cutLength, hrest] using hcut⟩
      apply (csiRunServerTurn_ok ha hhead hpacket hblock hint).mono
      rintro (⟨_ | x, s'⟩ | _) w' ho
      · exact ho.elim
      · obtain ⟨rfl, hhead'⟩ := ho
        rw [hrequests]
        exact ih t'.length (by omega) hhead' hfit' (hrest ▸ hend) (hrest ▸ hlarge) rfl
      · exact ho.elim

end

/-- The allocators are set up, no block is in use, and an I/O block has room for a
`CSIBuffer` and at least one byte. -/
structure CSIProcess.Ready (s : CSIProcess) : Prop where
  payload : s.payload.Unused
  iobuf : s.iobuf.Unused
  iobuf_blocks : 2 ≤ s.iobuf.blockCount.toNat
  iobuf_room : sizeofCSIBuffer < s.iobuf.blockSize

/-- A buffer that was set up is empty. -/
structure CSIBuffer.Fresh (b : CSIBuffer) : Prop where
  pos : b.pos = 0
  filledLen : b.filledLen = 0
  maxLen : 0 < b.maxLen

/-- The `max_len` of a new buffer: a difference of two words. -/
def newMaxLen (blockSize : Nat) : Nat :=
  (UInt64.ofNat blockSize - UInt64.ofNat sizeofCSIBuffer).toNat

theorem newMaxLen_toNat {blockSize : Nat} (h : blockSize < 2 ^ 64) :
    newMaxLen blockSize = (2 ^ 64 - 48 + blockSize) % 2 ^ 64 := by
  have hofNat : (UInt64.ofNat blockSize).toNat = blockSize := by
    rw [UInt64.toNat_ofNat']
    exact Nat.mod_eq_of_lt h
  have hheader : (UInt64.ofNat sizeofCSIBuffer).toNat = 48 := rfl
  rw [newMaxLen, UInt64.toNat_sub, hofNat, hheader]

theorem newMaxLen_eq {blockSize : Nat} (h : blockSize < 2 ^ 64)
    (hroom : sizeofCSIBuffer ≤ blockSize) :
    newMaxLen blockSize = blockSize - sizeofCSIBuffer := by
  rw [newMaxLen_toNat h]
  rw [sizeofCSIBuffer] at hroom ⊢
  omega

/-- The buffer that `new_buffer` sets up in the next block. -/
def CSIProcess.nextBuffer (s : CSIProcess) : CSIBuffer :=
  ⟨0, 0, newMaxLen s.iobuf.blockSize,
    fun i => s.memory ((s.iobuf.malloc s.iobuf.blockSize).1 + sizeofCSIBuffer + i)⟩

theorem newBuffer_eq {s : CSIProcess} (hblock : (s.iobuf.malloc s.iobuf.blockSize).1 ≠ 0) :
    newBuffer (X := X) (Y := Y) s =
      .ret (.ok s.nextBuffer, { s with iobuf := (s.iobuf.malloc s.iobuf.blockSize).2 }) := by
  simp only [newBuffer, get_seq, set_seq, hblock, ↓reduceIte]
  rfl

theorem newBuffer_ret {s : CSIProcess} (hsize : sizeofCSIBuffer < s.iobuf.blockSize)
    (hblock : (s.iobuf.malloc s.iobuf.blockSize).1 ≠ 0) :
    ∃ b : CSIBuffer, b.Fresh ∧ newBuffer (X := X) (Y := Y) s =
      .ret (.ok b, { s with iobuf := (s.iobuf.malloc s.iobuf.blockSize).2 }) := by
  have hmax : 0 < newMaxLen s.iobuf.blockSize := by
    rw [newMaxLen_eq s.iobuf.blockSize_lt (Nat.le_of_lt hsize)]
    exact Nat.sub_pos_of_lt hsize
  exact ⟨s.nextBuffer, ⟨rfl, rfl, hmax⟩, newBuffer_eq hblock⟩

/-- When `new_buffer` returns, it has found a block. -/
theorem newBuffer_inv {s s' : CSIProcess} {b : CSIBuffer}
    (h : newBuffer s = (.ret (.ok b, s') : Prog (CsiRes X Y) _)) :
    (s.iobuf.malloc s.iobuf.blockSize).1 ≠ 0 ∧
      s' = { s with iobuf := (s.iobuf.malloc s.iobuf.blockSize).2 } ∧ b = s.nextBuffer := by
  by_cases hnull : (s.iobuf.malloc s.iobuf.blockSize).1 = 0
  · simp only [newBuffer, get_seq, set_seq, hnull, ↓reduceIte] at h
    cases h
  · rw [newBuffer_eq hnull] at h
    cases h
    exact ⟨hnull, rfl, rfl⟩

theorem CSIBuffer.Fresh.wf {b : CSIBuffer} (h : b.Fresh) : b.Wf :=
  ⟨by rw [h.pos]; exact Nat.zero_le _, by rw [h.filledLen]; exact Nat.zero_le _, h.maxLen⟩

theorem CSIBuffer.Fresh.unread_eq_nil {b : CSIBuffer} (h : b.Fresh) : b.unread = [] :=
  CSIBuffer.unread_empty (h.pos.trans h.filledLen.symm)

/-- The two buffers are set up. -/
theorem csiServerBuffers_ret {s : CSIProcess} (hs : s.Ready) {source sink : UInt64}
    (hsource : source % 2 = 0) (hsink : sink % 2 = 1) :
    ∃ reader writer s', reader.Fresh ∧ writer.Fresh ∧ s'.payload = s.payload ∧
      csiServerBuffers (X := X) (Y := Y) (.ok [source, sink]) s =
        .ret (.ok (reader, writer), s') := by
  have hroom := hs.iobuf_room
  have hpos : 0 < s.iobuf.blockSize := by omega
  have hfirst : s.iobuf.malloc s.iobuf.blockSize =
      (s.iobuf.buf, { s.iobuf with usedFlags := 1 }) := by
    have hplaced := FixedAllocator.placed_first hs.iobuf hpos (Nat.le_refl _)
    rwa [placed, if_pos hpos] at hplaced
  have hsecond : FixedAllocator.malloc s.iobuf.blockSize { s.iobuf with usedFlags := 1 } =
      (s.iobuf.buf + s.iobuf.blockSize * 1, { s.iobuf with usedFlags := 3 }) := by
    have hplaced := FixedAllocator.placed_second hpos (Nat.le_refl _) hs.iobuf_blocks
    rwa [placed, if_pos hpos] at hplaced
  have hbuf := hs.iobuf.buf
  obtain ⟨reader, hreader, hread⟩ := newBuffer_ret (X := X) (Y := Y) (s := s) hroom
    (by rw [hfirst]; exact Nat.ne_of_gt hbuf)
  rw [hfirst] at hread
  obtain ⟨writer, hwriter, hwrite⟩ := newBuffer_ret (X := X) (Y := Y)
    (s := { s with iobuf := { s.iobuf with usedFlags := 1 } }) hroom
    (by
      show (FixedAllocator.malloc s.iobuf.blockSize _).1 ≠ 0
      rw [hsecond]
      show _ + _ ≠ 0
      omega)
  have hpipe : newPipeReader (X := X) (Y := Y) source s = .ret (.ok (), s) := by
    simp only [newPipeReader, hsource]
    rfl
  have hpipe' : ∀ s, newPipeWriter (X := X) (Y := Y) sink s = .ret (.ok (), s) := by
    intro s
    simp only [newPipeWriter, hsink]
    rfl
  rw [csiServerBuffers, ofExcept_ok_seq]
  simp only
  rw [seq_ok hpipe, seq_ok hread, seq_ok (hpipe' _), seq_ok hwrite]
  refine ⟨reader, writer, _, hreader, hwriter, ?_, rfl⟩
  rfl

/-- The two buffers are set up, and the loop runs. -/
theorem csiRunServer_always {s : CSIProcess} (hs : s.Ready) {source sink : UInt64}
    (hsource : source % 2 = 0) (hsink : sink % 2 = 1) {input : Bytes}
    (hfit : PayloadsFit s.payload input) (hend : ¬ EndsInHeader (Sent.rest input))
    (hlarge : ¬ Sent.HeaderTooLarge (Sent.rest input)) :
    Always (session s.payload) (fails fun _ _ w' => w'.served = requestsIn input)
      (csiRunServer csiServe (.ok [source, sink]) s) (Session.start input) := by
  obtain ⟨reader, writer, s', hreader, hwriter, hpayload, hset⟩ :=
    csiServerBuffers_ret hs hsource hsink
  rw [csiRunServer, seq_ok hset]
  apply always_zoom_fails
  have hhead : AtLoopHead s.payload input [] input ⟨reader, writer, s'.payload, s'.memory⟩
      (Session.start input) :=
    ⟨hpayload, hwriter.filledLen,
      ⟨hreader.wf, input, by rw [hreader.unread_eq_nil]; rfl, rfl, rfl, rfl⟩, [], rfl,
      fun _ => rfl⟩
  simpa using csiRunServer_loop hs.payload hhead hfit hend hlarge

/-- **The C server serves what was received**, unless the stream ends while a header
is read, or a header has a number that is too large. -/
theorem csi_server_serves_received {s : CSIProcess} (hs : s.Ready) {source sink : UInt64}
    (hsource : source % 2 = 0) (hsink : sink % 2 = 1) {input : Bytes}
    (hfit : PayloadsFit s.payload input) (hend : ¬ EndsInHeader (Sent.rest input))
    (hlarge : ¬ Sent.HeaderTooLarge (Sent.rest input)) :
    ServesReceived (.ok [source, sink]) s input := by
  have halways := csiRunServer_always hs hsource hsink hfit hend hlarge
  have hstart : (Session.start input).served <+: requestsIn (Session.start input).received :=
    List.nil_prefix
  exact ⟨halways,
    (halways.safely_inv served_due hstart).mono (fun _ hi => hi) fun _ _ _ _ => trivial⟩

/-- Two payload blocks and two I/O blocks of 512 bytes, and all memory zero. -/
def zeroedProcess : CSIProcess where
  payload := ⟨0, 2, 1024, 4096⟩
  iobuf := ⟨0, 2, 1024, 8192⟩
  memory := fun _ => 0

theorem zeroedProcess_ready : zeroedProcess.Ready where
  payload := ⟨rfl, by decide⟩
  iobuf := ⟨rfl, by decide⟩
  iobuf_blocks := by decide
  iobuf_room := by decide

/-- A request, and one whose payload is cut. -/
theorem csi_server_serves_first :
    ServesReceived (.ok [2, 3]) zeroedProcess [0, 1, 1, 65, 0, 2, 5, 1] :=
  csi_server_serves_received zeroedProcess_ready (by decide) (by decide) (by decide +kernel)
    (by decide +kernel) (by decide +kernel)

/-! ## A request that was never sent -/

/-- The other end is closed: the first read fails. The callback is called and answers. -/
def closedChoices : List (Choice ServerRes Session) :=
  [fun op w => match op with
    | .read _ => if w.input = [] then some (.error ⟨7, by decide⟩, w) else none
    | _ => none,
  fun op w => match op with
    | .ext req => some (.ok ⟨0, 0, []⟩, { w with served := w.served ++ [req] })
    | _ => none]

theorem closedChoices_step {a : FixedAllocator} :
    ∀ c ∈ closedChoices, ∀ op w r w', c op w = some (r, w') → (session a).step w op r w' := by
  intro c hc op w r w' h
  simp only [closedChoices, List.mem_cons, List.not_mem_nil, or_false] at hc
  rcases hc with rfl | rfl
  · cases op with
    | read n =>
      simp only [Option.ite_none_right_eq_some, Option.some.injEq] at h
      obtain ⟨hin, rfl, rfl⟩ := h
      exact .inl ⟨hin, ⟨_, rfl⟩, rfl⟩
    | write bs => cases h
    | flush => cases h
    | ext req => cases h
  · cases op with
    | read n => cases h
    | write bs => cases h
    | flush => cases h
    | ext req =>
      simp only [Option.some.injEq] at h
      obtain ⟨rfl, rfl⟩ := h
      exact ⟨⟨_, rfl, .inl rfl⟩, rfl⟩

/-- The failed read is swallowed, and the zeros of the fresh buffer are read as the
method id and the length of a request. -/
theorem csi_server_serves_phantom : ¬ ServesReceived (.ok [2, 3]) zeroedProcess [] := by
  rintro ⟨-, hsafe⟩
  have hreach := reach_exec closedChoices_step 40 (csiRunServer csiServe (.ok [2, 3]) zeroedProcess)
    (Session.start []) (E := session zeroedProcess.payload)
  have hserved : ((csiRunServer csiServe (.ok [2, 3]) zeroedProcess).exec 40 closedChoices
      (Session.start [])).2 = ⟨[], [], [], [⟨0, 0, []⟩]⟩ := by decide +kernel
  have hprefix := (hsafe _ _ hreach).1
  rw [hserved, requestsIn, Sent.packets_none (s := []) rfl] at hprefix
  cases List.prefix_nil.mp hprefix

end CkbScriptIpc
