import CkbScriptIpc.Csi.Allocator
import CkbScriptIpc.Csi.Server

/-!
# The C library: the client

`csi_call`, and who owns the payload of the response behind it. A ledger (`Heap`) takes
the place of the payload allocator: it refuses to free what it has not handed out.

* `csiCall_payload`: in every run the pointer to the payload stays as it was, or is that
  of a block which this call has obtained;
* `calls_own_payload`: when it was `NULL` before each call, or a payload comes back, what
  is freed behind every call is a block of that call.
-/

namespace CkbScriptIpc

open Interaction

variable {R V A W : Type}

/-- `csi_call`, with the response as an out-parameter that holds anything before. The error
code is cut to an `int`. -/
def csiCall [CSIRead R] [CSIWrite V] [PayloadAllocator A] (request : CSIPacket) :
    Method ServerRes Code (CSI R V A × CSIPacket) Unit := do
  Method.zoom Prod.fst (fun c s => (c, s.2)) (csiSendRequest request)
  csiReceiveResponse
  let s ← Method.get
  let err := s.2.code.toInt64.toInt32
  if h : err = 0 then return () else Method.throw ⟨err, h⟩

/-! ## What a call does to the payload pointer -/

section

variable {E : Env ServerRes W}

/-- What follows the reception in `csi_call` only looks at the error code. -/
theorem frames_errorCode : Frames E payloadPart (do
    let s ← Method.get
    let err := s.2.code.toInt64.toInt32
    if h : err = 0 then return () else Method.throw ⟨err, h⟩ :
      Method ServerRes Code (CSI R V A × CSIPacket) Unit) := by
  refine frames_seq frames_get fun s => ?_
  by_cases hzero : s.2.code.toInt64.toInt32 = 0
  · simp only [hzero, ↓reduceDIte]
    exact frames_pure _
  · simp only [hzero, ↓reduceDIte]
    exact frames_throw _

/-- **What a call does** to the pointer, however it ends: nothing, or it is that of a block
which the call has obtained. -/
theorem csiCall_payload [CSIRead R] [CSIWrite V] [PayloadAllocator A] (request : CSIPacket)
    (x : CSI R V A × CSIPacket) (w : W) :
    Safely E (fun _ => True) (fun o _ => ∀ r x', o = .ret (r, x') → KeptOrObtained x x')
      (csiCall request x) w := by
  refine safely_seq_frames (onChannel_frames (csiSend_frames _ _)) (fun _ _ => .inl) ?_
  intro _ x₁ w₁ h₁
  refine safely_seq ((csiReceive_payload x₁ w₁).mono (fun _ hi => hi) ?_)
  rintro (⟨e | _, x₂⟩ | _) v - ho
  · refine safely_ret trivial ?_
    rintro r x' ⟨⟩
    exact (ho _ _ rfl).imp (fun h => h.trans h₁) fun h => h.of_part h₁
  · apply (frames_errorCode x₂ v).mono (fun _ hi => hi)
    intro o u _ hs r x' he
    have hpart := hs r x' he
    exact (ho _ _ rfl).imp (fun h => hpart.trans (h.trans h₁))
      fun h => (h.of_part h₁).to_part hpart
  · exact safely_panic trivial (by rintro _ _ ⟨⟩)

end

/-! ## The other end -/

/-- What a client faces. If `steady`, every write is taken in full and the reads hand out
`input` and then fail; else any call may be answered in any way. -/
structure Client where
  input : Bytes
  sent : Bytes
  steady : Bool

def client : Env ServerRes Client where
  pre
    | _, .read n => 0 < n
    | _, .write _ => True
    | _, .flush => True
    | _, .ext _ => False
  step
    | w, .read n, r, w' =>
      if w.steady then
        (w.input = [] ∧ (∃ e, r = .error e) ∧ w' = w) ∨
          ∃ c, c ≠ [] ∧ c.length ≤ n ∧ w.input = c ++ w'.input ∧ r = .ok c ∧
            w' = { w with input := w'.input }
      else (∀ c, r = .ok c → c.length ≤ n) ∧ w'.steady = false
    | w, .write bs, r, w' =>
      if w.steady then r = .ok bs.length ∧ w' = { w with sent := w.sent ++ bs }
      else w'.steady = false
    | w, .flush, r, w' => if w.steady then r = .ok () ∧ w' = w else w'.steady = false
    | _, .ext _, _, _ => False

theorem client_feeds : Feeds client fun w t => w.steady = true ∧ w.input = t where
  pre _ hn := hn
  chunk := by
    rintro w s n r w' ⟨hsteady, rfl⟩ hne hs
    simp only [client, hsteady, ↓reduceIte] at hs
    rcases hs with ⟨hnil, -, -⟩ | ⟨c, hc, hlen, hsplit, rfl, hw'⟩
    · exact absurd hnil hne
    · refine ⟨c, w'.input, hsplit, hc, hlen, rfl, ?_, rfl⟩
      rw [hw']

theorem client_takes {w₀ : Client} (hsteady : w₀.steady = true) :
    Takes client fun w o => w = { w₀ with sent := o } where
  pre _ _ := trivial
  write := by
    rintro w o bs r w' rfl hs
    simp only [client, hsteady, ↓reduceIte] at hs
    exact ⟨hs.1, by rw [hs.2, hsteady]⟩

/-! ## The response that comes back -/

section

variable [PayloadAllocator A] {c : CSI CSIBuffer CSIBuffer A} {p : CSIPacket} {w : Client}

/-- The request can be sent, and the response that comes back has the header `hd`. -/
structure Responds (hd : Header) (c : CSI CSIBuffer CSIBuffer A) (w : Client) : Prop where
  steady : w.steady = true
  reader : c.reader.Wf
  writer : c.writer.filledLen ≤ c.writer.maxLen
  header : ∃ t, header (c.reader.unread ++ w.input) = .ok (hd, t)

omit [PayloadAllocator A] in
/-- The request goes out, and nothing is read. -/
theorem csiSendRequest_steady (hsteady : w.steady = true)
    (hwriter : c.writer.filledLen ≤ c.writer.maxLen) (request : CSIPacket) :
    Always client (succeeds fun _ c' w' => (∃ b, c' = { c with writer := b }) ∧
      w'.steady = true ∧ w'.input = w.input) (csiSendRequest request c) w := by
  have hsend := csiSend_full (client_takes hsteady) (o := w.sent) rfl hwriter .sendRequest request
  refine hsend.mono (succeeds_mono ?_)
  rintro _ _ _ ⟨b, rfl, -, rfl⟩
  exact ⟨⟨b, rfl⟩, hsteady, rfl⟩

/-- A payload of `len` bytes has a new block, and without a payload the pointer is left
alone. -/
def PayloadFollows (len : UInt64) (x x' : CSI CSIBuffer CSIBuffer A × CSIPacket) : Prop :=
  if len > 0 then Obtained x x' else payloadPart x' = payloadPart x

theorem csiReceive_responds {hd : Header} {b t : Bytes}
    (hview : CSIBuffer.view (fun (w : Client) t => w.steady = true ∧ w.input = t) c.reader w b)
    (hheader : header b = .ok (hd, t)) :
    Safely client (fun _ => True) (fun o _ => ∀ r x', o = .ret (r, x') →
      PayloadFollows hd.length (c, p) x') (csiReceive (c, p)) w := by
  rw [csiReceive_eq]
  apply safely_seq_ok (csiReceiveHeader_ok (CSIBuffer.streams client_feeds) hview hheader).safely
  rintro _ _ w' ⟨r, -, rfl⟩
  exact csiReceivePayload_obtains _ w'

/-- The response decides what becomes of the payload pointer. -/
theorem csiCall_responds {hd : Header} (h : Responds hd c w) (request : CSIPacket) :
    Safely client (fun _ => True) (fun o _ => ∀ r x', o = .ret (r, x') →
      PayloadFollows hd.length (c, p) x') (csiCall request (c, p)) w := by
  obtain ⟨t, hheader⟩ := h.header
  apply safely_seq_ok (always_zoom_ok (csiSendRequest_steady h.steady h.writer request)).safely
  rintro _ _ w₀ ⟨_, ⟨⟨b, rfl⟩, hsteady, hinput⟩, rfl⟩
  have hview : CSIBuffer.view (fun (w : Client) t => w.steady = true ∧ w.input = t) c.reader w₀
      (c.reader.unread ++ w.input) := ⟨h.reader, w₀.input, by rw [hinput], hsteady, rfl⟩
  refine safely_seq ((csiReceive_responds (c := { c with writer := b }) hview hheader).mono
    (fun _ hi => hi) ?_)
  rintro (⟨e | _, x₁⟩ | _) v - ho
  · exact safely_ret trivial (by rintro r x' ⟨⟩; exact ho _ _ rfl)
  · apply (frames_errorCode x₁ v).mono (fun _ hi => hi)
    intro o u _ hs r x' he
    have hpart := hs r x' he
    have hpost := ho _ _ rfl
    rw [PayloadFollows] at hpost ⊢
    by_cases hpos : hd.length > 0
    · rw [if_pos hpos] at hpost ⊢
      exact hpost.to_part hpart
    · rw [if_neg hpos] at hpost ⊢
      exact hpart.trans hpost
  · exact safely_panic trivial (by rintro _ _ ⟨⟩)

end

/-! ## The ledger -/

section

variable [PayloadAllocator A]

/-- A ledger takes part in what its allocator does, and refuses to free what is not
live. -/
instance : PayloadAllocator (Heap A) where
  malloc size h :=
    let block := PayloadAllocator.malloc size h.allocator
    (block.1, ⟨block.2, if block.1 = 0 then h.live else block.1 :: h.live⟩)
  free ptr h :=
    if ptr ∈ h.live then (PayloadAllocator.free ptr h.allocator).map (⟨·, h.live.erase ptr⟩)
    else none

/-- The allocator never refuses a live pointer. -/
def Heap.Sound (h₀ : Heap A) : Prop :=
  ∀ h, Heap.Reach (fun _ => True) h₀ h → ∀ ptr ∈ h.live,
    ∃ a, PayloadAllocator.free ptr h.allocator = some a

theorem FixedAllocator.sound {buf : Nat} {len blockCount : UInt64} {a : FixedAllocator}
    (hlen : 1024 ≤ len) (hinit : fixedAllocatorInit buf len blockCount = .ok a) :
    Heap.Sound ⟨a, []⟩ :=
  fun _ hr _ hptr => reach_frees hlen hinit hr hptr

/-- Before a call the pointer to the payload is `NULL`, or the response that comes back
has a payload. -/
def CallReady (c : CSI CSIBuffer CSIBuffer (Heap A)) (p : CSIPacket) (w : Client) : Prop :=
  p.payload = 0 ∨ ∃ hd : Header, hd.length > 0 ∧ Responds hd c w

/-- The ledgers that cycles of a call and a free of its payload lead to. Everything else
may change between the calls. -/
inductive Cycles (h₀ : Heap A) : Heap A → Prop
  | start : Cycles h₀ h₀
  | next {c c' c'' : CSI CSIBuffer CSIBuffer (Heap A)} {request p p' : CSIPacket}
      {w w' : Client} {r : Except Code Unit} : Cycles h₀ c.allocator → CallReady c p w →
      Ends client (csiCall request (c, p)) w (.ret (r, (c', p'))) w' →
      csiClientFreeResponsePayload p' c' = (.ret (.ok (), c'') : Prog ServerRes _) →
      Cycles h₀ c''.allocator

variable {h₀ : Heap A} {c c' : CSI CSIBuffer CSIBuffer (Heap A)} {p p' request : CSIPacket}
  {w w' : Client} {r : Except Code Unit}

/-- After a call that was ready the pointer is `NULL`, or that of a block of the call. -/
theorem csiCall_owns (hready : CallReady c p w)
    (hcall : Ends client (csiCall request (c, p)) w (.ret (r, (c', p'))) w') :
    p'.payload = 0 ∧ c'.allocator = c.allocator ∨ Obtained (c, p) (c', p') := by
  rcases hready with hnull | ⟨hd, hpos, hresponds⟩
  · have hpost := (csiCall_payload request (c, p) w _ _ hcall).2 _ rfl _ _ rfl
    refine hpost.imp (fun hkept => ?_) fun hobtained => hobtained
    exact ⟨(congrArg Prod.snd hkept).trans hnull, congrArg Prod.fst hkept⟩
  · have hpost := (csiCall_responds hresponds request _ _ hcall).2 _ rfl _ _ rfl
    rw [PayloadFollows, if_pos hpos] at hpost
    exact .inr hpost

/-- A block that a call obtained is live, and freeing it brings the ledger back. -/
theorem obtained_frees (hsound : h₀.Sound) (hr : Heap.Reach (fun _ => True) h₀ c.allocator)
    (h : Obtained (c, p) (c', p')) :
    ∃ c'', csiClientFreeResponsePayload p' c' = (.ret (.ok (), c'') : Prog ServerRes _) ∧
      c''.allocator.live = c.allocator.live ∧
      Heap.Reach (fun _ => True) h₀ c''.allocator := by
  obtain ⟨n, hn, hne⟩ := h
  have hptr : (PayloadAllocator.malloc n c.allocator.allocator).1 = p'.payload :=
    congrArg Prod.fst hn
  have hledger : c'.allocator =
      ⟨(PayloadAllocator.malloc n c.allocator.allocator).2, p'.payload :: c.allocator.live⟩ := by
    have hsnd : (PayloadAllocator.malloc n c.allocator).2 = c'.allocator := congrArg Prod.snd hn
    rw [← hsnd, ← hptr]
    show Heap.mk _ (if _ then _ else _) = _
    rw [if_neg (hptr ▸ hne)]
  have hstep : Heap.Reach (fun _ => True) h₀ c'.allocator := by
    have hmalloc := @Heap.Step.malloc A _ (fun _ => True) c.allocator n trivial
    rw [hptr, if_neg hne, ← hledger] at hmalloc
    exact hr.tail hmalloc
  have hlive : p'.payload ∈ c'.allocator.live := by
    rw [hledger]
    exact List.mem_cons_self
  obtain ⟨a, ha⟩ := hsound _ hstep _ hlive
  have hfree : PayloadAllocator.free p'.payload c'.allocator =
      some ⟨a, c'.allocator.live.erase p'.payload⟩ := by
    show (if p'.payload ∈ c'.allocator.live then _ else _) = _
    rw [if_pos hlive, ha]
    rfl
  refine ⟨{ c' with allocator := ⟨a, c'.allocator.live.erase p'.payload⟩ }, ?_, ?_, ?_⟩
  · simp only [csiClientFreeResponsePayload, hne, ↓reduceIte]
    exact payloadFree_ret hfree
  · show c'.allocator.live.erase p'.payload = _
    rw [hledger, List.erase_cons_head]
  · exact hstep.tail (.free hlive ha)

/-- When a response comes back, these are the only calls that leave such a pointer. -/
theorem csiCall_owns_iff {hd : Header} (h : Responds hd c w)
    (hcall : Ends client (csiCall request (c, p)) w (.ret (r, (c', p'))) w') :
    (p'.payload = 0 ∧ c'.allocator = c.allocator ∨ Obtained (c, p) (c', p')) ↔
      p.payload = 0 ∨ hd.length > 0 := by
  have hpost := (csiCall_responds h request _ _ hcall).2 _ rfl _ _ rfl
  rw [PayloadFollows] at hpost
  by_cases hpos : hd.length > 0
  · rw [if_pos hpos] at hpost
    exact ⟨fun _ => .inr hpos, fun _ => .inr hpost⟩
  rw [if_neg hpos] at hpost
  have hpayload : p'.payload = p.payload := congrArg Prod.snd hpost
  have hallocator : c'.allocator = c.allocator := congrArg Prod.fst hpost
  constructor
  · rintro (⟨hnull, -⟩ | ⟨n, hn, hne⟩)
    · exact .inl (hpayload ▸ hnull)
    · -- a block that was obtained would be live
      have hlive := congrArg (·.2.live) hn
      have hptr : (PayloadAllocator.malloc n c.allocator.allocator).1 = p'.payload :=
        congrArg Prod.fst hn
      have hgrown : p'.payload :: c.allocator.live = c'.allocator.live := by
        rw [← hlive, ← hptr]
        show _ = if _ then _ else _
        rw [if_neg (hptr ▸ hne)]
      rw [hallocator] at hgrown
      exact absurd hgrown (List.cons_ne_self _ _)
  · rintro (hnull | hlarge)
    · exact .inl ⟨hpayload.trans hnull, hallocator⟩
    · exact absurd hlarge hpos

theorem cycles_reach (hsound : h₀.Sound) {h : Heap A} (hc : Cycles h₀ h) :
    Heap.Reach (fun _ => True) h₀ h := by
  induction hc with
  | start => exact .refl
  | @next c c' c'' request p p' w w' r _ hready hcall hfree ih =>
    rcases csiCall_owns hready hcall with ⟨hnull, hsame⟩ | hobtained
    · simp only [csiClientFreeResponsePayload, hnull, ↓reduceIte] at hfree
      cases hfree
      rw [hsame]
      exact ih
    · obtain ⟨d, hd, -, hr⟩ := obtained_frees hsound ih hobtained
      rw [hd] at hfree
      cases hfree
      exact hr

/-- **Who owns the payload.** In every run of calls and frees in which every call is ready,
the pointer behind a call is `NULL` or that of a block which this call obtained, and
freeing it succeeds and leaves no block behind. -/
theorem calls_own_payload (hsound : h₀.Sound) (hc : Cycles h₀ c.allocator)
    (hready : CallReady c p w)
    (hcall : Ends client (csiCall request (c, p)) w (.ret (r, (c', p'))) w') :
    (p'.payload = 0 ∧ c'.allocator = c.allocator ∨ Obtained (c, p) (c', p')) ∧
      ∃ c'', csiClientFreeResponsePayload p' c' = (.ret (.ok (), c'') : Prog ServerRes _) ∧
        c''.allocator.live = c.allocator.live := by
  have howns := csiCall_owns hready hcall
  refine ⟨howns, ?_⟩
  rcases howns with ⟨hnull, hsame⟩ | hobtained
  · refine ⟨c', ?_, by rw [hsame]⟩
    simp only [csiClientFreeResponsePayload, hnull, ↓reduceIte]
    rfl
  · obtain ⟨c'', hfree, hlive, -⟩ := obtained_frees hsound (cycles_reach hsound hc) hobtained
    exact ⟨c'', hfree, hlive⟩

end

/-! ## A pointer that nobody owns -/

/-- A client with two payload blocks and empty buffers of sixteen bytes. -/
def freshClient : CSI CSIBuffer CSIBuffer (Heap FixedAllocator) where
  reader := ⟨0, 0, 16, fun _ => 0⟩
  writer := ⟨0, 0, 16, fun _ => 0⟩
  allocator := ⟨⟨0, 2, 1024, 4096⟩, []⟩
  memory := fun _ => 0

/-- The request is written, and the response is read at once. -/
def readAtOnce (response : Bytes) : List (Choice ServerRes Client) :=
  [fun op w => match op with
    | .write bs =>
      if w.steady then some (.ok bs.length, { w with sent := w.sent ++ bs }) else none
    | _ => none,
  fun op w => match op with
    | .read n =>
      if w.steady ∧ w.input = response ∧ response.length ≤ n then
        some (.ok response, { w with input := [] })
      else none
    | _ => none]

theorem readAtOnce_step {response : Bytes} (hne : response ≠ []) :
    ∀ c ∈ readAtOnce response, ∀ op w r w', c op w = some (r, w') → client.step w op r w' := by
  intro c hc op w r w' h
  simp only [readAtOnce, List.mem_cons, List.not_mem_nil, or_false] at hc
  rcases hc with rfl | rfl
  · cases op with
    | write bs =>
      simp only [Option.ite_none_right_eq_some, Option.some.injEq] at h
      obtain ⟨hsteady, rfl, rfl⟩ := h
      simp only [client, hsteady, ↓reduceIte]
      exact ⟨rfl, trivial⟩
    | read n => cases h
    | flush => cases h
    | ext req => cases h
  · cases op with
    | read n =>
      simp only [Option.ite_none_right_eq_some, Option.some.injEq] at h
      obtain ⟨⟨hsteady, hin, hn⟩, rfl, rfl⟩ := h
      simp only [client, hsteady, ↓reduceIte]
      exact .inr ⟨response, hne, hn, by rw [hin]; simp, rfl, trivial⟩
    | write bs => cases h
    | flush => cases h
    | ext req => cases h

/-- A client, and the struct that its responses go to. -/
abbrev Calling := CSI CSIBuffer CSIBuffer (Heap FixedAllocator) × CSIPacket

/-- What a call comes to when `response` comes back. -/
def comesBack (request : CSIPacket) (response : Bytes) (x : Calling) :
    Option (Except Code Unit × Calling) :=
  ((csiCall request x).exec 60 (readAtOnce response) ⟨response, [], true⟩).1.value

theorem comesBack_ends {request : CSIPacket} {response : Bytes} {x : Calling}
    {y : Except Code Unit × Calling} (hne : response ≠ [])
    (h : comesBack request response x = some y) :
    ∃ w', Ends client (csiCall request x) ⟨response, [], true⟩ (.ret y) w' := by
  have hreach := reach_exec (readAtOnce_step hne) 60 (csiCall request x) ⟨response, [], true⟩
  rw [eq_ret_of_value h] at hreach
  exact ⟨_, hreach⟩

/-- A call, and the payload of its response is freed. -/
def cycle (request : CSIPacket) (response : Bytes) (x : Calling) : Option Calling :=
  match comesBack request response x with
  | some (_, c, p) =>
    match (csiClientFreeResponsePayload p c : Prog ServerRes _).value with
    | some (.ok (), c') => some (c', p)
    | _ => none
  | none => none

theorem cycle_next {request : CSIPacket} {response : Bytes} {x x' : Calling}
    {h₀ : Heap FixedAllocator} (hne : response ≠ []) (hc : Cycles h₀ x.1.allocator)
    (hready : CallReady x.1 x.2 ⟨response, [], true⟩) (h : cycle request response x = some x') :
    Cycles h₀ x'.1.allocator := by
  unfold cycle at h
  split at h
  · rename_i r c p hback
    obtain ⟨w', hcall⟩ := comesBack_ends hne hback
    split at h
    · rename_i c' hfree
      cases h
      exact .next hc hready hcall (eq_ret_of_value hfree)
    · cases h
  · cases h

/-- A call into a struct that nobody has set. -/
def staleCall : Calling := (freshClient, ⟨0, 0, 0, 4660⟩)

/-- A request with two bytes. -/
def twoZeros : CSIPacket := ⟨0, 0, 2, 100⟩

/-- After the payload of its response has been freed the same struct is used again. -/
def secondCall : Calling :=
  (cycle twoZeros [0, 0, 2, 7, 9] staleCall).get (by decide +kernel)

theorem freshClient_responds : Responds ⟨0, 0, 0⟩ freshClient ⟨[0, 0, 0], [], true⟩ where
  steady := rfl
  reader := ⟨by decide, by decide, by decide⟩
  writer := by decide
  header := ⟨[], by decide +kernel⟩

theorem staleCall_ready : CallReady staleCall.1 staleCall.2 ⟨[0, 0, 2, 7, 9], [], true⟩ :=
  .inr ⟨⟨0, 0, 2⟩, by decide, rfl, ⟨by decide, by decide, by decide⟩, by decide,
    [7, 9], by decide +kernel⟩

theorem secondCall_ready : CallReady secondCall.1 secondCall.2 ⟨[0, 0, 1, 5], [], true⟩ :=
  .inr ⟨⟨0, 0, 1⟩, by decide, rfl,
    ⟨by decide +kernel, by decide +kernel, by decide +kernel⟩, by decide +kernel,
    [5], by decide +kernel⟩

/-- A pointer that is not `NULL` is replaced when the response has a payload. -/
theorem calls_own_replaced : secondCall.2.payload ≠ 0 ∧
    ∃ r c' p' w', Ends client (csiCall twoZeros secondCall) ⟨[0, 0, 1, 5], [], true⟩
      (.ret (r, (c', p'))) w' ∧
    (p'.payload = 0 ∧ c'.allocator = secondCall.1.allocator ∨ Obtained secondCall (c', p')) ∧
    ∃ c'', csiClientFreeResponsePayload p' c' = (.ret (.ok (), c'') : Prog ServerRes _) ∧
      c''.allocator.live = [] := by
  have hsound : Heap.Sound (A := FixedAllocator) ⟨⟨0, 2, 1024, 4096⟩, []⟩ :=
    FixedAllocator.sound (by decide) (show fixedAllocatorInit 4096 1024 2 = .ok _ from rfl)
  have hfirst : cycle twoZeros [0, 0, 2, 7, 9] staleCall = some secondCall :=
    (Option.some_get _).symm
  have hcycles := cycle_next (List.cons_ne_nil _ _) .start staleCall_ready hfirst
  have hready := secondCall_ready
  have hnone : secondCall.1.allocator.live = [] := by decide +kernel
  have hpayload : secondCall.2.payload ≠ 0 := by decide +kernel
  have hback : (comesBack twoZeros [0, 0, 1, 5] secondCall).isSome := by decide +kernel
  obtain ⟨⟨r, c', p'⟩, hy⟩ := Option.isSome_iff_exists.mp hback
  obtain ⟨w', hcall⟩ := comesBack_ends (List.cons_ne_nil _ _) hy
  -- from here on the client need not be computed
  clear hfirst hback hy
  generalize secondCall = x at *
  obtain ⟨howns, c'', hfree, hlive⟩ := calls_own_payload hsound hcycles hready hcall
  exact ⟨hpayload, r, c', p', w', hcall, howns, c'', hfree, hlive.trans hnone⟩

/-- A call into a struct that nobody has set leaves its pointer, and freeing that panics. -/
theorem stale_pointer_freed : ∃ r c' p' w',
    Ends client (csiCall ⟨0, 0, 0, 0⟩ (freshClient, ⟨0, 0, 0, 4660⟩)) ⟨[0, 0, 0], [], true⟩
      (.ret (r, (c', p'))) w' ∧
    ¬ (p'.payload = 0 ∧ c'.allocator = freshClient.allocator ∨
      Obtained (freshClient, ⟨0, 0, 0, 4660⟩) (c', p')) ∧
    csiClientFreeResponsePayload p' c' = (.panic : Prog ServerRes _) ∧
    c'.allocator.allocator.free p'.payload = none := by
  have hback : (comesBack ⟨0, 0, 0, 0⟩ [0, 0, 0] staleCall).isSome := by decide +kernel
  obtain ⟨⟨r, c', p'⟩, hy⟩ := Option.isSome_iff_exists.mp hback
  obtain ⟨w', hcall⟩ := comesBack_ends (List.cons_ne_nil _ _) hy
  have hpost := (csiCall_responds freshClient_responds _ _ _ hcall).2 _ rfl _ _ rfl
  have hpayload : p'.payload = 4660 := congrArg Prod.snd hpost
  have hallocator : c'.allocator = freshClient.allocator := congrArg Prod.fst hpost
  refine ⟨r, c', p', w', hcall, ?_, ?_, ?_⟩
  · rw [csiCall_owns_iff freshClient_responds hcall]
    decide
  · have hfree : PayloadAllocator.free p'.payload c'.allocator = none := by
      rw [hpayload, hallocator]
      rfl
    have hne : p'.payload ≠ 0 := by rw [hpayload]; decide
    simp only [csiClientFreeResponsePayload, hne, ↓reduceIte, payloadFree, get_seq, hfree]
    rfl
  · rw [hpayload, hallocator]
    decide

end CkbScriptIpc
