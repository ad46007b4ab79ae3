import CkbScriptIpc.Csi.Allocator
import CkbScriptIpc.Csi.Server
import CkbScriptIpc.Interaction.Runs

/-!
# The C library: the payload blocks of the server loop

`csi_run_server` with any callback that calls `csi_server_malloc_response_payload` at most
once. A turn takes a block for the request and one for the response, and gives both back.

* `csiRunServerTurn_balanced`: what one turn does with the payload allocator;
* `csi_loop_balanced`: at the head of every turn no block is in use, the payload that the
  callback obtains lies apart from that of the request, and no payload that fits a block makes
  the server panic.

Nothing is asked of the pipes: the reads and writes may go in any way.
-/

namespace CkbScriptIpc

open Interaction

variable {X Y R V A W : Type}

/-! ## Callbacks -/

/-- What a callback puts into its response, besides the payload pointer. -/
structure CSIReply where
  version : UInt64
  errorCode : UInt64
  payloadLen : UInt64

/-- What a callback comes to know: a request, and then the payload pointer that it has obtained,
while the request has its payload at the other pointer. -/
inductive CSISeen where
  | request (request : CSIRequest)
  | payload (request response : Nat)

/-- What a callback does: the `payload_len` of its call of
`csi_server_malloc_response_payload`, if it makes one, and what it then does to the memory and
returns. -/
structure CSIConduct where
  payloadLen : Option UInt64
  finish : Memory → Except Code CSIReply × Memory

abbrev LoopRes : StreamOp CSISeen → Type := CsiRes CSISeen CSIConduct

/-- What a callback sees of a request. -/
def csiSeen (m : Memory) (request : CSIPacket) : CSIRequest :=
  ⟨request.version, request.code, load m request.payload request.payloadLen.toNat⟩

/-- The payload pointer of a zeroed response, after at most one call. -/
def csiObtain [PayloadAllocator A] : Option UInt64 → Method LoopRes Code (CSI R V A) Nat
  | none => return 0
  | some payloadLen => csiServerMallocResponsePayload payloadLen

/-- Any `serve` callback that obtains its payload by at most one call. -/
def csiCallback [PayloadAllocator A] (request : CSIPacket) :
    Method LoopRes Code (CSI R V A) CSIPacket := do
  let s ← Method.get
  let asks ← Method.lift (.call (.ext (.request (csiSeen s.memory request))) .ret)
  let payload ← csiObtain asks.payloadLen
  let conduct ← Method.lift (.call (.ext (.payload request.payload payload)) .ret)
  let reply ← Method.zoom (·.memory) (fun m s => { s with memory := m })
    fun m => .ret (conduct.finish m)
  return ⟨reply.version, reply.errorCode, reply.payloadLen, payload⟩

/-! ## What reading and sending keep -/

/-- A read has come back without a byte, or with more than were asked for: `buf_read` panics. -/
def Misread (E : Env (CsiRes X Y) W) (w' : W) : Prop :=
  ∃ w n c, E.step w (.read n) (.ok c) w' ∧ ¬ (c ≠ [] ∧ c.length ≤ n)

section

variable {E : Env (CsiRes X Y) W} {I : W → Prop} {J : R → Prop} {Z : W → Prop}

theorem CSIBuffer.bufRead_keeps (hread : ∀ {w n r w'}, I w → E.step w (.read n) r w' → I w')
    (len : Nat) :
    Keeps E I CSIBuffer.Bounded (Misread E) (CSIBuffer.bufRead (X := X) (Y := Y) len) := by
  intro b w hb hi
  rcases Nat.lt_or_eq_of_le hb.pos_le with hlt | hempty
  · rw [bufRead_buffered hb hlt]
    exact safely_ret hi (advance_bounded hb len)
  · rw [bufRead_empty hempty]
    refine safely_call hi fun r w' hs => ?_
    rcases r with e | c
    · have hle : b.pos ≤ b.maxLen := Nat.le_trans hb.pos_le hb.filledLen_le
      exact safely_ret (hread hi hs) ⟨hle, Nat.le_refl _⟩
    · show Safely E I _ (take len (b.filledWith c)) w'
      by_cases hc : c ≠ [] ∧ c.length ≤ b.maxLen
      · have hpos : 0 < c.length := List.length_pos_iff.mpr hc.1
        rw [take_eq (show 0 < (b.filledWith c).filledLen from hpos) hc.2]
        exact safely_ret (hread hi hs) (advance_bounded (filledWith_bounded hc.2) len)
      · have hbad : (b.filledWith c).filledLen ≤ 0 ∨ b.maxLen < (b.filledWith c).filledLen := by
          rcases Nat.eq_zero_or_pos c.length with h0 | hpos
          · exact .inl (Nat.le_of_eq h0)
          · exact .inr (Nat.lt_of_not_le fun hle => hc ⟨List.length_pos_iff.mp hpos, hle⟩)
        rw [take_panic hbad]
        exact safely_panic (hread hi hs) ⟨w, b.maxLen, c, hs, hc⟩

section

variable [CSIRead R]
  (h : ∀ n, Keeps E I J Z (CSIRead.read n : Method (CsiRes X Y) Code R Bytes))

include h

theorem csiReadVlq_keeps (value : UInt64) :
    Keeps E I J Z (csiReadVlq value : Method (CsiRes X Y) Code R UInt64) := by
  refine keeps_seq (keeps_iter (fun buf => ?_) _) fun r => ?_
  · refine keeps_seq (keeps_attempt (h 1)) fun r => ?_
    rcases r with e | bs
    · exact keeps_pure _
    · simp only
      split
      · exact keeps_throw _
      · split <;> exact keeps_pure _
  · cases r with
    | none => exact keeps_pure _
    | some buf =>
      refine keeps_seq (keeps_ofExcept _) fun decoded => ?_
      split
      · exact keeps_throw _
      · exact keeps_pure _

theorem csiReadField_keeps (get : CSIPacket → UInt64) (put : UInt64 → CSIPacket → CSIPacket) :
    Keeps E I (fun x => J x.1.reader) Z (csiReadField (R := R) (V := V) (A := A) get put) := by
  refine keeps_seq keeps_get fun s => keeps_seq ?_ fun v => keeps_modify fun _ hj => hj
  refine keeps_zoom (J := fun c : CSI R V A => J c.reader) ?_ (fun _ hj => hj) fun _ _ _ hj => hj
  exact keeps_zoom (csiReadVlq_keeps h _) (fun _ hj => hj) fun _ _ _ hj => hj

theorem csiReceiveHeader_keeps :
    Keeps E I (fun x => J x.1.reader) Z (csiReceiveHeader (R := R) (V := V) (A := A)) :=
  keeps_seq (csiReadField_keeps h _ _) fun _ =>
    keeps_seq (csiReadField_keeps h _ _) fun _ => csiReadField_keeps h _ _

theorem csiReadExact_keeps (buf len : Nat) : Keeps E I (fun c => J c.reader) Z
    (csiReadExact buf len : Method (CsiRes X Y) Code (CSI R V A) Unit) := by
  refine keeps_iter (fun x => ?_) _
  unfold csiReadExactTurn
  split
  · refine keeps_seq (keeps_zoom (h _) (fun _ hj => hj) fun _ _ _ hj => hj) fun bs => ?_
    exact keeps_seq (keeps_modify fun _ hj => hj) fun _ => keeps_pure _
  · exact keeps_pure _

end

section

variable (hwrite : ∀ {w bs r w'}, I w → E.step w (.write bs) r w' → I w')

include hwrite

theorem csiWritePipe_keeps (bs : Bytes) {K : CSIBuffer → Prop} : Keeps E I K Z
    (Method.lift (csiWritePipe bs) : Method (CsiRes X Y) Code CSIBuffer (Except Code Nat)) := by
  by_cases hbs : bs = []
  · rw [csiWritePipe, if_pos hbs]
    exact keeps_pure _
  · rw [csiWritePipe, if_neg hbs]
    exact keeps_call (fun _ _ _ => hwrite) .ok

theorem CSIBuffer.bufFlush_keeps :
    Keeps E I (fun _ => True) Z (CSIBuffer.bufFlush (X := X) (Y := Y)) := by
  refine keeps_seq keeps_get fun b => keeps_seq (csiWritePipe_keeps hwrite _) fun written => ?_
  refine keeps_seq (keeps_ofExcept _) fun n => ?_
  split
  · exact keeps_throw _
  · exact keeps_modify fun _ _ => trivial

theorem CSIBuffer.bufWrite_keeps (bs : Bytes) :
    Keeps E I (fun _ => True) Z (CSIBuffer.bufWrite (X := X) (Y := Y) bs) := by
  have hput : Keeps E I (fun _ => True) Z (CSIBuffer.put (X := X) (Y := Y) bs) := by
    refine keeps_seq keeps_get fun b => ?_
    split
    · exact keeps_seq (csiWritePipe_keeps hwrite _) fun _ =>
        keeps_seq (keeps_ofExcept _) fun _ => keeps_pure _
    · exact keeps_seq (keeps_modify fun _ _ => trivial) fun _ => keeps_pure _
  refine keeps_seq keeps_get fun b => ?_
  split
  · exact keeps_seq (CSIBuffer.bufFlush_keeps hwrite) fun _ => hput
  · exact hput

theorem csiSend_keeps (sendError : CSIErrorCode) (p : CSIPacket) :
    Keeps E I (fun c => J c.reader) Z
      (csiSend sendError p : Method (CsiRes X Y) Code (CSI R CSIBuffer A) Unit) := by
  have hbuf : ∀ bs, Keeps E I (fun c : CSI R CSIBuffer A => J c.reader) Z
      (CSI.onWriter (CSIWrite.write bs : Method (CsiRes X Y) Code CSIBuffer Nat)) := fun bs =>
    keeps_zoom (CSIBuffer.bufWrite_keeps hwrite bs) (fun _ _ => trivial) fun _ _ hj _ => hj
  have hvlq : ∀ value, Keeps E I (fun c : CSI R CSIBuffer A => J c.reader) Z
      (CSI.onWriter (csiWriteVlq value : Method (CsiRes X Y) Code CSIBuffer Unit)) := by
    intro value
    refine keeps_zoom (J := fun _ => True) (keeps_seq (keeps_ofExcept _) fun buf => ?_)
      (fun _ _ => trivial) fun _ _ hj _ => hj
    refine keeps_seq (CSIBuffer.bufWrite_keeps hwrite buf) fun n => ?_
    split
    · exact keeps_throw _
    · exact keeps_pure _
  have hpayload : Keeps E I (fun c : CSI R CSIBuffer A => J c.reader) Z
      (csiSendPayload sendError p : Method (CsiRes X Y) Code (CSI R CSIBuffer A) Unit) := by
    unfold csiSendPayload
    split
    · refine keeps_seq keeps_get fun s => keeps_seq (hbuf _) fun n => ?_
      split
      · exact keeps_throw _
      · exact keeps_pure _
    · exact keeps_pure _
  exact keeps_seq (hvlq _) fun _ => keeps_seq (hvlq _) fun _ => keeps_seq (hvlq _) fun _ =>
    keeps_seq hpayload fun _ => keeps_zoom (CSIBuffer.bufFlush_keeps hwrite) (fun _ _ => trivial)
      fun _ _ hj _ => hj

end

end

/-! ## Blocks -/

/-- The pointer is `NULL`, or that of a block that was taken from `a`. -/
def Supplied [PayloadAllocator A] (a : A) (payload : Nat) (a' : A) : Prop :=
  ∃ n, Placeable n a ∧ placed n 0 a = (payload, a')

theorem supplied_null [PayloadAllocator A] (a : A) : Supplied a 0 a := ⟨0, placeable_zero a, rfl⟩

/-- `payload_malloc` when it succeeds. -/
theorem supplied_malloc [PayloadAllocator A] {a : A} {n : Nat} (hpos : 0 < n)
    (hne : (PayloadAllocator.malloc n a).1 ≠ 0) :
    Supplied a (PayloadAllocator.malloc n a).1 (PayloadAllocator.malloc n a).2 :=
  ⟨n, fun _ => hne, by rw [placed, if_pos hpos]⟩

theorem csiReceiveRequest_supplied [CSIRead R] [PayloadAllocator A] {E : Env (CsiRes X Y) W}
    (s : CSI R V A) (w : W) :
    Safely E (fun _ => True) (whenOk fun request s' _ =>
      Supplied s.allocator request.payload s'.allocator)
      (Method.out ⟨0, 0, 0, 0⟩ csiReceiveRequest s) w := by
  refine safely_out_whenOk (P := fun x' _ => ∃ n, PlacedBetween n (s, ⟨0, 0, 0, 0⟩) x')
    ((csiReceive_places _ w).mono (fun _ hi => hi) ?_)
  rintro (⟨e | _, x'⟩ | _) v - ho
  · trivial
  · exact ho _ _ rfl
  · trivial

section

variable {a a₁ a₂ : FixedAllocator} {request response size : Nat}

theorem supplied_blockSize (h : Supplied a request a₁) : a₁.blockSize = a.blockSize := by
  obtain ⟨n, -, hplaced⟩ := h
  have hsame := FixedAllocator.placed_sameBuffer n 0 a
  rw [hplaced] at hsame
  exact hsame.blockSize

/-- What a request and a response were supplied with can be given back, and leaves the
allocator as it was. -/
theorem supplied_cycle (ha : a.Unused) (hcount : 2 ≤ a.blockCount.toNat)
    (hrequest : Supplied a request a₁) (hresponse : Supplied a₁ response a₂) :
    ∃ a', PayloadAllocator.free request a₂ = some a' ∧
      PayloadAllocator.free response a' = some a := by
  have hsize := supplied_blockSize hrequest
  obtain ⟨n, hn, hplaced⟩ := hrequest
  obtain ⟨m, hm, hplaced'⟩ := hresponse
  have hfit : a.FitsBeside n m := by
    have hle := FixedAllocator.le_of_placeable hm
    rw [hsize] at hle
    exact .inr ⟨hle, by split <;> omega⟩
  obtain ⟨-, a', hfree, hfree'⟩ :=
    FixedAllocator.payload_cycle ha (FixedAllocator.le_of_placeable hn) hfit
  rw [hplaced, hplaced'] at hfree hfree'
  exact ⟨a', hfree, hfree'⟩

/-- Beside the payload of a request there is a block for the response. -/
theorem supplied_placeable (ha : a.Unused) (hcount : 2 ≤ a.blockCount.toNat)
    (h : Supplied a request a₁) (hsize : size ≤ a.blockSize) : Placeable size a₁ := by
  obtain ⟨n, hn, hplaced⟩ := h
  have hfit : a.FitsBeside n size := .inr ⟨hsize, by split <;> omega⟩
  have hplace := (FixedAllocator.payload_cycle ha (FixedAllocator.le_of_placeable hn) hfit).1
  rwa [hplaced] at hplace

/-- It is another block. -/
theorem supplied_apart (ha : a.Unused) (hcount : 2 ≤ a.blockCount.toNat)
    (hrequest : Supplied a request a₁) (hresponse : Supplied a₁ response a₂) (hne : request ≠ 0)
    (hne' : response ≠ 0) : Apart a.blockSize request response := by
  have hsize := supplied_blockSize hrequest
  obtain ⟨n, hn, hplaced⟩ := hrequest
  obtain ⟨m, hm, hplaced'⟩ := hresponse
  have hn0 : 0 < n := by
    refine Nat.pos_of_ne_zero ?_
    rintro rfl
    exact hne (congrArg Prod.fst hplaced).symm
  have hm0 : 0 < m := by
    refine Nat.pos_of_ne_zero ?_
    rintro rfl
    exact hne' (congrArg Prod.fst hplaced').symm
  have hle : m ≤ a.blockSize := hsize ▸ FixedAllocator.le_of_placeable hm
  rw [FixedAllocator.placed_first ha hn0 (FixedAllocator.le_of_placeable hn)] at hplaced
  cases hplaced
  rw [FixedAllocator.placed_second hm0 hle hcount] at hplaced'
  cases hplaced'
  refine .inl (Nat.le_of_eq ?_)
  show a.buf + a.blockSize = a.buf + a.blockSize * 1
  rw [Nat.mul_one]

end

/-- If the callback is given a payload, it lies apart from that of the request. -/
def GivenApart (size : Nat) : StreamOp CSISeen → Prop
  | .ext (.payload request response) =>
    request ≠ 0 → response ≠ 0 → Apart size request response
  | _ => True

/-! ## One turn -/

/-- The turn that begins with `s` has come to a payload of more than `size` bytes: that of the
request, or that for which the callback asks. -/
inductive Oversized [CSIRead R] [PayloadAllocator A] (E : Env LoopRes W) (size : Nat)
    (s : CSI R V A) (w : W) : W → Prop
  | request {s₁ : CSI R V A} {request : CSIPacket} {w₁ : W} :
      Ends E (csiReceiveHeader (s, ⟨0, 0, 0, 0⟩)) w (.ret (.ok (), (s₁, request))) w₁ →
      size < request.payloadLen.toNat → Oversized E size s w w₁
  | response {s₁ : CSI R V A} {request : CSIPacket} {asks : CSIConduct} {payloadLen : UInt64}
      {w₁ w₂ : W} :
      Ends E (Method.out ⟨0, 0, 0, 0⟩ csiReceiveRequest s) w (.ret (.ok request, s₁)) w₁ →
      E.step w₁ (.ext (.request (csiSeen s₁.memory request))) asks w₂ →
      asks.payloadLen = some payloadLen → size < payloadLen.toNat → Oversized E size s w w₂

section

variable {E : Env LoopRes W} {I : W → Prop} {a : FixedAllocator}
  {s : CSI CSIBuffer V FixedAllocator} {w : W}

/-- A request is received with its payload in a block, unless that is too large. -/
theorem csiReceiveRequest_safely (hread : ∀ {w n r w'}, I w → E.step w (.read n) r w' → I w')
    (ha : a.Unused) (hs : s.allocator = a) (hb : s.reader.Bounded) (hi : I w) :
    Safely E I (okOrPanics (fun request s' w' => Supplied a request.payload s'.allocator ∧
        s'.reader.Bounded ∧
        Ends E (Method.out ⟨0, 0, 0, 0⟩ csiReceiveRequest s) w (.ret (.ok request, s')) w')
      fun w' => Oversized E a.blockSize s w w' ∨ Misread E w')
      (Method.out ⟨0, 0, 0, 0⟩ csiReceiveRequest s) w := by
  have hexact : ∀ buf len, Keeps E I (fun x => x.1.reader.Bounded) (Misread E)
      (Method.zoom Prod.fst (fun c x => (c, x.2)) (csiReadExact buf len) :
        Method LoopRes Code (CSI CSIBuffer V FixedAllocator × CSIPacket) Unit) := fun buf len =>
    keeps_zoom (csiReadExact_keeps (CSIBuffer.bufRead_keeps hread) buf len) (fun _ hj => hj)
      fun _ _ _ hj => hj
  have hheader : Safely E I (okOrPanics (fun _ x₁ w₁ => x₁.1.reader.Bounded ∧
        x₁.1.allocator = a ∧ Ends E (csiReceiveHeader (s, ⟨0, 0, 0, 0⟩)) w (.ret (.ok (), x₁)) w₁)
      fun w' => Oversized E a.blockSize s w w' ∨ Misread E w')
      (csiReceiveHeader (s, ⟨0, 0, 0, 0⟩)) w := by
    have hkeeps := (csiReceiveHeader_keeps (V := V) (A := FixedAllocator)
      (CSIBuffer.bufRead_keeps hread)).okOrPanics (s := (s, ⟨0, 0, 0, 0⟩)) hb hi
    apply ((hkeeps.and (csiReceiveHeader_frames _ w)).and (safely_ends _ w)).mono
      fun _ h => h.1.1
    rintro (⟨e | ⟨⟩, x₁⟩ | _) w₁ - ⟨⟨hx, hframe⟩, hends⟩
    · trivial
    · exact ⟨hx, (congrArg Prod.fst (hframe _ _ rfl)).trans hs, hends⟩
    · exact .inr hx
  have hreceive : Safely E I (okOrPanics (fun _ x₁ _ => x₁.1.reader.Bounded)
      fun w' => Oversized E a.blockSize s w w' ∨ Misread E w')
      (csiReceiveRequest (s, ⟨0, 0, 0, 0⟩)) w := by
    rw [csiReceiveRequest, csiReceive_eq]
    refine safely_seq_okOrPanics hheader ?_
    rintro _ ⟨s₁, p⟩ w₁ hi₁ ⟨hb₁, hs₁, hends⟩
    rw [csiReceivePayload, get_seq]
    by_cases hpos : p.payloadLen > 0
    · simp only [hpos, ↓reduceIte, set_seq]
      by_cases hnull : (PayloadAllocator.malloc p.payloadLen.toNat s₁.allocator).1 = 0
      · rw [if_pos hnull]
        refine safely_panic hi₁ (.inl (.request hends (Nat.lt_of_not_le fun hle => ?_)))
        rw [hs₁] at hnull
        exact FixedAllocator.placeable_first ha hle (uint64_pos.mp hpos) hnull
      · rw [if_neg hnull]
        refine Safely.mono ((hexact _ _).okOrPanics ?_ hi₁) (fun _ hi => hi) ?_
        · exact hb₁
        rintro (⟨e | _, x⟩ | _) v - hx
        · trivial
        · exact hx
        · exact .inr hx
    · simp only [hpos, ↓reduceIte]
      exact safely_ret hi₁ hb₁
  apply (((safely_out_okOrPanics hreceive).and (csiReceiveRequest_supplied s w)).and
    (safely_ends _ w)).mono fun _ h => h.1.1
  rintro (⟨e | request, s₁⟩ | _) w₁ - ⟨⟨hx, hsupplied⟩, hends⟩
  · trivial
  · exact ⟨hs ▸ hsupplied, hx, hends⟩
  · exact hx

/-- The callback obtains a payload beside that of the request, unless it asks for too much. -/
theorem csiCallback_safely (ha : a.Unused) (hcount : 2 ≤ a.blockCount.toNat)
    {request : CSIPacket} (hrequest : Supplied a request.payload s.allocator)
    (hstep : ∀ {w op r w'}, I w → E.step w op r w' → GivenApart a.blockSize op → I w')
    (hi : I w) :
    Safely E I (okOrPanics (fun response s' _ =>
        Supplied s.allocator response.payload s'.allocator ∧ s'.reader = s.reader)
      fun w' => ∃ asks payloadLen,
        E.step w (.ext (.request (csiSeen s.memory request))) asks w' ∧
          asks.payloadLen = some payloadLen ∧ a.blockSize < payloadLen.toNat)
      (csiCallback request s) w := by
  rw [csiCallback, get_seq]
  refine safely_seq_okOrPanics (P := fun asks s₁ w₁ => s = s₁ ∧
    E.step w (.ext (.request (csiSeen s.memory request))) asks w₁)
    (safely_map (safely_call hi fun r w₁ hs => safely_ret (hstep hi hs trivial) ⟨rfl, hs⟩)) ?_
  rintro asks _ w₁ hi₁ ⟨rfl, hasks⟩
  refine safely_seq_okOrPanics (P := fun payload s₂ _ =>
    Supplied s.allocator payload s₂.allocator ∧ s₂.reader = s.reader) ?_ ?_
  · cases hlen : asks.payloadLen with
    | none => exact safely_ret hi₁ ⟨supplied_null _, rfl⟩
    | some n =>
      rw [csiObtain, csiServerMallocResponsePayload]
      by_cases hn : n = 0
      · rw [if_pos hn]
        exact safely_ret hi₁ ⟨supplied_null _, rfl⟩
      · have hpos : 0 < n.toNat := Nat.pos_of_ne_zero fun h0 => hn (UInt64.toNat_inj.mp h0)
        simp only [hn, ↓reduceIte, get_seq, set_seq]
        by_cases hnull : (PayloadAllocator.malloc n.toNat s.allocator).1 = 0
        · rw [if_pos hnull]
          refine safely_panic hi₁ ⟨asks, n, hasks, hlen, Nat.lt_of_not_le fun hle => ?_⟩
          exact supplied_placeable ha hcount hrequest hle hpos hnull
        · rw [if_neg hnull]
          exact safely_ret hi₁ ⟨supplied_malloc hpos hnull, rfl⟩
  rintro payload s₂ w₂ hi₂ ⟨hsupplied, hreader⟩
  have hapart : GivenApart a.blockSize (.ext (.payload request.payload payload)) :=
    supplied_apart ha hcount hrequest hsupplied
  refine safely_seq_okOrPanics (P := fun _ s₃ _ => s₂ = s₃) (safely_map (safely_call hi₂
    fun r w₃ hs => safely_ret (hstep hi₂ hs hapart) rfl)) ?_
  rintro conduct _ w₃ hi₃ rfl
  refine safely_seq_okOrPanics (P := fun _ s₄ _ => s₄.allocator = s₂.allocator ∧
    s₄.reader = s₂.reader) (safely_map (safely_ret hi₃ ?_)) ?_
  · rcases conduct.finish s₂.memory with ⟨_ | _, m⟩
    · trivial
    · exact ⟨rfl, rfl⟩
  rintro reply s₄ w₄ hi₄ ⟨hallocator, hreader'⟩
  refine safely_ret hi₄ ⟨?_, hreader'.trans hreader⟩
  show Supplied _ payload s₄.allocator
  rwa [hallocator]

end

section

variable {E : Env LoopRes W} {I : W → Prop} {a : FixedAllocator}
  {s s₀ : CSI CSIBuffer CSIBuffer FixedAllocator} {w w₀ : W}

/-- **One turn** gives back every block that it takes. It panics only for a payload that is too
large, or when `buf_read` does; and the callback goes on with two payloads that lie apart. -/
theorem csiRunServerTurn_balanced (ha : a.Unused) (hcount : 2 ≤ a.blockCount.toNat)
    (hstep : ∀ {w op r w'}, I w → E.step w op r w' → GivenApart a.blockSize op → I w')
    (hs : s.allocator = a) (hb : s.reader.Bounded) (hi : I w) :
    Safely E I (okOrPanics (fun _ s' _ => s'.allocator = a ∧ s'.reader.Bounded)
      fun w' => Oversized E a.blockSize s w w' ∨ Misread E w')
      (csiRunServerTurn csiCallback () s) w := by
  refine safely_seq_okOrPanics
    (csiReceiveRequest_safely (fun hi hs => hstep hi hs trivial) ha hs hb hi) ?_
  rintro request s₁ w₁ hi₁ ⟨hrequest, hb₁, hends⟩
  refine safely_seq_okOrPanics (P := fun response s₂ _ =>
    Supplied s₁.allocator response.payload s₂.allocator ∧ s₂.reader = s₁.reader) ?_ ?_
  · refine (csiCallback_safely ha hcount hrequest hstep hi₁).mono (fun _ hi => hi) ?_
    rintro (⟨e | response, s₂⟩ | _) w₂ - ho
    · trivial
    · exact ho
    · obtain ⟨asks, payloadLen, hasks, hlen, hlarge⟩ := ho
      exact .inl (.response hends hasks hlen hlarge)
  rintro response s₂ w₂ hi₂ ⟨hresponse, hreader⟩
  obtain ⟨a', hfree, hfree'⟩ := supplied_cycle ha hcount hrequest hresponse
  rw [seq_ok (payloadFree_ret hfree)]
  have hsend := (csiSend_keeps (Z := fun w' => Oversized E a.blockSize s w w' ∨ Misread E w')
    (J := CSIBuffer.Bounded) (A := FixedAllocator) (fun hi hs => hstep hi hs trivial)
    .sendResponse response).okOrPanics
      (s := { s₂ with allocator := a' }) (show s₂.reader.Bounded from hreader ▸ hb₁) hi₂
  refine safely_seq_okOrPanics (P := fun _ s₃ _ => s₃.reader.Bounded ∧ s₃.allocator = a')
    ((hsend.and (csiSend_frames _ _ _ _)).mono (fun _ h => h.1) ?_) ?_
  · rintro (⟨e | _, s₃⟩ | _) w₃ - ⟨ho, hframe⟩
    · trivial
    · exact ⟨ho, hframe _ _ rfl⟩
    · exact ho
  rintro _ s₃ w₃ hi₃ ⟨hb₃, rfl⟩
  rw [seq_ok (csiClientFreeResponsePayload_ret rfl hfree')]
  exact safely_ret hi₃ ⟨rfl, hb₃⟩

/-- **The loop** keeps what a turn keeps. -/
theorem csiRunServerTurns_balanced (ha : a.Unused) (hcount : 2 ≤ a.blockCount.toNat)
    (hstep : ∀ {w op r w'}, I w → E.step w op r w' → GivenApart a.blockSize op → I w')
    (hs₀ : s₀.allocator = a) (hb₀ : s₀.reader.Bounded) (hi₀ : I w₀) :
    Safely E I (okOrPanics (fun _ _ _ => True) fun w' =>
      (∃ s w, Turns E (csiRunServerTurn csiCallback) () s₀ w₀ () s w ∧
        Oversized E a.blockSize s w w') ∨ Misread E w')
      (Method.iter (csiRunServerTurn csiCallback) () s₀) w₀ := by
  refine safely_iter (fun _ s w => (I w ∧ s.allocator = a ∧ s.reader.Bounded) ∧
    Turns E (csiRunServerTurn csiCallback) () s₀ w₀ () s w) ?_ ⟨⟨hi₀, hs₀, hb₀⟩, .none⟩
  rintro ⟨⟩ s w ⟨⟨hi, hs, hb⟩, hturns⟩
  apply ((csiRunServerTurn_balanced ha hcount hstep hs hb hi).and (safely_ends _ w)).mono
    fun _ h => h.1
  rintro (⟨e | ⟨⟨⟩⟩ | _, s'⟩ | _) w' ⟨hi', -⟩ ⟨ho, hends⟩
  · trivial
  · exact ⟨⟨hi', ho⟩, .more hturns hends⟩
  · trivial
  · exact ho.imp_left fun hlarge => ⟨s, w, hturns, hlarge⟩

/-- At the head of every turn the allocator is as it was at first. -/
theorem turns_allocator (ha : a.Unused) (hcount : 2 ≤ a.blockCount.toNat)
    (hs₀ : s₀.allocator = a) (hb₀ : s₀.reader.Bounded)
    (h : Turns E (csiRunServerTurn csiCallback) () s₀ w₀ () s w) : s.allocator = a := by
  refine (turns_induction (J := fun _ s _ => s.allocator = a ∧ s.reader.Bounded) ⟨hs₀, hb₀⟩ ?_
    h).1
  rintro _ s w _ s' w' ⟨hs, hb⟩ hends
  exact ((csiRunServerTurn_balanced (I := fun _ => True) ha hcount (fun _ _ _ => trivial)
    hs hb trivial) _ _ hends).2 _ rfl

end

/-! ## Whole runs -/

/-- What `csi_run_server`, as `p`, should do with the payload blocks of `a`; its loop begins
with `s₀`. -/
structure Balanced (E : Env LoopRes W) (a : FixedAllocator)
    (p : Prog LoopRes (Except Code Unit × CSIProcess))
    (s₀ : CSI CSIBuffer CSIBuffer FixedAllocator) (w₀ : W) : Prop where
  /-- At the head of every turn no block is in use. -/
  head {s : CSI CSIBuffer CSIBuffer FixedAllocator} {w : W} :
    Turns E (csiRunServerTurn csiCallback) () s₀ w₀ () s w → s.allocator.usedFlags = 0
  /-- The payload that the callback has obtained lies apart from that of the request. -/
  apart {request response : Nat}
    {k : CSIConduct → Prog LoopRes (Except Code Unit × CSIProcess)} {w : W} :
    Reach E p w₀ (.call (.ext (.payload request response)) k) w →
      request ≠ 0 → response ≠ 0 → Apart a.blockSize request response
  /-- A run that ends with a `PANIC` has come to a payload that is larger than a block, or it is
  that of `buf_read`. -/
  panics {w : W} : Ends E p w₀ .panic w →
    (∃ s v, Turns E (csiRunServerTurn csiCallback) () s₀ w₀ () s v ∧
      Oversized E a.blockSize s v w) ∨ Misread E w

/-- Setting up the channel leaves an empty buffer, and takes nothing of the payload allocator. -/
theorem csiServerBuffers_sets {inherited : Except Code (List UInt64)} {s s₁ : CSIProcess}
    {reader writer : CSIBuffer}
    (h : csiServerBuffers inherited s = (.ret (.ok (reader, writer), s₁) : Prog LoopRes _)) :
    reader.Bounded ∧ s₁.payload = s.payload := by
  have hnew : ∀ s : CSIProcess, Safely silent (fun _ => True)
      (whenOk fun b s' _ => b.Bounded ∧ s'.payload = s.payload)
      (newBuffer s : Prog LoopRes (Except Code CSIBuffer × CSIProcess)) () := by
    intro s
    simp only [newBuffer, get_seq, set_seq]
    split
    · exact safely_panic trivial trivial
    · exact safely_ret trivial ⟨⟨Nat.le_refl _, Nat.zero_le _⟩, rfl⟩
  have hset : Safely silent (fun _ => True)
      (whenOk fun buffers s' _ => buffers.1.Bounded ∧ s'.payload = s.payload)
      (csiServerBuffers inherited s : Prog LoopRes _) () := by
    refine safely_seq_whenOk (Frames.whenOk (f := id) (frames_ofExcept _) s ()) ?_
    rintro fds s' ⟨⟩ rfl
    split
    · refine safely_seq_whenOk (P := fun _ s₁ _ => s₁ = s') ?_ ?_
      · unfold newPipeReader
        split
        · exact safely_ret trivial trivial
        · exact safely_ret trivial rfl
      rintro _ _ ⟨⟩ rfl
      refine safely_seq_whenOk (hnew _) ?_
      rintro reader s₂ ⟨⟩ ⟨hb, hs₂⟩
      refine safely_seq_whenOk (P := fun _ s₃ _ => s₃ = s₂) ?_ ?_
      · unfold newPipeWriter
        split
        · exact safely_ret trivial trivial
        · exact safely_ret trivial rfl
      rintro _ _ ⟨⟩ rfl
      refine safely_seq_whenOk (hnew _) ?_
      rintro writer s₄ ⟨⟩ ⟨-, hs₄⟩
      exact safely_ret trivial ⟨hb, hs₄.trans hs₂⟩
    · exact safely_ret trivial trivial
  rw [h] at hset
  exact (hset _ _ (.refl _ _)).2 (.ret (.ok (reader, writer), s₁)) rfl

/-- The callback that makes no call, and answers with zeros. -/
instance : Nonempty CSIConduct := ⟨⟨none, fun m => (.ok ⟨0, 0, 0⟩, m)⟩⟩

/-- **The payload blocks of the server loop** are neither lost nor shared, whatever comes over
the pipes and whatever the callback answers, if there are at least two. -/
theorem csi_loop_balanced {E : Env LoopRes W} {s s₁ : CSIProcess} {reader writer : CSIBuffer}
    {inherited : Except Code (List UInt64)} (ha : s.payload.Unused)
    (hcount : 2 ≤ s.payload.blockCount.toNat)
    (hset : csiServerBuffers inherited s = (.ret (.ok (reader, writer), s₁) : Prog LoopRes _))
    (w : W) : Balanced E s.payload (csiRunServer csiCallback inherited s)
      ⟨reader, writer, s₁.payload, s₁.memory⟩ w := by
  obtain ⟨hb, hs₁⟩ := csiServerBuffers_sets hset
  have hstart : (CSI.mk reader writer s₁.payload s₁.memory).allocator = s.payload := hs₁
  rw [csiRunServer, seq_ok hset]
  constructor
  · intro s' w' hturns
    rw [turns_allocator ha hcount hstart hb hturns]
    exact ha.usedFlags
  · intro request response k w' hr
    -- an environment that gives up when the two overlap never does
    have hopen : some w ≠ none := Option.some_ne_none w
    have hloop := csiRunServerTurns_balanced (E := E.admitting (GivenApart s.payload.blockSize))
      (I := (· ≠ none)) ha hcount ?_ hstart hb hopen
    · have hanswer : Nonempty (LoopRes (.ext (.payload request response))) :=
        inferInstanceAs (Nonempty CSIConduct)
      exact safely_admits (C := GivenApart s.payload.blockSize) (Q := fun _ _ => True)
        (safely_map (hloop.mono (fun _ hi => hi) fun _ _ _ _ => trivial)) hr
    · intro v op r v' hv hs hop hnone
      subst hnone
      cases v with
      | none => exact hv rfl
      | some v => exact hs hop
  · intro w' hends
    obtain ⟨o, hpanic, ho⟩ := ends_map_inv hends
    cases o with
    | ret r => cases ho
    | panic =>
      have hloop := csiRunServerTurns_balanced (I := fun _ => True) ha hcount
        (fun _ _ _ => trivial) hstart hb trivial _ _ hpanic
      exact hloop.2 _ rfl

/-- Every call may be answered in any way. -/
def anyCaller : Env LoopRes Unit where
  pre _ _ := True
  step _ _ _ _ := True

/-- Two blocks of 512 bytes are enough. -/
theorem csi_loop_balanced_zeroed : ∃ reader writer s₁,
    csiServerBuffers (.ok [2, 3]) zeroedProcess =
      (.ret (.ok (reader, writer), s₁) : Prog LoopRes _) ∧
    Balanced anyCaller ⟨0, 2, 1024, 4096⟩ (csiRunServer csiCallback (.ok [2, 3]) zeroedProcess)
      ⟨reader, writer, s₁.payload, s₁.memory⟩ () := by
  obtain ⟨reader, writer, s₁, -, -, -, hset⟩ := csiServerBuffers_ret (X := CSISeen)
    (Y := CSIConduct) zeroedProcess_ready (show (2 : UInt64) % 2 = 0 by decide)
    (show (3 : UInt64) % 2 = 1 by decide)
  exact ⟨reader, writer, s₁, hset,
    csi_loop_balanced zeroedProcess_ready.payload (by decide) hset ()⟩

end CkbScriptIpc
