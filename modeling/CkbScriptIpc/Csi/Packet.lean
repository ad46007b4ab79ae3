import CkbScriptIpc.Csi.Vlq

/-!
# The C library: packets

`csi_send_request`, `csi_send_response`, `csi_receive_request` and
`csi_receive_response`. Requests and responses have the same fields and are
handled alike, but for the error of a short write.

* `csiSend_full`: what a send writes is the packet of the wire format;
* `csiReceive_ok`: a packet is received as its fields say;
* `csiReceive_cut`, `csiReceive_badHeader`: a payload that is cut and a header with
  a field that is too long are errors.
-/

namespace CkbScriptIpc

open Interaction

variable {X Y W R V A : Type}

/-- `CSIRequestPacket` and `CSIResponsePacket`: `code` is the method id or the
error code, and `payload` an address. -/
structure CSIPacket where
  version : UInt64
  code : UInt64
  payloadLen : UInt64
  payload : Nat
  deriving DecidableEq, Repr

/-- A channel, with the memory and the allocator of the payloads. -/
structure CSI (R V A : Type) where
  reader : R
  writer : V
  allocator : A
  memory : Memory

namespace CSI

def onReader {α : Type} (x : Method (CsiRes X Y) Code R α) :
    Method (CsiRes X Y) Code (CSI R V A) α :=
  Method.zoom (·.reader) (fun r s => { s with reader := r }) x

def onWriter {α : Type} (x : Method (CsiRes X Y) Code V α) :
    Method (CsiRes X Y) Code (CSI R V A) α :=
  Method.zoom (·.writer) (fun v s => { s with writer := v }) x

end CSI

/-! ## Sending -/

/-- The payload of a packet, of which a short write is `sendError`. -/
def csiSendPayload [CSIWrite V] (sendError : CSIErrorCode) (p : CSIPacket) :
    Method (CsiRes X Y) Code (CSI R V A) Unit := do
  if p.payloadLen > 0 then
    let s ← Method.get
    let writtenLen ← CSI.onWriter (CSIWrite.write (load s.memory p.payload p.payloadLen.toNat))
    if writtenLen ≠ p.payloadLen.toNat then Method.throw sendError.toCode
    else return ()
  else return ()

def csiSend [CSIWrite V] (sendError : CSIErrorCode) (p : CSIPacket) :
    Method (CsiRes X Y) Code (CSI R V A) Unit := do
  CSI.onWriter (csiWriteVlq p.version)
  CSI.onWriter (csiWriteVlq p.code)
  CSI.onWriter (csiWriteVlq p.payloadLen)
  csiSendPayload sendError p
  CSI.onWriter CSIWrite.flush

def csiSendRequest [CSIWrite V] (request : CSIPacket) :
    Method (CsiRes X Y) Code (CSI R V A) Unit := csiSend .sendRequest request

def csiSendResponse [CSIWrite V] (response : CSIPacket) :
    Method (CsiRes X Y) Code (CSI R V A) Unit := csiSend .sendResponse response

/-! ## Receiving -/

/-- One turn of `csi_read_exact`: `buf` is where the next bytes go, and
`remainingLen` an `int`. -/
def csiReadExactTurn [CSIRead R] (x : Nat × Int) :
    Method (CsiRes X Y) Code (CSI R V A) (Nat × Int ⊕ Unit) := do
  if x.2 > 0 then
    let bs ← CSI.onReader (CSIRead.read x.2.toNat)
    Method.modify fun s => { s with memory := store s.memory x.1 bs }
    return .inl (x.1 + bs.length, (x.2 - bs.length).bmod (2 ^ 32))
  else return .inr ()

/-- `csi_read_exact`; the conversion of `len` to an `int` may change it. -/
def csiReadExact [CSIRead R] (buf len : Nat) : Method (CsiRes X Y) Code (CSI R V A) Unit :=
  Method.iter csiReadExactTurn (buf, (len : Int).bmod (2 ^ 32))

/-- Read a field of the packet that is received. -/
def csiReadField [CSIRead R] (field : CSIPacket → UInt64) (put : UInt64 → CSIPacket → CSIPacket) :
    Method (CsiRes X Y) Code (CSI R V A × CSIPacket) Unit := do
  let s ← Method.get
  let value ← Method.zoom Prod.fst (fun c s => (c, s.2)) (CSI.onReader (csiReadVlq (field s.2)))
  Method.modify fun s => (s.1, put value s.2)

def csiReceivePayload [CSIRead R] [PayloadAllocator A] :
    Method (CsiRes X Y) Code (CSI R V A × CSIPacket) Unit := do
  let s ← Method.get
  if s.2.payloadLen > 0 then
    let block := PayloadAllocator.malloc s.2.payloadLen.toNat s.1.allocator
    Method.set ({ s.1 with allocator := block.2 }, { s.2 with payload := block.1 })
    if block.1 = 0 then Method.panic
    else Method.zoom Prod.fst (fun c s => (c, s.2)) (csiReadExact block.1 s.2.payloadLen.toNat)
  else return ()

/-- The packet is an out-parameter, a part of the state. -/
def csiReceive [CSIRead R] [PayloadAllocator A] :
    Method (CsiRes X Y) Code (CSI R V A × CSIPacket) Unit := do
  csiReadField (·.version) fun v p => { p with version := v }
  csiReadField (·.code) fun v p => { p with code := v }
  csiReadField (·.payloadLen) fun v p => { p with payloadLen := v }
  csiReceivePayload

def csiReceiveRequest [CSIRead R] [PayloadAllocator A] :
    Method (CsiRes X Y) Code (CSI R V A × CSIPacket) Unit := csiReceive

def csiReceiveResponse [CSIRead R] [PayloadAllocator A] :
    Method (CsiRes X Y) Code (CSI R V A × CSIPacket) Unit := csiReceive

/-- What is read of a packet before its payload. -/
def csiReceiveHeader [CSIRead R] : Method (CsiRes X Y) Code (CSI R V A × CSIPacket) Unit := do
  csiReadField (·.version) fun v p => { p with version := v }
  csiReadField (·.code) fun v p => { p with code := v }
  csiReadField (·.payloadLen) fun v p => { p with payloadLen := v }

theorem csiReceive_eq [CSIRead R] [PayloadAllocator A] :
    (csiReceive : Method (CsiRes X Y) Code (CSI R V A × CSIPacket) Unit) =
      csiReceiveHeader >>= fun _ => csiReceivePayload := by
  simp only [csiReceiveHeader, seq_assoc]
  rfl

theorem uint64_pos {n : UInt64} : n > 0 ↔ 0 < n.toNat := by
  rw [gt_iff_lt, UInt64.lt_iff_toNat_lt, UInt64.toNat_zero]

section

variable {E : Env (CsiRes X Y) W} {St : W → Bytes → Prop} {s : CSI R CSIBuffer A} {w : W}
  {o : Bytes}

theorem csiWriteField_full (h : Takes E St) (hst : St w o)
    (hs : s.writer.filledLen ≤ s.writer.maxLen) (value : UInt64) :
    Always E (succeeds fun _ s' w' => ∃ b, s' = { s with writer := b } ∧
      CSIBuffer.Written St s.writer o (vlqEncode value) b w')
      (CSI.onWriter (csiWriteVlq value) s) w := by
  refine (always_zoom_ok (csiWriteVlq_full h hst hs value)).mono (succeeds_mono ?_)
  rintro _ _ w' ⟨b, hb, rfl⟩
  exact ⟨b, rfl, hb⟩

theorem csiSendPayload_full (h : Takes E St) (hst : St w o)
    (hs : s.writer.filledLen ≤ s.writer.maxLen) (sendError : CSIErrorCode) (p : CSIPacket) :
    Always E (succeeds fun _ s' w' => ∃ b, s' = { s with writer := b } ∧
      CSIBuffer.Written St s.writer o (load s.memory p.payload p.payloadLen.toNat) b w')
      (csiSendPayload sendError p s) w := by
  rw [csiSendPayload]
  by_cases hpos : 0 < p.payloadLen.toNat
  · simp only [uint64_pos, hpos, ↓reduceIte, get_seq]
    apply always_seq_ok (always_zoom_ok (CSIBuffer.bufWrite_full h hst hs _))
    rintro n _ w' ⟨b, ⟨rfl, hb⟩, rfl⟩
    simp only [length_load, ne_eq, not_true_eq_false, ↓reduceIte]
    exact .ret ⟨b, rfl, hb⟩
  · have hzero : p.payloadLen.toNat = 0 := by omega
    simp only [uint64_pos, hpos, ↓reduceIte]
    refine .ret ⟨s.writer, rfl, hs, o, hst, ?_⟩
    rw [hzero, load, List.append_nil]

/-- A send delivers what was buffered and the packet, and leaves the buffer empty. -/
theorem csiSend_full (h : Takes E St) (hst : St w o) (hs : s.writer.filledLen ≤ s.writer.maxLen)
    (sendError : CSIErrorCode) (p : CSIPacket) :
    Always E (succeeds fun _ s' w' => ∃ b, s' = { s with writer := b } ∧ b.filledLen = 0 ∧
      St w' (o ++ s.writer.filled ++
        wirePacket p.version p.code (load s.memory p.payload p.payloadLen.toNat)))
      (csiSend sendError p s) w := by
  have hlen : UInt64.ofNat (load s.memory p.payload p.payloadLen.toNat).length = p.payloadLen := by
    rw [length_load, UInt64.ofNat_toNat]
  apply always_seq_ok (csiWriteField_full h hst hs p.version)
  rintro _ _ w₁ ⟨b₁, rfl, hb₁, o₁, hst₁, hout₁⟩
  apply always_seq_ok (csiWriteField_full h hst₁ hb₁ p.code)
  rintro _ _ w₂ ⟨b₂, rfl, hb₂, o₂, hst₂, hout₂⟩
  apply always_seq_ok (csiWriteField_full h hst₂ hb₂ p.payloadLen)
  rintro _ _ w₃ ⟨b₃, rfl, hb₃, o₃, hst₃, hout₃⟩
  apply always_seq_ok (csiSendPayload_full h hst₃ hb₃ sendError p)
  rintro _ _ w₄ ⟨b₄, rfl, hb₄, o₄, hst₄, hout₄⟩
  refine (always_zoom_ok (CSIBuffer.bufFlush_full h hst₄)).mono (succeeds_mono ?_)
  rintro _ _ w₅ ⟨_, ⟨rfl, hst₅⟩, rfl⟩
  refine ⟨_, rfl, rfl, ?_⟩
  rw [hout₄, hout₃, hout₂, hout₁] at hst₅
  simpa only [wirePacket, hlen, List.append_assoc] using hst₅

end

/-! ## Reading a payload -/

section

variable [CSIRead R] {E : Env (CsiRes X Y) W} {St : R → W → Bytes → Prop} {s : CSI R V A} {w : W}
  {t : Bytes}

theorem bmod_of_lt {n : Nat} (h : n < 2 ^ 31) : (n : Int).bmod (2 ^ 32) = n := by
  rw [Int.bmod]
  omega

omit [CSIRead R] in
theorem bmod_rest {n k : Nat} (hint : n < 2 ^ 31) (hk : k ≤ n) :
    ((n : Int) - k).bmod (2 ^ 32) = ((n - k : Nat) : Int) := by
  rw [← Int.ofNat_sub hk]
  exact bmod_of_lt (by omega)

/-- The turns of `csi_read_exact`, where `J r w o` says that the bytes `o` have been handed
out so far. -/
theorem csiReadExact_collect {J : R → W → Bytes → Prop} {p n : Nat} (hint : n < 2 ^ 31)
    (hread : ∀ {r w o}, J r w o → o.length < n → Always E (succeeds fun c r' w' =>
      c ≠ [] ∧ c.length ≤ n - o.length ∧ J r' w' (o ++ c)) (CSIRead.read (n - o.length) r) w)
    {o : Bytes} (ho : o.length ≤ n) (hj : J s.reader w o) (hload : load s.memory p o.length = o) :
    Always E (succeeds fun _ s' w' => ∃ r m o', s' = { s with reader := r, memory := m } ∧
      J r w' o' ∧ o'.length = n ∧ load m p n = o')
      (Method.iter csiReadExactTurn (p + o.length, ((n - o.length : Nat) : Int)) s) w := by
  -- by induction on the number of bytes still missing
  induction hk : n - o.length using Nat.strongRecOn generalizing o s w with
  | ind k ih =>
    apply always_iter
    rw [csiReadExactTurn]
    rcases Nat.eq_zero_or_pos k with rfl | hpos
    · have hn : o.length = n := by omega
      simp only [Int.ofNat_zero, gt_iff_lt, Int.lt_irrefl, ↓reduceIte]
      exact .ret ⟨s.reader, s.memory, o, rfl, hj, hn, by rw [← hn]; exact hload⟩
    · have hpos' : (k : Int) > 0 := by omega
      simp only [hpos', ↓reduceIte, Int.toNat_natCast]
      subst hk
      apply always_seq_ok (always_zoom_ok (hread hj (by omega)))
      rintro c _ w₁ ⟨r, ⟨hc, hlen, hj'⟩, rfl⟩
      have hcpos : 0 < c.length := List.length_pos_iff.mpr hc
      have hrest : n - o.length - c.length = n - (o ++ c).length := by
        rw [List.length_append]
        omega
      have hstored : load (store s.memory (p + o.length) c) p (o ++ c).length = o ++ c := by
        rw [List.length_append, load_store_append, hload]
      rw [bmod_rest (by omega) hlen, hrest, Nat.add_assoc, ← List.length_append]
      refine .ret ((ih _ ?_ ?_ hj' hstored rfl).mono (succeeds_mono ?_))
      · rw [List.length_append]
        omega
      · rw [List.length_append]
        omega
      · rintro _ _ w' ⟨r', m, o', rfl, hpost⟩
        exact ⟨r', m, o', rfl, hpost⟩

/-- `csi_read_exact` stores the next `n` bytes of the stream. -/
theorem csiReadExact_ok (h : Streams CSIRead.read E St) {p n : Nat} (hst : St s.reader w t)
    (hlen : n ≤ t.length) (hint : n < 2 ^ 31) :
    Always E (succeeds fun _ s' w' => ∃ r m, s' = { s with reader := r, memory := m } ∧
      St r w' (t.drop n) ∧ load m p n = t.take n) (csiReadExact p n s) w := by
  rw [csiReadExact, bmod_of_lt hint]
  refine (csiReadExact_collect (J := fun r w o => ∃ t', t = o ++ t' ∧ St r w t') (o := []) hint ?_
    (Nat.zero_le n) ⟨t, rfl, hst⟩ rfl).mono (succeeds_mono ?_)
  · rintro r w o ⟨t', rfl, hst'⟩ ho
    have hne : t' ≠ [] := by
      rintro rfl
      rw [List.append_nil] at hlen
      omega
    refine (h.chunk hst' hne (by omega)).mono (succeeds_mono ?_)
    rintro c r' w' ⟨t'', rfl, hc, hclen, hst''⟩
    exact ⟨hc, hclen, t'', (List.append_assoc _ _ _).symm, hst''⟩
  · rintro _ _ w' ⟨r, m, o, rfl, ⟨t', rfl, hst'⟩, ho, hload⟩
    exact ⟨r, m, rfl, by rwa [List.drop_left' ho], by rw [hload, List.take_left' ho]⟩

/-- Whatever an `int` makes of the length, there are enough bytes. -/
theorem csiReadExact_enough (h : Streams CSIRead.read E St) {p n : Nat} (hst : St s.reader w t)
    (hlen : n ≤ t.length) : Always E (succeeds fun _ _ _ => True) (csiReadExact p n s) w := by
  rw [csiReadExact]
  by_cases hpos : (n : Int).bmod (2 ^ 32) > 0
  · obtain ⟨k, hk⟩ := Int.eq_ofNat_of_zero_le (Int.le_of_lt hpos)
    have hbounds : k ≤ n ∧ k < 2 ^ 31 := by
      rw [Int.bmod] at hk
      omega
    have hread := csiReadExact_ok h (p := p) hst (Nat.le_trans hbounds.1 hlen) hbounds.2
    rw [csiReadExact, bmod_of_lt hbounds.2] at hread
    rw [hk]
    exact hread.mono (succeeds_mono fun _ _ _ _ => trivial)
  · apply always_iter
    rw [csiReadExactTurn]
    simp only [hpos, ↓reduceIte]
    exact .ret trivial

/-- A payload that is cut is an error. -/
theorem csiReadExact_cut {F : W → Prop} (h : StreamsThenFails CSIRead.read E St F) {p n : Nat}
    (hst : St s.reader w t) (hlen : t.length < n) (hint : n < 2 ^ 31) :
    Always E (fails fun _ _ w' => F w') (csiReadExact p n s) w := by
  rw [csiReadExact, bmod_of_lt hint]
  induction hk : t.length using Nat.strongRecOn generalizing p n s w t with
  | ind k ih =>
    have hpos : (n : Int) > 0 := by omega
    apply always_iter
    rw [csiReadExactTurn]
    simp only [hpos, ↓reduceIte, Int.toNat_natCast]
    by_cases ht : t = []
    · subst ht
      exact always_seq_err (always_zoom_fails (h.fail hst (by omega))) fun _ _ _ hF => hF
    · apply always_seq_ok (always_zoom_ok (h.chunk hst ht (by omega)))
      rintro c _ w₁ ⟨r, ⟨t', rfl, hc, hcn, hst'⟩, rfl⟩
      have hclen : 0 < c.length := List.length_pos_iff.mpr hc
      obtain ⟨m, rfl⟩ : ∃ m, n = c.length + m := ⟨n - c.length, by omega⟩
      rw [List.length_append] at hlen hk
      have hrest : ((c.length + m : Nat) - c.length : Int).bmod (2 ^ 32) = m := by
        rw [← bmod_of_lt (n := m) (by omega)]
        congr 1
        omega
      simp only [modify_seq, hrest]
      exact .ret (ih t'.length (by omega) hst' (by omega) (by omega) rfl)

end

/-! ## Receiving a packet -/

/-- The stream ends while one of its first `n` fields is read. -/
def EndsInFields : Nat → Bytes → Prop
  | 0, _ => False
  | n + 1, s =>
    EndsInField s ∨
      match field s with
      | .ok (_, t) => EndsInFields n t
      | .error _ => False

instance decidableEndsInFields : (n : Nat) → (s : Bytes) → Decidable (EndsInFields n s)
  | 0, _ => .isFalse id
  | n + 1, s =>
    match h : field s with
    | .ok (_, t) =>
      have := decidableEndsInFields n t
      decidable_of_iff (EndsInField s ∨ EndsInFields n t) (by simp [EndsInFields, h])
    | .error _ => decidable_of_iff (EndsInField s) (by simp [EndsInFields, h])

/-- The stream ends while the header of a packet is read. -/
abbrev EndsInHeader (s : Bytes) : Prop := EndsInFields 3 s

section

variable [CSIRead R] {E : Env (CsiRes X Y) W} {St : R → W → Bytes → Prop} {s : CSI R V A}
  {p : CSIPacket} {w : W} {b t : Bytes}

theorem csiReadField_ok (h : Streams CSIRead.read E St) (hst : St s.reader w b) {v : UInt64}
    (hf : field b = .ok (v, t)) (get : CSIPacket → UInt64) (put : UInt64 → CSIPacket → CSIPacket) :
    Always E (succeeds fun _ x w' => ∃ r, x = ({ s with reader := r }, put v p) ∧ St r w' t)
      (csiReadField get put (s, p)) w := by
  rw [csiReadField, get_seq]
  apply always_seq_ok (always_zoom_ok (always_zoom_ok (csiReadVlq_ok h hst hf (get p))))
  rintro _ _ w' ⟨_, ⟨r, ⟨rfl, hst'⟩, rfl⟩, rfl⟩
  exact .ret ⟨r, rfl, hst'⟩

theorem csiReadField_tooLong (h : Streams CSIRead.read E St) {F : W → Prop}
    (hF : ∀ {r w s}, St r w s → F w) (hst : St s.reader w b) {e : IpcError}
    (hf : field b = .error e) (hend : ¬ EndsInField b) (get : CSIPacket → UInt64)
    (put : UInt64 → CSIPacket → CSIPacket) :
    Always E (fails fun _ _ w' => F w') (csiReadField get put (s, p)) w := by
  rw [csiReadField, get_seq]
  exact always_seq_fails (always_zoom_fails (always_zoom_fails
    (csiReadVlq_tooLong h hF hst hf hend (get p))))

/-- The header is read into the packet, whose payload pointer stays. -/
theorem csiReceiveHeader_ok (h : Streams CSIRead.read E St) (hst : St s.reader w b) {hd : Header}
    (hh : header b = .ok (hd, t)) :
    Always E (succeeds fun _ x w' => ∃ r, St r w' t ∧
      x = ({ s with reader := r }, ⟨hd.version, hd.code, hd.length, p.payload⟩))
      (csiReceiveHeader (s, p)) w := by
  obtain ⟨t₁, t₂, hf₁, hf₂, hf₃⟩ := fields_of_header hh
  apply always_seq_ok (csiReadField_ok h hst hf₁ _ _)
  rintro _ _ w₁ ⟨r₁, rfl, hst₁⟩
  apply always_seq_ok (csiReadField_ok h hst₁ hf₂ _ _)
  rintro _ _ w₂ ⟨r₂, rfl, hst₂⟩
  refine (csiReadField_ok h hst₂ hf₃ _ _).mono (succeeds_mono ?_)
  rintro _ _ w₃ ⟨r₃, rfl, hst₃⟩
  exact ⟨r₃, hst₃, rfl⟩

variable [PayloadAllocator A]

/-- Up to the payload a packet is read as its header says. -/
theorem csiReceive_header (h : Streams CSIRead.read E St) (hst : St s.reader w b) {hd : Header}
    (hh : header b = .ok (hd, t))
    {Q : Outcome (Except Code Unit × (CSI R V A × CSIPacket)) → W → Prop}
    (hq : ∀ r w', St r w' t → Always E Q (csiReceivePayload
      ({ s with reader := r }, ⟨hd.version, hd.code, hd.length, p.payload⟩)) w') :
    Always E Q (csiReceive (s, p)) w := by
  rw [csiReceive_eq]
  apply always_seq_ok (csiReceiveHeader_ok h hst hh)
  rintro _ _ w' ⟨r, hst', rfl⟩
  exact hq r w' hst'

/-- A header with a field that is too long is an error. -/
theorem csiReceive_badHeader (h : Streams CSIRead.read E St) {F : W → Prop}
    (hF : ∀ {r w s}, St r w s → F w) (hst : St s.reader w b) {e : IpcError}
    (hh : header b = .error e) (hend : ¬ EndsInHeader b) :
    Always E (fails fun _ _ w' => F w') (csiReceive (s, p)) w := by
  rcases fields_of_bad_header hh with hf₁ | ⟨v, t₁, hf₁, hf₂ | ⟨c, t₂, hf₂, hf₃⟩⟩
  · have hend₁ : ¬ EndsInField b := fun he => hend (.inl he)
    exact always_seq_fails (csiReadField_tooLong h hF hst hf₁ hend₁ _ _)
  · have hend₁ : ¬ EndsInField t₁ := fun he => hend (.inr (by simp [hf₁, EndsInFields, he]))
    apply always_seq_ok (csiReadField_ok h hst hf₁ _ _)
    rintro _ _ w₁ ⟨r₁, rfl, hst₁⟩
    exact always_seq_fails (csiReadField_tooLong h hF hst₁ hf₂ hend₁ _ _)
  · have hend₁ : ¬ EndsInField t₂ := fun he =>
      hend (.inr (by simp [hf₁, hf₂, EndsInFields, he]))
    apply always_seq_ok (csiReadField_ok h hst hf₁ _ _)
    rintro _ _ w₁ ⟨r₁, rfl, hst₁⟩
    apply always_seq_ok (csiReadField_ok h hst₁ hf₂ _ _)
    rintro _ _ w₂ ⟨r₂, rfl, hst₂⟩
    exact always_seq_fails (csiReadField_tooLong h hF hst₂ hf₃ hend₁ _ _)

/-- A packet is received as its header says, with its payload. -/
theorem csiReceive_ok (h : Streams CSIRead.read E St) (hst : St s.reader w b) {hd : Header}
    (hh : header b = .ok (hd, t)) (hlen : hd.length.toNat ≤ t.length)
    (hint : hd.length.toNat < 2 ^ 31) (hplace : Placeable hd.length.toNat s.allocator) :
    Always E (succeeds fun _ x w' => ∃ r m,
      x = ({ s with reader := r, memory := m,
                    allocator := (placed hd.length.toNat p.payload s.allocator).2 },
        ⟨hd.version, hd.code, hd.length, (placed hd.length.toNat p.payload s.allocator).1⟩) ∧
      St r w' (t.drop hd.length.toNat) ∧
      load m x.2.payload hd.length.toNat = t.take hd.length.toNat)
      (csiReceive (s, p)) w := by
  apply csiReceive_header h hst hh
  intro r w' hst'
  rw [csiReceivePayload, get_seq]
  by_cases hpos : 0 < hd.length.toNat
  · have hmalloc := hplace hpos
    simp only [uint64_pos, hpos, ↓reduceIte, set_seq, hmalloc]
    refine (always_zoom_ok (csiReadExact_ok h hst' hlen hint)).mono (succeeds_mono ?_)
    rintro _ _ w'' ⟨_, ⟨r', m, rfl, hst'', hload⟩, rfl⟩
    refine ⟨r', m, ?_, hst'', hload⟩
    simp [placed, hpos]
  · have hzero : hd.length.toNat = 0 := by omega
    simp only [uint64_pos, hpos, ↓reduceIte]
    refine .ret ⟨r, s.memory, ?_, ?_, ?_⟩
    · simp [placed, hzero]
    · simpa [hzero] using hst'
    · simp [hzero, load]

/-- A packet that is complete is received, with the code of its header. -/
theorem csiReceive_complete (h : Streams CSIRead.read E St) (hst : St s.reader w b) {hd : Header}
    (hh : header b = .ok (hd, t)) (hlen : hd.length.toNat ≤ t.length)
    (hplace : Placeable hd.length.toNat s.allocator) :
    Always E (succeeds fun _ x _ => x.2.code = hd.code) (csiReceive (s, p)) w := by
  apply csiReceive_header h hst hh
  intro r w' hst'
  rw [csiReceivePayload, get_seq]
  by_cases hpos : 0 < hd.length.toNat
  · have hmalloc := hplace hpos
    simp only [uint64_pos, hpos, ↓reduceIte, set_seq, hmalloc]
    refine (always_zoom_ok (csiReadExact_enough h hst' hlen)).mono (succeeds_mono ?_)
    rintro _ _ w'' ⟨_, -, rfl⟩
    rfl
  · simp only [uint64_pos, hpos, ↓reduceIte]
    exact .ret rfl

/-- A packet whose payload is cut is an error. -/
theorem csiReceive_cut {F : W → Prop} (h : StreamsThenFails CSIRead.read E St F)
    (hst : St s.reader w b) {hd : Header} (hh : header b = .ok (hd, t))
    (hlen : t.length < hd.length.toNat)
    (hint : hd.length.toNat < 2 ^ 31) (hplace : Placeable hd.length.toNat s.allocator) :
    Always E (fails fun _ _ w' => F w') (csiReceive (s, p)) w := by
  apply csiReceive_header h.toStreams hst hh
  intro r w' hst'
  have hpos : 0 < hd.length.toNat := by omega
  have hmalloc := hplace hpos
  rw [csiReceivePayload, get_seq]
  simp only [uint64_pos, hpos, ↓reduceIte, set_seq, hmalloc]
  exact always_zoom_fails (csiReadExact_cut h hst' hlen hint)

end

/-! ## What becomes of payload blocks -/

/-- The allocator and the payload pointer of the response. -/
def payloadPart (x : CSI R V A × CSIPacket) : A × Nat := (x.1.allocator, x.2.payload)

/-- A call has obtained the block that the pointer is to. -/
def Obtained [PayloadAllocator A] (x x' : CSI R V A × CSIPacket) : Prop :=
  ∃ n, PayloadAllocator.malloc n x.1.allocator = (x'.2.payload, x'.1.allocator) ∧
    x'.2.payload ≠ 0

/-- The payload pointer of `x` is as it was, or it is that of a block just obtained. -/
def KeptOrObtained [PayloadAllocator A] (x x' : CSI R V A × CSIPacket) : Prop :=
  payloadPart x' = payloadPart x ∨ Obtained x x'

theorem Obtained.of_part [PayloadAllocator A] {x x₁ x' : CSI R V A × CSIPacket}
    (h : Obtained x₁ x') (hpart : payloadPart x₁ = payloadPart x) : Obtained x x' := by
  obtain ⟨n, hn, hne⟩ := h
  rw [show x₁.1.allocator = x.1.allocator from congrArg Prod.fst hpart] at hn
  exact ⟨n, hn, hne⟩

theorem Obtained.to_part [PayloadAllocator A] {x x₁ x' : CSI R V A × CSIPacket}
    (h : Obtained x x₁) (hpart : payloadPart x' = payloadPart x₁) : Obtained x x' := by
  obtain ⟨n, hn, hne⟩ := h
  have hallocator : x'.1.allocator = x₁.1.allocator := congrArg Prod.fst hpart
  have hpayload : x'.2.payload = x₁.2.payload := congrArg Prod.snd hpart
  exact ⟨n, by rw [hn, hallocator, hpayload], by rwa [hpayload]⟩

section

variable {E : Env (CsiRes X Y) W} {α : Type}

theorem onReader_frames (x : Method (CsiRes X Y) Code R α) :
    Frames E (fun c : CSI R V A => c.allocator) (CSI.onReader x) :=
  frames_zoom x fun _ _ => rfl

theorem onWriter_frames (x : Method (CsiRes X Y) Code V α) :
    Frames E (fun c : CSI R V A => c.allocator) (CSI.onWriter x) :=
  frames_zoom x fun _ _ => rfl

/-- What leaves the allocator of the channel alone does nothing to the payload pointer. -/
theorem onChannel_frames {x : Method (CsiRes X Y) Code (CSI R V A) α}
    (hx : Frames E (fun c => c.allocator) x) :
    Frames E payloadPart (Method.zoom Prod.fst (fun c s => (c, s.2)) x :
      Method (CsiRes X Y) Code (CSI R V A × CSIPacket) α) :=
  frames_zoom_part hx fun c u hc => by simp only [payloadPart, hc]

theorem csiSend_frames [CSIWrite V] (sendError : CSIErrorCode) (p : CSIPacket) :
    Frames E (fun c => c.allocator)
      (csiSend sendError p : Method (CsiRes X Y) Code (CSI R V A) Unit) := by
  have hpayload : Frames E (fun c => c.allocator)
      (csiSendPayload sendError p : Method (CsiRes X Y) Code (CSI R V A) Unit) := by
    unfold csiSendPayload
    by_cases hpos : p.payloadLen > 0
    · rw [if_pos hpos]
      refine frames_seq frames_get fun s => frames_seq (onWriter_frames _) fun n => ?_
      by_cases hshort : n ≠ p.payloadLen.toNat
      · rw [if_pos hshort]
        exact frames_throw _
      · rw [if_neg hshort]
        exact frames_pure _
    · rw [if_neg hpos]
      exact frames_pure _
  refine frames_seq (onWriter_frames _) fun _ => frames_seq (onWriter_frames _) fun _ => ?_
  exact frames_seq (onWriter_frames _) fun _ => frames_seq hpayload fun _ => onWriter_frames _

variable [CSIRead R]

theorem csiReadExact_frames (buf len : Nat) :
    Frames E (fun c => c.allocator)
      (csiReadExact buf len : Method (CsiRes X Y) Code (CSI R V A) Unit) := by
  refine frames_iter (fun x => ?_) _
  unfold csiReadExactTurn
  by_cases hpos : x.2 > 0
  · rw [if_pos hpos]
    refine frames_seq (onReader_frames _) fun bs => ?_
    exact frames_seq (frames_modify fun _ => rfl) fun _ => frames_pure _
  · rw [if_neg hpos]
    exact frames_pure _

theorem csiReadField_frames (get : CSIPacket → UInt64) {put : UInt64 → CSIPacket → CSIPacket}
    (hput : ∀ v p, (put v p).payload = p.payload) :
    Frames E payloadPart (csiReadField (R := R) (V := V) (A := A) get put) := by
  unfold csiReadField
  refine frames_seq frames_get fun s => ?_
  refine frames_seq (onChannel_frames (onReader_frames _)) fun v => ?_
  exact frames_modify fun s => by simp only [payloadPart, hput]

theorem csiReceiveHeader_frames :
    Frames E payloadPart (csiReceiveHeader (R := R) (V := V) (A := A)) := by
  refine frames_seq (csiReadField_frames _ fun _ _ => rfl) fun _ => ?_
  refine frames_seq (csiReadField_frames _ fun _ _ => rfl) fun _ => ?_
  exact csiReadField_frames _ fun _ _ => rfl

variable [PayloadAllocator A]

/-- `n` bytes are placed between `x` and `x'`. -/
def PlacedBetween (n : Nat) (x x' : CSI R V A × CSIPacket) : Prop :=
  Placeable n x.1.allocator ∧ placed n x.2.payload x.1.allocator = (x'.2.payload, x'.1.allocator)

omit [CSIRead R] in
theorem PlacedBetween.of_part {n : Nat} {x x₁ x' : CSI R V A × CSIPacket}
    (h : PlacedBetween n x₁ x') (hpart : payloadPart x₁ = payloadPart x) :
    PlacedBetween n x x' := by
  have hallocator : x₁.1.allocator = x.1.allocator := congrArg Prod.fst hpart
  have hpayload : x₁.2.payload = x.2.payload := congrArg Prod.snd hpart
  rwa [PlacedBetween, hallocator, hpayload] at h

omit [CSIRead R] in
theorem PlacedBetween.kept {x x' : CSI R V A × CSIPacket} (h : PlacedBetween 0 x x') :
    payloadPart x' = payloadPart x :=
  Prod.ext (congrArg Prod.snd h.2).symm (congrArg Prod.fst h.2).symm

omit [CSIRead R] in
theorem PlacedBetween.obtained {n : Nat} {x x' : CSI R V A × CSIPacket}
    (h : PlacedBetween n x x') (hn : 0 < n) : Obtained x x' := by
  obtain ⟨hplace, heq⟩ := h
  rw [placed, if_pos hn] at heq
  exact ⟨n, heq, fun hnull => hplace hn ((congrArg Prod.fst heq).trans hnull)⟩

/-- The payload is placed, if there is one. -/
theorem csiReceivePayload_places (x : CSI R V A × CSIPacket) (w : W) :
    Safely E (fun _ => True) (fun o _ => ∀ r x', o = .ret (r, x') →
      PlacedBetween x.2.payloadLen.toNat x x') (csiReceivePayload x) w := by
  rw [csiReceivePayload, get_seq]
  by_cases hpos : 0 < x.2.payloadLen.toNat
  · simp only [uint64_pos, hpos, ↓reduceIte, set_seq]
    by_cases hnull : (PayloadAllocator.malloc x.2.payloadLen.toNat x.1.allocator).1 = 0
    · rw [if_pos hnull]
      exact safely_panic trivial (by rintro _ _ ⟨⟩)
    · rw [if_neg hnull]
      refine safely_map ((csiReadExact_frames _ _ _ w).mono (fun _ hi => hi) ?_)
      rintro (⟨r, c⟩ | _) v - hc
      · rintro r' x' ⟨⟩
        refine ⟨fun _ => hnull, ?_⟩
        rw [placed, if_pos hpos]
        exact Prod.ext rfl (hc _ _ rfl).symm
      · rintro r' x' ⟨⟩
  · have hzero : x.2.payloadLen.toNat = 0 := by omega
    simp only [uint64_pos, hpos, ↓reduceIte]
    refine safely_ret trivial ?_
    rintro _ _ ⟨⟩
    rw [hzero]
    exact ⟨placeable_zero _, rfl⟩

theorem csiReceivePayload_obtains (x : CSI R V A × CSIPacket) (w : W) :
    Safely E (fun _ => True) (fun o _ => ∀ r x', o = .ret (r, x') →
      if x.2.payloadLen > 0 then Obtained x x' else payloadPart x' = payloadPart x)
      (csiReceivePayload x) w := by
  apply (csiReceivePayload_places x w).mono (fun _ hi => hi)
  intro o v _ ho r x' he
  have hplaced := ho r x' he
  by_cases hpos : 0 < x.2.payloadLen.toNat
  · rw [if_pos (uint64_pos.mpr hpos)]
    exact hplaced.obtained hpos
  · have hzero : x.2.payloadLen.toNat = 0 := by omega
    rw [if_neg (mt uint64_pos.mp hpos)]
    rw [hzero] at hplaced
    exact hplaced.kept

/-- However a reception ends, it has placed some payload, or none. -/
theorem csiReceive_places (x : CSI R V A × CSIPacket) (w : W) :
    Safely E (fun _ => True) (fun o _ => ∀ r x', o = .ret (r, x') → ∃ n, PlacedBetween n x x')
      (csiReceive x) w := by
  rw [csiReceive_eq]
  refine safely_seq_frames csiReceiveHeader_frames (fun _ x' h => ?_) ?_
  · exact ⟨0, placeable_zero _, Prod.ext (congrArg Prod.snd h).symm (congrArg Prod.fst h).symm⟩
  intro _ x₁ w₁ h₁
  apply (csiReceivePayload_places x₁ w₁).mono (fun _ hi => hi)
  intro o v _ ho r x' he
  exact ⟨_, (ho r x' he).of_part h₁⟩

theorem csiReceive_payload (x : CSI R V A × CSIPacket) (w : W) :
    Safely E (fun _ => True) (fun o _ => ∀ r x', o = .ret (r, x') → KeptOrObtained x x')
      (csiReceive x) w := by
  apply (csiReceive_places x w).mono (fun _ hi => hi)
  intro o v _ ho r x' he
  obtain ⟨n, hplaced⟩ := ho r x' he
  rcases Nat.eq_zero_or_pos n with rfl | hn
  · exact .inl hplaced.kept
  · exact .inr (hplaced.obtained hn)

end

end CkbScriptIpc
