import CkbScriptIpc.Channel

/-!
# What a send delivers

The send functions of a channel over a writer that takes some of the bytes it is
offered (`Taker`). A packet that fits the buffer goes out whole, however little
the writer takes at a time (`Drains`); a packet that does not is offered once,
and what is not taken then is lost.

* `sendBytes_ends_iff`: which sends succeed, and what the writer has then;
* `sends_complete_iff`: successful sends have delivered their packets exactly if
  the writer takes the large ones whole.
-/

namespace CkbScriptIpc

open Interaction

variable {X Y : Type}

/-! ## A writer -/

/-- The answers of a writer, call by call. A write that succeeds takes at least
one byte and at most those offered. -/
structure WriteContract where
  accept : Nat → Bytes → Except ErrorKind Nat
  accept_le : ∀ k bs n, bs ≠ [] → accept k bs = .ok n → 1 ≤ n ∧ n ≤ bs.length
  onFlush : Nat → Except ErrorKind Unit

/-- A writer after some calls, with the bytes it has taken. -/
structure Taker where
  contract : WriteContract
  calls : Nat
  taken : Bytes

namespace Taker

/-- A call of `write`. -/
def offer (v : Taker) (bs : Bytes) : Except ErrorKind Nat × Taker :=
  match v.contract.accept v.calls bs with
  | .ok n => (.ok n, { v with calls := v.calls + 1, taken := v.taken ++ bs.take n })
  | .error e => (.error e, { v with calls := v.calls + 1 })

/-- A call of `flush`. -/
def flushed (v : Taker) : Except ErrorKind Unit × Taker :=
  (v.contract.onFlush v.calls, { v with calls := v.calls + 1 })

instance : Write Taker where
  write bs := fun v => .ret (v.offer bs)
  flush := fun v => .ret v.flushed

theorem offer_ok {v v' : Taker} {bs : Bytes} {n : Nat} (hne : bs ≠ [])
    (h : v.offer bs = (.ok n, v')) :
    1 ≤ n ∧ n ≤ bs.length ∧ v'.taken = v.taken ++ bs.take n := by
  rw [offer] at h
  cases ha : v.contract.accept v.calls bs with
  | error e => rw [ha] at h; cases h
  | ok m =>
    rw [ha] at h
    cases h
    obtain ⟨h₁, h₂⟩ := v.contract.accept_le _ _ _ hne ha
    exact ⟨h₁, h₂, rfl⟩

theorem offer_error {v v' : Taker} {bs : Bytes} {e : ErrorKind}
    (h : v.offer bs = (.error e, v')) : v'.taken = v.taken := by
  rw [offer] at h
  cases ha : v.contract.accept v.calls bs with
  | error e' => rw [ha] at h; cases h; rfl
  | ok m => rw [ha] at h; cases h

theorem flushed_taken (v : Taker) : v.flushed.2.taken = v.taken := rfl

end Taker

/-- Offering `bs` again and again, what is left of it each time, ends with all of
it taken. -/
inductive Drains : Taker → Bytes → Taker → Prop
  | done (v : Taker) : Drains v [] v
  | taken {v v' v'' : Taker} {bs : Bytes} {n : Nat} :
      bs ≠ [] → v.offer bs = (.ok n, v') → Drains v' (bs.drop n) v'' → Drains v bs v''
  | interrupted {v v' v'' : Taker} {bs : Bytes} :
      bs ≠ [] → v.offer bs = (.error .interrupted, v') → Drains v' bs v'' → Drains v bs v''

theorem Drains.taken_eq {v v' : Taker} {bs : Bytes} (h : Drains v bs v') :
    v'.taken = v.taken ++ bs := by
  induction h with
  | done v => simp
  | taken hne ho _ ih =>
    rw [ih, (Taker.offer_ok hne ho).2.2, List.append_assoc, List.take_append_drop]
  | interrupted hne ho _ ih => rw [ih, Taker.offer_error ho]

/-! ## `flush_buf` over a writer -/

namespace BufWriter

variable {s : BufWriter Taker} {v : Taker}

theorem flushBufTurn_done (hb : s.buf = []) :
    flushBufTurn (X := X) (Y := Y) () s = .ret (.ok (.inr ()), s) := by
  simp only [flushBufTurn, get_seq, hb, ↓reduceIte]
  rfl

theorem flushBufTurn_taken {n : Nat} (hb : s.buf ≠ []) (h : s.inner.offer s.buf = (.ok n, v)) :
    flushBufTurn (X := X) (Y := Y) () s =
      .ret (.ok (.inl ()), { s with inner := v, buf := s.buf.drop n }) := by
  obtain ⟨n, rfl⟩ := Nat.exists_eq_succ_of_ne_zero
    (Nat.one_le_iff_ne_zero.mp (Taker.offer_ok hb h).1)
  have hw : onInner (X := X) (Y := Y) (Write.write s.buf) s = .ret (.ok (n + 1), _) :=
    zoom_ret (congrArg Prog.ret h)
  simp only [flushBufTurn, get_seq, hb, ↓reduceIte]
  rw [seq_ok (attempt_ret hw)]
  rfl

theorem flushBufTurn_error {e : ErrorKind} (hb : s.buf ≠ [])
    (h : s.inner.offer s.buf = (.error e, v)) :
    flushBufTurn (X := X) (Y := Y) () s =
      .ret (if e = .interrupted then .ok (.inl ()) else .error e, { s with inner := v }) := by
  have hw : onInner (X := X) (Y := Y) (Write.write s.buf) s = .ret (.error e, _) :=
    zoom_ret (congrArg Prog.ret h)
  simp only [flushBufTurn, get_seq, hb, ↓reduceIte]
  rw [seq_ok (attempt_ret hw)]
  cases e <;> rfl

/-- A buffer that can be drained is. -/
theorem flushBuf_drains {buf : Bytes} {v' : Taker} (h : Drains v buf v') (capacity : Nat) :
    Always (silent : Env (IoRes X Y) Unit) (succeeds fun _ s' _ => s' = ⟨v', [], capacity⟩)
      (flushBuf ⟨v, buf, capacity⟩) () := by
  induction h with
  | done v =>
    apply always_iter
    rw [flushBufTurn_done rfl]
    exact .ret rfl
  | taken hne ho _ ih =>
    apply always_iter
    rw [flushBufTurn_taken hne ho]
    exact .ret ih
  | interrupted hne ho _ ih =>
    apply always_iter
    rw [flushBufTurn_error hne ho]
    exact .ret ih

/-- `flush_buf` succeeds only by draining the buffer. -/
theorem flushBuf_safely (s : BufWriter Taker) :
    Safely (silent : Env (IoRes X Y) Unit) (fun _ => True)
      (whenOk fun _ s' _ => ∃ v', Drains s.inner s.buf v' ∧ s' = ⟨v', [], s.capacity⟩)
      (flushBuf s) () := by
  -- at the head of a turn, draining what is left drains the whole buffer
  refine safely_iter (fun _ t _ => t.capacity = s.capacity ∧
    ∀ v', Drains t.inner t.buf v' → Drains s.inner s.buf v') ?_ ⟨rfl, fun _ h => h⟩
  rintro _ t _ ⟨hcap, hdrain⟩
  by_cases hb : t.buf = []
  · rw [flushBufTurn_done hb]
    exact safely_ret trivial ⟨t.inner, hdrain _ (hb ▸ .done _), by rw [← hcap, ← hb]⟩
  · rcases ho : t.inner.offer t.buf with ⟨e | n, v⟩
    · rw [flushBufTurn_error hb ho]
      apply safely_ret trivial
      by_cases he : e = .interrupted
      · subst he
        exact ⟨hcap, fun v' h => hdrain v' (.interrupted hb ho h)⟩
      · simp only [he, ↓reduceIte]
        trivial
    · rw [flushBufTurn_taken hb ho]
      exact safely_ret trivial ⟨hcap, fun v' h => hdrain v' (.taken hb ho h)⟩

end BufWriter

/-! ## One send -/

/-- A successful send of `bs` takes the writer from `v` to `v'`. -/
def Sends (capacity : Nat) (v : Taker) (bs : Bytes) (v' : Taker) : Prop :=
  ∃ v₁, (if bs.length < capacity then Drains v bs v₁ else ∃ n, v.offer bs = (.ok n, v₁)) ∧
    v₁.flushed = (.ok (), v')

namespace BufWriter

variable {v v₁ : Taker} {capacity : Nat} {bs : Bytes}

/-- A small packet is buffered. -/
theorem write_small (h : bs.length < capacity) :
    Write.write (X := X) (Y := Y) bs (BufWriter.mk v [] capacity) =
      .ret (.ok bs.length, ⟨v, bs, capacity⟩) :=
  write_buffered (s := ⟨v, [], capacity⟩) (by simpa [spareCapacity] using h)

/-- A large packet is offered to the writer once. -/
theorem write_large (h : capacity ≤ bs.length) :
    Always (silent : Env (IoRes X Y) Unit)
      (fun o _ => o = .ret ((v.offer bs).1, ⟨(v.offer bs).2, [], capacity⟩))
      (Write.write bs (BufWriter.mk v [] capacity)) () := by
  have hpass : passOrBuffer (X := X) (Y := Y) bs ⟨v, [], capacity⟩ =
      .ret ((v.offer bs).1, ⟨(v.offer bs).2, [], capacity⟩) :=
    (passOrBuffer_large h).trans (zoom_ret rfl)
  rcases Nat.eq_or_lt_of_le h with heq | hlt
  · rw [write_exact (by simp [spareCapacity, heq]), hpass]
    exact .ret rfl
  · rw [write_crowded (by simpa [spareCapacity] using hlt)]
    apply always_seq_ok (flushBuf_drains (.done v) capacity)
    rintro _ _ _ rfl
    rw [hpass]
    exact .ret rfl

theorem flush_always {v' : Taker} (h : Drains v bs v₁) (hf : v₁.flushed = (.ok (), v')) :
    Always (silent : Env (IoRes X Y) Unit) (succeeds fun _ s' _ => s' = ⟨v', [], capacity⟩)
      (Write.flush (BufWriter.mk v bs capacity)) () := by
  apply always_seq_ok (flushBuf_drains h capacity)
  rintro _ _ _ rfl
  have hflush : onInner (X := X) (Y := Y) Write.flush ⟨v₁, [], capacity⟩ =
      .ret (.ok (), ⟨v', [], capacity⟩) := zoom_ret (congrArg Prog.ret hf)
  rw [hflush]
  exact .ret rfl

theorem flush_safely :
    Safely (silent : Env (IoRes X Y) Unit) (fun _ => True)
      (whenOk fun _ s' _ => ∃ v₁ v', Drains v bs v₁ ∧ v₁.flushed = (.ok (), v') ∧
        s' = ⟨v', [], capacity⟩)
      (Write.flush (BufWriter.mk v bs capacity)) () := by
  apply safely_seq_whenOk (flushBuf_safely _)
  rintro _ _ _ ⟨v₁, hd, rfl⟩
  have hflush : onInner (X := X) (Y := Y) Write.flush ⟨v₁, [], capacity⟩ =
      .ret (v₁.flushed.1, ⟨v₁.flushed.2, [], capacity⟩) := zoom_ret rfl
  rw [hflush]
  rcases hf : v₁.flushed with ⟨_ | _, v'⟩
  · exact safely_ret trivial trivial
  · exact safely_ret trivial ⟨v₁, v', hd, hf, rfl⟩

end BufWriter

namespace Channel

variable {R Req Resp : Type} {v v' : Taker} {capacity : Nat} {bs : Bytes} {rd : BufReader R}

/-- A send that goes through leaves an empty buffer. -/
theorem sendBytes_always (h : Sends capacity v bs v') :
    Always (silent : Env (IoRes X Y) Unit) (succeeds fun _ s' _ => s' = ⟨rd, ⟨v', [], capacity⟩⟩)
      (sendBytes bs ⟨rd, ⟨v, [], capacity⟩⟩) () := by
  obtain ⟨v₁, hw, hf⟩ := h
  by_cases hlt : bs.length < capacity
  · rw [if_pos hlt] at hw
    refine always_seq_ok (onWriter_ok (P := fun _ t _ => t = ⟨v, bs, capacity⟩) ?_) ?_
    · rw [BufWriter.write_small hlt]
      exact .ret rfl
    · rintro _ _ _ ⟨_, rfl, rfl⟩
      refine (onWriter_ok (BufWriter.flush_always hw hf)).mono (succeeds_mono ?_)
      rintro _ _ _ ⟨_, rfl, rfl⟩
      rfl
  · rw [if_neg hlt] at hw
    obtain ⟨n, ho⟩ := hw
    refine always_seq_ok (onWriter_ok (P := fun _ t _ => t = ⟨v₁, [], capacity⟩) ?_) ?_
    · apply (BufWriter.write_large (Nat.le_of_not_lt hlt)).mono
      rintro _ _ rfl
      rw [ho]
      exact rfl
    · rintro _ _ _ ⟨_, rfl, rfl⟩
      refine (onWriter_ok (BufWriter.flush_always (.done v₁) hf)).mono (succeeds_mono ?_)
      rintro _ _ _ ⟨_, rfl, rfl⟩
      rfl

theorem sendBytes_safely :
    Safely (silent : Env (IoRes X Y) Unit) (fun _ => True)
      (whenOk fun _ s' _ => ∃ v', Sends capacity v bs v' ∧ s' = ⟨rd, ⟨v', [], capacity⟩⟩)
      (sendBytes bs ⟨rd, ⟨v, [], capacity⟩⟩) () := by
  by_cases hlt : bs.length < capacity
  · refine safely_seq_whenOk (onWriter_whenOk (P := fun _ t _ => t = ⟨v, bs, capacity⟩) ?_) ?_
    · rw [BufWriter.write_small hlt]
      exact safely_ret trivial rfl
    · rintro _ _ _ ⟨_, rfl, rfl⟩
      apply (onWriter_whenOk BufWriter.flush_safely).whenOk_mono
      rintro _ _ _ ⟨_, ⟨v₁, v', hd, hf, rfl⟩, rfl⟩
      exact ⟨v', ⟨v₁, by rwa [if_pos hlt], hf⟩, rfl⟩
  · refine safely_seq_whenOk (onWriter_whenOk
      (P := fun n t _ => ∃ v₁, v.offer bs = (.ok n, v₁) ∧ t = ⟨v₁, [], capacity⟩) ?_) ?_
    · apply (BufWriter.write_large (Nat.le_of_not_lt hlt)).safely.mono (fun _ hi => hi)
      rintro _ _ _ rfl
      rcases ho : v.offer bs with ⟨_ | n, v₁⟩
      · trivial
      · exact ⟨v₁, rfl, rfl⟩
    · rintro n _ _ ⟨_, ⟨v₁, ho, rfl⟩, rfl⟩
      apply (onWriter_whenOk BufWriter.flush_safely).whenOk_mono
      rintro _ _ _ ⟨_, ⟨v₂, v', hd, hf, rfl⟩, rfl⟩
      cases hd with
      | done => exact ⟨v', ⟨v₁, by rw [if_neg hlt]; exact ⟨n, ho⟩, hf⟩, rfl⟩
      | taken hne => exact absurd rfl hne
      | interrupted hne => exact absurd rfl hne

end Channel

/-! ## Sequences of sends -/

section

variable [Allocator]

/-- The four ways to send a packet. -/
inductive Send (Req Resp : Type) where
  | request (req : Req)
  | jsonRequest (json : Vec)
  | response (resp : Resp)
  | errorCode (code : ProtocolErrorCode)

namespace Send

variable {R V Req Resp : Type} [Serde Req] [Serde Resp]

def run [Write V] : Send Req Resp → Method (IoRes X Y) IpcError (Channel R V) Unit
  | .request req => Channel.sendRequest req
  | .jsonRequest json => Channel.sendJsonRequest json
  | .response resp => Channel.sendResponse resp
  | .errorCode code => Channel.sendErrorCode code

/-- The serialized packet, unless `to_vec` fails. -/
def packet : Send Req Resp → Option Bytes
  | .request req => (Serde.toVec req).map fun v => (RequestPacket.new v).serialize
  | .jsonRequest json => some (RequestPacket.new json).serialize
  | .response resp => (Serde.toVec resp).map fun v => (ResponsePacket.new 0 v).serialize
  | .errorCode code => some (ResponsePacket.new code.toU64 Vec.empty).serialize

/-- One send after another, up to the first that fails. -/
def runAll [Write V] : List (Send Req Resp) → Method (IoRes X Y) IpcError (Channel R V) Unit
  | [] => pure ()
  | x :: xs => do
    x.run
    runAll xs

/-- The bytes of all the packets. -/
def packets (xs : List (Send Req Resp)) : Bytes := xs.flatMap fun x => x.packet.getD []

theorem run_eq [Write V] (x : Send Req Resp) :
    (x.run : Method (IoRes X Y) IpcError (Channel R V) Unit) =
      match x.packet with
      | none => Method.throw .serializeError
      | some bytes => Channel.sendBytes bytes := by
  cases x with
  | request req => simp only [run, packet, Channel.sendRequest]; cases Serde.toVec req <;> rfl
  | jsonRequest json => rfl
  | response resp => simp only [run, packet, Channel.sendResponse]; cases Serde.toVec resp <;> rfl
  | errorCode code => rfl

/-- Every packet at least as large as the buffer, where the sends before it went
through, is taken whole by the one write that offers it, if that write and the
flush behind it succeed. -/
def TakenWhole (capacity : Nat) : Taker → List (Send Req Resp) → Prop
  | _, [] => True
  | v, x :: xs => ∀ bytes, x.packet = some bytes → ∀ v', Sends capacity v bytes v' →
      (capacity ≤ bytes.length → (v.offer bytes).1 = .ok bytes.length) ∧ TakenWhole capacity v' xs

/-- Whenever the sends so far have all succeeded, the writer has taken exactly
their packets. -/
def Delivered (ch : Channel R Taker) (xs : List (Send Req Resp)) : Prop :=
  ∀ k s' u,
    Ends (silent : Env (IoRes Unit Unit) Unit) (runAll (xs.take k) ch) () (.ret (.ok (), s')) u →
    s'.writer.inner.taken = ch.writer.inner.taken ++ packets (xs.take k)

theorem packet_ne_nil {x : Send Req Resp} {bytes : Bytes} (h : x.packet = some bytes) :
    bytes ≠ [] := by
  cases x with
  | request req =>
    obtain ⟨v, -, rfl⟩ := Option.map_eq_some_iff.mp h
    exact RequestPacket.serialize_ne_nil _
  | jsonRequest json => cases h; exact RequestPacket.serialize_ne_nil _
  | response resp =>
    obtain ⟨v, -, rfl⟩ := Option.map_eq_some_iff.mp h
    exact ResponsePacket.serialize_ne_nil _
  | errorCode code => cases h; exact ResponsePacket.serialize_ne_nil _

theorem packets_cons {x : Send Req Resp} {bytes : Bytes} (h : x.packet = some bytes)
    (xs : List (Send Req Resp)) : packets (x :: xs) = bytes ++ packets xs := by
  simp [packets, h]

section

variable {capacity : Nat} {rd : BufReader R} {x : Send Req Resp} {v v' : Taker} {bytes : Bytes}

omit [Allocator] in
/-- A successful send delivers its packet exactly if a large one is taken whole. -/
theorem taken_of_sends (hne : bytes ≠ []) (h : Sends capacity v bytes v') :
    v'.taken = v.taken ++ bytes ↔
      (capacity ≤ bytes.length → (v.offer bytes).1 = .ok bytes.length) := by
  obtain ⟨v₁, hw, hf⟩ := h
  obtain rfl : v₁.flushed.2 = v' := congrArg Prod.snd hf
  rw [Taker.flushed_taken]
  by_cases hlt : bytes.length < capacity
  · rw [if_pos hlt] at hw
    exact ⟨fun _ hle => absurd hle (Nat.not_le.mpr hlt), fun _ => hw.taken_eq⟩
  · rw [if_neg hlt] at hw
    obtain ⟨n, ho⟩ := hw
    obtain ⟨-, hn, ht⟩ := Taker.offer_ok hne ho
    rw [ht, ho, List.append_cancel_left_eq]
    constructor
    · intro htake _
      have hlen := congrArg List.length htake
      rw [List.length_take, Nat.min_eq_left hn] at hlen
      rw [hlen]
    · intro hfull
      cases hfull (Nat.le_of_not_lt hlt)
      exact List.take_length

theorem run_always (hx : x.packet = some bytes) (h : Sends capacity v bytes v') :
    Always (silent : Env (IoRes X Y) Unit) (succeeds fun _ s' _ => s' = ⟨rd, ⟨v', [], capacity⟩⟩)
      (x.run ⟨rd, ⟨v, [], capacity⟩⟩) () := by
  rw [run_eq, hx]
  exact Channel.sendBytes_always h

theorem run_safely :
    Safely (silent : Env (IoRes X Y) Unit) (fun _ => True)
      (whenOk fun _ s' _ => ∃ bytes v', x.packet = some bytes ∧ Sends capacity v bytes v' ∧
        s' = ⟨rd, ⟨v', [], capacity⟩⟩) (x.run ⟨rd, ⟨v, [], capacity⟩⟩) () := by
  rw [run_eq]
  cases hx : x.packet with
  | none => exact safely_ret trivial trivial
  | some bytes =>
    apply Channel.sendBytes_safely.whenOk_mono
    rintro _ _ _ ⟨v', hs, rfl⟩
    exact ⟨bytes, v', rfl, hs, rfl⟩

theorem runAll_safely {xs : List (Send Req Resp)} (h : TakenWhole capacity v xs) :
    Safely (silent : Env (IoRes X Y) Unit) (fun _ => True)
      (whenOk fun _ s' _ => s'.writer.inner.taken = v.taken ++ packets xs)
      (runAll xs ⟨rd, ⟨v, [], capacity⟩⟩) () := by
  induction xs generalizing v with
  | nil => exact safely_ret trivial (List.append_nil _).symm
  | cons x xs ih =>
    apply safely_seq_whenOk run_safely
    rintro _ _ _ ⟨bytes, v', hx, hs, rfl⟩
    obtain ⟨hwhole, hrest⟩ := h bytes hx v' hs
    rw [packets_cons hx, ← List.append_assoc,
      ← (taken_of_sends (packet_ne_nil hx) hs).mpr hwhole]
    exact ih hrest

theorem TakenWhole.take {xs : List (Send Req Resp)} (h : TakenWhole capacity v xs) (k : Nat) :
    TakenWhole capacity v (xs.take k) := by
  induction xs generalizing v k with
  | nil => rw [List.take_nil]; exact trivial
  | cons x xs ih =>
    cases k with
    | zero => exact trivial
    | succ k =>
      intro bytes hx v' hs
      exact ⟨(h bytes hx v' hs).1, ih (h bytes hx v' hs).2 k⟩

/-- What is delivered of a list is delivered of its tail, behind a head that was sent. -/
theorem Delivered.tail {xs : List (Send Req Resp)}
    (h : Delivered ⟨rd, ⟨v, [], capacity⟩⟩ (x :: xs)) (hx : x.packet = some bytes)
    (hs : Sends capacity v bytes v') :
    v'.taken = v.taken ++ bytes ∧ Delivered ⟨rd, ⟨v', [], capacity⟩⟩ xs := by
  have hrun : Always (silent : Env (IoRes Unit Unit) Unit)
      (succeeds fun _ s' _ => s' = ⟨rd, ⟨v', [], capacity⟩⟩) (x.run ⟨rd, ⟨v, [], capacity⟩⟩) () :=
    run_always hx hs
  obtain ⟨o, u, hhead, ho⟩ := hrun.exists_ends silent_answers
  have hho : o = .ret (.ok (), ⟨rd, ⟨v', [], capacity⟩⟩) := by
    rcases o with ⟨_ | _, _⟩ | _
    · exact ho.elim
    · rw [show _ = _ from ho]
    · exact ho.elim
  subst hho
  have hall : ∀ k s' u, Ends (silent : Env (IoRes Unit Unit) Unit)
      (runAll (xs.take k) ⟨rd, ⟨v', [], capacity⟩⟩) () (.ret (.ok (), s')) u →
      s'.writer.inner.taken = v.taken ++ bytes ++ packets (xs.take k) := by
    intro k s' u htail
    have hboth := h (k + 1) s' u ((reach_bind hhead _).trans htail)
    rwa [List.take_succ_cons, packets_cons hx, ← List.append_assoc] at hboth
  have hfirst : v'.taken = v.taken ++ bytes := by
    have := hall 0 _ _ (.refl _ _)
    simpa [packets] using this
  exact ⟨hfirst, fun k s' u htail => by rw [hall k s' u htail, hfirst]⟩

end

end Send

/-- **Successful sends are complete exactly when large packets are taken whole.** -/
theorem sends_complete_iff {R Req Resp : Type} [Serde Req] [Serde Resp] (capacity : Nat)
    (reader : R) (v : Taker) (xs : List (Send Req Resp)) :
    Send.Delivered (Channel.new capacity reader v) xs ↔ Send.TakenWhole capacity v xs := by
  constructor
  · intro h
    rw [Channel.new] at h
    generalize (BufReader.mk reader [] capacity) = rd at h
    induction xs generalizing v with
    | nil => exact trivial
    | cons x xs ih =>
      intro bytes hx v' hs
      obtain ⟨hfirst, htail⟩ := h.tail hx hs
      exact ⟨(Send.taken_of_sends (Send.packet_ne_nil hx) hs).mp hfirst, ih v' htail⟩
  · intro h k s' u hr
    exact ((Send.runAll_safely (h.take k)) _ _ hr).2 _ rfl

end

/-- A writer that takes one byte of every write. -/
def byteByByte : Taker where
  contract := ⟨fun _ _ => .ok 1, fun _ bs n hne h => by
    cases h
    exact ⟨Nat.le_refl 1, List.length_pos_iff.mpr hne⟩, fun _ => .ok ()⟩
  calls := 0
  taken := []

section

attribute [local instance] Allocator.ample

/-- The eight bytes of `"status"` in JSON. -/
def statusJson : Vec := ⟨[0x22, 0x73, 0x74, 0x61, 0x74, 0x75, 0x73, 0x22], by decide⟩

/-- A request of eleven bytes, sent through a buffer of eight, is lost but for one byte. -/
theorem large_request_cut :
    ¬ Send.Delivered (Channel.new 8 Source.mk byteByByte)
      [(Send.jsonRequest statusJson : Send Vec Vec)] := by
  intro h
  have hs : Sends 8 byteByByte (RequestPacket.new statusJson).serialize
      (byteByByte.offer (RequestPacket.new statusJson).serialize).2.flushed.2 := by
    refine ⟨(byteByByte.offer (RequestPacket.new statusJson).serialize).2, ?_, rfl⟩
    rw [if_neg (by decide +kernel)]
    exact ⟨1, rfl⟩
  have htaken := (h.tail rfl hs).1
  exact absurd htaken (by decide +kernel)

end

end CkbScriptIpc
