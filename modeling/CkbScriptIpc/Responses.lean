import CkbScriptIpc.Execute
import CkbScriptIpc.Frames

/-!
# Responses and requests

Which response packets a run of `execute` delivers, in an environment in which every call on the
reader and the writer may fail (`traffic`). Each turn that succeeds takes one request and delivers
one packet; a turn that fails delivers at most its response and the packet of its error, with
which `execute` ends (`responses_within_requests`).

The proof follows the bytes: what was received is the frames consumed and what is buffered
(`BufReader.trail`), what was sent and what is buffered is whole packets (`Pending`).
-/

namespace CkbScriptIpc

open Interaction

/-- The bytes that came from the client and those that the writer took. -/
structure Traffic where
  received : Bytes
  output : Bytes
  deriving DecidableEq, Repr

variable {Req Resp : Type}

/-- Reads, writes and flushes succeed or fail in any pattern. A write takes some of
the bytes offered, and all of them where `whole` says so. -/
def traffic (whole : Bytes → Prop) : Env (IoRes Req (Except IpcError Resp)) Traffic where
  pre _ _ := True
  step
    | w, .read n, r, w' =>
      (∃ c, r = .ok c ∧ c.length ≤ n ∧ w' = { w with received := w.received ++ c }) ∨
        ∃ e, r = .error e ∧ w' = w
    | w, .write bs, r, w' =>
      (∃ n, r = .ok n ∧ n ≤ bs.length ∧ (whole bs → n = bs.length) ∧
          w' = { w with output := w.output ++ bs.take n }) ∨
        ∃ e, r = .error e ∧ w' = w
    | w, .flush, _, w' => w' = w
    | w, .ext _, _, w' => w' = w

/-! ## Reading -/

/-- The bytes `base` were received, then `c`, and `out` was sent. -/
def Source.received (base out : Bytes) (_ : Source) (w : Traffic) (c : Bytes) : Prop :=
  w.received = base ++ c ∧ w.output = out

theorem Source.tracks_traffic {whole : Bytes → Prop} {I : Traffic → Prop} {base out : Bytes}
    (hI : ∀ c, I ⟨base ++ c, out⟩) :
    Tracks (traffic whole : Env (IoRes Req (Except IpcError Resp)) Traffic) I
      (Source.received base out) where
  inv := by
    rintro _ ⟨_, _⟩ c ⟨rfl, rfl⟩
    exact hI c
  read := by
    rintro _ ⟨_, _⟩ c n ⟨rfl, rfl⟩
    refine safely_call (hI c) fun r w' hs => ?_
    rcases hs with ⟨b, rfl, hlen, rfl⟩ | ⟨e, rfl, rfl⟩
    · refine safely_ret ?_ ⟨hlen, by rw [List.append_assoc], rfl⟩
      simpa using hI (c ++ b)
    · exact safely_ret (hI c) ⟨rfl, rfl⟩

/-! ## Writing -/

/-- What was sent and what is buffered is `target`. -/
structure Pending (capacity : Nat) (base target : Bytes) (s : BufWriter Sink) (w : Traffic) :
    Prop where
  target_eq : w.output ++ s.buf = target
  received_eq : w.received = base
  capacity_eq : s.capacity = capacity

namespace Pending

variable {whole : Bytes → Prop} {I : Traffic → Prop} {capacity : Nat} {base target : Bytes}
  {s : BufWriter Sink} {w : Traffic}

theorem inv (hI : ∀ out, out <+: target → I ⟨base, out⟩) (h : Pending capacity base target s w) :
    I w := by
  have hw := hI w.output (h.target_eq ▸ List.prefix_append _ _)
  rwa [← h.received_eq] at hw

/-- `flush_buf` sends from the buffer, and keeps there what it could not send. -/
theorem flushBuf (hI : ∀ out, out <+: target → I ⟨base, out⟩)
    (h : Pending capacity base target s w) :
    Safely (traffic whole : Env (IoRes Req (Except IpcError Resp)) Traffic) I
      (settles (fun _ s' w' => Pending capacity base target s' w' ∧ s'.buf = [])
        fun _ s' w' => Pending capacity base target s' w') (BufWriter.flushBuf s) w := by
  refine safely_iter_settles (fun _ s w => Pending capacity base target s w) ?_ h
  intro _ s w h
  by_cases hb : s.buf = []
  · simp only [BufWriter.flushBufTurn, get_seq, hb, ↓reduceIte]
    exact safely_ret (h.inv hI) ⟨h, hb⟩
  · simp only [BufWriter.flushBufTurn, get_seq, hb, ↓reduceIte]
    refine safely_call (h.inv hI) fun r w' hs => ?_
    rcases hs with ⟨n, rfl, -, -, rfl⟩ | ⟨e, rfl, rfl⟩
    · have htaken : Pending capacity base target { s with buf := s.buf.drop n }
          { w with output := w.output ++ s.buf.take n } :=
        ⟨by simp [h.target_eq], h.received_eq, h.capacity_eq⟩
      rcases n with _ | n
      · apply safely_ret (htaken.inv hI)
        simpa [settles] using h
      · exact safely_ret (htaken.inv hI) htaken
    · cases e <;> exact safely_ret (h.inv hI) h

/-- Write a packet: it goes to the buffer, or to the writer, which takes it whole. -/
theorem write {bs : Bytes} (hne : bs ≠ []) (hwhole : capacity ≤ bs.length → whole bs)
    (hI : ∀ out, out <+: target ++ bs → I ⟨base, out⟩) (h : Pending capacity base target s w) :
    Safely (traffic whole : Env (IoRes Req (Except IpcError Resp)) Traffic) I
      (settles (fun _ s' w' => Pending capacity base (target ++ bs) s' w')
        fun _ s' w' => Pending capacity base target s' w') (Write.write bs s) w := by
  have hI' : ∀ out, out <+: target → I ⟨base, out⟩ :=
    fun out hout => hI out (hout.trans (List.prefix_append _ _))
  have hbuffered : ∀ {s : BufWriter Sink} {w : Traffic}, Pending capacity base target s w →
      Pending capacity base (target ++ bs) { s with buf := s.buf ++ bs } w :=
    fun h => ⟨by rw [← List.append_assoc, h.target_eq], h.received_eq, h.capacity_eq⟩
  have hpass : ∀ {s : BufWriter Sink} {w : Traffic}, Pending capacity base target s w →
      (s.capacity ≤ bs.length → s.buf = []) →
      Safely (traffic whole : Env (IoRes Req (Except IpcError Resp)) Traffic) I
        (settles (fun _ s' w' => Pending capacity base (target ++ bs) s' w')
          fun _ s' w' => Pending capacity base target s' w') (BufWriter.passOrBuffer bs s) w := by
    intro s w h hempty
    by_cases hcap : s.capacity ≤ bs.length
    · rw [BufWriter.passOrBuffer_large hcap]
      refine safely_call (h.inv hI') fun r w' hs => ?_
      rcases hs with ⟨n, rfl, -, hn, rfl⟩ | ⟨e, rfl, rfl⟩
      · obtain rfl := hn (hwhole (h.capacity_eq ▸ hcap))
        have hsent : Pending capacity base (target ++ bs) s
            { w with output := w.output ++ bs.take bs.length } := by
          refine ⟨?_, h.received_eq, h.capacity_eq⟩
          rw [hempty hcap, List.take_length, List.append_nil, ← h.target_eq, hempty hcap,
            List.append_nil]
        exact safely_ret (hsent.inv hI) hsent
      · exact safely_ret (h.inv hI') h
    · rw [BufWriter.passOrBuffer_small (Nat.lt_of_not_le hcap)]
      exact safely_ret ((hbuffered h).inv hI) (hbuffered h)
  rcases Nat.lt_trichotomy bs.length s.spareCapacity with hlt | heq | hgt
  · rw [BufWriter.write_buffered hlt]
    exact safely_ret ((hbuffered h).inv hI) (hbuffered h)
  · rw [BufWriter.write_exact heq]
    refine hpass h fun hcap => List.eq_nil_of_length_eq_zero ?_
    have := List.length_pos_iff.mpr hne
    rw [BufWriter.spareCapacity] at heq
    omega
  · rw [BufWriter.write_crowded hgt]
    refine safely_seq_settles (h.flushBuf hI') ?_ fun _ _ _ hf => hf
    rintro _ s' w' ⟨h', hb⟩
    exact hpass h' fun _ => hb

theorem flush (hI : ∀ out, out <+: target → I ⟨base, out⟩)
    (h : Pending capacity base target s w) :
    Safely (traffic whole : Env (IoRes Req (Except IpcError Resp)) Traffic) I
      (settles (fun _ s' w' => Pending capacity base target s' w' ∧ s'.buf = [])
        fun _ s' w' => Pending capacity base target s' w') (Write.flush s) w := by
  refine safely_seq_settles (h.flushBuf hI) ?_ fun _ _ _ hf => hf
  rintro _ s' w' ⟨h', hb⟩
  refine safely_call (h'.inv hI) fun r w'' hs => ?_
  obtain rfl : w'' = w' := hs
  rcases r with e | u
  · exact safely_ret (h'.inv hI) h'
  · exact safely_ret (h'.inv hI) ⟨h', hb⟩

/-- Send a packet: all of it, or it stays in the buffer, or it never got there. -/
theorem sendBytes {ch : Channel Source Sink} {bs : Bytes} (hne : bs ≠ [])
    (hwhole : capacity ≤ bs.length → whole bs)
    (hI : ∀ out, out <+: target ++ bs → I ⟨base, out⟩)
    (h : Pending capacity base target ch.writer w) :
    Safely (traffic whole : Env (IoRes Req (Except IpcError Resp)) Traffic) I
      (settles
        (fun _ ch' w' => ch'.reader = ch.reader ∧
          Pending capacity base (target ++ bs) ch'.writer w' ∧ ch'.writer.buf = [])
        fun _ ch' w' => Pending capacity base target ch'.writer w' ∨
          Pending capacity base (target ++ bs) ch'.writer w') (Channel.sendBytes bs ch) w := by
  have hI' : ∀ out, out <+: target → I ⟨base, out⟩ :=
    fun out hout => hI out (hout.trans (List.prefix_append _ _))
  refine safely_seq_settles (Channel.onWriter_settles (h.write hne hwhole hI)) ?_ ?_
  · rintro _ _ w' ⟨t, ht, rfl⟩
    refine (Channel.onWriter_settles (ht.flush hI)).settles_mono ?_ ?_
    · rintro _ _ w'' - ⟨t', ht', rfl⟩
      exact ⟨rfl, ht'⟩
    · rintro _ _ w'' - ⟨t', ht', rfl⟩
      exact .inr ht'
  · rintro _ _ w' ⟨t, ht, rfl⟩
    exact .inl ht

end Pending

/-! ## The account of a run -/

/-- The number of requests of which at least one byte has been received. -/
def requestsStarted (received : Bytes) : Nat :=
  (framesIn received).length + if leftover received = [] then 0 else 1

/-- Requests received whole have begun to arrive. -/
theorem le_requestsStarted {cs : List (Bytes × Frame)} (h : ∀ c ∈ cs, IsFrame c.1 c.2) (x : Bytes) :
    cs.length ≤ requestsStarted ((cs.map Prod.fst).flatten ++ x) := by
  rw [requestsStarted, framesIn, splitFrames_flatten h]
  simp only [List.length_append, List.length_map]
  omega

/-- What is received and what is sent only grows. -/
theorem traffic_grows {α : Type} {whole : Bytes → Prop}
    {p q : Prog (IoRes Req (Except IpcError Resp)) α} {w w' : Traffic}
    (h : Reach (traffic whole) p w q w') : w.output <+: w'.output := by
  induction h with
  | refl => exact List.prefix_refl _
  | head hs _ ih =>
    refine List.IsPrefix.trans ?_ ih
    cases hs with
    | loop => exact List.prefix_refl _
    | call hs =>
      rename_i op _ _ _
      cases op with
      | read n => obtain ⟨c, -, -, rfl⟩ | ⟨e, -, rfl⟩ := hs <;> exact List.prefix_refl _
      | write bs =>
        obtain ⟨n, -, -, -, rfl⟩ | ⟨e, -, rfl⟩ := hs
        · exact List.prefix_append _ _
        · exact List.prefix_refl _
      | flush =>
        cases hs
        exact List.prefix_refl _
      | ext req =>
        cases hs
        exact List.prefix_refl _

section

variable [Allocator]

/-- The bytes of some packets. -/
abbrev wire (ps : List ResponsePacket) : Bytes := ps.flatMap ResponsePacket.serialize

/-- The offers that a writer must take whole: packets too large for the buffer. -/
def LargePacket (capacity : Nat) (bs : Bytes) : Prop :=
  capacity ≤ bs.length ∧ ∃ p : ResponsePacket, bs = p.serialize

/-- Any traffic in which a packet too large for the buffer is taken whole or not at all. -/
abbrev tolerant (Req Resp : Type) (capacity : Nat) :
    Env (IoRes Req (Except IpcError Resp)) Traffic := traffic (LargePacket capacity)

/-- The requests `cs` have been taken from the stream, and the packets `ps` are what is out or
waits in the buffer. -/
structure Account (capacity : Nat) (cs : List (Bytes × Frame)) (ps : List ResponsePacket)
    (s : Channel Source Sink) (w : Traffic) : Prop where
  frames : ∀ c ∈ cs, IsFrame c.1 c.2
  received_eq : w.received = (cs.map Prod.fst).flatten ++ s.reader.buf
  pending : Pending capacity w.received (wire ps) s.writer w
  buf_eq : s.writer.buf = []

/-- Between two turns each request taken has its packet. -/
def AtHead (capacity : Nat) (cs : List (Bytes × Frame)) (ps : List ResponsePacket)
    (s : Channel Source Sink) (w : Traffic) : Prop :=
  Account capacity cs ps s w ∧ ps.length = cs.length

/-- In a turn whose request has been taken there is room for one packet more. -/
def Owing (capacity : Nat) (cs : List (Bytes × Frame)) (ps : List ResponsePacket)
    (s : Channel Source Sink) (w : Traffic) : Prop :=
  ∃ c, Account capacity (cs ++ [c]) ps s w ∧ ps.length = cs.length

/-- What is out belongs to the packets `ps` of the turns before and to `own`, that of this turn if
there is one, and all of them have their requests. -/
def Responding (ps own : List ResponsePacket) (w : Traffic) : Prop :=
  w.output <+: wire (ps ++ own) ∧ (ps ++ own).length ≤ requestsStarted w.received

section

variable {capacity : Nat} {cs : List (Bytes × Frame)} {ps : List ResponsePacket}
  {s : Channel Source Sink} {w : Traffic}

theorem Account.output_eq (h : Account capacity cs ps s w) : w.output = wire ps := by
  rw [← h.pending.target_eq, h.buf_eq, List.append_nil]

theorem Account.le_started (h : Account capacity cs ps s w) :
    cs.length ≤ requestsStarted w.received := by
  rw [h.received_eq]
  exact le_requestsStarted h.frames _

theorem AtHead.le_started (h : AtHead capacity cs ps s w) :
    ps.length ≤ requestsStarted w.received := by
  rw [h.2]
  exact h.1.le_started

theorem Owing.lt_started (h : Owing capacity cs ps s w) :
    ps.length < requestsStarted w.received := by
  obtain ⟨c, hacc, hlen⟩ := h
  have hle := hacc.le_started
  rw [List.length_append, List.length_singleton] at hle
  omega

theorem Owing.pending (h : Owing capacity cs ps s w) :
    Pending capacity w.received (wire ps) s.writer w := by
  obtain ⟨c, hacc, -⟩ := h
  exact hacc.pending

/-- Nothing of this turn is out yet. -/
theorem responding_of_output (hout : w.output <+: wire ps)
    (hle : ps.length ≤ requestsStarted w.received) : Responding ps [] w :=
  ⟨by rwa [List.append_nil], by rwa [List.append_nil]⟩

theorem Owing.responding (h : Owing capacity cs ps s w) : Responding ps [] w := by
  have hlt := h.lt_started
  obtain ⟨c, hacc, -⟩ := h
  exact responding_of_output (hacc.output_eq ▸ List.prefix_refl _) (Nat.le_of_lt hlt)

/-- What the packets of a stream are, when more than the packets `ps` is out. -/
theorem framesIn_output {base out : Bytes} {own : List ResponsePacket} (hbase : base = wire ps)
    (hgrows : base <+: out) (hout : out <+: wire (ps ++ own)) :
    (framesIn base).length = ps.length ∧ ∃ extra, framesIn out = framesIn base ++ extra ∧
      extra <+: own.map ResponsePacket.frame := by
  have hall : framesIn base = ps.map ResponsePacket.frame := by
    have hps : ∀ c ∈ ps.map fun p => (p.serialize, p.frame), IsFrame c.1 c.2 := by
      simp only [List.mem_map]
      rintro _ ⟨p, -, rfl⟩
      exact isFrame_wirePacket _ _ _
    have hsplit := congrArg Prod.fst (splitFrames_flatten hps [])
    simp only [List.map_map, List.append_nil, framesIn, splitFrames_nil] at hsplit
    rw [framesIn, hbase, wire, List.flatMap]
    exact hsplit
  have hle := framesIn_prefix hout
  obtain ⟨more, rfl⟩ := hgrows
  obtain ⟨extra, hextra⟩ := framesIn_append base more
  rw [← hextra, List.map_append, hall] at hle
  exact ⟨by rw [hall, List.length_map], extra, hextra.symm,
    (List.prefix_append_right_inj _).mp hle⟩

end

section

variable [Serde Req] [Serde Resp] {capacity : Nat} {cs : List (Bytes × Frame)}
  {ps : List ResponsePacket} {s : Channel Source Sink} {w : Traffic}

omit [Serde Resp] in
/-- Receiving takes one more frame from the stream, or leaves the packets as they are. -/
theorem receiveRequest_account (h : AtHead capacity cs ps s w) :
    Safely (tolerant Req Resp capacity) (Responding ps [])
      (settles (fun (_ : Req) s' w' => Owing capacity cs ps s' w') fun _ s' w' =>
        Pending capacity w'.received (wire ps) s'.writer w' ∧
          ps.length ≤ requestsStarted w'.received)
      (Channel.receiveRequest s) w := by
  obtain ⟨hacc, hlen⟩ := h
  have hstarted : ∀ c, ps.length ≤ requestsStarted ((cs.map Prod.fst).flatten ++ c) := by
    intro c
    rw [hlen]
    exact le_requestsStarted hacc.frames c
  have hsource : Tracks (tolerant Req Resp capacity) (Responding ps [])
      (Source.received (cs.map Prod.fst).flatten w.output) :=
    Source.tracks_traffic fun c =>
      responding_of_output (hacc.output_eq ▸ List.prefix_refl _) (hstarted c)
  have hst : BufReader.trail (Source.received (cs.map Prod.fst).flatten w.output) s.reader w [] :=
    ⟨by rw [List.nil_append]; exact hacc.received_eq, rfl⟩
  have hread := readFrom_tracks RequestPacket.mk (BufReader.tracks hsource) hst
  -- what is pending does not depend on the stream from the client
  have hpend : ∀ (w' : Traffic), w'.output = w.output →
      Pending capacity w'.received (wire ps) s.writer w' :=
    fun w' ho => ⟨by rw [ho]; exact hacc.pending.target_eq, rfl, hacc.pending.capacity_eq⟩
  refine safely_seq_settles (P := fun _ s' w' => Owing capacity cs ps s' w')
    ((Channel.onReader_settles hread).settles_mono ?_ fun _ _ _ _ hf => hf) ?_ ?_
  · rintro _ _ w' - ⟨r, ⟨b, f, payload, hframe, -, -, hrecv, ho⟩, rfl⟩
    refine ⟨(b, f), ⟨?_, ?_, hpend w' ho, hacc.buf_eq⟩, hlen⟩
    · simp only [List.mem_append, List.mem_singleton]
      rintro c (hc | rfl)
      · exact hacc.frames c hc
      · exact hframe
    · simpa using hrecv
  · rintro packet s' w' h'
    cases Serde.fromSlice (T := Req) packet.payload.bytes
    · exact safely_ret h'.responding ⟨h'.pending, Nat.le_of_lt h'.lt_started⟩
    · exact safely_ret h'.responding h'
  · rintro _ _ w' ⟨r, ⟨b, hrecv, ho⟩, rfl⟩
    refine ⟨hpend w' ho, ?_⟩
    rw [hrecv]
    exact hstarted _

omit [Serde Req] [Serde Resp] in
/-- Serving delivers nothing. -/
theorem serve_account (h : Owing capacity cs ps s w) (req : Req) :
    Safely (tolerant Req Resp capacity) (Responding ps [])
      (settles (fun _ s' w' => Owing capacity cs ps s' w')
        fun _ s' w' => Owing capacity cs ps s' w')
      ((Method.lift (served req) >>= Method.ofExcept :
        Method _ IpcError (Channel Source Sink) Resp) s) w := by
  refine safely_call h.responding fun r w' hs => ?_
  obtain rfl : w' = w := hs
  cases r <;> exact safely_ret h.responding h

omit [Serde Req] [Serde Resp] in
/-- A packet of the size of its turn's response is sent, or stays in the buffer, or never gets
there. -/
theorem sendBytes_account (h : Owing capacity cs ps s w) (p : ResponsePacket) :
    Safely (tolerant Req Resp capacity) (Responding ps [p])
      (settles
        (fun _ s' w' => ∃ c, AtHead capacity (cs ++ [c]) (ps ++ [p]) s' w')
        fun _ s' w' => w'.received = w.received ∧
          (Pending capacity w'.received (wire ps) s'.writer w' ∨
            Pending capacity w'.received (wire (ps ++ [p])) s'.writer w'))
      (Channel.sendBytes p.serialize s) w := by
  have hlt := h.lt_started
  obtain ⟨c, hacc, hlen⟩ := h
  have hwire : wire ps ++ p.serialize = wire (ps ++ [p]) := by simp [wire]
  have hresponding : ∀ out, out <+: wire ps ++ p.serialize →
      Responding ps [p] ⟨w.received, out⟩ := by
    intro out hout
    refine ⟨hwire ▸ hout, ?_⟩
    rw [List.length_append]
    exact hlt
  refine (hacc.pending.sendBytes p.serialize_ne_nil (fun hcap => ⟨hcap, _, rfl⟩)
    hresponding).settles_mono ?_ ?_
  · rintro _ s' w' - ⟨hr, hpend, hb⟩
    refine ⟨c, ⟨hacc.frames, ?_, ?_, hb⟩, by simp [hlen]⟩
    · rw [hpend.received_eq, hr, hacc.received_eq]
    · rw [← hwire]
      exact hpend.received_eq ▸ hpend
  · rintro _ s' w' - (hpend | hpend)
    · exact ⟨hpend.received_eq, .inl (hpend.received_eq ▸ hpend)⟩
    · exact ⟨hpend.received_eq, .inr (hwire ▸ hpend.received_eq ▸ hpend)⟩

omit [Serde Resp] in
/-- Until the response is sent nothing of it is out. -/
theorem receiveAndServe_account (h : AtHead capacity cs ps s w) :
    Safely (tolerant Req Resp capacity) (Responding ps [])
      (settles (fun (_ : Resp) s' w' => Owing capacity cs ps s' w') fun _ _ _ => True)
      (Channel.receiveAndServe served s) w := by
  refine safely_seq_settles (receiveRequest_account h) (fun req s' w' h' => ?_)
    fun _ _ _ _ => trivial
  exact (serve_account h' req).settles_mono (fun _ _ _ _ hp => hp) fun _ _ _ _ _ => trivial

/-- A turn that succeeds takes one request and delivers one packet. -/
theorem handle_account (h : AtHead capacity cs ps s w) :
    Safely (tolerant Req Resp capacity) (fun _ => True)
      (whenOk fun _ s' w' => ∃ c p, AtHead capacity (cs ++ [c]) (ps ++ [p]) s' w')
      (Channel.handle served s) w := by
  refine safely_seq_settles ((receiveAndServe_account h).mono (fun _ _ => trivial)
    fun _ _ _ ho => ho) (G := fun _ _ _ => True) ?_ fun _ _ _ _ => trivial
  intro resp s' w' h'
  rw [Channel.sendResponse]
  cases Serde.toVec resp with
  | none => exact safely_ret trivial trivial
  | some v =>
    refine ((sendBytes_account h' (ResponsePacket.new 0 v)).mono (fun _ _ => trivial)
      fun _ _ _ ho => ho).settles_mono ?_ fun _ _ _ _ _ => trivial
    rintro _ s'' w'' - ⟨c, hhead⟩
    exact ⟨c, _, hhead⟩

/-- At the head of every turn. -/
theorem turnsTo_account {s₀ : Channel Source Sink} {w₀ : Traffic} (h : AtHead capacity cs ps s w)
    (hturns : Channel.TurnsTo (tolerant Req Resp capacity) s w s₀ w₀) :
    ∃ cs₀ ps₀, AtHead capacity cs₀ ps₀ s₀ w₀ := by
  refine turns_induction (J := fun _ s w => ∃ cs ps, AtHead capacity cs ps s w) ⟨cs, ps, h⟩ ?_
    hturns
  rintro _ s₁ w₁ _ s₂ w₂ ⟨cs₁, ps₁, h₁⟩ hends
  have hturn : Safely (tolerant Req Resp capacity) (fun _ => True)
      (whenOk fun _ s' w' => ∃ cs ps, AtHead capacity cs ps s' w')
      (Channel.executeTurn served () s₁) w₁ := by
    refine safely_seq_settles (safely_attempt_settles
      (handle_account h₁)) ?_ fun _ _ _ _ => trivial
    rintro _ s' w' (⟨_, rfl, c, p, hhead⟩ | ⟨e, rfl, -⟩)
    · exact safely_ret trivial ⟨_, _, hhead⟩
    · exact (Channel.notify_never_ok e s' w').whenOk_mono fun _ _ _ hf => hf.elim
  exact (hturn _ _ hends).2 _ rfl

/-- Behind a turn that failed at most the packet of its error goes out. -/
theorem afterError_account {base target : Bytes} (h : Pending capacity base target s.writer w)
    (e : IpcError) :
    Safely (tolerant Req Resp capacity)
      (fun w' => w'.received = base ∧
        w'.output <+: target ++ (Channel.errorPacket e).serialize)
      (fun _ _ => True) (Channel.afterError Req Resp e s) w := by
  have hsend : Safely (tolerant Req Resp capacity) _
      (settles (fun _ _ w' => w'.received = base ∧
          w'.output <+: target ++ (Channel.errorPacket e).serialize)
        fun _ _ w' => w'.received = base ∧
          w'.output <+: target ++ (Channel.errorPacket e).serialize)
      (Channel.sendBytes (Channel.errorPacket e).serialize s) w :=
    (h.sendBytes (Channel.errorPacket e).serialize_ne_nil (fun hcap => ⟨hcap, _, rfl⟩)
      fun out hout => ⟨rfl, hout⟩).settles_mono (fun _ _ _ hi _ => hi) fun _ _ _ hi _ => hi
  have hnotify : Safely (tolerant Req Resp capacity)
      (fun w' => w'.received = base ∧
        w'.output <+: target ++ (Channel.errorPacket e).serialize)
      (settles (fun (_ : Unit ⊕ Unit) _ _ => False) fun _ _ _ => True) (Channel.notify e s) w := by
    refine safely_seq_settles (safely_attempt_settles hsend) ?_ fun _ _ _ _ => trivial
    rintro _ s' w' (⟨_, rfl, hi⟩ | ⟨_, rfl, hi⟩)
    · exact safely_ret hi trivial
    · exact safely_panic hi trivial
  refine safely_rest (hnotify.mono (fun _ hi => hi) ?_)
  rintro (⟨e' | _, s₂⟩ | _) w' - ho
  · exact ⟨_, rfl, trivial⟩
  · exact ho.elim
  · exact ⟨_, rfl, trivial⟩

end

/-! ## Counting packets -/

section

variable [Serde Req] [Serde Resp] {capacity : Nat} {s₀ s₁ : Channel Source Sink}
  {w₀ w₁ w : Traffic} {e : IpcError}
  {q : Prog (IoRes Req (Except IpcError Resp)) (Except IpcError Unit × Channel Source Sink)}

omit [Allocator] in
/-- Every request that the turns so far have taken from the stream has had its one packet. -/
def Settled (s₀ : Channel Source Sink) (w₀ : Traffic) : Prop :=
  ∃ cs : List (Bytes × Frame), (∀ c ∈ cs, IsFrame c.1 c.2) ∧
    w₀.received = (cs.map Prod.fst).flatten ++ s₀.reader.buf ∧
    (framesIn w₀.output).length = cs.length

/-- In the turn from `s₀` the service has given a response, of which this is the packet, and the
turn goes on to `w` by sending it. -/
def ResponseOf (Req Resp : Type) [Serde Req] [Serde Resp] (capacity : Nat)
    (s₀ : Channel Source Sink) (w₀ w : Traffic) (packet : ResponsePacket) : Prop :=
  ∃ (resp : Resp) (v : Vec) (s' : Channel Source Sink) (w' : Traffic),
    Ends (tolerant Req Resp capacity) (Channel.receiveAndServe served s₀) w₀
      (.ret (.ok resp, s')) w' ∧
    Serde.toVec resp = some v ∧ packet = ResponsePacket.new 0 v ∧
    ∃ p, Reach (tolerant Req Resp capacity) (Channel.sendBytes packet.serialize s') w' p w

/-- At `w` the turn from `s₀`, which got as far as `w₁`, has delivered nothing but its response, if
that, and there are as many requests as packets. -/
structure OnlyResponse (Req Resp : Type) [Serde Req] [Serde Resp] (capacity : Nat)
    (s₀ : Channel Source Sink) (w₀ w₁ w : Traffic) : Prop where
  delivered : framesIn w.output = framesIn w₀.output ∨
    ∃ packet, ResponseOf Req Resp capacity s₀ w₀ w₁ packet ∧
      framesIn w.output = framesIn w₀.output ++ [packet.frame]
  within : (framesIn w.output).length ≤ requestsStarted w.received

/-- The turn from `s₀` has failed with `e` at `w₁`, and the client is told. -/
inductive Telling (Req Resp : Type) [Serde Req] [Serde Resp] (capacity : Nat)
    (s₀ : Channel Source Sink) (w₀ : Traffic) (e : IpcError) (s₁ : Channel Source Sink)
    (w₁ w : Traffic) : Prop
  /-- The packet of the error is not out yet. -/
  | before : OnlyResponse Req Resp capacity s₀ w₀ w₁ w → Telling Req Resp capacity s₀ w₀ e s₁ w₁ w
  /-- It is the one packet for the request at hand. -/
  | only : framesIn w.output = framesIn w₀.output ++ [(Channel.errorPacket e).frame] →
      (framesIn w.output).length ≤ requestsStarted w.received →
      Telling Req Resp capacity s₀ w₀ e s₁ w₁ w
  /-- No request could be received, and nothing of one has come. -/
  | unread : Ends (tolerant Req Resp capacity)
        (Channel.receiveRequest s₀ : Prog _ (Except IpcError Req × Channel Source Sink)) w₀
        (.ret (.error e, s₁)) w₁ →
      framesIn w.output = framesIn w₀.output ++ [(Channel.errorPacket e).frame] →
      (framesIn w₀.output).length = requestsStarted w.received →
      Telling Req Resp capacity s₀ w₀ e s₁ w₁ w
  /-- The response could not be written or flushed, and is out as well. -/
  | unsent {resp : Resp} {v : Vec} {s' : Channel Source Sink} {w' : Traffic} :
      Ends (tolerant Req Resp capacity) (Channel.receiveAndServe served s₀) w₀
        (.ret (.ok resp, s')) w' →
      Serde.toVec resp = some v →
      Ends (tolerant Req Resp capacity)
        (Channel.sendBytes (ResponsePacket.new 0 v).serialize s') w' (.ret (.error e, s₁)) w₁ →
      framesIn w.output = framesIn w₀.output ++
        [(ResponsePacket.new 0 v).frame, (Channel.errorPacket e).frame] →
      (framesIn w₀.output).length < requestsStarted w.received →
      Telling Req Resp capacity s₀ w₀ e s₁ w₁ w

/-- What has been delivered in the turn from `s₀`, in which the run has got to `q` and `w`. -/
inductive TurnSoFar (capacity : Nat) (s₀ : Channel Source Sink) (w₀ : Traffic)
    (q : Prog (IoRes Req (Except IpcError Resp)) (Except IpcError Unit × Channel Source Sink))
    (w : Traffic) : Prop
  /-- The turn has not failed. -/
  | running {p : Prog (IoRes Req (Except IpcError Resp))
        (Except IpcError Unit × Channel Source Sink)} :
      Reach (tolerant Req Resp capacity) (Channel.handle served s₀) w₀ p w →
      OnlyResponse Req Resp capacity s₀ w₀ w w → TurnSoFar capacity s₀ w₀ q w
  /-- The turn has failed with an error, which is all that `execute` can return. -/
  | failed {e : IpcError} {s₁ : Channel Source Sink} {w₁ : Traffic} :
      Ends (tolerant Req Resp capacity) (Channel.handle served s₀) w₀ (.ret (.error e, s₁)) w₁ →
      Reach (tolerant Req Resp capacity) (Channel.afterError Req Resp e s₁) w₁ q w →
      (∀ o w', Ends (tolerant Req Resp capacity) q w o w' →
        o = .panic ∨ ∃ s₂, o = .ret (.error e, s₂)) →
      Telling Req Resp capacity s₀ w₀ e s₁ w₁ w → TurnSoFar capacity s₀ w₀ q w

/-- Each request has at most one packet, but for the error packet that ends the run. -/
def AtMostOneMore (capacity : Nat)
    (q : Prog (IoRes Req (Except IpcError Resp)) (Except IpcError Unit × Channel Source Sink))
    (w : Traffic) : Prop :=
  ∃ s₀ w₀, Channel.TurnsTo (tolerant Req Resp capacity) (Channel.new capacity ⟨⟩ ⟨⟩) ⟨[], []⟩
      s₀ w₀ ∧ Settled s₀ w₀ ∧ TurnSoFar capacity s₀ w₀ q w

variable {cs : List (Bytes × Frame)} {ps : List ResponsePacket}

omit [Serde Req] [Serde Resp] in
theorem AtHead.settled (h : AtHead capacity cs ps s₀ w₀) : Settled s₀ w₀ := by
  obtain ⟨hacc, hlen⟩ := h
  have hwire : w₀.output <+: wire (ps ++ []) := by simp [hacc.output_eq]
  have hframes := (framesIn_output hacc.output_eq (List.prefix_refl _) hwire).1
  exact ⟨cs, hacc.frames, hacc.received_eq, hframes.trans hlen⟩

/-- What is out of the packets `own` of a turn. -/
theorem onlyResponse_of_delivered {own : List ResponsePacket} {extra : List Frame}
    (hown : own.length ≤ 1) (hresp : ∀ p ∈ own, ResponseOf Req Resp capacity s₀ w₀ w₁ p)
    (hextra : extra <+: own.map ResponsePacket.frame)
    (hout : framesIn w.output = framesIn w₀.output ++ extra)
    (hle : (framesIn w.output).length ≤ requestsStarted w.received) :
    OnlyResponse Req Resp capacity s₀ w₀ w₁ w := by
  refine ⟨?_, hle⟩
  rcases extra with _ | ⟨f, fs⟩
  · exact .inl (by rw [hout, List.append_nil])
  · obtain ⟨p, rfl⟩ : ∃ p, own = [p] := by
      have hlen := hextra.length_le
      rw [List.length_cons, List.length_map] at hlen
      exact List.length_eq_one_iff.mp (by omega)
    obtain ⟨rfl, hnil⟩ := List.cons_prefix_cons.mp hextra
    obtain rfl := List.prefix_nil.mp hnil
    exact .inr ⟨p, hresp p List.mem_cons_self, hout⟩

theorem onlyResponse_of_responding (own : List ResponsePacket) (h : AtHead capacity cs ps s₀ w₀)
    (hgrows : w₀.output <+: w.output) (hown : own.length ≤ 1)
    (hresp : ∀ p ∈ own, ResponseOf Req Resp capacity s₀ w₀ w₁ p) (hw : Responding ps own w) :
    OnlyResponse Req Resp capacity s₀ w₀ w₁ w := by
  obtain ⟨hout, hle⟩ := hw
  obtain ⟨hlen, extra, hextra, hprefix⟩ := framesIn_output h.1.output_eq hgrows hout
  have hmore := hprefix.length_le
  rw [List.length_map] at hmore
  refine onlyResponse_of_delivered hown hresp hprefix hextra ?_
  rw [hextra, List.length_append, hlen]
  rw [List.length_append] at hle
  omega

/-- A turn that has not failed has delivered at most its response. -/
theorem handle_onlyResponse {p : Prog (IoRes Req (Except IpcError Resp))
      (Except IpcError Unit × Channel Source Sink)} (h : AtHead capacity cs ps s₀ w₀)
    (hp : Reach (tolerant Req Resp capacity) (Channel.handle served s₀) w₀ p w) :
    OnlyResponse Req Resp capacity s₀ w₀ w w := by
  have hnothing : ∀ {v}, w₀.output <+: v.output → Responding ps [] v →
      OnlyResponse Req Resp capacity s₀ w₀ v v := by
    intro v hgrows hv
    exact onlyResponse_of_responding [] h hgrows (Nat.zero_le 1)
      (fun _ hp => absurd hp List.not_mem_nil) hv
  have hgrows := traffic_grows hp
  rcases reach_bind_inv hp with ⟨p', hp', -⟩ | ⟨⟨r, s'⟩, w', hserve, hsend⟩
  · exact hnothing hgrows ((receiveAndServe_account h) _ _ hp').1
  have haccount := (receiveAndServe_account h) _ _ hserve
  rcases r with e | resp
  · cases hsend with
    | refl => exact hnothing hgrows haccount.1
    | head hs _ => cases hs
  have howing : Owing capacity cs ps s' w' := haccount.2 (.ret (.ok resp, s')) rfl
  change Reach _ (Channel.sendResponse resp s') w' p w at hsend
  rw [Channel.sendResponse] at hsend
  cases hvec : Serde.toVec resp with
  | none =>
    rw [hvec] at hsend
    cases hsend with
    | refl => exact hnothing hgrows haccount.1
    | head hs _ => cases hs
  | some v =>
    rw [hvec] at hsend
    refine onlyResponse_of_responding [_] h hgrows (Nat.le_refl 1) ?_
      ((sendBytes_account howing (ResponsePacket.new 0 v)) _ _ hsend).1
    intro packet hpacket
    obtain rfl := List.mem_singleton.mp hpacket
    exact ⟨resp, v, s', w', hserve, hvec, rfl, p, hsend⟩

/-- While the client is told, the packet of the error is out behind the packets `own` of the turn,
or not yet. -/
theorem telling_of_pending (own : List ResponsePacket) (h : AtHead capacity cs ps s₀ w₀)
    (hgrows : w₀.output <+: w.output) (hown : own.length ≤ 1)
    (hresp : ∀ p ∈ own, ResponseOf Req Resp capacity s₀ w₀ w₁ p)
    (hpend : Pending capacity w₁.received (wire (ps ++ own)) s₁.writer w₁)
    (hle : (ps ++ own).length ≤ requestsStarted w₁.received)
    (htell : Reach (tolerant Req Resp capacity) (Channel.afterError Req Resp e s₁) w₁ q w)
    (hout : w.received = w₁.received → (framesIn w₀.output).length = ps.length →
      framesIn w.output =
        framesIn w₀.output ++ (own.map ResponsePacket.frame ++ [(Channel.errorPacket e).frame]) →
      Telling Req Resp capacity s₀ w₀ e s₁ w₁ w) : Telling Req Resp capacity s₀ w₀ e s₁ w₁ w := by
  obtain ⟨hreceived, houtput⟩ := ((afterError_account hpend e) _ _ htell).1
  have hwire : wire (ps ++ own) ++ (Channel.errorPacket e).serialize =
      wire (ps ++ (own ++ [Channel.errorPacket e])) := by simp [wire]
  obtain ⟨hlen, extra, hextra, hprefix⟩ :=
    framesIn_output h.1.output_eq hgrows (hwire ▸ houtput)
  rw [List.map_append, List.map_singleton] at hprefix
  rcases List.prefix_concat_iff.mp hprefix with rfl | hshort
  · exact hout hreceived hlen hextra
  · have hmore := hshort.length_le
    rw [List.length_map] at hmore
    refine .before (onlyResponse_of_delivered hown hresp hshort hextra ?_)
    rw [hextra, List.length_append, hlen, hreceived]
    rw [List.length_append] at hle
    omega

/-- A turn that failed before its response was ready. -/
theorem telling_of_unanswered (h : AtHead capacity cs ps s₀ w₀)
    (hgrows : w₀.output <+: w.output)
    (hpend : Pending capacity w₁.received (wire ps) s₁.writer w₁)
    (hlt : ps.length < requestsStarted w₁.received)
    (htell : Reach (tolerant Req Resp capacity) (Channel.afterError Req Resp e s₁) w₁ q w) :
    Telling Req Resp capacity s₀ w₀ e s₁ w₁ w := by
  refine telling_of_pending [] h hgrows (Nat.zero_le 1) (fun _ hp => absurd hp List.not_mem_nil)
    (by rwa [List.append_nil]) (by rw [List.append_nil]; exact Nat.le_of_lt hlt) htell
    fun hreceived hlen hout => .only hout ?_
  rw [hout, hreceived, List.length_append, hlen]
  exact hlt

/-- A turn that failed to send its response. -/
theorem telling_of_unsent {resp : Resp} {v : Vec} {s' : Channel Source Sink} {w' : Traffic}
    (h : AtHead capacity cs ps s₀ w₀) (hgrows : w₀.output <+: w.output)
    (hserve : Ends (tolerant Req Resp capacity) (Channel.receiveAndServe served s₀) w₀
      (.ret (.ok resp, s')) w') (hvec : Serde.toVec resp = some v)
    (hsend : Ends (tolerant Req Resp capacity)
      (Channel.sendBytes (ResponsePacket.new 0 v).serialize s') w' (.ret (.error e, s₁)) w₁)
    (htell : Reach (tolerant Req Resp capacity) (Channel.afterError Req Resp e s₁) w₁ q w) :
    Telling Req Resp capacity s₀ w₀ e s₁ w₁ w := by
  have howing : Owing capacity cs ps s' w' := ((receiveAndServe_account h) _ _ hserve).2 _ rfl
  obtain ⟨hrecv, hpend⟩ := ((sendBytes_account howing (ResponsePacket.new 0 v)) _ _ hsend).2 _ rfl
  have hlt := howing.lt_started
  rw [← hrecv] at hlt
  rcases hpend with hpend | hpend
  · exact telling_of_unanswered h hgrows hpend hlt htell
  · refine telling_of_pending [_] h hgrows (Nat.le_refl 1) (fun packet hpacket => ?_) hpend
      (by rw [List.length_append]; exact hlt) htell fun hreceived hlen hout =>
        .unsent hserve hvec hsend hout ?_
    · obtain rfl := List.mem_singleton.mp hpacket
      exact ⟨resp, v, s', w', hserve, hvec, rfl, _, hsend⟩
    · rw [hlen, hreceived]
      exact hlt

/-- A turn that failed to receive a request. -/
theorem telling_of_unread (h : AtHead capacity cs ps s₀ w₀) (hgrows : w₀.output <+: w.output)
    (hreceive : Ends (tolerant Req Resp capacity)
      (Channel.receiveRequest s₀ : Prog _ (Except IpcError Req × Channel Source Sink)) w₀
      (.ret (.error e, s₁)) w₁)
    (htell : Reach (tolerant Req Resp capacity) (Channel.afterError Req Resp e s₁) w₁ q w) :
    Telling Req Resp capacity s₀ w₀ e s₁ w₁ w := by
  obtain ⟨hpend, hle⟩ := ((receiveRequest_account h) _ _ hreceive).2 _ rfl
  rcases Nat.lt_or_eq_of_le hle with hlt | heq
  · exact telling_of_unanswered h hgrows hpend hlt htell
  · -- not a byte of a request has come
    refine telling_of_pending [] h hgrows (Nat.zero_le 1)
      (fun _ hp => absurd hp List.not_mem_nil) (by rwa [List.append_nil])
      (by rwa [List.append_nil]) htell fun hrecv hlen hout => .unread hreceive hout ?_
    rw [hlen, hrecv]
    exact heq

/-- **What a turn that failed has delivered.** -/
theorem telling_of_failed (h : AtHead capacity cs ps s₀ w₀)
    (hfail : Ends (tolerant Req Resp capacity) (Channel.handle served s₀) w₀
      (.ret (.error e, s₁)) w₁)
    (htell : Reach (tolerant Req Resp capacity) (Channel.afterError Req Resp e s₁) w₁ q w) :
    Telling Req Resp capacity s₀ w₀ e s₁ w₁ w := by
  have hgrows := (traffic_grows hfail).trans (traffic_grows htell)
  rcases ends_seq_error hfail with hserve | ⟨resp, s', w', hserve, hsend⟩
  · rcases ends_seq_error hserve with hreceive | ⟨req, s', w', hreceive, hservice⟩
    · exact telling_of_unread h hgrows hreceive htell
    · have howing := ((receiveRequest_account h) _ _ hreceive).2 _ rfl
      have howing' := ((serve_account howing req) _ _ hservice).2 _ rfl
      exact telling_of_unanswered h hgrows howing'.pending howing'.lt_started htell
  · rw [Channel.sendResponse] at hsend
    cases hvec : Serde.toVec resp with
    | none =>
      have howing : Owing capacity cs ps s' w' :=
        ((receiveAndServe_account h) _ _ hserve).2 _ rfl
      rw [hvec] at hsend
      obtain ⟨ho, rfl⟩ := outcome_of_reach (o := .ret (Except.error _, s')) hsend
      cases ho
      exact telling_of_unanswered h hgrows howing.pending howing.lt_started htell
    | some v =>
      rw [hvec] at hsend
      exact telling_of_unsent h hgrows hserve hvec hsend htell

end

end

/-! ## Runs that answer too much -/

section

attribute [local instance] Allocator.ample

/-- The answers of one moment of a run. -/
inductive Answer where
  | bytes (c : Bytes)
  | takeAll
  | fail (e : ErrorKind)
  | flushed
  | served (r : Except IpcError Vec)

/-- How the environment gives an answer, to the calls that it is one to. -/
def Answer.choice : Answer → Choice (IoRes Vec (Except IpcError Vec)) Traffic
  | .bytes c, .read n, w =>
    if c.length ≤ n then some (.ok c, { w with received := w.received ++ c }) else none
  | .takeAll, .write bs, w => some (.ok bs.length, { w with output := w.output ++ bs })
  | .fail e, .write _, w => some (.error e, w)
  | .flushed, .flush, w => some (.ok (), w)
  | .served r, .ext _, w => some (r, w)
  | _, _, _ => none

theorem Answer.choice_step {whole : Bytes → Prop} {a : Answer} {op : StreamOp Vec} {w w' : Traffic}
    {r : IoRes Vec (Except IpcError Vec) op} (h : a.choice op w = some (r, w')) :
    (traffic whole).step w op r w' := by
  unfold Answer.choice at h
  split at h
  · rename_i c n
    obtain ⟨hle, h⟩ := Option.ite_none_right_eq_some.mp h
    cases h
    exact .inl ⟨c, rfl, hle, rfl⟩
  · rename_i bs
    cases h
    exact .inl ⟨bs.length, rfl, Nat.le_refl _, fun _ => rfl, by rw [List.take_length]⟩
  · cases h
    exact .inr ⟨_, rfl, rfl⟩
  · cases h
    rfl
  · cases h
    rfl
  · cases h

/-- `execute` through a buffer of eight bytes. -/
def server :
    Prog (IoRes Vec (Except IpcError Vec)) (Except IpcError Unit × Channel Source Sink) :=
  Channel.execute served (Channel.new 8 Source.mk Sink.mk)

/-- The run of the server that gets these answers. -/
def runWith (answers : List Answer) :
    Prog (IoRes Vec (Except IpcError Vec)) (Except IpcError Unit × Channel Source Sink) × Traffic :=
  server.exec 1000 (answers.map Answer.choice) ⟨[], []⟩

theorem reach_runWith {whole : Bytes → Prop} (answers : List Answer) :
    Reach (traffic whole) server ⟨[], []⟩ (runWith answers).1 (runWith answers).2 := by
  refine reach_exec ?_ _ _ _
  simp only [List.mem_map]
  rintro _ ⟨a, -, rfl⟩ op w r w' h
  exact Answer.choice_step h

/-- The stream ends before any request, and the error packet goes out. -/
def endOfStream : List Answer := [.bytes [], .takeAll, .flushed]

/-- A request is served; the first flush of its response fails, and the flush of
the error packet succeeds. -/
def flushFailsOnce : List Answer :=
  [.bytes [0, 0, 0], .served (.ok Vec.empty), .fail .other, .takeAll, .flushed]

end

end CkbScriptIpc
