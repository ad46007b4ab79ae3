import CkbScriptIpc.Execute
import CkbScriptIpc.Native

/-!
# Native client and server

A native client and a script in CKB-VM, connected by `spawn_server` through two pipes. The
script reaches its pipes by system calls, and an error of one ends the machine.

The server is followed as if its system calls passed every check (`ReadEnd.unchecked`). With the
checks it is that server, cut short (`ReadEnd.read_cuts`).

* `execute_answering`: the server keeps to its turns, whatever it is sent, or panics;
* `callEach_asking`: so does a client, whatever it asks and however often;
* `native_never_deadlocks`: so one of the two can always go on until the client is done.
-/

namespace CkbScriptIpc.Native

open Interaction
open Allocator (Grants)

variable {X Y W α : Type}

/-! ## The system calls of a script -/

section

variable [Allocator]

def firstFdSlot : UInt64 := 2

/-- What `InheritedFdSyscall` gives. -/
def inheritedFds : UInt64 × UInt64 := (firstFdSlot, firstFdSlot + 1)

structure ReadSyscall where
  pipe : Pipe
  deriving DecidableEq, Repr

structure WriteSyscall where
  pipe : Pipe
  deriving DecidableEq, Repr

/-- What `ReadSyscall` gets from its pipe. An error of the machine is its text. -/
def ReadSyscall.receive (length : Nat) : Method (IoRes X Y) String ReadSyscall Bytes :=
  (Method.zoom ReadSyscall.pipe (fun p s => { s with pipe := p }) (Read.read length)).mapErr
    fun _ => "READ error"

def ReadSyscall.ecall (fd : UInt64) (length : Nat) :
    Method (IoRes X Y) String ReadSyscall Bytes :=
  if fd ≠ firstFdSlot then Method.throw "can only read on pipe 2"
  -- `vec![0; length]`
  else if Grants length then ReadSyscall.receive length
  else Method.panic

def WriteSyscall.ecall (fd : UInt64) (bytes : Bytes) :
    Method (IoRes X Y) String WriteSyscall Nat :=
  if fd ≠ firstFdSlot + 1 then Method.throw "can only write on pipe 3"
  -- a zero-length write is skipped
  else if bytes = [] then return 0
  else do
    let _ ← (Method.zoom WriteSyscall.pipe (fun p s => { s with pipe := p })
      (Write.write bytes)).mapErr fun _ => "WRITE error"
    return bytes.length

/-- A system call from inside the script, which does not go on behind an error. -/
def syscall {S : Type} (x : Method (IoRes X Y) String S α) : Method (IoRes X Y) ErrorKind S α := do
  match ← Method.attempt x with
  | .ok a => return a
  | .error (_ : String) => Method.panic

/-- How much the `k`-th read of a script asks for when it has room for `n` bytes. -/
abbrev Sizes := {f : Nat → Nat → Nat // ∀ k n, 0 < n → 0 < f k n ∧ f k n ≤ n}

/-- The host can allocate them all. -/
def Sizes.Granted (sizes : Sizes) : Prop := ∀ k n, Grants (sizes.1 k n)

/-- As much as there is room for, up to a limit. -/
def Sizes.upTo (limit : Nat) (hpos : 0 < limit) : Sizes :=
  ⟨fun _ n => min n limit, fun _ n hn => ⟨Nat.lt_min.mpr ⟨hn, hpos⟩, Nat.min_le_left n limit⟩⟩

/-- The end that a script reads from. The `Pipe` of the library asks for all it has room
for; a script may ask for less. -/
structure ReadEnd where
  fd : UInt64
  machine : ReadSyscall
  sizes : Sizes
  count : Nat

/-- The end that a script writes to. -/
structure WriteEnd where
  fd : UInt64
  machine : WriteSyscall
  deriving DecidableEq, Repr

/-- A read by the system call `ecall`. -/
def ReadEnd.readBy (ecall : UInt64 → Nat → Method (IoRes X Y) String ReadSyscall Bytes) (n : Nat) :
    Method (IoRes X Y) ErrorKind ReadEnd Bytes := do
  let s ← Method.get
  Method.set { s with count := s.count + 1 }
  Method.zoom ReadEnd.machine (fun m s => { s with machine := m })
    (syscall (ecall s.fd (s.sizes.1 s.count n)))

instance : Read ReadEnd where
  read := ReadEnd.readBy ReadSyscall.ecall

instance : Write WriteEnd where
  write bs :=
    if bs = [] then return 0
    else do
      let s ← Method.get
      Method.zoom WriteEnd.machine (fun m s => { s with machine := m })
        (syscall (WriteSyscall.ecall s.fd bs))
  flush := return ()

/-- `spawn_server`, with the channels that client and server put on their ends. -/
def spawnServer (k l : Nat) (sizes : Sizes) : Channel Pipe Pipe × Channel ReadEnd WriteEnd :=
  -- from the script to the client, and back
  let (readPipe1, writePipe1) := Pipe.newPair
  let (readPipe2, writePipe2) := Pipe.newPair
  (Channel.new k readPipe1 writePipe2,
    Channel.new l ⟨inheritedFds.1, ⟨readPipe2⟩, sizes, 0⟩ ⟨inheritedFds.2, ⟨writePipe1⟩⟩)

end

/-! ## Reading a message that is due -/

/-- In view `due m` a read gives the message `m`, which leads to the view `after`. -/
structure Hands {V : Type} (E : Env (IoRes X Y) V) (due : Bytes → V) (after : V) : Prop where
  pre : ∀ m n, E.pre (due m) (.read n)
  step : ∀ {m n r v'}, E.step (due m) (.read n) r v' → r = .ok m ∧ v' = after

variable {Request Reply : Bytes → Prop}

theorem asking_hands (n : Nat) :
    Hands (asking Request Reply : Env (IoRes X Y) Asking) (.due n) (.turn n) where
  pre _ _ := trivial
  step h := h

theorem answering_hands (n : Nat) :
    Hands (answering Request Reply : Env (IoRes X Y) Answering) (.due n) (.owing n) where
  pre _ _ := trivial
  step h := h

section

variable {V : Type} {E : Env (IoRes X Y) V} {due : Bytes → V} {after : V}

/-- An end to read from that holds nothing back. -/
def Pipe.Empty (p : Pipe) : Prop := p.rx = some ⟨⟩ ∧ p.buf = []

/-- The bytes `s` are still to be read: they are due, or they are what was held back. -/
def Pipe.Awaits (due : Bytes → V) (after : V) (p : Pipe) (v : V) (s : Bytes) : Prop :=
  p.rx = some ⟨⟩ ∧ (p.buf = [] ∧ s ≠ [] ∧ v = due s ∨ v = after ∧ p.buf = s)

theorem Pipe.delivers (h : Hands E due after) : Delivers E (Pipe.Awaits due after) where
  chunk := by
    rintro p v s n ⟨hrx, ⟨hbuf, -, rfl⟩ | ⟨rfl, rfl⟩⟩ hs hn
    · rw [read_waiting hbuf hrx]
      refine .call (h.pre s 0) fun r v' hstep => ?_
      obtain ⟨rfl, rfl⟩ := h.step hstep
      exact .ret ⟨s.drop n, (List.take_append_drop n s).symm, by simp [hs, Nat.ne_of_gt hn],
        List.length_take_le n s, hrx, .inr ⟨rfl, rfl⟩⟩
    · rw [read_buffered hs]
      exact .ret ⟨p.buf.drop n, (List.take_append_drop n p.buf).symm,
        by simp [hs, Nat.ne_of_gt hn], List.length_take_le n p.buf, hrx, .inr ⟨rfl, rfl⟩⟩

theorem Pipe.awaits_due {p : Pipe} (hp : p.Empty) {m : Bytes} (hm : m ≠ []) :
    p.Awaits due after (due m) m := ⟨hp.1, .inl ⟨hp.2, hm, rfl⟩⟩

/-- All that was due has been read. -/
theorem Pipe.empty_of_awaits {p : Pipe} {v : V} (h : p.Awaits due after v []) :
    p.Empty ∧ v = after := by
  obtain ⟨hrx, ⟨-, hne, -⟩ | ⟨rfl, hbuf⟩⟩ := h
  · exact absurd rfl hne
  · exact ⟨⟨hrx, hbuf⟩, rfl⟩

/-- A system call that succeeds gives its result. -/
theorem syscall_ok {S : Type} {x : Method (IoRes X Y) String S α} {s : S} {v : V}
    {P : α → S → V → Prop} (h : Always E (succeeds P) (x s) v) :
    Always E (succeeds P) (syscall x s) v := by
  apply always_seq_ok (always_attempt_ok h)
  rintro _ s' v' ⟨a, rfl, hp⟩
  exact .ret hp

/-- The script reads from its own descriptor, in these sizes. -/
structure ReadEnd.Asks (sizes : Sizes) (r : ReadEnd) : Prop where
  fd : r.fd = firstFdSlot
  sizes : r.sizes = sizes

def ReadEnd.Empty (sizes : Sizes) (r : ReadEnd) : Prop := r.Asks sizes ∧ r.machine.pipe.Empty

def ReadEnd.Awaits (sizes : Sizes) (due : Bytes → V) (after : V) (r : ReadEnd) (v : V)
    (s : Bytes) : Prop :=
  r.Asks sizes ∧ r.machine.pipe.Awaits due after v s

/-- The reads of a script whose system calls pass every check. -/
@[reducible] def ReadEnd.unchecked : Read ReadEnd where
  read := ReadEnd.readBy fun _ => ReadSyscall.receive

variable {sizes : Sizes}

theorem ReadEnd.delivers (h : Hands E due after) :
    Streams ReadEnd.unchecked.read E (ReadEnd.Awaits sizes due after) where
  chunk := by
    rintro r v s n ⟨hasks, hp⟩ hs hn
    obtain ⟨hpos, hle⟩ := r.sizes.2 r.count n hn
    simp only [Read.read, readBy, get_seq, set_seq]
    have hcall : Always E (succeeds fun c m v' => ∃ s', s = c ++ s' ∧ c ≠ [] ∧ c.length ≤ n ∧
        m.pipe.Awaits due after v' s')
        (ReadSyscall.receive (r.sizes.1 r.count n) r.machine) v := by
      refine always_mapErr_ok ((always_zoom_ok ((Pipe.delivers h).chunk hp hs hpos)).mono
        (succeeds_mono ?_))
      rintro c _ v' ⟨p, ⟨s', he, hc, hlen, hp'⟩, rfl⟩
      exact ⟨s', he, hc, Nat.le_trans hlen hle, hp'⟩
    refine Always.mono (always_zoom_ok (syscall_ok hcall)) (succeeds_mono ?_)
    rintro c _ v' ⟨m, ⟨s', he, hc, hlen, hp'⟩, rfl⟩
    exact ⟨s', he, hc, hlen, ⟨hasks.fd, hasks.sizes⟩, hp'⟩

variable [Allocator]

/-- The checks end some reads in a panic. -/
theorem ReadEnd.read_cuts : Read.Cuts instReadReadEnd ReadEnd.unchecked := by
  intro X Y n
  refine cuts_seq (cuts_refl _) fun s => cuts_seq (cuts_refl _) fun _ => cuts_zoom ?_ _ _
  intro m
  unfold syscall ReadSyscall.ecall
  split
  · exact .panic
  · split
    · exact .refl _
    · exact .panic

/-- Sizes that the host can allocate pass the checks. -/
theorem ReadEnd.read_granted (hsizes : sizes.Granted) {r : ReadEnd} (hr : r.Asks sizes) (n : Nat) :
    (Read.read n r : Prog (IoRes X Y) _) = ReadEnd.unchecked.read n r := by
  have hecall : ReadSyscall.ecall (X := X) (Y := Y) r.fd (r.sizes.1 r.count n) =
      ReadSyscall.receive (r.sizes.1 r.count n) := by
    rw [ReadSyscall.ecall, if_neg (by simp [hr.fd]), if_pos (hr.sizes ▸ hsizes r.count n)]
  simp only [Read.read, readBy, get_seq, set_seq, hecall]

theorem ReadEnd.delivers_granted (hsizes : sizes.Granted) (h : Hands E due after) :
    Delivers E (ReadEnd.Awaits sizes due after) where
  chunk := by
    rintro r v s n ⟨hasks, hp⟩ hs hn
    rw [read_granted hsizes hasks]
    exact (ReadEnd.delivers h).chunk ⟨hasks, hp⟩ hs hn

end

/-! ## Writing a message -/

section

variable {m : Bytes} {n : Nat}

/-- An end to write to. -/
def Pipe.Open (p : Pipe) : Prop := p.tx = some ⟨⟩

def WriteEnd.Open (v : WriteEnd) : Prop := v.fd = firstFdSlot + 1 ∧ v.machine.pipe.Open

/-- A request meets the server, or the server is gone. -/
theorem Pipe.accepts {p : Pipe} (hp : p.Open) (hm : Request m) (hne : m ≠ []) :
    Accepts (asking Request Reply : Env (IoRes X Y) Asking) p (.turn (n + 1)) m (· = .owed n)
      (· = .lost) where
  write := by
    rw [write_cons hne hp]
    refine .call hm fun r v' hstep => ?_
    obtain ⟨rfl, rfl⟩ | ⟨⟨e, rfl⟩, rfl⟩ := hstep
    · exact .ret ⟨rfl, rfl, rfl⟩
    · exact .ret ⟨by rintro ⟨⟩, rfl, rfl⟩
  flush hu := .ret ⟨rfl, hu⟩

theorem Pipe.refuses {p : Pipe} (hp : p.Open) :
    Refuses (asking Request Reply : Env (IoRes X Y) Asking) p (· = .lost) where
  write := by
    rintro _ bs rfl hne
    rw [write_cons hne hp]
    refine .call trivial fun r v' hstep => ?_
    obtain ⟨⟨e, rfl⟩, rfl⟩ := hstep
    exact .ret ⟨by rintro ⟨⟩, rfl, rfl⟩

theorem WriteSyscall.ecall_ok {p : Pipe} (hp : p.Open) (hm : Reply m) (hne : m ≠ []) :
    Always (answering Request Reply : Env (IoRes X Y) Answering)
      (succeeds fun k s v => k = m.length ∧ s = ⟨p⟩ ∧ v = .listening n)
      (WriteSyscall.ecall (firstFdSlot + 1) m ⟨p⟩) (.owing n) := by
  have hwrite : Always (answering Request Reply : Env (IoRes X Y) Answering)
      (succeeds fun _ q v => q = p ∧ v = .listening n) (Write.write m p) (.owing n) := by
    rw [Pipe.write_cons hne hp]
    refine .call hm fun r v' hstep => ?_
    obtain ⟨rfl, rfl⟩ := hstep
    exact .ret ⟨rfl, rfl⟩
  simp only [ecall, ne_eq, not_true_eq_false, ↓reduceIte, hne]
  apply always_seq_ok (always_mapErr_ok (always_zoom_ok hwrite))
  rintro _ _ _ ⟨_, ⟨rfl, rfl⟩, rfl⟩
  exact .ret ⟨rfl, rfl, rfl⟩

/-- A reply meets the client. -/
theorem WriteEnd.accepts {v : WriteEnd} (hv : v.Open) (hm : Reply m) (hne : m ≠ []) :
    Accepts (answering Request Reply : Env (IoRes X Y) Answering) v (.owing n) m
      (· = .listening n) fun _ => False where
  write := by
    obtain ⟨fd, ⟨p⟩⟩ := v
    obtain ⟨rfl, hp⟩ := hv
    simp only [Write.write, hne, ↓reduceIte, get_seq]
    refine Always.mono (always_zoom_ok (syscall_ok (WriteSyscall.ecall_ok hp hm hne)))
      fun o w ho => resolves_of_succeeds o w (succeeds_mono ?_ o w ho)
    rintro _ _ _ ⟨_, ⟨rfl, rfl, rfl⟩, rfl⟩
    exact ⟨rfl, rfl, rfl⟩
  flush hu := .ret ⟨rfl, hu⟩

end

/-! ## The server -/

section

variable [Allocator]

/-- The packets that a client sends. -/
def IsRequest (m : Bytes) : Prop := ∃ p : RequestPacket, m = p.serialize

/-- The packets that a server sends: their codes are known to the client. -/
def IsReply (m : Bytes) : Prop :=
  ∃ p : ResponsePacket, (∃ c, ProtocolErrorCode.n p.errorCode = some c) ∧ m = p.serialize

theorem isReply_new (c : ProtocolErrorCode) (payload : Vec) :
    IsReply (ResponsePacket.new c.toU64 payload).serialize :=
  ⟨_, ⟨c, ProtocolErrorCode.n_toU64 c⟩, rfl⟩

/-- A channel of a script between its turns. -/
structure ServerIdle (sizes : Sizes) (s : Channel ReadEnd WriteEnd) : Prop where
  reader_buf : s.reader.buf = []
  reader : s.reader.inner.Empty sizes
  writer_buf : s.writer.buf = []
  writer : s.writer.inner.Open

section

-- the server is followed where its reads pass the checks, and cut short at the end
attribute [local instance] ReadEnd.unchecked

variable {Req Resp : Type} [Serde Req] [Serde Resp] {sizes : Sizes}
  {s : Channel ReadEnd WriteEnd} {n : Nat}

/-- The views that the threads of a client and of a server with these requests have. -/
abbrev serverView (Req Resp : Type) : Env (IoRes Req (Except IpcError Resp)) Answering :=
  answering IsRequest IsReply

omit [Serde Req] [Serde Resp] in
/-- A whole packet takes an idle server to an idle one that owes a reply. -/
theorem server_readFrom (hs : ServerIdle sizes s) (p : RequestPacket) :
    Always (serverView Req Resp)
      (succeeds fun q s' v => q = p ∧ ServerIdle sizes s' ∧ v = .owing n)
      (Channel.onReader RequestPacket.readFrom s) (.due n p.serialize) := by
  have hview : BufReader.view (ReadEnd.Awaits sizes (Answering.due n) (.owing n)) s.reader
      (.due n p.serialize) (p.serialize ++ []) := by
    refine ⟨p.serialize, by rw [hs.reader_buf, List.append_nil, List.nil_append], hs.reader.1, ?_⟩
    exact Pipe.awaits_due hs.reader.2 p.serialize_ne_nil
  refine (Channel.onReader_ok (RequestPacket.readFrom_serialize
    (BufReader.delivers (ReadEnd.delivers (answering_hands n))) p [] _ _ hview)).mono
    (succeeds_mono ?_)
  rintro q _ v ⟨r, ⟨rfl, t, ht, hfd, hp⟩, rfl⟩
  obtain ⟨hbuf, rfl⟩ := List.append_eq_nil_iff.mp ht.symm
  obtain ⟨hempty, rfl⟩ := Pipe.empty_of_awaits hp
  exact ⟨rfl, ⟨hbuf, ⟨hfd, hempty⟩, hs.writer_buf, hs.writer⟩, rfl⟩

omit [Serde Req] [Serde Resp] in
theorem server_sendBytes (hs : ServerIdle sizes s) {m : Bytes} (hm : IsReply m) :
    Always (serverView Req Resp) (succeeds fun _ s' v => s' = s ∧ v = .listening n)
      (Channel.sendBytes m s) (.owing n) := by
  have hne : m ≠ [] := by
    obtain ⟨p, -, rfl⟩ := hm
    exact p.serialize_ne_nil
  refine (Channel.sendBytes_accepts (WriteEnd.accepts hs.writer hm hne) hne hs.writer_buf).mono
    fun o v ho => ?_
  exact succeeds_of_resolves (fun _ _ _ hp => hp) o v
    (resolves_mono (fun _ _ _ hp => hp) (fun _ _ _ hf => hf.2) o v ho)

/-- A request is answered, or there is an error before anything is sent. -/
theorem server_handle (hs : ServerIdle sizes s) {m : Bytes} (hm : IsRequest m) :
    Always (serverView Req Resp)
      (resolves (fun _ s' v => ServerIdle sizes s' ∧ v = .listening n)
        fun _ s' v => ServerIdle sizes s' ∧ v = .owing n)
      (Channel.handle (@served Req Resp) s) (.due n m) := by
  obtain ⟨p, rfl⟩ := hm
  have hreceive : Always (serverView Req Resp)
      (resolves (fun (_ : Req) s' v => ServerIdle sizes s' ∧ v = .owing n)
        fun _ s' v => ServerIdle sizes s' ∧ v = .owing n)
      (Channel.receiveRequest s) (.due n p.serialize) := by
    apply always_seq_ok (server_readFrom hs p)
    rintro packet s' _ ⟨rfl, hs', rfl⟩
    cases Serde.fromSlice (T := Req) packet.payload.bytes <;> exact .ret ⟨hs', rfl⟩
  have hserve : Always (serverView Req Resp)
      (resolves (fun (_ : Resp) s' v => ServerIdle sizes s' ∧ v = .owing n)
        fun _ s' v => ServerIdle sizes s' ∧ v = .owing n)
      (Channel.receiveAndServe served s) (.due n p.serialize) := by
    refine always_seq_resolves hreceive ?_ fun _ _ _ hf => hf
    rintro req s' _ ⟨hs', rfl⟩
    refine .call trivial fun r v hv => ?_
    cases hv
    cases r <;> exact .ret ⟨hs', rfl⟩
  refine always_seq_resolves hserve ?_ fun _ _ _ hf => hf
  rintro resp s' _ ⟨hs', rfl⟩
  rw [Channel.sendResponse]
  cases Serde.toVec resp with
  | none => exact .ret ⟨hs', rfl⟩
  | some payload =>
    refine (server_sendBytes hs' (isReply_new .ok payload)).mono fun o v ho => ?_
    refine resolves_of_succeeds o v (succeeds_mono ?_ o v ho)
    rintro _ _ _ ⟨rfl, rfl⟩
    exact ⟨hs', rfl⟩

omit [Serde Req] [Serde Resp] in
/-- The client is told of an error, and the server stops. -/
theorem server_notify (hs : ServerIdle sizes s) (e : IpcError) :
    Always (serverView Req Resp) (fails fun _ _ v => v = .listening n)
      (Channel.notify (α := α) e s) (.owing n) := by
  apply always_seq_ok (always_attempt_ok (server_sendBytes hs (isReply_new _ Vec.empty)))
  rintro _ _ _ ⟨_, rfl, -, rfl⟩
  exact .ret rfl

/-- The server goes on to the next request, or has told the client and stops. -/
theorem server_executeTurn (hs : ServerIdle sizes s) {m : Bytes} (hm : IsRequest m) :
    Always (serverView Req Resp)
      (resolves (fun x s' v => x = .inl () ∧ ServerIdle sizes s' ∧ v = .listening n)
        fun _ _ v => v = .listening n)
      (Channel.executeTurn (@served Req Resp) () s) (.due n m) := by
  apply always_seq_ok (always_attempt_resolves (server_handle hs hm))
  rintro _ s' _ (⟨_, rfl, hs', rfl⟩ | ⟨e, rfl, hs', rfl⟩)
  · exact .ret ⟨rfl, hs', rfl⟩
  · exact (server_notify hs' e).mono resolves_of_fails

omit [Serde Req] [Serde Resp] in
/-- A server with no request to come waits for ever. -/
theorem server_read_listening {r : ReadEnd} (hr : r.Empty sizes) {k : Nat} :
    Always (serverView Req Resp) (fun _ _ => False) (Read.read k r) (.listening 0) := by
  have hcall : Always (serverView Req Resp) (fun _ _ => False)
      (ReadSyscall.receive (r.sizes.1 r.count k) r.machine) (.listening 0) := by
    refine always_map_never (always_map_never ?_)
    rw [Pipe.read_waiting hr.2.2 hr.2.1]
    exact .call trivial fun _ _ h => h.elim
  exact always_map_never (always_seq_never (always_map_never hcall))

/-- It answers every request that it is sent, or stops. -/
theorem execute_unchecked (hs : ServerIdle sizes s) (n : Nat) :
    Always (serverView Req Resp) Answered (Channel.execute (@served Req Resp) s)
      (.listening n) := by
  -- by induction on the number of requests that are still to come
  induction n generalizing s with
  | zero =>
    exact always_iter_never (always_seq_never (always_map_never (always_seq_never
      (always_seq_never (Channel.receiveRequest_never
        (fun k _ => server_read_listening hs.reader) hs.reader_buf)))))
  | succ n ih =>
    refine always_listening (m := (RequestPacket.new Vec.empty).serialize) ⟨_, rfl⟩
      (by rintro _ ⟨_, ⟨⟩⟩) fun m hm => ?_
    refine always_iter ((server_executeTurn hs hm).mono ?_)
    rintro (⟨e | _, s'⟩ | _) v hv
    · exact ⟨n, hv⟩
    · obtain ⟨rfl, hs', rfl⟩ := hv
      exact ih hs'
    · exact hv.elim

end

/-- **The server keeps to its turns**: it answers every request that it is sent, or stops. -/
theorem execute_answering {Req Resp : Type} [Serde Req] [Serde Resp] {sizes : Sizes}
    {s : Channel ReadEnd WriteEnd} (hs : ServerIdle sizes s) (n : Nat) :
    Always (serverView Req Resp) Stopped (Channel.execute (@served Req Resp) s) (.listening n) :=
  always_cut (execute_unchecked hs n) (Channel.execute_cuts ReadEnd.read_cuts served s)

/-! ## The client -/

/-- The calls of a client one after another, whatever becomes of each. -/
def callEach {R V Req Resp : Type} [Read R] [Write V] [Serde Req] [Serde Resp] :
    List Req → Method (IoRes X Y) IpcError (Channel R V) (List (Except IpcError Resp))
  | [] => return []
  | req :: reqs => do
    let result ← Method.attempt (Channel.call req)
    let results ← callEach reqs
    return result :: results

/-- A client between its calls, with its turn and nothing buffered. -/
structure ClientIdle (s : Channel Pipe Pipe) : Prop where
  reader_buf : s.reader.buf = []
  reader : s.reader.inner.Empty
  writer_buf : s.writer.buf = []
  writer : s.writer.inner.Open

/-- The client has its turn for at least `k` requests, or has found that the server is gone. -/
inductive CanAsk (k : Nat) (s : Channel Pipe Pipe) : Asking → Prop
  | turn {n : Nat} : ClientIdle s → k ≤ n → CanAsk k s (.turn n)
  | lost : s.writer.inner.Open → CanAsk k s .lost

section

variable {Req Resp : Type} [Serde Req] [Serde Resp] {s : Channel Pipe Pipe} {n k : Nat}

abbrev clientView (X Y : Type) : Env (IoRes X Y) Asking := asking IsRequest IsReply

/-- Whatever the reply says, the client has read all of it. -/
theorem client_receive_due (hs : ClientIdle s) {m : Bytes} (hm : IsReply m) :
    Always (clientView X Y)
      (resolves (fun (_ : Resp) s' v => ClientIdle s' ∧ v = .turn n)
        fun _ s' v => ClientIdle s' ∧ v = .turn n)
      (Channel.receiveResponse s) (.due n m) := by
  obtain ⟨p, ⟨c, hc⟩, rfl⟩ := hm
  have hview : BufReader.view (Pipe.Awaits (Asking.due n) (Asking.turn n)) s.reader
      (.due n p.serialize) (p.serialize ++ []) := by
    refine ⟨p.serialize, by rw [hs.reader_buf, List.append_nil, List.nil_append], ?_⟩
    exact Pipe.awaits_due hs.reader p.serialize_ne_nil
  have hidle : ∀ {s' : Channel Pipe Pipe} {v : Asking}, s'.writer = s.writer →
      BufReader.view (Pipe.Awaits (Asking.due n) (Asking.turn n)) s'.reader v [] →
      ClientIdle s' ∧ v = .turn n := by
    rintro s' v hwriter ⟨t, ht, hp⟩
    obtain ⟨hbuf, rfl⟩ := List.append_eq_nil_iff.mp ht.symm
    obtain ⟨hempty, rfl⟩ := Pipe.empty_of_awaits hp
    exact ⟨⟨hbuf, hempty, by rw [hwriter]; exact hs.writer_buf,
      by rw [hwriter]; exact hs.writer⟩, rfl⟩
  by_cases hok : c = .ok
  · subst hok
    apply always_seq_ok (Channel.receivePacket_ok (Pipe.delivers (asking_hands n)) hview hc)
    rintro packet s' v ⟨-, hwriter, hv⟩
    cases Serde.fromSlice (T := Resp) packet.payload.bytes <;> exact .ret (hidle hwriter hv)
  · refine always_seq_err (Channel.receivePacket_error (Pipe.delivers (asking_hands n)) hview
      hc hok) ?_
    rintro _ s' v ⟨-, hwriter, hv⟩
    exact hidle hwriter hv

omit [Allocator] in
/-- Without a server a client is at the end of what it can read. -/
theorem Pipe.deliversAll_lost : DeliversAll (asking Request Reply : Env (IoRes X Y) Asking)
    fun (p : Pipe) v s => p.Empty ∧ v = .lost ∧ s = [] where
  chunk := by
    rintro p v s n ⟨-, -, rfl⟩ hs
    exact absurd rfl hs
  eof := by
    rintro p _ n ⟨hp, rfl, -⟩ -
    rw [read_waiting hp.2 hp.1]
    refine .call trivial fun r v' hstep => ?_
    obtain ⟨⟨e, rfl⟩, rfl⟩ := hstep
    exact .ret ⟨rfl, hp, rfl, rfl⟩

/-- A reply that does not come is an error. -/
theorem client_receive_lost (hs : ClientIdle s) :
    Always (clientView X Y) (fails fun _ s' v => s'.writer = s.writer ∧ v = .lost)
      (Channel.receiveResponse s : Prog _ (Except IpcError Resp × Channel Pipe Pipe)) .lost := by
  have hview : BufReader.view (fun (p : Pipe) v s => p.Empty ∧ v = Asking.lost ∧ s = []) s.reader
      .lost [] := ⟨[], by rw [hs.reader_buf, List.append_nil], hs.reader, rfl, rfl⟩
  have hpacket : Always (clientView X Y) (fails fun _ s' v => s'.writer = s.writer ∧ v = .lost)
      (Channel.receivePacket s) .lost := by
    refine always_seq_err (always_zoom_err (readFrom_badHeader
      (BufReader.deliversAll Pipe.deliversAll_lost) hview rfl)) ?_
    rintro _ _ v ⟨r, ⟨-, _, t, -, -, rfl, -⟩, rfl⟩
    exact ⟨rfl, rfl⟩
  exact always_seq_err hpacket fun _ _ _ hf => hf

/-- The client waits for its reply, which leaves it with its turn, or finds the server gone. -/
theorem client_receive (hs : ClientIdle s) :
    Always (clientView X Y)
      (resolves (fun (_ : Resp) s' v => ClientIdle s' ∧ v = .turn n)
        fun _ s' v => ClientIdle s' ∧ v = .turn n ∨ s'.writer = s.writer ∧ v = .lost)
      (Channel.receiveResponse s) (.owed n) := by
  refine always_owed (isReply_new .ok Vec.empty) ?_ (fun m hm => (client_receive_due hs hm).mono
    (resolves_mono (fun _ _ _ hp => hp) fun _ _ _ hf => .inl hf))
    ((client_receive_lost hs).mono fun o v ho => resolves_of_fails o v
      (fails_mono (fun _ _ _ hf => .inr hf) o v ho))
  rintro (⟨e | a, s'⟩ | _)
  · rintro (⟨-, ⟨⟩⟩ | ⟨-, ⟨⟩⟩)
  · rintro ⟨-, ⟨⟩⟩
  · exact fun h => h

/-- A call takes at most one request of the client's turn. -/
theorem client_call {v : Asking} (h : CanAsk (k + 1) s v) (req : Req) :
    Always (clientView X Y)
      (resolves (fun (_ : Resp) s' v' => CanAsk k s' v') fun _ s' v' => CanAsk k s' v')
      (Channel.call req s) v := by
  have hweak : CanAsk k s v := by
    cases h with
    | turn hs hk => exact .turn hs (Nat.le_of_succ_le hk)
    | lost hw => exact .lost hw
  cases hreq : Serde.toVec req with
  | none =>
    refine always_seq_err (P := fun _ s' v' => CanAsk k s' v') ?_ fun _ _ _ hf => hf
    rw [Channel.sendRequest, hreq]
    exact .ret hweak
  | some payload =>
    have hsend : Channel.sendRequest (X := X) (Y := Y) req s =
        Channel.sendBytes (RequestPacket.new payload).serialize s := by
      rw [Channel.sendRequest, hreq]
    have hne := (RequestPacket.new payload).serialize_ne_nil
    cases h with
    | @turn n hs hk =>
      obtain ⟨n, rfl⟩ := Nat.exists_eq_add_of_le' hk
      have haccepts : Accepts (clientView X Y) s.writer.inner (.turn (n + k + 1)) _ _ _ :=
        Pipe.accepts hs.writer ⟨_, rfl⟩ hne
      have hsent := hsend ▸ Channel.sendBytes_accepts haccepts hne hs.writer_buf
      refine always_seq_resolves hsent ?_ ?_
      · rintro _ _ _ ⟨rfl, rfl⟩
        refine (client_receive hs).mono (resolves_mono ?_ ?_)
        · rintro _ _ _ ⟨hs', rfl⟩
          exact .turn hs' (Nat.le_add_left k n)
        · rintro _ _ _ (⟨hs', rfl⟩ | ⟨hwriter, rfl⟩)
          · exact .turn hs' (Nat.le_add_left k n)
          · exact .lost (hwriter ▸ hs.writer)
      · rintro _ _ _ ⟨hinner, rfl⟩
        exact .lost (hinner ▸ hs.writer)
    | lost hw =>
      refine always_seq_err (hsend ▸ Channel.sendBytes_refused (Pipe.refuses hw) hne rfl) ?_
      rintro _ _ _ ⟨hinner, rfl⟩
      exact .lost (hinner ▸ hw)

/-- Every call returns. -/
theorem client_callEach {v : Asking} {reqs : List Req} (h : CanAsk reqs.length s v) :
    Always (clientView X Y)
      (succeeds fun (results : List (Except IpcError Resp)) s' v' =>
        results.length = reqs.length ∧ CanAsk 0 s' v') (callEach reqs s) v := by
  induction reqs generalizing s v with
  | nil => exact .ret ⟨rfl, h⟩
  | cons req reqs ih =>
    have hreq : Always (clientView X Y) (resolves (fun (_ : Resp) s' v' => CanAsk reqs.length s' v')
        fun _ s' v' => CanAsk reqs.length s' v') (Channel.call req s) v := client_call h req
    apply always_seq_ok (always_attempt_resolves hreq)
    intro result s₁ v₁ hcall
    have h₁ : CanAsk reqs.length s₁ v₁ := by
      obtain ⟨_, -, h₁⟩ | ⟨_, -, h₁⟩ := hcall <;> exact h₁
    apply always_seq_ok (ih h₁)
    rintro results s₂ v₂ ⟨hlen, h₂⟩
    exact .ret ⟨by rw [List.length_cons, List.length_cons, hlen], h₂⟩

/-- **The client keeps to its turns**, and returns from every call. -/
theorem callEach_asking {v : Asking} {reqs : List Req} (h : CanAsk reqs.length s v) :
    Always (clientView X Y) Asked (callEach reqs s : Prog (IoRes X Y)
      (Except IpcError (List (Except IpcError Resp)) × Channel Pipe Pipe)) v := by
  refine (client_callEach h).mono ?_
  rintro (⟨e | results, s'⟩ | _) v' hv
  · exact hv.elim
  · obtain ⟨-, hv | hv⟩ := hv <;> trivial
  · exact hv.elim

end

/-! ## Both together -/

section

variable {Req Resp Req' Resp' : Type} [Serde Req] [Serde Resp] [Serde Req'] [Serde Resp']

omit [Allocator] in
theorem clientIdle_spawned (k l : Nat) (sizes : Sizes) : ClientIdle (spawnServer k l sizes).1 :=
  ⟨rfl, ⟨rfl, rfl⟩, rfl, rfl⟩

omit [Allocator] in
theorem serverIdle_spawned (k l : Nat) (sizes : Sizes) :
    ServerIdle sizes (spawnServer k l sizes).2 :=
  ⟨rfl, ⟨⟨rfl, rfl⟩, rfl, rfl⟩, rfl, rfl, rfl⟩

/-- A client that makes the calls `reqs`, and the server that was spawned for it. -/
def spawned (Resp Req' Resp' : Type) [Serde Resp] [Serde Req'] [Serde Resp'] (k l : Nat)
    (sizes : Sizes) (reqs : List Req) :
    Link Req' (Except IpcError Resp') ErrorKind
      (Except IpcError (List (Except IpcError Resp)) × Channel Pipe Pipe)
      (Except IpcError Unit × Channel ReadEnd WriteEnd) :=
  ⟨callEach reqs (spawnServer k l sizes).1,
    Channel.execute (@served Req' Resp') (spawnServer k l sizes).2⟩

instance : Inhabited ErrorKind := ⟨.other⟩

instance : Inhabited IpcError := ⟨.generalIoError⟩

/-- **Native client and server never deadlock.** However the two have been interleaved, all
calls have returned, or one of the two can take a step. The script reads in any sizes; where the
host cannot allocate one of them the server panics, and the client finds out. -/
theorem native_never_deadlocks (k l : Nat) (sizes : Sizes) (reqs : List Req)
    {c : Link Req' (Except IpcError Resp') ErrorKind
      (Except IpcError (List (Except IpcError Resp)) × Channel Pipe Pipe)
      (Except IpcError Unit × Channel ReadEnd WriteEnd)}
    (h : Link.Reach (spawned Resp Req' Resp' k l sizes reqs) c) :
    (∃ a, c.client = .ret a) ∨ ∃ c', Link.Step c c' := by
  have hclient : CanAsk reqs.length (spawnServer k l sizes).1 (.turn reqs.length) :=
    .turn (clientIdle_spawned k l sizes) (Nat.le_refl _)
  exact turns_never_stuck (.both (callEach_asking hclient)
    (execute_answering (serverIdle_spawned k l sizes) reqs.length) (.turn _)) h

end

end

section

attribute [local instance] Allocator.ample

/-- Up to 1024 bytes at a time. -/
def kilobyte : Sizes := Sizes.upTo 1024 (by decide)

theorem kilobyte_granted : kilobyte.Granted :=
  fun _ n => Nat.le_trans (Nat.min_le_right n 1024) (by decide)

/-- Two calls of a service that gives back what it is given. -/
def twoCalls : Link Vec (Except IpcError Vec) ErrorKind
    (Except IpcError (List (Except IpcError Vec)) × Channel Pipe Pipe)
    (Except IpcError Unit × Channel ReadEnd WriteEnd) :=
  let hi : Vec := ⟨[104, 105], by decide⟩
  let wow : Vec := ⟨[119, 111, 119], by decide⟩
  spawned Vec Vec Vec 8 8 kilobyte [hi, wow]

/-- After thirty steps the server sends the reply to the second call. -/
theorem native_replies_again :
    ∃ c, Link.Reach twoCalls c ∧ c.server.sending = some [0, 0, 3, 119, 111, 119] ∧
      ((∃ a, c.client = .ret a) ∨ ∃ c', Link.Step c c') := by
  have hreach := Link.reach_exec Except.ok 30 twoCalls
  exact ⟨_, hreach, by decide +kernel, native_never_deadlocks 8 8 kilobyte _ hreach⟩

end

end CkbScriptIpc.Native
