import CkbScriptIpc.Packet

/-!
# Channels

`Channel` with its send and receive functions, the client's `call` and the
server's `execute`. The payload codec `serde_json` is a parameter (`Serde`), and
so is the service, a program that `execute` is given.
-/

namespace CkbScriptIpc

open Interaction
open Allocator (Grants)

variable {X Y W : Type}

section

variable [Allocator]

/-- What `serde_json` does for one type: `to_vec` and `from_slice`. -/
class Serde (T : Type) where
  toVec : T → Option Vec
  fromSlice : Bytes → Option T

/-- Payloads that are sent as they are. -/
instance : Serde Vec where
  toVec := some
  fromSlice bytes := if h : Grants bytes.length then some ⟨bytes, h⟩ else none

@[simp] theorem fromSlice_bytes (v : Vec) : Serde.fromSlice v.bytes = some v :=
  dif_pos v.granted

end

/-! ## `String::from_utf8_lossy` -/

/-- U+FFFD. -/
def replacement : Bytes := [0xEF, 0xBF, 0xBD]

/-- The ranges of the bytes that must follow the first byte of a character. -/
def utf8Tail (b : UInt8) : Option (List (UInt8 × UInt8)) :=
  if b ≤ 0x7F then some []
  else if b < 0xC2 then none
  else if b ≤ 0xDF then some [(0x80, 0xBF)]
  else if b = 0xE0 then some [(0xA0, 0xBF), (0x80, 0xBF)]
  else if b = 0xED then some [(0x80, 0x9F), (0x80, 0xBF)]
  else if b ≤ 0xEF then some [(0x80, 0xBF), (0x80, 0xBF)]
  else if b = 0xF0 then some [(0x90, 0xBF), (0x80, 0xBF), (0x80, 0xBF)]
  else if b ≤ 0xF3 then some [(0x80, 0xBF), (0x80, 0xBF), (0x80, 0xBF)]
  else if b = 0xF4 then some [(0x80, 0x8F), (0x80, 0xBF), (0x80, 0xBF)]
  else none

/-- `begun` holds the bytes of a character that is not complete, `owed` the ranges
of those to come. -/
structure Lossy where
  begun : Bytes
  owed : List (UInt8 × UInt8)

def Lossy.start (b : UInt8) : Bytes × Lossy :=
  match utf8Tail b with
  | none => (replacement, ⟨[], []⟩)
  | some [] => ([b], ⟨[], []⟩)
  | some owed => ([], ⟨[b], owed⟩)

/-- What one more byte puts out. A character cut short becomes one U+FFFD, and
the byte that cut it starts the next one. -/
def Lossy.step (s : Lossy) (b : UInt8) : Bytes × Lossy :=
  match s.owed with
  | [] => start b
  | (lo, hi) :: owed =>
    if lo ≤ b ∧ b ≤ hi then
      if owed = [] then (s.begun ++ [b], ⟨[], []⟩) else ([], ⟨s.begun ++ [b], owed⟩)
    else (replacement ++ (start b).1, (start b).2)

def fromUtf8LossyLoop (s : Lossy) : Bytes → Bytes
  | [] => if s.owed = [] then [] else replacement
  | b :: bs => (s.step b).1 ++ fromUtf8LossyLoop (s.step b).2 bs

/-- `String::from_utf8_lossy`, where a string is its UTF-8 bytes. -/
def fromUtf8Lossy (bytes : Bytes) : Bytes := fromUtf8LossyLoop ⟨[], []⟩ bytes

example : fromUtf8Lossy [0x66, 0xE2, 0x82, 0x41, 0xC3, 0xA9, 0xFF] =
    [0x66] ++ replacement ++ [0x41, 0xC3, 0xA9] ++ replacement := by decide

/-! ## The channel -/

structure Channel (R V : Type) where
  reader : BufReader R
  writer : BufWriter V
  deriving DecidableEq, Repr

namespace Channel

variable {R V Req Resp α : Type}

/-- `Channel::new`, with the capacity that the two buffers start with. -/
def new (capacity : Nat) (reader : R) (writer : V) : Channel R V :=
  ⟨⟨reader, [], capacity⟩, ⟨writer, [], capacity⟩⟩

def onReader (x : Method (IoRes X Y) IpcError (BufReader R) α) :
    Method (IoRes X Y) IpcError (Channel R V) α :=
  Method.zoom (·.reader) (fun r s => { s with reader := r }) x

/-- A call on the writer, whose errors `?` converts. -/
def onWriter (x : Method (IoRes X Y) ErrorKind (BufWriter V) α) :
    Method (IoRes X Y) IpcError (Channel R V) α :=
  Method.zoom (·.writer) (fun v s => { s with writer := v }) (x.mapErr IpcError.ofIo)

section

variable {E : Env (IoRes X Y) W} {s : Channel R V} {w : W}

theorem onReader_ok {x : Method (IoRes X Y) IpcError (BufReader R) α}
    {P : α → BufReader R → W → Prop} (h : Always E (succeeds P) (x s.reader) w) :
    Always E (succeeds fun a s' v => ∃ r, P a r v ∧ s' = { s with reader := r })
      (onReader x s) w :=
  (always_zoom_ok h).mono fun _ _ ho => ho

theorem onWriter_ok {x : Method (IoRes X Y) ErrorKind (BufWriter V) α}
    {P : α → BufWriter V → W → Prop} (h : Always E (succeeds P) (x s.writer) w) :
    Always E (succeeds fun a s' v => ∃ t, P a t v ∧ s' = { s with writer := t })
      (onWriter x s) w :=
  (always_zoom_ok (always_mapErr_ok h)).mono fun _ _ ho => ho

theorem onReader_settles {I : W → Prop} {x : Method (IoRes X Y) IpcError (BufReader R) α}
    {P : α → BufReader R → W → Prop} {F : IpcError → BufReader R → W → Prop}
    (h : Safely E I (settles P F) (x s.reader) w) :
    Safely E I (settles (fun a s' v => ∃ r, P a r v ∧ s' = { s with reader := r })
      fun e s' v => ∃ r, F e r v ∧ s' = { s with reader := r }) (onReader x s) w :=
  (safely_zoom_settles h).settles_mono (fun _ _ _ _ hp => hp) fun _ _ _ _ hf => hf

theorem onWriter_settles {I : W → Prop} {x : Method (IoRes X Y) ErrorKind (BufWriter V) α}
    {P : α → BufWriter V → W → Prop} {F : BufWriter V → W → Prop}
    (h : Safely E I (settles P fun _ => F) (x s.writer) w) :
    Safely E I (settles (fun a s' v => ∃ t, P a t v ∧ s' = { s with writer := t })
      fun _ s' v => ∃ t, F t v ∧ s' = { s with writer := t }) (onWriter x s) w :=
  (safely_zoom_settles (safely_mapErr_settles h)).settles_mono (fun _ _ _ _ hp => hp)
    fun _ _ _ _ hf => hf

theorem onWriter_resolves {x : Method (IoRes X Y) ErrorKind (BufWriter V) α}
    {P : α → BufWriter V → W → Prop} {F : BufWriter V → W → Prop}
    (h : Always E (resolves P fun _ => F) (x s.writer) w) :
    Always E (resolves (fun a s' v => ∃ t, P a t v ∧ s' = { s with writer := t })
      fun _ s' v => ∃ t, F t v ∧ s' = { s with writer := t }) (onWriter x s) w :=
  (always_zoom_resolves (always_mapErr_resolves h)).mono fun _ _ ho => ho

theorem onWriter_whenOk {I : W → Prop} {x : Method (IoRes X Y) ErrorKind (BufWriter V) α}
    {P : α → BufWriter V → W → Prop} (h : Safely E I (whenOk P) (x s.writer) w) :
    Safely E I (whenOk fun a s' v => ∃ t, P a t v ∧ s' = { s with writer := t })
      (onWriter x s) w :=
  (onWriter_settles h).settles_mono (fun _ _ _ _ hp => hp) fun _ _ _ _ _ => trivial

end

/-! ### Sending -/

/-- How every packet is sent: one `write`, whose count is dropped, and a `flush`. -/
def sendBytes [Write V] (bytes : Bytes) : Method (IoRes X Y) IpcError (Channel R V) Unit := do
  let _ ← onWriter (Write.write bytes)
  onWriter Write.flush

/-- From an empty buffer a packet goes out by one write, whatever the capacity, or fails. -/
theorem sendBytes_accepts [Write V] {E : Env (IoRes X Y) W} {s : Channel R V} {w : W} {bs : Bytes}
    {P F : W → Prop} (h : Accepts E s.writer.inner w bs P F) (hne : bs ≠ [])
    (hb : s.writer.buf = []) :
    Always E (resolves (fun _ s' w' => s' = s ∧ P w')
      fun _ s' w' => s'.writer.inner = s.writer.inner ∧ F w') (sendBytes bs s) w := by
  refine always_seq_resolves (onWriter_resolves (BufWriter.write_accepts h hb)) ?_ ?_
  · rintro _ _ w₁ ⟨t, ht, rfl⟩
    refine (onWriter_resolves (BufWriter.flush_accepts h hne hb ht)).mono (resolves_mono ?_ ?_)
    · rintro _ _ w₂ ⟨_, ⟨rfl, hp⟩, rfl⟩
      exact ⟨rfl, hp⟩
    · rintro _ _ w₂ ⟨_, hf, rfl⟩
      exact hf
  · rintro _ _ w₁ ⟨_, hf, rfl⟩
    exact hf

/-- Where no write fails, it goes out. -/
theorem sendBytes_taken [Write V] {E : Env (IoRes X Y) W} {s : Channel R V} {w : W} {bs : Bytes}
    {P : W → Prop} (h : Accepts E s.writer.inner w bs P fun _ => False) (hne : bs ≠ [])
    (hb : s.writer.buf = []) :
    Always E (succeeds fun _ s' w' => s' = s ∧ P w') (sendBytes bs s) w := by
  refine (sendBytes_accepts h hne hb).mono fun o w' ho => ?_
  exact succeeds_of_resolves (fun _ _ _ hp => hp) o w'
    (resolves_mono (fun _ _ _ hp => hp) (fun _ _ _ hf => hf.2) o w' ho)

/-- To a writer that refuses nothing is sent, whatever is buffered. -/
theorem sendBytes_refused [Write V] {E : Env (IoRes X Y) W} {s : Channel R V} {w : W} {bs : Bytes}
    {F : W → Prop} (h : Refuses E s.writer.inner F) (hne : bs ≠ []) (hw : F w) :
    Always E (fails fun _ s' w' => s'.writer.inner = s.writer.inner ∧ F w')
      (sendBytes bs s) w := by
  refine always_seq_resolves (onWriter_resolves (BufWriter.write_refused h hw hne)) ?_ ?_
  · rintro _ _ w₁ ⟨t, ⟨hi, hb, hf⟩, rfl⟩
    refine (always_zoom_err (always_mapErr_err (BufWriter.flush_refused (hi ▸ h) hf hb))).mono
      (fails_mono ?_)
    rintro _ _ w₂ ⟨_, ⟨_, -, hi', hf'⟩, rfl⟩
    exact ⟨hi'.trans hi, hf'⟩
  · rintro _ _ w₁ ⟨_, hf, rfl⟩
    exact hf

/-- From an empty buffer a packet goes out to a sink by one write. -/
theorem sendBytes_once {E : Env (IoRes X Y) W} {s : Channel R Sink} {w : W} {bs : Bytes}
    {P : W → Prop} (h : TakesOnce E w bs P) (hne : bs ≠ []) (hb : s.writer.buf = []) :
    Always E (succeeds fun _ s' w' => s' = s ∧ P w') (sendBytes bs s) w := by
  refine (sendBytes_accepts (Sink.accepts h) hne hb).mono fun o w' ho => ?_
  exact succeeds_of_resolves (fun _ _ _ hp => hp) o w'
    (resolves_mono (fun _ _ _ hp => hp) (fun _ _ _ hf => hf.2) o w' ho)

/-- A successful send leaves an empty buffer, whatever the writer. -/
theorem sendBytes_empties [Write V] {E : Env (IoRes X Y) W} (s : Channel R V) (bs : Bytes)
    (w : W) : Safely E (fun _ => True) (whenOk fun _ s' _ => s'.writer.buf = [])
      (sendBytes bs s) w := by
  refine safely_seq_whenOk (safely_any _ _ _) fun _ s₁ w₁ _ => ?_
  refine (onWriter_whenOk (P := fun _ t _ => t.buf = []) ?_).whenOk_mono ?_
  · refine safely_seq_whenOk (BufWriter.flushBuf_empties _ _) fun _ t w' ht => ?_
    apply (safely_zoom_whenOk (safely_any _ _ _)).whenOk_mono
    rintro _ _ _ ⟨_, -, rfl⟩
    exact ht
  · rintro _ _ _ ⟨_, ht, rfl⟩
    exact ht

theorem sendBytes_keeps {E : Env (IoRes X Y) W} {I : W → Prop} {mayPanic : Prop}
    (hwrite : ∀ {w bs r w'}, I w → E.step w (.write bs) r w' → I w')
    (hflush : ∀ {w r w'}, I w → E.step w .flush r w' → I w') (bs : Bytes) :
    KeepsWorld E I mayPanic (sendBytes bs : Method (IoRes X Y) IpcError (Channel R Sink) Unit) := by
  have hw : ∀ bs, KeepsWorld E I mayPanic
      (Write.write bs : Method (IoRes X Y) ErrorKind Sink Nat) := Sink.write_keeps hwrite
  exact keeps_seq (keepsWorld_zoom (keeps_mapErr (BufWriter.write_keeps hw bs) _) _ _) fun _ =>
    keepsWorld_zoom (keeps_mapErr (BufWriter.flush_keeps hw (Sink.flush_keeps hflush)) _) _ _

variable [Allocator]

def sendRequest [Write V] [Serde Req] (req : Req) :
    Method (IoRes X Y) IpcError (Channel R V) Unit :=
  match Serde.toVec req with
  | none => Method.throw .serializeError
  | some serializedReq => sendBytes (RequestPacket.new serializedReq).serialize

/-- `json` is given by its bytes. -/
def sendJsonRequest [Write V] (json : Vec) : Method (IoRes X Y) IpcError (Channel R V) Unit :=
  sendBytes (RequestPacket.new json).serialize

def sendResponse [Write V] [Serde Resp] (resp : Resp) :
    Method (IoRes X Y) IpcError (Channel R V) Unit :=
  match Serde.toVec resp with
  | none => Method.throw .serializeError
  | some serializedResp => sendBytes (ResponsePacket.new 0 serializedResp).serialize

def sendErrorCode [Write V] (errorCode : ProtocolErrorCode) :
    Method (IoRes X Y) IpcError (Channel R V) Unit :=
  sendBytes (ResponsePacket.new errorCode.toU64 Vec.empty).serialize

/-! ### Receiving -/

def receiveRequest [Read R] [Serde Req] : Method (IoRes X Y) IpcError (Channel R V) Req := do
  let packet ← onReader RequestPacket.readFrom
  match Serde.fromSlice packet.payload.bytes with
  | some req => return req
  | none => Method.throw .deserializeError

/-- Nothing is received where the reads never end. -/
theorem receiveRequest_never [Read R] [Serde Req] {E : Env (IoRes X Y) W} {s : Channel R V} {w : W}
    (h : ∀ n, 0 < n → Always E (fun _ _ => False) (Read.read n s.reader.inner) w)
    (hb : s.reader.buf = []) :
    Always E (fun _ _ => False)
      (receiveRequest s : Prog (IoRes X Y) (Except IpcError Req × Channel R V)) w := by
  have hvlq : Always E (fun _ _ => False)
      (readNextVlq s.reader : Prog (IoRes X Y) (Except IpcError UInt64 × BufReader R)) w :=
    always_seq_never (always_iter_never (always_seq_never (always_map_never
      (BufReader.read_never h hb Nat.one_pos))))
  exact always_seq_never (always_map_never (always_seq_never hvlq))

/-- Read a response packet and turn a non-zero error code into an error. -/
def receivePacket [Read R] : Method (IoRes X Y) IpcError (Channel R V) ResponsePacket := do
  let packet ← onReader ResponsePacket.readFrom
  match ← Method.lift (ProtocolErrorCode.ofU64 packet.errorCode) with
  | .ok => return packet
  | e => Method.throw (.protocolError e)

def receiveResponse [Read R] [Serde Resp] : Method (IoRes X Y) IpcError (Channel R V) Resp := do
  let packet ← receivePacket
  match Serde.fromSlice packet.payload.bytes with
  | some resp => return resp
  | none => Method.throw .deserializeError

def receiveJsonResponse [Read R] : Method (IoRes X Y) IpcError (Channel R V) Bytes := do
  let packet ← receivePacket
  return fromUtf8Lossy packet.payload.bytes

/-! ### Calling and serving -/

def call [Read R] [Write V] [Serde Req] [Serde Resp] (req : Req) :
    Method (IoRes X Y) IpcError (Channel R V) Resp := do
  sendRequest req
  receiveResponse

/-- `receive_request().and_then(serve)`. -/
def receiveAndServe [Read R] [Serde Req]
    (serve : Req → Prog (IoRes X Y) (Except IpcError Resp)) :
    Method (IoRes X Y) IpcError (Channel R V) Resp := do
  let req ← receiveRequest
  let result ← Method.lift (serve req)
  Method.ofExcept result

/-- `receive_request().and_then(serve).and_then(send_response)`. -/
def handle [Read R] [Write V] [Serde Req] [Serde Resp]
    (serve : Req → Prog (IoRes X Y) (Except IpcError Resp)) :
    Method (IoRes X Y) IpcError (Channel R V) Unit := do
  let resp ← receiveAndServe serve
  sendResponse resp

/-- Tell the client about an error and hand it on; the `unwrap` panics when the
client cannot be told. -/
def notify [Write V] (e : IpcError) : Method (IoRes X Y) IpcError (Channel R V) α := do
  match ← Method.attempt (sendErrorCode (ProtocolErrorCode.ofIpcError e)) with
  | .ok () => Method.throw e
  | .error (_ : IpcError) => Method.panic

/-- One turn of the server loop. -/
def executeTurn [Read R] [Write V] [Serde Req] [Serde Resp]
    (serve : Req → Prog (IoRes X Y) (Except IpcError Resp)) (_ : Unit) :
    Method (IoRes X Y) IpcError (Channel R V) (Unit ⊕ Unit) := do
  match ← Method.attempt (handle serve) with
  | .ok () => return .inl ()
  | .error e => notify e

def execute [Read R] [Write V] [Serde Req] [Serde Resp]
    (serve : Req → Prog (IoRes X Y) (Except IpcError Resp)) :
    Method (IoRes X Y) IpcError (Channel R V) Unit :=
  Method.iter (executeTurn serve) ()

/-- The server is cut short where its reads are. -/
theorem execute_cuts [Write V] [Serde Req] [Serde Resp] {i j : Read R} (h : Read.Cuts i j)
    (serve : Req → Prog (IoRes X Y) (Except IpcError Resp)) :
    Method.Cuts (@execute X Y R V Req Resp _ i _ _ _ serve)
      (@execute X Y R V Req Resp _ j _ _ _ serve) := by
  refine cuts_iter (fun _ => cuts_seq (cuts_attempt ?_) fun _ => cuts_refl _) _
  have hread : Method.Cuts (@receiveRequest X Y R V Req _ i _)
      (@receiveRequest X Y R V Req _ j _) :=
    cuts_seq (cuts_zoom (readFrom_cuts (BufReader.read_cuts h) _) _ _) fun _ => cuts_refl _
  exact cuts_seq (cuts_seq hread fun _ => cuts_refl _) fun _ => cuts_refl _

end Channel

end CkbScriptIpc
