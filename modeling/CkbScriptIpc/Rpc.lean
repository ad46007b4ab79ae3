import CkbScriptIpc.Receiving
import CkbScriptIpc.Service
import CkbScriptIpc.Interaction.Dialogue

/-!
# Remote procedure calls

A generated client and a generated server, `Channel::execute` driving its
`Serve` impl, over two pipes that cut the bytes into chunks. Each side is proved
against its script: `callAll_scripted` for the client and `runServer_scripted` for
the server.

* `rpc_end_to_end`: in every interleaving the methods called are the methods
  invoked, once each and in order, and every call returns what its invocation
  returned.
-/

namespace CkbScriptIpc

open Interaction

variable {X Y : Type}

section

variable [Allocator]

/-- `from_slice` undoes `to_vec` on `t`. -/
def RoundTrips {T : Type} [Serde T] (t : T) : Prop :=
  ((Serde.toVec t).bind fun v => Serde.fromSlice v.bytes) = some t

instance {T : Type} [Serde T] [DecidableEq T] (t : T) : Decidable (RoundTrips t) :=
  inferInstanceAs (Decidable (_ = _))

/-- The packet of a request that can be serialized. -/
def requestPacket {T : Type} [Serde T] (t : T) : RequestPacket :=
  RequestPacket.new ((Serde.toVec t).getD Vec.empty)

/-- The packet of a response that can be serialized. -/
def responsePacket {T : Type} [Serde T] (t : T) : ResponsePacket :=
  ResponsePacket.new 0 ((Serde.toVec t).getD Vec.empty)

end

/-! ## A channel that follows a script -/

/-- A source hands out the bytes that the script has it read. -/
theorem Source.delivers_scripted (L : List (Event X Y)) :
    Delivers scripted fun (_ : Source) w s => w = awaiting s L where
  chunk := by
    intro r w s n hw hs hn
    subst hw
    apply Always.call (scripted_pre_read hs hn)
    intro a w' hstep
    obtain ⟨c, t, ⟨hst, hc, hcn⟩, rfl, rfl⟩ := scripted_read hs hstep
    exact .ret ⟨t, hst, hc, hcn, rfl⟩

theorem takesOnce_scripted (bs : Bytes) (L : List (Event X Y)) :
    TakesOnce (scripted (ε := ErrorKind)) (.send bs :: L) bs (· = L) where
  pre := ⟨L, rfl⟩
  write := by
    intro r w' hstep
    obtain ⟨hL, rfl⟩ := hstep
    cases hL
    exact ⟨rfl, rfl⟩
  pre_flush _ := trivial
  flush := by
    intro v r v' hv hstep
    obtain ⟨rfl, rfl⟩ := hstep
    exact ⟨rfl, hv⟩

namespace Channel

/-- Nothing is buffered on either side. -/
def Clear (s : Channel Source Sink) : Prop := s.reader.buf = [] ∧ s.writer.buf = []

theorem new_clear (capacity : Nat) : Clear (new capacity Source.mk Sink.mk) := ⟨rfl, rfl⟩

variable {s : Channel Source Sink} {L : List (Event X Y)}

theorem sendBytes_scripted (hs : s.Clear) {bs : Bytes} (hne : bs ≠ []) :
    Always scripted (succeeds fun _ s' w => s' = s ∧ w = L) (sendBytes bs s) (.send bs :: L) :=
  sendBytes_once (takesOnce_scripted bs L) hne hs.2

/-- A clear channel has in front of it what the script has it read. -/
theorem Clear.view (hs : s.Clear) {bs : Bytes} (hne : bs ≠ []) :
    BufReader.view (fun (_ : Source) w t => w = awaiting t L) s.reader (.recv bs :: L)
      (bs ++ []) :=
  ⟨bs, by rw [hs.1, List.append_nil, List.nil_append], (awaiting_ne_nil hne L).symm⟩

/-- Once all that was awaited is read, nothing is buffered. -/
theorem clear_of_view {s' : Channel Source Sink} {w : List (Event X Y)} (hs : s.Clear)
    (hwriter : s'.writer = s.writer)
    (hview : BufReader.view (fun (_ : Source) w t => w = awaiting t L) s'.reader w []) :
    s'.Clear ∧ w = L := by
  obtain ⟨t, ht, rfl⟩ := hview
  obtain ⟨hbuf, rfl⟩ := List.append_eq_nil_iff.mp ht.symm
  exact ⟨⟨hbuf, by rw [hwriter]; exact hs.2⟩, awaiting_nil L⟩

variable [Allocator] {T : Type} [Serde T] {t : T}

theorem sendRequest_scripted (h : RoundTrips t) (hs : s.Clear) :
    Always scripted (succeeds fun _ s' w => s' = s ∧ w = L) (sendRequest t s)
      (.send (requestPacket t).serialize :: L) := by
  obtain ⟨v, hv, -⟩ := Option.bind_eq_some_iff.mp h
  simp only [sendRequest, requestPacket, hv]
  exact sendBytes_scripted hs (RequestPacket.serialize_ne_nil _)

theorem sendResponse_scripted (h : RoundTrips t) (hs : s.Clear) :
    Always scripted (succeeds fun _ s' w => s' = s ∧ w = L) (sendResponse t s)
      (.send (responsePacket t).serialize :: L) := by
  obtain ⟨v, hv, -⟩ := Option.bind_eq_some_iff.mp h
  simp only [sendResponse, responsePacket, hv]
  exact sendBytes_scripted hs (ResponsePacket.serialize_ne_nil _)

theorem receiveRequest_scripted (h : RoundTrips t) (hs : s.Clear) :
    Always scripted (succeeds fun t' s' w => t' = t ∧ s'.Clear ∧ w = L) (receiveRequest s)
      (.recv (requestPacket t).serialize :: L) := by
  obtain ⟨v, hv, hv'⟩ := Option.bind_eq_some_iff.mp h
  have hread := RequestPacket.readFrom_serialize
    (BufReader.delivers (Source.delivers_scripted L)) (requestPacket t) [] s.reader _
    (hs.view (RequestPacket.serialize_ne_nil _))
  apply always_seq_ok (onReader_ok hread)
  intro packet s' w hpacket
  obtain ⟨r, ⟨rfl, hview⟩, rfl⟩ := hpacket
  simp only [requestPacket, hv, Option.getD_some, RequestPacket.new, hv']
  exact .ret ⟨rfl, clear_of_view hs rfl hview⟩

theorem receiveResponse_scripted (h : RoundTrips t) (hs : s.Clear) :
    Always scripted (succeeds fun t' s' w => t' = t ∧ s'.Clear ∧ w = L) (receiveResponse s)
      (.recv (responsePacket t).serialize :: L) := by
  obtain ⟨v, hv, hv'⟩ := Option.bind_eq_some_iff.mp h
  have hcode : ProtocolErrorCode.n (responsePacket t).errorCode = some .ok :=
    ProtocolErrorCode.n_toU64 .ok
  have hread := receivePacket_ok (Source.delivers_scripted L)
    (hs.view (ResponsePacket.serialize_ne_nil (responsePacket t))) hcode
  apply always_seq_ok hread
  intro packet s' w hpacket
  obtain ⟨rfl, hwriter, hview⟩ := hpacket
  simp only [responsePacket, hv, Option.getD_some, ResponsePacket.new, hv']
  exact .ret ⟨rfl, clear_of_view hs hwriter hview⟩

theorem call_scripted {U : Type} [Serde U] {u : U} (ht : RoundTrips t) (hu : RoundTrips u)
    (hs : s.Clear) :
    Always scripted (succeeds fun u' s' w => u' = u ∧ s'.Clear ∧ w = L) (call t s)
      (.send (requestPacket t).serialize :: .recv (responsePacket u).serialize :: L) := by
  apply always_seq_ok (sendRequest_scripted ht hs)
  intro _ s' w hsent
  obtain ⟨rfl, rfl⟩ := hsent
  exact receiveResponse_scripted hu hs

/-- At the end of the script the server waits for a request. -/
theorem receiveRequest_listen (hs : s.Clear) :
    Always scripted (fun _ _ => False)
      (receiveRequest s : Prog (IoRes X Y) (Except IpcError T × Channel Source Sink))
      [.listen] :=
  receiveRequest_never (fun _ hn => scripted_listen hn) hs.1

end Channel

/-! ## The two parties -/

namespace Service

section

variable [Lowercase] [Allocator] {svc : Service} {A B σ : Type} [Serde (svc.Request A)]
  [Serde (svc.Response B)]

/-- A call travels as its request, and what it returns as a response; `answer` is the service,
whose methods work on its state. -/
def protocol (answer : σ → svc.Call A → B × σ) : Protocol (svc.Call A) B σ where
  request c := (requestPacket c.request).serialize
  reply c ret := (responsePacket (c.response ret)).serialize
  answer := answer
  request_ne_nil _ := RequestPacket.serialize_ne_nil _
  reply_ne_nil _ _ := ResponsePacket.serialize_ne_nil _

variable {s : Channel Source Sink} {c : svc.Call A} {ret : B}

theorem stub_scripted {L : List (Event X Y)} (hreq : RoundTrips c.request)
    (hresp : RoundTrips (c.response ret)) (hs : s.Clear) :
    Always scripted (returns fun r w => r.1 = ret ∧ r.2.Clear ∧ w = L) (stub c s)
      (.send (requestPacket c.request).serialize ::
        .recv (responsePacket (c.response ret)).serialize :: L) := by
  apply always_bind_ok (Channel.call_scripted hreq hresp hs)
  intro resp s' w hresp
  obtain ⟨rfl, hs', hw⟩ := hresp
  simp only [Call.response, ↓reduceIte]
  exact .ret ⟨rfl, hs', hw⟩

variable {answer : σ → svc.Call A → B × σ}

/-- What serialization must do for the calls `cs`: undo itself on their requests and on
the responses that the service may give. -/
def Faithful (answer : σ → svc.Call A → B × σ) (cs : List (svc.Call A)) : Prop :=
  ∀ c ∈ cs, RoundTrips c.request ∧ ∀ st, RoundTrips (c.response (answer st c).1)

/-- **Client.** The stubs follow the client's script and return the answers. -/
theorem callAll_scripted {cs : List (svc.Call A)} {st : σ} (h : Faithful answer cs)
    (hs : s.Clear) :
    Always scripted
      (returns fun r w => r.1 = ((protocol answer).answers st cs).map Prod.snd ∧ w = [])
      (callAll cs s) ((protocol answer).clientScript st cs) := by
  induction cs generalizing s st with
  | nil => exact .ret ⟨rfl, rfl⟩
  | cons c cs ih =>
    obtain ⟨hreq, hresp⟩ := h c (by simp)
    apply always_bind_returns (stub_scripted hreq (hresp st) hs)
    intro r w hr
    obtain ⟨ret, s'⟩ := r
    obtain ⟨rfl, hs', rfl⟩ := hr
    apply always_bind_returns (ih (fun c' hc' => h c' (by simp [hc'])) hs')
    intro r w hr
    obtain ⟨rets, s''⟩ := r
    obtain ⟨rfl, rfl⟩ := hr
    exact .ret ⟨rfl, rfl⟩

section

variable {L : List (Event (svc.Call A) B)}

omit [Allocator] [Serde (svc.Request A)] [Serde (svc.Response B)] in
/-- The generated `serve` invokes the method called, and no other. -/
theorem serve_scripted :
    Always scripted (returns fun r w => r = .ok (c.response ret) ∧ w = L) (serve c.request)
      (.ask c ret :: L) := by
  rw [serve_request]
  refine .call ⟨ret, L, rfl⟩ ?_
  intro r w hstep
  cases hstep
  exact .ret ⟨rfl, rfl⟩

omit [Serde (svc.Response B)] in
theorem receiveAndServe_scripted (hreq : RoundTrips c.request) (hs : s.Clear) :
    Always scripted (succeeds fun resp s' w => resp = c.response ret ∧ s'.Clear ∧ w = L)
      (Channel.receiveAndServe serve s)
      (.recv (requestPacket c.request).serialize :: .ask c ret :: L) := by
  apply always_seq_ok (Channel.receiveRequest_scripted hreq hs)
  intro req s' w hreq
  obtain ⟨rfl, hs', rfl⟩ := hreq
  apply always_seq_ok (always_lift_ok serve_scripted)
  intro result s'' w hresult
  obtain ⟨⟨rfl, rfl⟩, rfl⟩ := hresult
  exact .ret ⟨rfl, hs', rfl⟩

/-- A turn of the server serves the call whose request arrives. -/
theorem executeTurn_scripted (hreq : RoundTrips c.request) (hresp : RoundTrips (c.response ret))
    (hs : s.Clear) :
    Always scripted (succeeds fun x s' w => x = .inl () ∧ s'.Clear ∧ w = L)
      (Channel.executeTurn serve () s)
      (.recv (requestPacket c.request).serialize :: .ask c ret ::
        .send (responsePacket (c.response ret)).serialize :: L) := by
  have hhandle : Always scripted (succeeds fun _ s' w => s'.Clear ∧ w = L)
      (Channel.handle serve s) (.recv (requestPacket c.request).serialize :: .ask c ret ::
        .send (responsePacket (c.response ret)).serialize :: L) := by
    apply always_seq_ok (receiveAndServe_scripted hreq hs)
    intro resp s' w hserved
    obtain ⟨rfl, hs', rfl⟩ := hserved
    apply (Channel.sendResponse_scripted hresp hs').mono (succeeds_mono _)
    intro _ s'' w hsent
    obtain ⟨rfl, hw⟩ := hsent
    exact ⟨hs', hw⟩
  apply always_seq_ok (always_attempt_ok hhandle)
  intro result s' w hresult
  obtain ⟨_, rfl, hs', hw⟩ := hresult
  exact .ret ⟨rfl, hs', hw⟩

end

/-- **Server.** `execute` follows the server's script; it neither panics nor returns. -/
theorem runServer_scripted {cs : List (svc.Call A)} {st : σ} (h : Faithful answer cs)
    (hs : s.Clear) :
    Always scripted (fun _ _ => False) (runServer s) ((protocol answer).serverScript st cs) := by
  induction cs generalizing s st with
  | nil =>
    have hhandle : Always scripted (fun _ _ => False)
        (Channel.handle (serve : svc.Request A → Prog (IoRes (svc.Call A) B) _) s) [.listen] :=
      always_seq_never (always_seq_never (Channel.receiveRequest_listen hs))
    exact always_iter_never (always_seq_never (always_map_never hhandle))
  | cons c cs ih =>
    obtain ⟨hreq, hresp⟩ := h c (by simp)
    apply always_iter_next (executeTurn_scripted hreq (hresp st) hs)
    · intro _ s' w hturn
      obtain ⟨-, hs', rfl⟩ := hturn
      exact ih (fun c' hc' => h c' (by simp [hc'])) hs'
    · intro _ s' w hturn
      cases hturn.1

/-! ## Both together -/

/-- A client that makes `calls` and the server, each behind a fresh channel, with nothing in
the pipes. -/
def system (calls : List (svc.Call A)) (k l : Nat) (st : σ) :
    Pair (IoRes (svc.Call A) B) (List B × Channel Source Sink)
      (Except IpcError Unit × Channel Source Sink) (Net (svc.Call A) B σ) :=
  Protocol.start (callAll calls (Channel.new k Source.mk Sink.mk))
    (runServer (Channel.new l Source.mk Sink.mk)) st

/-- The states that some interleaving reaches. -/
def Reaches (answer : σ → svc.Call A → B × σ) (calls : List (svc.Call A)) (k l : Nat) (st : σ) :=
  Pair.Reach clientEnd (serverEnd answer) (system calls k l st)

/-- What holds of the client and the server in every interleaving of their steps. -/
structure EndToEnd (answer : σ → svc.Call A → B × σ) (calls : List (svc.Call A)) (k l : Nat)
    (st : σ) : Prop where
  /-- No stub panics, and the server does not. -/
  no_panic : ∀ {x}, Reaches answer calls k l st x → x.left ≠ .panic ∧ x.right ≠ .panic
  /-- The invocations so far are the first calls, in order. -/
  invoked : ∀ {x}, Reaches answer calls k l st x → x.world.log.map Prod.fst <+: calls
  /-- When the last stub has returned, every call has been invoked, and the stubs have
  returned what the invocations have. -/
  returned : ∀ {x rets s}, Reaches answer calls k l st x → x.left = .ret (rets, s) →
    x.world.log.map Prod.fst = calls ∧ rets = x.world.log.map Prod.snd
  /-- Every run is finite. -/
  terminates : Pair.Terminates clientEnd (serverEnd answer) (system calls k l st)
  /-- Where neither can take a step, the last stub has returned. -/
  no_deadlock : ∀ {x}, Reaches answer calls k l st x →
    Pair.AtRest clientEnd (serverEnd answer) x → ∃ rets s, x.left = .ret (rets, s)

/-- **Remote procedure calls are correct end to end**, for every service, every list of
calls and every capacity of the buffers. -/
theorem rpc_end_to_end (answer : σ → svc.Call A → B × σ) (calls : List (svc.Call A)) (k l : Nat)
    (st : σ) (h : Faithful answer calls) : EndToEnd answer calls k l st := by
  have hdialogue : (protocol answer).Succeeds (callAll calls (Channel.new k Source.mk Sink.mk))
      (runServer (Channel.new l Source.mk Sink.mk)) st calls
      fun r => r.1 = ((protocol answer).answers st calls).map Prod.snd :=
    Protocol.dialogue (callAll_scripted h (Channel.new_clear k))
      (runServer_scripted h (Channel.new_clear l))
  constructor
  · exact hdialogue.no_panic
  · intro x hr
    have hlog := (hdialogue.in_order hr).map Prod.fst
    rwa [Protocol.answers_fst] at hlog
  · intro x rets s hr hx
    obtain ⟨hrets, hlog⟩ := hdialogue.returned hr hx
    rw [hlog]
    exact ⟨Protocol.answers_fst _ _ _, hrets⟩
  · exact hdialogue.terminates
  · intro x hr hrest
    obtain ⟨⟨rets, s⟩, hx⟩ := hdialogue.at_rest hr hrest
    exact ⟨rets, s, hx⟩

end

/-! ## The service `World` -/

section

attribute [local instance] Allocator.ample Lowercase.ascii

/-- `trait World`, with its one method `hello`. -/
def world : Service := ⟨[⟨"hello", "Hello", by decide⟩], by decide⟩

/-- The bytes of a text in ASCII. -/
def ascii (text : String) : Bytes := text.toList.map fun c => UInt8.ofNat c.toNat

def hello (name : String) : world.Call Bytes := ⟨⟨_, List.mem_singleton_self _⟩, ascii name⟩

/-- The user's `hello`, which knows one name that is an error. -/
def answerHello (_ : Unit) (c : world.Call Bytes) : Except UInt64 Bytes × Unit :=
  (if c.args = ascii "error" then .error 1 else .ok (ascii "hello, " ++ c.args), ())

def helloCalls : List (world.Call Bytes) := [hello "world", hello "error"]

/-- The JSON of a request for a name without escapes. -/
def requestJson (name : Bytes) : Bytes :=
  ascii "\x7b\"Hello\":\x7b\"name\":\"" ++ name ++ ascii "\"\x7d\x7d"

def responseJson : Except UInt64 Bytes → Bytes
  | .ok text => ascii "\x7b\"Hello\":\x7b\"Ok\":\"" ++ text ++ ascii "\"\x7d\x7d"
  | .error n => ascii "\x7b\"Hello\":\x7b\"Err\":" ++ ascii (toString n.toNat) ++ ascii "\x7d\x7d"

/-- What `serde_json` gives for the requests of the two calls. -/
@[reducible] def requestCodec : Serde (world.Request Bytes) where
  toVec request :=
    if h : (requestJson request.args).length ≤ isizeMax then some ⟨_, h⟩ else none
  fromSlice bytes := (helloCalls.map Call.request).find? fun r => requestJson r.args = bytes

/-- What it gives for their responses. -/
@[reducible] def responseCodec : Serde (world.Response (Except UInt64 Bytes)) where
  toVec response :=
    if h : (responseJson response.ret).length ≤ isizeMax then some ⟨_, h⟩ else none
  fromSlice bytes :=
    (helloCalls.map fun c => c.response (answerHello () c).1).find? fun r =>
      responseJson r.ret = bytes

attribute [local instance] requestCodec responseCodec

/-- Two calls, through buffers of eight bytes. -/
theorem hello_end_to_end : EndToEnd answerHello helloCalls 8 8 () := by
  apply rpc_end_to_end
  intro c hc
  rw [helloCalls, List.mem_cons, List.mem_singleton] at hc
  rcases hc with rfl | rfl
  · exact ⟨by decide +kernel, fun () => by decide +kernel⟩
  · exact ⟨by decide +kernel, fun () => by decide +kernel⟩

end

end Service

end CkbScriptIpc
