import CkbScriptIpc.Rpc
import CkbScriptIpc.Execute
import CkbScriptIpc.Interaction.Pacing

/-!
# Sessions that may fail

`Channel::execute` with a service that may fail and a codec that may refuse, and at the other
end a client that calls, sends JSON of its own, or is a program of the C library. What both
make of a list of requests is `replies`: one reply for each request, up to the first error.

* `execute_replies`: the server follows the replies, and returns the error in the last;
* `session_end_to_end`: in every interleaving a client gets them too, call by call.
-/

namespace CkbScriptIpc

open Interaction

variable {X Y W Req Resp σ : Type}

section

variable [Allocator]

/-! ## What the server replies -/

/-- A request packet of any peer. -/
structure Incoming where
  version : UInt64
  methodId : UInt64
  payload : Vec

def Incoming.wire (q : Incoming) : Bytes := wirePacket q.version q.methodId q.payload.bytes

/-- The payload that goes back for a request, or the error that its packet stands for, what the
service has been asked in between, and its next state. -/
structure Reply (Req Resp σ : Type) where
  sent : Except IpcError Vec
  asked : List (Req × Except IpcError Resp)
  state : σ

namespace Reply

def packet (r : Reply Req Resp σ) : ResponsePacket :=
  match r.sent with
  | .ok payload => ResponsePacket.new 0 payload
  | .error e => Channel.errorPacket e

def failed (r : Reply Req Resp σ) : Bool := r.sent.toBool.not

end Reply

section

variable [Serde Req] [Serde Resp] (answer : σ → Req → Except IpcError Resp × σ)

/-- The payload of a result. -/
def responsePayload : Except IpcError Resp → Except IpcError Vec
  | .ok resp => (Serde.toVec resp).elim (.error .serializeError) .ok
  | .error e => .error e

/-- One request: deserialize it, ask the service, serialize what it says. -/
def reply (st : σ) (payload : Vec) : Reply Req Resp σ :=
  match Serde.fromSlice payload.bytes with
  | none => ⟨.error .deserializeError, [], st⟩
  | some req =>
    ⟨responsePayload (answer st req).1, [(req, (answer st req).1)], (answer st req).2⟩

/-- One request after the other, up to the first error. -/
def replies : σ → List Incoming → List (Incoming × Reply Req Resp σ)
  | _, [] => []
  | st, q :: qs =>
    let r := reply answer st q.payload
    (q, r) :: if r.failed then [] else replies r.state qs

end

/-- A request and its reply, on the wire. -/
def sessionRound (x : Incoming × Reply Req Resp σ) : Round Req (Except IpcError Resp) :=
  ⟨x.1.wire, x.2.asked, x.2.packet.serialize, wirePacket_ne_nil _ _ _, x.2.packet.serialize_ne_nil⟩

/-- The error with which the server ends, if it ends. -/
def failure (xs : List (Incoming × Reply Req Resp σ)) : Option IpcError :=
  xs.findSome? fun x => match x.2.sent with
    | .ok _ => none
    | .error e => some e

section

variable [Serde Req] [Serde Resp] {answer : σ → Req → Except IpcError Resp × σ} {st : σ}
  {q : Incoming} {e : IpcError} {payload : Vec} {xs : List (Incoming × Reply Req Resp σ)}

theorem replies_error (qs : List Incoming) (h : (reply answer st q.payload).sent = .error e) :
    replies answer st (q :: qs) = [(q, reply answer st q.payload)] := by
  simp only [replies, Reply.failed, h]
  rfl

theorem replies_ok (qs : List Incoming) (h : (reply answer st q.payload).sent = .ok payload) :
    replies answer st (q :: qs) = (q, reply answer st q.payload) ::
      replies answer (reply answer st q.payload).state qs := by
  simp only [replies, Reply.failed, h]
  rfl

omit [Serde Req] [Serde Resp] in
theorem failure_error {r : Reply Req Resp σ} (h : r.sent = .error e) :
    failure ((q, r) :: xs) = some e := by
  simp only [failure, List.findSome?_cons, h]

omit [Serde Req] [Serde Resp] in
theorem failure_ok {r : Reply Req Resp σ} (h : r.sent = .ok payload) :
    failure ((q, r) :: xs) = failure xs := by
  simp only [failure, List.findSome?_cons, h]

end

/-! ## One turn of the server -/

namespace Channel

section

variable {R V : Type} [Read R] [Write V] [Serde Req] [Serde Resp]
  {E : Env (IoRes Req (Except IpcError Resp)) W} {answer : σ → Req → Except IpcError Resp × σ}
  {st : σ} {q : Incoming} {A B C : Channel R V → W → Prop} {s : Channel R V} {w : W}

/-- How the environment of a server treats one request: `A` holds behind the packet, `B` when the
service has answered, and `C` when the reply is sent. -/
structure Treats (E : Env (IoRes Req (Except IpcError Resp)) W)
    (answer : σ → Req → Except IpcError Resp × σ) (st : σ) (q : Incoming)
    (A B C : Channel R V → W → Prop) : Prop where
  pre_ask : ∀ {req s w}, Serde.fromSlice q.payload.bytes = some req → A s w → E.pre w (.ext req)
  ask : ∀ {req s w r w'}, Serde.fromSlice q.payload.bytes = some req → A s w →
    E.step w (.ext req) r w' → r = (answer st req).1 ∧ B s w'
  unasked : ∀ {s w}, (Serde.fromSlice q.payload.bytes : Option Req) = none → A s w → B s w
  send : ∀ {s w}, B s w → Always E (succeeds fun _ s' w' => C s' w')
    (sendBytes (reply answer st q.payload).packet.serialize s) w

/-- What the server does up to its reply. -/
theorem receiveAndServe_reply (h : Treats E answer st q A B C)
    (hread : Always E (succeeds fun p s' w' => p.payload = q.payload ∧ A s' w')
      (onReader RequestPacket.readFrom s) w) :
    Always E (resolves
        (fun resp s' w => (reply answer st q.payload).sent = responsePayload (.ok resp) ∧ B s' w)
        fun e s' w => (reply answer st q.payload).sent = .error e ∧ B s' w)
      (receiveAndServe served s) w := by
  cases hreq : (Serde.fromSlice q.payload.bytes : Option Req) with
  | none =>
    have hreceive : Always E (fails fun e s' w => (reply answer st q.payload).sent = .error e ∧
        B s' w) ((receiveRequest : Method _ _ _ Req) s) w := by
      apply always_seq_ok hread
      rintro p s' w ⟨hp, ha⟩
      rw [hp, hreq]
      simp only [reply, hreq]
      exact .ret ⟨rfl, h.unasked hreq ha⟩
    exact always_seq_err hreceive fun _ _ _ h => h
  | some req =>
    apply always_seq_ok (P := fun req' s' w => req' = req ∧ A s' w)
    · apply always_seq_ok hread
      rintro p s' w ⟨hp, ha⟩
      rw [hp, hreq]
      exact .ret ⟨rfl, ha⟩
    · rintro req' s' w ⟨rfl, ha⟩
      refine .call (h.pre_ask hreq ha) fun r w' hstep => ?_
      obtain ⟨hr, hb⟩ := h.ask hreq ha hstep
      simp only [reply, hreq, ← hr]
      cases r with
      | ok resp => exact .ret ⟨rfl, hb⟩
      | error e => exact .ret ⟨rfl, hb⟩

/-- One request, up to the packet that tells the client about an error. -/
theorem handle_reply (h : Treats E answer st q A B C)
    (hread : Always E (succeeds fun p s' w' => p.payload = q.payload ∧ A s' w')
      (onReader RequestPacket.readFrom s) w) :
    Always E (resolves (fun _ s' w => (reply answer st q.payload).failed = false ∧ C s' w)
        fun e s' w => (reply answer st q.payload).sent = .error e ∧ B s' w)
      (handle served s) w := by
  refine always_seq_resolves (receiveAndServe_reply h hread) ?_ fun _ _ _ h => h
  rintro resp s' w ⟨hsent, hb⟩
  cases hv : Serde.toVec resp with
  | none =>
    have hfail : (reply answer st q.payload).sent = .error .serializeError := by
      simp only [hsent, responsePayload, hv, Option.elim]
    rw [sendResponse, hv]
    exact .ret ⟨hfail, hb⟩
  | some v =>
    have hok : (reply answer st q.payload).sent = .ok v := by
      simp only [hsent, responsePayload, hv, Option.elim]
    have hsend := h.send hb
    rw [Reply.packet, hok] at hsend
    rw [sendResponse, hv]
    refine hsend.mono fun o w' ho => resolves_of_succeeds o w' (succeeds_mono ?_ o w' ho)
    exact fun _ _ _ hc => ⟨by rw [Reply.failed, hok]; rfl, hc⟩

/-- A turn of the server goes through, or ends with the error of which it has told the client. -/
theorem executeTurn_reply (h : Treats E answer st q A B C)
    (hread : Always E (succeeds fun p s' w' => p.payload = q.payload ∧ A s' w')
      (onReader RequestPacket.readFrom s) w) :
    Always E (resolves
        (fun x s' w => x = .inl () ∧ (reply answer st q.payload).failed = false ∧ C s' w)
        fun e s' w => (reply answer st q.payload).sent = .error e ∧ C s' w)
      (executeTurn served () s) w := by
  apply always_seq_ok (always_attempt_resolves (handle_reply h hread))
  rintro _ s' w (⟨_, rfl, hok, hc⟩ | ⟨e, rfl, he, hb⟩)
  · exact .ret ⟨rfl, hok, hc⟩
  · have hsend := h.send hb
    rw [Reply.packet, he] at hsend
    apply always_seq_ok (always_attempt_ok hsend)
    rintro _ s'' w ⟨_, rfl, hc⟩
    exact .ret ⟨he, hc⟩

end

/-! ## Channels that follow a script -/

/-- With `At L` a channel has the events `L` in front of it: what it is to read and to send, and
what the service is to be asked. -/
structure Follows {R V : Type} [Read R] [Write V] (E : Env (IoRes X Y) W)
    (At : List (Event X Y) → Channel R V → W → Prop) : Prop where
  recv : ∀ {P : Type} (make : UInt8 → UInt64 → Vec → P) {version code payload L s w},
    At (.recv (wirePacket version code payload.bytes) :: L) s w →
    Always E (succeeds fun p s' w' => p = make version.toUInt8 code payload ∧ At L s' w')
      (onReader (readFrom make) s) w
  send : ∀ {bs L s w}, bs ≠ [] → At (.send bs :: L) s w →
    Always E (succeeds fun _ s' w' => At L s' w') (sendBytes bs s) w
  ask : ∀ {x y L s w}, At (.ask x y :: L) s w →
    E.pre w (.ext x) ∧ ∀ {r w'}, E.step w (.ext x) r w' → r = y ∧ At L s w'
  listen : ∀ {T : Type} [Serde T] {s w}, At [.listen] s w → Always E (fun _ _ => False)
    (receiveRequest s : Prog (IoRes X Y) (Except IpcError T × Channel R V)) w

/-- The environment of a script, with nothing buffered. -/
theorem follows_scripted :
    Follows (scripted (X := X) (Y := Y)) fun L (s : Channel Source Sink) w => s.Clear ∧ w = L where
  recv := by
    rintro P make version code payload L s w ⟨hs, rfl⟩
    have hview := hs.view (L := L) (wirePacket_ne_nil version code payload.bytes)
    refine (onReader_ok (readFrom_wirePacket make
      (BufReader.delivers (Source.delivers_scripted L)) hview)).mono (succeeds_mono ?_)
    rintro _ _ w ⟨r, ⟨rfl, hview⟩, rfl⟩
    exact ⟨rfl, clear_of_view hs rfl hview⟩
  send := by
    rintro bs L s w hne ⟨hs, rfl⟩
    refine (sendBytes_scripted hs hne).mono (succeeds_mono ?_)
    rintro _ _ w ⟨rfl, rfl⟩
    exact ⟨hs, rfl⟩
  ask := by
    rintro x y L s w ⟨hs, rfl⟩
    refine ⟨⟨y, L, rfl⟩, fun hstep => ?_⟩
    cases hstep
    exact ⟨rfl, hs, rfl⟩
  listen := by
    rintro T _ s w ⟨hs, rfl⟩
    exact receiveRequest_listen hs

section

variable {R V : Type} [Read R] [Write V] [Serde Req] [Serde Resp]
  {E : Env (IoRes Req (Except IpcError Resp)) W} {answer : σ → Req → Except IpcError Resp × σ}
  {st : σ} {At : List (Event Req (Except IpcError Resp)) → Channel R V → W → Prop}
  {s : Channel R V} {w : W}

/-- The script of a round treats its request. -/
theorem Follows.treats (h : Follows E At) (answer : σ → Req → Except IpcError Resp × σ) (st : σ)
    (q : Incoming) (L : List (Event Req (Except IpcError Resp))) :
    Treats E answer st q
      (At (serving (reply answer st q.payload).asked
        (reply answer st q.payload).packet.serialize L))
      (At (.send (reply answer st q.payload).packet.serialize :: L)) (At L) where
  pre_ask := by
    intro req s w hreq hs
    simp only [reply, hreq] at hs
    exact (h.ask hs).1
  ask := by
    intro req s w r w' hreq hs hstep
    simp only [reply, hreq] at hs ⊢
    exact (h.ask hs).2 hstep
  unasked := by
    intro s w hreq hs
    simp only [reply, hreq] at hs ⊢
    exact hs
  send hs := h.send (ResponsePacket.serialize_ne_nil _) hs

/-- **Server.** `execute` follows the replies, and returns the error in the last. -/
theorem execute_replies (h : Follows E At) {qs : List Incoming}
    (hs : At (serverEvents (failure (replies answer st qs)).isNone
      ((replies answer st qs).map sessionRound)) s w) :
    Always E (returns fun r w => (∃ e, failure (replies answer st qs) = some e ∧ r.1 = .error e) ∧
      At [] r.2 w) (execute served s) w := by
  induction qs generalizing s st w with
  | nil =>
    have hhandle : Always E (fun _ _ => False)
        (handle (served : Req → Prog (IoRes Req (Except IpcError Resp)) _) s) w :=
      always_seq_never (always_seq_never (h.listen hs))
    exact always_iter_never (always_seq_never (always_map_never hhandle))
  | cons q qs ih =>
    have hturn : ∀ L, At (.recv q.wire :: serving (reply answer st q.payload).asked
        (reply answer st q.payload).packet.serialize L) s w → Always E (resolves
          (fun x s' w => x = .inl () ∧ (reply answer st q.payload).failed = false ∧ At L s' w)
          fun e s' w => (reply answer st q.payload).sent = .error e ∧ At L s' w)
        (executeTurn served () s) w := by
      intro L hat
      refine executeTurn_reply (h.treats answer st q L)
        ((h.recv RequestPacket.mk hat).mono (succeeds_mono ?_))
      rintro _ s' w' ⟨rfl, hat'⟩
      exact ⟨rfl, hat'⟩
    cases hsent : (reply answer st q.payload).sent with
    | error e =>
      rw [replies_error qs hsent, failure_error hsent] at hs ⊢
      refine always_iter ((hturn [] hs).mono ?_)
      rintro (⟨e' | _, s'⟩ | _) w ho
      · obtain ⟨he, hat⟩ := ho
        rw [hsent] at he
        exact ⟨⟨e, rfl, congrArg _ (Except.error.inj he).symm⟩, hat⟩
      · obtain ⟨rfl, hok, -⟩ := ho
        rw [Reply.failed, hsent] at hok
        cases hok
      · exact ho.elim
    | ok payload =>
      rw [replies_ok qs hsent, failure_ok hsent] at hs ⊢
      refine always_iter ((hturn _ hs).mono ?_)
      rintro (⟨e' | _, s'⟩ | _) w ho
      · obtain ⟨he, -⟩ := ho
        rw [hsent] at he
        cases he
      · obtain ⟨rfl, -, hat⟩ := ho
        exact ih hat
      · exact ho.elim

end

end Channel

/-! ## A client of the same library -/

/-- What a client does through its channel: `call`, or `send_json_request` and then
`receive_json_response`. -/
inductive Ask (Req : Type) where
  | call (req : Req)
  | json (text : Vec)

/-- What comes back. -/
inductive Received (Resp : Type) where
  | value (resp : Resp)
  | text (bytes : Bytes)

namespace Ask

def payload [Serde Req] : Ask Req → Option Vec
  | call req => Serde.toVec req
  | json text => some text

def incoming (payload : Vec) : Incoming := ⟨0, 0, payload⟩

/-- What the client makes of a reply. -/
def seen [Serde Resp] (a : Ask Req) : Except IpcError Vec → Except IpcError (Received Resp)
  | .error e => .error (.protocolError (ProtocolErrorCode.ofIpcError e))
  | .ok payload => match a with
    | call _ => match Serde.fromSlice payload.bytes with
      | some resp => .ok (.value resp)
      | none => .error .deserializeError
    | json _ => .ok (.text (fromUtf8Lossy payload.bytes))

/-- The results of a client that gives up when the server reports an error. A request that cannot
be serialized is not sent. -/
def results [Serde Req] [Serde Resp] :
    List (Ask Req) → List (Incoming × Reply Req Resp σ) → List (Except IpcError (Received Resp))
  | [], _ => []
  | a :: as, xs =>
    match a.payload, xs with
    | none, xs => .error .serializeError :: results as xs
    | some _, [] => []
    | some _, x :: xs => a.seen x.2.sent :: if x.2.failed then [] else results as xs

variable [Serde Req] [Serde Resp] {a : Ask Req} {as : List (Ask Req)}
  {xs : List (Incoming × Reply Req Resp σ)} {payload : Vec}

theorem results_unsent (ha : a.payload = none) :
    results (a :: as) xs = .error .serializeError :: results as xs := by
  simp only [results, ha]

theorem results_error {x : Incoming × Reply Req Resp σ} {e : IpcError}
    (ha : a.payload = some payload) (hx : x.2.sent = .error e) :
    results (a :: as) (x :: xs) =
      [.error (.protocolError (ProtocolErrorCode.ofIpcError e))] := by
  simp only [results, ha, hx, Reply.failed]
  rfl

theorem results_ok {x : Incoming × Reply Req Resp σ} {v : Vec}
    (ha : a.payload = some payload) (hx : x.2.sent = .ok v) :
    results (a :: as) (x :: xs) = a.seen (.ok v) :: results as xs := by
  simp only [results, ha, hx, Reply.failed]
  rfl

omit [Serde Req] in
/-- A payload that does not parse is no reason to give up. -/
theorem seen_ok (a : Ask Req) (v : Vec) : (∃ x : Received Resp, a.seen (.ok v) = .ok x) ∨
    (a.seen (.ok v) : Except IpcError (Received Resp)) = .error .deserializeError := by
  cases a with
  | call req =>
    cases hresp : (Serde.fromSlice v.bytes : Option Resp) with
    | some resp => exact .inl ⟨.value resp, by simp only [seen, hresp]⟩
    | none => exact .inr (by simp only [seen, hresp])
  | json text => exact .inl ⟨_, rfl⟩

end Ask

namespace Channel

section

variable {R V : Type} [Read R] [Write V] [Serde Req] [Serde Resp]

def ask : Ask Req → Method (IoRes X Y) IpcError (Channel R V) (Received Resp)
  | .call req => do
    let resp ← call req
    return .value resp
  | .json text => do
    sendJsonRequest text
    let json ← receiveJsonResponse
    return .text json

def askAll : List (Ask Req) →
    Method (IoRes X Y) IpcError (Channel R V) (List (Except IpcError (Received Resp)))
  | [] => pure []
  | a :: as => do
    let result ← Method.attempt (ask a)
    match result with
    | .error (.protocolError _) => return [result]
    | _ => do
      let results ← askAll as
      return result :: results

end

section

variable {R V : Type} [Read R] [Write V] {E : Env (IoRes X Y) W}
  {At : List (Event X Y) → Channel R V → W → Prop} {s : Channel R V} {w : W}
  {L : List (Event X Y)} {r : Reply Req Resp σ}

/-- The packet of a reply is read. -/
theorem receivePacket_reply (h : Follows E At) (hs : At (.recv r.packet.serialize :: L) s w)
    (hr : r.sent ≠ .error (.protocolError .ok)) :
    Always E (resolves (fun p s' w => r.sent = .ok p.payload ∧ At L s' w)
        fun e s' w => (∃ e', r.sent = .error e' ∧
          e = .protocolError (ProtocolErrorCode.ofIpcError e')) ∧ At L s' w)
      (receivePacket s) w := by
  apply always_seq_ok (h.recv ResponsePacket.mk hs)
  rintro _ s' w' ⟨rfl, hat⟩
  cases hsent : r.sent with
  | ok payload =>
    have hok : ProtocolErrorCode.n 0 = some .ok := ProtocolErrorCode.n_toU64 .ok
    simp only [Reply.packet, hsent, ResponsePacket.new, ProtocolErrorCode.ofU64, hok]
    exact .ret ⟨rfl, hat⟩
  | error e =>
    have hne : ProtocolErrorCode.ofIpcError e ≠ .ok := fun h =>
      hr (hsent.trans (congrArg _ (ProtocolErrorCode.ofIpcError_eq_ok.mp h)))
    simp only [Reply.packet, hsent, errorPacket, ResponsePacket.new, ProtocolErrorCode.ofU64,
      ProtocolErrorCode.n_toU64]
    generalize hc : ProtocolErrorCode.ofIpcError e = c at hne ⊢
    cases c <;> first | exact absurd rfl hne | exact .ret ⟨⟨e, rfl, congrArg _ hc.symm⟩, hat⟩

variable [Serde Req] [Serde Resp] {a : Ask Req} {payload : Vec}

theorem call_reply (h : Follows E At) {req : Req} (ha : Serde.toVec req = some payload)
    (hs : At (.send (Ask.incoming payload).wire :: .recv r.packet.serialize :: L) s w)
    (hr : r.sent ≠ .error (.protocolError .ok)) :
    Always E (resolves (fun (resp : Resp) s' w => (Ask.call req).seen r.sent =
        .ok (.value resp) ∧ At L s' w) fun e s' w => ((Ask.call req).seen r.sent :
          Except IpcError (Received Resp)) = .error e ∧ At L s' w) (call req s) w := by
  have hsend := h.send (wirePacket_ne_nil 0 0 payload.bytes) hs
  apply always_seq_ok (P := fun _ s' w => At (.recv r.packet.serialize :: L) s' w)
  · rw [sendRequest, ha]
    exact hsend
  · intro _ s' w hat
    refine always_seq_resolves (receivePacket_reply h hat hr) ?_ ?_
    · rintro p s' w ⟨hsent, hat'⟩
      cases hresp : (Serde.fromSlice p.payload.bytes : Option Resp) with
      | some resp => exact .ret ⟨by simp only [hsent, Ask.seen, hresp], hat'⟩
      | none => exact .ret ⟨by simp only [hsent, Ask.seen, hresp], hat'⟩
    · rintro _ s' w ⟨⟨e, hsent, rfl⟩, hat'⟩
      exact ⟨by rw [hsent, Ask.seen], hat'⟩

omit [Serde Req] in
theorem receiveJson_reply (h : Follows E At) (text : Vec)
    (hs : At (.recv r.packet.serialize :: L) s w) (hr : r.sent ≠ .error (.protocolError .ok)) :
    Always E (resolves (fun x s' w => (Ask.json text : Ask Req).seen r.sent =
        (.ok (.text x) : Except IpcError (Received Resp)) ∧ At L s' w)
        fun e s' w => ((Ask.json text : Ask Req).seen r.sent :
          Except IpcError (Received Resp)) = .error e ∧ At L s' w) (receiveJsonResponse s) w := by
  refine always_seq_resolves (receivePacket_reply h hs hr) ?_ ?_
  · rintro p s' w ⟨hsent, hat⟩
    exact .ret ⟨by rw [hsent, Ask.seen], hat⟩
  · rintro _ s' w ⟨⟨e, hsent, rfl⟩, hat⟩
    exact ⟨by rw [hsent, Ask.seen], hat⟩

/-- The reply to a request is what the client sees. -/
theorem ask_reply (h : Follows E At) (ha : a.payload = some payload)
    (hs : At (.send (Ask.incoming payload).wire :: .recv r.packet.serialize :: L) s w)
    (hr : r.sent ≠ .error (.protocolError .ok)) :
    Always E (resolves (fun (x : Received Resp) s' w => a.seen r.sent = .ok x ∧ At L s' w)
        fun e s' w => (a.seen r.sent : Except IpcError (Received Resp)) = .error e ∧ At L s' w)
      (ask a s) w := by
  cases a with
  | call req =>
    refine always_seq_resolves (call_reply h ha hs hr) ?_ fun _ _ _ h => h
    rintro resp s' w ⟨hseen, hat⟩
    exact .ret ⟨hseen, hat⟩
  | json text =>
    obtain rfl : text = payload := Option.some.inj ha
    apply always_seq_ok (h.send (wirePacket_ne_nil 0 0 text.bytes) hs)
    intro _ s' w hat
    refine always_seq_resolves (receiveJson_reply h text hat hr) ?_ fun _ _ _ h => h
    rintro x s'' w ⟨hseen, hat'⟩
    exact .ret ⟨hseen, hat'⟩

theorem ask_seen (h : Follows E At) (ha : a.payload = some payload)
    (hs : At (.send (Ask.incoming payload).wire :: .recv r.packet.serialize :: L) s w)
    (hr : r.sent ≠ .error (.protocolError .ok)) :
    Always E (returns fun (x : Except IpcError (Received Resp) × Channel R V) w =>
      x.1 = a.seen r.sent ∧ At L x.2 w) (ask a s) w := by
  refine (ask_reply h ha hs hr).mono ?_
  rintro (⟨e | x, s'⟩ | _) w ho
  · exact ⟨ho.1.symm, ho.2⟩
  · exact ⟨ho.1.symm, ho.2⟩
  · exact ho

/-- A request that cannot be serialized is not sent. -/
theorem ask_unsent (ha : a.payload = none) :
    (ask a s : Prog (IoRes X Y) (Except IpcError (Received Resp) × Channel R V)) =
      .ret (.error .serializeError, s) := by
  cases a with
  | call req =>
    have hreq : Serde.toVec req = none := ha
    show ((sendRequest req >>= fun _ => receiveResponse) >>= _) s = _
    rw [seq_assoc]
    show ((sendRequest req : Method _ _ _ Unit) s).bind _ = _
    rw [sendRequest, hreq]
    rfl
  | json text => cases ha

/-- Only a service that fails with the success code has a reply that says so. -/
theorem reply_told {answer : σ → Req → Except IpcError Resp × σ}
    (hanswer : ∀ st req, (answer st req).1 ≠ .error (.protocolError .ok)) (st : σ) (payload : Vec) :
    (reply answer st payload).sent ≠ .error (.protocolError .ok) := by
  rw [reply]
  cases (Serde.fromSlice payload.bytes : Option Req) with
  | none => nofun
  | some req =>
    have hreq := hanswer st req
    simp only
    cases hr : (answer st req).1 with
    | error e =>
      rw [hr] at hreq
      exact fun h => hreq (congrArg _ (Except.error.inj h))
    | ok resp =>
      rw [responsePayload]
      cases Serde.toVec resp <;> nofun

omit [Allocator] [Serde Req] [Serde Resp] [Read R] [Write V] in
/-- One result, and then the others. -/
theorem always_results {α : Type} {P : Channel R V → W → Prop} {as : List α}
    {rest : Method (IoRes X Y) IpcError (Channel R V) (List α)} (a : α)
    (h : Always E (returns fun x w => x.1 = .ok as ∧ P x.2 w) (rest s) w) :
    Always E (returns fun x w => x.1 = .ok (a :: as) ∧ P x.2 w)
      ((rest >>= fun as => pure (a :: as)) s) w := by
  refine always_seq (h.mono ?_)
  rintro (⟨r, s'⟩ | _) w ho
  · obtain ⟨rfl, hw⟩ := ho
    exact .ret ⟨rfl, hw⟩
  · exact ho.elim

/-- It gets the replies, request by request, and goes on behind them. -/
theorem askAll_told (h : Follows E At) {answer : σ → Req → Except IpcError Resp × σ} {st : σ}
    {as : List (Ask Req)}
    (htold : ∀ x ∈ replies answer st ((as.filterMap Ask.payload).map Ask.incoming),
      x.2.sent ≠ .error (.protocolError .ok))
    (hs : At (clientEvents ((replies answer st
      ((as.filterMap Ask.payload).map Ask.incoming)).map sessionRound) ++ L) s w) :
    Always E (returns fun x w => x.1 = .ok (Ask.results as
        (replies answer st ((as.filterMap Ask.payload).map Ask.incoming))) ∧ At L x.2 w)
      (askAll as s) w := by
  induction as generalizing st s w with
  | nil => exact .ret ⟨rfl, hs⟩
  | cons a as ih =>
    cases ha : a.payload with
    | none =>
      rw [List.filterMap_cons_none ha] at htold hs ⊢
      rw [Ask.results_unsent ha, askAll, seq_ok (attempt_ret (ask_unsent ha))]
      exact always_results _ (ih htold hs)
    | some payload =>
      rw [List.filterMap_cons_some ha, List.map_cons] at htold hs ⊢
      have hask : ∀ {L}, (reply answer st payload).sent ≠ .error (.protocolError .ok) →
          At (.send (Ask.incoming payload).wire ::
            .recv (reply answer st payload).packet.serialize :: L) s w →
          Always E (resolves (fun (x : Received Resp) s' w =>
              a.seen (reply answer st payload).sent = .ok x ∧ At L s' w)
            fun e s' w => (a.seen (reply answer st payload).sent :
              Except IpcError (Received Resp)) = .error e ∧ At L s' w) (ask a s) w :=
        fun hr hat => ask_reply h ha hat hr
      cases hsent : (reply answer st payload).sent with
      | error e =>
        rw [replies_error (q := Ask.incoming payload) _ hsent] at htold hs ⊢
        rw [Ask.results_error ha hsent]
        apply always_seq_ok (always_attempt_resolves (hask (htold _ List.mem_cons_self) hs))
        rintro r s' w (⟨x, rfl, hseen, -⟩ | ⟨e', rfl, hseen, hat⟩)
        · rw [hsent] at hseen
          cases hseen
        · rw [hsent] at hseen
          cases hseen
          exact .ret ⟨rfl, hat⟩
      | ok v =>
        rw [replies_ok (q := Ask.incoming payload) _ hsent] at htold hs ⊢
        rw [Ask.results_ok ha hsent]
        have htold' := fun x hx => htold x (List.mem_cons_of_mem _ hx)
        refine always_seq_ok (P := fun r s' w => r = a.seen (.ok v) ∧ At (clientEvents
          ((replies answer (reply answer st payload).state
            ((as.filterMap Ask.payload).map Ask.incoming)).map sessionRound) ++ L) s' w)
          ((always_attempt_resolves (hask (htold _ List.mem_cons_self) hs)).mono
            (succeeds_mono ?_)) ?_
        · rintro r s' w (⟨x, rfl, hseen, hw⟩ | ⟨e', rfl, hseen, hw⟩)
          · exact ⟨by rw [← hseen, hsent], hw⟩
          · exact ⟨by rw [← hseen, hsent], hw⟩
        · rintro r s' w ⟨hr, hat⟩
          rw [← hr]
          have hseen : (∃ x : Received Resp, a.seen (.ok v) = .ok x) ∨ _ := Ask.seen_ok a v
          rcases hseen with ⟨x, hx⟩ | hx
          · rw [hx] at hr
            subst hr
            exact always_results _ (ih htold' hat)
          · rw [hx] at hr
            subst hr
            exact always_results _ (ih htold' hat)

omit [Read R] [Write V] in
/-- A service that never fails with the success code has no reply that says so. -/
theorem replies_told {answer : σ → Req → Except IpcError Resp × σ}
    (hanswer : ∀ st req, (answer st req).1 ≠ .error (.protocolError .ok)) (st : σ)
    (qs : List Incoming) :
    ∀ x ∈ replies answer st qs, x.2.sent ≠ .error (.protocolError .ok) := by
  induction qs generalizing st with
  | nil => nofun
  | cons q qs ih =>
    intro x hx
    rw [replies, List.mem_cons] at hx
    rcases hx with rfl | hx
    · exact reply_told hanswer st q.payload
    · split at hx
      · cases hx
      · exact ih _ x hx

/-- **Client.** It gets the replies, request by request. -/
theorem askAll_replies (h : Follows E At) {answer : σ → Req → Except IpcError Resp × σ} {st : σ}
    {as : List (Ask Req)} (hanswer : ∀ st req, (answer st req).1 ≠ .error (.protocolError .ok))
    (hs : At (clientEvents ((replies answer st
      ((as.filterMap Ask.payload).map Ask.incoming)).map sessionRound)) s w) :
    Always E (returns fun x w => x.1 = .ok (Ask.results as
        (replies answer st ((as.filterMap Ask.payload).map Ask.incoming))) ∧ At [] x.2 w)
      (askAll as s) w :=
  askAll_told h (replies_told hanswer _ _) ((List.append_nil _).symm ▸ hs)

end

end Channel

/-! ## Both together -/

section

variable [Serde Req] [Serde Resp] {answer : σ → Req → Except IpcError Resp × σ}

/-- How a server ends that has replied with these. -/
def Ended {S : Type} (xs : List (Incoming × Reply Req Resp σ)) (r : Except IpcError Unit × S) :
    Prop :=
  ∃ e, failure xs = some e ∧ r.1 = .error e

/-- The service gives the answers that the replies have. -/
theorem gives_replies (st : σ) (qs : List Incoming) :
    Gives answer st (questions ((replies answer st qs).map sessionRound)) := by
  induction qs generalizing st with
  | nil => exact trivial
  | cons q qs ih =>
    have hrest : ∀ xs : List (Incoming × Reply Req Resp σ),
        Gives answer (reply answer st q.payload).state (questions (xs.map sessionRound)) →
        Gives answer st (questions (((q, reply answer st q.payload) :: xs).map sessionRound)) := by
      intro xs hxs
      rw [List.map_cons, questions, List.flatMap_cons, sessionRound]
      cases hreq : (Serde.fromSlice q.payload.bytes : Option Req) with
      | none =>
        simp only [reply, hreq] at hxs ⊢
        exact hxs
      | some req =>
        simp only [reply, hreq] at hxs ⊢
        exact ⟨rfl, hxs⟩
    cases hsent : (reply answer st q.payload).sent with
    | error e =>
      rw [replies_error qs hsent]
      exact hrest [] trivial
    | ok v =>
      rw [replies_ok qs hsent]
      exact hrest _ (ih _)

/-- `execute` follows its side of the session. -/
theorem execute_paced (answer : σ → Req → Except IpcError Resp × σ) (st : σ) (qs : List Incoming)
    (l : Nat) : Always paced (returns fun r L => Ended (replies answer st qs) r ∧ L = [])
      (Channel.execute served (Channel.new l Source.mk Sink.mk))
      (serverEvents (failure (replies answer st qs)).isNone
        ((replies answer st qs).map sessionRound)) :=
  always_paced ((Channel.execute_replies Channel.follows_scripted
    ⟨Channel.new_clear l, rfl⟩).mono (returns_mono fun _ _ h => ⟨h.1, h.2.2⟩))
    (send_nil_notMem_server _ _)

/-- `execute` at the other end of the pipes. -/
theorem session_converses {U V δ α : Type} {p : Prog (StreamOp.Res (X := U) δ V) α} {A : α → Prop}
    {st : σ} {qs : List Incoming} (l : Nat)
    (hp : Always paced (returns fun a L => A a ∧ L = []) p
      (clientEvents ((replies answer st qs).map sessionRound))) :
    Converses answer p (Channel.execute served (Channel.new l Source.mk Sink.mk)) st
      (questions ((replies answer st qs).map sessionRound)) (failure (replies answer st qs)).isNone
      A (Ended (replies answer st qs)) :=
  converse (gives_replies st qs) hp (execute_paced answer st qs l)

/-- **Sessions end to end.** A client that calls and sends JSON, in any order, and a service that
may fail: the service is asked what the payloads stand for, up to the first failure, the client
gets the replies, and the server returns the error that it has told the client. -/
theorem session_end_to_end (answer : σ → Req → Except IpcError Resp × σ)
    (hanswer : ∀ st req, (answer st req).1 ≠ .error (.protocolError .ok)) (st : σ)
    (as : List (Ask Req)) (k l : Nat) :
    let xs := replies answer st ((as.filterMap Ask.payload).map Ask.incoming)
    Converses answer
      (Channel.askAll as (Channel.new k Source.mk Sink.mk) : Prog (IoRes X Y) _)
      (Channel.execute served (Channel.new l Source.mk Sink.mk)) st
      (questions (xs.map sessionRound)) (failure xs).isNone
      (fun r => r.1 = .ok (Ask.results as xs)) (Ended xs) :=
  session_converses l (always_paced ((Channel.askAll_replies Channel.follows_scripted hanswer
    ⟨Channel.new_clear k, rfl⟩).mono (returns_mono fun _ _ h => ⟨h.1, h.2.2⟩))
    (send_nil_notMem_client _))

end

end

section

attribute [local instance] Allocator.ample Lowercase.ascii Service.requestCodec
  Service.responseCodec

/-- A `Serve` for the requests of `World`, which fails on one name. -/
def greet (n : Nat) (req : Service.world.Request Bytes) :
    Except IpcError (Service.world.Response (Except UInt64 Bytes)) × Nat :=
  if req.args = Service.ascii "error" then (.error .generalIoError, n)
  else (.ok ⟨req.variant, .ok (Service.ascii "hello, " ++ req.args)⟩, n + 1)

theorem greet_told (n : Nat) (req : Service.world.Request Bytes) :
    (greet n req).1 ≠ .error (.protocolError .ok) := by
  rw [greet]
  split <;> nofun

theorem worldJson_length : (Service.requestJson (Service.ascii "world")).length ≤ isizeMax := by
  decide +kernel

/-- The text of a request. -/
def worldJson : Vec := ⟨Service.requestJson (Service.ascii "world"), worldJson_length⟩

/-- JSON first, and then two calls, the first of which fails. -/
def greetings : List (Ask (Service.world.Request Bytes)) :=
  [.json worldJson, .call (Service.hello "error").request, .call (Service.hello "world").request]

theorem greet_end_to_end :
    let xs := replies greet 0 ((greetings.filterMap Ask.payload).map Ask.incoming)
    Converses greet
      (Channel.askAll greetings (Channel.new 8 Source.mk Sink.mk) : Prog (IoRes Unit Unit) _)
      (Channel.execute served (Channel.new 8 Source.mk Sink.mk)) 0
      (questions (xs.map sessionRound)) (failure xs).isNone
      (fun r => r.1 = .ok (Ask.results greetings xs)) (Ended xs) :=
  session_end_to_end greet greet_told 0 greetings 8 8

end

end CkbScriptIpc
