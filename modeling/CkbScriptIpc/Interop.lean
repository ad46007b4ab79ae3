import CkbScriptIpc.Session
import CkbScriptIpc.Csi.Conversation

/-!
# Clients and servers of the two libraries

A client of one library talks to a server of the other. What a party of the C library
sends and receives are packets; what it makes of the payloads is up to its user, who
follows the serialization of a generated service.

* `csi_session_end_to_end`: a C client of any `Serve`, which may fail;
* `csi_client_end_to_end`: a C client of a generated server;
* `csi_server_end_to_end`: generated stubs that call a C server.
-/

namespace CkbScriptIpc

open Interaction

/-! ## A C client of any service -/

section

variable [Allocator] {Req Resp σ : Type}

/-- A request as a C program has it. -/
def Incoming.csi (q : Incoming) : CSIRequest := ⟨q.version, q.methodId, q.payload.bytes⟩

/-- A reply as a C program sees it. -/
def Reply.csi (r : Reply Req Resp σ) : CSIAnswer := ⟨0, r.packet.errorCode, r.packet.payload.bytes⟩

theorem Incoming.csi_wire (q : Incoming) : q.csi.wire = q.wire := rfl

theorem Reply.csi_wire (r : Reply Req Resp σ) : r.csi.wire = r.packet.serialize := by
  cases hsent : r.sent <;> simp only [CSIAnswer.wire, csi, packet, hsent] <;> rfl

/-- The packet of an error makes `csi_call` fail. -/
theorem csiResult_error {r : Reply Req Resp σ} {e : IpcError} (h : r.sent = .error e)
    (hr : e ≠ .protocolError .ok) : ∃ c, csiResult r.csi.errorCode = .error c := by
  have hcode : r.csi.errorCode = (ProtocolErrorCode.ofIpcError e).toU64 := by
    simp only [Reply.csi, Reply.packet, h]
    rfl
  have hne : ProtocolErrorCode.ofIpcError e ≠ .ok := mt ProtocolErrorCode.ofIpcError_eq_ok.mp hr
  rw [hcode]
  generalize ProtocolErrorCode.ofIpcError e = c at hne
  have hcodes : ∀ c : ProtocolErrorCode, c ≠ .ok → c.toU64.toInt64.toInt32 ≠ 0 := by
    intro c
    cases c <;> decide
  exact ⟨⟨_, hcodes c hne⟩, dif_neg (hcodes c hne)⟩

theorem csiResult_ok {r : Reply Req Resp σ} {v : Vec} (h : r.sent = .ok v) :
    csiResult r.csi.errorCode = .ok () := by
  have hcode : r.csi.errorCode = 0 := by
    simp only [Reply.csi, Reply.packet, h]
    rfl
  rw [hcode, csiResult_zero]

/-- What the calls of a C program return. -/
def csiResults (xs : List (Incoming × Reply Req Resp σ)) : List (Except Code Unit × CSIAnswer) :=
  xs.map fun x => (csiResult x.2.csi.errorCode, x.2.csi)

variable [Serde Req] [Serde Resp] {answer : σ → Req → Except IpcError Resp × σ}

/-- **Client.** It gets the replies, up to the first error. -/
theorem csiCheckedCalls_replies {s : CSI CSIBuffer CSIBuffer FixedAllocator} {p : CSIPacket}
    {a : FixedAllocator} (hanswer : ∀ st req, (answer st req).1 ≠ .error (.protocolError .ok))
    (buf : Nat) (hs : s.Idle) (ha : s.allocator = a) (hunused : a.Unused) {st : σ}
    {qs : List Incoming}
    (hfit : ∀ x ∈ replies answer st qs, ClientFits a (x.1.csi, x.2.csi)) :
    Always paced (succeeds fun r _ w => r = csiResults (replies answer st qs) ∧ w = [])
      (csiCheckedCalls buf (qs.map Incoming.csi) (s, p))
      (clientEvents ((replies answer st qs).map sessionRound)) := by
  induction qs generalizing st s p with
  | nil => exact .ret ⟨rfl, rfl⟩
  | cons q qs ih =>
    cases hsent : (reply answer st q.payload).sent with
    | error e =>
      rw [replies_error qs hsent] at hfit ⊢
      have hcall := csiUserCall_paced (s := s) (p := p) (L := []) buf hs ha hunused
        (hfit _ List.mem_cons_self)
      rw [Incoming.csi_wire, Reply.csi_wire] at hcall
      apply always_seq_ok hcall
      rintro _ x w ⟨rfl, -, -, rfl⟩
      obtain ⟨c, hc⟩ := csiResult_error hsent fun he =>
        Channel.reply_told hanswer st q.payload (he ▸ hsent)
      simp only [csiResults, List.map_cons, List.map_nil, hc]
      exact .ret ⟨rfl, rfl⟩
    | ok v =>
      rw [replies_ok qs hsent] at hfit ⊢
      have hcall := csiUserCall_paced (s := s) (p := p) (L := clientEvents ((replies answer
        (reply answer st q.payload).state qs).map sessionRound)) buf hs ha hunused
        (hfit _ List.mem_cons_self)
      rw [Incoming.csi_wire, Reply.csi_wire] at hcall
      apply always_seq_ok hcall
      rintro _ x w ⟨rfl, hs', ha', rfl⟩
      simp only [csiResults, List.map_cons, csiResult_ok hsent]
      apply always_seq_ok (ih hs' ha' fun y hy => hfit y (List.mem_cons_of_mem _ hy))
      rintro _ y w ⟨rfl, rfl⟩
      exact .ret ⟨rfl, rfl⟩

/-- **A C client of any service.** Up to the first failure every call returns 0 and the payload of
the response; the call whose request fails returns the code of the error, which the server
returns too. -/
theorem csi_session_end_to_end {client : CSIProcess} (hclient : client.Ready)
    {source sink : UInt64} (hsource : source % 2 = 0) (hsink : sink % 2 = 1) (buf l : Nat)
    (answer : σ → Req → Except IpcError Resp × σ)
    (hanswer : ∀ st req, (answer st req).1 ≠ .error (.protocolError .ok)) (st : σ)
    (qs : List Incoming)
    (hfit : ∀ x ∈ replies answer st qs, ClientFits client.payload (x.1.csi, x.2.csi)) :
    let xs := replies answer st qs
    Converses answer (csiCheckedClient buf source sink (qs.map Incoming.csi) client)
      (Channel.execute served (Channel.new l Source.mk Sink.mk)) st
      (questions (xs.map sessionRound)) (failure xs).isNone
      (fun r => r.1 = .ok (csiResults xs)) (Ended xs) :=
  session_converses l (csiClientWith_paced hclient hsource hsink fun _ _ hs ha =>
    csiCheckedCalls_replies hanswer buf hs ha hclient.payload hfit)

end

section

attribute [local instance] Allocator.ample Lowercase.ascii Service.requestCodec
  Service.responseCodec

theorem errorJson_length : (Service.requestJson (Service.ascii "error")).length ≤ isizeMax := by
  decide +kernel

/-- The second request fails. -/
def greetingPackets : List Incoming :=
  [⟨0, 0, worldJson⟩, ⟨0, 0, ⟨Service.requestJson (Service.ascii "error"), errorJson_length⟩⟩]

theorem greetingPackets_fit : ∀ x ∈ replies greet 0 greetingPackets,
    ClientFits zeroedProcess.payload (x.1.csi, x.2.csi) := by
  have hfit : ∀ x ∈ replies greet 0 greetingPackets, x.1.csi.payload.length < 2 ^ 31 ∧
      x.2.csi.payload.length ≤ zeroedProcess.payload.blockSize ∧
        x.2.csi.payload.length < 2 ^ 31 := by decide +kernel
  exact fun x hx => ⟨(hfit x hx).1, (hfit x hx).2.1, (hfit x hx).2.2⟩

theorem greet_from_csi :
    let xs := replies greet 0 greetingPackets
    Converses greet (csiCheckedClient 64 4 7 (greetingPackets.map Incoming.csi) zeroedProcess)
      (Channel.execute served (Channel.new 8 Source.mk Sink.mk)) 0
      (questions (xs.map sessionRound)) (failure xs).isNone
      (fun r => r.1 = .ok (csiResults xs)) (Ended xs) :=
  csi_session_end_to_end zeroedProcess_ready (by decide) (by decide) 64 8 greet greet_told 0
    greetingPackets greetingPackets_fit

end

/-! ## A C client of a generated server -/

namespace Service

section

variable [Lowercase] [Allocator] {svc : Service} {A B σ : Type} [Serde (svc.Request A)]
  [Serde (svc.Response B)]

/-- The packet that the stub of a call sends, as a C program sees it. -/
def Call.csiRequest (c : svc.Call A) : CSIRequest := ⟨0, 0, (requestPacket c.request).payload.bytes⟩

/-- The packet that comes back. -/
def Call.csiAnswer (c : svc.Call A) (ret : B) : CSIAnswer :=
  ⟨0, 0, (responsePacket (c.response ret)).payload.bytes⟩

/-- The calls and what they return, in packets. -/
def exchangesOf (xs : List (svc.Call A × B)) : List (CSIRequest × CSIAnswer) :=
  xs.map fun x => (x.1.csiRequest, x.1.csiAnswer x.2)

variable {answer : σ → svc.Call A → B × σ}

theorem clientEvents_eq {X Y : Type} (st : σ) (cs : List (svc.Call A)) :
    clientEvents ((protocol answer).rounds st cs) =
      (exchangeEvents (exchangesOf ((protocol answer).answers st cs)) : List (Event X Y)) := by
  induction cs generalizing st with
  | nil => rfl
  | cons c cs ih =>
    rw [Protocol.rounds, clientEvents, ih]
    rfl

theorem exchangesOf_fst (st : σ) (cs : List (svc.Call A)) :
    (exchangesOf ((protocol answer).answers st cs)).map Prod.fst = cs.map Call.csiRequest := by
  have hfst := (protocol answer).answers_fst st cs
  calc (exchangesOf ((protocol answer).answers st cs)).map Prod.fst
      = (((protocol answer).answers st cs).map Prod.fst).map Call.csiRequest := by
        simp only [exchangesOf, List.map_map]
        rfl
    _ = cs.map Call.csiRequest := by rw [hfst]

/-- **A C client of a generated server.** Every call of the client is a call of the service, and
its response carries what the service returned. -/
theorem csi_client_end_to_end {client : CSIProcess} (hclient : client.Ready)
    {source sink : UInt64} (hsource : source % 2 = 0) (hsink : sink % 2 = 1) (buf l : Nat)
    (cs : List (svc.Call A)) (st : σ) (h : Faithful answer cs)
    (hfit : ∀ x ∈ exchangesOf ((protocol answer).answers st cs), ClientFits client.payload x) :
    (protocol answer).Converses
      (csiClient buf source sink (cs.map Call.csiRequest) client)
      (runServer (Channel.new l Source.mk Sink.mk)) st cs
      fun r => r.1 = .ok (((protocol answer).answers st cs).map fun x =>
        (.ok (), x.1.csiAnswer x.2)) := by
  have hclients := csiClient_paced hclient hsource hsink buf hfit
  have hresults : (exchangesOf ((protocol answer).answers st cs)).map
      (fun x => (csiResult x.2.errorCode, x.2)) =
        ((protocol answer).answers st cs).map fun x => (.ok (), x.1.csiAnswer x.2) := by
    simp only [exchangesOf, List.map_map]
    rfl
  rw [← clientEvents_eq, exchangesOf_fst, hresults] at hclients
  have hserver : Always scripted _ (runServer (Channel.new l Source.mk Sink.mk))
      ((protocol answer).serverScript st cs) := runServer_scripted h (Channel.new_clear l)
  have hsolid := send_nil_notMem_server true ((protocol answer).rounds st cs)
  rw [Protocol.serverEvents_rounds] at hsolid
  exact Protocol.converse hclients (always_paced hserver hsolid)

/-! ## A C server -/

/-- A callback of the C library that is an implementation of the service. -/
def Implements (callback : σ → CSIRequest → CSIAnswer × σ) (answer : σ → svc.Call A → B × σ)
    (cs : List (svc.Call A)) : Prop :=
  ∀ st, ∀ c ∈ cs, callback st c.csiRequest = (c.csiAnswer (answer st c).1, (answer st c).2)

/-- The callback that does what the generated `serve` does: read the request from the payload,
call the method and write what it returns. -/
def csiCallback (answer : σ → svc.Call A → B × σ) (st : σ) (q : CSIRequest) : CSIAnswer × σ :=
  match Serde.fromSlice q.payload with
  | some (req : svc.Request A) =>
    let c : svc.Call A := ⟨svc.arm req.variant, req.args⟩
    (c.csiAnswer (answer st c).1, (answer st c).2)
  | none => (⟨0, ProtocolErrorCode.deserializeError.toU64, []⟩, st)

/-- So every service has one. -/
theorem csiCallback_implements {cs : List (svc.Call A)} (h : Faithful answer cs) :
    Implements (csiCallback answer) answer cs := by
  intro st c hc
  obtain ⟨v, hv, hv'⟩ := Option.bind_eq_some_iff.mp (h c hc).1
  have hpayload : c.csiRequest.payload = v.bytes := by
    simp only [Call.csiRequest, requestPacket, RequestPacket.new, hv, Option.getD_some]
  have harm : (⟨svc.arm c.request.variant, c.request.args⟩ : svc.Call A) = c := by
    simp only [Call.request, arm_variant]
  simp only [csiCallback, hpayload, hv', harm]

variable {callback : σ → CSIRequest → CSIAnswer × σ}

theorem csiExchanges_eq {st : σ} {cs : List (svc.Call A)} (h : Implements callback answer cs) :
    csiExchanges callback st (cs.map Call.csiRequest) =
      exchangesOf ((protocol answer).answers st cs) := by
  induction cs generalizing st with
  | nil => rfl
  | cons c cs ih =>
    have hc := h st c List.mem_cons_self
    rw [List.map_cons, csiExchanges, hc, ih fun st c' hc' => h st c' (List.mem_cons_of_mem _ hc')]
    rfl

/-- **Generated stubs that call a C server.** Its callback is given the packets of the calls, and
every stub returns what the callback put into its answer. -/
theorem csi_server_end_to_end {server : CSIProcess} (hserver : server.Ready)
    {source sink : UInt64} (hsource : source % 2 = 0) (hsink : sink % 2 = 1) (k : Nat)
    (cs : List (svc.Call A)) (st : σ) (h : Faithful answer cs)
    (himplements : Implements callback answer cs)
    (hfit : ∀ x ∈ exchangesOf ((protocol answer).answers st cs), ServerFits server.payload x) :
    (csiProtocol callback).Converses
      (callAll cs (Channel.new k Source.mk Sink.mk) : Prog (IoRes (svc.Call A) B) _)
      (csiRunServer csiServe (.ok [source, sink]) server) st (cs.map Call.csiRequest)
      fun r => r.1 = ((protocol answer).answers st cs).map Prod.snd := by
  have hclient : Always scripted _ (callAll cs (Channel.new k Source.mk Sink.mk))
      ((protocol answer).clientScript st cs) := callAll_scripted h (Channel.new_clear k)
  have hevents : (protocol answer).clientScript st cs =
      clientEvents ((csiProtocol callback).rounds st (cs.map Call.csiRequest)) := by
    rw [csiProtocol_clientEvents, csiExchanges_eq himplements, ← clientEvents_eq,
      Protocol.clientEvents_rounds]
  rw [hevents] at hclient
  rw [← csiExchanges_eq himplements] at hfit
  exact Protocol.converse (always_paced hclient (send_nil_notMem_client _))
    (csiServer_paced hserver hsource hsink hfit)

end

/-! ## The service `World` -/

section

attribute [local instance] Allocator.ample Lowercase.ascii requestCodec responseCodec

theorem helloCalls_faithful : Faithful answerHello helloCalls := by
  intro c hc
  rw [helloCalls, List.mem_cons, List.mem_singleton] at hc
  rcases hc with rfl | rfl
  · refine ⟨by decide +kernel, ?_⟩
    rintro ⟨⟩
    decide +kernel
  · refine ⟨by decide +kernel, ?_⟩
    rintro ⟨⟩
    decide +kernel

theorem helloCalls_fit : ∀ x ∈ exchangesOf ((protocol answerHello).answers () helloCalls),
    ServerFits zeroedProcess.payload x ∧ ClientFits zeroedProcess.payload x := by
  intro x hx
  obtain ⟨y, hy, rfl⟩ := List.mem_map.mp hx
  simp only [helloCalls, Protocol.answers, List.mem_cons, List.not_mem_nil, or_false] at hy
  rcases hy with rfl | rfl
  · exact ⟨⟨by decide +kernel, by decide +kernel, by decide +kernel, by decide +kernel⟩,
      ⟨by decide +kernel, by decide +kernel, by decide +kernel⟩⟩
  · exact ⟨⟨by decide +kernel, by decide +kernel, by decide +kernel, by decide +kernel⟩,
      ⟨by decide +kernel, by decide +kernel, by decide +kernel⟩⟩

/-- A C client of `World`. -/
theorem hello_from_csi :
    (protocol answerHello).Converses
      (csiClient 64 4 7 (helloCalls.map Call.csiRequest) zeroedProcess)
      (runServer (Channel.new 8 Source.mk Sink.mk)) () helloCalls
      fun r => r.1 = .ok (((protocol answerHello).answers () helloCalls).map fun x =>
        (.ok (), x.1.csiAnswer x.2)) :=
  csi_client_end_to_end zeroedProcess_ready (by decide) (by decide) 64 8 helloCalls ()
    helloCalls_faithful fun x hx => (helloCalls_fit x hx).2

/-- `World` in C. -/
theorem hello_to_csi :
    (csiProtocol (csiCallback answerHello)).Converses
      (callAll helloCalls (Channel.new 8 Source.mk Sink.mk) :
        Prog (IoRes (world.Call Bytes) (Except UInt64 Bytes)) _)
      (csiRunServer csiServe (.ok [2, 3]) zeroedProcess) () (helloCalls.map Call.csiRequest)
      fun r => r.1 = ((protocol answerHello).answers () helloCalls).map Prod.snd :=
  csi_server_end_to_end zeroedProcess_ready (by decide) (by decide) 8 helloCalls ()
    helloCalls_faithful (csiCallback_implements helloCalls_faithful)
    fun x hx => (helloCalls_fit x hx).1

end

end Service

end CkbScriptIpc
