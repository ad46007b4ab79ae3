import CkbScriptIpc.NativeSession
import CkbScriptIpc.Interaction.Crossing

/-!
# Requests in a row

`send_json_request` and `receive_json_response` are two calls, and nothing keeps a client from
sending again before it receives. Over the channels of `spawn_server` this is a deadlock.

* `pipelined_deadlocks`: whatever the two requests are, and whatever came before.
-/

namespace CkbScriptIpc

open Interaction

variable {X Y W Req Resp σ α : Type}

section

variable [Allocator]

/-- A client that sends a second request before it has received the reply to the first. -/
def Channel.pipeline {R V : Type} [Read R] [Write V] [Serde Req] [Serde Resp] (as : List (Ask Req))
    (first second : Vec)
    (rest : List (Except IpcError (Received Resp)) → Method (IoRes X Y) IpcError (Channel R V) α) :
    Method (IoRes X Y) IpcError (Channel R V) α := do
  let results ← Channel.askAll as
  sendJsonRequest first
  sendJsonRequest second
  rest results

end

namespace Native

section

variable {p : Pipe} {bs : Bytes}

/-- Behind the script a message is not received. -/
theorem Pipe.waits_unreceived (hp : p.Open) (hne : bs ≠ []) :
    Accepts (unreceived : Env (IoRes X Y) (List (Event X Y))) p [] bs (fun _ => False)
      fun _ => False where
  write := by
    rw [write_cons hne hp]
    exact .call (.inr ⟨rfl, bs, rfl⟩) fun r w' hs => absurd rfl hs.1
  flush hu := hu.elim

end

section

variable [Allocator] [Serde Req] [Serde Resp] {answer : σ → Req → Except IpcError Resp × σ}
  {st : σ} {as : List (Ask Req)} {s : Channel Pipe Pipe}

omit [Serde Req] [Serde Resp] in
theorem told_of_failure {xs : List (Incoming × Reply Req Resp σ)} (h : failure xs = none) :
    ∀ x ∈ xs, x.2.sent ≠ .error (.protocolError .ok) := by
  intro x hx he
  have hnone := List.findSome?_eq_none_iff.mp h x hx
  rw [he] at hnone
  cases hnone

/-- Behind replies without an error there is one more. -/
theorem replies_snoc {qs : List Incoming} (q : Incoming)
    (h : failure (replies answer st qs) = none) :
    ∃ r, replies answer st (qs ++ [q]) = replies answer st qs ++ [(q, r)] := by
  induction qs generalizing st with
  | nil => exact ⟨reply answer st q.payload, by simp only [List.nil_append, replies, ite_self]⟩
  | cons q' qs ih =>
    cases hsent : (reply answer st q'.payload).sent with
    | error e =>
      rw [replies_error _ hsent, failure_error hsent] at h
      cases h
    | ok v =>
      rw [replies_ok _ hsent, failure_ok hsent] at h
      obtain ⟨r, hr⟩ := ih h
      refine ⟨r, ?_⟩
      rw [List.cons_append, replies_ok _ hsent, replies_ok _ hsent, hr]
      rfl

/-- The client follows its script, up to the second request. -/
theorem pipeline_crosses (first second : Vec)
    (rest : List (Except IpcError (Received Resp)) →
      Method (IoRes X Y) IpcError (Channel Pipe Pipe) α)
    (hok : failure (replies answer st ((as.filterMap Ask.payload).map Ask.incoming)) = none)
    (hs : ClientIdle s) :
    Always (unreceived : Env (IoRes X Y) (List (Event X Y))) (fun _ _ => False)
      (Channel.pipeline as first second rest s)
      (clientEvents ((replies answer st ((as.filterMap Ask.payload).map Ask.incoming)).map
        sessionRound) ++ [.send (Ask.incoming first).wire]) := by
  have hpipes : Channel.Follows (messaging False : Env (IoRes X Y) (List (Event X Y)))
      fun L (s : Channel Pipe Pipe) w => ClientIdle s ∧ w = L := follows_pipes
  have hasks := always_unreceived (Channel.askAll_told hpipes (told_of_failure hok)
    (L := [.send (Ask.incoming first).wire]) ⟨hs, rfl⟩)
  refine always_seq (hasks.mono ?_)
  rintro (⟨r, s₁⟩ | _) w ho
  · obtain ⟨rfl, hs₁, rfl⟩ := ho
    have hfirst := always_unreceived
      (hpipes.send (L := []) (wirePacket_ne_nil 0 0 first.bytes) ⟨hs₁, rfl⟩)
    apply always_seq_ok hfirst
    rintro _ s₂ w ⟨hs₂, rfl⟩
    have hsecond := Channel.sendBytes_taken (Pipe.waits_unreceived (X := X) (Y := Y) hs₂.writer
      (wirePacket_ne_nil 0 0 second.bytes)) (wirePacket_ne_nil 0 0 second.bytes) hs₂.writer_buf
    apply always_seq_ok hsecond
    rintro _ _ _ ⟨-, hfalse⟩
    exact hfalse.elim
  · exact ho.elim

end

/-! ## Both together -/

/-- **Two requests in a row are a deadlock.** When a native client sends a second request before it
has received the reply to the first, it waits for the server to receive, and the server for the
client, however the threads are scheduled and in whatever sizes the script reads that the host can
allocate. The service has then been asked what the requests up to the first of the two stand
for. -/
theorem pipelined_deadlocks [Allocator] [Serde Req] [Serde Resp]
    (answer : σ → Req → Except IpcError Resp × σ) (st : σ) (as : List (Ask Req))
    (first second : Vec) (rest : List (Except IpcError (Received Resp)) →
      Method (IoRes Req (Except IpcError Resp)) IpcError (Channel Pipe Pipe) α)
    (k l : Nat) (sizes : Sizes) (hsizes : sizes.Granted)
    (hok : failure (replies answer st ((as.filterMap Ask.payload).map Ask.incoming)) = none) :
    let xs := replies answer st
      ((as.filterMap Ask.payload).map Ask.incoming ++ [Ask.incoming first])
    let (client, server) := spawnServer k l sizes
    Inevitable (Hosted.Step answer) (Crossed answer (questions (xs.map sessionRound)))
      ⟨⟨Channel.pipeline as first second rest client, Channel.execute served server⟩, st, []⟩ := by
  obtain ⟨r, hr⟩ := replies_snoc (Ask.incoming first) hok
  have hgives : Gives answer st (questions ((replies answer st
      ((as.filterMap Ask.payload).map Ask.incoming ++ [Ask.incoming first])).map sessionRound)) :=
    gives_replies st _
  have hserver := server_follows answer st
    ((as.filterMap Ask.payload).map Ask.incoming ++ [Ask.incoming first])
    hsizes (serverIdle_spawned k l sizes)
  have hclient := pipeline_crosses first second rest hok (clientIdle_spawned k l sizes)
  rw [hr, List.map_append] at hgives hserver
  simp only [hr, List.map_append]
  exact cross hgives hclient hserver

section

attribute [local instance] Allocator.ample Lowercase.ascii Service.requestCodec
  Service.responseCodec

/-- What the client would do with the results. -/
def greetResults (results : List (Except IpcError (Received
    (Service.world.Response (Except UInt64 Bytes))))) :
    Method (IoRes (Service.world.Request Bytes)
      (Except IpcError (Service.world.Response (Except UInt64 Bytes)))) IpcError
      (Channel Pipe Pipe) Nat :=
  pure results.length

/-- One request is answered, and the second one is sent with a third behind it. -/
theorem greet_deadlocks :
    let as : List (Ask (Service.world.Request Bytes)) := [.json worldJson]
    let xs := replies greet 0
      ((as.filterMap Ask.payload).map Ask.incoming ++ [Ask.incoming worldJson])
    let (client, server) := spawnServer 8 8 kilobyte
    Inevitable (Hosted.Step greet) (Crossed greet (questions (xs.map sessionRound)))
      ⟨⟨Channel.pipeline as worldJson worldJson greetResults client,
        Channel.execute served server⟩, 0, []⟩ :=
  pipelined_deadlocks greet 0 [.json worldJson] worldJson worldJson greetResults 8 8 kilobyte
    kilobyte_granted (by decide +kernel)

end

end Native

end CkbScriptIpc
