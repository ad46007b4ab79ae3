import CkbScriptIpc.NativeRpc
import CkbScriptIpc.Session
import CkbScriptIpc.Interaction.Meeting

/-!
# Native sessions

A native client and the server that was spawned for it again, now with what the one gets from the
other. The client does not give up: once the server has told it of an error and is gone, each
call of its own fails, as the channel is closed.

* `follows_pipes`, `follows_ends`: both channels send and receive by messages;
* `native_session_end_to_end`: however the threads are scheduled, the client gets a reply for each
  request until the first failure, and an error behind it.
-/

namespace CkbScriptIpc

open Interaction

namespace Native

variable {X Y W Req Resp σ : Type} {alone : Prop}

/-! ## Channels of messages -/

theorem messaging_hands (L : List (Event X Y)) :
    Hands (messaging alone : Env (IoRes X Y) (List (Event X Y))) (.recv · :: L) L where
  pre _ _ := trivial
  step h := h

section

variable [Allocator] {R V : Type} [Read R] {E : Env (IoRes X Y) W} {St : R → W → Bytes → Prop}
  {s : Channel R V} {w : W} {version code : UInt64} {payload : Vec} {P : Type}

/-- A message that is one packet is read, and nothing is buffered behind it. -/
theorem recv_message (h : Delivers E St) (hbuf : s.reader.buf = [])
    (hst : St s.reader.inner w (wirePacket version code payload.bytes))
    (make : UInt8 → UInt64 → Vec → P) :
    Always E (succeeds fun p s' w' => p = make version.toUInt8 code payload ∧
        s'.writer = s.writer ∧ s'.reader.buf = [] ∧ St s'.reader.inner w' [])
      (Channel.onReader (readFrom make) s) w := by
  have hview : BufReader.view St s.reader w (wirePacket version code payload.bytes ++ []) :=
    ⟨_, by rw [hbuf, List.append_nil, List.nil_append], hst⟩
  refine (Channel.onReader_ok (readFrom_wirePacket make (BufReader.delivers h) hview)).mono
    (succeeds_mono ?_)
  rintro _ _ w' ⟨r, ⟨rfl, t, ht, hst'⟩, rfl⟩
  obtain ⟨hbuf', rfl⟩ := List.append_eq_nil_iff.mp ht.symm
  exact ⟨rfl, rfl, hbuf', hst'⟩

end

section

variable {L : List (Event X Y)} {bs : Bytes}

theorem Pipe.accepts_message {p : Pipe} (hp : p.Open) (hne : bs ≠ []) :
    Accepts (messaging alone : Env (IoRes X Y) (List (Event X Y))) p (.send bs :: L) bs (· = L)
      fun _ => False where
  write := by
    rw [write_cons hne hp]
    refine .call rfl fun r w' hstep => ?_
    obtain ⟨rfl, rfl⟩ := hstep
    exact .ret ⟨rfl, rfl, rfl⟩
  flush hu := .ret ⟨rfl, hu⟩

theorem WriteEnd.accepts_message {v : WriteEnd} (hv : v.Open) (hne : bs ≠ []) :
    Accepts (messaging alone : Env (IoRes X Y) (List (Event X Y))) v (.send bs :: L) bs (· = L)
      fun _ => False where
  write := by
    obtain ⟨fd, ⟨p⟩⟩ := v
    obtain ⟨rfl, hp⟩ := hv
    have hcall : Always (messaging alone : Env (IoRes X Y) (List (Event X Y)))
        (succeeds fun k s w => k = bs.length ∧ s = ⟨p⟩ ∧ w = L)
        (WriteSyscall.ecall (firstFdSlot + 1) bs ⟨p⟩) (.send bs :: L) := by
      simp only [WriteSyscall.ecall, ne_eq, not_true_eq_false, ↓reduceIte, hne]
      apply always_seq_ok (always_mapErr_ok (always_zoom_ok (P := fun _ q w => q = p ∧ w = L) ?_))
      · rintro _ _ _ ⟨_, ⟨rfl, rfl⟩, rfl⟩
        exact .ret ⟨rfl, rfl, rfl⟩
      · rw [Pipe.write_cons hne hp]
        refine .call rfl fun r w' hstep => ?_
        obtain ⟨rfl, rfl⟩ := hstep
        exact .ret ⟨rfl, rfl⟩
    simp only [Write.write, hne, ↓reduceIte, get_seq]
    refine Always.mono (always_zoom_ok (syscall_ok hcall))
      fun o w ho => resolves_of_succeeds o w (succeeds_mono ?_ o w ho)
    rintro _ _ _ ⟨_, ⟨rfl, rfl, rfl⟩, rfl⟩
    exact ⟨rfl, rfl, rfl⟩
  flush hu := .ret ⟨rfl, hu⟩

/-- Behind the script the channel is closed. -/
theorem Pipe.refuses_message {p : Pipe} (halone : alone) (hp : p.Open) :
    Refuses (messaging alone : Env (IoRes X Y) (List (Event X Y))) p (· = []) where
  write := by
    rintro _ bs rfl hne
    rw [write_cons hne hp]
    refine .call halone fun r w' hstep => ?_
    obtain ⟨⟨e, rfl⟩, rfl⟩ := hstep
    exact .ret ⟨by rintro ⟨⟩, rfl, rfl⟩

/-- Behind its last event a reader waits for ever. -/
theorem Pipe.read_listen {p : Pipe} (hp : p.Empty) (n : Nat) :
    Always (messaging alone : Env (IoRes X Y) (List (Event X Y))) (fun _ _ => False)
      (Read.read n p) [.listen] := by
  rw [read_waiting hp.2 hp.1]
  exact .call trivial fun _ _ h => h.elim

theorem ReadEnd.read_listen [Allocator] {sizes : Sizes} (hsizes : sizes.Granted) {r : ReadEnd}
    (hr : r.Empty sizes) (n : Nat) :
    Always (messaging alone : Env (IoRes X Y) (List (Event X Y))) (fun _ _ => False)
      (Read.read n r) [.listen] := by
  have hcall : Always (messaging alone : Env (IoRes X Y) (List (Event X Y))) (fun _ _ => False)
      (ReadSyscall.receive (r.sizes.1 r.count n) r.machine) [.listen] :=
    always_map_never (always_map_never (Pipe.read_listen hr.2 _))
  rw [read_granted hsizes hr.1]
  exact always_map_never (always_seq_never (always_map_never hcall))

end

section

variable [Allocator]

/-- The channel of the client. -/
theorem follows_pipes : Channel.Follows (messaging alone : Env (IoRes X Y) (List (Event X Y)))
    fun L (s : Channel Pipe Pipe) w => ClientIdle s ∧ w = L where
  recv := by
    rintro P make version code payload L s w ⟨hs, rfl⟩
    have hne := wirePacket_ne_nil version code payload.bytes
    refine (recv_message (Pipe.delivers (messaging_hands L)) hs.reader_buf
      (Pipe.awaits_due hs.reader hne) make).mono (succeeds_mono ?_)
    rintro _ s' w ⟨rfl, hwriter, hbuf, hst⟩
    obtain ⟨hempty, rfl⟩ := Pipe.empty_of_awaits hst
    exact ⟨rfl, ⟨hbuf, hempty, hwriter ▸ hs.writer_buf, hwriter ▸ hs.writer⟩, rfl⟩
  send := by
    rintro bs L s w hne ⟨hs, rfl⟩
    refine (Channel.sendBytes_taken (Pipe.accepts_message hs.writer hne) hne
      hs.writer_buf).mono (succeeds_mono ?_)
    rintro _ _ w ⟨rfl, rfl⟩
    exact ⟨hs, rfl⟩
  ask := by
    rintro x y L s w ⟨hs, rfl⟩
    refine ⟨rfl, fun hstep => ?_⟩
    obtain ⟨rfl, rfl⟩ := hstep
    exact ⟨rfl, hs, rfl⟩
  listen := by
    rintro T _ s w ⟨hs, rfl⟩
    exact Channel.receiveRequest_never (fun n _ => Pipe.read_listen hs.reader n) hs.reader_buf

/-- The channel of the script. -/
theorem follows_ends {sizes : Sizes} (hsizes : sizes.Granted) :
    Channel.Follows (messaging alone : Env (IoRes X Y) (List (Event X Y)))
      fun L (s : Channel ReadEnd WriteEnd) w => ServerIdle sizes s ∧ w = L where
  recv := by
    rintro P make version code payload L s w ⟨hs, rfl⟩
    have hne := wirePacket_ne_nil version code payload.bytes
    refine (recv_message (ReadEnd.delivers_granted hsizes (messaging_hands L)) hs.reader_buf
      ⟨hs.reader.1, Pipe.awaits_due hs.reader.2 hne⟩ make).mono (succeeds_mono ?_)
    rintro _ s' w ⟨rfl, hwriter, hbuf, hfd, hst⟩
    obtain ⟨hempty, rfl⟩ := Pipe.empty_of_awaits hst
    exact ⟨rfl, ⟨hbuf, ⟨hfd, hempty⟩, hwriter ▸ hs.writer_buf, hwriter ▸ hs.writer⟩, rfl⟩
  send := by
    rintro bs L s w hne ⟨hs, rfl⟩
    refine (Channel.sendBytes_taken (WriteEnd.accepts_message hs.writer hne) hne
      hs.writer_buf).mono (succeeds_mono ?_)
    rintro _ _ w ⟨rfl, rfl⟩
    exact ⟨hs, rfl⟩
  ask := by
    rintro x y L s w ⟨hs, rfl⟩
    refine ⟨rfl, fun hstep => ?_⟩
    obtain ⟨rfl, rfl⟩ := hstep
    exact ⟨rfl, hs, rfl⟩
  listen := by
    rintro T _ s w ⟨hs, rfl⟩
    exact Channel.receiveRequest_never (fun n _ => ReadEnd.read_listen hsizes hs.reader n)
      hs.reader_buf

end

/-! ## A client that does not give up -/

end Native

namespace Channel

variable [Allocator] {X Y Req Resp : Type}

/-- One request after the other, whatever becomes of each. -/
def askEach {R V : Type} [Read R] [Write V] [Serde Req] [Serde Resp] : List (Ask Req) →
    Method (IoRes X Y) IpcError (Channel R V) (List (Except IpcError (Received Resp)))
  | [] => pure []
  | a :: as => do
    let result ← Method.attempt (ask a)
    let results ← askEach as
    return result :: results

omit [Allocator] in
/-- An error of the writer is always the same one for the caller. -/
theorem sendBytes_errors {W R V : Type} [Write V] {E : Env (IoRes X Y) W} (bs : Bytes)
    (s : Channel R V) (w : W) : Safely E (fun _ => True)
      (settles (fun _ _ _ => True) fun e _ _ => e = .generalIoError) (sendBytes bs s) w := by
  have hwriter : ∀ {α : Type} (x : Method (IoRes X Y) ErrorKind (BufWriter V) α)
      (s : Channel R V) (w : W), Safely E (fun _ => True)
        (settles (fun _ _ _ => True) fun e _ _ => e = .generalIoError) (onWriter x s) w := by
    intro α x s w
    refine safely_map (safely_map ((safely_any x s.writer w).mono (fun _ hi => hi) ?_))
    rintro (⟨e | a, t⟩ | _) w' - -
    · exact rfl
    · exact trivial
    · exact trivial
  exact safely_seq_settles (hwriter _ s w) (fun _ s' w' _ => hwriter _ s' w') fun _ _ _ he => he

end Channel

namespace Ask

variable [Allocator] {Req Resp σ : Type} [Serde Req] [Serde Resp]

/-- What the client gets: the replies as long as there are any, and then the error of a closed
channel. -/
def outcomes : List (Ask Req) → List (Incoming × Reply Req Resp σ) →
    List (Except IpcError (Received Resp))
  | [], _ => []
  | a :: as, xs =>
    match a.payload, xs with
    | none, xs => .error .serializeError :: outcomes as xs
    | some _, [] => .error .generalIoError :: outcomes as []
    | some _, x :: xs => a.seen x.2.sent :: outcomes as xs

variable {a : Ask Req} {as : List (Ask Req)} {xs : List (Incoming × Reply Req Resp σ)}
  {payload : Vec}

theorem outcomes_unsent (ha : a.payload = none) :
    outcomes (a :: as) xs = .error .serializeError :: outcomes as xs := by
  simp only [outcomes, ha]

theorem outcomes_alone (ha : a.payload = some payload) :
    outcomes (a :: as) ([] : List (Incoming × Reply Req Resp σ)) =
      .error .generalIoError :: outcomes as ([] : List (Incoming × Reply Req Resp σ)) := by
  simp only [outcomes, ha]

theorem outcomes_seen {x : Incoming × Reply Req Resp σ} (ha : a.payload = some payload) :
    outcomes (a :: as) (x :: xs) = a.seen x.2.sent :: outcomes as xs := by
  simp only [outcomes, ha]

end Ask

namespace Native

section

variable [Allocator] {X Y Req Resp σ : Type} {alone : Prop} [Serde Req] [Serde Resp]
  {s : Channel Pipe Pipe}

/-- The result of one request, and then the others. -/
theorem always_askEach {a : Ask Req} {as : List (Ask Req)} {L L' : List (Event X Y)}
    {At : Channel Pipe Pipe → Prop} {result : Except IpcError (Received Resp)}
    {results : List (Except IpcError (Received Resp))}
    (hask : Always (messaging alone) (returns fun r w => r.1 = result ∧ At r.2 ∧ w = L')
      (Channel.ask a s) L)
    (hrest : ∀ s', At s' → Always (messaging alone) (returns fun r w => r.1 = .ok results ∧ w = [])
      (Channel.askEach as s') L') :
    Always (messaging alone) (returns fun r w => r.1 = .ok (result :: results) ∧ w = [])
      (Channel.askEach (a :: as) s) L := by
  have hattempt : Always (messaging alone)
      (succeeds fun r s' w => r = result ∧ At s' ∧ w = L')
      ((Method.attempt (Channel.ask a) : Method _ IpcError _ _) s) L := by
    refine always_map (hask.mono ?_)
    rintro (⟨r, s'⟩ | _) w hr
    · exact hr
    · exact hr
  apply always_seq_ok hattempt
  rintro _ s' w ⟨rfl, hat, rfl⟩
  exact Channel.always_results (P := fun _ w => w = []) _ (hrest s' hat)

/-- A client that asks when the channel is closed. -/
theorem ask_alone {a : Ask Req} {payload : Vec} (halone : alone) (ha : a.payload = some payload)
    (hw : s.writer.inner.Open) :
    Always (messaging alone : Env (IoRes X Y) (List (Event X Y)))
      (fails fun e s' w => e = .generalIoError ∧ s'.writer.inner.Open ∧ w = [])
      (Channel.ask a s : Prog _ (Except IpcError (Received Resp) × Channel Pipe Pipe)) [] := by
  have hsend : Always (messaging alone : Env (IoRes X Y) (List (Event X Y)))
      (fails fun e s' w => e = .generalIoError ∧ s'.writer.inner.Open ∧ w = [])
      (Channel.sendBytes (Ask.incoming payload).wire s) [] := by
    refine ((Channel.sendBytes_refused (Pipe.refuses_message halone hw)
      (wirePacket_ne_nil 0 0 payload.bytes) rfl).and_safely
      (Channel.sendBytes_errors _ s [])).mono ?_
    rintro (⟨e | _, s'⟩ | _) w ⟨ho, he⟩
    · obtain ⟨hinner, rfl⟩ := ho
      exact ⟨he, by rwa [hinner], rfl⟩
    · exact ho.elim
    · exact ho.elim
  cases a with
  | call req =>
    have hreq : (Channel.sendRequest req : Method (IoRes X Y) IpcError (Channel Pipe Pipe) Unit) s =
        Channel.sendBytes (Ask.incoming payload).wire s := by
      have hvec : Serde.toVec req = some payload := ha
      rw [Channel.sendRequest, hvec]
      rfl
    exact always_seq_err (always_seq_err (hreq ▸ hsend) fun _ _ _ h => h) fun _ _ _ h => h
  | json text =>
    obtain rfl : text = payload := Option.some.inj ha
    exact always_seq_err hsend fun _ _ _ h => h

theorem askEach_alone {as : List (Ask Req)} (halone : alone) (hw : s.writer.inner.Open) :
    Always (messaging alone : Env (IoRes X Y) (List (Event X Y)))
      (returns fun r w => r.1 = .ok (Ask.outcomes as ([] : List (Incoming × Reply Req Resp σ))) ∧
        w = []) (Channel.askEach as s) [] := by
  induction as generalizing s with
  | nil => exact .ret ⟨rfl, rfl⟩
  | cons a as ih =>
    cases ha : a.payload with
    | none =>
      rw [Ask.outcomes_unsent ha]
      refine always_askEach ?_ fun s' (hw' : s'.writer.inner.Open) => ih hw'
      rw [Channel.ask_unsent ha]
      exact .ret ⟨rfl, hw, rfl⟩
    | some payload =>
      rw [Ask.outcomes_alone ha]
      refine always_askEach ((ask_alone halone ha hw).mono ?_)
        fun s' (hw' : s'.writer.inner.Open) => ih hw'
      rintro (⟨e | _, s'⟩ | _) w ho
      · obtain ⟨rfl, hw', rfl⟩ := ho
        exact ⟨rfl, hw', rfl⟩
      · exact ho.elim
      · exact ho.elim

/-- **Client.** It gets a reply for each request until the first failure, and the error of a
closed channel behind it. -/
theorem askEach_replies {answer : σ → Req → Except IpcError Resp × σ} {st : σ}
    {as : List (Ask Req)} (hanswer : ∀ st req, (answer st req).1 ≠ .error (.protocolError .ok))
    (halone : failure (replies answer st ((as.filterMap Ask.payload).map Ask.incoming)) ≠ none →
      alone) (hs : ClientIdle s) :
    Always (messaging alone : Env (IoRes X Y) (List (Event X Y)))
      (returns fun r w => r.1 = .ok (Ask.outcomes as
        (replies answer st ((as.filterMap Ask.payload).map Ask.incoming))) ∧ w = [])
      (Channel.askEach as s)
      (clientEvents ((replies answer st ((as.filterMap Ask.payload).map Ask.incoming)).map
        sessionRound)) := by
  induction as generalizing st s with
  | nil => exact .ret ⟨rfl, rfl⟩
  | cons a as ih =>
    cases ha : a.payload with
    | none =>
      rw [List.filterMap_cons_none ha] at halone ⊢
      rw [Ask.outcomes_unsent ha]
      refine always_askEach ?_ fun s' (hs' : ClientIdle s') => ih halone hs'
      rw [Channel.ask_unsent ha]
      exact .ret ⟨rfl, hs, rfl⟩
    | some payload =>
      rw [List.filterMap_cons_some ha, List.map_cons] at halone ⊢
      have hask : ∀ L, Always (messaging alone : Env (IoRes X Y) (List (Event X Y)))
          (returns fun r w => r.1 = a.seen (reply answer st payload).sent ∧ ClientIdle r.2 ∧ w = L)
          (Channel.ask a s : Prog _ (Except IpcError (Received Resp) × Channel Pipe Pipe))
          (.send (Ask.incoming payload).wire ::
            .recv (reply answer st payload).packet.serialize :: L) := by
        exact fun L => Channel.ask_seen follows_pipes ha ⟨hs, rfl⟩
          (Channel.reply_told hanswer st payload)
      cases hsent : (reply answer st payload).sent with
      | error e =>
        rw [replies_error (q := Ask.incoming payload) _ hsent] at halone ⊢
        rw [Ask.outcomes_seen ha]
        refine always_askEach (hask []) fun s' hs' => askEach_alone (halone fun h => ?_) hs'.writer
        cases (failure_error hsent).symm.trans h
      | ok v =>
        rw [replies_ok (q := Ask.incoming payload) _ hsent] at halone ⊢
        rw [Ask.outcomes_seen ha]
        exact always_askEach (hask _) fun s' hs' =>
          ih (fun h => halone fun h' => h ((failure_ok hsent).symm.trans h')) hs'

/-- **Server.** It follows the replies, and ends as it should. -/
theorem server_follows (answer : σ → Req → Except IpcError Resp × σ) (st : σ) (qs : List Incoming)
    {sizes : Sizes} (hsizes : sizes.Granted) {s : Channel ReadEnd WriteEnd}
    (hs : ServerIdle sizes s) :
    ServerFollows (Ended (replies answer st qs)) (Channel.execute served s)
      (serverEvents (failure (replies answer st qs)).isNone
        ((replies answer st qs).map sessionRound)) := by
  refine (Channel.execute_replies (follows_ends hsizes) ⟨hs, rfl⟩).mono (returns_mono ?_)
  rintro r w ⟨hended, -, rfl⟩
  exact ⟨hended, rfl⟩

end

end Native

/-! ## Both together -/

/-- **Native sessions end to end.** A native client that calls and sends JSON, and a service that
may fail. However the two threads are scheduled, and in whatever sizes the script reads that the
host can allocate, the client comes to return: it has the replies, request by request, until the
first failure, of which it is told, and each request behind that one fails since the server is
gone. The service has then been asked what the payloads stand for, up to that failure, and
nothing else. -/
theorem native_session_end_to_end [Allocator] [Serde Req] [Serde Resp]
    (answer : σ → Req → Except IpcError Resp × σ)
    (hanswer : ∀ st req, (answer st req).1 ≠ .error (.protocolError .ok)) (st : σ)
    (as : List (Ask Req)) (k l : Nat) (sizes : Native.Sizes) (hsizes : sizes.Granted) :
    let xs := replies answer st ((as.filterMap Ask.payload).map Ask.incoming)
    let (client, server) := Native.spawnServer k l sizes
    Inevitable (Hosted.Step answer) (Met (questions (xs.map sessionRound))
        (fun r => r.1 = .ok (Ask.outcomes as xs)) (Ended xs))
      ⟨⟨Channel.askEach as client, Channel.execute served server⟩, st, []⟩ := by
  intro xs
  refine meet (failure xs).isNone (gives_replies st _) ?_
    (Native.server_follows answer st _ hsizes (Native.serverIdle_spawned k l sizes))
  refine Native.askEach_replies hanswer (fun h => ?_) (Native.clientIdle_spawned k l sizes)
  rwa [← Bool.not_eq_true, Option.isNone_iff_eq_none]

section

attribute [local instance] Allocator.ample Lowercase.ascii Service.requestCodec
  Service.responseCodec

/-- The second call fails on the way, and the third one finds the server gone. -/
theorem greet_native :
    let xs := replies greet 0 ((greetings.filterMap Ask.payload).map Ask.incoming)
    let (client, server) := Native.spawnServer 8 8 Native.kilobyte
    Inevitable (Hosted.Step greet) (Met (questions (xs.map sessionRound))
        (fun r => r.1 = .ok (Ask.outcomes greetings xs)) (Ended xs))
      ⟨⟨Channel.askEach greetings client, Channel.execute served server⟩, 0, []⟩ :=
  native_session_end_to_end greet greet_told 0 greetings 8 8 Native.kilobyte
    Native.kilobyte_granted

end

end CkbScriptIpc
