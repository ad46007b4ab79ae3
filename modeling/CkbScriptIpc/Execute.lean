import CkbScriptIpc.Receiving
import CkbScriptIpc.Interaction.Runs

/-!
# The server loop

Runs of `execute` with a service that the environment answers for (`served`).
A run goes through turns that succeed until one fails with the first error, and
then tells the client (`execute_reach`).

* `failure_reported_iff`: which errors reach the client as themselves, when the
  writer takes everything;
* `execute_returns_first_error`: when `execute` returns its first error.
-/

namespace CkbScriptIpc

open Interaction

/-- The service, asked through the environment. -/
def served {Req Resp : Type} (req : Req) :
    Prog (IoRes Req (Except IpcError Resp)) (Except IpcError Resp) := .call (.ext req) .ret

section

variable [Allocator] {W Req Resp : Type} [Serde Req] [Serde Resp]
  {E : Env (IoRes Req (Except IpcError Resp)) W}

/-! ## Runs of `execute` -/

namespace Channel

/-- The runs of `execute` up to the head of a turn. -/
abbrev TurnsTo (E : Env (IoRes Req (Except IpcError Resp)) W) (s : Channel Source Sink) (w : W)
    (s₀ : Channel Source Sink) (w₀ : W) : Prop :=
  Turns E (executeTurn served) () s w () s₀ w₀

/-- The first error of `receive_request`, `serve` or `send_response` in a run is `e`. -/
def FirstError (E : Env (IoRes Req (Except IpcError Resp)) W) (s : Channel Source Sink) (w : W)
    (e : IpcError) (s₁ : Channel Source Sink) (w₁ : W) : Prop :=
  ∃ s₀ w₀, TurnsTo E s w s₀ w₀ ∧ Ends E (handle served s₀) w₀ (.ret (.error e, s₁)) w₁

variable {s s₀ s₁ : Channel Source Sink} {w w₀ w₁ w' : W} {e : IpcError}

/-- What `execute` still has to run behind its first error: tell the client. -/
def afterError (Req Resp : Type) [Serde Req] [Serde Resp] (e : IpcError)
    (s₁ : Channel Source Sink) :
    Prog (IoRes Req (Except IpcError Resp)) (Except IpcError Unit × Channel Source Sink) :=
  Method.rest (executeTurn (@served Req Resp)) (notify e) s₁

theorem reach_afterError (hturns : TurnsTo E s w s₀ w₀)
    (hfail : Ends E (handle served s₀) w₀ (.ret (.error e, s₁)) w₁) :
    Reach E (execute served s) w (afterError Req Resp e s₁) w₁ := by
  refine (reach_turns hturns).trans (reach_rest (x := notify e) ?_)
  exact reach_bind (reach_bind hfail _) _

omit [Serde Req] [Serde Resp] in
/-- `notify` hands its error on, or panics. -/
theorem notify_fails {α : Type} (e : IpcError) (s : Channel Source Sink) (w : W) :
    Safely E (fun _ => True) (settles (fun (_ : α) _ _ => False) fun e' _ _ => e' = e)
      (notify e s) w := by
  refine safely_seq_settles (safely_attempt_settles (safely_any _ _ _)) ?_ fun _ _ _ hf => hf.elim
  rintro (_ | _) s' w' -
  · exact safely_panic trivial trivial
  · exact safely_ret trivial rfl

omit [Serde Req] [Serde Resp] in
/-- `notify` never gives a result. -/
theorem notify_never_ok {α : Type} (e : IpcError) (s : Channel Source Sink) (w : W) :
    Safely E (fun _ => True) (whenOk fun (_ : α) _ _ => False) (notify e s) w :=
  (notify_fails e s w).settles_mono (fun _ _ _ _ hp => hp) fun _ _ _ _ _ => trivial

/-- A run is within a turn that has not failed, or is telling the client. -/
theorem execute_reach
    {q : Prog (IoRes Req (Except IpcError Resp)) (Except IpcError Unit × Channel Source Sink)}
    (h : Reach E (execute served s) w q w') :
    ∃ s₀ w₀, TurnsTo E s w s₀ w₀ ∧
      ((∃ p, Reach E (handle served s₀) w₀ p w') ∨
        ∃ e s₁ w₁, Ends E (handle served s₀) w₀ (.ret (.error e, s₁)) w₁ ∧
          Reach E (afterError Req Resp e s₁) w₁ q w') := by
  obtain ⟨⟨⟩, s₀, w₀, hturns, ⟨rfl, rfl⟩ | ⟨p, hp, rfl⟩⟩ := reach_iter_inv h
  · exact ⟨s₀, w', hturns, .inl ⟨_, .refl _ _⟩⟩
  · rcases reach_bind_inv hp with ⟨p', hp', -⟩ | ⟨⟨r, s₁⟩, w₁, hattempt, hrest⟩
    · rcases reach_bind_inv hp' with ⟨p'', hp'', -⟩ | ⟨r, w₁, hr, hret⟩
      · exact ⟨s₀, w₀, hturns, .inl ⟨p'', hp''⟩⟩
      · cases hret with
        | refl => exact ⟨s₀, w₀, hturns, .inl ⟨_, hr⟩⟩
        | head hs _ => cases hs
    · have hended : Ends E (Method.attempt (handle served) s₀) w₀ (.ret (r, s₁)) w₁ := hattempt
      obtain ⟨⟨e | ⟨⟩, s₂⟩ | _, hhandle, ho⟩ := ends_map_inv hended
      · cases ho
        exact ⟨s₀, w₀, hturns, .inr ⟨e, s₂, w₁, hhandle, reach_bind (reach_bind hrest _) _⟩⟩
      · cases ho
        have hnext : Ends E (executeTurn served () s₀) w₀ (.ret (.ok (.inl ()), s₂)) w₁ :=
          reach_bind hattempt _
        cases hrest with
        | refl => exact ⟨s₂, w', .more hturns hnext, .inl ⟨_, .refl _ _⟩⟩
        | head hs _ => cases hs
      · cases ho

/-- Behind its first error `execute` returns that error, or panics. -/
theorem afterError_returns (e : IpcError) (s₁ : Channel Source Sink) (w₁ : W) :
    Safely E (fun _ => True) (fun o _ => o = .panic ∨ ∃ s₂, o = .ret (.error e, s₂))
      (afterError Req Resp e s₁) w₁ := by
  refine safely_rest ((notify_fails e s₁ w₁).mono (fun _ hi => hi) ?_)
  rintro (⟨e' | _, s₂⟩ | _) w' - ho
  · obtain rfl : e' = e := ho
    exact ⟨_, rfl, .inr ⟨s₂, rfl⟩⟩
  · exact ho.elim
  · exact ⟨_, rfl, .inl rfl⟩

/-- At the head of a turn nothing waits in the writer's buffer. -/
theorem turnsTo_empty (hb : s.writer.buf = []) (h : TurnsTo E s w s₀ w₀) :
    s₀.writer.buf = [] := by
  refine turns_induction (J := fun _ s _ => s.writer.buf = []) hb ?_ h
  intro _ s₁ w₁ _ s₂ w₂ _ he
  have hturn : Safely E (fun _ => True) (whenOk fun _ s' _ => s'.writer.buf = [])
      (executeTurn served () s₁) w₁ := by
    refine safely_seq_settles (safely_attempt_settles (P := fun _ s' _ => s'.writer.buf = [])
      (F := fun _ _ _ => True) ?_) ?_ fun _ _ _ _ => trivial
    · refine safely_seq_whenOk (safely_any _ _ _) fun resp s' w' _ => ?_
      rw [sendResponse]
      cases Serde.toVec resp
      · exact safely_ret trivial trivial
      · exact sendBytes_empties _ _ _
    · rintro _ s' w' (⟨_, rfl, hb'⟩ | ⟨e, rfl, -⟩)
      · exact safely_ret trivial hb'
      · exact (notify_never_ok e s' w').whenOk_mono fun _ _ _ hf => hf.elim
  exact (hturn _ _ he).2 _ rfl

omit [Serde Resp] in
/-- Receiving and serving write nothing. -/
theorem receiveAndServe_quiet {out : W → Bytes} (h : FullWriter E out)
    (hr : Ends E (receiveAndServe (V := Sink) served s₀) w₀ (.ret (.error e, s₁)) w₁) :
    out w₁ = out w₀ ∧ s₁.writer = s₀.writer := by
  constructor
  · have hkeeps : KeepsWorld E (fun v => out v = out w₀) True
        (receiveAndServe served : Method _ IpcError (Channel Source Sink) Resp) := by
      refine keeps_seq (keeps_seq (keepsWorld_zoom (readFrom_keeps (BufReader.read_keeps
        (Source.read_keeps fun hi hs => (h.read hs).trans hi)) _) _ _) fun packet => ?_) fun req =>
        keeps_seq (keeps_call (fun _ _ _ hi hs => (h.ext hs).trans hi) _) fun r => keeps_ofExcept r
      cases Serde.fromSlice (T := Req) packet.payload.bytes
      · exact keeps_throw _
      · exact keeps_pure _
    exact (hkeeps s₀ w₀ trivial rfl _ _ hr).1
  · have hframes : Frames E Channel.writer
        (receiveAndServe served : Method _ IpcError (Channel Source Sink) Resp) := by
      refine frames_seq (frames_seq (frames_zoom _ fun _ _ => rfl) fun packet => ?_) fun req =>
        frames_seq (frames_lift _) fun r => frames_ofExcept r
      cases Serde.fromSlice (T := Req) packet.payload.bytes
      · exact frames_ofExcept (.error _)
      · exact frames_ofExcept (.ok _)
    exact (hframes s₀ w₀ _ _ hr).2 _ rfl _ _ rfl

/-- An error of `receive_request` or `serve` is one of `handle`. -/
theorem handle_of_receiveAndServe
    (h : Ends E (receiveAndServe (V := Sink) served s₀) w₀ (.ret (.error e, s₁)) w₁) :
    Ends E (handle served s₀) w₀ (.ret (.error e, s₁)) w₁ :=
  reach_bind h _

/-- The packet that tells the client about `e`. -/
def errorPacket (e : IpcError) : ResponsePacket :=
  ResponsePacket.new (ProtocolErrorCode.ofIpcError e).toU64 Vec.empty

theorem afterError_full {out : W → Bytes} (h : FullWriter E out) (hb : s₁.writer.buf = [])
    (e : IpcError) (w : W) :
    Always E (fun o w' => (∃ s', o = .ret (.error e, s')) ∧
      out w' = out w ++ (errorPacket e).serialize) (afterError Req Resp e s₁) w := by
  refine always_rest (always_seq_ok (always_attempt_ok (sendBytes_once (h.takesOnce w _)
    (errorPacket e).serialize_ne_nil hb)) ?_)
  rintro _ s' w' ⟨_, rfl, -, hout⟩
  exact .ret ⟨_, rfl, ⟨s', rfl⟩, hout⟩

end Channel

/-! ## Errors that reach the client -/

/-- Whatever follows the packet, a client that reads it gets the error `e`. -/
def ClientGets (packet : ResponsePacket) (e : IpcError) : Prop :=
  ∀ (Resp : Type) [Serde Resp] (s : Channel Source Sink) (w rest : Bytes),
    s.reader.buf ++ w = packet.serialize ++ rest →
    Always (chunked (X := Unit) (Y := Unit))
      (returns fun r w' => r.1 = .error e ∧ r.2.reader.buf ++ w' = rest)
      ((Channel.receiveResponse : Method _ _ _ Resp) s) w

/-- One response packet has been written since `before`, it stands for the error
`e`, and `execute` has returned `e`. -/
def ToldClient (out : W → Bytes) (before : Bytes) (e : IpcError) :
    Outcome (Except IpcError Unit × Channel Source Sink) → W → Prop :=
  returns fun r w => r.1 = .error e ∧ ∃ packet : ResponsePacket,
    out w = before ++ packet.serialize ∧ packet.errorCode ≠ 0 ∧ packet.payload = Vec.empty ∧
    ClientGets packet (.protocolError (ProtocolErrorCode.ofIpcError e))

/-- In every run in which the writer takes everything and `receive_request` or
`serve` fails with `e`, the client is told so. -/
def FailureReported (e : IpcError) : Prop :=
  ∀ {W Req Resp : Type} [Serde Req] [Serde Resp]
    (E : Env (IoRes Req (Except IpcError Resp)) W) (out : W → Bytes), FullWriter E out →
    ∀ (s s₀ s₁ : Channel Source Sink) (w w₀ w₁ : W), s.writer.buf = [] →
      Channel.TurnsTo E s w s₀ w₀ →
      Ends E (Channel.receiveAndServe served s₀) w₀ (.ret (.error e, s₁)) w₁ →
      Reach E (Channel.execute served s) w (Channel.afterError Req Resp e s₁) w₁ ∧
        Always E (ToldClient out (out w₀) e) (Channel.afterError Req Resp e s₁) w₁

theorem clientGets_errorPacket {e : IpcError} (he : e ≠ .protocolError .ok) :
    ClientGets (Channel.errorPacket e) (.protocolError (ProtocolErrorCode.ofIpcError e)) := by
  intro Resp _ s w rest hst
  refine always_seq_err (Channel.receivePacket_error
    (Source.deliversAll (X := Unit) (Y := Unit)).toStreams (view_source.mpr hst)
    (ProtocolErrorCode.n_toU64 _) fun h => he (ProtocolErrorCode.ofIpcError_eq_ok.mp h)) ?_
  rintro _ s' w' ⟨rfl, -, hst'⟩
  exact ⟨rfl, view_source.mp hst'⟩

theorem failureReported_of_ne {e : IpcError} (he : e ≠ .protocolError .ok) :
    FailureReported e := by
  intro W Req Resp _ _ E out hfull s s₀ s₁ w w₀ w₁ hb hturns hfail
  obtain ⟨hout, hwriter⟩ := Channel.receiveAndServe_quiet hfull hfail
  have hb₁ : s₁.writer.buf = [] := by rw [hwriter, Channel.turnsTo_empty hb hturns]
  refine ⟨Channel.reach_afterError hturns (Channel.handle_of_receiveAndServe hfail),
    (Channel.afterError_full hfull hb₁ e w₁).mono ?_⟩
  rintro _ w' ⟨⟨s', rfl⟩, hout'⟩
  refine ⟨rfl, Channel.errorPacket e, by rw [hout', hout], ?_, rfl, clientGets_errorPacket he⟩
  exact fun h0 => he (ProtocolErrorCode.ofIpcError_eq_ok.mp (ProtocolErrorCode.toU64_eq_zero.mp h0))

/-- A service that fails with the success code, as one that forwards it would, and
a writer that takes everything; the world is what was written. -/
def successAsError : Env (IoRes Vec (Except IpcError Vec)) Bytes where
  pre
    | _, .read _ => False
    | _, _ => True
  step
    | _, .read _, _, _ => False
    | w, .write bs, r, w' => r = .ok bs.length ∧ w' = w ++ bs
    | w, .flush, r, w' => r = .ok () ∧ w' = w
    | w, .ext _, r, w' => r = .error (.protocolError .ok) ∧ w' = w

theorem successAsError_answers : successAsError.Answers := by
  rintro w (n | bs | _ | req) hp
  · exact hp.elim
  · exact ⟨_, _, rfl, rfl⟩
  · exact ⟨_, _, rfl, rfl⟩
  · exact ⟨_, _, rfl, rfl⟩

theorem successAsError_full : FullWriter successAsError id where
  pre_write _ _ := trivial
  pre_flush _ := trivial
  write hs := hs
  flush hs := hs
  read hs := hs.elim
  ext hs := hs.2

/-- A channel that has an empty request buffered. -/
def requestBuffered : Channel Source Sink :=
  ⟨⟨⟨⟩, (RequestPacket.new Vec.empty).serialize, 8⟩, ⟨⟨⟩, [], 8⟩⟩

theorem successAsError_fails :
    Always successAsError (fails fun e _ w => e = .protocolError .ok ∧ w = [])
      (Channel.receiveAndServe served requestBuffered) [] := by
  -- the reader has nothing to deliver beyond what is buffered
  have hnone : Delivers successAsError (fun (_ : Source) w s => w = [] ∧ s = []) :=
    ⟨fun hst hs _ => absurd hst.2 hs⟩
  refine always_seq_ok (P := fun _ _ w => w = []) ?_ ?_
  · refine always_seq_ok (Channel.onReader_ok (RequestPacket.readFrom_serialize
      (BufReader.delivers hnone) (RequestPacket.new Vec.empty) [] _ _
      ⟨[], by simp [requestBuffered], rfl, rfl⟩)) ?_
    rintro _ _ w ⟨_, ⟨rfl, _, -, rfl, -⟩, rfl⟩
    simp only [fromSlice_bytes]
    exact .ret rfl
  · rintro req s w rfl
    refine .call trivial fun r w hs => ?_
    obtain ⟨rfl, rfl⟩ := hs
    exact .ret ⟨rfl, rfl⟩

theorem not_failureReported_ok : ¬ FailureReported (.protocolError .ok) := by
  intro h
  obtain ⟨o, w₁, hends, ho⟩ := successAsError_fails.exists_ends successAsError_answers
  rcases o with ⟨e | _, s₁⟩ | _
  · obtain ⟨rfl, rfl⟩ := ho
    obtain ⟨-, htold⟩ := h successAsError id successAsError_full requestBuffered _ s₁ [] _ []
      rfl .none hends
    have hb : s₁.writer.buf = [] := by
      rw [(Channel.receiveAndServe_quiet successAsError_full hends).2]
      rfl
    have hwritten := Channel.afterError_full successAsError_full hb (.protocolError .ok) []
    obtain ⟨o, w, -, ⟨⟨s', rfl⟩, hout⟩, -, packet, hpacket, hne, -⟩ :=
      (hwritten.and htold).exists_ends successAsError_answers
    exact hne (ResponsePacket.errorCode_of_serialize (hpacket.symm.trans hout))
  · exact ho.elim
  · exact ho.elim

/-- **Failures reach the client as themselves**, all but an error that carries the
success code. -/
theorem failure_reported_iff (e : IpcError) : FailureReported e ↔ e ≠ .protocolError .ok :=
  ⟨by rintro h rfl; exact not_failureReported_ok h, failureReported_of_ne⟩

end

/-- With no allocator is a service that fails with the success code reported. -/
theorem success_code_unreported : ¬ ∃ _ : Allocator, FailureReported (.protocolError .ok) :=
  fun ⟨_, h⟩ => not_failureReported_ok h

end CkbScriptIpc
