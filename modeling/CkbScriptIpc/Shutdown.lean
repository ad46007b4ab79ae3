import CkbScriptIpc.Execute

/-!
# Shutting down

How `execute` ends. `execute_returns_first_error`: it returns its first error,
provided that the writer still takes the packet that tells the client;
`shutdown_panics`: when both ends are closed, it panics.
-/

namespace CkbScriptIpc

open Interaction

variable {W : Type}

/-! ## A writer that delivers -/

section

variable {X Y : Type}

/-- The part of an environment in which the writer delivers: a write takes
something, and no call on the writer fails. With `retry`, a write may also be
interrupted. -/
def delivering (E : Env (IoRes X Y) W) (retry : Prop) : Env (IoRes X Y) W where
  pre := E.pre
  step w op r w' := E.step w op r w' ∧
    match op, r with
    | .write _, .ok n => 0 < n
    | .write _, .error e => retry ∧ e = .interrupted
    | .flush, .ok _ => True
    | .flush, .error _ => False
    | .read _, _ => True
    | .ext _, _ => True

variable {E : Env (IoRes X Y) W} {retry : Prop}

namespace BufWriter

theorem flushBuf_delivering (s : BufWriter Sink) (w : W) :
    Safely (delivering E retry) (fun _ => True)
      (succeeds fun _ s' _ => s'.capacity = s.capacity) (flushBuf s) w := by
  refine safely_iter (fun _ t _ => t.capacity = s.capacity) ?_ rfl
  intro _ t w ht
  by_cases hb : t.buf = []
  · simp only [flushBufTurn, get_seq, hb, ↓reduceIte]
    exact safely_ret trivial ht
  · simp only [flushBufTurn, get_seq, hb, ↓reduceIte]
    refine safely_call trivial fun r w' hs => ?_
    rcases r with e | _ | n
    · obtain ⟨-, -, rfl⟩ := hs
      exact safely_ret trivial ht
    · exact absurd hs.2 (Nat.lt_irrefl 0)
    · exact safely_ret trivial ht

theorem passOrBuffer_delivering {s : BufWriter Sink} {bs : Bytes}
    (h : retry → bs.length < s.capacity) (w : W) :
    Safely (delivering E retry) (fun _ => True) (succeeds fun _ _ _ => True)
      (passOrBuffer bs s) w := by
  by_cases hcap : s.capacity ≤ bs.length
  · rw [passOrBuffer_large hcap]
    refine safely_call trivial fun r w' hs => ?_
    rcases r with e | n
    · exact absurd (h hs.2.1) (Nat.not_lt.mpr hcap)
    · exact safely_ret trivial trivial
  · rw [passOrBuffer_small (Nat.lt_of_not_le hcap)]
    exact safely_ret trivial trivial

theorem write_delivering {s : BufWriter Sink} {bs : Bytes} (h : retry → bs.length < s.capacity)
    (w : W) :
    Safely (delivering E retry) (fun _ => True) (succeeds fun _ _ _ => True)
      (Write.write bs s) w := by
  rcases Nat.lt_trichotomy bs.length s.spareCapacity with hlt | heq | hgt
  · rw [write_buffered hlt]
    exact safely_ret trivial trivial
  · rw [write_exact heq]
    exact passOrBuffer_delivering h w
  · rw [write_crowded hgt]
    refine safely_seq_ok (flushBuf_delivering s w) fun _ t w' ht => ?_
    exact passOrBuffer_delivering (ht ▸ h) w'

theorem flush_delivering (s : BufWriter Sink) (w : W) :
    Safely (delivering E retry) (fun _ => True) (succeeds fun _ _ _ => True)
      (Write.flush s) w := by
  refine safely_seq_ok (flushBuf_delivering s w) fun _ t w' _ => ?_
  refine safely_call trivial fun r w'' hs => ?_
  rcases r with e | u
  · exact hs.2.elim
  · exact safely_ret trivial trivial

end BufWriter

/-- While the writer delivers, sends succeed. -/
theorem Channel.sendBytes_delivering {R : Type} {s : Channel R Sink} {bs : Bytes}
    (h : retry → bs.length < s.writer.capacity) (w : W) :
    Safely (delivering E retry) (fun _ => True) (succeeds fun _ _ _ => True)
      (sendBytes bs s) w := by
  apply safely_seq_ok (safely_zoom_ok (safely_mapErr_ok (BufWriter.write_delivering h w)))
  rintro _ s' w' -
  exact (safely_zoom_ok (safely_mapErr_ok (BufWriter.flush_delivering _ w'))).mono
    (fun _ hi => hi) fun o v _ ho => succeeds_mono (fun _ _ _ _ => trivial) o v ho

end

theorem vlqEncode_length_one {v : UInt64} (h : v.toNat < 128) : (vlqEncode v).length = 1 := by
  rw [vlqEncode_small h]
  rfl

/-! ## How `execute` ends -/

section

variable [Allocator] {Req Resp : Type} [Serde Req] [Serde Resp]
  {E : Env (IoRes Req (Except IpcError Resp)) W} {s s₀ s₁ : Channel Source Sink}
  {w w₀ w₁ w' : W} {e : IpcError}

/-- In some turn the packet parser panics. -/
def ParserPanics (E : Env (IoRes Req (Except IpcError Resp)) W) (s : Channel Source Sink)
    (w w' : W) : Prop :=
  ∃ s₀ w₀, Channel.TurnsTo E s w s₀ w₀ ∧
    Ends E (Channel.onReader RequestPacket.readFrom s₀) w₀ .panic w'

/-- `execute` returns its first error in every run in which the parser does not panic. -/
def ReturnsFirstError (E : Env (IoRes Req (Except IpcError Resp)) W) (s : Channel Source Sink)
    (w : W) : Prop :=
  ∀ o w', Ends E (Channel.execute served s) w o w' → ¬ ParserPanics E s w w' →
    ∃ e s₁ w₁ s₂, Channel.FirstError E s w e s₁ w₁ ∧ o = .ret (.error e, s₂)

/-- Where `handle` panics, the parser does. -/
theorem parser_of_handle_panic (h : Ends E (Channel.handle served s₀) w₀ .panic w') :
    Ends E (Channel.onReader RequestPacket.readFrom s₀) w₀ .panic w' := by
  have hsend : ∀ resp : Resp, KeepsWorld E (fun _ => True) False
      (Channel.sendResponse resp : Method _ IpcError (Channel Source Sink) Unit) := by
    intro resp
    rw [Channel.sendResponse]
    cases Serde.toVec resp
    · exact keeps_throw _
    · exact Channel.sendBytes_keeps (fun _ _ => trivial) (fun _ _ => trivial) _
  have hserve : ∀ req : Req, KeepsWorld E (fun _ => True) False
      (Method.lift (served req) >>= Method.ofExcept :
        Method _ IpcError (Channel Source Sink) Resp) :=
    fun req => keeps_seq (keeps_call (fun _ _ _ _ _ => trivial) _) fun r => keeps_ofExcept r
  refine ends_seq_panic (fun packet => ?_) (ends_seq_panic hserve (ends_seq_panic hsend h))
  cases Serde.fromSlice (T := Req) packet.payload.bytes
  · exact keeps_throw _
  · exact keeps_pure _

/-- **Runs of `execute`.** A run ends with a panic of the parser, or it comes to a
first error and tells the client. -/
theorem execute_ends {o : Outcome (Except IpcError Unit × Channel Source Sink)}
    (h : Ends E (Channel.execute served s) w o w') :
    ParserPanics E s w w' ∨
      ∃ e s₁ w₁, Channel.FirstError E s w e s₁ w₁ ∧
        Ends E (Channel.afterError Req Resp e s₁) w₁ o w' := by
  obtain ⟨⟨⟩, s₀, w₀, o₁, hturns, hturn, ho⟩ := ends_iter h
  rcases ends_bind_inv hturn with ⟨⟨r, s₁⟩, w₁, hattempt, hrest⟩ | ⟨hattempt, rfl⟩
  · obtain ⟨⟨e | ⟨⟩, s₂⟩ | _, hhandle, ho₂⟩ := ends_map_inv hattempt
    · cases ho₂
      exact .inr ⟨e, s₂, w₁, ⟨s₀, w₀, hturns, hhandle⟩, ends_rest (x := Channel.notify e) hrest ho⟩
    · cases ho₂
      have hret : Reach E (Outcome.ret (Except.ok (Sum.inl ()), s₂)).toProg w₁ o₁.toProg w' := hrest
      obtain ⟨rfl, -⟩ := outcome_of_reach hret
      cases ho
    · cases ho₂
  · obtain ⟨_ | _, hhandle, ho₂⟩ := ends_map_inv hattempt
    · cases ho₂
    · exact .inl ⟨s₀, w₀, hturns, parser_of_handle_panic hhandle⟩

/-- The packet that tells of an error has three bytes. -/
theorem errorPacket_length (e : IpcError) : (Channel.errorPacket e).serialize.length = 3 := by
  have hcode := ProtocolErrorCode.toU64_range (ProtocolErrorCode.ofIpcError e)
  simp only [Channel.errorPacket, ResponsePacket.new, ResponsePacket.serialize, wirePacket,
    List.length_append, Vec.empty, List.length_nil]
  rw [vlqEncode_length_one (by decide), vlqEncode_length_one (by omega),
    vlqEncode_length_one (by decide)]

/-- While the writer delivers, telling the client does not panic. -/
theorem afterError_delivering (e : IpcError) (s₁ : Channel Source Sink) (w₁ : W) :
    Safely (delivering E (3 < s₁.writer.capacity)) (fun _ => True)
      (fun o _ => ∃ s₂, o = .ret (.error e, s₂)) (Channel.afterError Req Resp e s₁) w₁ := by
  refine safely_rest (safely_seq_ok (safely_attempt_ok (Channel.sendBytes_delivering ?_ w₁)) ?_)
  · intro hcap
    have hlen := errorPacket_length e
    rw [Channel.errorPacket] at hlen
    rwa [hlen]
  · rintro _ s₂ w₂ ⟨_, rfl, -⟩
    exact safely_ret trivial ⟨_, rfl, s₂, rfl⟩

end

/-! ## A client that has gone -/

section

variable [Allocator]

/-- The stream from the client has ended; a write of `n` bytes is answered by `answer n`. -/
def atEof (answer : Nat → Except ErrorKind Nat) : Env (IoRes Vec (Except IpcError Vec)) Unit where
  pre
    | _, .read _ => True
    | _, .write bs => bs ≠ []
    | _, .flush => True
    | _, .ext _ => False
  step
    | _, .read _, r, _ => r = .ok []
    | _, .write bs, r, _ => bs ≠ [] ∧ r = answer bs.length
    | _, .flush, r, _ => r = .ok ()
    | _, .ext _, _, _ => False

variable {answer : Nat → Except ErrorKind Nat}

theorem atEof_answers : (atEof answer).Answers := by
  rintro ⟨⟩ (n | bs | _ | req) hp
  · exact ⟨_, (), rfl⟩
  · exact ⟨_, (), hp, rfl⟩
  · exact ⟨_, (), rfl⟩
  · exact hp.elim

theorem atEof_deliversAll : DeliversAll (atEof answer) (fun (_ : Source) _ s => s = []) where
  chunk hst hs _ := absurd hst hs
  eof _ _ := .call trivial fun _ _ hs => by
    obtain rfl := hs
    exact .ret ⟨rfl, rfl⟩

/-- The parser finds no first byte. -/
theorem readFrom_atEof {s : Channel Source Sink} (hb : s.reader.buf = []) :
    Always (atEof answer) (fails fun e s' _ => e = .incompleteVlqSeq ∧ s'.writer = s.writer)
      (Channel.onReader RequestPacket.readFrom s) () := by
  refine always_map ((readFrom_badHeader (BufReader.deliversAll atEof_deliversAll)
    (s := []) (e := .incompleteVlqSeq) ⟨[], by simp [hb], rfl⟩ rfl).mono ?_)
  rintro (⟨e | _, r⟩ | _) _ ho
  · exact ⟨ho.1, rfl⟩
  · exact ho
  · exact ho

theorem handle_atEof {s : Channel Source Sink} (hb : s.reader.buf = []) :
    Always (atEof answer) (fails fun e s' _ => e = .incompleteVlqSeq ∧ s'.writer = s.writer)
      (Channel.handle served s) () :=
  always_seq_err (always_seq_err (always_seq_err (readFrom_atEof hb) fun _ _ _ h => h)
    fun _ _ _ h => h) fun _ _ _ h => h

theorem turnsTo_atEof {s s₀ : Channel Source Sink} {w₀ : Unit} (hb : s.reader.buf = [])
    (h : Channel.TurnsTo (atEof answer) s () s₀ w₀) : s₀.reader.buf = [] := by
  refine turns_induction (J := fun _ s _ => s.reader.buf = []) hb ?_ h
  intro _ s₁ w₁ _ s₂ w₂ hb₁ he
  have hturn : Safely (atEof answer) (fun _ => True) (whenOk fun _ _ _ => False)
      (Channel.executeTurn served () s₁) () := by
    refine safely_seq_ok (P := fun r _ _ => ∃ e, r = .error e) ?_ ?_
    · refine safely_map ((handle_atEof hb₁).safely.mono (fun _ hi => hi) ?_)
      rintro (⟨e | _, _⟩ | _) _ - ho
      · exact ⟨e, rfl⟩
      · exact ho.elim
      · exact ho.elim
    · rintro _ s' w' ⟨e, rfl⟩
      exact Channel.notify_never_ok e s' w'
  exact ((hturn _ _ he).2 _ rfl).elim

theorem not_parserPanics_atEof {s : Channel Source Sink} (hb : s.reader.buf = []) :
    ¬ ParserPanics (atEof answer) s () () := by
  rintro ⟨s₀, w₀, hturns, hpanic⟩
  exact (readFrom_atEof (turnsTo_atEof hb hturns)).ends hpanic

/-- With the stream at its end, `execute` comes to telling the client. -/
theorem exists_firstError_atEof {s : Channel Source Sink} (hb : s.reader.buf = []) :
    ∃ s₁, Channel.FirstError (atEof answer) s () .incompleteVlqSeq s₁ () ∧
      Reach (atEof answer) (Channel.execute served s) ()
        (Channel.afterError Vec Vec .incompleteVlqSeq s₁) () ∧ s₁.writer = s.writer := by
  obtain ⟨o, _, hends, ho⟩ := (handle_atEof hb).exists_ends (@atEof_answers _ answer)
  rcases o with ⟨e | _, s₁⟩ | _
  · obtain ⟨rfl, hw⟩ := ho
    exact ⟨s₁, ⟨s, (), .none, hends⟩, Channel.reach_afterError .none hends, hw⟩
  · exact ho.elim
  · exact ho.elim

/-- A packet reaches a writer that takes everything. -/
theorem sendBytes_open {s : Channel Source Sink} {bs : Bytes} (hne : bs ≠ [])
    (hb : s.writer.buf = []) :
    Always (atEof .ok) (succeeds fun _ _ _ => True) (Channel.sendBytes bs s) () := by
  have htakes : TakesOnce (atEof .ok) () bs fun _ => True :=
    ⟨hne, fun hs => ⟨hs.2, trivial⟩, fun _ => trivial, fun _ hs => ⟨hs, trivial⟩⟩
  exact (Channel.sendBytes_once htakes hne hb).mono (succeeds_mono fun _ _ _ _ => trivial)

/-- No packet is sent to a writer that is closed. -/
theorem sendBytes_closed {s : Channel Source Sink} {bs : Bytes} (hne : bs ≠ []) :
    Always (atEof fun _ => .error .other) (fails fun _ _ _ => True)
      (Channel.sendBytes bs s) () := by
  have hrefuses : Refuses (atEof fun _ => .error .other) s.writer.inner fun _ => True := by
    refine ⟨fun {_ _} _ hbs => .call hbs fun r _ hs => ?_⟩
    obtain ⟨-, rfl⟩ := hs
    exact .ret ⟨by decide, rfl, trivial⟩
  exact (Channel.sendBytes_refused hrefuses hne trivial).mono (fails_mono fun _ _ _ _ => trivial)

end

/-! ## Returning the first error -/

/-- **The server returns its first error**, in every run in which the writer
delivers while the client is told of it. -/
theorem execute_returns_first_error [Allocator] {Req Resp : Type} [Serde Req] [Serde Resp]
    {E : Env (IoRes Req (Except IpcError Resp)) W} {s : Channel Source Sink} {w w' : W}
    {o : Outcome (Except IpcError Unit × Channel Source Sink)}
    (hrun : Ends E (Channel.execute served s) w o w') (hparser : ¬ ParserPanics E s w w')
    (hnotify : ∀ e s₁ w₁, Channel.FirstError E s w e s₁ w₁ →
      Ends E (Channel.afterError Req Resp e s₁) w₁ o w' →
      Ends (delivering E (3 < s₁.writer.capacity)) (Channel.afterError Req Resp e s₁) w₁ o w') :
    ∃ e s₁ w₁ s₂, Channel.FirstError E s w e s₁ w₁ ∧ o = .ret (.error e, s₂) := by
  obtain ⟨e, s₁, w₁, hfirst, hrest⟩ := (execute_ends hrun).resolve_left hparser
  obtain ⟨s₂, rfl⟩ :=
    ((afterError_delivering e s₁ w₁) _ _ (hnotify e s₁ w₁ hfirst hrest)).2 o rfl
  exact ⟨e, s₁, w₁, s₂, hfirst, rfl⟩

section

attribute [local instance] Allocator.ample

/-- The client has closed its end for writing only: it is told, and `execute`
returns. -/
theorem eof_returns_first_error :
    ∃ o, Ends (atEof .ok) (Channel.execute served (Channel.new 8 Source.mk Sink.mk)) () o () ∧
      ∃ e s₁ w₁ s₂, Channel.FirstError (atEof .ok) (Channel.new 8 Source.mk Sink.mk) () e s₁ w₁ ∧
        o = .ret (.error e, s₂) := by
  obtain ⟨s₁, -, hreach, hw⟩ := @exists_firstError_atEof _ .ok
    (Channel.new 8 Source.mk Sink.mk) rfl
  have hsend : Always (atEof .ok) (succeeds fun _ _ _ => True)
      (Channel.sendErrorCode (R := Source) .incompleteVlqSeq s₁) () :=
    sendBytes_open (by decide +kernel) (by rw [hw]; rfl)
  have hrest : Always (atEof .ok) (fun _ _ => True)
      (Channel.afterError Vec Vec .incompleteVlqSeq s₁) () := by
    refine always_rest (always_seq_ok (always_attempt_ok hsend) ?_)
    rintro _ s₂ w₂ ⟨_, rfl, -⟩
    exact .ret ⟨_, rfl, trivial⟩
  obtain ⟨o, _, hends, -⟩ := hrest.exists_ends atEof_answers
  have hrun := hreach.trans hends
  refine ⟨o, hrun, execute_returns_first_error hrun (not_parserPanics_atEof rfl) ?_⟩
  intro e s₁ w₁ _ h
  apply h.mono
  rintro _ (n | bs | _ | req) r _ hs
  · exact ⟨hs, trivial⟩
  · obtain ⟨hne, rfl⟩ := hs
    exact ⟨⟨hne, rfl⟩, List.length_pos_iff.mpr hne⟩
  · obtain rfl := hs
    exact ⟨rfl, trivial⟩
  · exact hs.elim

/-- When the client has exited, with both ends closed, `execute` panics. -/
theorem shutdown_panics :
    ¬ ReturnsFirstError (atEof fun _ => .error .other) (Channel.new 8 Source.mk Sink.mk) () := by
  obtain ⟨s₁, -, hreach, hw⟩ := @exists_firstError_atEof _
    (fun _ => .error .other) (Channel.new 8 Source.mk Sink.mk) rfl
  have hsend : Always (atEof fun _ => .error .other) (fails fun _ _ _ => True)
      (Channel.sendErrorCode (R := Source) .incompleteVlqSeq s₁) () :=
    sendBytes_closed (by decide +kernel)
  have hrest : Always (atEof fun _ => .error .other) panics
      (Channel.afterError Vec Vec .incompleteVlqSeq s₁) () := by
    refine always_rest (always_seq (always_map (hsend.mono ?_)))
    rintro (⟨e | _, s₂⟩ | _) _ ho
    · exact .panic ⟨.panic, rfl, trivial⟩
    · exact ho.elim
    · exact ho.elim
  obtain ⟨o, _, hends, ho⟩ := hrest.exists_ends atEof_answers
  intro h
  obtain ⟨e, s₁, w₁, s₂, -, rfl⟩ := h o () (hreach.trans hends) (not_parserPanics_atEof rfl)
  exact ho

end

end CkbScriptIpc
