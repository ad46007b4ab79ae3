import CkbScriptIpc.Session
import CkbScriptIpc.Frames

/-!
# What a byte stream makes of the server

A client need not wait for a reply, nor send packets at all: `execute` is given the bytes of a
stream that ends, in chunks of any sizes. `requests` are the packets at the start of the stream,
and `transcript` is what the server has then written, what it has asked the service and how it
ends.

* `execute_transcript`: the transcript is a function of the stream, and `execute` ends on each;
* `execute_resumes`: between two requests a new server can take over.
-/

namespace CkbScriptIpc

open Interaction
open Allocator (Grants)

variable {X Y W Req Resp σ : Type}

section

variable [Allocator]

/-! ## The requests of a stream -/

/-- The request at the front of a stream, if it is complete, and what follows. -/
def takeRequest (s : Bytes) : Option (Incoming × Bytes) :=
  match takeFrame s with
  | some (f, t) =>
    if h : Grants f.payload.length then
      some (⟨f.header.version, f.header.code, ⟨f.payload, h⟩⟩, t)
    else none
  | none => none

theorem takeRequest_eq_some {s t : Bytes} {q : Incoming} (h : takeRequest s = some (q, t)) :
    takeFrame s = some (⟨⟨q.version, q.methodId, UInt64.ofNat q.payload.bytes.length⟩,
      q.payload.bytes⟩, t) := by
  rw [takeRequest] at h
  cases hf : takeFrame s with
  | none => rw [hf] at h; cases h
  | some p =>
    obtain ⟨⟨⟨version, code, length⟩, payload⟩, t'⟩ := p
    rw [hf] at h
    simp only [Option.dite_none_right_eq_some] at h
    obtain ⟨hmax, h⟩ := h
    cases h
    have hlen : payload.length = length.toNat := (takeFrame_eq_some hf).2
    simp only [hlen, UInt64.ofNat_toNat]

theorem takeRequest_header {s t : Bytes} {q : Incoming} (h : takeRequest s = some (q, t)) :
    header s = .ok (⟨q.version, q.methodId, UInt64.ofNat q.payload.bytes.length⟩,
      q.payload.bytes ++ t) :=
  (takeFrame_eq_some (takeRequest_eq_some h)).1

theorem takeRequest_length {s t : Bytes} {q : Incoming} (h : takeRequest s = some (q, t)) :
    t.length < s.length :=
  takeFrame_length (takeRequest_eq_some h)

/-- The requests at the start of a stream, and what is left behind them. -/
def requests (s : Bytes) : List Incoming × Bytes :=
  match _h : takeRequest s with
  | some (q, t) => (q :: (requests t).1, (requests t).2)
  | none => ([], s)
termination_by s.length
decreasing_by all_goals exact takeRequest_length _h

theorem requests_some {s t : Bytes} {q : Incoming} (h : takeRequest s = some (q, t)) :
    requests s = (q :: (requests t).1, (requests t).2) := by
  rw [requests]
  split
  · rename_i h'
    rw [h] at h'
    cases h'
    rfl
  · rename_i h'
    rw [h] at h'
    cases h'

theorem requests_none {s : Bytes} (h : takeRequest s = none) : requests s = ([], s) := by
  rw [requests]
  split
  · rename_i h'
    rw [h] at h'
    cases h'
  · rfl

/-- A request is there whatever follows it. -/
theorem takeRequest_append {s t : Bytes} {q : Incoming} (h : takeRequest s = some (q, t))
    (x : Bytes) : takeRequest (s ++ x) = some (q, t ++ x) := by
  obtain ⟨c, rfl, hc⟩ := takeFrame_split (takeRequest_eq_some h)
  rw [List.append_assoc, takeRequest, hc]
  simp only [q.payload.granted, ↓reduceDIte]

/-- The requests of a stream stay when more bytes arrive. -/
theorem requests_append (s x : Bytes) :
    requests (s ++ x) = ((requests s).1 ++ (requests ((requests s).2 ++ x)).1,
      (requests ((requests s).2 ++ x)).2) := by
  induction hn : s.length using Nat.strongRecOn generalizing s with
  | ind n ih =>
    cases hs : takeRequest s with
    | none => rw [requests_none hs]; rfl
    | some p =>
      obtain ⟨q, t⟩ := p
      have hlt := takeRequest_length hs
      rw [requests_some hs, requests_some (takeRequest_append hs x), ih t.length (by omega) t rfl]
      rfl

/-- The packets of a client, laid end to end, come apart again. -/
theorem requests_wire (qs : List Incoming) (t : Bytes) :
    requests (qs.flatMap Incoming.wire ++ t) = (qs ++ (requests t).1, (requests t).2) := by
  induction qs with
  | nil => rfl
  | cons q qs ih =>
    have hq : takeRequest (q.wire ++ (qs.flatMap Incoming.wire ++ t)) =
        some (q, qs.flatMap Incoming.wire ++ t) := by
      rw [takeRequest, Incoming.wire, isFrame_wirePacket]
      simp only [wireFrame, q.payload.granted, ↓reduceDIte]
    rw [List.flatMap_cons, List.append_assoc, requests_some hq, ih]
    rfl

/-! ## What is no request -/

section

variable {R P : Type} [Read R] {E : Env (IoRes X Y) W} {St : R → W → Bytes → Prop}
  {make : UInt8 → UInt64 → Vec → P} {r : R} {w : W} {s : Bytes}

/-- Where there is no request the parser gives an error or panics. -/
theorem parsed_of_takeRequest_none (make : UInt8 → UInt64 → Vec → P)
    (h : takeRequest s = none) :
    parsed make s = none ∨ ∃ e, parsed make s = some (.error e) := by
  cases hh : header s with
  | error e => exact .inr ⟨e, parsed_badHeader hh⟩
  | ok p =>
    obtain ⟨hd, t⟩ := p
    by_cases hmax : Grants hd.length.toNat
    · refine .inr ⟨.readExactError, parsed_short hh hmax (Nat.lt_of_not_le fun hlen => ?_)⟩
      simp only [takeRequest, takeFrame, hh, hlen, ↓reduceIte, List.length_take_of_le, hmax,
        ↓reduceDIte] at h
      cases h
    · exact .inl (parsed_oversized hh hmax)

/-- An error of the parser leaves a stream behind. -/
theorem readFrom_error (h : DeliversAll E St) (hst : St r w s) {e : IpcError}
    (hs : parsed make s = some (.error e)) :
    Always E (fails fun e' r' w' => e' = e ∧ ∃ t, St r' w' t) (readFrom make r) w := by
  cases hh : header s with
  | error e' =>
    rw [parsed_badHeader hh] at hs
    cases hs
    exact readFrom_badHeader h hst hh
  | ok p =>
    obtain ⟨hd, t⟩ := p
    by_cases hmax : Grants hd.length.toNat
    · by_cases hlen : hd.length.toNat ≤ t.length
      · obtain ⟨payload, -, hok⟩ := parsed_ok make hh hmax hlen
        rw [hok] at hs
        cases hs
      · have hshort := Nat.lt_of_not_le hlen
        rw [parsed_short hh hmax hshort] at hs
        cases hs
        exact (readFrom_short h hst hh hmax hshort).mono
          (fails_mono fun _ _ _ ⟨he, hst'⟩ => ⟨he, [], hst'⟩)
    · rw [parsed_oversized hh hmax] at hs
      cases hs

/-- So does a panic. -/
theorem readFrom_panics (h : Delivers E St) (hst : St r w s) (hs : parsed make s = none) :
    Always E (panicsIn fun w' => ∃ r' t, St r' w' t) (readFrom make r) w := by
  cases hh : header s with
  | error e =>
    rw [parsed_badHeader hh] at hs
    cases hs
  | ok p =>
    obtain ⟨hd, t⟩ := p
    refine readFrom_payload h hst hh fun r' w' hst' => ?_
    by_cases hmax : Grants hd.length.toNat
    · by_cases hlen : hd.length.toNat ≤ t.length
      · obtain ⟨payload, -, hok⟩ := parsed_ok make hh hmax hlen
        rw [hok] at hs
        cases hs
      · rw [parsed_short hh hmax (Nat.lt_of_not_le hlen)] at hs
        cases hs
    · rw [readPayload, dif_neg hmax]
      exact .panic ⟨r', t, hst'⟩

end

/-! ## The server and its two streams -/

/-- What the server has written, what the service has been asked, and its state. -/
structure Record (Req Resp σ : Type) where
  written : Bytes
  asked : List (Req × Except IpcError Resp)
  service : σ

namespace Record

def write (c : Record Req Resp σ) (bs : Bytes) : Record Req Resp σ :=
  { c with written := c.written ++ bs }

def ask (c : Record Req Resp σ) (answer : σ → Req → Except IpcError Resp × σ) (req : Req) :
    Record Req Resp σ :=
  ⟨c.written, c.asked ++ [(req, (answer c.service req).1)], (answer c.service req).2⟩

/-- Behind what the service has been asked for a reply. -/
def heard (c : Record Req Resp σ) (r : Reply Req Resp σ) : Record Req Resp σ :=
  ⟨c.written, c.asked ++ r.asked, r.state⟩

/-- Behind one more reply. -/
def add (c : Record Req Resp σ) (r : Reply Req Resp σ) : Record Req Resp σ :=
  (c.heard r).write r.packet.serialize

/-- Behind these replies. -/
def addAll (c : Record Req Resp σ) (xs : List (Incoming × Reply Req Resp σ)) :
    Record Req Resp σ :=
  xs.foldl (fun c x => c.add x.2) c

end Record

/-- A stream to read that arrives in chunks, a stream to write that takes everything, and a
service. The world is what is still to be read, and the record. -/
def peer (answer : σ → Req → Except IpcError Resp × σ) :
    Env (IoRes Req (Except IpcError Resp)) (Bytes × Record Req Resp σ) where
  pre
    | _, .read n => 0 < n
    | _, _ => True
  step
    | w, .read n, r, w' =>
      (chunked (X := Req) (Y := Except IpcError Resp)).step w.1 (.read n) r w'.1 ∧ w'.2 = w.2
    | w, .write bs, r, w' => r = .ok bs.length ∧ w' = (w.1, w.2.write bs)
    | w, .flush, r, w' => r = .ok () ∧ w' = w
    | w, .ext req, r, w' => r = (answer w.2.service req).1 ∧ w' = (w.1, w.2.ask answer req)

/-- What `execute` makes of a stream: the record, and its result, or none where it panics. It ends
with the first reply that is an error, or else with what is no request. -/
def transcript [Serde Req] [Serde Resp] (answer : σ → Req → Except IpcError Resp × σ)
    (c : Record Req Resp σ) (s : Bytes) : Record Req Resp σ × Option (Except IpcError Unit) :=
  let xs := replies answer c.service (requests s).1
  match failure xs with
  | some e => (c.addAll xs, some (.error e))
  | none => match parsed RequestPacket.mk (requests s).2 with
    | some (.error e) => ((c.addAll xs).write (Channel.errorPacket e).serialize, some (.error e))
    | _ => (c.addAll xs, none)

section

variable {answer : σ → Req → Except IpcError Resp × σ} {c : Record Req Resp σ} {s t : Bytes}
  {q : Incoming} {e : IpcError}

/-- The source has still to read `s`, behind the record `c`. -/
def Record.view (c : Record Req Resp σ) (_ : Source) (w : Bytes × Record Req Resp σ) (s : Bytes) :
    Prop :=
  w = (s, c)

omit [Allocator] in
theorem peer_deliversAll (answer : σ → Req → Except IpcError Resp × σ)
    (c : Record Req Resp σ) : DeliversAll (peer answer) c.view where
  chunk := by
    rintro r w s n rfl hs hn
    refine .call hn ?_
    rintro a ⟨s', c'⟩ ⟨⟨hw, -, -⟩ | ⟨b, hb, hlen, hsplit, rfl⟩, rfl⟩
    · exact absurd hw hs
    · exact .ret ⟨s', hsplit, hb, hlen, rfl⟩
  eof := by
    rintro r w n rfl hn
    refine .call hn ?_
    rintro a ⟨s', c'⟩ ⟨⟨-, rfl, rfl⟩ | ⟨b, hb, -, hsplit, -⟩, rfl⟩
    · exact .ret ⟨rfl, rfl⟩
    · exact absurd (List.append_eq_nil_iff.mp hsplit.symm).1 hb

omit [Allocator] in
theorem peer_answers (answer : σ → Req → Except IpcError Resp × σ) : (peer answer).Answers := by
  rintro ⟨s, c⟩ (n | bs | _ | req) hpre
  · obtain ⟨r, s', hs⟩ := chunked_answers (X := Req) (Y := Except IpcError Resp) s (.read n) hpre
    exact ⟨r, (s', c), hs, rfl⟩
  · exact ⟨_, _, rfl, rfl⟩
  · exact ⟨_, _, rfl, rfl⟩
  · exact ⟨_, _, rfl, rfl⟩

omit [Allocator] in
theorem peer_takesOnce (w : Bytes × Record Req Resp σ) (bs : Bytes) :
    TakesOnce (peer answer) w bs fun w' => w' = (w.1, w.2.write bs) where
  pre := trivial
  write h := h
  pre_flush _ := trivial
  flush := by
    rintro v r v' rfl ⟨rfl, rfl⟩
    exact ⟨rfl, rfl⟩

/-- Nothing waits in the writer's buffer, and `s` is still to be read. -/
def Channel.At (c : Record Req Resp σ) (t : Bytes) (s : Channel Source Sink)
    (w : Bytes × Record Req Resp σ) : Prop :=
  s.writer.buf = [] ∧ BufReader.view c.view s.reader w t

namespace Channel

variable {s : Channel Source Sink} {w : Bytes × Record Req Resp σ} {u : Bytes}

omit [Allocator] in
theorem At.record (h : s.At c t w) : w.2 = c := by
  obtain ⟨-, u, -, rfl⟩ := h
  rfl

omit [Allocator] in
theorem send_peer {bs : Bytes} (h : s.At c t w) (hne : bs ≠ []) :
    Always (peer answer) (succeeds fun _ s' w' => s'.At (c.write bs) t w') (sendBytes bs s) w := by
  obtain ⟨hb, u, rfl, rfl⟩ := h
  refine (sendBytes_once (peer_takesOnce _ bs) hne hb).mono (succeeds_mono ?_)
  rintro _ _ w' ⟨rfl, rfl⟩
  exact ⟨hb, u, rfl, rfl⟩

/-- The request at the front of the stream is read. -/
theorem readRequest_peer (h : s.At c u w) (hu : takeRequest u = some (q, t)) :
    Always (peer answer) (succeeds fun p s' w' => p.payload = q.payload ∧ s'.At c t w')
      (onReader RequestPacket.readFrom s) w := by
  have hlen := q.payload.toNat_length
  refine (onReader_ok (readFrom_ok (BufReader.deliversAll (peer_deliversAll answer c)).toStreams
    h.2 (takeRequest_header hu) (by rw [hlen]; exact q.payload.granted)
    (by rw [hlen]; simp))).mono (succeeds_mono ?_)
  rintro _ _ w' ⟨r, ⟨⟨payload, hpayload, rfl⟩, hview⟩, rfl⟩
  simp only [hlen, List.take_left, List.drop_left] at hpayload hview
  exact ⟨Vec.eq_of_bytes hpayload, h.1, hview⟩

variable [Serde Req] [Serde Resp]

theorem treats_peer (answer : σ → Req → Except IpcError Resp × σ) (c : Record Req Resp σ)
    (q : Incoming) (t : Bytes) :
    Treats (peer answer) answer c.service q (At c t)
      (At (c.heard (reply answer c.service q.payload)) t)
      (At (c.add (reply answer c.service q.payload)) t) where
  pre_ask _ _ := trivial
  ask := by
    rintro req s w r w' hreq ⟨hb, u, rfl, rfl⟩ ⟨rfl, rfl⟩
    refine ⟨rfl, hb, u, rfl, ?_⟩
    simp only [Record.view, Record.heard, Record.ask, reply, hreq]
  unasked := by
    rintro s w hreq h
    simp only [reply, hreq, Record.heard, List.append_nil]
    exact h
  send h := send_peer h (ResponsePacket.serialize_ne_nil _)

/-- How `execute` ends according to the transcript. -/
def Transcribed (answer : σ → Req → Except IpcError Resp × σ) (c : Record Req Resp σ) (u : Bytes)
    (o : Outcome (Except IpcError Unit × Channel Source Sink)) (w : Bytes × Record Req Resp σ) :
    Prop :=
  w.2 = (transcript answer c u).1 ∧ o.result = (transcript answer c u).2

/-- What is no request is an error of which the client is told, or a panic. -/
theorem executeTurn_last (h : s.At c u w) (hu : takeRequest u = none) :
    Always (peer answer) (turnPost (fun _ _ _ => False) (Transcribed answer c u))
      (executeTurn served () s) w := by
  have hdelivers := BufReader.deliversAll (peer_deliversAll answer c)
  rcases parsed_of_takeRequest_none RequestPacket.mk hu with hnone | ⟨e, he⟩
  · have hend : transcript answer c u = (c, none) := by
      simp only [transcript, requests_none hu, replies, failure, List.findSome?_nil,
        Record.addAll, List.foldl_nil, hnone]
    have hread : Always (peer answer) (panicsIn fun w' => w'.2 = c)
        ((onReader RequestPacket.readFrom : Method _ _ (Channel Source Sink) _) s) w := by
      refine always_map_panicsIn (readFrom_panics hdelivers.toStreams h.2 hnone) ?_
      rintro _ ⟨r, t, _, -, rfl⟩
      rfl
    have hreceive : Always (peer answer) (panicsIn fun w' => w'.2 = c)
        ((receiveRequest : Method _ _ _ Req) s) w := always_seq_panicsIn hread fun _ hw => hw
    have hhandle : Always (peer answer) (panicsIn fun w' => w'.2 = c)
        (handle (served : Req → Prog _ (Except IpcError Resp)) s) w :=
      always_seq_panicsIn (always_seq_panicsIn hreceive fun _ hw => hw) fun _ hw => hw
    have hpost : ∀ w', w'.2 = c → Transcribed answer c u .panic w' := by
      intro w' hw
      rw [Transcribed, hend]
      exact ⟨hw, rfl⟩
    exact always_seq_panicsIn (always_map_panicsIn hhandle fun _ hw => hw) hpost
  · have hend : transcript answer c u =
        (c.write (errorPacket e).serialize, some (.error e)) := by
      simp only [transcript, requests_none hu, replies, failure, List.findSome?_nil,
        Record.addAll, List.foldl_nil, he]
    have hread : Always (peer answer) (fails fun e' s' w' => e' = e ∧ ∃ t, s'.At c t w')
        ((onReader RequestPacket.readFrom : Method _ _ (Channel Source Sink) _) s) w := by
      refine (always_zoom_err (readFrom_error hdelivers h.2 he)).mono (fails_mono ?_)
      rintro _ _ w' ⟨r, ⟨rfl, t, hview⟩, rfl⟩
      exact ⟨rfl, t, h.1, hview⟩
    have hhandle : Always (peer answer) (fails fun e' s' w' => e' = e ∧ ∃ t, s'.At c t w')
        (handle (served : Req → Prog _ (Except IpcError Resp)) s) w :=
      always_seq_err (always_seq_err (always_seq_err hread fun _ _ _ h => h) fun _ _ _ h => h)
        fun _ _ _ h => h
    apply always_seq_ok (always_attempt_resolves (hhandle.mono
      (resolves_of_fails (P := fun _ _ _ => False))))
    rintro _ s' w' (⟨_, _, hp⟩ | ⟨_, rfl, rfl, t, hat⟩)
    · exact hp.elim
    · apply always_seq_ok (always_attempt_ok (send_peer hat (ResponsePacket.serialize_ne_nil _)))
      rintro _ s'' w'' ⟨_, rfl, hat'⟩
      refine .ret (show Transcribed answer c u _ _ from ?_)
      rw [Transcribed, hend]
      exact ⟨hat'.record, rfl⟩

/-- **The server is a function of the stream.** -/
theorem execute_peer (h : s.At c u w) :
    Always (peer answer) (Transcribed answer c u) (execute served s) w := by
  induction hn : u.length using Nat.strongRecOn generalizing u c s w with
  | ind n ih =>
    cases hu : takeRequest u with
    | none =>
      refine always_iter ((executeTurn_last h hu).mono ?_)
      rintro (⟨e | ⟨⟨⟩⟩ | _, s'⟩ | _) w' ho
      · exact ho
      · exact ho.elim
      · exact ho
      · exact ho
    | some p =>
      obtain ⟨q, t⟩ := p
      refine always_iter ((executeTurn_reply (treats_peer answer c q t)
        (readRequest_peer h hu)).mono ?_)
      cases hsent : (reply answer c.service q.payload).sent with
      | error e =>
        have hend : transcript answer c u =
            (c.add (reply answer c.service q.payload), some (.error e)) := by
          simp only [transcript, requests_some hu, replies_error _ hsent, failure_error hsent,
            Record.addAll, List.foldl_cons, List.foldl_nil]
        rintro (⟨e' | _, s'⟩ | _) w' ho
        · obtain ⟨he, hat⟩ := ho
          cases he
          show Transcribed answer c u _ _
          rw [Transcribed, hend]
          exact ⟨hat.record, rfl⟩
        · obtain ⟨rfl, hok, -⟩ := ho
          rw [Reply.failed, hsent] at hok
          cases hok
        · exact ho.elim
      | ok payload =>
        have hend : transcript answer c u =
            transcript answer (c.add (reply answer c.service q.payload)) t := by
          simp only [transcript, requests_some hu, replies_ok _ hsent, failure_ok hsent,
            Record.addAll, List.foldl_cons]
          rfl
        rintro (⟨e' | _, s'⟩ | _) w' ho
        · obtain ⟨he, -⟩ := ho
          cases he
        · obtain ⟨rfl, -, hat⟩ := ho
          refine (ih t.length (hn ▸ takeRequest_length hu) hat rfl).mono fun o w'' ho => ?_
          rwa [Transcribed, hend]
        · exact ho.elim

end Channel

end

section

variable [Serde Req] [Serde Resp]

omit [Serde Req] [Serde Resp] in
theorem failure_append (xs ys : List (Incoming × Reply Req Resp σ)) :
    failure (xs ++ ys) = (failure xs).or (failure ys) := by
  simp only [failure, List.findSome?_append]

theorem replies_append (answer : σ → Req → Except IpcError Resp × σ) (c : Record Req Resp σ)
    (qs qs' : List Incoming) :
    replies answer c.service (qs ++ qs') = replies answer c.service qs ++
      if (failure (replies answer c.service qs)).isSome then []
      else replies answer (c.addAll (replies answer c.service qs)).service qs' := by
  induction qs generalizing c with
  | nil => rfl
  | cons q qs ih =>
    cases hsent : (reply answer c.service q.payload).sent with
    | error e =>
      rw [List.cons_append, replies_error _ hsent, replies_error _ hsent, failure_error hsent]
      rfl
    | ok payload =>
      rw [List.cons_append, replies_ok _ hsent, replies_ok _ hsent, failure_ok hsent]
      exact congrArg (_ :: ·) (ih (c.add _))

/-- Transcripts compose. -/
theorem transcript_append (answer : σ → Req → Except IpcError Resp × σ) (c : Record Req Resp σ)
    (s x : Bytes) (h : failure (replies answer c.service (requests s).1) = none) :
    transcript answer c (s ++ x) =
      transcript answer (c.addAll (replies answer c.service (requests s).1)) ((requests s).2 ++ x)
      := by
  simp only [transcript, requests_append s x, replies_append, failure_append, h,
    Option.isSome_none, Bool.false_eq_true, ↓reduceIte, Option.none_or, Record.addAll,
    List.foldl_append]

/-- What holds of all runs of `execute` is what holds of the transcript. -/
theorem execute_peer_iff {answer : σ → Req → Except IpcError Resp × σ} {c : Record Req Resp σ}
    {s : Channel Source Sink} {w : Bytes × Record Req Resp σ} {u : Bytes} (h : s.At c u w)
    (Q : Record Req Resp σ × Option (Except IpcError Unit) → Prop) :
    Always (peer answer) (fun o w => Q (w.2, o.result)) (Channel.execute served s) w ↔
      Q (transcript answer c u) := by
  constructor
  · intro hall
    obtain ⟨o, w', -, hq, hw, ho⟩ :=
      (hall.and (Channel.execute_peer h)).exists_ends (peer_answers answer)
    rwa [hw, ho] at hq
  · intro hq
    refine (Channel.execute_peer h).mono ?_
    rintro o w' ⟨hw, ho⟩
    rwa [hw, ho]

/-- **A server can be replaced between two requests.** One that has replied to the requests of
`s` goes on as a new one would, with the service as it is then, that is given the bytes of the
request that is not complete: all that it knows is in the service and in these bytes. -/
theorem execute_resumes (answer : σ → Req → Except IpcError Resp × σ) (c : Record Req Resp σ)
    (k l : Nat) (s x : Bytes) (h : failure (replies answer c.service (requests s).1) = none)
    (Q : Record Req Resp σ × Option (Except IpcError Unit) → Prop) :
    let c' := c.addAll (replies answer c.service (requests s).1)
    Always (peer answer) (fun o w => Q (w.2, o.result))
        (Channel.execute served (Channel.new k Source.mk Sink.mk)) (s ++ x, c) ↔
      Always (peer answer) (fun o w => Q (w.2, o.result))
        (Channel.execute served (Channel.new l Source.mk Sink.mk)) ((requests s).2 ++ x, c') := by
  intro c'
  rw [execute_peer_iff (c := c) (u := s ++ x) ⟨rfl, _, rfl, rfl⟩, transcript_append answer c s x h,
    execute_peer_iff (c := c') (u := (requests s).2 ++ x) ⟨rfl, _, rfl, rfl⟩]

end

end

section

attribute [local instance] Allocator.ample Lowercase.ascii Service.requestCodec
  Service.responseCodec

/-- One request, and the first byte of the next. -/
theorem greet_resumes :
    let q := Ask.incoming worldJson
    let s := [q].flatMap Incoming.wire ++ [0]
    let c := Record.addAll ⟨[], [], 0⟩ (replies greet 0 (requests s).1)
    Always (peer greet) (fun o w => w.2.asked.length = 2 ∧ o.result ≠ some (.ok ()))
        (Channel.execute served (Channel.new 8 Source.mk Sink.mk))
        (s ++ q.wire.drop 1, ⟨[], [], 0⟩) ↔
      Always (peer greet) (fun o w => w.2.asked.length = 2 ∧ o.result ≠ some (.ok ()))
        (Channel.execute served (Channel.new 64 Source.mk Sink.mk))
        ((requests s).2 ++ q.wire.drop 1, c) := by
  intro q s c
  have hcut : requests [0] = ([], [0]) := requests_none rfl
  refine execute_resumes greet ⟨[], [], 0⟩ 8 64 s (q.wire.drop 1) ?_
    fun r => r.1.asked.length = 2 ∧ r.2 ≠ some (.ok ())
  rw [requests_wire, hcut]
  decide +kernel

end

end CkbScriptIpc
