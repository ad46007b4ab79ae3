import CkbScriptIpc.Io
import CkbScriptIpc.Interaction.Rendezvous

/-!
# Native pipes

The `Pipe` of the native build, one end of a channel that holds no message
(`sync_channel(0)`): a `send` waits until it meets a `recv`, and both give an error once
the other end is dropped. A read keeps the part of a message it has no room for.

* `faithful_reach`: how much the reader holds back in a session, whatever the two ends
  call and in every interleaving;
* `pipe_faithful`: the bytes read are a prefix of those written, and an empty read means
  that the writer is gone and nothing is left.
-/

namespace CkbScriptIpc.Native

open Interaction

variable {X Y : Type}

/-- The sending end of a channel, whose state is the environment's. -/
structure SyncSender where
  deriving DecidableEq, Repr

/-- The receiving end. -/
structure Receiver where
  deriving DecidableEq, Repr

def SyncSender.send (_ : SyncSender) (data : Bytes) : Prog (IoRes X Y) (Except ErrorKind Nat) :=
  .call (.write data) .ret

/-- A message of any length. -/
def Receiver.recv (_ : Receiver) : Prog (IoRes X Y) (Except ErrorKind Bytes) :=
  .call (.read 0) .ret

structure Pipe where
  tx : Option SyncSender
  rx : Option Receiver
  buf : Bytes
  deriving DecidableEq, Repr

namespace Pipe

/-- The end to read from and the end to write to. -/
def newPair : Pipe × Pipe := (⟨none, some ⟨⟩, []⟩, ⟨some ⟨⟩, none, []⟩)

/-- Hand out at most `n` of the bytes in `buf`. -/
def copyOut (n : Nat) : Method (IoRes X Y) ErrorKind Pipe Bytes := do
  let s ← Method.get
  Method.set { s with buf := s.buf.drop n }
  return s.buf.take n

instance : Read Pipe where
  read n := do
    let s ← Method.get
    if s.buf ≠ [] then copyOut n
    else do
      let rx ← Method.lift (Prog.unwrap s.rx)
      match ← Method.lift rx.recv with
      | .ok data =>
        Method.set { s with buf := data }
        copyOut n
      -- a closed channel is the end of the stream
      | .error _ => return []

instance : Write Pipe where
  write bs :=
    if bs = [] then return 0
    else do
      let s ← Method.get
      let tx ← Method.lift (Prog.unwrap s.tx)
      match ← Method.lift (tx.send bs) with
      | .ok _ => return bs.length
      | .error _ => Method.throw .other
  flush := return ()

/-! ## What the calls do -/

section

variable {s : Pipe} {n : Nat} {bs : Bytes}

theorem read_buffered (h : s.buf ≠ []) :
    Read.read (X := X) (Y := Y) n s =
      .ret (.ok (s.buf.take n), { s with buf := s.buf.drop n }) := by
  simp only [Read.read, get_seq, if_pos h]
  rfl

/-- What a read does with the answer of `recv`. -/
def received (n : Nat) (s : Pipe) :
    Except ErrorKind Bytes → Prog (IoRes X Y) (Except ErrorKind Bytes × Pipe)
  | .ok data => .ret (.ok (data.take n), { s with buf := data.drop n })
  | .error _ => .ret (.ok [], s)

theorem read_waiting (h : s.buf = []) {rx : Receiver} (hrx : s.rx = some rx) :
    Read.read (X := X) (Y := Y) n s = .call (.read 0) (received n s) := by
  obtain ⟨tx, _, buf⟩ := s
  cases h
  cases hrx
  refine congrArg _ (funext fun r => ?_)
  cases r <;> rfl

/-- What a write does with the answer of `send`. -/
def wrote (bs : Bytes) (s : Pipe) :
    Except ErrorKind Nat → Prog (IoRes X Y) (Except ErrorKind Nat × Pipe)
  | .ok _ => .ret (.ok bs.length, s)
  | .error _ => .ret (.error .other, s)

theorem write_cons (h : bs ≠ []) {tx : SyncSender} (htx : s.tx = some tx) :
    Write.write (X := X) (Y := Y) bs s = .call (.write bs) (wrote bs s) := by
  simp only [Write.write, if_neg h, get_seq, htx]
  refine congrArg _ (funext fun r => ?_)
  cases r <;> rfl

end

end Pipe

/-! ## Sessions -/

/-- A thread that owns a pipe: it makes no call, is in a call, or has dropped the pipe. -/
inductive Thread (A α : Type) : Type 1 where
  | idle (pipe : Pipe)
  | busy (arg : A) (call : Prog (IoRes Unit Unit) (Except ErrorKind α × Pipe))
  | dropped

/-- The calls that have an outcome: those that returned, and one that is about to. -/
def Thread.outcomes {A α : Type} (returned : List (A × Except ErrorKind α)) :
    Thread A α → List (A × Except ErrorKind α)
  | .busy a (.ret (r, _)) => returned ++ [(a, r)]
  | _ => returned

/-- A writer and a reader with the calls of each that returned. -/
structure Session : Type 1 where
  writer : Thread Bytes Nat
  written : List (Bytes × Except ErrorKind Nat)
  reader : Thread Nat Bytes
  reads : List (Nat × Except ErrorKind Bytes)

namespace Session

def start : Session := ⟨.idle Pipe.newPair.2, [], .idle Pipe.newPair.1, []⟩

/-- The writer writes any bytes until it is dropped, the reader reads with room for at
least one byte, and the two meet in the channel. -/
inductive Step : Session → Session → Prop
  | write {p : Pipe} {ws rs : List _} {q : Thread Nat Bytes} (bs : Bytes) :
      Step ⟨.idle p, ws, q, rs⟩ ⟨.busy bs (Write.write bs p), ws, q, rs⟩
  | wrote {p : Pipe} {ws rs : List _} {q : Thread Nat Bytes} {bs : Bytes}
      {r : Except ErrorKind Nat} :
      Step ⟨.busy bs (.ret (r, p)), ws, q, rs⟩ ⟨.idle p, ws ++ [(bs, r)], q, rs⟩
  | dropWriter {p : Pipe} {ws rs : List _} {q : Thread Nat Bytes} :
      Step ⟨.idle p, ws, q, rs⟩ ⟨.dropped, ws, q, rs⟩
  | read {p : Thread Bytes Nat} {ws rs : List _} {q : Pipe} {n : Nat} : 0 < n →
      Step ⟨p, ws, .idle q, rs⟩ ⟨p, ws, .busy n (Read.read n q), rs⟩
  | got {p : Thread Bytes Nat} {ws rs : List _} {q : Pipe} {n : Nat}
      {r : Except ErrorKind Bytes} :
      Step ⟨p, ws, .busy n (.ret (r, q)), rs⟩ ⟨p, ws, .idle q, rs ++ [(n, r)]⟩
  | dropReader {p : Thread Bytes Nat} {ws rs : List _} {q : Pipe} :
      Step ⟨p, ws, .idle q, rs⟩ ⟨p, ws, .dropped, rs⟩
  | meet {bs : Bytes} {n : Nat} {ws rs : List _}
      {p p' : Prog (IoRes Unit Unit) (Except ErrorKind Nat × Pipe)}
      {q q' : Prog (IoRes Unit Unit) (Except ErrorKind Bytes × Pipe)} : Meets p q p' q' →
      Step ⟨.busy bs p, ws, .busy n q, rs⟩ ⟨.busy bs p', ws, .busy n q', rs⟩
  | writerAlone {bs : Bytes} {ws rs : List _}
      {p p' : Prog (IoRes Unit Unit) (Except ErrorKind Nat × Pipe)} : Forsaken p p' →
      Step ⟨.busy bs p, ws, .dropped, rs⟩ ⟨.busy bs p', ws, .dropped, rs⟩
  | readerAlone {n : Nat} {ws rs : List _}
      {q q' : Prog (IoRes Unit Unit) (Except ErrorKind Bytes × Pipe)} : Forsaken q q' →
      Step ⟨.dropped, ws, .busy n q, rs⟩ ⟨.dropped, ws, .busy n q', rs⟩

abbrev Reach : Session → Session → Prop := Relation.ReflTransGen Step

def writes (s : Session) : List (Bytes × Except ErrorKind Nat) := s.writer.outcomes s.written

def gets (s : Session) : List (Nat × Except ErrorKind Bytes) := s.reader.outcomes s.reads

/-- The bytes of the calls `ws` that were written successfully. -/
def accepted (ws : List (Bytes × Except ErrorKind Nat)) : Bytes :=
  ws.flatMap fun
    | (bs, .ok n) => bs.take n
    | (_, .error _) => []

def delivered (rs : List (Nat × Except ErrorKind Bytes)) : Bytes :=
  rs.flatMap fun
    | (_, .ok bs) => bs
    | (_, .error _) => []

/-- All bytes written successfully. -/
def sent (s : Session) : Bytes := accepted s.writes

/-- All bytes read. -/
def received (s : Session) : Bytes := delivered s.gets

end Session

/-! ## What the reader holds back -/

/-- The end to read from while `rest` is left of a message. -/
def holding (rest : Bytes) : Pipe := ⟨none, some ⟨⟩, rest⟩

/-- A writer between and in its calls. -/
inductive Writing : Thread Bytes Nat → Prop
  | idle : Writing (.idle Pipe.newPair.2)
  | sending {bs : Bytes} : bs ≠ [] →
      Writing (.busy bs (.call (.write bs) (Pipe.wrote bs Pipe.newPair.2)))
  | accepted (bs : Bytes) : Writing (.busy bs (.ret (.ok bs.length, Pipe.newPair.2)))
  | failed (bs : Bytes) : Writing (.busy bs (.ret (.error .other, Pipe.newPair.2)))
  | dropped : Writing .dropped

/-- A reader that holds back `rest`, between and in its calls. -/
inductive Reading : Thread Nat Bytes → Bytes → Prop
  | idle (rest : Bytes) : Reading (.idle (holding rest)) rest
  | waiting {n : Nat} : 0 < n →
      Reading (.busy n (.call (.read 0) (Pipe.received n (holding [])))) []
  | got (n : Nat) (c rest : Bytes) : Reading (.busy n (.ret (.ok c, holding rest))) rest
  | dropped (rest : Bytes) : Reading .dropped rest

/-- The reader holds back what was written and not read, and has met the end of the
stream only behind all of it. -/
structure Faithful (s : Session) : Prop where
  writing : Writing s.writer
  reading : ∃ rest, Reading s.reader rest ∧ s.received ++ rest = s.sent
  eof : ∀ n, (n, .ok []) ∈ s.gets → s.writer = .dropped ∧ s.received = s.sent

namespace Session

variable {s s' : Session} {p : Thread Bytes Nat} {q : Thread Nat Bytes}
  {ws : List (Bytes × Except ErrorKind Nat)} {rs : List (Nat × Except ErrorKind Bytes)}
  {a : Pipe} {bs c : Bytes} {n : Nat} {e : ErrorKind}

@[simp] theorem accepted_ok : accepted (ws ++ [(bs, .ok bs.length)]) = accepted ws ++ bs := by
  simp [accepted]

@[simp] theorem accepted_error : accepted (ws ++ [(bs, .error e)]) = accepted ws := by
  simp [accepted]

@[simp] theorem delivered_ok : delivered (rs ++ [(n, .ok c)]) = delivered rs ++ c := by
  simp [delivered]

theorem faithful_start : Faithful start where
  writing := .idle
  reading := ⟨[], .idle [], rfl⟩
  eof := by
    intro n hn
    cases hn

/-- A step of the writer that writes nothing new and has no reader waiting for it. -/
theorem faithful_writer {p' : Thread Bytes Nat} {ws' : List (Bytes × Except ErrorKind Nat)}
    (h : Faithful ⟨p, ws, q, rs⟩) (hp : p ≠ .dropped) (hw : Writing p')
    (hsent : accepted (p'.outcomes ws') = accepted (p.outcomes ws)) :
    Faithful ⟨p', ws', q, rs⟩ where
  writing := hw
  reading := by
    obtain ⟨rest, hr, he⟩ := h.reading
    exact ⟨rest, hr, he.trans hsent.symm⟩
  eof n hn := absurd (h.eof n hn).1 hp

/-- A write of nothing returns at once, any other waits for the reader. -/
theorem faithful_write (h : Faithful ⟨.idle a, ws, q, rs⟩) (bs : Bytes) :
    Faithful ⟨.busy bs (Write.write bs a), ws, q, rs⟩ := by
  cases h.writing
  by_cases hbs : bs = []
  · subst hbs
    exact faithful_writer h (by rintro ⟨⟩) (.accepted [])
      (accepted_ok.trans (List.append_nil _))
  · rw [Pipe.write_cons hbs rfl]
    exact faithful_writer h (by rintro ⟨⟩) (.sending hbs) rfl

theorem faithful_wrote {r : Except ErrorKind Nat}
    (h : Faithful ⟨.busy bs (.ret (r, a)), ws, q, rs⟩) :
    Faithful ⟨.idle a, ws ++ [(bs, r)], q, rs⟩ := by
  cases h.writing
  · exact faithful_writer h (by rintro ⟨⟩) .idle rfl
  · exact faithful_writer h (by rintro ⟨⟩) .idle rfl

/-- A read hands out what was held back, or waits for the writer. -/
theorem faithful_read (h : Faithful ⟨p, ws, .idle a, rs⟩) (hn : 0 < n) :
    Faithful ⟨p, ws, .busy n (Read.read n a), rs⟩ := by
  obtain ⟨rest, hr, he⟩ := h.reading
  cases hr
  by_cases hrest : rest = []
  · subst hrest
    rw [Pipe.read_waiting rfl rfl]
    exact ⟨h.writing, ⟨[], .waiting hn, he⟩, h.eof⟩
  · rw [Pipe.read_buffered hrest]
    refine ⟨h.writing, ⟨rest.drop n, .got n _ _, ?_⟩, fun m hm => ?_⟩
    · show delivered (rs ++ [(n, .ok (rest.take n))]) ++ rest.drop n = _
      rw [delivered_ok, List.append_assoc, List.take_append_drop]
      exact he
    · rcases List.mem_append.mp hm with hm | hm
      · -- the end of the stream was not met while something is held back
        have hall : received ⟨p, ws, .idle (holding rest), rs⟩ = _ := (h.eof m hm).2
        rw [← he] at hall
        exact absurd (List.self_eq_append_right.mp hall) hrest
      · simp [holding, hrest, Nat.ne_of_gt hn] at hm

theorem faithful_got {r : Except ErrorKind Bytes}
    (h : Faithful ⟨p, ws, .busy n (.ret (r, a)), rs⟩) :
    Faithful ⟨p, ws, .idle a, rs ++ [(n, r)]⟩ := by
  obtain ⟨rest, hr, he⟩ := h.reading
  cases hr
  exact ⟨h.writing, ⟨rest, .idle rest, he⟩, h.eof⟩

theorem faithful_dropReader (h : Faithful ⟨p, ws, .idle a, rs⟩) :
    Faithful ⟨p, ws, .dropped, rs⟩ := by
  obtain ⟨rest, -, he⟩ := h.reading
  exact ⟨h.writing, ⟨rest, .dropped rest, he⟩, h.eof⟩

/-- The reader gets the front of the message and holds back the rest. -/
theorem faithful_meet {x x' : Prog (IoRes Unit Unit) (Except ErrorKind Nat × Pipe)}
    {y y' : Prog (IoRes Unit Unit) (Except ErrorKind Bytes × Pipe)}
    (h : Faithful ⟨.busy bs x, ws, .busy n y, rs⟩) (hm : Meets x y x' y') :
    Faithful ⟨.busy bs x', ws, .busy n y', rs⟩ := by
  cases hm
  obtain ⟨rest, hr, he⟩ := h.reading
  cases hr with
  | waiting hn =>
    cases h.writing with
    | sending hbs =>
      refine ⟨.accepted bs, ⟨bs.drop n, .got n _ _, ?_⟩, fun m hm => ?_⟩
      · have hsent : delivered rs = accepted ws := by
          simpa [received, sent, gets, writes, Thread.outcomes] using he
        simp [received, sent, gets, writes, Thread.outcomes, Pipe.received, Pipe.wrote, hsent]
      · rcases List.mem_append.mp hm with hm | hm
        · exact absurd (h.eof m hm).1 (by rintro ⟨⟩)
        · simp [hbs, Nat.ne_of_gt hn] at hm

theorem faithful_writerAlone {x x' : Prog (IoRes Unit Unit) (Except ErrorKind Nat × Pipe)}
    (h : Faithful ⟨.busy bs x, ws, q, rs⟩) (hf : Forsaken x x') :
    Faithful ⟨.busy bs x', ws, q, rs⟩ := by
  cases h.writing with
  | sending hbs =>
    cases hf
    exact faithful_writer h (by rintro ⟨⟩) (.failed bs) (by simp [Thread.outcomes, Pipe.wrote])
  | accepted => cases hf
  | failed => cases hf

/-- The reader meets the end of the stream when nothing is held back. -/
theorem faithful_readerAlone {y y' : Prog (IoRes Unit Unit) (Except ErrorKind Bytes × Pipe)}
    (h : Faithful ⟨.dropped, ws, .busy n y, rs⟩) (hf : Forsaken y y') :
    Faithful ⟨.dropped, ws, .busy n y', rs⟩ := by
  obtain ⟨rest, hr, he⟩ := h.reading
  cases hr with
  | waiting hn =>
    cases hf
    have hall : delivered (rs ++ [(n, .ok [])]) = accepted ws := by
      simpa [received, sent, gets, writes, Thread.outcomes] using he
    exact ⟨.dropped, ⟨[], .got n [] [], (List.append_nil _).trans hall⟩, fun m _ => ⟨rfl, hall⟩⟩
  | got => cases hf

theorem faithful_step (h : Faithful s) (hs : Step s s') : Faithful s' := by
  cases hs with
  | write bs => exact faithful_write h bs
  | wrote => exact faithful_wrote h
  | dropWriter => exact faithful_writer h (by rintro ⟨⟩) .dropped rfl
  | read hn => exact faithful_read h hn
  | got => exact faithful_got h
  | dropReader => exact faithful_dropReader h
  | meet hm => exact faithful_meet h hm
  | writerAlone hf => exact faithful_writerAlone h hf
  | readerAlone hf => exact faithful_readerAlone h hf

theorem faithful_reach (h : Faithful s) (hr : Reach s s') : Faithful s' := by
  induction hr with
  | refl => exact h
  | tail _ hs ih => exact faithful_step ih hs

end Session

/-- **A pipe is a faithful byte stream.** The bytes read are a prefix of the bytes written
successfully, and a read gives none only when the writer is gone and all have been read. -/
theorem pipe_faithful {s : Session} (h : Session.Reach .start s) :
    s.received <+: s.sent ∧
      ∀ n, (n, .ok []) ∈ s.gets → s.writer = .dropped ∧ s.received = s.sent := by
  have hs := Session.faithful_reach Session.faithful_start h
  obtain ⟨rest, -, he⟩ := hs.reading
  exact ⟨⟨rest, he⟩, hs.eof⟩

/-- Three bytes were written and read in two parts, the second when the writer was gone. -/
def readOut : Session :=
  ⟨.dropped, [([1, 2, 3], .ok 3)], .idle Pipe.newPair.1,
    [(2, .ok [1, 2]), (2, .ok [3]), (2, .ok [])]⟩

theorem readOut_reached : Session.Reach .start readOut :=
  .head (.write [1, 2, 3]) <| .head (.read (n := 2) (by decide)) <| .head (.meet .mk) <|
    .head .got <| .head .wrote <| .head .dropWriter <| .head (.read (n := 2) (by decide)) <|
    .head .got <| .head (.read (n := 2) (by decide)) <|
    .head (.readerAlone (.recv (e := .other))) <| .head .got .refl

theorem readOut_faithful : readOut.received <+: readOut.sent ∧ readOut.sent = [1, 2, 3] ∧
    readOut.writer = .dropped ∧ readOut.received = readOut.sent :=
  have h := pipe_faithful readOut_reached
  ⟨h.1, rfl, h.2 2 (by simp [readOut, Session.gets, Thread.outcomes])⟩

end CkbScriptIpc.Native
