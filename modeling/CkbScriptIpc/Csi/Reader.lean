import CkbScriptIpc.Csi.Packet
import Mathlib.Data.List.Perm.Subperm
import Mathlib.Data.Stream.Init
import Mathlib.Logic.Relation

/-!
# The C library: reading through a buffer

Any sequence of reads, against what the pipe behind the buffer delivers.

* `CSIBuffer.bufRead_flaky`: what one call does, when the pipe may fail;
* `CSIBuffer.reads_survive`: a read that fails does no harm when the buffer had been filled
  to its end, and only then;
* `CSIBuffer.reads_refine`: as long as the pipe delivers, `buf_read` and `csi_read_exact` hand
  out its bytes, in order.
-/

namespace CkbScriptIpc

open Interaction

variable {X Y W : Type}

namespace CSIBuffer

/-! ## A pipe that may fail -/

/-- What a pipe has made of the reads so far: the bytes that it delivered, and its errors. -/
structure PipeLog where
  delivered : Bytes
  failures : List Code

/-- A read delivers at most as many bytes as it is asked for, or fails. -/
def flaky : Env (CsiRes X Y) PipeLog where
  pre
    | _, .read _ => True
    | _, _ => False
  step
    | w, .read n, r, w' =>
      (∃ c, c.length ≤ n ∧ r = .ok c ∧ w' = { w with delivered := w.delivered ++ c }) ∨
        ∃ e, r = .error e ∧ w' = { w with failures := w.failures ++ [e] }
    | _, _, _, _ => False

section

variable {b : CSIBuffer} {w : PipeLog}

/-- What a read of the pipe that fails leaves behind. -/
def FilledByFailure (b : CSIBuffer) (w : PipeLog) (e : Code) (b' : CSIBuffer) (w' : PipeLog) :
    Prop :=
  b.pos = b.filledLen ∧ b' = { b with filledLen := b.maxLen } ∧
    w' = { w with failures := w.failures ++ [e] }

/-- The length that the pipe was asked for may be the length that was there. -/
theorem filled_up (h : b.maxLen = b.filledLen) : { b with filledLen := b.maxLen } = b := by
  obtain ⟨pos, filledLen, maxLen, buf⟩ := b
  cases h
  rfl

/-- What a read that comes back with bytes does. -/
def HandsOut (b : CSIBuffer) (w : PipeLog) (bs : Bytes) (b' : CSIBuffer) (w' : PipeLog) : Prop :=
  ∃ c, bs ++ b'.unread = b.unread ++ c ∧ b'.Bounded ∧
    w' = { w with delivered := w.delivered ++ c }

/-- **What one `buf_read` does.** It hands out the next bytes of those that are buffered and
those that the pipe delivers now, or the pipe fails. When it panics the pipe has not failed. -/
theorem bufRead_flaky (hb : b.Bounded) (len : Nat) (w : PipeLog) :
    Safely (flaky (X := X) (Y := Y)) (fun _ => True)
      (fun o w' => settles (HandsOut b w) (FilledByFailure b w) o w' ∧
        (o = .panic → w'.failures = w.failures)) (bufRead len b) w := by
  rcases Nat.lt_or_eq_of_le hb.pos_le with hlt | hempty
  · rw [bufRead_buffered hb hlt]
    refine safely_ret trivial ⟨⟨[], ?_, advance_bounded hb len, ?_⟩, by rintro ⟨⟩⟩
    · rw [unread_advance, List.take_append_drop, List.append_nil]
    · rw [List.append_nil]
  · rw [bufRead_empty hempty]
    refine safely_call trivial fun r w' hs => ?_
    rcases hs with ⟨c, hlen, rfl, rfl⟩ | ⟨e, rfl, rfl⟩
    · show Safely _ _ _ (take len (b.filledWith c)) _
      rcases Nat.eq_zero_or_pos c.length with hzero | hpos
      · have hnone : (b.filledWith c).filledLen ≤ 0 := Nat.le_of_eq hzero
        rw [take_panic (.inl hnone)]
        exact safely_panic trivial ⟨trivial, fun _ => rfl⟩
      · rw [take_eq (show 0 < (b.filledWith c).filledLen from hpos) hlen]
        refine safely_ret trivial
          ⟨⟨c, ?_, advance_bounded (filledWith_bounded hlen) len, rfl⟩, by rintro ⟨⟩⟩
        rw [unread_advance, List.take_append_drop, unread_empty hempty, List.nil_append,
          unread_filledWith]
    · exact safely_ret trivial ⟨⟨hempty, rfl, rfl⟩, by rintro ⟨⟩⟩

end

/-! ## Sequences of reads -/

/-- A reader and its pipe, with what all `buf_read` calls have returned: bytes, and errors. -/
structure Reading where
  buffer : CSIBuffer
  pipe : PipeLog
  returned : Bytes
  reported : List Code

/-- A reader in any state; what is buffered was delivered before. -/
def Reading.start (b : CSIBuffer) : Reading := ⟨b, ⟨b.unread, []⟩, [], []⟩

/-- A call of `buf_read` that comes back. -/
inductive Reading.Step : Reading → Reading → Prop
  | returns {s : Reading} {len : Nat} {bs : Bytes} {b : CSIBuffer} {w : PipeLog} :
      Ends (flaky (X := Unit) (Y := Unit)) (bufRead len s.buffer) s.pipe (.ret (.ok bs, b)) w →
      Reading.Step s ⟨b, w, s.returned ++ bs, s.reported⟩
  | fails {s : Reading} {len : Nat} {e : Code} {b : CSIBuffer} {w : PipeLog} :
      Ends (flaky (X := Unit) (Y := Unit)) (bufRead len s.buffer) s.pipe (.ret (.error e, b)) w →
      Reading.Step s ⟨b, w, s.returned, s.reported ++ [e]⟩

/-- The reader is not corrupted: what was returned are delivered bytes, none of them twice, the
errors are those of the pipe, and no call panics on one. -/
structure Reading.Intact (s : Reading) : Prop where
  bytes : s.returned.Subperm s.pipe.delivered
  errors : s.reported = s.pipe.failures
  panics : ∀ len w, Ends (flaky (X := Unit) (Y := Unit)) (bufRead len s.buffer) s.pipe .panic w →
    w.failures = s.pipe.failures

/-- A failure of the pipe in this step finds the buffer filled to its end, and read. -/
def Reading.Harmless (s s' : Reading) : Prop :=
  s'.pipe.failures = s.pipe.failures ∨ s.buffer.pos = s.buffer.maxLen

/-- The runs in which every failure of the pipe is harmless. -/
abbrev Reading.Runs : Reading → Reading → Prop :=
  Relation.ReflTransGen fun s s' => Reading.Step s s' ∧ Reading.Harmless s s'

/-- What a run keeps: the bytes delivered are those returned and those buffered. -/
structure Reading.Inv (s : Reading) : Prop where
  bounded : s.buffer.Bounded
  bytes : s.returned ++ s.buffer.unread = s.pipe.delivered
  errors : s.reported = s.pipe.failures

section

variable {s s' : Reading} {b : CSIBuffer}

/-- What a step does, to a reader within its bounds. -/
theorem Reading.step_cases (hb : s.buffer.Bounded) (hs : Reading.Step s s') :
    (∃ bs, HandsOut s.buffer s.pipe bs s'.buffer s'.pipe ∧ s'.returned = s.returned ++ bs ∧
      s'.reported = s.reported) ∨
    ∃ e, FilledByFailure s.buffer s.pipe e s'.buffer s'.pipe ∧ s'.returned = s.returned ∧
      s'.reported = s.reported ++ [e] := by
  cases hs with
  | @returns len bs b w he => exact .inl ⟨bs, ((bufRead_flaky hb len _ _ _ he).2 _ rfl).1, rfl, rfl⟩
  | @fails len e b w he => exact .inr ⟨e, ((bufRead_flaky hb len _ _ _ he).2 _ rfl).1, rfl, rfl⟩

theorem Reading.panics (hb : s.buffer.Bounded) (len : Nat) (w : PipeLog)
    (he : Ends (flaky (X := Unit) (Y := Unit)) (bufRead len s.buffer) s.pipe .panic w) :
    w.failures = s.pipe.failures :=
  ((bufRead_flaky hb len _ _ _ he).2 _ rfl).2 rfl

theorem Reading.Inv.intact (h : s.Inv) : s.Intact where
  bytes := by
    rw [← h.bytes]
    exact (List.sublist_append_left _ _).subperm
  errors := h.errors
  panics := Reading.panics h.bounded

theorem FilledByFailure.bounded {e : Code} {b' : CSIBuffer} {w w' : PipeLog} (hb : b.Bounded)
    (h : FilledByFailure b w e b' w') : b'.Bounded := by
  rw [h.2.1]
  exact ⟨Nat.le_trans hb.pos_le hb.filledLen_le, Nat.le_refl _⟩

/-- No step does harm by itself. -/
theorem Reading.step_intact (h : s.Inv) (hs : Reading.Step s s') : s'.Intact := by
  rcases Reading.step_cases h.bounded hs with
    ⟨bs, ⟨c, hsplit, hb, hpipe⟩, hret, hrep⟩ | ⟨e, hfail, hret, hrep⟩
  · refine ⟨?_, by rw [hrep, hpipe]; exact h.errors, Reading.panics hb⟩
    rw [hret, hpipe, ← h.bytes, List.append_assoc, ← hsplit, ← List.append_assoc]
    exact (List.sublist_append_left _ _).subperm
  · obtain ⟨-, -, hpipe⟩ := id hfail
    refine ⟨?_, by rw [hrep, hpipe, h.errors], Reading.panics (hfail.bounded h.bounded)⟩
    rw [hret, hpipe]
    exact h.intact.bytes

/-- A harmless step keeps the account of the bytes. -/
theorem Reading.step_inv (h : s.Inv) (hs : Reading.Step s s') (hharm : Reading.Harmless s s') :
    s'.Inv := by
  rcases Reading.step_cases h.bounded hs with
    ⟨bs, ⟨c, hsplit, hb, hpipe⟩, hret, hrep⟩ |
    ⟨e, ⟨hempty, hbuffer, hpipe⟩, hret, hrep⟩
  · refine ⟨hb, ?_, by rw [hrep, hpipe]; exact h.errors⟩
    rw [hret, hpipe, List.append_assoc, hsplit, ← List.append_assoc, h.bytes]
  · have hfull : s.buffer.pos = s.buffer.maxLen := by
      rcases hharm with hsame | hfull
      · rw [hpipe] at hsame
        exact absurd hsame (by simp)
      · exact hfull
    have hsame : s'.buffer = s.buffer := by
      rw [hbuffer]
      exact filled_up (hfull.symm.trans hempty)
    refine ⟨hsame ▸ h.bounded, ?_, by rw [hrep, hpipe, h.errors]⟩
    rw [hsame, hret, hpipe]
    exact h.bytes

theorem Reading.runs_inv (hb : b.Bounded) (hr : Reading.Runs (Reading.start b) s) : s.Inv := by
  induction hr with
  | refl => exact ⟨hb, rfl, rfl⟩
  | tail _ hs ih => exact Reading.step_inv ih hs.1 hs.2

/-- A reader that has unread bytes hands out one without asking the pipe. -/
theorem Reading.step_buffered (hb : s.buffer.Bounded) (hlt : s.buffer.pos < s.buffer.filledLen) :
    Reading.Step s ⟨s.buffer.advance 1, s.pipe, s.returned ++ s.buffer.unread.take 1,
      s.reported⟩ := by
  refine @Reading.Step.returns s 1 _ _ _ ?_
  rw [bufRead_buffered hb hlt]
  exact .refl _ _

/-- After any other failure the next read of a byte gives one that was not delivered. -/
theorem Reading.failure_spoils (h : s.Inv) (hs : Reading.Step s s')
    (hfail : s'.pipe.failures ≠ s.pipe.failures) (hpos : s.buffer.pos ≠ s.buffer.maxLen) :
    ∃ s'', Reading.Step s' s'' ∧ ¬ s''.Intact := by
  rcases Reading.step_cases h.bounded hs with ⟨bs, ⟨c, -, -, hpipe⟩, -, -⟩ |
    ⟨e, ⟨hempty, hbuffer, hpipe⟩, hret, -⟩
  · exact absurd (by rw [hpipe]) hfail
  have hle := h.bounded.filledLen_le
  have hlt : s'.buffer.pos < s'.buffer.filledLen := by
    rw [hbuffer]
    show s.buffer.pos < s.buffer.maxLen
    omega
  have hb : s'.buffer.Bounded :=
    FilledByFailure.bounded (e := e) h.bounded ⟨hempty, hbuffer, hpipe⟩
  refine ⟨_, Reading.step_buffered hb hlt, fun hintact => ?_⟩
  -- everything that was delivered had been returned
  have hall : s'.returned = s'.pipe.delivered := by
    rw [hret, hpipe, ← h.bytes, unread_empty hempty, List.append_nil]
  have hlen : (s'.returned ++ s'.buffer.unread.take 1).length ≤ s'.pipe.delivered.length :=
    hintact.bytes.length_le
  have hone : (s'.buffer.unread.take 1).length = 1 := by
    rw [List.length_take, unread, length_load]
    omega
  rw [List.length_append, hone, hall] at hlen
  exact absurd hlen (by omega)

/-- **A failed read does no harm** to the reader in any run in which every failure finds the
buffer filled to its end and read: what it has returned are the first of the bytes delivered.
Any other failure corrupts it. -/
theorem reads_survive (hb : b.Bounded) (hr : Reading.Runs (Reading.start b) s) :
    (s.Intact ∧ s.returned <+: s.pipe.delivered) ∧
    ∀ s', Reading.Step s s' → s'.pipe.failures ≠ s.pipe.failures →
      ((∀ s'', Reading.Step s' s'' → s''.Intact) ↔ s.buffer.pos = s.buffer.maxLen) := by
  have hinv := Reading.runs_inv hb hr
  refine ⟨⟨hinv.intact, s.buffer.unread, hinv.bytes⟩, fun s' hs hfail =>
    ⟨fun hall => ?_, fun hfull s'' hs' => ?_⟩⟩
  · refine Classical.byContradiction fun hpos => ?_
    obtain ⟨s'', hs', hspoiled⟩ := Reading.failure_spoils hinv hs hfail hpos
    exact hspoiled (hall s'' hs')
  · exact Reading.step_intact (Reading.step_inv hinv hs (.inr hfull)) hs'

end

/-- A buffer of `n` zeros that has been filled up to `len` and read. -/
def usedUp (len n : Nat) : CSIBuffer := ⟨len, len, n, fun _ => 0⟩

/-- A reader without unread bytes whose pipe has failed. -/
def afterFailure (len n : Nat) : Reading :=
  ⟨{ usedUp len n with filledLen := n }, ⟨[], [otherEndClosed]⟩, [], [otherEndClosed]⟩

theorem usedUp_fails (len n : Nat) :
    Reading.Step ⟨usedUp len n, ⟨[], []⟩, [], []⟩ (afterFailure len n) := by
  refine @Reading.Step.fails ⟨usedUp len n, ⟨[], []⟩, [], []⟩ 1 otherEndClosed _ _ ?_
  rw [bufRead_empty rfl]
  exact .head (.call (.inr ⟨otherEndClosed, rfl, rfl⟩)) (.refl _ _)

theorem start_usedUp (len n : Nat) :
    Reading.start (usedUp len n) = ⟨usedUp len n, ⟨[], []⟩, [], []⟩ := by
  rw [Reading.start, unread_empty rfl]

/-- A buffer that was full and has been read survives. -/
theorem full_buffer_survives : (afterFailure 464 464).Intact := by
  have hrun : Reading.Runs (Reading.start (usedUp 464 464)) (afterFailure 464 464) := by
    rw [start_usedUp]
    exact .tail .refl ⟨usedUp_fails 464 464, .inr rfl⟩
  exact (reads_survive ⟨Nat.le_refl _, Nat.le_refl _⟩ hrun).1.1

/-- A new buffer does not: when the first read has failed, the second gives what the memory
happened to hold. -/
theorem fresh_buffer_corrupted :
    Reading.Step (Reading.start (usedUp 0 464)) (afterFailure 0 464) ∧
      ∃ s, Reading.Step (afterFailure 0 464) s ∧ ¬ s.Intact := by
  have hstep := usedUp_fails 0 464
  have hinv : Reading.Inv ⟨usedUp 0 464, ⟨[], []⟩, [], []⟩ :=
    ⟨⟨Nat.le_refl _, Nat.zero_le _⟩, by rw [unread_empty rfl]; rfl, rfl⟩
  rw [start_usedUp]
  exact ⟨hstep, Reading.failure_spoils hinv hstep (by simp [afterFailure]) (by decide)⟩

/-! ## A pipe that keeps delivering -/

/-- A read gives the next bytes of the stream, at least one and at most as many as it is
asked for. -/
def flowing : Env (CsiRes X Y) (Stream' UInt8) where
  pre
    | _, .read n => 0 < n
    | _, _ => False
  step
    | w, .read n, r, w' => ∃ c, c ≠ [] ∧ c.length ≤ n ∧ r = .ok c ∧ w = c ++ₛ w'
    | _, _, _, _ => False

theorem flowing_answers : (flowing (X := X) (Y := Y)).Answers := by
  intro w op hpre
  cases op with
  | read n => exact ⟨.ok [w.head], w.tail, [w.head], List.cons_ne_nil _ _, hpre, rfl,
      (Stream'.append_stream_head_tail w).symm⟩
  | _ => exact hpre.elim

/-- What a reader has still to hand out. -/
def ahead (b : CSIBuffer) (w : Stream' UInt8) : Stream' UInt8 := b.unread ++ₛ w

section

variable {b : CSIBuffer} {w : Stream' UInt8} {len : Nat}

/-- Buffered bytes are those next in the stream. -/
theorem ahead_advance (len : Nat) (b : CSIBuffer) (w : Stream' UInt8) :
    ahead b w = b.unread.take len ++ₛ ahead (b.advance len) w := by
  rw [ahead, ahead, unread_advance, ← Stream'.append_append_stream, List.take_append_drop]

theorem take_unread_ne_nil (hlt : b.pos < b.filledLen) (hlen : 0 < len) :
    b.unread.take len ≠ [] := by
  rw [← List.length_pos_iff, List.length_take, unread, length_load]
  omega

/-- **A read hands out the next bytes of the stream.** -/
theorem bufRead_flowing (hb : b.Wf) (hlen : 0 < len) :
    Always (flowing (X := X) (Y := Y)) (succeeds fun c b' w' => c ≠ [] ∧ c.length ≤ len ∧
      b'.Wf ∧ ahead b w = c ++ₛ ahead b' w') (bufRead len b) w := by
  rcases Nat.lt_or_eq_of_le hb.pos_le with hlt | hempty
  · rw [bufRead_buffered hb.bounded hlt]
    exact .ret ⟨take_unread_ne_nil hlt hlen, List.length_take_le _ _, advance_wf hb len,
      ahead_advance len b w⟩
  · rw [bufRead_empty hempty]
    refine .call hb.maxLen_pos fun r w' hs => ?_
    obtain ⟨c, hc, hfits, rfl, rfl⟩ := hs
    have hpos : (b.filledWith c).pos < (b.filledWith c).filledLen := List.length_pos_iff.mpr hc
    have hwf := filledWith_wf hb hfits
    have hahead : ahead b (c ++ₛ w') = ahead (b.filledWith c) w' := by
      rw [ahead, ahead, unread_empty hempty, unread_filledWith, Stream'.nil_append_stream]
    show Always _ _ (take len (b.filledWith c)) _
    rw [take_eq hpos hfits, hahead]
    exact .ret ⟨take_unread_ne_nil hpos hlen, List.length_take_le _ _, advance_wf hwf len,
      ahead_advance len _ w'⟩

end

end CSIBuffer

/-- A call of `read`, or of `csi_read_exact` with the address of its bytes. -/
inductive ReadCall where
  | read (len : Nat)
  | readExact (buf len : Nat)

namespace ReadCall

variable {R V A : Type} [CSIRead R]

def len : ReadCall → Nat
  | .read len => len
  | .readExact _ len => len

/-- The bytes that a call gives. -/
def run : ReadCall → Method (CsiRes X Y) Code (CSI R V A) Bytes
  | .read len => CSI.onReader (CSIRead.read len)
  | .readExact buf len => do
    csiReadExact buf len
    let s ← Method.get
    return load s.memory buf len

def runAll : List ReadCall → Method (CsiRes X Y) Code (CSI R V A) (List Bytes)
  | [] => return []
  | c :: cs => do
    let bs ← c.run
    let chunks ← runAll cs
    return bs :: chunks

/-- A read gives up to `len` bytes, and `csi_read_exact` all of them. -/
def Fits : ReadCall → Bytes → Prop
  | .read len, bs => bs ≠ [] ∧ bs.length ≤ len
  | .readExact _ len, bs => bs.length = len

/-- The lengths that an `int` can hold. -/
def Admitted (c : ReadCall) : Prop := 0 < c.len ∧ c.len < 2 ^ 31

section

variable {E : Env (CsiRes X Y) W} {J : R → W → Bytes → Prop} {s : CSI R V A} {w : W} {o : Bytes}

/-- A reader that hands out bytes of its own choice, where `J r w o` says that the bytes `o`
have been handed out so far. -/
def Collects (E : Env (CsiRes X Y) W) (J : R → W → Bytes → Prop) : Prop :=
  ∀ r w o len, J r w o → 0 < len → Always E (succeeds fun c r' w' =>
    c ≠ [] ∧ c.length ≤ len ∧ J r' w' (o ++ c)) (CSIRead.read len r) w

theorem run_collects (h : Collects E J) (hj : J s.reader w o) {c : ReadCall} (hc : c.Admitted) :
    Always E (succeeds fun bs s' w' => J s'.reader w' (o ++ bs) ∧ c.Fits bs) (c.run s) w := by
  obtain ⟨hpos, hint⟩ := hc
  cases c with
  | read len =>
    rw [run, CSI.onReader]
    refine (always_zoom_ok (h _ _ _ len hj hpos)).mono (succeeds_mono ?_)
    rintro bs _ w' ⟨r, ⟨hne, hle, hj'⟩, rfl⟩
    exact ⟨hj', hne, hle⟩
  | readExact buf len =>
    have hint' : len < 2 ^ 31 := hint
    have hread := csiReadExact_collect (s := s) (p := buf) (o := [])
      (J := fun r w o' => J r w (o ++ o')) hint' (fun {r w o'} hj' ho => by
        refine (h _ _ _ _ hj' (Nat.sub_pos_of_lt ho)).mono (succeeds_mono ?_)
        rintro bs r' w' ⟨hne, hle, hj''⟩
        exact ⟨hne, hle, by rwa [← List.append_assoc]⟩)
      (Nat.zero_le len) (by rwa [List.append_nil]) rfl
    rw [run, csiReadExact, bmod_of_lt hint']
    apply always_seq_ok hread
    rintro _ _ w' ⟨r, m, bs, rfl, hj', hbs, hload⟩
    rw [get_seq, hload]
    exact .ret ⟨hj', hbs⟩

/-- **A sequence of calls** hands out the bytes that the reader chose, call by call. -/
theorem runAll_collects (h : Collects E J) {calls : List ReadCall}
    (hcalls : ∀ c ∈ calls, c.Admitted) (hj : J s.reader w o) :
    Always E (succeeds fun chunks s' w' => J s'.reader w' (o ++ chunks.flatten) ∧
      List.Forall₂ Fits calls chunks) (runAll calls s) w := by
  induction calls generalizing s w o with
  | nil => exact .ret ⟨by rwa [List.flatten_nil, List.append_nil], .nil⟩
  | cons c cs ih =>
    apply always_seq_ok (run_collects h hj (hcalls c List.mem_cons_self))
    rintro bs s₁ w₁ ⟨hj₁, hfits⟩
    apply always_seq_ok (ih (fun c' hc' => hcalls c' (List.mem_cons_of_mem c hc')) hj₁)
    rintro chunks s₂ w₂ ⟨hj₂, hall⟩
    exact .ret ⟨by rwa [List.flatten_cons, ← List.append_assoc], .cons hfits hall⟩

end

end ReadCall

namespace CSIBuffer

open ReadCall

/-- A buffered reader that remembers its states. -/
structure Watched where
  buffer : CSIBuffer
  past : List CSIBuffer

instance : CSIRead Watched where
  read len := Method.zoom (·.buffer) (fun b s => ⟨b, s.past ++ [b]⟩) (bufRead len)

section

variable {V A : Type}

/-- A channel of which the reader has no past. -/
def watch (s : CSI CSIBuffer V A) : CSI Watched V A :=
  ⟨⟨s.reader, [s.reader]⟩, s.writer, s.allocator, s.memory⟩

theorem buffer_collects (σ : Stream' UInt8) :
    Collects (flowing (X := X) (Y := Y)) fun (b : CSIBuffer) w o =>
      b.Wf ∧ σ = o ++ₛ ahead b w := by
  rintro b w o len ⟨hb, rfl⟩ hlen
  refine (bufRead_flowing hb hlen).mono (succeeds_mono ?_)
  rintro c b' w' ⟨hne, hle, hb', hahead⟩
  exact ⟨hne, hle, hb', by rw [hahead, Stream'.append_append_stream]⟩

theorem watched_collects :
    Collects (flowing (X := X) (Y := Y)) fun (r : Watched) _ _ =>
      r.buffer.Wf ∧ ∀ b ∈ r.past, b.Bounded := by
  rintro r w o len ⟨hr, hpast⟩ hlen
  refine (always_zoom_ok (bufRead_flowing hr hlen)).mono (succeeds_mono ?_)
  rintro c _ w' ⟨b', ⟨hne, hle, hb', -⟩, rfl⟩
  refine ⟨hne, hle, hb', fun b hb => ?_⟩
  rcases List.mem_append.mp hb with hb | hb
  · exact hpast b hb
  · exact List.mem_singleton.mp hb ▸ hb'.bounded

/-- **The buffered reader refines the unbuffered one.** Any sequence of reads comes back with
the next bytes of the stream, and `pos <= filled_len <= max_len` before and after each `buf_read`
of it. -/
theorem reads_refine {s : CSI CSIBuffer V A} (hs : s.reader.Wf) {calls : List ReadCall}
    (hcalls : ∀ c ∈ calls, c.Admitted) (w : Stream' UInt8) :
    Always (flowing (X := X) (Y := Y)) (succeeds fun chunks s' w' =>
      ahead s.reader w = chunks.flatten ++ₛ ahead s'.reader w' ∧
        List.Forall₂ Fits calls chunks) (runAll calls s) w ∧
    Always (flowing (X := X) (Y := Y)) (succeeds fun _ s' _ => ∀ b ∈ s'.reader.past, b.Bounded)
      (runAll calls (watch s)) w := by
  constructor
  · have hstart : ahead s.reader w = [] ++ₛ ahead s.reader w := rfl
    refine (runAll_collects (buffer_collects (ahead s.reader w)) hcalls ⟨hs, hstart⟩).mono
      (succeeds_mono ?_)
    rintro chunks s' w' ⟨⟨-, hnext⟩, hfits⟩
    exact ⟨by rwa [List.nil_append] at hnext, hfits⟩
  · have hstart : ∀ b ∈ (watch s).reader.past, b.Bounded :=
      fun b hb => List.mem_singleton.mp hb ▸ hs.bounded
    refine (runAll_collects watched_collects hcalls ⟨hs, hstart⟩ (o := [])).mono (succeeds_mono ?_)
    rintro chunks s' w' ⟨⟨-, hpast⟩, -⟩
    exact hpast

end

/-- A new buffer of 16 bytes, for a read and for a `csi_read_exact` that spans several fills. -/
theorem new_buffer_refines :
    ∃ o w', Ends (flowing (X := Unit) (Y := Unit)) (runAll [.read 5, .readExact 0 40]
      (⟨usedUp 0 16, (), (), fun _ => 0⟩ : CSI CSIBuffer Unit Unit)) (Stream'.const 7) o w' ∧
      succeeds (fun chunks s' w' =>
        ahead (usedUp 0 16) (Stream'.const 7) = chunks.flatten ++ₛ ahead s'.reader w' ∧
          List.Forall₂ Fits [.read 5, .readExact 0 40] chunks) o w' :=
  (reads_refine (s := ⟨usedUp 0 16, (), (), fun _ => 0⟩)
    ⟨Nat.le_refl _, Nat.zero_le _, Nat.succ_pos _⟩
    (by simp [ReadCall.Admitted, ReadCall.len]) (Stream'.const 7)).1.exists_ends flowing_answers

end CSIBuffer

end CkbScriptIpc
