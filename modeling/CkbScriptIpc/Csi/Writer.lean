import CkbScriptIpc.Csi.Packet

/-!
# The C library: writing through a buffer

`buf_write`, `buf_flush` and the sends over a pipe that may fail or take a part of
what it is asked to write, against the log of its writes. A length that is added to
`filled_len` is that of bytes in memory besides the buffer, so the sum does not wrap.

* `CSIBuffer.bufWrite_logged`: what one `buf_write` does;
* `CSIBuffer.writes_refine`: over a pipe that takes all or nothing, the bytes of all writes
  that succeeded have been passed on or are in the buffer, in order;
* `sends_reported_iff`: a send that returns 0 has sent the whole packet, unless it passed a
  part of a large write over.
-/

namespace CkbScriptIpc

open Interaction

variable {X Y R A : Type}

/-! ## A pipe with a log -/

/-- A write of a pipe: the bytes it was asked to write, how many it took, and its answer. -/
structure Taken where
  asked : Bytes
  count : Nat
  answer : Except Code Nat

namespace Taken

def bytes (t : Taken) : Bytes := t.asked.take t.count

/-- A success tells how many bytes were taken. -/
def Honest (t : Taken) : Prop := ∀ n, t.answer = .ok n → t.count = n ∧ n ≤ t.asked.length

/-- A write that succeeds takes all, and one that fails nothing. -/
def Whole (t : Taken) : Prop :=
  match t.answer with
  | .ok n => n = t.asked.length ∧ t.count = n
  | .error _ => t.count = 0

/-- A success with a part of the bytes. -/
def Short (t : Taken) : Prop := ∃ n, t.answer = .ok n ∧ n < t.asked.length

/-- What a buffer of this capacity notices: a failure, and a short write that is not too
large for the buffer. -/
def Noticed (maxLen : Nat) (t : Taken) : Prop :=
  match t.answer with
  | .ok n => t.asked.length ≤ maxLen ∧ n ≠ t.asked.length
  | .error _ => True

end Taken

/-- The bytes that the pipe has taken. -/
def accepted (log : List Taken) : Bytes := log.flatMap Taken.bytes

theorem accepted_append (l l' : List Taken) : accepted (l ++ l') = accepted l ++ accepted l' :=
  List.flatMap_append

theorem accepted_singleton (t : Taken) : accepted [t] = t.bytes :=
  List.flatMap_singleton _ _

/-- A pipe that logs its writes, all of them with `P`. -/
def taking (P : Taken → Prop) : Env (CsiRes X Y) (List Taken) where
  pre
    | _, .write _ => True
    | _, _ => False
  step
    | w, .write bs, r, w' => ∃ k, k ≤ bs.length ∧ P ⟨bs, k, r⟩ ∧ w' = w ++ [⟨bs, k, r⟩]
    | _, _, _, _ => False

/-- A pipe that may take a write in full has an answer to every write. -/
theorem taking_answers {P : Taken → Prop} (hP : ∀ bs, P ⟨bs, bs.length, .ok bs.length⟩) :
    (taking (X := X) (Y := Y) P).Answers := by
  intro w op hpre
  cases op with
  | write bs => exact ⟨.ok bs.length, _, bs.length, Nat.le_refl _, hP bs, rfl⟩
  | _ => exact hpre.elim

namespace CSIBuffer

/-! ## What a call does -/

/-- `filled_len <= max_len`. -/
abbrev Room (b : CSIBuffer) : Prop := b.filledLen ≤ b.maxLen

/-- With the writes `l` the buffer `b` has become `b'`. `done` are the bytes of the caller, which
is told whether it is `ok`. -/
structure Wrote (b : CSIBuffer) (done : Bytes) (l : List Taken) (ok : Prop) (b' : CSIBuffer) :
    Prop where
  room : b'.Room
  maxLen : b'.maxLen = b.maxLen
  ok_iff : ok ↔ ∀ t ∈ l, ¬ t.Noticed b.maxLen
  bytes : (∀ t ∈ l, t.Whole) → accepted l ++ b'.filled = b.filled ++ done

/-- The same, with a pipe that has logged `w` before and `w'` now. -/
def Logged (P : Taken → Prop) (w : List Taken) (b : CSIBuffer) (done : Bytes) (ok : Prop)
    (b' : CSIBuffer) (w' : List Taken) : Prop :=
  ∃ l, w' = w ++ l ∧ (∀ t ∈ l, P t) ∧ Wrote b done l ok b'

section

variable {P : Taken → Prop} {w w₁ w₂ : List Taken} {b b₁ b₂ : CSIBuffer} {bs d d' : Bytes}
  {ok : Prop}

/-- One call after another. -/
theorem Wrote.trans {l l' : List Taken} (h : Wrote b d l True b₁) (h' : Wrote b₁ d' l' ok b₂) :
    Wrote b (d ++ d') (l ++ l') ok b₂ where
  room := h'.room
  maxLen := h'.maxLen.trans h.maxLen
  ok_iff := by
    have hfirst := h.ok_iff.mp trivial
    rw [h'.ok_iff, h.maxLen]
    simp only [List.mem_append]
    exact ⟨fun hall t ht => ht.elim (hfirst t) (hall t), fun hall t ht => hall t (.inr ht)⟩
  bytes := by
    intro hall
    have hfirst := h.bytes fun t ht => hall t (List.mem_append_left _ ht)
    have hsecond := h'.bytes fun t ht => hall t (List.mem_append_right _ ht)
    rw [accepted_append, List.append_assoc, hsecond, ← List.append_assoc, hfirst,
      List.append_assoc]

theorem Logged.trans (h : Logged P w b d True b₁ w₁) (h' : Logged P w₁ b₁ d' ok b₂ w₂) :
    Logged P w b (d ++ d') ok b₂ w₂ := by
  obtain ⟨l, rfl, hl, hwrote⟩ := h
  obtain ⟨l', rfl, hl', hwrote'⟩ := h'
  refine ⟨l ++ l', List.append_assoc _ _ _, fun t ht => ?_, hwrote.trans hwrote'⟩
  exact (List.mem_append.mp ht).elim (hl t) (hl' t)

theorem Logged.room (h : Logged P w b d ok b₁ w₁) : b₁.Room := by
  obtain ⟨l, -, -, hwrote⟩ := h
  exact hwrote.room

/-- What `csi_write_pipe` logs: nothing if there is nothing to write, else one write. -/
def Passed (bs : Bytes) (l : List Taken) (r : Except Code Nat) : Prop :=
  (bs = [] ∧ l = [] ∧ r = .ok 0) ∨ ∃ k, l = [⟨bs, k, r⟩]

theorem csiWritePipe_logged (P : Taken → Prop) (bs : Bytes) (w : List Taken) :
    Always (taking (X := X) (Y := Y) P)
      (returns fun r w' => ∃ l, w' = w ++ l ∧ (∀ t ∈ l, P t) ∧ Passed bs l r)
      (csiWritePipe bs) w := by
  by_cases hbs : bs = []
  · rw [csiWritePipe, if_pos hbs]
    exact .ret ⟨[], (List.append_nil w).symm, by rintro t ⟨⟩, .inl ⟨hbs, rfl, rfl⟩⟩
  · rw [csiWritePipe, if_neg hbs]
    refine .call trivial fun r w' hs => ?_
    obtain ⟨k, -, hp, rfl⟩ := hs
    exact .ret ⟨_, rfl, fun t ht => List.mem_singleton.mp ht ▸ hp, .inr ⟨k, rfl⟩⟩

/-- A flush empties the buffer, or leaves it as it was. -/
theorem bufFlush_logged (hb : b.Room) :
    Always (taking (X := X) (Y := Y) P)
      (resolves (fun _ b' w' => b'.filledLen = 0 ∧ Logged P w b [] True b' w')
        fun _ b' w' => Logged P w b [] False b' w') (bufFlush b) w := by
  have hlen : b.filled.length = b.filledLen := length_load _ _ _
  have hempty : ({ b with pos := 0, filledLen := 0 } : CSIBuffer).filled = [] := filled_empty rfl
  rw [bufFlush, get_seq]
  apply always_seq_ok (always_lift_ok (csiWritePipe_logged P b.filled w))
  rintro r b w' ⟨⟨l, rfl, hl, ⟨hnil, rfl, rfl⟩ | ⟨k, rfl⟩⟩, rfl⟩
  · have hnone : b.filledLen = 0 := by rw [← hlen, hnil, List.length_nil]
    simp only [ofExcept_ok_seq, hnone, ne_eq, not_true_eq_false, ↓reduceIte]
    refine .ret ⟨rfl, [], rfl, hl, Nat.zero_le _, rfl, by simp, fun _ => ?_⟩
    rw [hempty, hnil]
    rfl
  · rcases r with e | n
    · refine .ret ⟨_, rfl, hl, hb, rfl, by simp [Taken.Noticed], fun hall => ?_⟩
      have hnothing : k = 0 := hall _ (List.mem_singleton_self _)
      rw [accepted_singleton, Taken.bytes, hnothing, List.take_zero, List.append_nil,
        List.nil_append]
    · rw [ofExcept_ok_seq]
      by_cases hn : n = b.filledLen
      · simp only [hn, ne_eq, not_true_eq_false, ↓reduceIte]
        refine .ret ⟨rfl, _, rfl, hn ▸ hl, Nat.zero_le _, rfl, by simp [Taken.Noticed, hlen],
          fun hall => ?_⟩
        have hwhole := hall _ (List.mem_singleton_self _)
        rw [hempty, accepted_singleton, Taken.bytes, List.append_nil, List.append_nil]
        exact List.take_of_length_le (by rw [hlen]; exact Nat.le_of_eq hwhole.2.symm)
      · simp only [ne_eq, hn, not_false_eq_true, ↓reduceIte]
        refine .ret ⟨_, rfl, hl, hb, rfl, by simp [Taken.Noticed, hlen, hb, hn], fun hall => ?_⟩
        have hwhole := hall _ (List.mem_singleton_self _)
        exact absurd (hwhole.1.trans hlen) hn

/-- Bytes that fit are kept, and others go straight to the pipe. -/
theorem put_logged (hb : b.Room)
    (hfit : b.filledLen = 0 ∨ b.filledLen + bs.length ≤ b.maxLen) :
    Always (taking (X := X) (Y := Y) P)
      (resolves (fun n b' w' => n = bs.length ∧ Logged P w b bs True b' w')
        fun _ b' w' => Logged P w b [] False b' w') (put bs b) w := by
  rw [put, get_seq]
  by_cases hlarge : bs.length > b.maxLen
  · rw [if_pos hlarge]
    have hnil : b.filled = [] := filled_empty (by omega)
    have hsmall : ¬ bs.length ≤ b.maxLen := by omega
    apply always_seq_ok (always_lift_ok (csiWritePipe_logged P bs w))
    rintro r b w' ⟨⟨l, rfl, hl, ⟨rfl, -, -⟩ | ⟨k, rfl⟩⟩, rfl⟩
    · exact absurd (Nat.zero_le _) hsmall
    · rcases r with e | n
      · refine .ret ⟨_, rfl, hl, hb, rfl, by simp [Taken.Noticed], fun hall => ?_⟩
        have hnothing : k = 0 := hall _ (List.mem_singleton_self _)
        rw [accepted_singleton, Taken.bytes, hnothing, List.take_zero, List.append_nil,
          List.nil_append]
      · rw [ofExcept_ok_seq]
        refine .ret ⟨rfl, _, rfl, hl, hb, rfl, by simp [Taken.Noticed, hsmall], fun hall => ?_⟩
        obtain ⟨hn, hk⟩ := hall _ (List.mem_singleton_self _)
        rw [hnil, accepted_singleton, Taken.bytes, List.append_nil, List.nil_append]
        exact List.take_of_length_le (Nat.le_of_eq (hk.trans hn).symm)
  · rw [if_neg hlarge]
    refine .ret ⟨rfl, [], (List.append_nil w).symm, by rintro t ⟨⟩, ?_, rfl, by simp,
      fun _ => ?_⟩
    · show b.filledLen + bs.length ≤ b.maxLen
      omega
    · have hstore := load_store_append b.buf 0 b.filledLen bs
      rw [Nat.zero_add] at hstore
      exact hstore

/-- **What one `buf_write` does.** Its bytes are passed on or kept, behind those that were kept,
or none of them is. -/
theorem bufWrite_logged (hb : b.Room) (bs : Bytes) :
    Always (taking (X := X) (Y := Y) P)
      (resolves (fun n b' w' => n = bs.length ∧ Logged P w b bs True b' w')
        fun _ b' w' => Logged P w b [] False b' w') (bufWrite bs b) w := by
  rw [bufWrite, get_seq]
  by_cases hfit : b.filledLen + bs.length > b.maxLen
  · rw [if_pos hfit]
    apply always_seq_resolves (bufFlush_logged hb)
    · rintro _ b₁ w₁ ⟨hempty, hflushed⟩
      refine (put_logged hflushed.room (.inl hempty)).mono (resolves_mono ?_ ?_)
      · rintro n b₂ w₂ ⟨hn, hput⟩
        exact ⟨hn, hflushed.trans hput⟩
      · rintro e b₂ w₂ hput
        exact hflushed.trans hput
    · rintro e b₁ w₁ hfailed
      exact hfailed
  · rw [if_neg hfit]
    exact put_logged hb (.inr (by omega))

end

end CSIBuffer

/-! ## Sequences of calls -/

inductive WriteCall where
  | write (bs : Bytes)
  | flush

namespace WriteCall

open CSIBuffer

def data : WriteCall → Bytes
  | .write bs => bs
  | .flush => []

def run : WriteCall → Method (CsiRes X Y) Code CSIBuffer Unit
  | .write bs => do
    let _ ← bufWrite bs
    return ()
  | .flush => bufFlush

/-- Every call is made, whatever those before it returned. -/
def runAll : List WriteCall → Method (CsiRes X Y) Code CSIBuffer (List (Except Code Unit))
  | [] => return []
  | c :: cs => do
    let result ← Method.attempt c.run
    let results ← runAll cs
    return result :: results

/-- The data of the calls that succeeded. -/
def succeeded : List WriteCall → List (Except Code Unit) → Bytes
  | c :: cs, .ok _ :: results => c.data ++ succeeded cs results
  | _ :: cs, .error _ :: results => succeeded cs results
  | _, _ => []

section

variable {P : Taken → Prop} {w : List Taken} {b : CSIBuffer}

theorem run_logged (hb : b.Room) (c : WriteCall) :
    Always (taking (X := X) (Y := Y) P)
      (resolves (fun _ b' w' => Logged P w b c.data True b' w')
        fun _ b' w' => Logged P w b [] False b' w') (c.run b) w := by
  cases c with
  | write bs =>
    apply always_seq_resolves (bufWrite_logged hb bs)
    · rintro n b' w' ⟨-, hlogged⟩
      exact .ret hlogged
    · rintro e b' w' hlogged
      exact hlogged
  | flush =>
    refine (bufFlush_logged hb).mono (resolves_mono ?_ fun _ _ _ h => h)
    rintro _ b' w' ⟨-, hlogged⟩
    exact hlogged

/-- The bytes `d` have been passed on or are in the buffer, behind those that were. -/
structure Holds (w : List Taken) (b : CSIBuffer) (d : Bytes) (b' : CSIBuffer) (w' : List Taken) :
    Prop where
  room : b'.Room
  bytes : accepted w' ++ b'.filled = accepted w ++ b.filled ++ d

theorem Holds.refl (hb : b.Room) : Holds w b [] b w :=
  ⟨hb, (List.append_nil _).symm⟩

theorem Holds.trans {d d' : Bytes} {b₁ b₂ : CSIBuffer} {w₁ w₂ : List Taken}
    (h : Holds w b d b₁ w₁) (h' : Holds w₁ b₁ d' b₂ w₂) : Holds w b (d ++ d') b₂ w₂ :=
  ⟨h'.room, by rw [h'.bytes, h.bytes, List.append_assoc]⟩

/-- Over a pipe that takes all or nothing a call takes all or nothing. -/
theorem holds_of_logged {d : Bytes} {ok : Prop} {b' : CSIBuffer} {w' : List Taken}
    (h : Logged Taken.Whole w b d ok b' w') : Holds w b d b' w' := by
  obtain ⟨l, rfl, hl, hwrote⟩ := h
  refine ⟨hwrote.room, ?_⟩
  rw [accepted_append, List.append_assoc, hwrote.bytes hl, List.append_assoc]

/-- After a successful flush there is nothing but what has been passed on. -/
theorem bufFlush_delivers (hb : b.Room) :
    Always (taking (X := X) (Y := Y) Taken.Whole)
      (settles (fun _ _ w' => accepted w' = accepted w ++ b.filled) fun _ _ _ => True)
      (bufFlush b) w := by
  refine (bufFlush_logged hb).mono ?_
  rintro (⟨e | _, b'⟩ | _) w' ho
  · trivial
  · have hbytes := (holds_of_logged ho.2).bytes
    rwa [filled_empty ho.1, List.append_nil, List.append_nil] at hbytes
  · trivial

theorem runAll_holds (hb : b.Room) (calls : List WriteCall) :
    Always (taking (X := X) (Y := Y) Taken.Whole) (succeeds fun results b' w' =>
      results.length = calls.length ∧ Holds w b (succeeded calls results) b' w')
      (runAll calls b) w := by
  induction calls generalizing b w with
  | nil => exact .ret ⟨rfl, .refl hb⟩
  | cons c cs ih =>
    apply always_seq_ok (always_attempt_resolves (run_logged hb c))
    rintro r b₁ w₁ (⟨_, rfl, hlogged⟩ | ⟨e, rfl, hlogged⟩)
    all_goals
      have hfirst := holds_of_logged hlogged
      apply always_seq_ok (ih hfirst.room)
      rintro results b₂ w₂ ⟨hlength, hrest⟩
      exact .ret ⟨congrArg (· + 1) hlength, hfirst.trans hrest⟩

/-- **The buffered writer refines the unbuffered one.** After any sequence of calls, over a pipe
that takes all or nothing, the bytes of the calls that succeeded have been passed on or are in
the buffer, in order; a flush that succeeds then passes all of them on. -/
theorem writes_refine (hb : b.Room) (calls : List WriteCall) (w : List Taken) :
    Always (taking (X := X) (Y := Y) Taken.Whole) (succeeds fun results b' w' =>
      results.length = calls.length ∧ Holds w b (succeeded calls results) b' w' ∧
      Always (taking (X := X) (Y := Y) Taken.Whole)
        (settles (fun _ _ w'' => accepted w'' = accepted w ++ b.filled ++ succeeded calls results)
          fun _ _ _ => True) (bufFlush b') w')
      (runAll calls b) w := by
  refine (runAll_holds hb calls).mono (succeeds_mono ?_)
  rintro results b' w' ⟨hlength, hholds⟩
  refine ⟨hlength, hholds, ?_⟩
  rw [← hholds.bytes]
  exact bufFlush_delivers hholds.room

end

/-- A new buffer of 16 bytes, for a write that it keeps and one that is too large for it. -/
theorem new_writer_refines :
    ∃ o w', Ends (taking (X := Unit) (Y := Unit) Taken.Whole)
      (runAll [.write [1, 2, 3], .write (List.replicate 20 7), .flush] ⟨0, 0, 16, fun _ => 0⟩)
      [] o w' ∧
      succeeds (fun results b' w' => results.length = 3 ∧ Holds [] ⟨0, 0, 16, fun _ => 0⟩
        (succeeded [.write [1, 2, 3], .write (List.replicate 20 7), .flush] results) b' w') o w' :=
  have hrun := writes_refine (X := Unit) (Y := Unit) (b := ⟨0, 0, 16, fun _ => 0⟩)
    (Nat.zero_le _) [.write [1, 2, 3], .write (List.replicate 20 7), .flush] []
  (hrun.mono (succeeds_mono fun _ _ _ h => ⟨h.1, h.2.1⟩)).exists_ends
    (taking_answers fun _ => ⟨rfl, rfl⟩)

end WriteCall

/-! ## Sends -/

namespace CSI

open CSIBuffer

section

variable {P : Taken → Prop} {Q Q' : CSIBuffer → Prop} {s : CSI R CSIBuffer A} {w : List Taken}
  {bs bs' : Bytes}

/-- The method writes `bs` and leaves a buffer in `Q`, or it writes a part and fails. -/
abbrev sent (P : Taken → Prop) (Q : CSIBuffer → Prop) (w : List Taken) (s : CSI R CSIBuffer A)
    (bs : Bytes) : Outcome (Except Code Unit × CSI R CSIBuffer A) → List Taken → Prop :=
  resolves (fun _ s' w' => ∃ b, s' = { s with writer := b } ∧ Q b ∧
      Logged P w s.writer bs True b w')
    fun _ s' w' => ∃ d, Logged P w s.writer d False s'.writer w'

/-- One part of a packet after another. -/
theorem sent_seq {x y : Method (CsiRes X Y) Code (CSI R CSIBuffer A) Unit}
    (hx : Always (taking P) (sent P Q w s bs) (x s) w)
    (hy : ∀ b w', Q b →
      Always (taking P) (sent P Q' w' { s with writer := b } bs') (y { s with writer := b }) w') :
    Always (taking P) (sent P Q' w s (bs ++ bs')) ((x >>= fun _ => y) s) w := by
  apply always_seq_resolves hx
  · rintro _ _ w₁ ⟨b₁, rfl, hq, hfirst⟩
    refine (hy b₁ w₁ hq).mono (resolves_mono ?_ ?_)
    · rintro _ _ w₂ ⟨b₂, rfl, hq', hsecond⟩
      exact ⟨b₂, rfl, hq', hfirst.trans hsecond⟩
    · rintro e s₂ w₂ ⟨d, hsecond⟩
      exact ⟨bs ++ d, hfirst.trans hsecond⟩
  · rintro e s₁ w₁ ⟨d, hfirst⟩
    exact ⟨d, hfirst⟩

/-- A part that the buffer takes in full, or not at all. -/
theorem sent_of_writer {x : Method (CsiRes X Y) Code CSIBuffer Unit}
    (hx : Always (taking P) (resolves (fun _ b w' => Q b ∧ Logged P w s.writer bs True b w')
      fun _ b w' => Logged P w s.writer [] False b w') (x s.writer) w) :
    Always (taking P) (sent P Q w s bs) (onWriter x s) w := by
  refine (always_zoom_resolves hx).mono (resolves_mono ?_ ?_)
  · rintro _ _ w' ⟨b, ⟨hq, hlogged⟩, rfl⟩
    exact ⟨b, rfl, hq, hlogged⟩
  · rintro e _ w' ⟨b, hlogged, rfl⟩
    exact ⟨[], hlogged⟩

theorem csiWriteField_sent (hs : s.writer.Room) (value : UInt64) :
    Always (taking (X := X) (Y := Y) P) (sent P Room w s (vlqEncode value))
      (onWriter (csiWriteVlq value) s) w := by
  apply sent_of_writer
  rw [csiWriteVlq_eq]
  apply always_seq_resolves (bufWrite_logged hs (vlqEncode value))
  · rintro n b w' ⟨rfl, hlogged⟩
    simp only [ne_eq, not_true_eq_false, ↓reduceIte]
    exact .ret ⟨hlogged.room, hlogged⟩
  · rintro e b w' hlogged
    exact hlogged

theorem csiSendPayload_sent (hs : s.writer.Room) (sendError : CSIErrorCode) (p : CSIPacket) :
    Always (taking (X := X) (Y := Y) P)
      (sent P Room w s (load s.memory p.payload p.payloadLen.toNat))
      (csiSendPayload sendError p s) w := by
  rw [csiSendPayload]
  by_cases hpos : 0 < p.payloadLen.toNat
  · simp only [uint64_pos, hpos, ↓reduceIte, get_seq]
    apply always_seq_resolves (always_zoom_resolves (bufWrite_logged hs _))
    · rintro n _ w' ⟨b, ⟨rfl, hlogged⟩, rfl⟩
      simp only [length_load, ne_eq, not_true_eq_false, ↓reduceIte]
      exact .ret ⟨b, rfl, hlogged.room, hlogged⟩
    · rintro e _ w' ⟨b, hlogged, rfl⟩
      exact ⟨[], hlogged⟩
  · have hzero : p.payloadLen.toNat = 0 := by omega
    simp only [uint64_pos, hpos, ↓reduceIte]
    refine .ret ⟨s.writer, rfl, hs, [], (List.append_nil w).symm, by rintro t ⟨⟩, hs, rfl,
      by simp, fun _ => ?_⟩
    rw [hzero, load, List.append_nil]
    rfl

/-- The bytes of a packet. -/
def packetOf (m : Memory) (p : CSIPacket) : Bytes :=
  wirePacket p.version p.code (load m p.payload p.payloadLen.toNat)

theorem packetOf_eq (m : Memory) (p : CSIPacket) :
    packetOf m p = vlqEncode p.version ++ (vlqEncode p.code ++ (vlqEncode p.payloadLen ++
      (load m p.payload p.payloadLen.toNat ++ []))) := by
  rw [packetOf, wirePacket, length_load, UInt64.ofNat_toNat, List.append_nil]
  simp only [List.append_assoc]

/-- **What a send does.** It writes the packet and empties the buffer, or fails on the way. -/
theorem csiSend_sent (hs : s.writer.Room) (sendError : CSIErrorCode) (p : CSIPacket) :
    Always (taking (X := X) (Y := Y) P)
      (sent P (fun b => b.filledLen = 0) w s (packetOf s.memory p)) (csiSend sendError p s) w := by
  rw [packetOf_eq]
  apply sent_seq (csiWriteField_sent hs p.version)
  intro b₁ w₁ hb₁
  apply sent_seq (csiWriteField_sent hb₁ p.code)
  intro b₂ w₂ hb₂
  apply sent_seq (csiWriteField_sent hb₂ p.payloadLen)
  intro b₃ w₃ hb₃
  apply sent_seq (csiSendPayload_sent hb₃ sendError p)
  intro b₄ w₄ hb₄
  exact sent_of_writer (bufFlush_logged hb₄)

/-- A send from `s` that has come back, with the writes `l`. If it returns 0 the pipe has taken
the whole packet, and no write was short. -/
structure Reported (s : CSI R CSIBuffer A) (p : CSIPacket) (l : List Taken) (r : Except Code Unit) :
    Prop where
  whole : r = .ok () → accepted l = s.writer.filled ++ packetOf s.memory p
  short : (∃ t ∈ l, t.Short) → r ≠ .ok ()

/-- No write was short, or the buffer has noticed one that failed or was. -/
def NoneHidden (maxLen : Nat) (l : List Taken) : Prop :=
  (∀ t ∈ l, ¬ t.Short) ∨ ∃ t ∈ l, t.Noticed maxLen

theorem whole_of_not_noticed {t : Taken} {maxLen : Nat} (hp : t.Honest) (hs : ¬ t.Short)
    (hn : ¬ t.Noticed maxLen) : t.Whole := by
  obtain ⟨asked, count, e | n⟩ := t
  · exact absurd trivial hn
  · obtain ⟨hcount, hle⟩ := hp n rfl
    have hfull : ¬ n < asked.length := fun hlt => hs ⟨n, rfl, hlt⟩
    exact ⟨Nat.le_antisymm hle (Nat.le_of_not_lt hfull), hcount⟩

/-- The postcondition of a send: it keeps its word exactly when no short write was hidden. -/
def reportedIff (s : CSI R CSIBuffer A) (p : CSIPacket) (w : List Taken)
    (o : Outcome (Except Code Unit × CSI R CSIBuffer A)) (w' : List Taken) : Prop :=
  ∃ r s' l, o = .ret (r, s') ∧ w' = w ++ l ∧
    (Reported s p l r ↔ NoneHidden s.writer.maxLen l)

theorem csiSend_reported (hs : s.writer.Room) (sendError : CSIErrorCode) (p : CSIPacket) :
    Always (taking (X := X) (Y := Y) Taken.Honest) (reportedIff s p w)
      (csiSend sendError p s) w := by
  refine (csiSend_sent hs sendError p).mono ?_
  rintro (⟨e | _, s'⟩ | _) w' ho
  · obtain ⟨d, l, rfl, hl, hwrote⟩ := ho
    refine ⟨_, _, l, rfl, rfl, fun _ => .inr ?_, fun _ => ⟨by rintro ⟨⟩, by rintro - ⟨⟩⟩⟩
    exact Classical.byContradiction fun hnone =>
      hwrote.ok_iff.mpr fun t ht hnoticed => hnone ⟨t, ht, hnoticed⟩
  · obtain ⟨b, rfl, hempty, l, rfl, hl, hwrote⟩ := ho
    have hclear := hwrote.ok_iff.mp trivial
    refine ⟨_, _, l, rfl, rfl, fun hr => .inl fun t ht hshort => hr.short ⟨t, ht, hshort⟩ rfl, ?_⟩
    rintro (hnone | ⟨t, ht, hnoticed⟩)
    · have hbytes := hwrote.bytes fun t ht =>
        whole_of_not_noticed (hl t ht) (hnone t ht) (hclear t ht)
      rw [filled_empty hempty, List.append_nil] at hbytes
      exact ⟨fun _ => hbytes, fun ⟨t, ht, hshort⟩ => absurd hshort (hnone t ht)⟩
    · exact absurd hnoticed (hclear t ht)
  · exact ho.elim

end

end CSI

/-- **A send that returns 0 has sent the packet,** in every run in which no write that is too
large for the buffer is taken in part, or another write goes wrong; and in no other. -/
theorem sends_reported_iff {s : CSI R CSIBuffer A} (hs : s.writer.filledLen ≤ s.writer.maxLen)
    (p : CSIPacket) (w : List Taken) :
    Always (taking (X := X) (Y := Y) Taken.Honest) (CSI.reportedIff s p w)
      (csiSendRequest p s) w ∧
    Always (taking (X := X) (Y := Y) Taken.Honest) (CSI.reportedIff s p w)
      (csiSendResponse p s) w :=
  ⟨CSI.csiSend_reported hs _ p, CSI.csiSend_reported hs _ p⟩

/-- A channel with an empty write buffer of 16 bytes, and sevens as the payload. -/
def sevens : CSI Unit CSIBuffer Unit := ⟨(), ⟨0, 0, 16, fun _ => 0⟩, (), fun _ => 7⟩

theorem sevens_reported :
    Always (taking (X := Unit) (Y := Unit) Taken.Honest) (CSI.reportedIff sevens ⟨0, 0, 5, 4096⟩ [])
      (csiSendRequest ⟨0, 0, 5, 4096⟩ sevens) [] :=
  (sends_reported_iff (Nat.zero_le _) ⟨0, 0, 5, 4096⟩ []).1

/-- A pipe that takes at most `n` bytes at a time. -/
def takeUpTo (n : Nat) : Choice (CsiRes Unit Unit) (List Taken)
  | .write bs, w =>
    some (.ok (min n bs.length), w ++ [⟨bs, min n bs.length, .ok (min n bs.length)⟩])
  | _, _ => none

theorem takeUpTo_step (n : Nat) (op : StreamOp Unit) (w : List Taken) (r : CsiRes Unit Unit op)
    (w' : List Taken) (h : takeUpTo n op w = some (r, w')) :
    (taking Taken.Honest).step w op r w' := by
  cases op with
  | write bs =>
    cases h
    refine ⟨_, Nat.min_le_right n bs.length, ?_, rfl⟩
    rintro _ ⟨⟩
    exact ⟨rfl, Nat.min_le_right _ _⟩
  | _ => cases h

theorem takeUpTo_allowed : ∀ c ∈ [takeUpTo 16, takeUpTo 1], ∀ op w r w',
    c op w = some (r, w') → (taking Taken.Honest).step w op r w' := by
  intro c hc
  simp only [List.mem_cons, List.not_mem_nil, or_false] at hc
  rcases hc with rfl | rfl
  · exact takeUpTo_step 16
  · exact takeUpTo_step 1

/-- Of a payload of 17 bytes the pipe takes one, and the send returns 0. -/
theorem large_payload_cut : ∃ s' w',
    Ends (taking (X := Unit) (Y := Unit) Taken.Honest) (csiSendRequest ⟨0, 0, 17, 4096⟩ sevens) []
      (.ret (.ok (), s')) w' ∧
    accepted w' = [0, 0, 17, 7] ∧
    CSI.packetOf sevens.memory ⟨0, 0, 17, 4096⟩ = [0, 0, 17] ++ List.replicate 17 7 := by
  have hreach := reach_exec takeUpTo_allowed 20 (csiSendRequest ⟨0, 0, 17, 4096⟩ sevens) []
  have hok : ((csiSendRequest ⟨0, 0, 17, 4096⟩ sevens).exec 20
      [takeUpTo 16, takeUpTo 1] []).1.value.map (·.1.isOk) = some true := by decide +kernel
  have hlog : accepted ((csiSendRequest ⟨0, 0, 17, 4096⟩ sevens).exec 20
      [takeUpTo 16, takeUpTo 1] []).2 = [0, 0, 17, 7] := by decide +kernel
  obtain ⟨⟨r, s'⟩, hvalue, hr⟩ := Option.map_eq_some_iff.mp hok
  rw [eq_ret_of_value hvalue] at hreach
  rcases r with e | _
  · cases hr
  · exact ⟨s', _, hreach, hlog, by decide +kernel⟩

end CkbScriptIpc
