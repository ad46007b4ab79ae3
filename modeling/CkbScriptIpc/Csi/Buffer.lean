import CkbScriptIpc.Csi.Context

/-!
# The C library: pipes and buffers

`csi_read_pipe` and `csi_write_pipe`, and the `CSIBuffer` that `buf_read`,
`buf_flush` and `buf_write` put around a pipe.

* `CSIBuffer.streams`: buffering hands out the bytes of the pipe, in order;
* `CSIBuffer.bufWrite_full`, `CSIBuffer.bufFlush_full`: what was written has been passed on
  or is in the buffer.
-/

namespace CkbScriptIpc

open Interaction

variable {X Y W : Type}

/-- `CSIReader`. -/
class CSIRead (R : Type) where
  /-- Read at most `len` bytes; `*read_len` is their number. -/
  read {X Y : Type} (len : Nat) : Method (CsiRes X Y) Code R Bytes

/-- `CSIWriter`. -/
class CSIWrite (V : Type) where
  /-- Write `bs`, and give `*written_len`. -/
  write {X Y : Type} (bs : Bytes) : Method (CsiRes X Y) Code V Nat
  flush {X Y : Type} : Method (CsiRes X Y) Code V Unit

/-- `csi_read_pipe`, with what it leaves in `*read_len`: a `ckb_read` that fails
does not touch the length that was passed in. -/
def csiReadPipe (len : Nat) : Prog (CsiRes X Y) (Except Code Bytes × Nat) :=
  .call (.read len) fun
    | .ok bs => .ret (.ok bs, bs.length)
    | .error e => .ret (.error e, len)

def csiWritePipe (bs : Bytes) : Prog (CsiRes X Y) (Except Code Nat) :=
  if bs = [] then .ret (.ok 0) else .call (.write bs) .ret

structure CSIBuffer where
  pos : Nat
  filledLen : Nat
  maxLen : Nat
  buf : Memory

namespace CSIBuffer

/-! ## Reading -/

/-- The first part of `buf_read`. The pipe's `*read_len` is `filled_len`, which a
read that fails overwrites too; `pos` stays. -/
def fill : Method (CsiRes X Y) Code CSIBuffer Unit := do
  let b ← Method.get
  match ← Method.lift (csiReadPipe b.maxLen) with
  | (.ok bs, readLen) =>
    Method.set { b with buf := store b.buf 0 bs, filledLen := readLen, pos := 0 }
  | (.error err, readLen) =>
    Method.set { b with filledLen := readLen }
    Method.throw err

/-- The second part of `buf_read`: hand out buffered bytes. -/
def take (len : Nat) : Method (CsiRes X Y) Code CSIBuffer Bytes := do
  let b ← Method.get
  if b.pos ≥ b.filledLen ∨ b.filledLen > b.maxLen then Method.panic
  else
    let remainingLen := b.filledLen - b.pos
    let readLen := if len > remainingLen then remainingLen else len
    Method.set { b with pos := b.pos + readLen }
    return load b.buf b.pos readLen

def bufRead (len : Nat) : Method (CsiRes X Y) Code CSIBuffer Bytes := do
  let b ← Method.get
  if b.pos = b.filledLen then fill
  take len

instance : CSIRead CSIBuffer where
  read := bufRead

/-- The bytes that are buffered and not handed out. -/
def unread (b : CSIBuffer) : Bytes := load b.buf b.pos (b.filledLen - b.pos)

structure Wf (b : CSIBuffer) : Prop where
  pos_le : b.pos ≤ b.filledLen
  filledLen_le : b.filledLen ≤ b.maxLen
  maxLen_pos : 0 < b.maxLen

/-- `pos <= filled_len <= max_len`. -/
structure Bounded (b : CSIBuffer) : Prop where
  pos_le : b.pos ≤ b.filledLen
  filledLen_le : b.filledLen ≤ b.maxLen

theorem Wf.bounded {b : CSIBuffer} (h : b.Wf) : b.Bounded := ⟨h.pos_le, h.filledLen_le⟩

/-- The bytes still to be read: those buffered, then those of the pipe. -/
def view (St : W → Bytes → Prop) (b : CSIBuffer) (w : W) (s : Bytes) : Prop :=
  b.Wf ∧ ∃ t, s = b.unread ++ t ∧ St w t

section

variable {E : Env (CsiRes X Y) W} {St : W → Bytes → Prop} {b : CSIBuffer} {w : W} {s t : Bytes}

theorem unread_eq_nil (h : b.Wf) : b.unread = [] ↔ b.pos = b.filledLen := by
  have hpos := h.pos_le
  rw [← List.length_eq_zero_iff, unread, length_load]
  omega

theorem unread_empty (hempty : b.pos = b.filledLen) : b.unread = [] := by
  rw [unread, hempty, Nat.sub_self]
  rfl

/-- A buffer that has been filled with the chunk `c`. -/
def filledWith (c : Bytes) (b : CSIBuffer) : CSIBuffer :=
  { b with buf := store b.buf 0 c, filledLen := c.length, pos := 0 }

theorem unread_filledWith (c : Bytes) (b : CSIBuffer) : (b.filledWith c).unread = c :=
  load_store b.buf 0 c

theorem filledWith_bounded {c : Bytes} (h : c.length ≤ b.maxLen) : (b.filledWith c).Bounded :=
  ⟨Nat.zero_le _, h⟩

theorem filledWith_wf {c : Bytes} (hb : b.Wf) (h : c.length ≤ b.maxLen) : (b.filledWith c).Wf :=
  ⟨Nat.zero_le _, h, hb.maxLen_pos⟩

/-- A buffer of which the first `len` unread bytes have been handed out. -/
def advance (len : Nat) (b : CSIBuffer) : CSIBuffer :=
  { b with pos := b.pos + min len (b.filledLen - b.pos) }

theorem unread_advance (len : Nat) (b : CSIBuffer) :
    (b.advance len).unread = b.unread.drop len := by
  rw [unread, unread, drop_load]
  show load b.buf (b.pos + min len (b.filledLen - b.pos))
    (b.filledLen - (b.pos + min len (b.filledLen - b.pos))) = _
  rcases Nat.le_total len (b.filledLen - b.pos) with hlen | hlen
  · rw [Nat.min_eq_left hlen, Nat.sub_add_eq]
  · have hnone : b.filledLen - (b.pos + (b.filledLen - b.pos)) = 0 := by omega
    rw [Nat.min_eq_right hlen, Nat.sub_eq_zero_of_le hlen, hnone, load, load]

/-- Buffered bytes are handed out from the front. -/
theorem take_eq (hlt : b.pos < b.filledLen) (hle : b.filledLen ≤ b.maxLen) (len : Nat) :
    take len b = (.ret (.ok (b.unread.take len), b.advance len) : Prog (CsiRes X Y) _) := by
  have hcheck : ¬ (b.pos ≥ b.filledLen ∨ b.filledLen > b.maxLen) := by omega
  have hmin : (if len > b.filledLen - b.pos then b.filledLen - b.pos else len) =
      min len (b.filledLen - b.pos) := by
    split <;> omega
  rw [take, get_seq, if_neg hcheck, unread, take_load]
  simp only [hmin]
  rfl

/-- A chunk without a byte is an internal error, and so is one that is too large. -/
theorem take_panic (h : b.filledLen ≤ b.pos ∨ b.maxLen < b.filledLen) (len : Nat) :
    take len b = (.panic : Prog (CsiRes X Y) _) := by
  rw [take, get_seq, if_pos h]
  rfl

/-- A reader that has unread bytes does not ask the pipe. -/
theorem bufRead_buffered (hb : b.Bounded) (hlt : b.pos < b.filledLen) (len : Nat) :
    bufRead len b = (.ret (.ok (b.unread.take len), b.advance len) : Prog (CsiRes X Y) _) := by
  rw [bufRead, get_seq, if_neg (Nat.ne_of_lt hlt)]
  exact take_eq hlt hb.filledLen_le len

/-- A reader that has none asks it for all that fits. -/
theorem bufRead_empty (hempty : b.pos = b.filledLen) (len : Nat) :
    bufRead len b = (.call (.read b.maxLen) fun
      | .ok c => take len (b.filledWith c)
      | .error e => .ret (.error e, { b with filledLen := b.maxLen }) : Prog (CsiRes X Y) _) := by
  rw [bufRead, get_seq, if_pos hempty]
  show Prog.call _ _ = Prog.call _ _
  congr 1
  funext r
  cases r <;> rfl

theorem advance_bounded (h : b.Bounded) (len : Nat) : (b.advance len).Bounded where
  pos_le := by
    have := h.pos_le
    show b.pos + min len (b.filledLen - b.pos) ≤ b.filledLen
    omega
  filledLen_le := h.filledLen_le

theorem advance_wf (h : b.Wf) (len : Nat) : (b.advance len).Wf :=
  have hb := advance_bounded h.bounded len
  ⟨hb.pos_le, hb.filledLen_le, h.maxLen_pos⟩

theorem take_ok (hst : view St b w s) (hne : b.unread ≠ []) {len : Nat} (hlen : 0 < len) :
    Always E (succeeds fun c b' w' => ∃ s', s = c ++ s' ∧ c ≠ [] ∧ c.length ≤ len ∧
      view St b' w' s')
      (take (X := X) (Y := Y) len b) w := by
  obtain ⟨hb, t, rfl, hst⟩ := hst
  have hpos := hb.pos_le
  have hne' : b.pos ≠ b.filledLen := fun h => hne ((unread_eq_nil hb).mpr h)
  rw [take_eq (by omega) hb.filledLen_le]
  refine .ret ⟨b.unread.drop len ++ t, ?_, ?_, List.length_take_le _ _, advance_wf hb len, t, ?_,
    hst⟩
  · rw [← List.append_assoc, List.take_append_drop]
  · rw [ne_eq, List.take_eq_nil_iff]
    exact not_or.mpr ⟨Nat.ne_of_gt hlen, hne⟩
  · rw [unread_advance]

/-- Buffering hands out the bytes of the pipe. -/
theorem streams_on (h : FeedsOn E St) : Streams CSIRead.read E (view St) where
  chunk := by
    rintro b w s len ⟨hb, t, rfl, hst⟩ hs hlen
    show Always E _ (bufRead len b) w
    rcases Nat.lt_or_eq_of_le hb.pos_le with hlt | hempty
    · rw [bufRead_buffered hb.bounded hlt, ← take_eq hlt hb.filledLen_le]
      exact take_ok ⟨hb, t, rfl, hst⟩
        (fun hnil => Nat.ne_of_lt hlt ((unread_eq_nil hb).mp hnil)) hlen
    · rw [unread_empty hempty, List.nil_append] at hs ⊢
      rw [bufRead_empty hempty]
      refine .call (h.pre hst hs hb.maxLen_pos) fun r w' hstep => ?_
      obtain ⟨c, t', rfl, hc, hfits, rfl, hst'⟩ := h.chunk hst hs hstep
      have hview : view St (b.filledWith c) w' (c ++ t') :=
        ⟨filledWith_wf hb hfits, t', by rw [unread_filledWith], hst'⟩
      exact take_ok hview (by rwa [unread_filledWith]) hlen

theorem streams (h : Feeds E St) : Streams CSIRead.read E (view St) := streams_on h.feedsOn

/-- At the end of the pipe a read of an empty buffer fails. -/
theorem streamsThenFails {F : W → Prop} (h : FeedsThenFails E St F) :
    StreamsThenFails CSIRead.read E (view St) F where
  toStreams := streams h.toFeeds
  fail := by
    rintro b w len ⟨hb, t, ht, hst⟩ hlen
    obtain ⟨hnil, rfl⟩ := List.append_eq_nil_iff.mp ht.symm
    show Always E _ (bufRead len b) w
    rw [bufRead_empty ((unread_eq_nil hb).mp hnil)]
    refine .call (h.pre hst hb.maxLen_pos) fun r w' hs => ?_
    obtain ⟨⟨e, rfl⟩, hF⟩ := h.fail hst hs
    exact .ret hF

end

/-! ## Writing -/

def bufFlush : Method (CsiRes X Y) Code CSIBuffer Unit := do
  let b ← Method.get
  let written ← Method.lift (csiWritePipe (load b.buf 0 b.filledLen))
  let writtenLen ← Method.ofExcept written
  if writtenLen ≠ b.filledLen then Method.throw CSIErrorCode.internal.toCode
  else Method.set { b with pos := 0, filledLen := 0 }

/-- The second part of `buf_write`. A write that is too large for the buffer goes
straight to the pipe, whose count is dropped. -/
def put (bs : Bytes) : Method (CsiRes X Y) Code CSIBuffer Nat := do
  let b ← Method.get
  if bs.length > b.maxLen then
    let written ← Method.lift (csiWritePipe bs)
    let _ ← Method.ofExcept written
    return bs.length
  else
    Method.set { b with buf := store b.buf b.filledLen bs, filledLen := b.filledLen + bs.length }
    return bs.length

def bufWrite (bs : Bytes) : Method (CsiRes X Y) Code CSIBuffer Nat := do
  let b ← Method.get
  if b.filledLen + bs.length > b.maxLen then bufFlush
  put bs

instance : CSIWrite CSIBuffer where
  write := bufWrite
  flush := bufFlush

/-- The bytes that are buffered and not passed on. -/
def filled (b : CSIBuffer) : Bytes := load b.buf 0 b.filledLen

theorem filled_empty {b : CSIBuffer} (h : b.filledLen = 0) : b.filled = [] := by
  rw [filled, h, load]

section

variable {E : Env (CsiRes X Y) W} {St : W → Bytes → Prop} {b : CSIBuffer} {w : W} {o : Bytes}

theorem csiWritePipe_full (h : Takes E St) (hst : St w o) (bs : Bytes) :
    Always E (returns fun r w' => r = .ok bs.length ∧ St w' (o ++ bs)) (csiWritePipe bs) w := by
  by_cases hbs : bs = []
  · rw [csiWritePipe, if_pos hbs]
    exact .ret ⟨by rw [hbs]; rfl, by rwa [hbs, List.append_nil]⟩
  · rw [csiWritePipe, if_neg hbs]
    refine .call (h.pre hst bs) fun r w' hs => ?_
    obtain ⟨rfl, hst'⟩ := h.write hst hs
    exact .ret ⟨rfl, hst'⟩

theorem bufFlush_full (h : Takes E St) (hst : St w o) :
    Always E (succeeds fun _ b' w' => b' = { b with pos := 0, filledLen := 0 } ∧
      St w' (o ++ b.filled)) (bufFlush b) w := by
  rw [bufFlush, get_seq]
  apply always_seq_ok (always_lift_ok (csiWritePipe_full h hst (load b.buf 0 b.filledLen)))
  rintro _ _ w' ⟨⟨rfl, hst'⟩, rfl⟩
  rw [ofExcept_ok_seq, length_load]
  simp only [ne_eq, not_true_eq_false, ↓reduceIte]
  exact .ret ⟨rfl, hst'⟩

/-- What a write into the buffer `b` does, when `o` has been passed on. -/
def Written (St : W → Bytes → Prop) (b : CSIBuffer) (o bs : Bytes) (b' : CSIBuffer) (w' : W) :
    Prop :=
  b'.filledLen ≤ b'.maxLen ∧ ∃ o', St w' o' ∧ o' ++ b'.filled = o ++ b.filled ++ bs

theorem put_full (h : Takes E St) (hst : St w o) {bs : Bytes} (hb : b.filledLen ≤ b.maxLen)
    (hfit : b.filledLen = 0 ∨ b.filledLen + bs.length ≤ b.maxLen) :
    Always E (succeeds fun n b' w' => n = bs.length ∧ Written St b o bs b' w') (put bs b) w := by
  rw [put, get_seq]
  by_cases hlarge : bs.length > b.maxLen
  · rw [if_pos hlarge]
    have hempty : b.filledLen = 0 := by omega
    have hnil := filled_empty hempty
    apply always_seq_ok (always_lift_ok (csiWritePipe_full h hst bs))
    rintro _ _ w' ⟨⟨rfl, hst'⟩, rfl⟩
    rw [ofExcept_ok_seq]
    exact .ret ⟨rfl, hb, _, hst', by simp [hnil]⟩
  · rw [if_neg hlarge]
    have hstore : load (store b.buf b.filledLen bs) 0 (b.filledLen + bs.length) =
        b.filled ++ bs := by
      have happend := load_store_append b.buf 0 b.filledLen bs
      rwa [Nat.zero_add] at happend
    refine .ret ⟨rfl, ?_, o, hst, ?_⟩
    · show b.filledLen + bs.length ≤ b.maxLen
      omega
    · rw [filled, hstore, List.append_assoc]

/-- A write passes the bytes on or keeps them, behind those that were kept. -/
theorem bufWrite_full (h : Takes E St) (hst : St w o) (hb : b.filledLen ≤ b.maxLen) (bs : Bytes) :
    Always E (succeeds fun n b' w' => n = bs.length ∧ Written St b o bs b' w')
      (bufWrite bs b) w := by
  rw [bufWrite, get_seq]
  by_cases hfit : b.filledLen + bs.length > b.maxLen
  · rw [if_pos hfit]
    apply always_seq_ok (bufFlush_full h hst)
    rintro _ _ w₁ ⟨rfl, hst₁⟩
    refine (put_full h hst₁ (Nat.zero_le _) (.inl rfl)).mono (succeeds_mono ?_)
    rintro _ b' w' ⟨rfl, hle, o', hst', hout⟩
    exact ⟨rfl, hle, o', hst', by rw [hout]; simp [filled, load]⟩
  · rw [if_neg hfit]
    exact put_full h hst hb (.inr (by omega))

end

end CSIBuffer

end CkbScriptIpc
