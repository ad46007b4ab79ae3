import CkbScriptIpc.Csi.Allocator
import CkbScriptIpc.Csi.Reader
import CkbScriptIpc.Csi.Server

/-!
# The C library: I/O buffers in their blocks

A `CSIBuffer` with its fields and its data at their addresses in one memory, in which
`new_buffer` sets buffers up and `buf_read`, `buf_write` and `buf_flush` work on them.

* `mount_unmount`: the fields of a buffer are read as they were written;
* `callAt_local`: a call on a buffer that fits its block touches only that block;
* `iobuf_confined_iff`: all buffers fit exactly when a block has room for a `CSIBuffer`.
-/

namespace CkbScriptIpc

open Interaction

variable {X Y W α : Type}

/-! ## Buffers in memory -/

/-- The `k` low bytes of `n`, the lowest first. -/
def leBytes : Nat → Nat → Bytes
  | 0, _ => []
  | k + 1, n => UInt8.ofNat n :: leBytes k (n / 256)

def leValue : Bytes → Nat
  | [] => 0
  | b :: bs => b.toNat + 256 * leValue bs

@[simp] theorem length_leBytes (k n : Nat) : (leBytes k n).length = k := by
  induction k generalizing n with
  | zero => rfl
  | succ k ih => rw [leBytes, List.length_cons, ih]

theorem leValue_leBytes (k n : Nat) : leValue (leBytes k n) = n % 256 ^ k := by
  induction k generalizing n with
  | zero => rw [leBytes, leValue, Nat.pow_zero, Nat.mod_one]
  | succ k ih =>
    have hpow : 256 ^ (k + 1) = 256 * 256 ^ k := Nat.pow_succ'
    rw [leBytes, leValue, ih, UInt8.toNat_ofNat', hpow, Nat.mod_mul]

/-- The `size_t` at `p`. -/
def loadWord (m : Memory) (p : Nat) : Nat := leValue (load m p 8)

namespace CSIBuffer

/-- The fields behind `rw`: `pos`, `filled_len` and `max_len`. -/
def fields (b : CSIBuffer) : Bytes := leBytes 8 b.pos ++ leBytes 8 b.filledLen ++ leBytes 8 b.maxLen

/-- The buffer at `p`. Its data lie behind its fields. -/
def mount (p : Nat) (m : Memory) : CSIBuffer where
  pos := loadWord m (p + 24)
  filledLen := loadWord m (p + 32)
  maxLen := loadWord m (p + 40)
  buf i := m (p + sizeofCSIBuffer + i)

/-- The memory in which the buffer at `p` has become `b`. -/
def unmount (p : Nat) (b : CSIBuffer) (m : Memory) : Memory := fun a =>
  if p + sizeofCSIBuffer ≤ a then b.buf (a - (p + sizeofCSIBuffer))
  else store m (p + 24) b.fields a

/-- `pos <= filled_len <= max_len`, and `max_len` is `n`. -/
structure Sized (n : Nat) (b : CSIBuffer) : Prop extends Bounded b where
  maxLen : b.maxLen = n

section

variable {p n : Nat} {b : CSIBuffer} {m m' : Memory}

theorem length_fields (b : CSIBuffer) : b.fields.length = 24 := by simp [fields]

theorem load_fields (p : Nat) (b : CSIBuffer) (m : Memory) :
    load (unmount p b m) (p + 24) 24 = b.fields := by
  have hstore := load_store m (p + 24) b.fields
  rw [length_fields] at hstore
  rw [← hstore]
  refine load_congr fun a _ hlt => ?_
  have hheader : ¬ p + sizeofCSIBuffer ≤ a := by
    rw [sizeofCSIBuffer]
    omega
  rw [unmount, if_neg hheader]

theorem load_words {p : Nat} {w₀ w₁ w₂ : Bytes} (h₀ : w₀.length = 8) (h₁ : w₁.length = 8)
    (h : load m p 24 = w₀ ++ w₁ ++ w₂) :
    load m p 8 = w₀ ∧ load m (p + 8) 8 = w₁ ∧ load m (p + 16) 8 = w₂ := by
  rw [show 24 = 8 + (8 + 8) from rfl, load_add, load_add, List.append_assoc] at h
  obtain ⟨hfirst, hrest⟩ := List.append_inj h ((length_load _ _ _).trans h₀.symm)
  obtain ⟨hsecond, hthird⟩ := List.append_inj hrest ((length_load _ _ _).trans h₁.symm)
  exact ⟨hfirst, hsecond, hthird⟩

/-- A buffer is found as it was put. -/
theorem mount_unmount (hb : b.Bounded) (hmax : b.maxLen < 2 ^ 64) :
    mount p (unmount p b m) = b := by
  have hfilled := hb.filledLen_le
  have hpos := hb.pos_le
  obtain ⟨hw₀, hw₁, hw₂⟩ := load_words (length_leBytes _ _) (length_leBytes _ _)
    (load_fields p b m)
  have hword : ∀ {k}, k < 2 ^ 64 → leValue (leBytes 8 k) = k := fun hk => by
    rw [leValue_leBytes]
    exact Nat.mod_eq_of_lt hk
  have hbuf : ∀ i, unmount p b m (p + sizeofCSIBuffer + i) = b.buf i := fun i => by
    rw [unmount, if_pos (Nat.le_add_right _ _), Nat.add_sub_cancel_left]
  simp only [mount, loadWord, hw₀, hw₁, hw₂, hbuf, hword hmax,
    hword (Nat.lt_of_le_of_lt hfilled hmax),
    hword (Nat.lt_of_le_of_lt (Nat.le_trans hpos hfilled) hmax)]

/-- Outside its block a buffer leaves the memory as it is. -/
theorem mount_congr (h : ∀ a, p ≤ a → a < p + sizeofCSIBuffer → m' a = m a) :
    (mount p m').pos = (mount p m).pos ∧ (mount p m').filledLen = (mount p m).filledLen ∧
      (mount p m').maxLen = (mount p m).maxLen := by
  have hword : ∀ k, k + 8 ≤ sizeofCSIBuffer → loadWord m' (p + k) = loadWord m (p + k) := by
    intro k hk
    rw [loadWord, loadWord, load_congr fun a hle hlt => h a (by omega) (by omega)]
  exact ⟨hword 24 (by decide), hword 32 (by decide), hword 40 (by decide)⟩

theorem Sized.congr (hb : Sized n (mount p m))
    (h : ∀ a, p ≤ a → a < p + sizeofCSIBuffer → m' a = m a) : Sized n (mount p m') := by
  obtain ⟨hpos, hfilled, hmax⟩ := mount_congr h
  exact ⟨⟨by rw [hpos, hfilled]; exact hb.pos_le, by rw [hfilled, hmax]; exact hb.filledLen_le⟩,
    hmax.trans hb.maxLen⟩

end

/-! ## Calls on a buffer -/

/-- A buffer whose data from the `k`-th byte on are those of `t`. -/
def withTail (k : Nat) (t : Memory) (b : CSIBuffer) : CSIBuffer :=
  { b with buf := fun i => if i < k then b.buf i else t i }

section

variable {k n : Nat} {t : Memory} {b : CSIBuffer}

theorem load_withTail {q len : Nat} (h : q + len ≤ k) :
    load (b.withTail k t).buf q len = load b.buf q len := by
  refine load_congr fun a _ hlt => ?_
  have ha : a < k := by omega
  show (if a < k then b.buf a else t a) = b.buf a
  rw [if_pos ha]

theorem store_withTail {q : Nat} {bs : Bytes} (h : q + bs.length ≤ k) :
    store (b.withTail k t).buf q bs =
      fun i => if i < k then store b.buf q bs i else t i := by
  funext i
  by_cases hi : i < k
  · simp only [hi, ↓reduceIte, store, withTail]
  · rw [store_outside _ _ (.inr (by omega)), if_neg hi]
    show (if i < k then b.buf i else t i) = t i
    rw [if_neg hi]

theorem advance_sized (hb : Sized n b) (len : Nat) : Sized n (b.advance len) :=
  ⟨advance_bounded hb.toBounded len, hb.maxLen⟩

theorem unread_withTail (hb : Sized n b) (hk : n ≤ k) : (b.withTail k t).unread = b.unread := by
  have hpos := hb.pos_le
  have hfilled := hb.filledLen_le
  have hmax := hb.maxLen
  have hle : b.pos + (b.filledLen - b.pos) ≤ k := by omega
  exact load_withTail hle

theorem filled_withTail (hb : Sized n b) (hk : n ≤ k) : (b.withTail k t).filled = b.filled := by
  have hfilled := hb.filledLen_le
  have hmax := hb.maxLen
  have hle : 0 + b.filledLen ≤ k := by omega
  exact load_withTail hle

/-- The two buffers do the same, and end in `Q`. -/
abbrev AgreeWith (k : Nat) (t : Memory) (Q : Except Code α → CSIBuffer → Prop) :
    Prog (CsiRes X Y) (Except Code α × CSIBuffer) →
    Prog (CsiRes X Y) (Except Code α × CSIBuffer) → Prop :=
  Mirrors (withTail k t) Q

/-- The two buffers do the same, and stay within their bounds. -/
abbrev Agree (k : Nat) (t : Memory) (n : Nat) :
    Prog (CsiRes X Y) (Except Code α × CSIBuffer) →
    Prog (CsiRes X Y) (Except Code α × CSIBuffer) → Prop :=
  AgreeWith k t fun _ => Sized n

theorem agree_ret (hb : Sized n b) (r : Except Code α) :
    Agree (X := X) (Y := Y) k t n (.ret (r, b.withTail k t)) (.ret (r, b)) :=
  .ret hb

theorem take_agree (hb : Sized n b) (hk : n ≤ k) (hlt : b.pos < b.filledLen) (len : Nat) :
    Agree (X := X) (Y := Y) k t n (take len (b.withTail k t)) (take len b) := by
  rw [take_eq hlt hb.filledLen_le, take_eq (b := b.withTail k t) hlt hb.filledLen_le,
    unread_withTail hb hk]
  exact agree_ret (advance_sized hb len) _

theorem bufRead_agree (hb : Sized n b) (hk : n ≤ k) (len : Nat) :
    Agree (X := X) (Y := Y) k t n (bufRead len (b.withTail k t)) (bufRead len b) := by
  rcases Nat.lt_or_eq_of_le hb.pos_le with hlt | hempty
  · have htail : (b.withTail k t).pos ≠ (b.withTail k t).filledLen := Nat.ne_of_lt hlt
    rw [bufRead, get_seq, get_seq, if_neg (Nat.ne_of_lt hlt), if_neg htail]
    exact take_agree hb hk hlt len
  · rw [bufRead_empty hempty, bufRead_empty (b := b.withTail k t) hempty]
    refine .call fun r => ?_
    rcases r with e | c
    · have hsized : Sized n { b with filledLen := b.maxLen } :=
        ⟨⟨Nat.le_trans hb.pos_le hb.filledLen_le, Nat.le_refl _⟩, hb.maxLen⟩
      exact agree_ret hsized _
    · show Agree k t n (take len ((b.withTail k t).filledWith c)) (take len (b.filledWith c))
      by_cases hfits : 0 < c.length ∧ c.length ≤ b.maxLen
      · have hsized : Sized n (b.filledWith c) := ⟨filledWith_bounded hfits.2, hb.maxLen⟩
        have hmax := hb.maxLen
        have hfilled : (b.withTail k t).filledWith c = (b.filledWith c).withTail k t := by
          rw [filledWith, store_withTail (by omega)]
          rfl
        rw [hfilled]
        exact take_agree hsized hk hfits.1 len
      · have hbad : ∀ b' : CSIBuffer, b'.maxLen = b.maxLen →
            (b'.filledWith c).filledLen ≤ (b'.filledWith c).pos ∨
              (b'.filledWith c).maxLen < (b'.filledWith c).filledLen := fun b' hb' => by
          show c.length ≤ 0 ∨ b'.maxLen < c.length
          omega
        rw [take_panic (hbad b rfl), take_panic (hbad (b.withTail k t) rfl)]
        exact .panic

/-- A buffer whose bytes have been passed on. -/
def emptied (b : CSIBuffer) : CSIBuffer := { b with pos := 0, filledLen := 0 }

theorem emptied_sized (hb : Sized n b) : Sized n b.emptied :=
  ⟨⟨Nat.le_refl _, Nat.zero_le _⟩, hb.maxLen⟩

theorem csiWritePipe_agree (b : CSIBuffer) (bs : Bytes) :
    AgreeWith (X := X) (Y := Y) k t (fun _ b' => b' = b)
      (Method.lift (csiWritePipe bs) (b.withTail k t)) (Method.lift (csiWritePipe bs) b) := by
  by_cases hbs : bs = []
  · rw [csiWritePipe, if_pos hbs]
    exact .ret (r := .ok (Except.ok 0)) rfl
  · rw [csiWritePipe, if_neg hbs]
    exact .call fun r => .ret (r := .ok r) rfl

/-- A flush that succeeds leaves nothing in the buffer. -/
theorem bufFlush_empties (hb : Sized n b) (hk : n ≤ k) :
    AgreeWith (X := X) (Y := Y) k t
      (fun r b' => Sized n b' ∧ (r = .ok () → b'.filledLen = 0))
      (bufFlush (b.withTail k t)) (bufFlush b) := by
  have hfilled : load (b.withTail k t).buf 0 (b.withTail k t).filledLen =
      load b.buf 0 b.filledLen := filled_withTail hb hk
  rw [bufFlush, get_seq, get_seq, hfilled]
  refine (csiWritePipe_agree b _).seq (fun written b' hb' => ?_) (fun e b' hb' => ?_)
  swap
  · subst hb'
    exact ⟨hb, by rintro ⟨⟩⟩
  subst hb'
  rcases written with e | writtenLen
  · exact .ret ⟨hb, by rintro ⟨⟩⟩
  · rw [ofExcept_ok_seq, ofExcept_ok_seq]
    by_cases hshort : writtenLen ≠ b'.filledLen
    · rw [if_pos hshort, if_pos (show writtenLen ≠ (b'.withTail k t).filledLen from hshort)]
      exact .ret ⟨hb, by rintro ⟨⟩⟩
    · rw [if_neg hshort, if_neg (show ¬ writtenLen ≠ (b'.withTail k t).filledLen from hshort)]
      exact .ret (s := b'.emptied) ⟨emptied_sized hb, fun _ => rfl⟩

theorem put_agree (hb : Sized n b) (hk : n ≤ k) {bs : Bytes}
    (hfit : b.filledLen = 0 ∨ b.filledLen + bs.length ≤ b.maxLen) :
    Agree (X := X) (Y := Y) k t n (put bs (b.withTail k t)) (put bs b) := by
  have hmax := hb.maxLen
  rw [put, get_seq, get_seq]
  by_cases hlarge : bs.length > b.maxLen
  · rw [if_pos hlarge, if_pos (show bs.length > (b.withTail k t).maxLen from hlarge)]
    refine (csiWritePipe_agree b _).seq (fun written b' hb' => ?_) (by rintro e b' rfl; exact hb)
    subst hb'
    rcases written with e | writtenLen
    · exact .ret hb
    · exact .ret hb
  · rw [if_neg hlarge, if_neg (show ¬ bs.length > (b.withTail k t).maxLen from hlarge)]
    have hroom : b.filledLen + bs.length ≤ b.maxLen := by omega
    have hsized : Sized n { b with
        buf := store b.buf b.filledLen bs
        filledLen := b.filledLen + bs.length } :=
      ⟨⟨Nat.le_trans hb.pos_le (Nat.le_add_right _ _), hroom⟩, hb.maxLen⟩
    have hle : b.filledLen + bs.length ≤ k := by omega
    have hstore := store_withTail (b := b) (t := t) hle
    rw [set_seq, set_seq, show (b.withTail k t).filledLen = b.filledLen from rfl, hstore]
    exact agree_ret hsized (.ok bs.length)

theorem bufWrite_agree (hb : Sized n b) (hk : n ≤ k) (bs : Bytes) :
    Agree (X := X) (Y := Y) k t n (bufWrite bs (b.withTail k t)) (bufWrite bs b) := by
  rw [bufWrite, get_seq, get_seq]
  by_cases hfit : b.filledLen + bs.length > b.maxLen
  · rw [if_pos hfit, if_pos (show (b.withTail k t).filledLen + bs.length >
      (b.withTail k t).maxLen from hfit)]
    refine (bufFlush_empties hb hk).seq (fun _ b' hb' => ?_) fun e b' hb' => hb'.1
    exact put_agree hb'.1 hk (.inl (hb'.2 rfl))
  · rw [if_neg hfit, if_neg (show ¬ (b.withTail k t).filledLen + bs.length >
      (b.withTail k t).maxLen from hfit)]
    exact put_agree hb hk (.inr (by omega))

/-- The bytes `bs` come behind those that are in the buffer. -/
def taking (b : CSIBuffer) (bs : Bytes) : CSIBuffer :=
  { b with buf := store b.buf b.filledLen bs, filledLen := b.filledLen + bs.length }

/-- As long as there is room nothing is sent. -/
theorem bufWrite_taking {bs : Bytes} (hfit : b.filledLen + bs.length ≤ b.maxLen) :
    bufWrite (X := X) (Y := Y) bs b = .ret (.ok bs.length, b.taking bs) := by
  have hroom : ¬ bs.length > b.maxLen := by omega
  rw [bufWrite, get_seq, if_neg (Nat.not_lt.mpr hfit)]
  show put bs b = _
  rw [put, get_seq, if_neg hroom, set_seq]
  rfl

end

/-- A call of the buffer layer. -/
inductive BufferCall where
  | read (len : Nat)
  | write (bs : Bytes)
  | flush

/-- The bytes and the count that it gives. -/
def BufferCall.run : BufferCall → Method (CsiRes X Y) Code CSIBuffer (Bytes × Nat)
  | .read len => do
    let bs ← bufRead len
    return (bs, bs.length)
  | .write bs => do
    let writtenLen ← bufWrite bs
    return ([], writtenLen)
  | .flush => do
    bufFlush
    return ([], 0)

theorem call_agree {k n : Nat} {t : Memory} {b : CSIBuffer} (hb : Sized n b) (hk : n ≤ k)
    (c : BufferCall) : Agree (X := X) (Y := Y) k t n (c.run (b.withTail k t)) (c.run b) := by
  cases c with
  | read len => exact (bufRead_agree hb hk len).seq (fun _ _ h => .ret h) fun _ _ h => h
  | write bs => exact (bufWrite_agree hb hk bs).seq (fun _ _ h => .ret h) fun _ _ h => h
  | flush => exact (bufFlush_empties hb hk).seq (fun _ _ h => .ret h.1) fun _ _ h => h.1

/-! ## Calls in memory -/

/-- A memory of which only the `n` bytes at `p` are left. -/
def restrict (p n : Nat) (m : Memory) : Memory := fun a => if p ≤ a ∧ a < p + n then m a else 0

/-- `m` with the `n` bytes at `p` as they are in `m'`. -/
def overwrite (p n : Nat) (m' m : Memory) : Memory := fun a =>
  if p ≤ a ∧ a < p + n then m' a else m a

/-- From `m` the method touches only the `n` bytes at `p`: without the others it does the same,
and it leaves the others as they are. -/
def LocalTo (p n : Nat) (x : Method (CsiRes X Y) Code Memory α) (m : Memory) : Prop :=
  x m = (x (restrict p n m)).map fun r => (r.1, overwrite p n r.2 m)

/-- A call on the buffer at `p`. -/
def callAt (p : Nat) (c : BufferCall) : Method (CsiRes X Y) Code Memory (Bytes × Nat) :=
  Method.zoom (mount p) (unmount p) c.run

section

variable {p n : Nat} {m m' : Memory} {b : CSIBuffer}

theorem restrict_inside {a : Nat} (h : p ≤ a ∧ a < p + n) : restrict p n m a = m a := if_pos h

/-- With its block the fields and the data of a buffer are left, up to where the block ends. -/
theorem mount_restrict (hn : sizeofCSIBuffer ≤ n) :
    mount p m = (mount p (restrict p n m)).withTail (n - sizeofCSIBuffer)
      fun i => m (p + sizeofCSIBuffer + i) := by
  have hheader : ∀ a, p ≤ a → a < p + sizeofCSIBuffer → restrict p n m a = m a :=
    fun a hle hlt => restrict_inside ⟨hle, by omega⟩
  obtain ⟨hpos, hfilled, hmax⟩ := mount_congr hheader
  have hbuf : (fun i => m (p + sizeofCSIBuffer + i)) = fun i => if i < n - sizeofCSIBuffer then
      restrict p n m (p + sizeofCSIBuffer + i) else m (p + sizeofCSIBuffer + i) := by
    funext i
    split
    · exact (restrict_inside (by omega)).symm
    · rfl
  show CSIBuffer.mk (mount p m).pos (mount p m).filledLen (mount p m).maxLen _ = _
  rw [← hpos, ← hfilled, ← hmax]
  exact congrArg (CSIBuffer.mk _ _ _) hbuf

theorem unmount_restrict (hn : sizeofCSIBuffer ≤ n) :
    unmount p (b.withTail (n - sizeofCSIBuffer) fun i => m (p + sizeofCSIBuffer + i)) m =
      overwrite p n (unmount p b (restrict p n m)) m := by
  funext a
  rw [overwrite, unmount, unmount]
  by_cases hdata : p + sizeofCSIBuffer ≤ a
  · rw [if_pos hdata, if_pos hdata]
    show (if a - (p + sizeofCSIBuffer) < n - sizeofCSIBuffer then _
      else m (p + sizeofCSIBuffer + (a - (p + sizeofCSIBuffer)))) = _
    by_cases hin : p ≤ a ∧ a < p + n
    · rw [if_pos hin, if_pos (by omega)]
    · rw [if_neg hin, if_neg (by omega), Nat.add_sub_cancel' hdata]
  · rw [if_neg hdata, if_neg hdata]
    show store m (p + 24) b.fields a = _
    by_cases hin : p ≤ a ∧ a < p + n
    · rw [if_pos hin, store, store, restrict_inside hin]
    · rw [if_neg hin, store_outside _ _ (.inl (by omega))]

/-- A call on a buffer that fits its block touches only that block. -/
theorem callAt_local (c : BufferCall) (hb : Sized (n - sizeofCSIBuffer) (mount p m))
    (hn : sizeofCSIBuffer ≤ n) : LocalTo (X := X) (Y := Y) p n (callAt p c) m := by
  have hsized : Sized (n - sizeofCSIBuffer) (mount p (restrict p n m)) :=
    hb.congr fun a hle hlt => restrict_inside ⟨hle, by omega⟩
  have hagree := (call_agree (X := X) (Y := Y) hsized (Nat.le_refl _) c
    (t := fun i => m (p + sizeofCSIBuffer + i))).eq_map
  rw [← mount_restrict hn] at hagree
  show (c.run (mount p m)).map _ = ((c.run (mount p (restrict p n m))).map _).map _
  rw [hagree]
  simp only [Prog.map, Prog.bind_assoc, Prog.bind]
  congr 1
  funext r
  rw [unmount_restrict hn]

/-- What is local to a block leaves the bytes outside as they are. -/
theorem LocalTo.frame {E : Env (CsiRes X Y) W} {x : Method (CsiRes X Y) Code Memory α}
    (h : LocalTo p n x m) (w : W) :
    Safely E (fun _ => True) (fun o _ => ∀ r m', o = .ret (r, m') →
      ∀ a, ¬ (p ≤ a ∧ a < p + n) → m' a = m a) (x m) w := by
  rw [h]
  refine safely_map ((safely_any x _ w).mono (fun _ hi => hi) ?_)
  rintro (⟨r, m₁⟩ | _) v - -
  · rintro _ _ ⟨⟩ a ha
    exact if_neg ha
  · rintro _ _ ⟨⟩

/-- A call leaves a buffer within its bounds. -/
theorem callAt_sized {E : Env (CsiRes X Y) W} (c : BufferCall) (hb : Sized n (mount p m))
    (hn : n < 2 ^ 64) (w : W) :
    Safely E (fun _ => True) (fun o _ => ∀ r m', o = .ret (r, m') → Sized n (mount p m'))
      (callAt p c m) w := by
  have hsized := (call_agree (X := X) (Y := Y) hb (Nat.le_refl n) c (t := fun _ => 0)).safely w
    (E := E)
  refine safely_map (hsized.mono (fun _ hi => hi) ?_)
  rintro (⟨r, b⟩ | _) v - ho
  · rintro _ _ ⟨⟩
    have hb' := ho r b rfl
    rw [mount_unmount hb'.toBounded (hb'.maxLen ▸ hn)]
    exact hb'
  · rintro _ _ ⟨⟩

end

end CSIBuffer

/-! ## Channels that come and go in one memory -/

open CSIBuffer

/-- The library, with the addresses of the buffers that were set up and not freed. -/
structure Arena where
  process : CSIProcess
  live : List Nat

namespace Arena

def heap (s : Arena) : Heap FixedAllocator := ⟨s.process.iobuf, s.live⟩

/-- Where `new_buffer` sets up the next buffer. -/
def next (s : Arena) : Nat := (s.process.iobuf.malloc s.process.iobuf.blockSize).1

/-- A pipe of which nothing is known but that a read gives at most what it is asked for. -/
def anyPipe : Env (CsiRes Unit Unit) Unit where
  pre _ _ := True
  step
    | _, .read n, r, _ => ∀ c, r = .ok c → c.length ≤ n
    | _, _, _, _ => True

/-- A buffer is set up, with `rw` in front; it is called, or freed; or something outside of the
I/O blocks changes. -/
inductive Step : Arena → Arena → Prop
  | opens {s : Arena} {b : CSIBuffer} {process : CSIProcess} {rw : Bytes} : rw.length ≤ 24 →
      newBuffer s.process = (.ret (.ok b, process) : Prog (CsiRes Unit Unit) _) →
      Step s ⟨{ process with memory := unmount s.next b (store process.memory s.next rw) },
        s.next :: s.live⟩
  | calls {s : Arena} {p : Nat} {c : BufferCall} {r : Except Code (Bytes × Nat)} {m : Memory} :
      p ∈ s.live → Ends anyPipe (callAt p c s.process.memory) () (.ret (r, m)) () →
      Step s ⟨{ s.process with memory := m }, s.live⟩
  | frees {s : Arena} {p : Nat} {a : FixedAllocator} : p ∈ s.live →
      s.process.iobuf.free p = some a → Step s ⟨{ s.process with iobuf := a }, s.live.erase p⟩
  | elsewhere {s : Arena} {m : Memory} :
      (∀ x, s.process.iobuf.buf ≤ x → x < s.process.iobuf.buf + s.process.iobuf.len.toNat →
        m x = s.process.memory x) → Step s ⟨{ s.process with memory := m }, s.live⟩

abbrev Reach : Arena → Arena → Prop := Relation.ReflTransGen Step

/-- Buffers fit in their blocks: a new one and those in use, and a call on one touches only
its block. -/
structure Confined (s : Arena) : Prop where
  opens : ∀ b process, newBuffer s.process = (.ret (.ok b, process) : Prog (CsiRes Unit Unit) _) →
    sizeofCSIBuffer + b.maxLen ≤ s.process.iobuf.blockSize
  fits : ∀ p ∈ s.live,
    sizeofCSIBuffer + (mount p s.process.memory).maxLen ≤ s.process.iobuf.blockSize
  touches : ∀ p ∈ s.live, ∀ c, LocalTo (X := Unit) (Y := Unit) p s.process.iobuf.blockSize
    (callAt p c) s.process.memory

section

variable {s s' : Arena} {a : FixedAllocator} {buf : Nat} {len blockCount : UInt64}

/-- A block without room for a `CSIBuffer` gives a `max_len` that is far too large. -/
theorem newMaxLen_fits_iff {blockSize : Nat} (h : blockSize < 2 ^ 64) :
    sizeofCSIBuffer + newMaxLen blockSize ≤ blockSize ↔ sizeofCSIBuffer ≤ blockSize := by
  constructor
  · exact fun hfits => Nat.le_trans (Nat.le_add_right _ _) hfits
  · intro hroom
    rw [newMaxLen_eq h hroom]
    exact Nat.le_of_eq (Nat.add_sub_cancel' hroom)

/-- A history of buffers is one of `malloc` and `free`. -/
theorem Step.heap (h : Step s s') :
    s'.heap = s.heap ∨ Heap.Step (fun _ => True) s.heap s'.heap := by
  cases h with
  | opens hrw hnew =>
    obtain ⟨hne, rfl, rfl⟩ := newBuffer_inv hnew
    have hstep :=
      @Heap.Step.malloc _ _ (fun _ => True) s.heap s.process.iobuf.blockSize trivial
    have hne' : (PayloadAllocator.malloc s.process.iobuf.blockSize s.heap.allocator).1 ≠ 0 := hne
    rw [if_neg hne'] at hstep
    exact .inr hstep
  | calls hp hcall => exact .inl rfl
  | frees hp hfree => exact .inr (.free hp hfree)
  | elsewhere hm => exact .inl rfl

/-- What every history keeps: the buffers in use are within their bounds. -/
structure Inv (a : FixedAllocator) (s : Arena) : Prop where
  reach : Heap.Reach (fun _ => True) ⟨a, []⟩ s.heap
  sized : ∀ p ∈ s.live, Sized (a.blockSize - sizeofCSIBuffer) (mount p s.process.memory)

/-- Where the blocks of a history lie. -/
structure Laid (a : FixedAllocator) (s : Arena) : Prop where
  blockSize : s.process.iobuf.blockSize = a.blockSize
  nodup : s.live.Nodup
  apart : ∀ p ∈ s.live, ∀ q ∈ s.live, p ≠ q → Apart a.blockSize p q
  inside : ∀ p ∈ s.live, s.process.iobuf.buf ≤ p ∧
    p + a.blockSize ≤ s.process.iobuf.buf + s.process.iobuf.len.toNat

theorem laid_of_reach (hlen : 1024 ≤ len) (hinit : fixedAllocatorInit buf len blockCount = .ok a)
    (hr : Heap.Reach (fun _ => True) ⟨a, []⟩ s.heap) : Laid a s := by
  obtain ⟨-, hsize, hinside⟩ := blockSize_of_init hlen hinit
  obtain ⟨slots, hsame, hh⟩ := reach_slots hlen hinit hr
  obtain ⟨rfl, -, -⟩ := fixedAllocatorInit_ok hlen hinit
  have hblock : s.process.iobuf.blockSize = _ := hsame.blockSize
  have hlive : s.live = slots.map s.process.iobuf.block := hh.live
  refine ⟨hblock, ?_, ?_, ?_⟩
  · rw [hlive]
    exact List.pairwise_map.mpr (hh.nodup.imp fun hne heq =>
      hne (FixedAllocator.block_inj (hblock ▸ hsize) heq))
  · intro p hp q hq hne
    rw [hlive] at hp hq
    obtain ⟨i, -, rfl⟩ := List.mem_map.mp hp
    obtain ⟨j, -, rfl⟩ := List.mem_map.mp hq
    rw [← hblock]
    exact apart_block fun hij => hne (hij ▸ rfl)
  · intro p hp
    rw [hlive] at hp
    obtain ⟨i, hi, rfl⟩ := List.mem_map.mp hp
    obtain ⟨-, hcount, -⟩ := hh.used i hi
    rw [hsame.blockCount] at hcount
    have hcount' : i < blockCount.toNat := hcount
    have hlen' : s.process.iobuf.len = len := hsame.len
    have hle := Nat.mul_le_mul_left (FixedAllocator.blockSize ⟨0, blockCount, len, buf⟩) hcount'
    rw [Nat.mul_succ] at hle
    rw [FixedAllocator.block, hblock, hlen']
    omega

/-- A block that lies apart from the one that is touched keeps its bytes. -/
theorem outside_of_apart {n p q x : Nat} (hpq : Apart n p q) (hn : sizeofCSIBuffer ≤ n)
    (hle : q ≤ x) (hlt : x < q + sizeofCSIBuffer) : ¬ (p ≤ x ∧ x < p + n) := by
  rcases hpq with hpq | hpq <;> omega

/-- A buffer that is set up writes only its fields. -/
theorem unmount_fresh {p x : Nat} {b : CSIBuffer} {m : Memory} {bs : Bytes}
    (hbuf : ∀ i, b.buf i = m (p + sizeofCSIBuffer + i)) (hx : ¬ (p ≤ x ∧ x < p + sizeofCSIBuffer)) :
    unmount p b (store m p bs) x = m x := by
  rw [unmount]
  by_cases hdata : p + sizeofCSIBuffer ≤ x
  · rw [if_pos hdata, hbuf, Nat.add_sub_cancel' hdata]
  · rw [if_neg hdata, store_outside _ _ (.inl (by omega)), store_outside _ _ (.inl (by omega))]

/-- What a step keeps. -/
theorem Inv.step (hlen : 1024 ≤ len) (hinit : fixedAllocatorInit buf len blockCount = .ok a)
    (hroom : sizeofCSIBuffer ≤ a.blockSize) (h : Inv a s) (hs : Step s s') : Inv a s' := by
  have hreach : Heap.Reach (fun _ => True) ⟨a, []⟩ s'.heap := by
    rcases hs.heap with hsame | hstep
    · rw [hsame]
      exact h.reach
    · exact .tail h.reach hstep
  have hlaid := laid_of_reach hlen hinit h.reach
  have hlaid' := laid_of_reach hlen hinit hreach
  have hlt := a.blockSize_lt
  refine ⟨hreach, ?_⟩
  cases hs with
  | @opens b process rw hrw hnew =>
    obtain ⟨hne, rfl, rfl⟩ := newBuffer_inv hnew
    have hmax : newMaxLen s.process.iobuf.blockSize = a.blockSize - sizeofCSIBuffer := by
      rw [hlaid.blockSize, newMaxLen_eq hlt hroom]
    intro q hq
    rcases List.mem_cons.mp hq with rfl | hq
    · have hword : newMaxLen s.process.iobuf.blockSize < 2 ^ 64 := by
        rw [hmax]
        omega
      rw [mount_unmount ⟨Nat.le_refl _, Nat.zero_le _⟩ hword]
      exact ⟨⟨Nat.le_refl _, Nat.zero_le _⟩, hmax⟩
    · have hnext : s.next ≠ q := fun heq =>
        (List.nodup_cons.mp hlaid'.nodup).1 (heq ▸ hq)
      have hapart := hlaid'.apart s.next List.mem_cons_self q (List.mem_cons_of_mem _ hq) hnext
      refine (h.sized q hq).congr fun x hx hlt => unmount_fresh (fun _ => rfl) fun hin => ?_
      exact outside_of_apart hapart hroom hx hlt ⟨hin.1, by omega⟩
  | @calls p c r m hp hcall =>
    intro q hq
    by_cases hpq : p = q
    · subst hpq
      have hsized := callAt_sized (E := anyPipe) c (h.sized p hp) (by omega) ()
      exact (hsized _ _ hcall).2 _ rfl r m rfl
    · have hlocal := callAt_local (X := Unit) (Y := Unit) c (h.sized p hp) hroom
      have hframe := (hlocal.frame (E := anyPipe) () _ _ hcall).2 _ rfl r m rfl
      have hapart := hlaid.apart p hp q hq hpq
      exact (h.sized q hq).congr fun x hx hlt =>
        hframe x (outside_of_apart hapart hroom hx hlt)
  | frees hp hfree => exact fun q hq => h.sized q (List.mem_of_mem_erase hq)
  | elsewhere hm =>
    intro q hq
    obtain ⟨hle, hend⟩ := hlaid.inside q hq
    exact (h.sized q hq).congr fun x hx hlt => hm x (by omega) (by omega)

theorem reach_inv (hlen : 1024 ≤ len) (hinit : fixedAllocatorInit buf len blockCount = .ok a)
    (hroom : sizeofCSIBuffer ≤ a.blockSize) {process : CSIProcess} (ha : process.iobuf = a)
    (hr : Reach ⟨process, []⟩ s) : Inv a s := by
  induction hr with
  | refl =>
    subst ha
    exact ⟨.refl, fun p hp => absurd hp List.not_mem_nil⟩
  | tail _ hs ih => exact ih.step hlen hinit hroom hs

theorem Inv.confined (hlaid : Laid a s) (hroom : sizeofCSIBuffer ≤ a.blockSize) (h : Inv a s) :
    s.Confined where
  opens b process hnew := by
    obtain ⟨-, -, rfl⟩ := newBuffer_inv hnew
    show sizeofCSIBuffer + newMaxLen s.process.iobuf.blockSize ≤ s.process.iobuf.blockSize
    rw [hlaid.blockSize]
    exact (newMaxLen_fits_iff a.blockSize_lt).mpr hroom
  fits p hp := by
    rw [(h.sized p hp).maxLen, hlaid.blockSize, Nat.add_sub_cancel' hroom]
  touches p hp c := by
    rw [hlaid.blockSize]
    exact callAt_local c (h.sized p hp) hroom

/-- `csi_init_iobuf` accepts a buffer of 1024 bytes that can be cut into its blocks. -/
theorem csiInitIobuf_inv (hinit : csiInitIobuf buf len blockCount = .ok a) :
    1024 ≤ len ∧ fixedAllocatorInit buf len blockCount = .ok a := by
  rw [csiInitIobuf] at hinit
  split at hinit
  · cases hinit
  · rename_i hlen
    exact ⟨UInt64.not_lt.mp hlen, hinit⟩

/-- **I/O buffers fit in their blocks** in every history exactly when a block has room for a
`CSIBuffer`, which `csi_init_iobuf` does not check. -/
theorem iobuf_confined_iff (hbuf : 0 < buf) (hinit : csiInitIobuf buf len blockCount = .ok a)
    (payload : FixedAllocator) (memory : Memory) :
    (∀ s, Reach ⟨⟨payload, a, memory⟩, []⟩ s → s.Confined) ↔
      sizeofCSIBuffer * blockCount.toNat ≤ len.toNat := by
  obtain ⟨hlen, hinit'⟩ := csiInitIobuf_inv hinit
  obtain ⟨hblock, hsize, -⟩ := blockSize_of_init hlen hinit'
  obtain ⟨ha, hpos, -⟩ := fixedAllocatorInit_ok hlen hinit'
  rw [← Nat.le_div_iff_mul_le hpos, ← hblock]
  constructor
  · intro hall
    have hunused : a.Unused := by
      rw [ha]
      exact ⟨rfl, hbuf⟩
    have hfirst := FixedAllocator.placed_first hunused hsize (Nat.le_refl _)
    rw [placed, if_pos hsize] at hfirst
    have hne : (a.malloc a.blockSize).1 ≠ 0 := by
      rw [show a.malloc a.blockSize = _ from hfirst]
      exact Nat.ne_of_gt hunused.buf
    have hfits := (hall _ .refl).opens _ _ (newBuffer_eq hne)
    exact (newMaxLen_fits_iff a.blockSize_lt).mp hfits
  · intro hroom s hr
    have hinv := reach_inv hlen hinit' hroom rfl hr
    exact hinv.confined (laid_of_reach hlen hinit' hinv.reach) hroom

end

/-- The next buffer is set up. -/
def opened (s : Arena) : Arena :=
  ⟨{ s.process with
      iobuf := (s.process.iobuf.malloc s.process.iobuf.blockSize).2
      memory := unmount s.next s.process.nextBuffer (store s.process.memory s.next []) },
    s.next :: s.live⟩

theorem opened_step {s : Arena} (h : s.next ≠ 0) : Step s s.opened :=
  .opens (Nat.zero_le _) (newBuffer_eq h)

/-- The buffer at `p` takes `bs`. -/
def written (p : Nat) (bs : Bytes) (s : Arena) : Arena :=
  ⟨{ s.process with
      memory := unmount p ((mount p s.process.memory).taking bs) s.process.memory }, s.live⟩

theorem written_step {p : Nat} {bs : Bytes} {s : Arena} (hp : p ∈ s.live)
    (hfit : (mount p s.process.memory).filledLen + bs.length ≤
      (mount p s.process.memory).maxLen) : Step s (s.written p bs) := by
  refine .calls (c := .write bs) (r := .ok ([], bs.length)) hp ?_
  have hrun : callAt (X := Unit) (Y := Unit) p (.write bs) s.process.memory =
      .ret (.ok ([], bs.length), (s.written p bs).process.memory) := by
    rw [callAt, Method.zoom, BufferCall.run, seq_ok (bufWrite_taking hfit)]
    rfl
  rw [hrun]
  exact .refl _ _

/-- Two blocks of 512 bytes. -/
def twoBlocks : Arena := ⟨⟨⟨0, 2, 1024, 8192⟩, ⟨0, 2, 1024, 4096⟩, fun _ => 0⟩, []⟩

/-- A buffer in each, and bytes in both buffers. -/
def twoBuffers : Arena := (twoBlocks.opened.opened.written 4096 [1, 2, 3]).written 4608 [4, 5]

theorem twoBuffers_reach : Reach twoBlocks twoBuffers := by
  have hfirst : Step twoBlocks twoBlocks.opened := opened_step (by decide +kernel)
  have hsecond : Step twoBlocks.opened twoBlocks.opened.opened := opened_step (by decide +kernel)
  have hthree : Step _ (twoBlocks.opened.opened.written 4096 [1, 2, 3]) :=
    written_step (by decide +kernel) (by decide +kernel)
  have htwo : Step _ twoBuffers := written_step (by decide +kernel) (by decide +kernel)
  exact .tail (.tail (.tail (.tail .refl hfirst) hsecond) hthree) htwo

/-- Both hold what was put into them, and keep to their blocks. -/
theorem two_blocks_confined :
    twoBuffers.live = [4608, 4096] ∧
      (mount 4096 twoBuffers.process.memory).filled = [1, 2, 3] ∧
      (mount 4608 twoBuffers.process.memory).filled = [4, 5] ∧ twoBuffers.Confined :=
  ⟨by decide +kernel, by decide +kernel, by decide +kernel,
    (iobuf_confined_iff (by decide) (show csiInitIobuf 4096 1024 2 = .ok _ from rfl)
      ⟨0, 2, 1024, 8192⟩ fun _ => 0).mpr (by decide) _ twoBuffers_reach⟩

/-- What `new_buffer` makes of a block of 32 zeros. -/
def wrapped : CSIBuffer := ⟨0, 0, 18446744073709551600, fun _ => 0⟩

/-- 32 blocks of 32 bytes are accepted. The first buffer is set up as if it had the whole address
space, and a byte that is written to it goes to the second block. -/
theorem small_block_overrun :
    csiInitIobuf 4096 1024 32 = .ok ⟨0, 32, 1024, 4096⟩ ∧
      (∃ process, newBuffer ⟨⟨0, 2, 1024, 8192⟩, ⟨0, 32, 1024, 4096⟩, fun _ => 0⟩ =
        (.ret (.ok wrapped, process) : Prog (CsiRes Unit Unit) _)) ∧
      ¬ sizeofCSIBuffer + wrapped.maxLen ≤ 1024 / 32 ∧
      ∃ m, callAt 4096 (.write [7]) (unmount 4096 wrapped fun _ => 0) =
        (.ret (.ok ([], 1), m) : Prog (CsiRes Unit Unit) _) ∧
        4096 + 1024 / 32 ≤ 4144 ∧ m 4144 ≠ unmount 4096 wrapped (fun _ => 0) 4144 := by
  refine ⟨rfl, ?_, by decide, ?_⟩
  · have hnew := newBuffer_eq (X := Unit) (Y := Unit)
      (s := ⟨⟨0, 2, 1024, 8192⟩, ⟨0, 32, 1024, 4096⟩, fun _ => 0⟩) (by decide +kernel)
    have hmax : newMaxLen (FixedAllocator.blockSize ⟨0, 32, 1024, 4096⟩) = wrapped.maxLen := by
      decide +kernel
    rw [CSIProcess.nextBuffer, hmax] at hnew
    exact ⟨_, hnew⟩
  · have hmount : mount 4096 (unmount 4096 wrapped fun _ => 0) = wrapped :=
      mount_unmount ⟨Nat.le_refl _, Nat.zero_le _⟩ (by decide)
    refine ⟨unmount 4096 ⟨0, 1, 18446744073709551600, store (fun _ => 0) 0 [7]⟩
      (unmount 4096 wrapped fun _ => 0), ?_, by decide, by decide⟩
    rw [callAt, Method.zoom, hmount]
    rfl

end Arena

end CkbScriptIpc
