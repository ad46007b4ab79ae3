import CkbScriptIpc.Interaction.Stream
import CkbScriptIpc.Interaction.Cuts

/-!
# Readers and writers

The `Read` and `Write` traits, `read_exact`, and the `BufReader` and `BufWriter`
that a channel puts around its two pipes. `BufReader` and `BufWriter` follow the
documented behaviour of the ones of the Rust standard library.

* `Delivers`: what it means that a reader hands out the bytes of a stream, in
  chunks; `BufReader.delivers` says that buffering keeps it;
* `readExact_ok`, `readExact_eof`: `read_exact` gets exactly the bytes asked
  for, or fails at the end of the stream.
-/

namespace CkbScriptIpc

open Interaction

/-- The kinds of `io::Error` that the readers and writers tell apart. -/
inductive ErrorKind where
  | interrupted
  | unexpectedEof
  | writeZero
  | other
  deriving DecidableEq, Repr

variable {X Y W : Type}

/-- The answers to the calls a channel makes on its pipes and on its service. -/
abbrev IoRes (X Y : Type) : StreamOp X → Type := StreamOp.Res ErrorKind Y

class Read (R : Type) where
  /-- `Read::read` into a buffer of `n` bytes: the bytes put there. -/
  read {X Y : Type} (n : Nat) : Method (IoRes X Y) ErrorKind R Bytes

class Write (V : Type) where
  write {X Y : Type} (bs : Bytes) : Method (IoRes X Y) ErrorKind V Nat
  flush {X Y : Type} : Method (IoRes X Y) ErrorKind V Unit

/-- The reader a channel is given, whose state is the environment's. -/
structure Source where
  deriving DecidableEq, Repr

/-- The writer a channel is given. -/
structure Sink where
  deriving DecidableEq, Repr

instance : Read Source where
  read n := fun s => .call (.read n) fun r => .ret (r, s)

instance : Write Sink where
  write bs := fun s => .call (.write bs) fun r => .ret (r, s)
  flush := fun s => .call .flush fun r => .ret (r, s)

/-! ## `read_exact` -/

/-- The filled part of a buffer of `n` bytes. -/
abbrev Filled (n : Nat) := {l : Bytes // l.length ≤ n}

def Filled.empty (n : Nat) : Filled n := ⟨[], Nat.zero_le n⟩

/-- Put more bytes behind the filled part; what does not fit is not stored. -/
def Filled.push {n : Nat} (l : Filled n) (bs : Bytes) : Filled n :=
  ⟨l.1 ++ bs.take (n - l.1.length), by
    have := l.2
    simp only [List.length_append, List.length_take]
    omega⟩

theorem Filled.push_val {n : Nat} {l : Filled n} {bs : Bytes} (h : bs.length ≤ n - l.1.length) :
    (l.push bs).1 = l.1 ++ bs := by
  simp only [push]
  rw [List.take_of_length_le h]

/-- One turn of `default_read_exact`. -/
def readExactTurn {R : Type} [Read R] (n : Nat) (got : Filled n) :
    Method (IoRes X Y) ErrorKind R (Filled n ⊕ {l : Bytes // l.length = n}) :=
  if h : got.1.length = n then pure (.inr ⟨got.1, h⟩)
  else do
    match ← Method.attempt (Read.read (n - got.1.length)) with
    | .ok [] => Method.throw .unexpectedEof
    | .ok (b :: bs) => pure (.inl (got.push (b :: bs)))
    | .error .interrupted => pure (.inl got)
    | .error e => Method.throw e

/-- `Read::read_exact` into a buffer of `n` bytes. -/
def readExact {R : Type} [Read R] (n : Nat) :
    Method (IoRes X Y) ErrorKind R {l : Bytes // l.length = n} :=
  Method.iter (readExactTurn n) (Filled.empty n)

/-! ## Readers of a stream -/

/-- The reader hands out the bytes of a stream. -/
abbrev Delivers {R : Type} [Read R] (E : Env (IoRes X Y) W) (St : R → W → Bytes → Prop) : Prop :=
  Streams Read.read E St

/-- A reader of a stream that ends: there a read gives no bytes. -/
structure DeliversAll {R : Type} [Read R] (E : Env (IoRes X Y) W)
    (St : R → W → Bytes → Prop) : Prop extends Delivers E St where
  eof : ∀ {r w n}, St r w [] → 0 < n →
    Always E (succeeds fun c r' w' => c = [] ∧ St r' w' []) (Read.read n r) w

/-- The bytes a source has still to deliver are the input that is left. -/
def Source.view (_ : Source) (w : Bytes) (s : Bytes) : Prop := w = s

theorem Source.deliversAll : DeliversAll (chunked (X := X) (Y := Y)) Source.view where
  chunk := by
    intro r w s n hst hs hn
    refine .call hn ?_
    rintro a w' (⟨hw, -, -⟩ | ⟨c, hc, hlen, rfl, rfl⟩)
    · exact absurd (hst.symm.trans hw) hs
    · exact .ret ⟨w', hst.symm, hc, hlen, rfl⟩
  eof := by
    intro r w n hst hn
    refine .call hn ?_
    rintro a w' (⟨-, rfl, rfl⟩ | ⟨c, hc, -, rfl, -⟩)
    · exact .ret ⟨rfl, rfl⟩
    · exact absurd (List.append_eq_nil_iff.mp hst).1 hc

section ReadExact

variable {R : Type} [Read R] {E : Env (IoRes X Y) W} {St : R → W → Bytes → Prop}

theorem readExact_go (h : Delivers E St) {n : Nat} {got : Filled n} {r : R} {w : W} {s : Bytes}
    (hst : St r w s) (hlen : n ≤ got.1.length + s.length) :
    Always E (succeeds fun l r' w' => l.1 = got.1 ++ s.take (n - got.1.length) ∧
      St r' w' (s.drop (n - got.1.length))) (Method.iter (readExactTurn n) got r) w := by
  -- by induction on the number of bytes still missing
  induction hk : n - got.1.length using Nat.strongRecOn generalizing got r w s with
  | ind k ih =>
    have hle := got.2
    by_cases hfull : got.1.length = n
    · have hk0 : k = 0 := by omega
      apply always_iter
      rw [readExactTurn, dif_pos hfull]
      exact .ret ⟨by simp [hk0], by simpa [hk0] using hst⟩
    · have hs : s ≠ [] := by rintro rfl; simp at hlen; omega
      apply always_iter
      rw [readExactTurn, dif_neg hfull]
      apply always_seq_ok (always_attempt_ok (h.chunk hst hs (by omega)))
      rintro _ r' w' ⟨c, rfl, s', rfl, hc, hcn, hst'⟩
      obtain ⟨b, c, rfl⟩ := List.exists_cons_of_ne_nil hc
      have hpush := Filled.push_val hcn
      have hlen' : (got.push (b :: c)).1.length = got.1.length + (c.length + 1) := by
        rw [hpush]; simp
      have hcn' : c.length + 1 ≤ n - got.1.length := hcn
      have hnext := ih (n - (got.push (b :: c)).1.length) (by omega) hst'
        (by rw [hlen']; simp at hlen; omega) rfl
      refine .ret (hnext.mono (succeeds_mono ?_))
      rintro l r'' w'' ⟨hl, hst''⟩
      generalize hm : n - (got.push (b :: c)).1.length = m at hl hst''
      have hsplit : k = (b :: c).length + m := by
        rw [List.length_cons]; omega
      rw [hl, hpush, hsplit, List.take_length_add_append, List.drop_length_add_append,
        List.append_assoc]
      exact ⟨rfl, hst''⟩

/-- `read_exact` gets the next `n` bytes of the stream. -/
theorem readExact_ok (h : Delivers E St) {n : Nat} {r : R} {w : W} {s : Bytes}
    (hst : St r w s) (hlen : n ≤ s.length) :
    Always E (succeeds fun l r' w' => l.1 = s.take n ∧ St r' w' (s.drop n))
      (readExact n r) w := by
  have hgo := readExact_go h hst (show n ≤ (Filled.empty n).1.length + s.length by
    simpa [Filled.empty] using hlen)
  exact hgo.mono (succeeds_mono fun l r' w' hl => by simpa [Filled.empty] using hl)

theorem readExact_eof_go (h : DeliversAll E St) {n : Nat} {got : Filled n} {r : R} {w : W}
    {s : Bytes} (hst : St r w s) (hlen : got.1.length + s.length < n) :
    Always E (fails fun e r' w' => e = .unexpectedEof ∧ St r' w' [])
      (Method.iter (readExactTurn n) got r) w := by
  induction hk : s.length using Nat.strongRecOn generalizing got r w s with
  | ind k ih =>
    apply always_iter
    rw [readExactTurn, dif_neg (by omega)]
    by_cases hs : s = []
    · subst hs
      apply always_seq_ok (always_attempt_ok (h.eof hst (by omega)))
      rintro _ r' w' ⟨c, rfl, rfl, hst'⟩
      exact .ret ⟨rfl, hst'⟩
    · apply always_seq_ok (always_attempt_ok (h.chunk hst hs (by omega)))
      rintro _ r' w' ⟨c, rfl, s', rfl, hc, hcn, hst'⟩
      obtain ⟨b, c, rfl⟩ := List.exists_cons_of_ne_nil hc
      have hlen' : (got.push (b :: c)).1.length = got.1.length + (c.length + 1) := by
        rw [Filled.push_val hcn]
        simp
      simp at hlen hk
      exact .ret (ih s'.length (by omega) hst' (by rw [hlen']; omega) rfl)

/-- `read_exact` fails on a stream that is too short, which it reads to its end. -/
theorem readExact_eof (h : DeliversAll E St) {n : Nat} {r : R} {w : W} {s : Bytes}
    (hst : St r w s) (hlen : s.length < n) :
    Always E (fails fun e r' w' => e = .unexpectedEof ∧ St r' w' []) (readExact n r) w :=
  readExact_eof_go h hst (by simpa [Filled.empty] using hlen)

end ReadExact

/-! ## Readers that may fail -/

/-- `St r w c`: in reader state `r` and world `w` the bytes `c` have been handed
out. A read adds those it gives, and one that fails adds none. -/
structure Tracks {R : Type} [Read R] (E : Env (IoRes X Y) W) (I : W → Prop)
    (St : R → W → Bytes → Prop) : Prop where
  inv : ∀ {r w c}, St r w c → I w
  read : ∀ {r w c n}, St r w c →
    Safely E I (settles (fun b r' w' => b.length ≤ n ∧ St r' w' (c ++ b)) fun _ r' w' => St r' w' c)
      (Read.read n r) w

/-- `read_exact` hands out the bytes it gives, and some when it fails. -/
theorem readExact_tracks {R : Type} [Read R] {E : Env (IoRes X Y) W} {I : W → Prop}
    {St : R → W → Bytes → Prop} (h : Tracks E I St) {n : Nat} {r : R} {w : W} {c : Bytes}
    (hst : St r w c) :
    Safely E I (settles (fun l r' w' => St r' w' (c ++ l.1)) fun _ r' w' => ∃ b, St r' w' (c ++ b))
      (readExact n r) w := by
  refine safely_iter_settles (fun got r w => St r w (c ++ got.1)) ?_
    (by simpa [Filled.empty] using hst)
  intro got r w hst
  rw [readExactTurn]
  split
  · exact safely_ret (h.inv hst) hst
  · refine safely_seq_settles (safely_attempt_settles (h.read hst)) ?_ fun _ _ _ hf => hf.elim
    rintro _ r' w' (⟨b, rfl, hlen, hst'⟩ | ⟨e, rfl, hst'⟩)
    · rcases b with _ | ⟨b, bs⟩
      · exact safely_ret (h.inv hst') ⟨got.1, by simpa using hst'⟩
      · refine safely_ret (h.inv hst') (show St r' w' (c ++ (got.push (b :: bs)).1) from ?_)
        rwa [Filled.push_val hlen, ← List.append_assoc]
    · cases e
      · exact safely_ret (h.inv hst') hst'
      all_goals exact safely_ret (h.inv hst') ⟨got.1, hst'⟩

/-! ## What reading keeps -/

theorem Source.read_keeps {E : Env (IoRes X Y) W} {I : W → Prop} {mayPanic : Prop}
    (h : ∀ {w n r w'}, I w → E.step w (.read n) r w' → I w') (n : Nat) :
    KeepsWorld E I mayPanic (Read.read n : Method (IoRes X Y) ErrorKind Source Bytes) :=
  keeps_call (fun _ _ _ => h) id

theorem readExact_keeps {R : Type} [Read R] {E : Env (IoRes X Y) W} {I : W → Prop}
    {mayPanic : Prop}
    (h : ∀ n, KeepsWorld E I mayPanic (Read.read n : Method (IoRes X Y) ErrorKind R Bytes))
    (n : Nat) :
    KeepsWorld E I mayPanic (readExact n : Method (IoRes X Y) ErrorKind R _) := by
  refine keeps_iter (fun got => ?_) _
  rw [readExactTurn]
  split
  · exact keeps_pure _
  · refine keeps_seq (keeps_attempt (h _)) fun r => ?_
    rcases r with (_ | _ | _ | _) | (_ | ⟨_, _⟩) <;>
      first | exact keeps_pure _ | exact keeps_throw _

/-! ## Reads that may panic -/

/-- The reads of `i` are those of `j`, but for where they panic. -/
def Read.Cuts {R : Type} (i j : Read R) : Prop :=
  ∀ (X Y : Type) (n : Nat),
    Method.Cuts (i.read n : Method (IoRes X Y) ErrorKind R Bytes) (j.read n)

theorem readExact_cuts {R : Type} {i j : Read R} (h : Read.Cuts i j) (n : Nat) :
    Method.Cuts (@readExact X Y R i n) (@readExact X Y R j n) := by
  refine cuts_iter (fun got => ?_) _
  unfold readExactTurn
  split
  · exact cuts_refl _
  · exact cuts_seq (cuts_attempt (h X Y _)) fun _ => cuts_refl _

/-! ## `BufReader` -/

/-- `buf` is the part of the buffer that was filled and not yet consumed. -/
structure BufReader (R : Type) where
  inner : R
  buf : Bytes
  capacity : Nat
  deriving DecidableEq, Repr

namespace BufReader

variable {R : Type}

/-- Run a method of the inner reader. -/
def onInner {α : Type} (x : Method (IoRes X Y) ErrorKind R α) :
    Method (IoRes X Y) ErrorKind (BufReader R) α :=
  Method.zoom (·.inner) (fun r s => { s with inner := r }) x

/-- Hand out at most `n` of the buffered bytes. -/
def consume (n : Nat) : Method (IoRes X Y) ErrorKind (BufReader R) Bytes := do
  let s ← Method.get
  Method.set { s with buf := s.buf.drop n }
  return s.buf.take n

/-- `fill_buf`: refill an empty buffer by one read of the inner reader. -/
def fillBuf [Read R] : Method (IoRes X Y) ErrorKind (BufReader R) Unit := do
  let s ← Method.get
  if s.buf = [] then
    let bs ← onInner (Read.read s.capacity)
    Method.modify fun s => { s with buf := bs }

instance [Read R] : Read (BufReader R) where
  read n := do
    let s ← Method.get
    -- a read at least as large as the buffer goes around an empty buffer
    if s.buf = [] ∧ s.capacity ≤ n then onInner (Read.read n)
    else do
      fillBuf
      consume n

theorem fillBuf_buffered [Read R] {r : BufReader R} (h : r.buf ≠ []) :
    fillBuf (X := X) (Y := Y) r = .ret (.ok (), r) := by
  simp only [fillBuf, get_seq, h, ↓reduceIte]
  rfl

/-- The bytes a buffered reader has still to deliver: the buffered ones, then
those of the inner reader. -/
def view (St : R → W → Bytes → Prop) (r : BufReader R) (w : W) (s : Bytes) : Prop :=
  ∃ t, s = r.buf ++ t ∧ St r.inner w t

section Delivers

variable [Read R] {E : Env (IoRes X Y) W} {St : R → W → Bytes → Prop}

omit [Read R] in
theorem consume_spec {n : Nat} {r : BufReader R} {w : W} {t : Bytes} (hn : 0 < n)
    (hbuf : r.buf ≠ []) (hst : St r.inner w t) :
    Always E (succeeds fun c r' w' => ∃ s', r.buf ++ t = c ++ s' ∧ c ≠ [] ∧ c.length ≤ n ∧
      view St r' w' s') (consume n r) w := by
  refine .ret ⟨r.buf.drop n ++ t, ?_, ?_, ?_, t, rfl, hst⟩
  · rw [← List.append_assoc, List.take_append_drop]
  · simp [hbuf, Nat.ne_of_gt hn]
  · simp only [List.length_take]
    omega

/-- **Buffering keeps the stream**, whatever the capacity. -/
theorem delivers (h : Delivers E St) : Delivers E (view St) where
  chunk := by
    rintro r w s n ⟨t, rfl, hst⟩ hs hn
    simp only [Read.read, get_seq]
    by_cases hbuf : r.buf = []
    · rw [hbuf, List.nil_append] at hs ⊢
      by_cases hcap : r.capacity ≤ n
      · rw [if_pos ⟨rfl, hcap⟩]
        refine (always_zoom_ok (h.chunk hst hs hn)).mono (succeeds_mono ?_)
        rintro c r' w' ⟨i, ⟨s', rfl, hc, hcn, hst'⟩, rfl⟩
        exact ⟨s', rfl, hc, hcn, s', by simp [hbuf], hst'⟩
      · rw [if_neg (by simp [hcap])]
        have hfill : Always E (succeeds fun _ r' w' => ∃ t', t = r'.buf ++ t' ∧ r'.buf ≠ [] ∧
            St r'.inner w' t') (fillBuf r) w := by
          simp only [fillBuf, get_seq, hbuf, ↓reduceIte]
          apply always_seq_ok (always_zoom_ok (h.chunk hst hs (by omega)))
          rintro c _ w' ⟨i, ⟨s', rfl, hc, -, hst'⟩, rfl⟩
          exact .ret ⟨s', rfl, hc, hst'⟩
        apply always_seq_ok hfill
        rintro _ r' w' ⟨t', rfl, hne, hst'⟩
        exact consume_spec hn hne hst'
    · rw [if_neg (by simp [hbuf])]
      rw [seq_ok (fillBuf_buffered hbuf)]
      exact consume_spec hn hbuf hst

theorem deliversAll (h : DeliversAll E St) : DeliversAll E (view St) where
  toStreams := delivers h.toStreams
  eof := by
    rintro r w n ⟨t, ht, hst⟩ hn
    obtain ⟨hbuf, rfl⟩ := List.append_eq_nil_iff.mp ht.symm
    simp only [Read.read, get_seq]
    by_cases hcap : r.capacity ≤ n
    · rw [if_pos ⟨hbuf, hcap⟩]
      refine (always_zoom_ok (h.eof hst hn)).mono (succeeds_mono ?_)
      rintro c r' w' ⟨i, ⟨rfl, hst'⟩, rfl⟩
      exact ⟨rfl, [], by simp [hbuf], hst'⟩
    · rw [if_neg (by simp [hcap])]
      have hfill : Always E (succeeds fun _ r' w' => r'.buf = [] ∧ St r'.inner w' [])
          (fillBuf r) w := by
        simp only [fillBuf, get_seq, hbuf, ↓reduceIte]
        apply always_seq_ok (always_zoom_ok (h.eof hst (by omega)))
        rintro c _ w' ⟨i, ⟨rfl, hst'⟩, rfl⟩
        exact .ret ⟨rfl, hst'⟩
      apply always_seq_ok hfill
      rintro _ r' w' ⟨hb, hst'⟩
      exact .ret ⟨by simp [hb], [], by simp [hb], hst'⟩

end Delivers

theorem read_cuts {i j : Read R} (h : Read.Cuts i j) :
    Read.Cuts (@instRead R i) (@instRead R j) := by
  refine fun X Y n => cuts_seq (cuts_refl _) fun s => ?_
  split
  · exact cuts_zoom (h X Y _) _ _
  · refine cuts_seq (cuts_seq (cuts_refl _) fun s => ?_) fun _ => cuts_refl _
    split
    · exact cuts_seq (cuts_zoom (h X Y _) _ _) fun _ => cuts_refl _
    · exact cuts_refl _

/-- A read waits for ever behind an empty buffer where the reads of the inner reader do. -/
theorem read_never [Read R] {E : Env (IoRes X Y) W} {r : BufReader R} {w : W} {n : Nat}
    (h : ∀ m, 0 < m → Always E (fun _ _ => False) (Read.read m r.inner) w) (hb : r.buf = [])
    (hn : 0 < n) : Always E (fun _ _ => False) (Read.read n r) w := by
  simp only [Read.read, get_seq]
  by_cases hcap : r.capacity ≤ n
  · rw [if_pos ⟨hb, hcap⟩]
    exact always_map_never (h n hn)
  · rw [if_neg (by simp [hcap])]
    apply always_seq_never
    simp only [fillBuf, get_seq, hb, ↓reduceIte]
    exact always_seq_never (always_map_never (h _ (by omega)))

/-- The bytes a buffered reader has handed out: those of the inner reader, without
the buffered ones. -/
def trail (St : R → W → Bytes → Prop) (r : BufReader R) (w : W) (c : Bytes) : Prop :=
  St r.inner w (c ++ r.buf)

/-- Buffering keeps track of the bytes that are handed out. -/
theorem tracks [Read R] {E : Env (IoRes X Y) W} {I : W → Prop} {St : R → W → Bytes → Prop}
    (h : Tracks E I St) : Tracks E I (trail St) where
  inv hst := h.inv hst
  read := by
    intro r w c n hst
    have hconsume : ∀ r' w', St r'.inner w' (c ++ r'.buf) → Safely E I
        (settles (fun b r' w' => b.length ≤ n ∧ trail St r' w' (c ++ b))
          fun _ r' w' => trail St r' w' c) (consume (X := X) (Y := Y) n r') w' := by
      intro r' w' hst'
      refine safely_ret (h.inv hst') ⟨List.length_take_le _ _, ?_⟩
      simpa [trail] using hst'
    simp only [Read.read, get_seq]
    by_cases hbuf : r.buf = []
    · rw [trail, hbuf, List.append_nil] at hst
      by_cases hcap : r.capacity ≤ n
      · rw [if_pos ⟨hbuf, hcap⟩]
        refine (safely_zoom_settles (h.read hst)).settles_mono ?_ ?_
        · rintro b _ w' - ⟨i, ⟨hlen, hst'⟩, rfl⟩
          exact ⟨hlen, by simpa [trail, hbuf] using hst'⟩
        · rintro e _ w' - ⟨i, hst', rfl⟩
          simpa [trail, hbuf] using hst'
      · rw [if_neg (by simp [hcap])]
        refine safely_seq_settles (P := fun _ r' w' => St r'.inner w' (c ++ r'.buf))
          (F := fun _ r' w' => trail St r' w' c) ?_ (fun _ r' w' => hconsume r' w')
          fun _ _ _ hf => hf
        simp only [fillBuf, get_seq, hbuf, ↓reduceIte]
        refine safely_seq_settles (safely_zoom_settles (h.read hst)) ?_ ?_
        · rintro b _ w' ⟨i, ⟨-, hst'⟩, rfl⟩
          exact safely_ret (h.inv hst') hst'
        · rintro e _ w' ⟨i, hst', rfl⟩
          simpa [trail, hbuf] using hst'
    · rw [if_neg (by simp [hbuf])]
      rw [seq_ok (fillBuf_buffered hbuf)]
      exact hconsume r w hst

/-- Reading through a buffer keeps what reading keeps. -/
theorem read_keeps [Read R] {E : Env (IoRes X Y) W} {I : W → Prop} {mayPanic : Prop}
    (h : ∀ n, KeepsWorld E I mayPanic (Read.read n : Method (IoRes X Y) ErrorKind R Bytes))
    (n : Nat) :
    KeepsWorld E I mayPanic (Read.read n : Method (IoRes X Y) ErrorKind (BufReader R) Bytes) := by
  have hinner : ∀ n, KeepsWorld E I mayPanic (onInner (Read.read n) :
      Method (IoRes X Y) ErrorKind (BufReader R) Bytes) := fun n => keepsWorld_zoom (h n) _ _
  refine keeps_seq keeps_get fun s => ?_
  split
  · exact hinner n
  · refine keeps_seq (keeps_seq keeps_get fun s => ?_) fun _ => keeps_seq keeps_get fun s => ?_
    · split
      · exact keeps_seq (hinner _) fun _ => keepsWorld_modify _
      · exact keeps_pure _
    · exact keeps_seq (keepsWorld_modify _) fun _ => keeps_pure _

end BufReader

/-! ## `BufWriter` -/

/-- `buf` holds the bytes accepted but not yet passed on. -/
structure BufWriter (V : Type) where
  inner : V
  buf : Bytes
  capacity : Nat
  deriving DecidableEq, Repr

namespace BufWriter

variable {V : Type}

def spareCapacity (s : BufWriter V) : Nat := s.capacity - s.buf.length

def onInner {α : Type} (x : Method (IoRes X Y) ErrorKind V α) :
    Method (IoRes X Y) ErrorKind (BufWriter V) α :=
  Method.zoom (·.inner) (fun v s => { s with inner := v }) x

/-- One turn of `flush_buf`: offer what is left in the buffer. The bytes that
were taken leave the buffer, also when a later turn fails. -/
def flushBufTurn [Write V] (_ : Unit) :
    Method (IoRes X Y) ErrorKind (BufWriter V) (Unit ⊕ Unit) := do
  let s ← Method.get
  if s.buf = [] then return .inr ()
  match ← Method.attempt (onInner (Write.write s.buf)) with
  | .ok 0 => Method.throw .writeZero
  | .ok n =>
    Method.modify fun s => { s with buf := s.buf.drop n }
    return .inl ()
  | .error .interrupted => return .inl ()
  | .error e => Method.throw e

/-- `flush_buf`: pass the whole buffer on. -/
def flushBuf [Write V] : Method (IoRes X Y) ErrorKind (BufWriter V) Unit :=
  Method.iter flushBufTurn ()

/-- `write_to_buffer_unchecked`. -/
def writeToBuffer (bs : Bytes) : Method (IoRes X Y) ErrorKind (BufWriter V) Nat := do
  Method.modify fun s => { s with buf := s.buf ++ bs }
  return bs.length

/-- The second half of `write_cold`: pass a large write straight to the inner
writer, whose count is returned, and buffer a small one. -/
def passOrBuffer [Write V] (bs : Bytes) : Method (IoRes X Y) ErrorKind (BufWriter V) Nat := do
  let s ← Method.get
  if s.capacity ≤ bs.length then onInner (Write.write bs) else writeToBuffer bs

/-- `write_cold`: make room first. -/
def writeCold [Write V] (bs : Bytes) : Method (IoRes X Y) ErrorKind (BufWriter V) Nat := do
  let s ← Method.get
  if s.spareCapacity < bs.length then flushBuf
  passOrBuffer bs

instance [Write V] : Write (BufWriter V) where
  write bs := do
    let s ← Method.get
    if bs.length < s.spareCapacity then writeToBuffer bs else writeCold bs
  flush := do
    flushBuf
    onInner Write.flush

section

variable [Write V] {s : BufWriter V} {bs : Bytes}

theorem write_buffered (h : bs.length < s.spareCapacity) :
    Write.write (X := X) (Y := Y) bs s = .ret (.ok bs.length, { s with buf := s.buf ++ bs }) := by
  simp only [Write.write, get_seq, h, ↓reduceIte]
  rfl

theorem write_crowded (h : s.spareCapacity < bs.length) :
    Write.write (X := X) (Y := Y) bs s = (flushBuf >>= fun _ => passOrBuffer bs) s := by
  simp only [Write.write, get_seq, Nat.not_lt.mpr (Nat.le_of_lt h), ↓reduceIte, writeCold, h]

theorem write_exact (h : bs.length = s.spareCapacity) :
    Write.write (X := X) (Y := Y) bs s = passOrBuffer bs s := by
  simp only [Write.write, get_seq, h, Nat.lt_irrefl, ↓reduceIte, writeCold]

theorem passOrBuffer_large (h : s.capacity ≤ bs.length) :
    passOrBuffer (X := X) (Y := Y) bs s = onInner (Write.write bs) s := by
  simp only [passOrBuffer, get_seq, h, ↓reduceIte]

theorem passOrBuffer_small (h : bs.length < s.capacity) :
    passOrBuffer (X := X) (Y := Y) bs s =
      .ret (.ok bs.length, { s with buf := s.buf ++ bs }) := by
  simp only [passOrBuffer, get_seq, Nat.not_le.mpr h, ↓reduceIte]
  rfl

/-- `flush_buf` succeeds only with an empty buffer. -/
theorem flushBuf_empties {E : Env (IoRes X Y) W} (s : BufWriter V) (w : W) :
    Safely E (fun _ => True) (whenOk fun _ s' _ => s'.buf = []) (flushBuf s) w := by
  refine safely_iter_settles (fun _ _ _ => True) ?_ trivial
  intro _ s w _
  by_cases hb : s.buf = []
  · simp only [flushBufTurn, get_seq, hb, ↓reduceIte]
    exact safely_ret trivial hb
  · simp only [flushBufTurn, get_seq, hb, ↓reduceIte]
    apply safely_seq_whenOk (safely_any _ _ _)
    rintro (e | _ | n) s' w' -
    · cases e <;> exact safely_ret trivial trivial
    · exact safely_ret trivial trivial
    · exact safely_ret trivial trivial

end

end BufWriter

/-! ## What writing keeps -/

section Keeps

variable {E : Env (IoRes X Y) W} {I : W → Prop} {mayPanic : Prop}

theorem Sink.write_keeps (h : ∀ {w bs r w'}, I w → E.step w (.write bs) r w' → I w')
    (bs : Bytes) :
    KeepsWorld E I mayPanic (Write.write bs : Method (IoRes X Y) ErrorKind Sink Nat) :=
  keeps_call (fun _ _ _ => h) id

theorem Sink.flush_keeps (h : ∀ {w r w'}, I w → E.step w .flush r w' → I w') :
    KeepsWorld E I mayPanic (Write.flush : Method (IoRes X Y) ErrorKind Sink Unit) :=
  keeps_call (fun _ _ _ => h) id

namespace BufWriter

variable {V : Type} [Write V]

theorem flushBuf_keeps
    (h : ∀ bs, KeepsWorld E I mayPanic (Write.write bs : Method (IoRes X Y) ErrorKind V Nat)) :
    KeepsWorld E I mayPanic (flushBuf : Method (IoRes X Y) ErrorKind (BufWriter V) Unit) := by
  refine keeps_iter (fun _ => keeps_seq keeps_get fun s => ?_) ()
  split
  · exact keeps_pure _
  · refine keeps_seq (keeps_attempt (keepsWorld_zoom (h _) _ _)) fun r => ?_
    rcases r with (_ | _ | _ | _) | (_ | n)
    · exact keeps_pure _
    · exact keeps_throw _
    · exact keeps_throw _
    · exact keeps_throw _
    · exact keeps_throw _
    · exact keeps_seq (keepsWorld_modify _) fun _ => keeps_pure _

theorem write_keeps
    (h : ∀ bs, KeepsWorld E I mayPanic (Write.write bs : Method (IoRes X Y) ErrorKind V Nat))
    (bs : Bytes) :
    KeepsWorld E I mayPanic (Write.write bs : Method (IoRes X Y) ErrorKind (BufWriter V) Nat) := by
  have hbuffer : KeepsWorld E I mayPanic
      (writeToBuffer bs : Method (IoRes X Y) ErrorKind (BufWriter V) Nat) :=
    keeps_seq (keepsWorld_modify _) fun _ => keeps_pure _
  have hpass : KeepsWorld E I mayPanic
      (passOrBuffer bs : Method (IoRes X Y) ErrorKind (BufWriter V) Nat) := by
    refine keeps_seq keeps_get fun s => ?_
    split
    · exact keepsWorld_zoom (h bs) _ _
    · exact hbuffer
  refine keeps_seq keeps_get fun s => ?_
  split
  · exact hbuffer
  · refine keeps_seq keeps_get fun s => ?_
    split
    · exact keeps_seq (flushBuf_keeps h) fun _ => hpass
    · exact hpass

theorem flush_keeps
    (h : ∀ bs, KeepsWorld E I mayPanic (Write.write bs : Method (IoRes X Y) ErrorKind V Nat))
    (hflush : KeepsWorld E I mayPanic (Write.flush : Method (IoRes X Y) ErrorKind V Unit)) :
    KeepsWorld E I mayPanic (Write.flush : Method (IoRes X Y) ErrorKind (BufWriter V) Unit) :=
  keeps_seq (flushBuf_keeps h) fun _ => keepsWorld_zoom hflush _ _

end BufWriter

end Keeps

/-! ## Writers that take everything, or fail -/

/-- In writer state `v` and world `w` one write takes all of `bs`, which leads to a world in
`P`, or fails, which leads to one in `F`. Behind the former flushes succeed. -/
structure Accepts {V : Type} [Write V] (E : Env (IoRes X Y) W) (v : V) (w : W) (bs : Bytes)
    (P F : W → Prop) : Prop where
  write : Always E (resolves (fun n v' w' => n = bs.length ∧ v' = v ∧ P w')
    fun e v' w' => e ≠ .interrupted ∧ v' = v ∧ F w') (Write.write bs v) w
  flush : ∀ {u}, P u → Always E (succeeds fun _ v' u' => v' = v ∧ P u') (Write.flush v) u

/-- In worlds in `F` every write fails and leads to one in `F`. -/
structure Refuses {V : Type} [Write V] (E : Env (IoRes X Y) W) (v : V) (F : W → Prop) : Prop where
  write : ∀ {w bs}, F w → bs ≠ [] →
    Always E (fails fun e v' w' => e ≠ .interrupted ∧ v' = v ∧ F w') (Write.write bs v) w

/-- What a single write takes a sink accepts. -/
theorem Sink.accepts {E : Env (IoRes X Y) W} {v : Sink} {w : W} {bs : Bytes} {P : W → Prop}
    (h : TakesOnce E w bs P) : Accepts E v w bs P fun _ => False where
  write := by
    refine .call h.pre fun r w' hs => ?_
    obtain ⟨rfl, hp⟩ := h.write hs
    exact .ret ⟨rfl, rfl, hp⟩
  flush hu := by
    refine .call (h.pre_flush hu) fun r w' hs => ?_
    obtain ⟨rfl, hp⟩ := h.flush hu hs
    exact .ret ⟨rfl, hp⟩

namespace BufWriter

variable {V : Type} [Write V] {E : Env (IoRes X Y) W} {s : BufWriter V} {w : W} {bs : Bytes}
  {P F : W → Prop}

theorem onInner_accepts (h : Accepts E s.inner w bs P F) :
    Always E (resolves (fun n s' w' => n = bs.length ∧ s' = s ∧ P w')
      fun e s' w' => e ≠ .interrupted ∧ s' = s ∧ F w') (onInner (Write.write bs) s) w := by
  refine (always_zoom_resolves h.write).mono (resolves_mono ?_ ?_)
  · rintro n _ w' ⟨_, ⟨rfl, rfl, hp⟩, rfl⟩
    exact ⟨rfl, rfl, hp⟩
  · rintro e _ w' ⟨_, ⟨he, rfl, hf⟩, rfl⟩
    exact ⟨he, rfl, hf⟩

theorem flushBuf_nothing (hb : s.buf = []) :
    Always E (succeeds fun _ s' w' => s' = s ∧ w' = w) (flushBuf s) w := by
  apply always_iter
  simp only [flushBufTurn, get_seq, hb, ↓reduceIte]
  exact .ret ⟨rfl, rfl⟩

theorem flushBuf_accepts (h : Accepts E s.inner w bs P F) (hne : bs ≠ []) (hb : s.buf = bs) :
    Always E (resolves (fun _ s' w' => s' = { s with buf := [] } ∧ P w')
      fun _ s' w' => s'.inner = s.inner ∧ F w') (flushBuf s) w := by
  subst hb
  apply always_iter
  simp only [flushBufTurn, get_seq, hne, ↓reduceIte]
  apply always_seq_ok (always_attempt_resolves (onInner_accepts h))
  rintro _ _ w₁ (⟨n, rfl, rfl, rfl, hp⟩ | ⟨e, rfl, he, rfl, hf⟩)
  · obtain ⟨b, bs, hbs⟩ := List.exists_cons_of_ne_nil hne
    simp only [hbs, List.length_cons]
    refine .ret ((flushBuf_nothing (by simp [hbs])).mono fun o w' ho => ?_)
    refine resolves_of_succeeds o w' (succeeds_mono ?_ o w' ho)
    rintro _ _ _ ⟨rfl, rfl⟩
    exact ⟨by simp [hbs], hp⟩
  · cases e
    · exact absurd rfl he
    all_goals exact .ret ⟨rfl, hf⟩

/-- A write into an empty buffer passes the bytes on or keeps them. -/
theorem write_accepts (h : Accepts E s.inner w bs P F) (hb : s.buf = []) :
    Always E (resolves (fun _ s' w' => s' = { s with buf := bs } ∧ w' = w ∨ s' = s ∧ P w')
      fun _ s' w' => s'.inner = s.inner ∧ F w') (Write.write bs s) w := by
  have hpass : s.spareCapacity ≤ bs.length →
      Always E (resolves (fun _ s' w' => s' = { s with buf := bs } ∧ w' = w ∨ s' = s ∧ P w')
        fun _ s' w' => s'.inner = s.inner ∧ F w') (passOrBuffer bs s) w := by
    intro hle
    rw [passOrBuffer_large (by simpa [spareCapacity, hb] using hle)]
    refine (onInner_accepts h).mono (resolves_mono ?_ ?_)
    · rintro _ _ w' ⟨-, rfl, hp⟩
      exact .inr ⟨rfl, hp⟩
    · rintro _ _ w' ⟨-, rfl, hf⟩
      exact ⟨rfl, hf⟩
  rcases Nat.lt_trichotomy bs.length s.spareCapacity with hlt | heq | hgt
  · rw [write_buffered hlt]
    exact .ret (.inl ⟨by rw [hb, List.nil_append], rfl⟩)
  · rw [write_exact heq]
    exact hpass (Nat.le_of_eq heq.symm)
  · rw [write_crowded hgt]
    apply always_seq_ok (flushBuf_nothing hb)
    rintro _ _ _ ⟨rfl, rfl⟩
    exact hpass (Nat.le_of_lt hgt)

/-- The flush behind such a write passes on what was kept. -/
theorem flush_accepts (h : Accepts E s.inner w bs P F) (hne : bs ≠ []) (hb : s.buf = [])
    {t : BufWriter V} {v : W} (ht : t = { s with buf := bs } ∧ v = w ∨ t = s ∧ P v) :
    Always E (resolves (fun _ s' w' => s' = s ∧ P w') fun _ s' w' => s'.inner = s.inner ∧ F w')
      (Write.flush t) v := by
  have hflushBuf : Always E (resolves (fun _ s' w' => s' = s ∧ P w')
      fun _ s' w' => s'.inner = s.inner ∧ F w') (flushBuf t) v := by
    rcases ht with ⟨rfl, rfl⟩ | ⟨rfl, hp⟩
    · have hflush := flushBuf_accepts (s := { s with buf := bs }) h hne rfl
      refine hflush.mono (resolves_mono ?_ fun _ _ _ hf => hf)
      rintro _ _ w' ⟨rfl, hp⟩
      exact ⟨by rw [← hb], hp⟩
    · refine (flushBuf_nothing hb).mono fun o w' ho => ?_
      refine resolves_of_succeeds o w' (succeeds_mono ?_ o w' ho)
      rintro _ _ _ ⟨rfl, rfl⟩
      exact ⟨rfl, hp⟩
  refine always_seq_resolves hflushBuf ?_ fun _ _ _ hf => hf
  rintro _ _ w₁ ⟨rfl, hp⟩
  refine (always_zoom_ok (h.flush hp)).mono fun o w' ho => ?_
  refine resolves_of_succeeds o w' (succeeds_mono ?_ o w' ho)
  rintro _ _ w₂ ⟨_, ⟨rfl, hp'⟩, rfl⟩
  exact ⟨rfl, hp'⟩

theorem onInner_refused (h : Refuses E s.inner F) (hw : F w) (hne : bs ≠ []) :
    Always E (fails fun e s' w' => e ≠ .interrupted ∧ s' = s ∧ F w')
      (onInner (Write.write bs) s) w := by
  refine (always_zoom_err (h.write hw hne)).mono (fails_mono ?_)
  rintro e _ w' ⟨_, ⟨he, rfl, hf⟩, rfl⟩
  exact ⟨he, rfl, hf⟩

theorem flushBuf_refused (h : Refuses E s.inner F) (hw : F w) (hb : s.buf ≠ []) :
    Always E (fails fun _ s' w' => s'.inner = s.inner ∧ F w') (flushBuf s) w := by
  apply always_iter
  simp only [flushBufTurn, get_seq, hb, ↓reduceIte]
  apply always_seq_ok (always_attempt_resolves
    ((onInner_refused h hw hb).mono (resolves_of_fails (P := fun _ _ _ => False))))
  rintro _ _ w₁ (⟨_, _, hp⟩ | ⟨e, rfl, he, rfl, hf⟩)
  · exact hp.elim
  · cases e
    · exact absurd rfl he
    all_goals exact .ret ⟨rfl, hf⟩

/-- A write to a writer that refuses may still be buffered. -/
theorem write_refused (h : Refuses E s.inner F) (hw : F w) (hne : bs ≠ []) :
    Always E (resolves (fun _ s' w' => s'.inner = s.inner ∧ s'.buf ≠ [] ∧ F w')
      fun _ s' w' => s'.inner = s.inner ∧ F w') (Write.write bs s) w := by
  have hpass : Always E (resolves (fun _ s' w' => s'.inner = s.inner ∧ s'.buf ≠ [] ∧ F w')
      fun _ s' w' => s'.inner = s.inner ∧ F w') (passOrBuffer bs s) w := by
    by_cases hcap : s.capacity ≤ bs.length
    · rw [passOrBuffer_large hcap]
      refine (onInner_refused h hw hne).mono fun o w' ho => ?_
      refine resolves_of_fails o w' (fails_mono ?_ o w' ho)
      rintro _ _ _ ⟨-, rfl, hf⟩
      exact ⟨rfl, hf⟩
    · rw [passOrBuffer_small (Nat.lt_of_not_le hcap)]
      exact .ret ⟨rfl, by simp [hne], hw⟩
  rcases Nat.lt_trichotomy bs.length s.spareCapacity with hlt | heq | hgt
  · rw [write_buffered hlt]
    exact .ret ⟨rfl, by simp [hne], hw⟩
  · rw [write_exact heq]
    exact hpass
  · rw [write_crowded hgt]
    by_cases hb : s.buf = []
    · apply always_seq_ok (flushBuf_nothing hb)
      rintro _ _ _ ⟨rfl, rfl⟩
      exact hpass
    · exact always_seq_err (flushBuf_refused h hw hb) fun _ _ _ hf => hf

theorem flush_refused (h : Refuses E s.inner F) (hw : F w) (hb : s.buf ≠ []) :
    Always E (fails fun _ s' w' => s'.inner = s.inner ∧ F w') (Write.flush s) w :=
  always_seq_err (flushBuf_refused h hw hb) fun _ _ _ hf => hf

end BufWriter

end CkbScriptIpc
