import CkbScriptIpc.Interaction.Method

/-!
# Byte streams

The operations of a program with one stream of bytes to read and one to write
(`StreamOp`), and environments for them:

* `chunked`: a finite input arrives in chunks of any sizes and then ends;
* `FullWriter`: every write is taken in full, as in `collecting`.

`Feeds` says that an environment hands out the bytes of a stream in chunks, and
`Streams` says it of a reading method.
-/

namespace Interaction

abbrev Bytes := List UInt8

/-- `read n` asks for at most `n` bytes, `write bs` offers `bs`, and `ext x` is
a request that the streams play no part in. -/
inductive StreamOp (X : Type) where
  | read (n : Nat)
  | write (bs : Bytes)
  | flush
  | ext (x : X)

/-- A read gives bytes, a write the number of bytes taken; each may fail. -/
def StreamOp.Res {X : Type} (ε Y : Type) : StreamOp X → Type
  | .read _ => Except ε Bytes
  | .write _ => Except ε Nat
  | .flush => Except ε Unit
  | .ext _ => Y

variable {X Y ε : Type}

/-- The input `w` arrives in chunks: a read of a non-empty stream gives between
one and the requested number of bytes, and a read at its end gives none. -/
def chunked : Env (StreamOp.Res (X := X) ε Y) Bytes where
  pre
    | _, .read n => 0 < n
    | _, _ => False
  step
    | w, .read n, r, w' =>
      (w = [] ∧ r = .ok [] ∧ w' = []) ∨
        ∃ c, c ≠ [] ∧ c.length ≤ n ∧ w = c ++ w' ∧ r = .ok c
    | _, _, _, _ => False

theorem chunked_answers : (chunked : Env (StreamOp.Res (X := X) ε Y) Bytes).Answers := by
  intro w op hp
  cases op with
  | read n =>
    cases w with
    | nil => exact ⟨.ok [], [], .inl ⟨rfl, rfl, rfl⟩⟩
    | cons b w => exact ⟨.ok [b], w, .inr ⟨[b], by simp, hp, rfl, rfl⟩⟩
  | write bs => exact hp.elim
  | flush => exact hp.elim
  | ext x => exact hp.elim

/-- The bytes written are `out`: every write is taken in full, no call on the
writer fails, and the other operations leave `out` alone. -/
structure FullWriter {W : Type} (E : Env (StreamOp.Res (X := X) ε Y) W) (out : W → Bytes) :
    Prop where
  pre_write : ∀ w bs, E.pre w (.write bs)
  pre_flush : ∀ w, E.pre w .flush
  write : ∀ {w bs r w'}, E.step w (.write bs) r w' → r = .ok bs.length ∧ out w' = out w ++ bs
  flush : ∀ {w r w'}, E.step w .flush r w' → r = .ok () ∧ out w' = out w
  read : ∀ {w n r w'}, E.step w (.read n) r w' → out w' = out w
  ext : ∀ {w x r w'}, E.step w (.ext x) r w' → out w' = out w

/-- In world `w` the bytes `bs` are taken by one write, which leads to a world in `P`; there
flushes succeed. -/
structure TakesOnce {W : Type} (E : Env (StreamOp.Res (X := X) ε Y) W) (w : W) (bs : Bytes)
    (P : W → Prop) : Prop where
  pre : E.pre w (.write bs)
  write : ∀ {r w'}, E.step w (.write bs) r w' → r = .ok bs.length ∧ P w'
  pre_flush : ∀ {v}, P v → E.pre v .flush
  flush : ∀ {v r v'}, P v → E.step v .flush r v' → r = .ok () ∧ P v'

theorem FullWriter.takesOnce {W : Type} {E : Env (StreamOp.Res (X := X) ε Y) W} {out : W → Bytes}
    (h : FullWriter E out) (w : W) (bs : Bytes) :
    TakesOnce E w bs fun v => out v = out w ++ bs where
  pre := h.pre_write w bs
  write hs := h.write hs
  pre_flush _ := h.pre_flush _
  flush hv hs := ⟨(h.flush hs).1, (h.flush hs).2.trans hv⟩

/-- In worlds with `St w o`, where the bytes `o` have been written, a write is taken
in full. -/
structure Takes {W : Type} (E : Env (StreamOp.Res (X := X) ε Y) W) (St : W → Bytes → Prop) :
    Prop where
  pre : ∀ {w o}, St w o → ∀ bs, E.pre w (.write bs)
  write : ∀ {w o bs r w'}, St w o → E.step w (.write bs) r w' → r = .ok bs.length ∧ St w' (o ++ bs)

theorem FullWriter.takes {W : Type} {E : Env (StreamOp.Res (X := X) ε Y) W} {out : W → Bytes}
    (h : FullWriter E out) : Takes E (out · = ·) where
  pre _ := h.pre_write _
  write := by
    rintro w _ bs r w' rfl hs
    exact h.write hs

/-- The output is all that was written; nothing is read. -/
def collecting : Env (StreamOp.Res (X := X) ε Y) Bytes where
  pre
    | _, .write _ => True
    | _, .flush => True
    | _, .read _ => False
    | _, .ext _ => False
  step
    | w, .write bs, r, w' => r = .ok bs.length ∧ w' = w ++ bs
    | w, .flush, r, w' => r = .ok () ∧ w' = w
    | _, .read _, _, _ => False
    | _, .ext _, _, _ => False

theorem collecting_full : FullWriter (collecting : Env (StreamOp.Res (X := X) ε Y) Bytes) id where
  pre_write _ _ := trivial
  pre_flush _ := trivial
  write h := h
  flush h := h
  read h := h.elim
  ext h := h.elim

/-- In world `w` the reads hand out the bytes `s` with `St w s`, in chunks. -/
structure Feeds {W : Type} (E : Env (StreamOp.Res (X := X) ε Y) W) (St : W → Bytes → Prop) :
    Prop where
  pre : ∀ {w s n}, St w s → 0 < n → E.pre w (.read n)
  chunk : ∀ {w s n r w'}, St w s → s ≠ [] → E.step w (.read n) r w' →
    ∃ c s', s = c ++ s' ∧ c ≠ [] ∧ c.length ≤ n ∧ r = .ok c ∧ St w' s'

/-- In world `w` the reads hand out the bytes `s` with `St w s` as long as there are any; at their
end a read need not be possible. -/
structure FeedsOn {W : Type} (E : Env (StreamOp.Res (X := X) ε Y) W) (St : W → Bytes → Prop) :
    Prop where
  pre : ∀ {w s n}, St w s → s ≠ [] → 0 < n → E.pre w (.read n)
  chunk : ∀ {w s n r w'}, St w s → s ≠ [] → E.step w (.read n) r w' →
    ∃ c s', s = c ++ s' ∧ c ≠ [] ∧ c.length ≤ n ∧ r = .ok c ∧ St w' s'

theorem Feeds.feedsOn {W : Type} {E : Env (StreamOp.Res (X := X) ε Y) W} {St : W → Bytes → Prop}
    (h : Feeds E St) : FeedsOn E St where
  pre hst _ hn := h.pre hst hn
  chunk := h.chunk

/-- The reads of a stream that ends fail there, and leave a world in `F`. -/
structure FeedsThenFails {W : Type} (E : Env (StreamOp.Res (X := X) ε Y) W)
    (St : W → Bytes → Prop) (F : W → Prop) : Prop extends Feeds E St where
  fail : ∀ {w n r w'}, St w [] → E.step w (.read n) r w' → (∃ e, r = .error e) ∧ F w'

theorem chunked_feeds : Feeds (chunked : Env (StreamOp.Res (X := X) ε Y) Bytes) (· = ·) where
  pre _ hn := hn
  chunk := by
    rintro _ s n r w' rfl hs (⟨hw, -, -⟩ | ⟨c, hc, hlen, rfl, rfl⟩)
    · exact absurd hw hs
    · exact ⟨c, w', rfl, hc, hlen, rfl, rfl⟩

/-! ## Readers -/

section

variable {Op : Type} {Res : Op → Type} {R W : Type}

/-- `St r w s`: in reader state `r` and world `w` the bytes `s` are still to be
read. Such a reader hands out `s` from the front, at least one byte at a time. -/
structure Streams (read : Nat → Method Res ε R Bytes) (E : Env Res W)
    (St : R → W → Bytes → Prop) : Prop where
  chunk : ∀ {r w s n}, St r w s → s ≠ [] → 0 < n →
    Always E (succeeds fun c r' w' => ∃ s', s = c ++ s' ∧ c ≠ [] ∧ c.length ≤ n ∧ St r' w' s')
      (read n r) w

/-- Such a reader of a stream at whose end a read fails. -/
structure StreamsThenFails (read : Nat → Method Res ε R Bytes) (E : Env Res W)
    (St : R → W → Bytes → Prop) (F : W → Prop) : Prop extends Streams read E St where
  fail : ∀ {r w n}, St r w [] → 0 < n → Always E (fails fun _ _ w' => F w') (read n r) w

end

end Interaction
