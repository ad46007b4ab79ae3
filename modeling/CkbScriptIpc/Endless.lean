import CkbScriptIpc.Csi.Vlq
import CkbScriptIpc.Supply
import Mathlib.Data.Seq.Defs

/-!
# Streams without end

`read_next_vlq` on every stream of bytes, finite or not, with a reader of single bytes.

* `readNextVlq_consumes`: how much is read at least, in a run that ends;
* `readNextVlq_stops_iff`: the streams on which the loop stops within the bytes that a number
  can have, as it does in the C library.
-/

namespace CkbScriptIpc

open Interaction

variable {X Y W : Type}

/-- The bytes of `σ` are read one by one, and at its end a read gives none. The world counts
the bytes that have been consumed. -/
def supplying (σ : Stream'.Seq UInt8) : Env (IoRes X Y) Nat where
  pre
    | _, .read n => 0 < n
    | _, _ => False
  step
    | w, .read _, r, w' =>
      (∃ b, σ.get? w = some b ∧ r = .ok [b] ∧ w' = w + 1) ∨
        σ.get? w = none ∧ r = .ok [] ∧ w' = w
    | _, _, _, _ => False

theorem supplying_answers (σ : Stream'.Seq UInt8) :
    (supplying (X := X) (Y := Y) σ).Answers := by
  intro w op hpre
  cases op with
  | read n =>
    cases h : σ.get? w with
    | none => exact ⟨_, _, .inr ⟨h, rfl, rfl⟩⟩
    | some b => exact ⟨_, _, .inl ⟨b, h, rfl, rfl⟩⟩
  | _ => exact hpre.elim

/-- The stream begins with ten bytes that ask for more. -/
def LongField (σ : Stream'.Seq UInt8) : Prop :=
  ∀ i < maxVlqLen, ∃ b, σ.get? i = some b ∧ b &&& 0x80 ≠ 0

/-- Every run of `read_next_vlq` returns, with at most eleven bytes consumed, and ten bytes that
ask for more are an error, for which at most `limit` bytes are consumed. -/
def ReadStops (limit : Nat) (σ : Stream'.Seq UInt8) : Prop :=
  Always (supplying (X := Unit) (Y := Unit) σ)
    (resolves (fun _ _ k => k ≤ maxVlqLen + 1 ∧ ¬ LongField σ)
      fun _ _ k => k ≤ maxVlqLen + 1 ∧ (LongField σ → k ≤ limit))
    (readNextVlq (⟨⟩ : Source)) 0

/-- One of the first `n` bytes has a clear high bit, or the stream has no more than `n` bytes. -/
def EndsWithin (n : Nat) (σ : Stream'.Seq UInt8) : Prop :=
  (∃ i < n, ∃ b, σ.get? i = some b ∧ b &&& 0x80 = 0) ∨ σ.get? n = none

section

variable {σ : Stream'.Seq UInt8} {n m : Nat}

/-! ## Streams on which the loop stops -/

theorem supplying_delivers (σ : Stream'.Seq UInt8) (m : Nat) :
    Delivers (supplying (X := X) (Y := Y) σ) fun (_ : Source) => Upcoming σ.get? m where
  chunk := by
    rintro r w s n hs hne hn
    obtain ⟨b, s, rfl⟩ := List.exists_cons_of_ne_nil hne
    obtain ⟨hb, hs'⟩ := hs.next
    refine .call hn ?_
    rintro _ w' (⟨b', hb', rfl, rfl⟩ | ⟨hnone, -, -⟩)
    · obtain rfl : b = b' := Option.some.inj (hb.symm.trans hb')
      exact .ret ⟨s, rfl, by simp, hn, hs'⟩
    · rw [hb] at hnone
      cases hnone

theorem supplying_deliversAll (h : σ.get? m = none) :
    DeliversAll (supplying (X := X) (Y := Y) σ) fun (_ : Source) => Upcoming σ.get? m where
  chunk := (supplying_delivers σ m).chunk
  eof := by
    rintro r w n ⟨hlen, hs⟩ hn
    obtain rfl : w = m := hlen
    refine .call hn ?_
    rintro _ w' (⟨b, hb, -, -⟩ | ⟨-, rfl, rfl⟩)
    · rw [h] at hb
      cases hb
    · exact .ret ⟨rfl, rfl, hs⟩

/-- A terminated sequence is read, and no byte more. -/
theorem readNextVlq_terminated {bs : Bytes} (h : Terminated bs) (hs : Supplies σ.get? bs) :
    Always (supplying (X := X) (Y := Y) σ)
      (resolves (fun v _ k => vlqDecode bs = .ok v ∧ k = bs.length) fun _ _ k => k = bs.length)
      (readNextVlq (⟨⟩ : Source)) 0 := by
  obtain ⟨q, b, rfl, hq, hb⟩ := h
  have hsplit := splitVlq_closed hq hb []
  rw [List.append_nil] at hsplit
  have hgo := readNextVlq_go (X := X) (Y := Y) (supplying_delivers σ (q ++ [b]).length)
    (upcoming_all hs) (r := ⟨⟩) (.inl ⟨b, by simp, hb⟩) []
  rw [hsplit] at hgo
  apply always_seq_ok hgo
  rintro _ r' k ⟨rfl, hk, -⟩
  rw [List.nil_append]
  cases hd : vlqDecode (q ++ [b]) with
  | ok v => exact .ret ⟨rfl, hk⟩
  | error e => exact .ret hk

/-- A stream that ends before a number does is an error. -/
theorem readNextVlq_cut {q : Bytes} (hq : ∀ d ∈ q, d &&& 0x80 ≠ 0) (hs : Supplies σ.get? q)
    (hend : σ.get? q.length = none) :
    Always (supplying (X := X) (Y := Y) σ) (fails fun _ _ k => k ≤ q.length)
      (readNextVlq (⟨⟩ : Source)) 0 := by
  obtain ⟨e, he⟩ := field_open hq
  refine (readNextVlq_err (supplying_deliversAll hend) (upcoming_all hs) he).mono (fails_mono ?_)
  rintro _ _ k ⟨-, s, hk, -⟩
  omega

/-! ## Streams on which it reads on -/

/-- What one read of a byte does. -/
theorem supplying_read (k : Nat) :
    Safely (supplying (X := X) (Y := Y) σ) (fun _ => True) (succeeds fun c _ k' =>
      (∃ b, σ.get? k = some b ∧ c = [b] ∧ k' = k + 1) ∨ σ.get? k = none ∧ c = [] ∧ k' = k)
      (Read.read 1 (⟨⟩ : Source)) k := by
  refine safely_call trivial fun r k' hs => ?_
  rcases hs with ⟨b, hb, rfl, rfl⟩ | ⟨hnone, rfl, rfl⟩
  · exact safely_ret trivial (.inl ⟨b, hb, rfl, rfl⟩)
  · exact safely_ret trivial (.inr ⟨hnone, rfl, rfl⟩)

/-- **The loop reads on.** Behind `n` bytes that ask for more, where there is another one, no run
ends that has not consumed that one. -/
theorem readNextVlq_consumes (hopen : ∀ i < n, ∃ b, σ.get? i = some b ∧ b &&& 0x80 ≠ 0)
    (hmore : σ.get? n ≠ none) :
    Safely (supplying (X := X) (Y := Y) σ) (fun _ => True) (fun _ k => n < k)
      (readNextVlq (⟨⟩ : Source)) 0 := by
  refine safely_seq ((safely_iter (Q := fun _ k => n < k) (fun _ _ _ => True) ?_ trivial).mono
    (fun _ hi => hi) ?_)
  · rintro buf ⟨⟩ k -
    refine safely_seq_ok (safely_mapErr_ok (supplying_read k)) ?_
    rintro c r k' (⟨b, hb, rfl, rfl⟩ | ⟨hnone, rfl, rfl⟩)
    · by_cases hclear : b &&& 0x80 = 0
      · simp only [hclear, ↓reduceIte]
        refine safely_ret trivial (Nat.lt_succ_of_le (Nat.le_of_not_lt fun hk => ?_))
        obtain ⟨b', hb', hset⟩ := hopen k hk
        obtain rfl : b = b' := Option.some.inj (hb.symm.trans hb')
        exact hset hclear
      · simp only [hclear, ↓reduceIte]
        exact safely_ret trivial trivial
    · refine safely_ret trivial (Nat.lt_of_not_le fun hk => hmore ?_)
      exact σ.le_stable hk hnone
  · rintro (⟨e | buf, r⟩ | _) k - hk
    · exact safely_ret trivial hk
    · show Safely _ _ _ (Method.ofExcept (vlqDecode buf) r) k
      cases vlqDecode buf <;> exact safely_ret trivial hk
    · exact safely_panic trivial hk

/-! ## When the loop stops -/

theorem open_of_not_endsWithin (h : ¬ EndsWithin n σ) :
    (∀ i < n, ∃ b, σ.get? i = some b ∧ b &&& 0x80 ≠ 0) ∧ σ.get? n ≠ none := by
  refine ⟨fun i hi => ?_, fun hnone => h (.inr hnone)⟩
  cases hb : σ.get? i with
  | none => exact absurd (.inr (σ.le_stable (Nat.le_of_lt hi) hb)) h
  | some b => exact ⟨b, rfl, fun hclear => h (.inl ⟨i, hi, b, hb, hclear⟩)⟩

/-- A loop that stops at the limit has an end within it. -/
theorem ReadStops.endsWithin {limit : Nat} (hlow : maxVlqLen ≤ limit) (h : ReadStops limit σ) :
    EndsWithin limit σ := by
  refine Classical.byContradiction fun hends => ?_
  obtain ⟨hopen, hmore⟩ := open_of_not_endsWithin hends
  have hlong : LongField σ := fun i hi => hopen i (Nat.lt_of_lt_of_le hi hlow)
  obtain ⟨o, k, hrun, hpost⟩ := Always.exists_ends (supplying_answers σ) h
  have hk : limit < k := (readNextVlq_consumes hopen hmore _ _ hrun).2 o rfl
  obtain ⟨⟨_ | _, _⟩⟩ | _ := o
  · exact Nat.lt_irrefl k (Nat.lt_of_le_of_lt (hpost.2 hlong) hk)
  · exact hpost.2 hlong
  · exact hpost

/-- What begins with ten bytes that ask for more does not decode. -/
theorem LongField.overflows {bs : Bytes} (h : LongField σ) (hterm : Terminated bs)
    (hs : Supplies σ.get? bs) : vlqDecode bs = .error .decodeVlqOverflow := by
  obtain ⟨q, b, rfl, hq, hb⟩ := hterm
  have hlong : 10 ≤ q.length := by
    refine Nat.le_of_not_lt fun hlt => ?_
    obtain ⟨b', hb', hset⟩ := h q.length hlt
    obtain rfl : b = b' := Option.some.inj ((supplies_last hs).symm.trans hb')
    exact hset hb
  exact vlqDecodeLoop_long hq [b] 0 (by omega) (by omega)

theorem EndsWithin.readStops {limit : Nat} (hhigh : limit ≤ maxVlqLen + 1)
    (h : EndsWithin limit σ) : ReadStops limit σ := by
  rcases supply_shapes σ.get? limit with ⟨bs, hterm, hlen, hs⟩ | ⟨q, hlen, hq, hs, hnone⟩ |
    ⟨q, b, hlen, hq, hs⟩
  · refine (readNextVlq_terminated hterm hs).mono (resolves_mono ?_ ?_)
    · rintro v _ k ⟨hdec, rfl⟩
      refine ⟨Nat.le_trans hlen hhigh, fun hlong => ?_⟩
      rw [hlong.overflows hterm hs] at hdec
      cases hdec
    · rintro _ _ k rfl
      exact ⟨Nat.le_trans hlen hhigh, fun _ => hlen⟩
  · refine (readNextVlq_cut hq hs hnone).mono fun o k ho =>
      resolves_of_fails o k (fails_mono ?_ o k ho)
    rintro _ _ k hk
    have hlimit : k ≤ limit := Nat.le_trans hk hlen
    exact ⟨Nat.le_trans hlimit hhigh, fun _ => hlimit⟩
  -- a stream of the third shape goes on behind the limit
  · exfalso
    rcases h with ⟨i, hi, b', hb', hclear⟩ | hnone
    · have hget := supplies_left hs i (hlen ▸ hi)
      obtain rfl : q[i] = b' := Option.some.inj (hget.symm.trans hb')
      exact hq _ (List.getElem_mem _) hclear
    · have hlast := supplies_last hs
      rw [hlen, hnone] at hlast
      cases hlast

end

/-- **`read_next_vlq` stops** when the stream has an end, or a byte with a clear high bit, within
eleven bytes, and otherwise it does not. If ten bytes that ask for more must be refused without
an eleventh, the same holds of ten bytes. -/
theorem readNextVlq_stops_iff (σ : Stream'.Seq UInt8) :
    (ReadStops (maxVlqLen + 1) σ ↔ EndsWithin (maxVlqLen + 1) σ) ∧
    (ReadStops maxVlqLen σ ↔ EndsWithin maxVlqLen σ) :=
  ⟨⟨ReadStops.endsWithin (Nat.le_succ _), EndsWithin.readStops (Nat.le_refl _)⟩,
    ⟨ReadStops.endsWithin (Nat.le_refl _), EndsWithin.readStops (Nat.le_succ _)⟩⟩

/-- From endless bytes `80` no run ever returns. -/
theorem endless_bytes_never_stop :
    (∀ o k, ¬ Ends (supplying (X := Unit) (Y := Unit) (.ofStream (Stream'.const 0x80)))
      (readNextVlq (⟨⟩ : Source)) 0 o k) ∧
    ¬ ReadStops (maxVlqLen + 1) (.ofStream (Stream'.const 0x80)) := by
  have hget : ∀ i, (Stream'.Seq.ofStream (Stream'.const (0x80 : UInt8))).get? i = some 0x80 :=
    fun _ => rfl
  constructor
  · intro o k hrun
    have hk : k < k := (readNextVlq_consumes (fun i _ => ⟨0x80, hget i, by decide⟩)
      (by rw [hget]; simp) _ _ hrun).2 o rfl
    exact Nat.lt_irrefl k hk
  · intro h
    rcases h.endsWithin (Nat.le_succ _) with ⟨i, -, b, hb, hclear⟩ | hnone
    · rw [hget] at hb
      cases hb
      exact absurd hclear (by decide)
    · rw [hget] at hnone
      cases hnone

end CkbScriptIpc
