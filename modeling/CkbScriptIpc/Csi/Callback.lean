import CkbScriptIpc.Csi.Packet
import CkbScriptIpc.Supply
import Mathlib.Data.Stream.Init

/-!
# The C library: readers of any kind

A `CSIReader` is a function pointer. Here nothing is known of it but how it answers.

* `csiReadExact_stores`: how far `csi_read_exact` gets, for every length;
* `csiReadExact_exact_iff`: it reads what it was asked for, when an `int` can hold the length;
* `csiReadVlq_faithful_iff`: `csi_read_vlq` tells a field from a failure, unless the reader
  fails inside the field.
-/

namespace CkbScriptIpc

open Interaction

variable {X Y W : Type}

/-- A reader of which the environment decides the answers. -/
structure Callback where
  deriving DecidableEq, Repr

instance : CSIRead Callback where
  read len := fun s => .call (.read len) fun r => .ret (r, s)

/-! ## `csi_read_exact` -/

/-- The world counts the bytes of `σ` that have been delivered. A read asks for at most as
many as are missing of `len`, and gets between one and all of those it asks for. -/
def transferring (σ : Stream' UInt8) (len : Nat) : Env (CsiRes X Y) Nat where
  pre
    | w, .read n => 0 < n ∧ w + n ≤ len
    | _, _ => False
  step
    | w, .read n, r, w' => ∃ k, 0 < k ∧ k ≤ n ∧ r = .ok ((σ.drop w).take k) ∧ w' = w + k
    | _, _, _, _ => False

theorem transferring_answers (σ : Stream' UInt8) (len : Nat) :
    (transferring (X := X) (Y := Y) σ len).Answers := by
  intro w op hpre
  cases op with
  | read n => exact ⟨_, w + 1, 1, Nat.one_pos, hpre.1, rfl, rfl⟩
  | _ => exact hpre.elim

/-- What `csi_read_exact` has to do: from every reader it stores exactly the next `len` bytes
at `buf`, in order, and never asks for more than are missing. -/
def ReadsExactly (len : Nat) : Prop :=
  ∀ (σ : Stream' UInt8) (buf : Nat) (s : CSI Callback Unit Unit),
    Always (transferring (X := Unit) (Y := Unit) σ len)
      (succeeds fun _ s' w' => w' = len ∧ load s'.memory buf len = σ.take len)
      (csiReadExact buf len s) 0

/-- The length that an `int` makes of `len`, where it is positive. -/
def intLen (len : Nat) : Nat := ((len : Int).bmod (2 ^ 32)).toNat

theorem bmod_bounds (len : Nat) :
    (len : Int).bmod (2 ^ 32) ≤ len ∧ (len : Int).bmod (2 ^ 32) < (2 ^ 31 : Nat) := by
  rw [Int.bmod]
  omega

theorem intLen_le (len : Nat) : intLen len ≤ len := by
  have h := (bmod_bounds len).1
  unfold intLen
  omega

theorem intLen_lt (len : Nat) : intLen len < 2 ^ 31 := by
  have h := (bmod_bounds len).2
  unfold intLen
  omega

theorem intLen_eq_iff {len : Nat} : intLen len = len ↔ len < 2 ^ 31 := by
  constructor
  · intro h
    have hlt := intLen_lt len
    rwa [h] at hlt
  · intro h
    unfold intLen
    rw [bmod_of_lt h]
    exact Int.toNat_natCast len

section

variable {σ : Stream' UInt8} {len : Nat}

theorem take_add (w k : Nat) : σ.take w ++ (σ.drop w).take k = σ.take (w + k) := by
  induction k with
  | zero => simp
  | succ k ih =>
    rw [Stream'.take_succ', Stream'.get_drop, ← List.append_assoc, ih, ← Nat.add_assoc,
      Stream'.take_succ']

/-- A read of bytes that are missing gets some of them. -/
theorem transferring_read {w n : Nat} (hpos : 0 < n) (hn : w + n ≤ len) (r : Callback) :
    Always (transferring (X := X) (Y := Y) σ len) (succeeds fun c _ w' =>
      c ≠ [] ∧ c.length ≤ n ∧ σ.take w ++ c = σ.take w' ∧ w' = w + c.length)
      (CSIRead.read n r) w := by
  refine .call ⟨hpos, hn⟩ ?_
  rintro _ w' ⟨k, hk, hkn, rfl, rfl⟩
  have hlen : ((σ.drop w).take k).length = k := Stream'.length_take _ _
  refine .ret ⟨?_, by rwa [hlen], take_add w k, by rw [hlen]⟩
  rw [← List.length_pos_iff, hlen]
  exact hk

/-- **How far `csi_read_exact` gets.** It returns 0 with as many bytes stored as the `int` says
that was made of the length; when that is not positive, with none. -/
theorem csiReadExact_stores (σ : Stream' UInt8) (buf len : Nat) (s : CSI Callback Unit Unit) :
    Always (transferring (X := X) (Y := Y) σ len)
      (succeeds fun _ s' w' => w' = intLen len ∧
        load s'.memory buf (intLen len) = σ.take (intLen len))
      (csiReadExact buf len s) 0 := by
  rw [csiReadExact]
  by_cases hpos : (len : Int).bmod (2 ^ 32) > 0
  · have hint : (len : Int).bmod (2 ^ 32) = ((intLen len - 0 : Nat) : Int) := by
      unfold intLen
      omega
    rw [hint]
    refine (csiReadExact_collect (o := []) (J := fun _ w o => o = σ.take w)
      (intLen_lt len) ?_ (Nat.zero_le _) rfl rfl).mono (succeeds_mono ?_)
    · rintro r w o rfl hw
      have hle := intLen_le len
      rw [Stream'.length_take] at hw ⊢
      refine (transferring_read (by omega) (by omega) r).mono (succeeds_mono ?_)
      rintro c _ w' ⟨hne, hfits, htake, -⟩
      exact ⟨hne, hfits, htake⟩
    · rintro _ _ w' ⟨_, m, _, rfl, rfl, hlen, hload⟩
      rw [Stream'.length_take] at hlen
      rw [hlen] at hload
      exact ⟨hlen, hload⟩
  · have hzero : intLen len = 0 := Int.toNat_of_nonpos (Int.not_lt.mp hpos)
    apply always_iter
    rw [csiReadExactTurn, hzero]
    simp only [hpos, ↓reduceIte]
    exact .ret ⟨rfl, rfl⟩

end

/-- A length that is read exactly survives the conversion to an `int`. -/
theorem ReadsExactly.intLen_eq {len : Nat} (h : ReadsExactly len) : intLen len = len := by
  have hread := h (Stream'.const 0) 0 ⟨⟨⟩, (), (), fun _ => 0⟩
  have hstores := csiReadExact_stores (X := Unit) (Y := Unit) (Stream'.const 0) 0 len
    ⟨⟨⟩, (), (), fun _ => 0⟩
  obtain ⟨o, w', -, hexact, hint⟩ := (hread.and hstores).exists_ends (transferring_answers _ _)
  obtain ⟨⟨_ | _, s'⟩⟩ | _ := o
  · exact hexact.elim
  · exact hint.1.symm.trans hexact.1
  · exact hexact.elim

/-- **`csi_read_exact` reads exactly what it was asked for** when an `int` can hold the length,
and never otherwise. -/
theorem csiReadExact_exact_iff (len : UInt64) :
    ReadsExactly len.toNat ↔ len.toNat < 2 ^ 31 := by
  constructor
  · intro h
    exact intLen_eq_iff.mp h.intLen_eq
  · intro h σ buf s
    have hstores := csiReadExact_stores (X := Unit) (Y := Unit) σ buf len.toNat s
    rwa [intLen_eq_iff.mpr h] at hstores

/-- Of `2 ^ 31` bytes none is read, and 0 is returned. -/
theorem half_range_unread :
    (∃ s', Ends (transferring (X := Unit) (Y := Unit) (Stream'.const 7) (2 ^ 31))
      (csiReadExact 4096 (2 ^ 31) (⟨⟨⟩, (), (), fun _ => 0⟩ : CSI Callback Unit Unit)) 0
      (.ret (.ok (), s')) 0) ∧
    ¬ ReadsExactly (2 ^ 31) := by
  have hzero : intLen (2 ^ 31) = 0 := by decide
  constructor
  · obtain ⟨o, w', hends, hpost⟩ := (csiReadExact_stores (X := Unit) (Y := Unit)
      (Stream'.const 7) 4096 (2 ^ 31) ⟨⟨⟩, (), (), fun _ => 0⟩).exists_ends
        (transferring_answers _ _)
    obtain ⟨⟨_ | _, s'⟩⟩ | _ := o
    · exact hpost.elim
    · obtain rfl : w' = 0 := hpost.1.trans hzero
      exact ⟨s', hends⟩
    · exact hpost.elim
  · intro h
    have hlen := h.intLen_eq
    rw [hzero] at hlen
    exact absurd hlen (by decide)

/-! ## `csi_read_vlq` -/

/-- `σ` answers each read with the next byte or with a failure; the world counts the reads. -/
def responding (σ : Stream' (Except Code UInt8)) : Env (CsiRes X Y) Nat where
  pre
    | _, .read n => 0 < n
    | _, _ => False
  step
    | w, .read _, r, w' => r = (σ.get w).map ([·]) ∧ w' = w + 1
    | _, _, _, _ => False

theorem responding_answers (σ : Stream' (Except Code UInt8)) :
    (responding (X := X) (Y := Y) σ).Answers := by
  intro w op hpre
  cases op with
  | read n => exact ⟨_, _, rfl, rfl⟩
  | _ => exact hpre.elim

/-- The bytes that are delivered, and nothing for a read that fails. -/
def delivered (σ : Stream' (Except Code UInt8)) : Nat → Option UInt8 := fun i => (σ.get i).toOption

/-- The reader fails on one of its first eleven reads, before a byte with a clear high bit. -/
def FailsInField (σ : Stream' (Except Code UInt8)) : Prop :=
  ∃ bs e, bs.length ≤ maxVlqLen ∧ (∀ d ∈ bs, d &&& 0x80 ≠ 0) ∧ Supplies (delivered σ) bs ∧
    σ.get bs.length = .error e

/-- What `csi_read_vlq` has to return, as `r`, with `k` reads. -/
structure VlqRead (σ : Stream' (Except Code UInt8)) (r : Except Code UInt64) (k : Nat) :
    Prop where
  returns_zero : (∃ v, r = .ok v) ↔
    ∃ bs, Terminated bs ∧ bs.length ≤ maxVlqLen ∧ Supplies (delivered σ) bs
  value : ∀ {v bs}, r = .ok v → Terminated bs → bs.length ≤ maxVlqLen → Supplies (delivered σ) bs →
    csiVlqDecode bs = .ok (v, bs.length) ∧ k = bs.length
  failure : ∀ {bs e}, bs.length ≤ maxVlqLen → (∀ d ∈ bs, d &&& 0x80 ≠ 0) →
    Supplies (delivered σ) bs → σ.get bs.length = .error e → r = .error e
  bounded : k ≤ maxVlqLen + 1

/-- Every run of `csi_read_vlq` returns what it has to; `value` is what `*value` holds before. -/
def ReadsVlq (σ : Stream' (Except Code UInt8)) (value : UInt64) : Prop :=
  Always (responding (X := Unit) (Y := Unit) σ)
    (resolves (fun v _ k => VlqRead σ (.ok v) k) fun e _ k => VlqRead σ (.error e) k)
    (csiReadVlq value (⟨⟩ : Callback)) 0

section

variable {σ : Stream' (Except Code UInt8)} {bs : Bytes} {e : Code} {i : Nat}

theorem delivered_eq_some {b : UInt8} : delivered σ i = some b ↔ σ.get i = .ok b := by
  unfold delivered
  cases σ.get i <;> simp [Except.toOption]

theorem delivered_eq_none : delivered σ i = none ↔ ∃ e, σ.get i = .error e := by
  unfold delivered
  cases σ.get i <;> simp [Except.toOption]

theorem responding_streams (σ : Stream' (Except Code UInt8)) (m : Nat) :
    Streams CSIRead.read (responding (X := X) (Y := Y) σ)
      fun (_ : Callback) => Upcoming (delivered σ) m where
  chunk := by
    rintro r w s n hs hne hn
    obtain ⟨b, s, rfl⟩ := List.exists_cons_of_ne_nil hne
    obtain ⟨hb, hs'⟩ := hs.next
    refine .call hn ?_
    rintro _ w' ⟨rfl, rfl⟩
    rw [delivered_eq_some.mp hb]
    exact .ret ⟨s, rfl, by simp, hn, hs'⟩

theorem responding_fails {m : Nat} (he : σ.get m = .error e) :
    StreamsThenFails CSIRead.read (responding (X := X) (Y := Y) σ)
      (fun (_ : Callback) => Upcoming (delivered σ) m) fun w => w = m + 1 where
  chunk := (responding_streams σ m).chunk
  fail := by
    rintro r w n ⟨hlen, -⟩ hn
    obtain rfl : w = m := hlen
    refine .call hn ?_
    rintro _ w' ⟨rfl, rfl⟩
    rw [he]
    exact .ret rfl

theorem Terminated.decodes (h : Terminated bs) (hlen : bs.length ≤ maxVlqLen) :
    ∃ v, field bs = .ok (v, []) ∧ csiVlqDecode bs = .ok (v, bs.length) := by
  obtain ⟨q, b, rfl, hq, hb⟩ := h
  rw [List.length_append, List.length_singleton] at hlen
  obtain ⟨v, hv, hdec⟩ := field_short (t := []) hlen hq hb
  have hsplit := splitVlq_closed hq hb []
  rw [List.append_nil] at hsplit
  exact ⟨v, hv, by rw [csiVlqDecode_eq, hdec, hsplit]⟩

/-- A terminated sequence is read, and no byte more. -/
theorem csiReadVlq_terminated (h : Terminated bs) (hlen : bs.length ≤ maxVlqLen)
    (hd : Supplies (delivered σ) bs) (value : UInt64) :
    Always (responding (X := X) (Y := Y) σ) (succeeds fun v _ k =>
      csiVlqDecode bs = .ok (v, bs.length) ∧ k = bs.length)
      (csiReadVlq value (⟨⟩ : Callback)) 0 := by
  obtain ⟨v, hfield, hdec⟩ := h.decodes hlen
  refine (csiReadVlq_ok (responding_streams σ bs.length) (upcoming_all hd) hfield value).mono
    (succeeds_mono ?_)
  rintro _ _ k ⟨rfl, hk, -⟩
  exact ⟨hdec, hk⟩

/-- Ten bytes that ask for more, and an eleventh, are an error. -/
theorem csiReadVlq_unterminated {q : Bytes} {b : UInt8} (hlen : q.length = maxVlqLen)
    (hq : ∀ d ∈ q, d &&& 0x80 ≠ 0) (hd : Supplies (delivered σ) (q ++ [b])) (value : UInt64) :
    Always (responding (X := X) (Y := Y) σ) (fails fun _ _ k => k ≤ maxVlqLen + 1)
      (csiReadVlq value (⟨⟩ : Callback)) 0 := by
  have hlong : (q ++ [b]).length = maxVlqLen + 1 := by
    rw [List.length_append, hlen, List.length_singleton]
  refine csiReadVlq_tooLong (responding_streams σ _) ?_ (upcoming_all hd)
    (field_long (t := []) hlen hq) ?_ value
  · rintro _ w s ⟨hw, -⟩
    omega
  · rintro ⟨hle, -⟩
    omega

end

/-- A failure inside a field comes back as 0. -/
theorem FailsInField.returns_zero {σ : Stream' (Except Code UInt8)} (h : FailsInField σ)
    (value : UInt64) :
    Always (responding (X := X) (Y := Y) σ) (succeeds fun v _ _ => v = value)
      (csiReadVlq value (⟨⟩ : Callback)) 0 := by
  obtain ⟨bs, e, hlen, hopen, hd, he⟩ := h
  refine (csiReadVlq_refused (responding_fails he) (upcoming_all hd) hlen hopen value).mono
    (succeeds_mono ?_)
  rintro v _ k ⟨hv, -⟩
  exact hv

theorem FailsInField.not_reads {σ : Stream' (Except Code UInt8)} (h : FailsInField σ)
    (value : UInt64) : ¬ ReadsVlq σ value := by
  intro hreads
  obtain ⟨o, k, -, hread, hzero⟩ :=
    (hreads.and (h.returns_zero value)).exists_ends (responding_answers σ)
  obtain ⟨bs, e, hlen, hopen, hd, he⟩ := h
  obtain ⟨⟨_ | v, _⟩⟩ | _ := o
  · exact hzero.elim
  · exact nomatch hread.failure hlen hopen hd he
  · exact hzero.elim

/-- **`csi_read_vlq` succeeds on fields and on nothing else**, and hands on the failures of the
reader, unless the reader fails inside a field. -/
theorem csiReadVlq_faithful_iff (σ : Stream' (Except Code UInt8)) (value : UInt64) :
    ReadsVlq σ value ↔ ¬ FailsInField σ := by
  constructor
  · exact fun h hfails => hfails.not_reads value h
  · intro hfails
    rcases supply_shapes (delivered σ) maxVlqLen with ⟨bs, hterm, hten, hd⟩ |
      ⟨q, hlen, hq, hd, hnone⟩ | ⟨q, b, hlen, hq, hd⟩
    · refine (csiReadVlq_terminated hterm hten hd value).mono fun o k ho =>
        resolves_of_succeeds o k (succeeds_mono ?_ o k ho)
      rintro v _ k ⟨hdec, rfl⟩
      refine ⟨⟨fun _ => ⟨_, hterm, hten, hd⟩, fun _ => ⟨v, rfl⟩⟩, ?_, ?_, by omega⟩
      · rintro _ bs' ⟨⟩ hterm' - hd'
        rw [← hterm.eq hterm' hd hd']
        exact ⟨hdec, rfl⟩
      · intro bs e hlen' hopen hd' he
        exact absurd ⟨bs, e, hlen', hopen, hd', he⟩ hfails
    · obtain ⟨e, he⟩ := delivered_eq_none.mp hnone
      exact absurd ⟨q, e, hlen, hq, hd, he⟩ hfails
    · refine (csiReadVlq_unterminated hlen hq hd value).mono fun o k ho =>
        resolves_of_fails o k (fails_mono ?_ o k ho)
      rintro e _ k hk
      refine ⟨⟨?_, ?_⟩, ?_, ?_, hk⟩
      · rintro ⟨v, hv⟩
        cases hv
      · rintro ⟨bs, hterm, hten, hd'⟩
        have hlt := hterm.longer hd' (supplies_left hd) hq
        omega
      · rintro v bs ⟨⟩
      · intro bs e hlen' hopen hd' he
        exact absurd ⟨bs, e, hlen', hopen, hd', he⟩ hfails

/-- Where the other end is closed, 0 is returned for a field of which no byte was read. -/
theorem closed_end_succeeds :
    (∃ k, Ends (responding (X := Unit) (Y := Unit) (Stream'.const (.error otherEndClosed)))
      (csiReadVlq 5 (⟨⟩ : Callback)) 0 (.ret (.ok 5, ⟨⟩)) k) ∧
    ¬ ReadsVlq (Stream'.const (.error otherEndClosed)) 5 := by
  have hfails : FailsInField (Stream'.const (.error otherEndClosed)) :=
    ⟨[], otherEndClosed, Nat.zero_le _, by simp, supplies_nil _, rfl⟩
  constructor
  · obtain ⟨o, k, hends, hzero⟩ := (hfails.returns_zero (X := Unit) (Y := Unit) 5).exists_ends
      (responding_answers _)
    obtain ⟨⟨_ | v, _⟩⟩ | _ := o
    · exact hzero.elim
    · obtain rfl : v = 5 := hzero
      exact ⟨k, hends⟩
    · exact hzero.elim
  · exact hfails.not_reads 5

end CkbScriptIpc
