import CkbScriptIpc.Receiving

/-!
# Text in responses

`String::from_utf8_lossy` and UTF-8, and what `receive_json_response` makes of a payload.

* `fromUtf8Lossy_eq_iff`: the conversion keeps exactly the bytes that are valid UTF-8;
* `receiveJson_lossless_iff`: so a payload is received without loss, or refused, exactly when it
  is valid.
-/

namespace CkbScriptIpc

open Interaction

/-- The bytes encode some characters. -/
def ValidUtf8 (bs : Bytes) : Prop := ∃ cs : List Char, bs = cs.flatMap String.utf8EncodeChar

theorem validUtf8_nil : ValidUtf8 [] := ⟨[], rfl⟩

theorem validUtf8_char (c : Char) {bs : Bytes} (h : ValidUtf8 bs) :
    ValidUtf8 (String.utf8EncodeChar c ++ bs) := by
  obtain ⟨cs, rfl⟩ := h
  exact ⟨c :: cs, List.flatMap_cons.symm⟩

/-! ## Characters and their ranges -/

/-- A byte within a range of `utf8Tail`. -/
def Within (range : UInt8 × UInt8) (b : UInt8) : Prop := range.1 ≤ b ∧ b ≤ range.2

theorem within_iff {lo hi b : UInt8} :
    Within (lo, hi) b ↔ lo.toNat ≤ b.toNat ∧ b.toNat ≤ hi.toNat := by
  rw [Within, UInt8.le_iff_toNat_le, UInt8.le_iff_toNat_le]

/-- The table, with numbers. -/
theorem utf8Tail_eq (b : UInt8) : utf8Tail b =
    if b.toNat ≤ 0x7F then some []
    else if b.toNat < 0xC2 then none
    else if b.toNat ≤ 0xDF then some [(0x80, 0xBF)]
    else if b.toNat = 0xE0 then some [(0xA0, 0xBF), (0x80, 0xBF)]
    else if b.toNat = 0xED then some [(0x80, 0x9F), (0x80, 0xBF)]
    else if b.toNat ≤ 0xEF then some [(0x80, 0xBF), (0x80, 0xBF)]
    else if b.toNat = 0xF0 then some [(0x90, 0xBF), (0x80, 0xBF), (0x80, 0xBF)]
    else if b.toNat ≤ 0xF3 then some [(0x80, 0xBF), (0x80, 0xBF), (0x80, 0xBF)]
    else if b.toNat = 0xF4 then some [(0x80, 0x8F), (0x80, 0xBF), (0x80, 0xBF)]
    else none := by
  simp only [utf8Tail, UInt8.le_iff_toNat_le, UInt8.lt_iff_toNat_lt, ← UInt8.toNat_inj]
  rfl

/-- The code points that a character can have. -/
theorem char_valid (c : Char) :
    c.val.toNat < 0xD800 ∨ 0xDFFF < c.val.toNat ∧ c.val.toNat < 0x110000 :=
  c.valid

theorem toNat_byte {n : Nat} (h : n < 256) : (UInt8.ofNat n).toNat = n :=
  UInt8.toNat_ofNat_of_lt' h

/-- The range of a byte that continues a character, in general. -/
abbrev anyTail : UInt8 × UInt8 := (0x80, 0xBF)

/-- The lines of the table. -/
inductive Leads (b : UInt8) : List (UInt8 × UInt8) → Prop
  | one : b.toNat ≤ 0x7F → Leads b []
  | two : 0xC2 ≤ b.toNat → b.toNat ≤ 0xDF → Leads b [anyTail]
  | e0 : b.toNat = 0xE0 → Leads b [(0xA0, 0xBF), anyTail]
  | ed : b.toNat = 0xED → Leads b [(0x80, 0x9F), anyTail]
  | three : 0xE1 ≤ b.toNat → b.toNat ≤ 0xEF → b.toNat ≠ 0xED → Leads b [anyTail, anyTail]
  | f0 : b.toNat = 0xF0 → Leads b [(0x90, 0xBF), anyTail, anyTail]
  | four : 0xF1 ≤ b.toNat → b.toNat ≤ 0xF3 → Leads b [anyTail, anyTail, anyTail]
  | f4 : b.toNat = 0xF4 → Leads b [(0x80, 0x8F), anyTail, anyTail]

theorem utf8Tail_iff {b : UInt8} {owed : List (UInt8 × UInt8)} :
    utf8Tail b = some owed ↔ Leads b owed := by
  rw [utf8Tail_eq]
  constructor
  · intro h
    grind [Leads.one, Leads.two, Leads.e0, Leads.ed, Leads.three, Leads.f0, Leads.four, Leads.f4]
  · intro h
    cases h <;> grind

theorem within_byte (lo hi : Nat) {n : Nat} (hhi : hi < 256) (h : lo ≤ n ∧ n ≤ hi) :
    Within (UInt8.ofNat lo, UInt8.ofNat hi) (UInt8.ofNat n) := by
  rw [within_iff, toNat_byte (by omega), toNat_byte (by omega), toNat_byte (by omega)]
  exact h

theorem within_any {n : Nat} (h : n < 64) : Within anyTail (UInt8.ofNat (n + 0x80)) :=
  within_byte 0x80 0xBF (by decide) (by omega)

/-- A character of the bytes `b :: tail`: the table has the ranges of the tail. -/
def Utf8Char (bs : Bytes) : Prop :=
  ∃ b tail owed, bs = b :: tail ∧ utf8Tail b = some owed ∧ List.Forall₂ Within owed tail

/-- **The encoding of a character fits the table.** -/
theorem utf8EncodeChar_fits (c : Char) : Utf8Char (String.utf8EncodeChar c) := by
  have hv := char_valid c
  unfold String.utf8EncodeChar
  generalize c.val.toNat = v at hv ⊢
  simp only
  have hlow : v % 64 < 64 := Nat.mod_lt _ (by decide)
  have hmid : v / 64 % 64 < 64 := Nat.mod_lt _ (by decide)
  have hhigh : v / 4096 % 64 < 64 := Nat.mod_lt _ (by decide)
  split
  · refine ⟨_, [], [], rfl, utf8Tail_iff.mpr (.one ?_), .nil⟩
    rw [toNat_byte (by omega)]
    omega
  split
  · refine ⟨_, _, _, rfl, utf8Tail_iff.mpr (.two ?_ ?_),
      .cons (within_any hlow) .nil⟩
    · rw [toNat_byte (by omega)]
      omega
    · rw [toNat_byte (by omega)]
      omega
  split
  -- three bytes, of which the first may restrict the second
  · have hfirst : (UInt8.ofNat (v / 4096 % 16 + 0xE0)).toNat = v / 4096 % 16 + 0xE0 :=
      toNat_byte (by omega)
    by_cases he0 : v / 4096 = 0
    · exact ⟨_, _, _, rfl, utf8Tail_iff.mpr (.e0 (by omega)),
        .cons (within_byte 0xA0 0xBF (by decide) (by omega)) (.cons (within_any hlow) .nil)⟩
    by_cases hed : v / 4096 = 13
    · exact ⟨_, _, _, rfl, utf8Tail_iff.mpr (.ed (by omega)),
        .cons (within_byte 0x80 0x9F (by decide) (by omega)) (.cons (within_any hlow) .nil)⟩
    · exact ⟨_, _, _, rfl, utf8Tail_iff.mpr (.three (by omega) (by omega) (by omega)),
        .cons (within_any hmid) (.cons (within_any hlow) .nil)⟩
  -- four bytes, too
  · have hfirst : (UInt8.ofNat (v / 262144 % 8 + 0xF0)).toNat = v / 262144 % 8 + 0xF0 :=
      toNat_byte (by omega)
    by_cases hf0 : v / 262144 = 0
    · exact ⟨_, _, _, rfl, utf8Tail_iff.mpr (.f0 (by omega)),
        .cons (within_byte 0x90 0xBF (by decide) (by omega))
        (.cons (within_any hmid) (.cons (within_any hlow) .nil))⟩
    by_cases hf4 : v / 262144 = 4
    · exact ⟨_, _, _, rfl, utf8Tail_iff.mpr (.f4 (by omega)),
        .cons (within_byte 0x80 0x8F (by decide) (by omega))
        (.cons (within_any hmid) (.cons (within_any hlow) .nil))⟩
    · exact ⟨_, _, _, rfl, utf8Tail_iff.mpr (.four (by omega) (by omega)),
        .cons (within_any hhigh) (.cons (within_any hmid) (.cons (within_any hlow) .nil))⟩

theorem exists_char {v : Nat} (h : v < 0xD800 ∨ 0xDFFF < v ∧ v < 0x110000) :
    ∃ c : Char, c.val.toNat = v :=
  ⟨Char.ofNatAux v h, rfl⟩

theorem byte_eq {n : Nat} {b : UInt8} (h : n = b.toNat) : UInt8.ofNat n = b := by
  rw [h, UInt8.ofNat_toNat]

/-- A code point of two bytes. -/
theorem encode_two {a x : UInt8} (ha : 0xC2 ≤ a.toNat ∧ a.toNat ≤ 0xDF)
    (hx : 0x80 ≤ x.toNat ∧ x.toNat ≤ 0xBF) : ∃ c, String.utf8EncodeChar c = [a, x] := by
  obtain ⟨c, hc⟩ := exists_char (v := (a.toNat - 0xC0) * 64 + (x.toNat - 0x80)) (by omega)
  refine ⟨c, ?_⟩
  unfold String.utf8EncodeChar
  simp only [hc]
  rw [if_neg (by omega), if_pos (by omega), byte_eq (b := a) (by omega),
    byte_eq (b := x) (by omega)]

/-- A code point of three bytes, but for the surrogates. -/
theorem encode_three {a x y : UInt8} (ha : 0xE0 ≤ a.toNat ∧ a.toNat ≤ 0xEF)
    (hx : 0x80 ≤ x.toNat ∧ x.toNat ≤ 0xBF) (hy : 0x80 ≤ y.toNat ∧ y.toNat ≤ 0xBF)
    (he0 : a.toNat = 0xE0 → 0xA0 ≤ x.toNat) (hed : a.toNat = 0xED → x.toNat ≤ 0x9F) :
    ∃ c, String.utf8EncodeChar c = [a, x, y] := by
  obtain ⟨c, hc⟩ := exists_char
    (v := (a.toNat - 0xE0) * 4096 + (x.toNat - 0x80) * 64 + (y.toNat - 0x80)) (by omega)
  refine ⟨c, ?_⟩
  unfold String.utf8EncodeChar
  simp only [hc]
  rw [if_neg (by omega), if_neg (by omega), if_pos (by omega), byte_eq (b := a) (by omega),
    byte_eq (b := x) (by omega), byte_eq (b := y) (by omega)]

/-- A code point of four bytes. -/
theorem encode_four {a x y z : UInt8} (ha : 0xF0 ≤ a.toNat ∧ a.toNat ≤ 0xF4)
    (hx : 0x80 ≤ x.toNat ∧ x.toNat ≤ 0xBF) (hy : 0x80 ≤ y.toNat ∧ y.toNat ≤ 0xBF)
    (hz : 0x80 ≤ z.toNat ∧ z.toNat ≤ 0xBF) (hf0 : a.toNat = 0xF0 → 0x90 ≤ x.toNat)
    (hf4 : a.toNat = 0xF4 → x.toNat ≤ 0x8F) : ∃ c, String.utf8EncodeChar c = [a, x, y, z] := by
  obtain ⟨c, hc⟩ := exists_char
    (v := (a.toNat - 0xF0) * 262144 + (x.toNat - 0x80) * 4096 + (y.toNat - 0x80) * 64 +
      (z.toNat - 0x80)) (by omega)
  refine ⟨c, ?_⟩
  unfold String.utf8EncodeChar
  simp only [hc]
  rw [if_neg (by omega), if_neg (by omega), if_neg (by omega), byte_eq (b := a) (by omega),
    byte_eq (b := x) (by omega), byte_eq (b := y) (by omega), byte_eq (b := z) (by omega)]

/-- **What fits the table is the encoding of a character.** -/
theorem Utf8Char.encodes {bs : Bytes} (h : Utf8Char bs) : ∃ c, String.utf8EncodeChar c = bs := by
  obtain ⟨b, tail, owed, rfl, htail, hfits⟩ := h
  have hleads := utf8Tail_iff.mp htail
  cases hleads with
  | one hb =>
    cases hfits
    obtain ⟨c, hc⟩ := exists_char (v := b.toNat) (by omega)
    refine ⟨c, ?_⟩
    unfold String.utf8EncodeChar
    simp only [hc]
    rw [if_pos hb, byte_eq rfl]
  | two hlo hhi =>
    obtain _ | ⟨hx, _ | _⟩ := hfits
    exact encode_two ⟨hlo, hhi⟩ (within_iff.mp hx)
  | e0 hb =>
    obtain _ | ⟨hx, _ | ⟨hy, _ | _⟩⟩ := hfits
    obtain ⟨hlo, hhi⟩ : 0xA0 ≤ _ ∧ _ ≤ 0xBF := within_iff.mp hx
    exact encode_three (by omega) ⟨by omega, hhi⟩ (within_iff.mp hy) (fun _ => hlo) (by omega)
  | ed hb =>
    obtain _ | ⟨hx, _ | ⟨hy, _ | _⟩⟩ := hfits
    obtain ⟨hlo, hhi⟩ : 0x80 ≤ _ ∧ _ ≤ 0x9F := within_iff.mp hx
    exact encode_three (by omega) ⟨hlo, by omega⟩ (within_iff.mp hy) (by omega) fun _ => hhi
  | three hlo hhi hne =>
    obtain _ | ⟨hx, _ | ⟨hy, _ | _⟩⟩ := hfits
    exact encode_three (by omega) (within_iff.mp hx) (within_iff.mp hy) (by omega) (by omega)
  | f0 hb =>
    obtain _ | ⟨hx, _ | ⟨hy, _ | ⟨hz, _ | _⟩⟩⟩ := hfits
    obtain ⟨hlo, hhi⟩ : 0x90 ≤ _ ∧ _ ≤ 0xBF := within_iff.mp hx
    exact encode_four (by omega) ⟨by omega, hhi⟩ (within_iff.mp hy) (within_iff.mp hz)
      (fun _ => hlo) (by omega)
  | four hlo hhi =>
    obtain _ | ⟨hx, _ | ⟨hy, _ | ⟨hz, _ | _⟩⟩⟩ := hfits
    exact encode_four (by omega) (within_iff.mp hx) (within_iff.mp hy) (within_iff.mp hz)
      (by omega) (by omega)
  | f4 hb =>
    obtain _ | ⟨hx, _ | ⟨hy, _ | ⟨hz, _ | _⟩⟩⟩ := hfits
    obtain ⟨hlo, hhi⟩ : 0x80 ≤ _ ∧ _ ≤ 0x8F := within_iff.mp hx
    exact encode_four (by omega) ⟨hlo, by omega⟩ (within_iff.mp hy) (within_iff.mp hz)
      (by omega) fun _ => hhi

/-! ## The conversion -/

/-- The bytes `begun` and those that the ranges `owed` still let through make a character. -/
def Lossy.Sound (s : Lossy) : Prop :=
  s.owed ≠ [] → ∀ tail, List.Forall₂ Within s.owed tail → Utf8Char (s.begun ++ tail)

/-- The bytes of a character go through as they are. -/
theorem lossy_owed {begun tail t : Bytes} {owed : List (UInt8 × UInt8)} (hne : owed ≠ [])
    (h : List.Forall₂ Within owed tail) :
    fromUtf8LossyLoop ⟨begun, owed⟩ (tail ++ t) = begun ++ tail ++ fromUtf8Lossy t := by
  induction h generalizing begun with
  | nil => exact absurd rfl hne
  | @cons range b owed tail hb htail ih =>
    rw [List.cons_append, fromUtf8LossyLoop]
    have hstep : Lossy.step ⟨begun, range :: owed⟩ b =
        if owed = [] then (begun ++ [b], ⟨[], []⟩) else ([], ⟨begun ++ [b], owed⟩) := if_pos hb
    rw [hstep]
    by_cases hlast : owed = []
    · subst hlast
      cases htail
      simp [fromUtf8Lossy]
    · rw [if_neg hlast, ih hlast]
      simp

theorem lossy_fits {bs t : Bytes} (h : Utf8Char bs) :
    fromUtf8Lossy (bs ++ t) = bs ++ fromUtf8Lossy t := by
  obtain ⟨b, tail, owed, rfl, htail, hfits⟩ := h
  rw [fromUtf8Lossy, List.cons_append, fromUtf8LossyLoop]
  show (Lossy.start b).1 ++ fromUtf8LossyLoop (Lossy.start b).2 (tail ++ t) = _
  rw [Lossy.start, htail]
  cases hfits with
  | nil => rfl
  | cons hb htail' => exact lossy_owed (by simp) (.cons hb htail')

theorem lossy_valid {bs : Bytes} (h : ValidUtf8 bs) : fromUtf8Lossy bs = bs := by
  obtain ⟨cs, rfl⟩ := h
  induction cs with
  | nil => rfl
  | cons c cs ih => rw [List.flatMap_cons, lossy_fits (utf8EncodeChar_fits c), ih]

theorem Utf8Char.valid {bs t : Bytes} (h : Utf8Char bs) (ht : ValidUtf8 t) :
    ValidUtf8 (bs ++ t) := by
  obtain ⟨c, rfl⟩ := h.encodes
  exact validUtf8_char c ht

theorem replacement_fits : Utf8Char replacement :=
  ⟨0xEF, [0xBF, 0xBD], _, rfl, rfl, .cons (by unfold Within; decide)
    (.cons (by unfold Within; decide) .nil)⟩

/-- What is put out in one step is text, and so is what is begun. -/
def Lossy.Keeps (r : Bytes × Lossy) : Prop :=
  r.2.Sound ∧ ∀ t, ValidUtf8 t → ValidUtf8 (r.1 ++ t)

theorem Lossy.sound_empty : Lossy.Sound ⟨[], []⟩ := fun h => absurd rfl h

theorem Lossy.start_keeps (b : UInt8) : Lossy.Keeps (Lossy.start b) := by
  rw [Lossy.start]
  match htail : utf8Tail b with
  | none => exact ⟨sound_empty, fun t ht => replacement_fits.valid ht⟩
  | some [] =>
    have hfits : Utf8Char [b] := ⟨b, [], [], rfl, htail, .nil⟩
    exact ⟨sound_empty, fun t ht => hfits.valid ht⟩
  | some (range :: owed) =>
    exact ⟨fun _ tail h => ⟨b, tail, range :: owed, rfl, htail, h⟩, fun t ht => ht⟩

/-- **One step keeps to text.** -/
theorem Lossy.step_keeps {s : Lossy} (h : s.Sound) (b : UInt8) : Lossy.Keeps (s.step b) := by
  obtain ⟨begun, owed⟩ := s
  cases owed with
  | nil => exact start_keeps b
  | cons range owed =>
    obtain ⟨lo, hi⟩ := range
    simp only [Lossy.step]
    by_cases hb : lo ≤ b ∧ b ≤ hi
    · rw [if_pos hb]
      by_cases hlast : owed = []
      · subst hlast
        have hfits : Utf8Char (begun ++ [b]) := h (by simp) [b] (.cons hb .nil)
        exact ⟨sound_empty, fun t ht => hfits.valid ht⟩
      · rw [if_neg hlast]
        refine ⟨fun _ tail htail => ?_, fun t ht => ht⟩
        have hfits : Utf8Char (begun ++ b :: tail) := h (by simp) (b :: tail) (.cons hb htail)
        show Utf8Char (begun ++ [b] ++ tail)
        rwa [List.append_assoc, List.singleton_append]
    · rw [if_neg hb]
      refine ⟨(start_keeps b).1, fun t ht => ?_⟩
      rw [List.append_assoc]
      exact replacement_fits.valid ((start_keeps b).2 t ht)

/-- The conversion always gives text. -/
theorem lossy_gives_text (bs : Bytes) : ValidUtf8 (fromUtf8Lossy bs) := by
  have hloop : ∀ (bs : Bytes) (s : Lossy), s.Sound → ValidUtf8 (fromUtf8LossyLoop s bs) := by
    intro bs
    induction bs with
    | nil =>
      intro s _
      rw [fromUtf8LossyLoop]
      split
      · exact validUtf8_nil
      · exact replacement_fits.valid validUtf8_nil
    | cons b bs ih =>
      intro s hs
      obtain ⟨hs', htext⟩ := Lossy.step_keeps hs b
      exact htext _ (ih _ hs')
  exact hloop bs _ Lossy.sound_empty

/-- **The conversion keeps exactly the bytes that are valid UTF-8.** -/
theorem fromUtf8Lossy_eq_iff {bs : Bytes} : fromUtf8Lossy bs = bs ↔ ValidUtf8 bs :=
  ⟨fun h => h ▸ lossy_gives_text bs, lossy_valid⟩

/-! ## Receiving text -/

section

variable [Allocator]

/-- From a response packet with error code 0 and this payload, a result is the payload, and a
payload that is not UTF-8 is an error. -/
def ReceivesLossless (payload : Vec) : Prop :=
  ∀ (version : UInt64) (rest : Bytes) (s : Channel Source Sink) (w : Bytes),
    s.reader.buf ++ w = wirePacket version 0 payload.bytes ++ rest →
    Always (chunked (X := Unit) (Y := Unit))
      (resolves (fun text _ _ => text = payload.bytes ∧ ValidUtf8 payload.bytes)
        fun _ _ _ => True)
      (Channel.receiveJsonResponse s) w

variable {payload : Vec} {version : UInt64} {rest w : Bytes} {s : Channel Source Sink}

/-- Every response packet with error code 0 is received, and what is received is text. -/
theorem receiveJson_text
    (h : s.reader.buf ++ w = wirePacket version 0 payload.bytes ++ rest) :
    Always (chunked (X := Unit) (Y := Unit))
      (succeeds fun text _ _ => text = fromUtf8Lossy payload.bytes)
      (Channel.receiveJsonResponse s) w := by
  apply always_seq_ok (Channel.receivePacket_ok
    (Source.deliversAll (X := Unit) (Y := Unit)).toStreams (view_source.mpr h) (by rfl))
  rintro _ s' w' ⟨rfl, -, -⟩
  exact .ret rfl

theorem ReceivesLossless.valid (h : ReceivesLossless payload) : ValidUtf8 payload.bytes := by
  have hst : [] ++ wirePacket 0 0 payload.bytes = wirePacket 0 0 payload.bytes ++ [] :=
    (List.append_nil _).symm
  obtain ⟨o, w', -, ho, htext⟩ := ((h 0 [] (Channel.new 0 ⟨⟩ ⟨⟩) _ hst).and
    (receiveJson_text hst)).exists_ends chunked_answers
  obtain ⟨⟨_ | text, _⟩⟩ | _ := o
  · exact htext.elim
  · exact ho.2
  · exact htext.elim

/-- **`receive_json_response` is lossless** for the payloads that are valid UTF-8, and for no
others: it never refuses one. -/
theorem receiveJson_lossless_iff (payload : Vec) :
    ReceivesLossless payload ↔ ValidUtf8 payload.bytes := by
  constructor
  · exact ReceivesLossless.valid
  · intro hvalid version rest s w h
    refine (receiveJson_text h).mono fun o w' ho =>
      resolves_of_succeeds o w' (succeeds_mono ?_ o w' ho)
    rintro _ _ _ rfl
    exact ⟨fromUtf8Lossy_eq_iff.mpr hvalid, hvalid⟩

end

section

attribute [local instance] Allocator.ample

/-- The payload `FF` comes back as `Ok` with U+FFFD. -/
theorem invalid_byte_replaced :
    (∃ s' w', Ends (chunked (X := Unit) (Y := Unit))
      (Channel.receiveJsonResponse (Channel.new 0 Source.mk Sink.mk)) (wirePacket 0 0 [0xFF])
      (.ret (.ok replacement, s')) w') ∧
    ¬ ReceivesLossless ⟨[0xFF], by decide⟩ := by
  constructor
  · have hst : [] ++ wirePacket 0 0 [0xFF] = wirePacket 0 0 [0xFF] ++ [] := (List.append_nil _).symm
    obtain ⟨o, w', hends, htext⟩ := (@receiveJson_text _ ⟨[0xFF], by decide⟩ 0 [] _
      (Channel.new 0 ⟨⟩ ⟨⟩) hst).exists_ends chunked_answers
    obtain ⟨⟨_ | text, s'⟩⟩ | _ := o
    · exact htext.elim
    · obtain rfl : text = replacement := htext
      exact ⟨s', w', hends⟩
    · exact htext.elim
  · intro h
    have hsame := fromUtf8Lossy_eq_iff.mpr h.valid
    exact absurd hsame (by decide)

end

end CkbScriptIpc
