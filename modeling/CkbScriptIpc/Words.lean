import Mathlib.Data.List.Basic
import Mathlib.Data.List.TakeWhile
import Mathlib.Tactic.Common

/-!
# Lists cut into words

A list cut at a separator, partial functions on lists, and codes for the elements of a
list that can be read back.

`mem_splitOn_iff`: a word is what stands before the next separator, at the start of the
list or behind a separator. `flatMap_inj`: a list is known from its code when its
elements are.
-/

namespace CkbScriptIpc.Words

variable {α β : Type}

/-! ## Words -/

section

variable [DecidableEq α] {sep : α}

/-- What stands before the next separator. -/
def word (sep : α) (l : List α) : List α := l.takeWhile (· != sep)

theorem not_mem_word (l : List α) : sep ∉ word sep l := by
  intro hmem
  simpa using List.mem_takeWhile_imp hmem

theorem splitOn_eq_cons (l : List α) :
    l.splitOn sep = word sep l :: (l.splitOn sep).tail := by
  induction l with
  | nil => rfl
  | cons a l ih =>
    rw [List.splitOn_cons_eq_if_modifyHead, word, List.takeWhile_cons]
    by_cases ha : a = sep
    · simp [ha]
    · rw [ih]
      simp [ha, word]

theorem mem_splitOn_tail_iff {w l : List α} :
    w ∈ (l.splitOn sep).tail ↔ ∃ rest, sep :: rest <:+ l ∧ w = word sep rest := by
  induction l with
  | nil => simp
  | cons a l ih =>
    rw [List.splitOn_cons_eq_if_modifyHead]
    by_cases ha : a = sep
    · subst ha
      rw [if_pos (by simp), List.tail_cons, splitOn_eq_cons, List.mem_cons, ih]
      simp [List.suffix_cons_iff, or_and_right, exists_or]
    · have hsuffix : ∀ rest, sep :: rest <:+ a :: l ↔ sep :: rest <:+ l := by
        intro rest
        rw [List.suffix_cons_iff, List.cons.injEq]
        exact or_iff_right fun h => ha h.1.symm
      simp only [hsuffix, ← ih]
      rw [if_neg (by simpa using ha), splitOn_eq_cons, List.modifyHead_cons, List.tail_cons,
        List.tail_cons]

theorem mem_splitOn_iff {w l : List α} :
    w ∈ l.splitOn sep ↔
      w = word sep l ∨ ∃ rest, sep :: rest <:+ l ∧ w = word sep rest := by
  rw [splitOn_eq_cons, List.mem_cons, mem_splitOn_tail_iff]

theorem forall_mem_splitOn_iff {l : List α} {P : List α → Prop} :
    (∀ w ∈ l.splitOn sep, P w) ↔
      P (word sep l) ∧ ∀ rest, sep :: rest <:+ l → P (word sep rest) := by
  simp only [mem_splitOn_iff]
  constructor
  · exact fun h => ⟨h _ (.inl rfl), fun rest hrest => h _ (.inr ⟨rest, hrest, rfl⟩)⟩
  · rintro ⟨hfirst, hrest⟩ w (rfl | ⟨rest, hsuffix, rfl⟩)
    exacts [hfirst, hrest rest hsuffix]

end

/-! ## Partial functions -/

theorem mapM_eq_some_iff {f : α → Option β} {l : List α} {l' : List β} :
    l.mapM f = some l' ↔ l.map f = l'.map some := by
  induction l generalizing l' with
  | nil => cases l' <;> simp
  | cons a l ih =>
    rw [List.mapM_cons, List.map_cons]
    cases l' with
    | nil => simp [Option.bind_eq_some_iff]
    | cons b l' => simp [Option.bind_eq_some_iff, ih]

theorem mapM_isSome_iff {f : α → Option β} {l : List α} :
    (l.mapM f).isSome ↔ ∀ a ∈ l, (f a).isSome := by
  induction l with
  | nil => simp
  | cons a l ih =>
    rw [List.mapM_cons, List.forall_mem_cons, ← ih]
    cases f a <;> cases l.mapM f <;> simp

theorem zip_self_map (l : List α) (f : α → β) : l.zip (l.map f) = l.map fun a => (a, f a) := by
  simpa using (List.zip_map' : (l.map id).zip (l.map f) = _)

/-! ## Codes -/

/-- Two codes of `P` that begin a list tell its first element. -/
def Readable (P : α → Prop) (code : α → List β) : Prop :=
  ∀ ⦃a b⦄, P a → P b → ∀ ⦃l l'⦄, code a ++ l = code b ++ l' → a = b

theorem flatMap_inj {P : α → Prop} {code : α → List β} (hcode : Readable P code)
    (hne : ∀ a, code a ≠ []) {l l' : List α} (hl : ∀ a ∈ l, P a) (hl' : ∀ a ∈ l', P a)
    (h : l.flatMap code = l'.flatMap code) : l = l' := by
  induction l generalizing l' with
  | nil =>
    cases l' with
    | nil => rfl
    | cons b l' => exact absurd (List.append_eq_nil_iff.mp h.symm).1 (hne b)
  | cons a l ih =>
    cases l' with
    | nil => exact absurd (List.append_eq_nil_iff.mp h).1 (hne a)
    | cons b l' =>
      rw [List.forall_mem_cons] at hl hl'
      rw [List.flatMap_cons, List.flatMap_cons] at h
      obtain rfl := hcode hl.1 hl'.1 h
      rw [ih hl.2 hl'.2 (List.append_cancel_left h)]

/-- Functions that tell the same elements apart repeat a value on the same lists. -/
theorem nodup_map_congr {γ : Type} {f : α → β} {g : α → γ} {l : List α}
    (h : ∀ a ∈ l, ∀ b ∈ l, f a = f b ↔ g a = g b) : (l.map f).Nodup ↔ (l.map g).Nodup := by
  simp only [List.Nodup, List.pairwise_map]
  exact List.Pairwise.iff_of_mem fun ha hb => not_congr (h _ ha _ hb)

theorem find?_map_of_nodup [DecidableEq β] {f : α → β} {l : List α} (h : (l.map f).Nodup) {a : α}
    (ha : a ∈ l) : (l.find? fun b => f b = f a) = some a := by
  induction l with
  | nil => cases ha
  | cons b l ih =>
    rw [List.map_cons, List.nodup_cons] at h
    rw [List.find?_cons]
    rcases List.mem_cons.mp ha with rfl | ha
    · simp
    · have hne : f b ≠ f a := fun heq => h.1 (heq ▸ List.mem_map_of_mem ha)
      simpa [hne] using ih h.2 ha

end CkbScriptIpc.Words
