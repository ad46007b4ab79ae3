import CkbScriptIpc.Interaction.Logic
import Mathlib.Logic.Basic
import Mathlib.Logic.Relation

/-!
# Two programs side by side

Two programs share one world and take their steps in any order. Each is proved
on its own, in an environment that shows it a view of the world, and a
`Coupling` says that the views explain the steps of both:

* `coupled_reach`: what `Always` says of the two programs is kept in every run;
* `coupled_terminates`: every run of the two is finite;
* `always_at_rest`: a program that cannot step, though its calls are answered,
  has ended.
-/

namespace Interaction

variable {Op : Type} {Res : Op → Type} {α β W V₁ V₂ : Type}

/-- Two programs and the world between them. -/
structure Pair (Res : Op → Type) (α β W : Type) : Type 1 where
  left : Prog Res α
  right : Prog Res β
  world : W

/-- One of the two takes a step, in its own environment. -/
inductive Pair.Step (E F : Env Res W) : Pair Res α β W → Pair Res α β W → Prop
  | left {p p' : Prog Res α} {q : Prog Res β} {w w' : W} :
      Interaction.Step E p w p' w' → Pair.Step E F ⟨p, q, w⟩ ⟨p', q, w'⟩
  | right {p : Prog Res α} {q q' : Prog Res β} {w w' : W} :
      Interaction.Step F q w q' w' → Pair.Step E F ⟨p, q, w⟩ ⟨p, q', w'⟩

/-- The runs of the two, in every interleaving. -/
abbrev Pair.Reach (E F : Env Res W) : Pair Res α β W → Pair Res α β W → Prop :=
  Relation.ReflTransGen (Pair.Step E F)

/-- Every run from `c` is finite. -/
def Pair.Terminates (E F : Env Res W) (c : Pair Res α β W) : Prop :=
  Acc (fun c' c => Pair.Step E F c c') c

def Pair.AtRest (E F : Env Res W) (c : Pair Res α β W) : Prop := ∀ c', ¬ Pair.Step E F c c'

/-- A run that cannot go on for ever comes to rest. -/
theorem Pair.Terminates.exists_rest {E F : Env Res W} {c : Pair Res α β W}
    (h : Pair.Terminates E F c) : ∃ c', Pair.Reach E F c c' ∧ Pair.AtRest E F c' := by
  induction h with
  | intro c _ ih =>
    by_cases hrest : Pair.AtRest E F c
    · exact ⟨c, .refl, hrest⟩
    · obtain ⟨c', hs⟩ := not_forall_not.mp hrest
      obtain ⟨c'', hr, hrest'⟩ := ih c' hs
      exact ⟨c'', .head hs hr, hrest'⟩

/-- The views `v₁` and `v₂` of the two programs fit the world `w` as long as `C v₁ v₂ w`:
a call that the view permits is answered as in the view. -/
structure Coupling (E F : Env Res W) (E₁ : Env Res V₁) (E₂ : Env Res V₂)
    (C : V₁ → V₂ → W → Prop) : Prop where
  left : ∀ {v₁ v₂ w op r w'}, C v₁ v₂ w → E₁.pre v₁ op → E.step w op r w' →
    ∃ v₁', E₁.step v₁ op r v₁' ∧ C v₁' v₂ w'
  right : ∀ {v₁ v₂ w op r w'}, C v₁ v₂ w → E₂.pre v₂ op → F.step w op r w' →
    ∃ v₂', E₂.step v₂ op r v₂' ∧ C v₁ v₂' w'

section

variable {E F : Env Res W} {E₁ : Env Res V₁} {E₂ : Env Res V₂} {C : V₁ → V₂ → W → Prop}
  {Q₁ : Outcome α → V₁ → Prop} {Q₂ : Outcome β → V₂ → Prop}

/-- A step in the world is a step in the view. -/
theorem always_view_step {V : Type} {D : Env Res V} {Q : Outcome α → V → Prop} {R : V → W → Prop}
    {p p' : Prog Res α} {v : V} {w w' : W} (h : Always D Q p v) (hr : R v w)
    (hview : ∀ {op r w'}, D.pre v op → E.step w op r w' → ∃ v', D.step v op r v' ∧ R v' w')
    (hs : Step E p w p' w') : ∃ v', Always D Q p' v' ∧ R v' w' := by
  cases hs with
  | call hs =>
    cases h with
    | call hpre h =>
      obtain ⟨v', hs', hr'⟩ := hview hpre hs
      exact ⟨v', h _ _ hs', hr'⟩
  | loop =>
    cases h with
    | loop h => exact ⟨v, h, hr⟩

/-- Both programs are on course, with views that fit. -/
def OnCourse (E₁ : Env Res V₁) (E₂ : Env Res V₂) (C : V₁ → V₂ → W → Prop)
    (Q₁ : Outcome α → V₁ → Prop) (Q₂ : Outcome β → V₂ → Prop) (c : Pair Res α β W) : Prop :=
  ∃ v₁ v₂, Always E₁ Q₁ c.left v₁ ∧ Always E₂ Q₂ c.right v₂ ∧ C v₁ v₂ c.world

theorem coupled_step (hC : Coupling E F E₁ E₂ C) {c c' : Pair Res α β W}
    (h : OnCourse E₁ E₂ C Q₁ Q₂ c) (hs : Pair.Step E F c c') : OnCourse E₁ E₂ C Q₁ Q₂ c' := by
  obtain ⟨v₁, v₂, h₁, h₂, hc⟩ := h
  cases hs with
  | left hs =>
    obtain ⟨v₁', h₁', hc'⟩ := always_view_step (R := fun v w => C v v₂ w) h₁ hc
      (fun hpre hs => hC.left hc hpre hs) hs
    exact ⟨v₁', v₂, h₁', h₂, hc'⟩
  | right hs =>
    obtain ⟨v₂', h₂', hc'⟩ := always_view_step (R := fun v w => C v₁ v w) h₂ hc
      (fun hpre hs => hC.right hc hpre hs) hs
    exact ⟨v₁, v₂', h₁, h₂', hc'⟩

theorem coupled_reach (hC : Coupling E F E₁ E₂ C) {c c' : Pair Res α β W}
    (h : OnCourse E₁ E₂ C Q₁ Q₂ c) (hr : Pair.Reach E F c c') : OnCourse E₁ E₂ C Q₁ Q₂ c' := by
  induction hr with
  | refl => exact h
  | tail _ hs ih => exact coupled_step hC ih hs

/-- The runs in which the right program steps, if a step of the left one ends them all. -/
theorem terminates_right (hC : Coupling E F E₁ E₂ C) {p : Prog Res α} {v₁ : V₁}
    (hleft : ∀ {q : Prog Res β} {v₂ w p' w'}, Always E₂ Q₂ q v₂ → C v₁ v₂ w →
      Step E p w p' w' → Pair.Terminates E F ⟨p', q, w'⟩)
    {q : Prog Res β} {v₂ : V₂} (h₂ : Always E₂ Q₂ q v₂) {w : W} (hc : C v₁ v₂ w) :
    Pair.Terminates E F ⟨p, q, w⟩ := by
  induction h₂ generalizing w with
  | ret h =>
    constructor
    intro c' hs
    cases hs with
    | left hs => exact hleft (.ret h) hc hs
    | right hs => cases hs
  | panic h =>
    constructor
    intro c' hs
    cases hs with
    | left hs => exact hleft (.panic h) hc hs
    | right hs => cases hs
  | call hpre h ih =>
    constructor
    intro c' hs
    cases hs with
    | left hs => exact hleft (.call hpre h) hc hs
    | right hs =>
      cases hs with
      | call hs =>
        obtain ⟨v₂', hs', hc'⟩ := hC.right hc hpre hs
        exact ih _ _ hs' hc'
  | loop h ih =>
    constructor
    intro c' hs
    cases hs with
    | left hs => exact hleft (.loop h) hc hs
    | right hs =>
      cases hs
      exact ih hc

/-- **Termination.** Two programs that are total in their views have no infinite run
together. -/
theorem coupled_terminates (hC : Coupling E F E₁ E₂ C) {p : Prog Res α} {v₁ : V₁}
    (h₁ : Always E₁ Q₁ p v₁) {q : Prog Res β} {v₂ : V₂} (h₂ : Always E₂ Q₂ q v₂) {w : W}
    (hc : C v₁ v₂ w) : Pair.Terminates E F ⟨p, q, w⟩ := by
  -- outside by induction on the left program, inside on the right one
  induction h₁ generalizing q v₂ w with
  | ret => exact terminates_right hC (fun _ _ hs => by cases hs) h₂ hc
  | panic => exact terminates_right hC (fun _ _ hs => by cases hs) h₂ hc
  | call hpre _ ih =>
    refine terminates_right hC ?_ h₂ hc
    intro q v₂ w p' w' h₂ hc hs
    cases hs with
    | call hs =>
      obtain ⟨v₁', hs', hc'⟩ := hC.left hc hpre hs
      exact ih _ _ hs' h₂ hc'
  | loop _ ih =>
    refine terminates_right hC ?_ h₂ hc
    intro q v₂ w p' w' h₂ hc hs
    cases hs
    exact ih h₂ hc

/-- In world `w` every call that the view `v` permits is answered. -/
def AnswersView {V : Type} (E : Env Res W) (D : Env Res V) (w : W) (v : V) : Prop :=
  ∀ op, D.pre v op → ∃ r w', E.step w op r w'

/-- A program that cannot step has ended, if its calls are answered. -/
theorem always_at_rest {p : Prog Res α} {v₁ : V₁} {w : W} (h : Always E₁ Q₁ p v₁)
    (hanswers : AnswersView E E₁ w v₁) (hrest : ∀ p' w', ¬ Step E p w p' w') :
    ∃ o : Outcome α, p = o.toProg ∧ Q₁ o v₁ := by
  cases h with
  | @ret a _ h => exact ⟨.ret a, rfl, h⟩
  | panic h => exact ⟨.panic, rfl, h⟩
  | call hpre _ =>
    obtain ⟨r, w', hs⟩ := hanswers _ hpre
    exact absurd (.call hs) (hrest _ _)
  | loop _ => exact absurd .loop (hrest _ _)

end

end Interaction
