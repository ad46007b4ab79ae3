import CkbScriptIpc.Interaction.Parallel

/-!
# Programs with operations of their own

`Prog.hoist` renames the operations of a program and translates the answers back.
So two programs with different operations can share one world: each is hoisted
into one side of the sum (`Prog.inl`, `Prog.inr`).

* `always_hoist`: what a program does survives a translation of its world;
* `Sides.coupling`: two views, one of each side, explain the runs of the pair.
-/

namespace Interaction

variable {Op Op' : Type} {Res : Op → Type} {Res' : Op' → Type} {α β σ W W' : Type}

namespace Prog

def hoist (φ : Op → Op') (ψ : ∀ op, Res' (φ op) → Res op) :
    {α : Type} → Prog Res α → Prog Res' α
  | _, .ret a => .ret a
  | _, .panic => .panic
  | _, .call op k => .call (φ op) fun r => (k (ψ op r)).hoist φ ψ
  | _, .loop body s k => .loop (fun s => (body s).hoist φ ψ) s fun b => (k b).hoist φ ψ

variable {φ : Op → Op'} {ψ : ∀ op, Res' (φ op) → Res op}

theorem hoist_bind (p : Prog Res α) (f : α → Prog Res β) :
    (p.bind f).hoist φ ψ = (p.hoist φ ψ).bind fun a => (f a).hoist φ ψ := by
  induction p with
  | ret a => rfl
  | panic => rfl
  | call op k ih => simp only [bind, hoist, ih]
  | loop body s k _ ih => simp only [bind, hoist, ih]

theorem hoist_unroll (body : σ → Prog Res (σ ⊕ β)) (s : σ) (k : β → Prog Res α) :
    (unroll body s k).hoist φ ψ =
      unroll (fun s => (body s).hoist φ ψ) s fun b => (k b).hoist φ ψ := by
  rw [unroll, hoist_bind, unroll]
  congr 1
  funext x
  cases x <;> rfl

theorem hoist_id (p : Prog Res α) : p.hoist id (fun _ r => r) = p := by
  induction p with
  | ret a => rfl
  | panic => rfl
  | call op k ih => exact congrArg (call op) (funext ih)
  | loop body s k ihb ihk => simp only [hoist, ihb, ihk]

end Prog

/-! ## A world that stands for another -/

/-- Whatever is permitted in `E` is permitted in `E'`, whose answers are those of `E`; `V` says
which worlds stand for each other. -/
structure Simulates (E : Env Res W) (E' : Env Res' W') (φ : Op → Op')
    (ψ : ∀ op, Res' (φ op) → Res op) (V : W → W' → Prop) : Prop where
  pre : ∀ {w w' op}, V w w' → E.pre w op → E'.pre w' (φ op)
  step : ∀ {w w' op r v'}, V w w' → E.pre w op → E'.step w' (φ op) r v' →
    ∃ v, E.step w op (ψ op r) v ∧ V v v'

theorem always_hoist {E : Env Res W} {E' : Env Res' W'} {φ : Op → Op'}
    {ψ : ∀ op, Res' (φ op) → Res op} {V : W → W' → Prop} (hV : Simulates E E' φ ψ V)
    {Q : Outcome α → W → Prop} {p : Prog Res α} {w : W} {w' : W'} (h : Always E Q p w)
    (hw : V w w') : Always E' (fun o v' => ∃ v, V v v' ∧ Q o v) (p.hoist φ ψ) w' := by
  induction h generalizing w' with
  | @ret a w h => exact .ret ⟨w, hw, h⟩
  | @panic w h => exact .panic ⟨w, hw, h⟩
  | call hp _ ih =>
    refine .call (hV.pre hw hp) ?_
    intro r v' hs
    obtain ⟨v, hs', hv⟩ := hV.step hw hp hs
    exact ih _ _ hs' hv
  | loop _ ih =>
    apply Always.loop
    have hnext := ih hw
    rwa [Prog.hoist_unroll] at hnext

/-- The operations stay what they are. -/
theorem always_simulates {E : Env Res W} {E' : Env Res W'} {V : W → W' → Prop}
    (hV : Simulates E E' id (fun _ r => r) V) {Q : Outcome α → W → Prop} {p : Prog Res α} {w : W}
    {w' : W'} (h : Always E Q p w) (hw : V w w') :
    Always E' (fun o v' => ∃ v, V v v' ∧ Q o v) p w' := by
  have hhoist := always_hoist hV h hw
  rwa [Prog.hoist_id] at hhoist

/-! ## Two sides -/

variable {Op₁ Op₂ : Type} {Res₁ : Op₁ → Type} {Res₂ : Op₂ → Type} {V₁ V₂ : Type}

abbrev Prog.inl (p : Prog Res₁ α) : Prog (Sum.elim Res₁ Res₂) α := p.hoist .inl fun _ r => r

abbrev Prog.inr (p : Prog Res₂ α) : Prog (Sum.elim Res₁ Res₂) α := p.hoist .inr fun _ r => r

namespace Env

/-- The environment of the programs that use the first side alone. -/
def inl (E : Env Res₁ W) : Env (Sum.elim Res₁ Res₂) W where
  pre
    | w, .inl op => E.pre w op
    | _, .inr _ => False
  step
    | w, .inl op, r, w' => E.step w op r w'
    | _, .inr _, _, _ => False

/-- The environment of the programs that use the second side alone. -/
def inr (E : Env Res₂ W) : Env (Sum.elim Res₁ Res₂) W where
  pre
    | _, .inl _ => False
    | w, .inr op => E.pre w op
  step
    | _, .inl _, _, _ => False
    | w, .inr op, r, w' => E.step w op r w'

end Env

theorem simulates_inl (E : Env Res₁ W) :
    Simulates E (E.inl : Env (Sum.elim Res₁ Res₂) W) .inl (fun _ r => r) Eq where
  pre := by
    rintro w _ op rfl hp
    exact hp
  step := by
    rintro w _ op r v' rfl _ hs
    exact ⟨v', hs, rfl⟩

theorem simulates_inr (E : Env Res₂ W) :
    Simulates E (E.inr : Env (Sum.elim Res₁ Res₂) W) .inr (fun _ r => r) Eq where
  pre := by
    rintro w _ op rfl hp
    exact hp
  step := by
    rintro w _ op r v' rfl _ hs
    exact ⟨v', hs, rfl⟩

theorem always_inl {E : Env Res₁ W} {Q : Outcome α → W → Prop} {p : Prog Res₁ α} {w : W}
    (h : Always E Q p w) : Always (E.inl : Env (Sum.elim Res₁ Res₂) W) Q p.inl w := by
  refine (always_hoist (simulates_inl E) h rfl).mono ?_
  rintro o v ⟨_, rfl, ho⟩
  exact ho

theorem always_inr {E : Env Res₂ W} {Q : Outcome α → W → Prop} {p : Prog Res₂ α} {w : W}
    (h : Always E Q p w) : Always (E.inr : Env (Sum.elim Res₁ Res₂) W) Q p.inr w := by
  refine (always_hoist (simulates_inr E) h rfl).mono ?_
  rintro o v ⟨_, rfl, ho⟩
  exact ho

/-- The views of the two sides fit the world as long as `C v₁ v₂ w`. -/
structure Sides (E : Env Res₁ W) (F : Env Res₂ W) (E₁ : Env Res₁ V₁) (E₂ : Env Res₂ V₂)
    (C : V₁ → V₂ → W → Prop) : Prop where
  left : ∀ {v₁ v₂ w op r w'}, C v₁ v₂ w → E₁.pre v₁ op → E.step w op r w' →
    ∃ v₁', E₁.step v₁ op r v₁' ∧ C v₁' v₂ w'
  right : ∀ {v₁ v₂ w op r w'}, C v₁ v₂ w → E₂.pre v₂ op → F.step w op r w' →
    ∃ v₂', E₂.step v₂ op r v₂' ∧ C v₁ v₂' w'

variable {E : Env Res₁ W} {F : Env Res₂ W} {E₁ : Env Res₁ V₁} {E₂ : Env Res₂ V₂}
  {C : V₁ → V₂ → W → Prop}

theorem Sides.coupling (h : Sides E F E₁ E₂ C) : Coupling E.inl F.inr E₁.inl E₂.inr C where
  left := by
    rintro v₁ v₂ w (op | op) r w' hc hp hs
    · exact h.left hc hp hs
    · exact hp.elim
  right := by
    rintro v₁ v₂ w (op | op) r w' hc hp hs
    · exact hp.elim
    · exact h.right hc hp hs

theorem answersView_inl {w : W} {v : V₁} (h : AnswersView E E₁ w v) :
    AnswersView (E.inl : Env (Sum.elim Res₁ Res₂) W) E₁.inl w v := by
  rintro (op | op) hp
  · exact h op hp
  · exact hp.elim

theorem answersView_inr {w : W} {v : V₂} (h : AnswersView F E₂ w v) :
    AnswersView (F.inr : Env (Sum.elim Res₁ Res₂) W) E₂.inr w v := by
  rintro (op | op) hp
  · exact hp.elim
  · exact h op hp

end Interaction
