import CkbScriptIpc.Interaction.Method

/-!
# Runs of sequences and loops

A run of a sequence is a run of its first part and one of its second
(`ends_bind_inv`); a run of a method loop is some turns that go on (`Turns`) and
one that does not (`ends_iter`), or that is still under way (`reach_iter_inv`).
What holds of all its calls is shown in an environment that may give up at a call
for which it does not hold (`safely_admits`).
-/

namespace Interaction

variable {Op : Type} {Res : Op → Type} {α β σ ε S W : Type} {E : Env Res W}

/-- A run of a sequence that ends. -/
theorem ends_bind_inv {p : Prog Res α} {k : α → Prog Res β} {w w' : W} {o : Outcome β}
    (h : Ends E (p.bind k) w o w') :
    (∃ a v, Ends E p w (.ret a) v ∧ Ends E (k a) v o w') ∨ Ends E p w .panic w' ∧ o = .panic := by
  rcases reach_bind_inv h with ⟨p', hp, he⟩ | ⟨a, v, hp, hk⟩
  · cases p' with
    | ret a =>
      have hk : Ends E (k a) w' o w' := by
        rw [Ends, he]
        exact .refl _ _
      exact .inl ⟨a, w', hp, hk⟩
    | panic =>
      refine .inr ⟨hp, ?_⟩
      cases o with
      | ret b => cases he
      | panic => rfl
    | call op k' => cases o <;> cases he
    | loop body s k' => cases o <;> cases he
  · exact .inl ⟨a, v, hp, hk⟩

/-- Whatever a run ends in is an end of the program. -/
theorem safely_ends (p : Prog Res α) (w : W) : Safely E (fun _ => True) (Ends E p w) p w :=
  fun _ _ hr => ⟨trivial, by rintro o rfl; exact hr⟩

theorem ends_map_inv {p : Prog Res α} {g : α → β} {w w' : W} {o : Outcome β}
    (h : Ends E (p.map g) w o w') : ∃ o', Ends E p w o' w' ∧ o = o'.map g := by
  rcases ends_bind_inv h with ⟨a, v, hp, hk⟩ | ⟨hp, rfl⟩
  · obtain ⟨rfl, rfl⟩ := outcome_of_reach (o := .ret (g a)) hk
    exact ⟨.ret a, hp, rfl⟩
  · exact ⟨.panic, hp, rfl⟩

/-- A sequence that panics does so in its first part, if its second cannot. -/
theorem ends_seq_panic {x : Method Res ε S α} {f : α → Method Res ε S β} {s : S} {w w' : W}
    (hf : ∀ a, KeepsWorld E (fun _ => True) False (f a)) (h : Ends E ((x >>= f) s) w .panic w') :
    Ends E (x s) w .panic w' := by
  rcases ends_bind_inv h with ⟨⟨e | a, s'⟩, v, -, hk⟩ | ⟨hx, -⟩
  · have hret : Reach E (Outcome.ret (Except.error e, s')).toProg v
        (Outcome.panic (α := Except ε β × S)).toProg w' := hk
    cases (outcome_of_reach hret).1
  · exact ((hf a s' v trivial trivial _ _ hk).2 .panic rfl).elim
  · exact hx

/-- A sequence that fails does so in its first part or in its second. -/
theorem ends_seq_error {x : Method Res ε S α} {f : α → Method Res ε S β} {s s' : S} {w w' : W}
    {e : ε} (h : Ends E ((x >>= f) s) w (.ret (.error e, s')) w') :
    Ends E (x s) w (.ret (.error e, s')) w' ∨
      ∃ a s₁ w₁, Ends E (x s) w (.ret (.ok a, s₁)) w₁ ∧
        Ends E (f a s₁) w₁ (.ret (.error e, s')) w' := by
  rcases ends_bind_inv h with ⟨⟨e₁ | a, s₁⟩, w₁, hx, hk⟩ | ⟨-, ho⟩
  · have hret : Reach E (Outcome.ret (Except.error e₁, s₁)).toProg w₁
        (Outcome.ret (α := Except ε β × S) (Except.error e, s')).toProg w' := hk
    obtain ⟨ho, rfl⟩ := outcome_of_reach hret
    cases ho
    exact .inl hx
  · exact .inr ⟨a, s₁, w₁, hx, hk⟩
  · cases ho

/-- What every step keeps, every run keeps. -/
theorem Reach.keeps {J : Prog Res α → W → Prop} {p q : Prog Res α} {w v : W}
    (hstep : ∀ {p p' w w'}, J p w → Step E p w p' w' → J p' w') (h : Reach E p w q v)
    (hj : J p w) : J q v := by
  induction h with
  | refl => exact hj
  | head hs _ ih => exact ih (hstep hj hs)

/-! ## Calls -/

/-- The environment `E`, which may give up at a call that is not in `C`. -/
def Env.admitting (E : Env Res W) (C : Op → Prop) : Env Res (Option W) where
  pre w op := ∃ v, w = some v ∧ E.pre v op
  step
    | some w, op, r, some w' => E.step w op r w'
    | some _, op, _, none => ¬ C op
    | none, _, _, _ => False

/-- Until it gives up the run is one with `E`. -/
theorem reach_admitting {C : Op → Prop} {p q : Prog Res α} {w w' : W} (h : Reach E p w q w') :
    Reach (E.admitting C) p (some w) q (some w') := by
  induction h with
  | refl => exact .refl _ _
  | head hs _ ih =>
    refine .head ?_ ih
    cases hs with
    | call hs => exact .call hs
    | loop => exact .loop

/-- If it never gives up, all calls are in `C`. -/
theorem safely_admits {C : Op → Prop} {Q : Outcome α → Option W → Prop} {p : Prog Res α} {w w' : W}
    {op : Op} {k : Res op → Prog Res α} [Nonempty (Res op)]
    (h : Safely (E.admitting C) (· ≠ none) Q p (some w)) (hr : Reach E p w (.call op k) w') :
    C op := by
  refine Classical.byContradiction fun hop => ?_
  obtain ⟨r⟩ := ‹Nonempty (Res op)›
  have hstep : (E.admitting C).step (some w') op r none := hop
  exact (h _ _ ((reach_admitting hr).trans (.head (.call hstep) (.refl _ _)))).1 rfl

/-! ## Loops -/

/-- Turns that all go on lead from one head of the loop to another. -/
inductive Turns (E : Env Res W) (body : σ → Method Res ε S (σ ⊕ β)) (a : σ) (s : S) (w : W) :
    σ → S → W → Prop
  | none : Turns E body a s w a s w
  | more {a₁ a₂ : σ} {s₁ s₂ : S} {w₁ w₂ : W} : Turns E body a s w a₁ s₁ w₁ →
      Ends E (body a₁ s₁) w₁ (.ret (.ok (.inl a₂), s₂)) w₂ → Turns E body a s w a₂ s₂ w₂

variable {body : σ → Method Res ε S (σ ⊕ β)} {a a' : σ} {s s' : S} {w w' : W}

theorem turns_induction {J : σ → S → W → Prop} (h0 : J a s w)
    (hturn : ∀ a s w a' s' w', J a s w → Ends E (body a s) w (.ret (.ok (.inl a'), s')) w' →
      J a' s' w')
    (h : Turns E body a s w a' s' w') : J a' s' w' := by
  induction h with
  | none => exact h0
  | more _ he ih => exact hturn _ _ _ _ _ _ ih he

/-- How the last turn of a loop ends, from how the loop does. -/
def Outcome.ofTurn : Outcome (Except ε (σ ⊕ β) × S) → Option (Outcome (Except ε β × S))
  | .ret (.ok (.inl _), _) => none
  | .ret (.ok (.inr b), s) => some (.ret (.ok b, s))
  | .ret (.error e, s) => some (.ret (.error e, s))
  | .panic => some .panic

/-- A run of a loop that ends. -/
theorem ends_iter {o : Outcome (Except ε β × S)} (h : Ends E (Method.iter body a s) w o w') :
    ∃ a₁ s₁ w₁ o₁, Turns E body a s w a₁ s₁ w₁ ∧ Ends E (body a₁ s₁) w₁ o₁ w' ∧
      o₁.ofTurn = some o := by
  have hsafe : Safely E (fun _ => True) (fun o v => ∃ a₁ s₁ w₁ o₁, Turns E body a s w a₁ s₁ w₁ ∧
      Ends E (body a₁ s₁) w₁ o₁ v ∧ o₁.ofTurn = some o) (Method.iter body a s) w := by
    refine safely_iter (Turns E body a s w) ?_ .none
    intro a₁ s₁ w₁ hturns
    apply (safely_ends (body a₁ s₁) w₁).mono (fun _ hi => hi)
    rintro (⟨e | x | b, s₂⟩ | _) v - he
    · exact ⟨a₁, s₁, w₁, _, hturns, he, rfl⟩
    · exact .more hturns he
    · exact ⟨a₁, s₁, w₁, _, hturns, he, rfl⟩
    · exact ⟨a₁, s₁, w₁, _, hturns, he, rfl⟩
  exact (hsafe _ _ h).2 o rfl

/-- A loop in which a turn has got to `p`. -/
def Method.within (body : σ → Method Res ε S (σ ⊕ β)) (p : Prog Res (Except ε (σ ⊕ β) × S)) :
    Prog Res (Except ε β × S) :=
  (p.map Method.turn).bind (Prog.next (fun y => (body y.1 y.2).map Method.turn) .ret)

/-- A run of a loop has made some turns and is within the next one. -/
theorem reach_iter_inv {q : Prog Res (Except ε β × S)}
    (h : Reach E (Method.iter body a s) w q w') :
    ∃ a₁ s₁ w₁, Turns E body a s w a₁ s₁ w₁ ∧
      (q = Method.iter body a₁ s₁ ∧ w' = w₁ ∨
        ∃ p, Reach E (body a₁ s₁) w₁ p w' ∧ q = Method.within body p) := by
  refine h.keeps (J := fun q v => ∃ a₁ s₁ w₁, Turns E body a s w a₁ s₁ w₁ ∧
    (q = Method.iter body a₁ s₁ ∧ v = w₁ ∨
      ∃ p, Reach E (body a₁ s₁) w₁ p v ∧ q = Method.within body p)) ?_
    ⟨a, s, w, .none, .inl ⟨rfl, rfl⟩⟩
  rintro _ q' v v' ⟨a₁, s₁, w₁, hturns, ⟨rfl, rfl⟩ | ⟨p, hp, rfl⟩⟩ hs
  · cases hs
    exact ⟨a₁, s₁, v, hturns, .inr ⟨body a₁ s₁, .refl _ _, rfl⟩⟩
  · rcases step_bind_inv hs with ⟨_, hmap, rfl⟩ | ⟨x, hx⟩
    · rcases step_bind_inv hmap with ⟨p', hp', rfl⟩ | ⟨r, rfl⟩
      · exact ⟨a₁, s₁, w₁, hturns, .inr ⟨p', hp.trans (.head hp' (.refl _ _)), rfl⟩⟩
      · cases hmap
    · -- the turn has ended, and only one that goes on has a step left
      cases p with
      | ret r =>
        rcases r with ⟨e | a₂ | b, s₂⟩
        · cases hs
        · cases hs
          exact ⟨a₂, s₂, v, .more hturns hp, .inr ⟨body a₂ s₂, .refl _ _, rfl⟩⟩
        · cases hs
      | panic => cases hx
      | call op k => cases hx
      | loop body' s' k => cases hx

/-- What a loop still has to run when its turn has come to `x`. -/
def Method.rest (body : σ → Method Res ε S (σ ⊕ β)) (x : Method Res ε S (σ ⊕ β)) (s : S) :
    Prog Res (Except ε β × S) :=
  ((x s).map Method.turn).bind (Prog.next (fun y => (body y.1 y.2).map Method.turn) .ret)

/-- Within a turn the loop gets to what is left of it. -/
theorem reach_rest {x : Method Res ε S (σ ⊕ β)} (h : Reach E (body a s) w (x s') w') :
    Reach E (Method.iter body a s) w (Method.rest body x s') w' :=
  .head .loop (reach_bind (reach_bind h _) _)

theorem reach_turns (h : Turns E body a s w a' s' w') :
    Reach E (Method.iter body a s) w (Method.iter body a' s') w' := by
  induction h with
  | none => exact .refl _ _
  | @more a₁ a₂ s₁ s₂ w₁ w₂ _ he ih =>
    refine ih.trans (.head .loop ?_)
    exact reach_bind (reach_bind he _) _

/-- A turn that ends the loop. -/
theorem always_rest {Q : Outcome (Except ε β × S) → W → Prop} {x : Method Res ε S (σ ⊕ β)}
    (h : Always E (fun o v => ∃ o', o.ofTurn = some o' ∧ Q o' v) (x s) w) :
    Always E Q (Method.rest body x s) w := by
  refine always_bind (always_map (h.mono ?_))
  rintro (⟨e | y | b, s'⟩ | _) v ⟨o', ho, hq⟩
  · cases ho; exact .ret hq
  · cases ho
  · cases ho; exact .ret hq
  · cases ho; exact .panic hq

theorem safely_rest {I : W → Prop} {Q : Outcome (Except ε β × S) → W → Prop}
    {x : Method Res ε S (σ ⊕ β)}
    (h : Safely E I (fun o v => ∃ o', o.ofTurn = some o' ∧ Q o' v) (x s) w) :
    Safely E I Q (Method.rest body x s) w := by
  refine safely_bind (safely_map (h.mono (fun _ hi => hi) ?_))
  rintro (⟨e | y | b, s'⟩ | _) v hi ⟨o', ho, hq⟩
  · cases ho; exact safely_ret hi hq
  · cases ho
  · cases ho; exact safely_ret hi hq
  · cases ho; exact safely_panic hi hq

theorem ends_rest {x : Method Res ε S (σ ⊕ β)} {o₁ : Outcome (Except ε (σ ⊕ β) × S)}
    {o : Outcome (Except ε β × S)} (h : Ends E (x s) w o₁ w') (ho : o₁.ofTurn = some o) :
    Ends E (Method.rest body x s) w o w' := by
  apply (reach_bind (reach_bind h _) _).trans
  rcases o₁ with ⟨e | y | b, s'⟩ | _ <;> cases ho <;> exact .refl _ _

end Interaction
