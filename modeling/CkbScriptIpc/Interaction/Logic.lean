import CkbScriptIpc.Interaction.Prog

/-!
# Total and partial correctness of interaction programs

`Always` is total and demonic, `Safely` is partial and carries an invariant of
every state on the way. Both have one rule for each constructor and one for
`bind`; a loop needs an induction of its own for `Always` and an invariant for
`Safely`.
-/

namespace Interaction

variable {Op : Type} {Res : Op → Type} {α β γ σ W : Type} {E : Env Res W}

/-- The environment of programs that call nothing. -/
def silent : Env Res Unit where
  pre _ _ := False
  step _ _ _ _ := False

theorem silent_answers : (silent : Env Res Unit).Answers := fun _ _ h => h.elim

/-! ## Total correctness -/

/-- Every run of the program from this state ends, in `Q`, and calls only what
the environment permits. -/
inductive Always (E : Env Res W) (Q : Outcome α → W → Prop) : Prog Res α → W → Prop
  | ret {a : α} {w : W} : Q (.ret a) w → Always E Q (.ret a) w
  | panic {w : W} : Q .panic w → Always E Q .panic w
  | call {op : Op} {k : Res op → Prog Res α} {w : W} : E.pre w op →
      (∀ r w', E.step w op r w' → Always E Q (k r) w') → Always E Q (.call op k) w
  | loop {σ β : Type} {body : σ → Prog Res (σ ⊕ β)} {s : σ} {k : β → Prog Res α} {w : W} :
      Always E Q (Prog.unroll body s k) w → Always E Q (.loop body s k) w

theorem Always.mono {Q Q' : Outcome α → W → Prop} {p : Prog Res α} {w : W}
    (h : Always E Q p w) (hq : ∀ o w', Q o w' → Q' o w') : Always E Q' p w := by
  induction h with
  | ret h => exact .ret (hq _ _ h)
  | panic h => exact .panic (hq _ _ h)
  | call hp _ ih => exact .call hp ih
  | loop _ ih => exact .loop ih

/-- What a sequence needs of its first part. -/
def andThen (k : α → Prog Res β) (R : Prog Res β → W → Prop) : Outcome α → W → Prop
  | .ret a, w => R (k a) w
  | .panic, w => R .panic w

theorem always_bind {Q : Outcome β → W → Prop} {p : Prog Res α} {k : α → Prog Res β} {w : W}
    (h : Always E (andThen k (Always E Q)) p w) : Always E Q (p.bind k) w := by
  induction h with
  | ret h => exact h
  | panic h => exact h
  | call hp _ ih => exact .call hp ih
  | loop _ ih =>
    rw [Prog.unroll_bind] at ih
    exact .loop ih

/-- The rule for a first part that returns. -/
theorem always_bind_returns {Q : Outcome β → W → Prop} {P : α → W → Prop} {p : Prog Res α}
    {k : α → Prog Res β} {w : W} (h : Always E (returns P) p w)
    (hk : ∀ a w', P a w' → Always E Q (k a) w') : Always E Q (p.bind k) w := by
  apply always_bind (h.mono _)
  intro o w' ho
  cases o with
  | ret a => exact hk a w' ho
  | panic => exact ho.elim

/-- The rule for an `unwrap` that does not panic. -/
theorem always_unwrap {Q : Outcome β → W → Prop} {o : Option α} {a : α} {k : α → Prog Res β} {w : W}
    (ho : o = some a) (hk : Always E Q (k a) w) : Always E Q ((Prog.unwrap o).bind k) w := by
  rw [ho]
  exact hk

/-- The rule for one turn of a loop. -/
theorem always_loop {Q : Outcome α → W → Prop} {body : σ → Prog Res (σ ⊕ β)} {s : σ}
    {k : β → Prog Res α} {w : W}
    (h : Always E (andThen (Prog.next body k) (Always E Q)) (body s) w) :
    Always E Q (.loop body s k) w :=
  .loop (always_bind h)

theorem always_step {Q : Outcome α → W → Prop} {p p' : Prog Res α} {w w' : W}
    (h : Always E Q p w) (hs : Step E p w p' w') : Always E Q p' w' := by
  cases hs with
  | call hs =>
    cases h with
    | call _ h => exact h _ _ hs
  | loop =>
    cases h with
    | loop h => exact h

theorem always_reach {Q : Outcome α → W → Prop} {p p' : Prog Res α} {w w' : W}
    (h : Always E Q p w) (hr : Reach E p w p' w') : Always E Q p' w' := by
  induction hr with
  | refl => exact h
  | head hs _ ih => exact ih (always_step h hs)

theorem always_outcome {Q : Outcome α → W → Prop} {o : Outcome α} {w : W}
    (h : Always E Q o.toProg w) : Q o w := by
  cases o <;> cases h <;> assumption

/-- **Adequacy.** A run that ends has the postcondition. -/
theorem Always.ends {Q : Outcome α → W → Prop} {p : Prog Res α} {w w' : W} {o : Outcome α}
    (h : Always E Q p w) (hr : Ends E p w o w') : Q o w' :=
  always_outcome (always_reach h hr)

/-- Where every permitted call is answered, some run ends. -/
theorem Always.exists_ends {Q : Outcome α → W → Prop} {p : Prog Res α} {w : W}
    (hE : E.Answers) (h : Always E Q p w) : ∃ o w', Ends E p w o w' ∧ Q o w' := by
  induction h with
  | @ret a w h => exact ⟨.ret a, w, .refl _ _, h⟩
  | @panic w h => exact ⟨.panic, w, .refl _ _, h⟩
  | call hp _ ih =>
    obtain ⟨r, w', hs⟩ := hE _ _ hp
    obtain ⟨o, v, hr, hq⟩ := ih r w' hs
    exact ⟨o, v, .head (.call hs) hr, hq⟩
  | loop _ ih =>
    obtain ⟨o, v, hr, hq⟩ := ih
    exact ⟨o, v, .head .loop hr, hq⟩

/-- Two total specifications of one program hold together. -/
theorem Always.and {Q Q' : Outcome α → W → Prop} {p : Prog Res α} {w : W}
    (h : Always E Q p w) (h' : Always E Q' p w) :
    Always E (fun o v => Q o v ∧ Q' o v) p w := by
  induction h with
  | ret h => exact .ret ⟨h, always_outcome (o := .ret _) h'⟩
  | panic h => exact .panic ⟨h, always_outcome (o := .panic) h'⟩
  | call hp _ ih =>
    cases h' with
    | call _ h' => exact .call hp fun r v hs => ih r v hs (h' r v hs)
  | loop _ ih =>
    cases h' with
    | loop h' => exact .loop (ih h')

/-! ## Partial correctness with an invariant -/

/-- Every state that `p` reaches from `w` satisfies `I`, and where `p` has ended
it satisfies `Q`. -/
def Safely (E : Env Res W) (I : W → Prop) (Q : Outcome α → W → Prop) (p : Prog Res α)
    (w : W) : Prop :=
  ∀ p' w', Reach E p w p' w' → I w' ∧ ∀ o : Outcome α, p' = o.toProg → Q o w'

theorem Safely.inv {I : W → Prop} {Q : Outcome α → W → Prop} {p : Prog Res α} {w : W}
    (h : Safely E I Q p w) : I w := (h p w (.refl _ _)).1

theorem Safely.post {I : W → Prop} {Q : Outcome α → W → Prop} {o : Outcome α} {w : W}
    (h : Safely E I Q o.toProg w) : Q o w := (h _ w (.refl _ _)).2 o rfl

theorem Safely.step {I : W → Prop} {Q : Outcome α → W → Prop} {p p' : Prog Res α} {w w' : W}
    (h : Safely E I Q p w) (hs : Step E p w p' w') : Safely E I Q p' w' :=
  fun q v hr => h q v (.head hs hr)

theorem Safely.mono {I I' : W → Prop} {Q Q' : Outcome α → W → Prop} {p : Prog Res α} {w : W}
    (h : Safely E I Q p w) (hi : ∀ v, I v → I' v) (hq : ∀ o v, I v → Q o v → Q' o v) :
    Safely E I' Q' p w :=
  fun q v hr => ⟨hi v (h q v hr).1, fun o e => hq o v (h q v hr).1 ((h q v hr).2 o e)⟩

theorem Safely.and {I I' : W → Prop} {Q Q' : Outcome α → W → Prop} {p : Prog Res α} {w : W}
    (h : Safely E I Q p w) (h' : Safely E I' Q' p w) :
    Safely E (fun v => I v ∧ I' v) (fun o v => Q o v ∧ Q' o v) p w :=
  fun q v hr => ⟨⟨(h q v hr).1, (h' q v hr).1⟩, fun o e => ⟨(h q v hr).2 o e, (h' q v hr).2 o e⟩⟩

theorem Always.safely {Q : Outcome α → W → Prop} {p : Prog Res α} {w : W}
    (h : Always E Q p w) : Safely E (fun _ => True) Q p w :=
  fun _ _ hr => ⟨trivial, fun _ e => always_outcome (e ▸ always_reach h hr)⟩

/-- What every run that ends ends in holds beside what is shown of all runs. -/
theorem Always.and_safely {I : W → Prop} {Q Q' : Outcome α → W → Prop} {p : Prog Res α} {w : W}
    (h : Always E Q p w) (h' : Safely E I Q' p w) : Always E (fun o v => Q o v ∧ Q' o v) p w := by
  induction h with
  | ret hq => exact .ret ⟨hq, h'.post (o := .ret _)⟩
  | panic hq => exact .panic ⟨hq, h'.post (o := .panic)⟩
  | call hp _ ih => exact .call hp fun r v hs => ih r v hs (h'.step (.call hs))
  | loop _ ih => exact .loop (ih (h'.step .loop))

/-- An invariant that every permitted step keeps. -/
theorem Always.safely_inv {I : W → Prop} {Q : Outcome α → W → Prop} {p : Prog Res α} {w : W}
    (hstep : ∀ {v op r v'}, I v → E.pre v op → E.step v op r v' → I v')
    (h : Always E Q p w) (hi : I w) : Safely E I Q p w := by
  intro p' w' hr
  induction hr with
  | refl => exact ⟨hi, fun _ e => always_outcome (e ▸ h)⟩
  | head hs _ ih =>
    have h' := always_step h hs
    cases hs with
    | call hs =>
      cases h with
      | call hpre _ => exact ih h' (hstep hi hpre hs)
    | loop => exact ih h' hi

theorem safely_outcome {I : W → Prop} {Q : Outcome α → W → Prop} {o : Outcome α} {w : W}
    (hi : I w) (hq : Q o w) : Safely E I Q o.toProg w := by
  intro p' w' hr
  generalize hp : (o.toProg : Prog Res α) = p at hr
  cases hr with
  | refl =>
    subst hp
    refine ⟨hi, fun o' e => ?_⟩
    cases o <;> cases o' <;> cases e <;> exact hq
  | head hs _ =>
    subst hp
    exact absurd hs outcome_stuck

theorem safely_ret {I : W → Prop} {Q : Outcome α → W → Prop} {a : α} {w : W}
    (hi : I w) (hq : Q (.ret a) w) : Safely E I Q (.ret a) w :=
  safely_outcome (o := .ret a) hi hq

theorem safely_panic {I : W → Prop} {Q : Outcome α → W → Prop} {w : W}
    (hi : I w) (hq : Q .panic w) : Safely E I Q .panic w :=
  safely_outcome (o := .panic) hi hq

theorem safely_call {I : W → Prop} {Q : Outcome α → W → Prop} {op : Op}
    {k : Res op → Prog Res α} {w : W} (hi : I w)
    (h : ∀ r w', E.step w op r w' → Safely E I Q (k r) w') : Safely E I Q (.call op k) w := by
  intro p' w' hr
  cases hr with
  | refl => exact ⟨hi, fun o e => by cases o <;> cases e⟩
  | head hs hr =>
    cases hs with
    | call hs => exact h _ _ hs _ _ hr

theorem safely_bind {I : W → Prop} {Q : Outcome β → W → Prop} {p : Prog Res α}
    {k : α → Prog Res β} {w : W} (h : Safely E I (andThen k (Safely E I Q)) p w) :
    Safely E I Q (p.bind k) w := by
  intro q w' hr
  rcases reach_bind_inv hr with ⟨p', hp, rfl⟩ | ⟨a, v, hp, hk⟩
  · obtain ⟨hi, hq⟩ := h _ _ hp
    refine ⟨hi, fun o e => ?_⟩
    cases p' with
    | ret a => exact ((hq (.ret a) rfl) _ _ (.refl _ _)).2 o e
    | panic => exact ((hq .panic rfl) _ _ (.refl _ _)).2 o e
    | call op k' => cases o <;> cases e
    | loop body s k' => cases o <;> cases e
  · exact (h _ _ hp).2 (.ret a) rfl _ _ hk

/-- The postcondition of one turn: the loop goes on in `J`, or leaves through `k`. -/
def afterTurn (E : Env Res W) (I : W → Prop) (Q : Outcome α → W → Prop) (k : β → Prog Res α)
    (J : σ → W → Prop) : Outcome (σ ⊕ β) → W → Prop
  | .ret (.inl s), w => J s w
  | .ret (.inr b), w => Safely E I Q (k b) w
  | .panic, w => Q .panic w

/-- The configurations of a loop with invariant `J`: at its head, inside a turn,
or past it. -/
def InLoop (E : Env Res W) (I : W → Prop) (Q : Outcome α → W → Prop)
    (body : σ → Prog Res (σ ⊕ β)) (k : β → Prog Res α) (J : σ → W → Prop)
    (q : Prog Res α) (w : W) : Prop :=
  (∃ s, q = .loop body s k ∧ J s w) ∨ Safely E I Q q w ∨
    ∃ p, q = p.bind (Prog.next body k) ∧ Safely E I (afterTurn E I Q k J) p w

theorem inLoop_step {I : W → Prop} {Q : Outcome α → W → Prop} {body : σ → Prog Res (σ ⊕ β)}
    {k : β → Prog Res α} {J : σ → W → Prop}
    (hturn : ∀ s w, J s w → Safely E I (afterTurn E I Q k J) (body s) w)
    {q q' : Prog Res α} {w w' : W} (h : InLoop E I Q body k J q w) (hs : Step E q w q' w') :
    InLoop E I Q body k J q' w' := by
  rcases h with ⟨s, rfl, hj⟩ | hsafe | ⟨p, rfl, hp⟩
  · cases hs
    exact .inr (.inr ⟨body s, rfl, hturn s _ hj⟩)
  · exact .inr (.inl (hsafe.step hs))
  · rcases step_bind_inv hs with ⟨p', hp', rfl⟩ | ⟨x, rfl⟩
    · exact .inr (.inr ⟨p', rfl, hp.step hp'⟩)
    · have hx := hp.post (o := .ret x)
      cases x with
      | inl s =>
        cases hs
        exact .inr (.inr ⟨body s, rfl, hturn s _ hx⟩)
      | inr b => exact .inr (.inl (Safely.step hx hs))

theorem inLoop_sound {I : W → Prop} {Q : Outcome α → W → Prop} {body : σ → Prog Res (σ ⊕ β)}
    {k : β → Prog Res α} {J : σ → W → Prop}
    (hturn : ∀ s w, J s w → Safely E I (afterTurn E I Q k J) (body s) w)
    {q : Prog Res α} {w : W} (h : InLoop E I Q body k J q w) :
    I w ∧ ∀ o : Outcome α, q = o.toProg → Q o w := by
  rcases h with ⟨s, rfl, hj⟩ | hsafe | ⟨p, rfl, hp⟩
  · exact ⟨(hturn s w hj).inv, fun o e => by cases o <;> cases e⟩
  · exact hsafe q w (.refl _ _)
  · refine ⟨hp.inv, fun o e => ?_⟩
    cases p with
    | ret x =>
      have hx := hp.post (o := .ret x)
      cases x with
      | inl s => cases o <;> cases e
      | inr b => exact (Safely.post (I := I) (show Safely E I Q o.toProg w from e ▸ hx))
    | panic =>
      cases o with
      | ret a => cases e
      | panic => exact hp.post (o := .panic)
    | call op k' => cases o <;> cases e
    | loop body s k' => cases o <;> cases e

/-- **Loop rule.** `J` holds at the head of every turn. -/
theorem safely_loop {I : W → Prop} {Q : Outcome α → W → Prop} {body : σ → Prog Res (σ ⊕ β)}
    {k : β → Prog Res α} (J : σ → W → Prop)
    (hturn : ∀ s w, J s w → Safely E I (afterTurn E I Q k J) (body s) w)
    {s : σ} {w : W} (h : J s w) : Safely E I Q (.loop body s k) w := by
  intro q v hr
  apply inLoop_sound hturn
  have hstart : InLoop E I Q body k J (.loop body s k) w := .inl ⟨s, rfl, h⟩
  clear h
  generalize Prog.loop body s k = p at hr hstart
  induction hr with
  | refl => exact hstart
  | head hs _ ih => exact ih (inLoop_step hturn hstart hs)

end Interaction
