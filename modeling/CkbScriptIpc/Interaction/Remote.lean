import CkbScriptIpc.Interaction.Method

/-!
# Programs that call through stubs

A client is written as a program whose operations are the methods of a service. `Prog.via` has a
stub make each of its calls, so that it becomes a program over what the stubs call.

* `always_foretold`, `always_determined`: where the answers are determined, so are the calls that a
  client makes, and how it ends;
* `always_via`: what is proved of a client that calls a service holds of the client that calls
  stubs, when the stubs do what the service does.
-/

namespace Interaction

variable {Op Op' : Type} {Res : Op → Type} {Res' : Op' → Type} {α β σ S W W' : Type}

/-! ## Calls that are known beforehand -/

namespace Env

/-- There is at most one answer to a call. -/
def Determined (E : Env Res W) : Prop :=
  ∀ {w op r w' r' w''}, E.step w op r w' → E.step w op r' w'' → r' = r ∧ w'' = w'

/-- The environment, beside a list of the calls that are to be made. -/
def foretold (E : Env Res W) : Env Res (W × List Op) where
  pre v op := E.pre v.1 op ∧ ∃ ops, v.2 = op :: ops
  step v op r v' := E.step v.1 op r v'.1 ∧ v.2 = op :: v'.2

end Env

/-- **The calls of a run are determined** by the answers. -/
theorem always_foretold {E : Env Res W} (hE : E.Determined) {Q : Outcome α → W → Prop}
    {p : Prog Res α} {w : W} (h : Always E Q p w) :
    ∃ ops, Always E.foretold (fun o v => Q o v.1 ∧ v.2 = []) p (w, ops) := by
  induction h with
  | ret hq => exact ⟨[], .ret ⟨hq, rfl⟩⟩
  | panic hq => exact ⟨[], .panic ⟨hq, rfl⟩⟩
  | loop _ ih =>
    obtain ⟨ops, hops⟩ := ih
    exact ⟨ops, .loop hops⟩
  | @call op k w hpre _ ih =>
    by_cases hanswer : ∃ r w', E.step w op r w'
    · obtain ⟨r, w', hs⟩ := hanswer
      obtain ⟨ops, hops⟩ := ih r w' hs
      refine ⟨op :: ops, .call ⟨hpre, ops, rfl⟩ ?_⟩
      rintro r' ⟨w'', ops'⟩ ⟨hs', heq⟩
      obtain ⟨rfl, rfl⟩ := hE hs hs'
      obtain rfl := (List.cons.inj heq).2
      exact hops
    -- a call that is not answered is the last one
    · refine ⟨[op], .call ⟨hpre, [], rfl⟩ ?_⟩
      rintro r ⟨w', ops'⟩ ⟨hs, -⟩
      exact absurd ⟨r, w', hs⟩ hanswer

/-- Where the answers are determined, so is the end of a run. -/
theorem always_determined {E : Env Res W} (hE : E.Determined) (hanswers : E.Answers)
    {Q : Outcome α → W → Prop} {p : Prog Res α} {w : W} (h : Always E Q p w) :
    ∃ o v, Q o v ∧ Always E (fun o' v' => o' = o ∧ v' = v) p w := by
  induction h with
  | @ret a w hq => exact ⟨.ret a, w, hq, .ret ⟨rfl, rfl⟩⟩
  | @panic w hq => exact ⟨.panic, w, hq, .panic ⟨rfl, rfl⟩⟩
  | call hpre _ ih =>
    obtain ⟨r, w', hs⟩ := hanswers _ _ hpre
    obtain ⟨o, v, hq, hp⟩ := ih r w' hs
    refine ⟨o, v, hq, .call hpre fun r' w'' hs' => ?_⟩
    obtain ⟨rfl, rfl⟩ := hE hs hs'
    exact hp
  | loop _ ih =>
    obtain ⟨o, v, hq, hp⟩ := ih
    exact ⟨o, v, hq, .loop hp⟩

/-! ## Stubs -/

/-- Beside the state of a loop, or its result, that of the stubs. -/
def beside : (σ ⊕ β) × S → (σ × S) ⊕ (β × S)
  | (.inl a, s) => .inl (a, s)
  | (.inr b, s) => .inr (b, s)

namespace Prog

/-- Every call of the program is made by a stub, which works on a state of its own. -/
def via (stub : (op : Op) → S → Prog Res' (Res op × S)) :
    {α : Type} → Prog Res α → S → Prog Res' (α × S)
  | _, .ret a, s => .ret (a, s)
  | _, .panic, _ => .panic
  | _, .call op k, s => (stub op s).bind fun r => (k r.1).via stub r.2
  | _, .loop body a k, s =>
    .loop (fun x => ((body x.1).via stub x.2).map beside) (a, s) fun x => (k x.1).via stub x.2

variable {stub : (op : Op) → S → Prog Res' (Res op × S)}

theorem via_bind (p : Prog Res α) (f : α → Prog Res β) (s : S) :
    (p.bind f).via stub s = (p.via stub s).bind fun r => (f r.1).via stub r.2 := by
  induction p generalizing s with
  | ret a => rfl
  | panic => rfl
  | call op k ih => simp only [bind, via, ih, bind_assoc]
  | loop body a k _ ih => simp only [bind, via, ih]

theorem via_unroll (body : σ → Prog Res (σ ⊕ β)) (a : σ) (k : β → Prog Res α) (s : S) :
    (unroll body a k).via stub s =
      unroll (fun x => ((body x.1).via stub x.2).map beside) (a, s)
        fun x => (k x.1).via stub x.2 := by
  rw [unroll, via_bind, unroll, map, bind_assoc]
  congr 1
  funext r
  rcases r with ⟨_ | b, s'⟩ <;> rfl

end Prog

/-- **What holds with the service holds with the stubs.** `V` says which states of the stubs and of
what they call stand for the service. -/
theorem always_via {E : Env Res W} {E' : Env Res' W'} {V : W → S → W' → Prop}
    {stub : (op : Op) → S → Prog Res' (Res op × S)}
    (hstub : ∀ {w op s w'}, E.pre w op → V w s w' → Always E'
      (returns fun r v' => ∃ v, E.step w op r.1 v ∧ V v r.2 v') (stub op s) w')
    {Q : α → W → Prop} {p : Prog Res α} {w : W} {s : S} {w' : W'}
    (h : Always E (returns Q) p w) (hw : V w s w') :
    Always E' (returns fun r v' => ∃ v, Q r.1 v ∧ V v r.2 v') (p.via stub s) w' := by
  induction h generalizing s w' with
  | ret hq => exact .ret ⟨_, hq, hw⟩
  | panic hq => exact hq.elim
  | call hpre _ ih =>
    refine always_bind_returns (hstub hpre hw) ?_
    rintro ⟨r, s'⟩ v' ⟨v, hs, hv⟩
    exact ih r v hs hv
  | loop _ ih =>
    apply Always.loop
    have hnext := ih hw
    rwa [Prog.via_unroll] at hnext

end Interaction
