import CkbScriptIpc.Interaction.Method

/-!
# Programs cut short

A program that makes the calls of another one, but may panic anywhere on the way. What is always
so of the whole program is so of the one that is cut short, unless it has panicked.

* `Cuts.bind`, `Cuts.unroll`: each part of a program is cut on its own;
* `always_cut`: a proof about the whole program carries over.
-/

namespace Interaction

variable {Op : Type} {Res : Op → Type} {W S T α β σ ε ε' : Type}

/-- `p` does what `q` does, up to where it panics. -/
inductive Cuts : {α : Type} → Prog Res α → Prog Res α → Prop
  | panic {α : Type} {q : Prog Res α} : Cuts .panic q
  | ret {α : Type} (a : α) : Cuts (.ret a) (.ret a)
  | call {α : Type} {op : Op} {k l : Res op → Prog Res α} :
      (∀ r, Cuts (k r) (l r)) → Cuts (.call op k) (.call op l)
  | loop {α σ β : Type} {body body' : σ → Prog Res (σ ⊕ β)} {s : σ} {k l : β → Prog Res α} :
      (∀ s, Cuts (body s) (body' s)) → (∀ b, Cuts (k b) (l b)) →
        Cuts (.loop body s k) (.loop body' s l)

theorem Cuts.refl (p : Prog Res α) : Cuts p p := by
  induction p with
  | ret a => exact .ret a
  | panic => exact .panic
  | call _ _ ih => exact .call ih
  | loop _ _ _ ihb ihk => exact .loop ihb ihk

theorem Cuts.bind {p q : Prog Res α} (h : Cuts p q) {f g : α → Prog Res β}
    (hf : ∀ a, Cuts (f a) (g a)) : Cuts (p.bind f) (q.bind g) := by
  induction h with
  | panic => exact .panic
  | ret a => exact hf a
  | call _ ih => exact .call fun r => ih r hf
  | loop hb _ _ ihk => exact .loop hb fun b => ihk b hf

theorem Cuts.unroll {body body' : σ → Prog Res (σ ⊕ β)} {s : σ} {k l : β → Prog Res α}
    (hb : ∀ s, Cuts (body s) (body' s)) (hk : ∀ b, Cuts (k b) (l b)) :
    Cuts (Prog.unroll body s k) (Prog.unroll body' s l) := by
  refine (hb s).bind ?_
  rintro (s' | b)
  · exact .loop hb hk
  · exact hk b

/-- **What is always so of a program is so of it cut short**, unless that has panicked. -/
theorem always_cut {E : Env Res W} {Q : Outcome α → W → Prop} {p q : Prog Res α} {w : W}
    (h : Always E Q q w) (hc : Cuts p q) : Always E (fun o w => o = .panic ∨ Q o w) p w := by
  induction h generalizing p with
  | ret hq =>
    cases hc with
    | panic => exact .panic (.inl rfl)
    | ret => exact .ret (.inr hq)
  | panic _ =>
    cases hc with
    | panic => exact .panic (.inl rfl)
  | call hp _ ih =>
    cases hc with
    | panic => exact .panic (.inl rfl)
    | call hk => exact .call hp fun r w' hs => ih r w' hs (hk r)
  | loop _ ih =>
    cases hc with
    | panic => exact .panic (.inl rfl)
    | loop hb hk => exact .loop (ih (.unroll hb hk))

/-! ## Methods -/

/-- From every state `x` is `y` cut short. -/
def Method.Cuts (x y : Method Res ε S α) : Prop := ∀ s, Interaction.Cuts (x s) (y s)

theorem cuts_refl (x : Method Res ε S α) : x.Cuts x := fun s => .refl (x s)

theorem cuts_panic (y : Method Res ε S α) : Method.Cuts Method.panic y := fun _ => .panic

theorem cuts_seq {x y : Method Res ε S α} {f g : α → Method Res ε S β} (hx : x.Cuts y)
    (hf : ∀ a, (f a).Cuts (g a)) : Method.Cuts (x >>= f) (y >>= g) := by
  refine fun s => (hx s).bind ?_
  rintro ⟨e | a, s'⟩
  · exact .ret _
  · exact hf a s'

theorem cuts_attempt {x y : Method Res ε S α} (hx : x.Cuts y) :
    Method.Cuts (Method.attempt x : Method Res ε' S (Except ε α)) (Method.attempt y) :=
  fun s => (hx s).bind fun _ => .ret _

theorem cuts_mapErr {x y : Method Res ε S α} (hx : x.Cuts y) (f : ε → ε') :
    Method.Cuts (x.mapErr f) (y.mapErr f) := fun s => (hx s).bind fun _ => .ret _

theorem cuts_zoom {x y : Method Res ε S α} (hx : x.Cuts y) (proj : T → S) (put : S → T → T) :
    Method.Cuts (Method.zoom proj put x) (Method.zoom proj put y) :=
  fun t => (hx (proj t)).bind fun _ => .ret _

theorem cuts_iter {body body' : σ → Method Res ε S (σ ⊕ β)} (h : ∀ a, (body a).Cuts (body' a))
    (a : σ) : Method.Cuts (Method.iter body a) (Method.iter body' a) :=
  fun _ => .loop (fun t => (h t.1 t.2).bind fun _ => .ret _) fun b => .ret b

end Interaction
