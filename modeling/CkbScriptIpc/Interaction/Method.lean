import CkbScriptIpc.Interaction.Logic

/-!
# Methods

A method works on a state `S` in place, may perform operations, and gives a
result or an error. The state survives an error, as it does behind a Rust
`&mut self` or a C out-parameter. The rules below run the two program logics
over the method combinators.
-/

namespace Interaction

variable {Op : Type} {Res : Op → Type} {α β γ σ ε ε' S T W : Type} {E : Env Res W}

def Outcome.map (g : α → β) : Outcome α → Outcome β
  | .ret a => .ret (g a)
  | .panic => .panic

def Prog.map (g : α → β) (p : Prog Res α) : Prog Res β := p.bind fun a => .ret (g a)

theorem always_map {Q : Outcome β → W → Prop} {g : α → β} {p : Prog Res α} {w : W}
    (h : Always E (fun o v => Q (o.map g) v) p w) : Always E Q (p.map g) w := by
  refine always_bind (h.mono ?_)
  rintro (a | _) v hq
  · exact .ret hq
  · exact .panic hq

theorem safely_map {I : W → Prop} {Q : Outcome β → W → Prop} {g : α → β} {p : Prog Res α}
    {w : W} (h : Safely E I (fun o v => Q (o.map g) v) p w) : Safely E I Q (p.map g) w := by
  refine safely_bind (h.mono (fun _ hi => hi) ?_)
  rintro (a | _) v hi hq
  · exact safely_ret hi hq
  · exact safely_panic hi hq

def Method (Res : Op → Type) (ε S α : Type) : Type 1 := S → Prog Res (Except ε α × S)

namespace Method

/-- Go on with the value, or hand the error on: the `?` of Rust, the `CHECK` of C. -/
def cont (f : α → Method Res ε S β) : Except ε α × S → Prog Res (Except ε β × S)
  | (.ok a, s) => f a s
  | (.error e, s) => .ret (.error e, s)

instance : Monad (Method Res ε S) where
  pure a := fun s => .ret (.ok a, s)
  bind x f := fun s => (x s).bind (cont f)

def throw (e : ε) : Method Res ε S α := fun s => .ret (.error e, s)

def panic : Method Res ε S α := fun _ => .panic

def get : Method Res ε S S := fun s => .ret (.ok s, s)

def set (s : S) : Method Res ε S Unit := fun _ => .ret (.ok (), s)

def modify (f : S → S) : Method Res ε S Unit := fun s => .ret (.ok (), f s)

def lift (p : Prog Res α) : Method Res ε S α := fun s => p.map fun a => (.ok a, s)

def ofExcept : Except ε α → Method Res ε S α
  | .ok a => pure a
  | .error e => throw e

/-- Keep an error as a value instead of handing it on. -/
def attempt (x : Method Res ε S α) : Method Res ε' S (Except ε α) :=
  fun s => (x s).map fun r => (.ok r.1, r.2)

def mapErr (f : ε → ε') (x : Method Res ε S α) : Method Res ε' S α :=
  fun s => (x s).map fun r => (r.1.mapError f, r.2)

/-- Run a method on a part of the state. -/
def zoom (proj : T → S) (put : S → T → T) (x : Method Res ε S α) : Method Res ε T α :=
  fun t => (x (proj t)).map fun r => (r.1, put r.2 t)

/-- Run a method with an out-parameter that holds `t` before. -/
def out (t : T) (x : Method Res ε (S × T) Unit) : Method Res ε S T :=
  fun s => (x (s, t)).map fun r => (r.1.map fun _ => r.2.2, r.2.1)

/-- What the value of one turn says about a loop. -/
def turn : Except ε (σ ⊕ β) × S → (σ × S) ⊕ (Except ε β × S)
  | (.ok (.inl a), s) => .inl (a, s)
  | (.ok (.inr b), s) => .inr (.ok b, s)
  | (.error e, s) => .inr (.error e, s)

def iter (body : σ → Method Res ε S (σ ⊕ β)) (a : σ) : Method Res ε S β :=
  fun s => Prog.iter (fun x => (body x.1 x.2).map turn) (a, s)

end Method

@[simp] theorem pure_seq (a : α) (f : α → Method Res ε S β) (s : S) :
    ((pure a : Method Res ε S α) >>= f) s = f a s := rfl

@[simp] theorem get_seq (f : S → Method Res ε S β) (s : S) :
    (Method.get >>= f) s = f s s := rfl

@[simp] theorem set_seq (t : S) (f : Unit → Method Res ε S β) (s : S) :
    (Method.set t >>= f) s = f () t := rfl

@[simp] theorem modify_seq (g : S → S) (f : Unit → Method Res ε S β) (s : S) :
    (Method.modify g >>= f) s = f () (g s) := rfl

@[simp] theorem ofExcept_ok_seq (a : α) (f : α → Method Res ε S β) (s : S) :
    ((Method.ofExcept (.ok a) : Method Res ε S α) >>= f) s = f a s := rfl

@[simp] theorem throw_seq (e : ε) (f : α → Method Res ε S β) (s : S) :
    ((Method.throw e : Method Res ε S α) >>= f) s = .ret (.error e, s) := rfl

theorem seq_assoc {γ : Type} (x : Method Res ε S α) (f : α → Method Res ε S β)
    (g : β → Method Res ε S γ) : (x >>= f) >>= g = x >>= fun a => f a >>= g := by
  funext s
  show ((x s).bind (Method.cont f)).bind (Method.cont g) = _
  rw [Prog.bind_assoc]
  show _ = (x s).bind (Method.cont fun a => f a >>= g)
  congr 1
  funext r
  rcases r with ⟨e | a, s'⟩ <;> rfl

/-! ## Methods that compute

What a method computes from a state, without a call. -/

theorem seq_ok {x : Method Res ε S α} {s s' : S} {a : α} (h : x s = .ret (.ok a, s'))
    (f : α → Method Res ε S β) : (x >>= f) s = f a s' := by
  show (x s).bind _ = _
  rw [h]
  rfl

theorem attempt_ret {x : Method Res ε S α} {s s' : S} {r : Except ε α} (h : x s = .ret (r, s')) :
    (Method.attempt x : Method Res ε' S (Except ε α)) s = .ret (.ok r, s') := by
  rw [Method.attempt, h]
  rfl

theorem zoom_ret {x : Method Res ε S α} {proj : T → S} {put : S → T → T} {t : T} {s' : S}
    {r : Except ε α} (h : x (proj t) = .ret (r, s')) :
    Method.zoom proj put x t = .ret (r, put s' t) := by
  rw [Method.zoom, h]
  rfl

/-! ## Postconditions of methods -/

/-- The method gives a result, with `P`. -/
def succeeds (P : α → S → W → Prop) : Outcome (Except ε α × S) → W → Prop
  | .ret (.ok a, s), w => P a s w
  | .ret (.error _, _), _ => False
  | .panic, _ => False

/-- The method gives an error, with `P`. -/
def fails (P : ε → S → W → Prop) : Outcome (Except ε α × S) → W → Prop
  | .ret (.ok _, _), _ => False
  | .ret (.error e, s), w => P e s w
  | .panic, _ => False

def panics : Outcome α → W → Prop
  | .ret _, _ => False
  | .panic, _ => True

/-- The method panics, in `P`. -/
def panicsIn (P : W → Prop) : Outcome α → W → Prop
  | .ret _, _ => False
  | .panic, w => P w

/-- A result comes with `P` and an error with `F`. -/
def settles (P : α → S → W → Prop) (F : ε → S → W → Prop) :
    Outcome (Except ε α × S) → W → Prop
  | .ret (.ok a, s), w => P a s w
  | .ret (.error e, s), w => F e s w
  | .panic, _ => True

/-- If the method gives a result, then with `P`. -/
abbrev whenOk (P : α → S → W → Prop) : Outcome (Except ε α × S) → W → Prop :=
  settles P fun _ _ _ => True

/-- On success `P`; nothing is asked of a failure, and a panic leaves a world in `Z`. -/
def okOrPanics (P : α → S → W → Prop) (Z : W → Prop) : Outcome (Except ε α × S) → W → Prop
  | .ret (.ok a, s), w => P a s w
  | .ret (.error _, _), _ => True
  | .panic, w => Z w

/-- The method does not panic; a result comes with `P` and an error with `F`. -/
def resolves (P : α → S → W → Prop) (F : ε → S → W → Prop) :
    Outcome (Except ε α × S) → W → Prop
  | .ret (.ok a, s), w => P a s w
  | .ret (.error e, s), w => F e s w
  | .panic, _ => False

/-- What the method gives, unless it panics. -/
def Outcome.result : Outcome (α × S) → Option α
  | .ret (a, _) => some a
  | .panic => none

theorem result_of_succeeds {P : α → S → W → Prop} {o : Outcome (Except ε α × S)} {w : W}
    (h : succeeds P o w) : ∃ a s, o.result = some (.ok a) ∧ P a s w := by
  obtain ⟨_ | a, s⟩ | _ := o
  · exact h.elim
  · exact ⟨a, s, rfl, h⟩
  · exact h.elim

theorem result_of_fails {P : ε → S → W → Prop} {o : Outcome (Except ε α × S)} {w : W}
    (h : fails P o w) : ∃ e s, o.result = some (.error e) ∧ P e s w := by
  obtain ⟨e | _, s⟩ | _ := o
  · exact ⟨e, s, rfl, h⟩
  · exact h.elim
  · exact h.elim

theorem result_of_panics {o : Outcome (α × S)} {w : W} (h : panics o w) : o.result = none := by
  cases o with
  | ret a => exact h.elim
  | panic => rfl

theorem returns_iff_result {o : Outcome (α × S)} {w : W} :
    returns (fun _ _ => True) o w ↔ o.result.isSome := by
  cases o with
  | ret a => exact ⟨fun _ => rfl, fun _ => trivial⟩
  | panic => exact ⟨False.elim, fun h => nomatch h⟩

theorem succeeds_mono {P P' : α → S → W → Prop} (h : ∀ a s w, P a s w → P' a s w)
    (o : Outcome (Except ε α × S)) (w : W) (ho : succeeds P o w) : succeeds P' o w := by
  obtain ⟨_ | a, s⟩ | _ := o
  · exact ho
  · exact h a s w ho
  · exact ho

theorem fails_mono {P P' : ε → S → W → Prop} (h : ∀ e s w, P e s w → P' e s w)
    (o : Outcome (Except ε α × S)) (w : W) (ho : fails P o w) : fails P' o w := by
  obtain ⟨e | _, s⟩ | _ := o
  · exact h e s w ho
  · exact ho
  · exact ho

theorem resolves_mono {P P' : α → S → W → Prop} {F F' : ε → S → W → Prop}
    (hp : ∀ a s w, P a s w → P' a s w) (hf : ∀ e s w, F e s w → F' e s w)
    (o : Outcome (Except ε α × S)) (w : W) (ho : resolves P F o w) : resolves P' F' o w := by
  obtain ⟨e | a, s⟩ | _ := o
  · exact hf e s w ho
  · exact hp a s w ho
  · exact ho

theorem resolves_of_succeeds {P : α → S → W → Prop} {F : ε → S → W → Prop}
    (o : Outcome (Except ε α × S)) (w : W) (ho : succeeds P o w) : resolves P F o w := by
  obtain ⟨_ | a, s⟩ | _ := o
  · exact ho.elim
  · exact ho
  · exact ho

theorem resolves_of_fails {P : α → S → W → Prop} {F : ε → S → W → Prop}
    (o : Outcome (Except ε α × S)) (w : W) (ho : fails F o w) : resolves P F o w := by
  obtain ⟨e | _, s⟩ | _ := o
  · exact ho
  · exact ho.elim
  · exact ho

/-- A method that cannot fail gives a result. -/
theorem succeeds_of_resolves {P P' : α → S → W → Prop} (hp : ∀ a s w, P a s w → P' a s w)
    (o : Outcome (Except ε α × S)) (w : W) (ho : resolves P (fun _ _ _ => False) o w) :
    succeeds P' o w := by
  obtain ⟨_ | a, s⟩ | _ := o
  · exact ho
  · exact hp a s w ho
  · exact ho

/-- The postcondition that a first part must have before `f`. -/
def seqPost (R : Prog Res (Except ε β × S) → W → Prop) (f : α → Method Res ε S β) :
    Outcome (Except ε α × S) → W → Prop
  | .ret r, w => R (Method.cont f r) w
  | .panic, w => R .panic w

/-- The postcondition of one turn of a method loop that goes on in `R`. -/
def turnPost (R : σ → S → W → Prop) (Q : Outcome (Except ε β × S) → W → Prop) :
    Outcome (Except ε (σ ⊕ β) × S) → W → Prop
  | .ret (.ok (.inl a), s), w => R a s w
  | .ret (.ok (.inr b), s), w => Q (.ret (.ok b, s)) w
  | .ret (.error e, s), w => Q (.ret (.error e, s)) w
  | .panic, w => Q .panic w

/-! ## Total rules -/

theorem always_seq {Q : Outcome (Except ε β × S) → W → Prop} {x : Method Res ε S α}
    {f : α → Method Res ε S β} {s : S} {w : W}
    (h : Always E (seqPost (Always E Q) f) (x s) w) : Always E Q ((x >>= f) s) w := by
  refine always_bind (h.mono ?_)
  rintro (r | _) v hv <;> exact hv

/-- The rule for what follows a method that gives a result. -/
theorem always_bind_ok {Q : Outcome β → W → Prop} {P : α → S → W → Prop}
    {p : Prog Res (Except ε α × S)} {k : Except ε α × S → Prog Res β} {w : W}
    (h : Always E (succeeds P) p w) (hk : ∀ a s w', P a s w' → Always E Q (k (.ok a, s)) w') :
    Always E Q (p.bind k) w := by
  refine always_bind (h.mono ?_)
  rintro (⟨_ | a, s⟩ | _) v hv
  · exact hv.elim
  · exact hk a s v hv
  · exact hv.elim

theorem always_seq_ok {Q : Outcome (Except ε β × S) → W → Prop} {x : Method Res ε S α}
    {f : α → Method Res ε S β} {s : S} {w : W} {P : α → S → W → Prop}
    (hx : Always E (succeeds P) (x s) w)
    (hf : ∀ a s' w', P a s' w' → Always E Q (f a s') w') : Always E Q ((x >>= f) s) w :=
  always_bind_ok hx hf

theorem always_seq_err {Q : Outcome (Except ε β × S) → W → Prop} {x : Method Res ε S α}
    {f : α → Method Res ε S β} {s : S} {w : W} {P : ε → S → W → Prop}
    (hx : Always E (fails P) (x s) w)
    (hq : ∀ e s' w', P e s' w' → Q (.ret (.error e, s')) w') : Always E Q ((x >>= f) s) w := by
  refine always_seq (hx.mono ?_)
  rintro (⟨e | a, s'⟩ | _) v hv
  · exact .ret (hq e s' v hv)
  · exact hv.elim
  · exact hv.elim

theorem always_seq_resolves {Q : Outcome (Except ε β × S) → W → Prop} {x : Method Res ε S α}
    {f : α → Method Res ε S β} {s : S} {w : W} {P : α → S → W → Prop} {F : ε → S → W → Prop}
    (hx : Always E (resolves P F) (x s) w)
    (hf : ∀ a s' w', P a s' w' → Always E Q (f a s') w')
    (hq : ∀ e s' w', F e s' w' → Q (.ret (.error e, s')) w') : Always E Q ((x >>= f) s) w := by
  refine always_seq (hx.mono ?_)
  rintro (⟨e | a, s'⟩ | _) v hv
  · exact .ret (hq e s' v hv)
  · exact hf a s' v hv
  · exact hv.elim

/-- A sequence fails where its first part does. -/
theorem always_seq_fails {x : Method Res ε S α} {f : α → Method Res ε S β} {s : S} {w : W}
    {F : W → Prop} (hx : Always E (fails fun _ _ v => F v) (x s) w) :
    Always E (fails fun _ _ v => F v) ((x >>= f) s) w :=
  always_seq_err hx fun _ _ _ h => h

theorem always_seq_panic {Q : Outcome (Except ε β × S) → W → Prop} {x : Method Res ε S α}
    {f : α → Method Res ε S β} {s : S} {w : W}
    (hx : Always E panics (x s) w) (hq : ∀ w', Q .panic w') : Always E Q ((x >>= f) s) w := by
  refine always_seq (hx.mono ?_)
  rintro (r | _) v hv
  · exact hv.elim
  · exact .panic (hq v)

theorem always_seq_panicsIn {Q : Outcome (Except ε β × S) → W → Prop} {x : Method Res ε S α}
    {f : α → Method Res ε S β} {s : S} {w : W} {P : W → Prop}
    (hx : Always E (panicsIn P) (x s) w) (hq : ∀ w', P w' → Q .panic w') :
    Always E Q ((x >>= f) s) w := by
  refine always_seq (hx.mono ?_)
  rintro (r | _) v hv
  · exact hv.elim
  · exact .panic (hq v hv)

theorem always_map_panicsIn {Q : Outcome β → W → Prop} {g : α → β} {p : Prog Res α} {w : W}
    {P : W → Prop} (h : Always E (panicsIn P) p w) (hq : ∀ w', P w' → Q .panic w') :
    Always E Q (p.map g) w := by
  refine always_map (h.mono ?_)
  rintro (a | _) v hv
  · exact hv.elim
  · exact hq v hv

theorem always_zoom_ok {x : Method Res ε S α} {proj : T → S} {put : S → T → T} {t : T} {w : W}
    {P : α → S → W → Prop} (h : Always E (succeeds P) (x (proj t)) w) :
    Always E (succeeds fun a t' v => ∃ s', P a s' v ∧ t' = put s' t)
      (Method.zoom proj put x t) w := by
  refine always_map (h.mono ?_)
  rintro (⟨_ | a, s'⟩ | _) v hv
  · exact hv
  · exact ⟨s', hv, rfl⟩
  · exact hv

theorem always_zoom_err {x : Method Res ε S α} {proj : T → S} {put : S → T → T} {t : T} {w : W}
    {P : ε → S → W → Prop} (h : Always E (fails P) (x (proj t)) w) :
    Always E (fails fun e t' v => ∃ s', P e s' v ∧ t' = put s' t)
      (Method.zoom proj put x t) w := by
  refine always_map (h.mono ?_)
  rintro (⟨e | _, s'⟩ | _) v hv
  · exact ⟨s', hv, rfl⟩
  · exact hv
  · exact hv

theorem always_zoom_resolves {x : Method Res ε S α} {proj : T → S} {put : S → T → T} {t : T}
    {w : W} {P : α → S → W → Prop} {F : ε → S → W → Prop}
    (h : Always E (resolves P F) (x (proj t)) w) :
    Always E (resolves (fun a t' v => ∃ s', P a s' v ∧ t' = put s' t)
      fun e t' v => ∃ s', F e s' v ∧ t' = put s' t) (Method.zoom proj put x t) w := by
  refine always_map (h.mono ?_)
  rintro (⟨e | a, s'⟩ | _) v hv
  · exact ⟨s', hv, rfl⟩
  · exact ⟨s', hv, rfl⟩
  · exact hv

theorem always_zoom_fails {x : Method Res ε S α} {proj : T → S} {put : S → T → T} {t : T} {w : W}
    {F : W → Prop} (h : Always E (fails fun _ _ v => F v) (x (proj t)) w) :
    Always E (fails fun _ _ v => F v) (Method.zoom proj put x t) w := by
  refine (always_zoom_err h).mono (fails_mono ?_)
  rintro _ _ v ⟨_, hv, -⟩
  exact hv

theorem always_out_ok {x : Method Res ε (S × T) Unit} {s : S} {t : T} {w : W}
    {P : S × T → W → Prop} (h : Always E (succeeds fun _ r v => P r v) (x (s, t)) w) :
    Always E (succeeds fun t' s' v => P (s', t') v) (Method.out t x s) w := by
  refine always_map (h.mono ?_)
  rintro (⟨_ | _, r⟩ | _) v hv <;> exact hv

theorem always_out_fails {x : Method Res ε (S × T) Unit} {s : S} {t : T} {w : W} {F : W → Prop}
    (h : Always E (fails fun _ _ v => F v) (x (s, t)) w) :
    Always E (fails fun _ _ v => F v) (Method.out t x s) w := by
  refine always_map (h.mono ?_)
  rintro (⟨_ | _, r⟩ | _) v hv <;> exact hv

theorem always_attempt_ok {x : Method Res ε S α} {s : S} {w : W} {P : α → S → W → Prop}
    (h : Always E (succeeds P) (x s) w) :
    Always E (succeeds fun r s' v => ∃ a, r = .ok a ∧ P a s' v)
      ((Method.attempt x : Method Res ε' S (Except ε α)) s) w := by
  refine always_map (h.mono ?_)
  rintro (⟨_ | a, s'⟩ | _) v hv
  · exact hv.elim
  · exact ⟨a, rfl, hv⟩
  · exact hv

theorem always_attempt_resolves {x : Method Res ε S α} {s : S} {w : W} {P : α → S → W → Prop}
    {F : ε → S → W → Prop} (h : Always E (resolves P F) (x s) w) :
    Always E (succeeds fun r s' v => (∃ a, r = .ok a ∧ P a s' v) ∨ ∃ e, r = .error e ∧ F e s' v)
      ((Method.attempt x : Method Res ε' S (Except ε α)) s) w := by
  refine always_map (h.mono ?_)
  rintro (⟨e | a, s'⟩ | _) v hv
  · exact .inr ⟨e, rfl, hv⟩
  · exact .inl ⟨a, rfl, hv⟩
  · exact hv

theorem always_lift_ok {p : Prog Res α} {s : S} {w : W} {P : α → W → Prop}
    (h : Always E (returns P) p w) :
    Always E (succeeds fun a s' v => P a v ∧ s' = s) ((Method.lift p : Method Res ε S α) s) w := by
  refine always_map (h.mono ?_)
  rintro (a | _) v hv
  · exact ⟨hv, rfl⟩
  · exact hv

theorem always_mapErr_ok {x : Method Res ε S α} {f : ε → ε'} {s : S} {w : W}
    {P : α → S → W → Prop} (h : Always E (succeeds P) (x s) w) :
    Always E (succeeds P) (Method.mapErr f x s) w := by
  refine always_map (h.mono ?_)
  rintro (⟨_ | a, s'⟩ | _) v hv <;> exact hv

theorem always_mapErr_err {x : Method Res ε S α} {f : ε → ε'} {s : S} {w : W}
    {P : ε → S → W → Prop} (h : Always E (fails P) (x s) w) :
    Always E (fails fun e' s' v => ∃ e, e' = f e ∧ P e s' v) (Method.mapErr f x s) w := by
  refine always_map (h.mono ?_)
  rintro (⟨e | a, s'⟩ | _) v hv
  · exact ⟨e, rfl, hv⟩
  · exact hv
  · exact hv

theorem always_mapErr_resolves {x : Method Res ε S α} {f : ε → ε'} {s : S} {w : W}
    {P : α → S → W → Prop} {F : S → W → Prop} (h : Always E (resolves P fun _ => F) (x s) w) :
    Always E (resolves P fun _ => F) (Method.mapErr f x s) w := by
  refine always_map (h.mono ?_)
  rintro (⟨e | a, s'⟩ | _) v hv <;> exact hv

theorem always_iter {Q : Outcome (Except ε β × S) → W → Prop}
    {body : σ → Method Res ε S (σ ⊕ β)} {a : σ} {s : S} {w : W}
    (h : Always E (turnPost (fun a s => Always E Q (Method.iter body a s)) Q) (body a s) w) :
    Always E Q (Method.iter body a s) w := by
  refine always_loop (always_map (h.mono ?_))
  rintro (⟨e | x | b, s'⟩ | _) v hv
  · exact .ret hv
  · exact hv
  · exact .ret hv
  · exact .panic hv

theorem always_iter_next {Q : Outcome (Except ε β × S) → W → Prop}
    {body : σ → Method Res ε S (σ ⊕ β)} {a : σ} {s : S} {w : W}
    {P : (σ ⊕ β) → S → W → Prop} (hx : Always E (succeeds P) (body a s) w)
    (hnext : ∀ a' s' w', P (.inl a') s' w' → Always E Q (Method.iter body a' s') w')
    (hdone : ∀ b s' w', P (.inr b) s' w' → Q (.ret (.ok b, s')) w') :
    Always E Q (Method.iter body a s) w := by
  refine always_iter (hx.mono ?_)
  rintro (⟨e | x, s'⟩ | _) v hv
  · exact hv.elim
  · cases x with
    | inl a' => exact hnext a' s' v hv
    | inr b => exact hdone b s' v hv
  · exact hv.elim

/-! ## Methods that never end

A method that waits for ever in its first part has every postcondition. -/

theorem always_map_never {Q : Outcome β → W → Prop} {g : α → β} {p : Prog Res α} {w : W}
    (h : Always E (fun _ _ => False) p w) : Always E Q (p.map g) w :=
  always_map (h.mono fun _ _ => False.elim)

theorem always_seq_never {Q : Outcome (Except ε β × S) → W → Prop} {x : Method Res ε S α}
    {f : α → Method Res ε S β} {s : S} {w : W} (h : Always E (fun _ _ => False) (x s) w) :
    Always E Q ((x >>= f) s) w :=
  always_seq (h.mono fun _ _ => False.elim)

theorem always_iter_never {Q : Outcome (Except ε β × S) → W → Prop}
    {body : σ → Method Res ε S (σ ⊕ β)} {a : σ} {s : S} {w : W}
    (h : Always E (fun _ _ => False) (body a s) w) : Always E Q (Method.iter body a s) w :=
  always_iter (h.mono fun _ _ => False.elim)

/-! ## Partial rules -/

theorem safely_seq {I : W → Prop} {Q : Outcome (Except ε β × S) → W → Prop}
    {x : Method Res ε S α} {f : α → Method Res ε S β} {s : S} {w : W}
    (h : Safely E I (seqPost (Safely E I Q) f) (x s) w) : Safely E I Q ((x >>= f) s) w := by
  refine safely_bind (h.mono (fun _ hi => hi) ?_)
  rintro (r | _) v _ hv <;> exact hv

theorem safely_iter {I : W → Prop} {Q : Outcome (Except ε β × S) → W → Prop}
    {body : σ → Method Res ε S (σ ⊕ β)} (J : σ → S → W → Prop)
    (hturn : ∀ a s w, J a s w → Safely E I (turnPost J Q) (body a s) w)
    {a : σ} {s : S} {w : W} (h : J a s w) : Safely E I Q (Method.iter body a s) w := by
  refine safely_loop (fun x v => J x.1 x.2 v) ?_ h
  rintro ⟨a, s⟩ v hj
  refine safely_map ((hturn a s v hj).mono (fun _ hi => hi) ?_)
  rintro (⟨e | x | b, s'⟩ | _) u hi hv
  · exact safely_ret hi hv
  · exact hv
  · exact safely_ret hi hv
  · exact hv

theorem safely_seq_ok {I : W → Prop} {Q : Outcome (Except ε β × S) → W → Prop}
    {x : Method Res ε S α} {f : α → Method Res ε S β} {s : S} {w : W} {P : α → S → W → Prop}
    (hx : Safely E I (succeeds P) (x s) w)
    (hf : ∀ a s' w', P a s' w' → Safely E I Q (f a s') w') : Safely E I Q ((x >>= f) s) w := by
  refine safely_seq (hx.mono (fun _ hi => hi) ?_)
  rintro (⟨_ | a, s'⟩ | _) v - hv
  · exact hv.elim
  · exact hf a s' v hv
  · exact hv.elim

theorem safely_zoom_ok {I : W → Prop} {x : Method Res ε S α} {proj : T → S} {put : S → T → T}
    {t : T} {w : W} {P : α → S → W → Prop} (hx : Safely E I (succeeds P) (x (proj t)) w) :
    Safely E I (succeeds fun a t' v => ∃ s', P a s' v ∧ t' = put s' t)
      (Method.zoom proj put x t) w := by
  refine safely_map (hx.mono (fun _ hi => hi) ?_)
  rintro (⟨_ | a, s'⟩ | _) v - hv
  · exact hv
  · exact ⟨s', hv, rfl⟩
  · exact hv

theorem safely_mapErr_ok {I : W → Prop} {x : Method Res ε S α} {f : ε → ε'} {s : S} {w : W}
    {P : α → S → W → Prop} (hx : Safely E I (succeeds P) (x s) w) :
    Safely E I (succeeds P) (Method.mapErr f x s) w := by
  refine safely_map (hx.mono (fun _ hi => hi) ?_)
  rintro (⟨_ | a, s'⟩ | _) v - hv <;> exact hv

theorem safely_attempt_ok {I : W → Prop} {x : Method Res ε S α} {s : S} {w : W}
    {P : α → S → W → Prop} (hx : Safely E I (succeeds P) (x s) w) :
    Safely E I (succeeds fun r s' v => ∃ a, r = .ok a ∧ P a s' v)
      ((Method.attempt x : Method Res ε' S (Except ε α)) s) w := by
  refine safely_map (hx.mono (fun _ hi => hi) ?_)
  rintro (⟨_ | a, s'⟩ | _) v - hv
  · exact hv.elim
  · exact ⟨a, rfl, hv⟩
  · exact hv

theorem Safely.settles_mono {I : W → Prop} {p : Prog Res (Except ε α × S)} {w : W}
    {P P' : α → S → W → Prop} {F F' : ε → S → W → Prop} (h : Safely E I (settles P F) p w)
    (hp : ∀ a s v, I v → P a s v → P' a s v) (hf : ∀ e s v, I v → F e s v → F' e s v) :
    Safely E I (settles P' F') p w := by
  apply h.mono (fun _ hi => hi)
  rintro (⟨e | a, s⟩ | _) v hi hv
  · exact hf e s v hi hv
  · exact hp a s v hi hv
  · exact trivial

theorem Safely.whenOk_mono {I : W → Prop} {p : Prog Res (Except ε α × S)} {w : W}
    {P P' : α → S → W → Prop} (h : Safely E I (whenOk P) p w)
    (hp : ∀ a s v, P a s v → P' a s v) : Safely E I (whenOk P') p w :=
  h.settles_mono (fun a s v _ => hp a s v) fun _ _ _ _ _ => trivial

theorem safely_seq_settles {I : W → Prop} {x : Method Res ε S α} {f : α → Method Res ε S β}
    {s : S} {w : W} {P : α → S → W → Prop} {F G : ε → S → W → Prop} {Q : β → S → W → Prop}
    (hx : Safely E I (settles P F) (x s) w)
    (hf : ∀ a s' w', P a s' w' → Safely E I (settles Q G) (f a s') w')
    (hg : ∀ e s' w', F e s' w' → G e s' w') : Safely E I (settles Q G) ((x >>= f) s) w := by
  refine safely_bind (hx.mono (fun _ hi => hi) ?_)
  rintro (⟨e | a, s'⟩ | _) v hi hv
  · exact safely_ret hi (hg e s' v hv)
  · exact hf a s' v hv
  · exact safely_panic hi trivial

theorem safely_seq_whenOk {I : W → Prop} {x : Method Res ε S α} {f : α → Method Res ε S β}
    {s : S} {w : W} {P : α → S → W → Prop} {Q : β → S → W → Prop}
    (hx : Safely E I (whenOk P) (x s) w)
    (hf : ∀ a s' w', P a s' w' → Safely E I (whenOk Q) (f a s') w') :
    Safely E I (whenOk Q) ((x >>= f) s) w :=
  safely_seq_settles hx hf fun _ _ _ _ => trivial

theorem safely_seq_okOrPanics {I : W → Prop} {x : Method Res ε S α} {f : α → Method Res ε S β}
    {s : S} {w : W} {P : α → S → W → Prop} {Q : β → S → W → Prop} {Z : W → Prop}
    (hx : Safely E I (okOrPanics P Z) (x s) w)
    (hf : ∀ a s' w', I w' → P a s' w' → Safely E I (okOrPanics Q Z) (f a s') w') :
    Safely E I (okOrPanics Q Z) ((x >>= f) s) w := by
  refine safely_bind (hx.mono (fun _ hi => hi) ?_)
  rintro (⟨e | a, s'⟩ | _) v hi hv
  · exact safely_ret hi trivial
  · exact hf a s' v hi hv
  · exact safely_panic hi hv

theorem safely_iter_settles {I : W → Prop} {body : σ → Method Res ε S (σ ⊕ β)}
    {P : β → S → W → Prop} {F : ε → S → W → Prop} (J : σ → S → W → Prop)
    (hturn : ∀ a s w, J a s w →
      Safely E I (settles (fun x s' w' => x.elim (fun a' => J a' s' w') fun b => P b s' w') F)
        (body a s) w)
    {a : σ} {s : S} {w : W} (h : J a s w) :
    Safely E I (settles P F) (Method.iter body a s) w := by
  refine safely_iter J ?_ h
  intro a s w hj
  apply (hturn a s w hj).mono (fun _ hi => hi)
  rintro (⟨e | x | b, s'⟩ | _) v - hv <;> exact hv

/-- Nothing is asked of the result. -/
theorem safely_any (x : Method Res ε S α) (s : S) (w : W) :
    Safely E (fun _ => True) (whenOk fun _ _ _ => True) (x s) w := by
  refine fun q v _ => ⟨trivial, ?_⟩
  rintro (⟨_ | _, _⟩ | _) - <;> exact trivial

theorem safely_zoom_settles {I : W → Prop} {x : Method Res ε S α} {proj : T → S}
    {put : S → T → T} {t : T} {w : W} {P : α → S → W → Prop} {F : ε → S → W → Prop}
    (hx : Safely E I (settles P F) (x (proj t)) w) :
    Safely E I (settles (fun a t' v => ∃ s', P a s' v ∧ t' = put s' t)
      fun e t' v => ∃ s', F e s' v ∧ t' = put s' t) (Method.zoom proj put x t) w := by
  refine safely_map (hx.mono (fun _ hi => hi) ?_)
  rintro (⟨e | a, s'⟩ | _) v _ hv
  · exact ⟨s', hv, rfl⟩
  · exact ⟨s', hv, rfl⟩
  · trivial

theorem safely_zoom_whenOk {I : W → Prop} {x : Method Res ε S α} {proj : T → S}
    {put : S → T → T} {t : T} {w : W} {P : α → S → W → Prop}
    (hx : Safely E I (whenOk P) (x (proj t)) w) :
    Safely E I (whenOk fun a t' v => ∃ s', P a s' v ∧ t' = put s' t)
      (Method.zoom proj put x t) w :=
  (safely_zoom_settles hx).settles_mono (fun _ _ _ _ h => h) fun _ _ _ _ _ => trivial

theorem safely_out_whenOk {I : W → Prop} {x : Method Res ε (S × T) Unit} {s : S} {t : T} {w : W}
    {P : S × T → W → Prop} (hx : Safely E I (whenOk fun _ => P) (x (s, t)) w) :
    Safely E I (whenOk fun t' s' => P (s', t')) (Method.out t x s) w := by
  refine safely_map (hx.mono (fun _ hi => hi) ?_)
  rintro (⟨e | _, s'⟩ | _) v - hv <;> exact hv

theorem safely_out_okOrPanics {I : W → Prop} {x : Method Res ε (S × T) Unit} {s : S} {t : T}
    {w : W} {P : S × T → W → Prop} {Z : W → Prop}
    (hx : Safely E I (okOrPanics (fun _ => P) Z) (x (s, t)) w) :
    Safely E I (okOrPanics (fun t' s' => P (s', t')) Z) (Method.out t x s) w := by
  refine safely_map (hx.mono (fun _ hi => hi) ?_)
  rintro (⟨e | _, s'⟩ | _) v - hv <;> exact hv

theorem safely_mapErr_settles {I : W → Prop} {x : Method Res ε S α} {f : ε → ε'} {s : S} {w : W}
    {P : α → S → W → Prop} {F : S → W → Prop}
    (hx : Safely E I (settles P fun _ => F) (x s) w) :
    Safely E I (settles P fun _ => F) (Method.mapErr f x s) w := by
  refine safely_map (hx.mono (fun _ hi => hi) ?_)
  rintro (⟨e | a, s'⟩ | _) v _ hv <;> exact hv

theorem safely_attempt_settles {I : W → Prop} {x : Method Res ε S α} {s : S} {w : W}
    {P : α → S → W → Prop} {F : ε → S → W → Prop} (hx : Safely E I (settles P F) (x s) w) :
    Safely E I (settles (fun r s' v => (∃ a, r = .ok a ∧ P a s' v) ∨ ∃ e, r = .error e ∧ F e s' v)
      fun _ _ _ => False) ((Method.attempt x : Method Res ε' S (Except ε α)) s) w := by
  refine safely_map (hx.mono (fun _ hi => hi) ?_)
  rintro (⟨e | a, s'⟩ | _) v - hv
  · exact .inr ⟨e, rfl, hv⟩
  · exact .inl ⟨a, rfl, hv⟩
  · trivial

/-! ## Invariants -/

/-- The state that is left is in `J`, and a panic leaves a world in `Z`. -/
def leaves (J : S → Prop) (Z : W → Prop) : Outcome (Except ε α × S) → W → Prop
  | .ret (_, s), _ => J s
  | .panic, w => Z w

/-- From every state in `J` the method keeps `I` at every step, and leaves a state in `J`, also
when it fails, or panics in `Z`. -/
def Keeps (E : Env Res W) (I : W → Prop) (J : S → Prop) (Z : W → Prop) (x : Method Res ε S α) :
    Prop :=
  ∀ s w, J s → I w → Safely E I (leaves J Z) (x s) w

/-- From every state `I` is kept at every step, and the method panics only if it may. -/
abbrev KeepsWorld (E : Env Res W) (I : W → Prop) (mayPanic : Prop) (x : Method Res ε S α) : Prop :=
  Keeps E I (fun _ => True) (fun _ => mayPanic) x

section Keeps

variable {I : W → Prop} {J : S → Prop} {Z : W → Prop}

theorem keeps_pure (a : α) : Keeps E I J Z (pure a : Method Res ε S α) :=
  fun _ _ hj hi => safely_ret hi hj

theorem keeps_throw (e : ε) : Keeps E I J Z (Method.throw e : Method Res ε S α) :=
  fun _ _ hj hi => safely_ret hi hj

theorem keeps_panic (h : ∀ w, I w → Z w) : Keeps E I J Z (Method.panic : Method Res ε S α) :=
  fun _ w _ hi => safely_panic hi (h w hi)

theorem keeps_get : Keeps E I J Z (Method.get : Method Res ε S S) :=
  fun _ _ hj hi => safely_ret hi hj

theorem keeps_modify {g : S → S} (h : ∀ s, J s → J (g s)) :
    Keeps E I J Z (Method.modify g : Method Res ε S Unit) :=
  fun s _ hj hi => safely_ret hi (h s hj)

theorem keeps_ofExcept (r : Except ε α) : Keeps E I J Z (Method.ofExcept r : Method Res ε S α) := by
  cases r
  · exact keeps_throw _
  · exact keeps_pure _

theorem keeps_seq {x : Method Res ε S α} {f : α → Method Res ε S β} (hx : Keeps E I J Z x)
    (hf : ∀ a, Keeps E I J Z (f a)) : Keeps E I J Z (x >>= f) := by
  intro s w hj hi
  refine safely_seq ((hx s w hj hi).mono (fun _ hi => hi) ?_)
  rintro (⟨e | a, s'⟩ | _) v hv hs
  · exact safely_ret hv hs
  · exact hf a s' v hs hv
  · exact safely_panic hv hs

theorem keeps_map {J' : T → Prop} {x : Method Res ε S α} {proj : T → S}
    {g : T → Except ε α × S → Except ε' β × T} (hx : Keeps E I J Z x)
    (hproj : ∀ t, J' t → J (proj t)) (hg : ∀ t r, J' t → J r.2 → J' (g t r).2) :
    Keeps E I J' Z (fun t => (x (proj t)).map (g t) : Method Res ε' T β) := by
  refine fun t w hj hi => safely_map ((hx (proj t) w (hproj t hj) hi).mono (fun _ hi => hi) ?_)
  rintro (r | _) v - hs
  · exact hg t r hj hs
  · exact hs

theorem keeps_attempt {x : Method Res ε S α} (hx : Keeps E I J Z x) :
    Keeps E I J Z (Method.attempt x : Method Res ε' S (Except ε α)) :=
  keeps_map hx (fun _ h => h) fun _ _ _ h => h

theorem keeps_mapErr {x : Method Res ε S α} (hx : Keeps E I J Z x) (f : ε → ε') :
    Keeps E I J Z (Method.mapErr f x) := keeps_map hx (fun _ h => h) fun _ _ _ h => h

theorem keeps_zoom {J' : T → Prop} {x : Method Res ε S α} {proj : T → S} {put : S → T → T}
    (hx : Keeps E I J Z x) (hproj : ∀ t, J' t → J (proj t))
    (hput : ∀ s t, J' t → J s → J' (put s t)) : Keeps E I J' Z (Method.zoom proj put x) :=
  keeps_map hx hproj fun t r => hput r.2 t

theorem keeps_call {op : Op} (h : ∀ w r w', I w → E.step w op r w' → I w')
    (g : Res op → Except ε α) :
    Keeps E I J Z (fun s => .call op fun r => .ret (g r, s) : Method Res ε S α) :=
  fun _ w hj hi => safely_call hi fun r w' hs => safely_ret (h w r w' hi hs) hj

theorem keeps_iter {body : σ → Method Res ε S (σ ⊕ β)} (h : ∀ a, Keeps E I J Z (body a)) (a : σ) :
    Keeps E I J Z (Method.iter body a) := by
  intro s w hj hi
  refine safely_iter (fun _ s v => I v ∧ J s) ?_ ⟨hi, hj⟩
  rintro a s w ⟨hi, hj⟩
  apply (h a s w hj hi).mono (fun _ hi => hi)
  rintro (⟨e | x | b, s'⟩ | _) v hv hs
  · exact hs
  · exact ⟨hv, hs⟩
  · exact hs
  · exact hs

theorem keepsWorld_modify {mayPanic : Prop} (g : S → S) :
    KeepsWorld E I mayPanic (Method.modify g : Method Res ε S Unit) := keeps_modify fun _ h => h

theorem keepsWorld_zoom {mayPanic : Prop} {x : Method Res ε S α} (hx : KeepsWorld E I mayPanic x)
    (proj : T → S) (put : S → T → T) : KeepsWorld E I mayPanic (Method.zoom proj put x) :=
  keeps_zoom hx (fun _ _ => trivial) fun _ _ _ _ => trivial

theorem Keeps.okOrPanics {x : Method Res ε S α} (h : Keeps E I J Z x) {s : S} {w : W} (hj : J s)
    (hi : I w) : Safely E I (okOrPanics (fun _ s' _ => J s') Z) (x s) w := by
  apply (h s w hj hi).mono (fun _ hi => hi)
  rintro (⟨e | a, s'⟩ | _) v - hs
  · trivial
  · exact hs
  · exact hs

end Keeps

/-! ## Frames -/

/-- The method leaves the part `f` of its state alone, also when it fails. -/
def Frames (E : Env Res W) (f : S → T) (x : Method Res ε S α) : Prop :=
  ∀ s w, Safely E (fun _ => True) (fun o _ => ∀ r s', o = .ret (r, s') → f s' = f s) (x s) w

section Frames

variable {f : S → T}

theorem frames_ofExcept (r : Except ε α) : Frames E f (Method.ofExcept r : Method Res ε S α) := by
  intro s w
  cases r <;> exact safely_ret trivial (by rintro _ _ ⟨⟩; rfl)

theorem frames_pure (a : α) : Frames E f (pure a : Method Res ε S α) :=
  fun _ _ => safely_ret trivial (by rintro _ _ ⟨⟩; rfl)

theorem frames_throw (e : ε) : Frames E f (Method.throw e : Method Res ε S α) :=
  fun _ _ => safely_ret trivial (by rintro _ _ ⟨⟩; rfl)

theorem frames_get : Frames E f (Method.get : Method Res ε S S) :=
  fun _ _ => safely_ret trivial (by rintro _ _ ⟨⟩; rfl)

theorem frames_modify {g : S → S} (h : ∀ s, f (g s) = f s) :
    Frames E f (Method.modify g : Method Res ε S Unit) :=
  fun s _ => safely_ret trivial (by rintro _ _ ⟨⟩; exact h s)

theorem frames_seq {x : Method Res ε S α} {g : α → Method Res ε S β} (hx : Frames E f x)
    (hg : ∀ a, Frames E f (g a)) : Frames E f (x >>= g) := by
  intro s w
  refine safely_seq ((hx s w).mono (fun _ hi => hi) ?_)
  rintro (⟨e | a, s'⟩ | _) v - hs
  · exact safely_ret trivial (by rintro _ _ ⟨⟩; exact hs _ _ rfl)
  · refine (hg a s' v).mono (fun _ hi => hi) fun o u _ ho r s'' he => ?_
    rw [ho r s'' he, hs _ _ rfl]
  · exact safely_panic trivial (by rintro _ _ ⟨⟩)

theorem Frames.whenOk {x : Method Res ε S α} (h : Frames E f x) (s : S) (w : W) :
    Safely E (fun _ => True) (whenOk fun _ s' _ => f s' = f s) (x s) w := by
  apply (h s w).mono (fun _ hi => hi)
  rintro (⟨e | a, s'⟩ | _) v - hs
  · trivial
  · exact hs _ _ rfl
  · trivial

/-- A sequence whose first part leaves `f` alone. -/
theorem safely_seq_frames {x : Method Res ε S α} {k : α → Method Res ε S β} {s : S} {w : W}
    {Q : Except ε β → S → Prop} (hx : Frames E f x) (hq : ∀ e s', f s' = f s → Q (.error e) s')
    (hk : ∀ a s' v, f s' = f s →
      Safely E (fun _ => True) (fun o _ => ∀ r t, o = .ret (r, t) → Q r t) (k a s') v) :
    Safely E (fun _ => True) (fun o _ => ∀ r t, o = .ret (r, t) → Q r t) ((x >>= k) s) w := by
  refine safely_seq ((hx s w).mono (fun _ hi => hi) ?_)
  rintro (⟨e | a, s'⟩ | _) v - hs
  · refine safely_ret trivial ?_
    rintro r t ⟨⟩
    exact hq e _ (hs _ _ rfl)
  · exact hk a s' v (hs _ _ rfl)
  · exact safely_panic trivial (by rintro _ _ ⟨⟩)

theorem frames_lift (p : Prog Res α) : Frames E f (Method.lift p : Method Res ε S α) := by
  refine fun s w => safely_map fun _ _ _ => ⟨trivial, ?_⟩
  rintro (a | _) - r s' he
  · cases he; rfl
  · cases he

theorem frames_zoom {U : Type} {f : U → T} (x : Method Res ε S α) {proj : U → S}
    {put : S → U → U} (hput : ∀ s u, f (put s u) = f u) : Frames E f (Method.zoom proj put x) := by
  refine fun u w => safely_map fun _ _ _ => ⟨trivial, ?_⟩
  rintro (⟨r, s⟩ | _) - r' u' he
  · cases he; exact hput s u
  · cases he

/-- A method on a part of the state of which it leaves `g` alone. -/
theorem frames_zoom_part {U V : Type} {f : U → T} {g : S → V} {x : Method Res ε S α}
    (hx : Frames E g x) {proj : U → S} {put : S → U → U}
    (hput : ∀ s u, g s = g (proj u) → f (put s u) = f u) :
    Frames E f (Method.zoom proj put x) := by
  refine fun u w => safely_map ((hx (proj u) w).mono (fun _ hi => hi) ?_)
  rintro (⟨r, s⟩ | _) _ - hs r' u' he
  · cases he
    exact hput s u (hs r s rfl)
  · cases he

theorem frames_iter {body : σ → Method Res ε S (σ ⊕ β)} (h : ∀ a, Frames E f (body a)) (a : σ) :
    Frames E f (Method.iter body a) := by
  intro s w
  refine safely_iter (fun _ s' _ => f s' = f s) ?_ rfl
  intro a s' v hs
  apply (h a s' v).mono (fun _ hi => hi)
  rintro (⟨e | x | b, s''⟩ | _) u - ho
  · rintro r t ⟨⟩
    exact (ho _ _ rfl).trans hs
  · exact (ho _ _ rfl).trans hs
  · rintro r t ⟨⟩
    exact (ho _ _ rfl).trans hs
  · rintro r t ⟨⟩

end Frames

/-! ## Methods on two states

The same calls from two states of which one is the image of the other, in programs
without loops. -/

/-- The programs make the same calls and end with the same result, which is in `Q` with the
state of the second; the state of the first is the image of that under `g`. -/
inductive Mirrors (g : S → S) (Q : Except ε α → S → Prop) :
    Prog Res (Except ε α × S) → Prog Res (Except ε α × S) → Prop
  | ret {r : Except ε α} {s : S} : Q r s → Mirrors g Q (.ret (r, g s)) (.ret (r, s))
  | panic : Mirrors g Q .panic .panic
  | call {op : Op} {k k' : Res op → Prog Res (Except ε α × S)} :
      (∀ r, Mirrors g Q (k r) (k' r)) → Mirrors g Q (.call op k) (.call op k')

section Mirrors

variable {g : S → S} {Q : Except ε α → S → Prop} {p q : Prog Res (Except ε α × S)}

theorem Mirrors.eq_map (h : Mirrors g Q p q) : p = q.map fun r => (r.1, g r.2) := by
  induction h with
  | ret _ => rfl
  | panic => rfl
  | call _ ih => exact congrArg _ (funext ih)

theorem Mirrors.safely (h : Mirrors g Q p q) (w : W) :
    Safely E (fun _ => True) (fun o _ => ∀ r s, o = .ret (r, s) → Q r s) q w := by
  induction h generalizing w with
  | ret hq =>
    refine safely_ret trivial ?_
    rintro _ _ ⟨⟩
    exact hq
  | panic => exact safely_panic trivial (by rintro _ _ ⟨⟩)
  | call _ ih => exact safely_call trivial fun r w' _ => ih r w'

theorem Mirrors.bind {Q' : Except ε β → S → Prop} {f f' : α → Method Res ε S β}
    (h : Mirrors g Q p q) (hf : ∀ a s, Q (.ok a) s → Mirrors g Q' (f a (g s)) (f' a s))
    (herr : ∀ e s, Q (.error e) s → Q' (.error e) s) :
    Mirrors g Q' (p.bind (Method.cont f)) (q.bind (Method.cont f')) := by
  induction h with
  | @ret r s hq =>
    cases r with
    | ok a => exact hf a s hq
    | error e => exact .ret (herr e s hq)
  | panic => exact .panic
  | call _ ih => exact .call ih

theorem Mirrors.seq {Q' : Except ε β → S → Prop} {f f' : α → Method Res ε S β}
    {x y : Method Res ε S α} {s s' : S} (h : Mirrors g Q (x s) (y s'))
    (hf : ∀ a t, Q (.ok a) t → Mirrors g Q' (f a (g t)) (f' a t))
    (herr : ∀ e t, Q (.error e) t → Q' (.error e) t) : Mirrors g Q' ((x >>= f) s) ((y >>= f') s') :=
  h.bind hf herr

end Mirrors

/-! ## Evaluation -/

/-- One answer for each call, while they last. -/
abbrev Choice (Res : Op → Type) (W : Type) := (op : Op) → W → Option (Res op × W)

/-- Run for at most `n` steps, answering the calls by `answers`. -/
def Prog.exec : Nat → List (Choice Res W) → Prog Res α → W → Prog Res α × W
  | 0, _, p, w => (p, w)
  | _ + 1, _, .ret a, w => (.ret a, w)
  | _ + 1, _, .panic, w => (.panic, w)
  | n + 1, answers, .loop body s k, w => exec n answers (unroll body s k) w
  | _ + 1, [], .call op k, w => (.call op k, w)
  | n + 1, h :: answers, .call op k, w =>
    match h op w with
    | some (r, w') => exec n answers (k r) w'
    | none => (.call op k, w)

/-- An evaluation whose answers the environment allows is one of its runs. -/
theorem reach_exec {answers : List (Choice Res W)}
    (h : ∀ c ∈ answers, ∀ op w r w', c op w = some (r, w') → E.step w op r w')
    (n : Nat) (p : Prog Res α) (w : W) :
    Reach E p w (p.exec n answers w).1 (p.exec n answers w).2 := by
  induction n generalizing answers p w with
  | zero => exact .refl _ _
  | succ n ih =>
    cases p with
    | ret a => exact .refl _ _
    | panic => exact .refl _ _
    | loop body s k => exact .head .loop (ih h _ _)
    | call op k =>
      cases answers with
      | nil => exact .refl _ _
      | cons c answers =>
        simp only [Prog.exec]
        cases hc : c op w with
        | none => exact .refl _ _
        | some r =>
          exact .head (.call (h c (by simp) op w r.1 r.2 hc))
            (ih (fun c' hc' => h c' (by simp [hc'])) _ _)

/-- The value of a program that has ended. -/
def Prog.value : Prog Res α → Option α
  | .ret a => some a
  | _ => none

theorem eq_ret_of_value {p : Prog Res α} {a : α} (h : p.value = some a) : p = .ret a := by
  cases p <;> cases h
  rfl

end Interaction
