import CkbScriptIpc.Interaction.Parallel

/-!
# Programs that start others

A pool of programs that share one world and take their steps in any order. The world says which
programs have been started, so a call of one program may start another.

* `pool_step`, `pool_of_step`: a pool in which one program starts a second is a pair whose right
  program waits until then;
* `pool_reach`, `pool_terminates`, `pool_at_rest`: so what is known of the pair holds of the pool.
-/

namespace Interaction

variable {Op : Type} {Res : Op → Type} {α W : Type}

/-! ## Pools -/

/-- Programs that share a world, in the order in which they were started. -/
structure Pool (Res : Op → Type) (α W : Type) : Type 1 where
  procs : List (Prog Res α)
  world : W

/-- The program at place `i` takes a step in its own environment. What is started by it comes
behind the others. -/
inductive Pool.Step (E : Nat → Env Res W) (started : W → List (Prog Res α)) :
    Pool Res α W → Pool Res α W → Prop
  | step {m : Pool Res α W} {i : Nat} {p p' : Prog Res α} {w' : W} :
      m.procs[i]? = some p → Interaction.Step (E i) p m.world p' w' →
      Pool.Step E started m
        ⟨m.procs.set i p' ++ (started w').drop (started m.world).length, w'⟩

/-- The runs of a pool, in every interleaving. -/
abbrev Pool.Reach (E : Nat → Env Res W) (started : W → List (Prog Res α)) :
    Pool Res α W → Pool Res α W → Prop :=
  Relation.ReflTransGen (Pool.Step E started)

/-- Every run from `m` is finite. -/
def Pool.Terminates (E : Nat → Env Res W) (started : W → List (Prog Res α))
    (m : Pool Res α W) : Prop :=
  Acc (fun m' m => Pool.Step E started m m') m

def Pool.AtRest (E : Nat → Env Res W) (started : W → List (Prog Res α)) (m : Pool Res α W) :
    Prop :=
  ∀ m', ¬ Pool.Step E started m m'

/-- The pool of a pair: as many of the two programs as have been started. -/
def Pair.pool (started : W → List (Prog Res α)) (c : Pair Res α α W) : Pool Res α W :=
  ⟨[c.left, c.right].take (started c.world).length, c.world⟩

/-- In the states of a pair with `I` the left program, which began as `p`, has started the right
one, or the right one is still `q` and can only wait. -/
structure Starts (E : Nat → Env Res W) (started : W → List (Prog Res α)) (p q : Prog Res α)
    (I : Pair Res α α W → Prop) : Prop where
  keeps : ∀ {c c'}, I c → Pair.Step (E 0) (E 1) c c' → I c'
  grows : ∀ {c c'}, I c → Pair.Step (E 0) (E 1) c c' →
    (started c.world).length ≤ (started c'.world).length
  procs : ∀ {c}, I c → started c.world = [p, q] ∨ started c.world = [p] ∧ c.right = q ∧
    ∀ q' w', ¬ Step (E 1) q c.world q' w'

section

variable {E : Nat → Env Res W} {started : W → List (Prog Res α)} {p q : Prog Res α}
  {I : Pair Res α α W → Prop} {c c' : Pair Res α α W}

/-- Once both are there, both stay. -/
theorem Starts.stays (h : Starts E started p q I) (hc : I c) (hs : Pair.Step (E 0) (E 1) c c')
    (hboth : started c.world = [p, q]) : started c'.world = [p, q] := by
  rcases h.procs (h.keeps hc hs) with hboth' | ⟨hone, -, -⟩
  · exact hboth'
  · have hlen := h.grows hc hs
    rw [hboth, hone] at hlen
    exact absurd hlen (by simp)

theorem pool_one (hone : started c.world = [p]) : c.pool started = ⟨[c.left], c.world⟩ := by
  rw [Pair.pool, hone]
  rfl

theorem pool_both (hboth : started c.world = [p, q]) :
    c.pool started = ⟨[c.left, c.right], c.world⟩ := by
  rw [Pair.pool, hboth]
  rfl

/-- The programs of the pool are those of the pair. -/
theorem pool_mem {r : Prog Res α} (hr : r ∈ (c.pool started).procs) :
    r = c.left ∨ r = c.right := by
  have hmem : r ∈ [c.left, c.right] := List.mem_of_mem_take hr
  simpa using hmem

/-- The left program is the first. -/
theorem pool_first (h : Starts E started p q I) (hc : I c) :
    (c.pool started).procs[0]? = some c.left := by
  rcases h.procs hc with hboth | ⟨hone, -, -⟩
  · rw [pool_both hboth]
    rfl
  · rw [pool_one hone]
    rfl

theorem pool_second {r : Prog Res α} (hr : (c.pool started).procs[1]? = some r) : c.right = r := by
  rw [Pair.pool, List.getElem?_take] at hr
  split at hr
  · exact Option.some.inj hr
  · cases hr

/-- A step of the left program is one of the pool. -/
theorem pool_left (h : Starts E started p q I) (hc : I c) {p' : Prog Res α} {w' : W}
    (hs : Step (E 0) c.left c.world p' w') :
    (⟨(c.pool started).procs.set 0 p' ++ (started w').drop (started c.world).length, w'⟩ :
      Pool Res α W) = Pair.pool started ⟨p', c.right, w'⟩ := by
  have hpair : Pair.Step (E 0) (E 1) c ⟨p', c.right, w'⟩ := .left hs
  rcases h.procs hc with hboth | ⟨hone, hright, -⟩
  · have hboth' : started w' = [p, q] := h.stays hc hpair hboth
    rw [pool_both hboth, pool_both hboth', hboth, hboth']
    rfl
  · rcases h.procs (h.keeps hc hpair) with hboth' | ⟨hone', -, -⟩
    · have hstarted : started w' = [p, q] := hboth'
      rw [pool_one hone, pool_both hboth', hone, hstarted, hright]
      rfl
    · have hstarted : started w' = [p] := hone'
      rw [pool_one hone, pool_one hone', hone, hstarted]
      rfl

/-- So is a step of the right one, once it is there. -/
theorem pool_right (h : Starts E started p q I) (hc : I c) {q' : Prog Res α} {w' : W}
    (hboth : started c.world = [p, q]) (hs : Step (E 1) c.right c.world q' w') :
    (⟨(c.pool started).procs.set 1 q' ++ (started w').drop (started c.world).length, w'⟩ :
      Pool Res α W) = Pair.pool started ⟨c.left, q', w'⟩ := by
  have hpair : Pair.Step (E 0) (E 1) c ⟨c.left, q', w'⟩ := .right hs
  have hboth' : started w' = [p, q] := h.stays hc hpair hboth
  rw [pool_both hboth, pool_both hboth', hboth, hboth']
  rfl

/-- A step of the pool is one of the pair. -/
theorem pool_step (h : Starts E started p q I) (hc : I c) {m : Pool Res α W}
    (hs : Pool.Step E started (c.pool started) m) :
    ∃ c', Pair.Step (E 0) (E 1) c c' ∧ m = c'.pool started := by
  cases hs with
  | @step i p₁ p' w' hi hs =>
    rcases h.procs hc with hboth | ⟨hone, -, -⟩
    · rw [pool_both hboth] at hi
      rcases i with _ | _ | i
      · obtain rfl : c.left = p₁ := Option.some.inj hi
        exact ⟨_, .left hs, pool_left h hc hs⟩
      · obtain rfl : c.right = p₁ := Option.some.inj hi
        exact ⟨_, .right hs, pool_right h hc hboth hs⟩
      · cases hi
    · rw [pool_one hone] at hi
      rcases i with _ | i
      · obtain rfl : c.left = p₁ := Option.some.inj hi
        exact ⟨_, .left hs, pool_left h hc hs⟩
      · cases hi

/-- A step of the pair is one of the pool. -/
theorem pool_of_step (h : Starts E started p q I) (hc : I c)
    (hs : Pair.Step (E 0) (E 1) c c') : Pool.Step E started (c.pool started) (c'.pool started) := by
  cases hs with
  | left hs =>
    rw [← pool_left h hc hs]
    exact .step (pool_first h hc) hs
  | right hs =>
    rcases h.procs hc with hboth | ⟨-, hright, hwaits⟩
    · rw [← pool_right h hc hboth hs]
      exact .step (congrArg (·.procs[1]?) (pool_both hboth)) hs
    · obtain rfl := hright
      exact absurd hs (hwaits _ _)

/-- **The runs of the pool are those of the pair.** -/
theorem pool_reach (h : Starts E started p q I) (hc : I c) {m : Pool Res α W}
    (hr : Pool.Reach E started (c.pool started) m) :
    ∃ c', Pair.Reach (E 0) (E 1) c c' ∧ I c' ∧ m = c'.pool started := by
  induction hr with
  | refl => exact ⟨c, .refl, hc, rfl⟩
  | tail _ hs ih =>
    obtain ⟨c', hr', hc', rfl⟩ := ih
    obtain ⟨c'', hs', rfl⟩ := pool_step h hc' hs
    exact ⟨c'', hr'.tail hs', h.keeps hc' hs', rfl⟩

theorem pool_terminates (h : Starts E started p q I) (hc : I c)
    (hacc : Pair.Terminates (E 0) (E 1) c) : Pool.Terminates E started (c.pool started) := by
  induction hacc with
  | intro c _ ih =>
    constructor
    intro m hs
    obtain ⟨c', hs', rfl⟩ := pool_step h hc hs
    exact ih c' hs' (h.keeps hc hs')

theorem pool_at_rest (h : Starts E started p q I) (hc : I c)
    (hrest : Pool.AtRest E started (c.pool started)) : Pair.AtRest (E 0) (E 1) c :=
  fun _ hs => hrest _ (pool_of_step h hc hs)

end

end Interaction
