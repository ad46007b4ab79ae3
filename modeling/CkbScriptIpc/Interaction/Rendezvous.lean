import CkbScriptIpc.Interaction.Stream
import Mathlib.Logic.Relation

/-!
# Rendezvous

Two threads with a channel in each direction that holds no message. Here a `write` of a
program sends its bytes as one message and a `read` receives one, of whatever size; each
waits until it meets the other, or until the other thread is gone.

Where the two take turns, a request and then its reply, each thread is proved alone
against a view of what it may do next (`asking`, `answering`):

* `always_prophecy`: what a thread is going to receive may be known beforehand;
* `conversing_reach`: threads that keep to their views do so in every interleaving;
* `turns_never_stuck`: and then one of them can always take a step, also where the server
  panics on the way.
-/

namespace Interaction

variable {X Y ε α β : Type}

/-- `p` sends what `q` receives. -/
inductive Meets : Prog (StreamOp.Res (X := X) ε Y) α → Prog (StreamOp.Res (X := X) ε Y) β →
    Prog (StreamOp.Res (X := X) ε Y) α → Prog (StreamOp.Res (X := X) ε Y) β → Prop
  | mk {m : Bytes} {n : Nat} {k : Except ε Nat → Prog (StreamOp.Res (X := X) ε Y) α}
      {l : Except ε Bytes → Prog (StreamOp.Res (X := X) ε Y) β} :
      Meets (.call (.write m) k) (.call (.read n) l) (k (.ok m.length)) (l (.ok m))

/-- The other thread is gone: to send is an error, and so is to wait for a message. -/
inductive Forsaken : Prog (StreamOp.Res (X := X) ε Y) α → Prog (StreamOp.Res (X := X) ε Y) α → Prop
  | send {m : Bytes} {e : ε} {k : Except ε Nat → Prog (StreamOp.Res (X := X) ε Y) α} :
      Forsaken (.call (.write m) k) (k (.error e))
  | recv {n : Nat} {e : ε} {k : Except ε Bytes → Prog (StreamOp.Res (X := X) ε Y) α} :
      Forsaken (.call (.read n) k) (k (.error e))

/-- A step that no channel plays a part in. -/
inductive Inner : Prog (StreamOp.Res (X := X) ε Y) α → Prog (StreamOp.Res (X := X) ε Y) α → Prop
  | ask {x : X} {k : Y → Prog (StreamOp.Res (X := X) ε Y) α} (y : Y) :
      Inner (.call (.ext x) k) (k y)
  | loop {σ γ : Type} {body : σ → Prog (StreamOp.Res (X := X) ε Y) (σ ⊕ γ)} {s : σ}
      {k : γ → Prog (StreamOp.Res (X := X) ε Y) α} :
      Inner (.loop body s k) (Prog.unroll body s k)

/-- A thread that has returned or panicked, and has dropped its ends of the channels. -/
def Gone (p : Prog (StreamOp.Res (X := X) ε Y) α) : Prop := ∃ o : Outcome α, p = o.toProg

/-- A client and a server. -/
structure Link (X Y ε α β : Type) : Type 1 where
  client : Prog (StreamOp.Res (X := X) ε Y) α
  server : Prog (StreamOp.Res (X := X) ε Y) β

/-- One of the two takes a step, or both do where they meet. -/
inductive Link.Step : Link X Y ε α β → Link X Y ε α β → Prop
  | request {p p' : Prog (StreamOp.Res (X := X) ε Y) α}
      {q q' : Prog (StreamOp.Res (X := X) ε Y) β} :
      Meets p q p' q' → Link.Step ⟨p, q⟩ ⟨p', q'⟩
  | reply {p p' : Prog (StreamOp.Res (X := X) ε Y) α} {q q' : Prog (StreamOp.Res (X := X) ε Y) β} :
      Meets q p q' p' → Link.Step ⟨p, q⟩ ⟨p', q'⟩
  | client {p p' : Prog (StreamOp.Res (X := X) ε Y) α} {q : Prog (StreamOp.Res (X := X) ε Y) β} :
      Inner p p' → Link.Step ⟨p, q⟩ ⟨p', q⟩
  | server {p : Prog (StreamOp.Res (X := X) ε Y) α} {q q' : Prog (StreamOp.Res (X := X) ε Y) β} :
      Inner q q' → Link.Step ⟨p, q⟩ ⟨p, q'⟩
  | clientAlone {p p' : Prog (StreamOp.Res (X := X) ε Y) α}
      {q : Prog (StreamOp.Res (X := X) ε Y) β} :
      Gone q → Forsaken p p' → Link.Step ⟨p, q⟩ ⟨p', q⟩
  | serverAlone {p : Prog (StreamOp.Res (X := X) ε Y) α}
      {q q' : Prog (StreamOp.Res (X := X) ε Y) β} :
      Gone p → Forsaken q q' → Link.Step ⟨p, q⟩ ⟨p, q'⟩

/-- The runs of the two, in every interleaving. -/
abbrev Link.Reach : Link X Y ε α β → Link X Y ε α β → Prop := Relation.ReflTransGen Link.Step

/-- One step of the two, if there is one before they are gone. What is asked is answered by
`answer`. -/
def Link.next (answer : X → Y) : Link X Y ε α β → Option (Link X Y ε α β)
  | ⟨.loop body s k, q⟩ => some ⟨Prog.unroll body s k, q⟩
  | ⟨p, .loop body s k⟩ => some ⟨p, Prog.unroll body s k⟩
  | ⟨p, .call (.ext x) l⟩ => some ⟨p, l (answer x)⟩
  | ⟨.call (.write m) k, .call (.read _) l⟩ => some ⟨k (.ok m.length), l (.ok m)⟩
  | ⟨.call (.read _) k, .call (.write m) l⟩ => some ⟨k (.ok m), l (.ok m.length)⟩
  | _ => none

theorem Link.next_step {answer : X → Y} {c c' : Link X Y ε α β} (h : c.next answer = some c') :
    Link.Step c c' := by
  unfold Link.next at h
  split at h
  · cases h
    exact .client .loop
  · cases h
    exact .server .loop
  · cases h
    exact .server (.ask _)
  · cases h
    exact .request .mk
  · cases h
    exact .reply .mk
  · cases h

/-- The two, `n` steps later. -/
def Link.exec (answer : X → Y) : Nat → Link X Y ε α β → Link X Y ε α β
  | 0, c => c
  | n + 1, c =>
    match c.next answer with
    | some c' => exec answer n c'
    | none => c

/-- An evaluation is one of the runs. -/
theorem Link.reach_exec (answer : X → Y) (n : Nat) (c : Link X Y ε α β) :
    Link.Reach c (c.exec answer n) := by
  induction n generalizing c with
  | zero => exact .refl
  | succ n ih =>
    rw [Link.exec]
    split
    · rename_i c' hnext
      exact .head (Link.next_step hnext) (ih c')
    · exact .refl

/-- The message that a program is about to send. -/
def Prog.sending : Prog (StreamOp.Res (X := X) ε Y) α → Option Bytes
  | .call (.write m) _ => some m
  | _ => none

/-! ## Taking turns -/

/-- What a client may do next: send one of `n` requests, receive a reply, receive the reply
`m`, or go on without the server, which is gone. -/
inductive Asking where
  | turn (n : Nat)
  | owed (n : Nat)
  | due (n : Nat) (m : Bytes)
  | lost

/-- What a server may do next: receive one of `n` requests, receive the request `m`, or
work on a reply and send it. -/
inductive Answering where
  | listening (n : Nat)
  | due (n : Nat) (m : Bytes)
  | owing (n : Nat)

variable {Request Reply : Bytes → Prop}

def asking (Request Reply : Bytes → Prop) : Env (StreamOp.Res (X := X) ε Y) Asking where
  pre
    | .turn (_ + 1), .write m => Request m
    | .owed _, .read _ => True
    | .due _ _, .read _ => True
    | .lost, .write _ => True
    | .lost, .read _ => True
    | _, _ => False
  step
    | .turn (n + 1), .write m, r, v' =>
      r = .ok m.length ∧ v' = .owed n ∨ (∃ e, r = .error e) ∧ v' = .lost
    | .owed n, .read _, r, v' =>
      (∃ m, Reply m ∧ r = .ok m ∧ v' = .turn n) ∨ (∃ e, r = .error e) ∧ v' = .lost
    | .due n m, .read _, r, v' => r = .ok m ∧ v' = .turn n
    | .lost, .write _, r, v' => (∃ e, r = .error e) ∧ v' = .lost
    | .lost, .read _, r, v' => (∃ e, r = .error e) ∧ v' = .lost
    | _, _, _, _ => False

def answering (Request Reply : Bytes → Prop) : Env (StreamOp.Res (X := X) ε Y) Answering where
  pre
    | .listening _, .read _ => True
    | .due _ _, .read _ => True
    | .owing _, .write m => Reply m
    | .owing _, .ext _ => True
    | _, _ => False
  step
    | .listening (n + 1), .read _, r, v' => ∃ m, Request m ∧ r = .ok m ∧ v' = .owing n
    | .due n m, .read _, r, v' => r = .ok m ∧ v' = .owing n
    | .owing n, .write m, r, v' => r = .ok m.length ∧ v' = .listening n
    | .owing n, .ext _, _, v' => v' = .owing n
    | _, _, _, _ => False

/-! ## Prophecy -/

/-- What happens next in view `v` happens in one of the views `due j` with `M j`, in which it is
known beforehand. Instead of `v` one may take each of these. -/
theorem always_prophecy {V ι : Type} {E : Env (StreamOp.Res (X := X) ε Y) V} {v : V}
    {Q : Outcome α → V → Prop} {p : Prog (StreamOp.Res (X := X) ε Y) α} (due : ι → V)
    (M : ι → Prop) {i : ι} (hi : M i)
    (hpre : ∀ op, E.pre (due i) op → E.pre v op)
    (hstep : ∀ op r v', E.pre v op → E.step v op r v' → ∃ j, M j ∧ E.step (due j) op r v')
    (hQ : ∀ o, ¬ Q o (due i)) (h : ∀ j, M j → Always E Q p (due j)) : Always E Q p v := by
  have h₀ := h i hi
  -- by induction on the proof in one of the views, with those in the others at hand
  generalize hv : due i = v₀ at h₀
  induction h₀ with
  | ret hq => exact absurd (hv ▸ hq) (hQ _)
  | panic hq => exact absurd (hv ▸ hq) (hQ _)
  | call hp _ _ =>
    have hpv := hpre _ (hv ▸ hp)
    refine .call hpv fun r v' hs => ?_
    obtain ⟨j, hj, hs'⟩ := hstep _ r v' hpv hs
    cases h j hj with
    | call _ h' => exact h' r v' hs'
  | loop _ ih =>
    refine .loop (ih (fun j hj => ?_) hv)
    cases h j hj with
    | loop h' => exact h'

/-- What a client comes to know when it is owed a reply: the reply, or that there is none. -/
def Asking.learnt (n : Nat) : Option Bytes → Asking
  | some m => .due n m
  | none => .lost

theorem always_owed {Q : Outcome α → Asking → Prop} {p : Prog (StreamOp.Res (X := X) ε Y) α}
    {n : Nat} {m : Bytes} (hm : Reply m) (hQ : ∀ o, ¬ Q o (.due n m))
    (h : ∀ m, Reply m → Always (asking Request Reply) Q p (.due n m))
    (hlost : Always (asking Request Reply) Q p .lost) :
    Always (asking Request Reply) Q p (.owed n) := by
  refine always_prophecy (Asking.learnt n) (fun r => ∀ m, r = some m → Reply m) (i := some m)
    (by rintro _ ⟨⟩; exact hm) ?_ ?_ hQ ?_
  · rintro (_ | _ | _ | _) hp
    · trivial
    all_goals exact hp.elim
  · rintro (_ | _ | _ | _) r v' hp hs
    · obtain ⟨m', hm', hs'⟩ | hs' := hs
      · exact ⟨some m', by rintro _ ⟨⟩; exact hm', hs'⟩
      · exact ⟨none, by rintro _ ⟨⟩, hs'⟩
    all_goals exact hp.elim
  · rintro (_ | m') hm'
    · exact hlost
    · exact h m' (hm' m' rfl)

theorem always_listening {Q : Outcome α → Answering → Prop}
    {p : Prog (StreamOp.Res (X := X) ε Y) α} {n : Nat} {m : Bytes} (hm : Request m)
    (hQ : ∀ o, ¬ Q o (.due n m))
    (h : ∀ m, Request m → Always (answering Request Reply) Q p (.due n m)) :
    Always (answering Request Reply) Q p (.listening (n + 1)) := by
  refine always_prophecy (.due n) Request hm ?_ ?_ hQ h
  · rintro (_ | _ | _ | _) hp
    · trivial
    all_goals exact hp.elim
  · rintro (_ | _ | _ | _) r v' hp hs
    · obtain ⟨m, hm, hs'⟩ := hs
      exact ⟨m, hm, hs'⟩
    all_goals exact hp.elim

/-! ## Both together -/

/-- The client has returned, and nothing is on its way. -/
def Asked : Outcome α → Asking → Prop
  | .ret _, .turn _ => True
  | .ret _, .lost => True
  | _, _ => False

/-- The server is gone, and owes no reply. -/
def Answered (_ : Outcome β) (v : Answering) : Prop := ∃ n, v = .listening n

/-- The server is gone. It owes no reply, or has panicked. -/
def Stopped (o : Outcome β) (v : Answering) : Prop := o = .panic ∨ Answered o v

/-- The views fit each other. -/
inductive InTurn : Asking → Answering → Prop
  | turn (n : Nat) : InTurn (.turn n) (.listening n)
  | owed (n : Nat) : InTurn (.owed n) (.owing n)

/-- Once the server is gone the client still has its turn, or a reply to wait for, or has found
out. -/
inductive Alone : Asking → Prop
  | turn (n : Nat) : Alone (.turn n)
  | owed (n : Nat) : Alone (.owed n)
  | lost : Alone .lost

theorem InTurn.alone {v₁ : Asking} {v₂ : Answering} (h : InTurn v₁ v₂) : Alone v₁ := by
  cases h with
  | turn n => exact .turn n
  | owed n => exact .owed n

/-- The client has returned, or both threads keep to views that fit, or the server is gone
and the client keeps to its view. -/
inductive Conversing (Request Reply : Bytes → Prop) : Link X Y ε α β → Prop
  | returned (a : α) (q : Prog (StreamOp.Res (X := X) ε Y) β) :
      Conversing Request Reply ⟨.ret a, q⟩
  | both {p : Prog (StreamOp.Res (X := X) ε Y) α} {q : Prog (StreamOp.Res (X := X) ε Y) β}
      {v₁ : Asking} {v₂ : Answering} : Always (asking Request Reply) Asked p v₁ →
      Always (answering Request Reply) Stopped q v₂ → InTurn v₁ v₂ →
      Conversing Request Reply ⟨p, q⟩
  | alone {p : Prog (StreamOp.Res (X := X) ε Y) α} {q : Prog (StreamOp.Res (X := X) ε Y) β}
      {v₁ : Asking} : Always (asking Request Reply) Asked p v₁ → Gone q → Alone v₁ →
      Conversing Request Reply ⟨p, q⟩

section

variable {p p' : Prog (StreamOp.Res (X := X) ε Y) α} {q q' : Prog (StreamOp.Res (X := X) ε Y) β}
  {v₁ : Asking} {v₂ : Answering}

theorem gone_not_meets (h : Gone p) : ¬ Meets p q p' q' := by
  rintro ⟨⟩
  obtain ⟨_ | _, ho⟩ := h <;> cases ho

theorem gone_not_met (h : Gone q) : ¬ Meets p q p' q' := by
  rintro ⟨⟩
  obtain ⟨_ | _, ho⟩ := h <;> cases ho

theorem gone_not_inner (h : Gone p) : ¬ Inner p p' := by
  obtain ⟨_ | _, rfl⟩ := h <;> rintro ⟨⟩

theorem gone_not_forsaken (h : Gone p) : ¬ Forsaken p p' := by
  obtain ⟨_ | _, rfl⟩ := h <;> rintro ⟨⟩

/-- A client that is gone has returned. -/
theorem returned_of_gone (h : Always (asking Request Reply) Asked p v₁) (hp : Gone p) :
    ∃ a, p = .ret a := by
  obtain ⟨o, rfl⟩ := hp
  have ho := always_outcome h
  cases o with
  | ret a => exact ⟨a, rfl⟩
  | panic => cases v₁ <;> exact ho.elim

theorem conversing_request (h₁ : Always (asking Request Reply) Asked p v₁)
    (h₂ : Always (answering Request Reply) Stopped q v₂) (hv : InTurn v₁ v₂)
    (hm : Meets p q p' q') : Conversing Request Reply ⟨p', q'⟩ := by
  cases hm
  cases h₁ with
  | call hp₁ h₁ =>
    cases h₂ with
    | call hp₂ h₂ =>
      cases hv with
      | turn n =>
        cases n with
        | zero => exact hp₁.elim
        | succ n => exact .both (h₁ _ _ (.inl ⟨rfl, rfl⟩)) (h₂ _ _ ⟨_, hp₁, rfl, rfl⟩) (.owed n)
      | owed n => exact hp₁.elim

theorem conversing_reply (h₁ : Always (asking Request Reply) Asked p v₁)
    (h₂ : Always (answering Request Reply) Stopped q v₂) (hv : InTurn v₁ v₂)
    (hm : Meets q p q' p') : Conversing Request Reply ⟨p', q'⟩ := by
  cases hm
  cases h₁ with
  | call hp₁ h₁ =>
    cases h₂ with
    | call hp₂ h₂ =>
      cases hv with
      | turn n => exact hp₂.elim
      | owed n =>
        exact .both (h₁ _ _ (.inl ⟨_, hp₂, rfl, rfl⟩)) (h₂ _ _ ⟨rfl, rfl⟩) (.turn n)

/-- A client asks nobody but the server. -/
theorem asking_not_ext {x : X} : ¬ (asking (Y := Y) (ε := ε) Request Reply).pre v₁ (.ext x) := by
  rcases v₁ with (_ | n) | n | ⟨n, m⟩ | _ <;> exact fun h => h

/-- The channels have no `flush`. -/
theorem asking_not_flush :
    ¬ (asking (X := X) (Y := Y) (ε := ε) Request Reply).pre v₁ .flush := by
  rcases v₁ with (_ | n) | n | ⟨n, m⟩ | _ <;> exact fun h => h

theorem asking_inner (h : Always (asking Request Reply) Asked p v₁) (hi : Inner p p') :
    Always (asking Request Reply) Asked p' v₁ := by
  cases hi with
  | ask y =>
    cases h with
    | call hp _ => exact absurd hp asking_not_ext
  | loop =>
    cases h with
    | loop h => exact h

theorem answering_inner (h : Always (answering Request Reply) Stopped q v₂) (hi : Inner q q') :
    Always (answering Request Reply) Stopped q' v₂ := by
  cases hi with
  | ask y =>
    cases h with
    | call hp h =>
      cases v₂ with
      | owing n => exact h _ _ rfl
      | _ => exact hp.elim
  | loop =>
    cases h with
    | loop h => exact h

theorem conversing_alone (h : Always (asking Request Reply) Asked p v₁) (hq : Gone q)
    (hv : Alone v₁) (hf : Forsaken p p') : Conversing Request Reply ⟨p', q⟩ := by
  cases hf with
  | send =>
    cases h with
    | call hp h =>
      cases hv with
      | turn n =>
        cases n with
        | zero => exact hp.elim
        | succ n => exact .alone (h _ _ (.inr ⟨⟨_, rfl⟩, rfl⟩)) hq .lost
      | owed n => exact hp.elim
      | lost => exact .alone (h _ _ ⟨⟨_, rfl⟩, rfl⟩) hq .lost
  | recv =>
    cases h with
    | call hp h =>
      cases hv with
      | turn n => cases n <;> exact hp.elim
      | owed n => exact .alone (h _ _ (.inr ⟨⟨_, rfl⟩, rfl⟩)) hq .lost
      | lost => exact .alone (h _ _ ⟨⟨_, rfl⟩, rfl⟩) hq .lost

end

/-- A step keeps the two conversing. -/
theorem conversing_step {c c' : Link X Y ε α β} (h : Conversing Request Reply c)
    (hs : Link.Step c c') : Conversing Request Reply c' := by
  cases h with
  | returned a q =>
    have hgone : Gone (.ret a : Prog (StreamOp.Res (X := X) ε Y) α) := ⟨.ret a, rfl⟩
    cases hs with
    | request hm => exact absurd hm (gone_not_meets hgone)
    | reply hm => exact absurd hm (gone_not_met hgone)
    | client hi => exact absurd hi (gone_not_inner hgone)
    | clientAlone _ hf => exact absurd hf (gone_not_forsaken hgone)
    | server _ => exact .returned a _
    | serverAlone _ _ => exact .returned a _
  | both h₁ h₂ hv =>
    cases hs with
    | request hm => exact conversing_request h₁ h₂ hv hm
    | reply hm => exact conversing_reply h₁ h₂ hv hm
    | client hi => exact .both (asking_inner h₁ hi) h₂ hv
    | server hi => exact .both h₁ (answering_inner h₂ hi) hv
    | clientAlone hq hf => exact conversing_alone h₁ hq hv.alone hf
    | serverAlone hp _ =>
      obtain ⟨a, rfl⟩ := returned_of_gone h₁ hp
      exact .returned a _
  | alone h₁ hq hv =>
    cases hs with
    | request hm => exact absurd hm (gone_not_met hq)
    | reply hm => exact absurd hm (gone_not_meets hq)
    | client hi => exact .alone (asking_inner h₁ hi) hq hv
    | server hi => exact absurd hi (gone_not_inner hq)
    | clientAlone _ hf => exact conversing_alone h₁ hq hv hf
    | serverAlone _ hf => exact absurd hf (gone_not_forsaken hq)

theorem conversing_reach {c c' : Link X Y ε α β} (h : Conversing Request Reply c)
    (hr : Link.Reach c c') : Conversing Request Reply c' := by
  induction hr with
  | refl => exact h
  | tail _ hs ih => exact conversing_step ih hs

/-! ## Progress -/

section

variable [Inhabited ε] [Inhabited Y] {p : Prog (StreamOp.Res (X := X) ε Y) α}
  {q : Prog (StreamOp.Res (X := X) ε Y) β} {v₁ : Asking} {n : Nat}

omit [Inhabited Y] in
/-- A client has returned, or can step when the server is gone. -/
theorem alone_steps (h : Always (asking Request Reply) Asked p v₁) (hq : Gone q) :
    (∃ a, p = .ret a) ∨ ∃ c', Link.Step ⟨p, q⟩ c' := by
  cases h with
  | @ret a _ _ => exact .inl ⟨a, rfl⟩
  | panic h => cases v₁ <;> exact h.elim
  | @call op k _ hp _ =>
    cases op with
    | write m => exact .inr ⟨_, .clientAlone hq (.send (e := default))⟩
    | read n => exact .inr ⟨_, .clientAlone hq (.recv (e := default))⟩
    | flush => exact absurd hp asking_not_flush
    | ext x => exact absurd hp asking_not_ext
  | loop _ => exact .inr ⟨_, .client .loop⟩

omit [Inhabited Y] in
theorem turn_steps (h₁ : Always (asking Request Reply) Asked p (.turn n))
    (h₂ : Always (answering Request Reply) Stopped q (.listening n)) :
    (∃ a, p = .ret a) ∨ ∃ c', Link.Step ⟨p, q⟩ c' := by
  cases h₂ with
  | @ret b _ _ => exact alone_steps h₁ ⟨.ret b, rfl⟩
  | panic _ => exact alone_steps h₁ ⟨.panic, rfl⟩
  | loop _ => exact .inr ⟨_, .server .loop⟩
  | @call op k _ hp₂ _ =>
    cases op with
    | read j =>
      -- the server waits for what the client sends
      cases h₁ with
      | @ret a _ _ => exact .inl ⟨a, rfl⟩
      | panic h => exact h.elim
      | loop _ => exact .inr ⟨_, .client .loop⟩
      | @call op k _ hp₁ _ =>
        cases op with
        | write m => exact .inr ⟨_, .request .mk⟩
        | _ => cases n <;> exact hp₁.elim
    | _ => exact hp₂.elim

theorem owed_steps (h₁ : Always (asking Request Reply) Asked p (.owed n))
    (h₂ : Always (answering Request Reply) Stopped q (.owing n)) :
    (∃ a, p = .ret a) ∨ ∃ c', Link.Step ⟨p, q⟩ c' := by
  cases h₂ with
  | @ret b _ _ => exact alone_steps h₁ ⟨.ret b, rfl⟩
  | panic _ => exact alone_steps h₁ ⟨.panic, rfl⟩
  | loop _ => exact .inr ⟨_, .server .loop⟩
  | @call op k _ hp₂ _ =>
    cases op with
    | write m =>
      -- the client waits for what the server sends
      cases h₁ with
      | ret h => exact h.elim
      | panic h => exact h.elim
      | loop _ => exact .inr ⟨_, .client .loop⟩
      | @call op k _ hp₁ _ =>
        cases op with
        | read j => exact .inr ⟨_, .reply .mk⟩
        | _ => exact hp₁.elim
    | ext x => exact .inr ⟨_, .server (.ask default)⟩
    | _ => exact hp₂.elim

/-- **Threads that take turns are never stuck.** Until the client has returned one of the two
can take a step. -/
theorem turns_never_stuck {c c' : Link X Y ε α β} (h : Conversing Request Reply c)
    (hr : Link.Reach c c') : (∃ a, c'.client = .ret a) ∨ ∃ c'', Link.Step c' c'' := by
  cases conversing_reach h hr with
  | returned a q => exact .inl ⟨a, rfl⟩
  | both h₁ h₂ hv =>
    cases hv with
    | turn n => exact turn_steps h₁ h₂
    | owed n => exact owed_steps h₁ h₂
  | alone h₁ hq _ => exact alone_steps h₁ hq

end

end Interaction
