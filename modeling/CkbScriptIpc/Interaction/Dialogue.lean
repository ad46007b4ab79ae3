import CkbScriptIpc.Interaction.Parallel
import CkbScriptIpc.Interaction.Stream

/-!
# Dialogues over two pipes

A client and a server with a FIFO pipe of bytes in each direction. Each party
is proved alone, against a script of what it reads and writes (`scripted`); the
scripts of a `Protocol` fit the pipes in every interleaving.

* `scripted_feeds`: a script hands out the bytes that it has the program read;
* `Protocol.coupling`: the pipes answer each party as its script does;
* `Protocol.dialogue`: a client and a server that follow their scripts never
  panic, never get stuck, and end with every question asked once and in order.
-/

namespace Interaction

variable {X Y ε σ α β : Type}

/-- A read takes between one and `n` bytes from the front of a pipe, and waits while
the pipe is empty. -/
def Chunk (n : Nat) (pipe c rest : Bytes) : Prop := pipe = c ++ rest ∧ c ≠ [] ∧ c.length ≤ n

theorem Chunk.ne_nil {n : Nat} {pipe c rest : Bytes} (h : Chunk n pipe c rest) : pipe ≠ [] := by
  rintro rfl
  exact h.2.1 (List.append_eq_nil_iff.mp h.1.symm).1

theorem Chunk.pos {n : Nat} {pipe c rest : Bytes} (h : Chunk n pipe c rest) : 0 < n :=
  Nat.lt_of_lt_of_le (List.length_pos_iff.mpr h.2.1) h.2.2

theorem exists_chunk {n : Nat} {pipe : Bytes} (hn : 0 < n) (h : pipe ≠ []) :
    ∃ c rest, Chunk n pipe c rest := by
  obtain ⟨b, rest, rfl⟩ := List.exists_cons_of_ne_nil h
  exact ⟨[b], rest, rfl, by simp, hn⟩

/-! ## Scripts -/

/-- What a program is to do next: read the bytes `bs`, write `bs` by one call,
ask `x` and be answered `y`, or wait for input that does not come. -/
inductive Event (X Y : Type) where
  | recv (bs : Bytes)
  | send (bs : Bytes)
  | ask (x : X) (y : Y)
  | listen

/-- The bytes `t` are still to be read before `L`. -/
def awaiting (t : Bytes) (L : List (Event X Y)) : List (Event X Y) :=
  if t = [] then L else .recv t :: L

theorem awaiting_nil (L : List (Event X Y)) : awaiting [] L = L := rfl

theorem awaiting_ne_nil {t : Bytes} (h : t ≠ []) (L : List (Event X Y)) :
    awaiting t L = .recv t :: L := if_neg h

theorem awaiting_eq_nil {t : Bytes} {L : List (Event X Y)} (h : awaiting t L = []) :
    t = [] ∧ L = [] := by
  by_cases ht : t = []
  · rw [ht, awaiting_nil] at h
    exact ⟨ht, h⟩
  · rw [awaiting_ne_nil ht] at h
    cases h

/-- Nothing is to be read before another event. -/
theorem nil_of_awaiting {t : Bytes} {e : Event X Y} {L L' : List (Event X Y)}
    (h : awaiting t L = e :: L') (he : ∀ bs, e ≠ .recv bs) : t = [] := by
  by_cases ht : t = []
  · exact ht
  · rw [awaiting_ne_nil ht] at h
    injection h with h _
    exact absurd h.symm (he t)

/-- The environment that follows a script. A flush is always possible. -/
def scripted : Env (StreamOp.Res (X := X) ε Y) (List (Event X Y)) where
  pre
    | w, .read n => 0 < n ∧ ((∃ bs L, w = .recv bs :: L) ∨ w = [.listen])
    | w, .write bs => ∃ L, w = .send bs :: L
    | _, .flush => True
    | w, .ext x => ∃ y L, w = .ask x y :: L
  step
    | w, .read n, r, w' => ∃ bs c t L, w = .recv bs :: L ∧ Chunk n bs c t ∧ r = .ok c ∧
      w' = awaiting t L
    | w, .write bs, r, w' => w = .send bs :: w' ∧ r = .ok bs.length
    | w, .flush, r, w' => r = .ok () ∧ w' = w
    | w, .ext x, r, w' => w = .ask x r :: w'

section

variable {s : Bytes} {L w : List (Event X Y)} {n : Nat}

theorem scripted_pre_read (hs : s ≠ []) (hn : 0 < n) :
    (scripted (X := X) (Y := Y) (ε := ε)).pre (awaiting s L) (.read n) := by
  rw [awaiting_ne_nil hs]
  exact ⟨hn, .inl ⟨s, L, rfl⟩⟩

/-- A read gets the front of what is to be read next. -/
theorem scripted_read {r : Except ε Bytes} (hs : s ≠ [])
    (h : (scripted (X := X) (Y := Y) (ε := ε)).step (awaiting s L) (.read n) r w) :
    ∃ c t, Chunk n s c t ∧ r = .ok c ∧ w = awaiting t L := by
  obtain ⟨bs, c, t, L', hL, hc, hr, hw⟩ := h
  rw [awaiting_ne_nil hs] at hL
  cases hL
  exact ⟨c, t, hc, hr, hw⟩

/-- At the end of its script a program waits for ever. -/
theorem scripted_listen {k : Except ε Bytes → Prog (StreamOp.Res (X := X) ε Y) α}
    {Q : Outcome α → List (Event X Y) → Prop} (hn : 0 < n) :
    Always scripted Q (.call (.read n) k) [.listen] := by
  refine .call ⟨hn, .inr rfl⟩ ?_
  rintro r w' ⟨_, _, _, _, hL, -⟩
  cases hL

end

/-! ## The pipes -/

/-- The bytes in the two pipes, the state of the service behind the server, and
what it has been asked and has answered. -/
structure Net (X Y σ : Type) where
  toServer : Bytes
  toClient : Bytes
  service : σ
  log : List (X × Y)

def clientEnd : Env (StreamOp.Res (X := X) ε Y) (Net X Y σ) where
  pre _ _ := True
  step
    | w, .read n, r, w' => ∃ c t, Chunk n w.toClient c t ∧ r = .ok c ∧
      w' = { w with toClient := t }
    | w, .write bs, r, w' => r = .ok bs.length ∧ w' = { w with toServer := w.toServer ++ bs }
    | w, .flush, r, w' => r = .ok () ∧ w' = w
    | _, .ext _, _, _ => False

/-- The server's end, with a service that computes its answers by `answer`. -/
def serverEnd (answer : σ → X → Y × σ) : Env (StreamOp.Res (X := X) ε Y) (Net X Y σ) where
  pre _ _ := True
  step
    | w, .read n, r, w' => ∃ c t, Chunk n w.toServer c t ∧ r = .ok c ∧
      w' = { w with toServer := t }
    | w, .write bs, r, w' => r = .ok bs.length ∧ w' = { w with toClient := w.toClient ++ bs }
    | w, .flush, r, w' => r = .ok () ∧ w' = w
    | w, .ext x, r, w' => r = (answer w.service x).1 ∧
      w' = { w with service := (answer w.service x).2
                    log := w.log ++ [(x, (answer w.service x).1)] }

/-! ## Protocols -/

/-- A question `x` goes to the server as `request x`, and its answer `y` comes
back as `reply x y`. -/
structure Protocol (X Y σ : Type) where
  request : X → Bytes
  reply : X → Y → Bytes
  answer : σ → X → Y × σ
  request_ne_nil : ∀ x, request x ≠ []
  reply_ne_nil : ∀ x y, reply x y ≠ []

namespace Protocol

variable (P : Protocol X Y σ)

/-- The questions with the answers that a service in state `s` gives them. -/
def answers : σ → List X → List (X × Y)
  | _, [] => []
  | s, x :: xs => (x, (P.answer s x).1) :: answers (P.answer s x).2 xs

theorem answers_fst (s : σ) (xs : List X) : (P.answers s xs).map Prod.fst = xs := by
  induction xs generalizing s with
  | nil => rfl
  | cons x xs ih => simp only [answers, List.map_cons, ih]

def clientScript : σ → List X → List (Event X Y)
  | _, [] => []
  | s, x :: xs => .send (P.request x) :: .recv (P.reply x (P.answer s x).1) ::
      clientScript (P.answer s x).2 xs

def serverScript : σ → List X → List (Event X Y)
  | _, [] => [.listen]
  | s, x :: xs => .recv (P.request x) :: .ask x (P.answer s x).1 ::
      .send (P.reply x (P.answer s x).1) :: serverScript (P.answer s x).2 xs

/-- How the scripts and the pipes go together when `all` is to be asked: nothing is
in flight but a reply, or a request is, or a reply is about to be sent. -/
inductive InStep (all : List (X × Y)) :
    List (Event X Y) → List (Event X Y) → Net X Y σ → Prop
  | idle {t : Bytes} {st : σ} {log : List (X × Y)} {xs : List X} :
      log ++ P.answers st xs = all →
      InStep all (awaiting t (P.clientScript st xs)) (P.serverScript st xs) ⟨[], t, st, log⟩
  | requested {t : Bytes} {st : σ} {log : List (X × Y)} {x : X} {xs : List X} :
      log ++ P.answers st (x :: xs) = all →
      InStep all (P.clientScript st (x :: xs)).tail
        (awaiting t (P.serverScript st (x :: xs)).tail) ⟨t, [], st, log⟩
  | answered {bs : Bytes} {st : σ} {log : List (X × Y)} {xs : List X} : bs ≠ [] →
      log ++ P.answers st xs = all →
      InStep all (.recv bs :: P.clientScript st xs) (.send bs :: P.serverScript st xs)
        ⟨[], [], st, log⟩

variable {P} {all : List (X × Y)} {v₁ v₂ : List (Event X Y)} {w w' : Net X Y σ} {n : Nat}
  {bs c t : Bytes}

theorem inStep_client_read (h : P.InStep all v₁ v₂ w) (hchunk : Chunk n w.toClient c t) :
    ∃ v₁', (scripted (ε := ε)).step v₁ (.read n) (.ok c) v₁' ∧
      P.InStep all v₁' v₂ { w with toClient := t } := by
  cases h with
  | idle hlog =>
    exact ⟨_, ⟨_, c, t, _, awaiting_ne_nil hchunk.ne_nil _, hchunk, rfl, rfl⟩, .idle hlog⟩
  | requested _ => exact absurd rfl hchunk.ne_nil
  | answered _ _ => exact absurd rfl hchunk.ne_nil

theorem inStep_client_write (h : P.InStep all v₁ v₂ w)
    (hpre : (scripted (ε := ε)).pre v₁ (.write bs)) :
    ∃ v₁', (scripted (ε := ε)).step v₁ (.write bs) (.ok bs.length) v₁' ∧
      P.InStep all v₁' v₂ { w with toServer := w.toServer ++ bs } := by
  obtain ⟨L, hL⟩ := hpre
  cases h with
  | @idle _ st log xs hlog =>
    obtain rfl := nil_of_awaiting hL fun _ he => by cases he
    cases xs with
    | nil => cases hL
    | cons x xs =>
      cases hL
      have hstep : P.InStep all (P.clientScript st (x :: xs)).tail
          (awaiting (P.request x) (P.serverScript st (x :: xs)).tail)
          ⟨P.request x, [], st, log⟩ := .requested hlog
      rw [awaiting_ne_nil (P.request_ne_nil x)] at hstep
      exact ⟨_, ⟨rfl, rfl⟩, hstep⟩
  | requested _ => cases hL
  | answered _ _ => cases hL

theorem inStep_server_read (h : P.InStep all v₁ v₂ w) (hchunk : Chunk n w.toServer c t) :
    ∃ v₂', (scripted (ε := ε)).step v₂ (.read n) (.ok c) v₂' ∧
      P.InStep all v₁ v₂' { w with toServer := t } := by
  cases h with
  | idle _ => exact absurd rfl hchunk.ne_nil
  | requested hlog =>
    exact ⟨_, ⟨_, c, t, _, awaiting_ne_nil hchunk.ne_nil _, hchunk, rfl, rfl⟩, .requested hlog⟩
  | answered _ _ => exact absurd rfl hchunk.ne_nil

theorem inStep_server_ask {x : X} (h : P.InStep all v₁ v₂ w)
    (hpre : (scripted (ε := ε)).pre v₂ (.ext x)) :
    ∃ v₂', (scripted (ε := ε)).step v₂ (.ext x) (P.answer w.service x).1 v₂' ∧
      P.InStep all v₁ v₂' { w with
        service := (P.answer w.service x).2, log := w.log ++ [(x, (P.answer w.service x).1)] } := by
  obtain ⟨y, L, hL⟩ := hpre
  cases h with
  | @idle _ _ _ xs _ => cases xs <;> cases hL
  | requested hlog =>
    obtain rfl := nil_of_awaiting hL fun _ he => by cases he
    cases hL
    refine ⟨_, rfl, .answered (P.reply_ne_nil _ _) ?_⟩
    rw [List.append_assoc]
    exact hlog
  | answered _ _ => cases hL

theorem inStep_server_write (h : P.InStep all v₁ v₂ w)
    (hpre : (scripted (ε := ε)).pre v₂ (.write bs)) :
    ∃ v₂', (scripted (ε := ε)).step v₂ (.write bs) (.ok bs.length) v₂' ∧
      P.InStep all v₁ v₂' { w with toClient := w.toClient ++ bs } := by
  obtain ⟨L, hL⟩ := hpre
  cases h with
  | @idle _ _ _ xs _ => cases xs <;> cases hL
  | requested _ =>
    obtain rfl := nil_of_awaiting hL fun _ he => by cases he
    cases hL
  | @answered _ st log xs hne hlog =>
    cases hL
    have hstep : P.InStep all (awaiting bs (P.clientScript st xs)) (P.serverScript st xs)
        ⟨[], bs, st, log⟩ := .idle hlog
    rw [awaiting_ne_nil hne] at hstep
    exact ⟨_, ⟨rfl, rfl⟩, hstep⟩

/-- **The pipes answer each party as its script does.** -/
theorem coupling (all : List (X × Y)) :
    Coupling (clientEnd (ε := ε)) (serverEnd P.answer) scripted scripted (P.InStep all) where
  left := by
    intro v₁ v₂ w op r w' h hpre hs
    cases op with
    | read n =>
      obtain ⟨c, t, hchunk, rfl, rfl⟩ := hs
      exact inStep_client_read h hchunk
    | write bs =>
      obtain ⟨rfl, rfl⟩ := hs
      exact inStep_client_write h hpre
    | flush =>
      obtain ⟨rfl, rfl⟩ := hs
      exact ⟨v₁, ⟨rfl, rfl⟩, h⟩
    | ext x => exact hs.elim
  right := by
    intro v₁ v₂ w op r w' h hpre hs
    cases op with
    | read n =>
      obtain ⟨c, t, hchunk, rfl, rfl⟩ := hs
      exact inStep_server_read h hchunk
    | write bs =>
      obtain ⟨rfl, rfl⟩ := hs
      exact inStep_server_write h hpre
    | flush =>
      obtain ⟨rfl, rfl⟩ := hs
      exact ⟨v₂, ⟨rfl, rfl⟩, h⟩
    | ext x =>
      obtain ⟨rfl, rfl⟩ := hs
      exact inStep_server_ask h hpre

/-! ## Progress -/

/-- One of the two parties can make every call that its script permits. -/
theorem inStep_answers (h : P.InStep all v₁ v₂ w) :
    AnswersView (clientEnd (ε := ε)) scripted w v₁ ∨
      AnswersView (serverEnd (ε := ε) P.answer) scripted w v₂ := by
  cases h with
  | @idle t st log xs hlog =>
    left
    rintro (n | bs | _ | x) hpre
    · obtain ⟨hn, hL⟩ := hpre
      by_cases ht : t = []
      · subst ht
        cases xs <;> rcases hL with ⟨_, _, hL⟩ | hL <;> cases hL
      · obtain ⟨c, rest, hchunk⟩ := exists_chunk hn ht
        exact ⟨.ok c, _, c, rest, hchunk, rfl, rfl⟩
    · exact ⟨_, _, rfl, rfl⟩
    · exact ⟨_, _, rfl, rfl⟩
    · obtain ⟨y, L, hL⟩ := hpre
      obtain rfl := nil_of_awaiting hL fun _ he => by cases he
      cases xs <;> cases hL
  | @requested t st log x xs hlog =>
    right
    rintro (n | bs | _ | x) hpre
    · obtain ⟨hn, hL⟩ := hpre
      by_cases ht : t = []
      · subst ht
        rcases hL with ⟨_, _, hL⟩ | hL <;> cases hL
      · obtain ⟨c, rest, hchunk⟩ := exists_chunk hn ht
        exact ⟨.ok c, _, c, rest, hchunk, rfl, rfl⟩
    · exact ⟨_, _, rfl, rfl⟩
    · exact ⟨_, _, rfl, rfl⟩
    · exact ⟨_, _, rfl, rfl⟩
  | answered _ _ =>
    right
    rintro (n | bs | _ | x) hpre
    · obtain ⟨-, ⟨_, _, hL⟩ | hL⟩ := hpre <;> cases hL
    · exact ⟨_, _, rfl, rfl⟩
    · exact ⟨_, _, rfl, rfl⟩
    · exact ⟨_, _, rfl, rfl⟩

/-! ## Whole dialogues -/

/-- The client `p` and the server `q` with nothing in the pipes. -/
def start (p : Prog (StreamOp.Res (X := X) ε Y) α) (q : Prog (StreamOp.Res (X := X) ε Y) β)
    (st : σ) : Pair (StreamOp.Res (X := X) ε Y) α β (Net X Y σ) :=
  ⟨p, q, ⟨[], [], st, []⟩⟩

/-- In every interleaving the client `p` has the questions `xs` answered by the server
`q`, once each and in order, and returns with `A`; neither panics. -/
structure Succeeds (P : Protocol X Y σ) (p : Prog (StreamOp.Res (X := X) ε Y) α)
    (q : Prog (StreamOp.Res (X := X) ε Y) β) (st : σ) (xs : List X) (A : α → Prop) : Prop where
  no_panic : ∀ {c}, Pair.Reach clientEnd (serverEnd P.answer) (start p q st) c →
    c.left ≠ .panic ∧ c.right ≠ .panic
  in_order : ∀ {c}, Pair.Reach clientEnd (serverEnd P.answer) (start p q st) c →
    c.world.log <+: P.answers st xs
  returned : ∀ {c a}, Pair.Reach clientEnd (serverEnd P.answer) (start p q st) c →
    c.left = .ret a → A a ∧ c.world.log = P.answers st xs
  terminates : Pair.Terminates clientEnd (serverEnd P.answer) (start p q st)
  at_rest : ∀ {c}, Pair.Reach clientEnd (serverEnd P.answer) (start p q st) c →
    Pair.AtRest clientEnd (serverEnd P.answer) c → ∃ a, c.left = .ret a

theorem inStep_prefix (h : P.InStep all v₁ v₂ w) : w.log <+: all := by
  cases h with
  | idle hlog => exact ⟨_, hlog⟩
  | requested hlog => exact ⟨_, hlog⟩
  | answered _ hlog => exact ⟨_, hlog⟩

/-- A client at the end of its script has had all answers. -/
theorem inStep_done (h : P.InStep all [] v₂ w) : w.log = all := by
  generalize hv : ([] : List (Event X Y)) = v₁ at h
  cases h with
  | @idle _ _ _ xs hlog =>
    obtain ⟨-, hxs⟩ := awaiting_eq_nil hv.symm
    cases xs with
    | nil => simpa [answers] using hlog
    | cons x xs => cases hxs
  | requested _ => cases hv
  | answered _ _ => cases hv

/-- **Dialogue.** Parties that follow their scripts succeed together. -/
theorem dialogue {p : Prog (StreamOp.Res (X := X) ε Y) α} {q : Prog (StreamOp.Res (X := X) ε Y) β}
    {st : σ} {xs : List X} {A : α → Prop}
    (hp : Always scripted (returns fun a L => A a ∧ L = []) p (P.clientScript st xs))
    (hq : Always scripted (fun _ _ => False) q (P.serverScript st xs)) :
    P.Succeeds p q st xs A := by
  have hC := P.coupling (ε := ε) (P.answers st xs)
  have hstart : P.InStep (P.answers st xs) (P.clientScript st xs) (P.serverScript st xs)
      ⟨[], [], st, []⟩ := .idle (t := []) (List.nil_append _)
  have hcourse : OnCourse scripted scripted (P.InStep (P.answers st xs))
      (returns fun a L => A a ∧ L = []) (fun _ _ => False) (start p q st) :=
    ⟨_, _, hp, hq, hstart⟩
  constructor
  · intro c hr
    obtain ⟨v₁, v₂, hp', hq', -⟩ := coupled_reach hC hcourse hr
    constructor
    · intro he
      rw [he] at hp'
      exact always_outcome (o := .panic) hp'
    · intro he
      rw [he] at hq'
      exact always_outcome (o := .panic) hq'
  · intro c hr
    obtain ⟨v₁, v₂, -, -, hc⟩ := coupled_reach hC hcourse hr
    exact inStep_prefix hc
  · intro c a hr he
    obtain ⟨v₁, v₂, hp', -, hc⟩ := coupled_reach hC hcourse hr
    rw [he] at hp'
    obtain ⟨ha, rfl⟩ := always_outcome (o := .ret a) hp'
    exact ⟨ha, inStep_done hc⟩
  · exact coupled_terminates hC hp hq hstart
  · intro c hr hrest
    obtain ⟨v₁, v₂, hp', hq', hc⟩ := coupled_reach hC hcourse hr
    rcases inStep_answers hc with hanswers | hanswers
    · obtain ⟨o, he, ho⟩ := always_at_rest hp' hanswers fun _ _ hs => hrest _ (.left hs)
      cases o with
      | ret a => exact ⟨a, he⟩
      | panic => exact ho.elim
    · obtain ⟨o, -, ho⟩ := always_at_rest hq' hanswers fun _ _ hs => hrest _ (.right hs)
      exact ho.elim

end Protocol

end Interaction
