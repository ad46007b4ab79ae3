import CkbScriptIpc.Interaction.Dialogue
import CkbScriptIpc.Interaction.Hoist

/-!
# Dialogues in pieces

The two pipes of a dialogue again, now between parties that have operations of
their own and may write a packet in pieces (`paced`), so that the other end may
read its front before the rest is written.

* `always_paced`: a party that writes every packet by one call is one of these;
* `always_sending`: so is one whose output, all told, is the packet;
* `converse`: a client and a server that follow the scripts of the same `Round`s
  never panic, never get stuck, and end with every question asked once and in order.
-/

namespace Interaction

variable {X Y ε σ α β : Type}

/-! ## Scripts -/

/-- The bytes `t` are still to be written before `L`. -/
def sending (t : Bytes) (L : List (Event X Y)) : List (Event X Y) :=
  if t = [] then L else .send t :: L

theorem sending_nil (L : List (Event X Y)) : sending [] L = L := rfl

theorem sending_ne_nil {t : Bytes} (h : t ≠ []) (L : List (Event X Y)) :
    sending t L = .send t :: L := if_neg h

/-- Nothing is to be written before another event. -/
theorem nil_of_sending {t : Bytes} {e : Event X Y} {L L' : List (Event X Y)}
    (h : sending t L = e :: L') (he : ∀ bs, e ≠ .send bs) : t = [] := by
  by_cases ht : t = []
  · exact ht
  · rw [sending_ne_nil ht] at h
    injection h with h _
    exact absurd h.symm (he t)

/-- The bytes `bs` are next to be written, and then `w'` follows. -/
def Emits (bs : Bytes) (w w' : List (Event X Y)) : Prop :=
  ∃ t L, w = sending (bs ++ t) L ∧ w' = sending t L

theorem emits_sending {bs t : Bytes} {L w' : List (Event X Y)}
    (h : Emits bs (sending (bs ++ t) L) w') : w' = sending t L := by
  obtain ⟨t', L', hw, rfl⟩ := h
  by_cases hbs : bs = []
  · subst hbs
    exact hw.symm
  · have hne : ∀ u : Bytes, bs ++ u ≠ [] := fun u hu => hbs (List.append_eq_nil_iff.mp hu).1
    rw [sending_ne_nil (hne t), sending_ne_nil (hne t')] at hw
    injection hw with hsend hL
    injection hsend with hbytes
    rw [List.append_cancel_left hbytes, hL]

theorem emits_cases {bs : Bytes} {w w' : List (Event X Y)} (h : Emits bs w w') :
    bs = [] ∧ w' = w ∨ bs ≠ [] ∧ ∃ t L, w = .send (bs ++ t) :: L ∧ w' = sending t L := by
  obtain ⟨t, L, rfl, rfl⟩ := h
  by_cases hbs : bs = []
  · exact .inl ⟨hbs, by rw [hbs, List.nil_append]⟩
  · have hne : bs ++ t ≠ [] := fun hu => hbs (List.append_eq_nil_iff.mp hu).1
    exact .inr ⟨hbs, t, L, sending_ne_nil hne L, rfl⟩

/-- What is to be written before other events. -/
theorem of_sending_eq {u bs : Bytes} {L L' : List (Event X Y)} (h : sending u L = .send bs :: L')
    (hL : ∀ bs L', L ≠ .send bs :: L') : u = bs ∧ L = L' := by
  by_cases hu : u = []
  · rw [hu, sending_nil] at h
    exact absurd h (hL _ _)
  · rw [sending_ne_nil hu] at h
    cases h
    exact ⟨rfl, rfl⟩

/-- The environment that follows a script, and lets a packet be written in pieces. -/
def paced : Env (StreamOp.Res (X := X) ε Y) (List (Event X Y)) where
  pre
    | w, .read n => 0 < n ∧ ((∃ bs L, w = .recv bs :: L) ∨ w = [.listen])
    | w, .write bs => ∃ w', Emits bs w w'
    | _, .flush => True
    | w, .ext x => ∃ y L, w = .ask x y :: L
  step
    | w, .read n, r, w' => ∃ bs c t L, w = .recv bs :: L ∧ Chunk n bs c t ∧ r = .ok c ∧
      w' = awaiting t L
    | w, .write bs, r, w' => Emits bs w w' ∧ r = .ok bs.length
    | w, .flush, r, w' => r = .ok () ∧ w' = w
    | w, .ext x, r, w' => w = .ask x r :: w'

/-- A party that writes every packet by one call, where no packet is empty. -/
theorem simulates_paced :
    Simulates (scripted (X := X) (Y := Y) (ε := ε)) paced id (fun _ r => r)
      fun w w' => w = w' ∧ .send [] ∉ w where
  pre := by
    rintro w _ (n | bs | _ | x) ⟨rfl, hsolid⟩ hp
    · exact hp
    · obtain ⟨L, rfl⟩ := hp
      have hbs : bs ≠ [] := by
        rintro rfl
        exact hsolid List.mem_cons_self
      exact ⟨L, [], L, by rw [List.append_nil, sending_ne_nil hbs], rfl⟩
    · exact trivial
    · exact hp
  step := by
    rintro w _ (n | bs | _ | x) r v' ⟨rfl, hsolid⟩ hp hs
    · refine ⟨v', hs, rfl, ?_⟩
      obtain ⟨bs, c, t, L, rfl, -, -, rfl⟩ := hs
      have hL : .send [] ∉ L := fun hmem => hsolid (List.mem_cons_of_mem _ hmem)
      by_cases ht : t = []
      · rwa [ht, awaiting_nil]
      · rw [awaiting_ne_nil ht]
        rintro (_ | ⟨_, hmem⟩)
        exact hL hmem
    · obtain ⟨L, rfl⟩ := hp
      obtain ⟨hw, rfl⟩ := hs
      have hbs : bs ≠ [] := by
        rintro rfl
        exact hsolid List.mem_cons_self
      have hall : sending (bs ++ []) L = .send bs :: L := by
        rw [List.append_nil, sending_ne_nil hbs]
      obtain rfl := emits_sending (hall ▸ hw)
      exact ⟨v', ⟨rfl, rfl⟩, rfl, fun hmem => hsolid (List.mem_cons_of_mem _ hmem)⟩
    · obtain ⟨rfl, rfl⟩ := hs
      exact ⟨_, ⟨rfl, rfl⟩, rfl, hsolid⟩
    · obtain rfl := hs
      exact ⟨v', rfl, rfl, fun hmem => hsolid (List.mem_cons_of_mem _ hmem)⟩

theorem always_paced {p : Prog (StreamOp.Res (X := X) ε Y) α} {L : List (Event X Y)}
    {Q : Outcome α → List (Event X Y) → Prop} (h : Always scripted Q p L) (hL : .send [] ∉ L) :
    Always paced Q p L := by
  refine (always_simulates simulates_paced h ⟨rfl, hL⟩).mono ?_
  rintro o v ⟨_, ⟨rfl, -⟩, ho⟩
  exact ho

/-! ## A packet in pieces -/

theorem collecting_answers :
    (collecting : Env (StreamOp.Res (X := X) ε Y) Bytes).Answers := by
  rintro w (n | bs | _ | x) hp
  · exact hp.elim
  · exact ⟨.ok bs.length, w ++ bs, rfl, rfl⟩
  · exact ⟨.ok (), w, rfl, rfl⟩
  · exact hp.elim

/-- What has been written stays. -/
theorem collecting_grows {p p' : Prog (StreamOp.Res (X := X) ε Y) α} {w w' : Bytes}
    (h : Reach collecting p w p' w') : w <+: w' := by
  induction h with
  | refl => exact List.prefix_rfl
  | head hs _ ih =>
    cases hs with
    | @call op _ _ _ _ hs =>
      cases op with
      | read n => exact hs.elim
      | write bs =>
        obtain ⟨-, rfl⟩ := hs
        exact (List.prefix_append _ _).trans ih
      | flush =>
        obtain ⟨-, rfl⟩ := hs
        exact ih
      | ext x => exact hs.elim
    | loop => exact ih

/-- A program whose output is `m` in the end follows a script that has it write `m`: before its
end it cannot have written anything else. -/
theorem always_sending {p : Prog (StreamOp.Res (X := X) ε Y) α} {Q : Outcome α → Prop}
    {m o t : Bytes} {L : List (Event X Y)} (h : Always collecting (fun r w => Q r ∧ w = m) p o)
    (ht : o ++ t = m) : Always paced (fun r w => Q r ∧ w = L) p (sending t L) := by
  induction h generalizing t with
  | ret hq =>
    obtain ⟨hq, rfl⟩ := hq
    rw [List.append_right_eq_self.mp ht]
    exact .ret ⟨hq, rfl⟩
  | panic hq =>
    obtain ⟨hq, rfl⟩ := hq
    rw [List.append_right_eq_self.mp ht]
    exact .panic ⟨hq, rfl⟩
  | @call op k o hp hk ih =>
    cases op with
    | read n => exact hp.elim
    | write bs =>
      have hnext := hk (.ok bs.length) (o ++ bs) ⟨rfl, rfl⟩
      obtain ⟨r, _, hend, -, rfl⟩ := hnext.exists_ends collecting_answers
      obtain ⟨t', ht'⟩ := collecting_grows hend
      have hsplit : t = bs ++ t' := by
        rw [← ht, List.append_assoc] at ht'
        exact (List.append_cancel_left ht').symm
      subst hsplit
      refine .call ⟨_, t', L, rfl, rfl⟩ ?_
      rintro r w' ⟨hw, rfl⟩
      obtain rfl := emits_sending hw
      exact ih _ _ ⟨rfl, rfl⟩ ht'
    | flush =>
      refine .call trivial ?_
      rintro r w' ⟨rfl, rfl⟩
      exact ih _ _ ⟨rfl, rfl⟩ ht
    | ext x => exact hp.elim
  | loop _ ih => exact .loop (ih ht)

/-- A script hands out the bytes that it has the program read. -/
theorem paced_feeds (L : List (Event X Y)) :
    FeedsOn (paced (X := X) (Y := Y) (ε := ε)) fun w s => w = awaiting s L where
  pre := by
    rintro w s n rfl hs hn
    rw [awaiting_ne_nil hs]
    exact ⟨hn, .inl ⟨s, L, rfl⟩⟩
  chunk := by
    rintro w s n r w' rfl hs ⟨bs, c, t, L', hL, ⟨hsplit, hc, hlen⟩, rfl, rfl⟩
    rw [awaiting_ne_nil hs] at hL
    cases hL
    exact ⟨c, t, hsplit, hc, hlen, rfl, rfl⟩

/-- At the end of its script a program waits for ever. -/
theorem paced_listen {k : Except ε Bytes → Prog (StreamOp.Res (X := X) ε Y) α}
    {Q : Outcome α → List (Event X Y) → Prop} {n : Nat} (hn : 0 < n) :
    Always paced Q (.call (.read n) k) [.listen] := by
  refine .call ⟨hn, .inr rfl⟩ ?_
  rintro r w' ⟨_, _, _, _, hL, -⟩
  cases hL

/-! ## Rounds -/

/-- A request and its reply, and what the service is asked in between. -/
structure Round (X Y : Type) where
  request : Bytes
  asked : List (X × Y)
  reply : Bytes
  request_ne_nil : request ≠ []
  reply_ne_nil : reply ≠ []

section

variable {U V δ : Type}

/-- The client's script, for a client with operations of its own. -/
def clientEvents : List (Round X Y) → List (Event U V)
  | [] => []
  | r :: rs => .send r.request :: .recv r.reply :: clientEvents rs

/-- Behind the last round the server waits for another request, if it stays. -/
def afterwards (stays : Bool) : List (Event X Y) := if stays then [.listen] else []

def asks (l : List (X × Y)) : List (Event X Y) := l.map fun x => .ask x.1 x.2

/-- What a server does in a round once it has read the request. -/
def serving (l : List (X × Y)) (reply : Bytes) (rest : List (Event X Y)) : List (Event X Y) :=
  asks l ++ .send reply :: rest

def serverEvents (stays : Bool) : List (Round X Y) → List (Event X Y)
  | [] => afterwards stays
  | r :: rs => .recv r.request :: serving r.asked r.reply (serverEvents stays rs)

/-- All that the service is asked. -/
def questions (rs : List (Round X Y)) : List (X × Y) := rs.flatMap Round.asked

/-- A service in state `s` gives these answers. -/
def Gives (answer : σ → X → Y × σ) : σ → List (X × Y) → Prop
  | _, [] => True
  | s, x :: xs => (answer s x.1).1 = x.2 ∧ Gives answer (answer s x.1).2 xs

/-- No packet in the scripts is empty. -/
theorem send_nil_notMem_client (rs : List (Round X Y)) :
    .send [] ∉ (clientEvents rs : List (Event U V)) := by
  induction rs with
  | nil => simp [clientEvents]
  | cons r rs ih => simp [clientEvents, ih, r.request_ne_nil.symm]

theorem send_nil_notMem_server (stays : Bool) (rs : List (Round X Y)) :
    .send [] ∉ serverEvents stays rs := by
  induction rs with
  | nil => cases stays <;> simp [serverEvents, afterwards]
  | cons r rs ih => simp [serverEvents, serving, asks, ih, r.reply_ne_nil.symm]

/-! ## The pipes -/

/-- The client's end, for a client with operations of its own. -/
def clientSide : Env (StreamOp.Res (X := U) δ V) (Net X Y σ) where
  pre _ _ := True
  step
    | w, .read n, r, w' => ∃ c t, Chunk n w.toClient c t ∧ r = .ok c ∧
      w' = { w with toClient := t }
    | w, .write bs, r, w' => r = .ok bs.length ∧ w' = { w with toServer := w.toServer ++ bs }
    | w, .flush, r, w' => r = .ok () ∧ w' = w
    | _, .ext _, _, _ => False

/-- How the scripts and the pipes go together when `all` is to be asked: a reply is on its way,
of which `u` is still to be written, or else a request is, or the service is asked `l`. -/
inductive InPace (answer : σ → X → Y × σ) (stays : Bool) (all : List (X × Y)) :
    List (Event U V) → List (Event X Y) → Net X Y σ → Prop
  | replying {t u : Bytes} {st : σ} {log : List (X × Y)} {rs : List (Round X Y)} :
      log ++ questions rs = all → Gives answer st (questions rs) →
      InPace answer stays all (awaiting (t ++ u) (clientEvents rs))
        (sending u (serverEvents stays rs)) ⟨[], t, st, log⟩
  | requesting {t u : Bytes} {st : σ} {log l : List (X × Y)} {reply : Bytes}
      {rs : List (Round X Y)} : reply ≠ [] → log ++ (l ++ questions rs) = all →
      Gives answer st (l ++ questions rs) →
      InPace answer stays all (sending u (.recv reply :: clientEvents rs))
        (awaiting (t ++ u) (serving l reply (serverEvents stays rs))) ⟨t, [], st, log⟩

variable {answer : σ → X → Y × σ} {stays : Bool} {all : List (X × Y)} {v₁ : List (Event U V)}
  {v₂ : List (Event X Y)} {w w' : Net X Y σ} {n : Nat} {bs c t : Bytes}

theorem inPace_client_read (h : InPace answer stays all v₁ v₂ w)
    (hchunk : Chunk n w.toClient c t) :
    ∃ v₁', (paced (ε := δ)).step v₁ (.read n) (.ok c) v₁' ∧
      InPace answer stays all v₁' v₂ { w with toClient := t } := by
  cases h with
  | @replying t₀ u st log rs hlog hgives =>
    obtain ⟨rfl, hc, hlen⟩ := hchunk
    have hne : c ++ t ++ u ≠ [] := by simp [hc]
    exact ⟨_, ⟨_, c, t ++ u, _, awaiting_ne_nil hne _, ⟨List.append_assoc _ _ _, hc, hlen⟩, rfl,
      rfl⟩, .replying hlog hgives⟩
  | requesting _ _ _ => exact absurd rfl hchunk.ne_nil

theorem inPace_client_write (h : InPace answer stays all v₁ v₂ w)
    (hpre : (paced (ε := δ)).pre v₁ (.write bs)) :
    ∃ v₁', (paced (ε := δ)).step v₁ (.write bs) (.ok bs.length) v₁' ∧
      InPace answer stays all v₁' v₂ { w with toServer := w.toServer ++ bs } := by
  obtain ⟨v₁', hv⟩ := hpre
  refine ⟨v₁', ⟨hv, rfl⟩, ?_⟩
  rcases emits_cases hv with ⟨rfl, rfl⟩ | ⟨hbs, t', L, rfl, rfl⟩
  · rw [List.append_nil]
    exact h
  generalize hL : Event.send (bs ++ t') :: L = v at h
  have hne : bs ++ t' ≠ [] := fun hu => hbs (List.append_eq_nil_iff.mp hu).1
  cases h with
  | @replying t u st log rs hlog hgives =>
    have hnil := nil_of_awaiting hL.symm fun _ he => by cases he
    obtain ⟨rfl, rfl⟩ := List.append_eq_nil_iff.mp hnil
    cases rs with
    | nil => cases hL
    | cons r rs =>
      rw [List.append_nil, awaiting_nil, clientEvents] at hL
      injection hL with hsend hL
      injection hsend with hrequest
      subst hL
      have hnext : InPace answer stays all
          (sending t' (.recv r.reply :: (clientEvents rs : List (Event U V))))
          (awaiting (bs ++ t') (serving r.asked r.reply (serverEvents stays rs)))
          ⟨bs, [], st, log⟩ := .requesting r.reply_ne_nil hlog hgives
      rw [awaiting_ne_nil hne, hrequest] at hnext
      exact hnext
  | requesting hreply hlog hgives =>
    obtain ⟨rfl, rfl⟩ := of_sending_eq hL.symm fun _ _ he => by cases he
    rw [← List.append_assoc]
    exact .requesting hreply hlog hgives

theorem inPace_server_read (h : InPace answer stays all v₁ v₂ w)
    (hchunk : Chunk n w.toServer c t) :
    ∃ v₂', (paced (ε := ε)).step v₂ (.read n) (.ok c) v₂' ∧
      InPace answer stays all v₁ v₂' { w with toServer := t } := by
  cases h with
  | replying _ _ => exact absurd rfl hchunk.ne_nil
  | @requesting t₀ u st log l reply rs hreply hlog hgives =>
    obtain ⟨rfl, hc, hlen⟩ := hchunk
    have hne : c ++ t ++ u ≠ [] := by simp [hc]
    exact ⟨_, ⟨_, c, t ++ u, _, awaiting_ne_nil hne _, ⟨List.append_assoc _ _ _, hc, hlen⟩, rfl,
      rfl⟩, .requesting hreply hlog hgives⟩

/-- The scripts of a server between two rounds begin with a read, if they go on. -/
theorem serverEvents_cases (stays : Bool) (rs : List (Round X Y)) :
    serverEvents stays rs = [] ∨ serverEvents stays rs = [.listen] ∨
      ∃ bs L, serverEvents stays rs = .recv bs :: L := by
  cases rs with
  | nil => cases stays <;> simp [serverEvents, afterwards]
  | cons r rs => exact .inr (.inr ⟨_, _, rfl⟩)

theorem inPace_server_ask {x : X} (h : InPace answer stays all v₁ v₂ w)
    (hpre : (paced (ε := ε)).pre v₂ (.ext x)) :
    ∃ v₂', (paced (ε := ε)).step v₂ (.ext x) (answer w.service x).1 v₂' ∧
      InPace answer stays all v₁ v₂' { w with
        service := (answer w.service x).2, log := w.log ++ [(x, (answer w.service x).1)] } := by
  obtain ⟨y, L, hL⟩ := hpre
  cases h with
  | @replying t u st log rs hlog hgives =>
    have hnil := nil_of_sending hL fun _ he => by cases he
    subst hnil
    rw [sending_nil] at hL
    rcases serverEvents_cases stays rs with he | he | ⟨_, _, he⟩ <;> rw [he] at hL <;> cases hL
  | @requesting t u st log l reply rs hreply hlog hgives =>
    have hnil := nil_of_awaiting hL fun _ he => by cases he
    obtain ⟨rfl, rfl⟩ := List.append_eq_nil_iff.mp hnil
    cases l with
    | nil => cases hL
    | cons a l =>
      cases hL
      obtain ⟨ha, hgives⟩ := hgives
      have hlog' : log ++ [(a.1, (answer st a.1).1)] ++ (l ++ questions rs) = all := by
        rw [ha, List.append_assoc]
        exact hlog
      refine ⟨serving l reply (serverEvents stays rs), ?_,
        .requesting (t := []) (u := []) hreply hlog' hgives⟩
      rw [ha]
      rfl

theorem inPace_server_write (h : InPace answer stays all v₁ v₂ w)
    (hpre : (paced (ε := ε)).pre v₂ (.write bs)) :
    ∃ v₂', (paced (ε := ε)).step v₂ (.write bs) (.ok bs.length) v₂' ∧
      InPace answer stays all v₁ v₂' { w with toClient := w.toClient ++ bs } := by
  obtain ⟨v₂', hv⟩ := hpre
  refine ⟨v₂', ⟨hv, rfl⟩, ?_⟩
  rcases emits_cases hv with ⟨rfl, rfl⟩ | ⟨hbs, t', L, rfl, rfl⟩
  · rw [List.append_nil]
    exact h
  generalize hL : Event.send (bs ++ t') :: L = v at h
  have hne : bs ++ t' ≠ [] := fun hu => hbs (List.append_eq_nil_iff.mp hu).1
  cases h with
  | @replying t u st log rs hlog hgives =>
    obtain ⟨rfl, rfl⟩ := of_sending_eq hL.symm fun _ _ he => by
      rcases serverEvents_cases stays rs with he' | he' | ⟨_, _, he'⟩ <;> rw [he'] at he <;>
        cases he
    rw [← List.append_assoc]
    exact .replying hlog hgives
  | @requesting t u st log l reply rs hreply hlog hgives =>
    have hnil := nil_of_awaiting hL.symm fun _ he => by cases he
    obtain ⟨rfl, rfl⟩ := List.append_eq_nil_iff.mp hnil
    cases l with
    | cons a l => cases hL
    | nil =>
      rw [List.append_nil, awaiting_nil, serving, asks, List.map_nil, List.nil_append] at hL
      injection hL with hsend hL
      injection hsend with hreply'
      subst hL
      have hnext : InPace answer stays all
          (awaiting (bs ++ t') (clientEvents rs : List (Event U V)))
          (sending t' (serverEvents stays rs)) ⟨[], bs, st, log⟩ := .replying hlog hgives
      rw [awaiting_ne_nil hne, hreply'] at hnext
      exact hnext

/-- **The pipes answer each party as its script does.** -/
theorem sides (answer : σ → X → Y × σ) (stays : Bool) (all : List (X × Y)) :
    Sides (clientSide (U := U) (V := V) (δ := δ)) (serverEnd (ε := ε) answer) paced paced
      (InPace answer stays all) where
  left := by
    intro v₁ v₂ w op r w' h hpre hs
    cases op with
    | read n =>
      obtain ⟨c, t, hchunk, rfl, rfl⟩ := hs
      exact inPace_client_read h hchunk
    | write bs =>
      obtain ⟨rfl, rfl⟩ := hs
      exact inPace_client_write h hpre
    | flush =>
      obtain ⟨rfl, rfl⟩ := hs
      exact ⟨v₁, ⟨rfl, rfl⟩, h⟩
    | ext x => exact hs.elim
  right := by
    intro v₁ v₂ w op r w' h hpre hs
    cases op with
    | read n =>
      obtain ⟨c, t, hchunk, rfl, rfl⟩ := hs
      exact inPace_server_read h hchunk
    | write bs =>
      obtain ⟨rfl, rfl⟩ := hs
      exact inPace_server_write h hpre
    | flush =>
      obtain ⟨rfl, rfl⟩ := hs
      exact ⟨v₂, ⟨rfl, rfl⟩, h⟩
    | ext x =>
      obtain ⟨rfl, rfl⟩ := hs
      exact inPace_server_ask h hpre

/-! ## Progress -/

/-- What a script has to say about the next read. -/
def Reads (v : List (Event X Y)) : Prop := (∃ bs L, v = .recv bs :: L) ∨ v = [.listen]

theorem clientSide_answers {v : List (Event U V)} (hread : Reads v → w.toClient ≠ [])
    (hask : ∀ x y L, v ≠ .ask x y :: L) :
    AnswersView (clientSide (U := U) (V := V) (δ := δ)) paced w v := by
  rintro (n | bs | _ | x) hpre
  · obtain ⟨c, rest, hchunk⟩ := exists_chunk hpre.1 (hread hpre.2)
    exact ⟨.ok c, _, c, rest, hchunk, rfl, rfl⟩
  · exact ⟨_, _, rfl, rfl⟩
  · exact ⟨_, _, rfl, rfl⟩
  · obtain ⟨y, L, hL⟩ := hpre
    exact absurd hL (hask x y L)

theorem serverEnd_answers {v : List (Event X Y)} (hread : Reads v → w.toServer ≠ []) :
    AnswersView (serverEnd (ε := ε) answer) paced w v := by
  rintro (n | bs | _ | x) hpre
  · obtain ⟨c, rest, hchunk⟩ := exists_chunk hpre.1 (hread hpre.2)
    exact ⟨.ok c, _, c, rest, hchunk, rfl, rfl⟩
  · exact ⟨_, _, rfl, rfl⟩
  · exact ⟨_, _, rfl, rfl⟩
  · exact ⟨_, _, rfl, rfl⟩

/-- One of the two parties can make every call that its script permits. -/
theorem inPace_answers (h : InPace answer stays all v₁ v₂ w) :
    AnswersView (clientSide (U := U) (V := V) (δ := δ)) paced w v₁ ∨
      AnswersView (serverEnd (ε := ε) answer) paced w v₂ := by
  cases h with
  | @replying t u st log rs hlog hgives =>
    by_cases ht : t = []
    · subst ht
      by_cases hu : u = []
      · subst hu
        left
        apply clientSide_answers
        · rintro (⟨_, _, hL⟩ | hL) <;> cases rs <;> cases hL
        · intro x y L hL
          cases rs <;> cases hL
      · right
        apply serverEnd_answers
        rw [sending_ne_nil hu]
        rintro (⟨_, _, hL⟩ | hL) <;> cases hL
    · left
      have hne : t ++ u ≠ [] := by simp [ht]
      apply clientSide_answers (fun _ => ht)
      rw [awaiting_ne_nil hne]
      rintro x y L ⟨⟩
  | @requesting t u st log l reply rs hreply hlog hgives =>
    by_cases hu : u = []
    · subst hu
      right
      apply serverEnd_answers
      rintro hreads rfl
      rcases hreads with ⟨_, _, hL⟩ | hL <;> cases l <;> cases hL
    · left
      rw [sending_ne_nil hu]
      apply clientSide_answers
      · rintro (⟨_, _, hL⟩ | hL) <;> cases hL
      · rintro x y L ⟨⟩

/-- One of the two that has nothing unread in its pipe can. -/
theorem inPace_turn (h : InPace answer stays all v₁ v₂ w) :
    w.toServer = [] ∧ AnswersView (clientSide (U := U) (V := V) (δ := δ)) paced w v₁ ∨
      w.toClient = [] ∧ AnswersView (serverEnd (ε := ε) answer) paced w v₂ := by
  cases h with
  | @replying t u st log rs hlog hgives =>
    by_cases ht : t = []
    · rcases inPace_answers (InPace.replying (U := U) (V := V) hlog hgives) with hanswers | hanswers
      · exact .inl ⟨rfl, hanswers⟩
      · exact .inr ⟨ht, hanswers⟩
    · left
      have hne : t ++ u ≠ [] := by simp [ht]
      refine ⟨rfl, clientSide_answers (fun _ => ht) ?_⟩
      rw [awaiting_ne_nil hne]
      rintro x y L ⟨⟩
  | @requesting t u st log l reply rs hreply hlog hgives =>
    by_cases ht : t = []
    · rcases inPace_answers (InPace.requesting (U := U) (V := V) hreply hlog hgives) with
        hanswers | hanswers
      · exact .inl ⟨ht, hanswers⟩
      · exact .inr ⟨rfl, hanswers⟩
    · exact .inr ⟨rfl, serverEnd_answers fun _ => ht⟩

theorem inPace_prefix (h : InPace answer stays all v₁ v₂ w) : w.log <+: all := by
  cases h with
  | replying hlog _ => exact ⟨_, hlog⟩
  | requesting _ hlog _ => exact ⟨_, hlog⟩

/-- A client at the end of its script has had all answers, and the server is done. -/
theorem inPace_done {v₂ : List (Event X Y)}
    (h : InPace answer stays all ([] : List (Event U V)) v₂ w) :
    w.log = all ∧ v₂ = afterwards stays := by
  generalize hv : ([] : List (Event U V)) = v₁ at h
  cases h with
  | @replying t u _ _ rs hlog _ =>
    obtain ⟨htu, hrs⟩ := awaiting_eq_nil hv.symm
    obtain ⟨rfl, rfl⟩ := List.append_eq_nil_iff.mp htu
    cases rs with
    | nil => exact ⟨by simpa [questions] using hlog, rfl⟩
    | cons r rs => cases hrs
  | @requesting _ u _ _ _ _ _ _ _ _ =>
    by_cases hu : u = []
    · rw [hu] at hv
      cases hv
    · rw [sending_ne_nil hu] at hv
      cases hv

/-- Then nothing is left in the pipes. -/
theorem inPace_done_empty {v₂ : List (Event X Y)}
    (h : InPace answer stays all ([] : List (Event U V)) v₂ w) :
    w.toServer = [] ∧ w.toClient = [] := by
  generalize hv : ([] : List (Event U V)) = v₁ at h
  cases h with
  | replying _ _ => exact ⟨rfl, (List.append_eq_nil_iff.mp (awaiting_eq_nil hv.symm).1).1⟩
  | @requesting _ u _ _ _ _ _ _ _ _ =>
    by_cases hu : u = []
    · rw [hu] at hv
      cases hv
    · rw [sending_ne_nil hu] at hv
      cases hv

/-- A server at the end of its script has written every reply. -/
theorem inPace_server_done (h : InPace answer stays all v₁ ([] : List (Event X Y)) w) :
    AnswersView (clientSide (U := U) (V := V) (δ := δ)) paced w v₁ := by
  generalize hv : ([] : List (Event X Y)) = v₂ at h
  cases h with
  | @replying t u _ _ rs _ _ =>
    obtain rfl : u = [] := by
      by_cases hu : u = []
      · exact hu
      · rw [sending_ne_nil hu] at hv
        cases hv
    apply clientSide_answers
    · rintro (⟨_, _, hL⟩ | hL) rfl <;> cases rs <;> cases hL
    · intro x y L hL
      have hnil := nil_of_awaiting hL fun _ he => by cases he
      rw [hnil] at hL
      cases rs <;> cases hL
  | @requesting t u _ _ l _ _ _ _ _ =>
    obtain ⟨-, hl⟩ := awaiting_eq_nil hv.symm
    cases l <;> cases hl

/-- And it has read every request. -/
theorem inPace_server_done_empty (h : InPace answer stays all v₁ ([] : List (Event X Y)) w) :
    w.toServer = [] := by
  generalize hv : ([] : List (Event X Y)) = v₂ at h
  cases h with
  | replying _ _ => rfl
  | @requesting t u _ _ l _ _ _ _ _ =>
    obtain ⟨-, hl⟩ := awaiting_eq_nil hv.symm
    cases l <;> cases hl

/-! ## Whole dialogues -/

/-- The client `p` and the server `q`, each with its own operations, and nothing in the pipes. -/
def parties (p : Prog (StreamOp.Res (X := U) δ V) α) (q : Prog (StreamOp.Res (X := X) ε Y) β)
    (st : σ) : Pair (Sum.elim (StreamOp.Res (X := U) δ V) (StreamOp.Res (X := X) ε Y)) α β
      (Net X Y σ) :=
  ⟨p.inl, q.inr, ⟨[], [], st, []⟩⟩

/-- The states that some interleaving of the two parties reaches, when the service computes its
answers by `answer`. -/
abbrev Converse (answer : σ → X → Y × σ) (p : Prog (StreamOp.Res (X := U) δ V) α)
    (q : Prog (StreamOp.Res (X := X) ε Y) β) (st : σ) :
    Pair (Sum.elim (StreamOp.Res (X := U) δ V) (StreamOp.Res (X := X) ε Y)) α β (Net X Y σ) →
      Prop :=
  Pair.Reach clientSide.inl (serverEnd answer).inr (parties p q st)

/-- In every interleaving the service is asked `all`, once each and in order, the client `p`
returns with `A`, and the server `q`, unless it stays, with `B`; neither panics. -/
structure Converses (answer : σ → X → Y × σ) (p : Prog (StreamOp.Res (X := U) δ V) α)
    (q : Prog (StreamOp.Res (X := X) ε Y) β) (st : σ) (all : List (X × Y)) (stays : Bool)
    (A : α → Prop) (B : β → Prop) : Prop where
  no_panic : ∀ {c}, Converse answer p q st c → c.left ≠ .panic ∧ c.right ≠ .panic
  in_order : ∀ {c}, Converse answer p q st c → c.world.log <+: all
  returned : ∀ {c a}, Converse answer p q st c → c.left = .ret a → A a ∧ c.world.log = all
  ended : ∀ {c b}, Converse answer p q st c → c.right = .ret b → B b
  terminates : Pair.Terminates clientSide.inl (serverEnd answer).inr (parties p q st)
  at_rest : ∀ {c}, Converse answer p q st c →
    Pair.AtRest clientSide.inl (serverEnd answer).inr c →
      (∃ a, c.left = .ret a) ∧ (stays = false → ∃ b, c.right = .ret b)

section

variable {p : Prog (StreamOp.Res (X := U) δ V) α} {q : Prog (StreamOp.Res (X := X) ε Y) β}
  {st : σ} {A : α → Prop} {B : β → Prop}

/-- The client rests when it has returned, and then the server is done. -/
theorem at_rest_converse {c : Pair (Sum.elim (StreamOp.Res (X := U) δ V)
      (StreamOp.Res (X := X) ε Y)) α β (Net X Y σ)}
    (hcourse : OnCourse paced.inl paced.inr (InPace answer stays all)
      (returns fun a L => A a ∧ L = []) (returns fun b L => B b ∧ L = []) c)
    (hrest : Pair.AtRest clientSide.inl (serverEnd answer).inr c) :
    (∃ a, c.left = .ret a) ∧ (stays = false → ∃ b, c.right = .ret b) := by
  obtain ⟨v₁, v₂, hp, hq, hc⟩ := hcourse
  have hleft : AnswersView (clientSide (δ := δ)) paced c.world v₁ →
      (∃ a, c.left = .ret a) ∧ v₁ = [] := by
    intro hanswers
    obtain ⟨o, he, ho⟩ := always_at_rest hp (answersView_inl hanswers) fun _ _ hs =>
      hrest _ (.left hs)
    cases o with
    | ret a => exact ⟨⟨a, he⟩, ho.2⟩
    | panic => exact ho.elim
  have hright : AnswersView (serverEnd (ε := ε) answer) paced c.world v₂ →
      (∃ b, c.right = .ret b) ∧ v₂ = [] := by
    intro hanswers
    obtain ⟨o, he, ho⟩ := always_at_rest hq (answersView_inr hanswers) fun _ _ hs =>
      hrest _ (.right hs)
    cases o with
    | ret b => exact ⟨⟨b, he⟩, ho.2⟩
    | panic => exact ho.elim
  rcases inPace_answers (δ := δ) (ε := ε) hc with hanswers | hanswers
  · obtain ⟨hdone, rfl⟩ := hleft hanswers
    refine ⟨hdone, ?_⟩
    rintro rfl
    obtain ⟨-, rfl⟩ := inPace_done hc
    apply (hright (serverEnd_answers _)).1
    rintro (⟨_, _, hL⟩ | hL) <;> cases hL
  · obtain ⟨hdone, rfl⟩ := hright hanswers
    exact ⟨(hleft (inPace_server_done hc)).1, fun _ => hdone⟩

/-- The client returns. -/
theorem Converses.exits (h : Converses answer p q st all stays A B) : ∃ a, A a := by
  obtain ⟨c, hr, hrest⟩ := h.terminates.exists_rest
  obtain ⟨⟨a, ha⟩, -⟩ := h.at_rest hr hrest
  exact ⟨a, (h.returned hr ha).1⟩

/-- **Dialogue.** Parties that follow the scripts of the same rounds succeed together. -/
theorem converse {rs : List (Round X Y)} (hgives : Gives answer st (questions rs))
    (hp : Always paced (returns fun a L => A a ∧ L = []) p (clientEvents rs))
    (hq : Always paced (returns fun b L => B b ∧ L = []) q (serverEvents stays rs)) :
    Converses answer p q st (questions rs) stays A B := by
  have hC := (sides (U := U) (V := V) (δ := δ) (ε := ε) answer stays (questions rs)).coupling
  have hstart : InPace answer stays (questions rs) (clientEvents (U := U) (V := V) rs)
      (serverEvents stays rs) ⟨[], [], st, []⟩ :=
    .replying (t := []) (u := []) (List.nil_append _) hgives
  have hcourse : OnCourse paced.inl paced.inr (InPace answer stays (questions rs))
      (returns fun a L => A a ∧ L = []) (returns fun b L => B b ∧ L = []) (parties p q st) :=
    ⟨_, _, always_inl hp, always_inr hq, hstart⟩
  constructor
  · intro c hr
    obtain ⟨v₁, v₂, hp', hq', -⟩ := coupled_reach hC hcourse hr
    constructor
    · intro he
      rw [he] at hp'
      exact always_outcome (o := .panic) hp'
    · intro he
      rw [he] at hq'
      exact always_outcome (o := .panic) hq'
  · intro c hr
    obtain ⟨v₁, v₂, -, -, hc⟩ := coupled_reach hC hcourse hr
    exact inPace_prefix hc
  · intro c a hr he
    obtain ⟨v₁, v₂, hp', -, hc⟩ := coupled_reach hC hcourse hr
    rw [he] at hp'
    obtain ⟨ha, rfl⟩ := always_outcome (o := .ret a) hp'
    exact ⟨ha, (inPace_done hc).1⟩
  · intro c b hr he
    obtain ⟨v₁, v₂, -, hq', -⟩ := coupled_reach hC hcourse hr
    rw [he] at hq'
    exact (always_outcome (o := .ret b) hq').1
  · exact coupled_terminates hC (always_inl hp) (always_inr hq) hstart
  · intro c hr hrest
    exact at_rest_converse (coupled_reach hC hcourse hr) hrest

end

/-! ## One question for each request -/

namespace Protocol

variable (P : Protocol X Y σ)

/-- The rounds of a protocol: each request is asked. -/
def rounds : σ → List X → List (Round X Y)
  | _, [] => []
  | s, x :: xs => ⟨P.request x, [(x, (P.answer s x).1)], P.reply x (P.answer s x).1,
      P.request_ne_nil x, P.reply_ne_nil _ _⟩ :: rounds (P.answer s x).2 xs

theorem questions_rounds (s : σ) (xs : List X) : questions (P.rounds s xs) = P.answers s xs := by
  induction xs generalizing s with
  | nil => rfl
  | cons x xs ih =>
    rw [rounds, answers, ← ih]
    rfl

theorem gives_answers (s : σ) (xs : List X) : Gives P.answer s (P.answers s xs) := by
  induction xs generalizing s with
  | nil => exact trivial
  | cons x xs ih => exact ⟨rfl, ih _⟩

theorem clientEvents_rounds (s : σ) (xs : List X) :
    clientEvents (P.rounds s xs) = P.clientScript s xs := by
  induction xs generalizing s with
  | nil => rfl
  | cons x xs ih => rw [rounds, clientEvents, clientScript, ih]

theorem serverEvents_rounds (s : σ) (xs : List X) :
    serverEvents true (P.rounds s xs) = P.serverScript s xs := by
  induction xs generalizing s with
  | nil => rfl
  | cons x xs ih =>
    rw [rounds, serverEvents, serverScript, ih]
    rfl

/-- In every interleaving the client `p` has the questions `xs` answered, and the server stays. -/
abbrev Converses (p : Prog (StreamOp.Res (X := U) δ V) α) (q : Prog (StreamOp.Res (X := X) ε Y) β)
    (st : σ) (xs : List X) (A : α → Prop) : Prop :=
  Interaction.Converses P.answer p q st (P.answers st xs) true A fun _ => False

variable {P}

theorem converse {p : Prog (StreamOp.Res (X := U) δ V) α} {q : Prog (StreamOp.Res (X := X) ε Y) β}
    {st : σ} {xs : List X} {A : α → Prop}
    (hp : Always paced (returns fun a L => A a ∧ L = []) p (clientEvents (P.rounds st xs)))
    (hq : Always paced (fun _ _ => False) q (P.serverScript st xs)) : P.Converses p q st xs A := by
  have hall := P.questions_rounds st xs
  have hgives : Gives P.answer st (questions (P.rounds st xs)) := hall ▸ P.gives_answers st xs
  rw [← P.serverEvents_rounds] at hq
  have h := Interaction.converse (B := fun _ => False) hgives hp (hq.mono fun _ _ => False.elim)
  rwa [hall] at h

end Protocol

end

end Interaction
