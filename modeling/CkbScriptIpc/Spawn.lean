import CkbScriptIpc.Channel

/-!
# Spawning a server

`spawn_server` in Rust and in C, `run_server`, and a kernel that creates pipes and
children. The kernel finds the descriptors that a child inherits in the memory of its
parent, up to the first zero word, and the Rust array does not end with one.

* `readFds_append`: a list that is not terminated goes on in the memory behind it;
* `inherits_ends_iff`: a child gets exactly its two ends when a zero word happens to
  lie behind the Rust array, and always from C.
-/

namespace CkbScriptIpc

open Interaction

/-- The memory from a pointer on, in words, as far as it can be read. -/
abbrev Words := List UInt64

/-- The words up to the first zero. Without one the read runs out of the memory. -/
def readFds : Words → Option (List UInt64)
  | [] => none
  | fd :: words => if fd = 0 then some [] else (readFds words).map (fd :: ·)

/-! ## The system calls -/

/-- The calls that set a child up. The descriptors it inherits are given by a pointer. -/
inductive Syscall where
  | pipe
  | spawn (index source place bounds : UInt64) (argv : List Bytes) (inheritedFds : Words)

/-- A pipe is its two ends, for reading and for writing; a child is its process id. -/
def Syscall.Res (ε : Type) : Syscall → Type
  | .pipe => Except ε (UInt64 × UInt64)
  | .spawn _ _ _ _ _ _ => Except ε UInt64

/-- The pipes that were created, and what each child inherited. -/
structure Kernel where
  pipes : List (UInt64 × UInt64)
  children : List (List UInt64)

variable {ε ε' α : Type}

/-- Pipes and children are created on demand, with descriptors that are not zero; only
memory that cannot be read is an error. -/
def kernel : Env (Syscall.Res ε) Kernel where
  pre _ _ := True
  step
    | w, .pipe, r, w' => ∃ rd wr, rd ≠ 0 ∧ wr ≠ 0 ∧ r = .ok (rd, wr) ∧
      w' = { w with pipes := w.pipes ++ [(rd, wr)] }
    | w, .spawn _ _ _ _ _ words, r, w' =>
      (∃ fds pid, readFds words = some fds ∧ r = .ok pid ∧
        w' = { w with children := w.children ++ [fds] }) ∨
      readFds words = none ∧ (∃ e, r = .error e) ∧ w' = w

theorem kernel_answers [Inhabited ε] : (kernel : Env (Syscall.Res ε) Kernel).Answers := by
  rintro w (_ | ⟨index, source, place, bounds, argv, words⟩) -
  · exact ⟨.ok (2, 3), _, 2, 3, by decide, by decide, rfl, rfl⟩
  · cases h : readFds words with
    | none => exact ⟨.error default, w, .inr ⟨h, ⟨_, rfl⟩, rfl⟩⟩
    | some fds => exact ⟨.ok 0, _, .inl ⟨fds, 0, h, rfl, rfl⟩⟩

/-! ## Parent and child -/

/-- The two pipes and the child, which is given the words `array` and what lies `behind`
them: the descriptors of the parent. -/
def spawnWith (array : UInt64 → UInt64 → Words) (behind : Words) (index source bounds : UInt64)
    (argv : List Bytes) : Method (Syscall.Res ε) ε Unit (UInt64 × UInt64) := do
  let (r1, w1) ← fun s => .call .pipe fun r => .ret (r, s)
  let (r2, w2) ← fun s => .call .pipe fun r => .ret (r, s)
  let _ ← fun s => .call (.spawn index source 0 bounds argv (array r2 w1 ++ behind))
    fun (r : Except ε UInt64) => .ret (r, s)
  return (r1, w2)

/-- The `Pipe` of a script, whose descriptor says which end it is. -/
structure Pipe where
  fd : UInt64
  deriving DecidableEq, Repr

/-- `spawn_server`. Its array `&[r2, w1]` lies somewhere in memory, before `behind`. -/
def spawnServer (behind : Words) (index source : UInt64) (argv : List Bytes) :
    Method (Syscall.Res SysError) IpcError Unit (Pipe × Pipe) := do
  let (r1, w2) ← (spawnWith (fun r2 w1 => [r2, w1]) behind index source 0 argv).mapErr .ckbSysError
  return (⟨r1⟩, ⟨w2⟩)

/-- `csi_spawn_server`, up to the buffers of the client. -/
def csiSpawnServer (behind : Words) (index source offset length : UInt64) (argv : List Bytes) :
    Method (Syscall.Res SysError) SysError Unit (UInt64 × UInt64) :=
  spawnWith (fun r2 w1 => [r2, w1, 0]) behind index source ((offset <<< 32) ||| length) argv

/-- `run_server`, up to `execute`: the channel of the server. The assertion fails unless
two descriptors are inherited. -/
def runServer (capacity : Nat) (fds : List UInt64) : Option (Channel Pipe Pipe) :=
  match fds with
  | [reader, writer] => some (Channel.new capacity ⟨reader⟩ ⟨writer⟩)
  | _ => none

/-- The parent, which keeps the descriptors `ends`, holds one end of each of two new pipes,
and its child has inherited exactly the other two and serves on them. -/
def InheritsEnds (ends : α → UInt64 × UInt64) (x : Method (Syscall.Res ε) ε' Unit α) : Prop :=
  ∀ w, Always kernel (succeeds fun a _ w' => ∃ r1 w1 r2 w2, ends a = (r1, w2) ∧
    w'.pipes = w.pipes ++ [(r1, w1), (r2, w2)] ∧ w'.children = w.children ++ [[r2, w1]] ∧
    ∀ capacity, runServer capacity [r2, w1] = some (Channel.new capacity ⟨r2⟩ ⟨w1⟩)) (x ()) w

/-! ## What is read behind an array -/

theorem readFds_append {fds : List UInt64} (h : ∀ fd ∈ fds, fd ≠ 0) (words : Words) :
    readFds (fds ++ words) = (readFds words).map (fds ++ ·) := by
  induction fds with
  | nil => simp
  | cons fd fds ih =>
    have htail := ih fun d hd => h d (by simp [hd])
    rw [List.cons_append, readFds, if_neg (h fd (by simp)), htail, Option.map_map]
    rfl

theorem readFds_eq_nil {words : Words} : readFds words = some [] ↔ words.head? = some 0 := by
  cases words with
  | nil => simp [readFds]
  | cons fd words =>
    by_cases h : fd = 0
    · simp [readFds, h]
    · simp [readFds, h]

example : readFds [4, 3, 7, 0, 9] = some [4, 3, 7] := by decide

/-- The child is given its ends and what can be read from `words`, if that can be read. -/
def GivesWith (ends : α → UInt64 × UInt64) (words : Words) (w : Kernel) :
    Outcome (Except ε α × Unit) → Kernel → Prop
  | .ret (.ok a, _), w' => ∃ r1 w1 r2 w2 fds, readFds words = some fds ∧ ends a = (r1, w2) ∧
    w'.pipes = w.pipes ++ [(r1, w1), (r2, w2)] ∧ w'.children = w.children ++ [r2 :: w1 :: fds]
  | .ret (.error _, _), _ => readFds words = none
  | .panic, _ => False

/-- Such a parent gives its child exactly the two ends if the words begin with a zero. -/
theorem inherits_iff_of_gives [Inhabited ε] {ends : α → UInt64 × UInt64} {words : Words}
    {x : Method (Syscall.Res ε) ε' Unit α}
    (h : ∀ w, Always kernel (GivesWith ends words w) (x ()) w) :
    InheritsEnds ends x ↔ words.head? = some 0 := by
  rw [← readFds_eq_nil]
  constructor
  · intro hx
    obtain ⟨o, w', -, hgives, hends⟩ := ((h ⟨[], []⟩).and (hx ⟨[], []⟩)).exists_ends kernel_answers
    rcases o with ⟨e | a, _⟩ | _
    · exact hends.elim
    · obtain ⟨r1, w1, r2, w2, fds, hfds, -, -, hchildren⟩ := hgives
      obtain ⟨_, _, _, _, -, -, hchildren', -⟩ := hends
      rw [hchildren'] at hchildren
      simp only [List.nil_append, List.cons.injEq, and_true] at hchildren
      obtain ⟨-, -, rfl⟩ := hchildren
      exact hfds
    · exact hends.elim
  · intro hnil w
    apply (h w).mono
    rintro (⟨e | a, _⟩ | _) w' hgives
    · rw [GivesWith, hnil] at hgives
      cases hgives
    · obtain ⟨r1, w1, r2, w2, fds, hfds, hends, hpipes, hchildren⟩ := hgives
      rw [hnil] at hfds
      cases hfds
      exact ⟨r1, w1, r2, w2, hends, hpipes, hchildren, fun _ => rfl⟩
    · exact hgives.elim

section

variable {behind : Words} {array : UInt64 → UInt64 → Words} {index source bounds : UInt64}
  {argv : List Bytes}

theorem spawnWith_gives (tail : Words) (harray : ∀ r2 w1, array r2 w1 = r2 :: w1 :: tail)
    (w : Kernel) :
    Always (kernel (ε := ε)) (GivesWith id (tail ++ behind) w)
      (spawnWith array behind index source bounds argv ()) w := by
  refine .call trivial ?_
  rintro _ _ ⟨r1, w1, -, hw1, rfl, rfl⟩
  refine .call trivial ?_
  rintro _ _ ⟨r2, w2, hr2, -, rfl, rfl⟩
  have hread : readFds (array r2 w1 ++ behind) =
      (readFds (tail ++ behind)).map ([r2, w1] ++ ·) := by
    rw [harray]
    exact readFds_append (show ∀ fd ∈ [r2, w1], fd ≠ 0 by simp [hr2, hw1]) _
  refine .call trivial ?_
  rintro _ _ (⟨_, pid, hfds, rfl, rfl⟩ | ⟨hfds, ⟨e, rfl⟩, rfl⟩)
  · rw [hread] at hfds
    obtain ⟨fds, hbehind, rfl⟩ := Option.map_eq_some_iff.mp hfds
    exact .ret ⟨r1, w1, r2, w2, fds, hbehind, rfl, by simp, rfl⟩
  · rw [hread] at hfds
    exact .ret (Option.map_eq_none_iff.mp hfds)

theorem spawnServer_gives (w : Kernel) :
    Always kernel (GivesWith (fun p : Pipe × Pipe => (p.1.fd, p.2.fd)) behind w)
      (spawnServer behind index source argv ()) w := by
  refine always_seq (always_map ((spawnWith_gives [] (fun _ _ => rfl) w).mono ?_))
  rintro (⟨e | ends, _⟩ | _) w' hgives
  · exact .ret hgives
  · exact .ret hgives
  · exact hgives.elim

end

instance : Inhabited SysError := ⟨.invalidFd⟩

/-- **A child gets exactly its two ends** if a zero word lies behind the Rust array; the array
of the C library ends with one. -/
theorem inherits_ends_iff (behind : Words) (index source offset length : UInt64)
    (argv : List Bytes) :
    (InheritsEnds (fun p => (p.1.fd, p.2.fd)) (spawnServer behind index source argv) ↔
      behind.head? = some 0) ∧
    InheritsEnds id (csiSpawnServer behind index source offset length argv) := by
  refine ⟨inherits_iff_of_gives spawnServer_gives, ?_⟩
  exact (inherits_iff_of_gives (spawnWith_gives [0] fun _ _ => rfl)).mpr rfl

/-- With the word 7 behind the array the child is not given its two ends only. -/
theorem inherits_neighbour :
    ¬ InheritsEnds (fun p => (p.1.fd, p.2.fd)) (spawnServer [7, 0] 0 3 []) := by
  intro h
  exact absurd ((inherits_iff_of_gives spawnServer_gives).mp h) (by decide)

end CkbScriptIpc
