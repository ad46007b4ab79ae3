import CkbScriptIpc.Csi.Context
import CkbScriptIpc.NativeRpc

/-!
# The READ syscall of the native host

`ReadSyscall::ecall`, which a script in the VM calls with a buffer address and a length of its
own choice. The VM is a parameter.

* `readInto_eq_ecall`: the part of it that a script sees is the `ecall` of the native sessions;
* `ecall_unharmed_iff`: when a READ leaves the host and the stream of its pipe unharmed.
-/

namespace CkbScriptIpc.Native

open Interaction
open Allocator (Grants)

variable {X Y M : Type}

/-- The registers that the syscalls use. -/
inductive Reg where
  | a0
  | a1
  | a2
  | a7
  deriving DecidableEq, Repr

/-- What `ReadSyscall` uses of `ckb_vm::SupportMachine`. -/
class SupportMachine (M : Type) where
  /-- The errors of the machine itself. -/
  Trap : Type
  register : Reg → M → UInt64
  setRegister : Reg → UInt64 → M → M
  load64 : UInt64 → M → Except Trap UInt64 × M
  storeBytes : UInt64 → Bytes → M → Except Trap Unit × M
  store64 : UInt64 → UInt64 → M → Except Trap Unit × M
  addCyclesNoChecking : UInt64 → M → Except Trap Unit × M

open SupportMachine

/-- `ckb_vm::error::Error`: `IO` with its text, and the errors of the machine. -/
inductive VmError (F : Type) where
  | io (data : String)
  | fault (f : F)
  deriving DecidableEq, Repr

/-- The syscall number `READ`. -/
def readNumber : Int32 := 2606

/-- `SPAWN_YIELD_CYCLES_BASE`. -/
def spawnYieldCyclesBase : UInt64 := 800

namespace ReadSyscall

variable [SupportMachine M] {α : Type}

def onMachine (f : M → Except (Trap M) α × M) :
    Method (IoRes X Y) (VmError (Trap M)) (ReadSyscall × M) α :=
  fun s => .ret ((f s.2).1.mapError .fault, (s.1, (f s.2).2))

def onPipe (x : Method (IoRes X Y) ErrorKind Pipe α) :
    Method (IoRes X Y) (VmError (Trap M)) (ReadSyscall × M) α :=
  Method.zoom (·.1.pipe) (fun p s => (⟨p⟩, s.2)) (x.mapErr fun _ => .io "READ error")

/-- The part of `ecall` behind the pipe. -/
def deliver (bufferAddr lengthAddr : UInt64) (buf : Bytes) :
    Method (IoRes X Y) (VmError (Trap M)) (ReadSyscall × M) Bool := do
  onMachine (storeBytes bufferAddr buf)
  onMachine (store64 lengthAddr (UInt64.ofNat buf.length))
  onMachine (addCyclesNoChecking spawnYieldCyclesBase)
  Method.modify fun s => (s.1, setRegister .a0 0 s.2)
  return true

variable [Allocator]

/-- `vec![0; length]`, and the read into it. -/
def readInto (length : Nat) : Method (IoRes X Y) (VmError (Trap M)) (ReadSyscall × M) Bytes :=
  if Grants length then onPipe (Read.read length) else Method.panic

/-- `ReadSyscall::ecall` as a whole, with the machine. -/
def ecallVm : Method (IoRes X Y) (VmError (Trap M)) (ReadSyscall × M) Bool := do
  let s ← Method.get
  if (register .a7 s.2).toUInt32.toInt32 ≠ readNumber then return false
  else if register .a0 s.2 ≠ firstFdSlot then Method.throw (.io "can only read on pipe 2")
  else do
    let length ← onMachine (load64 (register .a2 s.2))
    let buf ← readInto length.toNat
    deliver (register .a1 s.2) (register .a2 s.2) buf

end ReadSyscall

/-! ## The pipe of the host -/

/-- The sender at the other end of the channel: the messages that are still to come, and
whether it is dropped after them. -/
structure Upstream where
  messages : List Bytes
  closed : Bool
  deriving DecidableEq, Repr

/-- `recv` takes the next message, or fails when the sender is gone. It waits for a sender that
has no more messages and is still there. -/
def feeding : Env (IoRes X Y) Upstream where
  pre
    | _, .read _ => True
    | _, _ => False
  step
    | w, .read _, r, w' =>
      (∃ data, w.messages = data :: w'.messages ∧ w'.closed = w.closed ∧ r = .ok data) ∨
        w.messages = [] ∧ w.closed ∧ r = .error .other ∧ w' = w
    | _, _, _, _ => False

/-- The bytes of the pipe's stream that have not been handed out. -/
def stream (p : Pipe) (w : Upstream) : Bytes := p.buf ++ w.messages.flatten

/-- What a read of at most `n` bytes gets from the pipe, unless it waits. -/
def nextRead (rest : Bytes) (w : Upstream) (n : Nat) : Option Bytes :=
  if rest ≠ [] then some (rest.take n)
  else match w.messages with
    | data :: _ => some (data.take n)
    | [] => if w.closed then some [] else none

section

variable {rest bs : Bytes} {w : Upstream} {n : Nat}

/-- A read removes from the stream what it hands out. -/
theorem read_next (rest : Bytes) (w : Upstream) (n : Nat) :
    Always (feeding (X := X) (Y := Y)) (succeeds fun bs p w' => nextRead rest w n = some bs ∧
      bs ++ stream p w' = stream (holding rest) w) (Read.read n (holding rest)) w := by
  by_cases hrest : rest = []
  · subst hrest
    rw [Pipe.read_waiting rfl rfl]
    refine .call trivial ?_
    rintro r w' (⟨data, hmessages, -, rfl⟩ | ⟨hmessages, hclosed, rfl, rfl⟩)
    · refine .ret ⟨by rw [nextRead, hmessages]; rfl, ?_⟩
      simp [stream, holding, hmessages, ← List.append_assoc]
    · refine .ret ⟨by rw [nextRead, hmessages]; simp [hclosed], rfl⟩
  · rw [Pipe.read_buffered hrest]
    refine .ret ⟨by rw [nextRead, if_pos hrest]; rfl, ?_⟩
    simp [stream, holding, ← List.append_assoc]

/-- What there is to be read is read in some run. -/
theorem read_next_ends (h : nextRead rest w n = some bs) :
    ∃ p w', Ends (feeding (X := X) (Y := Y)) (Read.read n (holding rest)) w
      (.ret (.ok bs, p)) w' := by
  by_cases hrest : rest = []
  · subst hrest
    rw [Pipe.read_waiting rfl rfl]
    obtain ⟨messages, closed⟩ := w
    cases messages with
    | nil =>
      cases closed with
      | false => cases h
      | true =>
        cases h
        exact ⟨_, _, .head (.call (.inr ⟨rfl, rfl, rfl, rfl⟩)) (.refl _ _)⟩
    | cons data messages =>
      cases h
      have hstep : (feeding (X := X) (Y := Y)).step ⟨data :: messages, closed⟩ (.read 0) (.ok data)
          ⟨messages, closed⟩ := .inl ⟨data, rfl, rfl, rfl⟩
      exact ⟨_, _, .head (.call hstep) (.refl _ _)⟩
  · rw [Pipe.read_buffered hrest]
    rw [nextRead, if_pos hrest] at h
    cases h
    exact ⟨_, w, .refl _ _⟩

end

/-! ## The syscall -/

section

variable [SupportMachine M] {m : M}

/-- The machine is at a READ on fd 2. -/
structure AtRead (m : M) : Prop where
  code : (register .a7 m).toUInt32.toInt32 = readNumber
  fd : register .a0 m = firstFdSlot

/-- The three steps behind the pipe succeed: the bytes and their number are stored, and the
cycles are added. -/
def Storable (m : M) (bufferAddr lengthAddr : UInt64) (bs : Bytes) : Prop :=
  ∃ m₁ m₂ m₃, storeBytes bufferAddr bs m = (.ok (), m₁) ∧
    store64 lengthAddr (UInt64.ofNat bs.length) m₁ = (.ok (), m₂) ∧
    addCyclesNoChecking spawnYieldCyclesBase m₂ = (.ok (), m₃)

section

variable [Allocator]

/-- The syscall does not panic, and where it returns an error the stream of the pipe is what it
was. -/
def Unharmed (m : M) (rest : Bytes) (w : Upstream) : Prop :=
  Always (feeding (X := Unit) (Y := Unit))
    (resolves (fun _ _ _ => True) fun _ s w' => stream s.1.pipe w' = stream (holding rest) w)
    (ReadSyscall.ecallVm (⟨holding rest⟩, m)) w

/-- The length cannot be loaded, or the allocator grants it, and then the bytes that are read, if
any, can be stored. -/
def ReadsSafely (m : M) (rest : Bytes) (w : Upstream) : Prop :=
  ∀ length m', load64 (register .a2 m) m = (.ok length, m') →
    Grants length.toNat ∧ ∀ bs, nextRead rest w length.toNat = some bs →
      bs = [] ∨ Storable m' (register .a1 m) (register .a2 m) bs

end

namespace ReadSyscall

variable {α β : Type} {p : ReadSyscall} {f : M → Except (Trap M) α × M} {m' : M}

theorem onMachine_ok {a : α} (h : f m = (.ok a, m'))
    (k : α → Method (IoRes X Y) (VmError (Trap M)) (ReadSyscall × M) β) :
    (onMachine f >>= k) (p, m) = k a (p, m') := by
  refine seq_ok ?_ k
  rw [onMachine, h]
  rfl

theorem onMachine_error {e : Trap M} (h : f m = (.error e, m'))
    (k : α → Method (IoRes X Y) (VmError (Trap M)) (ReadSyscall × M) β) :
    (onMachine f >>= k) (p, m) = .ret (.error (.fault e), (p, m')) := by
  show (onMachine f (p, m)).bind _ = _
  rw [onMachine, h]
  rfl

/-- Behind the pipe the syscall succeeds exactly when the machine accepts the bytes, and leaves
the pipe alone. -/
theorem deliver_outcome (p : ReadSyscall) (m : M) (bufferAddr lengthAddr : UInt64) (bs : Bytes) :
    (Storable m bufferAddr lengthAddr bs ∧ ∃ m',
      deliver (X := X) (Y := Y) bufferAddr lengthAddr bs (p, m) = .ret (.ok true, (p, m'))) ∨
    ¬ Storable m bufferAddr lengthAddr bs ∧ ∃ e m',
      deliver (X := X) (Y := Y) bufferAddr lengthAddr bs (p, m) = .ret (.error e, (p, m')) := by
  unfold deliver
  match h₁ : storeBytes bufferAddr bs m with
  | (.error e, m₁) =>
    refine .inr ⟨?_, _, _, onMachine_error h₁ _⟩
    rintro ⟨_, _, _, h, -⟩
    rw [h₁] at h
    cases h
  | (.ok (), m₁) =>
    rw [onMachine_ok h₁]
    match h₂ : store64 lengthAddr (UInt64.ofNat bs.length) m₁ with
    | (.error e, m₂) =>
      refine .inr ⟨?_, _, _, onMachine_error h₂ _⟩
      rintro ⟨_, _, _, h, h', -⟩
      rw [h₁] at h
      cases h
      rw [h₂] at h'
      cases h'
    | (.ok (), m₂) =>
      rw [onMachine_ok h₂]
      match h₃ : addCyclesNoChecking spawnYieldCyclesBase m₂ with
      | (.error e, m₃) =>
        refine .inr ⟨?_, _, _, onMachine_error h₃ _⟩
        rintro ⟨_, _, _, h, h', h''⟩
        rw [h₁] at h
        cases h
        rw [h₂] at h'
        cases h'
        rw [h₃] at h''
        cases h''
      | (.ok (), m₃) =>
        rw [onMachine_ok h₃]
        exact .inl ⟨⟨m₁, m₂, m₃, h₁, h₂, h₃⟩, _, rfl⟩

theorem onPipe_next (m : M) (rest : Bytes) (w : Upstream) (n : Nat) :
    Always (feeding (X := X) (Y := Y)) (succeeds fun bs s w' => nextRead rest w n = some bs ∧
      s.2 = m ∧ bs ++ stream s.1.pipe w' = stream (holding rest) w)
      (onPipe (Read.read n) (⟨holding rest⟩, m)) w := by
  refine (always_zoom_ok (t := ((⟨holding rest⟩, m) : ReadSyscall × M))
    (always_mapErr_ok (read_next rest w n))).mono (succeeds_mono ?_)
  rintro bs _ w' ⟨p, ⟨hnext, hstream⟩, rfl⟩
  exact ⟨hnext, rfl, hstream⟩

theorem onPipe_next_ends {rest bs : Bytes} {w : Upstream} {n : Nat}
    (h : nextRead rest w n = some bs) (m : M) :
    ∃ p w', Ends (feeding (X := X) (Y := Y)) (onPipe (Read.read n) (⟨holding rest⟩, m)) w
      (.ret (.ok bs, (⟨p⟩, m))) w' := by
  obtain ⟨p, w', hends⟩ := read_next_ends (X := X) (Y := Y) h
  exact ⟨p, w', reach_bind (reach_bind hends _) _⟩

variable [Allocator]

/-- A READ on fd 2 whose length is loaded. -/
theorem ecall_loaded (h : AtRead m) {length : UInt64}
    (hload : load64 (register .a2 m) m = (.ok length, m')) :
    ecallVm (X := X) (Y := Y) (p, m) = (do
        let buf ← readInto length.toNat
        deliver (register .a1 m) (register .a2 m) buf :
      Method (IoRes X Y) (VmError (Trap M)) (ReadSyscall × M) Bool) (p, m') := by
  simp only [ecallVm, get_seq, h.code, h.fd, ne_eq, not_true_eq_false, ↓reduceIte]
  exact onMachine_ok hload _

theorem ecall_unloaded (h : AtRead m) {e : Trap M}
    (hload : load64 (register .a2 m) m = (.error e, m')) :
    ecallVm (X := X) (Y := Y) (p, m) = .ret (.error (.fault e), (p, m')) := by
  simp only [ecallVm, get_seq, h.code, h.fd, ne_eq, not_true_eq_false, ↓reduceIte]
  exact onMachine_error hload _

/-- What a script sees of its reads is the `ReadSyscall.ecall` of the native sessions. -/
theorem readInto_eq_ecall (n : Nat) (s : ReadSyscall) (m : M) :
    readInto (X := X) (Y := Y) n (s, m) =
      (ecall firstFdSlot n s).map fun r => (r.1.mapError .io, (r.2, m)) := by
  unfold readInto ecall receive
  simp only [ne_eq, not_true_eq_false, ↓reduceIte]
  split
  · simp only [onPipe, Method.zoom, Method.mapErr, Prog.map, Prog.bind_assoc]
    congr 1
    funext r
    obtain ⟨e | a, p⟩ := r <;> rfl
  · rfl

end ReadSyscall

open ReadSyscall

variable [Allocator]

/-- A READ that does no harm is one that reads safely. -/
theorem Unharmed.readsSafely (h : AtRead m) {rest : Bytes} {w : Upstream}
    (hu : Unharmed m rest w) : ReadsSafely m rest w := by
  intro length m' hload
  rw [Unharmed, ecall_loaded h hload] at hu
  by_cases hgrants : Grants length.toNat
  · refine ⟨hgrants, fun bs hnext => ?_⟩
    obtain ⟨p, w', hends⟩ := onPipe_next_ends (X := Unit) (Y := Unit) hnext m'
    obtain ⟨-, -, hstream⟩ := (onPipe_next m' rest w length.toNat).ends hends
    rw [readInto, if_pos hgrants] at hu
    have hafter := always_reach hu (reach_bind hends _)
    rcases deliver_outcome (X := Unit) (Y := Unit) ⟨p⟩ m' (register .a1 m) (register .a2 m) bs with
      ⟨hstorable, -⟩ | ⟨-, e, m'', hdeliver⟩
    · exact .inr hstorable
    · left
      change Always _ _ (deliver _ _ bs (⟨p⟩, m')) w' at hafter
      rw [hdeliver] at hafter
      have hsame : stream p w' = stream (holding rest) w := always_outcome (o := .ret _) hafter
      rw [← hsame] at hstream
      simpa using hstream
  · rw [readInto, if_neg hgrants] at hu
    exact (always_outcome (o := .panic) hu).elim

theorem ReadsSafely.unharmed (h : AtRead m) {rest : Bytes} {w : Upstream}
    (hs : ReadsSafely m rest w) : Unharmed m rest w := by
  rw [Unharmed]
  match hload : load64 (register .a2 m) m with
  | (.error e, m') =>
    rw [ecall_unloaded h hload]
    exact .ret rfl
  | (.ok length, m') =>
    obtain ⟨hgrants, hnext⟩ := hs length m' hload
    rw [ecall_loaded h hload, readInto, if_pos hgrants]
    apply always_seq_ok (onPipe_next m' rest w length.toNat)
    rintro bs ⟨p, m₁⟩ w' ⟨hbs, hm, hstream⟩
    obtain rfl : m₁ = m' := hm
    rcases deliver_outcome (X := Unit) (Y := Unit) p m₁ (register .a1 m) (register .a2 m) bs with
      ⟨-, m'', hdeliver⟩ | ⟨hrefused, e, m'', hdeliver⟩
    · rw [hdeliver]
      exact .ret trivial
    · rw [hdeliver]
      rcases hnext bs hbs with rfl | hstorable
      · exact .ret hstream
      · exact absurd hstorable hrefused

end

/-- **A READ does no harm** to the host and to the stream of its pipe exactly when its length
cannot be loaded, or the allocator grants it and the bytes that come, if any, can be stored. -/
theorem ecall_unharmed_iff [Allocator] [SupportMachine M] {m : M} (h : AtRead m) (rest : Bytes)
    (w : Upstream) : Unharmed m rest w ↔ ReadsSafely m rest w :=
  ⟨Unharmed.readsSafely h, ReadsSafely.unharmed h⟩

/-! ## A machine with a flat memory -/

/-- A memory of `size` bytes, outside of which every access is an error. -/
structure FlatMachine where
  registers : Reg → UInt64
  memory : Memory
  size : Nat
  cycles : Nat

/-- A number in memory, the lowest byte first. -/
def littleEndian : Bytes → Nat
  | [] => 0
  | b :: bs => b.toNat + 256 * littleEndian bs

def wordBytes (value : UInt64) : Bytes :=
  (List.range 8).map fun i => (value >>> UInt64.ofNat (8 * i)).toUInt8

namespace FlatMachine

def put (addr : Nat) (bs : Bytes) (m : FlatMachine) : Except Unit Unit × FlatMachine :=
  if addr + bs.length ≤ m.size then (.ok (), { m with memory := store m.memory addr bs })
  else (.error (), m)

instance : SupportMachine FlatMachine where
  Trap := Unit
  register r m := m.registers r
  setRegister r value m := { m with registers := fun q => if q = r then value else m.registers q }
  load64 addr m :=
    if addr.toNat + 8 ≤ m.size then
      (.ok (UInt64.ofNat (littleEndian (load m.memory addr.toNat 8))), m)
    else (.error (), m)
  storeBytes addr bs m := m.put addr.toNat bs
  store64 addr value m := m.put addr.toNat (wordBytes value)
  addCyclesNoChecking n m :=
    if m.cycles + n.toNat < 2 ^ 64 then (.ok (), { m with cycles := m.cycles + n.toNat })
    else (.error (), m)

/-- A script with 64 bytes of memory that reads on fd 2, with its length at address 8. -/
def reading (bufferAddr length : UInt64) : FlatMachine where
  registers
    | .a0 => firstFdSlot
    | .a1 => bufferAddr
    | .a2 => 8
    | .a7 => 2606
  memory := store (fun _ => 0) 8 (wordBytes length)
  size := 64
  cycles := 0

theorem reading_atRead (bufferAddr length : UInt64) : AtRead (reading bufferAddr length) where
  code := rfl
  fd := rfl

end FlatMachine

open FlatMachine

theorem reading_loads_three :
    load64 (register .a2 (reading 16 3)) (reading 16 3) = (.ok 3, reading 16 3) := by
  have hword : littleEndian (load (reading 16 3).memory 8 8) = 3 := by decide
  have hfits : (8 : UInt64).toNat + 8 ≤ 64 := by decide
  refine (if_pos hfits).trans ?_
  show (Except.ok (UInt64.ofNat (littleEndian (load (reading 16 3).memory 8 8))), _) = _
  rw [hword]
  rfl

section

attribute [local instance] Allocator.ample

/-- Three bytes are read into a buffer inside the memory. -/
theorem inside_unharmed : Unharmed (reading 16 3) [1, 2, 3] ⟨[], false⟩ := by
  refine (ecall_unharmed_iff (reading_atRead 16 3) [1, 2, 3] ⟨[], false⟩).mpr ?_
  intro length m' hload
  rw [reading_loads_three] at hload
  cases hload
  refine ⟨by decide, fun bs hnext => .inr ?_⟩
  obtain rfl : [1, 2, 3] = bs := Option.some.inj hnext
  exact ⟨_, _, _, rfl, rfl, rfl⟩

/-- With a buffer outside of the memory three bytes are lost, and a length of `2 ^ 63` brings
the host down. -/
theorem outside_harmed :
    (∃ m', ReadSyscall.ecallVm (X := Unit) (Y := Unit)
      (⟨holding [1, 2, 3]⟩, reading 0x8000000000000000 3) =
        .ret (.error (.fault ()), (⟨holding []⟩, m'))) ∧
    ¬ Unharmed (reading 0x8000000000000000 3) [1, 2, 3] ⟨[], false⟩ ∧
    ReadSyscall.ecallVm (X := Unit) (Y := Unit)
      (⟨holding [1, 2, 3]⟩, reading 16 0x8000000000000000) = .panic ∧
    ¬ Unharmed (reading 16 0x8000000000000000) [1, 2, 3] ⟨[], false⟩ := by
  have hlost : ReadSyscall.ecallVm (X := Unit) (Y := Unit)
      (⟨holding [1, 2, 3]⟩, reading 0x8000000000000000 3) =
        .ret (.error (.fault ()), (⟨holding []⟩, reading 0x8000000000000000 3)) := rfl
  have hpanic : ReadSyscall.ecallVm (X := Unit) (Y := Unit)
      (⟨holding [1, 2, 3]⟩, reading 16 0x8000000000000000) = .panic := rfl
  refine ⟨⟨_, hlost⟩, fun h => ?_, hpanic, fun h => ?_⟩
  · rw [Unharmed, hlost] at h
    have hsame : stream (holding []) ⟨[], false⟩ = stream (holding [1, 2, 3]) ⟨[], false⟩ :=
      always_outcome (o := .ret _) h
    exact absurd hsame (by decide)
  · rw [Unharmed, hpanic] at h
    exact always_outcome (o := .panic) h

end

end CkbScriptIpc.Native
