import CkbScriptIpc.Csi.Allocator
import CkbScriptIpc.Csi.Server

/-!
# The C library: channels that come and go

`new_buffer` and `csi_free_channel` under the two ways to set the library up. The
functions of the context serve what the caller chose; the size of a buffer and
`csi_free_channel` go by the library's own I/O allocator.

* `newBuffer_server`: the buffers that a channel gets are those that `csi_run_server` gets;
* `usage_heap`: with the library's allocator, a history of channels is a history of
  `malloc` and `free`;
* `channels_work_iff`: channels work with that allocator, up to 33 blocks, and never
  with functions of the caller.
-/

namespace CkbScriptIpc

open Interaction

variable {H : Type} [PayloadAllocator H]

/-- What `g_csi_context.iobuf_malloc` and `iobuf_free` are: the static functions, or
those that `csi_init_malloc` was given. -/
inductive IobufStrategy where
  | fixed
  | custom
  deriving DecidableEq, Repr

/-- The globals that channels depend on, and the memory behind the functions of the
caller. -/
structure CSIGlobals (H : Type) where
  strategy : IobufStrategy
  iobufAllocator : FixedAllocator
  heap : H

/-- How a run that is not to go on ends. -/
inductive Fault where
  | divideByZero
  | panic (code : CSIErrorCode)
  deriving DecidableEq, Repr

namespace CSIGlobals

/-- `csi_init_iobuf`; `csi_init_payload`, called with it, does not matter to a channel. -/
def csiInitIobuf (heap : H) (buf : Nat) (len blockCount : UInt64) :
    Except CSIErrorCode (CSIGlobals H) :=
  (CkbScriptIpc.csiInitIobuf buf len blockCount).map fun a => ⟨.fixed, a, heap⟩

/-- `csi_init_malloc`. The I/O allocator of the library stays zeroed. -/
def csiInitMalloc (heap : H) : CSIGlobals H := ⟨.custom, ⟨0, 0, 0, 0⟩, heap⟩

/-- `g_csi_context.iobuf_malloc`. -/
def iobufMalloc (size : Nat) (g : CSIGlobals H) : Nat × CSIGlobals H :=
  match g.strategy with
  | .fixed =>
    let block := g.iobufAllocator.malloc size
    (block.1, { g with iobufAllocator := block.2 })
  | .custom =>
    let block := PayloadAllocator.malloc size g.heap
    (block.1, { g with heap := block.2 })

/-- `g_csi_context.iobuf_free`. -/
def iobufFree (ptr : Nat) (g : CSIGlobals H) : Option (CSIGlobals H) :=
  match g.strategy with
  | .fixed => (g.iobufAllocator.free ptr).map fun a => { g with iobufAllocator := a }
  | .custom => (PayloadAllocator.free ptr g.heap).map fun heap => { g with heap := heap }

/-- `new_buffer`, up to the fields of the buffer. -/
def newBuffer (g : CSIGlobals H) : Except Fault (Nat × CSIGlobals H) :=
  if g.iobufAllocator.blockCount = 0 then .error .divideByZero
  else
    let block := g.iobufMalloc g.iobufAllocator.blockSize
    if block.1 = 0 then .error (.panic .malloc) else .ok block

/-- The `ctx` of the reader and of the writer of a `CSIChannel`. -/
structure Buffers where
  reader : Nat
  writer : Nat
  deriving DecidableEq, Repr

/-- `new_buf_reader` and `new_buf_writer`. -/
def newChannel (g : CSIGlobals H) : Except Fault (Buffers × CSIGlobals H) := do
  let reader ← g.newBuffer
  let writer ← reader.2.newBuffer
  return (⟨reader.1, writer.1⟩, writer.2)

/-- `csi_free_channel`. It calls the static `iobuf_free`, not that of the context. -/
def csiFreeChannel (ch : Buffers) (g : CSIGlobals H) : Option (CSIGlobals H) := do
  let a ← g.iobufAllocator.free ch.reader
  let a' ← a.free ch.writer
  return { g with iobufAllocator := a' }

/-! ## What channels should do -/

/-- Both buffers go back to where `new_buffer` took them from. -/
def giveBack (ch : Buffers) (g : CSIGlobals H) : Option (CSIGlobals H) := do
  let g' ← g.iobufFree ch.reader
  g'.iobufFree ch.writer

/-- The library, with the channels that were created and not freed. -/
structure Usage (H : Type) where
  globals : CSIGlobals H
  channels : List Buffers

/-- There is memory for one more channel: two blocks, or two buffers of some size that
holds more than a `CSIBuffer`. -/
def Usage.Available (u : Usage H) : Prop :=
  match u.globals.strategy with
  | .fixed => 2 * (u.channels.length + 1) ≤ u.globals.iobufAllocator.blockCount.toNat
  | .custom => ∃ n > sizeofCSIBuffer, (PayloadAllocator.malloc n u.globals.heap).1 ≠ 0 ∧
      (PayloadAllocator.malloc n (PayloadAllocator.malloc n u.globals.heap).2).1 ≠ 0

/-- Create a channel within the available memory, or free a live one. -/
inductive Usage.Step : Usage H → Usage H → Prop
  | create {u : Usage H} {ch : Buffers} {g : CSIGlobals H} : u.Available →
      u.globals.newChannel = .ok (ch, g) → Usage.Step u ⟨g, ch :: u.channels⟩
  | free {u : Usage H} {ch : Buffers} {g : CSIGlobals H} : ch ∈ u.channels →
      u.globals.csiFreeChannel ch = some g → Usage.Step u ⟨g, u.channels.erase ch⟩

abbrev Usage.Reach : Usage H → Usage H → Prop := Relation.ReflTransGen Usage.Step

/-- Channels work: while there is memory one can be created, each can be freed, to where
it came from, and when all are freed everything is as it was. -/
structure ChannelsWork (g : CSIGlobals H) : Prop where
  creates : ∀ u, Usage.Reach ⟨g, []⟩ u → u.Available → ∃ r, u.globals.newChannel = .ok r
  frees : ∀ u, Usage.Reach ⟨g, []⟩ u → ∀ ch ∈ u.channels,
    ∃ g', u.globals.csiFreeChannel ch = some g' ∧ u.globals.giveBack ch = some g'
  restores : ∀ u, Usage.Reach ⟨g, []⟩ u → u.channels = [] → u.globals = g

/-! ## The library's own allocator -/

section

variable {g g' : CSIGlobals H} {u u' : Usage H} {h : Heap FixedAllocator} {a : FixedAllocator}

theorem newBuffer_fixed (hs : g.strategy = .fixed) (hcount : g.iobufAllocator.blockCount ≠ 0) :
    g.newBuffer =
      if (g.iobufAllocator.malloc g.iobufAllocator.blockSize).1 = 0 then
        .error (.panic .malloc)
      else .ok ((g.iobufAllocator.malloc g.iobufAllocator.blockSize).1,
        { g with iobufAllocator := (g.iobufAllocator.malloc g.iobufAllocator.blockSize).2 }) := by
  simp only [newBuffer, hcount, ↓reduceIte, iobufMalloc, hs]

/-- `csi_run_server` gets its buffers in the same way. -/
theorem newBuffer_server {s : CSIProcess} {heap : H} {p : Nat}
    (h : newBuffer ⟨.fixed, s.iobuf, heap⟩ = .ok (p, g)) :
    ∃ b : CSIBuffer,
      CkbScriptIpc.newBuffer s =
        (.ret (.ok b, { s with iobuf := g.iobufAllocator }) : Prog ServerRes _) := by
  by_cases hcount : s.iobuf.blockCount = 0
  · rw [newBuffer, if_pos hcount] at h
    cases h
  rw [newBuffer_fixed rfl hcount] at h
  by_cases hnull : (s.iobuf.malloc s.iobuf.blockSize).1 = 0
  · rw [if_pos hnull] at h
    cases h
  · rw [if_neg hnull] at h
    cases h
    simp only [CkbScriptIpc.newBuffer, get_seq, set_seq, hnull, ↓reduceIte]
    exact ⟨_, rfl⟩

/-- The globals hold the allocator of a history `h` in which the buffers `live` are. -/
structure Backed (a : FixedAllocator) (heap : H) (h : Heap FixedAllocator) (g : CSIGlobals H)
    (live : List Nat) : Prop where
  strategy : g.strategy = .fixed
  heap : g.heap = heap
  reach : Heap.Reach (· ≤ a.blockSize) ⟨a, []⟩ h
  allocator : g.iobufAllocator = h.allocator
  live : h.live.Perm live

/-- The buffers of the live channels. -/
def Usage.held (u : Usage H) : List Nat := u.channels.flatMap fun ch => [ch.writer, ch.reader]

omit [PayloadAllocator H] in
theorem Usage.length_held (u : Usage H) : u.held.length = 2 * u.channels.length := by
  rw [held, List.length_flatMap]
  simp [Nat.mul_comm]

section

variable {buf : Nat} {len blockCount : UInt64} {heap : H} {live : List Nat} (hbuf : 0 < buf)
  (hlen : 1024 ≤ len) (hinit : fixedAllocatorInit buf len blockCount = .ok a)

include hbuf hlen hinit

/-- `new_buffer` takes a block, or finds that none is left and panics. -/
theorem Backed.take (hb : Backed a heap h g live) :
    (live.length = min 32 blockCount.toNat ∧ g.newBuffer = .error (.panic .malloc)) ∨
      (live.length ≠ min 32 blockCount.toNat ∧ ∃ p g' h', g.newBuffer = .ok (p, g') ∧
        Backed a heap h' g' (p :: live)) := by
  obtain ⟨-, hsame, -, -⟩ := reach_exact hbuf hlen hinit hb.reach
  have hnull := provides_null_iff hbuf hlen hinit hb.reach (Nat.le_refl _)
  rw [hb.live.length_eq] at hnull
  have hsize := hsame.blockSize
  have hcount : h.allocator.blockCount ≠ 0 := by
    obtain ⟨rfl, hpos, -⟩ := fixedAllocatorInit_ok hlen hinit
    rw [hsame.blockCount]
    intro hzero
    have hcount : blockCount = 0 := hzero
    rw [hcount] at hpos
    exact absurd hpos (by decide)
  rw [newBuffer_fixed hb.strategy (hb.allocator ▸ hcount), hb.allocator, hsize]
  by_cases hfull : (h.allocator.malloc a.blockSize).1 = 0
  · exact .inl ⟨hnull.mp hfull, by rw [if_pos hfull]⟩
  · refine .inr ⟨fun he => hfull (hnull.mpr he), _, _, _, if_neg hfull, hb.strategy, hb.heap,
      .tail hb.reach (.malloc (Nat.le_refl a.blockSize)), rfl, ?_⟩
    show List.Perm (if (h.allocator.malloc a.blockSize).1 = 0 then h.live
      else (h.allocator.malloc a.blockSize).1 :: h.live) _
    rw [if_neg hfull]
    exact hb.live.cons _

omit hbuf in
/-- Freeing the buffers of a live channel gives their blocks back. -/
theorem Backed.release {ch : Buffers} {rest : List Nat}
    (hb : Backed a heap h g (ch.writer :: ch.reader :: rest)) :
    ∃ g' h', g.csiFreeChannel ch = some g' ∧ g.giveBack ch = some g' ∧
      Backed a heap h' g' rest := by
  have hperm : h.live.Perm (ch.reader :: ch.writer :: rest) :=
    hb.live.trans (List.Perm.swap _ _ _)
  have hreader : ch.reader ∈ h.live := hperm.symm.subset List.mem_cons_self
  obtain ⟨b, hfree⟩ := reach_frees hlen hinit hb.reach hreader
  have hreach₁ : Heap.Reach (· ≤ a.blockSize) ⟨a, []⟩ ⟨b, h.live.erase ch.reader⟩ :=
    .tail hb.reach (.free hreader hfree)
  have hperm₁ : (h.live.erase ch.reader).Perm (ch.writer :: rest) := by
    have herase := hperm.erase ch.reader
    rwa [List.erase_cons_head] at herase
  have hwriter : ch.writer ∈ h.live.erase ch.reader := hperm₁.symm.subset List.mem_cons_self
  obtain ⟨c, hfree'⟩ := reach_frees hlen hinit hreach₁ hwriter
  have hperm₂ : ((h.live.erase ch.reader).erase ch.writer).Perm rest := by
    have herase := hperm₁.erase ch.writer
    rwa [List.erase_cons_head] at herase
  have hchannel : g.csiFreeChannel ch = some { g with iobufAllocator := c } := by
    rw [csiFreeChannel, hb.allocator, hfree]
    show (b.free ch.writer).bind _ = _
    rw [show b.free ch.writer = some c from hfree']
    rfl
  have hback : g.giveBack ch = some { g with iobufAllocator := c } := by
    simp only [giveBack, iobufFree, hb.strategy, hb.allocator, hfree, Option.map_some,
      Option.bind_eq_bind, Option.bind_some]
    rw [show b.free ch.writer = some c from hfree']
    rfl
  exact ⟨_, _, hchannel, hback, hb.strategy, hb.heap,
    .tail hreach₁ (.free hwriter hfree'), rfl, hperm₂⟩

/-- A channel takes two blocks, or finds that they are not left. -/
theorem Backed.create (hb : Backed a heap h g live) :
    (min 32 blockCount.toNat < live.length + 2 ∧ ∃ e, g.newChannel = .error e) ∨
      ∃ ch g' h', g.newChannel = .ok (ch, g') ∧
        Backed a heap h' g' (ch.writer :: ch.reader :: live) := by
  rcases Backed.take hbuf hlen hinit hb with ⟨hfull, he⟩ | ⟨hne, p, g₁, h₁, hok, hb₁⟩
  · exact .inl ⟨by omega, _, by rw [newChannel, he]; rfl⟩
  rcases Backed.take hbuf hlen hinit hb₁ with ⟨hfull, he⟩ | ⟨hne₁, q, g₂, h₂, hok₂, hb₂⟩
  · rw [List.length_cons] at hfull
    refine .inl ⟨by omega, .panic .malloc, ?_⟩
    simp only [newChannel, hok, ok_seq, he, error_seq]
  · refine .inr ⟨⟨p, q⟩, g₂, h₂, ?_, hb₂⟩
    simp only [newChannel, hok, ok_seq, hok₂]
    rfl

/-- A history of channels is a history of the allocator. -/
theorem usage_heap (hr : Usage.Reach ⟨⟨.fixed, a, heap⟩, []⟩ u) :
    ∃ h, Backed a heap h u.globals u.held := by
  induction hr with
  | refl => exact ⟨⟨a, []⟩, rfl, rfl, .refl, rfl, .refl _⟩
  | @tail u u' _ hs ih =>
    obtain ⟨h, hb⟩ := ih
    cases hs with
    | create _ hnew =>
      rcases Backed.create hbuf hlen hinit hb with ⟨-, e, he⟩ | ⟨ch, g, h', hok, hb'⟩
      · rw [he] at hnew
        cases hnew
      · rw [hok] at hnew
        cases hnew
        exact ⟨h', hb'⟩
    | @free ch g hch hfree =>
      have hperm : u.held.Perm
          (ch.writer :: ch.reader :: Usage.held ⟨g, u.channels.erase ch⟩) :=
        (List.perm_cons_erase hch).flatMap_right _
      obtain ⟨g', h', hfree', -, hb'⟩ := Backed.release hlen hinit
        { hb with live := hb.live.trans hperm }
      rw [hfree'] at hfree
      cases hfree
      exact ⟨h', hb'⟩

omit hbuf hlen hinit in
theorem Usage.available_fixed (hs : u.globals.strategy = .fixed) :
    u.Available ↔ 2 * (u.channels.length + 1) ≤ u.globals.iobufAllocator.blockCount.toNat := by
  rw [Available, hs]

omit [PayloadAllocator H] in
theorem Backed.count (hb : Backed a heap h g live) :
    g.iobufAllocator.blockCount = blockCount := by
  obtain ⟨-, hsame, -, -⟩ := reach_exact hbuf hlen hinit hb.reach
  obtain ⟨rfl, -, -⟩ := fixedAllocatorInit_ok hlen hinit
  rw [hb.allocator, hsame.blockCount]

/-- Where at least two of the blocks that can be had are left, a channel is created. -/
theorem usage_creates (hr : Usage.Reach ⟨⟨.fixed, a, heap⟩, []⟩ u)
    (hleft : 2 * (u.channels.length + 1) ≤ min 32 blockCount.toNat) :
    ∃ r, u.globals.newChannel = .ok r := by
  obtain ⟨h, hb⟩ := usage_heap hbuf hlen hinit hr
  rcases Backed.create hbuf hlen hinit hb with ⟨hfull, -⟩ | ⟨ch, g, -, hok, -⟩
  · rw [Usage.length_held] at hfull
    omega
  · exact ⟨_, hok⟩

/-- With at most 33 blocks channels work. -/
theorem fixed_works (hcount : blockCount.toNat ≤ 33) :
    ChannelsWork (⟨.fixed, a, heap⟩ : CSIGlobals H) where
  creates u hr havail := by
    obtain ⟨h, hb⟩ := usage_heap hbuf hlen hinit hr
    rw [Usage.available_fixed hb.strategy, Backed.count hbuf hlen hinit hb] at havail
    exact usage_creates hbuf hlen hinit hr (by omega)
  frees u hr ch hch := by
    obtain ⟨h, hb⟩ := usage_heap hbuf hlen hinit hr
    have hperm : u.held.Perm
        (ch.writer :: ch.reader :: Usage.held ⟨u.globals, u.channels.erase ch⟩) :=
      (List.perm_cons_erase hch).flatMap_right _
    obtain ⟨g', -, hfree, hback, -⟩ := Backed.release hlen hinit
      { hb with live := hb.live.trans hperm }
    exact ⟨g', hfree, hback⟩
  restores u hr hnone := by
    obtain ⟨h, hb⟩ := usage_heap hbuf hlen hinit hr
    have hlive : h.live = [] := by
      have hperm := hb.live
      rw [Usage.held, hnone] at hperm
      exact List.perm_nil.mp hperm
    have hself : u.globals = ⟨u.globals.strategy, u.globals.iobufAllocator, u.globals.heap⟩ := rfl
    rw [hself, hb.strategy, hb.allocator, hb.heap, reach_restores hbuf hlen hinit hb.reach hlive]

/-- Sixteen channels can be created, if there are blocks for them. -/
theorem exists_channels (n : Nat) (hn : n ≤ 16) (hcount : 2 * n ≤ blockCount.toNat) :
    ∃ u, Usage.Reach (⟨⟨.fixed, a, heap⟩, []⟩ : Usage H) u ∧ u.channels.length = n := by
  induction n with
  | zero => exact ⟨_, .refl, rfl⟩
  | succ n ih =>
    obtain ⟨u, hr, rfl⟩ := ih (by omega) (by omega)
    obtain ⟨h, hb⟩ := usage_heap hbuf hlen hinit hr
    obtain ⟨⟨ch, g⟩, hok⟩ := usage_creates hbuf hlen hinit hr (by omega)
    have havail : u.Available := by
      rw [Usage.available_fixed hb.strategy, Backed.count hbuf hlen hinit hb]
      omega
    exact ⟨_, .tail hr (.create havail hok), rfl⟩

/-- With more blocks the seventeenth channel fails. -/
theorem fixed_fails (hcount : 33 < blockCount.toNat) :
    ¬ ChannelsWork (⟨.fixed, a, heap⟩ : CSIGlobals H) := by
  intro hwork
  obtain ⟨u, hr, hn⟩ : ∃ u, Usage.Reach (⟨⟨.fixed, a, heap⟩, []⟩ : Usage H) u ∧
      u.channels.length = 16 := exists_channels hbuf hlen hinit 16 (by omega) (by omega)
  obtain ⟨h, hb⟩ := usage_heap hbuf hlen hinit hr
  have havail : u.Available := by
    rw [Usage.available_fixed hb.strategy, Backed.count hbuf hlen hinit hb]
    omega
  obtain ⟨r, hok⟩ := hwork.creates u hr havail
  have hlive := hb.live.length_eq
  rw [Usage.length_held, hn] at hlive
  rcases Backed.take hbuf hlen hinit hb with ⟨-, he⟩ | ⟨hne, -⟩
  · rw [newChannel, he] at hok
    cases hok
  · rw [Usage.length_held, hn] at hne
    omega

end

end

/-! ## Both ways to set up -/

/-- The two documented ways to set the library up. -/
inductive Setup where
  | fixed (buf : Nat) (notNull : 0 < buf) (len blockCount : UInt64)
  | custom

def Setup.init (heap : H) : Setup → Except CSIErrorCode (CSIGlobals H)
  | .fixed buf _ len blockCount => csiInitIobuf heap buf len blockCount
  | .custom => .ok (csiInitMalloc heap)

/-- At most 33 blocks of the library's allocator, or functions of the caller that have no
memory for even one channel. -/
def Setup.Supported (heap : H) : Setup → Prop
  | .fixed _ _ _ blockCount => blockCount.toNat ≤ 33
  | .custom => ¬ Usage.Available ⟨csiInitMalloc heap, []⟩

omit [PayloadAllocator H] in
theorem csiInitIobuf_ok {heap : H} {g : CSIGlobals H} {buf : Nat} {len blockCount : UInt64}
    (h : csiInitIobuf heap buf len blockCount = .ok g) :
    ∃ a, fixedAllocatorInit buf len blockCount = .ok a ∧ 1024 ≤ len ∧ g = ⟨.fixed, a, heap⟩ := by
  rw [csiInitIobuf, CkbScriptIpc.csiInitIobuf] at h
  split at h
  · cases h
  · rename_i hlen
    cases ha : fixedAllocatorInit buf len blockCount with
    | error e => rw [ha] at h; cases h
    | ok a =>
      rw [ha] at h
      cases h
      exact ⟨a, rfl, UInt64.not_lt.mp hlen, rfl⟩

/-- With functions of the caller the size of a buffer is divided by zero. -/
theorem newChannel_custom (heap : H) : newChannel (csiInitMalloc heap) = .error .divideByZero :=
  rfl

theorem custom_fails {heap : H} (havail : Usage.Available ⟨csiInitMalloc heap, []⟩) :
    ¬ ChannelsWork (csiInitMalloc heap) := by
  intro hwork
  obtain ⟨r, hok⟩ := hwork.creates _ .refl havail
  rw [newChannel_custom] at hok
  cases hok

/-- Where there is memory for no channel nothing happens. -/
theorem reach_none {heap : H} (hnone : ¬ Usage.Available ⟨csiInitMalloc heap, []⟩) {u : Usage H}
    (hr : Usage.Reach ⟨csiInitMalloc heap, []⟩ u) : u = ⟨csiInitMalloc heap, []⟩ := by
  induction hr with
  | refl => rfl
  | tail _ hs ih =>
    subst ih
    cases hs with
    | create havail => exact absurd havail hnone
    | free hch => cases hch

theorem custom_works {heap : H} (hnone : ¬ Usage.Available ⟨csiInitMalloc heap, []⟩) :
    ChannelsWork (csiInitMalloc heap) := by
  constructor
  · intro u hr havail
    exact absurd (reach_none hnone hr ▸ havail) hnone
  · intro u hr ch hch
    rw [reach_none hnone hr] at hch
    cases hch
  · intro u hr _
    rw [reach_none hnone hr]

/-- **Channels** work with the library's own allocator, up to 33 blocks, and with
functions of the caller as long as no channel is created. -/
theorem channels_work_iff (heap : H) (setup : Setup) {g : CSIGlobals H}
    (hinit : setup.init heap = .ok g) : ChannelsWork g ↔ setup.Supported heap := by
  cases setup with
  | fixed buf hbuf len blockCount =>
    obtain ⟨a, ha, hlen, rfl⟩ := csiInitIobuf_ok hinit
    constructor
    · intro hwork
      refine Nat.le_of_not_lt fun hlt => ?_
      exact fixed_fails hbuf hlen ha hlt hwork
    · exact fixed_works hbuf hlen ha
  | custom =>
    cases hinit
    constructor
    · exact fun hwork havail => custom_fails havail hwork
    · exact custom_works

/-- Memory of the caller that hands out addresses from `next` on. -/
structure Bump where
  next : Nat

instance : PayloadAllocator Bump where
  malloc size b := (b.next, ⟨b.next + size⟩)
  free _ b := some b

/-- Two blocks for one channel. -/
theorem channels_work_two : ChannelsWork (⟨.fixed, ⟨0, 2, 1024, 4096⟩, ⟨1⟩⟩ : CSIGlobals Bump) :=
  (channels_work_iff (H := Bump) ⟨1⟩ (.fixed 4096 (by decide) 1024 2) rfl).mpr
    (by show 2 ≤ 33; decide)

/-- After `csi_init_malloc` the first channel fails. -/
theorem channels_fail_custom : ¬ ChannelsWork (csiInitMalloc (⟨4096⟩ : Bump)) :=
  custom_fails ⟨64, by decide, by decide, by decide⟩

end CSIGlobals

end CkbScriptIpc
