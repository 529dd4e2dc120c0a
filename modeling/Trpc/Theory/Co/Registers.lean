import Trpc.Core.Process

/-!
# Registers

What the code of a switch does, instruction by instruction: `contextSwitch` first writes
the registers to one context and then loads them from another, and `contextSwitchOnly`
does the second only. The return address of the call goes to the context with them, and
comes back from there to the top of the other stack, for the `ret` to find.

So what a context holds behind a switch is what the code of its coroutine needs to go on:
`Suspended`. And what the registers are behind a switch back to it is what they were:
`Continues`.

## Main definitions

* `calleeSaved`, `offset`: The registers that a function leaves as they were, and where
  they are in a context.
* `Suspended`: A context that the code at some point can be gone on with from.
* `Continues`: It is gone on with.

## Theorems

* `run_contextSwitch`, `run_contextSwitchOnly`: The code.
* `prepare_spec`: What a prepared context holds.
-/

namespace Co

open Storage

namespace Machine

@[simp] theorem reg_setReg (r r' : Register) (v : Word) (m : Machine) :
    (m.setReg r v).reg r' = if r' = r then v else m.reg r' := by
  unfold setReg
  simp only [Function.update_apply]

@[simp] theorem rip_setReg (r : Register) (v : Word) (m : Machine) :
    (m.setReg r v).rip = m.rip := rfl

@[simp] theorem memory_setReg (r : Register) (v : Word) (m : Machine) :
    (m.setReg r v).memory = m.memory := rfl

theorem run_append (m : Machine) (is js : List Instruction) :
    m.run (is ++ js) = (m.run is).run js := List.foldl_append

end Machine

/-! ## Places in a context -/

/-- The registers that a function has to leave as it finds them. -/
def calleeSaved : List Register := [.rbx, .rbp, .r12, .r13, .r14, .r15]

/-- Where a register is in a context. `rip` is at `slot a RET`. -/
def offset : Register → Word
  | .r15 => 0#64
  | .r14 => 8#64
  | .r13 => 16#64
  | .r12 => 24#64
  | .r9 => 32#64
  | .r8 => 40#64
  | .rbp => 48#64
  | .rdi => 56#64
  | .rsi => 64#64
  | .rdx => 80#64
  | .rcx => 88#64
  | .rbx => 96#64
  | .rsp => 104#64
  -- These are not kept.
  | .rax | .r10 | .r11 => 0#64

theorem slot_RET (a : Word) : Context.slot a Context.RET = a + 72#64 := rfl

theorem slot_RSP (a : Word) : Context.slot a Context.RSP = a + offset .rsp := rfl

theorem slot_RDI (a : Word) : Context.slot a Context.RDI = a + offset .rdi := rfl

/-! ## Saving -/

/-- The first half of `contextSwitch`. -/
def saving : List Instruction := contextSwitch.take 16

/-- The second half. -/
def loading : List Instruction := contextSwitch.drop 16

theorem contextSwitch_eq : contextSwitch = saving ++ loading := rfl

/-- What `contextSwitch` writes to the context at `a`. -/
def registers (a ret : Word) (m : Machine) : List (Word × Word) := [
  (a + 104#64, m.reg .rsp),
  (a + 96#64, m.reg .rbx),
  (a + 88#64, m.reg .rcx),
  (a + 80#64, m.reg .rdx),
  (a + 72#64, ret),
  (a + 64#64, m.reg .rsi),
  (a + 56#64, a),
  (a + 48#64, m.reg .rbp),
  (a + 40#64, m.reg .r8),
  (a + 32#64, m.reg .r9),
  (a + 24#64, m.reg .r12),
  (a + 16#64, m.reg .r13),
  (a + 8#64, m.reg .r14),
  (a + 0#64, m.reg .r15)]

/-- No two registers share a byte. -/
theorem registers_pairwise (a ret : Word) (m : Machine) :
    (registers a ret m).Pairwise fun w u => Apart w.1 u.1 := by
  have hoffsets : List.Pairwise Apart [104#64, 96#64, 88#64, 80#64, 72#64, 64#64, 56#64, 48#64,
      40#64, 32#64, 24#64, 16#64, 8#64, 0#64] := by
    unfold Apart
    decide
  -- All of them are moved by the same distance.
  have hmoved := hoffsets.map (a + ·) fun d e h => apart_add a d e h
  exact (List.pairwise_map (f := Prod.fst) (l := registers a ret m)).mp hmoved

/-- A word at `x` is apart from all registers of the context at `a`. -/
def Clear (a x : Word) : Prop := ∀ d : Word, d ≤ 104#64 → Apart (a + d) x

/-- The places of the registers, from the top. -/
theorem registers_places (a ret : Word) (m : Machine) (w : Word × Word)
    (hw : w ∈ registers a ret m) : ∃ d : Word, d ≤ 104#64 ∧ w.1 = a + d := by
  simp only [registers, List.mem_cons, List.not_mem_nil, or_false] at hw
  rcases hw with rfl | rfl | rfl | rfl | rfl | rfl | rfl | rfl | rfl | rfl | rfl | rfl | rfl | rfl
  all_goals exact ⟨_, by decide, rfl⟩

/-- The first half writes the registers and leaves them as they are, but for `rax`, through
    which the return address goes. -/
theorem run_saving (m : Machine) (a : Word) (ha : m.reg .rdi = a) (h : Clear a (m.reg .rsp)) :
    (m.run saving).memory = writes m.memory (registers a (load m.memory (m.reg .rsp)) m) ∧
    ∀ r, r ≠ .rax → (m.run saving).reg r = m.reg r := by
  -- The return address is read when four registers have been written.
  have hret : load (writes m.memory [(a + 104#64, m.reg .rsp), (a + 96#64, m.reg .rbx),
      (a + 88#64, m.reg .rcx), (a + 80#64, m.reg .rdx)]) (m.reg .rsp)
      = load m.memory (m.reg .rsp) := by
    apply load_writes_apart
    intro w hw
    simp only [List.mem_cons, List.not_mem_nil, or_false] at hw
    rcases hw with rfl | rfl | rfl | rfl
    · exact h _ (by decide)
    · exact h _ (by decide)
    · exact h _ (by decide)
    · exact h _ (by decide)
  -- The code has no branches, so running it is rewriting.
  constructor
  · rw [← hret]
    simp [saving, contextSwitch, Machine.run, Machine.exec, registers, ha]
  · intro r hr
    simp [saving, contextSwitch, Machine.run, Machine.exec, hr]

/-! ## Loading -/

/-- The registers of `m'` come from the context at `b`, as `memory` has it. -/
structure LoadedFrom (memory : Memory) (b : Word) (m' : Machine) : Prop where
  rip : m'.rip = load memory (b + 72#64)
  rsp : m'.reg .rsp = load memory (b + offset .rsp) + 8#64
  rdi : m'.reg .rdi = load memory (b + offset .rdi)
  saved : ∀ r ∈ calleeSaved, m'.reg r = load memory (b + offset r)
  /-- The return address is put on the stack once more. -/
  memory : m'.memory =
    store memory (load memory (b + offset .rsp)) (load memory (b + 72#64))

/-- The second half, with the context in `rsi`. -/
theorem run_loading (m : Machine) (b : Word) (hb : m.reg .rsi = b) :
    LoadedFrom m.memory b (m.run loading) where
  -- The `ret` takes the address from the stack, where the push before it has put it.
  rip := by simp [loading, contextSwitch, Machine.run, Machine.exec, hb, load_store]
  rsp := by simp [loading, contextSwitch, Machine.run, Machine.exec, hb, offset]
  rdi := by simp [loading, contextSwitch, Machine.run, Machine.exec, hb, offset]
  saved := by
    intro r hr
    simp only [calleeSaved, List.mem_cons, List.not_mem_nil, or_false] at hr
    rcases hr with rfl | rfl | rfl | rfl | rfl | rfl
    all_goals simp [loading, contextSwitch, Machine.run, Machine.exec, hb, offset]
  memory := by simp [loading, contextSwitch, Machine.run, Machine.exec, hb, offset]

/-- The same code with the context in `rdi`. -/
theorem run_contextSwitchOnly (m : Machine) (b : Word) (hb : m.reg .rdi = b) :
    LoadedFrom m.memory b (m.run contextSwitchOnly) where
  rip := by simp [contextSwitchOnly, Machine.run, Machine.exec, hb, load_store]
  rsp := by simp [contextSwitchOnly, Machine.run, Machine.exec, hb, offset]
  rdi := by simp [contextSwitchOnly, Machine.run, Machine.exec, hb, offset]
  saved := by
    intro r hr
    simp only [calleeSaved, List.mem_cons, List.not_mem_nil, or_false] at hr
    rcases hr with rfl | rfl | rfl | rfl | rfl | rfl
    all_goals simp [contextSwitchOnly, Machine.run, Machine.exec, hb, offset]
  memory := by simp [contextSwitchOnly, Machine.run, Machine.exec, hb, offset]

/-- Registers are written to the context at `a` and loaded from that at `b`. -/
theorem run_contextSwitch (m : Machine) (a b : Word) (ha : m.reg .rdi = a)
    (hb : m.reg .rsi = b) (h : Clear a (m.reg .rsp)) :
    LoadedFrom (writes m.memory (registers a (load m.memory (m.reg .rsp)) m)) b
      (m.run contextSwitch) := by
  obtain ⟨hmemory, hreg⟩ := run_saving m a ha h
  rw [contextSwitch_eq, Machine.run_append, ← hmemory]
  apply run_loading
  -- The second argument has not been touched by the first half.
  rw [hreg .rsi (by decide), hb]

/-! ## Memory of one's own -/

namespace Layout

variable (L : Layout)

/-- Contexts share no memory. -/
theorem own_apart (j k : ContextId) (hj : j < L.capacity) (hk : k < L.capacity) (hjk : j ≠ k)
    (a : Word) (h : L.Own j a) : ¬ L.Own k a := by
  intro h'
  have hapart := L.apart j hj k hk hjk
  have hmainj := L.main_apart j hj
  have hmaink := L.main_apart k hk
  simp only [Own, Within, low, high, Context.size, Context.registersSize,
    Context.stackSize] at *
  -- At most one of the two is the context of the main coroutine.
  by_cases hj0 : j = 0
  · have hk0 : k ≠ 0 := fun h => hjk (hj0.trans h.symm)
    rw [if_pos hj0, if_pos hj0] at h
    rw [if_neg hk0, if_neg hk0] at h'
    omega
  · rw [if_neg hj0, if_neg hj0] at h
    by_cases hk0 : k = 0
    · rw [if_pos hk0, if_pos hk0] at h'
      omega
    · rw [if_neg hk0, if_neg hk0] at h'
      omega

theorem own_of_stack (k : ContextId) (a : Word) (h : L.low k ≤ a.toNat) (h' : a.toNat < L.high k) :
    L.Own k a := Or.inr ⟨h, h'⟩

/-- A stack ends within the address space. -/
theorem high_lt (k : ContextId) (hk : k < L.capacity) : L.high k < 18446744073709551616 := by
  unfold high
  by_cases hk0 : k = 0
  · rw [if_pos hk0]
    exact L.main_fits.2
  · rw [if_neg hk0]
    exact L.fits k hk

/-- The bytes of the registers belong to the context. -/
theorem own_of_register (k : ContextId) (hk : k < L.capacity) (d x : Word) (hd : d ≤ 104#64)
    (hx : (x - (L.base k + d)).toNat < 8) : L.Own k x := by
  -- The context lies within the address space, so no sum in here wraps.
  have hfits := L.fits k hk
  refine Or.inl ?_
  simp only [Within, Context.size, Context.registersSize, Context.stackSize] at *
  bv_omega

/-- So do those of a word on the stack. -/
theorem own_of_word (k : ContextId) (hk : k < L.capacity) (s x : Word) (h : L.low k ≤ s.toNat)
    (h' : s.toNat + 8 ≤ L.high k) (hx : (x - s).toNat < 8) : L.Own k x := by
  have hbound := L.high_lt k hk
  exact L.own_of_stack k x (by bv_omega) (by bv_omega)

/-- The registers of a context and its stack are apart. -/
theorem clear_stack (k : ContextId) (hk : k < L.capacity) (s : Word) (h : L.low k ≤ s.toNat)
    (h' : s.toNat + 8 ≤ L.high k) : Clear (L.base k) s := by
  intro d hd
  have hfits := L.fits k hk
  have hmain := L.main_fits
  have hapart := L.main_apart k hk
  simp only [low, high, Context.size, Context.registersSize, Context.stackSize, Apart] at *
  -- The stack of the main coroutine is not in its context. The others have theirs behind
  -- the registers.
  by_cases hk0 : k = 0
  · rw [if_pos hk0] at h h'
    bv_omega
  · rw [if_neg hk0] at h h'
    bv_omega

/-- A byte of a stack is none of the registers. -/
theorem register_of_stack (k : ContextId) (hk : k < L.capacity) (a d : Word)
    (h : L.low k ≤ a.toNat) (h' : a.toNat < L.high k) (hd : d ≤ 104#64) :
    8 ≤ (a - (L.base k + d)).toNat := by
  have hfits := L.fits k hk
  have hapart := L.main_apart k hk
  simp only [low, high, Context.size, Context.registersSize, Context.stackSize] at *
  -- As in `clear_stack`, one byte instead of a word.
  by_cases hk0 : k = 0
  · rw [if_pos hk0] at h h'
    bv_omega
  · rw [if_neg hk0] at h h'
    bv_omega

end Layout

/-! ## Leaving and going on -/

/-- The stack pointer in the context `k` points to a word on its stack. -/
def Saved (L : Layout) (memory : Memory) (k : ContextId) : Prop :=
  L.low k ≤ (load memory (L.base k + offset .rsp)).toNat ∧
    (load memory (L.base k + offset .rsp)).toNat + 8 ≤ L.high k

/-- The context `k` holds what is needed to go on from `m`. -/
structure Suspended (L : Layout) (memory : Memory) (k : ContextId) (m : Machine) : Prop where
  onStack : L.OnStack k (m.reg .rsp)
  rip : load memory (L.base k + 72#64) = m.rip
  rsp : load memory (L.base k + offset .rsp) = m.reg .rsp - 8#64
  saved : ∀ r ∈ calleeSaved, load memory (L.base k + offset r) = m.reg r
  stack : ∀ a : Word, (m.reg .rsp).toNat ≤ a.toNat → a.toNat < L.high k → memory a = m.memory a

/-- The code that was at `m` goes on at `m'`, on the stack of the context `k`, and finds
    all as it was that a function may rely on when it has called another. -/
structure Continues (L : Layout) (k : ContextId) (m m' : Machine) : Prop where
  rip : m'.rip = m.rip
  rsp : m'.reg .rsp = m.reg .rsp
  saved : ∀ r ∈ calleeSaved, m'.reg r = m.reg r
  stack : ∀ a : Word, (m.reg .rsp).toNat ≤ a.toNat → a.toNat < L.high k →
    m'.memory a = m.memory a

/-- The machine `m'` was loaded from the context `k`, as it was in `m`. -/
structure Crosses (L : Layout) (k : ContextId) (m m' : Machine) : Prop where
  rip : m'.rip = load m.memory (L.base k + 72#64)
  rsp : m'.reg .rsp = load m.memory (L.base k + offset .rsp) + 8#64
  rdi : m'.reg .rdi = load m.memory (L.base k + offset .rdi)
  saved : ∀ r ∈ calleeSaved, m'.reg r = load m.memory (L.base k + offset r)
  stack : ∀ a : Word, (m'.reg .rsp).toNat ≤ a.toNat → a.toNat < L.high k →
    m'.memory a = m.memory a

theorem Suspended.settled (L : Layout) (memory : Memory) (k : ContextId) (m : Machine)
    (h : Suspended L memory k m) : Saved L memory k := by
  obtain ⟨hlow, hhigh⟩ := h.onStack
  unfold Saved
  rw [h.rsp]
  bv_omega

/-- A switch to a suspended context goes on with the code that was left. -/
theorem Crosses.continues (L : Layout) (k : ContextId) (m m' x : Machine)
    (h : Crosses L k m m') (hx : Suspended L m.memory k x) : Continues L k x m' := by
  -- The call had pushed eight bytes, and the `ret` pops them.
  have hrsp : m'.reg .rsp = x.reg .rsp := by
    rw [h.rsp, hx.rsp]
    bv_omega
  constructor
  · rw [h.rip, hx.rip]
  · exact hrsp
  · intro r hr
    rw [h.saved r hr, hx.saved r hr]
  · intro a ha ha'
    rw [h.stack a (by rw [hrsp]; exact ha) ha', hx.stack a ha ha']

theorem calleeSaved_offset (r : Register) (hr : r ∈ calleeSaved) : offset r ≤ 104#64 := by
  simp only [calleeSaved, List.mem_cons, List.not_mem_nil, or_false] at hr
  rcases hr with rfl | rfl | rfl | rfl | rfl | rfl
  all_goals decide

/-- A context looks at memory of its own only. -/
theorem load_frame (L : Layout) (k : ContextId) (hk : k < L.capacity) (m m' : Memory)
    (h : ∀ a, L.Own k a → m' a = m a) (d : Word) (hd : d ≤ 104#64) :
    load m' (L.base k + d) = load m (L.base k + d) :=
  load_congr m m' _ fun x hx => h x (L.own_of_register k hk d x hd hx)

theorem Saved.frame (L : Layout) (k : ContextId) (hk : k < L.capacity) (m m' : Memory)
    (h : Saved L m k) (hm : ∀ a, L.Own k a → m' a = m a) : Saved L m' k := by
  unfold Saved
  rw [load_frame L k hk m m' hm _ (by decide)]
  exact h

/-- A suspended context stays suspended while others write to their own memory. -/
theorem Suspended.frame (L : Layout) (k : ContextId) (hk : k < L.capacity) (m m' : Memory)
    (x : Machine) (h : Suspended L m k x) (hm : ∀ a, L.Own k a → m' a = m a) :
    Suspended L m' k x where
  onStack := h.onStack
  rip := by rw [load_frame L k hk m m' hm _ (by decide), h.rip]
  rsp := by rw [load_frame L k hk m m' hm _ (by decide), h.rsp]
  saved := fun r hr => by
    rw [load_frame L k hk m m' hm _ (calleeSaved_offset r hr), h.saved r hr]
  stack := fun a ha ha' => by
    -- The stack pointer is on the stack, and so is all above it.
    have hlow : L.low k ≤ a.toNat := by
      have := h.onStack.1
      omega
    rw [hm a (L.own_of_stack k a hlow ha'), h.stack a ha ha']

/-- A switch loads from one context. It writes nothing but a return address on the stack
    of the code that called it, and one on that of the code that goes on. -/
theorem crosses_of_loaded (L : Layout) (j k : ContextId) (hj : j < L.capacity)
    (hk : k < L.capacity) (hjk : j ≠ k) (m m' : Machine) (memory : Memory)
    (hsame : ∀ a, ¬ L.Own j a → memory a = m.memory a) (hset : Saved L m.memory k)
    (h : LoadedFrom memory (L.base k) m') :
    Crosses L k m m' ∧ (∀ a, ¬ L.Own k a → m'.memory a = memory a) := by
  have hown : ∀ a, L.Own k a → memory a = m.memory a :=
    fun a ha => hsame a fun hja => L.own_apart j k hj hk hjk a hja ha
  have hload := load_frame L k hk m.memory memory hown
  have hrsp := hload (offset .rsp) (by decide)
  obtain ⟨hlow, hhigh⟩ := hset
  -- The word that is written lies on the stack of `k`, below what it holds.
  have hout : ∀ a, ¬ L.Own k a → m'.memory a = memory a := by
    intro a ha
    rw [h.memory]
    refine store_outside _ _ _ a ?_
    rw [hrsp]
    by_contra hlt
    exact ha (L.own_of_word k hk _ a hlow hhigh (by omega))
  refine ⟨⟨?_, ?_, ?_, ?_, ?_⟩, hout⟩
  · rw [h.rip, hload _ (by decide)]
  · rw [h.rsp, hrsp]
  · rw [h.rdi, hload _ (by decide)]
  · intro r hr
    rw [h.saved r hr, hload _ (calleeSaved_offset r hr)]
  · intro a ha ha'
    -- What lies above the new stack pointer is above the word written.
    rw [h.rsp, hrsp] at ha
    have hbound := L.high_lt k hk
    have habove : (load m.memory (L.base k + offset .rsp)).toNat + 8 ≤ a.toNat := by bv_omega
    rw [h.memory, hrsp, store_outside _ _ _ a (by bv_omega)]
    exact hown a (L.own_of_stack k a (by omega) ha')

/-- The call of a switch puts a return address on the caller's stack. -/
theorem call_memory (L : Layout) (j : ContextId) (hj : j < L.capacity) (m : Machine)
    (h : L.OnStack j (m.reg .rsp)) (a : Word) (ha : ¬ L.Own j a) :
    m.call.memory a = m.memory a := by
  obtain ⟨hlow, hhigh⟩ := h
  refine store_outside _ _ _ a ?_
  -- The word below the stack pointer is still on the caller's stack.
  by_contra hlt
  exact ha (L.own_of_word j hj (m.reg .rsp - 8#64) a (by bv_omega) (by bv_omega) (by omega))

/-- A switch that keeps nothing: the context `k` is gone on with, and only the memory of `j`
    and `k` is written. -/
theorem contextSwitchOnly_spec (L : Layout) (j k : ContextId) (hj : j < L.capacity)
    (hk : k < L.capacity) (hjk : j ≠ k) (m : Machine) (hstack : L.OnStack j (m.reg .rsp))
    (hset : Saved L m.memory k) :
    Crosses L k m ((m.setReg .rdi (L.base k)).call.run contextSwitchOnly) ∧
    ∀ a, ¬ L.Own j a → ¬ L.Own k a →
      ((m.setReg .rdi (L.base k)).call.run contextSwitchOnly).memory a = m.memory a := by
  have hsame : ∀ a, ¬ L.Own j a → (m.setReg .rdi (L.base k)).call.memory a = m.memory a :=
    call_memory L j hj (m.setReg .rdi (L.base k)) (by simpa using hstack)
  have hloaded := run_contextSwitchOnly (m.setReg .rdi (L.base k)).call (L.base k)
    (by simp [Machine.call])
  obtain ⟨hcrosses, hout⟩ := crosses_of_loaded L j k hj hk hjk m _ _ hsame hset hloaded
  exact ⟨hcrosses, fun a ha ha' => (hout a ha').trans (hsame a ha)⟩

/-- A switch that keeps where it came from: `k` is gone on with, and `j` holds what the
    caller needs to go on later. -/
theorem contextSwitch_spec (L : Layout) (j k : ContextId) (hj : j < L.capacity)
    (hk : k < L.capacity) (hjk : j ≠ k) (m m' : Machine) (hstack : L.OnStack j (m.reg .rsp))
    (hset : Saved L m.memory k)
    (hm' : m' = ((m.setReg .rdi (L.base j)).setReg .rsi (L.base k)).call.run contextSwitch) :
    Crosses L k m m' ∧ Suspended L m'.memory j m ∧
    ∀ a, ¬ L.Own j a → ¬ L.Own k a → m'.memory a = m.memory a := by
  obtain ⟨hlow, hhigh⟩ := hstack
  -- The machine at the first instruction of the switch: arguments set, return address
  -- pushed.
  generalize hx : ((m.setReg .rdi (L.base j)).setReg .rsi (L.base k)).call = x at hm'
  have hcall : ∀ a, ¬ L.Own j a → x.memory a = m.memory a := by
    rw [← hx]
    exact call_memory L j hj _ (by simpa using ⟨hlow, hhigh⟩)
  have hrsp : x.reg .rsp = m.reg .rsp - 8#64 := by
    rw [← hx]
    simp [Machine.call]
  have hret : load x.memory (x.reg .rsp) = m.rip := by
    rw [hrsp, ← hx]
    simp [Machine.call, load_store]
  have hclear : Clear (L.base j) (x.reg .rsp) := by
    rw [hrsp]
    exact L.clear_stack j hj _ (by bv_omega) (by bv_omega)
  have hloaded := run_contextSwitch x (L.base j) (L.base k) (by rw [← hx]; simp [Machine.call])
    (by rw [← hx]; simp [Machine.call]) hclear
  rw [hret, ← hm'] at hloaded
  -- The registers go to the memory of `j`.
  have hsame : ∀ a, ¬ L.Own j a →
      writes x.memory (registers (L.base j) m.rip x) a = m.memory a := by
    intro a ha
    rw [writes_outside, hcall a ha]
    intro w hw
    obtain ⟨d, hd, hplace⟩ := registers_places _ _ _ w hw
    rw [hplace]
    by_contra hlt
    exact ha (L.own_of_register j hj d a hd (by omega))
  obtain ⟨hcrosses, hout⟩ := crosses_of_loaded L j k hj hk hjk m m' _ hsame hset hloaded
  -- And there they stay, as the rest of the switch writes to the stack of `k`.
  have hkept : ∀ a, L.Own j a → m'.memory a = writes x.memory (registers (L.base j) m.rip x) a :=
    fun a ha => hout a (L.own_apart j k hj hk hjk a ha)
  -- So a word of the context reads as what was written for it.
  have hword : ∀ d v, d ≤ 104#64 → (L.base j + d, v) ∈ registers (L.base j) m.rip x →
      load m'.memory (L.base j + d) = v := by
    intro d v hd hmem
    rw [load_frame L j hj _ _ hkept d hd]
    exact load_writes_mem _ _ _ v (registers_pairwise _ _ _) hmem
  -- Setting the arguments and making the call touch no callee-saved register.
  have hreg : ∀ r ∈ calleeSaved, x.reg r = m.reg r := by
    intro r hr
    simp only [calleeSaved, List.mem_cons, List.not_mem_nil, or_false] at hr
    rw [← hx]
    rcases hr with rfl | rfl | rfl | rfl | rfl | rfl
    all_goals simp [Machine.call]
  refine ⟨hcrosses, ⟨⟨hlow, hhigh⟩, ?_, ?_, ?_, ?_⟩, ?_⟩
  · exact hword _ _ (by decide) (by simp [registers])
  · rw [← hrsp]
    exact hword _ _ (by decide) (by simp [registers, offset])
  · intro r hr
    rw [← hreg r hr]
    refine hword _ _ (calleeSaved_offset r hr) ?_
    simp only [calleeSaved, List.mem_cons, List.not_mem_nil, or_false] at hr
    rcases hr with rfl | rfl | rfl | rfl | rfl | rfl
    all_goals simp [registers, offset]
  · -- What lies on the stack above the return address was not written at all.
    intro a ha ha'
    rw [hkept a (L.own_of_stack j a (by omega) ha'), writes_outside, ← hx]
    · have hpushed : ((m.setReg .rdi (L.base j)).setReg .rsi (L.base k)).reg .rsp = m.reg .rsp := by
        simp
      refine store_outside _ _ _ a ?_
      rw [hpushed]
      bv_omega
    · intro w hw
      obtain ⟨d, hd, hplace⟩ := registers_places _ _ _ w hw
      rw [hplace]
      exact L.register_of_stack j hj a d (by omega) ha' hd
  · exact fun a ha ha' => (hout a ha').trans (hsame a ha)

/-! ## New contexts -/

/-- `& (~0xF)`. -/
theorem toNat_mask (x : Word) : (x &&& ~~~15#64).toNat = x.toNat / 16 * 16 := by
  have hones : (~~~15#64 : Word) = BitVec.allOnes 64 <<< 4 := by decide
  -- Masking the low four bits is shifting them out and zeros in.
  have hshift : x &&& ~~~15#64 = (x >>> 4) <<< 4 := by
    rw [hones]
    ext i hi
    simp only [BitVec.getElem_and, BitVec.getElem_shiftLeft, BitVec.getElem_allOnes,
      BitVec.getElem_ushiftRight]
    by_cases h4 : i < 4
    · simp [h4]
    · have hi4 : 4 + (i - 4) = i := by omega
      simp [h4, hi4, hi]
  rw [hshift]
  simp only [BitVec.toNat_shiftLeft, BitVec.toNat_ushiftRight, Nat.shiftRight_eq_div_pow,
    Nat.shiftLeft_eq]
  omega

/-- The stack pointer of a new context is aligned, and close to the end of the stack. -/
theorem getSp_spec (a : Word) (h : a.toNat + Context.size < 18446744073709551616) :
    a.toNat + Context.size < (Context.getSp a).toNat + 24 ∧
    (Context.getSp a).toNat + 8 ≤ a.toNat + Context.size ∧ (Context.getSp a).toNat % 16 = 0 := by
  simp only [Context.getSp, Context.stackEnd, toNat_mask, Context.size, Context.registersSize,
    Context.stackSize] at *
  -- The end of the stack is below the limit, so the subtraction does not wrap.
  have hend : (a + BitVec.ofNat 64 (112 + 131072) - 8#64).toNat = a.toNat + 131176 := by bv_omega
  rw [hend]
  omega

/-- The stack pointer of a new context has room for one word above it. -/
theorem getSp_low (L : Layout) (k : ContextId) (hk : k < L.capacity) (hk0 : k ≠ 0) :
    L.low k ≤ (Context.getSp (L.base k)).toNat ∧
      (Context.getSp (L.base k)).toNat + 8 ≤ L.high k := by
  obtain ⟨hlow, hhigh, -⟩ := getSp_spec (L.base k) (L.fits k hk)
  simp only [Layout.low, Layout.high, if_neg hk0, Context.size, Context.registersSize,
    Context.stackSize] at *
  omega

/-- A prepared context starts the function `ret` with `rdi` for its argument. -/
theorem prepare_spec (L : Layout) (k : ContextId) (hk : k < L.capacity) (hk0 : k ≠ 0)
    (ret rdi : Word) (m m' : Memory) (hm' : m' = Context.prepare (L.base k) ret rdi m) :
    (∀ a, ¬ L.Own k a → m' a = m a) ∧ load m' (L.base k + 72#64) = ret ∧
    load m' (L.base k + offset .rdi) = rdi ∧
    load m' (L.base k + offset .rsp) = Context.getSp (L.base k) ∧ Saved L m' k := by
  obtain ⟨hlow, hhigh⟩ := getSp_low L k hk hk0
  have hclear := L.clear_stack k hk _ hlow hhigh
  have hfits := L.fits k hk
  generalize hsp : Context.getSp (L.base k) = sp at hlow hhigh hclear
  -- What is read back from the stack is what was put there.
  have heq : m' = writes (fill m (L.base k) Context.registersSize 0)
      [(sp, ret), (L.base k + 104#64, sp), (L.base k + 72#64, ret), (L.base k + 56#64, rdi)] := by
    have hret : load (store (store (fill m (L.base k) Context.registersSize 0) sp ret)
        (L.base k + 104#64) sp) sp = ret := by
      rw [load_store_apart _ _ _ _ (hclear _ (by decide)), load_store]
    rw [hm', Context.prepare, hsp]
    simp only [Context.fillRegisters, slot_RSP, slot_RET, slot_RDI, offset, hret, writes_cons,
      writes_nil]
  -- The four words do not overlap: three are registers and one is on the stack.
  have hpairwise : List.Pairwise (fun w u : Word × Word => Apart w.1 u.1)
      [(sp, ret), (L.base k + 104#64, sp), (L.base k + 72#64, ret), (L.base k + 56#64, rdi)] := by
    have hoffsets : ∀ d e : Word, Apart d e → Apart (L.base k + d) (L.base k + e) :=
      apart_add (L.base k)
    simp only [List.pairwise_cons, List.mem_cons, List.not_mem_nil, or_false, forall_eq_or_imp,
      forall_eq, List.Pairwise.nil, and_true, false_imp_iff, implies_true]
    exact ⟨⟨(hclear _ (by decide)).symm, (hclear _ (by decide)).symm, (hclear _ (by decide)).symm⟩,
      ⟨hoffsets _ _ (by unfold Apart; decide), hoffsets _ _ (by unfold Apart; decide)⟩,
      hoffsets _ _ (by unfold Apart; decide)⟩
  have hword : ∀ b v, (b, v) ∈ [(sp, ret), (L.base k + 104#64, sp), (L.base k + 72#64, ret),
      (L.base k + 56#64, rdi)] → load m' b = v := by
    intro b v hmem
    rw [heq]
    exact load_writes_mem _ _ b v hpairwise hmem
  have hload := hword (L.base k + 104#64) sp (by simp)
  refine ⟨?_, hword _ _ (by simp), hword _ _ (by simp [offset]), hload, ?_⟩
  · intro a ha
    have hregister : ∀ d : Word, d ≤ 104#64 → 8 ≤ (a - (L.base k + d)).toNat := by
      intro d hd
      by_contra hlt
      exact ha (L.own_of_register k hk d a hd (by omega))
    -- Outside of the context neither the zeros nor the four words are written.
    rw [heq, writes_outside]
    · refine fill_outside _ _ a _ _ ?_
      by_contra hlt
      refine ha (Or.inl ?_)
      simp only [Within, Context.size, Context.registersSize, Context.stackSize] at *
      bv_omega
    · intro w hw
      simp only [List.mem_cons, List.not_mem_nil, or_false] at hw
      rcases hw with rfl | rfl | rfl | rfl
      · by_contra hlt
        exact ha (L.own_of_word k hk sp a hlow hhigh (Nat.lt_of_not_le hlt))
      · exact hregister _ (by decide)
      · exact hregister _ (by decide)
      · exact hregister _ (by decide)
  · unfold Saved offset
    rw [hload]
    exact ⟨hlow, hhigh⟩

end Co
