import Trpc.Core.Coroutine
import Trpc.Lib.Storage

/-!
# Contexts in Memory

The coroutines once more, one level further down: here a context is a stretch of
memory, with the saved registers at its bottom and the stack above, and a switch is the
code that `contextswitch.h` has for it, run on the registers and the memory of the
machine. Nothing tells any more whose code is being run but the instruction pointer.

The environment and the flags are kept as they are above, beside the machine. Where the
code of an entry goes on is `rip`, so the call of a switch leaves `rip` on the stack as
its return address. Between two switches the code does what it likes to its registers,
its own stack, and all memory that belongs to no context and is not the thread's own
stack. The flags of the processor and the floating point registers are left out.

## Main definitions

* `Machine`, `Instruction`: Registers, memory, and what is needed of the instructions.
* `contextSwitch`, `contextSwitchOnly`: The code.
* `Context.prepare`: What a new context holds.
* `Layout`: Where things lie.
* `Process`: A thread and its machine.
* `Process.resume`, `Process.yield`, `Process.wrapped`: The operations.
* `Process.Step`: One of them, or what the code does on its own.
-/

namespace Co

open Storage

/-! ## The processor -/

inductive Register where
  | rax
  | rbx
  | rcx
  | rdx
  | rsi
  | rdi
  | rbp
  | rsp
  | r8
  | r9
  | r10
  | r11
  | r12
  | r13
  | r14
  | r15
  deriving DecidableEq

structure Machine where
  reg : Register → Word
  /-- Where the code goes on. -/
  rip : Word
  memory : Memory

/-- The instructions, with their operands in the order of the assembler. -/
inductive Instruction where
  | movq (src dst : Register)
  /-- `movq %src, disp(%base)`. -/
  | store (src : Register) (disp : Word) (base : Register)
  /-- `movq disp(%base), %dst`. -/
  | load (disp : Word) (base dst : Register)
  | xorq (src dst : Register)
  | ret

namespace Machine

def setReg (r : Register) (v : Word) (m : Machine) : Machine :=
  { m with reg := Function.update m.reg r v }

/-- One instruction. `rip` is looked at when a function is called or returns only. -/
def exec (m : Machine) : Instruction → Machine
  | .movq src dst => m.setReg dst (m.reg src)
  | .store src disp base =>
    { m with memory := Storage.store m.memory (m.reg base + disp) (m.reg src) }
  | .load disp base dst => m.setReg dst (Storage.load m.memory (m.reg base + disp))
  | .xorq src dst => m.setReg dst (m.reg dst ^^^ m.reg src)
  | .ret =>
    { m.setReg .rsp (m.reg .rsp + 8#64) with rip := Storage.load m.memory (m.reg .rsp) }

def run (m : Machine) (is : List Instruction) : Machine := is.foldl exec m

/-- `call`: the place to go on at is pushed. -/
def call (m : Machine) : Machine :=
  { m.setReg .rsp (m.reg .rsp - 8#64) with
    memory := Storage.store m.memory (m.reg .rsp - 8#64) m.rip }

end Machine

/-- `contextSwitch`, with the `ret` that the compiler adds. -/
def contextSwitch : List Instruction := [
  .movq .rsp .rax,
  .store .rax 104#64 .rdi,
  .store .rbx 96#64 .rdi,
  .store .rcx 88#64 .rdi,
  .store .rdx 80#64 .rdi,
  .load 0#64 .rax .rax,
  .store .rax 72#64 .rdi,
  .store .rsi 64#64 .rdi,
  .store .rdi 56#64 .rdi,
  .store .rbp 48#64 .rdi,
  .store .r8 40#64 .rdi,
  .store .r9 32#64 .rdi,
  .store .r12 24#64 .rdi,
  .store .r13 16#64 .rdi,
  .store .r14 8#64 .rdi,
  .store .r15 0#64 .rdi,
  .load 48#64 .rsi .rbp,
  .load 104#64 .rsi .rsp,
  .load 0#64 .rsi .r15,
  .load 8#64 .rsi .r14,
  .load 16#64 .rsi .r13,
  .load 24#64 .rsi .r12,
  .load 32#64 .rsi .r9,
  .load 40#64 .rsi .r8,
  .load 56#64 .rsi .rdi,
  .load 72#64 .rsi .rax,
  .load 80#64 .rsi .rdx,
  .load 88#64 .rsi .rcx,
  .load 96#64 .rsi .rbx,
  .load 64#64 .rsi .rsi,
  .store .rax 0#64 .rsp,
  .xorq .rax .rax,
  .ret]

/-- `contextSwitchOnly`, likewise. -/
def contextSwitchOnly : List Instruction := [
  .load 48#64 .rdi .rbp,
  .load 104#64 .rdi .rsp,
  .load 0#64 .rdi .r15,
  .load 8#64 .rdi .r14,
  .load 16#64 .rdi .r13,
  .load 24#64 .rdi .r12,
  .load 32#64 .rdi .r9,
  .load 40#64 .rdi .r8,
  .load 64#64 .rdi .rsi,
  .load 72#64 .rdi .rax,
  .load 80#64 .rdi .rdx,
  .load 88#64 .rdi .rcx,
  .load 96#64 .rdi .rbx,
  .load 56#64 .rdi .rdi,
  .store .rax 0#64 .rsp,
  .xorq .rax .rax,
  .ret]

/-! ## Contexts -/

namespace Context

/-- `STACK_SIZE`. -/
def stackSize : Nat := 131072

def RDI : Nat := 7

def RET : Nat := 9

def RSP : Nat := 13

/-- `sizeof _registers`. -/
def registersSize : Nat := 112

/-- `sizeof(Context)`. -/
def size : Nat := registersSize + stackSize

/-- `&_registers[i]` of the context at `a`. -/
def slot (a : Word) (i : Nat) : Word := a + BitVec.ofNat 64 (8 * i)

/-- `std::begin(_stack)`. -/
def stackBegin (a : Word) : Word := a + BitVec.ofNat 64 registersSize

/-- `std::end(_stack)`. -/
def stackEnd (a : Word) : Word := a + BitVec.ofNat 64 size

/-- `getSp`. -/
def getSp (a : Word) : Word := (stackEnd a - 8#64) &&& ~~~15#64

/-- `fillRegisters`. -/
def fillRegisters (a sp ret rdi : Word) (m : Memory) : Memory :=
  let m := fill m a registersSize 0
  let m := Storage.store m sp ret
  let m := Storage.store m (slot a RSP) sp
  let m := Storage.store m (slot a RET) (Storage.load m sp)
  Storage.store m (slot a RDI) rdi

/-- `prepare`. -/
def prepare (a ret rdi : Word) (m : Memory) : Memory := fillRegisters a (getSp a) ret rdi m

/-- `test`, with the address of its local variable. -/
def test (a jojo : Word) : Bool :=
  let diff := (jojo - stackBegin a).toInt
  decide (diff ≥ 0) && decide (diff < stackSize)

end Context

/-! ## Processes -/

/-- Where things lie: the contexts, as many as memory has room for, the stack that the
    thread itself runs on, the code of `routineWrapper`, and the coroutines. -/
structure Layout where
  capacity : Nat
  base : ContextId → Word
  mainLow : Nat
  mainHigh : Nat
  routine : Word
  object : Coroutine → Word
  fits : ∀ k < capacity, (base k).toNat + Context.size < 18446744073709551616
  apart : ∀ j < capacity, ∀ k < capacity, j ≠ k →
    (base j).toNat + Context.size ≤ (base k).toNat ∨ (base k).toNat + Context.size ≤ (base j).toNat
  main_fits : mainLow ≤ mainHigh ∧ mainHigh < 18446744073709551616
  main_apart : ∀ k < capacity,
    mainHigh ≤ (base k).toNat ∨ (base k).toNat + Context.size ≤ mainLow

/-- A thread as the machine has it. -/
structure Process where
  machine : Machine
  env : Environment
  coroutines : Coroutine → Option Coroutine.Fields
  allocated : Nat

namespace Process

variable (L : Layout)

/-- `_context` of a coroutine. -/
def contextOf (p : Process) (c : Coroutine) : Option ContextId :=
  (p.coroutines c).bind Coroutine.Fields.context

def setEnv (e : Environment) (p : Process) : Process := { p with env := e }

def setFields (c : Coroutine) (f : Coroutine.Fields) (p : Process) : Process :=
  { p with coroutines := Function.update p.coroutines c (some f) }

def setMemory (m : Memory) (p : Process) : Process :=
  { p with machine := { p.machine with memory := m } }

/-- `std::make_unique<Context>()`: the members are zero. -/
def makeContext (p : Process) : Option ContextId × Process :=
  (some p.allocated, { p.setMemory (fill p.machine.memory (L.base p.allocated) Context.size 0) with
    allocated := p.allocated + 1 })

/-- `Context::switchOnly`: a call of `contextSwitchOnly(next)`. -/
def switchOnly (next : Option ContextId) (p : Process) : Except SwitchFault Process :=
  match next with
  | none => .error .noContext
  | some k => .ok { p with
      machine := (p.machine.setReg .rdi (L.base k)).call.run contextSwitchOnly }

/-- `Context::switchFrom`: a call of `contextSwitch(previous, next)`. -/
def switchFrom (next previous : Option ContextId) (p : Process) : Except SwitchFault Process :=
  match previous, next with
  | some j, some k => .ok { p with
      machine := ((p.machine.setReg .rdi (L.base j)).setReg .rsi (L.base k)).call.run
        contextSwitch }
  | _, _ => .error .noContext

/-- `Context::prepare`, called by `resume`. -/
def prepare (context : Option ContextId) (c : Coroutine) (p : Process) :
    Except SwitchFault Process :=
  match context with
  | none => .error .noContext
  | some k =>
    .ok (p.setMemory (Context.prepare (L.base k) L.routine (L.object c) p.machine.memory))

/-- `Environment::createCoroutine`. -/
def createCoroutine (c : Coroutine) (p : Process) : Process := p.setFields c ⟨0, none⟩

/-- The context that `resume` gives to a coroutine. -/
def acquire (p : Process) : Except SwitchFault (Option ContextId × Process) :=
  if p.env.reusable then do
    let (context, e) ← p.env.reuse
    return (context, p.setEnv e)
  else
    return p.makeContext L

/-- What `resume` does first for a coroutine that has not been started. -/
def equip (c : Coroutine) (f : Coroutine.Fields) (p : Process) : Except SwitchFault Process :=
  if !f.running then do
    let (context, p) ← p.acquire L
    let p ← p.prepare L context c
    return p.setFields c ⟨f.runtime ||| State.RUNNING, context⟩
  else return p

/-- What `resume` does then. -/
def enter (c : Coroutine) (p : Process) : Except SwitchFault Process := do
  let previous ← p.env.current
  let p := p.setEnv (p.env.push c)
  p.switchFrom L (p.contextOf c) (p.contextOf previous)

/-- `Coroutine::resume`. -/
def resume (c : Coroutine) (p : Process) : Except SwitchFault Process :=
  match p.coroutines c with
  | none => .error .noCoroutine
  | some f => if f.exit then .ok p else p.equip L c f >>= enter L c

/-- `Coroutine::yield`. -/
def yield (p : Process) : Except SwitchFault Process := do
  let coroutine ← p.env.current
  let e ← p.env.pop
  let p := p.setEnv e
  let current ← p.env.current
  match p.contextOf coroutine with
  | some k => p.switchFrom L (p.contextOf current) (some k)
  | none => p.switchOnly L (p.contextOf current)

/-- `routineWrapper` behind the call of the entry, up to the `yield`. -/
def retire (c : Coroutine) (p : Process) : Except SwitchFault Process :=
  match p.coroutines c with
  | none => .error .noCoroutine
  | some f => do
    let runtime := f.runtime ^^^ (State.EXIT ||| State.RUNNING)
    if p.env.recyclable then do
      let e ← p.env.recycle f.context
      return (p.setFields c ⟨runtime, none⟩).setEnv e
    else
      return p.setFields c ⟨runtime, f.context⟩

/-- `routineWrapper` behind the call of the entry, for the current coroutine. -/
def wrapped (p : Process) : Except SwitchFault Process := do
  let c ← p.env.current
  let p ← p.retire c
  p.yield L

/-- `Coroutine::test`, called by the code that is being run. -/
def test (jojo : Word) (p : Process) : Except SwitchFault Bool := do
  let c ← p.env.current
  match p.contextOf c with
  | some k => return Context.test (L.base k) jojo
  | none => return false

def step (p : Process) : Operation → Except SwitchFault Process
  | .createCoroutine c => .ok (p.createCoroutine c)
  | .resume c => p.resume L c
  | .yield => p.yield L
  | .completes => p.wrapped L

/-- The rules, as above. The main coroutine has no frame to return to. -/
def Allowed (p : Process) : Operation → Prop
  | .createCoroutine c => p.coroutines c = none
  | .resume c => (p.coroutines c).isSome ∧ c ∉ p.env.cStack
  | .yield => p.env.current ≠ .ok main
  | .completes => p.env.current ≠ .ok main

end Process

namespace Layout

variable (L : Layout)

/-- The stack that code runs on whose coroutine has the context `k`: that in the context,
    but for the main coroutine. -/
def low (k : ContextId) : Nat :=
  if k = 0 then L.mainLow else (L.base k).toNat + Context.registersSize

def high (k : ContextId) : Nat :=
  if k = 0 then L.mainHigh else (L.base k).toNat + Context.size

/-- The memory of the context `k`, and the stack that belongs to it. -/
def Own (k : ContextId) (a : Word) : Prop :=
  Within (L.base k).toNat Context.size a ∨ L.low k ≤ a.toNat ∧ a.toNat < L.high k

/-- There is room for a return address on the stack. -/
def OnStack (k : ContextId) (rsp : Word) : Prop := L.low k + 8 ≤ rsp.toNat ∧ rsp.toNat ≤ L.high k

end Layout

/-- What code does that runs with the context `k`, when there are `n` contexts: its registers
    may change in any way that leaves it on its stack, and so may this stack and what no
    context owns. -/
structure Computes (L : Layout) (n : Nat) (k : ContextId) (m m' : Machine) : Prop where
  onStack : L.OnStack k (m'.reg .rsp)
  frame : ∀ a, m'.memory a ≠ m.memory a →
    L.low k ≤ a.toNat ∧ a.toNat < L.high k ∨ ∀ j < n, ¬ L.Own j a

/-- What happens: code that runs, or an operation. -/
inductive Action where
  | computes
  | operates (o : Operation)

namespace Process

/-- One step. Contexts are allocated as long as there is memory for them. -/
inductive Step (L : Layout) : Process → Action → Process → Prop where
  | computes (p : Process) (c : Coroutine) (k : ContextId) (m : Machine) :
      p.env.current = .ok c → p.contextOf c = some k → Computes L p.allocated k p.machine m →
      Step L p .computes { p with machine := m }
  | operates (p p' : Process) (o : Operation) : p.Allowed o → p.step L o = .ok p' →
      p'.allocated ≤ L.capacity → Step L p (.operates o) p'

/-- `Environment::Environment`, on a machine that runs on the thread's own stack. -/
def initial (m : Machine) : Process where
  machine := m
  env := ⟨[main], fun _ => none, 0⟩
  coroutines := Function.update (fun _ => none) main (some ⟨0, some 0⟩)
  allocated := 1

end Process

end Co
