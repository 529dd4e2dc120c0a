import Trpc.Core.Posix
import Trpc.Lib.Transition

/-!
# Coroutines

`co::Coroutine` and `co::Environment` from below: the flags, the stack of those that
have been resumed, and the contexts, on which their code runs. A context is handed out
when a coroutine is resumed first and put by in the environment when its entry has
returned, while the code is still running on it.

A switch writes the registers to one context and loads them from another. What the
registers of a context stand for is the place where the code goes on, a `Point`; which
coroutine's code is being run is known from that alone, not from the environment. Code
that was running when its context was last left without being saved is lost.

The entries are arbitrary: between two operations of this module any of them does what
it likes. Coroutines are not destroyed here, as somebody holds a pointer to each.

## Main definitions

* `Environment`: `_cStack` and the contexts put by.
* `Thread`: The environment, the coroutines, the contexts, and what is being run.
* `Thread.resume`, `Thread.yield`, `Thread.wrapped`: The operations that switch.
* `Operation`, `Thread.step`: What a coroutine does to the others.
* `Thread.Allowed`: The operations that respect the stack.
-/

namespace Co

open Transition

/-- `State::Bitmask`. -/
abbrev Bitmask := UInt8

namespace State

def MAIN : Bitmask := (1 : UInt8) <<< 0
def IDLE : Bitmask := (1 : UInt8) <<< 1
def RUNNING : Bitmask := (1 : UInt8) <<< 2
def EXIT : Bitmask := (1 : UInt8) <<< 3

end State

/-- A context, as what tells it from the others. -/
abbrev ContextId := Nat

/-- Where the code goes on that the registers of a context belong to. -/
inductive Point where
  /-- At the head of `routineWrapper(c)`. -/
  | start (c : Coroutine)
  /-- Behind the switch in `resume`, with which the code of `caller` resumed `callee`. -/
  | resumed (caller callee : Coroutine)
  /-- Behind the switch in `yield`, in the code of `c`. -/
  | yielded (c : Coroutine)
  /-- Behind the `yield` at the end of `routineWrapper(c)`. -/
  | wrapped (c : Coroutine)
deriving DecidableEq

/-- Ways of leaving defined behaviour. -/
inductive SwitchFault where
  /-- A coroutine that does not exist. -/
  | noCoroutine
  /-- `back` or `pop_back` of an empty `_cStack`. -/
  | emptyStack
  /-- A slot outside `_recycleStack`. -/
  | noSlot
  /-- A null `_context` is dereferenced. -/
  | noContext
  /-- Registers are loaded that nobody has written. -/
  | noRegisters
  /-- `routineWrapper` returns. -/
  | noReturn
deriving DecidableEq

/-- `_recycleStack.size()`. -/
def recycleSize : Nat := 0xff

/-- `Environment`. Its `_main` is the coroutine `main`. -/
structure Environment where
  cStack : List Coroutine
  recycleStack : Fin recycleSize → Option ContextId
  recycleTop : Nat

/-- `Environment::_main`. -/
def main : Coroutine := 0

namespace Environment

/-- `Environment::current`. -/
def current (e : Environment) : Except SwitchFault Coroutine :=
  match e.cStack.getLast? with
  | some c => .ok c
  | none => .error .emptyStack

/-- `Environment::push`. -/
def push (c : Coroutine) (e : Environment) : Environment :=
  { e with cStack := e.cStack ++ [c] }

/-- `Environment::pop`. -/
def pop (e : Environment) : Except SwitchFault Environment :=
  match e.cStack with
  | [] => .error .emptyStack
  | _ :: _ => .ok { e with cStack := e.cStack.dropLast }

def reusable (e : Environment) : Bool := e.recycleTop > 0

/-- `Environment::reuse`: the slot is left null. -/
def reuse (e : Environment) : Except SwitchFault (Option ContextId × Environment) :=
  if h : 0 < e.recycleTop ∧ e.recycleTop - 1 < recycleSize then
    let top : Fin recycleSize := ⟨e.recycleTop - 1, h.2⟩
    .ok (e.recycleStack top,
      { e with recycleStack := Function.update e.recycleStack top none, recycleTop := top })
  else .error .noSlot

def recyclable (e : Environment) : Bool := e.recycleTop != recycleSize

/-- `Environment::recycle`. -/
def recycle (trash : Option ContextId) (e : Environment) : Except SwitchFault Environment :=
  if h : e.recycleTop < recycleSize then
    .ok { e with
      recycleStack := Function.update e.recycleStack ⟨e.recycleTop, h⟩ trash
      recycleTop := e.recycleTop + 1 }
  else .error .noSlot

end Environment

/-- The members of a `Coroutine` that change. -/
structure Coroutine.Fields where
  runtime : Bitmask
  context : Option ContextId
deriving DecidableEq

/-- `Coroutine::exit`. -/
def Coroutine.Fields.exit (f : Coroutine.Fields) : Bool := f.runtime &&& State.EXIT != 0

/-- `Coroutine::running`. -/
def Coroutine.Fields.running (f : Coroutine.Fields) : Bool := f.runtime &&& State.RUNNING != 0

/-- A thread. The last two are not there in the program: the entries that were started,
    and those that have returned, in this order. -/
structure Thread where
  env : Environment
  coroutines : Coroutine → Option Coroutine.Fields
  /-- The registers of each context. -/
  contexts : ContextId → Option Point
  /-- How many contexts were allocated. -/
  allocated : Nat
  /-- The coroutine whose code is being run. -/
  control : Coroutine
  entered : List Coroutine
  finished : List Coroutine

/-- What a switch ends in: the thread, and the return value of the `resume` that has
    returned, if one has. -/
abbrev Switched := Except SwitchFault (Thread × Option Bitmask)

namespace Thread

/-- `Environment::Environment`. -/
def initial : Thread where
  env := ⟨[main], fun _ => none, 0⟩
  coroutines := Function.update (fun _ => none) main (some ⟨0, some 0⟩)
  contexts := fun _ => none
  allocated := 1
  control := main
  entered := []
  finished := []

/-- `_context` of a coroutine. -/
def contextOf (t : Thread) (c : Coroutine) : Option ContextId :=
  (t.coroutines c).bind Coroutine.Fields.context

/-- `_runtime` of a coroutine. -/
def runtimeOf (t : Thread) (c : Coroutine) : Option Bitmask :=
  (t.coroutines c).map Coroutine.Fields.runtime

def setEnv (e : Environment) (t : Thread) : Thread := { t with env := e }

def setFields (c : Coroutine) (f : Coroutine.Fields) (t : Thread) : Thread :=
  { t with coroutines := Function.update t.coroutines c (some f) }

def setRegisters (k : ContextId) (p : Point) (t : Thread) : Thread :=
  { t with contexts := Function.update t.contexts k (some p) }

/-- `std::make_unique<Context>()`. -/
def makeContext (t : Thread) : Option ContextId × Thread :=
  (some t.allocated, { t with allocated := t.allocated + 1 })

/-- `Context::switchOnly`: the code goes on where the registers say. -/
def switchOnly (next : Option ContextId) (t : Thread) : Switched :=
  match next with
  | none => .error .noContext
  | some k =>
    match t.contexts k with
    | none => .error .noRegisters
    | some (.start c) => .ok ({ t with control := c, entered := t.entered ++ [c] }, none)
    | some (.resumed caller callee) => .ok ({ t with control := caller }, t.runtimeOf callee)
    | some (.yielded c) => .ok ({ t with control := c }, none)
    -- The wrapper would return, and there is nothing for it to return to.
    | some (.wrapped _) => .error .noReturn

/-- `Context::switchFrom`: the code that runs now is to go on `here`. -/
def switchFrom (next previous : Option ContextId) (here : Point) (t : Thread) : Switched :=
  match previous with
  | none => .error .noContext
  | some k => switchOnly next (t.setRegisters k here)

/-- `Context::prepare`, called by `resume`. -/
def prepare (context : Option ContextId) (c : Coroutine) (t : Thread) :
    Except SwitchFault Thread :=
  match context with
  | none => .error .noContext
  | some k => .ok (t.setRegisters k (.start c))

/-- `Environment::createCoroutine`. The coroutine is at an address of its own. -/
def createCoroutine (c : Coroutine) (t : Thread) : Thread := t.setFields c ⟨0, none⟩

/-- The context that `resume` gives to a coroutine. -/
def acquire (t : Thread) : Except SwitchFault (Option ContextId × Thread) :=
  if t.env.reusable then do
    let (context, e) ← t.env.reuse
    return (context, t.setEnv e)
  else
    return t.makeContext

/-- What `resume` does first for a coroutine that has not been started. -/
def equip (c : Coroutine) (f : Coroutine.Fields) (t : Thread) : Except SwitchFault Thread :=
  if !f.running then do
    let (context, t) ← t.acquire
    let t ← t.prepare context c
    return t.setFields c ⟨f.runtime ||| State.RUNNING, context⟩
  else return t

/-- What `resume` does then. -/
def enter (c : Coroutine) (t : Thread) : Switched := do
  let previous ← t.env.current
  -- The coroutine is current before its code runs.
  let t := t.setEnv (t.env.push c)
  t.switchFrom (t.contextOf c) (t.contextOf previous) (.resumed t.control c)

/-- `Coroutine::resume`, called by the code that is being run. -/
def resume (c : Coroutine) (t : Thread) : Switched :=
  match t.coroutines c with
  | none => .error .noCoroutine
  -- A coroutine that has ended is not switched to.
  | some f => if f.exit then .ok (t, some f.runtime) else t.equip c f >>= enter c

/-- `Coroutine::yield`. -/
def leave (here : Point) (t : Thread) : Switched := do
  let coroutine ← t.env.current
  let e ← t.env.pop
  let t := t.setEnv e
  let current ← t.env.current
  match t.contextOf coroutine with
  | some k => t.switchFrom (t.contextOf current) (some k) here
  -- The context was given away, so there is nothing to save.
  | none => t.switchOnly (t.contextOf current)

/-- `Coroutine::yield`, called by the code that is being run. -/
def yield (t : Thread) : Switched := t.leave (.yielded t.control)

/-- `routineWrapper` behind the call of the entry, up to the `yield`. -/
def retire (c : Coroutine) (t : Thread) : Except SwitchFault Thread :=
  match t.coroutines c with
  | none => .error .noCoroutine
  | some f => do
    -- Toggled, not set: right for one that runs and has not ended.
    let runtime := f.runtime ^^^ (State.EXIT ||| State.RUNNING)
    let t : Thread := { t with finished := t.finished ++ [c] }
    if t.env.recyclable then do
      -- The code is still running on the context that is put by.
      let e ← t.env.recycle f.context
      return (t.setFields c ⟨runtime, none⟩).setEnv e
    else
      return t.setFields c ⟨runtime, f.context⟩

/-- `routineWrapper` behind the call of the entry, for the coroutine whose entry it was. -/
def wrapped (t : Thread) : Switched := do
  let c := t.control
  let t ← t.retire c
  t.leave (.wrapped c)

end Thread

/-- What the code that is being run does. -/
inductive Operation where
  | createCoroutine (c : Coroutine)
  | resume (c : Coroutine)
  | yield
  /-- The entry returns. -/
  | completes
deriving DecidableEq

namespace Thread

def step (t : Thread) : Operation → Switched
  | .createCoroutine c => .ok (t.createCoroutine c, none)
  | .resume c => t.resume c
  | .yield => t.yield
  | .completes => t.wrapped

/-- The rules: an address that is in use is not given to another coroutine; a coroutine
    is not resumed while it stands on the stack; and `main` neither yields nor ends. -/
def Allowed (t : Thread) : Operation → Prop
  | .createCoroutine c => t.coroutines c = none
  | .resume c => (t.coroutines c).isSome ∧ c ∉ t.env.cStack
  | .yield => t.control ≠ main
  | .completes => t.control ≠ main

/-- A step that respects the rules. -/
def Step (t : Thread) (o : Operation) (t' : Thread) : Prop :=
  t.Allowed o ∧ ∃ value, t.step o = .ok (t', value)

end Thread

end Co
