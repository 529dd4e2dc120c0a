import Trpc.Core.Json
import Mathlib.Logic.Function.Basic

/-!
# Payloads and Their Lifetimes

`Core.Json` models values by what they hold. Here they are objects in memory, which
are constructed and destroyed. A `Variant` keeps its payload in a buffer of its own:
`init` puts one in place with placement `new`, and nothing but an explicit run of the
destructor takes it away again.

Each payload that `init` puts in place gets a number, the next one that is free. The
memory counts how often the destructor of each has run. A payload with elements or
members contains `Json`s, and its destructor runs theirs.

A container can also stand by itself, outside of any variant, as the `ObjectImpl` a
program fills before it makes a `Json` of it. It has no number, only the payloads in
it do.

`init` is told by the value category of its argument whether it copies or moves. A
map or a vector that is moved from is empty, and its elements are those of the new
one. So is a string. The other alternatives have no move constructor of their own.

## Main definitions

* `Payload`, `Node`: What stands in a buffer, and a variant that holds something.
* `Memory`: The payloads put in place and destroyed so far.
* `Payload.build`: A copy with payloads of its own.
* `Variant.init`, `Variant.destroy`, `Variant.assign`, `Variant.assignVariant`
* `Node.assign`, `Node.assignJson`, `Node.assignLiteral`: `Json::operator=`.
* `Objects`: The objects of a program.
* `Objects.Op`, `Objects.Step`: What it does with them.
-/

namespace Vsjson

/-- What the buffer of a variant holds. The `Json`s inside come with the numbers of
    their own payloads. -/
inductive Payload (D : Type) where
  | null
  | object (members : List (Str × Nat × Payload D))
  | array (elems : List (Nat × Payload D))
  | string (s : Str)
  | integer (i : Int32)
  | decimal (d : D)
  | boolean (b : Bool)

/-- A payload in a variant's buffer, with its number. A `Json` always has one. -/
abbrev Node (D : Type) := Nat × Payload D

/-- A variant; `none` where `_what` is `-1`. -/
abbrev Variant (D : Type) := Option (Node D)

variable {D : Type}

namespace Payload

mutual

/-- The numbers of the payloads inside. -/
def ids : Payload D → List Nat
  | .object members => idsMembers members
  | .array elems => idsElems elems
  | _ => []

def idsMembers : List (Str × Nat × Payload D) → List Nat
  | [] => []
  | (_, id, a) :: ms => id :: (ids a ++ idsMembers ms)

def idsElems : List (Nat × Payload D) → List Nat
  | [] => []
  | (id, a) :: es => id :: (ids a ++ idsElems es)

end

mutual

/-- The value that is stored. -/
def value : Payload D → Json D
  | .null => .null
  | .object members => .object (valueMembers members)
  | .array elems => .array (valueElems elems)
  | .string s => .string s
  | .integer i => .integer i
  | .decimal d => .decimal d
  | .boolean b => .boolean b

def valueMembers : List (Str × Nat × Payload D) → List (Str × Json D)
  | [] => []
  | (k, _, a) :: ms => (k, value a) :: valueMembers ms

def valueElems : List (Nat × Payload D) → List (Json D)
  | [] => []
  | (_, a) :: es => value a :: valueElems es

end

mutual

/-- A container with this value, whose elements are constructed one after the other,
    with the numbers from `n` on. The second component is the next free number. -/
def build (n : Nat) : Json D → Payload D × Nat
  | .null => (.null, n)
  | .object members => (.object (buildMembers n members).1, (buildMembers n members).2)
  | .array elems => (.array (buildElems n elems).1, (buildElems n elems).2)
  | .string s => (.string s, n)
  | .integer i => (.integer i, n)
  | .decimal d => (.decimal d, n)
  | .boolean b => (.boolean b, n)

def buildMembers (n : Nat) : List (Str × Json D) → List (Str × Nat × Payload D) × Nat
  | [] => ([], n)
  | (k, j) :: ms =>
    ((k, n, (build (n + 1) j).1) :: (buildMembers (build (n + 1) j).2 ms).1,
      (buildMembers (build (n + 1) j).2 ms).2)

def buildElems (n : Nat) : List (Json D) → List (Nat × Payload D) × Nat
  | [] => ([], n)
  | j :: js =>
    ((n, (build (n + 1) j).1) :: (buildElems (build (n + 1) j).2 js).1,
      (buildElems (build (n + 1) j).2 js).2)

end

/-- What is left of a payload that was moved from. -/
def taken : Payload D → Payload D
  | .object _ => .object []
  | .array _ => .array []
  | .string _ => .string []
  | a => a

end Payload

/-- The numbers of a payload and of those inside it. -/
def Node.ids (n : Node D) : List Nat := n.1 :: n.2.ids

/-- How many payloads were put in place, and how often the destructor of each ran. -/
structure Memory where
  next : Nat
  destroyed : Nat → Nat

/-- The destructors of the payloads listed run. -/
def Memory.destruct (m : Memory) (ids : List Nat) : Memory :=
  { m with destroyed := fun k => m.destroyed k + ids.count k }

/-- Whether an argument is an lvalue or an rvalue. -/
inductive Forward where
  | copy
  | move

/-- `DecayT(std::forward<T>(obj))`, with the next free number. -/
def Forward.construct (n : Nat) : Forward → Payload D → Payload D × Nat
  | .copy, obj => Payload.build n obj.value
  | .move, obj => (obj, n)

/-- What `obj` is after that. -/
def Forward.leave : Forward → Payload D → Payload D
  | .copy, obj => obj
  | .move, obj => obj.taken

namespace Variant

/-- `init(std::forward<T>(obj))`: the payload it puts in place. -/
def init (m : Memory) (fwd : Forward) (obj : Payload D) : Memory × Node D :=
  ({ m with next := (fwd.construct (m.next + 1) obj).2 },
    (m.next, (fwd.construct (m.next + 1) obj).1))

/-- `~Variant()`. It does not set `_what` back. -/
def destroy (m : Memory) : Variant D → Memory
  | none => m
  | some n => m.destruct n.ids

/-- `operator=(T &&rhs)`. -/
def assign (m : Memory) (self : Variant D) (fwd : Forward) (rhs : Payload D) :
    Memory × Node D :=
  init (destroy m self) fwd rhs

/-- `operator=(const Variant &rhs)` and `operator=(Variant &&rhs)`, for another variant,
    whose payload the visitor hands to `init`. -/
def assignVariant (m : Memory) (self : Variant D) (fwd : Forward) (rhs : Node D) :
    Memory × Node D :=
  init (destroy m self) fwd rhs.2

end Variant

/-- What `Json` has overloads for that take no part in the conversions. -/
inductive Literal where
  | null
  | boolean (b : Bool)
  | string (s : Str)

/-- `NullImpl(nullptr)`, `BooleanImpl(b)` and `StringImpl(str)`. -/
def Literal.payload : Literal → Payload D
  | .null => .null
  | .boolean b => .boolean b
  | .string s => .string s

namespace Node

/-- `~Json()`, which is that of `_value`. -/
def destroy (m : Memory) (self : Node D) : Memory := Variant.destroy m (some self)

/-- `Json::operator=(T &&obj)`, for one of the alternatives. -/
def assign (m : Memory) (self : Node D) (fwd : Forward) (obj : Payload D) : Memory × Node D :=
  Variant.assign (self.destroy m) (some self) fwd obj

/-- `Json::operator=(T &&obj)`, for a `JsonValue`. -/
def assignValue (m : Memory) (self : Node D) (fwd : Forward) (obj : Node D) : Memory × Node D :=
  Variant.assignVariant (self.destroy m) (some self) fwd obj

/-- `Json::operator=(const Json &rhs)` and `Json::operator=(Json &&rhs)`, for another
    `Json`. -/
def assignJson (m : Memory) (self : Node D) (fwd : Forward) (rhs : Node D) : Memory × Node D :=
  Variant.assignVariant (self.destroy m) (some self) fwd rhs

/-- `Json::operator=` from a string, a `bool` or `nullptr`. -/
def assignLiteral (m : Memory) (self : Node D) (l : Literal) : Memory × Node D :=
  Variant.assign m (some self) .move l.payload

end Node

/-! ## Places -/

/-- Where a `Json` stands in the container around it. -/
inductive Key where
  | member (key : Str)
  | element (index : Nat)
  deriving DecidableEq

/-- Change the value of the first member under a key. -/
def modifyMember {α : Type} (key : Str) (f : α → α) : List (Str × α) → List (Str × α)
  | [] => []
  | (k, v) :: ms => if key = k then (k, f v) :: ms else (k, v) :: modifyMember key f ms

namespace Payload

/-- `operator[]`, where there is something. -/
def child : Key → Payload D → Option (Node D)
  | .member key, .object members => SortedMap.lookup key members
  | .element index, .array elems => elems[index]?
  | _, _ => none

/-- Change what stands there. -/
def modifyChild (f : Node D → Node D) : Key → Payload D → Payload D
  | .member key, .object members => .object (modifyMember key f members)
  | .element index, .array elems => .array (elems.modify index f)
  | _, a => a

end Payload

namespace Node

/-- Go down into a payload. -/
def get : List Key → Node D → Option (Node D)
  | [], n => some n
  | key :: path, n => (n.2.child key).bind (get path)

/-- Change what stands there. -/
def modify (f : Node D → Node D) : List Key → Node D → Node D
  | [], n => f n
  | key :: path, n => (n.1, n.2.modifyChild (modify f path) key)

end Node

/-- An object of the program: an alternative by itself, a `JsonValue` or a `Json`. -/
inductive Slot (D : Type) where
  | gone
  | alternative (a : Payload D)
  | variant (v : Variant D)
  | json (n : Node D)

namespace Slot

/-- The payloads that an object contains. -/
def ids : Slot D → List Nat
  | .gone => []
  | .alternative a => a.ids
  | .variant none => []
  | .variant (some n) => n.ids
  | .json n => n.ids

/-- Its destructor. -/
def destroy (m : Memory) : Slot D → Memory
  | .gone => m
  | .alternative a => m.destruct a.ids
  | .variant v => Variant.destroy m v
  | .json n => n.destroy m

/-- The payload of an object, or the object itself if it is an alternative. That has no
    number of its own; the one here stands for none. -/
def root : Slot D → Option (Node D)
  | .gone => none
  | .alternative a => some (0, a)
  | .variant v => v
  | .json n => some n

def get (path : List Key) (s : Slot D) : Option (Node D) := s.root.bind (Node.get path)

def modify (f : Node D → Node D) (path : List Key) : Slot D → Slot D
  | .gone => .gone
  | .alternative a => .alternative (Node.modify f path (0, a)).2
  | .variant v => .variant (v.map (Node.modify f path))
  | .json n => .json (Node.modify f path n)

/-- What is found at a place is a `Json`. -/
def IsJson : List Key → Slot D → Prop
  | _ :: _, _ => True
  | [], .json _ => True
  | [], _ => False

end Slot

/-! ## Programs -/

/-- The objects of a program, and its memory. -/
structure Objects (ι D : Type) where
  slot : ι → Slot D
  memory : Memory

/-- An object, or a `Json` inside one. -/
abbrev Place (ι : Type) := ι × List Key

namespace Objects

variable {ι : Type} [DecidableEq ι]

/-- There is nothing yet. -/
def initial : Objects ι D := ⟨fun _ => .gone, ⟨0, fun _ => 0⟩⟩

def get (p : Place ι) (w : Objects ι D) : Option (Node D) := (w.slot p.1).get p.2

/-- The value at a place. -/
def value (p : Place ι) (w : Objects ι D) : Option (Json D) := (w.get p).map fun n => n.2.value

def put (i : ι) (s : Slot D) (w : Objects ι D) : Objects ι D :=
  { w with slot := Function.update w.slot i s }

def modify (p : Place ι) (f : Node D → Node D) (w : Objects ι D) : Objects ι D :=
  w.put p.1 ((w.slot p.1).modify f p.2)

/-- The payload at a place was copied or moved. -/
def leave (fwd : Forward) (p : Place ι) (w : Objects ι D) : Objects ι D :=
  w.modify p fun n => (n.1, fwd.leave n.2)

def withMemory (m : Memory) (w : Objects ι D) : Objects ι D := { w with memory := m }

/-- The operations, with the objects they are about. -/
inductive Op (ι D : Type) where
  /-- A container, or another alternative, by itself. -/
  | alternative (i : ι) (j : Json D)
  /-- `Json()`. -/
  | default (i : ι)
  /-- `Json(str)`, `Json(b)` and `Json(nullptr)`. -/
  | literal (i : ι) (l : Literal)
  /-- `Json(args...)`, `Json(const Json &)` and `Json(Json &&)`. -/
  | json (i : ι) (fwd : Forward) (rhs : Place ι)
  /-- `Variant()`. -/
  | empty (i : ι)
  /-- `Variant(T &&)`, `Variant(const Variant &)` and `Variant(Variant &&)`. -/
  | variant (i : ι) (fwd : Forward) (rhs : Place ι)
  /-- `Json::operator=(T &&)`, for an alternative. -/
  | assign (self : Place ι) (fwd : Forward) (obj : Place ι)
  /-- `Json::operator=(T &&)`, for a `JsonValue`. -/
  | assignValue (self : Place ι) (fwd : Forward) (obj : ι)
  /-- `Json::operator=(const Json &)` and `Json::operator=(Json &&)`. -/
  | assignJson (self : Place ι) (fwd : Forward) (rhs : Place ι)
  /-- The other overloads of `Json::operator=`. -/
  | assignLiteral (self : Place ι) (l : Literal)
  /-- `Variant::operator=(T &&)`. -/
  | assignAlternative (self : ι) (fwd : Forward) (rhs : Place ι)
  /-- `Variant::operator=(const Variant &)` and `Variant::operator=(Variant &&)`. -/
  | assignVariant (self : ι) (fwd : Forward) (rhs : ι)
  /-- `operator[](index)` on a map. -/
  | subscript (p : Place ι) (index : Str)
  | destroy (i : ι)

/-- One place is another one, or a part of it. -/
def Within (p q : Place ι) : Prop := p.1 = q.1 ∧ q.2 <+: p.2

/-- One operation. Only what is there is operated on, and only what is not there is
    constructed. A variant without a payload is neither copied nor moved: `visit` does
    not return. No source is a part of its target; where the target is a part of the
    source, and this is moved from, the target goes with it. -/
inductive Step : Objects ι D → Op ι D → Objects ι D → Prop where
  | alternative (w : Objects ι D) (i : ι) (j : Json D) : w.slot i = .gone →
      Step w (.alternative i j)
        ((w.put i (.alternative (Payload.build w.memory.next j).1)).withMemory
          { w.memory with next := (Payload.build w.memory.next j).2 })
  | default (w : Objects ι D) (i : ι) : w.slot i = .gone →
      Step w (.default i)
        ((w.put i (.json (Variant.init w.memory .move (.object [])).2)).withMemory
          (Variant.init w.memory .move (.object [] : Payload D)).1)
  | literal (w : Objects ι D) (i : ι) (l : Literal) : w.slot i = .gone →
      Step w (.literal i l)
        ((w.put i (.json (Variant.init w.memory .move l.payload).2)).withMemory
          (Variant.init w.memory .move (l.payload : Payload D)).1)
  | json (w : Objects ι D) (i : ι) (fwd : Forward) (rhs : Place ι) (n : Node D) :
      w.slot i = .gone → w.get rhs = some n →
      Step w (.json i fwd rhs)
        (((w.put i (.json (Variant.init w.memory fwd n.2).2)).leave fwd rhs).withMemory
          (Variant.init w.memory fwd n.2).1)
  | empty (w : Objects ι D) (i : ι) : w.slot i = .gone →
      Step w (.empty i) (w.put i (.variant none))
  | variant (w : Objects ι D) (i : ι) (fwd : Forward) (rhs : Place ι) (n : Node D) :
      w.slot i = .gone → w.get rhs = some n →
      Step w (.variant i fwd rhs)
        (((w.put i (.variant (some (Variant.init w.memory fwd n.2).2))).leave fwd rhs).withMemory
          (Variant.init w.memory fwd n.2).1)
  | assign (w : Objects ι D) (p q : Place ι) (fwd : Forward) (self obj : Node D) :
      (w.slot p.1).IsJson p.2 → w.get p = some self → w.get q = some obj → ¬ Within q p →
      Step w (.assign p fwd q)
        (((w.modify p fun _ => (self.assign w.memory fwd obj.2).2).leave fwd q).withMemory
          (self.assign w.memory fwd obj.2).1)
  | assignValue (w : Objects ι D) (p : Place ι) (fwd : Forward) (i : ι) (self obj : Node D) :
      (w.slot p.1).IsJson p.2 → w.get p = some self → w.slot i = .variant (some obj) →
      Step w (.assignValue p fwd i)
        (((w.modify p fun _ => (self.assignValue w.memory fwd obj).2).leave fwd (i, [])).withMemory
          (self.assignValue w.memory fwd obj).1)
  | assignJson (w : Objects ι D) (p q : Place ι) (fwd : Forward) (self rhs : Node D) :
      (w.slot p.1).IsJson p.2 → w.get p = some self →
      (w.slot q.1).IsJson q.2 → w.get q = some rhs → ¬ Within q p →
      Step w (.assignJson p fwd q)
        (((w.modify p fun _ => (self.assignJson w.memory fwd rhs).2).leave fwd q).withMemory
          (self.assignJson w.memory fwd rhs).1)
  | assignSelf (w : Objects ι D) (p : Place ι) (fwd : Forward) (self : Node D) :
      (w.slot p.1).IsJson p.2 → w.get p = some self → Step w (.assignJson p fwd p) w
  | assignLiteral (w : Objects ι D) (p : Place ι) (l : Literal) (self : Node D) :
      (w.slot p.1).IsJson p.2 → w.get p = some self →
      Step w (.assignLiteral p l)
        ((w.modify p fun _ => (self.assignLiteral w.memory l).2).withMemory
          (self.assignLiteral w.memory l).1)
  | assignAlternative (w : Objects ι D) (i : ι) (v : Variant D) (fwd : Forward) (q : Place ι)
      (rhs : Node D) : w.slot i = .variant v → w.get q = some rhs → ¬ Within q (i, []) →
      Step w (.assignAlternative i fwd q)
        (((w.put i (.variant (some (Variant.assign w.memory v fwd rhs.2).2))).leave fwd
          q).withMemory (Variant.assign w.memory v fwd rhs.2).1)
  | assignVariant (w : Objects ι D) (i : ι) (v : Variant D) (fwd : Forward) (j : ι) (rhs : Node D) :
      i ≠ j → w.slot i = .variant v → w.slot j = .variant (some rhs) →
      Step w (.assignVariant i fwd j)
        (((w.put i (.variant (some (Variant.assignVariant w.memory v fwd rhs).2))).leave fwd
          (j, [])).withMemory (Variant.assignVariant w.memory v fwd rhs).1)
  | assignVariantSelf (w : Objects ι D) (i : ι) (v : Variant D) (fwd : Forward) :
      w.slot i = .variant v → Step w (.assignVariant i fwd i) w
  | subscript (w : Objects ι D) (p : Place ι) (index : Str) (id : Nat)
      (members : List (Str × Node D)) : w.get p = some (id, .object members) →
      SortedMap.lookup index members = none →
      Step w (.subscript p index)
        ((w.modify p fun _ => (id, .object (SortedMap.insert index
          (Variant.init w.memory .move (.object [])).2 members))).withMemory
          (Variant.init w.memory .move (.object [] : Payload D)).1)
  | subscriptFound (w : Objects ι D) (p : Place ι) (index : Str) (id : Nat)
      (members : List (Str × Node D)) (n : Node D) : w.get p = some (id, .object members) →
      SortedMap.lookup index members = some n → Step w (.subscript p index) w
  | destroy (w : Objects ι D) (i : ι) : w.slot i ≠ .gone →
      Step w (.destroy i) ((w.put i .gone).withMemory ((w.slot i).destroy w.memory))

end Objects

end Vsjson
