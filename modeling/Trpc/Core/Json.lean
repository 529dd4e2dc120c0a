import Trpc.Core.Bytes
import Trpc.Lib.SortedMap

/-!
# JSON Values

The value type of the JSON library: one constructor per alternative of
`JsonValue`, and the accessors of `Json` that the RPC code uses. Values are
modelled by what they hold.

The assignment of a `Json` to a `Json` destroys the payload of its target twice,
once in `~Json` and once in the assignment of the variant, before it puts the new
one in place. If the payload owns memory on the heap, that is freed twice, which
is the fault `doubleFree`. Otherwise the second destructor has nothing to do, and
the assignment replaces the value. `Core.Payload` has the destructors one by one.

An object is the listing of its `std::map` in key order. The accessors go
through `Variant::get`, which throws `std::runtime_error("cannot cast")` when
the value holds another alternative, so each of them is partial in the
exception sense. The non-const `operator[]` on an object inserts a default
`Json`, which is an empty object, under a missing key; `subscript` returns the
element together with the object as the call leaves it.

`double` is a parameter. The parser computes decimals with `+`, `*` and a
table of powers, the printer hands them to an `ostream`, and the visitor
converts them to `int` and `bool`; `DecimalImpl` lists those operations and
nothing is assumed about them.

`Ty` lists the types a value is converted to, as a call's result or as a
parameter of a bound function. `convert` is `to<T>()`: the visitor compiles to
the implicit conversion of the alternative when there is one and to a throw
when there is none.

## Main definitions

* `DecimalImpl`: The operations the program performs on `double`.
* `Json`: A JSON value.
* `Json.ownsHeap`: The payloads whose destructor frees memory.
* `Json.contains`, `Json.subscript`, `Json.assign`: Object access.
* `Json.arraySize`, `Json.append`: Array access.
* `Ty`, `Ty.denote`: The types values are converted to.
* `Json.convert`: `to<T>()`.
* `Json.Wf`: Every object lists its keys in order.
-/

/-- The operations on `double` that the program uses. -/
class DecimalImpl (D : Type) where
  zero : D
  one : D
  /-- The literal `0.1`. -/
  tenth : D
  add : D → D → D
  mul : D → D → D
  div : D → D → D
  neg : D → D
  ofInt : Int32 → D
  /-- `std::pow(10, i)`. -/
  pow10 : Nat → D
  toInt : D → Int32
  toBool : D → Bool
  /-- What `os << d` writes. -/
  print : D → Str

/-- The arithmetic with one number, enough for texts without decimals. -/
instance : DecimalImpl Unit where
  zero := ()
  one := ()
  tenth := ()
  add _ _ := ()
  mul _ _ := ()
  div _ _ := ()
  neg _ := ()
  ofInt _ := ()
  pow10 _ := ()
  toInt _ := 0
  toBool _ := false
  print _ := [Ch.zero]

namespace Vsjson

/-- A JSON value. -/
inductive Json (D : Type) where
  | null
  | object (members : List (Str × Json D))
  | array (elems : List (Json D))
  | string (s : Str)
  | integer (i : Int32)
  | decimal (d : D)
  | boolean (b : Bool)

variable {D : Type}

namespace Json

mutual

/-- Equality of values as a test. -/
def beq [DecidableEq D] : Json D → Json D → Bool
  | .null, .null => true
  | .object m, .object m' => beqMembers m m'
  | .array a, .array a' => beqElems a a'
  | .string s, .string s' => s == s'
  | .integer i, .integer i' => i == i'
  | .decimal d, .decimal d' => d == d'
  | .boolean b, .boolean b' => b == b'
  | _, _ => false

def beqElems [DecidableEq D] : List (Json D) → List (Json D) → Bool
  | [], [] => true
  | j :: js, j' :: js' => beq j j' && beqElems js js'
  | _, _ => false

def beqMembers [DecidableEq D] : List (Str × Json D) → List (Str × Json D) → Bool
  | [], [] => true
  | (k, j) :: ms, (k', j') :: ms' => k == k' && (beq j j' && beqMembers ms ms')
  | _, _ => false

end

mutual

theorem beq_iff [DecidableEq D] : ∀ a b : Json D, beq a b = true ↔ a = b
  | .null, b => by cases b <;> simp [beq]
  | .object m, b => by cases b <;> simp [beq, beqMembers_iff m]
  | .array a, b => by cases b <;> simp [beq, beqElems_iff a]
  | .string s, b => by cases b <;> simp [beq]
  | .integer i, b => by cases b <;> simp [beq]
  | .decimal d, b => by cases b <;> simp [beq]
  | .boolean c, b => by cases b <;> simp [beq]

theorem beqElems_iff [DecidableEq D] : ∀ a b : List (Json D), beqElems a b = true ↔ a = b
  | [], b => by cases b <;> simp [beqElems]
  | j :: js, b => by cases b <;> simp [beqElems, beq_iff j, beqElems_iff js]

theorem beqMembers_iff [DecidableEq D] :
    ∀ a b : List (Str × Json D), beqMembers a b = true ↔ a = b
  | [], b => by cases b <;> simp [beqMembers]
  | (k, j) :: ms, b => by
      cases b <;> simp [beqMembers, beq_iff j, beqMembers_iff ms, Prod.ext_iff, and_assoc]

end

instance [DecidableEq D] : DecidableEq (Json D) := fun a b => decidable_of_iff _ (beq_iff a b)

/-- What `Variant::get` throws on the wrong alternative. -/
def cannotCast : Exn := .std "cannot cast"

/-- `get<ObjectImpl>()`. -/
def getObject : Json D → Res (List (Str × Json D))
  | .object members => .ok members
  | _ => .throw cannotCast

/-- `get<ArrayImpl>()`. -/
def getArray : Json D → Res (List (Json D))
  | .array elems => .ok elems
  | _ => .throw cannotCast

/-- `contains(index)`. -/
def contains (j : Json D) (index : Str) : Res Bool := do
  let members ← j.getObject
  return (SortedMap.lookup index members).isSome

/-- `operator[](index)` on a non-const object: the element, and the object with
    the element in place. -/
def subscript (j : Json D) (index : Str) : Res (Json D × Json D) := do
  let members ← j.getObject
  match SortedMap.lookup index members with
  | some v => return (v, j)
  -- A default `Json` is an empty object, not null.
  | none => return (.object [], .object (SortedMap.insert index (.object []) members))

/-- Whether the destructor of the payload frees memory. A `std::string` of up to
    15 bytes stands in the object itself, and an empty map or vector has no memory
    of its own. -/
def ownsHeap : Json D → Bool
  | .object members => !members.isEmpty
  | .array elems => !elems.isEmpty
  | .string s => decide (15 < s.length)
  | _ => false

/-- `members[index] = v`, through `Json::operator=(Json &&)`. A new member is a
    default `Json` first, so it owns nothing. -/
def assignMember (index : Str) (v : Json D) (members : List (Str × Json D)) :
    Res (List (Str × Json D)) :=
  if ((SortedMap.lookup index members).getD (.object [])).ownsHeap then .fault .doubleFree
  else .ok (SortedMap.insert index v members)

/-- A member under a new name. -/
theorem assignMember_new (index : Str) (v : Json D) (members : List (Str × Json D))
    (h : SortedMap.lookup index members = none) :
    assignMember index v members = .ok (SortedMap.insert index v members) := by
  rw [assignMember, h]
  rfl

/-- If the assignment comes to an end, the member is there. -/
theorem assignMember_ok (index : Str) (v : Json D) (members members' : List (Str × Json D))
    (h : assignMember index v members = .ok members') :
    members' = SortedMap.insert index v members := by
  unfold assignMember at h
  split at h
  · cases h
  · cases h
    rfl

/-- `j[index] = v`. -/
def assign (j : Json D) (index : Str) (v : Json D) : Res (Json D) := do
  let members ← j.getObject
  let members ← assignMember index v members
  return .object members

/-- The object, when the element under `index` has become `v` through a reference
    to it. The assignment of a string destroys the payload only once. -/
def put (j : Json D) (index : Str) (v : Json D) : Res (Json D) := do
  let members ← j.getObject
  return .object (SortedMap.insert index v members)

/-- `as<ObjectImpl>().erase(index)`. -/
def erase (j : Json D) (index : Str) : Res (Json D) := do
  let members ← j.getObject
  return .object (SortedMap.erase index members)

/-- `arraySize()`. -/
def arraySize (j : Json D) : Res Nat := do
  let elems ← j.getArray
  return elems.length

/-- `append(json)`. -/
def append (j : Json D) (e : Json D) : Res (Json D) := do
  let elems ← j.getArray
  return .array (elems ++ [e])

/-- The name of the alternative a value holds, as `typeid(obj)` tells it. -/
def typeName : Json D → String
  | .null => "Null"
  | .object _ => "ObjectImpl"
  | .array _ => "ArrayImpl"
  | .string _ => "FormatString"
  | .integer _ => "int"
  | .decimal _ => "double"
  | .boolean _ => "Boolean"

end Json

/-- The types a JSON value is converted to. -/
inductive Ty where
  | int
  | double
  | bool
  | string
  | json
  deriving DecidableEq

namespace Ty

/-- The values of a type. -/
def denote (D : Type) : Ty → Type
  | .int => Int32
  | .double => D
  | .bool => Bool
  | .string => Str
  | .json => Json D

/-- The name of a type, as `typeid(U)` tells it. -/
def name : Ty → String
  | .int => "int"
  | .double => "double"
  | .bool => "bool"
  | .string => "std::string"
  | .json => "Json"

/-- The `Json` constructor taken by a value of the type. -/
def toJson : (T : Ty) → T.denote D → Json D
  | .int, i => .integer i
  | .double, d => .decimal d
  | .bool, b => .boolean b
  | .string, s => .string s
  | .json, j => j

end Ty

namespace Json

/-- The conversion `visitor` names in what it throws when no implicit
    conversion exists. -/
def cannotConvert (visitor : String) (j : Json D) (T : Ty) : Exn :=
  .std ("[type]" ++ j.typeName ++ visitor ++ T.name)

/-- `bool` to `int`. -/
def ofBool (b : Bool) : Int32 := if b then 1 else 0

/-- The implicit conversion of the alternative held to `T`, if there is one. A null
    becomes a `nullptr_t`, which becomes `false`. -/
def implicitly [DecimalImpl D] : (T : Ty) → Json D → Option (T.denote D)
  | .json, j => some j
  | .string, .string s => some s
  | .int, .integer i => some i
  | .int, .decimal d => some (DecimalImpl.toInt d)
  | .int, .boolean b => some (ofBool b)
  | .double, .integer i => some (DecimalImpl.ofInt i : D)
  | .double, .decimal d => some d
  | .double, .boolean b => some (DecimalImpl.ofInt (ofBool b) : D)
  | .bool, .null => some false
  | .bool, .integer i => some (i != 0)
  | .bool, .decimal d => some (DecimalImpl.toBool d)
  | .bool, .boolean b => some b
  | _, _ => none

/-- `to<T>()` on an lvalue, through `ConvertVisitor`. -/
def convert [DecimalImpl D] (T : Ty) (j : Json D) : Res (T.denote D) :=
  match implicitly T j with
  | some v => .ok v
  | none => .throw (cannotConvert " does not support convert to [type]" j T)

/-- `std::move(j).to<T>()`, through `MovedConvertVisitor`. -/
def movedConvert [DecimalImpl D] (T : Ty) (j : Json D) : Res (T.denote D) :=
  match implicitly T j with
  | some v => .ok v
  | none => .throw (cannotConvert " does not support moved convert to [type]" j T)

/-- Converting back what a type's `Json` constructor made gives the value. -/
theorem implicitly_toJson [DecimalImpl D] (T : Ty) (v : T.denote D) :
    implicitly T (T.toJson v) = some v := by
  cases T <;> rfl

theorem convert_toJson [DecimalImpl D] (T : Ty) (v : T.denote D) :
    convert T (T.toJson v) = .ok v := by
  simp only [convert, implicitly_toJson]

theorem movedConvert_toJson [DecimalImpl D] (T : Ty) (v : T.denote D) :
    movedConvert T (T.toJson v) = .ok v := by
  simp only [movedConvert, implicitly_toJson]

mutual

/-- Every object inside lists its keys in strictly increasing order, as a
    `std::map` does. -/
def Wf : Json D → Prop
  | .object members => SortedMap.Sorted members ∧ WfMembers members
  | .array elems => WfElems elems
  | _ => True

def WfElems : List (Json D) → Prop
  | [] => True
  | j :: js => Wf j ∧ WfElems js

def WfMembers : List (Str × Json D) → Prop
  | [] => True
  | (_, j) :: ms => Wf j ∧ WfMembers ms

end

end Json

end Vsjson
