import Trpc.Core.Json

/-!
# Variants

`detail::Variant`, for any list of alternatives. The functions on types, which the
compiler runs, are functions on lists here; what is a type is left open, and of a type
there is what the code asks about it: its size, the type it decays to, and its objects.

A variant has the index of an alternative and a buffer. The index alone says as what the
buffer is to be read, so reading it as anything but what was put there is a fault. To
apply a visitor, the index has to be brought to a type: `RuntimeChoose` has an interval
of indices for template arguments, compares with the middle and goes on in one half or
the other. Where the interval does not get smaller that is a recursion without end, so
it is given fuel.

## Main definitions

* `ObjectTypes`: What the code asks about types.
* `Position`, `TypeAt`, `MaxSize`: The functions on types.
* `RuntimeChoose.apply`: The choice.
* `Variant`, `Variant.init`, `Variant.visit`, `Variant.get`, `Variant.is`: Variants.
* `JsonValue`: The variant of the JSON library.
-/

namespace Vsjson

namespace Detail

/-- What the code asks about types. -/
class ObjectTypes (τ : Type) where
  Object : τ → Type
  /-- `sizeof`. -/
  size : τ → Nat
  /-- `std::decay_t`. -/
  decay : τ → τ

open ObjectTypes

/-- Ways of leaving defined behaviour, or of not being a program. -/
inductive VariantFault where
  /-- The buffer is read as a type of which it holds no object. -/
  | otherType
  /-- The buffer is too small for an object put into it. -/
  | tooLarge
  /-- A template that does not exist, or a static assertion that does not hold. -/
  | illFormed
  /-- The fuel was used up. -/
  | fuel
deriving DecidableEq

/-! ## Functions on types -/

section

variable {τ : Type} [DecidableEq τ]

/-- `Position<T, Ts...>::pos`. -/
def Position (t : τ) : List τ → Int
  | [] => -1
  | u :: ts => if t = u then 0 else if Position t ts = -1 then -1 else Position t ts + 1

/-- `TypeAt<Pos, Ts...>::Type`. -/
def TypeAt : Nat → List τ → Option τ
  | _, [] => none
  | pos, t :: ts => if pos = 0 then some t else TypeAt (pos - 1) ts

/-- `MaxSize<Ts...>::size`. -/
def MaxSize [ObjectTypes τ] : List τ → Nat
  | [] => 0
  | [t] => size t
  | t :: ts => max (size t) (MaxSize ts)

/-! ## The choice -/

variable [ObjectTypes τ]

/-- What the buffer holds: an object of some type, or bytes. -/
abbrev Handle (τ : Type) [ObjectTypes τ] : Type := Option (Σ t : τ, Object t)

/-- `*reinterpret_cast<T*>(data)`. -/
def reinterpret (u : τ) : Handle τ → Except VariantFault (Object u)
  | some ⟨t, v⟩ => if h : t = u then .ok (h ▸ v) else .error .otherType
  | none => .error .otherType

/-- `RuntimeChoose<Lo, Hi, Ts...>::apply(n, data, visitor)`. -/
def RuntimeChoose.apply {R : Type} (Ts : List τ) (n : Int) (data : Handle τ)
    (visitor : (t : τ) → Object t → R) : Nat → Int → Int → Except VariantFault R
  | 0, _, _ => .error .fuel
  | fuel + 1, lo, hi =>
    let mid := lo + (hi - lo) >>> (1 : Nat)
    if mid = n then
      match TypeAt mid.toNat Ts with
      | some t => (visitor t) <$> reinterpret t data
      | none => .error .illFormed
    -- An interval of one index that is not `n` is not made smaller.
    else if mid > n then apply Ts n data visitor fuel lo (max (mid - 1) lo)
    else apply Ts n data visitor fuel (min (mid + 1) hi) hi

/-! ## Variants -/

/-- `Variant<Ts...>`. -/
structure Variant (Ts : List τ) where
  what : Int
  handle : Handle τ

namespace Variant

variable {Ts : List τ}

/-- `Variant()`. -/
def empty (Ts : List τ) : Variant Ts := ⟨-1, none⟩

/-- `init(T &&obj)`, where `T` may be a reference: the payload is of the type it decays
    to. What was in the buffer before is not looked at. -/
def init (T : τ) (obj : Object (decay T)) (_self : Variant Ts) :
    Except VariantFault (Variant Ts) :=
  if size (decay T) ≤ MaxSize Ts then
    .ok ⟨Position (decay T) Ts, some ⟨decay T, obj⟩⟩
  else .error .tooLarge

/-- `visit(visitor)`. -/
def visit {R : Type} (visitor : (t : τ) → Object t → R) (fuel : Nat) (self : Variant Ts) :
    Except VariantFault R :=
  RuntimeChoose.apply Ts self.what self.handle visitor fuel 0 ((Ts.length : Int) - 1)

/-- `is<T>()`. -/
def is (T : τ) (self : Variant Ts) : Bool := Position T Ts == self.what

/-- `get<T>()`. -/
def get (T : τ) (self : Variant Ts) : Except VariantFault (Except Exn (Object T)) :=
  if Position T Ts = -1 then .error .illFormed
  else if self.what = Position T Ts then .ok <$> reinterpret T self.handle
  else .ok (.error Json.cannotCast)

end Variant

end

end Detail

/-! ## JSON values -/

/-- The alternatives of a `JsonValue`. -/
inductive Alternative (D : Type) where
  | null
  | object
  | array
  | string
  | integer
  | decimal
  | boolean

namespace Alternative

variable {D : Type}

def number : Alternative D → Nat
  | .null => 0
  | .object => 1
  | .array => 2
  | .string => 3
  | .integer => 4
  | .decimal => 5
  | .boolean => 6

theorem number_injective (a b : Alternative D) (h : a.number = b.number) : a = b := by
  revert h
  cases a <;> cases b <;> simp [number]

instance : DecidableEq (Alternative D) :=
  fun a b => decidable_of_iff (a.number = b.number) ⟨number_injective a b, congrArg number⟩

/-- The sizes are those of the one platform that the library is for. -/
instance : Detail.ObjectTypes (Alternative D) where
  Object
    | .null => Unit
    | .object => List (Str × Json D)
    | .array => List (Json D)
    | .string => Str
    | .integer => Int32
    | .decimal => D
    | .boolean => Bool
  size
    | .null => 8
    | .object => 48
    | .array => 24
    | .string => 32
    | .integer => 4
    | .decimal => 8
    | .boolean => 1
  decay a := a

end Alternative

namespace JsonValue

/-- The alternatives, in their order. -/
def alternatives (D : Type) : List (Alternative D) :=
  [.null, .object, .array, .string, .integer, .decimal, .boolean]

end JsonValue

/-- `JsonValue`. -/
abbrev JsonValue (D : Type) : Type := Detail.Variant (JsonValue.alternatives D)

end Vsjson
