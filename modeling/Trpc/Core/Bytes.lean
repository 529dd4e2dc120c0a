import Mathlib.Data.List.Lex

/-!
# Bytes, Exceptions and Outcomes

The ground the rest of the model stands on: byte strings, the C library's
character classes, the exceptions the program throws, and the outcome of a
piece of code that may throw or may leave defined behaviour altogether.

A `std::string` is a list of bytes. `std::map<std::string, _>` compares its
keys through `char_traits<char>`, which is lexicographic over unsigned bytes,
and that is the order on lists of `UInt8` once `UInt8` is a linear order.

`Res` keeps three endings apart. A value and an exception are both things the
C++ code may legitimately produce; a `Fault` is not, and marks the step at
which the code reads or writes memory it does not own, or frees memory that it
has freed. Nothing in the model
recovers from a fault. `Fault.fuel` is the model's own: recursion is bounded
by a counter, and the theorems show that the counter given is never used up.

## Main definitions

* `Str`: A byte string.
* `Exn`: The exceptions thrown by the program.
* `Fault`: The ways of leaving defined behaviour.
* `Res`: A value, an exception, or a fault.
-/

instance UInt8.linearOrder : LinearOrder UInt8 where
  le_refl _ := UInt8.le_refl _
  le_trans _ _ _ := UInt8.le_trans
  le_antisymm _ _ := UInt8.le_antisymm
  le_total := UInt8.le_total
  lt_iff_le_not_ge a b := by
    simp only [UInt8.le_iff_toNat_le, UInt8.lt_iff_toNat_lt]
    omega
  toDecidableLE := inferInstance
  toDecidableEq := inferInstance
  toDecidableLT := inferInstance

/-- A byte string (`std::string`, or the bytes behind a `const char *`). -/
abbrev Str : Type := List UInt8

/-- The bytes of an ASCII literal of the source. -/
def text (s : String) : Str := s.toList.map fun c => c.toNat.toUInt8

namespace Ch

abbrev nul : UInt8 := 0
abbrev tab : UInt8 := 9
abbrev newline : UInt8 := 10
abbrev carriage : UInt8 := 13
abbrev space : UInt8 := 32
abbrev quote : UInt8 := 34
abbrev plus : UInt8 := 43
abbrev comma : UInt8 := 44
abbrev minus : UInt8 := 45
abbrev dot : UInt8 := 46
abbrev zero : UInt8 := 48
abbrev nine : UInt8 := 57
abbrev colon : UInt8 := 58
abbrev upperE : UInt8 := 69
abbrev lbracket : UInt8 := 91
abbrev backslash : UInt8 := 92
abbrev rbracket : UInt8 := 93
abbrev lowerE : UInt8 := 101
abbrev lowerF : UInt8 := 102
abbrev lowerN : UInt8 := 110
abbrev lowerT : UInt8 := 116
abbrev lbrace : UInt8 := 123
abbrev rbrace : UInt8 := 125

end Ch

/-- `isdigit` of the C locale. -/
def isdigit (ch : UInt8) : Bool := decide (Ch.zero ≤ ch) && decide (ch ≤ Ch.nine)

/-- The exceptions that reach a `catch` clause. All of them derive from
    `std::exception`; the two the server's `catch` chain singles out are told
    apart from the rest. -/
inductive Exn where
  /-- `vsjson::JsonException`. -/
  | json (what : String)
  /-- `trpc::detail::protocol::Exception`. -/
  | protocol (code : Int32) (message : Str)
  /-- Any other class derived from `std::exception`. -/
  | std (what : String)
  deriving DecidableEq

/-- The ways of leaving defined behaviour. -/
inductive Fault where
  /-- A byte past the end of the text or buffer was read. -/
  | overrun
  /-- `ExponentCache::pows` was read outside its 309 entries. -/
  | powIndex
  /-- More bytes were stored into a buffer than it holds. -/
  | overflow
  /-- Memory was freed a second time. -/
  | doubleFree
  /-- The model's recursion bound was used up. -/
  | fuel
  deriving DecidableEq

/-- How a piece of code ends. -/
inductive Res (α : Type) where
  | ok (a : α)
  | throw (e : Exn)
  | fault (f : Fault)
  deriving DecidableEq

namespace Res

variable {α β : Type}

/-- Sequencing: an exception or a fault skips the rest. -/
def bind : Res α → (α → Res β) → Res β
  | .ok a, f => f a
  | .throw e, _ => .throw e
  | .fault x, _ => .fault x

instance : Monad Res where
  pure := .ok
  bind := bind

@[simp] theorem pure_def (a : α) : (pure a : Res α) = .ok a := rfl
@[simp] theorem bind_def (r : Res α) (f : α → Res β) : r >>= f = r.bind f := rfl
@[simp] theorem ok_bind (a : α) (f : α → Res β) : (Res.ok a).bind f = f a := rfl
@[simp] theorem throw_bind (e : Exn) (f : α → Res β) : (Res.throw e : Res α).bind f = .throw e :=
  rfl
@[simp] theorem fault_bind (x : Fault) (f : α → Res β) :
    (Res.fault x : Res α).bind f = .fault x := rfl

theorem bind_assoc {γ : Type} (r : Res α) (f : α → Res β) (g : β → Res γ) :
    (r.bind f).bind g = r.bind fun a => (f a).bind g := by
  cases r <;> rfl

theorem bind_eq_ok (r : Res α) (f : α → Res β) (b : β) (h : r.bind f = .ok b) :
    ∃ a, r = .ok a ∧ f a = .ok b := by
  cases r with
  | ok a => exact ⟨a, rfl, h⟩
  | throw e => exact absurd h (by simp only [throw_bind, reduceCtorEq, not_false_eq_true])
  | fault x => exact absurd h (by simp only [fault_bind, reduceCtorEq, not_false_eq_true])

end Res
