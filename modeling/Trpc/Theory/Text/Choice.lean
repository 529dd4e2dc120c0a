import Trpc.Core.Variant
import Mathlib.Data.List.Nodup

/-!
# The Alternative that is Chosen

A variant remembers an index where the program remembers a type. `Position` goes from the
type to the index, `TypeAt` back, and the choice from the index to the code for the type,
by halving an interval. Here the three are shown to agree for every list of alternatives:
the interval always has the index in it and gets smaller, so the choice ends at it, in no
more steps than there are alternatives.

The alternatives of a JSON value are one such list. Their variant behaves as `Json` does.

## Main definitions

* `Variant.Holds`: A variant that holds an object.
* `Json.held`: What a JSON value holds.

## Theorems

* `typeAt_position`, `position_typeAt`: Types and indices.
* `apply_finds`: The choice.
* `init_spec`, `init_holds`: A variant holds what it was given.
* `init_accessors`: The accessors of `Json`.
-/

namespace Vsjson

namespace Detail

open ObjectTypes

/-! ## Types and indices -/

section

variable {τ : Type}

theorem typeAt_eq (pos : Nat) (Ts : List τ) : TypeAt pos Ts = Ts[pos]? := by
  induction Ts generalizing pos with
  | nil => rfl
  | cons t ts ih =>
      unfold TypeAt
      cases pos with
      | zero => rfl
      | succ pos =>
          rw [if_neg (Nat.succ_ne_zero pos), Nat.add_sub_cancel, ih pos]
          rfl

variable [DecidableEq τ]

/-- The position of a type is where it stands first. -/
theorem position_of_mem (t : τ) (Ts : List τ) (h : t ∈ Ts) :
    Position t Ts = (Ts.idxOf t : Int) := by
  induction Ts with
  | nil => exact absurd h List.not_mem_nil
  | cons u ts ih =>
      unfold Position
      by_cases heq : t = u
      · rw [if_pos heq, heq, List.idxOf_cons_self]
        rfl
      · -- It stands further on, and the position there counts one more.
        have hts : t ∈ ts := (List.mem_cons.mp h).resolve_left heq
        have hpos := ih hts
        rw [if_neg heq, if_neg (by omega), List.idxOf_cons_ne ts (Ne.symm heq), hpos]
        omega

theorem position_nonneg (t : τ) (Ts : List τ) (h : t ∈ Ts) : 0 ≤ Position t Ts := by
  rw [position_of_mem t Ts h]
  omega

theorem position_lt (t : τ) (Ts : List τ) (h : t ∈ Ts) : Position t Ts < Ts.length := by
  rw [position_of_mem t Ts h]
  exact Int.ofNat_lt.mpr (List.idxOf_lt_length_of_mem h)

/-- `TypeAt` of `Position` of a type is the type. -/
theorem typeAt_position (t : τ) (Ts : List τ) (h : t ∈ Ts) :
    TypeAt (Position t Ts).toNat Ts = some t := by
  rw [typeAt_eq, position_of_mem t Ts h, Int.toNat_natCast]
  exact List.getElem?_idxOf h

/-- Different types have different positions. -/
theorem position_injective (t u : τ) (Ts : List τ) (ht : t ∈ Ts) (hu : u ∈ Ts)
    (h : Position t Ts = Position u Ts) : t = u := by
  have htype := typeAt_position t Ts ht
  rw [h, typeAt_position u Ts hu] at htype
  exact (Option.some.inj htype).symm

end

section

variable {τ : Type} [ObjectTypes τ]

theorem size_le_maxSize (t : τ) (Ts : List τ) (h : t ∈ Ts) : size t ≤ MaxSize Ts := by
  induction Ts with
  | nil => exact absurd h List.not_mem_nil
  | cons u ts ih =>
      cases ts with
      | nil =>
          rw [List.mem_singleton.mp h]
          exact Nat.le_refl _
      | cons u' ts =>
          unfold MaxSize
          obtain rfl | hts := List.mem_cons.mp h
          · exact Nat.le_max_left _ _
          · exact Nat.le_trans (ih hts) (Nat.le_max_right _ _)

variable [DecidableEq τ]

theorem reinterpret_self (t : τ) (obj : Object t) :
    reinterpret t (some ⟨t, obj⟩) = .ok obj := by
  simp [reinterpret]

/-! ## The choice -/

/-- With the index inside the interval the choice comes to it, and the interval loses at
    least one index with every step. -/
theorem apply_finds {R : Type} (Ts : List τ) (n : Int) (data : Handle τ)
    (visitor : (t : τ) → Object t → R) (t : τ) (ht : TypeAt n.toNat Ts = some t) :
    ∀ (fuel : Nat) (lo hi : Int), lo ≤ n → n ≤ hi → hi - lo < fuel →
      RuntimeChoose.apply Ts n data visitor fuel lo hi = visitor t <$> reinterpret t data := by
  intro fuel
  induction fuel with
  | zero =>
      intro lo hi hlo hhi hfuel
      omega
  | succ fuel ih =>
      intro lo hi hlo hhi hfuel
      -- A shift by one is a division by two, also where it rounds.
      have hhalf : (hi - lo) >>> (1 : Nat) = (hi - lo) / 2 := Int.shiftRight_eq_div_pow _ 1
      unfold RuntimeChoose.apply
      simp only [hhalf]
      by_cases hmid : lo + (hi - lo) / 2 = n
      · rw [if_pos hmid, hmid, ht]
      · rw [if_neg hmid]
        by_cases hgt : lo + (hi - lo) / 2 > n
        · rw [if_pos hgt]
          -- The index is below the middle, so the clamp at `lo` does nothing.
          exact ih lo _ hlo (by omega) (by omega)
        · rw [if_neg hgt]
          -- It is above the middle, so neither does the one at `hi`.
          exact ih _ hi (by omega) hhi (by omega)

/-! ## Variants -/

/-- The variant holds an object of a type: it is found by its type and by visitors, and by
    no other type of the list. -/
structure Variant.Holds {Ts : List τ} (v : Variant Ts) (t : τ) (obj : Object t) : Prop where
  visits : ∀ (R : Type) (visitor : (t : τ) → Object t → R) (fuel : Nat), Ts.length ≤ fuel →
    v.visit visitor fuel = .ok (visitor t obj)
  gets : v.get t = .ok (.ok obj)
  is : v.is t = true
  others : ∀ u ∈ Ts, u ≠ t → v.is u = false ∧ v.get u = .ok (.error Json.cannotCast)

theorem holds_of_position (Ts : List τ) (t : τ) (ht : t ∈ Ts) (obj : Object t) :
    (⟨Position t Ts, some ⟨t, obj⟩⟩ : Variant Ts).Holds t obj := by
  have hnonneg := position_nonneg t Ts ht
  have hlt := position_lt t Ts ht
  constructor
  · intro R visitor fuel hfuel
    unfold Variant.visit
    rw [apply_finds Ts _ _ visitor t (typeAt_position t Ts ht) fuel 0 _ hnonneg (by omega)
      (by omega), reinterpret_self]
    rfl
  · unfold Variant.get
    -- The index is not negative, and it is that of the type.
    rw [if_neg (by omega), if_pos rfl, reinterpret_self]
    rfl
  · unfold Variant.is
    exact beq_self_eq_true _
  · intro u hu hne
    -- Another type of the list has another index.
    have hpos : Position t Ts ≠ Position u Ts :=
      fun heq => hne (position_injective t u Ts ht hu heq).symm
    have hunonneg := position_nonneg u Ts hu
    constructor
    · unfold Variant.is
      exact beq_eq_false_iff_ne.mpr (Ne.symm hpos)
    · unfold Variant.get
      rw [if_neg (by omega), if_neg hpos]

theorem init_spec (Ts : List τ) (T : τ) (hT : decay T ∈ Ts) (obj : Object (decay T))
    (self : Variant Ts) : ∃ v, self.init T obj = .ok v ∧ v.Holds (decay T) obj := by
  refine ⟨⟨Position (decay T) Ts, some ⟨decay T, obj⟩⟩, ?_, holds_of_position Ts _ hT obj⟩
  unfold Variant.init
  rw [if_pos (size_le_maxSize _ Ts hT)]

end

end Detail

/-! ## JSON values -/

open Detail

namespace Json

variable {D : Type}

/-- What a JSON value holds, and as what. -/
def held : Json D → Σ a : Alternative D, ObjectTypes.Object a
  | .null => ⟨.null, ()⟩
  | .object members => ⟨.object, members⟩
  | .array elems => ⟨.array, elems⟩
  | .string s => ⟨.string, s⟩
  | .integer i => ⟨.integer, i⟩
  | .decimal d => ⟨.decimal, d⟩
  | .boolean b => ⟨.boolean, b⟩

/-- The JSON value that holds an object. -/
def holding : (a : Alternative D) → ObjectTypes.Object a → Json D
  | .null, _ => .null
  | .object, members => .object members
  | .array, elems => .array elems
  | .string, s => .string s
  | .integer, i => .integer i
  | .decimal, d => .decimal d
  | .boolean, b => .boolean b

theorem holding_held (j : Json D) : holding j.held.1 j.held.2 = j := by
  cases j <;> rfl

/-- How a function of the variant returns what a function of `Json` does. -/
def returned {α : Type} : Res α → Except VariantFault (Except Exn α)
  | .ok a => .ok (.ok a)
  | .throw e => .ok (.error e)
  | .fault _ => .error .fuel

theorem mem_alternatives (a : Alternative D) : a ∈ JsonValue.alternatives D := by
  cases a <;> simp [JsonValue.alternatives]

/-- `getObject` is `get<ObjectImpl>()` of the variant inside. -/
theorem getObject_get (j : Json D) (v : JsonValue D) (h : v.Holds j.held.1 j.held.2) :
    v.get .object = returned j.getObject := by
  -- Whatever else is held is of another type, so `get` throws.
  have hother := h.others .object (mem_alternatives _)
  cases j with
  | object members => exact h.gets
  | null => exact (hother (by simp [held])).2
  | array elems => exact (hother (by simp [held])).2
  | string s => exact (hother (by simp [held])).2
  | integer i => exact (hother (by simp [held])).2
  | decimal d => exact (hother (by simp [held])).2
  | boolean b => exact (hother (by simp [held])).2

/-- `getArray` is `get<ArrayImpl>()` of the variant inside. -/
theorem getArray_get (j : Json D) (v : JsonValue D) (h : v.Holds j.held.1 j.held.2) :
    v.get .array = returned j.getArray := by
  have hother := h.others .array (mem_alternatives _)
  cases j with
  | array elems => exact h.gets
  | null => exact (hother (by simp [held])).2
  | object members => exact (hother (by simp [held])).2
  | string s => exact (hother (by simp [held])).2
  | integer i => exact (hother (by simp [held])).2
  | decimal d => exact (hother (by simp [held])).2
  | boolean b => exact (hother (by simp [held])).2

/-- `to<T>()` visits the variant inside with a visitor that knows the alternative. -/
theorem convert_visit [DecimalImpl D] (j : Json D) (v : JsonValue D) (T : Ty) (fuel : Nat)
    (h : v.Holds j.held.1 j.held.2) (hfuel : 7 ≤ fuel) :
    v.visit (fun a obj => (holding a obj).convert T) fuel = .ok (j.convert T) := by
  rw [h.visits _ _ fuel hfuel, holding_held]

/-- What is put into the variant of a `Json` is held by it. -/
theorem init_held (j : Json D) (self : JsonValue D) :
    ∃ v, self.init j.held.1 j.held.2 = .ok v ∧ v.Holds j.held.1 j.held.2 :=
  init_spec (JsonValue.alternatives D) j.held.1 (mem_alternatives _) j.held.2 self

/-- The variant inside a `Json` answers as the value does: once the value has been put into
    it, in whatever state it was, the accessors find what they find in the value and throw
    what they throw, and a visit converts what the value is. -/
theorem init_accessors [DecimalImpl D] (j : Json D) (self : JsonValue D) :
    ∃ v, self.init j.held.1 j.held.2 = .ok v ∧
      v.get .object = returned j.getObject ∧ v.get .array = returned j.getArray ∧
      ∀ (T : Ty) (fuel : Nat), 7 ≤ fuel →
        v.visit (fun a obj => (holding a obj).convert T) fuel = .ok (j.convert T) := by
  obtain ⟨v, hinit, hholds⟩ := init_held j self
  exact ⟨v, hinit, getObject_get j v hholds, getArray_get j v hholds,
    fun T fuel hfuel => convert_visit j v T fuel hholds hfuel⟩

/-- An array with a null in it, put where an integer was. -/
theorem init_accessors_array : ∃ v : JsonValue Unit,
    (⟨4, some ⟨.integer, (7 : Int32)⟩⟩ : JsonValue Unit).init .array [.null] = .ok v ∧
      v.get .object = .ok (.error cannotCast) ∧ v.get .array = .ok (.ok [.null]) ∧
      v.visit (fun a obj => (holding a obj).convert .int) 7
        = .ok ((Json.array [.null] : Json Unit).convert .int) := by
  obtain ⟨v, hinit, hobject, harray, hvisit⟩ :=
    init_accessors (D := Unit) (.array [.null]) ⟨4, some ⟨.integer, (7 : Int32)⟩⟩
  exact ⟨v, hinit, hobject, harray, hvisit .int 7 (le_refl 7)⟩

end Json

end Vsjson
