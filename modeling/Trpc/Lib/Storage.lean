import Mathlib.Logic.Basic

/-!
# Byte Memory

A memory of bytes under addresses of 64 bits, which wrap around, and words of eight
bytes in it, little end first. A word lies at any address, aligned or not.

Two words do not touch each other if each address is eight or more behind the other,
around the end of the memory if need be. What a program has written is best kept as a
list of words and their places; a load from elsewhere is not affected by it.

## Main definitions

* `load`, `store`, `writes`: Words in memory.
* `fill`: A stretch of memory set to one byte.
* `Apart`: Two words that do not touch each other.
* `Within`: An address in a stretch of memory.

## Theorems

* `load_store`: What was stored is there.
* `load_store_apart`: Other words stay.
* `load_congr`: A load looks at eight bytes.
* `writes_outside`: Nothing is written but to the places in the list.
* `load_writes_mem`: There it is written.
-/

namespace Storage

abbrev Byte := BitVec 8

abbrev Word := BitVec 64

abbrev Memory := Word → Byte

/-- The word at `a`. -/
def load (m : Memory) (a : Word) : Word :=
  m (a + 7#64) ++ m (a + 6#64) ++ m (a + 5#64) ++ m (a + 4#64) ++ m (a + 3#64) ++ m (a + 2#64) ++
    m (a + 1#64) ++ m a

/-- The word `v` put at `a`. -/
def store (m : Memory) (a v : Word) : Memory := fun x =>
  if (x - a).toNat < 8 then v.extractLsb' (8 * (x - a).toNat) 8 else m x

/-- Words put at their places, one after the other. -/
def writes (m : Memory) (l : List (Word × Word)) : Memory :=
  l.foldl (fun m w => store m w.1 w.2) m

/-- The bytes from `a` on, `size` of them, set to `b`. -/
def fill (m : Memory) (a : Word) (size : Nat) (b : Byte) : Memory := fun x =>
  if (x - a).toNat < size then b else m x

/-- Words at `a` and at `b` have no byte in common. -/
def Apart (a b : Word) : Prop := 8 ≤ (b - a).toNat ∧ 8 ≤ (a - b).toNat

theorem Apart.symm {a b : Word} (h : Apart a b) : Apart b a := ⟨h.2, h.1⟩

theorem apart_add (a d e : Word) (h : Apart d e) : Apart (a + d) (a + e) := by
  unfold Apart at *
  bv_omega

/-- The address `a` is one of the `size` from `start` on, which do not wrap around. -/
def Within (start size : Nat) (a : Word) : Prop := start ≤ a.toNat ∧ a.toNat < start + size

theorem store_outside (m : Memory) (a v x : Word) (h : 8 ≤ (x - a).toNat) :
    store m a v x = m x := by
  unfold store
  rw [if_neg (by omega)]

theorem load_congr (m m' : Memory) (a : Word)
    (h : ∀ x, (x - a).toNat < 8 → m' x = m x) : load m' a = load m a := by
  unfold load
  rw [h (a + 7#64) (by bv_omega), h (a + 6#64) (by bv_omega), h (a + 5#64) (by bv_omega),
    h (a + 4#64) (by bv_omega), h (a + 3#64) (by bv_omega), h (a + 2#64) (by bv_omega),
    h (a + 1#64) (by bv_omega), h a (by bv_omega)]

/-- The bytes of a word, put together again. -/
theorem extract_append (v : Word) :
    v.extractLsb' 56 8 ++ v.extractLsb' 48 8 ++ v.extractLsb' 40 8 ++ v.extractLsb' 32 8 ++
      v.extractLsb' 24 8 ++ v.extractLsb' 16 8 ++ v.extractLsb' 8 8 ++ v.extractLsb' 0 8 = v := by
  ext i hi
  simp only [BitVec.getElem_append, BitVec.getElem_extractLsb']
  refine Eq.trans ?_ (BitVec.getLsbD_eq_getElem hi)
  -- Bit `i` of the chain is a bit of one of the eight bytes, at the place it had in `v`.
  repeat' split
  all_goals exact congrArg v.getLsbD (by omega)

theorem load_store (m : Memory) (a v : Word) : load (store m a v) a = v := by
  have hbyte : ∀ n : Nat, n < 8 →
      store m a v (a + BitVec.ofNat 64 n) = v.extractLsb' (8 * n) 8 := by
    intro n hn
    -- The `n`-th byte lies at distance `n`, which does not wrap around.
    have hoffset : (a + BitVec.ofNat 64 n - a).toNat = n := by bv_omega
    unfold store
    rw [hoffset, if_pos hn]
  have h0 := hbyte 0 (by omega)
  rw [BitVec.add_zero] at h0
  unfold load
  rw [hbyte 7 (by omega), hbyte 6 (by omega), hbyte 5 (by omega), hbyte 4 (by omega),
    hbyte 3 (by omega), hbyte 2 (by omega), hbyte 1 (by omega), h0]
  exact extract_append v

theorem load_store_apart (m : Memory) (a b v : Word) (h : Apart a b) :
    load (store m a v) b = load m b := by
  -- No byte of the word at `b` is near `a`, from either side.
  obtain ⟨hab, hba⟩ := h
  apply load_congr
  intro x hx
  exact store_outside m a v x (by bv_omega)

@[simp] theorem writes_nil (m : Memory) : writes m [] = m := rfl

@[simp] theorem writes_cons (m : Memory) (w : Word × Word) (l : List (Word × Word)) :
    writes m (w :: l) = writes (store m w.1 w.2) l := rfl

/-- Nothing is written but to the places in the list. -/
theorem writes_outside (m : Memory) (l : List (Word × Word)) (x : Word)
    (h : ∀ w ∈ l, 8 ≤ (x - w.1).toNat) : writes m l x = m x := by
  induction l generalizing m with
  | nil => rfl
  | cons w l ih =>
      rw [writes_cons, ih _ fun u hu => h u (List.mem_cons_of_mem w hu)]
      exact store_outside m w.1 w.2 x (h w List.mem_cons_self)

theorem load_writes_apart (m : Memory) (l : List (Word × Word)) (b : Word)
    (h : ∀ w ∈ l, Apart w.1 b) : load (writes m l) b = load m b := by
  induction l generalizing m with
  | nil => rfl
  | cons w l ih =>
      rw [writes_cons, ih _ fun u hu => h u (List.mem_cons_of_mem w hu)]
      exact load_store_apart m w.1 b w.2 (h w List.mem_cons_self)

/-- Every word of the list is there in the end if no two of them touch each other. -/
theorem load_writes_mem (m : Memory) (l : List (Word × Word)) (b v : Word)
    (hl : l.Pairwise fun w u => Apart w.1 u.1) (h : (b, v) ∈ l) : load (writes m l) b = v := by
  induction l generalizing m with
  | nil => exact absurd h List.not_mem_nil
  | cons w l ih =>
      rw [List.pairwise_cons] at hl
      rw [writes_cons]
      rcases List.mem_cons.mp h with rfl | h
      · -- Those that come later are elsewhere.
        rw [load_writes_apart _ l b fun u hu => (hl.1 u hu).symm]
        exact load_store m b v
      · exact ih _ hl.2 h

theorem fill_outside (m : Memory) (a x : Word) (size : Nat) (b : Byte)
    (h : size ≤ (x - a).toNat) : fill m a size b x = m x := by
  unfold fill
  rw [if_neg (by omega)]

end Storage
