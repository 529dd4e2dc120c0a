import Mathlib.Data.List.Basic
import Mathlib.Data.List.Flatten
import Mathlib.Data.List.Infix

/-!
# Length-Prefixed Frames

A stream cut into frames, each announced by a header of fixed width that says
how many items follow. A `Header` is any code of numbers below a bound by words
of one width, in both directions; nothing else about it is used.

A stream made of frames has only one way of being cut (`frames_prefix`): of two
such streams, one a prefix of the other, the frames of the first are the first
frames of the second. Everything a party concludes about its peer's frames from
the bytes it has seen rests on this.

`lengths` reads the headers off a stream that need not be made of frames at
all, the way a receiver does who trusts every one of them.

## Main definitions

* `Header`: A code of lengths by words of one width.
* `Header.frame`: A content behind its header.
* `Header.frames`: A list of contents as a stream.
* `Header.lengths`: The lengths that a receiver reads off a stream.
* `Header.first`: The first frame of a stream.

## Theorems

* `frames_prefix`: A stream of frames is cut in only one way.
* `lengths_frames`: The lengths read off a stream of frames.
* `lengths_prefix`: Reading on changes none of them.
-/

namespace Framing

/-- A code of the numbers below `bound` by words of length `width`. -/
structure Header (α : Type) where
  width : Nat
  bound : Nat
  encode : Nat → List α
  decode : List α → Nat
  width_pos : 0 < width
  length_encode : ∀ n, (encode n).length = width
  decode_encode : ∀ n, n < bound → decode (encode n) = n
  encode_decode : ∀ h, h.length = width → encode (decode h) = h
  decode_lt : ∀ h, h.length = width → decode h < bound

variable {α : Type} (H : Header α)

namespace Header

/-- A content behind its header. -/
def frame (x : List α) : List α := H.encode x.length ++ x

/-- A stream of frames. -/
def frames (xs : List (List α)) : List α := xs.flatMap H.frame

/-- A content that its header can announce. -/
def Fits (x : List α) : Prop := x.length < H.bound

@[simp] theorem frames_nil : H.frames [] = [] := rfl

@[simp] theorem frames_cons (x : List α) (xs : List (List α)) :
    H.frames (x :: xs) = H.frame x ++ H.frames xs := rfl

@[simp] theorem frames_append (xs ys : List (List α)) :
    H.frames (xs ++ ys) = H.frames xs ++ H.frames ys := List.flatMap_append

theorem frames_singleton (x : List α) : H.frames [x] = H.frame x := by
  rw [frames_cons, frames_nil, List.append_nil]

theorem length_frame (x : List α) : (H.frame x).length = H.width + x.length := by
  rw [frame, List.length_append, length_encode]

theorem frame_ne_nil (x : List α) : H.frame x ≠ [] := by
  intro h
  have hl := H.length_frame x
  rw [h, List.length_nil] at hl
  have := H.width_pos
  omega

/-- A header word followed by as many items as it says is a frame. -/
theorem frame_of_decode (h x : List α) (hh : h.length = H.width) (hx : x.length = H.decode h) :
    h ++ x = H.frame x := by
  rw [frame, hx, H.encode_decode h hh]

/-- Two streams that start with frames and agree as far as the first goes start
    with the same frame. -/
theorem frame_prefix (x y s u : List α) (hx : H.Fits x) (hy : H.Fits y)
    (h : H.frame x ++ s <+: H.frame y ++ u) : x = y ∧ s <+: u := by
  simp only [frame, List.append_assoc] at h
  -- The headers lie one over the other, so they announce the same length.
  have hwidth : H.encode x.length = H.encode y.length := by
    rcases h with ⟨r, hr⟩
    simp only [List.append_assoc] at hr
    exact (List.append_inj hr (by rw [length_encode, length_encode])).1
  have hlen : x.length = y.length := by
    rw [← H.decode_encode x.length hx, hwidth, H.decode_encode y.length hy]
  rw [hwidth, List.prefix_append_right_inj] at h
  rcases h with ⟨r, hr⟩
  rw [List.append_assoc] at hr
  rcases List.append_inj hr hlen with ⟨hxy, hsu⟩
  exact ⟨hxy, ⟨r, hsu⟩⟩

/-- A stream of frames is cut in only one way. -/
theorem frames_prefix (xs ys : List (List α)) (s : List α) (hx : ∀ x ∈ xs, H.Fits x)
    (hy : ∀ y ∈ ys, H.Fits y) (h : H.frames xs ++ s <+: H.frames ys) :
    ∃ zs, ys = xs ++ zs ∧ s <+: H.frames zs := by
  induction xs generalizing ys with
  | nil => exact ⟨ys, rfl, h⟩
  | cons x xs ih =>
      rcases List.forall_mem_cons.mp hx with ⟨hx0, hxs⟩
      rw [frames_cons, List.append_assoc] at h
      cases ys with
      | nil =>
          -- The second stream has no frame to begin with, and the first has one.
          rw [frames_nil, List.prefix_nil, List.append_eq_nil_iff] at h
          exact absurd h.1 (H.frame_ne_nil x)
      | cons y ys =>
          rcases List.forall_mem_cons.mp hy with ⟨hy0, hys⟩
          -- The first frames agree, so the induction goes on behind them.
          rw [frames_cons] at h
          rcases H.frame_prefix x y _ _ hx0 hy0 h with ⟨rfl, h'⟩
          rcases ih ys hxs hys h' with ⟨zs, rfl, hs⟩
          exact ⟨zs, rfl, hs⟩

/-- A stream of whole frames begins with another one only by beginning with its frames. -/
theorem prefix_of_frames (xs ys : List (List α)) (hx : ∀ x ∈ xs, H.Fits x)
    (hy : ∀ y ∈ ys, H.Fits y) (h : H.frames xs <+: H.frames ys) : xs <+: ys := by
  rw [← List.append_nil (H.frames xs)] at h
  rcases H.frames_prefix xs ys [] hx hy h with ⟨zs, rfl, _⟩
  exact List.prefix_append xs zs

/-- What stands behind a header at the start of a frame is in the frame. -/
theorem frame_head (h x z : List α) (hh : h.length = H.width) (hz : H.Fits z)
    (hp : h ++ x <+: H.frame z) : H.decode h = z.length ∧ x <+: z := by
  rcases hp with ⟨r, hr⟩
  rw [frame, List.append_assoc] at hr
  -- Headers are of one width, so the two lie one over the other.
  rcases List.append_inj hr (by rw [hh, length_encode]) with ⟨rfl, hx⟩
  exact ⟨H.decode_encode _ hz, ⟨r, hx⟩⟩

/-- The lengths announced along a stream, each header being believed. -/
def lengths (s : List α) : List Nat :=
  if _ : H.width ≤ s.length then
    H.decode (s.take H.width) :: lengths (s.drop (H.width + H.decode (s.take H.width)))
  else []
termination_by s.length
decreasing_by
  have := H.width_pos
  rw [List.length_drop]
  omega

theorem lengths_short (s : List α) (hs : s.length < H.width) : H.lengths s = [] := by
  rw [lengths, dif_neg (by omega)]

theorem lengths_header (h s : List α) (hh : h.length = H.width) :
    H.lengths (h ++ s) = H.decode h :: H.lengths (s.drop (H.decode h)) := by
  rw [lengths, dif_pos (by rw [List.length_append]; omega), ← hh, List.take_left,
    ← List.drop_drop, List.drop_left]

theorem lengths_frame (x s : List α) (hx : H.Fits x) :
    H.lengths (H.frame x ++ s) = x.length :: H.lengths s := by
  rw [frame, List.append_assoc, H.lengths_header _ _ (H.length_encode _),
    H.decode_encode _ hx, List.drop_left]

/-- The lengths read off a stream that starts with frames. -/
theorem lengths_frames (xs : List (List α)) (s : List α) (hx : ∀ x ∈ xs, H.Fits x) :
    H.lengths (H.frames xs ++ s) = xs.map List.length ++ H.lengths s := by
  induction xs with
  | nil => rfl
  | cons x xs ih =>
      rcases List.forall_mem_cons.mp hx with ⟨hx0, hxs⟩
      rw [frames_cons, List.append_assoc, H.lengths_frame x _ hx0, ih hxs, List.map_cons,
        List.cons_append]

/-- Reading on, the lengths read so far stay. -/
theorem lengths_prefix (n : Nat) :
    ∀ s u : List α, s.length ≤ n → s <+: u → H.lengths s <+: H.lengths u := by
  induction n with
  | zero =>
      intro s u hn _
      rw [H.lengths_short s (by have := H.width_pos; omega)]
      exact List.nil_prefix
  | succ n ih =>
      rintro s u hn ⟨v, rfl⟩
      by_cases hs : H.width ≤ s.length
      · -- There is a whole header in both, and it is the same.
        have hsplit := List.take_append_drop H.width s
        have hh : (s.take H.width).length = H.width := by
          rw [List.length_take, Nat.min_eq_left hs]
        have hpos := H.width_pos
        rw [← hsplit, List.append_assoc, H.lengths_header _ _ hh, H.lengths_header _ _ hh,
          List.prefix_cons_inj]
        refine ih _ _ ?_ (List.IsPrefix.drop (List.prefix_append _ v) _)
        rw [List.length_drop, List.length_drop]
        omega
      · -- Not even a header is there yet.
        rw [H.lengths_short s (by omega)]
        exact List.nil_prefix

/-- The first frame of a stream, if it is there in whole, and what follows it. -/
def first (s : List α) : Option (List α × List α) :=
  if s.length < H.width then none
  else
    let n := H.decode (s.take H.width)
    let rest := s.drop H.width
    if rest.length < n then none else some (rest.take n, rest.drop n)

theorem first_short (s : List α) (h : s.length < H.width) : H.first s = none := if_pos h

theorem first_header (h s : List α) (hh : h.length = H.width) :
    H.first (h ++ s) =
      if s.length < H.decode h then none
      else some (s.take (H.decode h), s.drop (H.decode h)) := by
  have hle : ¬ (h ++ s).length < H.width := by
    rw [List.length_append]
    omega
  rw [first, if_neg hle, ← hh, List.take_left, List.drop_left]

theorem first_frame (x s : List α) (hx : H.Fits x) : H.first (H.frame x ++ s) = some (x, s) := by
  rw [frame, List.append_assoc, H.first_header _ _ (H.length_encode _), H.decode_encode _ hx,
    if_neg (by rw [List.length_append]; omega), List.take_left, List.drop_left]

/-- What comes behind a whole frame leaves it as it is. -/
theorem first_append (s u x rest : List α) (h : H.first s = some (x, rest)) :
    H.first (s ++ u) = some (x, rest ++ u) := by
  by_cases hs : s.length < H.width
  · rw [H.first_short s hs] at h
    cases h
  · -- The header is there, so what it announces does not change.
    have hh : (s.take H.width).length = H.width := by
      rw [List.length_take]
      omega
    rw [← List.take_append_drop H.width s, List.append_assoc, H.first_header _ _ hh]
    rw [← List.take_append_drop H.width s, H.first_header _ _ hh] at h
    by_cases hn : (s.drop H.width).length < H.decode (s.take H.width)
    · rw [if_pos hn] at h
      cases h
    · rw [if_neg hn] at h
      cases h
      rw [if_neg (by rw [List.length_append]; omega), List.take_append_of_le_length (by omega),
        List.drop_append_of_le_length (by omega)]

end Header

end Framing
