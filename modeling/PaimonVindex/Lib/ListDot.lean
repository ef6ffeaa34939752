import Mathlib.Algebra.BigOperators.Intervals
import Mathlib.Algebra.BigOperators.Ring.List
import Mathlib.Tactic.Ring

/-! Inner products and squared distances of lists, as sums over pairs, and how
they split over chunks of one width. -/

namespace ListDot

open List

section Chunks

variable {α β M : Type*} [AddCommMonoid M]

theorem foldl_add_eq_sum (f : α → M) (l : List α) (start : M) :
    l.foldl (fun sum x => sum + f x) start = start + (l.map f).sum := by
  induction l generalizing start with
  | nil => simp
  | cons x l ih => rw [foldl_cons, ih, map_cons, sum_cons, add_assoc]

/-- A term that is added to the first summand only. -/
theorem sum_range_add_first (f : Nat → M) (extra : M) {m : Nat} (hm : 0 < m) :
    ((List.range m).map fun i => if i = 0 then f i + extra else f i).sum =
      ((List.range m).map f).sum + extra := by
  obtain ⟨n, rfl⟩ := Nat.exists_eq_add_of_lt hm
  rw [Nat.zero_add, range_succ_eq_map, map_cons, map_cons, sum_cons,
    sum_cons, if_pos rfl, map_map, map_map, add_right_comm]
  rfl

theorem sum_zipWith_flatMap (f : α → β → M) {ι : Type*} (l : List ι) {g : ι → List α}
    {h : ι → List β} (hlen : ∀ i ∈ l, (g i).length = (h i).length) :
    (List.zipWith f (l.flatMap g) (l.flatMap h)).sum =
      (l.map fun i => (List.zipWith f (g i) (h i)).sum).sum := by
  induction l with
  | nil => rfl
  | cons i l ih =>
    have hrest := ih fun j hj => hlen j (mem_cons_of_mem _ hj)
    rw [flatMap_cons, flatMap_cons, zipWith_append (hlen i mem_cons_self),
      sum_append, map_cons, sum_cons, hrest]

theorem flatMap_chunks {x : List α} {m w : Nat} (hx : x.length = m * w) :
    ((List.range m).flatMap fun i => (x.drop (i * w)).take w) = x := by
  induction m generalizing x with
  | zero =>
    rw [Nat.zero_mul] at hx
    rw [length_eq_zero_iff.mp hx]
    rfl
  | succ m ih =>
    rw [Nat.succ_mul] at hx
    have hrest := @ih (x.drop w) (by rw [length_drop]; omega)
    have hshift : ∀ i, (i + 1) * w = w + i * w := fun i => by ring
    simp only [drop_drop] at hrest
    rw [range_succ_eq_map, flatMap_cons, flatMap_map]
    simp only [Nat.succ_eq_add_one, hshift, hrest, Nat.zero_mul, drop_zero]
    exact take_append_drop w x

/-- A sum over pairs with a vector that is put together from chunks. -/
theorem sum_zipWith_chunks (f : α → β → M) {x : List α} {g : Nat → List β} {m w : Nat}
    (hx : x.length = m * w) (hg : ∀ i < m, (g i).length = w) :
    (List.zipWith f x ((List.range m).flatMap g)).sum =
      ((List.range m).map fun i => (List.zipWith f ((x.drop (i * w)).take w) (g i)).sum).sum := by
  conv_lhs => rw [← flatMap_chunks hx]
  refine sum_zipWith_flatMap f _ fun i hi => ?_
  have hi := mem_range.mp hi
  have hle : (i + 1) * w ≤ m * w := Nat.mul_le_mul_right w hi
  rw [Nat.succ_mul] at hle
  rw [hg i hi, length_take, length_drop]
  omega

end Chunks

variable {R : Type*}

def dot [Mul R] [Add R] [Zero R] (x y : List R) : R := (List.zipWith (· * ·) x y).sum

def squaredDistance [Sub R] [Mul R] [Add R] [Zero R] (x y : List R) : R :=
  (List.zipWith (fun a b => (a - b) * (a - b)) x y).sum

section Ring

variable [CommRing R]

@[simp] theorem dot_cons (a b : R) (x y : List R) : dot (a :: x) (b :: y) = a * b + dot x y := by
  simp [dot]

@[simp] theorem squaredDistance_cons (a b : R) (x y : List R) :
    squaredDistance (a :: x) (b :: y) = (a - b) * (a - b) + squaredDistance x y := by
  simp [squaredDistance]

@[simp] theorem dot_nil (y : List R) : dot [] y = 0 := by simp [dot]

@[simp] theorem squaredDistance_nil (y : List R) : squaredDistance [] y = 0 := by
  simp [squaredDistance]

theorem squaredDistance_eq_dots {x y : List R} (h : x.length = y.length) :
    squaredDistance x y = dot x x + dot y y - 2 * dot x y := by
  induction x generalizing y with
  | nil =>
    cases y with
    | nil => simp
    | cons b y => cases h
  | cons a x ih =>
    cases y with
    | nil => cases h
    | cons b y =>
      have hrest := ih (Nat.succ.inj h)
      rw [squaredDistance_cons, dot_cons, dot_cons, dot_cons, hrest]
      ring

/-- A shift of one side is a shift of the other. -/
theorem squaredDistance_sub (x c y : List R) :
    squaredDistance (List.zipWith (· - ·) x c) y =
      squaredDistance x (List.zipWith (· + ·) c y) := by
  induction x generalizing c y with
  | nil => simp
  | cons a x ih =>
    cases c with
    | nil => simp [squaredDistance]
    | cons b c =>
      cases y with
      | nil => simp [squaredDistance]
      | cons z y =>
        rw [zipWith_cons_cons, zipWith_cons_cons, squaredDistance_cons,
          squaredDistance_cons, ih]
        ring

theorem squaredDistance_add {x c y : List R} (hc : x.length = c.length) (hy : x.length = y.length) :
    squaredDistance x (List.zipWith (· + ·) c y) =
      squaredDistance x c + (dot y y + 2 * dot c y - 2 * dot x y) := by
  induction x generalizing c y with
  | nil =>
    cases y with
    | nil =>
      cases c with
      | nil => simp
      | cons b c => cases hc
    | cons z y => cases hy
  | cons a x ih =>
    cases c with
    | nil => cases hc
    | cons b c =>
      cases y with
      | nil => cases hy
      | cons z y =>
        have hrest := ih (Nat.succ.inj hc) (Nat.succ.inj hy)
        rw [zipWith_cons_cons, squaredDistance_cons, squaredDistance_cons, dot_cons, dot_cons,
          dot_cons, hrest]
        ring

theorem dot_sub {x c y : List R} (h : x.length = c.length) :
    dot (List.zipWith (· - ·) x c) y = dot x y - dot c y := by
  induction x generalizing c y with
  | nil =>
    cases c with
    | nil => simp
    | cons b c => cases h
  | cons a x ih =>
    cases c with
    | nil => cases h
    | cons b c =>
      cases y with
      | nil => simp [dot]
      | cons z y =>
        have hrest := @ih c y (Nat.succ.inj h)
        rw [zipWith_cons_cons, dot_cons, dot_cons, dot_cons, hrest]
        ring

theorem dot_add {x c y : List R} (h : c.length = y.length) :
    dot x (List.zipWith (· + ·) c y) = dot x c + dot x y := by
  induction x generalizing c y with
  | nil => simp
  | cons a x ih =>
    cases c with
    | nil =>
      cases y with
      | nil => simp [dot]
      | cons z y => cases h
    | cons b c =>
      cases y with
      | nil => cases h
      | cons z y =>
        have hrest := @ih c y (Nat.succ.inj h)
        rw [zipWith_cons_cons, dot_cons, dot_cons, dot_cons, hrest]
        ring

theorem dot_comm (x y : List R) : dot x y = dot y x := by
  rw [dot, dot, zipWith_comm_of_comm fun a b => mul_comm a b]

end Ring

theorem squaredDistance_nonneg [CommRing R] [LinearOrder R] [IsStrictOrderedRing R] (x y : List R) :
    0 ≤ squaredDistance x y := by
  induction x generalizing y with
  | nil => simp
  | cons a x ih =>
    cases y with
    | nil => simp [squaredDistance]
    | cons b y =>
      rw [squaredDistance_cons]
      exact add_nonneg (mul_self_nonneg _) (ih y)

end ListDot
