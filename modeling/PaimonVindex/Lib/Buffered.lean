import Mathlib.Data.List.Basic

/-! A sink behind a buffer of bounded size: what is pushed piece by piece reaches
the sink in order, whatever the bound. -/

namespace Buffered

open List

variable {α : Type} {limit : Nat}

/-- A buffer that is written out as soon as it is full. -/
structure Buffer (α : Type) (limit : Nat) where
  items : List α
  room : items.length < limit

def Buffer.empty (hlimit : 0 < limit) : Buffer α limit := ⟨[], hlimit⟩

/-- Fills the buffer from `rest`, writing it out whenever it is full. -/
def push (hlimit : 0 < limit) (sink : List α) (buffer : Buffer α limit) (rest : List α) :
    List α × Buffer α limit :=
  if _ : rest = [] then (sink, buffer)
  else
    let len := min (limit - buffer.items.length) rest.length
    if _ : (buffer.items ++ rest.take len).length = limit then
      push hlimit (sink ++ (buffer.items ++ rest.take len)) (.empty hlimit) (rest.drop len)
    else
      push hlimit sink ⟨buffer.items ++ rest.take len, by
        have hroom := buffer.room
        simp only [length_append, length_take] at *
        omega⟩ (rest.drop len)
termination_by rest.length
decreasing_by
  all_goals
    have hroom := buffer.room
    have hpos := length_pos_of_ne_nil ‹rest ≠ []›
    rw [length_drop]
    omega

theorem push_append (hlimit : 0 < limit) (sink : List α) (buffer : Buffer α limit)
    (rest : List α) : (push hlimit sink buffer rest).1 ++ (push hlimit sink buffer rest).2.items =
      sink ++ buffer.items ++ rest := by
  fun_induction push hlimit sink buffer rest with
  | case1 sink buffer => simp
  | case2 sink buffer rest hrest len hfull ih =>
    rw [ih, Buffer.empty, append_nil, append_assoc, append_assoc,
      take_append_drop, ← append_assoc]
  | case3 sink buffer rest hrest len hfull ih =>
    rw [ih, append_assoc, append_assoc, take_append_drop, ← append_assoc]

def pushAll (hlimit : 0 < limit) (sink : List α) (pieces : List (List α)) :
    List α × Buffer α limit :=
  pieces.foldl (fun state piece => push hlimit state.1 state.2 piece) (sink, .empty hlimit)

def finish (state : List α × Buffer α limit) : List α :=
  if state.2.items = [] then state.1 else state.1 ++ state.2.items

theorem finish_eq_append (state : List α × Buffer α limit) :
    finish state = state.1 ++ state.2.items := by
  rw [finish]
  by_cases hempty : state.2.items = []
  · rw [if_pos hempty, hempty, append_nil]
  · rw [if_neg hempty]

theorem finish_pushAll (hlimit : 0 < limit) (sink : List α) (pieces : List (List α)) :
    finish (pushAll hlimit sink pieces) = sink ++ pieces.flatten := by
  have hfold : ∀ state : List α × Buffer α limit,
      finish (pieces.foldl (fun state piece => push hlimit state.1 state.2 piece) state) =
        finish state ++ pieces.flatten := by
    induction pieces with
    | nil => simp
    | cons piece pieces ih =>
      intro state
      rw [foldl_cons, ih, flatten_cons, finish_eq_append, finish_eq_append, push_append,
        append_assoc]
  rw [pushAll, hfold, finish_eq_append, Buffer.empty, append_nil]

end Buffered
