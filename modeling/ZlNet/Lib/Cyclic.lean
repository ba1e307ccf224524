import Mathlib.Data.List.Basic

/-! Numbers from a counter that runs from 1 to a largest number and starts again at 1.  A list of
them is a window of the counter if it has them in the order in which they were taken, all within
the last turn.  What the counter takes next is not in its window as soon as it is not the oldest
number there. -/

namespace ZlNet.Lib.Cyclic

variable {M c i : Nat} {ids ids' : List Nat}

def next (M c : Nat) : Nat := if c < M then c + 1 else 1

/-- How many numbers the counter at `c` has taken since it took `i`. -/
def age (M c i : Nat) : Nat := if i ≤ c then c - i else c + M - i

/-- The numbers `ids` were taken by the counter, which is at `c`, within its last turn, the oldest
first. -/
structure Window (M c : Nat) (ids : List Nat) : Prop where
  counter : c ≤ M
  range : ∀ i ∈ ids, 1 ≤ i ∧ i ≤ M
  sorted : ids.Pairwise fun i j => age M c j < age M c i

theorem next_range (hM : 1 ≤ M) : 1 ≤ next M c ∧ next M c ≤ M := by
  unfold next
  split <;> omega

theorem age_lt (hc : c ≤ M) (hi : 1 ≤ i ∧ i ≤ M) : age M c i < M := by
  unfold age
  split <;> omega

/-- What the counter takes next was taken longest ago. -/
theorem age_of_next (hM : 1 ≤ M) (hc : c ≤ M) : age M c (next M c) + 1 = M := by
  unfold age next
  split <;> split <;> omega

theorem age_next (hc : c ≤ M) (hi : 1 ≤ i ∧ i ≤ M) (hne : i ≠ next M c) :
    age M (next M c) i = age M c i + 1 := by
  unfold age next at *
  split at hne <;> split <;> split <;> split <;> omega

@[simp] theorem age_self : age M c c = 0 := by
  simp [age]

namespace Window

theorem nil (hc : c ≤ M) : Window M c [] := ⟨hc, by simp, .nil⟩

theorem sublist (h : Window M c ids) (hsub : ids'.Sublist ids) : Window M c ids' where
  counter := h.counter
  range i hi := h.range i (hsub.subset hi)
  sorted := h.sorted.sublist hsub

/-- The oldest number is the only one that the counter can take again. -/
theorem next_not_mem (h : Window M c ids) (hM : 1 ≤ M) (hfront : ids.head? ≠ some (next M c)) :
    next M c ∉ ids := by
  intro hmem
  cases ids with
  | nil => cases hmem
  | cons i rest =>
    rcases List.mem_cons.mp hmem with heq | hrest
    · exact hfront (by rw [heq]; rfl)
    · have hlt := List.rel_of_pairwise_cons h.sorted hrest
      have hage := age_lt h.counter (h.range i List.mem_cons_self)
      have hlast := age_of_next hM h.counter
      omega

theorem push (h : Window M c ids) (hM : 1 ≤ M) (hfront : ids.head? ≠ some (next M c)) :
    Window M (next M c) (ids ++ [next M c]) := by
  have hfresh := h.next_not_mem hM hfront
  have haged : ∀ i ∈ ids, age M (next M c) i = age M c i + 1 := by
    intro i hi
    apply age_next h.counter (h.range i hi)
    rintro rfl
    exact hfresh hi
  refine ⟨(next_range hM).2, ?_, ?_⟩
  · intro i hi
    rcases List.mem_append.mp hi with hi | hi
    · exact h.range i hi
    · obtain rfl := List.mem_singleton.mp hi
      exact next_range hM
  · refine List.pairwise_append.mpr ⟨?_, List.pairwise_singleton .., ?_⟩
    · apply h.sorted.imp_of_mem
      intro i j hi hj hlt
      rw [haged i hi, haged j hj]
      omega
    · intro i hi j hj
      obtain rfl := List.mem_singleton.mp hj
      rw [haged i hi, age_self]
      omega

end Window

end ZlNet.Lib.Cyclic
