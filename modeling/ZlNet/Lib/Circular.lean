import Mathlib.Data.List.Basic
import ZlNet.Lib.Block

/-! Circular buffers over a block of memory.  `Layout mem front fin q` says that the cells of `mem`
from `front` up to `fin`, going round the end of the block where `fin` is not past `front`, hold the
queue `q`.  A layout has a direct form, with free cells after the queue, and a wrapped form, with
the queue running to the end of the block.  The theorems say how a layout changes when cells are
taken from its front, stored outside of the queue, or added to it at its end. -/

namespace ZlNet.Lib.Circular

open Block

variable {α : Type*} {mem mem' q cells : List α} {front fin : Nat}

/-- The queue `q` in the block `mem` between `front` and `fin`.  An empty queue is `flat` and a full
one is `wrapped`, although both have `front = fin`. -/
inductive Layout (mem : List α) (front fin : Nat) (q : List α) : Prop
  | flat (before after : List α) (hmem : mem = before ++ (q ++ after))
      (hfront : front = before.length) (hfin : fin = before.length + q.length)
      (hafter : after ≠ [])
  | wrapped (low gap high : List α) (hmem : mem = low ++ (gap ++ high)) (hq : q = high ++ low)
      (hfront : front = low.length + gap.length) (hfin : fin = low.length) (hhigh : high ≠ [])

theorem Layout.nil_of_front {mem : List α} (h : front < mem.length) :
    Layout mem front front [] :=
  .flat (mem.take front) (mem.drop front) (by simp) (by simp; omega) (by simp; omega)
    (by simpa using h)

/-- A queue at the start of a longer block. -/
theorem Layout.of_prefix {after : List α} (h : after ≠ []) :
    Layout (q ++ after) 0 q.length q :=
  .flat [] after rfl rfl (by simp) h

/-- Whatever a block holds, its cells from any front on are a queue, of any length up to that of the
block. -/
theorem Layout.exists_of_length {n : Nat} (hfront : front < mem.length) (hn : n ≤ mem.length) :
    ∃ q, q.length = n ∧ Layout mem front ((front + n) % mem.length) q := by
  by_cases hin : front + n < mem.length
  · rw [Nat.mod_eq_of_lt hin]
    refine ⟨(mem.drop front).take n, by simp; omega, ?_⟩
    refine .flat (mem.take front) (mem.drop (front + n)) ?_ (by simp; omega) (by simp; omega) ?_
    · rw [← List.drop_drop, List.take_append_drop, List.take_append_drop]
    · exact List.ne_nil_of_length_pos (by simp; omega)
  · have hfin : (front + n) % mem.length = front + n - mem.length := by
      rw [Nat.mod_eq_sub_mod (by omega), Nat.mod_eq_of_lt (by omega)]
    rw [hfin]
    refine ⟨mem.drop front ++ mem.take (front + n - mem.length), by simp; omega, ?_⟩
    refine .wrapped (mem.take (front + n - mem.length))
      ((mem.drop (front + n - mem.length)).take (mem.length - n)) (mem.drop front) ?_ rfl
      (by simp; omega) (by simp; omega) (List.ne_nil_of_length_pos (by simp; omega))
    have hdrop : mem.drop front =
        (mem.drop (front + n - mem.length)).drop (mem.length - n) := by
      rw [List.drop_drop]
      congr 1
      omega
    rw [hdrop, List.take_append_drop, List.take_append_drop]

theorem Layout.front_lt (h : Layout mem front fin q) : front < mem.length := by
  cases h with
  | flat before after hmem hfront hfin hafter =>
    have := List.length_pos_of_ne_nil hafter
    simp only [hmem, List.length_append]
    omega
  | wrapped low gap high hmem hq hfront hfin hhigh =>
    have := List.length_pos_of_ne_nil hhigh
    simp only [hmem, List.length_append]
    omega

theorem Layout.fin_lt (h : Layout mem front fin q) : fin < mem.length := by
  cases h with
  | flat before after hmem hfront hfin hafter =>
    have := List.length_pos_of_ne_nil hafter
    simp only [hmem, List.length_append]
    omega
  | wrapped low gap high hmem hq hfront hfin hhigh =>
    have := List.length_pos_of_ne_nil hhigh
    simp only [hmem, List.length_append]
    omega

theorem Layout.length_le (h : Layout mem front fin q) : q.length ≤ mem.length := by
  cases h with
  | flat before after hmem hfront hfin hafter =>
    simp only [hmem, List.length_append]
    omega
  | wrapped low gap high hmem hq hfront hfin hhigh =>
    simp only [hmem, hq, List.length_append]
    omega

/-- The end is the front moved on by the length of the queue, round the block. -/
theorem Layout.fin_eq (h : Layout mem front fin q) : (front + q.length) % mem.length = fin := by
  have hlt := h.fin_lt
  cases h with
  | flat before after hmem hfront hfin hafter =>
    rw [hfront, ← hfin, Nat.mod_eq_of_lt hlt]
  | wrapped low gap high hmem hq hfront hfin hhigh =>
    have : front + q.length = fin + mem.length := by
      simp only [hmem, hq, List.length_append]
      omega
    rw [this, Nat.add_mod_right, Nat.mod_eq_of_lt hlt]

/-- The queue is what the block holds from the front on, going round its end. -/
theorem Layout.take_around (h : Layout mem front fin q) :
    (mem.drop front ++ mem.take front).take q.length = q := by
  cases h with
  | flat before after hmem hfront hfin hafter => simp [hmem, hfront]
  | wrapped low gap high hmem hq hfront hfin hhigh =>
    rw [← List.length_append] at hfront
    rw [hmem, ← List.append_assoc, hfront, hq, List.drop_left, List.take_left]
    simp [← List.append_assoc]

/-- With room left, an end not before the front means the direct form. -/
theorem Layout.flat_of_le (h : Layout mem front fin q) (hle : front ≤ fin)
    (hroom : q.length < mem.length) :
    ∃ before after, mem = before ++ (q ++ after) ∧ front = before.length ∧
      fin = before.length + q.length ∧ after ≠ [] := by
  cases h with
  | flat before after hmem hfront hfin hafter => exact ⟨before, after, hmem, hfront, hfin, hafter⟩
  | wrapped low gap high hmem hq hfront hfin hhigh =>
    simp only [hmem, hq, List.length_append] at hroom
    omega

/-- An end before the front means the wrapped form. -/
theorem Layout.wrapped_of_lt (h : Layout mem front fin q) (hlt : fin < front) :
    ∃ low gap high, mem = low ++ (gap ++ high) ∧ q = high ++ low ∧
      front = low.length + gap.length ∧ fin = low.length ∧ high ≠ [] := by
  cases h with
  | flat before after hmem hfront hfin hafter => omega
  | wrapped low gap high hmem hq hfront hfin hhigh =>
    exact ⟨low, gap, high, hmem, hq, hfront, hfin, hhigh⟩

/-- With something queued, an end not past the front means the wrapped form. -/
theorem Layout.wrapped_of_le (h : Layout mem front fin q) (hle : fin ≤ front) (hq : q ≠ []) :
    ∃ low gap high, mem = low ++ (gap ++ high) ∧ q = high ++ low ∧
      front = low.length + gap.length ∧ fin = low.length ∧ high ≠ [] := by
  cases h with
  | flat before after hmem hfront hfin hafter =>
    have := List.length_pos_of_ne_nil hq
    omega
  | wrapped low gap high hmem hq hfront hfin hhigh =>
    exact ⟨low, gap, high, hmem, hq, hfront, hfin, hhigh⟩

theorem Layout.length_of_lt (h : Layout mem front fin q) (hlt : front < fin) :
    front + q.length = fin := by
  cases h with
  | flat before after hmem hfront hfin hafter => omega
  | wrapped low gap high hmem hq hfront hfin hhigh => omega

theorem Layout.length_of_le (h : Layout mem front fin q) (hle : fin ≤ front) (hq : q ≠ []) :
    q.length = mem.length - front + fin := by
  obtain ⟨low, gap, high, hmem, hq, hfront, hfin, hhigh⟩ := h.wrapped_of_le hle hq
  simp only [hmem, hq, List.length_append]
  omega

/-- With room left, an end not before the front is as far from it as the queue is long. -/
theorem Layout.length_of_room (h : Layout mem front fin q) (hle : front ≤ fin)
    (hroom : q.length < mem.length) : q.length = fin - front := by
  obtain ⟨before, after, -, hfront, hfin, -⟩ := h.flat_of_le hle hroom
  omega

theorem Layout.length_of_gap (h : Layout mem front fin q) (hlt : fin < front) :
    q.length = mem.length - front + fin := by
  obtain ⟨low, gap, high, hmem, hq, hfront, hfin, -⟩ := h.wrapped_of_lt hlt
  simp only [hmem, hq, List.length_append]
  omega

theorem Layout.nil_of_eq (h : Layout mem front fin q) (heq : fin = front)
    (hroom : q.length < mem.length) : q = [] := by
  have hlen := h.length_of_room (by omega) hroom
  exact List.length_eq_zero_iff.mp (by omega)

/-! ### Taking cells from the front -/

theorem Layout.load_direct (h : Layout mem front fin q) (hlt : front < fin) {n : Nat}
    (hn : n ≤ q.length) : load mem front n = some (q.take n) := by
  cases h with
  | flat before after hmem hfront hfin hafter =>
    refine load_middle before _ (q.drop n ++ after) ?_ hfront (by simp [hn])
    rw [hmem, ← List.append_assoc (q.take n), List.take_append_drop]
  | wrapped low gap high hmem hq hfront hfin hhigh => omega

theorem Layout.pop_direct (h : Layout mem front fin q) (hlt : front < fin) {n : Nat}
    (hn : n ≤ q.length) : Layout mem (front + n) fin (q.drop n) := by
  cases h with
  | flat before after hmem hfront hfin hafter =>
    refine .flat (before ++ q.take n) after ?_ (by simp; omega) (by simp; omega) hafter
    rw [hmem, List.append_assoc, ← List.append_assoc (q.take n), List.take_append_drop]
  | wrapped low gap high hmem hq hfront hfin hhigh => omega

section Around

variable (h : Layout mem front fin q) (hle : fin ≤ front) (hq : q ≠ [])
include h hle hq

/-- The queue runs to the end of the block and goes on at its start. -/
theorem Layout.load_around :
    ∃ high low, load mem front (mem.length - front) = some high ∧ load mem 0 fin = some low ∧
      q = high ++ low ∧ high.length = mem.length - front := by
  obtain ⟨low, gap, high, rfl, rfl, rfl, rfl, -⟩ := h.wrapped_of_le hle hq
  refine ⟨high, low, ?_, ?_, rfl, by simp; omega⟩
  · exact load_middle (low ++ gap) _ [] (by simp) (by simp) (by simp; omega)
  · exact load_middle [] _ (gap ++ high) (by simp) rfl rfl

theorem Layout.load_high {n : Nat} (hn : n ≤ mem.length - front) :
    load mem front n = some (q.take n) := by
  obtain ⟨low, gap, high, rfl, rfl, rfl, rfl, -⟩ := h.wrapped_of_le hle hq
  have hn' : n ≤ high.length := by simp at hn; omega
  rw [List.take_append_of_le_length hn']
  exact load_middle (low ++ gap) _ (high.drop n) (by simp) (by simp)
    (by simp [hn'])

/-- Taking `n` cells that reach past the end of the block. -/
theorem Layout.load_wrap {n : Nat} (hn : mem.length - front ≤ n) (hlen : n ≤ q.length) :
    ∃ high low, load mem front (mem.length - front) = some high ∧
      load mem 0 (n - (mem.length - front)) = some low ∧ high ++ low = q.take n := by
  obtain ⟨low, gap, high, rfl, rfl, rfl, rfl, -⟩ := h.wrapped_of_le hle hq
  have hcount : (low ++ (gap ++ high)).length - (low.length + gap.length) = high.length := by
    simp; omega
  rw [hcount] at hn ⊢
  rw [List.length_append] at hlen
  refine ⟨high, low.take (n - high.length), ?_, ?_, ?_⟩
  · exact load_middle (low ++ gap) _ [] (by simp) (by simp) rfl
  · exact load_middle [] _ (low.drop (n - high.length) ++ (gap ++ high))
      (by rw [List.nil_append, ← List.append_assoc (List.take _ _), List.take_append_drop]) rfl
      (by simp; omega)
  · rw [List.take_append, List.take_of_length_le hn]

theorem Layout.pop_high {n : Nat} (hn : n < mem.length - front) :
    Layout mem (front + n) fin (q.drop n) := by
  obtain ⟨low, gap, high, rfl, rfl, rfl, rfl, -⟩ := h.wrapped_of_le hle hq
  have hn' : n < high.length := by simp at hn; omega
  refine .wrapped low (gap ++ high.take n) (high.drop n) (by simp)
    (List.drop_append_of_le_length (by omega)) (by simp; omega) rfl (by simpa using hn')

theorem Layout.pop_wrap {n : Nat} (hn : mem.length - front ≤ n) (hlen : n ≤ q.length) :
    Layout mem (n - (mem.length - front)) fin (q.drop n) := by
  have hfin := h.fin_lt
  obtain ⟨low, gap, high, rfl, rfl, rfl, rfl, hhigh⟩ := h.wrapped_of_le hle hq
  have hcount : (low ++ (gap ++ high)).length - (low.length + gap.length) = high.length := by
    simp; omega
  rw [hcount] at hn ⊢
  rw [List.length_append] at hlen
  have hdrop : (high ++ low).drop n = low.drop (n - high.length) := by
    rw [List.drop_append, List.drop_of_length_le hn, List.nil_append]
  rw [hdrop]
  refine .flat (low.take (n - high.length)) (gap ++ high) ?_ (by simp; omega) (by simp; omega)
    (by simp [hhigh])
  rw [← List.append_assoc (List.take _ _), List.take_append_drop]

end Around

/-! ### Storing outside of the queue -/

theorem Layout.store_after (h : Layout mem front fin q) (hle : front ≤ fin)
    (hroom : q.length < mem.length) {off : Nat} (hoff : fin ≤ off)
    (hstore : store mem off cells = some mem') : Layout mem' front fin q := by
  obtain ⟨before, after, rfl, rfl, rfl, hafter⟩ := h.flat_of_le hle hroom
  obtain ⟨k, rfl⟩ := Nat.exists_eq_add_of_le hoff
  have hfit := (store_eq_some.mp hstore).1
  simp only [List.length_append] at hfit
  obtain ⟨after', hlen, rfl⟩ := store_inside (before ++ q) after [] k (by simp)
    (by rw [List.length_append]) (by omega) hstore
  refine .flat before after' (by simp) rfl rfl (List.ne_nil_of_length_pos ?_)
  rw [hlen]
  exact List.length_pos_of_ne_nil hafter

theorem Layout.store_before (h : Layout mem front fin q) (hle : front ≤ fin)
    (hroom : q.length < mem.length) {off : Nat} (hoff : off + cells.length ≤ front)
    (hstore : store mem off cells = some mem') : Layout mem' front fin q := by
  obtain ⟨before, after, rfl, rfl, rfl, hafter⟩ := h.flat_of_le hle hroom
  obtain ⟨before', hlen, rfl⟩ := store_inside [] before (q ++ after) off rfl (by simp) hoff hstore
  exact .flat before' after rfl hlen.symm (by rw [hlen]) hafter

theorem Layout.store_gap (h : Layout mem front fin q) (hlt : fin < front) {off : Nat}
    (hoff : fin ≤ off) (hend : off + cells.length ≤ front)
    (hstore : store mem off cells = some mem') : Layout mem' front fin q := by
  obtain ⟨low, gap, high, rfl, hq, rfl, rfl, hhigh⟩ := h.wrapped_of_lt hlt
  obtain ⟨k, rfl⟩ := Nat.exists_eq_add_of_le hoff
  obtain ⟨gap', hlen, rfl⟩ := store_inside low gap high k rfl rfl (by omega) hstore
  exact .wrapped low gap' high rfl hq (by rw [hlen]) rfl hhigh

/-! ### Adding the cells at the end -/

theorem Layout.commit_after (h : Layout mem front fin q) (hle : front ≤ fin)
    (hroom : q.length < mem.length) {n : Nat} (hn : n < mem.length - fin)
    (hload : load mem fin n = some cells) : Layout mem front (fin + n) (q ++ cells) := by
  obtain ⟨before, after, rfl, rfl, rfl, hafter⟩ := h.flat_of_le hle hroom
  obtain ⟨-, hcells⟩ := load_eq_some.mp hload
  have hlen := load_length hload
  rw [← List.append_assoc, List.drop_append_of_le_length (by simp), List.drop_of_length_le
    (by simp), List.nil_append] at hcells
  refine .flat before (after.drop n) ?_ rfl (by simp; omega) ?_
  · rw [List.append_assoc, ← hcells, List.take_append_drop]
  · intro hnil
    have := congrArg List.length hnil
    simp at this hn
    omega

theorem Layout.commit_wrap (h : Layout mem front fin q) (hle : front ≤ fin)
    (hroom : q.length < mem.length) {n : Nat} (hn : mem.length - fin ≤ n)
    (hfit : q.length + n ≤ mem.length) {high low : List α}
    (hhigh : load mem fin (mem.length - fin) = some high)
    (hlow : load mem 0 (n - (mem.length - fin)) = some low) :
    Layout mem front (n - (mem.length - fin)) (q ++ (high ++ low)) := by
  obtain ⟨before, after, rfl, rfl, rfl, hafter⟩ := h.flat_of_le hle hroom
  have hcount : (before ++ (q ++ after)).length - (before.length + q.length) = after.length := by
    simp; omega
  rw [hcount] at hn hhigh hlow ⊢
  have hhigh' : high = after := by
    refine (Option.some.inj ?_).symm
    rw [← hhigh]
    exact (load_middle (before ++ q) _ [] (by simp) (by simp) rfl).symm
  subst hhigh'
  simp only [List.length_append] at hfit
  have hlow' : low = before.take (n - high.length) := by
    obtain ⟨-, rfl⟩ := load_eq_some.mp hlow
    rw [List.drop_zero, List.take_append_of_le_length (by omega)]
  have hlen := load_length hlow
  refine .wrapped low (before.drop (n - high.length)) (q ++ high) ?_ (by simp) ?_ hlen.symm
    (by simp [hafter])
  · rw [hlow', ← List.append_assoc (List.take _ _), List.take_append_drop]
  · simp
    omega

theorem Layout.commit_gap (h : Layout mem front fin q) (hlt : fin < front) {n : Nat}
    (hfit : q.length + n ≤ mem.length) (hload : load mem fin n = some cells) :
    Layout mem front (fin + n) (q ++ cells) := by
  obtain ⟨low, gap, high, rfl, rfl, rfl, rfl, hhigh⟩ := h.wrapped_of_lt hlt
  obtain ⟨-, hcells⟩ := load_eq_some.mp hload
  have hlen := load_length hload
  simp only [List.length_append] at hfit
  rw [List.drop_append_of_le_length (by simp), List.drop_of_length_le (by simp),
    List.nil_append, List.take_append_of_le_length (by omega)] at hcells
  refine .wrapped (low ++ cells) (gap.drop n) high ?_ (by simp) ?_ (by simp; omega) hhigh
  · rw [List.append_assoc, ← List.append_assoc cells, ← hcells, List.take_append_drop]
  · simp
    omega

/-! ### Storing the cells at the end -/

theorem Layout.write_after (h : Layout mem front fin q) (hle : front ≤ fin)
    (hroom : q.length < mem.length) (hfit : cells.length < mem.length - fin)
    (hstore : store mem fin cells = some mem') :
    Layout mem' front (fin + cells.length) (q ++ cells) := by
  have hlen := store_length hstore
  have hl := h.store_after hle hroom (Nat.le_refl fin) hstore
  exact hl.commit_after hle (by omega) (by omega) (load_store_same hstore)

/-- The cells fill the end of the block, and the rest of them goes to its start. -/
theorem Layout.write_wrap {high low mem'' : List α} (h : Layout mem front fin q)
    (hle : front ≤ fin) (hroom : q.length < mem.length) (hhigh : high.length = mem.length - fin)
    (hfit : q.length + (high ++ low).length ≤ mem.length)
    (hstore : store mem fin high = some mem') (hstore' : store mem' 0 low = some mem'') :
    Layout mem'' front low.length (q ++ (high ++ low)) := by
  have hlen := store_length hstore
  have hlen' := store_length hstore'
  have hqlen := h.length_of_room hle hroom
  have hfin := h.fin_lt
  rw [List.length_append] at hfit
  have hl := (h.store_after hle hroom (Nat.le_refl fin) hstore).store_before hle (by omega)
    (by omega) hstore'
  have hload : load mem'' fin high.length = some high := by
    rw [load_store_disjoint hstore' (by omega)]
    exact load_store_same hstore
  have hload' : load mem'' 0 low.length = some low := load_store_same hstore'
  have hcount : mem''.length - fin = high.length := by omega
  have hrest : high.length + low.length - (mem''.length - fin) = low.length := by omega
  have hc := hl.commit_wrap hle (by omega) (n := high.length + low.length) (by omega) (by omega)
    (by rw [hcount]; exact hload) (by rw [hrest]; exact hload')
  rwa [hrest] at hc

theorem Layout.write_gap (h : Layout mem front fin q) (hlt : fin < front)
    (hfit : q.length + cells.length ≤ mem.length) (hstore : store mem fin cells = some mem') :
    Layout mem' front (fin + cells.length) (q ++ cells) := by
  have hlen := store_length hstore
  have hqlen := h.length_of_gap hlt
  have hfront := h.front_lt
  have hl := h.store_gap hlt (Nat.le_refl fin) (by omega) hstore
  exact hl.commit_gap hlt (by omega) (load_store_same hstore)

end ZlNet.Lib.Circular
