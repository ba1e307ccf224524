import Mathlib.Data.List.Basic

/-! Blocks of memory as lists of cells.  `load` copies cells out of a block and `store` copies cells
into one; both fail when they would leave the block.  The theorems say what a copy out sees after a
copy in. -/

namespace ZlNet.Lib.Block

variable {α : Type*}

/-- The `len` cells of `mem` from `off` on. -/
def load (mem : List α) (off len : Nat) : Option (List α) :=
  if off + len ≤ mem.length then some ((mem.drop off).take len) else none

/-- The block `mem` with the cells from `off` on replaced by `cells`. -/
def store (mem : List α) (off : Nat) (cells : List α) : Option (List α) :=
  if off + cells.length ≤ mem.length then
    some (mem.take off ++ (cells ++ mem.drop (off + cells.length)))
  else none

theorem load_of_le {mem : List α} {off len : Nat} (h : off + len ≤ mem.length) :
    load mem off len = some ((mem.drop off).take len) := by
  simp [load, h]

theorem load_eq_some {mem cells : List α} {off len : Nat} :
    load mem off len = some cells ↔
      off + len ≤ mem.length ∧ (mem.drop off).take len = cells := by
  simp [load]

theorem load_length {mem cells : List α} {off len : Nat} (h : load mem off len = some cells) :
    cells.length = len := by
  obtain ⟨hle, rfl⟩ := load_eq_some.mp h
  simp
  omega

/-- A block split in three, read at its middle part. -/
theorem load_middle (before cells after : List α) {mem : List α} {off len : Nat}
    (hmem : mem = before ++ (cells ++ after)) (hoff : off = before.length)
    (hlen : len = cells.length) : load mem off len = some cells := by
  subst hmem hoff hlen
  simp [load]

theorem exists_store {mem cells : List α} {off : Nat} (h : off + cells.length ≤ mem.length) :
    ∃ mem', store mem off cells = some mem' := by
  simp [store, h]

theorem store_eq_some {mem mem' cells : List α} {off : Nat} :
    store mem off cells = some mem' ↔ off + cells.length ≤ mem.length ∧
      mem.take off ++ (cells ++ mem.drop (off + cells.length)) = mem' := by
  simp [store]

/-- A block split in three, written at its middle part. -/
theorem store_middle (before old after : List α) {mem cells : List α} {off : Nat}
    (hmem : mem = before ++ (old ++ after)) (hoff : off = before.length)
    (hlen : cells.length = old.length) :
    store mem off cells = some (before ++ (cells ++ after)) := by
  subst hmem hoff
  simp [store, hlen, ← List.drop_drop]

/-- Writing to a block that is still to be filled after `before`. -/
theorem store_replicate (x : α) (before cells : List α) {n : Nat} (h : cells.length ≤ n) :
    store (before ++ List.replicate n x) before.length cells =
      some (before ++ (cells ++ List.replicate (n - cells.length) x)) := by
  refine store_middle before (List.replicate cells.length x) _ ?_ rfl (by simp)
  rw [List.replicate_append_replicate, Nat.add_sub_cancel' h]

/-- A block that may grow, with the cells from `off` on replaced by `cells`. -/
def overwrite (mem : List α) (off : Nat) (cells : List α) : List α :=
  mem.take off ++ (cells ++ mem.drop (off + cells.length))

/-- Overwriting to the end of a block or past it. -/
theorem overwrite_of_le {mem cells : List α} {off : Nat} (h : mem.length ≤ off + cells.length) :
    overwrite mem off cells = mem.take off ++ cells := by
  rw [overwrite, List.drop_of_length_le h, List.append_nil]

/-- Overwriting leaves out what was behind the cells only where nothing was. -/
theorem overwrite_eq_iff {mem cells : List α} {off : Nat} :
    mem.take off ++ cells = overwrite mem off cells ↔ mem.length ≤ off + cells.length := by
  constructor
  · intro h
    rw [overwrite, List.append_cancel_left_eq] at h
    exact List.drop_eq_nil_iff.mp (List.append_right_eq_self.mp h.symm)
  · exact fun h => (overwrite_of_le h).symm

/-- Writing to a block that was first made as long as it has to be. -/
theorem store_extended (x : α) {mem : List α} (cells : List α) {off : Nat}
    (h : off ≤ mem.length) :
    store (mem ++ List.replicate (off + cells.length - mem.length) x) off cells =
      some (overwrite mem off cells) := by
  rw [store, if_pos (by simp; omega), List.take_append_of_le_length h, overwrite]
  congr 3
  rw [List.drop_append, List.drop_of_length_le (l := List.replicate _ x), List.append_nil]
  simp

/-- Writing inside one part of a block changes only that part, and not its length. -/
theorem store_inside (before part after : List α) (k : Nat) {mem mem' cells : List α} {off : Nat}
    (hmem : mem = before ++ (part ++ after)) (hoff : off = before.length + k)
    (hlen : k + cells.length ≤ part.length) (h : store mem off cells = some mem') :
    ∃ part', part'.length = part.length ∧ mem' = before ++ (part' ++ after) := by
  have hsplit : part = part.take k ++ ((part.drop k).take cells.length ++
      part.drop (k + cells.length)) := by
    rw [← List.drop_drop, List.take_append_drop, List.take_append_drop]
  have hmem' : mem = (before ++ part.take k) ++ ((part.drop k).take cells.length ++
      (part.drop (k + cells.length) ++ after)) := by
    have hafter := congrArg (fun cells => before ++ (cells ++ after)) hsplit
    simpa only [hmem, List.append_assoc] using hafter
  refine ⟨part.take k ++ (cells ++ part.drop (k + cells.length)), by simp; omega, ?_⟩
  rw [store_middle _ _ _ hmem' (by simp; omega) (by simp; omega)] at h
  simpa using (Option.some.inj h).symm

@[simp] theorem store_nil {mem : List α} {off : Nat} (h : off ≤ mem.length) :
    store mem off [] = some mem := by
  simp [store, h]

section Store

variable {mem mem' cells : List α} {off : Nat} (h : store mem off cells = some mem')
include h

theorem store_length : mem'.length = mem.length := by
  obtain ⟨hle, rfl⟩ := store_eq_some.mp h
  simp
  omega

theorem store_getElem? (i : Nat) :
    mem'[i]? = if off ≤ i ∧ i < off + cells.length then cells[i - off]? else mem[i]? := by
  obtain ⟨hle, rfl⟩ := store_eq_some.mp h
  grind

theorem load_store_same : load mem' off cells.length = some cells := by
  obtain ⟨hle, rfl⟩ := store_eq_some.mp h
  exact load_middle _ _ _ rfl (by simp; omega) rfl

/-- A copy out that touches no cell of a copy in sees the block before it. -/
theorem load_store_disjoint {off' len : Nat}
    (hd : off' + len ≤ off ∨ off + cells.length ≤ off') :
    load mem' off' len = load mem off' len := by
  have hlen := store_length h
  unfold load
  rw [hlen]
  congr 2
  apply List.ext_getElem?
  intro i
  simp only [List.getElem?_take, List.getElem?_drop, store_getElem? h]
  split_ifs <;> first | rfl | omega

end Store

end ZlNet.Lib.Block
