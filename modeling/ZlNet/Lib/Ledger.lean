import Mathlib.Data.List.Nodup

/-! A ledger of items that are entered once and settled once: those that are open, and those that
were settled, in the order in which they were. -/

namespace ZlNet.Lib

structure Ledger (α : Type*) where
  opened : List α
  settled : List α

namespace Ledger

variable {α : Type*} {l : Ledger α} {a b : α}

/-- No item was entered twice, or settled twice. -/
def Valid (l : Ledger α) : Prop := (l.opened ++ l.settled).Nodup

/-- The item was entered. -/
def Entered (l : Ledger α) (a : α) : Prop := a ∈ l.opened ∨ a ∈ l.settled

def enter (l : Ledger α) (a : α) : Ledger α := ⟨l.opened ++ [a], l.settled⟩

def settle [DecidableEq α] (l : Ledger α) (a : α) : Ledger α :=
  ⟨l.opened.erase a, l.settled ++ [a]⟩

theorem entered_enter : (l.enter a).Entered b ↔ l.Entered b ∨ b = a := by
  simp only [Entered, enter, List.mem_append, List.mem_singleton]
  tauto

theorem Valid.enter (h : l.Valid) (hnew : ¬l.Entered a) : (l.enter a).Valid := by
  have hperm : (l.opened ++ [a] ++ l.settled).Perm (a :: (l.opened ++ l.settled)) := by
    rw [List.append_assoc]
    exact List.perm_middle
  refine hperm.nodup_iff.mpr (List.nodup_cons.mpr ⟨?_, h⟩)
  rwa [List.mem_append]

variable [DecidableEq α]

theorem settle_perm (ha : a ∈ l.opened) :
    ((l.settle a).opened ++ (l.settle a).settled).Perm (l.opened ++ l.settled) := by
  have hperm := List.perm_cons_erase ha
  rw [settle, ← List.append_assoc]
  apply (List.perm_append_comm).trans
  exact (List.Perm.append_right l.settled hperm.symm)

theorem entered_settle (ha : a ∈ l.opened) : (l.settle a).Entered b ↔ l.Entered b := by
  simpa only [Entered, List.mem_append] using (settle_perm ha).mem_iff (a := b)

theorem Valid.settle (h : l.Valid) (ha : a ∈ l.opened) : (l.settle a).Valid :=
  (settle_perm ha).nodup_iff.mpr h

/-- An item that was entered is either open, and was not settled, or was settled once. -/
theorem Valid.once (h : l.Valid) (ha : l.Entered a) :
    a ∈ l.opened ∧ l.settled.count a = 0 ∨ a ∉ l.opened ∧ l.settled.count a = 1 := by
  obtain ⟨-, hsettled, hdisjoint⟩ := List.nodup_append'.mp h
  rcases ha with hopen | hdone
  · exact .inl ⟨hopen, List.count_eq_zero.mpr fun hdone => hdisjoint hopen hdone⟩
  · exact .inr ⟨fun hopen => hdisjoint hopen hdone, List.count_eq_one_of_mem hsettled hdone⟩

end Ledger

end ZlNet.Lib
