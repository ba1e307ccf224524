import Mathlib.Order.Lattice
import Mathlib.Data.List.Lex

/-! Elements in ascending order of their keys, no two with the same key.  Sets and maps that are
kept in order are of this kind: a set with the element as its key, a map with pairs. -/

namespace ZlNet.Lib

variable {ε κ : Type*} [LinearOrder κ]

structure Ascending (key : ε → κ) where
  toList : List ε
  ascending : toList.Pairwise fun a b => key a < key b

namespace Ascending

variable {key : ε → κ} (m : Ascending key) {a b : ε} {k : κ}

@[ext] theorem ext {m n : Ascending key} (h : m.toList = n.toList) : m = n := by
  cases m
  cases n
  cases h
  rfl

instance : Inhabited (Ascending key) := ⟨[], .nil⟩

@[simp] theorem default_toList : (default : Ascending key).toList = [] := rfl

instance [DecidableEq ε] : DecidableEq (Ascending key) := fun m n =>
  decidable_of_iff (m.toList = n.toList) ⟨ext, fun h => h ▸ rfl⟩

/-- Collections are compared as the sequences of their elements. -/
instance [LinearOrder ε] : LinearOrder (Ascending key) :=
  LinearOrder.lift' toList fun _ _ => ext

/-- The element with the key `k`. -/
def find? (k : κ) : Option ε := m.toList.find? fun a => key a = k

/-- Puts `a` in its place, and drops the element that has its key. -/
def insertInto (key : ε → κ) (a : ε) : List ε → List ε
  | [] => [a]
  | b :: l =>
    if key a < key b then a :: b :: l
    else if key b < key a then b :: insertInto key a l
    else a :: l

theorem mem_insertInto {l : List ε} (h : b ∈ insertInto key a l) : b = a ∨ b ∈ l := by
  induction l with
  | nil => simpa [insertInto] using h
  | cons c l ih =>
    unfold insertInto at h
    split at h
    · simpa using h
    · split at h
      · rcases List.mem_cons.mp h with rfl | h
        · exact .inr List.mem_cons_self
        · rcases ih h with rfl | h
          · exact .inl rfl
          · exact .inr (List.mem_cons_of_mem _ h)
      · rcases List.mem_cons.mp h with rfl | h
        · exact .inl rfl
        · exact .inr (List.mem_cons_of_mem _ h)

theorem insertInto_ascending {l : List ε} (h : l.Pairwise fun a b => key a < key b) :
    (insertInto key a l).Pairwise fun a b => key a < key b := by
  induction l with
  | nil => simp [insertInto]
  | cons c l ih =>
    obtain ⟨hc, hl⟩ := List.pairwise_cons.mp h
    unfold insertInto
    split
    · rename_i hac
      refine List.pairwise_cons.mpr ⟨fun b hb => ?_, h⟩
      rcases List.mem_cons.mp hb with rfl | hb
      · exact hac
      · exact lt_trans hac (hc b hb)
    · rename_i hac
      split
      · rename_i hca
        refine List.pairwise_cons.mpr ⟨fun b hb => ?_, ih hl⟩
        rcases mem_insertInto hb with rfl | hb
        · exact hca
        · exact hc b hb
      · rename_i hca
        have heq : key a = key c := le_antisymm (not_lt.mp hca) (not_lt.mp hac)
        exact List.pairwise_cons.mpr ⟨fun b hb => heq ▸ hc b hb, hl⟩

def insert (a : ε) : Ascending key := ⟨insertInto key a m.toList, insertInto_ascending m.ascending⟩

/-- An element whose key is above all others comes last. -/
theorem insertInto_last {l : List ε} (h : ∀ b ∈ l, key b < key a) :
    insertInto key a l = l ++ [a] := by
  induction l with
  | nil => rfl
  | cons c l ih =>
    have hc := h c List.mem_cons_self
    simp only [insertInto, not_lt_of_gt hc, hc, ite_false, ite_true, List.cons_append]
    rw [ih fun b hb => h b (List.mem_cons_of_mem _ hb)]

end Ascending

end ZlNet.Lib
