import Mathlib.Data.List.Basic

/-! What a computation that may fail ends with: a value of which a postcondition holds, or an error
that is allowed. -/

namespace ZlNet.Lib

universe u v

variable {ε : Type u} {α β : Type v} {allowed : ε → Prop} {post mid : α → Prop} {x : Except ε α}

/-- `x` ends with a value of which `post` holds, or with an allowed error. -/
def Outcome (allowed : ε → Prop) (post : α → Prop) : Except ε α → Prop
  | .ok a => post a
  | .error e => allowed e

namespace Outcome

@[simp] theorem ok_iff {a : α} : Outcome allowed post (.ok a) ↔ post a := Iff.rfl

@[simp] theorem error_iff {e : ε} : Outcome allowed post (.error e) ↔ allowed e := Iff.rfl

theorem mono (h : Outcome allowed mid x) (hpost : ∀ a, mid a → post a) :
    Outcome allowed post x := by
  cases x with
  | ok a => exact hpost a h
  | error e => exact h

theorem bind {post : β → Prop} {f : α → Except ε β} (h : Outcome allowed mid x)
    (hf : ∀ a, mid a → Outcome allowed post (f a)) : Outcome allowed post (x >>= f) := by
  cases x with
  | ok a => exact hf a h
  | error e => exact h

/-- A computation that may fail in any way, after a part of which only the value matters. -/
theorem bind_any {post : β → Prop} {f : α → Except ε β}
    (hf : ∀ a, x = .ok a → Outcome (fun _ => True) post (f a)) :
    Outcome (fun _ => True) post (x >>= f) := by
  cases x with
  | ok a => exact hf a rfl
  | error e => trivial

/-- A computation that has no value ends with the one error that is allowed. -/
theorem eq_error {e : ε} (h : Outcome (· = e) (fun _ => False) x) : x = .error e := by
  cases x with
  | ok a => exact h.elim
  | error e' => exact congrArg Except.error h

/-- A loop over a list that keeps an invariant. -/
theorem foldlM {inv : α → Prop} {f : α → β → Except ε α} (bs : List β) {a : α} (ha : inv a)
    (hf : ∀ a, inv a → ∀ b ∈ bs, Outcome allowed inv (f a b)) :
    Outcome allowed inv (bs.foldlM f a) := by
  induction bs generalizing a with
  | nil => exact ha
  | cons b bs ih =>
    rw [List.foldlM_cons]
    apply bind (hf a ha b List.mem_cons_self)
    intro a' ha'
    exact ih ha' fun a'' h'' b' hb' => hf a'' h'' b' (List.mem_cons_of_mem b hb')

/-- A loop over a list that gets to `post` when it comes to `b`, and stays there. -/
theorem foldlM_reaches {post : α → Prop} {f : α → β → Except ε α} (inv : α → Prop) (bs : List β)
    {a : α} {b : β} (hb : b ∈ bs) (ha : inv a) (hinv : ∀ a, inv a → ∀ b ∈ bs, Outcome allowed inv (f a b))
    (hreach : ∀ a, inv a → Outcome allowed post (f a b))
    (hpost : ∀ a, post a → ∀ b ∈ bs, Outcome allowed post (f a b)) :
    Outcome allowed post (bs.foldlM f a) := by
  induction bs generalizing a with
  | nil => cases hb
  | cons c bs ih =>
    rw [List.foldlM_cons]
    have hpost' (a : α) (h : post a) (b' : β) (hb' : b' ∈ bs) :=
      hpost a h b' (List.mem_cons_of_mem c hb')
    rcases List.mem_cons.mp hb with rfl | hb
    · exact (hreach a ha).bind fun a' h' => foldlM bs h' hpost'
    · refine (hinv a ha c List.mem_cons_self).bind fun a' h' => ?_
      exact ih hb h' (fun a h b' hb' => hinv a h b' (List.mem_cons_of_mem c hb')) hpost'

end Outcome

/-! ### Two computations -/

section

variable {γ δ : Type v} {R : α → γ → Prop} {S : β → δ → Prop} {y : Except ε γ}

/-- `x` and `y` end with values that are related, or with the same error. -/
def Both (R : α → γ → Prop) : Except ε α → Except ε γ → Prop
  | .ok a, .ok b => R a b
  | .error e, .error e' => e = e'
  | .ok _, .error _ | .error _, .ok _ => False

namespace Both

theorem bind {f : α → Except ε β} {g : γ → Except ε δ} (h : Both R x y)
    (hfg : ∀ a b, R a b → Both S (f a) (g b)) : Both S (x >>= f) (y >>= g) := by
  cases x with
  | ok a =>
    cases y with
    | ok b => exact hfg a b h
    | error e => exact h.elim
  | error e =>
    cases y with
    | ok b => exact h.elim
    | error e' => exact h

/-- A part that both have. -/
theorem bind_same {f : α → Except ε β} {g : α → Except ε δ}
    (hfg : ∀ a, x = .ok a → Both S (f a) (g a)) : Both S (x >>= f) (x >>= g) := by
  cases x with
  | ok a => exact hfg a rfl
  | error e => rfl

theorem mono {S : α → γ → Prop} (h : Both R x y) (hRS : ∀ a b, R a b → S a b) : Both S x y := by
  cases x with
  | ok a =>
    cases y with
    | ok b => exact hRS a b h
    | error e => exact h.elim
  | error e =>
    cases y with
    | ok b => exact h.elim
    | error e' => exact h

theorem of_ok {b : γ} (h : Both R x y) (hy : y = .ok b) : ∃ a, x = .ok a ∧ R a b := by
  subst hy
  cases x with
  | ok a => exact ⟨a, rfl, h⟩
  | error e => exact h.elim

theorem of_error {e : ε} (h : Both R x y) (hy : y = .error e) : x = .error e := by
  subst hy
  cases x with
  | ok a => exact h.elim
  | error e' => exact congrArg Except.error h

theorem ite {p : Prop} [Decidable p] {x' : Except ε α} {y' : Except ε γ} (h : p → Both R x y)
    (h' : ¬p → Both R x' y') : Both R (if p then x else x') (if p then y else y') := by
  by_cases hp : p
  · rw [if_pos hp, if_pos hp]
    exact h hp
  · rw [if_neg hp, if_neg hp]
    exact h' hp

/-- What is known of one of them is known of the other, as far as they are related. -/
theorem outcome (h : Both R x y) (hx : Outcome allowed post x) :
    Outcome allowed (fun b => ∃ a, R a b ∧ post a) y := by
  cases x with
  | ok a =>
    cases y with
    | ok b => exact ⟨a, h, hx⟩
    | error e => exact h.elim
  | error e =>
    cases y with
    | ok b => exact h.elim
    | error e' =>
      obtain rfl : e = e' := h
      exact hx

/-- What is known of the value of one of them. -/
theorem and (h : Both R x y) (hx : Outcome allowed post x) :
    Both (fun a b => R a b ∧ post a) x y := by
  cases x with
  | ok a =>
    cases y with
    | ok b => exact ⟨h, hx⟩
    | error e => exact h.elim
  | error e =>
    cases y with
    | ok b => exact h.elim
    | error e' => exact h

/-- Loops over the same list, of which each pass keeps the values related. -/
theorem foldlM {f : α → β → Except ε α} {g : γ → β → Except ε γ} (bs : List β) {a : α} {c : γ}
    (h : R a c) (hfg : ∀ a c, R a c → ∀ b ∈ bs, Both R (f a b) (g c b)) :
    Both R (bs.foldlM f a) (bs.foldlM g c) := by
  induction bs generalizing a c with
  | nil => exact h
  | cons b bs ih =>
    rw [List.foldlM_cons, List.foldlM_cons]
    apply bind (hfg a c h b List.mem_cons_self)
    intro a' c' h'
    exact ih h' fun a'' c'' h'' b' hb' => hfg a'' c'' h'' b' (List.mem_cons_of_mem b hb')

end Both

end

end ZlNet.Lib
