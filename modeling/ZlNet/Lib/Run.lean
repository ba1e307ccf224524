import Mathlib.Data.List.Basic

/-! Runs of a transition system.  A step takes a state to a state under a label, and a run is any
number of steps, with the list of their labels.  What every step keeps, every run keeps. -/

namespace ZlNet.Lib

variable {σ τ α : Type*} {step step' : σ → α → σ → Prop} {s t u : σ} {as bs : List α}

/-- A run from `s` to `t` whose steps have the labels `as`. -/
inductive Run (step : σ → α → σ → Prop) (s : σ) : List α → σ → Prop
  | nil : Run step s [] s
  | snoc {as : List α} {t u : σ} {a : α} : Run step s as t → step t a u → Run step s (as ++ [a]) u

namespace Run

theorem single {a : α} (h : step s a t) : Run step s [a] t := .snoc .nil h

theorem append (h : Run step s as t) (h' : Run step t bs u) : Run step s (as ++ bs) u := by
  induction h' with
  | nil => rwa [List.append_nil]
  | snoc _ hstep ih =>
    rw [← List.append_assoc]
    exact .snoc ih hstep

theorem cons {a : α} (h : step s a t) (h' : Run step t as u) : Run step s (a :: as) u :=
  (single h).append h'

theorem mono (hstep : ∀ s a t, step s a t → step' s a t) (h : Run step s as t) :
    Run step' s as t := by
  induction h with
  | nil => exact .nil
  | snoc _ hlast ih => exact .snoc ih (hstep _ _ _ hlast)

/-- What holds of every step with a label of the run holds of its steps. -/
theorem with_labels {P : σ → α → Prop} (h : Run step s as t) (hP : ∀ a ∈ as, ∀ s, P s a) :
    Run (fun s a t => step s a t ∧ P s a) s as t := by
  induction h with
  | nil => exact .nil
  | snoc _ hlast ih =>
    refine .snoc (ih fun a ha => hP a (List.mem_append_left _ ha)) ⟨hlast, hP _ ?_ _⟩
    exact List.mem_append_right _ (List.mem_singleton_self _)

/-- What holds at the start of a run and is kept by its steps holds at its end. -/
theorem invariant (inv : σ → Prop) (hstep : ∀ s a t, inv s → step s a t → inv t)
    (h : Run step s as t) (hs : inv s) : inv t := by
  induction h with
  | nil => exact hs
  | snoc _ hlast ih => exact hstep _ _ _ ih hlast

/-- Two systems have the same runs if their steps are the same wherever an invariant holds. -/
theorem iff_of_inv (inv : σ → Prop) (hsame : ∀ s a t, inv s → (step s a t ↔ step' s a t))
    (hstep : ∀ s a t, inv s → step s a t → inv t) (hs : inv s) :
    Run step s as t ↔ Run step' s as t := by
  constructor
  · intro h
    induction h with
    | nil => exact .nil
    | snoc hrun hlast ih =>
      exact .snoc ih ((hsame _ _ _ (hrun.invariant inv hstep hs)).mp hlast)
  · intro h
    induction h with
    | nil => exact .nil
    | snoc _ hlast ih =>
      exact .snoc ih ((hsame _ _ _ (ih.invariant inv hstep hs)).mpr hlast)

/-- The first steps of a run are a run. -/
theorem of_prefix (h : Run step s as t) (hpre : bs <+: as) : ∃ u, Run step s bs u := by
  induction h with
  | nil =>
    obtain rfl := List.prefix_nil.mp hpre
    exact ⟨s, .nil⟩
  | snoc hrun hlast ih =>
    rcases List.prefix_concat_iff.mp hpre with rfl | hpre
    · exact ⟨_, .snoc hrun hlast⟩
    · exact ih hpre

/-- A relation that the steps of one system keep with steps of another turns a run of the one into
a run of the other.  The labels of the two runs agree as far as `f` and `g` tell. -/
theorem simulate_map {β δ : Type*} {astep : τ → β → τ → Prop} {f : α → δ} {g : β → δ}
    (R : σ → τ → Prop)
    (hstep : ∀ s a s' t b, R s t → f a = g b → step s a s' → ∃ t', astep t b t' ∧ R s' t')
    {bs : List β} {s' : σ} {t : τ} (h : Run step s as s') (hsame : as.map f = bs.map g)
    (hR : R s t) : ∃ t', Run astep t bs t' ∧ R s' t' := by
  induction h generalizing bs with
  | nil =>
    obtain rfl := List.map_eq_nil_iff.mp hsame.symm
    exact ⟨t, .nil, hR⟩
  | snoc _ hlast ih =>
    rw [List.map_append] at hsame
    obtain ⟨bs1, bs2, rfl, hsame1, hsame2⟩ := List.map_eq_append_iff.mp hsame.symm
    obtain ⟨b, rfl, hb⟩ := List.map_eq_singleton_iff.mp hsame2
    obtain ⟨t1, hrun, h1⟩ := ih hsame1.symm
    obtain ⟨t2, hnext, h2⟩ := hstep _ _ _ _ b h1 hb.symm hlast
    exact ⟨t2, .snoc hrun hnext, h2⟩

/-- The case of runs with the same labels. -/
theorem simulate {astep : τ → α → τ → Prop} (R : σ → τ → Prop)
    (hstep : ∀ s a s' t, R s t → step s a s' → ∃ t', astep t a t' ∧ R s' t')
    {s' : σ} {t : τ} (h : Run step s as s') (hR : R s t) :
    ∃ t', Run astep t as t' ∧ R s' t' := by
  refine h.simulate_map (f := id) (g := id) R ?_ rfl hR
  rintro s a s' t b hR rfl hlast
  exact hstep s a s' t hR hlast

end Run

end ZlNet.Lib
