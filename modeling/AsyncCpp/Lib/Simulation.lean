import AsyncCpp.Lib.Machine

/-!
# Simulations, and runs that come to rest

A machine that takes smaller steps than another one, or has more state, is related to it by a
simulation: every step of the first is matched by steps of the second, or by none. What is
reachable in the first is then related to something reachable in the second.

The steps a program takes without new calls are those with the labels `own`. Where each of them
lowers a measure, a program that gets no more calls comes to rest.

Results:
* `Machine.Simulates.reachable`, `Machine.Simulates.and`.
* `Machine.length_add_le`: a run of steps that lower a measure is not longer than the measure.
* `Machine.exists_atRest`: such steps lead to a state without further steps.
-/

namespace Interleaving

namespace Machine

/-! ## Simulations -/

section Simulation

variable {σ τ ι κ : Type*} {M : Machine σ ι} {N : Machine τ κ} {G : σ → ι → Prop}
  {H : τ → κ → Prop} {R : σ → τ → Prop}

/-- `N`, in steps that meet `H`, can do what `M` does in steps that meet `G`, along `R`. -/
structure Simulates (M : Machine σ ι) (N : Machine τ κ) (G : σ → ι → Prop) (H : τ → κ → Prop)
    (R : σ → τ → Prop) : Prop where
  init : R M.init N.init
  step : ∀ s a s' t, M.Reachable G s → N.Reachable H t → R s t → G s a → M.step s a = some s' →
    ∃ t', N.Reaches H t t' ∧ R s' t'

/-- What is reachable in `M` is related to what is reachable in `N`. -/
theorem Simulates.reachable (h : Simulates M N G H R) {s : σ} (hs : M.Reachable G s) :
    ∃ t, N.Reachable H t ∧ R s t := by
  unfold Reachable at hs
  induction hs with
  | refl => exact ⟨N.init, .init, h.init⟩
  | tail hr hg hst ih =>
    obtain ⟨t, ht, hR⟩ := ih
    obtain ⟨t', ht', hR'⟩ := h.step _ _ _ t hr ht hR hg hst
    exact ⟨t', ht.trans ht', hR'⟩

/-- What holds of every related pair can be added to the relation. -/
theorem Simulates.and {Q : σ → τ → Prop} (h : Simulates M N G H R)
    (hQ : ∀ s t, M.Reachable G s → N.Reachable H t → R s t → Q s t) :
    Simulates M N G H fun s t => R s t ∧ Q s t where
  init := ⟨h.init, hQ _ _ .init .init h.init⟩
  step := by
    rintro s a s' t hs ht ⟨hR, -⟩ hg hst
    obtain ⟨t', htt', hR'⟩ := h.step s a s' t hs ht hR hg hst
    exact ⟨t', htt', hR', hQ s' t' (hs.step hg hst) (ht.trans htt') hR'⟩

end Simulation

/-! ## Rest -/

section Rest

variable {σ ι : Type*} {M : Machine σ ι} {own : ι → Prop} {I : σ → Prop} {μ : σ → ℕ}

/-- No step with a label of `own` is possible. -/
def AtRest (M : Machine σ ι) (own : ι → Prop) (s : σ) : Prop := ∀ a, own a → M.step s a = none

/-- A run whose labels meet `own`. -/
theorem Reaches.of_run_of {s t : σ} {as : List ι} (hown : ∀ a ∈ as, own a)
    (h : M.run s as = some t) : M.Reaches (fun _ a => own a) s t := by
  induction as generalizing s with
  | nil =>
    cases h
    exact .refl
  | cons a as ih =>
    obtain ⟨u, hu, hrun⟩ := run_cons_eq_some.mp h
    exact .head hu (hown a List.mem_cons_self) (ih (fun b hb => hown b (.tail a hb)) hrun)

/-- A run of steps that lower a measure. -/
theorem length_add_le (hI : ∀ s a s', I s → own a → M.step s a = some s' → I s')
    (hμ : ∀ s a s', I s → own a → M.step s a = some s' → μ s' < μ s) {s s' : σ} {as : List ι}
    (hs : I s) (hown : ∀ a ∈ as, own a) (h : M.run s as = some s') : as.length + μ s' ≤ μ s := by
  induction as generalizing s with
  | nil =>
    cases h
    simp
  | cons a as ih =>
    obtain ⟨u, hu, hrun⟩ := run_cons_eq_some.mp h
    have ha := hown a List.mem_cons_self
    have hlt := hμ s a u hs ha hu
    have hle := ih (hI s a u hs ha hu) (fun b hb => hown b (List.mem_cons_of_mem a hb)) hrun
    rw [List.length_cons]
    omega

/-- Steps that lower a measure come to an end. -/
theorem exists_atRest (hI : ∀ s a s', I s → own a → M.step s a = some s' → I s')
    (hμ : ∀ s a s', I s → own a → M.step s a = some s' → μ s' < μ s) {s : σ} (hs : I s) :
    ∃ s', M.Reaches (fun _ a => own a) s s' ∧ M.AtRest own s' := by
  induction hn : μ s using Nat.strongRecOn generalizing s with
  | _ n ih =>
    by_cases hrest : M.AtRest own s
    · exact ⟨s, .refl, hrest⟩
    · unfold AtRest at hrest
      push Not at hrest
      obtain ⟨a, ha, hne⟩ := hrest
      obtain ⟨u, hu⟩ := Option.ne_none_iff_exists'.mp hne
      obtain ⟨s', hr, hs'⟩ := ih (μ u) (hn ▸ hμ s a u hs ha hu) (hI s a u hs ha hu) rfl
      exact ⟨s', .head hu ha hr, hs'⟩

end Rest

end Machine

end Interleaving
