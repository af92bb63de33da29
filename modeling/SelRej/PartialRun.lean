import Mathlib.Data.Nat.Notation

/-!
# Runs of a partial step function

A system is a step function from a state and a label to the next state, or to
`none` where the label cannot happen. `run` executes a list of labels. The two
rules of induction carry a property of states along a run: `run_induct` along
every run, and `guarded_induct` along the runs all of whose steps meet a
condition on the state before the step and on the label.
-/
namespace SelRej.PartialRun
variable {σ ℓ : Type} {step : σ → ℓ → Option σ} {ok : σ → ℓ → Prop} {P : σ → Prop}

def run (step : σ → ℓ → Option σ) : σ → List ℓ → Option σ
  | s, [] => some s
  | s, l :: ls => (step s l).bind fun t => run step t ls

theorem run_cons {s t u : σ} {l : ℓ} {ls : List ℓ} (h : step s l = some t)
    (h' : run step t ls = some u) : run step s (l :: ls) = some u := by
  simp only [run, h, Option.bind_some, h']

theorem run_cons_iff {s u : σ} {l : ℓ} {ls : List ℓ} :
    run step s (l :: ls) = some u ↔ ∃ t, step s l = some t ∧ run step t ls = some u := by
  simp only [run, Option.bind_eq_some_iff]

theorem run_append {s t u : σ} {ls ks : List ℓ} (h : run step s ls = some t)
    (h' : run step t ks = some u) : run step s (ls ++ ks) = some u := by
  induction ls generalizing s with
  | nil =>
      cases h
      exact h'
  | cons l ls ih =>
      obtain ⟨v, hv, hrun⟩ := run_cons_iff.mp h
      exact run_cons hv (ih hrun)

/-- Every step of the run meets `ok` in the state in which it is taken. -/
def Guarded (step : σ → ℓ → Option σ) (ok : σ → ℓ → Prop) : σ → List ℓ → Prop
  | _, [] => True
  | s, l :: ls => ok s l ∧ ∀ t, step s l = some t → Guarded step ok t ls

instance decidableGuarded [∀ s l, Decidable (ok s l)] :
    ∀ (s : σ) (ls : List ℓ), Decidable (Guarded step ok s ls)
  | _, [] => inferInstanceAs (Decidable True)
  | s, l :: ls =>
      have (t : σ) : Decidable (Guarded step ok t ls) := decidableGuarded t ls
      inferInstanceAs (Decidable (ok s l ∧ ∀ t ∈ step s l, Guarded step ok t ls))

theorem guarded_induct (hstep : ∀ s l t, P s → ok s l → step s l = some t → P t)
    {s t : σ} {ls : List ℓ} (hs : P s) (hok : Guarded step ok s ls)
    (h : run step s ls = some t) : P t := by
  induction ls generalizing s with
  | nil =>
      cases h
      exact hs
  | cons l ls ih =>
      obtain ⟨v, hv, hrun⟩ := run_cons_iff.mp h
      exact ih (hstep s l v hs hok.1 hv) (hok.2 v hv) hrun

/-- Where every step that meets `ok` can be taken, so can every guarded run. -/
theorem guarded_run (hstep : ∀ s l, P s → ok s l → ∃ t, step s l = some t ∧ P t)
    {s : σ} {ls : List ℓ} (hs : P s) (hok : Guarded step ok s ls) :
    ∃ t, run step s ls = some t ∧ P t := by
  induction ls generalizing s with
  | nil => exact ⟨s, rfl, hs⟩
  | cons l ls ih =>
      obtain ⟨v, hv, hinv⟩ := hstep s l hs hok.1
      obtain ⟨t, hrun, ht⟩ := ih hinv (hok.2 v hv)
      exact ⟨t, run_cons hv hrun, ht⟩

theorem run_induct (hstep : ∀ s l t, P s → step s l = some t → P t)
    {s t : σ} {ls : List ℓ} (hs : P s) (h : run step s ls = some t) : P t := by
  induction ls generalizing s with
  | nil =>
      cases h
      exact hs
  | cons l ls ih =>
      obtain ⟨v, hv, hrun⟩ := run_cons_iff.mp h
      exact ih (hstep s l v hs hv) hrun

/-- Where every step makes the measure of the state smaller, a run is at most as
long as the measure. -/
theorem run_length_le {μ : σ → ℕ → Prop}
    (hstep : ∀ s l t m, μ s m → step s l = some t → ∃ m' < m, μ t m')
    {s t : σ} {ls : List ℓ} {m : ℕ} (hs : μ s m) (h : run step s ls = some t) :
    ∃ m', μ t m' ∧ ls.length + m' ≤ m := by
  induction ls generalizing s m with
  | nil =>
      cases h
      exact ⟨m, hs, Nat.le_of_eq (Nat.zero_add m)⟩
  | cons l ls ih =>
      obtain ⟨v, hv, hrun⟩ := run_cons_iff.mp h
      obtain ⟨m', hlt, hm'⟩ := hstep s l v m hs hv
      obtain ⟨m'', hm'', hle⟩ := ih hm' hrun
      refine ⟨m'', hm'', ?_⟩
      rw [List.length_cons]
      omega

/-- What the steps of a run cost in the states in which they are taken. -/
def total (step : σ → ℓ → Option σ) (cost : σ → ℓ → ℕ) : σ → List ℓ → ℕ
  | _, [] => 0
  | s, l :: ls => cost s l + ((step s l).map fun t => total step cost t ls).getD 0

theorem total_cons {cost : σ → ℓ → ℕ} {s t : σ} {l : ℓ} {ls : List ℓ} (h : step s l = some t) :
    total step cost s (l :: ls) = cost s l + total step cost t ls := by
  simp only [total, h, Option.map_some, Option.getD_some]

/-- Where the account of the state grows by the cost of each step, it grows by
the cost of the run. -/
theorem run_total {cost : σ → ℓ → ℕ} {account : σ → ℕ → Prop}
    (hstep : ∀ s l t m, account s m → step s l = some t → account t (m + cost s l))
    {s t : σ} {ls : List ℓ} {m : ℕ} (hs : account s m) (h : run step s ls = some t) :
    account t (m + total step cost s ls) := by
  induction ls generalizing s m with
  | nil =>
      cases h
      exact hs
  | cons l ls ih =>
      obtain ⟨v, hv, hrun⟩ := run_cons_iff.mp h
      have haccount := ih (hstep s l v m hs hv) hrun
      rwa [total_cons hv, ← Nat.add_assoc]

def Reaches (step : σ → ℓ → Option σ) (s t : σ) : Prop :=
  ∃ ls, run step s ls = some t

theorem Reaches.single {s t : σ} {l : ℓ} (h : step s l = some t) : Reaches step s t :=
  ⟨[l], run_cons h rfl⟩

theorem Reaches.trans {s t u : σ} (h : Reaches step s t) (h' : Reaches step t u) :
    Reaches step s u := by
  obtain ⟨ls, hls⟩ := h
  obtain ⟨ks, hks⟩ := h'
  exact ⟨ls ++ ks, run_append hls hks⟩

/-- Where every step makes the measure smaller, some run comes to a state in which
no step can be taken. -/
theorem reaches_end {μ : σ → ℕ → Prop}
    (hstep : ∀ s l t m, μ s m → step s l = some t → ∃ m' < m, μ t m') {s : σ} {m : ℕ}
    (hs : μ s m) : ∃ t m', Reaches step s t ∧ μ t m' ∧ ∀ l, step t l = none := by
  induction m using Nat.strongRecOn generalizing s with
  | ind m ih =>
      by_cases hend : ∀ l, step s l = none
      · exact ⟨s, m, ⟨[], rfl⟩, hs, hend⟩
      · obtain ⟨l, hl⟩ := Classical.not_forall.mp hend
        obtain ⟨v, hv⟩ := Option.ne_none_iff_exists'.mp hl
        obtain ⟨m₁, hlt, hm₁⟩ := hstep s l v m hs hv
        obtain ⟨t, m', hreaches, ht⟩ := ih m₁ hlt hm₁
        exact ⟨t, m', (Reaches.single hv).trans hreaches, ht⟩

/-- Where a step from related states can be matched by a run, so can a run. -/
theorem Reaches.simulate {τ κ : Type} {step' : τ → κ → Option τ} {R : σ → τ → Prop}
    (hstep : ∀ s l s' t, R s t → step s l = some s' → ∃ t', Reaches step' t t' ∧ R s' t')
    {s s' : σ} {t : τ} (h : Reaches step s s') (hs : R s t) :
    ∃ t', Reaches step' t t' ∧ R s' t' := by
  obtain ⟨ls, hrun⟩ := h
  induction ls generalizing s t with
  | nil =>
      cases hrun
      exact ⟨t, ⟨[], rfl⟩, hs⟩
  | cons l ls ih =>
      obtain ⟨v, hv, hrun⟩ := run_cons_iff.mp hrun
      obtain ⟨t₁, hreaches, h₁⟩ := hstep s l v t hs hv
      obtain ⟨t', hreaches', h'⟩ := ih h₁ hrun
      exact ⟨t', hreaches.trans hreaches', h'⟩

end SelRej.PartialRun
