/-
Labelled transitions, and runs that keep to a rule.

A system is a step function that may refuse.  A guard says which labels may be taken in
which states, and a run is guarded if every step of it keeps to the guard.
`GuardedRun.induct` is the one induction the results about runs rest on: what every
guarded step preserves, every guarded run preserves, together with a relation between
the states before and after.
-/
import Mathlib.Order.WellFounded

namespace Lib

variable {S L : Type}

/-- Take the steps in order; a refused step refuses the run. -/
def runSteps (step : S → L → Option S) : S → List L → Option S
  | s, [] => some s
  | s, label :: labels => (step s label).bind fun s' => runSteps step s' labels

theorem runSteps_append (step : S → L → Option S) (s : S) (l l' : List L) :
    runSteps step s (l ++ l') = (runSteps step s l).bind fun t => runSteps step t l' := by
  induction l generalizing s with
  | nil => rfl
  | cons label l ih =>
    rw [List.cons_append, runSteps, runSteps, Option.bind_assoc]
    exact congrArg _ (funext ih)

/-- A run in which every step is taken in a state the guard allows it in. -/
inductive GuardedRun (step : S → L → Option S) (guard : S → L → Prop) : S → List L → S → Prop
  | nil (s : S) : GuardedRun step guard s [] s
  | cons {s s' t : S} {label : L} {labels : List L} (hguard : guard s label)
      (hstep : step s label = some s') (hrun : GuardedRun step guard s' labels t) :
      GuardedRun step guard s (label :: labels) t

variable {step : S → L → Option S} {guard : S → L → Prop}

/-- Take the steps in order, as long as the guard allows them. -/
def runGuarded (step : S → L → Option S) (guard : S → L → Prop)
    [∀ s label, Decidable (guard s label)] : S → List L → Option S
  | s, [] => some s
  | s, label :: labels =>
    if guard s label then (step s label).bind fun s' => runGuarded step guard s' labels else none

variable {labels : List L}

theorem guardedRun_of_runGuarded [∀ s label, Decidable (guard s label)] :
    ∀ {s t : S}, runGuarded step guard s labels = some t → GuardedRun step guard s labels t := by
  induction labels with
  | nil =>
    intro s t h
    cases h
    exact .nil s
  | cons label labels ih =>
    intro s t h
    unfold runGuarded at h
    by_cases hguard : guard s label
    · rw [if_pos hguard] at h
      obtain ⟨s', hstep, hrest⟩ := Option.bind_eq_some_iff.mp h
      exact .cons hguard hstep (ih hrest)
    · rw [if_neg hguard] at h
      cases h

/-- A guarded run is a run. -/
theorem GuardedRun.runSteps_eq {s t : S} (h : GuardedRun step guard s labels t) :
    runSteps step s labels = some t := by
  induction h with
  | nil s => rfl
  | cons _ hstep _ ih =>
    rw [runSteps, hstep, Option.bind_some]
    exact ih

/-- A run can be taken apart anywhere. -/
theorem GuardedRun.exists_middle {labels' : List L} : ∀ {s t : S},
    GuardedRun step guard s (labels ++ labels') t →
      ∃ m, GuardedRun step guard s labels m ∧ GuardedRun step guard m labels' t := by
  induction labels with
  | nil => exact fun {s t} h => ⟨s, .nil s, h⟩
  | cons label labels ih =>
    intro s t h
    cases h with
    | cons hguard hstep hrest =>
      obtain ⟨m, hfront, hback⟩ := ih hrest
      exact ⟨m, .cons hguard hstep hfront, hback⟩

/-- Two runs in a row, by what the states after each look like. -/
def runViews {V : Type} (step : S → L → Option S) (guard : S → L → Prop)
    [∀ s label, Decidable (guard s label)] (view : S → V) (s : S) (first second : List L) :
    Option (V × V) :=
  (runGuarded step guard s first).bind fun t =>
    (runGuarded step guard t second).map fun t' => (view t, view t')

theorem guardedRuns_of_views [∀ s label, Decidable (guard s label)] {V : Type} {view : S → V}
    {s : S} {labels' : List L} {v v' : V}
    (h : runViews step guard view s labels labels' = some (v, v')) :
    ∃ t t', GuardedRun step guard s labels t ∧ GuardedRun step guard t labels' t' ∧
      view t = v ∧ view t' = v' := by
  obtain ⟨t, ht, h⟩ := Option.bind_eq_some_iff.mp h
  obtain ⟨t', ht', hviews⟩ := Option.map_eq_some_iff.mp h
  obtain ⟨hv, hv'⟩ := Prod.mk.inj hviews
  exact ⟨t, t', guardedRun_of_runGuarded ht, guardedRun_of_runGuarded ht', hv, hv'⟩

/-- The run rule: an invariant, and a relation from each state to all later ones. -/
theorem GuardedRun.induct {I : S → Prop} {R : S → S → Prop} (hrefl : ∀ s, R s s)
    (htrans : ∀ s s' s'', R s s' → R s' s'' → R s s'')
    (hstep : ∀ s label s', I s → guard s label → step s label = some s' → I s' ∧ R s s') {s t : S}
    (h : GuardedRun step guard s labels t) (hs : I s) : I t ∧ R s t := by
  induction h with
  | nil s => exact ⟨hs, hrefl s⟩
  | @cons s s' t label labels hguard htaken _ ih =>
    obtain ⟨hs', hrel⟩ := hstep s label s' hs hguard htaken
    obtain ⟨ht, hrel'⟩ := ih hs'
    exact ⟨ht, htrans s s' t hrel hrel'⟩

/-- A run of labels that may be taken in any state. -/
theorem guardedRun_of_forall :
    ∀ {s t : S}, runSteps step s labels = some t → (∀ label ∈ labels, ∀ s, guard s label) →
      GuardedRun step guard s labels t := by
  induction labels with
  | nil =>
    intro s t h _
    cases h
    exact .nil s
  | cons label labels ih =>
    intro s t h hguard
    obtain ⟨s', hstep, hrest⟩ := Option.bind_eq_some_iff.mp h
    exact .cons (hguard label List.mem_cons_self s) hstep
      (ih hrest fun later hlater => hguard later (List.mem_cons_of_mem label hlater))

/-- A run that keeps to no rule. -/
theorem guardedRun_of_runSteps {s t : S} (h : runSteps step s labels = some t) :
    GuardedRun step (fun _ _ => True) s labels t :=
  guardedRun_of_forall h fun _ _ _ => trivial

/-- The run rule for an invariant alone. -/
theorem GuardedRun.invariant {I : S → Prop}
    (hstep : ∀ s label s', I s → guard s label → step s label = some s' → I s') {s t : S}
    (h : GuardedRun step guard s labels t) (hs : I s) : I t :=
  (h.induct (R := fun _ _ => True) (fun _ => trivial) (fun _ _ _ _ _ => trivial)
    (fun s label s' hinv hguard htaken => ⟨hstep s label s' hinv hguard htaken, trivial⟩) hs).1

/-! ### Runs without end -/

/-- The state after so many steps, of a system that never refuses. -/
def runForever (step : S → L → S) (s : S) (labels : Nat → L) : Nat → S
  | 0 => s
  | i + 1 => step (runForever step s labels i) (labels i)

/-- What never grows settles. -/
theorem exists_settled {μ : Nat → Nat} (h : ∀ i, μ (i + 1) ≤ μ i) :
    ∃ N, ∀ i, N ≤ i → μ (i + 1) = μ i := by
  obtain ⟨m, ⟨N, rfl⟩, hmin⟩ := wellFounded_lt.has_min (Set.range μ) ⟨_, 0, rfl⟩
  have hbelow : ∀ i, N ≤ i → μ i ≤ μ N := by
    intro i hi
    induction hi with
    | refl => exact le_rfl
    | step _ ih => exact (h _).trans ih
  refine ⟨N, ?_⟩
  intro i hi
  have hleast := not_lt.mp (hmin (μ (i + 1)) ⟨i + 1, rfl⟩)
  exact Nat.le_antisymm (h i) ((hbelow i hi).trans hleast)

end Lib
