/- Module: EnergyMarket/Library/Runs
   digest: Labelled systems, the states their guarded runs reach, and refinement. -/

import Mathlib.Logic.Relation

set_option autoImplicit false
set_option relaxedAutoImplicit false

namespace EnergyMarket.Library.Runs
universe u v w z

/-- A labelled transition system. -/
structure System (σ : Type u) (α : Type v) where
  initial : σ → Prop
  step : σ → α → σ → Prop

variable {σ : Type u} {α : Type v} {τ : Type w} {β : Type z}

/-- The states of the runs whose every step meets the guard. -/
inductive Reachable (S : System σ α) (guard : σ → α → Prop) : σ → Prop
  | initial {s : σ} : S.initial s → Reachable S guard s
  | step {s s' : σ} {a : α} :
      Reachable S guard s → guard s a → S.step s a s' → Reachable S guard s'

/-- The guard that every step meets. -/
def always : σ → α → Prop := fun _ _ => True

namespace Reachable

variable {S : System σ α} {guard guard' : σ → α → Prop} {s s' : σ} {a : α}

theorem next (h : Reachable S always s) (hs : S.step s a s') : Reachable S always s' :=
  .step h trivial hs

/-- A predicate that holds initially and that every guarded step keeps holds in
every state of every guarded run. -/
theorem invariant {I : σ → Prop} (base : ∀ s, S.initial s → I s)
    (keep : ∀ s a s', Reachable S guard s → I s → guard s a → S.step s a s' → I s')
    (h : Reachable S guard s) : I s := by
  induction h with
  | initial h0 => exact base _ h0
  | step hr hg hs ih => exact keep _ _ _ hr ih hg hs

/-- Refinement by an abstraction function: every guarded step is a step of the
abstract system or leaves the abstract state where it was. -/
theorem refine {T : System τ β} (f : σ → τ) (base : ∀ s, S.initial s → T.initial (f s))
    (simulate : ∀ s a s', Reachable S guard s → guard s a → S.step s a s' →
      f s' = f s ∨ ∃ b, T.step (f s) b (f s'))
    (h : Reachable S guard s) : Reachable T always (f s) := by
  induction h with
  | initial h0 => exact .initial (base _ h0)
  | step hr hg hs ih =>
    rcases simulate _ _ _ hr hg hs with same | ⟨b, hb⟩
    · rw [same]
      exact ih
    · exact ih.next hb

theorem mono (weaker : ∀ s a, guard s a → guard' s a) (h : Reachable S guard s) :
    Reachable S guard' s := by
  induction h with
  | initial h0 => exact .initial h0
  | step _ hg hs ih => exact ih.step (weaker _ _ hg) hs

end Reachable

/-- A run from one state to another, with its labels in order. -/
inductive Run (S : System σ α) (guard : σ → α → Prop) (s : σ) : List α → σ → Prop
  | nil : Run S guard s [] s
  | snoc {t u : σ} {as : List α} {a : α} :
      Run S guard s as t → guard t a → S.step t a u → Run S guard s (as ++ [a]) u

namespace Run

variable {S : System σ α} {guard : σ → α → Prop} {s t u : σ} {as bs : List α} {a : α}

theorem single (hg : guard s a) (hs : S.step s a t) : Run S guard s [a] t :=
  .snoc .nil hg hs

theorem trans (h : Run S guard s as t) (h' : Run S guard t bs u) :
    Run S guard s (as ++ bs) u := by
  induction h' with
  | nil => rwa [List.append_nil]
  | snoc _ hg hs ih =>
    rw [← List.append_assoc]
    exact ih.snoc hg hs

theorem reachable (h : Run S guard s as t) (hr : Reachable S guard s) : Reachable S guard t := by
  induction h with
  | nil => exact hr
  | snoc _ hg hs ih => exact ih.step hg hs

theorem reached (h : Run S guard s as t) (hr : Reachable S always s) : Reachable S always t := by
  induction h with
  | nil => exact hr
  | snoc _ _ hs ih => exact ih.next hs

/-- What every guarded step from a reached state keeps, every run does. -/
theorem invariant {I : σ → Prop} (hr : Reachable S always s) (base : I s)
    (keep : ∀ s a t, Reachable S always s → I s → guard s a → S.step s a t → I t)
    (h : Run S guard s as t) : I t := by
  induction h with
  | nil => exact base
  | snoc before hg hs ih => exact keep _ _ _ (before.reached hr) ih hg hs

/-- Where every guarded step lowers a measure, a run is no longer than what it lowers. -/
theorem bounded {μ : σ → Nat} (lowers : ∀ s a t, guard s a → S.step s a t → μ t < μ s)
    (h : Run S guard s as t) : as.length + μ t ≤ μ s := by
  induction h with
  | nil => simp
  | snoc _ hg hs ih =>
    have lower := lowers _ _ _ hg hs
    rw [List.length_append, List.length_singleton]
    omega

/-- Where every state but the final ones has a guarded step, and all of them lower a
measure, some run ends in a final state. -/
theorem drains {μ : σ → Nat} {final : σ → Prop}
    (lowers : ∀ s a t, guard s a → S.step s a t → μ t < μ s)
    (progress : ∀ s, ¬ final s → ∃ a t, guard s a ∧ S.step s a t) (s : σ) :
    ∃ as t, Run S guard s as t ∧ final t := by
  induction hn : μ s using Nat.strongRecOn generalizing s with
  | ind n ih =>
    by_cases done : final s
    · exact ⟨[], s, .nil, done⟩
    · obtain ⟨a, t, hg, hs⟩ := progress s done
      have lower : μ t < n := hn ▸ lowers _ _ _ hg hs
      obtain ⟨as, u, run, ends⟩ := ih (μ t) lower t rfl
      exact ⟨[a] ++ as, u, (single hg hs).trans run, ends⟩

end Run

theorem Reachable.run {S : System σ α} {guard : σ → α → Prop} {s : σ} (h : Reachable S guard s) :
    ∃ s₀ as, S.initial s₀ ∧ Run S guard s₀ as s := by
  induction h with
  | initial h0 => exact ⟨_, [], h0, .nil⟩
  | step _ hg hs ih =>
    obtain ⟨s₀, as, h0, run⟩ := ih
    exact ⟨s₀, _, h0, run.snoc hg hs⟩

/-- A run written out: each label moves the state by a partial function. -/
def replay (next : σ → α → Option σ) (s : σ) : List α → Option σ
  | [] => some s
  | a :: as => (next s a).bind (fun s' => replay next s' as)

theorem replay_reachable {S : System σ α} {guard : σ → α → Prop} (next : σ → α → Option σ)
    (sound : ∀ s a s', next s a = some s' → guard s a ∧ S.step s a s') (as : List α) {s s' : σ}
    (h : Reachable S guard s) (run : replay next s as = some s') : Reachable S guard s' := by
  induction as generalizing s with
  | nil =>
    have same : s = s' := by simpa [replay] using run
    exact same ▸ h
  | cons a as ih =>
    obtain ⟨t, ht, rest⟩ := Option.bind_eq_some_iff.mp run
    obtain ⟨met, step⟩ := sound s a t ht
    exact ih (h.step met step) rest

theorem replay_run {S : System σ α} {guard : σ → α → Prop} (next : σ → α → Option σ)
    {as : List α} (sound : ∀ s, ∀ a ∈ as, ∀ s', next s a = some s' → guard s a ∧ S.step s a s')
    {s s' : σ} (run : replay next s as = some s') : Run S guard s as s' := by
  induction as generalizing s with
  | nil =>
    obtain rfl : s = s' := by simpa [replay] using run
    exact .nil
  | cons a as ih =>
    obtain ⟨t, ht, rest⟩ := Option.bind_eq_some_iff.mp run
    obtain ⟨met, step⟩ := sound s a (List.mem_cons_self ..) t ht
    have later := ih (fun s a ha => sound s a (List.mem_cons_of_mem _ ha)) rest
    exact (Run.single met step).trans later

end EnergyMarket.Library.Runs
