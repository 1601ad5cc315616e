/- Module: EnergyMarket/Draining
   digest: What becomes of the flows under way once no more are started. -/

import EnergyMarket.Completion

set_option autoImplicit false
set_option relaxedAutoImplicit false

namespace EnergyMarket.Draining
open EnergyMarket.Library.Runs EnergyMarket.Library.Utxo EnergyMarket.States
open EnergyMarket.Transactions EnergyMarket.Ledger EnergyMarket.Flows EnergyMarket.Drafts
open EnergyMarket.Vault EnergyMarket.Identity EnergyMarket.Negotiation EnergyMarket.Network
open EnergyMarket.Chronicle EnergyMarket.Completion

/-- A step of what is already under way. -/
def afoot (_ : NetworkState) : Action → Prop
  | .start .. => False
  | .respond _ | .notarise _ | .deliver _ => True

def Flight.ahead (f : Flight) : Nat := if f.answered then 3 else 4

def pending (w : NetworkState) : Nat := (w.flights.map Flight.ahead).sum + w.deliveries.length

variable {map : NetworkMap} {w w' : NetworkState} {f : Flight} {i : Nat} {a : Action}
variable {as : List Action}

private theorem ahead_erased (at_i : w.flights[i]? = some f) :
    ((w.flights.eraseIdx i).map Flight.ahead).sum + Flight.ahead f =
      (w.flights.map Flight.ahead).sum := by
  obtain ⟨within, rfl⟩ := List.getElem?_eq_some_iff.mp at_i
  have apart := ((List.getElem_cons_eraseIdx_perm within).map Flight.ahead).sum_eq
  rw [List.map_cons, List.sum_cons] at apart
  omega

private theorem ahead_set (at_i : w.flights[i]? = some f) {g : Flight} :
    ((w.flights.set i g).map Flight.ahead).sum + Flight.ahead f =
      (w.flights.map Flight.ahead).sum + Flight.ahead g := by
  have erased := ahead_erased at_i
  obtain ⟨within, -⟩ := List.getElem?_eq_some_iff.mp at_i
  have put := ((List.set_perm_cons_eraseIdx within g).map Flight.ahead).sum_eq
  rw [List.map_cons, List.sum_cons] at put
  omega

theorem pending_lowers (going : afoot w a) (h : next map w a = some w') :
    pending w' < pending w := by
  cases a with
  | start e choice => cases going
  | respond i =>
    obtain ⟨f, at_i, h⟩ := Option.bind_eq_some_iff.mp h
    split at h
    · cases h
    · rename_i unanswered
      have four : Flight.ahead f = 4 := by simp [Flight.ahead, unanswered]
      split at h
      · rename_i signed answer
        have three : Flight.ahead ⟨f.started, f.counterparty, signed, true⟩ = 3 := rfl
        have put := ahead_set at_i (g := ⟨f.started, f.counterparty, signed, true⟩)
        obtain rfl := Option.some.inj h
        simp only [pending]
        omega
      · have erased := ahead_erased at_i
        obtain rfl := Option.some.inj h
        simp only [pending]
        omega
  | notarise i =>
    obtain ⟨f, at_i, h⟩ := Option.bind_eq_some_iff.mp h
    have erased := ahead_erased at_i
    split at h
    · rename_i answered
      have three : Flight.ahead f = 3 := by simp [Flight.ahead, answered]
      split at h
      · obtain rfl := Option.some.inj h
        simp only [pending, List.length_append, List.length_cons, List.length_nil]
        omega
      · obtain rfl := Option.some.inj h
        simp only [pending]
        omega
    · cases h
  | deliver i =>
    obtain ⟨d, at_i, h⟩ := Option.bind_eq_some_iff.mp h
    obtain ⟨within, rfl⟩ := List.getElem?_eq_some_iff.mp at_i
    obtain rfl := Option.some.inj h
    simp only [pending, List.length_eraseIdx_of_lt within]
    omega

theorem progress (busy : ¬ Quiet w) : ∃ a w', afoot w a ∧ next map w a = some w' := by
  cases flights : w.flights with
  | cons f rest =>
    have at_0 : w.flights[0]? = some f := by simp [flights]
    by_cases answered : f.answered = true
    · refine ⟨.notarise 0, ?_⟩
      simp only [next, at_0, Option.bind_eq_bind, Option.bind_some, answered, if_true]
      split <;> exact ⟨_, trivial, rfl⟩
    · refine ⟨.respond 0, ?_⟩
      simp only [next, at_0, Option.bind_eq_bind, Option.bind_some, answered]
      cases f.answer map <;> exact ⟨_, trivial, rfl⟩
  | nil =>
    cases deliveries : w.deliveries with
    | nil => exact absurd ⟨flights, deliveries⟩ busy
    | cons d rest =>
      refine ⟨.deliver 0, ?_⟩
      simp only [next, deliveries, List.getElem?_cons_zero, Option.bind_eq_bind, Option.bind_some]
      exact ⟨_, trivial, rfl⟩

/-- With no more starts every run ends, after a number of steps that is known beforehand,
and it can only end where no flow is in progress and every node has heard of everything. -/
theorem flows_settle (map : NetworkMap) (w : NetworkState) :
    (∀ as w', Run (network map) afoot w as w' → as.length + pending w' ≤ pending w ∧
      ((¬ ∃ a w'', afoot w' a ∧ (network map).step w' a w'') ↔ Quiet w')) ∧
    ∃ as w', Run (network map) afoot w as w' ∧ Quiet w' := by
  refine ⟨fun as w' run => ⟨run.bounded fun _ _ _ => pending_lowers, ?_⟩,
    Run.drains (fun _ _ _ => pending_lowers) (fun _ => progress) w⟩
  constructor
  · intro stopped
    by_contra busy
    exact stopped (progress busy)
  · rintro quiet ⟨a, w'', going, step⟩
    have none : pending w' = 0 := by simp [pending, quiet.flights, quiet.deliveries]
    have lower := pending_lowers going step
    omega

end EnergyMarket.Draining
