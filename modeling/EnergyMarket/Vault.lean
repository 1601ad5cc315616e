/- Module: EnergyMarket/Vault
   digest: What a node's vault holds of a ledger, from the transactions it has recorded. -/

import EnergyMarket.Flows
import EnergyMarket.Ledger

set_option autoImplicit false
set_option relaxedAutoImplicit false

namespace EnergyMarket.Vault
open EnergyMarket.Library.Utxo EnergyMarket.States EnergyMarket.Transactions
open EnergyMarket.Ledger EnergyMarket.Flows

/-- A state is relevant to the nodes that take part in it. -/
def relevant (us : Party) (s : ContractState) : Bool := s.getParticipants.any us.equals

def consumedBy (L : List SignedTransaction) (recorded : List Nat) (r : StateRef) : Prop :=
  ∃ k ∈ recorded, ∃ stx ∈ L[k]?, r ∈ ports.consumed stx

instance (L : List SignedTransaction) (recorded : List Nat) (r : StateRef) :
    Decidable (consumedBy L recorded r) :=
  inferInstanceAs (Decidable (∃ k ∈ recorded, ∃ stx ∈ L[k]?, r ∈ ports.consumed stx))

/-- The relevant outputs of the recorded transactions that no recorded transaction
consumes. -/
def vaultOf (us : Party) (L : List SignedTransaction) (recorded : List Nat) :
    List (StateAndRef ContractState) :=
  ((ports.created L).filter (fun o => recorded.contains o.1.txIndex && relevant us o.2.data &&
    !decide (consumedBy L recorded o.1))).map (fun o => ⟨o.2, o.1⟩)

def hubOf (us : Party) (notaryIdentities : List Party) (L : List SignedTransaction)
    (recorded : List Nat) : ServiceHub :=
  ⟨us, vaultOf us L recorded, notaryIdentities⟩

variable {us : Party} {L : List SignedTransaction} {recorded : List Nat}
variable {i : StateAndRef ContractState}

theorem mem_vaultOf : i ∈ vaultOf us L recorded ↔
    ports.outputAt L i.ref = some i.state ∧ i.ref.txIndex ∈ recorded ∧
      relevant us i.state.data = true ∧ ¬ consumedBy L recorded i.ref := by
  obtain ⟨s, r⟩ := i
  simp only [vaultOf, List.mem_map, List.mem_filter, Prod.exists, StateAndRef.mk.injEq,
    Bool.and_eq_true, Bool.not_eq_true', decide_eq_false_iff_not, List.contains_iff_mem]
  constructor
  · rintro ⟨r', s', ⟨mem, ⟨known, ours⟩, kept⟩, rfl, rfl⟩
    exact ⟨mem_created.mp mem, known, ours, kept⟩
  · rintro ⟨created, known, ours, kept⟩
    exact ⟨r, s, ⟨mem_created.mpr created, ⟨known, ours⟩, kept⟩, rfl, rfl⟩

theorem vault_resolves (h : i ∈ vaultOf us L recorded) :
    ports.outputAt L i.ref = some i.state :=
  (mem_vaultOf.mp h).1

theorem vaultOf_nodup : (vaultOf us L recorded).Nodup := by
  refine (created_nodup.filter _).map (fun o o' same => ?_)
  obtain ⟨state, ref⟩ := StateAndRef.mk.inj same
  exact Prod.ext ref state

end EnergyMarket.Vault
