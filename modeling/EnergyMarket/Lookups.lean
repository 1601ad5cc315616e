/- Module: EnergyMarket/Lookups
   digest: What the lookup of the consuming flows returns of a vault, and what it fails on. -/

import EnergyMarket.Agreement

set_option autoImplicit false
set_option relaxedAutoImplicit false

namespace EnergyMarket.Lookups
open EnergyMarket.Library.Runs EnergyMarket.Library.Utxo EnergyMarket.States
open EnergyMarket.Transactions EnergyMarket.Ledger EnergyMarket.Flows EnergyMarket.Drafts
open EnergyMarket.Vault EnergyMarket.Identity EnergyMarket.Negotiation EnergyMarket.Network
open EnergyMarket.Chronicle EnergyMarket.Agreement

/-- The states of one class in a vault, of whatever linear id: what the lookups query. -/
def ofClass (α : Type) [StateClass α] (vault : List (StateAndRef ContractState)) :
    List (StateAndRef α) :=
  vault.filterMap StateAndRef.cast

def WithinPage (α : Type) [StateClass α] (hub : ServiceHub) : Prop :=
  (ofClass α hub.vault).length ≤ defaultPageSize

instance (α : Type) [StateClass α] (hub : ServiceHub) : Decidable (WithinPage α hub) :=
  inferInstanceAs (Decidable (_ ≤ _))

variable {α : Type} [StateClass α] {hub : ServiceHub} {vault : List (StateAndRef ContractState)}
variable {id : UniqueIdentifier} {choice : Nat} {notFound : String} {i : StateAndRef α}
variable {map : NetworkMap} {w : NetworkState} {node : Party}

private theorem findAny_single {β : Type} {b : β} : findAny choice [b] = some b := by
  simp [findAny, Nat.mod_one]

theorem findAny_none_iff {β : Type} {l : List β} : findAny choice l = none ↔ l = [] := by
  cases l with
  | nil => simp [findAny]
  | cons b rest =>
    have within : choice % (b :: rest).length < (b :: rest).length :=
      Nat.mod_lt _ (Nat.succ_pos _)
    simp only [findAny, List.getElem?_eq_none_iff, reduceCtorEq, iff_false]
    omega

theorem lookup_within (page : WithinPage α hub) : lookup α notFound hub id choice =
    match findAny choice (candidates α hub.vault id) with
    | some i => .ok i
    | none => .error (.illegalArgument notFound) := by
  have page' : (hub.vault.filterMap (StateAndRef.cast (α := α))).length ≤ defaultPageSize := page
  simp only [lookup, ServiceHub.queryBy, page', if_true, bind, Except.bind, candidates]
  rfl

theorem lookup_beyond (beyond : ¬ WithinPage α hub) :
    lookup α notFound hub id choice = .error .vaultQuery := by
  have beyond' : ¬ (hub.vault.filterMap (StateAndRef.cast (α := α))).length ≤ defaultPageSize :=
    beyond
  simp only [lookup, ServiceHub.queryBy, beyond', if_false, bind, Except.bind]

theorem lookup_single (page : WithinPage α hub) (single : candidates α hub.vault id = [i]) :
    lookup α notFound hub id choice = .ok i := by
  rw [lookup_within page, single, findAny_single]

theorem lookup_held (page : WithinPage α hub) (one : (candidates α hub.vault id).length ≤ 1)
    (held : i.up ∈ hub.vault) (keyed : (StateClass.up i.state.data).getLinearId = some id) :
    lookup α notFound hub id choice = .ok i := by
  have mem : i ∈ candidates α hub.vault id := mem_candidates.mpr ⟨held, keyed⟩
  obtain ⟨j, single⟩ : ∃ j, candidates α hub.vault id = [j] :=
    List.length_eq_one_iff.mp (by have := List.length_pos_of_mem mem; omega)
  obtain rfl := eq_of_single single mem
  exact lookup_single page single

theorem proposals_single (h : Reachable (network map) always w) :
    (candidates ProposalState (w.hub map node).vault id).length ≤ 1 :=
  (uniqueIds_of_rule (ids_of_rule (sound h).orderly)).proposals _ _ _

theorem modifications_single (h : Reachable (network map) always w) :
    (candidates ModifyState (w.hub map node).vault id).length ≤ 1 :=
  (uniqueIds_of_rule (ids_of_rule (sound h).orderly)).modifications _ _ _

end EnergyMarket.Lookups
