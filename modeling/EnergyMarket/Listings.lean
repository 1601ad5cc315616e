/- Module: EnergyMarket/Listings
   digest: What a node finds listed in its vault, and the deals that it stands for. -/

import EnergyMarket.Trading

set_option autoImplicit false
set_option relaxedAutoImplicit false

namespace EnergyMarket.Listings
open EnergyMarket.Library.Runs EnergyMarket.Library.Utxo EnergyMarket.Library.LinearHistory
open EnergyMarket.States EnergyMarket.Transactions EnergyMarket.Ledger EnergyMarket.Flows
open EnergyMarket.Drafts EnergyMarket.Vault EnergyMarket.Identity EnergyMarket.Negotiation
open EnergyMarket.Network EnergyMarket.Chronicle EnergyMarket.Agreement EnergyMarket.Lookups
open EnergyMarket.Completion EnergyMarket.Market EnergyMarket.Trading

/-- A class of states that stand for a deal at one phase, with their linear id. -/
class DealClass (α : Type) extends StateClass α where
  atPhase : Phase
  linearId : α → UniqueIdentifier
  phase_iff : ∀ {s : ContractState}, phase s = some atPhase ↔ ∃ a : α, s = StateClass.up a
  keyed : ∀ a : α, (StateClass.up a).getLinearId = some (linearId a)

instance : DealClass ProposalState where
  atPhase := .proposed
  linearId := ProposalState.linearId
  phase_iff {s} := by cases s <;> simp [phase]
  keyed _ := rfl

instance : DealClass ModifyState where
  atPhase := .modified
  linearId := ModifyState.linearId
  phase_iff {s} := by cases s <;> simp [phase]
  keyed _ := rfl

instance : DealClass TradeState where
  atPhase := .traded
  linearId := TradeState.linearId
  phase_iff {s} := by cases s <;> simp [phase]
  keyed _ := rfl

instance : DealClass KillState where
  atPhase := .killed
  linearId := KillState.linearId
  phase_iff {s} := by cases s <;> simp [phase]
  keyed _ := rfl

/-- The linear ids of the states of one class that a node holds, in the order of its vault. -/
def listed (α : Type) [DealClass α] (hub : ServiceHub) : List UniqueIdentifier :=
  (ofClass α hub.vault).map (fun i => DealClass.linearId i.state.data)

variable {α : Type} [DealClass α] {map : NetworkMap} {w : NetworkState} {q : Party}
variable {i : StateAndRef α} {id : UniqueIdentifier} {d : Deal PublicKey Terms}
variable {s : TransactionState ContractState} {es : List Started}

omit [DealClass α] in
theorem mem_ofClass {α : Type} [StateClass α] {vault : List (StateAndRef ContractState)}
    {i : StateAndRef α} : i ∈ ofClass α vault ↔ i.up ∈ vault := by
  simp [ofClass, List.mem_filterMap, StateAndRef.cast_iff]

omit [DealClass α] in
private theorem up_inj {α : Type} [StateClass α] {i j : StateAndRef α} (same : i.up = j.up) :
    i = j :=
  Option.some.inj ((StateAndRef.cast_iff.mpr rfl).symm.trans (StateAndRef.cast_iff.mpr same))

omit [DealClass α] in
private theorem ofClass_nodup {α : Type} [StateClass α] {vault : List (StateAndRef ContractState)}
    (nodup : vault.Nodup) : (ofClass α vault).Nodup := by
  refine List.Nodup.filterMap (fun v v' c hc hc' => ?_) nodup
  rw [StateAndRef.cast_iff.mp hc, StateAndRef.cast_iff.mp hc']

/-- What a node has listed of a class, of a network where nothing is under way: the deals at
its phase that concern the node, each once, as they stand. -/
structure Shows (α : Type) [DealClass α] (map : NetworkMap) (w : NetworkState) (q : Party) :
    Prop where
  once : (listed α (w.hub map q)).Nodup
  deals : ∀ id, id ∈ listed α (w.hub map q) ↔
    id ∈ shown (dealsOf w.ledger) q.owningKey (DealClass.atPhase α)
  terms : ∀ i ∈ ofClass α (w.hub map q).vault,
    dealsOf w.ledger (DealClass.linearId i.state.data) = dealOf (StateClass.up i.state.data)

theorem mem_listing (h : Reachable (network map) always w) (delivered : w.deliveries = []) :
    i ∈ ofClass α (w.hub map q).vault ↔
      ports.Unspent w.ledger i.ref i.up.state ∧ relevant q i.up.state.data = true := by
  rw [mem_ofClass, mem_vault_iff h delivered]
  rfl

theorem listed_deal (h : Reachable (network map) always w) (delivered : w.deliveries = [])
    (held : i ∈ ofClass α (w.hub map q).vault) :
    ∃ d, dealsOf w.ledger (DealClass.linearId i.state.data) = some d ∧
      dealOf (StateClass.up i.state.data) = some d ∧ d.phase = DealClass.atPhase α ∧
      d.concerns q.owningKey := by
  obtain ⟨unspent, ours⟩ := (mem_listing h delivered).mp held
  have ids := ids_of_rule (sound h).orderly
  have here : dealsOf w.ledger (DealClass.linearId i.state.data) = dealOf i.up.state.data :=
    dealsOf_unspent ids unspent (DealClass.keyed i.state.data)
  have entered : phase i.up.state.data = some (DealClass.atPhase α) :=
    DealClass.phase_iff.mpr ⟨i.state.data, rfl⟩
  obtain ⟨es, story, -⟩ := (chronicled h).created _ _ unspent.1
  cases deal : dealOf i.up.state.data with
  | none =>
    cases state : i.up.state.data <;> simp [state, dealOf, phase] at deal entered
  | some d =>
    have phased := phase_of_deal deal
    rw [entered] at phased
    exact ⟨d, here.trans deal, deal, (Option.some.inj phased).symm,
      (relevant_deal story deal).mp ours⟩

theorem deal_listed (h : Reachable (network map) always w) (delivered : w.deliveries = [])
    (here : dealsOf w.ledger id = some d) (phased : d.phase = DealClass.atPhase α)
    (concerns : d.concerns q.owningKey) : ∃ i ∈ ofClass α (w.hub map q).vault,
      DealClass.linearId i.state.data = id ∧ dealOf (StateClass.up i.state.data) = some d := by
  obtain ⟨r, ⟨s, notary⟩, unspent, keyed, deal⟩ :=
    dealsOf_some (ids_of_rule (sound h).orderly) here
  obtain ⟨a, rfl⟩ : ∃ a : α, s = StateClass.up a :=
    DealClass.phase_iff.mp (phased ▸ phase_of_deal deal)
  obtain ⟨es, story, -⟩ := (chronicled h).created _ _ unspent.1
  have ours := (relevant_deal story deal).mpr concerns
  have id_of : DealClass.linearId a = id := Option.some.inj ((DealClass.keyed a).symm.trans keyed)
  exact ⟨⟨⟨a, notary⟩, r⟩, (mem_listing h delivered).mpr ⟨unspent, ours⟩, id_of, deal⟩

theorem listings_show (h : Reachable (network map) always w) (delivered : w.deliveries = [])
    (α : Type) [DealClass α] (q : Party) : Shows α map w q := by
  have ids := ids_of_rule (sound h).orderly
  refine ⟨?_, fun id => ?_, fun i held => ?_⟩
  · refine List.Nodup.map_on ?_ (ofClass_nodup vaultOf_nodup)
    intro i hi j hj same
    have unspent := ((mem_listing h delivered).mp hi).1
    have unspent' := ((mem_listing h delivered).mp hj).1
    have keyed : key i.up.state = some (DealClass.linearId i.state.data) := DealClass.keyed _
    have keyed' : key j.up.state = some (DealClass.linearId i.state.data) := by
      rw [same]
      exact DealClass.keyed _
    obtain ⟨ref, state⟩ := (threaded_ids ids _).one_unspent unspent unspent' keyed keyed'
    exact up_inj (congrArg₂ StateAndRef.mk state ref)
  · simp only [listed, List.mem_map, shown, Set.mem_ofPred_eq]
    constructor
    · rintro ⟨i, held, rfl⟩
      obtain ⟨d, here, -, phased, concerns⟩ := listed_deal h delivered held
      exact ⟨d, here, phased, concerns⟩
    · rintro ⟨d, here, phased, concerns⟩
      obtain ⟨i, held, rfl, -⟩ := deal_listed (α := α) h delivered here phased concerns
      exact ⟨i, held, rfl⟩
  · obtain ⟨d, here, deal, -⟩ := listed_deal h delivered held
    exact here.trans deal.symm

theorem withinPage_iff (h : Reachable (network map) always w) (delivered : w.deliveries = []) :
    WithinPage α (w.hub map q) ↔
      (shown (dealsOf w.ledger) q.owningKey (DealClass.atPhase α)).ncard ≤ (rulesOf map).page := by
  have shows := listings_show h delivered α q
  have all : shown (dealsOf w.ledger) q.owningKey (DealClass.atPhase α) =
      ((listed α (w.hub map q)).toFinset : Set UniqueIdentifier) := by
    ext id
    rw [List.coe_toFinset]
    exact (shows.deals id).symm
  rw [all, Set.ncard_coe_finset, List.toFinset_card_of_nodup shows.once, listed, List.length_map]
  exact Iff.rfl

end EnergyMarket.Listings
