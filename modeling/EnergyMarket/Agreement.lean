/- Module: EnergyMarket/Agreement
   digest: The vaults of two negotiating nodes, the notary, and everybody else. -/

import EnergyMarket.HonestHistory

set_option autoImplicit false
set_option relaxedAutoImplicit false

namespace EnergyMarket.Agreement
open EnergyMarket.Library.Runs EnergyMarket.Library.Utxo EnergyMarket.Library.LinearHistory
open EnergyMarket.States EnergyMarket.Transactions EnergyMarket.Contract EnergyMarket.Ledger
open EnergyMarket.Vault EnergyMarket.Identity EnergyMarket.Negotiation EnergyMarket.Network
open EnergyMarket.Chronicle EnergyMarket.HonestHistory

def heldBy (map : NetworkMap) (w : NetworkState) (node : Party) (id : UniqueIdentifier) :
    Set (StateAndRef ContractState) :=
  {i | i ∈ (w.hub map node).vault ∧ i.state.data.getLinearId = some id}

def unspentOf (w : NetworkState) (id : UniqueIdentifier) : Set (StateAndRef ContractState) :=
  {i | ports.Unspent w.ledger i.ref i.state ∧ i.state.data.getLinearId = some id}

/-- The two nodes of a negotiation hold what the notary does, and no other node holds or
has ever recorded anything of it. -/
structure Agreed (map : NetworkMap) (w : NetworkState) (id : UniqueIdentifier) (a b : Party) :
    Prop where
  first : heldBy map w a id = unspentOf w id
  second : heldBy map w b id = unspentOf w id
  isolated : ∀ c, c.equals a = false → c.equals b = false → heldBy map w c id = ∅ ∧
    ∀ o ∈ history ports key w.ledger id, o.1.txIndex ∉ w.recordedBy c

variable {map : NetworkMap} {w : NetworkState} {id : UniqueIdentifier} {q : Party} {k : Nat}
variable {r : StateRef} {s : TransactionState ContractState}

theorem recordedBy_iff (delivered : w.deliveries = []) :
    k ∈ w.recordedBy q ↔ Informed w q k := by
  simp only [NetworkState.recordedBy, Informed, delivered, List.append_nil, List.mem_map,
    List.mem_filter, and_assoc]

private theorem consumer_informed (h : Chronicled map w) (ids : ports.Ledger idRule w.ledger)
    {stx : SignedTransaction} (hk : w.ledger[k]? = some stx) (hi : (r, s) ∈ ports.inputs stx) :
    Informed w q k ↔ relevant q s.data = true := by
  have resolved := ((onLedger_of_ids ids).origin hk hi).2
  obtain ⟨es, story, -⟩ := h.created r s resolved
  obtain ⟨first, rest, peer, -, opening⟩ := story.opening
  have input : (r, s) ∈ history ports key w.ledger first.newId :=
    mem_history.mpr ⟨resolved, opening.id⟩
  have four : s.data.belongsToContract = true := by
    rw [ContractState.belongsToContract_iff, opening.id]
    simp
  have runs := LedgerTransaction.runsContract_input (input_state_mem (mem_inputs.mp hi)) four
  have accepted := ((onLedger_of_ids ids).committed hk).committable.accepted runs
  obtain ⟨o, single, -⟩ := accepted.output
  obtain ⟨notary, created⟩ := only_output_created hk single
  obtain ⟨notary', outputs⟩ := outputs_single single
  have output : (⟨k, 0⟩, ⟨o, notary⟩) ∈ history ports key w.ledger first.newId := by
    have kept := output_key ids hk hi (mem_of_single outputs)
    exact mem_history.mpr ⟨created, kept.trans opening.id⟩
  obtain ⟨e, -, peer', shared⟩ := opened_once h input
  calc Informed w q k
      ↔ relevant q o = true := h.informed _ _ created q
    _ ↔ e.node.equals q = true ∨ peer'.equals q = true := (shared _ output).between.relevant_iff
    _ ↔ relevant q s.data = true := (shared _ input).between.relevant_iff.symm

theorem mem_vault_iff (h : Reachable (network map) always w) (delivered : w.deliveries = [])
    {i : StateAndRef ContractState} : i ∈ (w.hub map q).vault ↔
      ports.Unspent w.ledger i.ref i.state ∧ relevant q i.state.data = true := by
  have chronicle := chronicled h
  have ids := ids_of_rule (sound h).orderly
  have vault : i ∈ (w.hub map q).vault ↔ _ := mem_vaultOf
  rw [vault, recordedBy_iff delivered]
  constructor
  · rintro ⟨created, -, ours, kept⟩
    refine ⟨⟨created, ?_⟩, ours⟩
    rintro ⟨stx, mem, consumed⟩
    obtain ⟨k, hk⟩ := List.mem_iff_getElem?.mp mem
    obtain ⟨s, hs⟩ := mem_consumed.mp consumed
    have same : s = i.state :=
      Option.some.inj (((onLedger_of_ids ids).origin hk hs).2.symm.trans created)
    have informed : Informed w q k := (consumer_informed chronicle ids hk hs).mpr (same ▸ ours)
    exact kept ⟨k, (recordedBy_iff delivered).mpr informed, stx, hk, consumed⟩
  · rintro ⟨⟨created, unspent⟩, ours⟩
    refine ⟨created, (chronicle.informed _ _ created q).mpr ours, ours, ?_⟩
    rintro ⟨k, -, stx, hk, consumed⟩
    exact unspent ⟨stx, List.mem_of_getElem? hk, consumed⟩

/-- Between two nodes that have heard of everything there is no doubt about what is open,
and nobody else knows of it. -/
theorem vaults_agree (h : Reachable (network map) always w) (delivered : w.deliveries = [])
    {a b : Party} {o : StateRef × TransactionState ContractState}
    (ho : o ∈ history ports key w.ledger id) (between : Between a b o.2.data) :
    Agreed map w id a b := by
  obtain ⟨e, -, peer, shared⟩ := opened_once (chronicled h) ho
  have concerns : ∀ (q : Party), ∀ i ∈ history ports key w.ledger id,
      (relevant q i.2.data = true ↔ a.equals q = true ∨ b.equals q = true) := by
    intro q i hi
    rw [(shared _ hi).between.relevant_iff, ← (shared _ ho).between.relevant_iff]
    exact between.relevant_iff
  have known : ∀ i : StateAndRef ContractState, ports.Unspent w.ledger i.ref i.state →
      i.state.data.getLinearId = some id → (i.ref, i.state) ∈ history ports key w.ledger id :=
    fun i unspent keyed => mem_history.mpr ⟨unspent.1, keyed⟩
  have side : ∀ q, a.equals q = true ∨ b.equals q = true → heldBy map w q id = unspentOf w id := by
    intro q ours
    ext i
    simp only [heldBy, unspentOf, Set.mem_ofPred_eq, mem_vault_iff h delivered]
    constructor
    · rintro ⟨⟨unspent, -⟩, keyed⟩
      exact ⟨unspent, keyed⟩
    · rintro ⟨unspent, keyed⟩
      exact ⟨⟨unspent, (concerns q _ (known i unspent keyed)).mpr ours⟩, keyed⟩
  have third : ∀ c : Party, c.equals a = false → c.equals b = false →
      ∀ i ∈ history ports key w.ledger id, ¬ relevant c i.2.data = true := by
    intro c not_a not_b i hi ours
    rcases (concerns c i hi).mp ours with same | same
    · simp_all [Party.equals]
    · simp_all [Party.equals]
  refine ⟨side a (Or.inl (by simp)), side b (Or.inr (by simp)), fun c not_a not_b => ⟨?_, ?_⟩⟩
  · apply Set.eq_empty_iff_forall_notMem.mpr
    intro i hi
    obtain ⟨held, keyed⟩ := hi
    obtain ⟨unspent, ours⟩ := (mem_vault_iff h delivered).mp held
    exact third c not_a not_b _ (known i unspent keyed) ours
  · intro i hi recorded
    have informed := (recordedBy_iff delivered).mp recorded
    have ours := ((chronicled h).informed _ _ (mem_history.mp hi).1 c).mp informed
    exact third c not_a not_b i hi ours

def rested : NetworkState :=
  { raced with recorded := raced.recorded ++ raced.deliveries, deliveries := [] }

theorem rested_reachable : Reachable (network twoNodes) always rested :=
  replay_reachable (next twoNodes) (fun _ _ _ hs => ⟨trivial, hs⟩) [.deliver 0, .deliver 0]
    raced_reachable (by decide)

theorem vaults_agree_race : Reachable (network twoNodes) always rested ∧
    Agreed twoNodes rested 7 alice bob :=
  ⟨rested_reachable, vaults_agree (o := (⟨2, 0⟩, ⟨.trade bargain, notary⟩)) rested_reachable rfl
    (by decide) ⟨rfl, rfl⟩⟩

end EnergyMarket.Agreement
