/- Module: EnergyMarket/OneTrade
   digest: No proposal leads to two trades, whatever linear ids the states carry. -/

import EnergyMarket.Provenance

set_option autoImplicit false
set_option relaxedAutoImplicit false

namespace EnergyMarket.OneTrade
open EnergyMarket.Library.Utxo EnergyMarket.States EnergyMarket.Transactions
open EnergyMarket.Contract EnergyMarket.Ledger EnergyMarket.Provenance

variable {L : List SignedTransaction} {r r' : StateRef} {i j j' k k' : Nat} {notary : Party}
variable {p p' : ProposalState} {m m' : ModifyState} {t t' : TradeState}

def numberOf (α : Type) [StateClass α] (L : List SignedTransaction) : Nat :=
  (ports.created L).countP (fun o => (StateClass.cast (α := α) o.2.data).isSome)

def ComesFrom (L : List SignedTransaction) (r : StateRef) (i : Nat) : Prop :=
  (∃ p, ProposedAt L i p) ∧ Descends ports L i r.txIndex

/-- Trades are mapped one to one to the proposals they come from, and each class was
created no more often than the one before it. -/
structure OneTradeEach (L : List SignedTransaction) : Prop where
  origin : ∀ r t notary, ports.outputAt L r = some ⟨.trade t, notary⟩ → ∃! i, ComesFrom L r i
  injective : ∀ r t notary r' t' notary' i, ports.outputAt L r = some ⟨.trade t, notary⟩ →
    ports.outputAt L r' = some ⟨.trade t', notary'⟩ → ComesFrom L r i → ComesFrom L r' i → r = r'
  trades : numberOf TradeState L ≤ numberOf ModifyState L
  modifications : numberOf ModifyState L ≤ numberOf ProposalState L

private theorem not_proposed_of_inputs {stx : SignedTransaction} (hk : L[k]? = some stx)
    {s : ContractState} (inputs : stx.tx.getInputStates = [s]) : ¬ ∃ p, ProposedAt L k p := by
  rintro ⟨p, stx', hk', proposes⟩
  obtain rfl : stx = stx' := Option.some.inj (hk.symm.trans hk')
  have none := proposes.inputs
  rw [inputs] at none
  cases none

/-- The one Propose that a trade comes from, with the chain that leads there. -/
theorem trade_lineage (hL : OnLedger L)
    (created : ports.outputAt L r = some ⟨.trade t, notary⟩) :
    r.outputIndex = 0 ∧ ∃ i j p m, ModifiedAt L i j p m ∧ AcceptedAt L j r.txIndex m t ∧
      ∀ a, ComesFrom L r a ↔ a = i := by
  obtain ⟨stx, m, hk, zero, accepts⟩ := created_trade hL created
  obtain ⟨i, j, p, -, -, hp, hm, ht⟩ := accept_origin hL hk accepts
  refine ⟨zero, i, j, p, m, hm, ht, fun a => ?_⟩
  rw [ComesFrom, descends_accepted hp hm ht]
  constructor
  · rintro ⟨proposed, rfl | rfl | rfl⟩
    · exact absurd proposed (not_proposed_of_inputs hk accepts.inputs)
    · obtain ⟨modify, -, hj, modifies, -⟩ := hm
      exact absurd proposed (not_proposed_of_inputs hj modifies.inputs)
    · rfl
  · rintro rfl
    exact ⟨⟨p, hp⟩, Or.inr (Or.inr rfl)⟩

private theorem single_consumer (hL : OnLedger L) {stx stx' : SignedTransaction}
    {s s' : TransactionState ContractState} (hj : L[j]? = some stx) (hj' : L[j']? = some stx')
    (inputs : ports.inputs stx = [(r, s)]) (inputs' : ports.inputs stx' = [(r, s')]) :
    j = j' := by
  have consumed : r ∈ ports.consumed stx := mem_consumed.mpr ⟨s, mem_of_single inputs⟩
  have consumed' : r ∈ ports.consumed stx' := mem_consumed.mpr ⟨s', mem_of_single inputs'⟩
  exact hL.spent_once hj hj' consumed consumed'

private theorem modified_once (hL : OnLedger L) (h : ModifiedAt L i j p m)
    (h' : ModifiedAt L i j' p' m') : j = j' := by
  obtain ⟨stx, notary, hj, -, inputs⟩ := h
  obtain ⟨stx', notary', hj', -, inputs'⟩ := h'
  exact single_consumer hL hj hj' inputs inputs'

private theorem accepted_once (hL : OnLedger L) (h : AcceptedAt L j k m t)
    (h' : AcceptedAt L j k' m' t') : k = k' := by
  obtain ⟨stx, notary, hk, -, inputs⟩ := h
  obtain ⟨stx', notary', hk', -, inputs'⟩ := h'
  exact single_consumer hL hk hk' inputs inputs'

theorem one_trade (hL : OnLedger L) {notary' : Party}
    (created : ports.outputAt L r = some ⟨.trade t, notary⟩)
    (created' : ports.outputAt L r' = some ⟨.trade t', notary'⟩)
    (from_i : ComesFrom L r i) (from_i' : ComesFrom L r' i) : r = r' := by
  obtain ⟨zero, a, j, p, m, hm, ht, only⟩ := trade_lineage hL created
  obtain ⟨zero', a', j', p', m', hm', ht', only'⟩ := trade_lineage hL created'
  obtain rfl := (only i).mp from_i
  obtain rfl := (only' i).mp from_i'
  obtain rfl := modified_once hL hm hm'
  have position := accepted_once hL ht ht'
  cases r
  cases r'
  simp_all

private theorem number_le {α β : Type} [StateClass α] [StateClass β] (hL : OnLedger L)
    (creates : ∀ {r : StateRef} {a : α} {notary : Party},
      ports.outputAt L r = some ⟨StateClass.up a, notary⟩ → ∃ stx, L[r.txIndex]? = some stx ∧
        r.outputIndex = 0 ∧ ∃ b : β, stx.tx.getInputStates = [StateClass.up b]) :
    numberOf α L ≤ numberOf β L := by
  refine hL.count_le (A := fun s => (StateClass.cast (α := α) s.data).isSome)
    (B := fun s => (StateClass.cast (α := β) s.data).isSome) ?_
  intro k stx hk n s output kind
  obtain ⟨a, cast⟩ := Option.isSome_iff_exists.mp kind
  have created : ports.outputAt L ⟨k, n⟩ = some ⟨StateClass.up a, s.notary⟩ := by
    rw [← StateClass.cast_iff.mp cast]
    exact outputAt_some.mpr ⟨stx, hk, output⟩
  obtain ⟨stx', hk', zero, b, inputs⟩ := creates created
  obtain rfl : stx = stx' := Option.some.inj (hk.symm.trans hk')
  obtain ⟨r, notary, single⟩ := inputs_single inputs
  exact ⟨zero, _, mem_of_single single, by simp⟩

/-- No ProposalState leads to two TradeStates, and there are no more trades than
modifications, nor more modifications than proposals. -/
theorem one_trade_per_proposal (hL : OnLedger L) : OneTradeEach L := by
  refine ⟨?_, ?_, ?_, ?_⟩
  · intro r t notary created
    obtain ⟨-, i, j, p, m, -, -, only⟩ := trade_lineage hL created
    exact ⟨i, (only i).mpr rfl, fun a from_a => (only a).mp from_a⟩
  · intro r t notary r' t' notary' i created created' from_i from_i'
    exact one_trade hL created created' from_i from_i'
  · apply number_le hL
    intro r t notary created
    obtain ⟨stx, m, hk, zero, accepts⟩ := created_trade hL created
    exact ⟨stx, hk, zero, m, accepts.inputs⟩
  · apply number_le hL
    intro r m notary created
    obtain ⟨stx, p, hj, zero, modifies⟩ := created_modify hL created
    exact ⟨stx, hj, zero, p, modifies.inputs⟩

theorem one_trade_per_proposal_deal : OnLedger deal ∧ OneTradeEach deal :=
  ⟨by decide, one_trade_per_proposal (by decide)⟩

end EnergyMarket.OneTrade
