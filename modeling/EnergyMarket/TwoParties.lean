/- Module: EnergyMarket/TwoParties
   digest: Trades of one party with itself, which the comparison in Propose lets in. -/

import EnergyMarket.Library.LinearHistory
import EnergyMarket.OneTrade
import EnergyMarket.Roles
import EnergyMarket.Terms

set_option autoImplicit false
set_option relaxedAutoImplicit false

namespace EnergyMarket.TwoParties
open EnergyMarket.Library.Utxo EnergyMarket.Library.LinearHistory EnergyMarket.States
open EnergyMarket.Transactions EnergyMarket.Contract EnergyMarket.Ledger EnergyMarket.Provenance
open EnergyMarket.OneTrade
open EnergyMarket.Roles EnergyMarket.Terms

/-- The buyer of a trade is not its seller, and the transactions that the trade descends
from carry the signatures of two keys. -/
structure TwoParty (L : List SignedTransaction) (r : StateRef) (t : TradeState) : Prop where
  apart : t.buyer.equals t.seller = false
  keys : ∃ i key i' key', Descends ports L i r.txIndex ∧ Descends ports L i' r.txIndex ∧
    key ∈ signedAt L i ∧ key' ∈ signedAt L i' ∧ key ≠ key'

def TwoPartyTrades (L : List SignedTransaction) : Prop :=
  ∀ r t notary, ports.outputAt L r = some ⟨.trade t, notary⟩ → TwoParty L r t

/-- A proposal between two parties. The sets that Propose compares collapse where the
buyer is the seller and the proposer the proposee. -/
def betweenTwo (p : ProposalState) : Bool := !p.buyer.equals p.seller

/-- The check on buyer and seller that no branch of the contract makes. -/
def ProposesBetweenTwo (tx : LedgerTransaction) : Prop :=
  ∀ p ∈ tx.outputsOfType ProposalState, betweenTwo p = true

instance (tx : LedgerTransaction) : Decidable (ProposesBetweenTwo tx) :=
  inferInstanceAs (Decidable (∀ p ∈ _, _ = true))

variable {L : List SignedTransaction} {stx : SignedTransaction} {r : StateRef} {i j k : Nat}
variable {p : ProposalState} {m : ModifyState} {t : TradeState} {notary : Party}

private theorem twoParty_of_proposal (hL : OnLedger L) (hp : ProposedAt L i p)
    (hm : ModifiedAt L i j p m) (ht : AcceptedAt L j r.txIndex m t) (two : betweenTwo p = true) :
    TwoParty L r t := by
  obtain ⟨modify, -, -, modifies, -⟩ := id hm
  obtain ⟨accept, -, -, accepts, -⟩ := id ht
  obtain ⟨propose, hi, -⟩ := id hp
  have descends : Descends ports L i r.txIndex :=
    (descends_accepted hp hm ht).mpr (Or.inr (Or.inr rfl))
  have signed : ∀ key ∈ requiredAt L i, key ∈ signedAt L i := by
    intro key required
    rw [requiredAt_eq hi] at required
    simpa [signedAt, hi] using (hL.committed hi).committable.signed key required
  have different : p.buyer.owningKey ≠ p.seller.owningKey := by
    simpa [betweenTwo, Party.equals] using two
  obtain ⟨buyer, seller⟩ := proposed_parties_sign hp
  constructor
  · have same_buyer := modifies.buyer.trans accepts.buyer
    have same_seller := modifies.seller.trans accepts.seller
    simpa [Party.equals, ← same_buyer, ← same_seller] using different
  · exact ⟨i, _, i, _, descends, descends, signed _ buyer, signed _ seller, different⟩

theorem run_twoParty (hL : OnLedger L) (two : ∀ stx ∈ L, ProposesBetweenTwo stx.tx) :
    TwoPartyTrades L := by
  intro r t notary created
  obtain ⟨accept, m, hk, -, accepts⟩ := created_trade hL created
  obtain ⟨i, j, p, -, -, hp, hm, ht⟩ := accept_origin hL hk accepts
  obtain ⟨propose, hi, proposes⟩ := id hp
  have output : p ∈ propose.tx.outputsOfType ProposalState :=
    LedgerTransaction.mem_outputsOfType.mpr (mem_of_single proposes.outputs)
  exact twoParty_of_proposal hL hp hm ht (two propose (List.mem_of_getElem? hi) p output)

private theorem modified_of_created (hL : OnLedger L) {p' : ProposalState}
    (created : ports.outputAt L r = some ⟨.proposal p, notary⟩)
    (hm : ModifiedAt L r.txIndex j p' m) : p' = p := by
  obtain ⟨propose, -, zero, -⟩ := created_proposal hL created
  obtain ⟨modify, notary', hj, -, inputs⟩ := hm
  have resolved := (hL.origin hj (mem_of_single inputs)).2
  obtain ⟨k, n⟩ := r
  obtain rfl : n = 0 := zero
  have same := Option.some.inj (resolved.symm.trans created)
  simpa using congrArg TransactionState.data same

section Alone

def unmodified (p : ProposalState) : ModifyState :=
  ⟨p.amount, p.unitPrice, p.buyer, p.seller, p.proposer, p.proposee, p.linearId⟩

def roleModify (r : StateRef) (p : ProposalState) (notary : Party) : SignedTransaction where
  tx :=
    { inputs := [⟨⟨.proposal p, notary⟩, r⟩]
      outputs := [⟨.modify (unmodified p), notary⟩]
      commands := [⟨.modify, [p.proposer.owningKey, p.proposee.owningKey]⟩]
      timeWindow := none
      notary := some notary }
  sigs := [p.proposer.owningKey, p.proposee.owningKey]

private theorem roleModify_required :
    (roleModify r p notary).tx.requiredSigningKeys =
      [p.proposer.owningKey, p.proposee.owningKey] :=
  LedgerTransaction.requiredSigningKeys_single rfl

private theorem roleModify_commits (unspent : ports.Unspent L r ⟨.proposal p, notary⟩) :
    Commits L (roleModify r p notary) := by
  have modifies : Modifies (roleModify r p notary).tx p (unmodified p) :=
    ⟨rfl, rfl, by rw [roleModify_required]; rfl, rfl, rfl, rfl, by simp [roleModify_required],
      by simp [roleModify_required]⟩
  refine ⟨spendable_single rfl unspent, fun _ => modifies.verifies, ?_⟩
  intro key hkey
  rwa [roleModify_required] at hkey

/-- A proposal can be brought to a trade of its buyer and seller by its two roles, who
are one party where the buyer and the seller are. -/
theorem trade_of_proposal (hL : OnLedger L) (unspent : ports.Unspent L r ⟨.proposal p, notary⟩) :
    ∃ K r' t, OnLedger (L ++ K) ∧ ports.outputAt (L ++ K) r' = some ⟨.trade t, notary⟩ ∧
      ComesFrom (L ++ K) r' r.txIndex ∧ t.buyer = p.buyer ∧ t.seller = p.seller := by
  have modifies := roleModify_commits unspent
  have hM : OnLedger (L ++ [roleModify r p notary]) := modifies.onLedger hL
  have open_m : ports.Unspent (L ++ [roleModify r p notary]) ⟨L.length, 0⟩
      ⟨.modify (unmodified p), notary⟩ :=
    (unspent_next hL modifies.spendable).mpr (Or.inr (mem_outputsAt.mpr ⟨rfl, rfl⟩))
  have accepts := roleAccept_commits open_m
  have hK := accepts.onLedger hM
  rw [List.append_assoc] at hK
  let K := [roleModify r p notary] ++ [roleAccept ⟨L.length, 0⟩ (unmodified p) notary]
  have at_j : (L ++ K)[L.length]? = some (roleModify r p notary) := by simp [K]
  have at_k : (L ++ K)[L.length + 1]? =
      some (roleAccept ⟨L.length, 0⟩ (unmodified p) notary) := by simp [K]
  refine ⟨K, ⟨L.length + 1, 0⟩, _, hK, outputAt_some.mpr ⟨_, at_k, rfl⟩, ⟨?_, ?_⟩, rfl, rfl⟩
  · obtain ⟨propose, hr, -, proposes⟩ := created_proposal hL unspent.1
    exact ⟨p, propose, position_append hr, proposes⟩
  · refine (descends_single at_k rfl).mpr (Or.inr ?_)
    exact (descends_single at_j rfl).mpr (Or.inr .refl)

end Alone

/-- In every run whose proposals are between two parties every trade is; and an unspent
proposal leads to such trades only, in every continuation of the run, exactly when it is
between two parties itself. -/
theorem two_parties_exactly (hL : OnLedger L) :
    ((∀ stx ∈ L, ProposesBetweenTwo stx.tx) → TwoPartyTrades L) ∧
    ∀ r p notary, ports.Unspent L r ⟨.proposal p, notary⟩ →
      ((∀ K, OnLedger (L ++ K) → ∀ r' t notary',
        ports.outputAt (L ++ K) r' = some ⟨.trade t, notary'⟩ →
          ComesFrom (L ++ K) r' r.txIndex → TwoParty (L ++ K) r' t) ↔ betweenTwo p = true) := by
  refine ⟨run_twoParty hL, ?_⟩
  intro r p notary unspent
  constructor
  · intro every
    obtain ⟨K, r', t, hK, created, origin, buyer, seller⟩ := trade_of_proposal hL unspent
    have apart := (every K hK r' t notary created origin).apart
    rw [buyer, seller] at apart
    simp [betweenTwo, apart]
  · intro two K hK r' t notary' created origin
    obtain ⟨-, i, j, p', m, hm, ht, only⟩ := trade_lineage hK created
    obtain rfl := (only _).mp origin
    obtain rfl := modified_of_created hK (outputAt_append unspent.1) hm
    obtain ⟨propose, hi, -, proposes⟩ := created_proposal hK (outputAt_append unspent.1)
    exact twoParty_of_proposal hK ⟨propose, hi, proposes⟩ hm ht two

theorem two_parties_exactly_deal : OnLedger deal ∧
    ((∀ stx ∈ deal, ProposesBetweenTwo stx.tx) → TwoPartyTrades deal) ∧
    ∀ r p notary, ports.Unspent deal r ⟨.proposal p, notary⟩ →
      ((∀ K, OnLedger (deal ++ K) → ∀ r' t notary',
        ports.outputAt (deal ++ K) r' = some ⟨.trade t, notary'⟩ →
          ComesFrom (deal ++ K) r' r.txIndex → TwoParty (deal ++ K) r' t) ↔
        betweenTwo p = true) :=
  ⟨by decide, two_parties_exactly (by decide)⟩

def alone : List SignedTransaction :=
  [signedBy [1] .propose [] (.proposal ⟨some 10, some 10, alice, alice, alice, alice, 7⟩),
   signedBy [1] .modify [(0, .proposal ⟨some 10, some 10, alice, alice, alice, alice, 7⟩)]
    (.modify ⟨some 8, some 8, alice, alice, alice, alice, 7⟩),
   signedBy [1] .accept [(1, .modify ⟨some 8, some 8, alice, alice, alice, alice, 7⟩)]
    (.trade ⟨some 8, some 8, alice, alice, 7⟩)]

theorem one_party_trades : ¬ ∀ L, OnLedger L → TwoPartyTrades L := by
  intro every
  have two := every alone (by decide) ⟨2, 0⟩ ⟨some 8, some 8, alice, alice, 7⟩ notary (by decide)
  exact absurd two.apart (by decide)

end EnergyMarket.TwoParties
