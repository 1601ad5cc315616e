/- Module: EnergyMarket/Terms
   digest: Where the terms of a trade come from, and the check that Accept leaves out. -/

import EnergyMarket.Provenance

set_option autoImplicit false
set_option relaxedAutoImplicit false

namespace EnergyMarket.Terms
open EnergyMarket.Library.Utxo EnergyMarket.States EnergyMarket.Transactions
open EnergyMarket.Contract EnergyMarket.Ledger EnergyMarket.Provenance

def signedAt (L : List SignedTransaction) (i : Nat) : List PublicKey :=
  (L[i]?.map SignedTransaction.sigs).getD []

/-- Every TradeState ever created carries the amount and the unit price of the
ModifyState its Accept consumed, which is on the ledger by a Modify that both sides of
the negotiation signed. -/
def TermsIntegrity (L : List SignedTransaction) : Prop :=
  ∀ r t notary, ports.outputAt L r = some ⟨.trade t, notary⟩ →
    ∃ i j p m, AcceptedAt L j r.txIndex m t ∧ t.amount = m.amount ∧ t.unitPrice = m.unitPrice ∧
      ModifiedAt L i j p m ∧ ∀ q ∈ (ContractState.proposal p).negotiators,
        q.owningKey ∈ signedAt L j

/-- The check that the Accept branch has commented out, made for the unit price too. -/
def TermsUnmodified (tx : LedgerTransaction) : Prop :=
  ∀ input ∈ tx.inputsOfType ModifyState, ∀ output ∈ tx.outputsOfType TradeState,
    output.amount = input.amount ∧ output.unitPrice = input.unitPrice

instance (tx : LedgerTransaction) : Decidable (TermsUnmodified tx) :=
  inferInstanceAs (Decidable (∀ input ∈ _, ∀ output ∈ _, _ ∧ _))

variable {L : List SignedTransaction} {stx : SignedTransaction} {i j k : Nat}
variable {p : ProposalState} {m : ModifyState} {t : TradeState}

private theorem termsUnmodified_accept (h : Accepts stx.tx m t) :
    TermsUnmodified stx.tx ↔ t.amount = m.amount ∧ t.unitPrice = m.unitPrice := by
  simp [TermsUnmodified, LedgerTransaction.inputsOfType, LedgerTransaction.outputsOfType,
    h.inputs, h.outputs, StateClass.cast]

private theorem termsUnmodified_or_accept (h : Committable stx) :
    TermsUnmodified stx.tx ∨ ∃ m t, Accepts stx.tx m t := by
  cases runs : stx.tx.runsContract with
  | false =>
    refine Or.inl (fun input hin => ?_)
    have runs' := LedgerTransaction.runsContract_input
      (LedgerTransaction.mem_inputsOfType.mp hin) rfl
    simp [runs] at runs'
  | true =>
    cases h.accepted runs with
    | accept h => exact Or.inr ⟨_, _, h⟩
    | propose h | modify h | kill h =>
      refine Or.inl ?_
      simp [TermsUnmodified, LedgerTransaction.outputsOfType, h.outputs, StateClass.cast]

private theorem modified_both_signed (hL : OnLedger L) (h : ModifiedAt L i j p m) :
    ∀ q ∈ (ContractState.proposal p).negotiators, q.owningKey ∈ signedAt L j := by
  obtain ⟨stx, -, hj, modifies, -⟩ := h
  have signed := (hL.committed hj).committable.signed
  intro q hq
  simp only [ContractState.negotiators, List.mem_cons, List.not_mem_nil, or_false] at hq
  simp only [signedAt, hj, Option.map_some, Option.getD_some]
  rcases hq with rfl | rfl
  · exact signed _ modifies.proposer
  · exact signed _ modifies.proposee

private theorem accepted_unique {j' : Nat} {m' : ModifyState} {t' : TradeState}
    (hk : L[k]? = some stx) (h : Accepts stx.tx m t) (ht : AcceptedAt L j' k m' t') :
    m' = m ∧ t' = t := by
  obtain ⟨stx', notary, hk', accepts, hin⟩ := ht
  obtain rfl : stx = stx' := Option.some.inj (hk.symm.trans hk')
  have input := accepts.inputs.symm.trans h.inputs
  have output := accepts.outputs.symm.trans h.outputs
  simp only [List.cons.injEq, ContractState.modify.injEq, ContractState.trade.injEq,
    and_true] at input output
  exact ⟨input, output⟩

private theorem unmodified_of_integrity (hL : OnLedger L) (integrity : TermsIntegrity L) :
    ∀ stx ∈ L, TermsUnmodified stx.tx := by
  intro stx mem
  rcases termsUnmodified_or_accept (hL.committable mem) with h | ⟨m, t, h⟩
  · exact h
  · obtain ⟨k, hk⟩ := List.mem_iff_getElem?.mp mem
    obtain ⟨notary, created⟩ := only_output_created hk h.outputs
    obtain ⟨i, j, p, m', ht, amount, unitPrice, -⟩ := integrity _ _ _ created
    obtain ⟨rfl, -⟩ := accepted_unique hk h ht
    exact (termsUnmodified_accept h).mpr ⟨amount, unitPrice⟩

private theorem integrity_of_unmodified (hL : OnLedger L)
    (unmodified : ∀ stx ∈ L, TermsUnmodified stx.tx) : TermsIntegrity L := by
  intro r t notary created
  obtain ⟨stx, m, hk, -, accepts⟩ := created_trade hL created
  obtain ⟨i, j, p, -, -, -, hm, ht⟩ := accept_origin hL hk accepts
  obtain ⟨amount, unitPrice⟩ := (termsUnmodified_accept accepts).mp
    (unmodified stx (List.mem_of_getElem? hk))
  exact ⟨i, j, p, m, ht, amount, unitPrice, hm, modified_both_signed hL hm⟩

/-- The trades of a run carry the terms on the ledger exactly when each of its
Accepts would have passed the check that the branch leaves out. -/
theorem terms_integrity_iff (hL : OnLedger L) :
    TermsIntegrity L ↔ ∀ stx ∈ L, TermsUnmodified stx.tx :=
  ⟨unmodified_of_integrity hL, integrity_of_unmodified hL⟩

theorem terms_integrity_iff_deal : OnLedger deal ∧
    (TermsIntegrity deal ↔ ∀ stx ∈ deal, TermsUnmodified stx.tx) :=
  ⟨by decide, terms_integrity_iff (by decide)⟩

def overcharged : List SignedTransaction :=
  [proposed, modified,
    signedBy [1, 2] .accept [(1, .modify counter)] (.trade ⟨some 8, some 80, alice, bob, 7⟩)]

theorem terms_are_changed : ¬ ∀ L, OnLedger L → TermsIntegrity L := by
  intro every
  have onLedger : OnLedger overcharged := by decide
  exact absurd (unmodified_of_integrity onLedger (every overcharged onLedger)) (by decide)

end EnergyMarket.Terms
