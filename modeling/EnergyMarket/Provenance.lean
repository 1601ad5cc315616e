/- Module: EnergyMarket/Provenance
   digest: Every trade descends from one Propose, one Modify and one Accept. -/

import EnergyMarket.Ledger

set_option autoImplicit false
set_option relaxedAutoImplicit false

namespace EnergyMarket.Provenance
open EnergyMarket.Library.Utxo EnergyMarket.States EnergyMarket.Transactions
open EnergyMarket.Contract EnergyMarket.Ledger

variable {L : List SignedTransaction} {i j k : Nat}
variable {p : ProposalState} {m : ModifyState} {t : TradeState}

theorem key_mem_of_roles {a b c d : Party} {keys : List PublicKey}
    (roles : immutableSet a b = immutableSet c d) (hc : c.owningKey ∈ keys)
    (hd : d.owningKey ∈ keys) : a.owningKey ∈ keys ∧ b.owningKey ∈ keys := by
  have among : ∀ key ∈ immutableSet a b, key ∈ keys := by
    intro key hkey
    rw [roles, mem_immutableSet] at hkey
    rcases hkey with rfl | rfl
    · exact hc
    · exact hd
  exact ⟨among _ (by simp), among _ (by simp)⟩

def ProposedAt (L : List SignedTransaction) (i : Nat) (p : ProposalState) : Prop :=
  ∃ stx, L[i]? = some stx ∧ Proposes stx.tx p

/-- The transaction at position j, as a Modify of the proposal created at position i. -/
def ModifiedAt (L : List SignedTransaction) (i j : Nat) (p : ProposalState) (m : ModifyState) :
    Prop :=
  ∃ stx notary, L[j]? = some stx ∧ Modifies stx.tx p m ∧
    ports.inputs stx = [(⟨i, 0⟩, ⟨.proposal p, notary⟩)]

/-- The transaction at position k, as an Accept of the modification created at position j. -/
def AcceptedAt (L : List SignedTransaction) (j k : Nat) (m : ModifyState) (t : TradeState) :
    Prop :=
  ∃ stx notary, L[k]? = some stx ∧ Accepts stx.tx m t ∧
    ports.inputs stx = [(⟨j, 0⟩, ⟨.modify m, notary⟩)]

def requiredAt (L : List SignedTransaction) (i : Nat) : List PublicKey :=
  (L[i]?.map (fun stx => stx.tx.requiredSigningKeys)).getD []

theorem requiredAt_eq {stx : SignedTransaction} (h : L[i]? = some stx) :
    requiredAt L i = stx.tx.requiredSigningKeys := by
  simp [requiredAt, h]

theorem modify_origin (hL : OnLedger L) {stx : SignedTransaction} (hj : L[j]? = some stx)
    (h : Modifies stx.tx p m) : ∃ i, i < j ∧ ProposedAt L i p ∧ ModifiedAt L i j p m := by
  obtain ⟨⟨i, n⟩, notary, hin⟩ := inputs_single h.inputs
  obtain ⟨earlier, resolved⟩ := hL.origin hj (mem_of_single hin)
  obtain ⟨propose, hi, zero, proposes⟩ := created_proposal hL resolved
  have first : n = 0 := zero
  subst first
  exact ⟨i, earlier, ⟨propose, hi, proposes⟩, stx, notary, hj, h, hin⟩

theorem accept_origin (hL : OnLedger L) {stx : SignedTransaction} (hk : L[k]? = some stx)
    (h : Accepts stx.tx m t) : ∃ i j p, i < j ∧ j < k ∧ ProposedAt L i p ∧
      ModifiedAt L i j p m ∧ AcceptedAt L j k m t := by
  obtain ⟨⟨j, n⟩, notary, hin⟩ := inputs_single h.inputs
  obtain ⟨earlier, resolved⟩ := hL.origin hk (mem_of_single hin)
  obtain ⟨modify, p, hj, zero, modifies⟩ := created_modify hL resolved
  have first : n = 0 := zero
  subst first
  obtain ⟨i, before, proposed, modified⟩ := modify_origin hL hj modifies
  exact ⟨i, j, p, before, earlier, proposed, modified, stx, notary, hk, h, hin⟩

private theorem descends_proposed (h : ProposedAt L i p) {a : Nat} :
    Descends ports L a i ↔ a = i := by
  obtain ⟨stx, hi, proposes⟩ := h
  exact descends_none hi (inputs_nil proposes.inputs)

private theorem descends_modified (hp : ProposedAt L i p) (hm : ModifiedAt L i j p m) {a : Nat} :
    Descends ports L a j ↔ a = j ∨ a = i := by
  obtain ⟨stx, notary, hj, -, hin⟩ := hm
  rw [descends_single hj hin, descends_proposed hp]

theorem descends_accepted (hp : ProposedAt L i p) (hm : ModifiedAt L i j p m)
    (ht : AcceptedAt L j k m t) {a : Nat} :
    Descends ports L a k ↔ a = k ∨ a = j ∨ a = i := by
  obtain ⟨stx, notary, hk, -, hin⟩ := ht
  rw [descends_single hk hin, descends_modified hp hm]

theorem proposed_parties_sign (h : ProposedAt L i p) :
    p.buyer.owningKey ∈ requiredAt L i ∧ p.seller.owningKey ∈ requiredAt L i := by
  obtain ⟨stx, hi, proposes⟩ := h
  rw [requiredAt_eq hi]
  exact key_mem_of_roles proposes.roles proposes.proposee proposes.proposer

theorem modified_parties_sign (hp : ProposedAt L i p) (hm : ModifiedAt L i j p m) :
    p.buyer.owningKey ∈ requiredAt L j ∧ p.seller.owningKey ∈ requiredAt L j := by
  obtain ⟨propose, -, proposes⟩ := hp
  obtain ⟨modify, -, hj, modifies, -⟩ := hm
  rw [requiredAt_eq hj]
  exact key_mem_of_roles proposes.roles modifies.proposee modifies.proposer

/-- Every TradeState ever created descends from exactly one Propose, one Modify and
one Accept, in this order, with one buyer and one seller throughout, both of whom the
Propose and the Modify require to sign. -/
theorem trade_provenance (hL : OnLedger L) {r : StateRef} {notary : Party}
    (created : ports.outputAt L r = some ⟨.trade t, notary⟩) :
    ∃ i j p m, i < j ∧ j < r.txIndex ∧
      ProposedAt L i p ∧ ModifiedAt L i j p m ∧ AcceptedAt L j r.txIndex m t ∧
      (∀ a, Descends ports L a r.txIndex ↔ a = r.txIndex ∨ a = j ∨ a = i) ∧
      (t.buyer.equals m.buyer = true ∧ t.buyer.equals p.buyer = true) ∧
      (t.seller.equals m.seller = true ∧ t.seller.equals p.seller = true) ∧
      (t.buyer.owningKey ∈ requiredAt L i ∧ t.seller.owningKey ∈ requiredAt L i) ∧
      (t.buyer.owningKey ∈ requiredAt L j ∧ t.seller.owningKey ∈ requiredAt L j) := by
  obtain ⟨stx, m, hk, -, accepts⟩ := created_trade hL created
  obtain ⟨i, j, p, before, earlier, hp, hm, ht⟩ := accept_origin hL hk accepts
  obtain ⟨modify, -, -, modifies, -⟩ := id hm
  have buyer : t.buyer.owningKey = p.buyer.owningKey :=
    accepts.buyer.symm.trans modifies.buyer.symm
  have seller : t.seller.owningKey = p.seller.owningKey :=
    accepts.seller.symm.trans modifies.seller.symm
  refine ⟨i, j, p, m, before, earlier, hp, hm, ht, fun a => descends_accepted hp hm ht, ?_⟩
  simp only [Party.equals_iff, buyer, seller, and_true]
  exact ⟨modifies.buyer, modifies.seller, proposed_parties_sign hp, modified_parties_sign hp hm⟩

theorem trade_provenance_deal : ports.outputAt deal ⟨2, 0⟩ = some ⟨.trade bargain, notary⟩ ∧
    ∃ i j p m, i < j ∧ j < 2 ∧
      ProposedAt deal i p ∧ ModifiedAt deal i j p m ∧ AcceptedAt deal j 2 m bargain ∧
      (∀ a, Descends ports deal a 2 ↔ a = 2 ∨ a = j ∨ a = i) ∧
      (alice.equals m.buyer = true ∧ alice.equals p.buyer = true) ∧
      (bob.equals m.seller = true ∧ bob.equals p.seller = true) ∧
      (1 ∈ requiredAt deal i ∧ 2 ∈ requiredAt deal i) ∧
      (1 ∈ requiredAt deal j ∧ 2 ∈ requiredAt deal j) :=
  ⟨by decide, trade_provenance (by decide)
    (by decide : ports.outputAt deal ⟨2, 0⟩ = some ⟨.trade bargain, notary⟩)⟩

end EnergyMarket.Provenance
