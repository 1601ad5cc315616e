/- Module: EnergyMarket/Roles
   digest: Buyer and seller against proposer and proposee, and what Modify may do to them. -/

import EnergyMarket.Provenance

set_option autoImplicit false
set_option relaxedAutoImplicit false

namespace EnergyMarket.Roles
open EnergyMarket.Library.Utxo EnergyMarket.States EnergyMarket.Transactions
open EnergyMarket.Contract EnergyMarket.Ledger EnergyMarket.Provenance

variable {L : List SignedTransaction} {stx : SignedTransaction} {i j k : Nat}
variable {p : ProposalState} {m : ModifyState} {t : TradeState}

def traders : ContractState → List Party
  | .proposal p => [p.buyer, p.seller]
  | .modify m => [m.buyer, m.seller]
  | .trade _ | .kill _ | .foreign _ => []

/-- Every ProposalState and every ModifyState ever created has its buyer and seller as
its proposer and proposee, in some order, and every ModifyState has the proposer and the
proposee of the ProposalState it replaces, in some order; so an Accept asks for the keys of
the traders, and so does a Kill that names the proposer and the proposee of what it ends. -/
structure RoleInvariant (L : List SignedTransaction) : Prop where
  proposals : ∀ r p notary, ports.outputAt L r = some ⟨.proposal p, notary⟩ →
    immutableSet p.buyer p.seller = immutableSet p.proposer p.proposee
  modifications : ∀ r m notary, ports.outputAt L r = some ⟨.modify m, notary⟩ →
    immutableSet m.buyer m.seller = immutableSet m.proposer m.proposee
  replaced : ∀ r m notary, ports.outputAt L r = some ⟨.modify m, notary⟩ →
    ∃ i p, ProposedAt L i p ∧ ModifiedAt L i r.txIndex p m ∧
      immutableSet m.proposer m.proposee = immutableSet p.proposer p.proposee
  accepted : ∀ stx ∈ L, ∀ m t, Accepts stx.tx m t →
    ∀ q ∈ traders (.modify m), q.owningKey ∈ stx.tx.requiredSigningKeys
  killed : ∀ stx ∈ L, ∀ s κ, Kills stx.tx s κ →
    (∀ q ∈ s.negotiators, q.owningKey ∈ immutableSet κ.proposer κ.proposee) →
      ∀ q ∈ traders s, q.owningKey ∈ stx.tx.requiredSigningKeys

/-- The check on proposer and proposee that Modify makes on buyer and seller only. -/
def RolesUnmodified (tx : LedgerTransaction) : Prop :=
  ∀ input ∈ tx.inputsOfType ProposalState, ∀ output ∈ tx.outputsOfType ModifyState,
    immutableSet output.proposer output.proposee = immutableSet input.proposer input.proposee

instance (tx : LedgerTransaction) : Decidable (RolesUnmodified tx) :=
  inferInstanceAs (Decidable (∀ input ∈ _, ∀ output ∈ _, _ = _))

private theorem rolesUnmodified_modify (h : Modifies stx.tx p m) : RolesUnmodified stx.tx ↔
    immutableSet m.proposer m.proposee = immutableSet p.proposer p.proposee := by
  simp [RolesUnmodified, LedgerTransaction.inputsOfType, LedgerTransaction.outputsOfType,
    h.inputs, h.outputs, StateClass.cast]

private theorem modifies_of_states (h : Committable stx)
    (hp : p ∈ stx.tx.inputsOfType ProposalState)
    (hm : m ∈ stx.tx.outputsOfType ModifyState) : Modifies stx.tx p m := by
  have input := LedgerTransaction.mem_inputsOfType.mp hp
  have output := LedgerTransaction.mem_outputsOfType.mp hm
  cases h.accepted (LedgerTransaction.runsContract_input input rfl) with
  | propose h | accept h | kill h => simp [h.outputs] at output
  | modify h =>
    cases eq_of_single h.inputs input
    cases eq_of_single h.outputs output
    exact h

private theorem proposed_roles (h : ProposedAt L i p) :
    immutableSet p.buyer p.seller = immutableSet p.proposer p.proposee := by
  obtain ⟨stx, -, proposes⟩ := h
  rw [proposes.roles, immutableSet_comm]

private theorem proposal_roles (hL : OnLedger L) {r : StateRef} {notary : Party}
    (created : ports.outputAt L r = some ⟨.proposal p, notary⟩) :
    immutableSet p.buyer p.seller = immutableSet p.proposer p.proposee := by
  obtain ⟨stx, hr, -, proposes⟩ := created_proposal hL created
  exact proposed_roles ⟨stx, hr, proposes⟩

private theorem modified_roles (hp : ProposedAt L i p) (hm : ModifiedAt L i j p m)
    (same : immutableSet m.proposer m.proposee = immutableSet p.proposer p.proposee) :
    immutableSet m.buyer m.seller = immutableSet m.proposer m.proposee := by
  obtain ⟨stx, -, -, modifies, -⟩ := hm
  calc immutableSet m.buyer m.seller
      = immutableSet p.buyer p.seller :=
        immutableSet_congr modifies.buyer.symm modifies.seller.symm
    _ = immutableSet p.proposer p.proposee := proposed_roles hp
    _ = immutableSet m.proposer m.proposee := same.symm

private theorem unmodified_of_invariant (hL : OnLedger L) (invariant : RoleInvariant L) :
    ∀ stx ∈ L, RolesUnmodified stx.tx := by
  intro stx mem p hp m hm
  have modifies := modifies_of_states (hL.committable mem) hp hm
  obtain ⟨j, hj⟩ := List.mem_iff_getElem?.mp mem
  obtain ⟨notary, created⟩ := only_output_created hj modifies.outputs
  obtain ⟨i, p', -, ⟨stx', -, hj', modifies', -⟩, same⟩ := invariant.replaced _ _ _ created
  obtain rfl : stx = stx' := Option.some.inj (hj.symm.trans hj')
  have input := modifies'.inputs.symm.trans modifies.inputs
  simp only [List.cons.injEq, ContractState.proposal.injEq, and_true] at input
  exact input ▸ same

private theorem traders_among {s : ContractState} {keys : List PublicKey}
    (proposals : ∀ p, s = .proposal p →
      immutableSet p.buyer p.seller = immutableSet p.proposer p.proposee)
    (modifications : ∀ m, s = .modify m →
      immutableSet m.buyer m.seller = immutableSet m.proposer m.proposee)
    (roles : ∀ q ∈ s.negotiators, q.owningKey ∈ keys) : ∀ q ∈ traders s, q.owningKey ∈ keys := by
  cases s with
  | proposal p =>
    have proposer := roles p.proposer (by simp [ContractState.negotiators])
    have proposee := roles p.proposee (by simp [ContractState.negotiators])
    simpa [traders] using key_mem_of_roles (proposals p rfl) proposer proposee
  | modify m =>
    have proposer := roles m.proposer (by simp [ContractState.negotiators])
    have proposee := roles m.proposee (by simp [ContractState.negotiators])
    simpa [traders] using key_mem_of_roles (modifications m rfl) proposer proposee
  | trade t | kill κ | foreign f => simp [traders]

private theorem modifications_of_unmodified (hL : OnLedger L)
    (unmodified : ∀ stx ∈ L, RolesUnmodified stx.tx) {r : StateRef} {notary : Party}
    (created : ports.outputAt L r = some ⟨.modify m, notary⟩) :
    ∃ i p, ProposedAt L i p ∧ ModifiedAt L i r.txIndex p m ∧
      immutableSet m.proposer m.proposee = immutableSet p.proposer p.proposee := by
  obtain ⟨stx, p, hj, -, modifies⟩ := created_modify hL created
  obtain ⟨i, -, hp, hm⟩ := modify_origin hL hj modifies
  exact ⟨i, p, hp, hm,
    (rolesUnmodified_modify modifies).mp (unmodified stx (List.mem_of_getElem? hj))⟩

private theorem input_traders (hL : OnLedger L) (unmodified : ∀ stx ∈ L, RolesUnmodified stx.tx)
    (mem : stx ∈ L) {s : ContractState} (inputs : stx.tx.getInputStates = [s])
    {keys : List PublicKey} (roles : ∀ q ∈ s.negotiators, q.owningKey ∈ keys) :
    ∀ q ∈ traders s, q.owningKey ∈ keys := by
  obtain ⟨k, hk⟩ := List.mem_iff_getElem?.mp mem
  obtain ⟨r, notary, hin⟩ := inputs_single inputs
  obtain ⟨-, resolved⟩ := hL.origin hk (mem_of_single hin)
  refine traders_among (fun p same => ?_) (fun m same => ?_) roles
  · subst same
    exact proposal_roles hL resolved
  · subst same
    obtain ⟨i, p, hp, hm, same⟩ := modifications_of_unmodified hL unmodified resolved
    exact modified_roles hp hm same

private theorem invariant_of_unmodified (hL : OnLedger L)
    (unmodified : ∀ stx ∈ L, RolesUnmodified stx.tx) : RoleInvariant L := by
  refine ⟨?_, ?_, ?_, ?_, ?_⟩
  · intro r p notary created
    exact proposal_roles hL created
  · intro r m notary created
    obtain ⟨i, p, hp, hm, same⟩ := modifications_of_unmodified hL unmodified created
    exact modified_roles hp hm same
  · intro r m notary created
    exact modifications_of_unmodified hL unmodified created
  · intro stx mem m t accepts
    refine input_traders hL unmodified mem accepts.inputs fun q hq => ?_
    have role : q = m.proposer ∨ q = m.proposee := by simpa [ContractState.negotiators] using hq
    rcases role with rfl | rfl
    · exact accepts.proposer
    · exact accepts.proposee
  · intro stx mem s κ kills named
    refine input_traders hL unmodified mem kills.inputs fun q hq => ?_
    rcases mem_immutableSet.mp (named q hq) with same | same
    · exact same ▸ kills.proposer
    · exact same ▸ kills.proposee

def usurped : ModifyState := ⟨some 8, some 8, alice, bob, charlie, charlie, 7⟩

def usurpation : List SignedTransaction :=
  [proposed, signedBy [1, 2] .modify [(0, .proposal offer)] (.modify usurped)]

/-- Every Accept asks for the keys of the participants of the trade it creates. -/
def BothPartiesSign (stx : SignedTransaction) : Prop :=
  ∀ t ∈ stx.tx.outputsOfType TradeState, ∀ q ∈ (ContractState.trade t).getParticipants,
    q.owningKey ∈ stx.tx.requiredSigningKeys

/-- A ModifyState names its buyer and its seller among its proposer and proposee. -/
def TradersNamed (m : ModifyState) : Prop :=
  ∀ key ∈ immutableSet m.buyer m.seller, key ∈ immutableSet m.proposer m.proposee

instance (m : ModifyState) : Decidable (TradersNamed m) :=
  inferInstanceAs (Decidable (∀ key ∈ immutableSet m.buyer m.seller, _))

instance (stx : SignedTransaction) : Decidable (BothPartiesSign stx) :=
  inferInstanceAs (Decidable (∀ t ∈ _, ∀ q ∈ _, _))

private theorem accepts_of_trade (h : Committable stx) (ht : t ∈ stx.tx.outputsOfType TradeState) :
    ∃ m, Accepts stx.tx m t := by
  have output := LedgerTransaction.mem_outputsOfType.mp ht
  cases h.accepted (LedgerTransaction.runsContract_output output rfl) with
  | propose h | modify h | kill h => simp [h.outputs] at output
  | accept h =>
    cases eq_of_single h.outputs output
    exact ⟨_, h⟩

private theorem parties_sign_of_named (h : Accepts stx.tx m t) (named : TradersNamed m) :
    t.buyer.owningKey ∈ stx.tx.requiredSigningKeys ∧
      t.seller.owningKey ∈ stx.tx.requiredSigningKeys := by
  have among : ∀ key ∈ immutableSet m.buyer m.seller, key ∈ stx.tx.requiredSigningKeys := by
    intro key hkey
    rcases mem_immutableSet.mp (named key hkey) with rfl | rfl
    · exact h.proposer
    · exact h.proposee
  rw [← h.buyer, ← h.seller]
  exact ⟨among _ (by simp), among _ (by simp)⟩

def roleAccept (r : StateRef) (m : ModifyState) (notary : Party) : SignedTransaction where
  tx :=
    { inputs := [⟨⟨.modify m, notary⟩, r⟩]
      outputs := [⟨.trade ⟨m.amount, m.unitPrice, m.buyer, m.seller, m.linearId⟩, notary⟩]
      commands := [⟨.accept, [m.proposer.owningKey, m.proposee.owningKey]⟩]
      timeWindow := none
      notary := some notary }
  sigs := [m.proposer.owningKey, m.proposee.owningKey]

private theorem roleAccept_required {r : StateRef} {notary : Party} :
    (roleAccept r m notary).tx.requiredSigningKeys =
      [m.proposer.owningKey, m.proposee.owningKey] :=
  LedgerTransaction.requiredSigningKeys_single rfl

theorem roleAccept_commits {r : StateRef} {notary : Party}
    (unspent : ports.Unspent L r ⟨.modify m, notary⟩) : Commits L (roleAccept r m notary) := by
  have accepts : Accepts (roleAccept r m notary).tx m
      ⟨m.amount, m.unitPrice, m.buyer, m.seller, m.linearId⟩ :=
    ⟨rfl, rfl, by rw [roleAccept_required]; rfl, rfl, rfl, rfl, by simp [roleAccept_required],
      by simp [roleAccept_required]⟩
  refine ⟨spendable_single rfl unspent, fun _ => accepts.verifies, ?_⟩
  intro key hkey
  rwa [roleAccept_required] at hkey

private theorem named_of_parties_sign {r : StateRef} {notary : Party}
    (unspent : ports.Unspent L r ⟨.modify m, notary⟩)
    (sign : ∀ stx, Commits L stx → r ∈ ports.consumed stx → BothPartiesSign stx) :
    TradersNamed m := by
  have both := sign _ (roleAccept_commits unspent) (by simp [Ports.consumed, ports, roleAccept])
    ⟨m.amount, m.unitPrice, m.buyer, m.seller, m.linearId⟩
    (LedgerTransaction.mem_outputsOfType.mpr (List.mem_singleton.mpr rfl))
  rw [roleAccept_required] at both
  intro key hkey
  rcases mem_immutableSet.mp hkey with rfl | rfl
  · simpa using both m.buyer (by simp [ContractState.getParticipants])
  · simpa using both m.seller (by simp [ContractState.getParticipants])

private theorem sign_of_named {r : StateRef} {notary : Party}
    (created : ports.outputAt L r = some ⟨.modify m, notary⟩) (hc : Commits L stx)
    (consumes : r ∈ ports.consumed stx) (named : TradersNamed m) : BothPartiesSign stx := by
  intro t ht
  obtain ⟨m', accepts⟩ := accepts_of_trade hc.committable ht
  obtain ⟨r', notary', hin⟩ := inputs_single accepts.inputs
  obtain rfl : r = r' := by simpa [Ports.consumed, hin] using consumes
  have resolved := hc.spendable.resolves (mem_of_single hin)
  have same := resolved.symm.trans created
  obtain rfl : m' = m := by simpa using congrArg (fun s => s.map TransactionState.data) same
  simpa [ContractState.getParticipants] using parties_sign_of_named accepts named

theorem run_parties_sign (hL : OnLedger L)
    (named : ∀ stx ∈ L, ∀ m ∈ stx.tx.outputsOfType ModifyState, TradersNamed m) :
    ∀ stx ∈ L, BothPartiesSign stx := by
  intro stx mem t ht
  obtain ⟨k, hk⟩ := List.mem_iff_getElem?.mp mem
  obtain ⟨m, accepts⟩ := accepts_of_trade (hL.committable mem) ht
  obtain ⟨i, j, p, -, -, -, ⟨modify, notary, hj, modifies, -⟩, -⟩ := accept_origin hL hk accepts
  have both := named modify (List.mem_of_getElem? hj) m modifies.output_mem
  simpa [ContractState.getParticipants] using parties_sign_of_named accepts both

/-- In every run whose modifications name their buyer and seller as proposer and
proposee, every Accept asks for both parties of its trade; and a modification that does
not can be accepted without one of them. -/
theorem parties_sign_exactly (hL : OnLedger L) :
    ((∀ stx ∈ L, ∀ m ∈ stx.tx.outputsOfType ModifyState, TradersNamed m) →
      ∀ stx ∈ L, BothPartiesSign stx) ∧
    ∀ r m notary, ports.Unspent L r ⟨.modify m, notary⟩ →
      ((∀ stx, Commits L stx → r ∈ ports.consumed stx → BothPartiesSign stx) ↔
        TradersNamed m) := by
  refine ⟨run_parties_sign hL, ?_⟩
  intro r m notary unspent
  constructor
  · intro sign
    exact named_of_parties_sign unspent sign
  · intro named stx hc consumes
    exact sign_of_named unspent.1 hc consumes named

theorem parties_sign_exactly_deal : OnLedger deal ∧
    ((∀ stx ∈ deal, ∀ m ∈ stx.tx.outputsOfType ModifyState, TradersNamed m) →
      ∀ stx ∈ deal, BothPartiesSign stx) ∧
    ∀ r m notary, ports.Unspent deal r ⟨.modify m, notary⟩ →
      ((∀ stx, Commits deal stx → r ∈ ports.consumed stx → BothPartiesSign stx) ↔
        TradersNamed m) :=
  ⟨by decide, parties_sign_exactly (by decide)⟩

def closedAlone : List SignedTransaction :=
  usurpation ++ [signedBy [3] .accept [(1, .modify usurped)] (.trade bargain)]

theorem accept_without_parties : ¬ ∀ L, OnLedger L → ∀ stx ∈ L, BothPartiesSign stx := by
  intro every
  exact absurd (every closedAlone (by decide)) (by decide)

end EnergyMarket.Roles
