/- Module: EnergyMarket/KillRecord
   digest: What a KillState records of the negotiation it ends, and who makes the copy. -/

import EnergyMarket.Drafts
import EnergyMarket.Ledger

set_option autoImplicit false
set_option relaxedAutoImplicit false

namespace EnergyMarket.KillRecord
open EnergyMarket.Library.Utxo EnergyMarket.States EnergyMarket.Transactions
open EnergyMarket.Contract EnergyMarket.Ledger EnergyMarket.Flows EnergyMarket.Drafts

/-- The terms and the four parties of a negotiation, the parties as Party.equals
compares them. -/
structure Record where
  amount : Double
  unitPrice : Double
  buyer : PublicKey
  seller : PublicKey
  proposer : PublicKey
  proposee : PublicKey
  deriving DecidableEq, Repr

/-- A TradeState has no proposer and no proposee left. -/
def record : ContractState → Option Record
  | .proposal s => some ⟨s.amount, s.unitPrice, s.buyer.owningKey, s.seller.owningKey,
      s.proposer.owningKey, s.proposee.owningKey⟩
  | .modify s => some ⟨s.amount, s.unitPrice, s.buyer.owningKey, s.seller.owningKey,
      s.proposer.owningKey, s.proposee.owningKey⟩
  | .kill s => some ⟨s.amount, s.unitPrice, s.buyer.owningKey, s.seller.owningKey,
      s.proposer.owningKey, s.proposee.owningKey⟩
  | .trade _ => none
  | .foreign _ => none

/-- Every KillState carries the record of the state that its Kill consumed, and that of a
proposal or a modification it descends from. -/
structure KillRecordIntegrity (L : List SignedTransaction) : Prop where
  consumed : ∀ r κ notary, ports.outputAt L r = some ⟨.kill κ, notary⟩ →
    ∃ stx r' s, L[r.txIndex]? = some stx ∧ ports.inputs stx = [(r', s)] ∧
      record s.data = record (.kill κ)
  negotiation : ∀ r κ notary, ports.outputAt L r = some ⟨.kill κ, notary⟩ →
    ∃ r' s, ports.outputAt L r' = some s ∧ s.data.isOpen = true ∧
      Descends ports L r'.txIndex r.txIndex ∧ record s.data = record (.kill κ)

/-- The comparison of input and output that Kill does not make. -/
def RecordKept (tx : LedgerTransaction) : Prop :=
  ∀ s ∈ tx.getInputStates, ∀ κ ∈ tx.outputsOfType KillState, record s = record (.kill κ)

instance (tx : LedgerTransaction) : Decidable (RecordKept tx) :=
  inferInstanceAs (Decidable (∀ s ∈ _, ∀ κ ∈ _, _ = _))

variable {L : List SignedTransaction} {stx : SignedTransaction} {r : StateRef} {k : Nat}
variable {s : ContractState} {κ : KillState} {notary : Party}

theorem recordKept_kill (h : Kills stx.tx s κ) :
    RecordKept stx.tx ↔ record s = record (.kill κ) := by
  simp [RecordKept, LedgerTransaction.outputsOfType, h.inputs, h.outputs, StateClass.cast]

private theorem recordKept_or_kill (h : Committable stx) :
    RecordKept stx.tx ∨ ∃ s κ, Kills stx.tx s κ := by
  cases runs : stx.tx.runsContract with
  | false =>
    apply Or.inl
    intro s _ κ hκ
    have runs' := LedgerTransaction.runsContract_output
      (LedgerTransaction.mem_outputsOfType.mp hκ) rfl
    simp [runs] at runs'
  | true =>
    cases h.accepted runs with
    | kill h => exact Or.inr ⟨_, _, h⟩
    | propose h | modify h | accept h =>
      apply Or.inl
      simp [RecordKept, LedgerTransaction.outputsOfType, h.outputs, StateClass.cast]

theorem kill_origin (hL : OnLedger L) (created : ports.outputAt L r = some ⟨.kill κ, notary⟩) :
    ∃ stx r' s, L[r.txIndex]? = some stx ∧ ports.inputs stx = [(r', s)] ∧
      Kills stx.tx s.data κ ∧ r'.txIndex < r.txIndex ∧ ports.outputAt L r' = some s := by
  obtain ⟨stx, s, hk, -, kills⟩ := created_kill hL created
  obtain ⟨r', notary', inputs⟩ := inputs_single kills.inputs
  obtain ⟨earlier, resolved⟩ := hL.origin hk (mem_of_single inputs)
  exact ⟨stx, r', _, hk, inputs, kills, earlier, resolved⟩

/-- Where Kill keeps the record, kills of kills keep it too, so that at the end of them
there is a negotiation with it. -/
private theorem negotiation_of_kept (hL : OnLedger L) (kept : ∀ stx ∈ L, RecordKept stx.tx) :
    ∀ k r κ notary, r.txIndex = k → ports.outputAt L r = some ⟨.kill κ, notary⟩ →
      ∃ r' s, ports.outputAt L r' = some s ∧ s.data.isOpen = true ∧
        Descends ports L r'.txIndex r.txIndex ∧ record s.data = record (.kill κ) := by
  intro k
  induction k using Nat.strong_induction_on with
  | _ k ih =>
    rintro r κ notary rfl created
    obtain ⟨stx, r', s, hk, inputs, kills, earlier, resolved⟩ := kill_origin hL created
    have same := (recordKept_kill kills).mp (kept stx (List.mem_of_getElem? hk))
    have descends : Descends ports L r'.txIndex r.txIndex :=
      (descends_single hk inputs).mpr (Or.inr .refl)
    obtain ⟨data, notary'⟩ := s
    cases data with
    | proposal p => exact ⟨r', _, resolved, rfl, descends, same⟩
    | modify m => exact ⟨r', _, resolved, rfl, descends, same⟩
    | kill κ' =>
      -- the record of a kill that was killed is the one it has taken over
      obtain ⟨r₀, s₀, origin, isOpen, before, same'⟩ := ih _ earlier r' κ' notary' rfl resolved
      exact ⟨r₀, s₀, origin, isOpen, before.trans descends, same'.trans same⟩
    | trade t => cases same
    | foreign f => cases same

private theorem kept_of_integrity (hL : OnLedger L) (integrity : KillRecordIntegrity L) :
    ∀ stx ∈ L, RecordKept stx.tx := by
  intro stx mem
  rcases recordKept_or_kill (hL.committable mem) with kept | ⟨s, κ, kills⟩
  · exact kept
  · obtain ⟨k, hk⟩ := List.mem_iff_getElem?.mp mem
    obtain ⟨notary, created⟩ := only_output_created hk kills.outputs
    obtain ⟨stx', r', s', hk', inputs, same⟩ := integrity.consumed _ _ _ created
    obtain rfl : stx = stx' := Option.some.inj (hk.symm.trans hk')
    obtain ⟨r'', notary', inputs'⟩ := inputs_single kills.inputs
    obtain ⟨-, rfl⟩ : r' = r'' ∧ s' = ⟨s, notary'⟩ := by simpa using inputs.symm.trans inputs'
    exact (recordKept_kill kills).mpr same

private theorem integrity_of_kept (hL : OnLedger L) (kept : ∀ stx ∈ L, RecordKept stx.tx) :
    KillRecordIntegrity L := by
  constructor
  · intro r κ notary created
    obtain ⟨stx, r', s, hk, inputs, kills, -, -⟩ := kill_origin hL created
    have same := (recordKept_kill kills).mp (kept stx (List.mem_of_getElem? hk))
    exact ⟨stx, r', s, hk, inputs, same⟩
  · intro r κ notary created
    exact negotiation_of_kept hL kept _ r κ notary rfl created

/-- The KillStates of a run record what they end exactly when each of its Kills copies the
record, which the contract leaves to the builders. -/
theorem kill_record_iff (hL : OnLedger L) :
    KillRecordIntegrity L ↔ ∀ stx ∈ L, RecordKept stx.tx :=
  ⟨kept_of_integrity hL, integrity_of_kept hL⟩

def rejected : List SignedTransaction :=
  [proposed, signedBy [1, 2] .kill [(0, .proposal offer)] (.kill (KillProposalFlow.kill offer))]

theorem kill_record_iff_rejected : OnLedger rejected ∧
    (KillRecordIntegrity rejected ↔ ∀ stx ∈ rejected, RecordKept stx.tx) :=
  ⟨by decide, kill_record_iff (by decide)⟩

def misrecorded : List SignedTransaction :=
  [proposed, signedBy [2, 3] .kill [(0, .proposal offer)]
    (.kill ⟨some 99, some 99, bob, charlie, bob, charlie, 7⟩)]

theorem kill_misrecords : ¬ ∀ L, OnLedger L → KillRecordIntegrity L := by
  intro every
  have onLedger : OnLedger misrecorded := by decide
  exact absurd (kept_of_integrity onLedger (every misrecorded onLedger)) (by decide)

theorem drafted_recordKept {hub : ServiceHub} {newId : UniqueIdentifier} {start : FlowStart}
    {counterparty : Party} (h : Drafted hub newId start stx counterparty) : RecordKept stx.tx := by
  cases h <;>
    simp [draft, RecordKept, record, LedgerTransaction.outputsOfType,
      LedgerTransaction.getInputStates, LedgerTransaction.getOutputStates, StateClass.cast,
      KillProposalFlow.kill, KillModificationFlow.kill]

end EnergyMarket.KillRecord
