/- Module: EnergyMarket/Sessions
   digest: What a node signs through its five responders, and the role rule of two of them. -/

import EnergyMarket.Drafts
import EnergyMarket.Ledger

set_option autoImplicit false
set_option relaxedAutoImplicit false

namespace EnergyMarket.Sessions
open EnergyMarket.Library.Utxo EnergyMarket.States EnergyMarket.Transactions
open EnergyMarket.Contract EnergyMarket.Contract.ProposalAndTradeContract
open EnergyMarket.Ledger EnergyMarket.Flows EnergyMarket.Drafts

/-- Only the proposee can modify a proposal, and only the proposer can accept it. -/
def RoleRule (counterparty : Party) (tx : LedgerTransaction) : Prop :=
  ∀ command ∈ tx.commands,
    (command.value = .modify → ∃ input : ProposalState,
      tx.getInputStates = [.proposal input] ∧ input.proposee.equals counterparty = true) ∧
    (command.value = .accept → ∃ input : ModifyState,
      tx.getInputStates = [.modify input] ∧ input.proposer.equals counterparty = true)

/-- Whatever the node signs for this counterparty on this session is within its role. -/
def RuleKept (door : Flow) (us counterparty : Party) (stx : SignedTransaction) : Prop :=
  ∀ signed, door.respond us counterparty stx = .ok signed → RoleRule counterparty stx.tx

/-- What is asked of a transaction at every door, before the check of its own. -/
structure Signable (us counterparty : Party) (stx : SignedTransaction) : Prop where
  signed : counterparty.owningKey ∈ stx.sigs
  required : us.owningKey ∈ stx.tx.requiredSigningKeys
  verified : verify stx.tx = .ok ()

/-- The doors whose checkTransaction is not empty. -/
def RoleChecked (door : Flow) : Prop := door = .modification ∨ door = .acceptance

variable {door : Flow} {us counterparty : Party} {stx : SignedTransaction}
variable {tx : LedgerTransaction} {p : ProposalState} {m : ModifyState} {t : TradeState}

private theorem respond_signs_iff : (∃ signed, door.respond us counterparty stx = .ok signed) ↔
    Signable us counterparty stx ∧ door.checkTransaction counterparty stx.tx = .ok () := by
  simp only [respond_ok_iff, exists_and_left]
  constructor
  · rintro ⟨signed, required, verified, checked, -⟩
    exact ⟨⟨signed, required, verified⟩, checked⟩
  · rintro ⟨⟨signed, required, verified⟩, checked⟩
    exact ⟨signed, required, verified, checked, _, rfl⟩

private theorem roleRule_modify (h : Modifies tx p m) :
    RoleRule counterparty tx ↔ p.proposee.equals counterparty = true := by
  simp [RoleRule, h.command, h.inputs]

private theorem roleRule_accept (h : Accepts tx m t) :
    RoleRule counterparty tx ↔ m.proposer.equals counterparty = true := by
  simp [RoleRule, h.command, h.inputs]

private theorem roleRule_propose (h : Proposes tx p) : RoleRule counterparty tx := by
  simp [RoleRule, h.command]

private theorem roleRule_kill {s : ContractState} {κ : KillState} (h : Kills tx s κ) :
    RoleRule counterparty tx := by
  simp [RoleRule, h.command]

private theorem modification_door (accepted : Accepted tx)
    (checked : ModificationFlow.Responder.checkTransaction counterparty tx = .ok ()) :
    RoleRule counterparty tx := by
  obtain ⟨input, head, role⟩ := modificationCheck_ok_iff.mp checked
  cases accepted with
  | propose h => exact roleRule_propose h
  | accept h => simp [LedgerTransaction.inputsOfType, h.inputs, StateClass.cast] at head
  | modify h =>
    obtain rfl : _ = input := by
      simpa [LedgerTransaction.inputsOfType, h.inputs, StateClass.cast] using head
    exact (roleRule_modify h).mpr role
  | kill h => exact roleRule_kill h

private theorem acceptance_door (accepted : Accepted tx)
    (checked : AcceptanceFlow.Responder.checkTransaction counterparty tx = .ok ()) :
    RoleRule counterparty tx := by
  obtain ⟨input, head, role⟩ := acceptanceCheck_ok_iff.mp checked
  cases accepted with
  | propose h => exact roleRule_propose h
  | accept h =>
    obtain rfl : _ = input := by
      simpa [LedgerTransaction.inputsOfType, h.inputs, StateClass.cast] using head
    exact (roleRule_accept h).mpr role
  | modify h => simp [LedgerTransaction.inputsOfType, h.inputs, StateClass.cast] at head
  | kill h => exact roleRule_kill h

private theorem rule_of_checked (door_checks : RoleChecked door) (accepted : Accepted tx)
    (checked : door.checkTransaction counterparty tx = .ok ()) : RoleRule counterparty tx := by
  rcases door_checks with rfl | rfl
  · exact modification_door accepted checked
  · exact acceptance_door accepted checked

private theorem unchecked_door (open_door : ¬ RoleChecked door) :
    door.checkTransaction counterparty tx = .ok () := by
  cases door with
  | modification => exact absurd (Or.inl rfl) open_door
  | acceptance => exact absurd (Or.inr rfl) open_door
  | proposal | killProposal | killModification => rfl

theorem ruleKept_iff : RuleKept door us counterparty stx ↔
    (Signable us counterparty stx → RoleChecked door ∨ RoleRule counterparty stx.tx) := by
  constructor
  · intro kept signable
    by_cases checks : RoleChecked door
    · exact Or.inl checks
    · obtain ⟨signed, h⟩ := respond_signs_iff.mpr ⟨signable, unchecked_door checks⟩
      exact Or.inr (kept signed h)
  · intro covered signed h
    obtain ⟨signable, checked⟩ := respond_signs_iff.mp ⟨signed, h⟩
    rcases covered signable with checks | rule
    · exact rule_of_checked checks (accepted_of_verify signable.verified) checked
    · exact rule

section Usurper

variable (us counterparty)

def received : ProposalState := ⟨some 10, some 10, counterparty, us, counterparty, us, 7⟩

def receives : SignedTransaction :=
  signedBy [counterparty.owningKey, us.owningKey] .propose [] (.proposal (received us counterparty))

def usurps : SignedTransaction :=
  { signedBy [counterparty.owningKey, us.owningKey] .modify
      [(0, .proposal (received us counterparty))]
      (.modify ⟨some 99, some 99, counterparty, us, counterparty, us, 7⟩) with
    sigs := [counterparty.owningKey] }

private theorem receives_onLedger : OnLedger [receives us counterparty] := by
  have required : (receives us counterparty).tx.requiredSigningKeys =
      [counterparty.owningKey, us.owningKey] :=
    LedgerTransaction.requiredSigningKeys_single rfl
  have proposes : Proposes (receives us counterparty).tx (received us counterparty) :=
    ⟨rfl, rfl, by rw [required]; rfl, rfl, immutableSet_comm _ _, by simp [required, received],
      by simp [required, received]⟩
  refine Ports.Ledger.nil.snoc (spendable_none rfl) ⟨fun _ => proposes.verifies, ?_⟩
  intro key hkey
  rwa [required] at hkey

private theorem usurps_spendable :
    ports.Spendable [receives us counterparty] (usurps us counterparty) := by
  have unspent : ports.Unspent [receives us counterparty] ⟨0, 0⟩
      ⟨.proposal (received us counterparty), notary⟩ :=
    ⟨rfl, by simp [Ports.Spent, Ports.consumed, ports, receives, signedBy]⟩
  exact spendable_single rfl unspent

private theorem usurps_required : (usurps us counterparty).tx.requiredSigningKeys =
    [counterparty.owningKey, us.owningKey] :=
  LedgerTransaction.requiredSigningKeys_single rfl

private theorem usurps_modifies : Modifies (usurps us counterparty).tx (received us counterparty)
    ⟨some 99, some 99, counterparty, us, counterparty, us, 7⟩ :=
  ⟨rfl, rfl, by rw [usurps_required]; rfl, rfl, rfl, rfl, by simp [usurps_required, received],
    by simp [usurps_required, received]⟩

private theorem usurps_signable : Signable us counterparty (usurps us counterparty) :=
  ⟨by simp [usurps], by simp [usurps_required], (usurps_modifies us counterparty).verifies⟩

end Usurper

/-- What a node signs keeps the role rule exactly where the door checks it or the
counterparty holds the role anyway; and over all that may be sent to it, the rule is kept
at the two doors that check it and at no other. -/
theorem role_rule_exactly (apart : counterparty.owningKey ≠ us.owningKey) :
    (∀ stx, RuleKept door us counterparty stx ↔
      (Signable us counterparty stx → RoleChecked door ∨ RoleRule counterparty stx.tx)) ∧
    ((∀ L stx, OnLedger L → ports.Spendable L stx → RuleKept door us counterparty stx) ↔
      RoleChecked door) := by
  refine ⟨fun stx => ruleKept_iff, ?_, ?_⟩
  · intro kept
    have usurped := kept _ _ (receives_onLedger us counterparty) (usurps_spendable us counterparty)
    have covered := ruleKept_iff.mp usurped (usurps_signable us counterparty)
    have unruly : ¬ RoleRule counterparty (usurps us counterparty).tx := by
      intro rule
      have role := (roleRule_modify (usurps_modifies us counterparty)).mp rule
      exact apart (Party.equals_iff.mp role).symm
    exact covered.resolve_right unruly
  · intro checks L stx _ _
    exact ruleKept_iff.mpr (fun _ => Or.inl checks)

theorem role_rule_exactly_alice_bob : alice.owningKey ≠ bob.owningKey ∧
    (∀ stx, RuleKept .killProposal bob alice stx ↔
      (Signable bob alice stx → RoleChecked .killProposal ∨ RoleRule alice stx.tx)) ∧
    ((∀ L stx, OnLedger L → ports.Spendable L stx → RuleKept .killProposal bob alice stx) ↔
      RoleChecked .killProposal) :=
  ⟨by decide, role_rule_exactly (by decide)⟩

/-- Bob signs, on a session of ProposalFlow, the modification that alice makes of her
own proposal. -/
theorem proposer_modifies : ¬ ∀ L door us counterparty stx, OnLedger L → ports.Spendable L stx →
    counterparty.owningKey ≠ us.owningKey → RuleKept door us counterparty stx := by
  intro every
  have signs : Flow.respond .proposal bob alice { modified with sigs := [1] } = .ok modified := by
    decide
  have rule := every [proposed] .proposal bob alice { modified with sigs := [1] } (by decide)
    (by decide) (by decide) _ signs
  obtain ⟨input, consumed, role⟩ := (rule _ (List.mem_singleton.mpr rfl)).1 rfl
  have same : [ContractState.proposal offer] = [.proposal input] := consumed
  cases same
  exact absurd role (by decide)

end EnergyMarket.Sessions
