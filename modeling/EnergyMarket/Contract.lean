/- Module: EnergyMarket/Contract
   digest: The four branches of ProposalAndTradeContract.verify and what each one admits. -/

import EnergyMarket.Transactions

set_option autoImplicit false
set_option relaxedAutoImplicit false

namespace EnergyMarket.Contract
open EnergyMarket.States EnergyMarket.Transactions

namespace ProposalAndTradeContract

def verifyPropose (tx : LedgerTransaction) (command : CommandWithParties) : Outcome Unit := do
  require "There are no inputs" tx.inputs.isEmpty
  require "Only one output state should be created." (tx.outputs.length == 1)
  require "The single output is of type ProposalState"
    ((tx.outputsOfType ProposalState).length == 1)
  require "There is exactly one command" (tx.commands.length == 1)
  require "There is no timestamp" tx.timeWindow.isNone
  let output ← getAt (tx.outputsOfType ProposalState) 0
  require "The buyer and seller are the proposer and the proposee"
    (immutableSet output.buyer output.seller == immutableSet output.proposee output.proposer)
  require "The proposer is a required signer"
    (command.signers.contains output.proposer.owningKey)
  require "The proposee is a required signer"
    (command.signers.contains output.proposee.owningKey)

/-- The text of the second line says ProposalState where the code tests ModifyState. -/
def verifyAccept (tx : LedgerTransaction) (command : CommandWithParties) : Outcome Unit := do
  require "There is exactly one input" (tx.getInputStates.length == 1)
  require "The single input is of type ProposalState"
    ((tx.inputsOfType ModifyState).length == 1)
  require "There is exactly one output" (tx.outputs.length == 1)
  require "The single output is of type TradeState" ((tx.outputsOfType TradeState).length == 1)
  require "There is exactly one command" (tx.commands.length == 1)
  require "There is no timestamp" tx.timeWindow.isNone
  let input ← getAt (tx.inputsOfType ModifyState) 0
  let output ← getAt (tx.outputsOfType TradeState) 0
  require "The buyer is unmodified in the output" (input.buyer.equals output.buyer)
  require "The seller is unmodified in the output" (input.seller.equals output.seller)
  require "The proposer is a required signer"
    (command.signers.contains input.proposer.owningKey)
  require "The proposee is a required signer"
    (command.signers.contains input.proposee.owningKey)

def verifyModify (tx : LedgerTransaction) (command : CommandWithParties) : Outcome Unit := do
  require "There is exactly one input" (tx.getInputStates.length == 1)
  require "The single input is of type ProposalState"
    ((tx.inputsOfType ProposalState).length == 1)
  require "There is exactly one output" (tx.outputs.length == 1)
  require "The single output is of type ModifyState"
    ((tx.outputsOfType ModifyState).length == 1)
  require "There is exactly one command" (tx.commands.length == 1)
  require "There is no timestamp" tx.timeWindow.isNone
  let input ← getAt (tx.inputsOfType ProposalState) 0
  let output ← getAt (tx.outputsOfType ModifyState) 0
  require "The buyer is unmodified in the output" (input.buyer.equals output.buyer)
  require "The seller is unmodified in the output" (input.seller.equals output.seller)
  require "The proposer is a required signer"
    (command.signers.contains input.proposer.owningKey)
  require "The proposee is a required signer"
    (command.signers.contains input.proposee.owningKey)

/-- Unlike its siblings this branch reads the class of no input, and takes the two
signers from the output. -/
def verifyKill (tx : LedgerTransaction) (command : CommandWithParties) : Outcome Unit := do
  require "There is exactly one input" (tx.getInputStates.length == 1)
  require "There is exactly one output" (tx.outputs.length == 1)
  require "The single output is of type KillState" ((tx.outputsOfType KillState).length == 1)
  require "There is exactly one command" (tx.commands.length == 1)
  require "There is no timestamp" tx.timeWindow.isNone
  let output ← getAt (tx.outputsOfType KillState) 0
  require "The proposer is a required signer"
    (command.signers.contains output.proposer.owningKey)
  require "The proposee is a required signer"
    (command.signers.contains output.proposee.owningKey)

def verify (tx : LedgerTransaction) : Outcome Unit := do
  let command ← getAt tx.commands 0
  match command.value with
  | .propose => verifyPropose tx command
  | .accept => verifyAccept tx command
  | .modify => verifyModify tx command
  | .kill => verifyKill tx command
  | .other _ => throw (.illegalArgument "Command of incorrect type")

end ProposalAndTradeContract

open ProposalAndTradeContract

structure Proposes (tx : LedgerTransaction) (p : ProposalState) : Prop where
  inputs : tx.getInputStates = []
  outputs : tx.getOutputStates = [.proposal p]
  command : tx.commands = [⟨.propose, tx.requiredSigningKeys⟩]
  time : tx.timeWindow = none
  roles : immutableSet p.buyer p.seller = immutableSet p.proposee p.proposer
  proposer : p.proposer.owningKey ∈ tx.requiredSigningKeys
  proposee : p.proposee.owningKey ∈ tx.requiredSigningKeys

/-- What the Accept branch has checked: nothing about the terms. -/
structure Accepts (tx : LedgerTransaction) (m : ModifyState) (t : TradeState) : Prop where
  inputs : tx.getInputStates = [.modify m]
  outputs : tx.getOutputStates = [.trade t]
  command : tx.commands = [⟨.accept, tx.requiredSigningKeys⟩]
  time : tx.timeWindow = none
  buyer : m.buyer.owningKey = t.buyer.owningKey
  seller : m.seller.owningKey = t.seller.owningKey
  proposer : m.proposer.owningKey ∈ tx.requiredSigningKeys
  proposee : m.proposee.owningKey ∈ tx.requiredSigningKeys

/-- What the Modify branch has checked: nothing about the new proposer and proposee. -/
structure Modifies (tx : LedgerTransaction) (p : ProposalState) (m : ModifyState) : Prop where
  inputs : tx.getInputStates = [.proposal p]
  outputs : tx.getOutputStates = [.modify m]
  command : tx.commands = [⟨.modify, tx.requiredSigningKeys⟩]
  time : tx.timeWindow = none
  buyer : p.buyer.owningKey = m.buyer.owningKey
  seller : p.seller.owningKey = m.seller.owningKey
  proposer : p.proposer.owningKey ∈ tx.requiredSigningKeys
  proposee : p.proposee.owningKey ∈ tx.requiredSigningKeys

/-- What the Kill branch has checked: nothing about the state it consumes. -/
structure Kills (tx : LedgerTransaction) (s : ContractState) (κ : KillState) : Prop where
  inputs : tx.getInputStates = [s]
  outputs : tx.getOutputStates = [.kill κ]
  command : tx.commands = [⟨.kill, tx.requiredSigningKeys⟩]
  time : tx.timeWindow = none
  proposer : κ.proposer.owningKey ∈ tx.requiredSigningKeys
  proposee : κ.proposee.owningKey ∈ tx.requiredSigningKeys

inductive Accepted (tx : LedgerTransaction) : Prop
  | propose {p : ProposalState} (h : Proposes tx p)
  | accept {m : ModifyState} {t : TradeState} (h : Accepts tx m t)
  | modify {p : ProposalState} {m : ModifyState} (h : Modifies tx p m)
  | kill {s : ContractState} {κ : KillState} (h : Kills tx s κ)

variable {tx : LedgerTransaction} {command : CommandWithParties}

private theorem inputs_single {α : Type} [StateClass α] {a : α}
    (one : tx.getInputStates.length = 1) (head : (tx.inputsOfType α).head? = some a) :
    tx.getInputStates = [StateClass.up a] :=
  single_of_cast one head

private theorem outputs_single {α : Type} [StateClass α] {a : α}
    (one : tx.outputs.length = 1) (head : (tx.outputsOfType α).head? = some a) :
    tx.getOutputStates = [StateClass.up a] :=
  single_of_cast (by simpa [LedgerTransaction.getOutputStates] using one) head

private theorem command_single (one : tx.commands.length = 1)
    (head : tx.commands.head? = some command) : tx.commands = [command] := by
  obtain ⟨c, hc⟩ := List.length_eq_one_iff.mp one
  rw [hc] at head ⊢
  simpa using head

private theorem required_single (single : tx.commands = [command]) :
    tx.commands = [⟨command.value, tx.requiredSigningKeys⟩] ∧
      tx.requiredSigningKeys = command.signers := by
  have keys := LedgerTransaction.requiredSigningKeys_single single
  exact ⟨by rw [keys, single], keys⟩

theorem inputs_empty_iff : tx.inputs.isEmpty = true ↔ tx.getInputStates = [] := by
  simp [LedgerTransaction.getInputStates]

private theorem verifyPropose_ok (head : tx.commands.head? = some command)
    (value : command.value = .propose) (h : verifyPropose tx command = .ok ()) :
    Accepted tx := by
  simp only [verifyPropose, bind_ok_iff, require_ok_iff, getAt_zero_ok_iff, exists_const,
    beq_iff_eq, Option.isNone_iff_eq_none, List.contains_iff_mem, inputs_empty_iff] at h
  obtain ⟨inputs, one, -, single, time, p, hp, roles, proposer, proposee⟩ := h
  obtain ⟨line, keys⟩ := required_single (command_single single head)
  rw [← keys] at proposer proposee
  rw [value] at line
  have outputs : tx.getOutputStates = [.proposal p] := outputs_single one hp
  exact .propose ⟨inputs, outputs, line, time, roles, proposer, proposee⟩

private theorem verifyAccept_ok (head : tx.commands.head? = some command)
    (value : command.value = .accept) (h : verifyAccept tx command = .ok ()) :
    Accepted tx := by
  simp only [verifyAccept, bind_ok_iff, require_ok_iff, getAt_zero_ok_iff, exists_const,
    beq_iff_eq, Option.isNone_iff_eq_none, List.contains_iff_mem, Party.equals_iff] at h
  obtain ⟨oneIn, -, oneOut, -, single, time, m, hm, t, ht, buyer, seller, proposer, proposee⟩ := h
  obtain ⟨line, keys⟩ := required_single (command_single single head)
  rw [← keys] at proposer proposee
  rw [value] at line
  have inputs : tx.getInputStates = [.modify m] := inputs_single oneIn hm
  have outputs : tx.getOutputStates = [.trade t] := outputs_single oneOut ht
  exact .accept ⟨inputs, outputs, line, time, buyer, seller, proposer, proposee⟩

private theorem verifyModify_ok (head : tx.commands.head? = some command)
    (value : command.value = .modify) (h : verifyModify tx command = .ok ()) :
    Accepted tx := by
  simp only [verifyModify, bind_ok_iff, require_ok_iff, getAt_zero_ok_iff, exists_const,
    beq_iff_eq, Option.isNone_iff_eq_none, List.contains_iff_mem, Party.equals_iff] at h
  obtain ⟨oneIn, -, oneOut, -, single, time, p, hp, m, hm, buyer, seller, proposer, proposee⟩ := h
  obtain ⟨line, keys⟩ := required_single (command_single single head)
  rw [← keys] at proposer proposee
  rw [value] at line
  have inputs : tx.getInputStates = [.proposal p] := inputs_single oneIn hp
  have outputs : tx.getOutputStates = [.modify m] := outputs_single oneOut hm
  exact .modify ⟨inputs, outputs, line, time, buyer, seller, proposer, proposee⟩

private theorem verifyKill_ok (head : tx.commands.head? = some command)
    (value : command.value = .kill) (h : verifyKill tx command = .ok ()) :
    Accepted tx := by
  simp only [verifyKill, bind_ok_iff, require_ok_iff, getAt_zero_ok_iff, exists_const,
    beq_iff_eq, Option.isNone_iff_eq_none, List.contains_iff_mem] at h
  obtain ⟨oneIn, oneOut, -, single, time, κ, hκ, proposer, proposee⟩ := h
  obtain ⟨line, keys⟩ := required_single (command_single single head)
  rw [← keys] at proposer proposee
  rw [value] at line
  obtain ⟨s, inputs⟩ := List.length_eq_one_iff.mp oneIn
  have outputs : tx.getOutputStates = [.kill κ] := outputs_single oneOut hκ
  exact .kill ⟨inputs, outputs, line, time, proposer, proposee⟩

theorem accepted_of_verify (h : verify tx = .ok ()) : Accepted tx := by
  simp only [verify, bind_ok_iff, getAt_zero_ok_iff] at h
  obtain ⟨command, head, branch⟩ := h
  cases value : command.value with
  | propose => exact verifyPropose_ok head value (by simpa only [value] using branch)
  | accept => exact verifyAccept_ok head value (by simpa only [value] using branch)
  | modify => exact verifyModify_ok head value (by simpa only [value] using branch)
  | kill => exact verifyKill_ok head value (by simpa only [value] using branch)
  | other name =>
    simp only [value] at branch
    exact absurd branch throw_ne_ok

private theorem outputs_length {s : ContractState} (h : tx.getOutputStates = [s]) :
    tx.outputs.length = 1 := by
  simpa [LedgerTransaction.getOutputStates] using congrArg List.length h

theorem Proposes.verifies {p : ProposalState}
    (h : Proposes tx p) : verify tx = .ok () := by
  have none : tx.inputs = [] := by
    simpa [LedgerTransaction.getInputStates] using h.inputs
  simp [verify, verifyPropose, LedgerTransaction.outputsOfType, none, h.outputs,
    outputs_length h.outputs, h.command, h.time, h.roles, h.proposer, h.proposee, StateClass.cast]

theorem Accepts.verifies {m : ModifyState} {t : TradeState}
    (h : Accepts tx m t) : verify tx = .ok () := by
  simp [verify, verifyAccept, LedgerTransaction.outputsOfType, LedgerTransaction.inputsOfType,
    h.inputs, h.outputs, outputs_length h.outputs, h.command, h.time, h.buyer, h.seller,
    h.proposer, h.proposee, StateClass.cast]

theorem Modifies.verifies {p : ProposalState} {m : ModifyState}
    (h : Modifies tx p m) : verify tx = .ok () := by
  simp [verify, verifyModify, LedgerTransaction.outputsOfType, LedgerTransaction.inputsOfType,
    h.inputs, h.outputs, outputs_length h.outputs, h.command, h.time, h.buyer, h.seller,
    h.proposer, h.proposee, StateClass.cast]

theorem Kills.verifies {s : ContractState} {κ : KillState}
    (h : Kills tx s κ) : verify tx = .ok () := by
  simp [verify, verifyKill, LedgerTransaction.outputsOfType, h.inputs, h.outputs,
    outputs_length h.outputs, h.command, h.time, h.proposer, h.proposee, StateClass.cast]

theorem Accepts.input_mem {m : ModifyState} {t : TradeState} (h : Accepts tx m t) :
    m ∈ tx.inputsOfType ModifyState :=
  LedgerTransaction.mem_inputsOfType.mpr (mem_of_single h.inputs)

theorem Accepts.output_mem {m : ModifyState} {t : TradeState} (h : Accepts tx m t) :
    t ∈ tx.outputsOfType TradeState :=
  LedgerTransaction.mem_outputsOfType.mpr (mem_of_single h.outputs)

theorem Modifies.input_mem {p : ProposalState} {m : ModifyState} (h : Modifies tx p m) :
    p ∈ tx.inputsOfType ProposalState :=
  LedgerTransaction.mem_inputsOfType.mpr (mem_of_single h.inputs)

theorem Modifies.output_mem {p : ProposalState} {m : ModifyState} (h : Modifies tx p m) :
    m ∈ tx.outputsOfType ModifyState :=
  LedgerTransaction.mem_outputsOfType.mpr (mem_of_single h.outputs)

/-- The contract accepts exactly the transactions of the four branches. -/
theorem verify_ok_iff : verify tx = .ok () ↔ Accepted tx := by
  constructor
  · exact accepted_of_verify
  · intro h
    cases h with
    | propose h | accept h | modify h | kill h => exact h.verifies

/-- An accepted transaction has exactly one output, of one of the four classes. -/
theorem Accepted.output (h : Accepted tx) : ∃ s : ContractState,
    tx.getOutputStates = [s] ∧ s.belongsToContract = true := by
  cases h with
  | propose h | accept h | modify h | kill h => exact ⟨_, h.outputs, rfl⟩

end EnergyMarket.Contract
