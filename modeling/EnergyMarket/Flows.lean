/- Module: EnergyMarket/Flows
   digest: The five initiators up to their session, and the five responders. -/

import EnergyMarket.Contract

set_option autoImplicit false
set_option relaxedAutoImplicit false

namespace EnergyMarket.Flows
open EnergyMarket.States EnergyMarket.Transactions
open EnergyMarket.Contract.ProposalAndTradeContract

/-- What a flow reads of the node it runs on. -/
structure ServiceHub where
  ourIdentity : Party
  vault : List (StateAndRef ContractState)
  notaryIdentities : List Party

/-- DEFAULT_PAGE_SIZE of the vault. -/
def defaultPageSize : Nat := 200

/-- queryBy without a page specification: the unspent states of one class, or
VaultQueryException where they are more than a page. -/
def ServiceHub.queryBy (α : Type) [StateClass α] (hub : ServiceHub) :
    Outcome (List (StateAndRef α)) :=
  let states := hub.vault.filterMap StateAndRef.cast
  if states.length ≤ defaultPageSize then .ok states else .error .vaultQuery

def ServiceHub.getNotary (hub : ServiceHub) (name : CordaX500Name) : Option Party :=
  hub.notaryIdentities.find? (fun notary => notary.name == name)

/-- Stream.findAny: some element, the choice of which is left open. -/
def findAny {α : Type} (choice : Nat) (l : List α) : Option α := l[choice % l.length]?

/-- The lookup of the four consuming flows: query the class, filter by linear id, take
any candidate. -/
def lookup (α : Type) [StateClass α] (notFound : String) (hub : ServiceHub)
    (proposalId : UniqueIdentifier) (choice : Nat) : Outcome (StateAndRef α) := do
  let stateAndRefs ← hub.queryBy α
  match findAny choice (stateAndRefs.filter (fun stateAndRef =>
      (StateClass.up stateAndRef.state.data).getLinearId == some proposalId)) with
  | some inputStateAndRef => .ok inputStateAndRef
  | none => throw (.illegalArgument notFound)

structure TransactionBuilder where
  notary : Party
  inputs : List (StateAndRef ContractState) := []
  outputs : List (TransactionState ContractState) := []
  commands : List CommandWithParties := []

/-- The builder refuses an input whose notary is not its own. -/
def TransactionBuilder.addInputState (tx : TransactionBuilder)
    (input : StateAndRef ContractState) : Outcome TransactionBuilder :=
  if input.state.notary.equals tx.notary then .ok { tx with inputs := tx.inputs ++ [input] }
  else .error (.notaryMismatch input.state.notary tx.notary)

def TransactionBuilder.addOutputState (tx : TransactionBuilder) (output : ContractState) :
    TransactionBuilder :=
  { tx with outputs := tx.outputs ++ [⟨output, tx.notary⟩] }

def TransactionBuilder.addCommand (tx : TransactionBuilder) (command : CommandWithParties) :
    TransactionBuilder :=
  { tx with commands := tx.commands ++ [command] }

def ServiceHub.signInitialTransaction (hub : ServiceHub) (tx : TransactionBuilder) :
    SignedTransaction where
  tx :=
    { inputs := tx.inputs
      outputs := tx.outputs
      commands := tx.commands
      timeWindow := none
      notary := some tx.notary }
  sigs := [hub.ourIdentity.owningKey]

/-- SignTransactionFlow, as the platform documents it: it signs exactly when the
session's counterparty has signed, our key is required, the contract accepts the
transaction and checkTransaction returns. -/
def signTransactionFlow (us counterparty : Party)
    (checkTransaction : LedgerTransaction → Outcome Unit) (stx : SignedTransaction) :
    Outcome SignedTransaction :=
  if stx.sigs.contains counterparty.owningKey &&
      stx.tx.requiredSigningKeys.contains us.owningKey then do
    verify stx.tx
    checkTransaction stx.tx
    return { stx with sigs := stx.sigs ++ [us.owningKey] }
  else .error .unsignable

namespace ProposalFlow

def notaryName : CordaX500Name := ⟨"Notary", "moratuwa", "SL"⟩

/-- The linear id of the new ProposalState is the one its constructor draws. -/
def Initiator.call (hub : ServiceHub) (isBuyer : Option Bool) (amount unitPrice : Double)
    (counterparty : Option Party) (newId : UniqueIdentifier) :
    Outcome (SignedTransaction × Party) := do
  let isBuyer ← deref isBuyer
  if isBuyer then do
    let buyer := hub.ourIdentity
    let seller ← deref counterparty
    let output : ProposalState := ⟨amount, unitPrice, buyer, seller, buyer, seller, newId⟩
    let requiredSigners := [hub.ourIdentity.owningKey, seller.owningKey]
    match hub.getNotary notaryName with
    | none => throw (.flow (some "Notary not found"))
    | some notary =>
      let txBuilder : TransactionBuilder := { notary := notary }
      .ok (hub.signInitialTransaction
        ((txBuilder.addOutputState (.proposal output)).addCommand ⟨.propose, requiredSigners⟩),
        seller)
  else throw (.flow (some "Invalid initiator"))

def Responder.checkTransaction (_counterparty : Party) (_tx : LedgerTransaction) :
    Outcome Unit :=
  .ok ()

end ProposalFlow

namespace ModificationFlow

def Initiator.call (hub : ServiceHub) (proposalId : UniqueIdentifier)
    (newAmount newUnitPrice : Double) (choice : Nat) : Outcome (SignedTransaction × Party) := do
  let inputStateAndRef ← lookup ProposalState "proposal not found" hub proposalId choice
  let input := inputStateAndRef.state.data
  let us := hub.ourIdentity
  let counterparty :=
    if us.owningKey == input.proposee.owningKey then input.proposer else input.proposee
  if us.owningKey != input.proposee.owningKey then
    throw (.illegalArgument "you are not the proposee")
  else if counterparty.owningKey != input.proposer.owningKey then
    throw (.illegalArgument "counterparty is not the proposer")
  else do
    let output : ModifyState := ⟨newAmount, newUnitPrice, input.buyer, input.seller,
      counterparty, us, input.linearId⟩
    let requiredSigners := [counterparty.owningKey, us.owningKey]
    let txBuilder : TransactionBuilder := { notary := inputStateAndRef.state.notary }
    let txBuilder ← txBuilder.addInputState inputStateAndRef.up
    .ok (hub.signInitialTransaction
      ((txBuilder.addOutputState (.modify output)).addCommand ⟨.modify, requiredSigners⟩),
      counterparty)

def Responder.checkTransaction (counterparty : Party) (tx : LedgerTransaction) :
    Outcome Unit := do
  let input ← getAt (tx.inputsOfType ProposalState) 0
  if !input.proposee.equals counterparty then
    throw (.flow (some "Only the proposee can modify a proposal."))
  else .ok ()

end ModificationFlow

namespace AcceptanceFlow

def Initiator.call (hub : ServiceHub) (proposalId : UniqueIdentifier) (choice : Nat) :
    Outcome (SignedTransaction × Party) := do
  let inputStateAndRef ← lookup ModifyState "Proposal not found" hub proposalId choice
  let input := inputStateAndRef.state.data
  let us := hub.ourIdentity
  let counterparty :=
    if us.owningKey == input.proposer.owningKey then input.proposee else input.proposer
  let output : TradeState :=
    ⟨input.amount, input.unitPrice, input.buyer, input.seller, input.linearId⟩
  let requiredSigners := [input.proposer.owningKey, input.proposee.owningKey]
  let txBuilder : TransactionBuilder := { notary := inputStateAndRef.state.notary }
  let txBuilder ← txBuilder.addInputState inputStateAndRef.up
  .ok (hub.signInitialTransaction
    ((txBuilder.addOutputState (.trade output)).addCommand ⟨.accept, requiredSigners⟩),
    counterparty)

def Responder.checkTransaction (counterparty : Party) (tx : LedgerTransaction) :
    Outcome Unit := do
  let input ← getAt (tx.inputsOfType ModifyState) 0
  if !input.proposer.equals counterparty then
    throw (.flow (some "Only the proposer can accept a proposal."))
  else .ok ()

end AcceptanceFlow

/-- The two kill flows: the class they look up, and the KillState they copy it to. -/
def killInitiator (α : Type) [StateClass α] (copy : α → KillState) (hub : ServiceHub)
    (proposalId : UniqueIdentifier) (choice : Nat) : Outcome (SignedTransaction × Party) := do
  let inputStateAndRef ← lookup α "Proposal not found" hub proposalId choice
  let output := copy inputStateAndRef.state.data
  let us := hub.ourIdentity
  let counterparty :=
    if us.owningKey == output.proposee.owningKey then output.proposer else output.proposee
  let requiredSigners := [counterparty.owningKey, us.owningKey]
  let notary ← getAt hub.notaryIdentities 0
  let txBuilder : TransactionBuilder := { notary := notary }
  let txBuilder ← txBuilder.addInputState inputStateAndRef.up
  .ok (hub.signInitialTransaction
    ((txBuilder.addOutputState (.kill output)).addCommand ⟨.kill, requiredSigners⟩),
    counterparty)

namespace KillProposalFlow

def kill (input : ProposalState) : KillState :=
  ⟨input.amount, input.unitPrice, input.buyer, input.seller, input.proposer, input.proposee,
    input.linearId⟩

def Initiator.call : ServiceHub → UniqueIdentifier → Nat → Outcome (SignedTransaction × Party) :=
  killInitiator ProposalState kill

def Responder.checkTransaction (_counterparty : Party) (_tx : LedgerTransaction) :
    Outcome Unit :=
  .ok ()

end KillProposalFlow

namespace KillModificationFlow

def kill (input : ModifyState) : KillState :=
  ⟨input.amount, input.unitPrice, input.buyer, input.seller, input.proposer, input.proposee,
    input.linearId⟩

def Initiator.call : ServiceHub → UniqueIdentifier → Nat → Outcome (SignedTransaction × Party) :=
  killInitiator ModifyState kill

def Responder.checkTransaction (_counterparty : Party) (_tx : LedgerTransaction) :
    Outcome Unit :=
  .ok ()

end KillModificationFlow

inductive Flow
  | proposal
  | modification
  | acceptance
  | killProposal
  | killModification
  deriving DecidableEq, Repr

def Flow.checkTransaction : Flow → Party → LedgerTransaction → Outcome Unit
  | .proposal => ProposalFlow.Responder.checkTransaction
  | .modification => ModificationFlow.Responder.checkTransaction
  | .acceptance => AcceptanceFlow.Responder.checkTransaction
  | .killProposal => KillProposalFlow.Responder.checkTransaction
  | .killModification => KillModificationFlow.Responder.checkTransaction

/-- Responder.call up to the signature, on the session that a flow's initiator opens. -/
def Flow.respond (flow : Flow) (us counterparty : Party) (stx : SignedTransaction) :
    Outcome SignedTransaction :=
  signTransactionFlow us counterparty (flow.checkTransaction counterparty) stx

/-- What an operator starts: an initiator with its constructor arguments. -/
inductive FlowStart
  | propose (isBuyer : Option Bool) (amount unitPrice : Double) (counterparty : Option Party)
  | modify (proposalId : UniqueIdentifier) (newAmount newUnitPrice : Double)
  | accept (proposalId : UniqueIdentifier)
  | killProposal (proposalId : UniqueIdentifier)
  | killModification (proposalId : UniqueIdentifier)
  deriving DecidableEq, Repr

def FlowStart.flow : FlowStart → Flow
  | propose .. => .proposal
  | modify .. => .modification
  | accept _ => .acceptance
  | killProposal _ => .killProposal
  | killModification _ => .killModification

def FlowStart.peer : FlowStart → Option Party
  | propose _ _ _ counterparty => counterparty
  | modify .. | accept _ | killProposal _ | killModification _ => none

/-- Some argument of the initiator's constructor is null. -/
def FlowStart.hasNull : FlowStart → Bool
  | propose isBuyer amount unitPrice counterparty =>
    isBuyer.isNone || amount.isNone || unitPrice.isNone || counterparty.isNone
  | modify _ newAmount newUnitPrice => newAmount.isNone || newUnitPrice.isNone
  | accept _ | killProposal _ | killModification _ => false

def FlowStart.call (hub : ServiceHub) (choice : Nat) (newId : UniqueIdentifier) :
    FlowStart → Outcome (SignedTransaction × Party)
  | propose isBuyer amount unitPrice counterparty =>
    ProposalFlow.Initiator.call hub isBuyer amount unitPrice counterparty newId
  | modify proposalId newAmount newUnitPrice =>
    ModificationFlow.Initiator.call hub proposalId newAmount newUnitPrice choice
  | accept proposalId => AcceptanceFlow.Initiator.call hub proposalId choice
  | killProposal proposalId => KillProposalFlow.Initiator.call hub proposalId choice
  | killModification proposalId => KillModificationFlow.Initiator.call hub proposalId choice

end EnergyMarket.Flows
