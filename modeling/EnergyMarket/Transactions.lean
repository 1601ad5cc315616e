/- Module: EnergyMarket/Transactions
   digest: Resolved transactions as a contract reads them, and the failures of the code. -/

import EnergyMarket.Library.Utxo
import EnergyMarket.States

set_option autoImplicit false
set_option relaxedAutoImplicit false

namespace EnergyMarket.Transactions
open EnergyMarket.Library.Utxo EnergyMarket.States

abbrev StateRef := OutputRef

structure TransactionState (α : Type) where
  data : α
  notary : Party
  deriving DecidableEq, Repr

structure StateAndRef (α : Type) where
  state : TransactionState α
  ref : StateRef
  deriving DecidableEq, Repr

section StateAndRef

variable {α : Type} [StateClass α]

def StateAndRef.up (i : StateAndRef α) : StateAndRef ContractState :=
  ⟨⟨StateClass.up i.state.data, i.state.notary⟩, i.ref⟩

def StateAndRef.cast (i : StateAndRef ContractState) : Option (StateAndRef α) :=
  (StateClass.cast i.state.data).map (fun a => ⟨⟨a, i.state.notary⟩, i.ref⟩)

theorem StateAndRef.cast_iff {i : StateAndRef ContractState} {j : StateAndRef α} :
    i.cast = some j ↔ i = j.up := by
  obtain ⟨⟨s, notary⟩, r⟩ := i
  obtain ⟨⟨a, notary'⟩, r'⟩ := j
  simp only [StateAndRef.cast, StateAndRef.up, Option.map_eq_some_iff, StateClass.cast_iff,
    StateAndRef.mk.injEq, TransactionState.mk.injEq]
  grind

end StateAndRef

/-- The commands of ProposalAndTradeContract, and any other CommandData. -/
inductive CommandData
  | propose
  | accept
  | modify
  | kill
  | other (className : String)
  deriving DecidableEq, Repr

structure CommandWithParties where
  value : CommandData
  signers : List PublicKey
  deriving DecidableEq, Repr

structure TimeWindow where
  fromTime : Option Int
  untilTime : Option Int
  deriving DecidableEq, Repr

structure LedgerTransaction where
  inputs : List (StateAndRef ContractState)
  outputs : List (TransactionState ContractState)
  commands : List CommandWithParties
  timeWindow : Option TimeWindow
  notary : Option Party
  deriving DecidableEq, Repr

namespace LedgerTransaction

def getInputStates (tx : LedgerTransaction) : List ContractState :=
  tx.inputs.map (fun i => i.state.data)

def getOutputStates (tx : LedgerTransaction) : List ContractState :=
  tx.outputs.map (fun o => o.data)

def inputsOfType (α : Type) [StateClass α] (tx : LedgerTransaction) : List α :=
  tx.getInputStates.filterMap StateClass.cast

def outputsOfType (α : Type) [StateClass α] (tx : LedgerTransaction) : List α :=
  tx.getOutputStates.filterMap StateClass.cast

theorem mem_inputsOfType {α : Type} [StateClass α] {tx : LedgerTransaction} {a : α} :
    a ∈ tx.inputsOfType α ↔ StateClass.up a ∈ tx.getInputStates := by
  simp [inputsOfType, StateClass.cast_iff]

theorem mem_outputsOfType {α : Type} [StateClass α] {tx : LedgerTransaction} {a : α} :
    a ∈ tx.outputsOfType α ↔ StateClass.up a ∈ tx.getOutputStates := by
  simp [outputsOfType, StateClass.cast_iff]

/-- Every key that some command of the transaction asks for. -/
def requiredSigningKeys (tx : LedgerTransaction) : List PublicKey :=
  tx.commands.flatMap CommandWithParties.signers

theorem requiredSigningKeys_single {tx : LedgerTransaction} {value : CommandData}
    {signers : List PublicKey} (h : tx.commands = [⟨value, signers⟩]) :
    tx.requiredSigningKeys = signers := by
  simp [requiredSigningKeys, h]

/-- The platform runs the contract of every input and output state, so it runs this
contract exactly on the transactions that carry one of its four classes. -/
def runsContract (tx : LedgerTransaction) : Bool :=
  tx.getInputStates.any ContractState.belongsToContract ||
    tx.getOutputStates.any ContractState.belongsToContract

theorem runsContract_input {tx : LedgerTransaction} {s : ContractState}
    (hs : s ∈ tx.getInputStates) (four : s.belongsToContract = true) :
    tx.runsContract = true := by
  simp only [runsContract, Bool.or_eq_true, List.any_eq_true]
  exact Or.inl ⟨s, hs, four⟩

theorem runsContract_output {tx : LedgerTransaction} {s : ContractState}
    (hs : s ∈ tx.getOutputStates) (four : s.belongsToContract = true) :
    tx.runsContract = true := by
  simp only [runsContract, Bool.or_eq_true, List.any_eq_true]
  exact Or.inr ⟨s, hs, four⟩

end LedgerTransaction

structure SignedTransaction where
  tx : LedgerTransaction
  sigs : List PublicKey
  deriving DecidableEq, Repr

namespace SignedTransaction

/-- What FinalityFlow has its notary sign: a transaction that consumes states or has a time
window, and does not bear the notary's signature yet. -/
def needsNotarySignature (stx : SignedTransaction) (notary : Party) : Bool :=
  (!stx.tx.inputs.isEmpty || stx.tx.timeWindow.isSome) && !stx.sigs.contains notary.owningKey

/-- The transaction that FinalityFlow records and returns. -/
def notarised (stx : SignedTransaction) : SignedTransaction where
  tx := stx.tx
  sigs := stx.sigs ++
    ((stx.tx.notary.filter stx.needsNotarySignature).map Party.owningKey).toList

@[simp] theorem notarised_tx (stx : SignedTransaction) : stx.notarised.tx = stx.tx := rfl

theorem notarised_sigs {stx : SignedTransaction} {notary : Party}
    (named : stx.tx.notary = some notary) (open_ended : stx.tx.timeWindow = none)
    (unsigned : notary.owningKey ∉ stx.sigs) : stx.notarised.sigs =
      stx.sigs ++ if stx.tx.inputs = [] then [] else [notary.owningKey] := by
  have needs : stx.needsNotarySignature notary = !stx.tx.inputs.isEmpty := by
    simp [needsNotarySignature, open_ended, unsigned]
  cases inputs : stx.tx.inputs <;> simp [notarised, named, Option.filter, needs, inputs]

end SignedTransaction

/-- The exceptions the modelled code ends with; the platform's own are told apart but
not quoted. -/
inductive Failure
  | illegalArgument (message : String)
  | flow (message : Option String)
  | indexOutOfBounds
  | nullPointer
  | vaultQuery
  | notaryMismatch (input builder : Party)
  | unsignable
  | unreachable (party : Party)
  | localSession
  | unverified
  | doubleSpend (stx : SignedTransaction)
  deriving DecidableEq, Repr

abbrev Outcome (α : Type) := Except Failure α

/-- requireThat's using: an IllegalArgumentException with the text of the failed line. -/
def require (message : String) (condition : Bool) : Outcome Unit :=
  if condition then .ok () else .error (.illegalArgument ("Failed requirement: " ++ message))

def getAt {α : Type} (l : List α) (i : Nat) : Outcome α :=
  match l[i]? with
  | some a => .ok a
  | none => .error .indexOutOfBounds

def deref {α : Type} : Option α → Outcome α
  | some a => .ok a
  | none => .error .nullPointer

@[simp] theorem bind_ok_iff {α β : Type} {x : Outcome α} {f : α → Outcome β} {b : β} :
    (x >>= f) = .ok b ↔ ∃ a, x = .ok a ∧ f a = .ok b := by
  cases x <;> simp [bind, Except.bind]

@[simp] theorem require_ok_iff {message : String} {condition : Bool} {u : Unit} :
    require message condition = .ok u ↔ condition = true := by
  cases condition <;> simp [require]

@[simp] theorem getAt_zero_ok_iff {α : Type} {l : List α} {a : α} :
    getAt l 0 = .ok a ↔ l.head? = some a := by
  cases l <;> simp [getAt]

@[simp] theorem deref_ok_iff {α : Type} {x : Option α} {a : α} :
    deref x = .ok a ↔ x = some a := by
  cases x <;> simp [deref]

theorem throw_ne_ok {α : Type} {e : Failure} {a : α} : (throw e : Outcome α) ≠ .ok a := by
  simp [throw, throwThe, MonadExceptOf.throw]

theorem mem_of_single {α : Type} {l : List α} {a : α} (h : l = [a]) : a ∈ l := by
  rw [h]
  exact List.mem_singleton.mpr rfl

theorem eq_of_single {α : Type} {l : List α} {a b : α} (h : l = [a]) (hb : b ∈ l) : b = a := by
  rw [h] at hb
  exact List.mem_singleton.mp hb

theorem single_of_cast {α : Type} [StateClass α] {l : List ContractState} {a : α}
    (one : l.length = 1) (cast : (l.filterMap (StateClass.cast (α := α))).head? = some a) :
    l = [StateClass.up a] := by
  obtain ⟨s, rfl⟩ := List.length_eq_one_iff.mp one
  cases hc : StateClass.cast (α := α) s with
  | none => simp [hc] at cast
  | some b =>
    have same : b = a := by simpa [hc] using cast
    rw [← same, StateClass.cast_iff.mp hc]

end EnergyMarket.Transactions
