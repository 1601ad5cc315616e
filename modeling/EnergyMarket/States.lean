/- Module: EnergyMarket/States
   digest: Parties and the four linear states of a negotiation. -/

import Mathlib.Data.Finset.Insert

set_option autoImplicit false
set_option relaxedAutoImplicit false

namespace EnergyMarket.States

structure CordaX500Name where
  organisation : String
  locality : String
  country : String
  deriving DecidableEq, Repr

abbrev PublicKey := Nat

/-- Only the UUID part, which is what UniqueIdentifier.equals compares. -/
abbrev UniqueIdentifier := Nat

/-- A boxed Double: null, or the 64 bits that Double.equals compares. -/
abbrev Double := Option (BitVec 64)

structure Party where
  name : CordaX500Name
  owningKey : PublicKey
  deriving DecidableEq, Repr

/-- Two parties are equal when their owning keys are; the name is not compared. -/
def Party.equals (p q : Party) : Bool := p.owningKey == q.owningKey

@[simp] theorem Party.equals_iff {p q : Party} : p.equals q = true ↔ p.owningKey = q.owningKey :=
  beq_iff_eq

/-- ImmutableSet.of on two parties: equal parties collapse, the order is lost. -/
def immutableSet (p q : Party) : Finset PublicKey := {p.owningKey, q.owningKey}

@[simp] theorem mem_immutableSet {p q : Party} {key : PublicKey} :
    key ∈ immutableSet p q ↔ key = p.owningKey ∨ key = q.owningKey := by
  simp [immutableSet]

theorem immutableSet_comm (p q : Party) : immutableSet p q = immutableSet q p :=
  Finset.pair_comm _ _

theorem immutableSet_congr {p q p' q' : Party} (hp : p.owningKey = p'.owningKey)
    (hq : q.owningKey = q'.owningKey) : immutableSet p q = immutableSet p' q' := by
  simp [immutableSet, hp, hq]

structure ProposalState where
  amount : Double
  unitPrice : Double
  buyer : Party
  seller : Party
  proposer : Party
  proposee : Party
  linearId : UniqueIdentifier
  deriving DecidableEq, Repr

structure ModifyState where
  amount : Double
  unitPrice : Double
  buyer : Party
  seller : Party
  proposer : Party
  proposee : Party
  linearId : UniqueIdentifier
  deriving DecidableEq, Repr

structure TradeState where
  amount : Double
  unitPrice : Double
  buyer : Party
  seller : Party
  linearId : UniqueIdentifier
  deriving DecidableEq, Repr

structure KillState where
  amount : Double
  unitPrice : Double
  buyer : Party
  seller : Party
  proposer : Party
  proposee : Party
  linearId : UniqueIdentifier
  deriving DecidableEq, Repr

/-- A state governed by another contract. -/
structure ForeignState where
  className : String
  participants : List Party
  deriving DecidableEq, Repr

inductive ContractState
  | proposal (s : ProposalState)
  | modify (s : ModifyState)
  | trade (s : TradeState)
  | kill (s : KillState)
  | foreign (s : ForeignState)
  deriving DecidableEq, Repr

namespace ContractState

def getParticipants : ContractState → List Party
  | proposal s => [s.proposer, s.proposee]
  | modify s => [s.proposer, s.proposee]
  | trade s => [s.buyer, s.seller]
  | kill s => [s.proposer, s.proposee]
  | foreign s => s.participants

def getLinearId : ContractState → Option UniqueIdentifier
  | proposal s => some s.linearId
  | modify s => some s.linearId
  | trade s => some s.linearId
  | kill s => some s.linearId
  | foreign _ => none

/-- BelongsToContract(ProposalAndTradeContract.class). -/
def belongsToContract : ContractState → Bool
  | foreign _ => false
  | _ => true

def negotiators : ContractState → List Party
  | proposal s => [s.proposer, s.proposee]
  | modify s => [s.proposer, s.proposee]
  | _ => []

def isOpen : ContractState → Bool
  | proposal _ => true
  | modify _ => true
  | _ => false

theorem isOpen_iff {s : ContractState} :
    s.isOpen = true ↔ (∃ p, s = proposal p) ∨ ∃ m, s = modify m := by
  cases s <;> simp [isOpen]

theorem negotiators_isOpen {s : ContractState} {q : Party} (h : q ∈ s.negotiators) :
    s.isOpen = true := by
  cases s <;> simp_all [negotiators, isOpen]

theorem belongsToContract_of_isOpen {s : ContractState} (h : s.isOpen = true) :
    s.belongsToContract = true := by
  cases s <;> simp_all [isOpen, belongsToContract]

theorem belongsToContract_iff {s : ContractState} :
    s.belongsToContract = true ↔ s.getLinearId ≠ none := by
  cases s <;> simp [belongsToContract, getLinearId]

end ContractState

/-- A class of states: how to see one as a ContractState, and the instanceof cast
back, which succeeds on exactly the members of the class. -/
class StateClass (α : Type) where
  up : α → ContractState
  cast : ContractState → Option α
  cast_iff : ∀ {s : ContractState} {a : α}, cast s = some a ↔ s = up a

instance : StateClass ProposalState where
  up := .proposal
  cast | .proposal s => some s | _ => none
  cast_iff {s _} := by cases s <;> simp

instance : StateClass ModifyState where
  up := .modify
  cast | .modify s => some s | _ => none
  cast_iff {s _} := by cases s <;> simp

instance : StateClass TradeState where
  up := .trade
  cast | .trade s => some s | _ => none
  cast_iff {s _} := by cases s <;> simp

instance : StateClass KillState where
  up := .kill
  cast | .kill s => some s | _ => none
  cast_iff {s _} := by cases s <;> simp

@[simp] theorem cast_up {α : Type} [StateClass α] (a : α) :
    StateClass.cast (StateClass.up a) = some a :=
  StateClass.cast_iff.mpr rfl

theorem up_injective {α : Type} [StateClass α] {a b : α}
    (h : StateClass.up a = StateClass.up b) : a = b := by
  have hc := congrArg (StateClass.cast (α := α)) h
  simpa using hc

@[simp] theorem up_proposal (s : ProposalState) : StateClass.up s = ContractState.proposal s := rfl
@[simp] theorem up_modify (s : ModifyState) : StateClass.up s = ContractState.modify s := rfl
@[simp] theorem up_trade (s : TradeState) : StateClass.up s = ContractState.trade s := rfl
@[simp] theorem up_kill (s : KillState) : StateClass.up s = ContractState.kill s := rfl

end EnergyMarket.States
