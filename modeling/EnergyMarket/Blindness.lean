/- Module: EnergyMarket/Blindness
   digest: What verify cannot tell apart: terms, names, ids, notaries, and whose keys they are. -/

import EnergyMarket.Ledger

set_option autoImplicit false
set_option relaxedAutoImplicit false

namespace EnergyMarket.Blindness
open EnergyMarket.States EnergyMarket.Transactions EnergyMarket.Contract EnergyMarket.Ledger
open EnergyMarket.Contract.ProposalAndTradeContract

/-- Outcomes that fail alike, or return what is related. -/
inductive Related {α β : Type} (R : α → β → Prop) : Outcome α → Outcome β → Prop
  | error (e : Failure) : Related R (.error e) (.error e)
  | ok {a : α} {b : β} (h : R a b) : Related R (.ok a) (.ok b)

/-- The same party up to a renaming of the keys. -/
def Stands (ρ : PublicKey → PublicKey) (p p' : Party) : Prop := p'.owningKey = ρ p.owningKey

/-- States of one class whose roles are played by parties with renamed keys; whatever else
they say may differ. -/
def Renamed (ρ : PublicKey → PublicKey) : ContractState → ContractState → Prop
  | .proposal s, .proposal s' => Stands ρ s.buyer s'.buyer ∧ Stands ρ s.seller s'.seller ∧
      Stands ρ s.proposer s'.proposer ∧ Stands ρ s.proposee s'.proposee
  | .modify s, .modify s' => Stands ρ s.buyer s'.buyer ∧ Stands ρ s.seller s'.seller ∧
      Stands ρ s.proposer s'.proposer ∧ Stands ρ s.proposee s'.proposee
  | .trade s, .trade s' => Stands ρ s.buyer s'.buyer ∧ Stands ρ s.seller s'.seller
  | .kill s, .kill s' => Stands ρ s.buyer s'.buyer ∧ Stands ρ s.seller s'.seller ∧
      Stands ρ s.proposer s'.proposer ∧ Stands ρ s.proposee s'.proposee
  | .foreign _, .foreign _ => True
  | _, _ => False

/-- One command for the renamed signers, in any order. -/
structure SameCommand (ρ : PublicKey → PublicKey) (c c' : CommandWithParties) : Prop where
  value : c'.value = c.value
  signers : ∀ key, ρ key ∈ c'.signers ↔ key ∈ c.signers

/-- Transactions that look the same but for terms, names, ids, notaries and references, and
for who is behind the keys. -/
structure Alike (ρ : PublicKey → PublicKey) (tx tx' : LedgerTransaction) : Prop where
  inputs : List.Forall₂ (Renamed ρ) tx.getInputStates tx'.getInputStates
  outputs : List.Forall₂ (Renamed ρ) tx.getOutputStates tx'.getOutputStates
  commands : List.Forall₂ (SameCommand ρ) tx.commands tx'.commands
  time : tx'.timeWindow.isNone = tx.timeWindow.isNone

variable {ρ : PublicKey → PublicKey} {tx tx' : LedgerTransaction} {p p' q q' : Party}
variable {command command' : CommandWithParties}

private theorem bind_related {α α' β : Type} {R : α → α' → Prop} {x : Outcome α} {x' : Outcome α'}
    {f : α → Outcome β} {f' : α' → Outcome β} (h : Related R x x')
    (k : ∀ a a', R a a' → f' a' = f a) : (x' >>= f') = (x >>= f) := by
  cases h with
  | error e => rfl
  | ok h => exact k _ _ h

private theorem require_related {message : String} {condition condition' : Bool}
    (same : condition' = condition) :
    Related (fun _ _ => True) (require message condition) (require message condition') := by
  subst same
  cases condition'
  · exact .error _
  · exact .ok trivial

private theorem getAt_related {α β : Type} {R : α → β → Prop} {l : List α} {l' : List β}
    (h : List.Forall₂ R l l') : Related R (getAt l 0) (getAt l' 0) := by
  cases h with
  | nil => exact .error _
  | cons h _ => exact .ok h

/-- A class of states that a renaming keeps to. -/
class RenamedClass (α : Type) [StateClass α] : Prop where
  cast : ∀ {ρ : PublicKey → PublicKey} {s s' : ContractState}, Renamed ρ s s' →
    Option.Rel (fun a a' : α => Renamed ρ (StateClass.up a) (StateClass.up a'))
      (StateClass.cast s) (StateClass.cast s')

instance : RenamedClass ProposalState where
  cast {ρ s s'} h := by
    cases s <;> cases s' <;> first | exact .some h | exact .none | cases h

instance : RenamedClass ModifyState where
  cast {ρ s s'} h := by
    cases s <;> cases s' <;> first | exact .some h | exact .none | cases h

instance : RenamedClass TradeState where
  cast {ρ s s'} h := by
    cases s <;> cases s' <;> first | exact .some h | exact .none | cases h

instance : RenamedClass KillState where
  cast {ρ s s'} h := by
    cases s <;> cases s' <;> first | exact .some h | exact .none | cases h

private theorem ofType_related (α : Type) [StateClass α] [RenamedClass α]
    {l l' : List ContractState} (h : List.Forall₂ (Renamed ρ) l l') :
    List.Forall₂ (fun a a' : α => Renamed ρ (StateClass.up a) (StateClass.up a'))
      (l.filterMap StateClass.cast) (l'.filterMap StateClass.cast) := by
  induction h with
  | nil => exact .nil
  | @cons s s' rest rest' same _ ih =>
    have kept := RenamedClass.cast (α := α) same
    rw [List.filterMap_cons, List.filterMap_cons]
    generalize (StateClass.cast s : Option α) = a at kept
    generalize (StateClass.cast s' : Option α) = a' at kept
    cases kept with
    | none => exact ih
    | some same => exact .cons same ih

private theorem equals_renamed (injective : Function.Injective ρ) (hp : Stands ρ p p')
    (hq : Stands ρ q q') : p'.equals q' = p.equals q := by
  rw [Bool.eq_iff_iff, Party.equals_iff, Party.equals_iff, hp, hq]
  exact injective.eq_iff

private theorem immutableSet_renamed (hp : Stands ρ p p') (hq : Stands ρ q q') :
    immutableSet p' q' = (immutableSet p q).image ρ := by
  rw [immutableSet, immutableSet, hp, hq, Finset.image_insert, Finset.image_singleton]

private theorem signs_renamed (same : SameCommand ρ command command') (hp : Stands ρ p p') :
    command'.signers.contains p'.owningKey = command.signers.contains p.owningKey := by
  rw [Bool.eq_iff_iff, List.contains_iff_mem, List.contains_iff_mem, hp]
  exact same.signers _

namespace Alike

theorem inputs_length (h : Alike ρ tx tx') :
    tx'.getInputStates.length = tx.getInputStates.length := h.inputs.length_eq.symm

theorem outputs_length (h : Alike ρ tx tx') : tx'.outputs.length = tx.outputs.length := by
  simpa [LedgerTransaction.getOutputStates] using h.outputs.length_eq.symm

theorem inputs_empty (h : Alike ρ tx tx') : tx'.inputs.isEmpty = tx.inputs.isEmpty := by
  rw [Bool.eq_iff_iff, inputs_empty_iff, inputs_empty_iff, ← List.length_eq_zero_iff,
    ← List.length_eq_zero_iff, h.inputs_length]

private theorem ofInputs (α : Type) [StateClass α] [RenamedClass α] (h : Alike ρ tx tx') :
    List.Forall₂ (fun a a' : α => Renamed ρ (StateClass.up a) (StateClass.up a'))
      (tx.inputsOfType α) (tx'.inputsOfType α) := ofType_related α h.inputs

private theorem ofOutputs (α : Type) [StateClass α] [RenamedClass α] (h : Alike ρ tx tx') :
    List.Forall₂ (fun a a' : α => Renamed ρ (StateClass.up a) (StateClass.up a'))
      (tx.outputsOfType α) (tx'.outputsOfType α) := ofType_related α h.outputs

private theorem commands_length (h : Alike ρ tx tx') : tx'.commands.length = tx.commands.length :=
  h.commands.length_eq.symm

end Alike

private theorem verifyPropose_alike (injective : Function.Injective ρ) (h : Alike ρ tx tx')
    (same : SameCommand ρ command command') :
    verifyPropose tx' command' = verifyPropose tx command := by
  have outputs := h.ofOutputs ProposalState
  unfold verifyPropose
  refine bind_related (require_related h.inputs_empty) fun _ _ _ => ?_
  refine bind_related (require_related (by rw [h.outputs_length])) fun _ _ _ => ?_
  refine bind_related (require_related (by rw [outputs.length_eq])) fun _ _ _ => ?_
  refine bind_related (require_related (by rw [h.commands_length])) fun _ _ _ => ?_
  refine bind_related (require_related h.time) fun _ _ _ => ?_
  refine bind_related (getAt_related outputs) fun p p' renamed => ?_
  obtain ⟨buyer, seller, proposer, proposee⟩ := renamed
  refine bind_related (require_related ?_) fun _ _ _ => ?_
  · rw [immutableSet_renamed buyer seller, immutableSet_renamed proposee proposer,
      Bool.eq_iff_iff, beq_iff_eq, beq_iff_eq]
    exact (Finset.image_injective injective).eq_iff
  refine bind_related (require_related (signs_renamed same proposer)) fun _ _ _ => ?_
  rw [signs_renamed same proposee]

private theorem verifyAccept_alike (injective : Function.Injective ρ) (h : Alike ρ tx tx')
    (same : SameCommand ρ command command') :
    verifyAccept tx' command' = verifyAccept tx command := by
  have inputs := h.ofInputs ModifyState
  have outputs := h.ofOutputs TradeState
  unfold verifyAccept
  refine bind_related (require_related (by rw [h.inputs_length])) fun _ _ _ => ?_
  refine bind_related (require_related (by rw [inputs.length_eq])) fun _ _ _ => ?_
  refine bind_related (require_related (by rw [h.outputs_length])) fun _ _ _ => ?_
  refine bind_related (require_related (by rw [outputs.length_eq])) fun _ _ _ => ?_
  refine bind_related (require_related (by rw [h.commands_length])) fun _ _ _ => ?_
  refine bind_related (require_related h.time) fun _ _ _ => ?_
  refine bind_related (getAt_related inputs) fun m m' renamed => ?_
  refine bind_related (getAt_related outputs) fun t t' renamed' => ?_
  obtain ⟨buyer, seller, proposer, proposee⟩ := renamed
  obtain ⟨buyer', seller'⟩ := renamed'
  refine bind_related (require_related (equals_renamed injective buyer buyer')) fun _ _ _ => ?_
  refine bind_related (require_related (equals_renamed injective seller seller')) fun _ _ _ => ?_
  refine bind_related (require_related (signs_renamed same proposer)) fun _ _ _ => ?_
  rw [signs_renamed same proposee]

private theorem verifyModify_alike (injective : Function.Injective ρ) (h : Alike ρ tx tx')
    (same : SameCommand ρ command command') :
    verifyModify tx' command' = verifyModify tx command := by
  have inputs := h.ofInputs ProposalState
  have outputs := h.ofOutputs ModifyState
  unfold verifyModify
  refine bind_related (require_related (by rw [h.inputs_length])) fun _ _ _ => ?_
  refine bind_related (require_related (by rw [inputs.length_eq])) fun _ _ _ => ?_
  refine bind_related (require_related (by rw [h.outputs_length])) fun _ _ _ => ?_
  refine bind_related (require_related (by rw [outputs.length_eq])) fun _ _ _ => ?_
  refine bind_related (require_related (by rw [h.commands_length])) fun _ _ _ => ?_
  refine bind_related (require_related h.time) fun _ _ _ => ?_
  refine bind_related (getAt_related inputs) fun p p' renamed => ?_
  refine bind_related (getAt_related outputs) fun m m' renamed' => ?_
  obtain ⟨buyer, seller, proposer, proposee⟩ := renamed
  obtain ⟨buyer', seller', -, -⟩ := renamed'
  refine bind_related (require_related (equals_renamed injective buyer buyer')) fun _ _ _ => ?_
  refine bind_related (require_related (equals_renamed injective seller seller')) fun _ _ _ => ?_
  refine bind_related (require_related (signs_renamed same proposer)) fun _ _ _ => ?_
  rw [signs_renamed same proposee]

private theorem verifyKill_alike (h : Alike ρ tx tx') (same : SameCommand ρ command command') :
    verifyKill tx' command' = verifyKill tx command := by
  have outputs := h.ofOutputs KillState
  unfold verifyKill
  refine bind_related (require_related (by rw [h.inputs_length])) fun _ _ _ => ?_
  refine bind_related (require_related (by rw [h.outputs_length])) fun _ _ _ => ?_
  refine bind_related (require_related (by rw [outputs.length_eq])) fun _ _ _ => ?_
  refine bind_related (require_related (by rw [h.commands_length])) fun _ _ _ => ?_
  refine bind_related (require_related h.time) fun _ _ _ => ?_
  refine bind_related (getAt_related outputs) fun κ κ' renamed => ?_
  obtain ⟨-, -, proposer, proposee⟩ := renamed
  refine bind_related (require_related (signs_renamed same proposer)) fun _ _ _ => ?_
  rw [signs_renamed same proposee]

/-- The contract judges alike, down to the text of the line that fails, whatever the terms,
names, ids, notaries and references are, and whoever is behind the keys: it reads the
classes, the roles and the signatures, and nothing of what is traded. -/
theorem verify_blind (injective : Function.Injective ρ) (h : Alike ρ tx tx') :
    verify tx' = verify tx := by
  unfold verify
  refine bind_related (getAt_related h.commands) fun command command' same => ?_
  rw [same.value]
  split
  · exact verifyPropose_alike injective h same
  · exact verifyAccept_alike injective h same
  · exact verifyModify_alike injective h same
  · exact verifyKill_alike h same
  · rfl

def otherwise : LedgerTransaction where
  inputs := []
  outputs := [⟨.proposal ⟨none, some 99, ⟨bob.name, 11⟩, ⟨alice.name, 12⟩, ⟨bob.name, 11⟩,
    ⟨alice.name, 12⟩, 42⟩, charlie⟩]
  commands := [⟨.propose, [12, 11]⟩]
  timeWindow := none
  notary := some charlie

private theorem proposed_alike : Alike (· + 10) proposed.tx otherwise := by
  have shifted : ∀ n : Nat, n + 10 ∈ [12, 11] ↔ n ∈ [1, 2] := by
    intro n
    simp only [List.mem_cons, List.not_mem_nil, or_false]
    omega
  exact ⟨.nil, .cons ⟨rfl, rfl, rfl, rfl⟩ .nil, .cons ⟨rfl, shifted⟩ .nil, rfl⟩

theorem verify_blind_otherwise : Alike (· + 10) proposed.tx otherwise ∧
    verify otherwise = verify proposed.tx :=
  ⟨proposed_alike, verify_blind (add_left_injective 10) proposed_alike⟩

end EnergyMarket.Blindness
