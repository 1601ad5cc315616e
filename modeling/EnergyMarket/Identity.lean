/- Module: EnergyMarket/Identity
   digest: Linear ids: what the contract leaves to the builders, and what keeping them gives. -/

import EnergyMarket.Library.LinearHistory
import EnergyMarket.Drafts
import EnergyMarket.Vault

set_option autoImplicit false
set_option relaxedAutoImplicit false

namespace EnergyMarket.Identity
open EnergyMarket.Library.Utxo EnergyMarket.Library.LinearHistory EnergyMarket.States
open EnergyMarket.Transactions EnergyMarket.Contract EnergyMarket.Contract.ProposalAndTradeContract
open EnergyMarket.Ledger EnergyMarket.Flows EnergyMarket.Drafts EnergyMarket.Vault

section Blind

def withoutId : ContractState → ContractState
  | .proposal s => .proposal { s with linearId := 0 }
  | .modify s => .modify { s with linearId := 0 }
  | .trade s => .trade { s with linearId := 0 }
  | .kill s => .kill { s with linearId := 0 }
  | .foreign s => .foreign s

/-- The transaction with the linear ids of its states wiped out. -/
def withoutIds (tx : LedgerTransaction) : LedgerTransaction :=
  { tx with
    inputs := tx.inputs.map (fun i => ⟨⟨withoutId i.state.data, i.state.notary⟩, i.ref⟩)
    outputs := tx.outputs.map (fun o => ⟨withoutId o.data, o.notary⟩) }

variable {tx : LedgerTransaction}

private theorem inputStates_withoutIds :
    (withoutIds tx).getInputStates = tx.getInputStates.map withoutId := by
  simp [withoutIds, LedgerTransaction.getInputStates, Function.comp_def]

private theorem outputStates_withoutIds :
    (withoutIds tx).getOutputStates = tx.getOutputStates.map withoutId := by
  simp [withoutIds, LedgerTransaction.getOutputStates, Function.comp_def]

private theorem filterMap_withoutId {α : Type} [StateClass α] {f : α → α}
    (hf : ∀ s, StateClass.cast (α := α) (withoutId s) = (StateClass.cast s).map f)
    (l : List ContractState) :
    (l.map withoutId).filterMap (StateClass.cast (α := α)) =
      (l.filterMap StateClass.cast).map f := by
  simp [List.filterMap_map, List.map_filterMap, hf]

private theorem inputsOfType_withoutIds {α : Type} [StateClass α] {f : α → α}
    (hf : ∀ s, StateClass.cast (α := α) (withoutId s) = (StateClass.cast s).map f) :
    (withoutIds tx).inputsOfType α = (tx.inputsOfType α).map f := by
  rw [LedgerTransaction.inputsOfType, inputStates_withoutIds, filterMap_withoutId hf]
  rfl

private theorem outputsOfType_withoutIds {α : Type} [StateClass α] {f : α → α}
    (hf : ∀ s, StateClass.cast (α := α) (withoutId s) = (StateClass.cast s).map f) :
    (withoutIds tx).outputsOfType α = (tx.outputsOfType α).map f := by
  rw [LedgerTransaction.outputsOfType, outputStates_withoutIds, filterMap_withoutId hf]
  rfl

private theorem cast_proposal (s : ContractState) :
    StateClass.cast (α := ProposalState) (withoutId s) =
      (StateClass.cast s).map (fun p : ProposalState => { p with linearId := 0 }) := by
  cases s <;> rfl

private theorem cast_modify (s : ContractState) :
    StateClass.cast (α := ModifyState) (withoutId s) =
      (StateClass.cast s).map (fun m : ModifyState => { m with linearId := 0 }) := by
  cases s <;> rfl

private theorem cast_trade (s : ContractState) :
    StateClass.cast (α := TradeState) (withoutId s) =
      (StateClass.cast s).map (fun t : TradeState => { t with linearId := 0 }) := by
  cases s <;> rfl

private theorem cast_kill (s : ContractState) :
    StateClass.cast (α := KillState) (withoutId s) =
      (StateClass.cast s).map (fun κ : KillState => { κ with linearId := 0 }) := by
  cases s <;> rfl

private theorem getAt_map {α β : Type} (f : α → β) (l : List α) :
    getAt (l.map f) 0 = (getAt l 0).map f := by
  cases l <;> rfl

private theorem map_bind_outcome {α β γ : Type} (f : α → β) (x : Outcome α) (g : β → Outcome γ) :
    (x.map f >>= g) = (x >>= fun a => g (f a)) := by
  cases x <;> rfl

private theorem inputs_length :
    (withoutIds tx).getInputStates.length = tx.getInputStates.length := by
  simp [inputStates_withoutIds]

private theorem outputs_length_withoutIds : (withoutIds tx).outputs.length = tx.outputs.length := by
  simp [withoutIds]

private theorem inputs_empty : (withoutIds tx).inputs.isEmpty = tx.inputs.isEmpty := by
  simp [withoutIds]

/-- No branch of the contract reads a linear id. -/
theorem verify_withoutIds : verify (withoutIds tx) = verify tx := by
  have commands : (withoutIds tx).commands = tx.commands := rfl
  have time : (withoutIds tx).timeWindow = tx.timeWindow := rfl
  simp only [verify, verifyPropose, verifyAccept, verifyModify, verifyKill, commands, time,
    inputs_empty, inputs_length, outputs_length_withoutIds,
    inputsOfType_withoutIds cast_proposal, inputsOfType_withoutIds cast_modify,
    outputsOfType_withoutIds cast_proposal, outputsOfType_withoutIds cast_modify,
    outputsOfType_withoutIds cast_trade, outputsOfType_withoutIds cast_kill,
    List.length_map, getAt_map, map_bind_outcome]

end Blind

/-- The output carries the linear id of the state it replaces. -/
def IdKept (tx : LedgerTransaction) : Prop :=
  ∀ s ∈ tx.getInputStates, ∀ o ∈ tx.getOutputStates, o.getLinearId = s.getLinearId

/-- A negotiation is opened under a linear id never seen before. -/
def IdNew (L : List SignedTransaction) (tx : LedgerTransaction) : Prop :=
  tx.getInputStates = [] → ∀ o ∈ tx.getOutputStates, o.getLinearId ≠ none →
    ∀ a ∈ ports.created L, a.2.data.getLinearId ≠ o.getLinearId

instance (tx : LedgerTransaction) : Decidable (IdKept tx) :=
  inferInstanceAs (Decidable (∀ s ∈ _, ∀ o ∈ _, _ = _))

instance (L : List SignedTransaction) (tx : LedgerTransaction) : Decidable (IdNew L tx) :=
  inferInstanceAs (Decidable (_ → ∀ o ∈ _, _ → ∀ a ∈ _, _))

def candidates (α : Type) [StateClass α] (vault : List (StateAndRef ContractState))
    (id : UniqueIdentifier) : List (StateAndRef α) :=
  (vault.filterMap StateAndRef.cast).filter (fun i =>
    (StateClass.up i.state.data).getLinearId == some id)

/-- At most one unspent state carries an id, and no vault offers a choice of them. -/
structure UniqueIds (L : List SignedTransaction) : Prop where
  unspent : ∀ id r r' s s', ports.Unspent L r s → ports.Unspent L r' s' →
    s.data.getLinearId = some id → s'.data.getLinearId = some id → r = r' ∧ s = s'
  proposals : ∀ us recorded id, (candidates ProposalState (vaultOf us L recorded) id).length ≤ 1
  modifications : ∀ us recorded id, (candidates ModifyState (vaultOf us L recorded) id).length ≤ 1

/-- The identity of negotiations, as a property of every ledger. -/
structure IdentityKept (L : List SignedTransaction) : Prop where
  kept : ∀ stx ∈ L, IdKept stx.tx
  fresh : ∀ k stx, L[k]? = some stx → IdNew (L.take k) stx.tx
  unique : UniqueIds L

/-- What builders who keep the ids add to the platform's rule. -/
def idRule (L : List SignedTransaction) (stx : SignedTransaction) : Prop :=
  rule L stx ∧ IdKept stx.tx ∧ IdNew L stx.tx

instance (L : List SignedTransaction) (stx : SignedTransaction) : Decidable (idRule L stx) :=
  inferInstanceAs (Decidable (_ ∧ _ ∧ _))

def key (s : TransactionState ContractState) : Option UniqueIdentifier := s.data.getLinearId

variable {L : List SignedTransaction} {stx : SignedTransaction} {id : UniqueIdentifier}

theorem onLedger_of_ids (h : ports.Ledger idRule L) : OnLedger L :=
  h.mono (fun _ _ _ _ hr => hr.1)

theorem unkeyed_of_foreign (foreign : stx.tx.runsContract = false) :
    keyedInputs ports key stx = [] ∧ keyedOutputs ports key stx = [] := by
  have none : ∀ s : ContractState, s.belongsToContract = false → s.getLinearId = none := by
    intro s hs
    by_contra keyed
    rw [ContractState.belongsToContract_iff.mpr keyed] at hs
    cases hs
  constructor
  · apply List.filter_eq_nil_iff.mpr
    intro i hi
    have input := input_state_mem (mem_inputs.mp hi)
    cases four : i.2.data.belongsToContract with
    | true => simp [LedgerTransaction.runsContract_input input four] at foreign
    | false => simp [key, none _ four]
  · apply List.filter_eq_nil_iff.mpr
    intro o ho
    have output : o.data ∈ stx.tx.getOutputStates := List.mem_map_of_mem ho
    cases four : o.data.belongsToContract with
    | true => simp [LedgerTransaction.runsContract_output output four] at foreign
    | false => simp [key, none _ four]

theorem keyedOutputs_single {s : ContractState} (h : stx.tx.getOutputStates = [s])
    (hs : s.getLinearId ≠ none) :
    ∃ notary, keyedOutputs ports key stx = [⟨s, notary⟩] := by
  obtain ⟨notary, ho⟩ := outputs_single h
  exact ⟨notary, by simp [keyedOutputs, ports, ho, key, Option.isSome_iff_ne_none, hs]⟩

private theorem replacing_of_kept {s o : ContractState} (hin : stx.tx.getInputStates = [s])
    (hout : stx.tx.getOutputStates = [o]) (ho : o.getLinearId = some id) (kept : IdKept stx.tx) :
    Linear ports key L stx := by
  have hs : s.getLinearId = some id := by
    rw [← kept s (mem_of_single hin) o (mem_of_single hout), ho]
  obtain ⟨r, notary, inputs⟩ := inputs_single hin
  obtain ⟨notary', outputs⟩ := keyedOutputs_single hout (by simp [ho])
  exact .replacing (r := r) (s := ⟨s, notary⟩) (by simp [keyedInputs, inputs, key, hs]) outputs hs
    ho

theorem unused_of_new {p : ProposalState} (h : Proposes stx.tx p) (new : IdNew L stx.tx) :
    history ports key L p.linearId = [] := by
  apply List.filter_eq_nil_iff.mpr
  intro a ha
  have other := new h.inputs _ (mem_of_single h.outputs) (by simp [ContractState.getLinearId]) a ha
  exact fun same => other (of_decide_eq_true same)

/-- A committed transaction of such builders opens an id or hands it on. -/
theorem linear_of_rule (h : idRule L stx) : Linear ports key L stx := by
  obtain ⟨committable, kept, new⟩ := h
  cases runs : stx.tx.runsContract with
  | false => exact .untracked (unkeyed_of_foreign runs).1 (unkeyed_of_foreign runs).2
  | true =>
    cases committable.accepted runs with
    | @propose p h =>
      obtain ⟨notary, outputs⟩ := keyedOutputs_single h.outputs
        (by simp [ContractState.getLinearId])
      exact .opening (by simp [keyedInputs, inputs_nil h.inputs]) outputs rfl (unused_of_new h new)
    | accept h => exact replacing_of_kept h.inputs h.outputs rfl kept
    | modify h => exact replacing_of_kept h.inputs h.outputs rfl kept
    | kill h => exact replacing_of_kept h.inputs h.outputs rfl kept

theorem threaded_ids (h : ports.Ledger idRule L) (id : UniqueIdentifier) :
    Threaded ports key L id :=
  threaded h (fun _ _ _ _ hr => linear_of_rule hr) id

theorem output_key (h : ports.Ledger idRule L) {k : Nat} (hk : L[k]? = some stx)
    {i : StateRef × TransactionState ContractState} (hi : i ∈ ports.inputs stx)
    {o : TransactionState ContractState} (ho : o ∈ stx.tx.outputs) : key o = key i.2 := by
  obtain ⟨-, -, -, kept, -⟩ := h.at hk
  exact kept _ (input_state_mem (mem_inputs.mp hi)) _ (List.mem_map_of_mem ho)

theorem proposal_first (h : ports.Ledger idRule L) {i : Nat} {r : StateRef} {p : ProposalState}
    {notary : Party} (hi : (history ports key L id)[i]? = some (r, ⟨.proposal p, notary⟩)) :
    i = 0 := by
  have created := (mem_history.mp (List.mem_of_getElem? hi)).1
  obtain ⟨stx, hr, -, proposes⟩ := created_proposal (onLedger_of_ids h) created
  cases i with
  | zero => rfl
  | succ i =>
    obtain ⟨a, -, t, ht, input⟩ := (threaded_ids h id).previous hi
    obtain rfl : stx = t := Option.some.inj (hr.symm.trans ht)
    rw [inputs_nil proposes.inputs] at input
    cases input

theorem modify_second (h : ports.Ledger idRule L) {i : Nat} {r : StateRef} {m : ModifyState}
    {notary : Party} (hi : (history ports key L id)[i]? = some (r, ⟨.modify m, notary⟩)) :
    i = 1 := by
  have created := (mem_history.mp (List.mem_of_getElem? hi)).1
  obtain ⟨stx, p, hr, -, modifies⟩ := created_modify (onLedger_of_ids h) created
  obtain ⟨r', notary', inputs⟩ := inputs_single modifies.inputs
  cases i with
  | zero =>
    obtain ⟨t, ht, none⟩ := (threaded_ids h id).first hi
    obtain rfl : stx = t := Option.some.inj (hr.symm.trans ht)
    simp [keyedInputs, inputs, key, ContractState.getLinearId] at none
  | succ i =>
    obtain ⟨a, before, t, ht, input⟩ := (threaded_ids h id).previous hi
    obtain rfl : stx = t := Option.some.inj (hr.symm.trans ht)
    cases eq_of_single inputs input
    rw [proposal_first h before]

theorem mem_candidates {α : Type} [StateClass α] {vault : List (StateAndRef ContractState)}
    {i : StateAndRef α} : i ∈ candidates α vault id ↔
      i.up ∈ vault ∧ (StateClass.up i.state.data).getLinearId = some id := by
  simp only [candidates, List.mem_filter, List.mem_filterMap, StateAndRef.cast_iff, beq_iff_eq,
    exists_eq_right]

private theorem candidates_single {α : Type} [StateClass α] {us : Party} {recorded : List Nat}
    {n : Nat} (place : ∀ i r (a : α) notary,
      (history ports key L id)[i]? = some (r, ⟨StateClass.up a, notary⟩) → i = n) :
    (candidates α (vaultOf us L recorded) id).length ≤ 1 := by
  have known : ∀ c ∈ candidates α (vaultOf us L recorded) id,
      (c.ref, c.up.state) ∈ history ports key L id := by
    intro c hc
    obtain ⟨held, keyed⟩ := mem_candidates.mp hc
    exact mem_history.mpr ⟨vault_resolves held, keyed⟩
  have single : ∀ c ∈ candidates α (vaultOf us L recorded) id,
      ∀ c' ∈ candidates α (vaultOf us L recorded) id, c = c' := by
    intro c hc c' hc'
    have same := unique_at (A := fun s => ∃ a : α, s.data = StateClass.up a)
      (fun i a ha hA => by
        obtain ⟨x, hx⟩ := hA
        obtain ⟨r, ⟨d, notary⟩⟩ := a
        obtain rfl : d = StateClass.up x := hx
        exact place i r x notary ha)
      (known c hc) (known c' hc') ⟨_, rfl⟩ ⟨_, rfl⟩
    obtain ⟨⟨a, notary⟩, r⟩ := c
    obtain ⟨⟨a', notary'⟩, r'⟩ := c'
    simp only [StateAndRef.up, Prod.mk.injEq, TransactionState.mk.injEq] at same
    obtain ⟨rfl, up, rfl⟩ := same
    rw [up_injective up]
  have nodup : (candidates α (vaultOf us L recorded) id).Nodup := by
    refine (List.Nodup.filterMap (fun v v' c hc hc' => ?_) vaultOf_nodup).filter _
    rw [StateAndRef.cast_iff.mp hc, StateAndRef.cast_iff.mp hc']
  rcases hl : candidates α (vaultOf us L recorded) id with _ | ⟨a, _ | ⟨b, rest⟩⟩
  · simp
  · simp
  · rw [hl] at single nodup
    have same := single a (by simp) b (by simp)
    simp [same] at nodup

/-- Builders who keep the ids make them unique, whatever else they do. -/
theorem uniqueIds_of_rule (h : ports.Ledger idRule L) : UniqueIds L :=
  ⟨fun id _ _ _ _ hr hr' hk hk' => (threaded_ids h id).one_unspent hr hr' hk hk',
    fun _ _ _ => candidates_single (fun _ _ _ _ hi => proposal_first h hi),
    fun _ _ _ => candidates_single (fun _ _ _ _ hi => modify_second h hi)⟩

/-- Every initiator keeps the id of what it consumes, and ProposalFlow uses the id it
has drawn. -/
theorem drafted_ids {hub : ServiceHub} {newId : UniqueIdentifier} {start : FlowStart}
    {counterparty : Party} (h : Drafted hub newId start stx counterparty) :
    IdKept stx.tx ∧ (stx.tx.getInputStates = [] → ∀ o ∈ stx.tx.getOutputStates,
      o.getLinearId = some newId) := by
  cases h <;>
    simp [draft, IdKept, LedgerTransaction.getInputStates, LedgerTransaction.getOutputStates,
      ContractState.getLinearId, KillProposalFlow.kill, KillModificationFlow.kill]

def twins : List SignedTransaction :=
  [proposed, signedBy [1, 2] .propose [] (.proposal { offer with amount := some 50 })]

end EnergyMarket.Identity
