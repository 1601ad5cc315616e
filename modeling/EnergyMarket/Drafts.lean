/- Module: EnergyMarket/Drafts
   digest: What each initiator has built by the time it opens its session, and who signs it. -/

import EnergyMarket.Flows

set_option autoImplicit false
set_option relaxedAutoImplicit false

namespace EnergyMarket.Drafts
open EnergyMarket.States EnergyMarket.Transactions EnergyMarket.Flows
open EnergyMarket.Contract EnergyMarket.Contract.ProposalAndTradeContract

variable {hub : ServiceHub} {stx signed : SignedTransaction} {us counterparty : Party}
variable {proposalId newId : UniqueIdentifier} {choice : Nat}

theorem throw_eq {α : Type} (e : Failure) : (throw e : Outcome α) = .error e := rfl

private theorem findAny_mem {α : Type} {l : List α} {a : α} (h : findAny choice l = some a) :
    a ∈ l :=
  List.mem_of_getElem? h

theorem lookup_ok {α : Type} [StateClass α] {notFound : String} {i : StateAndRef α}
    (h : lookup α notFound hub proposalId choice = .ok i) : i.up ∈ hub.vault ∧
      (StateClass.up i.state.data).getLinearId = some proposalId := by
  simp only [lookup, bind_ok_iff] at h
  obtain ⟨states, query, found⟩ := h
  have known : states = hub.vault.filterMap StateAndRef.cast := by
    simp only [ServiceHub.queryBy] at query
    split at query
    · exact (Except.ok.inj query).symm
    · cases query
  split at found
  · rename_i j hj
    cases found
    have mem := findAny_mem hj
    rw [List.mem_filter, known, List.mem_filterMap] at mem
    obtain ⟨⟨v, hv, cast⟩, id⟩ := mem
    exact ⟨StateAndRef.cast_iff.mp cast ▸ hv, by simpa using id⟩
  · cases found

private theorem addInputState_ok {tx tx' : TransactionBuilder} {input : StateAndRef ContractState}
    (h : tx.addInputState input = .ok tx') :
    input.state.notary.owningKey = tx.notary.owningKey ∧
      tx' = { tx with inputs := tx.inputs ++ [input] } := by
  unfold TransactionBuilder.addInputState at h
  split at h
  · rename_i same
    exact ⟨Party.equals_iff.mp same, (Except.ok.inj h).symm⟩
  · cases h

/-- A transaction with one command and one output, signed by the node that built it. -/
def draft (hub : ServiceHub) (notary : Party) (inputs : List (StateAndRef ContractState))
    (output : ContractState) (command : CommandData) (signers : List PublicKey) :
    SignedTransaction where
  tx :=
    { inputs := inputs
      outputs := [⟨output, notary⟩]
      commands := [⟨command, signers⟩]
      timeWindow := none
      notary := some notary }
  sigs := [hub.ourIdentity.owningKey]

/-- The counterparty that an initiator derives: the role that is not ours. -/
def otherThan (us first second : Party) : Party :=
  if us.owningKey == first.owningKey then second else first

/-- What the five initiators build, of the states their node's vault holds. -/
inductive Drafted (hub : ServiceHub) (newId : UniqueIdentifier) :
    FlowStart → SignedTransaction → Party → Prop
  | propose {amount unitPrice : Double} {counterparty notary : Party}
      (known : hub.getNotary ProposalFlow.notaryName = some notary) :
      Drafted hub newId (.propose (some true) amount unitPrice (some counterparty))
        (draft hub notary []
          (.proposal ⟨amount, unitPrice, hub.ourIdentity, counterparty, hub.ourIdentity,
            counterparty, newId⟩)
          .propose [hub.ourIdentity.owningKey, counterparty.owningKey])
        counterparty
  | modify {newAmount newUnitPrice : Double} {input : ProposalState} {notary : Party}
      {ref : StateRef} (held : ⟨⟨.proposal input, notary⟩, ref⟩ ∈ hub.vault)
      (ours : hub.ourIdentity.owningKey = input.proposee.owningKey) :
      Drafted hub newId (.modify input.linearId newAmount newUnitPrice)
        (draft hub notary [⟨⟨.proposal input, notary⟩, ref⟩]
          (.modify ⟨newAmount, newUnitPrice, input.buyer, input.seller, input.proposer,
            hub.ourIdentity, input.linearId⟩)
          .modify [input.proposer.owningKey, hub.ourIdentity.owningKey])
        input.proposer
  | accept {input : ModifyState} {notary : Party} {ref : StateRef}
      (held : ⟨⟨.modify input, notary⟩, ref⟩ ∈ hub.vault) :
      Drafted hub newId (.accept input.linearId)
        (draft hub notary [⟨⟨.modify input, notary⟩, ref⟩]
          (.trade ⟨input.amount, input.unitPrice, input.buyer, input.seller, input.linearId⟩)
          .accept [input.proposer.owningKey, input.proposee.owningKey])
        (otherThan hub.ourIdentity input.proposer input.proposee)
  | killProposal {input : ProposalState} {notary first : Party} {ref : StateRef}
      (held : ⟨⟨.proposal input, notary⟩, ref⟩ ∈ hub.vault)
      (head : hub.notaryIdentities.head? = some first)
      (same : notary.owningKey = first.owningKey) :
      Drafted hub newId (.killProposal input.linearId)
        (draft hub first [⟨⟨.proposal input, notary⟩, ref⟩]
          (.kill (KillProposalFlow.kill input)) .kill
          [(otherThan hub.ourIdentity input.proposee input.proposer).owningKey,
            hub.ourIdentity.owningKey])
        (otherThan hub.ourIdentity input.proposee input.proposer)
  | killModification {input : ModifyState} {notary first : Party} {ref : StateRef}
      (held : ⟨⟨.modify input, notary⟩, ref⟩ ∈ hub.vault)
      (head : hub.notaryIdentities.head? = some first)
      (same : notary.owningKey = first.owningKey) :
      Drafted hub newId (.killModification input.linearId)
        (draft hub first [⟨⟨.modify input, notary⟩, ref⟩]
          (.kill (KillModificationFlow.kill input)) .kill
          [(otherThan hub.ourIdentity input.proposee input.proposer).owningKey,
            hub.ourIdentity.owningKey])
        (otherThan hub.ourIdentity input.proposee input.proposer)

theorem proposal_drafts {isBuyer : Option Bool} {amount unitPrice : Double}
    {peer : Option Party}
    (h : ProposalFlow.Initiator.call hub isBuyer amount unitPrice peer newId =
      .ok (stx, counterparty)) :
    Drafted hub newId (.propose isBuyer amount unitPrice peer) stx counterparty := by
  simp only [ProposalFlow.Initiator.call, bind_ok_iff, deref_ok_iff] at h
  obtain ⟨buyer, rfl, h⟩ := h
  cases buyer with
  | false => simp [throw_eq] at h
  | true =>
    simp only [if_true, bind_ok_iff, deref_ok_iff] at h
    obtain ⟨seller, rfl, h⟩ := h
    cases known : hub.getNotary ProposalFlow.notaryName with
    | none => simp [known, throw_eq] at h
    | some notary =>
      simp only [known] at h
      obtain ⟨rfl, rfl⟩ := Prod.mk.inj (Except.ok.inj h)
      exact .propose known

theorem modification_drafts {newAmount newUnitPrice : Double}
    (h : ModificationFlow.Initiator.call hub proposalId newAmount newUnitPrice choice =
      .ok (stx, counterparty)) :
    Drafted hub newId (.modify proposalId newAmount newUnitPrice) stx counterparty := by
  simp only [ModificationFlow.Initiator.call, bind_ok_iff] at h
  obtain ⟨⟨⟨input, notary⟩, ref⟩, found, h⟩ := h
  obtain ⟨held, id⟩ := lookup_ok found
  have same : input.linearId = proposalId := Option.some.inj id
  by_cases ours : hub.ourIdentity.owningKey = input.proposee.owningKey
  · simp only [ours, beq_self_eq_true, if_true, bne_self_eq_false, Bool.false_eq_true, if_false,
      bind_ok_iff] at h
    obtain ⟨builder, added, h⟩ := h
    obtain ⟨-, rfl⟩ := addInputState_ok added
    obtain ⟨rfl, rfl⟩ := Prod.mk.inj (Except.ok.inj h)
    subst same
    rw [← ours]
    exact .modify held ours
  · simp [ours, throw_eq] at h

theorem acceptance_drafts
    (h : AcceptanceFlow.Initiator.call hub proposalId choice = .ok (stx, counterparty)) :
    Drafted hub newId (.accept proposalId) stx counterparty := by
  simp only [AcceptanceFlow.Initiator.call, bind_ok_iff] at h
  obtain ⟨⟨⟨input, notary⟩, ref⟩, found, builder, added, h⟩ := h
  obtain ⟨held, id⟩ := lookup_ok found
  obtain ⟨-, rfl⟩ := addInputState_ok added
  obtain ⟨rfl, rfl⟩ := Prod.mk.inj (Except.ok.inj h)
  have same : input.linearId = proposalId := Option.some.inj id
  subst same
  exact .accept held

/-- Both kill flows build their KillState from a vault state, under the first notary of
the network map, which has to be the state's own. -/
private theorem killInitiator_ok {α : Type} [StateClass α] {copy : α → KillState}
    (h : killInitiator α copy hub proposalId choice = .ok (stx, counterparty)) :
    ∃ input notary ref first, ⟨⟨StateClass.up input, notary⟩, ref⟩ ∈ hub.vault ∧
      (StateClass.up input).getLinearId = some proposalId ∧
      hub.notaryIdentities.head? = some first ∧ notary.owningKey = first.owningKey ∧
      counterparty = otherThan hub.ourIdentity (copy input).proposee (copy input).proposer ∧
      stx = draft hub first [⟨⟨StateClass.up input, notary⟩, ref⟩] (.kill (copy input)) .kill
        [counterparty.owningKey, hub.ourIdentity.owningKey] := by
  simp only [killInitiator, bind_ok_iff, getAt_zero_ok_iff] at h
  obtain ⟨⟨⟨input, notary⟩, ref⟩, found, first, head, builder, added, h⟩ := h
  obtain ⟨held, id⟩ := lookup_ok found
  obtain ⟨same, rfl⟩ := addInputState_ok added
  obtain ⟨rfl, rfl⟩ := Prod.mk.inj (Except.ok.inj h)
  exact ⟨input, notary, ref, first, held, id, head, same, rfl, rfl⟩

theorem killProposal_drafts
    (h : KillProposalFlow.Initiator.call hub proposalId choice = .ok (stx, counterparty)) :
    Drafted hub newId (.killProposal proposalId) stx counterparty := by
  obtain ⟨input, notary, ref, first, held, id, head, same, rfl, rfl⟩ := killInitiator_ok h
  obtain rfl : input.linearId = proposalId := Option.some.inj id
  exact .killProposal held head same

theorem killModification_drafts
    (h : KillModificationFlow.Initiator.call hub proposalId choice = .ok (stx, counterparty)) :
    Drafted hub newId (.killModification proposalId) stx counterparty := by
  obtain ⟨input, notary, ref, first, held, id, head, same, rfl, rfl⟩ := killInitiator_ok h
  obtain rfl : input.linearId = proposalId := Option.some.inj id
  exact .killModification held head same

/-- Every initiator that reaches its session has built one of the five drafts. -/
theorem call_drafts {start : FlowStart}
    (h : start.call hub choice newId = .ok (stx, counterparty)) :
    Drafted hub newId start stx counterparty := by
  cases start with
  | propose isBuyer amount unitPrice peer => exact proposal_drafts h
  | modify proposalId newAmount newUnitPrice => exact modification_drafts h
  | accept proposalId => exact acceptance_drafts h
  | killProposal proposalId => exact killProposal_drafts h
  | killModification proposalId => exact killModification_drafts h

section Forward

theorem proposal_call {amount unitPrice : Double} {notary : Party}
    (known : hub.getNotary ProposalFlow.notaryName = some notary) :
    ProposalFlow.Initiator.call hub (some true) amount unitPrice (some counterparty) newId =
      .ok (draft hub notary []
        (.proposal ⟨amount, unitPrice, hub.ourIdentity, counterparty, hub.ourIdentity,
          counterparty, newId⟩) .propose
        [hub.ourIdentity.owningKey, counterparty.owningKey], counterparty) := by
  simp only [ProposalFlow.Initiator.call, deref, bind, Except.bind, if_true, known]
  rfl

theorem modification_call {newAmount newUnitPrice : Double} {i : StateAndRef ProposalState}
    (found : lookup ProposalState "proposal not found" hub proposalId choice = .ok i) :
    ModificationFlow.Initiator.call hub proposalId newAmount newUnitPrice choice =
      if hub.ourIdentity.owningKey = i.state.data.proposee.owningKey then
        .ok (draft hub i.state.notary [i.up]
          (.modify ⟨newAmount, newUnitPrice, i.state.data.buyer, i.state.data.seller,
            i.state.data.proposer, hub.ourIdentity, i.state.data.linearId⟩) .modify
          [i.state.data.proposer.owningKey, hub.ourIdentity.owningKey], i.state.data.proposer)
      else .error (.illegalArgument "you are not the proposee") := by
  have own : i.up.state.notary.equals i.state.notary = true := by simp [StateAndRef.up]
  simp only [ModificationFlow.Initiator.call, found, bind, Except.bind]
  split <;> simp_all [TransactionBuilder.addInputState, throw_eq]
  rfl

theorem acceptance_call {i : StateAndRef ModifyState}
    (found : lookup ModifyState "Proposal not found" hub proposalId choice = .ok i) :
    AcceptanceFlow.Initiator.call hub proposalId choice =
      .ok (draft hub i.state.notary [i.up]
        (.trade ⟨i.state.data.amount, i.state.data.unitPrice, i.state.data.buyer,
          i.state.data.seller, i.state.data.linearId⟩) .accept
        [i.state.data.proposer.owningKey, i.state.data.proposee.owningKey],
        otherThan hub.ourIdentity i.state.data.proposer i.state.data.proposee) := by
  have own : i.up.state.notary.equals i.state.notary = true := by simp [StateAndRef.up]
  simp only [AcceptanceFlow.Initiator.call, found, bind, Except.bind,
    TransactionBuilder.addInputState, own, if_true]
  rfl

theorem killInitiator_call {α : Type} [StateClass α] {copy : α → KillState} {i : StateAndRef α}
    (found : lookup α "Proposal not found" hub proposalId choice = .ok i) :
    killInitiator α copy hub proposalId choice =
      match hub.notaryIdentities.head? with
      | none => .error .indexOutOfBounds
      | some first =>
        if i.state.notary.equals first = true then
          .ok (draft hub first [i.up] (.kill (copy i.state.data)) .kill
            [(otherThan hub.ourIdentity (copy i.state.data).proposee
              (copy i.state.data).proposer).owningKey, hub.ourIdentity.owningKey],
            otherThan hub.ourIdentity (copy i.state.data).proposee (copy i.state.data).proposer)
        else .error (.notaryMismatch i.state.notary first) := by
  cases identities : hub.notaryIdentities with
  | nil => simp [killInitiator, found, identities, getAt, bind, Except.bind]
  | cons first rest =>
    by_cases same : i.state.notary.equals first = true
    · simp only [killInitiator, found, identities, getAt, bind, Except.bind,
        TransactionBuilder.addInputState, StateAndRef.up, same, if_true, List.getElem?_cons_zero,
        List.head?_cons]
      rfl
    · simp [killInitiator, found, identities, getAt, bind, Except.bind,
        TransactionBuilder.addInputState, StateAndRef.up, same]

end Forward

section Inversion

variable {start : FlowStart} {tx : LedgerTransaction}

theorem Drafted.proposes (h : Drafted hub newId start stx counterparty) {p : ProposalState}
    (proposes : Proposes stx.tx p) :
    start = .propose (some true) p.amount p.unitPrice (some p.proposee) := by
  have command := proposes.command
  cases h with
  | modify | accept | killProposal | killModification => simp [draft] at command
  | propose known =>
    have outputs := proposes.outputs
    simp only [draft, LedgerTransaction.getOutputStates, List.map_cons, List.map_nil,
      List.cons.injEq, ContractState.proposal.injEq, and_true] at outputs
    subst outputs
    rfl

theorem Drafted.modifies (h : Drafted hub newId start stx counterparty) {p : ProposalState}
    {m : ModifyState} (modifies : Modifies stx.tx p m) :
    start = .modify p.linearId m.amount m.unitPrice ∧ m.proposer = p.proposer ∧
      m.proposee = hub.ourIdentity := by
  have command := modifies.command
  cases h with
  | propose | accept | killProposal | killModification => simp [draft] at command
  | modify held ours =>
    have inputs := modifies.inputs
    have outputs := modifies.outputs
    simp only [draft, LedgerTransaction.getInputStates, LedgerTransaction.getOutputStates,
      List.map_cons, List.map_nil, List.cons.injEq, ContractState.proposal.injEq,
      ContractState.modify.injEq, and_true] at inputs outputs
    subst inputs
    subst outputs
    exact ⟨rfl, rfl, rfl⟩

theorem Drafted.accepts (h : Drafted hub newId start stx counterparty) {m : ModifyState}
    {t : TradeState} (accepts : Accepts stx.tx m t) :
    start = .accept m.linearId ∧
      t = ⟨m.amount, m.unitPrice, m.buyer, m.seller, m.linearId⟩ := by
  have command := accepts.command
  cases h with
  | propose | modify | killProposal | killModification => simp [draft] at command
  | accept held =>
    have inputs := accepts.inputs
    have outputs := accepts.outputs
    simp only [draft, LedgerTransaction.getInputStates, LedgerTransaction.getOutputStates,
      List.map_cons, List.map_nil, List.cons.injEq, ContractState.modify.injEq,
      ContractState.trade.injEq, and_true] at inputs outputs
    subst inputs
    subst outputs
    exact ⟨rfl, rfl⟩

end Inversion

/-- A responder signs exactly the transactions its counterparty has signed, that ask for
our key, that the contract accepts and that its own check lets through. -/
theorem respond_ok_iff {flow : Flow} : flow.respond us counterparty stx = .ok signed ↔
    counterparty.owningKey ∈ stx.sigs ∧ us.owningKey ∈ stx.tx.requiredSigningKeys ∧
      verify stx.tx = .ok () ∧ flow.checkTransaction counterparty stx.tx = .ok () ∧
      signed = { stx with sigs := stx.sigs ++ [us.owningKey] } := by
  simp only [Flow.respond, signTransactionFlow, Bool.and_eq_true, List.contains_iff_mem]
  split
  · rename_i both
    simp only [bind_ok_iff, both, true_and]
    constructor
    · rintro ⟨⟨⟩, verified, ⟨⟩, checked, h⟩
      exact ⟨verified, checked, (Except.ok.inj h).symm⟩
    · rintro ⟨verified, checked, rfl⟩
      exact ⟨(), verified, (), checked, rfl⟩
  · rename_i either
    simp only [reduceCtorEq, false_iff]
    exact fun h => either ⟨h.1, h.2.1⟩

theorem modificationCheck_ok_iff {tx : LedgerTransaction} :
    ModificationFlow.Responder.checkTransaction counterparty tx = .ok () ↔
      ∃ input, (tx.inputsOfType ProposalState).head? = some input ∧
        input.proposee.equals counterparty = true := by
  simp only [ModificationFlow.Responder.checkTransaction, bind_ok_iff, getAt_zero_ok_iff]
  refine exists_congr fun input => and_congr_right fun _ => ?_
  cases input.proposee.equals counterparty <;> simp [throw_eq]

theorem acceptanceCheck_ok_iff {tx : LedgerTransaction} :
    AcceptanceFlow.Responder.checkTransaction counterparty tx = .ok () ↔
      ∃ input, (tx.inputsOfType ModifyState).head? = some input ∧
        input.proposer.equals counterparty = true := by
  simp only [AcceptanceFlow.Responder.checkTransaction, bind_ok_iff, getAt_zero_ok_iff]
  refine exists_congr fun input => and_congr_right fun _ => ?_
  cases input.proposer.equals counterparty <;> simp [throw_eq]

end EnergyMarket.Drafts
