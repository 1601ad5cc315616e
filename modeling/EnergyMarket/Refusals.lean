/- Module: EnergyMarket/Refusals
   digest: Why a start fails: the exception that it ends with, read off the deals. -/

import EnergyMarket.Controllers

set_option autoImplicit false
set_option relaxedAutoImplicit false

namespace EnergyMarket.Refusals
open EnergyMarket.Library.Runs EnergyMarket.Library.Utxo EnergyMarket.States
open EnergyMarket.Transactions EnergyMarket.Contract EnergyMarket.Ledger EnergyMarket.Flows
open EnergyMarket.Drafts EnergyMarket.Vault EnergyMarket.Identity EnergyMarket.Negotiation
open EnergyMarket.Network EnergyMarket.Chronicle EnergyMarket.Agreement EnergyMarket.Notaries
open EnergyMarket.Lookups EnergyMarket.Completion EnergyMarket.Market EnergyMarket.Trading
open EnergyMarket.Listings EnergyMarket.Sequential EnergyMarket.Controllers

open Classical in
/-- What is wrong with a start that looks for a deal among those listed at one phase. -/
noncomputable def sought (R : Rules PublicKey) (M : Deals UniqueIdentifier PublicKey Terms)
    (q : PublicKey) (id : UniqueIdentifier) (phase : Phase) (notFound : String)
    (rest : Deal PublicKey Terms → Option Failure) : Option Failure :=
  if (shown M q phase).ncard ≤ R.page then
    match M id with
    | some d => if d.phase = phase ∧ d.concerns q then rest d else some (.illegalArgument notFound)
    | none => some (.illegalArgument notFound)
  else some .vaultQuery

/-- A kill takes the first notary of the network map for that of the deal. -/
def killRefusal (map : NetworkMap) : Option Failure :=
  match map.notaryIdentities.head?, proposalNotary map with
  | none, _ => some .indexOutOfBounds
  | some first, some notary =>
    if notary.equals first then none else some (.notaryMismatch notary first)
  | some _, none => none

/-- What is wrong with a flow, in the order in which it finds it out. -/
noncomputable def flowRefusal (map : NetworkMap) (M : Deals UniqueIdentifier PublicKey Terms)
    (e : Started) : Option Failure :=
  match e.start with
  | .propose none _ _ _ => some .nullPointer
  | .propose (some false) _ _ _ => some (.flow (some "Invalid initiator"))
  | .propose (some true) _ _ none => some .nullPointer
  | .propose (some true) _ _ (some peer) =>
    if proposalNotary map = none then some (.flow (some "Notary not found"))
    else if ¬ reaches map peer = true then some (.unreachable peer)
    else if peer.owningKey = e.node.owningKey then some .localSession
    else none
  | .modify id _ _ =>
    sought (rulesOf map) M e.node.owningKey id .proposed "proposal not found" (fun d =>
      if d.seller = e.node.owningKey then none
      else some (.illegalArgument "you are not the proposee"))
  | .accept id =>
    sought (rulesOf map) M e.node.owningKey id .modified "Proposal not found" (fun d =>
      if d.buyer = e.node.owningKey then none
      else some (.flow (some "Only the proposer can accept a proposal.")))
  | .killProposal id =>
    sought (rulesOf map) M e.node.owningKey id .proposed "Proposal not found" (fun _ =>
      killRefusal map)
  | .killModification id =>
    sought (rulesOf map) M e.node.owningKey id .modified "Proposal not found" (fun _ =>
      killRefusal map)

/-- What is wrong with a start over the connection of a web server: a null among its
arguments, or else whatever its flow ends with. -/
noncomputable def refusal (map : NetworkMap) (M : Deals UniqueIdentifier PublicKey Terms)
    (e : Started) : Option Exception :=
  if e.start.hasNull then some (.illegalFlowLogic e.start)
  else (flowRefusal map M e).map .execution

/-- A result is what is wrong, or nothing is wrong and it is a transaction. -/
def Ends {ε : Type} (refused : Option ε) (result : Except ε SignedTransaction) : Prop :=
  match refused with
  | some thrown => result = .error thrown
  | none => ∃ stx, result = .ok stx

variable {map : NetworkMap} {w : NetworkState} {e : Started} {choice : Nat} {node : Party}
variable {stx : SignedTransaction} {counterparty : Party} {failure : Failure}
variable {newId id : UniqueIdentifier} {result : Outcome SignedTransaction}

theorem returnValue_ok_iff (ready : Ready map w e) (choice : Nat) :
    (∃ stx, returnValue map w e choice = .ok stx) ↔
      ∃ stx counterparty, Completes map w e choice stx counterparty := by
  constructor
  · rintro ⟨signed, returned⟩
    simp only [returnValue, bind_ok_iff] at returned
    obtain ⟨⟨stx, counterparty⟩, built, signed', answer, returned⟩ := returned
    split at returned
    · rename_i finalises
      exact ⟨stx, counterparty, built, signed'.notarised, Flight.answer_tx answer,
        through_committed ready.quiet ready.known ready.fresh built answer finalises⟩
    · cases returned
  · rintro ⟨stx, counterparty, -, signed, -, ran⟩
    rcases through_cases map e choice ready.quiet with
      ⟨stx', counterparty', signed', built, answer, finalises, -⟩ | ⟨started, stopped⟩
    · exact ⟨signed'.notarised, by
        simp [returnValue, built, answer, finalises, bind, Except.bind]⟩
    · have grown := congrArg (fun w => w.ledger.length) (stopped.symm.trans ran)
      simp [after] at grown

private theorem returnValue_unbuilt (failed : e.start.call (w.hub map e.node) choice e.newId =
    .error failure) : returnValue map w e choice = .error failure := by
  simp only [returnValue, failed, bind, Except.bind]

private theorem returnValue_unreached
    (built : e.start.call (w.hub map e.node) choice e.newId = .ok (stx, counterparty))
    (unreached : ¬ reaches map counterparty = true) :
    returnValue map w e choice = .error (.unreachable counterparty) := by
  have unreached' : ¬ map.nodes.any counterparty.equals = true := unreached
  simp only [returnValue, built, bind, Except.bind, Flight.answer, if_neg unreached']

private theorem returnValue_unchecked (ready : Ready map w e)
    (built : e.start.call (w.hub map e.node) choice e.newId = .ok (stx, counterparty))
    (reached : reaches map counterparty = true)
    (unchecked : e.start.flow.checkTransaction e.node stx.tx = .error failure) :
    returnValue map w e choice = .error failure := by
  have drafted := call_drafts built
  have reached' : map.nodes.any counterparty.equals = true := reached
  have ours : stx.sigs.contains e.node.owningKey = true := by
    rw [drafted_sigs drafted]
    exact List.contains_iff_mem.mpr (List.mem_singleton.mpr rfl)
  have theirs : stx.tx.requiredSigningKeys.contains counterparty.owningKey = true :=
    List.contains_iff_mem.mpr (drafted_requires drafted)
  have answer : Flight.answer map ⟨e, counterparty, stx, false⟩ = .error failure := by
    simp only [Flight.answer, if_pos reached', Flow.respond, signTransactionFlow, ours, theirs,
      drafted_verifies ready.ours drafted, unchecked, Bool.and_self, if_true, bind, Except.bind]
  simp only [returnValue, built, bind, Except.bind, answer]

private theorem returnValue_alone (ready : Ready map w e)
    (built : e.start.call (w.hub map e.node) choice e.newId = .ok (stx, counterparty))
    (checked : e.start.flow.checkTransaction e.node stx.tx = .ok ())
    (alone : counterparty.owningKey = e.node.owningKey) :
    returnValue map w e choice = .error .localSession := by
  have reached : map.nodes.any counterparty.equals = true :=
    List.any_eq_true.mpr ⟨e.node, ready.known, Party.equals_iff.mpr alone⟩
  have drafted := call_drafts built
  have answer : Flight.answer map ⟨e, counterparty, stx, false⟩ =
      .ok { stx with sigs := stx.sigs ++ [counterparty.owningKey] } := by
    simp only [Flight.answer, reached, if_true]
    refine respond_ok_iff.mpr ⟨?_, drafted_requires drafted, drafted_verifies ready.ours drafted,
      checked, rfl⟩
    rw [drafted_sigs drafted]
    exact List.mem_singleton.mpr rfl
  have unfinal : ¬ Flight.Finalises ⟨e, counterparty,
      { stx with sigs := stx.sigs ++ [counterparty.owningKey] }, true⟩ w.ledger :=
    fun finalises => finalises.1 alone
  simp only [returnValue, built, bind, Except.bind, answer, if_neg unfinal, Flight.failure,
    if_pos alone]

theorem lookup_missing {α : Type} [DealClass α] {hub : ServiceHub} {notFound : String}
    (page : WithinPage α hub)
    (missing : ∀ i ∈ ofClass α hub.vault, DealClass.linearId i.state.data ≠ id) :
    lookup α notFound hub id choice = .error (.illegalArgument notFound) := by
  have none : candidates α hub.vault id = [] := by
    refine List.eq_nil_iff_forall_not_mem.mpr fun i hi => ?_
    obtain ⟨held, keyed⟩ := mem_candidates.mp hi
    rw [DealClass.keyed] at keyed
    exact missing i (mem_ofClass.mpr held) (Option.some.inj keyed)
  rw [lookup_within page, none, findAny_none_iff.mpr rfl]

private theorem sought_ends (α : Type) [DealClass α] {notFound : String}
    {rest : Deal PublicKey Terms → Option Failure} (ready : Ready map w e) (choice : Nat)
    (one : (candidates α (w.hub map e.node).vault id).length ≤ 1)
    (failed : ∀ failure, lookup α notFound (w.hub map e.node) id choice = .error failure →
      result = .error failure)
    (found : ∀ (i : StateAndRef α) (d : Deal PublicKey Terms) (es : List Started),
      lookup α notFound (w.hub map e.node) id choice = .ok i →
      dealOf (StateClass.up i.state.data) = some d → Story map es i.up.state →
      Ends (rest d) result) :
    Ends (sought (rulesOf map) (dealsOf w.ledger) e.node.owningKey id (DealClass.atPhase α)
      notFound rest) result := by
  have delivered := ready.quiet.deliveries
  have within := withinPage_iff (α := α) (q := e.node) ready.reachable delivered
  unfold sought
  by_cases page : (shown (dealsOf w.ledger) e.node.owningKey (DealClass.atPhase α)).ncard ≤
      (rulesOf map).page
  · rw [if_pos page]
    have missed : (∀ d, dealsOf w.ledger id = some d →
        ¬ (d.phase = DealClass.atPhase α ∧ d.concerns e.node.owningKey)) →
        Ends (some (.illegalArgument notFound)) result := by
      intro none
      refine failed _ (lookup_missing (within.mpr page) fun i held keyed => ?_)
      obtain ⟨d, here, -, phased, concerns⟩ := listed_deal ready.reachable delivered held
      exact none d (keyed ▸ here) ⟨phased, concerns⟩
    cases here : dealsOf w.ledger id with
    | none => exact missed (by simp [here])
    | some d =>
      by_cases open_to : d.phase = DealClass.atPhase α ∧ d.concerns e.node.owningKey
      · simp only [if_pos open_to]
        obtain ⟨i, looked, deal, es, story⟩ :=
          found_of_deal ready page one here open_to.1 open_to.2
        exact found i d es looked deal story
      · simp only [if_neg open_to]
        refine missed fun d' here' => ?_
        rwa [← Option.some.inj (here.symm.trans here')]
  · rw [if_neg page]
    exact failed _ (lookup_beyond (within.not.mpr page))

private theorem completes_ends {refused : Option Failure} (ready : Ready map w e)
    (none : refused = none) (completes : ∃ stx counterparty,
      Completes map w e choice stx counterparty) : Ends refused (returnValue map w e choice) := by
  subst none
  exact (returnValue_ok_iff ready choice).mpr completes

theorem proposal_ends {isBuyer : Option Bool} {amount unitPrice : Double} {peer : Option Party}
    (ready : Ready map w ⟨node, .propose isBuyer amount unitPrice peer, newId⟩) :
    Ends (flowRefusal map (dealsOf w.ledger) ⟨node, .propose isBuyer amount unitPrice peer, newId⟩)
      (returnValue map w ⟨node, .propose isBuyer amount unitPrice peer, newId⟩ choice) := by
  match isBuyer, peer with
  | none, _ | some false, _ | some true, none => exact returnValue_unbuilt rfl
  | some true, some peer =>
    cases known : proposalNotary map with
    | none =>
      have unknown : (w.hub map node).getNotary ProposalFlow.notaryName = none := known
      simp only [flowRefusal, known, if_true]
      refine returnValue_unbuilt ?_
      simp only [FlowStart.call, ProposalFlow.Initiator.call, deref, bind, Except.bind, if_true,
        unknown, throw_eq]
    | some notary =>
      have named : (w.hub map node).getNotary ProposalFlow.notaryName = some notary := known
      simp only [flowRefusal, known, reduceCtorEq, if_false]
      by_cases reached : reaches map peer = true
      · rw [if_neg (not_not_intro reached)]
        by_cases alone : peer.owningKey = node.owningKey
        · rw [if_pos alone]
          exact returnValue_alone ready (proposal_call named) rfl alone
        · rw [if_neg alone]
          exact completes_ends ready rfl
            ⟨_, _, (completes_iff ready (proposal_call named)).mpr ⟨reached, alone, rfl⟩⟩
      · rw [if_pos reached]
        exact returnValue_unreached (proposal_call named) reached

theorem modification_ends {newAmount newUnitPrice : Double}
    (ready : Ready map w ⟨node, .modify id newAmount newUnitPrice, newId⟩) :
    Ends (flowRefusal map (dealsOf w.ledger) ⟨node, .modify id newAmount newUnitPrice, newId⟩)
      (returnValue map w ⟨node, .modify id newAmount newUnitPrice, newId⟩ choice) := by
  refine sought_ends ProposalState ready choice (proposals_single ready.reachable)
    (fun failure failed => ?_) (fun i d es found deal story => ?_)
  · refine returnValue_unbuilt ?_
    simp only [FlowStart.call, ModificationFlow.Initiator.call, failed, bind, Except.bind]
  · obtain rfl := Option.some.inj deal
    have seller := (proposal_parties story).2
    by_cases ours : node.owningKey = i.state.data.proposee.owningKey
    · exact completes_ends ready (if_pos (seller.trans ours.symm))
        ((modification_completes_iff ready found).mpr (Party.equals_iff.mpr ours.symm))
    · rw [if_neg (fun same => ours (same.symm.trans seller))]
      exact returnValue_unbuilt ((modification_call found).trans (if_neg ours))

private theorem acceptanceCheck_error {tx : LedgerTransaction} {m : ModifyState}
    (input : (tx.inputsOfType ModifyState).head? = some m)
    (other : m.proposer.equals counterparty = false) :
    AcceptanceFlow.Responder.checkTransaction counterparty tx =
      .error (.flow (some "Only the proposer can accept a proposal.")) := by
  have first : getAt (tx.inputsOfType ModifyState) 0 = .ok m := getAt_zero_ok_iff.mpr input
  simp only [AcceptanceFlow.Responder.checkTransaction, first, bind, Except.bind, other,
    Bool.not_false, if_true, throw_eq]

theorem acceptance_ends (ready : Ready map w ⟨node, .accept id, newId⟩) :
    Ends (flowRefusal map (dealsOf w.ledger) ⟨node, .accept id, newId⟩)
      (returnValue map w ⟨node, .accept id, newId⟩ choice) := by
  refine sought_ends ModifyState ready choice (modifications_single ready.reachable)
    (fun failure failed => ?_) (fun i d es found deal story => ?_)
  · refine returnValue_unbuilt ?_
    simp only [FlowStart.call, AcceptanceFlow.Initiator.call, failed, bind, Except.bind]
  · obtain rfl := Option.some.inj deal
    have buyer := (modify_parties story).1
    have built := acceptance_call found
    by_cases ours : i.state.data.proposer.owningKey = node.owningKey
    · exact completes_ends ready (if_pos (buyer.trans ours))
        ((acceptance_completes_iff ready found).mpr (Party.equals_iff.mpr ours))
    · rw [if_neg (fun same => ours (buyer.symm.trans same))]
      obtain ⟨held, -⟩ := lookup_ok found
      obtain ⟨reached, -⟩ := (counterparts_of_held ready held rfl).swap.other
      refine returnValue_unchecked ready built reached ?_
      refine acceptanceCheck_error (by rw [draft_inputsOfType]; rfl) ?_
      exact Bool.not_eq_true _ ▸ (mt Party.equals_iff.mp ours)

private theorem kill_ends {α : Type} [DealClass α] {copy : α → KillState} {i : StateAndRef α}
    {es : List Started} (ready : Ready map w e)
    (found : lookup α "Proposal not found" (w.hub map e.node) id choice = .ok i)
    (story : Story map es i.up.state)
    (call : e.start.call (w.hub map e.node) choice e.newId =
      killInitiator α copy (w.hub map e.node) id choice)
    (roles : (StateClass.up i.state.data).negotiators =
      [(copy i.state.data).proposer, (copy i.state.data).proposee])
    (unchecked : ∀ tx, e.start.flow.checkTransaction e.node tx = .ok ()) :
    Ends (killRefusal map) (returnValue map w e choice) := by
  have isOpen : (StateClass.up i.state.data).isOpen = true :=
    ContractState.negotiators_isOpen (q := (copy i.state.data).proposer) (by simp [roles])
  have named : proposalNotary map = some i.state.notary := open_notary story isOpen
  have built := call.trans (killInitiator_call found)
  cases head : map.notaryIdentities.head? with
  | none =>
    have none : (w.hub map e.node).notaryIdentities.head? = none := head
    simp only [killRefusal, head]
    simp only [none] at built
    exact returnValue_unbuilt built
  | some first =>
    have first' : (w.hub map e.node).notaryIdentities.head? = some first := head
    simp only [killRefusal, head, named]
    by_cases same : i.state.notary.equals first = true
    · rw [if_pos same]
      have proposes : FirstProposes map := ⟨first, head, i.state.notary, named, same⟩
      exact completes_ends ready rfl (kill_completes ready proposes found call roles unchecked)
    · simp only [first', if_neg same] at built
      rw [if_neg same]
      exact returnValue_unbuilt built

private theorem sought_kill_ends (α : Type) [DealClass α] {copy : α → KillState}
    (ready : Ready map w e) (one : (candidates α (w.hub map e.node).vault id).length ≤ 1)
    (call : e.start.call (w.hub map e.node) choice e.newId =
      killInitiator α copy (w.hub map e.node) id choice)
    (roles : ∀ s : α, (StateClass.up s).negotiators = [(copy s).proposer, (copy s).proposee])
    (unchecked : ∀ tx, e.start.flow.checkTransaction e.node tx = .ok ()) :
    Ends (sought (rulesOf map) (dealsOf w.ledger) e.node.owningKey id (DealClass.atPhase α)
      "Proposal not found" (fun _ => killRefusal map)) (returnValue map w e choice) := by
  refine sought_ends α ready choice one (fun failure failed => ?_)
    (fun i d es found deal story => ?_)
  · refine returnValue_unbuilt (call.trans ?_)
    simp only [killInitiator, failed, bind, Except.bind]
  · exact kill_ends ready found story call (roles i.state.data) unchecked

theorem killProposal_ends (ready : Ready map w ⟨node, .killProposal id, newId⟩) :
    Ends (flowRefusal map (dealsOf w.ledger) ⟨node, .killProposal id, newId⟩)
      (returnValue map w ⟨node, .killProposal id, newId⟩ choice) :=
  sought_kill_ends ProposalState ready (proposals_single ready.reachable) rfl (fun _ => rfl)
    (fun _ => rfl)

theorem killModification_ends (ready : Ready map w ⟨node, .killModification id, newId⟩) :
    Ends (flowRefusal map (dealsOf w.ledger) ⟨node, .killModification id, newId⟩)
      (returnValue map w ⟨node, .killModification id, newId⟩ choice) :=
  sought_kill_ends ModifyState ready (modifications_single ready.reachable) rfl (fun _ => rfl)
    (fun _ => rfl)

private theorem refused_ends (ready : Ready map w e) (choice : Nat) :
    Ends (flowRefusal map (dealsOf w.ledger) e) (returnValue map w e choice) := by
  obtain ⟨node, start, newId⟩ := e
  cases start with
  | propose isBuyer amount unitPrice peer => exact proposal_ends ready
  | modify id newAmount newUnitPrice => exact modification_ends ready
  | accept id => exact acceptance_ends ready
  | killProposal id => exact killProposal_ends ready
  | killModification id => exact killModification_ends ready

/-- With nothing else under way, every start that fails says what is wrong with it. -/
theorem start_ends (proxy : Proxy) {start : FlowStart}
    (ready : Ready proxy.map w ⟨proxy.node, start, proxy.newId⟩) :
    Ends (refusal proxy.map (dealsOf w.ledger) ⟨proxy.node, start, proxy.newId⟩)
      ((proxy.startTrackedFlowDynamic start).run.run w).1 := by
  cases null : start.hasNull with
  | true =>
    rw [start_null null, refusal, if_pos null]
    exact rfl
  | false =>
    rw [start_flow null, refusal, if_neg (by simp [null])]
    have ends := refused_ends ready proxy.choice
    cases refused : flowRefusal proxy.map (dealsOf w.ledger) ⟨proxy.node, start, proxy.newId⟩ with
    | some failure =>
      rw [refused] at ends
      exact congrArg (Except.mapError Exception.execution) ends
    | none =>
      rw [refused] at ends
      obtain ⟨stx, returned⟩ := ends
      exact ⟨stx, by rw [returned]; rfl⟩

end EnergyMarket.Refusals
