/- Module: EnergyMarket/Sequential
   digest: A flow that runs with nothing else under way does what the market does. -/

import EnergyMarket.Listings

set_option autoImplicit false
set_option relaxedAutoImplicit false

namespace EnergyMarket.Sequential
open EnergyMarket.Library.Runs EnergyMarket.Library.Utxo EnergyMarket.States
open EnergyMarket.Transactions EnergyMarket.Contract EnergyMarket.Ledger EnergyMarket.Flows
open EnergyMarket.Drafts EnergyMarket.Vault EnergyMarket.Identity EnergyMarket.Negotiation
open EnergyMarket.Network EnergyMarket.Chronicle EnergyMarket.Agreement EnergyMarket.Notaries
open EnergyMarket.Lookups EnergyMarket.Completion EnergyMarket.Contention EnergyMarket.Market
open EnergyMarket.Trading EnergyMarket.Listings

/-- What the market makes of a start, where it is a request at all. -/
noncomputable def served (R : Rules PublicKey) (M : Deals UniqueIdentifier PublicKey Terms)
    (e : Started) : Bool × Deals UniqueIdentifier PublicKey Terms :=
  match requestOf e with
  | some q => serve R M q
  | none => (false, M)

variable {map : NetworkMap} {w : NetworkState} {e : Started} {choice : Nat}
variable {stx : SignedTransaction} {counterparty node : Party} {id newId : UniqueIdentifier}
variable {notFound : String} {d : Deal PublicKey Terms}
variable {q : Request UniqueIdentifier PublicKey Terms}

private theorem page_of_lookup {α : Type} [DealClass α] (ready : Ready map w e) {i : StateAndRef α}
    (found : lookup α notFound (w.hub map e.node) id choice = .ok i) :
    (shown (dealsOf w.ledger) e.node.owningKey (DealClass.atPhase α)).ncard ≤
      (rulesOf map).page := by
  refine (withinPage_iff ready.reachable ready.quiet.deliveries).mp ?_
  by_contra beyond
  rw [lookup_beyond beyond] at found
  cases found

private theorem inPage_of_call (ready : Ready map w e) (asked : requestOf e = some q)
    (built : e.start.call (w.hub map e.node) choice e.newId = .ok (stx, counterparty)) :
    InPage (rulesOf map) (dealsOf w.ledger) q := by
  obtain ⟨node, start, newId⟩ := e
  cases start with
  | propose isBuyer amount unitPrice peer =>
    cases call_drafts built with
    | propose =>
      obtain rfl := Option.some.inj asked
      trivial
  | modify proposalId newAmount newUnitPrice =>
    obtain rfl := Option.some.inj asked
    simp only [FlowStart.call, ModificationFlow.Initiator.call, bind_ok_iff] at built
    obtain ⟨i, found, -⟩ := built
    exact page_of_lookup (α := ProposalState) ready found
  | accept proposalId =>
    obtain rfl := Option.some.inj asked
    simp only [FlowStart.call, AcceptanceFlow.Initiator.call, bind_ok_iff] at built
    obtain ⟨i, found, -⟩ := built
    exact page_of_lookup (α := ModifyState) ready found
  | killProposal proposalId =>
    obtain rfl := Option.some.inj asked
    simp only [FlowStart.call, KillProposalFlow.Initiator.call, killInitiator, bind_ok_iff] at built
    obtain ⟨i, found, -⟩ := built
    exact page_of_lookup (α := ProposalState) ready found
  | killModification proposalId =>
    obtain rfl := Option.some.inj asked
    simp only [FlowStart.call, KillModificationFlow.Initiator.call, killInitiator,
      bind_ok_iff] at built
    obtain ⟨i, found, -⟩ := built
    exact page_of_lookup (α := ModifyState) ready found

private theorem ready_admissible (ready : Ready map w e)
    (drafted : Drafted (w.hub map e.node) e.newId e.start stx counterparty)
    (reached : reaches map counterparty = true) (apart : counterparty.owningKey ≠ e.node.owningKey)
    (checked : e.start.flow.checkTransaction e.node stx.tx = .ok ()) :
    Admissible map w.ledger e stx.tx counterparty := by
  have orderly := sound ready.reachable
  have unopened : ∀ a ∈ ports.created w.ledger, key a.2 ≠ some e.newId := by
    intro a ha same
    obtain ⟨e', he', drawn⟩ := orderly.drawn a ha e.newId same
    exact ready.fresh e' he' drawn
  have held : ∀ i ∈ stx.tx.inputs, i ∈ (w.hub map e.node).vault :=
    fun i hi => drafted_held drafted hi
  refine ⟨ids_of_rule orderly.orderly, dealsOf_none unopened, fun i hi => ?_, fun i hi => ?_,
    reached, apart, checked⟩
  · obtain ⟨unspent, ours⟩ := ready.held.mp (held i hi)
    obtain ⟨es, story, -⟩ := (chronicled ready.reachable).created _ _ unspent.1
    exact ⟨ours, es, story⟩
  · exact (ready.held.mp (held i hi)).1

theorem completes_granted (ready : Ready map w e)
    (completes : Completes map w e choice stx counterparty) :
    ∃ q, requestOf e = some q ∧
      (Permitted (rulesOf map) (dealsOf w.ledger) q ∧
        InPage (rulesOf map) (dealsOf w.ledger) q) ∧
      dealsOf (through map w e choice).ledger = effect (dealsOf w.ledger) q := by
  have built := completes.1
  have drafted := call_drafts built
  obtain ⟨reached, apart, checked⟩ := (completes_iff ready built).mp completes
  have admissible := ready_admissible ready drafted reached apart checked
  obtain ⟨-, signed, tx, ran⟩ := completes
  obtain ⟨q, asked, permitted, effected⟩ := drafted_granted drafted rfl rfl admissible tx
  exact ⟨q, asked, ⟨permitted, inPage_of_call ready asked built⟩, by rw [ran]; exact effected⟩

theorem found_of_deal {α : Type} [DealClass α] (ready : Ready map w e)
    (page : (shown (dealsOf w.ledger) e.node.owningKey (DealClass.atPhase α)).ncard ≤
      (rulesOf map).page)
    (one : (candidates α (w.hub map e.node).vault id).length ≤ 1)
    (here : dealsOf w.ledger id = some d) (phased : d.phase = DealClass.atPhase α)
    (concerns : d.concerns e.node.owningKey) : ∃ i : StateAndRef α,
      lookup α notFound (w.hub map e.node) id choice = .ok i ∧
        dealOf (StateClass.up i.state.data) = some d ∧ ∃ es, Story map es i.up.state := by
  have delivered := ready.quiet.deliveries
  obtain ⟨i, held, rfl, deal⟩ := deal_listed ready.reachable delivered here phased concerns
  have mem : i.up ∈ (w.hub map e.node).vault := mem_ofClass.mp held
  have within := (withinPage_iff ready.reachable delivered).mpr page
  obtain ⟨es, story, -⟩ := (chronicled ready.reachable).created _ _ (ready.held.mp mem).1.1
  exact ⟨i, lookup_held within one mem (DealClass.keyed _), deal, es, story⟩

theorem granted_completes (ready : Ready map w e) (asked : requestOf e = some q)
    (permitted : Permitted (rulesOf map) (dealsOf w.ledger) q)
    (inPage : InPage (rulesOf map) (dealsOf w.ledger) q) :
    ∃ stx counterparty, Completes map w e choice stx counterparty := by
  obtain ⟨node, start, newId⟩ := e
  cases start with
  | propose isBuyer amount unitPrice peer =>
    obtain ⟨operation, ask, -⟩ := Option.map_eq_some_iff.mp asked
    obtain ⟨rfl, counterparty, rfl⟩ : isBuyer = some true ∧ ∃ q, peer = some q := by
      unfold operationOf at ask
      split at ask <;> simp_all
    obtain rfl := Option.some.inj asked
    obtain ⟨-, opens, member, apart⟩ := permitted
    obtain ⟨notary, named⟩ := Option.isSome_iff_exists.mp opens
    have known : (w.hub map node).getNotary ProposalFlow.notaryName = some notary := named
    exact ⟨_, _, (completes_iff ready (proposal_call known)).mpr
      ⟨member_iff.mp member, apart, rfl⟩⟩
  | modify proposalId newAmount newUnitPrice =>
    obtain rfl := Option.some.inj asked
    obtain ⟨-, d, here, phased, seller⟩ := permitted
    obtain ⟨i, found, deal, es, story⟩ := found_of_deal (α := ProposalState) ready inPage
      (proposals_single ready.reachable) here phased (Or.inr seller)
    obtain rfl := Option.some.inj deal
    have role := (proposal_parties story).2.symm.trans seller
    exact (modification_completes_iff ready found).mpr (Party.equals_iff.mpr role)
  | accept proposalId =>
    obtain rfl := Option.some.inj asked
    obtain ⟨-, d, here, phased, buyer⟩ := permitted
    obtain ⟨i, found, deal, es, story⟩ := found_of_deal (α := ModifyState) ready inPage
      (modifications_single ready.reachable) here phased (Or.inl buyer)
    obtain rfl := Option.some.inj deal
    have role := (modify_parties story).1.symm.trans buyer
    exact (acceptance_completes_iff ready found).mpr (Party.equals_iff.mpr role)
  | killProposal proposalId =>
    obtain rfl := Option.some.inj asked
    obtain ⟨first, d, here, phased, concerns⟩ := permitted
    obtain ⟨i, found, -⟩ := found_of_deal (α := ProposalState) ready inPage
      (proposals_single ready.reachable) here phased concerns
    exact kill_completes ready (first rfl) found rfl rfl (fun _ => rfl)
  | killModification proposalId =>
    obtain rfl := Option.some.inj asked
    obtain ⟨first, d, here, phased, concerns⟩ := permitted
    obtain ⟨i, found, -⟩ := found_of_deal (α := ModifyState) ready inPage
      (modifications_single ready.reachable) here phased concerns
    exact kill_completes ready (first rfl) found rfl rfl (fun _ => rfl)

/-- With nothing else under way, a start runs through exactly where the market grants it,
and leaves the deals that the market does. -/
theorem through_serves (ready : Ready map w e) (choice : Nat) :
    ((∃ stx counterparty, Completes map w e choice stx counterparty) ↔
      (served (rulesOf map) (dealsOf w.ledger) e).1 = true) ∧
    dealsOf (through map w e choice).ledger =
      (served (rulesOf map) (dealsOf w.ledger) e).2 := by
  by_cases completes : ∃ stx counterparty, Completes map w e choice stx counterparty
  · obtain ⟨stx, counterparty, completes⟩ := completes
    obtain ⟨q, asked, granted, effected⟩ := completes_granted ready completes
    have answer : served (rulesOf map) (dealsOf w.ledger) e =
        (true, effect (dealsOf w.ledger) q) := by
      simp only [served, asked]
      exact serve_granted granted
    rw [answer]
    exact ⟨iff_of_true ⟨stx, counterparty, completes⟩ rfl, effected⟩
  · have answer : served (rulesOf map) (dealsOf w.ledger) e = (false, dealsOf w.ledger) := by
      unfold served
      split
      · rename_i q asked
        refine serve_refused fun granted => completes ?_
        exact granted_completes ready asked granted.1 granted.2
      · rfl
    rw [answer]
    refine ⟨iff_of_false completes (by simp), ?_⟩
    rw [(unchanged_of_failure ready completes).ledger]

end EnergyMarket.Sequential
