/- Module: EnergyMarket/Authenticity
   digest: Proposals in a node's name, and the responder that signs them unasked. -/

import EnergyMarket.Consent

set_option autoImplicit false
set_option relaxedAutoImplicit false

namespace EnergyMarket.Authenticity
open EnergyMarket.Library.Runs EnergyMarket.Library.Utxo EnergyMarket.States
open EnergyMarket.Transactions EnergyMarket.Contract EnergyMarket.Ledger EnergyMarket.Flows
open EnergyMarket.Drafts EnergyMarket.Consent

/-- Every ProposalState that names us as its proposer was started by our operator, as
ProposalFlow against its proposee with its amount and its unit price. -/
def EveryProposalAuthentic (us : Party) (w : World) : Prop :=
  ∀ r p notary, ports.outputAt w.ledger r = some ⟨.proposal p, notary⟩ →
    p.proposer.equals us = true → ∃ e ∈ w.started,
      e.start = .propose (some true) p.amount p.unitPrice (some p.proposee) ∧
        w.ledger[r.txIndex]?.map SignedTransaction.tx = some e.tx

/-- The check that ProposalFlow's responder leaves out: nobody else proposes for us. -/
def NotProposedByUs (us : Party) (tx : LedgerTransaction) : Prop :=
  ∀ p ∈ tx.outputsOfType ProposalState, p.proposer.equals us = false

/-- What a step has to meet: a transaction that we sign on a session is our own, or makes
no proposal in our name. -/
def Guarded (us : Party) (w : World) : Action → Prop
  | .session door counterparty stx => (door.respond us counterparty stx).isOk = true →
      (∃ e ∈ w.started, e.tx = stx.tx) ∨ NotProposedByUs us stx.tx
  | _ => True

instance (us : Party) (tx : LedgerTransaction) : Decidable (NotProposedByUs us tx) :=
  inferInstanceAs (Decidable (∀ p ∈ _, _ = false))

instance (us : Party) (w : World) : (a : Action) → Decidable (Guarded us w a)
  | .session _ _ stx => inferInstanceAs (Decidable (_ → (∃ e ∈ w.started, e.tx = stx.tx) ∨ _))
  | .start .. | .commit _ | .record _ => inferInstanceAs (Decidable True)

variable {us : Party} {notaryIdentities : List Party} {w : World}

/-- In every run in which a node countersigns no proposal in its own name but those it
has built, its operator has started all of them. -/
theorem proposals_authentic (h : Reachable (world us notaryIdentities) (Guarded us) w) :
    EveryProposalAuthentic us w := by
  intro r p notary created ours
  have v : Vetted us (NotProposedByUs us) w := vetted (fun _ _ _ _ guarded => guarded) h
  obtain ⟨stx, hr, -, proposes⟩ := created_proposal v.onLedger created
  have required : us.owningKey ∈ stx.tx.requiredSigningKeys := by
    rw [← Party.equals_iff.mp ours]
    exact proposes.proposer
  rcases v.signed_origin hr required with ⟨e, he, drafts, same⟩ | checked
  · obtain ⟨hub, newId, built, counterparty, -, drafted, tx⟩ := drafts
    have proposes' : Proposes built.tx p := by
      rw [tx, same]
      exact proposes
    refine ⟨e, he, drafted.proposes proposes', ?_⟩
    rw [hr, same]
    rfl
  · have other := checked p
      (LedgerTransaction.mem_outputsOfType.mpr (mem_of_single proposes.outputs))
    rw [ours] at other
    cases other

private theorem dealt_guarded : Reachable (world alice [notary]) (Guarded alice) dealt :=
  replay_reachable (fun w a => if Guarded alice w a then next alice [notary] w a else none)
    (fun _ _ _ hs => Option.ite_none_right_eq_some.mp hs) dealRun (.initial rfl) (by decide)

theorem proposals_authentic_deal : Reachable (world alice [notary]) (Guarded alice) dealt ∧
    EveryProposalAuthentic alice dealt :=
  ⟨dealt_guarded, proposals_authentic dealt_guarded⟩

def impersonated : World := ⟨[proposed], [], [], [proposed.tx]⟩

private theorem impersonated_reachable : Reachable (world alice [notary]) always impersonated :=
  replay_reachable (next alice [notary]) (fun _ _ _ hs => ⟨trivial, hs⟩)
    [.session .proposal bob (byBob proposed), .commit proposed] (.initial rfl) (by decide)

theorem proposal_without_start : ¬ ∀ us notaryIdentities w,
    Reachable (world us notaryIdentities) always w → EveryProposalAuthentic us w := by
  intro every
  obtain ⟨e, he, -⟩ := every alice [notary] impersonated impersonated_reachable ⟨0, 0⟩ offer
    notary (by decide) (by decide)
  cases he

end EnergyMarket.Authenticity
