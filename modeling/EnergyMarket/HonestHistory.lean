/- Module: EnergyMarket/HonestHistory
   digest: Parties, terms and starts along the history of a linear id in honest runs. -/

import EnergyMarket.Chronicle
import EnergyMarket.KillRecord

set_option autoImplicit false
set_option relaxedAutoImplicit false

namespace EnergyMarket.HonestHistory
open EnergyMarket.Library.Runs EnergyMarket.Library.Utxo EnergyMarket.Library.LinearHistory
open EnergyMarket.States EnergyMarket.Transactions EnergyMarket.Ledger EnergyMarket.Flows
open EnergyMarket.Drafts EnergyMarket.Identity EnergyMarket.Negotiation EnergyMarket.Network
open EnergyMarket.Chronicle EnergyMarket.KillRecord

/-- What was started for a trade, in this order: a proposal of its buyer to its seller, the
seller's modification to its terms, the buyer's acceptance, all of one linear id. -/
def TradeStarted (w : NetworkState) (id : UniqueIdentifier) (t : TradeState) : Prop :=
  ∃ proposal modification acceptance : Started,
    [proposal, modification, acceptance].Sublist w.started ∧
    (proposal.node.equals t.buyer = true ∧ proposal.newId = id ∧
      ∃ amount unitPrice peer, peer.equals t.seller = true ∧
        proposal.start = .propose (some true) amount unitPrice (some peer)) ∧
    (modification.node.equals t.seller = true ∧
      modification.start = .modify id t.amount t.unitPrice) ∧
    acceptance.node.equals t.buyer = true ∧ acceptance.start = .accept id

/-- The integrity of the history of a linear id. -/
structure Integral (w : NetworkState) (id : UniqueIdentifier) : Prop where
  parties : history ports key w.ledger id ≠ [] →
    ∃ buyer seller, ∀ a ∈ history ports key w.ledger id, Between buyer seller a.2.data
  killed : ∀ b ∈ history ports key w.ledger id, ∀ κ, b.2.data = .kill κ →
    ∃ a ∈ history ports key w.ledger id,
      (∀ a', Replaces ports w.ledger a' b ↔ a' = a) ∧ record a.2.data = record (.kill κ)
  traded : ∀ a ∈ history ports key w.ledger id, ∀ t, a.2.data = .trade t → TradeStarted w id t

variable {map : NetworkMap} {w : NetworkState} {id : UniqueIdentifier} {es : List Started}
variable {t : TradeState} {notary : Party}

/-- All states of a linear id share the start that opened it, since it has drawn the id. -/
theorem opened_once (h : Chronicled map w) {a : StateRef × TransactionState ContractState}
    (ha : a ∈ history ports key w.ledger id) : ∃ e ∈ w.started, ∃ peer,
      ∀ b ∈ history ports key w.ledger id, Opening map e peer b.2.data := by
  have opening : ∀ b ∈ history ports key w.ledger id, ∃ e ∈ w.started, ∃ peer,
      Opening map e peer b.2.data ∧ e.newId = id := by
    rintro ⟨r, s⟩ hb
    obtain ⟨created, keyed⟩ := mem_history.mp hb
    obtain ⟨es, story, before⟩ := h.created r s created
    obtain ⟨e, rest, peer, rfl, opening⟩ := story.opening
    exact ⟨e, before.subset (List.mem_cons_self ..), peer, opening,
      Option.some.inj (opening.id.symm.trans keyed)⟩
  obtain ⟨e, he, peer, opens, drawn⟩ := opening a ha
  refine ⟨e, he, peer, fun b hb => ?_⟩
  obtain ⟨e', he', peer', opens', drawn'⟩ := opening b hb
  obtain rfl : e = e' := List.inj_on_of_nodup_map h.ids he he' (drawn.trans drawn'.symm)
  obtain ⟨amount, unitPrice, start⟩ := opens.start
  obtain ⟨amount', unitPrice', start'⟩ := opens'.start
  rw [start] at start'
  simp only [FlowStart.propose.injEq, Option.some.injEq] at start'
  rw [start'.2.2.2]
  exact opens'

theorem trade_starts (h : Story map es ⟨.trade t, notary⟩) :
    ∃ e₁ e₂ e₃ amount unitPrice, es = [e₁, e₂, e₃] ∧
      (e₁.node = t.buyer ∧ e₁.newId = t.linearId ∧
        e₁.start = .propose (some true) amount unitPrice (some t.seller)) ∧
      (e₂.node.owningKey = t.seller.owningKey ∧
        e₂.start = .modify t.linearId t.amount t.unitPrice) ∧
      e₃.node.owningKey = t.buyer.owningKey ∧ e₃.start = .accept t.linearId := by
  cases h with
  | traded story accepts accepter =>
    cases story with
    | modified story modifies modifier =>
      cases story with
      | proposed proposes known reached apart named =>
        exact ⟨_, _, _, _, _, rfl, ⟨rfl, rfl, proposes⟩, ⟨modifier, modifies⟩, accepter, accepts⟩

private theorem traded_started (h : Chronicled map w) {r : StateRef}
    (created : ports.outputAt w.ledger r = some ⟨.trade t, notary⟩) :
    TradeStarted w t.linearId t := by
  obtain ⟨es, story, before⟩ := h.created _ _ created
  obtain ⟨e₁, e₂, e₃, amount, unitPrice, rfl, ⟨buyer, drawn, proposes⟩, ⟨seller, modifies⟩,
    accepter, accepts⟩ := trade_starts story
  exact ⟨e₁, e₂, e₃, before, ⟨by simp [buyer], drawn, amount, unitPrice, t.seller, by simp,
    proposes⟩, ⟨Party.equals_iff.mpr seller, modifies⟩, Party.equals_iff.mpr accepter, accepts⟩

/-- Every committed Kill is a draft of a kill flow, which has made the copy. -/
theorem records_kept (h : Reachable (network map) always w) :
    ∀ stx ∈ w.ledger, RecordKept stx.tx := by
  refine h.invariant (I := fun w => ∀ stx ∈ w.ledger, RecordKept stx.tx)
    (fun w initial stx mem => ?_) (fun w a w' hw ih _ hs => ?_)
  · have empty : w = .empty := initial
    rw [empty] at mem
    cases mem
  · cases stepped hs with
    | notarised at_i finalises =>
      obtain ⟨hub, built, -, drafted, tx⟩ :=
        ((sound hw).flights _ (List.mem_of_getElem? at_i)).drafted
      intro stx mem
      rcases List.mem_append.mp mem with old | new
      · exact ih stx old
      · rw [List.mem_singleton.mp new, SignedTransaction.notarised_tx, tx]
        exact drafted_recordKept drafted
    | started | answered | delivered | failed | unstarted => exact ih

private theorem kill_replaces (ids : ports.Ledger idRule w.ledger)
    (kept : ∀ stx ∈ w.ledger, RecordKept stx.tx) {r : StateRef} {κ : KillState}
    (created : ports.outputAt w.ledger r = some ⟨.kill κ, notary⟩) :
    ∃ a ∈ history ports key w.ledger κ.linearId,
      (∀ a', Replaces ports w.ledger a' (r, ⟨.kill κ, notary⟩) ↔ a' = a) ∧
        record a.2.data = record (.kill κ) := by
  obtain ⟨stx, r', s, hk, inputs, kills, -, resolved⟩ :=
    kill_origin (onLedger_of_ids ids) created
  obtain ⟨notary', outputs⟩ := outputs_single kills.outputs
  have keyed : key s = some κ.linearId :=
    (output_key ids hk (mem_of_single inputs) (mem_of_single outputs)).symm
  refine ⟨(r', s), mem_history.mpr ⟨resolved, keyed⟩, fun a' => ?_,
    (recordKept_kill kills).mp (kept stx (List.mem_of_getElem? hk))⟩
  constructor
  · rintro ⟨stx', hk', input⟩
    obtain rfl : stx = stx' := Option.some.inj (hk.symm.trans hk')
    exact eq_of_single inputs input
  · rintro rfl
    exact ⟨stx, hk, mem_of_single inputs⟩

/-- In every run of honest nodes, each linear id keeps its two parties in their roles, a
KillState the record of what it ends, and a trade goes back to its buyer's proposal, its
seller's modification and its buyer's acceptance. -/
theorem histories_integral (h : Reachable (network map) always w) (id : UniqueIdentifier) :
    Integral w id := by
  have chronicle := chronicled h
  have ids := ids_of_rule (sound h).orderly
  refine ⟨fun some_state => ?_, ?_, ?_⟩
  · obtain ⟨a, ha⟩ := List.exists_mem_of_ne_nil _ some_state
    obtain ⟨e, -, peer, opening⟩ := opened_once chronicle ha
    exact ⟨e.node, peer, fun b hb => (opening b hb).between⟩
  · rintro ⟨r, ⟨s, notary⟩⟩ hb κ rfl
    obtain ⟨created, keyed⟩ := mem_history.mp hb
    obtain rfl : κ.linearId = id := Option.some.inj keyed
    exact kill_replaces ids (records_kept h) created
  · rintro ⟨r, ⟨s, notary⟩⟩ ha t rfl
    obtain ⟨created, keyed⟩ := mem_history.mp ha
    obtain rfl : t.linearId = id := Option.some.inj keyed
    exact traded_started chronicle created

theorem histories_integral_race :
    Reachable (network twoNodes) always raced ∧ Integral raced 7 :=
  ⟨raced_reachable, histories_integral raced_reachable 7⟩

end EnergyMarket.HonestHistory
