/- Module: EnergyMarket/Chronicle
   digest: The starts that led honest nodes to each state, in order, and who learns of it. -/

import EnergyMarket.Network

set_option autoImplicit false
set_option relaxedAutoImplicit false

namespace EnergyMarket.Chronicle
open EnergyMarket.Library.Runs EnergyMarket.Library.Utxo EnergyMarket.States
open EnergyMarket.Transactions EnergyMarket.Ledger EnergyMarket.Flows EnergyMarket.Drafts
open EnergyMarket.Vault EnergyMarket.Network

def proposalNotary (map : NetworkMap) : Option Party :=
  map.notaryIdentities.find? (fun notary => notary.name == ProposalFlow.notaryName)

def reaches (map : NetworkMap) (q : Party) : Bool := map.nodes.any q.equals

def Trader (map : NetworkMap) (key : PublicKey) : Prop :=
  ∀ notary ∈ map.notaryIdentities, notary.owningKey ≠ key

instance (map : NetworkMap) (key : PublicKey) : Decidable (Trader map key) :=
  inferInstanceAs (Decidable (∀ notary ∈ map.notaryIdentities, _))

/-- A start by a trader, and against one where it names a party. -/
def Trades (map : NetworkMap) (e : Started) : Prop :=
  Trader map e.node.owningKey ∧ ∀ peer ∈ e.start.peer, Trader map peer.owningKey

instance (map : NetworkMap) (e : Started) : Decidable (Trades map e) :=
  inferInstanceAs (Decidable (_ ∧ ∀ peer ∈ e.start.peer, _))

/-- The nodes of the notaries take no part in the flows. -/
def Aside (map : NetworkMap) (_ : NetworkState) (a : Action) : Prop :=
  ∀ e choice, a = .start e choice → Trades map e

/-- How honest nodes come to a state: the starts that led to it, in order. -/
inductive Story (map : NetworkMap) : List Started → TransactionState ContractState → Prop
  | proposed {e : Started} {amount unitPrice : Double} {peer notary : Party}
      (start : e.start = .propose (some true) amount unitPrice (some peer))
      (known : e.node ∈ map.nodes) (reached : reaches map peer = true)
      (apart : peer.owningKey ≠ e.node.owningKey) (named : proposalNotary map = some notary) :
      Story map [e]
        ⟨.proposal ⟨amount, unitPrice, e.node, peer, e.node, peer, e.newId⟩, notary⟩
  | modified {es : List Started} {e : Started} {p : ProposalState}
      {newAmount newUnitPrice : Double} {notary : Party}
      (story : Story map es ⟨.proposal p, notary⟩)
      (start : e.start = .modify p.linearId newAmount newUnitPrice)
      (role : e.node.owningKey = p.proposee.owningKey) :
      Story map (es ++ [e])
        ⟨.modify ⟨newAmount, newUnitPrice, p.buyer, p.seller, p.proposer, e.node, p.linearId⟩,
          notary⟩
  | traded {es : List Started} {e : Started} {m : ModifyState} {notary : Party}
      (story : Story map es ⟨.modify m, notary⟩) (start : e.start = .accept m.linearId)
      (role : e.node.owningKey = m.proposer.owningKey) :
      Story map (es ++ [e])
        ⟨.trade ⟨m.amount, m.unitPrice, m.buyer, m.seller, m.linearId⟩, notary⟩
  | killedProposal {es : List Started} {e : Started} {p : ProposalState} {notary first : Party}
      (story : Story map es ⟨.proposal p, notary⟩) (start : e.start = .killProposal p.linearId)
      (head : map.notaryIdentities.head? = some first) :
      Story map (es ++ [e]) ⟨.kill (KillProposalFlow.kill p), first⟩
  | killedModification {es : List Started} {e : Started} {m : ModifyState}
      {notary first : Party} (story : Story map es ⟨.modify m, notary⟩)
      (start : e.start = .killModification m.linearId)
      (head : map.notaryIdentities.head? = some first) :
      Story map (es ++ [e]) ⟨.kill (KillModificationFlow.kill m), first⟩

def Between (buyer seller : Party) : ContractState → Prop
  | .proposal s => (s.buyer.equals buyer = true ∧ s.seller.equals seller = true) ∧
      s.proposer.equals buyer = true ∧ s.proposee.equals seller = true
  | .modify s => (s.buyer.equals buyer = true ∧ s.seller.equals seller = true) ∧
      s.proposer.equals buyer = true ∧ s.proposee.equals seller = true
  | .trade s => s.buyer.equals buyer = true ∧ s.seller.equals seller = true
  | .kill s => (s.buyer.equals buyer = true ∧ s.seller.equals seller = true) ∧
      s.proposer.equals buyer = true ∧ s.proposee.equals seller = true
  | .foreign _ => False

/-- The start that opened a negotiation, against a peer, as each of its states shows it. -/
structure Opening (map : NetworkMap) (e : Started) (peer : Party) (s : ContractState) : Prop where
  start : ∃ amount unitPrice, e.start = .propose (some true) amount unitPrice (some peer)
  known : e.node ∈ map.nodes
  reached : reaches map peer = true
  apart : peer.owningKey ≠ e.node.owningKey
  id : s.getLinearId = some e.newId
  between : Between e.node peer s

variable {map : NetworkMap} {es : List Started} {e : Started} {s : TransactionState ContractState}

theorem Story.opening (h : Story map es s) :
    ∃ first rest peer, es = first :: rest ∧ Opening map first peer s.data := by
  induction h with
  | @proposed e amount unitPrice peer notary start known reached apart named =>
    exact ⟨e, [], peer, rfl, ⟨amount, unitPrice, start⟩, known, reached, apart, rfl,
      by simp [Between]⟩
  | @modified es e p newAmount newUnitPrice notary story start role ih =>
    obtain ⟨first, rest, peer, rfl, opening⟩ := ih
    obtain ⟨traders, proposer, proposee⟩ := opening.between
    have ours : e.node.equals peer = true := by
      rw [Party.equals_iff] at proposee ⊢
      exact role.trans proposee
    exact ⟨first, rest ++ [e], peer, rfl, opening.start, opening.known, opening.reached,
      opening.apart, opening.id, traders, proposer, ours⟩
  | @traded es e m notary story start role ih =>
    obtain ⟨first, rest, peer, rfl, opening⟩ := ih
    obtain ⟨traders, -, -⟩ := opening.between
    exact ⟨first, rest ++ [e], peer, rfl, opening.start, opening.known, opening.reached,
      opening.apart, opening.id, traders⟩
  | @killedProposal es e input notary notary' story start head ih
  | @killedModification es e input notary notary' story start head ih =>
    obtain ⟨first, rest, peer, rfl, opening⟩ := ih
    exact ⟨first, rest ++ [e], peer, rfl, opening.start, opening.known, opening.reached,
      opening.apart, opening.id, opening.between⟩

theorem relevant_pair {s : ContractState} {a b q : Party} (h : s.getParticipants = [a, b]) :
    relevant q s = true ↔ a.equals q = true ∨ b.equals q = true := by
  simp [relevant, h, @eq_comm _ q.owningKey]

theorem Between.relevant_iff {buyer seller : Party} {s : ContractState}
    (h : Between buyer seller s) {q : Party} :
    relevant q s = true ↔ buyer.equals q = true ∨ seller.equals q = true := by
  cases s with
  | foreign f => cases h
  | proposal s | modify s | kill s =>
    obtain ⟨-, proposer, proposee⟩ := h
    rw [relevant_pair rfl]
    simp_all
  | trade s =>
    obtain ⟨buyer, seller⟩ := h
    rw [relevant_pair rfl]
    simp_all

/-- A state that a start found in its node's vault, with the starts before it that led
there. -/
def Found (map : NetworkMap) (w : NetworkState) (e : Started) (i : StateAndRef ContractState) :
    Prop :=
  relevant e.node i.state.data = true ∧
    ∃ es, Story map es i.state ∧ (es ++ [e]).Sublist w.started

/-- What holds of a flow in progress: it was drafted from a vault whose states all have
their stories, and its counterparty has signed only what its responder checks. -/
structure HonestFlight (map : NetworkMap) (w : NetworkState) (f : Flight) : Prop where
  drafted : ∃ hub stx, hub.ourIdentity = f.started.node ∧
    hub.notaryIdentities = map.notaryIdentities ∧ (∀ i ∈ hub.vault, Found map w f.started i) ∧
    Drafted hub f.started.newId f.started.start stx f.counterparty ∧ f.stx.tx = stx.tx
  countersigned : f.counterparty.owningKey ∈ f.stx.sigs →
    f.counterparty.owningKey ≠ f.started.node.owningKey →
      reaches map f.counterparty = true ∧
        f.started.start.flow.checkTransaction f.started.node f.stx.tx = .ok ()

/-- A node has recorded a transaction, or is about to. -/
def Informed (w : NetworkState) (q : Party) (k : Nat) : Prop :=
  ∃ d ∈ w.recorded ++ w.deliveries, d.1.equals q = true ∧ d.2 = k

/-- What honest runs keep: every state on the ledger has a story among the starts so far,
and the transaction that created it goes to its participants and to nobody else. -/
structure Chronicled (map : NetworkMap) (w : NetworkState) : Prop where
  nodes : ∀ e ∈ w.started, e.node ∈ map.nodes
  ids : (w.started.map Started.newId).Nodup
  flights : ∀ f ∈ w.flights, HonestFlight map w f
  created : ∀ r s, ports.outputAt w.ledger r = some s →
    ∃ es, Story map es s ∧ es.Sublist w.started
  informed : ∀ r s, ports.outputAt w.ledger r = some s →
    ∀ q, Informed w q r.txIndex ↔ relevant q s.data = true
  within : ∀ d ∈ w.recorded ++ w.deliveries, d.2 < w.ledger.length

variable {w w' : NetworkState} {f : Flight} {hub : ServiceHub} {start : FlowStart}
variable {stx : SignedTransaction} {counterparty : Party}

theorem Chronicled.empty : Chronicled map .empty := by
  constructor <;> simp [NetworkState.empty, Ports.outputAt]

theorem drafted_requires (h : Drafted hub e.newId start stx counterparty) :
    counterparty.owningKey ∈ stx.tx.requiredSigningKeys := by
  cases h with
  | accept =>
    unfold otherThan
    split <;> simp [draft, LedgerTransaction.requiredSigningKeys]
  | propose | modify | killProposal | killModification =>
    simp [draft, LedgerTransaction.requiredSigningKeys]

theorem otherThan_sides {us proposer proposee q : Party}
    (ours : proposer.equals us = true ∨ proposee.equals us = true) :
    (proposer.equals q = true ∨ proposee.equals q = true) ↔
      us.equals q = true ∨ (otherThan us proposee proposer).equals q = true := by
  simp only [Party.equals_iff] at ours ⊢
  by_cases same : us.owningKey = proposee.owningKey
  · simp [otherThan, same, or_comm]
  · have role : proposer.owningKey = us.owningKey :=
      ours.resolve_right (fun other => same other.symm)
    simp [otherThan, same, role]

/-- What a draft that its counterparty has checked settles: one state with a story, whose
participants are the two nodes of the flow. -/
structure Settles (map : NetworkMap) (w : NetworkState) (e : Started) (counterparty : Party)
    (tx : LedgerTransaction) (s : TransactionState ContractState) : Prop where
  output : tx.outputs = [s]
  story : ∃ es, Story map es s ∧ es.Sublist w.started
  sides : ∀ q, relevant q s.data = true ↔
    e.node.equals q = true ∨ counterparty.equals q = true

private theorem draft_settles (h : Drafted hub e.newId start stx counterparty)
    (started : e.start = start)
    (ours : hub.ourIdentity = e.node) (notaries : hub.notaryIdentities = map.notaryIdentities)
    (vault : ∀ i ∈ hub.vault, Found map w e i) (logged : e ∈ w.started)
    (known : e.node ∈ map.nodes) (reached : reaches map counterparty = true)
    (apart : counterparty.owningKey ≠ e.node.owningKey)
    (checked : start.flow.checkTransaction e.node stx.tx = .ok ()) :
    ∃ s, Settles map w e counterparty stx.tx s := by
  obtain ⟨us, states, identities⟩ := hub
  have ours' : us = e.node := ours
  have notaries' : identities = map.notaryIdentities := notaries
  subst ours' notaries'
  cases h with
  | propose named =>
    have story := Story.proposed started known reached apart named
    exact ⟨_, rfl, ⟨[e], story, List.singleton_sublist.mpr logged⟩, fun q => relevant_pair rfl⟩
  | modify held role =>
    obtain ⟨-, es, story, before⟩ := vault _ held
    refine ⟨_, rfl, ⟨es ++ [e], .modified story started role, before⟩, fun q => ?_⟩
    rw [relevant_pair rfl, or_comm]
  | @accept input notary ref held =>
    obtain ⟨-, es, story, before⟩ := vault _ held
    obtain ⟨m, head, role⟩ := acceptanceCheck_ok_iff.mp checked
    obtain rfl : input = m := by
      simpa [draft, LedgerTransaction.inputsOfType, LedgerTransaction.getInputStates,
        StateClass.cast] using head
    have role' : e.node.owningKey = input.proposer.owningKey := (Party.equals_iff.mp role).symm
    obtain ⟨first, rest, peer, -, opening⟩ := story.opening
    obtain ⟨⟨buyer, seller⟩, proposer, proposee⟩ := opening.between
    refine ⟨_, rfl, ⟨es ++ [e], .traded story started role', before⟩, fun q => ?_⟩
    rw [relevant_pair rfl]
    simp_all [otherThan]
  | killProposal held head same =>
    obtain ⟨relevant, es, story, before⟩ := vault _ held
    refine ⟨_, rfl, ⟨es ++ [e], .killedProposal story started head, before⟩, fun q => ?_⟩
    rw [relevant_pair rfl]
    exact otherThan_sides ((relevant_pair rfl).mp relevant)
  | killModification held head same =>
    obtain ⟨relevant, es, story, before⟩ := vault _ held
    refine ⟨_, rfl, ⟨es ++ [e], .killedModification story started head, before⟩, fun q => ?_⟩
    rw [relevant_pair rfl]
    exact otherThan_sides ((relevant_pair rfl).mp relevant)

theorem HonestFlight.settles (h : HonestFlight map w f) (known : f.started ∈ w.started)
    (nodes : ∀ e ∈ w.started, e.node ∈ map.nodes) {L : List SignedTransaction}
    (finalises : f.Finalises L) : ∃ s, Settles map w f.started f.counterparty f.stx.tx s := by
  obtain ⟨hub, stx, ours, notaries, vault, drafted, tx⟩ := h.drafted
  obtain ⟨apart, commits⟩ := finalises
  have required := drafted_requires drafted
  rw [← tx] at required
  have signed := commits.committable.signed _ required
  obtain ⟨reached, checked⟩ := h.countersigned signed apart
  rw [tx] at checked ⊢
  exact draft_settles drafted rfl ours notaries vault known (nodes _ known) reached apart checked

theorem HonestFlight.carry (h : HonestFlight map w f) (grown : w.started.Sublist w'.started) :
    HonestFlight map w' f := by
  obtain ⟨hub, stx, ours, notaries, vault, drafted, tx⟩ := h.drafted
  refine ⟨⟨hub, stx, ours, notaries, fun i hi => ?_, drafted, tx⟩, h.countersigned⟩
  obtain ⟨relevant, es, story, before⟩ := vault i hi
  exact ⟨relevant, es, story, before.trans grown⟩

theorem drafted_sigs (h : Drafted hub e.newId start stx counterparty) :
    stx.sigs = [hub.ourIdentity.owningKey] := by
  cases h <;> rfl

theorem answer_checks {signed : SignedTransaction} (answer : f.answer map = .ok signed) :
    reaches map f.counterparty = true ∧
      f.started.start.flow.checkTransaction f.started.node f.stx.tx = .ok () := by
  unfold Flight.answer at answer
  split at answer
  · rename_i reached
    obtain ⟨-, -, -, checked, -⟩ := respond_ok_iff.mp answer
    exact ⟨reached, checked⟩
  · cases answer

theorem Chronicled.started (h : Chronicled map w) {choice : Nat} (known : e.node ∈ map.nodes)
    (fresh : Fresh w e.newId)
    (built : e.start.call (w.hub map e.node) choice e.newId = .ok (stx, counterparty)) :
    Chronicled map { w with
      flights := w.flights ++ [⟨e, counterparty, stx, false⟩]
      started := w.started ++ [e] } := by
  have grown : w.started.Sublist (w.started ++ [e]) := List.sublist_append_left _ _
  have drafted := call_drafts built
  refine ⟨?_, ?_, ?_, ?_, h.informed, h.within⟩
  · intro e' he'
    rcases List.mem_append.mp he' with old | new
    · exact h.nodes e' old
    · rw [List.mem_singleton.mp new]
      exact known
  · rw [List.map_append, List.map_singleton, List.nodup_append]
    refine ⟨h.ids, List.nodup_singleton _, ?_⟩
    intro id old new hnew
    obtain ⟨e', he', rfl⟩ := List.mem_map.mp old
    rw [List.mem_singleton.mp hnew]
    exact fresh e' he'
  · intro f hf
    rcases List.mem_append.mp hf with old | new
    · exact (h.flights f old).carry grown
    · rw [List.mem_singleton.mp new]
      refine ⟨⟨_, stx, rfl, rfl, fun i hi => ?_, drafted, rfl⟩, fun signed apart => ?_⟩
      · obtain ⟨created, -, relevant, -⟩ := mem_vaultOf.mp hi
        obtain ⟨es, story, before⟩ := h.created _ _ created
        exact ⟨relevant, es, story, before.append (List.Sublist.refl [e])⟩
      · have signed' : counterparty.owningKey ∈ stx.sigs := signed
        rw [drafted_sigs drafted, List.mem_singleton] at signed'
        exact absurd signed' apart
  · intro r s created
    obtain ⟨es, story, before⟩ := h.created r s created
    exact ⟨es, story, before.trans grown⟩

theorem Chronicled.answered (h : Chronicled map w) {i : Nat} (at_i : w.flights[i]? = some f)
    {signed : SignedTransaction} (answer : f.answer map = .ok signed) :
    Chronicled map
      { w with flights := w.flights.set i { f with stx := signed, answered := true } } := by
  refine ⟨h.nodes, h.ids, ?_, h.created, h.informed, h.within⟩
  intro g hg
  rcases List.mem_or_eq_of_mem_set hg with old | rfl
  · exact (h.flights g old).carry (List.Sublist.refl _)
  · obtain ⟨hub, stx, ours, notaries, vault, drafted, tx⟩ :=
      (h.flights f (List.mem_of_getElem? at_i)).drafted
    have same := Flight.answer_tx answer
    refine ⟨⟨hub, stx, ours, notaries, vault, drafted, same.trans tx⟩, fun _ _ => ?_⟩
    obtain ⟨reached, checked⟩ := answer_checks answer
    exact ⟨reached, same ▸ checked⟩

theorem Chronicled.failed (h : Chronicled map w) (i : Nat) :
    Chronicled map { w with flights := w.flights.eraseIdx i } := by
  refine ⟨h.nodes, h.ids, ?_, h.created, h.informed, h.within⟩
  intro f hf
  exact (h.flights f (List.mem_of_mem_eraseIdx hf)).carry (List.Sublist.refl _)

theorem informed_notarised (within : ∀ d ∈ w.recorded ++ w.deliveries, d.2 < w.ledger.length)
    {a b q : Party} {k : Nat} {ledger : List SignedTransaction} {flights : List Flight} :
    Informed { w with
      ledger := ledger
      flights := flights
      deliveries := w.deliveries ++ [(a, w.ledger.length), (b, w.ledger.length)] } q k ↔
      k < w.ledger.length ∧ Informed w q k ∨
        k = w.ledger.length ∧ (a.equals q = true ∨ b.equals q = true) := by
  constructor
  · rintro ⟨d, hd, ours, rfl⟩
    rw [← List.append_assoc, List.mem_append] at hd
    rcases hd with old | new
    · exact Or.inl ⟨within d old, d, old, ours, rfl⟩
    · simp only [List.mem_cons, List.not_mem_nil, or_false] at new
      rcases new with rfl | rfl
      · exact Or.inr ⟨rfl, Or.inl ours⟩
      · exact Or.inr ⟨rfl, Or.inr ours⟩
  · rintro (⟨-, d, hd, ours, rfl⟩ | ⟨rfl, ours | ours⟩)
    · refine ⟨d, ?_, ours, rfl⟩
      rw [← List.append_assoc]
      exact List.mem_append_left _ hd
    · exact ⟨(a, w.ledger.length), by simp, ours, rfl⟩
    · exact ⟨(b, w.ledger.length), by simp, ours, rfl⟩

/-- A commit adds the state that its flow settles, and tells its two nodes. -/
theorem Chronicled.notarised (h : Chronicled map w) (known : f.started ∈ w.started) {i : Nat}
    (at_i : w.flights[i]? = some f) (finalises : f.Finalises w.ledger) :
    Chronicled map { w with
      ledger := w.ledger ++ [f.stx.notarised]
      flights := w.flights.eraseIdx i
      deliveries := w.deliveries ++
        [(f.started.node, w.ledger.length), (f.counterparty, w.ledger.length)] } := by
  obtain ⟨s, settled⟩ :=
    (h.flights f (List.mem_of_getElem? at_i)).settles known h.nodes finalises
  have new_state : ∀ {n : Nat} {s' : TransactionState ContractState},
      (ports.outputs f.stx)[n]? = some s' → s' = s := by
    intro n s' output
    have outputs : ports.outputs f.stx = [s] := settled.output
    rw [outputs] at output
    exact (getElem?_single output).2.symm
  refine ⟨h.nodes, h.ids, ?_, ?_, ?_, ?_⟩
  · intro g hg
    exact (h.flights g (List.mem_of_mem_eraseIdx hg)).carry (List.Sublist.refl _)
  · intro r s' created
    rcases outputAt_snoc.mp created with old | ⟨-, new⟩
    · exact h.created r s' old
    · rw [new_state new]
      exact settled.story
  · intro r s' created q
    rw [informed_notarised h.within]
    rcases outputAt_snoc.mp created with old | ⟨here, new⟩
    · have before := outputAt_lt old
      have apart : r.txIndex ≠ w.ledger.length := by omega
      simp [before, apart, h.informed r s' old q]
    · rw [new_state new, settled.sides q]
      simp [here]
  · intro d hd
    show d.2 < (w.ledger ++ [f.stx.notarised]).length
    rw [List.length_append, List.length_singleton]
    rw [← List.append_assoc, List.mem_append] at hd
    rcases hd with old | new
    · have before := h.within d old
      omega
    · simp only [List.mem_cons, List.not_mem_nil, or_false] at new
      rcases new with rfl | rfl <;> omega

theorem Chronicled.delivered (h : Chronicled map w) {i : Nat} {d : Party × Nat}
    (at_i : w.deliveries[i]? = some d) :
    Chronicled map { w with
      recorded := w.recorded ++ [d]
      deliveries := w.deliveries.eraseIdx i } := by
  obtain ⟨within, rfl⟩ := List.getElem?_eq_some_iff.mp at_i
  have news : ∀ d', d' ∈ (w.recorded ++ [w.deliveries[i]]) ++ w.deliveries.eraseIdx i ↔
      d' ∈ w.recorded ++ w.deliveries := by
    intro d'
    rw [List.append_assoc, List.singleton_append, List.mem_append, List.mem_append]
    exact or_congr_right (List.getElem_cons_eraseIdx_perm within).mem_iff
  refine ⟨h.nodes, h.ids, ?_, h.created, ?_, ?_⟩
  · intro f hf
    exact (h.flights f hf).carry (List.Sublist.refl _)
  · intro r s created q
    rw [← h.informed r s created q]
    exact exists_congr fun d' => and_congr_left fun _ => news d'
  · intro d' hd'
    exact h.within d' ((news d').mp hd')

theorem Chronicled.step (h : Chronicled map w) (sound : Sound w) (hs : Stepped map w w') :
    Chronicled map w' := by
  cases hs with
  | started known fresh built => exact h.started known fresh built
  | answered at_i answer => exact h.answered at_i answer
  | notarised at_i finalises =>
    have known := (sound.flights _ (List.mem_of_getElem? at_i)).known
    exact h.notarised known at_i finalises
  | delivered at_i => exact h.delivered at_i
  | failed i => exact h.failed i
  | unstarted => exact h

theorem traders (h : Reachable (network map) (Aside map) w) : ∀ e ∈ w.started, Trades map e := by
  refine h.invariant (I := fun w => ∀ e ∈ w.started, Trades map e) (fun w initial e mem => ?_)
    (fun w a w' _ ih aside hs e mem => ?_)
  · obtain rfl : w = .empty := initial
    cases mem
  · rcases next_started hs mem with old | ⟨choice, start⟩
    · exact ih e old
    · exact aside e choice start

theorem chronicled (h : Reachable (network map) always w) : Chronicled map w := by
  refine h.invariant (fun w initial => ?_) (fun w a w' hw ih _ hs => ?_)
  · have empty : w = .empty := initial
    exact empty ▸ Chronicled.empty
  · exact ih.step (sound hw) (stepped hs)

end EnergyMarket.Chronicle
