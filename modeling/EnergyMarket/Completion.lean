/- Module: EnergyMarket/Completion
   digest: Who can do what: the starts that run through to a committed transaction. -/

import EnergyMarket.Lookups
import EnergyMarket.Notaries

set_option autoImplicit false
set_option relaxedAutoImplicit false

namespace EnergyMarket.Completion
open EnergyMarket.Library.Runs EnergyMarket.Library.Utxo EnergyMarket.States
open EnergyMarket.Transactions EnergyMarket.Contract EnergyMarket.Contract.ProposalAndTradeContract
open EnergyMarket.Ledger EnergyMarket.Flows EnergyMarket.Drafts EnergyMarket.Vault
open EnergyMarket.Identity EnergyMarket.Negotiation EnergyMarket.Network EnergyMarket.Chronicle
open EnergyMarket.Agreement EnergyMarket.Lookups EnergyMarket.Notaries

structure Quiet (w : NetworkState) : Prop where
  flights : w.flights = []
  deliveries : w.deliveries = []

/-- A flow started with nothing else under way, and all that follows; a step that is not
there to take is passed over. -/
def through (map : NetworkMap) (w : NetworkState) (e : Started) (choice : Nat) : NetworkState :=
  [Action.start e choice, .respond 0, .notarise 0, .deliver 0, .deliver 0].foldl
    (fun w a => (next map w a).getD w) w

def after (w : NetworkState) (e : Started) (counterparty : Party) (signed : SignedTransaction) :
    NetworkState where
  ledger := w.ledger ++ [signed]
  recorded := w.recorded ++ [(e.node, w.ledger.length), (counterparty, w.ledger.length)]
  flights := []
  deliveries := []
  started := w.started ++ [e]

variable {map : NetworkMap} {w : NetworkState} {e : Started} {choice : Nat}
variable {stx signed : SignedTransaction} {counterparty : Party}

theorem through_reachable {guard : NetworkState → Action → Prop}
    (allowed : ∀ w a, a ∈ [.start e choice, .respond 0, .notarise 0, .deliver 0, .deliver 0] →
      guard w a) (h : Reachable (network map) guard w) :
    Reachable (network map) guard (through map w e choice) := by
  have run : ∀ (actions : List Action) (w : NetworkState), (∀ w, ∀ a ∈ actions, guard w a) →
      Reachable (network map) guard w →
        Reachable (network map) guard (actions.foldl (fun w a => (next map w a).getD w) w) := by
    intro actions
    induction actions with
    | nil => exact fun _ _ hw => hw
    | cons a rest ih =>
      intro w allowed hw
      have kept : Reachable (network map) guard ((next map w a).getD w) := by
        cases stepped : next map w a with
        | none => exact hw
        | some w' => exact hw.step (allowed w a (List.mem_cons_self ..)) stepped
      exact ih _ (fun w a ha => allowed w a (List.mem_cons_of_mem _ ha)) kept
  exact run _ w allowed h

private theorem next_start (quiet : Quiet w) (known : e.node ∈ map.nodes) (fresh : Fresh w e.newId)
    (built : e.start.call (w.hub map e.node) choice e.newId = .ok (stx, counterparty)) :
    next map w (.start e choice) = some { w with
      flights := [⟨e, counterparty, stx, false⟩]
      started := w.started ++ [e] } := by
  simp [next, known, fresh, built, quiet.flights]

theorem through_committed (quiet : Quiet w) (known : e.node ∈ map.nodes) (fresh : Fresh w e.newId)
    (built : e.start.call (w.hub map e.node) choice e.newId = .ok (stx, counterparty))
    (answer : Flight.answer map ⟨e, counterparty, stx, false⟩ = .ok signed)
    (finalises : Flight.Finalises ⟨e, counterparty, signed, true⟩ w.ledger) :
    through map w e choice = after w e counterparty signed.notarised := by
  have start := next_start quiet known fresh built
  have respond : next map { w with
        flights := [⟨e, counterparty, stx, false⟩]
        started := w.started ++ [e] } (.respond 0) = some { w with
      flights := [⟨e, counterparty, signed, true⟩]
      started := w.started ++ [e] } := by
    simp [next, answer]
  have notarise : next map { w with
        flights := [⟨e, counterparty, signed, true⟩]
        started := w.started ++ [e] } (.notarise 0) = some { w with
      ledger := w.ledger ++ [signed.notarised]
      flights := []
      deliveries := [(e.node, w.ledger.length), (counterparty, w.ledger.length)]
      started := w.started ++ [e] } := by
    simp [next, finalises, quiet.deliveries]
  simp only [through, List.foldl_cons, List.foldl_nil, start, respond, notarise, Option.getD_some]
  simp [next, after]

theorem through_cases (map : NetworkMap) (e : Started) (choice : Nat) (quiet : Quiet w) :
    (∃ stx counterparty signed,
      e.start.call (w.hub map e.node) choice e.newId = .ok (stx, counterparty) ∧
      Flight.answer map ⟨e, counterparty, stx, false⟩ = .ok signed ∧
      Flight.Finalises ⟨e, counterparty, signed, true⟩ w.ledger ∧
      through map w e choice = after w e counterparty signed.notarised) ∨
    ∃ started, through map w e choice = { w with started := started } := by
  have idle := quiet.flights
  have delivered := quiet.deliveries
  by_cases starts : e.node ∈ map.nodes ∧ Fresh w e.newId
  · obtain ⟨known, fresh⟩ := starts
    cases built : e.start.call (w.hub map e.node) choice e.newId with
    | error failure =>
      have stays : through map w e choice = w := by
        simp [through, next, known, fresh, built, idle, delivered]
      exact Or.inr ⟨w.started, stays⟩
    | ok session =>
      obtain ⟨stx, counterparty⟩ := session
      have start := next_start quiet known fresh built
      cases answer : Flight.answer map ⟨e, counterparty, stx, false⟩ with
      | error failure =>
        refine Or.inr ⟨w.started ++ [e], ?_⟩
        simp only [through, List.foldl_cons, List.foldl_nil, start, Option.getD_some]
        simp [next, answer, idle, delivered]
      | ok signed =>
        by_cases finalises : Flight.Finalises ⟨e, counterparty, signed, true⟩ w.ledger
        · exact Or.inl ⟨stx, counterparty, signed, rfl, answer, finalises,
            through_committed quiet known fresh built answer finalises⟩
        · refine Or.inr ⟨w.started ++ [e], ?_⟩
          simp only [through, List.foldl_cons, List.foldl_nil, start, Option.getD_some]
          simp [next, answer, finalises, idle, delivered]
  · have stays : through map w e choice = w := by
      simp [through, next, starts, idle, delivered]
    exact Or.inr ⟨w.started, stays⟩

section Drafts

variable {hub : ServiceHub} {newId : UniqueIdentifier} {start : FlowStart}

private theorem draft_required {notary : Party} {inputs : List (StateAndRef ContractState)}
    {output : ContractState} {command : CommandData} {signers : List PublicKey} :
    (draft hub notary inputs output command signers).tx.requiredSigningKeys = signers :=
  LedgerTransaction.requiredSigningKeys_single rfl

private theorem draft_command {notary : Party} {inputs : List (StateAndRef ContractState)}
    {output : ContractState} {command : CommandData} {signers : List PublicKey} :
    (draft hub notary inputs output command signers).tx.commands =
      [⟨command, (draft hub notary inputs output command signers).tx.requiredSigningKeys⟩] := by
  rw [draft_required]
  rfl

theorem draft_inputsOfType {α : Type} [StateClass α] {i : StateAndRef α} {notary : Party}
    {output : ContractState} {command : CommandData} {signers : List PublicKey} :
    ((draft hub notary [i.up] output command signers).tx.inputsOfType α) = [i.state.data] := by
  simp [draft, LedgerTransaction.inputsOfType, LedgerTransaction.getInputStates, StateAndRef.up]

private theorem otherThan_signs {us proposer proposee : Party}
    (ours : proposer.equals us = true ∨ proposee.equals us = true) :
    proposer.owningKey ∈ [(otherThan us proposee proposer).owningKey, us.owningKey] ∧
      proposee.owningKey ∈ [(otherThan us proposee proposer).owningKey, us.owningKey] := by
  have proposer_side := (otherThan_sides (q := proposer) ours).mp (Or.inl (by simp))
  have proposee_side := (otherThan_sides (q := proposee) ours).mp (Or.inr (by simp))
  simp only [Party.equals_iff, @eq_comm _ us.owningKey,
    @eq_comm _ (otherThan us proposee proposer).owningKey] at proposer_side proposee_side
  simp [proposer_side.symm, proposee_side.symm]

theorem drafted_inputs (h : Drafted hub newId start stx counterparty) :
    stx.tx.inputs = [] ∨ ∃ i ∈ hub.vault, stx.tx.inputs = [i] := by
  cases h with
  | propose => exact Or.inl rfl
  | modify held | accept held | killProposal held | killModification held =>
    exact Or.inr ⟨_, held, rfl⟩

private theorem drafted_covered
    (ours : ∀ i ∈ hub.vault, relevant hub.ourIdentity i.state.data = true)
    (h : Drafted hub newId start stx counterparty) : ∀ key ∈ stx.tx.requiredSigningKeys,
      key = hub.ourIdentity.owningKey ∨ key = counterparty.owningKey := by
  intro key required
  cases h with
  | propose => simpa [draft_required] using required
  | modify | killProposal | killModification =>
    simpa [draft_required, or_comm] using required
  | accept held =>
    obtain ⟨proposee, proposer⟩ := otherThan_signs ((relevant_pair rfl).mp (ours _ held)).symm
    rw [draft_required, List.mem_pair] at required
    rcases required with rfl | rfl
    · exact (List.mem_pair.mp proposer).symm
    · exact (List.mem_pair.mp proposee).symm

theorem drafted_verifies (ours : ∀ i ∈ hub.vault, relevant hub.ourIdentity i.state.data = true)
    (h : Drafted hub newId start stx counterparty) : verify stx.tx = .ok () := by
  cases h with
  | propose =>
    refine Proposes.verifies ⟨rfl, rfl, draft_command, rfl, immutableSet_comm _ _, ?_, ?_⟩
    · simp [draft_required]
    · simp [draft_required]
  | modify held role =>
    refine Modifies.verifies ⟨rfl, rfl, draft_command, rfl, rfl, rfl, ?_, ?_⟩
    · simp [draft_required]
    · simp [draft_required, role]
  | accept held =>
    refine Accepts.verifies ⟨rfl, rfl, draft_command, rfl, rfl, rfl, ?_, ?_⟩
    · simp [draft_required]
    · simp [draft_required]
  | killProposal held | killModification held =>
    obtain ⟨proposer, proposee⟩ := otherThan_signs ((relevant_pair rfl).mp (ours _ held))
    refine Kills.verifies ⟨rfl, rfl, draft_command, rfl, ?_, ?_⟩
    · rw [draft_required]
      exact proposer
    · rw [draft_required]
      exact proposee

end Drafts

/-- A start on a node of the network, with nothing else under way and an identifier never
drawn before. -/
structure Ready (map : NetworkMap) (w : NetworkState) (e : Started) : Prop where
  reachable : Reachable (network map) always w
  quiet : Quiet w
  known : e.node ∈ map.nodes
  fresh : Fresh w e.newId

/-- A flow runs through: what its initiator builds is committed, with some signatures, and
its two nodes record it. -/
def Completes (map : NetworkMap) (w : NetworkState) (e : Started) (choice : Nat)
    (stx : SignedTransaction) (counterparty : Party) : Prop :=
  e.start.call (w.hub map e.node) choice e.newId = .ok (stx, counterparty) ∧
    ∃ signed, signed.tx = stx.tx ∧ through map w e choice = after w e counterparty signed

/-- What is built is accepted by the contract and by the counterparty's check, and asks
for no signature but those of the two nodes. -/
structure Sealed (e : Started) (stx : SignedTransaction) (counterparty : Party) : Prop where
  verified : verify stx.tx = .ok ()
  checked : e.start.flow.checkTransaction e.node stx.tx = .ok ()
  covered : ∀ key ∈ stx.tx.requiredSigningKeys,
    key = e.node.owningKey ∨ key = counterparty.owningKey

structure Unchanged (map : NetworkMap) (w w' : NetworkState) : Prop where
  ledger : w'.ledger = w.ledger
  vaults : ∀ q, (w'.hub map q).vault = (w.hub map q).vault

theorem Ready.held (ready : Ready map w e) {q : Party} {i : StateAndRef ContractState} :
    i ∈ (w.hub map q).vault ↔
      ports.Unspent w.ledger i.ref i.state ∧ relevant q i.state.data = true :=
  mem_vault_iff ready.reachable ready.quiet.deliveries

theorem Ready.ours (ready : Ready map w e) :
    ∀ i ∈ (w.hub map e.node).vault, relevant e.node i.state.data = true :=
  fun _ hi => (ready.held.mp hi).2

theorem Ready.spendable (ready : Ready map w e) {sigs : List PublicKey}
    (drafted : Drafted (w.hub map e.node) e.newId e.start stx counterparty) :
    ports.Spendable w.ledger { stx with sigs := sigs } := by
  rcases drafted_inputs drafted with none | ⟨i, held, single⟩
  · exact spendable_none (by simp [ports, none])
  · exact spendable_single (by simp [ports, single]) (ready.held.mp held).1

/-- Whatever an initiator builds is accepted and covered, so that it only takes another
node that answers and checks it. -/
theorem completes_iff (ready : Ready map w e)
    (built : e.start.call (w.hub map e.node) choice e.newId = .ok (stx, counterparty)) :
    Completes map w e choice stx counterparty ↔
      reaches map counterparty = true ∧ counterparty.owningKey ≠ e.node.owningKey ∧
        e.start.flow.checkTransaction e.node stx.tx = .ok () := by
  have drafted := call_drafts built
  have verified := drafted_verifies ready.ours drafted
  constructor
  · rintro ⟨-, committed, -, ran⟩
    rcases through_cases map e choice ready.quiet with
      ⟨stx', counterparty', signed, built', answer, finalises, -⟩ | ⟨started, stopped⟩
    · obtain ⟨rfl, rfl⟩ := Prod.mk.inj (Except.ok.inj (built'.symm.trans built))
      obtain ⟨reached, checked⟩ := answer_checks answer
      exact ⟨reached, finalises.1, checked⟩
    · have grown := congrArg (fun w => w.ledger.length) (stopped.symm.trans ran)
      simp [after] at grown
  · rintro ⟨reached, apart, checked⟩
    refine ⟨built, SignedTransaction.notarised
      { stx with sigs := stx.sigs ++ [counterparty.owningKey] }, rfl, ?_⟩
    have answer : Flight.answer map ⟨e, counterparty, stx, false⟩ =
        .ok { stx with sigs := stx.sigs ++ [counterparty.owningKey] } := by
      have reached' : map.nodes.any counterparty.equals = true := reached
      simp only [Flight.answer, reached', if_true]
      refine respond_ok_iff.mpr ⟨?_, drafted_requires drafted, verified, checked, rfl⟩
      rw [drafted_sigs drafted]
      exact List.mem_singleton.mpr rfl
    refine through_committed ready.quiet ready.known ready.fresh built answer ⟨apart, ?_, ?_⟩
    · exact ready.spendable drafted
    · refine ⟨fun _ => verified, fun key required => ?_⟩
      simpa [drafted_sigs drafted] using drafted_covered ready.ours drafted key required

theorem unchanged_of_failure (ready : Ready map w e)
    (fails : ¬ ∃ stx counterparty, Completes map w e choice stx counterparty) :
    Unchanged map w (through map w e choice) := by
  rcases through_cases map e choice ready.quiet with
    ⟨stx, counterparty, signed, built, answer, -, ran⟩ | ⟨started, stopped⟩
  · exact absurd ⟨stx, counterparty, built, signed.notarised, Flight.answer_tx answer, ran⟩ fails
  · rw [stopped]
    exact ⟨rfl, fun _ => rfl⟩

private theorem sealed_of_completion (ready : Ready map w e)
    (completes : Completes map w e choice stx counterparty) : Sealed e stx counterparty := by
  have drafted := call_drafts completes.1
  obtain ⟨-, -, checked⟩ := (completes_iff ready completes.1).mp completes
  exact ⟨drafted_verifies ready.ours drafted, checked, drafted_covered ready.ours drafted⟩

/-- The two parties of an open negotiation are two nodes of the network, which hold its
state. -/
structure Counterparts (map : NetworkMap) (node proposer proposee : Party) : Prop where
  proposer_reached : reaches map proposer = true
  proposee_reached : reaches map proposee = true
  apart : proposer.owningKey ≠ proposee.owningKey
  ours : proposer.equals node = true ∨ proposee.equals node = true

private theorem reaches_congr {q q' : Party} (same : q.equals q' = true) :
    reaches map q = reaches map q' := by
  have keys := Party.equals_iff.mp same
  have equal : q.equals = q'.equals := funext fun p => by simp [Party.equals, keys]
  simp [reaches, equal]

theorem reaches_of_known {q : Party} (known : q ∈ map.nodes) : reaches map q = true :=
  List.any_eq_true.mpr ⟨q, known, by simp⟩

theorem counterparts_of_held (ready : Ready map w e) {i : StateAndRef ContractState}
    (held : i ∈ (w.hub map e.node).vault) {proposer proposee : Party}
    (roles : i.state.data.negotiators = [proposer, proposee]) :
    Counterparts map e.node proposer proposee := by
  obtain ⟨unspent, ours⟩ := ready.held.mp held
  obtain ⟨es, story, -⟩ := (chronicled ready.reachable).created _ _ unspent.1
  obtain ⟨first, rest, peer, -, opening⟩ := story.opening
  have between := opening.between
  have sides : proposer.equals first.node = true ∧ proposee.equals peer = true ∧
      i.state.data.getParticipants = [proposer, proposee] := by
    cases state : i.state.data with
    | proposal s | modify s =>
      rw [state] at roles between
      simp only [ContractState.negotiators, List.cons.injEq, and_true] at roles
      obtain ⟨rfl, rfl⟩ := roles
      exact ⟨between.2.1, between.2.2, rfl⟩
    | trade s | kill s | foreign s => simp [state, ContractState.negotiators] at roles
  obtain ⟨proposer_first, proposee_peer, participants⟩ := sides
  refine ⟨?_, ?_, ?_, (relevant_pair participants).mp ours⟩
  · rw [reaches_congr proposer_first]
    exact reaches_of_known opening.known
  · rw [reaches_congr proposee_peer]
    exact opening.reached
  · rw [Party.equals_iff.mp proposer_first, Party.equals_iff.mp proposee_peer]
    exact opening.apart.symm

theorem Counterparts.other {node proposer proposee : Party}
    (h : Counterparts map node proposer proposee) :
    reaches map (otherThan node proposee proposer) = true ∧
      (otherThan node proposee proposer).owningKey ≠ node.owningKey := by
  by_cases same : node.owningKey = proposee.owningKey
  · have apart : proposer.owningKey ≠ node.owningKey := same ▸ h.apart
    simpa [otherThan, same, h.proposer_reached] using h.apart
  · have other : otherThan node proposee proposer = proposee := by simp [otherThan, same]
    rw [other]
    exact ⟨h.proposee_reached, fun equal => same equal.symm⟩

theorem Counterparts.swap {node proposer proposee : Party}
    (h : Counterparts map node proposer proposee) : Counterparts map node proposee proposer :=
  ⟨h.proposee_reached, h.proposer_reached, h.apart.symm, h.ours.symm⟩

/-- Some unspent state of a class and a linear id has the node in one of these roles. -/
def Holds (α : Type) [StateClass α] (roles : α → List Party) (w : NetworkState)
    (id : UniqueIdentifier) (node : Party) : Prop :=
  ∃ r a notary, ports.Unspent w.ledger r ⟨StateClass.up a, notary⟩ ∧
    (StateClass.up a).getLinearId = some id ∧ (roles a).any node.equals = true

/-- Who can do what. -/
def Entitled (map : NetworkMap) (w : NetworkState) (node : Party) : FlowStart → Prop
  | .propose isBuyer _ _ counterparty => isBuyer = some true ∧
      ∃ q ∈ counterparty, reaches map q = true ∧ q.owningKey ≠ node.owningKey
  | .modify id _ _ => Holds ProposalState (fun p => [p.proposee]) w id node
  | .accept id => Holds ModifyState (fun m => [m.proposer]) w id node
  | .killProposal id => Holds ProposalState (fun p => [p.proposer, p.proposee]) w id node
  | .killModification id => Holds ModifyState (fun m => [m.proposer, m.proposee]) w id node

section Found

variable {α : Type} [StateClass α] {roles : α → List Party} {id newId : UniqueIdentifier}
variable {notFound : String} {node : Party}

theorem holds_iff (ready : Ready map w e) (page : WithinPage α (w.hub map e.node))
    (one : (candidates α (w.hub map e.node).vault id).length ≤ 1)
    (parties : ∀ a, roles a ⊆ (StateClass.up a).getParticipants) :
    Holds α roles w id e.node ↔ ∃ i : StateAndRef α,
      lookup α notFound (w.hub map e.node) id choice = .ok i ∧
        (roles i.state.data).any e.node.equals = true := by
  constructor
  · rintro ⟨r, a, notary, unspent, keyed, role⟩
    obtain ⟨q, hq, same⟩ := List.any_eq_true.mp role
    have ours : relevant e.node (StateClass.up a) = true :=
      List.any_eq_true.mpr ⟨q, parties a hq, same⟩
    have held : StateAndRef.up ⟨⟨a, notary⟩, r⟩ ∈ (w.hub map e.node).vault :=
      ready.held.mpr ⟨unspent, ours⟩
    exact ⟨⟨⟨a, notary⟩, r⟩, lookup_held page one held keyed, role⟩
  · rintro ⟨⟨⟨a, notary⟩, r⟩, found, role⟩
    obtain ⟨held, keyed⟩ := lookup_ok found
    exact ⟨r, a, notary, (ready.held.mp held).1, keyed, role⟩

/-- A flow that starts with a lookup runs through where it finds a state that lets it, in a
role that the state decides on. -/
theorem completes_iff_holds (ready : Ready map w e) (page : WithinPage α (w.hub map e.node))
    (one : (candidates α (w.hub map e.node).vault id).length ≤ 1)
    (parties : ∀ a, roles a ⊆ (StateClass.up a).getParticipants)
    {k : StateAndRef α → Outcome (SignedTransaction × Party)}
    (looks : e.start.call (w.hub map e.node) choice e.newId =
      lookup α notFound (w.hub map e.node) id choice >>= k)
    (decides : ∀ i, lookup α notFound (w.hub map e.node) id choice = .ok i →
      ((∃ stx counterparty, Completes map w e choice stx counterparty) ↔
        (roles i.state.data).any e.node.equals = true)) :
    (∃ stx counterparty, Completes map w e choice stx counterparty) ↔
      Holds α roles w id e.node := by
  have holds : Holds α roles w id e.node ↔ ∃ i : StateAndRef α,
      lookup α notFound (w.hub map e.node) id choice = .ok i ∧
        (roles i.state.data).any e.node.equals = true := holds_iff ready page one parties
  rw [holds]
  constructor
  · rintro ⟨stx, counterparty, completes⟩
    have built := completes.1
    rw [looks, bind_ok_iff] at built
    obtain ⟨i, found, -⟩ := built
    exact ⟨i, found, (decides i found).mp ⟨stx, counterparty, completes⟩⟩
  · rintro ⟨i, found, role⟩
    exact (decides i found).mpr role

theorem modification_completes_iff {newAmount newUnitPrice : Double}
    {i : StateAndRef ProposalState}
    (ready : Ready map w ⟨node, .modify id newAmount newUnitPrice, newId⟩)
    (found : lookup ProposalState "proposal not found" (w.hub map node) id choice = .ok i) :
    (∃ stx counterparty,
      Completes map w ⟨node, .modify id newAmount newUnitPrice, newId⟩ choice stx counterparty) ↔
      i.state.data.proposee.equals node = true := by
  have call : FlowStart.call (w.hub map node) choice newId (.modify id newAmount newUnitPrice) =
      if node.owningKey = i.state.data.proposee.owningKey then _ else _ := modification_call found
  have counterparts := counterparts_of_held ready (lookup_ok found).1 rfl
  constructor
  · rintro ⟨stx, counterparty, built, -⟩
    by_contra other
    rw [call, if_neg (fun same => other (Party.equals_iff.mpr same.symm))] at built
    cases built
  · intro role
    have same := (Party.equals_iff.mp role).symm
    rw [if_pos same] at call
    refine ⟨_, _, (completes_iff ready call).mpr ⟨counterparts.proposer_reached, ?_, ?_⟩⟩
    · exact same ▸ counterparts.apart
    · exact modificationCheck_ok_iff.mpr ⟨i.state.data, by rw [draft_inputsOfType]; rfl, role⟩

theorem acceptance_completes_iff {i : StateAndRef ModifyState}
    (ready : Ready map w ⟨node, .accept id, newId⟩)
    (found : lookup ModifyState "Proposal not found" (w.hub map node) id choice = .ok i) :
    (∃ stx counterparty, Completes map w ⟨node, .accept id, newId⟩ choice stx counterparty) ↔
      i.state.data.proposer.equals node = true := by
  have call : FlowStart.call (w.hub map node) choice newId (.accept id) = _ :=
    acceptance_call found
  have counterparts := (counterparts_of_held ready (lookup_ok found).1 rfl).swap
  constructor
  · rintro ⟨stx, counterparty, completes⟩
    obtain ⟨-, -, checked⟩ := (completes_iff ready completes.1).mp completes
    obtain ⟨rfl, rfl⟩ := Prod.mk.inj (Except.ok.inj (completes.1.symm.trans call))
    obtain ⟨m, head, role⟩ := acceptanceCheck_ok_iff.mp checked
    rw [draft_inputsOfType] at head
    obtain rfl : i.state.data = m := Option.some.inj head
    exact role
  · intro role
    obtain ⟨reached, apart⟩ := counterparts.other
    exact ⟨_, _, (completes_iff ready call).mpr ⟨reached, apart,
      acceptanceCheck_ok_iff.mpr ⟨i.state.data, by rw [draft_inputsOfType]; rfl, role⟩⟩⟩

theorem kill_completes {copy : α → KillState} {i : StateAndRef α} (ready : Ready map w e)
    (first : FirstProposes map)
    (found : lookup α "Proposal not found" (w.hub map e.node) id choice = .ok i)
    (call : e.start.call (w.hub map e.node) choice e.newId =
      killInitiator α copy (w.hub map e.node) id choice)
    (roles : (StateClass.up i.state.data).negotiators =
      [(copy i.state.data).proposer, (copy i.state.data).proposee])
    (unchecked : ∀ tx, e.start.flow.checkTransaction e.node tx = .ok ()) :
    ∃ stx counterparty, Completes map w e choice stx counterparty := by
  obtain ⟨held, -⟩ := lookup_ok found
  obtain ⟨reached, apart⟩ := (counterparts_of_held ready held roles).other
  have isOpen : (StateClass.up i.state.data).isOpen = true :=
    ContractState.negotiators_isOpen (q := (copy i.state.data).proposer) (by simp [roles])
  obtain ⟨firstNotary, head, notary, named, same⟩ := first
  have recorded : some i.state.notary = some notary :=
    (held_notary ready.reachable held isOpen).symm.trans named
  have head' : (w.hub map e.node).notaryIdentities.head? = some firstNotary := head
  have own : i.state.notary.equals firstNotary = true := Option.some.inj recorded ▸ same
  rw [killInitiator_call found] at call
  simp only [head', own, if_true] at call
  exact ⟨_, _, (completes_iff ready call).mpr ⟨reached, apart, unchecked _⟩⟩

theorem proposal_completes_iff {isBuyer : Option Bool} {amount unitPrice : Double}
    {peer : Option Party}
    (ready : Ready map w ⟨node, .propose isBuyer amount unitPrice peer, newId⟩)
    (first : FirstProposes map) :
    (∃ stx counterparty, Completes map w ⟨node, .propose isBuyer amount unitPrice peer, newId⟩
      choice stx counterparty) ↔ Entitled map w node (.propose isBuyer amount unitPrice peer) := by
  constructor
  · rintro ⟨stx, counterparty, completes⟩
    obtain ⟨reached, apart, -⟩ := (completes_iff ready completes.1).mp completes
    cases call_drafts completes.1 with
    | propose => exact ⟨rfl, counterparty, rfl, reached, apart⟩
  · rintro ⟨rfl, counterparty, rfl, reached, apart⟩
    obtain ⟨-, -, notary, named, -⟩ := first
    have known : (w.hub map node).getNotary ProposalFlow.notaryName = some notary := named
    exact ⟨_, _, (completes_iff ready (proposal_call known)).mpr ⟨reached, apart, rfl⟩⟩

end Found

/-- Who can do what, exactly: with nothing else under way a start runs through to a
committed transaction where its node is entitled to it, the contract and the counterparty
accept what it builds and the two nodes are all it takes to sign; and otherwise it leaves
the ledger and every vault as they were. -/
theorem who_can_do_what (ready : Ready map w e) (first : FirstProposes map)
    (proposals : WithinPage ProposalState (w.hub map e.node))
    (modifications : WithinPage ModifyState (w.hub map e.node)) :
    ((∃ stx counterparty, Completes map w e choice stx counterparty) ↔
      Entitled map w e.node e.start) ∧
    (∀ stx counterparty, Completes map w e choice stx counterparty → Sealed e stx counterparty) ∧
    ((¬ ∃ stx counterparty, Completes map w e choice stx counterparty) →
      Unchanged map w (through map w e choice)) := by
  refine ⟨?_, fun _ _ => sealed_of_completion ready, unchanged_of_failure ready⟩
  obtain ⟨node, start, newId⟩ := e
  cases start with
  | propose isBuyer amount unitPrice peer => exact proposal_completes_iff ready first
  | modify id newAmount newUnitPrice =>
    refine completes_iff_holds ready proposals (proposals_single ready.reachable) ?_ rfl ?_
    · simp [ContractState.getParticipants]
    · intro i found
      simpa [@eq_comm _ node.owningKey] using modification_completes_iff ready found
  | accept id =>
    refine completes_iff_holds ready modifications (modifications_single ready.reachable) ?_ rfl ?_
    · simp [ContractState.getParticipants]
    · intro i found
      simpa [@eq_comm _ node.owningKey] using acceptance_completes_iff ready found
  | killProposal id =>
    refine completes_iff_holds ready proposals (proposals_single ready.reachable) ?_ rfl ?_
    · simp [ContractState.getParticipants]
    · intro i found
      have role := ready.ours _ (lookup_ok found).1
      exact iff_of_true (kill_completes ready first found rfl rfl (fun _ => rfl)) role
  | killModification id =>
    refine completes_iff_holds ready modifications (modifications_single ready.reachable) ?_ rfl ?_
    · simp [ContractState.getParticipants]
    · intro i found
      have role := ready.ours _ (lookup_ok found).1
      exact iff_of_true (kill_completes ready first found rfl rfl (fun _ => rfl)) role

section Modification

def bobModifies : Started := ⟨bob, .modify 7 (some 8) (some 8), 8⟩

theorem bob_ready : Ready twoNodes opened bobModifies :=
  ⟨replay_reachable (next twoNodes) (fun _ _ _ hs => ⟨trivial, hs⟩) proposing (.initial rfl)
    (by decide), ⟨rfl, rfl⟩, by decide, by decide⟩

theorem who_can_do_what_opened : Ready twoNodes opened bobModifies ∧
    ((∃ stx counterparty, Completes twoNodes opened bobModifies 0 stx counterparty) ↔
      Entitled twoNodes opened bob bobModifies.start) ∧
    (∀ stx counterparty, Completes twoNodes opened bobModifies 0 stx counterparty →
      Sealed bobModifies stx counterparty) ∧
    ((¬ ∃ stx counterparty, Completes twoNodes opened bobModifies 0 stx counterparty) →
      Unchanged twoNodes opened (through twoNodes opened bobModifies 0)) :=
  ⟨bob_ready, who_can_do_what bob_ready (by decide) (by decide) (by decide)⟩

end Modification

end EnergyMarket.Completion
