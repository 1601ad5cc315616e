/- Module: EnergyMarket/Serial
   digest: Every interleaving of flows leaves the ledger of running them one at a time. -/

import EnergyMarket.Progress

set_option autoImplicit false
set_option relaxedAutoImplicit false

namespace EnergyMarket.Serial
open EnergyMarket.Library.Runs EnergyMarket.Library.Utxo EnergyMarket.Library.LinearHistory
open EnergyMarket.States EnergyMarket.Transactions EnergyMarket.Contract EnergyMarket.Ledger
open EnergyMarket.Flows EnergyMarket.Drafts EnergyMarket.Vault EnergyMarket.Identity
open EnergyMarket.Negotiation EnergyMarket.Network EnergyMarket.Chronicle EnergyMarket.Agreement
open EnergyMarket.Notaries EnergyMarket.Lookups EnergyMarket.Completion EnergyMarket.Contention
open EnergyMarket.CommitOrder EnergyMarket.Market EnergyMarket.Trading EnergyMarket.Listings
open EnergyMarket.Sequential EnergyMarket.Progress

def inTurn (map : NetworkMap) (es : List Started) : NetworkState :=
  es.foldl (fun w e => through map w e 0) .empty

/-- No node has more than a page of open proposals, nor of open modifications. -/
def Roomy (map : NetworkMap) (w : NetworkState) (_ : Action) : Prop :=
  ∀ q ∈ map.nodes, ∀ phase, phase = .proposed ∨ phase = .modified →
    (shown (dealsOf w.ledger) q.owningKey phase).ncard ≤ (rulesOf map).page

variable {map : NetworkMap} {w w' : NetworkState} {e : Started} {es : List Started} {f : Flight}
variable {hub : ServiceHub} {stx : SignedTransaction} {counterparty : Party} {choice : Nat}

private theorem inTurn_snoc : inTurn map (es ++ [e]) = through map (inTurn map es) e 0 := by
  rw [inTurn, List.foldl_append]
  rfl

private theorem built_again (choice : Nat) (ready : Ready map w e)
    (drafted : Drafted hub e.newId e.start stx counterparty) (ours : hub.ourIdentity = e.node)
    (notaries : hub.notaryIdentities = map.notaryIdentities)
    (admissible : Admissible map w.ledger e stx.tx counterparty)
    (proposals : WithinPage ProposalState (w.hub map e.node))
    (modifications : WithinPage ModifyState (w.hub map e.node)) :
    e.start.call (w.hub map e.node) choice e.newId = .ok (stx, counterparty) := by
  have held : ∀ i ∈ stx.tx.inputs, i ∈ (w.hub map e.node).vault := fun i hi =>
    ready.held.mpr ⟨admissible.unspent i hi, (admissible.storied i hi).1⟩
  obtain ⟨node, start, newId⟩ := e
  obtain ⟨us, vault, identities⟩ := hub
  obtain rfl : us = node := ours
  obtain rfl : identities = map.notaryIdentities := notaries
  have oneProposal : ∀ id, (candidates ProposalState (w.hub map us).vault id).length ≤ 1 :=
    fun id => proposals_single ready.reachable
  have oneModification : ∀ id, (candidates ModifyState (w.hub map us).vault id).length ≤ 1 :=
    fun id => modifications_single ready.reachable
  cases drafted with
  | propose named => exact proposal_call named
  | @modify newAmount newUnitPrice input notary ref _ role =>
    have found : lookup ProposalState "proposal not found" (w.hub map us) input.linearId choice =
        .ok ⟨⟨input, notary⟩, ref⟩ :=
      lookup_held proposals (oneProposal _) (held _ (List.mem_singleton.mpr rfl)) rfl
    exact (modification_call found).trans (if_pos role)
  | @accept input notary ref =>
    have found : lookup ModifyState "Proposal not found" (w.hub map us) input.linearId choice =
        .ok ⟨⟨input, notary⟩, ref⟩ :=
      lookup_held modifications (oneModification _) (held _ (List.mem_singleton.mpr rfl)) rfl
    exact acceptance_call found
  | @killProposal input notary first ref _ head same =>
    have found : lookup ProposalState "Proposal not found" (w.hub map us) input.linearId choice =
        .ok ⟨⟨input, notary⟩, ref⟩ :=
      lookup_held proposals (oneProposal _) (held _ (List.mem_singleton.mpr rfl)) rfl
    have head' : (w.hub map us).notaryIdentities.head? = some first := head
    refine (killInitiator_call found).trans ?_
    simp only [head', Party.equals_iff.mpr same, if_true]
    rfl
  | @killModification input notary first ref _ head same =>
    have found : lookup ModifyState "Proposal not found" (w.hub map us) input.linearId choice =
        .ok ⟨⟨input, notary⟩, ref⟩ :=
      lookup_held modifications (oneModification _) (held _ (List.mem_singleton.mpr rfl)) rfl
    have head' : (w.hub map us).notaryIdentities.head? = some first := head
    refine (killInitiator_call found).trans ?_
    simp only [head', Party.equals_iff.mpr same, if_true]
    rfl

theorem through_built (ready : Ready map w e)
    (built : e.start.call (w.hub map e.node) choice e.newId = .ok (stx, counterparty))
    (completes : Completes map w e choice stx counterparty) :
    through map w e choice = after w e counterparty
      (SignedTransaction.notarised { stx with sigs := stx.sigs ++ [counterparty.owningKey] }) := by
  rcases through_cases map e choice ready.quiet with
    ⟨stx', counterparty', signed, built', answer, -, ran⟩ | ⟨started, stopped⟩
  · obtain ⟨rfl, rfl⟩ := Prod.mk.inj (Except.ok.inj (built'.symm.trans built))
    obtain rfl := answer_signs answer
    exact ran
  · obtain ⟨-, signed, -, ran⟩ := completes
    have grown := congrArg (fun w => w.ledger.length) (stopped.symm.trans ran)
    simp [after] at grown

/-- Running these starts in turn leads to a quiet network with this ledger. -/
structure InStep (map : NetworkMap) (es : List Started) (L : List SignedTransaction) : Prop where
  reachable : Reachable (network map) always (inTurn map es)
  quiet : Quiet (inTurn map es)
  ledger : (inTurn map es).ledger = L
  started : (inTurn map es).started = es

theorem InStep.none : InStep map [] [] := ⟨.initial rfl, ⟨rfl, rfl⟩, rfl, rfl⟩

theorem InStep.granted {L : List SignedTransaction}
    {q : Request UniqueIdentifier PublicKey Terms} (h : InStep map es L)
    (known : e.node ∈ map.nodes) (fresh : ∀ e' ∈ es, e'.newId ≠ e.newId)
    (asked : requestOf e = some q) (permitted : Permitted (rulesOf map) (dealsOf L) q)
    (inPage : InPage (rulesOf map) (dealsOf L) q) :
    ∃ L', InStep map (es ++ [e]) L' ∧ dealsOf L' = effect (dealsOf L) q := by
  obtain rfl := h.ledger
  have ready : Ready map (inTurn map es) e := by
    refine ⟨h.reachable, h.quiet, known, ?_⟩
    unfold Fresh
    rw [h.started]
    exact fresh
  have runs : ∃ stx counterparty, Completes map (inTurn map es) e 0 stx counterparty :=
    granted_completes ready asked permitted inPage
  obtain ⟨stx, counterparty, completes⟩ := runs
  obtain ⟨q', asked', -, effected⟩ := completes_granted ready completes
  obtain rfl : q' = q := Option.some.inj (asked'.symm.trans asked)
  obtain ⟨-, signed, -, ran⟩ := completes
  refine ⟨_, ⟨?_, ?_, rfl, ?_⟩, ?_⟩
  · rw [inTurn_snoc]
    exact through_reachable (fun _ _ _ => trivial) h.reachable
  · rw [inTurn_snoc, ran]
    exact ⟨rfl, rfl⟩
  · rw [inTurn_snoc, ran]
    exact congrArg (· ++ [e]) h.started
  · rw [inTurn_snoc]
    exact effected

/-- A request of a node, for what it finds on a page. -/
def Askable (map : NetworkMap) (M : Deals UniqueIdentifier PublicKey Terms)
    (q : Request UniqueIdentifier PublicKey Terms) : Prop :=
  (rulesOf map).member q.who ∧ InPage (rulesOf map) M q

private theorem newId_of_asked {q : Request UniqueIdentifier PublicKey Terms}
    (asked : requestOf e = some q) : q.newId = e.newId := by
  obtain ⟨operation, -, rfl⟩ := Option.map_eq_some_iff.mp asked
  rfl

/-- What a node may ask of the market, it can ask for by a start. -/
theorem exists_start {M : Deals UniqueIdentifier PublicKey Terms}
    {q : Request UniqueIdentifier PublicKey Terms} (member : (rulesOf map).member q.who)
    (permitted : Permitted (rulesOf map) M q) : ∃ e, e.node ∈ map.nodes ∧ requestOf e = some q := by
  obtain ⟨who, newId, operation⟩ := q
  obtain ⟨node, known, rfl⟩ := member
  cases operation with
  | propose peer terms =>
    obtain ⟨-, -, ⟨other, -, rfl⟩, -⟩ := permitted
    exact ⟨⟨node, .propose (some true) terms.1 terms.2 (some other), newId⟩, known, rfl⟩
  | move id m =>
    refine ⟨⟨node, startOf id m, newId⟩, known, ?_⟩
    rw [requestOf, operationOf_startOf]
    rfl

/-- Nothing that the market allows is out of reach: every run of requests that nodes can
make, under identifiers of their own, is what the network makes of as many starts. -/
theorem market_realised {qs : List (Request UniqueIdentifier PublicKey Terms)}
    {M : Deals UniqueIdentifier PublicKey Terms}
    (run : Run (market (rulesOf map)) (Askable map) Market.empty qs M)
    (distinct : (qs.map Request.newId).Nodup) :
    ∃ es L, es.map requestOf = qs.map some ∧ InStep map es L ∧ dealsOf L = M := by
  induction run with
  | nil => exact ⟨[], [], rfl, InStep.none, rfl⟩
  | @snoc M M' qs q _ askable step ih =>
    obtain ⟨permitted, rfl⟩ := step
    rw [List.map_append, List.nodup_append] at distinct
    obtain ⟨distinct', -, apart⟩ := distinct
    obtain ⟨es, L, asked, inStep, rfl⟩ := ih distinct'
    obtain ⟨e, known, asks⟩ := exists_start askable.1 permitted
    have fresh : ∀ e' ∈ es, e'.newId ≠ e.newId := by
      intro e' he' same
      have mem : requestOf e' ∈ qs.map some := asked ▸ List.mem_map_of_mem he'
      obtain ⟨q', hq', asks'⟩ := List.mem_map.mp mem
      have own := newId_of_asked asks'.symm
      refine apart q'.newId (List.mem_map_of_mem hq') q.newId (by simp) ?_
      rw [own, same, newId_of_asked asks]
    obtain ⟨L', inStep', effected⟩ := inStep.granted known fresh asks permitted askable.2
    exact ⟨es ++ [e], L', by simp [asked, asks], inStep', effected⟩

def offers : Request UniqueIdentifier PublicKey Terms := ⟨1, 7, .propose 2 (some 10, some 10)⟩

private theorem offers_run : Run (market (rulesOf twoNodes)) (Askable twoNodes) Market.empty
    [offers] (effect Market.empty offers) := by
  have alices : (rulesOf twoNodes).member 1 := ⟨alice, by decide, rfl⟩
  have bobs : (rulesOf twoNodes).member 2 := ⟨bob, by decide, rfl⟩
  have permitted : Permitted (rulesOf twoNodes) Market.empty offers := ⟨rfl, rfl, bobs, by decide⟩
  exact .single ⟨alices, trivial⟩ ⟨permitted, rfl⟩

theorem market_realised_offer : ∃ es L, es.map requestOf = [offers].map some ∧
    InStep twoNodes es L ∧ dealsOf L = effect Market.empty offers :=
  market_realised offers_run (by decide)

theorem InStep.commit (h : InStep map es w.ledger) (hw : Reachable (network map) always w)
    {a : Action} (roomy : Roomy map w a) (order : Committed map w es) (mem : f ∈ w.flights)
    (finalises : f.Finalises w.ledger) :
    InStep map (es ++ [f.started]) (w.ledger ++ [f.stx.notarised]) := by
  obtain ⟨hub, stx, ours, notaries, drafted, tx, admissible⟩ := flight_admissible hw mem finalises
  have chronicle := chronicled hw
  have known : f.started.node ∈ map.nodes := chronicle.nodes _ ((sound hw).flights f mem).known
  have fresh : Fresh (inTurn map es) f.started.newId := by
    unfold Fresh
    rw [h.started]
    exact order.apart chronicle.ids mem
  have ready : Ready map (inTurn map es) f.started := ⟨h.reachable, h.quiet, known, fresh⟩
  have admissible' : Admissible map (inTurn map es).ledger f.started stx.tx f.counterparty :=
    h.ledger ▸ admissible
  have roomy' : ∀ phase, phase = .proposed ∨ phase = .modified →
      (shown (dealsOf (inTurn map es).ledger) f.started.node.owningKey phase).ncard ≤
        (rulesOf map).page := by
    rw [h.ledger]
    exact roomy _ known
  have delivered := h.quiet.deliveries
  have built := built_again 0 ready drafted ours notaries admissible'
    ((withinPage_iff h.reachable delivered).mpr (roomy' _ (Or.inl rfl)))
    ((withinPage_iff h.reachable delivered).mpr (roomy' _ (Or.inr rfl)))
  have completes := (completes_iff ready built).mpr
    ⟨admissible.reached, admissible.apart, admissible.checked⟩
  have ran := through_built ready built completes
  have same : { stx with sigs := stx.sigs ++ [f.counterparty.owningKey] } = f.stx := by
    have sigs := finalised_sigs hw mem finalises
    have alone : stx.sigs = [f.started.node.owningKey] := ours ▸ drafted_sigs drafted
    rw [alone, ← tx, List.singleton_append, ← sigs]
  have last : inTurn map (es ++ [f.started]) =
      after (inTurn map es) f.started f.counterparty f.stx.notarised := by
    rw [inTurn_snoc, ← same]
    exact ran
  refine ⟨?_, ?_, ?_, ?_⟩
  · rw [inTurn_snoc]
    exact through_reachable (fun _ _ _ => trivial) h.reachable
  · rw [last]
    exact ⟨rfl, rfl⟩
  · rw [last, ← h.ledger]
    rfl
  · rw [last]
    exact congrArg (· ++ [f.started]) h.started

/-- A run is as good as one of its committed starts in turn: the same ledger, and the same
vaults once everybody has heard of everything. -/
structure Serialized (map : NetworkMap) (w : NetworkState) (es : List Started) : Prop where
  order : Committed map w es
  ledger : (inTurn map es).ledger = w.ledger
  vaults : w.deliveries = [] → ∀ q i,
    i ∈ (w.hub map q).vault ↔ i ∈ ((inTurn map es).hub map q).vault

private theorem InStep.serialized (h : InStep map es w.ledger)
    (hw : Reachable (network map) always w) (order : Committed map w es) : Serialized map w es := by
  refine ⟨order, h.ledger, fun delivered q i => ?_⟩
  rw [mem_vault_iff hw delivered, mem_vault_iff h.reachable h.quiet.deliveries, h.ledger]

/-- As long as no node has more than a page to list, every interleaving is serializable in
the order of its commits, in which what has been committed by some time comes before all
that is started later. -/
theorem runs_serialize (h : Reachable (network map) (Roomy map) w) :
    ∃ es, Serialized map w es ∧ ∀ as w', Run (network map) (Roomy map) w as w' →
      ∃ later, Serialized map w' (es ++ later) := by
  have reached : Reachable (network map) always w := h.mono (fun _ _ _ => trivial)
  obtain ⟨as, run⟩ := run_of_reachable h
  obtain ⟨es, order, inStep⟩ := committed_run (P := InStep map)
    (fun _ _ _ _ hw roomy order before => before.commit hw roomy order) (.initial rfl) .empty
    .none run
  refine ⟨es, inStep.serialized reached order, fun as w' run => ?_⟩
  obtain ⟨later, order', inStep'⟩ := committed_run (P := InStep map)
    (fun _ _ _ _ hw roomy order before => before.commit hw roomy order) reached order inStep run
  exact ⟨later, inStep'.serialized (run.reached reached) order'⟩

private theorem shown_few (L : List SignedTransaction) (q : PublicKey) (phase : Phase) :
    (shown (dealsOf L) q phase).ncard ≤ (ports.created L).length := by
  have among : shown (dealsOf L) q phase ⊆
      (((ports.created L).filterMap (fun a => key a.2)).toFinset : Set UniqueIdentifier) := by
    rintro id ⟨d, here, -⟩
    obtain ⟨a, last, -⟩ := Option.bind_eq_some_iff.mp here
    obtain ⟨created, keyed⟩ := mem_history.mp (List.mem_of_getLast? last)
    rw [List.coe_toFinset]
    exact List.mem_filterMap.mpr ⟨a, mem_created.mpr created, keyed⟩
  calc (shown (dealsOf L) q phase).ncard
      ≤ ((ports.created L).filterMap (fun a => key a.2)).toFinset.card := by
        rw [← Set.ncard_coe_finset]
        exact Set.ncard_le_ncard among (Finset.finite_toSet _)
    _ ≤ ((ports.created L).filterMap (fun a => key a.2)).length := List.toFinset_card_le _
    _ ≤ (ports.created L).length := List.length_filterMap_le _ _

/-- As long as a page of states has not been created, everybody has room. -/
private theorem roomy_of_few {a : Action}
    (few : (ports.created w.ledger).length ≤ defaultPageSize) : Roomy map w a :=
  fun q _ phase _ => (shown_few w.ledger q.owningKey phase).trans few

private theorem raced_roomy : Reachable (network twoNodes) (Roomy twoNodes) raced := by
  refine replay_reachable (fun w a => if (ports.created w.ledger).length ≤ defaultPageSize then
    next twoNodes w a else none) (fun w a w' hs => ?_) race (.initial rfl) (by decide)
  obtain ⟨few, step⟩ := Option.ite_none_right_eq_some.mp hs
  exact ⟨roomy_of_few few, step⟩

theorem runs_serialize_race : Reachable (network twoNodes) (Roomy twoNodes) raced ∧
    ∃ es, Serialized twoNodes raced es ∧
      ∀ as w', Run (network twoNodes) (Roomy twoNodes) raced as w' →
        ∃ later, Serialized twoNodes w' (es ++ later) :=
  ⟨raced_roomy, runs_serialize raced_roomy⟩

end EnergyMarket.Serial
