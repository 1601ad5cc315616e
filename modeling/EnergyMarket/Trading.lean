/- Module: EnergyMarket/Trading
   digest: The deals that a ledger records, and the runs of the market behind honest runs. -/

import EnergyMarket.CommitOrder
import EnergyMarket.Market

set_option autoImplicit false
set_option relaxedAutoImplicit false

namespace EnergyMarket.Trading
open EnergyMarket.Library.Runs EnergyMarket.Library.Utxo EnergyMarket.Library.LinearHistory
open EnergyMarket.States EnergyMarket.Transactions EnergyMarket.Ledger EnergyMarket.Flows
open EnergyMarket.Drafts EnergyMarket.Vault EnergyMarket.Identity EnergyMarket.Negotiation
open EnergyMarket.Network EnergyMarket.Chronicle EnergyMarket.Notaries EnergyMarket.Contention
open EnergyMarket.Completion EnergyMarket.CommitOrder EnergyMarket.Market

abbrev Terms := Double × Double

def dealOf : ContractState → Option (Deal PublicKey Terms)
  | .proposal s => some ⟨s.buyer.owningKey, s.seller.owningKey, (s.amount, s.unitPrice), .proposed⟩
  | .modify s => some ⟨s.buyer.owningKey, s.seller.owningKey, (s.amount, s.unitPrice), .modified⟩
  | .trade s => some ⟨s.buyer.owningKey, s.seller.owningKey, (s.amount, s.unitPrice), .traded⟩
  | .kill s => some ⟨s.buyer.owningKey, s.seller.owningKey, (s.amount, s.unitPrice), .killed⟩
  | .foreign _ => none

/-- The deal that a linear id stands for is the last state of its history. -/
def dealsOf (L : List SignedTransaction) : Deals UniqueIdentifier PublicKey Terms := fun id =>
  (history ports key L id).getLast?.bind (fun a => dealOf a.2.data)

/-- What the flows ask of the market: a proposal is a buyer's, to somebody. -/
def operationOf : FlowStart → Option (Operation UniqueIdentifier PublicKey Terms)
  | .propose (some true) amount unitPrice (some peer) =>
    some (.propose peer.owningKey (amount, unitPrice))
  | .propose .. => none
  | .modify id newAmount newUnitPrice => some (.move id (.modify (newAmount, newUnitPrice)))
  | .accept id => some (.move id .accept)
  | .killProposal id => some (.move id .killProposal)
  | .killModification id => some (.move id .killModification)

def requestOf (e : Started) : Option (Request UniqueIdentifier PublicKey Terms) :=
  (operationOf e.start).map (fun operation => ⟨e.node.owningKey, e.newId, operation⟩)

def rulesOf (map : NetworkMap) : Rules PublicKey where
  member k := ∃ q ∈ map.nodes, q.owningKey = k
  opens := (proposalNotary map).isSome
  kills := FirstProposes map
  page := defaultPageSize

variable {map : NetworkMap} {w w' : NetworkState} {L : List SignedTransaction}
variable {stx signed : SignedTransaction} {id : UniqueIdentifier} {r : StateRef}
variable {s o : TransactionState ContractState} {d : Deal PublicKey Terms} {e : Started}
variable {hub : ServiceHub} {counterparty : Party}

theorem phase_of_deal {s : ContractState} (h : dealOf s = some d) : phase s = some d.phase := by
  cases s <;> simp only [dealOf, reduceCtorEq, Option.some.injEq] at h <;> subst h <;> rfl

theorem member_iff {q : Party} : (rulesOf map).member q.owningKey ↔ reaches map q = true := by
  simp only [rulesOf, reaches, List.any_eq_true, Party.equals_iff, @eq_comm _ q.owningKey]

private theorem dealsOf_created (outputs : keyedOutputs ports key stx = [o])
    (ho : key o = some id) :
    dealsOf (L ++ [stx]) = Function.update (dealsOf L) id (dealOf o.data) := by
  obtain ⟨j, -, grown⟩ := history_created (L := L) outputs
  funext other
  by_cases same : other = id
  · subst same
    simp [dealsOf, grown, ho]
  · have apart : key o ≠ some other := fun h => same (Option.some.inj (ho.symm.trans h)).symm
    simp [dealsOf, grown, apart, same]

theorem dealsOf_unspent (ids : ports.Ledger idRule L) (unspent : ports.Unspent L r s)
    (keyed : key s = some id) : dealsOf L id = dealOf s.data := by
  have tip := ((threaded_ids ids id).tip r s keyed).mp unspent
  simp [dealsOf, tip]

theorem dealsOf_some (ids : ports.Ledger idRule L) (here : dealsOf L id = some d) :
    ∃ r s, ports.Unspent L r s ∧ key s = some id ∧ dealOf s.data = some d := by
  obtain ⟨⟨r, s⟩, last, deal⟩ := Option.bind_eq_some_iff.mp here
  have keyed := (mem_history.mp (List.mem_of_getLast? last)).2
  exact ⟨r, s, ((threaded_ids ids id).tip r s keyed).mpr last, keyed, deal⟩

theorem dealsOf_none (unopened : ∀ a ∈ ports.created L, key a.2 ≠ some id) :
    dealsOf L id = none := by
  have unused : history ports key L id = [] := by
    apply List.filter_eq_nil_iff.mpr
    intro a ha same
    exact unopened a ha (of_decide_eq_true same)
  simp [dealsOf, unused]

theorem book_last (id : UniqueIdentifier) :
    (bookOf L id).getLast? = (dealsOf L id).map Deal.phase := by
  have phases := congrArg List.getLast? (history_phases (L := L) id)
  simp only [List.getLast?_map, Option.map_map] at phases
  cases tip : (history ports key L id).getLast? with
  | none => simpa [dealsOf, tip] using phases.symm
  | some a =>
    obtain ⟨last, entered, same⟩ : ∃ last, (bookOf L id).getLast? = some last ∧
        some last = phase a.2.data := by
      simpa [tip, Option.map_eq_some_iff] using phases.symm
    cases deal : dealOf a.2.data with
    | none => cases state : a.2.data <;> simp [state, dealOf, phase] at deal same
    | some d =>
      have entering := same.trans (phase_of_deal deal)
      simp [dealsOf, tip, deal, entered, Option.some.inj entering]

theorem book_effect {q : Request UniqueIdentifier PublicKey Terms}
    (rule : ports.Ledger negotiationRule (L ++ [stx]))
    (permitted : Permitted (rulesOf map) (dealsOf L) q)
    (effected : dealsOf (L ++ [stx]) = effect (dealsOf L) q) :
    bookOf (L ++ [stx]) = Function.update (bookOf L) q.on (bookOf L q.on ++ [q.enters]) := by
  obtain ⟨before, spendable, admitted⟩ := rule.at (k := L.length) (t := stx) (by simp)
  rw [List.take_left] at before spendable admitted
  obtain ⟨d, here, entered⟩ := effect_on permitted
  have last : (bookOf (L ++ [stx]) q.on).getLast? = some q.enters := by
    rw [book_last, effected, here, Option.map_some, entered]
  -- A request changes the phase of its deal, so that its entry in the book changes too.
  have moved : bookOf (L ++ [stx]) q.on ≠ bookOf L q.on := by
    intro same
    have follows := permitted_follows permitted
    rw [← book_last, ← same, last] at follows
    cases enters : q.enters <;> simp [enters, Phase.follows] at follows
  rcases ledger_step (ids_of_rule before) spendable admitted with same | ⟨⟨id, next⟩, -, grown⟩
  · exact absurd (congrFun same q.on) moved
  · have on : q.on = id := by
      by_contra off
      exact moved (by rw [grown, Function.update_of_ne off])
    subst on
    rw [grown, Function.update_self, List.getLast?_append, List.getLast?_singleton] at last
    have same : next = q.enters := by simpa using last
    rw [grown, same]

/-- A draft consumes states with stories, unspent ones, and its counterparty is another
node, which has checked it. -/
structure Admissible (map : NetworkMap) (L : List SignedTransaction) (e : Started)
    (tx : LedgerTransaction) (counterparty : Party) : Prop where
  ids : ports.Ledger idRule L
  unused : dealsOf L e.newId = none
  storied : ∀ i ∈ tx.inputs, relevant e.node i.state.data = true ∧ ∃ es, Story map es i.state
  unspent : ∀ i ∈ tx.inputs, ports.Unspent L i.ref i.state
  reached : reaches map counterparty = true
  apart : counterparty.owningKey ≠ e.node.owningKey
  checked : e.start.flow.checkTransaction e.node tx = .ok ()

theorem between_deal {buyer seller : Party} {s : ContractState} (between : Between buyer seller s)
    (deal : dealOf s = some d) : d.buyer = buyer.owningKey ∧ d.seller = seller.owningKey := by
  cases s with
  | foreign f => cases between
  | proposal p | modify p | kill p =>
    obtain ⟨⟨buyer, seller⟩, -, -⟩ := between
    obtain rfl := Option.some.inj deal
    exact ⟨Party.equals_iff.mp buyer, Party.equals_iff.mp seller⟩
  | trade t =>
    obtain ⟨buyer, seller⟩ := between
    obtain rfl := Option.some.inj deal
    exact ⟨Party.equals_iff.mp buyer, Party.equals_iff.mp seller⟩

theorem relevant_deal {es : List Started} {q : Party} (story : Story map es s)
    (deal : dealOf s.data = some d) : relevant q s.data = true ↔ d.concerns q.owningKey := by
  obtain ⟨first, rest, peer, -, opening⟩ := story.opening
  obtain ⟨buyer, seller⟩ := between_deal opening.between deal
  rw [opening.between.relevant_iff, Party.equals_iff, Party.equals_iff, ← buyer, ← seller]
  exact Iff.rfl

private theorem negotiators_deal {es : List Started} {proposer proposee : Party}
    (story : Story map es s)
    (deal : dealOf s.data = some d) (roles : s.data.negotiators = [proposer, proposee]) :
    d.buyer = proposer.owningKey ∧ d.seller = proposee.owningKey := by
  obtain ⟨first, rest, peer, -, opening⟩ := story.opening
  have between := opening.between
  obtain ⟨buyer, seller⟩ := between_deal between deal
  cases state : s.data with
  | proposal p | modify p =>
    rw [state] at between roles
    obtain ⟨-, ours, theirs⟩ := between
    rw [Party.equals_iff] at ours theirs
    obtain ⟨rfl, rfl⟩ : p.proposer = proposer ∧ p.proposee = proposee := by
      simpa [ContractState.negotiators] using roles
    exact ⟨buyer.trans ours.symm, seller.trans theirs.symm⟩
  | trade | kill | foreign => simp [state, ContractState.negotiators] at roles

theorem proposal_parties {es : List Started} {p : ProposalState} {notary : Party}
    (story : Story map es ⟨.proposal p, notary⟩) :
    p.buyer.owningKey = p.proposer.owningKey ∧ p.seller.owningKey = p.proposee.owningKey :=
  negotiators_deal story rfl rfl

theorem modify_parties {es : List Started} {m : ModifyState} {notary : Party}
    (story : Story map es ⟨.modify m, notary⟩) :
    m.buyer.owningKey = m.proposer.owningKey ∧ m.seller.owningKey = m.proposee.owningKey :=
  negotiators_deal story rfl rfl

theorem draft_outputs {notary : Party} {inputs : List (StateAndRef ContractState)}
    {output : ContractState} {command : CommandData} {signers : List PublicKey}
    (tx : signed.tx = (draft hub notary inputs output command signers).tx)
    (keyed : output.getLinearId = some id) :
    keyedOutputs ports key signed = [⟨output, notary⟩] := by
  simp [keyedOutputs, ports, tx, draft, key, keyed]

private theorem kills_of_same {es : List Started} {notary first : Party}
    (story : Story map es s) (isOpen : s.data.isOpen = true) (at_notary : s.notary = notary)
    (head : map.notaryIdentities.head? = some first)
    (same : notary.owningKey = first.owningKey) : (rulesOf map).kills := by
  have named := open_notary story isOpen
  exact ⟨first, head, s.notary, named, by rw [at_notary]; exact Party.equals_iff.mpr same⟩

private theorem moves {who newId : UniqueIdentifier} {m : Move Terms} {notary notary' : Party}
    {s o : ContractState} (ids : ports.Ledger idRule L)
    (unspent : ports.Unspent L r ⟨s, notary⟩) (old : s.getLinearId = some id)
    (outputs : keyedOutputs ports key signed = [⟨o, notary'⟩]) (new : o.getLinearId = some id)
    (before : dealOf s = some d) (after : dealOf o = some (d.after m)) (leaves : d.phase = m.leaves)
    (allowed : d.allows who m) (kills : m.enters = .killed → (rulesOf map).kills) :
    Permitted (rulesOf map) (dealsOf L) ⟨who, newId, .move id m⟩ ∧
      dealsOf (L ++ [signed]) = effect (dealsOf L) ⟨who, newId, .move id m⟩ := by
  have here : dealsOf L id = some d := (dealsOf_unspent ids unspent old).trans before
  refine ⟨⟨kills, d, here, leaves, allowed⟩, ?_⟩
  rw [dealsOf_created outputs new]
  simp [effect, here, after]

theorem drafted_granted (drafted : Drafted hub e.newId e.start stx counterparty)
    (ours : hub.ourIdentity = e.node) (notaries : hub.notaryIdentities = map.notaryIdentities)
    (h : Admissible map L e stx.tx counterparty) (tx : signed.tx = stx.tx) :
    ∃ q, requestOf e = some q ∧ Permitted (rulesOf map) (dealsOf L) q ∧
      dealsOf (L ++ [signed]) = effect (dealsOf L) q := by
  obtain ⟨node, start, newId⟩ := e
  obtain ⟨us, vault, identities⟩ := hub
  obtain rfl : us = node := ours
  obtain rfl : identities = map.notaryIdentities := notaries
  have storied := h.storied
  have unspent := h.unspent
  have checked := h.checked
  cases drafted with
  | @propose amount unitPrice _ notary known =>
    have named : proposalNotary map = some notary := known
    have granted : Permitted (rulesOf map) (dealsOf L)
        ⟨us.owningKey, newId, .propose counterparty.owningKey (amount, unitPrice)⟩ :=
      ⟨h.unused, Option.isSome_iff_exists.mpr ⟨notary, named⟩, member_iff.mpr h.reached, h.apart⟩
    exact ⟨_, rfl, granted, dealsOf_created (draft_outputs tx rfl) rfl⟩
  | @modify newAmount newUnitPrice input notary ref held role =>
    obtain ⟨-, es, story⟩ := storied _ (List.mem_singleton.mpr rfl)
    have input_unspent := unspent _ (List.mem_singleton.mpr rfl)
    have allowed := (proposal_parties story).2.trans role.symm
    exact ⟨_, rfl, moves h.ids input_unspent rfl (draft_outputs tx rfl) rfl rfl rfl rfl allowed
      (by simp [Move.enters])⟩
  | @accept input notary ref held =>
    obtain ⟨-, es, story⟩ := storied _ (List.mem_singleton.mpr rfl)
    have input_unspent := unspent _ (List.mem_singleton.mpr rfl)
    obtain ⟨m, head, role⟩ := acceptanceCheck_ok_iff.mp checked
    obtain rfl : input = m := by
      simpa [draft, LedgerTransaction.inputsOfType, LedgerTransaction.getInputStates,
        StateClass.cast] using head
    have allowed := (modify_parties story).1.trans (Party.equals_iff.mp role)
    exact ⟨_, rfl, moves h.ids input_unspent rfl (draft_outputs tx rfl) rfl rfl rfl rfl allowed
      (by simp [Move.enters])⟩
  | @killProposal input notary first ref held head same =>
    obtain ⟨concerns, es, story⟩ := storied _ (List.mem_singleton.mpr rfl)
    have input_unspent := unspent _ (List.mem_singleton.mpr rfl)
    have allowed := (relevant_deal story rfl).mp concerns
    exact ⟨_, rfl, moves h.ids input_unspent rfl (draft_outputs tx rfl) rfl rfl rfl rfl allowed
      (fun _ => kills_of_same story rfl rfl head same)⟩
  | @killModification input notary first ref held head same =>
    obtain ⟨concerns, es, story⟩ := storied _ (List.mem_singleton.mpr rfl)
    have input_unspent := unspent _ (List.mem_singleton.mpr rfl)
    have allowed := (relevant_deal story rfl).mp concerns
    exact ⟨_, rfl, moves h.ids input_unspent rfl (draft_outputs tx rfl) rfl rfl rfl rfl allowed
      (fun _ => kills_of_same story rfl rfl head same)⟩

variable {f : Flight}

theorem flight_admissible (h : Reachable (network map) always w) (mem : f ∈ w.flights)
    (finalises : f.Finalises w.ledger) : ∃ hub stx, hub.ourIdentity = f.started.node ∧
      hub.notaryIdentities = map.notaryIdentities ∧
      Drafted hub f.started.newId f.started.start stx f.counterparty ∧ f.stx.tx = stx.tx ∧
      Admissible map w.ledger f.started stx.tx f.counterparty := by
  have orderly := sound h
  obtain ⟨apart, commits⟩ := finalises
  obtain ⟨⟨hub, stx, ours, notaries, vault, drafted, tx⟩, countersigned⟩ :=
    (chronicled h).flights f mem
  have required := drafted_requires drafted
  rw [← tx] at required
  obtain ⟨reached, checked⟩ := countersigned (commits.committable.signed _ required) apart
  refine ⟨hub, stx, ours, notaries, drafted, tx, ids_of_rule orderly.orderly,
    dealsOf_none (orderly.flights f mem).unopened, fun i hi => ?_, fun i hi => ?_, reached, apart,
    tx ▸ checked⟩
  · obtain ⟨relevant, es, story, -⟩ := vault i (drafted_held drafted hi)
    exact ⟨relevant, es, story⟩
  · rw [← tx] at hi
    exact commits.spendable.unspent _ (mem_inputs.mpr hi)

/-- Every commit is a step of the market. -/
theorem commit_granted (h : Reachable (network map) always w) (mem : f ∈ w.flights)
    (finalises : f.Finalises w.ledger) : ∃ q, requestOf f.started = some q ∧
      Permitted (rulesOf map) (dealsOf w.ledger) q ∧
      dealsOf (w.ledger ++ [f.stx.notarised]) = effect (dealsOf w.ledger) q := by
  obtain ⟨hub, stx, ours, notaries, drafted, tx, admissible⟩ := flight_admissible h mem finalises
  exact drafted_granted drafted ours notaries admissible tx

/-- What these starts ask for takes the market from some deals to those of a ledger. -/
def Leads (map : NetworkMap) (M : Deals UniqueIdentifier PublicKey Terms) (es : List Started)
    (L : List SignedTransaction) : Prop :=
  ∃ qs, es.map requestOf = qs.map some ∧ Run (market (rulesOf map)) always M qs (dealsOf L)

/-- The starts behind a ledger are a run of the market. -/
structure Traded (map : NetworkMap) (w : NetworkState) (es : List Started) : Prop where
  order : Committed map w es
  leads : Leads map Market.empty es w.ledger

theorem Leads.commit {M : Deals UniqueIdentifier PublicKey Terms} {es : List Started}
    (before : Leads map M es w.ledger) (h : Reachable (network map) always w)
    (mem : f ∈ w.flights) (finalises : f.Finalises w.ledger) :
    Leads map M (es ++ [f.started]) (w.ledger ++ [f.stx.notarised]) := by
  obtain ⟨qs, asked, run⟩ := before
  obtain ⟨q, ask, granted, effected⟩ := commit_granted h mem finalises
  exact ⟨qs ++ [q], by simp [asked, ask], run.snoc trivial ⟨granted, effected⟩⟩

theorem Traded.run {es : List Started} (h : Traded map w es) (hw : Reachable (network map) always w)
    {as : List Action} (run : Run (network map) always w as w') :
    ∃ later, Traded map w' (es ++ later) := by
  obtain ⟨later, order, leads⟩ := committed_run (P := Leads map Market.empty)
    (fun _ _ _ _ hw _ _ before => before.commit hw) hw h.order h.leads run
  exact ⟨later, order, leads⟩

theorem traded (h : Reachable (network map) always w) : ∃ es, Traded map w es := by
  obtain ⟨as, run⟩ := run_of_reachable h
  have none : Traded map .empty [] := ⟨.empty, [], rfl, .nil⟩
  obtain ⟨es, trades⟩ := none.run (.initial rfl) run
  exact ⟨es, trades⟩

/-- However the flows of honest nodes interleave, their ledger is what the market makes of
the committed starts in the order of their commits; what has been committed by some time
comes before all that is started later. -/
theorem interleavings_trade (h : Reachable (network map) always w) :
    ∃ es, Traded map w es ∧ ∀ as w', Run (network map) always w as w' →
      ∃ later, Traded map w' (es ++ later) := by
  obtain ⟨es, trades⟩ := traded h
  exact ⟨es, trades, fun as w' run => trades.run h run⟩

theorem interleavings_trade_race : Reachable (network twoNodes) always raced ∧
    ∃ es, Traded twoNodes raced es ∧ ∀ as w', Run (network twoNodes) always raced as w' →
      ∃ later, Traded twoNodes w' (es ++ later) :=
  ⟨raced_reachable, interleavings_trade raced_reachable⟩

/-- In every run a deal keeps its buyer and its seller, and one that is traded or killed
keeps its terms for good. -/
theorem deals_final (h : Reachable (network map) always w) {as : List Action}
    (run : Run (network map) always w as w') (here : dealsOf w.ledger id = some d) :
    ∃ d', dealsOf w'.ledger id = some d' ∧ Kept d d' := by
  refine run.invariant (I := fun w' => ∃ d', dealsOf w'.ledger id = some d' ∧ Kept d d') h
    ⟨d, here, .refl d⟩ ?_
  rintro w a w' hw ⟨d₁, here₁, kept₁⟩ - hs
  rcases commit_or_same (stepped hs) with same | ⟨f, mem, finalises, grown⟩
  · exact ⟨d₁, same ▸ here₁, kept₁⟩
  · obtain ⟨q, -, granted, effected⟩ := commit_granted hw mem finalises
    obtain ⟨d₂, here₂, kept₂⟩ := kept_step granted here₁
    exact ⟨d₂, by rw [grown, effected, here₂], kept₁.trans kept₂⟩

private theorem contested_races :
    Run (network twoNodes) always contested [.notarise 0, .notarise 0] raced :=
  replay_run (next twoNodes) (fun _ _ _ _ hs => ⟨trivial, hs⟩) (by decide)

theorem deals_final_race :
    Run (network twoNodes) always contested [.notarise 0, .notarise 0] raced ∧
    ∃ d', dealsOf raced.ledger 7 = some d' ∧ Kept ⟨1, 2, (some 8, some 8), .modified⟩ d' :=
  ⟨contested_races, deals_final contested_reachable contested_races rfl⟩

private theorem kill_last {l : List ContractState} (h : Path l) {κ : KillState}
    (mem : .kill κ ∈ l) : l.getLast? = some (.kill κ) := by
  cases h <;> simp_all

/-- Where the first notary of the network map is not the one that proposals are made under,
no run ever ends a negotiation by a kill. -/
theorem kills_need_first_notary (h : Reachable (network map) always w) {κ : KillState}
    {notary : Party} (created : ports.outputAt w.ledger r = some ⟨.kill κ, notary⟩) :
    FirstProposes map := by
  have orderly := (sound h).orderly
  have mem : (r, ⟨.kill κ, notary⟩) ∈ history ports key w.ledger κ.linearId :=
    mem_history.mpr ⟨created, rfl⟩
  have path := (safe_of_rule orderly κ.linearId).path
  have last := kill_last path (List.mem_map_of_mem mem)
  rw [List.getLast?_map, Option.map_eq_some_iff] at last
  obtain ⟨a, tip, killed⟩ := last
  have here : dealsOf w.ledger κ.linearId = dealOf (.kill κ) := by simp [dealsOf, tip, killed]
  obtain ⟨es, -, qs, -, run⟩ := traded h
  exact kills_of_killed run here rfl

def ended : NetworkState :=
  { contested with
    ledger := contested.ledger ++ [killedModification.notarised]
    flights := contested.flights.take 1
    deliveries := [(bob, 2), (alice, 2)] }

private theorem ended_reachable : Reachable (network twoNodes) always ended :=
  replay_reachable (next twoNodes) (fun _ _ _ hs => ⟨trivial, hs⟩) [.notarise 1]
    contested_reachable (by decide)

private theorem ended_kill : ports.outputAt ended.ledger ⟨2, 0⟩ =
    some ⟨.kill ⟨some 8, some 8, alice, bob, alice, bob, 7⟩, notary⟩ := rfl

theorem kills_need_first_notary_ended :
    Reachable (network twoNodes) always ended ∧ FirstProposes twoNodes :=
  ⟨ended_reachable, kills_need_first_notary ended_reachable ended_kill⟩

end EnergyMarket.Trading
