/- Module: EnergyMarket/Progress
   digest: When something can still be done to a deal, and by whom. -/

import EnergyMarket.Sequential

set_option autoImplicit false
set_option relaxedAutoImplicit false

namespace EnergyMarket.Progress
open EnergyMarket.Library.Runs EnergyMarket.Library.Utxo EnergyMarket.States
open EnergyMarket.Transactions EnergyMarket.Ledger EnergyMarket.Flows EnergyMarket.Identity
open EnergyMarket.Negotiation EnergyMarket.Network EnergyMarket.Chronicle EnergyMarket.Agreement
open EnergyMarket.Notaries EnergyMarket.Completion EnergyMarket.Market EnergyMarket.Trading
open EnergyMarket.Listings EnergyMarket.Sequential

section Market

variable {I P T : Type} {R : Rules P} {M : Deals I P T} {id : I} {d : Deal P T}

def Room (R : Rules P) (M : Deals I P T) (q : P) (phase : Phase) : Prop :=
  (shown M q phase).ncard ≤ R.page

def Open (R : Rules P) (M : Deals I P T) (id : I) : Prop :=
  ∃ who newId m, Permitted R M ⟨who, newId, .move id m⟩ ∧ InPage R M ⟨who, newId, .move id m⟩

/-- The party whose turn it is has room, or the other one has and kills find their notary. -/
def Leeway (R : Rules P) (M : Deals I P T) (d : Deal P T) : Prop :=
  match d.phase with
  | .proposed => Room R M d.seller .proposed ∨ R.kills ∧ Room R M d.buyer .proposed
  | .modified => Room R M d.buyer .modified ∨ R.kills ∧ Room R M d.seller .modified
  | .traded | .killed => False

theorem leeway_of_open (here : M id = some d) (h : Open R M id) : Leeway R M d := by
  obtain ⟨who, newId, m, ⟨kills, d', here', leaves, allowed⟩, page⟩ := h
  obtain rfl : d = d' := Option.some.inj (here.symm.trans here')
  unfold Leeway
  rw [leaves]
  cases m with
  | modify terms =>
    obtain rfl : d.seller = who := allowed
    exact Or.inl page
  | accept =>
    obtain rfl : d.buyer = who := allowed
    exact Or.inl page
  | killProposal =>
    rcases allowed with rfl | rfl
    · exact Or.inr ⟨kills rfl, page⟩
    · exact Or.inl page
  | killModification =>
    rcases allowed with rfl | rfl
    · exact Or.inl page
    · exact Or.inr ⟨kills rfl, page⟩

theorem open_of_leeway (here : M id = some d) (h : Leeway R M d) : Open R M id := by
  have unkilled : ∀ m : Move T, m.enters ≠ .killed → m.enters = .killed → R.kills :=
    fun m other same => absurd same other
  unfold Leeway at h
  cases phased : d.phase with
  | proposed =>
    rw [phased] at h
    rcases h with room | ⟨kills, room⟩
    · exact ⟨d.seller, id, .modify d.terms, ⟨unkilled _ (by simp [Move.enters]), d, here, phased,
        rfl⟩, room⟩
    · exact ⟨d.buyer, id, .killProposal, ⟨fun _ => kills, d, here, phased, Or.inl rfl⟩, room⟩
  | modified =>
    rw [phased] at h
    rcases h with room | ⟨kills, room⟩
    · exact ⟨d.buyer, id, .accept, ⟨unkilled _ (by simp [Move.enters]), d, here, phased, rfl⟩, room⟩
    · exact ⟨d.seller, id, .killModification, ⟨fun _ => kills, d, here, phased, Or.inr rfl⟩, room⟩
  | traded | killed =>
    rw [phased] at h
    exact absurd h not_false

end Market

def Movable (map : NetworkMap) (w : NetworkState) (id : UniqueIdentifier) : Prop :=
  ∃ e m choice stx counterparty, operationOf e.start = some (.move id m) ∧ Ready map w e ∧
    Completes map w e choice stx counterparty

def startOf (id : UniqueIdentifier) : Move Terms → FlowStart
  | .modify (amount, unitPrice) => .modify id amount unitPrice
  | .accept => .accept id
  | .killProposal => .killProposal id
  | .killModification => .killModification id

variable {map : NetworkMap} {w : NetworkState} {id : UniqueIdentifier} {d : Deal PublicKey Terms}

theorem operationOf_startOf (m : Move Terms) : operationOf (startOf id m) = some (.move id m) := by
  cases m <;> rfl

private theorem exists_fresh (w : NetworkState) : ∃ newId, Fresh w newId := by
  obtain ⟨newId, unused⟩ := Infinite.exists_notMem_finset (w.started.map Started.newId).toFinset
  refine ⟨newId, fun e he same => unused ?_⟩
  rw [List.mem_toFinset, ← same]
  exact List.mem_map_of_mem he

private theorem deal_nodes (h : Reachable (network map) always w)
    (here : dealsOf w.ledger id = some d) {who : PublicKey} (concerns : d.concerns who) :
    ∃ q ∈ map.nodes, q.owningKey = who := by
  obtain ⟨r, s, unspent, -, deal⟩ := dealsOf_some (ids_of_rule (sound h).orderly) here
  obtain ⟨es, story, -⟩ := (chronicled h).created _ _ unspent.1
  obtain ⟨first, rest, peer, -, opening⟩ := story.opening
  obtain ⟨q, known, same⟩ := List.any_eq_true.mp opening.reached
  have sides := between_deal opening.between deal
  rcases concerns with rfl | rfl
  · exact ⟨first.node, opening.known, sides.1.symm⟩
  · exact ⟨q, known, (sides.2.trans (Party.equals_iff.mp same)).symm⟩

private theorem movable_iff_open (h : Reachable (network map) always w) (quiet : Quiet w)
    (here : dealsOf w.ledger id = some d) :
    Movable map w id ↔ Open (rulesOf map) (dealsOf w.ledger) id := by
  constructor
  · rintro ⟨e, m, choice, stx, counterparty, moves, ready, completes⟩
    obtain ⟨q, asked, granted, -⟩ := completes_granted ready completes
    obtain rfl : ⟨e.node.owningKey, e.newId, .move id m⟩ = q := by
      simpa [requestOf, moves] using asked
    exact ⟨_, _, m, granted⟩
  · rintro ⟨who, newId, m, permitted, page⟩
    have allows := permitted.2
    obtain ⟨d', here', -, allowed⟩ := allows
    obtain rfl : d = d' := Option.some.inj (here.symm.trans here')
    have concerns : d.concerns who := by
      cases m with
      | modify terms => exact Or.inr allowed
      | accept => exact Or.inl allowed
      | killProposal | killModification => exact allowed
    obtain ⟨q, known, rfl⟩ := deal_nodes h here concerns
    obtain ⟨drawn, fresh⟩ := exists_fresh w
    have ready : Ready map w ⟨q, startOf id m, drawn⟩ := ⟨h, quiet, known, fresh⟩
    have asked : requestOf ⟨q, startOf id m, drawn⟩ = some ⟨q.owningKey, drawn, .move id m⟩ := by
      simp [requestOf, operationOf_startOf]
    have runs : ∃ stx counterparty, Completes map w ⟨q, startOf id m, drawn⟩ 0 stx counterparty :=
      granted_completes ready asked permitted page
    obtain ⟨stx, counterparty, completes⟩ := runs
    exact ⟨_, m, 0, stx, counterparty, operationOf_startOf m, ready, completes⟩

/-- With nothing under way, a deal can still move exactly where it is open and the party
whose turn it is, or for a kill the other one, has no more than a page to look through. -/
theorem deals_move_iff (h : Reachable (network map) always w) (quiet : Quiet w)
    (here : dealsOf w.ledger id = some d) :
    Movable map w id ↔ Leeway (rulesOf map) (dealsOf w.ledger) d :=
  (movable_iff_open h quiet here).trans ⟨leeway_of_open here, open_of_leeway here⟩

private theorem opened_deal :
    dealsOf opened.ledger 7 = some ⟨1, 2, (some 10, some 10), .proposed⟩ := rfl

theorem deals_move_iff_bob : Quiet opened ∧ (Movable twoNodes opened 7 ↔
    Leeway (rulesOf twoNodes) (dealsOf opened.ledger) ⟨1, 2, (some 10, some 10), .proposed⟩) :=
  ⟨bob_ready.quiet, deals_move_iff bob_ready.reachable bob_ready.quiet opened_deal⟩

end EnergyMarket.Progress
