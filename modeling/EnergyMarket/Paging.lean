/- Module: EnergyMarket/Paging
   digest: Lookups fail on a full vault, and anyone can fill the vault of a node. -/

import EnergyMarket.Completion

set_option autoImplicit false
set_option relaxedAutoImplicit false

namespace EnergyMarket.Paging
open EnergyMarket.Library.Runs EnergyMarket.Library.Utxo EnergyMarket.Library.LinearHistory
open EnergyMarket.States EnergyMarket.Transactions EnergyMarket.Ledger EnergyMarket.Flows
open EnergyMarket.Drafts EnergyMarket.Vault EnergyMarket.Identity EnergyMarket.Negotiation
open EnergyMarket.Network EnergyMarket.Agreement EnergyMarket.Lookups EnergyMarket.Completion

/-- The lookup returns the one state of its class and id, whatever else the vault holds,
and fails only where there is none. -/
structure LookupComplete (α : Type) [StateClass α] (hub : ServiceHub) (id : UniqueIdentifier) :
    Prop where
  returns : ∀ i, candidates α hub.vault id = [i] →
    ∀ notFound choice, lookup α notFound hub id choice = .ok i
  fails : ∀ notFound choice failure, lookup α notFound hub id choice = .error failure →
    candidates α hub.vault id = []

variable {α : Type} [StateClass α] {hub : ServiceHub} {id newId : UniqueIdentifier}
variable {choice : Nat} {map : NetworkMap} {w : NetworkState} {node : Party}

theorem lookupComplete_iff : LookupComplete α hub id ↔
    WithinPage α hub ∨ candidates α hub.vault id = [] := by
  constructor
  · intro complete
    by_contra neither
    obtain ⟨beyond, some_candidate⟩ := not_or.mp neither
    exact some_candidate (complete.fails "" 0 _ (lookup_beyond beyond))
  · rintro (page | none)
    · refine ⟨fun i single notFound choice => lookup_single page single, ?_⟩
      intro notFound choice failure failed
      rw [lookup_within page] at failed
      split at failed
      · cases failed
      · rename_i not_found
        exact findAny_none_iff.mp not_found
    · refine ⟨fun i single => ?_, fun _ _ _ _ => none⟩
      rw [none] at single
      cases single

/-- In every run an id has one candidate at most, and its lookup is complete exactly where
the states of its class in the vault are within a page, or none of them has the id. -/
theorem lookups_complete_iff (h : Reachable (network map) always w) :
    ((candidates ProposalState (w.hub map node).vault id).length ≤ 1 ∧
      (LookupComplete ProposalState (w.hub map node) id ↔
        WithinPage ProposalState (w.hub map node) ∨
          candidates ProposalState (w.hub map node).vault id = [])) ∧
    (candidates ModifyState (w.hub map node).vault id).length ≤ 1 ∧
      (LookupComplete ModifyState (w.hub map node) id ↔
        WithinPage ModifyState (w.hub map node) ∨
          candidates ModifyState (w.hub map node).vault id = []) :=
  ⟨⟨proposals_single h, lookupComplete_iff⟩, modifications_single h, lookupComplete_iff⟩

theorem lookups_complete_iff_race : Reachable (network twoNodes) always raced ∧
    ((candidates ProposalState (raced.hub twoNodes bob).vault 7).length ≤ 1 ∧
      (LookupComplete ProposalState (raced.hub twoNodes bob) 7 ↔
        WithinPage ProposalState (raced.hub twoNodes bob) ∨
          candidates ProposalState (raced.hub twoNodes bob).vault 7 = [])) ∧
    (candidates ModifyState (raced.hub twoNodes bob).vault 7).length ≤ 1 ∧
      (LookupComplete ModifyState (raced.hub twoNodes bob) 7 ↔
        WithinPage ModifyState (raced.hub twoNodes bob) ∨
          candidates ModifyState (raced.hub twoNodes bob).vault 7 = []) :=
  ⟨raced_reachable, lookups_complete_iff raced_reachable⟩

section Flood

def proposesAgain (n : Nat) : Started :=
  ⟨alice, .propose (some true) (some 10) (some 10) (some bob), n⟩

def offerOf (n : Nat) : ProposalState := ⟨some 10, some 10, alice, bob, alice, bob, n⟩

/-- Bob is left with the first n proposals, none of which he has acted on. -/
structure Flooded (n : Nat) (w : NetworkState) : Prop where
  reachable : Reachable (network twoNodes) always w
  quiet : Quiet w
  drawn : ∀ e ∈ w.started, e.newId < n
  open_offers : ∀ k < n, ∃ r notary, ports.Unspent w.ledger r ⟨.proposal (offerOf k), notary⟩

theorem Flooded.step {n : Nat} (h : Flooded n w) :
    Flooded (n + 1) (through twoNodes w (proposesAgain n) 0) := by
  have ready : Ready twoNodes w (proposesAgain n) :=
    ⟨h.reachable, h.quiet, by simp [twoNodes, proposesAgain], fun e he => (h.drawn e he).ne⟩
  have entitled : Entitled twoNodes w alice (proposesAgain n).start :=
    ⟨rfl, bob, rfl, by decide, by decide⟩
  have completes : ∃ stx counterparty, Completes twoNodes w (proposesAgain n) 0 stx counterparty :=
    (proposal_completes_iff ready (by decide)).mpr entitled
  have reachable : Reachable (network twoNodes) always (through twoNodes w (proposesAgain n) 0) :=
    through_reachable (fun _ _ _ => trivial) h.reachable
  obtain ⟨stx, counterparty, built, ⟨tx, sigs⟩, same, ran⟩ := completes
  obtain rfl : tx = stx.tx := same
  have spendable : ports.Spendable w.ledger ⟨stx.tx, sigs⟩ := ready.spendable (call_drafts built)
  have created : ∃ notary, stx.tx.inputs = [] ∧
      stx.tx.outputs = [⟨.proposal (offerOf n), notary⟩] := by
    have drafted : Drafted _ n (.propose (some true) (some 10) (some 10) (some bob)) stx
        counterparty := call_drafts built
    cases drafted with
    | propose => exact ⟨_, rfl, rfl⟩
  obtain ⟨notary, inputs, outputs⟩ := created
  have consumed : ports.consumed ⟨stx.tx, sigs⟩ = [] := by
    simp [Ports.consumed, ports, inputs]
  rw [ran] at reachable ⊢
  refine ⟨reachable, ⟨rfl, rfl⟩, fun e he => ?_, fun k hk => ?_⟩
  · rcases List.mem_append.mp he with old | new
    · exact Nat.lt_succ_of_lt (h.drawn e old)
    · rw [List.mem_singleton.mp new]
      exact Nat.lt_succ_self n
  · rcases Nat.lt_succ_iff_lt_or_eq.mp hk with old | rfl
    · obtain ⟨r, notary, unspent⟩ := h.open_offers k old
      refine ⟨r, notary, (unspent_next (sound h.reachable).orderly spendable).mpr (Or.inl ?_)⟩
      exact ⟨unspent, by simp [consumed]⟩
    · refine ⟨⟨w.ledger.length, 0⟩, notary,
        (unspent_next (sound h.reachable).orderly spendable).mpr (Or.inr ?_)⟩
      exact mem_outputsAt.mpr ⟨rfl, by simp [ports, outputs]⟩

theorem flooded (n : Nat) : ∃ w, Flooded n w := by
  induction n with
  | zero =>
    refine ⟨.empty, .initial rfl, ⟨rfl, rfl⟩, by simp [NetworkState.empty], fun k hk => ?_⟩
    omega
  | succ n ih =>
    obtain ⟨w, h⟩ := ih
    exact ⟨_, h.step⟩

theorem Flooded.held {n k : Nat} (h : Flooded n w) (hk : k < n) :
    ∃ i : StateAndRef ProposalState,
      i.up ∈ (w.hub twoNodes bob).vault ∧ i.state.data.linearId = k := by
  obtain ⟨r, notary, unspent⟩ := h.open_offers k hk
  exact ⟨⟨⟨offerOf k, notary⟩, r⟩,
    (mem_vault_iff h.reachable h.quiet.deliveries).mpr ⟨unspent, rfl⟩, rfl⟩

private theorem Flooded.fills {n : Nat} (h : Flooded n w) :
    n ≤ (ofClass ProposalState (w.hub twoNodes bob).vault).length := by
  have subset : List.range n ⊆
      (ofClass ProposalState (w.hub twoNodes bob).vault).map (fun i => i.state.data.linearId) := by
    intro k hk
    obtain ⟨i, held, same⟩ := h.held (List.mem_range.mp hk)
    have mem : i ∈ ofClass ProposalState (w.hub twoNodes bob).vault :=
      List.mem_filterMap.mpr ⟨_, held, StateAndRef.cast_iff.mpr rfl⟩
    exact List.mem_map.mpr ⟨i, mem, same⟩
  simpa using (List.subperm_of_subset List.nodup_range subset).length_le

/-- Bob does not find the first of 201 proposals that alice has made him. -/
theorem full_vault_hides : ¬ ∀ map w node id, Reachable (network map) always w →
    LookupComplete ProposalState (w.hub map node) id ∧
      LookupComplete ModifyState (w.hub map node) id := by
  intro every
  obtain ⟨w, h⟩ := flooded 201
  have beyond : ¬ WithinPage ProposalState (w.hub twoNodes bob) := by
    have fills := h.fills
    unfold WithinPage defaultPageSize
    omega
  have complete := (every twoNodes w bob 0 h.reachable).1
  have none := (lookupComplete_iff.mp complete).resolve_left beyond
  obtain ⟨i, held, first⟩ := h.held (k := 0) (by decide)
  have candidate : i ∈ candidates ProposalState (w.hub twoNodes bob).vault 0 :=
    mem_candidates.mpr ⟨held, congrArg some first⟩
  rw [none] at candidate
  cases candidate

end Flood

end EnergyMarket.Paging
