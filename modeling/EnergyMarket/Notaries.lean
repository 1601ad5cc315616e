/- Module: EnergyMarket/Notaries
   digest: Three ways of choosing a notary, and the kill flows that pick the wrong one. -/

import EnergyMarket.Chronicle

set_option autoImplicit false
set_option relaxedAutoImplicit false

namespace EnergyMarket.Notaries
open EnergyMarket.Library.Runs EnergyMarket.Library.Utxo EnergyMarket.States
open EnergyMarket.Transactions EnergyMarket.Ledger EnergyMarket.Flows EnergyMarket.Drafts
open EnergyMarket.Vault EnergyMarket.Network EnergyMarket.Chronicle

/-- The state that the lookup of a consuming flow has returned. -/
inductive StartedOn (hub : ServiceHub) (choice : Nat) :
    FlowStart → StateAndRef ContractState → Prop
  | modify {proposalId : UniqueIdentifier} {newAmount newUnitPrice : Double}
      {i : StateAndRef ProposalState}
      (found : lookup ProposalState "proposal not found" hub proposalId choice = .ok i) :
      StartedOn hub choice (.modify proposalId newAmount newUnitPrice) i.up
  | accept {proposalId : UniqueIdentifier} {i : StateAndRef ModifyState}
      (found : lookup ModifyState "Proposal not found" hub proposalId choice = .ok i) :
      StartedOn hub choice (.accept proposalId) i.up
  | killProposal {proposalId : UniqueIdentifier} {i : StateAndRef ProposalState}
      (found : lookup ProposalState "Proposal not found" hub proposalId choice = .ok i) :
      StartedOn hub choice (.killProposal proposalId) i.up
  | killModification {proposalId : UniqueIdentifier} {i : StateAndRef ModifyState}
      (found : lookup ModifyState "Proposal not found" hub proposalId choice = .ok i) :
      StartedOn hub choice (.killModification proposalId) i.up

/-- The two flows that reject a proposal or a modification. -/
def Rejects (start : FlowStart) : Prop :=
  start.flow = .killProposal ∨ start.flow = .killModification

/-- What is built consumes the state under the notary recorded in it, the builder refuses
no input, and a rejection is built at all. -/
structure Served (hub : ServiceHub) (choice : Nat) (newId : UniqueIdentifier)
    (start : FlowStart) (i : StateAndRef ContractState) : Prop where
  built : ∀ stx counterparty, start.call hub choice newId = .ok (stx, counterparty) →
    stx.tx.inputs = [i] ∧ ∃ notary ∈ stx.tx.notary, i.state.notary.equals notary = true
  unrefused : ∀ input builder,
    start.call hub choice newId ≠ .error (.notaryMismatch input builder)
  rejectable : Rejects start → (start.call hub choice newId).isOk = true

def FirstProposes (map : NetworkMap) : Prop :=
  ∃ first ∈ map.notaryIdentities.head?, ∃ notary ∈ proposalNotary map,
    notary.equals first = true

instance (map : NetworkMap) : Decidable (FirstProposes map) :=
  inferInstanceAs (Decidable (∃ first ∈ _, ∃ notary ∈ proposalNotary map, _ = true))

variable {map : NetworkMap} {w : NetworkState} {node : Party} {choice : Nat}
variable {newId proposalId : UniqueIdentifier} {start : FlowStart} {es : List Started}
variable {hub : ServiceHub} {s : TransactionState ContractState} {i : StateAndRef ContractState}

theorem open_notary (h : Story map es s) (isOpen : s.data.isOpen = true) :
    proposalNotary map = some s.notary := by
  induction h with
  | proposed start known reached apart named => exact named
  | modified story start role ih => exact ih rfl
  | traded | killedProposal | killedModification => cases isOpen

theorem StartedOn.found (h : StartedOn hub choice start i) :
    i ∈ hub.vault ∧ i.state.data.isOpen = true := by
  cases h with
  | modify found | accept found | killProposal found | killModification found =>
    exact ⟨(lookup_ok found).1, rfl⟩

theorem held_notary (h : Reachable (network map) always w) (held : i ∈ (w.hub map node).vault)
    (isOpen : i.state.data.isOpen = true) : proposalNotary map = some i.state.notary := by
  obtain ⟨es, story, -⟩ := (chronicled h).created _ _ (vault_resolves held)
  exact open_notary story isOpen

private theorem served_modify {newAmount newUnitPrice : Double} {i : StateAndRef ProposalState}
    (found : lookup ProposalState "proposal not found" hub proposalId choice = .ok i) :
    Served hub choice newId (.modify proposalId newAmount newUnitPrice) i.up := by
  have call : FlowStart.call hub choice newId (.modify proposalId newAmount newUnitPrice) = _ :=
    modification_call found
  refine ⟨fun stx counterparty built => ?_, ?_, by simp [Rejects, FlowStart.flow]⟩
  · rw [call] at built
    split at built
    · obtain ⟨rfl, -⟩ := Prod.mk.inj (Except.ok.inj built)
      exact ⟨rfl, _, rfl, by simp [StateAndRef.up]⟩
    · cases built
  · intro input builder
    rw [call]
    split <;> simp

private theorem served_accept {i : StateAndRef ModifyState}
    (found : lookup ModifyState "Proposal not found" hub proposalId choice = .ok i) :
    Served hub choice newId (.accept proposalId) i.up := by
  have call : FlowStart.call hub choice newId (.accept proposalId) = _ := acceptance_call found
  refine ⟨fun stx counterparty built => ?_, by simp [call], by simp [Rejects, FlowStart.flow]⟩
  rw [call] at built
  obtain ⟨rfl, -⟩ := Prod.mk.inj (Except.ok.inj built)
  exact ⟨rfl, _, rfl, by simp [StateAndRef.up]⟩

/-- A kill flow serves a state exactly where the first notary of its network map is that
of the state. -/
theorem served_kill_iff {α : Type} [StateClass α] {copy : α → KillState} {i : StateAndRef α}
    (found : lookup α "Proposal not found" hub proposalId choice = .ok i)
    (call : start.call hub choice newId = killInitiator α copy hub proposalId choice)
    (rejects : Rejects start) : Served hub choice newId start i.up ↔
      ∃ first ∈ hub.notaryIdentities.head?, i.state.notary.equals first = true := by
  rw [killInitiator_call found] at call
  constructor
  · intro served
    have ok := served.rejectable rejects
    rw [call] at ok
    cases head : hub.notaryIdentities.head? with
    | none => simp [head, Except.isOk, Except.toBool] at ok
    | some first =>
      refine ⟨first, rfl, ?_⟩
      by_contra other
      simp [head, other, Except.isOk, Except.toBool] at ok
  · rintro ⟨first, head, same⟩
    have head' : hub.notaryIdentities.head? = some first := head
    simp only [head', same, if_true] at call
    refine ⟨fun stx counterparty built => ?_, by simp [call], fun _ => by rw [call]; rfl⟩
    rw [call] at built
    obtain ⟨rfl, -⟩ := Prod.mk.inj (Except.ok.inj built)
    exact ⟨rfl, first, rfl, same⟩

/-- In every run, a flow started on an open state serves it, but for a rejection where
the first notary of the network map is not the one that proposals are made under. -/
theorem notaries_agree_iff (h : Reachable (network map) always w)
    (on : StartedOn (w.hub map node) choice start i) :
    Served (w.hub map node) choice newId start i ↔ (Rejects start → FirstProposes map) := by
  obtain ⟨held, isOpen⟩ := on.found
  have named := held_notary h held isOpen
  have first_iff : FirstProposes map ↔
      ∃ first ∈ map.notaryIdentities.head?, i.state.notary.equals first = true := by
    simp [FirstProposes, named]
  rw [first_iff]
  cases on with
  | modify found =>
    exact iff_of_true (served_modify found) (by simp [Rejects, FlowStart.flow])
  | accept found =>
    exact iff_of_true (served_accept found) (by simp [Rejects, FlowStart.flow])
  | @killProposal proposalId i found =>
    have rejects : Rejects (.killProposal proposalId) := Or.inl rfl
    rw [served_kill_iff found rfl rejects]
    exact (imp_iff_right rejects).symm
  | @killModification proposalId i found =>
    have rejects : Rejects (.killModification proposalId) := Or.inr rfl
    rw [served_kill_iff found rfl rejects]
    exact (imp_iff_right rejects).symm

section TwoNotaries

def second : Party := ⟨⟨"Second", "London", "GB"⟩, 4⟩

def secondFirst : NetworkMap := ⟨[alice, bob], [second, notary]⟩

def proposing : List Action :=
  [.start ⟨alice, .propose (some true) (some 10) (some 10) (some bob), 7⟩ 0, .respond 0,
    .notarise 0, .deliver 0, .deliver 0]

def opened : NetworkState :=
  ⟨[proposed], [(alice, 0), (bob, 0)], [], [],
    [⟨alice, .propose (some true) (some 10) (some 10) (some bob), 7⟩]⟩

private theorem opened_reachable : Reachable (network secondFirst) always opened :=
  replay_reachable (next secondFirst) (fun _ _ _ hs => ⟨trivial, hs⟩) proposing (.initial rfl)
    (by decide)

def openedOffer : StateAndRef ProposalState := ⟨⟨offer, notary⟩, ⟨0, 0⟩⟩

private theorem bob_finds_offer {notFound : String} :
    lookup ProposalState notFound (opened.hub secondFirst bob) 7 0 = .ok openedOffer :=
  rfl

theorem notaries_agree_iff_opened :
    Reachable (network secondFirst) always opened ∧
      StartedOn (opened.hub secondFirst bob) 0 (.modify 7 (some 8) (some 8)) openedOffer.up ∧
      (Served (opened.hub secondFirst bob) 0 8 (.modify 7 (some 8) (some 8)) openedOffer.up ↔
        (Rejects (.modify 7 (some 8) (some 8)) → FirstProposes secondFirst)) :=
  ⟨opened_reachable, .modify bob_finds_offer,
    notaries_agree_iff opened_reachable (.modify bob_finds_offer)⟩

/-- Bob cannot reject alice's proposal: KillProposalFlow builds for the second notary. -/
theorem rejection_refused : ¬ ∀ map w node choice newId start i,
    (proposalNotary map).isSome = true → Reachable (network map) always w →
      StartedOn (w.hub map node) choice start i →
        Served (w.hub map node) choice newId start i := by
  intro every
  have served := every secondFirst opened bob 0 8 (.killProposal 7) openedOffer.up (by decide)
    opened_reachable (.killProposal bob_finds_offer)
  have mismatch : FlowStart.call (opened.hub secondFirst bob) 0 8 (.killProposal 7) =
      .error (.notaryMismatch notary second) := by decide
  exact served.unrefused _ _ mismatch

end TwoNotaries

end EnergyMarket.Notaries
