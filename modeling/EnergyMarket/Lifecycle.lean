/- Module: EnergyMarket/Lifecycle
   digest: The transitions the ledger takes, and the branch that leaves its input unconstrained. -/

import EnergyMarket.Ledger

set_option autoImplicit false
set_option relaxedAutoImplicit false

namespace EnergyMarket.Lifecycle
open EnergyMarket.Library.Utxo EnergyMarket.States EnergyMarket.Transactions
open EnergyMarket.Contract EnergyMarket.Ledger

/-- The five transitions of a negotiation. -/
inductive Transition (tx : LedgerTransaction) : Prop
  | propose {p : ProposalState} (inputs : tx.getInputStates = [])
      (outputs : tx.getOutputStates = [.proposal p])
  | modify {p : ProposalState} {m : ModifyState} (inputs : tx.getInputStates = [.proposal p])
      (outputs : tx.getOutputStates = [.modify m])
  | accept {m : ModifyState} {t : TradeState} (inputs : tx.getInputStates = [.modify m])
      (outputs : tx.getOutputStates = [.trade t])
  | killProposal {p : ProposalState} {κ : KillState}
      (inputs : tx.getInputStates = [.proposal p]) (outputs : tx.getOutputStates = [.kill κ])
  | killModification {m : ModifyState} {κ : KillState}
      (inputs : tx.getInputStates = [.modify m]) (outputs : tx.getOutputStates = [.kill κ])

/-- Every transaction of the contract is one of the five transitions, trades and kills
are final, and a kill ends a negotiation that was open until then. -/
structure Orderly (L : List SignedTransaction) : Prop where
  transitions : ∀ stx ∈ L, stx.tx.runsContract = true → Transition stx.tx
  final : ∀ stx ∈ L, ∀ s ∈ stx.tx.getInputStates, (∀ t, s ≠ .trade t) ∧ ∀ κ, s ≠ .kill κ
  killsOpen : ∀ k stx κ, L[k]? = some stx → .kill κ ∈ stx.tx.getOutputStates →
    ∃ r s, ports.inputs stx = [(r, s)] ∧ s.data.isOpen = true ∧
      ports.Unspent (L.take k) r s

/-- The class test on the input that Accept and Modify make and Kill does not. -/
def KillTakesOpen (tx : LedgerTransaction) : Prop :=
  tx.runsContract = true → ∀ command ∈ tx.commands, command.value = .kill →
    ∀ s ∈ tx.getInputStates, s.isOpen = true

variable {L : List SignedTransaction} {stx : SignedTransaction}

theorem KillTakesOpen.isOpen (takes : KillTakesOpen stx.tx)
    (runs : stx.tx.runsContract = true) {s : ContractState} {κ : KillState}
    (h : Kills stx.tx s κ) : s.isOpen = true :=
  takes runs _ (mem_of_single h.command) rfl s (mem_of_single h.inputs)

private theorem transition_of_accepted (h : Accepted stx.tx)
    (takes : KillTakesOpen stx.tx) (runs : stx.tx.runsContract = true) : Transition stx.tx := by
  cases h with
  | propose h => exact .propose h.inputs h.outputs
  | accept h => exact .accept h.inputs h.outputs
  | modify h => exact .modify h.inputs h.outputs
  | @kill s κ h =>
    rcases ContractState.isOpen_iff.mp (takes.isOpen runs h) with ⟨p, rfl⟩ | ⟨m, rfl⟩
    · exact .killProposal h.inputs h.outputs
    · exact .killModification h.inputs h.outputs

private theorem Transition.inputs_open (h : Transition stx.tx) {s : ContractState}
    (hs : s ∈ stx.tx.getInputStates) : s.isOpen = true := by
  cases h with
  | propose inputs =>
    rw [inputs] at hs
    cases hs
  | modify inputs | accept inputs | killProposal inputs | killModification inputs =>
    rw [eq_of_single inputs hs]
    rfl

private theorem not_final_of_isOpen {s : ContractState} (h : s.isOpen = true) :
    (∀ t, s ≠ .trade t) ∧ ∀ κ, s ≠ .kill κ := by
  rcases ContractState.isOpen_iff.mp h with ⟨p, rfl⟩ | ⟨m, rfl⟩ <;> simp

private theorem not_final_of_foreign {s : ContractState} (h : s.belongsToContract = false) :
    (∀ t, s ≠ .trade t) ∧ ∀ κ, s ≠ .kill κ := by
  constructor
  · rintro t rfl
    cases h
  · rintro κ rfl
    cases h

private theorem kills_of_output (h : Accepted stx.tx) {κ : KillState}
    (hκ : .kill κ ∈ stx.tx.getOutputStates) : ∃ s, Kills stx.tx s κ := by
  cases h with
  | propose h => simp [h.outputs] at hκ
  | accept h => simp [h.outputs] at hκ
  | modify h => simp [h.outputs] at hκ
  | kill h =>
    cases eq_of_single h.outputs hκ
    exact ⟨_, h⟩

private theorem final_of_transitions
    (transitions : ∀ stx ∈ L, stx.tx.runsContract = true → Transition stx.tx) (mem : stx ∈ L)
    {s : ContractState} (hs : s ∈ stx.tx.getInputStates) :
    (∀ t, s ≠ .trade t) ∧ ∀ κ, s ≠ .kill κ := by
  cases runs : stx.tx.runsContract with
  | true =>
    have isOpen := (transitions stx mem runs).inputs_open hs
    exact not_final_of_isOpen isOpen
  | false =>
    cases four : s.belongsToContract with
    | true =>
      have runs' := LedgerTransaction.runsContract_input hs four
      simp [runs] at runs'
    | false => exact not_final_of_foreign four

private theorem kill_consumes_open (hL : OnLedger L) (takes : ∀ stx ∈ L, KillTakesOpen stx.tx)
    {k : Nat} {κ : KillState} (hk : L[k]? = some stx) (hκ : .kill κ ∈ stx.tx.getOutputStates) :
    ∃ r s, ports.inputs stx = [(r, s)] ∧ s.data.isOpen = true ∧
      ports.Unspent (L.take k) r s := by
  have mem := List.mem_of_getElem? hk
  have runs := LedgerTransaction.runsContract_output hκ rfl
  obtain ⟨s, kills⟩ := kills_of_output ((hL.committable mem).accepted runs) hκ
  obtain ⟨r, notary, hin⟩ := inputs_single kills.inputs
  have isOpen := (takes stx mem).isOpen runs kills
  have unspent := (hL.at hk).2.1.unspent (r, ⟨s, notary⟩) (mem_of_single hin)
  exact ⟨r, _, hin, isOpen, unspent⟩

/-- A run is orderly exactly when each of its Kills consumes an open negotiation. -/
theorem orderly_iff (hL : OnLedger L) : Orderly L ↔ ∀ stx ∈ L, KillTakesOpen stx.tx := by
  constructor
  · intro orderly stx mem runs command hc value s hs
    exact (orderly.transitions stx mem runs).inputs_open hs
  · intro takes
    have transitions : ∀ stx ∈ L, stx.tx.runsContract = true → Transition stx.tx := by
      intro stx mem runs
      have accepted := (hL.committable mem).accepted runs
      exact transition_of_accepted accepted (takes stx mem) runs
    refine ⟨transitions, ?_, ?_⟩
    · intro stx mem s hs
      exact final_of_transitions transitions mem hs
    · intro k stx κ hk hκ
      exact kill_consumes_open hL takes hk hκ

theorem orderly_iff_deal : OnLedger deal ∧ (Orderly deal ↔ ∀ stx ∈ deal, KillTakesOpen stx.tx) :=
  ⟨by decide, orderly_iff (by decide)⟩

/-- Charlie kills the trade of alice and bob, and then the kill. -/
def killedTrade : List SignedTransaction :=
  deal ++
    [signedBy [3] .kill [(2, .trade bargain)]
      (.kill ⟨none, none, charlie, charlie, charlie, charlie, 7⟩),
     signedBy [3] .kill [(3, .kill ⟨none, none, charlie, charlie, charlie, charlie, 7⟩)]
      (.kill ⟨none, none, charlie, charlie, charlie, charlie, 7⟩)]

theorem trade_is_killed : ¬ ∀ L, OnLedger L → Orderly L := by
  intro every
  have final := (every killedTrade (by decide)).final (signedBy [3] .kill [(2, .trade bargain)]
    (.kill ⟨none, none, charlie, charlie, charlie, charlie, 7⟩)) (by decide)
    (.trade bargain) (List.mem_singleton.mpr rfl)
  exact final.1 bargain rfl

end EnergyMarket.Lifecycle
