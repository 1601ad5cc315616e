/- Module: EnergyMarket/Authority
   digest: Who must sign to end or advance a negotiation, and who is asked to. -/

import EnergyMarket.Ledger

set_option autoImplicit false
set_option relaxedAutoImplicit false

namespace EnergyMarket.Authority
open EnergyMarket.Library.Utxo EnergyMarket.States EnergyMarket.Transactions
open EnergyMarket.Contract EnergyMarket.Ledger

/-- The proposer and the proposee of every negotiation the transaction consumes are
required signers of it. -/
def Authorised (stx : SignedTransaction) : Prop :=
  ∀ i ∈ stx.tx.inputs, ∀ q ∈ i.state.data.negotiators,
    q.owningKey ∈ stx.tx.requiredSigningKeys

/-- A KillState created from an open negotiation names its two parties, in some order,
as its own proposer and proposee. -/
def KillNamesNegotiators (stx : SignedTransaction) : Prop :=
  ∀ κ, .kill κ ∈ stx.tx.getOutputStates → ∀ i ∈ stx.tx.inputs,
    ∀ q ∈ i.state.data.negotiators, q.owningKey ∈ immutableSet κ.proposer κ.proposee

def resign (stx : SignedTransaction) (keys : List PublicKey) : SignedTransaction where
  tx := { stx.tx with commands := stx.tx.commands.map (fun c => ⟨c.value, keys⟩) }
  sigs := keys

variable {L : List SignedTransaction} {stx : SignedTransaction} {keys : List PublicKey}

private theorem resign_required (keys : List PublicKey) {value : CommandData}
    {signers : List PublicKey} (h : stx.tx.commands = [⟨value, signers⟩]) :
    (resign stx keys).tx.commands = [⟨value, keys⟩] ∧
      (resign stx keys).tx.requiredSigningKeys = keys := by
  have line : (resign stx keys).tx.commands = [⟨value, keys⟩] := by simp [resign, h]
  exact ⟨line, LedgerTransaction.requiredSigningKeys_single line⟩

private theorem resign_spendable (h : ports.Spendable L stx) : ports.Spendable L
    (resign stx keys) :=
  ⟨h.unspent, h.distinct⟩

private theorem authorised_of_accepted (h : Accepted stx.tx) (names : KillNamesNegotiators stx) :
    Authorised stx := by
  intro i hi q hq
  have mem := input_state_mem hi
  cases h with
  | propose h =>
    rw [h.inputs] at mem
    cases mem
  | accept h | modify h =>
    rw [eq_of_single h.inputs mem] at hq
    simp only [ContractState.negotiators, List.mem_cons, List.not_mem_nil, or_false] at hq
    rcases hq with rfl | rfl
    · exact h.proposer
    · exact h.proposee
  | kill h =>
    have named := names _ (mem_of_single h.outputs) i hi q hq
    rw [mem_immutableSet] at named
    rcases named with named | named
    · rw [named]
      exact h.proposer
    · rw [named]
      exact h.proposee

private theorem authorised_of_committable (h : Committable stx) (names : KillNamesNegotiators stx) :
    Authorised stx := by
  intro i hi q hq
  have runs := LedgerTransaction.runsContract_input (input_state_mem hi)
    (ContractState.belongsToContract_of_isOpen (ContractState.negotiators_isOpen hq))
  exact authorised_of_accepted (h.accepted runs) names i hi q hq

private theorem resign_kill (hc : Commits L stx) {s : ContractState} {κ : KillState}
    (h : Kills stx.tx s κ) :
    Commits L (resign stx [κ.proposer.owningKey, κ.proposee.owningKey]) := by
  obtain ⟨line, required⟩ := resign_required
    [κ.proposer.owningKey, κ.proposee.owningKey] h.command
  refine ⟨resign_spendable hc.spendable, fun _ => ?_, fun key hkey => ?_⟩
  · exact Kills.verifies (s := s) (κ := κ) ⟨h.inputs, h.outputs, by rw [required]; exact line,
      h.time, by rw [required]; simp, by rw [required]; simp⟩
  · rw [required] at hkey
    exact hkey

private theorem names_of_authorised (hc : Commits L stx)
    (all : ∀ keys, Commits L (resign stx keys) → Authorised (resign stx keys)) :
    KillNamesNegotiators stx := by
  intro κ hκ i hi q hq
  have runs := LedgerTransaction.runsContract_input (input_state_mem hi)
    (ContractState.belongsToContract_of_isOpen (ContractState.negotiators_isOpen hq))
  cases hc.committable.accepted runs with
  | propose h => simp [h.outputs] at hκ
  | accept h => simp [h.outputs] at hκ
  | modify h => simp [h.outputs] at hκ
  | kill h =>
    cases eq_of_single h.outputs hκ
    have signed := all _ (resign_kill hc h) i hi q hq
    rw [(resign_required _ h.command).2] at signed
    simpa using signed

/-- In every run, a transaction whose KillState, if it creates one, names the parties
of the negotiation it ends is authorised by both of them; and nothing weaker will do,
since any other transaction can be committed with signers that leave one of them out. -/
theorem authorised_exactly (hL : OnLedger L) :
    (∀ stx ∈ L, KillNamesNegotiators stx → Authorised stx) ∧
    ∀ stx, Commits L stx →
      ((∀ keys, Commits L (resign stx keys) → Authorised (resign stx keys)) ↔
        KillNamesNegotiators stx) := by
  constructor
  · intro stx mem names
    exact authorised_of_committable (hL.committable mem) names
  · intro stx hc
    constructor
    · intro all
      exact names_of_authorised hc all
    · intro names keys hk
      have names' : KillNamesNegotiators (resign stx keys) := names
      exact authorised_of_committable hk.committable names'

theorem authorised_exactly_deal :
    OnLedger deal ∧ (∀ stx ∈ deal, KillNamesNegotiators stx → Authorised stx) ∧
    ∀ stx, Commits deal stx →
      ((∀ keys, Commits deal (resign stx keys) → Authorised (resign stx keys)) ↔
        KillNamesNegotiators stx) :=
  ⟨by decide, authorised_exactly (by decide)⟩

def outsiderKill : SignedTransaction :=
  signedBy [3] .kill [(0, .proposal offer)]
    (.kill ⟨some 10, some 10, alice, bob, charlie, charlie, 7⟩)

theorem outsider_kills : ¬ ∀ L stx, OnLedger L → Commits L stx → Authorised stx := by
  intro every
  have signed := every [proposed] outsiderKill (by decide) (by decide) _
    (List.mem_singleton.mpr rfl) alice (List.mem_cons_self ..)
  exact absurd signed (by decide)

end EnergyMarket.Authority
