/- Module: EnergyMarket/Ledger
   digest: Ledgers of arbitrary builders, and which branch created each state on them. -/

import EnergyMarket.Contract

set_option autoImplicit false
set_option relaxedAutoImplicit false

namespace EnergyMarket.Ledger
open EnergyMarket.Library.Utxo EnergyMarket.States EnergyMarket.Transactions
open EnergyMarket.Contract EnergyMarket.Contract.ProposalAndTradeContract

def ports : Ports SignedTransaction (TransactionState ContractState) where
  inputs stx := stx.tx.inputs.map (fun i => (i.ref, i.state))
  outputs stx := stx.tx.outputs

/-- What the platform asks of one transaction: its contract accepts it where it runs,
and every required signer has signed. -/
structure Committable (stx : SignedTransaction) : Prop where
  verified : stx.tx.runsContract = true → verify stx.tx = .ok ()
  signed : ∀ key ∈ stx.tx.requiredSigningKeys, key ∈ stx.sigs

instance (stx : SignedTransaction) : Decidable (Committable stx) :=
  decidable_of_iff ((stx.tx.runsContract = true → verify stx.tx = .ok ()) ∧
      ∀ key ∈ stx.tx.requiredSigningKeys, key ∈ stx.sigs)
    ⟨fun h => ⟨h.1, h.2⟩, fun h => ⟨h.verified, h.signed⟩⟩

def rule (_ : List SignedTransaction) (stx : SignedTransaction) : Prop := Committable stx

instance (L : List SignedTransaction) (stx : SignedTransaction) : Decidable (rule L stx) :=
  inferInstanceAs (Decidable (Committable stx))

/-- The ledgers reachable from the empty one, whoever built the transactions. -/
abbrev OnLedger (L : List SignedTransaction) : Prop := ports.Ledger rule L

structure Commits (L : List SignedTransaction) (stx : SignedTransaction) : Prop where
  spendable : ports.Spendable L stx
  committable : Committable stx

instance (L : List SignedTransaction) (stx : SignedTransaction) : Decidable (Commits L stx) :=
  decidable_of_iff (ports.Spendable L stx ∧ Committable stx)
    ⟨fun h => ⟨h.1, h.2⟩, fun h => ⟨h.spendable, h.committable⟩⟩

variable {L : List SignedTransaction} {stx : SignedTransaction} {k : Nat}

theorem Commits.notarised (h : Commits L stx) : Commits L stx.notarised :=
  ⟨⟨h.spendable.unspent, h.spendable.distinct⟩, h.committable.verified,
    fun key required => List.mem_append_left _ (h.committable.signed key required)⟩

theorem Commits.onLedger (hL : OnLedger L) (h : Commits L stx) : OnLedger (L ++ [stx]) :=
  hL.snoc h.spendable h.committable

theorem OnLedger.committed (hL : OnLedger L) (hk : L[k]? = some stx) : Commits (L.take k) stx :=
  ⟨(hL.at hk).2.1, (hL.at hk).2.2⟩

theorem OnLedger.committable (hL : OnLedger L) (mem : stx ∈ L) : Committable stx := by
  obtain ⟨k, hk⟩ := List.mem_iff_getElem?.mp mem
  exact (hL.committed hk).committable

theorem Committable.accepted (h : Committable stx) (runs : stx.tx.runsContract = true) :
    Accepted stx.tx :=
  accepted_of_verify (h.verified runs)

@[simp] theorem mem_inputs {r : StateRef} {s : TransactionState ContractState} :
    (r, s) ∈ ports.inputs stx ↔ ⟨s, r⟩ ∈ stx.tx.inputs := by
  simp only [ports, List.mem_map]
  constructor
  · rintro ⟨i, hi, he⟩
    obtain ⟨rfl, rfl⟩ := Prod.mk.inj he
    exact hi
  · exact fun h => ⟨_, h, rfl⟩

theorem inputs_nil (h : stx.tx.getInputStates = []) : ports.inputs stx = [] := by
  have none : stx.tx.inputs = [] := by simpa [LedgerTransaction.getInputStates] using h
  simp [ports, none]

theorem inputs_single {s : ContractState} (h : stx.tx.getInputStates = [s]) :
    ∃ r notary, ports.inputs stx = [(r, ⟨s, notary⟩)] := by
  obtain ⟨i, hi, hs⟩ := List.map_eq_singleton_iff.mp h
  subst hs
  exact ⟨i.ref, i.state.notary, by simp [ports, hi]⟩

theorem outputs_single {s : ContractState} (h : stx.tx.getOutputStates = [s]) :
    ∃ notary, stx.tx.outputs = [⟨s, notary⟩] := by
  obtain ⟨o, ho, hs⟩ := List.map_eq_singleton_iff.mp h
  subst hs
  exact ⟨o.notary, ho⟩

theorem only_output_created {s : ContractState} (hk : L[k]? = some stx)
    (h : stx.tx.getOutputStates = [s]) :
    ∃ notary, ports.outputAt L ⟨k, 0⟩ = some ⟨s, notary⟩ := by
  obtain ⟨notary, ho⟩ := outputs_single h
  have first : (ports.outputs stx)[0]? = some ⟨s, notary⟩ := by
    show stx.tx.outputs[0]? = some ⟨s, notary⟩
    rw [ho]
    rfl
  exact ⟨notary, outputAt_some.mpr ⟨stx, hk, first⟩⟩

theorem input_state_mem {i : StateAndRef ContractState} (hi : i ∈ stx.tx.inputs) :
    i.state.data ∈ stx.tx.getInputStates :=
  List.mem_map.mpr ⟨i, hi, rfl⟩

theorem getElem?_single {α : Type} {a b : α} {n : Nat} (h : [a][n]? = some b) :
    n = 0 ∧ a = b := by
  cases n with
  | zero => exact ⟨rfl, by simpa using h⟩
  | succ n => simp at h

/-- The transaction that created a state of the four classes: it passed a branch of
the contract, and the state is its only output. -/
theorem creator (hL : OnLedger L) {r : StateRef} {s : TransactionState ContractState}
    (hr : ports.outputAt L r = some s) (four : s.data.belongsToContract = true) :
    ∃ stx, L[r.txIndex]? = some stx ∧ Accepted stx.tx ∧ r.outputIndex = 0 ∧
      stx.tx.getOutputStates = [s.data] := by
  obtain ⟨stx, hstx, hs⟩ := outputAt_some.mp hr
  have mem : s ∈ stx.tx.outputs := List.mem_of_getElem? hs
  have accepted := (hL.committed hstx).committable.accepted
    (LedgerTransaction.runsContract_output (List.mem_map_of_mem mem) four)
  obtain ⟨d, hd, -⟩ := accepted.output
  obtain ⟨notary, ho⟩ := outputs_single hd
  have hs' : stx.tx.outputs[r.outputIndex]? = some s := hs
  rw [ho] at hs'
  obtain ⟨zero, rfl⟩ := getElem?_single hs'
  exact ⟨stx, hstx, accepted, zero, hd⟩

section Created

variable {r : StateRef} {notary : Party}

theorem created_proposal (hL : OnLedger L) {p : ProposalState}
    (hr : ports.outputAt L r = some ⟨.proposal p, notary⟩) :
    ∃ stx, L[r.txIndex]? = some stx ∧ r.outputIndex = 0 ∧
      Proposes stx.tx p := by
  obtain ⟨stx, hstx, accepted, zero, single⟩ := creator hL hr rfl
  cases accepted with
  | propose h =>
    obtain rfl : _ = p := by simpa [h.outputs] using single
    exact ⟨stx, hstx, zero, h⟩
  | accept h => simp [h.outputs] at single
  | modify h => simp [h.outputs] at single
  | kill h => simp [h.outputs] at single

theorem created_modify (hL : OnLedger L) {m : ModifyState}
    (hr : ports.outputAt L r = some ⟨.modify m, notary⟩) :
    ∃ stx p, L[r.txIndex]? = some stx ∧ r.outputIndex = 0 ∧
      Modifies stx.tx p m := by
  obtain ⟨stx, hstx, accepted, zero, single⟩ := creator hL hr rfl
  cases accepted with
  | propose h => simp [h.outputs] at single
  | accept h => simp [h.outputs] at single
  | modify h =>
    obtain rfl : _ = m := by simpa [h.outputs] using single
    exact ⟨stx, _, hstx, zero, h⟩
  | kill h => simp [h.outputs] at single

theorem created_trade (hL : OnLedger L) {t : TradeState}
    (hr : ports.outputAt L r = some ⟨.trade t, notary⟩) :
    ∃ stx m, L[r.txIndex]? = some stx ∧ r.outputIndex = 0 ∧
      Accepts stx.tx m t := by
  obtain ⟨stx, hstx, accepted, zero, single⟩ := creator hL hr rfl
  cases accepted with
  | propose h => simp [h.outputs] at single
  | accept h =>
    obtain rfl : _ = t := by simpa [h.outputs] using single
    exact ⟨stx, _, hstx, zero, h⟩
  | modify h => simp [h.outputs] at single
  | kill h => simp [h.outputs] at single

theorem created_kill (hL : OnLedger L) {κ : KillState}
    (hr : ports.outputAt L r = some ⟨.kill κ, notary⟩) :
    ∃ stx s, L[r.txIndex]? = some stx ∧ r.outputIndex = 0 ∧
      Kills stx.tx s κ := by
  obtain ⟨stx, hstx, accepted, zero, single⟩ := creator hL hr rfl
  cases accepted with
  | propose h => simp [h.outputs] at single
  | accept h => simp [h.outputs] at single
  | modify h => simp [h.outputs] at single
  | kill h =>
    obtain rfl : _ = κ := by simpa [h.outputs] using single
    exact ⟨stx, _, hstx, zero, h⟩

end Created

section Parties

def notary : Party := ⟨⟨"Notary", "moratuwa", "SL"⟩, 0⟩
def alice : Party := ⟨⟨"alice", "New York", "US"⟩, 1⟩
def bob : Party := ⟨⟨"bob", "Tokyo", "JP"⟩, 2⟩
def charlie : Party := ⟨⟨"charlie", "London", "GB"⟩, 3⟩

def signedBy (signers : List PublicKey) (command : CommandData)
    (consumed : List (Nat × ContractState)) (created : ContractState) : SignedTransaction where
  tx :=
    { inputs := consumed.map (fun i => ⟨⟨i.2, notary⟩, ⟨i.1, 0⟩⟩)
      outputs := [⟨created, notary⟩]
      commands := [⟨command, signers⟩]
      timeWindow := none
      notary := some notary }
  sigs := signers

def offer : ProposalState := ⟨some 10, some 10, alice, bob, alice, bob, 7⟩
def counter : ModifyState := ⟨some 8, some 8, alice, bob, alice, bob, 7⟩
def bargain : TradeState := ⟨some 8, some 8, alice, bob, 7⟩

def proposed : SignedTransaction := signedBy [1, 2] .propose [] (.proposal offer)
def modified : SignedTransaction :=
  signedBy [1, 2] .modify [(0, .proposal offer)] (.modify counter)
def accepted : SignedTransaction := signedBy [1, 2] .accept [(1, .modify counter)] (.trade bargain)

def deal : List SignedTransaction := [proposed, modified, accepted]

end Parties

end EnergyMarket.Ledger
