/- Module: EnergyMarket/Consent
   digest: One honest node among arbitrary ones, and the trades it is brought into. -/

import EnergyMarket.Drafts
import EnergyMarket.Provenance
import EnergyMarket.Vault

set_option autoImplicit false
set_option relaxedAutoImplicit false

namespace EnergyMarket.Consent
open EnergyMarket.Library.Runs EnergyMarket.Library.Utxo EnergyMarket.States
open EnergyMarket.Transactions EnergyMarket.Contract EnergyMarket.Ledger
open EnergyMarket.Provenance EnergyMarket.Flows EnergyMarket.Drafts EnergyMarket.Vault

structure Started where
  start : FlowStart
  tx : LedgerTransaction
  deriving DecidableEq

/-- The ledger, the positions our node has recorded, what our operator has started, and
the transactions that carry our signature. -/
structure World where
  ledger : List SignedTransaction
  recorded : List Nat
  started : List Started
  signed : List LedgerTransaction
  deriving DecidableEq

inductive Action
  | start (start : FlowStart) (choice : Nat) (newId : UniqueIdentifier)
  | session (door : Flow) (counterparty : Party) (stx : SignedTransaction)
  | commit (stx : SignedTransaction)
  | record (k : Nat)

/-- A session is opened by another node, and what it sends resolves on the ledger. -/
def Arrives (us counterparty : Party) (L : List SignedTransaction) (stx : SignedTransaction) :
    Prop :=
  counterparty.owningKey ≠ us.owningKey ∧
    ∀ i ∈ stx.tx.inputs, ports.outputAt L i.ref = some i.state

/-- Our signature is on nothing that we have not signed. -/
def Authentic (us : Party) (signed : List LedgerTransaction) (stx : SignedTransaction) : Prop :=
  us.owningKey ∈ stx.sigs → stx.tx ∈ signed

instance (us counterparty : Party) (L : List SignedTransaction) (stx : SignedTransaction) :
    Decidable (Arrives us counterparty L stx) :=
  inferInstanceAs (Decidable (_ ∧ ∀ i ∈ stx.tx.inputs, _))

instance (us : Party) (signed : List LedgerTransaction) (stx : SignedTransaction) :
    Decidable (Authentic us signed stx) :=
  inferInstanceAs (Decidable (_ → _))

section Node

variable (us : Party) (notaryIdentities : List Party)

/-- Our operator starts initiators and our responders answer; what is sent to us and
what is committed is otherwise up to everybody else. -/
def next (w : World) : Action → Option World
  | .start start choice newId =>
    match start.call (hubOf us notaryIdentities w.ledger w.recorded) choice newId with
    | .ok (stx, _) => some { w with
        started := w.started ++ [⟨start, stx.tx⟩]
        signed := w.signed ++ [stx.tx] }
    | .error _ => some w
  | .session door counterparty stx =>
    if Arrives us counterparty w.ledger stx then
      match door.respond us counterparty stx with
      | .ok answer => some { w with signed := w.signed ++ [answer.tx] }
      | .error _ => some w
    else none
  | .commit stx =>
    if Commits w.ledger stx ∧ Authentic us w.signed stx then
      some { w with ledger := w.ledger ++ [stx] }
    else none
  | .record k => if k < w.ledger.length then some { w with recorded := w.recorded ++ [k] } else none

def world : System World Action where
  initial w := w = ⟨[], [], [], []⟩
  step w a w' := next us notaryIdentities w a = some w'

end Node

/-- The trade that the transaction at position k creates was consented to: our operator
started the Acceptance that created it, or the Modification that fixed its terms. -/
def Consented (w : World) (k : Nat) (t : TradeState) : Prop :=
  ∃ i j p m, ModifiedAt w.ledger i j p m ∧ AcceptedAt w.ledger j k m t ∧
    t.amount = m.amount ∧ t.unitPrice = m.unitPrice ∧
    ∃ e ∈ w.started, ∃ id,
      e.start = .accept id ∧ w.ledger[k]?.map SignedTransaction.tx = some e.tx ∨
      e.start = .modify id t.amount t.unitPrice ∧
        w.ledger[j]?.map SignedTransaction.tx = some e.tx

def EveryTradeConsented (us : Party) (w : World) : Prop :=
  ∀ r t notary, ports.outputAt w.ledger r = some ⟨.trade t, notary⟩ →
    us.owningKey ∈ immutableSet t.buyer t.seller → Consented w r.txIndex t

/-- The checks on a transaction of our own trades that neither the contract nor every
responder makes: a Modify leaves us the proposer, who is then to accept; an Accept is
not of a modification that we are to accept, and has its terms. -/
structure Checked (us : Party) (tx : LedgerTransaction) : Prop where
  modify : ∀ p ∈ tx.inputsOfType ProposalState, ∀ m ∈ tx.outputsOfType ModifyState,
    us.owningKey ∈ immutableSet p.buyer p.seller → m.proposer.equals us = true
  accept : ∀ m ∈ tx.inputsOfType ModifyState, ∀ t ∈ tx.outputsOfType TradeState,
    us.owningKey ∈ immutableSet t.buyer t.seller →
      m.proposer.equals us = false ∧ t.amount = m.amount ∧ t.unitPrice = m.unitPrice

/-- What a step has to meet: a transaction that we sign on a session is our own, or
passes the missing checks. -/
def Careful (us : Party) (w : World) : Action → Prop
  | .session door counterparty stx => (door.respond us counterparty stx).isOk = true →
      (∃ e ∈ w.started, e.tx = stx.tx) ∨ Checked us stx.tx
  | _ => True

instance (us : Party) (tx : LedgerTransaction) : Decidable (Checked us tx) :=
  decidable_of_iff
    ((∀ p ∈ tx.inputsOfType ProposalState, ∀ m ∈ tx.outputsOfType ModifyState,
        us.owningKey ∈ immutableSet p.buyer p.seller → m.proposer.equals us = true) ∧
      ∀ m ∈ tx.inputsOfType ModifyState, ∀ t ∈ tx.outputsOfType TradeState,
        us.owningKey ∈ immutableSet t.buyer t.seller →
          m.proposer.equals us = false ∧ t.amount = m.amount ∧ t.unitPrice = m.unitPrice)
    ⟨fun h => ⟨h.1, h.2⟩, fun h => ⟨h.modify, h.accept⟩⟩

instance (us : Party) (w : World) : (a : Action) → Decidable (Careful us w a)
  | .session _ _ stx => inferInstanceAs (Decidable (_ → (∃ e ∈ w.started, e.tx = stx.tx) ∨ _))
  | .start .. | .commit _ | .record _ => inferInstanceAs (Decidable True)

def Started.Drafts (us : Party) (e : Started) : Prop :=
  ∃ hub newId stx counterparty, hub.ourIdentity = us ∧
    Drafted hub newId e.start stx counterparty ∧ stx.tx = e.tx

/-- What holds of the world of a node that countersigns only what passes a check: what
asks for our signature on the ledger has it, and what has it we have built or checked. -/
structure Vetted (us : Party) (check : LedgerTransaction → Prop) (w : World) : Prop where
  onLedger : OnLedger w.ledger
  authentic : ∀ stx ∈ w.ledger, us.owningKey ∈ stx.tx.requiredSigningKeys → stx.tx ∈ w.signed
  origin : ∀ tx ∈ w.signed, (∃ e ∈ w.started, e.tx = tx) ∨ check tx
  drafted : ∀ e ∈ w.started, e.Drafts us

variable {us : Party} {notaryIdentities : List Party} {w w' : World}
variable {check : LedgerTransaction → Prop}

/-- What one step can do. -/
private theorem next_cases {a : Action} (h : next us notaryIdentities w a = some w') :
    w' = w ∨
    (∃ start choice newId stx counterparty, a = .start start choice newId ∧
      start.call (hubOf us notaryIdentities w.ledger w.recorded) choice newId =
        .ok (stx, counterparty) ∧
      w' = { w with started := w.started ++ [⟨start, stx.tx⟩], signed := w.signed ++ [stx.tx] }) ∨
    (∃ door counterparty stx, a = .session door counterparty stx ∧
      (door.respond us counterparty stx).isOk = true ∧
      w' = { w with signed := w.signed ++ [stx.tx] }) ∨
    (∃ stx, a = .commit stx ∧ Commits w.ledger stx ∧ Authentic us w.signed stx ∧
      w' = { w with ledger := w.ledger ++ [stx] }) ∨
    ∃ k, a = .record k ∧ w' = { w with recorded := w.recorded ++ [k] } := by
  cases a with
  | start start choice newId =>
    simp only [next] at h
    split at h
    · rename_i stx counterparty built
      exact .inr (.inl ⟨start, choice, newId, stx, counterparty, rfl, built,
        (Option.some.inj h).symm⟩)
    · exact .inl (Option.some.inj h).symm
  | session door counterparty stx =>
    simp only [next, Option.ite_none_right_eq_some] at h
    obtain ⟨-, h⟩ := h
    split at h
    · rename_i answer answered
      have signs : (door.respond us counterparty stx).isOk = true := by
        rw [answered]
        rfl
      obtain ⟨-, -, -, -, rfl⟩ := respond_ok_iff.mp answered
      exact .inr (.inr (.inl ⟨door, counterparty, stx, rfl, signs, (Option.some.inj h).symm⟩))
    · exact .inl (Option.some.inj h).symm
  | commit stx =>
    simp only [next, Option.ite_none_right_eq_some] at h
    obtain ⟨⟨commits, authentic⟩, h⟩ := h
    exact .inr (.inr (.inr (.inl ⟨stx, rfl, commits, authentic, (Option.some.inj h).symm⟩)))
  | record k =>
    simp only [next, Option.ite_none_right_eq_some] at h
    exact .inr (.inr (.inr (.inr ⟨k, rfl, (Option.some.inj h.2).symm⟩)))

theorem Vetted.initial : Vetted us check ⟨[], [], [], []⟩ :=
  ⟨Ports.Ledger.nil, by simp, by simp, by simp⟩

/-- One more signature of ours, on what we have just built or what has been checked. -/
theorem Vetted.sign (h : Vetted us check w) {started : List Started} {tx : LedgerTransaction}
    (grown : w.started ⊆ started) (drafted : ∀ e ∈ started, e.Drafts us)
    (accounts : (∃ e ∈ started, e.tx = tx) ∨ check tx) :
    Vetted us check { w with started := started, signed := w.signed ++ [tx] } := by
  have authentic : ∀ stx ∈ w.ledger, us.owningKey ∈ stx.tx.requiredSigningKeys →
      stx.tx ∈ w.signed ++ [tx] := by
    intro stx mem required
    exact List.mem_append_left _ (h.authentic stx mem required)
  have origin : ∀ tx' ∈ w.signed ++ [tx], (∃ e ∈ started, e.tx = tx') ∨ check tx' := by
    intro tx' mem
    rcases List.mem_append.mp mem with old | new
    · rcases h.origin tx' old with ⟨e, he, same⟩ | checked
      · exact .inl ⟨e, grown he, same⟩
      · exact .inr checked
    · rw [List.mem_singleton.mp new]
      exact accounts
  exact ⟨h.onLedger, authentic, origin, drafted⟩

theorem Vetted.commit (h : Vetted us check w) {stx : SignedTransaction}
    (commits : Commits w.ledger stx) (authentic : Authentic us w.signed stx) :
    Vetted us check { w with ledger := w.ledger ++ [stx] } := by
  refine ⟨commits.onLedger h.onLedger, ?_, h.origin, h.drafted⟩
  intro tx mem required
  rcases List.mem_append.mp mem with old | new
  · exact h.authentic tx old required
  · rw [List.mem_singleton.mp new] at required ⊢
    have signed := commits.committable.signed _ required
    exact authentic signed

theorem Vetted.step {a : Action} (h : Vetted us check w)
    (answers : ∀ door counterparty stx, a = .session door counterparty stx →
      (door.respond us counterparty stx).isOk = true →
        (∃ e ∈ w.started, e.tx = stx.tx) ∨ check stx.tx)
    (hs : next us notaryIdentities w a = some w') : Vetted us check w' := by
  rcases next_cases hs with rfl | ⟨start, choice, newId, stx, counterparty, rfl, built, rfl⟩ |
    ⟨door, counterparty, stx, rfl, signs, rfl⟩ | ⟨stx, rfl, commits, authentic, rfl⟩ | ⟨k, rfl, rfl⟩
  · exact h
  · have drafted : ∀ e ∈ w.started ++ [⟨start, stx.tx⟩], e.Drafts us := by
      intro e he
      rcases List.mem_append.mp he with old | new
      · exact h.drafted e old
      · rw [List.mem_singleton.mp new]
        exact ⟨_, newId, stx, counterparty, rfl, call_drafts built, rfl⟩
    have ours : ∃ e ∈ w.started ++ [⟨start, stx.tx⟩], e.tx = stx.tx :=
      ⟨⟨start, stx.tx⟩, by simp, rfl⟩
    exact h.sign (List.subset_append_left _ _) drafted (.inl ours)
  · have passes : (∃ e ∈ w.started, e.tx = stx.tx) ∨ check stx.tx :=
      answers door counterparty stx rfl signs
    exact h.sign (List.Subset.refl _) h.drafted passes
  · exact h.commit commits authentic
  · exact ⟨h.onLedger, h.authentic, h.origin, h.drafted⟩

/-- A guard that lets us countersign only our own and what passes the check vets every
state of the run. -/
theorem vetted {guard : World → Action → Prop}
    (answers : ∀ w door counterparty stx, guard w (.session door counterparty stx) →
      (door.respond us counterparty stx).isOk = true →
        (∃ e ∈ w.started, e.tx = stx.tx) ∨ check stx.tx)
    (h : Reachable (world us notaryIdentities) guard w) : Vetted us check w := by
  refine h.invariant (fun w initial => ?_) (fun w a w' _ ih guarded hs => ?_)
  · have empty : w = ⟨[], [], [], []⟩ := initial
    exact empty ▸ Vetted.initial
  · refine ih.step ?_ hs
    rintro door counterparty stx rfl signs
    exact answers w door counterparty stx guarded signs

theorem Vetted.signed_origin (h : Vetted us check w) {k : Nat} {stx : SignedTransaction}
    (hk : w.ledger[k]? = some stx) (required : us.owningKey ∈ stx.tx.requiredSigningKeys) :
    (∃ e ∈ w.started, e.Drafts us ∧ e.tx = stx.tx) ∨ check stx.tx := by
  have signed := h.authentic stx (List.mem_of_getElem? hk) required
  rcases h.origin _ signed with ⟨e, he, same⟩ | checked
  · exact .inl ⟨e, he, h.drafted e he, same⟩
  · exact .inr checked

private theorem consented_by_accept {i j k : Nat} {p : ProposalState} {m : ModifyState}
    {t : TradeState} {e : Started} {stx : SignedTransaction} (hm : ModifiedAt w.ledger i j p m)
    (ht : AcceptedAt w.ledger j k m t) (hk : w.ledger[k]? = some stx)
    (accepts : Accepts stx.tx m t) (he : e ∈ w.started) (drafts : e.Drafts us)
    (same : e.tx = stx.tx) : Consented w k t := by
  obtain ⟨hub, newId, built, counterparty, -, drafted, tx⟩ := drafts
  have accepts' : Accepts built.tx m t := by
    rw [tx, same]
    exact accepts
  obtain ⟨start, terms⟩ := drafted.accepts accepts'
  have at_k : w.ledger[k]?.map SignedTransaction.tx = some e.tx := by
    rw [hk, same]
    rfl
  have amount : t.amount = m.amount := by rw [terms]
  have unitPrice : t.unitPrice = m.unitPrice := by rw [terms]
  exact ⟨i, j, p, m, hm, ht, amount, unitPrice, e, he, m.linearId, .inl ⟨start, at_k⟩⟩

/-- A trade of ours was modified with our signature: either we fixed its terms, and the
Accept needs our signature too, or we are the one to accept it. -/
theorem Vetted.consent (h : Vetted us (Checked us) w) : EveryTradeConsented us w := by
  intro r t notary created named
  obtain ⟨accept, m, hk, -, accepts⟩ := created_trade h.onLedger created
  obtain ⟨i, j, p, -, -, hp, hm, ht⟩ := accept_origin h.onLedger hk accepts
  obtain ⟨modify, notary', hj, modifies, -⟩ := id hm
  have trader : us.owningKey ∈ immutableSet p.buyer p.seller := by
    rw [immutableSet_congr (modifies.buyer.trans accepts.buyer)
      (modifies.seller.trans accepts.seller)]
    exact named
  have signsModify : us.owningKey ∈ modify.tx.requiredSigningKeys := by
    have parties := modified_parties_sign hp hm
    rw [requiredAt_eq hj] at parties
    rcases mem_immutableSet.mp trader with buyer | seller
    · exact buyer ▸ parties.1
    · exact seller ▸ parties.2
  rcases h.signed_origin hj signsModify with ⟨e, he, drafts, same⟩ | checked
  · -- our own Modify makes us the proposee, whose key the Accept asks for
    obtain ⟨hub, newId, built, counterparty, ours, drafted, tx⟩ := drafts
    have modifies' : Modifies built.tx p m := by
      rw [tx, same]
      exact modifies
    obtain ⟨start, -, proposee⟩ := drafted.modifies modifies'
    have signsAccept : us.owningKey ∈ accept.tx.requiredSigningKeys := by
      have key := accepts.proposee
      rwa [proposee, ours] at key
    rcases h.signed_origin hk signsAccept with ⟨e', he', drafts', same'⟩ | checked
    · exact consented_by_accept hm ht hk accepts he' drafts' same'
    · obtain ⟨-, amount, unitPrice⟩ :=
        checked.accept m accepts.input_mem t accepts.output_mem named
      have at_j : w.ledger[j]?.map SignedTransaction.tx = some e.tx := by
        rw [hj, same]
        rfl
      have terms : e.start = .modify p.linearId t.amount t.unitPrice := by
        rw [start, amount, unitPrice]
      exact ⟨i, j, p, m, hm, ht, amount, unitPrice, e, he, p.linearId, .inr ⟨terms, at_j⟩⟩
  · -- a checked Modify leaves us the proposer, whose Accept nobody else may bring
    have proposer : m.proposer.equals us = true :=
      checked.modify p modifies.input_mem m modifies.output_mem trader
    have signsAccept : us.owningKey ∈ accept.tx.requiredSigningKeys := by
      have key := accepts.proposer
      rwa [Party.equals_iff.mp proposer] at key
    rcases h.signed_origin hk signsAccept with ⟨e', he', drafts', same'⟩ | checked
    · exact consented_by_accept hm ht hk accepts he' drafts' same'
    · have other := (checked.accept m accepts.input_mem t accepts.output_mem named).1
      rw [proposer] at other
      cases other

/-- In every run in which a node countersigns only what passes the missing checks, it
has consented to every trade it is a party of. -/
theorem consent_of_careful (h : Reachable (world us notaryIdentities) (Careful us) w) :
    EveryTradeConsented us w :=
  (vetted (fun _ _ _ _ careful => careful) h).consent

def dealRun : List Action :=
  [.start (.propose (some true) (some 10) (some 10) (some bob)) 0 7, .commit proposed, .record 0,
   .session .modification bob { modified with sigs := [2] }, .commit modified, .record 1,
   .start (.accept 7) 0 0, .commit accepted]

def dealt : World :=
  ⟨deal, [0, 1],
    [⟨.propose (some true) (some 10) (some 10) (some bob), proposed.tx⟩, ⟨.accept 7, accepted.tx⟩],
    [proposed.tx, modified.tx, accepted.tx]⟩

private theorem dealt_reachable : Reachable (world alice [notary]) (Careful alice) dealt :=
  replay_reachable (fun w a => if Careful alice w a then next alice [notary] w a else none)
    (fun _ _ _ hs => Option.ite_none_right_eq_some.mp hs) dealRun (.initial rfl) (by decide)

theorem consent_of_careful_deal : Reachable (world alice [notary]) (Careful alice) dealt ∧
    EveryTradeConsented alice dealt :=
  ⟨dealt_reachable, consent_of_careful dealt_reachable⟩

section Robbery

def exchanged : ModifyState := ⟨some 99, some 99, alice, bob, bob, alice, 7⟩

def exchange : SignedTransaction :=
  signedBy [1, 2] .modify [(0, .proposal offer)] (.modify exchanged)

def robbery : SignedTransaction :=
  signedBy [1, 2] .accept [(1, .modify exchanged)] (.trade ⟨some 99, some 99, alice, bob, 7⟩)

def byBob (stx : SignedTransaction) : SignedTransaction := { stx with sigs := [2] }

def robberyRun : List Action :=
  [.session .proposal bob (byBob proposed), .commit proposed,
   .session .modification bob (byBob exchange), .commit exchange,
   .session .acceptance bob (byBob robbery), .commit robbery]

/-- Alice is the buyer of a trade, and her operator has started nothing. -/
def robbed : World :=
  ⟨[proposed, exchange, robbery], [], [], [proposed.tx, exchange.tx, robbery.tx]⟩

private theorem robbed_reachable : Reachable (world alice [notary]) always robbed :=
  replay_reachable (next alice [notary]) (fun _ _ _ hs => ⟨trivial, hs⟩) robberyRun
    (.initial rfl) (by decide)

private theorem robbed_unasked : ¬ EveryTradeConsented alice robbed := by
  intro consent
  obtain ⟨i, j, p, m, -, -, -, -, e, he, -⟩ := consent ⟨2, 0⟩
    ⟨some 99, some 99, alice, bob, 7⟩ notary (by decide) (by decide)
  cases he

theorem trade_without_consent : ¬ ∀ us notaryIdentities w,
    Reachable (world us notaryIdentities) always w → EveryTradeConsented us w :=
  fun every => robbed_unasked (every alice [notary] robbed robbed_reachable)

end Robbery

end EnergyMarket.Consent
