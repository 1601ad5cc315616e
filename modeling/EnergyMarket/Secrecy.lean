/- Module: EnergyMarket/Secrecy
   digest: Who signs a transaction and who is told of it: two traders, and the notary. -/

import EnergyMarket.Trading

set_option autoImplicit false
set_option relaxedAutoImplicit false

namespace EnergyMarket.Secrecy
open EnergyMarket.Library.Runs EnergyMarket.States EnergyMarket.Transactions EnergyMarket.Ledger
open EnergyMarket.Flows EnergyMarket.Drafts EnergyMarket.Vault EnergyMarket.Network
open EnergyMarket.Chronicle EnergyMarket.Agreement EnergyMarket.CommitOrder

/-- Two traders have signed, and after them the notary of what is consumed. -/
structure Signed (map : NetworkMap) (stx : SignedTransaction) (a b : PublicKey) : Prop where
  apart : a ≠ b
  traders : Trader map a ∧ Trader map b
  sigs : ∃ notary ∈ map.notaryIdentities, stx.tx.notary = some notary ∧
    stx.sigs = [a, b] ++ if stx.tx.inputs = [] then [] else [notary.owningKey]

/-- A transaction at a position of the ledger is signed by two traders, and news to them
alone. -/
structure Secret (map : NetworkMap) (w : NetworkState) (k : Nat) (stx : SignedTransaction)
    (a b : PublicKey) : Prop where
  signed : Signed map stx a b
  told : ∀ q, Informed w q k ↔ q.owningKey = a ∨ q.owningKey = b

variable {map : NetworkMap} {w w' : NetworkState} {k : Nat} {stx : SignedTransaction}
variable {e : Started} {f : Flight} {es : List Started} {s : TransactionState ContractState}
variable {counterparty : Party} {a b : PublicKey}

private theorem informed_delivered {i : Nat} {d : Party × Nat} (at_i : w.deliveries[i]? = some d)
    {q : Party} : Informed { w with
      recorded := w.recorded ++ [d]
      deliveries := w.deliveries.eraseIdx i } q k ↔ Informed w q k := by
  obtain ⟨within, rfl⟩ := List.getElem?_eq_some_iff.mp at_i
  refine exists_congr fun d' => and_congr_left fun _ => ?_
  rw [List.append_assoc, List.singleton_append, List.mem_append, List.mem_append]
  exact or_congr_right (List.getElem_cons_eraseIdx_perm within).mem_iff

private theorem drafted_notary {hub : ServiceHub} {newId : UniqueIdentifier} {start : FlowStart}
    (h : Drafted hub newId start stx counterparty) (output : stx.tx.outputs = [s]) :
    stx.tx.notary = some s.notary ∧ stx.tx.timeWindow = none := by
  cases h with
  | propose | modify | accept | killProposal | killModification =>
    obtain rfl := (List.cons.inj output).1
    exact ⟨rfl, rfl⟩

private theorem story_notary (h : Story map es s) : s.notary ∈ map.notaryIdentities := by
  induction h with
  | proposed start known reached apart named => exact List.mem_of_find?_eq_some named
  | modified story start role ih | traded story start role ih => exact ih
  | killedProposal story start head ih | killedModification story start head ih =>
    exact List.mem_of_mem_head? head

private theorem settled_traders (settled : Settles map w e counterparty stx.tx s)
    (trades : ∀ e ∈ w.started, Trades map e) :
    Trader map e.node.owningKey ∧ Trader map counterparty.owningKey := by
  obtain ⟨es, story, before⟩ := settled.story
  obtain ⟨first, rest, peer, rfl, opening⟩ := story.opening
  obtain ⟨amount, unitPrice, proposes⟩ := opening.start
  obtain ⟨node, named⟩ := trades first (before.subset (List.mem_cons_self ..))
  have peers : Trader map peer.owningKey := named peer (by rw [proposes]; rfl)
  have side : ∀ q : Party, relevant q s.data = true → Trader map q.owningKey := by
    intro q concerned
    rcases opening.between.relevant_iff.mp concerned with same | same
    · exact Party.equals_iff.mp same ▸ node
    · exact Party.equals_iff.mp same ▸ peers
  exact ⟨side _ ((settled.sides _).mpr (Or.inl (by simp))),
    side _ ((settled.sides _).mpr (Or.inr (by simp)))⟩

private theorem finalised_signed (h : Reachable (network map) (Aside map) w) (mem : f ∈ w.flights)
    (finalises : f.Finalises w.ledger) :
    Signed map f.stx.notarised f.started.node.owningKey f.counterparty.owningKey := by
  have reached : Reachable (network map) always w := h.mono (fun _ _ _ => trivial)
  have chronicle := chronicled reached
  have flight := chronicle.flights f mem
  obtain ⟨s, settled⟩ :=
    flight.settles ((sound reached).flights f mem).known chronicle.nodes finalises
  obtain ⟨es, story, -⟩ := settled.story
  obtain ⟨hub, stx, -, -, -, drafted, tx⟩ := flight.drafted
  have both := settled_traders settled (traders h)
  have sigs := finalised_sigs reached mem finalises
  have notaries := story_notary story
  have output := settled.output
  rw [tx] at output
  obtain ⟨named, open_ended⟩ := drafted_notary drafted output
  rw [← tx] at named open_ended
  have unsigned : s.notary.owningKey ∉ f.stx.sigs := by
    rw [sigs, List.mem_pair, not_or]
    exact ⟨both.1 _ notaries, both.2 _ notaries⟩
  refine ⟨finalises.1.symm, both, s.notary, notaries, named, ?_⟩
  rw [SignedTransaction.notarised_sigs named open_ended unsigned, sigs]
  rfl

private theorem Secret.notarised {i : Nat} (h : ∀ k stx, w.ledger[k]? = some stx →
    ∃ a b, Secret map w k stx a b) (hw : Reachable (network map) (Aside map) w)
    (at_i : w.flights[i]? = some f) (finalises : f.Finalises w.ledger)
    (hk : (w.ledger ++ [f.stx.notarised])[k]? = some stx) :
    ∃ a b, Secret map { w with
      ledger := w.ledger ++ [f.stx.notarised]
      flights := w.flights.eraseIdx i
      deliveries := w.deliveries ++
        [(f.started.node, w.ledger.length), (f.counterparty, w.ledger.length)] } k stx a b := by
  have within := (chronicled (hw.mono (fun _ _ _ => trivial))).within
  by_cases old : k < w.ledger.length
  · rw [List.getElem?_append_left old] at hk
    obtain ⟨a, b, signed, told⟩ := h k stx hk
    refine ⟨a, b, signed, fun q => (informed_notarised within).trans ?_⟩
    have apart : k ≠ w.ledger.length := by omega
    simp [old, apart, told q]
  · have signed := finalised_signed hw (List.mem_of_getElem? at_i) finalises
    obtain ⟨last, -⟩ := List.getElem?_eq_some_iff.mp hk
    rw [List.length_append, List.length_singleton] at last
    obtain rfl : k = w.ledger.length := by omega
    obtain rfl : f.stx.notarised = stx := by simpa using hk
    refine ⟨_, _, signed, fun q => (informed_notarised within).trans ?_⟩
    simp [@eq_comm _ q.owningKey]

theorem secret (h : Reachable (network map) (Aside map) w) :
    ∀ k stx, w.ledger[k]? = some stx → ∃ a b, Secret map w k stx a b := by
  refine h.invariant (I := fun w => ∀ k stx, w.ledger[k]? = some stx →
    ∃ a b, Secret map w k stx a b) (fun w initial k stx hk => ?_)
    (fun w a w' hw ih _ hs k stx hk => ?_)
  · obtain rfl : w = .empty := initial
    simp [NetworkState.empty] at hk
  · cases stepped hs with
    | started | answered | failed | unstarted =>
      obtain ⟨a, b, signed, told⟩ := ih k stx hk
      exact ⟨a, b, signed, told⟩
    | notarised at_i finalises => exact Secret.notarised ih hw at_i finalises hk
    | delivered at_i =>
      obtain ⟨a, b, signed, told⟩ := ih k stx hk
      exact ⟨a, b, signed, fun q => (informed_delivered at_i).trans (told q)⟩

/-- At every moment of every run in which the notaries stay aside, each committed
transaction bears the signatures of two traders, and its notary's exactly where it consumes
something; only these two have recorded it, so no notary has, and both have where nothing
is under way. -/
theorem signers_record (h : Reachable (network map) (Aside map) w)
    (hk : w.ledger[k]? = some stx) : ∃ a b, Signed map stx a b ∧
      (∀ q, k ∈ w.recordedBy q → q.owningKey = a ∨ q.owningKey = b) ∧
      (∀ notary ∈ map.notaryIdentities, k ∉ w.recordedBy notary) ∧
      (w.deliveries = [] → ∀ q, k ∈ w.recordedBy q ↔ q.owningKey = a ∨ q.owningKey = b) := by
  obtain ⟨a, b, signed, told⟩ := secret h k stx hk
  have records : ∀ q, k ∈ w.recordedBy q → q.owningKey = a ∨ q.owningKey = b := by
    intro q recorded
    simp only [NetworkState.recordedBy, List.mem_map, List.mem_filter] at recorded
    obtain ⟨d, ⟨mem, ours⟩, here⟩ := recorded
    exact (told q).mp ⟨d, List.mem_append_left _ mem, ours, here⟩
  refine ⟨a, b, signed, records, fun notary listed recorded => ?_, fun delivered q => ?_⟩
  · obtain ⟨first, second⟩ := signed.traders
    exact (records notary recorded).elim (first notary listed) (second notary listed)
  · exact (recordedBy_iff delivered).trans (told q)

private theorem rested_aside : Reachable (network twoNodes) (Aside twoNodes) rested := by
  have starts : ∀ e ∈ raceStarts, Trades twoNodes e := by decide
  have aside : ∀ w, ∀ a ∈ race ++ [.deliver 0, .deliver 0], Aside twoNodes w a := by
    rintro w a mem e choice rfl
    have among : .start e choice ∈ raceStarts.map (fun e => Action.start e 0) := by
      simpa [race, raceStarts] using mem
    obtain ⟨e', he', same⟩ := List.mem_map.mp among
    obtain ⟨rfl, -⟩ := Action.start.inj same
    exact starts e' he'
  exact (replay_run (next twoNodes) (fun w a mem _ hs => ⟨aside w a mem, hs⟩)
    (by decide)).reachable (.initial rfl)

theorem signers_record_race : rested.ledger[2]? = some accepted.notarised ∧
    ∃ a b, Signed twoNodes accepted.notarised a b ∧
      (∀ q, 2 ∈ rested.recordedBy q → q.owningKey = a ∨ q.owningKey = b) ∧
      (∀ notary ∈ twoNodes.notaryIdentities, 2 ∉ rested.recordedBy notary) ∧
      (rested.deliveries = [] →
        ∀ q, 2 ∈ rested.recordedBy q ↔ q.owningKey = a ∨ q.owningKey = b) :=
  ⟨rfl, signers_record rested_aside rfl⟩

end EnergyMarket.Secrecy
