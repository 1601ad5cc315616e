/- Module: EnergyMarket/CommitOrder
   digest: The starts behind a ledger, in the order in which their flows were committed. -/

import EnergyMarket.Contention

set_option autoImplicit false
set_option relaxedAutoImplicit false

namespace EnergyMarket.CommitOrder
open EnergyMarket.Library.Runs EnergyMarket.Library.Utxo EnergyMarket.States
open EnergyMarket.Transactions EnergyMarket.Ledger EnergyMarket.Flows EnergyMarket.Identity
open EnergyMarket.Negotiation EnergyMarket.Network EnergyMarket.Chronicle EnergyMarket.Contention

theorem commit_or_same {map : NetworkMap} {w w' : NetworkState} (hs : Stepped map w w') :
    w'.ledger = w.ledger ∨
      ∃ f ∈ w.flights, f.Finalises w.ledger ∧ w'.ledger = w.ledger ++ [f.stx.notarised] := by
  cases hs with
  | notarised at_i finalises =>
    exact Or.inr ⟨_, List.mem_of_getElem? at_i, finalises, rfl⟩
  | started | answered | delivered | failed | unstarted => exact Or.inl rfl

/-- What a start leads to: the transaction that its initiator has built in some state of the
network, signed by the two nodes of its session, and by the notary where it has to be. -/
def Built (map : NetworkMap) (e : Started) (stx : SignedTransaction) : Prop :=
  ∃ w choice draft counterparty, Reachable (network map) always w ∧
    e.start.call (w.hub map e.node) choice e.newId = .ok (draft, counterparty) ∧
    stx = SignedTransaction.notarised
      { draft with sigs := [e.node.owningKey, counterparty.owningKey] }

/-- The k-th of these starts has led to the k-th transaction of the ledger; each of them has
been logged once, and none is that of a flow still in progress. -/
structure Committed (map : NetworkMap) (w : NetworkState) (es : List Started) : Prop where
  among : (es ++ w.flights.map Flight.started).Subperm w.started
  built : List.Forall₂ (Built map) es w.ledger

variable {map : NetworkMap} {w w' : NetworkState} {es : List Started} {f : Flight} {i : Nat}

theorem Committed.empty : Committed map .empty [] :=
  ⟨List.Subperm.refl _, .nil⟩

theorem Committed.each (h : Committed map w es) : es.length = w.ledger.length :=
  h.built.length_eq

def Called (map : NetworkMap) (f : Flight) : Prop :=
  ∃ w choice draft, Reachable (network map) always w ∧
    f.started.start.call (w.hub map f.started.node) choice f.started.newId =
      .ok (draft, f.counterparty) ∧ f.stx.tx = draft.tx

theorem called (h : Reachable (network map) always w) : ∀ f ∈ w.flights, Called map f := by
  refine h.invariant (I := fun w => ∀ f ∈ w.flights, Called map f) (fun w initial f mem => ?_)
    (fun w a w' hw ih _ hs f mem => ?_)
  · obtain rfl : w = .empty := initial
    cases mem
  · cases stepped hs with
    | @started e choice stx counterparty known fresh built =>
      rcases List.mem_append.mp mem with old | new
      · exact ih f old
      · rw [List.mem_singleton.mp new]
        exact ⟨w, choice, stx, hw, built, rfl⟩
    | @answered i g signed at_i answer =>
      rcases List.mem_or_eq_of_mem_set mem with old | rfl
      · exact ih f old
      · obtain ⟨w₀, choice, draft, reached, call, tx⟩ := ih g (List.mem_of_getElem? at_i)
        exact ⟨w₀, choice, draft, reached, call, (Flight.answer_tx answer).trans tx⟩
    | notarised at_i finalises => exact ih f (List.mem_of_mem_eraseIdx mem)
    | failed i => exact ih f (List.mem_of_mem_eraseIdx mem)
    | delivered | unstarted => exact ih f mem

theorem finalised_sigs (h : Reachable (network map) always w) (mem : f ∈ w.flights)
    (finalises : f.Finalises w.ledger) :
    f.stx.sigs = [f.started.node.owningKey, f.counterparty.owningKey] := by
  obtain ⟨⟨hub, stx, -, -, -, drafted, tx⟩, -⟩ := (chronicled h).flights f mem
  have required := drafted_requires drafted
  rw [← tx] at required
  have signed := finalises.2.committable.signed _ required
  have sigs := (held h f mem).sigs
  cases answered : f.answered with
  | true => simpa [answered] using sigs
  | false =>
    rw [sigs] at signed
    simp only [answered, Bool.false_eq_true, if_false, List.mem_singleton] at signed
    exact absurd signed finalises.1

/-- What a flow commits is what its start has led to. -/
theorem finalised_built (h : Reachable (network map) always w) (mem : f ∈ w.flights)
    (finalises : f.Finalises w.ledger) : Built map f.started f.stx.notarised := by
  obtain ⟨w₀, choice, draft, reached, call, tx⟩ := called h f mem
  have signed : f.stx =
      { draft with sigs := [f.started.node.owningKey, f.counterparty.owningKey] } := by
    rw [← tx, ← finalised_sigs h mem finalises]
  exact ⟨w₀, choice, draft, f.counterparty, reached, call,
    congrArg SignedTransaction.notarised signed⟩

theorem started_erased (at_i : w.flights[i]? = some f) :
    (w.flights.map Flight.started).Perm
      (f.started :: (w.flights.eraseIdx i).map Flight.started) := by
  obtain ⟨within, rfl⟩ := List.getElem?_eq_some_iff.mp at_i
  exact ((List.getElem_cons_eraseIdx_perm within).map Flight.started).symm

theorem started_set (at_i : w.flights[i]? = some f) {g : Flight} (same : g.started = f.started) :
    ((w.flights.set i g).map Flight.started).Perm (w.flights.map Flight.started) := by
  obtain ⟨within, rfl⟩ := List.getElem?_eq_some_iff.mp at_i
  have put := (List.set_perm_cons_eraseIdx within g).map Flight.started
  rw [List.map_cons, same] at put
  exact put.trans ((List.getElem_cons_eraseIdx_perm within).map Flight.started)

theorem Committed.failed (h : Committed map w es) (i : Nat) :
    Committed map { w with flights := w.flights.eraseIdx i } es := by
  refine ⟨?_, h.built⟩
  have fewer := (List.eraseIdx_sublist w.flights i).map Flight.started
  exact ((List.subperm_append_left es).mpr fewer.subperm).trans h.among

theorem Committed.notarised (h : Committed map w es) (hw : Reachable (network map) always w)
    (at_i : w.flights[i]? = some f) (finalises : f.Finalises w.ledger)
    (deliveries : List (Party × Nat)) :
    Committed map { w with
      ledger := w.ledger ++ [f.stx.notarised]
      flights := w.flights.eraseIdx i
      deliveries := deliveries } (es ++ [f.started]) := by
  have built := finalised_built hw (List.mem_of_getElem? at_i) finalises
  refine ⟨?_, List.rel_append h.built (.cons built .nil)⟩
  rw [List.append_assoc, List.singleton_append]
  exact ((started_erased at_i).symm.append_left es).subperm.trans h.among

theorem Committed.step (h : Committed map w es) (hw : Reachable (network map) always w)
    (hs : Stepped map w w') : Committed map w' es ∧ w'.ledger = w.ledger ∨
      ∃ f ∈ w.flights, f.Finalises w.ledger ∧ w'.ledger = w.ledger ++ [f.stx.notarised] ∧
        Committed map w' (es ++ [f.started]) := by
  cases hs with
  | @started e choice stx counterparty known fresh built =>
    refine Or.inl ⟨⟨?_, h.built⟩, rfl⟩
    simp only [List.map_append, List.map_cons, List.map_nil]
    rw [← List.append_assoc]
    exact h.among.append (List.Subperm.refl [e])
  | @answered i f signed at_i answer =>
    refine Or.inl ⟨⟨?_, h.built⟩, rfl⟩
    have same := started_set at_i (g := { f with stx := signed, answered := true }) rfl
    exact (same.append_left es).subperm.trans h.among
  | notarised at_i finalises =>
    exact Or.inr ⟨_, List.mem_of_getElem? at_i, finalises, rfl, h.notarised hw at_i finalises _⟩
  | delivered at_i => exact Or.inl ⟨⟨h.among, h.built⟩, rfl⟩
  | failed i => exact Or.inl ⟨h.failed i, rfl⟩
  | unstarted => exact Or.inl ⟨h, rfl⟩

theorem Committed.apart (h : Committed map w es) (ids : (w.started.map Started.newId).Nodup)
    (mem : f ∈ w.flights) : ∀ e ∈ es, e.newId ≠ f.started.newId := by
  intro e he same
  have distinct : ((es ++ w.flights.map Flight.started).map Started.newId).Nodup := by
    obtain ⟨l, perm, sub⟩ := h.among
    exact ((perm.map _).nodup_iff).mp ((sub.map _).nodup ids)
  rw [List.map_append, List.nodup_append] at distinct
  exact distinct.2.2 _ (List.mem_map_of_mem he) _
    (List.mem_map_of_mem (List.mem_map_of_mem mem)) same

/-- What every commit of a run keeps holds of the ledger it ends with, and of the starts
behind it: those behind the ledger it began with, and then the later ones. -/
theorem committed_run {guard : NetworkState → Action → Prop}
    {P : List Started → List SignedTransaction → Prop}
    (commit : ∀ w a es f, Reachable (network map) always w → guard w a → Committed map w es →
      P es w.ledger → f ∈ w.flights → f.Finalises w.ledger →
        P (es ++ [f.started]) (w.ledger ++ [f.stx.notarised]))
    (hw : Reachable (network map) always w) (order : Committed map w es) (holds : P es w.ledger)
    {as : List Action} (run : Run (network map) guard w as w') :
    ∃ later, Committed map w' (es ++ later) ∧ P (es ++ later) w'.ledger := by
  have start : ∃ later, Committed map w (es ++ later) ∧ P (es ++ later) w.ledger :=
    ⟨[], by rwa [List.append_nil], by rwa [List.append_nil]⟩
  refine run.invariant (I := fun w' => ∃ later, Committed map w' (es ++ later) ∧
    P (es ++ later) w'.ledger) hw start ?_
  rintro w a w' reached ⟨later, order, holds⟩ met hs
  rcases order.step reached (stepped hs) with ⟨same, ledger⟩ | ⟨f, mem, finalises, ledger, grown⟩
  · exact ⟨later, same, ledger ▸ holds⟩
  · refine ⟨later ++ [f.started], ?_⟩
    rw [← List.append_assoc, ledger]
    exact ⟨grown, commit w a _ f reached met order holds mem finalises⟩

theorem run_of_reachable {guard : NetworkState → Action → Prop}
    (h : Reachable (network map) guard w) : ∃ as, Run (network map) guard .empty as w := by
  obtain ⟨w₀, as, initial, run⟩ := h.run
  obtain rfl : w₀ = .empty := initial
  exact ⟨as, run⟩

end EnergyMarket.CommitOrder
