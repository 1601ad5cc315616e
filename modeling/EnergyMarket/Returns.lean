/- Module: EnergyMarket/Returns
   digest: What flows that overlap return to those who wait for them, and in which order. -/

import EnergyMarket.Trading

set_option autoImplicit false
set_option relaxedAutoImplicit false

namespace EnergyMarket.Returns
open EnergyMarket.Library.Runs EnergyMarket.Library.Utxo EnergyMarket.States
open EnergyMarket.Transactions EnergyMarket.Ledger EnergyMarket.Flows EnergyMarket.Vault
open EnergyMarket.Network EnergyMarket.Chronicle EnergyMarket.Agreement EnergyMarket.Completion
open EnergyMarket.Draining EnergyMarket.Contention EnergyMarket.CommitOrder EnergyMarket.Trading

/-- What the notary has taken of a flow whose own node has yet to record it. -/
structure Committing where
  started : Started
  stx : SignedTransaction
  position : Nat
  deriving DecidableEq

/-- A delivery that a flow waits for, as its node is the last to know. -/
def Committing.arrives (c : Committing) (d : Party × Nat) : Bool :=
  d.1.equals c.started.node && d.2 == c.position

/-- A network, the flows that wait for their node to record what they have committed, and
what the others have returned or thrown, in that order. -/
structure Awaited where
  net : NetworkState
  recording : List Committing
  returned : List (Started × Outcome SignedTransaction)
  deriving DecidableEq

def Awaited.empty : Awaited := ⟨.empty, [], []⟩

/-- What a step lets flows return: an exception of the initiator or of its counterparty, that
of a double spend, or the transaction that their node has now recorded. -/
def Awaited.returns (map : NetworkMap) (s : Awaited) :
    Action → List (Started × Outcome SignedTransaction)
  | .start e choice =>
    match e.start.call (s.net.hub map e.node) choice e.newId with
    | .ok _ => []
    | .error failure => [(e, .error failure)]
  | .respond i =>
    match s.net.flights[i]? with
    | some f =>
      match f.answer map with
      | .ok _ => []
      | .error failure => [(f.started, .error failure)]
    | none => []
  | .notarise i =>
    match s.net.flights[i]? with
    | some f => if f.Finalises s.net.ledger then [] else [(f.started, .error f.failure)]
    | none => []
  | .deliver i =>
    match s.net.deliveries[i]? with
    | some d => (s.recording.filter (·.arrives d)).map (fun c => (c.started, .ok c.stx))
    | none => []

def Awaited.records (s : Awaited) : Action → List Committing
  | .start .. | .respond _ => s.recording
  | .notarise i =>
    match s.net.flights[i]? with
    | some f =>
      if f.Finalises s.net.ledger then
        s.recording ++ [⟨f.started, f.stx.notarised, s.net.ledger.length⟩]
      else s.recording
    | none => s.recording
  | .deliver i =>
    match s.net.deliveries[i]? with
    | some d => s.recording.filter (fun c => !c.arrives d)
    | none => s.recording

def Awaited.next (map : NetworkMap) (s : Awaited) (a : Action) : Option Awaited :=
  (Network.next map s.net a).map (fun net => ⟨net, s.records a, s.returned ++ s.returns map a⟩)

def awaited (map : NetworkMap) : System Awaited Action where
  initial s := s = .empty
  step s a s' := s.next map a = some s'

variable {map : NetworkMap} {s s' t : Awaited} {a : Action} {as : List Action}

/-- What one step can do. -/
inductive Moved (map : NetworkMap) (s : Awaited) : Action → Awaited → Prop
  | started (e : Started) (choice : Nat) (stx : SignedTransaction) (counterparty : Party) :
      Moved map s (.start e choice) { s with
        net := { s.net with
          flights := s.net.flights ++ [⟨e, counterparty, stx, false⟩]
          started := s.net.started ++ [e] } }
  | unstarted (e : Started) (choice : Nat) (failure : Failure) :
      Moved map s (.start e choice) { s with
        returned := s.returned ++ [(e, .error failure)] }
  | answered {i : Nat} {f : Flight} {signed : SignedTransaction}
      (at_i : s.net.flights[i]? = some f) :
      Moved map s (.respond i) { s with
        net := { s.net with
          flights := s.net.flights.set i { f with stx := signed, answered := true } } }
  | rejected {i : Nat} {f : Flight} {failure : Failure} (at_i : s.net.flights[i]? = some f) :
      Moved map s (.respond i) { s with
        net := { s.net with flights := s.net.flights.eraseIdx i }
        returned := s.returned ++ [(f.started, .error failure)] }
  | committed {i : Nat} {f : Flight} (at_i : s.net.flights[i]? = some f)
      (finalises : f.Finalises s.net.ledger) :
      Moved map s (.notarise i) { s with
        net := { s.net with
          ledger := s.net.ledger ++ [f.stx.notarised]
          flights := s.net.flights.eraseIdx i
          deliveries := s.net.deliveries ++
            [(f.started.node, s.net.ledger.length), (f.counterparty, s.net.ledger.length)] }
        recording := s.recording ++ [⟨f.started, f.stx.notarised, s.net.ledger.length⟩] }
  | lost {i : Nat} {f : Flight} (at_i : s.net.flights[i]? = some f) :
      Moved map s (.notarise i) { s with
        net := { s.net with flights := s.net.flights.eraseIdx i }
        returned := s.returned ++ [(f.started, .error f.failure)] }
  | delivered {i : Nat} {d : Party × Nat} (at_i : s.net.deliveries[i]? = some d) :
      Moved map s (.deliver i) {
        net := { s.net with
          recorded := s.net.recorded ++ [d]
          deliveries := s.net.deliveries.eraseIdx i }
        recording := s.recording.filter (fun c => !c.arrives d)
        returned := s.returned ++
          (s.recording.filter (·.arrives d)).map (fun c => (c.started, .ok c.stx)) }

private theorem next_net (h : s.next map a = some s') : Network.next map s.net a = some s'.net := by
  obtain ⟨net, step, rfl⟩ := Option.map_eq_some_iff.mp h
  exact step

theorem moved (h : s.next map a = some s') : Moved map s a s' := by
  obtain ⟨net, step, rfl⟩ := Option.map_eq_some_iff.mp h
  cases a with
  | start e choice =>
    simp only [Network.next, Option.ite_none_right_eq_some] at step
    obtain ⟨-, step⟩ := step
    split at step
    · rename_i stx counterparty built
      obtain rfl := Option.some.inj step
      have step : Moved map s (.start e choice) _ := .started e choice stx counterparty
      simpa [Awaited.returns, Awaited.records, built] using step
    · rename_i failure built
      obtain rfl := Option.some.inj step
      have step : Moved map s (.start e choice) _ := .unstarted e choice failure
      simpa [Awaited.returns, Awaited.records, built] using step
  | respond i =>
    obtain ⟨f, at_i, step⟩ := Option.bind_eq_some_iff.mp step
    split at step
    · cases step
    · split at step
      · rename_i signed answer
        obtain rfl := Option.some.inj step
        simpa [Awaited.returns, Awaited.records, at_i, answer] using Moved.answered at_i
      · rename_i failure answer
        obtain rfl := Option.some.inj step
        simpa [Awaited.returns, Awaited.records, at_i, answer] using Moved.rejected at_i
  | notarise i =>
    obtain ⟨f, at_i, step⟩ := Option.bind_eq_some_iff.mp step
    split at step
    · split at step
      · rename_i finalises
        obtain rfl := Option.some.inj step
        simpa [Awaited.returns, Awaited.records, at_i, finalises] using
          Moved.committed at_i finalises
      · rename_i fails
        obtain rfl := Option.some.inj step
        simpa [Awaited.returns, Awaited.records, at_i, fails] using Moved.lost at_i
    · cases step
  | deliver i =>
    obtain ⟨d, at_i, step⟩ := Option.bind_eq_some_iff.mp step
    obtain rfl := Option.some.inj step
    simpa [Awaited.returns, Awaited.records, at_i] using Moved.delivered at_i

def asked (as : List Action) : List Started :=
  as.filterMap (fun a => match a with
    | .start e _ => some e
    | _ => none)

/-- The starts whose flows have neither returned nor thrown. -/
def Awaited.unreturned (s : Awaited) : List Started :=
  s.recording.map Committing.started ++ s.net.flights.map Flight.started

theorem Moved.accounts (hs : Moved map s a s') :
    (s.returned.map Prod.fst ++ s.unreturned ++ asked [a]).Perm
      (s'.returned.map Prod.fst ++ s'.unreturned) := by
  refine List.perm_iff_count.mpr fun e => ?_
  cases hs with
  | started | unstarted =>
    simp only [Awaited.unreturned, asked, List.filterMap_cons, List.filterMap_nil, List.map_append,
      List.map_cons, List.map_nil, List.count_append]
    omega
  | @answered i f signed at_i =>
    have same := (started_set at_i (g := { f with stx := signed, answered := true })
      rfl).count_eq e
    simp only [Awaited.unreturned, asked, List.filterMap_cons, List.filterMap_nil,
      List.count_append, List.count_nil]
    omega
  | rejected at_i | lost at_i | committed at_i =>
    have erased := (started_erased at_i).count_eq e
    simp only [List.count_cons] at erased
    simp only [Awaited.unreturned, asked, List.filterMap_cons, List.filterMap_nil, List.map_append,
      List.map_cons, List.map_nil, List.count_append, List.count_cons, List.count_nil]
    omega
  | @delivered i d at_i =>
    have parted := ((List.filter_append_perm (·.arrives d) s.recording).map
      Committing.started).count_eq e
    have told : ((s.recording.filter (·.arrives d)).map
        (fun c => (c.started, (.ok c.stx : Outcome SignedTransaction)))).map Prod.fst =
          (s.recording.filter (·.arrives d)).map Committing.started := List.map_map
    simp only [List.map_append, List.count_append] at parted
    simp only [Awaited.unreturned, asked, List.filterMap_cons, List.filterMap_nil, List.map_append,
      told, List.count_append, List.count_nil]
    omega

private theorem accounted {guard : Awaited → Action → Prop} (run : Run (awaited map) guard s as t) :
    (s.returned.map Prod.fst ++ s.unreturned ++ asked as).Perm
      (t.returned.map Prod.fst ++ t.unreturned) := by
  induction run with
  | nil => simp [asked]
  | @snoc t u as a _ _ step ih =>
    have one := (moved step).accounts
    have split : asked (as ++ [a]) = asked as ++ asked [a] := List.filterMap_append
    rw [split, ← List.append_assoc]
    exact (ih.append_right _).trans one

def Awaited.served (s : Awaited) : List Started :=
  (s.returned.filter (fun r => r.2.isOk)).map Prod.fst

/-- The starts behind the ledger, in its order: those that have returned and those that are
about to, of which the former have their transaction recorded by their node. -/
structure Linear (map : NetworkMap) (s : Awaited) (es : List Started) : Prop where
  traded : Traded map s.net es
  settled : es.Perm (s.served ++ s.recording.map Committing.started)
  recording : ∀ c ∈ s.recording, es[c.position]? = some c.started ∧
    s.net.ledger[c.position]? = some c.stx ∧ (c.started.node, c.position) ∈ s.net.deliveries
  returned : ∀ e stx, (e, .ok stx) ∈ s.returned → ∃ k : Nat, es[k]? = some e ∧
    s.net.ledger[k]? = some stx ∧ k ∈ s.net.recordedBy e.node

variable {es : List Started} {f : Flight} {i : Nat} {d : Party × Nat}

theorem Linear.empty : Linear map .empty [] where
  traded := ⟨.empty, [], rfl, .nil⟩
  settled := List.Perm.refl _
  recording c hc := by cases hc
  returned e stx h := by cases h

private theorem traded_still {w w' : NetworkState} (h : Traded map w es)
    (hw : Reachable (network map) always w) (hs : Stepped map w w')
    (same : w'.ledger = w.ledger) : Traded map w' es := by
  rcases h.order.step hw hs with ⟨order, -⟩ | ⟨f, -, -, grown, -⟩
  · have leads := h.leads
    rw [← same] at leads
    exact ⟨order, leads⟩
  · have longer := congrArg List.length (same.symm.trans grown)
    simp at longer

theorem Linear.still (h : Linear map s es) (hw : Reachable (network map) always s.net)
    (hs : Stepped map s.net s'.net)
    (ledger : s'.net.ledger = s.net.ledger) (deliveries : s'.net.deliveries = s.net.deliveries)
    (recorded : s'.net.recorded = s.net.recorded) (recording : s'.recording = s.recording)
    (returned : ∃ thrown : List (Started × Outcome SignedTransaction),
      s'.returned = s.returned ++ thrown ∧ ∀ r ∈ thrown, ∃ failure, r.2 = .error failure) :
    Linear map s' es := by
  obtain ⟨thrown, grown, errors⟩ := returned
  have none : thrown.filter (fun r => r.2.isOk) = [] := by
    apply List.filter_eq_nil_iff.mpr
    intro r hr
    obtain ⟨failure, same⟩ := errors r hr
    simp [same, Except.isOk, Except.toBool]
  refine ⟨traded_still h.traded hw hs ledger, ?_, ?_, ?_⟩
  · rw [Awaited.served, grown, List.filter_append, none, List.append_nil, recording]
    exact h.settled
  · rw [recording, ledger, deliveries]
    exact h.recording
  · intro e stx he
    rw [grown, List.mem_append] at he
    rcases he with old | new
    · rw [ledger, NetworkState.recordedBy, recorded]
      exact h.returned e stx old
    · obtain ⟨failure, same⟩ := errors _ new
      cases same

theorem Linear.committed (h : Linear map s es) (hw : Reachable (network map) always s.net)
    (at_i : s.net.flights[i]? = some f) (finalises : f.Finalises s.net.ledger) :
    Linear map { s with
      net := { s.net with
        ledger := s.net.ledger ++ [f.stx.notarised]
        flights := s.net.flights.eraseIdx i
        deliveries := s.net.deliveries ++
          [(f.started.node, s.net.ledger.length), (f.counterparty, s.net.ledger.length)] }
      recording := s.recording ++ [⟨f.started, f.stx.notarised, s.net.ledger.length⟩] }
      (es ++ [f.started]) := by
  have each := h.traded.order.each
  have keeps : ∀ {k : Nat} {e : Started}, es[k]? = some e →
      (es ++ [f.started])[k]? = some e := by
    intro k e he
    obtain ⟨within, -⟩ := List.getElem?_eq_some_iff.mp he
    rwa [List.getElem?_append_left within]
  have stays : ∀ {k : Nat} {stx : SignedTransaction}, s.net.ledger[k]? = some stx →
      (s.net.ledger ++ [f.stx.notarised])[k]? = some stx := by
    intro k stx hk
    obtain ⟨within, -⟩ := List.getElem?_eq_some_iff.mp hk
    rwa [List.getElem?_append_left within]
  refine ⟨⟨h.traded.order.notarised hw at_i finalises _, ?_⟩, ?_, ?_, ?_⟩
  · exact h.traded.leads.commit hw (List.mem_of_getElem? at_i) finalises
  · rw [List.map_append, ← List.append_assoc]
    exact h.settled.append_right [f.started]
  · intro c hc
    rcases List.mem_append.mp hc with old | new
    · obtain ⟨behind, committed, coming⟩ := h.recording c old
      exact ⟨keeps behind, stays committed, List.mem_append_left _ coming⟩
    · rw [List.mem_singleton] at new
      subst new
      refine ⟨?_, by simp, by simp⟩
      rw [← each]
      simp
  · intro e stx he
    obtain ⟨k, behind, committed, recorded⟩ := h.returned e stx he
    exact ⟨k, keeps behind, stays committed, recorded⟩

theorem Linear.delivered (h : Linear map s es) (hw : Reachable (network map) always s.net)
    (hs : Stepped map s.net { s.net with
      recorded := s.net.recorded ++ [d]
      deliveries := s.net.deliveries.eraseIdx i })
    (at_i : s.net.deliveries[i]? = some d) :
    Linear map {
      net := { s.net with
        recorded := s.net.recorded ++ [d]
        deliveries := s.net.deliveries.eraseIdx i }
      recording := s.recording.filter (fun c => !c.arrives d)
      returned := s.returned ++
        (s.recording.filter (·.arrives d)).map (fun c => (c.started, .ok c.stx)) } es := by
  refine ⟨traded_still h.traded hw hs rfl, ?_, ?_, ?_⟩
  · refine h.settled.trans (List.perm_iff_count.mpr fun e => ?_)
    have parted := ((List.filter_append_perm (·.arrives d) s.recording).map
      Committing.started).count_eq e
    have told : (((s.recording.filter (·.arrives d)).map
        (fun c => (c.started, (.ok c.stx : Outcome SignedTransaction)))).filter
          (fun r => r.2.isOk)).map Prod.fst =
          (s.recording.filter (·.arrives d)).map Committing.started := by
      rw [List.filter_eq_self.mpr, List.map_map]
      · rfl
      · intro r hr
        obtain ⟨c, -, rfl⟩ := List.mem_map.mp hr
        rfl
    simp only [List.map_append, List.count_append] at parted
    simp only [Awaited.served, List.filter_append, List.map_append, told, List.count_append]
    omega
  · intro c hc
    obtain ⟨mem, waits⟩ := List.mem_filter.mp hc
    obtain ⟨behind, committed, coming⟩ := h.recording c mem
    refine ⟨behind, committed, ?_⟩
    obtain ⟨within, rfl⟩ := List.getElem?_eq_some_iff.mp at_i
    rcases List.mem_cons.mp ((List.getElem_cons_eraseIdx_perm within).mem_iff.mpr coming) with
      here | later
    · have arrives : c.arrives (c.started.node, c.position) = true := by
        simp [Committing.arrives, Party.equals]
      rw [← here, arrives] at waits
      cases waits
    · exact later
  · intro e stx he
    rcases List.mem_append.mp he with old | new
    · obtain ⟨k, behind, committed, recorded⟩ := h.returned e stx old
      refine ⟨k, behind, committed, ?_⟩
      rw [NetworkState.recordedBy, List.filter_append, List.map_append]
      exact List.mem_append_left _ recorded
    · obtain ⟨c, hc, same⟩ := List.mem_map.mp new
      obtain ⟨rfl, rfl⟩ : c.started = e ∧ c.stx = stx := by simpa using same
      obtain ⟨mem, arrives⟩ := List.mem_filter.mp hc
      obtain ⟨ours, place⟩ : d.1.equals c.started.node = true ∧ d.2 = c.position := by
        simpa [Committing.arrives] using arrives
      obtain ⟨behind, committed, -⟩ := h.recording c mem
      refine ⟨c.position, behind, committed, ?_⟩
      rw [NetworkState.recordedBy, List.mem_map]
      exact ⟨d, List.mem_filter.mpr ⟨List.mem_append_right _ (List.mem_singleton.mpr rfl), ours⟩,
        place⟩

/-- A step adds what it commits to the order, which is a flow in progress. -/
theorem Linear.step (h : Linear map s es) (hw : Reachable (network map) always s.net)
    (hs : (awaited map).step s a s') : ∃ later, Linear map s' (es ++ later) ∧
      (later ++ s'.net.flights.map Flight.started).Subperm
        (s.net.flights.map Flight.started ++ asked [a]) := by
  have net := stepped (next_net hs)
  have fewer : ∀ i : Nat, ((s.net.flights.eraseIdx i).map Flight.started).Subperm
      (s.net.flights.map Flight.started) :=
    fun i => ((List.eraseIdx_sublist _ i).map Flight.started).subperm
  cases moved hs with
  | started e choice stx counterparty =>
    refine ⟨[], ?_, ?_⟩
    · rw [List.append_nil]
      exact h.still hw net rfl rfl rfl rfl ⟨[], by simp, by simp⟩
    · rw [List.nil_append, List.map_append]
      exact List.Subperm.refl _
  | unstarted =>
    refine ⟨[], ?_, (List.sublist_append_left _ _).subperm⟩
    rw [List.append_nil]
    exact h.still hw net rfl rfl rfl rfl ⟨_, rfl, by simp⟩
  | @answered i f signed at_i =>
    refine ⟨[], ?_, ?_⟩
    · rw [List.append_nil]
      exact h.still hw net rfl rfl rfl rfl ⟨[], by simp, by simp⟩
    · have same := started_set at_i (g := { f with stx := signed, answered := true }) rfl
      exact same.subperm.trans (List.sublist_append_left _ _).subperm
  | rejected at_i | lost at_i =>
    refine ⟨[], ?_, (fewer _).trans (List.sublist_append_left _ _).subperm⟩
    rw [List.append_nil]
    exact h.still hw net rfl rfl rfl rfl ⟨_, rfl, by simp⟩
  | @committed i f at_i finalises =>
    refine ⟨[f.started], h.committed hw at_i finalises, ?_⟩
    exact (started_erased at_i).symm.subperm.trans (List.sublist_append_left _ _).subperm
  | delivered at_i =>
    refine ⟨[], ?_, (List.sublist_append_left _ _).subperm⟩
    rw [List.append_nil]
    exact h.delivered hw net at_i

theorem net_reachable (h : Reachable (awaited map) always s) :
    Reachable (network map) always s.net := by
  refine h.refine Awaited.net (fun s initial => ?_) (fun s a s' _ _ hs => Or.inr ⟨a, next_net hs⟩)
  obtain rfl : s = .empty := initial
  exact rfl

theorem Linear.run (h : Linear map s es) (hs : Reachable (awaited map) always s)
    (run : Run (awaited map) always s as t) : ∃ later, Linear map t (es ++ later) ∧
      (later ++ t.net.flights.map Flight.started).Subperm
        (s.net.flights.map Flight.started ++ asked as) := by
  induction run with
  | nil => exact ⟨[], by rwa [List.append_nil], (List.sublist_append_left _ _).subperm⟩
  | @snoc t u as a before _ step ih =>
    obtain ⟨later, linear, among⟩ := ih
    obtain ⟨last, linear', among'⟩ := linear.step (net_reachable (before.reachable hs)) step
    refine ⟨later ++ last, ?_, ?_⟩
    · rwa [← List.append_assoc]
    · have split : asked (as ++ [a]) = asked as ++ asked [a] := List.filterMap_append
      rw [split, List.append_assoc, ← List.append_assoc _ (asked as)]
      refine ((List.subperm_append_left later).mpr among').trans ?_
      rw [← List.append_assoc]
      exact (List.subperm_append_right _).mpr among

theorem linear (h : Reachable (awaited map) always s) : ∃ es, Linear map s es := by
  obtain ⟨s₀, as, initial, run⟩ := h.run
  obtain rfl : s₀ = .empty := initial
  obtain ⟨later, linear, -⟩ := Linear.empty.run (.initial rfl) run
  exact ⟨_, linear⟩

/-- However flows overlap, those that return a transaction are behind the ledger, each once,
with the few that are about to, and their order on the ledger is a run of the market in which
what has returned comes before all that is started later. -/
theorem returns_linearize (h : Reachable (awaited map) always s) :
    ∃ es, Linear map s es ∧ ∀ as t, Run (awaited map) always s as t →
      ∃ later, Linear map t (es ++ later) ∧
        later.Subperm (s.net.flights.map Flight.started ++ asked as) := by
  obtain ⟨es, linear⟩ := linear h
  refine ⟨es, linear, fun as t run => ?_⟩
  obtain ⟨later, linear', among⟩ := linear.run h run
  exact ⟨later, linear', (List.sublist_append_left _ _).subperm.trans among⟩

private theorem next_some {w' : NetworkState} (step : Network.next map s.net a = some w') :
    ∃ s', (awaited map).step s a s' ∧ s'.net = w' :=
  ⟨⟨w', s.records a, s.returned ++ s.returns map a⟩, by simp [awaited, Awaited.next, step], rfl⟩

/-- Where nothing is under way, everything has returned. -/
theorem Linear.all_returned (h : Linear map s es) (quiet : Quiet s.net) : s.unreturned = [] := by
  have none : s.recording = [] := by
    apply List.eq_nil_iff_forall_not_mem.mpr
    intro c hc
    obtain ⟨-, -, coming⟩ := h.recording c hc
    rw [quiet.deliveries] at coming
    cases coming
  simp [Awaited.unreturned, none, quiet.flights]

private theorem asked_afoot (run : Run (awaited map) (fun s => afoot s.net) s as t) : asked as =
    [] := by
  induction run with
  | nil => rfl
  | @snoc t u as a _ going _ ih =>
    have split : asked (as ++ [a]) = asked as ++ asked [a] := List.filterMap_append
    rw [split, ih]
    cases a with
    | start e choice => cases going
    | respond i | notarise i | deliver i => rfl

/-- Every start returns or throws once and no more: at any time all have or are under way,
and once no more are started all have, in whatever order the steps are taken. -/
theorem flows_return_once (run : Run (awaited map) always .empty as s) :
    (asked as).Perm (s.returned.map Prod.fst ++ s.unreturned) ∧
    (∀ as' t, Run (awaited map) (fun s => afoot s.net) s as' t →
      as'.length ≤ pending s.net ∧
        (Quiet t.net → (asked as).Perm (t.returned.map Prod.fst))) ∧
    ∃ as' t, Run (awaited map) (fun s => afoot s.net) s as' t ∧ Quiet t.net := by
  have lowers : ∀ s a t, afoot s.net a → (awaited map).step s a t → pending t.net < pending s.net :=
    fun s a t going step => pending_lowers going (next_net step)
  have all : (asked as).Perm (s.returned.map Prod.fst ++ s.unreturned) := accounted run
  refine ⟨all, fun as' t run' => ⟨?_, fun quiet => ?_⟩, Run.drains lowers (fun s busy => ?_) s⟩
  · have bound := run'.bounded lowers
    omega
  · have rest := accounted run'
    rw [asked_afoot run', List.append_nil] at rest
    have reached : Reachable (awaited map) always t :=
      run'.reached (run.reachable (.initial rfl))
    obtain ⟨es, linear⟩ := linear reached
    rw [linear.all_returned quiet, List.append_nil] at rest
    exact all.trans rest
  · have continues : ∃ a w', afoot s.net a ∧ Network.next map s.net a = some w' := progress busy
    obtain ⟨a, w', going, step⟩ := continues
    obtain ⟨s', step', -⟩ := next_some step
    exact ⟨a, s', going, step'⟩

section Race

def racing : Awaited :=
  ⟨raced, [⟨⟨alice, .accept 7, 9⟩, accepted.notarised, 2⟩],
    [(⟨alice, .propose (some true) (some 10) (some 10) (some bob), 7⟩, .ok proposed),
     (⟨bob, .modify 7 (some 8) (some 8), 8⟩, .ok { modified with sigs := [2, 1, 0] }),
     (⟨bob, .killModification 7, 10⟩, .error (.doubleSpend killedModification))]⟩

private theorem race_racing : Run (awaited twoNodes) always .empty race racing :=
  replay_run (Awaited.next twoNodes) (fun _ _ _ _ hs => ⟨trivial, hs⟩) (by decide)

theorem flows_return_once_race :
    (asked race).Perm (racing.returned.map Prod.fst ++ racing.unreturned) ∧
    (∀ as' t, Run (awaited twoNodes) (fun s => afoot s.net) racing as' t →
      as'.length ≤ pending racing.net ∧
        (Quiet t.net → (asked race).Perm (t.returned.map Prod.fst))) ∧
    ∃ as' t, Run (awaited twoNodes) (fun s => afoot s.net) racing as' t ∧ Quiet t.net :=
  flows_return_once race_racing

theorem returns_linearize_race : Reachable (awaited twoNodes) always racing ∧
    ∃ es, Linear twoNodes racing es ∧ ∀ as t, Run (awaited twoNodes) always racing as t →
      ∃ later, Linear twoNodes t (es ++ later) ∧
        later.Subperm (racing.net.flights.map Flight.started ++ asked as) :=
  ⟨race_racing.reachable (.initial rfl),
    returns_linearize (race_racing.reachable (.initial rfl))⟩

end Race

/-- A node reads what a transaction has done: nothing of what it consumed, and all that it
created until the node has recorded what consumes that. -/
structure Reflects (map : NetworkMap) (w : NetworkState) (q : Party) (k : Nat)
    (stx : SignedTransaction) : Prop where
  committed : w.ledger[k]? = some stx
  consumed : ∀ i ∈ (w.hub map q).vault, i.ref ∉ ports.consumed stx
  created : ∀ i : StateAndRef ContractState, i.ref.txIndex = k →
    ports.outputAt w.ledger i.ref = some i.state →
      i ∈ (w.hub map q).vault ∨ consumedBy w.ledger (w.recordedBy q) i.ref

private theorem reflects_recorded {w : NetworkState} {q : Party} {k : Nat} {stx : SignedTransaction}
    (h : Reachable (network map) always w) (hk : w.ledger[k]? = some stx)
    (recorded : k ∈ w.recordedBy q) : Reflects map w q k stx := by
  refine ⟨hk, fun i hi consumed => ?_, fun i at_k created => ?_⟩
  · obtain ⟨-, -, -, kept⟩ := mem_vaultOf.mp hi
    exact kept ⟨k, recorded, stx, hk, consumed⟩
  · subst at_k
    have informed : Informed w q i.ref.txIndex := by
      obtain ⟨d, hd, place⟩ := List.mem_map.mp recorded
      obtain ⟨mem, ours⟩ := List.mem_filter.mp hd
      exact ⟨d, List.mem_append_left _ mem, ours, place⟩
    have relevant := ((chronicled h).informed _ _ created q).mp informed
    by_cases spent : consumedBy w.ledger (w.recordedBy q) i.ref
    · exact Or.inr spent
    · exact Or.inl (mem_vaultOf.mpr ⟨created, recorded, relevant, spent⟩)

private theorem returned_grows {guard : Awaited → Action → Prop}
    (run : Run (awaited map) guard s as t) : s.returned <+: t.returned := by
  induction run with
  | nil => exact List.prefix_refl _
  | @snoc t u as a _ _ step ih =>
    obtain ⟨net, -, rfl⟩ := Option.map_eq_some_iff.mp step
    exact ih.trans (List.prefix_append _ _)

/-- Once a flow has returned its transaction, its node reads it then and ever after. -/
theorem returns_are_read (h : Reachable (awaited map) always s) {e : Started}
    {stx : SignedTransaction} (returned : (e, .ok stx) ∈ s.returned)
    (run : Run (awaited map) always s as t) : ∃ k, Reflects map t.net e.node k stx := by
  have reached := run.reachable h
  obtain ⟨es, linear⟩ := linear reached
  obtain ⟨k, -, committed, recorded⟩ := linear.returned e stx ((returned_grows run).subset returned)
  exact ⟨k, reflects_recorded (net_reachable reached) committed recorded⟩

theorem returns_are_read_race : ∃ k, Reflects twoNodes racing.net bob k
    { modified with sigs := [2, 1, 0] } :=
  returns_are_read (race_racing.reachable (.initial rfl))
    (e := ⟨bob, .modify 7 (some 8) (some 8), 8⟩) (by simp [racing]) .nil

end EnergyMarket.Returns
