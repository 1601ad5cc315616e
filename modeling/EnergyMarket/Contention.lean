/- Module: EnergyMarket/Contention
   digest: Which of the flows under way commit, where several are after the same state. -/

import EnergyMarket.Draining

set_option autoImplicit false
set_option relaxedAutoImplicit false

namespace EnergyMarket.Contention
open EnergyMarket.Library.Runs EnergyMarket.Library.Utxo EnergyMarket.States
open EnergyMarket.Transactions EnergyMarket.Ledger EnergyMarket.Flows EnergyMarket.Drafts
open EnergyMarket.Vault EnergyMarket.Identity EnergyMarket.Negotiation EnergyMarket.Network
open EnergyMarket.Chronicle EnergyMarket.Agreement EnergyMarket.Completion EnergyMarket.Draining

/-- What a flow in progress keeps of its start: it consumes one state of the ledger at
most, and bears the signatures of its node and of the counterparty that has answered. -/
structure Held (w : NetworkState) (f : Flight) : Prop where
  few : (ports.inputs f.stx).length ≤ 1
  resolves : ∀ i ∈ ports.inputs f.stx, ports.outputAt w.ledger i.1 = some i.2
  sigs : f.stx.sigs =
    f.started.node.owningKey :: if f.answered then [f.counterparty.owningKey] else []

variable {map : NetworkMap} {w w' : NetworkState} {f : Flight} {i : Nat}
variable {stx signed : SignedTransaction} {new : List SignedTransaction}

theorem Held.carry (h : Held w f) (grown : w.ledger <+: w'.ledger) : Held w' f := by
  obtain ⟨K, grown⟩ := grown
  refine ⟨h.few, fun i hi => ?_, h.sigs⟩
  rw [← grown]
  exact outputAt_append (h.resolves i hi)

theorem answer_signs (answer : f.answer map = .ok signed) :
    signed = { f.stx with sigs := f.stx.sigs ++ [f.counterparty.owningKey] } := by
  unfold Flight.answer at answer
  split at answer
  · obtain ⟨-, -, -, -, same⟩ := respond_ok_iff.mp answer
    exact same
  · cases answer

theorem drafted_held {hub : ServiceHub} {newId : UniqueIdentifier} {start : FlowStart}
    {counterparty : Party} (drafted : Drafted hub newId start stx counterparty)
    {i : StateAndRef ContractState} (hi : i ∈ stx.tx.inputs) : i ∈ hub.vault := by
  rcases drafted_inputs drafted with none | ⟨j, held, single⟩
  · simp [none] at hi
  · rw [single, List.mem_singleton] at hi
    exact hi ▸ held

theorem Held.started {e : Started} {choice : Nat} {counterparty : Party}
    (built : e.start.call (w.hub map e.node) choice e.newId = .ok (stx, counterparty)) :
    Held w ⟨e, counterparty, stx, false⟩ := by
  have drafted := call_drafts built
  refine ⟨?_, ?_, drafted_sigs drafted⟩
  · rcases drafted_inputs drafted with none | ⟨i, -, single⟩
    · simp [ports, none]
    · simp [ports, single]
  · intro i hi
    exact vault_resolves (drafted_held drafted (mem_inputs.mp hi))

theorem Held.answered (h : Held w f) (unanswered : f.answered = false)
    (answer : f.answer map = .ok signed) :
    Held w { f with stx := signed, answered := true } := by
  obtain rfl := answer_signs answer
  refine ⟨h.few, h.resolves, ?_⟩
  have alone : f.stx.sigs = [f.started.node.owningKey] := by simpa [unanswered] using h.sigs
  simp [alone]

theorem held (h : Reachable (network map) always w) : ∀ f ∈ w.flights, Held w f := by
  refine h.invariant (I := fun w => ∀ f ∈ w.flights, Held w f) (fun w initial f mem => ?_)
    (fun w a w' _ ih _ hs => ?_)
  · obtain rfl : w = .empty := initial
    cases mem
  · have step : next map w a = some w' := hs
    cases a with
    | start e choice =>
      simp only [next, Option.ite_none_right_eq_some] at step
      obtain ⟨-, step⟩ := step
      split at step
      · rename_i stx counterparty built
        obtain rfl := Option.some.inj step
        intro g hg
        rcases List.mem_append.mp hg with old | fresh
        · exact (ih g old).carry (List.prefix_refl _)
        · rw [List.mem_singleton.mp fresh]
          exact (Held.started built).carry (List.prefix_refl _)
      · exact Option.some.inj step ▸ ih
    | respond i =>
      obtain ⟨f, at_i, step⟩ := Option.bind_eq_some_iff.mp step
      split at step
      · cases step
      · rename_i unanswered
        split at step
        · rename_i signed answer
          obtain rfl := Option.some.inj step
          intro g hg
          rcases List.mem_or_eq_of_mem_set hg with old | rfl
          · exact (ih g old).carry (List.prefix_refl _)
          · have before := ih f (List.mem_of_getElem? at_i)
            exact (before.answered (by simpa using unanswered) answer).carry (List.prefix_refl _)
        · obtain rfl := Option.some.inj step
          intro g hg
          exact (ih g (List.mem_of_mem_eraseIdx hg)).carry (List.prefix_refl _)
    | notarise i =>
      obtain ⟨f, at_i, step⟩ := Option.bind_eq_some_iff.mp step
      split at step
      · split at step
        · obtain rfl := Option.some.inj step
          intro g hg
          exact (ih g (List.mem_of_mem_eraseIdx hg)).carry (List.prefix_append _ _)
        · obtain rfl := Option.some.inj step
          intro g hg
          exact (ih g (List.mem_of_mem_eraseIdx hg)).carry (List.prefix_refl _)
      · cases step
    | deliver i =>
      obtain ⟨d, at_i, step⟩ := Option.bind_eq_some_iff.mp step
      obtain rfl := Option.some.inj step
      intro g hg
      exact (ih g hg).carry (List.prefix_refl _)

/-- What a flow takes to the notary, as the notary would sign it: its transaction as the
counterparty answers it, where that finalises but for what has become of its input. -/
def presents (map : NetworkMap) (f : Flight) : Option SignedTransaction :=
  ((if f.answered then some f.stx else (f.answer map).toOption).filter (fun stx =>
    decide (f.counterparty.owningKey ≠ f.started.node.owningKey ∧ Committable stx))).map
      SignedTransaction.notarised

private theorem presents_answered (answered : f.answered = true) : presents map f = some stx ↔
    stx = f.stx.notarised ∧ f.counterparty.owningKey ≠ f.started.node.owningKey ∧
      Committable f.stx := by
  simp only [presents, answered, if_true, Option.map_eq_some_iff, Option.filter_eq_some_iff,
    Option.some.injEq, decide_eq_true_eq]
  constructor
  · rintro ⟨u, ⟨rfl, apart, committable⟩, rfl⟩
    exact ⟨rfl, apart, committable⟩
  · rintro ⟨rfl, apart, committable⟩
    exact ⟨f.stx, ⟨rfl, apart, committable⟩, rfl⟩

private theorem presents_answer (unanswered : f.answered = false)
    (answer : f.answer map = .ok signed) :
    presents map { f with stx := signed, answered := true } = presents map f := by
  simp [presents, unanswered, answer, Except.toOption]

private theorem presents_refused {failure : Failure} (unanswered : f.answered = false)
    (answer : f.answer map = .error failure) : presents map f = none := by
  simp [presents, unanswered, answer, Except.toOption]

/-- Nothing but a spent input keeps a flow from committing what it presents. -/
theorem finalises_iff (answered : f.answered = true) {L : List SignedTransaction} :
    f.Finalises L ↔ presents map f = some f.stx.notarised ∧ ports.Spendable L f.stx := by
  rw [presents_answered answered]
  constructor
  · rintro ⟨apart, commits⟩
    exact ⟨⟨rfl, apart, commits.committable⟩, commits.spendable⟩
  · rintro ⟨⟨-, apart, committable⟩, spendable⟩
    exact ⟨apart, spendable, committable⟩

theorem Held.spent (h : Held w f) (lost : ¬ ports.Spendable w.ledger f.stx) :
    ports.consumed f.stx ≠ [] ∧ ∀ r ∈ ports.consumed f.stx, ports.Spent w.ledger r := by
  cases inputs : ports.inputs f.stx with
  | nil => exact absurd (spendable_none inputs) lost
  | cons i rest =>
    have few := h.few
    rw [inputs, List.length_cons] at few
    obtain rfl : rest = [] := List.length_eq_zero_iff.mp (by omega)
    have resolves : ports.outputAt w.ledger i.1 = some i.2 := h.resolves i (by simp [inputs])
    have spent : ports.Spent w.ledger i.1 := by
      by_contra unspent
      exact lost (spendable_single inputs ⟨resolves, unspent⟩)
    have consumed : ports.consumed f.stx = [i.1] := by simp [Ports.consumed, inputs]
    rw [consumed]
    refine ⟨List.cons_ne_nil _ _, fun r hr => ?_⟩
    rw [List.mem_singleton.mp hr]
    exact spent

def presented (map : NetworkMap) (w : NetworkState) : List SignedTransaction :=
  w.flights.filterMap (presents map)

private theorem presented_perm (map : NetworkMap) {l : List Flight} (at_i : l[i]? = some f) :
    (l.filterMap (presents map)).Perm
      ((presents map f).toList ++ (l.eraseIdx i).filterMap (presents map)) := by
  obtain ⟨within, rfl⟩ := List.getElem?_eq_some_iff.mp at_i
  refine ((List.getElem_cons_eraseIdx_perm within).filterMap _).symm.trans ?_
  rw [List.filterMap_cons]
  cases presents map l[i] <;> exact List.Perm.refl _

private theorem presented_set {l : List Flight} (at_i : l[i]? = some f) {g : Flight}
    (same : presents map g = presents map f) :
    ((l.set i g).filterMap (presents map)).Perm (l.filterMap (presents map)) := by
  obtain ⟨within, -⟩ := List.getElem?_eq_some_iff.mp at_i
  refine ((List.set_perm_cons_eraseIdx within g).filterMap _).trans ?_
  refine List.Perm.trans ?_ (presented_perm map at_i).symm
  rw [List.filterMap_cons, same]
  cases presents map f <;> exact List.Perm.refl _

/-- How far a run has got with what was presented at its beginning: each transaction is
still to come, committed, or has lost its input. -/
structure Tally (map : NetworkMap) (w w' : NetworkState) (new : List SignedTransaction) :
    Prop where
  ledger : w'.ledger = w.ledger ++ new
  once : (new ++ presented map w').Subperm (presented map w)
  decided : ∀ stx ∈ presented map w, stx ∈ presented map w' ∨
    (stx ∈ new ∨ ports.consumed stx ≠ []) ∧ ∀ r ∈ ports.consumed stx, ports.Spent w'.ledger r

theorem Tally.same {w₀ : NetworkState} (h : Tally map w₀ w new) (ledger : w'.ledger = w.ledger)
    (perm : (presented map w').Perm (presented map w)) : Tally map w₀ w' new := by
  refine ⟨ledger.trans h.ledger, ?_, fun stx hstx => ?_⟩
  · exact ((perm.append_left new).subperm).trans h.once
  · rw [ledger, perm.mem_iff]
    exact h.decided stx hstx

theorem Tally.committed {w₀ : NetworkState} (h : Tally map w₀ w new)
    (ledger : w'.ledger = w.ledger ++ [stx])
    (perm : (presented map w).Perm (stx :: presented map w')) :
    Tally map w₀ w' (new ++ [stx]) := by
  refine ⟨by rw [ledger, h.ledger, List.append_assoc], ?_, fun u hu => ?_⟩
  · rw [List.append_assoc, List.singleton_append]
    exact ((perm.symm.append_left new).subperm).trans h.once
  · rcases h.decided u hu with coming | ⟨how, spent⟩
    · rw [perm.mem_iff, List.mem_cons] at coming
      rcases coming with rfl | later
      · refine Or.inr ⟨Or.inl (by simp), fun r hr => ?_⟩
        rw [ledger]
        exact spent_snoc.mpr (Or.inr hr)
      · exact Or.inl later
    · refine Or.inr ⟨how.imp_left (List.mem_append_left _), fun r hr => ?_⟩
      rw [ledger]
      exact spent_snoc.mpr (Or.inl (spent r hr))

theorem Tally.lost {w₀ : NetworkState} (h : Tally map w₀ w new) (ledger : w'.ledger = w.ledger)
    (perm : (presented map w).Perm (stx :: presented map w')) (some_input : ports.consumed stx ≠ [])
    (spent : ∀ r ∈ ports.consumed stx, ports.Spent w.ledger r) : Tally map w₀ w' new := by
  refine ⟨ledger.trans h.ledger, ?_, fun u hu => ?_⟩
  · have fewer : (presented map w').Subperm (presented map w) :=
      (List.sublist_cons_self stx _).subperm.trans perm.symm.subperm
    exact ((List.subperm_append_left new).mpr fewer).trans h.once
  · rw [ledger]
    rcases h.decided u hu with coming | before
    · rw [perm.mem_iff, List.mem_cons] at coming
      rcases coming with rfl | later
      · exact Or.inr ⟨Or.inr some_input, spent⟩
      · exact Or.inl later
    · exact Or.inr before

theorem Tally.step {w₀ : NetworkState} (h : Tally map w₀ w new)
    (flights : ∀ f ∈ w.flights, Held w f) {a : Action} (going : afoot w a)
    (step : next map w a = some w') :
    ∃ new', Tally map w₀ w' new' := by
  cases a with
  | start e choice => cases going
  | respond i =>
    obtain ⟨f, at_i, step⟩ := Option.bind_eq_some_iff.mp step
    split at step
    · cases step
    · rename_i unanswered
      have unanswered' : f.answered = false := by simpa using unanswered
      split at step
      · rename_i signed answer
        obtain rfl := Option.some.inj step
        exact ⟨new, h.same rfl (presented_set at_i (presents_answer unanswered' answer))⟩
      · rename_i failure answer
        obtain rfl := Option.some.inj step
        have perm := presented_perm map at_i
        rw [presents_refused unanswered' answer] at perm
        exact ⟨new, h.same rfl perm.symm⟩
  | notarise i =>
    obtain ⟨f, at_i, step⟩ := Option.bind_eq_some_iff.mp step
    have perm := presented_perm map at_i
    split at step
    · rename_i answered
      split at step
      · rename_i finalises
        obtain rfl := Option.some.inj step
        rw [((finalises_iff answered).mp finalises).1] at perm
        exact ⟨new ++ [f.stx.notarised], h.committed rfl perm⟩
      · rename_i fails
        obtain rfl := Option.some.inj step
        cases presenting : presents map f with
        | none =>
          rw [presenting] at perm
          exact ⟨new, h.same rfl perm.symm⟩
        | some stx =>
          obtain ⟨rfl, -⟩ := (presents_answered answered).mp presenting
          have lost : ¬ ports.Spendable w.ledger f.stx := fun spendable =>
            fails ((finalises_iff answered).mpr ⟨presenting, spendable⟩)
          obtain ⟨some_input, spent⟩ := (flights f (List.mem_of_getElem? at_i)).spent lost
          rw [presenting] at perm
          exact ⟨new, h.lost rfl perm some_input spent⟩
    · cases step
  | deliver i =>
    obtain ⟨d, at_i, step⟩ := Option.bind_eq_some_iff.mp step
    obtain rfl := Option.some.inj step
    exact ⟨new, h.same rfl (List.Perm.refl _)⟩

/-- What a run without further starts makes of what was presented at its beginning. -/
structure Resolved (map : NetworkMap) (w : NetworkState) (new : List SignedTransaction) :
    Prop where
  once : new.Subperm (presented map w)
  proposals : ∀ stx ∈ presented map w, ports.consumed stx = [] → stx ∈ new
  winner : ∀ stx ∈ presented map w, ∀ r ∈ ports.consumed stx, ¬ ports.Spent w.ledger r →
    ∃! k : Nat, ∃ t, new[k]? = some t ∧ r ∈ ports.consumed t

/-- However the flows under way take their steps: once all of them are over, what has been
committed is something that they presented, each once; every proposal among it; and for
every state that some of them were after, exactly one of these. -/
theorem contention_resolved (h : Reachable (network map) always w) {as : List Action}
    (run : Run (network map) afoot w as w') (quiet : Quiet w') :
    ∃ new, w'.ledger = w.ledger ++ new ∧ Resolved map w new := by
  have start : ∃ new, Tally map w w new :=
    ⟨[], by simp, List.Subperm.refl _, fun _ hstx => Or.inl hstx⟩
  obtain ⟨new, tally⟩ := run.invariant (I := fun w' => ∃ new, Tally map w w' new) h start
    (fun w a w' hw ih going step => ih.elim fun _ tally => tally.step (held hw) going step)
  have none : presented map w' = [] := by simp [presented, quiet.flights]
  have decided : ∀ stx ∈ presented map w, (stx ∈ new ∨ ports.consumed stx ≠ []) ∧
      ∀ r ∈ ports.consumed stx, ports.Spent w'.ledger r := by
    intro stx hstx
    refine (tally.decided stx hstx).resolve_left fun coming => ?_
    rw [none] at coming
    cases coming
  refine ⟨new, tally.ledger, ?_, ?_, ?_⟩
  · simpa [none] using tally.once
  · intro stx hstx no_input
    exact (decided stx hstx).1.resolve_right (fun some_input => some_input no_input)
  · intro stx hstx r hr unspent
    obtain ⟨t, mem, consumes⟩ := (decided stx hstx).2 r hr
    rw [tally.ledger, List.mem_append] at mem
    have mem' : t ∈ new := mem.resolve_left fun old => unspent ⟨t, old, consumes⟩
    obtain ⟨k, hk⟩ := List.mem_iff_getElem?.mp mem'
    refine ⟨k, ⟨t, hk, consumes⟩, ?_⟩
    rintro k' ⟨t', hk', consumes'⟩
    have place : ∀ {k : Nat} {t : SignedTransaction}, new[k]? = some t →
        w'.ledger[w.ledger.length + k]? = some t := by
      intro k t hk
      rw [tally.ledger, List.getElem?_append_right (Nat.le_add_right _ _), Nat.add_sub_cancel_left]
      exact hk
    have orderly := (sound (run.reached h)).orderly
    have same := orderly.spent_once (place hk') (place hk) consumes' consumes
    omega

section Race

def killedModification : SignedTransaction :=
  { signedBy [1, 2] .kill [(1, .modify counter)]
      (.kill ⟨some 8, some 8, alice, bob, alice, bob, 7⟩) with sigs := [2, 1] }

def contested : NetworkState :=
  { raced with
    ledger := raced.ledger.take 2
    deliveries := []
    flights := [⟨⟨alice, .accept 7, 9⟩, bob, accepted, true⟩,
      ⟨⟨bob, .killModification 7, 10⟩, alice, killedModification, true⟩] }

theorem contested_reachable : Reachable (network twoNodes) always contested :=
  replay_reachable (next twoNodes) (fun _ _ _ hs => ⟨trivial, hs⟩) (race.take 14) (.initial rfl)
    (by decide)

private theorem contested_settles : Run (network twoNodes) afoot contested
    [.notarise 0, .notarise 0, .deliver 0, .deliver 0] rested := by
  refine replay_run (next twoNodes) (fun w a ha _ hs => ⟨?_, hs⟩) (by decide)
  simp only [List.mem_cons, List.not_mem_nil, or_false] at ha
  rcases ha with rfl | rfl | rfl | rfl <;> trivial

theorem contention_resolved_race : Reachable (network twoNodes) always contested ∧
    Quiet rested ∧ ∃ new, rested.ledger = contested.ledger ++ new ∧
      Resolved twoNodes contested new :=
  ⟨contested_reachable, ⟨rfl, rfl⟩,
    contention_resolved contested_reachable contested_settles ⟨rfl, rfl⟩⟩

end Race

end EnergyMarket.Contention
