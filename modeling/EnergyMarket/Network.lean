/- Module: EnergyMarket/Network
   digest: Honest nodes whose flows take their steps in any order, and the ledger they share. -/

import EnergyMarket.Negotiation

set_option autoImplicit false
set_option relaxedAutoImplicit false

namespace EnergyMarket.Network
open EnergyMarket.Library.Runs EnergyMarket.Library.Utxo EnergyMarket.Library.LinearHistory
open EnergyMarket.States EnergyMarket.Transactions EnergyMarket.Ledger EnergyMarket.Flows
open EnergyMarket.Drafts EnergyMarket.Vault EnergyMarket.Identity EnergyMarket.Lifecycle
open EnergyMarket.Negotiation

structure NetworkMap where
  nodes : List Party
  notaryIdentities : List Party

structure Started where
  node : Party
  start : FlowStart
  newId : UniqueIdentifier
  deriving DecidableEq

/-- A flow in progress: the session it has opened, its transaction as signed so far, and
whether the counterparty has answered. -/
structure Flight where
  started : Started
  counterparty : Party
  stx : SignedTransaction
  answered : Bool
  deriving DecidableEq

/-- The notary's ledger, the positions of it that each node has recorded, the flows and
the deliveries under way, and every start that got as far as its session. -/
structure NetworkState where
  ledger : List SignedTransaction
  recorded : List (Party × Nat)
  flights : List Flight
  deliveries : List (Party × Nat)
  started : List Started
  deriving DecidableEq

def NetworkState.empty : NetworkState := ⟨[], [], [], [], []⟩

inductive Action
  | start (started : Started) (choice : Nat)
  | respond (i : Nat)
  | notarise (i : Nat)
  | deliver (i : Nat)

def NetworkState.recordedBy (w : NetworkState) (node : Party) : List Nat :=
  (w.recorded.filter (fun d => d.1.equals node)).map Prod.snd

def NetworkState.hub (map : NetworkMap) (w : NetworkState) (node : Party) : ServiceHub :=
  hubOf node map.notaryIdentities w.ledger (w.recordedBy node)

def Fresh (w : NetworkState) (newId : UniqueIdentifier) : Prop := ∀ e ∈ w.started, e.newId ≠ newId

instance (w : NetworkState) (newId : UniqueIdentifier) : Decidable (Fresh w newId) :=
  inferInstanceAs (Decidable (∀ e ∈ w.started, _))

/-- The counterparty's responder, on the node that the session reaches. -/
def Flight.answer (map : NetworkMap) (f : Flight) : Outcome SignedTransaction :=
  if map.nodes.any f.counterparty.equals then
    f.started.start.flow.respond f.counterparty f.started.node f.stx
  else .error (.unreachable f.counterparty)

/-- FinalityFlow takes no session to the local node, and the notary no double spend. -/
def Flight.Finalises (f : Flight) (L : List SignedTransaction) : Prop :=
  f.counterparty.owningKey ≠ f.started.node.owningKey ∧ Commits L f.stx

instance (f : Flight) (L : List SignedTransaction) : Decidable (f.Finalises L) :=
  inferInstanceAs (Decidable (_ ∧ _))

/-- What a flow ends with that does not finalise, in the order in which FinalityFlow asks. -/
def Flight.failure (f : Flight) : Failure :=
  if f.counterparty.owningKey = f.started.node.owningKey then .localSession
  else if Committable f.stx then .doubleSpend f.stx
  else .unverified

/-- One step of one flow; a flow that fails is over, and leaves nothing else behind. -/
def next (map : NetworkMap) (w : NetworkState) : Action → Option NetworkState
  | .start e choice =>
    if e.node ∈ map.nodes ∧ Fresh w e.newId then
      match e.start.call (w.hub map e.node) choice e.newId with
      | .ok (stx, counterparty) => some { w with
          flights := w.flights ++ [⟨e, counterparty, stx, false⟩]
          started := w.started ++ [e] }
      | .error _ => some w
    else none
  | .respond i => do
    let f ← w.flights[i]?
    if f.answered then none
    else match f.answer map with
      | .ok signed => some { w with
          flights := w.flights.set i { f with stx := signed, answered := true } }
      | .error _ => some { w with flights := w.flights.eraseIdx i }
  | .notarise i => do
    let f ← w.flights[i]?
    if f.answered then
      if f.Finalises w.ledger then some { w with
        ledger := w.ledger ++ [f.stx.notarised]
        flights := w.flights.eraseIdx i
        deliveries := w.deliveries ++
          [(f.started.node, w.ledger.length), (f.counterparty, w.ledger.length)] }
      else some { w with flights := w.flights.eraseIdx i }
    else none
  | .deliver i => do
    let d ← w.deliveries[i]?
    some { w with recorded := w.recorded ++ [d], deliveries := w.deliveries.eraseIdx i }

def network (map : NetworkMap) : System NetworkState Action where
  initial w := w = .empty
  step w a w' := next map w a = some w'

variable {map : NetworkMap} {w w' : NetworkState} {f : Flight} {i : Nat}

/-- What one step can do. -/
inductive Stepped (map : NetworkMap) (w : NetworkState) : NetworkState → Prop
  | started {e : Started} {choice : Nat} {stx : SignedTransaction} {counterparty : Party}
      (known : e.node ∈ map.nodes) (fresh : Fresh w e.newId)
      (built : e.start.call (w.hub map e.node) choice e.newId = .ok (stx, counterparty)) :
      Stepped map w { w with
        flights := w.flights ++ [⟨e, counterparty, stx, false⟩]
        started := w.started ++ [e] }
  | answered {i : Nat} {f : Flight} {signed : SignedTransaction} (at_i : w.flights[i]? = some f)
      (answer : f.answer map = .ok signed) :
      Stepped map w { w with flights := w.flights.set i { f with stx := signed, answered := true } }
  | notarised {i : Nat} {f : Flight} (at_i : w.flights[i]? = some f)
      (finalises : f.Finalises w.ledger) :
      Stepped map w { w with
        ledger := w.ledger ++ [f.stx.notarised]
        flights := w.flights.eraseIdx i
        deliveries := w.deliveries ++
          [(f.started.node, w.ledger.length), (f.counterparty, w.ledger.length)] }
  | delivered {i : Nat} {d : Party × Nat} (at_i : w.deliveries[i]? = some d) :
      Stepped map w { w with
        recorded := w.recorded ++ [d]
        deliveries := w.deliveries.eraseIdx i }
  | failed (i : Nat) : Stepped map w { w with flights := w.flights.eraseIdx i }
  | unstarted : Stepped map w w

theorem stepped {a : Action} (h : next map w a = some w') : Stepped map w w' := by
  cases a with
  | start e choice =>
    simp only [next, Option.ite_none_right_eq_some] at h
    obtain ⟨⟨known, fresh⟩, h⟩ := h
    split at h
    · rename_i stx counterparty built
      exact Option.some.inj h ▸ .started known fresh built
    · exact Option.some.inj h ▸ .unstarted
  | respond i =>
    obtain ⟨f, at_i, h⟩ := Option.bind_eq_some_iff.mp h
    split at h
    · cases h
    · split at h
      · rename_i signed answer
        exact Option.some.inj h ▸ .answered at_i answer
      · exact Option.some.inj h ▸ .failed i
  | notarise i =>
    obtain ⟨f, at_i, h⟩ := Option.bind_eq_some_iff.mp h
    split at h
    · split at h
      · rename_i finalises
        exact Option.some.inj h ▸ .notarised at_i finalises
      · exact Option.some.inj h ▸ .failed i
    · cases h
  | deliver i =>
    obtain ⟨d, at_i, h⟩ := Option.bind_eq_some_iff.mp h
    exact Option.some.inj h ▸ .delivered at_i

theorem next_started {a : Action} (h : next map w a = some w') {e : Started}
    (mem : e ∈ w'.started) : e ∈ w.started ∨ ∃ choice, a = .start e choice := by
  cases a with
  | start e' choice =>
    simp only [next, Option.ite_none_right_eq_some] at h
    obtain ⟨-, h⟩ := h
    split at h
    · obtain rfl := Option.some.inj h
      rcases List.mem_append.mp mem with old | new
      · exact Or.inl old
      · exact Or.inr ⟨choice, by rw [List.mem_singleton.mp new]⟩
    · obtain rfl := Option.some.inj h
      exact Or.inl mem
  | respond i =>
    obtain ⟨f, -, h⟩ := Option.bind_eq_some_iff.mp h
    split at h
    · cases h
    · split at h
      all_goals
        obtain rfl := Option.some.inj h
        exact Or.inl mem
  | notarise i =>
    obtain ⟨f, -, h⟩ := Option.bind_eq_some_iff.mp h
    split at h
    · split at h
      all_goals
        obtain rfl := Option.some.inj h
        exact Or.inl mem
    · cases h
  | deliver i =>
    obtain ⟨d, -, h⟩ := Option.bind_eq_some_iff.mp h
    obtain rfl := Option.some.inj h
    exact Or.inl mem

/-- What holds of a flow in progress, whatever has become of the vault it started from. -/
structure Flight.Sound (w : NetworkState) (f : Flight) : Prop where
  drafted : ∃ hub stx, hub.ourIdentity = f.started.node ∧
    Drafted hub f.started.newId f.started.start stx f.counterparty ∧ f.stx.tx = stx.tx
  known : f.started ∈ w.started
  unopened : ∀ a ∈ ports.created w.ledger, key a.2 ≠ some f.started.newId

/-- What links the flows in progress to the ledger: each has drafted its transaction,
and no two of them, nor a state on the ledger, have drawn one identifier. -/
structure Sound (w : NetworkState) : Prop where
  orderly : ports.Ledger negotiationRule w.ledger
  flights : ∀ f ∈ w.flights, f.Sound w
  distinct : (w.flights.map (fun f => f.started.newId)).Nodup
  drawn : ∀ a ∈ ports.created w.ledger, ∀ id, key a.2 = some id → ∃ e ∈ w.started, e.newId = id

theorem Sound.empty : Sound .empty :=
  ⟨.nil, by simp [NetworkState.empty], by simp [NetworkState.empty],
    by simp [NetworkState.empty, Ports.created]⟩

theorem Flight.Sound.carry (h : f.Sound w) (started : w.started ⊆ w'.started)
    (ledger : w'.ledger = w.ledger) : f.Sound w' := by
  refine ⟨h.drafted, started h.known, ?_⟩
  rw [ledger]
  exact h.unopened

private theorem drafted_killTakesOpen {hub : ServiceHub} {newId : UniqueIdentifier}
    {start : FlowStart} {counterparty : Party} {stx : SignedTransaction}
    (h : Drafted hub newId start stx counterparty) : KillTakesOpen stx.tx := by
  intro _ command hc value s hs
  cases h with
  | propose known | modify held ours | accept held =>
    simp only [draft, List.mem_singleton] at hc
    subst hc
    cases value
  | killProposal held head same | killModification held head same =>
    simp only [draft, LedgerTransaction.getInputStates, List.map_cons, List.map_nil,
      List.mem_singleton] at hs
    subst hs
    rfl

theorem Flight.Sound.ids (h : f.Sound w) : IdKept f.stx.tx ∧
    (f.stx.tx.getInputStates = [] → ∀ o ∈ f.stx.tx.getOutputStates,
      o.getLinearId = some f.started.newId) := by
  obtain ⟨hub, stx, -, drafted, same⟩ := h.drafted
  rw [same]
  exact drafted_ids drafted

private theorem Flight.Sound.output_id (h : f.Sound w) (hs : ports.Spendable w.ledger f.stx)
    {o : TransactionState ContractState} (ho : o ∈ f.stx.tx.outputs) {id : UniqueIdentifier}
    (hk : key o = some id) :
    id = f.started.newId ∨ ∃ a ∈ ports.created w.ledger, key a.2 = some id := by
  obtain ⟨kept, new⟩ := h.ids
  have output : o.data ∈ f.stx.tx.getOutputStates := List.mem_map_of_mem ho
  cases hin : f.stx.tx.inputs with
  | nil =>
    have none : f.stx.tx.getInputStates = [] := by simp [LedgerTransaction.getInputStates, hin]
    exact .inl (Option.some.inj (hk.symm.trans (new none _ output)))
  | cons i rest =>
    have mem : i ∈ f.stx.tx.inputs := by rw [hin]; exact List.mem_cons_self ..
    have resolved := hs.resolves (mem_inputs.mpr mem)
    have same : key i.state = some id := (kept _ (input_state_mem mem) _ output).symm.trans hk
    exact .inr ⟨(i.ref, i.state), mem_created.mpr resolved, same⟩

theorem Flight.Sound.admitted (h : f.Sound w) (hc : Commits w.ledger f.stx) :
    negotiationRule w.ledger f.stx.notarised := by
  obtain ⟨kept, new⟩ := h.ids
  obtain ⟨hub, stx, -, drafted, same⟩ := h.drafted
  have open_taken : KillTakesOpen f.stx.tx := same ▸ drafted_killTakesOpen drafted
  refine ⟨⟨hc.notarised.committable, kept, fun none o ho _ a ha => ?_⟩, open_taken⟩
  rw [new none o ho]
  exact h.unopened a ha

private theorem Sound.erased_apart (h : Sound w) (at_i : w.flights[i]? = some f) {g : Flight}
    (hg : g ∈ w.flights.eraseIdx i) : f.started.newId ≠ g.started.newId := by
  obtain ⟨within, rfl⟩ := List.getElem?_eq_some_iff.mp at_i
  have apart := (((List.getElem_cons_eraseIdx_perm within).map
    (fun f => f.started.newId)).nodup_iff).mpr h.distinct
  rw [List.map_cons, List.nodup_cons] at apart
  exact fun same => apart.1 (same ▸ List.mem_map_of_mem hg)

theorem Sound.failed (h : Sound w) (i : Nat) :
    Sound { w with flights := w.flights.eraseIdx i } := by
  have flights : ∀ g ∈ w.flights.eraseIdx i,
      g.Sound { w with flights := w.flights.eraseIdx i } := by
    intro g hg
    exact (h.flights g (List.mem_of_mem_eraseIdx hg)).carry (List.Subset.refl _) rfl
  have distinct := h.distinct.sublist ((List.eraseIdx_sublist w.flights i).map _)
  exact ⟨h.orderly, flights, distinct, h.drawn⟩

theorem Sound.started (h : Sound w) {e : Started} {choice : Nat} {stx : SignedTransaction}
    {counterparty : Party} (fresh : Fresh w e.newId)
    (built : e.start.call (w.hub map e.node) choice e.newId = .ok (stx, counterparty)) :
    Sound { w with
      flights := w.flights ++ [⟨e, counterparty, stx, false⟩]
      started := w.started ++ [e] } := by
  have unopened : ∀ a ∈ ports.created w.ledger, key a.2 ≠ some e.newId := by
    intro a ha hk
    obtain ⟨e', he', same⟩ := h.drawn a ha _ hk
    exact fresh e' he' same
  refine ⟨h.orderly, ?_, ?_, ?_⟩
  · intro g hg
    rcases List.mem_append.mp hg with old | new
    · exact (h.flights g old).carry (List.subset_append_left _ _) rfl
    · rw [List.mem_singleton.mp new]
      exact ⟨⟨_, stx, rfl, call_drafts built, rfl⟩, by simp, unopened⟩
  · rw [List.map_append, List.map_singleton, List.nodup_append]
    refine ⟨h.distinct, List.nodup_singleton _, ?_⟩
    intro id old new hnew
    obtain ⟨g, hg, rfl⟩ := List.mem_map.mp old
    rw [List.mem_singleton.mp hnew]
    exact fresh _ (h.flights g hg).known
  · intro a ha id hk
    obtain ⟨e', he', same⟩ := h.drawn a ha id hk
    exact ⟨e', List.mem_append_left _ he', same⟩

theorem Flight.answer_tx {signed : SignedTransaction} (answer : f.answer map = .ok signed) :
    signed.tx = f.stx.tx := by
  unfold Flight.answer at answer
  split at answer
  · obtain ⟨-, -, -, -, rfl⟩ := respond_ok_iff.mp answer
    rfl
  · cases answer

theorem Sound.answered (h : Sound w) (at_i : w.flights[i]? = some f)
    {signed : SignedTransaction} (answer : f.answer map = .ok signed) :
    Sound { w with flights := w.flights.set i { f with stx := signed, answered := true } } := by
  refine ⟨h.orderly, ?_, ?_, h.drawn⟩
  · intro g hg
    rcases List.mem_or_eq_of_mem_set hg with old | rfl
    · exact (h.flights g old).carry (List.Subset.refl _) rfl
    · have sound := h.flights f (List.mem_of_getElem? at_i)
      obtain ⟨hub, stx, ours, drafted, tx⟩ := sound.drafted
      have tx' : signed.tx = stx.tx := (Flight.answer_tx answer).trans tx
      exact ⟨⟨hub, stx, ours, drafted, tx'⟩, sound.known, sound.unopened⟩
  · obtain ⟨within, rfl⟩ := List.getElem?_eq_some_iff.mp at_i
    have ids : (w.flights.set i { w.flights[i] with stx := signed, answered := true }).map
        (fun f => f.started.newId) = w.flights.map (fun f => f.started.newId) := by
      have self := List.set_getElem_self
        (show i < (w.flights.map (fun f => f.started.newId)).length by simpa using within)
      rw [List.getElem_map] at self
      exact List.map_set.trans self
    rw [ids]
    exact h.distinct

/-- What a commit adds to the ledger carries the identifier its flow has drawn, or one
that was there. -/
theorem Sound.notarised (h : Sound w) (at_i : w.flights[i]? = some f)
    (hc : Commits w.ledger f.stx) (new : List (Party × Nat)) :
    Sound { w with
      ledger := w.ledger ++ [f.stx.notarised]
      flights := w.flights.eraseIdx i
      deliveries := new } := by
  have sound := h.flights f (List.mem_of_getElem? at_i)
  have created : ∀ a ∈ ports.created (w.ledger ++ [f.stx.notarised]), ∀ id, key a.2 = some id →
      id = f.started.newId ∨ ∃ b ∈ ports.created w.ledger, key b.2 = some id := by
    intro a ha id hk
    rw [created_snoc, List.mem_append] at ha
    rcases ha with old | here
    · exact .inr ⟨a, old, hk⟩
    · have output : a.2 ∈ f.stx.tx.outputs := List.mem_of_getElem? (mem_outputsAt.mp here).2
      exact sound.output_id hc.spendable output hk
  refine ⟨h.orderly.snoc hc.notarised.spendable (sound.admitted hc), ?_,
    h.distinct.sublist ((List.eraseIdx_sublist w.flights i).map _), ?_⟩
  · intro g hg
    have other := h.flights g (List.mem_of_mem_eraseIdx hg)
    refine ⟨other.drafted, other.known, ?_⟩
    intro a ha hk
    rcases created a ha _ hk with drawn | ⟨b, hb, same⟩
    · exact h.erased_apart at_i hg drawn.symm
    · exact other.unopened b hb same
  · intro a ha id hk
    rcases created a ha id hk with drawn | ⟨b, hb, same⟩
    · exact ⟨f.started, sound.known, drawn.symm⟩
    · exact h.drawn b hb id same

theorem Sound.step (h : Sound w) (hs : Stepped map w w') : Sound w' := by
  cases hs with
  | started known fresh built => exact h.started fresh built
  | answered at_i answer => exact h.answered at_i answer
  | notarised at_i finalises => exact h.notarised at_i finalises.2 _
  | delivered at_i =>
    refine ⟨h.orderly, ?_, h.distinct, h.drawn⟩
    intro f hf
    exact (h.flights f hf).carry (List.Subset.refl _) rfl
  | failed i => exact h.failed i
  | unstarted => exact h

theorem sound (h : Reachable (network map) always w) : Sound w := by
  refine h.invariant (fun w initial => ?_) (fun w a w' _ ih _ hs => ih.step (stepped hs))
  have empty : w = .empty := initial
  exact empty ▸ Sound.empty

/-- Every run of honest nodes keeps the book: its ledger is one of orderly builders. -/
theorem network_keeps_book (h : Reachable (network map) always w) :
    Reachable book always (bookOf w.ledger) :=
  ledger_keeps_book (sound h).orderly

/-- Whatever the order in which the flows of honest nodes take their steps, every linear
id stays on one path, with one unspent state, and ends once. -/
theorem negotiations_safe (h : Reachable (network map) always w) (id : UniqueIdentifier) :
    Safe w.ledger id :=
  safe_of_rule (sound h).orderly id

section Race

def twoNodes : NetworkMap := ⟨[alice, bob], [notary]⟩

def raceStarts : List Started :=
  [⟨alice, .propose (some true) (some 10) (some 10) (some bob), 7⟩,
   ⟨bob, .modify 7 (some 8) (some 8), 8⟩, ⟨alice, .accept 7, 9⟩, ⟨bob, .killModification 7, 10⟩]

def race : List Action :=
  [.start ⟨alice, .propose (some true) (some 10) (some 10) (some bob), 7⟩ 0,
   .respond 0, .notarise 0, .deliver 0, .deliver 0,
   .start ⟨bob, .modify 7 (some 8) (some 8), 8⟩ 0,
   .respond 0, .notarise 0, .deliver 0, .deliver 0,
   .start ⟨alice, .accept 7, 9⟩ 0, .start ⟨bob, .killModification 7, 10⟩ 0,
   .respond 0, .respond 1, .notarise 0, .notarise 0]

def raced : NetworkState :=
  ⟨[proposed, { modified with sigs := [2, 1, 0] }, accepted.notarised],
    [(alice, 0), (bob, 0), (bob, 1), (alice, 1)], [], [(alice, 2), (bob, 2)], raceStarts⟩

theorem raced_reachable : Reachable (network twoNodes) always raced :=
  replay_reachable (next twoNodes) (fun _ _ _ hs => ⟨trivial, hs⟩) race (.initial rfl) (by decide)

theorem negotiations_safe_race :
    Reachable (network twoNodes) always raced ∧ Safe raced.ledger 7 :=
  ⟨raced_reachable, negotiations_safe raced_reachable 7⟩

end Race

end EnergyMarket.Network
