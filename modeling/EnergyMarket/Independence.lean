/- Module: EnergyMarket/Independence
   digest: Negotiations that share nodes, vaults and a ledger, and none of which sees another. -/

import EnergyMarket.Serial

set_option autoImplicit false
set_option relaxedAutoImplicit false

namespace EnergyMarket.Independence
open EnergyMarket.Library.Runs EnergyMarket.Library.Utxo EnergyMarket.States
open EnergyMarket.Transactions EnergyMarket.Ledger EnergyMarket.Flows EnergyMarket.Negotiation
open EnergyMarket.Network EnergyMarket.Chronicle EnergyMarket.Completion EnergyMarket.CommitOrder
open EnergyMarket.Market EnergyMarket.Trading EnergyMarket.Sequential EnergyMarket.Serial

section Market

variable {I P T : Type} [DecidableEq I] {R : Rules P} {M : Deals I P T} {q : Request I P T}
variable {qs : List (Request I P T)} {id : I}

def alone (M : Deals I P T) (id : I) : Deals I P T := fun other => if other = id then M id else none

omit [DecidableEq I] in
theorem permitted_congr {M' : Deals I P T} (same : M' q.on = M q.on) (permitted : Permitted R M q) :
    Permitted R M' q := by
  obtain ⟨who, newId, operation⟩ := q
  cases operation with
  | propose peer terms =>
    obtain ⟨unused, rest⟩ := permitted
    exact ⟨same.trans unused, rest⟩
  | move id' m =>
    obtain ⟨kills, d, here, rest⟩ := permitted
    exact ⟨kills, d, same.trans here, rest⟩

theorem effect_congr {M' : Deals I P T} (same : M' q.on = M q.on) :
    effect M' q q.on = effect M q q.on := by
  obtain ⟨who, newId, operation⟩ := q
  cases operation with
  | propose peer terms => simp [effect, Request.on]
  | move id' m =>
    have same' : M' id' = M id' := same
    simp [effect, Request.on, same']

private theorem effect_alone : effect (alone M q.on) q = alone (effect M q) q.on := by
  funext other
  by_cases on : other = q.on
  · subst on
    rw [effect_congr (M := M) (if_pos rfl)]
    exact (if_pos rfl).symm
  · rw [effect_off on]
    simp [alone, on]

/-- The requests about one deal are a run by themselves. -/
theorem run_alone (run : Run (market R) always empty qs M) (id : I) :
    Run (market R) always empty (qs.filter (fun q => q.on = id)) (alone M id) := by
  induction run with
  | nil =>
    have none : alone (empty : Deals I P T) id = empty := by
      funext other
      simp [alone, empty]
    rw [none]
    exact .nil
  | @snoc M M' qs q _ _ step ih =>
    obtain ⟨permitted, rfl⟩ := step
    rw [List.filter_append]
    by_cases on : q.on = id
    · subst on
      have granted : Permitted R (alone M q.on) q := permitted_congr (if_pos rfl) permitted
      simpa using ih.snoc trivial ⟨granted, effect_alone.symm⟩
    · have same : alone (effect M q) id = alone M id := by
        funext other
        simp only [alone, effect_off (Ne.symm on)]
      simpa [on, same] using ih

private theorem only_deal (run : Run (market R) always empty qs M) (one : ∀ q ∈ qs, q.on = id)
    {other : I} (apart : other ≠ id) : M other = none := by
  induction run with
  | nil => rfl
  | @snoc M M' qs q _ _ step ih =>
    obtain ⟨-, rfl⟩ := step
    have on := one q (List.mem_append_right _ (List.mem_singleton.mpr rfl))
    rw [effect_off (on ▸ apart)]
    exact ih fun q' hq' => one q' (List.mem_append_left _ hq')

private theorem inPage_alone (some_page : 1 ≤ R.page)
    (only : ∀ other, other ≠ id → M other = none) : InPage R M q := by
  have few : ∀ who phase, (shown M who phase).ncard ≤ R.page := by
    intro who phase
    have among : shown M who phase ⊆ {id} := by
      rintro other ⟨d, here, -⟩
      by_contra apart
      rw [only other apart] at here
      cases here
    exact ((Set.ncard_le_ncard among).trans (Set.ncard_singleton id).le).trans some_page
  unfold InPage
  split
  · trivial
  · exact few _ _

end Market

def about (id : UniqueIdentifier) (e : Started) : Bool :=
  decide ((requestOf e).map Request.on = some id)

variable {map : NetworkMap} {w : NetworkState} {es : List Started} {e : Started}
variable {id : UniqueIdentifier} {L : List SignedTransaction}
variable {M : Deals UniqueIdentifier PublicKey Terms}
variable {q : Request UniqueIdentifier PublicKey Terms}
variable {qs : List (Request UniqueIdentifier PublicKey Terms)}

private theorem asked_about (asked : es.map requestOf = qs.map some) :
    (es.filter (about id)).map requestOf = (qs.filter (fun q => q.on = id)).map some := by
  induction es generalizing qs with
  | nil =>
    have none : qs = [] := by simpa using asked.symm
    simp [none]
  | cons e es ih =>
    cases qs with
    | nil => cases asked
    | cons q qs =>
      obtain ⟨first, rest⟩ := List.cons.inj asked
      have sames : about id e = decide (q.on = id) := by
        simp [about, first]
      rw [List.filter_cons, List.filter_cons, sames]
      split
      · rw [List.map_cons, List.map_cons, ih rest, first]
      · exact ih rest

private theorem market_replayed (run : Run (market (rulesOf map)) always Market.empty qs M)
    (one : ∀ q ∈ qs, q.on = id) (asked : es.map requestOf = qs.map some)
    (known : ∀ e ∈ es, e.node ∈ map.nodes) (distinct : (es.map Started.newId).Nodup) :
    ∃ L, InStep map es L ∧ dealsOf L = M := by
  induction run generalizing es with
  | nil =>
    have none : es = [] := by simpa using asked
    subst none
    exact ⟨[], InStep.none, rfl⟩
  | @snoc M M' qs q before _ step ih =>
    obtain ⟨permitted, rfl⟩ := step
    have earlier : ∀ q ∈ qs, q.on = id := fun q' hq' => one q' (List.mem_append_left _ hq')
    rw [List.map_append, List.map_singleton] at asked
    obtain ⟨es', last, rfl, asked', asked''⟩ := List.map_eq_append_iff.mp asked
    obtain ⟨e, rfl, asks⟩ := List.map_eq_singleton_iff.mp asked''
    rw [List.map_append, List.nodup_append] at distinct
    obtain ⟨distinct', -, apart⟩ := distinct
    obtain ⟨L, inStep, rfl⟩ := ih earlier asked'
      (fun e' he' => known e' (List.mem_append_left _ he')) distinct'
    have some_page : 1 ≤ defaultPageSize := by decide
    exact inStep.granted (known e (List.mem_append_right _ (List.mem_singleton.mpr rfl)))
      (fun e' he' => apart _ (List.mem_map_of_mem he') _ (by simp)) asks permitted
      (inPage_alone some_page fun other => only_deal before earlier)

/-- What becomes of a negotiation is what its own committed starts make of it, one after
the other and with no other negotiation on the network: neither the order in which the
flows of several are interleaved nor how full the vaults are shows. -/
theorem negotiations_independent (h : Reachable (network map) always w) :
    ∃ es, Traded map w es ∧ ∀ id, ∃ L, InStep map (es.filter (about id)) L ∧
      dealsOf L = alone (dealsOf w.ledger) id := by
  obtain ⟨es, trades⟩ := traded h
  refine ⟨es, trades, fun id => ?_⟩
  obtain ⟨qs, asked, run⟩ := trades.leads
  have chronicle := chronicled h
  obtain ⟨l, perm, sub⟩ := trades.order.among
  have among : ∀ e ∈ es, e ∈ w.started := by
    intro e he
    exact trades.order.among.subset (List.mem_append_left _ he)
  have distinct : (es.map Started.newId).Nodup := by
    have all := ((perm.map Started.newId).nodup_iff).mp ((sub.map _).nodup chronicle.ids)
    rw [List.map_append] at all
    exact (List.nodup_append.mp all).1
  have one : ∀ q ∈ qs.filter (fun q => q.on = id), q.on = id := by
    intro q hq
    simpa using (List.mem_filter.mp hq).2
  exact market_replayed (run_alone run id) one (asked_about asked)
    (fun e he => chronicle.nodes e (among e (List.mem_of_mem_filter he)))
    ((List.filter_sublist.map _).nodup distinct)

theorem negotiations_independent_race : Reachable (network twoNodes) always raced ∧
    ∃ es, Traded twoNodes raced es ∧ ∀ id, ∃ L, InStep twoNodes (es.filter (about id)) L ∧
      dealsOf L = alone (dealsOf raced.ledger) id :=
  ⟨raced_reachable, negotiations_independent raced_reachable⟩

end EnergyMarket.Independence
