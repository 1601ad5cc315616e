/- Module: EnergyMarket/Market
   digest: What the market is for: deals between two parties, and who may do what to them. -/

import EnergyMarket.Negotiation
import Mathlib.Data.Set.Card

set_option autoImplicit false
set_option relaxedAutoImplicit false

namespace EnergyMarket.Market
open EnergyMarket.Library.Runs EnergyMarket.Negotiation

/-- Parties, terms and identifiers are of any types. -/
structure Deal (P T : Type) where
  buyer : P
  seller : P
  terms : T
  phase : Phase

/-- The deals of a market, by identifier. -/
abbrev Deals (I P T : Type) := I → Option (Deal P T)

/-- What may be done to a deal. -/
inductive Move (T : Type)
  | modify (terms : T)
  | accept
  | killProposal
  | killModification

inductive Operation (I P T : Type)
  | propose (peer : P) (terms : T)
  | move (id : I) (m : Move T)

/-- What a party asks for, with the identifier under which it would open a deal. -/
structure Request (I P T : Type) where
  who : P
  newId : I
  operation : Operation I P T

/-- What is given of a market: who can be reached, whether proposals and kills find their
notary, and how many deals of one phase a party can have listed. -/
structure Rules (P : Type) where
  member : P → Prop
  opens : Prop
  kills : Prop
  page : Nat

variable {I P T : Type}

namespace Move

def leaves : Move T → Phase
  | modify _ | killProposal => .proposed
  | accept | killModification => .modified

def enters : Move T → Phase
  | modify _ => .modified
  | accept => .traded
  | killProposal | killModification => .killed

def terms (old : T) : Move T → T
  | modify new => new
  | accept | killProposal | killModification => old

theorem follows (m : Move T) : Phase.follows (some m.leaves) m.enters = true := by
  cases m <;> rfl

end Move

namespace Deal

def concerns (d : Deal P T) (q : P) : Prop := d.buyer = q ∨ d.seller = q

/-- The seller answers a proposal, the buyer the modification; either may end both. -/
def allows (d : Deal P T) (q : P) : Move T → Prop
  | .modify _ => d.seller = q
  | .accept => d.buyer = q
  | .killProposal | .killModification => d.concerns q

def after (d : Deal P T) (m : Move T) : Deal P T := ⟨d.buyer, d.seller, m.terms d.terms, m.enters⟩

/-- Nothing more can be done to the deal. -/
def closed (d : Deal P T) : Prop := ∀ m : Move T, d.phase ≠ m.leaves

end Deal

namespace Request

def on (q : Request I P T) : I :=
  match q.operation with
  | .propose _ _ => q.newId
  | .move id _ => id

def enters (q : Request I P T) : Phase :=
  match q.operation with
  | .propose _ _ => .proposed
  | .move _ m => m.enters

end Request

def empty : Deals I P T := fun _ => none

def Permitted (R : Rules P) (M : Deals I P T) (q : Request I P T) : Prop :=
  match q.operation with
  | .propose peer _ => M q.newId = none ∧ R.opens ∧ R.member peer ∧ peer ≠ q.who
  | .move id m => (m.enters = .killed → R.kills) ∧
      ∃ d, M id = some d ∧ d.phase = m.leaves ∧ d.allows q.who m

def effect [DecidableEq I] (M : Deals I P T) (q : Request I P T) : Deals I P T :=
  match q.operation with
  | .propose peer terms => Function.update M q.newId (some ⟨q.who, peer, terms, .proposed⟩)
  | .move id m => Function.update M id ((M id).map (fun d => d.after m))

def market [DecidableEq I] (R : Rules P) : System (Deals I P T) (Request I P T) where
  initial M := M = empty
  step M q M' := Permitted R M q ∧ M' = effect M q

/-- The deals at a phase that a party has listed. -/
def shown (M : Deals I P T) (q : P) (phase : Phase) : Set I :=
  {id | ∃ d, M id = some d ∧ d.phase = phase ∧ d.concerns q}

/-- To do something to a deal is to find it among those that are listed, on one page. -/
def InPage (R : Rules P) (M : Deals I P T) (q : Request I P T) : Prop :=
  match q.operation with
  | .propose _ _ => True
  | .move _ m => (shown M q.who m.leaves).ncard ≤ R.page

open Classical in
/-- One request after another: whether it is granted, and what it leaves. -/
noncomputable def serve [DecidableEq I] (R : Rules P) (M : Deals I P T) (q : Request I P T) :
    Bool × Deals I P T :=
  if Permitted R M q ∧ InPage R M q then (true, effect M q) else (false, M)

variable [DecidableEq I] {R : Rules P} {M M' : Deals I P T} {q : Request I P T}
variable {qs : List (Request I P T)} {id : I} {d : Deal P T}

theorem effect_on (permitted : Permitted R M q) :
    ∃ d, effect M q q.on = some d ∧ d.phase = q.enters := by
  obtain ⟨who, newId, operation⟩ := q
  cases operation with
  | propose peer terms => exact ⟨⟨who, peer, terms, .proposed⟩, by simp [effect, Request.on], rfl⟩
  | move id m =>
    obtain ⟨-, d, here, -⟩ := permitted
    exact ⟨d.after m, by simp [effect, Request.on, here], rfl⟩

theorem effect_off (off : id ≠ q.on) : effect M q id = M id := by
  obtain ⟨who, newId, operation⟩ := q
  cases operation with
  | propose peer terms => exact Function.update_of_ne off _ _
  | move id' m => exact Function.update_of_ne off _ _

omit [DecidableEq I] in
/-- What is permitted takes its deal one phase further. -/
theorem permitted_follows (permitted : Permitted R M q) :
    Phase.follows ((M q.on).map Deal.phase) q.enters = true := by
  obtain ⟨who, newId, operation⟩ := q
  cases operation with
  | propose peer terms =>
    obtain ⟨unused, -⟩ := permitted
    have none : M newId = none := unused
    simp [Request.on, Request.enters, none, Phase.follows]
  | move id m =>
    obtain ⟨-, d, here, leaves, -⟩ := permitted
    have on : (M id).map Deal.phase = some m.leaves := by simp [here, leaves]
    simpa only [Request.on, Request.enters, on] using m.follows

/-- The phases that the requests of a run have taken a deal through. -/
def trace (qs : List (Request I P T)) (id : I) : List Phase :=
  (qs.filter (fun q => q.on = id)).map Request.enters

theorem trace_cons :
    trace (q :: qs) id = (if q.on = id then [q.enters] else []) ++ trace qs id := by
  by_cases on : q.on = id <;> simp [trace, on]

theorem trace_nil_iff : trace qs id = [] ↔ ∀ q ∈ qs, q.on ≠ id := by
  simp [trace, List.filter_eq_nil_iff]

/-- What no run takes back: who deals with whom, and what is closed. -/
structure Kept (d d' : Deal P T) : Prop where
  buyer : d'.buyer = d.buyer
  seller : d'.seller = d.seller
  final : d.closed → d' = d

theorem Kept.refl (d : Deal P T) : Kept d d := ⟨rfl, rfl, fun _ => rfl⟩

theorem Kept.trans {d d₁ d₂ : Deal P T} (h : Kept d d₁) (h' : Kept d₁ d₂) : Kept d d₂ := by
  refine ⟨h'.buyer.trans h.buyer, h'.seller.trans h.seller, fun closed => ?_⟩
  obtain rfl := h.final closed
  exact h'.final closed

theorem kept_step (permitted : Permitted R M q) (here : M id = some d) :
    ∃ d', effect M q id = some d' ∧ Kept d d' := by
  by_cases on : id = q.on
  · obtain ⟨who, newId, operation⟩ := q
    cases operation with
    | propose peer terms =>
      obtain ⟨unused, -⟩ := permitted
      obtain rfl : id = newId := on
      cases here.symm.trans unused
    | move id' m =>
      obtain ⟨-, d', here', leaves, -⟩ := permitted
      obtain rfl : id = id' := on
      obtain rfl : d = d' := Option.some.inj (here.symm.trans here')
      refine ⟨d.after m, by simp [effect, here], rfl, rfl, fun closed => ?_⟩
      exact absurd leaves (closed m)
  · exact ⟨d, (effect_off on).trans here, .refl d⟩

theorem kills_of_killed (h : Run (market R) always empty qs M) (here : M id = some d)
    (killed : d.phase = .killed) : R.kills := by
  induction h generalizing d with
  | nil => cases here
  | @snoc M M' qs q before _ step ih =>
    obtain ⟨permitted, rfl⟩ := step
    by_cases on : id = q.on
    · subst on
      obtain ⟨d', here', phase⟩ := effect_on permitted
      obtain rfl : d = d' := Option.some.inj (here.symm.trans here')
      have enters : q.enters = .killed := phase.symm.trans killed
      obtain ⟨who, newId, operation⟩ := q
      cases operation with
      | propose peer terms => cases enters
      | move id m => exact permitted.1 enters
    · exact ih ((effect_off on).symm.trans here) killed

theorem serve_granted (h : Permitted R M q ∧ InPage R M q) : serve R M q = (true, effect M q) :=
  if_pos h

theorem serve_refused (h : ¬ (Permitted R M q ∧ InPage R M q)) : serve R M q = (false, M) :=
  if_neg h

end EnergyMarket.Market
