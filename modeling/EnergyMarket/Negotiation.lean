/- Module: EnergyMarket/Negotiation
   digest: The book of negotiations, and the ledgers of orderly builders that keep it. -/

import EnergyMarket.Identity
import EnergyMarket.Lifecycle

set_option autoImplicit false
set_option relaxedAutoImplicit false

namespace EnergyMarket.Negotiation
open EnergyMarket.Library.Runs EnergyMarket.Library.Utxo EnergyMarket.Library.LinearHistory
open EnergyMarket.States EnergyMarket.Transactions EnergyMarket.Contract EnergyMarket.Ledger
open EnergyMarket.Identity EnergyMarket.Lifecycle

inductive Phase
  | proposed
  | modified
  | traded
  | killed
  deriving DecidableEq, Repr

/-- The phases that may follow one another, the first one following none. -/
def Phase.follows : Option Phase → Phase → Bool
  | none, .proposed => true
  | some .proposed, .modified => true
  | some .proposed, .killed => true
  | some .modified, .traded => true
  | some .modified, .killed => true
  | _, _ => false

/-- What a market wants to know of its negotiations: the phases each has been through. -/
abbrev Book := UniqueIdentifier → List Phase

def book : System Book (UniqueIdentifier × Phase) where
  initial b := ∀ id, b id = []
  step b a b' := Phase.follows (b a.1).getLast? a.2 = true ∧
    b' = Function.update b a.1 (b a.1 ++ [a.2])

/-- The beginnings of a deal, and those of them that a kill may end. -/
def paths : List (List Phase) :=
  [[], [.proposed], [.proposed, .modified], [.proposed, .modified, .traded],
    [.proposed, .killed], [.proposed, .modified, .killed]]

private theorem paths_step {path : List Phase} (h : path ∈ paths) {phase : Phase}
    (follows : Phase.follows path.getLast? phase = true) : path ++ [phase] ∈ paths := by
  simp only [paths, List.mem_cons, List.not_mem_nil, or_false] at h
  rcases h with rfl | rfl | rfl | rfl | rfl | rfl <;> cases phase <;>
    first | exact absurd follows (by decide) | decide

/-- In every book kept step by step, every negotiation has been through one of six
paths. -/
theorem book_paths {b : Book} (h : Reachable book always b) (id : UniqueIdentifier) :
    b id ∈ paths := by
  refine h.invariant (I := fun b => ∀ id, b id ∈ paths) (fun b empty id => ?_)
    (fun b a b' _ ih _ hs id => ?_) id
  · rw [empty id]
    decide
  · obtain ⟨follows, rfl⟩ := hs
    by_cases same : id = a.1
    · subst same
      rw [Function.update_self]
      exact paths_step (ih a.1) follows
    · rw [Function.update_of_ne same]
      exact ih id

def phase : ContractState → Option Phase
  | .proposal _ => some .proposed
  | .modify _ => some .modified
  | .trade _ => some .traded
  | .kill _ => some .killed
  | .foreign _ => none

/-- The book that a ledger keeps. -/
def bookOf (L : List SignedTransaction) : Book := fun id =>
  (history ports key L id).filterMap (fun a => phase a.2.data)

/-- Builders who keep the ids and kill only what is open. -/
def negotiationRule (L : List SignedTransaction) (stx : SignedTransaction) : Prop :=
  idRule L stx ∧ KillTakesOpen stx.tx

variable {L : List SignedTransaction} {stx : SignedTransaction} {id : UniqueIdentifier}

theorem ids_of_rule (h : ports.Ledger negotiationRule L) : ports.Ledger idRule L :=
  h.mono (fun _ _ _ _ hr => hr.1)

private theorem bookOf_created {o : TransactionState ContractState} {entered : Phase}
    (outputs : keyedOutputs ports key stx = [o]) (ho : key o = some id)
    (entering : phase o.data = some entered) :
    bookOf (L ++ [stx]) = Function.update (bookOf L) id (bookOf L id ++ [entered]) := by
  obtain ⟨j, -, grown⟩ := history_created (L := L) outputs
  funext other
  by_cases same : other = id
  · subst same
    simp [bookOf, grown, ho, entering]
  · have apart : key o ≠ some other := by
      rw [ho]
      exact fun h => same (Option.some.inj h).symm
    simp [bookOf, grown, apart, same]

private theorem bookOf_last {a : StateRef × TransactionState ContractState} {last : Phase}
    (tip : (history ports key L id).getLast? = some a) (at_tip : phase a.2.data = some last) :
    (bookOf L id).getLast? = some last := by
  obtain ⟨init, grown⟩ := List.getLast?_eq_some_iff.mp tip
  simp [bookOf, grown, at_tip]

private theorem replacing_follows (hL : ports.Ledger idRule L) (hs : ports.Spendable L stx)
    {s o : ContractState} {left entered : Phase} (hin : stx.tx.getInputStates = [s])
    (hout : stx.tx.getOutputStates = [o]) (ho : o.getLinearId = some id) (kept : IdKept stx.tx)
    (leaving : phase s = some left) (entering : phase o = some entered)
    (follows : Phase.follows (some left) entered = true) :
    book.step (bookOf L) (id, entered) (bookOf (L ++ [stx])) := by
  have hs' : s.getLinearId = some id := by
    rw [← kept s (mem_of_single hin) o (mem_of_single hout), ho]
  obtain ⟨r, notary, inputs⟩ := inputs_single hin
  obtain ⟨notary', outputs⟩ := keyedOutputs_single hout (by simp [ho])
  have unspent := hs.unspent (r, ⟨s, notary⟩) (mem_of_single inputs)
  have tip := ((threaded_ids hL id).tip r ⟨s, notary⟩ hs').mp unspent
  refine ⟨?_, bookOf_created outputs ho entering⟩
  rw [bookOf_last tip leaving]
  exact follows

theorem ledger_step (hL : ports.Ledger idRule L) (hs : ports.Spendable L stx)
    (hr : negotiationRule L stx) :
    bookOf (L ++ [stx]) = bookOf L ∨ ∃ a, book.step (bookOf L) a (bookOf (L ++ [stx])) := by
  obtain ⟨⟨committable, kept, new⟩, takes⟩ := hr
  cases runs : stx.tx.runsContract with
  | false =>
    left
    funext id
    simp [bookOf, history_quiet (unkeyed_of_foreign runs).2]
  | true =>
    right
    cases committable.accepted runs with
    | @propose p h =>
      obtain ⟨notary, outputs⟩ := keyedOutputs_single h.outputs
        (by simp [ContractState.getLinearId])
      refine ⟨(p.linearId, .proposed), ?_, bookOf_created outputs rfl rfl⟩
      have unused : history ports key L p.linearId = [] := unused_of_new h new
      simp [bookOf, unused, Phase.follows]
    | accept h => exact ⟨_, replacing_follows hL hs h.inputs h.outputs rfl kept rfl rfl rfl⟩
    | modify h => exact ⟨_, replacing_follows hL hs h.inputs h.outputs rfl kept rfl rfl rfl⟩
    | kill h =>
      rcases ContractState.isOpen_iff.mp (takes.isOpen runs h) with ⟨p, rfl⟩ | ⟨m, rfl⟩
      · exact ⟨_, replacing_follows hL hs h.inputs h.outputs rfl kept rfl rfl rfl⟩
      · exact ⟨_, replacing_follows hL hs h.inputs h.outputs rfl kept rfl rfl rfl⟩

/-- The ledgers of such builders keep the book. -/
theorem ledger_keeps_book (h : ports.Ledger negotiationRule L) :
    Reachable book always (bookOf L) := by
  refine h.refine bookOf (fun L empty id => ?_) (fun L stx L' hL _ hs => ?_)
  · obtain rfl : L = [] := empty
    rfl
  · obtain ⟨spendable, admitted, rfl⟩ := hs
    exact ledger_step (ids_of_rule hL) spendable admitted

/-- The states that one linear id can go through. -/
inductive Path : List ContractState → Prop
  | unused : Path []
  | proposed {p : ProposalState} : Path [.proposal p]
  | modified {p : ProposalState} {m : ModifyState} : Path [.proposal p, .modify m]
  | traded {p : ProposalState} {m : ModifyState} {t : TradeState} :
      Path [.proposal p, .modify m, .trade t]
  | killedProposal {p : ProposalState} {κ : KillState} : Path [.proposal p, .kill κ]
  | killedModification {p : ProposalState} {m : ModifyState} {κ : KillState} :
      Path [.proposal p, .modify m, .kill κ]

private theorem phase_inv {s : ContractState} {entered : Phase} (h : phase s = some entered) :
    match entered with
    | .proposed => ∃ p, s = .proposal p
    | .modified => ∃ m, s = .modify m
    | .traded => ∃ t, s = .trade t
    | .killed => ∃ κ, s = .kill κ := by
  cases s <;> simp only [phase, Option.some.injEq, reduceCtorEq] at h <;> subst h <;> simp

private theorem path_of_phases {l : List ContractState} {path : List Phase} (h : path ∈ paths)
    (phases : l.map phase = path.map some) : Path l := by
  simp only [paths, List.mem_cons, List.not_mem_nil, or_false] at h
  rcases h with rfl | rfl | rfl | rfl | rfl | rfl <;>
    simp only [List.map_cons, List.map_nil, List.map_eq_cons_iff, List.map_eq_nil_iff] at phases
  · subst phases
    exact .unused
  · obtain ⟨s, l, rfl, hs, rfl⟩ := phases
    obtain ⟨p, rfl⟩ := phase_inv hs
    exact .proposed
  · obtain ⟨s, l, rfl, hs, s', l', rfl, hs', rfl⟩ := phases
    obtain ⟨p, rfl⟩ := phase_inv hs
    obtain ⟨m, rfl⟩ := phase_inv hs'
    exact .modified
  · obtain ⟨s, l, rfl, hs, s', l', rfl, hs', s'', l'', rfl, hs'', rfl⟩ := phases
    obtain ⟨p, rfl⟩ := phase_inv hs
    obtain ⟨m, rfl⟩ := phase_inv hs'
    obtain ⟨t, rfl⟩ := phase_inv hs''
    exact .traded
  · obtain ⟨s, l, rfl, hs, s', l', rfl, hs', rfl⟩ := phases
    obtain ⟨p, rfl⟩ := phase_inv hs
    obtain ⟨κ, rfl⟩ := phase_inv hs'
    exact .killedProposal
  · obtain ⟨s, l, rfl, hs, s', l', rfl, hs', s'', l'', rfl, hs'', rfl⟩ := phases
    obtain ⟨p, rfl⟩ := phase_inv hs
    obtain ⟨m, rfl⟩ := phase_inv hs'
    obtain ⟨κ, rfl⟩ := phase_inv hs''
    exact .killedModification

/-- The safety of one negotiation: its committed states are one path, each replacing the
one before it, exactly one of them is unspent, and it does not end twice. -/
structure Safe (L : List SignedTransaction) (id : UniqueIdentifier) : Prop where
  path : Path ((history ports key L id).map (fun a => a.2.data))
  replaces : (history ports key L id).IsChain (Replaces ports L)
  unspent : history ports key L id ≠ [] →
    ∃! a : StateRef × TransactionState ContractState, ports.Unspent L a.1 a.2 ∧ key a.2 = some id
  exclusive : ¬ ((∃ a ∈ history ports key L id, ∃ t, a.2.data = .trade t) ∧
    ∃ a ∈ history ports key L id, ∃ κ, a.2.data = .kill κ)

private theorem Path.exclusive {l : List ContractState} (h : Path l) :
    ¬ ((∃ t, .trade t ∈ l) ∧ ∃ κ, .kill κ ∈ l) := by
  cases h <;> simp

theorem history_phases (id : UniqueIdentifier) :
    ((history ports key L id).map (fun a => a.2.data)).map phase = (bookOf L id).map some := by
  have total : ∀ a ∈ history ports key L id, phase a.2.data ≠ none := by
    rintro ⟨r, ⟨s, notary⟩⟩ ha none
    have keyed := (mem_history.mp ha).2
    cases s <;> simp_all [phase, key, ContractState.getLinearId]
  simp only [bookOf, List.map_map, Function.comp_def]
  generalize history ports key L id = states at total
  induction states with
  | nil => rfl
  | cons a rest ih =>
    obtain ⟨entered, ha⟩ := Option.ne_none_iff_exists'.mp (total a (List.mem_cons_self ..))
    simp only [List.map_cons, List.filterMap_cons, ha]
    rw [ih (fun b hb => total b (List.mem_cons_of_mem _ hb))]

theorem safe_of_rule (h : ports.Ledger negotiationRule L) (id : UniqueIdentifier) : Safe L id := by
  have threaded := threaded_ids (ids_of_rule h) id
  have path : Path ((history ports key L id).map (fun a => a.2.data)) :=
    path_of_phases (book_paths (ledger_keeps_book h) id) (history_phases id)
  refine ⟨path, threaded.chain, fun some_state => ?_, ?_⟩
  · obtain ⟨a, last⟩ := Option.isSome_iff_exists.mp (List.getLast?_isSome.mpr some_state)
    obtain ⟨-, keyed⟩ := mem_history.mp (List.mem_of_getLast? last)
    have unspent := (threaded.tip a.1 a.2 keyed).mpr last
    refine ⟨a, ⟨unspent, keyed⟩, fun b hb => ?_⟩
    obtain ⟨ref, state⟩ := threaded.one_unspent hb.1 unspent hb.2 keyed
    exact Prod.ext ref state
  · rintro ⟨⟨a, ha, t, traded⟩, b, hb, κ, killed⟩
    exact path.exclusive ⟨⟨t, List.mem_map.mpr ⟨a, ha, traded⟩⟩, κ,
      List.mem_map.mpr ⟨b, hb, killed⟩⟩

end EnergyMarket.Negotiation
