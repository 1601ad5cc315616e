/- Module: EnergyMarket/Library/Utxo
   digest: Append-only ledgers of single-spend transactions, and where spent outputs came from. -/

import EnergyMarket.Library.Runs
import Mathlib.Combinatorics.Enumerative.DoubleCounting
import Mathlib.Data.List.Basic
import Mathlib.Data.List.Induction
import Mathlib.Data.List.Sigma

set_option autoImplicit false
set_option relaxedAutoImplicit false

namespace EnergyMarket.Library.Utxo
open EnergyMarket.Library.Runs

/-- An output named by the position of its transaction and its own position there. -/
structure OutputRef where
  txIndex : Nat
  outputIndex : Nat
  deriving DecidableEq, Repr

/-- What a ledger reads of a transaction: resolved inputs and created outputs. -/
structure Ports (T S : Type) where
  inputs : T → List (OutputRef × S)
  outputs : T → List S

variable {T S : Type}

namespace Ports

variable (P : Ports T S)

def consumed (t : T) : List OutputRef := (P.inputs t).map Prod.fst

def outputAt (L : List T) (r : OutputRef) : Option S :=
  L[r.txIndex]?.bind (fun t => (P.outputs t)[r.outputIndex]?)

/-- The outputs of one transaction, named by its position. -/
def outputsAt (k : Nat) (t : T) : List (OutputRef × S) :=
  (P.outputs t).zipIdx.map (fun o => (⟨k, o.2⟩, o.1))

/-- Every output a ledger ever created, in order. -/
def created (L : List T) : List (OutputRef × S) :=
  L.zipIdx.flatMap (fun t => P.outputsAt t.2 t.1)

def Spent (L : List T) (r : OutputRef) : Prop := ∃ t ∈ L, r ∈ P.consumed t

def Unspent (L : List T) (r : OutputRef) (s : S) : Prop :=
  P.outputAt L r = some s ∧ ¬ P.Spent L r

/-- Every input is an unspent output, and no output is consumed twice at once. -/
structure Spendable (L : List T) (t : T) : Prop where
  unspent : ∀ i ∈ P.inputs t, P.Unspent L i.1 i.2
  distinct : (P.consumed t).Nodup

/-- The notary's system: a transaction the rule admits is appended when its inputs
are unspent. -/
def system (rule : List T → T → Prop) : System (List T) T where
  initial L := L = []
  step L t L' := P.Spendable L t ∧ rule L t ∧ L' = L ++ [t]

abbrev Ledger (rule : List T → T → Prop) (L : List T) : Prop :=
  Reachable (P.system rule) always L

instance [DecidableEq S] (L : List T) (r : OutputRef) (s : S) : Decidable (P.Unspent L r s) :=
  inferInstanceAs (Decidable (_ ∧ ¬ ∃ t ∈ L, _))

instance [DecidableEq S] (L : List T) (t : T) : Decidable (P.Spendable L t) :=
  decidable_of_iff ((∀ i ∈ P.inputs t, P.Unspent L i.1 i.2) ∧ (P.consumed t).Nodup)
    ⟨fun h => ⟨h.1, h.2⟩, fun h => ⟨h.unspent, h.distinct⟩⟩

end Ports

variable {P : Ports T S} {rule rule' : List T → T → Prop} {L K : List T} {t u : T}
variable {r : OutputRef} {s : S}

theorem outputAt_some : P.outputAt L r = some s ↔
    ∃ t, L[r.txIndex]? = some t ∧ (P.outputs t)[r.outputIndex]? = some s :=
  Option.bind_eq_some_iff

theorem position_append {k : Nat} (h : L[k]? = some t) : (L ++ K)[k]? = some t := by
  have within : k < L.length := (List.getElem?_eq_some_iff.mp h).1
  rw [List.getElem?_append_left within]
  exact h

theorem outputAt_append (h : P.outputAt L r = some s) : P.outputAt (L ++ K) r = some s := by
  obtain ⟨t, ht, hs⟩ := outputAt_some.mp h
  exact outputAt_some.mpr ⟨t, position_append ht, hs⟩

theorem outputAt_snoc : P.outputAt (L ++ [t]) r = some s ↔
    P.outputAt L r = some s ∨
      r.txIndex = L.length ∧ (P.outputs t)[r.outputIndex]? = some s := by
  simp only [outputAt_some, List.getElem?_append]
  by_cases old : r.txIndex < L.length
  · have apart : r.txIndex ≠ L.length := by omega
    simp [old, apart]
  · by_cases here : r.txIndex = L.length
    · simp [here]
    · have beyond : r.txIndex - L.length ≠ 0 := by omega
      simp [old, here, beyond]

theorem outputAt_lt (h : P.outputAt L r = some s) : r.txIndex < L.length := by
  obtain ⟨t, ht, -⟩ := outputAt_some.mp h
  exact (List.getElem?_eq_some_iff.mp ht).1

theorem mem_outputsAt {k : Nat} : (r, s) ∈ P.outputsAt k t ↔
    r.txIndex = k ∧ (P.outputs t)[r.outputIndex]? = some s := by
  obtain ⟨i, j⟩ := r
  simp only [Ports.outputsAt, List.mem_map, Prod.mk.injEq, OutputRef.mk.injEq, Prod.exists,
    List.mem_zipIdx_iff_getElem?]
  constructor
  · rintro ⟨a, n, at_n, ⟨rfl, rfl⟩, rfl⟩
    exact ⟨rfl, at_n⟩
  · rintro ⟨rfl, at_j⟩
    exact ⟨s, j, at_j, ⟨rfl, rfl⟩, rfl⟩

theorem created_snoc : P.created (L ++ [t]) = P.created L ++ P.outputsAt L.length t := by
  simp [Ports.created, List.zipIdx_append]

theorem mem_created : (r, s) ∈ P.created L ↔ P.outputAt L r = some s := by
  simp only [Ports.created, List.mem_flatMap, Prod.exists, List.mem_zipIdx_iff_getElem?,
    mem_outputsAt, outputAt_some]
  constructor
  · rintro ⟨t, k, ht, rfl, hs⟩
    exact ⟨t, ht, hs⟩
  · rintro ⟨t, ht, hs⟩
    exact ⟨t, r.txIndex, ht, rfl, hs⟩

theorem outputsAt_nodup {k : Nat} : (P.outputsAt k t).Nodup := by
  refine List.Nodup.of_map (fun o => o.1.outputIndex) ?_
  simpa [Ports.outputsAt, Function.comp_def] using List.nodup_zipIdx_map_snd (P.outputs t)

theorem created_nodup : (P.created L).Nodup := by
  induction L using List.reverseRecOn with
  | nil => exact List.nodup_nil
  | append_singleton L t ih =>
    rw [created_snoc]
    refine List.Nodup.append ih outputsAt_nodup fun o old new => ?_
    have before := outputAt_lt (mem_created.mp old)
    have here := (mem_outputsAt.mp new).1
    omega

theorem spent_snoc : P.Spent (L ++ [t]) r ↔ P.Spent L r ∨ r ∈ P.consumed t := by
  simp [Ports.Spent, or_and_right, exists_or]

theorem mem_consumed : r ∈ P.consumed t ↔ ∃ s, (r, s) ∈ P.inputs t := by
  simp [Ports.consumed]

theorem Ports.Spendable.resolves (h : P.Spendable L t) {i : OutputRef × S}
    (hi : i ∈ P.inputs t) : P.outputAt L i.1 = some i.2 :=
  (h.unspent i hi).1

theorem Ports.Spendable.fresh (h : P.Spendable L t) (hr : r ∈ P.consumed t) :
    ¬ P.Spent L r := by
  obtain ⟨s, hs⟩ := mem_consumed.mp hr
  exact (h.unspent (r, s) hs).2

theorem Ports.Spendable.earlier (h : P.Spendable L t) (hr : r ∈ P.consumed t) :
    r.txIndex < L.length := by
  obtain ⟨s, hs⟩ := mem_consumed.mp hr
  exact outputAt_lt (h.unspent (r, s) hs).1

theorem spendable_none (none : P.inputs t = []) : P.Spendable L t :=
  ⟨by simp [none], by simp [Ports.consumed, none]⟩

theorem spendable_single (single : P.inputs t = [(r, s)]) (unspent : P.Unspent L r s) :
    P.Spendable L t :=
  ⟨by simpa [single] using unspent, by simp [Ports.consumed, single]⟩

theorem unspent_snoc (h : P.Spendable L t) : P.Unspent (L ++ [t]) r s ↔
    P.Unspent L r s ∧ r ∉ P.consumed t ∨
      r.txIndex = L.length ∧ (P.outputs t)[r.outputIndex]? = some s ∧ ¬ P.Spent L r := by
  have new : r.txIndex = L.length → r ∉ P.consumed t := fun at_end hr => by
    have := h.earlier hr
    omega
  simp only [Ports.Unspent, outputAt_snoc, spent_snoc, not_or]
  tauto

theorem Ports.Ledger.nil : P.Ledger rule [] := .initial rfl

theorem Ports.Ledger.snoc (h : P.Ledger rule L) (hs : P.Spendable L t) (hr : rule L t) :
    P.Ledger rule (L ++ [t]) :=
  h.next ⟨hs, hr, rfl⟩

/-- Induction over a ledger, one committed transaction at a time. -/
@[elab_as_elim]
theorem Ports.Ledger.induct {motive : (L : List T) → P.Ledger rule L → Prop}
    (nil : motive [] .nil)
    (snoc : ∀ (L : List T) (t : T) (hL : P.Ledger rule L) (hs : P.Spendable L t)
      (hr : rule L t), motive L hL → motive (L ++ [t]) (hL.snoc hs hr))
    {L : List T} (h : P.Ledger rule L) : motive L h := by
  induction h with
  | initial h0 =>
    have empty : _ = [] := h0
    subst empty
    exact nil
  | step hL _ hs ih =>
    obtain ⟨spendable, admitted, rfl⟩ := hs
    exact snoc _ _ hL spendable admitted ih

theorem Ports.Ledger.mono
    (weaker : ∀ L t, P.Ledger rule L → P.Spendable L t → rule L t → rule' L t)
    (h : P.Ledger rule L) : P.Ledger rule' L := by
  induction h using Ports.Ledger.induct with
  | nil => exact .nil
  | snoc L t hL hs hr ih => exact ih.snoc hs (weaker L t hL hs hr)

/-- What held when the transaction at a position was committed. -/
theorem Ports.Ledger.at (h : P.Ledger rule L) {k : Nat} (hk : L[k]? = some t) :
    P.Ledger rule (L.take k) ∧ P.Spendable (L.take k) t ∧ rule (L.take k) t := by
  induction h using Ports.Ledger.induct with
  | nil => simp at hk
  | snoc L u hL hs hr ih =>
    rcases Nat.lt_trichotomy k L.length with old | here | beyond
    · rw [List.getElem?_append_left old] at hk
      rw [List.take_append_of_le_length (Nat.le_of_lt old)]
      exact ih hk
    · subst here
      have same : u = t := by simpa using hk
      rw [List.take_left, ← same]
      exact ⟨hL, hs, hr⟩
    · rw [List.getElem?_eq_none (by simp only [List.length_append, List.length_singleton]; omega)]
        at hk
      cases hk

/-- Every input was created by an earlier transaction, as the state it resolves to. -/
theorem Ports.Ledger.origin (h : P.Ledger rule L) {k : Nat} (hk : L[k]? = some t)
    {i : OutputRef × S} (hi : i ∈ P.inputs t) :
    i.1.txIndex < k ∧ P.outputAt L i.1 = some i.2 := by
  obtain ⟨-, spendable, -⟩ := h.at hk
  have resolved := spendable.resolves hi
  have before := outputAt_lt resolved
  rw [List.length_take] at before
  refine ⟨by omega, ?_⟩
  rw [← List.take_append_drop k L]
  exact outputAt_append resolved

theorem Ports.Ledger.spent_lt (h : P.Ledger rule L) (spent : P.Spent L r) :
    r.txIndex < L.length := by
  obtain ⟨t, mem, hr⟩ := spent
  obtain ⟨k, hk⟩ := List.mem_iff_getElem?.mp mem
  obtain ⟨s, hs⟩ := mem_consumed.mp hr
  exact outputAt_lt (h.origin hk hs).2

/-- No output is consumed by two committed transactions. -/
theorem Ports.Ledger.spent_once (h : P.Ledger rule L) {j k : Nat} (hj : L[j]? = some t)
    (hk : L[k]? = some u) (rt : r ∈ P.consumed t) (ru : r ∈ P.consumed u) : j = k := by
  have one_way : ∀ {j k : Nat} {t u : T}, L[j]? = some t → L[k]? = some u →
      r ∈ P.consumed t → r ∈ P.consumed u → ¬ j < k := by
    intro j k t u hj hk rt ru before
    refine (h.at hk).2.1.fresh ru ⟨t, ?_, rt⟩
    exact List.mem_iff_getElem?.mpr ⟨j, by rw [List.getElem?_take, if_pos before, hj]⟩
  have := one_way hj hk rt ru
  have := one_way hk hj ru rt
  omega

/-- Where every output of one kind is the only one of its transaction and comes from an
input of another kind, it was created no more often than the other. -/
theorem Ports.Ledger.count_le (h : P.Ledger rule L) {A B : S → Bool}
    (from_one : ∀ (k : Nat) (t : T), L[k]? = some t → ∀ (n : Nat) (s : S),
      (P.outputs t)[n]? = some s → A s = true → n = 0 ∧ ∃ i ∈ P.inputs t, B i.2 = true) :
    (P.created L).countP (fun o => A o.2) ≤ (P.created L).countP (fun o => B o.2) := by
  classical
  have card : ∀ C : S → Bool, (P.created L).countP (fun o => C o.2) =
      ((P.created L).filter (fun o => C o.2)).toFinset.card := by
    intro C
    rw [List.countP_eq_length_filter, List.toFinset_card_of_nodup (created_nodup.filter _)]
  rw [card A, card B]
  refine Finset.card_le_card_of_forall_subsingleton
    (fun o i => ∃ t, L[o.1.txIndex]? = some t ∧ i ∈ P.inputs t) ?_ ?_
  · rintro ⟨r, s⟩ ho
    simp only [List.mem_toFinset, List.mem_filter, mem_created] at ho
    obtain ⟨created, kind⟩ := ho
    obtain ⟨t, ht, hs⟩ := outputAt_some.mp created
    obtain ⟨-, i, hi, other⟩ := from_one _ t ht _ s hs kind
    have resolved : i ∈ P.created L := mem_created.mpr (h.origin ht hi).2
    exact ⟨i, by simpa using ⟨resolved, other⟩, t, ht, hi⟩
  · rintro i - ⟨r, s⟩ ⟨ho, t, ht, hi⟩ ⟨r', s'⟩ ⟨ho', t', ht', hi'⟩
    simp only [List.mem_toFinset, List.mem_filter, mem_created] at ho ho'
    have first : ∀ {r : OutputRef} {s : S}, P.outputAt L r = some s → A s = true →
        r.outputIndex = 0 := by
      intro r s created kind
      obtain ⟨t, ht, hs⟩ := outputAt_some.mp created
      exact (from_one _ t ht _ s hs kind).1
    have same_tx : r.txIndex = r'.txIndex :=
      h.spent_once ht ht' (mem_consumed.mpr ⟨_, hi⟩) (mem_consumed.mpr ⟨_, hi'⟩)
    have same : r = r' := by
      obtain ⟨k, n⟩ := r
      obtain ⟨k', n'⟩ := r'
      obtain rfl : n = 0 := first ho.1 ho.2
      obtain rfl : n' = 0 := first ho'.1 ho'.2
      exact congrArg (OutputRef.mk · 0) same_tx
    subst same
    exact Prod.ext rfl (Option.some.inj (ho.1.symm.trans ho'.1))

/-- A ledger is legitimate exactly when every prefix admits its next transaction. -/
theorem ledger_iff : P.Ledger rule L ↔ ∀ k : Fin L.length,
    P.Spendable (L.take k.val) L[k] ∧ rule (L.take k.val) L[k] := by
  constructor
  · intro h k
    exact (h.at (List.getElem?_eq_getElem k.isLt)).2
  · intro each
    have upto : ∀ n ≤ L.length, P.Ledger rule (L.take n) := by
      intro n
      induction n with
      | zero => exact fun _ => .nil
      | succ n ih =>
        intro hn
        obtain ⟨spendable, admitted⟩ := each ⟨n, hn⟩
        rw [List.take_succ_eq_append_getElem hn]
        exact (ih (by omega)).snoc spendable admitted
    simpa using upto L.length (Nat.le_refl _)

instance [DecidableEq S] [∀ L t, Decidable (rule L t)] : Decidable (P.Ledger rule L) :=
  decidable_of_iff _ ledger_iff.symm

/-- Position `j` feeds position `k`: the later transaction consumes an output of the
earlier one. -/
def Feeds (P : Ports T S) (L : List T) (j k : Nat) : Prop :=
  ∃ t, L[k]? = some t ∧ ∃ r ∈ P.consumed t, r.txIndex = j

/-- The positions a committed transaction descends from, itself included. -/
def Descends (P : Ports T S) (L : List T) (j k : Nat) : Prop :=
  Relation.ReflTransGen (Feeds P L) j k

theorem feeds_single {k : Nat} (hk : L[k]? = some t) (hi : P.inputs t = [(r, s)]) {j : Nat} :
    Feeds P L j k ↔ j = r.txIndex := by
  simp [Feeds, hk, Ports.consumed, hi, eq_comm]

theorem feeds_none {k : Nat} (hk : L[k]? = some t) (hi : P.inputs t = []) {j : Nat} :
    ¬ Feeds P L j k := by
  simp [Feeds, hk, Ports.consumed, hi]

theorem descends_single {k : Nat} (hk : L[k]? = some t) (hi : P.inputs t = [(r, s)])
    {j : Nat} : Descends P L j k ↔ j = k ∨ Descends P L j r.txIndex := by
  rw [Descends, Relation.ReflTransGen.cases_tail_iff]
  simp only [feeds_single hk hi, exists_eq_right, eq_comm (a := k)]
  rfl

theorem descends_none {k : Nat} (hk : L[k]? = some t) (hi : P.inputs t = []) {j : Nat} :
    Descends P L j k ↔ j = k := by
  rw [Descends, Relation.ReflTransGen.cases_tail_iff]
  simp [feeds_none hk hi, eq_comm]

end EnergyMarket.Library.Utxo
