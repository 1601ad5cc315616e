/- Module: EnergyMarket/Library/LinearHistory
   digest: Keyed outputs that are opened once and replaced one for one, and their histories. -/

import EnergyMarket.Library.Utxo
import Mathlib.Data.List.Chain

set_option autoImplicit false
set_option relaxedAutoImplicit false

namespace EnergyMarket.Library.LinearHistory
open EnergyMarket.Library.Utxo

variable {T S K : Type} [DecidableEq K]

section Definitions

variable (P : Ports T S) (key : S → Option K)

def keyedInputs (t : T) : List (OutputRef × S) :=
  (P.inputs t).filter (fun i => (key i.2).isSome)

def keyedOutputs (t : T) : List S := (P.outputs t).filter (fun s => (key s).isSome)

def history (L : List T) (k : K) : List (OutputRef × S) :=
  (P.created L).filter (fun o => key o.2 = some k)

/-- The second output was created by the transaction that consumed the first. -/
def Replaces (L : List T) (a b : OutputRef × S) : Prop :=
  ∃ t, L[b.1.txIndex]? = some t ∧ a ∈ P.inputs t

/-- What a transaction may do to keyed outputs: nothing, open an unused key, or
replace one output by one of the same key. -/
inductive Linear (L : List T) (t : T) : Prop
  | untracked (inputs : keyedInputs P key t = []) (outputs : keyedOutputs P key t = [])
  | opening {s : S} {k : K} (inputs : keyedInputs P key t = [])
      (outputs : keyedOutputs P key t = [s]) (opens : key s = some k)
      (unused : history P key L k = [])
  | replacing {r : OutputRef} {s s' : S} {k : K} (inputs : keyedInputs P key t = [(r, s)])
      (outputs : keyedOutputs P key t = [s']) (old : key s = some k) (new : key s' = some k)

/-- The history of a key starts where it was opened, each output replaces the one
before it, and the last one is the only one unspent. -/
structure Threaded (L : List T) (k : K) : Prop where
  origin : ∀ a ∈ (history P key L k).head?, ∃ t, L[a.1.txIndex]? = some t ∧
    keyedInputs P key t = []
  chain : (history P key L k).IsChain (Replaces P L)
  tip : ∀ r s, key s = some k →
    (P.Unspent L r s ↔ (history P key L k).getLast? = some (r, s))

end Definitions

variable {P : Ports T S} {key : S → Option K} {rule : List T → T → Prop}
variable {L : List T} {t : T} {k : K} {r r' : OutputRef} {s s' : S} {a b : OutputRef × S}

theorem mem_history : (r, s) ∈ history P key L k ↔ P.outputAt L r = some s ∧ key s = some k := by
  simp [history, mem_created]

omit [DecidableEq K] in
theorem mem_keyedInputs : (r, s) ∈ keyedInputs P key t ↔
    (r, s) ∈ P.inputs t ∧ (key s).isSome = true := by
  simp [keyedInputs]

theorem Replaces.append (h : Replaces P L a b) : Replaces P (L ++ [t]) a b := by
  obtain ⟨u, hu, ha⟩ := h
  exact ⟨u, position_append hu, ha⟩

private theorem filter_keyed (l : List (OutputRef × S)) (k : K) :
    l.filter (fun o => key o.2 = some k) =
      (l.filter (fun o => (key o.2).isSome)).filter (fun o => key o.2 = some k) := by
  rw [List.filter_filter]
  congr 1
  funext o
  cases key o.2 <;> simp

omit [DecidableEq K] in
private theorem outputsAt_keyed (P : Ports T S) (key : S → Option K) (t : T) (n : Nat) :
    ((P.outputsAt n t).filter (fun o => (key o.2).isSome)).map Prod.snd =
      keyedOutputs P key t := by
  have values : (P.outputsAt n t).map Prod.snd = P.outputs t := by
    simp [Ports.outputsAt, Function.comp_def, List.zipIdx_map_fst]
  rw [keyedOutputs, ← values, List.filter_map]
  rfl

theorem history_snoc : history P key (L ++ [t]) k =
    history P key L k ++ (P.outputsAt L.length t).filter (fun o => key o.2 = some k) := by
  simp [history, created_snoc]

theorem history_grows (P : Ports T S) (key : S → Option K) (L K' : List T) (k : K) :
    history P key L k <+: history P key (L ++ K') k := by
  induction K' using List.reverseRecOn with
  | nil => rw [List.append_nil]
  | append_singleton K' t ih =>
    rw [← List.append_assoc, history_snoc]
    exact ih.trans (List.prefix_append _ _)

theorem history_quiet (outputs : keyedOutputs P key t = []) :
    history P key (L ++ [t]) k = history P key L k := by
  have none := outputsAt_keyed P key t L.length
  rw [outputs, List.map_eq_nil_iff] at none
  rw [history_snoc, filter_keyed, none, List.filter_nil, List.append_nil]

theorem history_created (outputs : keyedOutputs P key t = [s']) :
    ∃ j, (P.outputs t)[j]? = some s' ∧ ∀ k, history P key (L ++ [t]) k =
      history P key L k ++ if key s' = some k then [(⟨L.length, j⟩, s')] else [] := by
  have one := outputsAt_keyed P key t L.length
  rw [outputs] at one
  obtain ⟨⟨⟨n, j⟩, s⟩, single, rfl⟩ := List.map_eq_singleton_iff.mp one
  have mem : (⟨n, j⟩, s) ∈ P.outputsAt L.length t :=
    (List.mem_filter.mp (single ▸ List.mem_singleton.mpr rfl)).1
  obtain ⟨here, created⟩ := mem_outputsAt.mp mem
  have place : n = L.length := here
  subst place
  refine ⟨j, created, fun k => ?_⟩
  rw [history_snoc, filter_keyed, single]
  by_cases same : key s = some k <;> simp [same]

theorem unspent_next (hL : P.Ledger rule L) (hs : P.Spendable L t) :
    P.Unspent (L ++ [t]) r s ↔
      P.Unspent L r s ∧ r ∉ P.consumed t ∨ (r, s) ∈ P.outputsAt L.length t := by
  have unspent_new : r.txIndex = L.length → ¬ P.Spent L r := by
    intro here spent
    have before := hL.spent_lt spent
    omega
  rw [unspent_snoc hs, mem_outputsAt]
  constructor
  · rintro (kept | ⟨here, created, -⟩)
    · exact Or.inl kept
    · exact Or.inr ⟨here, created⟩
  · rintro (kept | ⟨here, created⟩)
    · exact Or.inl kept
    · exact Or.inr ⟨here, created, unspent_new here⟩

private theorem consumed_resolves (hs : P.Spendable L t) (unspent : P.Unspent L r s)
    (consumed : r ∈ P.consumed t) : (r, s) ∈ P.inputs t := by
  obtain ⟨s', input⟩ := mem_consumed.mp consumed
  have same := (hs.resolves input).symm.trans unspent.1
  exact Option.some.inj same ▸ input

omit [DecidableEq K] in
private theorem origin_snoc {h : List (OutputRef × S)}
    (origin : ∀ a ∈ h.head?, ∃ u, L[a.1.txIndex]? = some u ∧ keyedInputs P key u = []) :
    ∀ a ∈ h.head?, ∃ u, (L ++ [t])[a.1.txIndex]? = some u ∧ keyedInputs P key u = [] := by
  intro a ha
  obtain ⟨u, hu, none⟩ := origin a ha
  exact ⟨u, position_append hu, none⟩

theorem Threaded.nil : Threaded P key [] k :=
  ⟨by simp [history, Ports.created], by simp [history, Ports.created],
    by simp [history, Ports.created, Ports.Unspent, Ports.outputAt]⟩

theorem Threaded.quiet (h : Threaded P key L k) (hL : P.Ledger rule L) (hs : P.Spendable L t)
    (inputs : ∀ i ∈ P.inputs t, key i.2 ≠ some k)
    (same : history P key (L ++ [t]) k = history P key L k) : Threaded P key (L ++ [t]) k := by
  have none : (P.outputsAt L.length t).filter (fun o => key o.2 = some k) = [] := by
    have long := congrArg List.length same
    rw [history_snoc, List.length_append] at long
    exact List.length_eq_zero_iff.mp (by omega)
  refine ⟨?_, ?_, ?_⟩
  · rw [same]
    exact origin_snoc h.origin
  · rw [same]
    exact h.chain.imp (fun _ _ => Replaces.append)
  · intro r s hk
    have created : (r, s) ∉ P.outputsAt L.length t := by
      intro mem
      have other := List.filter_eq_nil_iff.mp none _ mem
      exact other (by simpa using hk)
    have kept : P.Unspent L r s → r ∉ P.consumed t := by
      intro unspent consumed
      exact inputs _ (consumed_resolves hs unspent consumed) hk
    rw [same, unspent_next hL hs, ← h.tip r s hk]
    constructor
    · intro new
      exact (new.resolve_right created).1
    · intro old
      exact Or.inl ⟨old, kept old⟩

theorem Threaded.extend (h : Threaded P key L k) (hL : P.Ledger rule L) (hs : P.Spendable L t)
    {j : Nat} (created : (P.outputs t)[j]? = some s')
    (grown : history P key (L ++ [t]) k = history P key L k ++ [(⟨L.length, j⟩, s')])
    (origin : history P key L k = [] → keyedInputs P key t = [])
    (consumes : ∀ a, (history P key L k).getLast? = some a → a ∈ P.inputs t) :
    Threaded P key (L ++ [t]) k := by
  refine ⟨?_, ?_, ?_⟩
  · rw [grown]
    cases old : history P key L k with
    | nil =>
      simp only [List.nil_append, List.head?_cons, Option.mem_def, Option.some.injEq]
      rintro a rfl
      exact ⟨t, by simp, origin old⟩
    | cons a rest =>
      have start := origin_snoc (t := t) h.origin
      rw [old] at start
      simpa using start
  · rw [grown]
    have before := h.chain.imp (fun _ _ => Replaces.append (t := t))
    refine List.IsChain.append before (List.isChain_singleton _) ?_
    intro a ha b hb
    obtain rfl : (⟨L.length, j⟩, s') = b := by simpa using hb
    exact ⟨t, by simp, consumes a ha⟩
  · intro r s hk
    have new : (r, s) ∈ P.outputsAt L.length t ↔ (⟨L.length, j⟩, s') = (r, s) := by
      constructor
      · intro mem
        have tail : history P key (L ++ [t]) k = _ := history_snoc
        rw [grown] at tail
        have single := List.append_cancel_left tail
        have within : (r, s) ∈ (P.outputsAt L.length t).filter (fun o => key o.2 = some k) :=
          List.mem_filter.mpr ⟨mem, by simpa using hk⟩
        rw [← single, List.mem_singleton] at within
        exact within.symm
      · intro eq
        rw [← eq]
        exact mem_outputsAt.mpr ⟨rfl, created⟩
    have gone : ¬ (P.Unspent L r s ∧ r ∉ P.consumed t) := by
      rintro ⟨unspent, kept⟩
      have last := (h.tip r s hk).mp unspent
      exact kept (mem_consumed.mpr ⟨s, consumes _ last⟩)
    rw [grown, List.getLast?_concat, unspent_next hL hs, or_iff_right gone, new,
      Option.some.injEq]

/-- A linear transaction keeps every key threaded. -/
theorem Threaded.step (h : ∀ k, Threaded P key L k) (hL : P.Ledger rule L)
    (hs : P.Spendable L t) (linear : Linear P key L t) (k : K) :
    Threaded P key (L ++ [t]) k := by
  have unkeyed : keyedInputs P key t = [] → ∀ i ∈ P.inputs t, key i.2 ≠ some k := by
    intro none i hi hk
    have mem : i ∈ keyedInputs P key t := mem_keyedInputs.mpr ⟨hi, by simp [hk]⟩
    rw [none] at mem
    cases mem
  cases linear with
  | untracked inputs outputs => exact (h k).quiet hL hs (unkeyed inputs) (history_quiet outputs)
  | @opening s k' inputs outputs opens unused =>
    obtain ⟨j, created, grown⟩ := history_created (L := L) outputs
    by_cases same : k' = k
    · subst same
      refine (h k').extend hL hs created (by simpa [opens] using grown k') (fun _ => inputs) ?_
      simp [unused]
    · refine (h k).quiet hL hs (unkeyed inputs) ?_
      simpa [opens, same] using grown k
  | @replacing r s s' k' inputs outputs old new =>
    obtain ⟨j, created, grown⟩ := history_created (L := L) outputs
    have input : (r, s) ∈ P.inputs t :=
      (mem_keyedInputs.mp (inputs ▸ List.mem_singleton.mpr rfl)).1
    by_cases same : k' = k
    · subst same
      have last := ((h k').tip r s old).mp (hs.unspent _ input)
      refine (h k').extend hL hs created (by simpa [new] using grown k') ?_ ?_
      · intro empty
        simp [empty] at last
      · intro a ha
        rw [last] at ha
        exact Option.some.inj ha ▸ input
    · refine (h k).quiet hL hs (fun i hi hk => ?_) (by simpa [new, same] using grown k)
      have mem : i ∈ keyedInputs P key t := mem_keyedInputs.mpr ⟨hi, by simp [hk]⟩
      rw [inputs, List.mem_singleton] at mem
      subst mem
      exact same (Option.some.inj (old.symm.trans hk))

/-- On a ledger of linear transactions every key is threaded. -/
theorem threaded (h : P.Ledger rule L)
    (linear : ∀ L t, P.Ledger rule L → P.Spendable L t → rule L t → Linear P key L t) (k : K) :
    Threaded P key L k := by
  induction h using Ports.Ledger.induct generalizing k with
  | nil => exact .nil
  | snoc L t hL hs hr ih => exact Threaded.step ih hL hs (linear L t hL hs hr) k

theorem Threaded.one_unspent (h : Threaded P key L k) (hr : P.Unspent L r s)
    (hr' : P.Unspent L r' s') (hk : key s = some k) (hk' : key s' = some k) :
    r = r' ∧ s = s' := by
  have last := (h.tip r s hk).mp hr
  rw [(h.tip r' s' hk').mp hr'] at last
  exact Prod.mk.inj (Option.some.inj last.symm)

theorem Threaded.first (h : Threaded P key L k) (ha : (history P key L k)[0]? = some a) :
    ∃ t, L[a.1.txIndex]? = some t ∧ keyedInputs P key t = [] :=
  h.origin a (by rw [List.head?_eq_getElem?]; exact ha)

theorem Threaded.previous (h : Threaded P key L k) {i : Nat}
    (hb : (history P key L k)[i + 1]? = some b) :
    ∃ a, (history P key L k)[i]? = some a ∧ Replaces P L a b := by
  obtain ⟨within, rfl⟩ := List.getElem?_eq_some_iff.mp hb
  exact ⟨_, List.getElem?_eq_getElem (by omega), h.chain.getElem i within⟩

/-- Where an output at a fixed place of the history is all a predicate admits, the key
has one such output at most. -/
theorem unique_at {A : S → Prop} {n : Nat}
    (place : ∀ i a, (history P key L k)[i]? = some a → A a.2 → i = n)
    (ha : a ∈ history P key L k) (hb : b ∈ history P key L k) (ca : A a.2) (cb : A b.2) :
    a = b := by
  obtain ⟨i, hi⟩ := List.mem_iff_getElem?.mp ha
  obtain ⟨j, hj⟩ := List.mem_iff_getElem?.mp hb
  obtain rfl := place i a hi ca
  obtain rfl := place j b hj cb
  exact Option.some.inj (hi.symm.trans hj)

end EnergyMarket.Library.LinearHistory
