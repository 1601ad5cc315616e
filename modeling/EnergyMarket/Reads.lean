/- Module: EnergyMarket/Reads
   digest: What the web server of a node lets its clients read, and the requests behind it. -/

import EnergyMarket.Service

set_option autoImplicit false
set_option relaxedAutoImplicit false

namespace EnergyMarket.Reads
open EnergyMarket.Library.Runs EnergyMarket.Library.Utxo EnergyMarket.Library.LinearHistory
open EnergyMarket.States EnergyMarket.Transactions EnergyMarket.Ledger EnergyMarket.Flows
open EnergyMarket.Drafts EnergyMarket.Vault EnergyMarket.Identity EnergyMarket.Negotiation
open EnergyMarket.Network EnergyMarket.Chronicle EnergyMarket.Agreement EnergyMarket.Lookups
open EnergyMarket.Completion EnergyMarket.Market EnergyMarket.Trading EnergyMarket.Listings
open EnergyMarket.Controllers EnergyMarket.Refusals EnergyMarket.Service

namespace GetController

def getIOUs (hub : ServiceHub) : Outcome (List (StateAndRef ProposalState)) :=
  hub.queryBy ProposalState

def getModifyIOUs (hub : ServiceHub) : Outcome (List (StateAndRef ModifyState)) :=
  hub.queryBy ModifyState

def getTradeIOUs (hub : ServiceHub) : Outcome (List (StateAndRef TradeState)) :=
  hub.queryBy TradeState

def getProposalState (platform : Platform) (hub : ServiceHub) (choice : Nat) (id : String) :
    Outcome ProposalState := do
  let proposalId ← platform.fromString (some id)
  let inputStateAndRef ← lookup ProposalState "proposal not found" hub proposalId choice
  return inputStateAndRef.state.data

end GetController

open GetController

/-- The proposal that a form asks for, on the node that it is sent to. -/
def proposalOf (c : Call) (form : ProposalForm) (peer : Party) : ProposalState :=
  ⟨form.unitAmount, form.unitPrice, c.node, peer, c.node, peer, c.newId⟩

variable {map : NetworkMap} {platform : Platform} {w : NetworkState} {hub : ServiceHub}
variable {c : Call} {calls : List Call} {choice : Nat} {id : UniqueIdentifier} {text : String}
variable {L new : List SignedTransaction} {i : StateAndRef ProposalState} {q : Party}

/-- What a list answers of a network where nothing is under way: that it is more than a
page, or the deals at its phase that concern the node, each once, as they stand. -/
structure Lists (α : Type) [DealClass α] (map : NetworkMap) (w : NetworkState) (q : Party)
    (answer : Outcome (List (StateAndRef α))) : Prop where
  beyond : (∀ l, answer ≠ .ok l) → answer = .error .vaultQuery ∧
    (rulesOf map).page < (shown (dealsOf w.ledger) q.owningKey (DealClass.atPhase α)).ncard
  within : ∀ l, answer = .ok l →
    (shown (dealsOf w.ledger) q.owningKey (DealClass.atPhase α)).ncard ≤ (rulesOf map).page
  once : ∀ l, answer = .ok l → (l.map (fun i => DealClass.linearId i.state.data)).Nodup
  deals : ∀ l, answer = .ok l → ∀ id,
    (∃ i ∈ l, DealClass.linearId i.state.data = id) ↔
      id ∈ shown (dealsOf w.ledger) q.owningKey (DealClass.atPhase α)
  terms : ∀ l, answer = .ok l → ∀ i ∈ l,
    dealsOf w.ledger (DealClass.linearId i.state.data) = dealOf (StateClass.up i.state.data)

private theorem query_lists {α : Type} [DealClass α] (h : Reachable (network map) always w)
    (delivered : w.deliveries = []) : Lists α map w q ((w.hub map q).queryBy α) := by
  have shows := listings_show h delivered α q
  have page := withinPage_iff (α := α) (q := q) h delivered
  have answer : (w.hub map q).queryBy α = if WithinPage α (w.hub map q) then
      .ok (ofClass α (w.hub map q).vault) else .error .vaultQuery := rfl
  have list : ∀ l, (w.hub map q).queryBy α = .ok l →
      WithinPage α (w.hub map q) ∧ l = ofClass α (w.hub map q).vault := by
    intro l returned
    rw [answer] at returned
    split at returned
    · rename_i within
      exact ⟨within, (Except.ok.inj returned).symm⟩
    · cases returned
  refine ⟨fun none => ?_, fun l returned => page.mp (list l returned).1, ?_, ?_, ?_⟩
  · by_cases within : WithinPage α (w.hub map q)
    · exact absurd (answer.trans (if_pos within)) (none _)
    · exact ⟨answer.trans (if_neg within), not_le.mp (page.not.mp within)⟩
  · intro l returned
    rw [(list l returned).2]
    exact shows.once
  · intro l returned id
    rw [(list l returned).2, ← shows.deals]
    exact List.mem_map.symm
  · intro l returned
    rw [(list l returned).2]
    exact shows.terms

/-- The three lists of every node. -/
theorem gets_list (h : Reachable (network map) always w) (delivered : w.deliveries = [])
    (q : Party) : Lists ProposalState map w q (getIOUs (w.hub map q)) ∧
      Lists ModifyState map w q (getModifyIOUs (w.hub map q)) ∧
      Lists TradeState map w q (getTradeIOUs (w.hub map q)) :=
  ⟨query_lists h delivered, query_lists h delivered, query_lists h delivered⟩

theorem gets_list_race : Reachable (network twoNodes) always rested ∧
    Lists ProposalState twoNodes rested bob (getIOUs (rested.hub twoNodes bob)) ∧
      Lists ModifyState twoNodes rested bob (getModifyIOUs (rested.hub twoNodes bob)) ∧
      Lists TradeState twoNodes rested bob (getTradeIOUs (rested.hub twoNodes bob)) :=
  ⟨rested_reachable, gets_list rested_reachable rfl bob⟩

private theorem read_found (parsed : platform.fromString (some text) = .ok id)
    (found : lookup ProposalState "proposal not found" hub id choice = .ok i) :
    getProposalState platform hub choice text = .ok i.state.data := by
  unfold getProposalState
  rw [parsed]
  simp only [bind, Except.bind, found]
  rfl

private theorem read_missing (parsed : platform.fromString (some text) = .ok id)
    (page : WithinPage ProposalState hub)
    (missing : ∀ i ∈ ofClass ProposalState hub.vault, i.state.data.linearId ≠ id) :
    getProposalState platform hub choice text =
      .error (.illegalArgument "proposal not found") := by
  have found : lookup ProposalState "proposal not found" hub id choice = _ :=
    lookup_missing page missing
  unfold getProposalState
  rw [parsed]
  simp only [bind, Except.bind, found]

private theorem history_of_book (same : bookOf (L ++ new) id = bookOf L id) :
    history ports key (L ++ new) id = history ports key L id := by
  have lengths : ∀ L : List SignedTransaction,
      (history ports key L id).length = (bookOf L id).length := by
    intro L
    simpa using congrArg List.length (history_phases (L := L) id)
  refine ((history_grows ports key L new id).eq_of_length ?_).symm
  rw [lengths, lengths, same]

private theorem unused_of_fresh (h : Reachable (network map) always w) (fresh : Fresh w id) :
    history ports key w.ledger id = [] := by
  refine List.eq_nil_iff_forall_not_mem.mpr ?_
  rintro ⟨r, s⟩ mem
  obtain ⟨created, keyed⟩ := mem_history.mp mem
  obtain ⟨e, he, drawn⟩ := (sound h).drawn (r, s) (mem_created.mpr created) id keyed
  exact fresh e he drawn

private theorem created_history {form : ProposalForm} (h : Servable map platform w (c :: calls))
    (asked : c.post = .createProposal form)
    (success : succeeded ((c.post.handle (c.proxy map platform)).run.run w).1 = true) :
    ∃ name peer r notary, platform.parse form.partyName = .ok name ∧
      platform.wellKnownPartyFromX500Name name = some peer ∧
      history ports key ((c.post.handle (c.proxy map platform)).run.run w).2.ledger c.newId =
        [(r, ⟨.proposal (proposalOf c form peer), notary⟩)] := by
  obtain ⟨start, stx, peer, understood, full, completes⟩ := (success_iff h).mp success
  have ran := congrArg Prod.snd (c.flow_run map w understood full)
  rw [asked] at understood
  obtain ⟨name, parsed, rfl⟩ := map_ok_iff.mp understood
  obtain ⟨built, signed, tx, after⟩ := completes
  have fresh := h.fresh c (List.mem_cons_self ..)
  rw [ran, after]
  generalize known : platform.wellKnownPartyFromX500Name name = peer' at built
  generalize form.isBuyer = isBuyer at built
  cases call_drafts built with
  | @propose _ _ _ notary named =>
    obtain ⟨j, -, grown⟩ := history_created (L := w.ledger) (draft_outputs tx rfl)
    refine ⟨name, peer, ⟨w.ledger.length, j⟩, notary, parsed, known, ?_⟩
    have opened := grown c.newId
    rw [unused_of_fresh h.reached fresh, List.nil_append] at opened
    exact opened.trans (if_pos rfl)

/-- What get-iou is to return of a proposal, when these requests have succeeded since. -/
def readBack (c : Call) (form : ProposalForm) (peer q : Party)
    (later : List (Request UniqueIdentifier PublicKey Terms)) : Outcome ProposalState :=
  if (∀ request ∈ later, request.on ≠ c.newId) ∧
      (q.owningKey = c.node.owningKey ∨ q.owningKey = peer.owningKey) then
    .ok (proposalOf c form peer)
  else .error (.illegalArgument "proposal not found")

private theorem proposed_only {path : List Phase} (h : .proposed :: path ∈ paths)
    (last : (Phase.proposed :: path).getLast? = some .proposed) : path = [] := by
  simp only [paths, List.mem_cons, List.cons.injEq, true_and, reduceCtorEq, List.not_mem_nil,
    or_false, false_or] at h
  rcases h with rfl | rfl | rfl | rfl | rfl <;> simp_all

private theorem held_tip (h : Reachable (network map) always w) (delivered : w.deliveries = []) :
    i ∈ ofClass ProposalState (w.hub map q).vault ∧ i.state.data.linearId = id ↔
      (history ports key w.ledger id).getLast? = some (i.ref, i.up.state) ∧
        relevant q i.up.state.data = true := by
  have threaded := threaded_ids (ids_of_rule (sound h).orderly) id
  rw [mem_listing h delivered]
  constructor
  · rintro ⟨⟨unspent, ours⟩, rfl⟩
    exact ⟨(threaded.tip _ _ rfl).mp unspent, ours⟩
  · rintro ⟨last, ours⟩
    have keyed := (mem_history.mp (List.mem_of_getLast? last)).2
    exact ⟨⟨(threaded.tip _ _ keyed).mpr last, ours⟩, Option.some.inj keyed⟩

private theorem read_untouched {p : ProposalState} {notary : Party} {r : StateRef}
    (h : Reachable (network map) always w) (delivered : w.deliveries = [])
    (page : WithinPage ProposalState (w.hub map q))
    (parsed : platform.fromString (some text) = .ok p.linearId)
    (tip : (history ports key w.ledger p.linearId).getLast? = some (r, ⟨.proposal p, notary⟩)) :
    getProposalState platform (w.hub map q) choice text =
      if relevant q (.proposal p) = true then .ok p
      else .error (.illegalArgument "proposal not found") := by
  split
  · rename_i ours
    obtain ⟨held, keyed⟩ := (held_tip (i := ⟨⟨p, notary⟩, r⟩) h delivered).mpr ⟨tip, ours⟩
    exact read_found parsed (lookup_held page (proposals_single h) (mem_ofClass.mp held)
      (congrArg some keyed))
  · rename_i others
    refine read_missing parsed page fun i held keyed => others ?_
    obtain ⟨tip', ours⟩ := (held_tip h delivered).mp ⟨held, keyed⟩
    rw [tip] at tip'
    obtain ⟨-, same⟩ := Prod.mk.inj (Option.some.inj tip')
    rwa [← same] at ours

private theorem read_touched {path : List Phase} (h : Reachable (network map) always w)
    (delivered : w.deliveries = []) (page : WithinPage ProposalState (w.hub map q))
    (parsed : platform.fromString (some text) = .ok id)
    (book : bookOf w.ledger id = .proposed :: path) (touched : path ≠ []) :
    getProposalState platform (w.hub map q) choice text =
      .error (.illegalArgument "proposal not found") := by
  have paths : .proposed :: path ∈ paths := book ▸ book_paths (network_keeps_book h) id
  refine read_missing parsed page fun i held keyed => touched (proposed_only paths ?_)
  obtain ⟨tip, -⟩ := (held_tip h delivered).mp ⟨held, keyed⟩
  rw [← book, book_last, dealsOf, tip]
  rfl

end EnergyMarket.Reads
