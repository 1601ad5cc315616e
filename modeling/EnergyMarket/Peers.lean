/- Module: EnergyMarket/Peers
   digest: The peers that a node offers to its users, and those that it can propose to. -/

import EnergyMarket.Service

set_option autoImplicit false
set_option relaxedAutoImplicit false

namespace EnergyMarket.Peers
open EnergyMarket.Library.Runs EnergyMarket.States EnergyMarket.Transactions EnergyMarket.Ledger
open EnergyMarket.Flows
open EnergyMarket.Drafts EnergyMarket.Network EnergyMarket.Chronicle EnergyMarket.Completion
open EnergyMarket.Controllers EnergyMarket.Service

/-- A node has at least one legal identity, and goes by the first. -/
structure NodeInfo where
  legalIdentities : List Party
  named : legalIdentities ≠ []

def NodeInfo.isLegalIdentity (nodeInfo : NodeInfo) (party : Party) : Bool :=
  nodeInfo.legalIdentities.any party.equals

def NodeInfo.identity (nodeInfo : NodeInfo) : Party := nodeInfo.legalIdentities.head nodeInfo.named

/-- What a controller reads of the network, and its own name. -/
structure NetworkView where
  networkMapSnapshot : List NodeInfo
  notaryIdentities : List Party
  me : CordaX500Name

namespace GetController

def isNotary (proxy : NetworkView) (nodeInfo : NodeInfo) : Bool :=
  !(proxy.notaryIdentities.filter (fun el => nodeInfo.isLegalIdentity el)).isEmpty

def isMe (proxy : NetworkView) (nodeInfo : NodeInfo) : Bool :=
  nodeInfo.identity.name == proxy.me

def isNetworkMap (nodeInfo : NodeInfo) : Bool :=
  nodeInfo.identity.name.organisation == "Network Map Service"

def getPeers (platform : Platform) (proxy : NetworkView) : List (String × List String) :=
  let filteredNodes := proxy.networkMapSnapshot.filter (fun el =>
    !isNotary proxy el && !isMe proxy el && !isNetworkMap el)
  let nodeNames := filteredNodes.map (fun el => platform.toString el.identity.name)
  [("peers", nodeNames)]

end GetController

open GetController

def Offered (platform : Platform) (proxy : NetworkView) (text : String) : Prop :=
  ∃ entry ∈ getPeers platform proxy, text ∈ entry.2

/-- Another node that is left out of the peers, as the network map's or as one with a notary
among its identities, though it does not go by the notary's key. -/
def Hidden (map : NetworkMap) (proxy : NetworkView) (name : CordaX500Name) : Prop :=
  ∃ nodeInfo ∈ proxy.networkMapSnapshot, nodeInfo.identity.name = name ∧ name ≠ proxy.me ∧
    (isNotary proxy nodeInfo = true ∨ isNetworkMap nodeInfo = true) ∧
    Trader map nodeInfo.identity.owningKey

def Readable (platform : Platform) (name : CordaX500Name) : Prop :=
  platform.parse (some (platform.toString name)) = .ok name

/-- What a node is promised by its platform: the notaries and a snapshot of all nodes, theirs
among them, names that are read back as they are written, and names and keys that stand for
one party each. -/
structure Sees (platform : Platform) (map : NetworkMap) (node : Party) (proxy : NetworkView) :
    Prop where
  me : proxy.me = node.name
  notaries : proxy.notaryIdentities = map.notaryIdentities
  nodes : ∀ q, q ∈ map.nodes ↔
    Trader map q.owningKey ∧ ∃ nodeInfo ∈ proxy.networkMapSnapshot, nodeInfo.identity = q
  parsed : ∀ text name, platform.parse text = .ok name → Readable platform name
  readable : ∀ q ∈ map.nodes, Readable platform q.name
  known : ∀ q ∈ map.nodes, platform.wellKnownPartyFromX500Name q.name = some q
  named : ∀ name q, platform.wellKnownPartyFromX500Name name = some q → q.name = name
  keys : ∀ q ∈ map.nodes, ∀ name peer, platform.wellKnownPartyFromX500Name name = some peer →
    peer.owningKey = q.owningKey → peer = q

variable {map : NetworkMap} {platform : Platform} {w : NetworkState} {c : Call} {calls : List Call}
variable {proxy : NetworkView} {name : CordaX500Name} {node : Party}

private theorem name_of_text {name' : CordaX500Name} (readable : Readable platform name)
    (readable' : Readable platform name')
    (same : platform.toString name = platform.toString name') : name = name' := by
  unfold Readable at readable readable'
  rw [same, readable'] at readable
  exact (Except.ok.inj readable).symm

private theorem trader_of_visible {nodeInfo : NodeInfo} (sees : Sees platform map node proxy)
    (visible : isNotary proxy nodeInfo = false) : Trader map nodeInfo.identity.owningKey := by
  intro notary listed same
  rw [← sees.notaries] at listed
  have none : proxy.notaryIdentities.filter (fun el => nodeInfo.isLegalIdentity el) = [] := by
    simpa [isNotary] using visible
  refine List.filter_eq_nil_iff.mp none notary listed ?_
  exact List.any_eq_true.mpr ⟨_, List.head_mem nodeInfo.named, Party.equals_iff.mpr same⟩

theorem offered_iff (sees : Sees platform map node proxy) (readable : Readable platform name) :
    Offered platform proxy (platform.toString name) ∨ Hidden map proxy name ↔
      name ≠ node.name ∧ ∃ q ∈ map.nodes, q.name = name := by
  rw [← sees.me]
  constructor
  · rintro (⟨entry, single, listed⟩ | ⟨nodeInfo, mem, rfl, other, -, trader⟩)
    · rw [getPeers, List.mem_singleton] at single
      subst single
      obtain ⟨nodeInfo, kept, text⟩ := List.mem_map.mp listed
      obtain ⟨mem, visible⟩ := List.mem_filter.mp kept
      simp only [Bool.and_eq_true, Bool.not_eq_true'] at visible
      obtain ⟨⟨notNotary, notMe⟩, -⟩ := visible
      have known := (sees.nodes _).mpr ⟨trader_of_visible sees notNotary, nodeInfo, mem, rfl⟩
      obtain rfl := name_of_text (sees.readable _ known) readable text
      refine ⟨fun own => ?_, _, known, rfl⟩
      simp [isMe, own] at notMe
    · exact ⟨other, _, (sees.nodes _).mpr ⟨trader, nodeInfo, mem, rfl⟩, rfl⟩
  · rintro ⟨other, q, known, rfl⟩
    obtain ⟨trader, nodeInfo, mem, rfl⟩ := (sees.nodes q).mp known
    by_cases hidden : isNotary proxy nodeInfo = true ∨ isNetworkMap nodeInfo = true
    · exact Or.inr ⟨nodeInfo, mem, rfl, other, hidden, trader⟩
    · rw [not_or, Bool.not_eq_true, Bool.not_eq_true] at hidden
      have notMe : isMe proxy nodeInfo = false := by simpa [isMe] using other
      refine Or.inl ⟨_, List.mem_singleton.mpr rfl,
        List.mem_map.mpr ⟨nodeInfo, List.mem_filter.mpr ⟨mem, ?_⟩, rfl⟩⟩
      simp [hidden, notMe]

def Complete (form : ProposalForm) : Prop :=
  form.unitAmount.isSome = true ∧ form.unitPrice.isSome = true

/-- A create-proposal succeeds for a buyer's complete form that names a party on another
node. -/
theorem create_success_iff {form : ProposalForm} (h : Servable map platform w (c :: calls))
    (asked : c.post = .createProposal form) :
    succeeded ((c.post.handle (c.proxy map platform)).run.run w).1 = true ↔
      form.isBuyer = some true ∧ Complete form ∧ (proposalNotary map).isSome = true ∧
        ∃ name peer, platform.parse form.partyName = .ok name ∧
          platform.wellKnownPartyFromX500Name name = some peer ∧ reaches map peer = true ∧
          peer.owningKey ≠ c.node.owningKey := by
  rw [success_iff h, asked]
  constructor
  · rintro ⟨start, stx, counterparty, understood, full, completes⟩
    obtain ⟨name, parsed, rfl⟩ := map_ok_iff.mp understood
    obtain ⟨reached, apart, -⟩ := (completes_iff (h.ready _) completes.1).mp completes
    have complete : Complete form := by
      simp only [FlowStart.hasNull, Bool.or_eq_false_iff, Option.isNone_eq_false_iff] at full
      exact ⟨full.1.1.2, full.1.2⟩
    have built := completes.1
    generalize known : platform.wellKnownPartyFromX500Name name = peer at built
    generalize buyer : form.isBuyer = isBuyer at built
    cases call_drafts built with
    | propose notary =>
      have named : proposalNotary map = some _ := notary
      exact ⟨rfl, complete, by simp [named], name, counterparty, parsed, known, reached, apart⟩
  · rintro ⟨buyer, ⟨amount, price⟩, opens, name, peer, parsed, known, reached, apart⟩
    obtain ⟨notary, named⟩ := Option.isSome_iff_exists.mp opens
    have found : (w.hub map c.node).getNotary ProposalFlow.notaryName = some notary := named
    have ready := h.ready (.propose (some true) form.unitAmount form.unitPrice (some peer))
    refine ⟨_, _, _, map_ok_iff.mpr ⟨name, parsed, by rw [buyer, known]⟩, ?_,
      (completes_iff ready (proposal_call found)).mpr ⟨reached, apart, rfl⟩⟩
    simp [FlowStart.hasNull, amount, price]

/-- A create-proposal that does not name a notary succeeds exactly for a buyer who leaves
nothing out and names one of the peers that its node offers, or a node that it does not
list, where the notary of proposals is known. -/
theorem peers_accept_proposals {form : ProposalForm} (h : Servable map platform w (c :: calls))
    (sees : Sees platform map c.node proxy) (asked : c.post = .createProposal form) :
    succeeded ((c.post.handle (c.proxy map platform)).run.run w).1 = true ↔
      form.isBuyer = some true ∧ Complete form ∧ (proposalNotary map).isSome = true ∧
        ∃ name, platform.parse form.partyName = .ok name ∧
          (Offered platform proxy (platform.toString name) ∨ Hidden map proxy name) := by
  have own : c.node ∈ map.nodes := h.known c (List.mem_cons_self ..)
  rw [create_success_iff h asked]
  refine and_congr_right fun _ => and_congr_right fun _ => and_congr_right fun _ =>
    exists_congr fun name => ?_
  rw [exists_and_left]
  refine and_congr_right fun parsed => ?_
  rw [offered_iff sees (sees.parsed _ _ parsed)]
  constructor
  · rintro ⟨peer, known, reached, apart⟩
    obtain ⟨q, mem, same⟩ := List.any_eq_true.mp reached
    obtain rfl := sees.keys q mem name peer known (Party.equals_iff.mp same)
    obtain rfl := sees.named name peer known
    refine ⟨fun mine => apart ?_, peer, mem, rfl⟩
    have self := sees.known c.node own
    rw [← mine, known] at self
    rw [Option.some.inj self]
  · rintro ⟨other, q, mem, rfl⟩
    have known := sees.known q mem
    refine ⟨q, known, reaches_of_known mem, fun same => other ?_⟩
    rw [sees.keys c.node own q.name q known same]

def aliceSees : NetworkView :=
  ⟨[⟨[notary], by simp⟩, ⟨[alice], by simp⟩, ⟨[bob], by simp⟩], [notary], alice.name⟩

private theorem desk_knows {name : CordaX500Name} {q : Party}
    (found : desk.wellKnownPartyFromX500Name name = some q) :
    (q = alice ∨ q = bob) ∧ q.name = name := by
  have found' : [alice, bob].find? (fun q => q.name = name) = some q := found
  have mem := List.mem_of_find?_eq_some found'
  exact ⟨by simpa using mem, by simpa using List.find?_some found'⟩

private theorem desk_sees : Sees desk twoNodes alice aliceSees where
  me := rfl
  notaries := rfl
  nodes q := by
    have either : (q = notary ∨ q = alice ∨ q = bob) ∧ Trader twoNodes q.owningKey ↔
        q = alice ∨ q = bob := by
      constructor
      · rintro ⟨rfl | rfl | rfl, trader⟩
        · exact absurd trader (by decide)
        · exact Or.inl rfl
        · exact Or.inr rfl
      · rintro (rfl | rfl) <;> exact ⟨by decide, by decide⟩
    simpa [twoNodes, aliceSees, NodeInfo.identity, @eq_comm _ q, and_comm] using either.symm
  parsed text name parsed := by
    simp only [desk] at parsed
    split_ifs at parsed <;> obtain rfl := Except.ok.inj parsed <;> exact rfl
  readable q known := by
    have either : q = alice ∨ q = bob := by simpa [twoNodes] using known
    rcases either with rfl | rfl <;> exact rfl
  known := by decide
  named name q found := (desk_knows found).2
  keys q known name peer found same := by
    have either : q = alice ∨ q = bob := by simpa [twoNodes] using known
    obtain ⟨either', -⟩ := desk_knows found
    rcases either with rfl | rfl <;> rcases either' with rfl | rfl <;>
      first | rfl | exact absurd same (by decide)

theorem peers_accept_proposals_desk :
    Servable twoNodes desk .empty (aliceProposes :: bobAnswers) ∧
    Sees desk twoNodes alice aliceSees ∧
    (succeeded ((aliceProposes.post.handle (aliceProposes.proxy twoNodes desk)).run.run .empty).1 =
      true ↔ some true = some true ∧
        Complete ⟨some true, some 10, some 10, some "O=bob, L=Tokyo, C=JP"⟩ ∧
        (proposalNotary twoNodes).isSome = true ∧
        ∃ name, desk.parse (some "O=bob, L=Tokyo, C=JP") = .ok name ∧
          (Offered desk aliceSees (desk.toString name) ∨ Hidden twoNodes aliceSees name)) :=
  ⟨desk_servable, desk_sees, peers_accept_proposals desk_servable desk_sees rfl⟩

end EnergyMarket.Peers
