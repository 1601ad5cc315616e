/- Module: EnergyMarket/Controllers
   digest: The web API of a node: its forms, its responses, and what the endpoints run. -/

import EnergyMarket.Sequential

set_option autoImplicit false
set_option relaxedAutoImplicit false

namespace EnergyMarket.Controllers
open EnergyMarket.Library.Runs EnergyMarket.Library.Utxo EnergyMarket.States
open EnergyMarket.Transactions EnergyMarket.Ledger EnergyMarket.Flows EnergyMarket.Vault
open EnergyMarket.Network EnergyMarket.Chronicle EnergyMarket.Agreement EnergyMarket.Completion

/-- A field that the body of a request leaves out is null. -/
structure ProposalForm where
  isBuyer : Option Bool
  unitAmount : Double
  unitPrice : Double
  partyName : Option String

structure ModifyForm where
  proposalId : Option String
  newValue : Double
  newUnitPrice : Double

structure AcceptForm where
  proposalId : Option String

structure KillProposalForm where
  proposalId : Option String

structure KillModifyForm where
  proposalId : Option String

structure APIResponse (T : Type) where
  message : Option String
  data : Option T
  status : Bool

def APIResponse.success {T : Type} : APIResponse T := ⟨some "SUCCESS", none, true⟩

def APIResponse.error {T : Type} (message : Option String) : APIResponse T := ⟨message, none, false⟩

/-- What the controllers see thrown: by a parser, by the node that finds no constructor for
the arguments of a flow, or by a flow, wrapped up in an ExecutionException. -/
inductive Exception
  | parsing (failure : Failure)
  | illegalFlowLogic (start : FlowStart)
  | execution (cause : Failure)
  deriving DecidableEq

/-- The parsers and texts of the platform, whose code is not in the repository. -/
structure Platform where
  parse : Option String → Outcome CordaX500Name
  toString : CordaX500Name → String
  fromString : Option String → Outcome UniqueIdentifier
  wellKnownPartyFromX500Name : CordaX500Name → Option Party
  getMessage : Exception → Option String

/-- An endpoint: it may run a flow, whatever becomes of it, and throw. -/
abbrev Server := ExceptT Exception (StateM NetworkState)

def parsing {α : Type} (parsed : Outcome α) : Server α :=
  ExceptT.mk (pure (parsed.mapError .parsing))

/-- What a flow returns or throws, with nothing else under way. -/
def returnValue (map : NetworkMap) (w : NetworkState) (e : Started) (choice : Nat) :
    Outcome SignedTransaction := do
  let (stx, counterparty) ← e.start.call (w.hub map e.node) choice e.newId
  let signed ← Flight.answer map ⟨e, counterparty, stx, false⟩
  if Flight.Finalises ⟨e, counterparty, signed, true⟩ w.ledger then .ok signed.notarised
  else .error (Flight.failure ⟨e, counterparty, signed, true⟩)

structure Proxy where
  map : NetworkMap
  platform : Platform
  node : Party
  newId : UniqueIdentifier
  choice : Nat

/-- proxy.startTrackedFlowDynamic(..).getReturnValue().get(): a null fits no parameter of a
Java constructor, so that the node does not start the flow. -/
def Proxy.startTrackedFlowDynamic (proxy : Proxy) (start : FlowStart) :
    Server SignedTransaction :=
  fun w =>
    if start.hasNull then (.error (.illegalFlowLogic start), w)
    else ((returnValue proxy.map w ⟨proxy.node, start, proxy.newId⟩ proxy.choice).mapError
        .execution,
      through proxy.map w ⟨proxy.node, start, proxy.newId⟩ proxy.choice)

/-- The try of every endpoint, and what it answers where something is thrown. -/
def attempt (proxy : Proxy) (body : Server SignedTransaction) : Server (APIResponse Empty) := do
  try
    let _ ← body
    pure APIResponse.success
  catch e =>
    pure (APIResponse.error (proxy.platform.getMessage e))

def attemptOn (proxy : Proxy) (proposalId : Option String)
    (start : UniqueIdentifier → FlowStart) : Server (APIResponse Empty) := do
  let proposalId ← parsing (proxy.platform.fromString proposalId)
  attempt proxy (proxy.startTrackedFlowDynamic (start proposalId))

namespace PostController

def createProposal (proxy : Proxy) (proposalFrom : ProposalForm) : Server (APIResponse Empty) :=
  attempt proxy do
    let partyX500Name ← parsing (proxy.platform.parse proposalFrom.partyName)
    let otherParty := proxy.platform.wellKnownPartyFromX500Name partyX500Name
    proxy.startTrackedFlowDynamic (.propose proposalFrom.isBuyer proposalFrom.unitAmount
      proposalFrom.unitPrice otherParty)

def modufyIOU (proxy : Proxy) (modifyForm : ModifyForm) : Server (APIResponse Empty) :=
  attempt proxy do
    let proposalId ← parsing (proxy.platform.fromString modifyForm.proposalId)
    proxy.startTrackedFlowDynamic
      (.modify proposalId modifyForm.newValue modifyForm.newUnitPrice)

def acceptIOU (proxy : Proxy) (acceptForm : AcceptForm) : Server (APIResponse Empty) :=
  attemptOn proxy acceptForm.proposalId .accept

def killProposal (proxy : Proxy) (killProposalForm : KillProposalForm) :
    Server (APIResponse Empty) :=
  attemptOn proxy killProposalForm.proposalId .killProposal

def killMOdify (proxy : Proxy) (killModifyForm : KillModifyForm) :
    Server (APIResponse Empty) :=
  attemptOn proxy killModifyForm.proposalId .killModification

end PostController

inductive Post
  | createProposal (form : ProposalForm)
  | modifyProposal (form : ModifyForm)
  | acceptProposal (form : AcceptForm)
  | killProposal (form : KillProposalForm)
  | killModify (form : KillModifyForm)

def Post.handle (proxy : Proxy) : Post → Server (APIResponse Empty)
  | createProposal form => PostController.createProposal proxy form
  | modifyProposal form => PostController.modufyIOU proxy form
  | acceptProposal form => PostController.acceptIOU proxy form
  | killProposal form => PostController.killProposal proxy form
  | killModify form => PostController.killMOdify proxy form

/-- The flow that a body asks for, once its name or its id is parsed. -/
def Post.start (platform : Platform) : Post → Outcome FlowStart
  | createProposal form => (platform.parse form.partyName).map (fun name =>
      .propose form.isBuyer form.unitAmount form.unitPrice
        (platform.wellKnownPartyFromX500Name name))
  | modifyProposal form => (platform.fromString form.proposalId).map (fun proposalId =>
      .modify proposalId form.newValue form.newUnitPrice)
  | acceptProposal form => (platform.fromString form.proposalId).map .accept
  | killProposal form => (platform.fromString form.proposalId).map .killProposal
  | killModify form => (platform.fromString form.proposalId).map .killModification

/-- The endpoints that parse within their try. -/
def Post.guarded : Post → Bool
  | createProposal _ | modifyProposal _ => true
  | acceptProposal _ | killProposal _ | killModify _ => false

variable {proxy : Proxy} {w w' : NetworkState} {post : Post} {start : FlowStart}
variable {failure : Failure}

/-- What an endpoint answers to what is returned or thrown. -/
def Platform.answer (platform : Platform) :
    Except Exception SignedTransaction → APIResponse Empty
  | .ok _ => .success
  | .error exception => .error (platform.getMessage exception)

private theorem attempt_run (proxy : Proxy) (body : Server SignedTransaction) (w : NetworkState) :
    (attempt proxy body).run.run w =
      (.ok (proxy.platform.answer (body.run.run w).1), (body.run.run w).2) := by
  simp only [attempt, tryCatch, tryCatchThe, MonadExceptOf.tryCatch, ExceptT.tryCatch, bind,
    ExceptT.bind, ExceptT.bindCont, ExceptT.mk, ExceptT.run, StateT.run, StateT.bind, pure,
    ExceptT.pure]
  cases body w with
  | mk result w' => cases result <;> rfl

@[simp] theorem map_ok_iff {α β : Type} {x : Outcome α} {f : α → β} {b : β} :
    x.map f = .ok b ↔ ∃ a, x = .ok a ∧ f a = b := by
  cases x <;> simp [Except.map]

@[simp] theorem map_error_iff {α β : Type} {x : Outcome α} {f : α → β} :
    x.map f = .error failure ↔ x = .error failure := by
  cases x <;> simp [Except.map]

private theorem parse_error {α β : Type} {parsed : Outcome α} (e : parsed = .error failure)
    (k : α → Server β) :
    (parsing parsed >>= k).run.run w = (.error (.parsing failure), w) := by
  subst e
  rfl

private theorem parse_ok {α β : Type} {parsed : Outcome α} {a : α} (e : parsed = .ok a)
    (k : α → Server β) : (parsing parsed >>= k).run.run w = (k a).run.run w := by
  subst e
  rfl

theorem handle_malformed (w : NetworkState)
    (malformed : post.start proxy.platform = .error failure) :
    (post.handle proxy).run.run w =
      (if post.guarded then .ok (proxy.platform.answer (.error (.parsing failure)))
        else .error (.parsing failure), w) := by
  cases post with
  | createProposal form | modifyProposal form =>
    have unparsed := map_error_iff.mp malformed
    exact (attempt_run proxy _ w).trans (by rw [parse_error unparsed]; rfl)
  | acceptProposal form | killProposal form | killModify form =>
    exact parse_error (map_error_iff.mp malformed) _

/-- A body that is understood is answered with what its start comes to. -/
theorem handle_understood (proxy : Proxy) (w : NetworkState)
    (understood : post.start proxy.platform = .ok start) :
    (post.handle proxy).run.run w =
      (.ok (proxy.platform.answer ((proxy.startTrackedFlowDynamic start).run.run w).1),
        ((proxy.startTrackedFlowDynamic start).run.run w).2) := by
  cases post with
  | createProposal form | modifyProposal form =>
    obtain ⟨parsed, known, rfl⟩ := map_ok_iff.mp understood
    exact (attempt_run proxy _ w).trans (by rw [parse_ok known])
  | acceptProposal form | killProposal form | killModify form =>
    obtain ⟨parsed, known, rfl⟩ := map_ok_iff.mp understood
    exact (parse_ok known _).trans (attempt_run proxy _ w)

theorem start_null (null : start.hasNull = true) :
    (proxy.startTrackedFlowDynamic start).run.run w = (.error (.illegalFlowLogic start), w) :=
  if_pos null

theorem start_flow (full : start.hasNull = false) :
    (proxy.startTrackedFlowDynamic start).run.run w =
      ((returnValue proxy.map w ⟨proxy.node, start, proxy.newId⟩ proxy.choice).mapError .execution,
        through proxy.map w ⟨proxy.node, start, proxy.newId⟩ proxy.choice) :=
  if_neg (Bool.eq_false_iff.mp full)

end EnergyMarket.Controllers
