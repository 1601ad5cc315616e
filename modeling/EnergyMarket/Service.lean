/- Module: EnergyMarket/Service
   digest: Requests to the web servers of the nodes, and the market that answers them. -/

import EnergyMarket.Refusals

set_option autoImplicit false
set_option relaxedAutoImplicit false

namespace EnergyMarket.Service
open EnergyMarket.Library.Runs EnergyMarket.Library.Utxo EnergyMarket.States
open EnergyMarket.Transactions EnergyMarket.Ledger EnergyMarket.Flows EnergyMarket.Vault
open EnergyMarket.Negotiation EnergyMarket.Network EnergyMarket.Chronicle EnergyMarket.Notaries
open EnergyMarket.Agreement EnergyMarket.Completion EnergyMarket.Market EnergyMarket.Trading
open EnergyMarket.Sequential EnergyMarket.Controllers EnergyMarket.Refusals

structure Call where
  node : Party
  newId : UniqueIdentifier
  choice : Nat
  post : Post

def Call.proxy (map : NetworkMap) (platform : Platform) (c : Call) : Proxy :=
  ⟨map, platform, c.node, c.newId, c.choice⟩

abbrev Response := Except Exception (APIResponse Empty)

def serveAll (map : NetworkMap) (platform : Platform) : List Call → NetworkState →
    List Response × NetworkState
  | [], w => ([], w)
  | c :: calls, w =>
    let (response, w') := (c.post.handle (c.proxy map platform)).run.run w
    let (responses, w'') := serveAll map platform calls w'
    (response :: responses, w'')

def succeeded : Response → Bool
  | .ok response => response.status
  | .error _ => false

/-- What the market makes of a request: of a body that is not understood or that leaves
something out nothing, and of any other what it makes of the start. -/
noncomputable def answer (map : NetworkMap) (platform : Platform)
    (M : Deals UniqueIdentifier PublicKey Terms) (c : Call) :
    Response × Deals UniqueIdentifier PublicKey Terms :=
  match c.post.start platform with
  | .error failure =>
    (if c.post.guarded then .ok (platform.answer (.error (.parsing failure)))
      else .error (.parsing failure), M)
  | .ok start =>
    (.ok (match refusal map M ⟨c.node, start, c.newId⟩ with
      | some exception => .error (platform.getMessage exception)
      | none => .success),
    if start.hasNull then M else (served (rulesOf map) M ⟨c.node, start, c.newId⟩).2)

noncomputable def answerAll (map : NetworkMap) (platform : Platform) : List Call →
    Deals UniqueIdentifier PublicKey Terms →
    List Response × Deals UniqueIdentifier PublicKey Terms
  | [], M => ([], M)
  | c :: calls, M =>
    let (response, M') := answer map platform M c
    let (responses, M'') := answerAll map platform calls M'
    (response :: responses, M'')

def Call.request (platform : Platform) (c : Call) :
    Option (Request UniqueIdentifier PublicKey Terms) :=
  (c.post.start platform).toOption.bind (fun start =>
    if start.hasNull then none else requestOf ⟨c.node, start, c.newId⟩)

def successes (platform : Platform) (calls : List Call)
    (responses : List Response) :
    List (Request UniqueIdentifier PublicKey Terms) :=
  (calls.zip responses).filterMap (fun (c, response) =>
    if succeeded response then c.request platform else none)

variable {map : NetworkMap} {platform : Platform} {w : NetworkState} {e : Started} {c : Call}
variable {calls : List Call} {choice : Nat} {stx : SignedTransaction} {counterparty : Party}
variable {start : FlowStart} {failure : Failure}

private theorem Call.malformed_run (c : Call) (map : NetworkMap) (w : NetworkState)
    (malformed : c.post.start platform = .error failure) :
    (c.post.handle (c.proxy map platform)).run.run w =
      (if c.post.guarded then .ok (platform.answer (.error (.parsing failure)))
        else .error (.parsing failure), w) :=
  handle_malformed w malformed

private theorem Call.null_run (c : Call) (map : NetworkMap) (w : NetworkState)
    (understood : c.post.start platform = .ok start) (null : start.hasNull = true) :
    (c.post.handle (c.proxy map platform)).run.run w =
      (.ok (platform.answer (.error (.illegalFlowLogic start))), w) := by
  rw [handle_understood (c.proxy map platform) w understood, start_null null]
  rfl

theorem Call.flow_run (c : Call) (map : NetworkMap) (w : NetworkState)
    (understood : c.post.start platform = .ok start) (full : start.hasNull = false) :
    (c.post.handle (c.proxy map platform)).run.run w =
      (.ok (platform.answer
          ((returnValue map w ⟨c.node, start, c.newId⟩ c.choice).mapError .execution)),
        through map w ⟨c.node, start, c.newId⟩ c.choice) := by
  rw [handle_understood (c.proxy map platform) w understood, start_flow full]
  rfl

private theorem succeeded_answer (platform : Platform)
    {result : Except Exception SignedTransaction} :
    succeeded (.ok (platform.answer result)) = true ↔ ∃ stx, result = .ok stx := by
  cases result <;> simp [succeeded, Platform.answer, APIResponse.success, APIResponse.error]

private theorem succeeded_malformed : succeeded (if c.post.guarded then
    .ok (platform.answer (.error (.parsing failure))) else .error (.parsing failure)) = false := by
  cases c.post.guarded <;> rfl

/-- Requests to nodes of a network where nothing is under way, each with an identifier of
its own, and none from or against the node of a notary. -/
structure Servable (map : NetworkMap) (platform : Platform) (w : NetworkState)
    (calls : List Call) : Prop where
  reachable : Reachable (network map) (Aside map) w
  quiet : Quiet w
  known : ∀ c ∈ calls, c.node ∈ map.nodes
  trades : ∀ c ∈ calls, ∀ start, c.post.start platform = .ok start →
    Trades map ⟨c.node, start, c.newId⟩
  fresh : ∀ c ∈ calls, Fresh w c.newId
  distinct : (calls.map Call.newId).Nodup

theorem Servable.reached (h : Servable map platform w calls) :
    Reachable (network map) always w :=
  h.reachable.mono (fun _ _ _ => trivial)

theorem Servable.ready (h : Servable map platform w (c :: calls)) (start : FlowStart) :
    Ready map w ⟨c.node, start, c.newId⟩ :=
  ⟨h.reached, h.quiet, h.known c (List.mem_cons_self ..), h.fresh c (List.mem_cons_self ..)⟩

theorem through_aside (trades : Trades map e) (h : Reachable (network map) (Aside map) w) :
    Reachable (network map) (Aside map) (through map w e choice) := by
  refine through_reachable (fun w a mem e' choice' start => ?_) h
  subst start
  obtain ⟨rfl, -⟩ : e' = e ∧ choice' = choice := by simpa using mem
  exact trades

private theorem through_quiet (quiet : Quiet w) : Quiet (through map w e choice) := by
  rcases through_cases map e choice quiet with ⟨stx, counterparty, signed, -, -, -, ran⟩ | stopped
  · rw [ran]
    exact ⟨rfl, rfl⟩
  · obtain ⟨started, stopped⟩ := stopped
    rw [stopped]
    exact ⟨quiet.flights, quiet.deliveries⟩

private theorem through_started {e' : Started} (mem : e' ∈ (through map w e choice).started) :
    e' ∈ w.started ∨ e' = e := by
  have run : ∀ (actions : List Action) (w : NetworkState),
      e' ∈ (actions.foldl (fun w a => (next map w a).getD w) w).started →
        e' ∈ w.started ∨ ∃ choice, .start e' choice ∈ actions := by
    intro actions
    induction actions with
    | nil => exact fun w mem => Or.inl mem
    | cons a rest ih =>
      intro w mem
      rcases ih _ mem with before | ⟨choice, later⟩
      · change e' ∈ ((next map w a).getD w).started at before
        cases stepped : next map w a with
        | none =>
          rw [stepped] at before
          exact Or.inl before
        | some w' =>
          rw [stepped] at before
          rcases next_started stepped before with old | ⟨choice, rfl⟩
          · exact Or.inl old
          · exact Or.inr ⟨choice, List.mem_cons_self ..⟩
      · exact Or.inr ⟨choice, List.mem_cons_of_mem _ later⟩
  rcases run _ w mem with old | ⟨choice', new⟩
  · exact Or.inl old
  · obtain ⟨same, -⟩ : e' = e ∧ choice' = choice := by simpa using new
    exact Or.inr same

/-- A request succeeds exactly where it is understood and complete and its flow runs
through. -/
theorem success_iff (h : Servable map platform w (c :: calls)) :
    succeeded ((c.post.handle (c.proxy map platform)).run.run w).1 = true ↔
      ∃ start stx counterparty, c.post.start platform = .ok start ∧ start.hasNull = false ∧
        Completes map w ⟨c.node, start, c.newId⟩ c.choice stx counterparty := by
  cases understood : c.post.start platform with
  | error failure =>
    rw [c.malformed_run map w understood]
    simp [succeeded_malformed]
  | ok start =>
    cases null : start.hasNull with
    | true =>
      rw [c.null_run map w understood null, succeeded_answer]
      simp [null]
    | false =>
      have returned := returnValue_ok_iff (h.ready start) c.choice
      rw [c.flow_run map w understood null, succeeded_answer]
      refine Iff.trans ?_ (returned.trans ?_)
      · cases returnValue map w ⟨c.node, start, c.newId⟩ c.choice <;> simp [Except.mapError]
      · simp [null]

/-- What one request leaves, and how the market answers it. -/
structure Handled (map : NetworkMap) (platform : Platform) (w : NetworkState) (c : Call)
    (response : Response) (w' : NetworkState) : Prop where
  reachable : Reachable (network map) (Aside map) w'
  quiet : Quiet w'
  started : ∀ e ∈ w'.started, e ∈ w.started ∨ e.newId = c.newId
  answered : answer map platform (dealsOf w.ledger) c = (response, dealsOf w'.ledger)

private theorem answered_start (h : Servable map platform w (c :: calls)) (start : FlowStart) :
    (match refusal map (dealsOf w.ledger) ⟨c.node, start, c.newId⟩ with
      | some exception => .error (platform.getMessage exception)
      | none => .success) =
      platform.answer (((c.proxy map platform).startTrackedFlowDynamic start).run.run w).1 := by
  have ends := start_ends (c.proxy map platform) (h.ready start)
  change Ends (refusal map (dealsOf w.ledger) ⟨c.node, start, c.newId⟩) _ at ends
  cases refused : refusal map (dealsOf w.ledger) ⟨c.node, start, c.newId⟩ with
  | some exception =>
    rw [refused] at ends
    rw [show (((c.proxy map platform).startTrackedFlowDynamic start).run.run w).1 =
      .error exception from ends]
    rfl
  | none =>
    rw [refused] at ends
    obtain ⟨stx, returned⟩ := ends
    rw [returned]
    rfl

/-- Whatever a request asks for, it is answered as the market answers it. -/
theorem handled (h : Servable map platform w (c :: calls)) : Handled map platform w c
    ((c.post.handle (c.proxy map platform)).run.run w).1
    ((c.post.handle (c.proxy map platform)).run.run w).2 := by
  cases understood : c.post.start platform with
  | error failure =>
    rw [c.malformed_run map w understood]
    exact ⟨h.reachable, h.quiet, fun e he => Or.inl he, by simp only [answer, understood]⟩
  | ok start =>
    have answers := answered_start h start
    rw [handle_understood (c.proxy map platform) w understood]
    cases null : start.hasNull with
    | true =>
      rw [start_null null] at answers ⊢
      refine ⟨h.reachable, h.quiet, fun e he => Or.inl he, ?_⟩
      simp only [answer, understood, answers, null, if_true]
      rfl
    | false =>
      rw [start_flow null] at answers ⊢
      have trades := h.trades c (List.mem_cons_self ..) start understood
      refine ⟨through_aside trades h.reachable, through_quiet h.quiet, fun e he => ?_, ?_⟩
      · rcases through_started he with old | rfl
        · exact Or.inl old
        · exact Or.inr rfl
      · have serves := (through_serves (h.ready start) c.choice).2
        simp only [answer, understood, answers, null, Bool.false_eq_true, if_false]
        exact congrArg (Prod.mk _) serves.symm

theorem Servable.next (h : Servable map platform w (c :: calls)) :
    Servable map platform ((c.post.handle (c.proxy map platform)).run.run w).2 calls := by
  have one := handled h
  have distinct := h.distinct
  rw [List.map_cons, List.nodup_cons] at distinct
  refine ⟨one.reachable, one.quiet, fun c' hc' => h.known c' (List.mem_cons_of_mem _ hc'),
    fun c' hc' => h.trades c' (List.mem_cons_of_mem _ hc'), fun c' hc' e he same => ?_, distinct.2⟩
  rcases one.started e he with old | new
  · exact h.fresh c' (List.mem_cons_of_mem _ hc') e old same
  · exact distinct.1 (by rw [← new, same]; exact List.mem_map_of_mem hc')

theorem serveAll_cons : serveAll map platform (c :: calls) w =
    (((c.post.handle (c.proxy map platform)).run.run w).1 ::
        (serveAll map platform calls ((c.post.handle (c.proxy map platform)).run.run w).2).1,
      (serveAll map platform calls ((c.post.handle (c.proxy map platform)).run.run w).2).2) :=
  rfl

theorem Servable.done (h : Servable map platform w calls) :
    Servable map platform (serveAll map platform calls w).2 [] := by
  induction calls generalizing w with
  | nil => exact h
  | cons c calls ih =>
    rw [serveAll_cons]
    exact ih h.next

section Desk

def messageOf : Failure → Option String
  | .illegalArgument message => some message
  | .flow message => message
  | _ => none

def classOf : Failure → String
  | .illegalArgument _ | .notaryMismatch _ _ | .unreachable _ | .localSession =>
    "java.lang.IllegalArgumentException"
  | .flow _ | .unsignable => "net.corda.core.flows.FlowException"
  | .indexOutOfBounds => "java.lang.IndexOutOfBoundsException"
  | .nullPointer => "java.lang.NullPointerException"
  | .vaultQuery => "net.corda.core.node.services.VaultQueryException"
  | .unverified => "net.corda.core.contracts.TransactionVerificationException"
  | .doubleSpend _ => "net.corda.core.flows.NotaryException"

def isCordaThrowable : Failure → Bool
  | .flow _ | .unsignable | .vaultQuery | .unverified | .doubleSpend _ => true
  | .illegalArgument _ | .notaryMismatch _ _ | .unreachable _ | .localSession
  | .indexOutOfBounds | .nullPointer => false

/-- What is no CordaThrowable comes back from the node as a CordaRuntimeException that names
its class. -/
def overRpc (text : String) : String := "net.corda.core.CordaRuntimeException: " ++ text

def initiatorOf : Flow → String
  | .proposal => "net.corda.negotiation.flows.ProposalFlow$Initiator"
  | .modification => "net.corda.negotiation.flows.ModificationFlow$Initiator"
  | .acceptance => "net.corda.negotiation.flows.AcceptanceFlow$Initiator"
  | .killProposal => "net.corda.negotiation.flows.KillProposalFlow$Initiator"
  | .killModification => "net.corda.negotiation.flows.KillModificationFlow$Initiator"

/-- A platform as alice and bob find it. The text of an ExecutionException is the class of
its cause with the cause's own text; that of an IllegalFlowLogicException is given up to the
arguments that it lists. -/
def desk : Platform where
  parse text :=
    if text = some "O=bob, L=Tokyo, C=JP" then .ok bob.name
    else if text = some "O=alice, L=New York, C=US" then .ok alice.name
    else .error (.illegalArgument "improperly specified input name")
  toString name :=
    "O=" ++ name.organisation ++ ", L=" ++ name.locality ++ ", C=" ++ name.country
  fromString text :=
    if text = some "00000000-0000-0000-0000-000000000007" then .ok 7
    else .error (.illegalArgument "Invalid UUID string")
  wellKnownPartyFromX500Name name := [alice, bob].find? (fun q => q.name = name)
  getMessage
    | .parsing failure => messageOf failure
    | .illegalFlowLogic start => some ("net.corda.core.flows.IllegalFlowLogicException: " ++
      "A FlowLogicRef cannot be constructed for FlowLogic of type " ++ initiatorOf start.flow ++
      ": as could not find matching constructor for: ")
    | .execution cause =>
      let text := classOf cause ++ ((messageOf cause).map (": " ++ ·)).getD ""
      some (if isCordaThrowable cause then text else overRpc text)

def aliceProposes : Call :=
  ⟨alice, 7, 0, .createProposal ⟨some true, some 10, some 10, some "O=bob, L=Tokyo, C=JP"⟩⟩

def bobAnswers : List Call :=
  [⟨bob, 8, 0, .modifyProposal ⟨some "00000000-0000-0000-0000-000000000007", some 8, some 8⟩⟩,
   ⟨bob, 9, 0, .acceptProposal ⟨some "00000000-0000-0000-0000-000000000007"⟩⟩]

theorem desk_servable : Servable twoNodes desk .empty (aliceProposes :: bobAnswers) := by
  refine ⟨.initial rfl, ⟨rfl, rfl⟩, by decide, fun c hc start understood => ?_, by decide,
    by decide⟩
  simp only [bobAnswers, List.mem_cons, List.not_mem_nil, or_false] at hc
  rcases hc with rfl | rfl | rfl <;> obtain rfl := Except.ok.inj understood <;> decide

end Desk

private theorem commits_of_success (h : Servable map platform w (c :: calls))
    (success : succeeded ((c.post.handle (c.proxy map platform)).run.run w).1 = true) :
    ∃ q stx, c.request platform = some q ∧
      ((c.post.handle (c.proxy map platform)).run.run w).2.ledger = w.ledger ++ [stx] ∧
      bookOf ((c.post.handle (c.proxy map platform)).run.run w).2.ledger =
        Function.update (bookOf w.ledger) q.on (bookOf w.ledger q.on ++ [q.enters]) := by
  have one := handled h
  obtain ⟨start, stx, counterparty, understood, full, completes⟩ := (success_iff h).mp success
  obtain ⟨q, asked, granted, effected⟩ := completes_granted (h.ready start) completes
  obtain ⟨-, signed, -, ran⟩ := completes
  have run := congrArg Prod.snd (c.flow_run map w understood full)
  have grown : ((c.post.handle (c.proxy map platform)).run.run w).2.ledger =
      w.ledger ++ [signed] := by
    rw [run, ran]
    rfl
  have rule := (sound (one.reachable.mono (fun _ _ _ => trivial))).orderly
  rw [ran] at effected
  refine ⟨q, signed, by simp [Call.request, understood, full, asked, Except.toOption], grown, ?_⟩
  rw [grown] at rule ⊢
  exact book_effect rule granted.1 effected

private theorem ledger_of_failure (h : Servable map platform w (c :: calls))
    (failed : ¬ succeeded ((c.post.handle (c.proxy map platform)).run.run w).1 = true) :
    ((c.post.handle (c.proxy map platform)).run.run w).2.ledger = w.ledger := by
  cases understood : c.post.start platform with
  | error failure => rw [c.malformed_run map w understood]
  | ok start =>
    cases null : start.hasNull with
    | true => rw [c.null_run map w understood null]
    | false =>
      rw [c.flow_run map w understood null]
      have stopped : ¬ ∃ stx counterparty,
          Completes map w ⟨c.node, start, c.newId⟩ c.choice stx counterparty := by
        rintro ⟨stx, counterparty, completes⟩
        exact failed ((success_iff h).mpr ⟨start, stx, counterparty, understood, null, completes⟩)
      exact (unchanged_of_failure (h.ready start) stopped).ledger

theorem successes_cons {response : Response} {responses : List Response} :
    successes platform (c :: calls) (response :: responses) =
      (if succeeded response then (c.request platform).toList else []) ++
        successes platform calls responses := by
  cases success : succeeded response
  · simp [successes, success]
  · cases asked : c.request platform <;> simp [successes, success, asked]

theorem ledger_appends (h : Servable map platform w calls) :
    ∃ new, (serveAll map platform calls w).2.ledger = w.ledger ++ new ∧
      new.length = (serveAll map platform calls w).1.countP succeeded := by
  induction calls generalizing w with
  | nil => exact ⟨[], by simp [serveAll], rfl⟩
  | cons c calls ih =>
    obtain ⟨new, grown, count⟩ := ih h.next
    rw [serveAll_cons]
    by_cases success : succeeded ((c.post.handle (c.proxy map platform)).run.run w).1 = true
    · obtain ⟨q, stx, -, first, -⟩ := commits_of_success h success
      refine ⟨stx :: new, ?_, ?_⟩
      · rw [grown, first, List.append_assoc, List.singleton_append]
      · simp [success, count]
    · exact ⟨new, by rw [grown, ledger_of_failure h success], by simp [success, count]⟩

theorem book_appends (h : Servable map platform w calls) (id : UniqueIdentifier) :
    bookOf (serveAll map platform calls w).2.ledger id = bookOf w.ledger id ++
      trace (successes platform calls (serveAll map platform calls w).1) id := by
  induction calls generalizing w with
  | nil => simp [serveAll, successes, trace]
  | cons c calls ih =>
    have rest := ih h.next
    rw [serveAll_cons, successes_cons]
    by_cases success : succeeded ((c.post.handle (c.proxy map platform)).run.run w).1 = true
    · obtain ⟨q, stx, asked, -, entered⟩ := commits_of_success h success
      rw [rest, entered, if_pos success, asked, Option.toList_some, List.singleton_append,
        trace_cons]
      by_cases on : id = q.on
      · subst on
        simp
      · simp [on, Ne.symm on]
    · rw [rest, ledger_of_failure h success, if_neg success, List.nil_append]

end EnergyMarket.Service
