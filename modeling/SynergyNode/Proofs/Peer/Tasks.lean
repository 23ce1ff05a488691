import SynergyNode.Proofs.Peer.Operations
import SynergyNode.Transport.Stream

/-!
# The tasks of a node, lock by lock

The tasks of a node share its registry, and each holds the lock for one operation only.  Where a
task makes several, others come in between: a peer may be banned after it was given its trust and
before its connection is entered, while a dial is awaited, or while a connection that broke off
waits to be restored; and the fault that takes the last point of trust and the ban that follows are
two operations.

A `Peering` is a registry with the tasks that are under way, and a `Step` is what one task does
while it holds the lock.  A step that needs a task which is not under way does nothing, so every row
of steps is a run.  There are more runs than a node makes: a task that stops may do so for any
reason, and a connection that breaks off may be restored whoever had dialed.

* `Step.after_cases`: all that a step does;
* `Step.condemned_after`: a ban that is due stays so until it is carried out;
* `accept_run`, `connectTo_run`, `leave_run`, `fault_run`: what the transport does in one go is a row
  of steps, whatever else is under way.
-/

namespace SynergyNode

namespace Peering

/-- How far an attempt to connect with a peer has come. -/
inductive Stage where
  /-- The peer is not banned. -/
  | checked
  /-- It has been given its trust.  Its connection is to be entered, or a dial is awaited. -/
  | registered
  /-- Its connection broke off, and is to be restored. -/
  | broken
  /-- It is not banned since either, and a dial is awaited. -/
  | redialing
deriving DecidableEq

/-- What a node has begun. -/
inductive Task where
  | attempt (stage : Stage) (route : Route)
  /-- A fault took the last point of trust, and the ban is due. -/
  | condemned (a : PeerAddress)
deriving DecidableEq

/-- What one task does at a time. -/
inductive Step where
  /-- Looks whether a peer that connects, or is to be dialed, is banned. -/
  | check (route : Route)
  /-- Gives it its trust. -/
  | register (route : Route)
  /-- Enters its connection. -/
  | connect (route : Route) (c : Connection)
  /-- A dial failed: takes a point of trust. -/
  | failDial (route : Route)
  /-- An attempt comes to nothing. -/
  | stop (stage : Stage) (route : Route)
  /-- A connection that this node dialed breaks off, and is restored if it was still the one. -/
  | breakOff (route : Route) (id : UInt64)
  /-- Looks whether the peer is banned before it is dialed again. -/
  | recheck (route : Route)
  | failRedial (route : Route)
  /-- Enters the connection that restores the one that broke off. -/
  | reconnect (route : Route) (c : Connection)
  /-- No dial succeeded: closes all connections of the peer. -/
  | giveUp (route : Route)
  /-- Takes a point of trust for anything else. -/
  | fault (a : PeerAddress)
  /-- Makes the ban that is due. -/
  | carryOut (a : PeerAddress)
  | ban (a : PeerAddress) (topic : Option Topic)
  | reward (a : PeerAddress)
  | registerNode (a : PeerAddress)
  | removeConnection (route : Route) (id : UInt64)
  | closeAll (a : PeerAddress)
  | setChainHeight (height : UInt64)
deriving DecidableEq

end Peering

/-- A registry, and what is under way. -/
structure Peering where
  registry : Registry
  /-- In no order; the same may be under way twice. -/
  tasks : List Peering.Task

namespace Peering

namespace Step

/-! ## 1. Steps -/

/-- The task that a step takes up. -/
def needs? : Step → Option Task
  | register route => some (.attempt .checked route)
  | connect route _ | failDial route => some (.attempt .registered route)
  | stop stage route => some (.attempt stage route)
  | recheck route | giveUp route => some (.attempt .broken route)
  | failRedial route | reconnect route _ => some (.attempt .redialing route)
  | carryOut a => some (.condemned a)
  | _ => none

/-- What it does to the registry; some steps only look. -/
def operation? : Step → Option Registry.Operation
  | check _ | stop _ _ | recheck _ | failRedial _ => none
  | register route => some (.registerValid route.peer)
  | connect route c | reconnect route c => some (.addConnection route c)
  | failDial route => some (.reduceTrust route.peer)
  | breakOff route id | removeConnection route id => some (.removeConnection route id)
  | giveUp route => some (.closeAll route.peer)
  | fault a => some (.reduceTrust a)
  | carryOut a => some (.ban a none)
  | ban a topic => some (.ban a topic)
  | reward a => some (.reward a)
  | registerNode a => some (.registerNode a)
  | closeAll a => some (.closeAll a)
  | setChainHeight height => some (.setChainHeight height)

/-- What is under way afterwards in place of the task that it took up. -/
def begins (now : UInt64) (r : Registry) : Step → List Task
  | check route =>
    if r.isBanned now route.peer route.topic then [] else [.attempt .checked route]
  | register route => [.attempt .registered route]
  | failDial route =>
    if (r.reduceTrust route.peer).1 = .exhausted then [.condemned route.peer]
    else [.attempt .registered route]
  | breakOff route id =>
    if (r.removeConnection route id).1 then [.attempt .broken route] else []
  | recheck route =>
    if r.isBanned now route.peer route.topic then [] else [.attempt .redialing route]
  | failRedial route => [.attempt .broken route]
  | fault a => if (r.reduceTrust a).1 = .exhausted then [.condemned a] else []
  | _ => []

/-- A step, with what is under way but for the task that it takes up. -/
def make (now : UInt64) (r : Registry) (rest : List Task) (step : Step) : Peering where
  registry :=
    match step.operation? with
    | some op => op.after now r
    | none => r
  tasks := step.begins now r ++ rest

/-- What is under way after a step that is made at a time. -/
def after (now : UInt64) (s : Peering) (step : Step) : Peering :=
  match step.needs? with
  | some task =>
    if task ∈ s.tasks then step.make now s.registry (s.tasks.erase task) else s
  | none => step.make now s.registry s.tasks

variable {now : UInt64} {s : Peering} {step : Step} {a : PeerAddress} {task : Task}

theorem after_of_free (h : step.needs? = none) :
    step.after now s = step.make now s.registry s.tasks := by
  simp only [after, h]

theorem after_of_mem (h : step.needs? = some task) (hunder : task ∈ s.tasks) :
    step.after now s = step.make now s.registry (s.tasks.erase task) := by
  simp only [after, h, if_pos hunder]

theorem after_of_not_mem (h : step.needs? = some task) (hunder : task ∉ s.tasks) :
    step.after now s = s := by
  simp only [after, h, if_neg hunder]

/-- **All that a step does**: nothing, or it takes up its task, makes its operation, and begins what
comes next. -/
theorem after_cases (now : UInt64) (s : Peering) (step : Step) :
    step.after now s = s ∨ ∃ rest, step.after now s = step.make now s.registry rest ∧
      (∀ task, step.needs? = some task → task ∈ s.tasks) ∧ rest ⊆ s.tasks := by
  cases hneeds : step.needs? with
  | none => exact Or.inr ⟨s.tasks, after_of_free hneeds, nofun, List.Subset.refl _⟩
  | some needed =>
    by_cases hunder : needed ∈ s.tasks
    · refine Or.inr ⟨s.tasks.erase needed, after_of_mem hneeds hunder, ?_, List.erase_subset⟩
      rintro task ⟨⟩
      exact hunder
    · exact Or.inl (after_of_not_mem hneeds hunder)

/-- A step is one operation on the registry, or none. -/
theorem registry_after (now : UInt64) (s : Peering) (step : Step) :
    (step.after now s).registry = s.registry ∨
      ∃ op, step.operation? = some op ∧ (step.after now s).registry = op.after now s.registry := by
  rcases after_cases now s step with hsame | ⟨rest, hmade, -⟩
  · exact Or.inl (congrArg Peering.registry hsame)
  · rw [hmade, make]
    cases step.operation? with
    | none => exact Or.inl rfl
    | some op => exact Or.inr ⟨op, rfl, rfl⟩

theorem sameSettings_after (now : UInt64) (s : Peering) (step : Step) :
    s.registry.SameSettings (step.after now s).registry := by
  rcases registry_after now s step with hsame | ⟨op, -, hop⟩
  · rw [hsame]
    exact Registry.SameSettings.refl s.registry
  · rw [hop]
    exact op.sameSettings_after now s.registry

theorem trustBounded_after (h : s.registry.TrustBounded) (hbudget : 0 < s.registry.budget)
    (hmax : s.registry.budget ≠ Int32.maxValue) : (step.after now s).registry.TrustBounded := by
  rcases registry_after now s step with hsame | ⟨op, -, hop⟩
  · rw [hsame]
    exact h
  · rw [hop]
    exact op.trustBounded_after now h hbudget hmax

end Step

/-! ## 2. Runs -/

/-- A node without peers. -/
def start (myIp : PeerAddress) (budget : Int32) (policy : BanPolicy) : Peering :=
  ⟨Registry.empty myIp budget policy, []⟩

/-- What is under way after a row of steps, each with the time at which it is made. -/
def run (s : Peering) : (steps : List (UInt64 × Step)) → Peering
  | [] => s
  | (now, step) :: rest => (step.after now s).run rest

theorem run_append (s : Peering) (before later : List (UInt64 × Step)) :
    s.run (before ++ later) = (s.run before).run later := by
  induction before generalizing s with
  | nil => rfl
  | cons e before ih => exact ih (e.2.after e.1 s)

/-- Some row of steps leads from one to the other. -/
def Leads (s s' : Peering) : Prop := ∃ steps, s.run steps = s'

variable {s s' s'' : Peering} {tasks : List Task} {r : Registry} {step : Step} {task : Task}

theorem Leads.refl (s : Peering) : Leads s s := ⟨[], rfl⟩

theorem Leads.trans (h : Leads s s') (h' : Leads s' s'') : Leads s s'' := by
  obtain ⟨before, rfl⟩ := h
  obtain ⟨later, rfl⟩ := h'
  exact ⟨before ++ later, run_append s before later⟩

/-- A step that takes up no task, and then others. -/
theorem Leads.free (now : UInt64) (step : Step) (hneeds : step.needs? = none)
    (h : Leads (step.make now r tasks) s') : Leads ⟨r, tasks⟩ s' := by
  obtain ⟨steps, hsteps⟩ := h
  refine ⟨(now, step) :: steps, ?_⟩
  rw [run, Step.after_of_free hneeds]
  exact hsteps

/-- A step that takes up a task, and then others. -/
theorem Leads.take (now : UInt64) (step : Step) (hneeds : step.needs? = some task)
    (h : Leads (step.make now r tasks) s') : Leads ⟨r, task :: tasks⟩ s' := by
  obtain ⟨steps, hsteps⟩ := h
  refine ⟨(now, step) :: steps, ?_⟩
  rw [run, Step.after_of_mem hneeds List.mem_cons_self, List.erase_cons_head]
  exact hsteps

/-! ## 3. The transport -/

/-- Once a point of trust is taken, the ban that may be due makes it a fault.  What comes next is
under way after it, unless the peer was banned. -/
theorem condemned_run (r : Registry) (tasks next : List Task) (now : UInt64) (a : PeerAddress) :
    Leads ⟨(r.reduceTrust a).2,
        (if (r.reduceTrust a).1 = .exhausted then [.condemned a] else next) ++ tasks⟩
      ⟨(r.fault now a).2, if (r.fault now a).1 = .exhausted then tasks else next ++ tasks⟩ := by
  cases hreduced : r.reduceTrust a with
  | mk outcome r' =>
    simp only [Registry.fault, hreduced]
    cases outcome with
    | exhausted => exact .take now (.carryOut a) rfl (.refl _)
    | _ => exact .refl _

/-- A fault is made in two steps. -/
theorem fault_run (r : Registry) (tasks : List Task) (now : UInt64) (a : PeerAddress) :
    Leads ⟨r, tasks⟩ ⟨(r.fault now a).2, tasks⟩ := by
  have hmade := condemned_run r tasks [] now a
  rw [List.nil_append, ite_self] at hmade
  exact .free now (.fault a) rfl hmade

/-- A peer that connects is checked, gets its trust, and its connection is entered. -/
theorem accept_run (t : Transport) (tasks : List Task) (around : Surroundings) (route : Route) :
    Leads ⟨t.registry, tasks⟩ ⟨(t.accept around route).registry, tasks⟩ := by
  rw [Transport.accept]
  split
  · exact .refl _
  · rename_i hbanned
    refine .free around.now (.check route) rfl ?_
    simp only [Step.make, Step.operation?, Step.begins, if_neg hbanned]
    refine .take around.now (.register route) rfl ?_
    exact .take around.now (.connect route ⟨UInt64.ofNat (t.nextLink + 1), t.nextLink, false⟩) rfl
      (.refl _)

/-- The dials of a peer that has its trust, until one succeeds or the node gives up. -/
theorem dial_run (around : Surroundings) (route : Route) (address : SocketAddress) (n : Nat)
    (t : Transport) (tasks : List Task) :
    Leads ⟨t.registry, .attempt .registered route :: tasks⟩
      ⟨(t.dial around route address n).2.registry, tasks⟩ := by
  have stopped (t : Transport) :
      Leads ⟨t.registry, .attempt .registered route :: tasks⟩ ⟨t.registry, tasks⟩ :=
    .take around.now (.stop .registered route) rfl (.refl _)
  induction n generalizing t with
  | zero => exact stopped t
  | succ n ih =>
    have hfault := condemned_run t.registry tasks [.attempt .registered route] around.now route.peer
    rw [Transport.dial]
    split
    · exact stopped t
    · split
      · exact .take around.now
          (.connect route ⟨UInt64.ofNat (t.nextLink + 1), t.nextLink, true⟩) rfl (.refl _)
      · simp only
        split
        · rename_i hlast
          rw [if_pos hlast] at hfault
          exact .take around.now (.failDial route) rfl hfault
        · rename_i hleft
          have hrest := ih { t with registry := (t.registry.fault around.now route.peer).2 }
          rw [if_neg hleft] at hfault
          exact .take around.now (.failDial route) rfl (hfault.trans hrest)

/-- A peer that is dialed is checked and gets its trust first, unless its address is no peer's or it
is connected. -/
theorem connectTo_run (t : Transport) (tasks : List Task) (around : Surroundings) (topic : Topic)
    (address : SocketAddress) :
    Leads ⟨t.registry, tasks⟩ ⟨(t.connectTo around topic address).2.registry, tasks⟩ := by
  rw [Transport.connectTo]
  cases PeerAddress.ofIp? address.ip with
  | none => exact .refl _
  | some peer =>
    simp only
    split
    · exact .refl _
    · rename_i hbanned
      split
      · exact .refl _
      · have hdials := dial_run around ⟨topic, peer⟩ address (max t.network.dialRetries.toNat 1)
          { t with registry := (t.registry.registerValid peer).2 } tasks
        refine .free around.now (.check ⟨topic, peer⟩) rfl ?_
        simp only [Step.make, Step.operation?, Step.begins, if_neg hbanned]
        exact .take around.now (.register ⟨topic, peer⟩) rfl hdials

/-- A connection that broke off is dialed again as long as its peer is not banned, until a dial
succeeds or the node gives the peer up. -/
theorem reconnect_run (around : Surroundings) (route : Route) (address : SocketAddress) (n : Nat)
    (t : Transport) (tasks : List Task) :
    Leads ⟨t.registry, .attempt .broken route :: tasks⟩
      ⟨(t.reconnect around route address n).registry, tasks⟩ := by
  induction n with
  | zero => exact .take around.now (.giveUp route) rfl (.refl _)
  | succ n ih =>
    rw [Transport.reconnect]
    split
    · exact .take around.now (.stop .broken route) rfl (.refl _)
    · rename_i hgoes
      have hbanned : ¬ t.registry.isBanned around.now route.peer route.topic = true := fun h =>
        hgoes (by simp [h])
      refine .take around.now (.recheck route) rfl ?_
      simp only [Step.make, Step.operation?, Step.begins, if_neg hbanned]
      split
      · exact .take around.now
          (.reconnect route ⟨UInt64.ofNat (t.nextLink + 1), t.nextLink, true⟩) rfl (.refl _)
      · exact .take around.now (.failRedial route) rfl ih

/-- A connection that is read no further is removed, and restored if it broke off. -/
theorem leave_run (t : Transport) (tasks : List Task) (around : Surroundings) (link : Link)
    (brokeOff : Bool) :
    Leads ⟨t.registry, tasks⟩ ⟨(t.leave around link brokeOff).registry, tasks⟩ := by
  have hremoved : Leads ⟨t.registry, tasks⟩
      ⟨(t.registry.removeConnection link.route link.id).2, tasks⟩ :=
    .free around.now (.removeConnection link.route link.id) rfl (.refl _)
  unfold Transport.leave
  simp only
  split
  · rename_i address hdialed
    split
    · rename_i hrestores
      simp only [Bool.and_eq_true] at hrestores
      refine .free around.now (.breakOff link.route link.id) rfl ?_
      simp only [Step.make, Step.operation?, Step.begins, hrestores.1.2, if_true]
      exact reconnect_run around link.route address _
        { t with registry := (t.registry.removeConnection link.route link.id).2 } tasks
    · exact hremoved
  · exact hremoved

end Peering

end SynergyNode
