import Mathlib.Data.List.Nodup
import SynergyNode.Proofs.Peer.Operations

/-!
# Open connections

Whoever takes a connection out of the index has to tell it to close, and there are several ways out:
a connection is replaced, removed by its id, or closed with its peer, and a ban or the last fault
closes what they concern.  A connection that is forgotten would stay open for ever; one that is told
to close while it is in the index would be dead for all who find it.

* `Operation.rewires`: **all that an operation does to the connections**;
* `Wired.rewires`: so it keeps the index and the connections that were told to close in step, as
  long as no link is used twice;
* `closed_iff_unindexed`: hence after any operations a connection was told to close exactly when it
  is in the index no more, and a removal that comes late finds nothing to remove.
-/

namespace SynergyNode

namespace Registry

variable {r r' : Registry} {p : Route → Bool} {new : Option (Route × Connection)}
  {seen : List (Route × Connection)} {route : Route} {link : Nat}

/-! ## 1. What is told to close -/

theorem mem_foldl_insert_link (entries : List (Route × Connection)) (closed : Std.ExtTreeSet Nat) :
    link ∈ entries.foldl (fun s e => s.insert e.2.link) closed ↔
      link ∈ closed ∨ ∃ e ∈ entries, e.2.link = link := by
  induction entries generalizing closed with
  | nil => simp
  | cons e entries ih => simp [ih, or_assoc, or_left_comm]

theorem mem_closed_closeWhere (r : Registry) (p : Route → Bool) :
    link ∈ (r.closeWhere p).closed ↔
      link ∈ r.closed ∨
        ∃ route c, r.connections[route]? = some c ∧ p route = true ∧ c.link = link := by
  rw [closeWhere, mem_foldl_insert_link]
  simp only [Prod.exists, Std.ExtTreeMap.mem_toList_iff_getElem?_eq_some,
    Std.ExtTreeMap.getElem?_filter', Option.filter_eq_some_iff, and_assoc]

theorem mem_closed_addConnection (r : Registry) (route : Route) (c : Connection) :
    link ∈ (r.addConnection route c).closed ↔
      link ∈ r.closed ∨ ∃ old, r.connections[route]? = some old ∧ old.link = link := by
  rw [addConnection]
  cases hold : r.connections[route]? with
  | none => simp
  | some old => simp [or_comm]

/-! ## 2. What an operation does -/

/-- The connections on some routes leave the index and are told to close, and one may enter it. -/
structure Rewires (r r' : Registry) (p : Route → Bool) (new : Option (Route × Connection)) :
    Prop where
  index : ∀ route c, r'.connections[route]? = some c ↔
    new = some (route, c) ∨ r.connections[route]? = some c ∧ p route = false
  closed : ∀ link, link ∈ r'.closed ↔
    link ∈ r.closed ∨ ∃ route c, r.connections[route]? = some c ∧ p route = true ∧ c.link = link

/-- Nothing is done to the connections. -/
theorem Rewires.of_eq (hindex : r'.connections = r.connections) (hclosed : r'.closed = r.closed) :
    r.Rewires r' (fun _ => false) none where
  index route c := by simp [hindex]
  closed link := by simp [hclosed]

/-- Connections are closed after changes that do not concern them. -/
theorem rewires_closeWhere (hindex : r'.connections = r.connections)
    (hclosed : r'.closed = r.closed) (p : Route → Bool) : r.Rewires (r'.closeWhere p) p none where
  index route c := by
    rw [connections_closeWhere, hindex]
    cases p route <;> simp
  closed link := by rw [mem_closed_closeWhere, hindex, hclosed]

theorem rewires_addConnection (r : Registry) (route : Route) (c : Connection) :
    r.Rewires (r.addConnection route c) (· == route) (some (route, c)) where
  index route' c' := by
    rw [connections_addConnection]
    by_cases h : route = route'
    · simp [h]
    · simp [h, Ne.symm h]
  closed link := by
    rw [mem_closed_addConnection]
    simp

theorem rewires_ban (r : Registry) (now : UInt64) (a : PeerAddress) (topic : Option Topic) :
    ∃ p, r.Rewires (r.ban now a topic).2 p none := by
  unfold ban
  split
  · exact ⟨_, .of_eq rfl rfl⟩
  · cases topic with
    | none => refine ⟨_, rewires_closeWhere ?_ ?_ _⟩ <;> rfl
    | some t => refine ⟨_, rewires_closeWhere ?_ ?_ _⟩ <;> rfl

/-- The connection that an operation enters. -/
def Operation.adds? : Operation → Option (Route × Connection)
  | addConnection route c => some (route, c)
  | _ => none

/-- **All that an operation does to the connections**: those on some routes leave the index and are
told to close, and the one that is added enters it. -/
theorem Operation.rewires (now : UInt64) (r : Registry) (op : Operation) :
    ∃ p, r.Rewires (op.after now r) p op.adds? := by
  cases op with
  | registerValid a =>
    refine ⟨_, .of_eq (connections_registerValid r a) ?_⟩
    simp only [after, Registry.registerValid]
    split <;> rfl
  | registerNode a => exact ⟨_, .of_eq rfl rfl⟩
  | reward a =>
    refine ⟨_, .of_eq (connections_reward r a) ?_⟩
    simp only [after, Registry.reward]
    split <;> rfl
  | reduceTrust a =>
    simp only [after, adds?]
    rcases reduceTrust_cases r a with ⟨-, h⟩ | ⟨-, -, h⟩ | ⟨t, -, -, -, h⟩ | ⟨t, -, -, -, h⟩ <;>
      rw [h] <;> exact ⟨_, .of_eq rfl rfl⟩
  | fault a =>
    simp only [after, adds?]
    rcases fault_cases r now a with ⟨-, h⟩ | ⟨-, -, h⟩ | ⟨t, -, -, -, h⟩ | ⟨t, -, -, -, h⟩
    · rw [h]
      exact ⟨_, .of_eq rfl rfl⟩
    · rw [h]
      exact ⟨_, .of_eq rfl rfl⟩
    · rw [h]
      exact ⟨_, .of_eq rfl rfl⟩
    · rw [h]
      exact rewires_ban r now a none
  | ban a topic => exact rewires_ban r now a topic
  | addConnection route c => exact ⟨_, rewires_addConnection r route c⟩
  | removeConnection route id =>
    simp only [after, adds?]
    rcases removeConnection_cases r route id with h | h
    · rw [h]
      exact ⟨_, .of_eq rfl rfl⟩
    · rw [h]
      exact ⟨_, rewires_closeWhere rfl rfl _⟩
  | closeAll a => exact ⟨_, rewires_closeWhere rfl rfl _⟩
  | setChainHeight height => exact ⟨_, .of_eq rfl rfl⟩

/-! ## 3. Index and links in step -/

/-- Of the connections that were added, those that are not in the index were told to close, and no
others. -/
structure Wired (r : Registry) (seen : List (Route × Connection)) : Prop where
  indexed : ∀ route c, r.connections[route]? = some c → (route, c) ∈ seen
  closed : ∀ link ∈ r.closed, ∃ e ∈ seen, e.2.link = link
  told : ∀ e ∈ seen, e.2.link ∈ r.closed ↔ r.connections[e.1]? ≠ some e.2

/-- Every connection has a link of its own. -/
def OwnLinks (seen : List (Route × Connection)) : Prop := (seen.map fun e => e.2.link).Nodup

theorem OwnLinks.eq (h : OwnLinks seen) {e e' : Route × Connection} (he : e ∈ seen)
    (he' : e' ∈ seen) (hlink : e.2.link = e'.2.link) : e = e' :=
  List.inj_on_of_nodup_map h he he' hlink

theorem wired_empty (myIp : PeerAddress) (budget : Int32) (policy : BanPolicy) :
    (empty myIp budget policy).Wired [] where
  indexed route c h := by simp [empty] at h
  closed link h := by simp [empty] at h
  told e h := by cases h

/-- **One operation keeps index and links in step.** -/
theorem Wired.rewires (h : r.Wired seen) (hop : r.Rewires r' p new)
    (hown : OwnLinks (seen ++ new.toList)) : r'.Wired (seen ++ new.toList) := by
  have hold {e : Route × Connection} (he : e ∈ seen) : e ∈ seen ++ new.toList :=
    List.mem_append_left _ he
  -- A connection that is entered was not there before.
  have hfresh {e : Route × Connection} (he : e ∈ seen) : new ≠ some e := by
    rintro rfl
    rw [OwnLinks, List.map_append, Option.toList_some, List.map_singleton] at hown
    exact (List.nodup_append.mp hown).2.2 e.2.link (List.mem_map_of_mem he) e.2.link
      (List.mem_singleton_self _) rfl
  have hclosed : ∀ link ∈ r'.closed, ∃ e ∈ seen, e.2.link = link := by
    intro link hlink
    rcases (hop.closed link).mp hlink with hbefore | ⟨route, c, hindexed, -, hc⟩
    · exact h.closed link hbefore
    · exact ⟨(route, c), h.indexed route c hindexed, hc⟩
  refine ⟨?_, ?_, ?_⟩
  · intro route c hindexed
    rcases (hop.index route c).mp hindexed with hnew | ⟨hbefore, -⟩
    · simp [hnew]
    · exact hold (h.indexed route c hbefore)
  · intro link hlink
    obtain ⟨e, he, heq⟩ := hclosed link hlink
    exact ⟨e, hold he, heq⟩
  · intro e he
    rcases List.mem_append.mp he with hadded | hentered
    · constructor
      · intro hlink hindexed
        rcases (hop.index e.1 e.2).mp hindexed with hnew | ⟨hbefore, hkept⟩
        · exact hfresh hadded hnew
        · rcases (hop.closed e.2.link).mp hlink with htold | ⟨route, c, hcut, hp, hc⟩
          · exact (h.told e hadded).mp htold hbefore
          · obtain rfl := hown.eq (hold (h.indexed route c hcut)) (hold hadded) hc
            rw [hp] at hkept
            cases hkept
      · intro hgone
        rw [hop.closed]
        by_cases hbefore : r.connections[e.1]? = some e.2
        · cases hp : p e.1 with
          | true => exact Or.inr ⟨e.1, e.2, hbefore, hp, rfl⟩
          | false => exact absurd ((hop.index e.1 e.2).mpr (Or.inr ⟨hbefore, hp⟩)) hgone
        · exact Or.inl ((h.told e hadded).mpr hbefore)
    · have hnew : new = some e := Option.mem_toList.mp hentered
      refine iff_of_false ?_ (not_not_intro ((hop.index e.1 e.2).mpr (Or.inl hnew)))
      intro hlink
      obtain ⟨e', he', heq⟩ := hclosed e.2.link hlink
      obtain rfl := hown.eq (hold he') he heq
      exact hfresh he' hnew

/-- The connections that are added in the course of some operations. -/
def added (ops : List (UInt64 × Operation)) : List (Route × Connection) :=
  ops.filterMap fun e => e.2.adds?

theorem added_cons (first : UInt64 × Operation) (ops : List (UInt64 × Operation)) :
    added (first :: ops) = first.2.adds?.toList ++ added ops := by
  unfold added
  rw [List.filterMap_cons]
  cases first.2.adds? <;> rfl

/-- **So does a row of operations.**  The induction is on the operations; what was added before them
goes along. -/
theorem Wired.perform (h : r.Wired seen) (ops : List (UInt64 × Operation))
    (hown : OwnLinks (seen ++ added ops)) :
    (r.perform ops).Wired (seen ++ added ops) := by
  induction ops generalizing r seen with
  | nil =>
    have hnone : added [] = [] := rfl
    rw [hnone, List.append_nil]
    exact h
  | cons first ops ih =>
    rw [added_cons, ← List.append_assoc] at hown ⊢
    obtain ⟨p, hop⟩ := first.2.rewires first.1 r
    refine ih (h.rewires hop ?_) hown
    exact hown.sublist ((List.sublist_append_left _ _).map _)

/-! ## 4. Removals -/

theorem mem_connections {e : Route × Connection} :
    e ∈ r.connections.toList ↔ r.connections[e.1]? = some e.2 :=
  Std.ExtTreeMap.mem_toList_iff_getElem?_eq_some

/-- A removal with another id than that of the connection in the index does nothing. -/
theorem removeConnection_of_ne {id : UInt64}
    (h : ∀ c, r.connections[route]? = some c → c.id ≠ id) :
    r.removeConnection route id = (false, r) := by
  unfold removeConnection
  split
  · rename_i c hindexed
    rw [if_neg (h c hindexed)]
  · rfl

/-- **A connection was told to close exactly when it is in the index no more.**  Let connections
come with ids and links of their own, and go in any way.  Then the index has at most one for each
topic and peer; of those that were ever added, the ones that were told to close are the ones that
are not in the index; and a removal with another id than the one in the index changes nothing, so
none that comes late hits the connection that has taken the place of its own. -/
theorem closed_iff_unindexed (myIp : PeerAddress) (budget : Int32) (policy : BanPolicy)
    (ops : List (UInt64 × Operation)) (hids : ((added ops).map fun e => e.2.id).Nodup)
    (hlinks : ((added ops).map fun e => e.2.link).Nodup) {r : Registry}
    (hr : (empty myIp budget policy).perform ops = r) :
    (∀ e ∈ r.connections.toList, e ∈ added ops ∧
      ∀ e' ∈ r.connections.toList, e'.1 = e.1 → e' = e) ∧
    (∀ e ∈ added ops, e.2.link ∈ r.closed ↔ e ∉ r.connections.toList) ∧
    (∀ route id, (∀ c, (route, c) ∈ r.connections.toList → c.id ≠ id) →
      r.removeConnection route id = (false, r)) ∧
    ∀ e ∈ added ops, e ∉ r.connections.toList → r.removeConnection e.1 e.2.id = (false, r) := by
  have hwired : r.Wired (added ops) := by
    have hrun := (wired_empty myIp budget policy).perform ops hlinks
    rwa [hr, List.nil_append] at hrun
  refine ⟨?_, ?_, ?_, ?_⟩
  · intro e he
    rw [mem_connections] at he
    refine ⟨hwired.indexed e.1 e.2 he, ?_⟩
    intro e' he' hroute
    rw [mem_connections, hroute, he] at he'
    exact Prod.ext hroute (Option.some.inj he').symm
  · intro e he
    rw [mem_connections]
    exact hwired.told e he
  · intro route id hother
    exact removeConnection_of_ne fun c hc => hother c (mem_connections.mpr hc)
  · intro e he hgone
    refine removeConnection_of_ne ?_
    -- The one in the index was added as well, and has another id.
    rintro c hc hid
    have hsame := List.inj_on_of_nodup_map hids (hwired.indexed e.1 c hc) he hid
    rw [mem_connections] at hgone
    exact hgone (hsame ▸ hc)

/-- A connection for blocks is replaced, the old one says that it is gone, and the peer is banned
from rounds. -/
def Sample.replaced : List (UInt64 × Operation) :=
  [(10, .registerValid Sample.peer), (10, .addConnection Sample.blockRoute ⟨1, 0, false⟩),
    (11, .addConnection ⟨Topic.nonce, Sample.peer⟩ ⟨2, 1, true⟩),
    (12, .addConnection Sample.blockRoute ⟨3, 2, true⟩),
    (13, .removeConnection Sample.blockRoute 1), (14, .ban Sample.peer (some Topic.nonce))]

/-- The new connection for blocks is open, the other two are not. -/
theorem closed_iff_unindexed_replaced :
    0 ∈ (Sample.start.perform Sample.replaced).closed ∧
      1 ∈ (Sample.start.perform Sample.replaced).closed ∧
      2 ∉ (Sample.start.perform Sample.replaced).closed ∧
      (Sample.start.perform Sample.replaced).removeConnection Sample.blockRoute 1 =
        (false, Sample.start.perform Sample.replaced) := by
  obtain ⟨-, hclosed, -, hlate⟩ := closed_iff_unindexed PeerAddress.loopback 2 BanPolicy.standard
    Sample.replaced (by decide) (by decide) (r := Sample.start.perform Sample.replaced) rfl
  have hfirst : (Sample.blockRoute, (⟨1, 0, false⟩ : Connection)) ∉
      (Sample.start.perform Sample.replaced).connections.toList := by
    rw [mem_connections]
    decide +kernel
  have hsecond : ((⟨Topic.nonce, Sample.peer⟩ : Route), (⟨2, 1, true⟩ : Connection)) ∉
      (Sample.start.perform Sample.replaced).connections.toList := by
    rw [mem_connections]
    decide +kernel
  have hthird : (Sample.blockRoute, (⟨3, 2, true⟩ : Connection)) ∈
      (Sample.start.perform Sample.replaced).connections.toList := by
    rw [mem_connections]
    decide +kernel
  refine ⟨(hclosed _ (by decide)).mpr hfirst, (hclosed _ (by decide)).mpr hsecond, ?_,
    hlate _ (by decide) hfirst⟩
  intro hlink
  exact (hclosed (Sample.blockRoute, ⟨3, 2, true⟩) (by decide)).mp hlink hthird

end Registry

end SynergyNode
