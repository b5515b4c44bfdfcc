import Mathlib.Data.Finset.Image
import Mathlib.Data.Finset.Option
import Udp2p.Discovery.Survival

/-!
# Are only solicited responses heeded?

The keys of pending requests are meant to be kept, so that a response counts only as an answer to a
request that was sent. A `Watched` node does the bookkeeping that the code leaves out: the keys of
requests go into a set when they are sent, and out of it when they are answered.

* `run_iff_watched` — watching changes nothing about the runs.
* `execute_of_inert`, `inert_of_execute` — a plan does nothing iff it is `Inert`.
* `unsolicited_ignored_iff` — unsolicited responses are ignored in those runs in which all of them
  are inert, and in no others if the clock ticks.
* `unsolicited_list_heeded` — the list of a response to no request is handled.
-/

namespace Udp2p

namespace Kademlia

variable {M : Type} [LinkedHashMap PeerId PeerInfo M] (W : KadWire)

/-- The key of the request a message answers: that in a response, and that in a request which is
handed on as a response. -/
def answeredKey : KadMessage → Option InnerKey
  | .response resp => (readResponse W resp).map fun r => r.1.id
  | .request req => do
    let request ← W.req.fromBytes req
    let rpc ← W.rpc.fromBytes request.payload
    if (responded W rpc).isSome then (readResponse W req).map fun r => r.1.id else none
  | .kill => none

/-- A node and the keys of its requests that are not answered. -/
structure Watched (M : Type) where
  node : Kademlia M
  awaited : Finset InnerKey

/-- The keys answered by an event. -/
def Event.answered : Event → Finset InnerKey
  | .bootstrap _ => ∅
  | .handleMessage message => (answeredKey W message).toFinset

def watched (depth : Nat) : Machine (Watched M) Event Outgoing where
  step s e := ((machine W depth).step s.node e).map fun r =>
    (⟨r.1, s.awaited \ e.answered W ∪ (r.2.filterMap Outgoing.key).toFinset⟩, r.2)

/-- The message answers a request that is not awaited. -/
def Unsolicited (s : Watched M) (message : KadMessage) : Prop :=
  ∃ key, answeredKey W message = some key ∧ key ∉ s.awaited

/-- If the event is an unsolicited response, it leaves the table as it was and sends nothing. -/
def Ignored (depth : Nat) (s : Watched M) (e : Event) : Prop :=
  ∀ message, e = .handleMessage message → Unsolicited W s message →
    ∀ s' out, (watched W depth).step s e = some (s', out) →
      s.node.routingTable.SameTable s'.node.routingTable ∧ out = []

/-- There is no sender to be stored, and nothing else: nothing is asked for or it is lost, or no
entry of the list decodes. -/
def Inert (plan : Plan) : Prop :=
  plan.sender = none ∧ (plan.todo = .lost ∨ plan.todo = .nothing ∨
    ∃ nodes, plan.todo = .meet nodes ∧ ∀ entry ∈ nodes, W.peer.fromBytes entry = none)

/-- If the event is an unsolicited response, its plan is inert. -/
def UnsolicitedInert (s : Watched M) (e : Event) : Prop :=
  ∀ message, e = .handleMessage message → Unsolicited W s message → Inert W (planOf W message)

variable {W} {localInfo : PeerInfo}

/-- **Watching changes nothing.** -/
theorem run_iff_watched {depth : Nat} {s : Watched M} {events : List Event} {k : Kademlia M}
    {outs : List Outgoing} : (machine W depth).run s.node events = some (k, outs) ↔
      ∃ awaited, (watched W depth).run s events = some (⟨k, awaited⟩, outs) := by
  induction events generalizing s outs with
  | nil =>
    obtain ⟨node, awaited⟩ := s
    simp [Watched.mk.injEq]
  | cons e events ih =>
    rw [Machine.run_cons_eq_some]
    constructor
    · intro h
      obtain ⟨k₁, out, outs', hstep, hrun, rfl⟩ := h
      let s₁ : Watched M :=
        ⟨k₁, s.awaited \ e.answered W ∪ (out.filterMap Outgoing.key).toFinset⟩
      have hwatched : (watched W depth).step s e = some (s₁, out) := by
        simp only [watched, hstep, Option.map_some, s₁]
      obtain ⟨awaited, hrest⟩ := (ih (s := s₁)).mp hrun
      exact ⟨awaited, (watched W depth).run_cons_eq_some.mpr
        ⟨s₁, out, outs', hwatched, hrest, rfl⟩⟩
    · intro h
      obtain ⟨awaited, hrun⟩ := h
      obtain ⟨s₁, out, outs', hstep, hrest, rfl⟩ := Machine.run_cons_eq_some _ |>.mp hrun
      obtain ⟨⟨k₁, out'⟩, hstep', heq⟩ := Option.map_eq_some_iff.mp hstep
      cases heq
      exact ⟨k₁, out', outs', hstep', ih.mpr ⟨awaited, hrest⟩, rfl⟩

/-! ## Inert plans -/

/-- Entries that do not decode are passed over. -/
theorem nodesLoop_of_undecoded {k : Kademlia M} {nodes : Nodes}
    (h : ∀ entry ∈ nodes, W.peer.fromBytes entry = none) :
    (nodesLoop W).run k nodes = some (k, []) := by
  induction nodes with
  | nil => rfl
  | cons entry nodes ih =>
    have hstep : handleNode W k entry = some (k, []) := by
      rw [handleNode, h entry List.mem_cons_self]
    have hrest := ih fun e he => h e (List.mem_cons_of_mem entry he)
    exact (nodesLoop W).run_cons_eq_some.mpr ⟨k, [], [], hstep, hrest, rfl⟩

theorem execute_of_inert {k : Kademlia M} {plan : Plan} (h : Inert W plan) :
    execute W k plan = some (k, []) := by
  obtain ⟨hsender, htodo⟩ := h
  have hstore : storeSender k plan = some k := by rw [storeSender, hsender]
  rw [execute, hstore, Option.bind_some]
  rcases htodo with h | h | ⟨nodes, h, hnodes⟩
  · rw [h]
    rfl
  · rw [h]
    rfl
  · rw [h]
    exact nodesLoop_of_undecoded hnodes

/-- All clock readings to come are `r` or later. -/
def Late (r : Nat) (k : Kademlia M) : Prop := ∀ n, r ≤ (k.draws n).now

/-- Some bucket was updated at `r` or later. -/
def Touched (r : Nat) (t : RoutingTable M) : Prop :=
  ∃ name b, t.tree.lookup name = some b ∧ r ≤ b.lastUpdated

omit [LinkedHashMap PeerId PeerInfo M] in
theorem Late.tick {r : Nat} {k : Kademlia M} (h : Late r k) : Late r k.tick := fun n => h (n + 1)

theorem Late.updatePeer {r : Nat} {k k' : Kademlia M} {peer : PeerInfo} (h : Late r k)
    (hupdate : k.updatePeer peer = some k') : Late r k' := by
  obtain ⟨dest, -, rfl⟩ := updatePeer_eq_some.mp hupdate
  exact h.tick

/-- An update touches the table. -/
theorem Late.touched {r : Nat} {k k' : Kademlia M} {peer : PeerInfo} (h : Late r k)
    (hupdate : k.updatePeer peer = some k') : Touched r k'.routingTable := by
  obtain ⟨dest, -, rfl⟩ := updatePeer_eq_some.mp hupdate
  refine ⟨dest, (k.routingTable.bucketAt (k.draws 0).now dest).upsert peer (k.draws 0).now, ?_, h 0⟩
  exact (RoutingTable.lookup_put _ _ _ _ _).trans (if_pos rfl)

/-- A touched table stays touched. -/
theorem Effects.touched {r : Nat} {k k' : Kademlia M} {out : List Outgoing} (h : Effects W k k' out)
    (hlate : Late r k) (htouched : Touched r k.routingTable) : Touched r k'.routingTable := by
  refine (h.invariant (P := fun s => Late r s ∧ Touched r s.routingTable)
    (fun s hs => ⟨hs.1.tick, hs.2⟩) ?_ ⟨hlate, htouched⟩).2
  intro s s' peer hs hupdate
  exact ⟨hs.1.updatePeer hupdate, hs.1.touched hupdate⟩

theorem Effects.late {r : Nat} {k k' : Kademlia M} {out : List Outgoing} (h : Effects W k k' out)
    (hlate : Late r k) : Late r k' :=
  h.invariant (P := Late r) (fun _ hs => hs.tick) (fun _ _ _ hs hupdate => hs.updatePeer hupdate)
    hlate

/-- An entry that decodes touches the table. -/
theorem touched_of_nodesLoop {r : Nat} {k k' : Kademlia M} {nodes : Nodes} {out : List Outgoing}
    (hrun : (nodesLoop W).run k nodes = some (k', out)) (hlate : Late r k) {entry : Peer}
    (hentry : entry ∈ nodes) {info : PeerInfo} (hread : W.peer.fromBytes entry = some info) :
    Touched r k'.routingTable := by
  induction nodes generalizing k out with
  | nil => cases hentry
  | cons first nodes ih =>
    obtain ⟨k₁, o, out', hstep, hrest, rfl⟩ := (nodesLoop W).run_cons_eq_some.mp hrun
    have hlate' : Late r k₁ := (Effects.node hstep).late hlate
    rcases List.mem_cons.mp hentry with rfl | hentry
    · have htouched : Touched r k₁.routingTable := by
        rcases handleNode_cases hstep with ⟨hnone, -, -⟩ | ⟨info', -, ⟨-, hupdate, -⟩ |
          ⟨-, k₂, o', hupdate, hboot, -⟩⟩
        · rw [hread] at hnone
          cases hnone
        · exact hlate.touched hupdate
        · exact (Effects.bootstrap hboot).touched (hlate.updatePeer hupdate)
            (hlate.touched hupdate)
      exact (Effects.nodesLoop hrest).touched hlate' htouched
    · exact ih hrest hlate' hentry

/-- All buckets were updated before the next clock reading, and the readings go on. -/
def Ticking (k : Kademlia M) : Prop :=
  (∀ name b, k.routingTable.tree.lookup name = some b → b.lastUpdated < (k.draws 0).now) ∧
  ∀ n, (k.draws n).now < (k.draws (n + 1)).now

omit [LinkedHashMap PeerId PeerInfo M] in
theorem Ticking.late {k : Kademlia M} (h : Ticking k) : Late (k.draws 0).now k := by
  intro n
  induction n with
  | zero => exact le_rfl
  | succ n ih => exact ih.trans (h.2 n).le

theorem Ticking.not_sameTable {k : Kademlia M} (h : Ticking k) {t : RoutingTable M}
    (ht : Touched (k.draws 0).now t) : ¬ k.routingTable.SameTable t := by
  intro hsame
  obtain ⟨name, b, hb, hlate⟩ := ht
  have hbucket := hsame.2 name
  rw [hb, Option.map_some, eq_comm, Option.map_eq_some_iff] at hbucket
  obtain ⟨b', hb', heq⟩ := hbucket
  have hbefore := h.1 name b' hb'
  have htime : b'.lastUpdated = b.lastUpdated := (Prod.mk.inj heq).2
  omega

theorem Effects.ticking {k k' : Kademlia M} {out : List Outgoing} (h : Effects W k k' out)
    (hk : Ticking k) : Ticking k' := by
  have htick : ∀ s : Kademlia M, Ticking s → Ticking s.tick := fun s hs =>
    ⟨fun name b hb => (hs.1 name b hb).trans (hs.2 0), fun n => hs.2 (n + 1)⟩
  refine h.invariant htick ?_ hk
  intro s s' peer hs hupdate
  obtain ⟨dest, -, rfl⟩ := updatePeer_eq_some.mp hupdate
  refine ⟨fun name b hb => ?_, (htick s hs).2⟩
  rw [RoutingTable.lookup_put] at hb
  split at hb
  · cases hb
    exact hs.2 0
  · exact (htick s hs).1 name b hb

/-- **A plan that does nothing is inert**, if the clock ticks: storing a peer would show in the time
of its bucket. -/
theorem inert_of_execute {k k' : Kademlia M} {plan : Plan} {out : List Outgoing} (hk : Ticking k)
    (hexec : execute W k plan = some (k', out))
    (hsame : k.routingTable.SameTable k'.routingTable) (hout : out = []) : Inert W plan := by
  have hlate := hk.late
  obtain ⟨k₁, hstore, hact⟩ := Option.bind_eq_some_iff.mp hexec
  have hsender : plan.sender = none := by
    cases hsender : plan.sender with
    | none => rfl
    | some sender =>
      rw [storeSender, hsender] at hstore
      have htouched := (Effects.act hact).touched (hlate.updatePeer hstore) (hlate.touched hstore)
      exact absurd hsame (hk.not_sameTable htouched)
  rw [storeSender, hsender] at hstore
  cases hstore
  refine ⟨hsender, ?_⟩
  cases htodo : plan.todo with
  | panic =>
    rw [htodo] at hact
    cases hact
  | lost => exact Or.inl rfl
  | nothing => exact Or.inr (Or.inl rfl)
  | add peer =>
    rw [htodo] at hact
    obtain ⟨k₁, hupdate, heq⟩ := Option.map_eq_some_iff.mp hact
    cases heq
    exact absurd hsame (hk.not_sameTable (hlate.touched hupdate))
  | lookup node request =>
    rw [htodo] at hact
    obtain ⟨closestPeers, -, hact⟩ := Option.bind_eq_some_iff.mp hact
    obtain ⟨k₁, hupdate, hannounce⟩ := Option.bind_eq_some_iff.mp hact
    have htouched := (Effects.announce hannounce).touched (hlate.updatePeer hupdate)
      (hlate.touched hupdate)
    exact absurd hsame (hk.not_sameTable htouched)
  | pong sender request =>
    rw [htodo] at hact
    obtain ⟨respMsg, -, heq⟩ := Option.map_eq_some_iff.mp hact
    cases heq
    cases hout
  | meet nodes =>
    rw [htodo] at hact
    refine Or.inr (Or.inr ⟨nodes, rfl, fun entry hentry => ?_⟩)
    cases hread : W.peer.fromBytes entry with
    | none => rfl
    | some info =>
      exact absurd hsame (hk.not_sameTable (touched_of_nodesLoop hact hlate hentry hread))

/-! ## Runs -/

def Watched.new (localInfo : PeerInfo) (now : Nat) (pending : HashSet InnerKey)
    (draws : Nat → Draw) : Watched M where
  node := Kademlia.new localInfo now pending draws
  awaited := ∅

theorem watched_step {depth : Nat} {s s' : Watched M} {e : Event} {out : List Outgoing}
    (h : (watched W depth).step s e = some (s', out)) :
    (machine W depth).step s.node e = some (s'.node, out) := by
  obtain ⟨⟨k, out'⟩, hstep, heq⟩ := Option.map_eq_some_iff.mp h
  cases heq
  exact hstep

theorem execute_of_watched (hW : W.Faithful localInfo) {depth : Nat} {s s' : Watched M}
    {message : KadMessage} {out : List Outgoing}
    (h : (watched W (depth + 2)).step s (.handleMessage message) = some (s', out)) :
    execute W s.node (planOf W message) = some (s'.node, out) := by
  rw [← handleMessage_eq hW depth]
  exact watched_step h

/-- **Step.** An unsolicited response is ignored if its plan is inert. -/
theorem ignored_of_inert (hW : W.Faithful localInfo) {depth : Nat} {s : Watched M} {e : Event}
    (h : UnsolicitedInert W s e) : Ignored W (depth + 2) s e := by
  rintro message rfl hunsolicited s' out hstep
  have hexec := execute_of_watched hW hstep
  rw [execute_of_inert (h message rfl hunsolicited)] at hexec
  obtain ⟨hnode, hout⟩ := Prod.mk.inj (Option.some.inj hexec)
  rw [← hnode]
  exact ⟨.refl _, hout.symm⟩

/-- And only if it is inert, while the clock ticks. -/
theorem inert_of_ignored (hW : W.Faithful localInfo) {depth : Nat} {s s' : Watched M} {e : Event}
    {out : List Outgoing} (hs : Ticking s.node)
    (hstep : (watched W (depth + 2)).step s e = some (s', out)) (h : Ignored W (depth + 2) s e) :
    UnsolicitedInert W s e := by
  rintro message rfl hunsolicited
  obtain ⟨hsame, hout⟩ := h message rfl hunsolicited s' out hstep
  exact inert_of_execute hs (execute_of_watched hW hstep) hsame hout

theorem ticking_new {localInfo : PeerInfo} {now : Nat} {pending : HashSet InnerKey}
    {draws : Nat → Draw} (hnow : now < (draws 0).now)
    (hticks : ∀ n, (draws n).now < (draws (n + 1)).now) :
    Ticking (new localInfo now pending draws : Kademlia M) := by
  refine ⟨fun name b hb => ?_, hticks⟩
  rw [new, RoutingTable.lookup_new] at hb
  split at hb
  · cases hb
    exact hnow
  · cases hb

/-- **Unsolicited responses are ignored** in every run in which all of them are inert; if the clock
ticks with every reading, in no other. -/
theorem unsolicited_ignored_iff (hW : W.Faithful localInfo) {depth now : Nat}
    {pending : HashSet InnerKey} {draws : Nat → Draw} {events : List Event} {s : Watched M}
    {outs : List Outgoing}
    (hrun : (watched W (depth + 2)).run (.new localInfo now pending draws) events =
      some (s, outs)) :
    ((watched W (depth + 2)).Always (UnsolicitedInert W)
        (.new localInfo now pending draws : Watched M) events →
      (watched W (depth + 2)).Always (Ignored W (depth + 2))
        (.new localInfo now pending draws : Watched M) events) ∧
    (now < (draws 0).now → (∀ n, (draws n).now < (draws (n + 1)).now) →
      (watched W (depth + 2)).Always (Ignored W (depth + 2))
        (.new localInfo now pending draws : Watched M) events →
      (watched W (depth + 2)).Always (UnsolicitedInert W)
        (.new localInfo now pending draws : Watched M) events) := by
  constructor
  · intro h
    exact Machine.Always.imp _ (fun _ _ => ignored_of_inert hW) h
  · intro hnow hticks h
    refine ((watched W (depth + 2)).always_congr_of_run (P := fun s => Ticking s.node) ?_ ?_
      (ticking_new hnow hticks) hrun).mpr h
    · intro s e s' out hs hstep
      exact (step_effects (watched_step hstep)).ticking hs
    · intro s e s' out hs hstep
      exact ⟨ignored_of_inert hW, inert_of_ignored hW hs hstep⟩

/-! ## Responses to no request -/

open RoutingTable

/-- A response with a value, which no handler looks at. -/
def valueResponse : Resp where
  request := reqJson someRequest
  receiver := peerJson (peerAt 128 0)
  payload := rpcJson (.value [1, 2, 3])

def valueWire : KadWire := .json localPeer [] [.value [1, 2, 3]] [someRequest] [valueResponse]

theorem planOf_value :
    planOf valueWire (.response (respJson valueResponse)) = ⟨none, .nothing⟩ := by
  have hread : readResponse valueWire (respJson valueResponse) =
      some (someRequest, some (.value [1, 2, 3])) := readResponse_json _ _ _ _ _ _ _ rfl rfl
  rw [planOf, responsePlan, hread]
  rfl

theorem value_ignored_iff : ∃ (s : Watched ListedNodes) (outs : List Outgoing),
    (watched valueWire 2).run (.new localPeer 0 ∅ someDraws)
      [.handleMessage (.response (respJson valueResponse))] = some (s, outs) ∧
    (watched valueWire 2).Always (Ignored valueWire 2)
      (.new localPeer 0 ∅ someDraws : Watched ListedNodes)
      [.handleMessage (.response (respJson valueResponse))] ∧
    ((watched valueWire 2).Always (Ignored valueWire 2)
        (.new localPeer 0 ∅ someDraws : Watched ListedNodes)
        [.handleMessage (.response (respJson valueResponse))] →
      (watched valueWire 2).Always (UnsolicitedInert valueWire)
        (.new localPeer 0 ∅ someDraws : Watched ListedNodes)
        [.handleMessage (.response (respJson valueResponse))]) := by
  have hfaithful : valueWire.Faithful localPeer := KadWire.json_faithful _ _ _ _ _
  have hinert : Inert valueWire (planOf valueWire (.response (respJson valueResponse))) := by
    rw [planOf_value]
    exact ⟨rfl, Or.inr (Or.inl rfl)⟩
  obtain ⟨awaited, hrun⟩ := (run_iff_watched (s := .new localPeer 0 ∅ someDraws)).mp
    (run_of_execute hfaithful (k := (new localPeer 0 ∅ someDraws : Kademlia ListedNodes))
      (execute_of_inert hinert))
  obtain ⟨hignored, hinert'⟩ := unsolicited_ignored_iff hfaithful hrun
  refine ⟨_, _, hrun, hignored ⟨?_, fun _ _ _ => trivial⟩,
    hinert' Nat.one_pos fun n => Nat.lt_succ_self (n + 1)⟩
  intro message hmessage _
  cases hmessage
  exact hinert

/-- The list of a response to no request is handled, although nothing was sent. -/
theorem unsolicited_list_heeded :
    ¬ ∀ (W : KadWire) (localInfo : PeerInfo), W.Faithful localInfo →
      ∀ (depth now : Nat) (pending : HashSet InnerKey) (draws : Nat → Draw) (events : List Event)
        (s : Watched ListedNodes) (outs : List Outgoing),
        (watched W (depth + 2)).run (.new localInfo now pending draws) events = some (s, outs) →
        (watched W (depth + 2)).Always (Ignored W (depth + 2))
          (.new localInfo now pending draws : Watched ListedNodes) events := by
  intro hall
  obtain ⟨k, outs, hrun, -⟩ := run_repeating
  obtain ⟨awaited, hwatched⟩ := (run_iff_watched (s := .new localPeer 0 ∅ someDraws)).mp hrun
  have hstep := Machine.run_singleton_eq_some _ |>.mp hwatched
  have hkey : answeredKey repeatingWire (.response (respJson repeatingResponse)) =
      some someRequest.id := by
    have hread : readResponse repeatingWire (respJson repeatingResponse) =
        some (someRequest, some (.nodes repeatedNodes)) := readResponse_json _ _ _ _ _ _ _ rfl rfl
    rw [answeredKey, hread]
    rfl
  -- nothing was sent, so nothing is awaited
  have hunsolicited : Unsolicited repeatingWire
      (.new localPeer 0 ∅ someDraws : Watched ListedNodes)
      (.response (respJson repeatingResponse)) :=
    ⟨someRequest.id, hkey, Finset.notMem_empty _⟩
  obtain ⟨hsame, hout⟩ := (hall _ _ repeatingWire_faithful 0 0 ∅ someDraws _ _ _ hwatched).1 _ rfl
    hunsolicited _ _ hstep
  have hexec := execute_of_watched repeatingWire_faithful hstep
  rw [planOf_repeating] at hexec
  have hticking : Ticking (new localPeer 0 ∅ someDraws : Kademlia ListedNodes) :=
    ticking_new Nat.one_pos fun n => Nat.lt_succ_self (n + 1)
  have hinert := inert_of_execute hticking hexec hsame hout
  -- but an entry of the list decodes
  obtain ⟨-, h | h | ⟨nodes, h, hnodes⟩⟩ := hinert
  · cases h
  · cases h
  · cases h
    have hnone := hnodes (peerJson localPeer) (by simp [repeatedNodes])
    have hsome : repeatingWire.peer.fromBytes (peerJson localPeer) = some localPeer :=
      ByteRep.reading_head _ _ _
    rw [hsome] at hnone
    cases hnone

end Kademlia

end Udp2p
