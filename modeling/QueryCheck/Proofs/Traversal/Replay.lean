import QueryCheck.Proofs.Traversal.Parts

/-!
# Traversals as replays of events

The events of a part of a document form one flat list. A visitor is called for one after the
other. If it skips a node that is entered, the events up to the one that leaves this node are
dropped, and if it stops, so is all the rest. The main result is that a traversal, from
whatever part it starts and however the visitor answers, gives what this replay gives.
-/

namespace QueryCheck

namespace Event

/-- The events after the one that leaves the node of an event. -/
def past (event : Event) (events : List Event) : List Event :=
  (events.dropWhile (· ≠ ⟨.leave, event.node, event.path⟩)).tail

/-- The events that come after one that was answered with a flow. -/
def following (event : Event) (flow : Flow) (events : List Event) : List Event :=
  if event.phase = .enter ∧ flow = .skip then event.past events else events

theorem length_following_le (event : Event) (flow : Flow) (events : List Event) :
    (event.following flow events).length ≤ events.length := by
  rw [following]
  split
  · rw [past, List.length_tail]
    exact Nat.le_trans (Nat.sub_le _ _) ((List.dropWhile_suffix _).length_le)
  · exact Nat.le_refl _

/-- What is skipped ends where the node is left for the first time. -/
theorem past_append {node : Node} {path : Path} {inner : List Event} (rest : List Event)
    (inside : (⟨.leave, node, path⟩ : Event) ∉ inner) :
    past ⟨.enter, node, path⟩ (inner ++ ⟨.leave, node, path⟩ :: rest) = rest := by
  have before : ∀ event ∈ inner, decide (event ≠ ⟨.leave, node, path⟩) = true := by
    intro event member
    refine decide_eq_true fun same => inside ?_
    rwa [← same]
  rw [past, List.dropWhile_append_of_pos before, List.dropWhile_cons_of_neg (by simp)]
  rfl

end Event

section Replay

variable {σ ο : Type}

def Reply.andThen (reply : Reply σ ο) (rest : Flow → σ → Reply σ ο) : Reply σ ο :=
  if reply.flow = .stop then reply else (rest reply.flow reply.state).after reply.out

/-- Calls a visitor for events one after the other. The flow is that of its last answer. -/
def replay (visitor : Visitor σ ο) (last : Flow) (events : List Event) (state : σ) : Reply σ ο :=
  match events with
  | [] => ⟨last, state, []⟩
  | event :: events =>
      (visitor event state).andThen fun flow state =>
        replay visitor flow (event.following flow events) state
termination_by events.length
decreasing_by exact Nat.lt_succ_of_le (event.length_following_le flow events)

/-- Calls a visitor for the events of a part. A list of parts is no node, so an answer to the last
of them is not that of the list. -/
def Root.replay (visitor : Visitor σ ο) (root : Root) (state : σ) : Reply σ ο :=
  let reply := QueryCheck.replay visitor .next (root.stream .root) state
  if root.node? = none ∧ reply.flow = .skip then { reply with flow := .next } else reply

variable {visitor : Visitor σ ο}

theorem Reply.after_andThen (reply : Reply σ ο) (out : List ο) (rest : Flow → σ → Reply σ ο) :
    (reply.after out).andThen rest = (reply.andThen rest).after out := by
  by_cases stop : reply.flow = .stop
  · simp [andThen, after, stop]
  · simp [andThen, after, stop, List.append_assoc]

theorem Reply.andThen_of_stop {reply : Reply σ ο} (stop : reply.flow = .stop)
    (rest : Flow → σ → Reply σ ο) : reply.andThen rest = reply :=
  if_pos stop

theorem Reply.andThen_of_next {reply : Reply σ ο} (going : reply.flow ≠ .stop)
    (rest : Flow → σ → Reply σ ο) :
    reply.andThen rest = (rest reply.flow reply.state).after reply.out :=
  if_neg going

theorem replay_cons (last : Flow) (event : Event) (events : List Event) (state : σ) :
    replay visitor last (event :: events) state =
      (visitor event state).andThen fun flow state =>
        replay visitor flow (event.following flow events) state := by
  rw [replay]

mutual

/-- The events of an outline are replayed as the outline is visited. -/
theorem replay_events (last : Flow) (rest : List Event) (state : σ) :
    (outline : Outline) → outline.Placed →
      replay visitor last (outline.events ++ rest) state =
        (outline.visit visitor state).andThen fun flow state => replay visitor flow rest state
  | .branch node path children, placed => by
      have inside : (⟨.leave, node, path⟩ : Event) ∉ Outline.eventsAll children :=
        Outline.not_mem_eventsAll placed .leave
      rw [Outline.events, List.cons_append, List.append_assoc, List.singleton_append, replay_cons]
      cases flow : (visitor ⟨.enter, node, path⟩ state).flow with
      | stop =>
          rw [Outline.visit_of_skip (by rw [flow]; decide), Reply.andThen_of_stop flow,
            Reply.andThen_of_stop flow]
      | skip =>
          have going : (visitor ⟨.enter, node, path⟩ state).flow ≠ .stop := by
            rw [flow]
            decide
          rw [Outline.visit_of_skip (by rw [flow]; decide), Reply.andThen_of_next going,
            Reply.andThen_of_next going, flow, Event.following, if_pos ⟨rfl, rfl⟩,
            Event.past_append rest inside]
      | next =>
          obtain ⟨later, _, inner⟩ := replay_eventsAll (by decide : Flow.next ≠ .stop)
            (⟨.leave, node, path⟩ :: rest) (visitor ⟨.enter, node, path⟩ state).state children
            placed.inner
          have left (last : Flow) (state : σ) :
              replay visitor last (⟨.leave, node, path⟩ :: rest) state =
                (visitor ⟨.leave, node, path⟩ state).andThen fun flow state =>
                  replay visitor flow rest state := replay_cons ..
          rw [Reply.andThen_of_next (by rw [flow]; decide), flow, Event.following,
            if_neg (by simp), inner]
          simp only [left]
          by_cases stop : (Outline.visitAll visitor children
              (visitor ⟨.enter, node, path⟩ state).state).flow = .stop
          · rw [Outline.visit_of_stop flow stop, Reply.andThen_of_stop stop, Reply.andThen_of_stop]
            exact stop
          · rw [Outline.visit_of_next flow stop, Reply.andThen_of_next stop, Reply.after_andThen,
              Reply.after_andThen]

/-- The events of several outlines are replayed as the outlines are visited. The flow of the last
answer may be that of the last of them. -/
theorem replay_eventsAll {last : Flow} (going : last ≠ .stop) (rest : List Event) (state : σ) :
    (outlines : List Outline) → (∀ outline ∈ outlines, outline.Placed) →
      ∃ flow, flow ≠ .stop ∧ replay visitor last (Outline.eventsAll outlines ++ rest) state =
        (Outline.visitAll visitor outlines state).andThen fun _ state =>
          replay visitor flow rest state
  | [], _ => ⟨last, going, rfl⟩
  | outline :: outlines, placed => by
      obtain ⟨first, others⟩ := List.forall_mem_cons.mp placed
      rw [Outline.eventsAll, List.append_assoc,
        replay_events last (Outline.eventsAll outlines ++ rest) state outline first]
      by_cases stop : (outline.visit visitor state).flow = .stop
      · refine ⟨last, going, ?_⟩
        rw [Outline.visitAll_of_stop stop, Reply.andThen_of_stop stop, Reply.andThen_of_stop stop]
      · obtain ⟨flow, goes, inner⟩ := replay_eventsAll stop rest
          (outline.visit visitor state).state outlines others
        refine ⟨flow, goes, ?_⟩
        rw [Outline.visitAll_of_next stop, Reply.andThen_of_next stop, inner, Reply.after_andThen]

end

end Replay

namespace Root

theorem course_placed (root : Root) :
    (∃ outline, root.course = .one outline ∧ outline.Placed) ∨
      ∃ outlines, root.course = .several outlines ∧ ∀ outline ∈ outlines, outline.Placed := by
  rcases root.course_cases with ⟨whole, rfl⟩ | ⟨outline, same, part⟩ | ⟨outlines, _, same, fan⟩
  · exact .inl ⟨_, rfl, Outline.placed_ofDocument whole⟩
  · exact .inl ⟨outline, same, part.placed⟩
  · exact .inr ⟨outlines, same, fan.placed⟩

/-- A part that is no node is visited as a list. -/
theorem node?_eq_none_iff (root : Root) :
    root.node? = none ↔ ∃ outlines, root.course = .several outlines := by
  rcases root with _ | ⟨_ | _⟩ | _ | _ | _ | _ | _ | ⟨_ | _ | _⟩ <;> simp [node?, course]

variable {σ ο : Type}

/-- A traversal is a replay of its events. -/
theorem visit_eq_replay (visitor : Visitor σ ο) (root : Root) (state : σ) :
    root.visit visitor state = root.replay visitor state := by
  rw [replay, ← events_eq_stream, events, visit_eq_course]
  rcases root.course_placed with ⟨outline, same, placed⟩ | ⟨outlines, same, placed⟩
  · have isNode : root.node? ≠ none := by
      rw [Ne, node?_eq_none_iff, same]
      rintro ⟨outlines, ⟨⟩⟩
    have whole := @replay_events σ ο visitor .next [] state outline placed
    rw [List.append_nil] at whole
    rw [same, Course.events, Course.visit, whole, if_neg fun list => isNode list.1]
    by_cases stop : (outline.visit visitor state).flow = .stop
    · rw [Reply.andThen_of_stop stop]
    · rw [Reply.andThen_of_next stop, QueryCheck.replay, Reply.after, List.append_nil]
  · have isList : root.node? = none := (node?_eq_none_iff root).mpr ⟨outlines, same⟩
    obtain ⟨flow, going, whole⟩ :=
      @replay_eventsAll σ ο visitor .next (by decide) [] state outlines placed
    rw [List.append_nil] at whole
    rw [same, Course.events, Course.visit, whole, isList]
    rcases Outline.flow_visitAll visitor outlines state with stop | next
    · rw [Reply.andThen_of_stop stop, if_neg (by simp [stop])]
    · -- Here the last answer can be a skip, which is not one of the list.
      rw [Reply.andThen_of_next (by rw [next]; decide), QueryCheck.replay, Reply.after,
        List.append_nil]
      cases answered : Outline.visitAll visitor outlines state with
      | mk last after out =>
          rw [answered] at next
          cases flow with
          | stop => exact absurd rfl going
          | next => simpa using next
          | skip => simpa using next

/-! ## The paths of events -/

/-- Each node is entered and left at one path. -/
theorem enter_mem_stream_iff (root : Root) (start : Path) (node : Node) (path : Path) :
    ⟨.enter, node, path⟩ ∈ root.stream start ↔ ⟨.leave, node, path⟩ ∈ root.stream start := by
  induction root using byParts generalizing start with
  | each root below =>
      have inner : (⟨.enter, node, path⟩ : Event) ∈
          (root.parts.flatMap fun entry => entry.2.stream (start.push entry.1)) ↔
            ⟨.leave, node, path⟩ ∈
              root.parts.flatMap fun entry => entry.2.stream (start.push entry.1) := by
        rw [List.mem_flatMap, List.mem_flatMap]
        refine exists_congr fun entry => and_congr_right fun member => ?_
        exact below entry member _
      rw [stream_eq]
      cases root.node? with
      | some top => simp [around, inner, or_comm]
      | none => exact inner

theorem ofNode_injective {first second : Node} (same : ofNode first = ofNode second) :
    first = second := by
  cases first <;> cases second <;> cases same <;> rfl

/-- The paths of the events of a traversal tell its nodes apart. -/
structure Addressed (root : Root) : Prop where
  /-- The path of an event leads to its node. -/
  leads : ∀ event ∈ root.stream .root, root.follow? event.path = some (.ofNode event.node)
  /-- A node is left at the path at which it is entered. -/
  paired : ∀ node path,
    ⟨.enter, node, path⟩ ∈ root.stream .root ↔ ⟨.leave, node, path⟩ ∈ root.stream .root
  /-- No two nodes are entered, or left, at the same path. -/
  apart : ∀ phase, (((root.stream .root).filter (·.phase = phase)).map Event.path).Nodup

theorem addressed (root : Root) : root.Addressed := by
  have leads : ∀ event ∈ root.stream .root,
      root.follow? event.path = some (.ofNode event.node) := by
    intro event member
    rw [← events_eq_stream] at member
    exact root.follow?_of_mem_events member
  refine ⟨leads, root.enter_mem_stream_iff .root, fun phase => ?_⟩
  have nodup : ((root.stream .root).filter (·.phase = phase)).Nodup := by
    rw [← events_eq_stream]
    exact root.nodup_events.filter _
  refine nodup.map_on ?_
  intro first isFirst second isSecond same
  obtain ⟨inFirst, ofFirst⟩ := List.mem_filter.mp isFirst
  obtain ⟨inSecond, ofSecond⟩ := List.mem_filter.mp isSecond
  have nodes : some (ofNode first.node) = some (ofNode second.node) := by
    rw [← leads first inFirst, ← leads second inSecond, same]
  have phases : first.phase = second.phase :=
    (of_decide_eq_true ofFirst).trans (of_decide_eq_true ofSecond).symm
  cases first
  cases second
  cases phases
  cases same
  cases ofNode_injective (Option.some.inj nodes)
  rfl

/-- From whatever part of a document a traversal starts, and however its visitor answers, it gives
what a replay of the events of that part gives, and the paths of these events tell the nodes
apart. -/
theorem visit_replays (root : Root) :
    (∀ (σ ο : Type) (visitor : Visitor σ ο) (state : σ),
      root.visit visitor state = root.replay visitor state) ∧ root.Addressed :=
  ⟨fun _ _ visitor state => visit_eq_replay visitor root state, addressed root⟩

end Root

end QueryCheck
