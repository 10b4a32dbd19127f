import QueryCheck.Proofs.Traversal.Events
import QueryCheck.Proofs.Traversal.Walk

/-!
# Traversals as runs over events

A traversal comes to the same as reading the events of its course one after the
other. A visitor that skipped a node passes over what comes until that node is
left, and one that stopped passes over the rest. The advantage over the traversal
itself is that several visitors can be run over the same events, however they
answer, and compared event by event.
-/

namespace QueryCheck

/-- How a visitor takes part in the events to come. It is called; or it passes over the rest of a
node that it skipped, inside of which some nodes are open; or it passes over all of them. -/
inductive Progress where
  | running
  | skipping (opened : Nat)
  | stopped
deriving DecidableEq, Repr

structure Run (σ : Type) where
  progress : Progress
  state : σ
deriving DecidableEq, Repr

namespace Progress

def answered : Phase → Flow → Progress
  | _, .stop => stopped
  | .enter, .skip => skipping 0
  | _, _ => running

/-- The progress after an event that was passed over. -/
def passed (phase : Phase) : Progress → Progress
  | running => running
  | skipping opened =>
      match phase, opened with
      | .enter, opened => skipping (opened + 1)
      | .leave, 0 => running
      | .leave, opened + 1 => skipping opened
  | stopped => stopped

def ended : Flow → Progress
  | .stop => stopped
  | _ => running

theorem ended_eq_stopped {flow : Flow} : ended flow = stopped ↔ flow = .stop := by
  cases flow <;> simp [ended]

theorem passed_eq_stopped {phase : Phase} {progress : Progress} :
    progress.passed phase = stopped ↔ progress = stopped := by
  cases progress with
  | running => rfl
  | stopped => rfl
  | skipping opened => cases phase <;> cases opened <;> simp [passed]

end Progress

namespace Run

variable {σ ο : Type}

/-- Goes one event further. Gives what the visitor put out, if it was called. -/
def feed (visitor : Visitor σ ο) (run : Run σ) (event : Event) : Run σ × List ο :=
  match run.progress with
  | .running =>
      let answer := visitor event run.state
      (⟨.answered event.phase answer.flow, answer.state⟩, answer.out)
  | progress => (⟨progress.passed event.phase, run.state⟩, [])

def along (visitor : Visitor σ ο) : List Event → Run σ → Run σ
  | [], run => run
  | event :: events, run => along visitor events (run.feed visitor event).1

/-- What a visitor puts out at each event of a sequence. -/
def rows (visitor : Visitor σ ο) : List Event → Run σ → List (List ο)
  | [], _ => []
  | event :: events, run =>
      (run.feed visitor event).2 :: rows visitor events (run.feed visitor event).1

variable {visitor : Visitor σ ο}

theorem feed_passing {run : Run σ} {event : Event} (passing : run.progress ≠ .running) :
    run.feed visitor event = (⟨run.progress.passed event.phase, run.state⟩, []) := by
  obtain ⟨progress, state⟩ := run
  cases progress with
  | running => exact absurd rfl passing
  | skipping opened => rfl
  | stopped => rfl

theorem feed_of_pass {state next : σ} {event : Event} (answer : visitor event state = .pass next) :
    feed visitor ⟨.running, state⟩ event = (⟨.running, next⟩, []) := by
  simp only [feed, answer, Reply.pass]
  cases event.phase <;> rfl

theorem along_append (first second : List Event) (run : Run σ) :
    along visitor (first ++ second) run = along visitor second (along visitor first run) := by
  induction first generalizing run with
  | nil => rfl
  | cons event first ih => exact ih _

theorem rows_append (first second : List Event) (run : Run σ) :
    rows visitor (first ++ second) run =
      rows visitor first run ++ rows visitor second (along visitor first run) := by
  induction first generalizing run with
  | nil => rfl
  | cons event first ih => exact congrArg _ (ih _)

theorem length_rows (events : List Event) (run : Run σ) :
    (rows visitor events run).length = events.length := by
  induction events generalizing run with
  | nil => rfl
  | cons event events ih => exact congrArg (· + 1) (ih _)

structure Passes (visitor : Visitor σ ο) (events : List Event) (run : Run σ) : Prop where
  along : along visitor events run = run
  rows : rows visitor events run = events.map fun _ => []

namespace Passes

variable {events first second : List Event} {run : Run σ}

theorem flatten (passes : Passes visitor events run) :
    (Run.rows visitor events run).flatten = [] := by
  rw [passes.rows, List.flatten_eq_nil_iff]
  intro row member
  obtain ⟨event, _, rfl⟩ := List.mem_map.mp member
  rfl

theorem append (ahead : Passes visitor first run) (behind : Passes visitor second run) :
    Passes visitor (first ++ second) run := by
  constructor
  · rw [along_append, ahead.along, behind.along]
  · rw [rows_append, ahead.along, ahead.rows, behind.rows, List.map_append]

end Passes

theorem passes_stopped (events : List Event) (state : σ) :
    Passes visitor events ⟨.stopped, state⟩ := by
  induction events with
  | nil => exact ⟨rfl, rfl⟩
  | cons event events ih => exact ⟨ih.along, congrArg _ ih.rows⟩

mutual

/-- Inside a node that was skipped, the nodes that are opened are closed again. -/
theorem passes_skipping (opened : Nat) (state : σ) :
    (outline : Outline) → Passes visitor outline.events ⟨.skipping opened, state⟩
  | .branch node path children => by
      have inner := passes_skippingAll (opened + 1) state children
      constructor
      · change along visitor (Outline.eventsAll children ++ [⟨.leave, node, path⟩])
          ⟨.skipping (opened + 1), state⟩ = _
        rw [along_append, inner.along]
        rfl
      · rw [Outline.events, List.map_cons, List.map_append, ← inner.rows]
        change [] :: rows visitor (Outline.eventsAll children ++ [⟨.leave, node, path⟩])
          ⟨.skipping (opened + 1), state⟩ = _
        rw [rows_append, inner.along]
        rfl

theorem passes_skippingAll (opened : Nat) (state : σ) :
    (outlines : List Outline) →
      Passes visitor (Outline.eventsAll outlines) ⟨.skipping opened, state⟩
  | [] => ⟨rfl, rfl⟩
  | outline :: outlines =>
      (passes_skipping opened state outline).append (passes_skippingAll opened state outlines)

end

/-- A run over events comes to the same as a traversal that gave a reply. -/
structure Matches (visitor : Visitor σ ο) (events : List Event) (state : σ) (reply : Reply σ ο) :
    Prop where
  along : along visitor events ⟨.running, state⟩ = ⟨.ended reply.flow, reply.state⟩
  rows : (rows visitor events ⟨.running, state⟩).flatten = reply.out

namespace Matches

variable {first second : List Event} {state : σ} {reply later : Reply σ ο}

/-- What comes after the end of a stopped traversal is passed over. -/
theorem halt (ahead : Matches visitor first state reply) (stop : reply.flow = .stop)
    (second : List Event) : Matches visitor (first ++ second) state reply := by
  have along := ahead.along
  rw [stop] at along
  have rest : Passes visitor second ⟨.stopped, reply.state⟩ := passes_stopped second reply.state
  constructor
  · rw [along_append, along, stop]
    exact rest.along
  · rw [rows_append, along, List.flatten_append, ahead.rows]
    exact (congrArg _ rest.flatten).trans (List.append_nil _)

/-- A traversal that did not stop goes on with what comes after it. -/
theorem next (ahead : Matches visitor first state reply) (goes : reply.flow ≠ .stop)
    (behind : Matches visitor second reply.state later) :
    Matches visitor (first ++ second) state (later.after reply.out) := by
  have along := ahead.along
  have running : Progress.ended reply.flow = .running := by
    cases flow : reply.flow with
    | stop => exact absurd flow goes
    | next => rfl
    | skip => rfl
  rw [running] at along
  constructor
  · rw [along_append, along, behind.along]
    rfl
  · rw [rows_append, along, List.flatten_append, ahead.rows, behind.rows]
    rfl

/-- Entering a node whose inner events are gone through. -/
theorem enter {node : Node} {path : Path}
    (goes : (visitor ⟨.enter, node, path⟩ state).flow = .next)
    (inner : Matches visitor first (visitor ⟨.enter, node, path⟩ state).state reply) :
    Matches visitor (⟨.enter, node, path⟩ :: first) state
      (reply.after (visitor ⟨.enter, node, path⟩ state).out) := by
  have fed : feed visitor ⟨.running, state⟩ ⟨.enter, node, path⟩ =
      (⟨.running, (visitor ⟨.enter, node, path⟩ state).state⟩,
        (visitor ⟨.enter, node, path⟩ state).out) := by
    simp only [feed, goes, Progress.answered]
  constructor
  · rw [Run.along, fed, inner.along]
    rfl
  · rw [Run.rows, fed, List.flatten_cons, inner.rows]
    rfl

theorem leave (node : Node) (path : Path) (state : σ) :
    Matches visitor [⟨.leave, node, path⟩] state (visitor ⟨.leave, node, path⟩ state) := by
  constructor
  · simp only [Run.along, feed]
    cases (visitor ⟨.leave, node, path⟩ state).flow <;> rfl
  · simp [Run.rows, feed]

/-- Entering a node whose inner events are passed over. -/
theorem skip {node : Node} {path : Path} {children : List Outline}
    (flow : (visitor ⟨.enter, node, path⟩ state).flow ≠ .next) :
    Matches visitor (Outline.branch node path children).events state
      (visitor ⟨.enter, node, path⟩ state) := by
  cases answer : visitor ⟨.enter, node, path⟩ state with
  | mk answerFlow answerState out =>
      rw [answer] at flow
      cases answerFlow with
      | next => exact absurd rfl flow
      | skip =>
          have inner : Passes visitor (Outline.eventsAll children) ⟨.skipping 0, answerState⟩ :=
            passes_skippingAll 0 answerState children
          constructor
          · rw [Outline.events, Run.along, feed, answer]
            change Run.along visitor _ ⟨.skipping 0, answerState⟩ = _
            rw [along_append, inner.along]
            rfl
          · rw [Outline.events, Run.rows, feed, answer]
            change out ++ (Run.rows visitor _ ⟨.skipping 0, answerState⟩).flatten = out
            rw [rows_append, inner.along, List.flatten_append, inner.flatten]
            exact List.append_nil _
      | stop =>
          have rest : Passes visitor (Outline.eventsAll children ++ [⟨.leave, node, path⟩])
            ⟨.stopped, answerState⟩ := passes_stopped _ answerState
          constructor
          · rw [Outline.events, Run.along, feed, answer]
            exact rest.along
          · rw [Outline.events, Run.rows, feed, answer]
            exact (congrArg (out ++ ·) rest.flatten).trans (List.append_nil _)

end Matches

mutual

/-- A traversal of an outline is a run over its events. -/
theorem matches_visit (state : σ) :
    (outline : Outline) → Matches visitor outline.events state (outline.visit visitor state)
  | .branch node path children => by
      have inner := matches_visitAll (visitor ⟨.enter, node, path⟩ state).state children
      by_cases next : (visitor ⟨.enter, node, path⟩ state).flow = .next
      · by_cases stop : (Outline.visitAll visitor children
            (visitor ⟨.enter, node, path⟩ state).state).flow = .stop
        · rw [Outline.visit_of_stop next stop]
          exact (inner.halt stop _).enter next
        · rw [Outline.visit_of_next next stop]
          exact (inner.next stop (.leave node path _)).enter next
      · rw [Outline.visit_of_skip next]
        exact .skip next

theorem matches_visitAll (state : σ) :
    (outlines : List Outline) →
      Matches visitor (Outline.eventsAll outlines) state (Outline.visitAll visitor outlines state)
  | [] => ⟨rfl, rfl⟩
  | outline :: outlines => by
      have first := matches_visit state outline
      by_cases stop : (outline.visit visitor state).flow = .stop
      · rw [Outline.visitAll_of_stop stop]
        exact first.halt stop _
      · rw [Outline.visitAll_of_next stop]
        exact first.next stop (matches_visitAll (outline.visit visitor state).state outlines)

end

/-- A traversal that starts at any part of a document is a run over its events. -/
theorem matches_root (state : σ) (root : Root) :
    Matches visitor root.events state (root.visit visitor state) := by
  rw [Root.events, Root.visit_eq_course]
  cases root.course with
  | one outline => exact matches_visit state outline
  | several outlines => exact matches_visitAll state outlines

theorem state_visit (root : Root) (state : σ) :
    (root.visit visitor state).state = (along visitor root.events ⟨.running, state⟩).state :=
  (congrArg Run.state (matches_root state root).along).symm

theorem out_visit (root : Root) (state : σ) :
    (root.visit visitor state).out = (rows visitor root.events ⟨.running, state⟩).flatten :=
  (matches_root state root).rows.symm

/-! ## Other states and outputs -/

section Mapped

variable {τ π : Type} {other : Visitor τ π} {image : σ → τ}

def map (image : σ → τ) (run : Run σ) : Run τ :=
  ⟨run.progress, image run.state⟩

/-- A visitor answers like another one whose states are shown as its own. -/
structure Mirrors (image : σ → τ) (visitor : Visitor σ ο) (other : Visitor τ π) : Prop where
  flow : ∀ event state, (other event (image state)).flow = (visitor event state).flow
  state : ∀ event state, (other event (image state)).state = image (visitor event state).state

theorem Mirrors.feed (mirrors : Mirrors image visitor other) (event : Event) (run : Run σ) :
    ((run.map image).feed other event).1 = (run.feed visitor event).1.map image := by
  obtain ⟨progress, current⟩ := run
  cases progress with
  | running => simp only [map, Run.feed, mirrors.flow, mirrors.state]
  | skipping opened => rfl
  | stopped => rfl

theorem Mirrors.along (mirrors : Mirrors image visitor other) (events : List Event) (run : Run σ) :
    along other events (run.map image) = (along visitor events run).map image := by
  induction events generalizing run with
  | nil => rfl
  | cons event events ih =>
      rw [Run.along, mirrors.feed, ih]
      rfl

/-- If in addition the outputs at each event are made from those of the other, so are the rows. -/
theorem Mirrors.rows_zipWith (mirrors : Mirrors image visitor other)
    {change : Event → List ο → List π} (silent : ∀ event, change event [] = [])
    (out : ∀ event state, (other event (image state)).out = change event (visitor event state).out)
    (events : List Event) (run : Run σ) :
    rows other events (run.map image) =
      List.zipWith change events (rows visitor events run) := by
  induction events generalizing run with
  | nil => rfl
  | cons event events ih =>
      have fed :
          ((run.map image).feed other event).2 = change event (run.feed visitor event).2 := by
        obtain ⟨progress, current⟩ := run
        cases progress with
        | running => exact out event current
        | skipping opened => exact (silent event).symm
        | stopped => exact (silent event).symm
      rw [rows, fed, mirrors.feed, ih]
      rfl

theorem Mirrors.rows_map (mirrors : Mirrors image visitor other) {change : List ο → List π}
    (silent : change [] = [])
    (out : ∀ event state, (other event (image state)).out = change (visitor event state).out)
    (events : List Event) (run : Run σ) :
    rows other events (run.map image) = (rows visitor events run).map change := by
  have length : (rows visitor events run).length ≤ events.length := Nat.le_of_eq (length_rows _ _)
  calc
    rows other events (run.map image) =
        List.zipWith (fun _ => change) events (rows visitor events run) :=
      mirrors.rows_zipWith (fun _ => silent) out events run
    _ = ((events.zip (rows visitor events run)).map Prod.snd).map change := by
      rw [← List.map_uncurry_zip_eq_zipWith, List.map_map]
      rfl
    _ = (rows visitor events run).map change := by rw [List.map_snd_zip length]

/-- A visitor that puts out the same as the one it mirrors. -/
theorem Mirrors.rows_same {other : Visitor τ ο} (mirrors : Mirrors image visitor other)
    (out : ∀ event state, (other event (image state)).out = (visitor event state).out)
    (events : List Event) (run : Run σ) :
    rows other events (run.map image) = rows visitor events run := by
  have same : rows other events (run.map image) = (rows visitor events run).map id :=
    mirrors.rows_map rfl out events run
  rw [same, List.map_id]

theorem Mirrors.out_visit_same {other : Visitor τ ο} (mirrors : Mirrors image visitor other)
    (out : ∀ event state, (other event (image state)).out = (visitor event state).out)
    (root : Root) (state : σ) :
    (root.visit other (image state)).out = (root.visit visitor state).out := by
  rw [Run.out_visit, Run.out_visit]
  exact congrArg List.flatten (mirrors.rows_same out root.events ⟨.running, state⟩)

/-- If each output is made into others, so is what a traversal puts out. -/
theorem Mirrors.out_visit (mirrors : Mirrors image visitor other) {change : ο → List π}
    (out : ∀ event state,
      (other event (image state)).out = (visitor event state).out.flatMap change)
    (root : Root) (state : σ) :
    (root.visit other (image state)).out = (root.visit visitor state).out.flatMap change := by
  have rows : rows other root.events ⟨.running, image state⟩ =
      (rows visitor root.events ⟨.running, state⟩).map (List.flatMap change) :=
    mirrors.rows_map rfl out root.events ⟨.running, state⟩
  rw [Run.out_visit, Run.out_visit, rows, List.flatMap_def, List.map_flatten, List.flatten_flatten,
    List.map_map]
  rfl

end Mapped

/-- A visitor that always goes on and never changes its state puts out what it says at each
event. -/
theorem rows_of_steady {state : σ} (next : ∀ event, (visitor event state).flow = .next)
    (same : ∀ event, (visitor event state).state = state) (events : List Event) :
    rows visitor events ⟨.running, state⟩ = events.map fun event => (visitor event state).out := by
  induction events with
  | nil => rfl
  | cons event events ih =>
      have fed : feed visitor ⟨.running, state⟩ event =
          (⟨.running, state⟩, (visitor event state).out) := by
        simp only [feed, next, same]
        cases event.phase <;> rfl
      rw [rows, fed, ih]
      rfl

/-! ## Rows by their events -/

def Invariant (holds : σ → Prop) (visitor : Visitor σ ο) : Prop :=
  ∀ event state, holds state → holds (visitor event state).state

theorem invariant_true (visitor : Visitor σ ο) : Invariant (fun _ => True) visitor :=
  fun _ _ _ => trivial

theorem Invariant.feed {holds : σ → Prop} (kept : Invariant holds visitor) {run : Run σ}
    (start : holds run.state) (event : Event) : holds (run.feed visitor event).1.state := by
  obtain ⟨progress, state⟩ := run
  cases progress with
  | running => exact kept event state start
  | skipping opened => exact start
  | stopped => exact start

theorem Invariant.along {holds : σ → Prop} (kept : Invariant holds visitor) {run : Run σ}
    (start : holds run.state) (events : List Event) :
    holds (Run.along visitor events run).state := by
  induction events generalizing run with
  | nil => exact start
  | cons event events ih => exact ih (kept.feed start event)

theorem mem_of_mem_feed {event : Event} {run : Run σ} {item : ο}
    (member : item ∈ (run.feed visitor event).2) : item ∈ (visitor event run.state).out := by
  obtain ⟨progress, state⟩ := run
  cases progress with
  | running => exact member
  | skipping opened => cases member
  | stopped => cases member

/-- What is put out is put out at one of the events and in a state that has all invariants. -/
theorem exists_of_mem_rows {holds : σ → Prop} (kept : Invariant holds visitor)
    {events : List Event} {run : Run σ} (start : holds run.state) {item : ο}
    (member : item ∈ (rows visitor events run).flatten) :
    ∃ event ∈ events, ∃ state, holds state ∧ item ∈ (visitor event state).out := by
  induction events generalizing run with
  | nil => cases member
  | cons event events ih =>
      rw [rows, List.flatten_cons] at member
      rcases List.mem_append.mp member with first | rest
      · exact ⟨event, List.mem_cons_self, run.state, start, mem_of_mem_feed first⟩
      · obtain ⟨later, isLater, out⟩ := ih (kept.feed start event) rest
        exact ⟨later, List.mem_cons_of_mem _ isLater, out⟩

/-- What holds of a state and of what is put out at each of some events holds all along them. -/
theorem forall_mem_rows {holds : σ → Prop} {shows : ο → Prop} {events : List Event}
    (kept : ∀ event ∈ events, ∀ state, holds state → holds (visitor event state).state)
    (shown : ∀ event ∈ events, ∀ state, holds state → ∀ item ∈ (visitor event state).out,
      shows item)
    {run : Run σ} (start : holds run.state) :
    ∀ item ∈ (rows visitor events run).flatten, shows item := by
  induction events generalizing run with
  | nil => exact nofun
  | cons event events ih =>
      have after : holds (run.feed visitor event).1.state := by
        obtain ⟨progress, state⟩ := run
        cases progress with
        | running => exact kept event List.mem_cons_self state start
        | skipping opened => exact start
        | stopped => exact start
      rw [rows, List.flatten_cons, List.forall_mem_append]
      refine ⟨fun item member => ?_, ih ?_ ?_ after⟩
      · exact shown event List.mem_cons_self run.state start item (mem_of_mem_feed member)
      · exact fun later isLater => kept later (List.mem_cons_of_mem event isLater)
      · exact fun later isLater => shown later (List.mem_cons_of_mem event isLater)

section Stamped

variable {stamp : ο → Event}

/-- What is put out carries the event at which this happens. -/
def Stamped (stamp : ο → Event) (visitor : Visitor σ ο) : Prop :=
  ∀ event state, ∀ item ∈ (visitor event state).out, stamp item = event

theorem stamp_of_mem_feed (stamped : Stamped stamp visitor) {event : Event} {run : Run σ}
    {item : ο} (member : item ∈ (run.feed visitor event).2) : stamp item = event :=
  stamped event run.state item (mem_of_mem_feed member)

theorem stamp_mem (stamped : Stamped stamp visitor) {events : List Event} {run : Run σ} {item : ο}
    (member : item ∈ (rows visitor events run).flatten) : stamp item ∈ events := by
  obtain ⟨event, isEvent, state, _, out⟩ :=
    exists_of_mem_rows (invariant_true visitor) trivial member
  rw [stamped event state item out]
  exact isEvent

/-- If outputs carry their events and no event comes twice, a row is found among all outputs. -/
theorem rows_eq_map_filter (stamped : Stamped stamp visitor) {events : List Event}
    (nodup : events.Nodup) (run : Run σ) :
    rows visitor events run =
      events.map fun event => (rows visitor events run).flatten.filter (stamp · = event) := by
  induction events generalizing run with
  | nil => rfl
  | cons event events ih =>
      obtain ⟨isNew, nodup⟩ := List.nodup_cons.mp nodup
      have row : (run.feed visitor event).2.filter (stamp · = event) =
          (run.feed visitor event).2 := by
        refine List.filter_eq_self.mpr ?_
        intro item member
        exact decide_eq_true (stamp_of_mem_feed stamped member)
      have rest : (rows visitor events (run.feed visitor event).1).flatten.filter
          (stamp · = event) = [] := by
        refine List.filter_eq_nil_iff.mpr ?_
        intro item member same
        rw [decide_eq_true_eq] at same
        exact isNew (same ▸ stamp_mem stamped member)
      rw [rows, List.flatten_cons, List.map_cons, List.filter_append, row, rest, List.append_nil]
      refine congrArg _ ?_
      refine (ih nodup _).trans (List.map_congr_left ?_)
      intro later isLater
      have none : (run.feed visitor event).2.filter (stamp · = later) = [] := by
        refine List.filter_eq_nil_iff.mpr ?_
        intro item member same
        rw [decide_eq_true_eq, stamp_of_mem_feed stamped member] at same
        exact isNew (same ▸ isLater)
      rw [List.filter_append, none, List.nil_append]

end Stamped

end Run

end QueryCheck
