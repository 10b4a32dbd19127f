import QueryCheck.Proofs.Traversal.Events

/-!
# The nodes around an event

The chain of an event is made of its node and the nodes around it, the innermost
first. It is found in two ways, which agree in every document: a walk through all
events can carry it along, and it can be looked up by the path of the event.
-/

namespace QueryCheck

instance (upper lower : Path) : Decidable (upper.Above lower) :=
  inferInstanceAs (Decidable (upper.steps <:+ lower.steps))

namespace Outline

mutual

/-- The nodes on the way to a path, the innermost first. -/
def chainTo (target : Path) : Outline → List Node
  | .branch node path children =>
      if path.Above target then chainToAll target children ++ [node] else []

def chainToAll (target : Path) : List Outline → List Node
  | [] => []
  | outline :: outlines => outline.chainTo target ++ chainToAll target outlines

end

mutual

/-- The events of an outline inside of other nodes, each with its chain. -/
def located (outer : List Node) : Outline → List (List Node × Event)
  | .branch node path children =>
      (node :: outer, ⟨.enter, node, path⟩) ::
        (locatedAll (node :: outer) children ++ [(node :: outer, ⟨.leave, node, path⟩)])

def locatedAll (outer : List Node) : List Outline → List (List Node × Event)
  | [] => []
  | outline :: outlines => outline.located outer ++ locatedAll outer outlines

end

mutual

theorem map_located (outer : List Node) :
    (outline : Outline) → (outline.located outer).map Prod.snd = outline.events
  | .branch node path children => by
      simp [located, events, map_locatedAll (node :: outer) children]

theorem map_locatedAll (outer : List Node) :
    (outlines : List Outline) → (locatedAll outer outlines).map Prod.snd = eventsAll outlines
  | [] => rfl
  | outline :: outlines => by
      simp [locatedAll, eventsAll, map_located outer outline, map_locatedAll outer outlines]

end

theorem locatedAll_append (outer : List Node) (first second : List Outline) :
    locatedAll outer (first ++ second) = locatedAll outer first ++ locatedAll outer second := by
  induction first with
  | nil => rfl
  | cons outline first ih => simp [locatedAll, ih]

theorem locatedAll_singleton (outer : List Node) (outline : Outline) :
    locatedAll outer [outline] = outline.located outer :=
  List.append_nil _

theorem mem_locatedAll {outer : List Node} {place : List Node × Event} {outlines : List Outline} :
    place ∈ locatedAll outer outlines ↔ ∃ outline ∈ outlines, place ∈ outline.located outer := by
  induction outlines with
  | nil => simp [locatedAll]
  | cons outline outlines ih => simp [locatedAll, ih]

theorem mem_located {outer : List Node} {place : List Node × Event} {node : Node} {path : Path}
    {children : List Outline} :
    place ∈ (Outline.branch node path children).located outer ↔
      place = (node :: outer, ⟨.enter, node, path⟩) ∨ place ∈ locatedAll (node :: outer) children ∨
        place = (node :: outer, ⟨.leave, node, path⟩) := by
  simp [located]

theorem event_mem_of_located {outer chain : List Node} {event : Event} {outline : Outline}
    (member : (chain, event) ∈ outline.located outer) : event ∈ outline.events := by
  rw [← map_located outer outline]
  exact List.mem_map_of_mem member

theorem exists_located {event : Event} {outline : Outline} (outer : List Node)
    (member : event ∈ outline.events) : ∃ chain, (chain, event) ∈ outline.located outer := by
  rw [← map_located outer outline] at member
  obtain ⟨⟨chain, _⟩, inLocated, rfl⟩ := List.mem_map.mp member
  exact ⟨chain, inLocated⟩

/-- Nothing of an outline is on the way to a path that it is not above. -/
theorem chainTo_of_not_above {outline : Outline} {target : Path}
    (beside : ¬outline.path.Above target) : outline.chainTo target = [] := by
  cases outline with
  | branch node path children =>
      rw [chainTo]
      exact if_neg beside

theorem chainToAll_eq_nil {outlines : List Outline} {target : Path}
    (beside : ∀ outline ∈ outlines, ¬outline.path.Above target) :
    chainToAll target outlines = [] := by
  induction outlines with
  | nil => rfl
  | cons outline outlines ih =>
      obtain ⟨first, rest⟩ := List.forall_mem_cons.mp beside
      rw [chainToAll, chainTo_of_not_above first, ih rest]
      rfl

/-- Of outlines that are apart, only one is on the way to a path. -/
theorem chainToAll_eq {outlines : List Outline} {outline : Outline} {target : Path}
    (apart : outlines.Pairwise fun first second => first.path.Apart second.path)
    (member : outline ∈ outlines) (above : outline.path.Above target) :
    chainToAll target outlines = outline.chainTo target := by
  induction outlines with
  | nil => cases member
  | cons head outlines ih =>
      obtain ⟨away, apart⟩ := List.pairwise_cons.mp apart
      rw [chainToAll]
      rcases List.mem_cons.mp member with rfl | inRest
      · rw [chainToAll_eq_nil fun other isOther => (away other isOther).not_above above,
          List.append_nil]
      · rw [chainTo_of_not_above ((away outline inRest).symm.not_above above), ih apart inRest,
          List.nil_append]

/-- The chain of an event is found by its path. -/
theorem chainTo_located {outline : Outline} (placed : outline.Placed) {outer chain : List Node}
    {event : Event} (member : (chain, event) ∈ outline.located outer) :
    outline.chainTo event.path ++ outer = chain := by
  induction placed generalizing outer with
  | @branch node path children nested below apart inner ih =>
      have itself : chainToAll path children = [] := by
        refine chainToAll_eq_nil ?_
        intro child isChild above
        obtain ⟨segment, pushed⟩ := below child isChild
        exact Path.not_push_above path segment (pushed.trans above)
      rcases mem_located.mp member with same | inChild | same
      · cases same
        simp [chainTo, itself, Path.Above.refl]
      · obtain ⟨child, isChild, inLocated⟩ := mem_locatedAll.mp inChild
        have above := above_of_mem_events (inner child isChild) (event_mem_of_located inLocated)
        obtain ⟨segment, pushed⟩ := below child isChild
        have whole : path.Above event.path :=
          ((Path.above_push path segment).trans pushed).trans above
        rw [chainTo, if_pos whole, chainToAll_eq apart isChild above, List.append_assoc]
        exact ih child isChild inLocated
      · cases same
        simp [chainTo, itself, Path.Above.refl]

end Outline

end QueryCheck
